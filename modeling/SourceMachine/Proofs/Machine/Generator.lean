import SourceMachine.Proofs.Machine.Attains

/-!
# Generators

The library of jumps has a function that makes generators.  A generator is asked for its next
value by a call.  The first call starts a walk through some data, with a function to yield
values; a value that is yielded goes to where the generator was asked, and what was left of the
walk is kept, as a piece of the stack.  The next call goes on with that piece, on top of the
stack of its own.

`Generator.Stands` says that a generator is there, and what it has kept.  Here is what the
functions do, on any stack: `makeGenerator` makes a generator, `Stands.yields` yields a value,
and `Stands.asked_first` and `Stands.asked_again` ask for one.
-/

namespace SourceMachine

open Config Heap Sketch

/-- Where things are that a generator works with. -/
structure Generator where
  base : Env
  block : ScopeId
  call : ScopeId
  yld : ClosureId
  it : ClosureId
  data : Value
  walk : Value
  home : ContinuationId

namespace Generator

/-- The scopes of the functions of a generator. -/
abbrev env (g : Generator) : Env :=
  [g.block, g.call] ++ g.base

/-- The slots of the scopes of a generator. -/
abbrev slots (g : Generator) (kept : Value) : List (Named Slot) :=
  [[("cc", .assigned kept true), ("yld", .assigned (.closure g.yld) false),
      ("it", .assigned (.closure g.it) false)],
    [("data", .assigned g.data true), ("walk", .assigned g.walk true),
      (returnPoint, .assigned (.continuation g.home) false)]]

/-- A generator is there, and this is what it has kept of its walk. -/
structure Stands (g : Generator) (h : Heap) (kept : Value) : Prop where
  sees : h.Sees [g.block, g.call] (g.slots kept) g.base
  yld : h.closure? g.yld = some ⟨Prelude.yld, g.env⟩
  it : h.closure? g.it = some ⟨Prelude.it, g.env⟩

variable {g : Generator} {limit : Nat} {goal : Config → Prop} {w : World} {h h' : Heap}
  {stack below piece : Stack} {env inner : Env} {v kept : Value} {span : Span}
  {touched : List ScopeId}

theorem Stands.moved {kept' : Value} (stands : g.Stands h kept) (grows : Grows touched h h')
    (sees : h'.Sees [g.block, g.call] (g.slots kept') g.base) : g.Stands h' kept' :=
  ⟨sees, grows.lasts.closures stands.yld, grows.lasts.closures stands.it⟩

theorem Stands.grows (stands : g.Stands h kept) (grows : Grows touched h h')
    (apart : ∀ id ∈ g.env, id ∉ touched) : g.Stands h' kept :=
  stands.moved grows (stands.sees.grows grows apart)

theorem Stands.grown (stands : g.Stands h kept) (grows : Grows [] h h') : g.Stands h' kept :=
  stands.grows grows fun _ _ => List.not_mem_nil

/-! ## Making a generator -/

theorem makeGenerator {base : Env} {f : ClosureId} {data walk : Value}
    (sees : h.Sees [] [] base) (closure : h.closure? f = some ⟨Prelude.makeGenerator, base⟩)
    (space : stack.depth + 5 ≤ limit)
    (onwards : ∀ h' (g : Generator), Grows [] h h' → g.base = base → g.data = data →
      g.walk = walk → (∀ id ∈ [g.block, g.call], h.scopes.size ≤ id.index) → g.Stands h' .null →
      From limit goal w h' (.value (.closure g.it)) env stack) :
    FromCall limit goal w h v inner stack (.closure f) [data, walk] span env := by
  have closure : h.closure? f = some ⟨Prelude.makeGenerator, [] ++ base⟩ := closure
  refine .enter ["data", "walk"] closure rfl rfl rfl
    (by show List.Nodup ["cc", "yld", "it"]; decide) sees (fits 4 space) ?_
  intro h₁ call block home grows₁ outside fresh sees₁ captured
  refine .declaration 0 (.literal .null) (.refl h₁) sees₁ rfl (fits 4 space) ?_
  intro h₂ grows₂ sees₂
  refine .next (fits 2 space) (.function sees₂ rfl rfl (fits 3 space) ?_)
  intro h₃ yld grows₃ yields sees₃
  refine .next (fits 1 space) (.function sees₃ rfl rfl (fits 2 space) ?_)
  intro h₄ it grows₄ asks sees₄
  refine .next (fits 0 space) ?_
  have later := grows₂.trans <| grows₃.trans grows₄
  refine .returns 0 (.sight sees₄ rfl) (sees₄.lookup? rfl) (later.lasts.continuations captured)
    (fits 1 space) (fits 0 space) ?_
  refine onwards h₄ ⟨base, block, call, yld, it, data, walk, home⟩ ?_ rfl rfl rfl
    (by simp [fresh, outside]) ⟨sees₄, grows₄.lasts.closures yields, asks⟩
  exact (grows₁.trans later).old (by simp [fresh])

/-! ## Yielding a value -/

/-- A value that is yielded goes to below the delimiter, and what is above it is kept. -/
theorem Stands.yields {u : Value} (stands : g.Stands h kept)
    (cut : stack.split? = some (piece, below)) (space : stack.depth + 2 ≤ limit)
    (onwards : ∀ h' k home env', Grows [g.block] h h' → g.Stands h' (.continuation k) →
      h'.continuation? k = some ⟨.delimited, home, piece⟩ →
      From limit goal w h' (.value u) env' below) :
    FromCall limit goal w h v inner stack (.closure g.yld) [u] span env := by
  refine .enter ["val"] stands.yld rfl rfl rfl (by decide) stands.sees (fits 1 space) ?_
  intro h₁ outer inner _ grows₁ _ _ sees₁ _
  refine .runs (fits 0 space) (.jump .shift _ sees₁ rfl (fits 1 space) ?_)
  intro h₂ f grows₂ closure sees₂
  refine .shift cut (fits 0 space) ?_
  intro h₃ k grows₃ keeps
  -- from here on the stack is the one below the delimiter, and so is the return point
  have cuts := Stack.depth_of_split cut
  have room : below.depth + 3 ≤ limit := by omega
  refine .enter ["k"] (grows₃.lasts.closures closure) rfl rfl rfl (by decide) (sees₂.grown grows₃)
    (fits 2 room) ?_
  intro h₄ _ _ _ grows₄ _ _ sees₄ captured
  refine .assign 0 (.sight sees₄ rfl) (.refl h₄) sees₄ rfl rfl (fits 2 room) ?_
  intro h₅ grows₅ sees₅
  refine .next (fits 0 room) (.returns 0 (.sight sees₅ rfl) (sees₅.lookup? rfl)
    (grows₅.lasts.continuations captured) (fits 1 room) (fits 0 room) ?_)
  have later := grows₄.trans grows₅
  have grows := grows₁.trans <| grows₂.trans <| grows₃.trans later
  exact onwards h₅ k _ _ grows (stands.moved grows sees₅.tail.tail.tail.tail)
    (later.lasts.continuations keeps)

/-! ## Asking for a value -/

/-- A call of the generator looks at what it has kept, and either starts the walk or goes on with
    it.  What is returned there, or yielded, goes to the caller. -/
theorem Stands.asked (stands : g.Stands h kept) (space : stack.depth + 6 ≤ limit)
    (onwards : ∀ h' around slots (top piece below : Stack), Grows [] h h' →
      h'.Sees around slots g.base →
      (∀ x, x ≠ returnPoint → Named.seek x slots = Named.seek x (g.slots kept)) →
      top.depth = stack.depth + 3 → top.split? = some (piece, below) → piece.depth = 1 →
      Leads limit h' below env stack → Leads limit h' top env stack →
      From limit goal w h'
        (.expression
        (if !TypeTest.continuation.holds kept then Sketch.call "walk" [name "yld", name "data"] else
        Sketch.call "cc" [null])) (around ++ g.base) top) :
    FromCall limit goal w h v inner stack (.closure g.it) [] span env := by
  refine .enter [] stands.it rfl rfl rfl (by decide) stands.sees (fits 1 space) ?_
  intro h₁ _ _ back grows₁ _ _ sees₁ captured
  refine .returning (sees₁.lookup? rfl) (fits 1 space) (.jump .reset _ sees₁ rfl (fits 2 space) ?_)
  intro h₂ f grows₂ closure sees₂
  refine .reset (fits 3 space) ?_
  refine .enter [] closure rfl rfl rfl (by decide) sees₂ (fits 3 space) ?_
  intro h₃ _ _ again grows₃ _ _ sees₃ captured'
  refine .returning (sees₃.lookup? rfl) (fits 3 space)
    (.chosen 2 (!TypeTest.continuation.holds kept) (.unary (.test sees₃ .continuation rfl rfl rfl)
      (by decide) rfl) (fits 6 space) ?_)
  -- two return points are on the stack, one on each side of the delimiter; both lead to the caller
  have home := (grows₂.trans grows₃).lasts.continuations captured
  have leads : ∀ env', Leads limit h₃
      (stack.push (.argument [] 0 [] (.continuation back) {} env')) env stack :=
    fun _ => .here home (fits 1 space) (fits 0 space)
  refine onwards h₃ _ _ _ _ _ (grows₁.trans <| grows₂.trans grows₃) sees₃ (fun x other => ?_) rfl
    (Stack.split?_push (Stack.split?_delimiter _) (by simp)) rfl (leads _) ?_
  · exact (Named.seek_called other again _).trans (Named.seek_called other back _)
  · exact ((leads _).passed (fits 1 space)).returned captured' (fits 3 space) (fits 2 space)

/-- The first call starts the walk. -/
theorem Stands.asked_first (stands : g.Stands h .null) (space : stack.depth + 6 ≤ limit)
    (onwards : ∀ h' env' (top piece below : Stack), Grows [] h h' →
      top.depth = stack.depth + 3 → top.split? = some (piece, below) → piece.depth = 1 →
      Leads limit h' below env stack → Leads limit h' top env stack →
      FromCall limit goal w h' g.walk env' top g.walk [.closure g.yld, g.data] {} env') :
    FromCall limit goal w h v inner stack (.closure g.it) [] span env := by
  refine stands.asked space ?_
  intro h' around slots top piece below grows sees same depth cut single leads leads'
  have gives (x : String) (other : x ≠ returnPoint) {u : Value} {isMutable : Bool}
      (found : Named.seek x (g.slots .null) = some (.assigned u isMutable)) :
      Gives (around ++ g.base) 0 h' (name x) u h' :=
    .sight sees ((same x other).trans found)
  refine .call 0 (gives "walk" (by decide) rfl)
    (.cons (gives "yld" (by decide) rfl) (.cons (gives "data" (by decide) rfl) .nil)) (by omega) ?_
  exact onwards h' _ top piece below grows depth cut single leads leads'

/-- A later call goes on with what was kept. -/
theorem Stands.asked_again {k : ContinuationId} {home : Env} {kept : Stack}
    (stands : g.Stands h (.continuation k))
    (captured : h.continuation? k = some ⟨.delimited, home, kept⟩)
    (space : stack.depth + kept.depth + 6 ≤ limit)
    (onwards : ∀ h' (top piece below : Stack), Grows [] h h' →
      top.depth = stack.depth + 3 → top.split? = some (piece, below) → piece.depth = 1 →
      Leads limit h' below env stack →
      From limit goal w h' (.value .null) home (top.splice kept)) :
    FromCall limit goal w h v inner stack (.closure g.it) [] span env := by
  refine stands.asked (by omega) ?_
  intro h' around slots top piece below grows sees same depth cut single leads _
  refine .call 0 (.sight sees ((same "cc" (by decide)).trans rfl)) (.cons (.literal .null) .nil)
    (by omega) ?_
  refine .splice (grows.lasts.continuations captured) (by rw [Stack.depth_splice]; omega) ?_
  exact onwards h' top piece below grows depth cut single leads

end Generator

end SourceMachine
