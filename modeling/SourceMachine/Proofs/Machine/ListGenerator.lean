import SourceMachine.Proofs.Machine.Generator

/-!
# A generator for the elements of a list

A walk through a list yields its first element and goes on with the others.  A program makes a
generator with this walk, asks it some number of times, each time for a constant of the program,
and lists the constants.

Each call of the generator that yields returns where it was made.  What is kept of the walk then
has the return points of all calls before; when the list is at its end the walk returns, through
these, to where the *first* call of the generator was made.  `Waits` says all this of a generator
that waits to be asked again: what it keeps, what elements are left, and where the end of the
list leads.

So the program gets the elements one after the other as long as there are some
(`Stands.enumerates`).  One call more completes the first declaration again and starts what is
after it again: with two elements or more a name is declared twice (`Stands.redeclares`), and
with one element the program goes around forever (`Loops.again`).
-/

namespace SourceMachine

open Config Heap Sketch

variable {x z : String} {q : Pause} {rest values us : List Value} {names todo : List String}
  {last : Stack}

namespace ListGenerator

/-- How a walk goes on after it has yielded the first element. -/
abbrev goesOn : Stmt :=
  returns (call "walk_list" [name "yld", call "tail" [name "xs"]])

/-- A walk through a list. -/
abbrev walkList : Function :=
  function "walk_list" ["yld", "xs"] [branch (call "is_null" [name "xs"]) [returns null]
    [run (call "yld" [call "head" [name "xs"]]), goesOn]]

/-- Declarations of constants by calls of the generator. -/
abbrev asks (names : List String) : List Stmt :=
  names.map fun x => constant x (call "g" [])

/-- The list of some constants. -/
abbrev lists (names : List String) : Stmt :=
  run (call "list" (names.map name))

/-- A program that makes a generator for a list of strings, asks it for some constants, and lists
    these. -/
def source (texts names : List String) : List Stmt :=
  .function walkList ::
    constant "g" (call "make_generator" [call "list" (texts.map string), name "walk_list"]) ::
      (asks names ++ [lists names])

/-- The names that the program uses for other things than the constants. -/
abbrev taken : List String :=
  ["walk_list", "g", "make_generator", "list", "is_null", "head", "tail"]

end ListGenerator

/-- Where things are that a generator for a list works with. -/
structure ListGenerator where
  generator : Generator
  program : ScopeId
  walk : ClosureId

namespace ListGenerator

/-- The scopes of the program. -/
abbrev env (t : ListGenerator) : Env :=
  [t.program] ++ t.generator.base

/-- The slots of the program have its functions, and have no names of builtin functions. -/
structure Knows (t : ListGenerator) (entries : Named Slot) : Prop where
  walk : entries.find? "walk_list" = some (.assigned (.closure t.walk) false)
  generator : entries.find? "g" = some (.assigned (.closure t.generator.it) false)
  absent : ∀ x ∈ ["is_null", "head", "tail", "list"], entries.find? x = none

/-- A generator for a list is there, and this is what it has kept of its walk. -/
structure Stands (t : ListGenerator) (h : Heap) (entries : Named Slot) (kept : Value) : Prop where
  sees : h.Sees [t.program] [entries] t.generator.base
  knows : t.Knows entries
  walk : h.closure? t.walk = some ⟨walkList, t.env⟩
  generator : t.generator.Stands h kept
  apart : t.program ∉ t.generator.env

variable {t : ListGenerator} {limit : Nat} {goal : Config → Prop} {w : World} {h h' : Heap}
  {stack below piece target : Stack} {env inner : Env} {u v kept : Value} {span : Span}
  {entries entries' : Named Slot} {others : List Value} {done : List String}

theorem Knows.bind (knows : t.Knows entries) (free : x ∉ taken) (slot : Slot) :
    t.Knows (entries.bind x slot) := by
  have other {y : String} (member : y ∈ taken) : y ≠ x := by
    rintro rfl
    exact free member
  refine ⟨?_, ?_, fun y member => ?_⟩
  · rw [Named.find?_bind_of_ne (other (by decide)), knows.walk]
  · rw [Named.find?_bind_of_ne (other (by decide)), knows.generator]
  · have member' : y ∈ taken := by
      simp only [List.mem_cons, List.not_mem_nil, or_false] at member ⊢
      tauto
    rw [Named.find?_bind_of_ne (other member'), knows.absent y member]

theorem Stands.grown (stands : t.Stands h entries kept) (grows : Grows [] h h') :
    t.Stands h' entries kept :=
  ⟨stands.sees.grown grows, stands.knows, grows.lasts.closures stands.walk,
    stands.generator.grown grows, stands.apart⟩

/-- Something else was kept. -/
theorem Stands.keeps {kept' : Value} (stands : t.Stands h entries kept)
    (grows : Grows [t.generator.block] h h') (generator : t.generator.Stands h' kept') :
    t.Stands h' entries kept' := by
  refine ⟨stands.sees.grows grows fun id member same => ?_, stands.knows,
    grows.lasts.closures stands.walk, generator, stands.apart⟩
  rw [List.mem_singleton] at same
  subst same
  rcases List.mem_cons.1 member with same | member
  · exact stands.apart (same ▸ List.mem_cons_self)
  · exact stands.generator.sees.ne_of_mem (List.mem_cons_of_mem _ member) rfl

/-- A constant was declared. -/
theorem Stands.declared (stands : t.Stands h entries kept) (grows : Grows [t.program] h h')
    (sees : h'.Sees [t.program] [entries'] t.generator.base) (knows : t.Knows entries') :
    t.Stands h' entries' kept := by
  refine ⟨sees, knows, grows.lasts.closures stands.walk,
    stands.generator.grows grows fun id member same => ?_, stands.apart⟩
  exact stands.apart (List.mem_singleton.1 same ▸ member)

/-! ## Walking -/

/-- A walk that has yielded: the scopes of its call and its return point, and what is above the
    delimiter. -/
structure Pause where
  block : ScopeId
  inner : ScopeId
  outer : ScopeId
  list : PairId
  first : Value
  rest : Value
  home : ContinuationId
  caller : Env × Stack
  above : Stack
  kept : ContinuationId
  origin : Env

/-- The scopes of the call of a walk. -/
abbrev Pause.scopes (q : Pause) : Env :=
  [q.block, q.inner, q.outer]

/-- The slots of the scopes of a walk. -/
abbrev Pause.slots (q : Pause) (t : ListGenerator) : List (Named Slot) :=
  [[], [], Named.called ["yld", "xs"] [.closure t.generator.yld, .pair q.list] q.home]

/-- What is kept of a walk. -/
abbrev Pause.remains (q : Pause) (t : ListGenerator) : Stack :=
  q.above.push (.exec goesOn (q.scopes ++ t.env))

/-- The generator waits to be asked again, with these elements left; a walk that is at its end
    goes back to the target. -/
structure Waits (t : ListGenerator) (limit : Nat) (target : Stack) (q : Pause) (h : Heap)
    (entries : Named Slot) (rest : List Value) : Prop where
  stands : t.Stands h entries (.continuation q.kept)
  kept : h.continuation? q.kept = some ⟨.delimited, q.origin, q.remains t⟩
  clear : .delimiter ∉ q.above.frames
  shown : List.Forall₂ h.Shows q.scopes (q.slots t)
  distinct : (q.scopes ++ t.env).Nodup
  apart : t.generator.block ∉ q.scopes
  list : h.pair? q.list = some (q.first, q.rest)
  left : h.IsListOf q.rest rest
  home : h.continuation? q.home = some ⟨.undelimited, q.caller.1, q.caller.2⟩
  fits : q.caller.2.depth ≤ limit
  leads : Leads limit h q.caller.2 t.env target

section

variable (waits : t.Waits limit target q h entries rest)

include waits

theorem Waits.moved {touched : List ScopeId} (grows : Grows touched h h')
    (apart : ∀ id ∈ q.scopes, id ∉ touched) (stands : t.Stands h' entries' (.continuation q.kept)) :
    t.Waits limit target q h' entries' rest :=
  ⟨stands, grows.lasts.continuations waits.kept, waits.clear,
    forall₂_shows_grows waits.shown grows apart, waits.distinct, waits.apart,
    grows.pairs waits.list, waits.left.grows grows, grows.lasts.continuations waits.home,
    waits.fits, waits.leads.lasts grows.lasts⟩

theorem Waits.grown (grows : Grows [] h h') : t.Waits limit target q h' entries rest :=
  waits.moved grows (fun _ _ => List.not_mem_nil) (waits.stands.grown grows)

theorem Waits.declared (grows : Grows [t.program] h h')
    (sees : h'.Sees [t.program] [entries'] t.generator.base) (knows : t.Knows entries') :
    t.Waits limit target q h' entries' rest := by
  refine waits.moved grows (fun id member same => ?_) (waits.stands.declared grows sees knows)
  rw [List.mem_singleton.1 same] at member
  exact (List.nodup_append.1 waits.distinct).2.2 _ member _ List.mem_cons_self rfl

end

/-- Names that are found in the program only. -/
theorem seek_program (slots : List (Named Slot)) (absent : Named.seek x slots = none)
    (entries : Named Slot) : Named.seek x (slots ++ [entries]) = entries.find? x := by
  rw [Named.seek, List.findSome?_append]
  show (Named.seek x slots).or _ = _
  rw [absent]
  show Named.seek x [entries] = _
  rw [Named.seek_cons]
  cases entries.find? x <;> rfl

/-- A walk through a list that is not empty yields its first element. -/
theorem Stands.walk_pair {id : PairId} {rest : Value} (stands : t.Stands h entries kept)
    (pair : h.pair? id = some (u, rest)) (left : h.IsListOf rest others)
    (cut : stack.split? = some (piece, below)) (leads : Leads limit h stack t.env target)
    (space : stack.depth + 4 ≤ limit)
    (onwards : ∀ h' env' q, Grows [t.generator.block] h h' → q.above = piece →
      t.Waits limit target q h' entries others →
      From limit goal w h' (.value u) env' below) : FromCall limit goal w h v inner stack
        (.closure t.walk) [.closure t.generator.yld, .pair id] span env := by
  refine .enter ["yld", "xs"] stands.walk rfl rfl rfl (by decide) stands.sees (fits 1 space) ?_
  intro h₁ outer inner home grows₁ new₁ new₂ sees₁ captured
  refine .branch 1 false (.test sees₁ .null ?_ rfl rfl) (fits 2 space) ?_
  · exact (seek_program [_, _] rfl entries).trans (stands.knows.absent _ (by decide))
  refine .block sees₁ (by decide) (fits 2 space) ?_
  intro h₂ block grows₂ new₃ sees₂
  have grows := grows₁.trans grows₂
  refine .runs (fits 1 space) (.call 1 (.sight sees₂ rfl)
    (.cons (.library sees₂ .head ?_ (.cons (.sight sees₂ rfl) .nil) rfl
      (Native.call_head (grows.pairs pair))) .nil) (fits 3 space) ?_)
  · exact (seek_program [_, _, _] rfl entries).trans (stands.knows.absent _ (by decide))
  refine (stands.generator.grown grows).yields (Stack.split?_push cut (by simp)) (fits 3 space) ?_
  intro h₃ k origin env' grows₃ generator kept₃
  have later := grows.trans grows₃
  -- the scopes of this call were made after the generator, which leaves them alone
  have new : t.generator.block ∉ [block, inner, outer] := by
    have old := stands.generator.sees.head.inside
    have size := grows₁.size
    rintro member
    simp only [List.mem_cons, List.not_mem_nil, or_false] at member
    rcases member with same | same | same
    all_goals rw [same] at old; omega
  have shown : List.Forall₂ h₂.Shows [block, inner, outer] [[], [], _] :=
    .cons sees₂.head (.cons sees₂.tail.head (.cons sees₂.tail.tail.head .nil))
  refine onwards h₃ env' ⟨block, inner, outer, id, u, rest, home, (env, stack), piece, k, origin⟩
    later rfl ⟨(stands.grown grows).keeps grows₃ generator, kept₃,
      (Stack.split?_eq_some_iff.1 cut).2, forall₂_shows_grows shown grows₃ ?_, sees₂.distinct, new,
      later.pairs pair, left.grows later, (grows₂.trans grows₃).lasts.continuations captured,
      fits 0 space, leads.lasts later.lasts⟩
  intro id member same
  exact new (List.mem_singleton.1 same ▸ member)

/-- A walk through the empty list returns. -/
theorem Stands.walk_null (stands : t.Stands h entries kept)
    (leads : Leads limit h stack t.env target) (space : stack.depth + 2 ≤ limit)
    (onwards : ∀ h', Grows [] h h' →
      From limit goal w h' (.value .null) t.env target) : FromCall limit goal w h v inner stack
        (.closure t.walk) [.closure t.generator.yld, .null] span env := by
  refine .enter ["yld", "xs"] stands.walk rfl rfl rfl (by decide) stands.sees (fits 1 space) ?_
  intro h₁ _ _ _ grows₁ _ _ sees₁ captured
  refine .branch 1 true (.test sees₁ .null ?_ rfl rfl) (fits 2 space) ?_
  · exact (seek_program [_, _] rfl entries).trans (stands.knows.absent _ (by decide))
  refine .block sees₁ (by decide) (fits 1 space) ?_
  intro h₂ _ grows₂ _ sees₂
  refine .returns 0 (.literal .null) (sees₂.lookup? rfl) (grows₂.lasts.continuations captured)
    (fits 1 space) (fits 0 space) ?_
  have grows := grows₁.trans grows₂
  exact leads.attains grows.lasts (onwards h₂ grows)

/-! ## Asking -/

/-- Asked again, the generator goes on with its walk. -/
theorem Waits.asked (waits : t.Waits limit target q h entries rest)
    (space : stack.depth + q.above.depth + 7 ≤ limit)
    (onwards : ∀ h' env' (top piece below : Stack), Grows [] h h' →
      t.Waits limit target q h' entries rest → top.depth = stack.depth + q.above.depth + 4 →
      top.split? = some (piece, below) → piece.depth = q.above.depth + 2 →
      Leads limit h' below env stack → Leads limit h' top t.env target →
      FromCall limit goal w h' (.closure t.walk) env' top (.closure t.walk)
        [.closure t.generator.yld, q.rest] {} env') :
    FromCall limit goal w h v inner stack (.closure t.generator.it) [] span env := by
  have deep : (q.remains t).depth = q.above.depth + 1 := rfl
  refine waits.stands.generator.asked_again waits.kept (by omega) ?_
  intro h₁ top piece below grows₁ depth cut single leads
  have waits₁ := waits.grown grows₁
  -- the scopes of the walk are as they were, and those of the program may have changed since
  have sees : h₁.Sees (q.scopes ++ [t.program]) (q.slots t ++ [entries]) t.generator.base :=
    ⟨List.rel_append waits₁.shown waits₁.stands.sees.shown, waits₁.stands.sees.serves,
      waits₁.distinct⟩
  have walk : Named.seek "walk_list" (q.slots t ++ [entries]) = _ :=
    (seek_program (q.slots t) rfl entries).trans waits₁.stands.knows.walk
  have tail : Named.seek "tail" (q.slots t ++ [entries]) = none :=
    (seek_program (q.slots t) rfl entries).trans (waits₁.stands.knows.absent _ (by decide))
  have room : (top.splice q.above).depth + 4 ≤ limit := by
    rw [Stack.depth_splice]
    omega
  -- the piece from before lies between the new delimiter and the return point of the walk
  have cut' := (Stack.split?_splice cut waits.clear).trans rfl
  rw [Stack.splice_push]
  refine .next (Config.fits 0 room) (.returning (sees.lookup? rfl) (Config.fits 1 room) ?_)
  refine .call 1 (.sight sees walk) (.cons (.sight sees rfl) (.cons
    (.library sees .tail tail (.cons (.sight sees rfl) .nil) rfl (Native.call_tail waits₁.list))
    .nil)) (Config.fits 3 room) ?_
  refine onwards h₁ _ _ _ below grows₁ waits₁ ?_ (Stack.split?_push cut' (by simp)) ?_ leads
    (waits₁.leads.returned waits₁.home (Config.fits 1 room) waits₁.fits)
  · rw [Stack.depth_push, Stack.depth_splice]
    omega
  · rw [Stack.depth_push, Stack.depth_splice]
    omega

/-- Asked again with an element left, the generator comes to it. -/
theorem Waits.next (waits : t.Waits limit target q h entries (u :: rest))
    (space : stack.depth + q.above.depth + 8 ≤ limit)
    (onwards : ∀ h' q', Grows [t.generator.block] h h' → t.Waits limit target q' h' entries rest →
      q'.above.depth = q.above.depth + 2 →
      From limit goal w h' (.value u) env stack) : FromCall limit goal w h v inner stack
        (.closure t.generator.it) [] span env := by
  refine waits.asked (by omega) ?_
  intro h₁ env' top piece below grows₁ waits₁ depth cut deep leads leads'
  obtain ⟨id, tail, same, pair, left⟩ := waits₁.left.exists_pair
  rw [same]
  refine waits₁.stands.walk_pair pair left cut leads' (by omega) ?_
  intro h₂ _ q' grows₂ above waits₂
  refine leads.attains grows₂.lasts (onwards h₂ q' (grows₁.trans grows₂) waits₂ ?_)
  rw [above, deep]

/-- Asked again with nothing left, it goes back to the target. -/
theorem Waits.ends (waits : t.Waits limit target q h entries [])
    (space : stack.depth + q.above.depth + 7 ≤ limit)
    (onwards : ∀ h', Grows [] h h' → t.Waits limit target q h' entries [] →
      From limit goal w h' (.value .null) t.env target) : FromCall limit goal w h v inner stack
        (.closure t.generator.it) [] span env := by
  refine waits.asked (by omega) ?_
  intro h₁ env' top piece below grows₁ waits₁ depth cut deep leads leads'
  rw [waits₁.left.eq_null]
  refine waits₁.stands.walk_null leads' (by omega) ?_
  intro h₂ grows₂
  exact onwards h₂ (grows₁.trans grows₂) (waits₁.grown grows₂)

/-- Asked for the first time, the generator comes to the first element. -/
theorem Stands.first (stands : t.Stands h entries .null) (walk : t.generator.walk = .closure t.walk)
    (list : h.IsListOf t.generator.data (u :: others)) (space : stack.depth + 7 ≤ limit)
    (onwards : ∀ h' q, Grows [t.generator.block] h h' → t.Waits limit stack q h' entries others →
      q.above.depth = 1 →
      From limit goal w h' (.value u) t.env stack) : FromCall limit goal w h v inner stack
        (.closure t.generator.it) [] span t.env := by
  refine stands.generator.asked_first (by omega) ?_
  intro h₁ env' top piece below grows₁ depth cut single leads leads'
  obtain ⟨id, tail, same, pair, left⟩ := (list.grows grows₁).exists_pair
  rw [walk, same]
  refine (stands.grown grows₁).walk_pair pair left cut leads' (by omega) ?_
  intro h₂ _ q grows₂ above waits
  refine leads.attains grows₂.lasts (onwards h₂ q (grows₁.trans grows₂) waits ?_)
  rw [above, single]

/-- Asked for the first time without elements, it comes to nothing. -/
theorem Stands.nothing (stands : t.Stands h entries .null)
    (walk : t.generator.walk = .closure t.walk)
    (list : h.IsListOf t.generator.data []) (space : stack.depth + 6 ≤ limit)
    (onwards : ∀ h', Grows [] h h' → t.Stands h' entries .null →
      From limit goal w h' (.value .null) t.env stack) : FromCall limit goal w h v inner stack
        (.closure t.generator.it) [] span t.env := by
  refine stands.generator.asked_first (by omega) ?_
  intro h₁ env' top piece below grows₁ depth cut single leads leads'
  rw [walk, list.eq_null]
  refine (stands.grown grows₁).walk_null leads' (by omega) ?_
  intro h₂ grows₂
  have grows := grows₁.trans grows₂
  exact onwards h₂ grows (stands.grown grows)

/-! ## Declaring the constants -/

/-- Constants have these values. -/
abbrev Given (entries : Named Slot) : List String → List Value → Prop :=
  List.Forall₂ fun x v => entries.find? x = some (.assigned v false)

/-- Some constants have their values, and some have none yet. -/
structure Results (entries : Named Slot) (done : List String) (values : List Value)
    (todo : List String) : Prop where
  given : Given entries done values
  fresh : ∀ x ∈ todo, entries.find? x = some .unassigned

section Results

variable {x : String} {done todo : List String} {values : List Value}

theorem Results.bind (results : Results entries done values todo) (old : x ∉ done) (new : x ∉ todo)
    (slot : Slot) : Results (entries.bind x slot) done values todo := by
  refine ⟨?_, fun y member => ?_⟩
  · have given := results.given
    induction given with
    | nil => exact .nil
    | @cons y v done values first given ih =>
      rw [List.mem_cons, not_or] at old
      refine .cons ?_ (ih ⟨given, results.fresh⟩ old.2)
      rw [Named.find?_bind_of_ne (Ne.symm old.1), first]
  · have other : y ≠ x := by
      rintro rfl
      exact new member
    rw [Named.find?_bind_of_ne other, results.fresh y member]

theorem Results.declare (results : Results entries done values (x :: todo))
    (distinct : (done ++ x :: todo).Nodup) (v : Value) :
    Results (entries.bind x (.assigned v false)) (done ++ [x]) (values ++ [v]) todo := by
  obtain ⟨-, later, apart⟩ := List.nodup_append.1 distinct
  have old : x ∉ done := fun member => apart x member x List.mem_cons_self rfl
  have others : Results entries done values todo :=
    ⟨results.given, fun y member => results.fresh y (List.mem_cons_of_mem x member)⟩
  have bound := others.bind old (List.nodup_cons.1 later).1 (.assigned v false)
  exact ⟨List.rel_append bound.given (.cons (Named.find?_bind_self _ _ _) .nil), bound.fresh⟩

theorem Results.redeclare (results : Results entries (x :: done) (u :: values) todo)
    (distinct : (x :: done ++ todo).Nodup) (v : Value) :
    Results (entries.bind x (.assigned v false)) (x :: done) (v :: values) todo := by
  rw [List.cons_append, List.nodup_cons, List.mem_append, not_or] at distinct
  have others : Results entries done values todo :=
    ⟨(List.forall₂_cons.1 results.given).2, results.fresh⟩
  have bound := others.bind distinct.1.1 distinct.1.2 (.assigned v false)
  exact ⟨.cons (Named.find?_bind_self _ _ _) bound.given, bound.fresh⟩

end Results

/-- A declaration asks the generator. -/
theorem Stands.ask (stands : t.Stands h entries kept)
    (fresh : entries.find? x = some .unassigned) (space : stack.depth + 2 ≤ limit)
    (onwards : FromCall limit goal w h (.closure t.generator.it) t.env
      (stack.push (.declare ⟨x, {}⟩ false t.env)) (.closure t.generator.it) [] {} t.env) :
    From limit goal w h (.statement (constant x (call "g" []))) t.env stack := by
  have found := (seek_program [] rfl entries).trans stands.knows.generator
  refine .declares stands.sees fresh (by omega) ?_
  exact .call 0 (.sight stands.sees found) .nil (by rw [Stack.depth_push]; omega) onwards

/-- The declaration of the first constant. -/
theorem Stands.begins (stands : t.Stands h entries .null)
    (results : Results entries [] [] (x :: todo)) (distinct : (x :: todo).Nodup) (free : x ∉ taken)
    (walk : t.generator.walk = .closure t.walk) (list : h.IsListOf t.generator.data (u :: others))
    (space : stack.depth + 8 ≤ limit) (onwards : ∀ h' q entries',
      t.Waits limit (stack.push (.declare ⟨x, {}⟩ false t.env)) q h' entries' others →
      Results entries' [x] [u] todo → q.above.depth = 1 →
      From limit goal w h' (.value .undefined) t.env stack) :
    From limit goal w h (.statement (constant x (call "g" []))) t.env stack := by
  have fresh := results.fresh x List.mem_cons_self
  refine stands.ask fresh (by omega) (stands.first walk list (by rw [Stack.depth_push]; omega) ?_)
  intro h₁ q _ waits single
  refine .declared waits.stands.sees (by omega) ?_
  intro h₂ grows sees
  exact onwards h₂ q _ (waits.declared grows sees (waits.stands.knows.bind free _))
    (results.declare distinct u) single

/-- The declaration of another constant, with an element left. -/
theorem Waits.continues (waits : t.Waits limit target q h entries (u :: rest))
    (results : Results entries done values (x :: todo)) (distinct : (done ++ x :: todo).Nodup)
    (free : x ∉ taken) (space : stack.depth + q.above.depth + 9 ≤ limit)
    (onwards : ∀ h' q' entries', t.Waits limit target q' h' entries' rest →
      Results entries' (done ++ [x]) (values ++ [u]) todo → q'.above.depth = q.above.depth + 2 →
      From limit goal w h' (.value .undefined) t.env stack) :
    From limit goal w h (.statement (constant x (call "g" []))) t.env stack := by
  have fresh := results.fresh x List.mem_cons_self
  refine waits.stands.ask fresh (by omega) (waits.next (by rw [Stack.depth_push]; omega) ?_)
  intro h₁ q' _ waits₁ deeper
  refine .declared waits₁.stands.sees (by omega) ?_
  intro h₂ grows sees
  exact onwards h₂ q' _ (waits₁.declared grows sees (waits₁.stands.knows.bind free _))
    (results.declare distinct u) deeper

/-- Constants are declared as long as there are elements for them. -/
theorem Waits.advances {later : List String} (waits : t.Waits limit target q h entries (us ++ rest))
    (counted : todo.length = us.length) (results : Results entries done values (todo ++ later))
    (distinct : (done ++ (todo ++ later)).Nodup) (free : ∀ x ∈ todo, x ∉ taken)
    (space : stack.depth + 2 * todo.length + q.above.depth + 9 ≤ limit)
    (onwards : ∀ h' q' entries' v inner, t.Waits limit target q' h' entries' rest →
      Results entries' (done ++ todo) (values ++ us) later →
      q'.above.depth = q.above.depth + 2 * todo.length →
      From limit goal w h' (.value v) inner stack) :
    From limit goal w h (.value v) inner (stack.pushAll t.env (asks todo)) := by
  -- one constant gets its value and the piece that is kept grows by two frames
  induction todo generalizing h q entries done values us v inner with
  | nil =>
    obtain rfl : us = [] := List.length_eq_zero_iff.1 counted.symm
    refine onwards h q entries v inner waits ?_ rfl
    rw [List.append_nil, List.append_nil]
    exact results
  | cons x todo ih =>
    obtain ⟨u, us, rfl⟩ := List.exists_cons_of_length_eq_add_one counted.symm
    rw [List.forall_mem_cons] at free
    rw [List.length_cons] at space onwards
    have depth := Stack.depth_pushAll stack t.env (asks todo)
    rw [List.length_map] at depth
    show Attains limit goal ⟨_, _, (stack.pushAll t.env (asks todo)).push (.exec _ _), _⟩
    refine .next (by omega) (waits.continues results distinct free.1 (by omega) ?_)
    intro h₁ q₁ entries₁ waits₁ results₁ deeper
    refine ih waits₁ (Nat.succ.inj counted) results₁ (by simpa using distinct) free.2 (by omega)
      ?_
    intro h₂ q₂ entries₂ v inner waits₂ results₂ deeper'
    refine onwards h₂ q₂ entries₂ v inner waits₂ ?_ (by omega)
    simpa using results₂

/-- The declaration of a constant with nothing left completes the first declaration again. -/
theorem Waits.overruns {first : Stack}
    (waits : t.Waits limit (first.push (.declare ⟨x, {}⟩ false t.env)) q h entries [])
    (results : Results entries (x :: done) (u :: values) todo) (member : z ∈ todo)
    (distinct : (x :: done ++ todo).Nodup) (free : x ∉ taken)
    (space : stack.depth + q.above.depth + 8 ≤ limit) (fits : first.depth ≤ limit)
    (onwards : ∀ h' entries',
      t.Waits limit (first.push (.declare ⟨x, {}⟩ false t.env)) q h' entries' [] →
      Results entries' (x :: done) (.null :: values) todo →
      From limit goal w h' (.value .undefined) t.env first) :
    From limit goal w h (.statement (constant z (call "g" []))) t.env stack := by
  have fresh := results.fresh z member
  refine waits.stands.ask fresh (by omega) (waits.ends (by rw [Stack.depth_push]; omega) ?_)
  intro h₁ _ waits₁
  refine .declared waits₁.stands.sees fits ?_
  intro h₂ grows sees
  exact onwards h₂ _ (waits₁.declared grows sees (waits₁.stands.knows.bind free _))
    (results.redeclare distinct .null)

/-! ## Listing the constants -/

theorem givesAll_names (sees : h.Sees [t.program] [entries] t.generator.base)
    (given : Given entries names values) : GivesAll t.env 0 h (names.map name) values h := by
  induction given with
  | nil => exact .nil
  | cons first _ ih => exact .cons (.sight sees ((seek_program [] rfl entries).trans first)) ih

theorem Stands.collects
    (stands : t.Stands h entries kept) (results : Results entries names values [])
    (space : stack.depth + 1 ≤ limit) (onwards : ∀ h' list, h'.IsListOf list values →
      From limit goal w h' (.value list) t.env stack) :
    From limit goal w h (.statement (lists names)) t.env stack := by
  have absent := (seek_program [] rfl entries).trans (stands.knows.absent "list" (by decide))
  refine .run 1 (.list stands.sees absent (givesAll_names stands.sees results.given)) space ?_
  exact onwards _ _ (.newList h values)

/-! ## The whole program -/

/-- The slots of the program once it has its functions. -/
abbrev prepared (names : List String) (walk it : ClosureId) : Named Slot :=
  ((Named.declared ("walk_list" :: "g" :: names)).bind "walk_list"
    (.assigned (.closure walk) false)).bind "g" (.assigned (.closure it) false)

theorem find?_prepared {walk it : ClosureId} (walks : x ≠ "walk_list") (asks : x ≠ "g") :
    (prepared names walk it).find? x = if x ∈ names then some .unassigned else none := by
  rw [Named.find?_bind_of_ne asks, Named.find?_bind_of_ne walks, Named.find?_declared]
  simp [walks, asks]

theorem knows_prepared (free : ∀ x ∈ names, x ∉ taken) (walk : ClosureId) (g : Generator)
    (program : ScopeId) : Knows ⟨g, program, walk⟩ (prepared names walk g.it) := by
  refine ⟨?_, Named.find?_bind_self _ _ _, fun x member => ?_⟩
  · rw [Named.find?_bind_of_ne (by decide), Named.find?_bind_self]
  · obtain ⟨used, walks, asks⟩ : x ∈ taken ∧ x ≠ "walk_list" ∧ x ≠ "g" := by
      simp only [List.mem_cons, List.not_mem_nil, or_false] at member
      rcases member with rfl | rfl | rfl | rfl <;> decide
    rw [find?_prepared walks asks, if_neg fun named => free x named used]

theorem results_prepared (free : ∀ x ∈ names, x ∉ taken) (walk it : ClosureId) :
    Results (prepared names walk it) [] [] names := by
  refine ⟨.nil, fun x member => ?_⟩
  have other {y : String} (used : y ∈ taken) : x ≠ y := by
    rintro rfl
    exact free x member used
  rw [find?_prepared (other (by decide)) (other (by decide)), if_pos member]

/-- The program comes to where it starts to ask. -/
theorem prepares {texts : List String} {base : Env} {program : ScopeId} {f : ClosureId}
    (sees : h.Sees [program] [Named.declared ("walk_list" :: "g" :: names)] base)
    (found : h.get ⟨"make_generator", {}⟩ base = .ok (.closure f))
    (closure : h.closure? f = some ⟨Prelude.makeGenerator, base⟩) (free : ∀ x ∈ names, x ∉ taken)
    (space : stack.depth + names.length + 7 ≤ limit)
    (onwards : ∀ (t : ListGenerator) h' entries, t.Stands h' entries .null →
      t.generator.walk = .closure t.walk →
      h'.IsListOf t.generator.data (texts.map .string) → Results entries [] [] names →
      From limit goal w h' (.value .undefined) t.env
        ((stack.push (.exec (lists names) t.env)).pushAll t.env (asks names))) :
    From limit goal w h (.ofBody (source texts names)) ([program] ++ base)
      (stack.pushAll ([program] ++ base) (source texts names).tail) := by
  have waiting := Stack.pushAll_append stack ([program] ++ base) (asks names) [lists names]
  have depth : (stack.pushAll ([program] ++ base) (asks names ++ [lists names])).depth =
      stack.depth + names.length + 1 := by
    rw [Stack.depth_pushAll, List.length_append, List.length_map]
    rfl
  show Attains limit goal ⟨.statement (.function walkList), _, (Stack.pushAll stack _
    (asks names ++ [lists names])).push _, _⟩
  generalize stack.pushAll ([program] ++ base) (asks names ++ [lists names]) = rest
    at waiting depth ⊢
  have room : rest.depth + 6 ≤ limit := by omega
  refine .function sees rfl rfl (fits 2 room) ?_
  intro h₁ walk grows₁ walks sees₁
  have outside : h₁.get ⟨"make_generator", {}⟩ base = .ok (.closure f) := by
    refine (grows₁.get_eq sees.serves.inside (fun id member same => ?_) _).trans found
    exact sees.ne_of_mem member (List.mem_singleton.1 same)
  have missing {x : String} (member : x ∈ taken) (walks : x ≠ "walk_list") (asks : x ≠ "g") :
      Named.seek x [(Named.declared ("walk_list" :: "g" :: names)).bind "walk_list"
        (.assigned (.closure walk) false)] = none := by
    refine (seek_program [] rfl _).trans ?_
    rw [Named.find?_bind_of_ne walks, Named.find?_declared]
    have unused : x ∉ names := fun named => free x named member
    simp [walks, asks, unused]
  have grows₂ := Grows.newList h₁ (texts.map .string)
  have list := IsListOf.newList h₁ (texts.map .string)
  have sees₂ := sees₁.grown grows₂
  refine .next (fits 0 room) (.declares sees₁
    ((Named.find?_bind_of_ne (by decide) _ _).trans rfl) (fits 1 room) ?_)
  refine .call 1 (.name ((get_of_seek_none sees₁.shown (missing (by decide) (by decide)
    (by decide))).trans outside)) (.cons (.list sees₁ (missing (by decide) (by decide) (by decide))
      (.strings texts)) (.cons (.sight sees₂ ((seek_program [] rfl _).trans
        (Named.find?_bind_self _ _ _))) .nil)) (fits 3 room) ?_
  refine Generator.makeGenerator sees₂.tail
    ((grows₁.lasts.trans grows₂.lasts).closures closure) (fits 6 room) ?_
  intro h₃ g grows₃ same data walked fresh stands₃
  subst same
  have apart : program ∉ g.env := by
    have old := sees₂.head.inside
    intro member
    rw [List.mem_append] at member
    rcases member with near | far
    · have new := fresh program near
      omega
    · exact sees₂.ne_of_mem far rfl
  refine .declared (sees₂.grown grows₃) (fits 0 room) ?_
  intro h₄ grows₄ sees₄
  have later := grows₂.trans <| grows₃.trans grows₄
  rw [waiting]
  refine onwards ⟨g, program, walk⟩ h₄ _ ⟨sees₄, knows_prepared free walk g program,
    later.lasts.closures walks, stands₃.grows grows₄ fun id member same => ?_, apart⟩ walked ?_
    (results_prepared free walk g.it)
  · exact apart (List.mem_singleton.1 same ▸ member)
  · rw [data]
    exact list.grows (grows₃.trans grows₄)

section

variable (stands : t.Stands h entries .null) (walk : t.generator.walk = .closure t.walk)

include stands walk

/-- With no more constants than elements, the program lists the first elements. -/
theorem Stands.enumerates (list : h.IsListOf t.generator.data (us ++ rest))
    (counted : names.length = us.length) (results : Results entries [] [] names)
    (distinct : names.Nodup) (free : ∀ x ∈ names, x ∉ taken)
    (space : stack.depth + 2 * names.length + 9 ≤ limit)
    (onwards : ∀ h' env' list, h'.IsListOf list us → From limit goal w h' (.value list) env' stack)
    : From limit goal w h (.value v) inner
      ((stack.push (.exec (lists names) t.env)).pushAll t.env (asks names)) := by
  have collects {h' : Heap} {entries' : Named Slot} {kept' v : Value} {inner : Env}
      (stands : t.Stands h' entries' kept') (results : Results entries' names us []) :
      From limit goal w h' (.value v) inner (stack.push (.exec (lists names) t.env)) :=
    .next (by omega) (stands.collects results (by omega) fun h'' => onwards h'' _)
  have height : (stack.push (.exec (lists names) t.env)).depth = stack.depth + 1 := rfl
  generalize stack.push (.exec (lists names) t.env) = last at *
  cases names with
  | nil =>
    obtain rfl : us = [] := List.length_eq_zero_iff.1 counted.symm
    exact collects stands results
  | cons x todo =>
    obtain ⟨u, us, rfl⟩ := List.exists_cons_of_length_eq_add_one counted.symm
    have depth := Stack.depth_pushAll last t.env (asks todo)
    rw [List.length_map] at depth
    rw [List.forall_mem_cons] at free
    rw [List.length_cons] at space
    show Attains limit goal ⟨_, _, (last.pushAll t.env (asks todo)).push (.exec _ _), _⟩
    refine .next (by omega) (stands.begins results distinct free.1 walk list (by omega) ?_)
    intro h₁ q entries₁ waits results₁ single
    rw [← List.append_nil todo] at results₁ distinct
    refine waits.advances (Nat.succ.inj counted) results₁ distinct free.2 (by omega) ?_
    intro h₂ q' entries₂ v inner waits₂ results₂ _
    exact collects waits₂.stands results₂

/-- The only constant of a program without elements is `null`. -/
theorem Stands.without_elements (list : h.IsListOf t.generator.data [])
    (results : Results entries [] [] [x]) (free : x ∉ taken) (space : stack.depth + 8 ≤ limit)
    (onwards : ∀ h' env' list, h'.IsListOf list [.null] →
      From limit goal w h' (.value list) env' stack)
    : From limit goal w h (.value v) inner
      ((stack.push (.exec (lists [x]) t.env)).pushAll t.env (asks [x])) := by
  refine .next (fits 1 space) (stands.ask (results.fresh x List.mem_cons_self)
    (fits 3 space) (stands.nothing walk list (fits 8 space) ?_))
  intro h₁ _ stands₁
  refine .declared stands₁.sees (fits 1 space) ?_
  intro h₂ grows sees
  have stands₂ := stands₁.declared grows sees (stands₁.knows.bind free _)
  refine .next (fits 0 space) (stands₂.collects (results.declare (by simp) .null)
    (fits 1 space) fun h' => onwards h' _)

/-- With one constant more than elements, the program starts again after its first declaration. -/
theorem Stands.exhausts (list : h.IsListOf t.generator.data (u :: us))
    (counted : todo.length = us.length) (results : Results entries [] [] (x :: (todo ++ [z])))
    (distinct : (x :: (todo ++ [z])).Nodup) (free : ∀ y ∈ x :: todo, y ∉ taken)
    (space : last.depth + 2 * todo.length + 11 ≤ limit)
    (onwards : ∀ h' q entries', q.above.depth ≤ 2 * todo.length + 1 →
      t.Waits limit ((last.pushAll t.env (asks (todo ++ [z]))).push (.declare ⟨x,
      {}⟩ false t.env)) q h' entries' [] → Results entries' (x :: todo) (.null :: us) [z] →
      From limit goal w h' (.value .undefined) t.env (last.pushAll t.env (asks (todo ++ [z])))) :
    From limit goal w h (.value v) inner (last.pushAll t.env (asks (x :: (todo ++ [z])))) := by
  have depth := Stack.depth_pushAll last t.env (asks (todo ++ [z]))
  rw [List.length_map, List.length_append, List.length_singleton] at depth
  rw [List.forall_mem_cons] at free
  show Attains limit goal ⟨_, _, (last.pushAll t.env (asks (todo ++ [z]))).push (.exec _ _), _⟩
  refine .next (by omega) (stands.begins results distinct free.1 walk list (by omega) ?_)
  intro h₁ q entries₁ waits results₁ single
  have waiting : last.pushAll t.env (asks (todo ++ [z])) =
      (last.push (.exec (constant z (call "g" [])) t.env)).pushAll t.env (asks todo) := by
    rw [asks, List.map_append, Stack.pushAll_append]
    rfl
  rw [← List.append_nil us] at waits
  -- all elements are given out before the last constant, whose call then finds none
  have height : (last.push (.exec (constant z (call "g" [])) t.env)).depth = last.depth + 1 := rfl
  rw [waiting]
  refine waits.advances counted results₁ distinct free.2 (by omega) ?_
  intro h₂ q' entries₂ v inner waits₂ results₂ deeper
  refine .next (by omega) (waits₂.overruns results₂ List.mem_cons_self (by simpa using distinct)
    free.1 (by omega) (by omega) ?_)
  intro h₃ entries₃ waits₃ results₃
  exact onwards h₃ q' entries₃ (by omega) waits₃ results₃

/-- With two elements or more, the second constant is declared again. -/
theorem Stands.redeclares {y : String} (list : h.IsListOf t.generator.data (u :: us))
    (counted : (y :: todo).length = us.length)
    (results : Results entries [] [] (x :: (y :: todo ++ [z])))
    (distinct : (x :: (y :: todo ++ [z])).Nodup) (free : ∀ i ∈ x :: y :: todo, i ∉ taken)
    (space : last.depth + 2 * todo.length + 13 ≤ limit) :
    Attains limit (fun c => ∃ c', c.Fails ⟨.redeclared y false, {}⟩ c')
      ⟨.value v, inner, last.pushAll t.env (asks (x :: (y :: todo ++ [z]))), w.withHeap h⟩ := by
  refine stands.exhausts walk list counted results distinct free
    (by rw [List.length_cons]; omega) ?_
  intro h' q entries' _ waits results'
  obtain ⟨u', us', given⟩ : ∃ u us', us = u :: us' :=
    List.exists_cons_of_length_eq_add_one counted.symm
  subst given
  have second := (List.forall₂_cons.1 (List.forall₂_cons.1 results'.given).2).1
  have depth := Stack.depth_pushAll last t.env (asks (todo ++ [z]))
  rw [List.length_map, List.length_append, List.length_singleton] at depth
  show Attains limit _ ⟨_, _, (last.pushAll t.env (asks (todo ++ [z]))).push (.exec _ _), _⟩
  refine .next (by omega) ?_
  exact .here ⟨_, fails_redeclaration waits.stands.sees second⟩

end

/-! ## A program that goes on forever -/

/-- The only element was given out, and the second constant is about to be declared, again. -/
def Loops (limit : Nat) (last : Env → Stack) (x z : String) (c : Config) : Prop :=
  ∃ (t : ListGenerator) (h : Heap) (entries : Named Slot) (q : Pause) (u v : Value) (inner : Env)
    (w : World),
    let first := (last t.env).push (.exec (constant z (call "g" [])) t.env)
    c = ⟨.value v, inner, first, w.withHeap h⟩ ∧
      t.Waits limit (first.push (.declare ⟨x, {}⟩ false t.env)) q h entries [] ∧
      Results entries [x] [u] [z] ∧ (last t.env).depth + q.above.depth + 8 ≤ limit

theorem Loops.again {last : Env → Stack} {c : Config} (loops : Loops limit last x z c)
    (distinct : [x, z].Nodup) (free : x ∉ taken) :
    ∃ d, c.Steps d ∧ d.stack.depth ≤ limit ∧ d.Attains limit (Loops limit last x z) := by
  obtain ⟨t, h, entries, q, u, v, inner, w, rfl, waits, results, space⟩ := loops
  refine ⟨_, steps_exec, by show (last t.env).depth ≤ limit; omega, ?_⟩
  refine waits.overruns results List.mem_cons_self distinct free space
    (by rw [Stack.depth_push]; omega) ?_
  intro h' entries' waits' results'
  exact .here ⟨t, h', entries', q, .null, _, _, w, rfl, waits', results', space⟩

/-- With one element and two constants, the program comes to such a place. -/
theorem Stands.loops {last : Env → Stack} (stands : t.Stands h entries .null)
    (walk : t.generator.walk = .closure t.walk) (list : h.IsListOf t.generator.data [u])
    (results : Results entries [] [] [x, z]) (distinct : [x, z].Nodup) (free : x ∉ taken)
    (space : (last t.env).depth + 11 ≤ limit) : Attains limit (Loops limit last x z)
      ⟨.value v, inner, (last t.env).pushAll t.env (asks [x, z]), w.withHeap h⟩ := by
  have counted : ([] : List String).length = ([] : List Value).length := rfl
  refine stands.exhausts walk list counted results distinct (by simpa using free) space ?_
  intro h' q entries' shallow waits results'
  rw [List.length_nil] at shallow
  exact .here ⟨t, h', entries', q, .null, _, _, w, rfl, waits, results', by omega⟩

end ListGenerator

end SourceMachine
