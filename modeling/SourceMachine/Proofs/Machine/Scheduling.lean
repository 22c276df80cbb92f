import SourceMachine.Proofs.Machine.Threads
import SourceMachine.Proofs.Value.Rendering

/-!
# Taking turns

Threads write texts down, one after the other, and let the other threads go first in between.
A thread that waits in the queue goes on with the texts that are left to it (`Waits`), whether it
was just spawned or has paused; a thread that runs finds the functions that it calls, and comes
to its end below (`Ready`).

A scope in which a thread has captured its stack changes when the thread is resumed, and so does
the scope of the queue.  No other thread depends on them: what each thread depends on is a list
of scopes, and `Queued` keeps these lists apart.

The rounds of the threads go through the columns of a table that has a row for each of them.
When the first thread has written its first text and goes to the end of the queue, the table that
is left has the same columns as before without that text (`byColumn_cons`).  So the texts are
written column by column (`Queued.finishes`).
-/

namespace SourceMachine

open Config Heap Sketch

/-! ## Columns -/

section Columns

variable {α : Type} {rows : List (List α)}

/-- The entries of some rows at one place. -/
def column (rows : List (List α)) (j : Nat) : List α :=
  rows.filterMap (·[j]?)

/-- The entries of some rows, ordered by their places and then by their rows. -/
def byColumn (rows : List (List α)) : List α :=
  (List.range ((rows.map List.length).foldr max 0)).flatMap (column rows)

theorem column_eq_nil {j : Nat} (short : ∀ row ∈ rows, row.length ≤ j) : column rows j = [] :=
  List.filterMap_eq_nil_iff.2 fun row member => List.getElem?_eq_none (short row member)

/-- Places behind the ends of all rows add nothing. -/
theorem byColumn_eq {n : Nat} (enough : ∀ row ∈ rows, row.length ≤ n) :
    byColumn rows = (List.range n).flatMap (column rows) := by
  have longest : (rows.map List.length).foldr max 0 ≤ n := by
    refine List.max_le_of_forall_le _ _ fun size member => ?_
    obtain ⟨row, there, rfl⟩ := List.mem_map.1 member
    exact enough row there
  obtain ⟨more, rfl⟩ := Nat.exists_eq_add_of_le longest
  have empty : (List.map ((rows.map List.length).foldr max 0 + ·) (List.range more)).flatMap
      (column rows) = [] := by
    rw [List.flatMap_eq_nil_iff]
    intro j member
    obtain ⟨i, -, rfl⟩ := List.mem_map.1 member
    refine column_eq_nil fun row member => le_add_right ?_
    exact List.le_max_of_le (List.mem_map_of_mem member) le_rfl
  rw [List.range_add, List.flatMap_append, empty, List.append_nil, byColumn]

/-- Moving a first part of each of some pieces to the end of the one before. -/
theorem flatMap_range_shift (first rest : Nat → List α) (n : Nat) :
    (List.range n).flatMap (fun j => first j ++ rest j) ++ first n =
      first 0 ++ (List.range n).flatMap fun j => rest j ++ first (j + 1) := by
  induction n with
  | zero => simp
  | succ n ih =>
    rw [List.range_succ, List.flatMap_append, List.flatMap_append, ← List.append_assoc, ← ih]
    simp

/-- The first entry of the first row comes first, and what is left of this row may as well come
    after the other rows. -/
theorem byColumn_cons (x : α) (xs : List α) (rows : List (List α)) :
    byColumn ((x :: xs) :: rows) = x :: byColumn (rows ++ [xs]) := by
  -- both sides have the same number of columns if empty ones are allowed at the end
  obtain ⟨n, enough⟩ : ∃ n, ∀ row ∈ (x :: xs) :: rows, row.length ≤ n :=
    ⟨_, fun row member => List.le_max_of_le (List.mem_map_of_mem member) le_rfl⟩
  have others := (List.forall_mem_cons.1 enough).2
  have length : xs.length < n := (List.forall_mem_cons.1 enough).1
  have enough' : ∀ row ∈ rows ++ [xs], row.length ≤ n := by
    intro row member
    rcases List.mem_append.1 member with member | member
    · exact others row member
    · rw [List.mem_singleton.1 member]
      exact length.le
  have shifted := flatMap_range_shift (fun j => (x :: xs)[j]?.toList) (column rows) n
  have last : (x :: xs)[n]?.toList = [] := by
    rw [List.getElem?_eq_none (enough _ List.mem_cons_self)]
    rfl
  rw [byColumn_eq enough, byColumn_eq enough']
  calc (List.range n).flatMap (column ((x :: xs) :: rows))
      = (List.range n).flatMap (fun j => (x :: xs)[j]?.toList ++ column rows j) := by
        refine List.flatMap_congr fun j _ => ?_
        rw [column, List.filterMap_cons]
        cases (x :: xs)[j]? <;> rfl
    _ = x :: (List.range n).flatMap fun j => column rows j ++ xs[j]?.toList := by
        rw [last, List.append_nil] at shifted
        exact shifted
    _ = x :: (List.range n).flatMap (column (rows ++ [xs])) := by
        refine congrArg (x :: ·) (List.flatMap_congr fun j _ => ?_)
        rw [column, column, List.filterMap_append]
        cases found : xs[j]? <;> simp [found]

/-- An empty row adds nothing. -/
theorem byColumn_insert_nil (before after : List (List α)) :
    byColumn (before ++ [] :: after) = byColumn (before ++ after) := by
  obtain ⟨n, enough⟩ : ∃ n, ∀ row ∈ before ++ [] :: after, row.length ≤ n :=
    ⟨_, fun row member => List.le_max_of_le (List.mem_map_of_mem member) le_rfl⟩
  have enough' : ∀ row ∈ before ++ after, row.length ≤ n := by
    intro row member
    refine enough row ?_
    simp only [List.mem_append, List.mem_cons] at member ⊢
    exact member.imp_right .inr
  rw [byColumn_eq enough, byColumn_eq enough']
  refine List.flatMap_congr fun j _ => ?_
  simp [column]

end Columns

/-! ## Writing texts down -/

/-- The world after some strings were displayed. -/
def World.wrote (w : World) (labels : List String) : World :=
  { w with console := (labels.map quoted).foldl Console.write w.console }

theorem World.wrote_wrote (w : World) (labels labels' : List String) :
    (w.wrote labels).wrote labels' = w.wrote (labels ++ labels') := by
  simp [wrote]

namespace Threads

variable {t : Threads} {limit tall : Nat} {goal : Config → Prop} {w : World} {h h' : Heap}
  {stack top : Stack} {env inner : Env} {v queue halt : Value} {label : String}
  {labels : List String} {own touched : List ScopeId} {span : Span}

/-- Write a text down. -/
abbrev log (label : String) : Stmt :=
  run (Sketch.call "display" [string label])

/-- Let the other threads go first. -/
abbrev yielding : Stmt :=
  run (Sketch.call "yld" [])

/-- Write some texts down, and let the other threads go first between them. -/
def procedure (labels : List String) : List Stmt :=
  (labels.map log).intersperse yielding

theorem procedure_cons_cons (l l' : String) (ls : List String) :
    procedure (l :: l' :: ls) = log l :: yielding :: procedure (l' :: ls) :=
  rfl

theorem procedure_ne_nil (label : String) (labels : List String) :
    procedure (label :: labels) ≠ [] := by
  cases labels <;> exact List.cons_ne_nil _ _

theorem length_procedure_le (labels : List String) :
    (procedure labels).length ≤ 2 * labels.length := by
  induction labels with
  | nil => exact le_rfl
  | cons l ls ih =>
    cases ls with
    | nil => exact Nat.le_succ 1
    | cons l' ls =>
      rw [procedure_cons_cons, List.length_cons, List.length_cons, List.length_cons]
      omega

theorem declaredNames_procedure (labels : List String) : declaredNames (procedure labels) = [] := by
  induction labels with
  | nil => rfl
  | cons l ls ih =>
    cases ls with
    | nil => rfl
    | cons l' ls => exact ih

theorem call_display (label : String) (h : Heap) (w : World) :
    Native.display.call [.string label] (w.withHeap h) =
      (.ok (.string label), (w.wrote [label]).withHeap h) := by
  have effect : Native.display.effect [.string label] (w.withHeap h) =
      .ok (.write (quoted label) (.string label)) := by
    simp [Native.effect, argument, labelled, Value.text_string, Except.map]
  rw [Native.call, effect]
  rfl

/-- A text is written down. -/
theorem logs (found : h.get ⟨"display", {}⟩ env = .ok (.builtin (.native .display) 0))
    (space : stack.depth + 1 ≤ limit) (onwards : Attains limit goal
      ⟨.value (.string label), env, stack, (w.wrote [label]).withHeap h⟩) :
    From limit goal w h (.statement (log label)) env stack :=
  .runs (by omega) (.call 0 (.name found) (.cons (.literal (.string label)) .nil) space
    (.native rfl (call_display label h w) (by omega) onwards))

/-! ## Threads that run and threads that wait -/

/-- A thread runs in these scopes: it finds the functions that it calls, and when it comes to its
    end on the stack it quits.  It depends on some scopes, and not on that of the queue. -/
structure Ready (t : Threads) (h : Heap) (own : List ScopeId) (env : Env) (stack : Stack) :
    Prop where
  inside : ∀ id ∈ own, id.index < h.scopes.size
  free : t.block ∉ own
  within : ∀ id ∈ env, id ∈ own
  pauses : h.get ⟨"yld", {}⟩ env = .ok (.closure t.pause)
  logs : h.get ⟨"display", {}⟩ env = .ok (.builtin (.native .display) 0)
  quits : ∃ (below : Stack) (front : Env),
    stack = below.push (.exec (run (Sketch.call "quit" [])) (front ++ t.env)) ∧
      ∀ id ∈ front, id ∈ own ∧ h.slot? id "quit" = none

theorem Ready.grows (ready : t.Ready h own env stack) (grows : Grows touched h h')
    (apart : ∀ id ∈ own, id ∉ touched) : t.Ready h' own env stack := by
  have there : ∀ id ∈ env, id.index < h.scopes.size := fun id member =>
    ready.inside id (ready.within id member)
  have kept : ∀ id ∈ env, id ∉ touched := fun id member => apart id (ready.within id member)
  obtain ⟨below, front, top, quits⟩ := ready.quits
  refine ⟨fun id member => (ready.inside id member).trans_le grows.size, ready.free, ready.within,
    ?_, ?_, below, front, top, fun id member => ⟨(quits id member).1, ?_⟩⟩
  · rw [grows.get_eq there kept, ready.pauses]
  · rw [grows.get_eq there kept, ready.logs]
  · obtain ⟨owned, absent⟩ := quits id member
    rw [grows.scopes (ready.inside id owned) (apart id owned), absent]

/-- A thread in the queue: its captured stack, the scope that changes when it is resumed, the
    scopes that it depends on, and what it has still to write. -/
structure Thread where
  point : ContinuationId
  cell : ScopeId
  own : List ScopeId
  labels : List String

/-- A thread that is resumed, at any later time, goes on with what it has still to write. -/
structure Waits (t : Threads) (limit tall : Nat) (h : Heap) (th : Thread) : Prop where
  inside : ∀ id ∈ th.own, id.index < h.scopes.size
  free : t.block ∉ th.own
  owns : th.cell ∈ th.own
  apart : th.cell ∉ t.env
  resumes : ∀ {goal : Config → Prop} {h' : Heap} {touched : List ScopeId} {queue halt v : Value}
    {w : World} {inner env : Env} {top : Stack} {span : Span}, Grows touched h h' →
    (∀ id ∈ th.own, id ∉ touched) → t.Stands h' queue halt →
    (∀ h₁ own env stack, Grows [th.cell] h' h₁ → t.Stands h₁ queue halt →
      t.Ready h₁ own env stack → (∀ id ∈ own, id ∈ th.own ∨ h'.scopes.size ≤ id.index) →
      stack.depth + (2 * th.labels.length + tall) ≤ limit →
      From limit goal w h₁ (.ofBody (procedure th.labels)) env
        (stack.pushAll env (procedure th.labels).tail)) →
    FromCall limit goal w h' v inner top (.continuation th.point) [.null] span env

theorem Waits.grows {th : Thread} (waits : t.Waits limit tall h th) (grows : Grows touched h h')
    (apart : ∀ id ∈ th.own, id ∉ touched) : t.Waits limit tall h' th where
  inside id member := (waits.inside id member).trans_le grows.size
  free := waits.free
  owns := waits.owns
  apart := waits.apart
  resumes grows' apart' := waits.resumes (grows.trans grows') fun id member there =>
    (List.mem_append.1 there).elim (apart id member) (apart' id member)

section Waiting

variable {cell call : ScopeId} {k home : ContinuationId} {entries : Named Slot} {rest : Stmt}
  {slots : List (Named Slot)}

theorem Captures.inside_cons (captures : t.Captures h cell call k entries rest stack)
    (inside : ∀ id ∈ own, id.index < h.scopes.size) :
    ∀ id ∈ cell :: call :: own, id.index < h.scopes.size :=
  List.forall_mem_append.2 ⟨captures.inside, inside⟩

theorem Captures.free_cons (captures : t.Captures h cell call k entries rest stack)
    (free : t.block ∉ own) : t.block ∉ cell :: call :: own := by
  intro member
  have member : t.block ∈ [cell, call] ++ own := member
  exact (List.mem_append.1 member).elim (fun near => captures.apart _ near List.mem_cons_self) free

/-- A thread that has paused goes on where it was. -/
theorem Captures.waits_of_pausing (captures : t.Captures h cell call k (Named.called [] [] home)
      pausing (stack.pushAll env (procedure (label :: labels)))) (ready : t.Ready h own env stack)
    (new : cell ∉ own) (space : stack.depth + (2 * (label :: labels).length + tall) ≤ limit)
    (enough : 3 ≤ tall) : t.Waits limit tall h ⟨k, cell, cell :: call :: own, label :: labels⟩ := by
  refine ⟨captures.inside_cons ready.inside, captures.free_cons ready.free, List.mem_cons_self,
    captures.apart cell (by simp), ?_⟩
  intro goal h₁ touched queue halt v w inner env' top span grows apart stands onwards
  have apart : ∀ id ∈ [cell, call] ++ own, id ∉ touched := apart
  obtain ⟨near, far⟩ := List.forall_mem_append.1 apart
  have length := length_procedure_le (label :: labels)
  have depth : (stack.pushAll env (procedure (label :: labels))).depth + 3 ≤ limit := by
    rw [Stack.depth_pushAll]
    omega
  refine (captures.grows grows near).resumes stands (by omega) ?_
  intro h₂ grows₂ stands₂ sees₂
  -- the thread is given `null`, and so it does not look for others
  have resumed : Gives (t.within cell call) 1 h₂ (Sketch.call "is_cont" [name "cc"])
      (.boolean false) h₂ :=
    .test sees₂ .continuation rfl rfl rfl
  refine .when 2 false (.both resumed ⟨rfl, rfl⟩) depth (.rest (procedure_ne_nil _ _) (by omega) ?_)
  refine onwards h₂ own env stack grows₂ stands₂ ((ready.grows grows far).grows grows₂ ?_) ?_ space
  · intro id member same
    exact new (List.mem_singleton.1 same ▸ member)
  · exact fun id member => .inl (List.mem_append_right [cell, call] member)

variable (pauses : Named.seek "yld" slots = some (.assigned (.closure t.pause) true))
  (logs : Named.seek "display" slots = none)

include pauses logs

/-- A thread runs in the scopes of a call of its function.  At its end it quits, in the scopes of
    the call that has spawned it. -/
theorem ready_of_called {block outer inner : ScopeId} {back : ContinuationId} {around : Env}
    {slot : Slot} {proc : Value}
    (inside : ∀ id ∈ cell :: call :: (around ++ t.base), id.index < h.scopes.size)
    (free : t.block ∉ cell :: call :: (around ++ t.base))
    (sees : h.Sees [block, cell, call, t.block, t.call] ([] :: [("cc", slot)] ::
      Named.called ["proc"] [proc] home :: t.slots queue halt) t.base) (grows : Grows [] h h')
    (fresh : h.scopes.size ≤ outer.index) (fresh' : h.scopes.size ≤ inner.index)
    (sees' : h'.Sees (inner :: outer :: around) ([] :: Named.called [] [] back :: slots) t.base) :
    t.Ready h' (inner :: outer :: block :: cell :: call :: (around ++ t.base))
      ((inner :: outer :: around) ++ t.base)
      (stack.push (.exec (run (Sketch.call "quit" [])) ([block, cell, call] ++ t.env))) := by
  refine ⟨?_, ?_, ?_, ?_, ?_, stack, [block, cell, call], rfl, ?_⟩
  · rw [List.forall_mem_cons, List.forall_mem_cons, List.forall_mem_cons]
    exact ⟨sees'.head.inside, sees'.tail.head.inside, sees.head.inside.trans_le grows.size,
      fun id member => (inside id member).trans_le grows.size⟩
  · have there : t.block.index < h.scopes.size := sees.inside (by simp)
    have other {id : ScopeId} (fresh : h.scopes.size ≤ id.index) : t.block ≠ id := by
      rintro rfl
      exact there.not_ge fresh
    refine List.not_mem_cons_of_ne_of_not_mem (other fresh')
      (List.not_mem_cons_of_ne_of_not_mem (other fresh)
        (List.not_mem_cons_of_ne_of_not_mem ?_ free))
    exact sees.ne_of_mem (by simp)
  · intro id member
    simp only [List.cons_append, List.mem_cons] at member ⊢
    exact member.imp_right fun member => member.imp_right fun member => .inr <| .inr <| .inr member
  · exact sees'.get ((Named.seek_called (by decide) back slots).trans pauses)
  · exact sees'.builtin (.native .display) ((Named.seek_called (by decide) back slots).trans logs)
  · have shown := sees.grown grows
    simp only [List.forall_mem_cons, List.not_mem_nil, false_imp_iff, implies_true, and_true]
    exact ⟨⟨by simp, shown.head.slot?_eq _⟩, ⟨by simp, shown.tail.head.slot?_eq _⟩,
      by simp, shown.tail.tail.head.slot?_eq _⟩

/-- A thread that was spawned runs from its start. -/
theorem Captures.waits_of_spawning {proc : ClosureId} {around : Env}
    (captures : t.Captures h cell call k (Named.called ["proc"] [.closure proc] home) spawning
      stack) (closure : h.closure? proc = some ⟨arrow [] (procedure labels), around ++ t.base⟩)
    (sees : h.Sees around slots t.base) (free : t.block ∉ around) (new : cell ∉ around)
    (block : t.block ∉ t.base) (space : stack.depth + (2 * labels.length + tall + 1) ≤ limit)
    (enough : 2 ≤ tall) :
    t.Waits limit tall h ⟨k, cell, cell :: call :: (around ++ t.base), labels⟩ := by
  have free : t.block ∉ around ++ t.base := fun member =>
    (List.mem_append.1 member).elim free block
  have inside := captures.inside_cons fun id member => sees.inside member
  refine ⟨inside, captures.free_cons free, List.mem_cons_self, captures.apart cell (by simp), ?_⟩
  intro goal h₁ touched queue halt v w inner env' top span grows apart stands onwards
  have apart : ∀ id ∈ [cell, call] ++ (around ++ t.base), id ∉ touched := apart
  obtain ⟨near, far⟩ := List.forall_mem_append.1 apart
  have length := length_procedure_le labels
  have room : stack.depth + 3 ≤ limit := by omega
  refine (captures.grows grows near).resumes stands (fits 2 room) ?_
  intro h₂ grows₂ stands₂ sees₂
  refine .branch 1 false (.test sees₂ .continuation rfl rfl rfl) (fits 2 room) ?_
  refine .block sees₂ (by decide) (fits 2 room) ?_
  intro h₃ block grows₃ fresh₃ sees₃
  refine .runs (fits 1 room) (.call 0 (.sight sees₃ rfl) .nil (fits 2 room) ?_)
  have until₃ := grows.trans <| grows₂.trans grows₃
  have outside : ∀ id ∈ around ++ t.base, id ∉ [cell] := by
    intro id member same
    obtain rfl := List.mem_singleton.1 same
    refine (List.mem_append.1 member).elim new fun member => captures.apart id (by simp) ?_
    exact List.mem_append_right _ member
  -- the function of the thread sees what was seen where it was made
  refine .enter [] (until₃.lasts.closures closure) rfl rfl rfl
    (by rw [declaredNames_procedure]; exact List.nodup_nil)
    (((sees.grows grows far).grows grows₂ outside).grown grows₃)
    (by show stack.depth + 1 + (procedure labels).length ≤ limit; omega) ?_
  intro h₄ outer inner back grows₄ fresh₄ fresh₄' sees₄ _
  rw [declaredNames_procedure] at sees₄
  have since : Grows [cell] h₁ h₄ := grows₂.trans <| grows₃.trans grows₄
  have size₃ := (grows₂.trans grows₃).size
  have ready : t.Ready h₄ (inner :: outer :: block :: cell :: call :: (around ++ t.base))
      ((inner :: outer :: around) ++ t.base)
      (stack.push (.exec (run (Sketch.call "quit" [])) ([block, cell, call] ++ t.env))) :=
    ready_of_called pauses logs (fun id member => (inside id member).trans_le until₃.size)
      (captures.free_cons free) sees₃ grows₄ fresh₄ fresh₄' sees₄
  refine onwards h₄ _ _ _ since (stands₂.grown (grows₃.trans grows₄)) ready ?_
    (by show stack.depth + 1 + (2 * labels.length + tall) ≤ limit; omega)
  rw [List.forall_mem_cons, List.forall_mem_cons, List.forall_mem_cons]
  exact ⟨.inr (size₃.trans fresh₄'), .inr (size₃.trans fresh₄), .inr (grows₂.size.trans fresh₃),
    fun id member => .inl member⟩

end Waiting

/-! ## The queue -/

/-- Neither of two threads depends on the scope that changes when the other one is resumed. -/
def Thread.Apart (a b : Thread) : Prop :=
  a.cell ∉ b.own ∧ b.cell ∉ a.own

/-- These threads are in the queue, and all of them can be resumed. -/
structure Queued (t : Threads) (limit tall : Nat) (h : Heap) (queue halt : Value)
    (threads : List Thread) : Prop where
  stands : t.Stands h queue halt
  list : h.IsListOf queue (threads.map fun th => .continuation th.point)
  waits : ∀ th ∈ threads, t.Waits limit tall h th
  apart : threads.Pairwise Thread.Apart

variable {th : Thread} {others : List Thread}

/-- A change of the queue leaves the threads alone. -/
theorem Waits.requeued (waits : t.Waits limit tall h th) (grows : Grows [t.block] h h') :
    t.Waits limit tall h' th :=
  waits.grows grows fun _ member same => waits.free (List.mem_singleton.1 same ▸ member)

theorem Waits.inside_cell (waits : t.Waits limit tall h th) : th.cell.index < h.scopes.size :=
  waits.inside _ waits.owns

/-- The scopes of a new call are those of no thread that was there before. -/
theorem Waits.apart_of_fresh {cell call : ScopeId} (waits : t.Waits limit tall h th)
    (fresh : ∀ id ∈ [cell, call], h.scopes.size ≤ id.index) (free : th.cell ∉ own)
    (k : ContinuationId) (labels : List String) :
    th.Apart ⟨k, cell, cell :: call :: own, labels⟩ := by
  refine ⟨fun here => ?_, fun here => (waits.inside cell here).not_ge (fresh cell (by simp))⟩
  have here : th.cell ∈ [cell, call] ++ own := here
  exact (List.mem_append.1 here).elim (fun near => waits.inside_cell.not_ge (fresh _ near)) free

namespace Queued

/-- A thread is at the end of the queue. -/
theorem concat (stands : t.Stands h queue halt)
    (list : h.IsListOf queue ((others.map fun th => .continuation th.point) ++
      [.continuation th.point]))
    (waits : ∀ other ∈ others, t.Waits limit tall h other) (last : t.Waits limit tall h th)
    (pairwise : others.Pairwise Thread.Apart) (apart : ∀ other ∈ others, other.Apart th) :
    t.Queued limit tall h queue halt (others ++ [th]) := by
  refine ⟨stands, by rw [List.map_append]; exact list, fun other member => ?_, ?_⟩
  · rcases List.mem_append.1 member with there | same
    · exact waits other there
    · exact List.mem_singleton.1 same ▸ last
  · refine List.pairwise_append.2 ⟨pairwise, List.pairwise_singleton _ _, ?_⟩
    intro other member _ same
    exact List.mem_singleton.1 same ▸ apart other member

/-- A thread that was taken from the queue goes on, and the others still wait. -/
theorem resumes (queued : t.Queued limit tall h queue halt others)
    (waits : t.Waits limit tall h th) (apart : ∀ other ∈ others, th.Apart other)
    (onwards : ∀ h₁ own env stack, Grows [th.cell] h h₁ →
      t.Queued limit tall h₁ queue halt others → t.Ready h₁ own env stack →
      (∀ other ∈ others, other.cell ∉ own) →
      stack.depth + (2 * th.labels.length + tall) ≤ limit →
      From limit goal w h₁ (.ofBody (procedure th.labels)) env
        (stack.pushAll env (procedure th.labels).tail)) : FromCall limit goal w h v inner top
          (.continuation th.point) [.null] span env := by
  refine waits.resumes (.refl h) (fun _ _ => List.not_mem_nil) queued.stands ?_
  intro h₁ own env stack grows stands ready owned space
  refine onwards h₁ own env stack grows ⟨stands, queued.list.grows grows, fun other member => ?_,
    queued.apart⟩ ready (fun other member here => ?_) space
  · refine (queued.waits other member).grows grows fun id owned same => ?_
    exact (apart other member).1 (List.mem_singleton.1 same ▸ owned)
  · rcases owned _ here with shared | fresh
    · exact (apart other member).2 shared
    · exact (queued.waits other member).inside_cell.not_ge fresh

end Queued

/-- A thread that comes to its end quits. -/
theorem Ready.ends (ready : t.Ready h own env stack) (stands : t.Stands h queue halt)
    (space : stack.depth ≤ limit)
    (onwards : ∀ (below : Stack) env', below.depth + 1 = stack.depth → FromCall limit goal w h
      (.closure t.quit) env' below (.closure t.quit) [] {} env') :
    From limit goal w h (.value v) inner stack := by
  obtain ⟨below, front, rfl, hidden⟩ := ready.quits
  have found : h.get ⟨"quit", {}⟩ (front ++ t.env) = .ok (.closure t.quit) := by
    clear * - stands hidden
    induction front with
    | nil => exact stands.sees.get rfl
    | cons id front ih =>
      rw [List.forall_mem_cons] at hidden
      rw [List.cons_append, get_cons_of_none hidden.1.2, ih hidden.2]
  have depth : below.depth + 1 ≤ limit := space
  exact .next (by omega) (.runs (by omega) (.call 0 (.name found) .nil depth
    (onwards below _ rfl)))

namespace Queued

/-- At the end of a thread the first one of the queue goes on. -/
theorem quits (queued : t.Queued limit tall h queue halt (th :: others))
    (ready : t.Ready h own env stack) (space : stack.depth + 3 ≤ limit)
    (onwards : ∀ h₁ queue' own env stack, Grows [t.block, th.cell] h h₁ →
      t.Queued limit tall h₁ queue' halt others → t.Ready h₁ own env stack →
      (∀ other ∈ others, other.cell ∉ own) →
      stack.depth + (2 * th.labels.length + tall) ≤ limit →
      From limit goal w h₁ (.ofBody (procedure th.labels)) env
        (stack.pushAll env (procedure th.labels).tail)) :
    From limit goal w h (.value v) inner stack := by
  obtain ⟨first, waits⟩ := List.forall_mem_cons.1 queued.waits
  obtain ⟨apart, pairwise⟩ := List.pairwise_cons.1 queued.apart
  refine ready.ends queued.stands (by omega) ?_
  intro below env' depth
  refine queued.stands.quits queued.list (by omega) ?_
  intro h₁ queue' _ grows₁ stands₁ list₁
  have queued₁ : t.Queued limit tall h₁ queue' halt others :=
    ⟨stands₁, list₁, fun other member => (waits other member).requeued grows₁, pairwise⟩
  refine queued₁.resumes (first.requeued grows₁) apart ?_
  intro h₂ own env stack grows₂ queued₂ ready free space
  exact onwards h₂ queue' own env stack (grows₁.trans grows₂) queued₂ ready free space

variable (ready : t.Ready h own env stack)
  (space : stack.depth + (2 * (label :: labels).length + tall) ≤ limit)

include ready space

/-- A thread that lets others go first goes on by itself if there are none. -/
theorem pauses_alone (queued : t.Queued limit tall h queue halt []) (enough : 3 ≤ tall)
    (onwards : ∀ h₁, Grows [] h h₁ → t.Queued limit tall h₁ queue halt [] →
      t.Ready h₁ own env stack →
      From limit goal w h₁ (.ofBody (procedure (label :: labels))) env
        (stack.pushAll env (procedure (label :: labels)).tail)) :
    From limit goal w h (.statement yielding) env
      (stack.pushAll env (procedure (label :: labels))) := by
  obtain rfl := queued.list.eq_null
  have length := length_procedure_le (label :: labels)
  have depth : (stack.pushAll env (procedure (label :: labels))).depth + 3 ≤ limit := by
    rw [Stack.depth_pushAll]
    omega
  refine .runs (by omega) (.call 0 (.name ready.pauses) .nil (by omega)
    (queued.stands.pauses_alone depth fun h₁ env' grows₁ stands₁ => ?_))
  refine .rest (procedure_ne_nil _ _) (by omega) (onwards h₁ grows₁ ⟨stands₁, .nil, ?_, .nil⟩
    (ready.grows grows₁ (by simp)))
  exact fun th member => absurd member List.not_mem_nil

/-- A thread that lets the others go first is put at the end of the queue, and the first one of
    the queue goes on. -/
theorem pauses (queued : t.Queued limit tall h queue halt (th :: others))
    (free : ∀ other ∈ th :: others, other.cell ∉ own) (enough : 2 * others.length + 6 ≤ tall)
    (onwards : ∀ h₁ queue' new own env stack, Grows [t.block, th.cell] h h₁ →
      h.scopes.size ≤ new.cell.index → new.labels = label :: labels →
      t.Queued limit tall h₁ queue' halt (others ++ [new]) → t.Ready h₁ own env stack →
      (∀ other ∈ others ++ [new], other.cell ∉ own) →
      stack.depth + (2 * th.labels.length + tall) ≤ limit →
      From limit goal w h₁ (.ofBody (procedure th.labels)) env
        (stack.pushAll env (procedure th.labels).tail)) :
    From limit goal w h (.statement yielding) env
      (stack.pushAll env (procedure (label :: labels))) := by
  obtain ⟨first, waits⟩ := List.forall_mem_cons.1 queued.waits
  obtain ⟨apart, pairwise⟩ := List.pairwise_cons.1 queued.apart
  have length := length_procedure_le (label :: labels)
  have depth : (stack.pushAll env (procedure (label :: labels))).depth +
      (2 * others.length + 6) ≤ limit := by
    rw [Stack.depth_pushAll]
    omega
  refine .runs (by omega) (.call 0 (.name ready.pauses) .nil (by omega)
    (queued.stands.pauses queued.list (by rw [List.length_map]; exact depth) ?_))
  intro h₁ queue' env' cell call k home grows₁ fresh stands₁ list₁ captures
  have ready₁ : t.Ready h₁ own env stack := ready.grows grows₁ fun id member same =>
    ready.free (List.mem_singleton.1 same ▸ member)
  have freshCell : h.scopes.size ≤ cell.index := fresh cell (by simp)
  have new := captures.waits_of_pausing ready₁
    (fun member => (ready.inside cell member).not_ge freshCell) space (by omega)
  have apart' : ∀ other ∈ th :: others, other.Apart ⟨k, cell, cell :: call :: own,
      label :: labels⟩ := fun other member =>
    (queued.waits other member).apart_of_fresh fresh (free other member) k _
  have queued₁ := concat stands₁ list₁ (fun other member => (waits other member).requeued grows₁)
    new pairwise (List.forall_mem_cons.1 apart').2
  refine queued₁.resumes (first.requeued grows₁) (fun other member => ?_) ?_
  · rcases List.mem_append.1 member with old | same
    · exact apart other old
    · exact List.mem_singleton.1 same ▸ apart' th List.mem_cons_self
  · intro h₂ own env stack grows₂ queued₂ ready₂ free₂ space₂
    exact onwards h₂ queue' _ own env stack (grows₁.trans grows₂) freshCell rfl queued₂ ready₂ free₂
      space₂

end Queued

/-- A bound for the turns that are left: each of them takes a text or ends a thread. -/
def turns (labels : List String) (others : List Thread) : Nat :=
  labels.length + (others.map fun th => th.labels.length + 1).sum

theorem turns_cons (labels : List String) (th : Thread) (others : List Thread) :
    turns labels (th :: others) = turns th.labels others + labels.length + 1 := by
  rw [turns, turns, List.map_cons, List.sum_cons]
  omega

theorem turns_concat (labels : List String) (others : List Thread) (th : Thread) :
    turns labels (others ++ [th]) = turns labels others + th.labels.length + 1 := by
  rw [turns, turns, List.map_append, List.sum_append, List.map_singleton, List.sum_singleton]
  omega

/-- The threads come to their ends one by one and then everything stops, and what they write is
    written in rounds. -/
theorem Queued.finishes (queued : t.Queued limit tall h queue halt others)
    (ready : t.Ready h own env stack) (free : ∀ other ∈ others, other.cell ∉ own)
    (space : stack.depth + (2 * labels.length + tall) ≤ limit)
    (enough : 2 * others.length + 6 ≤ tall)
    (onwards : ∀ h' (top : Stack) env', Grows (t.block :: others.map Thread.cell) h h' →
      t.Stands h' .null halt → top.depth + 2 ≤ limit →
      Attains limit goal ⟨.value halt, env', top.push (.apply halt [] {} env'),
        (w.wrote (byColumn (labels :: others.map Thread.labels))).withHeap h'⟩) :
    From limit goal w h (.ofBody (procedure labels)) env
      (stack.pushAll env (procedure labels).tail) := by
  -- a thread that pauses comes back to the queue, so it is not the queue that gets shorter
  induction left : turns labels others using Nat.strong_induction_on
    generalizing h w queue own env stack labels others with
  | _ n again =>
  -- what is left when the thread that runs has written all that it had to
  have ends {w : World} {v : Value} {inner : Env} (onwards : ∀ h' (top : Stack) env',
      Grows (t.block :: others.map Thread.cell) h h' → t.Stands h' .null halt →
      top.depth + 2 ≤ limit → Attains limit goal ⟨.value halt, env',
        top.push (.apply halt [] {} env'),
        (w.wrote (byColumn (others.map Thread.labels))).withHeap h'⟩) :
      From limit goal w h (.value v) inner stack := by
    cases others with
    | nil =>
      obtain rfl := queued.list.eq_null
      refine ready.ends queued.stands (by omega) fun below env' depth => ?_
      refine queued.stands.quits_last (by omega) fun h' env' grows stands => ?_
      exact onwards h' below env' (grows.mono (by simp)) stands (by omega)
    | cons th others =>
      rw [List.length_cons] at enough
      rw [turns_cons] at left
      refine queued.quits ready (by omega) ?_
      intro h₁ queue' own env stack grows₁ queued₁ ready₁ free₁ space₁
      refine again _ (by omega) queued₁ ready₁ free₁ space₁ (by omega) ?_ rfl
      intro h' top env' grows stands fits
      refine onwards h' top env' ((grows₁.trans grows).mono fun id member => ?_) stands fits
      simp only [List.mem_append, List.mem_cons, List.not_mem_nil, or_false, List.map_cons]
        at member ⊢
      tauto
  rcases labels with _ | ⟨label, _ | ⟨label', labels⟩⟩
  · refine ends fun h' top env' grows stands fits => ?_
    have finished := onwards h' top env' grows stands fits
    rwa [show byColumn ([] :: others.map Thread.labels) = _ from byColumn_insert_nil [] _]
      at finished
  · refine logs ready.logs (by show stack.depth + 1 ≤ limit; omega)
      (ends fun h' top env' grows stands fits => ?_)
    have finished := onwards h' top env' grows stands fits
    rw [byColumn_cons, byColumn_insert_nil, List.append_nil] at finished
    rwa [World.wrote_wrote]
  · have length := length_procedure_le (label' :: labels)
    simp only [List.length_cons] at space length
    have depth : (stack.pushAll env (procedure (label' :: labels))).depth + 2 ≤ limit := by
      rw [Stack.depth_pushAll]
      omega
    refine logs ready.logs depth ?_
    refine .next (Nat.le_of_add_right_le depth) ?_
    cases others with
    | nil =>
      refine queued.pauses_alone ready (by rw [List.length_cons]; omega) (by omega) ?_
      intro h₁ grows₁ queued₁ ready₁
      refine again _ ?_ queued₁ ready₁ (by simp) (by rw [List.length_cons]; omega) enough ?_ rfl
      · rw [← left]
        exact Nat.add_lt_add_right (Nat.lt_succ_self _) _
      · intro h' top env' grows stands fits
        have finished := onwards h' top env' (grows₁.trans grows) stands fits
        rw [byColumn_cons] at finished
        rwa [World.wrote_wrote]
    | cons th others =>
      rw [List.length_cons] at enough
      rw [turns_cons, List.length_cons, List.length_cons] at left
      refine queued.pauses ready (by rw [List.length_cons]; omega) free (by omega) ?_
      intro h₁ queue' new own env stack grows₁ fresh same queued₁ ready₁ free₁ space₁
      refine again _ ?_ queued₁ ready₁ free₁ space₁
        (by rw [List.length_append, List.length_singleton]; omega) ?_ rfl
      · rw [turns_concat, same, List.length_cons]
        omega
      · intro h' top env' grows stands fits
        have whole : Grows (t.block :: (th :: others).map Thread.cell) h h' := by
          refine (grows₁.trans grows).old fun id member => ?_
          simp only [List.mem_append, List.mem_cons, List.not_mem_nil, or_false, List.map_append,
            List.map_cons, List.map_nil] at member ⊢
          rcases member with (same | same) | same | member | rfl
          · exact .inr (.inl same)
          · exact .inr (.inr (.inl same))
          · exact .inr (.inl same)
          · exact .inr (.inr (.inr member))
          · exact .inl fresh
        have finished := onwards h' top env' whole stands fits
        rw [byColumn_cons] at finished
        rw [World.wrote_wrote, List.map_append, List.map_singleton, same]
        exact finished

/-- A call that starts the threads comes back when all of them have come to their ends. -/
theorem Queued.starts {threads : List Thread} (queued : t.Queued limit tall h queue halt threads)
    (space : stack.depth + 4 ≤ limit) (enough : 2 * threads.length + 6 ≤ tall)
    (onwards : ∀ h' env', Grows (t.block :: threads.map Thread.cell) h h' →
      Attains limit goal ⟨.value .undefined, env', stack,
        (w.wrote (byColumn (threads.map Thread.labels))).withHeap h'⟩) :
    FromCall limit goal w h v inner stack (.closure t.start) [] span env := by
  cases threads with
  | nil =>
    obtain rfl := queued.list.eq_null
    exact queued.stands.starts_alone (by omega) onwards
  | cons th others =>
    obtain ⟨first, waits⟩ := List.forall_mem_cons.1 queued.waits
    obtain ⟨apart, pairwise⟩ := List.pairwise_cons.1 queued.apart
    rw [List.length_cons] at enough
    refine queued.stands.starts queued.list space ?_
    intro h₁ queue' f block cell call env' grows₁ fresh stands₁ list₁ halts
    have queued₁ : t.Queued limit tall h₁ queue' (.closure f) others :=
      ⟨stands₁, list₁, fun other member => (waits other member).requeued grows₁, pairwise⟩
    refine queued₁.resumes (first.requeued grows₁) apart ?_
    intro h₂ own env stack' grows₂ queued₂ ready free space₂
    refine queued₂.finishes ready free space₂ (by omega) ?_
    intro h₃ top env'' grows₃ stands₃ fits
    -- the scopes that have changed were there before the call, and those of the call were not
    have old : ∀ id ∈ t.block :: (th :: others).map Thread.cell, id.index < h.scopes.size := by
      refine List.forall_mem_cons.2 ⟨queued.stands.sees.head.inside, fun id member => ?_⟩
      obtain ⟨other, there, rfl⟩ := List.mem_map.1 member
      exact (queued.waits other there).inside_cell
    have later : Grows (t.block :: (th :: others).map Thread.cell) h₁ h₃ :=
      (grows₂.trans grows₃).mono fun id member => by
        simp only [List.mem_append, List.mem_cons, List.not_mem_nil, or_false, List.map_cons]
          at member ⊢
        tauto
    have kept := halts.grows later fun id member touched =>
      (old id touched).not_ge (fresh id member)
    refine kept.stops stands₃ fits (by omega) ?_
    intro h₄ env₄ grows₄
    refine onwards h₄ env₄ ((grows₁.trans <| later.trans grows₄).old fun id member => ?_)
    simp only [List.mem_append, List.mem_singleton] at member
    rcases member with rfl | member | rfl
    · exact .inr List.mem_cons_self
    · exact .inr member
    · exact .inl (fresh id (by simp))

end Threads

end SourceMachine
