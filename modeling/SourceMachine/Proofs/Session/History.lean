import SourceMachine.Proofs.Heap.Hoisting
import SourceMachine.Proofs.Machine.ReturnPoints

/-!
# The history of a slot

`Passes` is `Reaches` with a memory: it keeps the machines from which the session made its
steps, so that something can be said about all that happened between two moments.

A step does one of three things to a slot of a scope that is there.  It leaves it alone,
or it assigns a new value to a name that may be assigned, or it hands a value to a frame
that declares the name in this very scope (`Initializes`).  Only the last one can bind a
name, give a name without a value its first one, or change a constant.  So for a whole
session it is enough to know whether such a frame was met on the way: if not, the slot is
what it was (`Passes.slot?_of_untouched`), and if so, the name has a value
(`Passes.assigned_of_initializes`).
-/

namespace SourceMachine

variable {id : ScopeId} {m m' : Machine} {h h' : Heap} {env : Env} {name : String} {x : Identifier}
  {v : Value} {c : Control} {isMutable : Bool} {progress : Progress}

/-! ## Sizes -/

namespace Heap

/-- Entering a body makes one scope. -/
theorem size_enterBody {inner : Heap} {label : String} {outer : Env} {body : List Stmt}
    {result : Except Fault Unit} (scope : h.newScope label outer = (env, inner))
    (hoisted : inner.hoist env body = (result, h')) : h'.scopes.size = h.scopes.size + 1 := by
  simpa [labels] using congrArg List.length (labels_enterBody scope hoisted)

/-- So does a call. -/
theorem size_enterCall (h : Heap) (c : Closure) (args : List Value) (caller : Captured) :
    (h.enterCall c args caller).2.scopes.size = h.scopes.size + 1 := by
  simpa [labels] using congrArg List.length (labels_enterCall h c args caller)

theorem Changes.size_le {names : List String} (change : h.Changes names h') :
    h.scopes.size ≤ h'.scopes.size := by
  cases change with
  | kept kept => exact kept.size.ge
  | body scope hoisted =>
    rw [size_enterBody scope hoisted]
    exact Nat.le_succ _
  | closure c | captured k => exact le_rfl
  | call c args caller =>
    rw [size_enterCall]
    exact Nat.le_succ _

end Heap

/-- The step failed. -/
def Progress.isFailed : Progress → Bool
  | .failed _ => true
  | .proceeded | .complete _ | .idle => false

theorem Progress.eq_failed (failed : progress.isFailed) :
    ∃ failure, progress = .failed failure := by
  cases progress with
  | failed failure => exact ⟨failure, rfl⟩
  | proceeded | complete | idle => cases failed

namespace Machine

/-! ## Histories -/

/-- A session comes from one machine to another, and makes its steps from the machines in
    between, the first one first. -/
inductive Passes (start : Machine) : List Machine → Machine → Prop where
  | refl : Passes start [] start
  | step {past : List Machine} {m : Machine} (passed : Passes start past m) :
      Passes start (past ++ [m]) m.step.2
  | load {past : List Machine} {m : Machine} {text : String} {p : Program}
      (passed : Passes start past m) (read : Program.read text = .ok p) :
      Passes start past (m.load p)
  | triedPreludes {past : List Machine} {m : Machine} (passed : Passes start past m) :
      Passes start past { m with preludePending := false }

/-- The scopes that were made by steps from these machines. -/
def birthsOf (past : List Machine) : List Birth :=
  past.flatMap (·.birth?.toList)

theorem birthsOf_concat (past : List Machine) (m : Machine) :
    birthsOf (past ++ [m]) = birthsOf past ++ m.birth?.toList := by
  simp [birthsOf]

namespace Passes

variable {start m : Machine} {past : List Machine}

theorem reaches (passed : start.Passes past m) : start.Reaches (birthsOf past) m := by
  induction passed with
  | refl => exact .refl
  | @step past m _ ih =>
    rw [birthsOf_concat]
    exact ih.step
  | load _ read ih => exact ih.load read
  | triedPreludes _ ih => exact ih.triedPreludes

/-- A history can be cut at each of its steps. -/
theorem split {earlier since : List Machine} {m₀ : Machine}
    (passed : start.Passes (earlier ++ m₀ :: since) m) :
    start.Passes earlier m₀ ∧ m₀.step.2.Passes since m := by
  generalize whole : earlier ++ m₀ :: since = past at passed
  induction passed generalizing since with
  | refl => exact absurd whole (by simp)
  | @step past m' passed ih =>
    rcases List.eq_nil_or_concat since with rfl | ⟨since', last, rfl⟩
    · -- the step that is looked for is the last one
      obtain ⟨rfl, same⟩ := List.append_inj' whole rfl
      cases same
      exact ⟨passed, .refl⟩
    · rw [List.concat_eq_append, ← List.cons_append, ← List.append_assoc] at whole
      obtain ⟨before, same⟩ := List.append_inj' whole rfl
      cases same
      obtain ⟨first, second⟩ := ih before
      rw [List.concat_eq_append]
      exact ⟨first, second.step⟩
  | load _ read ih =>
    obtain ⟨first, second⟩ := ih whole
    exact ⟨first, second.load read⟩
  | triedPreludes _ ih =>
    obtain ⟨first, second⟩ := ih whole
    exact ⟨first, second.triedPreludes⟩

/-- Whatever holds of all machines on the way is asked of a state that was reached. -/
theorem of_reaches {births : List Birth} (reached : start.Reaches births m) :
    ∃ past, birthsOf past = births ∧ start.Passes past m := by
  induction reached with
  | refl => exact ⟨[], rfl, .refl⟩
  | step _ ih =>
    obtain ⟨past, rfl, passed⟩ := ih
    exact ⟨past ++ [_], birthsOf_concat past _, passed.step⟩
  | load _ read ih =>
    obtain ⟨past, same, passed⟩ := ih
    exact ⟨past, same, passed.load read⟩
  | triedPreludes _ ih =>
    obtain ⟨past, same, passed⟩ := ih
    exact ⟨past, same, passed.triedPreludes⟩

theorem trans {later : List Machine} (passed : start.Passes past m) (onwards : m.Passes later m') :
    start.Passes (past ++ later) m' := by
  induction onwards with
  | refl =>
    rw [List.append_nil]
    exact passed
  | step _ ih =>
    rw [← List.append_assoc]
    exact ih.step
  | load _ read ih => exact ih.load read
  | triedPreludes _ ih => exact ih.triedPreludes

/-- A program that is started and run for some steps after its first one. -/
theorem run_load (start : Machine) {text : String} {p : Program} (read : Program.read text = .ok p)
    (budget : Nat) : ∃ since, start.Passes (start.load p :: since)
      ((start.load p).step.2.run budget).2 := by
  have first : start.Passes [start.load p] (start.load p).step.2 := (Passes.refl.load read).step
  obtain ⟨births, reached⟩ : (start.load p).step.2.Visits ((start.load p).step.2.run budget).2 :=
    Visits.run ⟨[], .refl⟩ budget
  obtain ⟨since, -, onwards⟩ := of_reaches reached
  exact ⟨since, first.trans onwards⟩

theorem size_le (passed : start.Passes past m) :
    start.world.heap.scopes.size ≤ m.world.heap.scopes.size := by
  induction passed with
  | refl => exact le_rfl
  | step _ ih => exact ih.trans (stepped _).changes.size_le
  | load _ _ ih | triedPreludes _ ih => exact ih

end Passes

theorem Visits.trans {start : Machine} (visited : start.Visits m) (onwards : m.Visits m') :
    start.Visits m' := by
  obtain ⟨births, reached⟩ := visited
  obtain ⟨later, reached'⟩ := onwards
  obtain ⟨past, -, passed⟩ := Passes.of_reaches reached
  obtain ⟨past', -, passed'⟩ := Passes.of_reaches reached'
  exact ⟨_, (passed.trans passed').reaches⟩

/-! ## What a step does to a slot -/

/-- The next step takes a frame that declares a name in a scope, and gives the name its
    value there. -/
def Initializes (m : Machine) (id : ScopeId) (name : String) : Prop :=
  ∃ (v : Value) (x : Identifier) (isMutable : Bool) (outer : Env) (rest : Stack),
    m.control = some (.value v) ∧ m.stack = rest.push (.declare x isMutable (id :: outer)) ∧
      x.name = name

/-- The next step takes a frame that assigns a name, and a scope is among those where the name is
    looked for. -/
def Assigns (m : Machine) (id : ScopeId) (name : String) : Prop :=
  ∃ (v : Value) (x : Identifier) (env : Env) (rest : Stack),
    m.control = some (.value v) ∧ m.stack = rest.push (.assign x env) ∧ id ∈ env ∧ x.name = name

/-- A slot stays, or changes its value because that is allowed. -/
def Rewrites (before after : Option Slot) : Prop :=
  after = before ∨
    ∃ v w, before = some (.assigned v true) ∧ after = some (.assigned w true)

theorem lt_size_of_slot? {slot : Slot} (found : h.slot? id name = some slot) :
    id.index < h.scopes.size := by
  by_contra outside
  rw [Heap.slot?_of_size_le (not_lt.1 outside)] at found
  cases found

/-- An assignment rewrites the slot of its name in one of its scopes, and nothing else. -/
theorem slot?_set_cases (assigned : h.set x v env = (.ok (), h')) (id : ScopeId) (name : String) :
    h'.slot? id name = h.slot? id name ∨
      id ∈ env ∧ x.name = name ∧ Rewrites (h.slot? id name) (h'.slot? id name) := by
  rw [Heap.set] at assigned
  split at assigned
  · cases assigned
  · next scope found =>
    cases assigned
    obtain ⟨w, nearest⟩ := Heap.exists_nearest_of_assignable found
    have slot := nearest.slot?_eq
    by_cases here : scope = id ∧ x.name = name
    · obtain ⟨rfl, rfl⟩ := here
      exact .inr ⟨nearest.mem, rfl,
        .inr ⟨w, v, slot, Heap.slot?_bind_self (lt_size_of_slot? slot) _ _⟩⟩
    · -- another scope or another name
      rcases not_and_or.1 here with elsewhere | other
      · exact .inl (Heap.slot?_bind_of_scope_ne elsewhere h _ _ _)
      · exact .inl (Heap.slot?_bind_of_name_ne (Ne.symm other) h _ _ _)

section

variable (inside : id.index < m.world.heap.scopes.size)

include inside

/-- A transition leaves a slot alone, or it takes a frame that declares the name in the scope, or
    one that assigns it. -/
theorem Moves.slot?_cases {c' : Control} (move : m.Moves c c' m') (name : String) :
    m'.world.heap.slot? id name = m.world.heap.slot? id name ∨
      (∃ (v : Value) (x : Identifier) (isMutable : Bool) (outer : Env) (rest : Stack),
        c = .value v ∧ m.stack = rest.push (.declare x isMutable (id :: outer)) ∧ x.name = name) ∨
      (∃ (v : Value) (x : Identifier) (env : Env) (rest : Stack), c = .value v ∧
        m.stack = rest.push (.assign x env) ∧ id ∈ env ∧ x.name = name) ∧
        Rewrites (m.world.heap.slot? id name) (m'.world.heap.slot? id name) := by
  cases move with
  | program scope hoisted | block scope hoisted =>
    exact .inl (Heap.KeepsScope.enterBody inside scope hoisted name)
  | closure => exact .inl (Heap.KeepsScope.enterCall inside _ _ _ name)
  | @declare v x isMutable env rest top =>
    cases env with
    | nil => exact .inl rfl
    | cons scope outer =>
      by_cases here : scope = id ∧ x.name = name
      · obtain ⟨rfl, rfl⟩ := here
        exact .inr (.inl ⟨v, x, isMutable, outer, rest, rfl, top, rfl⟩)
      · rcases not_and_or.1 here with elsewhere | other
        · exact .inl (Heap.slot?_bind_of_scope_ne elsewhere _ _ _ _)
        · exact .inl (Heap.slot?_bind_of_name_ne (Ne.symm other) _ _ _ _)
  | @assign v x env rest h top assigned =>
    rcases slot?_set_cases assigned id name with same | ⟨member, named, rewrites⟩
    · exact .inl same
    · exact .inr (.inr ⟨⟨v, x, env, rest, rfl, top, member, named⟩, rewrites⟩)
  | native => exact .inl (Heap.KeepsScope.perform _ _ name)
  | _ =>
    exact .inl rfl

theorem Fails.slot?_eq {fault : Fault} (fail : m.Fails c fault m') (name : String) :
    m'.world.heap.slot? id name = m.world.heap.slot? id name := by
  cases fail with
  | program scope clash | block scope clash =>
    exact Heap.KeepsScope.enterBody inside scope clash name
  | rejects | exhausted | refuses => rfl

theorem Stepped.slot?_cases (stepped : m.Stepped progress m') (name : String) :
    m'.world.heap.slot? id name = m.world.heap.slot? id name ∨ m.Initializes id name ∨
      m.Assigns id name ∧ Rewrites (m.world.heap.slot? id name) (m'.world.heap.slot? id name) := by
  cases stepped with
  | complete | idle => exact .inl rfl
  | @proceeded c c' m' control move | @overflow c c' m' control move =>
    rcases Moves.slot?_cases (m := m.ticked) inside move name with kept |
      ⟨v, x, isMutable, outer, rest, rfl, top, named⟩ |
      ⟨⟨v, x, env, rest, rfl, top, member, named⟩, rewrites⟩
    · exact .inl kept
    · exact .inr (.inl ⟨v, x, isMutable, outer, rest, control, top, named⟩)
    · exact .inr (.inr ⟨⟨v, x, env, rest, control, top, member, named⟩, rewrites⟩)
  | fault control fail => exact .inl (Fails.slot?_eq (m := m.ticked) inside fail name)

/-- A step that does not declare a name in a scope rewrites its slot at most. -/
theorem slot?_step_of_not_initializes (untouched : ¬m.Initializes id name) :
    Rewrites (m.world.heap.slot? id name) (m.step.2.world.heap.slot? id name) :=
  (m.stepped.slot?_cases inside name).elim .inl fun changed => (changed.resolve_left untouched).2

/-- A step that neither declares nor assigns a name in a scope leaves its slot alone. -/
theorem slot?_step_of_not_assigns (undeclared : ¬m.Initializes id name)
    (unassigned : ¬m.Assigns id name) :
    m.step.2.world.heap.slot? id name = m.world.heap.slot? id name :=
  (m.stepped.slot?_cases inside name).elim (fun same => same) fun changed =>
    absurd (changed.resolve_left undeclared).1 unassigned

end

theorem heap_step_of_declare {rest : Stack} (control : m.control = some (.value v))
    (top : m.stack = rest.push (.declare x isMutable env)) :
    m.step.2.world.heap = m.world.heap.define env x.name v isMutable := by
  rw [step_of_transition control (final?_of_frame control top (by simp)),
    transition_of_top (m := m.ticked) top]
  dsimp only [give, settle]
  split <;> rfl

/-- A step that declares a name in a scope gives it a value there. -/
theorem slot?_step_of_initializes (inside : id.index < m.world.heap.scopes.size)
    (initializes : m.Initializes id name) :
    ∃ v isMutable, m.step.2.world.heap.slot? id name = some (.assigned v isMutable) := by
  obtain ⟨v, x, isMutable, outer, rest, control, top, rfl⟩ := initializes
  refine ⟨v, isMutable, ?_⟩
  rw [heap_step_of_declare control top]
  exact Heap.slot?_bind_self inside x.name _

/-- A name that has a value keeps having one. -/
theorem assigned_step (inside : id.index < m.world.heap.scopes.size)
    (assigned : m.world.heap.slot? id name = some (.assigned v isMutable)) :
    ∃ w isMutable', m.step.2.world.heap.slot? id name = some (.assigned w isMutable') := by
  by_cases initializes : m.Initializes id name
  · exact slot?_step_of_initializes inside initializes
  · rcases slot?_step_of_not_initializes inside initializes with kept | ⟨_, w, -, changed⟩
    · exact ⟨v, isMutable, kept.trans assigned⟩
    · exact ⟨w, true, changed⟩

/-! ## What a session does to a slot -/

section Sessions

variable {start m : Machine} {past : List Machine} {id : ScopeId} {name : String}

theorem Rewrites.trans {a b c : Option Slot} (first : Rewrites a b) (second : Rewrites b c) :
    Rewrites a c := by
  rcases first with rfl | ⟨v, w, before, rfl⟩
  · exact second
  · rcases second with rfl | ⟨_, w', -, after⟩
    · exact .inr ⟨v, w, before, rfl⟩
    · exact .inr ⟨v, w', before, after⟩

variable (passed : start.Passes past m) (inside : id.index < start.world.heap.scopes.size)

include passed inside

/-- A session that never declares a name in a scope rewrites its slot at most. -/
theorem Passes.slot?_of_untouched (untouched : ∀ s ∈ past, ¬s.Initializes id name) :
    Rewrites (start.world.heap.slot? id name) (m.world.heap.slot? id name) := by
  induction passed with
  | refl => exact .inl rfl
  | @step past m passed ih =>
    have before := ih fun s member => untouched s (List.mem_append_left _ member)
    have last : ¬m.Initializes id name := untouched m (by simp)
    exact before.trans (slot?_step_of_not_initializes (inside.trans_le passed.size_le) last)
  | load _ _ ih | triedPreludes _ ih => exact ih untouched

theorem Passes.assigned (assigned : start.world.heap.slot? id name = some (.assigned v isMutable)) :
    ∃ w isMutable', m.world.heap.slot? id name = some (.assigned w isMutable') := by
  induction passed with
  | refl => exact ⟨v, isMutable, assigned⟩
  | step passed ih =>
    obtain ⟨w, isMutable', found⟩ := ih
    exact assigned_step (inside.trans_le passed.size_le) found
  | load _ _ ih | triedPreludes _ ih => exact ih

/-- After a step that declares a name in a scope, the name has a value there. -/
theorem Passes.assigned_of_initializes {s : Machine} (member : s ∈ past)
    (initializes : s.Initializes id name) :
    ∃ v isMutable, m.world.heap.slot? id name = some (.assigned v isMutable) := by
  obtain ⟨earlier, later, rfl⟩ := List.append_of_mem member
  obtain ⟨before, after⟩ := passed.split
  have there := inside.trans_le before.size_le
  obtain ⟨v, isMutable, assigned⟩ := slot?_step_of_initializes there initializes
  exact after.assigned (there.trans_le s.stepped.changes.size_le) assigned

/-- A name without a value is without one until it is declared. -/
theorem Passes.unassigned_iff (unassigned : start.world.heap.slot? id name = some .unassigned) :
    ∃ slot, m.world.heap.slot? id name = some slot ∧
      (slot = .unassigned ↔ ∀ s ∈ past, ¬s.Initializes id name) := by
  by_cases untouched : ∀ s ∈ past, ¬s.Initializes id name
  · rcases passed.slot?_of_untouched inside untouched with kept | ⟨v, w, before, -⟩
    · exact ⟨.unassigned, kept.trans unassigned, fun _ => untouched, fun _ => rfl⟩
    · rw [unassigned] at before
      cases before
  · obtain ⟨s, member, initializes⟩ : ∃ s ∈ past, s.Initializes id name := by
      simpa using untouched
    obtain ⟨v, isMutable, found⟩ := passed.assigned_of_initializes inside member initializes
    exact ⟨_, found, nofun, fun never => absurd initializes (never s member)⟩

/-- The names of a scope are those that it had, and those that were declared in it
    since. -/
theorem Passes.isSome_slot?_iff : (m.world.heap.slot? id name).isSome ↔
      (start.world.heap.slot? id name).isSome ∨ ∃ s ∈ past, s.Initializes id name := by
  by_cases touched : ∃ s ∈ past, s.Initializes id name
  · obtain ⟨s, member, initializes⟩ := touched
    obtain ⟨v, isMutable, found⟩ := passed.assigned_of_initializes inside member initializes
    rw [found]
    exact ⟨fun _ => .inr ⟨s, member, initializes⟩, fun _ => rfl⟩
  · have untouched : ∀ s ∈ past, ¬s.Initializes id name := by
      simpa using touched
    rcases passed.slot?_of_untouched inside untouched with kept | ⟨v, w, before, after⟩
    · simp [kept, touched]
    · simp [before, after]

/-- A constant stays what it is until it is declared again. -/
theorem Passes.constant (constant : start.world.heap.slot? id name = some (.assigned v false))
    (untouched : ∀ s ∈ past, ¬s.Initializes id name) :
    m.world.heap.slot? id name = some (.assigned v false) := by
  rcases passed.slot?_of_untouched inside untouched with kept | ⟨_, _, before, -⟩
  · exact kept.trans constant
  · rw [constant] at before
    cases before

end Sessions

end Machine

end SourceMachine
