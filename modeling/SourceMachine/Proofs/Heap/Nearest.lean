import SourceMachine.Proofs.Heap.Slots

/-!
# The nearest scope that has a name

Reading and assigning a name go through the scopes from the inside out, and each has its own
rule for where to stop.  Both come down to one notion, the nearest scope that has the name
(`Heap.Nearest`): what is read, what can be assigned and which fault there is depend on the slot
in this scope alone (`get_of_nearest`, `assignable_of_nearest`).

Scopes are shared, so an assignment through some scopes may be seen through others.  It changes
one slot and leaves every nearest scope what it was (`Nearest.bind`), so it is seen through just
those scopes of which the nearest one that has the name is the same.
-/

namespace SourceMachine

variable {x y : Identifier} {v : Value} {old : Slot} {changed : ScopeId}

/-- What reading a name gives when this is its slot in the nearest scope. -/
def Slot.read (x : Identifier) : Slot → Except Fault Value
  | .assigned value _ => .ok value
  | .unassigned => .error ⟨.unassigned x.name, x.span⟩

/-- What assigning a name comes to when this is its slot in the nearest scope. -/
def Slot.assign (x : Identifier) : Slot → Except Fault Unit
  | .assigned _ true => .ok ()
  | .assigned _ false => .error ⟨.constant x.name, x.span⟩
  | .unassigned => .error ⟨.undeclared x.name, x.span⟩

namespace Heap

/-- Of these scopes, `id` is the nearest one that has the name, and has it in this slot. -/
def Nearest (h : Heap) (name : String) (env : Env) (id : ScopeId) (slot : Slot) : Prop :=
  ∃ inner outer, env = inner ++ id :: outer ∧ (∀ i ∈ inner, h.slot? i name = none) ∧
    h.slot? id name = some slot

/-- None of these scopes has the name. -/
def Lacks (h : Heap) (name : String) (env : Env) : Prop :=
  ∀ id ∈ env, h.slot? id name = none

variable {h : Heap} {name : String} {env : Env} {id : ScopeId} {slot : Slot}

/-! ## Which scope is the nearest one -/

theorem Nearest.here (found : h.slot? id name = some slot) (outer : Env) :
    h.Nearest name (id :: outer) id slot :=
  ⟨[], outer, rfl, nofun, found⟩

theorem Nearest.further {first : ScopeId} (passed : h.slot? first name = none)
    (nearest : h.Nearest name env id slot) : h.Nearest name (first :: env) id slot := by
  obtain ⟨inner, outer, rfl, absent, found⟩ := nearest
  exact ⟨first :: inner, outer, rfl, List.forall_mem_cons.2 ⟨passed, absent⟩, found⟩

/-- There is a nearest scope, unless no scope has the name. -/
theorem lacks_or_nearest (h : Heap) (name : String) (env : Env) :
    h.Lacks name env ∨ ∃ id slot, h.Nearest name env id slot := by
  induction env with
  | nil => exact .inl nofun
  | cons first outer ih =>
    cases found : h.slot? first name with
    | some slot => exact .inr ⟨first, slot, .here found outer⟩
    | none =>
      rcases ih with lacks | ⟨id, slot, nearest⟩
      · exact .inl (List.forall_mem_cons.2 ⟨found, lacks⟩)
      · exact .inr ⟨id, slot, .further found nearest⟩

theorem Nearest.slot?_eq (nearest : h.Nearest name env id slot) : h.slot? id name = some slot := by
  obtain ⟨-, -, -, -, found⟩ := nearest
  exact found

theorem Nearest.mem (nearest : h.Nearest name env id slot) : id ∈ env := by
  obtain ⟨inner, outer, rfl, -, -⟩ := nearest
  simp

/-! ## Reading -/

theorem get_of_nearest (nearest : h.Nearest x.name env id slot) : h.get x env = slot.read x := by
  obtain ⟨inner, outer, rfl, absent, found⟩ := nearest
  induction inner with
  | nil =>
    rw [List.nil_append, Heap.get, found]
    cases slot <;> rfl
  | cons first inner ih =>
    obtain ⟨passed, absent⟩ := List.forall_mem_cons.1 absent
    rw [List.cons_append, Heap.get, passed]
    exact ih absent

theorem get_of_lacks (lacks : h.Lacks x.name env) :
    h.get x env = .error ⟨.undeclared x.name, x.span⟩ := by
  induction env with
  | nil => rfl
  | cons first outer ih =>
    obtain ⟨passed, lacks⟩ := List.forall_mem_cons.1 lacks
    rw [Heap.get, passed]
    exact ih lacks

/-- What reading a name gives, by where the name is. -/
theorem get_eq_iff {result : Except Fault Value} :
    h.get x env = result ↔ (h.Lacks x.name env ∧ result = .error ⟨.undeclared x.name, x.span⟩) ∨
      ∃ id slot, h.Nearest x.name env id slot ∧ result = slot.read x := by
  constructor
  · rintro rfl
    rcases h.lacks_or_nearest x.name env with lacks | ⟨id, slot, nearest⟩
    · exact .inl ⟨lacks, get_of_lacks lacks⟩
    · exact .inr ⟨id, slot, nearest, get_of_nearest nearest⟩
  · rintro (⟨lacks, rfl⟩ | ⟨id, slot, nearest, rfl⟩)
    · exact get_of_lacks lacks
    · exact get_of_nearest nearest

theorem get_eq_ok_iff :
    h.get x env = .ok v ↔ ∃ id isMutable, h.Nearest x.name env id (.assigned v isMutable) := by
  rw [get_eq_iff]
  constructor
  · rintro (⟨-, failed⟩ | ⟨id, slot, nearest, given⟩)
    · cases failed
    · cases slot <;> cases given
      exact ⟨id, _, nearest⟩
  · rintro ⟨id, isMutable, nearest⟩
    exact .inr ⟨id, _, nearest, rfl⟩

theorem get_eq_unassigned_iff : h.get x env = .error ⟨.unassigned x.name, x.span⟩ ↔
      ∃ id, h.Nearest x.name env id .unassigned := by
  rw [get_eq_iff]
  constructor
  · rintro (⟨-, failed⟩ | ⟨id, slot, nearest, failed⟩)
    · cases failed
    · cases slot <;> cases failed
      exact ⟨id, nearest⟩
  · rintro ⟨id, nearest⟩
    exact .inr ⟨id, _, nearest, rfl⟩

theorem get_eq_undeclared_iff :
    h.get x env = .error ⟨.undeclared x.name, x.span⟩ ↔ h.Lacks x.name env := by
  rw [get_eq_iff]
  constructor
  · rintro (⟨lacks, -⟩ | ⟨id, slot, nearest, failed⟩)
    · exact lacks
    · cases slot <;> cases failed
  · exact fun lacks => .inl ⟨lacks, rfl⟩

/-! ## Assigning -/

theorem assignable_of_nearest (nearest : h.Nearest x.name env id slot) :
    h.assignable x env = (slot.assign x).map fun _ => id := by
  obtain ⟨inner, outer, rfl, absent, found⟩ := nearest
  induction inner with
  | nil =>
    rw [List.nil_append, Heap.assignable, found]
    rcases slot with _ | ⟨value, _ | _⟩ <;> rfl
  | cons first inner ih =>
    obtain ⟨passed, absent⟩ := List.forall_mem_cons.1 absent
    rw [List.cons_append, Heap.assignable, passed]
    exact ih absent

theorem assignable_of_lacks (lacks : h.Lacks x.name env) :
    h.assignable x env = .error ⟨.undeclared x.name, x.span⟩ := by
  induction env with
  | nil => rfl
  | cons first outer ih =>
    obtain ⟨passed, lacks⟩ := List.forall_mem_cons.1 lacks
    rw [Heap.assignable, passed]
    exact ih lacks

/-- A name can be assigned where it has a value that is not constant. -/
theorem exists_nearest_of_assignable (found : h.assignable x env = .ok id) :
    ∃ old, h.Nearest x.name env id (.assigned old true) := by
  rcases h.lacks_or_nearest x.name env with lacks | ⟨near, slot, nearest⟩
  · cases (assignable_of_lacks lacks).symm.trans found
  · rw [assignable_of_nearest nearest] at found
    rcases slot with _ | ⟨old, _ | _⟩ <;> cases found
    exact ⟨old, nearest⟩

theorem set_of_nearest {old : Value} (v : Value)
    (nearest : h.Nearest x.name env id (.assigned old true)) :
    h.set x v env = (.ok (), h.bind id x.name (.assigned v true)) := by
  rw [Heap.set, assignable_of_nearest nearest]
  rfl

/-- An assignment that fails changes nothing. -/
theorem set_of_error {fault : Fault} (failed : (h.set x v env).1 = .error fault) :
    (h.set x v env).2 = h := by
  rw [Heap.set] at failed ⊢
  cases found : h.assignable x env with
  | error => rfl
  | ok id =>
    rw [found] at failed
    cases failed

/-- What an assignment comes to, by where the name is. -/
theorem set_eq_iff {result : Except Fault Unit} : (h.set x v env).1 = result ↔
      (h.Lacks x.name env ∧ result = .error ⟨.undeclared x.name, x.span⟩) ∨
        ∃ id slot, h.Nearest x.name env id slot ∧ result = slot.assign x := by
  have lacking (lacks : h.Lacks x.name env) :
      (h.set x v env).1 = .error ⟨.undeclared x.name, x.span⟩ := by
    rw [Heap.set, assignable_of_lacks lacks]
  have having {id : ScopeId} {slot : Slot} (nearest : h.Nearest x.name env id slot) :
      (h.set x v env).1 = slot.assign x := by
    rw [Heap.set, assignable_of_nearest nearest]
    rcases slot with _ | ⟨value, _ | _⟩ <;> rfl
  constructor
  · rintro rfl
    rcases h.lacks_or_nearest x.name env with lacks | ⟨id, slot, nearest⟩
    · exact .inl ⟨lacks, lacking lacks⟩
    · exact .inr ⟨id, slot, nearest, having nearest⟩
  · rintro (⟨lacks, rfl⟩ | ⟨id, slot, nearest, rfl⟩)
    · exact lacking lacks
    · exact having nearest

theorem set_eq_ok_iff :
    (h.set x v env).1 = .ok () ↔ ∃ id old, h.Nearest x.name env id (.assigned old true) := by
  rw [set_eq_iff]
  constructor
  · rintro (⟨-, failed⟩ | ⟨id, _ | ⟨old, _ | _⟩, nearest, result⟩)
    · cases failed
    · cases result
    · cases result
    · exact ⟨id, old, nearest⟩
  · rintro ⟨id, old, nearest⟩
    exact .inr ⟨id, _, nearest, rfl⟩

theorem set_eq_constant_iff : (h.set x v env).1 = .error ⟨.constant x.name, x.span⟩ ↔
      ∃ id old, h.Nearest x.name env id (.assigned old false) := by
  rw [set_eq_iff]
  constructor
  · rintro (⟨-, failed⟩ | ⟨id, _ | ⟨old, _ | _⟩, nearest, result⟩)
    · cases failed
    · cases result
    · exact ⟨id, old, nearest⟩
    · cases result
  · rintro ⟨id, old, nearest⟩
    exact .inr ⟨id, _, nearest, rfl⟩

theorem set_eq_undeclared_iff : (h.set x v env).1 = .error ⟨.undeclared x.name, x.span⟩ ↔
      (∃ id, h.Nearest x.name env id .unassigned) ∨ h.Lacks x.name env := by
  rw [set_eq_iff]
  constructor
  · rintro (⟨lacks, -⟩ | ⟨id, _ | ⟨old, _ | _⟩, nearest, result⟩)
    · exact .inr lacks
    · exact .inl ⟨id, nearest⟩
    · cases result
    · cases result
  · rintro (⟨id, nearest⟩ | lacks)
    · exact .inr ⟨id, _, nearest, rfl⟩
    · exact .inl ⟨lacks, rfl⟩

/-! ## Reading after assigning -/

/-- Binding a name in a scope that has it changes what the name is bound to there, and leaves
    the nearest scope what it was. -/
theorem Nearest.bind (nearest : h.Nearest name env id slot) (has : h.slot? changed name = some old)
    (new : Slot) :
    (h.bind changed name new).Nearest name env id (if id = changed then new else slot) := by
  have inside : changed.index < h.scopes.size := by
    by_contra outside
    cases has.symm.trans (slot?_of_size_le (not_lt.1 outside) name)
  obtain ⟨inner, outer, rfl, absent, found⟩ := nearest
  refine ⟨inner, outer, rfl, fun i member => ?_, ?_⟩
  · have other : changed ≠ i := by
      rintro rfl
      cases has.symm.trans (absent changed member)
    rw [slot?_bind_of_scope_ne other, absent i member]
  · by_cases same : id = changed
    · rw [if_pos same, same, slot?_bind_self inside]
    · rw [if_neg same, slot?_bind_of_scope_ne (Ne.symm same), found]

theorem Lacks.bind (lacks : h.Lacks name env) (has : h.slot? changed name = some old) (new : Slot) :
    (h.bind changed name new).Lacks name env := by
  intro id member
  have other : changed ≠ id := by
    rintro rfl
    cases has.symm.trans (lacks changed member)
  rw [slot?_bind_of_scope_ne other, lacks id member]

/-- A name that was assigned in a scope reads as the new value where this scope is the nearest
    one that has it. -/
theorem get_bind_of_nearest (v : Value) (isMutable : Bool)
    (nearest : h.Nearest y.name env id slot) :
    (h.bind id y.name (.assigned v isMutable)).get y env = .ok v := by
  have after := nearest.bind nearest.slot?_eq (.assigned v isMutable)
  rw [if_pos rfl] at after
  exact get_of_nearest after

/-- Everywhere else, reading is as before. -/
theorem get_bind_of_not_nearest (new : Slot) (has : h.slot? id name = some old)
    (apart : y.name = name → ∀ slot, ¬h.Nearest name env id slot) :
    (h.bind id name new).get y env = h.get y env := by
  by_cases same : y.name = name
  · subst same
    rcases h.lacks_or_nearest y.name env with lacks | ⟨near, slot, nearest⟩
    · rw [get_of_lacks lacks, get_of_lacks (lacks.bind has new)]
    · have other : near ≠ id := by
        rintro rfl
        exact apart rfl slot nearest
      have after := nearest.bind has new
      rw [if_neg other] at after
      rw [get_of_nearest nearest, get_of_nearest after]
  · exact get_congr fun other _ => KeepsSlots.bind same h id new other

/-! ## The laws of reading and assigning -/

/-- **Reading and assigning.**  For all scopes, whatever bindings they have and however they are
    shared:

    Assigning a name succeeds exactly when the nearest scope that has it holds a value there
    that may be changed.  Then the name reads as the new value through all scopes of which the
    nearest one that has it is the same, and every other reading, of another name or through
    other scopes, is as before.  Otherwise nothing changes; the fault is that of a constant if
    the nearest scope holds a value that may not be changed, and that of an undeclared name if
    it holds none, or if no scope has the name.

    Reading a name gives the value in the nearest scope that has it.  It fails for want of a
    value exactly when there is none in this scope, and because the name is undeclared exactly
    when no scope has it. -/
theorem assigning_reaches_nearest_scope (h : Heap) (x : Identifier) (v : Value) (env : Env) :
    ((h.set x v env).1 = .ok () ↔ ∃ id old, h.Nearest x.name env id (.assigned old true)) ∧
      (∀ id old, h.Nearest x.name env id (.assigned old true) → ∀ (y : Identifier) (env' : Env),
        (y.name = x.name → (∃ slot, h.Nearest x.name env' id slot) →
          (h.set x v env).2.get y env' = .ok v) ∧
        (¬(y.name = x.name ∧ ∃ slot, h.Nearest x.name env' id slot) →
          (h.set x v env).2.get y env' = h.get y env')) ∧
      (∀ fault, (h.set x v env).1 = .error fault → (h.set x v env).2 = h) ∧
      ((h.set x v env).1 = .error ⟨.constant x.name, x.span⟩ ↔
        ∃ id old, h.Nearest x.name env id (.assigned old false)) ∧
      ((h.set x v env).1 = .error ⟨.undeclared x.name, x.span⟩ ↔
        (∃ id, h.Nearest x.name env id .unassigned) ∨ h.Lacks x.name env) ∧
      (∀ value, h.get x env = .ok value ↔
        ∃ id isMutable, h.Nearest x.name env id (.assigned value isMutable)) ∧
      (h.get x env = .error ⟨.unassigned x.name, x.span⟩ ↔
        ∃ id, h.Nearest x.name env id .unassigned) ∧
      (h.get x env = .error ⟨.undeclared x.name, x.span⟩ ↔ h.Lacks x.name env) := by
  refine ⟨set_eq_ok_iff, fun id old nearest y env' => ?_, fun _ => set_of_error,
    set_eq_constant_iff, set_eq_undeclared_iff, fun _ => get_eq_ok_iff, get_eq_unassigned_iff,
    get_eq_undeclared_iff⟩
  rw [set_of_nearest v nearest]
  constructor
  · rintro same ⟨slot, near⟩
    rw [← same] at near ⊢
    exact get_bind_of_nearest v true near
  · intro apart
    refine get_bind_of_not_nearest _ nearest.slot?_eq fun same slot near => ?_
    exact apart ⟨same, slot, near⟩

end Heap

end SourceMachine
