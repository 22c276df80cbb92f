import SourceMachine.Proofs.Session.History

/-!
# What lasts

Closures and captured stacks are made and never changed.  Whatever an address leads to in
one state of a session, it leads to in every later one (`Reaches.lasts`), however often
the object is used in between.
-/

namespace SourceMachine

namespace Heap

/-- Every closure and every captured stack of the first heap is there in the second, at the
    same address. -/
structure Lasts (h h' : Heap) : Prop where
  closures : ∀ {id c}, h.closure? id = some c → h'.closure? id = some c
  continuations : ∀ {id k}, h.continuation? id = some k → h'.continuation? id = some k

/-- What is at an index stays there when something is added at the end. -/
theorem getElem?_push_of_eq_some {α : Type} {objects : Array α} {i : Nat} {a : α}
    (found : objects[i]? = some a) (new : α) : (objects.push new)[i]? = some a := by
  obtain ⟨inside, -⟩ := Array.getElem?_eq_some_iff.1 found
  rw [Array.getElem?_push_lt inside, ← found, Array.getElem?_eq_getElem inside]

namespace Lasts

theorem refl (h : Heap) : h.Lasts h :=
  ⟨id, id⟩

theorem trans {h₁ h₂ h₃ : Heap} (a : h₁.Lasts h₂) (b : h₂.Lasts h₃) : h₁.Lasts h₃ :=
  ⟨fun found => b.closures (a.closures found), fun found => b.continuations (a.continuations found)⟩

theorem of_keeps {h h' : Heap} (kept : h.Keeps h') : h.Lasts h' := by
  constructor
  · intro id c found
    rw [closure?, kept.closures]
    exact found
  · intro id k found
    rw [continuation?, kept.continuations]
    exact found

theorem newScope (h : Heap) (label : String) (outer : Env) : h.Lasts (h.newScope label outer).2 :=
  ⟨id, id⟩

theorem newClosure (h : Heap) (c : Closure) : h.Lasts (h.newClosure c).2 :=
  ⟨fun found => getElem?_push_of_eq_some found c, id⟩

theorem newContinuation (h : Heap) (k : Captured) : h.Lasts (h.newContinuation k).2 :=
  ⟨id, fun found => getElem?_push_of_eq_some found k⟩

theorem of_changes {names : List String} {h h' : Heap} (change : h.Changes names h') :
    h.Lasts h' := by
  cases change with
  | kept kept => exact of_keeps kept
  | @body label outer env inner _ _ _ scope hoisted =>
    have made := newScope h label outer
    rw [scope] at made
    exact made.trans (of_keeps (.of_hoist hoisted))
  | closure c => exact newClosure h c
  | captured k => exact newContinuation h k
  | call c args caller =>
    rw [enterCall_snd]
    have entered := (newScope h c.function.displayName c.env).trans (of_keeps (.bindParams _
      (⟨h.scopes.size⟩ :: c.env) c.function.params args))
    exact (entered.trans (newContinuation _ caller)).trans (of_keeps (.define _ _ _ _ _))

end Lasts

end Heap

namespace Machine

/-- No object is lost or changed in a session. -/
theorem Reaches.lasts {start m : Machine} {births : List Birth} (reached : start.Reaches births m) :
    start.world.heap.Lasts m.world.heap := by
  induction reached with
  | refl => exact .refl _
  | step _ ih => exact ih.trans (.of_changes (stepped _).changes)
  | load _ _ ih | triedPreludes _ ih => exact ih

end Machine

end SourceMachine
