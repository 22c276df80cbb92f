import SourceMachine.Proofs.Evaluator.Forget
import SourceMachine.Proofs.Machine.Known
import SourceMachine.Proofs.Machine.ReturnPoints

/-!
# What holds while a program is evaluated

An evaluation starts with some heap.  From there on the world `Follows` that heap: it has
grown, no value leads to a newer captured stack once the new return points are forgotten,
and closures can be called.  The scopes in which a phrase is evaluated are at a home
(`Heap.IsAt`): either no call of this evaluation is around the phrase, or the return point
that is found leads back to where the innermost one was made.

All of this is kept by the operations of the machine, and once the heap has grown it still
holds of what was there before (`IsAt.mono`).
-/

namespace SourceMachine

/-- The scopes are scopes of the heap. -/
def Heap.Has (h : Heap) (env : Env) : Prop :=
  ∀ id ∈ env, id.index < h.scopes.size

theorem Heap.Has.mono {h h' : Heap} {env : Env} (has : h.Has env) (grown : h.Extends h') :
    h'.Has env :=
  fun id member => (has id member).trans_le grown.size

theorem Heap.Has.newScope {h : Heap} {outer : Env} (has : h.Has outer) (label : String) :
    (h.newScope label outer).2.Has (h.newScope label outer).1 := by
  intro id member
  rw [Heap.newScope, Array.size_push]
  rcases List.mem_cons.1 member with rfl | old
  · exact Nat.lt_succ_self _
  · exact (has id old).trans (Nat.lt_succ_self _)

/-! ## The world -/

/-- A world that comes after an earlier heap. -/
structure World.Follows (w : World) (start : Heap) : Prop where
  grown : start.Extends w.heap
  known : (w.heap.forget start).IsKnown start.continuations.size
  closures : ∀ c ∈ w.heap.closures, c.function.IsSpelled ∧ w.heap.Has c.env

/-- The world with another heap. -/
def World.withHeap (w : World) (h : Heap) : World :=
  { w with heap := h }

namespace World.Follows

variable {start : Heap} {w : World}

variable (follows : w.Follows start) {args : List Value}

include follows

theorem of_extends {h : Heap} (grown : w.heap.Extends h)
    (known : (h.forget start).IsKnown start.continuations.size)
    (closures : h.closures = w.heap.closures) : (w.withHeap h).Follows start := by
  refine ⟨follows.grown.trans grown, known, fun c member => ?_⟩
  obtain ⟨spelled, has⟩ := follows.closures c (closures ▸ member)
  exact ⟨spelled, has.mono grown⟩

theorem newScope (label : String) (outer : Env) :
    (w.withHeap (w.heap.newScope label outer).2).Follows start := by
  refine follows.of_extends (.newScope _ label outer) ?_ rfl
  have known := follows.known.newScope label outer
  rw [Heap.forget_newScope] at known
  exact known

theorem hoist (env : Env) {body : List Stmt} (spelled : ∀ s ∈ body, s.IsSpelled) :
    w.heap.Extends (w.heap.hoist env body).2 ∧
      (w.withHeap (w.heap.hoist env body).2).Follows start := by
  have unnamed := returnPoint_notMem_declaredNames spelled
  have kept := Heap.Keeps.of_hoist (rfl : w.heap.hoist env body = _)
  have grown := Heap.Extends.of_keeps kept (.of_hoist unnamed rfl)
  have known := follows.known.of_hoist (Heap.forget_hoist unnamed w.heap env)
  exact ⟨grown, follows.of_extends grown known kept.closures⟩

theorem define (env : Env) {name : String} (ne : returnPoint ≠ name) {v : Value}
    (value : v.IsKnown start.continuations.size) (isMutable : Bool) :
    w.heap.Extends (w.heap.define env name v isMutable) ∧
      (w.withHeap (w.heap.define env name v isMutable)).Follows start := by
  have kept := Heap.Keeps.define w.heap env name v isMutable
  have grown := Heap.Extends.of_keeps kept (.define ne w.heap env v isMutable)
  have known := follows.known.define env name value isMutable
  rw [Heap.forget_define ne] at known
  exact ⟨grown, follows.of_extends grown known kept.closures⟩

theorem set (env : Env) {id : Identifier} (ne : returnPoint ≠ id.name) {v : Value}
    (value : v.IsKnown start.continuations.size) :
    w.heap.Extends (w.heap.set id v env).2 ∧
      (w.withHeap (w.heap.set id v env).2).Follows start := by
  have kept := Heap.Keeps.set w.heap id v env
  have grown := Heap.Extends.of_keeps kept (.of_set ne rfl)
  have known := follows.known.of_set value (Heap.forget_set ne v env)
  exact ⟨grown, follows.of_extends grown known kept.closures⟩

theorem newClosure {f : Function} (spelled : f.IsSpelled) {env : Env} (has : w.heap.Has env) :
    (w.withHeap (w.heap.newClosure ⟨f, env⟩).2).Follows start := by
  refine ⟨follows.grown.trans (.newClosure _ _), follows.known.of_eq rfl rfl, fun c member => ?_⟩
  rcases Array.mem_push.1 member with old | rfl
  · exact follows.closures c old
  · exact ⟨spelled, has⟩

theorem enterCall {c : Closure} (spelled : c.function.IsSpelled)
    (all : ∀ v ∈ args, v.IsKnown start.continuations.size) (caller : Captured) :
    (w.withHeap (w.heap.enterCall c args caller).2).Follows start := by
  have unnamed := returnPoint_notMem_paramNames spelled
  refine follows.of_extends (.enterCall unnamed w.heap args caller) ?_ ?_
  · rw [Heap.forget_enterCall unnamed follows.grown.size]
    exact (follows.known.newScope c.function.displayName c.env).bindParams _ _ all
  · exact (Heap.Keeps.bindParams _ _ _ args).closures

theorem call (f : Native) (all : ∀ v ∈ args, v.IsKnown start.continuations.size) :
    w.heap.Extends (f.call args w).2.heap ∧ (f.call args w).2.Follows start ∧
      ∀ v, (f.call args w).1 = .ok v → v.IsKnown start.continuations.size := by
  have same := Native.effect_forget follows.grown follows.known f all
  rw [Native.call]
  cases found : f.effect args w with
  | error complaint => exact ⟨.refl _, follows, by simp⟩
  | ok e =>
    have effect := Native.effect_isKnown follows.known all (same.trans found)
    obtain ⟨value, known⟩ := effect.perform (w := w.forget start) follows.known
    rw [Effect.perform_forget] at value known
    have kept := Heap.Keeps.perform e w
    have grown := Heap.Extends.of_keeps kept (.perform e w)
    refine ⟨grown, ⟨follows.grown.trans grown, known, fun c member => ?_⟩, ?_⟩
    · obtain ⟨spelled, has⟩ := follows.closures c (kept.closures ▸ member)
      exact ⟨spelled, has.mono grown⟩
    · rintro v ⟨rfl⟩
      exact value

end World.Follows

/-! ## Where a return leads -/

/-- The scopes and the stack of the caller of the innermost call, if there is one in this
    evaluation. -/
abbrev Home := Option (Env × Stack)

/-- Where a `return` leads: to the caller, or to what the hidden name was bound to
    earlier. -/
def Heap.LeadsTo (h start : Heap) (env : Env) : Home → Prop
  | none => ∀ id ∈ env, start.scopes.size ≤ id.index → h.slot? id returnPoint = none
  | some (callerEnv, rest) =>
    ∃ k, h.lookup? returnPoint env = some (.continuation k) ∧
      h.continuation? k = some ⟨.undelimited, callerEnv, rest⟩

/-- Phrases in these scopes are evaluated at a home. -/
structure Heap.IsAt (h start : Heap) (home : Home) (env : Env) : Prop where
  has : h.Has env
  leads : h.LeadsTo start env home

namespace Heap

variable {start h h' : Heap} {home : Home} {env : Env}

theorem Extends.lookup?_eq (grown : h.Extends h') (has : h.Has env) :
    h'.lookup? returnPoint env = h.lookup? returnPoint env := by
  induction env with
  | nil => rfl
  | cons id outer ih =>
    rw [lookup?, lookup?, grown.points id (has id List.mem_cons_self),
      ih fun id' member => has id' (List.mem_cons_of_mem id member)]

/-- Outside of the calls of this evaluation nothing that is found was forgotten. -/
theorem LeadsTo.lookup?_forget (leads : h.LeadsTo start env none) :
    (h.forget start).lookup? returnPoint env = h.lookup? returnPoint env := by
  induction env with
  | nil => rfl
  | cons id outer ih =>
    have same : (h.forget start).slot? id returnPoint = h.slot? id returnPoint := by
      by_cases old : id.index < start.scopes.size
      · exact slot?_forget_of_old old h returnPoint
      · rw [slot?_forget_of_new old, leads id List.mem_cons_self (not_lt.1 old)]
    rw [lookup?, lookup?, same,
      ih fun id' member new => leads id' (List.mem_cons_of_mem id member) new]

/-- Old scopes lead where they always led. -/
theorem Has.isAt (has : h.Has env) : h.IsAt h none env :=
  ⟨has, fun id member new => absurd (has id member) (not_lt.2 new)⟩

namespace IsAt

theorem mono (at_ : h.IsAt start home env) (grown : h.Extends h') : h'.IsAt start home env := by
  refine ⟨at_.has.mono grown, ?_⟩
  cases home with
  | none =>
    intro id member new
    rw [grown.points id (at_.has id member)]
    exact at_.leads id member new
  | some caller =>
    obtain ⟨k, found, captured⟩ := at_.leads
    exact ⟨k, (grown.lookup?_eq at_.has).trans found, grown.continuations captured⟩

/-- A scope of a block leads where the scopes around it lead. -/
theorem newScope (at_ : h.IsAt start home env) (label : String) :
    (h.newScope label env).2.IsAt start home (h.newScope label env).1 := by
  have empty : (h.newScope label env).2.slot? ⟨h.scopes.size⟩ returnPoint = none :=
    (KeepsSlots.newScope h label env _).trans (slot?_of_size_le le_rfl returnPoint)
  have outer := at_.mono (.newScope h label env)
  refine ⟨at_.has.newScope label, ?_⟩
  cases home with
  | none =>
    intro id member new
    rcases List.mem_cons.1 member with rfl | old
    · exact empty
    · exact outer.leads id old new
  | some caller =>
    obtain ⟨k, found, captured⟩ := outer.leads
    exact ⟨k, (lookup?_cons_of_none empty env).trans found, captured⟩

/-- A scope of a call leads to the caller. -/
theorem enterCall {c : Closure} (spelled : c.function.IsSpelled) (has : h.Has c.env)
    (args : List Value) (callerEnv : Env) (rest : Stack) :
    (h.enterCall c args ⟨.undelimited, callerEnv, rest⟩).2.IsAt start (some (callerEnv, rest))
      (⟨h.scopes.size⟩ :: c.env) := by
  have grown := Extends.enterCall (returnPoint_notMem_paramNames spelled) h args
    ⟨.undelimited, callerEnv, rest⟩
  refine ⟨?_, ⟨h.continuations.size⟩, ?_, continuation?_enterCall _ _ _ _⟩
  · intro id member
    rcases List.mem_cons.1 member with rfl | old
    · refine lt_of_not_ge fun outside => ?_
      have none := slot?_of_size_le outside returnPoint
      rw [slot?_enterCall_self] at none
      cases none
    · exact has.mono grown id old
  · exact lookup?_cons_of_assigned (slot?_enterCall_self _ _ _ _) _

end IsAt

end Heap

/-! ## Captured frames -/

/-- What a frame goes on with can be evaluated. -/
def Control.IsReady (start h : Heap) (env : Env) : Control → Prop
  | .program _ => False
  | .statement s => s.IsSpelled ∧ h.IsAt start none env
  | .expression e => e.IsSpelled ∧ h.Has env
  | .value v => v.IsKnown start.continuations.size

/-- What a frame has still to do can be evaluated. -/
def Frame.IsReady (start h : Heap) : Frame → Prop
  | .halt => False
  | .exec s env => s.IsSpelled ∧ h.IsAt start none env
  | .leftOperand _ right _ env => right.IsSpelled ∧ h.Has env
  | .declare id _ _ | .assign id _ => returnPoint ≠ id.name
  | .callee args _ env => ∀ e ∈ args, e.IsSpelled ∧ h.Has env
  | .argument args _ evaluated f _ env =>
    (∀ e ∈ args, e.IsSpelled ∧ h.Has env) ∧ f.IsKnown start.continuations.size ∧
      ∀ v ∈ evaluated, v.IsKnown start.continuations.size
  | .apply f args _ _ =>
    f.IsKnown start.continuations.size ∧ ∀ v ∈ args, v.IsKnown start.continuations.size
  | .branch consequent alternate _ env =>
    consequent.IsReady start h env ∧ alternate.IsReady start h env
  | .unaryOperand .. | .rightOperand .. | .delimiter => True

theorem Control.IsReady.mono {start h h' : Heap} {env : Env} {c : Control}
    (ready : c.IsReady start h env) (grown : h.Extends h') : c.IsReady start h' env := by
  cases c with
  | program p => exact ready
  | statement s => exact ⟨ready.1, ready.2.mono grown⟩
  | expression e => exact ⟨ready.1, ready.2.mono grown⟩
  | value v => exact ready

theorem Frame.IsReady.mono {start h h' : Heap} {f : Frame} (ready : f.IsReady start h)
    (grown : h.Extends h') : f.IsReady start h' := by
  cases f with
  | exec s env => exact ⟨ready.1, ready.2.mono grown⟩
  | leftOperand op right span env => exact ⟨ready.1, ready.2.mono grown⟩
  | callee args span env =>
    exact fun e member => ⟨(ready e member).1, (ready e member).2.mono grown⟩
  | argument args next evaluated f span env =>
    refine ⟨fun e member => ?_, ready.2⟩
    exact ⟨(ready.1 e member).1, (ready.1 e member).2.mono grown⟩
  | branch consequent alternate span env => exact ⟨ready.1.mono grown, ready.2.mono grown⟩
  | _ => exact ready

/-- Every captured stack has its shape, and what its frames have still to do can be
    evaluated. -/
structure Heap.IsResumable (start : Heap) : Prop where
  shaped : start.IsShaped
  ready : ∀ k ∈ start.continuations, ∀ f ∈ k.stack.frames, f ≠ .halt → f.IsReady start start

namespace Heap.IsResumable

variable {start h : Heap} {k : Captured} (resumable : start.IsResumable)
  (captured : k ∈ start.continuations) (grown : start.Extends h)

include resumable captured grown

/-- A whole stack has its work above the frame that ends the program. -/
theorem whole (kind : k.kind = .undelimited) : ∃ above, k.stack.frames = above ++ [.halt] ∧
    ∀ f ∈ above, f.IsReady start h := by
  have shaped := resumable.shaped k captured
  rw [Captured.IsShaped, kind] at shaped
  obtain ⟨above, frames, notHalt⟩ := shaped
  refine ⟨above, frames, fun f member => ?_⟩
  have inside : f ∈ k.stack.frames := by
    rw [frames]
    exact List.mem_append_left _ member
  refine (resumable.ready k captured f inside ?_).mono grown
  rintro rfl
  exact notHalt member

theorem part (kind : k.kind = .delimited) : ∀ f ∈ k.stack.frames, f.IsReady start h := by
  have shaped := resumable.shaped k captured
  rw [Captured.IsShaped, kind] at shaped
  intro f member
  refine (resumable.ready k captured f member ?_).mono grown
  rintro rfl
  exact shaped.1 member

end Heap.IsResumable

end SourceMachine
