import SourceMachine.Proofs.Session.Failures

/-!
# Where frames come from

Two properties of all frames are proved here.  No frame leads to a program, so only taking up
a program starts one (`run_outer`).  And no frame comes back to a scope once there is none
that does (`IsSealed.reaches`): its names are declared by then, or never will be.
-/

namespace SourceMachine

variable {c c' : Control} {m start m' : Machine} {f : Frame} {births : List Birth} {env : Env}
  {h : Heap} {progress : Progress}

/-- What is evaluated in the current scopes. -/
def Control.isPhrase : Control → Bool
  | .statement _ | .expression _ => true
  | .program _ | .value _ => false

/-! ## Programs are only started when they are taken up -/

/-- The frame does not lead to a program. -/
def Frame.StartsNone : Frame → Prop
  | .branch consequent alternate _ _ =>
    (∀ p, consequent ≠ .program p) ∧ ∀ p, alternate ≠ .program p
  | _ => True

namespace Machine

theorem Starts.startsNone (start : Starts h env c c' f) : f.StartsNone := by
  cases start with
  | conditional test consequent alternate =>
    refine ⟨by simp, fun p => ?_⟩
    cases alternate <;> simp
  | conjunction | disjunction | choice => exact ⟨by simp, by simp⟩
  | _ => trivial

theorem Brings.startsNone (brings : m.Brings c f) : f.StartsNone := by
  cases brings with
  | started start => exact start.startsNone
  | _ => trivial

/-- No frame leads to a program. -/
theorem Reaches.startsNone (reached : start.Reaches births m)
    (none : start.AllFrames Frame.StartsNone) : m.AllFrames Frame.StartsNone := by
  induction reached with
  | refl => exact none
  | step _ ih => exact (stepped _).allFrames trivial ih fun c f _ brings => brings.startsNone
  | load _ _ ih => exact ⟨forall_initial trivial, ih.heap⟩
  | triedPreludes _ ih => exact ⟨ih.stack, ih.heap⟩

theorem startsNone_new (settings : Settings) (table : Table) {world : World}
    (none : world.heap.AllCaptured Frame.StartsNone) :
    (Machine.new settings table world).AllFrames Frame.StartsNone := by
  refine ⟨forall_initial trivial, ?_⟩
  exact Heap.AllCaptured.keeps (h := (world.heap.newScope "global" []).2) none (.install table _ _)

/-- Nor does any frame that sessions leave behind. -/
theorem startsNone_of_isLeft {allowed : Heap → Table → Prop} (left : h.IsLeft allowed births) :
    h.AllCaptured Frame.StartsNone := by
  induction left with
  | blank _ _ _ continuations => exact .of_eq_empty continuations
  | @after _ _ settings table world _ _ _ reached ih =>
    exact (reached.startsNone (startsNone_new settings table ih)).heap

/-- No transition leads to a program, if no frame does. -/
theorem Moves.ne_program (move : m.Moves c c' m') (none : m.AllFrames Frame.StartsNone)
    (p : Program) : c' ≠ .program p := by
  cases move with
  | @program q => cases q.body <;> simp [Control.ofBody]
  | @block b => cases b.body <;> simp [Control.ofBody]
  | starts start =>
    cases start with
    | returns argument => cases argument <;> simp
    | _ => simp
  | @branch v consequent alternate span env rest b top decided =>
    obtain ⟨first, second⟩ := (none.pop top).1
    cases b with
    | true => exact first p
    | false => exact second p
  | _ => simp

theorem Stepped.startsProgram (stepped : m.Stepped progress m')
    (none : m.AllFrames Frame.StartsNone) (proceeded : progress = .proceeded) :
    m'.startsProgram = false := by
  cases stepped with
  | proceeded control move =>
    have ticked : m.ticked.AllFrames Frame.StartsNone := ⟨none.stack, none.heap⟩
    exact startsProgram_of_control rfl (move.ne_program ticked)
  | _ => cases proceeded

/-- The scopes that stay do not change in the course of a program. -/
theorem run_outer (none : m.AllFrames Frame.StartsNone) (begun : m.startsProgram = false)
    (budget : Nat) : (m.run budget).2.outer = m.outer := by
  induction budget generalizing m with
  | zero => rfl
  | succ budget ih =>
    have same : m.step.2.outer = m.outer := by
      rw [(outer_step m).1, begun]
      rfl
    rw [run_succ]
    cases progress : m.step.1 with
    | proceeded =>
      have next : m.step.2.AllFrames Frame.StartsNone :=
        m.stepped.allFrames trivial none fun c f _ brings => brings.startsNone
      exact (ih next (m.stepped.startsProgram none progress)).trans same
    | complete | idle | failed => exact same

/-- The scope of a program is the only one that a run of the program adds to those that
    stay. -/
theorem run_load_outer (none : m.world.heap.AllCaptured Frame.StartsNone) (p : Program)
    (budget : Nat) :
    ((m.load p).run (budget + 1)).2.outer = ⟨m.world.heap.scopes.size⟩ :: m.outer := by
  have loaded : (m.load p).AllFrames Frame.StartsNone := ⟨forall_initial trivial, none⟩
  have first : (m.load p).step.2.outer = ⟨m.world.heap.scopes.size⟩ :: m.outer :=
    (outer_step _).1
  rw [run_succ]
  cases progress : (m.load p).step.1 with
  | proceeded =>
    have next : (m.load p).step.2.AllFrames Frame.StartsNone :=
      (m.load p).stepped.allFrames trivial loaded fun c f _ brings => brings.startsNone
    exact (run_outer next ((m.load p).stepped.startsProgram loaded progress) budget).trans first
  | complete | idle | failed => exact first

end Machine

/-! ## Sealed scopes -/

/-- The frame does not work in a scope itself, though it may work inside of it. -/
def Frame.Avoids (id : ScopeId) (f : Frame) : Prop :=
  ∀ env, f.env? = some env → env.head? ≠ some id

namespace Machine

/-- Nothing that is still to be done works in a scope itself. -/
structure IsSealed (id : ScopeId) (m : Machine) : Prop where
  inside : id.index < m.world.heap.scopes.size
  frames : m.AllFrames (Frame.Avoids id)
  control : ∀ c, m.control = some c → c.isPhrase → m.env.head? ≠ some id

section Sealed

variable {id : ScopeId} {m m' : Machine} {c c' : Control}

theorem head?_next_ne (inside : id.index < m.world.heap.scopes.size) (outer : Env) :
    (⟨m.world.heap.scopes.size⟩ :: outer : Env).head? ≠ some id := by
  intro same
  exact Heap.KeepsScope.next_ne inside (Option.some.inj same)

theorem Starts.env?_eq (start : Starts h env c c' f) : c.isPhrase ∧ f.env? = some env := by
  cases start <;> exact ⟨rfl, rfl⟩

section

variable (frames : m.AllFrames (Frame.Avoids id)) (inside : id.index < m.world.heap.scopes.size)
  (current : c.isPhrase → m.env.head? ≠ some id)

include frames inside current

theorem Brings.avoids (brings : m.Brings c f) : f.Avoids id := by
  intro env found
  cases brings with
  | ofProgram | ofBlock =>
    cases found
    exact head?_next_ne inside _
  | started start =>
    obtain ⟨phrase, here⟩ := start.env?_eq
    cases here.symm.trans found
    exact current phrase
  | declared =>
    cases found
    exact current rfl
  | operand top | again top => exact (frames.pop top).1 env found
  | argument top collect | call top collect =>
    cases collect <;> exact (frames.pop top).1 env found
  | mark => cases found

/-- What a transition goes on with is not to be done in a sealed scope. -/
theorem Moves.head?_ne (move : m.Moves c c' m') (phrase : c'.isPhrase) :
    m'.env.head? ≠ some id := by
  cases move with
  | program scope | block scope =>
    cases scope
    exact head?_next_ne inside _
  | closure => exact head?_next_ne inside _
  | starts start => exact current start.env?_eq.1
  | expression => exact current rfl
  | exec top | leftOperand top | branch top => exact (frames.pop top).1 _ rfl
  | nextArgument top collect =>
    cases collect with
    | callee | argument => exact (frames.pop top).1 _ rfl
  | _ => cases phrase

end

theorem Stepped.isSealed (stepped : m.Stepped progress m') (closed : m.IsSealed id) :
    m'.IsSealed id := by
  refine ⟨closed.inside.trans_le stepped.changes.size_le, ?_, ?_⟩
  · refine stepped.allFrames (by simp [Frame.Avoids, Frame.env?]) closed.frames ?_
    exact fun c f control brings =>
      brings.avoids closed.frames closed.inside (closed.control c control)
  · cases stepped with
    | complete | idle => exact closed.control
    | proceeded control move =>
      rintro c' ⟨⟩ phrase
      have apart := Moves.head?_ne (m := m.ticked) ⟨closed.frames.stack, closed.frames.heap⟩
        closed.inside (closed.control _ control) move phrase
      exact apart
    | overflow | fault => exact fun c control => by cases control

/-- A scope that is sealed stays so. -/
theorem IsSealed.reaches (closed : start.IsSealed id) (reached : start.Reaches births m) :
    m.IsSealed id := by
  induction reached with
  | refl => exact closed
  | step _ ih => exact (stepped _).isSealed ih
  | load _ _ ih =>
    refine ⟨ih.inside, ⟨forall_initial (by simp [Frame.Avoids, Frame.env?]), ih.frames.heap⟩, ?_⟩
    rintro c ⟨⟩ phrase
    cases phrase
  | triedPreludes _ ih => exact ⟨ih.inside, ⟨ih.frames.stack, ih.frames.heap⟩, ih.control⟩

/-- No name is declared in a sealed scope. -/
theorem IsSealed.not_initializes (closed : m.IsSealed id) (name : String) :
    ¬m.Initializes id name := by
  rintro ⟨v, x, isMutable, outer, rest, -, top, -⟩
  exact (closed.frames.pop top).1 _ rfl rfl

/-- In a sealed scope, only names that may be assigned change. -/
theorem IsSealed.rewrites (closed : start.IsSealed id) (visited : start.Visits m) (name : String) :
    Rewrites (start.world.heap.slot? id name) (m.world.heap.slot? id name) := by
  obtain ⟨births, reached⟩ := visited
  obtain ⟨past, -, passed⟩ := Passes.of_reaches reached
  refine passed.slot?_of_untouched closed.inside fun s member => ?_
  obtain ⟨earlier, later, rfl⟩ := List.append_of_mem member
  exact (closed.reaches passed.split.1.reaches).not_initializes name

/-- Whatever may not be assigned stays what it is in a sealed scope. -/
theorem IsSealed.slot?_eq {name : String} (closed : start.IsSealed id) (visited : start.Visits m)
    (fixed : ∀ v, start.world.heap.slot? id name ≠ some (.assigned v true)) :
    m.world.heap.slot? id name = start.world.heap.slot? id name := by
  rcases closed.rewrites visited name with kept | ⟨v, w, before, -⟩
  · exact kept
  · exact absurd before (fixed v)

end Sealed

end Machine

end SourceMachine
