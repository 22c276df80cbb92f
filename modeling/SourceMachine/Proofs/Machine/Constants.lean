import SourceMachine.Proofs.Machine.DeadZone

/-!
# Constants

Giving a name a value does not ask whether the name is constant, and calls that come back
twice can give it a value again.  This is the only way in which a constant changes: a step
that changes it takes a frame that declares the name in this very scope
(`initializes_of_changed`).  Frames of that kind belong to bodies, so no step changes
anything in the scope of the builtin names (`slot?_of_builtins`), nor the return point of a
call.

Assigning asks first.  An assignment that is at fault has changed nothing
(`world_of_failed_assignment`).
-/

namespace SourceMachine

namespace Machine

/-! ## Constants -/

variable {m : Machine} {id : ScopeId}

/-- A constant is changed only by a declaration of the same name in the same scope. -/
theorem initializes_of_changed {name : String} {v : Value}
    (constant : m.world.heap.slot? id name = some (.assigned v false))
    (changed : m.step.2.world.heap.slot? id name ≠ some (.assigned v false)) :
    m.Initializes id name := by
  by_contra untouched
  rcases slot?_step_of_not_initializes (lt_size_of_slot? constant) untouched with
    kept | ⟨_, _, before, -⟩
  · exact changed (kept.trans constant)
  · rw [constant] at before
    cases before

/-! ## The builtin names -/

/-- A step changes nothing in a scope of builtin names. -/
theorem IsLexical.slot?_step_of_builtins {births : List Birth} {outer : Env}
    (lexical : m.IsLexical births) (declared : m.world.heap.IsDeclared births)
    (born : births[id.index]? = some ⟨.builtins, outer⟩) (name : String) :
    m.step.2.world.heap.slot? id name = m.world.heap.slot? id name := by
  have inside : id.index < m.world.heap.scopes.size := by
    rw [← lexical.heap.length_eq]
    exact (List.getElem?_eq_some_iff.1 born).1
  have untouched : ¬m.Initializes id name := by
    intro initializes
    obtain ⟨birth, body, born', of, -⟩ := lexical.mem_scopeNames_of_initializes initializes
    cases born.symm.trans born'
    cases of
  rcases slot?_step_of_not_initializes inside untouched with kept | ⟨v, _, before, -⟩
  · exact kept
  · -- only what is not constant is assigned
    obtain ⟨_, constant⟩ := declared id.index _ born name _ before
    cases constant

/-- A session changes nothing in a scope of builtin names. -/
theorem IsLexical.slot?_of_builtins {start : Machine} {before births : List Birth} {outer : Env}
    (lexical : start.IsLexical before) (declared : start.world.heap.IsDeclared before)
    (born : before[id.index]? = some ⟨.builtins, outer⟩) (reached : start.Reaches births m)
    (name : String) : m.world.heap.slot? id name = start.world.heap.slot? id name := by
  induction reached with
  | refl => rfl
  | step reached ih =>
    have unchanged := (lexical.reaches reached).slot?_step_of_builtins
      (lexical.isDeclared_of_reaches declared reached) (born_append born _) name
    exact unchanged.trans ih
  | load _ _ ih | triedPreludes _ ih => exact ih

/-! ## Assignments -/

/-- The next step starts an assignment or makes it. -/
def isAssigning (m : Machine) : Bool :=
  match m.control, m.stack.pop? with
  | some (.expression (.assignment ..)), _ => true
  | some (.value _), some (.assign .., _) => true
  | _, _ => false

/-- Starting an assignment changes nothing. -/
theorem world_step_of_assignment {op : AssignOp} {target : Target} {value : Expr} {span : Span}
    (control : m.control = some (.expression (.assignment op target value span))) :
    m.step.2.world = m.world := by
  have notFinal : m.final? = none := by rw [final?, control]
  rw [step_of_transition control notFinal, transition, evaluate]
  cases target.assignee op span with
  | error => rfl
  | ok x =>
    dsimp only [settle]
    split <;> rfl

/-- An assignment that is at fault changes nothing. -/
theorem world_of_failed_assignment {failure : Failure} (fits : m.Fits) (assigning : m.isAssigning)
    (failed : m.step.1 = .failed failure) : m.step.2.world = m.world := by
  rw [isAssigning] at assigning
  split at assigning
  · next control => exact world_step_of_assignment control
  · next v x env rest control popped =>
    have top := Stack.pop?_eq_some popped
    rw [step_of_assign control top, Heap.set] at failed ⊢
    cases found : m.world.heap.assignable x env with
    | error cause => rfl
    | ok scope =>
      -- an assignment that is made leaves a stack that is smaller than before
      rw [found] at failed
      dsimp only [settle] at failed
      split at failed
      · next deep =>
        have small : m.stack.depth ≤ m.maxDepth := fits _ control (by simp)
        rw [top, Stack.depth_push] at small
        have deep' : m.maxDepth < rest.depth := deep
        omega
      · cases failed
  · cases assigning

/-- **Constants.**  In every state of every session, on a heap that earlier sessions left
    behind, a step changes a constant only if it takes a frame that declares this name in
    this scope, and then the scope belongs to a body that declares the name.  A session
    without such steps keeps the constant.

    No step ever changes a name in a scope of builtin names, of this session or of an
    earlier one, and none changes the return point of a call.  An assignment that fails
    leaves the whole world as it was. -/
theorem constants_of_session {settings : Settings} {table : Table} {world : World}
    {before births : List Birth} {m : Machine}
    (left : world.heap.IsLeft (fun _ _ => True) before)
    (reached : (Machine.new settings table world).Reaches births m) :
    let record := before ++ ⟨.builtins, []⟩ :: births
    (∀ id name v, m.world.heap.slot? id name = some (.assigned v false) →
        m.step.2.world.heap.slot? id name ≠ some (.assigned v false) →
        m.Initializes id name ∧ ∃ birth body, record[id.index]? = some birth ∧
          birth.site.body? = some body ∧ name ∈ scopeNames body) ∧
      (∀ since m', m.Passes since m' → ∀ id name v,
        m.world.heap.slot? id name = some (.assigned v false) →
        (∀ s ∈ since, ¬s.Initializes id name) →
        m'.world.heap.slot? id name = some (.assigned v false)) ∧
      (∀ later m', m.Reaches later m' → ∀ id,
        (∀ outer, record[id.index]? = some ⟨.builtins, outer⟩ →
          ∀ name, m'.world.heap.slot? id name = m.world.heap.slot? id name) ∧
        (id.index < m.world.heap.scopes.size →
          m'.world.heap.slot? id returnPoint = m.world.heap.slot? id returnPoint)) ∧
      (m.isAssigning → ∀ failure, m.step.1 = .failed failure → m.step.2.world = m.world) := by
  intro record
  have started := isLexical_new settings table (isLexical_of_isLeft left)
  have lexical := started.reaches reached
  have declared := isDeclared_of_isLeft (left.after trivial reached)
  rw [← List.append_cons] at lexical
  have fits : m.Fits := (show (Machine.new settings table world).Fits from nofun).reaches reached
  refine ⟨fun id name v constant changed => ?_, fun since m' passed id name v constant =>
    passed.constant (lt_size_of_slot? constant) constant, fun later m' onwards id => ⟨?_, ?_⟩,
    fun assigning failure => world_of_failed_assignment fits assigning⟩
  · have initializes := initializes_of_changed constant changed
    exact ⟨initializes, lexical.mem_scopeNames_of_initializes initializes⟩
  · intro outer born
    exact lexical.slot?_of_builtins declared born onwards
  · exact (lexical.isExtended_of_reaches onwards).points id

theorem constants_of_assignment :
    let start := Machine.new { maxDepth := 40, prelude := false } Table.standard {}
    let m := start.perform (.eval "const x = true; x = false;" (some 8))
    ∃ births failure, start.Reaches births m ∧ m.isAssigning ∧ m.step.1 = .failed failure ∧
      m.world.heap.slot? ⟨1⟩ "x" = some (.assigned (.boolean true) false) ∧
      m.step.2.world = m.world ∧
      ∀ later m', m.Reaches later m' → ∀ name,
        m'.world.heap.slot? ⟨0⟩ name = m.world.heap.slot? ⟨0⟩ name := by
  intro start m
  obtain ⟨births, reached⟩ : start.Visits m := Visits.perform ⟨[], .refl⟩ ⟨nofun, nofun⟩
  obtain ⟨-, -, kept, fails⟩ := constants_of_session (.blank rfl rfl rfl rfl) reached
  obtain ⟨assigning, failing, constant⟩ : m.isAssigning ∧ m.step.1.isFailed ∧
      m.world.heap.slot? ⟨1⟩ "x" = some (.assigned (.boolean true) false) := by decide +kernel
  obtain ⟨failure, failed⟩ := Progress.eq_failed failing
  exact ⟨births, failure, reached, assigning, failed, constant, fails assigning failure failed,
    fun later m' onwards => (kept later m' onwards ⟨0⟩).1 [] rfl⟩

end Machine

end SourceMachine
