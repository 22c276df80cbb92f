import SourceMachine.Proofs.Machine.Declarations

/-!
# Names before their declarations

From the entry of a body on, its scope has all names that its statements declare.  Such a
name has no value until a frame for this scope gives it one, and from then on it always
has one; calls that come back, or come back twice, do not change that (`History`).

A use of the name that is inside of the body, with no declaration of the same name in
between, passes only over scopes that cannot have it (`Declarations`), so it finds the slot
without a value and is at fault.  The scopes further out are not asked, even if they have
the name.
-/

namespace SourceMachine

variable {env : Env} {m : Machine} {x : Identifier} {name : String} {births : List Birth}
  {body : List Stmt} {cause : Fault} {h : Heap} {rest : Stack} {v : Value}

/-! ## The scopes inside of a body -/

/-- The names that a layer can bind. -/
def Layer.names : Layer → List String
  | .block b => scopeNames b.body
  | .function f => paramNames f.params

/-- The names that the innermost layers can bind. -/
def Layer.innerNames (count : Nat) (layers : List Layer) : List String :=
  (layers.take count).flatMap Layer.names

theorem Layer.innerNames_cons (count : Nat) (layer : Layer) (layers : List Layer) :
    innerNames (count + 1) (layer :: layers) = layer.names ++ innerNames count layers := by
  simp [innerNames]

namespace Surrounds

variable {births : List Birth} {p : Program} {layers : List Layer}

/-- The innermost layer has the innermost scope, which can have the names of the layer. -/
theorem of_cons {layer : Layer} {scope : ScopeId}
    (surrounds : Surrounds births p (layer :: layers) (scope :: env)) :
    Surrounds births p layers env ∧ ∃ site, births[scope.index]? = some ⟨site, env⟩ ∧
      ∀ name slot, site.Allows name slot → name ∈ layer.names ∨ name = returnPoint := by
  cases surrounds with
  | block born further => exact ⟨further, _, born, fun _ _ declared => .inl declared⟩
  | call born further => exact ⟨further, _, born, fun _ _ bound => bound⟩

variable {around : Env} (surrounds : Surrounds births p layers (around ++ env))
  (inside : around.length ≤ layers.length)

include surrounds inside

/-- What the scopes further out surround. -/
theorem drop : Surrounds births p (layers.drop around.length) env := by
  induction around generalizing layers with
  | nil => exact surrounds
  | cons scope rest ih =>
    cases layers with
    | nil => cases inside
    | cons layer layers => exact ih surrounds.of_cons.1 (Nat.le_of_succ_le_succ inside)

/-- A name that the innermost layers do not bind is in none of their scopes. -/
theorem slot?_eq_none (declared : h.IsDeclared births) (visible : name ≠ returnPoint)
    (unbound : name ∉ Layer.innerNames around.length layers) :
    ∀ scope ∈ around, h.slot? scope name = none := by
  induction around generalizing layers with
  | nil => exact nofun
  | cons innermost rest ih =>
    cases layers with
    | nil => cases inside
    | cons layer layers =>
      obtain ⟨further, site, born, binds⟩ := surrounds.of_cons
      rw [List.length_cons, Layer.innerNames_cons] at unbound
      obtain ⟨here, there⟩ := not_or.1 (mt List.mem_append.2 unbound)
      intro scope member
      rcases List.mem_cons.1 member with rfl | member
      · rw [Option.eq_none_iff_forall_ne_some]
        intro slot found
        exact (binds name slot (declared _ _ born name slot found)).elim here visible
      · exact ih further (Nat.le_of_succ_le_succ inside) there scope member

end Surrounds

/-- In scopes that have a given one further out, a phrase stands inside of the body that
    this scope was made for, or in a later program.  In the first case the scopes before it
    have no name that is not bound in between. -/
theorem Phrase.IsPlaced.around {a : Phrase} {site : Site} {around outer outer' : Env} {id : ScopeId}
    (placed : a.IsPlaced births (around ++ id :: outer)) (declared : h.IsDeclared births)
    (born : births[id.index]? = some ⟨site, outer'⟩) (of : site.body? = some body)
    (visible : name ≠ returnPoint) :
    ∃ p layers, p.IsRead ∧ Occurs p layers a ∧ Surrounds births p layers (around ++ id :: outer) ∧
      (around.length ≤ layers.length → bodyAt? p (layers.drop around.length) = some body ∧
        (name ∉ Layer.innerNames around.length layers →
          ∀ scope ∈ around, h.slot? scope name = none)) := by
  obtain ⟨p, layers, read, occurs, surrounds⟩ := placed
  refine ⟨p, layers, read, occurs, surrounds, fun inside => ⟨?_, fun unbound => ?_⟩⟩
  · obtain ⟨site', born', of'⟩ := (surrounds.drop inside).exists_born
    cases born.symm.trans born'
    exact of'.symm.trans of
  · exact surrounds.slot?_eq_none inside declared visible unbound

namespace Machine

/-! ## Steps that use a name -/

theorem step_of_get_eq_error (control : m.control = some (.expression (.identifier x)))
    (failed : m.world.heap.get x m.env = .error cause) :
    m.step = (.failed (.fault cause), m.ticked.raise cause) := by
  have notFinal : m.final? = none := by rw [final?, control]
  have moved : m.ticked.transition (.expression (.identifier x)) = (.error cause, m.ticked) := by
    rw [transition, evaluate, show m.ticked.world.heap.get x m.ticked.env = _ from failed]
  rw [step_of_transition control notFinal, moved]

/-- A value that arrives at an assignment is assigned if that can be done. -/
theorem step_of_assign (control : m.control = some (.value v))
    (top : m.stack = rest.push (.assign x env)) : m.step =
      match m.world.heap.set x v env with
      | (.ok (), h) =>
        ((m.ticked.popped (.assign x env) rest).withHeap h).settle (.value .undefined)
      | (.error cause, h) =>
        (.failed (.fault cause),
          ((m.ticked.popped (.assign x env) rest).withHeap h).raise cause) := by
  rw [step_of_transition control (final?_of_frame control top nofun),
    transition_of_top (m := m.ticked) top, give, onHeap]
  show _ = match (m.ticked.popped (.assign x env) rest).world.heap.set x v env with
    | (.ok (), h) => _
    | (.error cause, h) => _
  rcases (m.ticked.popped (.assign x env) rest).world.heap.set x v env with ⟨_ | _, h⟩
  · rfl
  · rfl

theorem step_of_assignable_eq_error (control : m.control = some (.value v))
    (top : m.stack = rest.push (.assign x env))
    (failed : m.world.heap.assignable x env = .error cause) :
    m.step = (.failed (.fault cause), (m.ticked.popped (.assign x env) rest).raise cause) := by
  rw [step_of_assign control top, Heap.set, failed]
  rfl

/-! ## Uses inside of a body -/

theorem IsLexical.ne_returnPoint (lexical : m.IsLexical births) (entering : m.entering? = some body)
    (declared : name ∈ declaredNames body) : name ≠ returnPoint := by
  rintro rfl
  refine lexical.returnPoint_notMem ?_
  rcases control_of_entering entering with ⟨p, control, rfl⟩ | ⟨b, control, rfl⟩
  · rw [usedNames, control]
    exact declared
  · rw [usedNames, control]
    exact declared

/-- **The dead zone.**  A body is entered from a machine of a session, on a heap that
    earlier sessions left behind, and its scope is looked at in any later state.

    Entering the body is at fault exactly when two of its statements declare the same name.
    Otherwise its scope has, in every later state, each name that a statement of the body
    declares; the name has no value if and only if no frame that declares it in this scope
    has been given one since.

    While this is so, a use of the name with this scope in reach is placed in a program.
    Either the scope belongs to an earlier program, or the use stands inside of the body;
    if it does, and no layer in between can bind the name, then reading it is at fault
    because it has no value, assigning it is at fault as if it were not declared, and
    neither changes anything in the world. -/
theorem dead_zone {settings : Settings} {table : Table} {world : World} {before : List Birth}
    {earlier since : List Machine} {m₀ : Machine}
    (left : world.heap.IsLeft (fun _ _ => True) before)
    (passed : (Machine.new settings table world).Passes (earlier ++ m₀ :: since) m)
    (entering : m₀.entering? = some body) :
    let record := before ++ ⟨.builtins, []⟩ :: birthsOf (earlier ++ m₀ :: since)
    let id : ScopeId := ⟨m₀.world.heap.scopes.size⟩
    ((∃ name isMutable span, m₀.step.1 = .failed (.fault ⟨.redeclared name isMutable, span⟩)) ↔
        ¬(declaredNames body).Nodup) ∧
      ((declaredNames body).Nodup → ∀ name ∈ declaredNames body,
        (∃ slot, m.world.heap.slot? id name = some slot ∧
          (slot = .unassigned ↔ ∀ s ∈ since, ¬s.Initializes id name)) ∧
        ((∀ s ∈ since, ¬s.Initializes id name) → ∀ around outer,
          (∀ x, m.control = some (.expression (.identifier x)) → x.name = name →
            m.env = around ++ id :: outer →
            ∃ p layers, p.IsRead ∧ Occurs p layers (.expression (.identifier x)) ∧
              Surrounds record p layers (around ++ id :: outer) ∧
              (around.length ≤ layers.length →
                bodyAt? p (layers.drop around.length) = some body ∧
                (name ∉ Layer.innerNames around.length layers →
                  m.step.1 = .failed (.fault ⟨.unassigned name, x.span⟩) ∧
                  m.step.2.world = m.world))) ∧
          (∀ x v (below : Stack), m.control = some (.value v) →
            m.stack = below.push (.assign x (around ++ id :: outer)) → x.name = name →
            ∃ value span p layers, p.IsRead ∧
              Occurs p layers (.expression (.assignment .assign (.identifier x) value span)) ∧
              Surrounds record p layers (around ++ id :: outer) ∧
              (around.length ≤ layers.length →
                bodyAt? p (layers.drop around.length) = some body ∧
                (name ∉ Layer.innerNames around.length layers →
                  m.step.1 = .failed (.fault ⟨.undeclared name, x.span⟩) ∧
                  m.step.2.world = m.world))))) := by
  intro record id
  obtain ⟨before_entry, after_entry⟩ := passed.split
  have started := isLexical_new settings table (isLexical_of_isLeft left)
  have at_entry := started.reaches before_entry.reaches
  have lexical := started.reaches passed.reaches
  have declared := isDeclared_of_isLeft (left.after trivial passed.reaches)
  rw [← List.append_cons] at lexical
  -- the scope of the body in the record
  obtain ⟨site, outer', -, -, -, made, of, -⟩ := m₀.stepped.of_entering entering
  have whole : record = before ++ [⟨.builtins, []⟩] ++ birthsOf earlier ++ [⟨site, outer'⟩] ++
      birthsOf since := by simp [record, birthsOf, made]
  have born : record[id.index]? = some ⟨site, outer'⟩ := by
    rw [whole]
    exact born_append (at_entry.heap.born_last ⟨site, outer'⟩) _
  have inside : id.index < m₀.step.2.world.heap.scopes.size := lt_size_of_entering entering
  refine ⟨redeclared_iff entering, fun distinct name member => ?_⟩
  have visible := at_entry.ne_returnPoint entering member
  obtain ⟨slot, found, untouched_iff⟩ :=
    after_entry.unassigned_iff inside ((slot?_of_entering entering).2 distinct member)
  refine ⟨⟨slot, found, untouched_iff⟩, fun untouched around outer => ?_⟩
  obtain rfl := untouched_iff.2 untouched
  constructor
  · rintro x control rfl scopes
    have placed := lexical.control _ control
    rw [scopes] at placed
    obtain ⟨p, layers, read, occurs, surrounds, shadows⟩ :=
      placed.around declared born of visible
    refine ⟨p, layers, read, occurs, surrounds, fun shallow =>
      ⟨(shadows shallow).1, fun unbound => ?_⟩⟩
    have nearest : m.world.heap.Nearest x.name m.env id .unassigned :=
      ⟨around, outer, scopes, (shadows shallow).2 unbound, found⟩
    have failed := Heap.get_of_nearest nearest
    rw [step_of_get_eq_error control failed]
    exact ⟨rfl, rfl⟩
  · rintro x v below control top rfl
    have frames := lexical.stack
    rw [top] at frames
    obtain ⟨⟨value, span, placed⟩, -⟩ := Stack.forall_of_push frames
    obtain ⟨p, layers, read, occurs, surrounds, shadows⟩ :=
      placed.around declared born of visible
    refine ⟨value, span, p, layers, read, occurs, surrounds, fun shallow =>
      ⟨(shadows shallow).1, fun unbound => ?_⟩⟩
    have nearest : m.world.heap.Nearest x.name (around ++ id :: outer) id .unassigned :=
      ⟨around, outer, rfl, (shadows shallow).2 unbound, found⟩
    rw [step_of_assignable_eq_error control top (Heap.assignable_of_nearest nearest)]
    exact ⟨rfl, rfl⟩

/-- The name that is to be read. -/
def reading? (m : Machine) : Option Identifier :=
  match m.control with
  | some (.expression (.identifier x)) => some x
  | _ => none

theorem control_of_reading (reading : m.reading? = some x) :
    m.control = some (.expression (.identifier x)) := by
  rw [reading?] at reading
  split at reading
  · next control =>
    cases reading
    exact control
  · cases reading

theorem dead_zone_of_initializer :
    let start := Machine.new { maxDepth := 40, prelude := false } Table.standard {}
    ∃ p since m x, Program.read "const y = x; const x = y;" = .ok p ∧
      start.Passes (start.load p :: since) m ∧ (start.load p).entering? = some p.body ∧
      m.control = some (.expression (.identifier x)) ∧ x.name = "x" ∧
      (∀ s ∈ since, ¬s.Initializes ⟨1⟩ "x") ∧
      m.step.1 = .failed (.fault ⟨.unassigned "x", x.span⟩) ∧ m.step.2.world = m.world := by
  intro start
  obtain ⟨p, read, declared, reading, scopes, unset⟩ := Program.exists_read (by decide +kernel :
    ∃ p ∈ (Program.read "const y = x; const x = y;").toOption,
      let m := ((start.load p).step.2.run 1).2
      declaredNames p.body = ["y", "x"] ∧ m.reading?.map Identifier.name = some "x" ∧
        m.env = [⟨1⟩, ⟨0⟩] ∧ m.world.heap.slot? ⟨1⟩ "x" = some .unassigned)
  obtain ⟨since, passed⟩ := Passes.run_load start read 1
  have whole : start.Passes ([] ++ start.load p :: since) _ := passed
  have next : (start.load p).world.heap.scopes.size = 1 :=
    (by decide +kernel : start.world.heap.scopes.size = 1)
  obtain ⟨-, inside⟩ := dead_zone (.blank rfl rfl rfl rfl) whole rfl
  rw [next, declared] at inside
  obtain ⟨⟨slot, found, untouched_iff⟩, uses⟩ := inside (by decide) "x" (by decide)
  have untouched : ∀ s ∈ since, ¬s.Initializes ⟨1⟩ "x" := by
    cases found.symm.trans unset
    exact untouched_iff.1 rfl
  obtain ⟨x, isRead, named⟩ := Option.map_eq_some_iff.1 reading
  have control := control_of_reading isRead
  obtain ⟨reads, -⟩ := uses untouched [] [⟨0⟩]
  obtain ⟨_, layers, -, -, -, fails⟩ := reads x control named scopes
  obtain ⟨failed, same⟩ := (fails (Nat.zero_le _)).2 List.not_mem_nil
  exact ⟨p, since, _, x, read, passed, rfl, control, named, untouched, failed, same⟩

end Machine

end SourceMachine
