import SourceMachine.Proofs.Session.History

/-!
# Where names are declared

A declaration is a statement of a body, or it stands alone as a branch of one: a branch of
a conditional need not be a block.  In both cases it is run in the scope of the body.
`scopeNames` has the names of both, and `declaredNames` only those of the first, which
are the ones that are hoisted.

By `Lexical`, a frame that declares a name is placed with the statement that it is from,
so it can only declare one of the `scopeNames` of the body that its scope was made for
(`IsLexical.mem_scopeNames_of_initializes`).  In particular, nothing is ever declared in
the scope of a call or among the builtin names.  The invariant `Heap.IsDeclared` says of
every scope which names it can have.
-/

namespace SourceMachine

variable {m m' : Machine} {body : List Stmt} {births : List Birth} {name : String} {birth : Birth}
  {h h' : Heap} {id : ScopeId} {s : Stmt} {site : Site} {slot : Slot} {c : Control}
  {layers : List Layer} {p : Program} {progress : Progress}

/-! ## The names of a body -/

/-- The names that a statement declares in the scope in which it is run: its own, or those
    of its branches. -/
def Stmt.scopeNames : Stmt → List String
  | .conditional _ consequent none _ => consequent.scopeNames
  | .conditional _ consequent (some alternate) _ => consequent.scopeNames ++ alternate.scopeNames
  | s => (s.declared?.map (·.1.name)).toList

/-- The names that a body declares in its scope, by its statements or by branches of
    them. -/
def scopeNames (body : List Stmt) : List String :=
  body.flatMap Stmt.scopeNames

theorem Stmt.mem_scopeNames_of_declared {x : Identifier} {isMutable : Bool}
    (declared : s.declared? = some (x, isMutable)) : x.name ∈ s.scopeNames := by
  cases s with
  | conditional => cases declared
  | _ => simp [Stmt.scopeNames, declared]

theorem Stmt.consequent_subset (test : Expr) (consequent : Stmt) (alternate : Option Stmt)
    (span : Span) :
    consequent.scopeNames ⊆ (Stmt.conditional test consequent alternate span).scopeNames := by
  cases alternate with
  | none => simp [Stmt.scopeNames]
  | some alternate => simp [Stmt.scopeNames]

theorem Stmt.alternate_subset (test : Expr) (consequent alternate : Stmt) (span : Span) :
    alternate.scopeNames ⊆ (Stmt.conditional test consequent (some alternate) span).scopeNames := by
  simp [Stmt.scopeNames]

theorem scopeNames_subset_of_mem (member : s ∈ body) : s.scopeNames ⊆ scopeNames body := by
  intro name found
  exact List.mem_flatMap.2 ⟨s, member, found⟩

/-- What is hoisted is declared. -/
theorem declaredNames_subset_scopeNames (body : List Stmt) :
    declaredNames body ⊆ scopeNames body := by
  intro name found
  obtain ⟨s, member, declares⟩ := List.mem_filterMap.1 found
  obtain ⟨⟨x, isMutable⟩, declared, rfl⟩ := Option.map_eq_some_iff.1 declares
  exact scopeNames_subset_of_mem member (Stmt.mem_scopeNames_of_declared declared)

/-- The body that statements at a position belong to.  What stands right inside of a
    function is only the block that it is made of. -/
def bodyAt? (p : Program) : List Layer → Option (List Stmt)
  | [] => some p.body
  | .block b :: _ => some b.body
  | .function _ :: _ => none

/-- A statement declares names of the body that it belongs to. -/
theorem Occurs.scopeNames_subset (occurs : Occurs p layers (.statement s)) :
    s.scopeNames ⊆ (bodyAt? p layers).elim [] scopeNames := by
  generalize same : Phrase.statement s = a at occurs
  -- a statement is one of a body, or a branch of one that stands at the same position
  induction occurs generalizing s with
  | top member =>
    cases same
    exact scopeNames_subset_of_mem member
  | inBlock _ member _ =>
    cases same
    exact scopeNames_subset_of_mem member
  | inFunction =>
    cases same
    simp [Stmt.scopeNames, Stmt.declared?]
  | part _ part ih =>
    subst same
    cases part with
    | consequent test consequent alternate span =>
      exact List.Subset.trans (Stmt.consequent_subset test s alternate span) (ih rfl)
    | alternate test consequent alternate span =>
      exact List.Subset.trans (Stmt.alternate_subset test consequent s span) (ih rfl)

/-! ## Which scopes are declared in -/

/-- The innermost scope around a phrase is that of the body to which it belongs. -/
theorem Surrounds.exists_born {outer : Env} (surrounds : Surrounds births p layers (id :: outer)) :
    ∃ site, births[id.index]? = some ⟨site, outer⟩ ∧ site.body? = bodyAt? p layers := by
  cases surrounds with
  | program born | block born | call born => exact ⟨_, born, rfl⟩

namespace Machine

/-- A name is only ever declared in the scope of a body that declares it. -/
theorem IsLexical.mem_scopeNames_of_initializes (lexical : m.IsLexical births)
    (initializes : m.Initializes id name) :
    ∃ birth body, births[id.index]? = some birth ∧ birth.site.body? = some body ∧
      name ∈ scopeNames body := by
  obtain ⟨v, x, isMutable, outer, rest, -, top, rfl⟩ := initializes
  have placed := lexical.stack
  rw [top] at placed
  obtain ⟨⟨s, declared, p, layers, -, occurs, surrounds⟩, -⟩ := Stack.forall_of_push placed
  have named := occurs.scopeNames_subset (Stmt.mem_scopeNames_of_declared declared)
  obtain ⟨site, born, of⟩ := surrounds.exists_born
  cases found : bodyAt? p layers with
  | none =>
    rw [found] at named
    cases named
  | some body =>
    rw [found] at named of
    exact ⟨_, body, born, of, named⟩

end Machine

/-! ## Which names a scope can have -/

/-- What can be bound in a scope, by what it was made for.  The builtin names are
    constants. -/
def Site.Allows (name : String) (slot : Slot) : Site → Prop
  | .builtins => ∃ v, slot = .assigned v false
  | .program p => name ∈ scopeNames p.body
  | .block b => name ∈ scopeNames b.body
  | .call f _ _ => name ∈ paramNames f.params ∨ name = returnPoint

theorem Site.allows_of_body (of : site.body? = some body) (member : name ∈ scopeNames body)
    (slot : Slot) : site.Allows name slot := by
  cases site with
  | program | block =>
    cases of
    exact member
  | builtins | call => cases of

/-- A slot that is rewritten is allowed as before. -/
theorem Site.Allows.rewrites {before after : Slot} (allowed : site.Allows name before)
    (rewritten : Machine.Rewrites (some before) (some after)) : site.Allows name after := by
  rcases rewritten with same | ⟨v, w, same, -⟩
  · cases same
    exact allowed
  · cases same
    cases site with
    | builtins =>
      obtain ⟨_, constant⟩ := allowed
      cases constant
    | program | block | call => exact allowed

/-- Every scope has only what it can have. -/
def Heap.IsDeclared (births : List Birth) (h : Heap) : Prop :=
  ∀ (i : Nat) (birth : Birth), births[i]? = some birth →
    ∀ name slot, h.slot? ⟨i⟩ name = some slot → birth.site.Allows name slot

/-- A scope that was just made has only what it can have. -/
theorem Heap.Begets.allows (begets : h.Begets birth h')
    (found : h'.slot? ⟨h.scopes.size⟩ name = some slot) : birth.site.Allows name slot := by
  cases begets with
  | body of scope hoisted =>
    have declared := mem_declaredNames_of_enters scope hoisted found
    exact Site.allows_of_body of (declaredNames_subset_scopeNames _ declared) slot
  | call c args env rest =>
    -- a call leaves all names alone but its parameters and the return point
    by_contra other
    obtain ⟨unused, visible⟩ := not_or.1 other
    have change : h.Changes (paramNames c.function.params) _ :=
      .call c args ⟨.undelimited, env, rest⟩ rfl
    rw [change.keepsSlots unused visible, slot?_next] at found
    cases found

namespace Machine

/-- A step keeps scopes to what they can have. -/
theorem IsLexical.isDeclared_step (lexical : m.IsLexical births)
    (declared : m.world.heap.IsDeclared births) :
    m.step.2.world.heap.IsDeclared (births ++ m.birth?.toList) := by
  intro i birth born name slot found
  have recorded := lexical.heap.length_eq
  by_cases old : i < births.length
  · -- a scope that was there: the step declares the name in it, or rewrites its slot
    rw [List.getElem?_append_left old] at born
    by_cases initializes : m.Initializes ⟨i⟩ name
    · obtain ⟨birth', body, born', of, member⟩ :=
        lexical.mem_scopeNames_of_initializes initializes
      obtain rfl : birth = birth' := Option.some.inj (born.symm.trans born')
      exact Site.allows_of_body of member slot
    · have rewritten := slot?_step_of_not_initializes (recorded ▸ old) initializes
      rw [found] at rewritten
      cases before : m.world.heap.slot? ⟨i⟩ name with
      | none =>
        rw [before] at rewritten
        rcases rewritten with same | ⟨_, _, same, -⟩ <;> cases same
      | some slot' =>
        rw [before] at rewritten
        exact (declared i birth born name slot' before).rewrites rewritten
  · -- the scope that the step makes
    rw [List.getElem?_append_right (not_lt.1 old)] at born
    obtain ⟨inside, -⟩ := List.getElem?_eq_some_iff.1 born
    cases made : m.birth? with
    | none =>
      rw [made] at inside
      cases inside
    | some birth' =>
      rw [made, Option.toList_some] at born inside
      obtain rfl : i = m.world.heap.scopes.size := by
        simp only [List.length_singleton] at inside
        omega
      rw [recorded, Nat.sub_self] at born
      cases born
      exact (made ▸ m.stepped.bears).begets.allows found

/-- A session keeps scopes to what they can have. -/
theorem IsLexical.isDeclared_of_reaches {start : Machine} {before : List Birth}
    (lexical : start.IsLexical before) (declared : start.world.heap.IsDeclared before)
    (reached : start.Reaches births m) : m.world.heap.IsDeclared (before ++ births) := by
  induction reached with
  | refl =>
    rw [List.append_nil]
    exact declared
  | step reached ih =>
    rw [← List.append_assoc]
    exact (lexical.reaches reached).isDeclared_step ih
  | load _ _ ih | triedPreludes _ ih => exact ih

end Machine

/-- What a table puts into a scope are constants. -/
theorem Table.constant_of_install (table : Table) (outer : Env) (inside : id.index < h.scopes.size)
    (constants : ∀ name slot, h.slot? id name = some slot → ∃ v, slot = .assigned v false)
    (found : (table.install (id :: outer) h).slot? id name = some slot) :
    ∃ v, slot = .assigned v false := by
  rw [Table.install] at found
  induction table generalizing h with
  | nil => exact constants name slot found
  | cons entry rest ih =>
    refine ih (inside.trans_eq (Heap.Keeps.bind h id entry.1 _).size.symm) ?_ found
    intro name' slot' found'
    by_cases same : name' = entry.1
    · subst same
      have bound := Heap.slot?_bind_self inside entry.1 (.assigned entry.2 false)
      cases bound.symm.trans found'
      exact ⟨_, rfl⟩
    · have kept := Heap.slot?_bind_of_name_ne same h id id (.assigned entry.2 false)
      exact constants name' slot' (kept.symm.trans found')

namespace Machine

theorem isDeclared_new (settings : Settings) (table : Table) {world : World}
    (recorded : births.length = world.heap.scopes.size) (declared : world.heap.IsDeclared births) :
    (Machine.new settings table world).world.heap.IsDeclared (births ++ [⟨.builtins, []⟩]) := by
  intro i birth born name slot found
  have empty (id : ScopeId) (name : String) : (world.heap.newScope "global" []).2.slot? id name =
      world.heap.slot? id name := Heap.KeepsSlots.newScope world.heap "global" [] id
  by_cases old : i < births.length
  · rw [List.getElem?_append_left old] at born
    have apart : (⟨world.heap.scopes.size⟩ : ScopeId) ≠ ⟨i⟩ :=
      Heap.KeepsScope.next_ne (recorded ▸ old)
    have same : (Machine.new settings table world).world.heap.slot? ⟨i⟩ name =
        (world.heap.newScope "global" []).2.slot? ⟨i⟩ name :=
      Heap.KeepsScope.install apart table _ name
    exact declared i birth born name slot ((same.trans (empty _ _)).symm.trans found)
  · rw [List.getElem?_append_right (not_lt.1 old)] at born
    obtain ⟨inside, same⟩ := List.getElem?_eq_some_iff.1 born
    obtain rfl : i = world.heap.scopes.size := by
      rw [List.length_singleton] at inside
      omega
    rw [List.getElem_singleton] at same
    subst same
    refine Table.constant_of_install table [] (by simp) ?_ found
    intro name' slot' found'
    cases (((empty _ _).trans (Heap.slot?_next _ _)).symm.trans found')

/-- What sessions leave behind has only what it can have. -/
theorem isDeclared_of_isLeft {allowed : Heap → Table → Prop} (left : h.IsLeft allowed births) :
    h.IsDeclared births := by
  induction left with
  | blank => exact nofun
  | @after before births settings table world m left _ reached ih =>
    have lexical := isLexical_of_isLeft left
    have started := isLexical_new settings table lexical
    rw [List.append_cons]
    exact started.isDeclared_of_reaches (isDeclared_new settings table lexical.length_eq ih)
      reached

/-! ## Entering a body -/

/-- The body that the next step enters. -/
def entering? (m : Machine) : Option (List Stmt) :=
  match m.control with
  | some (.program p) => some p.body
  | some (.statement (.block b)) => some b.body
  | _ => none

variable (entering : m.entering? = some body)

include entering

theorem control_of_entering :
    (∃ p, m.control = some (.program p) ∧ p.body = body) ∨
      ∃ b, m.control = some (.statement (.block b)) ∧ b.body = body := by
  rw [entering?] at entering
  split at entering
  · next p control => exact .inl ⟨p, control, Option.some.inj entering⟩
  · next b control => exact .inr ⟨b, control, Option.some.inj entering⟩
  · cases entering

/-- A step that enters a body makes a scope and hoists what the body declares.  It is at
    fault if this fails, and then nothing is left to run. -/
theorem Stepped.of_entering (stepped : m.Stepped progress m') :
    ∃ (site : Site) (outer env : Env) (inner : Heap) (result : Except Fault Unit),
      m.birth? = some ⟨site, outer⟩ ∧ site.body? = some body ∧
      m.world.heap.newScope site.label outer = (env, inner) ∧
      inner.hoist env body = (result, m'.world.heap) ∧
      ((result = .ok () ∧ ∀ clash, progress ≠ .failed (.fault clash)) ∨
        ∃ clash, result = .error clash ∧ progress = .failed (.fault clash) ∧ m'.control = none ∧
          m'.stack = .initial ∧ (m'.outer = m.outer ∨
            ∃ p, site = .program p ∧ outer = m.outer ∧ m'.outer = env)) := by
  rcases control_of_entering entering with ⟨p, control, rfl⟩ | ⟨b, control, rfl⟩
  · have born : m.birth? = some ⟨.program p, m.outer⟩ := birth?_of_control control
    cases stepped with
    | complete control' | idle control' => cases control.symm.trans control'
    | proceeded control' move | overflow control' move =>
      cases control.symm.trans control'
      cases move with
      | program scope hoisted => exact ⟨_, _, _, _, _, born, rfl, scope, hoisted, .inl ⟨rfl, nofun⟩⟩
      | starts start => cases start
    | fault control' fail =>
      cases control.symm.trans control'
      cases fail with
      | program scope clash =>
        exact ⟨_, _, _, _, _, born, rfl, scope, clash,
          .inr ⟨_, rfl, rfl, rfl, rfl, .inr ⟨p, rfl, rfl, rfl⟩⟩⟩
      | rejects reject => cases reject.birthOf_eq (m := m)
  · have born : m.birth? = some ⟨.block b, m.env⟩ := birth?_of_control control
    cases stepped with
    | complete control' | idle control' => cases control.symm.trans control'
    | proceeded control' move | overflow control' move =>
      cases control.symm.trans control'
      cases move with
      | block scope hoisted => exact ⟨_, _, _, _, _, born, rfl, scope, hoisted, .inl ⟨rfl, nofun⟩⟩
      | starts start => cases start
    | fault control' fail =>
      cases control.symm.trans control'
      cases fail with
      | block scope clash =>
        exact ⟨_, _, _, _, _, born, rfl, scope, clash,
          .inr ⟨_, rfl, rfl, rfl, rfl, .inl rfl⟩⟩
      | rejects reject => cases reject.birthOf_eq (m := m)

/-- Entering a body is at fault exactly when the body declares a name twice. -/
theorem redeclared_iff :
    (∃ name isMutable span, m.step.1 = .failed (.fault ⟨.redeclared name isMutable, span⟩)) ↔
      ¬(declaredNames body).Nodup := by
  obtain ⟨site, outer, env, inner, result, -, -, scope, hoisted, outcome⟩ :=
    m.stepped.of_entering entering
  rw [← Heap.hoist_enters_iff scope]
  rcases outcome with ⟨rfl, faultless⟩ | ⟨clash, rfl, failed, -⟩
  · constructor
    · rintro ⟨name, isMutable, span, failed⟩
      exact absurd failed (faultless _)
    · intro refused
      exact absurd ⟨_, hoisted⟩ refused
  · constructor
    · rintro - ⟨h', entered⟩
      cases hoisted.symm.trans entered
    · intro _
      obtain ⟨_, _, _, _, -, rfl⟩ := hoist_error hoisted
      exact ⟨_, _, _, failed⟩

/-- Right after a body was entered, its scope has only names that it declares, and they
    have no values. -/
theorem slot?_of_entering :
    ((m.step.2.world.heap.slot? ⟨m.world.heap.scopes.size⟩ name).isSome →
        name ∈ declaredNames body) ∧
      ((declaredNames body).Nodup → name ∈ declaredNames body →
        m.step.2.world.heap.slot? ⟨m.world.heap.scopes.size⟩ name = some .unassigned) := by
  obtain ⟨site, outer, env, inner, result, -, -, scope, hoisted, -⟩ :=
    m.stepped.of_entering entering
  constructor
  · intro bound
    obtain ⟨slot, found⟩ := Option.isSome_iff_exists.1 bound
    exact Heap.mem_declaredNames_of_enters scope hoisted found
  · intro distinct member
    obtain ⟨h', entered⟩ := (Heap.hoist_enters_iff scope).2 distinct
    rw [hoisted] at entered
    cases entered
    rw [Heap.slot?_of_enters scope hoisted, if_pos member]

/-- Right after a body was entered, no name of its scope has a value, also if the entry was at
    fault. -/
theorem unassigned_of_entering
    (found : m.step.2.world.heap.slot? ⟨m.world.heap.scopes.size⟩ name = some slot) :
    slot = .unassigned := by
  obtain ⟨site, outer, env, inner, result, -, -, scope, hoisted, -⟩ :=
    m.stepped.of_entering entering
  exact Heap.unassigned_of_enters scope hoisted found

end Machine

/-- The same site with nothing in it. -/
def Site.emptied : Site → Site
  | .program p => .program { p with body := [] }
  | .block b => .block { b with body := [] }
  | site => site

theorem Site.body?_emptied (of : site.body? = some body) : site.emptied.body? = some [] := by
  cases site with
  | program | block => rfl
  | builtins | call => cases of

theorem Site.label_emptied (site : Site) : site.emptied.label = site.label := by
  cases site <;> rfl

namespace Machine

/-- After a fault at the entry of a body nothing is placed in its scope, as if it had been
    made for an empty body. -/
theorem IsLexical.step_of_clash {clash : Fault} (lexical : m.IsLexical births)
    (entering : m.entering? = some body) (failed : m.step.1 = .failed (.fault clash)) :
    ∃ birth : Birth, birth.site.body? = some [] ∧ m.step.2.IsLexical (births ++ [birth]) := by
  obtain ⟨site, outer, env, inner, result, -, of, scope, hoisted, outcome⟩ :=
    m.stepped.of_entering entering
  rcases outcome with ⟨-, faultless⟩ | ⟨-, -, -, control, stack, outermost⟩
  · exact absurd failed (faultless clash)
  · rw [← site.label_emptied] at scope
    have entered := lexical.heap.enterBody ⟨site.emptied, outer⟩ scope hoisted
    have born := lexical.heap.born_last ⟨site.emptied, outer⟩
    refine ⟨⟨site.emptied, outer⟩, Site.body?_emptied of, entered, ?_, ?_, ?_⟩
    · rcases outermost with same | ⟨p, rfl, rfl, moved⟩
      · rw [same]
        exact lexical.outer.append _
      · obtain rfl : ⟨m.world.heap.scopes.size⟩ :: m.outer = env := congrArg Prod.fst scope
        rw [moved]
        exact .program born (lexical.outer.append _)
    · rw [stack]
      intro f member
      obtain rfl := List.mem_singleton.1 member
      trivial
    · rw [control]
      exact nofun

/-- What is declared in the scope of a body, from its entry on: names of the body, and none
    if the entry was at fault. -/
theorem IsLexical.of_initializes_since {m₀ s : Machine} {since : List Machine}
    (lexical : m₀.IsLexical births) (entering : m₀.entering? = some body)
    (passed : m₀.step.2.Passes since m) (member : s ∈ since)
    (initializes : s.Initializes ⟨m₀.world.heap.scopes.size⟩ name) :
    name ∈ scopeNames body ∧ (declaredNames body).Nodup := by
  obtain ⟨earlier, later, rfl⟩ := List.append_of_mem member
  have reached := passed.split.1.reaches
  obtain ⟨site, outer, -, -, -, born, of, -⟩ := m₀.stepped.of_entering entering
  have recorded (birth : Birth) :
      (births ++ [birth] ++ birthsOf earlier)[m₀.world.heap.scopes.size]? =
      some birth := born_append (lexical.heap.born_last birth) _
  constructor
  · have entered := m₀.stepped.isLexical lexical
    rw [born, Option.toList_some] at entered
    obtain ⟨birth, body', found, of', named⟩ :=
      (entered.reaches reached).mem_scopeNames_of_initializes initializes
    cases (recorded _).symm.trans found
    cases of.symm.trans of'
    exact named
  · by_contra twice
    obtain ⟨_, _, _, failed⟩ := (redeclared_iff entering).2 twice
    obtain ⟨birth, empty, entered⟩ := lexical.step_of_clash entering failed
    obtain ⟨birth', body', found, of', named⟩ :=
      (entered.reaches reached).mem_scopeNames_of_initializes initializes
    cases (recorded _).symm.trans found
    cases empty.symm.trans of'
    cases named

theorem lt_size_of_entering (entering : m.entering? = some body) :
    m.world.heap.scopes.size < m.step.2.world.heap.scopes.size := by
  obtain ⟨site, outer, -, -, -, born, -⟩ := m.stepped.of_entering entering
  have bears := m.stepped.bears
  rw [born] at bears
  rw [bears.size_eq]
  exact Nat.lt_succ_self _

/-- **The names of a scope.**  A body is entered from a machine of a session, on a heap
    that earlier sessions left behind, and its scope is looked at in any later state.

    At its entry, the scope has only names that statements of the body declare: all of
    them, without values, unless one is declared twice.  Later it has these names and
    those that were declared in it since.  Only statements of the body and branches of
    them are, and only if the entry was not at fault; the declaration of a name that was
    hoisted finds its slot there.  So if each name that a branch declares is also declared
    by a statement of the body, the scope has exactly the names that it had at its entry,
    in every state of the session. -/
theorem names_of_scope {settings : Settings} {table : Table} {world : World}
    {before : List Birth} {earlier since : List Machine} {m₀ : Machine}
    (left : world.heap.IsLeft (fun _ _ => True) before)
    (passed : (Machine.new settings table world).Passes (earlier ++ m₀ :: since) m)
    (entering : m₀.entering? = some body) :
    let id : ScopeId := ⟨m₀.world.heap.scopes.size⟩
    let hoisted (name : String) := (m₀.step.2.world.heap.slot? id name).isSome
    (∀ name, hoisted name → name ∈ declaredNames body) ∧
      ((declaredNames body).Nodup → ∀ name ∈ declaredNames body,
        m₀.step.2.world.heap.slot? id name = some .unassigned) ∧
      (∀ name, (m.world.heap.slot? id name).isSome ↔
        hoisted name ∨ ∃ s ∈ since, s.Initializes id name) ∧
      (∀ s ∈ since, ∀ name, s.Initializes id name →
        name ∈ scopeNames body ∧ (declaredNames body).Nodup ∧
          (name ∈ declaredNames body → (s.world.heap.slot? id name).isSome)) ∧
      (scopeNames body ⊆ declaredNames body →
        ∀ name, (m.world.heap.slot? id name).isSome ↔ hoisted name) := by
  intro id hoisted
  obtain ⟨before_entry, after_entry⟩ := passed.split
  have lexical := (isLexical_new settings table (isLexical_of_isLeft left)).reaches
    before_entry.reaches
  have inside := lt_size_of_entering entering
  have bound (name : String) : (m.world.heap.slot? id name).isSome ↔
      hoisted name ∨ ∃ s ∈ since, s.Initializes id name := after_entry.isSome_slot?_iff inside
  have there {name : String} (distinct : (declaredNames body).Nodup)
      (declared : name ∈ declaredNames body) : hoisted name := by
    show (m₀.step.2.world.heap.slot? id name).isSome = true
    rw [(slot?_of_entering entering).2 distinct declared]
    rfl
  refine ⟨fun name => (slot?_of_entering entering).1, fun distinct name =>
    (slot?_of_entering entering).2 distinct, bound, ?_, ?_⟩
  · intro s member name initializes
    obtain ⟨named, distinct⟩ :=
      lexical.of_initializes_since entering after_entry member initializes
    refine ⟨named, distinct, fun declared => ?_⟩
    obtain ⟨first, rest, rfl⟩ := List.append_of_mem member
    exact (after_entry.split.1.isSome_slot?_iff inside).2 (.inl (there distinct declared))
  · intro noBranch name
    refine (bound name).trans ⟨?_, .inl⟩
    rintro (hoisted | ⟨s, member, initializes⟩)
    · exact hoisted
    · obtain ⟨named, distinct⟩ :=
        lexical.of_initializes_since entering after_entry member initializes
      exact there distinct (noBranch named)

theorem names_of_scope_of_block :
    let start := Machine.new { maxDepth := 40, prelude := false } Table.standard {}
    ∃ p since m, Program.read "const f = true; if (f) \x7b let y = f; \x7d else \x7b \x7d" = .ok p ∧
      start.Passes (start.load p :: since) m ∧ (start.load p).entering? = some p.body ∧
      scopeNames p.body ⊆ declaredNames p.body ∧ m.running = false ∧
      ∀ name, (m.world.heap.slot? ⟨1⟩ name).isSome ↔ name = "f" := by
  intro start
  obtain ⟨p, read, every, declared, ended⟩ := Program.exists_read (by decide +kernel :
    ∃ p ∈ (Program.read "const f = true; if (f) \x7b let y = f; \x7d else \x7b \x7d").toOption,
      scopeNames p.body = ["f"] ∧ declaredNames p.body = ["f"] ∧
        ((start.load p).step.2.run 30).2.running = false)
  obtain ⟨since, passed⟩ := Passes.run_load start read 30
  have branchless : scopeNames p.body ⊆ declaredNames p.body := by simp [every, declared]
  have whole : start.Passes ([] ++ start.load p :: since) _ := passed
  obtain ⟨only, all, -, -, exactly⟩ := names_of_scope (.blank rfl rfl rfl rfl) whole rfl
  refine ⟨p, since, _, read, passed, rfl, branchless, ended, fun name => ?_⟩
  have next : (start.load p).world.heap.scopes.size = 1 :=
    (by decide +kernel : start.world.heap.scopes.size = 1)
  rw [next] at only all exactly
  rw [declared] at only all
  refine (exactly branchless name).trans ⟨fun bound => List.mem_singleton.1 (only name bound), ?_⟩
  rintro rfl
  exact Option.isSome_of_eq_some (all (by decide) "f" (by decide))

/-- A declaration that is a branch adds its name to the scope, which does not have it at
    its entry. -/
theorem name_added_by_branch :
    let start := Machine.new { maxDepth := 40, prelude := false } Table.standard {}
    ∃ p since m, Program.read "if (true) const x = 1;" = .ok p ∧
      start.Passes (start.load p :: since) m ∧ (start.load p).entering? = some p.body ∧
      (start.load p).step.2.world.heap.slot? ⟨1⟩ "x" = none ∧
      (m.world.heap.slot? ⟨1⟩ "x").isSome := by
  intro start
  obtain ⟨p, read, absent, present⟩ := Program.exists_read (by decide +kernel :
    ∃ p ∈ (Program.read "if (true) const x = 1;").toOption,
      ((start.load p).step.2.world.heap.slot? ⟨1⟩ "x").isNone ∧
        (((start.load p).step.2.run 6).2.world.heap.slot? ⟨1⟩ "x").isSome)
  obtain ⟨since, passed⟩ := Passes.run_load start read 6
  exact ⟨p, since, _, read, passed, rfl, Option.isNone_iff_eq_none.1 absent, present⟩

end Machine

end SourceMachine
