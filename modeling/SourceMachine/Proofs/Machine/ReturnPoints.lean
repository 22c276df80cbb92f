import SourceMachine.Proofs.Machine.Lexical
import SourceMachine.Proofs.Program.Names

/-!
# Return points

A call binds a hidden name in its scope to the stack of the caller, and returning is
resuming that stack.  No program can spell the hidden name, so nothing that a program
does reads or changes a return point (`usedNames`), and a return point is in its scope
for as long as the scope is there.

By `Lexical`, the scopes around a `return` mirror its place in the program.  The nearest
one with a return point is then that of the call of the innermost function around the
`return`, and outside of all functions there is none.  What the return point leads to is
told by the record of the scopes: the scopes and the stack at the moment of that call,
whatever became of the stack since.
-/

namespace SourceMachine

variable {m m' start : Machine} {births before : List Birth} {env : Env} {h h' : Heap}
  {rest : Stack} {span : Span} {c c' : Control} {v k : Value} {name : String} {birth : Birth}
  {f : Function} {fault : Fault} {id : ScopeId} {layers : List Layer} {p : Program}
  {progress : Progress} {isMutable : Bool}

/-! ## The hidden name is not spelled -/

theorem returnPoint_ne (spelled : IsSpelled name) : returnPoint ≠ name := by
  rintro rfl
  have star : isIdentifierRest '*' = true := spelled '*' (by decide)
  exact absurd star (by decide)

theorem Phrase.IsPlaced.isSpelled {a : Phrase} (placed : a.IsPlaced births env) : a.IsSpelled := by
  obtain ⟨p, layers, read, occurs, -⟩ := placed
  exact occurs.isSpelled fun s member => read.isSpelled member

theorem Phrase.IsSpelled.declared {s : Stmt} {id : Identifier} (spelled : s.IsSpelled)
    (declared : s.declared? = some (id, isMutable)) : SourceMachine.IsSpelled id.name := by
  obtain ⟨own, below⟩ := spelled
  cases s with
  | declaration kind id init span =>
    cases declared
    exact own id.name List.mem_cons_self
  | function f =>
    obtain ⟨own, -⟩ := below _ (.part (.declared f))
    obtain ⟨id', named, same⟩ := Option.map_eq_some_iff.1 declared
    cases same
    refine own id.name (List.mem_append_left _ ?_)
    rw [named]
    exact List.mem_cons_self
  | _ => cases declared

theorem returnPoint_notMem_declaredNames {body : List Stmt}
    (spelled : ∀ s ∈ body, s.IsSpelled) : returnPoint ∉ declaredNames body := by
  intro found
  obtain ⟨s, member, declares⟩ := List.mem_filterMap.1 found
  obtain ⟨⟨id, isMutable⟩, declared, name⟩ := Option.map_eq_some_iff.1 declares
  exact returnPoint_ne ((spelled s member).declared declared) name.symm

theorem returnPoint_notMem_paramNames (spelled : f.IsSpelled) :
    returnPoint ∉ paramNames f.params := by
  intro found
  obtain ⟨own, -⟩ := spelled
  exact returnPoint_ne (own returnPoint (List.mem_append_right _ found)) rfl

/-! ## What a step does to the heap -/

/-- A change of the heap that is about some names: names are bound or pairs are written,
    or one object is made. -/
inductive Heap.Changes (names : List String) (h : Heap) : Heap → Prop where
  | kept {h' : Heap} (kept : h.Keeps h') (slots : ∀ name ∉ names, h.KeepsSlots name h') :
      Changes names h h'
  | body {label : String} {outer env : Env} {inner h' : Heap} {body : List Stmt}
      {result : Except Fault Unit} (scope : h.newScope label outer = (env, inner))
      (hoisted : inner.hoist env body = (result, h')) (declared : declaredNames body = names) :
      Changes names h h'
  | closure (c : Closure) : Changes names h (h.newClosure c).2
  | captured (k : Captured) : Changes names h (h.newContinuation k).2
  | call (c : Closure) (args : List Value) (caller : Captured)
      (params : paramNames c.function.params = names) :
      Changes names h (h.enterCall c args caller).2

namespace Heap.Changes

variable {names : List String} {h h' : Heap}

theorem refl (names : List String) (h : Heap) : h.Changes names h :=
  .kept (.refl h) fun _ _ => .refl h

/-- The slots of the other names stay, the hidden one apart. -/
theorem keepsSlots (change : h.Changes names h') (unused : name ∉ names)
    (visible : name ≠ returnPoint) : h.KeepsSlots name h' := by
  cases change with
  | kept _ slots => exact slots name unused
  | @body label outer env inner _ _ _ scope hoisted declared =>
    have made : h.KeepsSlots name (h.newScope label outer).2 := .newScope h label outer
    rw [scope] at made
    rw [← declared] at unused
    exact made.trans (.of_hoist unused hoisted)
  | closure c | captured k => exact .of_scopes rfl
  | call c args caller params =>
    rw [← params] at unused
    have scope : h.KeepsSlots name _ := .newScope h c.function.displayName c.env
    have bound := KeepsSlots.bindParams unused (h.newScope c.function.displayName c.env).2
      (⟨h.scopes.size⟩ :: c.env) args
    rw [enterCall_snd]
    exact ((scope.trans bound).trans (.of_scopes rfl)).trans (.define visible _ _ _ _)

/-- Return points stay as they are. -/
theorem isExtended (change : h.Changes names h') (unused : returnPoint ∉ names) : h.Extends h' := by
  cases change with
  | kept kept slots => exact .of_keeps kept (slots _ unused)
  | body scope hoisted declared =>
    rw [← declared] at unused
    exact .enterBody scope hoisted unused
  | closure c => exact .newClosure h c
  | captured k => exact .newContinuation h k
  | call c args caller params =>
    rw [← params] at unused
    exact .enterCall unused h args caller

end Heap.Changes

namespace Machine

/-- The names that a transition reads, assigns or declares because a phrase of a program
    has them. -/
def namesOf (m : Machine) : Control → List String
  | .program p => declaredNames p.body
  | .statement (.block b) => declaredNames b.body
  | .statement s => declaredNames [s]
  | .expression (.identifier id) => [id.name]
  | .expression _ => []
  | .value _ =>
    match m.stack.pop? with
    | some (.declare id _ _, _) | some (.assign id _, _) => [id.name]
    | _ => m.calling?.elim [] fun call => paramNames call.1.function.params

/-- The names that the next step reads, assigns or declares because a phrase of a
    program has them. -/
def usedNames (m : Machine) : List String :=
  m.control.elim [] m.namesOf

theorem calling?_eq_some {c : Closure} (calling : m.calling? = some (c, env, rest)) : ∃ f args span,
      m.stack = rest.push (.apply f args span env) ∧
        m.world.heap.callee? f = some (.closure c) := by
  rw [calling?] at calling
  split at calling
  · next f args span env' rest' popped =>
    split at calling
    · next c' leads =>
      split at calling
      · cases calling
        exact ⟨f, args, span, Stack.pop?_eq_some popped, leads⟩
      · cases calling
    · cases calling
  · cases calling

theorem Moves.changes (move : m.Moves c c' m') :
    m.world.heap.Changes (m.namesOf c) m'.world.heap := by
  cases move with
  | program scope hoisted | block scope hoisted => exact .body scope hoisted rfl
  | functionDeclaration | function => exact .closure _
  | @declare v id isMutable env rest top =>
    have names : m.namesOf (.value v) = [id.name] := by rw [namesOf, top, Stack.pop?_push]
    refine .kept (.define _ _ _ _ _) fun name unused => .define ?_ _ _ _ _
    rw [names] at unused
    exact List.ne_of_not_mem_cons unused
  | @assign v id env rest h top assigned =>
    have names : m.namesOf (.value v) = [id.name] := by rw [namesOf, top, Stack.pop?_push]
    refine .kept (.of_set assigned) fun name unused => .of_set ?_ assigned
    rw [names] at unused
    exact List.ne_of_not_mem_cons unused
  | @closure v f args span env rest c top leads counted =>
    refine .call c args _ ?_
    rw [namesOf, calling?_of_closure top leads counted, top, Stack.pop?_push]
    rfl
  | callCc | shift => exact .captured _
  | native => exact .kept (.perform _ _) fun _ _ => .perform _ _
  | _ => exact .refl _ _

theorem Fails.changes (fail : m.Fails c fault m') :
    m.world.heap.Changes (m.namesOf c) m'.world.heap := by
  cases fail with
  | program scope clash | block scope clash => exact .body scope clash rfl
  | rejects | exhausted | refuses => exact .refl _ _

theorem Stepped.changes (stepped : m.Stepped progress m') :
    m.world.heap.Changes m.usedNames m'.world.heap := by
  cases stepped with
  | complete | idle => exact .refl _ _
  | proceeded control move | overflow control move =>
    rw [usedNames, control]
    exact move.changes
  | fault control fail =>
    rw [usedNames, control]
    exact fail.changes

/-! ## No step uses the hidden name -/

theorem IsLexicalAt.returnPoint_notMem (lexical : m.IsLexicalAt births c) :
    returnPoint ∉ m.namesOf c := by
  have placed := lexical.control
  cases c with
  | program p => exact returnPoint_notMem_declaredNames fun s member => placed.isSpelled member
  | statement s =>
    have spelled : s.IsSpelled := Phrase.IsPlaced.isSpelled placed
    have single : returnPoint ∉ declaredNames [s] := by
      refine returnPoint_notMem_declaredNames fun t member => ?_
      rw [List.mem_singleton.1 member]
      exact spelled
    cases s with
    | block b =>
      obtain ⟨-, below⟩ := spelled
      exact returnPoint_notMem_declaredNames fun s member => below _ (.inBlock member)
    | _ => exact single
  | expression e =>
    cases e with
    | identifier id =>
      obtain ⟨own, -⟩ := Phrase.IsPlaced.isSpelled placed
      intro found
      exact returnPoint_ne (own id.name List.mem_cons_self) (List.mem_singleton.1 found)
    | _ => exact List.not_mem_nil
  | value v =>
    have params : returnPoint ∉
        m.calling?.elim [] fun call => paramNames call.1.function.params := by
      cases calling : m.calling? with
      | none => exact List.not_mem_nil
      | some call =>
        obtain ⟨c, env, rest⟩ := call
        obtain ⟨f, args, span, -, leads⟩ := calling?_eq_some calling
        have member := Heap.mem_closures_of_callee? leads
        exact returnPoint_notMem_paramNames (lexical.heap.closures c member).isSpelled
    rw [namesOf]
    split
    · next id isMutable env rest popped =>
      obtain ⟨⟨s, declared, placed⟩, -⟩ := lexical.popped (Stack.pop?_eq_some popped)
      intro found
      refine returnPoint_ne (placed.isSpelled.declared declared) (List.mem_singleton.1 found)
    · next id env rest popped =>
      obtain ⟨⟨value, span, placed⟩, -⟩ := lexical.popped (Stack.pop?_eq_some popped)
      obtain ⟨own, -⟩ := placed.isSpelled
      intro found
      exact returnPoint_ne (own id.name List.mem_cons_self) (List.mem_singleton.1 found)
    · exact params

theorem IsLexical.returnPoint_notMem (lexical : m.IsLexical births) :
    returnPoint ∉ m.usedNames := by
  rw [usedNames]
  cases control : m.control with
  | none => exact List.not_mem_nil
  | some c =>
    exact IsLexicalAt.returnPoint_notMem
      ⟨lexical.heap, lexical.outer, lexical.stack, lexical.control c control⟩

end Machine

/-! ## Return points against the record -/

/-- The names that are bound in a scope when it is made. -/
def Site.names : Site → List String
  | .program p => declaredNames p.body
  | .block b => declaredNames b.body
  | .call f _ _ => paramNames f.params
  | .builtins => []

/-- What a scope has as its return point, by what it was made for: a call has the scopes
    and the stack of its caller, and all else has none. -/
def Birth.IsPointed (h : Heap) (i : Nat) (birth : Birth) : Prop :=
  match birth.site with
  | .call _ env stack =>
    ∃ k, h.slot? ⟨i⟩ returnPoint = some (.assigned (.continuation k) false) ∧
      h.continuation? k = some ⟨.undelimited, env, stack⟩
  | .builtins | .program _ | .block _ => h.slot? ⟨i⟩ returnPoint = none

/-- Every scope has the return point that goes with what it was made for. -/
def Heap.IsPointed (births : List Birth) (h : Heap) : Prop :=
  ∀ (i : Nat) (birth : Birth), births[i]? = some birth → birth.IsPointed h i

theorem Birth.IsPointed.mono {i : Nat} (pointed : birth.IsPointed h i) (grown : h.Extends h')
    (inside : i < h.scopes.size) : birth.IsPointed h' i := by
  have same := grown.points ⟨i⟩ inside
  obtain ⟨site, outer⟩ := birth
  cases site with
  | call f env stack =>
    obtain ⟨k, slot, captured⟩ := pointed
    exact ⟨k, same.trans slot, grown.continuations captured⟩
  | builtins | program | block => exact same.trans pointed

namespace Heap.IsPointed

variable {births : List Birth} {h : Heap}

variable (pointed : h.IsPointed births) (recorded : births.length = h.scopes.size)
  (grown : h.Extends h')

include pointed recorded grown

theorem mono : h'.IsPointed births := by
  intro i birth born
  obtain ⟨inside, -⟩ := List.getElem?_eq_some_iff.1 born
  exact (pointed i birth born).mono grown (recorded ▸ inside)

/-- A record with one scope more: the old ones are as they were, and the new one is
    looked at by itself. -/
theorem snoc (last : birth.IsPointed h' h.scopes.size) : h'.IsPointed (births ++ [birth]) := by
  intro i birth' born
  by_cases old : i < births.length
  · rw [List.getElem?_append_left old] at born
    exact pointed.mono recorded grown i birth' born
  · rw [List.getElem?_append_right (not_lt.1 old)] at born
    obtain ⟨inside, same⟩ := List.getElem?_eq_some_iff.1 born
    obtain rfl : i = h.scopes.size := by
      rw [List.length_singleton] at inside
      omega
    rw [List.getElem_singleton] at same
    exact same ▸ last

end Heap.IsPointed

/-- A scope that was just made has its return point: a call that of the stack of the caller, and a
    body none. -/
theorem Heap.Begets.isPointed (begets : h.Begets birth h')
    (unnamed : returnPoint ∉ birth.site.names) : birth.IsPointed h' h.scopes.size := by
  cases begets with
  | @body site label outer _ _ _ _ _ of scope hoisted =>
    cases scope
    cases site with
    | program | block =>
      cases of
      have kept := (KeepsSlots.newScope h label outer).trans (.of_hoist unnamed hoisted)
      exact (kept _).trans (slot?_of_size_le le_rfl _)
    | builtins | call => cases of
  | call c args env rest =>
    exact ⟨_, slot?_enterCall_self h c args _, continuation?_enterCall h c args _⟩

namespace Machine

/-- The names that are bound in a scope when it is made are those that the step uses. -/
theorem usedNames_of_birth? (born : m.birth? = some birth) : m.usedNames = birth.site.names := by
  obtain ⟨c, control, born⟩ := Option.bind_eq_some_iff.1 born
  rw [usedNames, control]
  cases c with
  | program p =>
    cases born
    rfl
  | statement s =>
    cases s with
    | block b =>
      cases born
      rfl
    | _ => cases born
  | expression e => cases born
  | value v =>
    obtain ⟨⟨c, env, rest⟩, calling, rfl⟩ := Option.map_eq_some_iff.1 born
    obtain ⟨f, args, span, top, -⟩ := calling?_eq_some calling
    show m.namesOf (.value v) = _
    rw [namesOf, top, Stack.pop?_push, calling]
    rfl

/-- A step keeps return points in their places. -/
theorem Stepped.isPointed (stepped : m.Stepped progress m') (lexical : m.IsLexical births)
    (pointed : m.world.heap.IsPointed births) :
    m'.world.heap.IsPointed (births ++ m.birth?.toList) := by
  have recorded := lexical.heap.length_eq
  have unnamed := lexical.returnPoint_notMem
  have grown := stepped.changes.isExtended unnamed
  have bears := stepped.bears
  cases born : m.birth? with
  | none =>
    rw [Option.toList_none, List.append_nil]
    exact pointed.mono recorded grown
  | some birth =>
    rw [born] at bears
    rw [usedNames_of_birth? born] at unnamed
    exact pointed.snoc recorded grown (bears.begets.isPointed unnamed)

/-! ## Sessions -/

/-- A session keeps return points in their places. -/
theorem IsLexical.isPointed_of_reaches (lexical : start.IsLexical before)
    (pointed : start.world.heap.IsPointed before) (reached : start.Reaches births m) :
    m.world.heap.IsPointed (before ++ births) := by
  induction reached with
  | refl =>
    rw [List.append_nil]
    exact pointed
  | step reached ih =>
    rw [← List.append_assoc]
    exact (stepped _).isPointed (lexical.reaches reached) ih
  | load _ _ ih | triedPreludes _ ih => exact ih

/-- A session changes no return point that was there when it started. -/
theorem IsLexical.isExtended_of_reaches (lexical : start.IsLexical before)
    (reached : start.Reaches births m) : start.world.heap.Extends m.world.heap := by
  induction reached with
  | refl => exact .refl _
  | step reached ih =>
    have unused := (lexical.reaches reached).returnPoint_notMem
    exact ih.trans ((stepped _).changes.isExtended unused)
  | load _ _ ih | triedPreludes _ ih => exact ih

theorem isPointed_new (settings : Settings) {table : Table} {world : World}
    (lexical : world.heap.IsLexical births) (pointed : world.heap.IsPointed births)
    (unnamed : returnPoint ∉ table.names) :
    (Machine.new settings table world).world.heap.IsPointed (births ++ [⟨.builtins, []⟩]) := by
  have scope : world.heap.KeepsSlots returnPoint _ := .newScope world.heap "global" []
  have table := Heap.KeepsSlots.install unnamed [⟨world.heap.scopes.size⟩]
    (world.heap.newScope "global" []).2
  refine pointed.snoc lexical.length_eq ((Heap.Extends.newScope _ _ _).trans
    (.of_keeps (Heap.Keeps.install _ _ _) table)) ?_
  exact ((scope.trans table) _).trans (Heap.slot?_of_size_le le_rfl _)

/-- What sessions leave behind has its return points. -/
theorem isPointed_of_isLeft (left : h.IsLeft (fun _ table => returnPoint ∉ table.names) births) :
    h.IsPointed births := by
  induction left with
  | blank => exact nofun
  | @after before births settings table world m left unnamed reached ih =>
    have lexical := isLexical_of_isLeft left
    have started := isLexical_new settings table lexical
    rw [List.append_cons]
    exact started.isPointed_of_reaches (isPointed_new settings lexical ih unnamed) reached

/-! ## Stacks that fit -/

/-- Unless a program is about to start, the stack is not too deep. -/
def Fits (m : Machine) : Prop :=
  ∀ c, m.control = some c → (∀ p, c ≠ .program p) → m.stack.depth ≤ m.maxDepth

theorem Stepped.fits (stepped : m.Stepped progress m') (fits : m.Fits) : m'.Fits := by
  cases stepped with
  | complete | idle => exact fits
  | proceeded _ _ small => exact fun _ _ _ => small
  | overflow | fault => exact nofun

theorem Fits.reaches (fits : start.Fits) (reached : start.Reaches births m) : m.Fits := by
  induction reached with
  | refl => exact fits
  | step _ ih => exact (stepped _).fits ih
  | load =>
    intro c control notProgram
    exact absurd (Option.some.inj control).symm (notProgram _)
  | triedPreludes _ ih => exact ih

/-- The stack at the moment of a call is not too deep. -/
theorem Fits.caller_depth_le (fits : start.Fits) (reached : start.Reaches births m)
    (born : birth ∈ births) {stack : Stack} (call : birth.site = .call f env stack) :
    stack.depth ≤ start.maxDepth := by
  induction reached with
  | refl => cases born
  | @step births m reached ih =>
    rcases List.mem_append.1 born with old | new
    · exact ih old
    · have found : m.birth? = some birth := Option.mem_toList.1 new
      obtain ⟨c, control, made⟩ := Option.bind_eq_some_iff.1 found
      cases c with
      | value v =>
        obtain ⟨⟨c, env', rest⟩, calling, rfl⟩ := Option.map_eq_some_iff.1 made
        cases call
        obtain ⟨_, _, _, top, -⟩ := calling?_eq_some calling
        have small := fits.reaches reached _ control nofun
        rw [reached.maxDepth, top, Stack.depth_push] at small
        exact Nat.le_of_succ_le small
      | program p =>
        cases made
        cases call
      | expression e => cases made
      | statement s =>
        cases s with
        | block b =>
          cases made
          cases call
        | _ => cases made
  | load _ _ ih | triedPreludes _ ih => exact ih born

end Machine

/-! ## Which return point is found -/

/-- A call that was made: its scope, what was called, and the scopes and the stack of the
    caller. -/
structure Activation where
  scope : ScopeId
  function : Function
  env : Env
  stack : Stack

/-- The call whose scope stands for the innermost function around a position. -/
inductive Innermost (births : List Birth) : List Layer → Env → Activation → Prop where
  | function {i : Nat} {f : Function} {callerEnv : Env} {callerStack : Stack} {env : Env}
      (born : births[i]? = some ⟨.call f callerEnv callerStack, env⟩) (layers : List Layer) :
      Innermost births (.function f :: layers) (⟨i⟩ :: env) ⟨⟨i⟩, f, callerEnv, callerStack⟩
  | block {layers : List Layer} {env : Env} {a : Activation} (b : Block) (id : ScopeId)
      (outside : Innermost births layers env a) :
      Innermost births (.block b :: layers) (id :: env) a

theorem Innermost.born {a : Activation} (innermost : Innermost births layers env a) :
    ∃ outer, births[a.scope.index]? = some ⟨.call a.function a.env a.stack, outer⟩ := by
  induction innermost with
  | function born => exact ⟨_, born⟩
  | block _ _ _ ih => exact ih

theorem Heap.lookup?_cons_of_none (none : h.slot? id name = none) (env : Env) :
    h.lookup? name (id :: env) = h.lookup? name env := by
  rw [lookup?, none]

theorem Heap.lookup?_cons_of_assigned (slot : h.slot? id name = some (.assigned v isMutable))
    (env : Env) : h.lookup? name (id :: env) = some v := by
  rw [lookup?, slot]

/-- Around a program there are no return points. -/
theorem Outermost.lookup?_eq (outermost : Outermost births env) (pointed : h.IsPointed births) :
    h.lookup? returnPoint env = none := by
  induction outermost with
  | builtins born =>
    have none : h.slot? _ returnPoint = none := pointed _ _ born
    rw [Heap.lookup?_cons_of_none none]
    rfl
  | program born _ ih =>
    have none : h.slot? _ returnPoint = none := pointed _ _ born
    rw [Heap.lookup?_cons_of_none none]
    exact ih

/-- Outside of all functions no return point is found. -/
theorem Surrounds.lookup?_eq_none (surrounds : Surrounds births p layers env)
    (pointed : h.IsPointed births) (outside : Layer.functions layers = []) :
    h.lookup? returnPoint env = none := by
  induction surrounds with
  | program born programs =>
    have none : h.slot? _ returnPoint = none := pointed _ _ born
    rw [Heap.lookup?_cons_of_none none]
    exact programs.lookup?_eq pointed
  | block born _ ih =>
    have none : h.slot? _ returnPoint = none := pointed _ _ born
    rw [Heap.lookup?_cons_of_none none]
    exact ih outside
  | call => cases outside

/-- Inside of a function the return point that is found is that of the call whose scope
    stands for the innermost one. -/
theorem Surrounds.lookup?_eq_some (surrounds : Surrounds births p layers env)
    (pointed : h.IsPointed births) {outer : List Function}
    (inside : Layer.functions layers = f :: outer) :
    ∃ a k, Innermost births layers env a ∧ a.function = f ∧
      h.lookup? returnPoint env = some (.continuation k) ∧
      h.slot? a.scope returnPoint = some (.assigned (.continuation k) false) ∧
      h.continuation? k = some ⟨.undelimited, a.env, a.stack⟩ := by
  induction surrounds with
  | program => cases inside
  | @block i b layers env born _ ih =>
    obtain ⟨a, k, innermost, rfl, found, rest⟩ := ih inside
    have none : h.slot? _ returnPoint = none := pointed _ _ born
    refine ⟨a, k, .block b ⟨i⟩ innermost, rfl, ?_, rest⟩
    rw [Heap.lookup?_cons_of_none none]
    exact found
  | @call i g callerEnv callerStack layers env born _ _ =>
    obtain ⟨rfl, -⟩ : g = f ∧ _ = outer := List.cons.inj inside
    obtain ⟨k, slot, captured⟩ := pointed _ _ born
    refine ⟨⟨⟨i⟩, g, callerEnv, callerStack⟩, k, .function born layers, rfl, ?_, slot, captured⟩
    exact Heap.lookup?_cons_of_assigned slot env

namespace Machine

/-! ## Returning -/

/-- Two steps bring a value back to where a call was made. -/
def BringsBack (m : Machine) (v : Value) (a : Activation) : Prop :=
  m.step.1 = .proceeded ∧ m.step.2.step.1 = .proceeded ∧
    m.step.2.step.2.control = some (.value v) ∧ m.step.2.step.2.stack = a.stack ∧
    m.step.2.step.2.env = a.env

theorem final?_of_frame {frame : Frame} (control : m.control = some (.value v))
    (top : m.stack = rest.push frame) (notHalt : frame ≠ .halt) : m.final? = none := by
  rw [final?, control, top]
  cases frame with
  | halt => exact absurd rfl notHalt
  | _ => rfl

/-- A value that arrives where a `return` waits for it is given to the return point. -/
theorem step_of_returned (control : m.control = some (.value v))
    (top : m.stack = rest.push (.argument [] 0 [] k span env)) (fits : m.stack.depth ≤ m.maxDepth) :
    m.step = (.proceeded, { m.ticked with
      control := some (.value k), env, stack := rest.push (.apply k [v] span env) }) := by
  rw [step_of_transition control (final?_of_frame control top nofun),
    transition_of_top (m := m.ticked) top]
  rw [top] at fits
  exact if_neg (not_lt.2 fits)

/-- The return point brings the value back. -/
theorem step_of_return {w : Value} {id : ContinuationId} {callerEnv : Env} {callerStack : Stack}
    (control : m.control = some (.value w))
    (top : m.stack = rest.push (.apply (.continuation id) [v] span env))
    (captured : m.world.heap.continuation? id = some ⟨.undelimited, callerEnv, callerStack⟩)
    (fits : callerStack.depth ≤ m.maxDepth) : m.step = (.proceeded, { m.ticked with
      control := some (.value v), env := callerEnv, stack := callerStack }) := by
  rw [step_of_transition control (final?_of_frame control top nofun),
    transition_of_captured (m := m.ticked) top captured]
  exact if_neg (not_lt.2 fits)

theorem bringsBack {id : ContinuationId} {a : Activation} (control : m.control = some (.value v))
    (top : m.stack = rest.push (.argument [] 0 [] (.continuation id) span env)) (fits : m.Fits)
    (captured : m.world.heap.continuation? id = some ⟨.undelimited, a.env, a.stack⟩)
    (small : a.stack.depth ≤ m.maxDepth) : m.BringsBack v a := by
  have first := step_of_returned control top (fits _ control nofun)
  have second := step_of_return (m := m.step.2) (by rw [first]) (by rw [first])
    (by rw [first]; exact captured) (by rw [first]; exact small)
  refine ⟨by rw [first], by rw [second], by rw [second], by rw [second], by rw [second]⟩

section

variable {argument : Option Expr} (control : m.control = some (.statement (.returns argument span)))

include control

/-- A `return` without a return point is at fault. -/
theorem step_of_lookup?_eq_none (outside : m.world.heap.lookup? returnPoint m.env = none) :
    m.step.1 = .failed (.fault ⟨.returnOutsideFunction, span⟩) := by
  have notFinal : m.final? = none := by rw [final?, control]
  have moved : m.ticked.transition (.statement (.returns argument span)) =
      (.error ⟨.returnOutsideFunction, span⟩, m.ticked) := by
    rw [transition, execute, show m.ticked.world.heap.lookup? returnPoint m.ticked.env = _ from
      outside]
  rw [step_of_transition control notFinal, moved]

/-- A `return` with a return point waits for its value. -/
theorem step_of_lookup?_eq_some (point : m.world.heap.lookup? returnPoint m.env = some k) :
    m.step = (m.ticked.push (.argument [] 0 [] k span m.env)).settle
      (argument.elim (.value .undefined) .expression) := by
  have notFinal : m.final? = none := by rw [final?, control]
  have moved : m.ticked.transition (.statement (.returns argument span)) =
      (.ok (argument.elim (.value .undefined) .expression),
        m.ticked.push (.argument [] 0 [] k span m.env)) := by
    rw [transition, execute, show m.ticked.world.heap.lookup? returnPoint m.ticked.env = _ from
      point]
    rfl
  rw [step_of_transition control notFinal, moved]

end

/-- No step of a session reads, assigns or declares the hidden name for a program: it is
    not among the names of the step, and the slots of all other names stay as they are.
    Every call scope has the stack of its caller as its return point, no other scope has
    one, and no later step changes that.

    A `return` is at fault exactly when it is outside of all functions of its program.
    Otherwise it finds the return point of the call whose scope stands for the innermost
    function around it, and puts a frame on the stack that waits for its value.  Whenever
    a value arrives there, in whatever state of the session, two steps bring it back to
    the scopes and the stack that there were at that call; the stack has to be one that
    the settings allow, as it is for every call of the session itself. -/
theorem return_discipline {settings : Settings} {table : Table} {world : World}
    (left : world.heap.IsLeft (fun _ table => returnPoint ∉ table.names) before)
    (unnamed : returnPoint ∉ table.names)
    (reached : (Machine.new settings table world).Reaches births m) :
    let record := before ++ ⟨.builtins, []⟩ :: births
    (returnPoint ∉ m.usedNames ∧ ∀ name ∉ m.usedNames, name ≠ returnPoint →
        m.world.heap.KeepsSlots name m.step.2.world.heap) ∧
      (m.world.heap.IsPointed record ∧ ∀ later m', m.Reaches later m' →
        ∀ id, id.index < m.world.heap.scopes.size →
          m'.world.heap.slot? id returnPoint = m.world.heap.slot? id returnPoint) ∧
      ∀ argument span, m.control = some (.statement (.returns argument span)) →
        ∃ p layers, p.IsRead ∧ Occurs p layers (.statement (.returns argument span)) ∧
          Surrounds record p layers m.env ∧
          (m.step.1 = .failed (.fault ⟨.returnOutsideFunction, span⟩) ↔
            Layer.functions layers = []) ∧
          ∀ f outer, Layer.functions layers = f :: outer →
            ∃ a k, Innermost record layers m.env a ∧ a.function = f ∧
              m.world.heap.slot? a.scope returnPoint = some (.assigned (.continuation k) false) ∧
              (m.step.1 = .proceeded →
                m.step.2.control = some (argument.elim (.value .undefined) .expression) ∧
                m.step.2.stack = m.stack.push (.argument [] 0 [] (.continuation k) span m.env)) ∧
              ((before.length ≤ a.scope.index ∨ a.stack.depth ≤ settings.maxDepth) →
                ∀ later m' v (rest : Stack), m.Reaches later m' → m'.control = some (.value v) →
                  m'.stack = rest.push (.argument [] 0 [] (.continuation k) span m.env) →
                  m'.BringsBack v a) := by
  intro record
  have before_lexical := isLexical_of_isLeft left
  have started := isLexical_new settings table before_lexical
  have lexical := started.reaches reached
  have pointed := started.isPointed_of_reaches
    (isPointed_new settings before_lexical (isPointed_of_isLeft left) unnamed) reached
  have fits : (Machine.new settings table world).Fits := nofun
  have limit : m.maxDepth = settings.maxDepth := reached.maxDepth
  rw [← List.append_cons] at lexical pointed
  refine ⟨⟨lexical.returnPoint_notMem, fun name unused visible =>
    m.stepped.changes.keepsSlots unused visible⟩, ⟨pointed, fun later m' onwards =>
    (lexical.isExtended_of_reaches onwards).points⟩, ?_⟩
  intro argument span control
  obtain ⟨p, layers, read, occurs, surrounds⟩ := lexical.control _ control
  refine ⟨p, layers, read, occurs, surrounds, ⟨fun fails => ?_, fun outside => ?_⟩, ?_⟩
  · -- with a function around it, the step only puts a frame on the stack
    cases functions : Layer.functions layers with
    | nil => rfl
    | cons f outer =>
      obtain ⟨a, k, -, -, found, -⟩ := surrounds.lookup?_eq_some pointed functions
      rw [step_of_lookup?_eq_some control found, settle] at fails
      split at fails <;> cases fails
  · exact step_of_lookup?_eq_none control (surrounds.lookup?_eq_none pointed outside)
  · intro f outer inside
    obtain ⟨a, k, innermost, called, found, slot, captured⟩ :=
      surrounds.lookup?_eq_some pointed inside
    refine ⟨a, k, innermost, called, slot, fun proceeded => ?_, fun small later m' v rest onwards
      arrived top => ?_⟩
    · rw [step_of_lookup?_eq_some control found, settle] at proceeded ⊢
      split at proceeded
      · cases proceeded
      · next notDeep =>
        rw [if_neg notDeep]
        exact ⟨rfl, rfl⟩
    · have fitting := (fits.reaches reached).reaches onwards
      have kept := (lexical.isExtended_of_reaches onwards).continuations captured
      refine bringsBack arrived top fitting kept ?_
      rw [onwards.maxDepth, limit]
      rcases small with recent | small
      · -- a call of this session was made from a stack that the settings allow
        obtain ⟨outer', born⟩ := innermost.born
        rw [List.getElem?_append_right recent] at born
        cases place : a.scope.index - before.length with
        | zero =>
          rw [place] at born
          cases born
        | succ j =>
          rw [place, List.getElem?_cons_succ] at born
          exact fits.caller_depth_le reached (List.mem_of_getElem? born) rfl
      · exact small

/-- Whether a `return` without a value is run next. -/
def isBareReturn (m : Machine) : Bool :=
  match m.control with
  | some (.statement (.returns none _)) => true
  | _ => false

theorem exists_bareReturn (bare : m.isBareReturn = true) :
    ∃ span, m.control = some (.statement (.returns none span)) := by
  unfold isBareReturn at bare
  split at bare
  · exact ⟨_, by assumption⟩
  · cases bare

/-- The same at the `return` of a program that returns out of a block inside of a call: there
    is a function around it, and two more steps bring the value back to the caller. -/
theorem return_discipline_of_block :
    let start := Machine.new { maxDepth := 40, prelude := false } Table.standard {}
    let m := start.perform
      (.eval "const f = x => \x7b if (x) \x7b return; \x7d \x7d; f(true);" (some 17))
    returnPoint ∉ Table.standard.names ∧ ∃ births span p layers a k, start.Reaches births m ∧
      returnPoint ∉ m.usedNames ∧ m.world.heap.IsPointed (⟨.builtins, []⟩ :: births) ∧
      m.control = some (.statement (.returns none span)) ∧
      Surrounds (⟨.builtins, []⟩ :: births) p layers m.env ∧ Layer.functions layers ≠ [] ∧
      Innermost (⟨.builtins, []⟩ :: births) layers m.env a ∧
      m.step.2.stack = m.stack.push (.argument [] 0 [] (.continuation k) span m.env) ∧
      m.step.2.BringsBack .undefined a := by
  intro start m
  have unnamed : returnPoint ∉ Table.standard.names := by decide
  obtain ⟨births, reached⟩ : start.Visits m := Visits.perform ⟨[], .refl⟩ ⟨nofun, nofun⟩
  obtain ⟨⟨unused, -⟩, ⟨pointed, -⟩, returns⟩ :=
    return_discipline (.blank rfl rfl rfl rfl) unnamed reached
  obtain ⟨bare, goesOn⟩ : m.isBareReturn = true ∧ m.step.1.outcome? = none := by decide +kernel
  obtain ⟨span, control⟩ := exists_bareReturn bare
  have proceeded : m.step.1 = .proceeded := by
    cases progress : m.step.1 with
    | proceeded => rfl
    | complete | idle | failed =>
      rw [progress] at goesOn
      cases goesOn
  obtain ⟨p, layers, -, -, surrounds, fails, back⟩ := returns none span control
  obtain ⟨f, outer, inside⟩ := List.exists_cons_of_ne_nil fun outside => by
    cases proceeded.symm.trans (fails.2 outside)
  obtain ⟨a, k, innermost, -, -, waits, brings⟩ := back f outer inside
  obtain ⟨arrived, top⟩ := waits proceeded
  exact ⟨unnamed, births, span, p, layers, a, k, reached, unused, pointed, control, surrounds,
    by simp [inside], innermost, top,
    brings (.inl (Nat.zero_le _)) _ _ _ m.stack (Reaches.refl.step) arrived top⟩

end Machine

end SourceMachine
