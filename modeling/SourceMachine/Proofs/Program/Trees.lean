import SourceMachine.Proofs.Program.Libraries
import SourceMachine.Proofs.Program.Outline

/-!
# Trees that are alike

Two trees are alike when they differ only in the stretches of text.  `alike` decides this for
the trees that the programs and functions here are made of, so that the kernel can tell what
tree a text has; a tree with any other construct is not found to be like anything.

The builders in `Sketch` write trees down without places.
-/

namespace SourceMachine

/-! ## Deciding whether trees are alike -/

/-- Whether two names are the same, wherever they stand. -/
def Identifier.alike (x y : Identifier) : Bool :=
  x.name = y.name

/-- Whether two parameters are the same, wherever they stand. -/
def Param.alike (p q : Param) : Bool :=
  p.id.alike q.id && p.isRest = q.isRest

/-- Whether two functions may have names, and they are the same. -/
def Identifier.alike? : Option Identifier → Option Identifier → Bool
  | none, none => true
  | some x, some y => x.alike y
  | _, _ => false

/-- Whether parameters are the same, one by one. -/
def Param.alikeAll : List Param → List Param → Bool
  | [], [] => true
  | p :: ps, q :: qs => p.alike q && Param.alikeAll ps qs
  | _, _ => false

mutual

/-- Whether two expressions differ only in their places. -/
def Expr.alike : Expr → Expr → Bool
  | .literal v _, .literal v' _ => v = v'
  | .identifier x, .identifier y => x.alike y
  | .unary op e _, .unary op' e' _ => op = op' && e.alike e'
  | .binary op l r _, .binary op' l' r' _ => op = op' && l.alike l' && r.alike r'
  | .logical op l r _, .logical op' l' r' _ => op = op' && l.alike l' && r.alike r'
  | .conditional t c a _, .conditional t' c' a' _ => t.alike t' && c.alike c' && a.alike a'
  | .call f args _, .call f' args' _ => f.alike f' && Expr.alikeAll args args'
  | .assignment op (.identifier x) e _, .assignment op' (.identifier y) e' _ =>
    op = op' && x.alike y && e.alike e'
  | .function f, .function g => f.alike g
  | _, _ => false
termination_by structural tree => tree

/-- Whether expressions differ only in their places, one by one. -/
def Expr.alikeAll : List Expr → List Expr → Bool
  | [], [] => true
  | e :: es, e' :: es' => e.alike e' && Expr.alikeAll es es'
  | _, _ => false
termination_by structural tree => tree

/-- Whether two statements differ only in their places. -/
def Stmt.alike : Stmt → Stmt → Bool
  | .declaration kind x e _, .declaration kind' y e' _ => kind = kind' && x.alike y && e.alike e'
  | .function f, .function g => f.alike g
  | .block b, .block b' => b.alike b'
  | .conditional t c (some a) _, .conditional t' c' (some a') _ =>
    t.alike t' && c.alike c' && a.alike a'
  | .conditional t c none _, .conditional t' c' none _ => t.alike t' && c.alike c'
  | .returns (some e) _, .returns (some e') _ => e.alike e'
  | .expression e _, .expression e' _ => e.alike e'
  | _, _ => false
termination_by structural tree => tree

/-- Whether statements differ only in their places, one by one. -/
def Stmt.alikeAll : List Stmt → List Stmt → Bool
  | [], [] => true
  | s :: ss, s' :: ss' => s.alike s' && Stmt.alikeAll ss ss'
  | _, _ => false
termination_by structural tree => tree

/-- Whether two functions differ only in their places. -/
def Function.alike : Function → Function → Bool
  | ⟨id, params, body, isArrow, _⟩, ⟨id', params', body', isArrow', _⟩ =>
    Identifier.alike? id id' && Param.alikeAll params params' && isArrow = isArrow' &&
      body.alike body'
termination_by structural tree => tree

/-- Whether two blocks differ only in their places. -/
def Block.alike : Block → Block → Bool
  | ⟨body, _⟩, ⟨body', _⟩ => Stmt.alikeAll body body'
termination_by structural tree => tree

end

theorem Identifier.alike_iff {x y : Identifier} : x.alike y = true ↔ x.unspanned = y.unspanned := by
  simp [Identifier.alike, Identifier.unspanned]

theorem Identifier.alike?_iff {x y : Option Identifier} : Identifier.alike? x y = true ↔
    x.map Identifier.unspanned = y.map Identifier.unspanned := by
  cases x <;> cases y <;> simp [Identifier.alike?, Identifier.alike_iff]

theorem Param.alikeAll_iff {ps qs : List Param} :
    Param.alikeAll ps qs = true ↔ ps.map Param.unspanned = qs.map Param.unspanned := by
  induction ps generalizing qs with
  | nil => cases qs <;> simp [Param.alikeAll]
  | cons p ps ih =>
    cases qs with
    | nil => simp [Param.alikeAll]
    | cons q qs => simp [Param.alikeAll, Param.alike, Identifier.alike_iff, Param.unspanned, ih]

/-- Trees that are alike are the same without their places.  The induction is that of `alike`;
    where it gives up there is nothing to show. -/
theorem unspanned_of_alike : (∀ e e' : Expr, e.alike e' = true → e.unspanned = e'.unspanned) ∧
      (∀ f g : Function, f.alike g = true → f.unspanned = g.unspanned) ∧
      (∀ b b' : Block, b.alike b' = true → b.unspanned = b'.unspanned) ∧
      (∀ ss ss' : List Stmt, Stmt.alikeAll ss ss' = true →
        Stmt.unspannedAll ss = Stmt.unspannedAll ss') ∧
      (∀ s s' : Stmt, s.alike s' = true → s.unspanned = s'.unspanned) ∧
      ∀ es es' : List Expr, Expr.alikeAll es es' = true →
        Expr.unspannedAll es = Expr.unspannedAll es' := by
  apply Expr.alike.mutual_induct
  all_goals
    intros
    simp_all [Expr.alike, Expr.alikeAll, Stmt.alike, Stmt.alikeAll, Function.alike, Block.alike,
      Expr.unspanned, Expr.unspannedAll, Expr.unspanned?, Stmt.unspanned, Stmt.unspannedAll,
      Stmt.unspanned?, Function.unspanned, Block.unspanned, Target.unspanned,
      Identifier.alike_iff, Identifier.alike?_iff, Param.alikeAll_iff]

theorem Stmt.unspanned_of_alike {s s' : Stmt} : s.alike s' = true → s.unspanned = s'.unspanned :=
  SourceMachine.unspanned_of_alike.2.2.2.2.1 s s'

theorem Stmt.unspanned_of_alikeAll {ss ss' : List Stmt} :
    Stmt.alikeAll ss ss' = true → Stmt.unspannedAll ss = Stmt.unspannedAll ss' :=
  SourceMachine.unspanned_of_alike.2.2.2.1 ss ss'

/-! ## Writing trees down -/

namespace Sketch

/-- A name as an expression. -/
abbrev name (x : String) : Expr :=
  .identifier ⟨x, {}⟩

/-- The value `null`. -/
abbrev null : Expr :=
  .literal .null {}

/-- A truth value. -/
abbrev boolean (b : Bool) : Expr :=
  .literal (.boolean b) {}

/-- A string. -/
abbrev string (text : String) : Expr :=
  .literal (.string text) {}

/-- A call of a function by its name. -/
abbrev call (f : String) (args : List Expr) : Expr :=
  .call (name f) args {}

/-- A choice between two expressions. -/
abbrev choice (test consequent alternate : Expr) : Expr :=
  .conditional test consequent alternate {}

/-- The opposite of a truth value. -/
abbrev not (e : Expr) : Expr :=
  .unary .not e {}

/-- Both of two conditions. -/
abbrev both (left right : Expr) : Expr :=
  .logical .and left right {}

/-- Whether two values are the same. -/
abbrev equal (left right : Expr) : Expr :=
  .binary .strictEq left right {}

/-- The sum of two values. -/
abbrev sum (left right : Expr) : Expr :=
  .binary .add left right {}

/-- A parameter. -/
abbrev param (x : String) : Param :=
  ⟨⟨x, {}⟩, false⟩

/-- Statements between braces. -/
abbrev block (body : List Stmt) : Block :=
  ⟨body, {}⟩

/-- A function with a name. -/
abbrev function (f : String) (params : List String) (body : List Stmt) : Function :=
  ⟨some ⟨f, {}⟩, params.map param, block body, false, {}⟩

/-- An arrow function. -/
abbrev arrow (params : List String) (body : List Stmt) : Function :=
  ⟨none, params.map param, block body, true, {}⟩

/-- The declaration of a constant. -/
abbrev constant (x : String) (init : Expr) : Stmt :=
  .declaration .constKind ⟨x, {}⟩ init {}

/-- The declaration of a variable. -/
abbrev changeable (x : String) (init : Expr) : Stmt :=
  .declaration .letKind ⟨x, {}⟩ init {}

/-- An assignment as a statement. -/
abbrev assign (x : String) (value : Expr) : Stmt :=
  .expression (.assignment .assign (.identifier ⟨x, {}⟩) value {}) {}

/-- An expression as a statement. -/
abbrev run (e : Expr) : Stmt :=
  .expression e {}

/-- A statement that returns a value. -/
abbrev returns (e : Expr) : Stmt :=
  .returns (some e) {}

/-- A choice between two blocks. -/
abbrev branch (test : Expr) (consequent alternate : List Stmt) : Stmt :=
  .conditional test (.block (block consequent)) (some (.block (block alternate))) {}

/-- A block that runs only if a condition holds. -/
abbrev when (test : Expr) (body : List Stmt) : Stmt :=
  .conditional test (.block (block body)) none {}

end Sketch

namespace Prelude

open Sketch

/-! ## Functions of the library of lists -/

/-- Whether two values are built alike, of the same leaves. -/
def equal : Function :=
  function "equal" ["xs", "ys"] [
    returns (choice (call "is_pair" [name "xs"])
      (both
        (both (call "is_pair" [name "ys"])
          (call "equal" [call "head" [name "xs"], call "head" [name "ys"]]))
        (call "equal" [call "tail" [name "xs"], call "tail" [name "ys"]]))
      (Sketch.equal (name "xs") (name "ys")))]

/-- Put the elements of a list in front of another one, the last one first. -/
def rev : Function :=
  function "rev" ["original", "reversed"] [
    returns (choice (call "is_null" [name "original"])
      (name "reversed")
      (call "rev" [call "tail" [name "original"],
        call "pair" [call "head" [name "original"], name "reversed"]]))]

/-- The elements of a list, the last one first. -/
def reverse : Function :=
  function "reverse" ["xs"] [
    .function rev,
    returns (call "rev" [name "xs", null])]

/-- The elements of a list, and then another list. -/
def append : Function :=
  function "append" ["xs", "ys"] [
    returns (choice (call "is_null" [name "xs"])
      (name "ys")
      (call "pair" [call "head" [name "xs"],
        call "append" [call "tail" [name "xs"], name "ys"]]))]

/-- Functions of the library of lists. -/
abbrev listFunctions : List Function :=
  [equal, reverse, append]

set_option maxRecDepth 100000 in
/-- The library of lists declares functions only, and has these ones. -/
theorem exists_lists : ∃ lists, Program.read Prelude.lists = .ok lists ∧
    ((∀ s ∈ lists.body, s.isFunction) ∧ declaredNames lists.body = listNames) ∧
    ∀ f ∈ listFunctions, ∃ s ∈ lists.body, s.alike (.function f) = true := by
  refine Program.exists_read ?_
  rw [Program.read, Scanner.ofText, lists, toList_of_eq (rfl : _ = String.ofList _)]
  decide +kernel

theorem readsLibrary_lists : Program.ReadsLibrary lists listNames := by
  obtain ⟨_, read, ⟨functions, declared⟩, -⟩ := exists_lists
  exact Program.readsLibrary read functions declared (by decide) (by decide)

/-! ## Functions of the library of jumps -/

/-- Run a body that may throw, and go on with what it comes to. -/
def throwing : Function :=
  arrow ["thrw"] [
    constant "res" (call "body" [name "thrw"]),
    run (call "resume" [name "res"])]

/-- Run a body that may throw, and catch what it throws. -/
def catching : Function :=
  arrow ["resume"] [
    constant "exception" (call "call_cc" [.function throwing]),
    run (call "resume" [call "ctch" [name "exception"]])]

/-- Run a body, with a function for what it throws. -/
def tryc : Function :=
  function "tryc" ["body", "ctch"] [run (call "call_cc" [.function catching])]

/-- Go back to the latest choice, or give up. -/
def fail : Function :=
  function "fail" [] [
    branch (not (call "is_pair" [name "fail_stack"]))
      [run (call "shift" [.function (arrow ["k"] [returns (boolean false)])])]
      [changeable "back_track_point" (call "head" [name "fail_stack"]),
        assign "fail_stack" (call "tail" [name "fail_stack"]),
        run (call "back_track_point" [name "back_track_point"])]]

/-- Choose the next of several values, or go back. -/
def choose : Stmt :=
  branch (call "is_null" [name "choices"])
    [run (call "fail" [])]
    [changeable "choice" (call "head" [name "choices"]),
      assign "choices" (call "tail" [name "choices"]),
      assign "fail_stack" (call "pair" [name "cc", name "fail_stack"]),
      returns (name "choice")]

/-- Choose one of several values. -/
def amb : Function :=
  function "amb" ["choices"] [
    changeable "cc" (call "call_cc" [.function (arrow ["k"] [returns (name "k")])]),
    choose]

/-- Go on only if a condition holds. -/
def assert : Function :=
  function "assert" ["condition"] [
    returns (choice (call "condition" []) (boolean true) (call "fail" []))]

/-- Search for choices with which a function comes to its end. -/
def logic : Function :=
  function "logic" ["body"] [
    changeable "fail_stack" null,
    .function fail,
    .function amb,
    .function assert,
    returns (call "reset" [.function (arrow []
      [returns (call "body" [name "amb", name "assert"])])])]

/-- Hand out a value, and go on when the next one is asked for. -/
def yld : Function :=
  function "yld" ["val"] [
    run (call "shift" [.function (arrow ["k"] [
      assign "cc" (name "k"),
      returns (name "val")])])]

/-- Ask for the next value. -/
def it : Function :=
  function "it" [] [
    returns (call "reset" [.function (arrow [] [
      returns (choice (not (call "is_cont" [name "cc"]))
        (call "walk" [name "yld", name "data"])
        (call "cc" [null]))])])]

/-- A function that hands out the values of a walk through some data one by one. -/
def makeGenerator : Function :=
  function "make_generator" ["data", "walk"] [
    changeable "cc" null,
    .function yld,
    .function it,
    returns (name "it")]

/-- The stack from here on, under a name. -/
def here : Stmt :=
  changeable "cc" (call "call_cc" [.function (arrow ["k"] [returns (name "k")])])

/-- Go on with the first thread of the queue. -/
def switch : List Stmt :=
  [changeable "next_thread" (call "head" [name "thread_queue"]),
    assign "thread_queue" (call "tail" [name "thread_queue"]),
    run (call "next_thread" [null])]

/-- Put a new thread at the end of the queue. -/
def spawn : Function :=
  function "spawn" ["proc"] [
    here,
    branch (call "is_cont" [name "cc"])
      [assign "thread_queue" (call "append" [name "thread_queue", call "list" [name "cc"]])]
      [run (call "proc" []), run (call "quit" [])]]

/-- Let the other threads go first. -/
def pause : Function :=
  function "yld" [] [
    here,
    when (both (call "is_cont" [name "cc"]) (not (call "is_null" [name "thread_queue"])))
      [changeable "next_thread" (call "head" [name "thread_queue"]),
        assign "thread_queue" (call "append" [call "tail" [name "thread_queue"],
          call "list" [name "cc"]]),
        run (call "next_thread" [null])]]

/-- End a thread. -/
def quit : Function :=
  function "quit" [] [
    branch (not (call "is_null" [name "thread_queue"])) switch [run (call "halt" [])]]

/-- Run all threads to their ends. -/
def startThreads : Function :=
  function "start_threads" [] [
    here,
    when (call "is_cont" [name "cc"])
      [assign "halt" (.function (arrow [] [returns (call "cc" [boolean false])])),
        when (not (call "is_null" [name "thread_queue"])) switch]]

/-- Run a body that spawns threads and starts them. -/
def threads : Function :=
  function "threads" ["body"] [
    changeable "thread_queue" null,
    changeable "halt" null,
    .function spawn,
    .function pause,
    .function quit,
    .function startThreads,
    returns (call "body" [name "spawn", name "start_threads", name "yld"])]

/-- Functions of the library of jumps. -/
abbrev jumpFunctions : List Function :=
  [tryc, logic, threads, makeGenerator]

set_option maxRecDepth 100000 in
/-- The library of jumps declares functions only, and has these ones. -/
theorem exists_jumps : ∃ jumps, Program.read Prelude.jumps = .ok jumps ∧
    ((∀ s ∈ jumps.body, s.isFunction) ∧ declaredNames jumps.body = jumpNames) ∧
    ∀ f ∈ jumpFunctions, ∃ s ∈ jumps.body, s.alike (.function f) = true := by
  refine Program.exists_read ?_
  rw [Program.read, Scanner.ofText, jumps, toList_of_eq (rfl : _ = String.ofList _)]
  decide +kernel

theorem readsLibrary_jumps : Program.ReadsLibrary jumps jumpNames := by
  obtain ⟨_, read, ⟨functions, declared⟩, -⟩ := exists_jumps
  exact Program.readsLibrary read functions declared (by decide) (by decide)

end Prelude

end SourceMachine
