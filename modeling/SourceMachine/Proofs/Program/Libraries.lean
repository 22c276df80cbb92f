import SourceMachine.Proofs.Heap.Slots
import SourceMachine.Proofs.Program.Position
import SourceMachine.Session

/-!
# Libraries

A library is a program that declares functions of different names and does nothing else.
The texts of the preludes are libraries, and between them no name is declared twice.
-/

namespace SourceMachine

/-- The statement declares a function. -/
def Stmt.isFunction : Stmt → Bool
  | .function f => f.id.isSome
  | _ => false

theorem Stmt.eq_function {s : Stmt} (isFunction : s.isFunction) :
    ∃ f x, s = .function f ∧ f.id = some x ∧ s.declared? = some (x, false) := by
  cases s with
  | function f =>
    obtain ⟨x, named⟩ := Option.isSome_iff_exists.1 isFunction
    exact ⟨f, x, rfl, named, by rw [Stmt.declared?, named]; rfl⟩
  | _ => cases isFunction

/-- The program declares functions of different names and does nothing else. -/
structure Program.IsLibrary (p : Program) : Prop where
  functions : ∀ s ∈ p.body, s.isFunction
  distinct : (declaredNames p.body).Nodup
  nonempty : p.body ≠ []

theorem length_declaredNames {body : List Stmt} (functions : ∀ s ∈ body, s.isFunction) :
    (declaredNames body).length = body.length := by
  induction body with
  | nil => rfl
  | cons s rest ih =>
    obtain ⟨f, x, -, -, declared⟩ := Stmt.eq_function (functions s List.mem_cons_self)
    rw [declaredNames_cons_of_some declared, List.length_cons, List.length_cons,
      ih fun t member => functions t (List.mem_cons_of_mem _ member)]

/-- A function of a body declares its name. -/
theorem mem_declaredNames {body : List Stmt} {f : Function} {x : Identifier}
    (member : .function f ∈ body) (named : f.id = some x) : x.name ∈ declaredNames body := by
  refine List.mem_filterMap.2 ⟨.function f, member, ?_⟩
  rw [Stmt.declared?, named]
  rfl

/-- Every name of a library is that of a function. -/
theorem Program.IsLibrary.exists_function {p : Program} (library : p.IsLibrary) {name : String}
    (member : name ∈ declaredNames p.body) :
    ∃ f x, .function f ∈ p.body ∧ f.id = some x ∧ x.name = name := by
  obtain ⟨s, inside, declares⟩ := List.mem_filterMap.1 member
  obtain ⟨f, x, rfl, named, declared⟩ := Stmt.eq_function (library.functions s inside)
  rw [declared] at declares
  exact ⟨f, x, inside, named, Option.some.inj declares⟩

/-- The text is a library with these names. -/
def Program.ReadsLibrary (text : String) (names : List String) : Prop :=
  ∃ p, Program.read text = .ok p ∧ p.IsLibrary ∧ declaredNames p.body = names

theorem Program.readsLibrary {text : String} {names : List String} {p : Program}
    (read : Program.read text = .ok p) (functions : ∀ s ∈ p.body, s.isFunction)
    (declared : declaredNames p.body = names) (distinct : names.Nodup) (nonempty : names ≠ []) :
    Program.ReadsLibrary text names := by
  refine ⟨p, read, ⟨functions, by rwa [declared], ?_⟩, declared⟩
  intro empty
  rw [empty] at declared
  exact nonempty declared.symm

/-! ## The preludes -/

namespace Prelude

/-- The functions on lists. -/
def listNames : List String :=
  ["equal", "length", "map", "build_list", "for_each", "list_to_string", "reverse", "append",
    "member", "remove", "remove_all", "filter", "enum_list", "list_ref", "accumulate"]

/-- The functions that jump. -/
def jumpNames : List String :=
  ["loop", "try_no_c", "tryc", "logic", "threads", "make_generator"]

/-- The characters of a text that is written out.  Evaluating a text character by character
    takes long; this way it is taken apart once. -/
theorem toList_of_eq {text : String} {cs : List Char} (written : text = String.ofList cs) :
    text.toList = cs := by
  rw [written, String.toList_ofList]

/-- No name is declared twice, and none is a builtin name. -/
theorem names_nodup : (jumpNames ++ listNames ++ Table.standard.names).Nodup := by
  decide +kernel

theorem not_mem_listNames {name : String} (jump : name ∈ jumpNames) : name ∉ listNames := by
  intro list
  have disjoint := List.disjoint_of_nodup_append (List.nodup_append'.1 names_nodup).1
  exact disjoint jump list

theorem not_mem_standard {name : String} (jump : name ∈ jumpNames) :
    name ∉ Table.standard.names := by
  intro builtin
  exact List.disjoint_of_nodup_append names_nodup (List.mem_append_left _ jump) builtin

end Prelude

end SourceMachine
