/-!
# Named things

A list of things by name, in the order in which the names first came up.
-/

namespace SourceMachine

/-- Things by name. -/
abbrev Named (α : Type) := List (String × α)

namespace Named

variable {α : Type}

/-- Give a name a thing, in its old place if the name is there and at the end if
    not. -/
def bind (name : String) (thing : α) : Named α → Named α
  | [] => [(name, thing)]
  | (other, old) :: rest =>
    if other = name then (name, thing) :: rest else (other, old) :: bind name thing rest

/-- The thing of a name. -/
def find? (name : String) : Named α → Option α
  | [] => none
  | (other, thing) :: rest => if other = name then some thing else find? name rest

/-- All names. -/
def names (things : Named α) : List String :=
  things.map Prod.fst

@[simp] theorem find?_bind_self (name : String) (thing : α) (things : Named α) :
    find? name (bind name thing things) = some thing := by
  induction things with
  | nil => simp [bind, find?]
  | cons entry rest ih =>
    obtain ⟨other, old⟩ := entry
    by_cases h : other = name <;> simp [bind, find?, h, ih]

theorem find?_bind_of_ne {name other : String} (h : other ≠ name) (thing : α)
    (things : Named α) : find? other (bind name thing things) = find? other things := by
  induction things with
  | nil => simp [bind, find?, h.symm]
  | cons entry rest ih =>
    obtain ⟨first, old⟩ := entry
    by_cases hf : first = name
    · subst hf
      simp [bind, find?, h.symm]
    · simp [bind, find?, hf, ih]

end Named

end SourceMachine
