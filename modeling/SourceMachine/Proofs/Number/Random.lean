import SourceMachine.Proofs.Number.Floats
import SourceMachine.Random

/-!
# The random generator never gets stuck

Each of the three steps of the generator combines a word with a shift of itself.  Such a step can
be undone bit by bit, beginning at the end from which the word is shifted, where its bits stay as
they are.  So different states have different states after them (`advance_injective`).  Zero
follows zero, hence nothing else is followed by it (`advance_ne_zero`).
-/

namespace SourceMachine.Random

variable {w k : Nat}

theorem injective_xor_shiftLeft (pos : 0 < k) :
    Function.Injective fun x : BitVec w => x ^^^ (x <<< k) := by
  intro x y same
  -- a bit is combined with a lower one, where the two words are known to agree
  have bits (i : Nat) : x.getLsbD i = y.getLsbD i := by
    induction i using Nat.strong_induction_on with
    | _ i ih =>
      have bit := congrArg (·.getLsbD i) same
      simp only [BitVec.getLsbD_xor, BitVec.getLsbD_shiftLeft] at bit
      by_cases low : i < k
      · simpa [low] using bit
      · rw [ih (i - k) (by omega)] at bit
        exact Bool.xor_left_inj.1 bit
  exact BitVec.eq_of_getLsbD_eq fun i _ => bits i

theorem injective_xor_shiftRight (pos : 0 < k) :
    Function.Injective fun x : BitVec w => x ^^^ (x >>> k) := by
  intro x y same
  -- a bit is combined with a higher one, so the induction is on the number of bits above
  have bits (n i : Nat) (above : w ≤ i + n) : x.getLsbD i = y.getLsbD i := by
    induction n using Nat.strong_induction_on generalizing i with
    | _ n ih =>
      by_cases out : w ≤ i
      · rw [BitVec.getLsbD_of_ge x i out, BitVec.getLsbD_of_ge y i out]
      · have bit := congrArg (·.getLsbD i) same
        simp only [BitVec.getLsbD_xor, BitVec.getLsbD_ushiftRight] at bit
        rw [ih (n - 1) (by omega) (k + i) (by omega)] at bit
        exact Bool.xor_left_inj.1 bit
  exact BitVec.eq_of_getLsbD_eq fun i _ => bits w i (by omega)

theorem advance_injective : Function.Injective advance := by
  intro x y same
  have words := congrArg UInt64.toBitVec same
  simp only [advance, UInt64.toBitVec_xor, UInt64.toBitVec_shiftLeft,
    UInt64.toBitVec_shiftRight] at words
  have second := injective_xor_shiftLeft (by decide) words
  have first := injective_xor_shiftRight (by decide) second
  exact UInt64.toBitVec_inj.1 (injective_xor_shiftLeft (by decide) first)

theorem advance_ne_zero {state : UInt64} (moving : state ≠ 0) : advance state ≠ 0 := by
  intro stuck
  have zero : advance 0 = 0 := rfl
  exact moving (advance_injective (stuck.trans zero.symm))

theorem digits_lt (state : UInt64) : (digits state).toNat < 2 ^ 53 := by
  rw [digits, UInt64.toNat_shiftRight, Nat.shiftRight_eq_div_pow]
  exact Nat.div_lt_of_lt_mul state.toNat_lt

/-- The generator after some calls. -/
def after (r : Random) : (calls : Nat) → Random
  | 0 => r
  | calls + 1 => (r.after calls).next.2

/-- A seed starts a register that is never zero, and no call changes that. -/
theorem exists_register (seed : UInt64) (calls : Nat) :
    ∃ state, (ofSeed seed).after calls = .register state ∧ state ≠ 0 := by
  induction calls with
  | zero =>
    refine ⟨_, rfl, ?_⟩
    split
    · decide
    · assumption
  | succ calls ih =>
    obtain ⟨state, reached, moving⟩ := ih
    exact ⟨advance state, by rw [after, reached, next], advance_ne_zero moving⟩

/-- **The random generator never gets stuck.**  Two different states never have the same state
    after them.  Whatever the seed, after any number of calls the state is not zero.  The next
    number is that of the upper bits of the next state, which is below two to the fifty-third,
    divided by that power, and so at least zero and less than one. -/
theorem generator_never_sticks : Function.Injective advance ∧
    ∀ (seed : UInt64) (calls : Nat), ∃ state, (ofSeed seed).after calls = .register state ∧
      state ≠ 0 ∧ (digits (advance state)).toNat < 2 ^ 53 ∧
      ((ofSeed seed).after calls).next.1 =
        (digits (advance state)).toFloat / (9007199254740992 : UInt64).toFloat ∧
      0 ≤ ((ofSeed seed).after calls).next.1 ∧ ((ofSeed seed).after calls).next.1 < 1 := by
  refine ⟨advance_injective, fun seed calls => ?_⟩
  obtain ⟨state, reached, moving⟩ := exists_register seed calls
  have below := digits_lt (advance state)
  refine ⟨state, reached, moving, below, ?_⟩
  rw [reached]
  exact ⟨rfl, Number.div_lt_one below⟩

end SourceMachine.Random
