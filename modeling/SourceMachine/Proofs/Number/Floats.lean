import Mathlib
import SourceMachine.Number.Arithmetic
import SourceMachine.Number.Reading

/-!
# What is known of floats

A finite float is a mantissa times a power of two.  If the mantissa has all of its fifty-three
bits, rounding and storing it change nothing (`round_shiftLeft`, `unpack_pack`), and a smaller
natural number is moved up to such a mantissa first (`unpack_toFloat`).  So the quotient of one by
a power of two is exact, and is compared like the two of them (`div_lt_one`).

The float nearest to a fraction has bits up to those of infinity, and all of these bits stand
for a number (`isNaN_ofRatio`).
-/

namespace SourceMachine.Number

open Float.Model Float.Model.UnpackedFloat

/-! ## Mantissas -/

theorem log2_shiftLeft {n : Nat} (pos : 0 < n) (j : Nat) : (n <<< j).log2 = n.log2 + j := by
  obtain ⟨low, high⟩ := (Nat.log2_eq_iff pos.ne').1 rfl
  rw [Nat.shiftLeft_eq, Nat.log2_eq_iff (by positivity), Nat.add_right_comm, Nat.pow_add,
    Nat.pow_add]
  exact ⟨Nat.mul_le_mul_right _ low, Nat.mul_lt_mul_of_pos_right high (Nat.two_pow_pos j)⟩

theorem shiftRight_shiftLeft (m i j : Nat) :
    (ExtendedMantissa.mk (m <<< (i + j)) false false >>> j) = ⟨m <<< i, false, false⟩ := by
  induction j generalizing i with
  | zero => rfl
  | succ j ih =>
    have taken := ih (i + 1)
    rw [Nat.add_right_comm] at taken
    show (ExtendedMantissa.mk (m <<< (i + j + 1)) false false >>> j).shiftRightOne = _
    rw [taken, ExtendedMantissa.shiftRightOne, Nat.shiftLeft_succ]
    simp

section

variable (sign : Sign) {m : Nat} {e : Int} (size : m.log2 = 52) (pos : 0 < m)
include size

/-- Zeros below a full mantissa are shifted out. -/
theorem round_shiftLeft {j : Nat} (least : -1074 ≤ e + j) :
    roundWithAccuracy .binary64 sign (m <<< j) e .exact = .finite sign m (e + j) pos := by
  have target {k : Nat} {e' : Int} (sum : e' + k = e + j) :
      shiftToTargetExponent .binary64 (m <<< k) e' .exact = (⟨m, false, false⟩, e + j) := by
    have shift : Format.binary64.targetExponent (totalExponent (m <<< k) e') - e' = k := by
      rw [totalExponent, log2_shiftLeft pos, size]
      simp only [Format.targetExponent, Format.mantissaBits, Format.minExponent]
      omega
    have shifted := shiftRight_shiftLeft m 0 k
    rw [Nat.zero_add, Nat.shiftLeft_zero] at shifted
    rw [shiftToTargetExponent, shiftToExponent, shift, Int.toNat_natCast, sum]
    exact congrArg (·, e + (j : Int)) shifted
  have again := target (k := 0) (Int.add_zero _)
  rw [Nat.shiftLeft_zero] at again
  rw [roundWithAccuracy, target rfl]
  dsimp only [ExtendedMantissa.roundedMantissa, ExtendedMantissa.accuracy,
    Accuracy.roundToNearestEven]
  simp only [again, dif_neg pos.ne']

/-- A full mantissa is stored with all of its bits. -/
theorem unpack_pack (least : -1074 ≤ e) (most : e ≤ 971) :
    (Float.Model.pack (.finite sign m e pos)).unpack = .finite sign m e pos := by
  obtain ⟨low, high⟩ := (Nat.log2_eq_iff pos.ne').1 size
  obtain ⟨b, biased⟩ := Int.eq_ofNat_of_zero_le (show 0 ≤ e + 1075 by omega)
  have mantissa : (1#1 ++ BitVec.ofNat 52 m).toNat = m := by
    rw [BitVec.toNat_append, ← Nat.shiftLeft_add_eq_or_of_lt (BitVec.isLt _),
      BitVec.toNat_ofNat m]
    show 2 ^ 52 + m % 2 ^ 52 = m
    omega
  have exponent : (BitVec.ofNat 11 b).toNat = b := by
    rw [BitVec.toNat_ofNat]
    omega
  have middle : BitVec.ofNat 11 b ≠ -1#11 ∧ BitVec.ofNat 11 b ≠ 0#11 := by
    constructor <;> intro same <;> have bits := congrArg BitVec.toNat same <;>
      rw [exponent] at bits <;> simp at bits <;> omega
  have packed : UnpackedFloat.pack .binary64 (.finite sign m e pos) =
      packComponents .binary64 sign (BitVec.ofNat 11 b) (BitVec.ofNat 52 m) := by
    have sum : (e + (Format.binary64.exponentBias : Int) + (52 : Nat)).toNat = b := by
      show (e + 1023 + 52).toNat = b
      omega
    rw [UnpackedFloat.pack]
    dsimp only
    rw [sum, if_neg (by omega), if_pos (by rw [size]; rfl)]
  show UnpackedFloat.unpack .binary64 (UnpackedFloat.pack .binary64 _) = _
  rw [packed, UnpackedFloat.unpack]
  simp only [unpackMantissa_packComponents, unpackExponent_packComponents,
    unpackSign_packComponents, Sign.ofBitVec_toBitVec, if_neg middle.1, if_neg middle.2, exponent,
    mantissa]
  congr 1
  show (b : Int) - (1023 + 52) = e
  omega

/-- A quotient by two to the fifty-third has the mantissa of the dividend. -/
theorem unpack_div {x y : Float} (num : x.toModel.unpack = .finite .positive m e pos)
    (least : -52 ≤ e) (most : e ≤ 0)
    (den : y.toModel.unpack = .finite .positive (2 ^ 52) 1 (by decide)) :
    (x / y).toModel.unpack = .finite .positive m (e - 53) pos := by
  have core : divCore .binary64 m e (2 ^ 52) 1 = (m <<< 1, e - 54, .exact) := by
    have target : Format.binary64.targetExponent (totalExponent m e - totalExponent (2 ^ 52) 1) =
        e - 54 := by
      simp only [Format.targetExponent, Format.mantissaBits, Format.minExponent, totalExponent,
        size, Nat.log2_two_pow]
      omega
    have shift : (e - 1 - (e - 54)).toNat = 53 := by omega
    have split : m <<< 53 = m <<< 1 * 2 ^ 52 := by simp [Nat.shiftLeft_eq, mul_assoc]
    rw [divCore, target, min_eq_right (by omega), shift, split, Nat.mul_mod_left,
      Nat.mul_div_cancel _ (by decide), accuracyOfFraction, if_pos rfl]
  show (Float.Model.pack (UnpackedFloat.div .binary64 x.toModel.unpack y.toModel.unpack)).unpack = _
  rw [num, den, UnpackedFloat.div, core]
  dsimp only
  rw [round_shiftLeft _ size pos (by omega)]
  rw [unpack_pack _ size pos (by omega) (by omega)]
  congr 1
  omega

end

/-- A small natural number becomes a float with a full mantissa. -/
theorem unpack_toFloat {n : UInt64} (pos : 0 < n.toNat) (small : n.toNat < 2 ^ 53) :
    ∃ m e pos', n.toFloat.toModel.unpack = .finite .positive m e pos' ∧ m.log2 = 52 ∧
      -52 ≤ e ∧ e ≤ 0 := by
  have bits : n.toNat.log2 ≤ 52 := Nat.le_of_lt_succ ((Nat.log2_lt pos.ne').2 small)
  obtain ⟨j, sum⟩ := Nat.exists_eq_add_of_le bits
  have size : (n.toNat <<< j).log2 = 52 := by rw [log2_shiftLeft pos, sum]
  have pos' : 0 < n.toNat <<< j := by
    rw [Nat.shiftLeft_eq]
    positivity
  refine ⟨_, -j, pos', ?_, size, by omega, by omega⟩
  have shift : (0 - Format.binary64.targetExponent (totalExponent n.toNat 0)).toNat = j := by
    simp only [Format.targetExponent, Format.mantissaBits, Format.minExponent, totalExponent]
    omega
  have rounded : UnpackedFloat.ofUInt64 .binary64 n = .finite .positive _ (-j) pos' := by
    have exact := round_shiftLeft .positive (e := -j) (j := 0) size pos' (by omega)
    rw [Nat.shiftLeft_zero, Nat.cast_zero, add_zero] at exact
    rw [UnpackedFloat.ofUInt64, UnpackedFloat.ofNat, UnpackedFloat.ofInt, UnpackedFloat.normalize,
      Int.compare_eq_gt.2 (by omega)]
    dsimp only
    rw [Int.toNat_natCast, UnpackedFloat.round, decreaseExponent, shift, zero_sub]
    exact exact
  show (Float.Model.pack _).unpack = _
  rw [rounded]
  exact unpack_pack .positive size pos' (by omega) (by omega)

/-- A natural number below two to the fifty-third, divided by it, is in the unit interval. -/
theorem div_lt_one {n : UInt64} (small : n.toNat < 2 ^ 53) :
    0 ≤ n.toFloat / (9007199254740992 : UInt64).toFloat ∧
      n.toFloat / (9007199254740992 : UInt64).toFloat < 1 := by
  rcases Nat.eq_zero_or_pos n.toNat with zero | pos
  · rw [show n = 0 from UInt64.toNat_inj.1 zero]
    decide +kernel
  · obtain ⟨m, e, pos', num, size, least, most⟩ := unpack_toFloat pos small
    have value := unpack_div size pos' num least most (y := (9007199254740992 : UInt64).toFloat) rfl
    refine ⟨decide_eq_true ?_, decide_eq_true ?_⟩
    · show UnpackedFloat.le (.zero .positive) (Float.Model.unpack _) = true
      rw [value]
      rfl
    · show UnpackedFloat.lt (Float.Model.unpack _) (.finite .positive (2 ^ 52) (-52) _) = true
      rw [value]
      show (some ((compare (e - 53) (-52)).then (compare m (2 ^ 52))) == some .lt) = true
      rw [Int.compare_eq_lt.2 (by omega)]
      rfl

/-! ## Bits that stand for numbers -/

theorem isNaN_ofBits {bits : UInt64} (number : bits.toNat % 2 ^ 63 ≤ 2047 * 2 ^ 52) :
    (Float.ofBits bits).isNaN = false := by
  have plain : @unpackExponent .binary64 bits.toBitVec = -1#11 →
      @unpackMantissa .binary64 bits.toBitVec = 0#52 := by
    rw [unpackExponent_def, unpackMantissa_def]
    intro exponent
    have high : bits.toNat / 2 ^ 52 % 2 ^ 11 = 2047 := by
      rw [← Nat.shiftRight_eq_div_pow]
      exact congrArg BitVec.toNat exponent
    refine BitVec.eq_of_toNat_eq ?_
    show bits.toNat % 2 ^ 52 = 0
    omega
  show (UnpackedFloat.unpack .binary64 (UnpackedFloat.pack .binary64
    (UnpackedFloat.unpack .binary64 bits.toBitVec))).isNaN = false
  rw [pack_unpack, isNaNBits, if_neg fun wrong => (of_decide_eq_true wrong).2
    (plain (of_decide_eq_true wrong).1), UnpackedFloat.unpack]
  split
  · next exponent =>
    rw [if_pos (plain exponent)]
    rfl
  · split
    · split <;> rfl
    · rfl

theorem ratioBits_le (num den : Nat) : ratioBits num den ≤ infinityBits := by
  rw [ratioBits]
  split
  · exact Nat.zero_le _
  · extract_lets e
    split
    extract_lets m bits
    split
    · next below => exact Nat.le_of_lt below
    · exact Nat.le_refl _

theorem isNaN_ofRatio (negative : Bool) (num den : Nat) :
    (ofRatio negative num den).isNaN = false := by
  have le : ratioBits num den ≤ 2047 * 2 ^ 52 := ratioBits_le num den
  refine isNaN_ofBits ?_
  rw [Nat.toUInt64_eq, UInt64.toNat_ofNat', show twoPow 63 = 2 ^ 63 from rfl]
  split <;> omega

theorem isNaN_ofDecimal (digits : Nat) (exponent : Int) :
    (ofDecimal digits exponent).isNaN = false := by
  rw [ofDecimal]
  split
  · exact isNaN_ofRatio ..
  · split
    · exact isNaN_ofBits (by decide)
    · exact isNaN_ofRatio ..

theorem isNaN_notANumber : notANumber.isNaN = true := by
  decide +kernel

end SourceMachine.Number
