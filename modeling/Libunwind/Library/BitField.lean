import Mathlib

/-! # Bit-fields

What fits into a signed bit-field, the test by which C code finds out, and the part
of a word below a mask.
-/

namespace Libunwind

/-- `labs`; the negation overflows for the smallest `long`. -/
def labs {w : Nat} (x : BitVec w) : Int := (if x.toInt < 0 then -x else x).toInt

/-- A signed bit-field holds what lies in its range. -/
theorem signExtend_setWidth {w k : Nat} {x : BitVec w} (narrow : k + 1 ≤ w)
    (above : -2 ^ k ≤ x.toInt) (below : x.toInt < 2 ^ k) :
    (x.setWidth (k + 1)).signExtend w = x := by
  apply BitVec.eq_of_toInt_eq
  rw [BitVec.toInt_signExtend_of_le narrow, ← BitVec.signExtend_eq_setWidth_of_le x narrow,
    BitVec.toInt_signExtend_eq_toInt_bmod_of_le x narrow]
  have half : ((2 ^ (k + 1) : Nat) : Int) = 2 * 2 ^ k := by
    rw [Nat.pow_succ]
    push_cast
    omega
  apply Int.bmod_eq_of_le
  · rw [half]
    omega
  · rw [half]
    omega

/-- Any `long` but the smallest is as small as `labs` says. -/
theorem labs_lt {w k : Nat} {x : BitVec w} (notMin : x ≠ BitVec.intMin w) (small : labs x < 2 ^ k) :
    -2 ^ k < x.toInt ∧ x.toInt < 2 ^ k := by
  rw [labs] at small
  split at small
  · rw [BitVec.toInt_neg_of_ne_intMin notMin] at small
    omega
  · omega

/-- What is above a mask can be taken off. -/
theorem sub_and_not {w : Nat} (x mask : BitVec w) : x - (x &&& ~~~mask) = x &&& mask := by
  have apart : (x &&& ~~~mask) &&& (x &&& mask) = 0#w := by
    ext i
    simp only [BitVec.getElem_and, BitVec.getElem_not, BitVec.getElem_zero]
    cases x[i] <;> cases mask[i] <;> rfl
  have whole : (x &&& ~~~mask) ||| (x &&& mask) = x := by
    ext i
    simp only [BitVec.getElem_and, BitVec.getElem_not, BitVec.getElem_or]
    cases x[i] <;> cases mask[i] <;> rfl
  have sum : (x &&& ~~~mask) + (x &&& mask) = x := by
    rw [BitVec.add_eq_or_of_and_eq_zero _ _ apart, whole]
  exact sub_eq_of_eq_add' sum.symm

section Mask

variable {w k : Nat}

theorem toNat_twoPow_sub_one (small : k < w) : (BitVec.twoPow w k - 1).toNat = 2 ^ k - 1 := by
  have positive : 0 < 2 ^ k := Nat.two_pow_pos k
  have below : 2 ^ k < 2 ^ w := Nat.pow_lt_pow_right (by omega) small
  have one : (1 : BitVec w).toNat = 1 := by
    simp only [BitVec.ofNat_eq_ofNat, BitVec.toNat_ofNat]
    exact Nat.mod_eq_of_lt (by omega)
  have value : (BitVec.twoPow w k).toNat = 2 ^ k := by
    rw [BitVec.toNat_twoPow, Nat.mod_eq_of_lt below]
  rw [BitVec.toNat_sub_of_le (BitVec.le_def.mpr (by omega)), value, one]

theorem toNat_and_twoPow_sub_one (x : BitVec w) (small : k < w) :
    (x &&& (BitVec.twoPow w k - 1)).toNat = x.toNat % 2 ^ k := by
  rw [BitVec.toNat_and, toNat_twoPow_sub_one small, Nat.and_two_pow_sub_one_eq_mod]

/-- A multiple adds nothing to the low bits. -/
theorem add_and_twoPow_sub_one {x y : BitVec w} (small : k < w) (multiple : 2 ^ k ∣ x.toNat) :
    (x + y) &&& (BitVec.twoPow w k - 1) = y &&& (BitVec.twoPow w k - 1) := by
  have modulus : 2 ^ k ∣ 2 ^ w := Nat.pow_dvd_pow 2 (by omega)
  obtain ⟨n, value⟩ := multiple
  apply BitVec.eq_of_toNat_eq
  rw [toNat_and_twoPow_sub_one _ small, toNat_and_twoPow_sub_one _ small, BitVec.toNat_add,
    Nat.mod_mod_of_dvd _ modulus, value, Nat.mul_add_mod]

/-- Without its low bits, a word is a multiple. -/
theorem dvd_and_not_mask (x : BitVec w) (small : k < w) :
    2 ^ k ∣ (x &&& ~~~(BitVec.twoPow w k - 1)).toNat := by
  have cleared : (x &&& ~~~(BitVec.twoPow w k - 1)) &&& (BitVec.twoPow w k - 1) = 0#w := by
    rw [BitVec.and_assoc, BitVec.and_comm (~~~_), BitVec.and_not_self]
    exact BitVec.and_zero
  apply Nat.dvd_of_mod_eq_zero
  rw [← toNat_and_twoPow_sub_one _ small, cleared, BitVec.toNat_zero]

/-- The number that a word's high bits make. -/
theorem toNat_and_not_mask (x : BitVec w) (small : k < w) :
    (x &&& ~~~(BitVec.twoPow w k - 1)).toNat = 2 ^ k * (x.toNat / 2 ^ k) := by
  have le : (x &&& ~~~(BitVec.twoPow w k - 1)).toNat ≤ x.toNat := by
    rw [BitVec.toNat_and]
    exact Nat.and_le_left
  have parts := congrArg BitVec.toNat (sub_and_not x (BitVec.twoPow w k - 1))
  rw [BitVec.toNat_sub_of_le (BitVec.le_def.mpr le), toNat_and_twoPow_sub_one x small] at parts
  have whole := Nat.div_add_mod x.toNat (2 ^ k)
  omega

/-- Rounding up leaves a multiple as it is. -/
theorem round_up_of_dvd {x : BitVec w} (small : k < w) (multiple : 2 ^ k ∣ x.toNat) :
    (x + BitVec.twoPow w k - 1) &&& ~~~(BitVec.twoPow w k - 1) = x := by
  have mask := toNat_twoPow_sub_one small
  have positive : 0 < 2 ^ k := Nat.two_pow_pos k
  obtain ⟨n, value⟩ := multiple
  have split : 2 ^ w = 2 ^ k * 2 ^ (w - k) := by rw [← Nat.pow_add]; congr 1; omega
  have room : 2 ^ k * n + 2 ^ k ≤ 2 ^ w := by
    have lower : n < 2 ^ (w - k) := by
      have bound := x.isLt
      rw [value, split] at bound
      exact Nat.lt_of_mul_lt_mul_left bound
    rw [split, ← Nat.mul_succ]
    exact Nat.mul_le_mul_left _ lower
  have sum : (x + (BitVec.twoPow w k - 1)).toNat = 2 ^ k * n + (2 ^ k - 1) := by
    rw [BitVec.toNat_add, mask, value]
    exact Nat.mod_eq_of_lt (by omega)
  have low : (x + (BitVec.twoPow w k - 1)) &&& (BitVec.twoPow w k - 1) =
      BitVec.twoPow w k - 1 := by
    apply BitVec.eq_of_toNat_eq
    rw [toNat_and_twoPow_sub_one _ small, sum, mask, Nat.mul_add_mod]
    exact Nat.mod_eq_of_lt (by omega)
  rw [add_sub_assoc]
  have parts := sub_and_not (x + (BitVec.twoPow w k - 1)) (BitVec.twoPow w k - 1)
  rw [low, sub_eq_iff_eq_add'] at parts
  exact add_right_cancel parts.symm

/-- What is above a mask instead of what is below it. -/
theorem and_shiftLeft_neg_one_iff {x : BitVec w} :
    x &&& ((-1 : BitVec w) <<< k) = BitVec.ofNat w (x.toNat % 2 ^ k) ↔ x = 0 := by
  have ones : (-1 : BitVec w) = BitVec.allOnes w := BitVec.neg_one_eq_allOnes
  constructor
  · intro same
    apply BitVec.eq_of_getLsbD_eq
    intro i inside
    have bit := congrArg (BitVec.getLsbD · i) same
    simp only [ones, BitVec.getLsbD_and, BitVec.getLsbD_shiftLeft, BitVec.getLsbD_allOnes,
      BitVec.getLsbD_ofNat, Nat.testBit_mod_two_pow, BitVec.testBit_toNat] at bit
    by_cases low : i < k
    · simpa [low, inside] using bit
    · have within : i - k < w := by omega
      simpa [low, inside, within] using bit
  · intro zero
    subst zero
    simp

/-- What is above a number of low bits. -/
theorem ofNat_shiftRight {a b : Nat} (small : a < 2 ^ k) (fits : a + 2 ^ k * b < 2 ^ w) :
    BitVec.ofNat w (a + 2 ^ k * b) >>> k = BitVec.ofNat w b := by
  have positive : 0 < 2 ^ k := Nat.two_pow_pos k
  have below : b < 2 ^ w := by
    have := Nat.le_mul_of_pos_left b positive
    omega
  apply BitVec.eq_of_toNat_eq
  rw [BitVec.toNat_ushiftRight, BitVec.toNat_ofNat, BitVec.toNat_ofNat, Nat.mod_eq_of_lt fits,
    Nat.mod_eq_of_lt below, Nat.shiftRight_eq_div_pow, Nat.add_mul_div_left _ _ positive,
    Nat.div_eq_of_lt small, Nat.zero_add]

theorem ofNat_and_mask {a b : Nat} (small : a < 2 ^ k) (fits : a + 2 ^ k * b < 2 ^ w)
    (narrow : k ≤ w) :
    BitVec.ofNat w (a + 2 ^ k * b) &&& BitVec.ofNat w (2 ^ k - 1) = BitVec.ofNat w a := by
  have positive : 0 < 2 ^ k := Nat.two_pow_pos k
  have power : 2 ^ k ≤ 2 ^ w := Nat.pow_le_pow_right (by decide) narrow
  apply BitVec.eq_of_toNat_eq
  rw [BitVec.toNat_and, BitVec.toNat_ofNat, BitVec.toNat_ofNat, BitVec.toNat_ofNat,
    Nat.mod_eq_of_lt fits, Nat.mod_eq_of_lt (show 2 ^ k - 1 < 2 ^ w by omega),
    Nat.mod_eq_of_lt (show a < 2 ^ w by omega), Nat.and_two_pow_sub_one_eq_mod,
    Nat.add_mul_mod_self_left, Nat.mod_eq_of_lt small]

end Mask

end Libunwind
