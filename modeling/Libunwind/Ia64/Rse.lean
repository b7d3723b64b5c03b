import Libunwind.Basic
import Libunwind.Library.CollectedSlots

/-! # The register stack engine

The functions of `rse.h`. A register is stored in each word of the backing store but every 64th,
which collects the NaT bits of those before it.
-/

namespace Libunwind.Ia64

open CollectedSlots

def rseSlotNum (addr : Word 64) : Word 64 := (addr >>> 3) &&& 0x3f

/-- The address is that of an RNaT slot. -/
def RseIsRnatSlot (addr : Word 64) : Prop := rseSlotNum addr = 0x3f

instance (addr : Word 64) : Decidable (RseIsRnatSlot addr) := inferInstanceAs (Decidable (_ = _))

/-- The address of the RNaT slot that covers a slot. -/
def rseRnatAddr (slotAddr : Word 64) : Word 64 := slotAddr ||| ((0x3f : Word 64) <<< 3)

def rseNumRegs (bspstore bsp : Word 64) : Word 64 :=
  let slots := (bsp - bspstore) >>> 3
  slots - (rseSlotNum bspstore + slots) / 0x40

/-- `num_regs` is a `long`. -/
def rseSkipRegs (addr numRegs : Word 64) : Word 64 :=
  let delta := rseSlotNum addr + numRegs
  let delta := if numRegs.slt 0 then delta - 0x3e else delta
  addr + ((numRegs + delta.sdiv 0x3f) <<< 3)

/-! ## Addresses of words -/

/-- The address of a word; the words come round again. -/
def wordAt (n : Nat) : Word 64 := BitVec.ofNat 64 (8 * n)

section Words

variable {a m n : Nat}

theorem wordAt_add (a n : Nat) : wordAt (a + n) = wordAt a + wordAt n := by
  rw [wordAt, wordAt, wordAt, Nat.mul_add, BitVec.ofNat_add]

theorem wordAt_succ (n : Nat) : wordAt (n + 1) = wordAt n + 8 := wordAt_add n 1

theorem wordAt_sub (a m n : Nat) : wordAt (a + m) - wordAt (a + n) = wordAt m - wordAt n := by
  rw [wordAt_add, wordAt_add]
  exact add_sub_add_left_eq_sub (wordAt m) (wordAt n) (wordAt a)

theorem rseSlotNum_wordAt (n : Nat) : rseSlotNum (wordAt n) = BitVec.ofNat 64 (n % 64) := by
  have mask : (0x3f : Word 64).toNat = 2 ^ 6 - 1 := rfl
  apply BitVec.eq_of_toNat_eq
  rw [rseSlotNum, BitVec.toNat_and, BitVec.toNat_ushiftRight, wordAt, BitVec.toNat_ofNat,
    BitVec.toNat_ofNat, Nat.shiftRight_eq_div_pow, mask, Nat.and_two_pow_sub_one_eq_mod]
  omega

theorem rseIsRnatSlot_wordAt (n : Nat) : RseIsRnatSlot (wordAt n) ↔ Collects n := by
  rw [RseIsRnatSlot, rseSlotNum_wordAt, Collects]
  constructor
  · intro same
    have same := congrArg BitVec.toNat same
    change _ = 63 at same
    rw [BitVec.toNat_ofNat] at same
    omega
  · intro same
    rw [same]
    rfl

/-- The registers in some words. -/
theorem rseNumRegs_wordAt (a : Nat) (small : n < 2 ^ 61) :
    rseNumRegs (wordAt a) (wordAt (a + n)) = BitVec.ofNat 64 (count a n) := by
  have slots : (wordAt (a + n) - wordAt a) >>> 3 = BitVec.ofNat 64 n := by
    rw [wordAt_add, BitVec.add_comm, BitVec.add_sub_cancel]
    apply BitVec.eq_of_toNat_eq
    rw [BitVec.toNat_ushiftRight, wordAt, BitVec.toNat_ofNat, BitVec.toNat_ofNat,
      Nat.shiftRight_eq_div_pow]
    omega
  have group : (0x40 : Word 64).toNat = 64 := rfl
  apply BitVec.eq_of_toNat_eq
  simp only [rseNumRegs, slots, rseSlotNum_wordAt, count]
  rw [BitVec.toNat_sub, BitVec.toNat_udiv, BitVec.toNat_add, group]
  simp only [BitVec.toNat_ofNat]
  omega

/-- The quotient of a number that is not negative, -/
theorem sdiv_ofNat (small : n < 2 ^ 63) :
    (BitVec.ofNat 64 n).sdiv 0x3f = BitVec.ofNat 64 (n / 63) := by
  have positive : (BitVec.ofNat 64 n).msb = false := by
    rw [BitVec.msb_eq_false_iff_two_mul_lt, BitVec.toNat_ofNat]
    omega
  have divisor : (0x3f : Word 64).toNat = 63 := rfl
  have unsigned : (BitVec.ofNat 64 n).sdiv 0x3f = BitVec.ofNat 64 n / 0x3f := by
    rw [BitVec.sdiv_eq, positive]
    rfl
  rw [unsigned]
  apply BitVec.eq_of_toNat_eq
  rw [BitVec.toNat_udiv, divisor, BitVec.toNat_ofNat, BitVec.toNat_ofNat]
  omega

/-- and of a negative one. -/
theorem sdiv_neg_ofNat (some : 0 < n) (small : n < 2 ^ 63) :
    (-BitVec.ofNat 64 n).sdiv 0x3f = -BitVec.ofNat 64 (n / 63) := by
  have negative : (-BitVec.ofNat 64 n).msb = true := by
    rw [BitVec.msb_eq_true_iff_two_mul_ge, BitVec.toNat_neg, BitVec.toNat_ofNat]
    omega
  have divisor : (0x3f : Word 64).toNat = 63 := rfl
  have unsigned : (-BitVec.ofNat 64 n).sdiv 0x3f = -(- -BitVec.ofNat 64 n / 0x3f) := by
    rw [BitVec.sdiv_eq, negative]
    rfl
  rw [unsigned, BitVec.neg_neg]
  congr 1
  apply BitVec.eq_of_toNat_eq
  rw [BitVec.toNat_udiv, divisor, BitVec.toNat_ofNat, BitVec.toNat_ofNat]
  omega

theorem wordAt_shift (n : Nat) : BitVec.ofNat 64 n <<< 3 = wordAt n := by
  apply BitVec.eq_of_toNat_eq
  rw [BitVec.toNat_shiftLeft, wordAt, BitVec.toNat_ofNat, BitVec.toNat_ofNat, Nat.shiftLeft_eq]
  omega

/-- Skipping registers forwards. -/
theorem rseSkipRegs_wordAt (a : Nat) (small : m < 2 ^ 62) :
    rseSkipRegs (wordAt a) (BitVec.ofNat 64 m) = wordAt (a + skip a m) := by
  have positive : (BitVec.ofNat 64 m).slt 0 = false := by
    refine BitVec.slt_zero_eq_msb.trans ?_
    rw [BitVec.msb_eq_false_iff_two_mul_lt, BitVec.toNat_ofNat]
    omega
  simp only [rseSkipRegs, positive, Bool.false_eq_true, if_false]
  rw [rseSlotNum_wordAt, ← BitVec.ofNat_add, sdiv_ofNat (by omega), ← BitVec.ofNat_add,
    wordAt_shift, ← wordAt_add]
  rfl

/-- Skipping registers backwards leads to where they begin. -/
theorem rseSkipRegs_back (a : Nat) (small : m < 2 ^ 60) :
    rseSkipRegs (wordAt (a + skip a m)) (-BitVec.ofNat 64 m) = wordAt (a + skip a 0) := by
  by_cases none : m = 0
  · subst none
    have stays := rseSkipRegs_wordAt (m := 0) (a + skip a 0) (by decide)
    rw [skip_zero skip_ordinary, Nat.add_zero] at stays
    exact stays
  · have negative : (-BitVec.ofNat 64 m).slt 0 = true := by
      refine BitVec.slt_zero_eq_msb.trans ?_
      rw [BitVec.msb_eq_true_iff_two_mul_ge, BitVec.toNat_neg, BitVec.toNat_ofNat]
      omega
    have ordinary : ¬Collects (a + skip a m) := skip_ordinary
    rw [Collects] at ordinary
    -- the slot's number is less than what is taken from it
    obtain ⟨x, isX⟩ : ∃ x, m + 62 = (a + skip a m) % 64 + x := ⟨m + 62 - (a + skip a m) % 64, by omega⟩
    have delta : rseSlotNum (wordAt (a + skip a m)) + -BitVec.ofNat 64 m - 0x3e =
        -BitVec.ofNat 64 x := by
      rw [rseSlotNum_wordAt]
      have both : BitVec.ofNat 64 m + 0x3e = BitVec.ofNat 64 ((a + skip a m) % 64) + BitVec.ofNat 64 x := by
        rw [← BitVec.ofNat_add, ← isX, BitVec.ofNat_add]
        rfl
      rw [← sub_eq_add_neg, sub_sub, both]
      exact sub_add_cancel_left _ _
    have distance : skip a m = skip a 0 + (m + x / 63) := by
      simp only [skip] at *
      omega
    simp only [rseSkipRegs, negative, if_true, delta]
    rw [sdiv_neg_ofNat (by omega) (by omega), ← neg_add, ← BitVec.ofNat_add]
    have shifted : (-BitVec.ofNat 64 (m + x / 63)) <<< 3 = -wordAt (m + x / 63) := by
      rw [← wordAt_shift, BitVec.shiftLeft_neg]
    rw [shifted, distance, ← Nat.add_assoc, wordAt_add, add_neg_cancel_right]

/-- The RNaT slot is the same for all words of a group. -/
theorem rseRnatAddr_wordAt (n : Nat) : rseRnatAddr (wordAt n) = wordAt (n / 64 * 64 + 63) := by
  have mask : ((0x3f : Word 64) <<< 3).toNat = 504 := rfl
  have split : 8 * n = 2 ^ 9 * (n / 64) + 8 * (n % 64) := by omega
  have low : 8 * (n % 64) ||| 504 = 504 := by
    have all : ∀ r < 64, 8 * r ||| 504 = 504 := by decide
    exact all _ (Nat.mod_lt _ (by decide))
  apply BitVec.eq_of_toNat_eq
  rw [rseRnatAddr, BitVec.toNat_or, mask, wordAt, wordAt, BitVec.toNat_ofNat, BitVec.toNat_ofNat]
  have wraps : 8 * n % 2 ^ 64 = 2 ^ 9 * (n / 64 % 2 ^ 55) + 8 * (n % 64) := by omega
  rw [wraps, Nat.two_pow_add_eq_or_of_lt (by omega), Nat.or_assoc, low,
    ← Nat.two_pow_add_eq_or_of_lt (by decide)]
  omega

theorem rseRnatAddr_succ (ordinary : ¬Collects n) :
    rseRnatAddr (wordAt (n + 1)) = rseRnatAddr (wordAt n) := by
  rw [Collects] at ordinary
  rw [rseRnatAddr_wordAt, rseRnatAddr_wordAt, show (n + 1) / 64 = n / 64 by omega]

end Words

/-! ## Any number of registers -/

section Signed

/-- The sum of `rse_skip_regs`, in integers. -/
def rseSkipSum (addr numRegs : ℤ) : ℤ :=
  let delta := addr / 8 % 64 + numRegs
  let delta := if numRegs < 0 then delta - 0x3e else delta
  addr + 8 * (numRegs + delta.tdiv 0x3f)

/-- It is an address, so that the result of `rse_skip_regs` does not wrap. -/
def SkipFits (addr : Word 64) (numRegs : ℤ) : Prop :=
  0 ≤ rseSkipSum addr.toNat numRegs ∧ rseSkipSum addr.toNat numRegs < 2 ^ 64

instance (addr : Word 64) (numRegs : ℤ) : Decidable (SkipFits addr numRegs) :=
  inferInstanceAs (Decidable (_ ∧ _))

variable {w : ℕ} {n m d : ℤ}

/-- With the correction, the division that truncates rounds down for negative numbers as well. -/
theorem rseSkipSum_eq (w : ℕ) (n : ℤ) :
    rseSkipSum (8 * w) n = 8 * (w + n + (w % 64 + n) / 63) := by
  have slot : (8 * w : ℤ) / 8 = w := by omega
  rw [rseSkipSum, slot]
  by_cases negative : n < 0
  · simp only [if_pos negative]
    have rounds : (w % 64 + n - 0x3e).tdiv 0x3f = (w % 64 + n) / 63 := by
      have := Int.neg_tdiv (w % 64 + n - 0x3e) 0x3f
      have := Int.tdiv_eq_ediv_of_nonneg (a := -(w % 64 + n - 0x3e)) (b := 0x3f) (by omega)
      omega
    rw [rounds]
    ring
  · simp only [if_neg negative]
    rw [Int.tdiv_eq_ediv_of_nonneg (by omega)]
    ring

theorem toInt_ofInt_of_lt (low : -2 ^ 63 ≤ d) (high : d < 2 ^ 63) :
    (BitVec.ofInt 64 d).toInt = d := by
  rw [BitVec.toInt_ofInt]
  exact Int.bmod_eq_of_le low (by norm_num at high ⊢; exact high)

/-- The quotient of a `long`. -/
theorem sdiv_ofInt (low : -2 ^ 63 ≤ d) (high : d < 2 ^ 63) :
    (BitVec.ofInt 64 d).sdiv 0x3f = BitVec.ofInt 64 (d.tdiv 0x3f) := by
  have divisor : (0x3f : Word 64).toInt = 0x3f := by decide
  apply BitVec.eq_of_toInt_eq
  rw [BitVec.toInt_sdiv, BitVec.toInt_ofInt (d.tdiv 0x3f), toInt_ofInt_of_lt low high, divisor]

theorem ofInt_shift (n : ℤ) : BitVec.ofInt 64 n <<< 3 = BitVec.ofInt 64 (8 * n) := by
  rw [BitVec.shiftLeft_eq_mul_twoPow, mul_comm 8 n, BitVec.ofInt_mul]
  rfl

theorem wordAt_eq_ofInt (w : ℕ) : wordAt w = BitVec.ofInt 64 (8 * w) := by
  rw [wordAt, ← BitVec.ofInt_natCast]
  push_cast
  rfl

/-- The sum in words is the one in integers, reduced. -/
theorem rseSkipRegs_ofInt (low : -2 ^ 62 < n) (high : n < 2 ^ 62) :
    rseSkipRegs (wordAt w) (BitVec.ofInt 64 n) = BitVec.ofInt 64 (rseSkipSum (8 * w) n) := by
  have sign : (BitVec.ofInt 64 n).slt 0 = decide (n < 0) := by
    rw [BitVec.slt_eq_decide, toInt_ofInt_of_lt (by omega) (by omega)]
    rfl
  have slot : rseSlotNum (wordAt w) = BitVec.ofInt 64 ((8 * w : ℤ) / 8 % 64) := by
    rw [rseSlotNum_wordAt, ← BitVec.ofInt_natCast]
    congr 1
    omega
  have correction (x : ℤ) : BitVec.ofInt 64 x - 0x3e = BitVec.ofInt 64 (x - 0x3e) := by
    rw [BitVec.sub_eq_add_neg, sub_eq_add_neg, BitVec.ofInt_add]
    rfl
  rw [rseSkipRegs, rseSkipSum, slot, sign, wordAt_eq_ofInt]
  simp only [decide_eq_true_eq, ← BitVec.ofInt_add, correction]
  rw [← apply_ite (BitVec.ofInt 64), sdiv_ofInt (by split <;> omega) (by split <;> omega),
    ← BitVec.ofInt_add, ofInt_shift, ← BitVec.ofInt_add]

/-- An aligned address is that of a word. -/
theorem wordAt_of_aligned {addr : Word 64} (aligned : addr.toNat % 8 = 0) :
    ∃ w < 2 ^ 61, addr = wordAt w ∧ addr.toNat = 8 * w := by
  have inside := addr.isLt
  refine ⟨addr.toNat / 8, by omega, BitVec.eq_of_toNat_eq ?_, by omega⟩
  rw [wordAt, BitVec.toNat_ofNat]
  omega

/-- The word that a skip leads to whose result does not wrap. -/
theorem SkipFits.word {addr : Word 64} (is : addr.toNat = 8 * w)
    (fits : SkipFits addr n) :
    ∃ w' : ℕ, w' < 2 ^ 61 ∧ (w' : ℤ) = w + n + (w % 64 + n) / 63 ∧
      rseSkipRegs (wordAt w) (BitVec.ofInt 64 n) = wordAt w' := by
  rw [SkipFits, is, Nat.cast_mul, Nat.cast_ofNat, rseSkipSum_eq] at fits
  obtain ⟨low, high⟩ := fits
  refine ⟨(w + n + (w % 64 + n) / 63).toNat, by omega, by omega, ?_⟩
  rw [rseSkipRegs_ofInt (by omega) (by omega), rseSkipSum_eq, wordAt_eq_ofInt]
  congr 1
  omega

/-- Skipping registers leads to registers, it is additive, and what it skips is counted. -/
theorem rseSkipRegs_laws (addr : Word 64) (n m : ℤ) (aligned : addr.toNat % 8 = 0)
    (ordinary : ¬RseIsRnatSlot addr) (fits : SkipFits addr n) :
    ¬RseIsRnatSlot (rseSkipRegs addr (BitVec.ofInt 64 n)) ∧
      (SkipFits (rseSkipRegs addr (BitVec.ofInt 64 n)) m →
        rseSkipRegs (rseSkipRegs addr (BitVec.ofInt 64 n)) (BitVec.ofInt 64 m) =
          rseSkipRegs addr (BitVec.ofInt 64 (n + m))) ∧
      (0 ≤ n → rseNumRegs addr (rseSkipRegs addr (BitVec.ofInt 64 n)) = BitVec.ofInt 64 n) := by
  obtain ⟨w, below, rfl, is⟩ := wordAt_of_aligned aligned
  rw [rseIsRnatSlot_wordAt, Collects] at ordinary
  obtain ⟨w', below', word, skipped⟩ := fits.word is
  rw [skipped]
  refine ⟨?lands, ?additive, ?counted⟩
  case lands =>
    rw [rseIsRnatSlot_wordAt, Collects]
    omega
  case additive =>
    intro fits'
    have is' : (wordAt w').toNat = 8 * w' := by
      rw [wordAt, BitVec.toNat_ofNat]
      omega
    obtain ⟨w'', below'', word', skipped'⟩ := fits'.word is'
    have sum : (w'' : ℤ) = w + (n + m) + (w % 64 + (n + m)) / 63 := by omega
    rw [skipped', rseSkipRegs_ofInt (by omega) (by omega), rseSkipSum_eq, ← sum, wordAt_eq_ofInt]
  case counted =>
    intro forwards
    obtain ⟨k, rfl⟩ := Int.eq_ofNat_of_zero_le forwards
    have isSkip : w' = w + skip w k := by
      rw [skip]
      omega
    rw [isSkip, rseNumRegs_wordAt w (by omega), count_skip, BitVec.ofInt_natCast]

/-- Two registers before the end of a group, forwards over its last slot and back again. -/
theorem rseSkipRegs_laws_group :
    ¬RseIsRnatSlot (rseSkipRegs 0x101e8 (BitVec.ofInt 64 5)) ∧
      rseSkipRegs (rseSkipRegs 0x101e8 (BitVec.ofInt 64 5)) (BitVec.ofInt 64 (-70)) =
        rseSkipRegs 0x101e8 (BitVec.ofInt 64 (5 + -70)) ∧
      rseNumRegs 0x101e8 (rseSkipRegs 0x101e8 (BitVec.ofInt 64 5)) = BitVec.ofInt 64 5 := by
  obtain ⟨lands, additive, counted⟩ := rseSkipRegs_laws 0x101e8 5 (-70) (by decide) (by decide)
    (by decide)
  exact ⟨lands, additive (by decide), counted (by decide)⟩

end Signed

end Libunwind.Ia64
