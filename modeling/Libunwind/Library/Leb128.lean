import Mathlib

/-! # LEB128 numbers

A number in base 128, lowest digit first, each digit but the last in a byte with
its high bit set. A negative number has the digits of its two's complement. The
digits are those of the shortest form.
-/

namespace Leb128

/-- The digits of an unsigned number. -/
def ulebDigits (n : Nat) : List Nat := if n = 0 then [0] else Nat.digits 128 n

/-- A digit is the last one of a signed number if the rest is its sign. -/
def isLast (v : Int) : Prop := v / 128 = 0 ∧ v % 128 < 64 ∨ v / 128 = -1 ∧ 64 ≤ v % 128

instance (v : Int) : Decidable (isLast v) := inferInstanceAs (Decidable (_ ∨ _))

/-- The digits of a signed number. -/
def slebDigits (v : Int) : List Nat :=
  if isLast v then [(v % 128).toNat] else (v % 128).toNat :: slebDigits (v / 128)
termination_by v.natAbs
decreasing_by
  rename_i more
  simp only [isLast] at more
  omega

/-- The bytes of a number with these digits. -/
def encode : List Nat → List (BitVec 8)
  | [] => []
  | [digit] => [BitVec.ofNat 8 digit]
  | digit :: rest => BitVec.ofNat 8 (digit + 128) :: encode rest

theorem encode_cons {digit : Nat} {rest : List Nat} (some : rest ≠ []) :
    encode (digit :: rest) = BitVec.ofNat 8 (digit + 128) :: encode rest := by
  cases rest with
  | nil => exact absurd rfl some
  | cons next rest => rfl

theorem length_encode (digits : List Nat) : (encode digits).length = digits.length := by
  induction digits using encode.induct with
  | case1 => rfl
  | case2 digit => rfl
  | case3 digit rest _ ih => simp [encode, ih]

theorem ulebDigits_ne_nil (n : Nat) : ulebDigits n ≠ [] := by
  rw [ulebDigits]
  split
  · simp
  · simpa [Nat.digits_eq_nil_iff_eq_zero]

theorem ulebDigits_lt {n digit : Nat} (mem : digit ∈ ulebDigits n) : digit < 128 := by
  rw [ulebDigits] at mem
  split at mem
  · obtain rfl := List.mem_singleton.mp mem
    decide
  · exact Nat.digits_lt_base (by decide) mem

theorem ofDigits_ulebDigits (n : Nat) : Nat.ofDigits 128 (ulebDigits n) = n := by
  rw [ulebDigits]
  split
  · simp_all
  · exact Nat.ofDigits_digits 128 n

theorem slebDigits_ne_nil (v : Int) : slebDigits v ≠ [] := by
  rw [slebDigits]
  split <;> simp

theorem slebDigits_lt {v : Int} : ∀ digit ∈ slebDigits v, digit < 128 := by
  induction v using slebDigits.induct with
  | case1 v last =>
      intro digit mem
      rw [slebDigits, if_pos last, List.mem_singleton] at mem
      omega
  | case2 v more ih =>
      intro digit mem
      rw [slebDigits, if_neg more, List.mem_cons] at mem
      cases mem with
      | inl first => omega
      | inr later => exact ih digit later

/-- The number of digits is enough for the two's complement. -/
theorem slebDigits_bounds (v : Int) :
    -(128 ^ (slebDigits v).length : Int) ≤ 2 * v ∧ 2 * v < 128 ^ (slebDigits v).length := by
  induction v using slebDigits.induct with
  | case1 v last =>
      rw [slebDigits, if_pos last]
      simp only [isLast] at last
      simp only [List.length_singleton, pow_one]
      omega
  | case2 v more ih =>
      have positive : (slebDigits (v / 128)).length ≠ 0 := by simp [slebDigits_ne_nil]
      have even : (2 : Int) ∣ 128 ^ (slebDigits (v / 128)).length :=
        dvd_pow (by decide) positive
      rw [slebDigits, if_neg more, List.length_cons, pow_succ]
      omega

theorem emod_mul_of_pos (v : Int) {b m : Int} (posBase : 0 < b) (pos : 0 < m) :
    v % (b * m) = v % b + b * (v / b % m) := by
  have low := Int.emod_nonneg v posBase.ne'
  have small := Int.emod_lt_of_pos v posBase
  have high := Int.emod_nonneg (v / b) pos.ne'
  have below := Int.emod_lt_of_pos (v / b) pos
  have value : v = v % b + b * (v / b % m) + b * m * (v / b / m) := by
    have first := Int.emod_add_mul_ediv v b
    have second := Int.emod_add_mul_ediv (v / b) m
    linear_combination -first - b * second
  conv_lhs => rw [value, Int.add_mul_emod_self_left]
  apply Int.emod_eq_of_lt
  · positivity
  · nlinarith

/-- The digits are those of the two's complement. -/
theorem ofDigits_slebDigits (v : Int) :
    ((Nat.ofDigits 128 (slebDigits v) : Nat) : Int) = v % 128 ^ (slebDigits v).length := by
  induction v using slebDigits.induct with
  | case1 v last =>
      rw [slebDigits, if_pos last]
      simp only [List.length_singleton, pow_one, Nat.ofDigits_singleton]
      omega
  | case2 v more ih =>
      have digit : ((v % 128).toNat : Int) = v % 128 := by omega
      rw [slebDigits, if_neg more, List.length_cons, Nat.ofDigits_cons, pow_succ',
        emod_mul_of_pos v (by decide) (by positivity), ← ih]
      push_cast [digit]
      rfl

/-- The digits fit together without overlap. -/
theorem ofNat_add_mul {w digit : Nat} (small : digit < 128) (rest : Nat) :
    BitVec.ofNat w (digit + 128 * rest) = BitVec.ofNat w digit ||| BitVec.ofNat w rest <<< 7 := by
  have sum : digit + 128 * rest = 2 ^ 7 * rest + digit := Nat.add_comm _ _
  have bits (i : Nat) := Nat.testBit_two_pow_mul_add rest (show digit < 2 ^ 7 from small) i
  apply BitVec.eq_of_getLsbD_eq
  intro i inside
  simp only [sum, BitVec.getLsbD_or, BitVec.getLsbD_shiftLeft, BitVec.getLsbD_ofNat,
    bits, inside, decide_true, Bool.true_and]
  by_cases low : i < 7
  · simp [low]
  · have above : digit.testBit i = false := by
      apply Nat.testBit_lt_two_pow
      calc
        digit < 2 ^ 7 := small
        _ ≤ 2 ^ i := Nat.pow_le_pow_right (by decide) (by omega)
    have within : i - 7 < w := by omega
    simp [low, above, within]

/-! ## The bytes of digits -/

theorem continued_byte {digit : Nat} (small : digit < 128) :
    BitVec.ofNat 8 (digit + 128) &&& 0x7f = BitVec.ofNat 8 digit ∧
      BitVec.ofNat 8 (digit + 128) &&& 0x80 ≠ 0 := by
  revert digit
  decide

theorem last_byte {digit : Nat} (small : digit < 128) :
    BitVec.ofNat 8 digit &&& 0x7f = BitVec.ofNat 8 digit ∧ BitVec.ofNat 8 digit &&& 0x80 = 0 := by
  revert digit
  decide

/-- The seven low bits of a byte, widened. -/
theorem widen_digit {w : Nat} {byte : BitVec 8} {digit : Nat} (small : digit < 128)
    (low : byte &&& 0x7f = BitVec.ofNat 8 digit) :
    byte.setWidth w &&& 0x7f = BitVec.ofNat w digit := by
  have mask : (0x7f : BitVec w) = (0x7f : BitVec 8).setWidth w := by
    apply BitVec.eq_of_toNat_eq
    simp
  have widened : (BitVec.ofNat 8 digit).setWidth w = BitVec.ofNat w digit := by
    apply BitVec.eq_of_toNat_eq
    rw [BitVec.toNat_setWidth, BitVec.toNat_ofNat, BitVec.toNat_ofNat,
      Nat.mod_eq_of_lt (by omega : digit < 2 ^ 8)]
  rw [mask, ← BitVec.setWidth_and, low, widened]

/-- Or'ing in a digit, and those above it. -/
theorem or_digits {w digit : Nat} (small : digit < 128) (val : BitVec w) (shift rest : Nat) :
    val ||| (BitVec.ofNat w digit <<< shift) ||| (BitVec.ofNat w rest <<< (shift + 7)) =
      val ||| (BitVec.ofNat w (digit + 128 * rest) <<< shift) := by
  rw [ofNat_add_mul small, BitVec.shiftLeft_or_distrib, Nat.add_comm shift, BitVec.shiftLeft_add,
    BitVec.or_assoc]

/-! ## Decoding -/

/-- The digits at the front of some bytes, and the bytes behind them. The last
    digit need not be the last of the shortest form. -/
def splitDigits : List (BitVec 8) → Option (List Nat × List (BitVec 8))
  | [] => none
  | byte :: rest =>
      if byte.toNat < 128 then some ([byte.toNat], rest)
      else
        match splitDigits rest with
        | none => none
        | some (digits, rest) => some ((byte.toNat - 128) :: digits, rest)

/-- The signed number of some digits, whose last one has the sign. -/
def signedValue (digits : List Nat) : Int :=
  let unsigned : Nat := Nat.ofDigits 128 digits
  if 64 ≤ digits.getLastD 0 then unsigned - 128 ^ digits.length else unsigned

theorem splitDigits_eq {bytes rest : List (BitVec 8)} {digits : List Nat}
    (split : splitDigits bytes = some (digits, rest)) :
    bytes = encode digits ++ rest ∧ digits ≠ [] ∧ ∀ digit ∈ digits, digit < 128 := by
  induction bytes generalizing digits with
  | nil => cases split
  | cons byte bytes ih =>
      rw [splitDigits] at split
      by_cases last : byte.toNat < 128
      · rw [if_pos last] at split
        cases split
        simp [encode, last]
      · rw [if_neg last] at split
        cases later : splitDigits bytes with
        | none => simp [later] at split
        | some found =>
            obtain ⟨digits', rest'⟩ := found
            simp only [later] at split
            cases split
            obtain ⟨isEncoded, some, small⟩ := ih later
            have value : byte.toNat - 128 + 128 = byte.toNat := by omega
            have byteSmall := byte.isLt
            refine ⟨?_, by simp, ?_⟩
            · rw [encode_cons some, value, isEncoded]
              simp
            · intro digit mem
              cases List.mem_cons.mp mem with
              | inl first => omega
              | inr behind => exact small digit behind

theorem ofDigits_lt {digits : List Nat} (small : ∀ digit ∈ digits, digit < 128) :
    Nat.ofDigits 128 digits < 128 ^ digits.length :=
  Nat.ofDigits_lt_base_pow_length (by decide) small

theorem shiftLeft_neg_one (w n : Nat) : (-1 : BitVec w) <<< n = BitVec.ofInt w (-(2 ^ n)) := by
  have power : BitVec.twoPow w n = BitVec.ofInt w (2 ^ n) := by
    apply BitVec.eq_of_toNat_eq
    rw [BitVec.toNat_twoPow]
    norm_cast
  rw [BitVec.shiftLeft_eq_mul_twoPow, power, BitVec.ofInt_neg]
  exact neg_one_mul _

/-- Setting all bits from the top of a number on makes it negative. -/
theorem or_sign {w n a : Nat} (small : a < 2 ^ n) :
    BitVec.ofNat w a ||| ((-1 : BitVec w) <<< n) = BitVec.ofInt w (a - 2 ^ n) := by
  have disjoint : BitVec.ofNat w a &&& ((-1 : BitVec w) <<< n) = 0#w := by
    apply BitVec.eq_of_getLsbD_eq
    intro i inside
    simp only [BitVec.getLsbD_and, BitVec.getLsbD_ofNat, BitVec.getLsbD_shiftLeft]
    by_cases low : i < n
    · simp [low]
    · have above : a.testBit i = false := by
        apply Nat.testBit_lt_two_pow
        exact lt_of_lt_of_le small (Nat.pow_le_pow_right (by decide) (by omega))
      simp [above]
  rw [← BitVec.add_eq_or_of_and_eq_zero _ _ disjoint, shiftLeft_neg_one, Int.sub_eq_add_neg,
    BitVec.ofInt_add]
  congr 1

/-! ## Shortest forms -/

theorem signedValue_cons (digit : Nat) {rest : List Nat} (some : rest ≠ []) :
    signedValue (digit :: rest) = digit + 128 * signedValue rest := by
  have last : (digit :: rest).getLastD 0 = rest.getLastD 0 := by
    cases rest with
    | nil => exact absurd rfl some
    | cons next rest => rfl
  rw [signedValue, signedValue, last, List.length_cons, pow_succ', Nat.ofDigits_cons]
  push_cast
  split
  · ring
  · ring

theorem signedValue_slebDigits (v : Int) : signedValue (slebDigits v) = v := by
  induction v using slebDigits.induct with
  | case1 v last =>
      rw [slebDigits, if_pos last, signedValue]
      simp only [isLast] at last
      have only : [(v % 128).toNat].getLastD 0 = (v % 128).toNat := rfl
      simp only [only, List.length_singleton, pow_one, Nat.ofDigits_singleton]
      split <;> omega
  | case2 v more ih =>
      rw [slebDigits, if_neg more, signedValue_cons _ (slebDigits_ne_nil _), ih]
      omega

theorem length_ulebDigits_le {n k : Nat} (small : n < 128 ^ (k + 1)) :
    (ulebDigits n).length ≤ k + 1 := by
  rw [ulebDigits]
  split
  · simp
  · exact (Nat.digits_length_le_iff (by decide) n).mpr small

theorem length_slebDigits_le {v : Int} {k : Nat} (low : -(64 * 128 ^ k) ≤ v)
    (high : v < 64 * 128 ^ k) : (slebDigits v).length ≤ k + 1 := by
  induction v using slebDigits.induct generalizing k with
  | case1 v last =>
      rw [slebDigits, if_pos last]
      simp
  | case2 v more ih =>
      simp only [isLast] at more
      cases k with
      | zero =>
          simp only [pow_zero, mul_one] at low high
          omega
      | succ k =>
          rw [slebDigits, if_neg (by simpa only [isLast] using more), List.length_cons]
          rw [pow_succ'] at low high
          apply Nat.succ_le_succ
          apply ih
          · omega
          · omega

end Leb128
