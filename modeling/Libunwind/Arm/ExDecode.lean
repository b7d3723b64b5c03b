import Libunwind.Arm.Ehabi
import Libunwind.Arm.ExTables
import Libunwind.Library.BitField

/-! # Decoding the bytecode

For every instruction of the ABI the decoder makes the command that stands for it. The
masks of its tests select the ranges of opcodes in the table of the ABI.
-/

namespace Libunwind.Arm

open Ehabi

/-! ## Masks -/

section Masks

variable (op : Byte)

theorem toNat_and_c0 : (op &&& 0xc0).toNat = 64 * (op.toNat / 64) :=
  toNat_and_not_mask op (by omega : 6 < 8)

theorem toNat_and_f0 : (op &&& 0xf0).toNat = 16 * (op.toNat / 16) :=
  toNat_and_not_mask op (by omega : 4 < 8)

theorem toNat_and_f8 : (op &&& 0xf8).toNat = 8 * (op.toNat / 8) :=
  toNat_and_not_mask op (by omega : 3 < 8)

theorem toNat_and_3f : (op &&& 0x3f).toNat = op.toNat % 64 :=
  toNat_and_twoPow_sub_one op (by omega : 6 < 8)

theorem toNat_and_0f : (op &&& 0x0f).toNat = op.toNat % 16 :=
  toNat_and_twoPow_sub_one op (by omega : 4 < 8)

theorem toNat_and_07 : (op &&& 0x07).toNat = op.toNat % 8 :=
  toNat_and_twoPow_sub_one op (by omega : 3 < 8)

theorem toNat_and_7f : (op &&& 0x7f).toNat = op.toNat % 128 :=
  toNat_and_twoPow_sub_one op (by omega : 7 < 8)

theorem toNat_and_80 : (op &&& 0x80).toNat = 128 * (op.toNat / 128) :=
  toNat_and_not_mask op (by omega : 7 < 8)

end Masks

section Tests

variable (op : Byte)

theorem and_c0_eq_00 : op &&& 0xc0 = 0x00 ↔ op.toNat < 0x40 := by
  simp only [BitVec.toNat_eq, toNat_and_c0, BitVec.reduceToNat]
  omega

theorem and_c0_eq_40 : op &&& 0xc0 = 0x40 ↔ 0x40 ≤ op.toNat ∧ op.toNat < 0x80 := by
  simp only [BitVec.toNat_eq, toNat_and_c0, BitVec.reduceToNat]
  omega

theorem and_f0_eq_80 : op &&& 0xf0 = 0x80 ↔ 0x80 ≤ op.toNat ∧ op.toNat < 0x90 := by
  simp only [BitVec.toNat_eq, toNat_and_f0, BitVec.reduceToNat]
  omega

theorem and_f0_eq_90 : op &&& 0xf0 = 0x90 ↔ 0x90 ≤ op.toNat ∧ op.toNat < 0xa0 := by
  simp only [BitVec.toNat_eq, toNat_and_f0, BitVec.reduceToNat]
  omega

theorem and_f0_eq_a0 : op &&& 0xf0 = 0xa0 ↔ 0xa0 ≤ op.toNat ∧ op.toNat < 0xb0 := by
  simp only [BitVec.toNat_eq, toNat_and_f0, BitVec.reduceToNat]
  omega

theorem and_f0_ne_zero : op &&& 0xf0 ≠ 0 ↔ 16 ≤ op.toNat := by
  simp only [ne_eq, BitVec.toNat_eq, toNat_and_f0, BitVec.reduceToNat]
  omega

theorem and_f8_eq_b8 : op &&& 0xf8 = 0xb8 ↔ 0xb8 ≤ op.toNat ∧ op.toNat < 0xc0 := by
  simp only [BitVec.toNat_eq, toNat_and_f8, BitVec.reduceToNat]
  omega

theorem and_f8_eq_d0 : op &&& 0xf8 = 0xd0 ↔ 0xd0 ≤ op.toNat ∧ op.toNat < 0xd8 := by
  simp only [BitVec.toNat_eq, toNat_and_f8, BitVec.reduceToNat]
  omega

theorem and_08_ne_zero : op &&& 0x08 ≠ 0 ↔ 8 ≤ op.toNat % 16 := by
  have bit : (op &&& 0x08).toNat = op.toNat &&& 2 ^ 3 := BitVec.toNat_and ..
  have value : op.toNat &&& 2 ^ 3 = 8 * (op.toNat / 8 % 2) := by
    rw [Nat.and_two_pow, Nat.testBit_eq_decide_div_mod_eq]
    cases Nat.mod_two_eq_zero_or_one (op.toNat / 8) with
    | inl even => simp [even]
    | inr odd => simp [odd]
  rw [ne_eq, BitVec.toNat_eq, bit, value]
  simp only [BitVec.reduceToNat]
  omega

end Tests

/-- The command and the data word for an instruction. -/
def Means (edata : ArmExbufData) : Instr → Prop
  | .up offset => edata = ⟨.dataPop, BitVec.ofNat 32 offset⟩
  | .down offset => edata = ⟨.dataPush, BitVec.ofNat 32 offset⟩
  | .refuse => edata.cmd = .refused
  | .popCore regs => edata.cmd = .regPop ∧ (List.range 16).filter edata.data.getLsbD = regs
  | .vspFrom reg => edata = ⟨.regToSp, BitVec.ofNat 32 reg⟩ ∧ reg < 16
  | .finish => edata.cmd = .finish
  | .popDoubles first count format => edata.cmd = .vfpPop ∧ exbufStart edata.data = first % 16 ∧
      exbufCount edata.data + 1 = count ∧ (edata.data &&& vfpDouble = 0 ↔ format = .fstmfdx)
  | .popWmmx count => edata.cmd = .wregPop ∧ exbufCount edata.data + 1 = count
  | .popWmmxControl count =>
      edata.cmd = .wcgrPop ∧ ((List.range 4).filter edata.data.getLsbD).length = count
  | .spare => edata.cmd = .reserved

/-- What is decoded is what is read, with the same bytes behind it. -/
def Decodes (decoded : Result (ArmExbufData × List Byte)) (instrs : Result (Instr × List Byte)) :
    Prop :=
  decoded = .error .undefined ∨
    ∃ edata instr rest, decoded = .ok (edata, rest) ∧ instrs = .ok (instr, rest) ∧
      Means edata instr

theorem Decodes.ok {edata : ArmExbufData} {instr : Instr} {rest : List Byte}
    (means : Means edata instr) : Decodes (.ok (edata, rest)) (.ok (instr, rest)) :=
  Or.inr ⟨edata, instr, rest, rfl, rfl, means⟩

/-- An instruction with a second byte. -/
theorem Decodes.operand {edata : Byte → ArmExbufData} {instr : Nat → Instr} (buf : List Byte)
    (means : ∀ op2 : Byte, Means (edata op2) (instr op2.toNat)) :
    Decodes (do let (op2, buf) ← readOp buf; .ok (edata op2, buf))
      (do let (op2, buf) ← readOperand buf; .ok (instr op2, buf)) := by
  cases buf with
  | nil => exact Or.inl rfl
  | cons op2 buf => exact .ok (means op2)

/-! ## Masks of registers -/

theorem filter_range_mask {low width mask n : Nat} {q : Nat → Bool} (le : low + width ≤ n)
    (inside : ∀ r, low ≤ r → r < low + width → q r = mask.testBit (r - low))
    (outside : ∀ r, r < low ∨ low + width ≤ r → r < n → q r = false) :
    (List.range n).filter q = maskRegs low width mask := by
  have split : List.range n =
      List.range low ++ (List.range' low width ++ List.range' (low + width) (n - (low + width))) := by
    have whole := List.range'_append_1 (s := 0) (m := low) (n := width + (n - (low + width)))
    rw [Nat.zero_add] at whole
    rw [List.range'_append_1, List.range_eq_range', List.range_eq_range', whole]
    congr 1
    omega
  have front : (List.range low).filter q = [] := by
    rw [List.filter_eq_nil_iff]
    intro r member
    have below := List.mem_range.mp member
    simp [outside r (Or.inl below) (by omega)]
  have back : (List.range' (low + width) (n - (low + width))).filter q = [] := by
    rw [List.filter_eq_nil_iff]
    intro r member
    obtain ⟨above, below⟩ := List.mem_range'_1.mp member
    simp [outside r (Or.inr above) (by omega)]
  rw [split, List.filter_append, List.filter_append, front, back, List.nil_append,
    List.append_nil, maskRegs]
  apply List.filter_congr
  intro r member
  obtain ⟨above, below⟩ := List.mem_range'_1.mp member
  exact inside r above below

/-- The registers of `1000iiii iiiiiiii`. -/
theorem filter_pop12 (high low : Byte) :
    (List.range 16).filter
        ((((high &&& 0xf).setWidth 32 <<< 8 ||| low.setWidth 32) <<< 4 : Word 32)).getLsbD =
      maskRegs 4 12 (256 * (high.toNat % 16) + low.toNat) := by
  have value : ((high &&& 0xf).setWidth 32 <<< 8 ||| low.setWidth 32 : Word 32).toNat =
      256 * (high.toNat % 16) + low.toNat := by
    have byte := low.isLt
    have nibble := toNat_and_0f high
    have shifted : ((high &&& 0xf).setWidth 32 <<< 8 : Word 32).toNat =
        (high.toNat % 16) <<< 8 := by
      simp only [BitVec.toNat_shiftLeft, BitVec.toNat_setWidth, nibble, Nat.shiftLeft_eq]
      omega
    have wide : (low.setWidth 32 : Word 32).toNat = low.toNat := by
      rw [BitVec.toNat_setWidth]
      omega
    rw [BitVec.toNat_or, shifted, wide, ← Nat.shiftLeft_add_eq_or_of_lt byte, Nat.shiftLeft_eq]
    omega
  apply filter_range_mask (by omega)
  · intro r above below
    rw [← value, BitVec.testBit_toNat, BitVec.getLsbD_shiftLeft]
    have inWord : r < 32 := by omega
    simp [inWord, above]
  · intro r out inRange
    have low : r < 4 := by omega
    simp [BitVec.getLsbD_shiftLeft, low]

/-- The registers of a mask of four bits. -/
theorem filter_nibble {n : Nat} (le : 4 ≤ n) (mask : Byte) :
    (List.range n).filter ((mask &&& 0x0f).setWidth 32 : Word 32).getLsbD =
      maskRegs 0 4 (mask.toNat % 16) := by
  have value : ((mask &&& 0x0f).setWidth 32 : Word 32).toNat = mask.toNat % 16 := by
    rw [BitVec.toNat_setWidth, toNat_and_0f]
    omega
  apply filter_range_mask (by omega)
  · intro r above below
    rw [← value, BitVec.testBit_toNat, Nat.sub_zero]
  · intro r out inRange
    rw [← BitVec.testBit_toNat, value]
    apply Nat.testBit_lt_two_pow
    calc mask.toNat % 16 < 2 ^ 4 := Nat.mod_lt _ (by omega)
      _ ≤ 2 ^ r := Nat.pow_le_pow_right (by omega) (by omega)

/-- The registers of `1010lnnn`. -/
theorem filter_fromFour {last : Nat} (small : last < 8) :
    (List.range 16).filter ((1#32 <<< (last + 1) - 1) <<< 4).getLsbD =
        List.range' 4 (last + 1) ∧
      (List.range 16).filter ((1#32 <<< (last + 1) - 1) <<< 4 ||| 1#32 <<< 14).getLsbD =
        List.range' 4 (last + 1) ++ [14] := by
  decide +revert

/-! ## The offset of `0xb2` -/

/-- Bits that are or'ed in above a number add to it. -/
theorem or_shifted {offset x : Word 32} {shift : Nat} (below : offset.toNat < 2 ^ shift) :
    offset ||| (x <<< shift) = offset + (x <<< shift) := by
  apply (BitVec.add_eq_or_of_and_eq_zero _ _ _).symm
  apply BitVec.eq_of_getLsbD_eq
  intro i _
  rw [BitVec.getLsbD_and, BitVec.getLsbD_zero, BitVec.getLsbD_shiftLeft]
  by_cases low : i < shift
  · simp [low]
  · have clear : offset.getLsbD i = false := by
      rw [← BitVec.testBit_toNat]
      exact Nat.testBit_lt_two_pow (below.trans_le (Nat.pow_le_pow_right (by omega) (by omega)))
    simp [clear]

theorem readOffset_cases (offset : Word 32) (shift : Nat) (buf : List Byte)
    (below : offset.toNat < 2 ^ shift) :
    readOffset offset shift buf = .error .undefined ∨
      ∃ value rest, readUleb buf = .ok (value, rest) ∧
        readOffset offset shift buf = .ok (offset + BitVec.ofNat 32 (2 ^ shift * value), rest) := by
  induction buf generalizing offset shift with
  | nil => exact Or.inl rfl
  | cons byte buf ih =>
      by_cases wide : 32 ≤ shift
      · simp [readOffset, wide]
      · have septet : (byte &&& 0x7f).setWidth 32 <<< shift =
            BitVec.ofNat 32 (2 ^ shift * (byte.toNat % 128)) := by
          apply BitVec.eq_of_toNat_eq
          simp only [BitVec.toNat_shiftLeft, BitVec.toNat_setWidth, toNat_and_7f,
            BitVec.toNat_ofNat, Nat.shiftLeft_eq]
          rw [Nat.mod_eq_of_lt (by omega : byte.toNat % 128 < 2 ^ 32), Nat.mul_comm]
        have more : byte &&& 0x80 ≠ 0 ↔ 128 ≤ byte.toNat := by
          have small := byte.isLt
          rw [ne_eq, BitVec.toNat_eq, toNat_and_80]
          simp
        have added := or_shifted (x := (byte &&& 0x7f).setWidth 32) below
        rw [septet] at added
        by_cases last : byte.toNat < 128
        · refine Or.inr ⟨byte.toNat, buf, by simp [readUleb, last], ?_⟩
          have ends : ¬ byte &&& 0x80 ≠ 0 := by
            rw [more]
            omega
          rw [readOffset, if_neg wide, if_neg ends, septet, added, Nat.mod_eq_of_lt last]
        · have goesOn : byte &&& 0x80 ≠ 0 := more.mpr (by omega)
          have bound : (offset + BitVec.ofNat 32 (2 ^ shift * (byte.toNat % 128))).toNat <
              2 ^ (shift + 7) := by
            rw [BitVec.toNat_add, BitVec.toNat_ofNat]
            have septetBound : 2 ^ shift * (byte.toNat % 128) ≤ 2 ^ shift * 127 :=
              Nat.mul_le_mul_left _ (by omega)
            have power : 2 ^ (shift + 7) = 2 ^ shift * 128 := Nat.pow_add ..
            have reduced := Nat.mod_le (2 ^ shift * (byte.toNat % 128)) (2 ^ 32)
            have := Nat.mod_le (offset.toNat + 2 ^ shift * (byte.toNat % 128) % 2 ^ 32) (2 ^ 32)
            omega
          rw [readOffset, if_neg wide, if_pos goesOn, septet, added]
          cases ih _ (shift + 7) bound with
          | inl undefined => exact Or.inl undefined
          | inr read =>
              obtain ⟨value, rest, high, offsets⟩ := read
              refine Or.inr ⟨byte.toNat % 128 + 128 * value, rest, ?_, ?_⟩
              · simp [readUleb, last, high]
              · have sum : 2 ^ shift * (byte.toNat % 128 + 128 * value) =
                    2 ^ shift * (byte.toNat % 128) + 2 ^ (shift + 7) * value := by
                  rw [Nat.pow_add]
                  ring
                rw [offsets, sum, BitVec.ofNat_add, BitVec.add_assoc]

/-! ## The instructions -/

section Rows

variable {op : Byte} (buf : List Byte)

theorem offset_eq (op : Byte) : (((op &&& 0x3f).setWidth 32 <<< 2) + 4 : Word 32) =
    BitVec.ofNat 32 (4 * (op.toNat % 64) + 4) := by
  apply BitVec.eq_of_toNat_eq
  simp only [BitVec.toNat_add, BitVec.toNat_shiftLeft, BitVec.toNat_setWidth, toNat_and_3f,
    BitVec.toNat_ofNat, BitVec.reduceToNat, Nat.shiftLeft_eq]
  omega

theorem decodes_up (below : op.toNat < 0x40) :
    Decodes (decodeOp op buf) (readInstr op.toNat buf) := by
  simp (disch := omega) only [decodeOp, readInstr, and_c0_eq_00, if_pos]
  have offset : op.toNat % 64 = op.toNat := by omega
  apply Decodes.ok
  rw [offset_eq, offset]
  rfl

theorem decodes_down (above : 0x40 ≤ op.toNat) (below : op.toNat < 0x80) :
    Decodes (decodeOp op buf) (readInstr op.toNat buf) := by
  simp (disch := omega) only [decodeOp, readInstr, and_c0_eq_00, and_c0_eq_40, if_pos, if_neg]
  have offset : op.toNat % 64 = op.toNat - 0x40 := by omega
  apply Decodes.ok
  rw [offset_eq, offset]
  rfl

theorem decodes_pop12 (above : 0x80 ≤ op.toNat) (below : op.toNat < 0x90) :
    Decodes (decodeOp op buf) (readInstr op.toNat buf) := by
  simp (disch := omega) only [decodeOp, readInstr, and_c0_eq_00, and_c0_eq_40, and_f0_eq_80,
    if_pos, if_neg]
  cases buf with
  | nil => exact Or.inl rfl
  | cons op2 buf =>
      have high : op.toNat - 0x80 = op.toNat % 16 := by omega
      simp only [readOp, readOperand, ok_bind, high]
      by_cases refused : op = 0x80 ∧ op2 = 0x00
      · obtain ⟨rfl, rfl⟩ := refused
        exact .ok rfl
      · have some' : 256 * (op.toNat % 16) + op2.toNat ≠ 0 := by
          intro zero
          apply refused
          simp only [BitVec.toNat_eq, BitVec.reduceToNat]
          omega
        rw [if_neg refused, if_neg some']
        exact .ok ⟨rfl, filter_pop12 op op2⟩

theorem decodes_vspFrom (above : 0x90 ≤ op.toNat) (below : op.toNat < 0xa0) :
    Decodes (decodeOp op buf) (readInstr op.toNat buf) := by
  simp (disch := omega) only [decodeOp, readInstr, and_c0_eq_00, and_c0_eq_40, and_f0_eq_80,
    and_f0_eq_90, if_pos, if_neg]
  simp only [BitVec.toNat_eq, BitVec.reduceToNat]
  by_cases reserved : op.toNat = 0x9d ∨ op.toNat = 0x9f
  · rw [if_pos reserved, if_pos reserved]
    exact .ok rfl
  · rw [if_neg reserved, if_neg reserved]
    apply Decodes.ok
    have data : (op &&& 0x0f).setWidth 32 = BitVec.ofNat 32 (op.toNat - 0x90) := by
      apply BitVec.eq_of_toNat_eq
      rw [BitVec.toNat_setWidth, toNat_and_0f, BitVec.toNat_ofNat]
      omega
    exact ⟨by rw [data], by omega⟩

theorem decodes_popFour (above : 0xa0 ≤ op.toNat) (below : op.toNat < 0xb0) :
    Decodes (decodeOp op buf) (readInstr op.toNat buf) := by
  simp (disch := omega) only [decodeOp, readInstr, and_c0_eq_00, and_c0_eq_40, and_f0_eq_80,
    and_f0_eq_90, and_f0_eq_a0, if_pos, if_neg, and_08_ne_zero, toNat_and_07]
  have masks := filter_fromFour (Nat.mod_lt op.toNat (by omega : 8 > 0))
  by_cases link : 8 ≤ op.toNat % 16
  · have last : op.toNat - 0xa8 = op.toNat % 8 := by omega
    simp (disch := omega) only [if_pos, if_neg, last]
    exact .ok ⟨rfl, masks.2⟩
  · have last : op.toNat - 0xa0 = op.toNat % 8 := by omega
    simp (disch := omega) only [if_pos, if_neg, last]
    exact .ok ⟨rfl, masks.1⟩

/-- A range of registers, and the flags above it. -/
def Range (data : Word 32) (first count : Nat) (format : VfpFormat) : Prop :=
  exbufStart data = first ∧ exbufCount data = count ∧
    (data &&& vfpDouble = 0 ↔ format = .fstmfdx)

instance (data : Word 32) (first count : Nat) (format : VfpFormat) :
    Decidable (Range data first count format) := inferInstanceAs (Decidable (_ ∧ _))

set_option maxRecDepth 4000 in
theorem range_operand (op2 : Byte) :
    Range (op2.setWidth 32) (op2.toNat / 16) (op2.toNat % 16) .fstmfdx ∧
    Range (op2.setWidth 32 ||| vfpDouble) (op2.toNat / 16) (op2.toNat % 16) .vpush ∧
    Range (op2.setWidth 32 ||| vfpShift16 ||| vfpDouble) (op2.toNat / 16) (op2.toNat % 16)
      .vpush := by
  decide +revert

set_option maxRecDepth 4000 in
theorem range_short (op : Byte) :
    Range (0x80 ||| (op &&& 0x07).setWidth 32) 8 (op.toNat % 8) .fstmfdx ∧
    Range (0x80 ||| (op &&& 0x07).setWidth 32 ||| vfpDouble) 8 (op.toNat % 8) .vpush ∧
    exbufCount (0xa0 ||| (op &&& 0x07).setWidth 32) = op.toNat % 8 := by
  decide +revert

theorem decodes_vfp {data : Word 32} {first start count : Nat} {format : VfpFormat}
    (range : Range data start count format) (same : first % 16 = start) :
    Decodes (.ok (⟨.vfpPop, data⟩, buf)) (.ok (.popDoubles first (count + 1) format, buf)) :=
  .ok ⟨rfl, range.1.trans same.symm, congrArg (· + 1) range.2.1, range.2.2⟩

/-- The opcodes with a mask of four registers behind them. -/
theorem decodes_nibble {cmd : ArmExbufCmd} (instr : Nat → Instr) (op2 : Byte)
    (means : Means ⟨cmd, (op2 &&& 0x0f).setWidth 32⟩ (instr (op2.toNat % 16))) :
    Decodes (if op2.toNat = 0 ∨ 16 ≤ op2.toNat then .ok (⟨.reserved, 0⟩, buf)
        else .ok (⟨cmd, (op2 &&& 0x0f).setWidth 32⟩, buf))
      (.ok (if 0 < op2.toNat ∧ op2.toNat < 16 then instr op2.toNat else .spare, buf)) := by
  by_cases reserved : op2.toNat = 0 ∨ 16 ≤ op2.toNat
  · simp (disch := omega) only [if_pos, if_neg]
    exact .ok rfl
  · have whole : op2.toNat % 16 = op2.toNat := by omega
    rw [whole] at means
    simp (disch := omega) only [if_pos, if_neg]
    exact .ok means

theorem decodes_high (above : 0xb0 ≤ op.toNat) :
    Decodes (decodeOp op buf) (readInstr op.toNat buf) := by
  simp only [decodeOp, readInstr, and_c0_eq_00, and_c0_eq_40, and_f0_eq_80, and_f0_eq_90,
    and_f0_eq_a0, and_f8_eq_b8, and_f8_eq_d0, and_f0_ne_zero]
  simp only [ne_eq, BitVec.toNat_eq, BitVec.le_def, BitVec.reduceToNat]
  have rows : op.toNat = 0xb0 ∨ op.toNat = 0xb1 ∨ op.toNat = 0xb2 ∨ op.toNat = 0xb3 ∨
      (0xb4 ≤ op.toNat ∧ op.toNat < 0xb8) ∨ (0xb8 ≤ op.toNat ∧ op.toNat < 0xc0) ∨
      (0xc0 ≤ op.toNat ∧ op.toNat < 0xc6) ∨ op.toNat = 0xc6 ∨ op.toNat = 0xc7 ∨
      op.toNat = 0xc8 ∨ op.toNat = 0xc9 ∨ (0xca ≤ op.toNat ∧ op.toNat < 0xd0) ∨
      (0xd0 ≤ op.toNat ∧ op.toNat < 0xd8) ∨ 0xd8 ≤ op.toNat := by omega
  rcases rows with row | row | row | row | row | row | row | row | row | row | row | row | row | row
  · simp (disch := omega) only [if_pos, if_neg]
    exact .ok rfl
  · simp (disch := omega) only [if_pos, if_neg]
    cases buf with
    | nil => exact Or.inl rfl
    | cons op2 buf =>
        simp only [readOp, readOperand, ok_bind]
        exact decodes_nibble buf (fun mask => .popCore (maskRegs 0 4 mask)) op2
          ⟨rfl, filter_nibble (by omega) op2⟩
  · simp (disch := omega) only [if_pos, if_neg]
    cases readOffset_cases 0 0 buf (by decide) with
    | inl undefined => exact Or.inl (by rw [undefined]; rfl)
    | inr read =>
        obtain ⟨value, rest, number, offset⟩ := read
        have data : (0 + BitVec.ofNat 32 (2 ^ 0 * value)) * 4 + 0x204 =
            BitVec.ofNat 32 (0x204 + 4 * value) := by
          rw [Nat.pow_zero, Nat.one_mul, zero_add, BitVec.ofNat_add, BitVec.ofNat_mul,
            mul_comm, add_comm]
          rfl
        rw [number, offset]
        simp only [ok_bind, data]
        exact .ok rfl
  · simp (disch := omega) only [if_pos, if_neg]
    cases buf with
    | nil => exact Or.inl rfl
    | cons op2 buf =>
        simp only [readOp, readOperand, ok_bind]
        exact decodes_vfp buf (range_operand op2).1 (by omega)
  · simp (disch := omega) only [if_pos, if_neg]
    exact .ok rfl
  · simp (disch := omega) only [if_pos, if_neg]
    have last : op.toNat - 0xb8 = op.toNat % 8 := by omega
    exact last ▸ decodes_vfp buf (range_short op).1 rfl
  · simp (disch := omega) only [if_pos, if_neg]
    have last : op.toNat - 0xc0 = op.toNat % 8 := by omega
    exact last ▸ .ok ⟨rfl, congrArg (· + 1) (range_short op).2.2⟩
  · simp (disch := omega) only [if_pos, if_neg]
    cases buf with
    | nil => exact Or.inl rfl
    | cons op2 buf => exact .ok ⟨rfl, congrArg (· + 1) (range_operand op2).1.2.1⟩
  · simp (disch := omega) only [if_pos, if_neg]
    cases buf with
    | nil => exact Or.inl rfl
    | cons op2 buf =>
        have control := filter_nibble (by omega : 4 ≤ 4) op2
        simp only [readOp, readOperand, ok_bind]
        exact decodes_nibble buf (fun mask => .popWmmxControl (maskRegs 0 4 mask).length) op2
          ⟨rfl, congrArg List.length control⟩
  · simp (disch := omega) only [if_pos, if_neg]
    cases buf with
    | nil => exact Or.inl rfl
    | cons op2 buf =>
        simp only [readOp, readOperand, ok_bind]
        exact decodes_vfp buf (range_operand op2).2.2 (by omega)
  · simp (disch := omega) only [if_pos, if_neg]
    cases buf with
    | nil => exact Or.inl rfl
    | cons op2 buf =>
        simp only [readOp, readOperand, ok_bind]
        exact decodes_vfp buf (range_operand op2).2.1 (by omega)
  · simp (disch := omega) only [if_pos, if_neg]
    exact .ok rfl
  · simp (disch := omega) only [if_pos, if_neg]
    have last : op.toNat - 0xd0 = op.toNat % 8 := by omega
    exact last ▸ decodes_vfp buf (range_short op).2.1 rfl
  · simp (disch := omega) only [if_pos, if_neg]
    exact .ok rfl

/-- The decoder goes by the table of the ABI. -/
theorem decodeOp_decodes (op : Byte) (buf : List Byte) :
    Decodes (decodeOp op buf) (readInstr op.toNat buf) := by
  have rows : op.toNat < 0x40 ∨ (0x40 ≤ op.toNat ∧ op.toNat < 0x80) ∨
      (0x80 ≤ op.toNat ∧ op.toNat < 0x90) ∨ (0x90 ≤ op.toNat ∧ op.toNat < 0xa0) ∨
      (0xa0 ≤ op.toNat ∧ op.toNat < 0xb0) ∨ 0xb0 ≤ op.toNat := by omega
  rcases rows with row | row | row | row | row | row
  · exact decodes_up buf row
  · exact decodes_down buf row.1 row.2
  · exact decodes_pop12 buf row.1 row.2
  · exact decodes_vspFrom buf row.1 row.2
  · exact decodes_popFour buf row.1 row.2
  · exact decodes_high buf row

end Rows

end Libunwind.Arm
