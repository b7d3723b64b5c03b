import Libunwind.A64.Step
import Libunwind.Library.Bytes

/-! # PLT entries on aarch64

`_is_plt_entry` reads two words of eight bytes each, of which the instruction at `ip` tells the
place. It says that `ip` is in a PLT entry exactly when there is one around it.
-/

namespace Libunwind.AArch64

open Dwarf

/-! ## Patterns -/

/-- `struct instruction_entry` -/
structure InstructionEntry where
  pattern : BitVec 32
  mask : BitVec 32

def InstructionEntry.IsMatch (e : InstructionEntry) (insn : BitVec 32) : Prop :=
  insn &&& e.mask = e.pattern

/-- Literals are the numbers of the four instructions. -/
instance neZeroInstructions : NeZero 4 := ⟨by decide⟩

/-- `instructions` -/
def instructions : Fin 4 → InstructionEntry
  | 0 => ⟨0x90000010, 0x9f00001f⟩
  | 1 => ⟨0xf9400211, 0xffc003ff⟩
  | 2 => ⟨0x91000210, 0xff8003ff⟩
  | 3 => ⟨0xd61f0220, 0xffffffff⟩

/-- An instruction that matches two patterns has the bits that both of them fix. -/
theorem InstructionEntry.IsMatch.agree {e e' : InstructionEntry} {insn : BitVec 32}
    (first : e.IsMatch insn) (second : e'.IsMatch insn) :
    e.pattern &&& e'.mask = e'.pattern &&& e.mask := by
  rw [← first, ← second, BitVec.and_assoc, BitVec.and_comm e.mask, BitVec.and_assoc]

/-- No instruction matches two of the four. -/
theorem isMatch_unique {insn : BitVec 32} {k k' : Fin 4} (first : (instructions k).IsMatch insn)
    (second : (instructions k').IsMatch insn) : k = k' := by
  have apart : ∀ k k', (instructions k).pattern &&& (instructions k').mask =
      (instructions k').pattern &&& (instructions k).mask → k = k' := by decide
  exact apart k k' (first.agree second)

/-! ## Words of two instructions -/

section Words

variable (lo hi mask pattern : BitVec 32)

theorem append_and : (hi ++ lo) &&& mask.setWidth 64 = (lo &&& mask).setWidth 64 := by
  apply BitVec.eq_of_getLsbD_eq
  intro i inside
  simp
  grind

theorem append_shift : (hi ++ lo) >>> 32 = hi.setWidth 64 := by
  apply BitVec.eq_of_getLsbD_eq
  intro i inside
  simp
  grind

variable {lo hi mask pattern}

theorem setWidth_inj : lo.setWidth 64 = hi.setWidth 64 ↔ lo = hi := by
  constructor
  · intro same
    have same := congrArg (BitVec.setWidth 32) same
    simpa using same
  · rintro rfl
    rfl

/-- The first instruction of a word is compared, -/
theorem first_isMatch (e : InstructionEntry) :
    ((hi ++ lo) &&& e.mask.setWidth 64 == e.pattern.setWidth 64) = true ↔ e.IsMatch lo := by
  rw [beq_iff_eq, append_and, setWidth_inj]
  rfl

/-- or the second one. -/
theorem second_isMatch (e : InstructionEntry) :
    ((hi ++ lo) >>> 32 &&& e.mask.setWidth 64 == e.pattern.setWidth 64) = true ↔
      e.IsMatch hi := by
  rw [beq_iff_eq, append_shift, ← BitVec.setWidth_and, setWidth_inj]
  rfl

theorem isPltStart_append : isPltStart (hi ++ lo) = true ↔
    (instructions 0).IsMatch lo ∧ (instructions 1).IsMatch hi := by
  rw [isPltStart, Bool.and_eq_true]
  exact and_congr (first_isMatch (instructions 0)) (second_isMatch (instructions 1))

theorem isPltEnd_append : isPltEnd (hi ++ lo) = true ↔
    (instructions 2).IsMatch lo ∧ (instructions 3).IsMatch hi := by
  rw [isPltEnd, Bool.and_eq_true]
  exact and_congr (first_isMatch (instructions 2)) (second_isMatch (instructions 3))

theorem isMiddle_append : (isLdr (hi ++ lo) && isAdd ((hi ++ lo) >>> 32)) = true ↔
    (instructions 1).IsMatch lo ∧ (instructions 2).IsMatch hi := by
  rw [Bool.and_eq_true]
  exact and_congr (first_isMatch (instructions 1)) (second_isMatch (instructions 2))

theorem isBr_append : isBr (hi ++ lo) = true ↔ (instructions 3).IsMatch lo :=
  first_isMatch (instructions 3)

end Words

/-! ## Memory -/

section Memory

variable (byte : Word 64 → Byte) (addr : Word 64)

/-- The instruction at an address. -/
def insnAt : BitVec 32 :=
  Bytes.word 32 false [byte addr, byte (addr + 1), byte (addr + 2), byte (addr + 3)]

/-- What `access_mem` reads. -/
def doublewordAt : Word 64 :=
  Bytes.word 64 false [byte addr, byte (addr + 1), byte (addr + 2), byte (addr + 3),
    byte (addr + 4), byte (addr + 5), byte (addr + 6), byte (addr + 7)]

/-- A little-endian address space of these bytes, all of which can be read. -/
def littleEndian (as : AddrSpace 64) : AddrSpace 64 :=
  { as with bigEndian := false, accessMem := fun addr => .ok (doublewordAt byte addr) }

/-- The four instructions from here on match the patterns. -/
def IsPltAt : Prop :=
  (instructions 0).IsMatch (insnAt byte addr) ∧ (instructions 1).IsMatch (insnAt byte (addr + 4)) ∧
    (instructions 2).IsMatch (insnAt byte (addr + 8)) ∧
    (instructions 3).IsMatch (insnAt byte (addr + 12))

theorem doublewordAt_eq :
    doublewordAt byte addr = insnAt byte (addr + 4) ++ insnAt byte addr := by
  have after (n n' : Word 64) (sum : 4 + n = n') : addr + 4 + n = addr + n' := by
    rw [BitVec.add_assoc, sum]
  have first : 8 * [byte addr, byte (addr + 1), byte (addr + 2), byte (addr + 3)].length = 32 := rfl
  rw [insnAt, insnAt, doublewordAt, after 1 5 rfl, after 2 6 rfl, after 3 7 rfl]
  simp only [Bytes.word, Bool.false_eq_true, if_false]
  rw [Bytes.append_numbers first]
  rfl

theorem accessMem_littleEndian (as : AddrSpace 64) :
    (littleEndian byte as).accessMem addr =
      .ok (insnAt byte (addr + 4) ++ insnAt byte addr) := congrArg Except.ok (doublewordAt_eq byte addr)

end Memory

/-- The four places of `ip` in a PLT entry, by what is read around it. -/
theorem isPltAt_places (byte : Word 64 → Byte) (ip : Word 64) :
    (IsPltAt byte (ip - 4) ↔ (instructions 0).IsMatch (insnAt byte (ip - 4)) ∧
      (instructions 1).IsMatch (insnAt byte ip) ∧
      (instructions 2).IsMatch (insnAt byte (ip + 4)) ∧
      (instructions 3).IsMatch (insnAt byte (ip + 8))) ∧
    (IsPltAt byte (ip - 8) ↔ (instructions 0).IsMatch (insnAt byte (ip - 8)) ∧
      (instructions 1).IsMatch (insnAt byte (ip - 4)) ∧
      (instructions 2).IsMatch (insnAt byte ip) ∧
      (instructions 3).IsMatch (insnAt byte (ip + 4))) ∧
    (IsPltAt byte (ip - 12) ↔ (instructions 0).IsMatch (insnAt byte (ip - 12)) ∧
      (instructions 1).IsMatch (insnAt byte (ip - 8)) ∧
      (instructions 2).IsMatch (insnAt byte (ip - 4)) ∧
      (instructions 3).IsMatch (insnAt byte ip)) := by
  have moved (back on : Word 64) : ip - back + on = ip + (on - back) := by ring
  have less (m n : Word 64) (same : m = -n) : ip + m = ip - n := by rw [same, sub_eq_add_neg]
  have here : ip + 0 = ip := add_zero ip
  simp only [IsPltAt, moved]
  refine ⟨?_, ?_, ?_⟩
  · rw [show (4 - 4 : Word 64) = 0 from rfl, here]
    rfl
  · rw [show (8 - 8 : Word 64) = 0 from rfl, here, less (4 - 8) 4 rfl]
    rfl
  · rw [show (12 - 12 : Word 64) = 0 from rfl, here, less (4 - 12) 8 rfl, less (8 - 12) 4 rfl]

/-- The recogniser is exact: where it says yes, `ip` is at one of the four instructions of a PLT
    entry, and only there. -/
theorem isPltEntry_iff (byte : Word 64 → Byte) (as : AddrSpace 64) (c : A64Cursor) :
    isPltEntry (littleEndian byte as) c = true ↔
      IsPltAt byte c.ip ∨ IsPltAt byte (c.ip - 4) ∨ IsPltAt byte (c.ip - 8) ∨
        IsPltAt byte (c.ip - 12) := by
  obtain ⟨second, third, fourth⟩ := isPltAt_places byte c.ip
  have ahead (m n k : Word 64) (sum : m + n = k) : c.ip + m + n = c.ip + k := by
    rw [BitVec.add_assoc, sum]
  have behind (m n k : Word 64) (sum : n - m = -k) : c.ip - m + n = c.ip - k := by
    rw [sub_eq_add_neg c.ip k, ← sum]
    ring
  have little : (littleEndian byte as).bigEndian = false := rfl
  have here : c.ip - 4 + 4 = c.ip := BitVec.sub_add_cancel _ _
  -- the instruction at `ip` is in one place of an entry at most
  have other {k : Fin 4} (isMatch : (instructions k).IsMatch (insnAt byte c.ip)) (k' : Fin 4)
      (different : k ≠ k') : ¬(instructions k').IsMatch (insnAt byte c.ip) :=
    fun also => different (isMatch_unique isMatch also)
  rw [second, third, fourth, IsPltAt]
  simp only [isPltEntry, little, Bool.false_eq_true, if_false, accessMem_littleEndian, pltHalves,
    Except.toOption, Option.map_some, Option.bind_eq_bind, Option.bind_some, Option.pure_def]
  split_ifs with start finish middle last
  · rw [isPltStart_append] at start
    have no1 := other start.1 1 (by decide)
    have no2 := other start.1 2 (by decide)
    have no3 := other start.1 3 (by decide)
    rw [Bool.and_eq_true, isPltStart_append, isPltEnd_append, ahead 8 4 12 rfl]
    simp only [start, no1, no2, no3, true_and, and_false, false_and, or_false, and_true]
  · rw [isPltEnd_append] at finish
    have no0 := other finish.1 0 (by decide)
    have no1 := other finish.1 1 (by decide)
    have no3 := other finish.1 3 (by decide)
    rw [Bool.and_eq_true, isPltStart_append, isPltEnd_append, behind 8 4 4 rfl]
    simp only [finish, no0, no1, no3, and_false, false_and, or_false, false_or, and_true]
  · rw [isMiddle_append] at middle
    have no0 := other middle.1 0 (by decide)
    have no2 := other middle.1 2 (by decide)
    have no3 := other middle.1 3 (by decide)
    rw [Bool.and_eq_true, isPltStart_append, isPltEnd_append, here, ahead 4 4 8 rfl]
    simp only [middle, no0, no2, no3, true_and, and_false, false_and, or_false, false_or, and_true]
  · rw [isBr_append] at last
    have no0 := other last 0 (by decide)
    have no1 := other last 1 (by decide)
    have no2 := other last 2 (by decide)
    rw [Bool.and_eq_true, isPltStart_append, isPltEnd_append, here, behind 12 4 8 rfl]
    simp only [last, no0, no1, no2, and_false, false_and, false_or, and_true, and_assoc]
  · rw [isPltStart_append] at start
    rw [isPltEnd_append] at finish
    rw [isMiddle_append] at middle
    rw [isBr_append] at last
    have noEnd : isPltEnd 0 = false := by decide
    dsimp only
    rw [noEnd, Bool.and_false]
    refine iff_of_false Bool.false_ne_true ?_
    rintro (⟨m0, m1, -⟩ | ⟨-, m1, m2, -⟩ | ⟨-, -, m2, m3⟩ | ⟨-, -, -, m3⟩)
    · exact start ⟨m0, m1⟩
    · exact middle ⟨m1, m2⟩
    · exact finish ⟨m2, m3⟩
    · exact last m3

end Libunwind.AArch64
