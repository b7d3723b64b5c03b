import Libunwind.Basic
import Libunwind.Library.BitField

/-! # Instructions that make and drop frames

A fragment of the A64 instruction set, on the general registers and memory: additions to and
subtractions from a register, and the loads and stores that move their base. All other
instructions are a parameter. Code is executed in order, so that no branch is taken.
-/

namespace Libunwind.AArch64

/-- The general registers, of which 31 is the stack pointer, and memory by bytes. -/
structure Cpu where
  reg : BitVec 5 → Word 64
  mem : Word 64 → Byte

namespace Cpu

def sp (c : Cpu) : Word 64 := c.reg 31

/-- Register 31 is zero where it is not an address. -/
def data (c : Cpu) (r : BitVec 5) : Word 64 := if r = 31 then 0 else c.reg r

def setReg (c : Cpu) (r : BitVec 5) (value : Word 64) : Cpu :=
  { c with reg := Function.update c.reg r value }

def setData (c : Cpu) (r : BitVec 5) (value : Word 64) : Cpu :=
  if r = 31 then c else c.setReg r value

/-- The doubleword at an address, least significant byte first. -/
def load (c : Cpu) (addr : Word 64) : Word 64 :=
  BitVec.ofFnLE fun i : Fin 64 =>
    (c.mem (addr + BitVec.ofNat 64 (i / 8))).getLsbD (i % 8)

def store (c : Cpu) (addr value : Word 64) : Cpu :=
  { c with mem := fun a =>
      if (a - addr).toNat < 8 then (value >>> (8 * (a - addr).toNat)).setWidth 8 else c.mem a }

@[simp] theorem setReg_same (c : Cpu) (r : BitVec 5) (value : Word 64) :
    (c.setReg r value).reg r = value := by
  simp [setReg]

theorem setReg_other (c : Cpu) {r s : BitVec 5} (other : s ≠ r) (value : Word 64) :
    (c.setReg r value).reg s = c.reg s := by
  simp [setReg, other]

@[simp] theorem setReg_mem (c : Cpu) (r : BitVec 5) (value : Word 64) :
    (c.setReg r value).mem = c.mem := rfl

@[simp] theorem store_reg (c : Cpu) (addr value : Word 64) : (c.store addr value).reg = c.reg := rfl

@[simp] theorem setData_sp (c : Cpu) (r : BitVec 5) (value : Word 64) :
    (c.setData r value).reg 31 = c.reg 31 := by
  unfold setData
  split
  · rfl
  · next other => exact c.setReg_other (Ne.symm other) value

@[simp] theorem setData_mem (c : Cpu) (r : BitVec 5) (value : Word 64) :
    (c.setData r value).mem = c.mem := by
  unfold setData
  split
  · rfl
  · rfl

theorem load_congr {c c' : Cpu} {addr : Word 64}
    (same : ∀ i < 8, c.mem (addr + BitVec.ofNat 64 i) = c'.mem (addr + BitVec.ofNat 64 i)) :
    c.load addr = c'.load addr := by
  unfold load
  congr 1
  funext i
  rw [same _ (by omega)]

theorem store_mem (c : Cpu) (addr value : Word 64) {k : Nat} (inside : k < 8) :
    (c.store addr value).mem (addr + BitVec.ofNat 64 k) =
      (value >>> (8 * k)).setWidth 8 := by
  have near : (addr + BitVec.ofNat 64 k - addr).toNat = k := by
    rw [add_sub_cancel_left, BitVec.toNat_ofNat]
    omega
  simp only [store, near, inside, if_true]

theorem load_store_same (c : Cpu) (addr value : Word 64) :
    (c.store addr value).load addr = value := by
  apply BitVec.eq_of_getLsbD_eq
  intro i inside
  have position : 8 * (i / 8) + i % 8 = i := by omega
  rw [load, BitVec.getLsbD_ofFnLE, dif_pos inside, c.store_mem addr value (by omega),
    BitVec.getLsbD_setWidth, BitVec.getLsbD_ushiftRight, position]
  simp [Nat.mod_lt]

theorem load_store_below (c : Cpu) (addr value : Word 64) :
    (c.store (addr + 8) value).load addr = c.load addr := by
  apply load_congr
  intro i inside
  have far : ¬ (addr + BitVec.ofNat 64 i - (addr + 8)).toNat < 8 := by bv_omega
  simp only [store, if_neg far]

end Cpu

/-! ## Fields of an instruction -/

/-- `len` bits of an instruction. -/
def field (insn : BitVec 32) (low len : Nat) : BitVec len := insn.extractLsb' low len

/-- What the masks of the trackers say about a field that they cover. -/
theorem field_of_masked {insn mask value : BitVec 32} (masked : insn &&& mask = value)
    {low len : Nat} (covered : field mask low len = BitVec.allOnes len) :
    field insn low len = field value low len := by
  have cut := congrArg (fun word => field word low len) masked
  simp only [field, BitVec.extractLsb'_and] at cut covered ⊢
  rwa [covered, BitVec.and_allOnes] at cut

def rd (insn : BitVec 32) : BitVec 5 := field insn 0 5
def rn (insn : BitVec 32) : BitVec 5 := field insn 5 5
def rt2 (insn : BitVec 32) : BitVec 5 := field insn 10 5

/-- Add or subtract (immediate), 64-bit and without flags. -/
def IsAddSub (insn : BitVec 32) : Prop :=
  field insn 31 1 = 1 ∧ field insn 29 1 = 0 ∧ field insn 23 6 = 0b100010

/-- Load or store pair, of 64-bit general registers. -/
def IsPair (insn : BitVec 32) : Prop := field insn 25 7 = 0b1010100

/-- Load or store register (immediate post-indexed or pre-indexed), 64-bit general. -/
def IsIndexed (insn : BitVec 32) : Prop :=
  field insn 24 8 = 0b11111000 ∧ field insn 23 1 = 0 ∧ field insn 21 1 = 0 ∧ field insn 10 1 = 1

instance decidableIsAddSub (insn : BitVec 32) : Decidable (IsAddSub insn) :=
  inferInstanceAs (Decidable (_ ∧ _))

instance decidableIsPair (insn : BitVec 32) : Decidable (IsPair insn) :=
  inferInstanceAs (Decidable (_ = _))

instance decidableIsIndexed (insn : BitVec 32) : Decidable (IsIndexed insn) :=
  inferInstanceAs (Decidable (_ ∧ _))

/-- The bits of a field are bits of the instruction. -/
theorem bit_of_field {insn : BitVec 32} {low len : Nat} {value : BitVec len}
    (same : field insn low len = value) {i : Nat} (inside : i < len) :
    insn.getLsbD (low + i) = value.getLsbD i := by
  simp [← same, field, inside]

theorem IsPair.notAddSub {insn : BitVec 32} (pair : IsPair insn) : ¬ IsAddSub insn := by
  intro addSub
  have clear : insn.getLsbD (25 + 3) = false := bit_of_field pair (by decide)
  have set : insn.getLsbD (23 + 5) = true := bit_of_field addSub.2.2 (by decide)
  exact Bool.noConfusion (clear.symm.trans set)

theorem IsIndexed.notAddSub {insn : BitVec 32} (indexed : IsIndexed insn) : ¬ IsAddSub insn := by
  intro addSub
  have set : insn.getLsbD (24 + 3) = true := bit_of_field indexed.1 (by decide)
  have clear : insn.getLsbD (23 + 4) = false := bit_of_field addSub.2.2 (by decide)
  exact Bool.noConfusion (clear.symm.trans set)

theorem IsIndexed.notPair {insn : BitVec 32} (indexed : IsIndexed insn) : ¬ IsPair insn := by
  intro pair
  have set : insn.getLsbD (24 + 6) = true := bit_of_field indexed.1 (by decide)
  have clear : insn.getLsbD (25 + 5) = false := bit_of_field pair (by decide)
  exact Bool.noConfusion (clear.symm.trans set)

/-- The immediate of an addition, which may be shifted. -/
def addend (insn : BitVec 32) : Word 64 :=
  (field insn 10 12).setWidth 64 <<< (if field insn 22 1 = 1 then 12 else 0)

/-- The scaled offset of a load or store pair. -/
def pairOffset (insn : BitVec 32) : Word 64 := (field insn 15 7).signExtend 64 * 8

/-- The unscaled offset of an indexed load or store. -/
def indexOffset (insn : BitVec 32) : Word 64 := (field insn 12 9).signExtend 64

/-- The modes of a load or store pair. -/
def IsPostIndex (insn : BitVec 32) : Prop := field insn 23 2 = 0b01
def IsPreIndex (insn : BitVec 32) : Prop := field insn 23 2 = 0b11

instance decidableIsPostIndex (insn : BitVec 32) : Decidable (IsPostIndex insn) :=
  inferInstanceAs (Decidable (_ = _))

instance decidableIsPreIndex (insn : BitVec 32) : Decidable (IsPreIndex insn) :=
  inferInstanceAs (Decidable (_ = _))

def IsLoad (insn : BitVec 32) : Prop := field insn 22 1 = 1

instance decidableIsLoad (insn : BitVec 32) : Decidable (IsLoad insn) :=
  inferInstanceAs (Decidable (_ = _))

namespace Cpu

variable (c : Cpu) (insn : BitVec 32)

def execAddSub : Cpu :=
  let base := c.reg (rn insn)
  c.setReg (rd insn) (if field insn 30 1 = 1 then base - addend insn else base + addend insn)

/-- Where a load or store pair accesses memory. -/
def pairAddr : Word 64 :=
  if IsPostIndex insn then c.reg (rn insn) else c.reg (rn insn) + pairOffset insn

def execPair : Cpu :=
  let base := c.reg (rn insn)
  let addr := c.pairAddr insn
  let moved :=
    if IsLoad insn then
      (c.setData (rd insn) (c.load addr)).setData (rt2 insn) (c.load (addr + 8))
    else (c.store addr (c.data (rd insn))).store (addr + 8) (c.data (rt2 insn))
  if IsPostIndex insn ∨ IsPreIndex insn then moved.setReg (rn insn) (base + pairOffset insn)
  else moved

def execIndexed : Cpu :=
  let base := c.reg (rn insn)
  let addr := if field insn 11 1 = 1 then base + indexOffset insn else base
  let moved :=
    if IsLoad insn then c.setData (rd insn) (c.load addr) else c.store addr (c.data (rd insn))
  moved.setReg (rn insn) (base + indexOffset insn)

/-- One instruction; those outside the fragment do what `other` says. -/
def exec (other : BitVec 32 → Cpu → Cpu) : Cpu :=
  if IsAddSub insn then c.execAddSub insn
  else if IsPair insn then c.execPair insn
  else if IsIndexed insn then c.execIndexed insn
  else other insn c

/-- Instructions in order. -/
def run (other : BitVec 32 → Cpu → Cpu) (code : List (BitVec 32)) : Cpu :=
  code.foldl (fun c insn => c.exec insn other) c

@[simp] theorem run_nil (other : BitVec 32 → Cpu → Cpu) : c.run other [] = c := rfl

@[simp] theorem run_cons (other : BitVec 32 → Cpu → Cpu) (rest : List (BitVec 32)) :
    c.run other (insn :: rest) = (c.exec insn other).run other rest := rfl

end Cpu

end Libunwind.AArch64
