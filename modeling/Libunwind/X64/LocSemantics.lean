import Libunwind.Library.Bytes
import Libunwind.X64.Step

/-! # Locations of the two builds

In the local-only build of x86_64 a register location is the address of its slot in the
`ucontext_t`, and a location is null by its value alone. The generic build tags register
locations, and hands them to `access_reg`, which goes to the same slot.
-/

namespace Libunwind.X86_64

open Dwarf

/-! ## The process -/

/-- The memory that the local accessors reach, and what `as_arg` packs. -/
structure ContextProcess where
  byte : Word 64 → Byte
  mapped : Word 64 → Bool
  /-- `unw_address_is_valid`, for a word. -/
  addressIsValid : Word 64 → Bool
  uc : Word 64
  validate : Bool

/-- Where `uc_mcontext.gregs` has a register. -/
def slotOffset : Int → Option (Word 64)
  | 0 => some 0x90
  | 1 => some 0x88
  | 2 => some 0x98
  | 3 => some 0x80
  | 4 => some 0x70
  | 5 => some 0x68
  | 6 => some 0x78
  | 7 => some 0xa0
  | 8 => some 0x28
  | 9 => some 0x30
  | 10 => some 0x38
  | 11 => some 0x40
  | 12 => some 0x48
  | 13 => some 0x50
  | 14 => some 0x58
  | 15 => some 0x60
  | 16 => some 0xa8
  | _ => none

/-- `x86_64_r_uc_addr` -/
def rUcAddr (uc : Word 64) (reg : Int) : Word 64 :=
  match slotOffset reg with
  | some off => uc + off
  | none => 0

namespace ContextProcess

variable (p : ContextProcess)

def wordAddrs (addr : Word 64) : List (Word 64) :=
  (List.range 8).map fun i => addr + BitVec.ofNat 64 i

def wordAt (addr : Word 64) : Word 64 := Bytes.word 64 false ((wordAddrs addr).map p.byte)

/-- A word that `memcpy` copies out of memory. -/
def load (addr : Word 64) : Result (Word 64) :=
  if (wordAddrs addr).all p.mapped then .ok (p.wordAt addr) else .error .undefined

/-- A word that `memcpy` copies into memory. -/
def store (addr val : Word 64) : Result Unit × ContextProcess :=
  if (wordAddrs addr).all p.mapped then
    (.ok (), { p with byte := fun a =>
      let i := (a - addr).toNat
      if i < 8 then (val >>> (8 * i)).setWidth 8 else p.byte a })
  else (.error .undefined, p)

/-- `access_mem`, for reading. -/
def accessMem (addr : Word 64) : Result (Word 64) :=
  if p.validate && !p.addressIsValid addr then .error (.err .unspec) else p.load addr

/-- `access_reg`, for reading. -/
def accessReg (reg : Int) : Result (Word 64) :=
  let addr := rUcAddr p.uc reg
  if addr = 0 then .error (.err .badreg) else p.load addr

/-- `access_reg`, for writing; `access_mem` writes without a check. -/
def writeReg (reg : Int) (val : Word 64) : Result Unit × ContextProcess :=
  let addr := rUcAddr p.uc reg
  if addr = 0 then (.error (.err .badreg), p) else p.store addr val

end ContextProcess

/-! ## The header -/

/-- `DWARF_IS_VAL_LOC` -/
def isVal (loc : Loc 64) : Bool := loc.type == .val

/-- `DWARF_GET_REG_LOC` -/
def getRegLoc (loc : Loc 64) : Int := (loc.val.setWidth 32).toInt

/-- `DWARF_REG_LOC` -/
def regLoc (localOnly : Bool) (uc : Word 64) (r : BitVec 32) : Loc 64 :=
  if localOnly then memLoc (rUcAddr uc r.toInt) else ⟨r.signExtend 64, .reg⟩

namespace ContextProcess

variable (p : ContextProcess) (localOnly : Bool) (loc : Loc 64)

/-- `dwarf_get` -/
def get : Result (Word 64) :=
  if loc.isNull localOnly then .error (.err .badreg)
  else if loc.isReg then p.accessReg (getRegLoc loc)
  else if loc.type = .mem then p.accessMem loc.val
  else pure loc.val

/-- `dwarf_put` -/
def put (val : Word 64) : Result Unit × ContextProcess :=
  if isVal loc then (.error .undefined, p)
  else if loc.isNull localOnly then (.error (.err .badreg), p)
  else if loc.isReg then p.writeReg (getRegLoc loc) val
  else p.store loc.val val

end ContextProcess

/-- What the step code builds a location of. -/
inductive Place where
  | null
  | mem (addr : Word 64)
  | reg (r : BitVec 32)
  | val (val : Word 64)
  deriving DecidableEq, Repr

/-- The location that a build makes of it. -/
def Place.loc (localOnly : Bool) (uc : Word 64) : Place → Loc 64
  | null => nullLoc
  | mem addr => memLoc addr
  | reg r => regLoc localOnly uc r
  | val v => ⟨v, .val⟩

/-- The accessors, as a cursor calls them. -/
def ContextProcess.space (p : ContextProcess) : AddrSpace 64 where
  bigEndian := false
  readByte addr := .ok (p.byte addr)
  accessMem addr :=
    if p.validate && !p.addressIsValid addr then .error .unspec else .ok (p.wordAt addr)
  accessReg reg :=
    if rUcAddr p.uc reg = 0 then .error .badreg else .ok (p.wordAt (rUcAddr p.uc reg))
  accessFpreg _ := .error .badreg

/-! ## The two builds -/

/-- Both builds read the same, and write the same. -/
structure SameAccess (p : ContextProcess) (place : Place) : Prop where
  get : p.get true (place.loc true p.uc) = p.get false (place.loc false p.uc)
  put : ∀ val, p.put true (place.loc true p.uc) val = p.put false (place.loc false p.uc) val

/-- The macros that test a location tell the same. -/
structure SameTests (uc : Word 64) (place : Place) : Prop where
  null : (place.loc true uc).isNull true = (place.loc false uc).isNull false
  reg : (place.loc true uc).isReg = (place.loc false uc).isReg
  val : isVal (place.loc true uc) = isVal (place.loc false uc)

/-- The slots of the registers can be read, also where reads are validated. -/
def ContextProcess.HoldsContext (p : ContextProcess) : Prop :=
  ∀ r off, slotOffset r = some off →
    p.uc + off ≠ 0 ∧ (p.validate = true → p.addressIsValid (p.uc + off) = true)

variable {p : ContextProcess} {place : Place}

@[simp] theorem getRegLoc_regLoc (uc : Word 64) (r : BitVec 32) :
    getRegLoc (regLoc false uc r) = r.toInt := by
  have back : (r.signExtend 64).setWidth 32 = r := by
    ext i inside
    rw [BitVec.getElem_setWidth, BitVec.getLsbD_signExtend]
    simp [inside, show i < 64 by omega]
  simp [getRegLoc, regLoc, back]

/-! ## Accesses -/

namespace ContextProcess

@[simp] theorem get_nullLoc (p : ContextProcess) (localOnly : Bool) :
    p.get localOnly nullLoc = .error (.err .badreg) := by
  simp [get]

@[simp] theorem put_nullLoc (p : ContextProcess) (localOnly : Bool) (val : Word 64) :
    p.put localOnly nullLoc val = (.error (.err .badreg), p) := by
  simp only [put, Loc.isNull_nullLoc, if_true]
  simp [isVal, nullLoc]

@[simp] theorem get_memLoc (p : ContextProcess) (localOnly : Bool) (addr : Word 64) :
    p.get localOnly (memLoc addr) =
      if addr = 0 then .error (.err .badreg) else p.accessMem addr := by
  simp [get, memLoc, Loc.isNull, Loc.isReg]

@[simp] theorem put_memLoc (p : ContextProcess) (localOnly : Bool) (addr val : Word 64) :
    p.put localOnly (memLoc addr) val =
      if addr = 0 then (.error (.err .badreg), p) else p.store addr val := by
  simp [put, memLoc, Loc.isNull, Loc.isReg, isVal]

theorem get_regLoc (p : ContextProcess) (r : BitVec 32) :
    p.get false (regLoc false p.uc r) = p.accessReg r.toInt := by
  rw [get, getRegLoc_regLoc]
  simp [regLoc, Loc.isNull, Loc.isReg]

theorem put_regLoc (p : ContextProcess) (r : BitVec 32) (val : Word 64) :
    p.put false (regLoc false p.uc r) val = p.writeReg r.toInt val := by
  rw [put, getRegLoc_regLoc]
  simp [regLoc, Loc.isNull, Loc.isReg, isVal]

/-- Only a slot can be the address of a register. -/
theorem HoldsContext.accessMem (held : p.HoldsContext) {r : Int} (slot : rUcAddr p.uc r ≠ 0) :
    p.accessMem (rUcAddr p.uc r) = p.load (rUcAddr p.uc r) := by
  cases found : slotOffset r with
  | none => simp [rUcAddr, found] at slot
  | some off =>
      obtain ⟨-, valid⟩ := held r off found
      cases flag : p.validate with
      | false => simp [ContextProcess.accessMem, flag]
      | true => simp [ContextProcess.accessMem, rUcAddr, found, valid flag]

/-- Where no access faults, this is how cursors read their locations. -/
theorem get_space (p : ContextProcess) (all : ∀ addr, p.mapped addr = true) (localOnly : Bool)
    (place : Place) :
    p.get localOnly (place.loc localOnly p.uc) =
      (place.loc localOnly p.uc).get localOnly p.space := by
  have load (addr : Word 64) : p.load addr = .ok (p.wordAt addr) := by
    rw [ContextProcess.load, if_pos]
    simp [all]
  have ofMem (addr : Word 64) : ofAccess (p.space.accessMem addr) = p.accessMem addr := by
    simp only [space, accessMem, load]
    split <;> rfl
  have ofReg (reg : Int) : ofAccess (p.space.accessReg reg) = p.accessReg reg := by
    simp only [space, accessReg, load]
    split <;> rfl
  rw [get, Loc.get]
  cases place with
  | null => simp [Place.loc]
  | mem addr => simp [Place.loc, memLoc, Loc.isReg, ofMem]
  | reg r =>
      cases localOnly <;> simp [Place.loc, regLoc, memLoc, Loc.isReg, ofMem, ofReg, getRegLoc]
  | val v => rfl

end ContextProcess

theorem sameAccess_reg (held : p.HoldsContext) (r : BitVec 32) : SameAccess p (.reg r) := by
  have slot : Place.loc true p.uc (.reg r) = memLoc (rUcAddr p.uc r.toInt) := rfl
  constructor
  · rw [slot, ContextProcess.get_memLoc, Place.loc, ContextProcess.get_regLoc, ContextProcess.accessReg]
    split
    next => rfl
    next real => exact held.accessMem real
  · intro val
    rw [slot, ContextProcess.put_memLoc, Place.loc, ContextProcess.put_regLoc,
      ContextProcess.writeReg]

theorem sameAccess (held : p.HoldsContext) (nonzero : place ≠ .val 0) : SameAccess p place := by
  cases place with
  | null => constructor <;> simp [Place.loc]
  | mem addr => constructor <;> simp [Place.loc]
  | reg r => exact sameAccess_reg held r
  | val v =>
      have nonzero : v ≠ 0#64 := by simpa using nonzero
      constructor
      · simp [Place.loc, ContextProcess.get, Loc.isNull, Loc.isReg, nonzero]
      · simp [Place.loc, ContextProcess.put, isVal]

/-! ## Tests -/

theorem isVal_loc (localOnly : Bool) (uc : Word 64) (place : Place) :
    isVal (place.loc localOnly uc) = true ↔ ∃ v, place = .val v := by
  cases place with
  | null => simp [Place.loc, isVal, nullLoc]
  | mem addr => simp [Place.loc, isVal, memLoc]
  | reg r => cases localOnly <;> simp [Place.loc, isVal, regLoc, memLoc]
  | val v => simp [Place.loc, isVal]

theorem isReg_loc (localOnly : Bool) (uc : Word 64) (place : Place) :
    (place.loc localOnly uc).isReg = true ↔ localOnly = false ∧ ∃ r, place = .reg r := by
  cases place with
  | null => simp [Place.loc, Loc.isReg, nullLoc]
  | mem addr => simp [Place.loc, Loc.isReg, memLoc]
  | reg r => cases localOnly <;> simp [Place.loc, Loc.isReg, regLoc, memLoc]
  | val v => simp [Place.loc, Loc.isReg]

/-- A location is null where it is made null, or where the null pointer is its address. -/
theorem isNull_loc (held : p.HoldsContext) (nonzero : place ≠ .val 0)
    (slot : ∀ r, place = .reg r → ∃ off, slotOffset r.toInt = some off) (localOnly : Bool) :
    (place.loc localOnly p.uc).isNull localOnly = true ↔ place = .null ∨ place = .mem 0 := by
  cases place with
  | null => simp [Place.loc]
  | mem addr => simp [Place.loc, Loc.isNull, memLoc]
  | reg r =>
      obtain ⟨off, found⟩ := slot r rfl
      obtain ⟨real, -⟩ := held _ off found
      cases localOnly with
      | false => simp [Place.loc, Loc.isNull, regLoc]
      | true => simpa [Place.loc, Loc.isNull, regLoc, memLoc, rUcAddr, found] using real
  | val v =>
      have nonzero : v ≠ 0#64 := by simpa using nonzero
      simp [Place.loc, Loc.isNull, nonzero]

/-- The builds agree on the locations of the step code, a value of 0 apart. That a location is one
    of a register only the generic build can tell. -/
theorem locs_agree (held : p.HoldsContext) (nonzero : place ≠ .val 0) :
    SameAccess p place ∧
      ((∀ r, place = .reg r → ∃ off, slotOffset r.toInt = some off) →
        (place.loc true p.uc).isNull true = (place.loc false p.uc).isNull false) ∧
      isVal (place.loc true p.uc) = isVal (place.loc false p.uc) ∧
      (place.loc true p.uc).isReg = false ∧
      ((place.loc false p.uc).isReg = true ↔ ∃ r, place = .reg r) := by
  refine ⟨sameAccess held nonzero, fun slot => ?_, ?_, ?_, ?_⟩
  · apply Bool.eq_iff_iff.mpr
    simp only [isNull_loc held nonzero slot]
  · apply Bool.eq_iff_iff.mpr
    simp only [isVal_loc]
  · apply Bool.eq_false_iff.mpr
    simp [isReg_loc]
  · simp [isReg_loc]

/-- A process whose context is on its stack. -/
def stackProcess : ContextProcess where
  byte _ := 0
  mapped _ := true
  addressIsValid _ := true
  uc := 0x7fff0000
  validate := true

theorem slotOffset_le {r : Int} {off : Word 64} (found : slotOffset r = some off) :
    off.toNat ≤ 0xa8 := by
  unfold slotOffset at found
  split at found <;> cases found <;> decide

theorem stackProcess_holdsContext : stackProcess.HoldsContext := by
  intro r off found
  have small := slotOffset_le found
  refine ⟨fun zero => ?_, fun _ => rfl⟩
  have zero : (0x7fff0000 + off : Word 64) = 0 := zero
  bv_omega

theorem stackProcess_rsp_agrees :
    SameAccess stackProcess (.reg 7) ∧
      (Place.loc true stackProcess.uc (.reg 7)).isReg = false :=
  have agree := locs_agree stackProcess_holdsContext (show Place.reg 7 ≠ .val 0 by simp)
  ⟨agree.1, agree.2.2.2.1⟩

theorem stackProcess_rsp_tests : ¬SameTests stackProcess.uc (.reg 7) := by
  intro same
  exact absurd same.reg (by decide)

end Libunwind.X86_64
