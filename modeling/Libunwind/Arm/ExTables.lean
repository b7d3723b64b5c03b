import Libunwind.Dwarf.Cursor
import Libunwind.Library.WhileLoop

/-! # The bytecode of the ARM unwinding tables

`arm_exidx_decode` makes a command and a data word of each instruction of the exception
handling ABI, and `arm_exidx_apply_cmd` applies it to the cursor.
-/

namespace Libunwind.Arm

/-- `arm_exbuf_cmd_t`. -/
inductive ArmExbufCmd where
  | finish
  | dataPush
  | dataPop
  | regPop
  | regToSp
  | vfpPop
  | wregPop
  | wcgrPop
  | reserved
  | refused
  deriving DecidableEq, Repr

/-- `struct arm_exbuf_data`. -/
structure ArmExbufData where
  cmd : ArmExbufCmd
  data : Word 32
  deriving DecidableEq

/-- `ARM_EXBUF_START`. -/
def exbufStart (data : Word 32) : Nat := (data.toNat / 16) % 16

/-- `ARM_EXBUF_COUNT`. -/
def exbufCount (data : Word 32) : Nat := data.toNat % 16

/-- `ARM_EXIDX_VFP_SHIFT_16`. -/
def vfpShift16 : Word 32 := 1#32 <<< 16

/-- `ARM_EXIDX_VFP_DOUBLE`. -/
def vfpDouble : Word 32 := 1#32 <<< 17

abbrev Cursor (τ : Type) := Dwarf.Cursor 128 32 τ

/-- `UNW_ARM_R0 + i`. -/
def coreSlot (i : Nat) : Fin 128 := Fin.ofNat 128 i

/-- `UNW_ARM_S0 + i`, which is where the location of the VFP register `i` is kept. -/
def vfpSlot (i : Nat) : Fin 128 := Fin.ofNat 128 (64 + i)

variable {τ : Type}

section Apply

variable (localOnly : Bool) (as : AddrSpace 32)

/-- `dwarf_get` where nothing looks at what it returns. -/
def getOr (loc : Dwarf.Loc 32) (old : Word 32) : Word 32 :=
  match loc.get localOnly as with
  | .ok val => val
  | .error _ => old

/-- The locations when something is popped, into the slot where it is kept, if it is. -/
def popLoc (c : Cursor τ) : Option (Fin 128) → Fin 128 → Dwarf.Loc 32
  | some r => Function.update c.loc r (Dwarf.memLoc c.cfa)
  | none => c.loc

/-- Pops of `size` bytes each. -/
def popEach (size : Word 32) : List (Option (Fin 128)) → Cursor τ → Cursor τ
  | [], c => c
  | slot :: slots, c => popEach size slots { c with loc := popLoc c slot, cfa := c.cfa + size }

/-- `arm_exidx_apply_cmd`. -/
def armExidxApplyCmd (edata : ArmExbufData) (c : Cursor τ) : Result (Cursor τ) :=
  match edata.cmd with
  | .finish =>
      let loc := if (c.loc (coreSlot 15)).isNull localOnly then
        Function.update c.loc (coreSlot 15) (c.loc (coreSlot 14)) else c.loc
      .ok { c with loc, ip := getOr localOnly as (loc (coreSlot 15)) c.ip }
  | .dataPush => .ok { c with cfa := c.cfa - edata.data }
  | .dataPop => .ok { c with cfa := c.cfa + edata.data }
  | .regPop =>
      let popped := (List.range 16).filter edata.data.getLsbD
      let c := popEach 4 (popped.map fun i => some (coreSlot i)) c
      .ok (if edata.data.getLsbD 13 then
        { c with cfa := getOr localOnly as (c.loc (coreSlot 13)) c.cfa } else c)
  | .regToSp =>
      if edata.data < 16 then
        let loc := c.loc (coreSlot edata.data.toNat)
        .ok { c with
          loc := Function.update c.loc (coreSlot 13) loc
          cfa := getOr localOnly as loc c.cfa }
      else .error .undefined
  | .vfpPop =>
      let popped := List.range' (exbufStart edata.data) (exbufCount edata.data + 1)
      let c := popEach 8 (popped.map fun i => some (vfpSlot i)) c
      .ok (if edata.data &&& vfpDouble = 0 then { c with cfa := c.cfa + 4 } else c)
  | .wregPop =>
      let popped := List.range' (exbufStart edata.data) (exbufCount edata.data + 1)
      .ok (popEach 8 (popped.map fun _ => none) c)
  | .wcgrPop =>
      let popped := (List.range 4).filter edata.data.getLsbD
      .ok (popEach 4 (popped.map fun _ => none) c)
  | .reserved => .error (.err .unspec)
  | .refused => .error (.err .unspec)

end Apply

/-! ## Decoding -/

/-- `READ_OP`; behind the end of the buffer it reads out of bounds. -/
def readOp : List Byte → Result (Byte × List Byte)
  | [] => .error .undefined
  | op :: buf => .ok (op, buf)

/-- The loop that reads the offset of `0xb2`. A shift by 32 or more is undefined. -/
def readOffset (offset : Word 32) (shift : Nat) : List Byte → Result (Word 32 × List Byte)
  | [] => .error .undefined
  | byte :: buf =>
      if 32 ≤ shift then .error .undefined
      else
        let offset := offset ||| ((byte &&& 0x7f).setWidth 32 <<< shift)
        if byte &&& 0x80 ≠ 0 then readOffset offset (shift + 7) buf else .ok (offset, buf)

/-- What `arm_exidx_decode` makes of an instruction whose first byte is `op`. The commands
    that use no data have what is left from the one before, here 0. -/
def decodeOp (op : Byte) (buf : List Byte) : Result (ArmExbufData × List Byte) :=
  if op &&& 0xc0 = 0x00 then .ok (⟨.dataPop, ((op &&& 0x3f).setWidth 32 <<< 2) + 4⟩, buf)
  else if op &&& 0xc0 = 0x40 then .ok (⟨.dataPush, ((op &&& 0x3f).setWidth 32 <<< 2) + 4⟩, buf)
  else if op &&& 0xf0 = 0x80 then do
    let (op2, buf) ← readOp buf
    if op = 0x80 ∧ op2 = 0x00 then .ok (⟨.refused, 0⟩, buf)
    else .ok (⟨.regPop, (((op &&& 0xf).setWidth 32 <<< 8) ||| op2.setWidth 32) <<< 4⟩, buf)
  else if op &&& 0xf0 = 0x90 then
    if op = 0x9d ∨ op = 0x9f then .ok (⟨.reserved, 0⟩, buf)
    else .ok (⟨.regToSp, (op &&& 0x0f).setWidth 32⟩, buf)
  else if op &&& 0xf0 = 0xa0 then
    let last := (op &&& 0x07).toNat
    let data : Word 32 := ((1#32 <<< (last + 1)) - 1) <<< 4
    .ok (⟨.regPop, if op &&& 0x08 ≠ 0 then data ||| (1#32 <<< 14) else data⟩, buf)
  else if op = 0xb0 then .ok (⟨.finish, 0⟩, [])
  else if op = 0xb1 then do
    let (op2, buf) ← readOp buf
    if op2 = 0 ∨ op2 &&& 0xf0 ≠ 0 then .ok (⟨.reserved, 0⟩, buf)
    else .ok (⟨.regPop, (op2 &&& 0x0f).setWidth 32⟩, buf)
  else if op = 0xb2 then do
    let (offset, buf) ← readOffset 0 0 buf
    .ok (⟨.dataPop, offset * 4 + 0x204⟩, buf)
  else if op = 0xb3 ∨ op = 0xc8 ∨ op = 0xc9 then do
    let (op2, buf) ← readOp buf
    let data : Word 32 := op2.setWidth 32
    let data := if op = 0xc8 then data ||| vfpShift16 else data
    let data := if op ≠ 0xb3 then data ||| vfpDouble else data
    .ok (⟨.vfpPop, data⟩, buf)
  else if op &&& 0xf8 = 0xb8 ∨ op &&& 0xf8 = 0xd0 then
    let data : Word 32 := 0x80 ||| (op &&& 0x07).setWidth 32
    .ok (⟨.vfpPop, if op &&& 0xf8 = 0xd0 then data ||| vfpDouble else data⟩, buf)
  else if 0xc0 ≤ op ∧ op ≤ 0xc5 then .ok (⟨.wregPop, 0xa0 ||| (op &&& 0x07).setWidth 32⟩, buf)
  else if op = 0xc6 then do
    let (op2, buf) ← readOp buf
    .ok (⟨.wregPop, op2.setWidth 32⟩, buf)
  else if op = 0xc7 then do
    let (op2, buf) ← readOp buf
    if op2 = 0 ∨ op2 &&& 0xf0 ≠ 0 then .ok (⟨.reserved, 0⟩, buf)
    else .ok (⟨.wcgrPop, (op2 &&& 0x0f).setWidth 32⟩, buf)
  else .ok (⟨.reserved, 0⟩, buf)

section Decode

variable (localOnly : Bool) (as : AddrSpace 32)

/-- The bytes from `buf` to `end`, and the cursor. -/
abbrev DecodeState (τ : Type) := List Byte × Cursor τ

def decodeGuard (s : DecodeState τ) : Bool := !s.1.isEmpty

/-- A round of the loop of `arm_exidx_decode`. -/
def decodeRound (s : DecodeState τ) : Result (DecodeState τ) := do
  let (op, buf) ← readOp s.1
  let (edata, buf) ← decodeOp op buf
  let c ← armExidxApplyCmd localOnly as edata s.2
  .ok (buf, c)

/-- `arm_exidx_decode`; it asserts that there is something to decode. -/
def armExidxDecode (buf : List Byte) (c : Cursor τ) : Result (Cursor τ) :=
  if buf = [] then .error .undefined
  else (WhileLoop.run .timeout decodeGuard (decodeRound localOnly as) buf.length (buf, c)).map
    Prod.snd

end Decode

end Libunwind.Arm
