import Libunwind.Dwarf.Info

/-! # Reading DWARF data

The readers of `dwarf_i.h`. Each takes the address by value and returns what
was read together with the advanced address.
-/

namespace Libunwind.Dwarf

variable {w : Nat}

def readu8 (as : AddrSpace w) (addr : Word w) : Result (Byte × Word w) := do
  let value ← ofAccess (as.readByte addr)
  pure (value, addr + 1)

theorem readu8_byte {as : AddrSpace w} {addr byte} (stored : as.readByte addr = .ok byte) :
    readu8 as addr = .ok (byte, addr + 1) := by
  simp [readu8, stored]

theorem readu8_fails {as : AddrSpace w} {addr code} (fails : as.readByte addr = .error code) :
    readu8 as addr = .error (.err code) := by
  simp [readu8, fails]

/-- Two halves in the order in which the target stores them. -/
def joinHalves (as : AddrSpace w) {half : Nat} (first second : BitVec half) :
    BitVec (half + half) :=
  if as.bigEndian then first ++ second else second ++ first

def readu16 (as : AddrSpace w) (addr : Word w) : Result (BitVec 16 × Word w) := do
  let (first, addr) ← readu8 as addr
  let (second, addr) ← readu8 as addr
  pure (joinHalves as first second, addr)

def readu32 (as : AddrSpace w) (addr : Word w) : Result (BitVec 32 × Word w) := do
  let (first, addr) ← readu16 as addr
  let (second, addr) ← readu16 as addr
  pure (joinHalves as first second, addr)

def readu64 (as : AddrSpace w) (addr : Word w) : Result (BitVec 64 × Word w) := do
  let (first, addr) ← readu32 as addr
  let (second, addr) ← readu32 as addr
  pure (joinHalves as first second, addr)

/-- What the readers of two, four and eight bytes do with those of half as many. -/
def readHalves {half : Nat} (read : AddrSpace w → Word w → Result (BitVec half × Word w))
    (as : AddrSpace w) (addr : Word w) : Result (BitVec (half + half) × Word w) := do
  let first ← read as addr
  let second ← read as first.2
  pure (joinHalves as first.1 second.1, second.2)

/-- `dwarf_readw`: `dwarf_addr_size` is the size of a word, and any size but
    four and eight bytes aborts. -/
def readw (as : AddrSpace w) (addr : Word w) : Result (Word w × Word w) :=
  match w / 8 with
  | 4 => do
      let (value, addr) ← readu32 as addr
      pure (value.setWidth w, addr)
  | 8 => do
      let (value, addr) ← readu64 as addr
      pure (value.setWidth w, addr)
  | _ => .error .undefined

/-- The bytes of a LEB128 number from `addr` on, or'ed into `val` from bit
    `shift` on. Also returns the final shift and the last byte. A shift by the
    width of a word or more is undefined in C, so `w + 1` rounds see the end. -/
def readLeb128 (as : AddrSpace w) :
    Nat → Word w → Word w → Nat → Result (Word w × Nat × Byte × Word w)
  | 0, _, _, _ => .error .timeout
  | rounds + 1, addr, val, shift => do
      let (byte, addr) ← readu8 as addr
      if w ≤ shift then .error .undefined
      else
        let val := val ||| ((byte.setWidth w &&& 0x7f) <<< shift)
        let shift := shift + 7
        if byte &&& 0x80 ≠ 0 then readLeb128 as rounds addr val shift
        else pure (val, shift, byte, addr)

/-- `dwarf_read_uleb128`. -/
def readUleb128 (as : AddrSpace w) (addr : Word w) : Result (Word w × Word w) := do
  let (val, _, _, addr) ← readLeb128 as (w + 1) addr 0 0
  pure (val, addr)

/-- `dwarf_read_sleb128`. -/
def readSleb128 (as : AddrSpace w) (addr : Word w) : Result (Word w × Word w) := do
  let (val, shift, byte, addr) ← readLeb128 as (w + 1) addr 0 0
  if shift < 8 * (w / 8) ∧ byte &&& 0x40 ≠ 0 then
    pure (val ||| ((-1 : Word w) <<< shift), addr)
  else
    pure (val, addr)

/-- The value of an encoded pointer before its application, by the format
    nibble. `DW_EH_PE_sleb128` is read as an unsigned number, as the source does. -/
def readPointerFormat (as : AddrSpace w) (addr : Word w) (encoding : Byte) :
    Result (Word w × Word w) :=
  match (encoding &&& ehPeFormatMask).toNat with
  | 0x00 => readw as addr
  | 0x01 => readUleb128 as addr
  | 0x02 => do
      let (value, addr) ← readu16 as addr
      pure (value.setWidth w, addr)
  | 0x03 => do
      let (value, addr) ← readu32 as addr
      pure (value.setWidth w, addr)
  | 0x04 => do
      let (value, addr) ← readu64 as addr
      pure (value.setWidth w, addr)
  | 0x09 => readUleb128 as addr
  | 0x0a => do
      let (value, addr) ← readu16 as addr
      pure (value.signExtend w, addr)
  | 0x0b => do
      let (value, addr) ← readu32 as addr
      pure (value.signExtend w, addr)
  | 0x0c => do
      let (value, addr) ← readu64 as addr
      pure (value.signExtend w, addr)
  | _ => .error (.err .inval)

/-- The base that the application nibble adds to a nonzero value. -/
def pointerBase (initialAddr : Word w) (encoding : Byte) (pi : ProcInfo w) : Result (Word w) :=
  match (encoding &&& ehPeApplMask).toNat with
  | 0x00 => pure 0
  | 0x10 => pure initialAddr
  | 0x30 => pure pi.gp
  | 0x40 => pure pi.startIp
  | _ => .error (.err .inval)

/-- The pointer that a value read at `initialAddr` stands for. -/
def applyEncoding (as : AddrSpace w) (initialAddr : Word w) (encoding : Byte) (pi : ProcInfo w)
    (val : Word w) : Result (Word w) :=
  -- 0 is a special value and always absolute
  if val = 0 then pure 0
  else do
    let base ← pointerBase initialAddr encoding pi
    let val := val + base
    if encoding &&& ehPeIndirect ≠ 0 then
      let (target, _) ← readw as val
      pure target
    else pure val

/-- `dwarf_read_encoded_pointer`. -/
def readEncodedPointer (as : AddrSpace w) (addr : Word w) (encoding : Byte) (pi : ProcInfo w) :
    Result (Word w × Word w) :=
  if encoding = ehPeOmit then pure (0, addr)
  else if encoding = ehPeAligned then
    let size := BitVec.ofNat w (w / 8)
    readw as ((addr + size - 1) &&& -size)
  else do
    let (val, next) ← readPointerFormat as addr encoding
    let val ← applyEncoding as addr encoding pi val
    pure (val, next)

/-- A memory that holds the bytes from address 0 on, and nothing else. -/
def spaceOfBytes (w : Nat) (bytes : List Byte) : AddrSpace w where
  bigEndian := false
  readByte addr :=
    match bytes[addr.toNat]? with
    | some byte => .ok byte
    | none => .error .inval
  accessMem _ := .error .inval
  accessReg _ := .error .inval
  accessFpreg _ := .error .inval

end Libunwind.Dwarf
