import Libunwind.Dwarf.Cie

/-! # Frame description entries

`dwarf_extract_proc_info_from_fde` reads the FDE at an address, with its CIE,
and fills in the procedure info.
-/

namespace Libunwind.Dwarf

variable {w : Nat}

/-- The length and CIE pointer of an FDE. -/
structure FdeHeader (w : Nat) where
  fdeEnd : Word w
  cieOffsetAddr : Word w
  cieOffset : Word w
  addr : Word w

def readFdeHeader (as : AddrSpace w) (addr : Word w) : Result (FdeHeader w) := do
  let (len, addr) ← readu32 as addr
  if len = 0xffffffff then
    let (len, addr) ← readu64 as addr
    let (cieOffset, next) ← readu64 as addr
    pure
      { fdeEnd := addr + len.setWidth w
        cieOffsetAddr := addr
        cieOffset := cieOffset.signExtend w
        addr := next }
  else if len = 0 then .error (.err .noinfo)
  else
    let (cieOffset, next) ← readu32 as addr
    pure
      { fdeEnd := addr + len.setWidth w
        cieOffsetAddr := addr
        cieOffset := cieOffset.signExtend w
        addr := next }

/-- `is_cie_id`. -/
def isCieId (val : Word w) (isDebugFrame : Bool) : Bool :=
  if isDebugFrame then val == -1 else val == 0

/-- Where the augmentation data ends, if it has a size. -/
def readAugEnd (as : AddrSpace w) (dci : CieInfo w) (addr : Word w) :
    Result (Word w × Word w) :=
  if dci.sizedAugmentation then do
    let (augSize, addr) ← readUleb128 as addr
    pure (addr + augSize, addr)
  else pure (0, addr)

def readAbiMarker (as : AddrSpace w) (dci : CieInfo w) (addr : Word w) :
    Result (CieInfo w × Word w) :=
  if dci.haveAbiMarker then do
    let (abi, addr) ← readu16 as addr
    let (tag, addr) ← readu16 as addr
    pure ({ dci with abi, tag }, addr)
  else pure (dci, addr)

/-- `dwarf_extract_proc_info_from_fde`; also returns the end of the FDE. `granted`
    tells whether the pool has room for the CIE info. -/
def extractProcInfoFromFde (as : AddrSpace w) (addr : Word w) (pi : ProcInfo w) (base : Word w)
    (needUnwindInfo granted isDebugFrame : Bool) : Result (ProcInfo w × Word w) := do
  let header ← readFdeHeader as addr
  -- CIEs are ignored (happens during linear searches)
  if isCieId header.cieOffset isDebugFrame then pure (pi, header.fdeEnd)
  else
    let cieAddr := if isDebugFrame then base + header.cieOffset
      else header.cieOffsetAddr - header.cieOffset
    let dci ← parseCie as cieAddr pi {} isDebugFrame
    let (startIp, addr) ← readEncodedPointer as header.addr dci.fdeEncoding pi
    -- the range has the same format, but is always absolute
    let (ipRange, addr) ← readEncodedPointer as addr (dci.fdeEncoding &&& ehPeFormatMask) pi
    let pi := { pi with startIp, endIp := startIp + ipRange, handler := dci.handler }
    let (augEnd, addr) ← readAugEnd as dci addr
    let (lsda, addr) ← readEncodedPointer as addr dci.lsdaEncoding pi
    let pi := { pi with lsda }
    if !needUnwindInfo then pure (pi, header.fdeEnd)
    else if !granted then .error (.err .nomem)
    else
      let (dci, addr) ← readAbiMarker as dci addr
      let fdeInstrStart := if dci.sizedAugmentation then augEnd else addr
      let dci := { dci with fdeInstrStart, fdeInstrEnd := header.fdeEnd }
      pure ({ pi with format := .table, unwindInfo := some dci }, header.fdeEnd)

end Libunwind.Dwarf
