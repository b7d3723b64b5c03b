import Libunwind.Basic

/-! # Procedure and CIE information

The records that the table search fills in and the frame-instruction
interpreter reads: `unw_proc_info_t`, `dwarf_cie_info_t`, and the pointer
encodings of `.eh_frame`.
-/

namespace Libunwind.Dwarf

/-- `unw_dyn_info_format_t`. -/
inductive InfoFormat where
  | dynamic
  | table
  | remoteTable
  | armExidx
  | ipOffset
  | remoteTable64
  deriving DecidableEq, Repr, Inhabited

/-- `dwarf_cie_info_t`. -/
structure CieInfo (w : Nat) where
  cieInstrStart : Word w := 0
  cieInstrEnd : Word w := 0
  fdeInstrStart : Word w := 0
  fdeInstrEnd : Word w := 0
  codeAlign : Word w := 0
  dataAlign : Word w := 0
  retAddrColumn : Word w := 0
  handler : Word w := 0
  abi : BitVec 16 := 0
  tag : BitVec 16 := 0
  fdeEncoding : Byte := 0
  lsdaEncoding : Byte := 0
  sizedAugmentation : Bool := false
  haveAbiMarker : Bool := false
  signalFrame : Bool := false
  deriving DecidableEq, Repr, Inhabited

/-- `unw_proc_info_t`; the defaults are what `memset` leaves. -/
structure ProcInfo (w : Nat) where
  startIp : Word w := 0
  endIp : Word w := 0
  lsda : Word w := 0
  handler : Word w := 0
  gp : Word w := 0
  flags : Word w := 0
  format : InfoFormat := .dynamic
  unwindInfo : Option (CieInfo w) := none
  deriving DecidableEq, Repr, Inhabited

/-- `UNW_PI_FLAG_DEBUG_FRAME`. -/
def piFlagDebugFrame (w : Nat) : Word w := 32

/-- The info comes from `.debug_frame`, whose copy is in local memory. -/
def ProcInfo.isDebugFrame {w : Nat} (pi : ProcInfo w) : Bool :=
  pi.flags &&& piFlagDebugFrame w != 0

/-! Pointer encodings (`DW_EH_PE_*`). -/

def ehPeFormatMask : Byte := 0x0f
def ehPeApplMask : Byte := 0x70
def ehPeIndirect : Byte := 0x80
def ehPeOmit : Byte := 0xff
def ehPeUdata4 : Byte := 0x03
def ehPeUdata8 : Byte := 0x04
def ehPeAligned : Byte := 0x50

end Libunwind.Dwarf
