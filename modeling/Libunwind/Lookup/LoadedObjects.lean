import Libunwind.Lookup.FindUnwindTable
import Libunwind.Dwarf.LinearSearch

/-! # The unwind info of the loaded objects

A process looks up its own procedures in the objects that the loader knows of: `dl_iterate_phdr` has
`dwarf_callback` look at each of them, up to the one that the address is in. The header of its
`.eh_frame_hdr` leads to a table, or to a section that is searched from the start. Without
`CONFIG_DEBUG_FRAME`.
-/

namespace Libunwind.Lookup

open Dwarf Elf

variable {w : Nat}

/-- `struct dl_phdr_info` -/
structure DlPhdrInfo (w : Nat) where
  dlpiAddr : Word w
  dlpiName : String
  dlpiPhdr : List (ProgramHeader w)

/-- The process that unwinds itself. -/
structure SelfHost (w : Nat) extends Host w where
  /-- `tdep_get_exe_image_path` -/
  exeImagePath : String
  /-- The `sh_addr` of the section `.eh_frame` of a file that can be mapped and has one. -/
  ehFrameSection : String → Option (Word w)
  /-- What a search that fails leaves in the procedure info. -/
  leftOver : DlPhdrInfo w → ProcInfo w → ProcInfo w

/-! ## The program headers -/

namespace DlPhdrInfo

variable (info : DlPhdrInfo w)

/-- The segment is one that the address is in. -/
def Loads (phdr : ProgramHeader w) (ip : Word w) : Prop :=
  phdr.type = .load ∧ phdr.vaddr + info.dlpiAddr ≤ ip ∧
    ip < phdr.vaddr + info.dlpiAddr + phdr.memsz

instance decidableLoads (phdr : ProgramHeader w) (ip : Word w) : Decidable (info.Loads phdr ip) :=
  inferInstanceAs (Decidable (_ ∧ _ ∧ _))

def Contains (ip : Word w) : Prop := ∃ phdr ∈ info.dlpiPhdr, info.Loads phdr ip

instance decidableContains (ip : Word w) : Decidable (info.Contains ip) :=
  inferInstanceAs (Decidable (∃ phdr ∈ info.dlpiPhdr, _))

end DlPhdrInfo

/-- What the loop over the headers notes down. -/
structure PhdrScan (w : Nat) where
  pText : Option (ProgramHeader w) := none
  pEhHdr : Option (ProgramHeader w) := none
  pDynamic : Option (ProgramHeader w) := none
  maxLoadAddr : Word w := 0

def PhdrScan.next (info : DlPhdrInfo w) (ip : Word w) (s : PhdrScan w) (phdr : ProgramHeader w) :
    PhdrScan w :=
  match phdr.type with
  | .load =>
      let vaddr := phdr.vaddr + info.dlpiAddr
      let s := if vaddr ≤ ip ∧ ip < vaddr + phdr.memsz then { s with pText := some phdr } else s
      if s.maxLoadAddr < vaddr + phdr.filesz then { s with maxLoadAddr := vaddr + phdr.filesz } else s
  | .gnuEhFrame => { s with pEhHdr := some phdr }
  | .dynamic => { s with pDynamic := some phdr }
  | _ => s

def DlPhdrInfo.scan (info : DlPhdrInfo w) (ip : Word w) : PhdrScan w :=
  info.dlpiPhdr.foldl (PhdrScan.next info ip) {}

/-! ## The header of the unwind info -/

/-- `struct dwarf_eh_frame_hdr`: at its place in the object, or made up for an `.eh_frame`. -/
inductive EhFrameHdr (w : Nat) where
  | mapped (hdr : Word w)
  | synthetic (ehFrame : Word w)

/-- What is read of the header. -/
structure HeaderFields (w : Nat) where
  place : Word w
  ehFramePtrEnc : Byte
  fdeCountEnc : Byte
  tableEnc : Byte
  ehFrameStart : Word w
  fdeCount : Word w
  /-- Where the header ends. -/
  addr : Word w
  deriving DecidableEq, Repr

/-- What a lookup has found: an FDE, or a table where the format of `di` is not -1. -/
structure CallbackData (w : Nat) where
  pi : ProcInfo w
  singleFde : Bool := false
  di : Slot w := {}

section Callback

variable (host : SelfHost w)

/-- `dwarf_find_eh_frame_section` -/
def dwarfFindEhFrameSection (info : DlPhdrInfo w) : Word w :=
  let file := if info.dlpiName = "" then host.exeImagePath else info.dlpiName
  match host.ehFrameSection file with
  | some shAddr => shAddr + info.dlpiAddr
  | none => 0

def ehFrameHdr (info : DlPhdrInfo w) (pEhHdr : Option (ProgramHeader w)) : Option (EhFrameHdr w) :=
  match pEhHdr with
  | some phdr =>
      let hdr := phdr.vaddr + info.dlpiAddr
      if hdr = 0 then none else some (.mapped hdr)
  | none =>
      let ehFrame := dwarfFindEhFrameSection host info
      if ehFrame = 0 then none else some (.synthetic ehFrame)

/-- A word of the process -/
def loadWord (addr : Word w) : Result (Word w × Word w) :=
  match readw host.localSpace addr with
  | .error (.err _) => .error .undefined
  | loaded => loaded

/-- The loop over the entries of the dynamic segment, for `DT_PLTGOT`. -/
def pltgot : Nat → Word w → Result (Option (Word w))
  | 0, _ => .error .timeout
  | budget + 1, dyn => do
      let (tag, addr) ← loadWord host dyn
      if tag = 0 then pure none
      else if tag = dtPltgot then do
        let (ptr, _) ← loadWord host addr
        pure (some ptr)
      else pltgot budget (addr + BitVec.ofNat w (w / 8))

/-- The base of data-relative addresses; `gp` is the one of `di`. -/
def findGp (info : DlPhdrInfo w) (pDynamic : Option (ProgramHeader w)) (gp : Word w) :
    Result (Word w) :=
  match pDynamic with
  | some phdr => do
      let ptr ← pltgot host host.budget (phdr.vaddr + info.dlpiAddr)
      pure (ptr.getD gp)
  -- a static executable
  | none => pure 0

/-- The fields of a header, unless it has an unexpected version. -/
def EhFrameHdr.read (pi : ProcInfo w) : EhFrameHdr w → Result (Option (HeaderFields w))
  | .mapped hdr => do
      let version ← loadByte host.toHost hdr
      if version ≠ dwEhVersion then pure none
      else do
        let ehFramePtrEnc ← loadByte host.toHost (hdr + 1)
        let (ehFrameStart, addr) ←
          readEncodedPointer host.localSpace (hdr + 4) ehFramePtrEnc pi
        let fdeCountEnc ← loadByte host.toHost (hdr + 2)
        let (fdeCount, addr) ← readEncodedPointer host.localSpace addr fdeCountEnc pi
        let tableEnc ← loadByte host.toHost (hdr + 3)
        pure (some
          { place := hdr, ehFramePtrEnc, fdeCountEnc, tableEnc, ehFrameStart, fdeCount, addr })
  -- a variable of the routine, from which it reads what it has put there
  | .synthetic ehFrame =>
      pure (some
        { place := 0
          ehFramePtrEnc := if w = 32 then ehPeUdata4 else ehPeUdata8
          fdeCountEnc := ehPeOmit
          tableEnc := ehPeOmit
          ehFrameStart := ehFrame
          fdeCount := 0
          addr := 0 })

/-- What is done with the header: whether anything has been found. -/
def useHeader (info : DlPhdrInfo w) (ip : Word w) (needUnwindInfo granted : Bool)
    (s : CallbackData w) (maxLoadAddr : Word w) (pText : ProgramHeader w) (hdr : HeaderFields w) :
    Result (Bool × CallbackData w) :=
  match tableFormat hdr.tableEnc with
  | none =>
      let fdeCount := if hdr.fdeCountEnc = ehPeOmit then -1 else hdr.fdeCount
      if hdr.ehFramePtrEnc = ehPeOmit then .error .undefined
      else
        match linearSearch host.localSpace ip hdr.ehFrameStart maxLoadAddr fdeCount s.pi
            needUnwindInfo granted with
        | .ok pi => .ok (true, { s with pi, singleFde := true })
        | .error (.err _) => .ok (false, { s with pi := host.leftOver info s.pi })
        | .error fault => .error fault
  | some (format, entrySize) =>
      let start := pText.vaddr + info.dlpiAddr
      let table :=
        { s.di.info with
          startIp := start
          endIp := start + pText.memsz
          format
          tableData := hdr.addr
          tableLen := hdr.fdeCount * entrySize / BitVec.ofNat w (w / 8)
          segbase := hdr.place }
      .ok (true, { s with di := { kept := true, info := table } })

/-- `dwarf_callback`. A result other than 0 ends the iteration. -/
def dwarfCallback (ip : Word w) (needUnwindInfo granted : Bool) (info : DlPhdrInfo w)
    (s : CallbackData w) : Result (Bool × CallbackData w) :=
  let scan := info.scan ip
  match scan.pText, ehFrameHdr host info scan.pEhHdr with
  | some pText, some header => do
      let gp ← findGp host info scan.pDynamic s.di.info.gp
      let s := { s with
        pi := { s.pi with gp }
        di := { s.di with info := { s.di.info with gp } } }
      match ← header.read host s.pi with
      | none => pure (false, s)
      | some hdr => useHeader host info ip needUnwindInfo granted s scan.maxLoadAddr pText hdr
  | _, _ => .ok (false, s)

end Callback

/-- `dl_iterate_phdr` -/
def dlIteratePhdr {σ : Type} (callback : DlPhdrInfo w → σ → Result (Bool × σ)) :
    List (DlPhdrInfo w) → σ → Result (Bool × σ)
  | [], s => .ok (false, s)
  | info :: rest, s => do
      match ← callback info s with
      | (true, s) => .ok (true, s)
      | (false, s) => dlIteratePhdr callback rest s

section Find

variable (host : SelfHost w) (ip : Word w) (needUnwindInfo granted : Bool)

/-- What `dwarf_find_proc_info` makes of the iteration. -/
def searchFound : Result (Bool × CallbackData w) → Result (ProcInfo w)
  | .ok (true, s) =>
      if s.singleFde then .ok s.pi
      else if s.di.kept then
        searchUnwindTable host.localSpace host.localSpace true ⟨0, []⟩ ip s.di.info.toDynInfo s.pi
          needUnwindInfo granted
      else .error (.err .noinfo)
  | .ok (false, _) | .error (.err _) => .error (.err .noinfo)
  | .error fault => .error fault

/-- `dwarf_find_proc_info` -/
def dwarfFindProcInfo (objects : List (DlPhdrInfo w)) (pi : ProcInfo w) : Result (ProcInfo w) :=
  searchFound host ip needUnwindInfo granted
    (dlIteratePhdr (dwarfCallback host ip needUnwindInfo granted) objects { pi })

end Find

end Libunwind.Lookup
