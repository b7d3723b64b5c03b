import Libunwind.Elf.LoadBias
import Libunwind.Dwarf.DebugFrame

/-! # The tables of an object

`dwarf_find_unwind_table` fills in an `elf_dyn_info` from an ELF image: the table of
`.eh_frame_hdr`, on ARM the exception index table, and the index that is made of a
`.debug_frame`. The sections `.debug_frame` that have been loaded are on a list which all
processes share.
-/

namespace Libunwind.Lookup

open Dwarf Elf

variable {w : Nat}

/-- `Elf_W(Phdr)`, with the size in the file. -/
structure ProgramHeader (w : Nat) extends Phdr w where
  filesz : Word w

/-- `struct elf_image`. A file is mapped at one address, whenever it is mapped. -/
structure Image (w : Nat) where
  image : Word w
  size : Word w
  /-- `valid_object` -/
  valid : Bool
  phdrs : List (ProgramHeader w)
  /-- `d_tag` and `d_ptr` of the entries of `PT_DYNAMIC` ahead of `DT_NULL`. -/
  dynamic : List (Word w × Word w) := []

/-- The header of a type that the loop over the headers keeps: the last one. -/
def Image.lastOf (ei : Image w) (type : SegmentType) : Option (ProgramHeader w) :=
  ei.phdrs.reverse.find? fun p => p.type = type

/-- `get_program_segment` -/
def Image.getProgramSegment (ei : Image w) (phdr : Option (ProgramHeader w)) : Option (Word w) :=
  phdr.bind fun p => if p.filesz = 0 ∨ ei.size < p.offset then none else some (ei.image + p.offset)

/-! ## struct elf_dyn_info -/

/-- `unw_dyn_info_t`; the data of a `.debug_frame` table is an entry of the list. -/
structure TableInfo (w : Nat) extends DynInfo w where
  gp : Word w := 0
  fdesc : Option (DebugFrame w) := none

namespace TableInfo

def zero : TableInfo w := { startIp := 0, endIp := 0, format := .dynamic, segbase := 0 }

def Covers (t : TableInfo w) (ip : Word w) : Prop := t.startIp ≤ ip ∧ ip < t.endIp

instance decidableCovers (t : TableInfo w) (ip : Word w) : Decidable (t.Covers ip) :=
  inferInstanceAs (Decidable (_ ∧ _))

end TableInfo

/-- A table of the record. Where it is not `kept`, its format is -1, and the other fields are
    whatever was there. -/
structure Slot (w : Nat) where
  kept : Bool := false
  info : TableInfo w := .zero

/-- `struct elf_dyn_info`, apart from the image that it has mapped. -/
structure ElfDynInfo (w : Nat) where
  diCache : Slot w := {}
  diDebug : Slot w := {}
  diArm : Slot w := {}

/-- `invalidate_edi` -/
def invalidateEdi : ElfDynInfo w := {}

/-- The record of `_UPT_create` and `_UCD_create`, where the format of `di_arm` is 0. -/
def createdEdi : ElfDynInfo w := { diArm := { kept := true } }

/-! ## The list of `.debug_frame` sections -/

/-- `struct unw_debug_frame_list`. The index is a function of the section. -/
structure FrameEntry (w : Nat) where
  (start end' : Word w)
  debugFrame : Word w
  debugFrameSize : Nat
  deriving DecidableEq

def FrameEntry.Covers (e : FrameEntry w) (ip : Word w) : Prop := e.start ≤ ip ∧ ip < e.end'

instance FrameEntry.decidableCovers (e : FrameEntry w) (ip : Word w) : Decidable (e.Covers ip) :=
  inferInstanceAs (Decidable (_ ∧ _))

/-- The process that looks things up. -/
structure Host (w : Nat) where
  /-- `UNW_TARGET_ARM` -/
  arm : Bool
  /-- `unw_local_addr_space` -/
  localSpace : AddrSpace w
  /-- `load_debug_frame`: the buffer and its size. -/
  loadDebugFrame : String → Option (Word w × Nat)
  findBinaryForAddress : Word w → Option String
  uninitialised : Word w → ProcInfo w
  budget : Nat

/-- What is known of an object when its tables are turned to. -/
structure Object (w : Nat) where
  ei : Image w
  loadBase : Word w
  startIp : Word w
  endIp : Word w
  /-- The name of the file that `locate_debug_info` would load. -/
  name : Option String

def Object.Covers (o : Object w) (ip : Word w) : Prop := o.startIp ≤ ip ∧ ip < o.endIp

section Tables

variable (host : Host w)

/-- The entry that is made for an object. -/
def Object.entry (o : Object w) : Option (FrameEntry w) := do
  let name ← o.name
  let (buf, bufsize) ← host.loadDebugFrame name
  pure ⟨o.startIp, o.endIp, buf, bufsize⟩

/-- `locate_debug_info`, with the list that it leaves. -/
def locateDebugInfo (o : Object w) (addr : Word w) (debugFrames : List (FrameEntry w)) :
    Option (FrameEntry w) × List (FrameEntry w) :=
  match debugFrames.find? fun e => e.Covers addr with
  | some fdesc => (some fdesc, debugFrames)
  | none =>
      match o.entry host with
      | some fdesc => (some fdesc, fdesc :: debugFrames)
      | none => (none, debugFrames)

/-- The index of a section, made and sorted at its first use. -/
def Host.index (fdesc : FrameEntry w) : Result (List (TableEntry 32)) := do
  let index ← debugFrameIndexMake host.localSpace fdesc.debugFrame fdesc.debugFrameSize
    host.uninitialised host.budget fdesc.debugFrame
  pure (debugFrameIndexSort index)

/-- `dwarf_find_debug_frame`, behind the call of `locate_debug_info`. -/
def findDebugFrame (o : Object w) (fdesc : Option (FrameEntry w)) (edi : ElfDynInfo w) :
    Result (ElfDynInfo w) :=
  match fdesc with
  | none => pure edi
  | some fdesc =>
      if fdesc.debugFrameSize = 0 then pure edi
      else do
        let index ← host.index fdesc
        if index = [] then pure edi
        else
          pure { edi with
            diDebug :=
              { kept := true
                info := { edi.diDebug.info with
                  startIp := fdesc.start
                  endIp := fdesc.end'
                  format := .table
                  segbase := o.loadBase
                  fdesc := some ⟨fdesc.debugFrame, index⟩ } } }

/-- The table that `PT_ARM_EXIDX` gives. -/
def armTable (o : Object w) (edi : ElfDynInfo w) : ElfDynInfo w :=
  match o.ei.lastOf .armExidx with
  | some paramExidx =>
      if host.arm then
        { edi with
          diArm :=
            { kept := true
              info := { edi.diArm.info with
                startIp := o.startIp
                endIp := o.endIp
                format := .armExidx
                tableData := o.loadBase + paramExidx.vaddr
                tableLen := paramExidx.memsz } } }
      else edi
  | none => edi

/-- A load from the image, undefined where nothing is mapped. -/
def loadByte (addr : Word w) : Result Byte :=
  match host.localSpace.readByte addr with
  | .ok byte => .ok byte
  | .error _ => .error .undefined

def dwEhVersion : Byte := 1

def dtPltgot : Word w := 3

/-- `di_cache.gp`, from `DT_PLTGOT`. -/
def gpOf (ei : Image w) (gp : Word w) : Word w :=
  match ei.getProgramSegment (ei.lastOf .dynamic) with
  | some _ => ((ei.dynamic.find? fun dyn => dyn.1 = dtPltgot).map (·.2)).getD gp
  | none => 0

/-- What becomes of an encoded pointer that has no use where it cannot be read. -/
def orNoinfo {α β : Type} (r : Result α) (noinfo : β) (next : α → Result β) : Result β :=
  match r with
  | .ok a => next a
  | .error (.err _) => .ok noinfo
  | .error fault => .error fault

/-- The format of a table that can be searched by bisection. -/
def tableFormat (tableEnc : Byte) : Option (InfoFormat × Word w) :=
  if tableEnc = 0x3b then some (.remoteTable, 8)
  else if tableEnc = 0x3c then some (.remoteTable64, 16)
  else none

/-- The part on `PT_GNU_EH_FRAME`, with what is returned there, if anything is. -/
def ehFrameTable (o : Object w) (pehHdr : ProgramHeader w) (edi : ElfDynInfo w) :
    Result (ElfDynInfo w × Option (Except UnwError Unit)) :=
  let gp := gpOf o.ei edi.diCache.info.gp
  let edi := { edi with diCache := { edi.diCache with info := { edi.diCache.info with gp } } }
  let noinfo := (edi, some (.error .noinfo))
  match o.ei.getProgramSegment (some pehHdr) with
  | none => pure noinfo
  | some hdr => do
      let version ← loadByte host hdr
      if version ≠ dwEhVersion then pure noinfo
      else
        let ehFramePtrEnc ← loadByte host (hdr + 1)
        -- the pointers may be relative to the gp
        let pi : ProcInfo w := { gp }
        orNoinfo (readEncodedPointer host.localSpace (hdr + 4) ehFramePtrEnc pi) noinfo
          fun (_, addr) => do
            let fdeCountEnc ← loadByte host (hdr + 2)
            orNoinfo (readEncodedPointer host.localSpace addr fdeCountEnc pi) noinfo
              fun (fdeCount, addr) => do
                let tableEnc ← loadByte host (hdr + 3)
                if tableEnc = ehPeOmit then pure noinfo
                else
                  match tableFormat tableEnc with
                  -- the caller can fall back to other methods
                  | none => pure (edi, some (.ok ()))
                  | some (format, entrySize) =>
                      let section' := o.loadBase + pehHdr.vaddr
                      let info := { edi.diCache.info with
                        startIp := o.startIp
                        endIp := o.endIp
                        format
                        tableLen := fdeCount * entrySize / BitVec.ofNat w (w / 8)
                        tableData := section' + (addr - o.ei.image - pehHdr.offset)
                        segbase := section' + (hdr - o.ei.image - pehHdr.offset) }
                      pure ({ edi with diCache := { kept := true, info } }, none)

/-- The part ahead of the other tables. -/
def header (o : Object w) (edi : ElfDynInfo w) :
    Result (ElfDynInfo w × Option (Except UnwError Unit)) :=
  match o.ei.lastOf .gnuEhFrame with
  | some pehHdr => ehFrameTable host o pehHdr edi
  | none => pure (edi, none)

/-- What a routine leaves behind. -/
structure Built (w : Nat) where
  ret : Except UnwError Unit
  edi : ElfDynInfo w
  debugFrames : List (FrameEntry w)

/-- `dwarf_find_unwind_table`, from where the extent of the object is known. Of what it
    returns, the callers only ask whether it is negative. -/
def findTables (o : Object w) (ip : Word w) (edi : ElfDynInfo w)
    (debugFrames : List (FrameEntry w)) : Result (Built w) := do
  match ← header host o edi with
  | (edi, some ret) => pure ⟨ret, edi, debugFrames⟩
  | (edi, none) =>
      let (fdesc, debugFrames) := locateDebugInfo host o ip debugFrames
      let edi ← findDebugFrame host o fdesc (armTable host o edi)
      pure ⟨.ok (), edi, debugFrames⟩

/-- What `tdep_get_elf_image`, or `_UCD_get_elf_image`, finds for an address. -/
structure Mapped (w : Nat) where
  ei : Image w
  segbase : Word w
  mapoff : Word w
  path : String

/-- The object of a mapping, where it has a text segment. -/
def Mapped.object (m : Mapped w) (ip : Word w) : Option (Object w) :=
  (locate (m.ei.phdrs.map (·.toPhdr)) m.segbase m.mapoff).map fun l =>
    { ei := m.ei
      loadBase := l.loadBase
      startIp := l.startIp
      endIp := l.endIp
      name := if m.path = "" then host.findBinaryForAddress ip else some m.path }

/-- `dwarf_find_unwind_table` -/
def dwarfFindUnwindTable (m : Mapped w) (ip : Word w) (edi : ElfDynInfo w)
    (debugFrames : List (FrameEntry w)) : Result (Built w) :=
  if !m.ei.valid then pure ⟨.error .noinfo, edi, debugFrames⟩
  else
    match m.object host ip with
    | none => pure ⟨.ok (), edi, debugFrames⟩
    | some o => findTables host o ip edi debugFrames

end Tables

end Libunwind.Lookup
