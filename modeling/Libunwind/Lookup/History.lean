import Libunwind.Library.Run
import Libunwind.Lookup.FindUnwindTable

/-! # Lookups one after another

`_UPT_find_proc_info` and `_UCD_find_proc_info` keep the tables that they have found last, and
use them again for every address within the extent of the object. The answer to a lookup is
compared with the one that it has as the first.
-/

namespace Libunwind.Lookup

open Dwarf Elf

variable {w : Nat} {ι π : Type}

/-- `coredump_phdr_t` -/
structure CorePhdr (w : Nat) where
  pVaddr : Word w
  pMemsz : Word w
  pBackingFileIndex : Int
  pMapoff : Word w

def CorePhdr.Covers (phdr : CorePhdr w) (ip : Word w) : Prop :=
  phdr.pVaddr ≤ ip ∧ ip < phdr.pVaddr + phdr.pMemsz

instance CorePhdr.decidableCovers (phdr : CorePhdr w) (ip : Word w) : Decidable (phdr.Covers ip) :=
  inferInstanceAs (Decidable (_ ∧ _))

/-- `ucd_file_t`; the image is there when the file can be opened and mapped. -/
structure UcdFile (w : Nat) where
  filename : String
  image : Option (Image w)

/-- What has become of the mapping of a backing file. -/
inductive FileState where
  | unmapped
  | mapped
  /-- `image` points to where the file was. -/
  | lost
  deriving DecidableEq

/-- The accesses of `tdep_search_unwind_table` are to memory that stays as it is; of a core
    dump, the backing files that are mapped belong to it. The procedure info may be written
    even if nothing is found. -/
abbrev Search (w : Nat) (π : Type) := TableInfo w → Word w → Bool → π → Result Unit × π

/-- `tdep_search_unwind_table`, where that is `dwarf_search_unwind_table`. -/
def dwarfSearch (as localSpace : AddrSpace w) : Search w (ProcInfo w) :=
  fun table ip needUnwindInfo pi =>
    match searchUnwindTable as localSpace false (table.fdesc.getD ⟨0, []⟩) ip table.toDynInfo pi
      needUnwindInfo true with
    | .ok pi => (.ok (), pi)
    | .error fault => (.error fault, pi)

/-- A process or a core image. -/
inductive Target (w : Nat) (π : Type) where
  | ptrace (tdepGetElfImage : Word w → Option (Mapped w)) (search : Search w π)
  | core (phdrs : List (CorePhdr w)) (ucdFileTable : List (UcdFile w))
      (search : (Nat → FileState) → Search w π)

/-- What is kept between lookups, as one process sees it. -/
structure Session (w : Nat) where
  debugFrames : List (FrameEntry w) := []
  edi : ElfDynInfo w := createdEdi
  files : Nat → FileState := fun _ => .unmapped

/-- `ucd_file_table_at`, with the place. -/
def ucdFileTableAt (table : List (UcdFile w)) (index : Int) : Option (Nat × UcdFile w) :=
  if 0 ≤ index then table[index.toNat]?.map fun file => (index.toNat, file) else none

/-- The segment that `_UCD_get_elf_image` takes, and its backing file. Without one, the lookup
    fails in any case. -/
def backing (phdrs : List (CorePhdr w)) (table : List (UcdFile w)) (ip : Word w) :
    Option (CorePhdr w × Nat × UcdFile w) := do
  let phdr ← phdrs.find? fun phdr => phdr.Covers ip
  let (n, file) ← ucdFileTableAt table phdr.pBackingFileIndex
  pure (phdr, n, file)

/-- `CD_elf_map_image` with a backing file. One that is not an ELF object is unmapped, but
    `ucd_file->image` stays. -/
def elfMapImage (files : Nat → FileState) (phdr : CorePhdr w) (n : Nat) (file : UcdFile w) :
    Result (Option (Mapped w) × (Nat → FileState)) :=
  match file.image with
  | none => pure (none, files)
  | some ei =>
      if files n = .lost then .error .undefined
      else if ei.valid then
        pure (some ⟨ei, phdr.pVaddr, phdr.pMapoff, file.filename⟩, Function.update files n .mapped)
      else pure (none, Function.update files n .lost)

namespace Target

/-- `tdep_get_elf_image` and `_UCD_get_elf_image`. -/
def getElfImage (t : Target w π) (files : Nat → FileState) (ip : Word w) :
    Result (Option (Mapped w) × (Nat → FileState)) :=
  match t with
  | .ptrace tdepGetElfImage _ => pure (tdepGetElfImage ip, files)
  | .core phdrs table _ =>
      match backing phdrs table ip with
      | none => pure (none, files)
      | some (phdr, n, file) => elfMapImage files phdr n file

def search (t : Target w π) (files : Nat → FileState) : Search w π :=
  match t with
  | .ptrace _ search => search
  | .core _ _ search => search files

end Target

/-! ## The record -/

namespace Slot

/-- One of the tests that a table covers an address. -/
def Hits (slot : Slot w) (ip : Word w) : Prop := slot.kept ∧ slot.info.Covers ip

instance decidableHits (slot : Slot w) (ip : Word w) : Decidable (slot.Hits ip) :=
  inferInstanceAs (Decidable (_ ∧ _))

/-- A table that does not cover the address is discarded: its format is set to -1. -/
def discard (slot : Slot w) (ip : Word w) : Slot w :=
  if slot.kept ∧ ¬ slot.info.Covers ip then { slot with kept := false } else slot

end Slot

namespace ElfDynInfo

/-- The test whether the record is kept. -/
def Hits (arm : Bool) (edi : ElfDynInfo w) (ip : Word w) : Prop :=
  edi.diCache.Hits ip ∨ (arm ∧ edi.diDebug.kept ∧ edi.diArm.info.Covers ip) ∨ edi.diDebug.Hits ip

instance decidableHits (arm : Bool) (edi : ElfDynInfo w) (ip : Word w) :
    Decidable (edi.Hits arm ip) :=
  inferInstanceAs (Decidable (_ ∨ _))

def discard (edi : ElfDynInfo w) (ip : Word w) : ElfDynInfo w :=
  { edi with diCache := edi.diCache.discard ip, diDebug := edi.diDebug.discard ip }

/-- No format but -1 is left. -/
def Empty (arm : Bool) (edi : ElfDynInfo w) : Prop :=
  edi.diCache.kept = false ∧ (arm → edi.diArm.kept = false) ∧ edi.diDebug.kept = false

instance decidableEmpty (arm : Bool) (edi : ElfDynInfo w) : Decidable (edi.Empty arm) :=
  inferInstanceAs (Decidable (_ ∧ _))

/-- The tables in the order in which they are searched. -/
def slots (arm : Bool) (edi : ElfDynInfo w) : List (Slot w) :=
  edi.diCache :: edi.diDebug :: if arm then [edi.diArm] else []

end ElfDynInfo

/-- One table after another, as long as `ret == -UNW_ENOINFO`. -/
def searchTables (search : Search w π) (ip : Word w) (needUnwindInfo : Bool) :
    List (Slot w) → π → Result Unit × π
  | [], pi => (.error (.err .noinfo), pi)
  | slot :: slots, pi =>
      if slot.kept then
        let (ret, pi) := search slot.info ip needUnwindInfo pi
        if ret = .error (.err .noinfo) then searchTables search ip needUnwindInfo slots pi
        else (ret, pi)
      else searchTables search ip needUnwindInfo slots pi

section FindProcInfo

variable (host : Host w)

/-- `get_unwind_info` -/
def getUnwindInfo (t : Target w π) (s : Session w) (ip : Word w) :
    Result (Except UnwError Unit × Session w) :=
  if s.edi.Hits host.arm ip then pure (.ok (), s)
  else do
    let edi := invalidateEdi
    match ← t.getElfImage s.files ip with
    | (none, files) => pure (.error .noinfo, { s with edi, files })
    | (some mapped, files) =>
        let built ← dwarfFindUnwindTable host mapped ip edi s.debugFrames
        match built.ret with
        | .error _ =>
            pure (.error .noinfo, { debugFrames := built.debugFrames, edi := built.edi, files })
        | .ok () =>
            let s := { debugFrames := built.debugFrames, edi := built.edi.discard ip, files }
            pure (if s.edi.Empty host.arm then (.error .noinfo, s) else (.ok (), s))

/-- What a lookup delivers: the code that it returns, and what is in `*pi`. -/
abbrev Answer (π : Type) := Result Unit × π

/-- `_UPT_find_proc_info` and `_UCD_find_proc_info`. -/
def findProcInfo (t : Target w π) (s : Session w) (ip : Word w) (needUnwindInfo : Bool) (pi : π) :
    Result (Answer π × Session w) := do
  match ← getUnwindInfo host t s ip with
  | (.error _, s) => pure ((.error (.err .noinfo), pi), s)
  | (.ok (), s) =>
      pure (searchTables (t.search s.files) ip needUnwindInfo (s.edi.slots host.arm) pi, s)

end FindProcInfo

/-! ## Many processes -/

/-- The list that they share, and what is kept for each. -/
structure System (ι : Type) (w : Nat) where
  debugFrames : List (FrameEntry w) := []
  edi : ι → ElfDynInfo w := fun _ => createdEdi
  files : ι → Nat → FileState := fun _ _ => .unmapped

/-- A call. -/
structure Call (ι : Type) (w : Nat) (π : Type) where
  process : ι
  ip : Word w
  needUnwindInfo : Bool
  pi : π

namespace System

def session (s : System ι w) (i : ι) : Session w := ⟨s.debugFrames, s.edi i, s.files i⟩

variable [DecidableEq ι]

def withSession (s : System ι w) (i : ι) (after : Session w) : System ι w where
  debugFrames := after.debugFrames
  edi := Function.update s.edi i after.edi
  files := Function.update s.files i after.files

variable (host : Host w) (targets : ι → Target w π)

/-- What a call answers. -/
def answer (s : System ι w) (l : Call ι w π) : Result (Answer π) :=
  (findProcInfo host (targets l.process) (s.session l.process) l.ip l.needUnwindInfo l.pi).map (·.1)

def Step (s : System ι w) (l : Call ι w π) (s' : System ι w) : Prop :=
  ∃ answer after, findProcInfo host (targets l.process) (s.session l.process) l.ip
    l.needUnwindInfo l.pi = .ok (answer, after) ∧ s' = s.withSession l.process after

/-- The state that calls lead to which are all `allowed`. -/
def Reached (allowed : Call ι w π → Prop) : System ι w → Prop :=
  Run (· = {}) (Step host targets) fun _ l => allowed l

/-- Every call answers as it would have as the first. -/
def HistoryFree (allowed : Call ι w π → Prop) : Prop :=
  ∀ s, Reached host targets allowed s → ∀ l, allowed l →
    s.answer host targets l = ({} : System ι w).answer host targets l

end System

end Libunwind.Lookup
