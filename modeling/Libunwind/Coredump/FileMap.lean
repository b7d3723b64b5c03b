import Libunwind.Elf.SymbolTables
import Libunwind.Coredump.FileTable
import Libunwind.Coredump.Notes

/-! # The files behind the segments of a core dump

`_UCD_get_mapinfo` attaches each file mapping that an `NT_FILE` note lists to the first segment that
it is in, and `_UCD_access_mem` places the segment's start where the mapping starts in its file.
-/

namespace Libunwind.Coredump

open Elf

/-- `NT_FILE` -/
def ntFile : BitVec 32 := 0x46494c45

/-- `coredump_phdr_t`, and what `_UCD_elf_read_segment` makes of it. -/
structure CorePhdr extends Phdr where
  pType : BitVec 32
  segment : Option (NoteSegment .lp64)

/-- `core_nt_file_entry_t` -/
structure NtFileEntry where
  start : Word 64
  stop : Word 64
  offset : Word 64
  deriving DecidableEq, Repr

/-- An entry of a note with pages of some size, and its path. -/
structure FileMapping where
  entry : NtFileEntry
  pagesz : Word 64
  path : Path
  deriving DecidableEq, Repr

/-- `deleted` -/
def deleted : Path := [0x28, 0x64, 0x65, 0x6c, 0x65, 0x74, 0x65, 0x64, 0x29]

/-- `"CORE"`, with what ends it. -/
def coreName : List Byte := [0x43, 0x4f, 0x52, 0x45, 0]

/-- `_path_ends_with` -/
def pathEndsWith (path text : Path) : Bool :=
  if path.length < text.length then false
  else path.drop (path.length - text.length) == text

/-- What `_handle_nt_file_note` changes, and how many names were inserted so far. -/
structure Mapinfo where
  phdrs : List CorePhdr
  table : UcdFileTable
  inserts : Nat

namespace NoteSegment

variable (seg : NoteSegment .lp64)

/-- `memcpy` into an `unsigned long` -/
def long (off : Nat) : Result (Word 64) :=
  if off + 8 ≤ seg.size then .ok (Bytes.word 64 seg.bigEndian ((seg.bytes.drop off).take 8))
  else .error .undefined

/-- `strcmp (name, text) == 0` -/
def sameText : Nat → List Byte → Result Bool
  | _, [] => pure true
  | off, ch :: text =>
      match seg.bytes[off]? with
      | none => .error .undefined
      | some byte => if byte = ch then sameText (off + 1) text else pure false

/-- The string at a place. -/
def string (off : Nat) : Result Path :=
  let text := (seg.bytes.drop off).takeWhile fun ch => ch ≠ 0
  if off + text.length < seg.size then .ok text else .error .undefined

def ntFileEntry (off : Nat) : Result NtFileEntry := do
  let start ← seg.long off
  let stop ← seg.long (off + 8)
  let offset ← seg.long (off + 16)
  pure { start, stop, offset }

end NoteSegment

/-- The test that a segment has the range of an entry in it. -/
def CorePhdr.Encloses (phdr : CorePhdr) (entry : NtFileEntry) : Prop :=
  phdr.pType = ptLoad ∧ phdr.pVaddr ≤ entry.start ∧ entry.stop ≤ phdr.pVaddr + phdr.pMemsz

instance (phdr : CorePhdr) (entry : NtFileEntry) : Decidable (phdr.Encloses entry) :=
  inferInstanceAs (Decidable (_ ∧ _ ∧ _))

/-- The path is not ignored. -/
def FileMapping.IsNamed (m : FileMapping) : Prop :=
  0 < m.path.length ∧ pathEndsWith m.path deleted = false

instance (m : FileMapping) : Decidable m.IsNamed := inferInstanceAs (Decidable (_ ∧ _))

/-- NT_FILE offset is in pages; convert to bytes -/
def FileMapping.mapoff (m : FileMapping) : Word 64 := m.entry.offset * m.pagesz

section Source

variable (grants : Nat → Grants)

/-- The loop over the program headers, for an entry. -/
def attach (m : FileMapping) (s : Mapinfo) : Result Mapinfo :=
  match s.phdrs.findIdx? fun phdr => phdr.Encloses m.entry with
  | none => pure s
  | some p =>
      if m.IsNamed then do
        let (index, table) ← s.table.insert m.path (grants s.inserts)
        pure {
          phdrs := s.phdrs.modify p fun phdr =>
            { phdr with pBackingFileIndex := index, pMapoff := m.mapoff }
          table
          inserts := s.inserts + 1 }
      else pure s

/-- The loop over the entries, with so many left. -/
def handleEntries (seg : NoteSegment .lp64) (pagesz : Word 64) (handle : FileMapping → σ → Result σ) :
    Nat → Nat → Nat → σ → Result σ
  | 0, _, _, s => pure s
  | left + 1, off, strings, s => do
      let entry ← seg.ntFileEntry off
      let path ← seg.string strings
      let s ← handle { entry, pagesz, path } s
      handleEntries seg pagesz handle left (off + 24) (strings + path.length + 1) s

/-- `_handle_nt_file_note` -/
def handleNtFileNote (handle : FileMapping → σ → Result σ) (seg : NoteSegment .lp64) (n : Note)
    (s : σ) : Result σ := do
  let count ← seg.long (n.desc .lp64)
  let pagesz ← seg.long (n.desc .lp64 + 8)
  let entriesBase := n.desc .lp64 + 16
  handleEntries seg pagesz handle count.toNat entriesBase (entriesBase + (24 * count).toNat) s

/-- `_handle_pt_note_segment` -/
def handlePtNoteSegment (handle : FileMapping → σ → Result σ) (seg : NoteSegment .lp64) (n : Note)
    (s : σ) : Result σ := do
  if n.type = ntFile then
    if ← seg.sameText n.name coreName then handleNtFileNote handle seg n s else pure s
  else pure s

/-- The loop over the program headers, for the notes in them. -/
def mapinfoLoop (handle : FileMapping → σ → Result σ) :
    List CorePhdr → Except UnwError Unit → σ → Result (Except UnwError Unit × σ)
  | [], ret, s => pure (ret, s)
  | phdr :: phdrs, ret, s =>
      if phdr.pType ≠ ptNote then mapinfoLoop handle phdrs ret s
      else
        match phdr.segment with
        | none => mapinfoLoop handle phdrs (.error .unspec) s
        | some seg => do
            let s ← visitAll seg
              (fun n s => (handlePtNoteSegment handle seg n s).map fun s => (0, s)) s
            mapinfoLoop handle phdrs (.ok ()) s

/-- `_UCD_get_mapinfo`, with the table that `_UCD_create` has set up. -/
def getMapinfo (phdrs : List CorePhdr) (table : UcdFileTable) :
    Result (Except UnwError Unit × Mapinfo) :=
  mapinfoLoop (attach grants) phdrs (.ok ()) { phdrs, table, inserts := 0 }

end Source

/-! ## What the notes say -/

/-- The mappings that the notes list, in their order. -/
def fileMappings (phdrs : List CorePhdr) : Result (List FileMapping) :=
  (mapinfoLoop (fun m found => pure (found ++ [m])) phdrs (.ok ()) []).map Prod.snd

namespace FileMapping

variable (m : FileMapping)

/-- The mapping has the byte at an address. -/
def Has (a : Nat) : Prop := m.entry.start.toNat ≤ a ∧ a < m.entry.stop.toNat

/-- Where in its file the byte at an address is. -/
def fileOffset (a : Nat) : Nat :=
  m.entry.offset.toNat * m.pagesz.toNat + (a - m.entry.start.toNat)

/-- The header that the mapping is attached to. -/
def home (phdrs : List CorePhdr) : Option Nat := phdrs.findIdx? fun phdr => phdr.Encloses m.entry

end FileMapping

/-- The mapping that was attached to a header last. -/
def attachedTo (phdrs : List CorePhdr) (maps : List FileMapping) (p : Nat) : Option FileMapping :=
  (maps.filter fun m => m.IsNamed ∧ m.home phdrs = some p).getLast?

section Related

variable {handle : FileMapping → σ → Result σ} {related : List FileMapping → σ → Prop}
  (kept : ∀ m found s s', related found s → handle m s = .ok s' → related (found ++ [m]) s')
  {seg : NoteSegment .lp64} {found : List FileMapping} {s s' : σ}

include kept

theorem handleEntries_related {pagesz : Word 64} {left off strings : Nat} (before : related found s)
    (handled : handleEntries seg pagesz handle left off strings s = .ok s') :
    ∃ found', handleEntries seg pagesz (fun m found => pure (found ++ [m])) left off strings found =
      .ok found' ∧ related found' s' := by
  induction left generalizing off strings found s with
  | zero =>
      cases handled
      exact ⟨found, rfl, before⟩
  | succ left ih =>
      rw [handleEntries] at handled ⊢
      obtain ⟨entry, atEntry, handled⟩ := bind_eq_ok.mp handled
      obtain ⟨path, atPath, handled⟩ := bind_eq_ok.mp handled
      obtain ⟨s₁, first, handled⟩ := bind_eq_ok.mp handled
      simp only [atEntry, atPath, ok_bind, pure_eq_ok]
      exact ih (kept _ _ _ _ before first) handled

theorem handlePtNoteSegment_related {n : Note} (before : related found s)
    (handled : handlePtNoteSegment handle seg n s = .ok s') :
    ∃ found', handlePtNoteSegment (fun m found => pure (found ++ [m])) seg n found = .ok found' ∧
      related found' s' := by
  rw [handlePtNoteSegment] at handled ⊢
  by_cases isFile : n.type = ntFile
  · rw [if_pos isFile] at handled ⊢
    obtain ⟨isCore, compared, handled⟩ := bind_eq_ok.mp handled
    rw [compared]
    cases isCore with
    | false =>
        cases handled
        exact ⟨found, rfl, before⟩
    | true =>
        simp only [if_true, ok_bind, handleNtFileNote] at handled ⊢
        obtain ⟨count, atCount, handled⟩ := bind_eq_ok.mp handled
        obtain ⟨pagesz, atPagesz, handled⟩ := bind_eq_ok.mp handled
        simp only [atCount, atPagesz, ok_bind]
        exact handleEntries_related kept before handled
  · rw [if_neg isFile] at handled ⊢
    cases handled
    exact ⟨found, rfl, before⟩

theorem mapinfoLoop_related {phdrs : List CorePhdr} {ret ret' : Except UnwError Unit}
    (before : related found s) (handled : mapinfoLoop handle phdrs ret s = .ok (ret', s')) :
    ∃ found', mapinfoLoop (fun m found => pure (found ++ [m])) phdrs ret found =
      .ok (ret', found') ∧ related found' s' := by
  induction phdrs generalizing ret found s with
  | nil =>
      cases handled
      exact ⟨found, rfl, before⟩
  | cons phdr phdrs ih =>
      rw [mapinfoLoop] at handled ⊢
      by_cases other : phdr.pType ≠ ptNote
      · rw [if_pos other] at handled ⊢
        exact ih before handled
      · rw [if_neg other] at handled ⊢
        cases segment : phdr.segment with
        | none =>
            simp only [segment] at handled ⊢
            exact ih before handled
        | some seg =>
            simp only [segment] at handled ⊢
            obtain ⟨s₁, visited, handled⟩ := bind_eq_ok.mp handled
            have each (n : Note) (found : List FileMapping) (s s' : σ) (before : related found s)
                (handled : handlePtNoteSegment handle seg n s = .ok s') :=
              handlePtNoteSegment_related kept before handled
            obtain ⟨found₁, visited', between⟩ := visitAll_related each before visited
            rw [visited']
            exact ih between handled

end Related

/-! ## What is attached -/

namespace CorePhdr

/-- What the notes leave of a header. -/
def unattached (phdr : CorePhdr) : CorePhdr :=
  { phdr with pBackingFileIndex := ucdFileNoIndex, pMapoff := 0 }

end CorePhdr

/-- The headers have the mappings that belong to them, and the indices denote their files. -/
structure Attached (phdrs : List CorePhdr) (maps : List FileMapping) (s : Mapinfo) : Prop where
  sized : s.table.Sized
  count : s.table.uftCount ≤ maps.length
  same : s.phdrs.map CorePhdr.unattached = phdrs.map CorePhdr.unattached
  free : ∀ (p : Nat) (phdr : CorePhdr), s.phdrs[p]? = some phdr → attachedTo phdrs maps p = none →
    phdr.pBackingFileIndex = ucdFileNoIndex
  last : ∀ (p : Nat) (phdr : CorePhdr) (m : FileMapping), s.phdrs[p]? = some phdr →
    attachedTo phdrs maps p = some m →
    phdr.pMapoff = m.mapoff ∧
      (0 ≤ phdr.pBackingFileIndex → s.table.Names phdr.pBackingFileIndex.toNat m.path)

section Attached

variable {phdrs : List CorePhdr} {maps : List FileMapping} {m : FileMapping} {s s' : Mapinfo}

theorem attachedTo_append (phdrs : List CorePhdr) (maps : List FileMapping) (m : FileMapping)
    (p : Nat) :
    attachedTo phdrs (maps ++ [m]) p =
      if m.IsNamed ∧ m.home phdrs = some p then some m else attachedTo phdrs maps p := by
  by_cases here : m.IsNamed ∧ m.home phdrs = some p
  · simp [attachedTo, List.filter_append, here]
  · simp [attachedTo, List.filter_append, here]

/-- Where a mapping belongs does not depend on what is attached. -/
theorem Attached.home_eq (attached : Attached phdrs maps s) (m : FileMapping) :
    m.home s.phdrs = m.home phdrs := by
  have fixed (phdrs : List CorePhdr) : m.home phdrs = m.home (phdrs.map CorePhdr.unattached) := by
    rw [FileMapping.home, FileMapping.home, List.findIdx?_map]
    rfl
  rw [fixed, attached.same, ← fixed]

theorem Attached.attach {grants : Nat → Grants} (attached : Attached phdrs maps s)
    (few : (maps ++ [m]).length < 2 ^ 31) (attaches : attach grants m s = .ok s') :
    Attached phdrs (maps ++ [m]) s' := by
  have small : s.table.uftCount < 2 ^ 31 := by
    have count := attached.count
    rw [List.length_append] at few
    omega
  have longer : maps.length ≤ (maps ++ [m]).length := by simp
  have unchanged (elsewhere : ∀ p, ¬(m.IsNamed ∧ m.home phdrs = some p)) :
      Attached phdrs (maps ++ [m]) s := by
    refine ⟨attached.sized, attached.count.trans longer, attached.same, ?_, ?_⟩
    · intro p phdr here free
      rw [attachedTo_append, if_neg (elsewhere p)] at free
      exact attached.free p phdr here free
    · intro p phdr m' here last
      rw [attachedTo_append, if_neg (elsewhere p)] at last
      exact attached.last p phdr m' here last
  have home := attached.home_eq m
  rw [Coredump.attach] at attaches
  cases found : s.phdrs.findIdx? fun phdr => phdr.Encloses m.entry with
  | none =>
      rw [found] at attaches
      cases attaches
      refine unchanged fun p here => ?_
      rw [← home, FileMapping.home, found] at here
      cases here.2
  | some q =>
      rw [FileMapping.home, found] at home
      by_cases isNamed : m.IsNamed
      · rw [found] at attaches
        simp only [if_pos isNamed] at attaches
        obtain ⟨⟨index, table⟩, inserted, attaches⟩ := bind_eq_ok.mp attaches
        obtain ⟨sized, count, denotes, kept⟩ :=
          UcdFileTable.insert_names attached.sized small inserted
        cases attaches
        refine ⟨sized, ?_, ?_, ?_, ?_⟩
        · rw [List.length_append, List.length_singleton]
          exact count.trans (Nat.succ_le_succ attached.count)
        · rw [← attached.same]
          apply List.ext_getElem?
          intro p
          simp only [List.getElem?_map, List.getElem?_modify]
          cases s.phdrs[p]? with
          | none => rfl
          | some phdr =>
              by_cases here : q = p
              · simp [here, CorePhdr.unattached]
              · simp [here]
        · intro p phdr here free
          by_cases at' : q = p
          · rw [attachedTo_append, if_pos ⟨isNamed, at' ▸ home.symm⟩] at free
            cases free
          · rw [attachedTo_append, if_neg] at free
            · rw [List.getElem?_modify_ne _ _ at'] at here
              exact attached.free p phdr here free
            · intro both
              rw [← home, Option.some.injEq] at both
              exact at' both.2
        · intro p phdr m' here last
          by_cases at' : q = p
          · subst at'
            rw [attachedTo_append, if_pos ⟨isNamed, home.symm⟩] at last
            cases last
            rw [List.getElem?_modify_eq] at here
            obtain ⟨before, -, rfl⟩ := Option.map_eq_some_iff.mp here
            exact ⟨rfl, denotes⟩
          · rw [attachedTo_append, if_neg] at last
            · rw [List.getElem?_modify_ne _ _ at'] at here
              obtain ⟨mapoff, names⟩ := attached.last p phdr m' here last
              exact ⟨mapoff, fun nonneg => kept _ _ (names nonneg)⟩
            · intro both
              rw [← home, Option.some.injEq] at both
              exact at' both.2
      · rw [found] at attaches
        simp only [if_neg isNamed] at attaches
        cases attaches
        exact unchanged fun p here => isNamed here.1

/-- What the notes say is what the headers have then. -/
theorem getMapinfo_attached {grants : Nat → Grants} {granted : Bool}
    {ret : Except UnwError Unit}
    (fresh : ∀ phdr ∈ phdrs, phdr.pBackingFileIndex = ucdFileNoIndex)
    (got : getMapinfo grants phdrs (ucdFileTableInit granted).2 = .ok (ret, s)) :
    ∃ maps, fileMappings phdrs = .ok maps ∧ (maps.length < 2 ^ 31 → Attached phdrs maps s) := by
  have start : Attached phdrs [] ⟨phdrs, (ucdFileTableInit granted).2, 0⟩ := by
    refine ⟨?_, ?_, rfl, fun p phdr here _ => fresh phdr (List.mem_of_getElem? here), ?_⟩
    · intro files stored
      cases granted with
      | false => cases stored
      | true =>
          cases stored
          rfl
    · cases granted with
      | false => exact Nat.le_refl 0
      | true => exact Nat.le_refl 0
    · intro p phdr m _ last
      cases last
  have kept (m : FileMapping) (maps : List FileMapping) (s s' : Mapinfo)
      (before : maps.length < 2 ^ 31 → Attached phdrs maps s) (attaches : attach grants m s = .ok s')
      (few : (maps ++ [m]).length < 2 ^ 31) : Attached phdrs (maps ++ [m]) s' := by
    refine (before ?_).attach few attaches
    rw [List.length_append] at few
    omega
  obtain ⟨maps, found, attached⟩ := mapinfoLoop_related kept (fun _ => start) got
  exact ⟨maps, by rw [fileMappings, found]; rfl, attached⟩

end Attached

/-! ## What is served from the files -/

/-- Some files were opened and mapped since. -/
def Opened : UcdFileTable → UcdFileTable → Prop :=
  Relation.ReflTransGen fun table table' => ∃ index outcome, table.mapAt index outcome = .ok table'

/-- What `_UCD_access_mem` reads of the headers and of the table. -/
def Mapinfo.ui (s : Mapinfo) (table : UcdFileTable) (coreSize : Nat) : UcdInfo where
  phdrs := s.phdrs.map CorePhdr.toPhdr
  ucdFileTable :=
    ((table.uftFiles.getD []).take (toInt table.uftCount).toNat).map FileEntry.toUcdFile
  coreSize

/-- What the files hold, by their names. -/
def contentsOf (table : UcdFileTable) (core : Nat → Byte) (files : Path → Nat → Byte) : Contents where
  core
  file index offset :=
    match (table.fileAt index).bind (·.filename) with
    | some path => files path offset
    | none => 0

/-- The header that decides sends the read to a file that is mapped. -/
def ServedByFile (ui : UcdInfo) (addr : Word 64) : Prop :=
  ∃ phdr file, ui.phdrs.find? (fun phdr => phdr.Decides ui addr) = some phdr ∧
    phdr.pBackingFileIndex ≠ ucdFileNoIndex ∧
    ucdFileTableAt ui phdr.pBackingFileIndex = some file ∧ phdr.InImage addr file ∧
    file.mapped = true ∧ (phdr.imageOffset addr).toNat + 8 ≤ file.size.toNat

/-- Each byte that a mapping has is the byte of its file there. -/
def MapsRight (maps : List FileMapping) (files : Path → Nat → Byte) (addr : Word 64)
    (val : Stored) : Prop :=
  ∀ m ∈ maps, ∀ k : Fin 8, m.Has (addr.toNat + k) →
    val k = files m.path (m.fileOffset (addr.toNat + k))

/-- What is read is right, whatever the files hold. -/
def ReadsRight (s : Mapinfo) (table : UcdFileTable) (coreSize : Nat) (maps : List FileMapping)
    (addr : Word 64) : Prop :=
  ∀ core files position val,
    accessMem (s.ui table coreSize) (contentsOf table core files) position addr false = .ok val →
      MapsRight maps files addr val

/-- Each mapping that has a byte of the word is of the same file as the one that was attached last
    to the first header that covers the word, and that one, put at the start of the segment, places
    the byte where the mapping does. -/
def EntriesInPlace (phdrs : List CorePhdr) (maps : List FileMapping) (addr : Word 64) : Prop :=
  ∀ (p : Nat) (phdr : CorePhdr), phdrs.findIdx? (fun phdr => phdr.Covers addr) = some p →
    phdrs[p]? = some phdr → ∀ m ∈ maps, ∀ k : Fin 8, m.Has (addr.toNat + k) →
      ∃ last ∈ attachedTo phdrs maps p, last.path = m.path ∧
        (last.mapoff + (addr - phdr.pVaddr)).toNat + k = m.fileOffset (addr.toNat + k)

section Served

variable {phdrs : List CorePhdr} {maps : List FileMapping} {s : Mapinfo} {table : UcdFileTable}
  {coreSize : Nat} {addr : Word 64}

theorem Opened.names (opened : Opened s.table table) {i : Nat} {name : Path}
    (names : s.table.Names i name) : table.Names i name := by
  induction opened with
  | refl => exact names
  | tail _ step ih =>
      obtain ⟨index, outcome, mapped⟩ := step
      exact UcdFileTable.mapAt_names mapped ih

/-- A file that is found is the entry of the table. -/
theorem ucdFileTableAt_ui {index : Int} {file : UcdFile}
    (found : ucdFileTableAt (s.ui table coreSize) index = some file) :
    ∃ files entry, table.uftFiles = some files ∧ files[index.toNat]? = some entry ∧
      table.fileAt index = some entry := by
  have nonneg := ucdFileTableAt_nonneg found
  rw [ucdFileTableAt, if_pos nonneg] at found
  simp only [Mapinfo.ui, List.getElem?_map] at found
  obtain ⟨entry, at', -⟩ := Option.map_eq_some_iff.mp found
  obtain ⟨bound, -⟩ := List.getElem?_eq_some_iff.mp at'
  rw [List.length_take] at bound
  have below : index < toInt table.uftCount := by omega
  rw [List.getElem?_take_of_lt (by omega)] at at'
  cases stored : table.uftFiles with
  | none =>
      rw [stored] at at'
      cases at'
  | some files =>
      rw [stored, Option.getD_some] at at'
      refine ⟨files, entry, rfl, at', ?_⟩
      rw [UcdFileTable.fileAt, if_pos ⟨nonneg, below⟩, stored, Option.bind_some, at']

theorem accessMem_served {ui : UcdInfo} {phdr : Phdr} {file : UcdFile}
    (decides : ui.phdrs.find? (fun phdr => phdr.Decides ui addr) = some phdr)
    (backed : phdr.pBackingFileIndex ≠ ucdFileNoIndex)
    (found : ucdFileTableAt ui phdr.pBackingFileIndex = some file)
    (inImage : phdr.InImage addr file) (mapped : file.mapped = true)
    (inside : (phdr.imageOffset addr).toNat + 8 ≤ file.size.toNat) (contents : Contents)
    (position : Nat) :
    accessMem ui contents position addr false = .ok fun k =>
      contents.file phdr.pBackingFileIndex.toNat ((phdr.imageOffset addr).toNat + k) := by
  simp only [accessMem, Bool.false_eq_true, if_false, accessLoop_eq, decides, decided, backed, found,
    if_pos inImage, copyImage, if_pos (And.intro mapped inside)]

/-- The header that serves the word is the first one that covers it. -/
theorem Attached.covers (attached : Attached phdrs maps s) {phdr : Phdr}
    (decides : (s.ui table coreSize).phdrs.find?
      (fun phdr => phdr.Decides (s.ui table coreSize) addr) = some phdr)
    (inside : phdr.Covers addr) :
    ∃ (p : Nat) (header header' : CorePhdr),
      phdrs.findIdx? (fun phdr => phdr.Covers addr) = some p ∧ phdrs[p]? = some header ∧
        s.phdrs[p]? = some header' ∧ header'.toPhdr = phdr ∧ header.pVaddr = phdr.pVaddr := by
  rw [List.find?_eq_some_iff_getElem] at decides
  obtain ⟨-, p, bound, here, before⟩ := decides
  have bound' : p < s.phdrs.length := by simpa [Mapinfo.ui] using bound
  have same : phdrs.length = s.phdrs.length := by
    have lengths := congrArg List.length attached.same
    simpa using lengths.symm
  have frame (i : Nat) (below : i < s.phdrs.length) (below' : i < phdrs.length) :
      s.phdrs[i].unattached = phdrs[i].unattached := by
    have at' := congrArg (fun l : List CorePhdr => l[i]?) attached.same
    simpa [List.getElem?_eq_getElem below, List.getElem?_eq_getElem below'] using at'
  have vaddr (i : Nat) (below : i < s.phdrs.length) (below' : i < phdrs.length) :
      phdrs[i].pVaddr = s.phdrs[i].pVaddr :=
    (congrArg (fun phdr : CorePhdr => phdr.pVaddr) (frame i below below')).symm
  have covers (i : Nat) (below : i < s.phdrs.length) (below' : i < phdrs.length) :
      phdrs[i].Covers addr ↔ s.phdrs[i].Covers addr := by
    have memsz : phdrs[i].pMemsz = s.phdrs[i].pMemsz :=
      (congrArg (fun phdr : CorePhdr => phdr.pMemsz) (frame i below below')).symm
    rw [Phdr.Covers, Phdr.Covers, vaddr i below below', memsz]
  have isHere : s.phdrs[p].toPhdr = phdr := by simpa [Mapinfo.ui] using here
  have inPhdrs : p < phdrs.length := by omega
  refine ⟨p, phdrs[p], s.phdrs[p], ?_, List.getElem?_eq_getElem _,
    List.getElem?_eq_getElem _, isHere, ?_⟩
  · rw [List.findIdx?_eq_some_iff_getElem]
    refine ⟨inPhdrs, ?_, ?_⟩
    · simp only [decide_eq_true_eq]
      exact (covers p bound' inPhdrs).mpr (isHere ▸ inside)
    · intro i below
      simp only [decide_eq_true_eq]
      intro isCovered
      have passed := before i below
      simp only [Mapinfo.ui, List.getElem_map, Bool.not_eq_true', decide_eq_false_iff_not] at passed
      exact passed (Or.inr ((covers i (by omega) (by omega)).mp isCovered))
  · rw [vaddr p bound' inPhdrs, ← isHere]

/-- Where a word is served from a file, what is read of it is right, whatever the files hold, exactly
    where the mapping that the segment has stands for those that have the word. -/
theorem readsRight_iff {grants : Nat → Grants} {granted : Bool} {ret : Except UnwError Unit}
    (fresh : ∀ phdr ∈ phdrs, phdr.pBackingFileIndex = ucdFileNoIndex)
    (got : getMapinfo grants phdrs (ucdFileTableInit granted).2 = .ok (ret, s))
    (opened : Opened s.table table) (served : ServedByFile (s.ui table coreSize) addr) :
    ∃ maps, fileMappings phdrs = .ok maps ∧ (maps.length < 2 ^ 31 →
      (ReadsRight s table coreSize maps addr ↔ EntriesInPlace phdrs maps addr)) := by
  obtain ⟨maps, found, attached⟩ := getMapinfo_attached fresh got
  refine ⟨maps, found, fun few => ?_⟩
  have attached := attached few
  obtain ⟨phdr, file, decides, backed, atFile, inImage, mapped, inside⟩ := served
  obtain ⟨p, header, header', isFirst, atHeader, atHeader', rfl, vaddr⟩ :=
    attached.covers decides inImage.1
  obtain ⟨files', entry, stored, atEntry, isEntry⟩ := ucdFileTableAt_ui atFile
  have nonneg := ucdFileTableAt_nonneg atFile
  have reads := accessMem_served decides backed atFile inImage mapped inside
  cases last : attachedTo phdrs maps p with
  | none => exact absurd (attached.free p header' atHeader' last) backed
  | some m' =>
      obtain ⟨mapoff, names⟩ := attached.last p header' m' atHeader' last
      obtain ⟨entry', same, isName⟩ := (opened.names (names nonneg)).2 files' stored
      cases atEntry.symm.trans same
      have place : header'.imageOffset addr = m'.mapoff + (addr - header.pVaddr) := by
        rw [Phdr.imageOffset, mapoff, vaddr]
      have byte (core : Nat → Byte) (files : Path → Nat → Byte) (offset : Nat) :
          (contentsOf table core files).file header'.pBackingFileIndex.toNat offset =
            files m'.path offset := by
        simp only [contentsOf, Int.toNat_of_nonneg nonneg, isEntry, Option.bind_some, isName]
      simp only [place] at reads
      constructor
      · intro right q phdr isFirst' atPhdr m mem k has
        cases isFirst.symm.trans isFirst'
        cases atHeader.symm.trans atPhdr
        -- files that tell this byte from all others
        let files (path : Path) (offset : Nat) : Byte :=
          if path = m'.path ∧ offset = (m'.mapoff + (addr - header.pVaddr)).toNat + k then 1 else 0
        have read := right (fun _ => 0) files 0 _ (reads _ _) m mem k has
        simp only [byte, files, and_self, if_true] at read
        by_cases same : m.path = m'.path ∧
            m.fileOffset (addr.toNat + k) = (m'.mapoff + (addr - header.pVaddr)).toNat + k
        · exact ⟨m', last, same.1.symm, same.2.symm⟩
        · rw [if_neg same] at read
          exact absurd read (by decide)
      · intro inPlace core files position val read m mem k has
        cases (reads _ _).symm.trans read
        obtain ⟨m'', isLast, path, offset⟩ := inPlace p header isFirst atHeader m mem k has
        cases last.symm.trans isLast
        simp only [byte, path, offset]

end Served

namespace OneMapping

/-- A note that lists a mapping of the file "a" up to 0x3000, from a multiple of 0x100 on. -/
def note (start : Byte) : NoteSegment .lp64 where
  bytes := [5, 0, 0, 0, 42, 0, 0, 0, 0x45, 0x4c, 0x49, 0x46, 0x43, 0x4f, 0x52, 0x45, 0, 0, 0, 0,
    1, 0, 0, 0, 0, 0, 0, 0, 0, 0x10, 0, 0, 0, 0, 0, 0,
    0, start, 0, 0, 0, 0, 0, 0, 0, 0x30, 0, 0, 0, 0, 0, 0, 0, 0, 0, 0, 0, 0, 0, 0, 0x61, 0, 0, 0]
  bigEndian := false
  fits := by
    change 64 < 2 ^ 63
    decide

/-- The note, and a segment from 0x1000 to 0x3000. -/
def phdrs (start : Byte) : List CorePhdr :=
  [{ pOffset := 0, pVaddr := 0, pFilesz := 64, pMemsz := 0, pBackingFileIndex := ucdFileNoIndex,
     pMapoff := 0, pType := ptNote, segment := some (note start) },
   { pOffset := 64, pVaddr := 0x1000, pFilesz := 0, pMemsz := 0x2000,
     pBackingFileIndex := ucdFileNoIndex, pMapoff := 0, pType := ptLoad, segment := none }]

def mapping (start : Byte) : FileMapping where
  entry := { start := start.setWidth 64 <<< 8, stop := 0x3000, offset := 0 }
  pagesz := 0x1000
  path := [0x61]

/-- What `_UCD_get_mapinfo` makes of them, -/
def mapinfo (start : Byte) : Mapinfo where
  phdrs :=
    [{ pOffset := 0, pVaddr := 0, pFilesz := 64, pMemsz := 0, pBackingFileIndex := ucdFileNoIndex,
       pMapoff := 0, pType := ptNote, segment := some (note start) },
     { pOffset := 64, pVaddr := 0x1000, pFilesz := 0, pMemsz := 0x2000, pBackingFileIndex := 0,
       pMapoff := 0, pType := ptLoad, segment := none }]
  table := ⟨1, 2, some [⟨⟨0, false⟩, some [0x61], -1⟩, .blank]⟩
  inserts := 1

/-- and the table once the file was mapped. -/
def table : UcdFileTable := ⟨1, 2, some [⟨⟨0x2000, true⟩, some [0x61], 3⟩, .blank]⟩

def grants : Nat → Grants := fun _ => ⟨true, true⟩

/-- "a" is two pages long. -/
def outcome : OpenOutcome := ⟨some 3, some 0x2000, true⟩

/-- Where the mapping starts with its segment, the first page is read from the file's first. -/
theorem start_right :
    ∃ maps, fileMappings (phdrs 0x10) = .ok maps ∧ (maps.length < 2 ^ 31 →
      (ReadsRight (mapinfo 0x10) table 64 maps 0x1000 ↔ EntriesInPlace (phdrs 0x10) maps 0x1000)) := by
  have got : getMapinfo grants (phdrs 0x10) (ucdFileTableInit true).2 = .ok (.ok (), mapinfo 0x10) :=
    rfl
  exact readsRight_iff (by simp [phdrs]) got (.single ⟨0, outcome, rfl⟩)
    ⟨_, ⟨0x2000, true⟩, rfl, by decide, rfl, by decide, rfl, by decide⟩

/-- A mapping that starts a page behind its segment is read from the file's second page. -/
theorem behind_wrong :
    getMapinfo grants (phdrs 0x20) (ucdFileTableInit true).2 = .ok (.ok (), mapinfo 0x20) ∧
      fileMappings (phdrs 0x20) = .ok [mapping 0x20] ∧
      (mapinfo 0x20).table.mapAt 0 outcome = .ok table ∧
      ServedByFile ((mapinfo 0x20).ui table 64) 0x2000 ∧
      ¬ReadsRight (mapinfo 0x20) table 64 [mapping 0x20] 0x2000 := by
  have served : ServedByFile ((mapinfo 0x20).ui table 64) 0x2000 :=
    ⟨_, ⟨0x2000, true⟩, rfl, by decide, rfl, by decide, rfl, by decide⟩
  refine ⟨rfl, rfl, rfl, served, fun right => ?_⟩
  have read := right (fun _ => 0) (fun _ offset => if offset = 0 then 1 else 0) 0 _ rfl
    (mapping 0x20) List.mem_cons_self 0 ⟨by decide, by decide⟩
  exact absurd read (by decide)

end OneMapping

end Libunwind.Coredump
