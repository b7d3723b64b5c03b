import Libunwind.Elf.DynamicWalk
import Libunwind.Library.BoundedBuffer

/-! # The debug file of a build-id

`find_build_id_path` goes through the notes of an image to the build-id, and makes the path of the
debug file from it. Sizes are added up in words of 32 bits and of the host.
-/

namespace Libunwind.Elf

open Checked BoundedBuffer

variable {c : ElfClass}

/-- The width of `size_t` and `unsigned long`. -/
inductive DataModel where
  | ilp32
  | lp64
  deriving DecidableEq, Repr

def DataModel.bits : DataModel → Nat
  | .ilp32 => 32
  | .lp64 => 64

namespace ElfClass

/-- `e_phentsize` in `Elf_W(Ehdr)` -/
def ePhentsize : ElfClass → Nat
  | elf32 => 42
  | elf64 => 54

end ElfClass

def ptNote : BitVec 32 := 4
def ntGnuBuildId : BitVec 32 := 3

/-- `ELF_NOTE_GNU` -/
def elfNoteGnu : List Byte := [0x47, 0x4e, 0x55]

/-- `sizeof(Elf_W(Nhdr))` -/
def nhdrSize : Nat := 12

/-- `n` rounded up to a multiple of 4. -/
def alignUp (n : Nat) : Nat := (n + 3) / 4 * 4

/-- `UNW_ALIGN(x, 4)` -/
def unwAlign (h : DataModel) (x : BitVec 32) : Nat := alignUp x.toNat % 2 ^ h.bits

/-- `nameasz`, an `Elf_W(Word)`. -/
def nameAsz (h : DataModel) (namesz : BitVec 32) : Nat := unwAlign h namesz % 2 ^ 32

/-- What is added to `notes`. -/
def noteStep (h : DataModel) (namesz descsz : BitVec 32) : Nat :=
  (nhdrSize + nameAsz h namesz + unwAlign h descsz) % 2 ^ h.bits

/-- The descriptor of a build-id: its place, its size, and where the notes of its segment end. -/
structure Descriptor where
  desc : Nat
  descsz : BitVec 32
  notesEnd : Nat
  deriving DecidableEq, Repr

namespace ElfImage

variable (ei : ElfImage c) (h : DataModel)

/-! ## The notes -/

/-- Reading a field that has to end before a bound. -/
def loadBelow (bound len off : Nat) : Result (BitVec (8 * len)) :=
  if off + len ≤ bound then .ok (ei.field len off) else .error .undefined

/-- `strcmp (name, text) == 0` -/
def strcmpBelow (bound : Nat) : Nat → List Byte → Result Bool
  | name, [] => do
      let ch ← ei.loadBelow bound 1 name
      pure (ch == 0)
  | name, expected :: text => do
      let ch ← ei.loadBelow bound 1 name
      if ch = expected then strcmpBelow bound (name + 1) text else pure false

/-- The loop over the notes of a segment, up to a build-id. -/
def walkNotes (bound notesEnd : Nat) : Nat → Nat → Result (Option Descriptor)
  | 0, _ => .error .timeout
  | fuel + 1, notes =>
      if notes < notesEnd then do
        let namesz ← ei.loadBelow bound 4 notes
        let descsz ← ei.loadBelow bound 4 (notes + 4)
        let name := notes + nhdrSize
        let isBuildId ← (
          if namesz ≠ 4 then pure false
          else do
            let type ← ei.loadBelow bound 4 (notes + 8)
            if type ≠ ntGnuBuildId then pure false
            else ei.strcmpBelow bound name elfNoteGnu)
        if isBuildId then pure (some ⟨name + nameAsz h namesz, descsz, notesEnd⟩)
        else walkNotes bound notesEnd fuel (notes + noteStep h namesz descsz)
      else pure none

/-- The loop over the program headers. The notes of a segment that ends there are read below the
    bound that goes with it. -/
def walkSegments (bound : Nat → Nat) (phentsize : Nat) :
    Nat → Nat → Result (Option Descriptor)
  | 0, _ => pure none
  | phnum + 1, phdr => do
      let pType ← ei.load 4 phdr
      if pType ≠ ptNote then walkSegments bound phentsize phnum (phdr + phentsize)
      else do
        let pFilesz ← ei.load c.bytes (phdr + c.pFilesz)
        if pFilesz = 0 then walkSegments bound phentsize phnum (phdr + phentsize)
        else do
          let pOffset ← ei.load c.bytes (phdr + c.pOffset)
          if ei.size < pOffset then walkSegments bound phentsize phnum (phdr + phentsize)
          else do
            let notesEnd := pOffset.toNat + pFilesz.toNat
            match ← ei.walkNotes h (bound notesEnd) notesEnd (notesEnd + 1) pOffset.toNat with
            | some found => pure (some found)
            | none => walkSegments bound phentsize phnum (phdr + phentsize)

/-- The part of `find_build_id_path` that looks for the note. -/
def findBuildId (bound : Nat → Nat) : Result (Option Descriptor) :=
  if ei.validObject then do
    let phoff ← ei.load c.bytes c.ePhoff
    let phnum ← ei.load 2 c.ePhnum
    let phentsize ← ei.load 2 c.ePhentsize
    ei.walkSegments h bound phentsize.toNat phnum.toNat phoff.toNat
  else pure none

/-! ## What the notes say -/

def namesz (note : Nat) : BitVec 32 := ei.field 4 note

def descsz (note : Nat) : BitVec 32 := ei.field 4 (note + 4)

def noteType (note : Nat) : BitVec 32 := ei.field 4 (note + 8)

/-- A note with a build-id of GNU. -/
def IsBuildId (note : Nat) : Prop :=
  ei.namesz note = 4 ∧ ei.noteType note = ntGnuBuildId ∧
    ei.nameIs (note + nhdrSize) elfNoteGnu = true

instance instDecidableIsBuildId (note : Nat) : Decidable (ei.IsBuildId note) :=
  inferInstanceAs (Decidable (_ ∧ _ ∧ _))

/-- The notes before an end, where each one says where the next one is. -/
def notesBy (next : Nat → Nat) (notesEnd : Nat) : Nat → Nat → List Nat
  | 0, _ => []
  | fuel + 1, note => if note < notesEnd then note :: notesBy next notesEnd fuel (next note) else []

/-- The next note, -/
def nextNote (note : Nat) : Nat :=
  note + nhdrSize + alignUp (ei.namesz note).toNat + alignUp (ei.descsz note).toNat

/-- and the one that the code takes for it. -/
def steppedNote (note : Nat) : Nat := note + noteStep h (ei.namesz note) (ei.descsz note)

def noteSegmentEnd (phdr : Nat) : Nat := (ei.pOffset phdr).toNat + (ei.pFilesz phdr).toNat

/-- The notes of a segment, if it is one of notes that `get_program_segment` gives. -/
def segmentNotes (next : Nat → Nat) (phdr : Nat) : List Nat :=
  if ei.pType phdr = ptNote ∧ ei.pFilesz phdr ≠ 0 ∧ ¬ei.size < ei.pOffset phdr then
    notesBy next (ei.noteSegmentEnd phdr) (ei.noteSegmentEnd phdr + 1) (ei.pOffset phdr).toNat
  else []

def noteSegments : List Nat :=
  places (ei.field 2 c.ePhentsize).toNat (ei.field 2 c.ePhnum).toNat
    (ei.field c.bytes c.ePhoff).toNat

/-- The first build-id of a segment, -/
def segmentBuildId (next : Nat → Nat) (phdr : Nat) : Option Nat :=
  (ei.segmentNotes next phdr).find? fun note => ei.IsBuildId note

/-- and of the image, with the end of the segment. -/
def firstBuildId (next : Nat → Nat) : Option (Nat × Nat) :=
  if ei.validObject then
    ei.noteSegments.findSome? fun phdr =>
      (ei.segmentBuildId next phdr).map fun note => (note, ei.noteSegmentEnd phdr)
  else none

/-! ## What is read -/

/-- A name is read as far as it is the text, and one byte more. -/
def NameRead (bound : Nat) : Nat → List Byte → Prop
  | name, [] => name + 1 ≤ bound
  | name, expected :: text =>
      name + 1 ≤ bound ∧ (ei.byte name = expected → NameRead bound (name + 1) text)

/-- What is read of a note; and one that is no build-id has another one after it. -/
@[mk_iff]
structure NoteRead (bound note : Nat) : Prop where
  namesz : note + 4 ≤ bound
  descsz : note + 4 + 4 ≤ bound
  type : ei.namesz note = 4 → note + 8 + 4 ≤ bound
  name : ei.namesz note = 4 → ei.noteType note = ntGnuBuildId →
    ei.NameRead bound (note + nhdrSize) elfNoteGnu
  moves : ¬ei.IsBuildId note → note < ei.steppedNote h note

/-- What is read of a program header, and of the notes of its segment up to a build-id. -/
@[mk_iff]
structure NoteSegmentRead (bound : Nat → Nat) (phdr : Nat) : Prop where
  type : ei.Inside 4 phdr
  filesz : ei.pType phdr = ptNote → ei.Inside c.bytes (phdr + c.pFilesz)
  offset : ei.pType phdr = ptNote → ei.pFilesz phdr ≠ 0 → ei.Inside c.bytes (phdr + c.pOffset)
  notes : ∀ note ∈ upToFirst ei.IsBuildId (ei.segmentNotes (ei.steppedNote h) phdr),
    ei.NoteRead h (bound (ei.noteSegmentEnd phdr)) note

/-- What is read to find the build-id. -/
@[mk_iff]
structure NotesRead (bound : Nat → Nat) : Prop where
  phoff : ei.Inside c.bytes c.ePhoff
  phnum : ei.Inside 2 c.ePhnum
  segments : ∀ phdr ∈ upToFirst (fun phdr => (ei.segmentBuildId (ei.steppedNote h) phdr).isSome)
    ei.noteSegments, ei.NoteSegmentRead h bound phdr

/-- The descriptor of a build-id, as the code takes it. -/
def descriptorAt (found : Nat × Nat) : Descriptor :=
  ⟨found.1 + nhdrSize + nameAsz h (ei.namesz found.1), ei.descsz found.1, found.2⟩

variable {ei h}

theorem loadBelow_delivers (bound len off : Nat) :
    Delivers (ei.loadBelow bound len off) (off + len ≤ bound) (ei.field len off) :=
  (Delivers.ite (fun _ => Delivers.of_ok _)
    fun _ => Delivers.of_error Fault.undefined (ei.field len off)).congr (by simp) (by simp)

theorem field_one (off : Nat) : ei.field 1 off = ei.byte off := by
  simp [field, value]

theorem strcmpBelow_delivers (bound name : Nat) (text : List Byte) :
    Delivers (ei.strcmpBelow bound name text) (ei.NameRead bound name text)
      (ei.nameIs name text) := by
  induction text generalizing name with
  | nil =>
      refine Delivers.congr ((loadBelow_delivers bound 1 name).bind fun _ =>
        Delivers.of_ok (ei.field 1 name == 0)) ?_ ?_
      · simp [NameRead]
      · rw [field_one]
        exact fun _ => rfl
  | cons expected text ih =>
      refine Delivers.congr ((loadBelow_delivers bound 1 name).bind fun _ =>
        Delivers.ite (fun _ => ih (name + 1)) fun _ => Delivers.of_ok false) ?_ ?_
      · rw [field_one, NameRead]
        grind
      · rw [field_one, nameIs]
        grind

/-- The tests of a note. -/
theorem isBuildId_delivers (bound note : Nat) :
    Delivers (
        if ei.namesz note ≠ 4 then pure false
        else do
          let type ← ei.loadBelow bound 4 (note + 8)
          if type ≠ ntGnuBuildId then pure false
          else ei.strcmpBelow bound (note + nhdrSize) elfNoteGnu : Result Bool)
      ((ei.namesz note = 4 → note + 8 + 4 ≤ bound) ∧
        (ei.namesz note = 4 → ei.noteType note = ntGnuBuildId →
          ei.NameRead bound (note + nhdrSize) elfNoteGnu))
      (decide (ei.IsBuildId note)) := by
  refine Delivers.congr (Delivers.ite (fun _ => Delivers.of_ok false) fun _ =>
    (loadBelow_delivers bound 4 (note + 8)).bind fun _ =>
      Delivers.ite (fun _ => Delivers.of_ok false) fun _ => strcmpBelow_delivers _ _ _) ?_ ?_
  · rw [← noteType]
    grind
  · rw [← noteType]
    unfold IsBuildId
    grind

/-- A round of the loop over notes. -/
theorem walkNotes_succ {bound notesEnd fuel note : Nat} (below : note < notesEnd)
    {p : Prop} {v : Option Descriptor}
    (rest : ¬ei.IsBuildId note →
      Delivers (ei.walkNotes h bound notesEnd fuel (ei.steppedNote h note)) p v) :
    Delivers (ei.walkNotes h bound notesEnd (fuel + 1) note)
      ((note + 4 ≤ bound ∧ note + 4 + 4 ≤ bound ∧ (ei.namesz note = 4 → note + 8 + 4 ≤ bound) ∧
        (ei.namesz note = 4 → ei.noteType note = ntGnuBuildId →
          ei.NameRead bound (note + nhdrSize) elfNoteGnu)) ∧ (¬ei.IsBuildId note → p))
      (if ei.IsBuildId note then some (ei.descriptorAt h (note, notesEnd)) else v) := by
  rw [walkNotes, if_pos below]
  refine Delivers.congr ((loadBelow_delivers bound 4 note).bind fun _ =>
    (loadBelow_delivers bound 4 (note + 4)).bind fun _ =>
    (isBuildId_delivers bound note).bind fun _ =>
    Delivers.ite (fun _ => Delivers.of_ok (some (ei.descriptorAt h (note, notesEnd))))
      fun other => rest (by simpa using other)) ?_ ?_
  · simp only [decide_eq_true_eq]
    grind
  · simp

/-- A note that is no build-id and has no size keeps the loop for ever. -/
theorem walkNotes_forever {bound notesEnd note : Nat} (below : note < notesEnd)
    (other : ¬ei.IsBuildId note) (stays : ei.steppedNote h note = note) (fuel : Nat) :
    Delivers (ei.walkNotes h bound notesEnd fuel note) False none := by
  induction fuel with
  | zero => exact Delivers.of_error Fault.timeout none
  | succ fuel ih =>
      refine Delivers.congr (walkNotes_succ below fun _ => by
        rw [stays]
        exact ih) ?_ ?_
      · simp [other]
      · simp [other]

variable (ei h) in
theorem walkNotes_delivers (bound : Nat) {notesEnd fuel note : Nat}
    (enough : notesEnd - note < fuel) :
    Delivers (ei.walkNotes h bound notesEnd fuel note)
      (∀ n ∈ upToFirst ei.IsBuildId (notesBy (ei.steppedNote h) notesEnd fuel note),
        ei.NoteRead h bound n)
      (((notesBy (ei.steppedNote h) notesEnd fuel note).find? fun n => ei.IsBuildId n).map fun n =>
        ei.descriptorAt h (n, notesEnd)) := by
  induction fuel generalizing note with
  | zero => cases enough
  | succ fuel ih =>
      rw [notesBy]
      by_cases below : note < notesEnd
      · rw [if_pos below, forall_upToFirst_cons, List.find?_cons, noteRead_iff]
        by_cases found : ei.IsBuildId note
        · apply (walkNotes_succ (p := True) (v := none) below fun other => absurd found other).congr
          · simp [found]
          · simp [found]
        · by_cases moves : note < ei.steppedNote h note
          · apply (walkNotes_succ below fun _ => ih (by omega)).congr
            · simp only [moves, implies_true, and_true, and_assoc]
            · simp [found]
          · have stays : ei.steppedNote h note = note :=
              Nat.le_antisymm (Nat.not_lt.mp moves) (Nat.le_add_right _ _)
            apply (walkNotes_forever below found stays _).congr
            · simp [found, stays]
            · exact False.elim
      · rw [if_neg below, walkNotes, if_neg below]
        exact (Delivers.of_ok none).congr (by simp [upToFirst]) fun _ => rfl

/-- A round of the loop over program headers. -/
theorem walkSegments_succ {bound : Nat → Nat} {phentsize phnum phdr : Nat} {p : Prop}
    {v : Option (Nat × Nat)}
    (rest : Delivers (ei.walkSegments h bound phentsize phnum (phdr + phentsize)) p
      (v.map (ei.descriptorAt h))) :
    Delivers (ei.walkSegments h bound phentsize (phnum + 1) phdr)
      (ei.NoteSegmentRead h bound phdr ∧
        (¬(ei.segmentBuildId (ei.steppedNote h) phdr).isSome → p))
      ((((ei.segmentBuildId (ei.steppedNote h) phdr).map fun note =>
        (note, ei.noteSegmentEnd phdr)).or v).map (ei.descriptorAt h)) := by
  have notes := walkNotes_delivers ei h (bound (ei.noteSegmentEnd phdr))
    (Nat.lt_succ_of_le (Nat.sub_le (ei.noteSegmentEnd phdr) (ei.pOffset phdr).toNat))
  rw [segmentBuildId, noteSegmentRead_iff]
  by_cases given : ei.pType phdr = ptNote ∧ ei.pFilesz phdr ≠ 0 ∧ ¬ei.size < ei.pOffset phdr
  · rw [segmentNotes, if_pos given]
    obtain ⟨isNote, nonempty, within⟩ := given
    cases found : (notesBy (ei.steppedNote h) (ei.noteSegmentEnd phdr)
        (ei.noteSegmentEnd phdr + 1) (ei.pOffset phdr).toNat).find? fun n => ei.IsBuildId n with
    | none =>
        rw [found] at notes
        refine Delivers.congr ((load_delivers 4 phdr).bind fun _ =>
          Delivers.ite (fun _ => rest) fun _ => (load_delivers c.bytes (phdr + c.pFilesz)).bind
          fun _ => Delivers.ite (fun _ => rest) fun _ =>
          (load_delivers c.bytes (phdr + c.pOffset)).bind fun _ => Delivers.ite (fun _ => rest)
          fun _ => notes.bind fun _ => by exact rest) ?_ ?_
        · rw [← pType, ← pFilesz, ← pOffset]
          grind
        · grind
    | some note =>
        rw [found] at notes
        refine Delivers.congr ((load_delivers 4 phdr).bind fun _ =>
          Delivers.ite (fun _ => rest) fun _ => (load_delivers c.bytes (phdr + c.pFilesz)).bind
          fun _ => Delivers.ite (fun _ => rest) fun _ =>
          (load_delivers c.bytes (phdr + c.pOffset)).bind fun _ => Delivers.ite (fun _ => rest)
          fun _ => notes.bind fun _ => by
            exact Delivers.of_ok (some (ei.descriptorAt h (note, ei.noteSegmentEnd phdr)))) ?_ ?_
        · rw [← pType, ← pFilesz, ← pOffset]
          grind
        · intro _
          rw [← pType, ← pFilesz, ← pOffset, if_neg (not_not.mpr isNote), if_neg nonempty,
            if_neg within]
          rfl
  · rw [segmentNotes, if_neg given]
    refine Delivers.congr ((load_delivers 4 phdr).bind fun _ => Delivers.ite (fun _ => rest)
      fun isNote => (load_delivers c.bytes (phdr + c.pFilesz)).bind fun _ =>
      Delivers.ite (fun _ => rest) fun nonempty =>
      (load_delivers c.bytes (phdr + c.pOffset)).bind fun _ => Delivers.ite (fun _ => rest)
      fun within => .of_absurd (given ⟨not_not.mp isNote, nonempty, within⟩) none) ?_ ?_
    · rw [← pType, ← pFilesz, ← pOffset]
      simp only [upToFirst]
      grind
    · rw [← pType, ← pFilesz, ← pOffset]
      simp only [List.find?_nil]
      grind

theorem walkSegments_delivers (bound : Nat → Nat) (phentsize phnum phdr : Nat) :
    Delivers (ei.walkSegments h bound phentsize phnum phdr)
      (∀ p ∈ upToFirst (fun p => (ei.segmentBuildId (ei.steppedNote h) p).isSome)
        (places phentsize phnum phdr), ei.NoteSegmentRead h bound p)
      (((places phentsize phnum phdr).findSome? fun p =>
        (ei.segmentBuildId (ei.steppedNote h) p).map fun note =>
          (note, ei.noteSegmentEnd p)).map (ei.descriptorAt h)) := by
  induction phnum generalizing phdr with
  | zero => exact (Delivers.of_ok none).congr (by simp [places, upToFirst]) fun _ => rfl
  | succ phnum ih =>
      apply (walkSegments_succ (ih (phdr + phentsize))).congr
      · rw [places, forall_upToFirst_cons]
      · intro _
        rw [places, List.findSome?_cons]
        cases ei.segmentBuildId (ei.steppedNote h) phdr with
        | none => rfl
        | some note => rfl

theorem findBuildId_delivers (valid : ei.validObject = true) (bound : Nat → Nat) :
    Delivers (ei.findBuildId h bound) (ei.NotesRead h bound)
      ((ei.firstBuildId (ei.steppedNote h)).map (ei.descriptorAt h)) := by
  have before (phnum : ei.Inside 2 c.ePhnum) : ei.Inside 2 c.ePhentsize := by
    unfold Inside at *
    cases c with
    | elf32 =>
        simp only [ElfClass.ePhnum, ElfClass.ePhentsize] at *
        omega
    | elf64 =>
        simp only [ElfClass.ePhnum, ElfClass.ePhentsize] at *
        omega
  rw [findBuildId, if_pos valid, firstBuildId, if_pos valid]
  refine Delivers.congr ((load_delivers c.bytes c.ePhoff).bind fun _ =>
    (load_delivers 2 c.ePhnum).bind fun _ => (load_delivers 2 c.ePhentsize).bind fun _ =>
    walkSegments_delivers bound _ _ _) ?_ fun _ => rfl
  rw [notesRead_iff, noteSegments]
  grind

/-! ## Wider bounds -/

section Bounds

variable {bound bound' : Nat → Nat} (wider : ∀ notesEnd, bound notesEnd ≤ bound' notesEnd)

theorem NameRead.mono {b b' name : Nat} {text : List Byte} (le : b ≤ b')
    (read : ei.NameRead b name text) : ei.NameRead b' name text := by
  induction text generalizing name with
  | nil => exact Nat.le_trans read le
  | cons expected text ih =>
      obtain ⟨here, later⟩ := read
      exact ⟨Nat.le_trans here le, fun same => ih (later same)⟩

theorem NoteRead.mono {b b' note : Nat} (le : b ≤ b') (read : ei.NoteRead h b note) :
    ei.NoteRead h b' note where
  namesz := Nat.le_trans read.namesz le
  descsz := Nat.le_trans read.descsz le
  type four := Nat.le_trans (read.type four) le
  name four gnu := (read.name four gnu).mono le
  moves := read.moves

include wider in
theorem NotesRead.mono (read : ei.NotesRead h bound) : ei.NotesRead h bound' := by
  refine ⟨read.phoff, read.phnum, ?_⟩
  intro phdr come
  have segment := read.segments phdr come
  refine ⟨segment.type, segment.filesz, segment.offset, ?_⟩
  intro note first
  exact (segment.notes note first).mono (wider _)

end Bounds

/-! ## Sizes that do not wrap -/

/-- The size of a name can be rounded up, and the sizes of a note can be added. -/
def NoWrap (h : DataModel) (ei : ElfImage c) (note : Nat) : Prop :=
  alignUp (ei.namesz note).toNat < 2 ^ 32 ∧
    nhdrSize + alignUp (ei.namesz note).toNat + alignUp (ei.descsz note).toNat < 2 ^ h.bits

theorem steppedNote_eq {note : Nat} (small : NoWrap h ei note) :
    ei.steppedNote h note = ei.nextNote note := by
  obtain ⟨name, whole⟩ := small
  have nameSmall : alignUp (ei.namesz note).toNat < 2 ^ h.bits := by omega
  have descSmall : alignUp (ei.descsz note).toNat < 2 ^ h.bits := by omega
  rw [steppedNote, nextNote, noteStep, nameAsz, unwAlign, unwAlign, Nat.mod_eq_of_lt nameSmall,
    Nat.mod_eq_of_lt name, Nat.mod_eq_of_lt descSmall, Nat.mod_eq_of_lt whole]
  omega

theorem notesBy_eq {notesEnd fuel note : Nat}
    (small : ∀ n ∈ notesBy ei.nextNote notesEnd fuel note, NoWrap h ei n) :
    notesBy (ei.steppedNote h) notesEnd fuel note = notesBy ei.nextNote notesEnd fuel note := by
  induction fuel generalizing note with
  | zero => rfl
  | succ fuel ih =>
      rw [notesBy] at small
      rw [notesBy, notesBy]
      by_cases below : note < notesEnd
      · rw [if_pos below] at small
        rw [if_pos below, if_pos below, steppedNote_eq (small note List.mem_cons_self)]
        congr 1
        exact ih fun n later => small n (List.mem_cons_of_mem note later)
      · rw [if_neg below, if_neg below]

/-- Where no size wraps, the code comes to the first build-id. -/
theorem firstBuildId_eq (small : ∀ phdr ∈ ei.noteSegments, ∀ note ∈ ei.segmentNotes ei.nextNote phdr,
    NoWrap h ei note) : ei.firstBuildId (ei.steppedNote h) = ei.firstBuildId ei.nextNote := by
  have same : ∀ phdr ∈ ei.noteSegments,
      ei.segmentNotes (ei.steppedNote h) phdr = ei.segmentNotes ei.nextNote phdr := by
    intro phdr among
    have here := small phdr among
    rw [segmentNotes] at here
    rw [segmentNotes, segmentNotes]
    split
    next given =>
      rw [if_pos given] at here
      exact notesBy_eq here
    · rfl
  rw [firstBuildId, firstBuildId]
  congr 1
  generalize ei.noteSegments = phdrs at same
  induction phdrs with
  | nil => rfl
  | cons phdr phdrs ih =>
      rw [List.findSome?_cons, List.findSome?_cons, segmentBuildId, segmentBuildId,
        same phdr List.mem_cons_self, ih fun p among => same p (List.mem_cons_of_mem phdr among)]

end ElfImage

end Libunwind.Elf
