import Libunwind.Basic

/-! # Reading memory from a core dump

`_UCD_access_mem` on a 64-bit host. The first program header that covers the word
decides: its backing file is read where that is mapped and large enough, and the core file
otherwise. The range that is tested is `p_memsz` long, but the core file holds only
`p_filesz` bytes of a segment.
-/

namespace Libunwind.Coredump

/-- `coredump_phdr_t`. -/
structure Phdr where
  pOffset : Word 64
  pVaddr : Word 64
  pFilesz : Word 64
  pMemsz : Word 64
  pBackingFileIndex : Int
  /-- The offset of the mapping in its backing file. -/
  pMapoff : Word 64

/-- `ucd_file_no_index`. -/
def ucdFileNoIndex : Int := -1

/-- `ucd_file_t`; it is mapped once its `image` is not `NULL`. -/
structure UcdFile where
  size : Word 64
  mapped : Bool

/-- What `_UCD_access_mem` reads of `UCD_info`, and how large the core file is. -/
structure UcdInfo where
  phdrs : List Phdr
  ucdFileTable : List UcdFile
  coreSize : Nat

/-- What the core file and the backing files hold. -/
structure Contents where
  core : Nat → Byte
  file : Nat → Nat → Byte

/-- The bytes that are stored into `*val`. -/
abbrev Stored := Fin 8 → Byte

def ucdFileTableAt (ui : UcdInfo) (index : Int) : Option UcdFile :=
  if 0 ≤ index then ui.ucdFileTable[index.toNat]? else none

/-- `lseek` to an offset, from a position: where the file is then, and what it returns. -/
def lseek (position : Nat) (offset : Word 64) : Nat × Word 64 :=
  if offset.msb then (position, -1) else (offset.toNat, offset)

section AccessMem

variable (ui : UcdInfo) (contents : Contents) (position : Nat) (addr : Word 64)

/-- The test that the word is in the segment. -/
def Phdr.Covers (phdr : Phdr) : Prop :=
  let addrLast := addr + 8 - 1
  phdr.pVaddr ≤ addr ∧ addrLast < phdr.pVaddr + phdr.pMemsz

instance (phdr : Phdr) : Decidable (phdr.Covers addr) := inferInstanceAs (Decidable (_ ∧ _))

def Phdr.imageOffset (phdr : Phdr) : Word 64 := phdr.pMapoff + (addr - phdr.pVaddr)

def Phdr.fileofs (phdr : Phdr) : Word 64 := phdr.pOffset + (addr - phdr.pVaddr)

/-- The word is in the segment, and in the backing file. -/
def Phdr.InImage (phdr : Phdr) (file : UcdFile) : Prop :=
  phdr.Covers addr ∧ phdr.imageOffset addr + 8 ≤ file.size

instance (phdr : Phdr) (file : UcdFile) : Decidable (phdr.InImage addr file) :=
  inferInstanceAs (Decidable (_ ∧ _))

/-- `memcpy` from the image. -/
def copyImage (index : Nat) (file : UcdFile) (offset : Nat) : Result Stored :=
  if file.mapped ∧ offset + 8 ≤ file.size.toNat then
    .ok fun k => contents.file index (offset + k)
  else .error .undefined

/-- `lseek` and `read` on the core file. -/
def readCore (fileofs : Word 64) : Result Stored :=
  let (at', returned) := lseek position fileofs
  if returned ≠ fileofs then .error (.err .inval)
  else if at' + 8 ≤ ui.coreSize then .ok fun k => contents.core (at' + k)
  else .error (.err .inval)

/-- The loop over the program headers. -/
def accessLoop : List Phdr → Result Stored
  | [] => .error (.err .inval)
  | phdr :: phdrs =>
      let onDisk := if phdr.Covers addr then readCore ui contents position (phdr.fileofs addr)
        else accessLoop phdrs
      -- First check the (in-memory) backup file image.
      if phdr.pBackingFileIndex ≠ ucdFileNoIndex then
        match ucdFileTableAt ui phdr.pBackingFileIndex with
        | none => .error (.err .inval)
        | some file =>
            if phdr.InImage addr file then
              copyImage contents phdr.pBackingFileIndex.toNat file (phdr.imageOffset addr).toNat
            else onDisk
      -- Next, check the on-disk corefile.
      else onDisk

def accessMem (write : Bool) : Result Stored :=
  if write then .error (.err .inval) else accessLoop ui contents position addr ui.phdrs

end AccessMem

/-! ## What is stored of a segment -/

/-- The byte at address `a` was dumped: it is at `offset` in the core file. -/
def Phdr.DumpedAt (phdr : Phdr) (a offset : Nat) : Prop :=
  phdr.pVaddr.toNat ≤ a ∧ a < phdr.pVaddr.toNat + phdr.pFilesz.toNat ∧
    offset = phdr.pOffset.toNat + (a - phdr.pVaddr.toNat)

/-- The byte at address `a` was not dumped: it is at `offset` in the backing file. -/
def Phdr.MappedAt (phdr : Phdr) (a offset : Nat) : Prop :=
  phdr.pVaddr.toNat + phdr.pFilesz.toNat ≤ a ∧ a < phdr.pVaddr.toNat + phdr.pMemsz.toNat ∧
    offset = phdr.pMapoff.toNat + (a - phdr.pVaddr.toNat)

/-- The byte that the files hold for an address of a segment. -/
def Holds (ui : UcdInfo) (contents : Contents) (phdr : Phdr) (a : Nat) (b : Byte) : Prop :=
  (∃ offset, phdr.DumpedAt a offset ∧ offset < ui.coreSize ∧ contents.core offset = b) ∨
    ∃ offset file, phdr.MappedAt a offset ∧
      ucdFileTableAt ui phdr.pBackingFileIndex = some file ∧ file.mapped = true ∧
      offset < file.size.toNat ∧ contents.file phdr.pBackingFileIndex.toNat offset = b

/-- The word that the files hold for an address, all in one segment. -/
def HoldsWord (ui : UcdInfo) (contents : Contents) (addr : Word 64) (val : Stored) : Prop :=
  ∃ phdr ∈ ui.phdrs, ∀ k : Fin 8, Holds ui contents phdr (addr.toNat + k) (val k)

/-- What a read should give: the word that the files hold, or a negative number. -/
def Answers (ui : UcdInfo) (contents : Contents) (addr : Word 64) (result : Result Stored) : Prop :=
  (∃ val, result = .ok val ∧ HoldsWord ui contents addr val) ∨ IsNegative result

/-! ## The header that decides -/

section Decides

variable (ui : UcdInfo) (position : Nat) (addr : Word 64)

/-- The loop does not go on behind this header. -/
def Phdr.Decides (phdr : Phdr) : Prop :=
  (phdr.pBackingFileIndex ≠ ucdFileNoIndex ∧ ucdFileTableAt ui phdr.pBackingFileIndex = none) ∨
    phdr.Covers addr

instance (phdr : Phdr) : Decidable (phdr.Decides ui addr) := inferInstanceAs (Decidable (_ ∨ _))

/-- What the loop does with the header at which it ends. -/
def decided (contents : Contents) (phdr : Phdr) : Result Stored :=
  if phdr.pBackingFileIndex = ucdFileNoIndex then
    readCore ui contents position (phdr.fileofs addr)
  else
    match ucdFileTableAt ui phdr.pBackingFileIndex with
    | none => .error (.err .inval)
    | some file =>
        if phdr.InImage addr file then
          copyImage contents phdr.pBackingFileIndex.toNat file (phdr.imageOffset addr).toNat
        else readCore ui contents position (phdr.fileofs addr)

/-- Where the core file is read for an offset: `lseek` takes the offset -1 for its own
    error, and the file stays where it is. -/
def corePlace (fileofs : Word 64) : Option Nat :=
  if fileofs = -1 then some position else if fileofs.msb then none else some fileofs.toNat

/-- Reading the header's backing file reads what is not in the core file, and from where
    it belongs. -/
def Phdr.ImageInPlace (phdr : Phdr) (file : UcdFile) : Prop :=
  (file.mapped = true ∧ (phdr.imageOffset addr).toNat + 8 ≤ file.size.toNat) ∧
    ∃ seg ∈ ui.phdrs, seg.pBackingFileIndex = phdr.pBackingFileIndex ∧
      ∀ k : Fin 8, seg.MappedAt (addr.toNat + k) ((phdr.imageOffset addr).toNat + k)

/-- Reading the core file fails, or it reads what was dumped. -/
def Phdr.CoreInPlace (phdr : Phdr) : Prop :=
  ∀ offset, corePlace position (phdr.fileofs addr) = some offset → offset + 8 ≤ ui.coreSize →
    ∃ seg ∈ ui.phdrs, ∀ k : Fin 8, seg.DumpedAt (addr.toNat + k) (offset + k)

/-- The header that decides sends the read to where a segment's word is stored. -/
def ReadsInPlace : Prop :=
  ∀ phdr ∈ ui.phdrs.find? (fun phdr => phdr.Decides ui addr),
    if phdr.pBackingFileIndex = ucdFileNoIndex then phdr.CoreInPlace ui position addr
    else ∀ file ∈ ucdFileTableAt ui phdr.pBackingFileIndex,
      if phdr.InImage addr file then phdr.ImageInPlace ui addr file
      else phdr.CoreInPlace ui position addr

variable {ui position addr}

theorem accessLoop_eq (contents : Contents) (phdrs : List Phdr) :
    accessLoop ui contents position addr phdrs =
      match phdrs.find? (fun phdr => phdr.Decides ui addr) with
      | none => .error (.err .inval)
      | some phdr => decided ui position addr contents phdr := by
  induction phdrs with
  | nil => rfl
  | cons phdr phdrs ih =>
      by_cases decides : phdr.Decides ui addr
      · rw [List.find?_cons_of_pos (by simpa using decides)]
        by_cases none : phdr.pBackingFileIndex = ucdFileNoIndex
        · have covers : phdr.Covers addr := decides.resolve_left fun h => h.1 none
          simp only [accessLoop, decided, none, ne_eq, not_true_eq_false, if_false, if_true, covers]
        · cases found : ucdFileTableAt ui phdr.pBackingFileIndex with
          | none =>
              simp only [accessLoop, decided, none, ne_eq, not_false_eq_true, if_true, if_false,
                found]
          | some file =>
              have covers : phdr.Covers addr :=
                decides.resolve_left fun h => nomatch found.symm.trans h.2
              simp only [accessLoop, decided, none, ne_eq, not_false_eq_true, if_true, if_false,
                found, covers]
      · rw [List.find?_cons_of_neg (by simpa using decides), ← ih]
        obtain ⟨valid, outside⟩ := not_or.mp decides
        have notInImage (file : UcdFile) : ¬ phdr.InImage addr file := fun h => outside h.1
        by_cases none : phdr.pBackingFileIndex = ucdFileNoIndex
        · simp only [accessLoop, none, ne_eq, not_true_eq_false, if_false, outside]
        · cases found : ucdFileTableAt ui phdr.pBackingFileIndex with
          | none => exact absurd ⟨none, found⟩ valid
          | some file =>
              simp only [accessLoop, none, ne_eq, not_false_eq_true, if_true, found, notInImage,
                if_false, outside]

theorem readCore_eq (contents : Contents) (fileofs : Word 64) :
    readCore ui contents position fileofs =
      match corePlace position fileofs with
      | none => .error (.err .inval)
      | some offset =>
          if offset + 8 ≤ ui.coreSize then .ok fun k => contents.core (offset + k)
          else .error (.err .inval) := by
  by_cases error : fileofs = -1
  · subst error
    rfl
  · cases negative : fileofs.msb with
    | true => simp only [readCore, lseek, corePlace, negative, error, if_true, if_false, ne_eq,
        Ne.symm error, not_false_eq_true]
    | false => simp only [readCore, lseek, corePlace, negative, error, Bool.false_eq_true, if_false,
        ne_eq, not_true_eq_false]

/-! ## Contents that tell every place from the others -/

/-- The bytes from `start` on are 1 to 8, and all others 0. -/
def marked (start offset : Nat) : Byte :=
  if start ≤ offset ∧ offset < start + 8 then .ofNat 8 (offset - start + 1) else 0

theorem marked_place (start : Nat) (k : Fin 8) :
    marked start (start + k) = .ofNat 8 (k.val + 1) := by
  rw [marked, if_pos (by omega), Nat.add_sub_cancel_left]

theorem marked_ne_zero (start : Nat) (k : Fin 8) : marked start (start + k) ≠ 0 := by
  rw [marked_place]
  revert k
  decide

theorem marked_eq {start offset : Nat} {k : Fin 8}
    (same : marked start offset = marked start (start + k)) : offset = start + k := by
  by_cases inside : start ≤ offset ∧ offset < start + 8
  · obtain ⟨j, rfl⟩ := Nat.exists_eq_add_of_le inside.1
    have small : j < 8 := by omega
    have one : ∀ i j : Fin 8, BitVec.ofNat 8 (i.val + 1) = BitVec.ofNat 8 (j.val + 1) → i = j := by
      decide
    have read : marked start (start + j) = .ofNat 8 (j + 1) := marked_place start ⟨j, small⟩
    rw [read, marked_place] at same
    rw [← one ⟨j, small⟩ k same]
  · rw [marked, if_neg inside] at same
    exact absurd same.symm (marked_ne_zero start k)

theorem answers_ok {contents : Contents} {val : Stored} :
    Answers ui contents addr (.ok val) ↔ HoldsWord ui contents addr val := by
  constructor
  · intro answers
    cases answers with
    | inl word =>
        obtain ⟨_, same, holds⟩ := word
        cases same
        exact holds
    | inr negative => exact nomatch negative
  · intro holds
    exact Or.inl ⟨val, rfl, holds⟩

theorem answers_negative (contents : Contents) (code : UnwError) :
    Answers ui contents addr (.error (.err code)) := Or.inr ⟨code, rfl⟩

theorem ucdFileTableAt_nonneg {index : Int} {file : UcdFile}
    (found : ucdFileTableAt ui index = some file) : 0 ≤ index := by
  by_contra negative
  rw [ucdFileTableAt, if_neg negative] at found
  exact nomatch found

theorem readCore_answers_iff (phdr : Phdr) :
    (∀ contents, Answers ui contents addr
      (readCore ui contents position (phdr.fileofs addr))) ↔ phdr.CoreInPlace ui position addr := by
  simp only [readCore_eq, Phdr.CoreInPlace]
  cases corePlace position (phdr.fileofs addr) with
  | none => simp only [answers_negative, implies_true, reduceCtorEq, false_implies]
  | some offset =>
      simp only [Option.some.injEq, forall_eq']
      by_cases fits : offset + 8 ≤ ui.coreSize
      · simp only [fits, if_true, answers_ok, true_implies]
        constructor
        · intro holds
          obtain ⟨seg, member, word⟩ := holds { core := marked offset, file := fun _ _ => 0 }
          refine ⟨seg, member, fun k => ?_⟩
          cases word k with
          | inl dumped =>
              obtain ⟨at', place, -, same⟩ := dumped
              exact marked_eq same ▸ place
          | inr mapped =>
              obtain ⟨_, _, _, _, _, _, zero⟩ := mapped
              exact absurd zero.symm (marked_ne_zero offset k)
        · rintro ⟨seg, member, place⟩ contents
          exact ⟨seg, member, fun k => Or.inl ⟨_, place k, by omega, rfl⟩⟩
      · simp only [fits, if_false, answers_negative, implies_true, false_implies]

theorem copyImage_answers_iff (phdr : Phdr) {file : UcdFile}
    (found : ucdFileTableAt ui phdr.pBackingFileIndex = some file) :
    (∀ contents, Answers ui contents addr (copyImage contents phdr.pBackingFileIndex.toNat file
      (phdr.imageOffset addr).toNat)) ↔ phdr.ImageInPlace ui addr file := by
  simp only [copyImage, Phdr.ImageInPlace]
  by_cases inside : file.mapped = true ∧ (phdr.imageOffset addr).toNat + 8 ≤ file.size.toNat
  · simp only [if_pos inside, answers_ok]
    constructor
    · intro holds
      obtain ⟨seg, member, word⟩ := holds
        { core := fun _ => 0
          file := fun i offset => if i = phdr.pBackingFileIndex.toNat then
            marked (phdr.imageOffset addr).toNat offset else 0 }
      simp only [if_true] at word
      have mapped (k : Fin 8) : seg.pBackingFileIndex = phdr.pBackingFileIndex ∧
          seg.MappedAt (addr.toNat + k) ((phdr.imageOffset addr).toNat + k) := by
        cases word k with
        | inl dumped =>
            obtain ⟨_, _, _, zero⟩ := dumped
            exact absurd zero.symm (marked_ne_zero _ k)
        | inr mapped =>
            obtain ⟨at', file', place, found', _, _, same⟩ := mapped
            by_cases index : seg.pBackingFileIndex.toNat = phdr.pBackingFileIndex.toNat
            · simp only [if_pos index] at same
              have first := ucdFileTableAt_nonneg found'
              have second := ucdFileTableAt_nonneg found
              exact ⟨by omega, marked_eq same ▸ place⟩
            · simp only [if_neg index] at same
              exact absurd same.symm (marked_ne_zero _ k)
      exact ⟨inside, seg, member, (mapped 0).1, fun k => (mapped k).2⟩
    · rintro ⟨-, seg, member, index, place⟩ contents
      refine ⟨seg, member, fun k => Or.inr ⟨_, file, place k, index ▸ found, inside.1, by omega, ?_⟩⟩
      rw [index]
  · simp only [inside, if_false, false_and, iff_false]
    intro answers
    cases answers { core := fun _ => 0, file := fun _ _ => 0 } with
    | inl word =>
        obtain ⟨_, same, _⟩ := word
        exact nomatch same
    | inr negative => exact nomatch negative

/-- A word that was dumped is read from its place. -/
theorem coreInPlace_of_dumped {phdr : Phdr} (member : phdr ∈ ui.phdrs) (start : phdr.pVaddr ≤ addr)
    (dumped : addr.toNat + 8 ≤ phdr.pVaddr.toNat + phdr.pFilesz.toNat)
    (small : phdr.pOffset.toNat + phdr.pFilesz.toNat < 2 ^ 63) :
    phdr.CoreInPlace ui position addr := by
  have le : phdr.pVaddr.toNat ≤ addr.toNat := start
  have delta : (addr - phdr.pVaddr).toNat = addr.toNat - phdr.pVaddr.toNat :=
    BitVec.toNat_sub_of_le start
  have sum : (phdr.fileofs addr).toNat = phdr.pOffset.toNat + (addr.toNat - phdr.pVaddr.toNat) := by
    rw [Phdr.fileofs, BitVec.toNat_add, delta, Nat.mod_eq_of_lt (by omega)]
  intro offset place fits
  have positive : (phdr.fileofs addr).msb = false := by
    rw [BitVec.msb_eq_false_iff_two_mul_lt, sum]
    omega
  have noError : phdr.fileofs addr ≠ -1 := by
    intro same
    rw [same] at positive
    exact nomatch positive
  rw [corePlace, if_neg noError, positive, if_neg Bool.false_ne_true, Option.some.injEq, sum] at place
  refine ⟨phdr, member, fun k => ⟨by omega, by omega, by omega⟩⟩

end Decides

/-! ## A partly dumped segment -/

namespace HalfDumped

/-- The last sixteen bytes of the first segment were not dumped; in the core file, the
    second segment follows. -/
def ui : UcdInfo where
  phdrs :=
    [{ pOffset := 0x1000, pVaddr := 0x400000, pFilesz := 0x10, pMemsz := 0x20,
       pBackingFileIndex := ucdFileNoIndex, pMapoff := 0 },
     { pOffset := 0x1010, pVaddr := 0x500000, pFilesz := 0x10, pMemsz := 0x10,
       pBackingFileIndex := ucdFileNoIndex, pMapoff := 0 }]
  ucdFileTable := []
  coreSize := 0x1020

def contents : Contents where
  core offset := .ofNat 8 offset
  file _ _ := 0

end HalfDumped

end Libunwind.Coredump
