import Libunwind.Basic

/-! # Sections of an ELF image

The routines that find the section headers of an image, its string tables and a section by its
name. Every field comes from the image, which may say anything.
-/

namespace Libunwind.Elf

/-- `UNW_ELF_CLASS` -/
inductive ElfClass where
  | elf32
  | elf64
  deriving DecidableEq, Repr

namespace ElfClass

/-- The bytes of `Elf_W(Addr)` and `Elf_W(Off)`. -/
def bytes : ElfClass → Nat
  | elf32 => 4
  | elf64 => 8

abbrev bits (c : ElfClass) : Nat := 8 * c.bytes

/-- `e_ident[EI_CLASS]` -/
def ident : ElfClass → Byte
  | elf32 => 1
  | elf64 => 2

/-! The places of the fields in `Elf_W(Ehdr)`, -/

def eShoff : ElfClass → Nat
  | elf32 => 32
  | elf64 => 40

def eShentsize : ElfClass → Nat
  | elf32 => 46
  | elf64 => 58

def eShnum : ElfClass → Nat
  | elf32 => 48
  | elf64 => 60

def eShstrndx : ElfClass → Nat
  | elf32 => 50
  | elf64 => 62

/-! and in `Elf_W(Shdr)`, where `sh_name` comes first. -/

def shdrSize : ElfClass → Nat
  | elf32 => 40
  | elf64 => 64

def shOffset : ElfClass → Nat
  | elf32 => 16
  | elf64 => 24

def shSize : ElfClass → Nat
  | elf32 => 20
  | elf64 => 32

end ElfClass

variable {c : ElfClass}

/-- `struct elf_image`: what is in memory from `image` on, of which `size` bytes are the image. -/
structure ElfImage (c : ElfClass) where
  size : Word c.bits
  byte : Nat → Byte
  bigEndian : Bool

namespace ElfImage

variable (ei : ElfImage c)

/-- The number that so many bytes make. -/
def value : Nat → Nat → Nat
  | 0, _ => 0
  | len + 1, off =>
      if ei.bigEndian then (ei.byte off).toNat * 256 ^ len + value len (off + 1)
      else (ei.byte off).toNat + 256 * value len (off + 1)

/-- A field, wherever it is. -/
def field (len off : Nat) : BitVec (8 * len) := BitVec.ofNat (8 * len) (ei.value len off)

/-- A field is within the image. -/
def Inside (len off : Nat) : Prop := off + len ≤ ei.size.toNat

instance instDecidableInside (len off : Nat) : Decidable (ei.Inside len off) :=
  inferInstanceAs (Decidable (_ ≤ _))

/-- Reading a field of a header. -/
def load (len off : Nat) : Result (BitVec (8 * len)) :=
  if ei.Inside len off then .ok (ei.field len off) else .error .undefined

/-- `valid_object` -/
def validObject : Bool :=
  6 < ei.size.toNat && ei.byte 0 == 0x7f && ei.byte 1 == 0x45 && ei.byte 2 == 0x4c &&
    ei.byte 3 == 0x46 && ei.byte 4 == c.ident && ei.byte 6 == 1

/-- `section_table`; `e_shnum * e_shentsize` is a product of two `int`. -/
def sectionTable : Result (Option Nat) := do
  let soff ← ei.load c.bytes c.eShoff
  let shnum ← ei.load 2 c.eShnum
  let shentsize ← ei.load 2 c.eShentsize
  let total := shnum.toNat * shentsize.toNat
  if 2 ^ 31 ≤ total then .error .undefined
  else if ei.size < soff + BitVec.ofNat c.bits total then pure none
  else pure (some soff.toNat)

/-- `string_table`, with the size of the table. -/
def stringRange (sectionIndex : BitVec 32) : Result (Option (Nat × Nat)) := do
  let soff ← ei.load c.bytes c.eShoff
  let shentsize ← ei.load 2 c.eShentsize
  let product := sectionIndex.toInt * shentsize.toNat
  if product < -2 ^ 31 ∨ 2 ^ 31 ≤ product then .error .undefined
  else
    let strSoff := soff + BitVec.ofInt c.bits product
    if ei.size < strSoff + shentsize.setWidth c.bits then pure none
    else
      let shOffset ← ei.load c.bytes (strSoff.toNat + c.shOffset)
      let shSize ← ei.load c.bytes (strSoff.toNat + c.shSize)
      if ei.size < shOffset + shSize then pure none
      else pure (some (shOffset.toNat, shSize.toNat))

/-- `string_table` -/
def stringTable (sectionIndex : BitVec 32) : Result (Option Nat) := do
  let range ← ei.stringRange sectionIndex
  pure (range.map Prod.fst)

/-- `strcmp (name, secname) == 0` -/
def nameIs : Nat → List Byte → Bool
  | name, [] => ei.byte name == 0
  | name, ch :: secname => ei.byte name == ch && nameIs (name + 1) secname

/-- The loop of `find_section` over the headers from `shdr` on. -/
def searchSections (strtab : Nat) (secname : List Byte) (shentsize : Nat) :
    Nat → Nat → Result (Option Nat)
  | 0, _ => pure none
  | shnum + 1, shdr => do
      let shName ← ei.load 4 shdr
      if ei.nameIs (strtab + shName.toNat) secname then
        let shOffset ← ei.load c.bytes (shdr + c.shOffset)
        let shSize ← ei.load c.bytes (shdr + c.shSize)
        if ei.size < shOffset + shSize then pure none else pure (some shdr)
      else searchSections strtab secname shentsize shnum (shdr + shentsize)

/-- `find_section` -/
def findSection (secname : List Byte) : Result (Option Nat) :=
  if ei.validObject then do
    match ← ei.sectionTable with
    | none => pure none
    | some shdr =>
        let shstrndx ← ei.load 2 c.eShstrndx
        match ← ei.stringTable (shstrndx.setWidth 32) with
        | none => pure none
        | some strtab =>
            let shnum ← ei.load 2 c.eShnum
            let shentsize ← ei.load 2 c.eShentsize
            ei.searchSections strtab secname shentsize.toNat shnum.toNat shdr
  else pure none

/-! ## What the fields must be -/

/-- The sum of two fields does not wrap, or wraps to more than the size of the image. -/
def Sums (a b : Word c.bits) : Prop := a.toNat + b.toNat < 2 ^ c.bits ∨ ei.size < a + b

/-- `e_shnum * e_shentsize` -/
def tableSize : Nat := (ei.field 2 c.eShnum).toNat * (ei.field 2 c.eShentsize).toNat

/-- `section * e_shentsize` -/
def headerOffset (sectionIndex : BitVec 32) : Int :=
  sectionIndex.toInt * (ei.field 2 c.eShentsize).toNat

/-- The header of a section, as `string_table` finds it. -/
def strShdr (sectionIndex : BitVec 32) : Word c.bits :=
  ei.field c.bytes c.eShoff + BitVec.ofInt c.bits (ei.headerOffset sectionIndex)

/-- The ELF header is in the image as far as it is read, and the end of the section table is
    computed without an overflow that goes unnoticed. -/
structure TableSound : Prop where
  ehdr : ei.Inside 2 c.eShnum
  product : ei.tableSize < 2 ^ 31
  sum : ei.Sums (ei.field c.bytes c.eShoff) (BitVec.ofNat c.bits ei.tableSize)

/-- `string_table` lets the header of a string table through. -/
def HeaderGiven (sectionIndex : BitVec 32) : Prop :=
  ¬ei.size < ei.strShdr sectionIndex + (ei.field 2 c.eShentsize).setWidth c.bits

/-- The place of a string table, -/
def strOffset (sectionIndex : BitVec 32) : Word c.bits :=
  ei.field c.bytes ((ei.strShdr sectionIndex).toNat + c.shOffset)

/-- and its size. -/
def strSize (sectionIndex : BitVec 32) : Word c.bits :=
  ei.field c.bytes ((ei.strShdr sectionIndex).toNat + c.shSize)

/-- The header of a string table, where it is let through, is in the image. -/
structure StringsRead (sectionIndex : BitVec 32) : Prop where
  ehdr : ei.Inside 2 c.eShentsize
  product : -2 ^ 31 ≤ ei.headerOffset sectionIndex ∧ ei.headerOffset sectionIndex < 2 ^ 31
  header : ei.HeaderGiven sectionIndex →
    ei.Inside c.bytes ((ei.strShdr sectionIndex).toNat + c.shOffset) ∧
      ei.Inside c.bytes ((ei.strShdr sectionIndex).toNat + c.shSize)

/-- And the end of the table is computed without an overflow that goes unnoticed. -/
structure StringsSound (sectionIndex : BitVec 32) : Prop where
  read : ei.StringsRead sectionIndex
  sum : ei.HeaderGiven sectionIndex →
    ei.Sums (ei.strOffset sectionIndex) (ei.strSize sectionIndex)

/-- The name of the header at `shdr` is the one that is looked for. -/
def Named (strtab : Nat) (secname : List Byte) (shdr : Nat) : Prop :=
  ei.nameIs (strtab + (ei.field 4 shdr).toNat) secname = true

/-- The name of a header is in the image; and where it is the one that is looked for, the rest of
    the header is, and its section ends without an overflow that goes unnoticed. -/
structure HeaderSound (strtab : Nat) (secname : List Byte) (shdr : Nat) : Prop where
  shName : ei.Inside 4 shdr
  found : ei.Named strtab secname shdr →
    ei.Inside c.bytes (shdr + c.shOffset) ∧ ei.Inside c.bytes (shdr + c.shSize) ∧
      (¬ei.size < ei.field c.bytes (shdr + c.shOffset) + ei.field c.bytes (shdr + c.shSize) →
        (ei.field c.bytes (shdr + c.shOffset)).toNat +
            (ei.field c.bytes (shdr + c.shSize)).toNat < 2 ^ c.bits ∧
          shdr + c.shdrSize ≤ ei.size.toNat)

/-- `string_table` lets the table through, too. -/
def StringsGiven (sectionIndex : BitVec 32) : Prop :=
  ei.HeaderGiven sectionIndex ∧ ¬ei.size < ei.strOffset sectionIndex + ei.strSize sectionIndex

/-- The table of the sections' names. -/
def nameTable : Nat := (ei.strOffset ((ei.field 2 c.eShstrndx).setWidth 32)).toNat

/-- The place of a section header. -/
def headerAt (i : Nat) : Nat :=
  (ei.field c.bytes c.eShoff).toNat + i * (ei.field 2 c.eShentsize).toNat

/-- What `find_section` comes to: the index of the names, their table, and the headers up to the
    first one that has the name. -/
structure SearchSound (secname : List Byte) : Prop where
  shstrndx : ei.Inside 2 c.eShstrndx
  strings : ei.StringsRead ((ei.field 2 c.eShstrndx).setWidth 32)
  headers : ei.StringsGiven ((ei.field 2 c.eShstrndx).setWidth 32) →
    ∀ i, i < (ei.field 2 c.eShnum).toNat →
      (∀ j, j < i → ¬ei.Named ei.nameTable secname (ei.headerAt j)) →
        ei.HeaderSound ei.nameTable secname (ei.headerAt i)

/-- The condition for all three routines. -/
structure Sound (sectionIndex : BitVec 32) (secname : List Byte) : Prop where
  table : ei.TableSound
  strings : ei.StringsSound sectionIndex
  search : ei.validObject = true →
    ¬ei.size < ei.field c.bytes c.eShoff + BitVec.ofNat c.bits ei.tableSize →
      ei.SearchSound secname

/-! ## What is read and returned -/

/-- A section and its header are in the image. -/
def SectionInside (shdr : Nat) : Prop :=
  shdr + c.shdrSize ≤ ei.size.toNat ∧
    (ei.field c.bytes (shdr + c.shOffset)).toNat + (ei.field c.bytes (shdr + c.shSize)).toNat ≤
      ei.size.toNat

/-- No header is read outside, and the section table that is returned is inside. -/
def TableInside : Prop :=
  ∃ table, ei.sectionTable = .ok table ∧
    ∀ shdr, table = some shdr → shdr + ei.tableSize ≤ ei.size.toNat

def StringsInside (sectionIndex : BitVec 32) : Prop :=
  ∃ range, ei.stringRange sectionIndex = .ok range ∧
    ∀ strtab size, range = some (strtab, size) → strtab + size ≤ ei.size.toNat

def FoundInside (secname : List Byte) : Prop :=
  ∃ found, ei.findSection secname = .ok found ∧ ∀ shdr, found = some shdr → ei.SectionInside shdr

/-- No header is read outside the image, and what is returned is inside. -/
structure StaysInside (sectionIndex : BitVec 32) (secname : List Byte) : Prop where
  table : ei.TableInside
  strings : ei.StringsInside sectionIndex
  found : ei.FoundInside secname

variable {ei}

theorem load_of_inside {len off : Nat} (inside : ei.Inside len off) :
    ei.load len off = .ok (ei.field len off) := if_pos inside

theorem load_eq_ok_iff {len off : Nat} {v : BitVec (8 * len)} :
    ei.load len off = .ok v ↔ ei.Inside len off ∧ ei.field len off = v := by
  rw [load]
  by_cases inside : ei.Inside len off
  · simp [inside]
  · simp [inside]

/-- A sum that is let through is what it seems to be. -/
theorem sums_iff {a b : Word c.bits} (passed : ¬ei.size < a + b) :
    ei.Sums a b ↔ a.toNat + b.toNat ≤ ei.size.toNat := by
  have size := ei.size.isLt
  constructor
  · intro sums
    cases sums with
    | inl small =>
        have le := BitVec.le_def.mp (BitVec.not_lt.mp passed)
        rw [BitVec.toNat_add, Nat.mod_eq_of_lt small] at le
        exact le
    | inr caught => exact absurd caught passed
  · exact fun le => .inl (Nat.lt_of_le_of_lt le size)

theorem two_pow_le_bits (c : ElfClass) : 2 ^ 32 ≤ 2 ^ c.bits := by
  apply Nat.pow_le_pow_right (by decide)
  cases c with
  | elf32 => decide
  | elf64 => decide

/-- The fields before `e_shnum` are in the image with it. -/
theorem inside_of_shnum (inside : ei.Inside 2 c.eShnum) :
    ei.Inside c.bytes c.eShoff ∧ ei.Inside 2 c.eShentsize := by
  unfold Inside at *
  cases c with
  | elf32 =>
      simp only [ElfClass.eShnum, ElfClass.eShoff, ElfClass.eShentsize, ElfClass.bytes] at *
      omega
  | elf64 =>
      simp only [ElfClass.eShnum, ElfClass.eShoff, ElfClass.eShentsize, ElfClass.bytes] at *
      omega

theorem inside_of_shentsize (inside : ei.Inside 2 c.eShentsize) :
    ei.Inside c.bytes c.eShoff := by
  unfold Inside at *
  cases c with
  | elf32 =>
      simp only [ElfClass.eShoff, ElfClass.eShentsize, ElfClass.bytes] at *
      omega
  | elf64 =>
      simp only [ElfClass.eShoff, ElfClass.eShentsize, ElfClass.bytes] at *
      omega

theorem sectionTable_eq (ehdr : ei.Inside 2 c.eShnum) (product : ei.tableSize < 2 ^ 31) :
    ei.sectionTable =
      .ok (if ei.size < ei.field c.bytes c.eShoff + BitVec.ofNat c.bits ei.tableSize then none
        else some (ei.field c.bytes c.eShoff).toNat) := by
  obtain ⟨shoff, shentsize⟩ := inside_of_shnum ehdr
  rw [sectionTable, load_of_inside shoff, load_of_inside ehdr, load_of_inside shentsize]
  simp only [ok_bind]
  rw [← tableSize, if_neg (Nat.not_le.mpr product)]
  split
  · rfl
  · rfl

theorem tableInside_iff : ei.TableInside ↔ ei.TableSound := by
  constructor
  · intro inside
    obtain ⟨table, ran, inside⟩ := inside
    obtain ⟨soff, shoff, rest⟩ := bind_eq_ok.mp ran
    obtain ⟨shnum, loaded, rest⟩ := bind_eq_ok.mp rest
    obtain ⟨ehdr, rfl⟩ := load_eq_ok_iff.mp loaded
    obtain ⟨shentsize, loaded, rest⟩ := bind_eq_ok.mp rest
    obtain ⟨-, rfl⟩ := load_eq_ok_iff.mp loaded
    have product : ei.tableSize < 2 ^ 31 := by
      apply Nat.lt_of_not_le
      intro large
      rw [← tableSize, if_pos large] at rest
      cases rest
    rw [sectionTable_eq ehdr product] at ran
    refine ⟨ehdr, product, ?_⟩
    by_cases caught : ei.size < ei.field c.bytes c.eShoff + BitVec.ofNat c.bits ei.tableSize
    · exact .inr caught
    · rw [if_neg caught] at ran
      cases ran
      have le := inside _ rfl
      rw [sums_iff caught, BitVec.toNat_ofNat, Nat.mod_eq_of_lt]
      · exact le
      · exact Nat.lt_of_lt_of_le product
          (Nat.le_trans (by decide) (two_pow_le_bits c))
  · intro sound
    refine ⟨_, sectionTable_eq sound.ehdr sound.product, ?_⟩
    intro shdr returned
    split at returned
    · cases returned
    next passed =>
      cases returned
      have le := (sums_iff passed).mp sound.sum
      rwa [BitVec.toNat_ofNat, Nat.mod_eq_of_lt] at le
      exact Nat.lt_of_lt_of_le sound.product (Nat.le_trans (by decide) (two_pow_le_bits c))

/-- What `string_table` does when the header can be read. -/
theorem stringRange_eq {sectionIndex : BitVec 32} (read : ei.StringsRead sectionIndex) :
    ei.stringRange sectionIndex =
      .ok (if ei.size < ei.strShdr sectionIndex + (ei.field 2 c.eShentsize).setWidth c.bits then none
        else if ei.size < ei.strOffset sectionIndex + ei.strSize sectionIndex then none
        else some ((ei.strOffset sectionIndex).toNat, (ei.strSize sectionIndex).toNat)) := by
  obtain ⟨ehdr, product, header⟩ := read
  rw [stringRange, load_of_inside (inside_of_shentsize ehdr), load_of_inside ehdr]
  simp only [ok_bind]
  rw [← headerOffset, if_neg (by omega), ← strShdr]
  by_cases caught : ei.size < ei.strShdr sectionIndex +
      (ei.field 2 c.eShentsize).setWidth c.bits
  · rw [if_pos caught, if_pos caught]
    rfl
  · obtain ⟨offsetInside, sizeInside⟩ := header caught
    rw [if_neg caught, if_neg caught, load_of_inside offsetInside, load_of_inside sizeInside]
    simp only [ok_bind]
    rw [← strOffset, ← strSize]
    split
    · rfl
    · rfl

theorem stringsRead_iff {sectionIndex : BitVec 32} :
    (∃ range, ei.stringRange sectionIndex = .ok range) ↔ ei.StringsRead sectionIndex := by
  constructor
  · intro returned
    obtain ⟨range, ran⟩ := returned
    obtain ⟨soff, shoff, rest⟩ := bind_eq_ok.mp ran
    obtain ⟨-, rfl⟩ := load_eq_ok_iff.mp shoff
    obtain ⟨shentsize, loaded, rest⟩ := bind_eq_ok.mp rest
    obtain ⟨ehdr, rfl⟩ := load_eq_ok_iff.mp loaded
    dsimp only at rest
    rw [← headerOffset, ← strShdr] at rest
    split at rest
    · cases rest
    next product =>
      refine ⟨ehdr, by omega, ?_⟩
      intro given
      rw [if_neg given] at rest
      obtain ⟨shOffset, loaded, rest⟩ := bind_eq_ok.mp rest
      obtain ⟨offsetInside, -⟩ := load_eq_ok_iff.mp loaded
      obtain ⟨shSize, loaded, rest⟩ := bind_eq_ok.mp rest
      exact ⟨offsetInside, (load_eq_ok_iff.mp loaded).1⟩
  · exact fun read => ⟨_, stringRange_eq read⟩

theorem stringsInside_iff {sectionIndex : BitVec 32} :
    ei.StringsInside sectionIndex ↔ ei.StringsSound sectionIndex := by
  constructor
  · intro inside
    obtain ⟨range, ran, inside⟩ := inside
    have read := stringsRead_iff.mp ⟨range, ran⟩
    refine ⟨read, ?_⟩
    intro given
    rw [stringRange_eq read, if_neg given] at ran
    by_cases caught : ei.size < ei.strOffset sectionIndex + ei.strSize sectionIndex
    · exact .inr caught
    · rw [if_neg caught] at ran
      cases ran
      exact (sums_iff caught).mpr (inside _ _ rfl)
  · intro sound
    refine ⟨_, stringRange_eq sound.read, ?_⟩
    intro strtab size returned
    split at returned
    · cases returned
    next given =>
      split at returned
      · cases returned
      next through =>
        cases returned
        exact (sums_iff through).mp (sound.sum given)

/-- The first header of a search: it ends there, or goes on. -/
theorem searchSections_succ {strtab : Nat} {secname : List Byte} {shentsize shnum shdr : Nat}
    (inside : ei.Inside 4 shdr) :
    ei.searchSections strtab secname shentsize (shnum + 1) shdr =
      if ei.nameIs (strtab + (ei.field 4 shdr).toNat) secname then (do
        let shOffset ← ei.load c.bytes (shdr + c.shOffset)
        let shSize ← ei.load c.bytes (shdr + c.shSize)
        if ei.size < shOffset + shSize then pure none else pure (some shdr))
      else ei.searchSections strtab secname shentsize shnum (shdr + shentsize) := by
  rw [searchSections, load_of_inside inside]
  rfl

/-- Where the name is found. -/
theorem foundInside_iff {shdr : Nat} :
    (∃ found, (do
        let shOffset ← ei.load c.bytes (shdr + c.shOffset)
        let shSize ← ei.load c.bytes (shdr + c.shSize)
        if ei.size < shOffset + shSize then pure none else pure (some shdr) : Result (Option Nat)) =
          .ok found ∧ ∀ p, found = some p → ei.SectionInside p) ↔
      ei.Inside c.bytes (shdr + c.shOffset) ∧ ei.Inside c.bytes (shdr + c.shSize) ∧
        (¬ei.size < ei.field c.bytes (shdr + c.shOffset) + ei.field c.bytes (shdr + c.shSize) →
          (ei.field c.bytes (shdr + c.shOffset)).toNat +
              (ei.field c.bytes (shdr + c.shSize)).toNat < 2 ^ c.bits ∧
            shdr + c.shdrSize ≤ ei.size.toNat) := by
  constructor
  · intro safe
    obtain ⟨found, ran, inside⟩ := safe
    obtain ⟨shOffset, loaded, ran⟩ := bind_eq_ok.mp ran
    obtain ⟨offsetInside, rfl⟩ := load_eq_ok_iff.mp loaded
    obtain ⟨shSize, loaded, ran⟩ := bind_eq_ok.mp ran
    obtain ⟨sizeInside, rfl⟩ := load_eq_ok_iff.mp loaded
    refine ⟨offsetInside, sizeInside, ?_⟩
    intro through
    rw [if_neg through] at ran
    cases ran
    obtain ⟨header, range⟩ := inside _ rfl
    exact ⟨Nat.lt_of_le_of_lt range ei.size.isLt, header⟩
  · intro sound
    obtain ⟨offsetInside, sizeInside, passed⟩ := sound
    rw [load_of_inside offsetInside, load_of_inside sizeInside]
    simp only [ok_bind]
    split
    · exact ⟨none, rfl, by simp⟩
    next through =>
      obtain ⟨small, header⟩ := passed through
      refine ⟨_, rfl, ?_⟩
      intro p returned
      cases returned
      exact ⟨header, (sums_iff through).mp (.inl small)⟩

/-- The search is safe where every header is that it comes to. -/
theorem searchInside_iff {strtab : Nat} {secname : List Byte} {shentsize shnum shdr : Nat} :
    (∃ found, ei.searchSections strtab secname shentsize shnum shdr = .ok found ∧
      ∀ p, found = some p → ei.SectionInside p) ↔
      ∀ i, i < shnum → (∀ j, j < i → ¬ei.Named strtab secname (shdr + j * shentsize)) →
        ei.HeaderSound strtab secname (shdr + i * shentsize) := by
  induction shnum generalizing shdr with
  | zero =>
      refine iff_of_true ⟨none, rfl, by simp⟩ ?_
      intro i below
      cases below
  | succ shnum ih =>
      have next (i : Nat) : shdr + (i + 1) * shentsize = shdr + shentsize + i * shentsize := by
        rw [Nat.succ_mul]
        omega
      by_cases inside : ei.Inside 4 shdr
      · rw [searchSections_succ inside]
        by_cases named : ei.nameIs (strtab + (ei.field 4 shdr).toNat) secname = true
        · rw [if_pos named, foundInside_iff]
          constructor
          · intro sound i _ first
            cases i with
            | zero =>
                rw [Nat.zero_mul, Nat.add_zero]
                exact ⟨inside, fun _ => sound⟩
            | succ i =>
                have other := first 0 (Nat.succ_pos i)
                rw [Nat.zero_mul, Nat.add_zero] at other
                exact absurd named other
          · intro sound
            have here := sound 0 (Nat.succ_pos shnum) (by simp)
            rw [Nat.zero_mul, Nat.add_zero] at here
            exact here.found named
        · rw [if_neg named, ih]
          constructor
          · intro sound i below first
            cases i with
            | zero =>
                rw [Nat.zero_mul, Nat.add_zero]
                exact ⟨inside, fun here => absurd here named⟩
            | succ i =>
                rw [next]
                apply sound i (Nat.lt_of_succ_lt_succ below)
                intro j earlier
                rw [← next]
                exact first (j + 1) (Nat.succ_lt_succ earlier)
          · intro sound i below first
            rw [← next]
            apply sound (i + 1) (Nat.succ_lt_succ below)
            intro j earlier
            cases j with
            | zero =>
                rw [Nat.zero_mul, Nat.add_zero]
                exact named
            | succ j =>
                rw [next]
                exact first j (Nat.lt_of_succ_lt_succ earlier)
      · apply iff_of_false
        · intro safe
          obtain ⟨found, ran, -⟩ := safe
          obtain ⟨shName, loaded, -⟩ := bind_eq_ok.mp ran
          exact inside (load_eq_ok_iff.mp loaded).1
        · intro sound
          have here := (sound 0 (Nat.succ_pos shnum) (by simp)).shName
          rw [Nat.zero_mul, Nat.add_zero] at here
          exact inside here

theorem stringTable_eq {sectionIndex : BitVec 32} (read : ei.StringsRead sectionIndex) :
    (ei.StringsGiven sectionIndex ∧
      ei.stringTable sectionIndex = .ok (some (ei.strOffset sectionIndex).toNat)) ∨
    (¬ei.StringsGiven sectionIndex ∧ ei.stringTable sectionIndex = .ok none) := by
  rw [stringTable, stringRange_eq read]
  split
  next caught => exact .inr ⟨fun given => given.1 caught, rfl⟩
  next passed =>
    split
    next outside => exact .inr ⟨fun given => given.2 outside, rfl⟩
    next through => exact .inl ⟨⟨passed, through⟩, rfl⟩

theorem foundInside_search {secname : List Byte} (valid : ei.validObject = true)
    (table : ei.TableSound)
    (passed : ¬ei.size < ei.field c.bytes c.eShoff + BitVec.ofNat c.bits ei.tableSize) :
    ei.FoundInside secname ↔ ei.SearchSound secname := by
  have start : ei.sectionTable = .ok (some (ei.field c.bytes c.eShoff).toNat) := by
    rw [sectionTable_eq table.ehdr table.product, if_neg passed]
  have entries : ei.load 2 c.eShentsize = .ok (ei.field 2 c.eShentsize) :=
    load_of_inside (inside_of_shnum table.ehdr).2
  have count : ei.load 2 c.eShnum = .ok (ei.field 2 c.eShnum) := load_of_inside table.ehdr
  unfold FoundInside findSection
  rw [if_pos valid, start]
  simp only [ok_bind]
  constructor
  · intro safe
    obtain ⟨found, ran, inside⟩ := safe
    obtain ⟨shstrndx, loaded, ran⟩ := bind_eq_ok.mp ran
    obtain ⟨shstrndxInside, rfl⟩ := load_eq_ok_iff.mp loaded
    obtain ⟨strtab, strings, ran⟩ := bind_eq_ok.mp ran
    obtain ⟨range, ranged, -⟩ := bind_eq_ok.mp strings
    have read := stringsRead_iff.mp ⟨range, ranged⟩
    refine ⟨shstrndxInside, read, ?_⟩
    intro given
    cases stringTable_eq read with
    | inl returned =>
        rw [returned.2, Except.ok.injEq] at strings
        subst strings
        simp only [ok_bind, count, entries] at ran
        exact searchInside_iff.mp ⟨found, ran, inside⟩
    | inr none => exact absurd given none.1
  · intro sound
    rw [load_of_inside sound.shstrndx]
    simp only [ok_bind]
    cases stringTable_eq sound.strings with
    | inl returned =>
        obtain ⟨given, strings⟩ := returned
        rw [strings]
        simp only [ok_bind, count, entries]
        exact searchInside_iff.mpr (sound.headers given)
    | inr none =>
        rw [none.2]
        exact ⟨.none, rfl, by simp⟩

/-- The routines stay inside the image exactly where its fields are sound. -/
theorem sectionRoutines_inside_iff (ei : ElfImage c) (sectionIndex : BitVec 32) (secname : List Byte) :
    ei.StaysInside sectionIndex secname ↔ ei.Sound sectionIndex secname := by
  constructor
  · intro inside
    have table := tableInside_iff.mp inside.table
    refine ⟨table, stringsInside_iff.mp inside.strings, ?_⟩
    intro valid passed
    exact (foundInside_search valid table passed).mp inside.found
  · intro sound
    refine ⟨tableInside_iff.mpr sound.table, stringsInside_iff.mpr sound.strings, ?_⟩
    by_cases valid : ei.validObject = true
    · by_cases caught :
          ei.size < ei.field c.bytes c.eShoff + BitVec.ofNat c.bits ei.tableSize
      · refine ⟨none, ?_, by simp⟩
        rw [findSection, if_pos valid, sectionTable_eq sound.table.ehdr sound.table.product,
          if_pos caught]
        rfl
      · exact (foundInside_search valid sound.table caught).mpr (sound.search valid caught)
    · refine ⟨none, ?_, by simp⟩
      rw [findSection, if_neg valid]
      rfl

end ElfImage

/-! ## A section table before the image -/

namespace Overrun

/-- A header with `e_shoff` 64 bytes below 2 ^ 64, for one section of 64 bytes. -/
def image : ElfImage .elf64 where
  size := 64
  byte off :=
    if off = 0 then 0x7f else if off = 1 then 0x45 else if off = 2 then 0x4c
    else if off = 3 then 0x46 else if off = 4 then 2 else if off = 6 then 1
    else if off = 40 then 0xc0 else if 40 < off ∧ off < 48 then 0xff
    else if off = 58 then 64 else if off = 60 then 1 else 0
  bigEndian := false

/-- The end of the table wraps to 0, and the table is returned. -/
theorem table_before_image :
    image.validObject = true ∧ image.sectionTable = .ok (some (2 ^ 64 - 64)) ∧
      ¬image.StaysInside 0 [] := by
  have returned : image.sectionTable = .ok (some (2 ^ 64 - 64)) := by decide
  refine ⟨by decide, returned, ?_⟩
  intro inside
  obtain ⟨table, ran, inside⟩ := inside.table
  rw [returned, Except.ok.injEq] at ran
  have beyond := inside _ ran.symm
  have size : image.size.toNat = 64 := rfl
  omega

end Overrun

end Libunwind.Elf
