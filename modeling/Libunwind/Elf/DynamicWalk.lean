import Libunwind.Elf.GnuHash
import Libunwind.Library.Checked

/-! # What the way to the dynamic symbols reads

The program headers, the entries of the dynamic segment and the words of a hash table, each up to
where its loop ends, with what is made of them.
-/

namespace Libunwind.Elf

open Checked

variable {c : ElfClass}

namespace ElfImage

variable (ei : ElfImage c)

/-! ## The program headers -/

def pType (phdr : Nat) : BitVec 32 := ei.field 4 phdr

def pVaddr (phdr : Nat) : Word c.bits := ei.field c.bytes (phdr + c.pVaddr)

def pOffset (phdr : Nat) : Word c.bits := ei.field c.bytes (phdr + c.pOffset)

def pFilesz (phdr : Nat) : Word c.bits := ei.field c.bytes (phdr + c.pFilesz)

def segments : List Nat :=
  places c.phdrSize (ei.field 2 c.ePhnum).toNat (ei.field c.bytes c.ePhoff).toNat

/-- What is read of a header to find the dynamic segment. -/
@[mk_iff]
structure SegmentRead (phdr : Nat) : Prop where
  type : ei.Inside 4 phdr
  bias : ei.pType phdr = ptPhdr →
    ei.Inside c.bytes (phdr + c.pVaddr) ∧ ei.Inside c.bytes (phdr + c.pOffset)
  filesz : ei.pType phdr = ptDynamic → ei.Inside c.bytes (phdr + c.pFilesz)
  offset : ei.pType phdr = ptDynamic → ei.pFilesz phdr ≠ 0 → ei.Inside c.bytes (phdr + c.pOffset)

/-- `get_program_segment` -/
def segmentPlace (phdr : Nat) : Option Nat :=
  if ei.pFilesz phdr = 0 then none
  else if ei.size < ei.pOffset phdr then none
  else some (ei.pOffset phdr).toNat

/-- The place of the first dynamic segment. -/
def dynamicPlace (phdrs : List Nat) : Option Nat :=
  (phdrs.find? fun phdr => ei.pType phdr = ptDynamic).bind ei.segmentPlace

/-- `file_offset`, from the last `PT_PHDR` before the dynamic segment. -/
def fileOffset (phdrs : List Nat) (before : Word c.bits) : Word c.bits :=
  (phdrs.takeWhile fun phdr => ei.pType phdr ≠ ptDynamic).foldl
    (fun offset phdr =>
      if ei.pType phdr = ptPhdr then ei.pVaddr phdr - ei.pOffset phdr else offset) before

/-- The segment is one that `dynamic_va_to_file_offset` takes. -/
def LoadsVa (va : Word c.bits) (phdr : Nat) : Prop :=
  ei.pType phdr = ptLoad ∧ ei.pVaddr phdr ≤ va ∧
    va + BitVec.ofNat c.bits c.bytes < ei.pVaddr phdr + ei.pFilesz phdr

instance instDecidableLoadsVa (va : Word c.bits) (phdr : Nat) : Decidable (ei.LoadsVa va phdr) :=
  inferInstanceAs (Decidable (_ ∧ _ ∧ _))

/-- What is read of a header for an address. -/
@[mk_iff]
structure LoadRead (va : Word c.bits) (phdr : Nat) : Prop where
  type : ei.Inside 4 phdr
  vaddr : ei.pType phdr = ptLoad → ei.Inside c.bytes (phdr + c.pVaddr)
  filesz : ei.pType phdr = ptLoad → ei.pVaddr phdr ≤ va → ei.Inside c.bytes (phdr + c.pFilesz)
  offset : ei.LoadsVa va phdr → ei.Inside c.bytes (phdr + c.pOffset)

def vaOffset (va : Word c.bits) (phdrs : List Nat) : Word c.bits :=
  (phdrs.find? fun phdr => ei.LoadsVa va phdr).elim 0 fun phdr =>
    ei.pOffset phdr + (va - ei.pVaddr phdr)

/-! ## The entries -/

def dTag (dyn : Nat) : Word c.bits := ei.field c.bytes dyn

def dPtr (dyn : Nat) : Word c.bits := ei.field c.bytes (dyn + c.bytes)

/-- What is read of an entry. -/
@[mk_iff]
structure EntryRead (phdrs : List Nat) (dyn : Nat) : Prop where
  tag : ei.Inside c.bytes dyn
  ptr : ei.dTag dyn ≠ 0 → ei.Inside c.bytes (dyn + c.bytes)
  gnuHash : ei.dTag dyn = 0x6ffffef5 →
    ∀ phdr ∈ upToFirst (ei.LoadsVa (ei.dPtr dyn)) phdrs, ei.LoadRead (ei.dPtr dyn) phdr

/-- The entries end in the image. -/
@[mk_iff]
structure EntriesRead (phdrs entries : List Nat) : Prop where
  ends : ∃ dyn ∈ entries, ei.dTag dyn = 0
  read : ∀ dyn ∈ upToFirst (fun dyn => ei.dTag dyn = 0) entries, ei.EntryRead phdrs dyn

/-- The table that an entry points to. -/
def withEntry (phdrs : List Nat) (fileOffset : Word c.bits) (tables : DynamicTables) (dyn : Nat) :
    DynamicTables :=
  let place := (ei.dPtr dyn - fileOffset).toNat
  if ei.dTag dyn = 6 then { tables with symtab := some place }
  else if ei.dTag dyn = 5 then { tables with strtab := some place }
  else if ei.dTag dyn = 4 then { tables with hash := some place }
  else if ei.dTag dyn = 0x6ffffef5 then
    { tables with gnuHash := some (ei.vaOffset (ei.dPtr dyn) phdrs).toNat }
  else tables

def entryTables (phdrs : List Nat) (fileOffset : Word c.bits) (entries : List Nat)
    (before : DynamicTables) : DynamicTables :=
  (entries.takeWhile fun dyn => ei.dTag dyn ≠ 0).foldl (ei.withEntry phdrs fileOffset) before

/-! ## The hash tables -/

/-- The values of so many buckets, without the empty ones. -/
def filled (nbuckets buckets : Nat) : List (BitVec 32) :=
  ((places 4 nbuckets buckets).map (ei.field 4)).filter (· ≠ 0)

/-- The buckets that come before are in order. -/
def InOrder (nbuckets buckets : Nat) (count : BitVec 32) : Prop :=
  (count :: ei.filled nbuckets buckets).IsChain (· ≤ ·)

instance instDecidableInOrder (nbuckets buckets : Nat) (count : BitVec 32) :
    Decidable (ei.InOrder nbuckets buckets count) :=
  inferInstanceAs (Decidable (List.IsChain _ _))

/-- Every bucket is read that comes after others in order. -/
def BucketsRead (nbuckets buckets : Nat) (count : BitVec 32) : Prop :=
  ∀ i, i < nbuckets → ei.InOrder i buckets count → ei.Inside 4 (buckets + 4 * i)

def EndWord (hashval : Nat) : Prop := ei.field 4 hashval &&& 1 ≠ 0

instance instDecidableEndWord (hashval : Nat) : Decidable (ei.EndWord hashval) :=
  inferInstanceAs (Decidable (_ ≠ _))

/-- A chain ends in the image. -/
@[mk_iff]
structure ChainRead (words : List Nat) : Prop where
  ends : ∃ hashval ∈ words, ei.EndWord hashval
  read : ∀ hashval ∈ upToFirst ei.EndWord words, ei.Inside 4 hashval

/-- The value of the last bucket that is not empty. -/
def lastFilled (gnuHash : Nat) : BitVec 32 :=
  (ei.filled (ei.nbuckets gnuHash) (ei.bucketsAt gnuHash)).getLastD 0

/-- The words from that bucket's chain on. -/
def lastWords (gnuHash : Nat) : List Nat :=
  places 4 (ei.size.toNat + 1)
    (ei.chainsAt gnuHash + 4 * (ei.lastFilled gnuHash - ei.field 4 (gnuHash + 4)).toNat)

/-- What is read of a GNU hash table. -/
@[mk_iff]
structure GnuHashRead (gnuHash : Nat) : Prop where
  nbuckets : ei.Inside 4 gnuHash
  symoffset : ei.Inside 4 (gnuHash + 4)
  bloomSize : ei.Inside 4 (gnuHash + 8)
  buckets : ei.BucketsRead (ei.nbuckets gnuHash) (ei.bucketsAt gnuHash) 0
  chain : ei.InOrder (ei.nbuckets gnuHash) (ei.bucketsAt gnuHash) 0 →
    ei.lastFilled gnuHash ≠ 0 → ei.field 4 (gnuHash + 4) ≤ ei.lastFilled gnuHash →
    ei.ChainRead (ei.lastWords gnuHash)

def gnuCount (gnuHash : Nat) : Option (BitVec 32) :=
  if ei.InOrder (ei.nbuckets gnuHash) (ei.bucketsAt gnuHash) 0 then
    if ei.lastFilled gnuHash = 0 then some 0
    else if ei.lastFilled gnuHash < ei.field 4 (gnuHash + 4) then none
    else some (ei.lastFilled gnuHash +
      BitVec.ofNat 32 (upToFirst ei.EndWord (ei.lastWords gnuHash)).length)
  else none

/-- What is read of the hash table that is used. -/
def HashRead : Option Nat → Option Nat → Prop
  | some hash, _ => ei.Inside 4 (hash + 4)
  | none, some gnuHash => ei.GnuHashRead gnuHash
  | none, none => True

def hashCount : Option Nat → Option Nat → Option (BitVec 32)
  | some hash, _ => some (ei.field 4 (hash + 4))
  | none, some gnuHash => ei.gnuCount gnuHash
  | none, none => none

/-! ## The symbol table -/

/-- What the entries of the dynamic segment point to. -/
def tablesAt (dyn : Nat) : DynamicTables :=
  ei.entryTables ei.segments (ei.fileOffset ei.segments 0)
    (places (2 * c.bytes) (ei.size.toNat + 1) dyn) {}

/-- What is read to find the symbols of the dynamic segment. -/
@[mk_iff]
structure DynamicRead : Prop where
  phoff : ei.Inside c.bytes c.ePhoff
  phnum : ei.Inside 2 c.ePhnum
  segments : ∀ phdr ∈ upToFirst (fun phdr => ei.pType phdr = ptDynamic) ei.segments,
    ei.SegmentRead phdr
  entries : ∀ dyn, ei.dynamicPlace ei.segments = some dyn →
    ei.EntriesRead ei.segments (places (2 * c.bytes) (ei.size.toNat + 1) dyn)
  hash : ∀ dyn, ei.dynamicPlace ei.segments = some dyn → (ei.tablesAt dyn).symtab.isSome →
    (ei.tablesAt dyn).strtab.isSome → ei.HashRead (ei.tablesAt dyn).hash (ei.tablesAt dyn).gnuHash

def symtabOf (tables : DynamicTables) : Option (Nat × Nat × Nat) :=
  match tables.symtab, tables.strtab with
  | some symtab, some strtab =>
      (ei.hashCount tables.hash tables.gnuHash).map fun symNum => (symtab, strtab, symNum.toNat)
  | _, _ => none

/-- The table that is found: its place, that of its strings, and how many symbols it has. -/
def dynamicTable : Option (Nat × Nat × Nat) :=
  (ei.dynamicPlace ei.segments).bind fun dyn => ei.symtabOf (ei.tablesAt dyn)

variable {ei}

theorem load_delivers (len off : Nat) :
    Delivers (ei.load len off) (ei.Inside len off) (ei.field len off) := fun _ => load_eq_ok_iff

theorem dynamicPlace_cons (phdr : Nat) (phdrs : List Nat) :
    ei.dynamicPlace (phdr :: phdrs) =
      if ei.pType phdr = ptDynamic then ei.segmentPlace phdr else ei.dynamicPlace phdrs := by
  by_cases isDynamic : ei.pType phdr = ptDynamic
  · simp [dynamicPlace, isDynamic]
  · simp [dynamicPlace, isDynamic]

theorem fileOffset_cons (phdr : Nat) (phdrs : List Nat) (before : Word c.bits) :
    ei.fileOffset (phdr :: phdrs) before =
      if ei.pType phdr = ptDynamic then before
      else ei.fileOffset phdrs
        (if ei.pType phdr = ptPhdr then ei.pVaddr phdr - ei.pOffset phdr else before) := by
  by_cases isDynamic : ei.pType phdr = ptDynamic
  · simp [fileOffset, isDynamic]
  · simp [fileOffset, isDynamic]

theorem vaOffset_cons (va : Word c.bits) (phdr : Nat) (phdrs : List Nat) :
    ei.vaOffset va (phdr :: phdrs) =
      if ei.LoadsVa va phdr then ei.pOffset phdr + (va - ei.pVaddr phdr)
      else ei.vaOffset va phdrs := by
  by_cases loads : ei.LoadsVa va phdr
  · simp [vaOffset, loads]
  · simp [vaOffset, loads]

variable (ei) in
theorem findDynamic_delivers (n phdr : Nat) (offset : Word c.bits) :
    Delivers (ei.findDynamic n phdr offset)
      (∀ p ∈ upToFirst (fun p => ei.pType p = ptDynamic) (places c.phdrSize n phdr),
        ei.SegmentRead p)
      (ei.dynamicPlace (places c.phdrSize n phdr),
        ei.fileOffset (places c.phdrSize n phdr) offset) := by
  induction n generalizing phdr offset with
  | zero =>
      apply (Delivers.of_ok _).congr
      · simp [places, upToFirst]
      · intro _
        rfl
  | succ n ih =>
      apply ((load_delivers 4 phdr).bind fun _ => Delivers.ite
        (fun isPhdr => (load_delivers c.bytes (phdr + c.pVaddr)).bind fun _ =>
          (load_delivers c.bytes (phdr + c.pOffset)).bind fun _ =>
            ih (phdr + c.phdrSize) (ei.pVaddr phdr - ei.pOffset phdr))
        (fun notPhdr => Delivers.ite
          (fun isDynamic => (load_delivers c.bytes (phdr + c.pFilesz)).bind fun _ =>
            Delivers.ite (fun _ => Delivers.of_ok _)
              (fun _ => (load_delivers c.bytes (phdr + c.pOffset)).bind fun _ =>
                Delivers.ite (fun _ => Delivers.of_ok _) (fun _ => Delivers.of_ok _)))
          (fun notDynamic => ih (phdr + c.phdrSize) offset))).congr
      · rw [places, forall_upToFirst_cons, segmentRead_iff]
        have different : ptPhdr ≠ ptDynamic := by decide
        simp only [pType, pFilesz]
        by_cases isPhdr : ei.field 4 phdr = ptPhdr
        · simp [isPhdr, different, and_assoc]
        · by_cases isDynamic : ei.field 4 phdr = ptDynamic
          · simp [isDynamic, different.symm]
          · simp [isPhdr, isDynamic]
      · intro _
        have different : ptPhdr ≠ ptDynamic := by decide
        rw [places, dynamicPlace_cons, fileOffset_cons]
        simp only [segmentPlace, pType, pFilesz, pOffset, pVaddr]
        grind

theorem dynamicVaToFileOffset_delivers (va : Word c.bits) (n phdr : Nat) :
    Delivers (ei.dynamicVaToFileOffset va n phdr)
      (∀ p ∈ upToFirst (ei.LoadsVa va) (places c.phdrSize n phdr), ei.LoadRead va p)
      (ei.vaOffset va (places c.phdrSize n phdr)) := by
  induction n generalizing phdr with
  | zero =>
      apply (Delivers.of_ok _).congr
      · simp [places, upToFirst]
      · intro _
        rfl
  | succ n ih =>
      apply ((load_delivers 4 phdr).bind fun _ => Delivers.ite
        (fun _ => ih (phdr + c.phdrSize))
        (fun _ => (load_delivers c.bytes (phdr + c.pVaddr)).bind fun _ => Delivers.ite
          (fun _ => (load_delivers c.bytes (phdr + c.pFilesz)).bind fun _ => Delivers.ite
            (fun _ => (load_delivers c.bytes (phdr + c.pOffset)).bind fun _ =>
              Delivers.of_ok (ei.pOffset phdr + (va - ei.pVaddr phdr)))
            (fun _ => ih (phdr + c.phdrSize)))
          (fun _ => ih (phdr + c.phdrSize)))).congr
      · rw [places, forall_upToFirst_cons, loadRead_iff]
        simp only [LoadsVa, pType, pVaddr, pFilesz]
        grind
      · intro _
        rw [places, vaOffset_cons]
        simp only [LoadsVa, pType, pVaddr, pFilesz, pOffset]
        grind

theorem entryTables_cons (phdrs : List Nat) (offset : Word c.bits) (dyn : Nat)
    (entries : List Nat) (before : DynamicTables) :
    ei.entryTables phdrs offset (dyn :: entries) before =
      if ei.dTag dyn = 0 then before
      else ei.entryTables phdrs offset entries (ei.withEntry phdrs offset before dyn) := by
  by_cases null : ei.dTag dyn = 0
  · rw [if_pos null, entryTables, List.takeWhile_cons_of_neg (by simp [null])]
    rfl
  · rw [if_neg null, entryTables, List.takeWhile_cons_of_pos (by simpa using null)]
    rfl

theorem entriesRead_cons (phdrs : List Nat) (dyn : Nat) (entries : List Nat) :
    ei.EntriesRead phdrs (dyn :: entries) ↔
      ei.EntryRead phdrs dyn ∧ (ei.dTag dyn ≠ 0 → ei.EntriesRead phdrs entries) := by
  simp only [entriesRead_iff, forall_upToFirst_cons, List.mem_cons, exists_eq_or_imp]
  grind

theorem withEntry_delivers (phnum phdr : Nat) (offset : Word c.bits) (dyn : Nat)
    (tables : DynamicTables) :
    Delivers (
        if ei.dTag dyn = 6 then pure { tables with symtab := some (ei.dPtr dyn - offset).toNat }
        else if ei.dTag dyn = 5 then
          pure { tables with strtab := some (ei.dPtr dyn - offset).toNat }
        else if ei.dTag dyn = 4 then
          pure { tables with hash := some (ei.dPtr dyn - offset).toNat }
        else if ei.dTag dyn = 0x6ffffef5 then do
          let gnuHash ← ei.dynamicVaToFileOffset (ei.dPtr dyn) phnum phdr
          pure { tables with gnuHash := some gnuHash.toNat }
        else pure tables : Result DynamicTables)
      (ei.dTag dyn = 0x6ffffef5 →
        ∀ p ∈ upToFirst (ei.LoadsVa (ei.dPtr dyn)) (places c.phdrSize phnum phdr),
          ei.LoadRead (ei.dPtr dyn) p)
      (ei.withEntry (places c.phdrSize phnum phdr) offset tables dyn) := by
  have tags : (6 : Word c.bits) ≠ 0x6ffffef5 ∧ (5 : Word c.bits) ≠ 0x6ffffef5 ∧
      (4 : Word c.bits) ≠ 0x6ffffef5 := by
    cases c with
    | elf32 => decide
    | elf64 => decide
  unfold withEntry
  refine Delivers.congr (Delivers.ite (fun _ => Delivers.of_ok _) fun _ =>
    Delivers.ite (fun _ => Delivers.of_ok _) fun _ =>
    Delivers.ite (fun _ => Delivers.of_ok _) fun _ =>
    Delivers.ite (fun _ => (dynamicVaToFileOffset_delivers (ei.dPtr dyn) phnum phdr).bind fun _ =>
      Delivers.of_ok _) fun _ => Delivers.of_ok _) ?_ fun _ => rfl
  grind

variable (ei) in
theorem readDynamic_delivers (phnum phdr : Nat) (offset : Word c.bits) (fuel dyn : Nat)
    (tables : DynamicTables) :
    Delivers (ei.readDynamic phnum phdr offset fuel dyn tables)
      (ei.EntriesRead (places c.phdrSize phnum phdr) (places (2 * c.bytes) fuel dyn))
      (ei.entryTables (places c.phdrSize phnum phdr) offset (places (2 * c.bytes) fuel dyn)
        tables) := by
  induction fuel generalizing dyn tables with
  | zero =>
      apply (Delivers.of_error Fault.timeout tables).congr
      · simp [places, entriesRead_iff]
      · exact False.elim
  | succ fuel ih =>
      apply ((load_delivers c.bytes dyn).bind fun _ => Delivers.ite
        (fun _ => Delivers.of_ok tables)
        (fun _ => (load_delivers c.bytes (dyn + c.bytes)).bind fun _ => Delivers.bind
          (withEntry_delivers phnum phdr offset dyn tables)
          (fun _ => ih (dyn + 2 * c.bytes) _))).congr
      · rw [places, entriesRead_cons, entryRead_iff]
        simp only [dTag]
        have tag : (0x6ffffef5 : Word c.bits) ≠ 0 := by
          cases c with
          | elf32 => decide
          | elf64 => decide
        grind
      · intro _
        rw [places, entryTables_cons]
        rfl

theorem filled_succ (n buckets : Nat) :
    ei.filled (n + 1) buckets =
      if ei.field 4 buckets = 0 then ei.filled n (buckets + 4)
      else ei.field 4 buckets :: ei.filled n (buckets + 4) := by
  rw [filled, places, List.map_cons]
  by_cases empty : ei.field 4 buckets = 0
  · rw [if_pos empty, List.filter_cons_of_neg (by simpa using empty)]
    rfl
  · rw [if_neg empty, List.filter_cons_of_pos (by simpa using empty)]
    rfl

theorem inOrder_succ (n buckets : Nat) (count : BitVec 32) :
    ei.InOrder (n + 1) buckets count ↔
      if ei.field 4 buckets = 0 then ei.InOrder n (buckets + 4) count
      else count ≤ ei.field 4 buckets ∧ ei.InOrder n (buckets + 4) (ei.field 4 buckets) := by
  rw [InOrder, filled_succ]
  by_cases empty : ei.field 4 buckets = 0
  · simp only [if_pos empty]
    rfl
  · simp only [if_neg empty, List.isChain_cons_cons]
    rfl

theorem bucketsRead_succ (n buckets : Nat) (count : BitVec 32) :
    ei.BucketsRead (n + 1) buckets count ↔
      ei.Inside 4 buckets ∧
        if ei.field 4 buckets = 0 then ei.BucketsRead n (buckets + 4) count
        else count ≤ ei.field 4 buckets → ei.BucketsRead n (buckets + 4) (ei.field 4 buckets) := by
  have first : ei.InOrder 0 buckets count := by simp [InOrder, filled, places]
  have next (i : Nat) : buckets + 4 * (i + 1) = buckets + 4 + 4 * i := by omega
  simp only [BucketsRead, Nat.forall_lt_succ_left, inOrder_succ, first, next]
  grind

variable (ei) in
theorem lastBucket_delivers (n buckets : Nat) (count : BitVec 32) :
    Delivers (ei.lastBucket n buckets count) (ei.BucketsRead n buckets count)
      (if ei.InOrder n buckets count then some ((ei.filled n buckets).getLastD count)
        else none) := by
  induction n generalizing buckets count with
  | zero =>
      apply (Delivers.of_ok (some count)).congr
      · simp [BucketsRead]
      · simp [InOrder, filled, places]
  | succ n ih =>
      apply ((load_delivers 4 buckets).bind fun _ => Delivers.ite
        (fun _ => ih (buckets + 4) count)
        (fun _ => Delivers.ite (fun _ => Delivers.of_ok none)
          (fun _ => ih (buckets + 4) (ei.field 4 buckets)))).congr
      · rw [bucketsRead_succ, ← BitVec.not_lt]
        grind
      · intro _
        simp only [inOrder_succ, filled_succ, ← BitVec.not_lt (x := ei.field 4 buckets)]
        grind

theorem endOfChain_delivers (fuel hashval : Nat) (count : BitVec 32) :
    Delivers (ei.endOfChain fuel hashval count) (ei.ChainRead (places 4 fuel hashval))
      (count + BitVec.ofNat 32 (upToFirst ei.EndWord (places 4 fuel hashval)).length) := by
  induction fuel generalizing hashval count with
  | zero =>
      apply (Delivers.of_error Fault.timeout count).congr
      · simp [places, chainRead_iff]
      · exact False.elim
  | succ fuel ih =>
      apply ((load_delivers 4 hashval).bind fun _ => Delivers.ite
        (fun _ => ih (hashval + 4) (count + 1)) (fun _ => Delivers.of_ok (count + 1))).congr
      · simp only [places, chainRead_iff, forall_upToFirst_cons, List.mem_cons,
          exists_eq_or_imp, EndWord]
        grind
      · intro _
        rw [places, upToFirst]
        by_cases even : ei.field 4 hashval &&& 1 = 0
        · have goesOn : ¬ei.EndWord hashval := not_not.mpr even
          rw [if_pos even, if_neg goesOn, List.length_cons, BitVec.ofNat_add, BitVec.add_assoc,
            BitVec.add_comm 1]
          rfl
        · have ended : ei.EndWord hashval := even
          rw [if_neg even, if_pos ended]
          rfl

theorem gnuCount_delivers (gnuHash : Nat) :
    Delivers (ei.dynamicSymtabCount none (some gnuHash)) (ei.GnuHashRead gnuHash)
      (ei.gnuCount gnuHash) := by
  have last := lastBucket_delivers ei (ei.nbuckets gnuHash) (ei.bucketsAt gnuHash) 0
  by_cases order : ei.InOrder (ei.nbuckets gnuHash) (ei.bucketsAt gnuHash) 0
  · rw [if_pos order] at last
    refine Delivers.congr ((load_delivers 4 gnuHash).bind fun _ =>
      (load_delivers 4 (gnuHash + 4)).bind fun _ => (load_delivers 4 (gnuHash + 8)).bind fun _ =>
      last.bind fun _ => by
        exact Delivers.ite (fun _ => Delivers.of_ok (some 0)) fun _ =>
          Delivers.ite (fun _ => Delivers.of_ok none) fun _ =>
          (endOfChain_delivers _ _ _).bind fun _ => Delivers.of_ok (some _)) ?_ ?_
    · rw [gnuHashRead_iff, ← BitVec.not_lt]
      unfold lastWords chainsAt
      grind [lastFilled, nbuckets, bucketsAt]
    · intro _
      rw [gnuCount, if_pos order]
      rfl
  · rw [if_neg order] at last
    refine Delivers.congr ((load_delivers 4 gnuHash).bind fun _ =>
      (load_delivers 4 (gnuHash + 4)).bind fun _ => (load_delivers 4 (gnuHash + 8)).bind fun _ =>
      last.bind fun _ => by exact Delivers.of_ok none) ?_ ?_
    · rw [gnuHashRead_iff]
      grind
    · intro _
      rw [gnuCount, if_neg order]

variable (ei) in
theorem dynamicSymtabCount_delivers (hash gnuHash : Option Nat) :
    Delivers (ei.dynamicSymtabCount hash gnuHash) (ei.HashRead hash gnuHash)
      (ei.hashCount hash gnuHash) := by
  cases hash with
  | some hash =>
      apply ((load_delivers 4 (hash + 4)).bind fun _ =>
        Delivers.of_ok (some (ei.field 4 (hash + 4)))).congr
      · simp [HashRead]
      · intro _
        rfl
  | none =>
      cases gnuHash with
      | some gnuHash => exact gnuCount_delivers gnuHash
      | none => exact Delivers.of_ok none

variable (ei) in
theorem dynamicSymtab_delivers : Delivers ei.dynamicSymtab ei.DynamicRead ei.dynamicTable := by
  have find := findDynamic_delivers ei (ei.field 2 c.ePhnum).toNat
    (ei.field c.bytes c.ePhoff).toNat 0
  rw [← segments] at find
  rw [dynamicTable]
  cases place : ei.dynamicPlace ei.segments with
  | none =>
      rw [place] at find
      refine Delivers.congr ((load_delivers c.bytes c.ePhoff).bind fun _ =>
        (load_delivers 2 c.ePhnum).bind fun _ => find.bind fun _ => by
          exact Delivers.of_ok none) ?_ fun _ => rfl
      rw [dynamicRead_iff]
      grind
  | some dyn =>
      rw [place] at find
      have entries := readDynamic_delivers ei (ei.field 2 c.ePhnum).toNat
        (ei.field c.bytes c.ePhoff).toNat (ei.fileOffset ei.segments 0) (ei.size.toNat + 1) dyn {}
      rw [← segments, ← tablesAt] at entries
      rw [dynamicRead_iff, Option.bind_some]
      cases tables : ei.tablesAt dyn with
      | mk symtab strtab hash gnuHash =>
      rw [tables] at entries
      cases symtab with
      | none =>
          refine Delivers.congr ((load_delivers c.bytes c.ePhoff).bind fun _ =>
            (load_delivers 2 c.ePhnum).bind fun _ => find.bind fun _ => by
              exact entries.bind fun _ => by exact Delivers.of_ok none) ?_ fun _ => rfl
          grind
      | some symtab =>
      cases strtab with
      | none =>
          refine Delivers.congr ((load_delivers c.bytes c.ePhoff).bind fun _ =>
            (load_delivers 2 c.ePhnum).bind fun _ => find.bind fun _ => by
              exact entries.bind fun _ => by exact Delivers.of_ok none) ?_ fun _ => rfl
          grind
      | some strtab =>
          have count := dynamicSymtabCount_delivers ei hash gnuHash
          rw [symtabOf]
          cases counted : ei.hashCount hash gnuHash with
          | none =>
              rw [counted] at count
              refine Delivers.congr ((load_delivers c.bytes c.ePhoff).bind fun _ =>
                (load_delivers 2 c.ePhnum).bind fun _ => find.bind fun _ => by
                  exact entries.bind fun _ => by
                    exact count.bind fun _ => by exact Delivers.of_ok none) ?_ fun _ => rfl
              grind
          | some symNum =>
              rw [counted] at count
              refine Delivers.congr ((load_delivers c.bytes c.ePhoff).bind fun _ =>
                (load_delivers 2 c.ePhnum).bind fun _ => find.bind fun _ => by
                  exact entries.bind fun _ => by
                    exact count.bind fun _ => by
                      exact Delivers.of_ok (some (symtab, strtab, symNum.toNat))) ?_ fun _ => rfl
              grind

end ElfImage

end Libunwind.Elf
