import Libunwind.Elf.Image
import Libunwind.Elf.LoadBias

/-! # The symbols of an ELF image

How `lookup_symbol_closeness` goes through the symbol tables of an image: those of its sections
and, where these have nothing, that of its dynamic segment.
-/

namespace Libunwind.Elf

variable {c : ElfClass}

namespace ElfClass

/-! The places of more fields in `Elf_W(Ehdr)` and `Elf_W(Shdr)`, -/

def ePhoff : ElfClass → Nat
  | elf32 => 28
  | elf64 => 32

def ePhnum : ElfClass → Nat
  | elf32 => 44
  | elf64 => 56

def shLink : ElfClass → Nat
  | elf32 => 24
  | elf64 => 40

def shEntsize : ElfClass → Nat
  | elf32 => 36
  | elf64 => 56

/-! in `Elf_W(Sym)`, where `st_name` comes first, -/

def symSize : ElfClass → Nat
  | elf32 => 16
  | elf64 => 24

def stInfo : ElfClass → Nat
  | elf32 => 12
  | elf64 => 4

def stShndx : ElfClass → Nat
  | elf32 => 14
  | elf64 => 6

def stValue : ElfClass → Nat
  | elf32 => 4
  | elf64 => 8

def stSize : ElfClass → Nat
  | elf32 => 8
  | elf64 => 16

/-! and in `Elf_W(Phdr)`, where `p_type` comes first. -/

def phdrSize : ElfClass → Nat
  | elf32 => 32
  | elf64 => 56

def pFlags : ElfClass → Nat
  | elf32 => 24
  | elf64 => 4

def pOffset : ElfClass → Nat
  | elf32 => 4
  | elf64 => 8

def pVaddr : ElfClass → Nat
  | elf32 => 8
  | elf64 => 16

def pFilesz : ElfClass → Nat
  | elf32 => 16
  | elf64 => 32

end ElfClass

def shtSymtab : BitVec 32 := 2
def shtDynsym : BitVec 32 := 11

def ptLoad : BitVec 32 := 1
def ptDynamic : BitVec 32 := 2
def ptPhdr : BitVec 32 := 6

def sttFunc : Byte := 2
def shnUndef : BitVec 16 := 0
def shnAbs : BitVec 16 := 0xfff1

/-- `Elf_W(Sym)` -/
structure Sym (c : ElfClass) where
  name : BitVec 32
  info : Byte
  shndx : BitVec 16
  value : Word c.bits
  size : Word c.bits
  deriving DecidableEq

/-- A function that is defined. -/
def Sym.IsFunction (sym : Sym c) : Prop := sym.info &&& 0xf = sttFunc ∧ sym.shndx ≠ shnUndef

instance instDecidableIsFunction (sym : Sym c) : Decidable sym.IsFunction :=
  inferInstanceAs (Decidable (_ ∧ _))

/-- `struct symbol_info` -/
structure SymbolInfo (c : ElfClass) where
  strtab : Nat
  sym : Sym c
  startIp : Word c.bits
  deriving DecidableEq

/-- Where an image is loaded, and `tdep_get_func_addr`, which may fail. -/
structure Loading (c : ElfClass) where
  loadOffset : Word c.bits
  getFuncAddr : Word c.bits → Option (Word c.bits)

/-- What a lookup returns but for `-UNW_ENOINFO`. -/
inductive Hit where
  | success
  | nomem
  deriving DecidableEq, Repr

/-- `symtab_lookup_function_t`; without a hit it is `-UNW_ENOINFO`. -/
abbrev SymtabLookup (c : ElfClass) (σ : Type) := SymbolInfo c → σ → Result (Option Hit × σ)

/-- Keep going if there is no hit. -/
def untilHit {σ : Type} (first : Result (Option Hit × σ)) (rest : σ → Result (Option Hit × σ)) :
    Result (Option Hit × σ) := do
  let (ret, s) ← first
  match ret with
  | some hit => pure (some hit, s)
  | none => rest s

namespace ElfImage

variable (ei : ElfImage c) (l : Loading c) {σ : Type} (symtabLookup : SymtabLookup c σ)

/-- The symbol at a place. -/
def sym (off : Nat) : Sym c where
  name := ei.field 4 off
  info := ei.field 1 (off + c.stInfo)
  shndx := ei.field 2 (off + c.stShndx)
  value := ei.field c.bytes (off + c.stValue)
  size := ei.field c.bytes (off + c.stSize)

def loadSym (off : Nat) : Result (Sym c) :=
  if ei.Inside c.symSize off then .ok (ei.sym off) else .error .undefined

/-- What is looked at for a symbol, if anything. -/
def symbolInfo (strtab : Nat) (sym : Sym c) : Option (SymbolInfo c) :=
  if sym.IsFunction then
    let val := if sym.shndx ≠ shnAbs then sym.value + l.loadOffset else sym.value
    (l.getFuncAddr val).map fun val => ⟨strtab, sym, val⟩
  else none

/-- A round of either loop over symbols. -/
def visitSym (strtab off : Nat) (s : σ) : Result (Option Hit × σ) := do
  let sym ← ei.loadSym off
  match symbolInfo l strtab sym with
  | some info => symtabLookup info s
  | none => pure (none, s)

/-- The loop over the symbols of a section, up to `symtabEnd`. -/
def scanSymtab (strtab symtabEnd symentSize : Nat) : Nat → Nat → σ → Result (Option Hit × σ)
  | 0, _, _ => .error .timeout
  | fuel + 1, sym, s =>
      if sym < symtabEnd then
        untilHit (ei.visitSym l symtabLookup strtab sym s)
          (scanSymtab strtab symtabEnd symentSize fuel (sym + symentSize))
      else pure (none, s)

/-- What is done for a section header of type `SHT_SYMTAB` or `SHT_DYNSYM`. -/
def scanSection (shdr : Nat) (s : σ) : Result (Option Hit × σ) := do
  let shOffset ← ei.load c.bytes (shdr + c.shOffset)
  let shSize ← ei.load c.bytes (shdr + c.shSize)
  let shEntsize ← ei.load c.bytes (shdr + c.shEntsize)
  let shLink ← ei.load 4 (shdr + c.shLink)
  match ← ei.stringTable shLink with
  | none => pure (none, s)
  | some strtab =>
      ei.scanSymtab l symtabLookup strtab (shOffset.toNat + shSize.toNat) shEntsize.toNat
        (shSize.toNat + 1) shOffset.toNat s

/-- The loop over the section headers. -/
def scanSections (shentsize : Nat) : Nat → Nat → σ → Result (Option Hit × σ)
  | 0, _, s => pure (none, s)
  | shnum + 1, shdr, s => do
      let shType ← ei.load 4 (shdr + 4)
      untilHit
        (if shType = shtSymtab ∨ shType = shtDynsym then ei.scanSection l symtabLookup shdr s
          else pure (none, s))
        (scanSections shentsize shnum (shdr + shentsize))

/-! ## The dynamic segment -/

/-- `dynamic_va_to_file_offset` -/
def dynamicVaToFileOffset (va : Word c.bits) : Nat → Nat → Result (Word c.bits)
  | 0, _ => pure 0
  | phnum + 1, phdr => do
      let pType ← ei.load 4 phdr
      if pType ≠ ptLoad then dynamicVaToFileOffset va phnum (phdr + c.phdrSize)
      else do
        let pVaddr ← ei.load c.bytes (phdr + c.pVaddr)
        if pVaddr ≤ va then do
          let pFilesz ← ei.load c.bytes (phdr + c.pFilesz)
          if va + BitVec.ofNat c.bits c.bytes < pVaddr + pFilesz then do
            let pOffset ← ei.load c.bytes (phdr + c.pOffset)
            pure (pOffset + (va - pVaddr))
          else dynamicVaToFileOffset va phnum (phdr + c.phdrSize)
        else dynamicVaToFileOffset va phnum (phdr + c.phdrSize)

/-- The loop over the program headers of `lookup_symbol_from_dynamic`, with `get_program_segment`:
    the place of the dynamic segment, and `file_offset`. -/
def findDynamic : Nat → Nat → Word c.bits → Result (Option Nat × Word c.bits)
  | 0, _, fileOffset => pure (none, fileOffset)
  | phnum + 1, phdr, fileOffset => do
      let pType ← ei.load 4 phdr
      if pType = ptPhdr then do
        let pVaddr ← ei.load c.bytes (phdr + c.pVaddr)
        let pOffset ← ei.load c.bytes (phdr + c.pOffset)
        findDynamic phnum (phdr + c.phdrSize) (pVaddr - pOffset)
      else if pType = ptDynamic then do
        let pFilesz ← ei.load c.bytes (phdr + c.pFilesz)
        if pFilesz = 0 then pure (none, fileOffset)
        else do
          let pOffset ← ei.load c.bytes (phdr + c.pOffset)
          if ei.size < pOffset then pure (none, fileOffset)
          else pure (some pOffset.toNat, fileOffset)
      else findDynamic phnum (phdr + c.phdrSize) fileOffset

/-- The tables that the entries of the dynamic segment point to. -/
structure DynamicTables where
  symtab : Option Nat := none
  strtab : Option Nat := none
  hash : Option Nat := none
  gnuHash : Option Nat := none

/-- The loop over the entries. It leaves the image before it runs out of rounds. -/
def readDynamic (phnum phdrs : Nat) (fileOffset : Word c.bits) :
    Nat → Nat → DynamicTables → Result DynamicTables
  | 0, _, _ => .error .timeout
  | fuel + 1, dyn, tables => do
      let tag ← ei.load c.bytes dyn
      if tag = 0 then pure tables
      else do
        let ptr ← ei.load c.bytes (dyn + c.bytes)
        let place := (ptr - fileOffset).toNat
        let tables ← (
          if tag = 6 then pure { tables with symtab := some place }
          else if tag = 5 then pure { tables with strtab := some place }
          else if tag = 4 then pure { tables with hash := some place }
          else if tag = 0x6ffffef5 then do
            let gnuHash ← ei.dynamicVaToFileOffset ptr phnum phdrs
            pure { tables with gnuHash := some gnuHash.toNat }
          else pure tables)
        readDynamic phnum phdrs fileOffset fuel (dyn + 2 * c.bytes) tables

/-- The loop over the buckets of a GNU hash table. -/
def lastBucket : Nat → Nat → BitVec 32 → Result (Option (BitVec 32))
  | 0, _, count => pure (some count)
  | nbuckets + 1, buckets, count => do
      let bucket ← ei.load 4 buckets
      if bucket = 0 then lastBucket nbuckets (buckets + 4) count
      else if bucket < count then pure none
      else lastBucket nbuckets (buckets + 4) bucket

/-- The loop to the end of the last chain. It leaves the image before it runs out of rounds. -/
def endOfChain : Nat → Nat → BitVec 32 → Result (BitVec 32)
  | 0, _, _ => .error .timeout
  | fuel + 1, hashval, count => do
      let val ← ei.load 4 hashval
      if val &&& 1 = 0 then endOfChain fuel (hashval + 4) (count + 1) else pure (count + 1)

/-- `dynamic_symtab_count` -/
def dynamicSymtabCount (hash gnuHash : Option Nat) : Result (Option (BitVec 32)) :=
  match hash, gnuHash with
  | some hash, _ => do
      let count ← ei.load 4 (hash + 4)
      pure (some count)
  | none, some gnuHash => do
      let nbuckets ← ei.load 4 gnuHash
      let symoffset ← ei.load 4 (gnuHash + 4)
      let bloomSize ← ei.load 4 (gnuHash + 8)
      let buckets := gnuHash + 16 + bloomSize.toNat * c.bytes
      match ← ei.lastBucket nbuckets.toNat buckets 0 with
      | none => pure none
      | some count =>
          if count = 0 then pure (some 0)
          else if count < symoffset then pure none
          else do
            let chain := buckets + 4 * nbuckets.toNat + 4 * (count - symoffset).toNat
            let count ← ei.endOfChain (ei.size.toNat + 1) chain count
            pure (some count)
  | none, none => pure none

/-- The symbol table of the dynamic segment: its place, that of its strings, and how many symbols
    it has. -/
def dynamicSymtab : Result (Option (Nat × Nat × Nat)) := do
  let phoff ← ei.load c.bytes c.ePhoff
  let phnum ← ei.load 2 c.ePhnum
  let (dyn, fileOffset) ← ei.findDynamic phnum.toNat phoff.toNat 0
  match dyn with
  | none => pure none
  | some dyn => do
      let tables ← ei.readDynamic phnum.toNat phoff.toNat fileOffset (ei.size.toNat + 1) dyn {}
      match tables.symtab, tables.strtab with
      | some symtab, some strtab => do
          match ← ei.dynamicSymtabCount tables.hash tables.gnuHash with
          | none => pure none
          | some symNum => pure (some (symtab, strtab, symNum.toNat))
      | _, _ => pure none

/-- The loop over the symbols of the dynamic segment. -/
def scanDynamic (strtab : Nat) : Nat → Nat → σ → Result (Option Hit × σ)
  | 0, _, s => pure (none, s)
  | symNum + 1, sym, s =>
      untilHit (ei.visitSym l symtabLookup strtab sym s)
        (scanDynamic strtab symNum (sym + c.symSize))

/-- `lookup_symbol_from_dynamic` -/
def lookupSymbolFromDynamic (s : σ) : Result (Option Hit × σ) := do
  match ← ei.dynamicSymtab with
  | none => pure (none, s)
  | some (symtab, strtab, symNum) => ei.scanDynamic l symtabLookup strtab symNum symtab s

/-- `lookup_symbol_closeness` -/
def lookupSymbolCloseness (s : σ) : Result (Option Hit × σ) :=
  if ei.validObject then do
    match ← ei.sectionTable with
    | none => pure (none, s)
    | some shdr => do
        let shnum ← ei.load 2 c.eShnum
        let shentsize ← ei.load 2 c.eShentsize
        -- if it was not found there, the dynamic symbol table is checked
        untilHit (ei.scanSections l symtabLookup shentsize.toNat shnum.toNat shdr s)
          (ei.lookupSymbolFromDynamic l symtabLookup)
  else pure (none, s)

/-! ## The symbols of the tables -/

/-- The functions of a symbol table with so many entries. -/
def tableSymbols (strtab symentSize : Nat) : Nat → Nat → List (SymbolInfo c)
  | 0, _ => []
  | n + 1, sym =>
      (symbolInfo l strtab (ei.sym sym)).toList ++ tableSymbols strtab symentSize n (sym + symentSize)

/-- A header of a symbol table. -/
def IsSymtab (shdr : Nat) : Prop :=
  ei.field 4 (shdr + 4) = shtSymtab ∨ ei.field 4 (shdr + 4) = shtDynsym

instance instDecidableIsSymtab (shdr : Nat) : Decidable (ei.IsSymtab shdr) :=
  inferInstanceAs (Decidable (_ ∨ _))

/-- How many symbols a section has room for. -/
def symbolCount (shdr : Nat) : Nat :=
  (ei.field c.bytes (shdr + c.shSize)).toNat / (ei.field c.bytes (shdr + c.shEntsize)).toNat

def sectionSymbols (shdr : Nat) : List (SymbolInfo c) :=
  if ei.IsSymtab shdr then
    match ei.stringTable (ei.field 4 (shdr + c.shLink)) with
    | .ok (some strtab) =>
        ei.tableSymbols l strtab (ei.field c.bytes (shdr + c.shEntsize)).toNat
          (ei.symbolCount shdr) (ei.field c.bytes (shdr + c.shOffset)).toNat
    | _ => []
  else []

def sectionsSymbols (shentsize : Nat) : Nat → Nat → List (SymbolInfo c)
  | 0, _ => []
  | shnum + 1, shdr => ei.sectionSymbols l shdr ++ sectionsSymbols shentsize shnum (shdr + shentsize)

def dynamicSymbols : List (SymbolInfo c) :=
  match ei.dynamicSymtab with
  | .ok (some (symtab, strtab, symNum)) => ei.tableSymbols l strtab c.symSize symNum symtab
  | _ => []

/-- The functions of all symbol tables, those of the sections first. -/
def symbols : List (SymbolInfo c) :=
  ei.sectionsSymbols l (ei.field 2 c.eShentsize).toNat (ei.field 2 c.eShnum).toNat
      (ei.field c.bytes c.eShoff).toNat ++
    ei.dynamicSymbols l

/-- A symbol table is in the image. -/
def TableFormed (symentSize symNum symtab : Nat) : Prop :=
  ∀ j, j < symNum → ei.Inside c.symSize (symtab + j * symentSize)

/-- A section is in the image if it is a symbol table, with its header. -/
structure SectionFormed (shdr : Nat) : Prop where
  shType : ei.Inside 4 (shdr + 4)
  header : ei.IsSymtab shdr → ei.Inside c.bytes (shdr + c.shOffset) ∧
    ei.Inside c.bytes (shdr + c.shSize) ∧ ei.Inside c.bytes (shdr + c.shEntsize) ∧
    ei.Inside 4 (shdr + c.shLink)
  strings : ei.IsSymtab shdr → ∃ strtab, ei.stringTable (ei.field 4 (shdr + c.shLink)) = .ok strtab
  entsize : ei.IsSymtab shdr → 0 < (ei.field c.bytes (shdr + c.shEntsize)).toNat ∧
    (ei.field c.bytes (shdr + c.shEntsize)).toNat ∣ (ei.field c.bytes (shdr + c.shSize)).toNat
  symbols : ei.IsSymtab shdr → ei.TableFormed (ei.field c.bytes (shdr + c.shEntsize)).toNat
    (ei.symbolCount shdr) (ei.field c.bytes (shdr + c.shOffset)).toNat

/-- Whatever is read to go through the symbols is in the image. -/
structure WellFormed : Prop where
  valid : ei.validObject = true
  ehdr : ei.Inside 2 c.eShnum
  table : ei.sectionTable = .ok (some (ei.field c.bytes c.eShoff).toNat)
  sections : ∀ i, i < (ei.field 2 c.eShnum).toNat → ei.SectionFormed (ei.headerAt i)
  dynamic : ∃ tables, ei.dynamicSymtab = .ok tables ∧ ∀ symtab strtab symNum,
    tables = some (symtab, strtab, symNum) → ei.TableFormed c.symSize symNum symtab

end ElfImage

/-! ## Going through the symbols -/

/-- One symbol after another, up to a hit. -/
def visitAll {σ : Type} (symtabLookup : SymtabLookup c σ) :
    List (SymbolInfo c) → σ → Result (Option Hit × σ)
  | [], s => pure (none, s)
  | info :: infos, s => untilHit (symtabLookup info s) (visitAll symtabLookup infos)

section Visit

variable {σ : Type} {symtabLookup : SymtabLookup c σ}

theorem untilHit_none (s : σ) (rest : σ → Result (Option Hit × σ)) :
    untilHit (pure (none, s)) rest = rest s := rfl

theorem untilHit_assoc (first : Result (Option Hit × σ))
    (second third : σ → Result (Option Hit × σ)) :
    untilHit (untilHit first second) third = untilHit first fun s => untilHit (second s) third := by
  cases first with
  | error e => rfl
  | ok outcome =>
      obtain ⟨ret, s⟩ := outcome
      cases ret with
      | none => rfl
      | some hit => rfl

theorem untilHit_pure (first : Result (Option Hit × σ)) :
    untilHit first (fun s => pure (none, s)) = first := by
  cases first with
  | error e => rfl
  | ok outcome =>
      obtain ⟨ret, s⟩ := outcome
      cases ret with
      | none => rfl
      | some hit => rfl

theorem visitAll_append (first second : List (SymbolInfo c)) (s : σ) :
    visitAll symtabLookup (first ++ second) s =
      untilHit (visitAll symtabLookup first s) (visitAll symtabLookup second) := by
  induction first generalizing s with
  | nil => rfl
  | cons info infos ih =>
      rw [List.cons_append, visitAll, visitAll, untilHit_assoc]
      congr 1
      funext s
      exact ih s

variable {ei : ElfImage c} {l : Loading c} {strtab symentSize symNum sym shdr : Nat}

namespace ElfImage

theorem TableFormed.first (formed : ei.TableFormed symentSize (symNum + 1) sym) :
    ei.Inside c.symSize sym ∧ ei.TableFormed symentSize symNum (sym + symentSize) := by
  constructor
  · have here := formed 0 (Nat.succ_pos symNum)
    rwa [Nat.zero_mul, Nat.add_zero] at here
  · intro j below
    have later := formed (j + 1) (Nat.succ_lt_succ below)
    rwa [Nat.succ_mul, Nat.add_comm (j * symentSize), ← Nat.add_assoc] at later

theorem visitSym_eq (inside : ei.Inside c.symSize sym) (s : σ) :
    ei.visitSym l symtabLookup strtab sym s =
      visitAll symtabLookup (symbolInfo l strtab (ei.sym sym)).toList s := by
  rw [visitSym, loadSym, if_pos inside, ok_bind]
  cases symbolInfo l strtab (ei.sym sym) with
  | none => rfl
  | some info => exact (untilHit_pure _).symm

theorem scanSymtab_eq {symtabEnd fuel : Nat} (formed : ei.TableFormed symentSize symNum sym)
    (last : ∀ j, j < symNum ↔ sym + j * symentSize < symtabEnd) (enough : symNum < fuel) (s : σ) :
    ei.scanSymtab l symtabLookup strtab symtabEnd symentSize fuel sym s =
      visitAll symtabLookup (ei.tableSymbols l strtab symentSize symNum sym) s := by
  have first := last 0
  rw [Nat.zero_mul, Nat.add_zero] at first
  induction symNum generalizing sym fuel s with
  | zero =>
      obtain ⟨fuel, rfl⟩ : ∃ n, fuel = n + 1 := ⟨fuel - 1, by omega⟩
      rw [scanSymtab, if_neg (by omega)]
      rfl
  | succ n ih =>
      obtain ⟨fuel, rfl⟩ : ∃ n, fuel = n + 1 := ⟨fuel - 1, by omega⟩
      obtain ⟨here, later⟩ := formed.first
      have rest : ∀ j, j < n ↔ sym + symentSize + j * symentSize < symtabEnd := by
        intro j
        have next := last (j + 1)
        rw [Nat.succ_mul] at next
        omega
      rw [scanSymtab, if_pos (by omega), visitSym_eq here, tableSymbols, visitAll_append]
      congr 1
      funext s
      exact ih later rest (by omega) s (by simpa using rest 0)

theorem scanDynamic_eq (formed : ei.TableFormed c.symSize symNum sym) (s : σ) :
    ei.scanDynamic l symtabLookup strtab symNum sym s =
      visitAll symtabLookup (ei.tableSymbols l strtab c.symSize symNum sym) s := by
  induction symNum generalizing sym s with
  | zero => rfl
  | succ n ih =>
      obtain ⟨here, later⟩ := formed.first
      rw [scanDynamic, visitSym_eq here, tableSymbols, visitAll_append]
      congr 1
      funext s
      exact ih later s

theorem scanSection_eq (formed : ei.SectionFormed shdr) (isSymtab : ei.IsSymtab shdr) (s : σ) :
    ei.scanSection l symtabLookup shdr s =
      visitAll symtabLookup (ei.sectionSymbols l shdr) s := by
  obtain ⟨offset, size, entsize, link⟩ := formed.header isSymtab
  obtain ⟨strtab, strings⟩ := formed.strings isSymtab
  obtain ⟨positive, divides⟩ := formed.entsize isSymtab
  rw [scanSection, load_of_inside offset, load_of_inside size, load_of_inside entsize,
    load_of_inside link, sectionSymbols, if_pos isSymtab]
  simp only [ok_bind, strings]
  cases strtab with
  | none => rfl
  | some strtab =>
      have whole : ei.symbolCount shdr * (ei.field c.bytes (shdr + c.shEntsize)).toNat =
          (ei.field c.bytes (shdr + c.shSize)).toNat := Nat.div_mul_cancel divides
      have short := Nat.le_mul_of_pos_right (ei.symbolCount shdr) positive
      refine scanSymtab_eq (formed.symbols isSymtab) ?_ (by omega) s
      intro j
      rw [Nat.add_lt_add_iff_left, ← whole]
      exact (Nat.mul_lt_mul_right positive).symm

theorem scanSections_eq {shentsize shnum : Nat}
    (formed : ∀ i, i < shnum → ei.SectionFormed (shdr + i * shentsize)) (s : σ) :
    ei.scanSections l symtabLookup shentsize shnum shdr s =
      visitAll symtabLookup (ei.sectionsSymbols l shentsize shnum shdr) s := by
  induction shnum generalizing shdr s with
  | zero => rfl
  | succ n ih =>
      have here := formed 0 (Nat.succ_pos n)
      rw [Nat.zero_mul, Nat.add_zero] at here
      have later : ∀ i, i < n → ei.SectionFormed (shdr + shentsize + i * shentsize) := by
        intro i below
        have next := formed (i + 1) (Nat.succ_lt_succ below)
        rwa [Nat.succ_mul, Nat.add_comm (i * shentsize), ← Nat.add_assoc] at next
      rw [scanSections, load_of_inside here.shType, ok_bind, sectionsSymbols, visitAll_append]
      congr 1
      · by_cases isSymtab : ei.IsSymtab shdr
        · exact (if_pos isSymtab).trans (scanSection_eq here isSymtab s)
        · rw [sectionSymbols, if_neg isSymtab]
          exact if_neg isSymtab
      · funext s
        exact ih later s

theorem lookupSymbolFromDynamic_eq (formed : ei.WellFormed) (s : σ) :
    ei.lookupSymbolFromDynamic l symtabLookup s =
      visitAll symtabLookup (ei.dynamicSymbols l) s := by
  obtain ⟨tables, located, formed⟩ := formed.dynamic
  rw [lookupSymbolFromDynamic, dynamicSymbols, located, ok_bind]
  cases tables with
  | none => rfl
  | some tables =>
      obtain ⟨symtab, strtab, symNum⟩ := tables
      exact scanDynamic_eq (formed _ _ _ rfl) s

/-- In a well-formed image, the lookup goes through the functions of all tables up to a hit. -/
theorem lookupSymbolCloseness_eq (formed : ei.WellFormed) (s : σ) :
    ei.lookupSymbolCloseness l symtabLookup s =
      visitAll symtabLookup (ei.symbols l) s := by
  have entries : ei.load 2 c.eShentsize = .ok (ei.field 2 c.eShentsize) :=
    load_of_inside (inside_of_shnum formed.ehdr).2
  rw [lookupSymbolCloseness, if_pos formed.valid, formed.table]
  simp only [ok_bind, load_of_inside formed.ehdr, entries]
  rw [scanSections_eq formed.sections, symbols, visitAll_append]
  congr 1
  funext s
  exact lookupSymbolFromDynamic_eq formed s

end ElfImage

end Visit

end Libunwind.Elf
