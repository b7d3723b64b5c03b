import Libunwind.Elf.ClosestSymbol
import Libunwind.Elf.DynamicWalk

/-! # What the lookups of symbols read

`lookup_symbol_closeness` goes through all symbol tables of an image while there is no hit. It
checks where the section headers and the tables of names end, and nothing else that the image says.
-/

namespace Libunwind.Elf

open Checked

variable {c : ElfClass}

namespace ElfImage

variable (ei : ElfImage c)

/-! ## What must be inside -/

def shOffset (shdr : Nat) : Nat := (ei.field c.bytes (shdr + c.shOffset)).toNat

def shSize (shdr : Nat) : Nat := (ei.field c.bytes (shdr + c.shSize)).toNat

def shEntsize (shdr : Nat) : Nat := (ei.field c.bytes (shdr + c.shEntsize)).toNat

def shLink (shdr : Nat) : BitVec 32 := ei.field 4 (shdr + c.shLink)

instance instDecidableStringsGiven (sectionIndex : BitVec 32) :
    Decidable (ei.StringsGiven sectionIndex) :=
  inferInstanceAs (Decidable (¬_ ∧ ¬_))

/-- A symbol table whose names `string_table` gives is gone through. -/
def Walked (shdr : Nat) : Prop := ei.IsSymtab shdr ∧ ei.StringsGiven (ei.shLink shdr)

/-- What is read of a section: its header, those of its names, and the symbols. -/
@[mk_iff]
structure SectionRead (shdr : Nat) : Prop where
  shType : ei.Inside 4 (shdr + 4)
  header : ei.IsSymtab shdr → ei.Inside c.bytes (shdr + c.shOffset) ∧
    ei.Inside c.bytes (shdr + c.shSize) ∧ ei.Inside c.bytes (shdr + c.shEntsize) ∧
    ei.Inside 4 (shdr + c.shLink)
  strings : ei.IsSymtab shdr → ei.StringsRead (ei.shLink shdr)
  entsize : ei.Walked shdr → 0 < ei.shSize shdr → 0 < ei.shEntsize shdr
  symbols : ei.Walked shdr → ∀ j, j * ei.shEntsize shdr < ei.shSize shdr →
    ei.Inside c.symSize (ei.shOffset shdr + j * ei.shEntsize shdr)

/-- `section_table` lets the section headers through. -/
def TableGiven : Prop :=
  ¬ei.size < ei.field c.bytes c.eShoff + BitVec.ofNat c.bits ei.tableSize

/-- What is read to go through all symbols. -/
@[mk_iff]
structure SymbolsRead : Prop where
  ehdr : ei.Inside 2 c.eShnum
  product : ei.tableSize < 2 ^ 31
  sections : ei.TableGiven → ∀ i, i < (ei.field 2 c.eShnum).toNat → ei.SectionRead (ei.headerAt i)
  dynamic : ei.TableGiven → ei.DynamicRead
  symbols : ei.TableGiven → ∀ symtab strtab symNum,
    ei.dynamicTable = some (symtab, strtab, symNum) → ei.TableFormed c.symSize symNum symtab

/-- How many symbols the loop over a section comes to. -/
def symbolRounds (shdr : Nat) : Nat :=
  (ei.shSize shdr + ei.shEntsize shdr - 1) / ei.shEntsize shdr

instance instDecidableWalked (shdr : Nat) : Decidable (ei.Walked shdr) :=
  inferInstanceAs (Decidable (_ ∧ _))

/-- The functions that a lookup comes to in a section, -/
def sectionFunctions (l : Loading c) (shdr : Nat) : List (SymbolInfo c) :=
  if ei.Walked shdr then
    ei.tableSymbols l (ei.strOffset (ei.shLink shdr)).toNat (ei.shEntsize shdr)
      (ei.symbolRounds shdr) (ei.shOffset shdr)
  else []

/-- and all that it comes to, in order. -/
def functions (l : Loading c) : List (SymbolInfo c) :=
  (places (ei.field 2 c.eShentsize).toNat (ei.field 2 c.eShnum).toNat
      (ei.field c.bytes c.eShoff).toNat).flatMap (ei.sectionFunctions l) ++
    ei.dynamicTable.elim [] fun table => ei.tableSymbols l table.2.1 c.symSize table.2.2 table.1

/-- A name ends in the image. -/
def NameInside (info : SymbolInfo c) : Prop :=
  ∃ k, info.strtab + info.sym.name.toNat + k < ei.size.toNat ∧
    ei.byte (info.strtab + info.sym.name.toNat + k) = 0

/-- The name of any function that some lookup hits first is in the image. -/
def NamesRead : Prop :=
  ∀ (l : Loading c) (ip minDist : Word c.bits) (x : Located c),
    firstHit ip minDist ((ei.functions l).map fun info => (ei, info)) = some x → ei.NameInside x.2

/-- The condition for every lookup. -/
structure WalkSound : Prop where
  symbols : ei.SymbolsRead
  names : ei.TableGiven → ei.NamesRead

/-- Wherever the image is loaded, the lookup of an address ends, and every header, symbol and name
    that it reads is inside: it is the lookup of a name for a buffer, or of a range. -/
def WalkSafe : Prop :=
  ∀ (l : Loading c) (ip minDist : Word c.bits),
    (∀ bufLen buf, 0 < bufLen → ∃ outcome,
      ei.lookupSymbolCloseness l (lookupSymbolCallback ei bufLen ip) ⟨minDist, buf⟩ = .ok outcome) ∧
    ∀ range, ∃ outcome,
      ei.lookupSymbolCloseness l (lookupIpRangeCallback ip) ⟨minDist, range⟩ = .ok outcome

variable {ei} {l : Loading c} {σ : Type} {symtabLookup : SymtabLookup c σ}
  {strtab symentSize shdr : Nat}

/-! ## Lookups without a hit -/

/-- The callback has no hit, whatever the symbol. -/
def Silent (symtabLookup : SymtabLookup c σ) : Prop :=
  ∀ info s, symtabLookup info s = pure (none, s)

theorem untilHit_delivers {first : Result (Option Hit × σ)} {rest : σ → Result (Option Hit × σ)}
    {p q : Prop} {s : σ} (here : Delivers first p (none, s))
    (later : p → Delivers (rest s) q (none, s)) :
    Delivers (untilHit first rest) (p ∧ q) (none, s) :=
  here.bind later

theorem visitAll_silent (silent : Silent symtabLookup) (infos : List (SymbolInfo c)) (s : σ) :
    visitAll symtabLookup infos s = .ok (none, s) := by
  induction infos with
  | nil => rfl
  | cons info infos ih =>
      rw [visitAll, silent info s, untilHit_none]
      exact ih

variable (ei l strtab) in
theorem visitSym_delivers (silent : Silent symtabLookup) (off : Nat) (s : σ) :
    Delivers (ei.visitSym l symtabLookup strtab off s) (ei.Inside c.symSize off) (none, s) := by
  by_cases inside : ei.Inside c.symSize off
  · rw [visitSym_eq inside, visitAll_silent silent]
    exact (Delivers.of_ok _).congr (by simp [inside]) fun _ => rfl
  · rw [visitSym, loadSym, if_neg inside]
    exact (Delivers.of_error _ (none, s)).congr (by simp [inside]) fun _ => rfl

/-- Where a symbol has no size in the table, the loop stays at it for ever. -/
theorem scanSymtab_forever (silent : Silent symtabLookup) {sym symtabEnd : Nat}
    (below : sym < symtabEnd) (inside : ei.Inside c.symSize sym) (fuel : Nat) (s : σ) :
    ei.scanSymtab l symtabLookup strtab symtabEnd 0 fuel sym s = .error .timeout := by
  induction fuel with
  | zero => rfl
  | succ fuel ih =>
      rw [scanSymtab, if_pos below, (visitSym_delivers ei l strtab silent sym s).eq_ok inside]
      exact ih

/-- The loop over a section comes to an end inside the image where every symbol is inside, and the
    size of one takes it on. -/
theorem scanSymtab_delivers (silent : Silent symtabLookup) {fuel sym symtabEnd : Nat}
    (enough : symtabEnd - sym < fuel) (s : σ) :
    Delivers (ei.scanSymtab l symtabLookup strtab symtabEnd symentSize fuel sym s)
      ((sym < symtabEnd → 0 < symentSize) ∧ ∀ j, sym + j * symentSize < symtabEnd →
        ei.Inside c.symSize (sym + j * symentSize)) (none, s) := by
  induction fuel generalizing sym with
  | zero => cases enough
  | succ fuel ih =>
      by_cases below : sym < symtabEnd
      · by_cases moves : 0 < symentSize
        · have visit := visitSym_delivers ei l strtab silent sym s
          rw [scanSymtab, if_pos below]
          apply (untilHit_delivers visit fun _ => ih (by omega)).congr
          · have next (j : Nat) : sym + symentSize + j * symentSize = sym + (j + 1) * symentSize := by
              rw [Nat.succ_mul]
              omega
            simp only [next]
            constructor
            · intro read
              obtain ⟨here, -, later⟩ := read
              refine ⟨fun _ => moves, ?_⟩
              intro j inTable
              cases j with
              | zero => simpa using here
              | succ j => exact later j inTable
            · intro read
              refine ⟨by simpa using read.2 0 (by simpa using below), fun _ => moves, ?_⟩
              intro j inTable
              exact read.2 (j + 1) inTable
          · exact fun _ => rfl
        · obtain rfl : symentSize = 0 := by omega
          by_cases inside : ei.Inside c.symSize sym
          · rw [scanSymtab_forever silent below inside]
            exact (Delivers.of_error Fault.timeout (none, s)).congr (by simp [below]) fun _ => rfl
          · rw [scanSymtab, if_pos below, visitSym, loadSym, if_neg inside]
            exact (Delivers.of_error Fault.undefined (none, s)).congr (by simp [below]) fun _ => rfl
      · rw [scanSymtab, if_neg below]
        apply (Delivers.of_ok (none, s)).congr
        · constructor
          · intro _
            refine ⟨fun first => absurd first below, ?_⟩
            intro j inTable
            omega
          · exact fun _ => trivial
        · exact fun _ => rfl

variable (ei) in
theorem stringTable_delivers (sectionIndex : BitVec 32) :
    Delivers (ei.stringTable sectionIndex) (ei.StringsRead sectionIndex)
      (if ei.StringsGiven sectionIndex then some (ei.strOffset sectionIndex).toNat else none) := by
  intro strtab
  constructor
  · intro ran
    obtain ⟨range, ranged, -⟩ := bind_eq_ok.mp ran
    have read := stringsRead_iff.mp ⟨range, ranged⟩
    refine ⟨read, ?_⟩
    cases stringTable_eq read with
    | inl given =>
        rw [given.2, Except.ok.injEq] at ran
        rw [if_pos given.1, ran]
    | inr none =>
        rw [none.2, Except.ok.injEq] at ran
        rw [if_neg none.1, ran]
  · intro both
    obtain ⟨read, rfl⟩ := both
    cases stringTable_eq read with
    | inl given => rw [given.2, if_pos given.1]
    | inr none => rw [none.2, if_neg none.1]

theorem scanSection_delivers (silent : Silent symtabLookup) (shType : ei.Inside 4 (shdr + 4))
    (isSymtab : ei.IsSymtab shdr) (s : σ) :
    Delivers (ei.scanSection l symtabLookup shdr s) (ei.SectionRead shdr) (none, s) := by
  have strings := stringTable_delivers ei (ei.shLink shdr)
  by_cases given : ei.StringsGiven (ei.shLink shdr)
  · rw [if_pos given] at strings
    refine Delivers.congr ((load_delivers c.bytes (shdr + c.shOffset)).bind fun _ =>
      (load_delivers c.bytes (shdr + c.shSize)).bind fun _ =>
      (load_delivers c.bytes (shdr + c.shEntsize)).bind fun _ =>
      (load_delivers 4 (shdr + c.shLink)).bind fun _ => strings.bind fun _ => by
        exact scanSymtab_delivers silent (by omega) s) ?_ fun _ => rfl
    simp only [sectionRead_iff, Walked, shOffset, shSize, shEntsize]
    grind
  · rw [if_neg given] at strings
    refine Delivers.congr ((load_delivers c.bytes (shdr + c.shOffset)).bind fun _ =>
      (load_delivers c.bytes (shdr + c.shSize)).bind fun _ =>
      (load_delivers c.bytes (shdr + c.shEntsize)).bind fun _ =>
      (load_delivers 4 (shdr + c.shLink)).bind fun _ => strings.bind fun _ => by
        exact Delivers.of_ok (none, s)) ?_ fun _ => rfl
    simp only [sectionRead_iff, Walked]
    grind

theorem scanSections_delivers (silent : Silent symtabLookup) (shentsize shnum shdr : Nat) (s : σ) :
    Delivers (ei.scanSections l symtabLookup shentsize shnum shdr s)
      (∀ i, i < shnum → ei.SectionRead (shdr + i * shentsize)) (none, s) := by
  induction shnum generalizing shdr with
  | zero => exact (Delivers.of_ok (none, s)).congr (by simp) fun _ => rfl
  | succ shnum ih =>
      have next (i : Nat) : shdr + (i + 1) * shentsize = shdr + shentsize + i * shentsize := by
        rw [Nat.succ_mul]
        omega
      simp only [Nat.forall_lt_succ_left, Nat.zero_mul, Nat.add_zero, next]
      refine Delivers.congr ((load_delivers 4 (shdr + 4)).bind fun shType =>
        untilHit_delivers (by
          exact (Delivers.ite (fun isSymtab => scanSection_delivers silent shType isSymtab s)
            (fun _ => Delivers.of_ok (none, s))).congr Iff.rfl (by simp))
          fun _ => ih (shdr + shentsize)) ?_ fun _ => rfl
      rw [sectionRead_iff]
      grind [Walked, IsSymtab]

theorem scanDynamic_delivers (silent : Silent symtabLookup) (symNum sym : Nat) (s : σ) :
    Delivers (ei.scanDynamic l symtabLookup strtab symNum sym s)
      (ei.TableFormed c.symSize symNum sym) (none, s) := by
  induction symNum generalizing sym with
  | zero => exact (Delivers.of_ok (none, s)).congr (by simp [TableFormed]) fun _ => rfl
  | succ symNum ih =>
      apply (untilHit_delivers (visitSym_delivers ei l strtab silent sym s)
        fun _ => ih (sym + c.symSize)).congr
      · have next (j : Nat) : sym + (j + 1) * c.symSize = sym + c.symSize + j * c.symSize := by
          rw [Nat.succ_mul]
          omega
        simp only [TableFormed, Nat.forall_lt_succ_left, Nat.zero_mul, Nat.add_zero, next]
      · exact fun _ => rfl

theorem lookupSymbolFromDynamic_delivers (silent : Silent symtabLookup) (s : σ) :
    Delivers (ei.lookupSymbolFromDynamic l symtabLookup s)
      (ei.DynamicRead ∧ ∀ symtab strtab symNum,
        ei.dynamicTable = some (symtab, strtab, symNum) → ei.TableFormed c.symSize symNum symtab)
      (none, s) := by
  have located := dynamicSymtab_delivers ei
  cases table : ei.dynamicTable with
  | none =>
      rw [table] at located
      refine Delivers.congr (located.bind fun _ => by exact Delivers.of_ok (none, s)) ?_ fun _ => rfl
      simp
  | some found =>
      obtain ⟨symtab, strtab, symNum⟩ := found
      rw [table] at located
      refine Delivers.congr (located.bind fun _ => by
        exact scanDynamic_delivers silent symNum symtab s) ?_ fun _ => rfl
      grind

variable (ei) in
theorem sectionTable_delivers :
    Delivers ei.sectionTable (ei.Inside 2 c.eShnum ∧ ei.tableSize < 2 ^ 31)
      (if ei.size < ei.field c.bytes c.eShoff + BitVec.ofNat c.bits ei.tableSize then none
        else some (ei.field c.bytes c.eShoff).toNat) := by
  have before (ehdr : ei.Inside 2 c.eShnum) := inside_of_shnum ehdr
  refine Delivers.congr ((load_delivers c.bytes c.eShoff).bind fun _ =>
    (load_delivers 2 c.eShnum).bind fun _ => (load_delivers 2 c.eShentsize).bind fun _ =>
    Delivers.ite (fun _ => Delivers.of_error Fault.undefined none) fun _ =>
    Delivers.ite (fun _ => Delivers.of_ok none) fun _ => Delivers.of_ok _) ?_ ?_
  · rw [← tableSize, ← Nat.not_le]
    grind
  · rw [← tableSize]
    grind

/-- A lookup without a hit comes to an end where everything can be read. -/
theorem lookupSymbolCloseness_delivers (silent : Silent symtabLookup)
    (valid : ei.validObject = true) (s : σ) :
    Delivers (ei.lookupSymbolCloseness l symtabLookup s) ei.SymbolsRead (none, s) := by
  have entries (ehdr : ei.Inside 2 c.eShnum) := (inside_of_shnum ehdr).2
  have table := sectionTable_delivers ei
  rw [lookupSymbolCloseness, if_pos valid]
  by_cases given : ei.TableGiven
  · rw [if_neg given] at table
    refine Delivers.congr (table.bind fun _ => by
      exact (load_delivers 2 c.eShnum).bind fun _ => (load_delivers 2 c.eShentsize).bind fun _ =>
        untilHit_delivers (scanSections_delivers silent _ _ _ s)
          fun _ => lookupSymbolFromDynamic_delivers silent s) ?_ fun _ => rfl
    rw [symbolsRead_iff]
    simp only [headerAt]
    grind
  · rw [if_pos (not_not.mp given)] at table
    refine Delivers.congr (table.bind fun _ => by exact Delivers.of_ok (none, s)) ?_ fun _ => rfl
    rw [symbolsRead_iff]
    grind

/-! ## Lookups in an image that can be read -/

theorem lt_symbolRounds (moves : 0 < ei.shSize shdr → 0 < ei.shEntsize shdr) (j : Nat) :
    j < ei.symbolRounds shdr ↔ j * ei.shEntsize shdr < ei.shSize shdr := by
  rw [symbolRounds]
  by_cases positive : 0 < ei.shEntsize shdr
  · rw [Nat.lt_iff_add_one_le, Nat.le_div_iff_mul_le positive, Nat.succ_mul]
    omega
  · have none : ei.shEntsize shdr = 0 := by omega
    simp only [none, Nat.div_zero, Nat.mul_zero]
    omega

theorem symbolRounds_le (moves : 0 < ei.shSize shdr → 0 < ei.shEntsize shdr) :
    ei.symbolRounds shdr ≤ ei.shSize shdr := by
  apply Nat.le_of_not_lt
  intro many
  have more := (lt_symbolRounds moves _).mp many
  have positive := moves (Nat.lt_of_le_of_lt (Nat.zero_le _) more)
  exact Nat.not_lt.mpr (Nat.le_mul_of_pos_right _ positive) more

theorem scanSection_walked (read : ei.SectionRead shdr) (isSymtab : ei.IsSymtab shdr) (s : σ) :
    ei.scanSection l symtabLookup shdr s =
      visitAll symtabLookup (ei.sectionFunctions l shdr) s := by
  obtain ⟨offset, size, entsize, link⟩ := read.header isSymtab
  have strings := (stringTable_delivers ei (ei.shLink shdr)).eq_ok (read.strings isSymtab)
  rw [scanSection, load_of_inside offset, load_of_inside size, load_of_inside entsize,
    load_of_inside link, sectionFunctions]
  simp only [ok_bind]
  rw [← shLink, strings]
  by_cases given : ei.StringsGiven (ei.shLink shdr)
  · have walked : ei.Walked shdr := ⟨isSymtab, given⟩
    have rounds := lt_symbolRounds (read.entsize walked)
    rw [if_pos given, if_pos walked]
    apply scanSymtab_eq
    · intro j below
      exact read.symbols walked j ((rounds j).mp below)
    · intro j
      rw [rounds j]
      exact (Nat.add_lt_add_iff_left (k := ei.shOffset shdr)).symm
    · exact Nat.lt_succ_of_le (symbolRounds_le (read.entsize walked))
  · have skipped : ¬ei.Walked shdr := fun walked => given walked.2
    rw [if_neg given, if_neg skipped]
    rfl

theorem scanSections_walked {shentsize shnum : Nat}
    (read : ∀ i, i < shnum → ei.SectionRead (shdr + i * shentsize)) (s : σ) :
    ei.scanSections l symtabLookup shentsize shnum shdr s =
      visitAll symtabLookup ((places shentsize shnum shdr).flatMap (ei.sectionFunctions l)) s := by
  induction shnum generalizing shdr s with
  | zero => rfl
  | succ n ih =>
      have next (i : Nat) : shdr + (i + 1) * shentsize = shdr + shentsize + i * shentsize := by
        rw [Nat.succ_mul]
        omega
      simp only [Nat.forall_lt_succ_left, Nat.zero_mul, Nat.add_zero, next] at read
      obtain ⟨here, later⟩ := read
      rw [scanSections, load_of_inside here.shType, ok_bind, places, List.flatMap_cons,
        visitAll_append]
      congr 1
      · by_cases isSymtab : ei.IsSymtab shdr
        · exact (if_pos isSymtab).trans (scanSection_walked here isSymtab s)
        · have skipped : ¬ei.Walked shdr := fun walked => isSymtab walked.1
          rw [sectionFunctions, if_neg skipped]
          exact if_neg isSymtab
      · funext s
        exact ih later s

/-- A lookup goes through the functions up to a hit. -/
theorem lookupSymbolCloseness_walked (valid : ei.validObject = true) (given : ei.TableGiven)
    (read : ei.SymbolsRead) (s : σ) :
    ei.lookupSymbolCloseness l symtabLookup s = visitAll symtabLookup (ei.functions l) s := by
  have table := (sectionTable_delivers ei).eq_ok ⟨read.ehdr, read.product⟩
  have entries : ei.load 2 c.eShentsize = .ok (ei.field 2 c.eShentsize) :=
    load_of_inside (inside_of_shnum read.ehdr).2
  have located := (dynamicSymtab_delivers ei).eq_ok (read.dynamic given)
  rw [if_neg given] at table
  rw [lookupSymbolCloseness, if_pos valid, table]
  simp only [ok_bind, load_of_inside read.ehdr, entries]
  rw [scanSections_walked (read.sections given), functions, visitAll_append]
  congr 1
  funext s
  rw [lookupSymbolFromDynamic, located, ok_bind]
  have formed := read.symbols given
  cases found : ei.dynamicTable with
  | none => rfl
  | some table =>
      obtain ⟨symtab, strtab, symNum⟩ := table
      exact scanDynamic_eq (formed _ _ _ found) s

/-! ## Names -/

theorem cString_ok_iff (left off : Nat) :
    (∃ name, cString ei left off = .ok name) ↔ ∃ k, k < left ∧ ei.byte (off + k) = 0 := by
  induction left generalizing off with
  | zero => simp [cString]
  | succ left ih =>
      rw [cString]
      by_cases ends : ei.byte off = 0
      · rw [if_pos ends]
        exact iff_of_true ⟨[], rfl⟩ ⟨0, Nat.succ_pos left, ends⟩
      · rw [if_neg ends]
        have rest := ih (off + 1)
        constructor
        · intro returned
          obtain ⟨name, returned⟩ := returned
          obtain ⟨later, ran, -⟩ := bind_eq_ok.mp returned
          obtain ⟨k, below, zero⟩ := rest.mp ⟨later, ran⟩
          exact ⟨k + 1, Nat.succ_lt_succ below, by rwa [Nat.add_comm k, ← Nat.add_assoc]⟩
        · intro found
          obtain ⟨k, below, zero⟩ := found
          cases k with
          | zero => exact absurd zero ends
          | succ k =>
              obtain ⟨later, ran⟩ := rest.mpr ⟨k, Nat.lt_of_succ_lt_succ below, by
                rwa [Nat.add_assoc, Nat.add_comm 1]⟩
              exact ⟨ei.byte off :: later, by rw [ran, ok_bind, pure_eq_ok]⟩

theorem symName_ok_iff (info : SymbolInfo c) :
    (∃ name, symName ei info = .ok name) ↔ ei.NameInside info := by
  rw [symName, cString_ok_iff, NameInside]
  simp only [Nat.lt_sub_iff_add_lt']

/-- No symbol has the last address in its range. -/
theorem rangeCallback_silent :
    Silent (lookupIpRangeCallback (BitVec.allOnes c.bits) : SymtabLookup c _) := by
  intro info s
  have never : ¬Hits (BitVec.allOnes c.bits) s.minDist info := by
    intro hits
    have beyond := BitVec.lt_def.mp hits.2.1
    rw [BitVec.toNat_allOnes] at beyond
    have bound := (info.startIp + info.sym.size).isLt
    omega
  rw [lookupIpRangeCallback, takeCloser, if_neg never]

theorem lookupSymbolCloseness_ungiven (valid : ei.validObject = true) (given : ¬ei.TableGiven)
    (read : ei.SymbolsRead) (s : σ) :
    ei.lookupSymbolCloseness l symtabLookup s = .ok (none, s) := by
  have table := (sectionTable_delivers ei).eq_ok ⟨read.ehdr, read.product⟩
  rw [if_pos (not_not.mp given)] at table
  rw [lookupSymbolCloseness, if_pos valid, table]
  rfl

theorem copyName_ok_iff {bufLen : Nat} (room : 0 < bufLen) (info : SymbolInfo c)
    (buf : List Byte) :
    (∃ out, copyName ei bufLen info buf = .ok out) ↔ ei.NameInside info := by
  rw [← symName_ok_iff]
  constructor
  · intro returned
    obtain ⟨out, returned⟩ := returned
    obtain ⟨name, named, -⟩ := bind_eq_ok.mp returned
    exact ⟨name, named⟩
  · intro found
    obtain ⟨name, named⟩ := found
    exact ⟨_, copyName_eq (x := (ei, info)) (Nat.ne_of_gt room) named buf⟩

/-- A lookup of a name ends where the name of the first function that is hit can be read. -/
theorem lookupName_ok_iff (valid : ei.validObject = true) (given : ei.TableGiven)
    (read : ei.SymbolsRead) {ip minDist : Word c.bits} {bufLen : Nat} (room : 0 < bufLen)
    (buf : List Byte) :
    (∃ outcome, ei.lookupSymbolCloseness l (lookupSymbolCallback ei bufLen ip) ⟨minDist, buf⟩ =
        .ok outcome) ↔
      ∀ x, firstHit ip minDist ((ei.functions l).map fun info => (ei, info)) = some x →
        ei.NameInside x.2 := by
  rw [lookupSymbolCloseness_walked valid given read, lookupSymbolCallback]
  have taken := @visitAll_takeCloser c (List Byte) ip ei (fun ei => copyName ei bufLen)
    (ei.functions l) ⟨minDist, buf⟩
  rw [taken]
  cases found : firstHit ip minDist ((ei.functions l).map fun info => (ei, info)) with
  | none =>
      apply iff_of_true
      · exact ⟨_, rfl⟩
      · simp
  | some x =>
      obtain ⟨info, -, same⟩ := List.mem_map.mp (firstHit_mem found)
      subst same
      simp only [Option.some.injEq, forall_eq']
      rw [← copyName_ok_iff room info buf]
      constructor
      · intro returned
        obtain ⟨outcome, returned⟩ := returned
        obtain ⟨out, copied, -⟩ := bind_eq_ok.mp returned
        exact ⟨out, copied⟩
      · intro copied
        obtain ⟨out, copied⟩ := copied
        exact ⟨_, bind_eq_ok.mpr ⟨out, copied, rfl⟩⟩

/-- The lookup of a range reads no name. -/
theorem lookupRange_ok (valid : ei.validObject = true) (given : ei.TableGiven)
    (read : ei.SymbolsRead) (ip minDist : Word c.bits) (range : Word c.bits × Word c.bits) :
    ∃ outcome, ei.lookupSymbolCloseness l (lookupIpRangeCallback ip) ⟨minDist, range⟩ =
      .ok outcome := by
  rw [lookupSymbolCloseness_walked valid given read, lookupIpRangeCallback]
  generalize ei.functions l = infos
  induction infos with
  | nil => exact ⟨_, rfl⟩
  | cons info infos ih =>
      rw [visitAll, takeCloser]
      by_cases hits : Hits ip minDist info
      · rw [if_pos hits]
        exact ⟨_, rfl⟩
      · rw [if_neg hits, untilHit_none]
        exact ih

/-- The lookups stay inside the image, and end, exactly where it is sound. -/
theorem symbolWalk_safe_iff (valid : ei.validObject = true) : ei.WalkSafe ↔ ei.WalkSound := by
  constructor
  · intro safe
    have silent := (safe ⟨0, some⟩ (BitVec.allOnes c.bits) 0).2 (0, 0)
    have read : ei.SymbolsRead :=
      (lookupSymbolCloseness_delivers rangeCallback_silent valid _).exists_iff.mp silent
    refine ⟨read, ?_⟩
    intro given l ip minDist
    exact (lookupName_ok_iff valid given read Nat.one_pos []).mp
      ((safe l ip minDist).1 1 [] Nat.one_pos)
  · intro sound l ip minDist
    by_cases given : ei.TableGiven
    · constructor
      · intro bufLen buf room
        exact (lookupName_ok_iff valid given sound.symbols room buf).mpr
          (sound.names given l ip minDist)
      · intro range
        exact lookupRange_ok valid given sound.symbols ip minDist range
    · constructor
      · intro bufLen buf _
        exact ⟨_, lookupSymbolCloseness_ungiven valid given sound.symbols _⟩
      · intro range
        exact ⟨_, lookupSymbolCloseness_ungiven valid given sound.symbols _⟩

/-! ## A table of symbols without a size -/

/-- One section of 16 bytes from the start of the image on, a symbol table that is its own table of
    names, where a symbol has such a size. -/
def oneSection (entsize : Byte) : ElfImage .elf32 where
  size := 92
  byte off :=
    if off = 0 then 0x7f else if off = 1 then 0x45 else if off = 2 then 0x4c
    else if off = 3 then 0x46 else if off = 4 then 1 else if off = 6 then 1
    else if off = 32 then 52 else if off = 46 then 40 else if off = 48 then 1
    else if off = 56 then 2 else if off = 72 then 16 else if off = 88 then entsize else 0
  bigEndian := false

/-- The loop does not get past the first symbol. -/
theorem zeroEntsize_unsafe :
    (oneSection 0).validObject = true ∧ ¬(oneSection 0).WalkSafe := by
  have valid : (oneSection 0).validObject = true := by decide
  refine ⟨valid, ?_⟩
  intro safe
  have silent := (safe ⟨0, some⟩ (BitVec.allOnes _) 0).2 (0, 0)
  have read := (lookupSymbolCloseness_delivers rangeCallback_silent valid _).exists_iff.mp silent
  have given : (oneSection 0).TableGiven := by
    unfold TableGiven
    decide
  have entry := read.sections given 0 (by decide)
  have moves := entry.entsize (by decide) (by decide)
  have stays : (oneSection 0).shEntsize ((oneSection 0).headerAt 0) = 0 := by decide
  omega

/-- With the size of a symbol, there is one, which is not a function. -/
theorem oneSymbol_safe : (oneSection 16).WalkSafe := by
  have valid : (oneSection 16).validObject = true := by decide
  apply (symbolWalk_safe_iff valid).mpr
  have ran : (oneSection 16).lookupSymbolCloseness ⟨0, some⟩
      (lookupIpRangeCallback (BitVec.allOnes _)) ⟨0, 0, 0⟩ = .ok (none, ⟨0, 0, 0⟩) := by
    rfl
  refine ⟨(lookupSymbolCloseness_delivers rangeCallback_silent valid _).exists_iff.mp ⟨_, ran⟩, ?_⟩
  intro _ l ip minDist x hit
  have none : (oneSection 16).functions l = [] := by
    rfl
  rw [none] at hit
  cases hit

end ElfImage

end Libunwind.Elf
