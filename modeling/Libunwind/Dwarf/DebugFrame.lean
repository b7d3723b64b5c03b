import Libunwind.Library.ShellSort
import Libunwind.Dwarf.LocalRemoteLookup

/-! # The index of a `.debug_frame`

`debug_frame_index_make` walks a section and enters the start address and the
offset of each FDE, both narrowed to 32 bits, into an index, which
`debug_frame_index_sort` puts in order for `dwarf_search_unwind_table`.
-/

namespace Libunwind.Dwarf

open BinarySearch ShellSort

variable {w : Nat}

/-- The start of an item of the section: whether it is a CIE, and where the next
    item starts. There is none at the terminator. -/
def readItem (as : AddrSpace w) (addr : Word w) : Result (Option (Bool × Word w)) := do
  let (len, addr) ← readu32 as addr
  if len = 0 then pure none
  else if len = 0xffffffff then
    let (len, addr) ← readu64 as addr
    let (cieId, _) ← readu64 as addr
    pure (some (cieId == -1, addr + len.setWidth w))
  else
    let (cieId, _) ← readu32 as addr
    pure (some (cieId == 0xffffffff, addr + len.setWidth w))

/-- The entry that is made for an FDE. -/
def indexEntry (buf addr startIp : Word w) : TableEntry 32 :=
  { startIpOffset := startIp.setWidth 32, fdeOffset := (addr - buf).setWidth 32 }

/-- `debug_frame_index_make`, from `addr` on, once the index is allocated. The
    procedure info that an FDE is read into is not initialised. -/
def debugFrameIndexMake (as : AddrSpace w) (buf : Word w) (bufsize : Nat)
    (uninitialised : Word w → ProcInfo w) : Nat → Word w → Result (List (TableEntry 32))
  | 0, _ => .error .timeout
  | budget + 1, addr =>
      if addr < buf + BitVec.ofNat w bufsize then do
        match ← readItem as addr with
        | none => pure []
        | some (isCie, itemEnd) =>
            if isCie then debugFrameIndexMake as buf bufsize uninitialised budget itemEnd
            else
              match extractProcInfoFromFde as addr (uninitialised addr) buf false true true with
              | .ok (pi, _) => do
                  let rest ← debugFrameIndexMake as buf bufsize uninitialised budget itemEnd
                  pure (indexEntry buf addr pi.startIp :: rest)
              -- an FDE that cannot be parsed is left out
              | .error (.err _) => debugFrameIndexMake as buf bufsize uninitialised budget itemEnd
              | .error fault => .error fault
      else pure []

/-- `debug_frame_index_sort`. -/
def debugFrameIndexSort (index : List (TableEntry 32)) : List (TableEntry 32) :=
  shellSort TableEntry.start index

/-! ## Sections -/

/-- The addresses of the FDEs of a section from `addr` on. -/
inductive SectionFdes (as : AddrSpace w) (limit : Word w) : Word w → List (Word w) → Prop where
  | done {addr} : ¬ addr < limit → SectionFdes as limit addr []
  | terminator {addr} : addr < limit → readItem as addr = .ok none → SectionFdes as limit addr []
  | cie {addr next fdes} : addr < limit → readItem as addr = .ok (some (true, next)) →
      SectionFdes as limit next fdes → SectionFdes as limit addr fdes
  | fde {addr next fdes} : addr < limit → readItem as addr = .ok (some (false, next)) →
      SectionFdes as limit next fdes → SectionFdes as limit addr (addr :: fdes)

/-- An FDE and the addresses that it covers. -/
structure Fde (w : Nat) where
  addr : Word w
  startIp : Word w
  endIp : Word w
  deriving DecidableEq, Repr

/-- Reading at `addr` yields the bounds of `f`, whatever the procedure info held
    before. -/
def Fde.ReadAt (f : Fde w) (as : AddrSpace w) (buf addr : Word w) : Prop :=
  ∀ pi needUnwindInfo, ∃ out next,
    extractProcInfoFromFde as addr pi buf needUnwindInfo true true = .ok (out, next) ∧
      out.startIp = f.startIp ∧ out.endIp = f.endIp

def Fde.Covers (f : Fde w) (ip : Word w) : Prop := f.startIp ≤ ip ∧ ip < f.endIp

instance (f : Fde w) (ip : Word w) : Decidable (f.Covers ip) :=
  inferInstanceAs (Decidable (_ ∧ _))

/-- No address is covered by both. -/
def Fde.Apart (f g : Fde w) : Prop := ∀ ip, ¬ (f.Covers ip ∧ g.Covers ip)

instance : Std.Symm (Fde.Apart (w := w)) where
  symm _ _ apart ip both := apart ip both.symm

/-- The FDE in an object that is loaded `segbase` away. -/
def Fde.relocated (f : Fde w) (segbase : Word w) : Fde w :=
  { f with startIp := f.startIp + segbase, endIp := f.endIp + segbase }

/-- The entries of a section all parse, and cover non-empty, disjoint ranges. -/
structure WellFormedSection (as : AddrSpace w) (buf : Word w) (bufsize : Nat) (fdes : List (Fde w)) :
    Prop where
  layout : SectionFdes as (buf + BitVec.ofNat w bufsize) buf (fdes.map Fde.addr)
  parse : ∀ f ∈ fdes, f.ReadAt as buf f.addr
  nonempty : ∀ f ∈ fdes, f.startIp < f.endIp
  disjoint : fdes.Pairwise Fde.Apart

/-- On a section whose FDEs parse, the index has an entry for each of them. -/
theorem debugFrameIndexMake_eq {as : AddrSpace w} {buf : Word w} {bufsize : Nat}
    (uninitialised : Word w → ProcInfo w) {addrs : List (Word w)} {addr : Word w}
    (layout : SectionFdes as (buf + BitVec.ofNat w bufsize) addr addrs) :
    ∀ {fdes : List (Fde w)}, addrs = fdes.map Fde.addr → (∀ f ∈ fdes, f.ReadAt as buf f.addr) →
      ∃ most, ∀ budget, most ≤ budget →
        debugFrameIndexMake as buf bufsize uninitialised budget addr =
          .ok (fdes.map fun f => indexEntry buf f.addr f.startIp) := by
  induction layout with
  | done outside =>
      intro fdes isMap _
      obtain rfl := List.map_eq_nil_iff.mp isMap.symm
      refine ⟨1, fun budget enough => ?_⟩
      obtain ⟨budget, rfl⟩ := Nat.exists_eq_succ_of_ne_zero (by omega : budget ≠ 0)
      rw [debugFrameIndexMake, if_neg outside]
      rfl
  | terminator inside item =>
      intro fdes isMap _
      obtain rfl := List.map_eq_nil_iff.mp isMap.symm
      refine ⟨1, fun budget enough => ?_⟩
      obtain ⟨budget, rfl⟩ := Nat.exists_eq_succ_of_ne_zero (by omega : budget ≠ 0)
      rw [debugFrameIndexMake, if_pos inside, item]
      rfl
  | cie inside item _ ih =>
      intro fdes isMap parse
      obtain ⟨most, made⟩ := ih isMap parse
      refine ⟨most + 1, fun budget enough => ?_⟩
      obtain ⟨budget, rfl⟩ := Nat.exists_eq_succ_of_ne_zero (by omega : budget ≠ 0)
      rw [debugFrameIndexMake, if_pos inside, item]
      exact made budget (by omega)
  | @fde addr next rest inside item _ ih =>
      intro fdes isMap parse
      cases fdes with
      | nil => exact nomatch isMap
      | cons f fdes =>
          obtain ⟨rfl, isRest⟩ := List.cons.inj isMap
          obtain ⟨most, made⟩ := ih isRest fun g member => parse g (.tail f member)
          obtain ⟨out, fdeEnd, extracted, sameStart, -⟩ :=
            parse f List.mem_cons_self (uninitialised f.addr) false
          refine ⟨most + 1, fun budget enough => ?_⟩
          obtain ⟨budget, rfl⟩ := Nat.exists_eq_succ_of_ne_zero (by omega : budget ≠ 0)
          rw [debugFrameIndexMake, if_pos inside, item]
          simp only [ok_bind, Bool.false_eq_true, if_false, extracted, made budget (by omega),
            pure_eq_ok, sameStart, List.map_cons]

/-- The sorted index has the same entries, in order. -/
theorem debugFrameIndexSort_perm (index : List (TableEntry 32)) :
    (debugFrameIndexSort index).Perm index := shellSort_perm index

theorem debugFrameIndexSort_ascending (index : List (TableEntry 32)) :
    Ascending TableEntry.start (debugFrameIndexSort index) := shellSort_ascending index

/-! ## Lookups -/

/-- Searches in the section find the FDE that covers an `ip`, with its relocated
    bounds, and succeed only if there is one. -/
def LookupCorrect (as : AddrSpace w) (fdesc : DebugFrame w) (fdes : List (Fde w)) : Prop :=
  ∀ (target : AddrSpace w) (isLocal : Bool) (ip : Word w) (di : DynInfo w) (pi : ProcInfo w)
    (needUnwindInfo : Bool), di.format = .table → di.startIp ≤ ip → ip < di.endIp →
    (∀ f ∈ fdes, (f.relocated di.segbase).Covers ip → ∃ out,
      searchUnwindTable target as isLocal fdesc ip di pi needUnwindInfo true = .ok out ∧
        out.startIp = f.startIp + di.segbase ∧ out.endIp = f.endIp + di.segbase) ∧
    (∀ out, searchUnwindTable target as isLocal fdesc ip di pi needUnwindInfo true = .ok out →
      ∃ f ∈ fdes, (f.relocated di.segbase).Covers ip)

/-- An address as the index compares it. -/
def low (addr : Word w) : Int := (addr.setWidth 32).toInt

/-- The offset of an FDE, as `dwarf_search_unwind_table` widens it again. -/
def widenedOffset (buf addr : Word w) : Word w := ((addr - buf).setWidth 32).signExtend w

/-- The narrowed offset of every FDE still leads to it, and of the narrowed start
    addresses, the last one at or below that of a covered address is the one of
    the FDE that covers it. -/
def IndexFits (as : AddrSpace w) (buf : Word w) (fdes : List (Fde w)) : Prop :=
  ∀ f ∈ fdes, f.ReadAt as buf (widenedOffset buf f.addr + buf) ∧
    ∀ rel, f.Covers rel → low f.startIp ≤ low rel ∧
      ∀ g ∈ fdes, low f.startIp ≤ low g.startIp → low g.startIp ≤ low rel → g = f

section Search

variable {as : AddrSpace 64} {buf : Word 64} {bufsize : Nat} {fdes : List (Fde 64)}

/-- The sorted index of the section. -/
def sectionIndex (buf : Word 64) (fdes : List (Fde 64)) : List (TableEntry 32) :=
  debugFrameIndexSort (fdes.map fun f => indexEntry buf f.addr f.startIp)

theorem mem_sectionIndex {e : TableEntry 32} :
    e ∈ sectionIndex buf fdes ↔ ∃ f ∈ fdes, indexEntry buf f.addr f.startIp = e := by
  rw [sectionIndex, (debugFrameIndexSort_perm _).mem_iff, List.mem_map]

@[simp] theorem indexEntry_start (buf addr startIp : Word w) :
    (indexEntry buf addr startIp).start = low startIp := rfl

/-- A search in the section uses the last entry at or below the narrowed
    relative address. -/
theorem searchUnwindTable_table {target : AddrSpace 64} {isLocal : Bool} {ip : Word 64}
    {di : DynInfo 64} {pi : ProcInfo 64} {needUnwindInfo : Bool} (format : di.format = .table)
    (after : di.startIp ≤ ip) (before : ip < di.endIp) :
    searchUnwindTable target as isLocal ⟨buf, sectionIndex buf fdes⟩ ip di pi needUnwindInfo true =
      useSelection as ip di buf pi needUnwindInfo true
        (selection (sectionIndex buf fdes) di.segbase di.endIp
          (rank TableEntry.start (sectionIndex buf fdes) (low (ip - di.segbase)))) := by
  have entries (i : Nat) (e : TableEntry 32) (found : (sectionIndex buf fdes)[i]? = some e) :
      DebugFrame.entryAt (⟨buf, sectionIndex buf fdes⟩ : DebugFrame 64) i = .ok e := by
    simp only [DebugFrame.entryAt, found, pure_eq_ok]
  have selected : selectLocal .sdata4 (DebugFrame.entryAt ⟨buf, sectionIndex buf fdes⟩)
      ((sectionIndex buf fdes).length * 8) ip di.segbase di.endIp =
        .ok (selection (sectionIndex buf fdes) di.segbase di.endIp
          (rank TableEntry.start (sectionIndex buf fdes) (low (ip - di.segbase)))) :=
    selectLocal_eq (debugFrameIndexSort_ascending _) (Nat.mul_div_cancel _ (by decide)) entries
  rw [searchUnwindTable, if_neg (by simp [after, before]), if_pos format, selected]
  rfl

/-- The relocated bounds are compared modulo the size of the address space. -/
theorem Fde.covers_of_relocated {f : Fde 64} {segbase ip : Word 64}
    (nonempty : f.startIp < f.endIp) (covers : (f.relocated segbase).Covers ip) :
    f.Covers (ip - segbase) := by
  obtain ⟨after, before⟩ := covers
  simp only [Fde.relocated, Fde.Covers, BitVec.le_def, BitVec.lt_def, BitVec.toNat_add,
    BitVec.toNat_sub] at *
  omega

/-- A success relocates what is read at the selected entry's FDE. -/
theorem useSelection_ok {ip : Word 64} {di : DynInfo 64} {pi out : ProcInfo 64}
    {needUnwindInfo : Bool} {entry : Selection 64} (notNull : buf ≠ 0)
    (format : di.format = .table)
    (result : useSelection as ip di buf pi needUnwindInfo true (some entry) = .ok out) :
    ∃ read next, extractProcInfoFromFde as (entry.fdeOffset + buf) pi buf needUnwindInfo true true =
        .ok (read, next) ∧
      out.startIp = read.startIp + di.segbase ∧ out.endIp = read.endIp + di.segbase ∧
      out.startIp ≤ ip ∧ ip < out.endIp := by
  have isDebugFrame : (buf != 0) = true := bne_iff_ne.mpr notNull
  obtain ⟨⟨read, next⟩, extracted, rest⟩ := bind_eq_ok.mp result
  simp only [if_pos notNull, isDebugFrame, format, if_true, pure_eq_ok] at extracted rest
  split at rest
  next => exact nomatch rest
  next inside =>
    obtain ⟨after, before⟩ := not_or.mp inside
    obtain rfl := Except.ok.inj rest
    exact ⟨read, next, extracted, rfl, rfl, BitVec.not_lt.mp after, BitVec.not_le.mp before⟩

/-- An entry that leads to an FDE is used if that FDE covers the `ip`. -/
theorem useSelection_readAt {f : Fde 64} {ip : Word 64} {di : DynInfo 64} {pi : ProcInfo 64}
    {needUnwindInfo : Bool} {entry : Selection 64} (notNull : buf ≠ 0)
    (format : di.format = .table) (read : f.ReadAt as buf (entry.fdeOffset + buf)) :
    ((f.relocated di.segbase).Covers ip → ∃ out,
      useSelection as ip di buf pi needUnwindInfo true (some entry) = .ok out ∧
        out.startIp = f.startIp + di.segbase ∧ out.endIp = f.endIp + di.segbase) ∧
    (∀ out, useSelection as ip di buf pi needUnwindInfo true (some entry) = .ok out →
      (f.relocated di.segbase).Covers ip) := by
  obtain ⟨info, next, extracted, sameStart, sameEnd⟩ := read pi needUnwindInfo
  constructor
  · rintro ⟨after, before⟩
    have isDebugFrame : (buf != 0) = true := bne_iff_ne.mpr notNull
    have inside : ¬ (ip < f.startIp + di.segbase ∨ f.endIp + di.segbase ≤ ip) :=
      not_or.mpr ⟨BitVec.not_lt.mpr after, BitVec.not_le.mpr before⟩
    rw [useSelection]
    simp only [if_pos notNull, isDebugFrame, extracted, ok_bind, format, if_true, sameStart,
      sameEnd, pure_eq_ok, if_neg inside]
    exact ⟨_, rfl, rfl, rfl⟩
  · intro out result
    obtain ⟨info', next', extracted', isStart, isEnd, after, before⟩ :=
      useSelection_ok notNull format result
    obtain ⟨rfl, -⟩ := Prod.mk.inj (Except.ok.inj (extracted.symm.trans extracted'))
    rw [isStart, sameStart] at after
    rw [isEnd, sameEnd] at before
    exact ⟨after, before⟩

theorem Fde.ReadAt.unique {f g : Fde 64} {addr : Word 64} (one : f.ReadAt as buf addr)
    (other : g.ReadAt as buf addr) : f.startIp = g.startIp := by
  obtain ⟨out, next, extracted, sameStart, -⟩ := one {} false
  obtain ⟨out', next', extracted', sameStart', -⟩ := other {} false
  obtain ⟨rfl, -⟩ := Prod.mk.inj (Except.ok.inj (extracted.symm.trans extracted'))
  exact sameStart.symm.trans sameStart'

/-- FDEs of a section that start at one address are the same. -/
theorem WellFormedSection.eq_of_start (wf : WellFormedSection as buf bufsize fdes) {f g : Fde 64}
    (hasF : f ∈ fdes) (hasG : g ∈ fdes) (same : f.startIp = g.startIp) : f = g := by
  by_contra different
  have apart : f.Apart g := wf.disjoint.forall hasF hasG different
  refine apart f.startIp ⟨⟨BitVec.le_refl _, wf.nonempty f hasF⟩, ?_, ?_⟩
  · rw [same]
    exact BitVec.le_refl _
  · rw [same]
    exact wf.nonempty g hasG

/-- Where the index fits, the entry of the covering FDE is selected. -/
theorem IndexFits.picks (fits : IndexFits as buf fdes) {f : Fde 64} {rel : Word 64}
    (member : f ∈ fdes) (covers : f.Covers rel) :
    rank TableEntry.start (sectionIndex buf fdes) (low rel) ≠ 0 ∧
      (sectionIndex buf fdes)[rank TableEntry.start (sectionIndex buf fdes) (low rel) - 1]? =
        some (indexEntry buf f.addr f.startIp) := by
  obtain ⟨-, only⟩ := fits f member
  obtain ⟨small, onlyOne⟩ := only rel covers
  have hasEntry : indexEntry buf f.addr f.startIp ∈ sectionIndex buf fdes :=
    mem_sectionIndex.mpr ⟨f, member, rfl⟩
  obtain ⟨some_entry, last, found, above, below⟩ :=
    rank_last (debugFrameIndexSort_ascending _) hasEntry small
  obtain ⟨g, hasG, rfl⟩ := mem_sectionIndex.mp (List.mem_of_getElem? found)
  obtain rfl := onlyOne g hasG above below
  exact ⟨some_entry, found⟩

theorem lookupCorrect_of_fits (wf : WellFormedSection as buf bufsize fdes) (notNull : buf ≠ 0)
    (fits : IndexFits as buf fdes) : LookupCorrect as ⟨buf, sectionIndex buf fdes⟩ fdes := by
  intro target isLocal ip di pi needUnwindInfo format after before
  rw [searchUnwindTable_table format after before]
  constructor
  · intro f member covers
    obtain ⟨some_entry, found⟩ :=
      fits.picks member (Fde.covers_of_relocated (wf.nonempty f member) covers)
    rw [selection, if_neg some_entry, found, Option.map_some]
    refine (useSelection_readAt notNull format ?_).1 covers
    exact (fits f member).1
  · intro out result
    by_cases empty :
        rank TableEntry.start (sectionIndex buf fdes) (low (ip - di.segbase)) = 0
    · rw [selection, if_pos empty] at result
      cases result
    · have bound :=
        rank_le_length TableEntry.start (sectionIndex buf fdes) (low (ip - di.segbase))
      have found := List.getElem?_eq_getElem
        (show rank TableEntry.start (sectionIndex buf fdes) (low (ip - di.segbase)) - 1 <
          (sectionIndex buf fdes).length by omega)
      obtain ⟨g, hasG, isEntry⟩ := mem_sectionIndex.mp (List.mem_of_getElem? found)
      rw [selection, if_neg empty, found, ← isEntry, Option.map_some] at result
      refine ⟨g, hasG, (useSelection_readAt notNull format ?_).2 out result⟩
      exact (fits g hasG).1

/-- What a search for an address that `f` covers selects leads to `f`. -/
theorem LookupCorrect.selects (correct : LookupCorrect as ⟨buf, sectionIndex buf fdes⟩ fdes)
    {f : Fde 64} {rel : Word 64} (notNull : buf ≠ 0) (member : f ∈ fdes) (covers : f.Covers rel) :
    ∃ g ∈ fdes, f.ReadAt as buf (widenedOffset buf g.addr + buf) ∧
      rank TableEntry.start (sectionIndex buf fdes) (low rel) ≠ 0 ∧
      (sectionIndex buf fdes)[rank TableEntry.start (sectionIndex buf fdes) (low rel) - 1]? =
        some (indexEntry buf g.addr g.startIp) := by
  -- the object that has just this FDE, loaded where it was linked
  let di : DynInfo 64 := { startIp := f.startIp, endIp := f.endIp, format := .table, segbase := 0 }
  have found (pi : ProcInfo 64) (needUnwindInfo : Bool) : ∃ out,
      useSelection as rel di buf pi needUnwindInfo true
        (selection (sectionIndex buf fdes) 0 f.endIp
          (rank TableEntry.start (sectionIndex buf fdes) (low rel))) = .ok out ∧
        out.startIp = f.startIp ∧ out.endIp = f.endIp := by
    obtain ⟨out, result, sameStart, sameEnd⟩ :=
      (correct as true rel di pi needUnwindInfo rfl covers.1 covers.2).1 f member
        (by simpa [di, Fde.relocated, Fde.Covers] using covers)
    rw [searchUnwindTable_table rfl covers.1 covers.2] at result
    simp only [di, BitVec.sub_zero, BitVec.ofNat_eq_ofNat] at result
    exact ⟨out, result, by simpa [di] using sameStart, by simpa [di] using sameEnd⟩
  by_cases empty : rank TableEntry.start (sectionIndex buf fdes) (low rel) = 0
  · obtain ⟨out, result, -⟩ := found {} false
    rw [selection, if_pos empty] at result
    cases result
  · have bound := rank_le_length TableEntry.start (sectionIndex buf fdes) (low rel)
    have isLast := List.getElem?_eq_getElem
      (show rank TableEntry.start (sectionIndex buf fdes) (low rel) - 1 <
        (sectionIndex buf fdes).length by omega)
    obtain ⟨g, hasG, isEntry⟩ := mem_sectionIndex.mp (List.mem_of_getElem? isLast)
    rw [← isEntry] at isLast
    refine ⟨g, hasG, fun pi needUnwindInfo => ?_, empty, isLast⟩
    obtain ⟨out, result, sameStart, sameEnd⟩ := found pi needUnwindInfo
    rw [selection, if_neg empty, isLast, Option.map_some] at result
    obtain ⟨read, next, extracted, isStart, isEnd, -⟩ := useSelection_ok notNull rfl result
    refine ⟨read, next, extracted, ?_, ?_⟩
    · rw [← sameStart, isStart]
      exact (BitVec.add_zero _).symm
    · rw [← sameEnd, isEnd]
      exact (BitVec.add_zero _).symm

theorem fits_of_lookupCorrect (wf : WellFormedSection as buf bufsize fdes) (notNull : buf ≠ 0)
    (correct : LookupCorrect as ⟨buf, sectionIndex buf fdes⟩ fdes) :
    IndexFits as buf fdes := by
  have coversStart {f : Fde 64} (member : f ∈ fdes) : f.Covers f.startIp :=
    ⟨BitVec.le_refl _, wf.nonempty f member⟩
  -- two starts with the same low half select the same entry
  have distinct {f g : Fde 64} (hasF : f ∈ fdes) (hasG : g ∈ fdes)
      (same : low f.startIp = low g.startIp) : f = g := by
    obtain ⟨e, -, readF, -, foundF⟩ := correct.selects notNull hasF (coversStart hasF)
    obtain ⟨e', -, readG, -, foundG⟩ := correct.selects notNull hasG (coversStart hasG)
    rw [same, foundG] at foundF
    have sameOffset : widenedOffset buf e'.addr = widenedOffset buf e.addr :=
      congrArg (fun entry : TableEntry 32 => entry.fdeOffset.signExtend 64)
        (Option.some.inj foundF)
    rw [sameOffset] at readG
    exact wf.eq_of_start hasF hasG (readF.unique readG)
  have narrowed {f : Fde 64} {rel : Word 64} (member : f ∈ fdes) (covers : f.Covers rel) :
      ∃ g ∈ fdes, f.ReadAt as buf (widenedOffset buf g.addr + buf) ∧ low g.startIp ≤ low rel ∧
        ∀ h ∈ fdes, low h.startIp ≤ low rel → low h.startIp ≤ low g.startIp := by
    obtain ⟨g, hasG, read, some_entry, found⟩ := correct.selects notNull member covers
    refine ⟨g, hasG, read, ?_, fun h hasH small => ?_⟩
    · exact (key_le_iff (debugFrameIndexSort_ascending _) found (low rel)).mpr
        (Nat.sub_lt (Nat.pos_of_ne_zero some_entry) Nat.one_pos)
    · obtain ⟨-, last, isLast, above, -⟩ := rank_last (debugFrameIndexSort_ascending _)
        (mem_sectionIndex.mpr ⟨h, hasH, rfl⟩) small
      obtain rfl := Option.some.inj (isLast.symm.trans found)
      exact above
  have readsOwn {f : Fde 64} (member : f ∈ fdes) :
      f.ReadAt as buf (widenedOffset buf f.addr + buf) := by
    obtain ⟨g, hasG, read, small, largest⟩ := narrowed member (coversStart member)
    obtain rfl := distinct hasG member
      (le_antisymm small (largest f member (le_refl _)))
    exact read
  intro f member
  refine ⟨readsOwn member, fun rel covers => ?_⟩
  obtain ⟨g, hasG, read, small, largest⟩ := narrowed member covers
  obtain rfl : f = g := wf.eq_of_start member hasG (read.unique (readsOwn hasG))
  refine ⟨small, fun h hasH above below => ?_⟩
  exact distinct hasH member (le_antisymm (largest h hasH below) above)

/-- On every well-formed section the index is made and sorted; searches through
    it are sound and complete exactly when the narrowed entries fit. -/
theorem debugFrame_lookup_iff (wf : WellFormedSection as buf bufsize fdes) (notNull : buf ≠ 0)
    (uninitialised : Word 64 → ProcInfo 64) :
    ∃ index most,
      (∀ budget, most ≤ budget →
        debugFrameIndexMake as buf bufsize uninitialised budget buf = .ok index) ∧
      (LookupCorrect as ⟨buf, debugFrameIndexSort index⟩ fdes ↔ IndexFits as buf fdes) := by
  obtain ⟨most, made⟩ := debugFrameIndexMake_eq uninitialised wf.layout rfl wf.parse
  exact ⟨_, most, made, fits_of_lookupCorrect wf notNull, lookupCorrect_of_fits wf notNull⟩

end Search

/-- A section at address 4 with a CIE, and an FDE at address 17 whose procedure
    is 32 bytes long and starts at this address. -/
def oneFdeSection (startIp : List Byte) : AddrSpace 64 :=
  spaceOfBytes 64 ([0, 0, 0, 0,
    9, 0, 0, 0, 0xff, 0xff, 0xff, 0xff, 1, 0, 1, 0x78, 16,
    20, 0, 0, 0, 0, 0, 0, 0] ++ startIp ++ [0x20, 0, 0, 0, 0, 0, 0, 0])

/-- The procedure lies across the 2 GiB boundary. -/
def highSection : AddrSpace 64 := oneFdeSection [0xf0, 0xff, 0xff, 0x7f, 0, 0, 0, 0]

def highFde : Fde 64 := ⟨17, 0x7ffffff0, 0x80000010⟩

theorem highSection_wellFormed : WellFormedSection highSection 4 37 [highFde] := by
  constructor
  · exact .cie (by decide) rfl (.fde (by decide) rfl (.done (by decide)))
  · intro f member pi needUnwindInfo
    obtain rfl := List.mem_singleton.mp member
    cases needUnwindInfo <;> exact ⟨_, _, rfl, rfl, rfl⟩
  · intro f member
    obtain rfl := List.mem_singleton.mp member
    decide
  · exact List.pairwise_singleton _ _

/-- Behind the boundary, the procedure's own start seems to lie above. -/
theorem highSection_incomplete :
    WellFormedSection highSection 4 37 [highFde] ∧
      debugFrameIndexMake highSection 4 37 (fun _ => {}) 3 4 = .ok [⟨0x7ffffff0, 13⟩] ∧
      ¬ LookupCorrect highSection ⟨4, debugFrameIndexSort [⟨0x7ffffff0, 13⟩]⟩ [highFde] := by
  refine ⟨highSection_wellFormed, rfl, fun correct => ?_⟩
  have missed : searchUnwindTable highSection highSection true
      ⟨4, debugFrameIndexSort [⟨0x7ffffff0, 13⟩]⟩ 0x80000000
      { startIp := 0x7ffffff0, endIp := 0x80000010, format := .table, segbase := 0 } {} false true =
        .error (.err .noinfo) := by
    decide
  obtain ⟨out, found, -⟩ := (correct highSection true 0x80000000
    { startIp := 0x7ffffff0, endIp := 0x80000010, format := .table, segbase := 0 } {} false rfl
    (by decide) (by decide)).1 highFde (List.mem_singleton_self _) (by decide)
  rw [missed] at found
  exact nomatch found

/-- The same procedure where executables are usually linked. -/
def lowSection : AddrSpace 64 := oneFdeSection [0, 0x10, 0x40, 0, 0, 0, 0, 0]

def lowFde : Fde 64 := ⟨17, 0x401000, 0x401020⟩

theorem low_eq_toNat {addr : Word 64} (small : addr.toNat < 2 ^ 31) : low addr = addr.toNat := by
  rw [low, BitVec.toInt_eq_toNat_of_lt] <;> rw [BitVec.toNat_setWidth] <;> omega

theorem lowSection_found :
    ∃ index most,
      (∀ budget, most ≤ budget →
        debugFrameIndexMake lowSection 4 37 (fun _ => {}) budget 4 = .ok index) ∧
      LookupCorrect lowSection ⟨4, debugFrameIndexSort index⟩ [lowFde] := by
  have read : lowFde.ReadAt lowSection 4 17 := by
    intro pi needUnwindInfo
    cases needUnwindInfo <;> exact ⟨_, _, rfl, rfl, rfl⟩
  have wf : WellFormedSection lowSection 4 37 [lowFde] := by
    constructor
    · exact .cie (by decide) rfl (.fde (by decide) rfl (.done (by decide)))
    · intro f member
      obtain rfl := List.mem_singleton.mp member
      exact read
    · intro f member
      obtain rfl := List.mem_singleton.mp member
      decide
    · exact List.pairwise_singleton _ _
  have fits : IndexFits lowSection 4 [lowFde] := by
    intro f member
    obtain rfl := List.mem_singleton.mp member
    refine ⟨read, fun rel covers => ⟨?_, fun g hasG _ _ => List.mem_singleton.mp hasG⟩⟩
    obtain ⟨after, before⟩ := covers
    have after : 0x401000 ≤ rel.toNat := after
    have before : rel.toNat < 0x401020 := before
    rw [low_eq_toNat (by decide), low_eq_toNat (by omega)]
    exact Int.ofNat_le.mpr after
  obtain ⟨index, most, made, correct⟩ := debugFrame_lookup_iff wf (by decide) fun _ => {}
  exact ⟨index, most, made, correct.mpr fits⟩

end Libunwind.Dwarf
