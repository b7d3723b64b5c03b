import Libunwind.Lookup.LoadedObjects
import Libunwind.Dwarf.ReadDefined

/-! # The procedures of the loaded objects

Every object says what procedures it has: in a table that is sorted by address, or in a section, or
not at all. Whichever it is, and wherever the object stands among the others, an address is looked up
to the FDE that covers it.
-/

namespace Libunwind.Lookup

open Dwarf Elf BinarySearch

variable {w : Nat}

/-! ## The scan of the program headers -/

/-- What a header changes, one variable after the other. -/
theorem PhdrScan.next_eq (info : DlPhdrInfo w) (ip : Word w) (s : PhdrScan w)
    (phdr : ProgramHeader w) : s.next info ip phdr =
      { pText := if info.Loads phdr ip then some phdr else s.pText
        pEhHdr := if phdr.type = .gnuEhFrame then some phdr else s.pEhHdr
        pDynamic := if phdr.type = .dynamic then some phdr else s.pDynamic
        maxLoadAddr :=
          if phdr.type = .load ∧ s.maxLoadAddr < phdr.vaddr + info.dlpiAddr + phdr.filesz then
            phdr.vaddr + info.dlpiAddr + phdr.filesz
          else s.maxLoadAddr } := by
  unfold PhdrScan.next
  split
  next load =>
    have loads : info.Loads phdr ip ↔ phdr.vaddr + info.dlpiAddr ≤ ip ∧
        ip < phdr.vaddr + info.dlpiAddr + phdr.memsz := and_iff_right load
    simp only [loads, load, true_and, reduceCtorEq, if_false]
    split <;> split <;> rfl
  next gnuEhFrame => simp [gnuEhFrame, DlPhdrInfo.Loads]
  next dynamic => simp [dynamic, DlPhdrInfo.Loads]
  next notLoad notEhFrame notDynamic =>
    have notLoads : ¬ info.Loads phdr ip := fun loads => notLoad loads.1
    rw [if_neg notLoads, if_neg notEhFrame, if_neg notDynamic, if_neg fun loaded => notLoad loaded.1]

namespace DlPhdrInfo

variable (info : DlPhdrInfo w) (ip : Word w)

/-- The header of a type that the loop keeps: the last one. -/
def lastOf (type : SegmentType) : Option (ProgramHeader w) :=
  info.dlpiPhdr.reverse.find? fun phdr => phdr.type = type

/-- The segment that the loop keeps for an address. -/
def textOf : Option (ProgramHeader w) := info.dlpiPhdr.reverse.find? fun phdr => info.Loads phdr ip

/-- Where the data of the segments end. -/
def loadEnd : Word w :=
  info.dlpiPhdr.foldl
    (fun last phdr =>
      if phdr.type = .load ∧ last < phdr.vaddr + info.dlpiAddr + phdr.filesz then
        phdr.vaddr + info.dlpiAddr + phdr.filesz
      else last) 0

theorem scan_eq : info.scan ip =
    { pText := info.textOf ip
      pEhHdr := info.lastOf .gnuEhFrame
      pDynamic := info.lastOf .dynamic
      maxLoadAddr := info.loadEnd } := by
  unfold scan textOf lastOf loadEnd
  induction info.dlpiPhdr using List.reverseRecOn with
  | nil => rfl
  | append_singleton phdrs phdr ih =>
      have last (keep : ProgramHeader w → Bool) : (phdrs ++ [phdr]).reverse.find? keep =
          if keep phdr then some phdr else phdrs.reverse.find? keep := by
        rw [List.reverse_append, List.reverse_singleton, List.singleton_append, List.find?_cons]
        cases keep phdr <;> rfl
      rw [List.foldl_append, ih, last, last, last, List.foldl_append]
      simp only [List.foldl_cons, List.foldl_nil, decide_eq_true_eq]
      exact PhdrScan.next_eq ..

variable {info ip}

theorem contains_of_textOf {phdr : ProgramHeader w} (found : info.textOf ip = some phdr) :
    info.Loads phdr ip := by
  simpa using List.find?_some found

theorem textOf_of_contains (inside : info.Contains ip) : ∃ phdr, info.textOf ip = some phdr := by
  obtain ⟨phdr, member, loads⟩ := inside
  refine Option.isSome_iff_exists.mp (List.find?_isSome.mpr ⟨phdr, ?_, ?_⟩)
  · exact List.mem_reverse.mpr member
  · exact decide_eq_true loads

theorem textOf_of_not_contains (outside : ¬ info.Contains ip) : info.textOf ip = none := by
  refine List.find?_eq_none.mpr fun phdr member => ?_
  rw [decide_eq_true_eq]
  exact fun loads => outside ⟨phdr, List.mem_reverse.mp member, loads⟩

end DlPhdrInfo

/-! ## The iteration -/

section Iteration

variable {σ : Type} {callback : DlPhdrInfo w → σ → Result (Bool × σ)} {s : σ}

/-- The callback goes on, and leaves everything as it was. -/
def Skips (callback : DlPhdrInfo w → σ → Result (Bool × σ)) (info : DlPhdrInfo w) : Prop :=
  ∀ s, callback info s = .ok (false, s)

theorem dlIteratePhdr_skip {objects : List (DlPhdrInfo w)}
    (skip : ∀ info ∈ objects, Skips callback info) :
    dlIteratePhdr callback objects s = .ok (false, s) := by
  induction objects with
  | nil => rfl
  | cons info rest ih =>
      rw [dlIteratePhdr, skip info List.mem_cons_self, ok_bind]
      exact ih fun other member => skip other (.tail _ member)

/-- Among objects that are skipped, only one matters. -/
theorem dlIteratePhdr_one {before after : List (DlPhdrInfo w)} {info : DlPhdrInfo w}
    (skipBefore : ∀ other ∈ before, Skips callback other)
    (skipAfter : ∀ other ∈ after, Skips callback other) :
    dlIteratePhdr callback (before ++ info :: after) s = callback info s := by
  induction before with
  | nil =>
      rw [List.nil_append, dlIteratePhdr]
      cases called : callback info s with
      | error fault => rfl
      | ok answer =>
          obtain ⟨found, s'⟩ := answer
          cases found with
          | true => rfl
          | false => exact dlIteratePhdr_skip skipAfter
  | cons other rest ih =>
      rw [List.cons_append, dlIteratePhdr, skipBefore other List.mem_cons_self, ok_bind]
      exact ih fun third member => skipBefore third (.tail _ member)

end Iteration

/-! ## Searches -/

/-- The FDE that covers the address is found, if there is one. -/
structure Answers (fdes : List (FdeInfo w)) (ip : Word w) (needUnwindInfo : Bool) (pi : ProcInfo w)
    (result : Result (ProcInfo w)) : Prop where
  covered : ∀ f ∈ fdes, f.Covers ip → result = .ok (f.write needUnwindInfo pi)
  uncovered : (∀ f ∈ fdes, ¬ f.Covers ip) → result = .error (.err .noinfo)


/-- The addresses that FDEs cover are apart. -/
def CoverApart (fdes : List (FdeInfo w)) : Prop :=
  ∀ f ∈ fdes, ∀ g ∈ fdes, ∀ ip, f.Covers ip → g.Covers ip → f = g

theorem coverApart_singleton (f : FdeInfo w) : CoverApart [f] := by
  intro g isFirst h isSecond ip _ _
  rw [List.mem_singleton.mp isFirst, List.mem_singleton.mp isSecond]

/-! ## Sections -/

section Sections

variable {as : AddrSpace w} {gp start limit fdeCount ip : Word w} {entries : List (Entry w)}
  {pi : ProcInfo w}

/-- A search that the count does not end sees the whole section. -/
theorem linearSearch_answers (layout : Layout as gp start limit start entries)
    (counted : entries.length ≤ fdeCount.toNat) (apart : CoverApart (fdesOf entries))
    (sameGp : pi.gp = gp) (fresh : ¬ pi.Covers ip) (needUnwindInfo : Bool) :
    Answers (fdesOf entries) ip needUnwindInfo pi
      (linearSearch as ip start limit fdeCount pi needUnwindInfo true) := by
  have searched : linearSearch as ip start limit fdeCount pi needUnwindInfo true =
      foundOr ((firstCovering ip entries).map fun f => f.write needUnwindInfo pi) := by
    rw [linearSearch, linearSearchLoop_eq layout _ pi sameGp, List.take_of_length_le counted,
      searchEntries_eq entries pi fresh]
  constructor
  · intro f member covers
    obtain ⟨g, first⟩ := Option.isSome_iff_exists.mp
      (firstCovering_isSome_iff.mpr ⟨f, member, covers⟩)
    have among : g ∈ fdesOf entries := List.mem_of_find?_eq_some first
    have also : g.Covers ip := by simpa using List.find?_some first
    rw [searched, first, apart f member g among ip covers also]
    rfl
  · intro none
    have missed : firstCovering ip entries = .none :=
      Option.not_isSome_iff_eq_none.mp fun found => by
        obtain ⟨f, member, covers⟩ := firstCovering_isSome_iff.mp found
        exact none f member covers
    rw [searched, missed]
    rfl

end Sections

/-! ## Tables -/

/-- The difference of two addresses that are not far apart. -/
theorem toInt_narrow {b : Nat} (narrow : b ≤ w) (positive : 0 < b) {hdr ip : Word w}
    (above : -2 ^ (b - 1) ≤ (ip.toNat : Int) - hdr.toNat)
    (below : (ip.toNat : Int) - hdr.toNat < 2 ^ (b - 1)) :
    ((ip - hdr).setWidth b).toInt = (ip.toNat : Int) - hdr.toNat := by
  have wrapped : ((ip - hdr).toNat : Int) = ((ip.toNat : Int) - hdr.toNat) % (2 ^ w : Nat) := by
    have hdrBound := hdr.isLt
    have sum : ((2 ^ w - hdr.toNat + ip.toNat : Nat) : Int) =
        (2 ^ w : Nat) + ((ip.toNat : Int) - hdr.toNat) := by
      rw [Nat.cast_add, Nat.cast_sub hdrBound.le]
      ring
    rw [BitVec.toNat_sub, Int.natCast_emod, sum, Int.add_emod_left]
  have divides : ((2 ^ b : Nat) : Int) ∣ (2 ^ w : Nat) :=
    Int.natCast_dvd_natCast.mpr (pow_dvd_pow 2 narrow)
  rw [BitVec.toInt_setWidth, wrapped, ← Int.emod_bmod, Int.emod_emod_of_dvd _ divides,
    Int.emod_bmod, ← BitVec.toInt_ofInt]
  exact BitVec.toInt_ofInt_eq_self positive above below

/-- The entry of a table at `hdr` for an FDE, which reaches no farther than the offsets do. -/
structure EntryFor (as : AddrSpace w) (hdr gp : Word w) {b : Nat} (e : TableEntry b)
    (f : FdeInfo w) : Prop where
  start : e.start = (f.startIp.toNat : Int) - hdr.toNat
  reach : (f.endIp.toNat : Int) - hdr.toNat ≤ 2 ^ (b - 1)
  nonempty : f.startIp < f.endIp
  read : ∃ next, ∀ pi needUnwindInfo, pi.gp = gp →
    extractProcInfoFromFde as (e.fdeOffset.signExtend w + hdr) pi hdr needUnwindInfo true false =
      .ok (f.write needUnwindInfo pi, next)

/-- The table at `addr` of the header at `hdr`: its entries, each with its FDE, in the order of the
    addresses. -/
structure SearchTable (as : AddrSpace w) (width : EntryWidth) (hdr gp addr : Word w) where
  rows : List (TableEntry width.bits × FdeInfo w)
  stored : StoredAt as width addr (rows.map Prod.fst)
  narrow : width.bits ≤ w
  entryFor : ∀ row ∈ rows, EntryFor as hdr gp row.1 row.2
  inOrder : rows.Pairwise fun row later => row.2.endIp ≤ later.2.startIp

/-- The format of a table with such entries -/
def tableFormatOf : EntryWidth → InfoFormat
  | .sdata4 => .remoteTable
  | .sdata8 => .remoteTable64

theorem searchUnwindTable_local {as : AddrSpace w} {width : EntryWidth} {fdesc : DebugFrame w}
    {ip : Word w} {di : DynInfo w} {pi : ProcInfo w} {needUnwindInfo granted : Bool}
    (format : di.format = tableFormatOf width) (after : di.startIp ≤ ip) (before : ip < di.endIp) :
    searchUnwindTable as as true fdesc ip di pi needUnwindInfo granted = (do
      let found ← selectLocal width (loadEntry as width di.tableData)
        (di.tableLen * BitVec.ofNat w (w / 8)).toNat ip di.segbase di.endIp
      useSelection as ip di 0 pi needUnwindInfo granted found) := by
  have inside : (!(decide (di.startIp ≤ ip) && decide (ip < di.endIp))) = false := by
    simp [after, before]
  rw [searchUnwindTable, inside]
  obtain ⟨startIp, endIp, kind, segbase, tableData, tableLen⟩ := di
  cases format
  cases width <;> rfl

namespace SearchTable

variable {as : AddrSpace w} {width : EntryWidth} {hdr gp addr ip : Word w}
  (table : SearchTable as width hdr gp addr)

def entries : List (TableEntry width.bits) := table.rows.map Prod.fst

def fdes : List (FdeInfo w) := table.rows.map Prod.snd

theorem ascending : Ascending TableEntry.start table.entries := by
  rw [Ascending, entries, List.pairwise_map]
  refine table.inOrder.imp_of_mem fun {row later} isRow isLater before => ?_
  have first := table.entryFor row isRow
  have second := table.entryFor later isLater
  have nonempty := first.nonempty
  rw [first.start, second.start]
  rw [BitVec.lt_def] at nonempty
  rw [BitVec.le_def] at before
  omega

variable {table}

/-- The search compares with the difference of the addresses, where there is an FDE. -/
theorem toInt_relative {row : TableEntry width.bits × FdeInfo w} (isRow : row ∈ table.rows)
    (covers : row.2.Covers ip) :
    ((ip - hdr).setWidth width.bits).toInt = (ip.toNat : Int) - hdr.toNat := by
  obtain ⟨after, before⟩ := covers
  have entry := table.entryFor row isRow
  have start := entry.start
  have reach := entry.reach
  have least : -2 ^ (width.bits - 1) ≤ row.1.start := BitVec.le_toInt _
  rw [BitVec.le_def] at after
  rw [BitVec.lt_def] at before
  exact toInt_narrow table.narrow (by cases width <;> decide) (by omega) (by omega)

theorem entry_at {i : Nat} {row : TableEntry width.bits × FdeInfo w}
    (found : table.rows[i]? = some row) : table.entries[i]? = some row.1 := by
  rw [entries, List.getElem?_map, found]
  rfl

/-- The search ends at the entry of the FDE that covers the address. -/
theorem rank_of_covers {i : Nat} {row : TableEntry width.bits × FdeInfo w}
    (found : table.rows[i]? = some row) (covers : row.2.Covers ip) :
    rank TableEntry.start table.entries ((ip - hdr).setWidth width.bits).toInt = i + 1 := by
  have isRow := List.mem_of_getElem? found
  obtain ⟨after, before⟩ := covers
  rw [toInt_relative isRow ⟨after, before⟩]
  rw [BitVec.le_def] at after
  rw [BitVec.lt_def] at before
  have atMost : row.1.start ≤ (ip.toNat : Int) - hdr.toNat := by
    rw [(table.entryFor row isRow).start]
    omega
  have reached := (key_le_iff table.ascending (entry_at found) _).mp atMost
  refine Nat.le_antisymm (Nat.le_of_not_lt fun beyond => ?_) reached
  have bound := rank_le_length TableEntry.start table.entries ((ip.toNat : Int) - hdr.toNat)
  have length : table.entries.length = table.rows.length := List.length_map ..
  have inside : i + 1 < table.rows.length := by omega
  have foundNext := entry_at (List.getElem?_eq_getElem inside)
  have passed := (key_le_iff table.ascending foundNext _).mpr beyond
  have apart := List.pairwise_iff_getElem.mp table.inOrder i (i + 1) (by omega) inside (by omega)
  obtain ⟨_, isAt⟩ := List.getElem?_eq_some_iff.mp found
  rw [(table.entryFor _ (List.getElem_mem inside)).start] at passed
  rw [isAt, BitVec.le_def] at apart
  omega

/-- What becomes of a selected entry -/
theorem useSelection_row {row : TableEntry width.bits × FdeInfo w} (isRow : row ∈ table.rows)
    {di : DynInfo w} {pi : ProcInfo w} (place : di.segbase = hdr) (format : di.format ≠ .table)
    (sameGp : pi.gp = gp) (needUnwindInfo : Bool) (startIpOffset lastIp : Word w) :
    useSelection as ip di 0 pi needUnwindInfo true
        (some ⟨startIpOffset, row.1.fdeOffset.signExtend w, lastIp⟩) =
      if row.2.Covers ip then .ok (row.2.write needUnwindInfo pi) else .error (.err .noinfo) := by
  obtain ⟨next, read⟩ := (table.entryFor row isRow).read
  have outside : ip < row.2.startIp ∨ row.2.endIp ≤ ip ↔ ¬ row.2.Covers ip := by
    rw [FdeInfo.Covers, not_and_or, BitVec.not_le, BitVec.not_lt]
  simp only [useSelection, ne_eq, not_true, if_false, place, bne_self_eq_false,
    read pi needUnwindInfo sameGp, ok_bind, format, FdeInfo.write_startIp, FdeInfo.write_endIp,
    outside, ite_not, pure_eq_ok]

/-- What the table says of every selection. -/
theorem useSelection_selection (table : SearchTable as width hdr gp addr) (ip : Word w)
    {di : DynInfo w} {pi : ProcInfo w} (place : di.segbase = hdr) (format : di.format ≠ .table)
    (sameGp : pi.gp = gp) (needUnwindInfo : Bool) :
    Answers table.fdes ip needUnwindInfo pi
      (useSelection as ip di 0 pi needUnwindInfo true
        (selection table.entries hdr di.endIp
          (rank TableEntry.start table.entries ((ip - hdr).setWidth width.bits).toInt))) := by
  constructor
  · intro f member covers
    obtain ⟨row, isRow, rfl⟩ := List.mem_map.mp member
    obtain ⟨i, found⟩ := List.getElem?_of_mem isRow
    rw [rank_of_covers found covers, selection, if_neg (Nat.succ_ne_zero i), Nat.add_sub_cancel,
      entry_at found, Option.map_some, useSelection_row isRow place format sameGp, if_pos covers]
  · intro none
    generalize rank TableEntry.start table.entries _ = count
    rw [selection]
    split
    · rfl
    · cases found : table.rows[count - 1]? with
      | none =>
          have missing : table.entries[count - 1]? = .none := by
            rw [entries, List.getElem?_map, found]
            rfl
          rw [missing]
          rfl
      | some row =>
          have isRow := List.mem_of_getElem? found
          rw [entry_at found, Option.map_some, useSelection_row isRow place format sameGp,
            if_neg (none row.2 (List.mem_map.mpr ⟨row, isRow, rfl⟩))]

/-- `di` has the table. -/
structure Held (table : SearchTable as width hdr gp addr) (di : DynInfo w) : Prop where
  format : di.format = tableFormatOf width
  place : di.segbase = hdr
  data : di.tableData = addr
  length : (di.tableLen * BitVec.ofNat w (w / 8)).toNat / width.size = table.rows.length

theorem search_answers {di : DynInfo w} {pi : ProcInfo w} {fdesc : DebugFrame w}
    (held : table.Held di) (after : di.startIp ≤ ip) (before : ip < di.endIp) (sameGp : pi.gp = gp)
    (needUnwindInfo : Bool) :
    Answers table.fdes ip needUnwindInfo pi
      (searchUnwindTable as as true fdesc ip di pi needUnwindInfo true) := by
  have length : (di.tableLen * BitVec.ofNat w (w / 8)).toNat / width.size =
      table.entries.length := by rw [held.length, entries, List.length_map]
  have other : di.format ≠ .table := by
    rw [held.format]
    cases width <;> simp [tableFormatOf]
  have answers := useSelection_selection table ip held.place other sameGp needUnwindInfo
  rw [searchUnwindTable_local held.format after before, held.data, held.place,
    selectLocal_eq table.ascending length (loadEntry_eq table.stored)]
  exact answers

end SearchTable

/-! ## Objects -/

section Objects

variable (host : SelfHost w) (info : DlPhdrInfo w) (gp : Word w)

/-- What a header leads to. -/
inductive LeadsTo (hdr : HeaderFields w) : List (FdeInfo w) → Prop where
  | table {width : EntryWidth} (table : SearchTable host.localSpace width hdr.place gp hdr.addr) :
      tableFormat hdr.tableEnc = some (tableFormatOf width, BitVec.ofNat w width.size) →
      hdr.fdeCount.toNat = table.rows.length → table.rows.length * width.size < 2 ^ w →
      LeadsTo hdr table.fdes
  | sections {entries : List (Entry w)} : tableFormat (w := w) hdr.tableEnc = none →
      hdr.ehFramePtrEnc ≠ ehPeOmit →
      Layout host.localSpace gp hdr.ehFrameStart info.loadEnd hdr.ehFrameStart entries →
      entries.length ≤ (if hdr.fdeCountEnc = ehPeOmit then -1 else hdr.fdeCount : Word w).toNat →
      CoverApart (fdesOf entries) → LeadsTo hdr (fdesOf entries)

/-- The FDEs that an object has. -/
inductive Declares : List (FdeInfo w) → Prop where
  | nothing : ehFrameHdr host info (info.lastOf .gnuEhFrame) = none → Declares []
  | header {header : EhFrameHdr w} {hdr : HeaderFields w} {fdes : List (FdeInfo w)} :
      ehFrameHdr host info (info.lastOf .gnuEhFrame) = some header →
      findGp host info (info.lastOf .dynamic) 0 = .ok gp →
      (∀ pi, pi.gp = gp → header.read host pi = .ok (some hdr)) →
      LeadsTo host info gp hdr fdes → Declares fdes

end Objects

/-- An object that the loader has put together: its FDEs are for its segments. -/
structure LoadedObject (host : SelfHost w) where
  info : DlPhdrInfo w
  gp : Word w
  fdes : List (FdeInfo w)
  declares : Declares host info gp fdes
  inside : ∀ f ∈ fdes, ∀ ip, f.Covers ip → info.Contains ip

section Find

variable {host : SelfHost w} {ip : Word w} {pi : ProcInfo w} {needUnwindInfo : Bool}

theorem skips_of_not_contains {info : DlPhdrInfo w} (outside : ¬ info.Contains ip) :
    Skips (dwarfCallback host ip needUnwindInfo true) info := by
  intro s
  simp only [dwarfCallback, info.scan_eq, DlPhdrInfo.textOf_of_not_contains outside]

/-- The number of words of a table makes up for that of its entries. -/
theorem words_of_entries (wordSize : WordSize w) {width : EntryWidth} {fdeCount : Word w}
    (fits : fdeCount.toNat * width.size < 2 ^ w) :
    (fdeCount * BitVec.ofNat w width.size / BitVec.ofNat w (w / 8) * BitVec.ofNat w (w / 8)).toNat /
      width.size = fdeCount.toNat := by
  rcases wordSize with rfl | rfl <;> cases width <;>
    simp only [EntryWidth.size, BitVec.toNat_mul, BitVec.toNat_udiv, BitVec.toNat_ofNat,
      Nat.reducePow, Nat.reduceDiv, Nat.reduceMod] at * <;>
    omega

/-- What comes of a header. -/
theorem LeadsTo.answers (wordSize : WordSize w) {info : DlPhdrInfo w} {gp : Word w}
    {hdr : HeaderFields w} {fdes : List (FdeInfo w)} (leads : LeadsTo host info gp hdr fdes)
    {pText : ProgramHeader w} (loads : info.Loads pText ip) {s : CallbackData w}
    (sameGp : s.pi.gp = gp) (fresh : ¬ s.pi.Covers ip) (notYet : s.singleFde = false) :
    Answers fdes ip needUnwindInfo s.pi
      (searchFound host ip needUnwindInfo true
        (useHeader host info ip needUnwindInfo true s info.loadEnd pText hdr)) := by
  cases leads with
  | @table width table format count fits =>
      obtain ⟨-, after, before⟩ := loads
      simp only [useHeader, format, searchFound, notYet, if_true, Bool.false_eq_true, if_false]
      refine table.search_answers ⟨rfl, rfl, rfl, ?_⟩ after before sameGp needUnwindInfo
      rw [← count]
      exact words_of_entries wordSize (count ▸ fits)
  | sections format present layout counted apart =>
      have answers := linearSearch_answers layout counted apart sameGp fresh needUnwindInfo
      simp only [useHeader, format, if_neg present, searchFound]
      constructor
      · intro f member covers
        rw [answers.covered f member covers]
        rfl
      · intro none
        rw [answers.uncovered none]

/-- What comes of an object that the address is in. -/
theorem LoadedObject.answers (wordSize : WordSize w) (o : LoadedObject host)
    (inside : o.info.Contains ip) (fresh : ¬ pi.Covers ip) :
    Answers o.fdes ip needUnwindInfo { pi with gp := o.gp }
      (searchFound host ip needUnwindInfo true
        (dwarfCallback host ip needUnwindInfo true o.info { pi })) := by
  obtain ⟨pText, text⟩ := DlPhdrInfo.textOf_of_contains inside
  have loads := DlPhdrInfo.contains_of_textOf text
  simp only [dwarfCallback, o.info.scan_eq, text]
  have declares := o.declares
  generalize o.fdes = fdes at declares ⊢
  cases declares with
  | nothing none =>
      simp only [none]
      exact ⟨fun f member => absurd member List.not_mem_nil, fun _ => rfl⟩
  | @header header hdr _ some isGp read leads =>
      simp only [some, TableInfo.zero, isGp, ok_bind, read { pi with gp := o.gp } rfl]
      exact leads.answers wordSize loads
        (s := { pi := { pi with gp := o.gp }
                di := { info := { TableInfo.zero with gp := o.gp } } }) rfl fresh rfl

end Find

/-! Two objects: one with a table at address 48, and one with a section at address 4. -/
namespace TwoObjects

def memory : AddrSpace 64 :=
  spaceOfBytes 64 [0, 0, 0, 0,
    9, 0, 0, 0, 0, 0, 0, 0, 1, 0, 1, 0x78, 16,
    20, 0, 0, 0, 17, 0, 0, 0, 0, 0x10, 0x40, 0, 0, 0, 0, 0, 0x20, 0, 0, 0, 0, 0, 0, 0,
    0, 0, 0, 0, 0, 0, 0,
    1, 0xff, 0x03, 0x3b, 1, 0, 0, 0, 0xd0, 0x1f, 0x40, 0, 16, 0, 0, 0,
    20, 0, 0, 0, 64, 0, 0, 0, 0, 0x20, 0x40, 0, 0, 0, 0, 0, 0x30, 0, 0, 0, 0, 0, 0, 0]

def host : SelfHost 64 where
  arm := false
  localSpace := memory
  loadDebugFrame _ := none
  findBinaryForAddress _ := none
  uninitialised _ := {}
  budget := 0
  exeImagePath := "a"
  ehFrameSection file := if file = "a" then some 4 else none
  leftOver _ pi := pi

def segment (type : SegmentType) (vaddr memsz filesz : Word 64) : ProgramHeader 64 :=
  { type, flags := 0, offset := 0, vaddr, memsz, filesz }

def fde (startIp endIp fdeInstr : Word 64) : FdeInfo 64 where
  startIp := startIp
  endIp := endIp
  handler := 0
  lsda := 0
  dci :=
    { cieInstrStart := 17, cieInstrEnd := 17, fdeInstrStart := fdeInstr, fdeInstrEnd := fdeInstr
      codeAlign := 1, dataAlign := -8, retAddrColumn := 16, fdeEncoding := ehPeUdata8
      lsdaEncoding := ehPeOmit }

def program : FdeInfo 64 := fde 0x401000 0x401020 41

def library : FdeInfo 64 := fde 0x402000 0x402030 88

theorem read_program (pi : ProcInfo 64) (needUnwindInfo : Bool) :
    extractProcInfoFromFde memory 17 pi 4 needUnwindInfo true false =
      .ok (program.write needUnwindInfo pi, 41) := by
  cases needUnwindInfo <;> rfl

theorem read_library (pi : ProcInfo 64) (needUnwindInfo : Bool) :
    extractProcInfoFromFde memory 64 pi 48 needUnwindInfo true false =
      .ok (library.write needUnwindInfo pi, 88) := by
  cases needUnwindInfo <;> rfl

theorem program_layout : Layout memory 0 4 0x401000 4 [.cie, .fde program] :=
  .cie (by decide) rfl rfl
    (.fde (by decide) (fun pi needUnwindInfo _ => read_program pi needUnwindInfo)
      (.terminator (by decide) rfl))

/-- The name of the program is empty. -/
def programInfo : DlPhdrInfo 64 :=
  ⟨0, "", [segment .load 0 45 45, segment .load 0x401000 0x1000 0]⟩

def programHeader : HeaderFields 64 where
  place := 0
  ehFramePtrEnc := ehPeUdata8
  fdeCountEnc := ehPeOmit
  tableEnc := ehPeOmit
  ehFrameStart := 4
  fdeCount := 0
  addr := 0

theorem program_leads :
    LeadsTo host programInfo 0 programHeader (fdesOf [.cie, .fde program]) :=
  .sections rfl (by decide) program_layout (by decide) (coverApart_singleton program)

theorem read_synthetic (pi : ProcInfo 64) (_ : pi.gp = 0) :
    (EhFrameHdr.synthetic 4).read host pi = .ok (some programHeader) := rfl

def programObject : LoadedObject host where
  info := programInfo
  gp := 0
  fdes := [program]
  declares := .header rfl rfl read_synthetic program_leads
  inside f member ip covers := by
    obtain rfl := List.mem_singleton.mp member
    obtain ⟨after, before⟩ : 0x401000 ≤ ip ∧ ip < 0x401020 := covers
    have inside : ip < 0x402000 := by bv_omega
    exact ⟨segment .load 0x401000 0x1000 0, .tail _ (.head _), rfl, after, inside⟩

def libraryInfo : DlPhdrInfo 64 :=
  ⟨0, "b", [segment .load 0x402000 0x1000 0, segment .gnuEhFrame 48 16 16]⟩

def libraryHeader : HeaderFields 64 where
  place := 48
  ehFramePtrEnc := ehPeOmit
  fdeCountEnc := ehPeUdata4
  tableEnc := 0x3b
  ehFrameStart := 0
  fdeCount := 1
  addr := 56

def libraryTable :
    SearchTable host.localSpace .sdata4 libraryHeader.place 0 libraryHeader.addr where
  rows := [(⟨0x401fd0, 16⟩, library)]
  stored := by
    intro i e found
    match i, found with
    | 0, found =>
        obtain rfl := Option.some.inj found
        decide
  narrow := by decide
  entryFor row member := by
    obtain rfl := List.mem_singleton.mp member
    exact ⟨by decide, by decide, by decide, 88, fun pi needUnwindInfo _ =>
      read_library pi needUnwindInfo⟩
  inOrder := List.pairwise_singleton ..

theorem library_leads : LeadsTo host libraryInfo 0 libraryHeader libraryTable.fdes :=
  .table libraryTable rfl rfl (by decide)

theorem read_mapped (pi : ProcInfo 64) (_ : pi.gp = 0) :
    (EhFrameHdr.mapped 48).read host pi = .ok (some libraryHeader) := rfl

def libraryObject : LoadedObject host where
  info := libraryInfo
  gp := 0
  fdes := [library]
  declares := .header rfl rfl read_mapped library_leads
  inside f member ip covers := by
    obtain rfl := List.mem_singleton.mp member
    obtain ⟨after, before⟩ : 0x402000 ≤ ip ∧ ip < 0x402030 := covers
    have inside : ip < 0x403000 := by bv_omega
    exact ⟨segment .load 0x402000 0x1000 0, .head _, rfl, after, inside⟩

/-- No segment of the one is a segment of the other. -/
theorem objects_apart : [libraryObject, programObject].Pairwise fun o other =>
    ∀ ip, o.info.Contains ip → ¬ other.info.Contains ip := by
  refine List.pairwise_pair.mpr fun ip inLibrary inProgram => ?_
  simp [DlPhdrInfo.Contains, DlPhdrInfo.Loads, libraryObject, programObject, libraryInfo, programInfo, segment,
    BitVec.le_def, BitVec.lt_def] at inLibrary inProgram
  omega

end TwoObjects

end Libunwind.Lookup
