import Libunwind.Dwarf.UnwindTable

/-! # Local and remote lookups

Both searches of a sorted table end at the last entry whose start is at most the
relative address that they compare with. They differ in that address only: the
local search of a table of 32-bit offsets narrows it.
-/

namespace Libunwind.Dwarf

open BinarySearch

variable {w : Nat}

/-- The entries are in memory at `table`. -/
def StoredAt (as : AddrSpace w) (width : EntryWidth) (table : Word w)
    (entries : List (TableEntry width.bits)) : Prop :=
  ∀ i e, entries[i]? = some e →
    readOffset as width (table + BitVec.ofNat w (i * width.size)) =
        .ok (e.startIpOffset,
          table + BitVec.ofNat w (i * width.size) + BitVec.ofNat w width.offsetSize) ∧
      readOffset as width
          (table + BitVec.ofNat w (i * width.size) + BitVec.ofNat w width.offsetSize) =
        .ok (e.fdeOffset, table + BitVec.ofNat w ((i + 1) * width.size))

/-- The selection of the last of the first `count` entries. -/
def selection {b : Nat} (entries : List (TableEntry b)) (ipBase endIp : Word w) (count : Nat) :
    Option (Selection w) :=
  if count = 0 then none
  else
    entries[count - 1]?.map fun e =>
      { startIpOffset := e.startIpOffset.signExtend w
        fdeOffset := e.fdeOffset.signExtend w
        lastIp := match entries[count]? with
          | some next => next.startIpOffset.signExtend w + ipBase
          | none => endIp }

section Lookup

variable {b : Nat} {entries : List (TableEntry b)} {entryAt : Nat → Result (TableEntry b)}

/-- `lookup` finds the last entry at or below the relative address. -/
theorem lookupEntry_eq (ascending : Ascending TableEntry.start entries)
    (table : ∀ i e, entries[i]? = some e → entryAt i = .ok e) (relIp : BitVec b) :
    lookupEntry entryAt entries.length relIp =
      .ok (if rank TableEntry.start entries relIp.toInt = 0 then none
        else some (rank TableEntry.start entries relIp.toInt - 1)) := by
  have tests (i : Nat) (e : TableEntry b) (found : entries[i]? = some e) :
      (do let e ← entryAt i; pure (decide (relIp.toInt < e.start)) : Result Bool) =
        .ok (decide (relIp.toInt < e.start)) := by
    rw [table i e found]
    rfl
  rw [lookupEntry, bisect_rank ascending tests]
  rfl

end Lookup

theorem EntryWidth.lookup_eq (width : EntryWidth)
    (entryAt : Nat → Result (TableEntry width.bits)) (tableSize : Nat)
    (relIp : BitVec width.bits) :
    width.lookup entryAt tableSize relIp = lookupEntry entryAt (tableSize / width.size) relIp := by
  cases width <;> rfl

/-- What the local search selects. -/
theorem selectLocal_eq {width : EntryWidth} {entries : List (TableEntry width.bits)}
    {entryAt : Nat → Result (TableEntry width.bits)} {tableSize : Nat} {ip ipBase endIp : Word w}
    (ascending : Ascending TableEntry.start entries)
    (length : tableSize / width.size = entries.length)
    (table : ∀ i e, entries[i]? = some e → entryAt i = .ok e) :
    selectLocal width entryAt tableSize ip ipBase endIp =
      .ok (selection entries ipBase endIp
        (rank TableEntry.start entries ((ip - ipBase).setWidth width.bits).toInt)) := by
  have bound := rank_le_length TableEntry.start entries
    ((ip - ipBase).setWidth width.bits).toInt
  rw [selectLocal, EntryWidth.lookup_eq, length, lookupEntry_eq ascending table, selection, ok_bind]
  generalize rank TableEntry.start entries ((ip - ipBase).setWidth width.bits).toInt = count at bound
  by_cases empty : count = 0
  · simp only [empty, if_true, pure_eq_ok]
  · obtain ⟨e, found⟩ : ∃ e, entries[count - 1]? = some e :=
      ⟨_, List.getElem?_eq_getElem (by omega)⟩
    simp only [if_neg empty, table _ e found, found, ok_bind,
      Nat.sub_add_cancel (Nat.pos_of_ne_zero empty)]
    split
    next more =>
      have next := List.getElem?_eq_getElem more
      simp only [table _ _ next, next, ok_bind, pure_eq_ok, Option.map_some]
    next last =>
      simp only [List.getElem?_eq_none (Nat.le_of_not_lt last), ok_bind, pure_eq_ok,
        Option.map_some]

theorem loadEntry_eq {as : AddrSpace w} {width : EntryWidth} {table : Word w}
    {entries : List (TableEntry width.bits)} (stored : StoredAt as width table entries) (i e)
    (found : entries[i]? = some e) : loadEntry as width table i = .ok e := by
  obtain ⟨start, fde⟩ := stored i e found
  simp only [loadEntry, start, ok_bind, fde, pure_eq_ok]

/-! ## 64-bit words -/

section Remote

variable {as : AddrSpace 64} {width : EntryWidth} {table : Word 64}
  {entries : List (TableEntry width.bits)}

theorem EntryWidth.toInt_signExtend (width : EntryWidth) (x : BitVec width.bits) :
    (x.signExtend 64).toInt = x.toInt :=
  BitVec.toInt_signExtend_of_le (by cases width <;> decide)

theorem remoteReadEntry_start (stored : StoredAt as width table entries) {i e}
    (found : entries[i]? = some e) :
    remoteReadEntry as width (table + BitVec.ofNat 64 (i * width.size)) =
      .ok (e.startIpOffset.signExtend 64,
        table + BitVec.ofNat 64 (i * width.size) + BitVec.ofNat 64 width.offsetSize) := by
  simp only [remoteReadEntry, (stored i e found).1, ok_bind, pure_eq_ok]

theorem remoteReadEntry_fde (stored : StoredAt as width table entries) {i e}
    (found : entries[i]? = some e) :
    remoteReadEntry as width
        (table + BitVec.ofNat 64 (i * width.size) + BitVec.ofNat 64 width.offsetSize) =
      .ok (e.fdeOffset.signExtend 64, table + BitVec.ofNat 64 ((i + 1) * width.size)) := by
  simp only [remoteReadEntry, (stored i e found).2, ok_bind, pure_eq_ok]

/-- What the remote search selects. -/
theorem selectRemote_eq {tableSize : Nat} {ip ipBase endIp : Word 64}
    (ascending : Ascending TableEntry.start entries)
    (length : tableSize / width.size = entries.length)
    (stored : StoredAt as width table entries) :
    selectRemote as width table tableSize ip ipBase endIp =
      .ok (selection entries ipBase endIp (rank TableEntry.start entries (ip - ipBase).toInt)) := by
  have bound := rank_le_length TableEntry.start entries (ip - ipBase).toInt
  have tests (i : Nat) (e : TableEntry width.bits) (found : entries[i]? = some e) :
      (do
        let (start, _) ← remoteReadEntry as width (table + BitVec.ofNat 64 (i * width.size))
        pure (decide ((ip - ipBase).toInt < start.toInt)) : Result Bool) =
        .ok (decide ((ip - ipBase).toInt < e.start)) := by
    rw [remoteReadEntry_start stored found]
    simp only [ok_bind, pure_eq_ok, EntryWidth.toInt_signExtend, TableEntry.start]
    rfl
  simp only [selectRemote, remoteLookup, length, BitVec.signExtend_eq, bisect_rank ascending tests,
    ok_bind, selection]
  generalize rank TableEntry.start entries (ip - ipBase).toInt = count at bound
  by_cases empty : count = 0
  · simp only [empty, if_true, pure_eq_ok, ok_bind, Option.map_none]
  · obtain ⟨e, found⟩ : ∃ e, entries[count - 1]? = some e :=
      ⟨_, List.getElem?_eq_getElem (by omega)⟩
    simp only [if_neg empty, remoteReadEntry_start stored found, remoteReadEntry_fde stored found,
      found, ok_bind, Nat.sub_add_cancel (Nat.pos_of_ne_zero empty)]
    split
    next more =>
      have next := List.getElem?_eq_getElem more
      simp only [remoteReadEntry_start stored next, next, ok_bind, pure_eq_ok, Option.map_some,
        BitVec.setWidth_eq]
    next last =>
      simp only [List.getElem?_eq_none (Nat.le_of_not_lt last), ok_bind, pure_eq_ok,
        Option.map_some, BitVec.setWidth_eq, BitVec.sub_add_cancel]

end Remote

/-- A higher rank selects another entry. -/
theorem selection_ne_of_lt {width : EntryWidth} {entries : List (TableEntry width.bits)}
    {ipBase endIp : Word 64} (ascending : Ascending TableEntry.start entries) {x y : Int}
    (lower : rank TableEntry.start entries x < rank TableEntry.start entries y) :
    selection entries ipBase endIp (rank TableEntry.start entries x) ≠
      selection entries ipBase endIp (rank TableEntry.start entries y) := by
  intro same
  have bound := rank_le_length TableEntry.start entries y
  obtain ⟨last, foundLast⟩ : ∃ e, entries[rank TableEntry.start entries y - 1]? = some e :=
    ⟨_, List.getElem?_eq_getElem (by omega)⟩
  by_cases empty : rank TableEntry.start entries x = 0
  · rw [selection, if_pos empty, selection, if_neg (by omega), foundLast] at same
    exact nomatch same
  · obtain ⟨e, found⟩ : ∃ e, entries[rank TableEntry.start entries x - 1]? = some e :=
      ⟨_, List.getElem?_eq_getElem (by omega)⟩
    rw [selection, if_neg empty, selection, if_neg (by omega), found, foundLast] at same
    have starts : e.startIpOffset.signExtend 64 = last.startIpOffset.signExtend 64 :=
      congrArg Selection.startIpOffset (Option.some.inj same)
    have sameStart : e.start = last.start := by
      have := congrArg BitVec.toInt starts
      rwa [EntryWidth.toInt_signExtend, EntryWidth.toInt_signExtend] at this
    -- the later entry's start is at most `x` as well
    have small : e.start ≤ x := (key_le_iff ascending found x).mpr (by omega)
    have before := (key_le_iff ascending foundLast x).mp (sameStart ▸ small)
    omega

theorem selection_injective {width : EntryWidth} {entries : List (TableEntry width.bits)}
    {ipBase endIp : Word 64} (ascending : Ascending TableEntry.start entries) {x y : Int}
    (same : selection entries ipBase endIp (rank TableEntry.start entries x) =
      selection entries ipBase endIp (rank TableEntry.start entries y)) :
    rank TableEntry.start entries x = rank TableEntry.start entries y := by
  rcases Nat.lt_trichotomy (rank TableEntry.start entries x) (rank TableEntry.start entries y)
    with lower | equal | higher
  · exact absurd same (selection_ne_of_lt ascending lower)
  · exact equal
  · exact absurd same.symm (selection_ne_of_lt ascending higher)

/-- The two searches select the same entry exactly when no start address lies
    between the relative address and its narrowing to the table's width. -/
theorem selectLocal_eq_selectRemote_iff (width : EntryWidth) {as localSpace : AddrSpace 64}
    {table ip ipBase endIp : Word 64} {tableSize : Nat} {entries : List (TableEntry width.bits)}
    (ascending : Ascending TableEntry.start entries)
    (length : tableSize / width.size = entries.length)
    (storedLocal : StoredAt localSpace width table entries)
    (stored : StoredAt as width table entries) :
    selectLocal width (loadEntry localSpace width table) tableSize ip ipBase endIp =
        selectRemote as width table tableSize ip ipBase endIp ↔
      ∀ e ∈ entries, e.start ≤ ((ip - ipBase).setWidth width.bits).toInt ↔
        e.start ≤ (ip - ipBase).toInt := by
  rw [selectLocal_eq ascending length (loadEntry_eq storedLocal),
    selectRemote_eq ascending length stored, ← rank_eq_iff ascending]
  exact ⟨fun same => selection_injective ascending (Except.ok.inj same),
    fun same => by rw [same]⟩

/-- A table with one entry, at address 0, for the FDE at `0x40` of the procedure
    at its base. -/
def oneEntryTable : AddrSpace 64 := spaceOfBytes 64 [0, 0, 0, 0, 0x40, 0, 0, 0]

/-- Two gigabytes behind the base, only the remote search finds the entry. -/
theorem oneEntryTable_disagrees :
    selectLocal .sdata4 (loadEntry oneEntryTable .sdata4 0) 8 (0x480000000 : Word 64) 0x400000000
        0x500000000 = .ok none ∧
      selectRemote oneEntryTable .sdata4 0 8 (0x480000000 : Word 64) 0x400000000 0x500000000 =
        .ok (some ⟨0, 0x40, 0x500000000⟩) := by
  decide

theorem oneEntryTable_agrees :
    selectLocal .sdata4 (loadEntry oneEntryTable .sdata4 0) 8 (0x47fffffff : Word 64) 0x400000000
        0x500000000 =
      selectRemote oneEntryTable .sdata4 0 8 (0x47fffffff : Word 64) 0x400000000 0x500000000 := by
  have stored : StoredAt oneEntryTable .sdata4 0 [⟨0, 0x40⟩] := by
    intro i e found
    match i, found with
    | 0, found =>
        obtain rfl := Option.some.inj found
        decide
  exact (selectLocal_eq_selectRemote_iff .sdata4 (by decide) rfl stored stored).mpr (by decide)

end Libunwind.Dwarf
