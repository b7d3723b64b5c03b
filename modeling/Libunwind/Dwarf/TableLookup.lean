import Libunwind.Library.WhileLoop
import Libunwind.Dwarf.LocalRemoteLookup

/-! # The binary searches of local tables

The loop of `lookup` and `lookup64`, on numbers of type `size_t`, with a step budget and with entries
that can be read in the table only. It finds the last entry that does not start above the address,
also where several entries start at the same one.
-/

namespace Libunwind.Dwarf

open BinarySearch

section Source

variable {b : ℕ} (entryAt : ℕ → Result (TableEntry b)) (relIp : BitVec b)

/-- The condition of the loop, on `lo` and `hi`. -/
def lookupGuard (s : Word 64 × Word 64) : Bool := decide (s.1 < s.2)

/-- The body of the loop. -/
def lookupBody (s : Word 64 × Word 64) : Result (Word 64 × Word 64) := do
  let (lo, hi) := s
  let mid := (lo + hi) / 2
  let e ← entryAt mid.toNat
  if relIp.toInt < e.start then pure (lo, mid) else pure (mid + 1, hi)

/-- The loop, from `lo` and `hi` on. -/
def lookupLoop : ℕ → Word 64 × Word 64 → Result (Word 64 × Word 64) :=
  WhileLoop.run .timeout lookupGuard (lookupBody entryAt relIp)

/-- `lookup` and `lookup64`, with a step budget. -/
def lookupWithin (budget : ℕ) (tableLen : Word 64) : Result (Option ℕ) := do
  let (_, hi) ← lookupLoop entryAt relIp budget (0, tableLen)
  if hi ≤ 0 then pure none else pure (some (hi - 1).toNat)

end Source

variable {b : ℕ} {entries : List (TableEntry b)} {relIp : BitVec b}

/-- An entry of the table; there is none behind its end. -/
def tableEntry (entries : List (TableEntry b)) (i : ℕ) : Result (TableEntry b) :=
  match entries[i]? with
  | some e => pure e
  | none => .error .undefined

/-- The last entry whose start is at most the address, or no entry if there is none such. -/
def IsLastAtMost (entries : List (TableEntry b)) (relIp : BitVec b) : Option ℕ → Prop
  | none => ∀ e ∈ entries, relIp.toInt < e.start
  | some i => (∃ e, entries[i]? = some e ∧ e.start ≤ relIp.toInt) ∧
      ∀ j e, i < j → entries[j]? = some e → relIp.toInt < e.start

/-- The entry at which a search ends that has gone past so many entries. -/
def lastOf (count : ℕ) : Option ℕ := if count = 0 then none else some (count - 1)

theorem isLastAtMost_rank (ascending : Ascending TableEntry.start entries) (relIp : BitVec b) :
    IsLastAtMost entries relIp (lastOf (rank TableEntry.start entries relIp.toInt)) := by
  have bound := rank_le_length TableEntry.start entries relIp.toInt
  rw [lastOf]
  by_cases none : rank TableEntry.start entries relIp.toInt = 0
  · rw [if_pos none]
    intro e member
    obtain ⟨i, found⟩ := List.getElem?_of_mem member
    rw [← not_le, key_le_iff ascending found, none]
    exact Nat.not_lt_zero i
  · rw [if_neg none]
    have found := List.getElem?_eq_getElem
      (show rank TableEntry.start entries relIp.toInt - 1 < entries.length by omega)
    refine ⟨⟨_, found, (key_le_iff ascending found _).mpr (by omega)⟩, fun j e behind at_j => ?_⟩
    rw [← not_le, key_le_iff ascending at_j]
    omega

/-- The middle of two numbers whose sum does not wrap. -/
theorem toNat_middle {lo hi : Word 64} (small : lo.toNat + hi.toNat < 2 ^ 64) :
    ((lo + hi) / 2).toNat = (lo.toNat + hi.toNat) / 2 := by
  rw [BitVec.toNat_udiv, BitVec.toNat_add, Nat.mod_eq_of_lt small]
  rfl

/-- A round keeps the rank between `lo` and `hi`, and moves these together. -/
theorem lookupBody_round (ascending : Ascending TableEntry.start entries)
    (small : entries.length < 2 ^ 63) {lo hi : Word 64} (inside : lo < hi)
    (above : lo.toNat ≤ rank TableEntry.start entries relIp.toInt)
    (below : rank TableEntry.start entries relIp.toInt ≤ hi.toNat)
    (within : hi.toNat ≤ entries.length) :
    ∃ lo' hi', lookupBody (tableEntry entries) relIp (lo, hi) = .ok (lo', hi') ∧
      lo'.toNat ≤ rank TableEntry.start entries relIp.toInt ∧
      rank TableEntry.start entries relIp.toInt ≤ hi'.toNat ∧ hi'.toNat ≤ entries.length ∧
      hi'.toNat - lo'.toNat < hi.toNat - lo.toNat := by
  rw [BitVec.lt_def] at inside
  have middle : ((lo + hi) / 2).toNat = (lo.toNat + hi.toNat) / 2 := toNat_middle (by omega)
  have found := List.getElem?_eq_getElem
    (show ((lo + hi) / 2).toNat < entries.length by omega)
  have order := key_le_iff ascending found relIp.toInt
  simp only [lookupBody, tableEntry, found, pure_eq_ok, ok_bind]
  by_cases before : relIp.toInt < (entries[((lo + hi) / 2).toNat]).start
  · rw [if_pos before]
    have : ¬((lo + hi) / 2).toNat < rank TableEntry.start entries relIp.toInt :=
      fun counted => absurd (order.mpr counted) (not_le.mpr before)
    exact ⟨_, _, rfl, above, by omega, by omega, by omega⟩
  · rw [if_neg before]
    have := order.mp (not_lt.mp before)
    have next : ((lo + hi) / 2 + 1).toNat = ((lo + hi) / 2).toNat + 1 := by
      rw [BitVec.toNat_add]
      change (((lo + hi) / 2).toNat + 1) % 2 ^ 64 = _
      omega
    exact ⟨_, _, rfl, by omega, below, within, by omega⟩

theorem lookupLoop_exit {lo hi : Word 64} (budget : ℕ) (done : ¬lo < hi) :
    lookupLoop (tableEntry entries) relIp budget (lo, hi) = .ok (lo, hi) := by
  have exit : lookupGuard (lo, hi) = false := decide_eq_false done
  exact WhileLoop.run_exit exit budget

/-- The loop ends at the rank, and with as many rounds as there are entries. -/
theorem lookupLoop_eq (ascending : Ascending TableEntry.start entries)
    (small : entries.length < 2 ^ 63) {budget : ℕ} {lo hi : Word 64}
    (enough : hi.toNat - lo.toNat ≤ budget)
    (above : lo.toNat ≤ rank TableEntry.start entries relIp.toInt)
    (below : rank TableEntry.start entries relIp.toInt ≤ hi.toNat)
    (within : hi.toNat ≤ entries.length) :
    ∃ lo' hi', lookupLoop (tableEntry entries) relIp budget (lo, hi) = .ok (lo', hi') ∧
      hi'.toNat = rank TableEntry.start entries relIp.toInt := by
  induction budget generalizing lo hi with
  | zero =>
      have done : ¬lo < hi := by
        rw [BitVec.lt_def]
        omega
      refine ⟨lo, hi, lookupLoop_exit 0 done, ?_⟩
      rw [BitVec.lt_def] at done
      omega
  | succ budget ih =>
      by_cases inside : lo < hi
      · obtain ⟨lo', hi', round, above', below', within', closer⟩ :=
          lookupBody_round ascending small inside above below within
        have enter : lookupGuard (lo, hi) = true := decide_eq_true inside
        rw [lookupLoop, WhileLoop.run_next enter round]
        exact ih (by omega) above' below' within'
      · refine ⟨lo, hi, lookupLoop_exit _ inside, ?_⟩
        rw [BitVec.lt_def] at inside
        omega

theorem lookupWithin_eq (ascending : Ascending TableEntry.start entries) {tableLen : Word 64}
    (length : tableLen.toNat = entries.length) (small : entries.length < 2 ^ 63) {budget : ℕ}
    (enough : entries.length ≤ budget) :
    lookupWithin (tableEntry entries) relIp budget tableLen =
      .ok (lastOf (rank TableEntry.start entries relIp.toInt)) := by
  have bound := rank_le_length TableEntry.start entries relIp.toInt
  have rounds : tableLen.toNat - (0 : Word 64).toNat ≤ budget :=
    Nat.le_trans (Nat.sub_le _ _) (length ▸ enough)
  obtain ⟨lo', hi', ended, isRank⟩ :=
    lookupLoop_eq ascending small rounds (Nat.zero_le _) (length ▸ bound) length.le
  rw [lookupWithin, ended, ok_bind, lastOf]
  have zero : hi' ≤ 0 ↔ rank TableEntry.start entries relIp.toInt = 0 := by
    rw [BitVec.le_def, isRank]
    exact Nat.le_zero
  simp only [zero]
  by_cases none : rank TableEntry.start entries relIp.toInt = 0
  · rw [if_pos none, if_pos none]
    rfl
  · rw [if_neg none, if_neg none]
    have before : (hi' - 1).toNat = hi'.toNat - 1 := by
      refine BitVec.toNat_sub_of_le (BitVec.le_def.mpr ?_)
      rw [isRank]
      exact Nat.pos_of_ne_zero none
    rw [before, isRank]
    rfl

/-- Both searches of a sorted table come to an end, in the table, at the last entry that starts at or
    below the address. -/
theorem lookup_isLastAtMost (width : EntryWidth) (entries : List (TableEntry width.bits))
    (tableSize : Word 64) (relIp : BitVec width.bits)
    (length : tableSize.toNat / width.size = entries.length)
    (ascending : Ascending TableEntry.start entries) :
    ∃ found, IsLastAtMost entries relIp found ∧
      width.lookup (tableEntry entries) tableSize.toNat relIp = .ok found ∧
      ∀ budget, entries.length ≤ budget →
        lookupWithin (tableEntry entries) relIp budget (tableSize / BitVec.ofNat 64 width.size) =
          .ok found := by
  have size : width.size = 8 ∨ width.size = 16 := by cases width <;> simp
  have below := tableSize.isLt
  refine ⟨_, isLastAtMost_rank ascending relIp, ?_, fun budget enough => ?_⟩
  · rw [EntryWidth.lookup_eq, length, lookupEntry_eq ascending]
    · rfl
    · intro i e found
      rw [tableEntry, found]
      rfl
  · have small : entries.length < 2 ^ 63 := by
      rcases size with size | size <;> rw [size] at length <;> omega
    refine lookupWithin_eq ascending ?_ small enough
    rw [BitVec.toNat_udiv, BitVec.toNat_ofNat, ← length]
    rcases size with size | size <;> rw [size]

/-- A table with two entries of one start. -/
theorem lookup_isLastAtMost_equal :
    ∃ found, IsLastAtMost [⟨-4, 1⟩, ⟨8, 2⟩, ⟨8, 3⟩, ⟨12, 4⟩] (9 : BitVec 32) found ∧
      EntryWidth.sdata4.lookup (tableEntry [⟨-4, 1⟩, ⟨8, 2⟩, ⟨8, 3⟩, ⟨12, 4⟩]) 32 9 = .ok found ∧
      ∀ budget, 4 ≤ budget →
        lookupWithin (tableEntry [⟨-4, 1⟩, ⟨8, 2⟩, ⟨8, 3⟩, ⟨12, 4⟩]) (9 : BitVec 32) budget 4 =
          .ok found :=
  lookup_isLastAtMost .sdata4 [⟨-4, 1⟩, ⟨8, 2⟩, ⟨8, 3⟩, ⟨12, 4⟩] 32 9 rfl (by decide)

end Libunwind.Dwarf
