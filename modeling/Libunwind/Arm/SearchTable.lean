import Libunwind.Arm.Extract
import Libunwind.Dwarf.Info

/-! # Searching the exception index table

`arm_search_unwind_table` bisects `.ARM.exidx` for the last entry at or below an address. The
end that it reports is the last address of the procedure, where an `unw_proc_info_t` has the
first one behind it.
-/

namespace Libunwind.Arm

open Dwarf (InfoFormat)

/-- What the search fills in of an `unw_proc_info_t`. -/
structure ProcInfo where
  startIp : Word 32
  endIp : Word 32
  lsda : Word 32
  handler : Word 32
  unwindInfoSize : Int
  unwindInfo : Word 32
  format : InfoFormat
  deriving DecidableEq, Repr

/-- What the search reads of an `unw_dyn_info_t`. -/
structure DynInfo where
  endIp : Word 32
  tableData : Word 32
  tableLen : Word 32

section Search

variable (as : AddrSpace 32)

/-- `first` and `last`, while they are more than an entry apart. -/
def searchGuard (s : Word 32 × Word 32) : Bool := s.1 < s.2 - 8

def searchRound (ip : Word 32) (s : Word 32 × Word 32) : Result (Word 32 × Word 32) := do
  let entry := s.1 + (((s.2 - s.1) / 8 + 1) >>> 1) * 8
  let val ← prel31ToAddr as entry
  if ip < val then .ok (s.1, entry) else .ok (entry, s.2)

/-- The personality routine and the LSDA, where a generic entry has them. No failure stops the
    search any more. -/
def withHandler (entry : Word 32) (pi : ProcInfo) : ProcInfo :=
  match tableWord as (entry + 4) with
  | .error _ => pi
  | .ok data =>
      if data = exidxCantUnwind ∨ isCompact data then pi
      else
        match prel31ToAddr as (entry + 4) with
        | .error _ => pi
        | .ok extblData =>
            match tableWord as extblData with
            | .error _ => pi
            | .ok extblWord0 =>
                if isCompact extblWord0 then pi
                else
                  match prel31ToAddr as extblData with
                  | .error _ => { pi with lsda := extblData }
                  | .ok pers => { pi with handler := pers, lsda := extblData }

def withUnwindInfo (entry : Word 32) (needUnwindInfo : Bool) (pi : ProcInfo) : ProcInfo :=
  if needUnwindInfo then
    { pi with unwindInfoSize := 8, unwindInfo := entry, format := .armExidx }
  else pi

/-- The entry that the search decides for, and the bounds that it reports. -/
def searchEntry (budget : Nat) (ip : Word 32) (di : DynInfo) :
    Result (Word 32 × Word 32 × Word 32) := do
  let first := di.tableData
  let last := di.tableData + di.tableLen - 8
  match prel31ToAddr as first with
  | .error _ => .error (.err .noinfo)
  | .ok val =>
      if ip < val then .error (.err .noinfo)
      else do
        let val ← prel31ToAddr as last
        if val ≤ ip then
          let startIp ← prel31ToAddr as last
          .ok (last, startIp, di.endIp - 1)
        else
          let s ← WhileLoop.run .timeout searchGuard (searchRound as ip) budget (first, last)
          let startIp ← prel31ToAddr as s.1
          let endIp ← prel31ToAddr as (s.1 + 8)
          .ok (s.1, startIp, endIp - 1)

/-- `arm_search_unwind_table`, its loop within `budget` rounds. -/
def armSearchUnwindTable (budget : Nat) (ip : Word 32) (di : DynInfo) (pi : ProcInfo)
    (needUnwindInfo : Bool) : Result ProcInfo := do
  let (entry, startIp, endIp) ← searchEntry as budget ip di
  .ok (withHandler as entry
    (withUnwindInfo entry needUnwindInfo { pi with startIp := startIp, endIp := endIp }))

@[simp] theorem withHandler_startIp (entry : Word 32) (pi : ProcInfo) :
    (withHandler as entry pi).startIp = pi.startIp := by
  unfold withHandler
  repeat' split
  all_goals rfl

@[simp] theorem withHandler_endIp (entry : Word 32) (pi : ProcInfo) :
    (withHandler as entry pi).endIp = pi.endIp := by
  unfold withHandler
  repeat' split
  all_goals rfl

@[simp] theorem withHandler_unwindInfo (entry : Word 32) (pi : ProcInfo) :
    (withHandler as entry pi).unwindInfo = pi.unwindInfo := by
  unfold withHandler
  repeat' split
  all_goals rfl

@[simp] theorem withUnwindInfo_startIp (entry : Word 32) (need : Bool) (pi : ProcInfo) :
    (withUnwindInfo entry need pi).startIp = pi.startIp := by
  cases need <;> rfl

@[simp] theorem withUnwindInfo_endIp (entry : Word 32) (need : Bool) (pi : ProcInfo) :
    (withUnwindInfo entry need pi).endIp = pi.endIp := by
  cases need <;> rfl

end Search

/-! ## Sorted tables -/

/-- An index table whose functions are in ascending order; the first word of each entry can be
    read. -/
structure ExidxTable (as : AddrSpace 32) where
  tableData : Word 32
  tableLen : Word 32
  addrs : List (Word 32)
  nonempty : 0 < addrs.length
  counts : tableLen.toNat = 8 * addrs.length
  fits : tableData.toNat + tableLen.toNat ≤ 2 ^ 32
  ascending : addrs.Pairwise (· < ·)
  reads : ∀ i addr, addrs[i]? = some addr →
    prel31ToAddr as (tableData + BitVec.ofNat 32 (8 * i)) = .ok addr

namespace ExidxTable

variable {as : AddrSpace 32} (t : ExidxTable as)

def firstAddr : Word 32 := t.addrs.get ⟨0, t.nonempty⟩

/-- Where an entry is stored. -/
def entry (i : Nat) : Word 32 := t.tableData + BitVec.ofNat 32 (8 * i)

/-- The dynamic info that has the table, for procedures that end at `endIp`. -/
def dynInfo (endIp : Word 32) : DynInfo := ⟨endIp, t.tableData, t.tableLen⟩

/-- The last entry whose function starts at or below `ip`. -/
def Last (ip : Word 32) (i : Nat) : Prop :=
  i < t.addrs.length ∧ ∀ j addr, t.addrs[j]? = some addr → (addr ≤ ip ↔ j ≤ i)

/-- The first address behind the function of an entry. -/
def behind (endIp : Word 32) (i : Nat) : Word 32 := t.addrs.getD (i + 1) endIp

/-- What an `unw_proc_info_t` for `ip` says: the function of the last entry at or below `ip`,
    from its start up to the first address that is not its own. -/
def Governs (endIp ip : Word 32) (pi : ProcInfo) : Prop :=
  ∃ i, t.Last ip i ∧ t.addrs[i]? = some pi.startIp ∧ pi.endIp = t.behind endIp i ∧
    pi.startIp ≤ ip ∧ ip < pi.endIp

variable {t} {endIp ip : Word 32}

theorem entry_toNat {i : Nat} (inside : i < t.addrs.length) :
    (t.entry i).toNat = t.tableData.toNat + 8 * i := by
  have := t.counts
  have := t.fits
  rw [entry, BitVec.toNat_add, BitVec.toNat_ofNat]
  omega

theorem reads_entry {i : Nat} (inside : i < t.addrs.length) :
    prel31ToAddr as (t.entry i) = .ok t.addrs[i] :=
  t.reads i _ (List.getElem?_eq_getElem inside)

theorem last_entry : t.tableData + t.tableLen - 8 = t.entry (t.addrs.length - 1) := by
  have := t.counts
  have := t.nonempty
  apply BitVec.eq_of_toNat_eq
  rw [entry_toNat (by omega)]
  have := t.fits
  simp only [BitVec.toNat_sub, BitVec.toNat_add, BitVec.reduceToNat]
  omega

theorem first_entry : t.tableData = t.entry 0 := by
  simp [entry]

/-- Neighbours that enclose `ip` are enough, as the table ascends. -/
theorem last_of_neighbours {i : Nat} (inside : i < t.addrs.length) (starts : t.addrs[i] ≤ ip)
    (ends : ∀ next : i + 1 < t.addrs.length, ip < t.addrs[i + 1]) : t.Last ip i := by
  refine ⟨inside, ?_⟩
  have sorted := List.pairwise_iff_getElem.mp t.ascending
  intro j addr found
  obtain ⟨inTable, rfl⟩ := List.getElem?_eq_some_iff.mp found
  constructor
  · intro below
    by_contra later
    have next := ends (by omega)
    by_cases same : j = i + 1
    · subst same
      exact absurd below (BitVec.not_le.mpr next)
    · have above := sorted (i + 1) j (by omega) inTable (by omega)
      exact absurd below (BitVec.not_le.mpr (BitVec.lt_trans next above))
  · intro before
    by_cases same : j = i
    · subst same
      exact starts
    · have under := sorted j i inTable inside (by omega)
      exact BitVec.le_trans (BitVec.le_of_lt under) starts

/-- The loop's invariant: two entries with `ip` between them. -/
def Between (t : ExidxTable as) (ip : Word 32) (s : Word 32 × Word 32) : Prop :=
  ∃ lo hi, ∃ (lt : lo < hi) (inside : hi < t.addrs.length), s = (t.entry lo, t.entry hi) ∧
    t.addrs[lo] ≤ ip ∧ ip < t.addrs[hi]

theorem guard_iff {lo hi : Nat} (lt : lo < hi) (inside : hi < t.addrs.length) :
    searchGuard (t.entry lo, t.entry hi) = true ↔ lo + 1 < hi := by
  have low := entry_toNat (t := t) (show lo < t.addrs.length by omega)
  have high := entry_toNat inside
  simp only [searchGuard, decide_eq_true_eq, BitVec.lt_def, BitVec.toNat_sub, low, high,
    BitVec.reduceToNat]
  have := t.counts
  have := t.fits
  omega

theorem apart_toNat {lo hi : Nat} (lt : lo < hi) (inside : hi < t.addrs.length) :
    (t.entry hi - t.entry lo).toNat = 8 * (hi - lo) := by
  have low := entry_toNat (t := t) (show lo < t.addrs.length by omega)
  have high := entry_toNat inside
  have := t.counts
  have := t.fits
  rw [BitVec.toNat_sub, low, high]
  omega

/-- The middle that a round looks at, rounded up. -/
theorem middle_entry {lo hi : Nat} (lt : lo < hi) (inside : hi < t.addrs.length) :
    t.entry lo + (((t.entry hi - t.entry lo) / 8 + 1) >>> 1) * 8 =
      t.entry (lo + (hi - lo + 1) / 2) := by
  have low := entry_toNat (t := t) (show lo < t.addrs.length by omega)
  have high := entry_toNat inside
  have := t.counts
  have := t.fits
  apply BitVec.eq_of_toNat_eq
  rw [entry_toNat (by omega)]
  have apart := apart_toNat lt inside
  simp only [BitVec.toNat_add, BitVec.toNat_mul, BitVec.toNat_ushiftRight, BitVec.toNat_udiv,
    apart, low, BitVec.reduceToNat, Nat.shiftRight_eq_div_pow, pow_one]
  have : 8 * (hi - lo) / 8 = hi - lo := by omega
  rw [this]
  omega

/-- A round moves one of the two to an entry strictly between them. -/
theorem searchRound_between {s : Word 32 × Word 32} (between : t.Between ip s)
    (enter : searchGuard s = true) :
    ∃ s', searchRound as ip s = .ok s' ∧ t.Between ip s' ∧
      (s'.2 - s'.1).toNat / 8 < (s.2 - s.1).toNat / 8 := by
  obtain ⟨lo, hi, lt, inside, rfl, starts, ends⟩ := between
  have apart : lo + 1 < hi := (guard_iff lt inside).mp enter
  obtain ⟨mid, isMid⟩ : ∃ mid, mid = lo + (hi - lo + 1) / 2 := ⟨_, rfl⟩
  have above : lo < mid := by omega
  have below : mid < hi := by omega
  have inTable : mid < t.addrs.length := by omega
  have read : searchRound as ip (t.entry lo, t.entry hi) =
      if ip < t.addrs[mid] then .ok (t.entry lo, t.entry mid)
      else .ok (t.entry mid, t.entry hi) := by
    simp only [searchRound, middle_entry lt inside, ← isMid, reads_entry inTable, ok_bind]
  by_cases before : ip < t.addrs[mid]
  · refine ⟨_, by rw [read, if_pos before], ⟨lo, mid, above, inTable, rfl, starts, before⟩, ?_⟩
    simp only [apart_toNat above inTable, apart_toNat lt inside]
    omega
  · refine ⟨_, by rw [read, if_neg before],
      ⟨mid, hi, below, inside, rfl, BitVec.not_lt.mp before, ends⟩, ?_⟩
    simp only [apart_toNat below inside, apart_toNat lt inside]
    omega

/-- The loop ends at the last entry at or below `ip`, which has another one behind it. -/
theorem search_between {budget : Nat} (enough : t.addrs.length ≤ budget) {s : Word 32 × Word 32}
    (between : t.Between ip s) :
    ∃ i, i + 1 < t.addrs.length ∧ t.Last ip i ∧
      WhileLoop.run .timeout searchGuard (searchRound as ip) budget s =
        .ok (t.entry i, t.entry (i + 1)) := by
  have keep : ∀ a b, t.Between ip a → searchGuard a = true → searchRound as ip a = .ok b →
      t.Between ip b := by
    intro a b between enter round
    obtain ⟨s', found, kept, -⟩ := searchRound_between between enter
    rw [found, Except.ok.injEq] at round
    exact round ▸ kept
  obtain ⟨final, ended⟩ : ∃ final,
      WhileLoop.run .timeout searchGuard (searchRound as ip) budget s = .ok final := by
    apply WhileLoop.run_ok_of_reaches fun a => (a.2 - a.1).toNat / 8
    · intro a path enter
      obtain ⟨s', found, -, smaller⟩ :=
        searchRound_between (path.invariant (t.Between ip) keep between) enter
      exact ⟨s', found, smaller⟩
    · obtain ⟨lo, hi, lt, inside, rfl, -⟩ := between
      simp only [apart_toNat lt inside]
      omega
  obtain ⟨⟨lo, hi, lt, inside, rfl, starts, ends⟩, exit⟩ :=
    WhileLoop.run_invariant (t.Between ip) keep between ended
  have adjacent : hi = lo + 1 := by
    by_contra apart
    have : searchGuard (t.entry lo, t.entry hi) = true :=
      (guard_iff lt inside).mpr (by omega)
    rw [this] at exit
    exact Bool.noConfusion exit
  subst adjacent
  exact ⟨lo, inside, last_of_neighbours (by omega) starts fun _ => ends, ended⟩

variable (endIp) in
/-- The search decides for the last entry at or below `ip`, and reports where its function
    starts and the last address of it. -/
theorem searchEntry_eq {budget : Nat} (enough : t.addrs.length ≤ budget)
    (starts : t.firstAddr ≤ ip) :
    ∃ i startIp, t.Last ip i ∧ t.addrs[i]? = some startIp ∧
      searchEntry as budget ip (t.dynInfo endIp) =
        .ok (t.entry i, startIp, t.behind endIp i - 1) := by
  have positive := t.nonempty
  have first : prel31ToAddr as t.tableData = .ok t.firstAddr := by
    rw [first_entry]
    exact reads_entry positive
  have last := reads_entry (t := t) (show t.addrs.length - 1 < t.addrs.length by omega)
  have low : ¬ ip < t.firstAddr := BitVec.not_lt.mpr starts
  by_cases atEnd : t.addrs[t.addrs.length - 1] ≤ ip
  · refine ⟨t.addrs.length - 1, _, last_of_neighbours (by omega) atEnd ?_,
      List.getElem?_eq_getElem (by omega), ?_⟩
    · intro next
      omega
    · have none : t.behind endIp (t.addrs.length - 1) = endIp := by
        simp [behind, Nat.sub_add_cancel positive]
      simp only [searchEntry, dynInfo, first, low, if_false, last_entry, last, ok_bind, atEnd,
        if_true, none]
  · have between : t.Between ip (t.entry 0, t.entry (t.addrs.length - 1)) := by
      have several : 0 < t.addrs.length - 1 := by
        by_contra one
        have same : t.addrs.length - 1 = 0 := by omega
        simp only [same] at atEnd
        exact atEnd starts
      exact ⟨0, t.addrs.length - 1, several, by omega, rfl, starts, BitVec.not_le.mp atEnd⟩
    obtain ⟨i, inside, isLast, ended⟩ := search_between enough between
    refine ⟨i, t.addrs[i], isLast, List.getElem?_eq_getElem (by omega), ?_⟩
    have next : t.behind endIp i = t.addrs[i + 1] := by
      simp [behind, inside]
    have here := reads_entry (t := t) (show i < t.addrs.length by omega)
    have behindIt : t.entry i + 8 = t.entry (i + 1) := by
      apply BitVec.eq_of_toNat_eq
      have := t.counts
      have := t.fits
      rw [BitVec.toNat_add, entry_toNat (by omega), entry_toNat inside]
      simp only [BitVec.reduceToNat]
      omega
    simp only [searchEntry, dynInfo, first, low, if_false, last_entry, last, ok_bind, atEnd]
    rw [first_entry, ended]
    simp only [here, behindIt, reads_entry inside, next, ok_bind]

/-- An entry at or below `ip` that is followed by one above it is the only one. -/
theorem Last.unique {i j : Nat} (one : t.Last ip i) (other : t.Last ip j) : i = j := by
  have le := (other.2 i _ (List.getElem?_eq_getElem one.1)).mp
    ((one.2 i _ (List.getElem?_eq_getElem one.1)).mpr (Nat.le_refl i))
  have ge := (one.2 j _ (List.getElem?_eq_getElem other.1)).mp
    ((other.2 j _ (List.getElem?_eq_getElem other.1)).mpr (Nat.le_refl j))
  omega

/-- The search finds the entry, but what it reports ends one address too early, so that the last
    address of every procedure is in none. -/
theorem search_ends_early (t : ExidxTable as) (endIp ip : Word 32) (pi : ProcInfo)
    (needUnwindInfo : Bool) (budget : Nat) (enough : t.addrs.length ≤ budget)
    (starts : t.firstAddr ≤ ip) (ends : ip < endIp) :
    ∃ i pi', t.Last ip i ∧
      armSearchUnwindTable as budget ip (t.dynInfo endIp) pi needUnwindInfo = .ok pi' ∧
      t.addrs[i]? = some pi'.startIp ∧ pi'.startIp ≤ ip ∧ pi'.endIp + 1 = t.behind endIp i ∧
      (needUnwindInfo = true → pi'.unwindInfo = t.entry i) ∧
      (ip < pi'.endIp ↔ ip + 1 ≠ t.behind endIp i) ∧ ¬ t.Governs endIp ip pi' := by
  obtain ⟨i, startIp, isLast, found, searched⟩ := searchEntry_eq endIp enough starts
  have above : ip < t.behind endIp i := by
    by_cases next : i + 1 < t.addrs.length
    · have later := isLast.2 (i + 1) _ (List.getElem?_eq_getElem next)
      simp only [behind, List.getD_eq_getElem _ _ next]
      apply BitVec.not_le.mp
      intro below
      have := later.mp below
      omega
    · simpa [behind, next] using ends
  refine ⟨i, _, isLast, by rw [armSearchUnwindTable, searched]; rfl, ?_, ?_, ?_, ?_, ?_, ?_⟩
  · simpa using found
  · simpa using (isLast.2 i _ found).mpr (Nat.le_refl i)
  · simp
  · intro need
    simp [withUnwindInfo, need]
  · simp only [withHandler_endIp, withUnwindInfo_endIp]
    bv_omega
  · intro governs
    obtain ⟨j, isLast', -, ending, -⟩ := governs
    obtain rfl := isLast.unique isLast'
    simp only [withHandler_endIp, withUnwindInfo_endIp] at ending
    bv_omega

end ExidxTable

/-! ## A table of two functions -/

namespace TwoFunctions

/-- A function at `0x1000` and one at `0x2000`, both of which cannot be unwound. -/
def space : AddrSpace 32 where
  bigEndian := false
  readByte := fun _ => .error .inval
  accessMem := fun addr =>
    if addr = 0x100 then .ok 0xf00
    else if addr = 0x108 then .ok 0x1ef8
    else if addr = 0x104 ∨ addr = 0x10c then .ok 1
    else .error .inval
  accessReg := fun _ => .error .badreg
  accessFpreg := fun _ => .error .badreg

theorem starts_readable : ∀ i addr, ([0x1000, 0x2000] : List (Word 32))[i]? = some addr →
    prel31ToAddr space (0x100 + BitVec.ofNat 32 (8 * i)) = .ok addr := by
  intro i addr found
  cases i with
  | zero =>
      cases found
      decide
  | succ i =>
      cases i with
      | zero =>
          cases found
          decide
      | succ i => simp at found

theorem starts_ascend : ([0x1000, 0x2000] : List (Word 32)).Pairwise (· < ·) := by decide

theorem starts_fit : (0x100 : Word 32).toNat + (16 : Word 32).toNat ≤ 2 ^ 32 := by decide

def table : ExidxTable space :=
  ⟨0x100, 16, [0x1000, 0x2000], Nat.two_pos, rfl, starts_fit, starts_ascend, starts_readable⟩

def pi : ProcInfo := ⟨0, 0, 0, 0, 0, 0, .dynamic⟩

/-- The last address of the first function is not in the range that the search reports for it. -/
theorem last_ip_missed :
    ¬ ∃ pi', armSearchUnwindTable space 2 0x1fff (table.dynInfo 0x3000) pi true = .ok pi' ∧
      0x1fff < pi'.endIp := by
  intro covered
  obtain ⟨pi', searched, inside⟩ := covered
  have computed : armSearchUnwindTable space 2 0x1fff (table.dynInfo 0x3000) pi true =
      .ok ⟨0x1000, 0x1fff, 0, 0, 8, 0x100, .armExidx⟩ := by decide
  rw [computed, Except.ok.injEq] at searched
  subst searched
  exact absurd inside (by decide)

theorem ends_early :
    ∃ i pi', table.Last 0x1ffe i ∧
      armSearchUnwindTable space 2 0x1ffe (table.dynInfo 0x3000) pi true = .ok pi' ∧
      table.addrs[i]? = some pi'.startIp ∧ pi'.startIp ≤ 0x1ffe ∧
      pi'.endIp + 1 = table.behind 0x3000 i ∧ (true = true → pi'.unwindInfo = table.entry i) ∧
      (0x1ffe < pi'.endIp ↔ 0x1ffe + 1 ≠ table.behind 0x3000 i) ∧
      ¬ table.Governs 0x3000 0x1ffe pi' :=
  table.search_ends_early 0x3000 0x1ffe pi true 2 (by decide) (by decide) (by decide)

end TwoFunctions

end Libunwind.Arm
