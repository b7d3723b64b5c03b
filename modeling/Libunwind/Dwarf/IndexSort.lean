import Libunwind.Dwarf.DebugFrame

/-! # The loops that sort an index

`debug_frame_index_sort` on its array, with a step budget for each loop and with a check of each
index. Every loop ends and stays in the array, and together they do what the Shell sort of the
library does.
-/

namespace Libunwind.Dwarf

open BinarySearch ShellSort

section Source

variable (k : ℕ)

/-- `a[i]` -/
def indexAt (a : List (TableEntry 32)) (i : ℕ) : Result (TableEntry 32) :=
  match a[i]? with
  | some e => pure e
  | none => .error .undefined

/-- `a[i] = e` -/
def indexSet (a : List (TableEntry 32)) (i : ℕ) (e : TableEntry 32) :
    Result (List (TableEntry 32)) :=
  if i < a.length then pure (a.set i e) else .error .undefined

/-- `for (j = i; j >= k; j -= k)`, and what is in `j` behind it. -/
def shiftLoop (t : TableEntry 32) : ℕ → ℕ → List (TableEntry 32) →
    Result (ℕ × List (TableEntry 32))
  | 0, _, _ => .error .timeout
  | budget + 1, j, a =>
      if k ≤ j then do
        let below ← indexAt a (j - k)
        if below.start ≤ t.start then pure (j, a)
        else do
          let a ← indexSet a j below
          shiftLoop t budget (j - k) a
      else pure (j, a)

/-- `for (i = k; i < n; i++)` -/
def insertLoop (n : ℕ) : ℕ → ℕ → List (TableEntry 32) → Result (List (TableEntry 32))
  | 0, _, _ => .error .timeout
  | budget + 1, i, a =>
      if i < n then do
        let t ← indexAt a i
        let (j, a) ← shiftLoop k t (n + 1) i a
        let a ← indexSet a j t
        insertLoop n budget (i + 1) a
      else pure a

/-- `for (k = n / 2; k > 0; k /= 2)` -/
def gapLoop (n : ℕ) : ℕ → ℕ → List (TableEntry 32) → Result (List (TableEntry 32))
  | 0, _, _ => .error .timeout
  | budget + 1, k, a =>
      if 0 < k then do
        let a ← insertLoop k n (n + 1) k a
        gapLoop n budget (k / 2) a
      else pure a

/-- The loops of `debug_frame_index_sort`; `n` is how many entries the index has. -/
def indexSortLoops (a : List (TableEntry 32)) : Result (List (TableEntry 32)) :=
  gapLoop a.length (a.length + 1) (a.length / 2) a

end Source

variable {k n i j budget : ℕ} {a : List (TableEntry 32)} {t : TableEntry 32}

theorem indexAt_ok (lt : i < a.length) : indexAt a i = .ok a[i] := by
  rw [indexAt, List.getElem?_eq_getElem lt]
  rfl

theorem indexSet_ok (lt : i < a.length) (t : TableEntry 32) : indexSet a i t = .ok (a.set i t) :=
  if_pos lt

/-- The shifted entries, and the hole among them. -/
theorem shiftLoop_spec (budget rounds : ℕ) (positive : 0 < k) (inRange : j < a.length)
    (enough : j < budget) (enough' : j ≤ rounds) :
    ∃ j' a', shiftLoop k t budget j a = .ok (j', a') ∧ j' < a'.length ∧
      a'.set j' t = insertGap TableEntry.start k t rounds j a := by
  induction budget generalizing j a rounds with
  | zero => exact absurd enough (Nat.not_lt_zero j)
  | succ budget ih =>
      rw [shiftLoop]
      by_cases reaches : k ≤ j
      · have below : j - k < a.length := Nat.lt_of_le_of_lt (Nat.sub_le j k) inRange
        obtain ⟨rounds, rfl⟩ : ∃ m, rounds = m + 1 := ⟨rounds - 1, by omega⟩
        rw [if_pos reaches, indexAt_ok below, ok_bind, insertGap, if_pos reaches,
          List.getElem?_eq_getElem below]
        by_cases small : (a[j - k]).start ≤ t.start
        · rw [if_pos small]
          exact ⟨j, a, rfl, inRange, (if_pos small).symm⟩
        · rw [if_neg small, indexSet_ok inRange, ok_bind]
          obtain ⟨j', a', ends, inRange', inserted⟩ :=
            ih (j := j - k) (a := a.set j a[j - k]) rounds (by rw [List.length_set]; exact below)
              (by omega) (by omega)
          exact ⟨j', a', ends, inRange', inserted.trans (if_neg small).symm⟩
      · rw [if_neg reaches]
        refine ⟨j, a, rfl, inRange, ?_⟩
        cases rounds with
        | zero => rfl
        | succ rounds =>
            rw [insertGap, if_neg reaches]

theorem insertLoop_eq (positive : 0 < k) (length : a.length = n) (enough : n - i < budget) :
    insertLoop k n budget i a = .ok (gapPass TableEntry.start k (n - i) i a) := by
  induction budget generalizing i a with
  | zero => exact absurd enough (Nat.not_lt_zero _)
  | succ budget ih =>
      rw [insertLoop]
      by_cases inside : i < n
      · have inRange : i < a.length := length ▸ inside
        obtain ⟨j', a', shifted, inRange', inserted⟩ := shiftLoop_spec (t := a[i]) (n + 1) i
          positive inRange (by omega) le_rfl
        have kept : (a'.set j' a[i]).length = n := by
          rw [inserted, insertGap_length]
          exact length
        rw [if_pos inside, indexAt_ok inRange, ok_bind, shifted, ok_bind]
        simp only [indexSet_ok inRange', ok_bind]
        rw [ih kept (by omega), show n - i = n - (i + 1) + 1 by omega, gapPass,
          List.getElem?_eq_getElem inRange, inserted]
      · rw [if_neg inside, show n - i = 0 by omega]
        rfl

theorem gapLoop_eq (rounds : ℕ) (length : a.length = n) (enough : k < budget) (enough' : k ≤ rounds) :
    gapLoop n budget k a = .ok (passes TableEntry.start rounds k a) := by
  induction budget generalizing k a rounds with
  | zero => exact absurd enough (Nat.not_lt_zero k)
  | succ budget ih =>
      rw [gapLoop]
      by_cases positive : 0 < k
      · obtain ⟨rounds, rfl⟩ : ∃ m, rounds = m + 1 := ⟨rounds - 1, by omega⟩
        have kept : (gapPass TableEntry.start k (n - k) k a).length = n := by
          rw [(gapPass_perm positive).length_eq]
          exact length
        rw [if_pos positive, insertLoop_eq positive length (by omega), ok_bind,
          ih rounds kept (by omega) (by omega), passes, if_pos positive, length]
      · rw [if_neg positive]
        cases rounds with
        | zero => rfl
        | succ rounds =>
            rw [passes, if_neg positive]
            rfl

/-- The loops end, without a look outside of the array, at a permutation in ascending order. -/
theorem indexSortLoops_sort (a : List (TableEntry 32)) :
    ∃ sorted, indexSortLoops a = .ok sorted ∧ sorted = debugFrameIndexSort a ∧
      sorted.Perm a ∧ Ascending TableEntry.start sorted :=
  ⟨_, gapLoop_eq _ rfl (by omega) (Nat.div_le_self _ _), rfl, debugFrameIndexSort_perm a,
    debugFrameIndexSort_ascending a⟩

example : indexSortLoops [⟨7, 0⟩, ⟨-3, 1⟩, ⟨7, 2⟩, ⟨0, 3⟩, ⟨-3, 4⟩] =
    .ok [⟨-3, 4⟩, ⟨-3, 1⟩, ⟨0, 3⟩, ⟨7, 0⟩, ⟨7, 2⟩] := by decide

end Libunwind.Dwarf
