import Mathlib

/-! # Bisection for the last entry at or below a key

The loop narrows an interval at its middle by a test that may fail. On entries
in ascending order it ends at the number of entries that are at most the key.
-/

namespace BinarySearch

section Bisect

variable {ε : Type} {test : Nat → Except ε Bool}

/-- `for (; lo < hi;)`: the middle becomes the upper end where the test holds,
    and is excluded from below otherwise. -/
def bisect (test : Nat → Except ε Bool) : Nat → Nat → Nat → Except ε Nat
  | 0, _, hi => pure hi
  | rounds + 1, lo, hi =>
      if lo < hi then do
        if ← test ((lo + hi) / 2) then bisect test rounds lo ((lo + hi) / 2)
        else bisect test rounds ((lo + hi) / 2 + 1) hi
      else pure hi

/-- Where the test changes once, the loop ends at the change. -/
theorem bisect_eq {k : Nat} (below : ∀ i, i < k → test i = .ok false) :
    ∀ {rounds lo hi}, hi - lo ≤ rounds → lo ≤ k → k ≤ hi →
      (∀ i, k ≤ i → i < hi → test i = .ok true) → bisect test rounds lo hi = .ok k := by
  intro rounds
  induction rounds with
  | zero =>
      intro lo hi enough above under _
      obtain rfl : hi = k := by omega
      rfl
  | succ rounds ih =>
      intro lo hi enough above under atLeast
      rw [bisect]
      split
      next inside =>
        by_cases before : (lo + hi) / 2 < k
        · rw [below _ before]
          exact ih (by omega) (by omega) under atLeast
        · rw [atLeast _ (by omega) (by omega)]
          exact ih (by omega) above (by omega) fun i from_k under_mid =>
            atLeast i from_k (by omega)
      next => exact congrArg Except.ok (by omega)

end Bisect

section Rank

variable {α β : Type} [LinearOrder β] (key : α → β)

/-- The keys do not descend. -/
def Ascending (entries : List α) : Prop :=
  entries.Pairwise fun a b => key a ≤ key b

instance (entries : List α) : Decidable (Ascending key entries) :=
  inferInstanceAs (Decidable (entries.Pairwise _))

/-- How many entries come before the first one above `x`. -/
def rank (entries : List α) (x : β) : Nat :=
  (entries.takeWhile fun e => key e ≤ x).length

theorem rank_le_length (entries : List α) (x : β) : rank key entries x ≤ entries.length :=
  (List.takeWhile_sublist _).length_le

variable {key}

/-- In ascending entries, the rank separates those at most `x` from the rest. -/
theorem key_le_iff {entries : List α} (ascending : Ascending key entries) {i : Nat} {e : α}
    (found : entries[i]? = some e) (x : β) : key e ≤ x ↔ i < rank key entries x := by
  induction entries generalizing i with
  | nil => exact nomatch found
  | cons a rest ih =>
      obtain ⟨least, restAscending⟩ := List.pairwise_cons.mp ascending
      by_cases small : key a ≤ x
      · have count : rank key (a :: rest) x = rank key rest x + 1 := by
          simp [rank, small]
        rw [count]
        cases i with
        | zero =>
            obtain rfl : a = e := by simpa using found
            exact iff_of_true small (Nat.succ_pos _)
        | succ i =>
            rw [Nat.succ_lt_succ_iff]
            exact ih restAscending (by simpa using found)
      · have count : rank key (a :: rest) x = 0 := by
          simp [rank, small]
        rw [count]
        refine iff_of_false (fun le => small (le_trans ?_ le)) (Nat.not_lt_zero i)
        cases i with
        | zero =>
            obtain rfl : a = e := by simpa using found
            exact le_refl _
        | succ i => exact least e (List.mem_of_getElem? (by simpa using found))

/-- The last entry counted is at most `x`, and no entry at most `x` is above it. -/
theorem rank_last {entries : List α} (ascending : Ascending key entries) {e : α} {x : β}
    (member : e ∈ entries) (small : key e ≤ x) :
    rank key entries x ≠ 0 ∧
      ∃ last, entries[rank key entries x - 1]? = some last ∧ key e ≤ key last ∧ key last ≤ x := by
  obtain ⟨i, found⟩ := List.getElem?_of_mem member
  have counted := (key_le_iff ascending found x).mp small
  have bound := rank_le_length key entries x
  have foundLast := List.getElem?_eq_getElem
    (show rank key entries x - 1 < entries.length by omega)
  refine ⟨by omega, _, foundLast, ?_, (key_le_iff ascending foundLast x).mpr (by omega)⟩
  have atMost : key e ≤ key entries[rank key entries x - 1] ↔
      i < rank key entries (key entries[rank key entries x - 1]) :=
    key_le_iff ascending found _
  have self := (key_le_iff ascending foundLast _).mp (le_refl _)
  exact atMost.mpr (by omega)

/-- The loop finds the rank when its test compares with the entries. -/
theorem bisect_rank {ε : Type} {test : Nat → Except ε Bool} {entries : List α} {x : β}
    (ascending : Ascending key entries)
    (tests : ∀ i e, entries[i]? = some e → test i = .ok (decide (x < key e))) :
    bisect test entries.length 0 entries.length = .ok (rank key entries x) := by
  have compares (i : Nat) (inRange : i < entries.length) :
      test i = .ok (decide (rank key entries x ≤ i)) := by
    have found := List.getElem?_eq_getElem inRange
    rw [tests i _ found]
    congr 1
    rw [decide_eq_decide, ← not_le, key_le_iff ascending found, not_lt]
  apply bisect_eq
  · intro i before
    rw [compares i (Nat.lt_of_lt_of_le before (rank_le_length key entries x))]
    simp [before]
  · omega
  · exact Nat.zero_le _
  · exact rank_le_length key entries x
  · intro i above inRange
    rw [compares i inRange]
    simp [above]

/-- Two keys have the same rank when no entry separates them. -/
theorem rank_eq_iff {entries : List α} (ascending : Ascending key entries) (x y : β) :
    rank key entries x = rank key entries y ↔ ∀ e ∈ entries, key e ≤ x ↔ key e ≤ y := by
  constructor
  · intro same e member
    obtain ⟨i, found⟩ := List.getElem?_of_mem member
    rw [key_le_iff ascending found, key_le_iff ascending found, same]
  · intro agree
    have predicates : ∀ e ∈ entries, decide (key e ≤ x) = decide (key e ≤ y) :=
      fun e member => decide_eq_decide.mpr (agree e member)
    rw [rank, rank]
    congr 1
    induction entries with
    | nil => rfl
    | cons a rest ih =>
        have head := predicates a List.mem_cons_self
        simp only [List.takeWhile_cons, head,
          ih (List.pairwise_cons.mp ascending).2 (fun e member => agree e (.tail a member))
            fun e member => predicates e (.tail a member)]

end Rank

end BinarySearch
