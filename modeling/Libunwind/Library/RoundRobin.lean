import Mathlib

/-! # Round-robin storage

Values are written to the cells of a buffer in turn, so a cell holds the last
value that was written to it, and the buffer the last values of all.
-/

namespace Libunwind.RoundRobin

variable {α : Type}

/-- The last value in cell `i` of a buffer of `size` cells; the values written
    are listed from the last one. -/
def lastIn (size : ℕ) : List α → ℕ → Option α
  | [], _ => none
  | a :: older, i => if older.length % size = i then some a else lastIn size older i

/-- The next value goes to one cell. -/
theorem lastIn_cons (size : ℕ) (a : α) (written : List α) :
    lastIn size (a :: written) =
      Function.update (lastIn size written) (written.length % size) (some a) := by
  funext i
  by_cases here : written.length % size = i
  · rw [lastIn, if_pos here, here, Function.update_self]
  · rw [lastIn, if_neg here, Function.update_of_ne (Ne.symm here)]

/-- The position, from the last one, of the value in a cell. -/
theorem lastIn_eq_some {size : ℕ} {i : ℕ} {a : α} {written : List α} (inRange : i < size) :
    lastIn size written i = some a ↔
      ∃ j < size, written[j]? = some a ∧ (written.length - 1 - j) % size = i := by
  induction written with
  | nil => simp [lastIn]
  | cons b older ih =>
      rw [lastIn]
      have lengthPred : (b :: older).length - 1 = older.length := by simp
      rw [lengthPred]
      by_cases here : older.length % size = i
      · rw [if_pos here]
        constructor
        · intro isLast
          exact ⟨0, by omega, isLast, here⟩
        · rintro ⟨j, small, isRead, sameCell⟩
          cases j with
          | zero => exact isRead
          | succ j =>
              -- the cell comes round again only after `size` values
              have bound : j < older.length := by
                by_contra outside
                rw [List.getElem?_cons_succ, List.getElem?_eq_none (not_lt.mp outside)] at isRead
                cases isRead
              have congruent : (older.length - (j + 1)) % size = older.length % size := by
                rw [sameCell, here]
              have divides : size ∣ j + 1 := by
                have := (Nat.modEq_iff_dvd' (Nat.sub_le older.length (j + 1))).mp congruent
                rwa [Nat.sub_sub_self bound] at this
              exact absurd (Nat.le_of_dvd (Nat.succ_pos j) divides) (not_le.mpr small)
      · rw [if_neg here, ih]
        constructor
        · rintro ⟨j, small, isRead, sameCell⟩
          have bound : j < older.length := (List.getElem?_eq_some_iff.mp isRead).1
          refine ⟨j + 1, ?_, isRead, by rwa [Nat.add_comm, ← Nat.sub_sub]⟩
          by_contra large
          have last : j + 1 = size := by omega
          have wraps : older.length - 1 - j = older.length - size := by omega
          rw [wraps, ← Nat.mod_eq_sub_mod (by omega)] at sameCell
          exact here sameCell
        · rintro ⟨j, small, isRead, sameCell⟩
          cases j with
          | zero => exact absurd sameCell here
          | succ j => exact ⟨j, by omega, isRead, by rwa [Nat.sub_sub, Nat.add_comm 1 j]⟩

/-- A buffer holds the last `size` values. -/
theorem exists_lastIn {size : ℕ} {a : α} {written : List α} :
    (∃ i < size, lastIn size written i = some a) ↔ a ∈ written.take size := by
  rw [List.mem_iff_getElem?]
  constructor
  · rintro ⟨i, inRange, isLast⟩
    obtain ⟨j, small, isRead, -⟩ := (lastIn_eq_some inRange).mp isLast
    exact ⟨j, by rwa [List.getElem?_take_of_lt small]⟩
  · rintro ⟨j, isRead⟩
    have small : j < size := by
      by_contra large
      rw [List.getElem?_take_eq_none (not_lt.mp large)] at isRead
      cases isRead
    rw [List.getElem?_take_of_lt small] at isRead
    have inRange : (written.length - 1 - j) % size < size := Nat.mod_lt _ (by omega)
    exact ⟨_, inRange, (lastIn_eq_some inRange).mpr ⟨j, small, isRead, rfl⟩⟩

/-- A value that is among the last ones once is in one cell. -/
theorem lastIn_injective {size i i' : ℕ} {a : α} {written : List α}
    (distinct : (written.take size).Nodup) (inRange : i < size) (inRange' : i' < size)
    (isLast : lastIn size written i = some a) (isLast' : lastIn size written i' = some a) :
    i = i' := by
  obtain ⟨j, small, isRead, rfl⟩ := (lastIn_eq_some inRange).mp isLast
  obtain ⟨j', small', isRead', rfl⟩ := (lastIn_eq_some inRange').mp isLast'
  rw [← List.getElem?_take_of_lt small] at isRead
  rw [← List.getElem?_take_of_lt small'] at isRead'
  have bound : j < (written.take size).length := (List.getElem?_eq_some_iff.mp isRead).1
  rw [(List.getElem?_inj bound distinct).mp (isRead.trans isRead'.symm)]

theorem nodup_take_cons {size : ℕ} {a : α} {written : List α}
    (distinct : (written.take size).Nodup) (fresh : a ∉ written.take size) :
    ((a :: written).take size).Nodup := by
  cases size with
  | zero => exact List.nodup_nil
  | succ size =>
      have fewer : (written.take size).Sublist (written.take (size + 1)) :=
        List.take_sublist_take_left (Nat.le_succ size)
      rw [List.take_succ_cons, List.nodup_cons]
      exact ⟨fun member => fresh (fewer.mem member), distinct.sublist fewer⟩

end Libunwind.RoundRobin
