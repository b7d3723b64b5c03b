import Mathlib

/-! # Slots with a collection word in every group

Memory in which the last of every 64 slots collects a bit for each of the other 63. How many of some
slots are ordinary ones, and where the next ordinary ones are, depends on the place in the group at
which one starts.
-/

namespace CollectedSlots

/-- The slot is the one that collects. -/
def Collects (a : ℕ) : Prop := a % 64 = 63

instance (a : ℕ) : Decidable (Collects a) := inferInstanceAs (Decidable (_ = _))

/-- How many of `n` slots from `b` on are ordinary. -/
def count (b n : ℕ) : ℕ := n - (b % 64 + n) / 64

/-- How far behind `b` the ordinary slot is that has `m` ordinary ones before it. -/
def skip (b m : ℕ) : ℕ := m + (b % 64 + m) / 63

/-- The ordinary ones of the slots from `i` on, up to `n`, by how far they are behind `b`. -/
def ordinary (b n i : ℕ) : List ℕ := (List.range' i (n - i)).filter fun k => ¬Collects (b + k)

variable {b i k m n : ℕ}

theorem count_le : count b n ≤ n := Nat.sub_le _ _

theorem count_zero : count b 0 = 0 := by
  rw [count]
  omega

theorem count_add : count b (n + m) = count b n + count (b + n) m := by
  simp only [count]
  omega

theorem count_one : count b 1 = if Collects b then 0 else 1 := by
  by_cases here : Collects b
  · rw [if_pos here, count]
    rw [Collects] at here
    omega
  · rw [if_neg here, count]
    rw [Collects] at here
    omega

theorem count_mono (le : m ≤ n) : count b m ≤ count b n := by
  simp only [count]
  omega

/-- The slot that is found is ordinary, -/
theorem skip_ordinary : ¬Collects (b + skip b m) := by
  simp only [skip, Collects]
  omega

/-- and has so many before it. -/
theorem count_skip : count b (skip b m) = m := by
  simp only [skip, count]
  omega

theorem skip_lt_iff : skip b m < n ↔ m < count b n := by
  simp only [skip, count]
  omega

theorem skip_add : skip b (count b n + m) = n + skip (b + n) m := by
  simp only [skip, count]
  omega

theorem skip_zero (ordinary : ¬Collects b) : skip b 0 = 0 := by
  simp only [skip, Collects] at *
  omega

/-! ## Lists of slots -/

theorem ordinary_end (le : n ≤ i) : ordinary b n i = [] := by
  rw [ordinary, Nat.sub_eq_zero_of_le le]
  rfl

theorem ordinary_cons (lt : i < n) (here : ¬Collects (b + i)) :
    ordinary b n i = i :: ordinary b n (i + 1) := by
  obtain ⟨k, rfl⟩ := Nat.exists_eq_add_of_lt lt
  rw [ordinary, ordinary, show i + k + 1 - i = k + 1 by omega, show i + k + 1 - (i + 1) = k by omega,
    List.range'_succ, List.filter_cons_of_pos (by simpa using here)]

theorem ordinary_skip (lt : i < n) (here : Collects (b + i)) :
    ordinary b n i = ordinary b n (i + 1) := by
  obtain ⟨k, rfl⟩ := Nat.exists_eq_add_of_lt lt
  rw [ordinary, ordinary, show i + k + 1 - i = k + 1 by omega, show i + k + 1 - (i + 1) = k by omega,
    List.range'_succ, List.filter_cons_of_neg (by simpa using here)]

theorem length_ordinary (le : i ≤ n) : (ordinary b n i).length = count (b + i) (n - i) := by
  obtain ⟨k, rfl⟩ := Nat.exists_eq_add_of_le le
  rw [Nat.add_sub_cancel_left]
  induction k generalizing i with
  | zero => rw [Nat.add_zero, ordinary_end (Nat.le_refl i), count_zero, List.length_nil]
  | succ k ih =>
      have tail := ih (i := i + 1) (by omega)
      rw [show i + 1 + k = i + (k + 1) by omega] at tail
      rw [Nat.add_comm k 1, count_add, count_one, Nat.add_comm 1 k]
      by_cases here : Collects (b + i)
      · rw [ordinary_skip (by omega) here, tail, if_pos here, Nat.zero_add]
        rfl
      · rw [ordinary_cons (by omega) here, List.length_cons, tail, if_neg here, Nat.add_comm]
        rfl

/-- The ordinary slots are those that are found one after the other. -/
theorem getElem?_ordinary (k : ℕ) :
    (ordinary b n 0)[k]? = if k < count b n then some (skip b k) else none := by
  have each (i : ℕ) (le : i ≤ n) (k : ℕ) : (ordinary b n i)[k]? =
      if k < count (b + i) (n - i) then some (i + skip (b + i) k) else none := by
    obtain ⟨l, rfl⟩ := Nat.exists_eq_add_of_le le
    rw [Nat.add_sub_cancel_left]
    induction l generalizing i k with
    | zero => rw [Nat.add_zero, ordinary_end (Nat.le_refl i), count_zero]; rfl
    | succ l ih =>
        have tail := fun k => ih (i + 1) k (by omega)
        rw [show i + 1 + l = i + (l + 1) by omega] at tail
        have counts : count (b + i) (l + 1) =
            (if Collects (b + i) then 0 else 1) + count (b + (i + 1)) l := by
          rw [Nat.add_comm l 1, count_add, count_one]
          rfl
        by_cases here : Collects (b + i)
        · rw [ordinary_skip (by omega) here, tail k, counts, if_pos here, Nat.zero_add]
          have further : i + skip (b + i) k = i + 1 + skip (b + (i + 1)) k := by
            simp only [skip, Collects] at *
            omega
          rw [further]
        · rw [ordinary_cons (by omega) here, counts, if_neg here]
          cases k with
          | zero =>
              rw [List.getElem?_cons_zero, if_pos (by omega), skip_zero here]
              rfl
          | succ k =>
              have further : i + skip (b + i) (k + 1) = i + 1 + skip (b + (i + 1)) k := by
                simp only [skip, Collects] at *
                omega
              rw [List.getElem?_cons_succ, tail k, further]
              by_cases inside : k < count (b + (i + 1)) l
              · rw [if_pos inside, if_pos (by omega)]
              · rw [if_neg inside, if_neg (by omega)]
  simpa using each 0 (Nat.zero_le n) k

/-! ## Values with a bit each -/

/-- The bit of the value `i` words behind `b`: in the word that collects it, which is `rest` as long
    as there is none. -/
def bitAt (b : ℕ) (words : List (BitVec 64)) (rest : BitVec 64) (i : ℕ) : Bool :=
  (words[i + (63 - (b + i) % 64)]?.getD rest).getLsbD ((b + i) % 64)

/-- The words from `b` on have some values in the ordinary slots, and their bits are collected. -/
structure Stored (b : ℕ) (words : List (BitVec 64)) (rest : BitVec 64)
    (values : List (BitVec 64 × Bool)) : Prop where
  count_eq : count b words.length = values.length
  value : ∀ k v, values[k]? = some v → words[skip b k]? = some v.1
  bit : ∀ k v, values[k]? = some v → bitAt b words rest (skip b k) = v.2

section Stored

variable {words : List (BitVec 64)} {rest rest' v : BitVec 64} {values : List (BitVec 64 × Bool)}

theorem Stored.nil : Stored b [] 0 [] where
  count_eq := count_zero
  value := nofun
  bit := nofun

theorem skip_count (here : ¬Collects (b + n)) : skip b (count b n) = n := by
  have next := skip_add (b := b) (n := n) (m := 0)
  rwa [skip_zero here, Nat.add_zero] at next

theorem Stored.skip_lt (stored : Stored b words rest values) (some : k < values.length) :
    skip b k < words.length := by
  rw [skip_lt_iff, stored.count_eq]
  exact some

/-- What has been collected is written. -/
theorem Stored.collect (stored : Stored b words rest values) (here : Collects (b + words.length)) :
    Stored b (words ++ [rest]) 0 values where
  count_eq := by
    rw [List.length_append, List.length_singleton, count_add, count_one, if_pos here,
      stored.count_eq, Nat.add_zero]
  value k v isValue := by
    obtain ⟨some, _⟩ := List.getElem?_eq_some_iff.mp isValue
    rw [List.getElem?_append_left (stored.skip_lt some)]
    exact stored.value k v isValue
  bit k v isValue := by
    obtain ⟨some, _⟩ := List.getElem?_eq_some_iff.mp isValue
    have before := stored.skip_lt some
    rw [← stored.bit k v isValue, bitAt, bitAt]
    rw [Collects] at here
    by_cases inside : skip b k + (63 - (b + skip b k) % 64) < words.length
    · rw [List.getElem?_append_left inside, List.getElem?_eq_getElem inside]
      rfl
    · have last : skip b k + (63 - (b + skip b k) % 64) = words.length := by omega
      rw [last, List.getElem?_concat_length, List.getElem?_eq_none (Nat.le_refl _)]
      rfl

/-- A value is written, and its bit collected. -/
theorem Stored.push (stored : Stored b words rest values) (here : ¬Collects (b + words.length))
    (others : ∀ i, i ≠ (b + words.length) % 64 → rest'.getLsbD i = rest.getLsbD i)
    (v : BitVec 64) :
    Stored b (words ++ [v]) rest' (values ++ [(v, rest'.getLsbD ((b + words.length) % 64))]) where
  count_eq := by
    rw [List.length_append, List.length_append, List.length_singleton, List.length_singleton,
      count_add, count_one, if_neg here, stored.count_eq]
  value k u isValue := by
    have place := skip_count here
    rw [stored.count_eq] at place
    by_cases first : k < values.length
    · rw [List.getElem?_append_left first] at isValue
      rw [List.getElem?_append_left (stored.skip_lt first)]
      exact stored.value k u isValue
    · obtain ⟨some, _⟩ := List.getElem?_eq_some_iff.mp isValue
      rw [List.length_append, List.length_singleton] at some
      obtain rfl : k = values.length := by omega
      rw [List.getElem?_concat_length] at isValue
      rw [place, List.getElem?_concat_length, ← Option.some.inj isValue]
  bit k u isValue := by
    have place := skip_count here
    rw [stored.count_eq] at place
    rw [Collects] at here
    by_cases first : k < values.length
    · rw [List.getElem?_append_left first] at isValue
      have before := stored.skip_lt first
      rw [← stored.bit k u isValue, bitAt, bitAt]
      by_cases inside : skip b k + (63 - (b + skip b k) % 64) < words.length
      · rw [List.getElem?_append_left inside, List.getElem?_eq_getElem inside]
        rfl
      · -- the word that collects the bit comes behind the new one
        have ordinary : ¬Collects (b + skip b k) := skip_ordinary
        rw [Collects] at ordinary
        have behind : words.length + 1 ≤ skip b k + (63 - (b + skip b k) % 64) := by omega
        rw [List.getElem?_eq_none (by rwa [List.length_append, List.length_singleton]),
          List.getElem?_eq_none (by omega)]
        exact others _ (by omega)
    · obtain ⟨some, _⟩ := List.getElem?_eq_some_iff.mp isValue
      rw [List.length_append, List.length_singleton] at some
      obtain rfl : k = values.length := by omega
      rw [List.getElem?_concat_length] at isValue
      rw [place, bitAt, List.getElem?_eq_none (by
        rw [List.length_append, List.length_singleton]
        omega), ← Option.some.inj isValue]
      rfl

/-- The words tell which values they are. -/
theorem Stored.unique {others : List (BitVec 64 × Bool)} (stored : Stored b words rest values)
    (stored' : Stored b words rest others) : values = others := by
  have same : values.length = others.length := stored.count_eq.symm.trans stored'.count_eq
  apply List.ext_getElem same
  intro k inside inside'
  have isValue := List.getElem?_eq_getElem inside
  have isOther := List.getElem?_eq_getElem inside'
  apply Prod.ext
  · exact Option.some.inj ((stored.value k _ isValue).symm.trans (stored'.value k _ isOther))
  · exact (stored.bit k _ isValue).symm.trans (stored'.bit k _ isOther)

end Stored

end CollectedSlots
