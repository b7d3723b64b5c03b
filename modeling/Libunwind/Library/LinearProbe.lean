import Mathlib

/-! # Linear probing with a limit

A table in which a key is looked for in the slots from its home slot on, as far as a free slot and
not further than a limit. As long as no slot is emptied, what was put where its probe ended is found
there again.
-/

namespace LinearProbe

/-- How a probe ends. -/
inductive Probe where
  | found (slot : ℕ)
  | free (slot : ℕ)
  | collided
  deriving DecidableEq

variable {κ : Type*} (size : ℕ) (keys : ℕ → Option κ)

/-- The probe for a key, as many steps as it may take, from a slot on. -/
def probe [DecidableEq κ] (k : κ) : ℕ → ℕ → Probe
  | 0, _ => .collided
  | steps + 1, slot =>
      match keys slot with
      | none => .free slot
      | some other => if other = k then .found slot else probe k steps ((slot + 1) % size)

/-- The slots of the table that hold a key. -/
def occupied : Finset ℕ := (Finset.range size).filter fun slot => (keys slot).isSome

/-- A probe of at most so many steps gets from the home slot to this slot, past other keys. -/
def Reaches (k : κ) (limit home slot : ℕ) : Prop :=
  ∃ i < limit, slot = (home + i) % size ∧
    ∀ j < i, ∃ other, keys ((home + j) % size) = some other ∧ other ≠ k

/-- Every key is where the probe for it gets to. -/
def Placed (limit : ℕ) (home : κ → ℕ) : Prop :=
  ∀ slot < size, ∀ k, keys slot = some k → Reaches size keys k limit (home k) slot

variable {size keys} {k k' : κ} {limit slot start steps : ℕ} {home : κ → ℕ}

theorem mem_occupied : slot ∈ occupied size keys ↔ slot < size ∧ (keys slot).isSome := by
  rw [occupied, Finset.mem_filter, Finset.mem_range]

section Probe

variable [DecidableEq κ]

/-- A probe goes on past other keys. -/
theorem probe_succ (h : ∃ other, keys slot = some other ∧ other ≠ k) :
    probe size keys k (steps + 1) slot = probe size keys k steps ((slot + 1) % size) := by
  obtain ⟨other, holds, different⟩ := h
  rw [probe, holds]
  exact if_neg different

theorem probe_past (i : ℕ)
    (others : ∀ j < i, ∃ other, keys ((start + j) % size) = some other ∧ other ≠ k) :
    probe size keys k (steps + i) (start % size) =
      probe size keys k steps ((start + i) % size) := by
  induction i generalizing start with
  | zero => rfl
  | succ i ih =>
      have first := others 0 (Nat.succ_pos i)
      have rest : ∀ j < i, ∃ other, keys ((start + 1 + j) % size) = some other ∧ other ≠ k := by
        intro j lt
        have := others (j + 1) (Nat.succ_lt_succ lt)
        rwa [Nat.add_comm j 1, ← Nat.add_assoc] at this
      have on : probe size keys k (steps + i + 1) _ = _ := probe_succ first
      rw [Nat.add_zero, Nat.mod_add_mod, ih rest] at on
      rw [show start + (i + 1) = start + 1 + i by omega]
      exact on

theorem Reaches.lt (pos : 0 < size) (reaches : Reaches size keys k limit start slot) :
    slot < size := by
  obtain ⟨i, -, rfl, -⟩ := reaches
  exact Nat.mod_lt _ pos

/-- What is where a probe gets to is found. -/
theorem Reaches.probe_eq_found (reaches : Reaches size keys k limit start slot)
    (holds : keys slot = some k) : probe size keys k limit (start % size) = .found slot := by
  obtain ⟨i, within, rfl, others⟩ := reaches
  obtain ⟨steps, rfl⟩ := Nat.exists_eq_add_of_lt within
  rw [show i + steps + 1 = steps + 1 + i by omega, probe_past i others, probe, holds]
  exact if_pos rfl

/-- Where a probe ends. -/
theorem probe_ends (size : ℕ) (keys : ℕ → Option κ) (k : κ) (steps start : ℕ) :
    (∃ i < steps, probe size keys k steps (start % size) = .found ((start + i) % size) ∧
        keys ((start + i) % size) = some k) ∨
      (∃ i < steps, probe size keys k steps (start % size) = .free ((start + i) % size) ∧
        keys ((start + i) % size) = none ∧
        ∀ j < i, ∃ other, keys ((start + j) % size) = some other ∧ other ≠ k) ∨
      probe size keys k steps (start % size) = .collided := by
  induction steps generalizing start with
  | zero => exact .inr (.inr rfl)
  | succ steps ih =>
      cases holds : keys (start % size) with
      | none =>
          refine .inr (.inl ⟨0, Nat.succ_pos _, ?_, holds, fun j lt => nomatch lt⟩)
          rw [probe, holds]
          rfl
      | some other =>
          by_cases same : other = k
          · refine .inl ⟨0, Nat.succ_pos _, ?_, same ▸ holds⟩
            rw [probe, holds]
            exact if_pos same
          · have on : probe size keys k (steps + 1) _ = _ := probe_succ ⟨other, holds, same⟩
            rw [on, Nat.mod_add_mod]
            have shift (i : ℕ) : start + 1 + i = start + (i + 1) := by omega
            rcases ih (start + 1) with ⟨i, lt, ends, found⟩ | ⟨i, lt, ends, free, past⟩ |
              collided
            · rw [shift] at ends found
              exact .inl ⟨i + 1, Nat.succ_lt_succ lt, ends, found⟩
            · rw [shift] at ends free
              refine .inr (.inl ⟨i + 1, Nat.succ_lt_succ lt, ends, free, fun j le => ?_⟩)
              cases j with
              | zero => exact ⟨other, holds, same⟩
              | succ j =>
                  rw [← shift]
                  exact past j (Nat.lt_of_succ_lt_succ le)
            · exact .inr (.inr collided)

/-- A slot that a probe finds free is one that it gets to. -/
theorem reaches_of_free (ends : probe size keys k limit (start % size) = .free slot) :
    keys slot = none ∧ Reaches size keys k limit start slot := by
  rcases probe_ends size keys k limit start with ⟨i, _, found, _⟩ | ⟨i, lt, free, none, past⟩ | collided
  · exact nomatch ends.symm.trans found
  · obtain rfl := Probe.free.inj (ends.symm.trans free)
    exact ⟨none, i, lt, rfl, past⟩
  · exact nomatch ends.symm.trans collided

theorem of_found (ends : probe size keys k limit (start % size) = .found slot) :
    (∃ i, slot = (start + i) % size) ∧ keys slot = some k := by
  rcases probe_ends size keys k limit start with ⟨i, _, found, holds⟩ | ⟨i, _, free, _⟩ | collided
  · obtain rfl := Probe.found.inj (ends.symm.trans found)
    exact ⟨⟨i, rfl⟩, holds⟩
  · exact nomatch ends.symm.trans free
  · exact nomatch ends.symm.trans collided

theorem key_of_found (ends : probe size keys k limit (start % size) = .found slot) :
    keys slot = some k := (of_found ends).2

theorem lt_of_found (pos : 0 < size) (ends : probe size keys k limit (start % size) = .found slot) :
    slot < size := by
  obtain ⟨⟨i, rfl⟩, -⟩ := of_found ends
  exact Nat.mod_lt _ pos

/-- What is found can be looked for with the same outcome. -/
theorem Placed.probe_eq_found (placed : Placed size keys limit home) (lt : slot < size)
    (holds : keys slot = some k) : probe size keys k limit (home k % size) = .found slot :=
  (placed slot lt k holds).probe_eq_found holds

end Probe

/-- A table without keys has every key where it belongs. -/
theorem placed_empty (none : ∀ slot < size, keys slot = none) : Placed size keys limit home := by
  intro slot lt k holds
  exact nomatch (none slot lt).symm.trans holds

theorem occupied_empty (none : ∀ slot < size, keys slot = none) : occupied size keys = ∅ := by
  rw [occupied, Finset.filter_eq_empty_iff]
  intro slot lt
  rw [none slot (Finset.mem_range.mp lt)]
  exact nofun

section Fill

variable (isFree : keys slot = none)
include isFree

/-- Filling a free slot takes no key from the others. -/
theorem update_of_some {other : ℕ} (holds : keys other = some k') :
    Function.update keys slot (some k) other = some k' := by
  have different : other ≠ slot := by
    rintro rfl
    exact nomatch isFree.symm.trans holds
  rw [Function.update_of_ne different]
  exact holds

theorem Reaches.update {there : ℕ} (reaches : Reaches size keys k' limit start there) :
    Reaches size (Function.update keys slot (some k)) k' limit start there := by
  obtain ⟨i, lt, rfl, past⟩ := reaches
  refine ⟨i, lt, rfl, fun j le => ?_⟩
  obtain ⟨other, holds, different⟩ := past j le
  exact ⟨other, update_of_some isFree holds, different⟩

/-- A key may be put where its probe found a free slot. -/
theorem Placed.update (placed : Placed size keys limit home)
    (reaches : Reaches size keys k limit (home k) slot) :
    Placed size (Function.update keys slot (some k)) limit home := by
  intro there lt k' holds
  by_cases here : there = slot
  · subst here
    rw [Function.update_self] at holds
    obtain rfl := Option.some.inj holds
    exact reaches.update isFree
  · rw [Function.update_of_ne here] at holds
    exact (placed there lt k' holds).update isFree

theorem occupied_update (lt : slot < size) :
    (occupied size (Function.update keys slot (some k))).card = (occupied size keys).card + 1 := by
  have added : occupied size (Function.update keys slot (some k)) =
      insert slot (occupied size keys) := by
    ext there
    rw [Finset.mem_insert, mem_occupied, mem_occupied]
    by_cases here : there = slot
    · subst here
      simp [lt]
    · simp [here]
  rw [added, Finset.card_insert_of_notMem]
  rw [mem_occupied, isFree]
  exact fun member => nomatch member.2

end Fill

end LinearProbe
