import Mathlib

/-! # A selection sort that carries its index

A selection sort in decreasing order that does not set the index of the greatest entry back to the
front before it looks for the next one. The entry at the front is compared with nothing then, and an
entry that is in its place already is taken out of it again.
-/

namespace CarriedSelection

variable {α β : Type*} [LinearOrder β] (key : α → β)

/-- `for (j = ..; ..; ++j)`: the index of the greatest entry, from `max` on. -/
def scan (a : ℕ → α) : ℕ → ℕ → ℕ → ℕ
  | 0, _, max => max
  | left + 1, j, max => scan a left (j + 1) (if key (a max) < key (a j) then j else max)

/-- The entries at two places, exchanged. -/
def exchange (a : ℕ → α) (i max : ℕ) : ℕ → α := Function.update (Function.update a max (a i)) i (a max)

/-- The rounds from `i` on, of which there are so many left. -/
def rounds (n : ℕ) : ℕ → ℕ → ℕ → (ℕ → α) → ℕ → α
  | 0, _, _, a => a
  | left + 1, i, max, a =>
      let max := scan key a (n - (i + 1)) (i + 1) max
      rounds n left (i + 1) max (if i ≠ max then exchange a i max else a)

/-- The first `n` entries, sorted. -/
def sort (n : ℕ) (a : ℕ → α) : ℕ → α := rounds key n (n - 1) 0 0 a

/-- The place of the greatest entry from `i` on. -/
def greatest (n : ℕ) (a : ℕ → α) (i : ℕ) : ℕ := scan key a (n - (i + 1)) (i + 1) i

/-- In no round the greatest of the entries that are left is the first of them; in the last round it
    may be, if it has just been put there. -/
def InTurn (n : ℕ) : ℕ → ℕ → ℕ → (ℕ → α) → Prop
  | 0, _, _, _ => True
  | 1, i, max, a => greatest key n a i = i → max = i
  | left + 2, i, _, a =>
      greatest key n a i ≠ i ∧
        InTurn n (left + 1) (i + 1) (greatest key n a i) (exchange a i (greatest key n a i))

instance decidableInTurn (n : ℕ) :
    (left i max : ℕ) → (a : ℕ → α) → Decidable (InTurn key n left i max a)
  | 0, _, _, _ => instDecidableTrue
  | 1, _, _, _ => inferInstanceAs (Decidable (_ → _))
  | left + 2, i, _, a => @instDecidableAnd _ _ _
      (decidableInTurn n (left + 1) (i + 1) (greatest key n a i) (exchange a i (greatest key n a i)))

def Decreasing (n : ℕ) (a : ℕ → α) : Prop := ∀ p q, p < q → q < n → key (a q) < key (a p)

variable {key} {n left i j m p q t : ℕ} {a : ℕ → α}

/-! ## The entries stay the same -/

theorem exchange_eq (a : ℕ → α) (i m : ℕ) : exchange a i m = a ∘ Equiv.swap i m := by
  funext p
  rw [exchange, Function.comp_apply]
  by_cases first : p = i
  · rw [first, Function.update_self, Equiv.swap_apply_left]
  · rw [Function.update_of_ne first]
    by_cases second : p = m
    · rw [second, Function.update_self, Equiv.swap_apply_right]
    · rw [Function.update_of_ne second, Equiv.swap_apply_of_ne_of_ne first second]

theorem exchange_self (a : ℕ → α) (i : ℕ) : exchange a i i = a := by
  rw [exchange_eq, Equiv.swap_self]
  rfl

/-- One round, without the test. -/
theorem rounds_succ (n left i m : ℕ) (a : ℕ → α) :
    rounds key n (left + 1) i m a =
      rounds key n left (i + 1) (scan key a (n - (i + 1)) (i + 1) m)
        (exchange a i (scan key a (n - (i + 1)) (i + 1) m)) := by
  rw [rounds]
  by_cases same : i = scan key a (n - (i + 1)) (i + 1) m
  · simp only [ne_eq, ← same, not_true, if_false, exchange_self]
  · simp only [ne_eq, same, not_false_iff, if_true]

theorem exchange_perm (first : i < n) (second : m < n) :
    ((List.range n).map (exchange a i m)).Perm ((List.range n).map a) := by
  have swapped : ((List.range n).map (Equiv.swap i m)).Perm (List.range n) := by
    refine (List.perm_ext_iff_of_nodup ?_ List.nodup_range).mpr fun p => ?_
    · exact List.nodup_range.map (Equiv.swap i m).injective
    · have inside (p : ℕ) (lt : p < n) : Equiv.swap i m p < n := by
        rw [Equiv.swap_apply_def]
        split_ifs
        · exact second
        · exact first
        · exact lt
      rw [List.mem_map, List.mem_range]
      constructor
      · rintro ⟨q, mem, rfl⟩
        exact inside q (List.mem_range.mp mem)
      · intro lt
        exact ⟨Equiv.swap i m p, List.mem_range.mpr (inside p lt), Equiv.swap_apply_self i m p⟩
  rw [exchange_eq, ← List.map_map]
  exact swapped.map a

/-- The scan ends at an entry that it has seen, and none of these is greater. -/
theorem scan_spec (key : α → β) (a : ℕ → α) (left j m : ℕ) :
    (scan key a left j m = m ∨ j ≤ scan key a left j m ∧ scan key a left j m < j + left) ∧
      ∀ q, q = m ∨ j ≤ q ∧ q < j + left → key (a q) ≤ key (a (scan key a left j m)) := by
  induction left generalizing j m with
  | zero =>
      refine ⟨.inl rfl, fun q seen => ?_⟩
      obtain rfl : q = m := by omega
      exact le_refl _
  | succ left ih =>
      rw [scan]
      by_cases greater : key (a m) < key (a j)
      · rw [if_pos greater]
        obtain ⟨ends, most⟩ := ih (j + 1) j
        refine ⟨by omega, fun q seen => ?_⟩
        by_cases first : q = m
        · subst first
          exact (le_of_lt greater).trans (most j (.inl rfl))
        · exact most q (by omega)
      · rw [if_neg greater]
        obtain ⟨ends, most⟩ := ih (j + 1) m
        refine ⟨by omega, fun q seen => ?_⟩
        by_cases first : q = j
        · subst first
          exact (not_lt.mp greater).trans (most m (.inl rfl))
        · exact most q (by omega)

theorem scan_lt (key : α → β) (a : ℕ → α) (i : ℕ) (inside : m < n) : scan key a (n - (i + 1)) (i + 1) m < n := by
  have ends := (scan_spec key a (n - (i + 1)) (i + 1) m).1
  omega

theorem rounds_perm (enough : left + i < n) (inside : m < n) :
    ((List.range n).map (rounds key n left i m a)).Perm ((List.range n).map a) := by
  induction left generalizing i m a with
  | zero => exact List.Perm.refl _
  | succ left ih =>
      rw [rounds_succ]
      have next := scan_lt key a i inside
      exact (ih (by omega) next).trans (exchange_perm (by omega) next)

/-- The sort permutes the entries. -/
theorem sort_perm (key : α → β) (n : ℕ) (a : ℕ → α) :
    ((List.range n).map (sort key n a)).Perm ((List.range n).map a) := by
  cases n with
  | zero => exact List.Perm.refl _
  | succ n => exact rounds_perm (by omega) (Nat.zero_lt_succ n)

/-! ## When they are in decreasing order -/

/-- The entry at `m` is the greatest from `t` on. -/
def Top (key : α → β) (n t m : ℕ) (a : ℕ → α) : Prop :=
  ∀ p, t ≤ p → p < n → p ≠ m → key (a p) < key (a m)

/-- The greatest entry from `t` on is not at `t`, and does not get there any more. -/
structure Misplaced (key : α → β) (n t i m : ℕ) (a : ℕ → α) (x : ℕ) : Prop where
  behind : t < x
  inside : x < n
  passed : t < i
  carried : t ≤ m ∧ m < n
  settled : m = x ∨ x < i
  top : Top key n t x a

/-- An exchange moves the greatest entry along. -/
theorem Top.exchange {x : ℕ} (top : Top key n t x a) (first : t ≤ i ∧ i < n) (second : t ≤ m ∧ m < n) :
    Top key n t (Equiv.swap i m x) (exchange a i m) := by
  intro p least lt other
  rw [exchange_eq, Function.comp_apply, Function.comp_apply, Equiv.swap_apply_self]
  have moved : Equiv.swap i m p ≠ x := by
    rintro rfl
    exact other (Equiv.swap_apply_self i m p).symm
  have range : t ≤ Equiv.swap i m p ∧ Equiv.swap i m p < n := by
    rw [Equiv.swap_apply_def]
    split_ifs
    · exact second
    · exact first
    · exact ⟨least, lt⟩
  exact top _ range.1 range.2 moved

/-- The scan stays at the greatest entry. -/
theorem scan_top {x : ℕ} (top : Top key n t x a) (least : t ≤ j) (inside : x < n) :
    scan key a (n - j) j x = x := by
  obtain ⟨ends, most⟩ := scan_spec key a (n - j) j x
  by_contra other
  have less := top (scan key a (n - j) j x) (by omega) (by omega) other
  exact absurd (most x (.inl rfl)) (not_le.mpr less)

theorem Misplaced.round {x : ℕ} (misplaced : Misplaced key n t i m a x) (more : i < n) :
    ∃ x', Misplaced key n t (i + 1) (scan key a (n - (i + 1)) (i + 1) m)
      (CarriedSelection.exchange a i (scan key a (n - (i + 1)) (i + 1) m)) x' := by
  obtain ⟨behind, inside, passed, ⟨least, lt⟩, settled, top⟩ := misplaced
  have ends := (scan_spec key a (n - (i + 1)) (i + 1) m).1
  by_cases carried : m = x
  · -- the greatest entry is put at `i`
    subst carried
    rw [scan_top top (by omega) lt]
    refine ⟨i, passed, more, by omega, ⟨least, lt⟩, .inr (Nat.lt_succ_self i), ?_⟩
    have moved := top.exchange ⟨by omega, more⟩ ⟨least, lt⟩
    rwa [Equiv.swap_apply_right] at moved
  · have before : x < i := settled.resolve_left carried
    have next : t ≤ scan key a (n - (i + 1)) (i + 1) m ∧
        scan key a (n - (i + 1)) (i + 1) m < n := by omega
    refine ⟨x, behind, inside, by omega, next, .inr (by omega), ?_⟩
    have stays := top.exchange ⟨by omega, more⟩ next
    rwa [Equiv.swap_apply_of_ne_of_ne (by omega) (by omega)] at stays

/-- The entry at `t` is less than one behind it at the end, too. -/
theorem Misplaced.not_decreasing {x : ℕ} (misplaced : Misplaced key n t i m a x)
    (enough : left + i < n + 1) : ¬Decreasing key n (CarriedSelection.rounds key n left i m a) := by
  induction left generalizing i m a x with
  | zero =>
      intro decreasing
      have less := misplaced.top t (Nat.le_refl t) (misplaced.behind.trans misplaced.inside)
        (Nat.ne_of_lt misplaced.behind)
      exact absurd (decreasing t x misplaced.behind misplaced.inside) (not_lt.mpr (le_of_lt less))
  | succ left ih =>
      rw [rounds_succ]
      obtain ⟨x', later⟩ := misplaced.round (by omega)
      exact ih later (by omega)

/-- The first entries are in their places. -/
structure Placed (key : α → β) (n i m : ℕ) (a : ℕ → α) : Prop where
  carried : i ≤ m ∧ m < n
  first : ∀ p q, p < i → p < q → q < n → key (a q) < key (a p)
  distinct : ∀ p q, p < n → q < n → key (a p) = key (a q) → p = q

theorem greatest_spec (placed : Placed key n i m a) :
    (i ≤ greatest key n a i ∧ greatest key n a i < n) ∧ Top key n i (greatest key n a i) a := by
  obtain ⟨⟨least, lt⟩, _, distinct⟩ := placed
  obtain ⟨ends, most⟩ := scan_spec key a (n - (i + 1)) (i + 1) i
  rw [greatest]
  have range : i ≤ scan key a (n - (i + 1)) (i + 1) i ∧ scan key a (n - (i + 1)) (i + 1) i < n := by
    omega
  refine ⟨range, fun p from' inside other => lt_of_le_of_ne (most p (by omega)) fun same => ?_⟩
  exact other (distinct p _ inside range.2 same)

/-- The scan finds the greatest entry if that is not the one it does not look at. -/
theorem scan_eq_greatest (placed : Placed key n i m a) (seen : greatest key n a i ≠ i ∨ m = i) :
    scan key a (n - (i + 1)) (i + 1) m = greatest key n a i := by
  by_cases first : m = i
  · rw [first, greatest]
  · obtain ⟨range, top⟩ := greatest_spec placed
    have carried := placed.carried
    have behind := seen.resolve_right first
    obtain ⟨ends, most⟩ := scan_spec key a (n - (i + 1)) (i + 1) m
    by_contra other
    have less := top (scan key a (n - (i + 1)) (i + 1) m) (by omega) (by omega) other
    exact absurd (most (greatest key n a i) (by omega)) (not_le.mpr less)

theorem swap_range (first : i < n) (second : t ≤ i ∧ t ≤ m ∧ m < n) (inside : t ≤ p ∧ p < n) :
    t ≤ Equiv.swap i m p ∧ Equiv.swap i m p < n := by
  rw [Equiv.swap_apply_def]
  split_ifs
  · exact second.2
  · exact ⟨second.1, first⟩
  · exact inside

/-- With the greatest entry at `i`, one more is in its place. -/
theorem Placed.first_exchange (placed : Placed key n i m a) (inside : p < i + 1) (lt : p < q)
    (lt' : q < n) : key (exchange a i (greatest key n a i) q) <
      key (exchange a i (greatest key n a i) p) := by
  obtain ⟨range, top⟩ := greatest_spec placed
  have here : i < n := range.1.trans_lt range.2
  by_cases last : p = i
  · subst last
    have moved := top.exchange ⟨Nat.le_refl p, here⟩ range
    rw [Equiv.swap_apply_right] at moved
    exact moved q (Nat.le_of_lt lt) lt' (Nat.ne_of_gt lt)
  · have stays : Equiv.swap i (greatest key n a i) p = p :=
      Equiv.swap_apply_of_ne_of_ne last (by omega)
    have later := swap_range (t := p + 1) (m := greatest key n a i) here (by omega) ⟨lt, lt'⟩
    rw [exchange_eq, Function.comp_apply, Function.comp_apply, stays]
    exact placed.first p _ (by omega) later.1 later.2

theorem Placed.next (placed : Placed key n i m a) (behind : greatest key n a i ≠ i) :
    Placed key n (i + 1) (greatest key n a i) (exchange a i (greatest key n a i)) := by
  obtain ⟨range, _⟩ := greatest_spec placed
  refine ⟨by omega, fun p q inside lt lt' => placed.first_exchange inside lt lt',
    fun p q inside inside' same => ?_⟩
  rw [exchange_eq, Function.comp_apply, Function.comp_apply] at same
  have within (p : ℕ) (lt : p < n) : Equiv.swap i (greatest key n a i) p < n :=
    (swap_range (t := 0) (range.1.trans_lt range.2) (by omega) ⟨Nat.zero_le p, lt⟩).2
  exact (Equiv.swap _ _).injective (placed.distinct _ _ (within p inside) (within q inside') same)

/-- The greatest entry is the first of those that are left, and another one is taken for it. -/
theorem Placed.misplaced (placed : Placed key n i m a) (more : i + 1 < n)
    (here : greatest key n a i = i) (other : m ≠ i) :
    ∃ x, Misplaced key n i (i + 1) (scan key a (n - (i + 1)) (i + 1) m)
      (exchange a i (scan key a (n - (i + 1)) (i + 1) m)) x := by
  obtain ⟨range, top⟩ := greatest_spec placed
  have carried := placed.carried
  have ends := (scan_spec key a (n - (i + 1)) (i + 1) m).1
  rw [here] at top
  have moved := top.exchange (i := i) (m := scan key a (n - (i + 1)) (i + 1) m)
    ⟨Nat.le_refl i, by omega⟩ (by omega)
  rw [Equiv.swap_apply_left] at moved
  exact ⟨_, by omega, by omega, Nat.lt_succ_self i, by omega, .inl rfl, moved⟩

/-- The greatest entry is the first of those that are left, and the next round takes it away. -/
theorem Placed.taken (placed : Placed key n i i a) (more : i + 1 < n)
    (here : greatest key n a i = i) :
    scan key a (n - (i + 1 + 1)) (i + 1 + 1) i = i ∧
      Misplaced key n i (i + 1 + 1) i (exchange a (i + 1) i) (i + 1) := by
  obtain ⟨range, top⟩ := greatest_spec placed
  rw [here] at top
  have moved := top.exchange (i := i + 1) (m := i) ⟨Nat.le_succ i, more⟩ ⟨Nat.le_refl i, by omega⟩
  rw [Equiv.swap_apply_right] at moved
  exact ⟨scan_top top (by omega) (by omega),
    Nat.lt_succ_self i, more, by omega, by omega, .inr (Nat.lt_succ_self _), moved⟩

theorem rounds_decreasing_iff (placed : Placed key n i m a) (all : left + i + 1 = n) :
    Decreasing key n (rounds key n left i m a) ↔ InTurn key n left i m a := by
  induction left using Nat.twoStepInduction generalizing i m a with
  | zero => exact iff_of_true (fun p q lt inside => placed.first p q (by omega) lt inside) trivial
  | one =>
      rw [rounds_succ, InTurn]
      by_cases seen : greatest key n a i = i → m = i
      · refine iff_of_true (fun p q lt inside => ?_) seen
        rw [rounds,
          scan_eq_greatest placed (or_iff_not_imp_left.mpr fun here => seen (not_not.mp here))]
        exact placed.first_exchange (by omega) lt inside
      · refine iff_of_false ?_ seen
        obtain ⟨here, other⟩ := Classical.not_imp.mp seen
        obtain ⟨x, misplaced⟩ := placed.misplaced (by omega) here other
        exact misplaced.not_decreasing (by omega)
  | more left _ ih =>
      rw [rounds_succ, InTurn]
      by_cases here : greatest key n a i = i
      · refine iff_of_false ?_ fun inTurn => inTurn.1 here
        by_cases first : m = i
        · subst first
          obtain ⟨stays, misplaced⟩ := placed.taken (by omega) here
          rw [scan_eq_greatest placed (.inr rfl), here, exchange_self, rounds_succ, stays]
          exact misplaced.not_decreasing (by omega)
        · obtain ⟨x, misplaced⟩ := placed.misplaced (by omega) here first
          exact misplaced.not_decreasing (by omega)
      · rw [scan_eq_greatest placed (.inl here), ih (placed.next here) (by omega)]
        exact (and_iff_right here).symm

/-- The sort puts different entries in decreasing order just when they come in turn. -/
theorem sort_decreasing_iff (key : α → β)
    (distinct : ∀ p q, p < n → q < n → key (a p) = key (a q) → p = q) :
    Decreasing key n (sort key n a) ↔ InTurn key n (n - 1) 0 0 a := by
  cases n with
  | zero => exact iff_of_true (fun p q _ inside => absurd inside (Nat.not_lt_zero q)) trivial
  | succ n =>
      have placed : Placed key (n + 1) 0 0 a :=
        ⟨⟨Nat.le_refl 0, Nat.zero_lt_succ n⟩, fun p _ lt => absurd lt (Nat.not_lt_zero p), distinct⟩
      exact rounds_decreasing_iff placed (by omega)

end CarriedSelection
