import Mathlib

/-! # Pools with a ledger

Records that are taken from a pool and returned to it. A record is numbered when it is taken, and no
number is given twice, so that following a link to a record that was returned, or returning it again,
does not go unnoticed. The ledger has every return.
-/

namespace Ledger

variable {α : Type*}

/-- The records of a pool. The number 0 is no record. -/
structure Pool (α : Type*) where
  /-- What the records hold that are out. -/
  cells : ℕ → Option α
  taken : ℕ
  returned : List ℕ
  null : cells 0 = none
  untaken : ∀ i, taken < i → cells i = none ∧ i ∉ returned
  /-- A record is out, or it was returned once. -/
  once : ∀ i, 0 < i → i ≤ taken → returned.count i = if (cells i).isSome then 0 else 1

namespace Pool

variable (pool : Pool α) {i : ℕ} {a b : α}

/-- A pool no record of which was taken. -/
def empty : Pool α where
  cells _ := none
  taken := 0
  returned := []
  null := rfl
  untaken _ _ := ⟨rfl, List.not_mem_nil⟩
  once _ pos le := absurd le (Nat.not_le_of_lt pos)

/-- The number of the record that is taken next. -/
def fresh : ℕ := pool.taken + 1

theorem fresh_ne_zero : pool.fresh ≠ 0 := Nat.succ_ne_zero _

theorem cells_fresh : pool.cells pool.fresh = none := (pool.untaken _ (Nat.lt_succ_self _)).1

variable {pool}

theorem ne_zero_of_cells (holds : pool.cells i = some a) : i ≠ 0 := by
  rintro rfl
  exact nomatch holds.symm.trans pool.null

theorem le_taken_of_cells (holds : pool.cells i = some a) : i ≤ pool.taken := by
  by_contra behind
  exact nomatch holds.symm.trans (pool.untaken i (Nat.lt_of_not_le behind)).1

theorem ne_fresh_of_cells (holds : pool.cells i = some a) : i ≠ pool.fresh := by
  rintro rfl
  exact nomatch holds.symm.trans pool.cells_fresh

variable (pool)

/-- The pool after a record was taken and `a` stored in it. -/
def take (a : α) : Pool α where
  cells := Function.update pool.cells pool.fresh (some a)
  taken := pool.taken + 1
  returned := pool.returned
  null := by
    rw [Function.update_of_ne pool.fresh_ne_zero.symm]
    exact pool.null
  untaken i behind := by
    have other : i ≠ pool.fresh := by
      rw [fresh]
      omega
    rw [Function.update_of_ne other]
    exact pool.untaken i (Nat.lt_of_succ_lt behind)
  once i pos le := by
    by_cases new : i = pool.fresh
    · subst new
      rw [Function.update_self]
      exact List.count_eq_zero.mpr (pool.untaken _ (Nat.lt_succ_self _)).2
    · rw [Function.update_of_ne new]
      exact pool.once i pos (by rw [fresh] at new; omega)

/-- A record that is out is written to. -/
def write (i : ℕ) (b : α) (out : (pool.cells i).isSome) : Pool α where
  cells := Function.update pool.cells i (some b)
  taken := pool.taken
  returned := pool.returned
  null := by
    obtain ⟨a, holds⟩ := Option.isSome_iff_exists.mp out
    rw [Function.update_of_ne (ne_zero_of_cells holds).symm]
    exact pool.null
  untaken j behind := by
    obtain ⟨a, holds⟩ := Option.isSome_iff_exists.mp out
    have other : j ≠ i := (Nat.lt_of_le_of_lt (le_taken_of_cells holds) behind).ne'
    rw [Function.update_of_ne other]
    exact pool.untaken j behind
  once j pos le := by
    by_cases here : j = i
    · subst here
      rw [Function.update_self, pool.once j pos le, if_pos out]
      rfl
    · rw [Function.update_of_ne here]
      exact pool.once j pos le

/-- A record that is out is returned. -/
def giveBack (i : ℕ) (out : (pool.cells i).isSome) : Pool α where
  cells := Function.update pool.cells i none
  taken := pool.taken
  returned := i :: pool.returned
  null := by
    by_cases here : 0 = i
    · rw [here, Function.update_self]
    · rw [Function.update_of_ne here]
      exact pool.null
  untaken j behind := by
    obtain ⟨a, holds⟩ := Option.isSome_iff_exists.mp out
    have other : j ≠ i := (Nat.lt_of_le_of_lt (le_taken_of_cells holds) behind).ne'
    obtain ⟨isNone, notReturned⟩ := pool.untaken j behind
    rw [Function.update_of_ne other]
    exact ⟨isNone, fun member => notReturned (List.mem_of_ne_of_mem other member)⟩
  once j pos le := by
    by_cases here : j = i
    · subst here
      rw [Function.update_self, List.count_cons_self, pool.once j pos le, if_pos out]
      rfl
    · rw [Function.update_of_ne here, List.count_cons_of_ne (Ne.symm here)]
      exact pool.once j pos le

variable {pool} {out : (pool.cells i).isSome}

@[simp] theorem cells_take :
    (pool.take a).cells = Function.update pool.cells pool.fresh (some a) := rfl

@[simp] theorem cells_write :
    (pool.write i b out).cells = Function.update pool.cells i (some b) := rfl

@[simp] theorem cells_giveBack :
    (pool.giveBack i out).cells = Function.update pool.cells i none := rfl

/-- Where the same records are out as before, each that was taken since was returned once. -/
theorem returned_once {later : Pool α} (same : later.cells = pool.cells) {i : ℕ}
    (since : pool.taken < i) (isTaken : i ≤ later.taken) : later.returned.count i = 1 := by
  rw [later.once i (Nat.zero_lt_of_lt since) isTaken, same, (pool.untaken i since).1]
  rfl

end Pool

/-! ## Chains of records -/

variable {next : α → ℕ} {cells cells' : ℕ → Option α} {head last i : ℕ} {is js : List ℕ} {a b : α}

/-- From `head`, the links of the records lead through these to `last`. -/
def Segment (next : α → ℕ) (cells : ℕ → Option α) : ℕ → List ℕ → ℕ → Prop
  | head, [], last => head = last
  | head, i :: is, last => head = i ∧ ∃ a, cells i = some a ∧ Segment next cells (next a) is last

/-- They lead to no record. -/
abbrev Chain (next : α → ℕ) (cells : ℕ → Option α) (head : ℕ) (is : List ℕ) : Prop :=
  Segment next cells head is 0

namespace Segment

theorem congr (segment : Segment next cells head is last)
    (same : ∀ i ∈ is, cells' i = cells i) : Segment next cells' head is last := by
  induction is generalizing head with
  | nil => exact segment
  | cons i is ih =>
      obtain ⟨isHead, a, holds, rest⟩ := segment
      refine ⟨isHead, a, ?_, ih rest fun j member => same j (List.mem_cons_of_mem i member)⟩
      rw [same i List.mem_cons_self]
      exact holds

theorem out (segment : Segment next cells head is last) : ∀ i ∈ is, ∃ a, cells i = some a := by
  induction is generalizing head with
  | nil => exact fun i member => nomatch member
  | cons j is ih =>
      obtain ⟨-, a, holds, rest⟩ := segment
      intro i member
      cases List.mem_cons.mp member with
      | inl first => exact ⟨a, first ▸ holds⟩
      | inr behind => exact ih rest i behind

/-- Nothing is written to a segment when something else is. -/
theorem update (segment : Segment next cells head is last) (other : i ∉ is) (new : Option α) :
    Segment next (Function.update cells i new) head is last := by
  refine segment.congr fun j member => Function.update_of_ne ?_ _ _
  rintro rfl
  exact other member

theorem append (segment : Segment next cells head is i) (behind : Segment next cells i js last) :
    Segment next cells head (is ++ js) last := by
  induction is generalizing head with
  | nil => exact segment ▸ behind
  | cons j is ih =>
      obtain ⟨isHead, a, holds, rest⟩ := segment
      exact ⟨isHead, a, holds, ih rest⟩

/-- The last record of a segment is linked to something else. -/
theorem setLast (segment : Segment next cells head (is ++ [i]) last) (nodup : (is ++ [i]).Nodup)
    (b : α) : Segment next (Function.update cells i (some b)) head (is ++ [i]) (next b) := by
  induction is generalizing head with
  | nil => exact ⟨segment.1, b, Function.update_self .., rfl⟩
  | cons j is ih =>
      obtain ⟨isHead, a, holds, rest⟩ := segment
      obtain ⟨first, behind⟩ := List.nodup_cons.mp nodup
      have other : j ≠ i := fun same => first (same ▸ List.mem_append_right is List.mem_cons_self)
      refine ⟨isHead, a, ?_, ih rest behind⟩
      rw [Function.update_of_ne other]
      exact holds

/-- The record at the front of a chain, and the chain behind it. -/
theorem uncons (chain : Chain next cells head is) (real : head ≠ 0) :
    ∃ a rest, is = head :: rest ∧ cells head = some a ∧ Chain next cells (next a) rest := by
  cases is with
  | nil => exact absurd chain real
  | cons i rest =>
      obtain ⟨rfl, a, holds, behind⟩ := chain
      exact ⟨a, rest, rfl, holds, behind⟩

end Segment

theorem chain_nil_of_zero {pool : Pool α} (chain : Chain next pool.cells 0 is) : is = [] := by
  cases is with
  | nil => rfl
  | cons i is =>
      obtain ⟨rfl, a, holds, -⟩ := chain
      exact absurd rfl (Pool.ne_zero_of_cells holds)

/-- A segment without repetition is not longer than the pool. -/
theorem Segment.length_le {pool : Pool α} (segment : Segment next pool.cells head is last)
    (nodup : is.Nodup) : is.length ≤ pool.taken := by
  have within : is.toFinset ⊆ Finset.Icc 1 pool.taken := by
    intro i member
    obtain ⟨a, holds⟩ := segment.out i (List.mem_toFinset.mp member)
    exact Finset.mem_Icc.mpr ⟨Nat.pos_of_ne_zero (Pool.ne_zero_of_cells holds),
      Pool.le_taken_of_cells holds⟩
  have := Finset.card_le_card within
  rwa [List.toFinset_card_of_nodup nodup, Nat.card_Icc, Nat.add_sub_cancel] at this

/-! ## What is out -/

/-- The records that are out after are those that were out before, as they were, and these. -/
structure Accounts (before after : ℕ → Option α) (ids : List ℕ) : Prop where
  new : ∀ i ∈ ids, before i = none
  held : ∀ i ∈ ids, ∃ a, after i = some a
  rest : ∀ i, i ∉ ids → after i = before i

/-- These records were returned. -/
structure Frees (before after : ℕ → Option α) (ids : List ℕ) : Prop where
  gone : ∀ i ∈ ids, after i = none
  rest : ∀ i, i ∉ ids → after i = before i

variable {before after later : ℕ → Option α} {ids others : List ℕ}

namespace Frees

theorem refl (cells : ℕ → Option α) : Frees cells cells [] where
  gone _ member := nomatch member
  rest _ _ := rfl

theorem giveBack {pool : Pool α} {i : ℕ} (out : (pool.cells i).isSome) :
    Frees pool.cells (pool.giveBack i out).cells [i] where
  gone j member := by
    rw [List.mem_singleton.mp member]
    exact Function.update_self ..
  rest _ other := Function.update_of_ne (fun same => other (List.mem_singleton.mpr same)) _ _

theorem trans (frees : Frees before after ids) (more : Frees after later others) :
    Frees before later (ids ++ others) where
  gone i member := by
    by_cases also : i ∈ others
    · exact more.gone i also
    · rw [more.rest i also]
      exact frees.gone i ((List.mem_append.mp member).resolve_right also)
  rest i other := by
    rw [List.mem_append, not_or] at other
    rw [more.rest i other.2, frees.rest i other.1]

end Frees

namespace Accounts

theorem refl (cells : ℕ → Option α) : Accounts cells cells [] where
  new _ member := nomatch member
  held _ member := nomatch member
  rest _ _ := rfl

theorem eq (accounts : Accounts before after []) : after = before :=
  funext fun i => accounts.rest i List.not_mem_nil

theorem congr (accounts : Accounts before after ids) (same : ∀ i, i ∈ others ↔ i ∈ ids) :
    Accounts before after others :=
  ⟨fun i member => accounts.new i ((same i).mp member),
    fun i member => accounts.held i ((same i).mp member),
    fun i other => accounts.rest i fun member => other ((same i).mpr member)⟩

/-- Records that are out stay as they are when more are taken. -/
theorem not_mem_of_out {a : α} {i : ℕ} (accounts : Accounts before after ids)
    (out : before i = some a) : i ∉ ids := fun member =>
  nomatch out.symm.trans (accounts.new i member)

theorem out {a : α} {i : ℕ} (accounts : Accounts before after ids) (out : before i = some a) :
    after i = some a := (accounts.rest i (accounts.not_mem_of_out out)).trans out

/-- What is taken later comes on top. -/
theorem trans (accounts : Accounts before after ids) (more : Accounts after later others) :
    Accounts before later (others ++ ids) where
  new i member := by
    by_cases here : i ∈ ids
    · exact accounts.new i here
    · rw [← accounts.rest i here]
      exact more.new i ((List.mem_append.mp member).resolve_right here)
  held i member := by
    cases List.mem_append.mp member with
    | inl new => exact more.held i new
    | inr old =>
        obtain ⟨a, out⟩ := accounts.held i old
        exact ⟨a, more.out out⟩
  rest i other := by
    rw [List.mem_append, not_or] at other
    rw [more.rest i other.1, accounts.rest i other.2]

theorem take (pool : Pool α) (a : α) : Accounts pool.cells (pool.take a).cells [pool.fresh] where
  new i member := by
    rw [List.mem_singleton.mp member]
    exact pool.cells_fresh
  held i member := by
    rw [List.mem_singleton.mp member]
    exact ⟨a, Function.update_self ..⟩
  rest i other := Function.update_of_ne (fun same => other (List.mem_singleton.mpr same)) _ _

theorem free (accounts : Accounts before after (ids ++ others)) (freed : Frees after later ids)
    (disjoint : ∀ i ∈ others, i ∉ ids) : Accounts before later others where
  new i member := accounts.new i (List.mem_append_right ids member)
  held i member := by
    rw [freed.rest i (disjoint i member)]
    exact accounts.held i (List.mem_append_right ids member)
  rest i other := by
    by_cases here : i ∈ ids
    · rw [freed.gone i here, accounts.new i (List.mem_append_left others here)]
    · rw [freed.rest i here]
      exact accounts.rest i (List.not_mem_append here other)

/-- A record that was taken since may be written to. -/
theorem update {i : ℕ} (accounts : Accounts before after ids) (member : i ∈ ids) (b : α) :
    Accounts before (Function.update after i (some b)) ids where
  new := accounts.new
  held j member' := by
    by_cases here : j = i
    · exact ⟨b, here ▸ Function.update_self ..⟩
    · rw [Function.update_of_ne here]
      exact accounts.held j member'
  rest j other := by
    have different : j ≠ i := fun same => other (same ▸ member)
    rw [Function.update_of_ne different]
    exact accounts.rest j other

end Accounts

theorem Segment.accounts (segment : Segment next before head is last)
    (accounts : Accounts before after ids) : Segment next after head is last := by
  refine segment.congr fun i member => ?_
  obtain ⟨a, out⟩ := segment.out i member
  exact accounts.rest i (accounts.not_mem_of_out out)

theorem Segment.frees (segment : Segment next before head is last) (freed : Frees before after ids)
    (disjoint : ∀ i ∈ is, i ∉ ids) : Segment next after head is last :=
  segment.congr fun i member => freed.rest i (disjoint i member)

/-- What is out does not repeat what was taken since. -/
theorem Accounts.nodup (accounts : Accounts before after ids) (nodup : ids.Nodup)
    (others_nodup : others.Nodup) (out : ∀ i ∈ others, ∃ a, before i = some a) :
    (ids ++ others).Nodup := by
  refine List.nodup_append.mpr ⟨nodup, others_nodup, fun i member j old => ?_⟩
  rintro rfl
  obtain ⟨a, isOut⟩ := out i old
  exact accounts.not_mem_of_out isOut member

end Ledger
