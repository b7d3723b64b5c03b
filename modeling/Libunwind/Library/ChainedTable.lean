import Mathlib

/-! # Chained tables

A table whose slots head chains of cells, each of which names the next. A chain
is spelled out by the list of its cells; it is acyclic because it is finite. A
table is keyed when a cell is in the chain of its own slot and in no other.
-/

namespace Libunwind.ChainedTable

variable {σ α : Type}

/-! ## Chains -/

/-- The cells from `a` on, up to the first that ends a chain. -/
inductive Chain (next : α → α) (ends : α → Prop) : α → List α → Prop where
  | nil {a : α} : ends a → Chain next ends a []
  | cons {a : α} {rest : List α} :
      ¬ ends a → Chain next ends (next a) rest → Chain next ends a (a :: rest)

namespace Chain

variable {next next' : α → α} {ends : α → Prop} {a x y : α} {cells : List α}

theorem unique (chain : Chain next ends a cells) {cells' : List α}
    (other : Chain next ends a cells') : cells = cells' := by
  induction chain generalizing cells' with
  | nil stops =>
      cases other with
      | nil _ => rfl
      | cons goes _ => exact absurd stops goes
  | cons goes _ ih =>
      cases other with
      | nil stops => exact absurd stops goes
      | cons _ rest => rw [ih rest]

theorem cons_iff : Chain next ends a (x :: cells) ↔
    a = x ∧ ¬ ends x ∧ Chain next ends (next x) cells := by
  constructor
  · intro chain
    cases chain with
    | cons goes rest => exact ⟨rfl, goes, rest⟩
  · rintro ⟨rfl, goes, rest⟩
    exact .cons goes rest

theorem not_ends (chain : Chain next ends a cells) : ∀ x ∈ cells, ¬ ends x := by
  induction chain with
  | nil _ => exact fun x member => absurd member List.not_mem_nil
  | cons goes _ ih => exact List.forall_mem_cons.mpr ⟨goes, ih⟩

/-- A chain goes on from each of its cells. -/
theorem suffix {before after : List α} (chain : Chain next ends a (before ++ x :: after)) :
    Chain next ends x (x :: after) := by
  induction before generalizing a with
  | nil =>
      cases chain with
      | cons goes rest => exact .cons goes rest
  | cons b before ih =>
      cases chain with
      | cons _ rest => exact ih rest

/-- A chain that came back to one of its cells would not end. -/
theorem nodup (chain : Chain next ends a cells) : cells.Nodup := by
  induction chain with
  | nil _ => exact List.nodup_nil
  | @cons a rest goes tail ih =>
      refine List.nodup_cons.mpr ⟨fun again => ?_, ih⟩
      obtain ⟨before, after, rfl⟩ := List.append_of_mem again
      have same := (Chain.cons goes tail).unique tail.suffix
      have := congrArg List.length same
      simp only [List.length_cons, List.length_append] at this
      omega

/-- Only the cells of a chain matter to it. -/
theorem congr (chain : Chain next ends a cells) (same : ∀ x ∈ cells, next' x = next x) :
    Chain next' ends a cells := by
  induction chain with
  | nil stops => exact .nil stops
  | cons goes _ ih =>
      rw [List.forall_mem_cons] at same
      refine .cons goes ?_
      rw [same.1]
      exact ih same.2

/-- A chain that agrees with another as far as one of its cells has that cell. -/
theorem mem_of_agree {before after cells' : List α}
    (chain : Chain next ends a (before ++ x :: after)) (other : Chain next' ends a cells')
    (same : ∀ y ∈ before, next' y = next y) : x ∈ cells' := by
  induction before generalizing a cells' with
  | nil =>
      obtain ⟨rfl, goes, -⟩ := cons_iff.mp chain
      cases other with
      | nil stops => exact absurd stops goes
      | cons _ _ => exact List.mem_cons_self
  | cons b before ih =>
      obtain ⟨rfl, goes, rest⟩ := cons_iff.mp chain
      rw [List.forall_mem_cons] at same
      cases other with
      | nil stops => exact absurd stops goes
      | cons _ rest' =>
          rw [same.1] at rest'
          exact List.mem_cons_of_mem _ (ih rest rest' same.2)

variable [DecidableEq α]

/-- A write to a cell outside a chain. -/
theorem update_of_not_mem (chain : Chain next ends a cells) (outside : x ∉ cells) (b : α) :
    Chain (Function.update next x b) ends a cells :=
  chain.congr fun y member =>
    Function.update_of_ne (fun same => outside (by rwa [same] at member)) b next

/-- Passing over a cell from the one before it. -/
theorem skip {before after : List α}
    (chain : Chain next ends a (before ++ y :: x :: after)) :
    Chain (Function.update next y (next x)) ends a (before ++ y :: after) := by
  induction before generalizing a with
  | nil =>
      have distinct := chain.nodup
      cases chain with
      | cons goes tail =>
          cases tail with
          | cons _ rest =>
              have outside : y ∉ after := by
                simp only [List.nil_append, List.nodup_cons, List.mem_cons, not_or] at distinct
                exact distinct.1.2
              refine .cons goes ?_
              rw [Function.update_self]
              exact rest.update_of_not_mem outside _
  | cons b before ih =>
      have distinct := chain.nodup
      cases chain with
      | cons goes tail =>
          have other : b ≠ y := by
            rintro rfl
            simp at distinct
          refine .cons goes ?_
          rw [Function.update_of_ne other]
          exact ih tail

end Chain

/-- A chain of numbers below a bound is no longer than the bound. -/
theorem Chain.length_le {next : ℕ → ℕ} {size a : ℕ} {cells : List ℕ}
    (chain : Chain next (size ≤ ·) a cells) : cells.length ≤ size := by
  have within : cells ⊆ List.range size := fun x member =>
    List.mem_range.mpr (not_le.mp (chain.not_ends x member))
  simpa using (chain.nodup.subperm within).length_le

/-! ## Tables -/

/-- The chain of each slot has the cells of that slot; a cell of no slot is in no
    chain. -/
def Keyed (ends : α → Prop) (heads : σ → α) (next : α → α) (slotOf : α → Option σ) : Prop :=
  ∀ slot, ∃ cells, Chain next ends (heads slot) cells ∧ ∀ x, x ∈ cells ↔ slotOf x = some slot

theorem Keyed.of_empty {ends : α → Prop} {heads : σ → α} {next : α → α} {slotOf : α → Option σ}
    (stops : ∀ slot, ends (heads slot)) (free : ∀ x, slotOf x = none) :
    Keyed ends heads next slotOf := by
  intro slot
  refine ⟨[], .nil (stops slot), fun x => ?_⟩
  simp [free x]

namespace Keyed

variable {ends : α → Prop} {heads : σ → α} {next : α → α} {slotOf : α → Option σ} {slot : σ}
  {x y : α}

/-- A cell is in no chain but its own slot's. -/
theorem not_mem (keyed : Keyed ends heads next slotOf) {other : σ} {cells : List α}
    (chain : Chain next ends (heads other) cells) (elsewhere : slotOf x ≠ some other) :
    x ∉ cells := by
  obtain ⟨cells', chain', mem⟩ := keyed other
  rw [chain.unique chain', mem]
  exact elsewhere

variable [DecidableEq σ] [DecidableEq α]

/-- Takes the first cell of a chain out. -/
theorem removeFirst (keyed : Keyed ends heads next slotOf) (mine : slotOf x = some slot)
    (first : heads slot = x) :
    Keyed ends (Function.update heads slot (next x)) next (Function.update slotOf x none) := by
  intro other
  obtain ⟨cells, chain, mem⟩ := keyed other
  by_cases same : other = slot
  · subst same
    have member : x ∈ cells := (mem x).mpr mine
    cases chain with
    | nil _ => exact absurd member List.not_mem_nil
    | @cons _ rest goes tail =>
        have distinct := List.nodup_cons.mp (Chain.cons goes tail).nodup
        refine ⟨rest, ?_, fun z => ?_⟩
        · rw [Function.update_self, ← first]
          exact tail
        · by_cases isX : z = x
          · subst isX
            simpa [first] using distinct.1
          · rw [Function.update_of_ne isX, ← mem z, List.mem_cons, first]
            simp [isX]
  · refine ⟨cells, by rwa [Function.update_of_ne same], fun z => ?_⟩
    by_cases isX : z = x
    · subst isX
      have elsewhere : slotOf z ≠ some other := by
        rw [mine]
        exact fun eq => same (Option.some.inj eq).symm
      simpa using keyed.not_mem chain elsewhere
    · rw [Function.update_of_ne isX, mem z]

/-- Takes a cell out of a chain by its predecessor. -/
theorem removeAfter (keyed : Keyed ends heads next slotOf) {before after : List α}
    (chain : Chain next ends (heads slot) (before ++ y :: x :: after)) :
    Keyed ends heads (Function.update next y (next x)) (Function.update slotOf x none) := by
  obtain ⟨cells, chain', memSlot⟩ := keyed slot
  obtain rfl := chain.unique chain'
  have mineX : slotOf x = some slot := (memSlot x).mp (by simp)
  have mineY : slotOf y = some slot := (memSlot y).mp (by simp)
  intro other
  by_cases same : other = slot
  · subst same
    refine ⟨before ++ y :: after, chain.skip, fun z => ?_⟩
    have distinct := chain.nodup
    by_cases isX : z = x
    · subst isX
      have outside : z ∉ before ++ y :: after := by
        have moved : (before ++ y :: z :: after).Perm (z :: (before ++ y :: after)) :=
          (List.perm_middle.trans (List.Perm.cons y List.perm_middle)).trans
            ((List.Perm.swap z y _).trans (List.Perm.cons z List.perm_middle.symm))
        exact (List.nodup_cons.mp (moved.nodup_iff.mp distinct)).1
      simpa using outside
    · rw [Function.update_of_ne isX, ← memSlot z]
      simp [isX]
  · obtain ⟨cells, otherChain, mem⟩ := keyed other
    have elsewhere : ∀ z, slotOf z = some slot → slotOf z ≠ some other := fun z mine eq =>
      same (Option.some.inj (eq.symm.trans mine))
    refine ⟨cells, otherChain.update_of_not_mem (keyed.not_mem otherChain (elsewhere y mineY)) _,
      fun z => ?_⟩
    by_cases isX : z = x
    · subst isX
      simpa using keyed.not_mem otherChain (elsewhere z mineX)
    · rw [Function.update_of_ne isX, mem z]

/-- Puts a cell that is in no chain at the front of one. -/
theorem addFirst (keyed : Keyed ends heads next slotOf) (free : slotOf x = none)
    (inner : ¬ ends x) (slot : σ) :
    Keyed ends (Function.update heads slot x) (Function.update next x (heads slot))
      (Function.update slotOf x (some slot)) := by
  intro other
  obtain ⟨cells, chain, mem⟩ := keyed other
  have outside : x ∉ cells := keyed.not_mem chain (by simp [free])
  by_cases same : other = slot
  · subst same
    refine ⟨x :: cells, ?_, fun z => ?_⟩
    · rw [Function.update_self]
      refine .cons inner ?_
      rw [Function.update_self]
      exact chain.update_of_not_mem outside _
    · by_cases isX : z = x
      · simp [isX]
      · rw [Function.update_of_ne isX, ← mem z]
        simp [isX]
  · refine ⟨cells, ?_, fun z => ?_⟩
    · rw [Function.update_of_ne same]
      exact chain.update_of_not_mem outside _
    · by_cases isX : z = x
      · subst isX
        simpa [Ne.symm same] using outside
      · rw [Function.update_of_ne isX, mem z]

end Keyed

end Libunwind.ChainedTable
