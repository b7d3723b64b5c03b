import Mathlib

/-! # Updating an assignment in place

A simultaneous assignment gives every index a value or a copy of the old value
at some index. Running it one index after another, in place, copies values that
may have been overwritten. The rules below say exactly when that does no harm.
-/

namespace InPlace

variable {ι α : Type*}

/-- Where an index gets its new value from. An index that keeps its value copies
    itself. -/
inductive Source (ι α : Type*) where
  | value (a : α)
  | copy (r : ι)

def Source.fetch (assigned : ι → α) : Source ι α → α
  | .value a => a
  | .copy r => assigned r

def simultaneous (src : ι → Source ι α) (old : ι → α) : ι → α :=
  fun i => (src i).fetch old

/-- `r` comes before `i` in the order. -/
def Before (order : List ι) (r i : ι) : Prop :=
  ∃ before after, order = before ++ i :: after ∧ r ∈ before

variable [DecidableEq ι]

def sequential (src : ι → Source ι α) (order : List ι) (old : ι → α) : ι → α :=
  order.foldl (fun assigned i => Function.update assigned i ((src i).fetch assigned)) old

theorem sequential_append (src : ι → Source ι α) (first second : List ι) (old : ι → α) :
    sequential src (first ++ second) old = sequential src second (sequential src first old) :=
  List.foldl_append

/-- The frame rule: other indices keep their values. -/
theorem sequential_other {src : ι → Source ι α} {order : List ι} {old : ι → α} {i}
    (absent : i ∉ order) : sequential src order old i = old i := by
  induction order generalizing old with
  | nil => rfl
  | cons j rest ih =>
      have different := List.ne_of_not_mem_cons absent
      have later := List.not_mem_of_not_mem_cons absent
      rw [sequential, List.foldl_cons, ← sequential, ih later]
      exact Function.update_of_ne different _ _

/-- An index is written once, from what is there by then. -/
theorem sequential_at {src : ι → Source ι α} {before after : List ι} {old : ι → α} {i}
    (once : i ∉ after) :
    sequential src (before ++ i :: after) old i = (src i).fetch (sequential src before old) := by
  rw [sequential_append, sequential, List.foldl_cons, ← sequential, sequential_other once]
  exact Function.update_self _ _ _

/-- From a stage where the indices so far have their new values, the rest of the
    order completes the simultaneous assignment. -/
theorem sequential_completes {src : ι → Source ι α} {old assigned : ι → α} {order done rest}
    (split : order = done ++ rest) (nodup : order.Nodup) (complete : ∀ i, i ∈ order)
    (unmoved : ∀ i r, src i = .copy r → Before order r i → simultaneous src old r = old r)
    (stage : ∀ j, assigned j = if j ∈ done then simultaneous src old j else old j) :
    sequential src rest assigned = simultaneous src old := by
  induction rest generalizing done assigned with
  | nil =>
      funext j
      have inside : j ∈ done := by simpa [split] using complete j
      rw [sequential, List.foldl_nil, stage j, if_pos inside]
  | cons i rest ih =>
      have new : i ∉ done := by
        rw [split] at nodup
        intro old
        exact (List.disjoint_of_nodup_append nodup) old List.mem_cons_self
      have fetched : (src i).fetch assigned = simultaneous src old i := by
        rw [simultaneous]
        cases source : src i with
        | value a => rfl
        | copy r =>
            change assigned r = old r
            rw [stage r]
            split
            · next moved => exact unmoved i r source ⟨done, rest, split, moved⟩
            · rfl
      rw [sequential, List.foldl_cons, ← sequential, fetched]
      have resplit : order = (done ++ [i]) ++ rest := by rw [split, List.append_assoc]; rfl
      apply ih resplit
      intro j
      by_cases same : j = i
      · subst same
        simp
      · rw [Function.update_of_ne same, stage j]
        simp [same]

/-- One index after another is as good as all at once exactly when nothing copies
    an index that was overwritten with something else before. -/
theorem sequential_eq_iff {src : ι → Source ι α} {old : ι → α} {order}
    (nodup : order.Nodup) (complete : ∀ i, i ∈ order) :
    sequential src order old = simultaneous src old ↔
      ∀ i r, src i = .copy r → Before order r i → simultaneous src old r = old r := by
  constructor
  · rintro same i r source ⟨before, after, split, member⟩
    subst split
    have once : i ∉ after := (List.nodup_cons.mp (List.Nodup.of_append_right nodup)).1
    have kept : r ∉ i :: after := List.disjoint_of_nodup_append nodup member
    calc simultaneous src old r
        = sequential src (before ++ i :: after) old r := by rw [same]
      _ = sequential src before old r := by rw [sequential_append, sequential_other kept]
      _ = (src i).fetch (sequential src before old) := by rw [source]; rfl
      _ = simultaneous src old i := by rw [← sequential_at once, same]
      _ = old r := by rw [simultaneous, source]; rfl
  · intro unmoved
    have start : order = [] ++ order := rfl
    exact sequential_completes start nodup complete unmoved (by simp)

/-- Every order gives the simultaneous assignment exactly when nothing copies
    another index that changes. -/
theorem every_order_iff {src : ι → Source ι α} {old : ι → α} {all : List ι}
    (nodup : all.Nodup) (complete : ∀ i, i ∈ all) :
    (∀ order, order.Perm all → sequential src order old = simultaneous src old) ↔
      ∀ i r, src i = .copy r → r ≠ i → simultaneous src old r = old r := by
  constructor
  · intro always i r source different
    -- an order in which `r` comes first and `i` second
    have perm : (r :: i :: (all.erase r).erase i).Perm all := by
      have second : i ∈ all.erase r := (List.mem_erase_of_ne (Ne.symm different)).mpr (complete i)
      exact ((List.perm_cons_erase second).symm.cons r).trans (List.perm_cons_erase (complete r)).symm
    have nodup' := perm.nodup_iff.mpr nodup
    have complete' : ∀ j, j ∈ r :: i :: (all.erase r).erase i := fun j =>
      perm.mem_iff.mpr (complete j)
    exact (sequential_eq_iff nodup' complete').mp (always _ perm) i r source
      ⟨[r], _, rfl, List.mem_singleton_self r⟩
  · intro unmoved order perm
    have nodup' := perm.nodup_iff.mpr nodup
    refine (sequential_eq_iff nodup' fun j => perm.mem_iff.mpr (complete j)).mpr ?_
    rintro i r source ⟨before, after, split, member⟩
    refine unmoved i r source ?_
    rintro rfl
    subst split
    exact List.disjoint_of_nodup_append nodup' member List.mem_cons_self

end InPlace
