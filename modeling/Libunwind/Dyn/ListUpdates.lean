import Mathlib.Data.BitVec
import Mathlib.Logic.Function.Basic
import Mathlib.Logic.Relation
import Libunwind.Basic

/-! # Updates of the list, store by store

`_U_dyn_register` and `_U_dyn_cancel` of a 64-bit target bump the generation first, and then store
the links one by one. The links of a cancelled entry itself are cleared when the lock is free again.
-/

namespace Libunwind.Dyn.Interleaving

open Relation

/-- What `access_mem` answers. -/
abbrev Space := Word 64 → Except UnwError (Word 64)

/-- `_U_dyn_info_list`: where it is, and the first half of its first word. -/
structure InfoList where
  addr : Word 64
  version : BitVec 32
  bigEndian : Bool

namespace InfoList

variable (list : InfoList)

def firstAddr : Word 64 := list.addr + 8

/-- `version` and `generation`, as one word. -/
def word (generation : BitVec 32) : Word 64 :=
  if list.bigEndian then list.version ++ generation else generation ++ list.version

end InfoList

/-- `di->prev` -/
def prevAddr (di : Word 64) : Word 64 := di + 8

inductive Operation where
  | register (di : Word 64)
  | cancel (di : Word 64)

/-- An address, and the word that is stored there. -/
abbrev Store := Word 64 × Word 64

/-- The stores that an operation has still to do: those under the lock, and then the others. -/
structure Underway where
  locked : List Store
  unlocked : List Store

namespace Underway

def stores (u : Underway) : List Store := u.locked ++ u.unlocked

/-- The next store, and what is left behind it. -/
def next (u : Underway) : Option (Store × Underway) :=
  match u.locked, u.unlocked with
  | store :: locked, unlocked => some (store, ⟨locked, unlocked⟩)
  | [], store :: unlocked => some (store, ⟨[], unlocked⟩)
  | [], [] => none

end Underway

/-- The stores of an operation behind the one of the generation, by what is stored when it begins:
    no entry is in two operations at once. -/
def links (list : InfoList) (mem : Space) : Operation → Except UnwError Underway
  | .register di => do
      let first ← mem list.firstAddr
      pure
        { locked := [(di, first), (prevAddr di, 0)] ++
            (if first = 0 then [] else [(prevAddr first, di)]) ++ [(list.firstAddr, di)]
          unlocked := [] }
  | .cancel di => do
      let next ← mem di
      let prev ← mem (prevAddr di)
      pure
        { locked := [(if prev = 0 then list.firstAddr else prev, next)] ++
            (if next = 0 then [] else [(prevAddr next, prev)])
          unlocked := [(prevAddr di, 0), (di, 0)] }

/-- The target between two of its stores. -/
structure Target where
  mem : Space
  /-- How many operations have begun. -/
  operations : Nat
  underway : List Underway

namespace Target

/-- No operation holds the lock. -/
def Unlocked (s : Target) : Prop := ∀ u ∈ s.underway, u.locked = []

/-- What is still to be stored. -/
def outstanding (s : Target) : List Store := s.underway.flatMap Underway.stores

/-- The generation is bumped. -/
def bumped (list : InfoList) (s : Target) (u : Underway) : Target where
  mem := Function.update s.mem list.addr
    (.ok (list.word (BitVec.ofNat 32 (s.operations + 1))))
  operations := s.operations + 1
  underway := u :: s.underway

/-- One store of an operation. -/
def stored (s : Target) (store : Store) (underway : List Underway) : Target where
  mem := Function.update s.mem store.1 (.ok store.2)
  operations := s.operations
  underway

theorem stored_other (s : Target) {store : Store} (underway : List Underway) {a : Word 64}
    (away : store.1 ≠ a) : (s.stored store underway).mem a = s.mem a :=
  Function.update_of_ne away.symm _ _

/-- A store of the target, by any of its threads. No entry lies over the generation. -/
inductive Step (list : InfoList) : Target → Target → Prop where
  | begin {s : Target} {op : Operation} {u : Underway} : s.Unlocked →
      links list s.mem op = .ok u → (∀ store ∈ u.stores, store.1 ≠ list.addr) →
      Step list s (s.bumped list u)
  | store {s : Target} {before after : List Underway} {u u' : Underway} {store : Store} :
      s.underway = before ++ u :: after → u.next = some (store, u') →
      Step list s (s.stored store (before ++ u' :: after))

/-- The head of the list, and no operation that is under way. -/
structure Idle (list : InfoList) (s : Target) : Prop where
  underway : s.underway = []
  generation : s.mem list.addr = .ok (list.word (BitVec.ofNat 32 s.operations))
  first : ∃ a, s.mem list.firstAddr = .ok a

end Target

/-- The target at each fetch of a reader, after any number of stores since the one before. -/
structure Interleaved (list : InfoList) (target : Nat → Target) : Prop where
  begins : ∃ s, Target.Idle list s ∧ ReflTransGen (Target.Step list) s (target 0)
  steps : ∀ k, ReflTransGen (Target.Step list) (target k) (target (k + 1))

/-! ## The generation -/

section Generation

variable {list : InfoList} {target : Nat → Target} {s s' : Target}

theorem InfoList.word_inj {g g' : BitVec 32} (same : list.word g = list.word g') : g = g' := by
  rw [InfoList.word, InfoList.word] at same
  apply BitVec.eq_of_getLsbD_eq
  intro i below
  cases order : list.bigEndian with
  | true =>
      rw [order] at same
      have bits : (list.version ++ g : BitVec (32 + 32)).getLsbD i =
          (list.version ++ g' : BitVec (32 + 32)).getLsbD i := congrArg (BitVec.getLsbD · i) same
      simpa only [BitVec.getLsbD_append, below, if_true] using bits
  | false =>
      rw [order] at same
      have bits : (g ++ list.version : BitVec (32 + 32)).getLsbD (32 + i) =
          (g' ++ list.version : BitVec (32 + 32)).getLsbD (32 + i) :=
        congrArg (BitVec.getLsbD · (32 + i)) same
      have high : ¬32 + i < 32 := Nat.not_lt.mpr (Nat.le_add_right 32 i)
      simpa only [BitVec.getLsbD_append, high, if_false, Nat.add_sub_cancel_left] using bits

/-- The generation counts the operations, no store hits it, and the list has a first entry. -/
structure Counts (list : InfoList) (s : Target) : Prop where
  generation : s.mem list.addr = .ok (list.word (BitVec.ofNat 32 s.operations))
  clear : ∀ store ∈ s.outstanding, store.1 ≠ list.addr
  first : ∃ a, s.mem list.firstAddr = .ok a

theorem Underway.stores_of_next {u u' : Underway} {store : Store}
    (next : u.next = some (store, u')) : u.stores = store :: u'.stores := by
  obtain ⟨locked, unlocked⟩ := u
  cases locked with
  | cons first locked =>
      cases next
      rfl
  | nil =>
      cases unlocked with
      | cons first unlocked =>
          cases next
          rfl
      | nil => cases next

/-- A word that can be read can be read after a store. -/
theorem update_reads {mem : Space} {a addr : Word 64} (val : Word 64)
    (reads : ∃ v, mem a = .ok v) : ∃ v, Function.update mem addr (.ok val) a = .ok v := by
  by_cases here : a = addr
  · subst here
    exact ⟨val, Function.update_self ..⟩
  · rw [Function.update_of_ne here]
    exact reads

/-- What is left to store was to be stored before. -/
theorem outstanding_stored {before after : List Underway} {u u' : Underway} {store : Store}
    (holds : s.underway = before ++ u :: after) (next : u.next = some (store, u')) :
    store ∈ s.outstanding ∧
      ∀ later ∈ (s.stored store (before ++ u' :: after)).outstanding, later ∈ s.outstanding := by
  simp only [Target.outstanding, Target.stored, holds, List.flatMap_append, List.flatMap_cons,
    Underway.stores_of_next next]
  constructor
  · simp
  · intro later member
    simp only [List.mem_append, List.mem_cons] at member ⊢
    tauto

theorem Counts.step (counts : Counts list s) (step : Target.Step list s s') : Counts list s' := by
  cases step with
  | @begin op u unlocked held clear =>
      refine ⟨Function.update_self .., ?_, update_reads _ counts.first⟩
      intro store member
      rw [Target.outstanding, Target.bumped, List.flatMap_cons, List.mem_append] at member
      exact member.elim (clear store) (counts.clear store)
  | @store before after u u' store holds next =>
      obtain ⟨among, kept⟩ := outstanding_stored holds next
      refine ⟨?_, fun later member => counts.clear later (kept later member),
        update_reads _ counts.first⟩
      rw [s.stored_other _ (counts.clear store among)]
      exact counts.generation

theorem Interleaved.counts (interleaved : Interleaved list target) (k : Nat) :
    Counts list (target k) := by
  have keeps {s s' : Target} (counts : Counts list s)
      (steps : ReflTransGen (Target.Step list) s s') : Counts list s' := by
    induction steps with
    | refl => exact counts
    | tail _ step ih => exact ih.step step
  induction k with
  | zero =>
      obtain ⟨s, idle, steps⟩ := interleaved.begins
      refine keeps ⟨idle.generation, ?_, idle.first⟩ steps
      simp [Target.outstanding, idle.underway]
  | succ k ih => exact keeps ih (interleaved.steps k)

/-! ## While no operation begins -/

theorem Target.Step.operations_le (step : Target.Step list s s') :
    s.operations ≤ s'.operations := by
  cases step with
  | begin => exact Nat.le_succ _
  | store => exact Nat.le_refl _

theorem operations_le_of_steps (steps : ReflTransGen (Target.Step list) s s') :
    s.operations ≤ s'.operations := by
  induction steps with
  | refl => exact Nat.le_refl _
  | tail _ step ih => exact ih.trans step.operations_le

/-- The stores that are left are those of the operations that were under way, and only the words
    that these store change. -/
structure Trails (s s' : Target) : Prop where
  outstanding : ∀ store ∈ s'.outstanding, store ∈ s.outstanding
  mem : ∀ a, (∀ store ∈ s.outstanding, store.1 ≠ a) → s'.mem a = s.mem a

theorem trails_of_steps (steps : ReflTransGen (Target.Step list) s s')
    (none : s'.operations = s.operations) : Trails s s' := by
  induction steps with
  | refl => exact ⟨fun _ member => member, fun _ _ => rfl⟩
  | tail earlier step ih =>
      have before := operations_le_of_steps earlier
      cases step with
      | begin =>
          have bumped : _ + 1 = s.operations := none
          omega
      | @store before after u u' store holds next =>
          have trails := ih none
          obtain ⟨among, kept⟩ := outstanding_stored holds next
          refine ⟨fun later member => trails.outstanding later (kept later member), ?_⟩
          intro a away
          have other := away store (trails.outstanding store among)
          exact (Target.stored_other _ _ other).trans (trails.mem a away)

theorem Interleaved.steps_le (interleaved : Interleaved list target) {j k : Nat} (le : j ≤ k) :
    ReflTransGen (Target.Step list) (target j) (target k) := by
  induction le with
  | refl => exact .refl
  | step _ ih => exact ih.trans (interleaved.steps _)

/-- While the generation has not come back to its value, an unchanged one means that no operation
    has begun. -/
theorem Interleaved.trails (interleaved : Interleaved list target) {j k : Nat}
    (few : (target k).operations < (target j).operations + 2 ^ 32)
    (same : (target j).mem list.addr = (target k).mem list.addr) {i : Nat} (after : j ≤ i)
    (before : i ≤ k) : Trails (target j) (target i) := by
  have generations := InfoList.word_inj (Except.ok.inj
    ((interleaved.counts j).generation.symm.trans (same.trans (interleaved.counts k).generation)))
  have first := operations_le_of_steps (interleaved.steps_le after)
  have second := operations_le_of_steps (interleaved.steps_le before)
  have numbers := congrArg BitVec.toNat generations
  simp only [BitVec.toNat_ofNat] at numbers
  apply trails_of_steps (interleaved.steps_le after)
  omega

end Generation

end Libunwind.Dyn.Interleaving
