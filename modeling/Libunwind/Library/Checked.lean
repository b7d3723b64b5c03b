import Mathlib.Data.List.Basic
import Mathlib.Tactic.Common

/-! # What a computation delivers, and when

A computation that checks everything before it uses it ends in an error at the first check that
fails. Then it delivers a value exactly under a condition, and both are put together from those of
its parts.
-/

namespace Checked

variable {ε α β : Type}

/-- There is a value exactly under the condition, and it is this one. -/
def Delivers (r : Except ε α) (p : Prop) (a : α) : Prop := ∀ b, r = .ok b ↔ p ∧ a = b

namespace Delivers

variable {r r' : Except ε α} {p q s : Prop} {a a' : α}

theorem of_ok (a : α) : Delivers (.ok a : Except ε α) True a := by
  intro b
  simp

theorem of_error (e : ε) (a : α) : Delivers (.error e) False a := by
  intro b
  simp

/-- A computation that is not come to. -/
theorem of_absurd (never : False) (a : α) : Delivers r False a := never.elim

theorem eq_ok (delivers : Delivers r p a) (holds : p) : r = .ok a :=
  (delivers a).mpr ⟨holds, rfl⟩

theorem exists_iff (delivers : Delivers r p a) : (∃ b, r = .ok b) ↔ p := by
  constructor
  · intro returned
    obtain ⟨b, returned⟩ := returned
    exact ((delivers b).mp returned).1
  · exact fun holds => ⟨a, delivers.eq_ok holds⟩

theorem congr (delivers : Delivers r p a) (condition : p ↔ q) (value : p → a = a') :
    Delivers r q a' := by
  intro b
  rw [delivers b, ← condition]
  constructor
  · intro both
    obtain ⟨holds, same⟩ := both
    exact ⟨holds, (value holds).symm.trans same⟩
  · intro both
    obtain ⟨holds, same⟩ := both
    exact ⟨holds, (value holds).trans same⟩

theorem bind {rest : α → Except ε β} {b : β} (first : Delivers r p a)
    (later : p → Delivers (rest a) q b) : Delivers (r >>= rest) (p ∧ q) b := by
  intro x
  cases found : r with
  | error e =>
      have fails : ¬p := by
        intro holds
        rw [first.eq_ok holds] at found
        cases found
      apply iff_of_false
      · intro returned
        cases returned
      · exact fun both => fails both.1.1
  | ok a' =>
      obtain ⟨holds, same⟩ := (first a').mp found
      subst same
      exact (later holds x).trans (by simp [holds])

theorem ite [Decidable s] (yes : s → Delivers r p a) (no : ¬s → Delivers r' q a') :
    Delivers (if s then r else r') (if s then p else q) (if s then a else a') := by
  by_cases test : s
  · simpa only [if_pos test] using yes test
  · simpa only [if_neg test] using no test

end Delivers

/-! ## Lists that are gone through up to a first element -/

/-- The elements up to the first one that has the property, and with it. -/
def upToFirst (P : α → Prop) [DecidablePred P] : List α → List α
  | [] => []
  | a :: rest => if P a then [a] else a :: upToFirst P rest

section UpToFirst

variable {P Q : α → Prop} [DecidablePred P] {a : α} {rest : List α}

theorem forall_upToFirst_cons :
    (∀ x ∈ upToFirst P (a :: rest), Q x) ↔ Q a ∧ (¬P a → ∀ x ∈ upToFirst P rest, Q x) := by
  by_cases here : P a
  · simp [upToFirst, here]
  · simp [upToFirst, here]

end UpToFirst

/-- The places of so many items, one a step after the other. -/
def places (step : Nat) : Nat → Nat → List Nat
  | 0, _ => []
  | n + 1, off => off :: places step n (off + step)

end Checked
