import Mathlib

/-! # Lock discipline of a trace

A routine's trace lists what it does with one non-recursive lock, and the points
at which it must not hold it: where it returns, or calls code that may take the
lock itself.
-/

namespace LockTrace

inductive Action where
  | acquire
  | release
  | leave
  deriving DecidableEq, Repr

/-- Whether the lock is held after an action that the discipline allows. -/
def step : Bool → Action → Option Bool
  | false, .acquire => some true
  | true, .release => some false
  | false, .leave => some false
  | _, _ => none

/-- Whether the lock is held after a trace, if every action of it is allowed. -/
def after : Bool → List Action → Option Bool
  | held, [] => some held
  | held, action :: rest => (step held action).bind fun held => after held rest

/-- From a free lock, no action breaks the discipline. -/
def Balanced (trace : List Action) : Prop := after false trace ≠ none

instance (trace : List Action) : Decidable (Balanced trace) :=
  inferInstanceAs (Decidable (_ ≠ _))

@[simp] theorem after_nil (held : Bool) : after held [] = some held := rfl

@[simp] theorem after_acquire (rest : List Action) :
    after false (.acquire :: rest) = after true rest := rfl

@[simp] theorem after_release (rest : List Action) :
    after true (.release :: rest) = after false rest := rfl

@[simp] theorem after_leave (rest : List Action) :
    after false (.leave :: rest) = after false rest := rfl

@[simp] theorem after_leave_held (rest : List Action) :
    after true (.leave :: rest) = none := rfl

theorem after_append (held : Bool) (trace rest : List Action) :
    after held (trace ++ rest) = (after held trace).bind fun held => after held rest := by
  induction trace generalizing held with
  | nil => rfl
  | cons action trace ih =>
      cases allowed : step held action with
      | none => simp only [List.cons_append, after, allowed, Option.bind_none]
      | some held => simp only [List.cons_append, after, allowed, Option.bind_some, ih held]

/-- A trace that frees the lock can be cut off from what follows it. -/
theorem balanced_append {trace rest : List Action} (freed : after false trace = some false) :
    Balanced (trace ++ rest) ↔ Balanced rest := by
  simp only [Balanced, after_append, freed, Option.bind_some]

/-- Leaving with the lock held breaks the discipline, whatever follows. -/
theorem not_balanced_of_leave {trace : List Action} (rest : List Action)
    (held : after false trace = some true) : ¬ Balanced (trace ++ .leave :: rest) := by
  simp only [Balanced, after_append, held, Option.bind_some, after_leave_held, ne_eq,
    not_true_eq_false, not_false_eq_true]

end LockTrace
