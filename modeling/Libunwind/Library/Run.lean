import Mathlib.Data.Nat.Notation

/-! # Runs

The states that a system reaches when every step it takes is an allowed one. A
step is a relation, so that an operation that never returns leads nowhere.
-/

namespace Libunwind

/-- The states that runs lead to whose steps are all `allowed`. -/
inductive Run {σ ε : Type} (start : σ → Prop) (step : σ → ε → σ → Prop)
    (allowed : σ → ε → Prop) : σ → Prop where
  | start {s : σ} : start s → Run start step allowed s
  | step {s s' : σ} (e : ε) : Run start step allowed s → allowed s e → step s e s' →
      Run start step allowed s'

namespace Run

variable {σ ε : Type} {start : σ → Prop} {step : σ → ε → σ → Prop}
  {allowed : σ → ε → Prop} {s : σ}

/-- What holds at the start and is kept by every allowed step holds throughout. -/
theorem invariant {holds : σ → Prop} (run : Run start step allowed s)
    (base : ∀ s, start s → holds s)
    (kept : ∀ s e s', holds s → allowed s e → step s e s' → holds s') : holds s := by
  induction run with
  | start isStart => exact base _ isStart
  | step e _ isAllowed stepped ih => exact kept _ e _ ih isAllowed stepped

end Run

section Follow

variable {σ ε : Type} (allowed : σ → ε → Prop) [∀ s e, Decidable (allowed s e)]
  (next : σ → ε → Option σ) (s₀ : σ)

/-- Where a sequence of events leads from `s₀`, the last of them first, as far as they are
    allowed. -/
def follow : List ε → Option σ
  | [] => some s₀
  | e :: earlier => (follow earlier).bind fun s => if allowed s e then next s e else none

variable {allowed next s₀} {start : σ → Prop} {s : σ}

theorem Run.follow (isStart : start s₀) (events : List ε)
    (reached : Libunwind.follow allowed next s₀ events = some s) :
    Run start (fun s e s' => next s e = some s') allowed s := by
  induction events generalizing s with
  | nil =>
      cases reached
      exact .start isStart
  | cons e events ih =>
      simp only [Libunwind.follow] at reached
      cases earlier : Libunwind.follow allowed next s₀ events with
      | none => simp [earlier] at reached
      | some before =>
          by_cases ok : allowed before e
          · simp only [earlier, Option.bind_some, ok, if_true] at reached
            exact .step e (ih earlier) ok reached
          · simp [earlier, ok] at reached

end Follow

end Libunwind
