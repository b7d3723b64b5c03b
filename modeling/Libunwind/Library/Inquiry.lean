import Mathlib.Data.Nat.Notation

/-! # Computations that ask questions

A reader that fetches one word after another knows the rest of the world by the
answers only. While the answers do not change, an inquiry is a plain computation;
what it delivers depends on no answer but the ones that it got.
-/

/-- A computation that asks for answers, and delivers a value or an error. -/
inductive Inquiry (Q A ε α : Type) where
  | done (outcome : Except ε α)
  | ask (question : Q) (next : A → Inquiry Q A ε α)

namespace Inquiry

variable {Q A ε α β : Type}

def bind : Inquiry Q A ε α → (α → Inquiry Q A ε β) → Inquiry Q A ε β
  | .done (.ok a), rest => rest a
  | .done (.error e), _ => .done (.error e)
  | .ask question next, rest => .ask question fun a => bind (next a) rest

instance : Monad (Inquiry Q A ε) where
  pure a := .done (.ok a)
  bind := bind

/-- Goes on with the outcome, whether it is a value or an error. -/
def handle : Inquiry Q A ε α → (Except ε α → Inquiry Q A ε β) → Inquiry Q A ε β
  | .done outcome, rest => rest outcome
  | .ask question next, rest => .ask question fun a => handle (next a) rest

/-- The outcome when the answers stay the same. -/
def eval (answer : Q → A) : Inquiry Q A ε α → Except ε α
  | .done outcome => outcome
  | .ask question next => eval answer (next (answer question))

/-- The outcome when the `k`-th question is answered by `answer k`, with the number
    of the question that would come next. -/
def run (answer : Nat → Q → A) : Inquiry Q A ε α → Nat → Except ε α × Nat
  | .done outcome, k => (outcome, k)
  | .ask question next, k => run answer (next (answer k question)) (k + 1)

theorem bind_assoc {γ : Type} (p : Inquiry Q A ε α) (q : α → Inquiry Q A ε β)
    (rest : β → Inquiry Q A ε γ) : p >>= q >>= rest = p >>= fun a => q a >>= rest := by
  induction p with
  | done outcome => cases outcome <;> rfl
  | ask question next ih => exact congrArg (Inquiry.ask question) (funext fun a => ih a)

section Eval

variable {answer : Q → A}

@[simp] theorem eval_done (outcome : Except ε α) : eval answer (.done outcome) = outcome := rfl

@[simp] theorem eval_pure (a : α) : eval answer (pure a : Inquiry Q A ε α) = .ok a := rfl

@[simp] theorem eval_ask (question : Q) (next : A → Inquiry Q A ε α) :
    eval answer (.ask question next) = eval answer (next (answer question)) := rfl

@[simp] theorem eval_handle (p : Inquiry Q A ε α) (rest : Except ε α → Inquiry Q A ε β) :
    eval answer (p.handle rest) = eval answer (rest (eval answer p)) := by
  induction p with
  | done outcome => rfl
  | ask question next ih => exact ih _

theorem eval_bind (p : Inquiry Q A ε α) (rest : α → Inquiry Q A ε β) :
    eval answer (p >>= rest) = eval answer p >>= fun a => eval answer (rest a) := by
  induction p with
  | done outcome =>
      cases outcome with
      | ok a => rfl
      | error e => rfl
  | ask question next ih => exact ih _

theorem eval_bind_ok {p : Inquiry Q A ε α} {rest : α → Inquiry Q A ε β} {a : α}
    (value : eval answer p = .ok a) : eval answer (p >>= rest) = eval answer (rest a) := by
  rw [eval_bind, value]
  rfl

theorem eval_bind_error {p : Inquiry Q A ε α} {rest : α → Inquiry Q A ε β} {e : ε}
    (failed : eval answer p = .error e) : eval answer (p >>= rest) = .error e := by
  rw [eval_bind, failed]
  rfl

end Eval

section Run

variable {answer : Nat → Q → A}

theorem run_bind_ok {p : Inquiry Q A ε α} {rest : α → Inquiry Q A ε β} {a : α} {k k' : Nat}
    (value : run answer p k = (.ok a, k')) :
    run answer (p >>= rest) k = run answer (rest a) k' := by
  induction p generalizing k with
  | done outcome =>
      obtain ⟨rfl, rfl⟩ := Prod.mk.inj value
      rfl
  | ask question next ih => exact ih _ value

theorem run_bind_error {p : Inquiry Q A ε α} {rest : α → Inquiry Q A ε β} {e : ε} {k k' : Nat}
    (failed : run answer p k = (.error e, k')) :
    run answer (p >>= rest) k = (.error e, k') := by
  induction p generalizing k with
  | done outcome =>
      obtain ⟨rfl, rfl⟩ := Prod.mk.inj failed
      rfl
  | ask question next ih => exact ih _ failed

theorem run_handle (p : Inquiry Q A ε α) (rest : Except ε α → Inquiry Q A ε β) (k : Nat) :
    run answer (p.handle rest) k = run answer (rest (run answer p k).1) (run answer p k).2 := by
  induction p generalizing k with
  | done outcome => rfl
  | ask question next ih => exact ih _ _

theorem le_run (p : Inquiry Q A ε α) (k : Nat) : k ≤ (run answer p k).2 := by
  induction p generalizing k with
  | done outcome => exact Nat.le_refl k
  | ask question next ih => exact Nat.le_of_succ_le (ih _ _)

end Run

section Asked

/-- The questions that are asked when the answers stay the same. -/
def asked (answer : Q → A) : Inquiry Q A ε α → List Q
  | .done _ => []
  | .ask question next => question :: asked answer (next (answer question))

/-- Only the answers to these questions count. -/
theorem run_eq_eval_of_asked {answer : Nat → Q → A} {constant : Q → A} (p : Inquiry Q A ε α)
    (k : Nat) (same : ∀ j, k ≤ j → j < (run answer p k).2 →
      ∀ question ∈ asked constant p, answer j question = constant question) :
    (run answer p k).1 = eval constant p := by
  induction p generalizing k with
  | done outcome => rfl
  | ask question next ih =>
      have given : answer k question = constant question :=
        same k (Nat.le_refl k) (le_run _ _) question List.mem_cons_self
      simp only [run, given] at same ⊢
      exact ih _ _ fun j later earlier q member =>
        same j (Nat.le_of_succ_le later) earlier q (List.mem_cons_of_mem question member)

/-- While the answers stay the same, a run is a plain evaluation. -/
theorem run_eq_eval {answer : Nat → Q → A} {constant : Q → A} (p : Inquiry Q A ε α) (k : Nat)
    (same : ∀ j, k ≤ j → j < (run answer p k).2 → answer j = constant) :
    (run answer p k).1 = eval constant p :=
  run_eq_eval_of_asked p k fun j later earlier question _ =>
    congrFun (same j later earlier) question

end Asked

section Heeds

/-- Every bad answer ends the inquiry with an error, and its errors are refusals. -/
def Heeds (bad : A → Prop) (refusal : ε → Prop) : Inquiry Q A ε α → Prop
  | .done outcome => ∀ e, outcome = .error e → refusal e
  | .ask _ next => ∀ a, (bad a → ∃ e, next a = .done (.error e)) ∧ Heeds bad refusal (next a)

variable {bad : A → Prop} {refusal : ε → Prop} {answer : Nat → Q → A}

theorem Heeds.pure (a : α) : Heeds bad refusal (Pure.pure a : Inquiry Q A ε α) := by
  intro e failed
  cases failed

theorem Heeds.bind {p : Inquiry Q A ε α} {rest : α → Inquiry Q A ε β}
    (first : Heeds bad refusal p) (later : ∀ a, Heeds bad refusal (rest a)) :
    Heeds bad refusal (p >>= rest) := by
  induction p with
  | done outcome =>
      cases outcome with
      | ok a => exact later a
      | error e =>
          intro e' same
          cases same
          exact first e rfl
  | ask question next ih =>
      intro a
      obtain ⟨ends, heeds⟩ := first a
      refine ⟨fun isBad => ?_, ih a heeds⟩
      obtain ⟨e, done⟩ := ends isBad
      refine ⟨e, ?_⟩
      change Inquiry.bind (next a) rest = _
      rw [done]
      rfl

/-- An inquiry that delivers a value got no bad answer. -/
theorem Heeds.run_ok {p : Inquiry Q A ε α} {k k' : Nat} {a : α} (heeds : Heeds bad refusal p)
    (value : run answer p k = (.ok a, k')) :
    ∀ j, k ≤ j → j < k' → ∃ question, ¬ bad (answer j question) := by
  induction p generalizing k with
  | done outcome =>
      obtain ⟨-, rfl⟩ := Prod.mk.inj value
      intro j from_k below
      exact absurd from_k (Nat.not_le.mpr below)
  | ask question next ih =>
      obtain ⟨ends, later⟩ := heeds (answer k question)
      intro j from_k below
      by_cases here : j = k
      · subst here
        refine ⟨question, fun isBad => ?_⟩
        obtain ⟨e, done⟩ := ends isBad
        rw [run, done] at value
        cases value
      · exact ih _ later value j (by omega) below

theorem Heeds.run_error {p : Inquiry Q A ε α} {k k' : Nat} {e : ε} (heeds : Heeds bad refusal p)
    (failed : run answer p k = (.error e, k')) : refusal e := by
  induction p generalizing k with
  | done outcome => exact heeds e (congrArg Prod.fst failed)
  | ask question next ih => exact ih _ (heeds (answer k question)).2 failed

end Heeds

end Inquiry
