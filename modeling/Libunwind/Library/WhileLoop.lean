import Mathlib

/-! # Guarded loops with a step budget

`WhileLoop.run` iterates a fallible body while a guard holds, for at most the
given number of rounds, and reports the designated `late` failure when the
budget is used up with the guard still true. Every rule below is about the
loop alone: states, failures, guards and bodies are parameters.
-/

namespace WhileLoop

variable {σ τ ε : Type*}

/-- `while (guard s) s = body s`, giving up with `late` after `budget` rounds. -/
def run (late : ε) (guard : σ → Bool) (body : σ → Except ε σ) : Nat → σ → Except ε σ
  | 0, s => if guard s then .error late else .ok s
  | budget + 1, s =>
      if guard s then
        match body s with
        | .error e => .error e
        | .ok next => run late guard body budget next
      else .ok s

/-- `Reaches guard body s t`: the loop head sees `t` when started in `s`. -/
inductive Reaches (guard : σ → Bool) (body : σ → Except ε σ) : σ → σ → Prop where
  | refl (s) : Reaches guard body s s
  | step {s next t} : guard s = true → body s = .ok next →
      Reaches guard body next t → Reaches guard body s t

variable {late : ε} {guard : σ → Bool} {body : σ → Except ε σ}

@[simp] theorem run_exit {s} (exit : guard s = false) (budget : Nat) :
    run late guard body budget s = .ok s := by
  cases budget <;> simp [run, exit]

theorem run_zero {s} (enter : guard s = true) :
    run late guard body 0 s = .error late := by
  simp [run, enter]

theorem run_next {s next} (enter : guard s = true) (round : body s = .ok next) (budget : Nat) :
    run late guard body (budget + 1) s = run late guard body budget next := by
  simp [run, enter, round]

theorem run_fail {s e} (enter : guard s = true) (round : body s = .error e) (budget : Nat) :
    run late guard body (budget + 1) s = .error e := by
  simp [run, enter, round]

/-- A run that ended before its budget ends the same way with a larger one. -/
theorem run_mono {small large s} (le : small ≤ large)
    (ended : run late guard body small s ≠ .error late) :
    run late guard body large s = run late guard body small s := by
  induction small generalizing large s with
  | zero =>
      cases enter : guard s with
      | false => simp only [run_exit enter]
      | true => exact absurd (run_zero enter) ended
  | succ small ih =>
      obtain ⟨large, rfl⟩ : ∃ m, large = m + 1 := ⟨large - 1, by omega⟩
      cases enter : guard s with
      | false => simp only [run_exit enter]
      | true =>
          cases round : body s with
          | error e => simp only [run_fail enter round]
          | ok next =>
              rw [run_next enter round] at ended
              rw [run_next enter round, run_next enter round]
              exact ih (by omega) ended

/-- Two budgets that both end the loop end it with one result. -/
theorem run_agree {first second s}
    (endedFirst : run late guard body first s ≠ .error late)
    (endedSecond : run late guard body second s ≠ .error late) :
    run late guard body first s = run late guard body second s := by
  rcases Nat.le_total first second with le | le
  · exact (run_mono le endedFirst).symm
  · exact run_mono le endedSecond

/-- The invariant rule: what the body keeps while the guard holds is true at
    the end, where the guard is false. -/
theorem run_invariant (inv : σ → Prop) {budget s t}
    (keep : ∀ a b, inv a → guard a = true → body a = .ok b → inv b)
    (start : inv s) (ended : run late guard body budget s = .ok t) :
    inv t ∧ guard t = false := by
  induction budget generalizing s with
  | zero =>
      cases enter : guard s with
      | false =>
          rw [run_exit enter, Except.ok.injEq] at ended
          exact ended ▸ ⟨start, enter⟩
      | true => rw [run_zero enter] at ended; exact absurd ended (by simp)
  | succ budget ih =>
      cases enter : guard s with
      | false =>
          rw [run_exit enter, Except.ok.injEq] at ended
          exact ended ▸ ⟨start, enter⟩
      | true =>
          cases round : body s with
          | error e => rw [run_fail enter round] at ended; exact absurd ended (by simp)
          | ok next =>
              rw [run_next enter round] at ended
              exact ih (keep s next start enter round) ended

theorem Reaches.trans {s t u} (first : Reaches guard body s t) (second : Reaches guard body t u) :
    Reaches guard body s u := by
  induction first with
  | refl => exact second
  | step enter round _ ih => exact .step enter round (ih second)

theorem Reaches.snoc {s t u} (path : Reaches guard body s t)
    (enter : guard t = true) (round : body t = .ok u) : Reaches guard body s u :=
  path.trans (.step enter round (.refl u))

/-- The loop heads behind a round that is known. -/
theorem Reaches.of_round {s next t} (path : Reaches guard body s t) (round : body s = .ok next) :
    t = s ∨ Reaches guard body next t := by
  cases path with
  | refl => exact .inl rfl
  | step enter round' later =>
      rw [round, Except.ok.injEq] at round'
      exact .inr (round' ▸ later)

theorem Reaches.of_exit {s t} (path : Reaches guard body s t) (exit : guard s = false) :
    t = s := by
  cases path with
  | refl => rfl
  | step enter _ _ => simp [exit] at enter

/-- What the body keeps holds at every loop head. -/
theorem Reaches.invariant (inv : σ → Prop) {s t}
    (keep : ∀ a b, inv a → guard a = true → body a = .ok b → inv b)
    (path : Reaches guard body s t) (start : inv s) : inv t := by
  induction path with
  | refl => exact start
  | step enter round _ ih => exact ih (keep _ _ start enter round)

/-- The end of a run is a loop head. -/
theorem run_reaches {budget s t} (ended : run late guard body budget s = .ok t) :
    Reaches guard body s t := by
  have keep : ∀ a b, Reaches guard body s a → guard a = true → body a = .ok b →
      Reaches guard body s b := by
    intro a b path enter round
    exact path.snoc enter round
  exact (run_invariant (Reaches guard body s) keep (.refl s) ended).1

/-- A run that fails ran out of budget or reached a round that fails. -/
theorem run_error {budget s e} (failed : run late guard body budget s = .error e) :
    e = late ∨ ∃ t, Reaches guard body s t ∧ guard t = true ∧ body t = .error e := by
  induction budget generalizing s with
  | zero =>
      cases enter : guard s with
      | false => rw [run_exit enter] at failed; exact nomatch failed
      | true =>
          rw [run_zero enter, Except.error.injEq] at failed
          exact .inl failed.symm
  | succ budget ih =>
      cases enter : guard s with
      | false => rw [run_exit enter] at failed; exact nomatch failed
      | true =>
          cases round : body s with
          | error e' =>
              rw [run_fail enter round, Except.error.injEq] at failed
              exact .inr ⟨s, .refl s, enter, failed ▸ round⟩
          | ok next =>
              rw [run_next enter round] at failed
              rcases ih failed with late | ⟨t, path, inside, fails⟩
              · exact .inl late
              · exact .inr ⟨t, .step enter round path, inside, fails⟩

/-- In a run that succeeds, so does every round. -/
theorem Reaches.round_of_run {budget s t u} (path : Reaches guard body s t)
    (enter : guard t = true) (ended : run late guard body budget s = .ok u) :
    ∃ next, body t = .ok next := by
  induction path generalizing budget with
  | refl s =>
      cases budget with
      | zero => simp [run_zero enter] at ended
      | succ budget =>
          cases round : body s with
          | error e => simp [run_fail enter round] at ended
          | ok next => exact ⟨next, rfl⟩
  | step inside round _ ih =>
      cases budget with
      | zero => simp [run_zero inside] at ended
      | succ budget =>
          rw [run_next inside round] at ended
          exact ih enter ended

/-- From a loop head the run goes on as it does from the start, a number of
    rounds later. -/
theorem Reaches.run_shift {s t} (path : Reaches guard body s t) :
    ∃ rounds, ∀ budget,
      run late guard body (rounds + budget) s = run late guard body budget t := by
  induction path with
  | refl => exact ⟨0, fun budget => by rw [Nat.zero_add]⟩
  | @step a next _ enter round _ ih =>
      obtain ⟨rounds, later⟩ := ih
      refine ⟨rounds + 1, fun budget => ?_⟩
      rw [Nat.add_right_comm, run_next enter round, later]

/-- The slicing rule: a loop whose guard implies a weaker one is the first
    part of the loop with the weaker guard. -/
theorem Reaches.weaken {weak : σ → Bool} {s t}
    (implies : ∀ a, guard a = true → weak a = true)
    (path : Reaches guard body s t) : Reaches weak body s t := by
  induction path with
  | refl => exact .refl _
  | step enter round _ ih => exact .step (implies _ enter) round ih

section Refinement

variable {guard' : τ → Bool} {body' : τ → Except ε τ} {abs : σ → τ} {refuses : ε → Prop}

/-- The refinement rule: when each round that the loop reaches refuses, or is
    the other loop's round on abstract states, so is the whole run. -/
theorem run_refines {s}
    (guards : ∀ a, guard' (abs a) = guard a)
    (rounds : ∀ a, Reaches guard body s a → guard a = true →
      (∃ e, body a = .error e ∧ refuses e) ∨ body' (abs a) = (body a).map abs)
    (budget : Nat) :
    (∃ e, run late guard body budget s = .error e ∧ refuses e) ∨
      run late guard' body' budget (abs s) = (run late guard body budget s).map abs := by
  induction budget generalizing s with
  | zero =>
      cases enter : guard s with
      | false => exact .inr (by simp [guards, enter, Except.map])
      | true => exact .inr (by simp [run_zero enter, run_zero, guards, enter, Except.map])
  | succ budget ih =>
      cases enter : guard s with
      | false => exact .inr (by simp [guards, enter, Except.map])
      | true =>
          have enter' : guard' (abs s) = true := (guards s).trans enter
          rcases rounds s (.refl s) enter with ⟨e, round, refused⟩ | same
          · exact .inl ⟨e, run_fail enter round budget, refused⟩
          · cases round : body s with
            | error e =>
                rw [round] at same
                exact .inr (by rw [run_fail enter round, run_fail enter' same]; rfl)
            | ok next =>
                rw [round] at same
                rw [run_next enter round, run_next enter' same]
                exact ih (fun a path => rounds a (.step enter round path))

/-- The refinement rule with a condition on the rounds that the abstract loop comes to. -/
theorem run_refines_of_abs {s}
    (guards : ∀ a, guard' (abs a) = guard a)
    (rounds : ∀ a, Reaches guard' body' (abs s) (abs a) → guard a = true →
      (∃ e, body a = .error e ∧ refuses e) ∨ body' (abs a) = (body a).map abs)
    (budget : Nat) :
    (∃ e, run late guard body budget s = .error e ∧ refuses e) ∨
      run late guard' body' budget (abs s) = (run late guard body budget s).map abs := by
  -- up to the first round that refuses, the one loop's rounds are the other's
  have reached : ∀ a, Reaches guard body s a →
      Reaches guard' body' (abs s) (abs a) := by
    intro a path
    induction path with
    | refl => exact .refl _
    | @step s next t enter round path ih =>
        have enter' : guard' (abs s) = true := (guards s).trans enter
        cases rounds s (.refl _) enter with
        | inl refused =>
            obtain ⟨e, failed, -⟩ := refused
            simp [round] at failed
        | inr same =>
            rw [round] at same
            exact .step enter' same (ih fun a later => rounds a (.step enter' same later))
  exact run_refines guards (fun a path => rounds a (reached a path)) budget

end Refinement

section Measure

/-- A loop whose rounds, as far as it reaches, all shrink a measure ends within that many
    rounds. -/
theorem run_ne_late_of_reaches (measure : σ → Nat) {budget : Nat} {s : σ}
    (shrinks : ∀ a b, Reaches guard body s a → guard a = true → body a = .ok b →
      measure b < measure a)
    (others : ∀ a, body a ≠ .error late) (positive : ∀ a, guard a = true → 0 < measure a)
    (enough : measure s ≤ budget) : run late guard body budget s ≠ .error late := by
  induction budget generalizing s with
  | zero =>
      cases enter : guard s with
      | false => simp [enter]
      | true =>
          have := positive s enter
          omega
  | succ budget ih =>
      cases enter : guard s with
      | false => simp [enter]
      | true =>
          cases round : body s with
          | error e =>
              rw [run_fail enter round]
              intro same
              exact others s (round.trans same)
          | ok next =>
              rw [run_next enter round]
              apply ih
              · intro a b path
                exact shrinks a b (.step enter round path)
              · have := shrinks s next (.refl s) enter round
                omega

/-- A loop whose rounds all shrink a measure ends within that many rounds. -/
theorem run_ne_late (measure : σ → Nat) {budget : Nat} {s : σ}
    (shrinks : ∀ a b, guard a = true → body a = .ok b → measure b < measure a)
    (others : ∀ a, body a ≠ .error late) (positive : ∀ a, guard a = true → 0 < measure a)
    (enough : measure s ≤ budget) : run late guard body budget s ≠ .error late :=
  run_ne_late_of_reaches measure (fun a b _ => shrinks a b) others positive enough

/-- A loop all of whose rounds succeed and shrink a measure succeeds. -/
theorem run_ok_of_reaches (measure : σ → Nat) {budget : Nat} {s : σ}
    (rounds : ∀ a, Reaches guard body s a → guard a = true →
      ∃ b, body a = .ok b ∧ measure b < measure a)
    (enough : measure s ≤ budget) : ∃ t, run late guard body budget s = .ok t := by
  induction budget generalizing s with
  | zero =>
      cases enter : guard s with
      | false => exact ⟨s, run_exit enter 0⟩
      | true =>
          obtain ⟨next, -, smaller⟩ := rounds s (.refl s) enter
          omega
  | succ budget ih =>
      cases enter : guard s with
      | false => exact ⟨s, run_exit enter _⟩
      | true =>
          obtain ⟨next, round, smaller⟩ := rounds s (.refl s) enter
          rw [run_next enter round]
          apply ih
          · intro a path
            exact rounds a (.step enter round path)
          · omega

end Measure

section Simulation

variable {late' : ε} {guard' : τ → Bool} {body' : τ → Except ε τ} {rel : σ → τ → Prop}

/-- The simulation rule: when related states agree on the guard and one round
    of the first loop is matched by one round of the second, a run of the
    first loop that ends is matched by a run of the second. -/
theorem run_simulates
    (guards : ∀ a b, rel a b → guard a = guard' b)
    (rounds : ∀ a b a', rel a b → guard a = true → body a = .ok a' →
      ∃ b', body' b = .ok b' ∧ rel a' b')
    {budget s s' t} (start : rel s s') (ended : run late guard body budget s = .ok t) :
    ∃ t', run late' guard' body' budget s' = .ok t' ∧ rel t t' := by
  induction budget generalizing s s' with
  | zero =>
      cases enter : guard s with
      | false =>
          rw [run_exit enter, Except.ok.injEq] at ended
          exact ⟨s', run_exit (guards s s' start ▸ enter) _, ended ▸ start⟩
      | true => rw [run_zero enter] at ended; exact absurd ended (by simp)
  | succ budget ih =>
      cases enter : guard s with
      | false =>
          rw [run_exit enter, Except.ok.injEq] at ended
          exact ⟨s', run_exit (guards s s' start ▸ enter) _, ended ▸ start⟩
      | true =>
          have enter' : guard' s' = true := guards s s' start ▸ enter
          cases round : body s with
          | error e => rw [run_fail enter round] at ended; exact absurd ended (by simp)
          | ok next =>
              rw [run_next enter round] at ended
              obtain ⟨next', round', related⟩ := rounds s s' next start enter round
              obtain ⟨t', ended', final⟩ := ih related ended
              exact ⟨t', (run_next enter' round' budget).trans ended', final⟩

end Simulation

end WhileLoop
