import Mathlib.Data.Nat.Notation

/-! # Routines that change a state

A routine of C that returns a number or a negative code changes the state also where it fails: what
it has written until then stays written. Its outcome is what it returns, with the state that it
leaves.
-/

/-- A routine that changes a state of type `σ`. -/
abbrev Routine (ε σ α : Type) := ExceptT ε (StateM σ) α

namespace Routine

variable {ε σ τ α β : Type}

/-- What a routine returns, and the state that it leaves. -/
def outcome (routine : Routine ε σ α) (s : σ) : Except ε α × σ := routine s

/-- A routine from what it does. -/
def ofOutcome (f : σ → Except ε α × σ) : Routine ε σ α := f

/-- What follows a routine that has ended. -/
def andThen : Except ε α × σ → (α → σ → Except ε β × σ) → Except ε β × σ
  | (.ok a, s), rest => rest a s
  | (.error e, s), _ => (.error e, s)

/-- A value that was found without the state. -/
def given (found : Except ε α) : Routine ε σ α := ofOutcome fun s => (found, s)

/-- A routine on a part of a state. -/
def within (part : τ → σ) (put : σ → τ → τ) (routine : Routine ε σ α) : Routine ε τ α :=
  ofOutcome fun t => ((routine.outcome (part t)).1, put (routine.outcome (part t)).2 t)

variable {routine : Routine ε σ α} {rest : α → Routine ε σ β} {s s' : σ} {a : α} {e : ε}

@[simp] theorem andThen_ok {next : α → σ → Except ε β × σ} :
    andThen (.ok a, s) next = next a s := rfl

@[simp] theorem andThen_error {next : α → σ → Except ε β × σ} :
    andThen (.error e, s) next = (.error e, s) := rfl

@[simp] theorem outcome_ofOutcome (f : σ → Except ε α × σ) (s : σ) : (ofOutcome f).outcome s = f s := rfl

@[simp] theorem outcome_given (found : Except ε α) (s : σ) :
    (given found).outcome s = (found, s) := rfl

@[simp] theorem outcome_within (part : τ → σ) (put : σ → τ → τ) (t : τ) :
    (within part put routine).outcome t =
      ((routine.outcome (part t)).1, put (routine.outcome (part t)).2 t) := rfl

@[simp] theorem outcome_pure (a : α) (s : σ) : (pure a : Routine ε σ α).outcome s = (.ok a, s) := rfl

@[simp] theorem outcome_throw (e : ε) (s : σ) :
    (throw e : Routine ε σ α).outcome s = (.error e, s) := rfl

@[simp] theorem outcome_get (s : σ) : (get : Routine ε σ σ).outcome s = (.ok s, s) := rfl

@[simp] theorem outcome_set (s s' : σ) :
    (set s' : Routine ε σ PUnit).outcome s = (.ok ⟨⟩, s') := rfl

@[simp] theorem outcome_modify (f : σ → σ) (s : σ) :
    (modify f : Routine ε σ PUnit).outcome s = (.ok ⟨⟩, f s) := rfl

theorem outcome_bind (routine : Routine ε σ α) (rest : α → Routine ε σ β) (s : σ) :
    (routine >>= rest).outcome s = andThen (routine.outcome s) fun a s => (rest a).outcome s := by
  change (ExceptT.bind routine rest : StateM σ (Except ε β)) s = _
  rw [outcome]
  change (match (routine s).1 with | .ok a => _ | .error e => _ : StateM σ (Except ε β)) _ = _
  rcases ended : routine s with ⟨e | a, s'⟩
  · rfl
  · rfl

theorem outcome_bind_ok (ended : routine.outcome s = (.ok a, s')) :
    (routine >>= rest).outcome s = (rest a).outcome s' := by
  rw [outcome_bind, ended, andThen_ok]

theorem outcome_bind_error (ended : routine.outcome s = (.error e, s')) :
    (routine >>= rest).outcome s = (.error e, s') := by
  rw [outcome_bind, ended, andThen_error]

theorem outcome_ite {p : Prop} [Decidable p] (first second : Routine ε σ α) (s : σ) :
    (if p then first else second).outcome s = if p then first.outcome s else second.outcome s := by
  split
  · rfl
  · rfl

end Routine
