import Libunwind.Ia64.BuiltScript
import Libunwind.Ia64.CachedSteps

/-! # Where the steps of a cursor lead

What `unw_step` returns, and the frame that it leaves, depends on the script that it runs and on the
frame that it starts from, but not on the proc info that is known before.
-/

namespace Libunwind.Ia64

/-! ## The frame -/

/-- `unw_step` from `run_script` on, as far as the frame goes -/
def frameStep (target : Target) (pi : ProcMembers) (abiMarker : Word 16) (insns : List ScriptInsn) :
    FrameRoutine Nat := do
  let _ ← stepWith target pi abiMarker insns
  let f ← get
  pure (if f.ip = 0 then 0 else 1)

/-- `unw_step` from `run_script` on -/
def completeStep (target : Target) (pi : UnwProcInfo) (abiMarker : Word 16) (insns : List ScriptInsn) :
    CursorRoutine Nat := do
  runScriptFor target pi abiMarker insns
  finishStep target

/-- What a routine returns for a cursor, with the frame. -/
def frameOf {α : Type} (ended : Except Fault α × Cursor) : Except Fault α × Frame :=
  (ended.1, ended.2.frame)

section Frames

variable {target : Target} {pi : UnwProcInfo} {members : ProcMembers} {abiMarker : Word 16}
  {insns : List ScriptInsn}

/-- The script brings its proc info. -/
theorem frameStep_anyPi (f : Frame) :
    (frameStep target members abiMarker insns).outcome { f with pi := pi.members } =
      (frameStep target members abiMarker insns).outcome f := by
  simp only [frameStep, stepWith, runScriptOn, Routine.outcome_bind, Routine.outcome_modify,
    Routine.andThen_ok]

theorem runScriptFor_frame (c : Cursor) :
    frameOf ((runScriptFor target pi abiMarker insns).outcome c) =
      (runScriptOn target pi.members abiMarker insns).outcome c.frame := by
  simp only [runScriptFor, Routine.outcome_bind, Routine.outcome_modify, Routine.andThen_ok,
    Routine.outcome_within, frameOf]

variable (target pi abiMarker insns) in
/-- The step of a cursor is that of its frame. -/
theorem completeStep_frame (c : Cursor) :
    frameOf ((completeStep target pi abiMarker insns).outcome c) =
      (frameStep target pi.members abiMarker insns).outcome c.frame := by
  rw [completeStep, frameStep, stepWith, finishStep]
  generalize updateFrameState target = update
  simp only [Routine.outcome_bind]
  rw [← runScriptFor_frame]
  generalize (runScriptFor target pi abiMarker insns).outcome c = ran
  rcases ran with ⟨e | _, c⟩
  · rfl
  · simp only [Routine.andThen_ok, Routine.outcome_within]
    have same : frameOf (Except.ok (), c) = ((.ok (), c.frame) : Except Fault Unit × Frame) := rfl
    rw [same, Routine.andThen_ok]
    generalize update.outcome c.frame = updated
    rcases updated with ⟨e | atEnd, f⟩
    · rfl
    · rw [Routine.andThen_ok, Routine.andThen_ok, Routine.outcome_modify, Routine.andThen_ok,
        Routine.outcome_get, Routine.andThen_ok, Routine.outcome_pure, Routine.outcome_get,
        Routine.andThen_ok, Routine.outcome_pure, frameOf]

end Frames

/-! ## The proc info and the script -/

section Cursors

variable {sources : ProcSources} {memory : Nat → Bool} {rounds : Nat} {target : Target} {c : Cursor}
  {ip : Word 64} {need : Bool} {pi : UnwProcInfo} {dynamic : Bool} {code : UnwError}

/-- The cursor after a lookup of its proc info -/
def Cursor.fetched (c : Cursor) (pi : UnwProcInfo) (dynamic : Bool) : Cursor :=
  { c.setPi pi with
    piValid := true
    piIsDynamic := dynamic }

@[simp] theorem Cursor.fetched_pi : (c.fetched pi dynamic).pi = pi := rfl

@[simp] theorem Cursor.fetched_frame :
    (c.fetched pi dynamic).frame = { c.frame with pi := pi.members } := rfl

theorem fetchProcInfo_valid (valid : c.piValid = true) :
    (fetchProcInfo sources ip false).outcome c = (.ok (), c) := by
  rw [fetchProcInfo, Routine.outcome_bind_ok (Routine.outcome_get c), if_pos ⟨valid, by decide⟩,
    Routine.outcome_pure]

theorem fetchProcInfo_found (isNeeded : c.piValid = true → need = true)
    (found : sources.lookUp ip need = (.ok pi, dynamic)) :
    (fetchProcInfo sources ip need).outcome c = (.ok (), c.fetched pi dynamic) := by
  have looks : ¬(c.piValid = true ∧ ¬need = true) := fun skips => skips.2 (isNeeded skips.1)
  rw [fetchProcInfo, Routine.outcome_bind_ok (Routine.outcome_get c), if_neg looks, found]
  rfl

theorem fetchProcInfo_failed (isNeeded : c.piValid = true → need = true)
    (found : sources.lookUp ip need = (.error code, dynamic)) :
    (fetchProcInfo sources ip need).outcome c =
      (.error (.err code),
        c.fetched ⟨sources.leaves ip need c.frame.pi, sources.leavesUnwind ip need c.unwind⟩
          dynamic) := by
  have looks : ¬(c.piValid = true ∧ ¬need = true) := fun skips => skips.2 (isNeeded skips.1)
  rw [fetchProcInfo, Routine.outcome_bind_ok (Routine.outcome_get c), if_neg looks, found]
  rfl

/-- What `build_script` does with the proc info that a cursor has. -/
def Cursor.build (sources : ProcSources) (memory : Nat → Bool) (rounds : Nat) (c : Cursor) :
    Result (Except UnwError Built × UnwProcInfo × Bool) :=
  (ScriptBuild.start memory c.frame.ip c.frame.pr c.pi c.piIsDynamic).run sources c.frame.pr rounds

theorem buildScriptFor_returned (valid : c.piValid = true) {ret : Except UnwError Built}
    (built : c.build sources memory rounds = .ok (ret, pi, dynamic)) :
    (buildScriptFor sources memory rounds).outcome c = (ofAccess ret, c.fetched pi dynamic) := by
  have same : { c.setPi pi with piIsDynamic := dynamic } = c.fetched pi dynamic := by
    rw [Cursor.fetched, ← valid]
    rfl
  rw [buildScriptFor, Routine.outcome_bind_ok (Routine.outcome_get c), if_pos valid]
  rw [Cursor.build] at built
  rw [Routine.outcome_bind_ok (by rw [Routine.outcome_given, built]),
    Routine.outcome_bind_ok (Routine.outcome_set _ _), same, Routine.outcome_given]

theorem buildScriptFor_failed (valid : c.piValid = true) {e : Fault}
    (failed : c.build sources memory rounds = .error e) :
    (buildScriptFor sources memory rounds).outcome c = (.error e, c) := by
  rw [Cursor.build] at failed
  rw [buildScriptFor, Routine.outcome_bind_ok (Routine.outcome_get c), if_pos valid,
    Routine.outcome_bind_error (by rw [Routine.outcome_given, failed])]

/-! ## A step without the cache -/

theorem uncachedStep_eq (c : Cursor) :
    (uncachedStep sources memory rounds target).outcome c =
      Routine.andThen ((fetchProcInfo sources c.frame.ip true).outcome c) fun _ c =>
        Routine.andThen ((buildScriptFor sources memory rounds).outcome c) fun built c =>
          (completeStep target c.pi built.abiMarker built.insns).outcome c := by
  simp only [uncachedStep, uncachedFindSaveLocs, completeStep]
  generalize finishStep target = finish
  simp only [Routine.outcome_bind, Routine.outcome_get, Routine.andThen_ok]
  generalize (fetchProcInfo sources c.frame.ip true).outcome c = fetched
  rcases fetched with ⟨e | _, c⟩
  · rfl
  rw [Routine.andThen_ok, Routine.andThen_ok]
  generalize (buildScriptFor sources memory rounds).outcome c = built
  rcases built with ⟨e | built, c⟩
  · rfl
  · rfl

theorem uncachedStep_failed (found : sources.lookUp c.frame.ip true = (.error code, dynamic)) :
    frameOf ((uncachedStep sources memory rounds target).outcome c) =
      (.error (.err code), { c.frame with pi := sources.leaves c.frame.ip true c.frame.pi }) := by
  rw [uncachedStep_eq, fetchProcInfo_failed (fun _ => rfl) found, Routine.andThen_error]
  rfl

variable (found : sources.lookUp c.frame.ip true = (.ok pi, dynamic))
include found

variable (target) in
theorem uncachedStep_stuck {e : Fault}
    (failed : (c.fetched pi dynamic).build sources memory rounds = .error e) :
    frameOf ((uncachedStep sources memory rounds target).outcome c) =
      (.error e, { c.frame with pi := pi.members }) := by
  rw [uncachedStep_eq, fetchProcInfo_found (fun _ => rfl) found, Routine.andThen_ok,
    buildScriptFor_failed rfl failed, Routine.andThen_error]
  rfl

theorem uncachedStep_built {built : Built} {pi' : UnwProcInfo} {dynamic' : Bool}
    (returned : (c.fetched pi dynamic).build sources memory rounds = .ok (.ok built, pi', dynamic')) :
    frameOf ((uncachedStep sources memory rounds target).outcome c) =
      (frameStep target pi'.members built.abiMarker built.insns).outcome c.frame := by
  rw [uncachedStep_eq, fetchProcInfo_found (fun _ => rfl) found, Routine.andThen_ok,
    buildScriptFor_returned rfl returned, ofAccess_ok, Routine.andThen_ok, completeStep_frame,
    Cursor.fetched_pi, Cursor.fetched_frame, Cursor.fetched_frame]
  exact frameStep_anyPi ..

end Cursors

end Libunwind.Ia64
