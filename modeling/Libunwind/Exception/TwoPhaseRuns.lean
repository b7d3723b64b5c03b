import Libunwind.Exception.TwoPhase

/-! # Runs of the two-phase protocol

One invariant serves the normal and the forced unwinding: what was done for the frames
behind the walk is what is to be done for each of them, and the walk goes on, across
`_Unwind_Resume`, with the frames after them. In the normal one no frame before the
handler's has the IP that the search left, since the search went past it.
-/

namespace Libunwind.Exception.TwoPhase

variable {w : Nat}

/-! ## What holds in phase 2 -/

/-- The frames behind the walk have been passed with `calls`, in the order of the stack
    `inner ++ rest`, and so have those that came back from their landing pads. -/
structure Underway (calls : Frame w → List (Call w)) (inner rest : List (Frame w))
    (actions : Actions) (whole : List (Call w)) (fine : Frame w → Prop) (s : State w) : Prop where
  place : match s.mode with
    | .phase2 cursor acts pad _ => acts = actions ∧ ∃ ahead, Walked calls inner s.trace ahead ∧
        (∃ pads : List (Frame w), s.padTrace = pads.flatMap calls) ∧
        if pad then ∃ f, fine f ∧ cursor.outer = f :: (ahead ++ rest)
          else cursor.outer = ahead ++ rest
    | .landed cursor false => ∃ ahead, Walked calls inner s.trace ahead ∧
        (∃ pads : List (Frame w), s.padTrace = pads.flatMap calls) ∧ cursor.outer = ahead ++ rest
    | .search _ => False
    | _ => s.trace <+: whole ∧ ∃ pads : List (Frame w), s.padTrace <+: pads.flatMap calls

section Kept

variable {calls : Frame w → List (Call w)} {inner rest ahead pads : List (Frame w)}
  {actions : Actions} {whole : List (Call w)} {fine : Frame w → Prop} {s s' : State w}
  {caller : Cursor w} {inResume : Bool}

theorem Underway.of_stopped {mode : Mode w} (modeIs : s.mode = mode) (stopped : mode.Stopped)
    (inOrder : s.trace <+: whole) (padOrder : s.padTrace <+: pads.flatMap calls) :
    Underway calls inner rest actions whole fine s := by
  constructor
  cases mode with
  | returned reason =>
      rw [modeIs]
      exact ⟨inOrder, pads, padOrder⟩
  | aborted =>
      rw [modeIs]
      exact ⟨inOrder, pads, padOrder⟩
  | search cursor => exact stopped.elim
  | phase2 cursor acts pad inResume => exact stopped.elim
  | landed cursor handlerFrame => exact stopped.elim

theorem Underway.of_goesOn (goes : GoesOn caller actions inResume s.mode)
    (plain : actions.handlerFrame = false) (walked : Walked calls inner s.trace ahead)
    (padOrder : s.padTrace = pads.flatMap calls) (outer : caller.outer = ahead ++ rest) :
    Underway calls inner rest actions whole fine s := by
  constructor
  cases goes with
  | inl walks =>
      rw [walks.1]
      exact ⟨rfl, ahead, walked, ⟨pads, padOrder⟩, outer⟩
  | inr landed =>
      rw [landed, plain]
      exact ⟨ahead, walked, ⟨pads, padOrder⟩, outer⟩

/-- A frame of the stack is passed. -/
theorem Underway.pass (passes : Passes s false inResume caller (calls caller.frame) actions s')
    (plain : actions.handlerFrame = false) (isPart : inner.flatMap calls <+: whole)
    (walked : Walked calls inner s.trace (caller.frame :: ahead))
    (padOrder : s.padTrace = pads.flatMap calls) (outer : caller.outer = ahead ++ rest) :
    Underway calls inner rest actions whole fine s' := by
  obtain ⟨made, mode, rfl, stops | goes⟩ := passes
  · have inOrder := (walked.within stops.2).trans isPart
    have padsMade : s.padTrace <+: pads.flatMap calls := by rw [padOrder]
    exact .of_stopped rfl stops.1 inOrder padsMade
  · obtain ⟨rfl, goes⟩ := goes
    exact .of_goesOn goes plain walked.next padOrder outer

/-- A frame that came back from its landing pad is passed. -/
theorem Underway.passPad (passes : Passes s true inResume caller (calls caller.frame) actions s')
    (plain : actions.handlerFrame = false) (isPart : inner.flatMap calls <+: whole)
    (walked : Walked calls inner s.trace ahead)
    (padOrder : s.padTrace = pads.flatMap calls) (outer : caller.outer = ahead ++ rest) :
    Underway calls inner rest actions whole fine s' := by
  have onePad : (pads ++ [caller.frame]).flatMap calls = s.padTrace ++ calls caller.frame := by
    simp [padOrder]
  obtain ⟨made, mode, rfl, stops | goes⟩ := passes
  · have padsMade : s.padTrace ++ made <+: (pads ++ [caller.frame]).flatMap calls := by
      rw [onePad, List.prefix_append_right_inj]
      exact stops.2
    exact .of_stopped rfl stops.1 (walked.isPrefix.trans isPart) padsMade
  · obtain ⟨rfl, goes⟩ := goes
    exact .of_goesOn goes plain walked onePad.symm outer

end Kept

/-! ## Raising an exception -/

def cleanupCalls (f : Frame w) : List (Call w) := callsFor false f .cleanup .cleanup

/-- What phase 2 does when nothing ends it before the handler's frame. -/
def offered (inner : List (Frame w)) (handler : Frame w) : List (Call w) :=
  inner.flatMap cleanupCalls ++ callsFor false handler .cleanup ⟨true, false, false⟩

section Raise

variable {own : Frame w} {stack : List (Frame w)} {stepEnds : Bool} {search : Word w → ReasonCode}
  {inner : List (Frame w)} {H cursor caller : Cursor w} {s s' : State w} {e : Event w}

/-- The search goes past this frame. -/
def Continues (search : Word w → ReasonCode) (f : Frame w) : Prop :=
  f.hasPersonality = true → search f.ip = .continueUnwind

/-- What holds during the search. -/
structure Searching (search : Word w → ReasonCode) (stack : List (Frame w)) (s : State w) :
    Prop where
  notFound : s.found = none
  trace : s.trace = []
  padTrace : s.padTrace = []
  mode : match s.mode with
    | .search cursor => ∃ passed, stack = passed ++ cursor.outer ∧
        ∀ f ∈ passed, Continues search f
    | .returned _ => True
    | _ => False

/-- What holds from the end of the search on, when it stopped at `H`. -/
structure Unwinding (search : Word w → ReasonCode) (stack inner : List (Frame w)) (H : Cursor w)
    (s : State w) : Prop where
  found : s.found = some H
  split : stack = inner ++ H.frames
  handles : H.frame.hasPersonality = true
  isHandler : search H.frame.ip = .handlerFound
  skipped : ∀ f ∈ inner, Continues search f
  normal : s.private1 = 0
  marker : s.private2 = H.frame.ip
  underway : Underway cleanupCalls inner H.frames .cleanup (offered inner H.frame)
    (Continues search) s

theorem Searching.round {a : Answer} (searching : Searching search stack s)
    (mode : s.mode = .search cursor) :
    Searching search stack (searchRound own stack stepEnds search s cursor a) ∨
      ∃ inner H, Unwinding search stack inner H
        (searchRound own stack stepEnds search s cursor a) := by
  obtain ⟨notFound, trace, padTrace, place⟩ := searching
  rw [mode] at place
  obtain ⟨passed, split, skipped⟩ := place
  cases stepped : cursor.up with
  | none =>
      simp only [searchRound, stepped]
      exact Or.inl ⟨notFound, trace, padTrace, trivial⟩
  | some caller =>
      have outer := StackCursor.outer_of_up stepped
      rw [outer] at split
      have goesOn (goes : Continues search caller.frame) :
          ∃ passed, stack = passed ++ caller.outer ∧ ∀ f ∈ passed, Continues search f := by
        refine ⟨passed ++ [caller.frame], by simp [split, StackCursor.frames], ?_⟩
        intro f member
        cases List.mem_append.mp member with
        | inl before => exact skipped f before
        | inr last => exact List.mem_singleton.mp last ▸ goes
      cases info : caller.frame.handler with
      | none =>
          simp only [searchRound, stepped, info]
          exact Or.inl ⟨notFound, trace, padTrace, trivial⟩
      | some handler =>
          by_cases lacking : handler = 0
          · simp only [searchRound, stepped, info, lacking, if_true]
            have none : caller.frame.hasPersonality = false := by
              simp [Frame.hasPersonality, info, lacking]
            exact Or.inl ⟨notFound, trace, padTrace, goesOn (by simp [Continues, none])⟩
          · simp only [searchRound, stepped, info, lacking, if_false]
            have one : caller.frame.hasPersonality = true := by
              simpa [Frame.hasPersonality, info] using lacking
            cases reason : search caller.frame.ip with
            | continueUnwind =>
                exact Or.inl ⟨notFound, trace, padTrace, goesOn fun _ => reason⟩
            | handlerFound =>
                cases readable : caller.frame.ipReadable with
                | false => exact Or.inl ⟨notFound, trace, padTrace, trivial⟩
                | true =>
                    refine Or.inr ⟨passed, caller, rfl, split, one, reason, skipped, rfl, rfl, ?_⟩
                    constructor
                    cases a.resets with
                    | true =>
                        refine ⟨rfl, passed, ?_, ⟨[], padTrace⟩, split⟩
                        exact trace ▸ Walked.start _ passed
                    | false =>
                        simp only [Bool.false_eq_true, if_false, trace, padTrace]
                        exact ⟨List.nil_prefix, [], List.nil_prefix⟩
            | noReason => exact Or.inl ⟨notFound, trace, padTrace, trivial⟩
            | foreignExceptionCaught => exact Or.inl ⟨notFound, trace, padTrace, trivial⟩
            | fatalPhase2Error => exact Or.inl ⟨notFound, trace, padTrace, trivial⟩
            | fatalPhase1Error => exact Or.inl ⟨notFound, trace, padTrace, trivial⟩
            | normalStop => exact Or.inl ⟨notFound, trace, padTrace, trivial⟩
            | endOfStack => exact Or.inl ⟨notFound, trace, padTrace, trivial⟩
            | installContext => exact Or.inl ⟨notFound, trace, padTrace, trivial⟩

/-- Only the handler's frame has the IP that the search left. -/
theorem Unwinding.unmarked (unwinding : Unwinding search stack inner H s) {f : Frame w}
    (continues : Continues search f) (one : f.hasPersonality = true) :
    actionsFor s f .cleanup = .cleanup := by
  have other : s.private2 ≠ f.ip := by
    intro same
    have found := unwinding.isHandler
    rw [← unwinding.marker, same, continues one] at found
    exact nomatch found
  simp [actionsFor, other]

/-- The parts of a state that a round of phase 2 keeps. -/
theorem Unwinding.of_passes {pad inResume : Bool} {calls : List (Call w)} {actions : Actions}
    (unwinding : Unwinding search stack inner H s)
    (passes : Passes s pad inResume caller calls actions s')
    (underway : Underway cleanupCalls inner H.frames .cleanup (offered inner H.frame)
      (Continues search) s') : Unwinding search stack inner H s' := by
  obtain ⟨made, mode, rfl, -⟩ := passes
  cases pad with
  | false => exact { unwinding with underway }
  | true => exact { unwinding with underway }

theorem Unwinding.passes {pad inResume : Bool} {a : Answer}
    (unwinding : Unwinding search stack inner H s) (stepped : cursor.up = some caller)
    (continues : Continues search caller.frame) :
    Passes s pad inResume caller (cleanupCalls caller.frame) .cleanup
      (phase2Round stepEnds s cursor .cleanup pad inResume a) := by
  have normal : decide (s.private1 ≠ 0) = false := by simp [unwinding.normal]
  rw [cleanupCalls, ← normal]
  exact phase2Round_unmarked stepped rfl (unwinding.unmarked continues)

/-- The round that comes to the handler's frame ends phase 2 there. -/
theorem Unwinding.atHandler {inResume : Bool} {a : Answer} {pads : List (Frame w)}
    (unwinding : Unwinding search stack inner H s) (stepped : cursor.up = some caller)
    (isHandler : caller.frame = H.frame) (walked : Walked cleanupCalls inner s.trace [])
    (padOrder : s.padTrace = pads.flatMap cleanupCalls) :
    Unwinding search stack inner H (phase2Round stepEnds s cursor .cleanup false inResume a) := by
  have normal : decide (s.private1 ≠ 0) = false := by simp [unwinding.normal]
  have marked : actionsFor s H.frame .cleanup = ⟨true, false, false⟩ := by
    simp [actionsFor, unwinding.normal, unwinding.marker, Actions.cleanup]
  have passes : Passes s false inResume caller
      (callsFor false H.frame .cleanup ⟨true, false, false⟩) ⟨true, false, false⟩
      (phase2Round stepEnds s cursor .cleanup false inResume a) := by
    have plain : Actions.cleanup.handlerFrame = false := rfl
    have round : Passes s false inResume caller _ _
        (phase2Round stepEnds s cursor .cleanup false inResume a) := phase2Round_up stepped plain
    rwa [isHandler, normal, marked, if_pos unwinding.handles] at round
  apply unwinding.of_passes passes
  have padsMade : s.padTrace <+: pads.flatMap cleanupCalls := by rw [padOrder]
  have before : s.trace = inner.flatMap cleanupCalls := by
    obtain ⟨passed, split, made⟩ := walked
    rw [made, split, List.append_nil]
  obtain ⟨made, mode, result, stops | goes⟩ := passes
  · have inOrder : s.trace ++ made <+: offered inner H.frame := by
      rw [offered, ← before]
      exact (List.prefix_append_right_inj s.trace).mpr stops.2
    rw [result]
    exact .of_stopped rfl stops.1 inOrder padsMade
  · obtain ⟨rfl, walks | landed⟩ := goes
    · simp at walks
    · constructor
      rw [result, landed]
      refine ⟨?_, pads, padsMade⟩
      rw [offered, ← before]
      exact List.prefix_rfl

theorem Unwinding.round {actions : Actions} {pad inResume : Bool} {a : Answer}
    (unwinding : Unwinding search stack inner H s)
    (mode : s.mode = .phase2 cursor actions pad inResume) :
    Unwinding search stack inner H (phase2Round stepEnds s cursor actions pad inResume a) := by
  have place := unwinding.underway.place
  rw [mode] at place
  obtain ⟨rfl, ahead, walked, ⟨pads, padOrder⟩, outer⟩ := place
  have isPart : inner.flatMap cleanupCalls <+: offered inner H.frame := List.prefix_append _ _
  cases stepped : cursor.up with
  | none =>
      rw [StackCursor.up_eq_none.mp stepped] at outer
      cases pad with
      | false => simp [StackCursor.frames] at outer
      | true => simp at outer
  | some caller =>
      rw [StackCursor.outer_of_up stepped] at outer
      cases pad with
      | true =>
          obtain ⟨f, continues, isPad⟩ := outer
          obtain ⟨rfl, outer⟩ := List.cons_eq_cons.mp isPad
          have passes : Passes s true inResume caller (cleanupCalls caller.frame) .cleanup
              (phase2Round stepEnds s cursor .cleanup true inResume a) :=
            unwinding.passes stepped continues
          exact unwinding.of_passes passes
            (.passPad passes rfl isPart walked padOrder outer)
      | false =>
          have next : caller.frames = ahead ++ H.frames := outer
          cases ahead with
          | nil =>
              obtain ⟨isHandler, -⟩ := List.cons_eq_cons.mp next
              exact unwinding.atHandler stepped isHandler walked padOrder
          | cons f ahead =>
              obtain ⟨rfl, beyond⟩ := List.cons_eq_cons.mp next
              have inInner := walked.mem_stack List.mem_cons_self
              have passes : Passes s false inResume caller (cleanupCalls caller.frame) .cleanup
                  (phase2Round stepEnds s cursor .cleanup false inResume a) :=
                unwinding.passes stepped (unwinding.skipped _ inInner)
              exact unwinding.of_passes passes (.pass passes rfl isPart walked padOrder beyond)

theorem Unwinding.resume {pad : Frame w} {inits : Bool}
    (unwinding : Unwinding search stack inner H s) (mode : s.mode = .landed cursor false)
    (continues : Continues search pad) :
    Unwinding search stack inner H (unwindResume own s cursor pad inits) := by
  have place := unwinding.underway.place
  rw [mode] at place
  obtain ⟨ahead, walked, ⟨pads, padOrder⟩, outer⟩ := place
  have isPart : inner.flatMap cleanupCalls <+: offered inner H.frame := List.prefix_append _ _
  cases inits with
  | false =>
      have padsMade : s.padTrace <+: pads.flatMap cleanupCalls := by rw [padOrder]
      have ended : (Mode.aborted : Mode w).Stopped := trivial
      have aborted : Underway cleanupCalls inner H.frames .cleanup (offered inner H.frame)
          (Continues search) { s with mode := .aborted } :=
        .of_stopped rfl ended (walked.isPrefix.trans isPart) padsMade
      exact { unwinding with underway := aborted }
  | true =>
      have again : Underway cleanupCalls inner H.frames .cleanup (offered inner H.frame)
          (Continues search) (unwindResume own s cursor pad true) := by
        constructor
        simp only [unwindResume, if_true, unwinding.normal, ne_eq, not_true_eq_false, if_false]
        exact ⟨trivial, ahead, walked, ⟨pads, padOrder⟩, pad, continues, by simp [initContext, outer]⟩
      exact { unwinding with underway := again }

/-- What holds in every run. -/
def Holds (search : Word w → ReasonCode) (stack : List (Frame w)) (s : State w) : Prop :=
  Searching search stack s ∨ ∃ inner H, Unwinding search stack inner H s

theorem Holds.step (holds : Holds search stack s) (allowed : Allowed search s e)
    (stepped : Steps own stack stepEnds search s e s') : Holds search stack s' := by
  cases e with
  | round a =>
      cases mode : s.mode with
      | search cursor =>
          simp only [Steps, next, mode, Option.some.injEq] at stepped
          subst stepped
          cases holds with
          | inl searching => exact searching.round mode
          | inr unwinding =>
              obtain ⟨inner, H, unwinding⟩ := unwinding
              have noSearch := unwinding.underway.place
              simp only [mode] at noSearch
      | phase2 cursor actions pad inResume =>
          simp only [Steps, next, mode, Option.some.injEq] at stepped
          subst stepped
          cases holds with
          | inl searching =>
              have onlySearch := searching.mode
              simp only [mode] at onlySearch
          | inr unwinding =>
              obtain ⟨inner, H, unwinding⟩ := unwinding
              exact Or.inr ⟨inner, H, unwinding.round mode⟩
      | landed cursor handlerFrame => simp only [Steps, next, mode, reduceCtorEq] at stepped
      | returned reason => simp only [Steps, next, mode, reduceCtorEq] at stepped
      | aborted => simp only [Steps, next, mode, reduceCtorEq] at stepped
  | resume pad inits =>
      cases mode : s.mode with
      | landed cursor handlerFrame =>
          cases handlerFrame with
          | true => simp only [Steps, next, mode, reduceCtorEq] at stepped
          | false =>
              simp only [Steps, next, mode, Option.some.injEq] at stepped
              subst stepped
              cases holds with
              | inl searching =>
                  have onlySearch := searching.mode
                  simp only [mode] at onlySearch
              | inr unwinding =>
                  obtain ⟨inner, H, unwinding⟩ := unwinding
                  exact Or.inr ⟨inner, H, unwinding.resume mode allowed⟩
      | search cursor => simp only [Steps, next, mode, reduceCtorEq] at stepped
      | phase2 cursor actions pad inResume =>
          simp only [Steps, next, mode, reduceCtorEq] at stepped
      | returned reason => simp only [Steps, next, mode, reduceCtorEq] at stepped
      | aborted => simp only [Steps, next, mode, reduceCtorEq] at stepped

end Raise

/-! ## Forced unwinding -/

def forcedCalls (f : Frame w) : List (Call w) := callsFor true f .forced .forced

/-- What phase 2 does when nothing ends it before the end of the stack. -/
def forcedThrough (stack : List (Frame w)) : List (Call w) :=
  stack.flatMap forcedCalls ++ [.stopAtEnd ⟨false, true, true⟩]

section Forced

variable {own : Frame w} {stack : List (Frame w)} {stepEnds : Bool} {search : Word w → ReasonCode}
  {cursor caller : Cursor w} {s s' : State w} {e : Event w}

structure Forcing (stack : List (Frame w)) (s : State w) : Prop where
  forced : s.private1 ≠ 0
  atEnd : s.endOfStack = true → s.mode.Stopped ∧ s.trace = forcedThrough stack
  underway : Underway forcedCalls stack [] .forced (forcedThrough stack) (fun _ => True) s

theorem Forcing.of_passes {pad inResume : Bool} {calls : List (Call w)} {actions : Actions}
    (forcing : Forcing stack s) (walks : ¬ s.mode.Stopped)
    (passes : Passes s pad inResume caller calls actions s')
    (underway : Underway forcedCalls stack [] .forced (forcedThrough stack) (fun _ => True) s') :
    Forcing stack s' := by
  have goesOn : s.endOfStack ≠ true := fun ended => walks (forcing.atEnd ended).1
  obtain ⟨made, mode, rfl, -⟩ := passes
  cases pad with
  | false => exact ⟨forcing.forced, fun ended => absurd ended goesOn, underway⟩
  | true => exact ⟨forcing.forced, fun ended => absurd ended goesOn, underway⟩

theorem Forcing.passes {pad inResume : Bool} {a : Answer} (forcing : Forcing stack s)
    (stepped : cursor.up = some caller) :
    Passes s pad inResume caller (forcedCalls caller.frame) .forced
      (phase2Round stepEnds s cursor .forced pad inResume a) := by
  have forced : decide (s.private1 ≠ 0) = true := decide_eq_true forcing.forced
  have same : actionsFor s caller.frame .forced = .forced := by
    have isForced : ¬ s.private1 = 0#w := forcing.forced
    simp [actionsFor, isForced]
  rw [forcedCalls, ← forced]
  exact phase2Round_unmarked stepped rfl fun _ => same

/-- The stop function is called once more at the end of the stack. -/
theorem Forcing.atTop {inResume : Bool} {a : Answer} {pads : List (Frame w)}
    (forcing : Forcing stack s) (walks : ¬ s.mode.Stopped) (stepped : cursor.up = none)
    (walked : Walked forcedCalls stack s.trace [])
    (padOrder : s.padTrace = pads.flatMap forcedCalls) :
    Forcing stack (phase2Round stepEnds s cursor .forced false inResume a) := by
  have goesOn : s.endOfStack ≠ true := fun ended => walks (forcing.atEnd ended).1
  have forced : ¬ s.private1 = 0#w := forcing.forced
  have padsMade : s.padTrace <+: pads.flatMap forcedCalls := by rw [padOrder]
  have before : s.trace = stack.flatMap forcedCalls := by
    obtain ⟨passed, split, made⟩ := walked
    rw [made, split, List.append_nil]
  cases stepEnds with
  | false =>
      obtain ⟨mode, stopped, failed⟩ := fail_stopped s inResume
      have ends : phase2Round false s cursor .forced false inResume a = { s with mode } := by
        simp [phase2Round, stepped, failed]
      have inOrder : s.trace <+: forcedThrough stack := before ▸ List.prefix_append _ _
      rw [ends]
      exact ⟨forcing.forced, fun ended => absurd ended goesOn,
        .of_stopped rfl stopped inOrder padsMade⟩
  | true =>
      let ended : State w := { s with
        endOfStack := true
        trace := forcedThrough stack }
      obtain ⟨mode, stopped, failed⟩ := fail_stopped ended inResume
      have ends : phase2Round true s cursor .forced false inResume a = { ended with mode } := by
        rw [← failed]
        simp [phase2Round, stepped, forced, State.record, ended, forcedThrough, before,
          Actions.forced]
      rw [ends]
      exact ⟨forcing.forced, fun _ => ⟨stopped, rfl⟩,
        .of_stopped rfl stopped List.prefix_rfl padsMade⟩

theorem Forcing.round {actions : Actions} {pad inResume : Bool} {a : Answer}
    (forcing : Forcing stack s) (mode : s.mode = .phase2 cursor actions pad inResume) :
    Forcing stack (phase2Round stepEnds s cursor actions pad inResume a) := by
  have place := forcing.underway.place
  have walks : ¬ s.mode.Stopped := by simp [mode, Mode.Stopped]
  rw [mode] at place
  obtain ⟨rfl, ahead, walked, ⟨pads, padOrder⟩, outer⟩ := place
  have isPart : stack.flatMap forcedCalls <+: forcedThrough stack := List.prefix_append _ _
  rw [List.append_nil] at outer
  cases stepped : cursor.up with
  | none =>
      rw [StackCursor.up_eq_none.mp stepped] at outer
      cases pad with
      | true => simp at outer
      | false =>
          cases outer
          exact forcing.atTop walks stepped walked padOrder
  | some caller =>
      rw [StackCursor.outer_of_up stepped] at outer
      have beyond : caller.outer = caller.outer ++ [] := (List.append_nil _).symm
      cases pad with
      | true =>
          obtain ⟨f, -, isPad⟩ := outer
          obtain ⟨-, rfl⟩ := List.cons_eq_cons.mp isPad
          have passes : Passes s true inResume caller (forcedCalls caller.frame) .forced
              (phase2Round stepEnds s cursor .forced true inResume a) := forcing.passes stepped
          exact forcing.of_passes walks passes (.passPad passes rfl isPart walked padOrder beyond)
      | false =>
          cases outer
          have passes : Passes s false inResume caller (forcedCalls caller.frame) .forced
              (phase2Round stepEnds s cursor .forced false inResume a) := forcing.passes stepped
          exact forcing.of_passes walks passes (.pass passes rfl isPart walked padOrder beyond)

theorem Forcing.resume {pad : Frame w} {inits : Bool} (forcing : Forcing stack s)
    (mode : s.mode = .landed cursor false) :
    Forcing stack (unwindResume own s cursor pad inits) := by
  have place := forcing.underway.place
  have goesOn : s.endOfStack ≠ true := by
    intro ended
    have stopped := (forcing.atEnd ended).1
    simp only [mode, Mode.Stopped] at stopped
  rw [mode] at place
  obtain ⟨ahead, walked, ⟨pads, padOrder⟩, outer⟩ := place
  have isPart : stack.flatMap forcedCalls <+: forcedThrough stack := List.prefix_append _ _
  cases inits with
  | false =>
      have ended : (Mode.aborted : Mode w).Stopped := trivial
      have padsMade : s.padTrace <+: pads.flatMap forcedCalls := by rw [padOrder]
      exact ⟨forcing.forced, fun ended => absurd ended goesOn,
        .of_stopped rfl ended (walked.isPrefix.trans isPart) padsMade⟩
  | true =>
      refine ⟨forcing.forced, nofun, ?_⟩
      constructor
      simp only [unwindResume, if_true, forcing.forced, ne_eq, not_false_eq_true]
      exact ⟨trivial, ahead, walked, ⟨pads, padOrder⟩, pad, trivial, by simp [initContext, outer]⟩

theorem Forcing.step (forcing : Forcing stack s)
    (stepped : Steps own stack stepEnds search s e s') : Forcing stack s' := by
  have place := forcing.underway.place
  cases e with
  | round a =>
      cases mode : s.mode with
      | search cursor => simp only [mode] at place
      | phase2 cursor actions pad inResume =>
          simp only [Steps, next, mode, Option.some.injEq] at stepped
          subst stepped
          exact forcing.round mode
      | landed cursor handlerFrame => simp only [Steps, next, mode, reduceCtorEq] at stepped
      | returned reason => simp only [Steps, next, mode, reduceCtorEq] at stepped
      | aborted => simp only [Steps, next, mode, reduceCtorEq] at stepped
  | resume pad inits =>
      cases mode : s.mode with
      | landed cursor handlerFrame =>
          cases handlerFrame with
          | true => simp only [Steps, next, mode, reduceCtorEq] at stepped
          | false =>
              simp only [Steps, next, mode, Option.some.injEq] at stepped
              subst stepped
              exact forcing.resume mode
      | search cursor => simp only [Steps, next, mode, reduceCtorEq] at stepped
      | phase2 cursor actions pad inResume =>
          simp only [Steps, next, mode, reduceCtorEq] at stepped
      | returned reason => simp only [Steps, next, mode, reduceCtorEq] at stepped
      | aborted => simp only [Steps, next, mode, reduceCtorEq] at stepped

end Forced

/-! ## The protocol -/

section Protocol

variable {stack inner : List (Frame w)} {search : Word w → ReasonCode} {H : Cursor w}
  {s : State w}

/-- What phase 2, and every `_Unwind_Resume` after it, has done when the search stopped at the
    frame `handler`, which `inner` are the frames inside of. -/
structure TwoPhases (inner : List (Frame w)) (handler : Frame w) (s : State w) : Prop where
  /-- The personality routines of the frames in between are called for cleanup, in stack
      order, and no frame beyond the handler's is stepped to. -/
  inOrder : s.trace <+: offered inner handler
  /-- A frame is offered as the handler's only when it is, after all those inside of it. -/
  handlerFrame : ∀ f actions, .personality f actions ∈ s.trace ++ s.padTrace →
    actions.handlerFrame = true → f = handler ∧ s.trace = offered inner handler
  /-- Frames that came back from their landing pads are passed for cleanup. -/
  pads : ∃ pads : List (Frame w), s.padTrace <+: pads.flatMap cleanupCalls

/-- What a forced unwinding has done, with every `_Unwind_Resume` in it. A frame that comes
    back from its landing pad counts as another one. -/
structure StopsOnce (stack : List (Frame w)) (s : State w) : Prop where
  inOrder : s.trace <+: forcedThrough stack
  atEnd : s.endOfStack = true → s.trace = forcedThrough stack
  pads : ∃ pads : List (Frame w), s.padTrace <+: pads.flatMap forcedCalls

theorem Underway.inOrder {calls : Frame w → List (Call w)} {rest : List (Frame w)}
    {actions : Actions} {whole : List (Call w)} {fine : Frame w → Prop}
    (underway : Underway calls inner rest actions whole fine s)
    (isPart : inner.flatMap calls <+: whole) :
    s.trace <+: whole ∧ ∃ pads : List (Frame w), s.padTrace <+: pads.flatMap calls := by
  have place := underway.place
  cases mode : s.mode with
  | search cursor => simp only [mode] at place
  | phase2 cursor acts pad inResume =>
      rw [mode] at place
      obtain ⟨-, ahead, walked, ⟨pads, padOrder⟩, -⟩ := place
      exact ⟨walked.isPrefix.trans isPart, pads, by rw [padOrder]⟩
  | landed cursor handlerFrame =>
      cases handlerFrame with
      | true => simpa only [mode] using place
      | false =>
          rw [mode] at place
          obtain ⟨ahead, walked, ⟨pads, padOrder⟩, -⟩ := place
          exact ⟨walked.isPrefix.trans isPart, pads, by rw [padOrder]⟩
  | returned reason => simpa only [mode] using place
  | aborted => simpa only [mode] using place

theorem cleanup_of_mem {frames : List (Frame w)} {f : Frame w} {actions : Actions}
    (member : .personality f actions ∈ frames.flatMap cleanupCalls) :
    actions.handlerFrame = false := by
  obtain ⟨g, -, isCall⟩ := List.mem_flatMap.mp member
  cases one : g.hasPersonality with
  | false => simp [cleanupCalls, callsFor, one] at isCall
  | true =>
      simp only [cleanupCalls, callsFor, one, Bool.false_eq_true, if_false, if_true,
        List.nil_append, List.mem_cons, List.not_mem_nil, or_false, reduceCtorEq, false_or,
        Call.personality.injEq] at isCall
      rw [isCall.2]
      rfl

theorem Unwinding.twoPhases (unwinding : Unwinding search stack inner H s) :
    TwoPhases inner H.frame s := by
  obtain ⟨inOrder, pads, padOrder⟩ := unwinding.underway.inOrder (List.prefix_append _ _)
  refine ⟨inOrder, ?_, pads, padOrder⟩
  intro f actions member handlers
  have notCleanup {frames : List (Frame w)} :
      .personality f actions ∉ frames.flatMap cleanupCalls := fun isCleanup => by
    simp [cleanup_of_mem isCleanup] at handlers
  have inTrace := (List.mem_append.mp member).resolve_right fun inPads =>
    notCleanup (padOrder.subset inPads)
  have isLast : offered inner H.frame = inner.flatMap cleanupCalls ++ [.step H.frame] ++
      [.personality H.frame ⟨true, false, false⟩] := by
    simp [offered, callsFor, unwinding.handles]
  rw [isLast] at inOrder ⊢
  have offeredIt := inOrder.subset inTrace
  simp only [List.mem_append, notCleanup, List.mem_singleton, reduceCtorEq, false_or,
    Call.personality.injEq] at offeredIt
  cases List.prefix_concat_iff.mp inOrder with
  | inl whole => exact ⟨offeredIt.1, whole⟩
  | inr short =>
      have early := short.subset inTrace
      simp [notCleanup] at early

/-- When the search stops at the frame of `H`, phase 2 comes to it with `_UA_HANDLER_FRAME`
    and to no other one so, after the cleanup of the frames inside of it; and a forced
    unwinding calls the stop function for each frame, and at the end of the stack. -/
theorem protocol_agrees (own : Frame w) (stack : List (Frame w)) (stepEnds : Bool)
    (search : Word w → ReasonCode) :
    (∀ s H, Run (RaiseStarts own stack) (Steps own stack stepEnds search) (Allowed search) s →
      s.found = some H → ∃ inner, stack = inner ++ H.frames ∧ TwoPhases inner H.frame s) ∧
    (∀ s, Run (ForceStarts own stack) (Steps own stack stepEnds search) (fun _ _ => True) s →
      StopsOnce stack s) := by
  constructor
  · intro s H run found
    have holds : Holds search stack s := by
      apply run.invariant
      · intro s starts
        obtain ⟨mode, notFound, -, trace, padTrace⟩ := starts
        refine Or.inl ⟨notFound, trace, padTrace, ?_⟩
        rw [mode]
        exact ⟨[], rfl, nofun⟩
      · intro s e s' holds allowed stepped
        exact holds.step allowed stepped
    cases holds with
    | inl searching => exact nomatch searching.notFound.symm.trans found
    | inr unwinding =>
        obtain ⟨inner, other, unwinding⟩ := unwinding
        cases unwinding.found.symm.trans found
        exact ⟨inner, unwinding.split, unwinding.twoPhases⟩
  · intro s run
    have forcing : Forcing stack s := by
      apply run.invariant
      · intro s starts
        obtain ⟨forced, mode, -, goesOn, trace, padTrace⟩ := starts
        refine ⟨forced, fun ended => absurd (goesOn.symm.trans ended) nofun, ?_⟩
        constructor
        rw [mode]
        refine ⟨rfl, stack, ?_, ⟨[], padTrace⟩, (List.append_nil stack).symm⟩
        exact trace ▸ Walked.start _ stack
      · intro s e s' forcing _ stepped
        exact forcing.step stepped
    obtain ⟨inOrder, pads⟩ := forcing.underway.inOrder (List.prefix_append _ _)
    exact ⟨inOrder, fun ended => (forcing.atEnd ended).2, pads⟩

end Protocol

/-! ## A recursive function that catches -/

namespace Recursion

def frame (ip : Word 64) (handler : Word 64) : Frame 64 := ⟨ip, true, some handler⟩

def own : Frame 64 := frame 0x1000 0

def inner : Frame 64 := frame 0x2000 0x8100

def pad : Frame 64 := frame 0x2040 0x8100

/-- Both activations of the function that catches. -/
def catcher : Frame 64 := frame 0x3000 0x8100

def stack : List (Frame 64) := [inner, catcher, catcher]

def search (ip : Word 64) : ReasonCode :=
  if ip = 0x3000 then .handlerFound else .continueUnwind

def answer (personality : ReasonCode) : Event 64 := .round ⟨true, .noReason, personality, true⟩

def raising : State 64 := ⟨0, 0, .search (initContext own stack), none, false, [], []⟩

def forcing : State 64 :=
  ⟨0x9000, 0, .phase2 (initContext own stack) .forced false false, none, false, [], []⟩

instance (s : State 64) (e : Event 64) : Decidable (Allowed search s e) :=
  match e with
  | .round _ => .isTrue trivial
  | .resume pad _ => inferInstanceAs (Decidable (pad.hasPersonality = true → _))

/-- The search, the inner frame's cleanup, and the handler's landing pad. -/
def caught : List (Event 64) :=
  [answer .installContext, answer .continueUnwind, .resume pad true, answer .installContext,
    answer .continueUnwind, answer .continueUnwind]

/-- To the end of the stack, through the inner frame's cleanup. -/
def unwound : List (Event 64) :=
  [answer .continueUnwind, answer .continueUnwind, answer .continueUnwind,
    answer .continueUnwind, .resume pad true, answer .installContext]

theorem innermost_caught :
    (∃ s, follow (Allowed search) (next own stack true search) raising caught = some s ∧
      s.found = some ⟨catcher, [catcher]⟩ ∧
      ∃ inside, stack = inside ++ [catcher, catcher] ∧ TwoPhases inside catcher s) ∧
    ∃ s, follow (fun _ _ => True) (next own stack true search) forcing unwound = some s ∧
      s.endOfStack = true ∧ StopsOnce stack s := by
  constructor
  · have starts : RaiseStarts own stack raising := ⟨rfl, rfl, rfl, rfl, rfl⟩
    refine ⟨_, rfl, rfl, ?_⟩
    exact (protocol_agrees own stack true search).1 _ ⟨catcher, [catcher]⟩
      (Run.follow starts caught rfl) rfl
  · have starts : ForceStarts own stack forcing := ⟨by decide, rfl, rfl, rfl, rfl, rfl⟩
    refine ⟨_, rfl, rfl, ?_⟩
    exact (protocol_agrees own stack true search).2 _ (Run.follow starts unwound rfl)

end Recursion

end Libunwind.Exception.TwoPhase
