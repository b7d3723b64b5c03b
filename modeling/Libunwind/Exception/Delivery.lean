import Libunwind.Exception.TwoPhaseRuns

/-! # Delivery of an exception

What becomes of an exception when nothing goes wrong: every frame up to the handler's can be passed,
and each routine does what it announced. Then the unwinder does not give up, and the handler's landing
pad is reached after two rounds for each frame.
-/

namespace Libunwind.Exception.TwoPhase

variable {w : Nat}

/-- A frame that both phases get past. -/
structure Frame.Passable (search : Word w → ReasonCode) (f : Frame w) : Prop where
  info : f.handler.isSome = true
  readable : f.hasPersonality = true → f.ipReadable = true
  continues : Continues search f

/-- A frame at which the search ends. -/
structure Frame.Catches (search : Word w → ReasonCode) (f : Frame w) : Prop where
  personality : f.hasPersonality = true
  readable : f.ipReadable = true
  found : search f.ip = .handlerFound

section Source

variable (own : Frame w) (stack : List (Frame w)) (stepEnds : Bool) (search : Word w → ReasonCode)

/-- The next personality routine will be told to handle the exception. -/
def toldToHandle (s : State w) : Bool :=
  match s.mode with
  | .phase2 cursor actions _ _ =>
      match cursor.up with
      | some caller => (actionsFor s caller.frame actions).handlerFrame
      | none => false
  | _ => false

/-- What the other routines have to do: a cleanup's landing pad is reached and comes back, the stop
    function lets the unwinding go on, and a personality routine that is told to handle the exception
    does. -/
def Cooperates (s : State w) : Event w → Prop
  | .round a =>
      a.resets = true ∧ a.stop = .noReason ∧
        ((a.personality = .installContext ∧ a.resumes = true) ∨
          (a.personality = .continueUnwind ∧ toldToHandle s = false))
  | .resume pad inits => inits = true ∧ pad.Passable search

/-- The rounds for frames of the stack: not those for a frame that came back from its landing pad. -/
def rounds (s : State w) : Event w → ℕ
  | .round _ =>
      match s.mode with
      | .phase2 _ _ true _ => 0
      | _ => 1
  | .resume _ _ => 0

/-- A step, with the number of rounds so far. -/
def tally (s : State w × ℕ) (e : Event w) : Option (State w × ℕ) :=
  (next own stack stepEnds search s.1 e).map fun s' => (s', s.2 + rounds s.1 e)

end Source

/-! ## Rounds that go on -/

section Rounds

variable {stepEnds : Bool} {search : Word w → ReasonCode} {cursor caller : Cursor w} {s : State w}
  {actions : Actions} {pad inResume : Bool} {a : Answer}

theorem Frame.handler_of_hasPersonality {f : Frame w} (info : f.handler.isSome = true) :
    ∃ handler, f.handler = some handler ∧ (handler = 0 ↔ f.hasPersonality = false) := by
  obtain ⟨handler, isHandler⟩ := Option.isSome_iff_exists.mp info
  exact ⟨handler, isHandler, by simp [Frame.hasPersonality, isHandler]⟩

/-- A frame whose personality routine is not told to handle the exception is passed. -/
theorem offer_goesOn (info : caller.frame.handler.isSome = true)
    (readable : caller.frame.hasPersonality = true → s.private1 = 0 → caller.frame.ipReadable = true)
    (unmarked : caller.frame.hasPersonality = true → actionsFor s caller.frame actions = actions)
    (plain : actions.handlerFrame = false)
    (goes : (a.personality = .installContext ∧ a.resumes = true) ∨ a.personality = .continueUnwind) :
    ∃ mode, offer s caller actions pad inResume a =
        { s.records pad (if caller.frame.hasPersonality then [.personality caller.frame actions]
          else []) with mode } ∧ GoesOn caller actions inResume mode := by
  obtain ⟨handler, isHandler, lacks⟩ := Frame.handler_of_hasPersonality info
  cases one : caller.frame.hasPersonality with
  | false =>
      refine ⟨.phase2 caller actions false inResume, ?_, .inl ⟨rfl, plain⟩⟩
      have records : s.records pad [] = s := by
        cases pad <;> simp [State.records]
      simp only [offer, isHandler, lacks.mpr one, if_true, Bool.false_eq_true, if_false, records]
  | true =>
      have some' : handler ≠ 0 := fun none => by simp [lacks.mp none] at one
      have read : ¬ (s.private1 = 0 ∧ caller.frame.ipReadable = false) := by
        rintro ⟨normal, unread⟩
        simp [readable one normal] at unread
      have same : (if s.private1 = 0 ∧ s.private2 = caller.frame.ip then
          { actions with handlerFrame := true } else actions) = actions := unmarked one
      obtain ⟨installs, resumes⟩ | continues := goes
      · refine ⟨.landed caller actions.handlerFrame, ?_, .inr rfl⟩
        simp only [offer, isHandler, some', if_false, read, same, installs, resumes, if_true, record_eq]
      · refine ⟨.phase2 caller actions false inResume, ?_, .inl ⟨rfl, plain⟩⟩
        simp only [offer, isHandler, some', if_false, read, same, continues, plain, Bool.false_eq_true,
          if_true, record_eq]

theorem phase2Round_goesOn (stepped : cursor.up = some caller)
    (info : caller.frame.handler.isSome = true)
    (readable : caller.frame.hasPersonality = true → s.private1 = 0 → caller.frame.ipReadable = true)
    (unmarked : caller.frame.hasPersonality = true → actionsFor s caller.frame actions = actions)
    (plain : actions.handlerFrame = false) (stop : a.stop = .noReason)
    (goes : (a.personality = .installContext ∧ a.resumes = true) ∨ a.personality = .continueUnwind) :
    ∃ mode, phase2Round stepEnds s cursor actions pad inResume a =
        { s.records pad (callsFor (s.private1 ≠ 0) caller.frame actions actions) with mode } ∧
      GoesOn caller actions inResume mode := by
  have offered (before : List (Call w)) : ∃ mode,
      offer (s.records pad before) caller actions pad inResume a =
        { (s.records pad before).records pad (if caller.frame.hasPersonality then
          [.personality caller.frame actions] else []) with mode } ∧
      GoesOn caller actions inResume mode :=
    offer_goesOn info (by simpa using readable) (by simpa [actionsFor] using unmarked) plain goes
  by_cases normal : s.private1 = 0#w
  · obtain ⟨mode, result, goesOn⟩ := offered [.step caller.frame]
    refine ⟨mode, ?_, goesOn⟩
    simp [phase2Round, stepped, record_eq, normal, result, records_records, callsFor]
  · obtain ⟨mode, result, goesOn⟩ := offered [.step caller.frame, .stop caller.frame actions]
    refine ⟨mode, ?_, goesOn⟩
    simp [phase2Round, stepped, record_eq, normal, stop, result, records_records, callsFor]

end Rounds

/-! ## Walks that go on -/

/-- Where phase 2 is after `n` rounds, of which `first` were made before it: the frames behind it have
    been passed with `calls`. -/
structure Walking (calls : Frame w → List (Call w)) (fine : Frame w → Prop)
    (inner rest : List (Frame w)) (actions : Actions) (first : ℕ) (s : State w) (n : ℕ) : Prop where
  place : ∃ passed ahead, inner = passed ++ ahead ∧ s.trace = passed.flatMap calls ∧
    n = first + passed.length ∧
    match s.mode with
    | .phase2 cursor acts pad _ => acts = actions ∧
        if pad then ∃ f, fine f ∧ cursor.outer = f :: (ahead ++ rest)
          else cursor.outer = ahead ++ rest
    | .landed cursor false => cursor.outer = ahead ++ rest
    | _ => False

section Walks

variable {calls : Frame w → List (Call w)} {fine : Frame w → Prop} {own : Frame w}
  {stack inner rest : List (Frame w)} {actions acts : Actions} {first n : ℕ} {s : State w}
  {cursor : Cursor w} {pad inResume stepEnds : Bool} {search : Word w → ReasonCode} {a : Answer}
  {e : Event w}

/-- A frame is passed, if not all have been. -/
theorem Walking.round (walking : Walking calls fine inner rest actions first s n)
    (mode : s.mode = .phase2 cursor acts pad inResume) (plain : actions.handlerFrame = false)
    (fineInner : ∀ f ∈ inner, fine f)
    (goesOn : ∀ pad caller, cursor.up = some caller → fine caller.frame →
      ∃ mode, phase2Round stepEnds s cursor actions pad inResume a =
        { s.records pad (calls caller.frame) with mode } ∧ GoesOn caller actions inResume mode) :
    (acts = actions ∧ pad = false ∧ cursor.outer = rest ∧ s.trace = inner.flatMap calls ∧
      n = first + inner.length) ∨
    (((phase2Round stepEnds s cursor acts pad inResume a).private1 = s.private1 ∧
        (phase2Round stepEnds s cursor acts pad inResume a).private2 = s.private2) ∧
      Walking calls fine inner rest actions first
        (phase2Round stepEnds s cursor acts pad inResume a) (n + rounds s (.round a))) := by
  obtain ⟨passed, ahead, split, made, count, place⟩ := walking.place
  rw [mode] at place
  obtain ⟨rfl, place⟩ := place
  obtain ⟨frame, outer⟩ := cursor
  cases pad with
  | true =>
      obtain ⟨f, isFine, rfl⟩ := place
      obtain ⟨mode', result, goes⟩ := goesOn true ⟨f, ahead ++ rest⟩ rfl isFine
      rw [result]
      refine .inr ⟨⟨records_private1 .., records_private2 ..⟩, passed, ahead, split, made, ?_, ?_⟩
      · simp only [rounds, mode, Nat.add_zero, count]
      · obtain ⟨rfl, -⟩ | rfl := goes
        · exact ⟨rfl, rfl⟩
        · rw [plain]
  | false =>
      cases ahead with
      | nil =>
          obtain rfl : inner = passed := by rw [split, List.append_nil]
          exact .inl ⟨rfl, rfl, place, made, count⟩
      | cons f ahead =>
          obtain rfl : outer = f :: (ahead ++ rest) := place
          have isFine : fine f := fineInner f (by simp [split])
          obtain ⟨mode', result, goes⟩ := goesOn false ⟨f, ahead ++ rest⟩ rfl isFine
          rw [result]
          refine .inr ⟨⟨records_private1 .., records_private2 ..⟩, passed ++ [f], ahead,
            by simp [split], ?_, ?_, ?_⟩
          · simp [State.records, made]
          · simp only [rounds, mode, count, List.length_append, List.length_singleton]
            omega
          · obtain ⟨rfl, -⟩ | rfl := goes
            · exact ⟨rfl, rfl⟩
            · rw [plain]

theorem Walking.resume {back : Frame w} (walking : Walking calls fine inner rest actions first s n)
    (mode : s.mode = .landed cursor false) (isFine : fine back)
    (isActions : actions = if s.private1 ≠ 0 then .forced else .cleanup) :
    Walking calls fine inner rest actions first (unwindResume own s cursor back true) n := by
  obtain ⟨passed, ahead, split, made, count, place⟩ := walking.place
  rw [mode] at place
  refine ⟨passed, ahead, split, made, count, ?_⟩
  simp only [unwindResume, if_true, initContext]
  exact ⟨isActions.symm, back, isFine, by rw [place]⟩

/-- An answer with which every frame is passed. -/
def Answer.installs : Answer := ⟨true, .noReason, .installContext, true⟩

theorem cooperates_installs (s : State w) : Cooperates search s (.round .installs) :=
  ⟨rfl, rfl, .inl ⟨rfl, rfl⟩⟩

theorem Walking.mode_cases (walking : Walking calls fine inner rest actions first s n) :
    (∃ cursor acts pad inResume, s.mode = .phase2 cursor acts pad inResume) ∨
      ∃ cursor, s.mode = .landed cursor false := by
  obtain ⟨passed, ahead, -, -, -, place⟩ := walking.place
  cases mode : s.mode with
  | phase2 cursor acts pad inResume => exact .inl ⟨cursor, acts, pad, inResume, rfl⟩
  | landed cursor handlerFrame =>
      cases handlerFrame with
      | true => simp [mode] at place
      | false => exact .inr ⟨cursor, rfl⟩
  | search cursor => simp [mode] at place
  | returned reason => simp [mode] at place
  | aborted => simp [mode] at place

/-- Where the unwinder or a landing pad is under way, the run goes on. -/
theorem Walking.goesOn (walking : Walking calls fine inner rest actions first s n) :
    ∃ e s', Cooperates search s e ∧ Steps own stack stepEnds search s e s' := by
  obtain ⟨cursor, acts, pad, inResume, mode⟩ | ⟨cursor, mode⟩ := walking.mode_cases
  · exact ⟨.round .installs, _, cooperates_installs s, by rw [Steps, next, mode]⟩
  · have passable : (⟨0, true, some 0⟩ : Frame w).Passable search :=
      ⟨rfl, fun _ => rfl, fun one => by simp [Frame.hasPersonality] at one⟩
    exact ⟨.resume ⟨0, true, some 0⟩ true, _, ⟨rfl, passable⟩, by rw [Steps, next, mode]⟩

end Walks

/-! ## An exception that is caught -/

section Raise

variable {own : Frame w} {stack inner : List (Frame w)} {H cursor : Cursor w} {n : ℕ}
  {s : State w} {pad inResume stepEnds : Bool} {search : Word w → ReasonCode} {a : Answer}
  {e : Event w}

/-- The handler's landing pad is reached, and all was done on the way. -/
structure Delivered (inner : List (Frame w)) (H : Cursor w) (s : State w) : Prop where
  mode : s.mode = .landed H true
  trace : s.trace = offered inner H.frame

/-- Where an exception is after `n` rounds. -/
inductive Arriving (search : Word w → ReasonCode) (inner : List (Frame w)) (H : Cursor w) :
    State w → ℕ → Prop where
  | searching {s : State w} {cursor : Cursor w} {passed ahead : List (Frame w)} :
      s.mode = .search cursor → inner = passed ++ ahead → cursor.outer = ahead ++ H.frames →
      s.trace = [] → Arriving search inner H s passed.length
  | unwinding {s : State w} {n : ℕ} : s.private1 = 0 → s.private2 = H.frame.ip →
      Walking cleanupCalls (Frame.Passable search) inner H.frames .cleanup (inner.length + 1) s n →
      Arriving search inner H s n
  | delivered {s : State w} : Delivered inner H s →
      Arriving search inner H s (2 * (inner.length + 1))

theorem searchRound_passable {caller : Cursor w} (stepped : cursor.up = some caller)
    (passable : caller.frame.Passable search) :
    searchRound own stack stepEnds search s cursor a = { s with mode := .search caller } := by
  obtain ⟨handler, isHandler, lacks⟩ := Frame.handler_of_hasPersonality passable.info
  cases one : caller.frame.hasPersonality with
  | false => simp [searchRound, stepped, isHandler, lacks.mpr one]
  | true =>
      have some' : ¬ handler = 0#w := fun none => by simp [lacks.mp none] at one
      simp [searchRound, stepped, isHandler, some', passable.continues one]

theorem searchRound_catches {caller : Cursor w} (stepped : cursor.up = some caller)
    (catches : caller.frame.Catches search) (resets : a.resets = true) :
    searchRound own stack stepEnds search s cursor a =
      { s with
        private1 := 0
        private2 := caller.frame.ip
        mode := .phase2 (initContext own stack) .cleanup false false
        found := some caller } := by
  have one := catches.personality
  cases isHandler : caller.frame.handler with
  | none => simp [Frame.hasPersonality, isHandler] at one
  | some handler =>
      have some' : ¬ handler = 0#w := by simpa [Frame.hasPersonality, isHandler] using one
      simp [searchRound, stepped, isHandler, some', catches.found, catches.readable, resets]

/-- At the handler's frame the personality routine is told to handle the exception. -/
theorem phase2Round_catches {caller : Cursor w} (stepped : cursor.up = some caller)
    (catches : caller.frame.Catches search) (normal : s.private1 = 0)
    (marker : s.private2 = caller.frame.ip) (installs : a.personality = .installContext)
    (resumes : a.resumes = true) :
    phase2Round stepEnds s cursor .cleanup false inResume a =
      { s.records false (callsFor false caller.frame .cleanup ⟨true, false, false⟩) with
        mode := .landed caller true } := by
  have one := catches.personality
  cases isHandler : caller.frame.handler with
  | none => simp [Frame.hasPersonality, isHandler] at one
  | some handler =>
      have some' : ¬ handler = 0#w := by simpa [Frame.hasPersonality, isHandler] using one
      simp [phase2Round, stepped, offer, isHandler, some', catches.readable, normal, marker, installs,
        resumes, State.record, State.records, callsFor, one, Actions.cleanup]

theorem Arriving.searchRound (split : stack = inner ++ H.frames)
    (passable : ∀ f ∈ inner, f.Passable search) (catches : H.frame.Catches search)
    {passed ahead : List (Frame w)} (isInner : inner = passed ++ ahead)
    (outer : cursor.outer = ahead ++ H.frames) (made : s.trace = []) (resets : a.resets = true) :
    Arriving search inner H (searchRound own stack stepEnds search s cursor a)
      (passed.length + 1) := by
  obtain ⟨frame, frames⟩ := cursor
  cases ahead with
  | nil =>
      obtain rfl : frames = H.frames := outer
      have up : StackCursor.up ⟨frame, H.frames⟩ = some H := rfl
      rw [searchRound_catches up catches resets]
      have all : inner.length = passed.length := by rw [isInner, List.append_nil]
      rw [← all]
      exact .unwinding rfl rfl ⟨[], inner, rfl, made, rfl, rfl, split⟩
  | cons f ahead =>
      obtain rfl : frames = f :: (ahead ++ H.frames) := outer
      have up : StackCursor.up ⟨frame, f :: (ahead ++ H.frames)⟩ = some ⟨f, ahead ++ H.frames⟩ := rfl
      rw [searchRound_passable up (passable f (by simp [isInner]))]
      have one : passed.length + 1 = (passed ++ [f]).length := by simp
      rw [one]
      exact .searching rfl (by simp [isInner]) rfl made

theorem Arriving.phase2Round {acts : Actions} (passable : ∀ f ∈ inner, f.Passable search)
    (catches : H.frame.Catches search) (normal : s.private1 = 0) (marker : s.private2 = H.frame.ip)
    (walking : Walking cleanupCalls (Frame.Passable search) inner H.frames .cleanup
      (inner.length + 1) s n)
    (mode : s.mode = .phase2 cursor acts pad inResume)
    (cooperates : Cooperates search s (.round a)) :
    Arriving search inner H (phase2Round stepEnds s cursor acts pad inResume a)
      (n + rounds s (.round a)) := by
  obtain ⟨-, stop, answers⟩ := cooperates
  have unmarked {f : Frame w} (isPassable : f.Passable search) (one : f.hasPersonality = true) :
      actionsFor s f .cleanup = .cleanup := by
    have other : s.private2 ≠ f.ip := by
      intro same
      have found := catches.found
      rw [← marker, same, isPassable.continues one] at found
      cases found
    simp [actionsFor, other]
  have goesOn (pad : Bool) (caller : Cursor w) (up : cursor.up = some caller)
      (isPassable : caller.frame.Passable search) :
      ∃ mode, Libunwind.Exception.TwoPhase.phase2Round stepEnds s cursor .cleanup pad inResume a =
        { s.records pad (cleanupCalls caller.frame) with mode } ∧
        GoesOn caller .cleanup inResume mode := by
    have normal' : decide (s.private1 ≠ 0) = false := by simp [normal]
    rw [cleanupCalls, ← normal']
    exact phase2Round_goesOn up isPassable.info (fun one _ => isPassable.readable one)
      (unmarked isPassable) rfl stop (answers.imp_right And.left)
  obtain ⟨rfl, rfl, outer, made, count⟩ | ⟨⟨same1, same2⟩, walking'⟩ :=
    walking.round mode rfl passable goesOn
  · obtain ⟨frame, frames⟩ := cursor
    obtain rfl : frames = H.frames := outer
    have up : StackCursor.up ⟨frame, H.frames⟩ = some H := rfl
    have marked : actionsFor s H.frame .cleanup = ⟨true, false, false⟩ := by
      simp [actionsFor, normal, marker, Actions.cleanup]
    obtain ⟨installs, resumes⟩ | ⟨-, refuses⟩ := answers
    · rw [phase2Round_catches up catches normal marker installs resumes]
      have twice : n + rounds s (.round a) = 2 * (inner.length + 1) := by
        simp only [rounds, mode, count]
        omega
      rw [twice]
      refine .delivered ⟨rfl, ?_⟩
      simp [State.records, made, offered]
    · simp [toldToHandle, mode, up, marked] at refuses
  · exact .unwinding (same1.trans normal) (same2.trans marker) walking'

theorem Arriving.step (split : stack = inner ++ H.frames)
    (passable : ∀ f ∈ inner, f.Passable search) (catches : H.frame.Catches search)
    (arriving : Arriving search inner H s n) (cooperates : Cooperates search s e)
    {s' : State w} (stepped : Steps own stack stepEnds search s e s') :
    Arriving search inner H s' (n + rounds s e) := by
  cases arriving with
  | searching mode isInner outer made =>
      cases e with
      | resume back inits => simp [Steps, next, mode] at stepped
      | round a =>
          simp only [Steps, next, mode, Option.some.injEq] at stepped
          subst stepped
          simp only [rounds, mode]
          exact .searchRound split passable catches isInner outer made cooperates.1
  | unwinding normal marker walking =>
      obtain ⟨cursor, acts, pad, inResume, mode⟩ | ⟨cursor, mode⟩ := walking.mode_cases
      · cases e with
        | resume back inits => simp [Steps, next, mode] at stepped
        | round a =>
            simp only [Steps, next, mode, Option.some.injEq] at stepped
            subst stepped
            exact .phase2Round passable catches normal marker walking mode cooperates
      · cases e with
        | round a => simp [Steps, next, mode] at stepped
        | resume back inits =>
            obtain ⟨rfl, isPassable⟩ := cooperates
            simp only [Steps, next, mode, Option.some.injEq] at stepped
            subst stepped
            exact .unwinding normal marker (walking.resume mode isPassable (by simp [normal]))
  | delivered delivered =>
      cases e with
      | round a => simp [Steps, next, delivered.mode] at stepped
      | resume back inits => simp [Steps, next, delivered.mode] at stepped

theorem Arriving.of_run {t : State w × ℕ} (split : stack = inner ++ H.frames)
    (passable : ∀ f ∈ inner, f.Passable search) (catches : H.frame.Catches search)
    (run : Run (fun s : State w × ℕ => RaiseStarts own stack s.1 ∧ s.2 = 0)
      (fun s e s' => tally own stack stepEnds search s e = some s')
      (fun s e => Cooperates search s.1 e) t) : Arriving search inner H t.1 t.2 := by
  apply run.invariant
  · rintro ⟨s, n⟩ ⟨⟨mode, -, -, made, -⟩, rfl⟩
    exact .searching mode (List.nil_append inner).symm split made
  · rintro ⟨s, n⟩ e s' arriving cooperates stepped
    obtain ⟨next', isNext, rfl⟩ := Option.map_eq_some_iff.mp stepped
    exact arriving.step split passable catches cooperates isNext

/-- An exception that a frame of the stack catches is on its way until it is delivered. It goes on
    from wherever it is, and is delivered after two rounds for each frame up to the handler's. -/
theorem exception_delivered (split : stack = inner ++ H.frames)
    (passable : ∀ f ∈ inner, f.Passable search) (catches : H.frame.Catches search)
    (run : Run (fun s : State w × ℕ => RaiseStarts own stack s.1 ∧ s.2 = 0)
      (fun s e s' => tally own stack stepEnds search s e = some s')
      (fun s e => Cooperates search s.1 e) (s, n)) :
    (Delivered inner H s ∧ n = 2 * (inner.length + 1)) ∨
      (n < 2 * (inner.length + 1) ∧
        ∃ e s', Cooperates search s e ∧ Steps own stack stepEnds search s e s') := by
  have arriving : Arriving search inner H s n := .of_run split passable catches run
  cases arriving with
  | @searching cursor passed ahead mode isInner outer made =>
      have few : passed.length ≤ inner.length := by simp [isInner]
      exact .inr ⟨by omega, .round .installs, _, cooperates_installs s, by rw [Steps, next, mode]⟩
  | unwinding normal marker walking =>
      obtain ⟨passed, ahead, isInner, -, count, -⟩ := walking.place
      have few : passed.length ≤ inner.length := by simp [isInner]
      exact .inr ⟨by omega, walking.goesOn⟩
  | delivered delivered => exact .inl ⟨delivered, rfl⟩

end Raise

/-! ## A thread that is unwound -/

section Forced

variable {own : Frame w} {stack : List (Frame w)} {cursor : Cursor w} {n : ℕ} {s : State w}
  {pad inResume : Bool} {search : Word w → ReasonCode} {a : Answer} {e : Event w}

/-- The stop function has seen the end of the stack. -/
structure Unwound (stack : List (Frame w)) (s : State w) : Prop where
  stopped : s.mode.Stopped
  endOfStack : s.endOfStack = true
  trace : s.trace = forcedThrough stack

/-- Where a forced unwinding is after `n` rounds. -/
inductive Leaving (stack : List (Frame w)) (s : State w) (n : ℕ) : Prop where
  | unwinding : s.private1 ≠ 0 →
      Walking forcedCalls (fun f => f.handler.isSome = true) stack [] .forced 0 s n → Leaving stack s n
  | unwound : Unwound stack s → n = stack.length + 1 → Leaving stack s n

theorem phase2Round_atEnd (stepped : cursor.up = none) (forced : s.private1 ≠ 0)
    (made : s.trace = stack.flatMap forcedCalls) :
    Unwound stack (phase2Round true s cursor .forced false inResume a) := by
  have round : phase2Round true s cursor .forced false inResume a =
      ({ s with endOfStack := true, trace := forcedThrough stack } : State w).fail inResume := by
    have isForced : ¬ s.private1 = 0#w := forced
    simp [phase2Round, stepped, isForced, State.record, made, forcedThrough, Actions.forced]
  rw [round]
  cases inResume with
  | false => exact ⟨trivial, rfl, rfl⟩
  | true => exact ⟨trivial, rfl, rfl⟩

theorem Leaving.phase2Round {acts : Actions} (informed : ∀ f ∈ stack, f.handler.isSome = true)
    (forced : s.private1 ≠ 0)
    (walking : Walking forcedCalls (fun f => f.handler.isSome = true) stack [] .forced 0 s n)
    (mode : s.mode = .phase2 cursor acts pad inResume)
    (cooperates : Cooperates search s (.round a)) :
    Leaving stack (phase2Round true s cursor acts pad inResume a) (n + rounds s (.round a)) := by
  obtain ⟨-, stop, answers⟩ := cooperates
  have unmarked (f : Frame w) : actionsFor s f .forced = .forced := by
    have isForced : ¬ s.private1 = 0#w := forced
    simp [actionsFor, isForced]
  have goesOn (pad : Bool) (caller : Cursor w) (up : cursor.up = some caller)
      (informed : caller.frame.handler.isSome = true) :
      ∃ mode, Libunwind.Exception.TwoPhase.phase2Round true s cursor .forced pad inResume a =
        { s.records pad (forcedCalls caller.frame) with mode } ∧
        GoesOn caller .forced inResume mode := by
    have isForced : decide (s.private1 ≠ 0) = true := decide_eq_true forced
    rw [forcedCalls, ← isForced]
    exact phase2Round_goesOn up informed (fun _ unset => absurd unset forced)
      (fun _ => unmarked caller.frame) rfl stop (answers.imp_right And.left)
  obtain ⟨rfl, rfl, outer, made, count⟩ | ⟨⟨same, -⟩, walking'⟩ :=
    walking.round mode rfl informed goesOn
  · refine .unwound (phase2Round_atEnd (StackCursor.up_eq_none.mpr outer) forced made) ?_
    simp only [rounds, mode, count, Nat.zero_add]
  · exact .unwinding (fun unset => forced (same.symm.trans unset)) walking'

theorem Leaving.step (informed : ∀ f ∈ stack, f.handler.isSome = true)
    (leaving : Leaving stack s n) (cooperates : Cooperates search s e) {s' : State w}
    (stepped : Steps own stack true search s e s') : Leaving stack s' (n + rounds s e) := by
  cases leaving with
  | unwinding forced walking =>
      obtain ⟨cursor, acts, pad, inResume, mode⟩ | ⟨cursor, mode⟩ := walking.mode_cases
      · cases e with
        | resume back inits => simp [Steps, next, mode] at stepped
        | round a =>
            simp only [Steps, next, mode, Option.some.injEq] at stepped
            subst stepped
            exact .phase2Round informed forced walking mode cooperates
      · cases e with
        | round a => simp [Steps, next, mode] at stepped
        | resume back inits =>
            obtain ⟨rfl, isPassable⟩ := cooperates
            simp only [Steps, next, mode, Option.some.injEq] at stepped
            subst stepped
            exact .unwinding forced
              (walking.resume mode isPassable.info (by simp only [if_pos forced]))
  | unwound unwound =>
      have stopped := unwound.stopped
      cases mode : s.mode with
      | returned reason => cases e <;> simp [Steps, next, mode] at stepped
      | aborted => cases e <;> simp [Steps, next, mode] at stepped
      | search cursor => simp [mode, Mode.Stopped] at stopped
      | phase2 cursor acts pad inResume => simp [mode, Mode.Stopped] at stopped
      | landed cursor handlerFrame => simp [mode, Mode.Stopped] at stopped

theorem Leaving.of_run {t : State w × ℕ} (informed : ∀ f ∈ stack, f.handler.isSome = true)
    (run : Run (fun s : State w × ℕ => ForceStarts own stack s.1 ∧ s.2 = 0)
      (fun s e s' => tally own stack true search s e = some s')
      (fun s e => Cooperates search s.1 e) t) : Leaving stack t.1 t.2 := by
  apply run.invariant
  · rintro ⟨s, n⟩ ⟨⟨forced, mode, -, -, made, -⟩, rfl⟩
    refine .unwinding forced ⟨[], stack, rfl, made, rfl, ?_⟩
    dsimp only at mode
    rw [mode]
    exact ⟨rfl, (List.append_nil stack).symm⟩
  · rintro ⟨s, n⟩ e s' leaving cooperates stepped
    obtain ⟨next', isNext, rfl⟩ := Option.map_eq_some_iff.mp stepped
    exact leaving.step informed cooperates isNext

/-- A forced unwinding that the stop function lets go on comes to the end of the stack, after one
    round for each frame. -/
theorem forced_unwinding_ends (informed : ∀ f ∈ stack, f.handler.isSome = true)
    (run : Run (fun s : State w × ℕ => ForceStarts own stack s.1 ∧ s.2 = 0)
      (fun s e s' => tally own stack true search s e = some s')
      (fun s e => Cooperates search s.1 e) (s, n)) :
    (Unwound stack s ∧ n = stack.length + 1) ∨
      (n ≤ stack.length ∧ ∃ e s', Cooperates search s e ∧ Steps own stack true search s e s') := by
  have leaving : Leaving stack s n := .of_run informed run
  cases leaving with
  | unwinding forced walking =>
      obtain ⟨passed, ahead, isStack, -, count, -⟩ := walking.place
      have few : passed.length ≤ stack.length := by simp [isStack]
      exact .inr ⟨by omega, walking.goesOn⟩
  | unwound unwound count => exact .inl ⟨unwound, count⟩

end Forced

/-! ## A recursive function that catches, and one that is left -/

namespace Recursion

instance (f : Frame 64) : Decidable (f.Passable search) :=
  decidable_of_iff (f.handler.isSome = true ∧ (f.hasPersonality = true → f.ipReadable = true) ∧
      (f.hasPersonality = true → search f.ip = .continueUnwind))
    ⟨fun ⟨info, readable, continues⟩ => ⟨info, readable, continues⟩,
      fun ⟨info, readable, continues⟩ => ⟨info, readable, continues⟩⟩

instance (s : State 64 × ℕ) (e : Event 64) : Decidable (Cooperates search s.1 e) :=
  match e with
  | .round _ => inferInstanceAs (Decidable (_ ∧ _ ∧ (_ ∨ _)))
  | .resume _ _ => inferInstanceAs (Decidable (_ ∧ _))

theorem innermost_delivered : ∃ s,
    follow (fun s e => Cooperates search s.1 e) (tally own stack true search) (raising, 0) caught =
      some (s, 4) ∧
    Delivered [inner] ⟨catcher, [catcher]⟩ s := by
  obtain ⟨s, reached⟩ : ∃ s, follow (fun s e => Cooperates search s.1 e)
    (tally own stack true search) (raising, 0) caught = some (s, 4) := ⟨_, rfl⟩
  have run : Run (fun s : State 64 × ℕ => RaiseStarts own stack s.1 ∧ s.2 = 0)
      (fun s e s' => tally own stack true search s e = some s')
      (fun s e => Cooperates search s.1 e) (s, 4) :=
    Run.follow ⟨⟨rfl, rfl, rfl, rfl, rfl⟩, rfl⟩ caught reached
  have split : stack = [inner] ++ StackCursor.frames ⟨catcher, [catcher]⟩ := rfl
  have passable : ∀ f ∈ [inner], f.Passable search := by decide
  have catches : catcher.Catches search := ⟨rfl, rfl, rfl⟩
  obtain ⟨delivered, -⟩ | ⟨early, -⟩ := exception_delivered split passable catches run
  · exact ⟨s, reached, delivered⟩
  · exact absurd early (by decide)

theorem thread_unwound : ∃ s,
    follow (fun s e => Cooperates search s.1 e) (tally own stack true search) (forcing, 0) unwound =
      some (s, 4) ∧
    Unwound stack s := by
  obtain ⟨s, reached⟩ : ∃ s, follow (fun s e => Cooperates search s.1 e)
    (tally own stack true search) (forcing, 0) unwound = some (s, 4) := ⟨_, rfl⟩
  have informed : ∀ f ∈ stack, f.handler.isSome = true := by decide
  have run : Run (fun s : State 64 × ℕ => ForceStarts own stack s.1 ∧ s.2 = 0)
      (fun s e s' => tally own stack true search s e = some s')
      (fun s e => Cooperates search s.1 e) (s, 4) :=
    Run.follow ⟨⟨by decide, rfl, rfl, rfl, rfl, rfl⟩, rfl⟩ unwound reached
  obtain ⟨ended, -⟩ | ⟨early, -⟩ := forced_unwinding_ends informed run
  · exact ⟨s, reached, ended⟩
  · exact absurd early (by decide)

end Recursion

end Libunwind.Exception.TwoPhase
