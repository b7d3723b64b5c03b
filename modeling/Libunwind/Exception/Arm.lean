import Libunwind.Basic
import Libunwind.Library.Run
import Libunwind.Library.StackWalk

/-! # Raising an exception on ARM

`_Unwind_RaiseException` and `_Unwind_Resume` of the ARM EHABI. A landing pad that was
entered for cleanup runs on its caller's stack pointer, so the cursor for going on is saved
in the control block before it is entered; the handler's frame is known by the CFA that the
search phase left there. What the personality routines answer, whether `unw_resume` gets
to the landing pad, and when a cleanup ends, are the events.
-/

namespace Libunwind.Exception.Arm

structure ProcInfo where
  startIp : Word 32
  lsda : Word 32
  handler : Word 32
  deriving DecidableEq

/-- A frame, with what `unw_get_proc_info` delivers for it. -/
structure Frame where
  cfa : Word 32
  procInfo : Option ProcInfo
  deriving DecidableEq

/-- The procedure info of a frame that has a personality routine. -/
def Frame.personality (f : Frame) : Option ProcInfo := f.procInfo.filter fun pi => pi.handler ≠ 0

def Frame.hasPersonality (f : Frame) : Bool := f.personality.isSome

/-- The frames whose personality routine is called when a walk comes to `f`. -/
def Frame.calls (f : Frame) : List Frame := if f.hasPersonality then [f] else []

/-- `_Unwind_Reason_Code`. -/
inductive ReasonCode where
  | ok
  | foreignExceptionCaught
  | endOfStack
  | handlerFound
  | installContext
  | continueUnwind
  | failure
  deriving DecidableEq, Repr

abbrev Cursor := StackCursor Frame

/-- `pr_cache`, as far as it is set here. -/
structure PrCache where
  fnstart : Word 32
  ehtp : Word 32

/-- `_Unwind_Control_Block`: the barrier cache's `sp` and the snapshot behind `reserved4`. -/
structure ControlBlock where
  prCache : PrCache
  barrierSp : Word 32
  reserved4 : Option Cursor

/-- What happens in one round of a loop, as far as it is not decided here: what the
    personality routine answers, what it leaves in `pr_cache`, and whether `unw_resume`
    reaches the landing pad. -/
structure Answer where
  reason : ReasonCode
  prCache : PrCache
  resumes : Bool

inductive Event where
  | round (answer : Answer)
  /-- The landing pad of a cleanup calls `_Unwind_Resume`. -/
  | resume

inductive AbortCause where
  | endOfStack
  | answer
  | resumeReturned
  | noSnapshot
  deriving DecidableEq

inductive Mode where
  | search (cursor : Cursor)
  | phase2 (cursor : Cursor) (stepFirst : Bool)
  /-- A landing pad runs. -/
  | landed (cleanup : Bool)
  | returned (reason : ReasonCode)
  | aborted (cause : AbortCause)

/-- `handler` is the frame at which the search stopped, `called` are the frames whose
    personality routine was called in phase 2, and `installed` the frames that were
    returned to, each with whether a snapshot was saved for it. -/
structure State where
  ucb : ControlBlock
  mode : Mode
  handler : Option Frame
  called : List Frame
  installed : List (Frame × Bool)

section Unwinder

variable (own : Frame) (stack : List Frame) (atEnd : ReasonCode) (malloc : Bool)

/-- `_Unwind_InitContext`: the cursor is on the unwinder's own frame. -/
def initContext : Cursor := ⟨own, stack⟩

def armSetupFrame (pi : ProcInfo) (ucb : ControlBlock) : ControlBlock :=
  { ucb with prCache := { fnstart := pi.startIp, ehtp := pi.lsda } }

/-- `arm_snapshot_phase2`: the cursor is saved on the caller of the cleanup frame. -/
def armSnapshotPhase2 (ucb : ControlBlock) (cursor : Cursor) : ControlBlock :=
  if malloc then
    match cursor.up with
    | none => ucb
    | some caller => { ucb with reserved4 := some caller }
  else ucb

/-- Whether `arm_snapshot_phase2` saves one. -/
def savesSnapshot (cursor : Cursor) : Bool := malloc && cursor.up.isSome

/-- A round of the loop of `_Unwind_RaiseException`. `atEnd` is what it returns once
    `unw_step` does not find a caller. -/
def searchRound (s : State) (cursor : Cursor) (a : Answer) : State :=
  match cursor.up with
  | none => { s with mode := .returned atEnd }
  | some cursor =>
      match cursor.frame.personality with
      | none => { s with mode := .search cursor }
      | some pi =>
          let ucb := { armSetupFrame pi s.ucb with prCache := a.prCache }
          match a.reason with
          | .handlerFound =>
              { s with
                ucb := { ucb with barrierSp := cursor.frame.cfa }
                mode := .phase2 (initContext own stack) true
                handler := some cursor.frame }
          | .continueUnwind => { s with ucb, mode := .search cursor }
          | _ => { s with ucb, mode := .returned .failure }

/-- The personality routine's answer in a round of `arm_phase2`. -/
def phase2Answer (s : State) (cursor : Cursor) (pi : ProcInfo) (a : Answer) : State :=
  let ucb := { armSetupFrame pi s.ucb with prCache := a.prCache }
  let s := { s with ucb, called := s.called ++ [cursor.frame] }
  match a.reason with
  | .installContext =>
      -- a cleanup frame, or the handler's
      let cleanup := cursor.frame.cfa ≠ ucb.barrierSp
      let s := if cleanup then { s with ucb := armSnapshotPhase2 malloc ucb cursor } else s
      if a.resumes then
        { s with
          mode := .landed cleanup
          installed := s.installed ++ [(cursor.frame, cleanup && savesSnapshot malloc cursor)] }
      else { s with mode := .aborted .resumeReturned }
  | .continueUnwind => { s with mode := .phase2 cursor true }
  | _ => { s with mode := .aborted .answer }

/-- A round of the loop of `arm_phase2`. -/
def phase2Round (s : State) (cursor : Cursor) (stepFirst : Bool) (a : Answer) : State :=
  match if stepFirst then cursor.up else some cursor with
  | none => { s with mode := .aborted .endOfStack }
  | some cursor =>
      match cursor.frame.personality with
      | none => { s with mode := .phase2 cursor true }
      | some pi => phase2Answer malloc s cursor pi a

/-- `_Unwind_Resume`. -/
def unwindResume (s : State) : State :=
  match s.ucb.reserved4 with
  | none => { s with mode := .aborted .noSnapshot }
  | some cursor => { s with ucb := { s.ucb with reserved4 := none }, mode := .phase2 cursor false }

def next (s : State) : Event → Option State
  | .round a =>
      match s.mode with
      | .search cursor => some (searchRound own stack atEnd s cursor a)
      | .phase2 cursor stepFirst => some (phase2Round malloc s cursor stepFirst a)
      | _ => none
  | .resume =>
      match s.mode with
      | .landed true => some (unwindResume s)
      | _ => none

/-- `_Unwind_RaiseException` is called. -/
def Starts (s : State) : Prop :=
  s.mode = .search (initContext own stack) ∧ s.handler = none ∧ s.called = [] ∧ s.installed = []

def Steps (s : State) (e : Event) (s' : State) : Prop :=
  next own stack atEnd malloc s e = some s'

end Unwinder

/-! ## Phase 2 -/

/-- The frames that phase 2 has not come to yet. -/
def Remaining (s : State) (ahead : List Frame) : Prop :=
  match s.mode with
  | .phase2 cursor true => ahead = cursor.outer
  | .phase2 cursor false => ahead = cursor.frames
  | .landed true => ∃ cursor, s.ucb.reserved4 = some cursor ∧ ahead = cursor.frames
  | .search _ => False
  | .aborted .noSnapshot => False
  | .aborted .endOfStack => ahead = []
  | _ => True

/-- What holds from the end of the search on, when it stopped at `handler`. -/
structure Unwinding (stack : List Frame) (handler : Frame) (s : State) : Prop where
  found : s.handler = some handler
  inStack : handler ∈ stack
  handles : handler.hasPersonality = true
  barrier : s.ucb.barrierSp = handler.cfa
  walked : ∃ ahead, Walked Frame.calls stack s.called ahead ∧ Remaining s ahead
  snapshotless : ∀ p ∈ s.installed, p.2 = false → p.1 = handler
  calledBefore : ∀ p ∈ s.installed, p.1 ∈ s.called

/-- What holds during the search. -/
structure Searching (stack : List Frame) (s : State) : Prop where
  notFound : s.handler = none
  called : s.called = []
  installed : s.installed = []
  mode : match s.mode with
    | .search cursor => ∃ passed, stack = passed ++ cursor.outer
    | .returned _ => True
    | _ => False

/-- The frame whose personality routine a round of phase 2 comes to. -/
def State.asked (s : State) : Option Cursor :=
  match s.mode with
  | .phase2 cursor stepFirst => if stepFirst then cursor.up else some cursor
  | _ => none

/-- An outermost frame other than the handler's does not ask for its landing pad. -/
def Allowed (s : State) : Event → Prop
  | .round a => ∀ cursor ∈ s.asked, cursor.frame.hasPersonality = true → cursor.outer = [] →
      a.reason = .installContext → s.handler = some cursor.frame
  | .resume => True

section Steps

variable {own : Frame} {stack : List Frame} {atEnd : ReasonCode} {malloc : Bool} {handler : Frame}
  {s s' : State}

theorem Searching.round {cursor : Cursor} {a : Answer} (searching : Searching stack s)
    (mode : s.mode = .search cursor) :
    Searching stack (searchRound own stack atEnd s cursor a) ∨
      ∃ handler, Unwinding stack handler (searchRound own stack atEnd s cursor a) := by
  obtain ⟨notFound, called, installed, place⟩ := searching
  rw [mode] at place
  obtain ⟨passed, split⟩ := place
  cases stepped : cursor.up with
  | none =>
      simp only [searchRound, stepped]
      exact Or.inl ⟨notFound, called, installed, trivial⟩
  | some caller =>
      have outer := StackCursor.outer_of_up stepped
      rw [outer] at split
      have goesOn : ∃ passed, stack = passed ++ caller.outer :=
        ⟨passed ++ [caller.frame], by rw [split]; simp [StackCursor.frames]⟩
      cases one : caller.frame.personality with
      | none =>
          simp only [searchRound, stepped, one]
          exact Or.inl ⟨notFound, called, installed, goesOn⟩
      | some pi =>
          simp only [searchRound, stepped, one]
          cases a.reason with
          | handlerFound =>
              refine Or.inr ⟨caller.frame, rfl, ?_, ?_, rfl, ?_, ?_, ?_⟩
              · rw [split]
                exact List.mem_append_right passed List.mem_cons_self
              · rw [Frame.hasPersonality, one]
                rfl
              · exact ⟨stack, called ▸ Walked.start _ stack, rfl⟩
              · rw [installed]
                exact nofun
              · rw [installed]
                exact nofun
          | continueUnwind => exact Or.inl ⟨notFound, called, installed, goesOn⟩
          | ok => exact Or.inl ⟨notFound, called, installed, trivial⟩
          | foreignExceptionCaught => exact Or.inl ⟨notFound, called, installed, trivial⟩
          | endOfStack => exact Or.inl ⟨notFound, called, installed, trivial⟩
          | installContext => exact Or.inl ⟨notFound, called, installed, trivial⟩
          | failure => exact Or.inl ⟨notFound, called, installed, trivial⟩

/-- A round of phase 2 comes to the first of the frames that remain. -/
theorem asked_frames {cursor : Cursor} {stepFirst : Bool} {ahead : List Frame}
    (mode : s.mode = .phase2 cursor stepFirst) (remaining : Remaining s ahead) :
    (match s.asked with | some caller => ahead = caller.frames | none => ahead = []) ∧
      s.asked = if stepFirst then cursor.up else some cursor := by
  cases stepFirst with
  | false =>
      simp only [Remaining, mode] at remaining
      simp only [State.asked, mode, Bool.false_eq_true, if_false]
      exact ⟨remaining, trivial⟩
  | true =>
      simp only [Remaining, mode] at remaining
      simp only [State.asked, mode, if_true]
      refine ⟨?_, trivial⟩
      cases stepped : cursor.up with
      | none => exact remaining.trans (StackCursor.up_eq_none.mp stepped)
      | some caller => exact remaining.trans (StackCursor.outer_of_up stepped)

/-- The answer of the first of the frames that remain. -/
theorem Unwinding.answer {cursor : Cursor} {pi : ProcInfo} {a : Answer}
    (unwinding : Unwinding stack handler s) (distinct : (stack.map Frame.cfa).Nodup)
    (walked : Walked Frame.calls stack s.called cursor.frames)
    (one : cursor.frame.personality = some pi)
    (allowed : cursor.outer = [] → a.reason = .installContext → s.handler = some cursor.frame) :
    Unwinding stack handler (phase2Answer true s cursor pi a) := by
  obtain ⟨found, inStack, handles, barrier, -, snapshotless, calledBefore⟩ := unwinding
  have asks : cursor.frame.hasPersonality = true := by
    rw [Frame.hasPersonality, one]
    rfl
  have after : Walked Frame.calls stack (s.called ++ [cursor.frame]) cursor.outer := by
    have next := walked.next
    rwa [Frame.calls, if_pos asks] at next
  have isCalled : cursor.frame ∈ s.called ++ [cursor.frame] :=
    List.mem_append_right _ (List.mem_singleton_self _)
  have earlier : ∀ p ∈ s.installed, p.1 ∈ s.called ++ [cursor.frame] := fun p member =>
    List.mem_append_left _ (calledBefore p member)
  have stopped {mode : Mode} (silent : ∀ s' : State, s'.mode = mode → Remaining s' cursor.outer) :
      Unwinding stack handler { s with
        ucb := { armSetupFrame pi s.ucb with prCache := a.prCache }
        called := s.called ++ [cursor.frame], mode } :=
    ⟨found, inStack, handles, barrier, ⟨cursor.outer, after, silent _ rfl⟩, snapshotless, earlier⟩
  cases reason : a.reason with
  | installContext =>
      have appended {p : Frame × Bool} (isThis : p.1 = cursor.frame) :
          ∀ q ∈ s.installed ++ [p], q.1 ∈ s.called ++ [cursor.frame] := by
        intro q member
        cases List.mem_append.mp member with
        | inl before => exact earlier q before
        | inr this =>
            rw [List.mem_singleton] at this
            rw [this, isThis]
            exact isCalled
      by_cases same : cursor.frame.cfa = s.ucb.barrierSp
      · have isHandler : cursor.frame = handler :=
          List.inj_on_of_nodup_map distinct (walked.mem_stack List.mem_cons_self) inStack
            (same.trans barrier)
        have noCleanup : decide (cursor.frame.cfa ≠ s.ucb.barrierSp) = false := by simp [same]
        cases resumes : a.resumes with
        | false =>
            simp only [phase2Answer, reason, resumes, armSetupFrame, same, ne_eq, not_true_eq_false,
              if_false, Bool.false_eq_true]
            exact stopped fun s' isMode => by simp only [Remaining, isMode]
        | true =>
            simp only [phase2Answer, reason, resumes, armSetupFrame, same, ne_eq, not_true_eq_false,
              if_false, if_true, decide_false, Bool.false_and]
            refine ⟨found, inStack, handles, barrier, ⟨cursor.outer, after, trivial⟩, ?_,
              appended rfl⟩
            intro q member unsaved
            cases List.mem_append.mp member with
            | inl before => exact snapshotless q before unsaved
            | inr this =>
                rw [List.mem_singleton] at this
                rw [this]
                exact isHandler
      · obtain ⟨caller, stepped⟩ : ∃ caller, cursor.up = some caller := by
          cases stepped : cursor.up with
          | some caller => exact ⟨caller, rfl⟩
          | none =>
              have isHandler := allowed (StackCursor.up_eq_none.mp stepped) reason
              rw [found, Option.some.injEq] at isHandler
              exact absurd (isHandler ▸ barrier.symm) same
        have remaining := StackCursor.outer_of_up stepped
        cases resumes : a.resumes with
        | false =>
            simp only [phase2Answer, reason, resumes, armSetupFrame, same, ne_eq, not_false_eq_true,
              if_true, if_false, Bool.false_eq_true, armSnapshotPhase2, stepped]
            exact ⟨found, inStack, handles, barrier, ⟨cursor.outer, after, trivial⟩, snapshotless,
              earlier⟩
        | true =>
            simp only [phase2Answer, reason, resumes, armSetupFrame, same, ne_eq, not_false_eq_true,
              if_true, decide_true, armSnapshotPhase2, savesSnapshot, stepped, Option.isSome_some,
              Bool.and_true]
            refine ⟨found, inStack, handles, barrier,
              ⟨cursor.outer, after, caller, rfl, remaining⟩, ?_, appended rfl⟩
            intro q member unsaved
            cases List.mem_append.mp member with
            | inl before => exact snapshotless q before unsaved
            | inr this =>
                rw [List.mem_singleton] at this
                rw [this] at unsaved
                exact nomatch unsaved
  | continueUnwind =>
      simp only [phase2Answer, reason]
      exact stopped fun s' isMode => by simp only [Remaining, isMode]
  | ok =>
      simp only [phase2Answer, reason]
      exact stopped fun s' isMode => by simp only [Remaining, isMode]
  | foreignExceptionCaught =>
      simp only [phase2Answer, reason]
      exact stopped fun s' isMode => by simp only [Remaining, isMode]
  | endOfStack =>
      simp only [phase2Answer, reason]
      exact stopped fun s' isMode => by simp only [Remaining, isMode]
  | handlerFound =>
      simp only [phase2Answer, reason]
      exact stopped fun s' isMode => by simp only [Remaining, isMode]
  | failure =>
      simp only [phase2Answer, reason]
      exact stopped fun s' isMode => by simp only [Remaining, isMode]

theorem Unwinding.round {cursor : Cursor} {stepFirst : Bool} {a : Answer}
    (unwinding : Unwinding stack handler s) (distinct : (stack.map Frame.cfa).Nodup)
    (mode : s.mode = .phase2 cursor stepFirst) (allowed : Allowed s (.round a)) :
    Unwinding stack handler (phase2Round true s cursor stepFirst a) := by
  obtain ⟨ahead, walked, remaining⟩ := unwinding.walked
  obtain ⟨frames, asked⟩ := asked_frames mode remaining
  simp only [Allowed, asked] at allowed
  rw [asked] at frames
  cases come : if stepFirst then cursor.up else some cursor with
  | none =>
      simp only [come] at frames
      simp only [phase2Round, come]
      exact { unwinding with walked := ⟨ahead, walked, frames⟩ }
  | some caller =>
      simp only [come] at frames
      subst frames
      cases one : caller.frame.personality with
      | none =>
          have silent : caller.frame.hasPersonality = false := by
            rw [Frame.hasPersonality, one]
            rfl
          simp only [phase2Round, come, one]
          have skipped := walked.next
          rw [Frame.calls, silent, if_neg Bool.false_ne_true, List.append_nil] at skipped
          exact { unwinding with walked := ⟨caller.outer, skipped, rfl⟩ }
      | some pi =>
          have asks : caller.frame.hasPersonality = true := by
            rw [Frame.hasPersonality, one]
            rfl
          simp only [phase2Round, come, one]
          exact unwinding.answer distinct walked one (allowed caller come asks)

theorem Unwinding.resume (unwinding : Unwinding stack handler s) (mode : s.mode = .landed true) :
    Unwinding stack handler (unwindResume s) := by
  obtain ⟨ahead, walked, remaining⟩ := unwinding.walked
  simp only [Remaining, mode] at remaining
  obtain ⟨cursor, snapshot, frames⟩ := remaining
  simp only [unwindResume, snapshot]
  exact { unwinding with barrier := unwinding.barrier, walked := ⟨ahead, walked, frames⟩ }

/-- Every step keeps what holds during the search, or what holds after it. -/
theorem steps_kept {e : Event} (distinct : (stack.map Frame.cfa).Nodup)
    (holds : Searching stack s ∨ ∃ handler, Unwinding stack handler s) (allowed : Allowed s e)
    (stepped : Steps own stack atEnd true s e s') :
    Searching stack s' ∨ ∃ handler, Unwinding stack handler s' := by
  cases e with
  | round a =>
      cases mode : s.mode with
      | search cursor =>
          simp only [Steps, next, mode, Option.some.injEq] at stepped
          subst stepped
          cases holds with
          | inl searching => exact searching.round mode
          | inr unwinding =>
              obtain ⟨handler, unwinding⟩ := unwinding
              obtain ⟨_, _, remaining⟩ := unwinding.walked
              simp only [Remaining, mode] at remaining
      | phase2 cursor stepFirst =>
          simp only [Steps, next, mode, Option.some.injEq] at stepped
          subst stepped
          cases holds with
          | inl searching =>
              have noSearch := searching.mode
              simp only [mode] at noSearch
          | inr unwinding =>
              obtain ⟨handler, unwinding⟩ := unwinding
              exact Or.inr ⟨handler, unwinding.round distinct mode allowed⟩
      | landed cleanup => simp only [Steps, next, mode, reduceCtorEq] at stepped
      | returned reason => simp only [Steps, next, mode, reduceCtorEq] at stepped
      | aborted cause => simp only [Steps, next, mode, reduceCtorEq] at stepped
  | resume =>
      cases mode : s.mode with
      | landed cleanup =>
          cases cleanup with
          | false => simp only [Steps, next, mode, reduceCtorEq] at stepped
          | true =>
              simp only [Steps, next, mode, Option.some.injEq] at stepped
              subst stepped
              cases holds with
              | inl searching =>
                  have noSearch := searching.mode
                  simp only [mode] at noSearch
              | inr unwinding =>
                  obtain ⟨handler, unwinding⟩ := unwinding
                  exact Or.inr ⟨handler, unwinding.resume mode⟩
      | search cursor => simp only [Steps, next, mode, reduceCtorEq] at stepped
      | phase2 cursor stepFirst => simp only [Steps, next, mode, reduceCtorEq] at stepped
      | returned reason => simp only [Steps, next, mode, reduceCtorEq] at stepped
      | aborted cause => simp only [Steps, next, mode, reduceCtorEq] at stepped

/-! ## Whole runs -/

/-- What phase 2 has done up to a state of a run whose search stopped at `handler`. -/
structure Orderly (stack : List Frame) (handler : Frame) (s : State) : Prop where
  /-- In stack order, and none is skipped or repeated. -/
  inOrder : s.called <+: stack.filter Frame.hasPersonality
  once : s.called.Nodup
  /-- Once the handler's personality routine is called, all inner ones have been. -/
  complete : ∀ inner outer, stack = inner ++ handler :: outer → handler ∈ s.called →
    inner.filter Frame.hasPersonality ++ [handler] <+: s.called
  /-- The walk comes to the handler, unless a personality routine or `unw_resume` ends it. -/
  reached : s.mode = .aborted .endOfStack ∨ s.mode = .aborted .noSnapshot → handler ∈ s.called
  installed : ∀ p ∈ s.installed, p.1 ∈ s.called
  snapshotless : ∀ p ∈ s.installed, p.2 = false → p.1 = handler

theorem Unwinding.orderly (unwinding : Unwinding stack handler s)
    (distinct : (stack.map Frame.cfa).Nodup) : Orderly stack handler s := by
  obtain ⟨ahead, walked, remaining⟩ := unwinding.walked
  have each : stack.Nodup := List.Nodup.of_map _ distinct
  have inOrder : s.called <+: stack.filter Frame.hasPersonality :=
    flatMap_if Frame.hasPersonality stack ▸ walked.isPrefix
  refine ⟨inOrder, (each.filter _).sublist inOrder.sublist, ?_, ?_, unwinding.calledBefore,
    unwinding.snapshotless⟩
  · rintro inner outer rfl isCalled
    have split : (inner ++ handler :: outer).filter Frame.hasPersonality =
        inner.filter Frame.hasPersonality ++ [handler] ++
          outer.filter Frame.hasPersonality := by
      simp [unwinding.handles]
    rw [split] at inOrder
    have first : handler ∉ inner := fun member =>
      (List.nodup_append.mp each).2.2 handler member handler List.mem_cons_self rfl
    exact prefix_through inOrder isCalled fun member => first (List.mem_filter.mp member).1
  · rintro (stop | stop)
    · simp only [Remaining, stop] at remaining
      apply walked.mem_made unwinding.inStack _ (by simp [remaining])
      rw [Frame.calls, if_pos unwinding.handles]
      exact List.mem_singleton_self _
    · simp only [Remaining, stop] at remaining

/-- In every run in which an outermost frame other than the handler's never asks for its
    landing pad, phase 2 calls the personality routines in stack order, each of them once,
    across all cleanups, and returns without a snapshot only to the handler. -/
theorem phases_consistent (distinct : (stack.map Frame.cfa).Nodup)
    (run : Run (Starts own stack) (Steps own stack atEnd true) Allowed s)
    (found : s.handler = some handler) : Orderly stack handler s := by
  have holds : Searching stack s ∨ ∃ handler, Unwinding stack handler s := by
    apply run.invariant
    · rintro s ⟨mode, notFound, called, installed⟩
      refine Or.inl ⟨notFound, called, installed, ?_⟩
      rw [mode]
      exact ⟨[], rfl⟩
    · intro s e s' holds allowed stepped
      exact steps_kept distinct holds allowed stepped
  cases holds with
  | inl searching => exact nomatch searching.notFound.symm.trans found
  | inr unwinding =>
      obtain ⟨other, unwinding⟩ := unwinding
      cases unwinding.found.symm.trans found
      exact unwinding.orderly distinct

end Steps

/-! ## Three frames -/

namespace ThreeFrames

def frame (cfa : Word 32) (handler : Word 32) : Frame where
  cfa
  procInfo := some { startIp := 0x8000, lsda := 0x9000, handler }

def own : Frame := frame 0x1000 0

def inner : Frame := frame 0x2000 0x8100

def middle : Frame := frame 0x3000 0x8100

def outermost : Frame := frame 0x4000 0x8100

def answer (reason : ReasonCode) : Event :=
  .round { reason, prCache := { fnstart := 0, ehtp := 0 }, resumes := true }

def start (stack : List Frame) : State where
  ucb := { prCache := { fnstart := 0, ehtp := 0 }, barrierSp := 0, reserved4 := none }
  mode := .search (initContext own stack)
  handler := none
  called := []
  installed := []

/-- Where a sequence of events leads, the last of them first, as far as they are allowed. -/
def after (allowed : State → Event → Prop) [∀ s e, Decidable (allowed s e)]
    (stack : List Frame) : List Event → Option State
  | [] => some (start stack)
  | e :: earlier => (after allowed stack earlier).bind fun s =>
      if allowed s e then next own stack .endOfStack true s e else none

theorem run_after {allowed : State → Event → Prop} [∀ s e, Decidable (allowed s e)]
    {stack : List Frame} {s : State} (events : List Event)
    (reached : after allowed stack events = some s) :
    Run (Starts own stack) (Steps own stack .endOfStack true) allowed s := by
  induction events generalizing s with
  | nil =>
      cases reached
      exact .start ⟨rfl, rfl, rfl, rfl⟩
  | cons e events ih =>
      obtain ⟨before, earlier, stepped⟩ := Option.bind_eq_some_iff.mp reached
      by_cases ok : allowed before e
      · rw [if_pos ok] at stepped
        exact .step e (ih earlier) ok stepped
      · rw [if_neg ok] at stepped
        exact nomatch stepped

instance (s : State) (e : Event) : Decidable (Allowed s e) :=
  match e with
  | .round _ => inferInstanceAs (Decidable (∀ cursor ∈ s.asked, _))
  | .resume => .isTrue trivial

/-- The inner frame's cleanup runs before the handler in the middle one. -/
def cleanup : List Event :=
  [answer .installContext, .resume, answer .installContext, answer .handlerFound,
    answer .continueUnwind]

theorem cleaned_up : ∃ s, after Allowed [inner, middle, outermost] cleanup = some s ∧
    s.installed = [(inner, true), (middle, false)] ∧
    Orderly [inner, middle, outermost] middle s :=
  ⟨_, rfl, rfl, phases_consistent (by decide) (run_after cleanup rfl) rfl⟩

/-- The handler's personality routine goes on in phase 2, and the outermost frame asks for
    its landing pad. -/
def changedMind : List Event :=
  [answer .installContext, answer .continueUnwind, answer .handlerFound]

theorem beyond_handler : ∃ s, Run (Starts own [middle, outermost])
      (Steps own [middle, outermost] .endOfStack true) (fun _ _ => True) s ∧
    s.handler = some middle ∧ (outermost, false) ∈ s.installed ∧
    ¬ Orderly [middle, outermost] middle s := by
  refine ⟨_, run_after changedMind rfl, rfl, List.mem_singleton_self _, ?_⟩
  intro orderly
  have isHandler := orderly.snapshotless (outermost, false) (List.mem_singleton_self _) rfl
  exact absurd isHandler (by decide)

end ThreeFrames

end Libunwind.Exception.Arm
