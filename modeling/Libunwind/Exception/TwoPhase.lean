import Libunwind.Basic
import Libunwind.Library.Run
import Libunwind.Library.StackWalk

/-! # The two-phase protocol of the C++ ABI

`_Unwind_RaiseException`, `_Unwind_ForcedUnwind` and `_Unwind_Resume`. All that the search
leaves for later is the handler's IP in `private_2`; `private_1`, the stop function, tells
forced unwinding from the normal one. The search phase of the personality routines is a
function of the IP; their other answers, those of the stop function, and the landing pads
that call `_Unwind_Resume` are the events.
-/

namespace Libunwind.Exception.TwoPhase

/-- A frame: its IP and whether `unw_get_reg` delivers it, and the `handler` that
    `unw_get_proc_info` finds for it, if it finds any info. -/
structure Frame (w : Nat) where
  ip : Word w
  ipReadable : Bool
  handler : Option (Word w)
  deriving DecidableEq

/-- `_Unwind_Reason_Code`. -/
inductive ReasonCode where
  | noReason
  | foreignExceptionCaught
  | fatalPhase2Error
  | fatalPhase1Error
  | normalStop
  | endOfStack
  | handlerFound
  | installContext
  | continueUnwind
  deriving DecidableEq, Repr

/-- The `_Unwind_Action` bits beside `_UA_CLEANUP_PHASE`. -/
structure Actions where
  handlerFrame : Bool
  forceUnwind : Bool
  endOfStack : Bool
  deriving DecidableEq

def Actions.cleanup : Actions := ⟨false, false, false⟩

def Actions.forced : Actions := ⟨false, true, false⟩

/-- What phase 2 does. -/
inductive Call (w : Nat) where
  /-- `unw_step` comes to a frame. -/
  | step (f : Frame w)
  | stop (f : Frame w) (actions : Actions)
  /-- The stop function is called at the end of the stack. -/
  | stopAtEnd (actions : Actions)
  | personality (f : Frame w) (actions : Actions)
  deriving DecidableEq

variable {w : Nat}

def Frame.hasPersonality (f : Frame w) : Bool :=
  match f.handler with
  | some handler => handler ≠ 0
  | none => false

abbrev Cursor (w : Nat) := StackCursor (Frame w)

structure Answer where
  /-- `unw_init_local` resets the cursor. -/
  resets : Bool
  stop : ReasonCode
  personality : ReasonCode
  /-- `unw_resume` gets to the landing pad. -/
  resumes : Bool

inductive Event (w : Nat) where
  | round (answer : Answer)
  /-- The landing pad calls `_Unwind_Resume`; its frame is now at `pad`. -/
  | resume (pad : Frame w) (inits : Bool)

inductive Mode (w : Nat) where
  | search (cursor : Cursor w)
  /-- `pad`: the next frame is the one whose landing pad called `_Unwind_Resume`. -/
  | phase2 (cursor : Cursor w) (actions : Actions) (pad inResume : Bool)
  | landed (cursor : Cursor w) (handlerFrame : Bool)
  | returned (reason : ReasonCode)
  | aborted

/-- The private words of the exception object, where the search stopped, `end_of_stack` of
    the context, and what was done in phase 2, for the frames of the stack and for those
    that came back from a landing pad. -/
structure State (w : Nat) where
  private1 : Word w
  private2 : Word w
  mode : Mode w
  found : Option (Cursor w)
  endOfStack : Bool
  trace : List (Call w)
  padTrace : List (Call w)

section Unwinder

variable (own : Frame w) (stack : List (Frame w)) (stepEnds : Bool)
  (search : Word w → ReasonCode)

/-- `_Unwind_InitContext`: the cursor is on the unwinder's own frame. -/
def initContext : Cursor w := ⟨own, stack⟩

def State.record (s : State w) (pad : Bool) (c : Call w) : State w :=
  if pad then { s with padTrace := s.padTrace ++ [c] } else { s with trace := s.trace ++ [c] }

/-- `_Unwind_Phase2` returns; `_Unwind_Resume` then aborts. -/
def State.fail (s : State w) (inResume : Bool) : State w :=
  { s with mode := if inResume then .aborted else .returned .fatalPhase2Error }

/-- A round of the search. `stepEnds` says that `unw_step` returns 0 at the end of the
    stack, and no negative number. -/
def searchRound (s : State w) (cursor : Cursor w) (a : Answer) : State w :=
  match cursor.up with
  | none => { s with mode := .returned (if stepEnds then .endOfStack else .fatalPhase1Error) }
  | some cursor =>
      match cursor.frame.handler with
      | none => { s with mode := .returned .fatalPhase1Error }
      | some handler =>
          if handler = 0 then { s with mode := .search cursor }
          else
            match search cursor.frame.ip with
            | .continueUnwind => { s with mode := .search cursor }
            | .handlerFound =>
                if cursor.frame.ipReadable then
                  { s with
                    private1 := 0
                    private2 := cursor.frame.ip
                    mode := if a.resets then .phase2 (initContext own stack) .cleanup false false
                      else .returned .fatalPhase1Error
                    found := some cursor }
                else { s with mode := .returned .fatalPhase1Error }
            | _ => { s with mode := .returned .fatalPhase1Error }

/-- A frame in a round of `_Unwind_Phase2`: its personality routine, behind the stop
    function. -/
def offer (s : State w) (cursor : Cursor w) (actions : Actions) (pad inResume : Bool)
    (a : Answer) : State w :=
  match cursor.frame.handler with
  | none => s.fail inResume
  | some handler =>
      if handler = 0 then { s with mode := .phase2 cursor actions false inResume }
      else if s.private1 = 0 ∧ cursor.frame.ipReadable = false then s.fail inResume
      else
        let actions := if s.private1 = 0 ∧ s.private2 = cursor.frame.ip then
          { actions with handlerFrame := true } else actions
        let s := s.record pad (.personality cursor.frame actions)
        match a.personality with
        | .continueUnwind =>
            if actions.handlerFrame then { s with mode := .aborted }
            else { s with mode := .phase2 cursor actions false inResume }
        | .installContext =>
            if a.resumes then { s with mode := .landed cursor actions.handlerFrame }
            else { s with mode := .aborted }
        | _ => s.fail inResume

/-- A round of the loop of `_Unwind_Phase2`. -/
def phase2Round (s : State w) (cursor : Cursor w) (actions : Actions) (pad inResume : Bool)
    (a : Answer) : State w :=
  match cursor.up with
  | none =>
      if stepEnds then
        let actions := { actions with endOfStack := true }
        let s : State w := { s with endOfStack := true }
        if s.private1 ≠ 0 then (s.record pad (.stopAtEnd actions)).fail inResume
        else s.fail inResume
      else s.fail inResume
  | some cursor =>
      let s := s.record pad (.step cursor.frame)
      if s.private1 ≠ 0 then
        let s := s.record pad (.stop cursor.frame actions)
        if a.stop ≠ .noReason then s.fail inResume
        else offer s cursor actions pad inResume a
      else offer s cursor actions pad inResume a

/-- `_Unwind_Resume`, called from the landing pad of the cursor's frame. -/
def unwindResume (s : State w) (cursor : Cursor w) (pad : Frame w) (inits : Bool) : State w :=
  if inits then
    { s with
      mode := .phase2 (initContext own (pad :: cursor.outer))
        (if s.private1 ≠ 0 then .forced else .cleanup) true true
      endOfStack := false }
  else { s with mode := .aborted }

def next (s : State w) : Event w → Option (State w)
  | .round a =>
      match s.mode with
      | .search cursor => some (searchRound own stack stepEnds search s cursor a)
      | .phase2 cursor actions pad inResume =>
          some (phase2Round stepEnds s cursor actions pad inResume a)
      | _ => none
  | .resume pad inits =>
      match s.mode with
      -- a cleanup ends; a handler's landing pad goes on with the program
      | .landed cursor false => some (unwindResume own s cursor pad inits)
      | _ => none

def Steps (s : State w) (e : Event w) (s' : State w) : Prop :=
  next own stack stepEnds search s e = some s'

/-- `_Unwind_RaiseException` is called. -/
def RaiseStarts (s : State w) : Prop :=
  s.mode = .search (initContext own stack) ∧ s.found = none ∧ s.endOfStack = false ∧
    s.trace = [] ∧ s.padTrace = []

/-- `_Unwind_ForcedUnwind` is called with a stop function. -/
def ForceStarts (s : State w) : Prop :=
  s.private1 ≠ 0 ∧ s.mode = .phase2 (initContext own stack) .forced false false ∧
    s.found = none ∧ s.endOfStack = false ∧ s.trace = [] ∧ s.padTrace = []

/-- At the IP from which a landing pad calls `_Unwind_Resume`, its personality routine goes
    on. -/
def Allowed : State w → Event w → Prop
  | _, .round _ => True
  | _, .resume pad _ => pad.hasPersonality = true → search pad.ip = .continueUnwind

end Unwinder

/-! ## What a round does -/

def Mode.Stopped : Mode w → Prop
  | .returned _ => True
  | .aborted => True
  | _ => False

def State.records (s : State w) (pad : Bool) (calls : List (Call w)) : State w :=
  if pad then { s with padTrace := s.padTrace ++ calls } else { s with trace := s.trace ++ calls }

/-- The calls with which a frame is passed, `chosen` being the actions for its personality
    routine. -/
def callsFor (forced : Bool) (f : Frame w) (actions chosen : Actions) : List (Call w) :=
  .step f :: ((if forced then [.stop f actions] else []) ++
    if f.hasPersonality then [.personality f chosen] else [])

/-- The actions with which a frame's personality routine is called. -/
def actionsFor (s : State w) (f : Frame w) (actions : Actions) : Actions :=
  if s.private1 = 0 ∧ s.private2 = f.ip then { actions with handlerFrame := true } else actions

/-- How phase 2 goes on after a frame. -/
def GoesOn (cursor : Cursor w) (actions : Actions) (inResume : Bool) (mode : Mode w) : Prop :=
  (mode = .phase2 cursor actions false inResume ∧ actions.handlerFrame = false) ∨
    mode = .landed cursor actions.handlerFrame

/-- `s'` is `s` when the calls for the frame of `caller` are made, unless something among them
    ends it. -/
def Passes (s : State w) (pad inResume : Bool) (caller : Cursor w) (calls : List (Call w))
    (actions : Actions) (s' : State w) : Prop :=
  ∃ made mode, s' = { s.records pad made with mode } ∧
    (mode.Stopped ∧ made <+: calls ∨ made = calls ∧ GoesOn caller actions inResume mode)

section Rounds

variable {s : State w} {cursor caller : Cursor w} {actions : Actions} {pad inResume : Bool}
  {a : Answer} {stepEnds : Bool}

theorem fail_stopped (s : State w) (inResume : Bool) :
    ∃ mode, mode.Stopped ∧ s.fail inResume = { s with mode } := by
  cases inResume with
  | false => exact ⟨.returned .fatalPhase2Error, trivial, rfl⟩
  | true => exact ⟨.aborted, trivial, rfl⟩

theorem record_eq (s : State w) (pad : Bool) (c : Call w) : s.record pad c = s.records pad [c] := by
  cases pad with
  | false => rfl
  | true => rfl

theorem records_records (s : State w) (pad : Bool) (calls more : List (Call w)) :
    (s.records pad calls).records pad more = s.records pad (calls ++ more) := by
  cases pad with
  | false => simp [State.records]
  | true => simp [State.records]

@[simp] theorem records_private1 (s : State w) (pad : Bool) (calls : List (Call w)) :
    (s.records pad calls).private1 = s.private1 := by
  cases pad with
  | false => rfl
  | true => rfl

@[simp] theorem records_private2 (s : State w) (pad : Bool) (calls : List (Call w)) :
    (s.records pad calls).private2 = s.private2 := by
  cases pad with
  | false => rfl
  | true => rfl

theorem offer_cases (s : State w) (cursor : Cursor w) (actions : Actions) (pad inResume : Bool)
    (a : Answer) (plain : actions.handlerFrame = false) :
    (∃ mode, mode.Stopped ∧ offer s cursor actions pad inResume a = { s with mode }) ∨
    (cursor.frame.hasPersonality = false ∧ ∃ mode, GoesOn cursor actions inResume mode ∧
      offer s cursor actions pad inResume a = { s with mode }) ∨
    (cursor.frame.hasPersonality = true ∧
      ∃ mode, (mode.Stopped ∨ GoesOn cursor (actionsFor s cursor.frame actions) inResume mode) ∧
        offer s cursor actions pad inResume a =
          { s.records pad [.personality cursor.frame (actionsFor s cursor.frame actions)] with
            mode }) := by
  cases info : cursor.frame.handler with
  | none =>
      obtain ⟨mode, stopped, failed⟩ := fail_stopped s inResume
      exact Or.inl ⟨mode, stopped, by simp only [offer, info, failed]⟩
  | some handler =>
      by_cases none : handler = 0
      · have lacking : cursor.frame.hasPersonality = false := by
          simp [Frame.hasPersonality, info, none]
        exact Or.inr (Or.inl ⟨lacking, _, Or.inl ⟨rfl, plain⟩, by
          simp only [offer, info, none, if_true]⟩)
      · have one : cursor.frame.hasPersonality = true := by
          simpa [Frame.hasPersonality, info] using none
        by_cases unread : s.private1 = 0 ∧ cursor.frame.ipReadable = false
        · obtain ⟨mode, stopped, failed⟩ := fail_stopped s inResume
          exact Or.inl ⟨mode, stopped, by simp only [offer, info, none, unread, if_false, if_true,
            and_self, failed]⟩
        · refine Or.inr (Or.inr ⟨one, ?_⟩)
          simp only [offer, info, none, unread, if_false, record_eq]
          have chosen : (if s.private1 = 0 ∧ s.private2 = cursor.frame.ip then
              { actions with handlerFrame := true } else actions) =
            actionsFor s cursor.frame actions := rfl
          rw [chosen]
          generalize actionsFor s cursor.frame actions = chosen
          obtain ⟨mode, stopped, failed⟩ :=
            fail_stopped (s.records pad [.personality cursor.frame chosen]) inResume
          cases a.personality with
          | continueUnwind =>
              cases offered : chosen.handlerFrame with
              | true => exact ⟨.aborted, Or.inl trivial, rfl⟩
              | false => exact ⟨_, Or.inr (Or.inl ⟨rfl, offered⟩), rfl⟩
          | installContext =>
              cases a.resumes with
              | true => exact ⟨_, Or.inr (Or.inr rfl), rfl⟩
              | false => exact ⟨.aborted, Or.inl trivial, rfl⟩
          | noReason => exact ⟨mode, Or.inl stopped, failed⟩
          | foreignExceptionCaught => exact ⟨mode, Or.inl stopped, failed⟩
          | fatalPhase2Error => exact ⟨mode, Or.inl stopped, failed⟩
          | fatalPhase1Error => exact ⟨mode, Or.inl stopped, failed⟩
          | normalStop => exact ⟨mode, Or.inl stopped, failed⟩
          | endOfStack => exact ⟨mode, Or.inl stopped, failed⟩
          | handlerFound => exact ⟨mode, Or.inl stopped, failed⟩

theorem offer_passes (before : List (Call w)) (plain : actions.handlerFrame = false) :
    Passes s pad inResume caller (before ++ if caller.frame.hasPersonality then
        [.personality caller.frame (actionsFor s caller.frame actions)] else [])
      (if caller.frame.hasPersonality then actionsFor s caller.frame actions else actions)
      (offer (s.records pad before) caller actions pad inResume a) := by
  have same : actionsFor (s.records pad before) caller.frame actions =
      actionsFor s caller.frame actions := by simp [actionsFor]
  obtain ⟨mode, stopped, result⟩ | ⟨lacking, mode, goes, result⟩ | ⟨one, mode, goes, result⟩ :=
    offer_cases (s.records pad before) caller actions pad inResume a plain
  · exact ⟨before, mode, result, Or.inl ⟨stopped, List.prefix_append _ _⟩⟩
  · exact ⟨before, mode, result, Or.inr ⟨by simp [lacking], by simpa [lacking] using goes⟩⟩
  · rw [same, records_records] at result
    rw [same] at goes
    simp only [one, if_true]
    cases goes with
    | inl stopped => exact ⟨_, mode, result, Or.inl ⟨stopped, List.prefix_rfl⟩⟩
    | inr goes => exact ⟨_, mode, result, Or.inr ⟨rfl, goes⟩⟩

theorem phase2Round_up (stepped : cursor.up = some caller) (plain : actions.handlerFrame = false) :
    Passes s pad inResume caller
      (callsFor (s.private1 ≠ 0) caller.frame actions (actionsFor s caller.frame actions))
      (if caller.frame.hasPersonality then actionsFor s caller.frame actions else actions)
      (phase2Round stepEnds s cursor actions pad inResume a) := by
  by_cases normal : s.private1 = 0#w
  · have round : phase2Round stepEnds s cursor actions pad inResume a =
        offer (s.records pad [.step caller.frame]) caller actions pad inResume a := by
      simp [phase2Round, stepped, record_eq, normal]
    rw [round]
    simpa [callsFor, normal] using offer_passes [.step caller.frame] plain
  · by_cases goesOn : a.stop = .noReason
    · have round : phase2Round stepEnds s cursor actions pad inResume a =
          offer (s.records pad [.step caller.frame, .stop caller.frame actions]) caller actions
            pad inResume a := by
        simp [phase2Round, stepped, record_eq, records_records, normal, goesOn]
      rw [round]
      simpa [callsFor, normal] using
        offer_passes [.step caller.frame, .stop caller.frame actions] plain
    · obtain ⟨mode, stopped, failed⟩ := fail_stopped
        (s.records pad [.step caller.frame, .stop caller.frame actions]) inResume
      refine ⟨[.step caller.frame, .stop caller.frame actions], mode, ?_, Or.inl ⟨stopped, ?_⟩⟩
      · simp [phase2Round, stepped, record_eq, records_records, normal, goesOn, failed]
      · simp [callsFor, normal]

/-- A frame whose personality routine, if it has one, is called with `actions`. -/
theorem phase2Round_unmarked (stepped : cursor.up = some caller)
    (plain : actions.handlerFrame = false)
    (unmarked : caller.frame.hasPersonality = true → actionsFor s caller.frame actions = actions) :
    Passes s pad inResume caller (callsFor (s.private1 ≠ 0) caller.frame actions actions) actions
      (phase2Round stepEnds s cursor actions pad inResume a) := by
  have passes : Passes s pad inResume caller _ _
      (phase2Round stepEnds s cursor actions pad inResume a) := phase2Round_up stepped plain
  cases one : caller.frame.hasPersonality with
  | true => simpa [one, unmarked one] using passes
  | false => simpa [one, callsFor] using passes

end Rounds

end Libunwind.Exception.TwoPhase
