import Libunwind.X64.HeuristicFrames
import Libunwind.X64.FastTrace
import Libunwind.X64.TraceTransparency

/-! # `unw_backtrace` on x86_64

A backtrace is made by `tdep_trace`, and by steps of `unw_step` if that fails. It comes to the addresses
that the steps alone would, up to the first that lies in the first pages. That holds over all the
backtraces of a thread, which share its trace cache.
-/

namespace Libunwind.X86_64

open Dwarf

/-! ## The backtraces -/

section Source

variable (host : Host) (spaces : ℕ → StepSpace 17 64)

/-- The loop of `slow_backtrace`, with room for as many addresses. -/
def slowBacktrace (room depth : ℕ) (c : X86Cursor) : Result (List (Word 64)) :=
  match unwStep host c (spaces depth) with
  | (.ok true, c) =>
      match room with
      | 0 => pure []
      | room + 1 =>
          match host.target.getReg (spaces depth).as c host.target.regIp with
          | .ok ip => do
              let rest ← slowBacktrace room (depth + 1) c
              pure (ip :: rest)
          | .error (.err _) => pure []
          | .error fault => .error fault
  | (.ok false, _) | (.error (.err _), _) => pure []
  | (.error fault, _) => .error fault

end Source

/-- A backtrace: its trace, and the cursor of the steps that are made where the trace fails. Both are
    initialised from a context. -/
structure Backtrace (σ : Type) extends TraceEvent σ where
  slow : X86Cursor
  slowSpaces : σ → ℕ → StepSpace 17 64

namespace Backtrace

variable {σ : Type} (call : Backtrace σ)

/-- What the steps alone come to, in some state of the process. -/
def slowResult (s : σ) : Result (List (Word 64)) :=
  slowBacktrace call.setting.host (call.slowSpaces s) call.size.toNat 0 call.slow

/-- `unw_backtrace`, with the cache of the thread before and after it. -/
def unwBacktrace (tls : Option TraceCache) : Result (List (Word 64) × Option TraceCache × σ) := do
  let (outcome, tls, s) ← call.trace tls
  match outcome.ret with
  | .ok () => pure (outcome.stored, tls, s)
  | .error _ => do
      let stored ← call.slowResult s
      pure (stored, tls, s)

/-- `unw_backtrace2` of a context: the trace has room for all addresses but the first. -/
def unwBacktrace2 (tls : Option TraceCache) : Result (List (Word 64) × Option TraceCache × σ) := do
  let (stored, tls, s) ← call.unwBacktrace tls
  pure (call.cursor.ip :: stored, tls, s)

end Backtrace

/-! ## Rows of a local cursor -/

section Target

variable {host : Host} {as : AddrSpace 64} {budget : Nat} {c : X86Cursor} {rs : RegState 17 64}

/-- No expression of a row comes to a register instead of an address. -/
def NamesNoRegister (host : Host) (as : AddrSpace 64) (budget : Nat) (c : X86Cursor)
    (rs : RegState 17 64) : Prop :=
  ∀ column stackVal len addr value, (rs.reg column).how = .expr ∨ (rs.reg column).how = .valExpr →
    readUleb128 as (rs.reg column).val = .ok (len, addr) →
    evalExpr (exprContext host.target as c) budget stackVal addr len = .ok value →
    value.isRegister = false

/-- Such an expression is the same for a cursor whose registers are in a context. -/
theorem NamesNoRegister.evalLocationExpr (names : NamesNoRegister host as budget c rs) {column}
    (isExpr : (rs.reg column).how = .expr ∨ (rs.reg column).how = .valExpr) (stackVal : Word 64) :
    evalLocationExpr host.target as budget c stackVal (rs.reg column).val =
      Dwarf.evalLocationExpr (target host.localOnly) as budget c stackVal (rs.reg column).val := by
  unfold Dwarf.evalLocationExpr
  cases block : readUleb128 as (rs.reg column).val with
  | error fault => rfl
  | ok read =>
      obtain ⟨len, addr⟩ := read
      have same : exprContext (target host.localOnly) as c = exprContext host.target as c := rfl
      simp only [same, ok_bind]
      cases evaluated : evalExpr (exprContext host.target as c) budget stackVal addr len with
      | error fault => simp only [error_bind]
      | ok value =>
          have noRegister := names column stackVal len addr value isExpr block evaluated
          simp only [ok_bind, noRegister, Bool.false_eq_true, if_false]

theorem NamesNoRegister.applyRegState (names : NamesNoRegister host as budget c rs) :
    applyRegState host.target as budget c rs =
      Dwarf.applyRegState (target host.localOnly) as budget c rs := by
  have base : evalCfa host.target as budget c rs = evalCfa (target host.localOnly) as budget c rs := by
    unfold evalCfa
    cases how : (rs.reg (cfaRegColumn 17)).how with
    | expr => simp only [how, names.evalLocationExpr (.inl how)]
    | reg =>
        simp only [how]
        rfl
    | _ => simp only [how]
  have rule (cfa : Word 64) (column) (old : Loc 64) :
      ruleLoc host.target as budget c cfa (rs.reg column) old =
        ruleLoc (target host.localOnly) as budget c cfa (rs.reg column) old := by
    unfold ruleLoc
    cases how : (rs.reg column).how with
    | expr => simp only [names.evalLocationExpr (.inl how)]
    | valExpr =>
        simp only [names.evalLocationExpr (.inr how)]
        rfl
    | cfa => rfl
    | _ => rfl
  have columns (cfa : Word 64) (order : List (Fin 17)) :
      applyColumns host.target as budget c cfa rs order =
        applyColumns (target host.localOnly) as budget c cfa rs order := by
    have column : applyColumn host.target as budget c cfa rs =
        applyColumn (target host.localOnly) as budget c cfa rs := by
      funext newLoc i
      simp only [applyColumn, rule]
      rfl
    rw [applyColumns, applyColumns, column]
  simp only [Dwarf.applyRegState, base, columns]
  rfl

end Target

/-! ## A frame that both paths step over -/

/-- The cursor of the slow path is at the frame that the fast path has these registers for. -/
structure AtFrame (localOnly : Bool) (as : AddrSpace 64) (regs : TraceRegs) (c : X86Cursor) :
    Prop where
  cfa : regs.cfa = c.cfa
  rbp : (c.loc rbp).get localOnly as = .ok regs.rbp
  rsp : (c.loc rsp).get localOnly as = .ok regs.rsp

/-- The slow path steps over a frame by a row of its unwind info that is recorded. -/
structure StepsByRow (host : Host) (space : StepSpace 17 64) (c : X86Cursor) (f : Frame)
    (rs : RegState 17 64) : Prop where
  found : (space.find host.target (clearSigcontext c)).result = .ok rs
  created : ∃ ctx cfiBudget pi ip usePrevInstr sr, ctx.target = (target host.localOnly).cfi ∧
    createStateRecordFor ctx cfiBudget pi ip usePrevInstr = .ok sr ∧ sr.rsCurrent = rs
  recorded : ∃ as₀, Recorded host.localOnly as₀ rs f ∧ alignedOffset space.as rs = alignedOffset as₀ rs
  kind : f.frameType = .standard ∨ f.frameType = .aligned
  regular : Regular space.as rs f.frameType
  names : NamesNoRegister host space.as space.budget
    (space.find host.target (clearSigcontext c)).cursor rs
  rules : Evaluates host.localOnly space.as space.budget
    (space.find host.target (clearSigcontext c)).cursor rs
  rounds : 2 ≤ space.budget
  rspRule : (rs.reg (regColumn rsp)).how = .cfa

/-- It steps over the frame by an alternative of the fallback whose descriptor fits. -/
structure StepsByFallback (host : Host) (space : StepSpace 17 64) (c : X86Cursor) (f : Frame)
    (regs : TraceRegs) (how : Heuristic) : Prop where
  found : ∃ c₁ after, dwarfStep host.target space (clearSigcontext c) = (.error (.err .noinfo), c₁) ∧
    c₁.loc = c.loc ∧ c₁.cfa = c.cfa ∧ c₁.ip = c.ip ∧ PerformedBy host space.as c₁ how after ∧
    f = after.tdep.frameInfo ∧ ReplaysWhen host false space.as c₁ regs.rbp regs.rsp how

/-- What is recorded of a frame is what the slow path does there. -/
structure Charted (host : Host) (space : StepSpace 17 64) (record : FrameRecord) (regs : TraceRegs)
    (c : X86Cursor) : Prop where
  last : record.lastFrame = true → ∀ c', unwStep host c space ≠ (.ok true, c')
  steps : record.lastFrame = false →
    (∃ rs, StepsByRow host space c record.frame rs) ∨
      ∃ how, StepsByFallback host space c record.frame regs how
  /-- The stack does not lead back to the frame itself. -/
  moves : ∀ next, traceFrame host.localOnly false space.as record.frame regs.cfa regs.rbp regs.rsp =
    .ok next → next.rip ≠ c.ip ∨ next.cfa ≠ c.cfa

section Step

variable {host : Host} {space : StepSpace 17 64} {record : FrameRecord} {regs next : TraceRegs}
  {c : X86Cursor} {f : Frame} {rs : RegState 17 64}

/-- What both paths come to at a frame. -/
structure Arrives (host : Host) (space : StepSpace 17 64) (c : X86Cursor) (next : TraceRegs)
    (more : Bool) (c' : X86Cursor) : Prop where
  stepped : unwStep host c space = (.ok more, c')
  ip : c'.ip = next.rip
  atFrame : AtFrame host.localOnly space.as next c'
  ends : more = false → next.rip = 0

theorem StepsByRow.follows (steps : StepsByRow host space c f rs)
    (memory : ProcessMemory space.as) {d : X86Cursor}
    (isFound : (space.find host.target (clearSigcontext c)).cursor = d)
    (atFrame : AtFrame host.localOnly space.as regs d) :
    ∃ inRange, rs.reg (regColumn ⟨rs.retAddrColumn.toNat, inRange⟩) = ⟨.cfarel, -8⟩ ∧
      FollowsRules host.localOnly space.as space.budget d rs
        (traceFrame host.localOnly false space.as f regs.cfa regs.rbp regs.rsp) := by
  obtain ⟨as₀, recorded, unchanged⟩ := steps.recorded
  obtain ⟨inRange, d₀, before, stashed⟩ := recorded.stashedAt
  obtain ⟨ctx, cfiBudget, pi, ip, usePrevInstr, sr, isTarget, created, rfl⟩ := steps.created
  have fresh := stashed.fresh
  have regular := steps.regular
  have rules := isFound ▸ steps.rules
  refine ⟨inRange, ?_⟩
  rw [atFrame.cfa]
  rcases steps.kind with standard | aligned
  · rw [standard] at regular
    rw [← stashed.recorded] at standard ⊢
    obtain ⟨isStandard, isRecord⟩ := stashFrame_standard fresh standard
    have tests := isStandard_iff.mp isStandard
    have notCfa : (sr.rsCurrent.reg (regColumn rbp)).how ≠ .cfa := by
      intro isCfa
      have only := createStateRecordFor_cfaOnlyAt created (regColumn rbp) isCfa
      rw [isTarget] at only
      have different : regColumn rbp ≠ regColumn rsp := by decide
      exact different only
    rw [isRecord]
    exact ⟨stashed.pushed tests (regular.returnRule inRange),
      standardFrame_followsRules memory tests regular notCfa fresh atFrame.rbp atFrame.rsp rules⟩
  · rw [aligned] at regular
    rw [← stashed.recorded] at aligned ⊢
    obtain ⟨offset, isOffset, isRecord⟩ := stashFrame_aligned fresh aligned
    rw [← unchanged] at isOffset
    obtain ⟨above, below⟩ := alignedOffset_range isOffset regular
    have held : (offset.setWidth 29).signExtend 64 = offset :=
      signExtend_setWidth (by decide) (by omega) (by omega)
    rw [isRecord]
    refine ⟨?_, alignedFrame_followsRules memory isOffset regular rfl rfl held atFrame.rbp rules
      steps.rounds⟩
    rw [← regular.returnRule inRange, ← regular.pushed rfl inRange]

theorem StepsByRow.arrives (steps : StepsByRow host space c f rs) (memory : ProcessMemory space.as)
    (atFrame : AtFrame host.localOnly space.as regs c)
    (traced : traceFrame host.localOnly false space.as f regs.cfa regs.rbp regs.rsp = .ok next)
    (moves : next.rip ≠ c.ip ∨ next.cfa ≠ c.cfa) :
    ∃ more c', Arrives host space c next more c' := by
  have same := space.find_sameFrame host.target (clearSigcontext c) (.inl ⟨rs, steps.found⟩)
  have rules := steps.rules
  have names := steps.names
  have stepped : dwarfStep host.target space (clearSigcontext c) = applyRegState host.target space.as
      space.budget (space.find host.target (clearSigcontext c)).cursor rs := by
    simp only [dwarfStep, steps.found]
  generalize isFound : (space.find host.target (clearSigcontext c)).cursor = d at *
  have atFrame : AtFrame host.localOnly space.as regs d :=
    ⟨atFrame.cfa.trans same.cfa.symm, by rw [same.loc]; exact atFrame.rbp,
      by rw [same.loc]; exact atFrame.rsp⟩
  obtain ⟨inRange, pushed, follows⟩ := steps.follows memory isFound atFrame
  have agree := agree_of_followsRules memory follows inRange pushed rules
  have reached := (agree.steps next traced).mpr (by rwa [same.ip, same.cfa])
  have rsp := agree.rsp next traced steps.rspRule
  rw [← names.applyRegState, ← stepped] at reached rsp
  obtain ⟨more, returned⟩ := reached.returns
  have isStep : unwStep host c space = dwarfStep host.target space (clearSigcontext c) := by
    rcases unwStep_cases host c space with ⟨isDwarf, -⟩ | ⟨c₁, _, _, noinfo, -, -⟩
    · exact isDwarf.symm
    · rw [noinfo] at returned
      cases returned
  refine ⟨more, _, ?_, reached.rip, ⟨reached.cfa.symm, reached.rbp, rsp⟩, fun ends => ?_⟩
  · rw [isStep, ← returned]
  · rw [stepped] at returned reached
    obtain ⟨ra, cfa, ip, newLoc, staged, read, isMore, -⟩ := applyRegState_ok returned
    rw [ends] at isMore
    rw [← reached.rip, (staged.leads read).2.1]
    exact not_not.mp (decide_eq_false_iff_not.mp isMore.symm)

theorem StepsByFallback.arrives {how : Heuristic} (steps : StepsByFallback host space c f regs how)
    (atFrame : AtFrame host.localOnly space.as regs c)
    (traced : traceFrame host.localOnly false space.as f regs.cfa regs.rbp regs.rsp = .ok next)
    (moves : next.rip ≠ c.ip ∨ next.cfa ≠ c.cfa) :
    ∃ more c', Arrives host space c next more c' := by
  obtain ⟨c₁, after, noinfo, loc, cfa, ip, performed, rfl, fits⟩ := steps.found
  have framePointer := atFrame.rbp
  rw [← loc] at framePointer
  have replays : ReplaysTo host false space.as regs.cfa regs.rbp regs.rsp after := by
    cases performed with
    | vsyscall => exact fits.elim
    | plt => exact (pltStep_replays_iff framePointer regs.cfa).mpr fits
    | record _ _ _ found =>
        obtain rfl := Except.ok.inj (framePointer.symm.trans found.framePointer)
        exact (rbpWalkStep_replays_iff found.saved regs.cfa).mpr fits
  obtain ⟨_, traced', sameCfa, sameRip, rbp, rsp⟩ := replays
  cases traced'.symm.trans traced
  refine ⟨true, after, ?_, sameRip.symm, ⟨sameCfa, rbp, rsp⟩, fun ends => by cases ends⟩
  have isOther : (after.ip == c₁.ip && after.cfa == c₁.cfa) = false := by
    rw [← sameCfa, ← sameRip, ip, cfa]
    rcases moves with other | other
    · rw [beq_eq_false_iff_ne.mpr other, Bool.false_and]
    · rw [beq_eq_false_iff_ne.mpr other, Bool.and_false]
  unfold unwStep
  rw [noinfo]
  simp only [unwStepFallback_performedBy performed, Except.map, isOther]
  rfl

/-- The slow path comes to the frame that the fast path comes to. -/
theorem Charted.arrives (charted : Charted host space record regs c) (memory : ProcessMemory space.as)
    (atFrame : AtFrame host.localOnly space.as regs c) (notLast : record.lastFrame = false)
    (traced : traceFrame host.localOnly false space.as record.frame regs.cfa regs.rbp regs.rsp =
      .ok next) : ∃ more c', Arrives host space c next more c' := by
  have moves := charted.moves next traced
  rcases charted.steps notLast with ⟨rs, byRow⟩ | ⟨how, byFallback⟩
  · exact byRow.arrives memory atFrame traced moves
  · exact byFallback.arrives atFrame traced moves

end Step

/-! ## Both walks -/

section Walks

variable (host : Host) (spaces : ℕ → StepSpace 17 64) (record : Word 64 → FrameRecord)
  (as : AddrSpace 64)

/-- The frames that both walks come to, with room for as many addresses. -/
inductive Abreast : ℕ → ℕ → TraceRegs → X86Cursor → ℕ → TraceRegs → X86Cursor → Prop where
  | here {room depth : ℕ} {regs : TraceRegs} {c : X86Cursor} :
      Abreast (room + 1) depth regs c depth regs c
  | later {room depth d : ℕ} {regs next r : TraceRegs} {c c' e : X86Cursor} :
      (recordWays record host.localOnly as).round depth regs () = .ok (.next next, ()) →
      unwStep host c (spaces depth) = (.ok true, c') →
      Abreast room (depth + 1) next c' d r e → Abreast (room + 1) depth regs c d r e

variable {host spaces record as} {room depth : ℕ} {regs next : TraceRegs} {c c' : X86Cursor}
  {stored addresses : List (Word 64)}

/-- The address lies behind the first pages. -/
def isAddress (ip : Word 64) : Bool := 0x4000 ≤ ip

theorem slowBacktrace_ended (ends : ∀ c', unwStep host c (spaces depth) ≠ (.ok true, c'))
    (slow : slowBacktrace host spaces room depth c = .ok addresses) : addresses = [] := by
  unfold slowBacktrace at slow
  split at slow
  · next c' stepped => exact absurd stepped (ends c')
  · cases slow
    rfl
  · cases slow
    rfl
  · cases slow

theorem slowBacktrace_steps (stepped : unwStep host c (spaces depth) = (.ok true, c')) :
    slowBacktrace host spaces (room + 1) depth c =
      slowBacktrace host spaces room (depth + 1) c' >>= fun rest => pure (c'.ip :: rest) := by
  rw [slowBacktrace, stepped]
  rfl

/-- How a round of a walk by records ends. -/
inductive RecordRound (localOnly : Bool) (record : FrameRecord) (as : AddrSpace 64)
    (regs : TraceRegs) : TraceTurn → Prop where
  | last : record.lastFrame = true → RecordRound localOnly record as regs (.done (.ok ()))
  | failed (code : UnwError) : RecordRound localOnly record as regs (.done (.error code))
  | low {next : TraceRegs} : record.lastFrame = false →
      traceFrame localOnly false as record.frame regs.cfa regs.rbp regs.rsp = .ok next →
      next.rip < 0x4000 → RecordRound localOnly record as regs (.done (.ok ()))
  | next {next : TraceRegs} : record.lastFrame = false →
      traceFrame localOnly false as record.frame regs.cfa regs.rbp regs.rsp = .ok next →
      0x4000 ≤ next.rip → RecordRound localOnly record as regs (.next next)

theorem recordRound {localOnly : Bool} {turn : TraceTurn}
    (isRound : (recordWays record localOnly as).round depth regs () = .ok (turn, ())) :
    RecordRound localOnly (record regs.backedUp.rip) as regs turn := by
  rw [TraceWays.round_some rfl] at isRound
  obtain ⟨_, stepped, same⟩ := bind_eq_ok.mp isRound
  cases same
  rw [TraceWays.stepOver] at stepped
  split at stepped
  next other => exact absurd rfl other
  next =>
    split at stepped
    next last =>
      cases stepped
      exact .last last
    next notLast =>
      have notLast := Bool.eq_false_iff.mpr notLast
      split at stepped
      next next traced =>
        split at stepped
        next low =>
          cases stepped
          exact .low notLast traced low
        next high =>
          cases stepped
          exact .next notLast traced (BitVec.not_lt.mp high)
      next code _ =>
        cases stepped
        exact .failed code
      next => cases stepped

/-- A walk by records that ends well comes to what the steps come to, up to what is no address. -/
theorem slowBacktrace_agrees (memory : ProcessMemory as) (inProcess : ∀ d, (spaces d).as = as)
    (atFrame : AtFrame host.localOnly as regs c)
    (charted : ∀ d r e, Abreast host spaces record as room depth regs c d r e →
      Charted host (spaces d) (record r.backedUp.rip) r e)
    (fast : (recordWays record host.localOnly as).loop room depth regs () =
      .ok (⟨.ok (), stored⟩, ()))
    (slow : slowBacktrace host spaces room depth c = .ok addresses) :
    stored = addresses.takeWhile isAddress := by
  induction room generalizing depth regs c stored addresses with
  | zero =>
      cases fast
      unfold slowBacktrace at slow
      split at slow <;> cases slow <;> rfl
  | succ room ih =>
      have here := charted _ _ _ .here
      have arrives {next : TraceRegs} (notLast : (record regs.backedUp.rip).lastFrame = false)
          (traced : traceFrame host.localOnly false as (record regs.backedUp.rip).frame regs.cfa
            regs.rbp regs.rsp = .ok next) : ∃ more c', Arrives host (spaces depth) c next more c' := by
        rw [← inProcess depth] at memory atFrame traced
        exact here.arrives memory atFrame notLast traced
      have done {next : TraceRegs} {c' : X86Cursor}
          (arrives : Arrives host (spaces depth) c next false c') : addresses = [] := by
        refine slowBacktrace_ended (fun _ other => ?_) slow
        rw [arrives.stepped] at other
        cases other
      rw [TraceWays.loop_succ] at fast
      obtain ⟨⟨turn, ⟨⟩⟩, isRound, fast⟩ := bind_eq_ok.mp fast
      cases recordRound isRound with
      | last last =>
          cases fast
          rw [slowBacktrace_ended (here.last last) slow]
          rfl
      | failed code => cases fast
      | low notLast traced low =>
          cases fast
          obtain ⟨more, c', arrives⟩ := arrives notLast traced
          cases more with
          | false =>
              rw [done arrives]
              rfl
          | true =>
              rw [slowBacktrace_steps arrives.stepped] at slow
              obtain ⟨rest, -, slow⟩ := bind_eq_ok.mp slow
              cases slow
              have isLow : isAddress c'.ip = false := by
                rw [arrives.ip]
                exact decide_eq_false (BitVec.not_le.mpr low)
              rw [List.takeWhile_cons_of_neg (by rw [isLow]; exact Bool.false_ne_true)]
      | @next next notLast traced high =>
          obtain ⟨⟨outcome, ⟨⟩⟩, later, fast⟩ := bind_eq_ok.mp fast
          obtain ⟨ret, stored⟩ := outcome
          cases fast
          obtain ⟨more, c', arrives⟩ := arrives notLast traced
          cases more with
          | false =>
              rw [arrives.ends rfl] at high
              exact absurd high (by decide)
          | true =>
              rw [slowBacktrace_steps arrives.stepped] at slow
              obtain ⟨rest, slower, slow⟩ := bind_eq_ok.mp slow
              cases slow
              rw [List.takeWhile_cons_of_pos (by rw [arrives.ip]; exact decide_eq_true high),
                arrives.ip, ih (inProcess depth ▸ arrives.atFrame)
                  (fun d r e abreast => charted d r e (.later isRound arrives.stepped abreast)) later
                  slower]

end Walks

/-! ## The backtraces of a thread -/

namespace Backtrace

variable {σ : Type} (record : Word 64 → FrameRecord) (tls : Option TraceCache) (call : Backtrace σ)

/-- What a backtrace relies on besides the cache. -/
structure Sound : Prop where
  memory : ProcessMemory (call.setting.p.space call.process)
  inProcess : ∀ d, (call.slowSpaces call.process d).as = call.setting.p.space call.process
  begins : ∀ regs, call.setting.initialRegs call.cursor call.process = .ok regs →
    AtFrame call.setting.host.localOnly (call.setting.p.space call.process) regs call.slow
  charted : ∀ regs, call.setting.initialRegs call.cursor call.process = .ok regs → ∀ d r e,
    Abreast call.setting.host (call.slowSpaces call.process) record
        (call.setting.p.space call.process) call.size.toNat 0 regs call.slow d r e →
      Charted call.setting.host (call.slowSpaces call.process d) (record r.backedUp.rip) r e
  /-- What a trace that fails has written is not in the way of the steps. -/
  undisturbed : ∀ outcome tls' s code, call.trace tls = .ok (outcome, tls', s) →
    outcome.ret = .error code → call.slowResult s = call.slowResult call.process

variable {record tls call} {whole : TraceOutcome} {addresses : List (Word 64)}

/-- A trace by records that ends well. -/
theorem Sound.plain_agrees (sound : call.Sound record tls)
    (plain : call.plainTrace record = .ok whole) (ends : whole.ret = .ok ())
    (slow : call.slowResult call.process = .ok addresses) :
    whole.stored = addresses.takeWhile isAddress := by
  rw [TraceEvent.plainTrace, TraceSetting.plainTrace] at plain
  split at plain
  · cases plain
    cases ends
  · obtain ⟨regs, isRegs, plain⟩ := bind_eq_ok.mp plain
    obtain ⟨⟨⟨ret, stored⟩, ⟨⟩⟩, fast, plain⟩ := bind_eq_ok.mp plain
    cases plain
    cases ends
    exact slowBacktrace_agrees sound.memory sound.inProcess (sound.begins regs isRegs)
      (sound.charted regs isRegs) fast slow

/-- Whichever way a backtrace goes, it comes to the addresses of the steps alone. -/
theorem Sound.agrees (sound : call.Sound record tls) (right : ∀ cache ∈ tls, cache.Right record)
    (allowed : call.Allowed record tls) (plain : call.plainTrace record = .ok whole)
    (slow : call.slowResult call.process = .ok addresses) :
    ∃ stored tls' s, call.unwBacktrace tls = .ok (stored, tls', s) ∧
      (stored = addresses ∨ stored = addresses.takeWhile isAddress) := by
  obtain ⟨outcome, tls', s, traced, agrees⟩ := TraceEvent.agrees_of_right right allowed plain
  rw [unwBacktrace, traced, ok_bind]
  dsimp only
  have fails (code) (failed : outcome.ret = .error code) :
      call.slowResult s = .ok addresses :=
    (sound.undisturbed outcome tls' s code traced failed).trans slow
  cases ret : outcome.ret with
  | error code =>
      dsimp only
      rw [fails code ret]
      exact ⟨_, _, _, rfl, .inl rfl⟩
  | ok done =>
      refine ⟨_, _, _, rfl, .inr ?_⟩
      cases agrees with
      | same isWhole =>
          subst isWhole
          exact sound.plain_agrees plain ret slow
      | noCache _ isNomem =>
          rw [isNomem] at ret
          cases ret
      | cutShort _ _ cut =>
          rw [cut.ret] at ret
          cases ret

/-- Over all the backtraces of a thread, each comes to the addresses that the steps of the slow path
    come to, or to the first of these if one could not be an address. -/
theorem unwBacktrace_agrees_of_run
    (run : Run (· = none) (TraceEvent.Step (σ := σ)) (TraceEvent.Allowed record) tls)
    (allowed : call.Allowed record tls) (sound : call.Sound record tls)
    (plain : call.plainTrace record = .ok whole)
    (slow : call.slowResult call.process = .ok addresses) :
    ∃ stored tls' s, call.unwBacktrace tls = .ok (stored, tls', s) ∧
      call.unwBacktrace2 tls = .ok (call.cursor.ip :: stored, tls', s) ∧
      (stored = addresses ∨ stored = addresses.takeWhile isAddress) := by
  obtain ⟨stored, tls', s, ends, agrees⟩ :=
    sound.agrees (TraceEvent.stays_right run) allowed plain slow
  refine ⟨stored, tls', s, ends, ?_, agrees⟩
  rw [unwBacktrace2, ends]
  rfl

end Backtrace

/-- Both walks begin at the frame of a context that they share. -/
theorem atFrame_of_commonInit {σ : Type} {setting : TraceSetting σ} {as : AddrSpace 64} {s : σ}
    {usePrevInstr : Bool} {frameInfo : Frame} {c : X86Cursor} {regs : TraceRegs}
    (isSpace : setting.p.space s = as) (null : NullUnmapped as)
    (inContext : ∀ r, ∃ addr, setting.host.regLoc r = memLoc addr)
    (init : setting.host.commonInit as usePrevInstr frameInfo = .ok c)
    (isRegs : setting.initialRegs c s = .ok regs) : AtFrame setting.host.localOnly as regs c := by
  obtain ⟨ip, -, init⟩ := bind_eq_ok.mp init
  obtain ⟨cfa, isCfa, init⟩ := bind_eq_ok.mp init
  cases init
  obtain ⟨b, isRbp, isRegs⟩ := bind_eq_ok.mp isRegs
  cases isRegs
  refine ⟨rfl, ?_, isCfa⟩
  obtain ⟨addr, inMemory⟩ := inContext rbp
  unfold TraceSetting.initialRbp at isRbp
  split at isRbp
  next read =>
    cases isRbp
    rw [isSpace] at read
    dsimp only at read ⊢
    rw [inMemory] at read ⊢
    exact null.get_memLoc.mpr (null.accessMemFast.mp read)
  next => cases isRbp

/-! ## A backtrace over a frame record -/

/-- Memory that holds these words. -/
def memoryOf (words : List (Word 64 × Word 64)) : AddrSpace 64 :=
  let mapped : AddrSpace 64 :=
    { spaceOfBytes 64 [] with
      readByte := fun addr =>
        match words.find? fun word => (addr - word.1).toNat < 8 with
        | some word => .ok ((word.2 >>> (8 * (addr - word.1).toNat)).setWidth 8)
        | none => .error .inval }
  { mapped with accessMem := wordOf mapped }

/-- The word behind the frame record holds its own address. -/
def recordedMemory : AddrSpace 64 :=
  memoryOf [(0x402000, 0), (0x402008, 0), (0x7010, 0x7040), (0x7018, 0x401000), (0x7020, 0x7020),
    (0x9078, 0x7010), (0x90a0, 0x7000), (0x90a8, 0x402000)]

def recordedTraced : Traced 64 := ⟨recordedMemory.accessReg, recordedMemory.accessMem⟩

/-- A backtrace with room for one address. -/
def recordedBacktrace : Backtrace (Traced 64) where
  setting :=
    { host := contextHost
      p := tracedProcess recordedMemory
      space := bareSpace recordedMemory
      granted := fun _ => true
      validate := fun _ => true }
  size := 1
  created := true
  cursor := calledCursor
  process := recordedTraced
  slow := calledCursor
  slowSpaces s _ := bareSpace ((tracedProcess recordedMemory).space s)

theorem recordedMemory_memory : ProcessMemory recordedMemory where
  words addr val := by
    change wordOf recordedMemory addr = _ ↔ _
    rw [wordOf]
    cases readw recordedMemory addr with
    | error fault => simp
    | ok word =>
        constructor
        · intro same
          exact ⟨word.2, by rw [← Except.ok.inj same]⟩
        · rintro ⟨next, read⟩
          rw [Except.ok.inj read]
  null val read := by cases read
  top byte read := by cases read

theorem recordedBacktrace_allowed : recordedBacktrace.Allowed calledRecord none := by
  have isRegs : recordedBacktrace.setting.initialRegs recordedBacktrace.cursor
      recordedBacktrace.process = .ok calledRegs := rfl
  refine ⟨fun regs same => ?_, fun d r t visits => ?_⟩
  · cases isRegs.symm.trans same
    decide
  · obtain ⟨cache, regs, isCache, same, visits⟩ := visits
    cases isCache
    cases isRegs.symm.trans same
    have one : recordedBacktrace.size.toNat = 1 := rfl
    rw [one] at visits
    cases visits with
    | here =>
        refine ⟨fun _ => ⟨_, _, rfl⟩, fun f after looked => ?_, fun f after looked => ?_⟩
        · cases looked
          intro val read
          cases read
        · cases looked
          rfl
    | later _ visits => cases visits

theorem recordedBacktrace_sound : recordedBacktrace.Sound calledRecord none where
  memory := recordedMemory_memory
  inProcess _ := rfl
  begins _ isRegs := by
    have init : contextHost.commonInit recordedMemory false {} = .ok calledCursor := rfl
    exact atFrame_of_commonInit rfl recordedMemory_memory.null (fun r => ⟨_, rfl⟩) init isRegs
  charted regs isRegs d r e abreast := by
    have sameRegs : recordedBacktrace.setting.initialRegs recordedBacktrace.cursor
        recordedBacktrace.process = .ok calledRegs := rfl
    cases sameRegs.symm.trans isRegs
    have one : recordedBacktrace.size.toNat = 1 := rfl
    rw [one] at abreast
    cases abreast with
    | here =>
        refine ⟨?_, fun _ => .inr ⟨.record 0x7010 0x7040, ?_⟩, fun next traced => ?_⟩
        · intro last
          cases last
        · have found : HasFrameRecord contextHost recordedMemory calledCursor 0x7010 0x7040 :=
            ⟨⟨0, rfl⟩, rfl, by decide, rfl, by decide, by decide⟩
          exact ⟨_, _, rfl, rfl, rfl, rfl, .record rfl rfl rfl found rfl, rfl, ⟨0x401000, rfl⟩, rfl, rfl⟩
        · cases traced
          exact .inl (by decide)
    | later _ _ abreast => cases abreast
  undisturbed outcome tls s code traced failed := by
    cases traced
    cases failed

theorem recordedBacktrace_agrees :
    ∃ stored tls s, recordedBacktrace.unwBacktrace none = .ok (stored, tls, s) ∧
      recordedBacktrace.unwBacktrace2 none = .ok (0x402000 :: stored, tls, s) ∧
      (stored = [0x401000] ∨ stored = [0x401000].takeWhile isAddress) :=
  Backtrace.unwBacktrace_agrees_of_run (.start rfl) recordedBacktrace_allowed
    recordedBacktrace_sound rfl rfl

end Libunwind.X86_64
