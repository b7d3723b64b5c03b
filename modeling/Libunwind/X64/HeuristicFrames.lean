import Libunwind.X64.Step

/-! # Frames that the fallback records

The alternatives of the fallback fill the frame descriptor in by hand, beside the
locations that they set by hand. Here each descriptor is replayed by the fast
path over the registers of the frame that it was recorded for.
-/

namespace Libunwind.X86_64

open Dwarf

variable {host : Host} {validate : Bool} {as : AddrSpace 64} {c c' : X86Cursor}
  {space : StepSpace 17 64} {b s : Word 64}

/-- An alternative that records the frame it steps over as one to be traced. -/
inductive Heuristic where
  | vsyscall
  | plt
  | record (curRbp newRbp : Word 64)

/-- The fallback steps by this alternative. -/
inductive PerformedBy (host : Host) (as : AddrSpace 64) (c : X86Cursor) :
    Heuristic → X86Cursor → Prop where
  | vsyscall : host.isVsyscall c = true → PerformedBy host as c .vsyscall (vsyscallStep c)
  | plt : host.isVsyscall c = false → c.tdep.rtSigframe = false → isPltEntry as c = true →
      PerformedBy host as c .plt (pltStep host as c)
  | record {curRbp newRbp : Word 64} : host.isVsyscall c = false → c.tdep.rtSigframe = false →
      isPltEntry as c = false → HasFrameRecord host as c curRbp newRbp →
      walkStep host as c = (.ok true, rbpWalkStep host as c curRbp newRbp) →
      PerformedBy host as c (.record curRbp newRbp) (rbpWalkStep host as c curRbp newRbp)

/-- From these values of `rbp` and `rsp` the fast path comes to the CFA and the
    instruction pointer of the cursor, and to the values of its `rbp` and `rsp`. -/
def ReplaysTo (host : Host) (validate : Bool) (as : AddrSpace 64) (cfa b s : Word 64)
    (after : X86Cursor) : Prop :=
  ∃ regs, traceFrame host.localOnly validate as after.tdep.frameInfo cfa b s = .ok regs ∧
    regs.cfa = after.cfa ∧ regs.rip = after.ip ∧
    (after.loc rbp).get host.localOnly as = .ok regs.rbp ∧
    (after.loc rsp).get host.localOnly as = .ok regs.rsp

/-- When the descriptor of an alternative says what the alternative does: never for
    the vsyscall page; for a PLT entry if the CFA is the stack pointer, and the
    frame was not recorded with a saved `rbp` before; for a frame record if the
    word behind it happens to hold its own address. -/
def ReplaysWhen (host : Host) (validate : Bool) (as : AddrSpace 64) (c : X86Cursor)
    (b s : Word 64) : Heuristic → Prop
  | .vsyscall => False
  | .plt =>
      let access := accessMemFast host.localOnly validate as
      let offset := c.tdep.frameInfo.rbpCfaOffset
      s = c.cfa ∧ (⟨s + 8, .val⟩ : Loc 64).isNull host.localOnly = false ∧
        access s = .ok ((memLoc s).getInto host.localOnly as c.ip) ∧
        (offset = -1 ∨ access (s + 8 + offset.signExtend 64) = .ok b)
  | .record curRbp newRbp =>
      (∃ ip, (memLoc (curRbp + 8)).get host.localOnly as = .ok ip) ∧
        (memLoc (curRbp + 16)).get host.localOnly as = .ok (curRbp + 16) ∧
        (⟨newRbp, .val⟩ : Loc 64).isNull host.localOnly = false

theorem unwStepFallback_performedBy {how : Heuristic} (performed : PerformedBy host as c how c') :
    unwStepFallback host as c = (.ok true, c') := by
  cases performed with
  | vsyscall inside =>
      unfold unwStepFallback osStep
      rw [if_pos inside]
  | plt outside plain plt =>
      unfold unwStepFallback osStep
      rw [if_neg (by rw [outside]; exact Bool.false_ne_true), plain, plt]
      rfl
  | record outside plain other found walked =>
      unfold unwStepFallback osStep
      rw [if_neg (by rw [outside]; exact Bool.false_ne_true), plain, other]
      exact walked

/-! ## The descriptors -/

/-- A word behind the stack pointer is no stack pointer. -/
theorem ne_add_eight (s : Word 64) : s ≠ s + 8 := by
  intro same
  exact absurd (BitVec.self_eq_add_right.mp same) (by decide)

theorem vsyscallStep_replays (stackPointer : (c.loc rsp).get host.localOnly as = .ok s)
    (cfa : Word 64) : ¬ ReplaysTo host validate as cfa b s (vsyscallStep c) := by
  rintro ⟨regs, traced, -, -, -, stack⟩
  -- the descriptor moves the stack pointer to the CFA, the cursor keeps it
  have standard : (vsyscallStep c).tdep.frameInfo.standardStep
      (accessMemFast host.localOnly true as) (s + 8) b = .ok regs := traced
  obtain ⟨-, -, -, isCfa, -⟩ := Frame.standardStep_eq_ok.mp standard
  rw [vsyscallStep_rsp, stackPointer, isCfa] at stack
  exact ne_add_eight s (Except.ok.inj stack)

theorem get_val {localOnly : Bool} {val : Word 64} :
    (⟨val, .val⟩ : Loc 64).get localOnly as =
      if (⟨val, .val⟩ : Loc 64).isNull localOnly then .error (.err .badreg) else .ok val := by
  unfold Loc.get
  split <;> rfl

theorem pltStep_replays_iff (framePointer : (c.loc rbp).get host.localOnly as = .ok b)
    (cfa : Word 64) :
    ReplaysTo host validate as cfa b s (pltStep host as c) ↔
      ReplaysWhen host validate as c b s .plt := by
  have traced (regs : TraceRegs) :
      traceFrame host.localOnly validate as (pltStep host as c).tdep.frameInfo cfa b s = .ok regs ↔
        (pltStep host as c).tdep.frameInfo.standardStep (accessMemFast host.localOnly validate as)
          (s + 8) b = .ok regs := Iff.rfl
  have back : s + 8 - 8 = s := BitVec.add_sub_cancel s 8
  simp only [ReplaysTo, traced, Frame.standardStep_eq_ok, pltStep_rbp, pltStep_rsp, framePointer,
    get_val, back, ReplaysWhen]
  constructor
  · rintro ⟨regs, ⟨ripRead, rbpRead, isCfa, isRsp, -⟩, -, sameRip, sameRbp, sameRsp⟩
    split at sameRsp
    next => cases sameRsp
    next located =>
      have atCfa : s = c.cfa := by
        rw [isRsp] at sameRsp
        exact (BitVec.add_left_inj 8).mp (Except.ok.inj sameRsp).symm
      subst atCfa
      refine ⟨rfl, Bool.eq_false_iff.mpr located, ?_, ?_⟩
      · rw [ripRead, sameRip]
        rfl
      · rw [← Except.ok.inj sameRbp] at rbpRead
        split at rbpRead
        next unsaved => exact .inl unsaved
        next => exact .inr rbpRead
  · rintro ⟨rfl, located, ripRead, rbpRead⟩
    refine ⟨⟨c.cfa + 8, _, b, c.cfa + 8, true⟩, ⟨ripRead, ?_, rfl, rfl, rfl⟩, ?_, rfl, rfl, ?_⟩
    · split
      next => rfl
      next saved => exact rbpRead.resolve_left saved
    · rw [pltStep]
      simp only [Loc.getInto, get_val, located, Bool.false_eq_true, if_false]
    · rw [located]
      rfl

/-- The values before the step are those of the frame that the record belongs to. -/
theorem rbpWalkStep_replays_iff {newRbp : Word 64}
    (saved : (memLoc b).get host.localOnly as = .ok newRbp) (cfa : Word 64) :
    ReplaysTo host validate as cfa b s (rbpWalkStep host as c b newRbp) ↔
      ReplaysWhen host validate as c b s (.record b newRbp) := by
  have traced (regs : TraceRegs) :
      traceFrame host.localOnly validate as (rbpWalkStep host as c b newRbp).tdep.frameInfo cfa b s =
          .ok regs ↔
        (rbpWalkStep host as c b newRbp).tdep.frameInfo.standardStep
          (fun addr => (memLoc addr).get host.localOnly as) (b + 16) b = .ok regs := by
    have access : accessMemFast host.localOnly true as =
        fun addr => (memLoc addr).get host.localOnly as := by
      funext addr
      rw [accessMemFast, Bool.not_true, Bool.and_false]
      rfl
    rw [← access]
    exact Iff.rfl
  have ripAt : b + 16 - 8 = b + 8 := by
    rw [BitVec.sub_eq_iff_eq_add, BitVec.add_assoc]
    rfl
  have rbpAt : b + 16 + (rbpWalkStep host as c b newRbp).tdep.frameInfo.rbpCfaOffset.signExtend 64 =
      b := by
    change b + 16 + (-16 : BitVec 15).signExtend 64 = b
    rw [BitVec.add_assoc]
    exact BitVec.add_zero b
  have isSaved : (rbpWalkStep host as c b newRbp).tdep.frameInfo.rbpCfaOffset ≠ -1 := by
    change (-16 : BitVec 15) ≠ -1
    decide
  simp only [ReplaysTo, traced, Frame.standardStep_eq_ok, rbpWalkStep_rbp, rbpWalkStep_rsp,
    ripAt, rbpAt, if_neg isSaved, saved, get_val, ReplaysWhen]
  constructor
  · rintro ⟨regs, ⟨ripRead, rbpRead, isCfa, isRsp, -⟩, -, -, sameRbp, sameRsp⟩
    rw [isRsp] at sameRsp
    refine ⟨⟨_, ripRead⟩, sameRsp, ?_⟩
    split at sameRbp
    next => cases sameRbp
    next located => exact Bool.eq_false_iff.mpr located
  · rintro ⟨⟨ip, ripRead⟩, behind, located⟩
    refine ⟨⟨b + 16, ip, newRbp, b + 16, true⟩, ⟨ripRead, rfl, rfl, rfl, rfl⟩, ?_, ?_, ?_, behind⟩
    · rw [rbpWalkStep]
      simp only [Loc.getInto, behind]
    · rw [rbpWalkStep]
      simp only [Loc.getInto, ripRead]
    · rw [located]
      rfl

/-- A heuristic frame is traced as it was stepped over exactly when its descriptor
    happens to fit. -/
theorem heuristicFrame_replays_iff {c₁ : X86Cursor} {how : Heuristic}
    (noinfo : dwarfStep host.target space (clearSigcontext c) = (.error (.err .noinfo), c₁))
    (unmoved : c₁.loc = c.loc) (performed : PerformedBy host space.as c₁ how c')
    (framePointer : (c.loc rbp).get host.localOnly space.as = .ok b)
    (stackPointer : (c.loc rsp).get host.localOnly space.as = .ok s) :
    (unwStep host c space).2 = c' ∧
      (ReplaysTo host validate space.as c.cfa b s c' ↔
        ReplaysWhen host validate space.as c₁ b s how) := by
  rw [← unmoved] at framePointer stackPointer
  constructor
  · unfold unwStep
    rw [noinfo]
    simp only [unwStepFallback_performedBy performed]
  · cases performed with
    | vsyscall => exact iff_of_false (vsyscallStep_replays stackPointer c.cfa) not_false
    | plt => exact pltStep_replays_iff framePointer c.cfa
    | record _ _ _ found =>
        obtain rfl := Except.ok.inj (framePointer.symm.trans found.framePointer)
        exact rbpWalkStep_replays_iff found.saved c.cfa

/-- A process whose frame pointer is at a frame record: the caller's, then the
    return address. Behind it lies a local variable of the caller. -/
def recordProcess : AddrSpace 64 :=
  processOf [(16, 0x402000), (7, 0x7000), (6, 0x7010)]
    [(0x402000, 0), (0x402008, 0), (0x7010, 0x7040), (0x7018, 0x401000), (0x7020, 1)]

/-- The walk takes that variable for the caller's stack pointer and for the CFA,
    the fast path takes its address. -/
theorem recordProcess_not_replayed :
    ¬ ∀ (host : Host) (validate : Bool) (space : StepSpace 17 64) (c c₁ c' : X86Cursor)
      (how : Heuristic) (b s : Word 64),
      dwarfStep host.target space (clearSigcontext c) = (.error (.err .noinfo), c₁) →
        c₁.loc = c.loc → PerformedBy host space.as c₁ how c' →
        (c.loc rbp).get host.localOnly space.as = .ok b →
        (c.loc rsp).get host.localOnly space.as = .ok s →
        ReplaysTo host validate space.as c.cfa b s c' := by
  intro always
  have performed : PerformedBy linuxHost recordProcess (stoppedCursor 0x402000 0x7000 true)
      (.record 0x7010 0x7040) _ :=
    .record (by decide) rfl (by decide) ⟨⟨0, rfl⟩, rfl, by decide, rfl, by decide, by decide⟩ rfl
  obtain ⟨regs, traced, sameCfa, -⟩ := always linuxHost false (bareSpace recordProcess)
    (stoppedCursor 0x402000 0x7000 true) _ _ _ 0x7010 0x7000 rfl rfl performed rfl rfl
  cases traced
  exact absurd sameCfa (by decide)

/-- A process at a PLT entry, with the return address on its stack. -/
def pltProcess : AddrSpace 64 :=
  processOf [(16, 0x402000), (7, 0x7000)] ((0x7000, 0x401000) :: pltEntryAt 0x402000)

/-- The PLT entry is traced as it was stepped over. -/
theorem pltProcess_replayed :
    ReplaysTo linuxHost false pltProcess 0x7000 0 0x7000
      (pltStep linuxHost pltProcess (stoppedCursor 0x402000 0x7000 true)) :=
  (heuristicFrame_replays_iff (c := stoppedCursor 0x402000 0x7000 true)
    (rfl : dwarfStep linuxHost.target (bareSpace pltProcess)
      (clearSigcontext (stoppedCursor 0x402000 0x7000 true)) = _)
    rfl (.plt (by decide) rfl (by decide)) rfl rfl).2.mpr ⟨rfl, by decide, by decide, .inl rfl⟩

end Libunwind.X86_64
