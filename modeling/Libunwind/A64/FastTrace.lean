import Libunwind.Library.Run
import Libunwind.Dwarf.CfaRule
import Libunwind.Dwarf.StateRecord
import Libunwind.A64.Step

/-! # The fast path and the slow path on aarch64

`tdep_trace` steps over a recorded frame without its rules, and carries its own
`lr` from a signal frame to the next one. Over the frames of one stack this
compares the registers that it follows with the cursor of the slow path.
-/

namespace Libunwind.AArch64

open Dwarf

/-! ## The fast path -/

/-- The registers that `tdep_trace` follows. -/
structure TraceRegs where
  cfa : Word 64
  pc : Word 64
  fp : Word 64
  lr : Word 64
  sp : Word 64
  usePrevInstr : Bool
  deriving DecidableEq, Repr

/-- The CFA of a frame whose CFA is relative to a register. -/
def Frame.cfa (f : Frame) (regs : TraceRegs) : Word 64 :=
  (if f.cfaRegSp then regs.sp else regs.fp) + f.cfaRegOffset.signExtend 64

/-- The new `pc` and `lr`; `lrLoc` is what the cursor has for X30. -/
def Frame.returnTo (host : Host) (access : Word 64 → Result (Word 64)) (as : AddrSpace 64)
    (lrLoc : Loc 64) (f : Frame) (regs : TraceRegs) : Result (Word 64 × Word 64) :=
  if f.lrCfaOffset ≠ -1 then do
    let pc ← access (f.cfa regs + f.lrCfaOffset.signExtend 64)
    pure (host.stripPtrauth pc, regs.lr)
  -- lr might have been set by the previous frame (sigreturn)
  else if regs.lr ≠ 0 then pure (regs.lr, 0)
  else
    match lrLoc.get host.localOnly as with
    | .ok lr => pure (lr, 0)
    | .error _ => .error (.err .stopunwind)

/-- The steps over a standard frame. -/
def Frame.standardStep (host : Host) (access : Word 64 → Result (Word 64)) (as : AddrSpace 64)
    (lrLoc : Loc 64) (f : Frame) (regs : TraceRegs) : Result TraceRegs := do
  let (pc, lr) ← f.returnTo host access as lrLoc regs
  let fp ←
    if f.fpCfaOffset ≠ -1 then access (f.cfa regs + f.fpCfaOffset.signExtend 64) else pure regs.fp
  -- don't bother reading SP from DWARF, CFA becomes new SP
  pure { cfa := f.cfa regs, pc, fp, lr, sp := f.cfa regs, usePrevInstr := true }

/-- The switch of `tdep_trace`, from the current registers. -/
def traceFrame (host : Host) (validate : Bool) (as : AddrSpace 64) (lrLoc : Loc 64) (f : Frame)
    (regs : TraceRegs) : Result TraceRegs :=
  let access := accessMemFast host.localOnly validate as
  match f.frameType with
  | .guessed => f.standardStep host (accessMemFast host.localOnly true as) as lrLoc regs
  | .standard => f.standardStep host access as lrLoc regs
  | .sigreturn => do
      -- cfa now points to the signal context
      let sc := regs.cfa + f.cfaRegOffset.signExtend 64
      let pc ← access (sc + 0x108)
      let fp ← access (sc + 0x0f0)
      let sp ← access (sc + 0x100)
      let lr ← access (sc + 0x0f8)
      pure { cfa := sp, pc := host.stripPtrauth pc, fp, lr, sp, usePrevInstr := false }
  | .other => .error (.err .stopunwind)

section Fast

variable {host : Host} {as : AddrSpace 64} {lrLoc : Loc 64} {f : Frame} {regs regs' : TraceRegs}
  {access : Word 64 → Result (Word 64)} {validate : Bool}

theorem Frame.standardStep_eq_ok :
    f.standardStep host access as lrLoc regs = .ok regs' ↔
      f.returnTo host access as lrLoc regs = .ok (regs'.pc, regs'.lr) ∧
      (if f.fpCfaOffset = -1 then regs'.fp = regs.fp
        else access (f.cfa regs + f.fpCfaOffset.signExtend 64) = .ok regs'.fp) ∧
      regs'.cfa = f.cfa regs ∧ regs'.sp = f.cfa regs ∧ regs'.usePrevInstr = true := by
  rw [Frame.standardStep]
  constructor
  · intro ok
    obtain ⟨⟨pc, lr⟩, returned, ok⟩ := bind_eq_ok.mp ok
    by_cases kept : f.fpCfaOffset = -1
    · simp only [kept, ne_eq, not_true, if_false] at ok
      obtain rfl := Except.ok.inj ok
      exact ⟨returned, by rw [if_pos kept], rfl, rfl, rfl⟩
    · simp only [ne_eq, kept, not_false_iff, if_true] at ok
      obtain ⟨fp, fpRead, ok⟩ := bind_eq_ok.mp ok
      obtain rfl := Except.ok.inj ok
      refine ⟨returned, ?_, rfl, rfl, rfl⟩
      rw [if_neg kept]
      exact fpRead
  · obtain ⟨cfa, pc, fp, lr, sp, usePrevInstr⟩ := regs'
    rintro ⟨returned, fpIs, rfl, rfl, rfl⟩
    rw [returned, ok_bind]
    by_cases kept : f.fpCfaOffset = -1
    · rw [if_pos kept] at fpIs
      obtain rfl : fp = regs.fp := fpIs
      simp only [kept, ne_eq, not_true, if_false]
      rfl
    · rw [if_neg kept] at fpIs
      simp only [ne_eq, kept, not_false_iff, if_true, fpIs]
      rfl

theorem Frame.returnTo_saved (saved : f.lrCfaOffset ≠ -1) {pc lr : Word 64} :
    f.returnTo host access as lrLoc regs = .ok (pc, lr) ↔
      ∃ stored, access (f.cfa regs + f.lrCfaOffset.signExtend 64) = .ok stored ∧
        pc = host.stripPtrauth stored ∧ lr = regs.lr := by
  rw [Frame.returnTo, if_pos saved, bind_eq_ok]
  constructor
  · rintro ⟨stored, read, same⟩
    cases same
    exact ⟨stored, read, rfl, rfl⟩
  · rintro ⟨stored, read, rfl, rfl⟩
    exact ⟨stored, read, rfl⟩

/-- The link register that a frame which does not save it returns through. -/
def linkRegister (host : Host) (as : AddrSpace 64) (lrLoc : Loc 64) (regs : TraceRegs) :
    Result (Word 64) :=
  if regs.lr ≠ 0 then pure regs.lr else lrLoc.get host.localOnly as

theorem Frame.returnTo_kept (kept : f.lrCfaOffset = -1) {pc lr : Word 64} :
    f.returnTo host access as lrLoc regs = .ok (pc, lr) ↔
      linkRegister host as lrLoc regs = .ok pc ∧ lr = 0 := by
  rw [Frame.returnTo, if_neg (not_not.mpr kept), linkRegister]
  split
  next =>
    constructor
    · intro same
      cases same
      exact ⟨rfl, rfl⟩
    · rintro ⟨same, rfl⟩
      cases same
      rfl
  next =>
    cases lrLoc.get host.localOnly as with
    | error fault => simp
    | ok value =>
        simp only [Except.ok.injEq, Prod.mk.injEq, pure_eq_ok]
        rw [eq_comm (a := lr)]

end Fast

/-! ## Recorded frames -/

section Recorded

variable {host : Host} {as : AddrSpace 64} {rs : RegState 97 64} {f : Frame}

/-- The tests that make a frame standard. -/
structure Standard (rs : RegState 97 64) : Prop where
  cfaIsReg : (rs.reg (cfaRegColumn 97)).how = .reg
  cfaReg : (rs.reg (cfaRegColumn 97)).val = 29 ∨ (rs.reg (cfaRegColumn 97)).val = 31
  cfaOffset : labs (rs.reg (cfaOffColumn 97)).val < 2 ^ 29
  column : rs.retAddrColumn = 30
  x29 : isStandardRule (rs.reg (regColumn x29))
  x30 : isStandardRule (rs.reg (regColumn x30))
  sp : isStandardRule (rs.reg (regColumn sp))

theorem isStandard_iff : isStandard rs ↔ Standard rs := by
  simp only [isStandard, Bool.and_eq_true, Bool.or_eq_true, decide_eq_true_eq, beq_iff_eq]
  constructor
  · rintro ⟨⟨⟨⟨⟨⟨cfaIsReg, cfaReg⟩, cfaOffset⟩, column⟩, x29⟩, x30⟩, sp⟩
    exact ⟨cfaIsReg, cfaReg, cfaOffset, column, x29, x30, sp⟩
  · rintro ⟨cfaIsReg, cfaReg, cfaOffset, column, x29, x30, sp⟩
    exact ⟨⟨⟨⟨⟨⟨cfaIsReg, cfaReg⟩, cfaOffset⟩, column⟩, x29⟩, x30⟩, sp⟩

/-- What is recorded of a standard frame after `trace_init_addr`. -/
def standardFrame (rs : RegState 97 64) : Frame where
  frameType := .standard
  cfaRegSp := (rs.reg (cfaRegColumn 97)).val == 31
  cfaRegOffset := (rs.reg (cfaOffColumn 97)).val.setWidth 30
  fpCfaOffset := stashOffset (rs.reg (regColumn x29)) (-1)
  lrCfaOffset := stashOffset (rs.reg (regColumn x30)) (-1)
  spCfaOffset := stashOffset (rs.reg (regColumn sp)) (-1)

theorem stashFrame_standard (recorded : (stashFrame rs {}).frameType = .standard) :
    Standard rs ∧ stashFrame rs {} = standardFrame rs := by
  unfold stashFrame at recorded ⊢
  split at recorded
  next standard =>
    rw [if_pos standard]
    exact ⟨isStandard_iff.mp standard.2, rfl⟩
  next => cases recorded

/-- The frame info that a step of the slow path over the row left, from what
    `trace_init_addr` sets up. The step found a caller, so that the frame is not
    the last one. -/
def Recorded (host : Host) (as : AddrSpace 64) (rs : RegState 97 64) (f : Frame) : Prop :=
  ∃ budget c,
    c.stashFrames = true ∧ c.tdep.frameInfo = {} ∧
    (applyRegState host.target as budget c rs).1 = .ok true ∧
    (applyRegState host.target as budget c rs).2.tdep.frameInfo = f

/-- What the recording of a row takes for granted: that `fp` has a value, and that
    `labs` is defined. -/
structure Regular (rs : RegState 97 64) : Prop where
  fpHasValue : (rs.reg (regColumn x29)).how ≠ .undef
  cfaOffset : (rs.reg (cfaOffColumn 97)).val ≠ BitVec.intMin 64
  savedOffset : ∀ r, (rs.reg (regColumn r)).how = .cfarel →
    (rs.reg (regColumn r)).val ≠ BitVec.intMin 64

/-- Each offset is what its bit-field holds. -/
structure HoldsOffsets (rs : RegState 97 64) (f : Frame) : Prop where
  cfa : f.cfaRegOffset.signExtend 64 = (rs.reg (cfaOffColumn 97)).val
  fp : (rs.reg (regColumn x29)).how = .cfarel →
    f.fpCfaOffset.signExtend 64 = (rs.reg (regColumn x29)).val ∧ f.fpCfaOffset ≠ -1
  lr : (rs.reg (regColumn x30)).how = .cfarel →
    f.lrCfaOffset.signExtend 64 = (rs.reg (regColumn x30)).val ∧ f.lrCfaOffset ≠ -1
  sp : (rs.reg (regColumn sp)).how = .cfarel →
    f.spCfaOffset.signExtend 64 = (rs.reg (regColumn sp)).val ∧ f.spCfaOffset ≠ -1

/-- The offsets that a rule saves at and the test of `tdep_stash_frame` admits. -/
theorem stashOffset_exact {rule : Rule 64} {recorded} (standard : isStandardRule rule)
    (saved : rule.how = .cfarel) (notMin : rule.val ≠ BitVec.intMin 64) :
    (stashOffset rule recorded).signExtend 64 = rule.val ∧ stashOffset rule recorded ≠ -1 := by
  simp only [isStandardRule, saved, Bool.and_eq_true, decide_eq_true_eq, bne_iff_ne,
    ne_eq] at standard
  obtain ⟨above, below⟩ := labs_lt notMin standard.1
  have exact : (rule.val.setWidth 30).signExtend 64 = rule.val :=
    signExtend_setWidth (by decide) (by omega) (by omega)
  simp only [stashOffset, saved]
  refine ⟨exact, fun sentinel => standard.2 ?_⟩
  rw [← exact, sentinel]
  decide

theorem standardFrame_holdsOffsets (standard : Standard rs) (regular : Regular rs) :
    HoldsOffsets rs (standardFrame rs) := by
  obtain ⟨above, below⟩ := labs_lt regular.cfaOffset standard.cfaOffset
  exact
    { cfa := signExtend_setWidth (by decide) (by omega) (by omega)
      fp := fun saved => stashOffset_exact standard.x29 saved (regular.savedOffset x29 saved)
      lr := fun saved => stashOffset_exact standard.x30 saved (regular.savedOffset x30 saved)
      sp := fun saved => stashOffset_exact standard.sp saved (regular.savedOffset sp saved) }

/-- A frame that is recorded as standard has a rule that leads to its caller. -/
theorem Recorded.standard (recorded : Recorded host as rs f) (kind : f.frameType = .standard) :
    Standard rs ∧ f = standardFrame rs ∧ (rs.reg (regColumn x30)).how ≠ .undef := by
  obtain ⟨budget, c, stash, fresh, moved, rfl⟩ := recorded
  obtain ⟨ra, cfa, ip, newLoc, staged, read, more, stashed⟩ := applyRegState_ok moved
  rw [if_pos stash] at stashed
  have info : (applyRegState host.target as budget c rs).2.tdep.frameInfo = stashFrame rs {} := by
    rw [stashed, ← fresh]
    rfl
  rw [info] at kind ⊢
  obtain ⟨standard, same⟩ := stashFrame_standard kind
  refine ⟨standard, same, fun undefined => ?_⟩
  obtain rfl : ra = x30 := by
    apply Fin.ext
    rw [← staged.column, standard.column]
    rfl
  obtain rfl : 0 = ip := Except.ok.inj ((staged.returns_null undefined).symm.trans read)
  simp at more

end Recorded

/-! ## One frame -/

section Frame

variable {host : Host} {as : AddrSpace 64} {budget : Nat} {validate : Bool} {lrLoc : Loc 64}
  {rs : RegState 97 64} {c : A64Cursor} {regs : TraceRegs}

/-- The fast path is at the cursor's frame. -/
structure Follows (host : Host) (as : AddrSpace 64) (regs : TraceRegs) (c : A64Cursor) : Prop where
  cfa : regs.cfa = c.cfa
  sp : regs.sp = c.cfa
  fp : (c.loc x29).get host.localOnly as = .ok regs.fp

/-- The fast path knows the cursor's X30. -/
def TracksLr (host : Host) (as : AddrSpace 64) (lrLoc : Loc 64) (regs : TraceRegs)
    (c : A64Cursor) : Prop :=
  ∀ value, linkRegister host as lrLoc regs = .ok value ↔
    (c.loc x30).get host.localOnly as = .ok value

/-- The step succeeds and leads to the registers. -/
structure StepsTo (host : Host) (as : AddrSpace 64) (step : Result Bool × A64Cursor)
    (regs : TraceRegs) : Prop where
  returns : ∃ more, step.1 = .ok more
  cfa : step.2.cfa = regs.cfa
  ip : step.2.ip = regs.pc
  fp : (step.2.loc x29).get host.localOnly as = .ok regs.fp

/-- Both paths lead to the same CFA, `pc` and `fp`, or both fail. Only the slow path
    notices that it stays at its frame. The stack pointer is the CFA for both. -/
structure Agree (host : Host) (as : AddrSpace 64) (prev : A64Cursor) (fast : Result TraceRegs)
    (slow : Result Bool × A64Cursor) : Prop where
  steps : ∀ regs, fast = .ok regs →
    (StepsTo host as slow regs ↔ regs.pc ≠ prev.ip ∨ regs.cfa ≠ prev.cfa)
  leads : ∀ regs, fast = .ok regs → (∃ more, slow.1 = .ok more) → StepsTo host as slow regs
  fails : (∀ regs, fast ≠ .ok regs) → ∀ regs, ¬ StepsTo host as slow regs
  sp : ∀ regs, fast = .ok regs → StepsTo host as slow regs →
    host.target.getReg as slow.2 31 = .ok regs.sp

/-- No rule fails, and the return address has a location. -/
def Evaluates (host : Host) (as : AddrSpace 64) (budget : Nat) (c : A64Cursor)
    (rs : RegState 97 64) : Prop :=
  ∀ cfa, evalCfa host.target as budget c rs = .ok cfa →
    ∃ newLoc, applyColumns host.target as budget c cfa rs (List.finRange 97) = .ok newLoc ∧
      (newLoc x30).isNull host.localOnly = false

/-- The row says that the return address is signed. -/
def signs (rs : RegState 97 64) : Bool := (rs.reg (regColumn raSignState)).val ≠ 0

/-- Stripping a return address makes no difference where only one of the paths
    does it: an address that is not signed, or one that stays in X30. -/
def StripsAlike (host : Host) (as : AddrSpace 64) (lrLoc : Loc 64) (rs : RegState 97 64)
    (f : Frame) (regs : TraceRegs) : Prop :=
  if f.lrCfaOffset ≠ -1 then
    signs rs = false → ∀ ra, as.accessMem (f.cfa regs + f.lrCfaOffset.signExtend 64) = .ok ra →
      host.stripPtrauth ra = ra
  else
    signs rs = true → ∀ ra, linkRegister host as lrLoc regs = .ok ra → host.stripPtrauth ra = ra

theorem evalCfa_standard (standard : Standard rs) (regular : Regular rs)
    (follows : Follows host as regs c) :
    evalCfa host.target as budget c rs = .ok ((standardFrame rs).cfa regs) := by
  have offset : (standardFrame rs).cfaRegOffset.signExtend 64 = (rs.reg (cfaOffColumn 97)).val :=
    (standardFrame_holdsOffsets standard regular).cfa
  have base : (standardFrame rs).cfaRegSp = ((rs.reg (cfaRegColumn 97)).val == 31) := rfl
  simp only [evalCfa, standard.cfaIsReg, Frame.cfa, offset, base]
  rcases standard.cfaReg with isFp | isSp
  · rw [isFp]
    have notSp : ¬ ((29 : Word 64) = BitVec.ofNat 64 host.target.cfi.sp ∧
        (c.loc host.target.cfi.sp).isNull host.target.localOnly = true) := by
      rintro ⟨same, -⟩
      have differ : (29 : Word 64) ≠ BitVec.ofNat 64 sp := by decide
      exact differ same
    have regnum : host.target.toUnwRegnum ((29 : Word 64).setWidth 32).toInt = .ok 29 := rfl
    have read : host.target.getReg as c 29 = .ok regs.fp := follows.fp
    rw [if_neg notSp, regnum, ok_bind, read]
    rfl
  · rw [isSp]
    have read : host.target.getReg as c 31 = .ok regs.sp := congrArg Except.ok follows.sp.symm
    by_cases isNull : (31 : Word 64) = BitVec.ofNat 64 host.target.cfi.sp ∧
        (c.loc host.target.cfi.sp).isNull host.target.localOnly = true
    · rw [if_pos isNull, ← follows.sp]
      rfl
    · have regnum : host.target.toUnwRegnum ((31 : Word 64).setWidth 32).toInt = .ok 31 := rfl
      rw [if_neg isNull, regnum, ok_bind, read]
      rfl

section Staged

variable {cfa val : Word 64} {newLoc : Fin 97 → Loc 64}

/-- The fast path reads `fp` where its rule says, whichever rule that is. -/
theorem standardFrame_fp (null : NullUnmapped as) (standard : Standard rs) (regular : Regular rs)
    (notCfa : (rs.reg (regColumn x29)).how ≠ .cfa) (follows : Follows host as regs c)
    (staged : applyColumns host.target as budget c cfa rs (List.finRange 97) = .ok newLoc) :
    (newLoc x29).get host.localOnly as = .ok val ↔
      if (standardFrame rs).fpCfaOffset = -1 then val = regs.fp
      else as.accessMem (cfa + (standardFrame rs).fpCfaOffset.signExtend 64) = .ok val := by
  have fpRule := standard.x29
  have own := applyColumns_own (List.nodup_finRange 97) (List.mem_finRange x29)
    (by intro isReg; simp [isStandardRule, isReg] at fpRule) staged
  cases how : (rs.reg (regColumn x29)).how with
  | undef => exact absurd how regular.fpHasValue
  | cfa => exact absurd how notCfa
  | same =>
      have kept : stashOffset (rs.reg (regColumn x29)) (-1) = -1 := by
        rw [stashOffset, how]
      rw [ruleLoc, how] at own
      rw [standardFrame, if_pos kept, ← Except.ok.inj own, follows.fp, Except.ok.injEq, eq_comm]
  | cfarel =>
      obtain ⟨held, notSentinel⟩ := (standardFrame_holdsOffsets standard regular).fp how
      rw [ruleLoc, how] at own
      rw [if_neg notSentinel, ← Except.ok.inj own, held, null.get_memLoc]
  | reg | expr | valExpr => simp [isStandardRule, how] at fpRule

/-- So it does with the return address. -/
theorem standardFrame_lr (null : NullUnmapped as) (standard : Standard rs) (regular : Regular rs)
    (notUndef : (rs.reg (regColumn x30)).how ≠ .undef)
    (notCfa : (rs.reg (regColumn x30)).how ≠ .cfa)
    (tracks : (standardFrame rs).lrCfaOffset = -1 → TracksLr host as lrLoc regs c)
    (staged : applyColumns host.target as budget c cfa rs (List.finRange 97) = .ok newLoc) :
    (newLoc x30).get host.localOnly as = .ok val ↔
      if (standardFrame rs).lrCfaOffset = -1 then linkRegister host as lrLoc regs = .ok val
      else as.accessMem (cfa + (standardFrame rs).lrCfaOffset.signExtend 64) = .ok val := by
  have lrRule := standard.x30
  have own := applyColumns_own (List.nodup_finRange 97) (List.mem_finRange x30)
    (by intro isReg; simp [isStandardRule, isReg] at lrRule) staged
  cases how : (rs.reg (regColumn x30)).how with
  | undef => exact absurd how notUndef
  | cfa => exact absurd how notCfa
  | same =>
      have kept : stashOffset (rs.reg (regColumn x30)) (-1) = -1 := by
        rw [stashOffset, how]
      rw [ruleLoc, how] at own
      rw [standardFrame, if_pos kept, ← Except.ok.inj own, tracks kept val]
  | cfarel =>
      obtain ⟨held, notSentinel⟩ := (standardFrame_holdsOffsets standard regular).lr how
      rw [ruleLoc, how] at own
      rw [if_neg notSentinel, ← Except.ok.inj own, held, null.get_memLoc]
  | reg | expr | valExpr => simp [isStandardRule, how] at lrRule

/-- The address that the slow path returns to. -/
theorem returnAddress_eq_ok {ip : Word 64} (located : (newLoc x30).isNull host.localOnly = false) :
    returnAddress host.target as { c with loc := newLoc, cfa } rs x30 = .ok ip ↔
      ∃ ra, (newLoc x30).get host.localOnly as = .ok ra ∧
        ip = if signs rs then host.stripPtrauth ra else ra := by
  have hasLoc : ¬ (newLoc x30).isNull host.target.localOnly = true := by
    change ¬ (newLoc x30).isNull host.localOnly = true
    rw [located]
    exact Bool.false_ne_true
  rw [returnAddress, if_neg hasLoc, bind_eq_ok]
  unfold signs
  constructor
  · rintro ⟨ra, read, same⟩
    refine ⟨ra, read, ?_⟩
    rw [← Except.ok.inj same]
    simp only [decide_eq_true_eq]
    rfl
  · rintro ⟨ra, read, rfl⟩
    refine ⟨ra, read, congrArg Except.ok ?_⟩
    simp only [decide_eq_true_eq]
    rfl

/-- Where a step of the slow path over staged rules leads. -/
theorem applyRegState_stepsTo (staged : Staged host.target as budget c rs x30 cfa newLoc)
    (located : (newLoc x30).isNull host.localOnly = false) :
    StepsTo host as (applyRegState host.target as budget c rs) regs ↔
      regs.cfa = cfa ∧ (newLoc x29).get host.localOnly as = .ok regs.fp ∧
      (∃ ra, (newLoc x30).get host.localOnly as = .ok ra ∧
        regs.pc = if signs rs then host.stripPtrauth ra else ra) ∧
      (regs.pc ≠ c.ip ∨ regs.cfa ≠ c.cfa) := by
  have returns := staged.returns_iff
  constructor
  · intro reached
    obtain ⟨ip, read, moved⟩ := returns.mp reached.returns
    obtain ⟨atCfa, atIp, atLoc⟩ := staged.leads read
    have sameCfa : regs.cfa = cfa := reached.cfa.symm.trans atCfa
    have samePc : regs.pc = ip := reached.ip.symm.trans atIp
    have fpRead := reached.fp
    rw [atLoc] at fpRead
    rw [sameCfa, samePc]
    exact ⟨rfl, fpRead, (returnAddress_eq_ok located).mp read, moved⟩
  · intro leads
    obtain ⟨sameCfa, fpRead, address, moved⟩ := leads
    have read : returnAddress host.target as { c with loc := newLoc, cfa } rs x30 = .ok regs.pc :=
      (returnAddress_eq_ok located).mpr address
    obtain ⟨atCfa, atIp, atLoc⟩ := staged.leads read
    rw [sameCfa] at moved
    refine ⟨returns.mpr ⟨_, read, moved⟩, atCfa.trans sameCfa.symm, atIp, ?_⟩
    rw [atLoc]
    exact fpRead

/-- A step that succeeds has moved. -/
theorem applyRegState_moved (staged : Staged host.target as budget c rs x30 cfa newLoc)
    (located : (newLoc x30).isNull host.localOnly = false) {ra : Word 64}
    (read : (newLoc x30).get host.localOnly as = .ok ra)
    (returned : ∃ more, (applyRegState host.target as budget c rs).1 = .ok more) :
    (if signs rs then host.stripPtrauth ra else ra) ≠ c.ip ∨ cfa ≠ c.cfa := by
  obtain ⟨ip, address, moved⟩ := staged.returns_iff.mp returned
  obtain ⟨ra', read', rfl⟩ := (returnAddress_eq_ok located).mp address
  obtain rfl : ra = ra' := Except.ok.inj (read.symm.trans read')
  exact moved

/-- The fast path finds the return address that the slow one does. -/
theorem standardFrame_returnTo (null : NullUnmapped as)
    (alike : StripsAlike host as lrLoc rs (standardFrame rs) regs)
    (lrRead : ∀ val, (newLoc x30).get host.localOnly as = .ok val ↔
      if (standardFrame rs).lrCfaOffset = -1 then linkRegister host as lrLoc regs = .ok val
      else as.accessMem ((standardFrame rs).cfa regs +
        (standardFrame rs).lrCfaOffset.signExtend 64) = .ok val) {pc : Word 64} :
    (∃ lr, (standardFrame rs).returnTo host (accessMemFast host.localOnly validate as) as lrLoc regs =
        .ok (pc, lr)) ↔
      ∃ ra, (newLoc x30).get host.localOnly as = .ok ra ∧
        pc = if signs rs then host.stripPtrauth ra else ra := by
  unfold StripsAlike at alike
  by_cases kept : (standardFrame rs).lrCfaOffset = -1
  · simp only [kept, if_true, ne_eq, not_true, if_false] at lrRead alike
    simp only [Frame.returnTo_kept kept, lrRead]
    have strip {ra} (read : linkRegister host as lrLoc regs = .ok ra) :
        (if signs rs then host.stripPtrauth ra else ra) = ra := by
      split
      next signed => exact alike signed ra read
      next => rfl
    constructor
    · rintro ⟨lr, read, -⟩
      exact ⟨pc, read, (strip read).symm⟩
    · rintro ⟨ra, read, rfl⟩
      rw [strip read]
      exact ⟨0, read, rfl⟩
  · simp only [kept, ne_eq, not_false_iff, if_true, if_false] at lrRead alike
    simp only [Frame.returnTo_saved kept, lrRead, null.accessMemFast]
    have strip {ra} (read : as.accessMem ((standardFrame rs).cfa regs +
        (standardFrame rs).lrCfaOffset.signExtend 64) = .ok ra) :
        (if signs rs then host.stripPtrauth ra else ra) = host.stripPtrauth ra := by
      split
      next => rfl
      next plain => exact (alike (Bool.eq_false_iff.mpr plain) ra read).symm
    constructor
    · rintro ⟨lr, ra, read, rfl, -⟩
      exact ⟨ra, read, (strip read).symm⟩
    · rintro ⟨ra, read, rfl⟩
      exact ⟨regs.lr, ra, read, strip read, rfl⟩

end Staged

/-- A frame that was recorded as standard is stepped over alike. -/
theorem standardFrame_agree (null : NullUnmapped as) (standard : Standard rs)
    (regular : Regular rs) (notUndef : (rs.reg (regColumn x30)).how ≠ .undef)
    (cfaOnly : CfaOnlyAt sp rs) (follows : Follows host as regs c)
    (tracks : (standardFrame rs).lrCfaOffset = -1 → TracksLr host as lrLoc regs c)
    (rules : Evaluates host as budget c rs)
    (alike : StripsAlike host as lrLoc rs (standardFrame rs) regs) :
    Agree host as c (traceFrame host validate as lrLoc (standardFrame rs) regs)
      (applyRegState host.target as budget c rs) := by
  have base : evalCfa host.target as budget c rs = .ok ((standardFrame rs).cfa regs) :=
    evalCfa_standard standard regular follows
  obtain ⟨newLoc, columns, located⟩ := rules _ base
  have staged : Staged host.target as budget c rs x30 ((standardFrame rs).cfa regs) newLoc := by
    refine ⟨?_, base, columns⟩
    rw [standard.column]
    rfl
  have notCfa (r : Fin 97) (other : r ≠ sp) : (rs.reg (regColumn r)).how ≠ .cfa := fun isCfa =>
    other (regColumn_injective (cfaOnly _ isCfa))
  have fpRead (val : Word 64) :=
    (standardFrame_fp null standard regular (notCfa x29 (by decide)) follows columns :
      (newLoc x29).get host.localOnly as = .ok val ↔ _)
  have lrRead (val : Word 64) :=
    (standardFrame_lr null standard regular notUndef (notCfa x30 (by decide)) tracks columns :
      (newLoc x30).get host.localOnly as = .ok val ↔ _)
  have returnTo (pc : Word 64) := (standardFrame_returnTo null alike lrRead :
    (∃ lr, (standardFrame rs).returnTo host (accessMemFast host.localOnly validate as) as lrLoc
      regs = .ok (pc, lr)) ↔ _)
  have slow (regs' : TraceRegs) :=
    (applyRegState_stepsTo staged located :
      StepsTo host as (applyRegState host.target as budget c rs) regs' ↔ _)
  have fast (regs' : TraceRegs) :
      traceFrame host validate as lrLoc (standardFrame rs) regs = .ok regs' ↔ _ :=
    Frame.standardStep_eq_ok
  have alongside (regs' : TraceRegs)
      (ok : traceFrame host validate as lrLoc (standardFrame rs) regs = .ok regs') :
      StepsTo host as (applyRegState host.target as budget c rs) regs' ↔
        regs'.pc ≠ c.ip ∨ regs'.cfa ≠ c.cfa := by
    obtain ⟨returned, fp, atCfa, -, -⟩ := (fast regs').mp ok
    rw [null.accessMemFast, ← fpRead] at fp
    rw [slow]
    exact ⟨fun reached => reached.2.2.2,
      fun moved => ⟨atCfa, fp, (returnTo _).mp ⟨_, returned⟩, moved⟩⟩
  refine ⟨alongside, fun regs' ok more => ?_, fun none regs' reached => ?_,
    fun regs' ok reached => ?_⟩
  · obtain ⟨returned, -, atCfa, -, -⟩ := (fast regs').mp ok
    obtain ⟨ra, read, atPc⟩ := (returnTo _).mp ⟨_, returned⟩
    rw [alongside regs' ok, atPc, atCfa]
    exact applyRegState_moved staged located read more
  · obtain ⟨atCfa, fp, address, -⟩ := (slow regs').mp reached
    obtain ⟨lr, returned⟩ := (returnTo _).mpr address
    rw [fpRead, ← null.accessMemFast] at fp
    exact none ⟨_, regs'.pc, regs'.fp, lr, _, true⟩ ((fast _).mpr ⟨returned, fp, rfl, rfl, rfl⟩)
  · obtain ⟨-, -, atCfa, atSp, -⟩ := (fast regs').mp ok
    rw [atSp, ← atCfa, ← reached.cfa]
    rfl

end Frame

/-! ## The frames of one stack -/

/-- Both paths at one frame. -/
structure Traced where
  fast : TraceRegs
  /-- What the cursor of `tdep_trace` has for X30; a step that fills a line of the
      trace cache moves it. -/
  lrLoc : Loc 64
  slow : A64Cursor
  /-- The frame is the first one, or a signal interrupted it and has saved a link
      register that is not null. -/
  hasLr : Bool

/-- A frame that both paths step over, with what the fast one has recorded of it. -/
inductive Passed where
  /-- `searched` is the cursor as `find_reg_state` leaves it. -/
  | standard (f : Frame) (rs : RegState 97 64) (searched : A64Cursor)
  | signal (f : Frame)

section Run

variable (host : Host) (as : AddrSpace 64) (budget : Nat)

/-- Where `tdep_trace` starts. -/
structure Begins (walk : Traced) : Prop where
  cfa : walk.fast.cfa = walk.slow.cfa
  sp : walk.fast.sp = walk.slow.cfa
  fp : (walk.slow.loc x29).get host.localOnly as = .ok walk.fast.fp
  lr : walk.fast.lr = 0
  lrLoc : walk.lrLoc = walk.slow.loc x30

/-- Both paths step over a frame and find its caller. -/
inductive Passes : Traced → Passed → Traced → Prop where
  | standard {walk : Traced} {f : Frame} {rs : RegState 97 64} {searched slow : A64Cursor}
      {validate : Bool} {fast : TraceRegs} {lrLoc : Loc 64} :
      walk.slow.SameFrame searched →
      traceFrame host validate as walk.lrLoc f walk.fast = .ok fast →
      applyRegState host.target as budget searched rs = (.ok true, slow) →
      Passes walk (.standard f rs searched) { fast, lrLoc, slow, hasLr := false }
  | signal {walk : Traced} {f : Frame} {slow : A64Cursor} {validate : Bool} {fast : TraceRegs}
      {lrLoc : Loc 64} :
      traceFrame host validate as walk.lrLoc f walk.fast = .ok fast →
      handleSignalFrame host as budget walk.slow = (.ok true, slow) →
      Passes walk (.signal f) { fast, lrLoc, slow, hasLr := fast.lr ≠ 0 }

/-- A row of the interpreter that was recorded as standard, at a frame whose link
    register the fast path knows if the frame does not save it. -/
structure Traceable (walk : Traced) (f : Frame) (rs : RegState 97 64) (searched : A64Cursor) :
    Prop where
  created : ∃ ctx cfiBudget pi ip usePrevInstr sr, ctx.target = host.target.cfi ∧
    createStateRecordFor ctx cfiBudget pi ip usePrevInstr = .ok sr ∧ sr.rsCurrent = rs
  recorded : ∃ as₀, Recorded host as₀ rs f
  kind : f.frameType = .standard
  regular : Regular rs
  hasLr : f.lrCfaOffset = -1 → walk.hasLr = true
  same : walk.slow.SameFrame searched
  rules : Evaluates host as budget searched rs
  alike : StripsAlike host as walk.lrLoc rs f walk.fast

/-- What a walk steps over: traceable frames, and signal frames as the slow path
    has recorded them. -/
def Walkable (walk : Traced) : Passed → Prop
  | .standard f rs searched => Traceable host as budget walk f rs searched
  | .signal f => ∃ as₀ c, f = (signalStep host as₀ c).tdep.frameInfo

/-- The frames that both paths reach over one memory. -/
def TraceRun : Traced → Prop :=
  Run (Begins host as) (Passes host as budget) (Walkable host as budget)

/-- What both paths keep to. -/
structure InStep (walk : Traced) : Prop where
  follows : Follows host as walk.fast walk.slow
  tracks : walk.hasLr = true → TracksLr host as walk.lrLoc walk.fast walk.slow

variable {host as budget} {walk walk' : Traced} {f : Frame} {rs : RegState 97 64}
  {searched : A64Cursor}

theorem Begins.inStep (begins : Begins host as walk) : InStep host as walk where
  follows := ⟨begins.cfa, begins.sp, begins.fp⟩
  tracks _ value := by
    rw [linkRegister, begins.lr, begins.lrLoc]
    rfl

theorem Traceable.agree (traceable : Traceable host as budget walk f rs searched)
    (null : NullUnmapped as) (inStep : InStep host as walk) (validate : Bool) :
    Agree host as searched (traceFrame host validate as walk.lrLoc f walk.fast)
        (applyRegState host.target as budget searched rs) ∧
      HoldsOffsets rs f := by
  obtain ⟨as₀, recorded⟩ := traceable.recorded
  obtain ⟨standard, rfl, notUndef⟩ := recorded.standard traceable.kind
  obtain ⟨ctx, cfiBudget, pi, ip, usePrevInstr, sr, isTarget, created, rfl⟩ := traceable.created
  have cfaOnly := createStateRecordFor_cfaOnlyAt created
  rw [isTarget] at cfaOnly
  have same := traceable.same
  have follows : Follows host as walk.fast searched :=
    ⟨inStep.follows.cfa.trans same.cfa.symm, inStep.follows.sp.trans same.cfa.symm,
      by rw [same.loc]; exact inStep.follows.fp⟩
  have tracks (kept : (standardFrame sr.rsCurrent).lrCfaOffset = -1) :
      TracksLr host as walk.lrLoc walk.fast searched := by
    intro value
    rw [same.loc]
    exact inStep.tracks (traceable.hasLr kept) value
  exact ⟨standardFrame_agree null standard traceable.regular notUndef cfaOnly follows tracks
    traceable.rules traceable.alike, standardFrame_holdsOffsets standard traceable.regular⟩

/-- A signal frame as it is recorded leads to its signal context. -/
theorem signalFrame_offset {as₀ : AddrSpace 64} {c : A64Cursor} :
    ((signalStep host as₀ c).tdep.frameInfo.cfaRegOffset).signExtend 64 = sigcontextOff := by
  have offset : c.cfa + sigcontextOff - c.cfa = sigcontextOff := add_sub_cancel_left _ _
  simp only [signalStep, offset]
  decide

/-- Both paths leave a signal frame for the registers of its context. -/
theorem signalFrame_inStep (null : NullUnmapped as) (inStep : InStep host as walk) {as₀ c}
    {validate : Bool} {fast : TraceRegs} {lrLoc : Loc 64} {slow : A64Cursor}
    (recorded : f = (signalStep host as₀ c).tdep.frameInfo)
    (traced : traceFrame host validate as walk.lrLoc f walk.fast = .ok fast)
    (stepped : handleSignalFrame host as budget walk.slow = (.ok true, slow)) :
    InStep host as { fast, lrLoc, slow, hasLr := fast.lr ≠ 0 } := by
  have kind : f.frameType = .sigreturn := by rw [recorded]; rfl
  have atContext : walk.fast.cfa + f.cfaRegOffset.signExtend 64 =
      walk.slow.cfa + sigcontextOff := by
    rw [recorded, signalFrame_offset, inStep.follows.cfa]
  simp only [traceFrame, kind, atContext] at traced
  obtain ⟨pcWord, -, traced⟩ := bind_eq_ok.mp traced
  obtain ⟨fpWord, fpRead, traced⟩ := bind_eq_ok.mp traced
  obtain ⟨spWord, spRead, traced⟩ := bind_eq_ok.mp traced
  obtain ⟨lrWord, lrRead, traced⟩ := bind_eq_ok.mp traced
  cases traced
  have read {addr val : Word 64}
      (stored : accessMemFast host.localOnly validate as addr = .ok val) :
      (memLoc addr).get host.localOnly as = .ok val :=
    null.get_memLoc.mpr (null.accessMemFast.mp stored)
  obtain ⟨atCfa, -, atLoc⟩ := handleSignalFrame_eq_ok host as budget walk.slow stepped
  have x29Loc : slow.loc x29 = memLoc (walk.slow.cfa + sigcontextOff + 0x0f0) :=
    atLoc x29 (by decide)
  have x30Loc : slow.loc x30 = memLoc (walk.slow.cfa + sigcontextOff + 0x0f8) :=
    atLoc x30 (by decide)
  have atSp : (signalStep host as walk.slow).cfa = spWord := by
    have located : sigcontextLoc (walk.slow.cfa + sigcontextOff) sp =
        memLoc (walk.slow.cfa + sigcontextOff + 0x100) := rfl
    simp only [signalStep, located, Loc.getInto, read spRead]
  have sp : spWord = slow.cfa := (atCfa.trans atSp).symm
  refine ⟨⟨sp, sp, ?_⟩, fun hasLr value => ?_⟩
  · rw [x29Loc]
    exact read fpRead
  · have hasLr : lrWord ≠ 0 := of_decide_eq_true hasLr
    rw [x30Loc, linkRegister, if_pos hasLr, read lrRead]
    rfl

theorem Passes.inStep {passed : Passed} (null : NullUnmapped as)
    (passes : Passes host as budget walk passed walk')
    (walkable : Walkable host as budget walk passed) (inStep : InStep host as walk) :
    InStep host as walk' := by
  cases passes with
  | @standard f rs searched slow validate fast lrLoc same traced stepped =>
      obtain ⟨agree, -⟩ := Traceable.agree walkable null inStep validate
      refine ⟨?_, fun hasLr => by cases hasLr⟩
      have reached := agree.leads fast traced ⟨true, by rw [stepped]⟩
      have atSp := agree.sp fast traced reached
      rw [stepped] at reached atSp
      have sp : fast.sp = slow.cfa := (Except.ok.inj atSp).symm
      exact ⟨reached.cfa.symm, sp, reached.fp⟩
  | signal traced stepped =>
      obtain ⟨as₀, c, recorded⟩ := walkable
      exact signalFrame_inStep null inStep recorded traced stepped

theorem TraceRun.inStep (null : NullUnmapped as) (run : TraceRun host as budget walk) :
    InStep host as walk :=
  run.invariant (fun _ begins => begins.inStep) fun _ _ _ inStep walkable passes =>
    passes.inStep null walkable inStep

/-- Wherever both paths have come over traceable and signal frames, they agree on
    the next traceable one, and the bit-fields hold its offsets. -/
theorem traceRun_agrees {validate : Bool} (null : NullUnmapped as)
    (run : TraceRun host as budget walk)
    (traceable : Traceable host as budget walk f rs searched) :
    Agree host as searched (traceFrame host validate as walk.lrLoc f walk.fast)
        (applyRegState host.target as budget searched rs) ∧
      HoldsOffsets rs f :=
  traceable.agree null (run.inStep null) validate

end Run

/-! ## A process -/

/-- A host that does not sign return addresses. -/
def linuxHost : Host where
  localOnly := false

/-- A process whose memory holds these instructions at `0x1000`, and a frame record
    at `0x2000`. -/
def frameProcess (program : List Byte) : AddrSpace 64 :=
  { processOf [(29, 0x3000), (30, 0x403000), (31, 0x2000), (32, 0x401010)]
      [(0x2000, 0x3000), (0x2008, 0x402000)] with
    readByte := fun addr =>
      match program[(addr - 0x1000).toNat]? with
      | some byte => .ok byte
      | none => .error .inval }

def frameContext (program : List Byte) : CfiContext 97 64 where
  target := linuxHost.target.cfi
  cursorSpace := frameProcess program
  localSpace := frameProcess program

def frameProcInfo : ProcInfo 64 where
  startIp := 0x401000
  endIp := 0x401100
  format := .table
  unwindInfo := some
    { cieInstrStart := 0x1000
      cieInstrEnd := 0x1008
      fdeInstrStart := 0x1008
      fdeInstrEnd := 0x1008
      codeAlign := 1
      dataAlign := -8
      retAddrColumn := 30 }

def frameRow (program : List Byte) : RegState 97 64 :=
  match createStateRecordFor (frameContext program) 8 frameProcInfo 0x401010 true with
  | .ok sr => sr.rsCurrent
  | .error _ => {}

/-- The cursor that `trace_init_addr` makes. -/
def frameCursor : A64Cursor where
  cfa := 0x2000
  ip := 0x401011
  loc r := if r ≤ pstate then ⟨BitVec.ofNat 64 r, .reg⟩ else nullLoc
  stashFrames := true
  tdep := {}

def frameStep (program : List Byte) : Result Bool × A64Cursor :=
  applyRegState linuxHost.target (frameProcess program) 0 frameCursor (frameRow program)

/-- The start of a trace there. -/
def frameWalk : Traced where
  fast := { cfa := 0x2000, pc := 0x401011, fp := 0x3000, lr := 0, sp := 0x2000, usePrevInstr := true }
  lrLoc := frameCursor.loc x30
  slow := frameCursor
  hasLr := true

/-- `def_cfa sp, 16`, `offset x30, -8` and `offset x29, -16`. -/
def recordProgram : List Byte := [0x0c, 0x1f, 0x10, 0x9e, 0x01, 0x9d, 0x02, 0x00]

theorem frameWalk_begins (program : List Byte) :
    TraceRun linuxHost (frameProcess program) 0 frameWalk :=
  .start ⟨rfl, rfl, rfl, rfl, rfl⟩

theorem frameProcess_null (program : List Byte) : NullUnmapped (frameProcess program) := by
  rintro val ⟨⟩

set_option maxRecDepth 2000 in
theorem recordProgram_traceable :
    Traceable linuxHost (frameProcess recordProgram) 0 frameWalk
      (frameStep recordProgram).2.tdep.frameInfo (frameRow recordProgram) frameCursor where
  created := ⟨frameContext recordProgram, 8, frameProcInfo, 0x401010, true, _, rfl, rfl, rfl⟩
  recorded := ⟨frameProcess recordProgram, 0, frameCursor, rfl, rfl, rfl, rfl⟩
  kind := rfl
  regular := ⟨by decide, by decide, by decide⟩
  hasLr _ := rfl
  same := ⟨rfl, rfl, rfl, rfl, rfl⟩
  rules cfa base := by
    obtain rfl : 0x2010 = cfa := Except.ok.inj base
    exact ⟨_, rfl, rfl⟩
  alike _ _ _ := rfl

theorem recordProgram_agrees :
    Agree linuxHost (frameProcess recordProgram) frameCursor
        (traceFrame linuxHost false (frameProcess recordProgram) frameWalk.lrLoc
          (frameStep recordProgram).2.tdep.frameInfo frameWalk.fast)
        (frameStep recordProgram) ∧
      HoldsOffsets (frameRow recordProgram) (frameStep recordProgram).2.tdep.frameInfo :=
  traceRun_agrees (frameProcess_null _) (frameWalk_begins _) recordProgram_traceable

/-- `def_cfa sp, 16`, `offset x30, -8` and `same_value sp`. -/
def sameSpProgram : List Byte := [0x0c, 0x1f, 0x10, 0x9e, 0x01, 0x08, 0x1f, 0x00]

/-- A frame that keeps `sp` is recorded as standard. The fast path then takes the
    CFA for it, as it says it does. -/
theorem sameSpProgram_disagrees :
    TraceRun linuxHost (frameProcess sameSpProgram) 0 frameWalk ∧
    (frameStep sameSpProgram).2.tdep.frameInfo.frameType = .standard ∧
    (frameStep sameSpProgram).1 = .ok true ∧
    ∃ regs slowSp,
      traceFrame linuxHost false (frameProcess sameSpProgram) frameWalk.lrLoc
        (frameStep sameSpProgram).2.tdep.frameInfo frameWalk.fast = .ok regs ∧
      ((frameStep sameSpProgram).2.loc sp).get false (frameProcess sameSpProgram) = .ok slowSp ∧
      regs.sp ≠ slowSp := by
  refine ⟨frameWalk_begins _, rfl, rfl, ⟨0x2010, 0x402000, 0x3000, 0, 0x2010, true⟩, 0x2000, rfl,
    rfl, ?_⟩
  decide

end Libunwind.AArch64
