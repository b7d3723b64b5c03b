import Libunwind.Library.Run
import Libunwind.Dwarf.CfaRule
import Libunwind.Arm.Frame

/-! # The fast path and the slow path on ARM

`tdep_trace` steps over a recorded frame without its rules. It has a link register
only where a signal frame has left one. Over the frames of one stack this compares the
registers that it follows with the cursor of the slow path.
-/

namespace Libunwind.ArmLinux

open Dwarf

/-! ## The fast path -/

/-- The registers that `tdep_trace` follows; `lr` is not set at first. -/
structure TraceRegs where
  cfa : Word 32
  pc : Word 32
  r7 : Word 32
  lr : Option (Word 32)
  sp : Word 32
  usePrevInstr : Bool
  deriving DecidableEq, Repr

/-- The CFA of a frame whose CFA is relative to a register. -/
def Frame.cfa (f : Frame) (regs : TraceRegs) : Word 32 :=
  (if f.cfaRegSp then regs.sp else regs.r7) + f.cfaRegOffset.signExtend 32

/-- The new `pc` and `lr`; `lrLoc` is what the cursor has for R14. -/
def Frame.returnTo (host : Host) (access : Word 32 → Result (Word 32)) (as : AddrSpace 32)
    (lrLoc : Loc 32) (f : Frame) (regs : TraceRegs) : Result (Word 32 × Option (Word 32)) :=
  if f.lrCfaOffset ≠ -1 then do
    let pc ← access (f.cfa regs + f.lrCfaOffset.signExtend 32)
    pure (pc, regs.lr)
  else
    match regs.lr with
    | none => .error .undefined
    | some lr =>
        -- lr might have been set by the previous frame (sigreturn)
        if lr ≠ 0 then pure (lr, some 0)
        else
          match lrLoc.get host.localOnly as with
          | .ok lr => pure (lr, some 0)
          -- neither `pc` nor the code is changed
          | .error _ => pure (regs.pc, some lr)

/-- The steps over a standard frame. -/
def Frame.standardStep (host : Host) (access : Word 32 → Result (Word 32)) (as : AddrSpace 32)
    (lrLoc : Loc 32) (f : Frame) (regs : TraceRegs) : Result TraceRegs := do
  let (pc, lr) ← f.returnTo host access as lrLoc regs
  let r7 ←
    if f.r7CfaOffset ≠ -1 then access (f.cfa regs + f.r7CfaOffset.signExtend 32) else pure regs.r7
  -- don't bother reading SP from DWARF, CFA becomes new SP
  pure { cfa := f.cfa regs, pc, r7, lr, sp := f.cfa regs, usePrevInstr := true }

/-- A round of `tdep_trace` up to the end of its switch, from the current registers. -/
def traceFrame (host : Host) (validate : Bool) (as : AddrSpace 32) (lrLoc : Loc 32) (f : Frame)
    (regs : TraceRegs) : Result TraceRegs :=
  let regs := { regs with pc := regs.pc - if regs.usePrevInstr then 1 else 0 }
  let access := accessMemFast host.localOnly validate as
  match f.frameType with
  | .guessed => f.standardStep host (accessMemFast host.localOnly true as) as lrLoc regs
  | .standard => f.standardStep host access as lrLoc regs
  | .sigreturn => do
      -- cfa now points to the signal context
      let sc := regs.cfa + f.cfaRegOffset.signExtend 32
      let pc ← access (sc + 0x48)
      let r7 ← access (sc + 0x28)
      let sp ← access (sc + 0x40)
      let lr ← access (sc + 0x44)
      pure { cfa := sp, pc, r7, lr := some lr, sp, usePrevInstr := false }
  | .syscall => pure regs
  | .other => .error (.err .stopunwind)

section Fast

variable {host : Host} {as : AddrSpace 32} {lrLoc : Loc 32} {f : Frame} {regs regs' : TraceRegs}
  {access : Word 32 → Result (Word 32)} {validate : Bool} {lr : Word 32}

theorem Frame.standardStep_eq_ok :
    f.standardStep host access as lrLoc regs = .ok regs' ↔
      f.returnTo host access as lrLoc regs = .ok (regs'.pc, regs'.lr) ∧
      (if f.r7CfaOffset = -1 then regs'.r7 = regs.r7
        else access (f.cfa regs + f.r7CfaOffset.signExtend 32) = .ok regs'.r7) ∧
      regs'.cfa = f.cfa regs ∧ regs'.sp = f.cfa regs ∧ regs'.usePrevInstr = true := by
  rw [Frame.standardStep]
  constructor
  · intro ok
    obtain ⟨⟨pc, lr⟩, returned, ok⟩ := bind_eq_ok.mp ok
    by_cases kept : f.r7CfaOffset = -1
    · simp only [kept, ne_eq, not_true, if_false] at ok
      obtain rfl := Except.ok.inj ok
      exact ⟨returned, if_pos kept ▸ rfl, rfl, rfl, rfl⟩
    · simp only [ne_eq, kept, not_false_iff, if_true] at ok
      obtain ⟨r7, read, ok⟩ := bind_eq_ok.mp ok
      obtain rfl := Except.ok.inj ok
      refine ⟨returned, ?_, rfl, rfl, rfl⟩
      rw [if_neg kept]
      exact read
  · obtain ⟨cfa, pc, r7, lr, sp, usePrevInstr⟩ := regs'
    intro steps
    obtain ⟨returned, r7Is, rfl, rfl, rfl⟩ := steps
    rw [returned, ok_bind]
    by_cases kept : f.r7CfaOffset = -1
    · rw [if_pos kept] at r7Is
      obtain rfl : r7 = regs.r7 := r7Is
      simp only [kept, ne_eq, not_true, if_false]
      rfl
    · rw [if_neg kept] at r7Is
      simp only [kept, ne_eq, not_false_iff, if_true, r7Is]
      rfl

theorem Frame.returnTo_saved (saved : f.lrCfaOffset ≠ -1) {pc : Word 32} {lr : Option (Word 32)} :
    f.returnTo host access as lrLoc regs = .ok (pc, lr) ↔
      access (f.cfa regs + f.lrCfaOffset.signExtend 32) = .ok pc ∧ lr = regs.lr := by
  rw [Frame.returnTo, if_pos saved, bind_eq_ok]
  constructor
  · intro returned
    obtain ⟨stored, read, same⟩ := returned
    cases same
    exact ⟨read, rfl⟩
  · intro returned
    obtain ⟨read, rfl⟩ := returned
    exact ⟨pc, read, rfl⟩

theorem Frame.returnTo_kept (kept : f.lrCfaOffset = -1) (known : regs.lr = some lr)
    (notNull : lr ≠ 0) : f.returnTo host access as lrLoc regs = .ok (lr, some 0) := by
  rw [Frame.returnTo, if_neg (not_not.mpr kept), known]
  exact if_pos notNull

end Fast

/-! ## Recorded frames -/

section Recorded

variable {host : Host} {as : AddrSpace 32} {rs : RegState 128 32} {f : Frame}

/-- The tests that make a frame standard. -/
structure Standard (rs : RegState 128 32) : Prop where
  cfaIsReg : (rs.reg (cfaRegColumn 128)).how = .reg
  cfaReg : (rs.reg (cfaRegColumn 128)).val = 7 ∨ (rs.reg (cfaRegColumn 128)).val = 13
  cfaOffset : labs (rs.reg (cfaOffColumn 128)).val < 2 ^ 29
  column : rs.retAddrColumn = 14
  r7Rule : isStandardRule (rs.reg (regColumn r7))
  lrRule : isUnsavedOrNear (rs.reg (regColumn lr))
  spRule : isStandardRule (rs.reg (regColumn sp))

/-- Where no rule of R7 makes it the CFA, the tests are those of LR too. -/
theorem Standard.of_isStandard (standard : isStandard rs)
    (notCfa : (rs.reg (regColumn r7)).how ≠ .cfa) : Standard rs := by
  simp only [isStandard, Bool.and_eq_true, Bool.or_eq_true, decide_eq_true_eq, beq_iff_eq,
    notCfa, false_or] at standard
  obtain ⟨⟨⟨⟨⟨⟨cfaIsReg, cfaReg⟩, cfaOffset⟩, column⟩, r7Rule⟩, lrRule⟩, spRule⟩ := standard
  exact ⟨cfaIsReg, cfaReg, cfaOffset, column, r7Rule, lrRule, spRule⟩

/-- What is recorded of a standard frame after `trace_init_addr`. -/
def standardFrame (rs : RegState 128 32) : Frame where
  frameType := .standard
  cfaRegSp := (rs.reg (cfaRegColumn 128)).val == 13
  cfaRegOffset := (rs.reg (cfaOffColumn 128)).val.setWidth 30
  r7CfaOffset := stashOffset (rs.reg (regColumn r7)) (-1)
  lrCfaOffset := stashOffset (rs.reg (regColumn lr)) (-1)
  spCfaOffset := stashOffset (rs.reg (regColumn sp)) (-1)

theorem stashFrame_standard (recorded : (stashFrame rs {}).frameType = .standard) :
    isStandard rs ∧ stashFrame rs {} = standardFrame rs := by
  unfold stashFrame at recorded ⊢
  split at recorded
  next standard =>
    rw [if_pos standard]
    exact ⟨standard.2, rfl⟩
  next => simp at recorded

/-- The frame info that a step of the slow path over the row left, from what
    `trace_init_addr` sets up. The step found a caller, so that the frame is not
    the last one. -/
def Recorded (host : Host) (as : AddrSpace 32) (rs : RegState 128 32) (f : Frame) : Prop :=
  ∃ budget c,
    c.stashFrames = true ∧ c.tdep.frameInfo = {} ∧
    (applyRegState host.target as budget c rs).1 = .ok true ∧
    (applyRegState host.target as budget c rs).2.tdep.frameInfo = f

/-- What the recording of a row takes for granted: that R7 has a value, and that
    `labs` is defined. -/
structure Regular (rs : RegState 128 32) : Prop where
  r7HasValue : (rs.reg (regColumn r7)).how ≠ .undef
  cfaOffset : (rs.reg (cfaOffColumn 128)).val ≠ BitVec.intMin 32
  savedOffset : ∀ r, (rs.reg (regColumn r)).how = .cfarel →
    (rs.reg (regColumn r)).val ≠ BitVec.intMin 32

/-- A rule that a recorded offset stands for. -/
def Represents (rule : Rule 32) (offset : BitVec 30) : Prop :=
  match rule.how with
  | .undef | .same => offset = -1
  | .cfa => offset = 0
  | .cfarel => offset.signExtend 32 = rule.val ∧ offset ≠ -1
  | _ => False

/-- The frame stands for the row. -/
structure RepresentsRow (rs : RegState 128 32) (f : Frame) : Prop where
  cfaIsReg : (rs.reg (cfaRegColumn 128)).how = .reg
  cfa : f.cfaRegOffset.signExtend 32 = (rs.reg (cfaOffColumn 128)).val
  r7 : Represents (rs.reg (regColumn r7)) f.r7CfaOffset
  lr : Represents (rs.reg (regColumn lr)) f.lrCfaOffset
  sp : Represents (rs.reg (regColumn sp)) f.spCfaOffset

/-- An offset that the tests admit is held by its bit-field. -/
theorem signExtend_setWidth_labs {x : Word 32} (small : labs x < 2 ^ 29)
    (notMin : x ≠ BitVec.intMin 32) : (x.setWidth 30).signExtend 32 = x := by
  obtain ⟨above, below⟩ := labs_lt notMin small
  exact signExtend_setWidth (by decide) (by omega) (by omega)

theorem represents_near {rule : Rule 32} (near : isUnsavedOrNear rule)
    (notMin : rule.how = .cfarel → rule.val ≠ BitVec.intMin 32) :
    Represents rule (stashOffset rule (-1)) := by
  unfold Represents stashOffset
  unfold isUnsavedOrNear at near
  cases how : rule.how with
  | undef => rfl
  | same => rfl
  | cfarel =>
      simp only [how, Bool.and_eq_true, decide_eq_true_eq, bne_iff_ne, ne_eq] at near
      have exact := signExtend_setWidth_labs near.1 (notMin how)
      refine ⟨exact, ?_⟩
      intro sentinel
      apply near.2
      have ones : rule.val.setWidth 30 = -1 := sentinel
      rw [← exact, ones]
      decide
  | reg | expr | valExpr | cfa => simp [how] at near

theorem represents_standard {rule : Rule 32} (standard : isStandardRule rule)
    (notMin : rule.how = .cfarel → rule.val ≠ BitVec.intMin 32) :
    Represents rule (stashOffset rule (-1)) := by
  rw [isStandardRule, Bool.or_eq_true, decide_eq_true_eq] at standard
  cases standard with
  | inl isCfa => simp [Represents, stashOffset, isCfa]
  | inr near => exact represents_near near notMin

theorem standardFrame_represents (standard : Standard rs) (regular : Regular rs) :
    RepresentsRow rs (standardFrame rs) where
  cfaIsReg := standard.cfaIsReg
  cfa := signExtend_setWidth_labs standard.cfaOffset regular.cfaOffset
  r7 := represents_standard standard.r7Rule (regular.savedOffset r7)
  lr := represents_near standard.lrRule (regular.savedOffset lr)
  sp := represents_standard standard.spRule (regular.savedOffset sp)

/-- A frame that is recorded as standard has a rule that leads to its caller. -/
theorem Recorded.standard (recorded : Recorded host as rs f) (kind : f.frameType = .standard)
    (notCfa : (rs.reg (regColumn r7)).how ≠ .cfa) :
    Standard rs ∧ f = standardFrame rs ∧ (rs.reg (regColumn lr)).how ≠ .undef := by
  obtain ⟨budget, c, stash, fresh, moved, rfl⟩ := recorded
  obtain ⟨ra, cfa, ip, newLoc, staged, read, more, stashed⟩ := applyRegState_ok moved
  rw [if_pos stash] at stashed
  have info : (applyRegState host.target as budget c rs).2.tdep.frameInfo = stashFrame rs {} := by
    rw [stashed, ← fresh]
    rfl
  rw [info] at kind ⊢
  obtain ⟨standard, same⟩ := stashFrame_standard kind
  have standard := Standard.of_isStandard standard notCfa
  refine ⟨standard, same, ?_⟩
  intro undefined
  obtain rfl : ra = lr := by
    apply Fin.ext
    rw [← staged.column, standard.column]
    rfl
  obtain rfl : 0 = ip := Except.ok.inj ((staged.returns_null undefined).symm.trans read)
  simp at more

end Recorded

/-! ## One frame -/

section OneFrame

variable {host : Host} {as : AddrSpace 32} {budget : Nat} {validate : Bool} {lrLoc : Loc 32}
  {rs : RegState 128 32} {c : ArmCursor} {regs : TraceRegs}

/-- The fast path is at the cursor's frame. -/
structure Follows (host : Host) (as : AddrSpace 32) (regs : TraceRegs) (c : ArmCursor) : Prop where
  cfa : regs.cfa = c.cfa
  sp : regs.sp = c.cfa
  r7 : (c.loc r7).get host.localOnly as = .ok regs.r7

/-- The fast path has the cursor's link register. -/
def TracksLr (host : Host) (as : AddrSpace 32) (regs : TraceRegs) (c : ArmCursor) : Prop :=
  ∃ val, regs.lr = some val ∧ val ≠ 0 ∧ (c.loc lr).get host.localOnly as = .ok val

/-- The step succeeds and leads to the registers. -/
structure StepsTo (host : Host) (as : AddrSpace 32) (step : Result Bool × ArmCursor)
    (regs : TraceRegs) : Prop where
  returns : ∃ more, step.1 = .ok more
  cfa : step.2.cfa = regs.cfa
  ip : step.2.ip = regs.pc
  r7 : (step.2.loc r7).get host.localOnly as = .ok regs.r7

/-- Both paths lead to the same CFA, `pc` and R7, or both fail. Only the slow path
    notices that it stays at its frame. The stack pointer is the CFA for both. -/
structure Agree (host : Host) (as : AddrSpace 32) (prev : ArmCursor) (fast : Result TraceRegs)
    (slow : Result Bool × ArmCursor) : Prop where
  steps : ∀ regs, fast = .ok regs →
    (StepsTo host as slow regs ↔ regs.pc ≠ prev.ip ∨ regs.cfa ≠ prev.cfa)
  leads : ∀ regs, fast = .ok regs → (∃ more, slow.1 = .ok more) → StepsTo host as slow regs
  fails : (∀ regs, fast ≠ .ok regs) → ∀ regs, ¬StepsTo host as slow regs
  sp : ∀ regs, fast = .ok regs → StepsTo host as slow regs →
    host.target.getReg as slow.2 13 = .ok regs.sp

/-- No rule fails, and the return address has a location. -/
def Evaluates (host : Host) (as : AddrSpace 32) (budget : Nat) (c : ArmCursor)
    (rs : RegState 128 32) : Prop :=
  ∀ cfa, evalCfa host.target as budget c rs = .ok cfa →
    ∃ newLoc, applyColumns host.target as budget c cfa rs (List.finRange 128) = .ok newLoc ∧
      (newLoc lr).isNull host.localOnly = false

theorem evalCfa_standard (standard : Standard rs) (regular : Regular rs)
    (follows : Follows host as regs c) :
    evalCfa host.target as budget c rs = .ok ((standardFrame rs).cfa regs) := by
  have offset : (standardFrame rs).cfaRegOffset.signExtend 32 = (rs.reg (cfaOffColumn 128)).val :=
    (standardFrame_represents standard regular).cfa
  have base : (standardFrame rs).cfaRegSp = ((rs.reg (cfaRegColumn 128)).val == 13) := rfl
  simp only [evalCfa, standard.cfaIsReg, Frame.cfa, offset, base]
  cases standard.cfaReg with
  | inl isR7 =>
      rw [isR7]
      have notSp : ¬((7 : Word 32) = BitVec.ofNat 32 host.target.cfi.sp ∧
          (c.loc host.target.cfi.sp).isNull host.target.localOnly = true) := by
        intro both
        have differ : (7 : Word 32) ≠ BitVec.ofNat 32 sp := by decide
        exact differ both.1
      have regnum : host.target.toUnwRegnum ((7 : Word 32).setWidth 32).toInt = .ok 7 := rfl
      have read : host.target.getReg as c 7 = .ok regs.r7 := by
        change accessReg host as c 7 = .ok regs.r7
        simpa [accessReg, r7] using follows.r7
      rw [if_neg notSp, regnum, ok_bind, read]
      rfl
  | inr isSp =>
      rw [isSp]
      have read : host.target.getReg as c 13 = .ok regs.sp := congrArg Except.ok follows.sp.symm
      by_cases isNull : (13 : Word 32) = BitVec.ofNat 32 host.target.cfi.sp ∧
          (c.loc host.target.cfi.sp).isNull host.target.localOnly = true
      · rw [if_pos isNull, ← follows.sp]
        rfl
      · have regnum : host.target.toUnwRegnum ((13 : Word 32).setWidth 32).toInt = .ok 13 := rfl
        rw [if_neg isNull, regnum, ok_bind, read]
        rfl

section StagedRules

variable {cfa val ip : Word 32} {newLoc : Fin 128 → Loc 32}

/-- The fast path reads R7 where its rule says, whichever rule that is. -/
theorem standardFrame_r7 (null : NullUnmapped as) (standard : Standard rs) (regular : Regular rs)
    (notCfa : (rs.reg (regColumn r7)).how ≠ .cfa) (follows : Follows host as regs c)
    (staged : applyColumns host.target as budget c cfa rs (List.finRange 128) = .ok newLoc) :
    (newLoc r7).get host.localOnly as = .ok val ↔
      if (standardFrame rs).r7CfaOffset = -1 then val = regs.r7
      else as.accessMem (cfa + (standardFrame rs).r7CfaOffset.signExtend 32) = .ok val := by
  have represents := (standardFrame_represents standard regular).r7
  unfold Represents at represents
  have own := applyColumns_own (List.nodup_finRange 128) (List.mem_finRange r7)
    (by intro isReg; simp [isReg] at represents) staged
  cases how : (rs.reg (regColumn r7)).how with
  | undef => exact absurd how regular.r7HasValue
  | cfa => exact absurd how notCfa
  | same =>
      simp only [how] at represents
      rw [ruleLoc, how] at own
      rw [if_pos represents, ← Except.ok.inj own, follows.r7, Except.ok.injEq, eq_comm]
  | cfarel =>
      simp only [how] at represents
      rw [ruleLoc, how] at own
      rw [if_neg represents.2, ← Except.ok.inj own, represents.1, null.get_memLoc]
  | reg | expr | valExpr => simp [how] at represents

/-- So it does with the return address. -/
theorem standardFrame_returnTo (null : NullUnmapped as) (standard : Standard rs)
    (regular : Regular rs) (notUndef : (rs.reg (regColumn lr)).how ≠ .undef)
    (notCfa : (rs.reg (regColumn lr)).how ≠ .cfa)
    (tracks : (standardFrame rs).lrCfaOffset = -1 → TracksLr host as regs c)
    (staged : applyColumns host.target as budget c ((standardFrame rs).cfa regs) rs
      (List.finRange 128) = .ok newLoc) :
    (∃ lr, (standardFrame rs).returnTo host (accessMemFast host.localOnly validate as) as lrLoc regs =
        .ok (ip, lr)) ↔ (newLoc lr).get host.localOnly as = .ok ip := by
  have represents := (standardFrame_represents standard regular).lr
  unfold Represents at represents
  have own := applyColumns_own (List.nodup_finRange 128) (List.mem_finRange lr)
    (by intro isReg; simp [isReg] at represents) staged
  cases how : (rs.reg (regColumn lr)).how with
  | undef => exact absurd how notUndef
  | cfa => exact absurd how notCfa
  | same =>
      simp only [how] at represents
      rw [ruleLoc, how] at own
      obtain ⟨link, known, notNull, read⟩ := tracks represents
      rw [← Except.ok.inj own, read, Frame.returnTo_kept represents known notNull]
      simp
  | cfarel =>
      simp only [how] at represents
      rw [ruleLoc, how] at own
      rw [← Except.ok.inj own, null.get_memLoc, ← represents.1]
      simp [Frame.returnTo_saved represents.2, null.accessMemFast]
  | reg | expr | valExpr => simp [how] at represents

theorem returnAddress_eq (located : (newLoc lr).isNull host.localOnly = false) :
    returnAddress host.target as { c with loc := newLoc, cfa } rs lr =
      (newLoc lr).get host.localOnly as := by
  have hasLoc : ¬(newLoc lr).isNull host.target.localOnly = true := by
    change ¬(newLoc lr).isNull host.localOnly = true
    rw [located]
    exact Bool.false_ne_true
  rw [returnAddress, if_neg hasLoc]
  exact bind_pure _

/-- Where a step of the slow path over staged rules leads. -/
theorem stepsTo_iff (staged : Staged host.target as budget c rs lr cfa newLoc)
    (located : (newLoc lr).isNull host.localOnly = false) {regs' : TraceRegs} :
    StepsTo host as (applyRegState host.target as budget c rs) regs' ↔
      regs'.cfa = cfa ∧ (newLoc r7).get host.localOnly as = .ok regs'.r7 ∧
        (newLoc lr).get host.localOnly as = .ok regs'.pc ∧
        (regs'.pc ≠ c.ip ∨ regs'.cfa ≠ c.cfa) := by
  have returns := staged.returns_iff
  rw [returnAddress_eq located] at returns
  constructor
  · intro reached
    obtain ⟨ip, read, moved⟩ := returns.mp reached.returns
    obtain ⟨atCfa, atIp, atLoc⟩ := staged.leads ((returnAddress_eq located).trans read)
    have sameCfa : regs'.cfa = cfa := reached.cfa.symm.trans atCfa
    have samePc : regs'.pc = ip := reached.ip.symm.trans atIp
    have r7Read := reached.r7
    rw [atLoc] at r7Read
    rw [sameCfa, samePc]
    exact ⟨rfl, r7Read, read, moved⟩
  · intro leads
    obtain ⟨sameCfa, r7Read, read, moved⟩ := leads
    obtain ⟨atCfa, atIp, atLoc⟩ := staged.leads ((returnAddress_eq located).trans read)
    rw [sameCfa] at moved
    refine ⟨returns.mpr ⟨_, read, moved⟩, atCfa.trans sameCfa.symm, atIp, ?_⟩
    rw [atLoc]
    exact r7Read

end StagedRules

theorem standardStep_agree (null : NullUnmapped as) (standard : Standard rs)
    (regular : Regular rs) (notUndef : (rs.reg (regColumn lr)).how ≠ .undef)
    (cfaOnly : CfaOnlyAt sp rs) (follows : Follows host as regs c)
    (tracks : (standardFrame rs).lrCfaOffset = -1 → TracksLr host as regs c)
    (rules : Evaluates host as budget c rs) :
    Agree host as c
      ((standardFrame rs).standardStep host (accessMemFast host.localOnly validate as) as lrLoc regs)
      (applyRegState host.target as budget c rs) := by
  have base : evalCfa host.target as budget c rs = .ok ((standardFrame rs).cfa regs) :=
    evalCfa_standard standard regular follows
  obtain ⟨newLoc, columns, located⟩ := rules _ base
  have staged : Staged host.target as budget c rs lr ((standardFrame rs).cfa regs) newLoc := by
    refine ⟨?_, base, columns⟩
    rw [standard.column]
    rfl
  have notCfa (r : Fin 128) (other : r ≠ sp) : (rs.reg (regColumn r)).how ≠ .cfa := fun isCfa =>
    other (regColumn_injective (cfaOnly _ isCfa))
  have r7Read (val : Word 32) :=
    (standardFrame_r7 null standard regular (notCfa r7 (by decide)) follows columns :
      (newLoc r7).get host.localOnly as = .ok val ↔ _)
  have returnTo (ip : Word 32) :=
    (standardFrame_returnTo null standard regular notUndef (notCfa lr (by decide)) tracks columns :
      (∃ lr, (standardFrame rs).returnTo host (accessMemFast host.localOnly validate as) as lrLoc
        regs = .ok (ip, lr)) ↔ _)
  have leads (regs' : TraceRegs)
      (ok : (standardFrame rs).standardStep host (accessMemFast host.localOnly validate as) as lrLoc
        regs = .ok regs') :
      regs'.cfa = (standardFrame rs).cfa regs ∧
        (newLoc r7).get host.localOnly as = .ok regs'.r7 ∧
        (newLoc lr).get host.localOnly as = .ok regs'.pc := by
    obtain ⟨returned, r7, atCfa, -, -⟩ := Frame.standardStep_eq_ok.mp ok
    rw [null.accessMemFast, ← r7Read] at r7
    exact ⟨atCfa, r7, (returnTo _).mp ⟨_, returned⟩⟩
  have alongside (regs' : TraceRegs)
      (ok : (standardFrame rs).standardStep host (accessMemFast host.localOnly validate as) as lrLoc
        regs = .ok regs') :
      StepsTo host as (applyRegState host.target as budget c rs) regs' ↔
        regs'.pc ≠ c.ip ∨ regs'.cfa ≠ c.cfa := by
    obtain ⟨atCfa, r7, address⟩ := leads regs' ok
    rw [stepsTo_iff staged located]
    exact ⟨fun reached => reached.2.2.2, fun moved => ⟨atCfa, r7, address, moved⟩⟩
  refine ⟨alongside, ?_, ?_, ?_⟩
  · intro regs' ok more
    obtain ⟨atCfa, -, address⟩ := leads regs' ok
    obtain ⟨ip, read, moved⟩ := staged.returns_iff.mp more
    rw [returnAddress_eq located, address, Except.ok.injEq] at read
    rw [alongside regs' ok, atCfa, read]
    exact moved
  · intro none regs' reached
    obtain ⟨-, r7, address, -⟩ := (stepsTo_iff staged located).mp reached
    obtain ⟨lr, returned⟩ := (returnTo _).mpr address
    rw [r7Read, ← null.accessMemFast] at r7
    exact none ⟨_, regs'.pc, regs'.r7, lr, _, true⟩
      (Frame.standardStep_eq_ok.mpr ⟨returned, r7, rfl, rfl, rfl⟩)
  · intro regs' ok reached
    obtain ⟨-, -, atCfa, atSp, -⟩ := Frame.standardStep_eq_ok.mp ok
    rw [atSp, ← atCfa, ← reached.cfa]
    rfl

/-- A frame that was recorded as standard is stepped over alike. -/
theorem standardFrame_agree (null : NullUnmapped as) (standard : Standard rs)
    (regular : Regular rs) (notUndef : (rs.reg (regColumn lr)).how ≠ .undef)
    (cfaOnly : CfaOnlyAt sp rs) (follows : Follows host as regs c)
    (tracks : (standardFrame rs).lrCfaOffset = -1 → TracksLr host as regs c)
    (rules : Evaluates host as budget c rs) :
    Agree host as c (traceFrame host validate as lrLoc (standardFrame rs) regs)
      (applyRegState host.target as budget c rs) := by
  -- the address at which the round looks the frame up is not used by its step
  have atPc : Follows host as { regs with pc := regs.pc - if regs.usePrevInstr then 1 else 0 } c :=
    ⟨follows.cfa, follows.sp, follows.r7⟩
  exact standardStep_agree null standard regular notUndef cfaOnly atPc tracks rules

end OneFrame

/-! ## The frames of one stack -/

/-- Both paths at one frame. -/
structure Traced where
  fast : TraceRegs
  /-- What the cursor of `tdep_trace` has for R14; a step that fills a line of the
      trace cache moves it. -/
  lrLoc : Loc 32
  slow : ArmCursor
  /-- A signal interrupted the frame, and has saved a link register that is not null. -/
  hasLr : Bool

/-- A frame that both paths step over, with what the fast one has recorded of it. -/
inductive Passed where
  /-- `searched` is the cursor as `find_reg_state` leaves it. -/
  | standard (f : Frame) (rs : RegState 128 32) (searched : ArmCursor)
  | signal (f : Frame)

/-- A frame that was recorded at a signal frame of this format. -/
def RecordedSignal (host : Host) (f : Frame) (format : SigcontextFormat) : Prop :=
  ∃ as c rt word, (sigcontextAt rt word c.cfa).1 = format ∧
    f = (signalStep host as c rt word).tdep.frameInfo

section Walk

variable (host : Host) (as : AddrSpace 32) (budget : Nat)

/-- Where `tdep_trace` starts. -/
structure Begins (walk : Traced) : Prop where
  cfa : walk.fast.cfa = walk.slow.cfa
  sp : walk.fast.sp = walk.slow.cfa
  r7 : (walk.slow.loc r7).get host.localOnly as = .ok walk.fast.r7
  lrLoc : walk.lrLoc = walk.slow.loc lr
  notSet : walk.fast.lr = none
  hasLr : walk.hasLr = false

/-- Both paths step over a frame and find its caller. -/
inductive Passes : Traced → Passed → Traced → Prop where
  | standard {walk : Traced} {f : Frame} {rs : RegState 128 32} {searched slow : ArmCursor}
      {validate : Bool} {fast : TraceRegs} {lrLoc : Loc 32} :
      walk.slow.SameFrame searched →
      traceFrame host validate as walk.lrLoc f walk.fast = .ok fast →
      applyRegState host.target as budget searched rs = (.ok true, slow) →
      Passes walk (.standard f rs searched) { fast, lrLoc, slow, hasLr := false }
  | signal {walk : Traced} {f : Frame} {slow : ArmCursor} {validate : Bool} {fast : TraceRegs}
      {lrLoc : Loc 32} :
      traceFrame host validate as walk.lrLoc f walk.fast = .ok fast →
      handleSignalFrame host as walk.slow = (.ok true, slow) →
      Passes walk (.signal f) { fast, lrLoc, slow, hasLr := fast.lr ≠ some 0 }

/-- A row of the interpreter that was recorded as standard, at a frame whose link
    register a signal frame has left if the frame does not save it. -/
structure Traceable (walk : Traced) (f : Frame) (rs : RegState 128 32) (searched : ArmCursor) :
    Prop where
  created : ∃ ctx cfiBudget pi ip usePrevInstr sr, ctx.target = host.target.cfi ∧
    createStateRecordFor ctx cfiBudget pi ip usePrevInstr = .ok sr ∧ sr.rsCurrent = rs
  recorded : ∃ as₀, Recorded host as₀ rs f
  kind : f.frameType = .standard
  regular : Regular rs
  hasLr : f.lrCfaOffset = -1 → walk.hasLr = true
  same : walk.slow.SameFrame searched
  rules : Evaluates host as budget searched rs

/-- What a walk steps over: traceable frames, and signal frames as the slow path has
    recorded one of their format. -/
def Walkable (walk : Traced) : Passed → Prop
  | .standard f rs searched => Traceable host as budget walk f rs searched
  | .signal f => ∀ rt word, (memLoc walk.slow.cfa).get host.localOnly as = .ok word →
      unwIsSignalFrame as walk.slow = .ok (some rt) →
      RecordedSignal host f (sigcontextAt rt word walk.slow.cfa).1

/-- The frames that both paths reach over one memory. -/
def TraceRun : Traced → Prop :=
  Run (Begins host as) (Passes host as budget) (Walkable host as budget)

/-- What both paths keep to. -/
structure InStep (walk : Traced) : Prop where
  follows : Follows host as walk.fast walk.slow
  tracks : walk.hasLr = true → TracksLr host as walk.fast walk.slow

variable {host as budget} {walk walk' : Traced} {f : Frame} {rs : RegState 128 32}
  {searched : ArmCursor}

theorem Begins.inStep (begins : Begins host as walk) : InStep host as walk where
  follows := ⟨begins.cfa, begins.sp, begins.r7⟩
  tracks hasLr := by
    rw [begins.hasLr] at hasLr
    simp at hasLr

theorem Traceable.agree (traceable : Traceable host as budget walk f rs searched)
    (null : NullUnmapped as) (inStep : InStep host as walk) (validate : Bool) :
    Agree host as searched (traceFrame host validate as walk.lrLoc f walk.fast)
        (applyRegState host.target as budget searched rs) ∧
      RepresentsRow rs f := by
  obtain ⟨ctx, cfiBudget, pi, ip, usePrevInstr, sr, isTarget, created, rfl⟩ := traceable.created
  have cfaOnly := createStateRecordFor_cfaOnlyAt created
  rw [isTarget] at cfaOnly
  have notCfa : (sr.rsCurrent.reg (regColumn r7)).how ≠ .cfa := by
    intro isCfa
    have differ : r7 ≠ sp := by decide
    exact differ (regColumn_injective (cfaOnly _ isCfa))
  obtain ⟨as₀, recorded⟩ := traceable.recorded
  obtain ⟨standard, rfl, notUndef⟩ := recorded.standard traceable.kind notCfa
  have same := traceable.same
  have follows : Follows host as walk.fast searched := by
    refine ⟨inStep.follows.cfa.trans same.cfa.symm, inStep.follows.sp.trans same.cfa.symm, ?_⟩
    rw [same.loc]
    exact inStep.follows.r7
  have tracks (kept : (standardFrame sr.rsCurrent).lrCfaOffset = -1) :
      TracksLr host as walk.fast searched := by
    obtain ⟨link, known, notNull, read⟩ := inStep.tracks (traceable.hasLr kept)
    refine ⟨link, known, notNull, ?_⟩
    rw [same.loc]
    exact read
  exact ⟨standardFrame_agree null standard traceable.regular notUndef cfaOnly follows tracks
    traceable.rules, standardFrame_represents standard traceable.regular⟩

/-- How far the signal context is from the start of its frame. -/
def SigcontextFormat.offset : SigcontextFormat → Word 32
  | .linuxOldRtSigframe => 8 + siginfoSize + ucMcontextOff
  | .linuxRtSigframe => siginfoSize + ucMcontextOff
  | .linuxSigframe => ucMcontextOff
  | .linuxOldSigframe | .none => 0

theorem sigcontextAt_addr (rt : Bool) (word spAddr : Word 32) :
    (sigcontextAt rt word spAddr).2 = spAddr + (sigcontextAt rt word spAddr).1.offset := by
  unfold sigcontextAt
  split
  · split
    · simp only [SigcontextFormat.offset, add_assoc]
    · simp only [SigcontextFormat.offset, add_assoc]
  · split
    · rfl
    · exact (add_zero spAddr).symm

theorem offset_held (format : SigcontextFormat) :
    (format.offset.setWidth 30).signExtend 32 = format.offset := by
  cases format with
  | none => decide
  | linuxSigframe => decide
  | linuxRtSigframe => decide
  | linuxOldSigframe => decide
  | linuxOldRtSigframe => decide

/-- A signal frame as it is recorded leads to the signal context of one of its format. -/
theorem RecordedSignal.eq {format : SigcontextFormat} (recorded : RecordedSignal host f format) :
    f.frameType = .sigreturn ∧ f.cfaRegOffset.signExtend 32 = format.offset := by
  obtain ⟨as, c, rt, word, rfl, rfl⟩ := recorded
  refine ⟨rfl, ?_⟩
  have apart : (sigcontextAt rt word c.cfa).2 - c.cfa = (sigcontextAt rt word c.cfa).1.offset := by
    rw [sigcontextAt_addr, add_sub_cancel_left]
  simp only [signalStep, apart, offset_held]

theorem sigcontextLoc_r7 (scAddr : Word 32) : sigcontextLoc scAddr r7 = memLoc (scAddr + 0x28) := by
  rw [sigcontextLoc, if_pos (by decide), add_assoc]
  rfl

theorem sigcontextLoc_sp (scAddr : Word 32) : sigcontextLoc scAddr sp = memLoc (scAddr + 0x40) := by
  rw [sigcontextLoc, if_pos (by decide), add_assoc]
  rfl

theorem sigcontextLoc_lr (scAddr : Word 32) : sigcontextLoc scAddr lr = memLoc (scAddr + 0x44) := by
  rw [sigcontextLoc, if_pos (by decide), add_assoc]
  rfl

/-- Both paths leave a signal frame for the registers of its context. -/
theorem signalFrame_inStep (null : NullUnmapped as) (inStep : InStep host as walk)
    {validate : Bool} {fast : TraceRegs} {lrLoc : Loc 32} {slow : ArmCursor}
    (walkable : Walkable host as budget walk (.signal f))
    (traced : traceFrame host validate as walk.lrLoc f walk.fast = .ok fast)
    (stepped : handleSignalFrame host as walk.slow = (.ok true, slow)) :
    InStep host as { fast, lrLoc, slow, hasLr := fast.lr ≠ some 0 } := by
  obtain ⟨rt, word, first, isSignal, rfl⟩ := handleSignalFrame_eq_ok stepped
  obtain ⟨kind, offset⟩ := (walkable rt word first isSignal).eq
  have atContext : walk.fast.cfa + f.cfaRegOffset.signExtend 32 =
      (sigcontextAt rt word walk.slow.cfa).2 := by
    rw [offset, inStep.follows.cfa, sigcontextAt_addr]
  simp only [traceFrame, kind, atContext] at traced
  obtain ⟨pcWord, -, traced⟩ := bind_eq_ok.mp traced
  obtain ⟨r7Word, r7Read, traced⟩ := bind_eq_ok.mp traced
  obtain ⟨spWord, spRead, traced⟩ := bind_eq_ok.mp traced
  obtain ⟨lrWord, lrRead, traced⟩ := bind_eq_ok.mp traced
  cases traced
  have read {addr val : Word 32}
      (stored : accessMemFast host.localOnly validate as addr = .ok val) :
      (memLoc addr).get host.localOnly as = .ok val :=
    null.get_memLoc.mpr (null.accessMemFast.mp stored)
  have atSp : (signalStep host as walk.slow rt word).cfa = spWord := by
    simp only [signalStep, sigcontextLoc_sp, Loc.getInto, read spRead]
  have atR7 : (signalStep host as walk.slow rt word).loc r7 =
      memLoc ((sigcontextAt rt word walk.slow.cfa).2 + 0x28) := sigcontextLoc_r7 _
  have atLr : (signalStep host as walk.slow rt word).loc lr =
      memLoc ((sigcontextAt rt word walk.slow.cfa).2 + 0x44) := sigcontextLoc_lr _
  refine ⟨⟨atSp.symm, atSp.symm, ?_⟩, ?_⟩
  · rw [atR7]
    exact read r7Read
  · intro hasLr
    have notNull : lrWord ≠ 0 := by simpa using hasLr
    refine ⟨lrWord, rfl, notNull, ?_⟩
    rw [atLr]
    exact read lrRead

theorem Passes.inStep {passed : Passed} (null : NullUnmapped as)
    (passes : Passes host as budget walk passed walk')
    (walkable : Walkable host as budget walk passed) (inStep : InStep host as walk) :
    InStep host as walk' := by
  cases passes with
  | @standard f rs searched slow validate fast lrLoc same traced stepped =>
      obtain ⟨agree, -⟩ := Traceable.agree walkable null inStep validate
      have reached := agree.leads fast traced ⟨true, by rw [stepped]⟩
      have atSp := agree.sp fast traced reached
      rw [stepped] at reached atSp
      have sameSp : fast.sp = slow.cfa := (Except.ok.inj atSp).symm
      refine ⟨⟨reached.cfa.symm, sameSp, reached.r7⟩, ?_⟩
      intro hasLr
      simp at hasLr
  | signal traced stepped => exact signalFrame_inStep null inStep walkable traced stepped

theorem TraceRun.inStep (null : NullUnmapped as) (run : TraceRun host as budget walk) :
    InStep host as walk :=
  run.invariant (fun _ begins => begins.inStep) fun _ _ _ inStep walkable passes =>
    passes.inStep null walkable inStep

/-- Wherever both paths have come over traceable and signal frames, they agree on the
    next traceable one, and what was recorded of it stands for its row. -/
theorem armTraceRun_agrees {validate : Bool} (null : NullUnmapped as)
    (run : TraceRun host as budget walk)
    (traceable : Traceable host as budget walk f rs searched) :
    Agree host as searched (traceFrame host validate as walk.lrLoc f walk.fast)
        (applyRegState host.target as budget searched rs) ∧
      RepresentsRow rs f :=
  traceable.agree null (run.inStep null) validate

end Walk

/-! ## A process -/

def linuxHost : Host where
  localOnly := false

/-- A process whose memory holds these instructions at `0x1000`, and a saved R7 and link
    register at `0x2008`. -/
def frameProcess (program : List Byte) : AddrSpace 32 :=
  { processOf [(7, 0x3000), (13, 0x2000), (14, 0x403000), (15, 0x401010)]
      [(0x2008, 0x3000), (0x200c, 0x402000)] with
    readByte := fun addr =>
      match program[(addr - 0x1000).toNat]? with
      | some byte => .ok byte
      | none => .error .inval }

def frameContext (program : List Byte) : CfiContext 128 32 where
  target := linuxHost.target.cfi
  arm := true
  cursorSpace := frameProcess program
  localSpace := frameProcess program

def frameProcInfo : ProcInfo 32 where
  startIp := 0x401000
  endIp := 0x401100
  format := .table
  unwindInfo := some
    { cieInstrStart := 0x1000
      cieInstrEnd := 0x1008
      fdeInstrStart := 0x1008
      fdeInstrEnd := 0x1008
      codeAlign := 1
      dataAlign := -4
      retAddrColumn := 14 }

def frameRow (program : List Byte) : RegState 128 32 :=
  match createStateRecordFor (frameContext program) 8 frameProcInfo 0x401010 true with
  | .ok sr => sr.rsCurrent
  | .error _ => {}

/-- The cursor that `trace_init_addr` makes. -/
def frameCursor : ArmCursor where
  cfa := 0x2000
  ip := 0x401011
  loc r := if r ≤ pc then ⟨BitVec.ofNat 32 r, .reg⟩ else nullLoc
  stashFrames := true
  tdep := {}

def frameStep (program : List Byte) : Result Bool × ArmCursor :=
  applyRegState linuxHost.target (frameProcess program) 0 frameCursor (frameRow program)

/-- The start of a trace there. -/
def frameWalk : Traced where
  fast :=
    { cfa := 0x2000, pc := 0x401011, r7 := 0x3000, lr := none, sp := 0x2000, usePrevInstr := true }
  lrLoc := frameCursor.loc lr
  slow := frameCursor
  hasLr := false

/-- `def_cfa sp, 16`, `offset lr, -4` and `offset r7, -8`. -/
def recordProgram : List Byte := [0x0c, 0x0d, 0x10, 0x8e, 0x01, 0x87, 0x02, 0x00]

theorem frameWalk_begins (program : List Byte) :
    TraceRun linuxHost (frameProcess program) 0 frameWalk :=
  .start ⟨rfl, rfl, rfl, rfl, rfl, rfl⟩

theorem frameProcess_null (program : List Byte) : NullUnmapped (frameProcess program) := by
  intro val read
  cases read

set_option maxRecDepth 2000 in
theorem recordProgram_traceable :
    Traceable linuxHost (frameProcess recordProgram) 0 frameWalk
      (frameStep recordProgram).2.tdep.frameInfo (frameRow recordProgram) frameCursor where
  created := ⟨frameContext recordProgram, 8, frameProcInfo, 0x401010, true, _, rfl, rfl, rfl⟩
  recorded := ⟨frameProcess recordProgram, 0, frameCursor, rfl, rfl, rfl, rfl⟩
  kind := rfl
  regular := ⟨by decide, by decide, by decide⟩
  hasLr kept := absurd kept (by decide)
  same := ⟨rfl, rfl, rfl, rfl, rfl⟩
  rules cfa base := by
    obtain rfl : 0x2010 = cfa := Except.ok.inj base
    exact ⟨_, rfl, rfl⟩

theorem savedPair_agrees :
    Agree linuxHost (frameProcess recordProgram) frameCursor
        (traceFrame linuxHost false (frameProcess recordProgram) frameWalk.lrLoc
          (frameStep recordProgram).2.tdep.frameInfo frameWalk.fast)
        (frameStep recordProgram) ∧
      RepresentsRow (frameRow recordProgram) (frameStep recordProgram).2.tdep.frameInfo :=
  armTraceRun_agrees (frameProcess_null _) (frameWalk_begins _) recordProgram_traceable

/-- `def_cfa sp, 16`, `offset lr, -4` and `same_value sp`. -/
def sameSpProgram : List Byte := [0x0c, 0x0d, 0x10, 0x8e, 0x01, 0x08, 0x0d, 0x00]

/-- A frame that keeps SP is recorded as standard. The fast path then takes the CFA for
    it, as it says it does. -/
theorem keptSp_disagrees :
    TraceRun linuxHost (frameProcess sameSpProgram) 0 frameWalk ∧
    (frameStep sameSpProgram).2.tdep.frameInfo.frameType = .standard ∧
    (frameStep sameSpProgram).1 = .ok true ∧
    ∃ regs slowSp,
      traceFrame linuxHost false (frameProcess sameSpProgram) frameWalk.lrLoc
        (frameStep sameSpProgram).2.tdep.frameInfo frameWalk.fast = .ok regs ∧
      ((frameStep sameSpProgram).2.loc sp).get false (frameProcess sameSpProgram) = .ok slowSp ∧
      regs.sp ≠ slowSp := by
  refine ⟨frameWalk_begins _, rfl, rfl, ⟨0x2010, 0x402000, 0x3000, none, 0x2010, true⟩, 0x2000, rfl,
    rfl, ?_⟩
  decide

end Libunwind.ArmLinux
