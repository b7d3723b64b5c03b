import Libunwind.Library.BitField
import Libunwind.Dwarf.ApplyRegState
import Libunwind.Dwarf.CacheTransparency

/-! # Frames of x86_64

The target of x86_64 Linux, and the two halves of its fast stack walk:
`tdep_stash_frame` records how a frame is laid out while the slow path steps
over it, and the switch of `tdep_trace` steps over a recorded frame.
-/

namespace Libunwind.X86_64

open Dwarf

def rax : Fin 17 := 0
def rdx : Fin 17 := 1
def rbp : Fin 17 := 6
def rsp : Fin 17 := 7
def rip : Fin 17 := 16

/-- `unw_tdep_frame_type_t`. -/
inductive FrameType where
  | aligned
  | standard
  | sigreturn
  | other
  | guessed
  deriving DecidableEq, Repr

/-- `unw_tdep_frame_t`, with its bit-fields; the defaults are those of
    `trace_init_addr`. -/
structure Frame where
  frameType : FrameType := .other
  cfaRegRsp : Bool := true
  cfaRegOffset : BitVec 29 := 0
  rbpCfaOffset : BitVec 15 := -1
  rspCfaOffset : BitVec 15 := -1
  deriving DecidableEq, Repr

/-- What `struct cursor` has besides the DWARF cursor. -/
structure Extra where
  frameInfo : Frame := {}
  /-- `sigcontext_format` is `X86_64_SCF_LINUX_RT_SIGFRAME`. -/
  rtSigframe : Bool := false
  sigcontextAddr : Word 64 := 0
  deriving DecidableEq, Repr

abbrev X86Cursor := Cursor 17 64 Extra

/-- A register that a standard frame keeps, drops, or saves near the CFA. -/
def isStandardRule (rule : Rule 64) : Bool :=
  match rule.how with
  | .undef | .same | .cfa => true
  | .cfarel => decide (labs rule.val < 2 ^ 14) && rule.val + 1 != 0
  | _ => false

/-- The location of the return address; `apply_reg_state` has checked the column. -/
def returnLoc (d : X86Cursor) (rs : RegState 17 64) : Loc 64 :=
  if inRange : rs.retAddrColumn.toNat < 17 then d.loc ⟨rs.retAddrColumn.toNat, inRange⟩
  else nullLoc

/-- The offset of the CFA in a frame whose stack the compiler aligned. -/
def alignedOffset (as : AddrSpace 64) (rs : RegState 17 64) : Option (Word 64) :=
  let cfaRule := rs.reg (cfaRegColumn 17)
  let rbpRule := rs.reg (regColumn rbp)
  if cfaRule.how = .expr ∧ rbpRule.how = .expr then
    (dwarfStackAligned as cfaRule.val rbpRule.val).toOption
  else none

/-- CFA is register-relative offset off RBP or RSP; return address is saved at
    CFA-8; RBP and RSP are unsaved or saved at CFA+offset, offset != -1. -/
def isStandard (d : X86Cursor) (rs : RegState 17 64) : Bool :=
  let cfaRule := rs.reg (cfaRegColumn 17)
  decide (cfaRule.how = .reg) && (cfaRule.val == 6 || cfaRule.val == 7) &&
    decide (labs (rs.reg (cfaOffColumn 17)).val < 2 ^ 28) &&
    (returnLoc d rs).val == d.cfa - 8 &&
    isStandardRule (rs.reg (regColumn rbp)) && isStandardRule (rs.reg (regColumn rsp))

/-- The offset at which a rule saves its register, or the one recorded before. -/
def stashOffset (rule : Rule 64) (recorded : BitVec 15) : BitVec 15 :=
  match rule.how with
  | .cfarel => rule.val.setWidth 15
  | .cfa => 0
  | _ => recorded

/-- `tdep_stash_frame`, on the frame info `f`. -/
def stashFrame (as : AddrSpace 64) (d : X86Cursor) (rs : RegState 17 64) (f : Frame) : Frame :=
  let f := match alignedOffset as rs with
    | some offset =>
        { f with frameType := .aligned, cfaRegOffset := offset.setWidth 29, cfaRegRsp := false }
    | none => f
  if f.frameType = .other ∧ isStandard d rs then
    { frameType := .standard
      cfaRegRsp := (rs.reg (cfaRegColumn 17)).val == 7
      cfaRegOffset := (rs.reg (cfaOffColumn 17)).val.setWidth 29
      rbpCfaOffset := stashOffset (rs.reg (regColumn rbp)) f.rbpCfaOffset
      rspCfaOffset := stashOffset (rs.reg (regColumn rsp)) f.rspCfaOffset }
  else f

/-- `tdep_access_reg`, for reading. -/
def accessReg (localOnly : Bool) (as : AddrSpace 64) (c : X86Cursor) (reg : Int) :
    Result (Word 64) :=
  let fromLoc (r : Fin 17) : Result (Word 64) := (c.loc r).get localOnly as
  if reg = 17 then pure c.cfa
  else if valid : 0 ≤ reg ∧ reg.toNat < 17 then
    let r : Fin 17 := ⟨reg.toNat, valid.2⟩
    if r = rax ∨ r = rdx then
      match c.ehArgs r with
      | some arg => pure arg
      | none => fromLoc r
    else fromLoc r
  else .error (.err .badreg)

/-- The target of x86_64 Linux. -/
def target (localOnly : Bool) : Target 17 64 Extra where
  cfi := .x86_64
  localOnly := localOnly
  toUnwRegnum r := if r < 0 then .error .undefined else pure (if r < 17 then r else 0)
  regIp := 16
  accessReg := accessReg localOnly
  fetchFrame c := { c.tdep with
    rtSigframe := match c.pi.unwindInfo with
      | some dci => dci.signalFrame
      | none => false }
  cacheFrame c := c.tdep.rtSigframe
  reuseFrame c signalFrame :=
    if signalFrame then
      { frameInfo := { c.tdep.frameInfo with frameType := .sigreturn, cfaRegOffset := 0 }
        rtSigframe := true
        sigcontextAddr := c.cfa }
    else { c.tdep with rtSigframe := false }
  stashFrame as c rs := { c.tdep with frameInfo := stashFrame as c rs c.tdep.frameInfo }

/-- The flag that the register-state cache remembers is the one of the CIE. -/
theorem target_keepsSignalFrame (localOnly : Bool) (tables : UnwindTables 17 64) (c : X86Cursor) :
    KeepsSignalFrame (target localOnly) tables c := by
  intro fetched dci searched info
  rw [fetchProcInfo] at searched
  split at searched
  · exact nomatch searched
  · next found pi dynamic _ _ =>
      split at searched
      · cases found with
        | error code => exact nomatch searched
        | ok _ =>
            obtain ⟨-, rfl⟩ := Prod.mk.inj searched
            have isDci : pi.unwindInfo = some dci := info
            change (match pi.unwindInfo with | some dci => dci.signalFrame | none => false) = _
            rw [isDci]
      · exact nomatch searched

/-- The registers that `tdep_trace` follows. -/
structure TraceRegs where
  cfa : Word 64
  rip : Word 64
  rbp : Word 64
  rsp : Word 64
  usePrevInstr : Bool
  deriving DecidableEq, Repr

/-- The CFA of a frame whose CFA is relative to a register. -/
def Frame.cfa (f : Frame) (rbp rsp : Word 64) : Word 64 :=
  (if f.cfaRegRsp then rsp else rbp) + f.cfaRegOffset.signExtend 64

/-- The steps from a known CFA over a standard frame. -/
def Frame.standardStep (f : Frame) (access : Word 64 → Result (Word 64)) (cfa rbp : Word 64) :
    Result TraceRegs := do
  let rip ← access (cfa - 8)
  let rbp ← if f.rbpCfaOffset ≠ -1 then access (cfa + f.rbpCfaOffset.signExtend 64) else pure rbp
  -- don't bother reading RSP from DWARF, CFA becomes new RSP
  pure { cfa, rip, rbp, rsp := cfa, usePrevInstr := true }

theorem Frame.standardStep_eq_ok {f : Frame} {access : Word 64 → Result (Word 64)}
    {cfa b : Word 64} {regs : TraceRegs} :
    f.standardStep access cfa b = .ok regs ↔
      access (cfa - 8) = .ok regs.rip ∧
      (if f.rbpCfaOffset = -1 then regs.rbp = b
        else access (cfa + f.rbpCfaOffset.signExtend 64) = .ok regs.rbp) ∧
      regs.cfa = cfa ∧ regs.rsp = cfa ∧ regs.usePrevInstr = true := by
  rw [Frame.standardStep]
  constructor
  · intro ok
    obtain ⟨rip, ripRead, ok⟩ := bind_eq_ok.mp ok
    by_cases kept : f.rbpCfaOffset = -1
    · rw [if_neg (not_not.mpr kept)] at ok
      obtain rfl := Except.ok.inj ok
      exact ⟨ripRead, by rw [if_pos kept], rfl, rfl, rfl⟩
    · rw [if_pos kept] at ok
      obtain ⟨rbp, rbpRead, ok⟩ := bind_eq_ok.mp ok
      obtain rfl := Except.ok.inj ok
      refine ⟨ripRead, ?_, rfl, rfl, rfl⟩
      rw [if_neg kept]
      exact rbpRead
  · rintro ⟨rip, rbpIs, rfl, rspIs, back⟩
    obtain ⟨cfa, rip, rbp, rsp, usePrevInstr⟩ := regs
    obtain rfl : rsp = cfa := rspIs
    obtain rfl : usePrevInstr = true := back
    rw [rip, ok_bind]
    by_cases kept : f.rbpCfaOffset = -1
    · rw [if_pos kept] at rbpIs
      obtain rfl : rbp = b := rbpIs
      rw [if_neg (not_not.mpr kept)]
      rfl
    · rw [if_neg kept] at rbpIs
      rw [if_pos kept, rbpIs]
      rfl

/-- The switch of `tdep_trace`, from the current registers. -/
def traceFrame (localOnly validate : Bool) (as : AddrSpace 64) (f : Frame)
    (cfa rbp rsp : Word 64) : Result TraceRegs :=
  let access := accessMemFast localOnly validate as
  match f.frameType with
  | .guessed => f.standardStep (accessMemFast localOnly true as) (f.cfa rbp rsp) rbp
  | .standard => f.standardStep access (f.cfa rbp rsp) rbp
  | .sigreturn => do
      -- cfa now points to ucontext_t
      let uc := cfa + f.cfaRegOffset.signExtend 64
      let rip ← access (uc + 0xa8)
      let rbp ← access (uc + 0x78)
      let rsp ← access (uc + 0xa0)
      pure { cfa := rsp, rip, rbp, rsp, usePrevInstr := false }
  | .aligned => do
      let cfa ← access (f.cfa rbp rsp)
      let rip ← access (cfa - 8)
      let rbp ← access rbp
      pure { cfa, rip, rbp, rsp := cfa, usePrevInstr := true }
  | .other => .error (.err .stopunwind)

end Libunwind.X86_64
