import Libunwind.Dwarf.Step
import Libunwind.X64.Frame

/-! # `unw_step` on x86_64

A step goes by the unwind tables. Where these know nothing of the frame it
tries the vsyscall page, a PLT entry, a call through a bad pointer, and the
chain of frame pointers, each of which moves the cursor in its own way.
-/

namespace Libunwind.X86_64

open Dwarf

/-- How libunwind was built, and what it finds in its host. -/
structure Host where
  localOnly : Bool
  /-- `DWARF_REG_LOC`. -/
  regLoc : Int → Loc 64 := fun r => ⟨BitVec.ofInt 64 r, .reg⟩
  /-- The first address of the vsyscall page, and the one behind its last. -/
  vsyscall : Option (Word 64 × Word 64)

namespace Host

variable (host : Host)

/-- The target of x86_64 Linux as this host builds it. -/
def target : Target 17 64 Extra :=
  { X86_64.target host.localOnly with regLoc := host.regLoc }

/-- `is_vsyscall`. -/
def isVsyscall (c : X86Cursor) : Bool :=
  match host.vsyscall with
  | some (start, stop) => decide (start ≤ c.ip) && decide (c.ip < stop)
  | none => false

/-- `common_init`, and what it leaves of the cursor. -/
def commonInit (as : AddrSpace 64) (usePrevInstr : Bool) (frameInfo : Frame) : Result X86Cursor := do
  let loc (r : Fin 17) : Loc 64 := host.regLoc r
  let ip ← (loc rip).get host.localOnly as
  let cfa ← (loc rsp).get host.localOnly as
  pure { cfa, ip, loc, usePrevInstr, tdep := { frameInfo } }

end Host

section Source

variable (host : Host) (as : AddrSpace 64) (c : X86Cursor)

/-- The step out of the vsyscall page. -/
def vsyscallStep : X86Cursor :=
  { c with
    tdep := { c.tdep with
      frameInfo := { c.tdep.frameInfo with
        cfaRegOffset := 8, cfaRegRsp := true, frameType := .guessed } }
    loc := Function.update c.loc rip (memLoc c.cfa)
    cfa := c.cfa + 8 }

/-- `x86_64_os_step`. -/
def osStep : Option X86Cursor :=
  if host.isVsyscall c then some (vsyscallStep c) else none

/-- `_is_plt_entry`. -/
def isPltEntry : Bool :=
  match as.accessMem c.ip, as.accessMem (c.ip + 8) with
  | .ok w0, .ok w1 =>
      w0 &&& 0xffff == 0x25ff && (w0 >>> 48) &&& 0xff == 0x68 && (w1 >>> 24) &&& 0xff == 0xe9
  | _, _ => false

/-- The step over a PLT entry. -/
def pltStep : X86Cursor :=
  let retLoc : Loc 64 := memLoc c.cfa
  let newRsp : Loc 64 := ⟨c.cfa + 8, .val⟩
  { c with
    tdep := { c.tdep with
      frameInfo := { c.tdep.frameInfo with
        cfaRegOffset := 8, cfaRegRsp := true, frameType := .standard } }
    loc := Function.update (Function.update c.loc rip retLoc) rsp newRsp
    cfa := newRsp.getInto host.localOnly as c.cfa
    ip := retLoc.getInto host.localOnly as c.ip }

/-- Where a walk says that there is no caller. -/
def endChain : X86Cursor :=
  { c with
    loc := Function.update (Function.update (Function.update c.loc rbp nullLoc) rsp nullLoc) rip
      nullLoc
    ip := 0 }

/-- The step over a call that has only pushed its return address. -/
def ripFixupStep (sp newIp : Word 64) : X86Cursor :=
  let ipLoc : Loc 64 := ⟨newIp, .val⟩
  let spLoc : Loc 64 := ⟨sp + 8, .val⟩
  { c with
    tdep := { c.tdep with
      frameInfo :=
        { cfaRegOffset := 8, cfaRegRsp := true, rbpCfaOffset := -1, rspCfaOffset := -1
          frameType := .other } }
    loc := Function.update (Function.update c.loc rip ipLoc) rsp spLoc
    cfa := spLoc.getInto host.localOnly as c.cfa
    ip := ipLoc.getInto host.localOnly as c.ip
    usePrevInstr := true }

/-- `_try_rip_fixup`. -/
def tryRipFixup : Result Unit × X86Cursor :=
  match (c.loc rsp).get host.localOnly as with
  | .error fault => (.error fault, c)
  | .ok sp =>
      match (memLoc sp).get host.localOnly as with
      | .error fault => (.error fault, c)
      | .ok newIp =>
          if newIp = 0 then (.ok (), endChain c)
          else
            match (memLoc newIp).get host.localOnly as with
            | .error _ => (.error (.err .badframe), c)
            | .ok _ => (.ok (), ripFixupStep host as c sp newIp)

/-- The step over a frame that has pushed `rbp` and points it there. -/
def rbpWalkStep (curRbp newRbp : Word 64) : X86Cursor :=
  let ipLoc : Loc 64 := memLoc (curRbp + 8)
  let spLoc : Loc 64 := memLoc (curRbp + 16)
  { c with
    tdep := { c.tdep with
      frameInfo := { c.tdep.frameInfo with
        frameType := .guessed, cfaRegRsp := false, cfaRegOffset := 16, rbpCfaOffset := -16 } }
    loc := Function.update (Function.update (Function.update c.loc rbp ⟨newRbp, .val⟩) rip ipLoc)
      rsp spLoc
    cfa := spLoc.getInto host.localOnly as c.cfa
    ip := ipLoc.getInto host.localOnly as c.ip
    usePrevInstr := true }

/-- `_try_rbp_frame_walk`. -/
def tryRbpFrameWalk : Result Unit × X86Cursor :=
  match (c.loc rbp).get host.localOnly as with
  | .error fault => (.error fault, c)
  | .ok curRbp =>
      if curRbp < c.cfa then (.error (.err .badframe), c)
      else
        match (memLoc curRbp).get host.localOnly as with
        | .error fault => (.error fault, c)
        | .ok newRbp =>
            if newRbp < c.cfa ∨ 0x4000 < newRbp - c.cfa then (.error (.err .badframe), endChain c)
            else (.ok (), rbpWalkStep host as c curRbp newRbp)

/-- The last resort: the stack pointer where the code at `ip` cannot be read, else
    the frame pointer. -/
def walk : Result Unit × X86Cursor :=
  match (memLoc c.ip).get host.localOnly as with
  | .error _ => tryRipFixup host as c
  | .ok _ => tryRbpFrameWalk host as c

/-- The last resort, and the end of the call chain. -/
def walkStep : Result Bool × X86Cursor :=
  let (walked, c) := walk host as c
  if c.ip = 0 ∧ (c.loc rbp).isNull host.localOnly then
    (.ok false, { c with loc := fun _ => nullLoc })
  else (.ok walked.isOk, c)

/-- `_unw_step_fallback`. -/
def unwStepFallback : Result Bool × X86Cursor :=
  match osStep host c with
  | some c => (.ok true, c)
  | none =>
      -- `x86_64_handle_signal_frame` does nothing but fail
      if c.tdep.rtSigframe then (.error (.err .badframe), c)
      else if isPltEntry as c then (.ok true, pltStep host as c)
      else walkStep host as c

/-- The cursor that `unw_step` hands to `dwarf_step`. -/
def clearSigcontext : X86Cursor :=
  { c with tdep := { c.tdep with rtSigframe := false } }

/-- `unw_step`. -/
def unwStep (space : StepSpace 17 64) : Result Bool × X86Cursor :=
  match dwarfStep host.target space (clearSigcontext c) with
  | (.error (.err .noinfo), c) =>
      let (stepped, next) := unwStepFallback host space.as c
      -- a step that changes neither `ip` nor the CFA ends the chain
      (stepped.map fun more => more && !(next.ip == c.ip && next.cfa == c.cfa), next)
  | stepped => stepped

end Source

/-! ## The locations that a step sets -/

section Locations

variable (host : Host) (as : AddrSpace 64) (c : X86Cursor) (sp newIp curRbp newRbp : Word 64)

@[simp] theorem rip_ne_rsp : rip ≠ rsp := by decide

@[simp] theorem rbp_ne_rsp : rbp ≠ rsp := by decide

@[simp] theorem rbp_ne_rip : rbp ≠ rip := by decide

@[simp] theorem rsp_ne_rip : rsp ≠ rip := by decide

@[simp] theorem vsyscallStep_rip : (vsyscallStep c).loc rip = memLoc c.cfa := by
  simp [vsyscallStep]

@[simp] theorem vsyscallStep_rbp : (vsyscallStep c).loc rbp = c.loc rbp := by
  simp [vsyscallStep]

@[simp] theorem vsyscallStep_rsp : (vsyscallStep c).loc rsp = c.loc rsp := by
  simp [vsyscallStep]

@[simp] theorem pltStep_rip : (pltStep host as c).loc rip = memLoc c.cfa := by
  simp [pltStep]

@[simp] theorem pltStep_rbp : (pltStep host as c).loc rbp = c.loc rbp := by
  simp [pltStep]

@[simp] theorem pltStep_rsp : (pltStep host as c).loc rsp = ⟨c.cfa + 8, .val⟩ := by
  simp [pltStep]

@[simp] theorem ripFixupStep_rip : (ripFixupStep host as c sp newIp).loc rip = ⟨newIp, .val⟩ := by
  simp [ripFixupStep]

@[simp] theorem rbpWalkStep_rip :
    (rbpWalkStep host as c curRbp newRbp).loc rip = memLoc (curRbp + 8) := by
  simp [rbpWalkStep]

@[simp] theorem rbpWalkStep_rbp :
    (rbpWalkStep host as c curRbp newRbp).loc rbp = ⟨newRbp, .val⟩ := by
  simp [rbpWalkStep]

@[simp] theorem rbpWalkStep_rsp :
    (rbpWalkStep host as c curRbp newRbp).loc rsp = memLoc (curRbp + 16) := by
  simp [rbpWalkStep]

end Locations

/-! ## The alternatives -/

section Cases

variable (host : Host) (as : AddrSpace 64) (c : X86Cursor)

/-- `_try_rip_fixup` finds a return address at the stack pointer. -/
structure CallsBadPointer (sp newIp : Word 64) : Prop where
  unreadable : ∃ fault, (memLoc c.ip).get host.localOnly as = .error fault
  stackPointer : (c.loc rsp).get host.localOnly as = .ok sp
  returnAddress : (memLoc sp).get host.localOnly as = .ok newIp
  notNull : newIp ≠ 0
  code : ∃ word, (memLoc newIp).get host.localOnly as = .ok word

/-- `_try_rbp_frame_walk` finds a frame record at the frame pointer. -/
structure HasFrameRecord (curRbp newRbp : Word 64) : Prop where
  code : ∃ word, (memLoc c.ip).get host.localOnly as = .ok word
  framePointer : (c.loc rbp).get host.localOnly as = .ok curRbp
  aboveCfa : ¬ curRbp < c.cfa
  saved : (memLoc curRbp).get host.localOnly as = .ok newRbp
  savedAbove : ¬ newRbp < c.cfa
  savedNear : ¬ 0x4000 < newRbp - c.cfa

/-- How the last resort comes back. -/
inductive WalkedBy : Result Bool → X86Cursor → Prop where
  | kept : WalkedBy (.ok false) c
  | ended {c' : X86Cursor} : (c'.loc = fun _ => nullLoc) → c'.ip = 0 → WalkedBy (.ok false) c'
  | call {sp newIp : Word 64} : CallsBadPointer host as c sp newIp →
      WalkedBy (.ok true) (ripFixupStep host as c sp newIp)
  | record {curRbp newRbp : Word 64} : HasFrameRecord host as c curRbp newRbp →
      WalkedBy (.ok true) (rbpWalkStep host as c curRbp newRbp)

/-- A walk that does not end the chain moved the cursor, or left it alone. -/
theorem walk_cases :
    (walk host as c).2 = endChain c ∨ ((walk host as c).1.isOk = false ∧ (walk host as c).2 = c) ∨
    (∃ sp newIp, CallsBadPointer host as c sp newIp ∧
      walk host as c = (.ok (), ripFixupStep host as c sp newIp)) ∨
    ∃ curRbp newRbp, HasFrameRecord host as c curRbp newRbp ∧
      walk host as c = (.ok (), rbpWalkStep host as c curRbp newRbp) := by
  unfold walk
  cases code : (memLoc c.ip).get host.localOnly as with
  | error fault =>
      simp only [tryRipFixup]
      cases stackPointer : (c.loc rsp).get host.localOnly as with
      | error fault => exact .inr (.inl ⟨rfl, rfl⟩)
      | ok sp =>
          simp only
          cases returnAddress : (memLoc sp).get host.localOnly as with
          | error fault => exact .inr (.inl ⟨rfl, rfl⟩)
          | ok newIp =>
              simp only
              split
              next => exact .inl rfl
              next notNull =>
                cases called : (memLoc newIp).get host.localOnly as with
                | error fault => exact .inr (.inl ⟨rfl, rfl⟩)
                | ok word =>
                    exact .inr (.inr (.inl ⟨sp, newIp, ⟨⟨fault, code⟩, stackPointer, returnAddress,
                      notNull, word, called⟩, rfl⟩))
  | ok word =>
      simp only [tryRbpFrameWalk]
      cases framePointer : (c.loc rbp).get host.localOnly as with
      | error fault => exact .inr (.inl ⟨rfl, rfl⟩)
      | ok curRbp =>
          simp only
          split
          next => exact .inr (.inl ⟨rfl, rfl⟩)
          next above =>
            cases saved : (memLoc curRbp).get host.localOnly as with
            | error fault => exact .inr (.inl ⟨rfl, rfl⟩)
            | ok newRbp =>
                simp only
                split
                next => exact .inl rfl
                next sane =>
                  rw [not_or] at sane
                  exact .inr (.inr (.inr ⟨curRbp, newRbp, ⟨⟨word, code⟩, framePointer, above, saved,
                    sane.1, sane.2⟩, rfl⟩))

theorem walkStep_walkedBy :
    WalkedBy host as c (walkStep host as c).1 (walkStep host as c).2 := by
  unfold walkStep
  dsimp only
  split
  next ended => exact .ended rfl ended.1
  next going =>
    obtain ends | ⟨failed, same⟩ | ⟨sp, newIp, call, same⟩ | ⟨curRbp, newRbp, record, same⟩ :=
      walk_cases host as c
    · rw [ends] at going
      exact absurd ⟨rfl, Loc.isNull_nullLoc _⟩ going
    · rw [failed, same]
      exact .kept
    · rw [same]
      exact .call call
    · rw [same]
      exact .record record

/-- How `_unw_step_fallback` comes back. -/
inductive FellBack : Result Bool → X86Cursor → Prop where
  | hook {c' : X86Cursor} : osStep host c = some c' → FellBack (.ok true) c'
  | signal : osStep host c = none → c.tdep.rtSigframe = true → FellBack (.error (.err .badframe)) c
  | plt : osStep host c = none → c.tdep.rtSigframe = false → isPltEntry as c = true →
      FellBack (.ok true) (pltStep host as c)
  | walked {result : Result Bool} {c' : X86Cursor} : osStep host c = none →
      c.tdep.rtSigframe = false → isPltEntry as c = false → WalkedBy host as c result c' →
      FellBack result c'

theorem unwStepFallback_fellBack :
    FellBack host as c (unwStepFallback host as c).1 (unwStepFallback host as c).2 := by
  unfold unwStepFallback
  cases hook : osStep host c with
  | some c' => exact .hook hook
  | none =>
      simp only
      split
      next signal => exact .signal hook signal
      next plain =>
        have plain := Bool.eq_false_iff.mpr plain
        split
        next plt => exact .plt hook plain plt
        next other =>
          exact .walked hook plain (Bool.eq_false_iff.mpr other) (walkStep_walkedBy host as c)

/-- A step goes by the unwind tables, or by the fallback. -/
theorem unwStep_cases (space : StepSpace 17 64) :
    (dwarfStep host.target space (clearSigcontext c) = unwStep host c space ∧
        (unwStep host c space).1 ≠ .error (.err .noinfo)) ∨
      ∃ c₁ result next,
        dwarfStep host.target space (clearSigcontext c) = (.error (.err .noinfo), c₁) ∧
        FellBack host space.as c₁ result next ∧
        unwStep host c space = (result.map fun more =>
          more && !(next.ip == c₁.ip && next.cfa == c₁.cfa), next) := by
  unfold unwStep
  rcases dwarfStep host.target space (clearSigcontext c) with ⟨result, c₁⟩
  split
  next c₁ same =>
    cases same
    exact .inr ⟨c₁, _, _, rfl, unwStepFallback_fellBack host space.as c₁, rfl⟩
  next other =>
    refine .inl ⟨rfl, fun noinfo => ?_⟩
    exact other c₁ (Prod.ext noinfo rfl)

end Cases

/-! ## A stopped process -/

/-- A host with the vsyscall page where Linux has it. -/
def linuxHost : Host where
  localOnly := false
  vsyscall := some (0xffffffffff600000, 0xffffffffff601000)

/-- What `common_init` makes of a process that is stopped there. -/
def stoppedCursor (ip cfa : Word 64) (usePrevInstr : Bool) : X86Cursor where
  cfa
  ip
  loc r := linuxHost.regLoc r
  usePrevInstr
  tdep := {}

/-- The two words of a PLT entry. -/
def pltEntryAt (ip : Word 64) : List (Word 64 × Word 64) :=
  [(ip, 0x00680000000025ff), (ip + 8, 0x00000000e9000000)]

end Libunwind.X86_64
