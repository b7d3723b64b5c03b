import Libunwind.Dwarf.Step
import Libunwind.A64.Frame

/-! # `unw_step` on aarch64

A signal trampoline is recognised by its code. Every other frame is stepped over
by the unwind tables, and where these know nothing of it, by the frame record or
the link register; which of the two holds the return address is read off the
instructions of the procedure.
-/

namespace Libunwind.AArch64

open Dwarf

/-- `common_init`, on the memory of the cursor. -/
def Host.commonInit (host : Host) (as : AddrSpace 64) (before : A64Cursor) (usePrevInstr : Bool) :
    Result A64Cursor := do
  let loc (r : Fin 97) : Loc 64 :=
    if r ≤ pstate ∨ r = vg ∨ (v0 ≤ r ∧ r ≤ v31) then host.regLoc r
    else if r < v0 then nullLoc
    else before.loc r
  let ip ← (loc pc).get host.localOnly as
  let cfa ← (loc sp).get host.localOnly as
  pure { before with
    ip, cfa, loc, usePrevInstr
    stashFrames := false
    piValid := false
    piIsDynamic := false
    hint := 0
    prevRs := 0
    tdep := { frameInfo := before.tdep.frameInfo } }

/-! ## Signal frames -/

/-- `UC_MCONTEXT_OFF`, behind the `siginfo_t`. -/
def sigcontextOff : Word 64 := 128 + 0xb0

/-- `LINUX_SC_RESERVED_OFF`. -/
def scReservedOff : Word 64 := 0x120

/-- `unw_is_signal_frame`. -/
def unwIsSignalFrame (as : AddrSpace 64) (c : A64Cursor) : Result Bool :=
  if c.ip = 0 then pure false
  else do
    let w0 ← ofAccess (as.accessMem c.ip)
    pure (w0 &&& 0xd4000001d2801168 == 0xd4000001d2801168)

/-- Where a signal context keeps a register. -/
def sigcontextLoc (scAddr : Word 64) (r : Fin 97) : Loc 64 :=
  if r < x29 then memLoc (scAddr + 0x08 + 8 * BitVec.ofNat 64 r)
  else if r = x29 then memLoc (scAddr + 0x0f0)
  else if r = x30 then memLoc (scAddr + 0x0f8)
  else if r = sp then memLoc (scAddr + 0x100)
  else if r = pc then memLoc (scAddr + 0x108)
  else if r = pstate then memLoc (scAddr + 0x110)
  else nullLoc

/-- The sections of `get_sve_vl_signal_loc` from an offset on; the location of the
    vector length, when there is one. -/
def sveSection (as : AddrSpace 64) (resAddr : Word 64) :
    Nat → Word 64 → Result (Option (Loc 64))
  | 0, _ => .error .timeout
  | rounds + 1, sectionOff =>
      if sectionOff < 4096 then do
        let (magic, _) ← readu32 as (resAddr + sectionOff + 0x0)
        let (size, _) ← readu32 as (resAddr + sectionOff + 0x4)
        if magic = 0 then
          -- end marker, size must be 0
          if size = 0 then pure none else .error (.err .unspec)
        else if magic = 0x53564501 then
          -- must be big enough so that the 16 bit VL value can be accessed
          if size < 0x8 + 2 then .error (.err .unspec)
          else pure (some (memLoc (resAddr + sectionOff + 0x8)))
        else sveSection as resAddr rounds (sectionOff + size.setWidth 64)
      else pure none

section Source

variable (host : Host) (as : AddrSpace 64) (budget : Nat) (c : A64Cursor)

/-- `get_sve_vl_signal_loc`. -/
def getSveVlSignalLoc (scAddr : Word 64) : Result Bool × A64Cursor :=
  match sveSection as (scAddr + scReservedOff) budget 0 with
  | .error fault => (.error fault, c)
  | .ok none => (.ok true, c)
  | .ok (some loc) => (.ok true, { c with loc := Function.update c.loc vg loc })

/-- The cursor that `aarch64_handle_signal_frame` makes of a signal frame. -/
def signalStep : A64Cursor :=
  let scAddr := c.cfa + sigcontextOff
  let loc := sigcontextLoc scAddr
  { c with
    tdep :=
      { frameInfo := { c.tdep.frameInfo with
          frameType := .sigreturn, cfaRegOffset := (scAddr - c.cfa).setWidth 30 }
        rtSigframe := true
        sigcontextAddr := scAddr
        sigcontextSp := c.cfa
        sigcontextPc := c.ip }
    loc
    cfa := (loc sp).getInto host.localOnly as c.cfa
    ip := (loc pc).getInto host.localOnly as c.ip
    piValid := false
    usePrevInstr := false }

/-- `aarch64_handle_signal_frame`. -/
def handleSignalFrame : Result Bool × A64Cursor :=
  match unwIsSignalFrame as c with
  | .ok true =>
      getSveVlSignalLoc as budget (signalStep host as c) (c.cfa + sigcontextOff)
  | _ => (.error (.err .unspec), c)

/-! ## Where the return address is -/

/-- The four instructions of a PLT entry: `adrp`, `ldr`, `add`, `br`. -/
def isAdrp (insn : Word 64) : Bool := insn &&& 0x9f00001f == 0x90000010
def isLdr (insn : Word 64) : Bool := insn &&& 0xffc003ff == 0xf9400211
def isAdd (insn : Word 64) : Bool := insn &&& 0xff8003ff == 0x91000210
def isBr (insn : Word 64) : Bool := insn &&& 0xffffffff == 0xd61f0220

/-- The first half of a PLT entry, in one word. -/
def isPltStart (w0 : Word 64) : Bool := isAdrp w0 && isLdr (w0 >>> 32)

/-- The second half of a PLT entry, in one word. -/
def isPltEnd (w1 : Word 64) : Bool := isAdd w1 && isBr (w1 >>> 32)

/-- The two halves of a PLT entry around `ip`, where its word tells the place. -/
def pltHalves (w0 : Word 64) : Option (Word 64 × Word 64) :=
  let read (addr : Word 64) : Option (Word 64) := (as.accessMem addr).toOption
  if isPltStart w0 then (read (c.ip + 8)).map fun w1 => (w0, w1)
  else if isPltEnd w0 then (read (c.ip - 8)).map fun w => (w, w0)
  else if isLdr w0 && isAdd (w0 >>> 32) then do
    let w0 ← read (c.ip - 4)
    let w1 ← read (c.ip + 4)
    pure (w0, w1)
  else if isBr w0 then do
    let w0 ← read (c.ip - 12)
    let w1 ← read (c.ip - 4)
    pure (w0, w1)
  else some (w0, 0)

/-- `_is_plt_entry`. -/
def isPltEntry : Bool :=
  if as.bigEndian then false
  else
    match as.accessMem c.ip with
    | .error _ => false
    | .ok w0 =>
        match pltHalves as c w0 with
        | some (w0, w1) => isPltStart w0 && isPltEnd w1
        | none => false

/-- `sp_state_t`. -/
inductive SpState where
  | unchanged
  | adjusted
  | unknown
  deriving DecidableEq, Repr

/-- `frame_record_location_t`. -/
inductive FrameRecordLocation where
  | none
  | atSpOffset
  | atFp
  deriving DecidableEq, Repr

/-- `frame_state_t`. -/
structure FrameState where
  loc : FrameRecordLocation := .none
  offset : Int := 0
  deriving DecidableEq, Repr

/-- A branch of any kind. -/
def isBranch (insn : BitVec 32) : Bool :=
  insn &&& 0x7c000000 == 0x14000000 || insn &&& 0xff000000 == 0x54000000 ||
    insn &&& 0x7e000000 == 0x34000000 || insn &&& 0x7e000000 == 0x36000000 ||
    insn &&& 0xfe9fc000 == 0xd61f0000 || insn &&& 0xfe9f8000 == 0xd69f0000

/-- The immediate of `ADD` and `SUB`. -/
def addImmediate (insn : BitVec 32) : Int :=
  let imm := (insn >>> 10 &&& 0xfff).toNat
  if insn &&& 0x00400000 ≠ 0 then imm <<< 12 else imm

/-- The immediate of `STP` and `LDP`, in words. -/
def pairImmediate (insn : BitVec 32) : Int := (insn.extractLsb' 15 7).toInt

/-- The immediate of `STR` and `LDR`. -/
def storeImmediate (insn : BitVec 32) : Int := (insn.extractLsb' 12 9).toInt

/-- The registers of a load or store pair are x29 and x30. -/
def isFramePair (insn : BitVec 32) : Bool :=
  insn &&& 0x1f == 0x1d && (insn >>> 10) &&& 0x1f == 0x1e

/-- The stack pointer goes down by `imm`. -/
def spDown (state : SpState) (imm : Int) : SpState × Int :=
  if state = .unchanged then (.adjusted, imm) else (.unknown, 0)

/-- The stack pointer goes up by `imm`. -/
def spUp (state : SpState) (offset imm : Int) : SpState × Int :=
  if state = .adjusted ∧ offset = imm then (.unchanged, 0) else (.unknown, 0)

/-- `track_stack_pointer`. -/
def trackStackPointer (insn : BitVec 32) (state : SpState) (offset : Int) : SpState × Int :=
  if state = .unknown then (state, offset)
  else if state = .unchanged ∧ isBranch insn then (.unknown, 0)
  -- SUB SP, SP, #imm
  else if insn &&& 0xff0003ff = 0xd10003ff then
    if addImmediate insn = 0 then (state, offset) else spDown state (addImmediate insn)
  -- ADD SP, SP, #imm
  else if insn &&& 0xff0003ff = 0x910003ff then
    if addImmediate insn = 0 then (state, offset) else spUp state offset (addImmediate insn)
  -- STP Xt1, Xt2, [SP, #-imm]!
  else if insn &&& 0xffc003e0 = 0xa98003e0 then
    if isFramePair insn then (state, offset)
    else if pairImmediate insn < 0 then spDown state (-(pairImmediate insn * 8))
    else (.unknown, 0)
  -- LDP Xt1, Xt2, [SP], #imm
  else if insn &&& 0xffc003e0 = 0xa8c003e0 then
    if isFramePair insn then (state, offset)
    else if 0 < pairImmediate insn then spUp state offset (pairImmediate insn * 8)
    else (.unknown, 0)
  -- STR Xt, [SP, #-imm]!
  else if insn &&& 0xffe00fe0 = 0xf8000fe0 then
    if storeImmediate insn < 0 then spDown state (-storeImmediate insn) else (.unknown, 0)
  -- LDR Xt, [SP], #imm
  else if insn &&& 0xffe00fe0 = 0xf84007e0 then
    if 0 < storeImmediate insn then spUp state offset (storeImmediate insn) else (.unknown, 0)
  -- ADD/SUB SP, x29, #imm
  else if insn &&& 0xbf0003ff = 0x910003bf then (.unknown, 0)
  -- ADD/SUB SP, SP, Xm
  else if insn &&& 0xdfe003ff = 0x8b2003ff then (.unknown, 0)
  else (state, offset)

/-- `track_frame_record`. -/
def trackFrameRecord (insn : BitVec 32) (fs : FrameState) : FrameState :=
  match fs.loc with
  | .none =>
      -- STP x29, x30 stores a frame record; only the signed offset variant has an offset
      if insn &&& 0xfe407fff = 0xa8007bfd then
        { loc := .atSpOffset
          offset := if insn &&& 0xffc07fff = 0xa9007bfd then pairImmediate insn * 8 else 0 }
      else fs
  | .atSpOffset => if insn &&& 0xff0003ff = 0x910003fd then { loc := .atFp, offset := 0 } else fs
  | .atFp => if insn &&& 0xfe407fff = 0xa8407bfd then { loc := .none, offset := 0 } else fs

/-- What `get_frame_state` keeps while it goes through a procedure. -/
structure Scan where
  fs : FrameState := {}
  spState : SpState := .unchanged
  spOffset : Int := 0
  deriving DecidableEq, Repr

/-- One instruction of the procedure, unless it lies at `stop` or behind. -/
def Scan.track (stop addr : Word 64) (insn : BitVec 32) (scan : Scan) : Scan :=
  if stop ≤ addr then scan
  else
    let (spState, spOffset) := trackStackPointer insn scan.spState scan.spOffset
    { fs := trackFrameRecord insn scan.fs, spState, spOffset }

/-- The loop of `get_frame_state`, two instructions a round. -/
def scanProcedure (stop : Word 64) : Nat → Word 64 → Scan → Result FrameState
  | 0, _, _ => .error .timeout
  | rounds + 1, ip, scan =>
      if ip < stop then
        match as.accessMem ip with
        | .error _ => pure scan.fs
        | .ok word =>
            let scan := scan.track stop ip (word.setWidth 32)
            let scan := scan.track stop (ip + 4) ((word >>> 32).setWidth 32)
            scanProcedure stop rounds (ip + 8) scan
      -- use the SP offset if no frame record was found
      else pure (if scan.fs.loc = .none then { scan.fs with offset := scan.spOffset } else scan.fs)

/-- `get_frame_state`. -/
def getFrameState : Result FrameState :=
  if isPltEntry as c then pure {}
  else
    match host.getProcName c.ip with
    | none => pure {}
    | some offp => scanProcedure as c.ip budget (c.ip - offp) {}

/-! ## The step -/

/-- Where the frame pointer says that there is no caller. -/
def endChain : A64Cursor := { c with ip := 0 }

/-- The cursor after a step over the frame record at `record`. -/
def frameRecordStep (record : Word 64) : Result Bool × A64Cursor :=
  let loc : Fin 97 → Loc 64 :=
    Function.update (Function.update (Function.update (fun _ => nullLoc) x29 (memLoc record))
      x30 (memLoc (record + 8))) pc (memLoc (record + 8))
  let c := { c with loc }
  match (loc x29).get host.localOnly as with
  | .error fault => (.error fault, c)
  | .ok cfa =>
      match (loc pc).get host.localOnly as with
      | .error fault => (.error fault, { c with cfa })
      | .ok ip => (.ok true, { c with cfa, ip })

/-- The step over a frame whose record X29 points to; `fp` is what `unw_step` last
    read from X29. -/
def atFpStep (fp : Word 64) : Result Bool × A64Cursor :=
  match (c.loc x29).get host.localOnly as with
  | .ok fp => if fp = 0 then (.ok false, endChain c) else frameRecordStep host as c fp
  | .error _ => frameRecordStep host as c fp

/-- The step over a frame whose record is stored, but not pointed to by X29. -/
def atSpStep (offset : Int) : Result Bool × A64Cursor :=
  match (c.loc sp).get host.localOnly as with
  | .error fault => (.error fault, c)
  | .ok value =>
      let frameInfo :=
        { c.tdep.frameInfo with cfaRegOffset := BitVec.ofInt 30 offset, cfaRegSp := true }
      frameRecordStep host as { c with tdep := { c.tdep with frameInfo } }
        (value + BitVec.ofInt 64 offset)

/-- The step by the link register. -/
def linkRegisterStep (offset : Int) : Result Bool × A64Cursor :=
  let frameInfo :=
    { c.tdep.frameInfo with
      cfaRegSp := 0 < offset, cfaRegOffset := BitVec.ofInt 30 offset
      fpCfaOffset := -1, lrCfaOffset := -1, spCfaOffset := -1 }
  let retLoc := c.loc x30
  let c :=
    { c with
      tdep := { c.tdep with frameInfo }
      loc := Function.update (Function.update c.loc pc retLoc) x30 nullLoc }
  if retLoc.isNull host.localOnly then (.ok false, { c with ip := 0 })
  else
    match retLoc.get host.localOnly as with
    | .error fault => (.error fault, c)
    | .ok ip =>
        -- undo the stack frame allocation so the CFA is correct for the caller
        let cfa := if 0 < offset then c.cfa + BitVec.ofInt 64 offset else c.cfa
        (.ok (ip ≠ 0), { c with ip, cfa })

/-- What `unw_step` does when the unwind tables know nothing of the frame. -/
def stepFallback (fp : Word 64) : Result Bool × A64Cursor :=
  let frameType : FrameType := if isPltEntry as c then .standard else .guessed
  let c := { c with tdep := { c.tdep with frameInfo := { c.tdep.frameInfo with frameType } } }
  match getFrameState host as budget c with
  | .error fault => (.error fault, c)
  | .ok fs =>
      match fs.loc with
      | .atFp => atFpStep host as c fp
      | .atSpOffset => atSpStep host as c fs.offset
      | .none => linkRegisterStep host as c fs.offset

/-- Where `ip` cannot be read, `unw_step` takes the link register for it. -/
def recoverIp : A64Cursor :=
  match unwIsSignalFrame as c with
  | .ok _ => c
  | .error _ => { c with ip := (c.loc x30).getInto host.localOnly as c.ip }

/-- The cursor that `unw_step` hands to `dwarf_step`. -/
def clearSigcontext : A64Cursor :=
  { c with tdep := { c.tdep with rtSigframe := false } }

/-- The frame that `unw_step` asks the unwind tables for. -/
def searched : A64Cursor := clearSigcontext (recoverIp host as c)

/-- `unw_step`. -/
def unwStep (space : StepSpace 97 64) : Result Bool × A64Cursor :=
  if unwIsSignalFrame space.as c = .ok true then
    handleSignalFrame host space.as space.budget c
  else
    let x29Loc := c.loc x29
    if x29Loc.get host.localOnly space.as = .ok 0 then
      (.ok false, endChain (recoverIp host space.as c))
    else
      match dwarfStep host.target space (searched host space.as c) with
      | (.error (.err .noinfo), c) =>
          stepFallback host space.as space.budget c (x29Loc.getInto host.localOnly space.as 0)
      | stepped => stepped

/-- What a handled signal frame leads to: only the location of VG is not that of the
    signal context. -/
theorem handleSignalFrame_eq_ok {more : Bool} {c' : A64Cursor}
    (handled : handleSignalFrame host as budget c = (.ok more, c')) :
    c'.cfa = (signalStep host as c).cfa ∧ c'.ip = (signalStep host as c).ip ∧
      ∀ r, r ≠ vg → c'.loc r = sigcontextLoc (c.cfa + sigcontextOff) r := by
  unfold handleSignalFrame getSveVlSignalLoc at handled
  split at handled
  next =>
    split at handled
    next => cases congrArg Prod.fst handled
    next =>
      obtain ⟨-, rfl⟩ := Prod.mk.inj handled
      exact ⟨rfl, rfl, fun r _ => rfl⟩
    next vgLoc _ =>
      obtain ⟨-, rfl⟩ := Prod.mk.inj handled
      dsimp only
      exact ⟨rfl, rfl, fun r other => Function.update_of_ne other _ _⟩
  next => cases congrArg Prod.fst handled

/-- A step goes by the recogniser, by the end of the chain, by the unwind tables, or
    by the fallback. -/
inductive SteppedOver (space : StepSpace 97 64) : Result Bool → A64Cursor → Prop where
  | recognised : unwIsSignalFrame space.as c = .ok true →
      SteppedOver space (handleSignalFrame host space.as space.budget c).1
        (handleSignalFrame host space.as space.budget c).2
  | ended : unwIsSignalFrame space.as c ≠ .ok true →
      (c.loc x29).get host.localOnly space.as = .ok 0 →
      SteppedOver space (.ok false) (endChain (recoverIp host space.as c))
  | tables {result : Result Bool} {c' : A64Cursor} : unwIsSignalFrame space.as c ≠ .ok true →
      dwarfStep host.target space (searched host space.as c) = (result, c') →
      result ≠ .error (.err .noinfo) → SteppedOver space result c'
  | fallback {c₁ : A64Cursor} {fp : Word 64} : unwIsSignalFrame space.as c ≠ .ok true →
      dwarfStep host.target space (searched host space.as c) = (.error (.err .noinfo), c₁) →
      fp = (c.loc x29).getInto host.localOnly space.as 0 →
      SteppedOver space (stepFallback host space.as space.budget c₁ fp).1
        (stepFallback host space.as space.budget c₁ fp).2

theorem unwStep_steppedOver (space : StepSpace 97 64) :
    SteppedOver host c space (unwStep host c space).1 (unwStep host c space).2 := by
  unfold unwStep
  split
  next recognised => exact .recognised recognised
  next other =>
    dsimp only
    split
    next ended => exact .ended other ended
    next =>
      split
      next c₁ noinfo => exact .fallback other noinfo rfl
      next stepped notNoinfo =>
        refine .tables other rfl fun noinfo => ?_
        exact notNoinfo _ (Prod.ext noinfo rfl)

end Source

end Libunwind.AArch64
