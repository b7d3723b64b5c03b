import Libunwind.Dyn.Info
import Libunwind.Ia64.BuildScript
import Libunwind.Ia64.Parser

/-! # The creation of a state record

`create_state_record_for` reads the descriptors of a procedure, or the regions of one that was
generated. An alias among these has it called again, for another procedure and in the same record.
-/

namespace Libunwind.Ia64

open Dyn (DynOp DynRegionInfo)

/-! ## Operations -/

/-- `unw_dyn_operation_t` -/
inductive DynOperation where
  | stop
  | saveReg
  | spillFpRel
  | spillSpRel
  | add
  | popFrames
  | labelState
  | copyState
  | alias
  deriving DecidableEq, Repr

/-- The operation of a tag; the others are passed over. -/
def dynOperation (tag : BitVec 8) : Option DynOperation :=
  match tag.toNat with
  | 0 => some .stop
  | 1 => some .saveReg
  | 2 => some .spillFpRel
  | 3 => some .spillSpRel
  | 4 => some .add
  | 5 => some .popFrames
  | 6 => some .labelState
  | 7 => some .copyState
  | 8 => some .alias
  | _ => none

/-- `lookup_preg`. The registers from `UNW_IA64_BR + 1` on are counted from `UNW_IA64_BR`. -/
def lookupPreg (regnum : BitVec 16) (memory : Bool) : Option Preg :=
  let n := regnum.toNat
  match n with
  | 401 => some .bsp
  | 402 => some .bspstore
  | 424 => some .fpsr
  | 449 => some .lc
  | 448 => some .pfs
  | 403 => some .rnat
  | 420 => some .unat
  | 512 => some .ip
  | 520 => some .pr
  | 524 => some .psp
  | 128 => some (if memory then .priUnatMem else .priUnatGr)
  | _ =>
      if 4 ≤ n ∧ n ≤ 7 then some (Preg.r4.plus (n - 4))
      else if 513 ≤ n ∧ n ≤ 517 then some (Preg.b1.plus (n - 512))
      else if 258 ≤ n ∧ n ≤ 261 then some (Preg.f2.plus (n - 258))
      else if 272 ≤ n ∧ n ≤ 287 then some (Preg.f16.plus (n - 272))
      else none

/-- What an operation does. -/
inductive OpEffect where
  | regs (sr : StateRecord)
  | labelState (label : Word 64)
  | copyState (label : Word 64)
  | alias
  | stop
  | reject (code : UnwError)

namespace StateRecord

variable (sr : StateRecord) (op : DynOp 64)

/-- `update_reg_info` -/
def updateRegInfo (memory : Bool) (saved : Where) (when : Int) (val : Word 64) : OpEffect :=
  match lookupPreg op.reg memory with
  | some i => .regs (sr.updateReg i fun _ => ⟨val, saved, when⟩)
  | none => .reject .badreg

/-- The switch over the operations that are active. -/
def opEffect (when : Int) : OpEffect :=
  match dynOperation op.tag with
  | some .saveReg =>
      if ((op.val - unwGr).setWidth 32).toNat < 128 then sr.updateRegInfo op false .gr when op.val
      else if ((op.val - unwFr).setWidth 32).toNat < 128 then
        sr.updateRegInfo op false .fr when op.val
      else if ((op.val - unwBr).setWidth 32).toNat < 8 then
        sr.updateRegInfo op false .br when op.val
      else .reject .badreg
  | some .spillFpRel => sr.updateRegInfo op true .psprel when (0x10 - op.val)
  | some .spillSpRel => sr.updateRegInfo op true .sprel when op.val
  | some .add =>
      -- `UNW_IA64_SP`
      if op.reg = 524 then
        if op.val &&& 0xf ≠ 0 then .reject .inval
        else .regs (sr.descMemStackF (BitVec.ofInt 64 when) (-(op.val.sdiv 16)))
      else .reject .badreg
  | some .popFrames =>
      .regs { sr with whenSpRestored := when, epilogueCount := (op.val.setWidth 32).toInt }
  | some .labelState => .labelState op.val
  | some .copyState => .copyState op.val
  | some .alias => .alias
  | some .stop => .stop
  | none => .regs sr

/-- An operation, from `desc_is_active` on; the others have no effect. -/
def takeOp : StateRecord × OpEffect :=
  let (active, sr) := sr.descIsActive op.qp (op.when.signExtend 64)
  (sr, if active then sr.opEffect op (sr.whenOf (op.when.signExtend 64)) else .regs sr)

/-- `desc_is_active` shifts by the number of the predicate register. -/
def ShiftsFar : Prop := sr.whenOf (op.when.signExtend 64) < sr.whenTarget ∧ 64 ≤ op.qp.toNat

instance : Decidable (sr.ShiftsFar op) := inferInstanceAs (Decidable (_ ∧ _))

/-- `new_ip` in `desc_alias` -/
def aliasIp : Word 64 :=
  let when := min sr.whenTarget sr.regionLen
  op.val + BitVec.ofInt 64 (toInt32 (when.tdiv 3 * 16 + when.tmod 3))

/-! ## The ends of a state record -/

/-- What was saved on the memory stack has been restored with the stack pointer. -/
def restoreSp : StateRecord :=
  let sr := sr.updateReg .psp fun _ => ⟨0, .none, whenNever⟩
  { sr with curr := { sr.curr with reg := fun i =>
      let r := sr.curr.reg i
      if r.saved = .psprel ∧ r.val ≤ 0x10 ∨ r.saved = .sprel then ⟨0, .none, whenNever⟩ else r } }

/-- The end of `create_state_record_for`, when descriptors were read. -/
def finish : StateRecord :=
  let sr := if sr.whenSpRestored < sr.whenTarget then sr.restoreSp else sr
  if sr.whenTarget ≤ (sr.curr.reg .ip).when then
    sr.updateReg .ip fun _ => ⟨sr.returnLinkReg.setWidth 64, .br, -1⟩
  else sr

/-- The assignments in `desc_alias` up to the release of the lists. -/
def inRegionOf (orig : StateRecord) (when : Int) : StateRecord :=
  let rlen := orig.regionLen
  { sr with
    firstRegion := orig.firstRegion
    done := false
    anySpills := sr.anySpills || orig.anySpills
    inBody := orig.inBody
    regionStart := orig.regionStart
    regionLen := orig.regionLen
    whenSpRestored :=
      if sr.whenSpRestored ≠ whenNever then toInt32 (when + min orig.whenSpRestored rlen)
      else sr.whenSpRestored
    epilogueCount := orig.epilogueCount
    whenTarget := orig.whenTarget
    curr := { sr.curr with reg := fun i =>
      let r := sr.curr.reg i
      if r.when ≠ whenNever then { r with when := toInt32 (when + min r.when rlen) } else r } }

/-- The lists are those of another state record. -/
def withLists (orig : StateRecord) : StateRecord :=
  { sr with
    labeledStates := orig.labeledStates
    curr := { sr.curr with next := orig.curr.next } }

end StateRecord

/-! ## The calls -/

/-- What `c->pi.unwind_info` is, by `c->pi.format`. -/
inductive FetchedUnwind where
  | null
  | table (area : List Byte)
  /-- The length of the procedure and its regions. -/
  | dynamic (length : Word 64) (regions : List (DynRegionInfo 64))
  | otherFormat

/-- What `ia64_fetch_proc_info` leaves in `c->pi`. -/
structure FetchedProc where
  startIp : Word 64
  unwind : FetchedUnwind

/-- `sr->when_target` -/
def FetchedProc.whenTarget (proc : FetchedProc) (ip : Word 64) : Int :=
  ((3 * ((ip &&& ~~~0xf) - proc.startIp) / 16 + (ip &&& 0xf)).setWidth 32).toInt

/-- A call of `desc_alias` that waits for the state record of the alias. -/
structure AliasCall where
  origSr : StateRecord
  op : DynOp 64
  /-- What its caller goes on with. -/
  length : Word 64
  regions : List (DynRegionInfo 64)

/-- Where `build_script` is. -/
inductive BuildControl where
  /-- In the loop over the descriptors. -/
  | descriptors (dp : Int)
  /-- In the loop of `parse_dynamic` over these regions. -/
  | regions (length : Word 64) (rest : List (DynRegionInfo 64))
  /-- In the loop over these operations of a region. -/
  | ops (length : Word 64) (ops : List (DynOp 64)) (rest : List (DynRegionInfo 64))
  /-- Behind the descriptors. -/
  | finish
  /-- `create_state_record_for` returns 0. -/
  | created
  /-- `build_script` has returned. -/
  | returned (ret : Except UnwError (List ScriptInsn))

/-- A call of `build_script`. -/
structure Building where
  parse : Parse
  /-- The descriptors that were last read, and into which `imask` points. -/
  area : List Byte
  control : BuildControl
  callers : List AliasCall

namespace Building

/-- A negative number is returned by one call after the other. -/
def reject (s : Building) (code : UnwError) : Building :=
  { s with control := .returned (.error code), callers := [] }

/-- `create_state_record_for` as far as the descriptors. -/
def create (pr ip : Word 64) (proc : FetchedProc) (s : Building) : Building :=
  let start := StateRecord.initial (proc.whenTarget ip) pr
  let sr := match proc.unwind with
    | .null => (StateRecord.initial 0 pr).updateReg .ip fun _ => ⟨0, .br, -1⟩
    | _ => start
  let s := { s with parse := ⟨sr, s.parse.pools⟩ }
  match proc.unwind with
  | .null => { s with control := .created }
  | .table area => { s with area, control := .descriptors 0 }
  | .dynamic length regions => { s with control := .regions length regions }
  | .otherFormat => s.reject .inval

/-- The state in which `build_script` starts. -/
def begin (pr ip : Word 64) (proc : FetchedProc) (pools : Pools) : Building :=
  create pr ip proc
    { parse := ⟨.initial 0 pr, pools⟩, area := [], control := .created, callers := [] }

variable (s : Building)

/-- A round of the loop over the descriptors. -/
def nextDescriptor (dp : Int) : Result Building :=
  if Parsing.goesOn s.area ⟨dp, s.parse⟩ then do
    let next ← Parsing.advance s.area ⟨dp, s.parse⟩
    pure { s with parse := next.parse, control := .descriptors next.dp }
  else pure { s with control := .finish }

/-- The state record for a region of this length. A negative one is counted from the end. -/
def atRegion (length : Word 64) (count : Int) (sr : StateRecord) : StateRecord :=
  if count < 0 then
    { sr with
      regionStart :=
        ((length / 0x10 * 3 - BitVec.ofInt 64 (toInt32 (-count))).setWidth 32).toInt
      regionLen := 0 }
  else sr

/-- A round of the loop over the regions. -/
def nextRegion (length : Word 64) : List (DynRegionInfo 64) → Result Building
  | [] => pure { s with control := .finish }
  | r :: rest =>
      let count := r.insnCount.toInt
      if count < 0 ∧ rest ≠ [] then pure (s.reject .inval)
      else do
        let rlen := BitVec.ofInt 64 (if count < 0 then toInt32 (-count) else count)
        let parse ← Parse.descPrologue s.area { s.parse with sr := atRegion length count s.parse.sr }
          false rlen 0 0
        pure { s with
          parse
          control := if parse.sr.done then .finish else .ops length r.op rest }

/-- `desc_alias` -/
def descAlias (pr : Word 64) (answer : Except UnwError FetchedProc) (length : Word 64)
    (op : DynOp 64) (rest : List (DynRegionInfo 64)) : Building :=
  match answer with
  | .error code => s.reject code
  | .ok proc =>
      create pr (s.parse.sr.aliasIp op) proc
        { s with callers := ⟨s.parse.sr, op, length, rest⟩ :: s.callers }

/-- A round of the loop over the operations. An alias ends the loop like `UNW_DYN_STOP`. -/
def nextOp (pr : Word 64) (answer : Except UnwError FetchedProc) (length : Word 64)
    (rest : List (DynRegionInfo 64)) : List (DynOp 64) → Result Building
  | [] => pure { s with control := .regions length rest }
  | op :: ops =>
      if s.parse.sr.ShiftsFar op then .error .undefined
      else
        let (sr, effect) := s.parse.sr.takeOp op
        let s := { s with parse := ⟨sr, s.parse.pools⟩, control := .ops length ops rest }
        match effect with
        | .regs sr => pure { s with parse := ⟨sr, s.parse.pools⟩ }
        | .labelState label => do
            let parse ← s.parse.descLabelState label
            pure { s with parse }
        | .copyState label => do
            let parse ← s.parse.descCopyState label
            pure { s with parse }
        | .alias => pure (s.descAlias pr answer length op rest)
        | .stop => pure { s with control := .regions length rest }
        | .reject code => pure (s.reject code)

/-- A state record has been created, for `build_script` or for an alias. -/
def created : Result Building :=
  match s.callers with
  | [] => do
      let parse ← s.parse.freeStateRecord
      pure { s with parse, control := .returned (.ok (buildScript s.parse.sr)) }
  | call :: callers => do
      let sr := s.parse.sr.inRegionOf call.origSr call.op.when.toInt
      let parse ← Parse.freeStateRecord ⟨sr, s.parse.pools⟩
      pure { s with
        parse := ⟨parse.sr.withLists call.origSr, parse.pools⟩
        control := .regions call.length call.regions
        callers }

/-- The next step of `build_script`; an alias has its proc info looked up, with this answer. -/
def step (pr : Word 64) (answer : Except UnwError FetchedProc) : Result Building :=
  match s.control with
  | .descriptors dp => s.nextDescriptor dp
  | .regions length rest => s.nextRegion length rest
  | .ops length ops rest => s.nextOp pr answer length rest ops
  | .finish => pure { s with parse := ⟨s.parse.sr.finish, s.parse.pools⟩, control := .created }
  | .created => s.created
  | .returned _ => pure s

end Building

end Libunwind.Ia64
