import Libunwind.Ia64.StateRecord
import Libunwind.Ia64.BackingStore
import Libunwind.Library.CarriedSelection

/-! # Unwind scripts

`build_script` compiles a state record to instructions that update the save locations of a cursor,
and `run_script` runs them. Where one register was saved in another, the order of the updates
matters.
-/

namespace Libunwind.Ia64

/-- `enum ia64_script_insn_opcode` -/
inductive ScriptOpcode where
  | incPsp
  | loadPsp
  | addPsp
  | addPspNat
  | addSp
  | addSpNat
  | move
  | moveNat
  | moveNoNat
  | moveStacked
  | moveStackedNat
  | moveScratch
  | moveScratchNat
  | moveScratchNoNat
  deriving DecidableEq, Repr

/-- `struct ia64_script_insn` -/
structure ScriptInsn where
  opc : ScriptOpcode
  dst : Preg
  val : Word 64
  deriving DecidableEq

/-- `IA64_MAX_SCRIPT_LEN` -/
def maxScriptLen : Nat := 46

/-- The instructions of a script; what does not fit is left out. -/
def scriptEmit (script : List ScriptInsn) (insn : ScriptInsn) : List ScriptInsn :=
  if maxScriptLen ≤ script.length then script else script ++ [insn]

namespace Preg

def IsPreservedGr (i : Preg) : Prop := r4 ≤ i ∧ i ≤ r7

instance (i : Preg) : Decidable i.IsPreservedGr := inferInstanceAs (Decidable (_ ∧ _))

def IsPreservedFr (i : Preg) : Prop := f2 ≤ i ∧ i ≤ f31

instance (i : Preg) : Decidable i.IsPreservedFr := inferInstanceAs (Decidable (_ ∧ _))

end Preg

/-- `UNW_IA64_GR`, `UNW_IA64_NAT`, `UNW_IA64_FR`, `UNW_IA64_BR` -/
def unwGr : Word 64 := 0
def unwNat : Word 64 := 128
def unwFr : Word 64 := 256
def unwBr : Word 64 := 512

/-- The number of a register among the preserved ones: `IA64_REG_R4 + (rval - 4)` and the like. -/
def pregVal (first : Preg) (rval least : Word 64) : Word 64 := BitVec.ofNat 64 first.val + (rval - least)

/-- The opcode and the operand for a save location. -/
def saveInsn (i : Preg) (r : RegInfo) : ScriptOpcode × Word 64 :=
  let rval := r.val
  match r.saved with
  | .gr =>
      if 32 ≤ rval then (if i.IsPreservedGr then .moveStackedNat else .moveStacked, rval)
      else if 4 ≤ rval ∧ rval ≤ 7 then
        (if i.IsPreservedGr then .moveNat else .move, pregVal .r4 rval 4)
      else (if i.IsPreservedGr then .moveScratchNat else .moveScratch, unwGr + rval)
  | .fr =>
      if 2 ≤ rval ∧ rval ≤ 5 then (.move, pregVal .f2 rval 2)
      else if 16 ≤ rval ∧ rval ≤ 31 then (.move, pregVal .f16 rval 16)
      else (.moveScratch, unwFr + rval)
  | .br =>
      if 1 ≤ rval ∧ rval ≤ 5 then
        (if i.IsPreservedGr then .moveNoNat else .move, pregVal .b1 rval 1)
      else (if i.IsPreservedGr then .moveScratchNoNat else .moveScratch, unwBr + rval)
  | .sprel =>
      if i.IsPreservedGr then (.addSpNat, rval)
      else (.addSp, if i.IsPreservedFr then rval ||| 1 else rval)
  | .psprel =>
      if i.IsPreservedGr then (.addPspNat, rval)
      else (.addPsp, if i.IsPreservedFr then rval ||| 1 else rval)
  | .none | .spillHome | .grSave => (.move, rval)

def compileReg (sr : StateRecord) (i : Preg) (r : RegInfo) (script : List ScriptInsn) :
    List ScriptInsn :=
  if r.saved = .none ∨ sr.whenTarget ≤ r.when then script
  else
    let (opc, val) := saveInsn i r
    let script := scriptEmit script ⟨opc, i, val⟩
    if i = .psp then scriptEmit script ⟨.loadPsp, i, val⟩ else script

/-- The registers that `sort_regs` sorts, as it finds them. -/
def savedRegs (sr : StateRecord) : List Preg :=
  (List.finRange 45).filter fun r =>
    Preg.bsp ≤ r ∧ (sr.curr.reg r).saved ≠ .none ∧ (sr.curr.reg r).when < sr.whenTarget

def sortRegs (sr : StateRecord) : List Preg :=
  let regorder := savedRegs sr
  (List.range regorder.length).map
    (CarriedSelection.sort (fun r => (sr.curr.reg r).when) regorder.length (regorder.getD · 0))

/-- The update of `IA64_REG_PSP`. -/
def compilePsp (sr : StateRecord) : List ScriptInsn :=
  let psp := sr.curr.reg .psp
  if psp.when < sr.whenTarget ∧ psp.saved = .none ∧ psp.val ≠ 0 then
    -- its destination is not set, and not read
    scriptEmit [] ⟨.incPsp, 0, psp.val⟩
  else compileReg sr .psp psp []

/-- The update of the primary UNaT, if any. -/
def compilePriUnat (sr : StateRecord) (script : List ScriptInsn) : List ScriptInsn :=
  let gr := sr.curr.reg .priUnatGr
  let mem := sr.curr.reg .priUnatMem
  if gr.when ≤ sr.whenTarget ∨ mem.when ≤ sr.whenTarget then
    let priUnat :=
      if sr.whenTarget < gr.when then mem
      else if sr.whenTarget < mem.when then gr
      else if gr.when < mem.when then mem
      else gr
    compileReg sr .priUnatMem priUnat script
  else script

/-- `build_script` for a state record that has been created. -/
def buildScript (sr : StateRecord) : List ScriptInsn :=
  (sortRegs sr).foldl (fun script r => compileReg sr r (sr.curr.reg r) script)
    (compilePriUnat sr (compilePsp sr))

/-! ## Running a script -/

/-- What a script reads and writes of a cursor. -/
structure ScriptCursor where
  loc : Preg → Ia64Loc
  natBitnr : Fin 4 → Byte
  sp : Word 64
  psp : Word 64
  rbs : RbsCursor

/-- `IA64_NULL_LOC` -/
def ia64NullLoc : Ia64Loc := ⟨0, 0⟩

/-- `IA64_GET_ADDR` -/
def ia64GetAddr (l : Ia64Loc) : Word 64 := l.w0 &&& ~~~3

section RunScript

variable (get : Ia64Loc → Result (Word 64)) (scratchLoc : Word 64 → Ia64Loc × Byte)

/-- `c->loc[val]` -/
def ScriptCursor.locAt (c : ScriptCursor) (val : Word 64) : Result Ia64Loc :=
  if inside : val.toNat < 45 then pure (c.loc ⟨val.toNat, inside⟩) else .error .undefined

/-- `c->nat_bitnr[val - IA64_REG_R4]` -/
def ScriptCursor.bitnrAt (c : ScriptCursor) (val : Word 64) : Result Byte :=
  if inside : Preg.r4.val ≤ val.toNat ∧ val.toNat < Preg.r4.val + 4 then
    pure (c.natBitnr ⟨val.toNat - Preg.r4.val, by omega⟩)
  else .error .undefined

def setNatInfo (c : ScriptCursor) (dst : Preg) (natLoc : Ia64Loc) (bitnr : Byte) :
    Result ScriptCursor :=
  if inside : Preg.r4.val ≤ dst.val ∧ dst.val < Preg.r4.val + 4 then
    let i : Fin 4 := ⟨dst.val - Preg.r4.val, by omega⟩
    pure { c with
      loc := Function.update c.loc (dst - .r4 + .nat4) natLoc
      natBitnr := Function.update c.natBitnr i bitnr }
  else .error .undefined

/-- The number of the bit for a slot, as a byte. -/
def slotBitnr (addr : Word 64) : Byte := (rseSlotNum addr).setWidth 8

/-- `c->loc[dst] = loc` -/
def setLoc (c : ScriptCursor) (dst : Preg) (loc : Ia64Loc) : ScriptCursor :=
  { c with loc := Function.update c.loc dst loc }

/-- One instruction; `get` is `ia64_get` and `scratchLoc` is `ia64_scratch_loc`, for the cursor. -/
def runInsn (c : ScriptCursor) (insn : ScriptInsn) : Result ScriptCursor := do
  let dst := insn.dst
  let val := insn.val
  match insn.opc with
  | .moveStacked => do
      let (loc, _) ← ia64GetStacked c.rbs val
      pure (setLoc c dst loc)
  | .incPsp => pure { c with psp := c.psp + val }
  | .loadPsp => do
      let psp ← get (c.loc .psp)
      pure { c with psp }
  | .addPsp => pure (setLoc c dst (ia64LocAddr (c.psp + val) (val &&& 1)))
  | .addSp => pure (setLoc c dst (ia64LocAddr (c.sp + val) (val &&& 1)))
  | .moveNoNat => do
      let c ← setNatInfo c dst ia64NullLoc 0
      let loc ← c.locAt val
      pure (setLoc c dst loc)
  | .move => do
      let loc ← c.locAt val
      pure (setLoc c dst loc)
  | .moveScratchNoNat => do
      let c ← setNatInfo c dst ia64NullLoc 0
      pure (setLoc c dst (scratchLoc val).1)
  | .moveScratch => pure (setLoc c dst (scratchLoc val).1)
  | .addPspNat => do
      let loc := ia64LocAddr (c.psp + val) 0
      let c ← setNatInfo c dst (c.loc .priUnatMem) (slotBitnr (ia64GetAddr loc))
      pure (setLoc c dst loc)
  | .addSpNat => do
      let loc := ia64LocAddr (c.sp + val) 0
      let c ← setNatInfo c dst (c.loc .priUnatMem) (slotBitnr (ia64GetAddr loc))
      pure (setLoc c dst loc)
  | .moveNat => do
      let loc ← c.locAt val
      let natLoc ← c.locAt (val - BitVec.ofNat 64 Preg.r4.val + BitVec.ofNat 64 Preg.nat4.val)
      let bitnr ← c.bitnrAt val
      let c ← setNatInfo c dst natLoc bitnr
      pure (setLoc c dst loc)
  | .moveStackedNat => do
      let (loc, natLoc) ← ia64GetStacked c.rbs val
      if IsRegLoc loc then .error .undefined
      else do
        let c ← setNatInfo c dst natLoc (slotBitnr (ia64GetAddr loc))
        pure (setLoc c dst loc)
  | .moveScratchNat => do
      let (natLoc, bitnr) := scratchLoc (val + (unwNat - unwGr))
      let c ← setNatInfo c dst natLoc bitnr
      pure (setLoc c dst (scratchLoc val).1)

/-- The instructions from the `k`-th one on; before one is carried out, the next one is read. -/
def runInsns : Nat → List ScriptInsn → ScriptCursor → Result ScriptCursor
  | _, [], c => pure c
  | k, insn :: rest, c => do
      if k + 1 < maxScriptLen then do
        let c ← runInsn get scratchLoc c insn
        runInsns (k + 1) rest c
      else .error .undefined

def runScript (script : List ScriptInsn) (c : ScriptCursor) : Result ScriptCursor :=
  runInsns get scratchLoc 0 script c

end RunScript

end Libunwind.Ia64
