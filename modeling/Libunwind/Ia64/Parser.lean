import Libunwind.Ia64.Descriptors
import Libunwind.Ia64.StateStack

/-! # The parser of unwind descriptors

What each descriptor does to the state record, and the loop over the descriptors of a procedure.
-/

namespace Libunwind.Ia64

/-- A number stored in an `int`. -/
def toInt32 (x : Int) : Int := (BitVec.ofInt 32 x).toInt

/-- `IA64_REG_R4 + i` and the like. -/
def Preg.plus (first : Preg) (i : Nat) : Preg := first + Fin.ofNat 45 i

/-- `decode_abreg` -/
def decodeAbreg (abreg : Byte) (memory : Bool) : Preg :=
  let a := abreg.toNat
  if 0x04 ≤ a ∧ a ≤ 0x07 then Preg.r4.plus (a - 0x04)
  else if 0x22 ≤ a ∧ a ≤ 0x25 then Preg.f2.plus (a - 0x22)
  else if 0x30 ≤ a ∧ a ≤ 0x3f then Preg.f16.plus (a - 0x30)
  else if 0x41 ≤ a ∧ a ≤ 0x45 then Preg.b1.plus (a - 0x41)
  else
    match a with
    | 0x60 => .pr
    | 0x61 => .psp
    | 0x62 => if memory then .priUnatMem else .priUnatGr
    | 0x63 => .ip
    | 0x64 => .bsp
    | 0x65 => .bspstore
    | 0x66 => .rnat
    | 0x67 => .unat
    | 0x68 => .fpsr
    | 0x69 => .pfs
    | _ => .lc

/-- `unw.save_order` -/
def unwSaveOrder : List Preg := [.ip, .pfs, .psp, .pr, .unat, .lc, .fpsr, .priUnatGr]

namespace StateRecord

variable (sr : StateRecord)

/-- What is known about a register changes. -/
def updateReg (i : Preg) (f : RegInfo → RegInfo) : StateRecord :=
  { sr with curr := { sr.curr with reg := Function.update sr.curr.reg i (f (sr.curr.reg i)) } }

/-- `set_reg` -/
def setReg (i : Preg) (saved : Where) (when : Int) (val : Word 64) : StateRecord :=
  sr.updateReg i fun reg =>
    { val, saved, when := if reg.when = whenNever then when else reg.when }

/-- `sr->region_start + sr->region_len - 1` -/
def regionLast : Int := toInt32 (sr.regionStart + sr.regionLen - 1)

/-- `sr->region_start + MIN ((int) t, sr->region_len - 1)` -/
def whenOf (t : Word 64) : Int :=
  toInt32 (sr.regionStart + min (t.setWidth 32).toInt (toInt32 (sr.regionLen - 1)))

/-! ## The end of a prologue -/

/-- The registers that are saved in the next general register. -/
def resolveGrSave : StateRecord :=
  unwSaveOrder.foldl (fun sr i =>
    if (sr.curr.reg i).saved = .grSave then
      { sr.updateReg i fun reg => { reg with saved := .gr, val := sr.grSaveLoc.setWidth 64 } with
        grSaveLoc := sr.grSaveLoc + 1 }
    else sr) sr

/-- `spill_next_when`; a pointer to a register is the register's number. -/
def spillNextWhen (regp lim : Nat) (t : Word 64) : Nat × StateRecord :=
  match (List.range' regp (lim + 1 - regp)).find? fun i =>
      (sr.curr.reg (Fin.ofNat 45 i)).saved = .spillHome with
  | some i =>
      (i + 1, sr.updateReg (Fin.ofNat 45 i) fun reg => { reg with when := (t.setWidth 32).toInt })
  | none => (regp, sr)

/-- `limit`: `IA64_REG_F31`, `IA64_REG_R7` and `IA64_REG_B5`. -/
def spillLimit : Fin 3 → Nat := ![Preg.f31.val, Preg.r7.val, Preg.b5.val]

/-- `if ((t & 3) == 0) mask = *cp++` -/
def imaskByte (area : List Byte) (imask t : Nat) (mask : Byte) : Result Byte :=
  if t % 4 = 0 then (nextByte area (imask + t / 4 : Nat)).map Prod.fst else pure mask

/-- The loop over the spill mask, from instruction `t` on. -/
def walkImask (area : List Byte) (imask : Nat) :
    Nat → Nat → Byte → (Fin 3 → Nat) → StateRecord → Result StateRecord
  | 0, _, _, _, sr => pure sr
  | rounds + 1, t, mask, regs, sr => do
      let mask ← imaskByte area imask t mask
      let kind := ((mask >>> (2 * (3 - t % 4))) &&& 3).toNat
      if 0 < kind then
        let k := Fin.ofNat 3 (kind - 1)
        let (regp, sr) := sr.spillNextWhen (regs k) (spillLimit k)
          (BitVec.ofInt 64 (sr.regionStart + t))
        walkImask area imask rounds (t + 1) mask (Function.update regs k regp) sr
      else walkImask area imask rounds (t + 1) mask regs sr

/-- `alloc_spill_area` -/
def allocSpillArea (regsize : Word 64) (lo hi : Preg) (spill : Word 64 × StateRecord) :
    Word 64 × StateRecord :=
  ((List.range' lo.val (hi.val + 1 - lo.val)).reverse).foldl (fun (off, sr) i =>
    if (sr.curr.reg (Fin.ofNat 45 i)).saved = .spillHome then
      (off - regsize, sr.updateReg (Fin.ofNat 45 i) fun reg =>
        { reg with saved := .psprel, val := off - regsize })
    else (off, sr)) spill

/-- When the registers of the spill mask get saved. -/
def resolveSpills (area : List Byte) : Result StateRecord :=
  match sr.imask with
  | some imask =>
      walkImask area imask sr.regionLen.toNat 0 0 ![Preg.f2.val, Preg.r4.val, Preg.b1.val] sr
  | none => pure sr

/-- Where the registers are that get spilled. -/
def layOutSpills : StateRecord :=
  if sr.anySpills then
    let spill := (sr.spillOffset, sr)
    let spill := allocSpillArea 16 .f2 .f31 spill
    let spill := allocSpillArea 8 .b1 .b5 spill
    let spill := allocSpillArea 8 .r4 .r7 spill
    spill.2
  else sr

/-- `finish_prologue` -/
def finishPrologue (area : List Byte) : Result StateRecord := do
  let sr ← sr.resolveGrSave.resolveSpills area
  pure sr.layOutSpills

/-! ## Descriptors that say where registers are -/

/-- The registers of a mask are saved in general registers from `gr` on. -/
def saveInGrs (first : Preg) (count : Nat) (mask gr : Byte) : StateRecord :=
  ((List.range count).foldl (fun (sr, gr) i =>
    if mask.getLsbD i then
      (sr.setReg (first.plus i) .gr sr.regionLast (gr.setWidth 64), gr + 1)
    else (sr, gr)) (sr, gr)).1

/-- The registers of a mask are spilled to their homes. -/
def spillHomes (reg : Nat → Preg) (count : Nat) (mask : Word 64) : StateRecord :=
  (List.range count).foldl (fun sr i =>
    if mask.getLsbD i then
      { sr.setReg (reg i) .spillHome sr.regionLast 0 with anySpills := true }
    else sr) sr

def descAbi (abi context : Byte) : StateRecord :=
  { sr with abiMarker := (abi.setWidth 16 <<< 8) ||| context.setWidth 16 }

def descBrGr (brmask gr : Byte) : StateRecord := sr.saveInGrs .b1 5 brmask gr

def descBrMem (brmask : Byte) : StateRecord := sr.spillHomes Preg.b1.plus 5 (brmask.setWidth 64)

def descFrgrMem (grmask frmask : Word 64) : StateRecord :=
  let sr := sr.spillHomes Preg.r4.plus 4 grmask
  sr.spillHomes (fun i => if i < 4 then Preg.f2.plus i else Preg.f16.plus (i - 4)) 20 frmask

def descFrMem (frmask : Byte) : StateRecord := sr.spillHomes Preg.f2.plus 4 (frmask.setWidth 64)

def descGrGr (grmask gr : Byte) : StateRecord := sr.saveInGrs .r4 4 grmask gr

def descGrMem (grmask : Byte) : StateRecord := sr.spillHomes Preg.r4.plus 4 (grmask.setWidth 64)

def descMemStackF (t size : Word 64) : StateRecord :=
  sr.setReg .psp .none (sr.whenOf t) (16 * size)

def descMemStackV (t : Word 64) : StateRecord :=
  sr.updateReg .psp fun reg => { reg with when := sr.whenOf t }

def descRegGr (reg : Preg) (dst : Byte) : StateRecord :=
  sr.setReg reg .gr sr.regionLast (dst.setWidth 64)

def descRegPsprel (reg : Preg) (pspoff : Word 64) : StateRecord :=
  sr.setReg reg .psprel sr.regionLast (0x10 - 4 * pspoff)

def descRegSprel (reg : Preg) (spoff : Word 64) : StateRecord :=
  sr.setReg reg .sprel sr.regionLast (4 * spoff)

def descRpBr (dst : Byte) : StateRecord := { sr with returnLinkReg := dst }

def descRegWhen (regnum : Preg) (t : Word 64) : StateRecord :=
  sr.updateReg regnum fun reg =>
    { reg with
      saved := if reg.saved = .none then .grSave else reg.saved
      when := sr.whenOf t }

def descSpillBase (pspoff : Word 64) : StateRecord := { sr with spillOffset := 0x10 - 4 * pspoff }

/-- `desc_epilogue`; the sum is one of `unw_word_t`, and is stored in an `int`. -/
def descEpilogue (t ecount : Word 64) : StateRecord :=
  { sr with
    whenSpRestored := toInt32 (sr.regionStart + sr.regionLen - 1 - t.toNat)
    epilogueCount := toInt32 (ecount.toNat + 1) }

/-! ## General descriptors -/

/-- `desc_is_active` -/
def descIsActive (qp : Byte) (t : Word 64) : Bool × StateRecord :=
  if sr.whenTarget ≤ sr.whenOf t then (false, sr)
  else if 0 < qp then
    let bit := (1 : Word 64) <<< qp.toNat
    if sr.prVal &&& bit = 0 then (false, sr) else (true, { sr with prMask := sr.prMask ||| bit })
  else (true, sr)

/-- A register is said to be saved where the descriptor is active. -/
def saveWhenActive (qp : Byte) (t : Word 64) (i : Preg) (info : RegInfo) : StateRecord :=
  let (active, sr) := sr.descIsActive qp t
  if active then sr.updateReg i fun _ => info else sr

def descRestoreP (qp : Byte) (t : Word 64) (abreg : Byte) : StateRecord :=
  sr.saveWhenActive qp t (decodeAbreg abreg false) ⟨0, .none, whenNever⟩

def descSpillRegP (qp : Byte) (t : Word 64) (abreg x ytreg : Byte) : StateRecord :=
  let saved := if x ≠ 0 then .br else if ytreg &&& 0x80 ≠ 0 then .fr else .gr
  sr.saveWhenActive qp t (decodeAbreg abreg false)
    ⟨(ytreg &&& 0x7f).setWidth 64, saved, sr.whenOf t⟩

def descSpillPsprelP (qp : Byte) (t : Word 64) (abreg : Byte) (pspoff : Word 64) : StateRecord :=
  sr.saveWhenActive qp t (decodeAbreg abreg true) ⟨0x10 - 4 * pspoff, .psprel, sr.whenOf t⟩

def descSpillSprelP (qp : Byte) (t : Word 64) (abreg : Byte) (spoff : Word 64) : StateRecord :=
  sr.saveWhenActive qp t (decodeAbreg abreg true) ⟨4 * spoff, .sprel, sr.whenOf t⟩

/-- The descriptors that are about registers alone. -/
def performRegs : Descriptor → StateRecord
  | .abi abi context => sr.descAbi abi context
  | .brGr brmask gr => sr.descBrGr brmask gr
  | .brMem brmask => sr.descBrMem brmask
  | .frgrMem grmask frmask => sr.descFrgrMem grmask frmask
  | .frMem frmask => sr.descFrMem frmask
  | .grGr grmask gr => sr.descGrGr grmask gr
  | .grMem grmask => sr.descGrMem grmask
  | .memStackF t size => sr.descMemStackF t size
  | .memStackV t => sr.descMemStackV t
  | .regGr reg dst => sr.descRegGr reg dst
  | .regPsprel reg pspoff => sr.descRegPsprel reg pspoff
  | .regSprel reg spoff => sr.descRegSprel reg spoff
  | .regWhen reg t => sr.descRegWhen reg t
  | .rpBr dst => sr.descRpBr dst
  | .spillBase pspoff => sr.descSpillBase pspoff
  | .epilogue t ecount => sr.descEpilogue t ecount
  | .spillRegP qp t abreg x ytreg => sr.descSpillRegP qp t abreg x ytreg
  | .spillPsprelP qp t abreg pspoff => sr.descSpillPsprelP qp t abreg pspoff
  | .spillSprelP qp t abreg spoff => sr.descSpillSprelP qp t abreg spoff
  | .restoreP qp t abreg => sr.descRestoreP qp t abreg
  | .prologue .. | .spillMask | .copyState _ | .labelState _ | .badCode => sr

end StateRecord

namespace Parse

variable (area : List Byte) (parse : Parse)

/-- `for (i = 0; i < sr->epilogue_count; ++i) pop (sr)` -/
def popTimes : Nat → Parse → Result Parse
  | 0, parse => pure parse
  | count + 1, parse => do
      let parse ← parse.pop
      popTimes count parse

/-- The registers that a prologue header has in its mask. -/
def saveMasked (mask grsave : Byte) (sr : StateRecord) : StateRecord × Byte :=
  (List.range 4).foldl (fun (sr, grsave) i =>
    if mask.getLsbD (3 - i) then
      (sr.setReg (unwSaveOrder.getD i 0) .gr sr.regionLast (grsave.setWidth 64), grsave + 1)
    else (sr, grsave)) (sr, grsave)

/-- `if (!(sr->in_body || sr->first_region)) finish_prologue (sr)` -/
def leaveRegion : Result StateRecord :=
  if parse.sr.inBody || parse.sr.firstRegion then pure parse.sr else parse.sr.finishPrologue area

/-- `if (!body)` -/
def enterPrologue (mask grsave : Byte) (parse : Parse) : Parse :=
  let parse := parse.push
  let (sr, grsave) := saveMasked mask grsave parse.sr
  { parse with
    sr := { sr with
      grSaveLoc := grsave
      anySpills := false
      imask := none
      spillOffset := 0x10 } }

/-- `desc_prologue` -/
def descPrologue (body : Bool) (rlen : Word 64) (mask grsave : Byte) : Result Parse := do
  let sr ← parse.leaveRegion area
  let sr := { sr with firstRegion := false }
  if sr.whenTarget < toInt32 (sr.regionStart + sr.regionLen) then
    pure { parse with sr := { sr with done := true } }
  else do
    let parse ← popTimes sr.epilogueCount.toNat { parse with sr }
    let parse := { parse with
      sr := { parse.sr with
        epilogueCount := 0
        whenSpRestored := whenNever
        regionStart := toInt32 (sr.regionStart + sr.regionLen)
        regionLen := (rlen.setWidth 32).toInt
        inBody := body } }
    pure (if body then parse else enterPrologue mask grsave parse)

/-- `desc_spill_mask` -/
def descSpillMask (imaskp : Int) : Parse × Int :=
  ({ parse with sr := { parse.sr with imask := some imaskp.toNat } },
    imaskp + (toInt32 (2 * parse.sr.regionLen + 7)).tdiv 8)

/-- The call of a descriptor's macro, and the pointer after it. -/
def perform (dp : Int) : Descriptor → Result (Parse × Int)
  | .prologue body rlen mask grsave => do
      let parse ← parse.descPrologue area body rlen mask grsave
      pure (parse, dp)
  | .spillMask => pure (parse.descSpillMask dp)
  | .copyState label => do
      let parse ← parse.descCopyState label
      pure (parse, dp)
  | .labelState label => do
      let parse ← parse.descLabelState label
      pure (parse, dp)
  | d => pure ({ parse with sr := parse.sr.performRegs d }, dp)

end Parse

/-- The state record that `create_state_record_for` starts with. -/
def StateRecord.initial (whenTarget : Int) (prVal : Word 64) : StateRecord where
  firstRegion := true
  done := false
  anySpills := false
  inBody := false
  imask := none
  abiMarker := 0
  prVal
  prMask := 0
  spillOffset := 0
  regionStart := 0
  regionLen := 0
  whenSpRestored := 0
  epilogueCount := 0
  whenTarget
  grSaveLoc := 0
  returnLinkReg := 0
  labeledStates := 0
  curr := ⟨0, fun _ => ⟨0, .none, whenNever⟩⟩

/-- The variables of the loop over the descriptors. -/
structure Parsing where
  dp : Int
  parse : Parse

namespace Parsing

variable (area : List Byte)

/-- `!sr->done && dp < desc_end` -/
def goesOn (s : Parsing) : Bool := !s.parse.sr.done && decide (s.dp < area.length)

/-- `dp = unw_decode (dp, sr->in_body, sr)` -/
def advance (s : Parsing) : Result Parsing := do
  let (d, dp) ← unwDecode area s.dp s.parse.sr.inBody
  let (parse, dp) ← s.parse.perform area dp d
  pure ⟨dp, parse⟩

end Parsing

/-! ## What descriptors leave alone -/

/-- The part of a state record that says which descriptors are read, and how. -/
structure Region where
  first : Bool
  done : Bool
  inBody : Bool
  imask : Option Nat
  start : Int
  len : Int
  whenTarget : Int

def StateRecord.region (sr : StateRecord) : Region :=
  ⟨sr.firstRegion, sr.done, sr.inBody, sr.imask, sr.regionStart, sr.regionLen, sr.whenTarget⟩

/-- The region and the lists of register states are the same. -/
structure Keeps (sr sr' : StateRecord) : Prop where
  region : sr'.region = sr.region
  next : sr'.curr.next = sr.curr.next
  labeled : sr'.labeledStates = sr.labeledStates

namespace Keeps

variable {sr sr' sr'' : StateRecord}

theorem refl (sr : StateRecord) : Keeps sr sr := ⟨rfl, rfl, rfl⟩

theorem trans (first : Keeps sr sr') (more : Keeps sr' sr'') : Keeps sr sr'' :=
  ⟨more.region.trans first.region, more.next.trans first.next, more.labeled.trans first.labeled⟩

theorem foldl {σ ι : Type} {f : σ → ι → σ} (record : σ → StateRecord)
    (step : ∀ s i, Keeps (record s) (record (f s i))) (is : List ι) (s : σ) :
    Keeps (record s) (record (is.foldl f s)) := by
  induction is generalizing s with
  | nil => exact refl _
  | cons i is ih => exact (step s i).trans (ih (f s i))

theorem ite {p : Prop} [Decidable p] (first : Keeps sr sr') (second : Keeps sr sr'') :
    Keeps sr (if p then sr' else sr'') := by
  split
  · exact first
  · exact second

theorem resolveGrSave (sr : StateRecord) : Keeps sr sr.resolveGrSave := by
  refine foldl id (fun sr i => ?_) unwSaveOrder sr
  exact ite ⟨rfl, rfl, rfl⟩ (refl sr)

theorem spillNextWhen (sr : StateRecord) (regp lim : Nat) (t : Word 64) :
    Keeps sr (sr.spillNextWhen regp lim t).2 := by
  rw [StateRecord.spillNextWhen]
  split
  · exact ⟨rfl, rfl, rfl⟩
  · exact refl sr

theorem allocSpillArea (regsize : Word 64) (lo hi : Preg) (spill : Word 64 × StateRecord) :
    Keeps spill.2 (StateRecord.allocSpillArea regsize lo hi spill).2 := by
  refine foldl Prod.snd (fun s i => ?_) _ spill
  dsimp only
  split
  · exact ⟨rfl, rfl, rfl⟩
  · exact refl _

theorem saveInGrs (sr : StateRecord) (first : Preg) (count : Nat) (mask gr : Byte) :
    Keeps sr (sr.saveInGrs first count mask gr) := by
  refine foldl Prod.fst (fun s i => ?_) _ (sr, gr)
  dsimp only
  split
  · exact ⟨rfl, rfl, rfl⟩
  · exact refl _

theorem spillHomes (sr : StateRecord) (reg : Nat → Preg) (count : Nat) (mask : Word 64) :
    Keeps sr (sr.spillHomes reg count mask) := by
  refine foldl id (fun sr i => ?_) (List.range count) sr
  exact ite ⟨rfl, rfl, rfl⟩ (refl sr)

theorem descIsActive (sr : StateRecord) (qp : Byte) (t : Word 64) :
    Keeps sr (sr.descIsActive qp t).2 := by
  rw [StateRecord.descIsActive]
  dsimp only
  split_ifs
  · exact refl sr
  · exact refl sr
  · exact ⟨rfl, rfl, rfl⟩
  · exact refl sr

theorem saveWhenActive (sr : StateRecord) (qp : Byte) (t : Word 64) (i : Preg) (info : RegInfo) :
    Keeps sr (sr.saveWhenActive qp t i info) :=
  (descIsActive sr qp t).trans (ite ⟨rfl, rfl, rfl⟩ (refl _))

theorem performRegs (sr : StateRecord) (d : Descriptor) : Keeps sr (sr.performRegs d) := by
  cases d with
  | brGr | grGr => exact saveInGrs ..
  | brMem | frMem | grMem => exact spillHomes ..
  | frgrMem => exact (spillHomes ..).trans (spillHomes ..)
  | spillRegP | spillPsprelP | spillSprelP | restoreP => exact saveWhenActive ..
  | _ => exact ⟨rfl, rfl, rfl⟩

theorem saveMasked (mask grsave : Byte) (sr : StateRecord) :
    Keeps sr (Parse.saveMasked mask grsave sr).1 := by
  refine foldl Prod.fst (fun s i => ?_) _ (sr, grsave)
  dsimp only
  split
  · exact ⟨rfl, rfl, rfl⟩
  · exact refl _

end Keeps

/-! ## The spill mask -/

theorem nextByte_natCast (area : List Byte) (n : Nat) :
    nextByte area n = match area[n]? with
      | some byte => .ok (byte, n + 1)
      | none => .error .undefined := by
  rw [nextByte, if_neg (not_lt.mpr (Int.natCast_nonneg n)), Int.toNat_natCast]
  cases area[n]? <;> rfl

/-- The bytes of the spill mask that belong to the region's instructions are descriptors. -/
def Region.MaskFits (area : List Byte) (r : Region) : Prop :=
  ∀ imask, r.imask = some imask → ∀ t < r.len.toNat, imask + t / 4 < area.length

/-- The walk over the spill mask ends well where it finds all of the mask, and is undefined elsewhere. -/
theorem walkImask_cases (area : List Byte) (imask rounds t : Nat) (mask : Byte)
    (regs : Fin 3 → Nat) (sr : StateRecord) (loaded : imask + t / 4 < area.length ∨ t % 4 = 0) :
    ((∀ t', t ≤ t' → t' < t + rounds → imask + t' / 4 < area.length) ∧
        ∃ sr', StateRecord.walkImask area imask rounds t mask regs sr = .ok sr' ∧ Keeps sr sr') ∨
      ((∃ t', t ≤ t' ∧ t' < t + rounds ∧ area.length ≤ imask + t' / 4) ∧
        StateRecord.walkImask area imask rounds t mask regs sr = .error .undefined) := by
  induction rounds generalizing t mask regs sr with
  | zero => exact .inl ⟨fun t' from_t below => by omega, sr, rfl, Keeps.refl sr⟩
  | succ rounds ih =>
      rw [StateRecord.walkImask]
      by_cases inside : imask + t / 4 < area.length
      · -- the mask of this group is there, whether it is read now or was read before
        obtain ⟨mask', read⟩ : ∃ mask', StateRecord.imaskByte area imask t mask = .ok mask' := by
          rw [StateRecord.imaskByte]
          split
          · rw [nextByte_natCast, List.getElem?_eq_getElem inside]
            exact ⟨_, rfl⟩
          · exact ⟨mask, rfl⟩
        rw [read, ok_bind]
        have next : imask + (t + 1) / 4 < area.length ∨ (t + 1) % 4 = 0 := by omega
        have onwards (regs' : Fin 3 → Nat) (sr' : StateRecord) (keeps : Keeps sr sr') :
            ((∀ t', t ≤ t' → t' < t + (rounds + 1) → imask + t' / 4 < area.length) ∧
                ∃ sr'', StateRecord.walkImask area imask rounds (t + 1) mask' regs' sr' = .ok sr'' ∧
                  Keeps sr sr'') ∨
              ((∃ t', t ≤ t' ∧ t' < t + (rounds + 1) ∧ area.length ≤ imask + t' / 4) ∧
                StateRecord.walkImask area imask rounds (t + 1) mask' regs' sr' =
                  .error .undefined) := by
          rcases ih (t + 1) mask' regs' sr' next with ⟨all, sr'', walked, keeps'⟩ |
            ⟨⟨t', from_t, below, beyond⟩, undefined⟩
          · refine .inl ⟨fun t' from_t below => ?_, sr'', walked, keeps.trans keeps'⟩
            by_cases first : t' = t
            · exact first ▸ inside
            · exact all t' (by omega) (by omega)
          · exact .inr ⟨⟨t', by omega, by omega, beyond⟩, undefined⟩
        dsimp only
        split
        · exact onwards _ _ (Keeps.spillNextWhen ..)
        · exact onwards _ _ (Keeps.refl sr)
      · have start := loaded.resolve_left inside
        rw [StateRecord.imaskByte, if_pos start, nextByte_natCast,
          List.getElem?_eq_none (Nat.le_of_not_lt inside)]
        exact .inr ⟨⟨t, le_rfl, by omega, Nat.le_of_not_lt inside⟩, rfl⟩

theorem Keeps.layOutSpills (sr : StateRecord) : Keeps sr sr.layOutSpills :=
  ite (((allocSpillArea 16 _ _ (sr.spillOffset, sr)).trans (allocSpillArea ..)).trans
    (allocSpillArea ..)) (refl sr)

theorem resolveSpills_cases (area : List Byte) (sr : StateRecord) :
    (sr.region.MaskFits area ∧ ∃ sr', sr.resolveSpills area = .ok sr' ∧ Keeps sr sr') ∨
      (¬sr.region.MaskFits area ∧ sr.resolveSpills area = .error .undefined) := by
  rw [StateRecord.resolveSpills]
  cases isMask : sr.imask with
  | none =>
      have fits : sr.region.MaskFits area := fun _ isSome => nomatch isMask.symm.trans isSome
      exact .inl ⟨fits, sr, rfl, Keeps.refl sr⟩
  | some imask =>
      have fits_iff : sr.region.MaskFits area ↔
          ∀ t', 0 ≤ t' → t' < 0 + sr.regionLen.toNat → imask + t' / 4 < area.length := by
        rw [Nat.zero_add]
        constructor
        · exact fun fits t' _ => fits imask isMask t'
        · intro all imask' isSome t'
          obtain rfl := Option.some_inj.mp (isMask.symm.trans isSome)
          exact all t' (Nat.zero_le _)
      rw [fits_iff]
      rcases walkImask_cases area imask sr.regionLen.toNat 0 0 _ sr (.inr rfl) with
        fits | ⟨⟨t', from0, below, beyond⟩, undefined⟩
      · exact .inl fits
      · exact .inr ⟨fun all => absurd (all t' from0 below) (Nat.not_lt.mpr beyond), undefined⟩

/-- `finish_prologue` reads the spill mask, and nothing else. -/
theorem finishPrologue_cases (area : List Byte) (sr : StateRecord) :
    (sr.region.MaskFits area ∧ ∃ sr', sr.finishPrologue area = .ok sr' ∧ Keeps sr sr') ∨
      (¬sr.region.MaskFits area ∧ sr.finishPrologue area = .error .undefined) := by
  have resolved := Keeps.resolveGrSave sr
  rw [StateRecord.finishPrologue, ← resolved.region]
  rcases resolveSpills_cases area sr.resolveGrSave with ⟨fits, sr', walked, keeps⟩ | ⟨misfits, fails⟩
  · rw [walked]
    exact .inl ⟨fits, _, rfl, (resolved.trans keeps).trans (Keeps.layOutSpills sr')⟩
  · rw [fails]
    exact .inr ⟨misfits, rfl⟩

end Libunwind.Ia64
