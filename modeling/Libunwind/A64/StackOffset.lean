import Libunwind.A64.Step
import Libunwind.A64.Machine

/-! # The stack offset of the prologue scanner

Unless it gives up, `track_stack_pointer` has added up what it takes each instruction to do to the
stack pointer. That is the offset of the procedure when the instructions that it does not know
leave the stack pointer alone, or undo what they do to it.
-/

namespace Libunwind.AArch64

open Dwarf

/-! ## The sum that the tracker keeps -/

/-- How far down the tracker takes an instruction to move the stack pointer. -/
def spCredit (insn : BitVec 32) : Int :=
  if insn &&& 0xff0003ff = 0xd10003ff then addImmediate insn
  else if insn &&& 0xff0003ff = 0x910003ff then -addImmediate insn
  else if insn &&& 0xffc003e0 = 0xa98003e0 then
    if isFramePair insn then 0 else -(pairImmediate insn * 8)
  else if insn &&& 0xffc003e0 = 0xa8c003e0 then
    if isFramePair insn then 0 else -(pairImmediate insn * 8)
  else if insn &&& 0xffe00fe0 = 0xf8000fe0 then -storeImmediate insn
  else if insn &&& 0xffe00fe0 = 0xf84007e0 then -storeImmediate insn
  else 0

/-- The offset that goes with a state: positive where the stack pointer is adjusted. -/
def SpState.Carries : SpState → Int → Prop
  | .adjusted, offset => 0 < offset
  | _, offset => offset = 0

theorem addImmediate_nonneg (insn : BitVec 32) : 0 ≤ addImmediate insn := by
  unfold addImmediate
  split
  · exact Int.natCast_nonneg _
  · exact Int.natCast_nonneg _

/-- What a step of the tracker may do. -/
inductive SpStep (credit : Int) (state : SpState) (offset : Int) : SpState × Int → Prop where
  | lost : SpStep credit state offset (.unknown, 0)
  | kept : state = .unknown ∨ credit = 0 → SpStep credit state offset (state, offset)
  | down : state = .unchanged → 0 < credit → SpStep credit state offset (.adjusted, credit)
  | up : state = .adjusted → offset = -credit → SpStep credit state offset (.unchanged, 0)

theorem spDown_step {credit : Int} (state : SpState) (offset : Int) (down : 0 < credit) :
    SpStep credit state offset (spDown state credit) := by
  unfold spDown
  split
  next unchanged => exact .down unchanged down
  next => exact .lost

theorem spUp_step {credit imm : Int} (state : SpState) (offset : Int) (up : imm = -credit) :
    SpStep credit state offset (spUp state offset imm) := by
  unfold spUp
  split
  next matched => exact .up matched.1 (matched.2.trans up)
  next => exact .lost

theorem trackStackPointer_step (insn : BitVec 32) (state : SpState) (offset : Int) :
    SpStep (spCredit insn) state offset (trackStackPointer insn state offset) := by
  have nonneg := addImmediate_nonneg insn
  by_cases unknown : state = .unknown
  · rw [trackStackPointer, if_pos unknown]
    exact .kept (.inl unknown)
  by_cases branch : state = .unchanged ∧ isBranch insn
  · rw [trackStackPointer, if_neg unknown, if_pos branch]
    exact .lost
  rw [trackStackPointer, if_neg unknown, if_neg branch, spCredit]
  by_cases sub : insn &&& 0xff0003ff = 0xd10003ff
  · simp only [if_pos sub]
    split
    next zero => exact .kept (.inr zero)
    next positive => exact spDown_step state offset (by omega)
  by_cases add : insn &&& 0xff0003ff = 0x910003ff
  · simp only [if_neg sub, if_pos add]
    split
    next zero => exact .kept (.inr (by omega))
    next => exact spUp_step state offset (by omega)
  by_cases stp : insn &&& 0xffc003e0 = 0xa98003e0
  · simp only [if_neg sub, if_neg add, if_pos stp]
    by_cases framePair : isFramePair insn
    · simp only [if_pos framePair]
      exact .kept (.inr rfl)
    · simp only [if_neg framePair]
      split
      next => exact spDown_step state offset (by omega)
      next => exact .lost
  by_cases ldp : insn &&& 0xffc003e0 = 0xa8c003e0
  · simp only [if_neg sub, if_neg add, if_neg stp, if_pos ldp]
    by_cases framePair : isFramePair insn
    · simp only [if_pos framePair]
      exact .kept (.inr rfl)
    · simp only [if_neg framePair]
      split
      next => exact spUp_step state offset (by omega)
      next => exact .lost
  by_cases str : insn &&& 0xffe00fe0 = 0xf8000fe0
  · simp only [if_neg sub, if_neg add, if_neg stp, if_neg ldp, if_pos str]
    split
    next => exact spDown_step state offset (by omega)
    next => exact .lost
  by_cases ldr : insn &&& 0xffe00fe0 = 0xf84007e0
  · simp only [if_neg sub, if_neg add, if_neg stp, if_neg ldp, if_neg str, if_pos ldr]
    split
    next => exact spUp_step state offset (by omega)
    next => exact .lost
  simp only [if_neg sub, if_neg add, if_neg stp, if_neg ldp, if_neg str, if_neg ldr]
  split
  next => exact .lost
  split
  next => exact .lost
  next => exact .kept (.inr rfl)

section Track

variable {credit : Int} {state : SpState} {offset : Int} {next : SpState × Int}

theorem SpStep.carries (step : SpStep credit state offset next) (carries : state.Carries offset) :
    next.1.Carries next.2 := by
  cases step with
  | lost => rfl
  | kept _ => exact carries
  | down _ positive => exact positive
  | up _ _ => rfl

/-- A state that is still certain has added the credit. -/
theorem SpStep.adds (step : SpStep credit state offset next) (carries : state.Carries offset)
    (certain : next.1 ≠ .unknown) : state ≠ .unknown ∧ next.2 = offset + credit := by
  cases step with
  | lost => exact absurd rfl certain
  | kept why =>
      refine ⟨certain, ?_⟩
      cases why with
      | inl unknown => exact absurd unknown certain
      | inr zero => simp [zero]
  | down unchanged _ =>
      subst unchanged
      have zero : offset = 0 := carries
      simp [zero]
  | up adjusted matched =>
      subst adjusted
      refine ⟨by simp, ?_⟩
      simp only
      omega

end Track

/-- The scanner over a list of instructions. -/
def Scan.all (scan : Scan) : List (BitVec 32) → Scan
  | [] => scan
  | insn :: rest =>
      let moved := trackStackPointer insn scan.spState scan.spOffset
      Scan.all { fs := trackFrameRecord insn scan.fs, spState := moved.1, spOffset := moved.2 } rest

/-- What `get_frame_state` returns behind its loop. -/
def Scan.report (scan : Scan) : FrameState :=
  if scan.fs.loc = .none then { scan.fs with offset := scan.spOffset } else scan.fs

theorem Scan.start_carries : ({} : Scan).spState.Carries ({} : Scan).spOffset := rfl

theorem Scan.all_carries {scan : Scan} (carries : scan.spState.Carries scan.spOffset)
    (code : List (BitVec 32)) : (scan.all code).spState.Carries (scan.all code).spOffset := by
  induction code generalizing scan with
  | nil => exact carries
  | cons insn rest ih => exact ih ((trackStackPointer_step insn _ _).carries carries)

/-- The offset of a scan that did not give up is the sum of the credits. -/
theorem Scan.all_offset {scan : Scan} (carries : scan.spState.Carries scan.spOffset)
    (code : List (BitVec 32)) (certain : (scan.all code).spState ≠ .unknown) :
    scan.spState ≠ .unknown ∧
      (scan.all code).spOffset = scan.spOffset + (code.map spCredit).sum := by
  induction code generalizing scan with
  | nil => exact ⟨certain, by simp [Scan.all]⟩
  | cons insn rest ih =>
      have step := trackStackPointer_step insn scan.spState scan.spOffset
      obtain ⟨certainNext, later⟩ := ih (step.carries carries) certain
      obtain ⟨certainHere, here⟩ := step.adds carries certainNext
      refine ⟨certainHere, ?_⟩
      rw [Scan.all, later, List.map_cons, List.sum_cons]
      simp only [here]
      omega

/-! ## Procedures -/

/-- The code up to `stop`, as the scanner reads it: two instructions in a word. -/
inductive CodeUpTo (as : AddrSpace 64) (stop : Word 64) : List (BitVec 32) → Prop where
  | nil : CodeUpTo as stop []
  | last {insn : BitVec 32} {word : Word 64} : stop.toNat + 4 < 2 ^ 64 →
      as.accessMem (stop - BitVec.ofNat 64 4) = .ok word → word.setWidth 32 = insn →
      CodeUpTo as stop [insn]
  | pair {first second : BitVec 32} {rest : List (BitVec 32)} {word : Word 64} :
      as.accessMem (stop - BitVec.ofNat 64 (4 * (rest.length + 2))) = .ok word →
      word.setWidth 32 = first → (word >>> 32).setWidth 32 = second →
      CodeUpTo as stop rest → CodeUpTo as stop (first :: second :: rest)

section Scanning

variable {as : AddrSpace 64} {stop : Word 64}

theorem Scan.track_before {addr : Word 64} (before : addr < stop) (insn : BitVec 32)
    (scan : Scan) : scan.track stop addr insn = scan.all [insn] := by
  rw [Scan.track, if_neg (BitVec.not_le.mpr before)]
  rfl

theorem Scan.track_behind {addr : Word 64} (behind : stop ≤ addr) (insn : BitVec 32)
    (scan : Scan) : scan.track stop addr insn = scan := by
  rw [Scan.track, if_pos behind]

/-- The scanner goes through the code in order. -/
theorem scanProcedure_eq {code : List (BitVec 32)} (stored : CodeUpTo as stop code)
    (fits : 4 * code.length ≤ stop.toNat) {budget : Nat} (enough : code.length < budget)
    (scan : Scan) :
    scanProcedure as stop budget (stop - BitVec.ofNat 64 (4 * code.length)) scan =
      .ok (scan.all code).report := by
  induction stored generalizing budget scan with
  | nil =>
      obtain ⟨budget, rfl⟩ : ∃ b, budget = b + 1 := ⟨budget - 1, by omega⟩
      simp [scanProcedure, Scan.all, Scan.report]
      rfl
  | @last insn word top read isInsn =>
      simp only [List.length_singleton] at fits enough ⊢
      obtain ⟨budget, rfl⟩ : ∃ b, budget = b + 2 := ⟨budget - 2, by omega⟩
      have before : stop - BitVec.ofNat 64 4 < stop := by bv_omega
      have second : stop ≤ stop - BitVec.ofNat 64 4 + 4 := by bv_omega
      have done : ¬ stop - BitVec.ofNat 64 4 + 8 < stop := by bv_omega
      rw [scanProcedure, if_pos before, read]
      dsimp only
      rw [Scan.track_behind second, Scan.track_before before, isInsn, scanProcedure, if_neg done]
      rfl
  | @pair first second rest word read isFirst isSecond stored ih =>
      simp only [List.length_cons] at fits enough ⊢
      obtain ⟨budget, rfl⟩ : ∃ b, budget = b + 1 := ⟨budget - 1, by omega⟩
      have before : stop - BitVec.ofNat 64 (4 * (rest.length + 2)) < stop := by bv_omega
      have beforeSecond : stop - BitVec.ofNat 64 (4 * (rest.length + 2)) + 4 < stop := by bv_omega
      have next : stop - BitVec.ofNat 64 (4 * (rest.length + 2)) + 8 =
          stop - BitVec.ofNat 64 (4 * rest.length) := by bv_omega
      rw [scanProcedure, if_pos before, read]
      dsimp only
      rw [Scan.track_before beforeSecond, Scan.track_before before, next, isFirst, isSecond]
      exact ih (by omega) (by omega) _

end Scanning

/-- A procedure whose code up to the instruction pointer of `c` can be found and read. -/
structure Procedure (host : Host) (as : AddrSpace 64) (c : A64Cursor) where
  code : List (BitVec 32)
  stored : CodeUpTo as c.ip code
  fits : 4 * code.length ≤ c.ip.toNat
  named : host.getProcName c.ip = some (BitVec.ofNat 64 (4 * code.length))

section Scanned

variable {host : Host} {as : AddrSpace 64} {c : A64Cursor}

/-- What the scanner goes through: nothing where it takes the code for a PLT entry. -/
def Procedure.scanned (p : Procedure host as c) : List (BitVec 32) :=
  if isPltEntry as c then [] else p.code

def Procedure.scan (p : Procedure host as c) : Scan := ({} : Scan).all p.scanned

/-- The tracker met an instruction that makes the stack pointer uncertain. -/
def Procedure.Ambiguous (p : Procedure host as c) : Prop := p.scan.spState = .unknown

theorem Procedure.getFrameState_eq (p : Procedure host as c) {budget : Nat}
    (enough : p.code.length < budget) :
    getFrameState host as budget c = .ok p.scan.report := by
  rw [getFrameState, p.named, Procedure.scan, Procedure.scanned]
  cases isPltEntry as c with
  | true => rfl
  | false => exact scanProcedure_eq p.stored p.fits enough {}

end Scanned

/-! ## What the instructions do -/

/-- The instructions whose effect on the stack pointer the tracker knows. -/
def IsKnown (insn : BitVec 32) : Prop :=
  insn &&& 0xff8003ff = 0xd10003ff ∨ insn &&& 0xff8003ff = 0x910003ff ∨
    (insn &&& 0xffc003e0 = 0xa98003e0 ∧ isFramePair insn = false) ∨
    (insn &&& 0xffc003e0 = 0xa8c003e0 ∧ isFramePair insn = false) ∨
    insn &&& 0xffe00fe0 = 0xf8000fe0 ∨ insn &&& 0xffe00fe0 = 0xf84007e0

instance decidableIsKnown (insn : BitVec 32) : Decidable (IsKnown insn) :=
  inferInstanceAs (Decidable (_ ∨ _))

theorem ofInt_addImmediate (insn : BitVec 32) :
    BitVec.ofInt 64 (addImmediate insn) = addend insn := by
  have digits : (insn >>> 10 &&& 0xfff).toNat = (field insn 10 12).toNat := by
    rw [field, BitVec.extractLsb'_toNat, BitVec.toNat_and, BitVec.toNat_ushiftRight]
    exact Nat.and_two_pow_sub_one_eq_mod _ 12
  have shifted : insn &&& 0x00400000 ≠ 0 ↔ field insn 22 1 = 1 := by
    have bit : (0x00400000 : BitVec 32) = BitVec.twoPow 32 22 := by decide
    have one : field insn 22 1 = 1 ↔ insn.getLsbD 22 = true := by
      rw [BitVec.eq_of_getLsbD_eq_iff]
      simp [field]
    rw [bit, BitVec.and_twoPow, one]
    cases insn.getLsbD 22 with
    | true => exact iff_of_true (by decide) rfl
    | false => simp
  have wide : BitVec.ofInt 64 ((field insn 10 12).toNat : Int) =
      (field insn 10 12).setWidth 64 := by
    rw [BitVec.ofInt_natCast, BitVec.ofNat_toNat]
  unfold addImmediate addend
  simp only [digits, ite_not, ne_eq]
  by_cases up : field insn 22 1 = 1
  · rw [if_pos up, if_neg (shifted.mpr up)]
    apply BitVec.eq_of_toNat_eq
    have := (field insn 10 12).isLt
    simp only [BitVec.ofInt_natCast, BitVec.toNat_ofNat, Nat.shiftLeft_eq, BitVec.toNat_shiftLeft,
      BitVec.toNat_setWidth]
    omega
  · rw [if_neg up, if_pos (by simpa using mt shifted.mp up), wide]
    simp

theorem ofInt_pairImmediate (insn : BitVec 32) :
    BitVec.ofInt 64 (pairImmediate insn * 8) = pairOffset insn := by
  rw [pairImmediate, pairOffset, field, BitVec.signExtend, BitVec.ofInt_mul]
  rfl

theorem ofInt_storeImmediate (insn : BitVec 32) :
    BitVec.ofInt 64 (storeImmediate insn) = indexOffset insn := rfl

section Effects

variable {insn : BitVec 32}

/-- Forms that differ in the first byte exclude each other. -/
theorem not_masked {mask value mask' value' : BitVec 32} (masked : insn &&& mask = value)
    (covered : field mask 24 8 = BitVec.allOnes 8) (covered' : field mask' 24 8 = BitVec.allOnes 8)
    (differ : field value 24 8 ≠ field value' 24 8) : insn &&& mask' ≠ value' := by
  intro masked'
  exact differ ((field_of_masked masked covered).symm.trans (field_of_masked masked' covered'))

theorem spCredit_sub (masked : insn &&& 0xff8003ff = 0xd10003ff) :
    spCredit insn = addImmediate insn := by
  have wider := congrArg (· &&& (0xff0003ff : BitVec 32)) masked
  simp only [BitVec.and_assoc] at wider
  exact if_pos wider

theorem spCredit_add (masked : insn &&& 0xff8003ff = 0x910003ff) :
    spCredit insn = -addImmediate insn := by
  have notSub : insn &&& 0xff0003ff ≠ 0xd10003ff := not_masked masked rfl rfl (by decide)
  have wider := congrArg (· &&& (0xff0003ff : BitVec 32)) masked
  simp only [BitVec.and_assoc] at wider
  rw [spCredit, if_neg notSub]
  exact if_pos wider

theorem spCredit_stp (masked : insn &&& 0xffc003e0 = 0xa98003e0)
    (others : isFramePair insn = false) : spCredit insn = -(pairImmediate insn * 8) := by
  have notSub : insn &&& 0xff0003ff ≠ 0xd10003ff := not_masked masked rfl rfl (by decide)
  have notAdd : insn &&& 0xff0003ff ≠ 0x910003ff := not_masked masked rfl rfl (by decide)
  rw [spCredit, if_neg notSub, if_neg notAdd, if_pos masked, others]
  rfl

theorem spCredit_ldp (masked : insn &&& 0xffc003e0 = 0xa8c003e0)
    (others : isFramePair insn = false) : spCredit insn = -(pairImmediate insn * 8) := by
  have notSub : insn &&& 0xff0003ff ≠ 0xd10003ff := not_masked masked rfl rfl (by decide)
  have notAdd : insn &&& 0xff0003ff ≠ 0x910003ff := not_masked masked rfl rfl (by decide)
  have notStp : insn &&& 0xffc003e0 ≠ 0xa98003e0 := not_masked masked rfl rfl (by decide)
  rw [spCredit, if_neg notSub, if_neg notAdd, if_neg notStp, if_pos masked, others]
  rfl

theorem spCredit_indexed
    (masked : insn &&& 0xffe00fe0 = 0xf8000fe0 ∨ insn &&& 0xffe00fe0 = 0xf84007e0) :
    spCredit insn = -storeImmediate insn := by
  have opcode : field insn 24 8 = 0xf8 := by
    cases masked with
    | inl str => exact field_of_masked str rfl
    | inr ldr => exact field_of_masked ldr rfl
  have excludes {mask value : BitVec 32} (covered : field mask 24 8 = BitVec.allOnes 8)
      (differ : 0xf8 ≠ field value 24 8) : insn &&& mask ≠ value := by
    intro masked'
    exact differ (opcode.symm.trans (field_of_masked masked' covered))
  rw [spCredit, if_neg (excludes rfl (by decide)), if_neg (excludes rfl (by decide)),
    if_neg (excludes rfl (by decide)), if_neg (excludes rfl (by decide))]
  cases masked with
  | inl str => rw [if_pos str]
  | inr ldr =>
      split
      · rfl
      · rfl

variable (other : BitVec 32 → Cpu → Cpu) (c : Cpu)

/-- An instruction that the tracker knows moves the stack pointer by its credit. -/
theorem exec_sp (known : IsKnown insn) :
    (c.exec insn other).sp = c.sp - BitVec.ofInt 64 (spCredit insn) := by
  obtain sub | add | ⟨stp, others⟩ | ⟨ldp, others⟩ | indexed := known
  · have isAddSub : IsAddSub insn :=
      ⟨field_of_masked sub rfl, field_of_masked sub rfl, field_of_masked sub rfl⟩
    have dest : rd insn = 31 := field_of_masked sub rfl
    have base : rn insn = 31 := field_of_masked sub rfl
    have op : field insn 30 1 = 1 := field_of_masked sub rfl
    simp [Cpu.exec, isAddSub, Cpu.execAddSub, dest, base, op, Cpu.sp, spCredit_sub sub,
      ofInt_addImmediate]
  · have isAddSub : IsAddSub insn :=
      ⟨field_of_masked add rfl, field_of_masked add rfl, field_of_masked add rfl⟩
    have dest : rd insn = 31 := field_of_masked add rfl
    have base : rn insn = 31 := field_of_masked add rfl
    have op : field insn 30 1 = 0 := field_of_masked add rfl
    simp [Cpu.exec, isAddSub, Cpu.execAddSub, dest, base, op, Cpu.sp, spCredit_add add,
      ofInt_addImmediate, BitVec.ofInt_neg]
  · have isPair : IsPair insn := field_of_masked stp rfl
    have isStore : ¬ IsLoad insn := by
      rw [IsLoad, field_of_masked stp rfl]
      decide
    have isPre : IsPreIndex insn := field_of_masked stp rfl
    have base : rn insn = 31 := field_of_masked stp rfl
    simp [Cpu.exec, isPair.notAddSub, isPair, Cpu.execPair, base, isStore, isPre, Cpu.sp,
      spCredit_stp stp others, ofInt_pairImmediate, BitVec.ofInt_neg]
  · have isPair : IsPair insn := field_of_masked ldp rfl
    have isPost : IsPostIndex insn := field_of_masked ldp rfl
    have base : rn insn = 31 := field_of_masked ldp rfl
    simp [Cpu.exec, isPair.notAddSub, isPair, Cpu.execPair, base, isPost, Cpu.sp,
      spCredit_ldp ldp others, ofInt_pairImmediate, BitVec.ofInt_neg]
  · have isIndexed : IsIndexed insn := by
      cases indexed with
      | inl str =>
          exact ⟨field_of_masked str rfl, field_of_masked str rfl, field_of_masked str rfl,
            field_of_masked str rfl⟩
      | inr ldr =>
          exact ⟨field_of_masked ldr rfl, field_of_masked ldr rfl, field_of_masked ldr rfl,
            field_of_masked ldr rfl⟩
    have base : rn insn = 31 := by
      cases indexed with
      | inl str => exact field_of_masked str rfl
      | inr ldr => exact field_of_masked ldr rfl
    simp [Cpu.exec, isIndexed.notAddSub, isIndexed.notPair, isIndexed, Cpu.execIndexed, base, Cpu.sp,
      spCredit_indexed indexed, ofInt_storeImmediate, BitVec.ofInt_neg]

end Effects

/-! ## The offset and the stack pointer -/

/-- How far down the instructions that the scanner does not know move the stack pointer, beyond
    their credit. -/
def strayMoves (other : BitVec 32 → Cpu → Cpu) : List (BitVec 32) → Cpu → Word 64
  | [], _ => 0
  | insn :: rest, c =>
      (if IsKnown insn then 0
        else c.sp - (c.exec insn other).sp - BitVec.ofInt 64 (spCredit insn)) +
        strayMoves other rest (c.exec insn other)

theorem run_sp (other : BitVec 32 → Cpu → Cpu) (code : List (BitVec 32)) (c : Cpu) :
    c.sp - (c.run other code).sp =
      BitVec.ofInt 64 (code.map spCredit).sum + strayMoves other code c := by
  induction code generalizing c with
  | nil => simp [strayMoves]
  | cons insn rest ih =>
      have later := ih (c.exec insn other)
      rw [Cpu.run_cons, strayMoves, List.map_cons, List.sum_cons, BitVec.ofInt_add]
      by_cases known : IsKnown insn
      · rw [if_pos known]
        have here := exec_sp other c known
        linear_combination later - here
      · rw [if_neg known]
        linear_combination later

section Sound

variable {host : Host} {as : AddrSpace 64} {c : A64Cursor}

/-- How far down all that the scanner leaves out moves the stack pointer. -/
def Procedure.strays (p : Procedure host as c) (other : BitVec 32 → Cpu → Cpu) (cpu : Cpu) :
    Word 64 :=
  if isPltEntry as c then cpu.sp - (cpu.run other p.code).sp else strayMoves other p.code cpu

/-- Where no frame record is reported, the offset is how far down the stack pointer went. -/
def Procedure.OffsetSound (p : Procedure host as c) (fs : FrameState)
    (other : BitVec 32 → Cpu → Cpu) (cpu : Cpu) : Prop :=
  fs.loc = .none →
    (fs.offset ≠ 0 → cpu.sp - (cpu.run other p.code).sp = BitVec.ofInt 64 fs.offset) ∧
      (fs.offset = 0 → ¬ p.Ambiguous → (cpu.run other p.code).sp = cpu.sp)

theorem Procedure.sp_eq (p : Procedure host as c) (other : BitVec 32 → Cpu → Cpu) (cpu : Cpu)
    (certain : ¬ p.Ambiguous) :
    cpu.sp - (cpu.run other p.code).sp =
      BitVec.ofInt 64 p.scan.spOffset + p.strays other cpu := by
  have sum := (Scan.all_offset Scan.start_carries p.scanned certain).2
  rw [Procedure.scan, sum, Procedure.scanned, Procedure.strays]
  cases isPltEntry as c with
  | true => simp
  | false =>
      rw [run_sp]
      simp

/-- The scanner's offset is right exactly when what it leaves out moves the stack pointer by
    nothing in all. -/
theorem Procedure.offsetSound_iff (p : Procedure host as c) {budget : Nat}
    (enough : p.code.length < budget) (other : BitVec 32 → Cpu → Cpu) (cpu : Cpu) :
    (∀ insn state offset, SpState.Carries state offset →
        (trackStackPointer insn state offset).1.Carries
          (trackStackPointer insn state offset).2) ∧
      ∃ fs, getFrameState host as budget c = .ok fs ∧
        (p.OffsetSound fs other cpu ↔
          (fs.loc = .none → ¬ p.Ambiguous → p.strays other cpu = 0)) := by
  refine ⟨fun insn state offset => (trackStackPointer_step insn state offset).carries, _,
    p.getFrameState_eq enough, ?_⟩
  have isScan : p.scan.report.loc = .none → p.scan.report.offset = p.scan.spOffset := by
    intro none
    have same : p.scan.fs.loc = .none := by
      unfold Scan.report at none
      split at none
      next here => exact here
      next => exact none
    rw [Scan.report, if_pos same]
  have carries : p.scan.spState.Carries p.scan.spOffset := Scan.all_carries Scan.start_carries p.scanned
  constructor
  · intro sound none certain
    have moved := p.sp_eq other cpu certain
    obtain ⟨adjusted, same⟩ := sound none
    rw [isScan none] at adjusted same
    by_cases zero : p.scan.spOffset = 0
    · have back := same zero certain
      rw [back, zero] at moved
      simpa using moved.symm
    · rw [adjusted zero] at moved
      simpa using moved
  · intro stray none
    rw [isScan none]
    constructor
    · intro nonzero
      have certain : ¬ p.Ambiguous := by
        intro ambiguous
        rw [Procedure.Ambiguous] at ambiguous
        rw [ambiguous] at carries
        exact nonzero carries
      simpa [stray none certain] using p.sp_eq other cpu certain
    · intro zero certain
      have moved := p.sp_eq other cpu certain
      rw [stray none certain, zero] at moved
      have : cpu.sp - (cpu.run other p.code).sp = 0 := by simpa using moved
      exact (sub_eq_zero.mp this).symm

end Sound

/-! ## A frame record that is left on the stack -/

namespace LeftRecord

/-- `stp x29, x30, [sp, #-48]!`, `mov x29, sp` and `ldp x29, x30, [sp]` at `0x1000`. -/
def space : AddrSpace 64 where
  bigEndian := false
  readByte := fun _ => .error .inval
  accessMem := fun addr =>
    if addr = 0x1000 then .ok 0x910003fda9bd7bfd
    else if addr = 0x1008 then .ok 0xd503201fa9407bfd
    else .error .inval
  accessReg := fun _ => .error .badreg
  accessFpreg := fun _ => .error .badreg

def host : Host := { localOnly := true, getProcName := fun _ => some 12 }

/-- The cursor behind the three instructions. -/
def cursor : A64Cursor := { cfa := 0x8000, ip := 0x100c, loc := fun _ => nullLoc, tdep := {} }

def code : List (BitVec 32) := [0xa9bd7bfd, 0x910003fd, 0xa9407bfd]

theorem first_word : space.accessMem 0x1000 = .ok 0x910003fda9bd7bfd := rfl

theorem last_word : space.accessMem 0x1008 = .ok 0xd503201fa9407bfd := rfl

theorem code_stored : CodeUpTo space cursor.ip code :=
  .pair first_word rfl rfl (.last (by decide) last_word rfl)

theorem code_fits : 4 * code.length ≤ cursor.ip.toNat := by decide

def procedure : Procedure host space cursor := ⟨code, code_stored, code_fits, rfl⟩

def cpu : Cpu := ⟨fun r => if r = 31 then 0x8000 else 0, fun _ => 0⟩

/-- No record and no offset are reported, with the stack pointer 48 below its value at entry. -/
theorem offset_missed :
    ¬ ∀ fs, getFrameState host space 4 cursor = .ok fs →
      procedure.OffsetSound fs (fun _ c => c) cpu := by
  intro sound
  have reported : getFrameState host space 4 cursor = .ok ⟨.none, 0⟩ := by decide
  have certain : procedure.scan.spState ≠ .unknown := by decide
  have back := (sound _ reported rfl).2 rfl certain
  exact absurd back (by decide)

theorem offset_iff :
    (∀ insn state offset, SpState.Carries state offset →
        (trackStackPointer insn state offset).1.Carries
          (trackStackPointer insn state offset).2) ∧
      ∃ fs, getFrameState host space 4 cursor = .ok fs ∧
        (procedure.OffsetSound fs (fun _ c => c) cpu ↔
          (fs.loc = .none → ¬ procedure.Ambiguous → procedure.strays (fun _ c => c) cpu = 0)) :=
  procedure.offsetSound_iff (by decide) (fun _ c => c) cpu

end LeftRecord

end Libunwind.AArch64
