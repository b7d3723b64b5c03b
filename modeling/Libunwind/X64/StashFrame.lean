import Libunwind.X64.Frame

/-! # What `tdep_stash_frame` records

The cases in which a frame is recorded as standard or aligned, and the offsets
that its bit-fields hold exactly.
-/

namespace Libunwind.X86_64

open Dwarf

/-- The offsets that a rule saves at and the test of `tdep_stash_frame` admits. -/
theorem stashOffset_exact {rule : Rule 64} {recorded} (standard : isStandardRule rule)
    (saved : rule.how = .cfarel) (notMin : rule.val ≠ BitVec.intMin 64) :
    (stashOffset rule recorded).signExtend 64 = rule.val ∧ stashOffset rule recorded ≠ -1 := by
  simp only [isStandardRule, saved, Bool.and_eq_true, decide_eq_true_eq, bne_iff_ne,
    ne_eq] at standard
  obtain ⟨above, below⟩ := labs_lt notMin standard.1
  have exact : (rule.val.setWidth 15).signExtend 64 = rule.val :=
    signExtend_setWidth (by decide) (by omega) (by omega)
  simp only [stashOffset, saved]
  refine ⟨exact, fun sentinel => standard.2 ?_⟩
  rw [← exact, sentinel]
  decide

/-! ## The cases -/

/-- What `trace_init_addr` and `tdep_reuse_frame` leave before the step. -/
def Frame.Unrecorded (f : Frame) : Prop :=
  (f.frameType = .other ∨ f.frameType = .sigreturn) ∧ f.rbpCfaOffset = -1

section Cases

variable {as : AddrSpace 64} {d : X86Cursor} {rs : RegState 17 64} {f : Frame}

/-- What is recorded of an aligned frame. -/
def alignedFrame (offset : Word 64) (before : Frame) : Frame :=
  { before with frameType := .aligned, cfaRegOffset := offset.setWidth 29, cfaRegRsp := false }

theorem stashFrame_aligned (fresh : f.Unrecorded)
    (recorded : (stashFrame as d rs f).frameType = .aligned) :
    ∃ offset, alignedOffset as rs = some offset ∧
      stashFrame as d rs f = alignedFrame offset f := by
  rw [stashFrame] at recorded ⊢
  cases found : alignedOffset as rs with
  | some offset => exact ⟨offset, rfl, by simp [alignedFrame]⟩
  | none =>
      simp only [found] at recorded
      split at recorded
      · exact nomatch recorded
      · rcases fresh.1 with other | sigreturn
        · exact nomatch other.symm.trans recorded
        · exact nomatch sigreturn.symm.trans recorded

/-- What is recorded of a standard frame. -/
def standardFrame (rs : RegState 17 64) (before : Frame) : Frame where
  frameType := .standard
  cfaRegRsp := (rs.reg (cfaRegColumn 17)).val == 7
  cfaRegOffset := (rs.reg (cfaOffColumn 17)).val.setWidth 29
  rbpCfaOffset := stashOffset (rs.reg (regColumn rbp)) before.rbpCfaOffset
  rspCfaOffset := stashOffset (rs.reg (regColumn rsp)) before.rspCfaOffset

theorem stashFrame_standard (fresh : f.Unrecorded)
    (recorded : (stashFrame as d rs f).frameType = .standard) :
    isStandard d rs ∧ stashFrame as d rs f = standardFrame rs f := by
  rw [stashFrame] at recorded ⊢
  cases found : alignedOffset as rs with
  | some offset => simp [found] at recorded
  | none =>
      simp only [found] at recorded ⊢
      split at recorded
      · next standard => exact ⟨standard.2, by rw [if_pos standard, standardFrame]⟩
      · rcases fresh.1 with other | sigreturn
        · exact nomatch other.symm.trans recorded
        · exact nomatch sigreturn.symm.trans recorded

/-- The tests that make a frame standard. -/
structure Standard (d : X86Cursor) (rs : RegState 17 64) : Prop where
  cfaIsReg : (rs.reg (cfaRegColumn 17)).how = .reg
  cfaReg : (rs.reg (cfaRegColumn 17)).val = 6 ∨ (rs.reg (cfaRegColumn 17)).val = 7
  cfaOffset : labs (rs.reg (cfaOffColumn 17)).val < 2 ^ 28
  returnLoc : (returnLoc d rs).val = d.cfa - 8
  rbp : isStandardRule (rs.reg (regColumn rbp))
  rsp : isStandardRule (rs.reg (regColumn rsp))

theorem isStandard_iff : isStandard d rs ↔ Standard d rs := by
  simp only [isStandard, Bool.and_eq_true, Bool.or_eq_true, decide_eq_true_eq, beq_iff_eq]
  constructor
  · rintro ⟨⟨⟨⟨⟨cfaIsReg, cfaReg⟩, cfaOffset⟩, returnLoc⟩, rbp⟩, rsp⟩
    exact ⟨cfaIsReg, cfaReg, cfaOffset, returnLoc, rbp, rsp⟩
  · rintro ⟨cfaIsReg, cfaReg, cfaOffset, returnLoc, rbp, rsp⟩
    exact ⟨⟨⟨⟨⟨cfaIsReg, cfaReg⟩, cfaOffset⟩, returnLoc⟩, rbp⟩, rsp⟩

/-- The bytes of the two expressions of an aligned frame. -/
structure AlignedBlocks (as : AddrSpace 64) (cfaAddr rbpAddr offset rbpBlock cfaBlock : Word 64) :
    Prop where
  rbpLength : readUleb128 as rbpAddr = .ok (2, rbpBlock)
  rbpOpcode : as.readByte rbpBlock = .ok opBreg6
  rbpOperand : ∃ next, readSleb128 as (rbpBlock + 1) = .ok (0, next)
  cfaLength : readUleb128 as cfaAddr = .ok (3, cfaBlock)
  cfaOpcode : as.readByte cfaBlock = .ok opBreg6
  cfaOperand : ∃ next, readSleb128 as (cfaBlock + 1) = .ok (offset, next) ∧
    as.readByte next = .ok opDeref

theorem require_bind {α : Type} {test : Bool} {rest : Unit → Result α} {a : α} :
    (require test >>= rest) = .ok a ↔ test = true ∧ rest () = .ok a := by
  cases test <;> simp [require]

theorem readu8_ok {addr next : Word 64} {byte} (read : readu8 as addr = .ok (byte, next)) :
    as.readByte addr = .ok byte ∧ next = addr + 1 := by
  cases stored : as.readByte addr with
  | error code =>
      rw [readu8_fails stored] at read
      exact nomatch read
  | ok byte' =>
      rw [readu8_byte stored] at read
      obtain ⟨rfl, rfl⟩ := Prod.mk.inj (Except.ok.inj read)
      exact ⟨rfl, rfl⟩

theorem dwarfStackAligned_ok {cfaAddr rbpAddr offset : Word 64}
    (aligned : dwarfStackAligned as cfaAddr rbpAddr = .ok offset) :
    ∃ rbpBlock cfaBlock, AlignedBlocks as cfaAddr rbpAddr offset rbpBlock cfaBlock := by
  obtain ⟨⟨len, rbpBlock⟩, rbpLength, aligned⟩ := bind_eq_ok.mp aligned
  obtain ⟨two, aligned⟩ := require_bind.mp aligned
  obtain ⟨⟨opcode, addr⟩, rbpOpcode, aligned⟩ := bind_eq_ok.mp aligned
  obtain ⟨breg6, aligned⟩ := require_bind.mp aligned
  obtain ⟨⟨operand, next⟩, rbpOperand, aligned⟩ := bind_eq_ok.mp aligned
  obtain ⟨zero, aligned⟩ := require_bind.mp aligned
  obtain ⟨⟨len', cfaBlock⟩, cfaLength, aligned⟩ := bind_eq_ok.mp aligned
  obtain ⟨three, aligned⟩ := require_bind.mp aligned
  obtain ⟨⟨opcode', addr'⟩, cfaOpcode, aligned⟩ := bind_eq_ok.mp aligned
  obtain ⟨breg6', aligned⟩ := require_bind.mp aligned
  obtain ⟨⟨operand', next'⟩, cfaOperand, aligned⟩ := bind_eq_ok.mp aligned
  obtain ⟨⟨opcode'', last⟩, deref, aligned⟩ := bind_eq_ok.mp aligned
  obtain ⟨isDeref, aligned⟩ := require_bind.mp aligned
  obtain rfl : operand' = offset := Except.ok.inj aligned
  obtain rfl := eq_of_beq two
  obtain rfl := eq_of_beq breg6
  obtain rfl := eq_of_beq zero
  obtain rfl := eq_of_beq three
  obtain rfl := eq_of_beq breg6'
  obtain rfl := eq_of_beq isDeref
  obtain ⟨rbpStored, rfl⟩ := readu8_ok rbpOpcode
  obtain ⟨cfaStored, rfl⟩ := readu8_ok cfaOpcode
  exact ⟨rbpBlock, cfaBlock, rbpLength, rbpStored, ⟨next, rbpOperand⟩, cfaLength, cfaStored,
    next', cfaOperand, (readu8_ok deref).1⟩

theorem alignedOffset_some {offset} (aligned : alignedOffset as rs = some offset) :
    (rs.reg (cfaRegColumn 17)).how = .expr ∧ (rs.reg (regColumn rbp)).how = .expr ∧
      ∃ rbpBlock cfaBlock, AlignedBlocks as (rs.reg (cfaRegColumn 17)).val
        (rs.reg (regColumn rbp)).val offset rbpBlock cfaBlock := by
  rw [alignedOffset] at aligned
  split at aligned
  · next exprs =>
      refine ⟨exprs.1, exprs.2, ?_⟩
      cases found : dwarfStackAligned as (rs.reg (cfaRegColumn 17)).val
          (rs.reg (regColumn rbp)).val with
      | error f => simp [found, Except.toOption] at aligned
      | ok offset' =>
          simp only [found, Except.toOption, Option.some.injEq] at aligned
          exact dwarfStackAligned_ok (aligned ▸ found)
  · exact nomatch aligned

end Cases

end Libunwind.X86_64
