import Libunwind.A64.StackOffset

/-! # The frame record of the prologue scanner

`track_frame_record` takes the pair of X29 and X30 to be where it was stored: at an offset from the
stack pointer, and from an `ADD` to X29 on, at X29. In each state it looks for one instruction only,
so that the others have to leave alone what the state relies on.
-/

namespace Libunwind.AArch64

open Dwarf

/-- The instructions that `track_frame_record` looks for. -/
def StoresRecord (insn : BitVec 32) : Prop := insn &&& 0xfe407fff = 0xa8007bfd
def SetsFramePointer (insn : BitVec 32) : Prop := insn &&& 0xff0003ff = 0x910003fd
def LoadsRecord (insn : BitVec 32) : Prop := insn &&& 0xfe407fff = 0xa8407bfd

/-- The variant of the store that `track_frame_record` takes the offset of. -/
def StoresAtOffset (insn : BitVec 32) : Prop := insn &&& 0xffc07fff = 0xa9007bfd

instance decidableStoresAtOffset (insn : BitVec 32) : Decidable (StoresAtOffset insn) :=
  inferInstanceAs (Decidable (_ = _))

instance decidableStoresRecord (insn : BitVec 32) : Decidable (StoresRecord insn) :=
  inferInstanceAs (Decidable (_ = _))

instance decidableSetsFramePointer (insn : BitVec 32) : Decidable (SetsFramePointer insn) :=
  inferInstanceAs (Decidable (_ = _))

instance decidableLoadsRecord (insn : BitVec 32) : Decidable (LoadsRecord insn) :=
  inferInstanceAs (Decidable (_ = _))

/-- The values that X29 and X30 have at the entry are stored at an address. -/
def Cpu.HoldsPair (c : Cpu) (addr : Word 64) (entry : Cpu) : Prop :=
  c.load addr = entry.reg 29 ∧ c.load (addr + 8) = entry.reg 30

/-- Two states have the same pair at an address. -/
def Cpu.SamePair (c c' : Cpu) (addr : Word 64) : Prop :=
  c'.load addr = c.load addr ∧ c'.load (addr + 8) = c.load (addr + 8)

/-- The pair is where a frame state says. -/
def FrameState.Locates (fs : FrameState) (entry c : Cpu) : Prop :=
  match fs.loc with
  | .none => c.reg 29 = entry.reg 29 ∧ c.reg 30 = entry.reg 30
  | .atSpOffset => c.HoldsPair (c.sp + BitVec.ofInt 64 fs.offset) entry
  | .atFp => c.HoldsPair (c.reg 29) entry

/-- An instruction leaves alone what a frame state relies on, or it is the one that the state
    waits for and is about the place where the pair is tracked. -/
def FrameState.Respects (fs : FrameState) (insn : BitVec 32) (c c' : Cpu) : Prop :=
  match fs.loc with
  | .none =>
      if StoresRecord insn then
        c.pairAddr insn = c'.sp + BitVec.ofInt 64 (trackFrameRecord insn fs).offset
      else c'.reg 29 = c.reg 29 ∧ c'.reg 30 = c.reg 30
  | .atSpOffset =>
      c.SamePair c' (c.sp + BitVec.ofInt 64 fs.offset) ∧
        if SetsFramePointer insn then c'.reg 29 = c.sp + BitVec.ofInt 64 fs.offset
        else c'.sp = c.sp
  | .atFp =>
      if LoadsRecord insn then c.pairAddr insn = c.reg 29
      else c'.reg 29 = c.reg 29 ∧ c.SamePair c' (c.reg 29)

section Effects

variable {insn : BitVec 32} (other : BitVec 32 → Cpu → Cpu) (c : Cpu)

/-- A store of the pair writes it at the address of the pair. -/
theorem exec_storesRecord (stores : StoresRecord insn) :
    (c.exec insn other).HoldsPair (c.pairAddr insn) c := by
  have isPair : IsPair insn := field_of_masked stores rfl
  have isStore : ¬ IsLoad insn := by
    rw [IsLoad, field_of_masked stores rfl]
    decide
  have first : rd insn = 29 := field_of_masked stores rfl
  have second : rt2 insn = 30 := field_of_masked stores rfl
  have stored : (c.exec insn other).mem =
      ((c.store (c.pairAddr insn) (c.reg 29)).store (c.pairAddr insn + 8) (c.reg 30)).mem := by
    simp only [Cpu.exec, if_neg isPair.notAddSub, if_pos isPair, Cpu.execPair, if_neg isStore, first,
      second]
    split
    · rfl
    · rfl
  constructor
  · rw [Cpu.load_congr fun _ _ => congrFun stored _, Cpu.load_store_below, Cpu.load_store_same]
  · rw [Cpu.load_congr fun _ _ => congrFun stored _, Cpu.load_store_same]

/-- A load of the pair reads it at the address of the pair. -/
theorem exec_loadsRecord (loads : LoadsRecord insn) :
    (c.exec insn other).reg 29 = c.load (c.pairAddr insn) ∧
      (c.exec insn other).reg 30 = c.load (c.pairAddr insn + 8) := by
  have isPair : IsPair insn := field_of_masked loads rfl
  have isLoad : IsLoad insn := field_of_masked loads rfl
  have first : rd insn = 29 := field_of_masked loads rfl
  have second : rt2 insn = 30 := field_of_masked loads rfl
  have base : rn insn = 31 := field_of_masked loads rfl
  simp only [Cpu.exec, if_neg isPair.notAddSub, if_pos isPair, Cpu.execPair, if_pos isLoad, first,
    second, base]
  split
  · simp [Cpu.setData, Cpu.setReg, Function.update]
  · simp [Cpu.setData, Cpu.setReg, Function.update]

/-- The stack pointer behind a store of the pair. -/
theorem exec_storesRecord_sp (stores : StoresRecord insn) :
    (c.exec insn other).sp =
      if IsPostIndex insn ∨ IsPreIndex insn then c.sp + pairOffset insn else c.sp := by
  have isPair : IsPair insn := field_of_masked stores rfl
  have isStore : ¬ IsLoad insn := by
    rw [IsLoad, field_of_masked stores rfl]
    decide
  have base : rn insn = 31 := field_of_masked stores rfl
  simp only [Cpu.exec, if_neg isPair.notAddSub, if_pos isPair, Cpu.execPair, if_neg isStore, base]
  split
  · simp [Cpu.sp]
  · simp [Cpu.sp]

/-- Where there is no record, a store of the pair is tracked right if it is pre-indexed or has a
    signed offset, and else if its offset is zero. -/
theorem respects_store_iff (stores : StoresRecord insn) (offset : Int) :
    (⟨.none, offset⟩ : FrameState).Respects insn c (c.exec insn other) ↔
      IsPreIndex insn ∨ StoresAtOffset insn ∨ pairOffset insn = 0 := by
  have base : rn insn = 31 := field_of_masked stores rfl
  have tracked : (trackFrameRecord insn ⟨.none, offset⟩).offset =
      if StoresAtOffset insn then pairImmediate insn * 8 else 0 :=
    congrArg FrameState.offset
      (if_pos stores : trackFrameRecord insn ⟨.none, offset⟩ = ⟨.atSpOffset, _⟩)
  simp only [FrameState.Respects, if_pos stores, tracked, exec_storesRecord_sp other c stores,
    Cpu.pairAddr, base]
  by_cases signed : StoresAtOffset insn
  · have mode : field insn 23 2 = 0b10 := field_of_masked signed rfl
    have notPost : ¬ IsPostIndex insn := by simp [IsPostIndex, mode]
    have notPre : ¬ IsPreIndex insn := by simp [IsPreIndex, mode]
    simp [signed, notPost, notPre, ofInt_pairImmediate, Cpu.sp]
  · simp only [signed, if_false, false_or]
    by_cases pre : IsPreIndex insn
    · have notPost : ¬ IsPostIndex insn := by
        intro post
        exact absurd (pre.symm.trans post) (by decide)
      simp [pre, notPost, Cpu.sp]
    · by_cases post : IsPostIndex insn
      · simp [pre, post, Cpu.sp]
      · simp [pre, post, Cpu.sp]

/-- An addition to or subtraction from the stack pointer disturbs the tracker only between the
    store and the `ADD` to X29. -/
theorem respects_moveSp_iff
    (moves : insn &&& 0xff8003ff = 0xd10003ff ∨ insn &&& 0xff8003ff = 0x910003ff)
    (fs : FrameState) :
    fs.Respects insn c (c.exec insn other) ↔ (fs.loc = .atSpOffset → addend insn = 0) := by
  obtain ⟨loc, offset⟩ := fs
  have dest : rd insn = 31 := by
    cases moves with
    | inl sub => exact field_of_masked sub rfl
    | inr add => exact field_of_masked add rfl
  have base : rn insn = 31 := by
    cases moves with
    | inl sub => exact field_of_masked sub rfl
    | inr add => exact field_of_masked add rfl
  have isAddSub : IsAddSub insn := by
    cases moves with
    | inl sub => exact ⟨field_of_masked sub rfl, field_of_masked sub rfl, field_of_masked sub rfl⟩
    | inr add => exact ⟨field_of_masked add rfl, field_of_masked add rfl, field_of_masked add rfl⟩
  have notStore : ¬ StoresRecord insn := by
    intro stores
    have isPair : IsPair insn := field_of_masked stores rfl
    exact isPair.notAddSub isAddSub
  have notLoad : ¬ LoadsRecord insn := by
    intro loads
    have isPair : IsPair insn := field_of_masked loads rfl
    exact isPair.notAddSub isAddSub
  have notSets : ¬ SetsFramePointer insn := by
    intro sets
    have toFp : rd insn = 29 := field_of_masked sets rfl
    exact absurd (dest.symm.trans toFp) (by decide)
  have moved : c.exec insn other = c.setReg 31
      (if field insn 30 1 = 1 then c.sp - addend insn else c.sp + addend insn) := by
    rw [Cpu.exec, if_pos isAddSub, Cpu.execAddSub, dest, base]
    rfl
  have fp : (c.exec insn other).reg 29 = c.reg 29 := by
    rw [moved, Cpu.setReg_other _ (by decide)]
  have lr : (c.exec insn other).reg 30 = c.reg 30 := by
    rw [moved, Cpu.setReg_other _ (by decide)]
  have same (addr : Word 64) : c.SamePair (c.exec insn other) addr := by
    rw [moved]
    exact ⟨rfl, rfl⟩
  cases loc with
  | none => simp only [FrameState.Respects, if_neg notStore, fp, lr, and_self, reduceCtorEq,
      false_implies]
  | atFp => simp only [FrameState.Respects, if_neg notLoad, fp, same, and_self, reduceCtorEq,
      false_implies]
  | atSpOffset =>
      have stays : (c.exec insn other).sp = c.sp ↔ addend insn = 0 := by
        rw [moved]
        simp only [Cpu.sp, Cpu.setReg_same]
        split
        · simp
        · simp
      simp [FrameState.Respects, notSets, same, stays]

end Effects

/-! ## Runs -/

section Runs

variable {fs : FrameState} {insn : BitVec 32} {entry c : Cpu} {other : BitVec 32 → Cpu → Cpu}

theorem Cpu.HoldsPair.same {c' : Cpu} {addr : Word 64} (holds : c.HoldsPair addr entry)
    (same : c.SamePair c' addr) : c'.HoldsPair addr entry :=
  ⟨same.1.trans holds.1, same.2.trans holds.2⟩

/-- A step that respects the frame state leaves the pair where the next one says. -/
theorem FrameState.Locates.step (located : fs.Locates entry c)
    (respects : fs.Respects insn c (c.exec insn other)) :
    (trackFrameRecord insn fs).Locates entry (c.exec insn other) := by
  obtain ⟨loc, offset⟩ := fs
  cases loc with
  | none =>
      by_cases stores : StoresRecord insn
      · have stored := exec_storesRecord other c stores
        have addr : c.pairAddr insn =
            (c.exec insn other).sp +
              BitVec.ofInt 64 (trackFrameRecord insn ⟨.none, offset⟩).offset := by
          simpa only [FrameState.Respects, if_pos stores] using respects
        have next : trackFrameRecord insn ⟨.none, offset⟩ = ⟨.atSpOffset, _⟩ := if_pos stores
        rw [addr] at stored
        rw [next] at stored ⊢
        exact ⟨stored.1.trans located.1, stored.2.trans located.2⟩
      · have kept : (c.exec insn other).reg 29 = c.reg 29 ∧ (c.exec insn other).reg 30 = c.reg 30 := by
          simpa only [FrameState.Respects, if_neg stores] using respects
        have next : trackFrameRecord insn ⟨.none, offset⟩ = ⟨.none, offset⟩ := if_neg stores
        rw [next]
        exact ⟨kept.1.trans located.1, kept.2.trans located.2⟩
  | atSpOffset =>
      obtain ⟨same, place⟩ := respects
      have holds := Cpu.HoldsPair.same located same
      by_cases sets : SetsFramePointer insn
      · have next : trackFrameRecord insn ⟨.atSpOffset, offset⟩ = ⟨.atFp, 0⟩ := if_pos sets
        rw [next]
        rw [if_pos sets] at place
        rwa [← place] at holds
      · have next : trackFrameRecord insn ⟨.atSpOffset, offset⟩ = ⟨.atSpOffset, offset⟩ :=
          if_neg sets
        rw [next]
        rw [if_neg sets] at place
        rwa [← place] at holds
  | atFp =>
      by_cases loads : LoadsRecord insn
      · have addr : c.pairAddr insn = c.reg 29 := by
          simpa only [FrameState.Respects, if_pos loads] using respects
        have loaded := exec_loadsRecord other c loads
        have next : trackFrameRecord insn ⟨.atFp, offset⟩ = ⟨.none, 0⟩ := if_pos loads
        rw [addr] at loaded
        rw [next]
        exact ⟨loaded.1.trans located.1, loaded.2.trans located.2⟩
      · obtain ⟨kept, same⟩ : (c.exec insn other).reg 29 = c.reg 29 ∧
            c.SamePair (c.exec insn other) (c.reg 29) := by
          simpa only [FrameState.Respects, if_neg loads] using respects
        have next : trackFrameRecord insn ⟨.atFp, offset⟩ = ⟨.atFp, offset⟩ := if_neg loads
        have holds := Cpu.HoldsPair.same located same
        rw [next]
        rwa [← kept] at holds

/-- Every step of a run respects the frame state that the tracker has there. -/
def RespectedBy (other : BitVec 32 → Cpu → Cpu) : FrameState → Cpu → List (BitVec 32) → Prop
  | _, _, [] => True
  | fs, c, insn :: rest =>
      fs.Respects insn c (c.exec insn other) ∧
        RespectedBy other (trackFrameRecord insn fs) (c.exec insn other) rest

theorem Scan.all_locates {scan : Scan} {code : List (BitVec 32)}
    (located : scan.fs.Locates entry c) (respected : RespectedBy other scan.fs c code) :
    (scan.all code).fs.Locates entry (c.run other code) := by
  induction code generalizing scan c with
  | nil => exact located
  | cons insn rest ih => exact ih (located.step respected.1) respected.2

theorem Scan.report_locates {scan : Scan} (located : scan.fs.Locates entry c) :
    scan.report.Locates entry c := by
  unfold Scan.report
  split
  next none => simpa only [FrameState.Locates, none] using located
  next => exact located

/-- In a run whose steps respect the tracker's states, the pair is where the scanner says. -/
theorem Procedure.locates_pair {host : Host} {as : AddrSpace 64} {cursor : A64Cursor}
    (p : Procedure host as cursor) (budget : Nat) (enough : p.code.length < budget)
    (notPlt : isPltEntry as cursor = false) (other : BitVec 32 → Cpu → Cpu) (cpu : Cpu)
    (respected : RespectedBy other {} cpu p.code) :
    ∃ fs, getFrameState host as budget cursor = .ok fs ∧
      fs.Locates cpu (cpu.run other p.code) := by
  refine ⟨_, p.getFrameState_eq enough, Scan.report_locates ?_⟩
  have scanned : p.scanned = p.code := by
    rw [Procedure.scanned, notPlt]
    rfl
  rw [Procedure.scan, scanned]
  exact Scan.all_locates ⟨rfl, rfl⟩ respected

end Runs

namespace LeftRecord

theorem respected : RespectedBy (fun _ c => c) {} cpu procedure.code := by
  refine ⟨(respects_store_iff _ cpu (by decide) 0).mpr (.inl (by decide)), ?_, ?_, trivial⟩
  · exact ⟨⟨rfl, rfl⟩, by decide⟩
  · show _ = _
    decide

theorem pair_located :
    ∃ fs, getFrameState host space 4 cursor = .ok fs ∧
      fs.Locates cpu (cpu.run (fun _ c => c) procedure.code) :=
  procedure.locates_pair 4 (by decide) (by decide) (fun _ c => c) cpu respected

end LeftRecord

/-! ## A frame record that is popped without a frame pointer -/

namespace PushPop

/-- `stp x29, x30, [sp, #-16]!` and `ldp x29, x30, [sp], #16` at `0x1000`. -/
def space : AddrSpace 64 where
  bigEndian := false
  readByte := fun _ => .error .inval
  accessMem := fun addr => if addr = 0x1000 then .ok 0xa8c17bfda9bf7bfd else .error .inval
  accessReg := fun _ => .error .badreg
  accessFpreg := fun _ => .error .badreg

def host : Host := { localOnly := true, getProcName := fun _ => some 8 }

/-- The cursor behind the two instructions. -/
def cursor : A64Cursor := { cfa := 0x8000, ip := 0x1008, loc := fun _ => nullLoc, tdep := {} }

def code : List (BitVec 32) := [0xa9bf7bfd, 0xa8c17bfd]

theorem both_words : space.accessMem 0x1000 = .ok 0xa8c17bfda9bf7bfd := rfl

theorem code_stored : CodeUpTo space cursor.ip code := .pair both_words rfl rfl .nil

theorem code_fits : 4 * code.length ≤ cursor.ip.toNat := by decide

def procedure : Procedure host space cursor := ⟨code, code_stored, code_fits, rfl⟩

def cpu : Cpu := ⟨fun r => if r = 31 then 0x8000 else 1, fun _ => 0⟩

/-- The record is reported at the stack pointer, where the caller's own memory is again. -/
theorem pair_missed :
    ¬ ∀ fs, getFrameState host space 3 cursor = .ok fs →
      fs.Locates cpu (cpu.run (fun _ c => c) procedure.code) := by
  intro located
  have reported : getFrameState host space 3 cursor = .ok ⟨.atSpOffset, 0⟩ := by decide
  have first := (located _ reported).1
  have popped : (cpu.run (fun _ c => c) procedure.code).sp + BitVec.ofInt 64 0 = 0x8000 := by decide
  simp only [popped] at first
  have low := congrArg (fun word => word.getLsbD 0) first
  rw [Cpu.load, BitVec.getLsbD_ofFnLE] at low
  exact absurd low (by decide)

end PushPop

end Libunwind.AArch64
