import Libunwind.Dwarf.Fde

/-! # Local memory

In the own process a load yields the byte that is there. What an FDE says then
depends on the procedure info that it is read into, but not whether it can be
read, nor where the reading ends.
-/

namespace Libunwind.Dwarf

variable {w : Nat}

structure LocalMemory (w : Nat) where
  bigEndian : Bool
  byte : Word w → Byte

/-- `unw_local_addr_space`, as far as unwind info is read from it. -/
def LocalMemory.space (m : LocalMemory w) : AddrSpace w where
  bigEndian := m.bigEndian
  readByte addr := .ok (m.byte addr)
  accessMem _ := .error .inval
  accessReg _ := .error .inval
  accessFpreg _ := .error .inval

section Alike

variable (m : LocalMemory w) {α : Type}

/-- The same reading up to its end, whatever was read. -/
def SameEnd (x y : α × Word w) : Prop := x.2 = y.2

/-- Only the size of a word decides whether one can be read. -/
theorem readw_alike (first second : Word w) :
    Simulates (fun _ _ => True) (readw m.space first) (readw m.space second) := by
  rw [readw, readw]
  split
  · exact .ok trivial
  · exact .ok trivial
  · exact .error _

theorem pointerBase_alike (initialAddr : Word w) (encoding : Byte) (pi pi' : ProcInfo w) :
    Simulates (fun _ _ => True) (pointerBase initialAddr encoding pi)
      (pointerBase initialAddr encoding pi') := by
  rw [pointerBase, pointerBase]
  split
  · exact .ok trivial
  · exact .ok trivial
  · exact .ok trivial
  · exact .ok trivial
  · exact .error _

theorem applyEncoding_alike (initialAddr : Word w) (encoding : Byte) (val : Word w)
    (pi pi' : ProcInfo w) :
    Simulates (fun _ _ => True) (applyEncoding m.space initialAddr encoding pi val)
      (applyEncoding m.space initialAddr encoding pi' val) := by
  rw [applyEncoding, applyEncoding]
  by_cases zero : val = 0
  · rw [if_pos zero, if_pos zero]
    exact .ok trivial
  · rw [if_neg zero, if_neg zero]
    apply (pointerBase_alike initialAddr encoding pi pi').bind
    intro base base' _
    by_cases indirect : encoding &&& ehPeIndirect ≠ 0
    · simp only [if_pos indirect]
      apply (readw_alike m _ _).bind
      intro _ _ _
      exact .ok trivial
    · simp only [if_neg indirect]
      exact .ok trivial

theorem readEncodedPointer_alike (addr : Word w) (encoding : Byte) (pi pi' : ProcInfo w) :
    Simulates SameEnd (readEncodedPointer m.space addr encoding pi)
      (readEncodedPointer m.space addr encoding pi') := by
  rw [readEncodedPointer, readEncodedPointer]
  by_cases omitted : encoding = ehPeOmit
  · rw [if_pos omitted, if_pos omitted]
    exact .ok rfl
  · rw [if_neg omitted, if_neg omitted]
    by_cases aligned : encoding = ehPeAligned
    · rw [if_pos aligned, if_pos aligned]
      exact .refl (fun read => (rfl : SameEnd read read)) _
    · rw [if_neg aligned, if_neg aligned]
      apply (Simulates.same _).bind
      intro read _ same
      cases same
      apply (applyEncoding_alike m addr encoding read.1 pi pi').bind
      intro _ _ _
      exact .ok rfl

/-- All that directs the rest of the reading is the same. -/
structure SameInfo (dci dci' : CieInfo w) : Prop where
  sized : dci.sizedAugmentation = dci'.sizedAugmentation
  fdeEncoding : dci.fdeEncoding = dci'.fdeEncoding
  lsdaEncoding : dci.lsdaEncoding = dci'.lsdaEncoding

structure SameScan (s s' : AugState w) : Prop where
  addr : s.addr = s'.addr
  fdeEncoding : s.fdeEncoding = s'.fdeEncoding
  info : SameInfo s.dci s'.dci

theorem augCharRead_alike (pi pi' : ProcInfo w) {s s' : AugState w} (same : SameScan s s')
    (ch : AugChar) :
    Simulates SameScan (ch.read m.space pi s) (ch.read m.space pi' s') := by
  cases ch with
  | lsdaEncoding =>
      rw [AugChar.read, AugChar.read, same.addr]
      apply (Simulates.same _).bind
      intro read _ sameRead
      cases sameRead
      exact .ok ⟨rfl, same.fdeEncoding, same.info.sized, same.info.fdeEncoding, rfl⟩
  | fdeEncoding =>
      rw [AugChar.read, AugChar.read, same.addr]
      apply (Simulates.same _).bind
      intro read _ sameRead
      cases sameRead
      exact .ok ⟨rfl, rfl, same.info⟩
  | personality =>
      rw [AugChar.read, AugChar.read, same.addr]
      apply (Simulates.same _).bind
      intro read _ sameRead
      cases sameRead
      apply (readEncodedPointer_alike m read.2 read.1 pi pi').bind
      intro handler handler' sameEnd
      exact .ok ⟨sameEnd, same.fdeEncoding, same.info.sized, same.info.fdeEncoding,
        same.info.lsdaEncoding⟩
  | signalFrame =>
      exact .ok ⟨same.addr, same.fdeEncoding, same.info.sized, same.info.fdeEncoding,
        same.info.lsdaEncoding⟩

theorem scanAugmentation_alike (pi pi' : ProcInfo w) (chars : List Byte) {s s' : AugState w}
    (same : SameScan s s') :
    Simulates SameScan (scanAugmentation m.space pi chars s)
      (scanAugmentation m.space pi' chars s') := by
  induction chars generalizing s s' with
  | nil => exact .ok same
  | cons ch rest ih =>
      rw [scanAugmentation, scanAugmentation, same.info.sized]
      cases AugChar.ofByte ch with
      | none =>
          simp only
          by_cases sized : s'.dci.sizedAugmentation = true
          · rw [if_pos sized, if_pos sized]
            exact .ok same
          · rw [if_neg sized, if_neg sized]
            exact .error _
      | some known =>
          apply (augCharRead_alike m pi pi' same known).bind
          intro t t' sameNext
          exact ih sameNext

theorem readAugmentation_alike (pi pi' : ProcInfo w) (addr : Word w) (dci : CieInfo w)
    (augstr : List Byte) :
    Simulates SameScan (readAugmentation m.space pi addr dci augstr)
      (readAugmentation m.space pi' addr dci augstr) := by
  rw [readAugmentation, readAugmentation]
  by_cases sized : augstr.head? = some augZ
  · rw [if_pos sized, if_pos sized]
    apply (Simulates.same _).bind
    intro read _ same
    cases same
    exact scanAugmentation_alike m pi pi' _ ⟨rfl, rfl, rfl, rfl, rfl⟩
  · rw [if_neg sized, if_neg sized]
    exact scanAugmentation_alike m pi pi' _ ⟨rfl, rfl, rfl, rfl, rfl⟩

theorem parseCie_alike (addr : Word w) (pi pi' : ProcInfo w) (dci : CieInfo w)
    (isDebugFrame : Bool) :
    Simulates SameInfo (parseCie m.space addr pi dci isDebugFrame)
      (parseCie m.space addr pi' dci isDebugFrame) := by
  rw [parseCie, parseCie]
  apply (Simulates.same _).bind
  intro header _ same
  cases same
  apply (readAugmentation_alike m pi pi' _ _ _).bind
  intro s s' same
  exact .ok ⟨same.info.sized, same.fdeEncoding, same.info.lsdaEncoding⟩

/-- Reading an FDE's bounds from local memory ends the same way whatever the
    procedure info held. -/
theorem extractProcInfoFromFde_alike (addr base : Word w) (pi pi' : ProcInfo w)
    (granted isDebugFrame : Bool) :
    Simulates SameEnd (extractProcInfoFromFde m.space addr pi base false granted isDebugFrame)
      (extractProcInfoFromFde m.space addr pi' base false granted isDebugFrame) := by
  rw [extractProcInfoFromFde, extractProcInfoFromFde]
  apply (Simulates.same _).bind
  intro header _ same
  cases same
  by_cases isCie : isCieId header.cieOffset isDebugFrame = true
  · rw [if_pos isCie, if_pos isCie]
    exact .ok rfl
  · rw [if_neg isCie, if_neg isCie]
    apply (parseCie_alike m _ pi pi' _ _).bind
    intro dci dci' sameInfo
    rw [sameInfo.fdeEncoding]
    apply (readEncodedPointer_alike m _ _ pi pi').bind
    intro start start' same
    simp only [show start.2 = start'.2 from same]
    apply (readEncodedPointer_alike m _ _ pi pi').bind
    intro range range' same
    simp only [show range.2 = range'.2 from same, readAugEnd, sameInfo.sized]
    apply (Simulates.same _).bind
    intro aug _ same
    cases same
    rw [sameInfo.lsdaEncoding]
    apply (readEncodedPointer_alike m _ _ _ _).bind
    intro _ _ _
    exact .ok rfl

end Alike

end Libunwind.Dwarf
