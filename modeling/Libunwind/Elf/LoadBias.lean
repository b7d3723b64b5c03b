import Libunwind.Basic
import Libunwind.Library.BitField

/-! # The load bias of an object

The program headers of an ELF image give the addresses its segments are linked
at. A mapping of the object is known by its address and by its offset in the
file; two routines take the bias from these, each with a header of its own
choice to stand for the mapping.
-/

namespace Libunwind.Elf

variable {w : Nat}

/-- `p_type`, as far as the routines look at it. -/
inductive SegmentType where
  | load
  | dynamic
  | gnuEhFrame
  | armExidx
  | other
  deriving DecidableEq, Repr

/-- `PF_X` -/
def pfX : BitVec 32 := 1

/-- `Elf_W(Phdr)` -/
structure Phdr (w : Nat) where
  type : SegmentType
  flags : BitVec 32
  offset : Word w
  vaddr : Word w
  memsz : Word w
  deriving DecidableEq, Repr

namespace Phdr

/-- A `PT_LOAD` segment. -/
def IsLoad (p : Phdr w) : Prop := p.type = .load

/-- A `PT_LOAD` segment with `PF_X`. -/
def IsText (p : Phdr w) : Prop := p.type = .load ∧ p.flags &&& pfX = pfX

instance (p : Phdr w) : Decidable p.IsLoad := inferInstanceAs (Decidable (_ = _))

instance (p : Phdr w) : Decidable p.IsText := inferInstanceAs (Decidable (_ ∧ _))

/-- How far a segment is linked from its place in the file. -/
def shift (p : Phdr w) : Word w := p.vaddr - p.offset

end Phdr

/-! ## The scan of dwarf_find_unwind_table -/

/-- The variables of the loop over the headers. -/
structure Scan (w : Nat) where
  startIp : Word w := -1
  endIp : Word w := 0
  ptxt : Option (Phdr w) := none
  pehHdr : Option (Phdr w) := none
  pdyn : Option (Phdr w) := none
  paramExidx : Option (Phdr w) := none
  deriving DecidableEq, Repr

/-- The choice of `ptxt`. -/
def choose (mapoff : Word w) (ptxt : Option (Phdr w)) (p : Phdr w) : Option (Phdr w) :=
  if p.offset = mapoff then
    if ptxt = none ∨ p.flags &&& pfX = pfX then some p else ptxt
  else if p.flags &&& pfX = pfX ∧ ptxt = none then some p
  else ptxt

def Scan.visit (mapoff : Word w) (s : Scan w) (p : Phdr w) : Scan w :=
  match p.type with
  | .load =>
    { s with
      startIp := if p.vaddr < s.startIp then p.vaddr else s.startIp
      endIp := if p.vaddr + p.memsz > s.endIp then p.vaddr + p.memsz else s.endIp
      ptxt := choose mapoff s.ptxt p }
  | .gnuEhFrame => { s with pehHdr := some p }
  | .dynamic => { s with pdyn := some p }
  | .armExidx => { s with paramExidx := some p }
  | .other => s

def scan (mapoff : Word w) (phdrs : List (Phdr w)) : Scan w :=
  phdrs.foldl (Scan.visit mapoff) {}

/-- `load_base`, with `ptxt` for the mapping. -/
def loadBaseOf (segbase mapoff : Word w) (ptxt : Phdr w) : Word w :=
  let loadoff := mapoff + (ptxt.vaddr - ptxt.offset)
  segbase - loadoff

/-- What `dwarf_find_unwind_table` knows of the object when it turns to the
    tables; with no `ptxt` it has returned. -/
structure Loaded (w : Nat) where
  loadBase : Word w
  startIp : Word w
  endIp : Word w
  scan : Scan w
  deriving DecidableEq, Repr

def locate (phdrs : List (Phdr w)) (segbase mapoff : Word w) : Option (Loaded w) := do
  let s := scan mapoff phdrs
  let ptxt ← s.ptxt
  let loadBase := loadBaseOf segbase mapoff ptxt
  pure { loadBase, startIp := s.startIp + loadBase, endIp := s.endIp + loadBase, scan := s }

def loadBase (phdrs : List (Phdr w)) (segbase mapoff : Word w) : Option (Word w) :=
  (locate phdrs segbase mapoff).map (·.loadBase)

/-! ## get_load_offset -/

/-- `get_load_offset`; `pageBits` gives `unw_page_size`. -/
def getLoadOffset (pageBits : Nat) (phdrs : List (Phdr w)) (segbase : Word w) : Word w :=
  let pagesizeAlignmentMask := ~~~(BitVec.twoPow w pageBits - 1)
  match phdrs with
  | [] => 0
  | p :: rest =>
    if p.type = .load ∧ p.flags &&& pfX ≠ 0 then
      segbase - p.vaddr + (p.offset &&& ~~~pagesizeAlignmentMask)
    else getLoadOffset pageBits rest segbase

/-! ## The chosen headers -/

/-- The header that `dwarf_find_unwind_table` takes for a mapping: the last
    text segment at this offset of the file; with none there, the first segment
    that is text or lies at this offset. -/
def textOf (mapoff : Word w) (phdrs : List (Phdr w)) : Option (Phdr w) :=
  (phdrs.reverse.find? fun p => p.IsText ∧ p.offset = mapoff).or
    (phdrs.find? fun p => p.IsText ∨ p.IsLoad ∧ p.offset = mapoff)

def firstText (phdrs : List (Phdr w)) : Option (Phdr w) := phdrs.find? fun p => p.IsText

theorem visit_ptxt (mapoff : Word w) (s : Scan w) (p : Phdr w) :
    (s.visit mapoff p).ptxt = if p.IsLoad then choose mapoff s.ptxt p else s.ptxt := by
  unfold Scan.visit
  cases type : p.type <;> simp [Phdr.IsLoad, type]

theorem scan_ptxt_from (mapoff : Word w) (phdrs : List (Phdr w)) (s : Scan w) :
    (phdrs.foldl (Scan.visit mapoff) s).ptxt =
      ((phdrs.reverse.find? fun p => p.IsText ∧ p.offset = mapoff).or s.ptxt).or
        (phdrs.find? fun p => p.IsText ∨ p.IsLoad ∧ p.offset = mapoff) := by
  induction phdrs generalizing s with
  | nil => simp
  | cons p rest ih =>
      rw [List.foldl_cons, ih, visit_ptxt, List.reverse_cons, List.find?_append]
      by_cases load : p.IsLoad
      · by_cases text : p.flags &&& pfX = pfX <;> by_cases here : p.offset = mapoff <;>
          cases s.ptxt <;>
          simp_all [Phdr.IsText, Phdr.IsLoad, choose]
      · have noText : ¬ p.IsText := fun text => load text.1
        simp [load, noText]

theorem scan_ptxt (mapoff : Word w) (phdrs : List (Phdr w)) :
    (scan mapoff phdrs).ptxt = textOf mapoff phdrs := by
  rw [scan, scan_ptxt_from, Option.or_none]
  rfl

theorem loadBase_eq (phdrs : List (Phdr w)) (segbase mapoff : Word w) :
    loadBase phdrs segbase mapoff = (textOf mapoff phdrs).map (loadBaseOf segbase mapoff) := by
  rw [← scan_ptxt, loadBase, locate]
  cases (scan mapoff phdrs).ptxt <;> rfl

theorem flags_ne_zero_iff (flags : BitVec 32) : flags &&& pfX ≠ 0 ↔ flags &&& pfX = pfX := by
  have bit : flags &&& pfX = if flags.getLsbD 0 then pfX else 0 := by
    apply (BitVec.and_twoPow flags 0).trans
    rfl
  rw [bit]
  cases flags.getLsbD 0 <;> decide

theorem getLoadOffset_eq {pageBits : Nat} {phdrs : List (Phdr w)} {segbase : Word w} {x : Phdr w}
    (first : firstText phdrs = some x) :
    getLoadOffset pageBits phdrs segbase =
      segbase - x.vaddr + (x.offset &&& (BitVec.twoPow w pageBits - 1)) := by
  induction phdrs with
  | nil => cases first
  | cons p rest ih =>
      rw [firstText, List.find?_cons] at first
      by_cases text : p.IsText
      · simp only [text, decide_true, Option.some.injEq] at first
        rw [getLoadOffset, if_pos ⟨text.1, (flags_ne_zero_iff _).mpr text.2⟩, BitVec.not_not, first]
      · simp only [text, decide_false] at first
        rw [getLoadOffset, if_neg fun found => text ⟨found.1, (flags_ne_zero_iff _).mp found.2⟩]
        exact ih first

/-! ## Mapped images -/

def pageStart (pageBits : Nat) (addr : Word w) : Word w :=
  addr &&& ~~~(BitVec.twoPow w pageBits - 1)

/-- The program headers of an image whose segments can be mapped by pages. -/
structure Image (w : Nat) where
  pageBits : Nat
  small : pageBits < w
  phdrs : List (Phdr w)
  congruent : ∀ p ∈ phdrs, p.IsLoad →
    p.vaddr &&& (BitVec.twoPow w pageBits - 1) = p.offset &&& (BitVec.twoPow w pageBits - 1)

/-- What the loader makes of one text segment, at a bias of whole pages. -/
structure Mapping (image : Image w) where
  bias : Word w
  aligned : 2 ^ image.pageBits ∣ bias.toNat
  segment : Phdr w
  mem : segment ∈ image.phdrs
  text : segment.IsText

section Mapped

variable {image : Image w}

namespace Mapping

/-- The address of the mapping. -/
def segbase (m : Mapping image) : Word w := pageStart image.pageBits (m.bias + m.segment.vaddr)

/-- Its offset in the file. -/
def mapoff (m : Mapping image) : Word w := pageStart image.pageBits m.segment.offset

/-- Both routines find the bias. -/
def Recovered (m : Mapping image) : Prop :=
  loadBase image.phdrs m.segbase m.mapoff = some m.bias ∧
    getLoadOffset image.pageBits image.phdrs m.segbase = m.bias

end Mapping

theorem pageStart_eq_sub (pageBits : Nat) (addr : Word w) :
    pageStart pageBits addr = addr - (addr &&& (BitVec.twoPow w pageBits - 1)) := by
  rw [← sub_and_not, pageStart, sub_sub_cancel]

theorem Mapping.segbase_eq (m : Mapping image) :
    m.segbase = m.bias + pageStart image.pageBits m.segment.vaddr := by
  rw [segbase, pageStart_eq_sub, pageStart_eq_sub,
    add_and_twoPow_sub_one image.small m.aligned, add_sub_assoc]

/-- The mapping lies as far from its place in the file as its segment. -/
theorem Mapping.segbase_sub_mapoff (m : Mapping image) :
    m.segbase - m.mapoff = m.bias + m.segment.shift := by
  rw [m.segbase_eq, mapoff, pageStart_eq_sub, pageStart_eq_sub,
    image.congruent m.segment m.mem m.text.1, Phdr.shift]
  abel

theorem Mapping.loadBaseOf_eq (m : Mapping image) (t : Phdr w) :
    loadBaseOf m.segbase m.mapoff t = m.bias + (m.segment.shift - t.shift) := by
  rw [loadBaseOf, sub_add_eq_sub_sub, m.segbase_sub_mapoff, Phdr.shift, Phdr.shift]
  abel

theorem Mapping.loadOffset_eq (m : Mapping image) {x : Phdr w}
    (first : firstText image.phdrs = some x) :
    getLoadOffset image.pageBits image.phdrs m.segbase =
      m.bias + (pageStart image.pageBits m.segment.vaddr - pageStart image.pageBits x.vaddr) := by
  have text : x.IsText := by simpa using List.find?_some first
  have mem := List.mem_of_find?_eq_some first
  rw [getLoadOffset_eq first, m.segbase_eq, ← image.congruent x mem text.1,
    pageStart_eq_sub _ x.vaddr]
  abel

/-- The header chosen for the mapping is as far from its place in the file as
    the segment that is mapped, and the first text segment begins in the same
    page as that one. -/
structure Mapping.WellChosen (m : Mapping image) : Prop where
  sameShift : ∃ t, textOf m.mapoff image.phdrs = some t ∧ t.shift = m.segment.shift
  samePage : ∀ x, firstText image.phdrs = some x →
    pageStart image.pageBits x.vaddr = pageStart image.pageBits m.segment.vaddr

theorem Mapping.loadBase_eq_bias_iff (m : Mapping image) :
    loadBase image.phdrs m.segbase m.mapoff = some m.bias ↔
      ∃ t, textOf m.mapoff image.phdrs = some t ∧ t.shift = m.segment.shift := by
  rw [loadBase_eq, Option.map_eq_some_iff]
  apply exists_congr
  intro t
  rw [m.loadBaseOf_eq, add_eq_left, sub_eq_zero, eq_comm (a := m.segment.shift)]

theorem Mapping.loadOffset_eq_bias_iff (m : Mapping image) :
    getLoadOffset image.pageBits image.phdrs m.segbase = m.bias ↔
      ∀ x, firstText image.phdrs = some x →
        pageStart image.pageBits x.vaddr = pageStart image.pageBits m.segment.vaddr := by
  have some : (firstText image.phdrs).isSome := by
    simp only [firstText, List.find?_isSome, decide_eq_true_eq]
    exact ⟨m.segment, m.mem, m.text⟩
  obtain ⟨x, first⟩ := Option.isSome_iff_exists.mp some
  rw [m.loadOffset_eq first, add_eq_left, sub_eq_zero]
  constructor
  · intro same y other
    cases first.symm.trans other
    exact same.symm
  · intro same
    exact (same x first).symm

theorem Mapping.recovered_iff (m : Mapping image) : m.Recovered ↔ m.WellChosen := by
  rw [Recovered, m.loadBase_eq_bias_iff, m.loadOffset_eq_bias_iff]
  constructor
  · intro ⟨sameShift, samePage⟩
    exact ⟨sameShift, samePage⟩
  · intro chosen
    exact ⟨chosen.sameShift, chosen.samePage⟩

end Mapped

/-! Headers as they are linked with segments that share a page of the file: the
read-only one begins at offset 0, the text at `0x5f0` and one page further on in
memory. The mapping of the text has offset 0, which is the other's. -/
namespace SharedPage

def readOnly : Phdr 64 :=
  { type := .load, flags := 4, offset := 0, vaddr := 0, memsz := 0x5f0 }

def text : Phdr 64 :=
  { type := .load, flags := 5, offset := 0x5f0, vaddr := 0x15f0, memsz := 0x220 }

def image : Image 64 where
  pageBits := 12
  small := by decide
  phdrs := [readOnly, text]
  congruent := by decide

def mapping : Mapping image where
  bias := 0x7f0000000000
  aligned := by decide
  segment := text
  mem := by decide
  text := by decide

theorem loadBase_off_by_page :
    loadBase image.phdrs mapping.segbase mapping.mapoff = some (mapping.bias + 0x1000) ∧
      ¬ mapping.Recovered := by
  have wrong : loadBase image.phdrs mapping.segbase mapping.mapoff =
      some (mapping.bias + 0x1000) := by decide
  refine ⟨wrong, fun recovered => ?_⟩
  have same := wrong.symm.trans recovered.1
  revert same
  decide

end SharedPage

end Libunwind.Elf
