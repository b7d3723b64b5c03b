import Libunwind.Ia64.Rse

/-! # The areas of the register backing store

A stack switch leaves registers behind in another area of backing store. The registers of a frame go
on in the area that was in effect before, where `rbs_find_stacked` finds them.
-/

namespace Libunwind.Ia64

open CollectedSlots

/-- `ia64_loc_t` -/
structure Ia64Loc where
  w0 : Word 64
  w1 : Word 64
  deriving DecidableEq

/-- `IA64_LOC_ADDR` -/
def ia64LocAddr (a t : Word 64) : Ia64Loc := ⟨(a &&& ~~~3) ||| t, 0⟩

/-- `IA64_LOC_UC_ADDR` -/
def ia64LocUcAddr (a t : Word 64) : Ia64Loc := ⟨(a &&& ~~~3) ||| t, 2⟩

/-- `IA64_IS_REG_LOC` -/
def IsRegLoc (l : Ia64Loc) : Prop := l.w1 &&& 1 ≠ 0

/-- `IA64_IS_UC_LOC` -/
def IsUcLoc (l : Ia64Loc) : Prop := l.w1 &&& 2 ≠ 0

instance (l : Ia64Loc) : Decidable (IsRegLoc l) := inferInstanceAs (Decidable (_ ≠ _))

instance (l : Ia64Loc) : Decidable (IsUcLoc l) := inferInstanceAs (Decidable (_ ≠ _))

/-- `struct rbs_area` -/
structure RbsArea where
  endAddr : Word 64
  size : Word 64
  rnatLoc : Ia64Loc

/-- `rbs_area` has so many elements. -/
abbrev RbsIndex := Fin 98

/-- What a cursor keeps of the backing store. -/
structure RbsCursor where
  bsp : Word 64
  rbsCurr : RbsIndex
  rbsLeftEdge : RbsIndex
  rbsArea : RbsIndex → RbsArea

/-- `rbs_on_uc` -/
def RbsOnUc (rbs : RbsArea) : Prop := IsUcLoc rbs.rnatLoc ∧ ¬IsRegLoc rbs.rnatLoc

instance (rbs : RbsArea) : Decidable (RbsOnUc rbs) := inferInstanceAs (Decidable (_ ∧ _))

/-- `rbs_contains` -/
def RbsContains (rbs : RbsArea) (bsp : Word 64) : Prop := ~~~rbs.size < bsp - rbs.endAddr

instance (rbs : RbsArea) (bsp : Word 64) : Decidable (RbsContains rbs bsp) :=
  inferInstanceAs (Decidable (_ < _))

def rbsGetRnatLoc (rbs : RbsArea) (bsp : Word 64) : Ia64Loc :=
  let rnatAddr := rseRnatAddr bsp
  if RbsContains rbs rnatAddr then
    if RbsOnUc rbs then ia64LocUcAddr rnatAddr 0 else ia64LocAddr rnatAddr 0
  else rbs.rnatLoc

def rbsLoc (rbs : RbsArea) (bsp : Word 64) : Ia64Loc :=
  if RbsOnUc rbs then ia64LocUcAddr bsp 0 else ia64LocAddr bsp 0

/-- The index before another one. -/
def prevArea (curr : RbsIndex) : RbsIndex := ⟨(curr.val + 98 - 1) % 98, Nat.mod_lt _ (by decide)⟩

namespace RbsArea

variable (rbs : RbsArea)

def base : Word 64 := rbs.endAddr - rbs.size

end RbsArea

section FindStacked

variable (c : RbsCursor)

/-- The first loop of `rbs_find_stacked`, up to the area that `bsp` is in. -/
def findArea : Nat → RbsIndex → Word 64 → Result (RbsIndex × Word 64)
  | 0, _, _ => .error .timeout
  | fuel + 1, curr, bsp =>
      if RbsContains (c.rbsArea curr) bsp then pure (curr, bsp)
      else if curr = c.rbsLeftEdge then .error (.err .badreg)
      else
        let n := rseNumRegs (c.rbsArea curr).endAddr bsp
        let curr := prevArea curr
        findArea fuel curr (rseSkipRegs (c.rbsArea curr).base n)

/-- The second loop, up to the area that the register is in. -/
def findRegister : Nat → RbsIndex → Word 64 → Word 64 → Result (Ia64Loc × Ia64Loc)
  | 0, _, _, _ => .error .timeout
  | fuel + 1, curr, bsp, regsToSkip =>
      let rbs := c.rbsArea curr
      let nregs := rseNumRegs bsp rbs.endAddr
      if regsToSkip < nregs then
        let addr := rseSkipRegs bsp regsToSkip
        pure (rbsLoc rbs addr, rbsGetRnatLoc rbs addr)
      else if curr = c.rbsLeftEdge then .error (.err .badreg)
      else findRegister fuel (prevArea curr) (c.rbsArea (prevArea curr)).base (regsToSkip - nregs)

/-- `rbs_find_stacked`; yields `*locp` and `*rnat_locp`. -/
def rbsFindStacked (regsToSkip : Word 64) : Result (Ia64Loc × Ia64Loc) := do
  let (curr, bsp) ← findArea c 98 c.rbsCurr c.bsp
  findRegister c 98 curr bsp regsToSkip

/-- `ia64_get_stacked` -/
def ia64GetStacked (reg : Word 64) : Result (Ia64Loc × Ia64Loc) :=
  let rbs := c.rbsArea c.rbsCurr
  let regsToSkip := reg - 32
  if 32 ≤ reg ∧ reg < 128 then
    let addr := rseSkipRegs c.bsp regsToSkip
    if RbsContains rbs addr then pure (rbsLoc rbs addr, rbsGetRnatLoc rbs addr)
    else rbsFindStacked c regsToSkip
  else .error .undefined

end FindStacked

/-! ## The registers of the areas -/

namespace RbsArea

variable (rbs : RbsArea)

/-- The number of the first word, -/
def firstWord : Nat := rbs.base.toNat / 8

/-- and how many there are. -/
def words : Nat := rbs.size.toNat / 8

/-- How many registers an area holds. -/
def numRegs : Nat := count rbs.firstWord rbs.words

/-- The area is one of whole words, and does not fill all of the address space. -/
structure Fits : Prop where
  endAddr : rbs.endAddr.toNat % 8 = 0
  size : rbs.size.toNat % 8 = 0
  small : rbs.size.toNat + 1024 ≤ 2 ^ 64

end RbsArea

/-- A register on the backing store. -/
structure StackedReg where
  rbs : RbsArea
  addr : Word 64

namespace StackedReg

def loc (reg : StackedReg) : Ia64Loc := rbsLoc reg.rbs reg.addr

def rnatLoc (reg : StackedReg) : Ia64Loc := rbsGetRnatLoc reg.rbs reg.addr

end StackedReg

/-- The registers that an area holds from one of its words on. -/
def RbsArea.registersFrom (rbs : RbsArea) (i : Nat) : List StackedReg :=
  (ordinary rbs.firstWord rbs.words i).map fun k => ⟨rbs, wordAt (rbs.firstWord + k)⟩

/-- The registers in some areas, one after the other. -/
def registersOf (areas : List RbsArea) : List StackedReg := areas.flatMap (·.registersFrom 0)

namespace RbsCursor

variable (c : RbsCursor)

/-- So many areas further than one. -/
def areasFrom : Nat → RbsIndex → List RbsArea
  | 0, curr => [c.rbsArea curr]
  | k + 1, curr => c.rbsArea curr :: areasFrom k (prevArea curr)

/-- How many areas are behind one, up to the left edge. -/
def behind (curr : RbsIndex) : Nat := (curr.val + 98 - c.rbsLeftEdge.val) % 98

/-- The current area. -/
def currArea : RbsArea := c.rbsArea c.rbsCurr

/-- The chain of areas, from the current one to that at the left edge. -/
def areas : List RbsArea := c.areasFrom (c.behind c.rbsCurr) c.rbsCurr

/-- How many words `bsp` is from the start of the current area. -/
def bspOffset : Nat := (c.bsp - c.currArea.base).toNat / 8

/-- How many registers there are in front of `bsp`, from the start of the current area on. -/
def regsBefore : Nat := count c.currArea.firstWord c.bspOffset

/-- All addresses are those of words, and `bsp` is not just below the current area. -/
structure Fits : Prop where
  areas : ∀ rbs ∈ c.areas, rbs.Fits
  bsp : c.bsp.toNat % 8 = 0
  behind : (c.bsp - c.currArea.base).toNat + 1024 ≤ 2 ^ 64

end RbsCursor

/-- Where a register is, if there is one. -/
def locsAt (regs : List StackedReg) (k : Nat) : Result (Ia64Loc × Ia64Loc) :=
  match regs[k]? with
  | some reg => .ok (reg.loc, reg.rnatLoc)
  | none => .error (.err .badreg)

/-- Each register is found where it is, and there is an error only where there is no such
    register. -/
def FindsStacked (c : RbsCursor) : Prop :=
  ∀ regsToSkip, rbsFindStacked c regsToSkip =
    locsAt (registersOf c.areas) (c.regsBefore + regsToSkip.toNat)

section Areas

variable {c : RbsCursor} {rbs : RbsArea} {areas : List RbsArea} {curr : RbsIndex} {i k : Nat}

namespace RbsArea

theorem Fits.words_lt (fits : rbs.Fits) : rbs.words + 128 ≤ 2 ^ 61 := by
  have small := fits.small
  rw [words]
  omega

theorem Fits.size_eq (fits : rbs.Fits) : rbs.size = wordAt rbs.words := by
  have whole := fits.size
  apply BitVec.eq_of_toNat_eq
  rw [wordAt, BitVec.toNat_ofNat, words]
  omega

theorem Fits.base_eq (fits : rbs.Fits) : rbs.base = wordAt rbs.firstWord := by
  have whole := fits.size
  have whole' := fits.endAddr
  apply BitVec.eq_of_toNat_eq
  rw [wordAt, BitVec.toNat_ofNat, firstWord, base, BitVec.toNat_sub]
  omega

theorem Fits.endAddr_eq (fits : rbs.Fits) : rbs.endAddr = wordAt (rbs.firstWord + rbs.words) := by
  rw [wordAt_add, ← fits.base_eq, ← fits.size_eq, base, BitVec.sub_add_cancel]

/-- A word is in the area if it is not as far from its start as the end is. -/
theorem Fits.contains_iff (fits : rbs.Fits) (small : i < 2 ^ 61) :
    RbsContains rbs (wordAt (rbs.firstWord + i)) ↔ i < rbs.words := by
  have words := fits.words_lt
  rw [RbsContains, fits.endAddr_eq, wordAt_sub, fits.size_eq, BitVec.lt_def, BitVec.toNat_not,
    BitVec.toNat_sub, wordAt, wordAt, BitVec.toNat_ofNat, BitVec.toNat_ofNat]
  omega

theorem length_registersFrom (le : i ≤ rbs.words) :
    (rbs.registersFrom i).length = count (rbs.firstWord + i) (rbs.words - i) := by
  rw [registersFrom, List.length_map, length_ordinary le]

theorem getElem?_registers (rbs : RbsArea) (k : Nat) : (rbs.registersFrom 0)[k]? =
    if k < rbs.numRegs then some ⟨rbs, wordAt (rbs.firstWord + skip rbs.firstWord k)⟩ else none := by
  rw [registersFrom, List.getElem?_map, getElem?_ordinary, numRegs]
  split
  · rfl
  · rfl

theorem length_registers (rbs : RbsArea) : (rbs.registersFrom 0).length = rbs.numRegs := by
  rw [length_registersFrom (Nat.zero_le _)]
  rfl

end RbsArea

theorem registersOf_cons (rbs : RbsArea) (areas : List RbsArea) :
    registersOf (rbs :: areas) = rbs.registersFrom 0 ++ registersOf areas := List.flatMap_cons

/-- A register of the first area, or of those behind it. -/
theorem getElem?_registersOf_cons (rbs : RbsArea) (areas : List RbsArea) (k : Nat) :
    (registersOf (rbs :: areas))[k]? =
      if k < rbs.numRegs then some ⟨rbs, wordAt (rbs.firstWord + skip rbs.firstWord k)⟩
      else (registersOf areas)[k - rbs.numRegs]? := by
  rw [registersOf_cons]
  by_cases first : k < rbs.numRegs
  · rw [List.getElem?_append_left (by rwa [RbsArea.length_registers]), RbsArea.getElem?_registers]
    rw [if_pos first, if_pos first]
  · rw [List.getElem?_append_right (by rw [RbsArea.length_registers]; omega),
      RbsArea.length_registers, if_neg first]

namespace RbsCursor

/-- The left edge is the last area. -/
theorem behind_eq_zero_iff : c.behind curr = 0 ↔ curr = c.rbsLeftEdge := by
  have first := curr.isLt
  have second := c.rbsLeftEdge.isLt
  rw [behind, Fin.ext_iff]
  omega

theorem behind_prevArea (more : c.behind curr = k + 1) : c.behind (prevArea curr) = k := by
  have first := curr.isLt
  have second := c.rbsLeftEdge.isLt
  simp only [behind, prevArea] at *
  omega

theorem behind_lt (curr : RbsIndex) : c.behind curr < 98 := Nat.mod_lt _ (by decide)

theorem areasFrom_eq (k : Nat) (curr : RbsIndex) :
    ∃ rest, c.areasFrom k curr = c.rbsArea curr :: rest := by
  cases k with
  | zero => exact ⟨[], rfl⟩
  | succ k => exact ⟨_, rfl⟩

end RbsCursor

/-! ## Where registers are found -/

theorem locsAt_cons (rbs : RbsArea) (areas : List RbsArea) (k : Nat) :
    locsAt (registersOf (rbs :: areas)) k =
      if k < rbs.numRegs then
        .ok (rbsLoc rbs (wordAt (rbs.firstWord + skip rbs.firstWord k)),
          rbsGetRnatLoc rbs (wordAt (rbs.firstWord + skip rbs.firstWord k)))
      else locsAt (registersOf areas) (k - rbs.numRegs) := by
  rw [locsAt, getElem?_registersOf_cons]
  by_cases first : k < rbs.numRegs
  · rw [if_pos first, if_pos first]
    rfl
  · rw [if_neg first, if_neg first]
    rfl

/-- The registers of an area in front of one of its words, and those from there on. -/
theorem numRegs_split (le : i ≤ rbs.words) :
    rbs.numRegs = count rbs.firstWord i + count (rbs.firstWord + i) (rbs.words - i) := by
  rw [RbsArea.numRegs, ← count_add, Nat.add_sub_cancel' le]

theorem RbsArea.Fits.numRegs_eq (fits : rbs.Fits) (le : i ≤ rbs.words) :
    (rseNumRegs (wordAt (rbs.firstWord + i)) rbs.endAddr).toNat =
      count (rbs.firstWord + i) (rbs.words - i) := by
  have small := fits.words_lt
  have bound : count (rbs.firstWord + i) (rbs.words - i) ≤ rbs.words - i := count_le
  have whole : rbs.firstWord + rbs.words = rbs.firstWord + i + (rbs.words - i) := by omega
  rw [fits.endAddr_eq, whole, rseNumRegs_wordAt _ (by omega), BitVec.toNat_ofNat]
  omega

/-- The register so far behind one of the words of an area. -/
theorem RbsArea.Fits.skip_eq (fits : rbs.Fits) (le : i ≤ rbs.words) {regsToSkip : Word 64}
    (inside : regsToSkip.toNat < count (rbs.firstWord + i) (rbs.words - i)) :
    rseSkipRegs (wordAt (rbs.firstWord + i)) regsToSkip =
      wordAt (rbs.firstWord + skip rbs.firstWord (count rbs.firstWord i + regsToSkip.toNat)) := by
  have small := fits.words_lt
  have bound : count (rbs.firstWord + i) (rbs.words - i) ≤ rbs.words - i := count_le
  have forwards := rseSkipRegs_wordAt (m := regsToSkip.toNat) (rbs.firstWord + i) (by omega)
  rw [BitVec.ofNat_toNat, BitVec.setWidth_eq] at forwards
  rw [forwards, skip_add, Nat.add_assoc]

/-- The second loop, from one of the words of an area on. -/
theorem findRegister_eq {fuel : Nat} (regsToSkip : Word 64) (edge : c.behind curr = k)
    (fits : ∀ rbs ∈ c.areasFrom k curr, rbs.Fits) (enough : k < fuel)
    (le : i ≤ (c.rbsArea curr).words) :
    findRegister c fuel curr (wordAt ((c.rbsArea curr).firstWord + i)) regsToSkip =
      locsAt (registersOf (c.areasFrom k curr))
        (count (c.rbsArea curr).firstWord i + regsToSkip.toNat) := by
  induction k generalizing curr fuel i regsToSkip with
  | zero =>
      obtain ⟨fuel, rfl⟩ : ∃ n, fuel = n + 1 := ⟨fuel - 1, by omega⟩
      have here := fits (c.rbsArea curr) (by simp [RbsCursor.areasFrom])
      have atEdge := RbsCursor.behind_eq_zero_iff.mp edge
      rw [findRegister, RbsCursor.areasFrom, locsAt_cons, numRegs_split le]
      simp only [BitVec.lt_def, here.numRegs_eq le]
      by_cases inside : regsToSkip.toNat <
          count ((c.rbsArea curr).firstWord + i) ((c.rbsArea curr).words - i)
      · rw [if_pos inside, if_pos (by omega), here.skip_eq le inside]
        rfl
      · rw [if_neg inside, if_pos atEdge, if_neg (by omega)]
        rfl
  | succ k ih =>
      obtain ⟨fuel, rfl⟩ : ∃ n, fuel = n + 1 := ⟨fuel - 1, by omega⟩
      have here := fits (c.rbsArea curr) (by simp [RbsCursor.areasFrom])
      have further : curr ≠ c.rbsLeftEdge := by
        intro atEdge
        rw [RbsCursor.behind_eq_zero_iff.mpr atEdge] at edge
        omega
      rw [findRegister, RbsCursor.areasFrom, locsAt_cons, numRegs_split le]
      simp only [BitVec.lt_def, here.numRegs_eq le]
      by_cases inside : regsToSkip.toNat <
          count ((c.rbsArea curr).firstWord + i) ((c.rbsArea curr).words - i)
      · rw [if_pos inside, if_pos (by omega), here.skip_eq le inside]
        rfl
      · have rest : ∀ rbs ∈ c.areasFrom k (prevArea curr), rbs.Fits := fun rbs mem =>
          fits rbs (List.mem_cons_of_mem _ mem)
        obtain ⟨behind, isNext⟩ := c.areasFrom_eq k (prevArea curr)
        have next := rest (c.rbsArea (prevArea curr)) (by rw [isNext]; exact List.mem_cons_self)
        have left : (regsToSkip - rseNumRegs (wordAt ((c.rbsArea curr).firstWord + i))
            (c.rbsArea curr).endAddr).toNat = regsToSkip.toNat -
              count ((c.rbsArea curr).firstWord + i) ((c.rbsArea curr).words - i) := by
          rw [BitVec.toNat_sub_of_le, here.numRegs_eq le]
          rw [BitVec.le_def, here.numRegs_eq le]
          omega
        have later := ih (regsToSkip - rseNumRegs (wordAt ((c.rbsArea curr).firstWord + i))
          (c.rbsArea curr).endAddr) (RbsCursor.behind_prevArea edge) rest
            (Nat.lt_of_succ_lt_succ enough) (Nat.zero_le _)
        rw [Nat.add_zero, ← next.base_eq, count_zero, Nat.zero_add, left] at later
        rw [if_neg inside, if_neg further, if_neg (by omega), later]
        congr 1
        omega

/-- The first loop, and the second one from where it ends. -/
theorem findArea_eq {fuel : Nat} (regsToSkip : Word 64) (edge : c.behind curr = k)
    (fits : ∀ rbs ∈ c.areasFrom k curr, rbs.Fits) (enough : k < fuel) (small : i < 2 ^ 61)
    (few : count (c.rbsArea curr).firstWord i ≤ 63 * 2 ^ 55 - 126) :
    (findArea c fuel curr (wordAt ((c.rbsArea curr).firstWord + i)) >>= fun found =>
      findRegister c 98 found.1 found.2 regsToSkip) =
      locsAt (registersOf (c.areasFrom k curr))
        (count (c.rbsArea curr).firstWord i + regsToSkip.toNat) := by
  induction k generalizing curr fuel i with
  | zero =>
      obtain ⟨fuel, rfl⟩ : ∃ n, fuel = n + 1 := ⟨fuel - 1, by omega⟩
      have here := fits (c.rbsArea curr) (by simp [RbsCursor.areasFrom])
      have atEdge := RbsCursor.behind_eq_zero_iff.mp edge
      rw [findArea]
      simp only [here.contains_iff small]
      by_cases inside : i < (c.rbsArea curr).words
      · rw [if_pos inside]
        exact findRegister_eq regsToSkip edge fits (by decide) (Nat.le_of_lt inside)
      · have all : (c.rbsArea curr).numRegs ≤ count (c.rbsArea curr).firstWord i :=
          count_mono (Nat.le_of_not_lt inside)
        rw [if_neg inside, if_pos atEdge, RbsCursor.areasFrom, locsAt_cons, if_neg (by omega)]
        rfl
  | succ k ih =>
      obtain ⟨fuel, rfl⟩ : ∃ n, fuel = n + 1 := ⟨fuel - 1, by omega⟩
      have here := fits (c.rbsArea curr) (by simp [RbsCursor.areasFrom])
      have further : curr ≠ c.rbsLeftEdge := by
        intro atEdge
        rw [RbsCursor.behind_eq_zero_iff.mpr atEdge] at edge
        omega
      rw [findArea]
      simp only [here.contains_iff small]
      by_cases inside : i < (c.rbsArea curr).words
      · rw [if_pos inside]
        exact findRegister_eq regsToSkip edge fits (by have := c.behind_lt curr; omega)
          (Nat.le_of_lt inside)
      · have rest : ∀ rbs ∈ c.areasFrom k (prevArea curr), rbs.Fits := fun rbs mem =>
          fits rbs (List.mem_cons_of_mem _ mem)
        obtain ⟨behind, isNext⟩ := c.areasFrom_eq k (prevArea curr)
        have next := rest (c.rbsArea (prevArea curr)) (by rw [isNext]; exact List.mem_cons_self)
        obtain ⟨l, rfl⟩ := Nat.exists_eq_add_of_le (Nat.le_of_not_lt inside)
        have splits := count_add (b := (c.rbsArea curr).firstWord) (n := (c.rbsArea curr).words)
          (m := l)
        rw [splits] at few
        have passed : rseNumRegs (c.rbsArea curr).endAddr
            (wordAt ((c.rbsArea curr).firstWord + ((c.rbsArea curr).words + l))) =
              BitVec.ofNat 64 (count ((c.rbsArea curr).firstWord + (c.rbsArea curr).words) l) := by
          rw [here.endAddr_eq, ← Nat.add_assoc, rseNumRegs_wordAt _ (by omega)]
        have later := ih (i := skip (c.rbsArea (prevArea curr)).firstWord
            (count ((c.rbsArea curr).firstWord + (c.rbsArea curr).words) l))
          (RbsCursor.behind_prevArea edge) rest (Nat.lt_of_succ_lt_succ enough)
          (by rw [skip]; omega) (by rw [count_skip]; omega)
        rw [if_neg inside, if_neg further]
        simp only [passed]
        rw [next.base_eq, rseSkipRegs_wordAt _ (by omega), later, count_skip, splits,
          RbsCursor.areasFrom, locsAt_cons, if_neg (by rw [RbsArea.numRegs]; omega), RbsArea.numRegs]
        congr 1
        omega

theorem RbsCursor.areas_eq : ∃ younger, c.areas = c.currArea :: younger :=
  c.areasFrom_eq (c.behind c.rbsCurr) c.rbsCurr

theorem RbsCursor.Fits.current (fits : c.Fits) : c.currArea.Fits := by
  obtain ⟨younger, areas⟩ := c.areas_eq
  exact fits.areas c.currArea (by rw [areas]; exact List.mem_cons_self)

theorem RbsCursor.Fits.bspOffset_lt (fits : c.Fits) : c.bspOffset + 128 ≤ 2 ^ 61 := by
  have small := fits.behind
  rw [bspOffset]
  omega

/-- `bsp` is a word, counted from the start of the current area. -/
theorem RbsCursor.Fits.bsp_eq (fits : c.Fits) :
    c.bsp = wordAt (c.currArea.firstWord + c.bspOffset) := by
  have whole := fits.current.endAddr
  have whole' := fits.current.size
  have whole'' := fits.bsp
  have offset : c.bsp - c.currArea.base = wordAt c.bspOffset := by
    apply BitVec.eq_of_toNat_eq
    rw [wordAt, BitVec.toNat_ofNat, bspOffset, RbsArea.base, BitVec.toNat_sub, BitVec.toNat_sub]
    omega
  rw [wordAt_add, ← fits.current.base_eq, ← offset, BitVec.add_comm, BitVec.sub_add_cancel]

/-- Each register is found where it is. -/
theorem RbsCursor.Fits.findsStacked (fits : c.Fits) : FindsStacked c := by
  intro regsToSkip
  have small := fits.bspOffset_lt
  rw [rbsFindStacked, fits.bsp_eq]
  exact findArea_eq regsToSkip rfl fits.areas (c.behind_lt _) (by omega)
    (by rw [← currArea, count]; omega)

/-- The shortcut through the current area leads to the same place. -/
theorem RbsCursor.Fits.getStacked_eq (fits : c.Fits) {reg : Word 64} (stacked : 32 ≤ reg ∧ reg < 128) :
    ia64GetStacked c reg =
      locsAt (registersOf c.areas) (c.regsBefore + (reg - 32).toNat) := by
  have small := fits.bspOffset_lt
  have few : (reg - 32).toNat < 96 := by
    obtain ⟨least, most⟩ := stacked
    rw [BitVec.le_def] at least
    rw [BitVec.lt_def] at most
    rw [BitVec.toNat_sub_of_le least]
    change 32 ≤ reg.toNat at least
    change reg.toNat < 128 at most
    change reg.toNat - 32 < 96
    omega
  have forwards := rseSkipRegs_wordAt (m := (reg - 32).toNat)
    (c.currArea.firstWord + c.bspOffset) (by omega)
  rw [BitVec.ofNat_toNat, BitVec.setWidth_eq, Nat.add_assoc, ← skip_add, ← regsBefore] at forwards
  have near : skip c.currArea.firstWord (c.regsBefore + (reg - 32).toNat) < 2 ^ 61 := by
    have before : c.regsBefore ≤ 63 * 2 ^ 55 - 126 := by
      rw [regsBefore, count]
      omega
    rw [skip]
    omega
  rw [ia64GetStacked, if_pos stacked]
  simp only
  rw [← currArea, fits.bsp_eq, forwards]
  simp only [fits.current.contains_iff near]
  by_cases inside : skip c.currArea.firstWord (c.regsBefore + (reg - 32).toNat) < c.currArea.words
  · obtain ⟨younger, areas⟩ := c.areas_eq
    rw [if_pos inside, areas, locsAt_cons, if_pos (by rwa [RbsArea.numRegs, ← skip_lt_iff])]
    rfl
  · rw [if_neg inside]
    exact fits.findsStacked _

end Areas

end Libunwind.Ia64
