import Libunwind.Ia64.BackingStore

/-! # Flushing the registers of earlier areas

`rbs_cover_and_flush` copies the registers that are not on the current area to a dirty partition,
from which one `loadrs` can load them. Source and destination have their RNaT words at places of
their own.
-/

namespace Libunwind.Ia64

open CollectedSlots

/-- What the copying loop goes on with. -/
structure FlushState where
  curr : RbsIndex
  bsp : Word 64
  srcRnat : Word 64
  dstRnat : Word 64
  /-- The words of the dirty partition up to `dst`. -/
  words : List (Word 64)

/-- What is there when a size is returned. -/
structure Flushed where
  /-- The words that have been written to `dirty_partition`. -/
  words : List (Word 64)
  /-- `*dirty_rnat`, if it has been set. -/
  dirtyRnat : Option (Word 64)
  bspstore : Word 64
  bsp : Word 64
  locRnat : Ia64Loc

section Flush

variable (get : Ia64Loc → Result (Word 64)) (ucRnat : Word 64) (c : RbsCursor)

def getRnat (rbs : RbsArea) (bsp : Word 64) : Result (Word 64) := get (rbsGetRnatLoc rbs bsp)

/-- Switching to the next area that is not empty. -/
def switchArea : Nat → RbsIndex → Word 64 → Result (RbsIndex × Word 64)
  | 0, _, _ => .error .timeout
  | fuel + 1, curr, bsp =>
      if curr = c.rbsLeftEdge then .error (.err .badreg)
      else if rseNumRegs (c.rbsArea curr).endAddr bsp ≠ 0 then .error .undefined
      else
        let curr := prevArea curr
        let bsp := (c.rbsArea curr).base
        if (c.rbsArea curr).size = 0 then switchArea fuel curr bsp else pure (curr, bsp)

/-- There is a next slot in the area, after a switch if need be. -/
def enterArea (s : FlushState) : Result FlushState :=
  if RbsContains (c.rbsArea s.curr) s.bsp then pure s
  else do
    let (curr, bsp) ← switchArea c 98 s.curr s.bsp
    let srcRnat ← getRnat get (c.rbsArea curr) bsp
    pure { s with curr, bsp, srcRnat }

/-- The source is not at an RNaT slot. -/
def skipRnat (s : FlushState) : Result FlushState :=
  if RseIsRnatSlot s.bsp then do
    let bsp := s.bsp + 8
    let srcRnat ← getRnat get (c.rbsArea s.curr) bsp
    pure { s with bsp, srcRnat }
  else pure s

/-- The collected NaT bits are written when `dst` is an RNaT slot. -/
def flushRnat (dirtyPartition : Word 64) (s : FlushState) : FlushState :=
  if RseIsRnatSlot (dirtyPartition + wordAt s.words.length) then
    { s with words := s.words ++ [s.dstRnat], dstRnat := 0 }
  else s

/-- `dst_rnat` with the NaT bit of the slot. -/
def copyNat (srcRnat dstRnat bsp dst : Word 64) : Word 64 :=
  let srcMask := (1 : Word 64) <<< rseSlotNum bsp
  let dstMask := (1 : Word 64) <<< rseSlotNum dst
  if srcRnat &&& srcMask ≠ 0 then dstRnat ||| dstMask else dstRnat &&& ~~~dstMask

/-- Copying one slot. -/
def copySlot (dirtyPartition : Word 64) (s : FlushState) : Result FlushState := do
  let dstRnat := copyNat s.srcRnat s.dstRnat s.bsp (dirtyPartition + wordAt s.words.length)
  let value ← get (rbsLoc (c.rbsArea s.curr) s.bsp)
  pure { s with bsp := s.bsp + 8, dstRnat, words := s.words ++ [value] }

def flushLoop (dirtyPartition : Word 64) : Nat → FlushState → Result FlushState
  | 0, s => pure s
  | nregs + 1, s => do
      let s ← enterArea get c s
      let s ← skipRnat get c s
      let s ← copySlot get c dirtyPartition (flushRnat dirtyPartition s)
      flushLoop dirtyPartition nregs s

/-- Where the loop starts; `src_rnat` has no value yet, and gets one before it is used. -/
def flushStart : FlushState :=
  { curr := c.rbsCurr, bsp := c.currArea.endAddr, srcRnat := 0, dstRnat := 0, words := [] }

/-- The registers are not all on the current area. -/
def flushEarlier (nregs dirtyPartition newBsp : Word 64) : Result Flushed := do
  let rbs := c.currArea
  if IsRegLoc rbs.rnatLoc then .error .undefined
  else
    let s ← flushLoop get c dirtyPartition nregs.toNat (flushStart c)
    let s := flushRnat dirtyPartition s
    pure { words := s.words, dirtyRnat := some s.dstRnat, bspstore := rbs.endAddr, bsp := newBsp,
           locRnat := rbs.rnatLoc }

/-- `rbs_cover_and_flush`; `get` is `ia64_get` for the cursor, and `ucRnat` the address of the RNaT
    register in the context. -/
def rbsCoverAndFlush (nregs dirtyPartition : Word 64) : Result Flushed :=
  let rbs := c.currArea
  let newBsp := rseSkipRegs c.bsp nregs
  if RbsContains rbs c.bsp then
    let n := rseNumRegs c.bsp rbs.endAddr
    if nregs ≤ n then
      let rnatLoc := rbsGetRnatLoc rbs newBsp
      pure { words := [], dirtyRnat := none, bspstore := newBsp, bsp := newBsp,
             locRnat := if IsRegLoc rnatLoc then ia64LocAddr ucRnat 0 else rnatLoc }
    else if rseSkipRegs newBsp (-(nregs - n)) = rseSkipRegs rbs.endAddr 0 then
      flushEarlier get c (nregs - n) dirtyPartition newBsp
    else .error .undefined
  else flushEarlier get c (nregs + rseNumRegs rbs.endAddr c.bsp) dirtyPartition newBsp

end Flush

/-! ## What is copied -/

/-- The area after its word `i`, and those behind it. -/
structure Position where
  rbs : RbsArea
  i : Nat
  rest : List RbsArea

/-- The registers from a position on. -/
def Position.registers (p : Position) : List StackedReg :=
  p.rbs.registersFrom p.i ++ registersOf p.rest

/-- A register's value and its NaT bit. -/
def Reads (get : Ia64Loc → Result (Word 64)) (reg : StackedReg) (v : Word 64 × Bool) : Prop :=
  get reg.loc = .ok v.1 ∧
    ∃ rnat, get reg.rnatLoc = .ok rnat ∧ rnat.getLsbD (rseSlotNum reg.addr).toNat = v.2

namespace RbsCursor

/-- The areas that the registers of earlier frames are on. -/
def earlier (c : RbsCursor) : List RbsArea := c.areas.tail

/-- How many registers there are behind the current area. -/
def notOnArea (c : RbsCursor) (nregs : Word 64) : Nat :=
  c.regsBefore + nregs.toNat - c.currArea.numRegs

end RbsCursor

/-- The registers that are not on the current area have been copied, in order and each with its NaT
    bit. -/
def FlushedRight (get : Ia64Loc → Result (Word 64)) (c : RbsCursor) (nregs : Word 64) (w : Nat)
    (flushed : Flushed) : Prop :=
  ∃ values : List (Word 64 × Bool), values.length = c.notOnArea nregs ∧
    (∀ (k : Nat) v, values[k]? = some v → ∃ reg, (registersOf c.earlier)[k]? = some reg ∧ Reads get reg v) ∧
    Stored w flushed.words (flushed.dirtyRnat.getD 0) values

/-- The last word of the area is an RNaT slot. -/
def RbsArea.EndsOnRnat (rbs : RbsArea) : Prop := Collects (rbs.firstWord + rbs.words - 1)

instance (rbs : RbsArea) : Decidable rbs.EndsOnRnat := inferInstanceAs (Decidable (Collects _))

/-- The word behind the area, taken for a register. -/
def RbsArea.wordBehind (rbs : RbsArea) : StackedReg := ⟨rbs, wordAt (rbs.firstWord + rbs.words)⟩

/-- The same value with the same NaT bit. -/
def SameReg (reg other : StackedReg) : Prop := reg.loc = other.loc ∧ reg.rnatLoc = other.rnatLoc

/-- The word behind an area is that of the next register, and has its NaT bit in the same place. -/
def GoesOnBehind (rbs : RbsArea) (rest : List RbsArea) : Prop :=
  ∃ reg, (registersOf rest)[0]? = some reg ∧ SameReg reg rbs.wordBehind

/-- So many registers from a word of an area on; `later` says the same of the areas behind it. -/
def CopiesFrom (rbs : RbsArea) (i : Nat) (rest : List RbsArea) (later : Nat → Prop) (q : Nat) : Prop :=
  if i < rbs.words then
    let n := count (rbs.firstWord + i) (rbs.words - i)
    n < q → if rbs.EndsOnRnat then q = n + 1 → GoesOnBehind rbs rest else later (q - n)
  else later q

/-- The condition for copying so many registers of some areas: where one of them ends on an RNaT
    slot, they do not end with the first register behind it. -/
def CopiesRight : List RbsArea → Nat → Prop
  | [], _ => True
  | rbs :: rest, q => CopiesFrom rbs 0 rest (fun q => CopiesRight rest q) q

/-- The next area that is not empty, from its start. -/
def nextArea : List RbsArea → Option Position
  | [] => none
  | rbs :: rest => if rbs.words = 0 then nextArea rest else some ⟨rbs, 0, rest⟩

namespace Position

/-- Past the RNaT slot. -/
def toSlot (p : Position) : Position :=
  if Collects (p.rbs.firstWord + p.i) then { p with i := p.i + 1 } else p

/-- Up to the slot that the loop copies next. -/
def advance (p : Position) : Option Position :=
  if p.i < p.rbs.words then some p.toSlot
  else if p.i = p.rbs.words then (nextArea p.rest).map toSlot
  else none

/-- The slot there. -/
def slot (p : Position) : StackedReg := ⟨p.rbs, wordAt (p.rbs.firstWord + p.i)⟩

/-- The slots that the loop copies. -/
def copied : Nat → Position → Option (List StackedReg)
  | 0, _ => some []
  | q + 1, p => do
      let p ← p.advance
      let later ← copied q { p with i := p.i + 1 }
      some (p.slot :: later)

end Position

/-- Each of some slots is the register in its place. -/
def Delivers (slots regs : List StackedReg) : Prop :=
  ∀ (k : Nat) slot, slots[k]? = some slot → ∃ reg, regs[k]? = some reg ∧ SameReg reg slot

section Copied

variable {p next : Position} {rest : List RbsArea} {slots regs : List StackedReg}
  {slot reg : StackedReg} {q i : Nat}

theorem delivers_cons :
    Delivers (slot :: slots) (reg :: regs) ↔ SameReg reg slot ∧ Delivers slots regs := by
  constructor
  · intro each
    refine ⟨?_, fun k later isLater => ?_⟩
    · obtain ⟨_, isReg, same⟩ := each 0 slot rfl
      rwa [← Option.some.inj isReg] at same
    · exact each (k + 1) later isLater
  · rintro ⟨first, later⟩ k slot isSlot
    cases k with
    | zero => exact ⟨reg, rfl, Option.some.inj isSlot ▸ first⟩
    | succ k => exact later k slot isSlot

namespace Position

/-- The condition from a position on. -/
def CopiesRight (p : Position) (q : Nat) : Prop :=
  CopiesFrom p.rbs p.i p.rest (fun q => Ia64.CopiesRight p.rest q) q

theorem registers_ordinary (inside : p.i < p.rbs.words) (here : ¬Collects (p.rbs.firstWord + p.i)) :
    p.registers = p.slot :: { p with i := p.i + 1 }.registers := by
  rw [registers, RbsArea.registersFrom, ordinary_cons inside here]
  rfl

theorem registers_collects (inside : p.i < p.rbs.words) (here : Collects (p.rbs.firstWord + p.i)) :
    p.registers = { p with i := p.i + 1 }.registers := by
  rw [registers, RbsArea.registersFrom, ordinary_skip inside here]
  rfl

theorem registers_end (atEnd : p.i = p.rbs.words) : p.registers = registersOf p.rest := by
  rw [registers, RbsArea.registersFrom, ordinary_end (Nat.le_of_eq atEnd.symm)]
  rfl

end Position

/-- Areas that are passed over have no registers. -/
theorem registersOf_nextArea :
    registersOf rest = (nextArea rest).elim [] Position.registers := by
  induction rest with
  | nil => rfl
  | cons rbs rest ih =>
      rw [registersOf_cons, nextArea]
      by_cases empty : rbs.words = 0
      · rw [if_pos empty, RbsArea.registersFrom, ordinary_end (Nat.le_of_eq empty), ← ih]
        rfl
      · rw [if_neg empty]
        rfl

theorem copiesRight_nextArea :
    CopiesRight rest q ↔ ∀ p, nextArea rest = some p → p.CopiesRight q := by
  induction rest with
  | nil => exact iff_of_true trivial nofun
  | cons rbs rest ih =>
      rw [CopiesRight, nextArea, CopiesFrom]
      by_cases empty : rbs.words = 0
      · rw [if_neg (by omega), if_pos empty]
        exact ih
      · have inside : 0 < rbs.words := Nat.pos_of_ne_zero empty
        simp only [if_pos inside, if_neg empty, Option.some.injEq, forall_eq']
        rw [Position.CopiesRight, CopiesFrom, if_pos inside]

/-- Copying nothing goes right. -/
theorem copiesRight_zero : CopiesRight rest 0 := by
  induction rest with
  | nil => trivial
  | cons rbs rest ih =>
      rw [CopiesRight, CopiesFrom]
      by_cases inside : 0 < rbs.words
      · rw [if_pos inside]
        exact fun more => absurd more (Nat.not_lt_zero _)
      · rw [if_neg inside]
        exact ih

theorem nextArea_inside (isNext : nextArea rest = some p) : p.i < p.rbs.words := by
  induction rest with
  | nil => exact nomatch isNext
  | cons rbs rest ih =>
      rw [nextArea] at isNext
      by_cases empty : rbs.words = 0
      · rw [if_pos empty] at isNext
        exact ih isNext
      · rw [if_neg empty] at isNext
        rw [← Option.some.inj isNext]
        exact Nat.pos_of_ne_zero empty

namespace Position

theorem copiesRight_ordinary (inside : p.i < p.rbs.words)
    (here : ¬Collects (p.rbs.firstWord + p.i)) :
    p.CopiesRight (q + 1) ↔ { p with i := p.i + 1 }.CopiesRight q := by
  obtain ⟨l, length⟩ := Nat.exists_eq_add_of_lt inside
  have counts : count (p.rbs.firstWord + p.i) (p.rbs.words - p.i) =
      1 + count (p.rbs.firstWord + (p.i + 1)) (p.rbs.words - (p.i + 1)) := by
    rw [show p.rbs.words - p.i = 1 + l by omega, count_add, count_one, if_neg here,
      show p.rbs.words - (p.i + 1) = l by omega]
    rfl
  rw [CopiesRight, CopiesRight, CopiesFrom, CopiesFrom, if_pos inside]
  simp only [counts]
  by_cases further : p.i + 1 < p.rbs.words
  · rw [if_pos further, Nat.add_comm 1, Nat.add_lt_add_iff_right, Nat.add_sub_add_right,
      Nat.add_right_cancel_iff]
  · have last : p.rbs.words = p.i + 1 := by omega
    have ordinary : ¬p.rbs.EndsOnRnat := by
      rwa [RbsArea.EndsOnRnat, last, ← Nat.add_assoc, Nat.add_sub_cancel]
    rw [if_neg further, if_neg ordinary, last, Nat.sub_self, count_zero]
    cases q with
    | zero => exact iff_of_true (fun more => absurd more (by decide)) copiesRight_zero
    | succ q => simp

theorem copiesRight_collects (further : p.i + 1 < p.rbs.words)
    (here : Collects (p.rbs.firstWord + p.i)) :
    p.CopiesRight q ↔ { p with i := p.i + 1 }.CopiesRight q := by
  obtain ⟨l, length⟩ := Nat.exists_eq_add_of_lt further
  have counts : count (p.rbs.firstWord + p.i) (p.rbs.words - p.i) =
      count (p.rbs.firstWord + (p.i + 1)) (p.rbs.words - (p.i + 1)) := by
    rw [show p.rbs.words - p.i = 1 + (l + 1) by omega, count_add, count_one, if_pos here,
      show p.rbs.words - (p.i + 1) = l + 1 by omega, Nat.zero_add]
    rfl
  rw [CopiesRight, CopiesRight, CopiesFrom, CopiesFrom, if_pos (by omega), if_pos further]
  simp only [counts]

theorem copiesRight_last (last : p.i + 1 = p.rbs.words) (here : Collects (p.rbs.firstWord + p.i)) :
    p.CopiesRight (q + 1) ↔ (q = 0 → GoesOnBehind p.rbs p.rest) := by
  have onRnat : p.rbs.EndsOnRnat := by
    rwa [RbsArea.EndsOnRnat, ← last, ← Nat.add_assoc, Nat.add_sub_cancel]
  have none : count (p.rbs.firstWord + p.i) (p.rbs.words - p.i) = 0 := by
    rw [show p.rbs.words - p.i = 1 by omega, count_one, if_pos here]
  rw [CopiesRight, CopiesFrom, if_pos (by omega)]
  simp only [none, if_pos onRnat, Nat.zero_lt_succ, forall_const, Nat.zero_add]
  rw [Nat.add_eq_right]

theorem copiesRight_end (atEnd : p.i = p.rbs.words) :
    p.CopiesRight q ↔ Ia64.CopiesRight p.rest q := by
  rw [CopiesRight, CopiesFrom, if_neg (by omega)]

theorem advance_inside (inside : p.i < p.rbs.words) : p.advance = some p.toSlot := by
  rw [advance, if_pos inside]

theorem advance_end (atEnd : p.i = p.rbs.words) :
    p.advance = (nextArea p.rest).map toSlot := by
  rw [advance, if_neg (by omega), if_pos atEnd]

theorem toSlot_ordinary (here : ¬Collects (p.rbs.firstWord + p.i)) : p.toSlot = p := by
  rw [toSlot, if_neg here]

theorem toSlot_collects (here : Collects (p.rbs.firstWord + p.i)) :
    p.toSlot = { p with i := p.i + 1 } := by
  rw [toSlot, if_pos here]

theorem copied_succ (p : Position) (q : Nat) : p.copied (q + 1) =
    p.advance.bind fun next =>
      ({ next with i := next.i + 1 }.copied q).map fun later => next.slot :: later := by
  rw [copied]
  cases p.advance with
  | none => rfl
  | some next => cases isLater : { next with i := next.i + 1 }.copied q <;> simp [isLater]

/-- The word behind an RNaT slot is an ordinary one. -/
theorem ordinary_of_collects {b : Nat} (here : Collects b) : ¬Collects (b + 1) := by
  rw [Collects] at *
  omega

/-- There is nothing behind the word that is read beyond the end. -/
theorem copied_beyond (beyond : p.rbs.words < p.i) :
    p.copied q = if q = 0 then some [] else none := by
  cases q with
  | zero => rfl
  | succ q =>
      rw [copied_succ, advance, if_neg (by omega), if_neg (by omega)]
      rfl

/-- The slots that are copied are those of the registers. -/
def Right (p : Position) (q : Nat) : Prop :=
  ∀ slots, p.copied q = some slots → Delivers slots p.registers

theorem right_ordinary (inside : p.i < p.rbs.words) (here : ¬Collects (p.rbs.firstWord + p.i)) :
    p.Right (q + 1) ↔ { p with i := p.i + 1 }.Right q := by
  have copies : p.copied (q + 1) =
      ({ p with i := p.i + 1 }.copied q).map fun later => p.slot :: later := by
    rw [copied_succ, advance_inside inside, toSlot_ordinary here]
    rfl
  rw [Right, copies, registers_ordinary inside here]
  constructor
  · intro right slots isCopied
    exact (delivers_cons.mp (right (p.slot :: slots) (by rw [isCopied]; rfl))).2
  · intro right slots isCopied
    obtain ⟨later, isLater, rfl⟩ := Option.map_eq_some_iff.mp isCopied
    exact delivers_cons.mpr ⟨⟨rfl, rfl⟩, right later isLater⟩

theorem right_collects (further : p.i + 1 < p.rbs.words) (here : Collects (p.rbs.firstWord + p.i)) :
    p.Right (q + 1) ↔ { p with i := p.i + 1 }.Right (q + 1) := by
  have next : p.advance = { p with i := p.i + 1 }.advance := by
    have ordinary := ordinary_of_collects here
    rw [Nat.add_assoc] at ordinary
    rw [advance_inside (by omega), advance_inside (p := { p with i := p.i + 1 }) further,
      toSlot_collects here, toSlot_ordinary (p := { p with i := p.i + 1 }) ordinary]
  rw [Right, Right, copied_succ, copied_succ, next, registers_collects (by omega) here]

theorem right_last (last : p.i + 1 = p.rbs.words) (here : Collects (p.rbs.firstWord + p.i)) :
    p.Right (q + 1) ↔ (q = 0 → GoesOnBehind p.rbs p.rest) := by
  have copies : p.copied (q + 1) =
      (if q = 0 then some [] else none).map fun later => { p with i := p.i + 1 }.slot :: later := by
    rw [copied_succ, advance_inside (by omega), toSlot_collects here, Option.bind_some,
      copied_beyond (by simp only; omega)]
  rw [Right, copies, registers_collects (by omega) here, registers_end last]
  cases q with
  | zero =>
      have behind : ({ p with i := p.i + 1 } : Position).slot = p.rbs.wordBehind := by
        rw [slot, RbsArea.wordBehind, ← last]
      rw [if_pos rfl, behind]
      constructor
      · exact fun right _ => right [p.rbs.wordBehind] rfl 0 _ rfl
      · intro goesOn slots isCopied k slot isSlot
        rw [← Option.some.inj isCopied] at isSlot
        cases k with
        | zero => exact Option.some.inj isSlot ▸ goesOn rfl
        | succ k => exact nomatch isSlot
  | succ q => exact iff_of_true nofun nofun

/-- They are just when the condition holds. -/
theorem right_iff (le : p.i ≤ p.rbs.words) : p.Right q ↔ p.CopiesRight q := by
  induction q generalizing p with
  | zero =>
      refine iff_of_true (fun slots isCopied => ?_) ?_
      · rw [← Option.some.inj isCopied]
        exact nofun
      · rw [CopiesRight, CopiesFrom]
        by_cases inside : p.i < p.rbs.words
        · rw [if_pos inside]
          exact fun more => absurd more (Nat.not_lt_zero _)
        · rw [if_neg inside]
          exact copiesRight_zero
  | succ q ih =>
      have ordinarily {p : Position} (inside : p.i < p.rbs.words)
          (here : ¬Collects (p.rbs.firstWord + p.i)) :
          p.Right (q + 1) ↔ p.CopiesRight (q + 1) := by
        rw [right_ordinary inside here, copiesRight_ordinary inside here]
        exact ih inside
      have within {p : Position} (inside : p.i < p.rbs.words) :
          p.Right (q + 1) ↔ p.CopiesRight (q + 1) := by
        by_cases here : Collects (p.rbs.firstWord + p.i)
        · by_cases further : p.i + 1 < p.rbs.words
          · rw [right_collects further here, copiesRight_collects further here]
            exact ordinarily further (ordinary_of_collects here)
          · have last : p.i + 1 = p.rbs.words := by omega
            rw [right_last last here, copiesRight_last last here]
        · exact ordinarily inside here
      by_cases inside : p.i < p.rbs.words
      · exact within inside
      · have atEnd : p.i = p.rbs.words := by omega
        rw [copiesRight_end atEnd, copiesRight_nextArea, Right, copied_succ, advance_end atEnd,
          registers_end atEnd, registersOf_nextArea]
        cases isNext : nextArea p.rest with
        | none => exact iff_of_true nofun nofun
        | some next =>
            have start := nextArea_inside isNext
            have whole := within start
            rw [Right, copied_succ, advance_inside start] at whole
            exact whole.trans ⟨fun copies p isP => Option.some.inj isP ▸ copies,
              fun copies => copies next rfl⟩

end Position

end Copied

/-! ## The loop copies these slots -/

/-- There is a word everywhere. -/
def Total (get : Ia64Loc → Result (Word 64)) : Prop := ∀ loc, ∃ v, get loc = .ok v

/-- The routine comes to such a result, unless there is a word that it cannot read. -/
def Gives {α : Type} (get : Ia64Loc → Result (Word 64)) (r : Result α) (post : α → Prop) : Prop :=
  (∃ a, r = .ok a ∧ post a) ∨ (∃ e, r = .error e) ∧ ¬Total get

section Gives

variable {α β γ δ : Type} {get : Ia64Loc → Result (Word 64)} {r : Result α} {post : α → Prop}

theorem Gives.pure {a : α} (holds : post a) : Gives get (.ok a) post := .inl ⟨a, rfl, holds⟩

theorem Gives.bind {rest : α → Result β} {post' : β → Prop} (first : Gives get r post)
    (later : ∀ a, post a → Gives get (rest a) post') : Gives get (r >>= rest) post' := by
  rcases first with ⟨a, rfl, holds⟩ | ⟨⟨e, rfl⟩, partly⟩
  · exact later a holds
  · exact .inr ⟨⟨e, rfl⟩, partly⟩

theorem Gives.read (loc : Ia64Loc) : Gives get (get loc) fun v => get loc = .ok v := by
  cases isRead : get loc with
  | ok v => exact .inl ⟨v, rfl, rfl⟩
  | error e => exact .inr ⟨⟨e, rfl⟩, fun total => by
      obtain ⟨v, isValue⟩ := total loc
      exact nomatch isRead.symm.trans isValue⟩

theorem Gives.mono {post' : α → Prop} (gives : Gives get r post) (weaker : ∀ a, post a → post' a) :
    Gives get r post' := by
  rcases gives with ⟨a, isOk, holds⟩ | fails
  · exact .inl ⟨a, isOk, weaker a holds⟩
  · exact .inr fails

/-- The routine does what the option says, and fails where that is nothing. -/
def Follows (get : Ia64Loc → Result (Word 64)) (r : Result α) (o : Option γ) (post : γ → α → Prop) :
    Prop :=
  match o with
  | some x => Gives get r (post x)
  | none => ∃ e, r = .error e

theorem Gives.follows {x : γ} {post : γ → α → Prop} (gives : Gives get r (post x)) :
    Follows get r (some x) post := gives

theorem Follows.pure {x : γ} {a : α} {post : γ → α → Prop} (holds : post x a) :
    Follows get (.ok a) (some x) post := Gives.pure holds

theorem Follows.error {e : Fault} {post : γ → α → Prop} : Follows get (.error e) none post := ⟨e, rfl⟩

/-- What goes on after an error fails as well. -/
theorem Follows.of_error {e : Fault} {post : γ → α → Prop} (o : Option γ) (partly : ¬Total get) :
    Follows get (.error e) o post := by
  cases o with
  | none => exact Follows.error
  | some x => exact .inr ⟨⟨e, rfl⟩, partly⟩

theorem Gives.bindFollows {rest : α → Result β} {o : Option γ} {post' : γ → β → Prop}
    (first : Gives get r post) (later : ∀ a, post a → Follows get (rest a) o post') :
    Follows get (r >>= rest) o post' := by
  rcases first with ⟨a, rfl, holds⟩ | ⟨⟨e, rfl⟩, partly⟩
  · exact later a holds
  · exact Follows.of_error o partly

theorem Follows.bind {rest : α → Result β} {o : Option γ} {f : γ → Option δ} {post : γ → α → Prop}
    {post' : δ → β → Prop} (first : Follows get r o post)
    (later : ∀ x a, post x a → Follows get (rest a) (f x) post') :
    Follows get (r >>= rest) (o.bind f) post' := by
  cases o with
  | none =>
      obtain ⟨e, rfl⟩ := first
      exact Follows.error
  | some x => exact Gives.bindFollows first (later x)

theorem Follows.map {o : Option γ} {g : γ → δ} {post : γ → α → Prop} {post' : δ → α → Prop}
    (follows : Follows get r o post) (weaker : ∀ x a, post x a → post' (g x) a) :
    Follows get r (o.map g) post' := by
  cases o with
  | none => exact follows
  | some x => exact Gives.mono follows (weaker x)

theorem Follows.finish {f : α → β} {o : Option γ} {post : γ → α → Prop} {post' : γ → β → Prop}
    (follows : Follows get r o post) (holds : ∀ x a, post x a → post' x (f a)) :
    Follows get (r >>= fun a => .ok (f a)) o post' := by
  have ends : Follows get (r >>= fun a => .ok (f a)) (o.bind some) post' :=
    follows.bind fun x a isResult => Follows.pure (holds x a isResult)
  rwa [Option.bind_fun_some] at ends

theorem Gives.ok {a : α} (gives : Gives get r post) (isOk : r = .ok a) : post a := by
  rcases gives with ⟨b, isResult, holds⟩ | ⟨⟨e, isError⟩, _⟩
  · rw [isOk] at isResult
    exact Except.ok.inj isResult ▸ holds
  · exact nomatch isOk.symm.trans isError

theorem Gives.of_total (gives : Gives get r post) (total : Total get) : ∃ a, r = .ok a ∧ post a := by
  rcases gives with found | ⟨_, partly⟩
  · exact found
  · exact absurd total partly

end Gives

section Loop

variable {get : Ia64Loc → Result (Word 64)} {c : RbsCursor} {s : FlushState} {p next : Position}
  {rbs : RbsArea} {rest : List RbsArea} {curr : RbsIndex} {w q : Nat} {slots : List StackedReg}
  {values : List (Word 64 × Bool)}

/-- The areas from an index on. -/
def Linked (c : RbsCursor) (curr : RbsIndex) (rbs : RbsArea) (rest : List RbsArea) : Prop :=
  c.areasFrom (c.behind curr) curr = rbs :: rest

theorem Linked.area (linked : Linked c curr rbs rest) : c.rbsArea curr = rbs := by
  obtain ⟨rest', isFrom⟩ := c.areasFrom_eq (c.behind curr) curr
  exact (List.cons.inj (isFrom.symm.trans linked)).1

theorem Linked.edge (linked : Linked c curr rbs []) : curr = c.rbsLeftEdge := by
  rw [Linked] at linked
  cases isBehind : c.behind curr with
  | zero => exact RbsCursor.behind_eq_zero_iff.mp isBehind
  | succ k =>
      rw [isBehind, RbsCursor.areasFrom] at linked
      obtain ⟨rest', isFrom⟩ := c.areasFrom_eq k (prevArea curr)
      rw [isFrom] at linked
      cases (List.cons.inj linked).2

theorem Linked.older {older : RbsArea} (linked : Linked c curr rbs (older :: rest)) :
    ∃ k, c.behind curr = k + 1 ∧ c.behind (prevArea curr) = k ∧
      Linked c (prevArea curr) older rest := by
  rw [Linked] at linked
  cases isBehind : c.behind curr with
  | zero =>
      rw [isBehind, RbsCursor.areasFrom] at linked
      cases (List.cons.inj linked).2
  | succ k =>
      rw [isBehind, RbsCursor.areasFrom] at linked
      have before := RbsCursor.behind_prevArea isBehind
      refine ⟨k, rfl, before, ?_⟩
      rw [Linked, before]
      exact (List.cons.inj linked).2

theorem RbsArea.Fits.size_eq_zero_iff (fits : rbs.Fits) : rbs.size = 0 ↔ rbs.words = 0 := by
  have whole := fits.size
  rw [← BitVec.toNat_inj, RbsArea.words]
  change rbs.size.toNat = 0 ↔ _
  omega

/-- From the end of an area, the switch leads to the next one that is not empty. -/
theorem switchArea_next {fuel : Nat} (linked : Linked c curr rbs rest) (enough : c.behind curr < fuel)
    (fits : ∀ a ∈ rbs :: rest, a.Fits) (isNext : nextArea rest = some next) :
    ∃ curr', switchArea c fuel curr rbs.endAddr = .ok (curr', next.rbs.base) ∧
      next.i = 0 ∧ Linked c curr' next.rbs next.rest ∧ ∀ a ∈ next.rbs :: next.rest, a.Fits := by
  induction rest generalizing rbs curr fuel with
  | nil => exact nomatch isNext
  | cons older rest ih =>
      obtain ⟨fuel, rfl⟩ : ∃ n, fuel = n + 1 := ⟨fuel - 1, by omega⟩
      obtain ⟨k, more, before, later⟩ := linked.older
      have further : curr ≠ c.rbsLeftEdge := by
        intro atEdge
        rw [RbsCursor.behind_eq_zero_iff.mpr atEdge] at more
        omega
      have none : rseNumRegs rbs.endAddr rbs.endAddr = 0 := by
        have start := rseNumRegs_wordAt (n := 0) (rbs.firstWord + rbs.words) (by decide)
        rwa [Nat.add_zero, ← (fits rbs List.mem_cons_self).endAddr_eq, count_zero] at start
      have behind : ∀ a ∈ older :: rest, a.Fits := fun a mem => fits a (List.mem_cons_of_mem _ mem)
      have here := behind older List.mem_cons_self
      rw [switchArea, if_neg further, linked.area, none, if_neg (fun differs => differs rfl)]
      simp only [later.area, here.size_eq_zero_iff]
      rw [nextArea] at isNext
      by_cases empty : older.words = 0
      · have same : older.base = older.endAddr := by
          rw [here.base_eq, here.endAddr_eq, empty, Nat.add_zero]
        rw [if_pos empty] at isNext ⊢
        rw [same]
        exact ih later (by omega) behind isNext
      · rw [if_neg empty] at isNext ⊢
        rw [← Option.some.inj isNext]
        exact ⟨prevArea curr, rfl, rfl, later, behind⟩

theorem switchArea_none (linked : Linked c curr rbs rest) (fits : ∀ rbs ∈ rest, rbs.Fits)
    (isNext : nextArea rest = none) (fuel : Nat) (bsp : Word 64) :
    ∃ e, switchArea c fuel curr bsp = .error e := by
  induction rest generalizing rbs curr fuel bsp with
  | nil =>
      cases fuel with
      | zero => exact ⟨_, rfl⟩
      | succ fuel => exact ⟨_, by rw [switchArea, if_pos linked.edge]⟩
  | cons older rest ih =>
      obtain ⟨k, more, before, later⟩ := linked.older
      have here := fits older List.mem_cons_self
      rw [nextArea] at isNext
      by_cases empty : older.words = 0
      · rw [if_pos empty] at isNext
        cases fuel with
        | zero => exact ⟨_, rfl⟩
        | succ fuel =>
            rw [switchArea]
            by_cases atEdge : curr = c.rbsLeftEdge
            · exact ⟨_, by rw [if_pos atEdge]⟩
            · rw [if_neg atEdge]
              by_cases between : rseNumRegs (c.rbsArea curr).endAddr bsp ≠ 0
              · exact ⟨_, by rw [if_pos between]⟩
              · rw [if_neg between]
                simp only [later.area, here.size_eq_zero_iff]
                rw [if_pos empty]
                exact ih later (fun rbs mem => fits rbs (List.mem_cons_of_mem _ mem)) isNext _ _
      · rw [if_neg empty] at isNext
        exact nomatch isNext

/-- The loop is at a position; beyond the end of an area it comes only by reading the word there. -/
structure At (get : Ia64Loc → Result (Word 64)) (c : RbsCursor) (s : FlushState) (p : Position) :
    Prop where
  linked : Linked c s.curr p.rbs p.rest
  fits : ∀ rbs ∈ p.rbs :: p.rest, rbs.Fits
  bsp : s.bsp = wordAt (p.rbs.firstWord + p.i)
  within : p.i ≤ p.rbs.words ∨ p.i = p.rbs.words + 1 ∧ ¬Collects (p.rbs.firstWord + p.rbs.words)
  rnat : p.i < p.rbs.words → ¬Collects (p.rbs.firstWord + p.i) →
    get p.slot.rnatLoc = .ok s.srcRnat

/-- It has found the slot to copy. -/
structure AtSlot (get : Ia64Loc → Result (Word 64)) (c : RbsCursor) (s : FlushState) (p : Position) :
    Prop where
  linked : Linked c s.curr p.rbs p.rest
  fits : ∀ rbs ∈ p.rbs :: p.rest, rbs.Fits
  bsp : s.bsp = wordAt (p.rbs.firstWord + p.i)
  within : p.i ≤ p.rbs.words
  ordinary : ¬Collects (p.rbs.firstWord + p.i)
  rnat : get p.slot.rnatLoc = .ok s.srcRnat

/-- The destination is not touched. -/
def SameWords (s t : FlushState) : Prop := t.words = s.words ∧ t.dstRnat = s.dstRnat

theorem At.contains_iff (isAt : At get c s p) :
    RbsContains (c.rbsArea s.curr) s.bsp ↔ p.i < p.rbs.words := by
  have here := isAt.fits p.rbs List.mem_cons_self
  have small := here.words_lt
  have within := isAt.within
  rw [isAt.linked.area, isAt.bsp, here.contains_iff (by omega)]

theorem skipRnat_gives (isAt : At get c s p) (inside : p.i < p.rbs.words) :
    Gives get (skipRnat get c s) fun t => AtSlot get c t p.toSlot ∧ SameWords s t := by
  rw [skipRnat]
  simp only [isAt.bsp, rseIsRnatSlot_wordAt]
  by_cases here : Collects (p.rbs.firstWord + p.i)
  · rw [if_pos here, Position.toSlot_collects here, ← wordAt_succ, getRnat, isAt.linked.area]
    refine (Gives.read _).bind fun srcRnat isRead => Gives.pure ⟨?_, rfl, rfl⟩
    exact ⟨isAt.linked, isAt.fits, rfl, inside, Position.ordinary_of_collects here, isRead⟩
  · rw [if_neg here, Position.toSlot_ordinary here]
    refine Gives.pure ⟨?_, rfl, rfl⟩
    exact ⟨isAt.linked, isAt.fits, isAt.bsp, Nat.le_of_lt inside, here, isAt.rnat inside here⟩

/-- Beyond the end there is a register between the area and `bsp`, which an assertion rules out. -/
theorem switchArea_beyond (isAt : At get c s p) (beyond : p.rbs.words < p.i) (fuel : Nat) :
    ∃ e, switchArea c fuel s.curr s.bsp = .error e := by
  have here := isAt.fits p.rbs List.mem_cons_self
  obtain ⟨last, ordinary⟩ : p.i = p.rbs.words + 1 ∧ _ := isAt.within.resolve_left (by omega)
  have one : rseNumRegs p.rbs.endAddr s.bsp ≠ 0 := by
    rw [isAt.bsp, here.endAddr_eq, last, ← Nat.add_assoc, rseNumRegs_wordAt _ (by decide),
      count_one, if_neg ordinary]
    decide
  cases fuel with
  | zero => exact ⟨_, rfl⟩
  | succ fuel =>
      rw [switchArea, isAt.linked.area]
      by_cases atEdge : s.curr = c.rbsLeftEdge
      · exact ⟨_, by rw [if_pos atEdge]⟩
      · exact ⟨_, by rw [if_neg atEdge, if_pos one]⟩

/-- The loop comes to the slot that is copied next. -/
theorem findSlot_follows (isAt : At get c s p) :
    Follows get (enterArea get c s >>= skipRnat get c) p.advance fun next t =>
      AtSlot get c t next ∧ SameWords s t := by
  rw [enterArea]
  simp only [isAt.contains_iff]
  rcases lt_trichotomy p.i p.rbs.words with inside | atEnd | beyond
  · rw [Position.advance_inside inside, if_pos inside]
    exact (skipRnat_gives isAt inside).follows
  · rw [Position.advance_end atEnd, if_neg (by omega)]
    have here := isAt.fits p.rbs List.mem_cons_self
    cases isStart : nextArea p.rest with
    | none =>
        have fits : ∀ rbs ∈ p.rest, rbs.Fits := fun rbs mem =>
          isAt.fits rbs (List.mem_cons_of_mem _ mem)
        obtain ⟨e, isError⟩ := switchArea_none isAt.linked fits isStart 98 s.bsp
        rw [isError]
        exact Follows.error
    | some start =>
        have enough : c.behind s.curr < 98 := RbsCursor.behind_lt _
        obtain ⟨curr, switched, first, linked, fits⟩ :=
          switchArea_next isAt.linked enough isAt.fits isStart
        have inStart := nextArea_inside isStart
        have base : start.rbs.base = wordAt (start.rbs.firstWord + start.i) := by
          rw [first, Nat.add_zero]
          exact (fits start.rbs List.mem_cons_self).base_eq
        rw [isAt.bsp, atEnd, ← here.endAddr_eq, switched]
        simp only [ok_bind, bind_assoc]
        rw [getRnat, linked.area, base]
        refine Gives.follows ((Gives.read _).bind fun srcRnat isRead => ?_)
        have entered : At get c
            { s with curr, bsp := wordAt (start.rbs.firstWord + start.i), srcRnat } start :=
          ⟨linked, fits, rfl, .inl (Nat.le_of_lt inStart), fun _ _ => isRead⟩
        exact skipRnat_gives entered inStart
  · obtain ⟨e, isError⟩ := switchArea_beyond isAt beyond 98
    rw [Position.advance, if_neg (by omega), if_neg (by omega), if_neg (by omega), isError]
    exact Follows.error

theorem rseSlotNum_toNat (n : Nat) : (rseSlotNum (wordAt n)).toNat = n % 64 := by
  rw [rseSlotNum_wordAt, BitVec.toNat_ofNat]
  omega

/-- The bit of the slot is copied, and no other one changes. -/
theorem copyNat_getLsbD (srcRnat dstRnat : Word 64) (m n i : Nat) :
    (copyNat srcRnat dstRnat (wordAt m) (wordAt n)).getLsbD i =
      if i = n % 64 then srcRnat.getLsbD (m % 64) else dstRnat.getLsbD i := by
  have mask (n : Nat) : (1 : Word 64) <<< rseSlotNum (wordAt n) = BitVec.twoPow 64 (n % 64) := by
    rw [BitVec.shiftLeft_eq', rseSlotNum_toNat]
    rfl
  have slot : n % 64 < 64 := Nat.mod_lt _ (by decide)
  have slot' : m % 64 < 64 := Nat.mod_lt _ (by decide)
  rw [copyNat]
  simp only [mask, BitVec.and_twoPow]
  cases bit : srcRnat.getLsbD (m % 64) with
  | true =>
      have power : BitVec.twoPow 64 (m % 64) ≠ 0 := by
        intro zero
        have zero := congrArg (BitVec.getLsbD · (m % 64)) zero
        simp [slot'] at zero
      rw [if_pos rfl, if_pos power, BitVec.getLsbD_or, BitVec.getLsbD_twoPow]
      by_cases here : i = n % 64
      · simp [here, slot]
      · simp [here, Ne.symm here]
  | false =>
      rw [if_neg Bool.false_ne_true, if_neg (fun differs : 0#64 ≠ 0 => differs rfl), BitVec.getLsbD_and,
        BitVec.getLsbD_not, BitVec.getLsbD_twoPow]
      by_cases here : i = n % 64
      · simp [here, slot]
      · by_cases inside : i < 64
        · simp [here, Ne.symm here, inside]
        · simp [here, BitVec.getLsbD_of_ge dstRnat i (by omega)]

/-- The words that are there stand for some values. -/
def StoredIn (w : Nat) (s : FlushState) (values : List (Word 64 × Bool)) : Prop :=
  Stored w s.words s.dstRnat values

theorem flushRnat_stored (stored : StoredIn w s values) :
    StoredIn w (flushRnat (wordAt w) s) values ∧
      ¬Collects (w + (flushRnat (wordAt w) s).words.length) := by
  rw [flushRnat, ← wordAt_add]
  simp only [rseIsRnatSlot_wordAt]
  by_cases here : Collects (w + s.words.length)
  · rw [if_pos here]
    refine ⟨stored.collect here, ?_⟩
    rw [List.length_append, List.length_singleton, ← Nat.add_assoc]
    exact Position.ordinary_of_collects here
  · rw [if_neg here]
    exact ⟨stored, here⟩

theorem flushRnat_atSlot (atSlot : AtSlot get c s p) : AtSlot get c (flushRnat (wordAt w) s) p := by
  rw [flushRnat]
  split
  · exact ⟨atSlot.linked, atSlot.fits, atSlot.bsp, atSlot.within, atSlot.ordinary, atSlot.rnat⟩
  · exact atSlot

/-- The slots of a group have their NaT bits in the same word. -/
theorem rnatLoc_succ (ordinary : ¬Collects (p.rbs.firstWord + p.i)) :
    ({ p with i := p.i + 1 } : Position).slot.rnatLoc = p.slot.rnatLoc := by
  have group : rseRnatAddr ({ p with i := p.i + 1 } : Position).slot.addr =
      rseRnatAddr p.slot.addr := rseRnatAddr_succ ordinary
  simp only [StackedReg.rnatLoc, rbsGetRnatLoc, group]
  rfl

/-- A slot is copied with its NaT bit. -/
theorem copySlot_gives (atSlot : AtSlot get c s p) (stored : StoredIn w s values)
    (ordinary : ¬Collects (w + s.words.length)) :
    Gives get (copySlot get c (wordAt w) s) fun t =>
      At get c t { p with i := p.i + 1 } ∧
        ∃ v, Reads get p.slot v ∧ StoredIn w t (values ++ [v]) := by
  rw [copySlot, atSlot.linked.area, atSlot.bsp, ← wordAt_add]
  refine (Gives.read _).bind fun value isRead => Gives.pure ⟨?_, ?_⟩
  · refine ⟨atSlot.linked, atSlot.fits, ?_, ?_, fun _ _ => ?_⟩
    · exact (wordAt_succ _).symm
    · rcases Nat.lt_or_eq_of_le atSlot.within with inside | atEnd
      · exact .inl inside
      · exact .inr ⟨congrArg (· + 1) atEnd, atEnd ▸ atSlot.ordinary⟩
    · rw [rnatLoc_succ atSlot.ordinary]
      exact atSlot.rnat
  · have others : ∀ i, i ≠ (w + s.words.length) % 64 →
        (copyNat s.srcRnat s.dstRnat (wordAt (p.rbs.firstWord + p.i))
          (wordAt (w + s.words.length))).getLsbD i = s.dstRnat.getLsbD i := fun i other => by
      rw [copyNat_getLsbD, if_neg other]
    have pushed := stored.push ordinary others value
    refine ⟨(value, _), ⟨isRead, s.srcRnat, atSlot.rnat, ?_⟩, pushed⟩
    rw [copyNat_getLsbD, if_pos rfl, Position.slot, rseSlotNum_toNat]

/-- The loop copies the slots. -/
theorem flushLoop_follows (isAt : At get c s p) (stored : StoredIn w s values) :
    Follows get (flushLoop get c (wordAt w) q s) (p.copied q) fun slots t =>
      ∃ more, List.Forall₂ (Reads get) slots more ∧ StoredIn w t (values ++ more) := by
  induction q generalizing s p values with
  | zero => exact Follows.pure ⟨[], .nil, by rwa [List.append_nil]⟩
  | succ q ih =>
      rw [Position.copied_succ, flushLoop, ← bind_assoc]
      refine (findSlot_follows isAt).bind fun next t ⟨atSlot, sameWords, sameRnat⟩ => ?_
      have kept : StoredIn w t values := by rwa [StoredIn, sameWords, sameRnat]
      obtain ⟨flushed, ordinary⟩ := flushRnat_stored kept
      refine (copySlot_gives (flushRnat_atSlot atSlot) flushed ordinary).bindFollows
        fun u ⟨further, v, isValue, pushed⟩ => ?_
      refine (ih further pushed).map fun later t ⟨more, each, result⟩ => ?_
      exact ⟨v :: more, .cons isValue each, by rwa [List.append_assoc] at result⟩

end Loop

/-! ## What has been copied when a size is returned -/

section Right

variable {get : Ia64Loc → Result (Word 64)} {ucRnat : Word 64} {c : RbsCursor} {nregs : Word 64}
  {w q : Nat} {flushed : Flushed} {slots : List StackedReg} {slot reg : StackedReg}
  {v : Word 64 × Bool}

theorem Position.copied_length {p : Position} (isCopied : p.copied q = some slots) :
    slots.length = q := by
  induction q generalizing p slots with
  | zero =>
      rw [← Option.some.inj isCopied]
      rfl
  | succ q ih =>
      rw [copied_succ] at isCopied
      obtain ⟨next, _, isMap⟩ := Option.bind_eq_some_iff.mp isCopied
      obtain ⟨later, isLater, rfl⟩ := Option.map_eq_some_iff.mp isMap
      rw [List.length_cons, ih isLater]

/-- A place in memory tells the number of the slot. -/
theorem rseSlotNum_loc (reg : StackedReg) : rseSlotNum reg.loc.w0 = rseSlotNum reg.addr := by
  have masked : rseSlotNum ((reg.addr &&& ~~~3) ||| 0) = rseSlotNum reg.addr := by
    have aligned : ((~~~3 : Word 64) >>> 3) &&& 0x3f = 0x3f := rfl
    have whole : (reg.addr &&& ~~~3) ||| 0 = reg.addr &&& ~~~3 := BitVec.or_zero
    rw [rseSlotNum, rseSlotNum, whole, BitVec.ushiftRight_and_distrib, BitVec.and_assoc, aligned]
  rw [StackedReg.loc, rbsLoc]
  split
  · exact masked
  · exact masked

theorem Reads.same (reads : Reads get slot v) (same : SameReg reg slot) : Reads get reg v := by
  obtain ⟨isValue, rnat, isRnat, bit⟩ := reads
  refine ⟨by rwa [same.1], rnat, by rwa [same.2], ?_⟩
  rwa [← rseSlotNum_loc, same.1, rseSlotNum_loc]

/-- Where the flush begins to copy. -/
def RbsCursor.atEnd (c : RbsCursor) : Position := ⟨c.currArea, c.currArea.words, c.earlier⟩

theorem RbsCursor.registers_atEnd : c.atEnd.registers = registersOf c.earlier :=
  Position.registers_end rfl

theorem RbsCursor.areas_cons : c.areas = c.currArea :: c.earlier := by
  obtain ⟨younger, areas⟩ := c.areas_eq
  rw [earlier, areas]
  rfl

theorem flushEarlier_follows (fits : c.Fits) (notReg : ¬IsRegLoc c.currArea.rnatLoc)
    (small : q < 2 ^ 64) (get : Ia64Loc → Result (Word 64)) (w : Nat) (newBsp : Word 64) :
    Follows get (flushEarlier get c (BitVec.ofNat 64 q) (wordAt w) newBsp) (c.atEnd.copied q)
      fun slots flushed => ∃ values, List.Forall₂ (Reads get) slots values ∧
        Stored w flushed.words (flushed.dirtyRnat.getD 0) values := by
  have isAt : At get c (flushStart c) c.atEnd := by
    refine ⟨RbsCursor.areas_cons, ?_, fits.current.endAddr_eq, .inl (Nat.le_refl _),
      fun inside => absurd inside (Nat.lt_irrefl _)⟩
    intro rbs mem
    exact fits.areas rbs (by rwa [RbsCursor.areas_cons])
  have loop := flushLoop_follows (w := w) (q := q) isAt Stored.nil
  rw [flushEarlier]
  simp only
  rw [if_neg notReg, BitVec.toNat_ofNat, Nat.mod_eq_of_lt small]
  exact loop.finish fun slots t ⟨values, each, stored⟩ =>
    ⟨values, each, (flushRnat_stored stored).1⟩

/-- There are no registers to copy, or `flushEarlier` copies so many. -/
theorem rbsCoverAndFlush_cases (fits : c.Fits) (few : nregs.toNat < 128) (ucRnat : Word 64)
    (w : Nat) :
    (c.notOnArea nregs = 0 ∧ ∀ get, ∃ flushed,
      rbsCoverAndFlush get ucRnat c nregs (wordAt w) = .ok flushed ∧ flushed.words = [] ∧
        flushed.dirtyRnat = none) ∨
    (c.notOnArea nregs < 2 ^ 64 ∧ ∃ newBsp, ∀ get,
      rbsCoverAndFlush get ucRnat c nregs (wordAt w) =
        flushEarlier get c (BitVec.ofNat 64 (c.notOnArea nregs)) (wordAt w) newBsp) := by
  have small := fits.bspOffset_lt
  have here := fits.current
  have nregsEq : nregs = BitVec.ofNat 64 nregs.toNat := by
    rw [BitVec.ofNat_toNat, BitVec.setWidth_eq]
  have contains : RbsContains c.currArea c.bsp ↔ c.bspOffset < c.currArea.words := by
    rw [fits.bsp_eq]
    exact here.contains_iff (by omega)
  by_cases inside : c.bspOffset < c.currArea.words
  · have splits := numRegs_split (Nat.le_of_lt inside)
    have onArea := here.numRegs_eq (Nat.le_of_lt inside)
    rw [← fits.bsp_eq] at onArea
    by_cases all : nregs ≤ rseNumRegs c.bsp c.currArea.endAddr
    · have none : c.notOnArea nregs = 0 := by
        rw [BitVec.le_def, onArea] at all
        rw [RbsCursor.notOnArea, RbsCursor.regsBefore]
        omega
      refine .inl ⟨none, fun get => ?_⟩
      rw [rbsCoverAndFlush]
      simp only
      rw [if_pos (contains.mpr inside), if_pos all]
      exact ⟨_, rfl, rfl, rfl⟩
    · have more := all
      rw [BitVec.le_def, onArea] at more
      have left : nregs - rseNumRegs c.bsp c.currArea.endAddr =
          BitVec.ofNat 64 (c.notOnArea nregs) := by
        apply BitVec.eq_of_toNat_eq
        rw [BitVec.toNat_sub_of_le (by rw [BitVec.le_def, onArea]; omega), onArea,
          BitVec.toNat_ofNat, RbsCursor.notOnArea, RbsCursor.regsBefore]
        omega
      have passed : rseSkipRegs (rseSkipRegs c.bsp nregs)
          (-(nregs - rseNumRegs c.bsp c.currArea.endAddr)) = rseSkipRegs c.currArea.endAddr 0 := by
        have words : c.currArea.firstWord + c.bspOffset + (c.currArea.words - c.bspOffset) =
            c.currArea.firstWord + c.currArea.words := by omega
        have whole : nregs.toNat = count (c.currArea.firstWord + c.bspOffset)
            (c.currArea.words - c.bspOffset) + c.notOnArea nregs := by
          rw [RbsCursor.notOnArea, RbsCursor.regsBefore]
          omega
        have forwards := rseSkipRegs_wordAt (m := nregs.toNat)
          (c.currArea.firstWord + c.bspOffset) (by omega)
        rw [← nregsEq, ← fits.bsp_eq, whole, skip_add, ← Nat.add_assoc, words] at forwards
        have start := rseSkipRegs_wordAt (m := 0) (c.currArea.firstWord + c.currArea.words) (by decide)
        rw [left, forwards, rseSkipRegs_back _ (by omega), here.endAddr_eq]
        exact start.symm
      refine .inr ⟨by rw [RbsCursor.notOnArea, RbsCursor.regsBefore]; omega, rseSkipRegs c.bsp nregs,
        fun get => ?_⟩
      rw [rbsCoverAndFlush]
      simp only
      rw [if_pos (contains.mpr inside), if_neg all, if_pos passed, left]
  · have passed : rseNumRegs c.currArea.endAddr c.bsp =
        BitVec.ofNat 64 (count (c.currArea.firstWord + c.currArea.words)
          (c.bspOffset - c.currArea.words)) := by
      have split : c.currArea.firstWord + c.bspOffset =
          c.currArea.firstWord + c.currArea.words + (c.bspOffset - c.currArea.words) := by omega
      rw [fits.bsp_eq, here.endAddr_eq, split, rseNumRegs_wordAt _ (by omega)]
    have splits := count_add (b := c.currArea.firstWord) (n := c.currArea.words)
      (m := c.bspOffset - c.currArea.words)
    rw [Nat.add_sub_cancel' (by omega)] at splits
    have few' : c.notOnArea nregs = nregs.toNat + count (c.currArea.firstWord + c.currArea.words)
        (c.bspOffset - c.currArea.words) := by
      rw [RbsCursor.notOnArea, RbsCursor.regsBefore, RbsArea.numRegs]
      omega
    have bound : count (c.currArea.firstWord + c.currArea.words) (c.bspOffset - c.currArea.words) ≤
      c.bspOffset - c.currArea.words := count_le
    refine .inr ⟨by omega, rseSkipRegs c.bsp nregs, fun get => ?_⟩
    rw [rbsCoverAndFlush]
    simp only
    rw [if_neg (contains.not.mpr inside), passed, few', BitVec.ofNat_add,
      ← nregsEq]

theorem getElem?_forall₂ {α β : Type} {R : α → β → Prop} {l : List α} {l' : List β}
    (each : List.Forall₂ R l l') (k : Nat) :
    l[k]? = none ∧ l'[k]? = none ∨ ∃ a b, l[k]? = some a ∧ l'[k]? = some b ∧ R a b := by
  induction each generalizing k with
  | nil => exact .inl ⟨rfl, rfl⟩
  | cons related _ ih =>
      cases k with
      | zero => exact .inr ⟨_, _, rfl, rfl, related⟩
      | succ k => exact ih k

/-- Memory with zeros everywhere but in one place. -/
def onlyAt (place : Ia64Loc) (v : Word 64) (loc : Ia64Loc) : Result (Word 64) :=
  .ok (if loc = place then v else 0)

theorem total_onlyAt (place : Ia64Loc) (v : Word 64) : Total (onlyAt place v) := fun _ => ⟨_, rfl⟩

theorem rseSlotNum_lt (addr : Word 64) : (rseSlotNum addr).toNat < 64 := by
  rw [rseSlotNum, BitVec.toNat_and]
  exact Nat.lt_succ_of_le Nat.and_le_right

/-- A flush in which every slot that is copied is that of the register in its place. -/
theorem flushedRight_of_right (fits : c.Fits) (few : nregs.toNat < 128)
    (right : ¬IsRegLoc c.currArea.rnatLoc → c.atEnd.Right (c.notOnArea nregs))
    (isFlushed : rbsCoverAndFlush get ucRnat c nregs (wordAt w) = .ok flushed) :
    FlushedRight get c nregs w flushed := by
  rcases rbsCoverAndFlush_cases fits few ucRnat w with
    ⟨none, onArea⟩ | ⟨small, newBsp, same⟩
  · obtain ⟨result, isResult, words, rnat⟩ := onArea get
    obtain rfl := Except.ok.inj (isFlushed.symm.trans isResult)
    exact ⟨[], none.symm, nofun, by rw [words, rnat]; exact Stored.nil⟩
  · rw [same] at isFlushed
    by_cases notReg : IsRegLoc c.currArea.rnatLoc
    · rw [flushEarlier] at isFlushed
      simp only [if_pos notReg] at isFlushed
      exact nomatch isFlushed
    · have follows := flushEarlier_follows fits notReg small get w newBsp
      cases isCopied : c.atEnd.copied (c.notOnArea nregs) with
      | none =>
          rw [isCopied] at follows
          obtain ⟨e, isError⟩ := follows
          exact nomatch isFlushed.symm.trans isError
      | some slots =>
          rw [isCopied] at follows
          obtain ⟨values, each, stored⟩ := Gives.ok follows isFlushed
          refine ⟨values, each.length_eq.symm.trans (Position.copied_length isCopied),
            fun k v isValue => ?_, stored⟩
          obtain ⟨_, no⟩ | ⟨slot, v', isSlot, isV, reads⟩ := getElem?_forall₂ each k
          · exact nomatch isValue.symm.trans no
          obtain rfl := Option.some.inj (isValue.symm.trans isV)
          obtain ⟨reg, isReg, sameReg⟩ := right notReg slots isCopied k slot isSlot
          rw [RbsCursor.registers_atEnd] at isReg
          exact ⟨reg, isReg, reads.same sameReg⟩

/-- A flush of which every outcome is right copies the slots of the registers: the contents of
    memory tell the slots apart. -/
theorem right_of_flushedRight (fits : c.Fits) (few : nregs.toNat < 128)
    (all : ∀ get flushed, rbsCoverAndFlush get ucRnat c nregs (wordAt w) = .ok flushed →
      FlushedRight get c nregs w flushed) (notReg : ¬IsRegLoc c.currArea.rnatLoc) :
    c.atEnd.Right (c.notOnArea nregs) := by
  intro slots isCopied k slot isSlot
  rcases rbsCoverAndFlush_cases fits few ucRnat w with
    ⟨none, _⟩ | ⟨small, newBsp, same⟩
  · rw [none] at isCopied
    rw [← Option.some.inj isCopied] at isSlot
    exact nomatch isSlot
  · -- with words everywhere, the same value is read for the register and from the slot
    have observed {get} (total : Total get) : ∃ reg v, (registersOf c.earlier)[k]? = some reg ∧
        Reads get reg v ∧ Reads get slot v := by
      have follows := flushEarlier_follows fits notReg small get w newBsp
      rw [isCopied, ← same] at follows
      obtain ⟨flushed, isFlushed, values, each, stored⟩ := Gives.of_total follows total
      obtain ⟨others, _, isReg, stored'⟩ := all get flushed isFlushed
      obtain rfl := stored.unique stored'
      obtain ⟨no, _⟩ | ⟨slot', v, isSlot', isValue, reads⟩ := getElem?_forall₂ each k
      · exact nomatch isSlot.symm.trans no
      obtain rfl := Option.some.inj (isSlot.symm.trans isSlot')
      obtain ⟨reg, isReg, reads'⟩ := isReg k v isValue
      exact ⟨reg, v, isReg, reads', reads⟩
    rw [RbsCursor.registers_atEnd]
    obtain ⟨reg, v, isReg, ⟨value, _⟩, ⟨value', _⟩⟩ := observed (total_onlyAt slot.loc 1)
    obtain ⟨reg', v', isReg', ⟨_, rnat, isRnat, bit⟩, ⟨_, rnat', isRnat', bit'⟩⟩ :=
      observed (total_onlyAt slot.rnatLoc (BitVec.allOnes 64))
    obtain rfl := Option.some.inj (isReg.symm.trans isReg')
    refine ⟨reg, isReg, ?_, ?_⟩
    · by_contra differs
      rw [onlyAt, if_neg differs] at value
      rw [onlyAt, if_pos rfl] at value'
      exact absurd (Except.ok.inj (value.trans value'.symm)) (by decide)
    · by_contra differs
      rw [onlyAt, if_neg differs] at isRnat
      rw [onlyAt, if_pos rfl] at isRnat'
      rw [← Except.ok.inj isRnat', BitVec.getLsbD_allOnes, decide_eq_true (rseSlotNum_lt _)] at bit'
      rw [← Except.ok.inj isRnat, ← bit'] at bit
      have zero : (0 : Word 64).getLsbD (rseSlotNum reg.addr).toNat = false := BitVec.getLsbD_zero
      exact nomatch zero.symm.trans bit

theorem flushedRight_iff (ucRnat : Word 64) (w : Nat) (fits : c.Fits) (few : nregs.toNat < 128) :
    (∀ get flushed, rbsCoverAndFlush get ucRnat c nregs (wordAt w) = .ok flushed →
      FlushedRight get c nregs w flushed) ↔
      (¬IsRegLoc c.currArea.rnatLoc → CopiesRight c.earlier (c.notOnArea nregs)) := by
  have condition : c.atEnd.Right (c.notOnArea nregs) ↔
      CopiesRight c.earlier (c.notOnArea nregs) :=
    (Position.right_iff (Nat.le_refl _)).trans (Position.copiesRight_end rfl)
  rw [← condition]
  exact ⟨right_of_flushedRight fits few, fun right get flushed =>
    flushedRight_of_right fits few right⟩

/-- Each stacked register is found, and whenever a size is returned the registers that are not on
    the current area have been copied: just when these do not end with the first one behind an area
    that ends on an RNaT slot. -/
theorem foundAndFlushed_iff (ucRnat : Word 64) (w : Nat) (fits : c.Fits) (few : nregs.toNat < 128) :
    (FindsStacked c ∧ ∀ get flushed, rbsCoverAndFlush get ucRnat c nregs (wordAt w) = .ok flushed →
      FlushedRight get c nregs w flushed) ↔
      (¬IsRegLoc c.currArea.rnatLoc → CopiesRight c.earlier (c.notOnArea nregs)) := by
  rw [flushedRight_iff ucRnat w fits few]
  exact and_iff_right fits.findsStacked

end Right

/-! ## An area that ends on an RNaT slot -/

namespace AcrossSlot

/-- 32 words, of which the last is an RNaT slot; -/
def upper : RbsArea := ⟨0x200, 0x100, ia64LocAddr 0x4000 0⟩

/-- the registers go on here. -/
def lower : RbsArea := ⟨0x1100, 0x100, ia64LocAddr 0x4008 0⟩

/-- The current area is empty. -/
def cursor : RbsCursor :=
  { bsp := 0x2000, rbsCurr := 2, rbsLeftEdge := 0,
    rbsArea := fun i =>
      if i = 0 then lower else if i = 1 then upper else ⟨0x2000, 0, ia64LocAddr 0x4010 0⟩ }

theorem areas : cursor.areas = [⟨0x2000, 0, ia64LocAddr 0x4010 0⟩, upper, lower] := rfl

theorem fits : cursor.Fits where
  areas := by
    rw [areas]
    intro rbs mem
    simp only [List.mem_cons, List.not_mem_nil, or_false] at mem
    rcases mem with rfl | rfl | rfl
    · exact ⟨by decide, by decide, by decide⟩
    · exact ⟨by decide, by decide, by decide⟩
    · exact ⟨by decide, by decide, by decide⟩
  bsp := by decide
  behind := by decide

theorem copiesRight_iff (q : Nat) :
    CopiesRight cursor.earlier q ↔ (31 < q → q = 32 → GoesOnBehind upper [lower]) := by
  have inside : 0 < upper.words := by decide
  have onRnat : upper.EndsOnRnat := by decide
  have registers : count (upper.firstWord + 0) (upper.words - 0) = 31 := by decide
  rw [RbsCursor.earlier, areas, List.tail, CopiesRight, CopiesFrom, if_pos inside]
  simp only [registers, if_pos onRnat]

/-- The 31 registers of the upper area are copied right. -/
theorem upper_right : FindsStacked cursor ∧ ∀ get flushed,
    rbsCoverAndFlush get 0 cursor 31 (wordAt 0x1000) = .ok flushed →
      FlushedRight get cursor 31 0x1000 flushed := by
  refine (foundAndFlushed_iff 0 0x1000 fits (by decide)).mpr fun _ => ?_
  have few : cursor.notOnArea 31 = 31 := by decide
  rw [few, copiesRight_iff]
  exact fun more => absurd more (by decide)

/-- For the register behind them the word above the upper area is copied. -/
theorem lower_missed : ¬(FindsStacked cursor ∧ ∀ get flushed,
    rbsCoverAndFlush get 0 cursor 32 (wordAt 0x1000) = .ok flushed →
      FlushedRight get cursor 32 0x1000 flushed) := by
  rintro ⟨_, all⟩
  have copies := (flushedRight_iff 0 0x1000 fits (by decide)).mp all (by decide)
  have few : cursor.notOnArea 32 = 32 := by decide
  rw [few, copiesRight_iff] at copies
  obtain ⟨reg, isReg, sameLoc, _⟩ := copies (by decide) rfl
  have first : (registersOf [lower])[0]? = some ⟨lower, 0x1000⟩ := by
    rw [getElem?_registersOf_cons, if_pos (by decide)]
    rfl
  obtain rfl := Option.some.inj (isReg.symm.trans first)
  exact absurd sameLoc (by decide)

end AcrossSlot

end Libunwind.Ia64
