import Libunwind.Dwarf.Expr

/-! # The array behind the evaluation stack

`dwarf_eval_expr` keeps its stack in an array of 64 words that is not initialised, with `tos`
as the index of the first free one. The tests of its macros are comparisons of unsigned
numbers that wrap.
-/

namespace Libunwind.Dwarf

variable {w : Nat}

/-- The variables `stack` and `tos`; a slot has no value before it is written. -/
structure ExprSlots (w : Nat) where
  slots : List (Option (Word w))
  tos : BitVec 32
  deriving DecidableEq

namespace ExprSlots

def empty : ExprSlots w := ⟨List.replicate maxExprStackSize none, 0⟩

/-- Reading a slot that is not there, or was not written, is undefined. -/
def read (a : ExprSlots w) (i : Nat) : Result (Word w) :=
  match a.slots[i]? with
  | some (some x) => .ok x
  | _ => .error .undefined

/-- `pop ()`. -/
def pop (a : ExprSlots w) : Result (Word w × ExprSlots w) :=
  if maxExprStackSize ≤ (a.tos - 1).toNat then .error (.err .inval)
  else do
    let x ← a.read (a.tos - 1).toNat
    .ok (x, { a with tos := a.tos - 1 })

/-- `push (x)`. -/
def push (a : ExprSlots w) (x : Word w) : Result (ExprSlots w) :=
  if maxExprStackSize ≤ a.tos.toNat then .error (.err .inval)
  else if a.tos.toNat < a.slots.length then
    .ok { slots := a.slots.set a.tos.toNat (some x), tos := a.tos + 1 }
  else .error .undefined

/-- `pick (n)`, which is computed in the type of `n` where that is the wider one. -/
def pick (a : ExprSlots w) (v : Nat) (index : BitVec v) : Result (Word w) :=
  let i := (a.tos - 1).setWidth v - index
  if maxExprStackSize ≤ i.toNat then .error (.err .inval) else a.read i.toNat

/-- The array holds a stack, from its bottom on. -/
structure Represents (a : ExprSlots w) (stack : List (Word w)) : Prop where
  size : a.slots.length = maxExprStackSize
  fits : stack.length ≤ maxExprStackSize
  tos : a.tos.toNat = stack.length
  written : a.slots.take stack.length = stack.reverse.map some

theorem represents_empty : (empty : ExprSlots w).Represents [] where
  size := List.length_replicate
  fits := Nat.zero_le _
  tos := rfl
  written := rfl

section Represents

variable {a : ExprSlots w} {stack : List (Word w)} (holds : a.Represents stack)

include holds

theorem Represents.read {k : Nat} (inside : k < stack.length) :
    a.read (stack.length - 1 - k) = .ok stack[k] := by
  have slot : a.slots[stack.length - 1 - k]? = some (some stack[k]) := by
    have early : stack.length - 1 - k < stack.length := by omega
    rw [← List.getElem?_take_of_lt early, holds.written, List.getElem?_map,
      List.getElem?_reverse early]
    have back : stack.length - 1 - (stack.length - 1 - k) = k := by omega
    simp [back, inside]
  rw [ExprSlots.read, slot]

theorem Represents.written_of_lt {i : Nat} (below : i < stack.length) :
    ∃ x, a.slots[i]? = some (some x) := by
  refine ⟨stack.reverse.get ⟨i, by simpa using below⟩, ?_⟩
  rw [← List.getElem?_take_of_lt below, holds.written]
  simp [below]

theorem Represents.pop : (stack = [] ∧ a.pop = .error (.err .inval)) ∨
    ∃ x rest a', stack = x :: rest ∧ a.pop = .ok (x, a') ∧ a'.Represents rest := by
  have tos := holds.tos
  have fits := holds.fits
  have max : maxExprStackSize = 64 := rfl
  rw [max] at fits
  cases stack with
  | nil =>
      left
      have wraps : (a.tos - 1).toNat = 2 ^ 32 - 1 := by
        have zero : a.tos = 0 := BitVec.eq_of_toNat_eq tos
        rw [zero]
        rfl
      rw [ExprSlots.pop, wraps, if_pos (by decide)]
      exact ⟨rfl, rfl⟩
  | cons x rest =>
      right
      have below : (a.tos - 1).toNat = rest.length := by
        rw [List.length_cons] at tos
        rw [BitVec.toNat_sub_of_le (by rw [BitVec.le_def, tos]; simp), tos]
        simp
      have slot : a.read rest.length = .ok x := by
        have first := holds.read (k := 0) (by simp)
        simpa using first
      refine ⟨x, rest, { a with tos := a.tos - 1 }, rfl, ?_, ?_, ?_, ?_, ?_⟩
      · rw [List.length_cons] at fits
        rw [ExprSlots.pop, below, if_neg (by rw [max]; omega), slot]
        rfl
      · exact holds.size
      · rw [List.length_cons] at fits
        exact Nat.le_of_succ_le fits
      · exact below
      · have all := congrArg (List.take rest.length) holds.written
        rw [List.take_take] at all
        simpa using all

theorem Represents.push (x : Word w) :
    if stack.length < maxExprStackSize then ∃ a', a.push x = .ok a' ∧ a'.Represents (x :: stack)
    else a.push x = .error (.err .inval) := by
  have tos := holds.tos
  have size := holds.size
  split
  · rename_i room
    have inside : a.tos.toNat < a.slots.length := by omega
    have up : (a.tos + 1).toNat = stack.length + 1 := by
      have one : (1 : BitVec 32).toNat = 1 := rfl
      have max : maxExprStackSize = 64 := rfl
      rw [BitVec.toNat_add, tos, one]
      exact Nat.mod_eq_of_lt (by omega)
    refine ⟨{ slots := a.slots.set a.tos.toNat (some x), tos := a.tos + 1 }, ?_, ?_, ?_, ?_, ?_⟩
    · rw [ExprSlots.push, if_neg (by omega), if_pos inside]
    · simpa using size
    · simpa using room
    · simpa using up
    · simp only [List.length_cons, List.reverse_cons, List.map_append, List.map_cons, List.map_nil]
      rw [← holds.written, tos, List.take_add_one, List.take_set_of_le (Nat.le_refl _)]
      rw [tos] at inside
      simp [inside]
  · rename_i full
    rw [ExprSlots.push, if_pos (by omega)]

theorem Represents.pick {v : Nat} {index : BitVec v} (wide : 32 ≤ v) (small : index.toNat < 256) :
    a.pick v index = match stack[index.toNat]? with
      | some x => .ok x
      | none => .error (.err .inval) := by
  have fits := holds.fits
  have power : 2 ^ 32 ≤ 2 ^ v := Nat.pow_le_pow_right (by omega) wide
  have bound := (a.tos - 1).isLt
  have top : (a.tos - 1).toNat = if stack = [] then 2 ^ 32 - 1 else stack.length - 1 := by
    cases stack with
    | nil =>
        have zero : a.tos = 0 := BitVec.eq_of_toNat_eq holds.tos
        rw [zero]
        rfl
    | cons x rest =>
        have tos := holds.tos
        rw [BitVec.toNat_sub_of_le (by rw [BitVec.le_def, tos]; simp), tos]
        simp
  have difference : ((a.tos - 1).setWidth v - index).toNat =
      if index.toNat ≤ (a.tos - 1).toNat then (a.tos - 1).toNat - index.toNat
      else 2 ^ v + (a.tos - 1).toNat - index.toNat := by
    have wide' : ((a.tos - 1).setWidth v).toNat = (a.tos - 1).toNat := by
      rw [BitVec.toNat_setWidth]
      exact Nat.mod_eq_of_lt (by omega)
    rw [BitVec.toNat_sub, wide']
    split
    · rename_i below
      rw [Nat.mod_eq_sub_mod (by omega), Nat.mod_eq_of_lt (by omega)]
      omega
    · rw [Nat.mod_eq_of_lt (by omega)]
      omega
  have max : maxExprStackSize = 64 := rfl
  rw [max] at fits
  by_cases inside : index.toNat < stack.length
  · have some' : stack ≠ [] := List.ne_nil_of_length_pos (by omega)
    rw [if_neg some'] at top
    have i : ((a.tos - 1).setWidth v - index).toNat = stack.length - 1 - index.toNat := by
      rw [difference, top, if_pos (by omega)]
    have near : ¬ maxExprStackSize ≤ stack.length - 1 - index.toNat := by
      rw [max]
      omega
    simp only [ExprSlots.pick, i, if_neg near, holds.read inside, List.getElem?_eq_getElem inside]
  · have far : maxExprStackSize ≤ ((a.tos - 1).setWidth v - index).toNat := by
      rw [difference, max]
      by_cases empty : stack = []
      · rw [if_pos empty] at top
        rw [if_pos (by omega)]
        omega
      · rw [if_neg empty] at top
        have some' := List.length_pos_iff.mpr empty
        rw [if_neg (by omega)]
        omega
    simp only [ExprSlots.pick, if_pos far, List.getElem?_eq_none (Nat.le_of_not_lt inside)]

end Represents

end ExprSlots

/-! ## What an operation does with the stack -/

/-- The ways in which the operations use the stack. The functions take the topmost word
    first. -/
inductive StackUse (w : Nat) where
  | push (x : Result (Word w))
  | unary (f : Word w → Result (Word w))
  | binary (f : Word w → Word w → Result (Word w))
  | pick {v : Nat} (index : BitVec v)
  | drop
  | swap
  | rot
  /-- `*addr` is moved. -/
  | skip (offset : Word w)
  | bra (offset : Word w)
  | nop
  /-- The expression ends with a register. -/
  | register (regnum : Result Int)
  | unexpected

/-- The switch of `dwarf_eval_expr` once more, by what is done with the stack. -/
def ExprOp.stackUse (ctx : ExprContext w) (operand1 operand2 : Word w) : ExprOp → StackUse w
  | .lit k => .push (pure (BitVec.ofNat w k))
  | .breg r => .push (do
      let regnum ← ctx.toUnwRegnum r
      let tmp1 ← ctx.getReg regnum
      pure (tmp1 + operand1))
  | .bregx => .push (do
      let regnum ← ctx.toUnwRegnum (operand1.setWidth 32).toInt
      let tmp1 ← ctx.getReg regnum
      pure (tmp1 + operand2))
  | .reg r => .register (ctx.toUnwRegnum r)
  | .regx => .register (ctx.toUnwRegnum operand1.toNat)
  | .const => .push (pure operand1)
  | .constSigned bits =>
      .push (pure (if operand1.getLsbD (bits - 1) then operand1 ||| ((-1 : Word w) <<< bits)
        else operand1))
  | .deref => .unary fun tmp1 => do
      let (tmp2, _) ← readw ctx.as tmp1
      pure tmp2
  | .derefSize => .unary fun tmp1 => Dwarf.derefSize ctx.as tmp1 operand1.toNat
  | .dup => .pick 0#32
  | .drop => .drop
  | .pick => .pick operand1
  | .over => .pick 1#32
  | .swap => .swap
  | .rot => .rot
  | .abs => .unary fun tmp1 => pure (if tmp1.msb then ~~~tmp1 + 1 else tmp1)
  | .neg => .unary fun tmp1 => pure (~~~tmp1 + 1)
  | .not => .unary fun tmp1 => pure (~~~tmp1)
  | .plusUconst => .unary fun tmp1 => pure (tmp1 + operand1)
  | .and => .binary fun tmp1 tmp2 => pure (tmp1 &&& tmp2)
  | .or => .binary fun tmp1 tmp2 => pure (tmp1 ||| tmp2)
  | .xor => .binary fun tmp1 tmp2 => pure (tmp1 ^^^ tmp2)
  | .plus => .binary fun tmp1 tmp2 => pure (tmp1 + tmp2)
  | .minus => .binary fun tmp1 tmp2 => pure (tmp2 - tmp1)
  | .mul => .binary fun tmp1 tmp2 => pure (tmp2 * tmp1)
  | .div => .binary signedDiv
  | .mod => .binary fun tmp1 tmp2 => pure (if tmp1 = 0 then tmp1 else tmp2 % tmp1)
  | .shl => .binary fun tmp1 tmp2 => shiftBy tmp1 (tmp2 <<< tmp1)
  | .shr => .binary fun tmp1 tmp2 => shiftBy tmp1 (tmp2 >>> tmp1)
  | .shra => .binary fun tmp1 tmp2 => shiftBy tmp1 (tmp2.sshiftRight tmp1.toNat)
  | .le => .binary fun tmp1 tmp2 => pure (ofBool w (tmp2.sle tmp1))
  | .ge => .binary fun tmp1 tmp2 => pure (ofBool w (tmp1.sle tmp2))
  | .lt => .binary fun tmp1 tmp2 => pure (ofBool w (tmp2.slt tmp1))
  | .gt => .binary fun tmp1 tmp2 => pure (ofBool w (tmp1.slt tmp2))
  | .eq => .binary fun tmp1 tmp2 => pure (ofBool w (tmp2 == tmp1))
  | .ne => .binary fun tmp1 tmp2 => pure (ofBool w (tmp2 != tmp1))
  | .skip => .skip ((operand1.setWidth 16).signExtend w)
  | .bra => .bra ((operand1.setWidth 16).signExtend w)
  | .nop => .nop
  | .unexpected => .unexpected

/-- What is done, on a stack without an array. -/
def StackUse.onList (s : ExprState w) : StackUse w → Result (ExprState w)
  | .push x => do
      let x ← x
      Dwarf.push s x
  | .unary f => do
      let (tmp1, s) ← Dwarf.pop s
      let x ← f tmp1
      Dwarf.push s x
  | .binary f => Dwarf.binary s f
  | .pick index => do
      let x ← Dwarf.pick s index.toNat
      Dwarf.push s x
  | .drop => do
      let (_, s) ← Dwarf.pop s
      pure s
  | .swap => do
      let (tmp1, s) ← Dwarf.pop s
      let (tmp2, s) ← Dwarf.pop s
      let s ← Dwarf.push s tmp1
      Dwarf.push s tmp2
  | .rot => do
      let (tmp1, s) ← Dwarf.pop s
      let (tmp2, s) ← Dwarf.pop s
      let (tmp3, s) ← Dwarf.pop s
      let s ← Dwarf.push s tmp1
      let s ← Dwarf.push s tmp3
      Dwarf.push s tmp2
  | .skip offset => pure { s with addr := s.addr + offset }
  | .bra offset => do
      let (tmp1, s) ← Dwarf.pop s
      pure (if tmp1 = 0 then s else { s with addr := s.addr + offset })
  | .nop => pure s
  | .register regnum => do
      let regnum ← regnum
      pure { s with register := some (BitVec.ofInt w regnum) }
  | .unexpected => .error (.err .inval)

theorem exprExec_eq (ctx : ExprContext w) (op : ExprOp) (operand1 operand2 : Word w)
    (s : ExprState w) :
    exprExec ctx op operand1 operand2 s = (op.stackUse ctx operand1 operand2).onList s := by
  cases op with
  | breg r =>
      simp only [exprExec, ExprOp.stackUse, StackUse.onList]
      cases ctx.toUnwRegnum r with
      | error e => rfl
      | ok regnum =>
          simp only [ok_bind]
          cases ctx.getReg regnum <;> rfl
  | bregx =>
      simp only [exprExec, ExprOp.stackUse, StackUse.onList]
      cases ctx.toUnwRegnum (operand1.setWidth 32).toInt with
      | error e => rfl
      | ok regnum =>
          simp only [ok_bind]
          cases ctx.getReg regnum <;> rfl
  | deref =>
      simp only [exprExec, ExprOp.stackUse, StackUse.onList]
      cases Dwarf.pop s with
      | error e => rfl
      | ok popped =>
          simp only [ok_bind]
          cases readw ctx.as popped.1 <;> rfl
  | _ => rfl

/-! ## The evaluator on the array -/

/-- `ExprState`, with the array for the stack. -/
structure SlotState (w : Nat) where
  addr : Word w
  stack : ExprSlots w
  register : Option (Word w) := none
  deriving DecidableEq

namespace SlotState

def push (s : SlotState w) (x : Word w) : Result (SlotState w) := do
  let stack ← s.stack.push x
  pure { s with stack }

def pop (s : SlotState w) : Result (Word w × SlotState w) := do
  let (x, stack) ← s.stack.pop
  pure (x, { s with stack })

end SlotState

/-- What is done, on the array. -/
def StackUse.onSlots (s : SlotState w) : StackUse w → Result (SlotState w)
  | .push x => do
      let x ← x
      s.push x
  | .unary f => do
      let (tmp1, s) ← s.pop
      let x ← f tmp1
      s.push x
  | .binary f => do
      let (tmp1, s) ← s.pop
      let (tmp2, s) ← s.pop
      let x ← f tmp1 tmp2
      s.push x
  | .pick (v := v) index => do
      let x ← s.stack.pick v index
      s.push x
  | .drop => do
      let (_, s) ← s.pop
      pure s
  | .swap => do
      let (tmp1, s) ← s.pop
      let (tmp2, s) ← s.pop
      let s ← s.push tmp1
      s.push tmp2
  | .rot => do
      let (tmp1, s) ← s.pop
      let (tmp2, s) ← s.pop
      let (tmp3, s) ← s.pop
      let s ← s.push tmp1
      let s ← s.push tmp3
      s.push tmp2
  | .skip offset => pure { s with addr := s.addr + offset }
  | .bra offset => do
      let (tmp1, s) ← s.pop
      pure (if tmp1 = 0 then s else { s with addr := s.addr + offset })
  | .nop => pure s
  | .register regnum => do
      let regnum ← regnum
      pure { s with register := some (BitVec.ofInt w regnum) }
  | .unexpected => .error (.err .inval)

/-- `exprStep`, on the array. -/
def slotStep (ctx : ExprContext w) (s : SlotState w) : Result (SlotState w) := do
  let (opcode, addr) ← readu8 ctx.as s.addr
  let (operand1, operand2, addr) ← readOperands ctx.as addr (operands opcode)
  ((ExprOp.ofByte opcode).stackUse ctx operand1 operand2).onSlots { s with addr }

def slotGuard (endAddr : Word w) (s : SlotState w) : Bool :=
  s.register.isNone && s.addr < endAddr

/-- The array holds the stack. -/
structure Matches (a : SlotState w) (s : ExprState w) : Prop where
  addr : a.addr = s.addr
  register : a.register = s.register
  stack : a.stack.Represents s.stack

section Matches

variable {a : SlotState w} {s : ExprState w} (related : Matches a s)

include related

theorem Matches.push (x : Word w) : Simulates Matches (a.push x) (Dwarf.push s x) := by
  have stack := related.stack.push x
  rw [SlotState.push, Dwarf.push]
  by_cases room : s.stack.length < maxExprStackSize
  · rw [if_pos room] at stack ⊢
    obtain ⟨stack', pushed, holds⟩ := stack
    rw [pushed]
    exact .ok ⟨related.addr, related.register, holds⟩
  · rw [if_neg room] at stack ⊢
    rw [stack]
    exact .error _

/-- Both pop the same word. -/
def Popped (left : Word w × SlotState w) (right : Word w × ExprState w) : Prop :=
  left.1 = right.1 ∧ Matches left.2 right.2

theorem Matches.pop : Simulates Popped a.pop (Dwarf.pop s) := by
  rw [SlotState.pop, Dwarf.pop]
  cases related.stack.pop with
  | inl empty =>
      rw [empty.2, empty.1]
      exact .error _
  | inr some' =>
      obtain ⟨x, rest, stack', stack, popped, holds⟩ := some'
      rw [popped, stack]
      exact .ok ⟨rfl, related.addr, related.register, holds⟩

theorem Matches.pick {v : Nat} {index : BitVec v} (wide : 32 ≤ v) (small : index.toNat < 256) :
    Simulates Eq (a.stack.pick v index) (Dwarf.pick s index.toNat) := by
  rw [related.stack.pick wide small, Dwarf.pick]
  cases s.stack[index.toNat]? with
  | none => exact .error _
  | some x => exact .ok rfl

theorem Matches.onSlots {use : StackUse w}
    (picks : ∀ (v : Nat) (index : BitVec v), use = .pick index → 32 ≤ v ∧ index.toNat < 256) :
    Simulates Matches (use.onSlots a) (use.onList s) := by
  cases use with
  | push x =>
      apply (Simulates.same x).bind
      rintro x _ rfl
      exact related.push x
  | unary f =>
      apply related.pop.bind
      rintro ⟨tmp1, a⟩ ⟨_, s⟩ ⟨rfl, related⟩
      apply (Simulates.same (f tmp1)).bind
      rintro x _ rfl
      exact related.push x
  | binary f =>
      apply related.pop.bind
      rintro ⟨tmp1, a⟩ ⟨_, s⟩ ⟨rfl, related⟩
      apply related.pop.bind
      rintro ⟨tmp2, a⟩ ⟨_, s⟩ ⟨rfl, related⟩
      apply (Simulates.same (f tmp1 tmp2)).bind
      rintro x _ rfl
      exact related.push x
  | pick index =>
      obtain ⟨wide, small⟩ := picks _ index rfl
      apply (related.pick wide small).bind
      rintro x _ rfl
      exact related.push x
  | drop =>
      apply related.pop.bind
      rintro ⟨tmp1, a⟩ ⟨_, s⟩ ⟨rfl, related⟩
      exact .ok related
  | swap =>
      apply related.pop.bind
      rintro ⟨tmp1, a⟩ ⟨_, s⟩ ⟨rfl, related⟩
      apply related.pop.bind
      rintro ⟨tmp2, a⟩ ⟨_, s⟩ ⟨rfl, related⟩
      apply (related.push tmp1).bind
      intro a s related
      exact related.push tmp2
  | rot =>
      apply related.pop.bind
      rintro ⟨tmp1, a⟩ ⟨_, s⟩ ⟨rfl, related⟩
      apply related.pop.bind
      rintro ⟨tmp2, a⟩ ⟨_, s⟩ ⟨rfl, related⟩
      apply related.pop.bind
      rintro ⟨tmp3, a⟩ ⟨_, s⟩ ⟨rfl, related⟩
      apply (related.push tmp1).bind
      intro a s related
      apply (related.push tmp3).bind
      intro a s related
      exact related.push tmp2
  | skip offset => exact .ok ⟨congrArg (· + offset) related.addr, related.register, related.stack⟩
  | bra offset =>
      apply related.pop.bind
      rintro ⟨tmp1, a⟩ ⟨_, s⟩ ⟨rfl, related⟩
      apply Simulates.ok
      by_cases zero : tmp1 = 0
      · rw [if_pos zero, if_pos zero]
        exact related
      · rw [if_neg zero, if_neg zero]
        exact ⟨congrArg (· + offset) related.addr, related.register, related.stack⟩
  | nop => exact .ok related
  | register regnum =>
      apply (Simulates.same regnum).bind
      rintro regnum _ rfl
      exact .ok ⟨related.addr, rfl, related.stack⟩
  | unexpected => exact .error _

end Matches

set_option maxRecDepth 4000 in
theorem operands_pick : ∀ opcode : Byte, ExprOp.ofByte opcode = .pick → operands opcode = [.val8] := by
  decide

/-- The index of `DW_OP_pick` is a byte. -/
theorem readOperands_pick {as : AddrSpace w} {addr operand1 operand2 next : Word w} {opcode : Byte}
    (isPick : ExprOp.ofByte opcode = .pick)
    (read : readOperands as addr (operands opcode) = .ok (operand1, operand2, next)) :
    operand1.toNat < 256 := by
  rw [operands_pick opcode isPick] at read
  obtain ⟨⟨val, after⟩, first, last⟩ := bind_eq_ok.mp read
  obtain ⟨⟨byte, after'⟩, -, first⟩ := bind_eq_ok.mp first
  cases first
  cases last
  exact (BitVec.toNat_setWidth ..).trans_lt ((Nat.mod_le _ _).trans_lt byte.isLt)

theorem stackUse_pick {ctx : ExprContext w} {op : ExprOp} {operand1 operand2 : Word w} {v : Nat}
    {index : BitVec v} (use : op.stackUse ctx operand1 operand2 = .pick index) :
    (v = 32 ∧ index.toNat < 256) ∨ (op = .pick ∧ v = w ∧ index.toNat = operand1.toNat) := by
  cases op with
  | dup =>
      cases use
      exact .inl ⟨rfl, by decide⟩
  | «over» =>
      cases use
      exact .inl ⟨rfl, by decide⟩
  | pick =>
      cases use
      exact .inr ⟨rfl, rfl, rfl⟩
  | _ => cases use

/-- On words of 32 bits and more, the array does what the stack does. -/
theorem slotStep_simulates (ctx : ExprContext w) (wide : 32 ≤ w) {a : SlotState w}
    {s : ExprState w} (related : Matches a s) :
    Simulates Matches (slotStep ctx a) (exprStep ctx s) := by
  rw [slotStep, exprStep, related.addr]
  cases byte : readu8 ctx.as s.addr with
  | error e => exact .error e
  | ok read =>
      obtain ⟨opcode, addr⟩ := read
      simp only [ok_bind]
      cases operand : readOperands ctx.as addr (operands opcode) with
      | error e => exact .error e
      | ok read =>
          obtain ⟨operand1, operand2, next⟩ := read
          simp only [ok_bind, exprExec_eq]
          have moved : Matches { a with addr := next } { s with addr := next } :=
            ⟨rfl, related.register, related.stack⟩
          apply moved.onSlots
          intro v index use
          cases stackUse_pick use with
          | inl literal => exact ⟨literal.1.ge, literal.2⟩
          | inr operand' =>
              obtain ⟨isPick, rfl, same⟩ := operand'
              exact ⟨wide, same ▸ readOperands_pick isPick operand⟩

/-! ## Whole evaluations -/

section Runs

variable {ctx : ExprContext w} {endAddr : Word w} {a b : SlotState w} {s t : ExprState w}

theorem Matches.guard (related : Matches a s) : slotGuard endAddr a = exprGuard endAddr s := by
  rw [slotGuard, exprGuard, related.addr, related.register]

theorem Matches.reaches (wide : 32 ≤ w) (related : Matches a s)
    (path : WhileLoop.Reaches (slotGuard endAddr) (slotStep ctx) a b) :
    ∃ t, WhileLoop.Reaches (exprGuard endAddr) (exprStep ctx) s t ∧ Matches b t := by
  induction path generalizing s with
  | refl => exact ⟨s, .refl s, related⟩
  | step enter round _ ih =>
      rw [related.guard] at enter
      cases slotStep_simulates ctx wide related with
      | inl fails =>
          obtain ⟨e, left, -⟩ := fails
          simp [round] at left
      | inr goesOn =>
          obtain ⟨a', s', left, right, related'⟩ := goesOn
          cases round.symm.trans left
          obtain ⟨t, path, last⟩ := ih related'
          exact ⟨t, .step enter right path, last⟩

theorem Matches.reached (wide : 32 ≤ w) (related : Matches a s)
    (path : WhileLoop.Reaches (exprGuard endAddr) (exprStep ctx) s t) :
    ∃ b, WhileLoop.Reaches (slotGuard endAddr) (slotStep ctx) a b ∧ Matches b t := by
  induction path generalizing a with
  | refl => exact ⟨a, .refl a, related⟩
  | step enter round _ ih =>
      rw [← related.guard] at enter
      cases slotStep_simulates ctx wide related with
      | inl fails =>
          obtain ⟨e, -, right⟩ := fails
          simp [round] at right
      | inr goesOn =>
          obtain ⟨a', s', left, right, related'⟩ := goesOn
          cases round.symm.trans right
          obtain ⟨b, path, last⟩ := ih related'
          exact ⟨b, .step enter left path, last⟩

/-- The state after the initial value is pushed. -/
def slotStart (stackVal addr : Word w) : SlotState w where
  addr
  stack := { slots := ExprSlots.empty.slots.set 0 (some stackVal), tos := 1 }

theorem slotStart_matches (stackVal addr : Word w) :
    Matches (slotStart stackVal addr) { addr, stack := [stackVal] } := by
  have empty : Matches { addr, stack := .empty } ({ addr, stack := [] } : ExprState w) :=
    ⟨rfl, rfl, ExprSlots.represents_empty⟩
  cases empty.push stackVal with
  | inl fails =>
      obtain ⟨e, left, -⟩ := fails
      cases left
  | inr pushed =>
      obtain ⟨a, s, left, right, related⟩ := pushed
      cases left
      cases right
      exact related

end Runs

end Libunwind.Dwarf
