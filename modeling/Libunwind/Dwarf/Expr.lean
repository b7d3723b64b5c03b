import Libunwind.Library.WhileLoop
import Libunwind.Dwarf.Reader

/-! # DWARF expressions

`dwarf_eval_expr` runs an expression on a stack of at most 64 words. It stops
early at an operation that names a register.
-/

namespace Libunwind.Dwarf

variable {w : Nat}

/-- `dwarf_expr_op_t`; operations that the evaluator treats alike share a
    constructor. -/
inductive ExprOp where
  | lit (k : Nat)
  | breg (r : Nat)
  | reg (r : Nat)
  | bregx
  | regx
  /-- `DW_OP_addr` and the constants that are pushed as they are read. -/
  | const
  /-- `DW_OP_const1s`, `DW_OP_const2s` and `DW_OP_const4s`, with their width. -/
  | constSigned (bits : Nat)
  | deref
  | derefSize
  | dup
  | drop
  | pick
  | over
  | swap
  | rot
  | abs
  | and
  | div
  | minus
  | mod
  | mul
  | neg
  | not
  | or
  | plus
  | plusUconst
  | shl
  | shr
  | shra
  | xor
  | le
  | ge
  | eq
  | lt
  | gt
  | ne
  | skip
  | bra
  | nop
  | unexpected
  deriving DecidableEq, Repr

def ExprOp.ofByte (opcode : Byte) : ExprOp :=
  let op := opcode.toNat
  if 0x30 ≤ op ∧ op < 0x50 then .lit (op - 0x30)
  else if 0x50 ≤ op ∧ op < 0x70 then .reg (op - 0x50)
  else if 0x70 ≤ op ∧ op < 0x90 then .breg (op - 0x70)
  else
    match op with
    | 0x03 | 0x08 | 0x0a | 0x0c | 0x0e | 0x0f | 0x10 | 0x11 => .const
    | 0x09 => .constSigned 8
    | 0x0b => .constSigned 16
    | 0x0d => .constSigned 32
    | 0x06 => .deref
    | 0x12 => .dup
    | 0x13 => .drop
    | 0x14 => .over
    | 0x15 => .pick
    | 0x16 => .swap
    | 0x17 => .rot
    | 0x19 => .abs
    | 0x1a => .and
    | 0x1b => .div
    | 0x1c => .minus
    | 0x1d => .mod
    | 0x1e => .mul
    | 0x1f => .neg
    | 0x20 => .not
    | 0x21 => .or
    | 0x22 => .plus
    | 0x23 => .plusUconst
    | 0x24 => .shl
    | 0x25 => .shr
    | 0x26 => .shra
    | 0x27 => .xor
    | 0x28 => .bra
    | 0x29 => .eq
    | 0x2a => .ge
    | 0x2b => .gt
    | 0x2c => .le
    | 0x2d => .lt
    | 0x2e => .ne
    | 0x2f => .skip
    | 0x90 => .regx
    | 0x92 => .bregx
    | 0x94 => .derefSize
    | 0x96 => .nop
    | _ => .unexpected

/-- `DW_OP_deref` and `DW_OP_breg6`. -/
def opDeref : Byte := 0x06
def opBreg6 : Byte := 0x76

inductive OperandType where
  | val8
  | val16
  | val32
  | val64
  | uleb128
  | sleb128
  | offset
  | addr
  deriving DecidableEq, Repr

/-- The table `operands`. -/
def operands (opcode : Byte) : List OperandType :=
  let op := opcode.toNat
  if 0x70 ≤ op ∧ op < 0x90 then [.sleb128]
  else
    match op with
    | 0x03 => [.addr]
    | 0x08 | 0x09 | 0x15 | 0x94 | 0x95 => [.val8]
    | 0x0a | 0x0b | 0x2f | 0x28 | 0x98 => [.val16]
    | 0x0c | 0x0d | 0x99 => [.val32]
    | 0x0e | 0x0f => [.val64]
    | 0x10 | 0x23 | 0x90 | 0x93 => [.uleb128]
    | 0x11 | 0x91 => [.sleb128]
    | 0x92 => [.uleb128, .sleb128]
    | 0x9a => [.offset]
    | _ => []

/-- The integer that a machine address is stored as. -/
def addressOperand (w : Nat) : Option OperandType :=
  match w / 8 with
  | 1 => some .val8
  | 2 => some .val16
  | 4 => some .val32
  | 8 => some .val64
  | _ => none

/-- `read_operand`. -/
def readOperand (as : AddrSpace w) (addr : Word w) (type : OperandType) :
    Result (Word w × Word w) :=
  match if type = .addr then addressOperand w else some type with
  | none => .error .undefined
  | some .val8 => do
      let (val, addr) ← readu8 as addr
      pure (val.setWidth w, addr)
  | some .val16 => do
      let (val, addr) ← readu16 as addr
      pure (val.setWidth w, addr)
  | some .val32 => do
      let (val, addr) ← readu32 as addr
      pure (val.setWidth w, addr)
  | some .val64 => do
      let (val, addr) ← readu64 as addr
      pure (val.setWidth w, addr)
  | some .uleb128 => readUleb128 as addr
  | some .sleb128 => readSleb128 as addr
  | some .offset | some .addr => .error (.err .inval)

/-- What an expression can read besides memory: the registers of the current
    frame, by their DWARF numbers. -/
structure ExprContext (w : Nat) where
  as : AddrSpace w
  /-- `dwarf_to_unw_regnum`. -/
  toUnwRegnum : Int → Result Int
  /-- `unw_get_reg`. -/
  getReg : Int → Result (Word w)

structure ExprState (w : Nat) where
  addr : Word w
  /-- The top of the stack comes first. -/
  stack : List (Word w)
  /-- The register that ended the expression. -/
  register : Option (Word w) := none
  deriving DecidableEq, Repr

/-- `MAX_EXPR_STACK_SIZE`. -/
def maxExprStackSize : Nat := 64

def push (s : ExprState w) (x : Word w) : Result (ExprState w) :=
  if s.stack.length < maxExprStackSize then pure { s with stack := x :: s.stack }
  else .error (.err .inval)

def pop (s : ExprState w) : Result (Word w × ExprState w) :=
  match s.stack with
  | [] => .error (.err .inval)
  | x :: stack => pure (x, { s with stack })

def pick (s : ExprState w) (index : Nat) : Result (Word w) :=
  match s.stack[index]? with
  | some x => pure x
  | none => .error (.err .inval)

/-- Replaces the two topmost words; `f` takes the top one first. -/
def binary (s : ExprState w) (f : Word w → Word w → Result (Word w)) : Result (ExprState w) := do
  let (tmp1, s) ← pop s
  let (tmp2, s) ← pop s
  let x ← f tmp1 tmp2
  push s x

/-- A C shift, whose count has to be less than the width. -/
def shiftBy (count : Word w) (result : Word w) : Result (Word w) :=
  if count.toNat < w then pure result else .error .undefined

/-- The load of `DW_OP_deref_size`. -/
def derefSize (as : AddrSpace w) (addr : Word w) (size : Nat) : Result (Word w) :=
  match size with
  | 1 => do
      let (val, _) ← readu8 as addr
      pure (val.setWidth w)
  | 2 => do
      let (val, _) ← readu16 as addr
      pure (val.setWidth w)
  | 3 => do
      let (val, _) ← readu32 as addr
      let val : Word w := val.setWidth w
      pure (if as.bigEndian then val >>> 8 else val &&& 0xffffff)
  | 4 => do
      let (val, _) ← readu32 as addr
      pure (val.setWidth w)
  | 5 | 6 | 7 => do
      let (val, _) ← readu64 as addr
      let val : Word w := val.setWidth w
      if as.bigEndian then
        if 64 - 8 * size < w then pure (val >>> (64 - 8 * size)) else .error .undefined
      else if 8 * size < w then pure (val &&& ((-1 : Word w) <<< (8 * size)))
      else .error .undefined
  | 8 => do
      let (val, _) ← readu64 as addr
      pure (val.setWidth w)
  | _ => .error (.err .inval)

/-- The signed division of `DW_OP_div`, whose only overflow is undefined. -/
def signedDiv (tmp1 tmp2 : Word w) : Result (Word w) :=
  if tmp1 = 0 then pure tmp1
  else if tmp1 = -1 ∧ tmp2 = BitVec.intMin w then .error .undefined
  else pure (tmp2.sdiv tmp1)

def ofBool (w : Nat) (b : Bool) : Word w := if b then 1 else 0

/-- The switch of `dwarf_eval_expr`. -/
def exprExec (ctx : ExprContext w) (op : ExprOp) (operand1 operand2 : Word w) (s : ExprState w) :
    Result (ExprState w) :=
  match op with
  | .lit k => push s (BitVec.ofNat w k)
  | .breg r => do
      let regnum ← ctx.toUnwRegnum r
      let tmp1 ← ctx.getReg regnum
      push s (tmp1 + operand1)
  | .bregx => do
      let regnum ← ctx.toUnwRegnum (operand1.setWidth 32).toInt
      let tmp1 ← ctx.getReg regnum
      push s (tmp1 + operand2)
  | .reg r => do
      let regnum ← ctx.toUnwRegnum r
      pure { s with register := some (BitVec.ofInt w regnum) }
  | .regx => do
      let regnum ← ctx.toUnwRegnum operand1.toNat
      pure { s with register := some (BitVec.ofInt w regnum) }
  | .const => push s operand1
  | .constSigned bits =>
      push s (if operand1.getLsbD (bits - 1) then operand1 ||| ((-1 : Word w) <<< bits)
        else operand1)
  | .deref => do
      let (tmp1, s) ← pop s
      let (tmp2, _) ← readw ctx.as tmp1
      push s tmp2
  | .derefSize => do
      let (tmp1, s) ← pop s
      let tmp2 ← derefSize ctx.as tmp1 operand1.toNat
      push s tmp2
  | .dup => do
      let x ← pick s 0
      push s x
  | .drop => do
      let (_, s) ← pop s
      pure s
  | .pick => do
      let x ← pick s operand1.toNat
      push s x
  | .over => do
      let x ← pick s 1
      push s x
  | .swap => do
      let (tmp1, s) ← pop s
      let (tmp2, s) ← pop s
      let s ← push s tmp1
      push s tmp2
  | .rot => do
      let (tmp1, s) ← pop s
      let (tmp2, s) ← pop s
      let (tmp3, s) ← pop s
      let s ← push s tmp1
      let s ← push s tmp3
      push s tmp2
  | .abs => do
      let (tmp1, s) ← pop s
      push s (if tmp1.msb then ~~~tmp1 + 1 else tmp1)
  | .neg => do
      let (tmp1, s) ← pop s
      push s (~~~tmp1 + 1)
  | .not => do
      let (tmp1, s) ← pop s
      push s (~~~tmp1)
  | .plusUconst => do
      let (tmp1, s) ← pop s
      push s (tmp1 + operand1)
  | .and => binary s fun tmp1 tmp2 => pure (tmp1 &&& tmp2)
  | .or => binary s fun tmp1 tmp2 => pure (tmp1 ||| tmp2)
  | .xor => binary s fun tmp1 tmp2 => pure (tmp1 ^^^ tmp2)
  | .plus => binary s fun tmp1 tmp2 => pure (tmp1 + tmp2)
  | .minus => binary s fun tmp1 tmp2 => pure (tmp2 - tmp1)
  | .mul => binary s fun tmp1 tmp2 => pure (tmp2 * tmp1)
  | .div => binary s signedDiv
  -- unlike the quotient, the remainder is unsigned
  | .mod => binary s fun tmp1 tmp2 => pure (if tmp1 = 0 then tmp1 else tmp2 % tmp1)
  | .shl => binary s fun tmp1 tmp2 => shiftBy tmp1 (tmp2 <<< tmp1)
  | .shr => binary s fun tmp1 tmp2 => shiftBy tmp1 (tmp2 >>> tmp1)
  | .shra => binary s fun tmp1 tmp2 => shiftBy tmp1 (tmp2.sshiftRight tmp1.toNat)
  | .le => binary s fun tmp1 tmp2 => pure (ofBool w (tmp2.sle tmp1))
  | .ge => binary s fun tmp1 tmp2 => pure (ofBool w (tmp1.sle tmp2))
  | .lt => binary s fun tmp1 tmp2 => pure (ofBool w (tmp2.slt tmp1))
  | .gt => binary s fun tmp1 tmp2 => pure (ofBool w (tmp1.slt tmp2))
  | .eq => binary s fun tmp1 tmp2 => pure (ofBool w (tmp2 == tmp1))
  | .ne => binary s fun tmp1 tmp2 => pure (ofBool w (tmp2 != tmp1))
  | .skip => pure { s with addr := s.addr + (operand1.setWidth 16).signExtend w }
  | .bra => do
      let (tmp1, s) ← pop s
      pure (if tmp1 = 0 then s
        else { s with addr := s.addr + (operand1.setWidth 16).signExtend w })
  | .nop => pure s
  | .unexpected => .error (.err .inval)

/-- The operands that the opcode announces; the evaluator has two variables for
    them. -/
def readOperands (as : AddrSpace w) (addr : Word w) (types : List OperandType) :
    Result (Word w × Word w × Word w) :=
  match types with
  | [] => pure (0, 0, addr)
  | first :: rest => do
      let (operand1, addr) ← readOperand as addr first
      match rest with
      | [] => pure (operand1, 0, addr)
      | second :: _ => do
          let (operand2, addr) ← readOperand as addr second
          pure (operand1, operand2, addr)

/-- One round of the loop of `dwarf_eval_expr`. -/
def exprStep (ctx : ExprContext w) (s : ExprState w) : Result (ExprState w) := do
  let (opcode, addr) ← readu8 ctx.as s.addr
  let (operand1, operand2, addr) ← readOperands ctx.as addr (operands opcode)
  exprExec ctx (.ofByte opcode) operand1 operand2 { s with addr }

def exprGuard (endAddr : Word w) (s : ExprState w) : Bool :=
  s.register.isNone && s.addr < endAddr

/-- What an expression denotes: `valp` with `is_register`. -/
structure ExprValue (w : Nat) where
  val : Word w
  isRegister : Bool
  deriving DecidableEq, Repr

/-- `dwarf_eval_expr`. -/
def evalExpr (ctx : ExprContext w) (budget : Nat) (stackVal addr len : Word w) :
    Result (ExprValue w) := do
  let s ← WhileLoop.run .timeout (exprGuard (addr + len)) (exprStep ctx) budget
    { addr, stack := [stackVal] }
  match s.register with
  | some val => pure ⟨val, true⟩
  | none => do
      let (val, _) ← pop s
      pure ⟨val, false⟩

/-- One of the tests that make `dwarf_stack_aligned` return 0. -/
def require (test : Bool) : Result Unit :=
  if test then pure () else .error (.err .inval)

/-- `dwarf_stack_aligned`: recognises a CFA that is loaded from a constant offset
    of `rbp`, which is itself saved where `rbp` points. Yields the offset; it
    returns 0 where there is none. -/
def dwarfStackAligned (as : AddrSpace w) (cfaAddr rbpAddr : Word w) : Result (Word w) := do
  let (len, rbpAddr) ← readUleb128 as rbpAddr
  require (len == 2)
  let (opcode, rbpAddr) ← readu8 as rbpAddr
  require (opcode == opBreg6)
  let (operand1, _) ← readOperand as rbpAddr .sleb128
  require (operand1 == 0)
  let (len, cfaAddr) ← readUleb128 as cfaAddr
  require (len == 3)
  let (opcode, cfaAddr) ← readu8 as cfaAddr
  require (opcode == opBreg6)
  let (operand1, cfaAddr) ← readOperand as cfaAddr .sleb128
  let (opcode, _) ← readu8 as cfaAddr
  require (opcode == opDeref)
  pure operand1

end Libunwind.Dwarf
