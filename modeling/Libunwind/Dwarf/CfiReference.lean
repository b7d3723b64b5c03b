import Libunwind.Dwarf.CfiProgram

/-! # A reference interpreter for call-frame instructions

The instruction set as the DWARF format describes it, apart from the code: one
table gives each opcode its operands, decoding yields an instruction, and an
instruction acts on an abstract row. `Row.ofRegState` says which abstract row
the interpreter's register state stands for.
-/

namespace Libunwind.Dwarf.Reference

variable {n w : Nat}

/-! ## Instructions and their encoding -/

/-- How an operand is stored. -/
inductive Form where
  | uleb
  | sleb
  | data1
  | data2
  | data4
  | data8
  | column
  | location
  | block
  deriving DecidableEq, Repr

/-- What an operand of the form denotes. -/
def Form.Value (n w : Nat) : Form → Type
  | .column => Fin n
  | _ => Word w

/-- A call-frame instruction. Offsets are still factored where the format
    factors them. -/
inductive Instr (n w : Nat) where
  | nop
  | advanceLoc (delta : Word w)
  | setLoc (loc : Word w)
  | offset (r : Fin n) (factored : Word w)
  | negativeOffset (r : Fin n) (factored : Word w)
  | valOffset (r : Fin n) (factored : Word w)
  | restore (r : Fin n)
  | undefined (r : Fin n)
  | sameValue (r : Fin n)
  | register (r : Fin n) (other : Word w)
  | expression (r : Fin n) (block : Word w)
  | valExpression (r : Fin n) (block : Word w)
  | rememberState
  | restoreState
  | defCfa (r : Fin n) (offset : Word w)
  | defCfaSf (r : Fin n) (factored : Word w)
  | defCfaRegister (r : Fin n)
  | defCfaOffset (offset : Word w)
  | defCfaOffsetSf (factored : Word w)
  | defCfaExpression (block : Word w)
  | argsSize (size : Word w)
  | saveWindow
  | negateRaState (r : Fin n)

/-- An opcode's operands, in order, and the instruction they make. -/
inductive Encoding (n w : Nat) where
  | plain (instr : Instr n w)
  | one (a : Form) (instr : a.Value n w → Instr n w)
  | two (a b : Form) (instr : a.Value n w → b.Value n w → Instr n w)

/-- The table of opcodes: DWARF 3 to 5, and the extensions that the target has. -/
def encodingOf (target : CfiTarget n) (byte : Byte) : Option (Encoding n w) :=
  let low : Word w := (byte &&& 0x3f).setWidth w
  match (byte >>> 6).toNat with
  | 1 => some (.plain (.advanceLoc low))
  | 2 => if valid : low.toNat < n then some (.one .uleb (.offset ⟨low.toNat, valid⟩)) else none
  | 3 => if valid : low.toNat < n then some (.plain (.restore ⟨low.toNat, valid⟩)) else none
  | _ =>
    match byte.toNat with
    | 0x00 => some (.plain .nop)
    | 0x01 => some (.one .location .setLoc)
    | 0x02 => some (.one .data1 .advanceLoc)
    | 0x03 => some (.one .data2 .advanceLoc)
    | 0x04 => some (.one .data4 .advanceLoc)
    | 0x05 => some (.two .column .uleb .offset)
    | 0x06 => some (.one .column .restore)
    | 0x07 => some (.one .column .undefined)
    | 0x08 => some (.one .column .sameValue)
    | 0x09 => some (.two .column .uleb .register)
    | 0x0a => some (.plain .rememberState)
    | 0x0b => some (.plain .restoreState)
    | 0x0c => some (.two .column .uleb .defCfa)
    | 0x0d => some (.one .column .defCfaRegister)
    | 0x0e => some (.one .uleb .defCfaOffset)
    | 0x0f => some (.one .block .defCfaExpression)
    | 0x10 => some (.two .column .block .expression)
    | 0x11 => some (.two .column .sleb .offset)
    | 0x12 => some (.two .column .sleb .defCfaSf)
    | 0x13 => some (.one .sleb .defCfaOffsetSf)
    | 0x14 => some (.two .column .uleb .valOffset)
    | 0x15 => some (.two .column .sleb .valOffset)
    | 0x16 => some (.two .column .block .valExpression)
    | 0x1d => if target.mips then some (.one .data8 .advanceLoc) else none
    | 0x2d =>
        match target.windowSave with
        | .sparc _ => some (.plain .saveWindow)
        | .aarch64 r => some (.plain (.negateRaState r))
        | .unexpected => none
    | 0x2e => some (.one .uleb .argsSize)
    | 0x2f => some (.two .column .uleb .negativeOffset)
    | _ => none

/-- A location operand, whose signed LEB128 format is read as such. -/
def readLocation (as : AddrSpace w) (addr : Word w) (encoding : Byte) (pi : ProcInfo w) :
    Result (Word w × Word w) :=
  if encoding ≠ ehPeOmit ∧ encoding &&& ehPeFormatMask = 0x09 then do
    let (val, next) ← readSleb128 as addr
    let val ← applyEncoding as addr encoding pi val
    pure (val, next)
  else readEncodedPointer as addr encoding pi

def Form.read (env : CfiEnv n w) (form : Form) (addr : Word w) :
    Result (form.Value n w × Word w) :=
  match form with
  | .uleb => readUleb128 env.as addr
  | .sleb => readSleb128 env.as addr
  | .data1 => do
      let (val, next) ← readu8 env.as addr
      pure (val.setWidth w, next)
  | .data2 => do
      let (val, next) ← readu16 env.as addr
      pure (val.setWidth w, next)
  | .data4 => do
      let (val, next) ← readu32 env.as addr
      pure (val.setWidth w, next)
  | .data8 => do
      let (val, next) ← readu64 env.as addr
      pure (val.setWidth w, next)
  | .column => readRegnum n env.as addr
  | .location => readLocation env.as addr env.dci.fdeEncoding env.pi
  | .block => do
      -- the value is where the block is, its length first
      let (len, next) ← readUleb128 env.as addr
      pure (addr, next + len)

/-- The instruction that an encoding makes of the operands at an address, and
    the address after them. -/
def Encoding.operands (env : CfiEnv n w) (addr : Word w) :
    Encoding n w → Result (Instr n w × Word w)
  | .plain instr => pure (instr, addr)
  | .one a instr => do
      let (first, addr) ← a.read env addr
      pure (instr first, addr)
  | .two a b instr => do
      let (first, addr) ← a.read env addr
      let (second, addr) ← b.read env addr
      pure (instr first second, addr)

/-! ## Rows -/

/-- DWARF's register rules, and the architectural one for a register whose
    value is the CFA. -/
inductive RuleKind where
  | undefined
  | sameValue
  | offset
  | valOffset
  | register
  | expression
  | valExpression
  | isCfa
  deriving DecidableEq, Repr

structure RegRule (w : Nat) where
  kind : RuleKind
  arg : Word w
  deriving DecidableEq, Repr

/-- A row of the call-frame table; the CFA rule is a base with an offset. -/
structure Row (n w : Nat) where
  returnColumn : Word w
  cfaBase : RegRule w
  cfaOffset : Word w
  reg : Fin n → RegRule w
  deriving DecidableEq

structure State (n w : Nat) where
  loc : Word w
  addr : Word w
  row : Row n w
  initial : Row n w
  stack : List (Row n w)
  argsSize : Word w
  /-- Rows remembered so far. -/
  remembered : Nat
  deriving DecidableEq

def Row.setReg (row : Row n w) (r : Fin n) (kind : RuleKind) (arg : Word w) : Row n w :=
  { row with reg := Function.update row.reg r ⟨kind, arg⟩ }

def Row.setBase (row : Row n w) (kind : RuleKind) (arg : Word w) : Row n w :=
  { row with cfaBase := ⟨kind, arg⟩ }

/-- What an instruction does to the current row and the stack. -/
def exec (env : CfiEnv n w) (instr : Instr n w) (s : State n w) : Result (State n w) :=
  let row := s.row
  let factor := env.dci.dataAlign
  match instr with
  | .nop => pure s
  | .advanceLoc delta => pure { s with loc := s.loc + delta * env.dci.codeAlign }
  | .setLoc loc => pure { s with loc }
  | .offset r off => pure { s with row := row.setReg r .offset (off * factor) }
  | .negativeOffset r off => pure { s with row := row.setReg r .offset (-(off * factor)) }
  | .valOffset r off => pure { s with row := row.setReg r .valOffset (off * factor) }
  | .restore r => pure { s with row := row.setReg r (s.initial.reg r).kind (s.initial.reg r).arg }
  | .undefined r => pure { s with row := row.setReg r .undefined 0 }
  | .sameValue r => pure { s with row := row.setReg r .sameValue 0 }
  | .register r other => pure { s with row := row.setReg r .register other }
  | .expression r block => pure { s with row := row.setReg r .expression block }
  | .valExpression r block => pure { s with row := row.setReg r .valExpression block }
  | .rememberState =>
      if env.pool s.remembered then
        pure { s with stack := row :: s.stack, remembered := s.remembered + 1 }
      else .error (.err .nomem)
  | .restoreState =>
      match s.stack with
      | [] => .error (.err .inval)
      | saved :: rest => pure { s with row := saved, stack := rest }
  | .defCfa r off =>
      pure { s with row := { row.setBase .register (BitVec.ofNat w r) with cfaOffset := off } }
  | .defCfaSf r off =>
      pure { s with
        row := { row.setBase .register (BitVec.ofNat w r) with cfaOffset := off * factor } }
  | .defCfaRegister r => pure { s with row := row.setBase .register (BitVec.ofNat w r) }
  | .defCfaOffset off => pure { s with row := { row with cfaOffset := off } }
  | .defCfaOffsetSf off => pure { s with row := { row with cfaOffset := off * factor } }
  | .defCfaExpression block => pure { s with row := row.setBase .expression block }
  | .argsSize size => pure { s with argsSize := size }
  | .saveWindow =>
      let saved (r : Fin n) : RegRule w :=
        if 16 ≤ r.val ∧ r.val < 32 then ⟨.offset, BitVec.ofNat w ((r.val - 16) * (w / 8))⟩
        else row.reg r
      pure { s with row := { row with reg := saved } }
  | .negateRaState r => pure { s with row := row.setReg r .sameValue ((row.reg r).arg ^^^ 1) }

/-- Decodes and executes one instruction; an opcode that is not in the table is
    refused. -/
def step (env : CfiEnv n w) (s : State n w) : Result (State n w) := do
  let (byte, addr) ← readu8 env.as s.addr
  match encodingOf env.target byte with
  | none => .error (.err .inval)
  | some encoding =>
      let (instr, addr) ← encoding.operands env addr
      exec env instr { s with addr }

def guard (endIp endAddr : Word w) (s : State n w) : Bool :=
  s.loc ≤ endIp && s.addr < endAddr

/-- The reference interpreter: up to the first row beyond `endIp`. -/
def run (env : CfiEnv n w) (budget : Nat) (endIp endAddr : Word w) (s : State n w) :
    Result (State n w) :=
  WhileLoop.run .timeout (guard endIp endAddr) (step env) budget s

end Libunwind.Dwarf.Reference
