import Libunwind.Library.Leb128
import Libunwind.Basic

/-! # A reference evaluator for DWARF expressions

The stack machine as the DWARF format describes it, apart from the code: its stack has no
bound, its operands have no width, and what the format does not allow is an error. An
expression that a call-frame instruction may not have is an error as well.
-/

namespace Libunwind.Dwarf.StackMachine

open Leb128

variable {w : Nat}

/-! ## Opcodes -/

inductive ByteCount where
  | one
  | two
  | four
  | eight
  deriving DecidableEq, Repr

@[simp] def ByteCount.bytes : ByteCount → Nat
  | one => 1
  | two => 2
  | four => 4
  | eight => 8

/-- How an operand is stored. -/
inductive Number where
  | fixed (signed : Bool) (size : ByteCount)
  | uleb
  | sleb
  | address
  deriving DecidableEq, Repr

/-- The operations that replace the two topmost words. -/
inductive BinaryOp where
  | and
  | div
  | minus
  | mod
  | mul
  | or
  | plus
  | shl
  | shr
  | shra
  | xor
  | le
  | ge
  | eq
  | lt
  | gt
  | ne
  deriving DecidableEq, Repr

inductive Opcode where
  | lit (k : Nat)
  | const (number : Number)
  | reg (r : Nat)
  | regx
  | breg (r : Nat)
  | bregx
  | deref
  | derefSize
  | dup
  | drop
  | pick
  | «over»
  | swap
  | rot
  | abs
  | neg
  | not
  | plusUconst
  | binary (op : BinaryOp)
  | skip
  | bra
  | nop
  deriving DecidableEq, Repr

namespace Opcode

def ofByte (byte : Byte) : Option Opcode :=
  let op := byte.toNat
  if 0x30 ≤ op ∧ op ≤ 0x4f then some (lit (op - 0x30))
  else if 0x50 ≤ op ∧ op ≤ 0x6f then some (reg (op - 0x50))
  else if 0x70 ≤ op ∧ op ≤ 0x8f then some (breg (op - 0x70))
  else
    match op with
    | 0x03 => some (const .address)
    | 0x06 => some deref
    | 0x08 => some (const (.fixed false .one))
    | 0x09 => some (const (.fixed true .one))
    | 0x0a => some (const (.fixed false .two))
    | 0x0b => some (const (.fixed true .two))
    | 0x0c => some (const (.fixed false .four))
    | 0x0d => some (const (.fixed true .four))
    | 0x0e => some (const (.fixed false .eight))
    | 0x0f => some (const (.fixed true .eight))
    | 0x10 => some (const .uleb)
    | 0x11 => some (const .sleb)
    | 0x12 => some dup
    | 0x13 => some drop
    | 0x14 => some «over»
    | 0x15 => some pick
    | 0x16 => some swap
    | 0x17 => some rot
    | 0x19 => some abs
    | 0x1a => some (binary .and)
    | 0x1b => some (binary .div)
    | 0x1c => some (binary .minus)
    | 0x1d => some (binary .mod)
    | 0x1e => some (binary .mul)
    | 0x1f => some neg
    | 0x20 => some not
    | 0x21 => some (binary .or)
    | 0x22 => some (binary .plus)
    | 0x23 => some plusUconst
    | 0x24 => some (binary .shl)
    | 0x25 => some (binary .shr)
    | 0x26 => some (binary .shra)
    | 0x27 => some (binary .xor)
    | 0x28 => some bra
    | 0x29 => some (binary .eq)
    | 0x2a => some (binary .ge)
    | 0x2b => some (binary .gt)
    | 0x2c => some (binary .le)
    | 0x2d => some (binary .lt)
    | 0x2e => some (binary .ne)
    | 0x2f => some skip
    | 0x90 => some regx
    | 0x92 => some bregx
    | 0x94 => some derefSize
    | 0x96 => some nop
    | _ => none

/-- The operands of an operation, in their order. -/
def operands : Opcode → List Number
  | const number => [number]
  | breg _ => [.sleb]
  | regx | plusUconst => [.uleb]
  | bregx => [.uleb, .sleb]
  | derefSize | pick => [.fixed false .one]
  | skip | bra => [.fixed true .two]
  | _ => []

end Opcode

/-! ## Operands -/

/-- What an expression is evaluated in. -/
structure Machine (w : Nat) where
  bigEndian : Bool
  /-- The bytes that can be read. -/
  byte : Word w → Option Byte
  /-- The registers that the target has are those below this number. -/
  registers : Nat
  /-- The values that are known. -/
  register : Nat → Option (Word w)

/-- The number that some bytes are, in the order of the target. -/
def ofBytes (bigEndian : Bool) (bytes : List Byte) : Nat :=
  Nat.ofDigits 256 ((if bigEndian then bytes.reverse else bytes).map BitVec.toNat)

/-- The two's complement. -/
def signedOf (bits n : Nat) : Int := if 2 ^ (bits - 1) ≤ n then n - 2 ^ bits else n

/-- The number at the front of some bytes, and the bytes behind it. -/
def readBytes (m : Machine w) (count : Nat) (bytes : List Byte) : Option (Nat × List Byte) :=
  if count ≤ bytes.length then some (ofBytes m.bigEndian (bytes.take count), bytes.drop count)
  else none

def Number.read (m : Machine w) (bytes : List Byte) : Number → Option (Int × List Byte)
  | fixed signed size =>
      (readBytes m size.bytes bytes).map fun (n, rest) =>
        (if signed then signedOf (8 * size.bytes) n else n, rest)
  | uleb => (splitDigits bytes).map fun (digits, rest) => ((Nat.ofDigits 128 digits : Nat), rest)
  | sleb => (splitDigits bytes).map fun (digits, rest) => (signedValue digits, rest)
  | address => (readBytes m (w / 8) bytes).map fun (n, rest) => (n, rest)

/-- The operands; those that the operation does not have are 0. -/
def readNumbers (m : Machine w) (bytes : List Byte) :
    List Number → Option (Int × Int × List Byte)
  | [] => some (0, 0, bytes)
  | [first] => (first.read m bytes).map fun (x, rest) => (x, 0, rest)
  | first :: second :: _ =>
      (first.read m bytes).bind fun (x, rest) =>
        (second.read m rest).map fun (y, rest) => (x, y, rest)

/-! ## Operations -/

/-- The bytes that are stored at an address. -/
def Machine.bytes (m : Machine w) : Nat → Word w → Option (List Byte)
  | 0, _ => some []
  | count + 1, addr => do
      let byte ← m.byte addr
      let bytes ← m.bytes count (addr + 1)
      some (byte :: bytes)

/-- The number that is stored at an address. -/
def Machine.load (m : Machine w) (addr : Word w) (count : Nat) : Option (Word w) :=
  (m.bytes count addr).map fun bytes => BitVec.ofNat w (ofBytes m.bigEndian bytes)

def truth (w : Nat) (p : Bool) : Word w := if p then 1 else 0

/-- `a` is the second word, `b` the top one. The quotient is a signed one, as the comparisons
    are; all other arithmetic is unsigned. -/
def BinaryOp.value (a b : Word w) : BinaryOp → Option (Word w)
  | and => some (a &&& b)
  | or => some (a ||| b)
  | xor => some (a ^^^ b)
  | plus => some (a + b)
  | minus => some (a - b)
  | mul => some (a * b)
  | div => if b = 0 then none else some (a.sdiv b)
  | mod => if b = 0 then none else some (a % b)
  | shl => some (a <<< b.toNat)
  | shr => some (a >>> b.toNat)
  | shra => some (a.sshiftRight b.toNat)
  | le => some (truth w (a.toInt ≤ b.toInt))
  | ge => some (truth w (a.toInt ≥ b.toInt))
  | eq => some (truth w (a.toInt = b.toInt))
  | lt => some (truth w (a.toInt < b.toInt))
  | gt => some (truth w (a.toInt > b.toInt))
  | ne => some (truth w (a.toInt ≠ b.toInt))

structure State (w : Nat) where
  /-- The place in the expression. -/
  pc : Nat
  /-- The top of the stack comes first. -/
  stack : List (Word w)
  /-- The register that the expression names. -/
  register : Option Nat := none
  deriving DecidableEq

/-- What the operations do that neither branch nor name a register. -/
def Opcode.onStack (m : Machine w) (x y : Int) : Opcode → List (Word w) → Option (List (Word w))
  | lit k, stack => some (BitVec.ofNat w k :: stack)
  | const _, stack => some (BitVec.ofInt w x :: stack)
  | breg r, stack => (m.register r).map fun value => (value + BitVec.ofInt w x) :: stack
  | bregx, stack => (m.register x.toNat).map fun value => (value + BitVec.ofInt w y) :: stack
  | deref, a :: stack => (m.load a (w / 8)).map (· :: stack)
  | derefSize, a :: stack =>
      if 1 ≤ x ∧ x ≤ (w / 8 : Nat) then (m.load a x.toNat).map (· :: stack) else none
  | dup, a :: stack => some (a :: a :: stack)
  | drop, _ :: stack => some stack
  | pick, stack => stack[x.toNat]?.map (· :: stack)
  | «over», a :: b :: stack => some (b :: a :: b :: stack)
  | swap, a :: b :: stack => some (b :: a :: stack)
  | rot, a :: b :: c :: stack => some (b :: c :: a :: stack)
  | abs, a :: stack => some (a.abs :: stack)
  | neg, a :: stack => some (-a :: stack)
  | not, a :: stack => some (~~~a :: stack)
  | plusUconst, a :: stack => some ((a + BitVec.ofInt w x) :: stack)
  | binary op, b :: a :: stack => (op.value a b).map (· :: stack)
  | nop, stack => some stack
  | _, _ => none

/-- A branch stays within the expression. -/
def State.jump (len : Nat) (offset : Int) (s : State w) : Option (State w) :=
  let target := s.pc + offset
  if 0 ≤ target ∧ target ≤ len then some { s with pc := target.toNat } else none

/-- A register is named at the end of the expression. -/
def State.name (m : Machine w) (len r : Nat) (s : State w) : Option (State w) :=
  if r < m.registers ∧ s.pc = len then some { s with register := some r } else none

/-- What an operation does; `s.pc` is behind it. -/
def Opcode.exec (m : Machine w) (len : Nat) (x y : Int) (s : State w) : Opcode → Option (State w)
  | reg r => s.name m len r
  | regx => s.name m len x.toNat
  | skip => s.jump len x
  | bra =>
      match s.stack with
      | [] => none
      | a :: stack => if a = 0 then some { s with stack } else { s with stack }.jump len x
  | op => (op.onStack m x y s.stack).map fun stack => { s with stack }

/-- The operation at the front of some bytes with its operands, and the bytes behind it. -/
def decode (m : Machine w) : List Byte → Option (Opcode × Int × Int × List Byte)
  | [] => none
  | byte :: bytes => do
      let op ← Opcode.ofByte byte
      let (x, y, rest) ← readNumbers m bytes op.operands
      some (op, x, y, rest)

/-- Nothing follows a register. -/
def step (m : Machine w) (code : List Byte) (s : State w) : Option (State w) :=
  if s.register.isSome then none
  else do
    let (op, x, y, rest) ← decode m (code.drop s.pc)
    op.exec m code.length x y { s with pc := code.length - rest.length }

/-! ## Evaluation -/

inductive Runs (m : Machine w) (code : List Byte) : State w → State w → Prop where
  | refl (s) : Runs m code s s
  | step {s next t} (round : step m code s = some next) (path : Runs m code next t) :
      Runs m code s t

/-- What an expression denotes. -/
inductive Value (w : Nat) where
  | word (x : Word w)
  | register (r : Nat)
  deriving DecidableEq

def State.value (s : State w) : Option (Value w) :=
  match s.register with
  | some r => some (.register r)
  | none => s.stack.head?.map .word

def start (x : Word w) : State w where
  pc := 0
  stack := [x]

/-- The expression is evaluated to its end, without an error. -/
def Evaluates (m : Machine w) (code : List Byte) (x : Word w) (value : Value w) : Prop :=
  ∃ s, Runs m code (start x) s ∧ s.pc = code.length ∧ s.value = some value

end Libunwind.Dwarf.StackMachine
