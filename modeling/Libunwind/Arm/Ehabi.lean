import Libunwind.Dwarf.Cursor
import Libunwind.Library.WhileLoop

/-! # The unwinding instructions of the ARM exception handling ABI

What the table of the ABI says of each instruction, apart from the code. A state has the
virtual stack pointer and where the registers are found, if they are found.
-/

namespace Libunwind.Arm.Ehabi

/-- How VFP registers were saved. `FSTMFDX` stores another word behind them. -/
inductive VfpFormat where
  | fstmfdx
  | vpush
  deriving DecidableEq, Repr

inductive Instr where
  /-- `vsp = vsp + offset`. -/
  | up (offset : Nat)
  | down (offset : Nat)
  | refuse
  | popCore (regs : List Nat)
  /-- `vsp = r[reg]`. -/
  | vspFrom (reg : Nat)
  | finish
  | popDoubles (first count : Nat) (format : VfpFormat)
  | popWmmx (count : Nat)
  | popWmmxControl (count : Nat)
  | spare
  deriving DecidableEq

/-- The core registers of a mask whose bit 0 stands for `r[low]`. -/
def maskRegs (low width mask : Nat) : List Nat :=
  (List.range' low width).filter fun r => mask.testBit (r - low)

/-- An unsigned LEB128 number. -/
def readUleb : List Byte → Result (Nat × List Byte)
  | [] => .error .undefined
  | byte :: rest =>
      if byte.toNat < 128 then .ok (byte.toNat, rest)
      else do
        let (high, rest) ← readUleb rest
        .ok (byte.toNat % 128 + 128 * high, rest)

/-- The byte behind the opcode. -/
def readOperand : List Byte → Result (Nat × List Byte)
  | [] => .error .undefined
  | byte :: rest => .ok (byte.toNat, rest)

/-- The instruction that starts with the byte `op`. Nothing follows a finish. -/
def readInstr (op : Nat) (rest : List Byte) : Result (Instr × List Byte) :=
  if op < 0x40 then .ok (.up (4 * op + 4), rest)
  else if op < 0x80 then .ok (.down (4 * (op - 0x40) + 4), rest)
  else if op < 0x90 then do
    let (low, rest) ← readOperand rest
    let mask := 256 * (op - 0x80) + low
    .ok (if mask = 0 then .refuse else .popCore (maskRegs 4 12 mask), rest)
  else if op = 0x9d ∨ op = 0x9f then .ok (.spare, rest)
  else if op < 0xa0 then .ok (.vspFrom (op - 0x90), rest)
  else if op < 0xa8 then .ok (.popCore (List.range' 4 (op - 0xa0 + 1)), rest)
  else if op < 0xb0 then .ok (.popCore (List.range' 4 (op - 0xa8 + 1) ++ [14]), rest)
  else if op = 0xb0 then .ok (.finish, [])
  else if op = 0xb1 then do
    let (mask, rest) ← readOperand rest
    .ok (if 0 < mask ∧ mask < 16 then .popCore (maskRegs 0 4 mask) else .spare, rest)
  else if op = 0xb2 then do
    let (offset, rest) ← readUleb rest
    .ok (.up (0x204 + 4 * offset), rest)
  else if op = 0xb3 then do
    let (range, rest) ← readOperand rest
    .ok (.popDoubles (range / 16) (range % 16 + 1) .fstmfdx, rest)
  else if op < 0xb8 then .ok (.spare, rest)
  else if op < 0xc0 then .ok (.popDoubles 8 (op - 0xb8 + 1) .fstmfdx, rest)
  else if op < 0xc6 then .ok (.popWmmx (op - 0xc0 + 1), rest)
  else if op = 0xc6 then do
    let (range, rest) ← readOperand rest
    .ok (.popWmmx (range % 16 + 1), rest)
  else if op = 0xc7 then do
    let (mask, rest) ← readOperand rest
    .ok (if 0 < mask ∧ mask < 16 then .popWmmxControl (maskRegs 0 4 mask).length else .spare, rest)
  else if op = 0xc8 then do
    let (range, rest) ← readOperand rest
    .ok (.popDoubles (16 + range / 16) (range % 16 + 1) .vpush, rest)
  else if op = 0xc9 then do
    let (range, rest) ← readOperand rest
    .ok (.popDoubles (range / 16) (range % 16 + 1) .vpush, rest)
  else if op < 0xd0 then .ok (.spare, rest)
  else if op < 0xd8 then .ok (.popDoubles 8 (op - 0xd0 + 1) .vpush, rest)
  else .ok (.spare, rest)

/-- Where a register is found. -/
abbrev Place := Option (Dwarf.Loc 32)

structure State where
  vsp : Word 32
  core : Nat → Place
  doubles : Nat → Place

section Execute

variable (load : Dwarf.Loc 32 → Result (Word 32))

/-- The value of a register. -/
def value : Place → Result (Word 32)
  | none => .error (.err .badreg)
  | some loc => load loc

/-- The place of the register `r` when `regs` were popped from `vsp` on. -/
def popped (vsp : Word 32) (size : Nat) (regs : List Nat) (places : Nat → Place) (r : Nat) :
    Place :=
  if r ∈ regs then some (Dwarf.memLoc (vsp + BitVec.ofNat 32 (size * regs.idxOf r)))
  else places r

def execute (s : State) : Instr → Result State
  | .up offset => .ok { s with vsp := s.vsp + BitVec.ofNat 32 offset }
  | .down offset => .ok { s with vsp := s.vsp - BitVec.ofNat 32 offset }
  | .refuse => .error (.err .unspec)
  | .popCore regs => do
      let core := popped s.vsp 4 regs s.core
      -- a stack pointer that was saved takes the place of the advanced one
      let vsp ← if 13 ∈ regs then value load (core 13)
        else .ok (s.vsp + BitVec.ofNat 32 (4 * regs.length))
      .ok { s with vsp, core }
  | .vspFrom reg => do
      let vsp ← value load (s.core reg)
      .ok { s with vsp, core := Function.update s.core 13 (s.core reg) }
  | .finish => .ok { s with core := Function.update s.core 15 (s.core 15 <|> s.core 14) }
  | .popDoubles first count format =>
      let extra := if format = .fstmfdx then 4 else 0
      .ok { s with
        vsp := s.vsp + BitVec.ofNat 32 (8 * count + extra)
        doubles := popped s.vsp 8 (List.range' first count) s.doubles }
  | .popWmmx count => .ok { s with vsp := s.vsp + BitVec.ofNat 32 (8 * count) }
  | .popWmmxControl count => .ok { s with vsp := s.vsp + BitVec.ofNat 32 (4 * count) }
  | .spare => .error (.err .unspec)

/-- The rest of the instructions, and the state. -/
abbrev Config := List Byte × State

def guard (s : Config) : Bool := !s.1.isEmpty

def step : Config → Result Config
  | ([], _) => .error .undefined
  | (op :: rest, s) => do
      let (instr, rest) ← readInstr op.toNat rest
      let s ← execute load s instr
      .ok (rest, s)

/-- The instructions, up to a finish or their end. -/
def interpret (bytes : List Byte) (s : State) : Result State :=
  (WhileLoop.run .timeout guard (step load) bytes.length (bytes, s)).map Prod.snd

end Execute

end Libunwind.Arm.Ehabi
