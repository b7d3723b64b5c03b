import Libunwind.Library.WhileLoop
import Libunwind.Dwarf.RegState

/-! # The call-frame instruction interpreter

`run_cfi_program` runs the instructions of a CIE or an FDE over a state record.
The interpreter's loop is `WhileLoop.run` over `cfiStep`, one instruction a
round.
-/

namespace Libunwind.Dwarf

/-- `dwarf_cfa_t`: the opcodes that the switch has a case for. -/
inductive CfaOpcode where
  | advanceLoc
  | offset
  | restore
  | nop
  | setLoc
  | advanceLoc1
  | advanceLoc2
  | advanceLoc4
  | offsetExtended
  | restoreExtended
  | undefined
  | sameValue
  | register
  | rememberState
  | restoreState
  | defCfa
  | defCfaRegister
  | defCfaOffset
  | defCfaExpression
  | expression
  | offsetExtendedSf
  | defCfaSf
  | defCfaOffsetSf
  | valExpression
  | loUser
  | mipsAdvanceLoc8
  | gnuWindowSave
  | gnuArgsSize
  | gnuNegativeOffsetExtended
  | hiUser
  deriving DecidableEq, Repr

/-- The conversion `(dwarf_cfa_t) op`; `none` for a number that is no enumerator. -/
def CfaOpcode.ofByte (op : Byte) : Option CfaOpcode :=
  match op.toNat with
  | 0x40 => some .advanceLoc
  | 0x80 => some .offset
  | 0xc0 => some .restore
  | 0x00 => some .nop
  | 0x01 => some .setLoc
  | 0x02 => some .advanceLoc1
  | 0x03 => some .advanceLoc2
  | 0x04 => some .advanceLoc4
  | 0x05 => some .offsetExtended
  | 0x06 => some .restoreExtended
  | 0x07 => some .undefined
  | 0x08 => some .sameValue
  | 0x09 => some .register
  | 0x0a => some .rememberState
  | 0x0b => some .restoreState
  | 0x0c => some .defCfa
  | 0x0d => some .defCfaRegister
  | 0x0e => some .defCfaOffset
  | 0x0f => some .defCfaExpression
  | 0x10 => some .expression
  | 0x11 => some .offsetExtendedSf
  | 0x12 => some .defCfaSf
  | 0x13 => some .defCfaOffsetSf
  | 0x16 => some .valExpression
  | 0x1c => some .loUser
  | 0x1d => some .mipsAdvanceLoc8
  | 0x2d => some .gnuWindowSave
  | 0x2e => some .gnuArgsSize
  | 0x2f => some .gnuNegativeOffsetExtended
  | 0x3c => some .hiUser
  | _ => none

/-- What `DW_CFA_GNU_window_save` means on the target. -/
inductive WindowSave (n : Nat) where
  /-- All sixteen windowed registers are saved at the CFA. -/
  | sparc (windowed : 32 ≤ n)
  /-- `DW_CFA_AARCH64_negate_ra_state`. -/
  | aarch64 (raSignState : Fin n)
  | unexpected
  deriving DecidableEq, Repr

/-- What the target's headers tell the interpreter. -/
structure CfiTarget (n : Nat) where
  /-- `UNW_TARGET_MIPS`. -/
  mips : Bool := false
  windowSave : WindowSave n := .unexpected
  /-- `TDEP_DWARF_SP`. -/
  sp : Fin n
  /-- SP defaults to the CFA, except on 64-bit MIPS and on s390x. -/
  spIsCfa : Bool := true
  deriving DecidableEq

/-- x86_64 preserves 17 registers, and literals are their numbers. -/
instance neZeroX86 : NeZero 17 := ⟨by decide⟩

/-- What the headers of x86_64 tell it. -/
def CfiTarget.x86_64 : CfiTarget 17 := { sp := 7 }

/-- What `run_cfi_program` reads of its cursor and does not change: the
    procedure info, the address spaces it may read from, and the outcomes of the
    allocations from the register-state pool. -/
structure CfiEnv (n w : Nat) where
  target : CfiTarget n
  cursorSpace : AddrSpace w
  localSpace : AddrSpace w
  pi : ProcInfo w
  dci : CieInfo w
  pool : Nat → Bool := fun _ => true

/-- `.debug_frame` CFI is stored in the local address space. -/
def CfiEnv.as {n w : Nat} (env : CfiEnv n w) : AddrSpace w :=
  if env.pi.isDebugFrame then env.localSpace else env.cursorSpace

structure CfiState (n w : Nat) where
  ip : Word w
  addr : Word w
  sr : StateRecord n w
  rsStack : List (RegState n w) := []
  /-- Allocations made from the pool so far. -/
  allocs : Nat := 0
  deriving DecidableEq

variable {n w : Nat}

/-- `read_regnum`. -/
def readRegnum (n : Nat) (as : AddrSpace w) (addr : Word w) : Result (Fin n × Word w) := do
  let (val, addr) ← readUleb128 as addr
  if valid : val.toNat < n then pure (⟨val.toNat, valid⟩, addr)
  else .error (.err .badreg)

namespace CfiState

def at' (s : CfiState n w) (addr : Word w) : CfiState n w := { s with addr }

def advance (s : CfiState n w) (addr : Word w) (delta : Word w) : CfiState n w :=
  { s with addr, ip := s.ip + delta }

def setReg (s : CfiState n w) (addr : Word w) (column : Fin (n + 2)) (how : Where)
    (val : Word w) : CfiState n w :=
  { s with addr, sr := Dwarf.setReg s.sr column how val }

def restoreReg (s : CfiState n w) (addr : Word w) (r : Fin n) : CfiState n w :=
  let initial := s.sr.rsInitial.reg (regColumn r)
  s.setReg addr (regColumn r) initial.how initial.val

/-- `aarch64_negate_ra_sign_state`. -/
def negateRaSignState (s : CfiState n w) (r : Fin n) : CfiState n w :=
  s.setReg s.addr (regColumn r) .same ((s.sr.rsCurrent.reg (regColumn r)).val ^^^ 1)

/-- The register windows of SPARC, at CFA + 0, 1, … words. -/
def saveWindow (s : CfiState n w) : CfiState n w :=
  let saved (column : Fin (n + 2)) : Rule w :=
    if 16 ≤ column.val ∧ column.val < 32 then
      ⟨.cfarel, BitVec.ofNat w ((column.val - 16) * (w / 8))⟩
    else s.sr.rsCurrent.reg column
  { s with sr := { s.sr with rsCurrent := { s.sr.rsCurrent with reg := saved } } }

end CfiState

open CfiState in
/-- The switch of `run_cfi_program`, for an opcode that has a case. -/
def cfiExec (env : CfiEnv n w) (op : CfaOpcode) (operand : Word w) (s : CfiState n w) :
    Result (CfiState n w) :=
  match op with
  | .advanceLoc => pure (s.advance s.addr (operand * env.dci.codeAlign))
  | .advanceLoc1 => do
      let (delta, addr) ← readu8 env.as s.addr
      pure (s.advance addr (delta.setWidth w * env.dci.codeAlign))
  | .advanceLoc2 => do
      let (delta, addr) ← readu16 env.as s.addr
      pure (s.advance addr (delta.setWidth w * env.dci.codeAlign))
  | .advanceLoc4 => do
      let (delta, addr) ← readu32 env.as s.addr
      pure (s.advance addr (delta.setWidth w * env.dci.codeAlign))
  | .mipsAdvanceLoc8 =>
      if env.target.mips then do
        let (delta, addr) ← readu64 env.as s.addr
        pure (s.advance addr (delta.setWidth w * env.dci.codeAlign))
      else .error (.err .inval)
  | .offset =>
      if valid : operand.toNat < n then do
        let (val, addr) ← readUleb128 env.as s.addr
        pure (s.setReg addr (regColumn ⟨operand.toNat, valid⟩) .cfarel (val * env.dci.dataAlign))
      else .error (.err .badreg)
  | .offsetExtended => do
      let (r, addr) ← readRegnum n env.as s.addr
      let (val, addr) ← readUleb128 env.as addr
      pure (s.setReg addr (regColumn r) .cfarel (val * env.dci.dataAlign))
  | .offsetExtendedSf => do
      let (r, addr) ← readRegnum n env.as s.addr
      let (val, addr) ← readSleb128 env.as addr
      pure (s.setReg addr (regColumn r) .cfarel (val * env.dci.dataAlign))
  | .restore =>
      if valid : operand.toNat < n then pure (s.restoreReg s.addr ⟨operand.toNat, valid⟩)
      else .error (.err .inval)
  | .restoreExtended => do
      let (val, addr) ← readUleb128 env.as s.addr
      if valid : val.toNat < n then pure (s.restoreReg addr ⟨val.toNat, valid⟩)
      else .error (.err .inval)
  | .nop => pure s
  | .setLoc => do
      let (ip, addr) ← readEncodedPointer env.as s.addr env.dci.fdeEncoding env.pi
      pure { s with ip, addr }
  | .undefined => do
      let (r, addr) ← readRegnum n env.as s.addr
      pure (s.setReg addr (regColumn r) .undef 0)
  | .sameValue => do
      let (r, addr) ← readRegnum n env.as s.addr
      pure (s.setReg addr (regColumn r) .same 0)
  | .register => do
      let (r, addr) ← readRegnum n env.as s.addr
      let (val, addr) ← readUleb128 env.as addr
      pure (s.setReg addr (regColumn r) .reg val)
  | .rememberState =>
      if env.pool s.allocs then
        pure { s with rsStack := s.sr.rsCurrent :: s.rsStack, allocs := s.allocs + 1 }
      else .error (.err .nomem)
  | .restoreState =>
      match s.rsStack with
      | [] => .error (.err .inval)
      | saved :: rest => pure { s with sr := { s.sr with rsCurrent := saved }, rsStack := rest }
  | .defCfa => do
      let (r, addr) ← readRegnum n env.as s.addr
      let (val, addr) ← readUleb128 env.as addr
      pure ((s.setReg addr (cfaRegColumn n) .reg (BitVec.ofNat w r)).setReg addr
        (cfaOffColumn n) .undef val)                            -- not factored
  | .defCfaSf => do
      let (r, addr) ← readRegnum n env.as s.addr
      let (val, addr) ← readSleb128 env.as addr
      pure ((s.setReg addr (cfaRegColumn n) .reg (BitVec.ofNat w r)).setReg addr
        (cfaOffColumn n) .undef (val * env.dci.dataAlign))      -- factored
  | .defCfaRegister => do
      let (r, addr) ← readRegnum n env.as s.addr
      pure (s.setReg addr (cfaRegColumn n) .reg (BitVec.ofNat w r))
  | .defCfaOffset => do
      let (val, addr) ← readUleb128 env.as s.addr
      pure (s.setReg addr (cfaOffColumn n) .undef val)          -- not factored
  | .defCfaOffsetSf => do
      let (val, addr) ← readSleb128 env.as s.addr
      pure (s.setReg addr (cfaOffColumn n) .undef (val * env.dci.dataAlign))
  | .defCfaExpression => do
      -- the address of the block is saved for later evaluation
      let (len, addr) ← readUleb128 env.as s.addr
      pure (s.setReg (addr + len) (cfaRegColumn n) .expr s.addr)
  | .expression => do
      let (r, block) ← readRegnum n env.as s.addr
      let (len, addr) ← readUleb128 env.as block
      pure (s.setReg (addr + len) (regColumn r) .expr block)
  | .valExpression => do
      let (r, block) ← readRegnum n env.as s.addr
      let (len, addr) ← readUleb128 env.as block
      pure (s.setReg (addr + len) (regColumn r) .valExpr block)
  | .gnuArgsSize => do
      let (val, addr) ← readUleb128 env.as s.addr
      pure { s with addr, sr := { s.sr with argsSize := val } }
  | .gnuNegativeOffsetExtended => do
      let (r, addr) ← readRegnum n env.as s.addr
      let (val, addr) ← readUleb128 env.as addr
      pure (s.setReg addr (regColumn r) .cfarel (~~~(val * env.dci.dataAlign) + 1))
  | .gnuWindowSave =>
      match env.target.windowSave with
      | .sparc _ => pure s.saveWindow
      | .aarch64 r => pure (s.negateRaSignState r)
      | .unexpected => .error (.err .inval)
  | .loUser => .error (.err .inval)
  | .hiUser => .error (.err .inval)

/-- The opcode and its low-six-bits operand, as the loop splits the byte. -/
def splitOpcode (byte : Byte) : Byte × Byte :=
  if byte &&& 0xc0 ≠ 0 then (byte &&& 0xc0, byte &&& 0x3f) else (byte, 0)

/-- One round of the loop of `run_cfi_program`. The switch has no `default`: an
    opcode without a case changes nothing, and its operand bytes are read next. -/
def cfiStep (env : CfiEnv n w) (s : CfiState n w) : Result (CfiState n w) := do
  let (byte, addr) ← readu8 env.as s.addr
  let (op, operand) := splitOpcode byte
  match CfaOpcode.ofByte op with
  | some op => cfiExec env op (operand.setWidth w) (s.at' addr)
  | none => pure (s.at' addr)

theorem cfiStep_case {env : CfiEnv n w} {s : CfiState n w} {byte op}
    (stored : env.as.readByte s.addr = .ok byte)
    (case : CfaOpcode.ofByte (splitOpcode byte).1 = some op) :
    cfiStep env s =
      cfiExec env op ((splitOpcode byte).2.setWidth w) (s.at' (s.addr + 1)) := by
  rw [cfiStep, readu8_byte stored, ok_bind]
  simp only [case]

/-- The loop's condition: the row does not lie beyond `end_ip` yet, and there
    are instructions left. -/
def cfiGuard (endIp endAddr : Word w) (s : CfiState n w) : Bool :=
  s.ip ≤ endIp && s.addr < endAddr

/-- `run_cfi_program`. -/
def runCfiProgram (env : CfiEnv n w) (budget : Nat) (endIp endAddr : Word w)
    (s : CfiState n w) : Result (CfiState n w) :=
  WhileLoop.run .timeout (cfiGuard endIp endAddr) (cfiStep env) budget s

end Libunwind.Dwarf
