import Libunwind.Dwarf.CfiReference

/-! # The interpreter refines the reference

Each instruction that the switch has a case for does to the register state what
the reference does to the row it stands for. Runs are compared from there.
-/

namespace Libunwind.Dwarf.Reference

open WhileLoop

variable {n w : Nat}

/-! ## Register states as rows -/

def RuleKind.ofWhere : Where → RuleKind
  | .undef => .undefined
  | .same => .sameValue
  | .cfarel => .offset
  | .reg => .register
  | .expr => .expression
  | .valExpr => .valExpression
  | .cfa => .isCfa

def RegRule.ofRule (rule : Rule w) : RegRule w := ⟨.ofWhere rule.how, rule.val⟩

/-- The row that a register state stands for. The `where` of the offset column
    is never read. -/
def Row.ofRegState (rs : RegState n w) : Row n w where
  returnColumn := rs.retAddrColumn
  cfaBase := .ofRule (rs.reg (cfaRegColumn n))
  cfaOffset := (rs.reg (cfaOffColumn n)).val
  reg r := .ofRule (rs.reg (regColumn r))

def State.ofCfi (s : CfiState n w) : State n w where
  loc := s.ip
  addr := s.addr
  row := .ofRegState s.sr.rsCurrent
  initial := .ofRegState s.sr.rsInitial
  stack := s.rsStack.map .ofRegState
  argsSize := s.sr.argsSize
  remembered := s.allocs

theorem ofRegState_setReg (rs : RegState n w) (r : Fin n) (how val) :
    Row.ofRegState (rs.set (regColumn r) ⟨how, val⟩) =
      (Row.ofRegState rs).setReg r (.ofWhere how) val := by
  have base : cfaRegColumn n ≠ regColumn r := (regColumn_ne_cfaReg r).symm
  have off : cfaOffColumn n ≠ regColumn r := (regColumn_ne_cfaOff r).symm
  simp only [Row.ofRegState, Row.setReg, RegState.set_retAddrColumn, rs.set_reg_other _ base,
    rs.set_reg_other _ off, Row.mk.injEq, true_and]
  funext other
  by_cases same : other = r
  · subst same
    simp [RegRule.ofRule]
  · have different : regColumn other ≠ regColumn r := fun h => same (regColumn_injective h)
    simp [rs.set_reg_other _ different, same]

theorem ofRegState_setBase (rs : RegState n w) (how val) :
    Row.ofRegState (rs.set (cfaRegColumn n) ⟨how, val⟩) =
      (Row.ofRegState rs).setBase (.ofWhere how) val := by
  have off : cfaOffColumn n ≠ cfaRegColumn n := (cfaReg_ne_cfaOff n).symm
  simp only [Row.ofRegState, Row.setBase, RegState.set_retAddrColumn, RegState.set_reg_same,
    rs.set_reg_other _ off, RegRule.ofRule, Row.mk.injEq, true_and]
  funext other
  rw [rs.set_reg_other _ (regColumn_ne_cfaReg other)]

theorem ofRegState_setOffset (rs : RegState n w) (how val) :
    Row.ofRegState (rs.set (cfaOffColumn n) ⟨how, val⟩) =
      { Row.ofRegState rs with cfaOffset := val } := by
  simp only [Row.ofRegState, RegState.set_retAddrColumn, RegState.set_reg_same,
    rs.set_reg_other _ (cfaReg_ne_cfaOff n), Row.mk.injEq, true_and]
  funext other
  rw [rs.set_reg_other _ (regColumn_ne_cfaOff other)]

namespace State

@[simp] theorem ofCfi_addr (s : CfiState n w) : (ofCfi s).addr = s.addr := rfl

@[simp] theorem ofCfi_at (s : CfiState n w) (addr) :
    ofCfi (s.at' addr) = { ofCfi s with addr } := rfl

@[simp] theorem ofCfi_advance (s : CfiState n w) (addr delta) :
    ofCfi (s.advance addr delta) = { ofCfi s with addr, loc := s.ip + delta } := rfl

@[simp] theorem ofCfi_setReg (s : CfiState n w) (addr) (r : Fin n) (how val) :
    ofCfi (s.setReg addr (regColumn r) how val) =
      { ofCfi s with addr, row := (ofCfi s).row.setReg r (.ofWhere how) val } := by
  simp only [ofCfi, CfiState.setReg, setReg_rsCurrent, setReg_rsInitial, setReg_argsSize,
    ofRegState_setReg]

@[simp] theorem ofCfi_setBase (s : CfiState n w) (addr how val) :
    ofCfi (s.setReg addr (cfaRegColumn n) how val) =
      { ofCfi s with addr, row := (ofCfi s).row.setBase (.ofWhere how) val } := by
  simp only [ofCfi, CfiState.setReg, setReg_rsCurrent, setReg_rsInitial, setReg_argsSize,
    ofRegState_setBase]

@[simp] theorem ofCfi_setOffset (s : CfiState n w) (addr how val) :
    ofCfi (s.setReg addr (cfaOffColumn n) how val) =
      { ofCfi s with addr, row := { (ofCfi s).row with cfaOffset := val } } := by
  simp only [ofCfi, CfiState.setReg, setReg_rsCurrent, setReg_rsInitial, setReg_argsSize,
    ofRegState_setOffset]

theorem ofCfi_restoreReg (s : CfiState n w) (addr) (r : Fin n) :
    ofCfi (s.restoreReg addr r) =
      { ofCfi s with
        addr, row := (ofCfi s).row.setReg r ((ofCfi s).initial.reg r).kind
          ((ofCfi s).initial.reg r).arg } := by
  rw [CfiState.restoreReg, ofCfi_setReg]
  rfl

theorem ofCfi_saveWindow (s : CfiState n w) (windowed : 32 ≤ n) :
    ofCfi s.saveWindow =
      { ofCfi s with
        row := { (ofCfi s).row with
          reg := fun r =>
            if 16 ≤ r.val ∧ r.val < 32 then ⟨.offset, BitVec.ofNat w ((r.val - 16) * (w / 8))⟩
            else (ofCfi s).row.reg r } } := by
  have base : ¬ (n < 32) := by omega
  have off : ¬ (n + 1 < 32) := by omega
  simp only [ofCfi, CfiState.saveWindow, Row.ofRegState, cfaRegColumn, cfaOffColumn, base, off,
    and_false, if_false, State.mk.injEq, Row.mk.injEq, true_and, and_true]
  funext r
  by_cases inside : 16 ≤ r.val ∧ r.val < 32 <;> simp [regColumn, inside, RegRule.ofRule]
  rfl

end State

/-! ## One instruction -/

/-- The reference's outcome matches the interpreter's: they refuse together, or
    reach corresponding states. -/
inductive Matches : Result (CfiState n w) → Result (State n w) → Prop where
  | done (s) : Matches (.ok s) (.ok (.ofCfi s))
  | refused (c d) : Matches (.error (.err c)) (.error (.err d))
  | fault (f) : Matches (.error f) (.error f)

theorem Matches.of_eq {s : CfiState n w} {t : State n w} (same : State.ofCfi s = t) :
    Matches (.ok s) (.ok t) := same ▸ .done s

theorem Matches.bind {α : Type} {reader : Result α} {rest : α → Result (CfiState n w)}
    {rest' : α → Result (State n w)} (next : ∀ a, Matches (rest a) (rest' a)) :
    Matches (reader >>= rest) (reader >>= rest') := by
  cases reader with
  | error f => exact .fault f
  | ok a => exact next a

/-- The location operand at `addr`, as the interpreter reads it. -/
def codeLocation (env : CfiEnv n w) (addr : Word w) : Result (Word w × Word w) :=
  readEncodedPointer env.as addr env.dci.fdeEncoding env.pi

/-- The number of an opcode that has a byte to itself. -/
def extendedByte : CfaOpcode → Option Byte
  | .advanceLoc | .offset | .restore => none
  | .nop => some 0x00
  | .setLoc => some 0x01
  | .advanceLoc1 => some 0x02
  | .advanceLoc2 => some 0x03
  | .advanceLoc4 => some 0x04
  | .offsetExtended => some 0x05
  | .restoreExtended => some 0x06
  | .undefined => some 0x07
  | .sameValue => some 0x08
  | .register => some 0x09
  | .rememberState => some 0x0a
  | .restoreState => some 0x0b
  | .defCfa => some 0x0c
  | .defCfaRegister => some 0x0d
  | .defCfaOffset => some 0x0e
  | .defCfaExpression => some 0x0f
  | .expression => some 0x10
  | .offsetExtendedSf => some 0x11
  | .defCfaSf => some 0x12
  | .defCfaOffsetSf => some 0x13
  | .valExpression => some 0x16
  | .loUser => some 0x1c
  | .mipsAdvanceLoc8 => some 0x1d
  | .gnuWindowSave => some 0x2d
  | .gnuArgsSize => some 0x2e
  | .gnuNegativeOffsetExtended => some 0x2f
  | .hiUser => some 0x3c

/-- The high two bits of an opcode that shares its byte with an operand. -/
def primaryBits : CfaOpcode → Option Nat
  | .advanceLoc => some 1
  | .offset => some 2
  | .restore => some 3
  | _ => none

theorem byte_of_opcode : ∀ byte : Byte,
    (CfaOpcode.ofByte (splitOpcode byte).1).all (fun op =>
      extendedByte op == some byte ||
        primaryBits op == some (byte >>> 6).toNat && (splitOpcode byte).2 == byte &&& 0x3f) := by
  decide

theorem extended_byte {byte : Byte} {op} (case : CfaOpcode.ofByte (splitOpcode byte).1 = some op)
    {code} (extended : extendedByte op = some code) : byte = code := by
  have known := byte_of_opcode byte
  rw [case] at known
  cases op <;> simp_all [extendedByte, primaryBits]

theorem primary_byte {byte : Byte} {op} (case : CfaOpcode.ofByte (splitOpcode byte).1 = some op)
    {bits} (primary : primaryBits op = some bits) :
    (byte >>> 6).toNat = bits ∧ (splitOpcode byte).2 = byte &&& 0x3f := by
  have known := byte_of_opcode byte
  rw [case] at known
  cases op <;> simp_all [extendedByte, primaryBits]

/-- What the reference does about a byte, its operands at the state's address. -/
def stepByte (env : CfiEnv n w) (byte : Byte) (s : State n w) : Result (State n w) :=
  match encodingOf env.target byte with
  | none => .error (.err .inval)
  | some encoding => do
      let (instr, addr) ← encoding.operands env s.addr
      exec env instr { s with addr }

theorem step_eq (env : CfiEnv n w) (s : State n w) :
    step env s = (do
      let (byte, addr) ← readu8 env.as s.addr
      stepByte env byte { s with addr }) := rfl

theorem stepByte_plain {env : CfiEnv n w} {byte} (instr) (s : State n w)
    (entry : encodingOf env.target byte = some (.plain instr)) :
    stepByte env byte s = exec env instr s := by
  rw [stepByte, entry]
  rfl

theorem stepByte_one {env : CfiEnv n w} {byte} (form) (instr) (s : State n w)
    (entry : encodingOf env.target byte = some (.one form instr)) :
    stepByte env byte s = (do
      let (value, addr) ← form.read env s.addr
      exec env (instr value) { s with addr }) := by
  rw [stepByte, entry]
  simp only [Encoding.operands, bind_assoc, pure_bind]

theorem stepByte_two {env : CfiEnv n w} {byte} (first second instr) (s : State n w)
    (entry : encodingOf env.target byte = some (.two first second instr)) :
    stepByte env byte s = (do
      let (a, addr) ← first.read env s.addr
      let (b, addr) ← second.read env addr
      exec env (instr a b) { s with addr }) := by
  rw [stepByte, entry]
  simp only [Encoding.operands, bind_assoc, pure_bind]

open State in
/-- An opcode that has a case acts as its table entry says. -/
theorem cfiExec_matches (env : CfiEnv n w) (s : CfiState n w) {byte op}
    (case : CfaOpcode.ofByte (splitOpcode byte).1 = some op)
    (location : byte = 0x01 →
      codeLocation env s.addr = readLocation env.as s.addr env.dci.fdeEncoding env.pi) :
    Matches (cfiExec env op ((splitOpcode byte).2.setWidth w) s)
      (stepByte env byte (.ofCfi s)) := by
  have extended {code} (known : extendedByte op = some code) : byte = code :=
    extended_byte case known
  have primary {bits} (known : primaryBits op = some bits) :
      (byte >>> 6).toNat = bits ∧ (splitOpcode byte).2 = byte &&& 0x3f :=
    primary_byte case known
  cases op with
  | advanceLoc =>
      obtain ⟨high, low⟩ := primary rfl
      rw [low, stepByte_plain (.advanceLoc ((byte &&& 0x3f).setWidth w)) _
        (by simp [encodingOf, high])]
      exact .of_eq rfl
  | offset =>
      obtain ⟨high, low⟩ := primary rfl
      rw [low]
      by_cases valid : ((byte &&& 0x3f).setWidth w).toNat < n
      · rw [stepByte_one .uleb (.offset ⟨_, valid⟩) _
          (by simp only [encodingOf, high, dif_pos valid])]
        simp only [cfiExec, dif_pos valid]
        exact .bind fun ⟨val, addr⟩ => .of_eq (ofCfi_setReg ..)
      · simp only [cfiExec, dif_neg valid, stepByte, encodingOf, high]
        exact .refused _ _
  | restore =>
      obtain ⟨high, low⟩ := primary rfl
      rw [low]
      by_cases valid : ((byte &&& 0x3f).setWidth w).toNat < n
      · rw [stepByte_plain (.restore ⟨_, valid⟩) _
          (by simp only [encodingOf, high, dif_pos valid])]
        simp only [cfiExec, dif_pos valid]
        exact .of_eq (ofCfi_restoreReg ..)
      · simp only [cfiExec, dif_neg valid, stepByte, encodingOf, high]
        exact .refused _ _
  | nop =>
      rw [extended rfl, stepByte_plain _ _ rfl]
      exact .of_eq rfl
  | setLoc =>
      rw [extended rfl, stepByte_one _ _ _ rfl]
      simp only [cfiExec, Form.read]
      rw [ofCfi_addr, ← location (extended rfl)]
      exact .bind fun ⟨ip, addr⟩ => .of_eq rfl
  | advanceLoc1 | advanceLoc2 | advanceLoc4 =>
      rw [extended rfl, stepByte_one _ _ _ rfl]
      simp only [Form.read, bind_assoc, pure_bind]
      exact .bind fun ⟨delta, addr⟩ => .of_eq rfl
  | mipsAdvanceLoc8 =>
      rw [extended rfl]
      cases mips : env.target.mips with
      | false =>
          simp only [cfiExec, mips, stepByte, encodingOf]
          exact .refused _ _
      | true =>
          rw [stepByte_one .data8 .advanceLoc _
            (by simp [encodingOf, mips])]
          simp only [cfiExec, mips, if_true, Form.read, bind_assoc, pure_bind]
          exact .bind fun ⟨delta, addr⟩ => .of_eq rfl
  | offsetExtended | offsetExtendedSf | register =>
      rw [extended rfl, stepByte_two _ _ _ _ rfl]
      exact .bind fun ⟨r, addr⟩ => .bind fun ⟨val, addr⟩ => .of_eq (ofCfi_setReg ..)
  | gnuNegativeOffsetExtended =>
      rw [extended rfl, stepByte_two _ _ _ _ rfl]
      refine .bind fun ⟨r, addr⟩ => .bind fun ⟨val, addr⟩ => .of_eq ?_
      have negated : ~~~(val * env.dci.dataAlign) + 1 = -(val * env.dci.dataAlign) :=
        (BitVec.neg_eq_not_add _).symm
      rw [ofCfi_setReg, negated]
      rfl
  | restoreExtended =>
      rw [extended rfl, stepByte_one _ _ _ rfl]
      simp only [cfiExec, Form.read, readRegnum, ofCfi_addr]
      cases readUleb128 env.as s.addr with
      | error f => exact .fault f
      | ok number =>
          obtain ⟨val, addr⟩ := number
          by_cases valid : val.toNat < n
          · simp only [ok_bind, dif_pos valid]
            exact .of_eq (ofCfi_restoreReg ..)
          · simp only [ok_bind, dif_neg valid]
            exact .refused _ _
  | undefined | sameValue =>
      rw [extended rfl, stepByte_one _ _ _ rfl]
      exact .bind fun ⟨r, addr⟩ => .of_eq (ofCfi_setReg ..)
  | rememberState =>
      rw [extended rfl, stepByte_plain _ _ rfl]
      cases room : env.pool s.allocs with
      | true =>
          simp only [cfiExec, exec, ofCfi, room, if_true]
          exact .of_eq rfl
      | false =>
          simp only [cfiExec, exec, ofCfi, room]
          exact .refused _ _
  | restoreState =>
      rw [extended rfl, stepByte_plain _ _ rfl]
      simp only [cfiExec, exec, ofCfi]
      cases stack : s.rsStack with
      | nil => exact .refused _ _
      | cons saved rest => exact .of_eq rfl
  | defCfa | defCfaSf =>
      rw [extended rfl, stepByte_two _ _ _ _ rfl]
      refine .bind fun ⟨r, addr⟩ => .bind fun ⟨val, addr⟩ => .of_eq ?_
      rw [ofCfi_setOffset, ofCfi_setBase]
      rfl
  | defCfaRegister =>
      rw [extended rfl, stepByte_one _ _ _ rfl]
      exact .bind fun ⟨r, addr⟩ => .of_eq (ofCfi_setBase ..)
  | defCfaOffset | defCfaOffsetSf =>
      rw [extended rfl, stepByte_one _ _ _ rfl]
      exact .bind fun ⟨val, addr⟩ => .of_eq (ofCfi_setOffset ..)
  | defCfaExpression =>
      rw [extended rfl, stepByte_one _ _ _ rfl]
      simp only [Form.read, bind_assoc, pure_bind]
      exact .bind fun ⟨len, addr⟩ => .of_eq (ofCfi_setBase ..)
  | expression | valExpression =>
      rw [extended rfl, stepByte_two _ _ _ _ rfl]
      simp only [Form.read, bind_assoc, pure_bind]
      exact .bind fun ⟨r, block⟩ => .bind fun ⟨len, addr⟩ => .of_eq (ofCfi_setReg ..)
  | gnuArgsSize =>
      rw [extended rfl, stepByte_one _ _ _ rfl]
      exact .bind fun ⟨val, addr⟩ => .of_eq rfl
  | gnuWindowSave =>
      rw [extended rfl]
      cases save : env.target.windowSave with
      | sparc windowed =>
          rw [stepByte_plain .saveWindow _ (by simp [encodingOf, save])]
          simp only [cfiExec, save]
          exact .of_eq (ofCfi_saveWindow s windowed)
      | aarch64 r =>
          rw [stepByte_plain (.negateRaState r) _ (by simp [encodingOf, save])]
          simp only [cfiExec, save]
          exact .of_eq (ofCfi_setReg ..)
      | unexpected =>
          simp only [cfiExec, save, stepByte, encodingOf]
          exact .refused _ _
  | loUser | hiUser =>
      rw [extended rfl]
      exact .refused _ _

/-! ## Whole runs -/

/-- Unless the interpreter refuses, its outcome is the reference's. -/
def Agrees (code : Result (CfiState n w)) (reference : Result (State n w)) : Prop :=
  IsNegative code ∨ code ≠ .error .undefined ∧ reference = code.map .ofCfi

/-- The byte at the address is an opcode that the switch has no case for. -/
def Unhandled (env : CfiEnv n w) (addr : Word w) : Prop :=
  ∃ byte, env.as.readByte addr = .ok byte ∧ CfaOpcode.ofByte (splitOpcode byte).1 = none

/-- At the address is a `DW_CFA_set_loc` whose location the pointer reader does
    not read as the format says. -/
def locationMisread (env : CfiEnv n w) (addr : Word w) : Bool :=
  env.as.readByte addr = .ok 0x01 ∧
    codeLocation env (addr + 1) ≠
      readLocation env.as (addr + 1) env.dci.fdeEncoding env.pi

/-- `run_cfi_program` implements the instruction set on this input: what it
    leaves is what the reference leaves, each instruction it executes on the way
    is the reference's, and it refuses every opcode that it does not support. -/
structure Implements (env : CfiEnv n w) (endIp endAddr : Word w) (s : CfiState n w) : Prop where
  result : ∀ budget,
    Agrees (runCfiProgram env budget endIp endAddr s) (run env budget endIp endAddr (.ofCfi s))
  decodes : ∀ u, Reaches (cfiGuard endIp endAddr) (cfiStep env) s u →
    cfiGuard endIp endAddr u = true → Agrees (cfiStep env u) (step env (.ofCfi u))
  refuses : ∀ u, Reaches (cfiGuard endIp endAddr) (cfiStep env) s u →
    cfiGuard endIp endAddr u = true → Unhandled env u.addr → IsNegative (cfiStep env u)

/-- The reference meets no unhandled opcode, no misread location that the pointer
    reader lets pass, and no number wider than a word. -/
def Decodable (env : CfiEnv n w) (endIp endAddr : Word w) (s : State n w) : Prop :=
  ∀ t, Reaches (fun t => guard endIp endAddr t && !locationMisread env t.addr) (step env) s t →
    guard endIp endAddr t = true →
      ¬ Unhandled env t.addr ∧
        if locationMisread env t.addr then IsNegative (codeLocation env (t.addr + 1))
        else step env t ≠ .error .undefined

/-- The opcodes that the switch has no case for: those of `DW_CFA_val_offset` and
    `DW_CFA_val_offset_sf`, and the reserved and unassigned ones. -/
theorem unhandled_opcodes : ∀ byte : Byte,
    CfaOpcode.ofByte (splitOpcode byte).1 = none ↔
      byte = 0x14 ∨ byte = 0x15 ∨ (0x17 ≤ byte ∧ byte ≤ 0x1b) ∨ (0x1e ≤ byte ∧ byte ≤ 0x2c) ∨
        (0x30 ≤ byte ∧ byte ≤ 0x3b) ∨ (0x3d ≤ byte ∧ byte ≤ 0x3f) := by
  decide

theorem cfiStep_unhandled {env : CfiEnv n w} {u : CfiState n w} (unhandled : Unhandled env u.addr) :
    cfiStep env u = .ok (u.at' (u.addr + 1)) := by
  obtain ⟨byte, stored, missing⟩ := unhandled
  simp [cfiStep, readu8_byte stored, missing]

theorem cfiStep_matches {env : CfiEnv n w} {u : CfiState n w}
    (handled : ¬ Unhandled env u.addr) (plain : locationMisread env u.addr = false) :
    Matches (cfiStep env u) (step env (.ofCfi u)) := by
  rw [step_eq, State.ofCfi_addr]
  cases stored : env.as.readByte u.addr with
  | error code =>
      rw [cfiStep, readu8_fails stored]
      exact .fault _
  | ok byte =>
      cases case : CfaOpcode.ofByte (splitOpcode byte).1 with
      | none => exact absurd ⟨byte, stored, case⟩ handled
      | some op =>
          rw [cfiStep_case stored case, readu8_byte stored, ok_bind]
          refine cfiExec_matches env (u.at' (u.addr + 1)) case fun setLoc => ?_
          subst setLoc
          simpa [locationMisread, stored, CfiState.at'] using plain

/-- A misread location goes through the case of `DW_CFA_set_loc`. -/
theorem cfiStep_misread {env : CfiEnv n w} {u : CfiState n w}
    (misread : locationMisread env u.addr = true) :
    cfiStep env u = (do
      let (ip, addr) ← codeLocation env (u.addr + 1)
      pure { u with ip, addr }) ∧
    step env (.ofCfi u) = (do
      let (loc, addr) ← readLocation env.as (u.addr + 1) env.dci.fdeEncoding env.pi
      pure { State.ofCfi u with loc, addr }) := by
  have stored : env.as.readByte u.addr = .ok 0x01 := by
    simp only [locationMisread, decide_eq_true_eq] at misread
    exact misread.1
  constructor
  · rw [cfiStep, readu8_byte stored]
    rfl
  · rw [step_eq, State.ofCfi_addr, readu8_byte stored, ok_bind]
    exact stepByte_one .location .setLoc _ rfl

theorem agrees_of_matches {code : Result (CfiState n w)} {reference : Result (State n w)}
    (matched : Matches code reference) (defined : reference ≠ .error .undefined) :
    Agrees code reference := by
  cases matched with
  | done s => exact .inr ⟨nofun, rfl⟩
  | refused c d => exact .inl ⟨c, rfl⟩
  | fault f => exact .inr ⟨fun same => defined (by rw [Except.error.inj same]), rfl⟩

section Decodable

variable {env : CfiEnv n w} {endIp endAddr : Word w} {s : CfiState n w}

/-- On decodable input the reference reaches what the interpreter reaches. -/
theorem reaches_of_decodable (decodable : Decodable env endIp endAddr (.ofCfi s)) {u}
    (path : Reaches (cfiGuard endIp endAddr) (cfiStep env) s u) :
    Reaches (fun t => guard endIp endAddr t && !locationMisread env t.addr) (step env)
      (.ofCfi s) (.ofCfi u) := by
  have keep : ∀ a b : CfiState n w,
      Reaches (fun t => guard endIp endAddr t && !locationMisread env t.addr) (step env)
        (.ofCfi s) (.ofCfi a) →
      cfiGuard endIp endAddr a = true → cfiStep env a = .ok b →
      Reaches (fun t => guard endIp endAddr t && !locationMisread env t.addr) (step env)
        (.ofCfi s) (.ofCfi b) := by
    intro a b known enter round
    obtain ⟨handled, meant⟩ := decodable _ known enter
    cases misread : locationMisread env a.addr with
    | true =>
        rw [State.ofCfi_addr, if_pos misread] at meant
        obtain ⟨code, refused⟩ := meant
        rw [(cfiStep_misread misread).1, refused] at round
        exact nomatch round
    | false =>
        have matched := cfiStep_matches handled misread
        rw [round] at matched
        generalize next : step env (.ofCfi a) = outcome at matched
        cases matched
        have inside : guard endIp endAddr (.ofCfi a) = true := enter
        exact known.snoc (by simp [inside, misread]) next
  exact path.invariant (fun u => Reaches _ _ _ (State.ofCfi u)) keep (.refl _)

theorem agrees_of_decodable (decodable : Decodable env endIp endAddr (.ofCfi s)) {u}
    (path : Reaches (cfiGuard endIp endAddr) (cfiStep env) s u)
    (enter : cfiGuard endIp endAddr u = true) : Agrees (cfiStep env u) (step env (.ofCfi u)) := by
  obtain ⟨handled, meant⟩ := decodable _ (reaches_of_decodable decodable path) enter
  cases misread : locationMisread env u.addr with
  | true =>
      rw [State.ofCfi_addr, if_pos misread] at meant
      obtain ⟨code, refused⟩ := meant
      exact .inl ⟨code, by rw [(cfiStep_misread misread).1, refused]; rfl⟩
  | false =>
      rw [State.ofCfi_addr, misread] at meant
      exact agrees_of_matches (cfiStep_matches handled misread) meant

theorem implements_of_decodable (decodable : Decodable env endIp endAddr (.ofCfi s)) :
    Implements env endIp endAddr s where
  result budget := by
    have rounds : ∀ u, Reaches (cfiGuard endIp endAddr) (cfiStep env) s u →
        cfiGuard endIp endAddr u = true →
        (∃ e, cfiStep env u = .error e ∧ ∃ code, e = .err code) ∨
          step env (.ofCfi u) = (cfiStep env u).map .ofCfi := by
      intro u path enter
      rcases agrees_of_decodable decodable path enter with ⟨code, refused⟩ | ⟨_, same⟩
      · exact .inl ⟨_, refused, code, rfl⟩
      · exact .inr same
    have guards : ∀ u : CfiState n w, guard endIp endAddr (.ofCfi u) = cfiGuard endIp endAddr u :=
      fun _ => rfl
    have whole : (∃ e, runCfiProgram env budget endIp endAddr s = .error e ∧ ∃ code, e = .err code) ∨
        run env budget endIp endAddr (.ofCfi s) =
          (runCfiProgram env budget endIp endAddr s).map .ofCfi :=
      run_refines guards rounds budget
    rcases whole with ⟨_, refused, code, rfl⟩ | same
    · exact .inl ⟨code, refused⟩
    · by_cases undefined : runCfiProgram env budget endIp endAddr s = .error .undefined
      · rcases run_error undefined with late | ⟨u, path, enter, fails⟩
        · exact nomatch late
        · rcases agrees_of_decodable decodable path enter with ⟨code, refused⟩ | ⟨defined, _⟩
          · rw [fails] at refused
            exact nomatch refused
          · exact absurd fails defined
      · exact .inr ⟨undefined, same⟩
  decodes _ path enter := agrees_of_decodable decodable path enter
  refuses _ path enter unhandled :=
    absurd unhandled (decodable _ (reaches_of_decodable decodable path) enter).1

theorem handled_of_implements (implements' : Implements env endIp endAddr s) {u}
    (reached : Reaches (cfiGuard endIp endAddr) (cfiStep env) s u)
    (inside : cfiGuard endIp endAddr u = true) : ¬ Unhandled env u.addr := by
  intro unhandled
  obtain ⟨code, refused⟩ := implements'.refuses u reached inside unhandled
  rw [cfiStep_unhandled unhandled] at refused
  exact nomatch refused

/-- Where the instruction set is implemented, the interpreter reaches what the
    reference reaches. -/
theorem reaches_of_implements (implements' : Implements env endIp endAddr s) {t}
    (path : Reaches (fun t => guard endIp endAddr t && !locationMisread env t.addr) (step env)
      (.ofCfi s) t) :
    ∃ u, Reaches (cfiGuard endIp endAddr) (cfiStep env) s u ∧ State.ofCfi u = t := by
  have keep : ∀ a b : State n w,
      (∃ u, Reaches (cfiGuard endIp endAddr) (cfiStep env) s u ∧ State.ofCfi u = a) →
      (guard endIp endAddr a && !locationMisread env a.addr) = true → step env a = .ok b →
      ∃ u, Reaches (cfiGuard endIp endAddr) (cfiStep env) s u ∧ State.ofCfi u = b := by
    rintro _ b ⟨u, reached, rfl⟩ enter round
    simp only [Bool.and_eq_true, Bool.not_eq_true', State.ofCfi_addr] at enter
    have inside : cfiGuard endIp endAddr u = true := enter.1
    have matched := cfiStep_matches (handled_of_implements implements' reached inside) enter.2
    rw [round] at matched
    generalize next : cfiStep env u = outcome at matched
    cases matched with
    | done u' => exact ⟨u', reached.snoc inside next, rfl⟩
  exact path.invariant (fun t => ∃ u, Reaches _ _ s u ∧ State.ofCfi u = t) keep ⟨s, .refl s, rfl⟩

theorem decodable_of_implements (implements' : Implements env endIp endAddr s) :
    Decodable env endIp endAddr (.ofCfi s) := by
  intro t path enter
  obtain ⟨u, reached, rfl⟩ := reaches_of_implements implements' path
  have inside : cfiGuard endIp endAddr u = true := enter
  have handled := handled_of_implements implements' reached inside
  have agrees := implements'.decodes u reached inside
  refine ⟨handled, ?_⟩
  rw [State.ofCfi_addr]
  cases misread : locationMisread env u.addr with
  | true =>
      have differs : codeLocation env (u.addr + 1) ≠
          readLocation env.as (u.addr + 1) env.dci.fdeEncoding env.pi := by
        simp only [locationMisread, decide_eq_true_eq] at misread
        exact misread.2
      obtain ⟨code, reference⟩ := cfiStep_misread misread
      rw [code, reference] at agrees
      simp only [if_true]
      cases reading : codeLocation env (u.addr + 1) with
      | ok location =>
          rw [reading] at agrees differs
          rcases agrees with ⟨code, refused⟩ | ⟨-, same⟩
          · exact nomatch refused
          · cases meant : readLocation env.as (u.addr + 1) env.dci.fdeEncoding env.pi with
            | error f => rw [meant] at same; exact nomatch same
            | ok location' =>
                rw [meant] at same differs
                have fields := Except.ok.inj same
                simp only [State.ofCfi, State.mk.injEq] at fields
                exact absurd (congrArg Except.ok (Prod.ext fields.1.symm fields.2.1.symm)) differs
      | error f =>
          rw [reading] at agrees differs
          rcases agrees with ⟨code, refused⟩ | ⟨defined, same⟩
          · exact ⟨code, by rw [Except.error.inj refused]⟩
          · cases meant : readLocation env.as (u.addr + 1) env.dci.fdeEncoding env.pi with
            | error f' =>
                rw [meant] at same differs
                exact absurd (congrArg Except.error (Except.error.inj same).symm) differs
            | ok location' => rw [meant] at same; exact nomatch same
  | false =>
      have matched := cfiStep_matches handled misread
      intro undefined
      rw [undefined] at matched
      generalize next : cfiStep env u = outcome at matched
      cases matched with
      | fault =>
          rw [next] at agrees
          rcases agrees with ⟨code, refused⟩ | ⟨defined, -⟩
          · exact nomatch refused
          · exact defined rfl

end Decodable

/-- `run_cfi_program` implements the instruction set exactly on the inputs that
    are decodable without the opcodes it has no case for. -/
theorem runCfiProgram_implements_iff (env : CfiEnv n w) (endIp endAddr : Word w)
    (s : CfiState n w) :
    Implements env endIp endAddr s ↔ Decodable env endIp endAddr (.ofCfi s) :=
  ⟨decodable_of_implements, implements_of_decodable⟩

/-- `DW_CFA_val_offset r6, 2`. -/
def valOffsetProgram : CfiEnv 17 64 where
  target := { sp := 7 }
  cursorSpace := spaceOfBytes 64 [0x14, 0x06, 0x02]
  localSpace := spaceOfBytes 64 []
  pi := {}
  dci := { codeAlign := 1, dataAlign := -8 }

/-- The opcode is skipped, and its operands are run as `DW_CFA_restore_extended r2`. -/
theorem valOffsetProgram_not_implemented :
    ¬ Implements valOffsetProgram 0 3 { ip := 0, addr := 0, sr := {} } := by
  intro implements'
  have left : (runCfiProgram valOffsetProgram 3 0 3 { ip := 0, addr := 0, sr := {} }).map
      (fun s => (State.ofCfi s).row.reg 6) = .ok ⟨.undefined, 0⟩ := rfl
  have meant : (run valOffsetProgram 3 0 3 (.ofCfi { ip := 0, addr := 0, sr := {} })).map
      (fun s => s.row.reg 6) = .ok ⟨.valOffset, -16⟩ := rfl
  rcases implements'.result 3 with ⟨code, refused⟩ | ⟨-, same⟩
  · rw [refused] at left
    exact nomatch left
  · rw [same] at meant
    generalize runCfiProgram valOffsetProgram 3 0 3 _ = outcome at left meant
    cases outcome with
    | error f => exact nomatch left
    | ok s =>
        have clash := (Except.ok.inj left).symm.trans (Except.ok.inj meant)
        exact absurd clash (by decide)

end Libunwind.Dwarf.Reference
