import Libunwind.Dwarf.CfiProgram
import Libunwind.Dwarf.ReadLength

/-! # Progress of the call-frame interpreter

Each round of `run_cfi_program` advances by the length of an instruction. The length of an
expression's block is read from the instruction itself, and the sum wraps.
-/

namespace Libunwind.Dwarf

variable {n w : Nat}

/-- The bytes of a block: its length, and as many more. -/
def blockLength (as : AddrSpace w) (addr : Word w) : Nat :=
  match readUleb128 as addr with
  | .ok (len, _) => operandLength as addr + len.toNat
  | .error _ => 0

/-- The bytes of two operands, of which the first is a LEB128 number. -/
def afterFirst (as : AddrSpace w) (second : Word w → Nat) (addr : Word w) : Nat :=
  let first := operandLength as addr
  first + second (addr + BitVec.ofNat w first)

/-- The bytes of the operands that an opcode reads. -/
def CfaOpcode.operandsLength (env : CfiEnv n w) (addr : Word w) : CfaOpcode → Nat
  | .advanceLoc | .restore | .nop | .rememberState | .restoreState | .gnuWindowSave => 0
  | .loUser | .hiUser => 0
  | .advanceLoc1 => 1
  | .advanceLoc2 => 2
  | .advanceLoc4 => 4
  | .mipsAdvanceLoc8 => 8
  | .setLoc => pointerLength env.as addr env.dci.fdeEncoding
  | .offset | .restoreExtended | .undefined | .sameValue | .defCfaRegister | .defCfaOffset
  | .defCfaOffsetSf | .gnuArgsSize => operandLength env.as addr
  | .offsetExtended | .offsetExtendedSf | .register | .defCfa | .defCfaSf
  | .gnuNegativeOffsetExtended => afterFirst env.as (operandLength env.as) addr
  | .defCfaExpression => blockLength env.as addr
  | .expression | .valExpression => afterFirst env.as (blockLength env.as) addr

/-- The bytes of the instruction at an address. -/
def cfiLength (env : CfiEnv n w) (addr : Word w) : Nat :=
  match env.as.readByte addr with
  | .ok byte =>
      match CfaOpcode.ofByte (splitOpcode byte).1 with
      | some op => 1 + op.operandsLength env (addr + 1)
      | none => 1
  | .error _ => 0

/-- The round ends `length` bytes behind `addr`. -/
def Advances (length : Nat) (addr : Word w) (r : Result (CfiState n w)) : Prop :=
  ∀ s, r = .ok s → s.addr = addr + BitVec.ofNat w length

section Advances

variable {length : Nat} {addr : Word w} {r : Result (CfiState n w)}

theorem Advances.error {e : Fault} : Advances length addr (.error e : Result (CfiState n w)) := by
  intro s same
  cases same

theorem Advances.ok {s : CfiState n w} (same : s.addr = addr + BitVec.ofNat w length) :
    Advances length addr (.ok s) := by
  intro t ended
  cases ended
  exact same

/-- The last operand is read. -/
theorem Advances.stop {s : CfiState n w} (same : s.addr = addr) : Advances 0 addr (.ok s) :=
  .ok (by simp [same])

theorem Advances.bind {α : Type} {first : Result (α × Word w)} {more : Nat}
    {rest : α × Word w → Result (CfiState n w)} (takes : Takes length addr first)
    (later : ∀ a, first = .ok (a, addr + BitVec.ofNat w length) →
      Advances more (addr + BitVec.ofNat w length) (rest (a, addr + BitVec.ofNat w length))) :
    Advances (length + more) addr (first >>= rest) := by
  intro s ended
  obtain ⟨⟨a, between⟩, start, last⟩ := bind_eq_ok.mp ended
  cases takes a between start
  rw [later a start s last, BitVec.add_assoc, BitVec.ofNat_add]

/-- The last operand is read. -/
theorem Advances.last {α : Type} {first : Result (α × Word w)}
    {rest : α × Word w → Result (CfiState n w)} (takes : Takes length addr first)
    (stops : ∀ a next, ∃ s, rest (a, next) = .ok s ∧ s.addr = next) :
    Advances length addr (first >>= rest) := by
  intro s ended
  obtain ⟨⟨a, next⟩, start, last⟩ := bind_eq_ok.mp ended
  obtain ⟨s', same, addr⟩ := stops a next
  cases same.symm.trans last
  rw [addr]
  exact takes a next start

theorem Advances.dite {p : Prop} [Decidable p] {first : p → Result (CfiState n w)}
    {second : ¬ p → Result (CfiState n w)} (left : ∀ h, Advances length addr (first h))
    (right : ∀ h, Advances length addr (second h)) :
    Advances length addr (if h : p then first h else second h) := by
  by_cases holds : p
  · rw [dif_pos holds]
    exact left holds
  · rw [dif_neg holds]
    exact right holds

/-- A block, whose bytes are not looked at. -/
theorem Advances.block {as : AddrSpace w} {rest : Word w × Word w → Result (CfiState n w)}
    (skips : ∀ len next, ∃ s, rest (len, next) = .ok s ∧ s.addr = next + len) :
    Advances (blockLength as addr) addr (readUleb128 as addr >>= rest) := by
  intro s ended
  obtain ⟨⟨len, next⟩, start, last⟩ := bind_eq_ok.mp ended
  obtain ⟨s', same, skipped⟩ := skips len next
  cases same.symm.trans last
  rw [skipped, readUleb128_takes addr len next start]
  simp [blockLength, start, BitVec.ofNat_add, BitVec.add_assoc]

end Advances

theorem readRegnum_takes {as : AddrSpace w} (addr : Word w) :
    Takes (operandLength as addr) addr (readRegnum n as addr) := by
  intro r next read
  obtain ⟨⟨val, after⟩, leb, read⟩ := bind_eq_ok.mp read
  by_cases valid : val.toNat < n
  · simp only [valid, dite_true] at read
    cases read
    exact readUleb128_takes addr val _ leb
  · simp [valid] at read

section Exec

variable (env : CfiEnv n w) (operand : Word w) (s : CfiState n w)

theorem cfiExec_advances (op : CfaOpcode) :
    Advances (op.operandsLength env s.addr) s.addr (cfiExec env op operand s) := by
  -- the last operand is followed by a change of the registers alone
  have leb (rest : Word w × Word w → CfiState n w) (addr : Word w)
      (stops : ∀ read, (rest read).addr = read.2) :
      Advances (operandLength env.as addr) addr
        (readUleb128 env.as addr >>= fun read => .ok (rest read)) :=
    .last (readUleb128_takes addr) fun val next => ⟨_, rfl, stops (val, next)⟩
  have sleb (rest : Word w × Word w → CfiState n w) (addr : Word w)
      (stops : ∀ read, (rest read).addr = read.2) :
      Advances (operandLength env.as addr) addr
        (readSleb128 env.as addr >>= fun read => .ok (rest read)) :=
    .last (readSleb128_takes addr) fun val next => ⟨_, rfl, stops (val, next)⟩
  have column (rest : Fin n × Word w → CfiState n w) (addr : Word w)
      (stops : ∀ read, (rest read).addr = read.2) :
      Advances (operandLength env.as addr) addr
        (readRegnum n env.as addr >>= fun read => .ok (rest read)) :=
    .last (readRegnum_takes addr) fun r next => ⟨_, rfl, stops (r, next)⟩
  cases op with
  | advanceLoc => exact .stop rfl
  | nop => exact .stop rfl
  | loUser => exact .error
  | hiUser => exact .error
  | advanceLoc1 => exact .last (readu8_takes _) fun _ _ => ⟨_, rfl, rfl⟩
  | advanceLoc2 => exact .last (readu16_takes _) fun _ _ => ⟨_, rfl, rfl⟩
  | advanceLoc4 => exact .last (readu32_takes _) fun _ _ => ⟨_, rfl, rfl⟩
  | mipsAdvanceLoc8 =>
      rw [cfiExec]
      by_cases mips : env.target.mips = true
      · rw [if_pos mips]
        exact .last (readu64_takes _) fun _ _ => ⟨_, rfl, rfl⟩
      · rw [if_neg mips]
        exact .error
  | offset =>
      rw [cfiExec]
      exact .dite (fun _ => leb _ _ fun _ => rfl) fun _ => .error
  | restore =>
      rw [cfiExec]
      exact .dite (fun _ => .stop rfl) fun _ => .error
  | setLoc => exact .last (readEncodedPointer_takes _ _ _) fun _ _ => ⟨_, rfl, rfl⟩
  | offsetExtended => exact .bind (readRegnum_takes _) fun _ _ => leb _ _ fun _ => rfl
  | offsetExtendedSf => exact .bind (readRegnum_takes _) fun _ _ => sleb _ _ fun _ => rfl
  | register => exact .bind (readRegnum_takes _) fun _ _ => leb _ _ fun _ => rfl
  | defCfa => exact .bind (readRegnum_takes _) fun _ _ => leb _ _ fun _ => rfl
  | defCfaSf => exact .bind (readRegnum_takes _) fun _ _ => sleb _ _ fun _ => rfl
  | gnuNegativeOffsetExtended =>
      exact .bind (readRegnum_takes _) fun _ _ => leb _ _ fun _ => rfl
  | restoreExtended =>
      have both : Advances (operandLength env.as s.addr + 0) s.addr
          (cfiExec env .restoreExtended operand s) :=
        .bind (readUleb128_takes _) fun _ _ => .dite (fun _ => .stop rfl) fun _ => .error
      exact both
  | undefined => exact column _ _ fun _ => rfl
  | sameValue => exact column _ _ fun _ => rfl
  | defCfaRegister => exact column _ _ fun _ => rfl
  | defCfaOffset => exact leb _ _ fun _ => rfl
  | defCfaOffsetSf => exact sleb _ _ fun _ => rfl
  | gnuArgsSize => exact leb _ _ fun _ => rfl
  | rememberState =>
      rw [cfiExec]
      by_cases room : env.pool s.allocs = true
      · rw [if_pos room]
        exact .stop rfl
      · rw [if_neg room]
        exact .error
  | restoreState =>
      rw [cfiExec]
      cases s.rsStack with
      | nil => exact .error
      | cons saved rest => exact .stop rfl
  | gnuWindowSave =>
      rw [cfiExec]
      cases env.target.windowSave with
      | sparc windowed => exact .stop rfl
      | aarch64 r => exact .stop rfl
      | unexpected => exact .error
  | defCfaExpression => exact .block fun _ _ => ⟨_, rfl, rfl⟩
  | expression => exact .bind (readRegnum_takes _) fun _ _ => .block fun _ _ => ⟨_, rfl, rfl⟩
  | valExpression => exact .bind (readRegnum_takes _) fun _ _ => .block fun _ _ => ⟨_, rfl, rfl⟩

/-- A round goes on by the length of its instruction. -/
theorem cfiStep_advances : Advances (cfiLength env s.addr) s.addr (cfiStep env s) := by
  rw [cfiLength, cfiStep]
  cases stored : env.as.readByte s.addr with
  | error code =>
      rw [readu8_fails stored]
      exact .error
  | ok byte =>
      rw [readu8_byte stored, ok_bind]
      simp only
      cases case : CfaOpcode.ofByte (splitOpcode byte).1 with
      | none => exact .ok rfl
      | some op =>
          intro t ended
          rw [cfiExec_advances env _ (s.at' (s.addr + 1)) op t ended]
          simp only [CfiState.at', BitVec.ofNat_add, BitVec.add_assoc]
          rfl

end Exec

/-! ## Termination -/

/-- The instruction at an address ends behind it: it does not run past the end of the address
    space. -/
def Fits (env : CfiEnv n w) (addr : Word w) : Prop :=
  cfiLength env addr % 2 ^ w ≠ 0 ∧ addr.toNat + cfiLength env addr % 2 ^ w < 2 ^ w

theorem lt_add_iff {addr : Word w} {length : Nat} : addr < addr + BitVec.ofNat w length ↔
    length % 2 ^ w ≠ 0 ∧ addr.toNat + length % 2 ^ w < 2 ^ w := by
  have small := addr.isLt
  have reduced := Nat.mod_lt length (Nat.two_pow_pos w)
  rw [BitVec.lt_def, BitVec.toNat_add, BitVec.toNat_ofNat]
  by_cases fits : addr.toNat + length % 2 ^ w < 2 ^ w
  · rw [Nat.mod_eq_of_lt fits]
    omega
  · have wraps : (addr.toNat + length % 2 ^ w) % 2 ^ w = addr.toNat + length % 2 ^ w - 2 ^ w := by
      rw [Nat.mod_eq_sub_mod (by omega), Nat.mod_eq_of_lt (by omega)]
    rw [wraps]
    omega

section Progress

variable (env : CfiEnv n w) (endIp endAddr : Word w)

theorem advances_iff_fits {s s' : CfiState n w} (round : cfiStep env s = .ok s') :
    s.addr < s'.addr ↔ Fits env s.addr := by
  rw [cfiStep_advances env s s' round]
  exact lt_add_iff

theorem ends_dite {α : Type} {p : Prop} [Decidable p] {first : p → Result α}
    {second : ¬ p → Result α} (left : ∀ h, Ends (first h)) (right : ∀ h, Ends (second h)) :
    Ends (if h : p then first h else second h) := by
  by_cases holds : p
  · rw [dif_pos holds]
    exact left holds
  · rw [dif_neg holds]
    exact right holds

theorem readRegnum_ends {as : AddrSpace w} (addr : Word w) : Ends (readRegnum n as addr) := by
  apply (readUleb128_ends addr).bind
  intro read _
  by_cases valid : read.1.toNat < n
  · simp only [valid, dite_true]
    exact .ok _
  · simp only [valid, dite_false]
    exact .err _

theorem cfiExec_ends (op : CfaOpcode) (operand : Word w) (s : CfiState n w) :
    Ends (cfiExec env op operand s) := by
  have leb {rest : Word w × Word w → CfiState n w} {addr : Word w} :
      Ends (readUleb128 env.as addr >>= fun read => .ok (rest read)) :=
    (readUleb128_ends addr).bind fun _ _ => .ok _
  have sleb {rest : Word w × Word w → CfiState n w} {addr : Word w} :
      Ends (readSleb128 env.as addr >>= fun read => .ok (rest read)) :=
    (readSleb128_ends addr).bind fun _ _ => .ok _
  have column {rest : Fin n × Word w → CfiState n w} {addr : Word w} :
      Ends (readRegnum n env.as addr >>= fun read => .ok (rest read)) :=
    (readRegnum_ends addr).bind fun _ _ => .ok _
  cases op with
  | advanceLoc => exact .ok _
  | nop => exact .ok _
  | loUser => exact .err _
  | hiUser => exact .err _
  | advanceLoc1 => exact (readu8_ends _).bind fun _ _ => .ok _
  | advanceLoc2 => exact (readu16_ends _).bind fun _ _ => .ok _
  | advanceLoc4 => exact (readu32_ends _).bind fun _ _ => .ok _
  | mipsAdvanceLoc8 =>
      exact .ite (fun _ => (readu64_ends _).bind fun _ _ => .ok _) fun _ => .err _
  | offset => exact ends_dite (fun _ => leb) fun _ => .err _
  | restore => exact ends_dite (fun _ => .ok _) fun _ => .err _
  | setLoc => exact (readEncodedPointer_ends _ _ _).bind fun _ _ => .ok _
  | offsetExtended => exact (readRegnum_ends _).bind fun _ _ => leb
  | offsetExtendedSf => exact (readRegnum_ends _).bind fun _ _ => sleb
  | register => exact (readRegnum_ends _).bind fun _ _ => leb
  | defCfa => exact (readRegnum_ends _).bind fun _ _ => leb
  | defCfaSf => exact (readRegnum_ends _).bind fun _ _ => sleb
  | gnuNegativeOffsetExtended => exact (readRegnum_ends _).bind fun _ _ => leb
  | restoreExtended =>
      exact (readUleb128_ends _).bind fun _ _ => ends_dite (fun _ => .ok _) fun _ => .err _
  | undefined => exact column
  | sameValue => exact column
  | defCfaRegister => exact column
  | defCfaOffset => exact leb
  | defCfaOffsetSf => exact sleb
  | gnuArgsSize => exact leb
  | rememberState => exact .ite (fun _ => .ok _) fun _ => .err _
  | restoreState =>
      rw [cfiExec]
      cases s.rsStack with
      | nil => exact .err _
      | cons saved rest => exact .ok _
  | gnuWindowSave =>
      rw [cfiExec]
      cases env.target.windowSave with
      | sparc windowed => exact .ok _
      | aarch64 r => exact .ok _
      | unexpected => exact .err _
  | defCfaExpression => exact leb
  | expression => exact (readRegnum_ends _).bind fun _ _ => leb
  | valExpression => exact (readRegnum_ends _).bind fun _ _ => leb

theorem cfiStep_ends (s : CfiState n w) : Ends (cfiStep env s) := by
  apply (readu8_ends s.addr).bind
  intro read _
  cases case : CfaOpcode.ofByte (splitOpcode read.1).1 with
  | none =>
      simp only [case]
      exact .ok _
  | some op =>
      simp only [case]
      exact cfiExec_ends env op _ _

/-- Every round increases the address, and there are no more rounds than bytes. -/
structure Progresses (s : CfiState n w) : Prop where
  increases : ∀ a b, WhileLoop.Reaches (cfiGuard endIp endAddr) (cfiStep env) s a →
    cfiGuard endIp endAddr a = true → cfiStep env a = .ok b → a.addr < b.addr
  ends : Ends (runCfiProgram env (endAddr.toNat - s.addr.toNat) endIp endAddr s)

theorem ends_of_increases {s : CfiState n w}
    (increases : ∀ a b, WhileLoop.Reaches (cfiGuard endIp endAddr) (cfiStep env) s a →
      cfiGuard endIp endAddr a = true → cfiStep env a = .ok b → a.addr < b.addr) :
    Ends (runCfiProgram env (endAddr.toNat - s.addr.toNat) endIp endAddr s) := by
  have inside {a : CfiState n w} (enter : cfiGuard endIp endAddr a = true) :
      a.addr.toNat < endAddr.toNat := by
    simp only [cfiGuard, Bool.and_eq_true, decide_eq_true_eq] at enter
    exact enter.2
  apply WhileLoop.run_ne_late_of_reaches fun a : CfiState n w => endAddr.toNat - a.addr.toNat
  · intro a b path enter round
    have up : a.addr.toNat < b.addr.toNat := increases a b path enter round
    have := inside enter
    omega
  · exact fun a => cfiStep_ends env a
  · intro a enter
    have := inside enter
    omega
  · exact Nat.le_refl _

/-- The interpreter makes progress just when every instruction that it executes fits. -/
theorem progresses_iff {s : CfiState n w} : Progresses env endIp endAddr s ↔
    ∀ a b, WhileLoop.Reaches (cfiGuard endIp endAddr) (cfiStep env) s a →
      cfiGuard endIp endAddr a = true → cfiStep env a = .ok b → Fits env a.addr := by
  constructor
  · intro progresses a b path enter round
    exact (advances_iff_fits env round).mp (progresses.increases a b path enter round)
  · intro fits
    have increases : ∀ a b, WhileLoop.Reaches (cfiGuard endIp endAddr) (cfiStep env) s a →
        cfiGuard endIp endAddr a = true → cfiStep env a = .ok b → a.addr < b.addr := by
      intro a b path enter round
      exact (advances_iff_fits env round).mpr (fits a b path enter round)
    exact ⟨increases, ends_of_increases env endIp endAddr increases⟩

end Progress

/-! ## A block that leads back to its instruction -/

namespace EndlessBlock

/-- `DW_CFA_def_cfa_expression` with a block of `2 ^ 64 - 11` bytes. -/
def program : CfiEnv 17 64 where
  target := .x86_64
  cursorSpace := spaceOfBytes 64 [0x0f, 0xf5, 0xff, 0xff, 0xff, 0xff, 0xff, 0xff, 0xff, 0xff, 0x01]
  localSpace := spaceOfBytes 64 []
  pi := {}
  dci := {}

def start : CfiState 17 64 where
  ip := 0
  addr := 0
  sr := {}

/-- The state that the instruction leads to, again and again. -/
def again : CfiState 17 64 := start.setReg 0 (cfaRegColumn 17) .expr 1

theorem first_round : cfiStep program start = .ok again := by
  decide

theorem next_round : cfiStep program again = .ok again := by
  have repeats : cfiStep program again = .ok (again.setReg 0 (cfaRegColumn 17) .expr 1) := rfl
  rw [repeats]
  simp [again, CfiState.setReg, Dwarf.setReg, RegState.set]

theorem again_never_ends (budget : Nat) : runCfiProgram program budget 0 11 again =
    .error .timeout := by
  induction budget with
  | zero => rfl
  | succ budget ih => exact (WhileLoop.run_next rfl next_round budget).trans ih

theorem never_ends : ¬ Progresses program 0 11 start := by
  intro progresses
  apply progresses.ends
  exact (WhileLoop.run_next rfl first_round 10).trans (again_never_ends 10)

end EndlessBlock

end Libunwind.Dwarf
