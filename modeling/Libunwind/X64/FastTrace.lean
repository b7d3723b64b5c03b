import Libunwind.Dwarf.CfaRule
import Libunwind.Dwarf.Step
import Libunwind.X64.StashFrame

/-! # The fast path and the slow path over one frame

`tdep_trace` steps over a recorded frame without its rules. For the rows that
the interpreter produces, this compares the registers that it follows with what
`apply_reg_state` computes from the rules.
-/

namespace Libunwind.X86_64

open Dwarf

variable {localOnly validate : Bool} {as as₀ : AddrSpace 64} {budget : Nat} {c : X86Cursor}
  {rs : RegState 17 64} {f : Frame}

/-! ## Memory -/

/-- A word is its bytes, whichever accessor reads it, and neither end of the
    address space is mapped. -/
structure ProcessMemory (as : AddrSpace 64) : Prop where
  words : ∀ addr val, as.accessMem addr = .ok val ↔ ∃ next, readw as addr = .ok (val, next)
  null : ∀ val, as.accessMem 0 ≠ .ok val
  top : ∀ byte, as.readByte (-1) ≠ .ok byte

namespace ProcessMemory

theorem get_memLoc (memory : ProcessMemory as) {addr val} :
    (memLoc addr).get localOnly as = .ok val ↔ as.accessMem addr = .ok val :=
  NullUnmapped.get_memLoc memory.null

theorem accessMemFast (memory : ProcessMemory as) {addr val} :
    accessMemFast localOnly validate as addr = .ok val ↔ as.accessMem addr = .ok val :=
  NullUnmapped.accessMemFast memory.null

theorem readu8_next (memory : ProcessMemory as) {addr byte next}
    (read : readu8 as addr = .ok (byte, next)) : next.toNat = addr.toNat + 1 := by
  obtain ⟨stored, rfl⟩ := readu8_ok read
  have notTop : addr.toNat ≠ 2 ^ 64 - 1 := by
    intro same
    obtain rfl : addr = -1 := BitVec.eq_of_toNat_eq same
    exact memory.top byte stored
  have := addr.isLt
  rw [BitVec.toNat_add]
  change (addr.toNat + 1) % 2 ^ 64 = addr.toNat + 1
  omega

theorem readHalves_next {half n : Nat}
    {reader : AddrSpace 64 → Word 64 → Result (BitVec half × Word 64)}
    (halves : ∀ {addr next : Word 64} {val}, reader as addr = .ok (val, next) →
      next.toNat = addr.toNat + n)
    {addr next : Word 64} {val} (read : readHalves reader as addr = .ok (val, next)) :
    next.toNat = addr.toNat + (n + n) := by
  obtain ⟨⟨_, middle⟩, first, read⟩ := bind_eq_ok.mp read
  obtain ⟨⟨_, last⟩, second, read⟩ := bind_eq_ok.mp read
  obtain ⟨-, rfl⟩ := Prod.mk.inj (Except.ok.inj read)
  rw [halves second, halves first, Nat.add_assoc]

theorem readu16_next (memory : ProcessMemory as) {addr val next}
    (read : readu16 as addr = .ok (val, next)) : next.toNat = addr.toNat + 2 :=
  readHalves_next memory.readu8_next read

theorem readu32_next (memory : ProcessMemory as) {addr val next}
    (read : readu32 as addr = .ok (val, next)) : next.toNat = addr.toNat + 4 :=
  readHalves_next memory.readu16_next read

theorem readu64_next (memory : ProcessMemory as) {addr val next}
    (read : readu64 as addr = .ok (val, next)) : next.toNat = addr.toNat + 8 :=
  readHalves_next memory.readu32_next read

/-- No word reaches over the end of the address space. -/
theorem no_last_word (memory : ProcessMemory as) (val : Word 64) :
    as.accessMem (-8) ≠ .ok val := by
  intro stored
  obtain ⟨next, read⟩ := (memory.words (-8) val).mp stored
  obtain ⟨⟨word, next'⟩, read, -⟩ := bind_eq_ok.mp read
  have beyond : next'.toNat = 2 ^ 64 := memory.readu64_next read
  have := next'.isLt
  omega

theorem readLeb128_advances (memory : ProcessMemory as) {rounds addr val shift last next}
    {result : Word 64} {final : Nat}
    (read : readLeb128 as rounds addr val shift = .ok (result, final, last, next)) :
    addr.toNat < next.toNat := by
  induction rounds generalizing addr val shift with
  | zero => exact nomatch read
  | succ rounds ih =>
      rw [readLeb128] at read
      obtain ⟨⟨byte, addr'⟩, first, read⟩ := bind_eq_ok.mp read
      have moved := memory.readu8_next first
      simp only at read
      split at read
      · exact nomatch read
      · split at read
        · have := ih read
          omega
        · obtain ⟨-, rest⟩ := Prod.mk.inj (Except.ok.inj read)
          obtain ⟨-, rest⟩ := Prod.mk.inj rest
          obtain ⟨-, rfl⟩ := Prod.mk.inj rest
          omega

theorem readSleb128_advances (memory : ProcessMemory as) {addr val next}
    (read : readSleb128 as addr = .ok (val, next)) : addr.toNat < next.toNat := by
  obtain ⟨⟨val', shift, byte, next'⟩, leb, read⟩ := bind_eq_ok.mp read
  have advances := memory.readLeb128_advances leb
  simp only at read
  split at read
  · obtain ⟨-, rfl⟩ := Prod.mk.inj (Except.ok.inj read)
    exact advances
  · obtain ⟨-, rfl⟩ := Prod.mk.inj (Except.ok.inj read)
    exact advances

end ProcessMemory

/-! ## The two expressions of an aligned frame -/

section Expressions

variable {ctx : ExprContext 64} {s : ExprState 64}

theorem push_room (x : Word 64) (room : s.stack.length < maxExprStackSize) :
    push s x = .ok { s with stack := x :: s.stack } := if_pos room

theorem exprStep_breg6 {offset next base : Word 64} (opcode : ctx.as.readByte s.addr = .ok opBreg6)
    (operand : readSleb128 ctx.as (s.addr + 1) = .ok (offset, next))
    (regnum : ctx.toUnwRegnum 6 = .ok 6) (reg : ctx.getReg 6 = .ok base)
    (room : s.stack.length < maxExprStackSize) :
    exprStep ctx s = .ok { s with addr := next, stack := (base + offset) :: s.stack } := by
  have operands : readOperands ctx.as (s.addr + 1) (operands opBreg6) = .ok (offset, 0, next) := by
    change (readSleb128 ctx.as (s.addr + 1) >>= _) = _
    rw [operand]
    rfl
  rw [exprStep, readu8_byte opcode, ok_bind]
  simp only [operands, ok_bind]
  change (ctx.toUnwRegnum 6 >>= _) = _
  rw [regnum, ok_bind, reg, ok_bind]
  exact push_room _ room

theorem exprStep_deref {x : Word 64} {rest} (opcode : ctx.as.readByte s.addr = .ok opDeref)
    (stack : s.stack = x :: rest) (room : rest.length < maxExprStackSize) :
    exprStep ctx s = (readw ctx.as x).map fun read =>
      { s with addr := s.addr + 1, stack := read.1 :: rest } := by
  rw [exprStep, readu8_byte opcode, ok_bind]
  change (pop { s with addr := s.addr + 1 } >>= _) = _
  simp only [pop, stack, pure_eq_ok, ok_bind]
  cases read : readw ctx.as x with
  | error f => rfl
  | ok word =>
      exact push_room _ room

end Expressions

theorem getReg_rbp : (target localOnly).getReg as c 6 = (c.loc rbp).get localOnly as := rfl

theorem getReg_rsp : (target localOnly).getReg as c 7 = (c.loc rsp).get localOnly as := rfl

/-- An expression whose loop ends with an address on the stack. -/
theorem evalLocationExpr_mem {stackVal addr len block next x : Word 64} {rest}
    (length : readUleb128 as addr = .ok (len, block))
    (ran : WhileLoop.run .timeout (exprGuard (block + len))
      (exprStep (exprContext (target localOnly) as c)) budget
      { addr := block, stack := [stackVal] } = .ok { addr := next, stack := x :: rest }) :
    evalLocationExpr (target localOnly) as budget c stackVal addr = .ok (memLoc x) := by
  rw [evalLocationExpr, length, ok_bind]
  simp only [evalExpr]
  rw [ran]
  rfl

theorem exprGuard_stack {endAddr addr : Word 64} {stack} :
    exprGuard endAddr { addr, stack } = decide (addr.toNat < endAddr.toNat) := by
  simp only [exprGuard, Option.isNone_none, Bool.true_and, BitVec.lt_def]

section Aligned

variable {cfaAddr rbpAddr offset rbpBlock cfaBlock base : Word 64}

/-- Where the expression says that `rbp` is saved. -/
theorem evalLocationExpr_rbp (memory : ProcessMemory as)
    (blocks : AlignedBlocks as cfaAddr rbpAddr offset rbpBlock cfaBlock)
    (value : (c.loc rbp).get localOnly as = .ok base) (rounds : 1 ≤ budget) (cfa : Word 64) :
    evalLocationExpr (target localOnly) as budget c cfa rbpAddr = .ok (memLoc base) := by
  obtain ⟨budget, rfl⟩ : ∃ m, budget = m + 1 := ⟨budget - 1, by omega⟩
  obtain ⟨next, operand⟩ := blocks.rbpOperand
  have first := memory.readu8_next (readu8_byte blocks.rbpOpcode)
  have second := memory.readSleb128_advances operand
  have endAddr : (rbpBlock + 2).toNat = rbpBlock.toNat + 2 :=
    BitVec.toNat_add_of_lt (show rbpBlock.toNat + 2 < 2 ^ 64 by omega)
  have enter : exprGuard (rbpBlock + 2) { addr := rbpBlock, stack := [cfa] } = true := by
    rw [exprGuard_stack, endAddr, decide_eq_true_eq]
    omega
  have exit : exprGuard (rbpBlock + 2) { addr := next, stack := [base, cfa] } = false := by
    rw [exprGuard_stack, endAddr, decide_eq_false_iff_not]
    omega
  have round : exprStep (exprContext (target localOnly) as c)
      { addr := rbpBlock, stack := [cfa] } = .ok { addr := next, stack := [base, cfa] } := by
    have same : base + 0 = base := BitVec.add_zero base
    rw [exprStep_breg6 blocks.rbpOpcode operand rfl (getReg_rbp.trans value)
      (Nat.lt_of_sub_eq_succ rfl), same]
  apply evalLocationExpr_mem blocks.rbpLength
  rw [WhileLoop.run_next enter round, WhileLoop.run_exit exit]

/-- The value of a signed operand of one byte. -/
def signedOperand (byte : Byte) : Word 64 :=
  let val : Word 64 := 0 ||| ((byte.setWidth 64 &&& 0x7f) <<< 0)
  if byte &&& 0x40 ≠ 0 then val ||| ((-1 : Word 64) <<< 7) else val

theorem signedOperand_range : ∀ byte : Byte, byte &&& 0x80 = 0 →
    -64 ≤ (signedOperand byte).toInt ∧ (signedOperand byte).toInt < 64 := by
  decide

theorem readSleb128_byte {addr : Word 64} {byte} (stored : as.readByte addr = .ok byte)
    (last : byte &&& 0x80 = 0) :
    readSleb128 as addr = .ok (signedOperand byte, addr + 1) := by
  have number : readLeb128 as (64 + 1) addr (0 : Word 64) 0 =
      .ok ((0 : Word 64) ||| ((byte.setWidth 64 &&& 0x7f) <<< 0), 7, byte, addr + 1) := by
    rw [readLeb128, readu8_byte stored, ok_bind]
    simp only [if_neg (show ¬ 64 ≤ 0 by decide), last, ne_eq, not_true, if_false]
    rfl
  rw [readSleb128, number, ok_bind, signedOperand]
  by_cases negative : byte &&& 0x40 ≠ 0
  · rw [if_pos negative]
    exact if_pos ⟨by decide, negative⟩
  · rw [if_neg negative]
    exact if_neg fun both => negative both.2

/-- The CFA is the word at an offset of `rbp` that one byte holds. -/
theorem evalLocationExpr_cfa (memory : ProcessMemory as)
    (blocks : AlignedBlocks as cfaAddr rbpAddr offset rbpBlock cfaBlock)
    (oneByte : ∀ byte, as.readByte (cfaBlock + 1) = .ok byte → byte &&& 0x80 = 0)
    (value : (c.loc rbp).get localOnly as = .ok base) (rounds : 2 ≤ budget) :
    evalLocationExpr (target localOnly) as budget c 0 cfaAddr =
      (readw as (base + offset)).map fun read => memLoc read.1 := by
  obtain ⟨budget, rfl⟩ : ∃ m, budget = m + 2 := ⟨budget - 2, by omega⟩
  obtain ⟨next, operand, deref⟩ := blocks.cfaOperand
  obtain ⟨⟨_, _, _, _⟩, leb, -⟩ := bind_eq_ok.mp operand
  obtain ⟨⟨byte, _⟩, read, -⟩ := bind_eq_ok.mp leb
  obtain ⟨stored, -⟩ := readu8_ok read
  obtain ⟨-, rfl⟩ := Prod.mk.inj (Except.ok.inj
    (operand.symm.trans (readSleb128_byte stored (oneByte byte stored))))
  have first := memory.readu8_next (readu8_byte blocks.cfaOpcode)
  have second := memory.readu8_next (readu8_byte stored)
  have third := memory.readu8_next (readu8_byte deref)
  have endAddr : (cfaBlock + 3).toNat = cfaBlock.toNat + 3 :=
    BitVec.toNat_add_of_lt (show cfaBlock.toNat + 3 < 2 ^ 64 by omega)
  have enter : exprGuard (cfaBlock + 3) { addr := cfaBlock, stack := [0] } = true := by
    rw [exprGuard_stack, endAddr, decide_eq_true_eq]
    omega
  have again : exprGuard (cfaBlock + 3)
      { addr := cfaBlock + 1 + 1, stack := [base + offset, 0] } = true := by
    rw [exprGuard_stack, endAddr, decide_eq_true_eq]
    omega
  have exit (word : Word 64) : exprGuard (cfaBlock + 3)
      { addr := cfaBlock + 1 + 1 + 1, stack := [word, 0] } = false := by
    rw [exprGuard_stack, endAddr, decide_eq_false_iff_not]
    omega
  have breg6 : exprStep (exprContext (target localOnly) as c) { addr := cfaBlock, stack := [0] } =
      .ok { addr := cfaBlock + 1 + 1, stack := [base + offset, 0] } :=
    exprStep_breg6 blocks.cfaOpcode operand rfl (getReg_rbp.trans value) (Nat.lt_of_sub_eq_succ rfl)
  have load : exprStep (exprContext (target localOnly) as c)
      { addr := cfaBlock + 1 + 1, stack := [base + offset, 0] } =
      (readw as (base + offset)).map fun read =>
        { addr := cfaBlock + 1 + 1 + 1, stack := [read.1, 0] } :=
    exprStep_deref deref rfl (Nat.lt_of_sub_eq_succ rfl)
  cases read : readw as (base + offset) with
  | error f =>
      rw [read] at load
      rw [evalLocationExpr, blocks.cfaLength, ok_bind]
      simp only [evalExpr]
      rw [WhileLoop.run_next enter breg6, WhileLoop.run_fail again load]
      rfl
  | ok word =>
      rw [read] at load
      apply evalLocationExpr_mem blocks.cfaLength
      rw [WhileLoop.run_next enter breg6, WhileLoop.run_next again load,
        WhileLoop.run_exit (exit word.1)]

end Aligned

/-! ## The slow path -/

section Slow

variable {cfa : Word 64} {newLoc : Fin 17 → Loc 64}

/-- A step that committed the staged locations, and found the return address
    below the CFA if there is one. -/
structure Returns (as : AddrSpace 64) (prev : X86Cursor) (cfa : Word 64)
    (newLoc : Fin 17 → Loc 64) (step : Result Bool × X86Cursor) : Prop where
  loc : step.2.loc = newLoc
  atCfa : step.2.cfa = cfa
  ip : ∀ ip, as.accessMem (cfa - 8) = .ok ip → step.2.ip = ip
  ok : (∃ more, step.1 = .ok more) ↔
    ∃ ip, as.accessMem (cfa - 8) = .ok ip ∧ (ip ≠ prev.ip ∨ cfa ≠ prev.cfa)

theorem applyRegState_returns (memory : ProcessMemory as) (inRange : rs.retAddrColumn.toNat < 17)
    (base : evalCfa (target localOnly) as budget c rs = .ok cfa)
    (staged : applyColumns (target localOnly) as budget c cfa rs (List.finRange 17) = .ok newLoc)
    (pushed : newLoc ⟨rs.retAddrColumn.toNat, inRange⟩ = memLoc (cfa - 8)) (notNull : cfa ≠ 8) :
    Returns as c cfa newLoc (applyRegState (target localOnly) as budget c rs) := by
  have located : (memLoc (cfa - 8) : Loc 64).isNull localOnly = false := by
    have nonzero : cfa - 8 ≠ 0 := by bv_omega
    simp only [Loc.isNull, memLoc, beq_eq_false_iff_ne.mpr nonzero, Bool.false_and]
  have address : returnAddress (target localOnly) as { c with loc := newLoc, cfa } rs
      ⟨rs.retAddrColumn.toNat, inRange⟩ = (memLoc (cfa - 8)).get localOnly as := by
    rw [returnAddress]
    simp only [pushed, show (target localOnly).localOnly = localOnly from rfl, located]
    cases (memLoc (cfa - 8)).get localOnly as <;> rfl
  have committed : applyRegState (target localOnly) as budget c rs =
      finishStep (target localOnly) as c.ip c.cfa rs ⟨rs.retAddrColumn.toNat, inRange⟩
        { c with loc := newLoc, cfa } := by
    simp only [applyRegState, dif_pos inRange, base, staged]
  rw [committed, finishStep, address]
  cases read : (memLoc (cfa - 8)).get localOnly as with
  | error f =>
      have unread (ip) : as.accessMem (cfa - 8) ≠ .ok ip := by
        intro stored
        cases read.symm.trans (memory.get_memLoc.mpr stored)
      refine ⟨rfl, rfl, fun ip stored => absurd stored (unread ip), iff_of_false (by simp) ?_⟩
      rintro ⟨ip, stored, -⟩
      exact unread ip stored
  | ok ip =>
      have stored := memory.get_memLoc.mp read
      have unique (ip') : as.accessMem (cfa - 8) = .ok ip' → ip' = ip := fun stored' =>
        Except.ok.inj (stored'.symm.trans stored)
      by_cases stuck : ip = c.ip ∧ cfa = c.cfa
      · simp only [if_pos stuck]
        refine ⟨rfl, rfl, fun ip' stored' => (unique ip' stored').symm, iff_of_false (by simp) ?_⟩
        rintro ⟨ip', stored', moved⟩
        obtain rfl := unique ip' stored'
        exact moved.elim (absurd stuck.1) (absurd stuck.2)
      · simp only [if_neg stuck]
        refine ⟨?_, ?_, fun ip' stored' => ?_, ?_⟩
        · split <;> rfl
        · split <;> rfl
        · rw [unique ip' stored']
          split <;> rfl
        · exact ⟨fun _ => ⟨ip, stored, not_and_or.mp stuck⟩, fun _ => ⟨_, rfl⟩⟩

end Slow

/-! ## Agreement -/

/-- The step succeeds and leads to the registers. -/
structure StepsTo (localOnly : Bool) (as : AddrSpace 64) (step : Result Bool × X86Cursor)
    (regs : TraceRegs) : Prop where
  returns : ∃ more, step.1 = .ok more
  cfa : step.2.cfa = regs.cfa
  rip : step.2.ip = regs.rip
  rbp : (step.2.loc rbp).get localOnly as = .ok regs.rbp

/-- Both paths lead to the same CFA, `rip` and `rbp`, or both fail. Only the slow
    path notices that it stays at its frame; only the default rule of `rsp` is
    followed by the fast one. -/
structure Agree (localOnly : Bool) (as : AddrSpace 64) (prev : X86Cursor) (rs : RegState 17 64)
    (fast : Result TraceRegs) (slow : Result Bool × X86Cursor) : Prop where
  steps : ∀ regs, fast = .ok regs →
    (StepsTo localOnly as slow regs ↔ regs.rip ≠ prev.ip ∨ regs.cfa ≠ prev.cfa)
  fails : (∀ regs, fast ≠ .ok regs) → ∀ regs, ¬ StepsTo localOnly as slow regs
  cfaIsRsp : ∀ regs, fast = .ok regs → regs.rsp = regs.cfa
  rsp : ∀ regs, fast = .ok regs → (rs.reg (regColumn rsp)).how = .cfa →
    (slow.2.loc rsp).get localOnly as = .ok regs.rsp

/-- The fast path reads what the rules say: the word below the CFA, and `rbp`
    where it is saved. -/
def FollowsRules (localOnly : Bool) (as : AddrSpace 64) (budget : Nat) (c : X86Cursor)
    (rs : RegState 17 64) (fast : Result TraceRegs) : Prop :=
  ∀ regs, fast = .ok regs ↔
    evalCfa (target localOnly) as budget c rs = .ok regs.cfa ∧
    as.accessMem (regs.cfa - 8) = .ok regs.rip ∧
    (∀ newLoc, applyColumns (target localOnly) as budget c regs.cfa rs (List.finRange 17) =
      .ok newLoc → (newLoc rbp).get localOnly as = .ok regs.rbp) ∧
    regs.rsp = regs.cfa ∧ regs.usePrevInstr = true

/-- The new CFA leaves the return address a location, and no rule fails. -/
def Evaluates (localOnly : Bool) (as : AddrSpace 64) (budget : Nat) (c : X86Cursor)
    (rs : RegState 17 64) : Prop :=
  ∀ cfa, evalCfa (target localOnly) as budget c rs = .ok cfa → cfa ≠ 8 ∧
    ∃ newLoc, applyColumns (target localOnly) as budget c cfa rs (List.finRange 17) = .ok newLoc

theorem agree_of_followsRules {fast : Result TraceRegs} (memory : ProcessMemory as)
    (follows : FollowsRules localOnly as budget c rs fast)
    (inRange : rs.retAddrColumn.toNat < 17)
    (pushed : rs.reg (regColumn ⟨rs.retAddrColumn.toNat, inRange⟩) = ⟨.cfarel, -8⟩)
    (rules : Evaluates localOnly as budget c rs) :
    Agree localOnly as c rs fast (applyRegState (target localOnly) as budget c rs) := by
  have step {cfa} (base : evalCfa (target localOnly) as budget c rs = .ok cfa) :
      ∃ newLoc, applyColumns (target localOnly) as budget c cfa rs (List.finRange 17) =
          .ok newLoc ∧
        Returns as c cfa newLoc (applyRegState (target localOnly) as budget c rs) := by
    obtain ⟨notNull, newLoc, staged⟩ := rules cfa base
    have returnRule := applyColumns_own (List.nodup_finRange 17) (List.mem_finRange _)
      (by rw [pushed]; simp) staged
    have below : cfa + -8 = cfa - 8 := (BitVec.sub_eq_add_neg cfa 8).symm
    simp only [ruleLoc, pushed, below, pure_eq_ok] at returnRule
    exact ⟨newLoc, staged, applyRegState_returns memory inRange base staged
      (Except.ok.inj returnRule).symm notNull⟩
  refine ⟨fun regs ok => ?_, fun none regs reached => ?_, fun regs ok => ?_, fun regs ok isCfa => ?_⟩
  · obtain ⟨base, rip, rbpRead, -, -⟩ := (follows regs).mp ok
    obtain ⟨newLoc, staged, returns⟩ := step base
    constructor
    · intro reached
      obtain ⟨ip, stored, moved⟩ := returns.ok.mp reached.returns
      rwa [Except.ok.inj (rip.symm.trans stored)]
    · intro moved
      exact ⟨returns.ok.mpr ⟨_, rip, moved⟩, returns.atCfa, returns.ip _ rip,
        returns.loc ▸ rbpRead newLoc staged⟩
  · cases base : evalCfa (target localOnly) as budget c rs with
    | error f =>
        obtain ⟨more, returned⟩ := reached.returns
        simp [applyRegState, dif_pos inRange, base] at returned
    | ok cfa =>
        obtain ⟨newLoc, staged, returns⟩ := step base
        obtain ⟨ip, stored, -⟩ := returns.ok.mp reached.returns
        refine none ⟨cfa, ip, regs.rbp, cfa, true⟩ ((follows _).mpr ⟨base, stored, ?_, rfl, rfl⟩)
        intro newLoc' staged'
        rw [← Except.ok.inj (staged.symm.trans staged'), ← returns.loc]
        exact reached.rbp
  · exact ((follows regs).mp ok).2.2.2.1
  · obtain ⟨base, rip, -, rspIs, -⟩ := (follows regs).mp ok
    obtain ⟨newLoc, staged, returns⟩ := step base
    have rule := applyColumns_own (List.nodup_finRange 17) (List.mem_finRange rsp)
      (by rw [isCfa]; simp) staged
    have nonzero : regs.cfa ≠ 0 := by
      intro zero
      rw [zero] at rip
      exact memory.no_last_word _ rip
    rw [ruleLoc, isCfa] at rule
    rw [returns.loc, ← Except.ok.inj rule, rspIs]
    simp only [Loc.get, Loc.isNull, Target.valLoc, show (target localOnly).valLocs = true from rfl,
      if_true, beq_eq_false_iff_ne.mpr nonzero, Bool.false_and]
    rfl

/-! ## Recorded frames -/

/-- The frame info that a step of the slow path over the row left. -/
def Recorded (localOnly : Bool) (as : AddrSpace 64) (rs : RegState 17 64) (f : Frame) : Prop :=
  ∃ budget c,
    c.stashFrames = true ∧ c.tdep.frameInfo.Unrecorded ∧
    (∃ more, (applyRegState (target localOnly) as budget c rs).1 = .ok more) ∧
    (applyRegState (target localOnly) as budget c rs).2.tdep.frameInfo = f

/-- The state in which `tdep_stash_frame` was called. -/
structure StashedAt (localOnly : Bool) (as : AddrSpace 64) (rs : RegState 17 64) (f : Frame)
    (inRange : rs.retAddrColumn.toNat < 17) (d : X86Cursor) (before : Frame) : Prop where
  fresh : before.Unrecorded
  recorded : stashFrame as d rs before = f
  staged : ∃ budget c,
    applyColumns (target localOnly) as budget c d.cfa rs (List.finRange 17) = .ok d.loc

theorem Recorded.stashedAt (recorded : Recorded localOnly as rs f) :
    ∃ inRange d before, StashedAt localOnly as rs f inRange d before := by
  obtain ⟨budget, c, stash, fresh, ⟨more, returned⟩, left⟩ := recorded
  obtain ⟨ra, cfa, ip, newLoc, staged, -, -, stashed⟩ := applyRegState_ok returned
  have inRange : rs.retAddrColumn.toNat < 17 := staged.column ▸ ra.isLt
  rw [if_pos stash] at stashed
  rw [stashed] at left
  exact ⟨inRange, { c with loc := newLoc, cfa, ip }, c.tdep.frameInfo, fresh, left, budget, c,
    staged.columns⟩

/-- The rule that the test of the return address's location admits. -/
theorem StashedAt.pushed {inRange} {d : X86Cursor} {before : Frame}
    (stashed : StashedAt localOnly as rs f inRange d before) (standard : Standard d rs)
    (saved : (rs.reg (regColumn ⟨rs.retAddrColumn.toNat, inRange⟩)).how = .cfarel) :
    rs.reg (regColumn ⟨rs.retAddrColumn.toNat, inRange⟩) = ⟨.cfarel, -8⟩ := by
  obtain ⟨budget, c, staged⟩ := stashed.staged
  have rule := applyColumns_own (List.nodup_finRange 17) (List.mem_finRange _)
    (by rw [saved]; simp) staged
  have tested := standard.returnLoc
  rw [returnLoc, dif_pos inRange] at tested
  rw [ruleLoc, saved] at rule
  rw [← Except.ok.inj rule] at tested
  cases column : rs.reg (regColumn ⟨rs.retAddrColumn.toNat, inRange⟩) with
  | mk how val =>
      rw [column] at saved tested
      obtain rfl : how = .cfarel := saved
      have offset : d.cfa + val = d.cfa - 8 := tested
      obtain rfl : val = -8 := by bv_omega
      rfl

/-- What the recording of a row takes for granted: that the return address has a
    rule relative to the CFA, that `rbp` has a value, that `labs` is defined, and
    that the expression of an aligned frame ends where its length says. -/
structure Regular (as : AddrSpace 64) (rs : RegState 17 64) (kind : FrameType) : Prop where
  returnRule : ∀ inRange, (rs.reg (regColumn ⟨rs.retAddrColumn.toNat, inRange⟩)).how = .cfarel
  pushed : kind = .aligned → ∀ inRange,
    (rs.reg (regColumn ⟨rs.retAddrColumn.toNat, inRange⟩)).val = -8
  rbpHasValue : (rs.reg (regColumn rbp)).how ≠ .undef
  cfaOffset : kind = .standard → (rs.reg (cfaOffColumn 17)).val ≠ BitVec.intMin 64
  savedOffset : ∀ r, (rs.reg (regColumn r)).how = .cfarel →
    (rs.reg (regColumn r)).val ≠ BitVec.intMin 64
  operand : kind = .aligned → ∀ block byte,
    readUleb128 as (rs.reg (cfaRegColumn 17)).val = .ok (3, block) →
    as.readByte (block + 1) = .ok byte → byte &&& 0x80 = 0

/-- Each offset is what its bit-field holds. -/
def HoldsOffsets (as : AddrSpace 64) (rs : RegState 17 64) (f : Frame) : Prop :=
  match f.frameType with
  | .standard =>
      f.cfaRegOffset.signExtend 64 = (rs.reg (cfaOffColumn 17)).val ∧
      ((rs.reg (regColumn rbp)).how = .cfarel →
        f.rbpCfaOffset.signExtend 64 = (rs.reg (regColumn rbp)).val ∧ f.rbpCfaOffset ≠ -1) ∧
      ((rs.reg (regColumn rsp)).how = .cfarel →
        f.rspCfaOffset.signExtend 64 = (rs.reg (regColumn rsp)).val ∧ f.rspCfaOffset ≠ -1)
  | .aligned => alignedOffset as rs = some (f.cfaRegOffset.signExtend 64)
  | _ => True

section Kinds

variable {b s : Word 64} {d : X86Cursor} {before : Frame}

theorem standardFrame_holdsOffsets (standard : Standard d rs) (regular : Regular as rs .standard)
    (before : Frame) : HoldsOffsets as rs (standardFrame rs before) := by
  obtain ⟨above, below⟩ := labs_lt (regular.cfaOffset rfl) standard.cfaOffset
  exact ⟨signExtend_setWidth (by decide) (by omega) (by omega),
    fun saved => stashOffset_exact standard.rbp saved (regular.savedOffset rbp saved),
    fun saved => stashOffset_exact standard.rsp saved (regular.savedOffset rsp saved)⟩

theorem evalCfa_standard (standard : Standard d rs)
    (cfaRegRsp : f.cfaRegRsp = ((rs.reg (cfaRegColumn 17)).val == 7))
    (offset : f.cfaRegOffset.signExtend 64 = (rs.reg (cfaOffColumn 17)).val)
    (rbpValue : (c.loc rbp).get localOnly as = .ok b)
    (rspValue : (c.loc rsp).get localOnly as = .ok s) :
    evalCfa (target localOnly) as budget c rs = .ok (f.cfa b s) := by
  have located : (c.loc rsp).isNull localOnly = false := by
    by_contra null
    rw [Loc.get, if_pos (Bool.eq_true_of_not_eq_false null)] at rspValue
    cases rspValue
  have saved : ((c.loc (target localOnly).cfi.sp).isNull (target localOnly).localOnly) = false :=
    located
  simp only [evalCfa, standard.cfaIsReg, saved, Frame.cfa, offset, cfaRegRsp, Bool.false_eq_true,
    and_false, if_false]
  rcases standard.cfaReg with isRbp | isRsp
  · rw [isRbp]
    change ((target localOnly).getReg as c 6 >>= _) = _
    rw [getReg_rbp, rbpValue]
    rfl
  · rw [isRsp]
    change ((target localOnly).getReg as c 7 >>= _) = _
    rw [getReg_rsp, rspValue]
    rfl

theorem standardStep_ok (memory : ProcessMemory as) {cfa : Word 64} {regs} :
    f.standardStep (accessMemFast localOnly validate as) cfa b = .ok regs ↔
      as.accessMem (cfa - 8) = .ok regs.rip ∧
      (if f.rbpCfaOffset = -1 then regs.rbp = b
        else as.accessMem (cfa + f.rbpCfaOffset.signExtend 64) = .ok regs.rbp) ∧
      regs.cfa = cfa ∧ regs.rsp = cfa ∧ regs.usePrevInstr = true := by
  rw [Frame.standardStep_eq_ok, memory.accessMemFast]
  split
  · rfl
  · rw [memory.accessMemFast]

/-- The fast path reads `rbp` where its rule says, whichever rule that is. -/
theorem standardFrame_rbp (memory : ProcessMemory as) (standard : Standard d rs)
    (regular : Regular as rs .standard) (notCfa : (rs.reg (regColumn rbp)).how ≠ .cfa)
    (fresh : before.Unrecorded) (rbpValue : (c.loc rbp).get localOnly as = .ok b)
    {cfa val : Word 64} {newLoc}
    (staged : applyColumns (target localOnly) as budget c cfa rs (List.finRange 17) = .ok newLoc) :
    (newLoc rbp).get localOnly as = .ok val ↔
      if (standardFrame rs before).rbpCfaOffset = -1 then val = b
      else as.accessMem (cfa + (standardFrame rs before).rbpCfaOffset.signExtend 64) = .ok val := by
  have rbpRule := standard.rbp
  have rule := applyColumns_own (List.nodup_finRange 17) (List.mem_finRange rbp)
    (by intro isReg; simp [isStandardRule, isReg] at rbpRule) staged
  cases how : (rs.reg (regColumn rbp)).how with
  | undef => exact absurd how regular.rbpHasValue
  | cfa => exact absurd how notCfa
  | same =>
      have kept : (standardFrame rs before).rbpCfaOffset = -1 := by
        rw [standardFrame, stashOffset, how]
        exact fresh.2
      rw [ruleLoc, how] at rule
      rw [if_pos kept, ← Except.ok.inj rule, rbpValue, Except.ok.injEq, eq_comm]
  | cfarel =>
      obtain ⟨held, notSentinel⟩ :=
        (standardFrame_holdsOffsets standard regular before).2.1 how
      rw [ruleLoc, how] at rule
      rw [if_neg notSentinel, ← Except.ok.inj rule, held, memory.get_memLoc]
  | reg | expr | valExpr => simp [isStandardRule, how] at rbpRule

theorem standardFrame_followsRules (memory : ProcessMemory as) (standard : Standard d rs)
    (regular : Regular as rs .standard) (notCfa : (rs.reg (regColumn rbp)).how ≠ .cfa)
    (fresh : before.Unrecorded) (rbpValue : (c.loc rbp).get localOnly as = .ok b)
    (rspValue : (c.loc rsp).get localOnly as = .ok s) (rules : Evaluates localOnly as budget c rs) :
    FollowsRules localOnly as budget c rs
      (traceFrame localOnly validate as (standardFrame rs before) c.cfa b s) := by
  have holds := standardFrame_holdsOffsets standard regular before
  have base : evalCfa (target localOnly) as budget c rs =
      .ok ((standardFrame rs before).cfa b s) :=
    evalCfa_standard standard rfl holds.1 rbpValue rspValue
  obtain ⟨-, newLoc, staged⟩ := rules _ base
  intro regs
  change (standardFrame rs before).standardStep _ ((standardFrame rs before).cfa b s) b = _ ↔ _
  rw [base, Except.ok.injEq, standardStep_ok memory,
    ← standardFrame_rbp memory standard regular notCfa fresh rbpValue staged]
  constructor
  · rintro ⟨rip, rbpRead, atCfa, rspIs, back⟩
    rw [atCfa]
    refine ⟨rfl, rip, fun newLoc' staged' => ?_, rspIs, back⟩
    rwa [← Except.ok.inj (staged.symm.trans staged')]
  · rintro ⟨atCfa, rip, rbpRead, rspIs, back⟩
    rw [← atCfa] at rip rbpRead rspIs
    exact ⟨rip, rbpRead newLoc staged, atCfa.symm, rspIs, back⟩

theorem alignedStep_ok (memory : ProcessMemory as) (aligned : f.frameType = .aligned) {cfa regs} :
    traceFrame localOnly validate as f cfa b s = .ok regs ↔
      as.accessMem (f.cfa b s) = .ok regs.cfa ∧ as.accessMem (regs.cfa - 8) = .ok regs.rip ∧
      as.accessMem b = .ok regs.rbp ∧ regs.rsp = regs.cfa ∧ regs.usePrevInstr = true := by
  simp only [traceFrame, aligned]
  constructor
  · intro ok
    obtain ⟨cfa, cfaRead, ok⟩ := bind_eq_ok.mp ok
    obtain ⟨rip, ripRead, ok⟩ := bind_eq_ok.mp ok
    obtain ⟨rbp, rbpRead, ok⟩ := bind_eq_ok.mp ok
    obtain rfl := Except.ok.inj ok
    exact ⟨memory.accessMemFast.mp cfaRead, memory.accessMemFast.mp ripRead,
      memory.accessMemFast.mp rbpRead, rfl, rfl⟩
  · rintro ⟨cfaRead, ripRead, rbpRead, rspIs, back⟩
    obtain ⟨cfa, rip, rbp, rsp, usePrevInstr⟩ := regs
    obtain rfl : rsp = cfa := rspIs
    obtain rfl : usePrevInstr = true := back
    rw [memory.accessMemFast.mpr cfaRead, ok_bind, memory.accessMemFast.mpr ripRead, ok_bind,
      memory.accessMemFast.mpr rbpRead, ok_bind]
    rfl

theorem alignedFrame_followsRules (memory : ProcessMemory as) {offset : Word 64}
    (aligned : alignedOffset as rs = some offset) (regular : Regular as rs .aligned)
    (frameType : f.frameType = .aligned) (cfaRegRsp : f.cfaRegRsp = false)
    (held : f.cfaRegOffset.signExtend 64 = offset)
    (rbpValue : (c.loc rbp).get localOnly as = .ok b) (rules : Evaluates localOnly as budget c rs)
    (rounds : 2 ≤ budget) :
    FollowsRules localOnly as budget c rs (traceFrame localOnly validate as f c.cfa b s) := by
  obtain ⟨cfaIsExpr, rbpIsExpr, rbpBlock, cfaBlock, blocks⟩ := alignedOffset_some aligned
  have cfaExpr := evalLocationExpr_cfa memory blocks
    (fun byte => regular.operand rfl cfaBlock byte blocks.cfaLength) rbpValue rounds
  have rbpExpr := evalLocationExpr_rbp memory blocks rbpValue (show 1 ≤ budget by omega)
  have base (cfa : Word 64) : evalCfa (target localOnly) as budget c rs = .ok cfa ↔
      as.accessMem (f.cfa b s) = .ok cfa := by
    have fastBase : f.cfa b s = b + offset := by
      rw [Frame.cfa, cfaRegRsp, held]
      rfl
    rw [fastBase, memory.words, evalCfa]
    simp only [cfaIsExpr, cfaExpr]
    cases readw as (b + offset) with
    | error f => simp [Except.map]
    | ok word =>
        change Except.ok word.1 = Except.ok cfa ↔ _
        constructor
        · intro same
          exact ⟨word.2, by rw [← Except.ok.inj same]⟩
        · rintro ⟨next, read⟩
          rw [Except.ok.inj read]
  have rbpAt {cfa val : Word 64} {newLoc} (staged : applyColumns (target localOnly) as budget c cfa
      rs (List.finRange 17) = .ok newLoc) :
      (newLoc rbp).get localOnly as = .ok val ↔ as.accessMem b = .ok val := by
    have rule := applyColumns_own (List.nodup_finRange 17) (List.mem_finRange rbp)
      (by rw [rbpIsExpr]; simp) staged
    simp only [ruleLoc, rbpIsExpr, rbpExpr] at rule
    rw [← Except.ok.inj rule, memory.get_memLoc]
  intro regs
  rw [alignedStep_ok memory frameType, ← base]
  constructor
  · rintro ⟨evaluated, rip, rbpRead, rspIs, back⟩
    exact ⟨evaluated, rip, fun newLoc staged => (rbpAt staged).mpr rbpRead, rspIs, back⟩
  · rintro ⟨evaluated, rip, rbpRead, rspIs, back⟩
    obtain ⟨-, newLoc, staged⟩ := rules _ evaluated
    exact ⟨evaluated, rip, (rbpAt staged).mp (rbpRead newLoc staged), rspIs, back⟩

end Kinds

theorem alignedOffset_range {offset} (aligned : alignedOffset as rs = some offset)
    (regular : Regular as rs .aligned) : -64 ≤ offset.toInt ∧ offset.toInt < 64 := by
  obtain ⟨-, -, rbpBlock, cfaBlock, blocks⟩ := alignedOffset_some aligned
  obtain ⟨next, operand, -⟩ := blocks.cfaOperand
  obtain ⟨⟨_, _, _, _⟩, leb, -⟩ := bind_eq_ok.mp operand
  obtain ⟨⟨byte, _⟩, read, -⟩ := bind_eq_ok.mp leb
  obtain ⟨stored, -⟩ := readu8_ok read
  have last := regular.operand rfl cfaBlock byte blocks.cfaLength stored
  obtain ⟨rfl, -⟩ := Prod.mk.inj (Except.ok.inj
    (operand.symm.trans (readSleb128_byte stored last)))
  exact signedOperand_range byte last

/-- For a row that the interpreter produced and a frame that was recorded over it
    as standard or aligned, both paths agree from any later state of the
    registers and of memory, and the bit-fields hold the row's offsets. -/
theorem traceFrame_agrees {ctx : CfiContext 17 64} {cfiBudget pi ip usePrevInstr sr} {b s : Word 64}
    (isTarget : ctx.target = (target localOnly).cfi)
    (created : createStateRecordFor ctx cfiBudget pi ip usePrevInstr = .ok sr)
    (recorded : Recorded localOnly as₀ sr.rsCurrent f)
    (kind : f.frameType = .standard ∨ f.frameType = .aligned)
    (regular : Regular as sr.rsCurrent f.frameType)
    (unchanged : alignedOffset as sr.rsCurrent = alignedOffset as₀ sr.rsCurrent)
    (memory : ProcessMemory as)
    (rbpValue : (c.loc rbp).get localOnly as = .ok b)
    (rspValue : (c.loc rsp).get localOnly as = .ok s)
    (rules : Evaluates localOnly as budget c sr.rsCurrent) (rounds : 2 ≤ budget) :
    Agree localOnly as c sr.rsCurrent (traceFrame localOnly validate as f c.cfa b s)
      (applyRegState (target localOnly) as budget c sr.rsCurrent) ∧
    HoldsOffsets as sr.rsCurrent f := by
  obtain ⟨inRange, d, before, stashed⟩ := recorded.stashedAt
  have fresh := stashed.fresh
  rcases kind with standard | aligned
  · rw [standard] at regular
    rw [← stashed.recorded] at standard ⊢
    obtain ⟨isStandard, record⟩ := stashFrame_standard fresh standard
    have tests := isStandard_iff.mp isStandard
    have pushed := stashed.pushed tests (regular.returnRule inRange)
    have notCfa : (sr.rsCurrent.reg (regColumn rbp)).how ≠ .cfa := by
      intro isCfa
      have only := createStateRecordFor_cfaOnlyAt created (regColumn rbp) isCfa
      rw [isTarget] at only
      have different : regColumn rbp ≠ regColumn rsp := by decide
      exact different only
    have follows : FollowsRules localOnly as budget c sr.rsCurrent
        (traceFrame localOnly validate as (standardFrame sr.rsCurrent before) c.cfa b s) :=
      standardFrame_followsRules memory tests regular notCfa fresh rbpValue rspValue rules
    rw [record]
    exact ⟨agree_of_followsRules memory follows inRange pushed rules,
      standardFrame_holdsOffsets tests regular before⟩
  · rw [aligned] at regular
    rw [← stashed.recorded] at aligned ⊢
    obtain ⟨offset, found, record⟩ := stashFrame_aligned fresh aligned
    rw [← unchanged] at found
    obtain ⟨above, below⟩ := alignedOffset_range found regular
    have held : (offset.setWidth 29).signExtend 64 = offset :=
      signExtend_setWidth (by decide) (by omega) (by omega)
    have pushed : sr.rsCurrent.reg (regColumn ⟨sr.rsCurrent.retAddrColumn.toNat, inRange⟩) =
        ⟨.cfarel, -8⟩ := by
      rw [← regular.returnRule inRange, ← regular.pushed rfl inRange]
    rw [record]
    have follows : FollowsRules localOnly as budget c sr.rsCurrent
        (traceFrame localOnly validate as (alignedFrame offset before) c.cfa b s) :=
      alignedFrame_followsRules memory found regular rfl rfl held rbpValue rules rounds
    exact ⟨agree_of_followsRules memory follows inRange pushed rules,
      found.trans (congrArg some held.symm)⟩

/-! ## A process -/

/-- What the accessor reads is the word that the bytes make. -/
def wordOf (as : AddrSpace 64) (addr : Word 64) : Except UnwError (Word 64) :=
  match readw as addr with
  | .ok (val, _) => .ok val
  | .error _ => .error .inval

/-- A process whose memory holds eight bytes of instructions at `0x1000` and then
    two words, `0x3000` and `0x402000`. Its registers point to these. -/
def exampleProcess (program : List Byte) : AddrSpace 64 :=
  let bytes := program ++ [0x00, 0x30, 0, 0, 0, 0, 0, 0, 0x00, 0x20, 0x40, 0, 0, 0, 0, 0]
  let mapped : AddrSpace 64 :=
    { spaceOfBytes 64 [] with
      readByte := fun addr =>
        match bytes[(addr - 0x1000).toNat]? with
        | some byte => .ok byte
        | none => .error .inval
      accessReg := fun _ => .ok 0x1008 }
  { mapped with accessMem := wordOf mapped }

def exampleContext (program : List Byte) : CfiContext 17 64 where
  target := .x86_64
  cursorSpace := exampleProcess program
  localSpace := exampleProcess program

def exampleInfo : ProcInfo 64 where
  startIp := 0x401000
  endIp := 0x401100
  format := .table
  unwindInfo := some
    { cieInstrStart := 0x1000
      cieInstrEnd := 0x1008
      fdeInstrStart := 0x1008
      fdeInstrEnd := 0x1008
      codeAlign := 1
      dataAlign := -8
      retAddrColumn := 16 }

def exampleRecord (program : List Byte) : StateRecord 17 64 :=
  match createStateRecordFor (exampleContext program) 8 exampleInfo 0x401010 true with
  | .ok sr => sr
  | .error _ => {}

def exampleRow (program : List Byte) : RegState 17 64 := (exampleRecord program).rsCurrent

/-- The cursor that `trace_init_addr` makes. -/
def exampleCursor : X86Cursor where
  cfa := 0x1008
  ip := 0x401011
  loc i := if i = rip ∨ i = rbp ∨ i = rsp then ⟨BitVec.ofNat 64 i, .reg⟩ else nullLoc
  stashFrames := true
  tdep := {}

def exampleStep (program : List Byte) : Result Bool × X86Cursor :=
  applyRegState (target false) (exampleProcess program) 2 exampleCursor (exampleRow program)

def exampleTrace (program : List Byte) : Result TraceRegs :=
  traceFrame false false (exampleProcess program) (exampleStep program).2.tdep.frameInfo
    0x1008 0x1008 0x1008

/-- `def_cfa rsp, 16`, `offset rip, -8` and `offset rbp, -16`. -/
def pushProgram : List Byte := [0x0c, 0x07, 0x10, 0x90, 0x01, 0x86, 0x02, 0x00]

theorem exampleProcess_memory : ProcessMemory (exampleProcess pushProgram) where
  words addr val := by
    change wordOf (exampleProcess pushProgram) addr = _ ↔ _
    rw [wordOf]
    cases readw (exampleProcess pushProgram) addr with
    | error f => simp
    | ok word =>
        constructor
        · intro same
          exact ⟨word.2, by rw [← Except.ok.inj same]⟩
        · rintro ⟨next, read⟩
          rw [Except.ok.inj read]
  null _ := nofun
  top _ := nofun

theorem pushProgram_regular :
    Regular (exampleProcess pushProgram) (exampleRow pushProgram) .standard where
  returnRule _ := rfl
  pushed := nofun
  rbpHasValue := by decide
  cfaOffset _ := by decide
  savedOffset := by decide
  operand := nofun

theorem pushProgram_agrees :
    Agree false (exampleProcess pushProgram) exampleCursor (exampleRow pushProgram)
      (exampleTrace pushProgram) (exampleStep pushProgram) ∧
    HoldsOffsets (exampleProcess pushProgram) (exampleRow pushProgram)
      (exampleStep pushProgram).2.tdep.frameInfo := by
  have created : createStateRecordFor (exampleContext pushProgram) 8 exampleInfo 0x401010 true =
      .ok (exampleRecord pushProgram) := rfl
  have recorded : Recorded false (exampleProcess pushProgram) (exampleRow pushProgram)
      (exampleStep pushProgram).2.tdep.frameInfo :=
    ⟨2, exampleCursor, rfl, ⟨.inl rfl, rfl⟩, ⟨true, rfl⟩, rfl⟩
  have rules : Evaluates false (exampleProcess pushProgram) 2 exampleCursor
      (exampleRow pushProgram) := by
    intro cfa base
    obtain rfl : 0x1018 = cfa := Except.ok.inj base
    exact ⟨by decide, _, rfl⟩
  exact traceFrame_agrees rfl created recorded (.inl rfl) pushProgram_regular rfl
    exampleProcess_memory rfl rfl rules (le_refl 2)

/-- `def_cfa rsp, 16`, `offset rip, -8` and `same_value rsp`. -/
def sameRspProgram : List Byte := [0x0c, 0x07, 0x10, 0x90, 0x01, 0x08, 0x07, 0x00]

/-- A frame that keeps `rsp` is recorded as standard. The fast path then takes the
    CFA for it, as it says it does. -/
theorem sameRspProgram_disagrees :
    createStateRecordFor (exampleContext sameRspProgram) 8 exampleInfo 0x401010 true =
      .ok (exampleRecord sameRspProgram) ∧
    (exampleStep sameRspProgram).2.tdep.frameInfo.frameType = .standard ∧
    (exampleStep sameRspProgram).1 = .ok true ∧
    ∃ regs slowRsp,
      exampleTrace sameRspProgram = .ok regs ∧
      ((exampleStep sameRspProgram).2.loc rsp).get false (exampleProcess sameRspProgram) =
        .ok slowRsp ∧
      regs.rsp ≠ slowRsp := by
  refine ⟨rfl, rfl, rfl, ⟨0x1018, 0x402000, 0x1008, 0x1018, true⟩, 0x1008, rfl, rfl, ?_⟩
  decide

end Libunwind.X86_64
