import Libunwind.Dwarf.ExprRefinement

/-! # Evaluations

From the single operations to whole expressions. The evaluator stays with the reference from
step to step, and then returns the same value.
-/

namespace Libunwind.Dwarf

open StackMachine

variable {w : Nat}

/-- What the next step needs: nothing is undefined, the load is the right one, and the array
    has room. -/
structure StepExact (e : StoredExpr w) (s : State w) : Prop where
  safe : StepSafe e.as (e.image s)
  load : ∀ op x y rest, decode e.machine (e.code.drop s.pc) = some (op, x, y, rest) →
    Exact e.as x s.stack op
  room : ∀ next, step e.machine e.code s = some next → next.stack.length ≤ maxExprStackSize

section Step

variable (e : StoredExpr w) {s next : State w}

theorem stores_drop (pc : Nat) (inside : pc ≤ e.code.length) :
    Stores e.as (e.addr + BitVec.ofNat w pc) (e.code.drop pc) := by
  have stored := e.stored
  rw [← List.take_append_drop pc e.code, stores_append, List.length_take,
    Nat.min_eq_left inside] at stored
  exact stored.2

/-- Once its operands are read, a step is what the operation does. -/
theorem exprStep_eq {op : Opcode} {x y : Int} {rest : List Byte}
    (decoded : decode e.machine (e.code.drop s.pc) = some (op, x, y, rest)) :
    ∃ byte addr, readu8 e.as (e.image s).addr = .ok (byte, addr) ∧ ExprOp.ofByte byte = op.exprOp ∧
      Number.AllInRange x y op.operands ∧
      (Defined (readOperands e.as addr (operands byte)) →
        ∃ addr', readOperands e.as addr (operands byte) =
            .ok ((Number.rawOperands x y op.operands).1, (Number.rawOperands x y op.operands).2,
              addr') ∧
          addr' = (e.image { s with pc := e.code.length - rest.length }).addr) := by
  have inside : s.pc < e.code.length := by
    by_contra outside
    rw [List.drop_eq_nil_of_le (Nat.le_of_not_lt outside)] at decoded
    cases decoded
  have stored := stores_drop e s.pc inside.le
  have length := List.length_drop (i := s.pc) (l := e.code)
  cases ahead : e.code.drop s.pc with
  | nil =>
      rw [ahead] at decoded
      cases decoded
  | cons byte bytes =>
      rw [ahead] at decoded stored length
      simp only [decode, Option.bind_eq_bind, Option.bind_eq_some_iff, Option.some.injEq,
        Prod.mk.injEq] at decoded
      obtain ⟨op', isOp, ⟨x', y', rest'⟩, read, rfl, rfl, rfl, rfl⟩ := decoded
      obtain ⟨isExprOp, isOperands⟩ := Opcode.ofByte_tables byte op' isOp
      refine ⟨byte, _, readu8_byte stored.1, isExprOp, Number.readNumbers_inRange read, ?_⟩
      intro isDefined
      rw [isOperands] at isDefined
      obtain ⟨front, rfl, result⟩ := Number.read_operands e.size rfl read stored.2 isDefined
      refine ⟨_, by rw [isOperands]; exact result, ?_⟩
      have place : e.code.length - rest'.length = s.pc + (1 + front.length) := by
        rw [List.length_cons, List.length_append] at length
        omega
      rw [StoredExpr.image, place, ← add_ofNat_add, ← add_ofNat_add]
      rfl

theorem exprStep_iff (room : s.stack.length ≤ maxExprStackSize)
    (does : step e.machine e.code s = some next) :
    exprStep e.ctx (e.image s) = .ok (e.image next) ↔ StepExact e s := by
  have executed := does
  simp only [step] at executed
  split at executed
  · cases executed
  · simp only [Option.bind_eq_bind, Option.bind_eq_some_iff] at executed
    obtain ⟨⟨op, x, y, rest⟩, decoded, executed⟩ := executed
    obtain ⟨byte, addr, isByte, isOp, ranges, operandsRead⟩ := exprStep_eq e decoded
    have exec := exec_iff e (s := { s with pc := e.code.length - rest.length }) room ranges executed
    have split : exprStep e.ctx (e.image s) =
        (readOperands e.as addr (operands byte)) >>= fun read =>
          exprExec e.ctx op.exprOp read.1 read.2.1 { e.image s with addr := read.2.2 } := by
      rw [exprStep, show e.ctx.as = e.as from rfl, isByte, ok_bind]
      simp only [isOp]
    constructor
    · intro result
      have safe : StepSafe e.as (e.image s) := by
        have isDefined : Defined (exprStep e.ctx (e.image s)) := by
          rw [result]
          exact .ok _
        exact (exprStep_defined_iff e.size).mp isDefined
      have isDefined := (readOperands_defined_iff e.size).mpr (safe byte addr isByte).1
      obtain ⟨addr', isRead, place⟩ := operandsRead isDefined
      rw [split, isRead, ok_bind, place] at result
      obtain ⟨-, load, fits⟩ := exec.mp result
      refine ⟨safe, ?_, ?_⟩
      · intro op' x' y' rest' decoded'
        cases decoded.symm.trans decoded'
        exact load
      · intro next' does'
        cases does.symm.trans does'
        exact fits
    · intro needs
      have safe := needs.safe byte addr isByte
      obtain ⟨addr', isRead, place⟩ := operandsRead ((readOperands_defined_iff e.size).mpr safe.1)
      rw [split, isRead, ok_bind, place]
      refine exec.mpr ⟨?_, needs.load op x y rest decoded, needs.room next does⟩
      have opSafe := safe.2 _ _ _ isRead
      rw [isOp] at opSafe
      exact opSafe

end Step

/-! ## Whole expressions -/

namespace StoredExpr

def endAddr (e : StoredExpr w) : Word w := e.addr + BitVec.ofNat w e.code.length

/-- `valp` with `is_register`. -/
def result (e : StoredExpr w) : Value w → ExprValue w
  | .word x => ⟨x, false⟩
  | .register r => ⟨BitVec.ofInt w (e.regnum r), true⟩

end StoredExpr

/-- From a state on, the evaluator goes through the states of the reference, and stops where
    the expression ends. -/
structure InLockstep (e : StoredExpr w) (start : State w) : Prop where
  steps : ∀ s next, Runs e.machine e.code start s → step e.machine e.code s = some next →
    exprGuard e.endAddr (e.image s) = true ∧ exprStep e.ctx (e.image s) = .ok (e.image next)
  stops : ∀ s, Runs e.machine e.code start s → s.pc = e.code.length →
    exprGuard e.endAddr (e.image s) = false

/-- What the evaluation of an expression needs: exact steps, and that the expression does not
    reach over the end of the address space. -/
structure ExactRun (e : StoredExpr w) (x : Word w) : Prop where
  steps : ∀ s next, Runs e.machine e.code (start x) s → step e.machine e.code s = some next →
    StepExact e s
  fits : e.addr.toNat + e.code.length < 2 ^ w

section Evaluation

variable {e : StoredExpr w} {s t : State w} {x : Word w}

theorem InLockstep.reaches (together : InLockstep e s) (path : Runs e.machine e.code s t) :
    WhileLoop.Reaches (exprGuard e.endAddr) (exprStep e.ctx) (e.image s) (e.image t) := by
  induction path with
  | refl s => exact .refl _
  | @step s next t round path ih =>
      obtain ⟨enter, does⟩ := together.steps s next (.refl s) round
      refine .step enter does (ih ⟨?_, ?_⟩)
      · intro a b path'
        exact together.steps a b (.step round path')
      · intro a path'
        exact together.stops a (.step round path')

/-- In lockstep, the evaluator returns the value of the reference. -/
theorem InLockstep.evalExpr_eq (together : InLockstep e (start x)) {value : Value w}
    (evaluates : Evaluates e.machine e.code x value) :
    ∃ rounds, ∀ budget, evalExpr e.ctx (rounds + budget) x e.addr (BitVec.ofNat w e.code.length) =
      .ok (e.result value) := by
  obtain ⟨s, path, atEnd, hasValue⟩ := evaluates
  have begins : e.image (start x) = { addr := e.addr, stack := [x] } := by
    simp [StoredExpr.image, start]
  obtain ⟨rounds, shifted⟩ : ∃ rounds, ∀ budget,
      WhileLoop.run Fault.timeout (exprGuard e.endAddr) (exprStep e.ctx) (rounds + budget)
          { addr := e.addr, stack := [x] } =
        WhileLoop.run Fault.timeout (exprGuard e.endAddr) (exprStep e.ctx) budget (e.image s) :=
    begins ▸ (together.reaches path).run_shift
  refine ⟨rounds, fun budget => ?_⟩
  have ended := shifted budget
  rw [WhileLoop.run_exit (together.stops s path atEnd), StoredExpr.endAddr] at ended
  rw [evalExpr, ended, ok_bind]
  simp only [State.value] at hasValue
  cases named : s.register with
  | some r =>
      simp only [named, Option.some.injEq] at hasValue
      subst hasValue
      simp [StoredExpr.image, named, StoredExpr.result]
  | none =>
      simp only [named] at hasValue
      cases top : s.stack with
      | nil => simp [top] at hasValue
      | cons a rest =>
          simp only [top, List.head?_cons, Option.map_some, Option.some.injEq] at hasValue
          subst hasValue
          simp [StoredExpr.image, named, pop, top, StoredExpr.result]

theorem step_enters (does : step e.machine e.code s = some t) :
    s.register = none ∧ s.pc < e.code.length := by
  simp only [step] at does
  split at does
  · cases does
  · rename_i unnamed
    refine ⟨by simpa using unnamed, ?_⟩
    by_contra outside
    rw [List.drop_eq_nil_of_le (Nat.le_of_not_lt outside)] at does
    cases does

theorem image_guard (fits : e.addr.toNat + e.code.length < 2 ^ w) (inside : s.pc ≤ e.code.length) :
    exprGuard e.endAddr (e.image s) = (s.register.isNone && decide (s.pc < e.code.length)) := by
  have place {n : Nat} (within : n ≤ e.code.length) :
      (e.addr + BitVec.ofNat w n).toNat = e.addr.toNat + n := by
    rw [BitVec.toNat_add, BitVec.toNat_ofNat, Nat.add_mod_mod]
    exact Nat.mod_eq_of_lt (by omega)
  have before : (e.addr + BitVec.ofNat w s.pc < e.endAddr) ↔ s.pc < e.code.length := by
    rw [StoredExpr.endAddr, BitVec.lt_def, place inside, place (Nat.le_refl _)]
    omega
  simp [exprGuard, StoredExpr.image, before]

theorem InLockstep.room (together : InLockstep e s) (path : Runs e.machine e.code s t)
    (room : s.stack.length ≤ maxExprStackSize) : t.stack.length ≤ maxExprStackSize := by
  induction path with
  | refl s => exact room
  | @step s next t round path ih =>
      obtain ⟨-, does⟩ := together.steps s next (.refl s) round
      apply ih
      · constructor
        · intro a b path'
          exact together.steps a b (.step round path')
        · intro a path'
          exact together.stops a (.step round path')
      · exact ((exprStep_iff e room round).mp does).room next round

/-- Exact steps leave room behind. -/
theorem room_of_exact
    (exactSteps : ∀ a b, Runs e.machine e.code s a → step e.machine e.code a = some b → StepExact e a)
    (path : Runs e.machine e.code s t) (room : s.stack.length ≤ maxExprStackSize) :
    t.stack.length ≤ maxExprStackSize := by
  induction path with
  | refl s => exact room
  | @step s next t round path ih =>
      apply ih
      · intro a b path'
        exact exactSteps a b (.step round path')
      · exact (exactSteps s next (.refl s) round).room next round

theorem inLockstep_iff {value : Value w} (evaluates : Evaluates e.machine e.code x value) :
    InLockstep e (start x) ↔ ExactRun e x := by
  have begins : (start x).stack.length ≤ maxExprStackSize := Nat.le_of_ble_eq_true rfl
  constructor
  · intro together
    constructor
    · intro s next path does
      exact (exprStep_iff e (together.room path begins) does).mp (together.steps s next path does).2
    · obtain ⟨s, path, atEnd, -⟩ := evaluates
      cases path with
      | refl =>
          have empty : 0 = e.code.length := atEnd
          have isLt := e.addr.isLt
          omega
      | step round path =>
          obtain ⟨enter, -⟩ := together.steps _ _ (.refl _) round
          have before : e.addr < e.endAddr := by
            simpa [exprGuard, StoredExpr.image, start] using enter
          have short := e.length_lt
          have isLt := e.addr.isLt
          rw [StoredExpr.endAddr, BitVec.lt_def, BitVec.toNat_add, BitVec.toNat_ofNat,
            Nat.add_mod_mod] at before
          by_contra wraps
          rw [Nat.mod_eq_sub_mod (by omega), Nat.mod_eq_of_lt (by omega)] at before
          omega
  · intro needs
    obtain ⟨exactSteps, fits⟩ := needs
    constructor
    · intro s next path does
      obtain ⟨unnamed, inside⟩ := step_enters does
      constructor
      · rw [image_guard fits inside.le, unnamed]
        simpa using inside
      · exact (exprStep_iff e (room_of_exact exactSteps path begins) does).mpr
          (exactSteps s next path does)
    · intro s path atEnd
      rw [image_guard fits atEnd.le, atEnd]
      simp

/-- The evaluator goes through the reference's evaluation exactly if each of its steps is exact,
    and then returns the same value. -/
theorem computes_reference {value : Value w} (evaluates : Evaluates e.machine e.code x value) :
    (InLockstep e (start x) ↔ ExactRun e x) ∧
      (ExactRun e x → ∃ rounds, ∀ budget,
        evalExpr e.ctx (rounds + budget) x e.addr (BitVec.ofNat w e.code.length) =
          .ok (e.result value)) := by
  refine ⟨inLockstep_iff evaluates, fun needs => ?_⟩
  exact ((inLockstep_iff evaluates).mpr needs).evalExpr_eq evaluates

end Evaluation

/-! ## Loads of two and of five bytes -/

theorem no_registers : ([] : List Byte).length ≤ 2 ^ 31 := Nat.zero_le _

namespace TwoBytes

/-- `DW_OP_deref_size 2`, at address 0. -/
def code : List Byte := [0x94, 0x02]

theorem code_stored : Stores (spaceOfBytes 64 code) 0 code := ⟨rfl, rfl, trivial⟩

theorem length_code : code.length < 2 ^ 64 := by decide

def expr : StoredExpr 64 where
  as := spaceOfBytes 64 code
  size := .eight
  map := []
  mapSize := no_registers
  file _ := .error .badreg
  addr := 0
  code
  stored := code_stored
  length_lt := length_code

/-- The expression loads itself. -/
theorem evaluates : Evaluates expr.machine expr.code 0 (.word 0x0294) :=
  ⟨⟨2, [0x0294], none⟩, .step rfl (.refl _), rfl, rfl⟩

theorem first_exact : StepExact expr (start 0) := by
  constructor
  · intro opcode addr read
    cases read
    refine ⟨by simp [operands, OperandsSafe, OperandSafe], ?_⟩
    intro operand1 operand2 next read
    cases read
    intro tmp1 rest read _ _ least
    simp at least
  · intro op x y rest decoded
    cases decoded
    intro addr rest _
    refine ⟨fun three => ?_, fun least => ?_⟩
    · cases three
    · exact absurd least (by decide)
  · intro next does
    cases does
    exact Nat.le_of_ble_eq_true rfl

theorem value_computed : ∃ rounds, ∀ budget, evalExpr expr.ctx (rounds + budget) 0 0 2 =
    .ok ⟨0x0294, false⟩ := by
  refine (computes_reference evaluates).2 ⟨?_, by decide⟩
  intro s next path does
  cases path with
  | refl => exact first_exact
  | step round path =>
      cases round
      cases path with
      | refl => cases does
      | step round => cases round

end TwoBytes

namespace FiveBytes

/-- `DW_OP_deref_size 5`, at address 0. -/
def code : List Byte := [0x94, 0x05]

theorem code_stored : Stores (spaceOfBytes 64 (code ++ [0, 0, 0, 0, 0, 0])) 0 code := ⟨rfl, rfl, trivial⟩

theorem length_code : code.length < 2 ^ 64 := by decide

def expr : StoredExpr 64 where
  as := spaceOfBytes 64 (code ++ [0, 0, 0, 0, 0, 0])
  size := .eight
  map := []
  mapSize := no_registers
  file _ := .error .badreg
  addr := 0
  code
  stored := code_stored
  length_lt := length_code

/-- The mask clears the bytes that were to be kept. -/
theorem value_lost :
    Evaluates expr.machine expr.code 0 (.word 0x0594) ∧
      ∀ budget, evalExpr expr.ctx (1 + budget) 0 0 2 = .ok ⟨0, false⟩ := by
  have evaluates : Evaluates expr.machine expr.code 0 (.word 0x0594) :=
    ⟨⟨2, [0x0594], none⟩, .step rfl (.refl _), rfl, rfl⟩
  refine ⟨evaluates, fun budget => ?_⟩
  have round : exprStep expr.ctx { addr := 0, stack := [0] } = .ok { addr := 2, stack := [0] } := rfl
  have path : WhileLoop.run .timeout (exprGuard (0 + 2)) (exprStep expr.ctx) (1 + budget)
      { addr := 0, stack := [0] } = .ok { addr := 2, stack := [0] } := by
    rw [Nat.add_comm, WhileLoop.run_next rfl round, WhileLoop.run_exit rfl]
  rw [evalExpr, path]
  rfl

end FiveBytes

end Libunwind.Dwarf
