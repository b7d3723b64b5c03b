import Libunwind.Dwarf.ReadDefined
import Libunwind.Dwarf.ExprStack

/-! # What expressions may not do

The tests of the stack macros suffice. What nothing tests is the shift of the operations and
of LEB128 operands, the quotient that is too large, and the sign of a register number.
-/

namespace Libunwind.Dwarf

variable {w : Nat}

/-- `dwarf_to_unw_regnum`, which looks a register up in `dwarf_to_unw_regnum_map`. -/
def dwarfToUnwRegnum (map : List Byte) (reg : Int) : Result Int :=
  if reg < map.length then
    if reg < 0 then .error .undefined
    else
      match map[reg.toNat]? with
      | some regnum => .ok regnum.toNat
      | none => .error .undefined
  else .ok 0

/-- A frame with the registers that are given by their libunwind numbers. -/
def fileContext (as : AddrSpace w) (map : List Byte) (file : Int → Except UnwError (Word w)) :
    ExprContext w where
  as
  toUnwRegnum := dwarfToUnwRegnum map
  getReg regnum := ofAccess (file regnum)

theorem dwarfToUnwRegnum_defined_iff {map : List Byte} {reg : Int} :
    Defined (dwarfToUnwRegnum map reg) ↔ 0 ≤ reg := by
  rw [dwarfToUnwRegnum]
  by_cases inMap : reg < map.length
  · rw [if_pos inMap]
    by_cases negative : reg < 0
    · rw [if_pos negative]
      exact iff_of_false (fun isDefined => isDefined rfl) (Int.not_le.mpr negative)
    · have inside : reg.toNat < map.length := by omega
      rw [if_neg negative, List.getElem?_eq_getElem inside]
      exact iff_of_true (.ok _) (Int.not_lt.mp negative)
  · rw [if_neg inMap]
    exact iff_of_true (.ok 0) (by omega)

/-! ## Operands -/

/-- A LEB128 operand fits. -/
def OperandSafe (as : AddrSpace w) (addr : Word w) (type : OperandType) : Prop :=
  type = .uleb128 ∨ type = .sleb128 → LebFits as addr

theorem readOperand_defined_iff (size : WordSize w) {as : AddrSpace w} {addr : Word w}
    {type : OperandType} : Defined (readOperand as addr type) ↔ OperandSafe as addr type := by
  cases type with
  | uleb128 =>
      rw [OperandSafe]
      simp only [true_or, forall_const]
      exact readUleb128_defined_iff
  | sleb128 =>
      rw [OperandSafe]
      simp only [or_true, forall_const]
      exact readSleb128_defined_iff
  | val8 => exact iff_of_true ((readu8_defined as addr).bind fun _ _ => .ok _) (by simp [OperandSafe])
  | val16 =>
      exact iff_of_true ((readu16_defined as addr).bind fun _ _ => .ok _) (by simp [OperandSafe])
  | val32 =>
      exact iff_of_true ((readu32_defined as addr).bind fun _ _ => .ok _) (by simp [OperandSafe])
  | val64 =>
      exact iff_of_true ((readu64_defined as addr).bind fun _ _ => .ok _) (by simp [OperandSafe])
  | offset => exact iff_of_true (.err _) (by simp [OperandSafe])
  | addr =>
      refine iff_of_true ?_ (by simp [OperandSafe])
      cases size with
      | inl narrow =>
          subst narrow
          exact (readu32_defined as addr).bind fun _ _ => .ok _
      | inr wide =>
          subst wide
          exact (readu64_defined as addr).bind fun _ _ => .ok _

/-- The operands fit, each at its address. -/
def OperandsSafe (as : AddrSpace w) (addr : Word w) : List OperandType → Prop
  | [] => True
  | [first] => OperandSafe as addr first
  | first :: second :: _ => OperandSafe as addr first ∧
      ∀ val next, readOperand as addr first = .ok (val, next) → OperandSafe as next second

theorem readOperands_defined_iff (size : WordSize w) {as : AddrSpace w} {addr : Word w}
    {types : List OperandType} :
    Defined (readOperands as addr types) ↔ OperandsSafe as addr types := by
  cases types with
  | nil => exact iff_of_true (.ok _) trivial
  | cons first rest =>
      cases rest with
      | nil =>
          rw [OperandsSafe, ← readOperand_defined_iff size, readOperands]
          constructor
          · intro isDefined undefined
            exact isDefined (by rw [undefined]; rfl)
          · exact fun isDefined => isDefined.bind fun _ _ => .ok _
      | cons second rest =>
          rw [OperandsSafe, ← readOperand_defined_iff size, readOperands]
          constructor
          · intro isDefined
            refine ⟨fun undefined => isDefined (by rw [undefined]; rfl), ?_⟩
            intro val next read
            rw [← readOperand_defined_iff size]
            intro undefined
            exact isDefined (by simp [read, undefined])
          · intro ⟨isDefined, later⟩
            apply isDefined.bind
            intro ⟨val, next⟩ read
            exact ((readOperand_defined_iff size).mpr (later val next read)).bind fun _ _ => .ok _

/-! ## Operations -/

/-- What is computed on a stack is defined. -/
def StackUse.Safe (stack : List (Word w)) : StackUse w → Prop
  | .push x => Defined x
  | .unary f => ∀ tmp1 rest, stack = tmp1 :: rest → Defined (f tmp1)
  | .binary f => ∀ tmp1 tmp2 rest, stack = tmp1 :: tmp2 :: rest → Defined (f tmp1 tmp2)
  | .register regnum => Defined regnum
  | _ => True

theorem pop_defined (s : ExprState w) : Defined (pop s) := by
  rw [pop]
  cases s.stack with
  | nil => exact .err _
  | cons x rest => exact .ok _

theorem push_defined (s : ExprState w) (x : Word w) : Defined (push s x) :=
  .ite (fun _ => .ok _) fun _ => .err _

theorem pick_defined (s : ExprState w) (index : Nat) : Defined (pick s index) := by
  rw [pick]
  cases s.stack[index]? with
  | none => exact .err _
  | some x => exact .ok _

theorem StackUse.onList_defined_iff {s : ExprState w} {use : StackUse w} :
    Defined (use.onList s) ↔ use.Safe s.stack := by
  cases use with
  | push x =>
      constructor
      · intro isDefined undefined
        exact isDefined (by rw [undefined]; rfl)
      · exact fun isDefined => isDefined.bind fun x _ => push_defined s x
  | unary f =>
      rw [StackUse.onList, pop, StackUse.Safe]
      cases s.stack with
      | nil => exact iff_of_true (.err _) (by simp)
      | cons tmp1 rest =>
          constructor
          · intro isDefined tmp1 rest same undefined
            cases same
            exact isDefined (by simp [undefined])
          · exact fun isDefined => (isDefined tmp1 rest rfl).bind fun x _ => push_defined _ x
  | binary f =>
      simp only [StackUse.onList, Dwarf.binary, Dwarf.pop, StackUse.Safe]
      cases stack : s.stack with
      | nil => exact iff_of_true (.err _) (by simp)
      | cons tmp1 rest =>
          cases rest with
          | nil => exact iff_of_true (.err _) (by simp)
          | cons tmp2 rest =>
              constructor
              · intro isDefined tmp1 tmp2 rest same undefined
                cases same
                exact isDefined (by simp [undefined])
              · intro isDefined
                exact (isDefined tmp1 tmp2 rest rfl).bind fun x _ => push_defined _ x
  | register regnum =>
      constructor
      · intro isDefined undefined
        exact isDefined (by rw [undefined]; rfl)
      · exact fun isDefined => isDefined.bind fun _ _ => .ok _
  | pick index =>
      exact iff_of_true ((pick_defined s _).bind fun x _ => push_defined s x) trivial
  | drop => exact iff_of_true ((pop_defined s).bind fun _ _ => .ok _) trivial
  | swap =>
      refine iff_of_true ((pop_defined s).bind fun _ _ => ?_) trivial
      exact (pop_defined _).bind fun _ _ => (push_defined _ _).bind fun s _ => push_defined s _
  | rot =>
      refine iff_of_true ((pop_defined s).bind fun _ _ => ?_) trivial
      apply (pop_defined _).bind
      intro _ _
      apply (pop_defined _).bind
      intro _ _
      exact (push_defined _ _).bind fun _ _ => (push_defined _ _).bind fun s _ => push_defined s _
  | skip offset => exact iff_of_true (.ok _) trivial
  | bra offset => exact iff_of_true ((pop_defined s).bind fun _ _ => .ok _) trivial
  | nop => exact iff_of_true (.ok _) trivial
  | unexpected => exact iff_of_true (.err _) trivial

/-- What an operation must not find: a shift as wide as a word, the overflowing quotient, a
    register number that is negative as an `int`, and on 32-bit words a little-endian load of
    five to seven bytes, whose mask is shifted too far. -/
def OpSafe (as : AddrSpace w) (operand1 : Word w) (stack : List (Word w)) : ExprOp → Prop
  | .bregx => 0 ≤ (operand1.setWidth 32).toInt
  | .derefSize => ∀ tmp1 rest read, stack = tmp1 :: rest → readu64 as tmp1 = .ok read →
      5 ≤ operand1.toNat → operand1.toNat ≤ 7 → as.bigEndian = false → 8 * operand1.toNat < w
  | .div => ∀ rest, stack ≠ -1 :: BitVec.intMin w :: rest
  | .shl | .shr | .shra => ∀ tmp1 tmp2 rest, stack = tmp1 :: tmp2 :: rest → tmp1.toNat < w
  | _ => True

/-- The load of five to seven bytes, out of eight. -/
theorem derefSize_wide {as : AddrSpace w} {addr : Word w} {bytes : Nat} (least : 5 ≤ bytes)
    (most : bytes ≤ 7) : derefSize as addr bytes = (do
      let (val, _) ← readu64 as addr
      let val : Word w := val.setWidth w
      if as.bigEndian then
        if 64 - 8 * bytes < w then pure (val >>> (64 - 8 * bytes)) else .error .undefined
      else if 8 * bytes < w then pure (val &&& ((-1 : Word w) <<< (8 * bytes)))
      else .error .undefined) := by
  have sizes : bytes = 5 ∨ bytes = 6 ∨ bytes = 7 := by omega
  rcases sizes with rfl | rfl | rfl
  · rfl
  · rfl
  · rfl

theorem derefSize_defined (as : AddrSpace w) (addr : Word w) {bytes : Nat}
    (other : ¬ (5 ≤ bytes ∧ bytes ≤ 7)) : Defined (derefSize as addr bytes) := by
  unfold derefSize
  split
  · exact (readu8_defined as addr).bind fun _ _ => .ok _
  · exact (readu16_defined as addr).bind fun _ _ => .ok _
  · exact (readu32_defined as addr).bind fun _ _ => .ok _
  · exact (readu32_defined as addr).bind fun _ _ => .ok _
  · exact absurd (by omega) other
  · exact absurd (by omega) other
  · exact absurd (by omega) other
  · exact (readu64_defined as addr).bind fun _ _ => .ok _
  · exact .err _

theorem derefSize_defined_iff (size : WordSize w) {as : AddrSpace w} {addr : Word w} {bytes : Nat} :
    Defined (derefSize as addr bytes) ↔ ∀ read, readu64 as addr = .ok read → 5 ≤ bytes →
      bytes ≤ 7 → as.bigEndian = false → 8 * bytes < w := by
  by_cases wide : 5 ≤ bytes ∧ bytes ≤ 7
  · rw [derefSize_wide wide.1 wide.2]
    cases read : readu64 as addr with
    | error e =>
        have isDefined := readu64_defined as addr
        rw [read] at isDefined
        refine iff_of_true (fun same => isDefined ?_) (by simp)
        cases same
        rfl
    | ok value =>
        have least : 64 - 8 * bytes < w := by
          cases size with
          | inl narrow => omega
          | inr wide => omega
        cases big : as.bigEndian with
        | true => exact iff_of_true (by simp [least, Defined]) (by simp)
        | false =>
            by_cases narrow : 8 * bytes < w
            · exact iff_of_true (by simp [narrow, Defined]) fun _ _ _ _ _ => narrow
            · refine iff_of_false (by simp [narrow, Defined]) fun fits => narrow ?_
              exact fits value rfl wide.1 wide.2 rfl
  · refine iff_of_true (derefSize_defined as addr wide) ?_
    intro read _ least most
    exact absurd ⟨least, most⟩ wide

theorem stackUse_safe_iff (size : WordSize w) {as : AddrSpace w} {map : List Byte}
    {file : Int → Except UnwError (Word w)} {op : ExprOp} {operand1 operand2 : Word w}
    {stack : List (Word w)} :
    (op.stackUse (fileContext as map file) operand1 operand2).Safe stack ↔
      OpSafe as operand1 stack op := by
  have shift {result : Word w → Word w → Word w} :
      (StackUse.binary fun tmp1 tmp2 => shiftBy tmp1 (result tmp1 tmp2)).Safe stack ↔
        ∀ tmp1 tmp2 rest, stack = tmp1 :: tmp2 :: rest → tmp1.toNat < w := by
    apply forall_congr'
    intro tmp1
    apply forall_congr'
    intro tmp2
    apply forall_congr'
    intro rest
    apply imp_congr_right
    intro _
    simp only [shiftBy]
    by_cases narrow : tmp1.toNat < w
    · rw [if_pos narrow]
      exact iff_of_true (.ok _) narrow
    · rw [if_neg narrow]
      exact iff_of_false (fun isDefined => isDefined rfl) narrow
  have register {reg : Int} {value : Word w → Word w} :
      Defined (dwarfToUnwRegnum map reg >>= fun regnum =>
        ofAccess (file regnum) >>= fun tmp1 => .ok (value tmp1)) ↔ 0 ≤ reg := by
    constructor
    · intro isDefined
      rw [← dwarfToUnwRegnum_defined_iff]
      intro undefined
      exact isDefined (by rw [undefined]; rfl)
    · intro nonneg
      apply (dwarfToUnwRegnum_defined_iff.mpr nonneg).bind
      intro regnum _
      cases file regnum with
      | error code => exact .err code
      | ok tmp1 => exact .ok _
  have always {use : StackUse w} (safe : use.Safe stack) : use.Safe stack ↔ True :=
    iff_of_true safe trivial
  cases op with
  | bregx => exact register
  | breg r => exact always (register.mpr (Int.natCast_nonneg r))
  | reg r => exact always (dwarfToUnwRegnum_defined_iff.mpr (Int.natCast_nonneg r))
  | regx => exact always (dwarfToUnwRegnum_defined_iff.mpr (Int.natCast_nonneg _))
  | deref =>
      apply always
      intro tmp1 rest _
      exact (size.readw_defined as tmp1).bind fun _ _ => .ok _
  | derefSize =>
      constructor
      · intro safe tmp1 rest read top
        exact (derefSize_defined_iff size).mp (safe tmp1 rest top) read
      · intro safe tmp1 rest top
        exact (derefSize_defined_iff size).mpr fun read => safe tmp1 rest read top
  | div =>
      constructor
      · intro safe rest overflows
        apply safe _ _ rest overflows
        cases size with
        | inl narrow =>
            subst narrow
            rfl
        | inr wide =>
            subst wide
            rfl
      · intro safe tmp1 tmp2 rest top
        rw [signedDiv]
        apply Defined.ite fun _ => .ok _
        intro _
        apply Defined.ite
        · intro ⟨minusOne, least⟩
          exact absurd (by rw [top, minusOne, least]) (safe rest)
        · exact fun _ => .ok _
  | shl => exact shift
  | shr => exact shift
  | shra => exact shift
  | lit | const | constSigned => exact always (.ok _)
  | dup | drop | pick | «over» | swap | rot | skip | bra | nop | unexpected => exact always trivial
  | abs | neg | not | plusUconst =>
      apply always
      intro tmp1 rest _
      exact .ok _
  | and | or | xor | plus | minus | mul | mod | le | ge | lt | gt | eq | ne =>
      apply always
      intro tmp1 tmp2 rest _
      exact .ok _

/-! ## Steps and evaluations -/

/-- The next operation and its operands are safe. -/
def StepSafe (as : AddrSpace w) (s : ExprState w) : Prop :=
  ∀ opcode addr, readu8 as s.addr = .ok (opcode, addr) →
    OperandsSafe as addr (operands opcode) ∧
      ∀ operand1 operand2 next, readOperands as addr (operands opcode) =
        .ok (operand1, operand2, next) → OpSafe as operand1 s.stack (.ofByte opcode)

section Evaluation

variable (size : WordSize w) {as : AddrSpace w} {map : List Byte}
  {file : Int → Except UnwError (Word w)}

include size

theorem exprStep_defined_iff {s : ExprState w} :
    Defined (exprStep (fileContext as map file) s) ↔ StepSafe as s := by
  have space : (fileContext as map file).as = as := rfl
  rw [exprStep, StepSafe, space]
  cases byte : readu8 as s.addr with
  | error e =>
      have isDefined := readu8_defined as s.addr
      rw [byte] at isDefined
      refine iff_of_true (fun same => isDefined ?_) (by simp)
      cases same
      rfl
  | ok read =>
      obtain ⟨opcode, addr⟩ := read
      have given : (∀ opcode' addr', (Except.ok (opcode, addr) : Result (Byte × Word w)) =
            .ok (opcode', addr') → OperandsSafe as addr' (operands opcode') ∧
              ∀ operand1 operand2 next, readOperands as addr' (operands opcode') =
                .ok (operand1, operand2, next) → OpSafe as operand1 s.stack (.ofByte opcode')) ↔
          OperandsSafe as addr (operands opcode) ∧
            ∀ operand1 operand2 next, readOperands as addr (operands opcode) =
              .ok (operand1, operand2, next) → OpSafe as operand1 s.stack (.ofByte opcode) := by
        constructor
        · exact fun all => all opcode addr rfl
        · intro one opcode' addr' same
          cases same
          exact one
      rw [given, ← readOperands_defined_iff size, ok_bind]
      cases operand : readOperands as addr (operands opcode) with
      | error e => simp [operand, Defined]
      | ok read =>
          obtain ⟨operand1, operand2, next⟩ := read
          simp only [operand, ok_bind, exprExec_eq, StackUse.onList_defined_iff,
            stackUse_safe_iff size]
          constructor
          · intro safe
            refine ⟨.ok _, ?_⟩
            intro operand1 operand2 next same
            cases same
            exact safe
          · exact fun safe => safe.2 operand1 operand2 next rfl

/-- Nothing in the evaluation is undefined, and the array is used up to `tos` only. -/
structure EvaluatesSafely (ctx : ExprContext w) (stackVal addr len : Word w) : Prop where
  /-- The depth, and that what lies below it was written. -/
  inside : ∀ a, WhileLoop.Reaches (slotGuard (addr + len)) (slotStep ctx)
    (slotStart stackVal addr) a → a.stack.tos.toNat ≤ maxExprStackSize ∧
      ∀ i < a.stack.tos.toNat, ∃ x, a.stack.slots[i]? = some (some x)
  steps : ∀ a, WhileLoop.Reaches (slotGuard (addr + len)) (slotStep ctx)
    (slotStart stackVal addr) a → slotGuard (addr + len) a = true → Defined (slotStep ctx a)
  /-- The value that is popped at the end. -/
  result : ∀ a, WhileLoop.Reaches (slotGuard (addr + len)) (slotStep ctx)
    (slotStart stackVal addr) a → Defined a.stack.pop

theorem evaluatesSafely_iff {stackVal addr len : Word w} :
    EvaluatesSafely (fileContext as map file) stackVal addr len ↔
      ∀ s, WhileLoop.Reaches (exprGuard (addr + len)) (exprStep (fileContext as map file))
        { addr, stack := [stackVal] } s → exprGuard (addr + len) s = true → StepSafe as s := by
  have wide := size.least
  have start := slotStart_matches stackVal addr
  constructor
  · intro safe s path enter
    obtain ⟨a, path, related⟩ := start.reached wide path
    rw [← related.guard] at enter
    rw [← exprStep_defined_iff size]
    exact (slotStep_simulates _ wide related).defined_iff.mp (safe.steps a path enter)
  · intro safe
    constructor
    · intro a path
      obtain ⟨s, -, related⟩ := start.reaches wide path
      refine ⟨related.stack.tos.trans_le related.stack.fits, ?_⟩
      intro i below
      exact related.stack.written_of_lt (related.stack.tos ▸ below)
    · intro a path enter
      obtain ⟨s, path, related⟩ := start.reaches wide path
      rw [related.guard] at enter
      have isDefined : Defined (exprStep (fileContext as map file) s) :=
        (exprStep_defined_iff size).mpr (safe s path enter)
      exact (slotStep_simulates _ wide related).defined_iff.mpr isDefined
    · intro a path
      obtain ⟨s, -, related⟩ := start.reaches wide path
      cases related.stack.pop with
      | inl empty =>
          rw [empty.2]
          exact .err _
      | inr some' =>
          obtain ⟨x, rest, a', -, popped, -⟩ := some'
          rw [popped]
          exact .ok _

end Evaluation

/-! ## A shift by the width of a word -/

namespace WideShift

/-- `DW_OP_lit1`, `DW_OP_const1u 64`, `DW_OP_shl`. -/
def as : AddrSpace 64 := spaceOfBytes 64 [0x31, 0x08, 0x40, 0x24]

def ctx : ExprContext 64 := fileContext as [] fun _ => .error .badreg

/-- The states before the constant and before the shift. -/
def second : SlotState 64 where
  addr := 1
  stack := { slots := (slotStart 0 0).stack.slots.set 1 (some 1), tos := 2 }

def third : SlotState 64 where
  addr := 3
  stack := { slots := second.stack.slots.set 2 (some 64), tos := 3 }

theorem not_safe : ¬ EvaluatesSafely ctx 0 0 4 := by
  intro safe
  have path : WhileLoop.Reaches (slotGuard (0 + 4)) (slotStep ctx) (slotStart 0 0) third :=
    .step rfl (show slotStep ctx (slotStart 0 0) = .ok second from rfl) <|
      .step rfl (show slotStep ctx second = .ok third from rfl) (.refl third)
  exact safe.steps third path rfl rfl

/-- The constant alone. -/
theorem lit_safe : EvaluatesSafely ctx 0 0 1 := by
  apply (evaluatesSafely_iff (.inr rfl)).mpr
  intro s path enter
  have round : exprStep ctx { addr := 0, stack := [0] } = .ok { addr := 1, stack := [1, 0] } := rfl
  cases path.of_round round with
  | inl start =>
      subst start
      intro opcode addr read
      cases read
      exact ⟨trivial, fun _ _ _ _ => trivial⟩
  | inr later =>
      rw [later.of_exit rfl] at enter
      cases enter

end WideShift

end Libunwind.Dwarf
