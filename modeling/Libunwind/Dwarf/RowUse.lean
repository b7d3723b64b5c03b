import Libunwind.Dwarf.ApplyRegState
import Libunwind.Dwarf.StateRecord

/-! # What a row has to have when it is applied

`apply_reg_state` asserts that the CFA has a rule, and takes the value of a register rule for
the number of another register. Whether that holds depends on the instructions that were run,
and of each only its effect on these two facts matters.
-/

namespace Libunwind.Dwarf

variable {n w : Nat}

/-- What a row says of the CFA and of registers that are saved in other ones. -/
@[ext] structure Facts (n w : Nat) where
  /-- The CFA is defined. -/
  base : Bool := false
  /-- The operand of a `DWARF_WHERE_REG` rule. -/
  savedIn : Fin n → Option (Word w) := fun _ => none

def Facts.ofRow (rs : RegState n w) : Facts n w where
  base := (rs.reg (cfaRegColumn n)).how = .reg || (rs.reg (cfaRegColumn n)).how = .expr
  savedIn i :=
    if (rs.reg (regColumn i)).how = .reg then some (rs.reg (regColumn i)).val else none

def Facts.saveIn (facts : Facts n w) (r : Fin n) (other : Option (Word w)) : Facts n w :=
  { facts with savedIn := Function.update facts.savedIn r other }

/-- The part of an instruction that changes them. -/
inductive Effect (n w : Nat) where
  | keeps
  /-- The CFA gets a rule. -/
  | base
  /-- A register gets a rule. -/
  | rule (r : Fin n) (savedIn : Option (Word w))
  | restore (r : Fin n)
  /-- The sixteen windowed registers get rules. -/
  | window
  | remember
  | recall
  deriving DecidableEq

/-- What the instructions with this opcode change. -/
def CfaOpcode.effect (env : CfiEnv n w) (operand addr : Word w) :
    CfaOpcode → Result (Effect n w)
  | .advanceLoc | .advanceLoc1 | .advanceLoc2 | .advanceLoc4 | .mipsAdvanceLoc8 | .nop | .setLoc
  | .defCfaOffset | .defCfaOffsetSf | .gnuArgsSize | .loUser | .hiUser => .ok .keeps
  | .defCfa | .defCfaSf | .defCfaRegister | .defCfaExpression => .ok .base
  | .offset =>
      if valid : operand.toNat < n then .ok (.rule ⟨operand.toNat, valid⟩ none) else .ok .keeps
  | .offsetExtended | .offsetExtendedSf | .gnuNegativeOffsetExtended | .undefined | .sameValue
  | .expression | .valExpression => do
      let (r, _) ← readRegnum n env.as addr
      .ok (.rule r none)
  | .register => do
      let (r, addr) ← readRegnum n env.as addr
      let (val, _) ← readUleb128 env.as addr
      .ok (.rule r (some val))
  | .restore =>
      if valid : operand.toNat < n then .ok (.restore ⟨operand.toNat, valid⟩) else .ok .keeps
  | .restoreExtended => do
      let (r, _) ← readRegnum n env.as addr
      .ok (.restore r)
  | .rememberState => .ok .remember
  | .restoreState => .ok .recall
  | .gnuWindowSave =>
      match env.target.windowSave with
      | .sparc _ => .ok .window
      | .aarch64 r => .ok (.rule r none)
      | .unexpected => .ok .keeps

/-- The effect of the instruction at an address. -/
def effectAt (env : CfiEnv n w) (addr : Word w) : Result (Effect n w) := do
  let (byte, addr) ← readu8 env.as addr
  let (op, operand) := splitOpcode byte
  match CfaOpcode.ofByte op with
  | some op => op.effect env (operand.setWidth w) addr
  | none => .ok .keeps

/-- The facts about each row of a state. -/
@[ext] structure FactState (n w : Nat) where
  current : Facts n w
  initial : Facts n w
  stack : List (Facts n w)

def Effect.apply (facts : FactState n w) : Effect n w → FactState n w
  | .keeps => facts
  | .base => { facts with current := { facts.current with base := true } }
  | .rule r savedIn => { facts with current := facts.current.saveIn r savedIn }
  | .restore r => { facts with current := facts.current.saveIn r (facts.initial.savedIn r) }
  | .window =>
      let savedIn (r : Fin n) : Option (Word w) :=
        if 16 ≤ r.val ∧ r.val < 32 then none else facts.current.savedIn r
      { facts with current := { facts.current with savedIn } }
  | .remember => { facts with stack := facts.current :: facts.stack }
  | .recall =>
      match facts.stack with
      | [] => facts
      | saved :: stack => { facts with current := saved, stack }

def FactState.ofCfi (s : CfiState n w) : FactState n w where
  current := .ofRow s.sr.rsCurrent
  initial := .ofRow s.sr.rsInitial
  stack := s.rsStack.map .ofRow

section Rows

variable (rs : RegState n w)

theorem ofRow_set_reg (r : Fin n) (how : Where) (val : Word w) :
    Facts.ofRow (rs.set (regColumn r) ⟨how, val⟩) =
      (Facts.ofRow rs).saveIn r (if how = .reg then some val else none) := by
  ext i other
  · simp [Facts.ofRow, Facts.saveIn, RegState.set_reg_other _ _ (regColumn_ne_cfaReg r).symm]
  · by_cases same : i = r
    · subst same
      simp [Facts.ofRow, Facts.saveIn]
    · have different : regColumn i ≠ regColumn r := fun eq => same (regColumn_injective eq)
      simp [Facts.ofRow, Facts.saveIn, same, RegState.set_reg_other _ _ different]

theorem ofRow_set_base {how : Where} (val : Word w) (defines : how = .reg ∨ how = .expr) :
    Facts.ofRow (rs.set (cfaRegColumn n) ⟨how, val⟩) = { Facts.ofRow rs with base := true } := by
  ext i other
  · simpa [Facts.ofRow] using defines
  · simp [Facts.ofRow, RegState.set_reg_other _ _ (regColumn_ne_cfaReg i)]

theorem ofRow_set_offset (rule : Rule w) :
    Facts.ofRow (rs.set (cfaOffColumn n) rule) = Facts.ofRow rs := by
  ext i other
  · simp [Facts.ofRow, RegState.set_reg_other _ _ (cfaReg_ne_cfaOff n)]
  · simp [Facts.ofRow, RegState.set_reg_other _ _ (regColumn_ne_cfaOff i)]

end Rows

section Steps

variable (s : CfiState n w)

theorem ofCfi_rule (addr : Word w) (r : Fin n) (how : Where) (val : Word w) :
    FactState.ofCfi (s.setReg addr (regColumn r) how val) =
      (Effect.rule r (if how = .reg then some val else none)).apply (.ofCfi s) := by
  simp [FactState.ofCfi, CfiState.setReg, Effect.apply, ofRow_set_reg]

theorem ofCfi_base (addr : Word w) {how : Where} (val : Word w)
    (defines : how = .reg ∨ how = .expr) :
    FactState.ofCfi (s.setReg addr (cfaRegColumn n) how val) = Effect.base.apply (.ofCfi s) := by
  simp [FactState.ofCfi, CfiState.setReg, Effect.apply, ofRow_set_base _ _ defines]

theorem ofCfi_offset (addr : Word w) (how : Where) (val : Word w) :
    FactState.ofCfi (s.setReg addr (cfaOffColumn n) how val) = .ofCfi s := by
  simp [FactState.ofCfi, CfiState.setReg, ofRow_set_offset]

theorem ofCfi_restore (addr : Word w) (r : Fin n) :
    FactState.ofCfi (s.restoreReg addr r) = (Effect.restore r).apply (.ofCfi s) :=
  ofCfi_rule s addr r _ _

theorem ofCfi_window (windowed : 32 ≤ n) :
    FactState.ofCfi s.saveWindow = Effect.window.apply (.ofCfi s) := by
  have outside : ¬ (cfaRegColumn n).val < 32 := Nat.not_lt.mpr windowed
  ext i other
  · simp [FactState.ofCfi, CfiState.saveWindow, Effect.apply, Facts.ofRow, outside]
  · by_cases inWindow : 16 ≤ i.val ∧ i.val < 32
    · simp [FactState.ofCfi, CfiState.saveWindow, Effect.apply, Facts.ofRow, regColumn, inWindow]
    · simp only [FactState.ofCfi, CfiState.saveWindow, Effect.apply, Facts.ofRow, regColumn,
        if_neg inWindow]
      exact Iff.rfl
  · simp [FactState.ofCfi, CfiState.saveWindow, Effect.apply]
  · simp [FactState.ofCfi, CfiState.saveWindow, Effect.apply]
  · simp [FactState.ofCfi, CfiState.saveWindow, Effect.apply]

/-- An instruction that is executed changes the facts by its effect. -/
theorem cfiExec_facts {env : CfiEnv n w} {op : CfaOpcode} {operand : Word w} {s s' : CfiState n w}
    (exec : cfiExec env op operand s = .ok s') :
    ∃ effect, op.effect env operand s.addr = .ok effect ∧
      FactState.ofCfi s' = effect.apply (.ofCfi s) := by
  cases op with
  | advanceLoc | nop =>
      cases exec
      exact ⟨.keeps, rfl, rfl⟩
  | advanceLoc1 | advanceLoc2 | advanceLoc4 | setLoc | gnuArgsSize =>
      obtain ⟨⟨_, _⟩, -, exec⟩ := bind_eq_ok.mp exec
      cases exec
      exact ⟨.keeps, rfl, rfl⟩
  | mipsAdvanceLoc8 =>
      rw [cfiExec] at exec
      by_cases mips : env.target.mips = true
      · rw [if_pos mips] at exec
        obtain ⟨⟨_, _⟩, -, exec⟩ := bind_eq_ok.mp exec
        cases exec
        exact ⟨.keeps, rfl, rfl⟩
      · simp [mips] at exec
  | loUser => cases exec
  | hiUser => cases exec
  | offset =>
      rw [cfiExec] at exec
      by_cases valid : operand.toNat < n
      · rw [dif_pos valid] at exec
        obtain ⟨⟨_, _⟩, -, exec⟩ := bind_eq_ok.mp exec
        cases exec
        exact ⟨_, dif_pos valid, ofCfi_rule s _ _ _ _⟩
      · simp [valid] at exec
  | offsetExtended | offsetExtendedSf | gnuNegativeOffsetExtended | expression | valExpression =>
      obtain ⟨⟨r, _⟩, column, exec⟩ := bind_eq_ok.mp exec
      obtain ⟨⟨_, _⟩, -, exec⟩ := bind_eq_ok.mp exec
      cases exec
      refine ⟨.rule r none, ?_, ofCfi_rule s _ _ _ _⟩
      rw [CfaOpcode.effect, column, ok_bind]
  | undefined | sameValue =>
      obtain ⟨⟨r, _⟩, column, exec⟩ := bind_eq_ok.mp exec
      cases exec
      refine ⟨.rule r none, ?_, ofCfi_rule s _ _ _ _⟩
      rw [CfaOpcode.effect, column, ok_bind]
  | register =>
      obtain ⟨⟨r, _⟩, column, exec⟩ := bind_eq_ok.mp exec
      obtain ⟨⟨val, _⟩, other, exec⟩ := bind_eq_ok.mp exec
      cases exec
      refine ⟨.rule r (some val), ?_, ofCfi_rule s _ _ _ _⟩
      simp only [CfaOpcode.effect, column, other, ok_bind]
  | restore =>
      rw [cfiExec] at exec
      by_cases valid : operand.toNat < n
      · rw [dif_pos valid] at exec
        cases exec
        exact ⟨_, dif_pos valid, ofCfi_restore s _ _⟩
      · simp [valid] at exec
  | restoreExtended =>
      obtain ⟨⟨val, next⟩, read, exec⟩ := bind_eq_ok.mp exec
      by_cases valid : val.toNat < n
      · simp only [valid, dite_true] at exec
        cases exec
        refine ⟨.restore ⟨val.toNat, valid⟩, ?_, ofCfi_restore s _ _⟩
        simp [CfaOpcode.effect, readRegnum, read, valid]
      · simp [valid] at exec
  | defCfa | defCfaSf =>
      obtain ⟨⟨_, _⟩, -, exec⟩ := bind_eq_ok.mp exec
      obtain ⟨⟨_, _⟩, -, exec⟩ := bind_eq_ok.mp exec
      cases exec
      exact ⟨.base, rfl, (ofCfi_offset _ _ _ _).trans (ofCfi_base s _ _ (.inl rfl))⟩
  | defCfaRegister =>
      obtain ⟨⟨_, _⟩, -, exec⟩ := bind_eq_ok.mp exec
      cases exec
      exact ⟨.base, rfl, ofCfi_base s _ _ (.inl rfl)⟩
  | defCfaExpression =>
      obtain ⟨⟨_, _⟩, -, exec⟩ := bind_eq_ok.mp exec
      cases exec
      exact ⟨.base, rfl, ofCfi_base s _ _ (.inr rfl)⟩
  | defCfaOffset | defCfaOffsetSf =>
      obtain ⟨⟨_, _⟩, -, exec⟩ := bind_eq_ok.mp exec
      cases exec
      exact ⟨.keeps, rfl, ofCfi_offset s _ _ _⟩
  | rememberState =>
      rw [cfiExec] at exec
      by_cases room : env.pool s.allocs = true
      · rw [if_pos room] at exec
        cases exec
        exact ⟨.remember, rfl, rfl⟩
      · simp [room] at exec
  | restoreState =>
      rw [cfiExec] at exec
      cases stack : s.rsStack with
      | nil => simp [stack] at exec
      | cons saved rest =>
          simp only [stack] at exec
          cases exec
          refine ⟨.recall, rfl, ?_⟩
          simp [FactState.ofCfi, Effect.apply, stack]
  | gnuWindowSave =>
      rw [cfiExec] at exec
      cases window : env.target.windowSave with
      | sparc windowed =>
          simp only [window] at exec
          cases exec
          exact ⟨.window, by simp [CfaOpcode.effect, window], ofCfi_window s windowed⟩
      | aarch64 r =>
          simp only [window] at exec
          cases exec
          exact ⟨.rule r none, by simp [CfaOpcode.effect, window], ofCfi_rule s _ _ _ _⟩
      | unexpected => simp [window] at exec

theorem cfiStep_facts {env : CfiEnv n w} {s s' : CfiState n w} (round : cfiStep env s = .ok s') :
    ∃ effect, effectAt env s.addr = .ok effect ∧
      FactState.ofCfi s' = effect.apply (.ofCfi s) := by
  obtain ⟨⟨byte, addr⟩, read, round⟩ := bind_eq_ok.mp round
  rw [effectAt, read, ok_bind]
  cases case : CfaOpcode.ofByte (splitOpcode byte).1 with
  | none =>
      simp only [case] at round ⊢
      cases round
      exact ⟨.keeps, rfl, rfl⟩
  | some op =>
      simp only [case] at round ⊢
      obtain ⟨effect, meant, changed⟩ := cfiExec_facts round
      exact ⟨effect, meant, changed⟩

end Steps

/-! ## Whole programs -/

/-- The effects of the instructions that `run_cfi_program` executes. -/
def effects (env : CfiEnv n w) (endIp endAddr : Word w) : Nat → CfiState n w → List (Effect n w)
  | 0, _ => []
  | budget + 1, s =>
      if cfiGuard endIp endAddr s then
        match effectAt env s.addr, cfiStep env s with
        | .ok effect, .ok s' => effect :: effects env endIp endAddr budget s'
        | _, _ => []
      else []

/-- The facts after some effects. -/
def applyEffects (list : List (Effect n w)) (facts : FactState n w) : FactState n w :=
  list.foldl (fun facts effect => effect.apply facts) facts

theorem runCfiProgram_facts {env : CfiEnv n w} {endIp endAddr : Word w} {budget : Nat}
    {s t : CfiState n w} (ended : runCfiProgram env budget endIp endAddr s = .ok t) :
    FactState.ofCfi t = applyEffects (effects env endIp endAddr budget s) (.ofCfi s) := by
  induction budget generalizing s with
  | zero =>
      cases enter : cfiGuard endIp endAddr s with
      | false =>
          rw [runCfiProgram, WhileLoop.run_exit enter] at ended
          cases ended
          rfl
      | true =>
          rw [runCfiProgram, WhileLoop.run_zero enter] at ended
          cases ended
  | succ budget ih =>
      cases enter : cfiGuard endIp endAddr s with
      | false =>
          rw [runCfiProgram, WhileLoop.run_exit enter] at ended
          cases ended
          simp [effects, enter, applyEffects]
      | true =>
          cases round : cfiStep env s with
          | error e =>
              rw [runCfiProgram, WhileLoop.run_fail enter round] at ended
              cases ended
          | ok s' =>
              rw [runCfiProgram, WhileLoop.run_next enter round] at ended
              obtain ⟨effect, read, changed⟩ := cfiStep_facts round
              rw [ih ended, changed]
              simp [effects, enter, read, round, applyEffects]

/-- What is known before any instruction: every register has its value, and the CFA is not
    defined. -/
def noFacts (n w : Nat) : FactState n w where
  current := {}
  initial := {}
  stack := []

/-- The facts that the instructions of the CIE and of the FDE, up to the location, leave. -/
def recordFacts (env : CfiEnv n w) (budget : Nat) (ip : Word w) (usePrevInstr : Bool) :
    Result (Facts n w) := do
  let (sr, allocs) ← setupFde env budget
  let cie := applyEffects (effects env (-1) env.dci.cieInstrEnd budget
    { ip := 0, addr := env.dci.cieInstrStart, sr := initialRecord env.target env.dci }) (noFacts n w)
  let fde := applyEffects (effects env (ip - if usePrevInstr then 1 else 0) env.dci.fdeInstrEnd
    budget (fdeStart env sr allocs)) { cie with initial := cie.current, stack := [] }
  .ok fde.current

theorem ofCfi_initialRecord (target : CfiTarget n) (dci : CieInfo w) (ip addr : Word w) :
    FactState.ofCfi { ip, addr, sr := initialRecord target dci } = noFacts n w := by
  have plain (column : Fin (n + 2)) : ((initialRecord target dci).rsCurrent.reg column).how = .same ∨
      ((initialRecord target dci).rsCurrent.reg column).how = .cfa := by
    rw [initialRecord]
    cases target.spIsCfa with
    | false => exact Or.inl rfl
    | true =>
        by_cases sp : column = regColumn target.sp
        · subst sp
          exact Or.inr (by simp)
        · exact Or.inl (by simp [RegState.set_reg_other _ _ sp])
  ext i other
  · cases plain (cfaRegColumn n) with
    | inl same => simp [FactState.ofCfi, Facts.ofRow, noFacts, same]
    | inr cfa => simp [FactState.ofCfi, Facts.ofRow, noFacts, cfa]
  · cases plain (regColumn i) with
    | inl same => simp [FactState.ofCfi, Facts.ofRow, noFacts, same]
    | inr cfa => simp [FactState.ofCfi, Facts.ofRow, noFacts, cfa]
  · simp [FactState.ofCfi, Facts.ofRow, noFacts, initialRecord]
  · simp [FactState.ofCfi, Facts.ofRow, noFacts, initialRecord]
  · simp [FactState.ofCfi, noFacts]

/-- A record has the facts of the instructions that made it. -/
theorem recordFacts_eq {env : CfiEnv n w} {budget : Nat} {ip : Word w} {usePrevInstr : Bool}
    {sr sr' : StateRecord n w} {allocs : Nat} (setup : setupFde env budget = .ok (sr, allocs))
    (parse : parseFde env budget ip usePrevInstr sr allocs = .ok sr') :
    recordFacts env budget ip usePrevInstr = .ok (.ofRow sr'.rsCurrent) := by
  simp only [recordFacts, setup, ok_bind]
  obtain ⟨s, ran, set⟩ := bind_eq_ok.mp setup
  cases set
  obtain ⟨s', ran', parsed⟩ := bind_eq_ok.mp parse
  cases parsed
  rw [← ofCfi_initialRecord env.target env.dci 0 env.dci.cieInstrStart, ← runCfiProgram_facts ran]
  have between : FactState.ofCfi (fdeStart env { s.sr with rsInitial := s.sr.rsCurrent } s.allocs) =
      { FactState.ofCfi s with initial := (FactState.ofCfi s).current, stack := [] } := rfl
  rw [← between, ← runCfiProgram_facts ran']
  rfl

/-! ## Applying the row -/

section Apply

variable {τ : Type} (t : Target n w τ) (as : AddrSpace w) (budget : Nat) (c : Cursor n w τ)
  (rs : RegState n w)

/-- The loop of `apply_reg_state` comes to column `i`. -/
def ColumnReached (i : Fin n) : Prop :=
  rs.retAddrColumn.toNat < n ∧ ∃ cfa locs, evalCfa t as budget c rs = .ok cfa ∧
    applyColumns t as budget c cfa rs ((List.finRange n).take i) = .ok locs

/-- The assertion holds, and `new_loc` is not indexed beyond its end. -/
structure SafeToApply : Prop where
  asserts : rs.retAddrColumn.toNat < n →
    (rs.reg (cfaRegColumn n)).how = .reg ∨ (rs.reg (cfaRegColumn n)).how = .expr
  indices : ∀ i, ColumnReached t as budget c rs i → (rs.reg (regColumn i)).how = .reg →
    t.fpregLoc (rs.reg (regColumn i)).val = none → (rs.reg (regColumn i)).val.toNat < n

/-- What the facts about a row have to be for it. -/
structure FactsAllow (facts : Facts n w) : Prop where
  defined : rs.retAddrColumn.toNat < n → facts.base = true
  named : ∀ i val, facts.savedIn i = some val → t.fpregLoc val = none →
    val.toNat < n ∨ ¬ ColumnReached t as budget c rs i

theorem safeToApply_iff_facts :
    SafeToApply t as budget c rs ↔ FactsAllow t as budget c rs (.ofRow rs) := by
  constructor
  · intro safe
    constructor
    · intro inRange
      simpa [Facts.ofRow] using safe.asserts inRange
    · intro i val saved noFpreg
      simp only [Facts.ofRow] at saved
      by_cases isReg : (rs.reg (regColumn i)).how = .reg
      · rw [if_pos isReg] at saved
        cases saved
        by_cases reached : ColumnReached t as budget c rs i
        · exact .inl (safe.indices i reached isReg noFpreg)
        · exact .inr reached
      · simp [isReg] at saved
  · intro allow
    constructor
    · intro inRange
      simpa [Facts.ofRow] using allow.defined inRange
    · intro i reached isReg noFpreg
      have saved : (Facts.ofRow rs).savedIn i = some (rs.reg (regColumn i)).val := if_pos isReg
      cases allow.named i _ saved noFpreg with
      | inl below => exact below
      | inr unreached => exact absurd reached unreached

/-- The assertion fails where the CFA has no rule. -/
theorem applyRegState_asserts (inRange : rs.retAddrColumn.toNat < n)
    (neither : ¬ ((rs.reg (cfaRegColumn n)).how = .reg ∨ (rs.reg (cfaRegColumn n)).how = .expr)) :
    (applyRegState t as budget c rs).1 = .error .undefined := by
  have fails : evalCfa t as budget c rs = .error .undefined := by
    rw [evalCfa]
    cases how : (rs.reg (cfaRegColumn n)).how with
    | reg => simp [how] at neither
    | expr => simp [how] at neither
    | _ => rfl
  simp only [applyRegState, dif_pos inRange, fails]

/-- A row that was created can be applied just when the instructions that made it define the
    CFA, and no register is left saved in one that does not exist, unless an error is returned
    before its column. -/
theorem safeToApply_iff {ctx : CfiContext n w} {rounds : Nat} {pi : ProcInfo w} {ip : Word w}
    {usePrevInstr : Bool} {sr : StateRecord n w}
    (created : createStateRecordFor ctx rounds pi ip usePrevInstr = .ok sr) :
    SafeToApply t as budget c sr.rsCurrent ↔
      ∃ dci facts, pi.unwindInfo = some dci ∧
        recordFacts (ctx.env pi dci) rounds ip usePrevInstr = .ok facts ∧
        FactsAllow t as budget c sr.rsCurrent facts := by
  have known : ∃ dci, pi.unwindInfo = some dci ∧
      recordFacts (ctx.env pi dci) rounds ip usePrevInstr = .ok (.ofRow sr.rsCurrent) := by
    rw [createStateRecordFor] at created
    split at created
    case h_1 | h_2 =>
      cases info : pi.unwindInfo with
      | none => simp [info] at created
      | some dci =>
          simp only [info] at created
          obtain ⟨⟨record, allocs⟩, setup, parse⟩ := bind_eq_ok.mp created
          exact ⟨dci, rfl, recordFacts_eq setup parse⟩
    all_goals cases created
  obtain ⟨dci, info, facts⟩ := known
  rw [safeToApply_iff_facts]
  constructor
  · intro allow
    exact ⟨dci, _, info, facts, allow⟩
  · intro ⟨dci', facts', info', read, allow⟩
    cases info.symm.trans info'
    cases facts.symm.trans read
    exact allow

end Apply

/-! ## A CIE that does not define the CFA -/

namespace NoCfa

/-- x86_64, with the bytes of `DW_CFA_def_cfa r7, 8`. -/
def ctx : CfiContext 17 64 where
  target := .x86_64
  cursorSpace := spaceOfBytes 64 [0x0c, 0x07, 0x08]
  localSpace := spaceOfBytes 64 []

/-- The first `length` bytes are the instructions of the CIE. -/
def info (length : Word 64) : ProcInfo 64 where
  format := .table
  unwindInfo := some { cieInstrEnd := length, retAddrColumn := 16 }

def target : Target 17 64 Unit := plainTarget 17 64 7 16

def cursor : Cursor 17 64 Unit where
  cfa := 0x1000
  ip := 0x8000
  loc _ := nullLoc
  tdep := ()

/-- The record of a CIE without instructions. -/
def record : StateRecord 17 64 :=
  let sr := initialRecord .x86_64 { retAddrColumn := 16 }
  { sr with rsInitial := sr.rsCurrent }

theorem undefined_in_row : createStateRecordFor ctx 1 (info 0) 0 true = .ok record ∧
    ¬ SafeToApply target ctx.cursorSpace 1 cursor record.rsCurrent ∧
    (applyRegState target ctx.cursorSpace 1 cursor record.rsCurrent).1 = .error .undefined := by
  have neither : ¬ ((record.rsCurrent.reg (cfaRegColumn 17)).how = .reg ∨
      (record.rsCurrent.reg (cfaRegColumn 17)).how = .expr) := by decide
  refine ⟨rfl, ?_, applyRegState_asserts _ _ _ _ _ (by decide) neither⟩
  intro safe
  exact neither (safe.asserts (by decide))

/-- The record of `DW_CFA_def_cfa r7, 8`. -/
def defined : StateRecord 17 64 :=
  let sr := setReg (setReg record (cfaRegColumn 17) .reg 7) (cfaOffColumn 17) .undef 8
  { sr with rsInitial := sr.rsCurrent }

theorem defined_safe : SafeToApply target ctx.cursorSpace 1 cursor defined.rsCurrent := by
  have created : createStateRecordFor ctx 1 (info 3) 0 true = .ok defined := rfl
  have facts : recordFacts (ctx.env (info 3) { cieInstrEnd := 3, retAddrColumn := 16 }) 1 0 true =
      .ok { base := true } := rfl
  apply (safeToApply_iff target ctx.cursorSpace 1 cursor created).mpr
  refine ⟨_, _, rfl, facts, ?_, ?_⟩
  · exact fun _ => rfl
  · intro i val saved
    cases saved

end NoCfa

end Libunwind.Dwarf
