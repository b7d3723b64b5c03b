import Libunwind.Dwarf.StateRecord

/-! # Where a register's value is the CFA

No instruction makes a rule `DWARF_WHERE_CFA`; only `setup_fde` does, for the
stack pointer. So no other column of a row that the interpreter produces has
such a rule.
-/

namespace Libunwind.Dwarf

variable {n w : Nat}

def CfaOnlyAt (sp : Fin n) (rs : RegState n w) : Prop :=
  ∀ column, (rs.reg column).how = .cfa → column = regColumn sp

namespace CfaOnlyAt

variable {sp : Fin n} {rs : RegState n w}

theorem set_plain (only : CfaOnlyAt sp rs) (column) {rule : Rule w} (plain : rule.how ≠ .cfa) :
    CfaOnlyAt sp (rs.set column rule) := by
  intro other isCfa
  by_cases same : other = column
  · subst same
    rw [RegState.set_reg_same] at isCfa
    exact absurd isCfa plain
  · rw [RegState.set_reg_other _ _ same] at isCfa
    exact only other isCfa

/-- A rule may come from the same column of another row. -/
theorem set_copied (only : CfaOnlyAt sp rs) {from' : RegState n w} (column)
    (source : CfaOnlyAt sp from') : CfaOnlyAt sp (rs.set column (from'.reg column)) := by
  by_cases isCfa : (from'.reg column).how = .cfa
  · obtain rfl := source column isCfa
    intro other isCfa'
    by_contra different
    rw [RegState.set_reg_other _ _ different] at isCfa'
    exact different (only other isCfa')
  · exact only.set_plain column isCfa

theorem initialRecord (target : CfiTarget n) (dci : CieInfo w) :
    CfaOnlyAt target.sp (initialRecord target dci).rsCurrent := by
  intro column isCfa
  by_contra different
  rw [Dwarf.initialRecord] at isCfa
  cases spIsCfa : target.spIsCfa with
  | false => simp [spIsCfa] at isCfa
  | true =>
      simp only [spIsCfa, if_true] at isCfa
      rw [RegState.set_reg_other _ _ different] at isCfa
      exact nomatch isCfa

end CfaOnlyAt

/-- Each row that a state of the interpreter holds has such a rule for `sp` only. -/
structure CfiState.CfaOnlyAt (sp : Fin n) (s : CfiState n w) : Prop where
  current : Dwarf.CfaOnlyAt sp s.sr.rsCurrent
  initial : Dwarf.CfaOnlyAt sp s.sr.rsInitial
  remembered : ∀ rs ∈ s.rsStack, Dwarf.CfaOnlyAt sp rs

namespace CfiState.CfaOnlyAt

variable {sp : Fin n} {s : CfiState n w}

theorem setReg (only : s.CfaOnlyAt sp) (addr column) {how} (val) (plain : how ≠ .cfa) :
    (s.setReg addr column how val).CfaOnlyAt sp where
  current := only.current.set_plain column plain
  initial := only.initial
  remembered := only.remembered

theorem restoreReg (only : s.CfaOnlyAt sp) (addr r) : (s.restoreReg addr r).CfaOnlyAt sp where
  current := only.current.set_copied (regColumn r) only.initial
  initial := only.initial
  remembered := only.remembered

theorem saveWindow (only : s.CfaOnlyAt sp) : s.saveWindow.CfaOnlyAt sp where
  current column isCfa := by
    simp only [CfiState.saveWindow] at isCfa
    split at isCfa
    · exact nomatch isCfa
    · exact only.current column isCfa
  initial := only.initial
  remembered := only.remembered

/-- Where only the addresses change. -/
theorem moved (only : s.CfaOnlyAt sp) (ip addr : Word w) :
    { s with ip, addr }.CfaOnlyAt sp where
  current := only.current
  initial := only.initial
  remembered := only.remembered

end CfiState.CfaOnlyAt

theorem cfiExec_cfaOnlyAt {sp : Fin n} {env : CfiEnv n w} {op operand} {s s' : CfiState n w}
    (only : s.CfaOnlyAt sp) (exec : cfiExec env op operand s = .ok s') : s'.CfaOnlyAt sp := by
  cases op with
  | advanceLoc | nop =>
      obtain rfl := Except.ok.inj exec
      exact only.moved _ _
  | advanceLoc1 | advanceLoc2 | advanceLoc4 | setLoc =>
      obtain ⟨⟨_, _⟩, -, exec⟩ := bind_eq_ok.mp exec
      obtain rfl := Except.ok.inj exec
      exact only.moved _ _
  | mipsAdvanceLoc8 =>
      rw [cfiExec] at exec
      split at exec
      · obtain ⟨⟨_, _⟩, -, exec⟩ := bind_eq_ok.mp exec
        obtain rfl := Except.ok.inj exec
        exact only.moved _ _
      · exact nomatch exec
  | offset =>
      rw [cfiExec] at exec
      split at exec
      · obtain ⟨⟨_, _⟩, -, exec⟩ := bind_eq_ok.mp exec
        obtain rfl := Except.ok.inj exec
        exact only.setReg _ _ _ nofun
      · exact nomatch exec
  | restore =>
      rw [cfiExec] at exec
      split at exec
      · obtain rfl := Except.ok.inj exec
        exact only.restoreReg _ _
      · exact nomatch exec
  | restoreExtended =>
      obtain ⟨⟨_, _⟩, -, exec⟩ := bind_eq_ok.mp exec
      simp only at exec
      split at exec
      · obtain rfl := Except.ok.inj exec
        exact only.restoreReg _ _
      · exact nomatch exec
  | offsetExtended | offsetExtendedSf | gnuNegativeOffsetExtended | register | expression
  | valExpression =>
      obtain ⟨⟨_, _⟩, -, exec⟩ := bind_eq_ok.mp exec
      obtain ⟨⟨_, _⟩, -, exec⟩ := bind_eq_ok.mp exec
      obtain rfl := Except.ok.inj exec
      exact only.setReg _ _ _ nofun
  | undefined | sameValue | defCfaRegister | defCfaOffset | defCfaOffsetSf | defCfaExpression =>
      obtain ⟨⟨_, _⟩, -, exec⟩ := bind_eq_ok.mp exec
      obtain rfl := Except.ok.inj exec
      exact only.setReg _ _ _ nofun
  | defCfa | defCfaSf =>
      obtain ⟨⟨_, _⟩, -, exec⟩ := bind_eq_ok.mp exec
      obtain ⟨⟨_, _⟩, -, exec⟩ := bind_eq_ok.mp exec
      obtain rfl := Except.ok.inj exec
      refine CfiState.CfaOnlyAt.setReg ?_ _ _ _ nofun
      exact only.setReg _ _ _ nofun
  | rememberState =>
      rw [cfiExec] at exec
      split at exec
      · obtain rfl := Except.ok.inj exec
        refine ⟨only.current, only.initial, fun rs member => ?_⟩
        rcases List.mem_cons.mp member with rfl | member
        · exact only.current
        · exact only.remembered rs member
      · exact nomatch exec
  | restoreState =>
      rw [cfiExec] at exec
      split at exec
      · exact nomatch exec
      · next saved rest stack =>
          obtain rfl := Except.ok.inj exec
          have each := stack ▸ only.remembered
          exact ⟨each saved List.mem_cons_self, only.initial,
            fun rs member => each rs (List.mem_cons_of_mem _ member)⟩
  | gnuArgsSize =>
      obtain ⟨⟨_, _⟩, -, exec⟩ := bind_eq_ok.mp exec
      obtain rfl := Except.ok.inj exec
      exact ⟨only.current, only.initial, only.remembered⟩
  | gnuWindowSave =>
      rw [cfiExec] at exec
      split at exec
      · obtain rfl := Except.ok.inj exec
        exact only.saveWindow
      · obtain rfl := Except.ok.inj exec
        exact only.setReg _ _ _ nofun
      · exact nomatch exec
  | loUser | hiUser => exact nomatch exec

theorem cfiStep_cfaOnlyAt {sp : Fin n} {env : CfiEnv n w} {s s' : CfiState n w}
    (only : s.CfaOnlyAt sp) (step : cfiStep env s = .ok s') : s'.CfaOnlyAt sp := by
  obtain ⟨⟨byte, addr⟩, -, step⟩ := bind_eq_ok.mp step
  simp only at step
  split at step
  · exact cfiExec_cfaOnlyAt (only.moved s.ip addr) step
  · obtain rfl := Except.ok.inj step
    exact only.moved _ _

theorem runCfiProgram_cfaOnlyAt {sp : Fin n} {env : CfiEnv n w} {budget endIp endAddr}
    {s s' : CfiState n w} (only : s.CfaOnlyAt sp)
    (ended : runCfiProgram env budget endIp endAddr s = .ok s') : s'.CfaOnlyAt sp :=
  (WhileLoop.run_invariant (CfiState.CfaOnlyAt sp)
    (fun _ _ only _ step => cfiStep_cfaOnlyAt only step) only ended).1

theorem parseFde_cfaOnlyAt {env : CfiEnv n w} {budget ip usePrevInstr sr sr' allocs}
    (setup : setupFde env budget = .ok (sr, allocs))
    (parse : parseFde env budget ip usePrevInstr sr allocs = .ok sr') :
    CfaOnlyAt env.target.sp sr'.rsCurrent := by
  obtain ⟨s, ran, setup⟩ := bind_eq_ok.mp setup
  obtain ⟨rfl, rfl⟩ := Prod.mk.inj (Except.ok.inj setup)
  obtain ⟨s', ran', parse⟩ := bind_eq_ok.mp parse
  obtain rfl := Except.ok.inj parse
  have unset : CfaOnlyAt env.target.sp ({} : RegState n w) := by
    intro column isCfa
    cases isCfa
  have none : ∀ rs ∈ ([] : List (RegState n w)), CfaOnlyAt env.target.sp rs := by simp
  have atSetup : s.CfaOnlyAt env.target.sp :=
    runCfiProgram_cfaOnlyAt ⟨.initialRecord env.target env.dci, unset, none⟩ ran
  have start : (fdeStart env { s.sr with rsInitial := s.sr.rsCurrent } s.allocs).CfaOnlyAt
      env.target.sp := ⟨atSetup.current, atSetup.current, none⟩
  exact (runCfiProgram_cfaOnlyAt start ran').current

/-- The rows that `create_state_record_for` produces. -/
theorem createStateRecordFor_cfaOnlyAt {ctx : CfiContext n w} {budget pi ip usePrevInstr sr}
    (created : createStateRecordFor ctx budget pi ip usePrevInstr = .ok sr) :
    CfaOnlyAt ctx.target.sp sr.rsCurrent := by
  rw [createStateRecordFor] at created
  split at created
  case h_1 | h_2 =>
    split at created
    · cases created
    · obtain ⟨record, setup, parse⟩ := bind_eq_ok.mp created
      exact parseFde_cfaOnlyAt setup parse
  all_goals cases created

end Libunwind.Dwarf
