import Libunwind.Dwarf.Reader

/-! # Register states

A `dwarf_reg_state_t` has one row of rules: the `n` preserved registers, then
the two columns that describe the CFA (`DWARF_CFA_REG_COLUMN`,
`DWARF_CFA_OFF_COLUMN`).
-/

namespace Libunwind.Dwarf

/-- `dwarf_where_t`: how a column is saved. -/
inductive Where where
  | undef
  | same
  | cfarel
  | reg
  | expr
  | valExpr
  | cfa
  deriving DecidableEq, Repr, Inhabited

/-- One column of `dwarf_reg_only_state_t`: its `where` and its `val`. -/
structure Rule (w : Nat) where
  how : Where := .undef
  val : Word w := 0
  deriving DecidableEq, Repr, Inhabited

/-- `dwarf_reg_state_t` with `n = DWARF_NUM_PRESERVED_REGS`. -/
structure RegState (n w : Nat) where
  retAddrColumn : Word w := 0
  reg : Fin (n + 2) → Rule w := fun _ => {}
  deriving DecidableEq

/-- `DWARF_CFA_REG_COLUMN`. -/
def cfaRegColumn (n : Nat) : Fin (n + 2) := ⟨n, by omega⟩

/-- `DWARF_CFA_OFF_COLUMN`. -/
def cfaOffColumn (n : Nat) : Fin (n + 2) := ⟨n + 1, by omega⟩

/-- The column of a preserved register. -/
def regColumn {n : Nat} (r : Fin n) : Fin (n + 2) := ⟨r, by omega⟩

theorem regColumn_ne_cfaReg {n : Nat} (r : Fin n) : regColumn r ≠ cfaRegColumn n := by
  intro same
  have := congrArg Fin.val same
  simp only [regColumn, cfaRegColumn] at this
  omega

theorem regColumn_ne_cfaOff {n : Nat} (r : Fin n) : regColumn r ≠ cfaOffColumn n := by
  intro same
  have := congrArg Fin.val same
  simp only [regColumn, cfaOffColumn] at this
  omega

theorem cfaReg_ne_cfaOff (n : Nat) : cfaRegColumn n ≠ cfaOffColumn n := by
  intro same
  have := congrArg Fin.val same
  simp only [cfaRegColumn, cfaOffColumn] at this
  omega

theorem regColumn_injective {n : Nat} : Function.Injective (regColumn (n := n)) := by
  intro a b same
  exact Fin.ext (Fin.mk.inj same)

/-- `dwarf_state_record_t`; the defaults are what `memset` leaves. -/
structure StateRecord (n w : Nat) where
  argsSize : Word w := 0
  rsInitial : RegState n w := {}
  rsCurrent : RegState n w := {}
  deriving DecidableEq

variable {n w : Nat}

def RegState.set (rs : RegState n w) (column : Fin (n + 2)) (rule : Rule w) : RegState n w :=
  { rs with reg := Function.update rs.reg column rule }

/-- `set_reg`. -/
def setReg (sr : StateRecord n w) (column : Fin (n + 2)) (how : Where) (val : Word w) :
    StateRecord n w :=
  { sr with rsCurrent := sr.rsCurrent.set column ⟨how, val⟩ }

@[simp] theorem RegState.set_retAddrColumn (rs : RegState n w) (column rule) :
    (rs.set column rule).retAddrColumn = rs.retAddrColumn := rfl

@[simp] theorem RegState.set_reg_same (rs : RegState n w) (column rule) :
    (rs.set column rule).reg column = rule := by
  simp [RegState.set]

theorem RegState.set_reg_other (rs : RegState n w) {column other} (rule)
    (different : other ≠ column) : (rs.set column rule).reg other = rs.reg other := by
  simp [RegState.set, different]

@[simp] theorem setReg_rsCurrent (sr : StateRecord n w) (column how val) :
    (setReg sr column how val).rsCurrent = sr.rsCurrent.set column ⟨how, val⟩ := rfl

@[simp] theorem setReg_rsInitial (sr : StateRecord n w) (column how val) :
    (setReg sr column how val).rsInitial = sr.rsInitial := rfl

@[simp] theorem setReg_argsSize (sr : StateRecord n w) (column how val) :
    (setReg sr column how val).argsSize = sr.argsSize := rfl

end Libunwind.Dwarf
