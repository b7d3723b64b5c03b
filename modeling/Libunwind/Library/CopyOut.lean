import Mathlib.Data.List.Induction

/-! # Writing a machine's registers one after another

A machine that is written register by register is also what the values are read
from, so that a register may be read after what it is read from has changed. The
rules below compare such a copy with another one, register by register.
-/

namespace CopyOut

variable {ρ σ ν : Type*}

/-- A machine some of whose registers may be missing. A write changes the register
    that it is for, and what is not a register as it likes. -/
structure Machine (ρ σ ν : Type*) where
  reg : ρ → σ → Option ν
  set : ρ → ν → σ → σ
  set_same {r : ρ} {old v : ν} {s : σ} : reg r s = some old → reg r (set r v s) = some v
  set_other {q r : ρ} {v : ν} {s : σ} : q ≠ r → reg q (set r v s) = reg q s
  set_missing {r : ρ} {v : ν} {s : σ} : reg r s = none → set r v s = s

/-- Reads what register `r` is to hold, and writes it. -/
def copyReg (m : Machine ρ σ ν) (read : ρ → σ → Option ν) (s : σ) (r : ρ) : σ :=
  match read r s with
  | some v => m.set r v s
  | none => s

def copyOut (m : Machine ρ σ ν) (read : ρ → σ → Option ν) (order : List ρ) (s : σ) : σ :=
  order.foldl (copyReg m read) s

/-- Whether something is read for a register does not depend on the registers. -/
def Steady (m : Machine ρ σ ν) (read : ρ → σ → Option ν) (r : ρ) : Prop :=
  ∀ q v s, (read r (m.set q v s)).isSome = (read r s).isSome

variable {m : Machine ρ σ ν} {read read' : ρ → σ → Option ν} {order before after : List ρ}
  {s : σ} {q r : ρ}

theorem copyOut_append :
    copyOut m read (before ++ after) s = copyOut m read after (copyOut m read before s) :=
  List.foldl_append

theorem copyOut_snoc : copyOut m read (before ++ [r]) s = copyReg m read (copyOut m read before s) r :=
  copyOut_append

theorem Steady.copyReg (steady : Steady m read r) :
    (read r (copyReg m read' s q)).isSome = (read r s).isSome := by
  unfold CopyOut.copyReg
  cases read' q s with
  | none => rfl
  | some v => exact steady q v s

theorem Steady.copyOut (steady : Steady m read r) :
    (read r (copyOut m read' order s)).isSome = (read r s).isSome := by
  induction order generalizing s with
  | nil => rfl
  | cons q rest ih => exact ih.trans steady.copyReg

/-! ## The registers -/

theorem reg_copyReg_other (different : q ≠ r) : m.reg q (copyReg m read s r) = m.reg q s := by
  unfold copyReg
  cases read r s with
  | none => rfl
  | some v => exact m.set_other different

theorem reg_copyOut_other (absent : q ∉ order) : m.reg q (copyOut m read order s) = m.reg q s := by
  induction order generalizing s with
  | nil => rfl
  | cons r rest ih =>
      have different := List.ne_of_not_mem_cons absent
      exact (ih (List.not_mem_of_not_mem_cons absent)).trans (reg_copyReg_other different)

theorem reg_copyReg_same {old v : ν} (held : m.reg r s = some old) (due : read r s = some v) :
    m.reg r (copyReg m read s r) = some v := by
  unfold copyReg
  rw [due]
  exact m.set_same held

theorem reg_copyReg_unread (unread : read r s = none) : copyReg m read s r = s := by
  unfold copyReg
  rw [unread]

theorem copyReg_missing (missing : m.reg r s = none) : copyReg m read s r = s := by
  unfold copyReg
  cases read r s with
  | none => rfl
  | some v => exact m.set_missing missing

theorem isSome_reg_copyReg : (m.reg q (copyReg m read s r)).isSome = (m.reg q s).isSome := by
  by_cases same : q = r
  · subst same
    cases held : m.reg q s with
    | none => rw [copyReg_missing held, held]
    | some old =>
        cases due : read q s with
        | none => rw [reg_copyReg_unread due, held]
        | some v => rw [reg_copyReg_same held due]; rfl
  · rw [reg_copyReg_other same]

theorem isSome_reg_copyOut : (m.reg q (copyOut m read order s)).isSome = (m.reg q s).isSome := by
  induction order generalizing s with
  | nil => rfl
  | cons r rest ih => exact ih.trans isSome_reg_copyReg

/-- A register is written once, with what is read for it by then. -/
theorem reg_copyOut_at {v : ν} (split : order = before ++ r :: after) (once : r ∉ after)
    (held : (m.reg r s).isSome) (due : read r (copyOut m read before s) = some v) :
    m.reg r (copyOut m read order s) = some v := by
  subst split
  have heldThen : (m.reg r (copyOut m read before s)).isSome = true := isSome_reg_copyOut.trans held
  obtain ⟨old, heldThen⟩ := Option.isSome_iff_exists.mp heldThen
  rw [copyOut_append]
  exact (reg_copyOut_other once).trans (reg_copyReg_same heldThen due)

/-- A register for which nothing is read keeps its value. -/
theorem reg_copyOut_unread (split : order = before ++ r :: after) (early : r ∉ before)
    (once : r ∉ after) (unread : read r (copyOut m read before s) = none) :
    m.reg r (copyOut m read order s) = m.reg r s := by
  subst split
  rw [copyOut_append]
  refine (reg_copyOut_other once).trans ?_
  rw [reg_copyReg_unread unread, reg_copyOut_other early]

/-! ## Two copies -/

theorem copyReg_congr (agree : (m.reg r s).isSome → read r s = read' r s) :
    copyReg m read s r = copyReg m read' s r := by
  cases held : m.reg r s with
  | none => rw [copyReg_missing held, copyReg_missing held]
  | some old =>
      have same : read r s = read' r s := agree (by rw [held]; rfl)
      unfold copyReg
      rw [same]

/-- Two copies are the same if each register, at its turn, is read the same. That
    they were the same up to this turn can be taken for granted. -/
theorem copyOut_congr (agree : ∀ before r after, order = before ++ r :: after →
      copyOut m read before s = copyOut m read' before s → (m.reg r s).isSome →
        read r (copyOut m read' before s) = read' r (copyOut m read' before s)) :
    copyOut m read order s = copyOut m read' order s := by
  induction order using List.reverseRecOn with
  | nil => rfl
  | append_singleton front r ih =>
      have same : copyOut m read front s = copyOut m read' front s := by
        refine ih ?_
        intro before q after split
        exact agree before q (after ++ [r]) (by rw [split, List.append_assoc, List.cons_append])
      rw [copyOut_snoc, copyOut_snoc, same]
      apply copyReg_congr
      intro held
      exact agree front r [] rfl same (isSome_reg_copyOut.symm.trans held)

end CopyOut
