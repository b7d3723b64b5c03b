import Libunwind.Dwarf.Resume
import Libunwind.A64.Step

/-! # Resuming a frame on aarch64 -/

namespace Libunwind.AArch64

open Dwarf CopyOut

variable {σ : Type}

/-- `tdep_access_reg`, for writing. -/
def setReg (host : Host) (p : Process σ 64) (c : A64Cursor) (s : σ) (reg : Int) (val : Word 64) :
    Result Unit × A64Cursor × σ :=
  let put (r : Fin 97) (c : A64Cursor) : Result Unit × A64Cursor × σ :=
    let written := (c.loc r).put host.localOnly p val s
    (written.1, c, written.2)
  if valid : reg.toNat < 97 ∧ 0 ≤ reg then
    let r : Fin 97 := ⟨reg.toNat, valid.1⟩
    if r < 4 then (.ok (), { c with ehArgs := Function.update c.ehArgs r (some val) }, s)
    -- update the IP cache
    else if r = x30 then put r { c with ip := val }
    else if r = sp then (.error (.err .readonlyreg), c, s)
    else if r < x30 ∨ r = pc ∨ r = pstate then put r c
    else (.error (.err .badreg), c, s)
  else (.error (.err .badreg), c, s)

/-- aarch64 Linux. The registers run up to `UNW_AARCH64_RA_SIGN_STATE`; the loop over
    V0 to V31 that follows copies none that `unw_get_reg` reads. -/
def unwinder (host : Host) (process : Process σ 64) (tables : σ → UnwindTables 97 64) :
    Unwinder σ 97 64 Extra where
  target := host.target
  process
  tables
  commonInit as c := ∃ before usePrevInstr, host.commonInit as before usePrevInstr = .ok c
  step c space := unwStep host c space
  setReg := setReg host process
  registers := (List.range 35).map Int.ofNat
  argsReg := none

theorem accessReg_setReg (host : Host) (p : Process σ 64) (c : A64Cursor) {reg : Int}
    (notVg : reg ≠ 46) (q : Int) (v : Word 64) (s : σ) :
    (accessReg host (p.space (p.setReg q v s)) c reg).toOption.isSome =
      (accessReg host (p.space s) c reg).toOption.isSome := by
  have located (loc : Loc 64) := Loc.get_setReg p host.localOnly loc q v s
  unfold accessReg
  dsimp only
  split
  next valid =>
    split
    · split
      · rfl
      · exact located _
    · split
      · have stripped {r : Result (Word 64)} :
            (r >>= fun lr => pure (host.stripPtrauth lr)).toOption.isSome = r.toOption.isSome := by
          cases r <;> rfl
        exact stripped.trans ((located _).trans stripped.symm)
      · split
        · rfl
        · split
          · exact located _
          · split
            next isVg =>
              have number : reg.toNat = 46 := congrArg Fin.val isVg
              exact absurd (by omega) notVg
            next => rfl
  next => rfl

theorem unwinder_regular (host : Host) (process : Process σ 64)
    (tables : σ → UnwindTables 97 64) : (unwinder host process tables).Regular where
  nodup := List.nodup_range.map Int.ofNat_injective
  steady c r member q v s := by
    refine accessReg_setReg host process c ?_ q v s
    rintro rfl
    have member : (46 : Int) ∈ (List.range 35).map Int.ofNat := member
    exact absurd member (by decide)
  argsReg := by rintro ⟨⟩

end Libunwind.AArch64
