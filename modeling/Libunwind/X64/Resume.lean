import Libunwind.Dwarf.Resume
import Libunwind.X64.Step

/-! # Resuming a frame on x86_64 -/

namespace Libunwind.X86_64

open Dwarf CopyOut

variable {σ : Type}

/-- `tdep_access_reg`, for writing. -/
def setReg (host : Host) (p : Process σ 64) (c : X86Cursor) (s : σ) (reg : Int) (val : Word 64) :
    Result Unit × X86Cursor × σ :=
  let put (r : Fin 17) (c : X86Cursor) : Result Unit × X86Cursor × σ :=
    let written := (c.loc r).put host.localOnly p val s
    (written.1, c, written.2)
  if reg = 17 then (.error (.err .readonlyreg), c, s)
  else if valid : reg.toNat < 17 ∧ 0 ≤ reg then
    let r : Fin 17 := ⟨reg.toNat, valid.1⟩
    if r = rax ∨ r = rdx then
      (.ok (), { c with ehArgs := Function.update c.ehArgs r (some val) }, s)
    -- also update the RIP cache
    else if r = rip then put r { c with ip := val }
    else put r c
  else (.error (.err .badreg), c, s)

/-- x86_64 Linux. The registers run up to `UNW_REG_LAST`, and `args_size` is added to
    RSP. -/
def unwinder (host : Host) (process : Process σ 64) (tables : σ → UnwindTables 17 64) :
    Unwinder σ 17 64 Extra where
  target := host.target
  process
  tables
  commonInit as c := ∃ usePrevInstr frameInfo, host.commonInit as usePrevInstr frameInfo = .ok c
  step c space := unwStep host c space
  setReg := setReg host process
  registers := (List.range 17).map Int.ofNat
  argsReg := some 7

theorem accessReg_setReg (localOnly : Bool) (p : Process σ 64) (c : X86Cursor) (reg q : Int)
    (v : Word 64) (s : σ) :
    (accessReg localOnly (p.space (p.setReg q v s)) c reg).toOption.isSome =
      (accessReg localOnly (p.space s) c reg).toOption.isSome := by
  unfold accessReg
  dsimp only
  split
  · rfl
  · split
    · split
      · split
        · rfl
        · exact Loc.get_setReg p localOnly _ q v s
      · exact Loc.get_setReg p localOnly _ q v s
    · rfl

theorem unwinder_regular (host : Host) (process : Process σ 64)
    (tables : σ → UnwindTables 17 64) : (unwinder host process tables).Regular where
  nodup := List.nodup_range.map Int.ofNat_injective
  steady c r _ q v s := accessReg_setReg host.localOnly process c r q v s
  argsReg := by
    change some (7 : Int) ≠ some 16
    decide

end Libunwind.X86_64
