import Libunwind.Setjmp.Jump
import Libunwind.Resume

/-! # Jumps on x86_64 and aarch64

Where the signal mask is saved, `siglongjmp` passes it on in further arguments. x86_64 has no room
for them.
-/

namespace Libunwind

open Dwarf Setjmp

/-! ## x86_64 -/

namespace X86_64

variable {σ : Type} (host : Host) (process : Process σ 64) (tables : σ → UnwindTables 17 64)
  (longjmpCont siglongjmpCont : Word 64)

def jumpPort : JumpPort 64 where
  regSp := 7
  regIp := 16
  regEh := 0
  numEhRegs := 2
  jbSp := 6
  jbRp := 7
  jbMaskSaved := 8
  jbMask := 9
  longjmpCont
  siglongjmpCont
  nsig := 65

theorem jumpPort_laws :
    (jumpPort longjmpCont siglongjmpCont).Laws (unwinder host process tables) where
  regIp := rfl
  ehReg i few c s v := by
    have few : i < 2 := few
    interval_cases i <;> rfl
  ehReg_shown i few as c v isSet := by
    have few : i < 2 := few
    have isSet : c.ehArgs i = some v := by simpa [jumpPort] using isSet
    interval_cases i
    · change X86_64.accessReg host.localOnly as c 0 = .ok v
      simp [X86_64.accessReg, rax, isSet]
    · change X86_64.accessReg host.localOnly as c 1 = .ok v
      simp [X86_64.accessReg, rdx, isSet]
  ip c s v c' s' written := by
    exact (congrArg (fun result => result.2.1) written).symm
  installed i few := by
    have few : i < 2 := few
    refine ⟨List.mem_map.mpr ⟨0 + i, List.mem_range.mpr (by omega), rfl⟩, ?_⟩
    change some (7 : Int) ≠ some ((0 + i : ℕ) : Int)
    rw [ne_eq, Option.some.injEq]
    omega
  ip_installed := List.mem_map.mpr ⟨16, List.mem_range.mpr (by decide), rfl⟩

variable {host process tables longjmpCont siglongjmpCont} {env : ℕ → Word 64} {val : Word 32}
  {spaces : ℕ → StepSpace 17 64} {rounds : ℕ} {start landed : Session σ 17 64 Extra}

/-- A jump that resumes anything resumes the innermost frame with the stack pointer of the jump
    buffer, where the process continues with the return address and the value that were set. -/
theorem longjmp_continues (reached : (unwinder host process tables).Reaches start)
    (inProcess : InProcess (unwinder host process tables) spaces start.state) :
    let u := unwinder host process tables
    let port := jumpPort longjmpCont siglongjmpCont
    (siglongjmp u port env val spaces rounds start = .ok (.resumed landed) ↔
      env 8 = 0 ∧ longjmp u port env val spaces rounds start = .ok (.resumed landed)) ∧
    (longjmp u port env val spaces rounds start = .ok (.resumed landed) ↔
      ∃ depth < rounds, ∃ found, Finds u port env spaces start depth found ∧
        port.Enters u (port.returnArgs env val) longjmpCont found landed) ∧
    (longjmp u port env val spaces rounds start = .ok (.resumed landed) →
      u.Resumable landed → port.ContinuesAt u (port.returnArgs env val) longjmpCont landed) := by
  intro u port
  have laws : port.Laws u := jumpPort_laws host process tables longjmpCont siglongjmpCont
  have few : ∀ arg ∈ port.returnArgs env val, arg.1 < port.numEhRegs := by
    simp [JumpPort.returnArgs, port, jumpPort]
  have nodup : ((port.returnArgs env val).map Prod.fst).Nodup := by
    simp [JumpPort.returnArgs]
  refine ⟨?_, jump_resumed_iff laws few, fun lands => (jump_continuesAt laws
    (unwinder_regular host process tables) few nodup reached inProcess lands).2⟩
  simp only [siglongjmp, longjmp, search_resumed_iff, siglandIn]
  -- the mask of a jump buffer that has one has no room
  have noRoom : port.numEhRegs < 4 ∨ 16 * (64 / 8) < port.nsig :=
    .inl (show 2 < 4 by decide)
  simp only [if_pos noRoom]
  by_cases unsaved : env 8 = 0
  · simp only [unsaved, true_and, show env port.jbMaskSaved = 0 from unsaved, if_true]
  · have saved : env port.jbMaskSaved ≠ 0 := unsaved
    simp only [if_neg saved, unsaved, false_and, iff_false]
    rintro ⟨depth, -, found, -, resumed⟩
    cases resumed

/-- The process in which a leaf has been called, with a jump buffer for its caller. -/
def callerEnv (j : ℕ) : Word 64 := if j = 6 then 0x7008 else if j = 7 then 0x402010 else 0

open SavedInRegister in
theorem leaf_longjmp_continues :
    let port := jumpPort 0x500000 0x500010
    ∃ landed, longjmp debugger port callerEnv 1 (fun _ => space) 2 leaf = .ok (.resumed landed) ∧
      (debugger.Resumable landed →
        port.ContinuesAt debugger (port.returnArgs callerEnv 1) 0x500000 landed) := by
  intro port
  have inProcess : InProcess debugger (fun _ => space) leaf.state := fun _ => ⟨rfl, rfl⟩
  have passes : Passes debugger port callerEnv (fun _ => space) 0 leaf middle :=
    ⟨⟨0x7000, rfl, by decide⟩, middle.cursor, rfl, rfl⟩
  have finds : Finds debugger port callerEnv (fun _ => space) leaf 1 middle :=
    ⟨.step .start passes, rfl⟩
  let resumed := debugger.setReg
    (port.withArgs (port.returnArgs callerEnv 1) middle.cursor) middle.state 16 0x500000
  have enters : port.Enters debugger (port.returnArgs callerEnv 1) 0x500000 middle
      { middle with cursor := resumed.2.1, state := resumed.2.2 } := ⟨rfl, rfl⟩
  have jumped : longjmp debugger port callerEnv 1 (fun _ => space) 2 leaf = .ok (.resumed _) :=
    (longjmp_continues leaf_reached inProcess).2.1.mpr ⟨1, Nat.one_lt_two, middle, finds, enters⟩
  exact ⟨_, jumped, (longjmp_continues leaf_reached inProcess).2.2 jumped⟩

end X86_64

/-! ## aarch64 -/

namespace AArch64

variable {σ : Type} (host : Host) (process : Process σ 64) (tables : σ → UnwindTables 97 64)
  (longjmpCont siglongjmpCont : Word 64)

/-- With the jump buffer of glibc -/
def jumpPort : JumpPort 64 where
  regSp := 31
  regIp := 30
  regEh := 0
  numEhRegs := 4
  jbSp := 13
  jbRp := 14
  jbMaskSaved := 15
  jbMask := 16
  longjmpCont
  siglongjmpCont
  nsig := 65

theorem jumpPort_laws :
    (jumpPort longjmpCont siglongjmpCont).Laws (unwinder host process tables) where
  regIp := rfl
  ehReg i few c s v := by
    have few : i < 4 := few
    interval_cases i <;> rfl
  ehReg_shown i few as c v isSet := by
    have few : i < 4 := few
    have isSet : c.ehArgs i = some v := by simpa [jumpPort] using isSet
    have notIp : ((i : ℕ) : Int) ≠ 30 := by omega
    change (if ((0 + i : ℕ) : Int) = 30 then pure c.ip
      else accessReg host as c ((0 + i : ℕ) : Int)) = .ok v
    rw [Nat.zero_add, if_neg notIp]
    interval_cases i <;> simp [accessReg, isSet]
  ip c s v c' s' written := by
    exact (congrArg (fun result => result.2.1) written).symm
  installed i few := by
    have few : i < 4 := few
    exact ⟨List.mem_map.mpr ⟨0 + i, List.mem_range.mpr (by omega), rfl⟩,
      Option.some_ne_none _ ∘ Eq.symm⟩
  ip_installed := List.mem_map.mpr ⟨30, List.mem_range.mpr (by decide), rfl⟩

variable {host process tables longjmpCont siglongjmpCont} {env : ℕ → Word 64} {val : Word 32}
  {spaces : ℕ → StepSpace 97 64} {rounds : ℕ} {start landed : Session σ 97 64 Extra}

/-- A process without code, and its stack pointer -/
def idle : Dwarf.Traced 64 where
  regs r := .ok (if r = 31 then 0x7000 else 0)
  mem _ := .error .unspec

def idleTables (_ : Dwarf.Traced 64) : UnwindTables 97 64 where
  findProcInfo _ := (.error .noinfo, {})
  cursorSpace := spaceOfBytes 64 []
  localSpace := spaceOfBytes 64 []
  budget := 0

def idleHost : Host where
  localOnly := false

def idleUnwinder : Unwinder (Dwarf.Traced 64) 97 64 Extra :=
  unwinder idleHost (tracedProcess (spaceOfBytes 64 [])) idleTables

def idleSpace : StepSpace 97 64 where
  as := idleUnwinder.process.space idle
  tables := idleTables idle
  budget := 0

/-- What the stack held before the cursor is unknown. -/
def idleCursor : A64Cursor :=
  let before : A64Cursor := { cfa := 0, ip := 0, loc := fun _ => nullLoc, tdep := {} }
  match idleHost.commonInit idleSpace.as before true with
  | .ok c => c
  | .error _ => before

def idleSession : Session (Dwarf.Traced 64) 97 64 Extra where
  cursor := idleCursor
  state := idle

/-- A jump buffer with a signal mask -/
def idleEnv (j : ℕ) : Word 64 := if j = 13 then 0x7000 else if j = 14 then 0x401000 else 1

end AArch64

end Libunwind
