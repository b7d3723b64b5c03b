import Libunwind.X64.Resume
import Libunwind.A64.Resume

/-! # `unw_resume`

Both ports copy a cursor's registers to the process one after another, and read
each one from the process as the copies so far have left it. The copy is that of
what the cursor showed as long as no register is read from one that it has already
changed.
-/

namespace Libunwind

open Dwarf

/-- In a session of any calls, `unw_resume` installs the registers that the cursor
    shows exactly when each location still leads to its register's value after the
    registers before it are installed, and the argument size that was found last is
    that of the frame. -/
theorem resume_installs_iff {σ : Type} :
    (∀ (host : X86_64.Host) (process : Process σ 64) (tables : σ → UnwindTables 17 64)
      (session : Session σ 17 64 X86_64.Extra),
      (X86_64.unwinder host process tables).Reaches session →
        ((X86_64.unwinder host process tables).Installs session ↔
          (X86_64.unwinder host process tables).Resumable session)) ∧
    ∀ (host : AArch64.Host) (process : Process σ 64) (tables : σ → UnwindTables 97 64)
      (session : Session σ 97 64 AArch64.Extra),
      (AArch64.unwinder host process tables).Reaches session →
        ((AArch64.unwinder host process tables).Installs session ↔
          (AArch64.unwinder host process tables).Resumable session) := by
  constructor
  · intro host process tables session reached
    exact Unwinder.installs_iff (X86_64.unwinder_regular host process tables) reached.recorded
  · intro host process tables session reached
    exact Unwinder.installs_iff (AArch64.unwinder_regular host process tables) reached.recorded

/-! ## A register that is saved in another one -/

namespace SavedInRegister

open X86_64

/-- The instructions of two frames. The leaf saves `r12` in `rcx`; its caller saves
    `rcx` on the stack. -/
def instructions : AddrSpace 64 :=
  spaceOfBytes 64
    [0x0c, 0x07, 0x08, 0x90, 0x01, 0x09, 0x0c, 0x02,
     0x0c, 0x07, 0x10, 0x90, 0x01, 0x82, 0x02, 0x00]

/-- The procedure at `startIp`, whose instructions are there. -/
def procedure (startIp instrStart : Word 64) : ProcInfo 64 where
  startIp
  endIp := startIp + 0x100
  format := .table
  unwindInfo := some
    { cieInstrStart := instrStart
      cieInstrEnd := instrStart + 8
      fdeInstrStart := instrStart + 8
      fdeInstrEnd := instrStart + 8
      codeAlign := 1
      dataAlign := -8
      retAddrColumn := 16 }

def tables (_ : Traced 64) : UnwindTables 17 64 where
  findProcInfo ip :=
    if ip < 0x402000 then (.ok (), procedure 0x401000 0) else (.ok (), procedure 0x402000 8)
  cursorSpace := instructions
  localSpace := instructions
  budget := 9

/-- A process that is stopped in the leaf. -/
def stopped : Traced 64 where
  regs r :=
    .ok (if r = 2 then 0x1111 else if r = 7 then 0x7000 else if r = 16 then 0x401010 else 0)
  mem addr :=
    if addr = 0x7000 then .ok 0x402010 else if addr = 0x7008 then .ok 0x3333
    else if addr = 0x7010 then .ok 0x403010 else .error .unspec

def debugger : Unwinder (Traced 64) 17 64 Extra :=
  unwinder linuxHost (tracedProcess instructions) tables

def space : StepSpace 17 64 where
  as := debugger.process.space stopped
  tables := tables stopped
  budget := 9

def leaf : Session (Traced 64) 17 64 Extra where
  cursor := stoppedCursor 0x401010 0x7000 true
  state := stopped

def middle : Session (Traced 64) 17 64 Extra :=
  { leaf with cursor := (unwStep linuxHost leaf.cursor space).2 }

def outer : Session (Traced 64) 17 64 Extra :=
  { middle with cursor := (unwStep linuxHost middle.cursor space).2 }

theorem leaf_reached : debugger.Reaches leaf :=
  .start ⟨⟨true, {}, rfl⟩, rfl, rfl⟩

theorem outer_reached : debugger.Reaches outer := by
  have up : (unwStep linuxHost leaf.cursor space).1 = .ok true := rfl
  have upAgain : (unwStep linuxHost middle.cursor space).1 = .ok true := rfl
  have middle_reached : debugger.Reaches middle :=
    .step (.step space) leaf_reached trivial ⟨rfl, rfl, .inl ⟨true, up⟩, rfl⟩
  exact .step (.step space) middle_reached trivial ⟨rfl, rfl, .inl ⟨true, upAgain⟩, rfl⟩

/-- In the outer frame `r12` is still in `rcx`, which is installed first. -/
theorem outer_not_installed :
    ¬ ∀ (host : Host) (process : Process (Traced 64) 64)
      (tables : Traced 64 → UnwindTables 17 64) (session : Session (Traced 64) 17 64 Extra),
      (unwinder host process tables).Reaches session →
        (unwinder host process tables).Installs session := by
  intro always
  have installs := always linuxHost (tracedProcess instructions) tables outer outer_reached
  have r12 : debugger.Shows outer 12 0x1111 := ⟨rfl, rfl⟩
  have rcx : debugger.Shows outer 2 0x3333 := ⟨rfl, rfl⟩
  have split : debugger.registers =
      [0, 1, 2, 3, 4, 5, 6, 7, 8, 9, 10, 11] ++ 12 :: [13, 14, 15, 16] := rfl
  have savedIn (s : Traced 64) : debugger.read outer.cursor 12 s = debugger.process.reg 2 s := by
    change (ofAccess (s.regs 2)).toOption = (s.regs 2).toOption
    cases s.regs 2 <;> rfl
  exact Unwinder.not_installs_of_savedIn (unwinder_regular ..) outer_reached.recorded split
    (by decide) (by decide) (by decide) savedIn r12 rcx rfl (by decide) installs

/-- In the leaf nothing is moved. -/
theorem leaf_installs_iff : debugger.Installs leaf ↔ debugger.Resumable leaf :=
  resume_installs_iff.1 linuxHost (tracedProcess instructions) tables leaf leaf_reached

end SavedInRegister

end Libunwind
