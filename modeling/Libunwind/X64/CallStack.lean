import Libunwind.Dwarf.CallStack
import Libunwind.X64.Backtrace

/-! # Walks over a call stack on x86_64

The frames that unwind info says a stack to have are those that `unw_step` comes to, each with the
registers that `unw_get_reg` shows, and a backtrace is made up of their addresses.
-/

namespace Libunwind.X86_64

open Dwarf

variable {host : Host} {spaces : ℕ → StepSpace 17 64} {as : AddrSpace 64}
  {tables : UnwindTables 17 64} {budget depth : ℕ} {a b : Activation 17 64} {c : X86Cursor}
  {chain : List (Activation 17 64)} {cursors : List X86Cursor}

/-- The registers of a frame, under the numbers of `unw_get_reg` -/
def frameReg (a : Activation 17 64) (reg : Int) : Result (Word 64) :=
  if reg = 16 then pure a.ip
  else if reg = 17 then pure a.cfa
  else if 0 ≤ reg ∧ reg.toNat < 17 then readShown (a.regs (Fin.ofNat 17 reg.toNat))
  else .error (.err .badreg)

def view (host : Host) (as : AddrSpace 64) : View host.target as where
  getReg := frameReg
  strip ip := ip
  getReg_eq {c a} shows := by
    funext reg
    change (if reg = 16 then pure c.ip else accessReg host.localOnly as c reg) = _
    have read (r : Fin 17) : (c.loc r).get host.localOnly as = readShown (a.regs r) := by
      rw [← shows.regs]
      exact (Loc.readShown_shown ..).symm
    unfold frameReg accessReg
    simp only [shows.ip, shows.cfa, shows.ehArgs, read]
    split
    · rfl
    · split
      · rfl
      · split
        next valid =>
          have same : Fin.ofNat 17 reg.toNat = ⟨reg.toNat, valid.2⟩ :=
            Fin.ext (Nat.mod_eq_of_lt valid.2)
          rw [same]
          split <;> rfl
        next invalid => rfl
  strip_eq c := rfl

theorem unwStep_of_calledBy {space : StepSpace 17 64}
    (follows : space.Follows host.target as tables budget) (isAt : c.IsAt host.localOnly as a)
    (called : CalledBy host.target (view host as) budget a tables b) :
    ∃ c', unwStep host c space = (.ok (decide (b.ip ≠ 0)), c') ∧ c'.IsAt host.localOnly as b := by
  have cleared : (clearSigcontext c).IsAt host.target.localOnly as a :=
    ⟨⟨isAt.ip, isAt.cfa, isAt.regs, isAt.ehArgs⟩, isAt.usePrevInstr⟩
  obtain ⟨c', stepped, isAt'⟩ := dwarfStep_of_calledBy follows cleared called
  refine ⟨c', ?_, isAt'⟩
  rw [unwStep, stepped]

theorem slowBacktrace_of_walks
    (walks : Walks (fun depth c => unwStep host c (spaces depth)) depth c cursors) (room : ℕ) :
    slowBacktrace host spaces room depth c = .ok ((cursors.map Cursor.ip).take room) := by
  induction walks generalizing room with
  | ended stepped =>
      unfold slowBacktrace
      rw [stepped, List.map_nil, List.take_nil]
      rfl
  | step stepped _ ih =>
      cases room with
      | zero =>
          unfold slowBacktrace
          rw [stepped]
          rfl
      | succ room =>
          rw [slowBacktrace_steps stepped, ih]
          rfl

/-- From where a process is stopped, the steps come to all frames of the call chain that the unwind
    info describes, and to no others. -/
theorem callChain_recovered {usePrevInstr : Bool} {frameInfo : Frame}
    (follows : ∀ depth, (spaces depth).Follows host.target as tables budget)
    (init : host.commonInit as usePrevInstr frameInfo = .ok c)
    (isChain : CallChain host.target (view host as) budget tables
      (c.activation host.localOnly as) chain) :
    (∃ cursors, Walks (fun depth c => unwStep host c (spaces depth)) 0 c cursors ∧
      List.Forall₂ (fun c a => c.IsAt host.localOnly as a ∧
        ∀ reg, host.target.getReg as c reg = frameReg a reg) cursors chain) ∧
    ∀ room, slowBacktrace host spaces room 0 c = .ok ((chain.map Activation.ip).take room) := by
  have ehArgs : c.ehArgs = fun _ => none := by
    obtain ⟨ip, -, init⟩ := bind_eq_ok.mp init
    obtain ⟨cfa, -, init⟩ := bind_eq_ok.mp init
    cases init
    rfl
  obtain ⟨cursors, walks, each⟩ := walks_of_callChain (t := host.target)
    (fun depth c a b isAt called => unwStep_of_calledBy (follows depth) isAt called)
    (Cursor.isAt_activation ehArgs) isChain 0
  have ips : cursors.map Cursor.ip = chain.map Activation.ip := by
    rw [← List.forall₂_eq_eq_eq, List.forall₂_map_left_iff, List.forall₂_map_right_iff]
    exact List.Forall₂.imp (fun _ _ isAt => isAt.ip) each
  have shown : ∀ c a, c.IsAt host.localOnly as a → c.IsAt host.localOnly as a ∧
      ∀ reg, host.target.getReg as c reg = frameReg a reg := fun c a isAt =>
    ⟨isAt, congrFun ((view host as).getReg_eq isAt.toShows)⟩
  refine ⟨⟨cursors, walks, List.Forall₂.imp shown each⟩, fun room => ?_⟩
  rw [slowBacktrace_of_walks walks, ips]

/-! ## A process in a function that `main` calls -/

/-- A process stopped at `0x401010`. Its unwind program is `def_cfa rsp, 8` and `offset rip, -8`;
    `main` adds `undefined rip`. -/
def calleeProcess : AddrSpace 64 :=
  { processOf [(7, 0x7000), (16, 0x401010)] [(0x7000, 0x402010)] with
    readByte := (spaceOfBytes 64 [0x0c, 0x07, 0x08, 0x90, 0x01, 0x07, 0x10]).readByte }

def calleeInfo (ip : Word 64) : ProcInfo 64 where
  startIp := ip &&& 0xfff000
  endIp := (ip &&& 0xfff000) + 0x100
  format := .table
  unwindInfo := some
    { cieInstrEnd := 5
      fdeInstrStart := 5
      fdeInstrEnd := if ip < 0x402000 then 5 else 7
      codeAlign := 1
      dataAlign := -8
      retAddrColumn := 16 }

def calleeSpace : StepSpace 17 64 where
  as := calleeProcess
  tables :=
    { findProcInfo := fun ip => (.ok (), calleeInfo ip)
      cursorSpace := calleeProcess
      localSpace := calleeProcess
      budget := 8 }
  budget := 8

def remoteHost : Host where
  localOnly := false
  vsyscall := none

def calleeCursor : X86Cursor where
  cfa := 0x7000
  ip := 0x401010
  loc r := remoteHost.regLoc r
  usePrevInstr := false
  tdep := {}

def mainFrame : Activation 17 64 where
  ip := 0x402010
  cfa := 0x7008
  usePrevInstr := true
  regs r := some (.ok (if r = rip then 0x402010 else if r = rsp then 0x7008 else 0))

/-- What would call `main` has no return address. -/
def outerFrame : Activation 17 64 where
  ip := 0
  cfa := 0x7010
  usePrevInstr := true
  regs r := if r = rip then none else some (.ok (if r = rsp then 0x7010 else 0))

/-- The row for an address. -/
def calleeRow (ip : Word 64) (usePrevInstr : Bool) : RegState 17 64 :=
  match calleeSpace.tables.rowAt remoteHost.target ip usePrevInstr with
  | .ok (rs, _) => rs
  | .error _ => { reg := fun _ => ⟨.undef, 0⟩ }

theorem calleeRow_saved :
    ∀ i, ((calleeRow 0x401010 false).reg (regColumn i)).how ≠ .reg ∧
      ((calleeRow 0x402010 true).reg (regColumn i)).how ≠ .reg := by
  decide

theorem callee_callChain :
    CallChain remoteHost.target (view remoteHost calleeProcess) 8 calleeSpace.tables
      (calleeCursor.activation false calleeProcess) [mainFrame] := by
  have first : CalledBy remoteHost.target (view remoteHost calleeProcess) 8
      (calleeCursor.activation false calleeProcess) calleeSpace.tables mainFrame := by
    refine ⟨⟨calleeRow 0x401010 false, false, rip, rfl, ?_, rfl, rfl, rfl, fun r => ?_, rfl⟩,
      .inl (by decide)⟩
    · exact fun i r saved => absurd saved.1 (calleeRow_saved i).1
    · fin_cases r <;> rfl
  have second : CalledBy remoteHost.target (view remoteHost calleeProcess) 8 mainFrame
      calleeSpace.tables outerFrame := by
    refine ⟨⟨calleeRow 0x402010 true, false, rip, rfl, ?_, rfl, rfl, rfl, fun r => ?_, rfl⟩,
      .inl (by decide)⟩
    · exact fun i r saved => absurd saved.1 (calleeRow_saved i).2
    · fin_cases r <;> rfl
  exact .call first (by decide) (.outermost second rfl)

theorem callee_recovered :
    (∃ cursors, Walks (fun _ c => unwStep remoteHost c calleeSpace) 0 calleeCursor cursors ∧
      List.Forall₂ (fun c a => c.IsAt false calleeProcess a ∧
        ∀ reg, remoteHost.target.getReg calleeProcess c reg = frameReg a reg)
        cursors [mainFrame]) ∧
    ∀ room, slowBacktrace remoteHost (fun _ => calleeSpace) room 0 calleeCursor =
      .ok (([mainFrame].map Activation.ip).take room) :=
  callChain_recovered (fun _ => calleeSpace.follows_of_uncached remoteHost.target rfl) rfl
    callee_callChain

end Libunwind.X86_64
