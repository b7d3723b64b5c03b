import Libunwind.Dwarf.CfiProgram

/-! # State records

`create_state_record_for` runs the instructions of the CIE and then those of
the FDE up to the looked-up location.
-/

namespace Libunwind.Dwarf

variable {n w : Nat}

/-- The record that `setup_fde` starts from. -/
def initialRecord (target : CfiTarget n) (dci : CieInfo w) : StateRecord n w :=
  let same : RegState n w := { reg := fun _ => ⟨.same, 0⟩ }
  let rsCurrent := if target.spIsCfa then same.set (regColumn target.sp) ⟨.cfa, 0⟩ else same
  { rsCurrent := { rsCurrent with retAddrColumn := dci.retAddrColumn } }

/-- `setup_fde`; also counts the allocations that it made. -/
def setupFde (env : CfiEnv n w) (budget : Nat) : Result (StateRecord n w × Nat) := do
  let s ← runCfiProgram env budget (-1) env.dci.cieInstrEnd
    { ip := 0, addr := env.dci.cieInstrStart, sr := initialRecord env.target env.dci }
  pure ({ s.sr with rsInitial := s.sr.rsCurrent }, s.allocs)

theorem setupFde_mono {env : CfiEnv n w} {small large record} (le : small ≤ large)
    (setup : setupFde env small = .ok record) : setupFde env large = .ok record := by
  obtain ⟨s, ended, result⟩ := bind_eq_ok.mp setup
  have finished : runCfiProgram env small (-1) env.dci.cieInstrEnd
      { ip := 0, addr := env.dci.cieInstrStart, sr := initialRecord env.target env.dci } ≠
        .error .timeout := by
    rw [ended]
    nofun
  rw [setupFde, runCfiProgram, WhileLoop.run_mono le finished]
  exact setup

/-- The state in which the instructions of the FDE begin. -/
def fdeStart (env : CfiEnv n w) (sr : StateRecord n w) (allocs : Nat) : CfiState n w :=
  { ip := env.pi.startIp, addr := env.dci.fdeInstrStart, sr, allocs }

/-- `parse_fde`. -/
def parseFde (env : CfiEnv n w) (budget : Nat) (ip : Word w) (usePrevInstr : Bool)
    (sr : StateRecord n w) (allocs : Nat) : Result (StateRecord n w) := do
  let s ← runCfiProgram env budget (ip - if usePrevInstr then 1 else 0) env.dci.fdeInstrEnd
    (fdeStart env sr allocs)
  pure s.sr

/-- What a cursor's address space offers to the interpreter. -/
structure CfiContext (n w : Nat) where
  target : CfiTarget n
  /-- `UNW_TARGET_ARM`. -/
  arm : Bool := false
  cursorSpace : AddrSpace w
  localSpace : AddrSpace w
  pool : Nat → Bool := fun _ => true

def CfiContext.env (ctx : CfiContext n w) (pi : ProcInfo w) (dci : CieInfo w) : CfiEnv n w :=
  { ctx with pi, dci }

/-- `create_state_record_for`. Both ARM's case and the default are refused, with
    different codes. -/
def createStateRecordFor (ctx : CfiContext n w) (budget : Nat) (pi : ProcInfo w) (ip : Word w)
    (usePrevInstr : Bool) : Result (StateRecord n w) :=
  match pi.format with
  | .table | .remoteTable =>
      match pi.unwindInfo with
      | none => .error .undefined
      | some dci => do
          let (sr, allocs) ← setupFde (ctx.env pi dci) budget
          parseFde (ctx.env pi dci) budget ip usePrevInstr sr allocs
  | .dynamic => .error (.err .noinfo)
  | .armExidx => .error (.err (if ctx.arm then .noinfo else .inval))
  | .ipOffset | .remoteTable64 => .error (.err .inval)

end Libunwind.Dwarf
