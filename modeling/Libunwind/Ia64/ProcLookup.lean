import Libunwind.Ia64.DynamicRegions
import Libunwind.Ia64.FrameStep

/-! # The proc info of a cursor, and the script that is built from it

`c->pi` is looked up, for the instruction pointer of a cursor or for an alias, and has the descriptors
that `build_script` reads.
-/

namespace Libunwind.Ia64

/-- `unw_proc_info_t` -/
structure UnwProcInfo where
  members : ProcMembers
  /-- `unwind_info`, by `format` and `unwind_info_size` -/
  unwind : FetchedUnwind

namespace UnwProcInfo

/-- `unwind_info` is not `NULL`. -/
def hasUnwind (pi : UnwProcInfo) : Bool :=
  match pi.unwind with
  | .null => false
  | _ => true

def fetched (pi : UnwProcInfo) : FetchedProc := ⟨pi.members.startIp, pi.unwind⟩

end UnwProcInfo

/-- The lookups of proc info, and what is done with it. -/
structure ProcSources where
  /-- `unwi_find_dynamic_proc_info`, for an instruction pointer and `need_unwind_info` -/
  findDynamicProcInfo : Word 64 → Bool → Except UnwError UnwProcInfo
  /-- `ia64_find_proc_info` -/
  findProcInfo : Word 64 → Bool → Except UnwError UnwProcInfo
  /-- What lookups leave in `c->pi` when they fail. -/
  leaves : Word 64 → Bool → ProcMembers → ProcMembers
  leavesUnwind : Word 64 → Bool → FetchedUnwind → FetchedUnwind
  /-- Whether `put_unwind_info` sets `unwind_info` to `NULL`, for `c->pi_is_dynamic`. -/
  puts : Bool → UnwProcInfo → Bool

namespace ProcSources

variable (sources : ProcSources)

/-- The lookups of `ia64_fetch_proc_info`, with `c->pi_is_dynamic`. -/
def lookUp (ip : Word 64) (need : Bool) : Except UnwError UnwProcInfo × Bool :=
  match sources.findDynamicProcInfo ip need with
  | .error .noinfo => (sources.findProcInfo ip need, false)
  | found => (found, true)

/-- `c->pi` after a lookup -/
def piAfter (ip : Word 64) (need : Bool) (found : Except UnwError UnwProcInfo) (pi : UnwProcInfo) :
    UnwProcInfo :=
  match found with
  | .ok pi => pi
  | .error _ => ⟨sources.leaves ip need pi.members, sources.leavesUnwind ip need pi.unwind⟩

/-- `put_unwind_info` -/
def putUnwindInfo (dynamic : Bool) (pi : UnwProcInfo) : UnwProcInfo :=
  if sources.puts dynamic pi then { pi with unwind := .null } else pi

end ProcSources

/-- Lookups that do not change, and for which `need_unwind_info` says only whether the unwind info is
    needed. -/
structure UnwindTables extends ProcSources where
  /-- What is found with unwind info is found without. -/
  notNeeded : ∀ ip pi dynamic, toProcSources.lookUp ip true = (.ok pi, dynamic) →
    ∃ pi', toProcSources.lookUp ip false = (.ok pi', dynamic) ∧ pi'.members = pi.members
  /-- Unwind info that was not needed is that which would have been. -/
  notAsked : ∀ ip pi dynamic, toProcSources.lookUp ip false = (.ok pi, dynamic) → pi.hasUnwind = true →
    toProcSources.lookUp ip true = (.ok pi, dynamic)

/-! ## Building a script -/

/-- The instruction pointer of the alias that the next step carries out. -/
def Building.nextAlias (s : Building) : Option (Word 64) :=
  match s.control with
  | .ops _ (op :: _) _ =>
      match s.parse.sr.takeOp op with
      | (sr, .alias) => some (sr.aliasIp op)
      | _ => none
  | _ => none

/-- The procedure may switch the register backing store. -/
def StateRecord.SwitchesRbs (sr : StateRecord) : Prop :=
  (sr.curr.reg .bsp).when < sr.whenTarget ∧ (sr.curr.reg .bspstore).when < sr.whenTarget ∧
    (sr.curr.reg .rnat).when < sr.whenTarget

instance (sr : StateRecord) : Decidable sr.SwitchesRbs := inferInstanceAs (Decidable (_ ∧ _))

/-- `c->pi.flags |= UNW_PI_FLAG_IA64_RBS_SWITCH` -/
def UnwProcInfo.flagRbs (pi : UnwProcInfo) : UnwProcInfo :=
  { pi with members := { pi.members with flags := pi.members.flags ||| flagRbsSwitch } }

/-- A script that was built, as far as it is not about the cursor. -/
structure Built where
  insns : List ScriptInsn
  abiMarker : Word 16
  prMask : Word 64

/-- A call of `build_script`, with `c->pi` and `c->pi_is_dynamic`. -/
structure ScriptBuild where
  building : Building
  pi : UnwProcInfo
  dynamic : Bool

/-- The pools for a call, which has records granted in this way. Records are counted from the start of
    the call, as it reaches none that were taken before. -/
def Pools.granting (memory : Nat → Bool) : Pools := ⟨.empty, .empty, memory, 0⟩

namespace ScriptBuild

/-- The state in which `build_script` starts. -/
def start (memory : Nat → Bool) (ip pr : Word 64) (pi : UnwProcInfo) (dynamic : Bool) : ScriptBuild :=
  ⟨.begin pr ip pi.fetched (.granting memory), pi, dynamic⟩

variable (sources : ProcSources) (pr : Word 64)

/-- The end of `create_state_record_for`, as far as `c->pi` goes. -/
def finishPi (s : ScriptBuild) (sr : StateRecord) : UnwProcInfo :=
  let pi := sources.putUnwindInfo s.dynamic s.pi
  if sr.SwitchesRbs then pi.flagRbs else pi

/-- The next step; the proc info for an alias is looked up. -/
def step (s : ScriptBuild) : Result ScriptBuild :=
  match s.building.nextAlias with
  | some ip => do
      let (found, dynamic) := sources.lookUp ip true
      let building ← s.building.step pr (found.map UnwProcInfo.fetched)
      pure ⟨building, sources.piAfter ip true found s.pi, dynamic⟩
  | none => do
      let building ← s.building.step pr (.error .noinfo)
      match s.building.control with
      | .finish => pure { s with building, pi := s.finishPi sources building.parse.sr }
      | _ => pure { s with building }

/-- What `build_script` returns, and what it leaves in `c->pi` and `c->pi_is_dynamic`, if it takes no
    more steps than these. -/
def run : Nat → ScriptBuild → Result (Except UnwError Built × UnwProcInfo × Bool)
  | 0, _ => .error .timeout
  | rounds + 1, s =>
      match s.building.control with
      | .returned (.ok insns) =>
          let sr := s.building.parse.sr
          pure (.ok ⟨insns, sr.abiMarker, sr.prMask⟩, s.pi, s.dynamic)
      | .returned (.error code) =>
          pure (.error code, sources.putUnwindInfo s.dynamic s.pi, s.dynamic)
      | _ => do
          let s ← s.step sources pr
          run rounds s

variable {sources pr}

/-- A call that returns does so with more steps, too. -/
theorem run_more {rounds : Nat} {s : ScriptBuild}
    {result : Result (Except UnwError Built × UnwProcInfo × Bool)}
    (returns : run sources pr rounds s = result) (inTime : result ≠ .error .timeout) (more : Nat) :
    run sources pr (rounds + more) s = result := by
  induction rounds generalizing s with
  | zero => exact absurd returns.symm inTime
  | succ rounds ih =>
      rw [Nat.succ_add, run]
      rw [run] at returns
      split at returns
      · exact returns
      · exact returns
      · cases stepped : s.step sources pr with
        | error e => rwa [stepped] at returns
        | ok next =>
            rw [stepped, ok_bind] at returns
            exact ih returns

/-- There is one result that a call returns. -/
theorem run_unique {rounds rounds' : Nat} {s : ScriptBuild}
    (inTime : run sources pr rounds s ≠ .error .timeout)
    (inTime' : run sources pr rounds' s ≠ .error .timeout) :
    run sources pr rounds s = run sources pr rounds' s := by
  rw [← run_more rfl inTime rounds', ← run_more rfl inTime' rounds, Nat.add_comm]

end ScriptBuild

end Libunwind.Ia64
