import Libunwind.X64.LocSemantics
import Libunwind.X64.TraceCache

/-! # The fast stack walk of x86_64

`tdep_trace` goes from frame to frame by the records of the trace cache of its thread. The records that
are missing are filled on the way. A walk by records that are known for all addresses does the same
without a cache.
-/

namespace Libunwind.X86_64

open Dwarf

/-! ## The loop -/

/-- How the loop finds the record of a frame at some depth, and how it steps over the frame. -/
structure TraceWays (S : Type) where
  lookup : ℕ → TraceRegs → S → Result (Option CachedFrame × S)
  step : ℕ → Frame → TraceRegs → S → Result TraceRegs

/-- What is returned, and the addresses that are stored. -/
structure TraceOutcome where
  ret : Except UnwError Unit
  stored : List (Word 64)

/-- How a round of the loop ends. -/
inductive TraceTurn where
  | done (ret : Except UnwError Unit)
  | next (regs : TraceRegs)

/-- The registers with `rip` adjusted as for the lookup of unwind info. -/
def TraceRegs.backedUp (regs : TraceRegs) : TraceRegs :=
  { regs with rip := regs.rip - if regs.usePrevInstr then 1 else 0 }

namespace TraceWays

variable {S : Type} (ways : TraceWays S)

/-- What is done with a record that is found. -/
def stepOver (depth : ℕ) (regs : TraceRegs) (f : CachedFrame) (s : S) : Result TraceTurn :=
  if f.virtualAddress ≠ regs.rip then .error .undefined
  else if f.lastFrame then pure (.done (.ok ()))
  else
    match ways.step depth f.frame regs s with
    | .ok next => pure (if next.rip < 0x4000 then .done (.ok ()) else .next next)
    | .error (.err code) => pure (.done (.error code))
    | .error fault => .error fault

/-- A round of the loop of `tdep_trace` -/
def round (depth : ℕ) (regs : TraceRegs) (s : S) : Result (TraceTurn × S) := do
  let regs := regs.backedUp
  let (found, s) ← ways.lookup depth regs s
  match found with
  | none => pure (.done (.error .noinfo), s)
  | some f => do
      let turn ← ways.stepOver depth regs f s
      pure (turn, s)

/-- The loop of `tdep_trace`, from some depth on, with room for as many addresses. -/
def loop : ℕ → ℕ → TraceRegs → S → Result (TraceOutcome × S)
  | 0, _, _, s => pure (⟨.ok (), []⟩, s)
  | room + 1, depth, regs, s => do
      match ← ways.round depth regs s with
      | (.done ret, s) => pure (⟨ret, []⟩, s)
      | (.next regs, s) => do
          let (outcome, s) ← loop room (depth + 1) regs s
          pure (⟨outcome.ret, regs.rip :: outcome.stored⟩, s)

end TraceWays

/-- What a trace has besides its cursor: whether memory is granted for an expansion of the cache at some
    depth, and whether reads are validated there. -/
structure TraceSetting (σ : Type) where
  host : Host
  p : Process σ 64
  space : StepSpace 17 64
  granted : ℕ → Bool
  validate : ℕ → Bool

/-- What changes while a trace goes on. -/
structure TraceState (σ : Type) where
  cache : TraceCache
  cursor : X86Cursor
  process : σ

/-- `trace_cache_get`, for what is in `tls_cache` -/
def traceCacheGet (created : Bool) : Option TraceCache → Option TraceCache
  | some cache => some cache
  | none => if created then some .create else none

namespace TraceSetting

variable {σ : Type} (setting : TraceSetting σ)

/-- The call of `trace_lookup` -/
def callAt (depth : ℕ) (regs : TraceRegs) (s : TraceState σ) : TraceCall σ where
  cursor := { s.cursor with usePrevInstr := regs.usePrevInstr }
  process := s.process
  cfa := regs.cfa
  rip := regs.rip
  rbp := regs.rbp
  rsp := regs.rsp
  space := setting.space
  granted := setting.granted depth

def lookup (depth : ℕ) (regs : TraceRegs) (s : TraceState σ) :
    Result (Option CachedFrame × TraceState σ) := do
  let (slot, cache, cursor, process) ←
    s.cache.traceLookup setting.host setting.p (setting.callAt depth regs s)
  pure (slot.map cache.frames, ⟨cache, cursor, process⟩)

/-- The loop's own way -/
def ways : TraceWays (TraceState σ) where
  lookup := setting.lookup
  step depth f regs s := traceFrame setting.host.localOnly (setting.validate depth)
    (setting.p.space s.process) f regs.cfa regs.rbp regs.rsp

/-- The initial value of `rbp`, which is asserted to be there. -/
def initialRbp (c : X86Cursor) (s : σ) : Result (Word 64) :=
  match accessMemFast setting.host.localOnly false (setting.p.space s) (c.loc rbp).val with
  | .ok rbp => pure rbp
  | .error _ => .error .undefined

/-- The registers that a trace starts with. -/
def initialRegs (c : X86Cursor) (s : σ) : Result TraceRegs := do
  let rbp ← setting.initialRbp c s
  pure { cfa := c.cfa, rip := c.ip, rbp, rsp := c.cfa, usePrevInstr := c.usePrevInstr }

/-- `tdep_trace`, with the cache of the thread before and after it. -/
def tdepTrace (size : Int) (created : Bool) (tls : Option TraceCache) (c : X86Cursor) (s : σ) :
    Result (TraceOutcome × Option TraceCache × σ) :=
  if size ≤ 0 then pure (⟨.error .inval, []⟩, tls, s)
  else do
    let c := { c with stashFrames := true }
    let regs ← setting.initialRegs c s
    match traceCacheGet created tls with
    | none => pure (⟨.error .nomem, []⟩, none, s)
    | some cache => do
        let (outcome, s) ← setting.ways.loop size.toNat 0 regs ⟨cache, c, s⟩
        pure (outcome, some s.cache, s.process)

end TraceSetting

/-! ## What a larger buffer adds -/

namespace TraceWays

variable {S : Type} {ways : TraceWays S} {depth room : ℕ} {regs next : TraceRegs} {s s' : S}

theorem round_none (looked : ways.lookup depth regs.backedUp s = .ok (none, s')) :
    ways.round depth regs s = .ok (.done (.error .noinfo), s') := by
  rw [round, looked, ok_bind]
  rfl

theorem round_some {f : CachedFrame}
    (looked : ways.lookup depth regs.backedUp s = .ok (some f, s')) :
    ways.round depth regs s =
      ways.stepOver depth regs.backedUp f s' >>= fun turn => .ok (turn, s') := by
  rw [round, looked, ok_bind]
  rfl

theorem stepOver_next {f : CachedFrame} (goesOn : ways.stepOver depth regs f s = .ok (.next next)) :
    0x4000 ≤ next.rip := by
  rw [stepOver] at goesOn
  split at goesOn
  · cases goesOn
  · split at goesOn
    · cases goesOn
    · split at goesOn
      · split at goesOn
        · cases goesOn
        · next inside =>
            cases goesOn
            exact BitVec.not_lt.mp inside
      · cases goesOn
      · cases goesOn

/-- The next frame has an address above the first pages. -/
theorem round_next (goesOn : ways.round depth regs s = .ok (.next next, s')) : 0x4000 ≤ next.rip := by
  obtain ⟨⟨found, s₁⟩, -, goesOn⟩ := bind_eq_ok.mp goesOn
  cases found with
  | none => cases goesOn
  | some f =>
      obtain ⟨turn, stepped, goesOn⟩ := bind_eq_ok.mp goesOn
      cases goesOn
      exact stepOver_next stepped

theorem loop_succ :
    ways.loop (room + 1) depth regs s = ways.round depth regs s >>= fun
      | (.done ret, s) => pure (⟨ret, []⟩, s)
      | (.next regs, s) => ways.loop room (depth + 1) regs s >>= fun (outcome, s) =>
          pure (⟨outcome.ret, regs.rip :: outcome.stored⟩, s) := rfl

/-- No more is stored than there is room for, and no address that cannot be one. -/
theorem loop_bounds {outcome : TraceOutcome} (ends : ways.loop room depth regs s = .ok (outcome, s')) :
    outcome.stored.length ≤ room ∧ ∀ rip ∈ outcome.stored, 0x4000 ≤ rip := by
  induction room generalizing depth regs s outcome with
  | zero =>
      cases ends
      exact ⟨le_rfl, by simp⟩
  | succ room ih =>
      obtain ⟨⟨turn, s₁⟩, isRound, ends⟩ := bind_eq_ok.mp ends
      cases turn with
      | done ret =>
          cases ends
          exact ⟨Nat.zero_le _, by simp⟩
      | next regs =>
          obtain ⟨⟨rest, s₂⟩, isRest, ends⟩ := bind_eq_ok.mp ends
          cases ends
          obtain ⟨few, above⟩ := ih isRest
          refine ⟨Nat.succ_le_succ few, fun rip stored => ?_⟩
          rcases List.mem_cons.mp stored with rfl | later
          · exact round_next isRound
          · exact above rip later

/-- With less room the loop does the same until the room is used up. -/
theorem loop_less {more : ℕ} {outcome : TraceOutcome}
    (ends : ways.loop (room + more) depth regs s = .ok (outcome, s')) :
    (outcome.stored.length < room → ways.loop room depth regs s = .ok (outcome, s')) ∧
      (room ≤ outcome.stored.length →
        ∃ s'', ways.loop room depth regs s = .ok (⟨.ok (), outcome.stored.take room⟩, s'')) := by
  induction room generalizing depth regs s outcome with
  | zero => exact ⟨fun few => absurd few (Nat.not_lt_zero _), fun _ => ⟨s, rfl⟩⟩
  | succ room ih =>
      rw [Nat.succ_add] at ends
      obtain ⟨⟨turn, s₁⟩, isRound, ends⟩ := bind_eq_ok.mp ends
      cases turn with
      | done ret =>
          cases ends
          refine ⟨fun _ => ?_, fun full => absurd full (Nat.not_succ_le_zero _)⟩
          rw [loop_succ, isRound]
          rfl
      | next regs =>
          obtain ⟨⟨rest, s₂⟩, isRest, ends⟩ := bind_eq_ok.mp ends
          cases ends
          obtain ⟨few, full⟩ := ih isRest
          rw [loop_succ, isRound]
          dsimp only [ok_bind]
          constructor
          · intro inside
            rw [few (Nat.lt_of_succ_lt_succ inside)]
            rfl
          · intro used
            obtain ⟨s₃, shorter⟩ := full (Nat.le_of_succ_le_succ used)
            rw [shorter]
            exact ⟨s₃, rfl⟩

end TraceWays

namespace TraceSetting

variable {σ : Type} {setting : TraceSetting σ} {created : Bool} {tls tls' : Option TraceCache}
  {c : X86Cursor} {s s' : σ} {size : Int} {outcome : TraceOutcome}

/-- What a trace goes through that ends. -/
theorem tdepTrace_eq_ok (positive : 0 < size) :
    setting.tdepTrace size created tls c s = .ok (outcome, tls', s') ↔
      ∃ regs, setting.initialRegs { c with stashFrames := true } s = .ok regs ∧
        match traceCacheGet created tls with
        | none => outcome = ⟨.error .nomem, []⟩ ∧ tls' = none ∧ s' = s
        | some cache => ∃ after,
            setting.ways.loop size.toNat 0 regs ⟨cache, { c with stashFrames := true }, s⟩ =
              .ok (outcome, after) ∧ tls' = some after.cache ∧ s' = after.process := by
  rw [tdepTrace, if_neg (not_le.mpr positive)]
  constructor
  · intro ends
    obtain ⟨regs, isRegs, ends⟩ := bind_eq_ok.mp ends
    refine ⟨regs, isRegs, ?_⟩
    cases isCache : traceCacheGet created tls with
    | none =>
        rw [isCache] at ends
        cases ends
        exact ⟨rfl, rfl, rfl⟩
    | some cache =>
        rw [isCache] at ends
        obtain ⟨⟨_, after⟩, isLoop, ends⟩ := bind_eq_ok.mp ends
        cases ends
        exact ⟨after, isLoop, rfl, rfl⟩
  · rintro ⟨regs, isRegs, ends⟩
    refine bind_eq_ok.mpr ⟨regs, isRegs, ?_⟩
    cases isCache : traceCacheGet created tls with
    | none =>
        rw [isCache] at ends
        obtain ⟨rfl, rfl, rfl⟩ := ends
        rfl
    | some cache =>
        rw [isCache] at ends
        obtain ⟨after, isLoop, rfl, rfl⟩ := ends
        exact bind_eq_ok.mpr ⟨_, isLoop, rfl⟩

end TraceSetting

/-! A local trace over a frame with a frame record -/

def contextHost : Host where
  localOnly := true
  regLoc r := memLoc (rUcAddr 0x9000 r)
  vsyscall := none

def calledProcess : AddrSpace 64 :=
  processOf [] [(0x402000, 0), (0x402008, 0), (0x7010, 0x7040), (0x7018, 0x401000), (0x7020, 1),
    (0x9078, 0x7010), (0x90a0, 0x7000), (0x90a8, 0x402000)]

def calledSetting : TraceSetting (Traced 64) where
  host := contextHost
  p := tracedProcess calledProcess
  space := bareSpace calledProcess
  granted _ := true
  validate _ := true

def calledCursor : X86Cursor where
  cfa := 0x7000
  ip := 0x402000
  loc r := contextHost.regLoc r
  usePrevInstr := false
  tdep := {}

def calledTraced : Traced 64 := ⟨calledProcess.accessReg, calledProcess.accessMem⟩

end Libunwind.X86_64
