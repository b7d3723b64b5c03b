import Libunwind.Dwarf.Resume

/-! # `longjmp` by unwinding

`_longjmp` and `siglongjmp` unwind until the stack pointer is that of the jump buffer, and resume the
frame that they come to in a continuation of their own. They never return.
-/

namespace Libunwind.Setjmp

open Dwarf

/-! ## The search -/

/-- How a jump ends: in `unw_resume` of a session, or in `abort`. -/
inductive Jump (σ : Type) (n w : ℕ) (τ : Type) where
  | resumed (session : Session σ n w τ)
  | aborted

/-- What a jump uses of a port, and where `setjmp` has stored things. -/
structure JumpPort (w : ℕ) where
  regSp : Int
  regIp : Int
  /-- `UNW_REG_EH`, and how many there are. -/
  regEh : ℕ
  numEhRegs : ℕ
  jbSp : ℕ
  jbRp : ℕ
  jbMaskSaved : ℕ
  jbMask : ℕ
  jbStkShift : Word w := 0
  /-- `_UI_longjmp_cont` -/
  longjmpCont : Word w
  /-- `_UI_siglongjmp_cont` -/
  siglongjmpCont : Word w
  nsig : ℕ

section Source

variable {σ τ : Type} {n w : ℕ} (u : Unwinder σ n w τ) (port : JumpPort w) (env : ℕ → Word w)
  (val : Word 32) (spaces : ℕ → StepSpace n w)

/-- Calls of `unw_set_reg`, until one fails. -/
def setRegs : List (Int × Word w) → Session σ n w τ → Result (Jump σ n w τ)
  | [], session => pure (.resumed session)
  | (r, v) :: rest, session =>
      match u.setReg session.cursor session.state r v with
      | (.ok (), cursor, state) => setRegs rest { session with cursor, state }
      | (.error (.err _), _) => pure .aborted
      | (.error fault, _) => .error fault

/-- The loop of a jump, which lands in the first frame that has the stack pointer. -/
def search (land : Session σ n w τ → Result (Jump σ n w τ)) :
    ℕ → ℕ → Session σ n w τ → Result (Jump σ n w τ)
  | 0, _, _ => .error .timeout
  | rounds + 1, depth, session =>
      match u.target.getReg (u.process.space session.state) session.cursor port.regSp with
      | .error (.err _) => pure .aborted
      | .error fault => .error fault
      | .ok sp =>
          if sp = env port.jbSp + port.jbStkShift then land session
          else
            match u.step session.cursor (spaces depth) with
            | (.ok true, cursor) => search land rounds (depth + 1) { session with cursor }
            | (.ok false, _) | (.error (.err _), _) => pure .aborted
            | (.error fault, _) => .error fault

/-- The register that an argument of the resumed code is passed in. -/
def JumpPort.ehReg (i : ℕ) : Int := (port.regEh + i : ℕ)

/-- The registers that a frame is resumed with. -/
def JumpPort.regs (args : List (ℕ × Word w)) (cont : Word w) : List (Int × Word w) :=
  args.map (fun arg => (port.ehReg arg.1, arg.2)) ++ [(port.regIp, cont)]

/-- Where to return to, and what. -/
def JumpPort.returnArgs : List (ℕ × Word w) := [(0, env port.jbRp), (1, val.signExtend w)]

/-- The signal mask -/
def JumpPort.maskArgs : List (ℕ × Word w) :=
  (2, env port.jbMask) ::
    if 8 * (w / 8) < port.nsig then [(3, env (port.jbMask + 1))] else []

/-- `_longjmp`, from the cursor of `unw_init_local` -/
def longjmp (rounds : ℕ) (session : Session σ n w τ) : Result (Jump σ n w τ) :=
  search u port env spaces (setRegs u (port.regs (port.returnArgs env val) port.longjmpCont)) rounds 0 session

/-- What `siglongjmp` does in the frame that it finds, where `unw_resume` does not restore the signal
    mask. -/
def siglandIn (session : Session σ n w τ) : Result (Jump σ n w τ) :=
  if env port.jbMaskSaved = 0 then
    setRegs u (port.regs (port.returnArgs env val) port.longjmpCont) session
  -- the mask has to fit into the arguments
  else if port.numEhRegs < 4 ∨ 16 * (w / 8) < port.nsig then pure .aborted
  else
    setRegs u (port.regs (port.maskArgs env ++ port.returnArgs env val) port.siglongjmpCont) session

/-- `siglongjmp` -/
def siglongjmp (rounds : ℕ) (session : Session σ n w τ) : Result (Jump σ n w τ) :=
  search u port env spaces (siglandIn u port env val) rounds 0 session

/-! ## Where the search ends -/

/-- The stack pointer of a frame is read, and is not that of the jump buffer; the step leads to its
    caller. -/
structure Passes (depth : ℕ) (session caller : Session σ n w τ) : Prop where
  sp : ∃ sp, u.target.getReg (u.process.space session.state) session.cursor port.regSp = .ok sp ∧
    sp ≠ env port.jbSp + port.jbStkShift
  step : ∃ cursor, u.step session.cursor (spaces depth) = (.ok true, cursor) ∧
    caller = { session with cursor }

/-- The frames that are passed on the way to a session. -/
inductive Climbs (start : Session σ n w τ) : ℕ → Session σ n w τ → Prop where
  | start : Climbs start 0 start
  | step {depth : ℕ} {session caller : Session σ n w τ} : Climbs start depth session →
      Passes u port env spaces depth session caller → Climbs start (depth + 1) caller

/-- The frame is the innermost one whose stack pointer is that of the jump buffer. -/
structure Finds (start : Session σ n w τ) (depth : ℕ) (found : Session σ n w τ) : Prop where
  climbs : Climbs u port env spaces start depth found
  sp : u.target.getReg (u.process.space found.state) found.cursor port.regSp =
    .ok (env port.jbSp + port.jbStkShift)

end Source

section Search

variable {σ τ : Type} {n w : ℕ} {u : Unwinder σ n w τ} {port : JumpPort w} {env : ℕ → Word w}
  {spaces : ℕ → StepSpace n w} {land : Session σ n w τ → Result (Jump σ n w τ)}
  {start session caller landed : Session σ n w τ} {rounds depth more : ℕ}

theorem search_passes (passes : Passes u port env spaces depth session caller) :
    search u port env spaces land (rounds + 1) depth session =
      search u port env spaces land rounds (depth + 1) caller := by
  obtain ⟨⟨sp, isSp, other⟩, cursor, stepped, rfl⟩ := passes
  rw [search, isSp]
  dsimp only
  rw [if_neg other, stepped]

/-- A search that resumes a frame has found it. -/
theorem finds_of_search (climbs : Climbs u port env spaces start depth session)
    (lands : search u port env spaces land rounds depth session = .ok (.resumed landed)) :
    ∃ more < rounds, ∃ found, Finds u port env spaces start (depth + more) found ∧
      land found = .ok (.resumed landed) := by
  induction rounds generalizing depth session with
  | zero => cases lands
  | succ rounds ih =>
      rw [search] at lands
      split at lands
      · cases lands
      · cases lands
      · next sp isSp =>
          split at lands
          · next same =>
              subst same
              exact ⟨0, Nat.succ_pos _, session, ⟨climbs, isSp⟩, lands⟩
          · next other =>
              split at lands
              · next cursor stepped =>
                  obtain ⟨more, few, found, finds, landed⟩ :=
                    ih (climbs.step ⟨⟨sp, isSp, other⟩, cursor, stepped, rfl⟩) lands
                  refine ⟨more + 1, Nat.succ_lt_succ few, found, ?_, landed⟩
                  rwa [Nat.add_right_comm, Nat.add_assoc] at finds
              · cases lands
              · cases lands
              · cases lands

theorem search_climbs (climbs : Climbs u port env spaces start depth session) :
    search u port env spaces land (depth + rounds) 0 start =
      search u port env spaces land rounds depth session := by
  induction climbs generalizing rounds with
  | start => rw [Nat.zero_add]
  | step _ passes ih => rw [Nat.add_right_comm, Nat.add_assoc, ih, search_passes passes]

/-- A frame that can be found is the one that a search comes to. -/
theorem search_finds (finds : Finds u port env spaces start depth session) (few : depth < rounds) :
    search u port env spaces land rounds 0 start = land session := by
  obtain ⟨more, rfl⟩ := Nat.exists_eq_add_of_lt few
  rw [Nat.add_assoc, search_climbs finds.climbs, search, finds.sp]
  exact if_pos rfl

/-- The frame that a search lands in is the innermost one that matches. -/
theorem search_resumed_iff :
    search u port env spaces land rounds 0 start = .ok (.resumed landed) ↔
      ∃ depth < rounds, ∃ found, Finds u port env spaces start depth found ∧
        land found = .ok (.resumed landed) := by
  constructor
  · intro lands
    obtain ⟨depth, few, found, finds, landed⟩ := finds_of_search .start lands
    rw [Nat.zero_add] at finds
    exact ⟨depth, few, found, finds, landed⟩
  · rintro ⟨depth, few, found, finds, landed⟩
    rw [search_finds finds few, landed]

end Search

/-! ## What is resumed -/

section Landing

variable {σ τ : Type} {n w : ℕ} (u : Unwinder σ n w τ) (port : JumpPort w)

/-- The cursor with the arguments set. -/
def JumpPort.withArgs : List (ℕ × Word w) → Cursor n w τ → Cursor n w τ
  | [], c => c
  | (i, v) :: rest, c =>
      withArgs rest { c with ehArgs := Function.update c.ehArgs (port.regEh + i) (some v) }

/-- The session that a frame is resumed in. -/
structure JumpPort.Enters (args : List (ℕ × Word w)) (cont : Word w)
    (found landed : Session σ n w τ) : Prop where
  written : u.setReg (port.withArgs args found.cursor) found.state port.regIp cont =
    (.ok (), landed.cursor, landed.state)
  rest : landed = { found with cursor := landed.cursor, state := landed.state }

/-- What the port makes of the registers that a jump sets. -/
structure JumpPort.Laws : Prop where
  regIp : port.regIp = u.target.regIp
  ehReg : ∀ i < port.numEhRegs, ∀ c s v, u.setReg c s (port.ehReg i) v =
    (.ok (), { c with ehArgs := Function.update c.ehArgs (port.regEh + i) (some v) }, s)
  ehReg_shown : ∀ i < port.numEhRegs, ∀ as c v, c.ehArgs (port.regEh + i) = some v →
    u.target.getReg as c (port.ehReg i) = .ok v
  ip : ∀ c s v c' s', u.setReg c s port.regIp v = (.ok (), c', s') → c' = { c with ip := v }
  installed : ∀ i < port.numEhRegs, port.ehReg i ∈ u.registers ∧ u.argsReg ≠ some (port.ehReg i)
  ip_installed : port.regIp ∈ u.registers

/-- What the process has when the session is resumed. -/
def JumpPort.ContinuesAt (args : List (ℕ × Word w)) (cont : Word w)
    (landed : Session σ n w τ) : Prop :=
  ∀ set ∈ port.regs args cont, (u.process.reg set.1 landed.state).isSome →
    u.process.reg set.1 (u.establishMachineState landed.cursor landed.argsSize landed.state) =
      some set.2

variable {u port} {args : List (ℕ × Word w)} {cont : Word w} {c : Cursor n w τ}
  {session found landed : Session σ n w τ} {i : ℕ} {v : Word w}

theorem withArgs_other (other : i ∉ args.map Prod.fst) :
    (port.withArgs args c).ehArgs (port.regEh + i) = c.ehArgs (port.regEh + i) := by
  induction args generalizing c with
  | nil => rfl
  | cons arg rest ih =>
      obtain ⟨differ, other⟩ := not_or.mp (mt List.mem_cons.mpr other)
      rw [JumpPort.withArgs, ih other]
      exact Function.update_of_ne (fun same => differ (Nat.add_left_cancel same)) ..

theorem withArgs_set (nodup : (args.map Prod.fst).Nodup) (member : (i, v) ∈ args) :
    (port.withArgs args c).ehArgs (port.regEh + i) = some v := by
  induction args generalizing c with
  | nil => cases member
  | cons arg rest ih =>
      obtain ⟨once, nodup⟩ := List.nodup_cons.mp nodup
      rcases List.mem_cons.mp member with rfl | member
      · rw [JumpPort.withArgs, withArgs_other once]
        exact Function.update_self ..
      · exact ih nodup member

theorem setRegs_resumed_iff (laws : port.Laws u) (few : ∀ arg ∈ args, arg.1 < port.numEhRegs) :
    setRegs u (port.regs args cont) session = .ok (.resumed landed) ↔
      port.Enters u args cont session landed := by
  induction args generalizing session with
  | nil =>
      constructor
      · intro sets
        simp only [JumpPort.regs, List.map_nil, List.nil_append, setRegs] at sets
        split at sets
        · next cursor state written =>
            cases sets
            exact ⟨written, rfl⟩
        · cases sets
        · cases sets
      · rintro ⟨written, rest⟩
        simp only [JumpPort.regs, List.map_nil, List.nil_append, setRegs]
        rw [show port.withArgs [] session.cursor = session.cursor from rfl] at written
        rw [written, rest]
        rfl
  | cons arg rest ih =>
      have sets := laws.ehReg arg.1 (few arg List.mem_cons_self) session.cursor session.state arg.2
      have ih := @ih { session with
          cursor := { session.cursor with
            ehArgs := Function.update session.cursor.ehArgs (port.regEh + arg.1) (some arg.2) } }
        fun other member => few other (List.mem_cons_of_mem arg member)
      simp only [JumpPort.regs, List.map_cons, List.cons_append, setRegs, sets] at ih ⊢
      rw [ih]
      exact ⟨fun ⟨written, rest⟩ => ⟨written, rest⟩, fun ⟨written, rest⟩ => ⟨written, rest⟩⟩

/-- What has been set is shown in the frame. -/
theorem JumpPort.Enters.shown (enters : port.Enters u args cont found landed) (laws : port.Laws u)
    (few : ∀ arg ∈ args, arg.1 < port.numEhRegs) (nodup : (args.map Prod.fst).Nodup) (as : AddrSpace w) :
    ∀ set ∈ port.regs args cont, u.target.getReg as landed.cursor set.1 = .ok set.2 := by
  have cursor := laws.ip _ _ _ _ _ enters.written
  intro set member
  rcases List.mem_append.mp member with member | member
  · obtain ⟨⟨i, v⟩, isArg, rfl⟩ := List.mem_map.mp member
    refine laws.ehReg_shown i (few _ isArg) as _ v ?_
    rw [cursor]
    exact withArgs_set nodup isArg
  · cases List.mem_singleton.mp member
    rw [Target.getReg, if_pos laws.regIp, cursor]
    rfl

/-- A frame that can be resumed continues with what has been set. -/
theorem JumpPort.Enters.continuesAt (enters : port.Enters u args cont found landed)
    (laws : port.Laws u) (regular : u.Regular) (few : ∀ arg ∈ args, arg.1 < port.numEhRegs)
    (nodup : (args.map Prod.fst).Nodup) (recorded : u.Recorded landed)
    (resumable : u.Resumable landed) : port.ContinuesAt u args cont landed := by
  intro set member present
  have shown := enters.shown laws few nodup (u.process.space landed.state) set member
  have isInstalled : set.1 ∈ u.registers ∧ u.argsReg ≠ some set.1 := by
    rcases List.mem_append.mp member with member | member
    · obtain ⟨arg, isArg, rfl⟩ := List.mem_map.mp member
      exact laws.installed arg.1 (few arg isArg)
    · cases List.mem_singleton.mp member
      exact ⟨laws.ip_installed, laws.regIp ▸ regular.argsReg⟩
  have installs := (Unwinder.installs_iff regular recorded).mpr resumable
  rw [installs set.1 isInstalled.1 set.2 ⟨shown, present⟩, if_neg isInstalled.2]

/-! ## Jumps of a thread -/

variable {env : ℕ → Word w} {spaces : ℕ → StepSpace n w} {start caller : Session σ n w τ} {depth : ℕ}

/-- Each step is in the process as it is. -/
def InProcess (u : Unwinder σ n w τ) (spaces : ℕ → StepSpace n w) (s : σ) : Prop :=
  ∀ depth, (spaces depth).as = u.process.space s ∧ (spaces depth).tables = u.tables s

theorem Climbs.reached (climbs : Climbs u port env spaces start depth session)
    (inProcess : InProcess u spaces start.state) (reached : u.Reaches start) :
    u.Reaches session ∧ session.state = start.state := by
  induction climbs with
  | start => exact ⟨reached, rfl⟩
  | @step depth session caller _ passes ih =>
      obtain ⟨reached, same⟩ := ih
      obtain ⟨cursor, stepped, rfl⟩ := passes.step
      have here := inProcess depth
      rw [← same] at here
      exact ⟨.step (.step (spaces depth)) reached trivial
        ⟨here.1, here.2, .inl ⟨true, congrArg Prod.fst stepped⟩,
          congrArg (fun result => { session with cursor := result.2 }) stepped.symm⟩, same⟩

theorem setRegs_reached {sets : List (Int × Word w)} (reached : u.Reaches session)
    (lands : setRegs u sets session = .ok (.resumed landed)) : u.Reaches landed := by
  induction sets generalizing session with
  | nil =>
      cases lands
      exact reached
  | cons set rest ih =>
      simp only [setRegs] at lands
      split at lands
      · next cursor state written =>
          exact ih (.step (.setReg set.1 set.2) reached trivial ⟨.inl ⟨(), congrArg Prod.fst written⟩,
            congrArg (fun result => { session with cursor := result.2.1, state := result.2.2 })
              written.symm⟩) lands
      · cases lands
      · cases lands

/-- A jump resumes the innermost frame that matches, with what has been set. -/
theorem jump_resumed_iff {rounds : ℕ} (laws : port.Laws u)
    (few : ∀ arg ∈ args, arg.1 < port.numEhRegs) :
    search u port env spaces (setRegs u (port.regs args cont)) rounds 0 start =
        .ok (.resumed landed) ↔
      ∃ depth < rounds, ∃ found, Finds u port env spaces start depth found ∧
        port.Enters u args cont found landed := by
  simp only [search_resumed_iff, setRegs_resumed_iff laws few]

theorem jump_continuesAt {rounds : ℕ} (laws : port.Laws u) (regular : u.Regular)
    (few : ∀ arg ∈ args, arg.1 < port.numEhRegs) (nodup : (args.map Prod.fst).Nodup)
    (reached : u.Reaches start) (inProcess : InProcess u spaces start.state)
    (lands : search u port env spaces (setRegs u (port.regs args cont)) rounds 0 start =
      .ok (.resumed landed)) :
    u.Reaches landed ∧ (u.Resumable landed → port.ContinuesAt u args cont landed) := by
  obtain ⟨depth, -, found, finds, landed⟩ := search_resumed_iff.mp lands
  have reached := setRegs_reached (finds.climbs.reached inProcess reached).1 landed
  exact ⟨reached, fun resumable => ((setRegs_resumed_iff laws few).mp landed).continuesAt laws
    regular few nodup reached.recorded resumable⟩

end Landing

end Libunwind.Setjmp
