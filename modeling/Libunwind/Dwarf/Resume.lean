import Libunwind.Library.CopyOut
import Libunwind.Library.Run
import Libunwind.Dwarf.Step

/-! # Resuming a frame

`unw_resume` makes a cursor's registers those of the process: one register after
another is read through the cursor and written to the process, from which the
next one is read. What it installs is compared here with what `unw_get_reg`
showed before, over sessions of any calls that change a cursor.
-/

namespace Libunwind.Dwarf

open CopyOut

variable {σ : Type} {n w : Nat} {τ : Type}

/-! ## A process -/

/-- A process that the accessors can write: the address space that they show of each
    of its states, and what `access_reg` and `access_mem` make of a state. Its
    registers may lie in its memory, as those of a local context do. -/
structure Process (σ : Type) (w : Nat) where
  space : σ → AddrSpace w
  setReg : Int → Word w → σ → σ
  setMem : Word w → Word w → σ → Except UnwError σ
  setReg_same {r : Int} {old v : Word w} {s : σ} :
    (space s).accessReg r = .ok old → (space (setReg r v s)).accessReg r = .ok v
  setReg_other {q r : Int} {v : Word w} {s : σ} :
    q ≠ r → (space (setReg r v s)).accessReg q = (space s).accessReg q
  setReg_missing {r : Int} {v : Word w} {s : σ} {code : UnwError} :
    (space s).accessReg r = .error code → setReg r v s = s
  setReg_mem {r : Int} {v addr : Word w} {s : σ} :
    ((space (setReg r v s)).accessMem addr).isOk = ((space s).accessMem addr).isOk
  setReg_fpreg {q r : Int} {v : Word w} {s : σ} :
    ((space (setReg r v s)).accessFpreg q).isOk = ((space s).accessFpreg q).isOk

/-- What a register holds, if the process has it. -/
def Process.reg (p : Process σ w) (r : Int) (s : σ) : Option (Word w) :=
  ((p.space s).accessReg r).toOption

theorem toOption_eq_some {ε α : Type} {r : Except ε α} {a : α} :
    r.toOption = some a ↔ r = .ok a := by
  cases r with
  | error e => simp [Except.toOption]
  | ok b => simp [Except.toOption]

theorem isSome_toOption {ε α : Type} (r : Except ε α) : r.toOption.isSome = r.isOk := by
  cases r with
  | error e => rfl
  | ok b => rfl

def Process.machine (p : Process σ w) : Machine Int σ (Word w) where
  reg := p.reg
  set := p.setReg
  set_same held := toOption_eq_some.mpr (p.setReg_same (toOption_eq_some.mp held))
  set_other different := congrArg Except.toOption (p.setReg_other different)
  set_missing {r v s} missing := by
    unfold Process.reg at missing
    cases access : (p.space s).accessReg r with
    | ok old =>
        rw [access] at missing
        cases missing
    | error code => exact p.setReg_missing access

/-- `dwarf_put`. -/
def Loc.put (localOnly : Bool) (p : Process σ w) (loc : Loc w) (val : Word w) (s : σ) :
    Result Unit × σ :=
  match loc.type with
  | .val | .fpreg => (.error .undefined, s)
  | .reg =>
      if loc.isNull localOnly then (.error (.err .badreg), s)
      else
        let r := (loc.val.setWidth 32).toInt
        match (p.space s).accessReg r with
        | .ok _ => (.ok (), p.setReg r val s)
        | .error code => (.error (.err code), s)
  | .mem =>
      if loc.isNull localOnly then (.error (.err .badreg), s)
      else
        match p.setMem loc.val val s with
        | .ok s => (.ok (), s)
        | .error code => (.error (.err code), s)

/-- A process that is traced: its registers are no part of its memory. -/
structure Traced (w : Nat) where
  regs : Int → Except UnwError (Word w)
  mem : Word w → Except UnwError (Word w)

/-- The processes that are traced, with the code that they share. -/
def tracedProcess (code : AddrSpace w) : Process (Traced w) w where
  space s := { code with accessReg := s.regs, accessMem := s.mem }
  setReg r v s :=
    match s.regs r with
    | .ok _ => { s with regs := Function.update s.regs r (.ok v) }
    | .error _ => s
  setMem addr v s :=
    match s.mem addr with
    | .ok _ => .ok { s with mem := Function.update s.mem addr (.ok v) }
    | .error code => .error code
  setReg_same {r old v s} held := by
    dsimp only at held ⊢
    rw [held]
    exact Function.update_self r _ _
  setReg_other {q r v s} different := by
    dsimp only
    cases s.regs r with
    | error code => rfl
    | ok old => exact Function.update_of_ne different _ _
  setReg_missing {r v s code} missing := by
    dsimp only at missing ⊢
    rw [missing]
  setReg_mem {r v addr s} := by
    dsimp only
    cases s.regs r <;> rfl
  setReg_fpreg {q r v s} := rfl

/-- Whether a location can be read does not depend on the registers. -/
theorem Loc.get_setReg (p : Process σ w) (localOnly : Bool) (loc : Loc w) (r : Int) (v : Word w)
    (s : σ) :
    (loc.get localOnly (p.space (p.setReg r v s))).toOption.isSome =
      (loc.get localOnly (p.space s)).toOption.isSome := by
  have answered {a b : Except UnwError (Word w)} (same : a.isOk = b.isOk) :
      (ofAccess a).toOption.isSome = (ofAccess b).toOption.isSome := by
    cases a <;> cases b <;> first | rfl | cases same
  unfold Loc.get
  split
  · rfl
  · cases loc.type with
    | mem => exact answered p.setReg_mem
    | fpreg => exact answered p.setReg_fpreg
    | val => rfl
    | reg =>
        apply answered
        have kept (q : Int) :
            (p.machine.reg q (copyReg p.machine (fun _ _ => some v) s r)).isSome =
              (p.machine.reg q s).isSome := isSome_reg_copyReg
        rw [← isSome_toOption, ← isSome_toOption]
        exact kept _

/-! ## The size of the outgoing arguments -/

/-- `dwarf_make_proc_info`: the size that it finds for the frame, and the cursor. -/
def makeProcInfo (t : Target n w τ) (tables : UnwindTables n w) (c : Cursor n w τ) :
    Result (Word w) × Cursor n w τ :=
  let (fetched, fetchedCursor) := fetchProcInfo t tables c
  let made : Result (Word w) := do
    fetched
    let sr ← createStateRecordFor (tables.context t.cfi) tables.budget fetchedCursor.pi c.ip
      c.usePrevInstr
    pure sr.argsSize
  (made, putUnwindInfo fetchedCursor)

/-- The size that the frame's own instructions give for its `ip`; there is nothing to
    pop in a frame without any. -/
def outgoingArgs (t : Target n w τ) (tables : UnwindTables n w) (c : Cursor n w τ) : Word w :=
  match (makeProcInfo t tables c).1 with
  | .ok size => size
  | .error _ => 0

/-! ## Sessions -/

/-- A port of libunwind, and the process that it unwinds. Its tables may lie in the
    memory of the process. -/
structure Unwinder (σ : Type) (n w : Nat) (τ : Type) where
  target : Target n w τ
  process : Process σ w
  tables : σ → UnwindTables n w
  /-- `common_init`, and the cursors that it can leave. -/
  commonInit : AddrSpace w → Cursor n w τ → Prop
  /-- `unw_step`. -/
  step : Cursor n w τ → StepSpace n w → Result Bool × Cursor n w τ
  /-- `unw_set_reg`. -/
  setReg : Cursor n w τ → σ → Int → Word w → Result Unit × Cursor n w τ × σ
  /-- The registers that `establish_machine_state` copies, in this order. -/
  registers : List Int
  /-- The one that it adds `args_size` to. -/
  argsReg : Option Int

/-- A cursor with its `args_size`, and the state of the process. `asked` is not in
    the source: it is where `dwarf_make_proc_info` has last succeeded. -/
structure Session (σ : Type) (n w : Nat) (τ : Type) where
  cursor : Cursor n w τ
  argsSize : Word w := 0
  state : σ
  asked : Option (Cursor n w τ × σ) := none

/-- A call that may change a cursor. -/
inductive Request (n w : Nat) where
  | step (space : StepSpace n w)
  | getProcInfo
  | setReg (reg : Int) (val : Word w)

namespace Unwinder

variable (u : Unwinder σ n w τ) (session : Session σ n w τ)

/-- What `unw_get_proc_info` leaves. -/
def afterProcInfo : Session σ n w τ :=
  match makeProcInfo u.target (u.tables session.state) session.cursor with
  | (.ok size, cursor) =>
      { session with cursor, argsSize := size, asked := some (session.cursor, session.state) }
  | (.error _, cursor) => { session with cursor }

/-- A call that comes back, and the session after it. -/
def Performs : Request n w → Session σ n w τ → Prop
  | .step space, next =>
      space.as = u.process.space session.state ∧ space.tables = u.tables session.state ∧
        Concludes (u.step session.cursor space).1 ∧
        next = { session with cursor := (u.step session.cursor space).2 }
  | .getProcInfo, next =>
      Concludes (makeProcInfo u.target (u.tables session.state) session.cursor).1 ∧
        next = u.afterProcInfo session
  | .setReg reg val, next =>
      Concludes (u.setReg session.cursor session.state reg val).1 ∧
        next = { session with
          cursor := (u.setReg session.cursor session.state reg val).2.1
          state := (u.setReg session.cursor session.state reg val).2.2 }

/-- The sessions that start from `unw_init_local` or `unw_init_remote`. -/
def Reaches : Session σ n w τ → Prop :=
  Run (fun s => u.commonInit (u.process.space s.state) s.cursor ∧ s.argsSize = 0 ∧ s.asked = none)
    u.Performs (fun _ _ => True)

/-- The size that the cursor was last told, for whichever frame. -/
def recordedArgs : Word w :=
  match session.asked with
  | some (c, s) => outgoingArgs u.target (u.tables s) c
  | none => 0

/-- `args_size` is that size. -/
def Recorded : Prop := session.argsSize = u.recordedArgs session

variable {u session}

theorem afterProcInfo_recorded (recorded : u.Recorded session) :
    u.Recorded (u.afterProcInfo session) := by
  unfold afterProcInfo
  rcases made : makeProcInfo u.target (u.tables session.state) session.cursor with ⟨fault | size, c⟩
  · exact recorded
  · simp [Recorded, recordedArgs, outgoingArgs, made]

/-- Nothing but `unw_get_proc_info` touches `args_size`. -/
theorem Reaches.recorded (reached : u.Reaches session) : u.Recorded session := by
  refine reached.invariant ?_ ?_
  · rintro s ⟨-, zero, unasked⟩
    rw [Recorded, zero, recordedArgs, unasked]
  · intro s request next recorded _ performed
    cases request with
    | step space =>
        obtain ⟨-, -, -, rfl⟩ := performed
        exact recorded
    | getProcInfo =>
        obtain ⟨-, rfl⟩ := performed
        exact afterProcInfo_recorded recorded
    | setReg reg val =>
        obtain ⟨-, rfl⟩ := performed
        exact recorded

/-! ## Establishing the machine state -/

variable (u)

/-- What `tdep_access_reg` reads for a register. -/
def read (c : Cursor n w τ) (r : Int) (s : σ) : Option (Word w) :=
  (u.target.accessReg (u.process.space s) c r).toOption

/-- `establish_machine_state`. -/
def establishMachineState (c : Cursor n w τ) (argsSize : Word w) (s : σ) : σ :=
  let s := copyOut u.process.machine (u.read c) u.registers s
  match u.argsReg with
  | none => s
  | some r =>
      if argsSize = 0 then s
      else
        match u.read c r s with
        | some val => u.process.setReg r (val + argsSize) s
        | none => s

/-- The call shows register `r` to be `val`, and the process has it. -/
structure Shows (session : Session σ n w τ) (r : Int) (val : Word w) : Prop where
  shown : u.target.getReg (u.process.space session.state) session.cursor r = .ok val
  present : (u.process.reg r session.state).isSome

/-- The registers that `unw_get_reg` showed are those of the process, the stack
    pointer with the outgoing arguments of the frame popped. -/
def Installs (session : Session σ n w τ) : Prop :=
  ∀ r ∈ u.registers, ∀ val, u.Shows session r val →
    u.process.reg r (u.establishMachineState session.cursor session.argsSize session.state) =
      some (if u.argsReg = some r then
        val + outgoingArgs u.target (u.tables session.state) session.cursor else val)

/-- What a register would be given if nothing interfered: the value that is shown for
    it, if its location can be read at all. -/
def due (session : Session σ n w τ) (r : Int) (s : σ) : Option (Word w) :=
  if u.argsReg = some r then u.read session.cursor r s
  else if (u.read session.cursor r session.state).isSome then
    (u.target.getReg (u.process.space session.state) session.cursor r).toOption
  else none

/-- The process with the given registers set to what the cursor shows. -/
def stage (session : Session σ n w τ) (done : List Int) : σ :=
  copyOut u.process.machine (u.due session) done session.state

/-- What a resumed session must be like. -/
structure Resumable (session : Session σ n w τ) : Prop where
  /-- A location still leads to the value of its register when the registers before it
      have theirs; one that leads nowhere belongs to a register that needs no change. -/
  undisturbed : ∀ before r after val, u.registers = before ++ r :: after → u.argsReg ≠ some r →
    u.Shows session r val →
      (if (u.read session.cursor r session.state).isSome then
        u.read session.cursor r (u.stage session before)
      else u.process.reg r session.state) = some val
  /-- The stack pointer's location, when it is last read, and the size that was last
      found, for whichever frame, make up the stack pointer and the size of this one. -/
  stackPointer : ∀ before r after val, u.registers = before ++ r :: after → u.argsReg = some r →
    u.Shows session r val →
      let done := if u.recordedArgs session = 0 then before else u.registers
      (u.read session.cursor r (u.stage session done)).map (· + u.recordedArgs session) =
        some (val + outgoingArgs u.target (u.tables session.state) session.cursor)

/-- What the two ports have in common. -/
structure Regular : Prop where
  nodup : u.registers.Nodup
  steady : ∀ c, ∀ r ∈ u.registers, Steady u.process.machine (u.read c) r
  argsReg : u.argsReg ≠ some u.target.regIp

variable {u} {c : Cursor n w τ} {r : Int} {val : Word w} {s : σ} {before after : List Int}

/-- Every register but the instruction pointer is shown as it is read. -/
theorem read_of_shown (other : r ≠ u.target.regIp)
    (shown : u.target.getReg (u.process.space s) c r = .ok val) : u.read c r s = some val := by
  rw [Target.getReg, if_neg other] at shown
  exact toOption_eq_some.mpr shown

/-- What can be read is shown. -/
theorem getReg_of_read (read : (u.read c r s).isSome) :
    ∃ val, u.target.getReg (u.process.space s) c r = .ok val := by
  unfold Target.getReg
  split
  next => exact ⟨_, rfl⟩
  next =>
    obtain ⟨val, read⟩ := Option.isSome_iff_exists.mp read
    exact ⟨val, toOption_eq_some.mp read⟩

theorem due_argsReg (isArgs : u.argsReg = some r) : u.due session r s = u.read session.cursor r s := by
  rw [due, if_pos isArgs]

theorem due_readable (other : u.argsReg ≠ some r)
    (readable : (u.read session.cursor r session.state).isSome)
    (shown : u.target.getReg (u.process.space session.state) session.cursor r = .ok val) :
    u.due session r s = some val := by
  rw [due, if_neg other, if_pos readable]
  exact toOption_eq_some.mpr shown

theorem due_unreadable (other : u.argsReg ≠ some r)
    (unreadable : (u.read session.cursor r session.state).isSome = false) :
    u.due session r s = none := by
  rw [due, if_neg other, unreadable]
  rfl

/-- The loop leaves what the stages say, if each register is read as it was shown. -/
theorem copyOut_eq_stage (regular : u.Regular)
    (agree : ∀ before r after val, u.registers = before ++ r :: after → u.argsReg ≠ some r →
      u.Shows session r val → (u.read session.cursor r session.state).isSome →
        copyOut u.process.machine (u.read session.cursor) before session.state =
            u.stage session before →
          u.read session.cursor r (u.stage session before) = some val)
    {done rest : List Int} (split : u.registers = done ++ rest) :
    copyOut u.process.machine (u.read session.cursor) done session.state = u.stage session done := by
  apply copyOut_congr
  intro before r after doneSplit same held
  have split : u.registers = before ++ r :: (after ++ rest) := by
    rw [split, doneSplit, List.append_assoc, List.cons_append]
  by_cases isArgs : u.argsReg = some r
  · exact (due_argsReg isArgs).symm
  · cases readable : (u.read session.cursor r session.state).isSome with
    | true =>
        obtain ⟨val, shown⟩ := getReg_of_read readable
        rw [due_readable isArgs readable shown]
        exact agree before r _ val split isArgs ⟨shown, held⟩ readable same
    | false =>
        have steady := regular.steady session.cursor r (by rw [split]; simp)
        rw [due_unreadable isArgs readable, ← Option.not_isSome_iff_eq_none, steady.copyOut,
          readable]
        exact Bool.false_ne_true

/-- Only the stack pointer is touched after the loop. -/
theorem reg_establish_other (other : u.argsReg ≠ some r) {argsSize : Word w} :
    u.process.reg r (u.establishMachineState c argsSize s) =
      u.process.reg r (copyOut u.process.machine (u.read c) u.registers s) := by
  unfold establishMachineState
  cases isArgs : u.argsReg with
  | none => rfl
  | some q =>
      have different : r ≠ q := by
        rintro rfl
        exact other isArgs
      dsimp only
      split
      · rfl
      · split
        · exact u.process.machine.set_other different
        · rfl

theorem not_mem_of_split (regular : u.Regular) (split : u.registers = before ++ r :: after) :
    r ∉ before ∧ r ∉ after := by
  have nodup := regular.nodup
  rw [split] at nodup
  exact ⟨fun early => List.disjoint_of_nodup_append nodup early List.mem_cons_self,
    (List.nodup_cons.mp (List.Nodup.of_append_right nodup)).1⟩

/-- What the stack pointer ends up with. -/
theorem reg_establish_argsReg (regular : u.Regular) (split : u.registers = before ++ r :: after)
    (isArgs : u.argsReg = some r) (held : (u.process.reg r s).isSome)
    (readable : (u.read c r s).isSome) (argsSize : Word w) :
    u.process.reg r (u.establishMachineState c argsSize s) =
      (u.read c r (copyOut u.process.machine (u.read c)
        (if argsSize = 0 then before else u.registers) s)).map (· + argsSize) := by
  have steady := regular.steady c r (by rw [split]; simp)
  have later (done : List Int) :
      ∃ val, u.read c r (copyOut u.process.machine (u.read c) done s) = some val :=
    Option.isSome_iff_exists.mp (steady.copyOut.trans readable)
  unfold establishMachineState
  rw [isArgs]
  dsimp only
  split
  next zero =>
    obtain ⟨val, due⟩ := later before
    have written := reg_copyOut_at split (not_mem_of_split regular split).2 held due
    rw [due, zero, Option.map_some, add_zero]
    exact written
  next =>
    obtain ⟨val, due⟩ := later u.registers
    rw [due]
    have present : (u.process.reg r
        (copyOut u.process.machine (u.read c) u.registers s)).isSome = true :=
      (isSome_reg_copyOut (m := u.process.machine)).trans held
    obtain ⟨old, present⟩ := Option.isSome_iff_exists.mp present
    exact u.process.machine.set_same present

/-- What any other register ends up with. -/
theorem reg_establish_at (regular : u.Regular) (split : u.registers = before ++ r :: after)
    (other : u.argsReg ≠ some r) (held : (u.process.reg r s).isSome) (argsSize : Word w) :
    u.process.reg r (u.establishMachineState c argsSize s) =
      if (u.read c r s).isSome then
        u.read c r (copyOut u.process.machine (u.read c) before s)
      else u.process.reg r s := by
  have steady := regular.steady c r (by rw [split]; simp)
  rw [reg_establish_other other]
  cases readable : (u.read c r s).isSome with
  | true =>
      have later : (u.read c r (copyOut u.process.machine (u.read c) before s)).isSome = true :=
        steady.copyOut.trans readable
      obtain ⟨val, due⟩ := Option.isSome_iff_exists.mp later
      rw [due]
      exact reg_copyOut_at split (not_mem_of_split regular split).2 held due
  | false =>
      rw [if_neg Bool.false_ne_true]
      refine reg_copyOut_unread (m := u.process.machine) split (not_mem_of_split regular split).1
        (not_mem_of_split regular split).2 ?_
      rw [← Option.not_isSome_iff_eq_none, steady.copyOut, readable]
      exact Bool.false_ne_true

/-- `establish_machine_state` installs what was shown exactly when the session is
    resumable. -/
theorem installs_iff (regular : u.Regular) (recorded : u.Recorded session) :
    u.Installs session ↔ u.Resumable session := by
  constructor
  · intro installs
    have stages {done rest : List Int} (split : u.registers = done ++ rest) :
        copyOut u.process.machine (u.read session.cursor) done session.state =
          u.stage session done :=
      copyOut_eq_stage regular (by
        intro before r after val split other shows readable same
        have final := installs r (by rw [split]; simp) val shows
        rw [reg_establish_at regular split other shows.present, if_pos readable, if_neg other, same]
          at final
        exact final) split
    refine ⟨?_, ?_⟩
    · intro before r after val split other shows
      have final := installs r (by rw [split]; simp) val shows
      rw [reg_establish_at regular split other shows.present, if_neg other, stages split] at final
      exact final
    · intro before r after val split isArgs shows
      have final := installs r (by rw [split]; simp) val shows
      have readable : (u.read session.cursor r session.state).isSome := by
        rw [read_of_shown (fun isIp => regular.argsReg (isIp ▸ isArgs)) shows.shown]
        rfl
      rw [reg_establish_argsReg regular split isArgs shows.present readable, if_pos isArgs, recorded]
        at final
      dsimp only
      split at final
      next zero =>
        rw [if_pos zero, ← stages split]
        exact final
      next notZero =>
        rw [if_neg notZero, ← stages (List.append_nil _).symm]
        exact final
  · intro resumable r member val shows
    have stages {done rest : List Int} (split : u.registers = done ++ rest) :
        copyOut u.process.machine (u.read session.cursor) done session.state =
          u.stage session done :=
      copyOut_eq_stage regular (by
        intro before r after val split other shows readable _
        have kept := resumable.undisturbed before r after val split other shows
        rwa [if_pos readable] at kept) split
    obtain ⟨before, after, split⟩ := List.append_of_mem member
    by_cases isArgs : u.argsReg = some r
    · have readable : (u.read session.cursor r session.state).isSome := by
        rw [read_of_shown (fun isIp => regular.argsReg (isIp ▸ isArgs)) shows.shown]
        rfl
      have popped := resumable.stackPointer before r after val split isArgs shows
      rw [reg_establish_argsReg regular split isArgs shows.present readable, if_pos isArgs, recorded,
        ← popped]
      split
      next => rw [stages split]
      next => rw [stages (List.append_nil _).symm]
    · have kept := resumable.undisturbed before r after val split isArgs shows
      rw [reg_establish_at regular split isArgs shows.present, if_neg isArgs, stages split]
      exact kept

/-- At a later stage a register holds what was shown for it. -/
theorem reg_stage (regular : u.Regular) {done rest : List Int} (split : u.registers = done ++ rest)
    (member : r ∈ done) (other : u.argsReg ≠ some r) (shows : u.Shows session r val)
    (readable : (u.read session.cursor r session.state).isSome) :
    u.process.reg r (u.stage session done) = some val := by
  obtain ⟨before, after, doneSplit⟩ := List.append_of_mem member
  have split : u.registers = before ++ r :: (after ++ rest) := by
    rw [split, doneSplit, List.append_assoc, List.cons_append]
  have once : r ∉ after := fun late =>
    (not_mem_of_split regular split).2 (List.mem_append_left rest late)
  have present : (u.process.machine.reg r session.state).isSome := shows.present
  exact reg_copyOut_at doneSplit once present (due_readable other readable shows.shown)

/-- A register that is read from one that is installed before it, with another value,
    is not installed. -/
theorem not_installs_of_savedIn (regular : u.Regular) (recorded : u.Recorded session) {q : Int}
    {qVal : Word w} (split : u.registers = before ++ r :: after) (earlier : q ∈ before)
    (notArgs : u.argsReg ≠ some r) (notArgs' : u.argsReg ≠ some q)
    (savedIn : ∀ s, u.read session.cursor r s = u.process.reg q s)
    (shows : u.Shows session r val) (qShows : u.Shows session q qVal)
    (qReadable : (u.read session.cursor q session.state).isSome) (differ : qVal ≠ val) :
    ¬ u.Installs session := by
  intro installs
  have resumable := (installs_iff regular recorded).mp installs
  have kept := resumable.undisturbed before r after val split notArgs shows
  have readable : (u.read session.cursor r session.state).isSome := by
    rw [savedIn]
    exact qShows.present
  rw [if_pos readable, savedIn, reg_stage regular split earlier notArgs' qShows qReadable] at kept
  exact differ (Option.some.inj kept)

end Unwinder

end Libunwind.Dwarf
