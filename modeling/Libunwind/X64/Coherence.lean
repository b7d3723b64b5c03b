import Libunwind.Library.Run
import Libunwind.X64.Step

/-! # The instruction pointer and its location

A cursor has the instruction pointer twice: as a value, by which the next step
looks its frame up, and through the location of `rip`, which the register
accessors and `unw_resume` use. A run keeps the two together as long as each
step can read the return address that it finds.
-/

namespace Libunwind.X86_64

open Dwarf

variable {host : Host} {as : AddrSpace 64} {c c' : X86Cursor} {space : StepSpace 17 64}

/-- The location of `rip` leads to the instruction pointer. -/
def Coherent (host : Host) (as : AddrSpace 64) (c : X86Cursor) : Prop :=
  (c.loc rip).get host.localOnly as = .ok c.ip

/-- The end of the call chain. -/
def Ended (host : Host) (c : X86Cursor) : Prop :=
  (c.loc rip).isNull host.localOnly = true ∧ c.ip = 0

/-- Either is what a step that finds no caller leaves. -/
def Settled (host : Host) (as : AddrSpace 64) (c : X86Cursor) : Prop :=
  Coherent host as c ∨ Ended host c

theorem Settled.sameFrame (settled : Settled host as c) (same : c.SameFrame c') :
    Settled host as c' := by
  simp only [Settled, Coherent, Ended, same.loc, same.ip]
  exact settled

/-! ## The alternatives -/

/-- The word that the fallback takes for the return address can be read; the hook
    for the vsyscall page takes none, and leaves `ip` alone. -/
structure ReturnReadable (host : Host) (as : AddrSpace 64) (c : X86Cursor) : Prop where
  hook : host.isVsyscall c = true → (memLoc c.cfa).get host.localOnly as = .ok c.ip
  plt : host.isVsyscall c = false → c.tdep.rtSigframe = false → isPltEntry as c = true →
    ∃ ip, (memLoc c.cfa).get host.localOnly as = .ok ip
  record : host.isVsyscall c = false → c.tdep.rtSigframe = false → isPltEntry as c = false →
    ∀ curRbp newRbp, HasFrameRecord host as c curRbp newRbp →
      ∃ ip, (memLoc (curRbp + 8)).get host.localOnly as = .ok ip

theorem getInto_of_ok {localOnly : Bool} {loc : Loc 64} {val old : Word 64}
    (read : loc.get localOnly as = .ok val) : loc.getInto localOnly as old = val := by
  rw [Loc.getInto, read]

theorem osStep_none : osStep host c = none ↔ host.isVsyscall c = false := by
  unfold osStep
  split
  next inside => simp [inside]
  next outside => simp [outside]

theorem osStep_coherent (readable : ReturnReadable host as c) (stepped : osStep host c = some c') :
    Coherent host as c' := by
  unfold osStep at stepped
  split at stepped
  next inside =>
    cases stepped
    rw [Coherent, vsyscallStep_rip]
    exact readable.hook inside
  next => cases stepped

theorem pltStep_coherent {ip : Word 64} (read : (memLoc c.cfa).get host.localOnly as = .ok ip) :
    Coherent host as (pltStep host as c) := by
  rw [Coherent, pltStep_rip, read, pltStep]
  simp only [getInto_of_ok read]

theorem ripFixupStep_coherent {sp newIp : Word 64} (notNull : newIp ≠ 0) :
    Coherent host as (ripFixupStep host as c sp newIp) := by
  have read : (⟨newIp, .val⟩ : Loc 64).get host.localOnly as = .ok newIp := by
    rw [Loc.get, Loc.isNull, beq_eq_false_iff_ne.mpr notNull]
    rfl
  rw [Coherent, ripFixupStep_rip, read, ripFixupStep]
  simp only [getInto_of_ok read]

theorem rbpWalkStep_coherent {curRbp newRbp ip : Word 64}
    (read : (memLoc (curRbp + 8)).get host.localOnly as = .ok ip) :
    Coherent host as (rbpWalkStep host as c curRbp newRbp) := by
  rw [Coherent, rbpWalkStep_rip, read, rbpWalkStep]
  simp only [getInto_of_ok read]

/-- What the fallback leaves. -/
theorem FellBack.settled {result : Result Bool} (fell : FellBack host as c result c')
    (readable : ReturnReadable host as c) (settled : Settled host as c) :
    Settled host as c' ∧ (result = .ok true → Coherent host as c') := by
  have of_coherent {c' : X86Cursor} (coherent : Coherent host as c') :
      Settled host as c' ∧ (result = .ok true → Coherent host as c') :=
    ⟨.inl coherent, fun _ => coherent⟩
  cases fell with
  | hook stepped => exact of_coherent (osStep_coherent readable stepped)
  | signal => exact ⟨settled, by rintro ⟨⟩⟩
  | plt outside plain plt =>
      obtain ⟨ip, read⟩ := readable.plt (osStep_none.mp outside) plain plt
      exact of_coherent (pltStep_coherent read)
  | walked outside plain other walked =>
      cases walked with
      | kept => exact ⟨settled, by rintro ⟨⟩⟩
      | ended null zero =>
          refine ⟨.inr ⟨?_, zero⟩, by rintro ⟨⟩⟩
          rw [null]
          exact Loc.isNull_nullLoc _
      | call called => exact of_coherent (ripFixupStep_coherent called.notNull)
      | record found =>
          obtain ⟨ip, read⟩ := readable.record (osStep_none.mp outside) plain other _ _ found
          exact of_coherent (rbpWalkStep_coherent read)

/-! ## A step -/

/-- What a step has to find: a register state returns through `rip`, to an
    address that can be read, and so does the fallback. -/
structure ReturnsByRip (host : Host) (c : X86Cursor) (space : StepSpace 17 64) : Prop where
  tables : ∀ rs ra cfa newLoc,
    (space.find host.target (clearSigcontext c)).result = .ok rs →
    Staged host.target space.as space.budget (space.find host.target (clearSigcontext c)).cursor rs
      ra cfa newLoc →
    ra = rip ∧ ∃ ip, returnAddress host.target space.as
      { (space.find host.target (clearSigcontext c)).cursor with loc := newLoc, cfa } rs rip = .ok ip
  fallback : ∀ c₁, dwarfStep host.target space (clearSigcontext c) = (.error (.err .noinfo), c₁) →
    ReturnReadable host space.as c₁

/-- The return address is what its location leads to, or there is none. -/
theorem returnAddress_cases {rs : RegState 17 64} {ra : Fin 17} {ip : Word 64}
    (read : returnAddress host.target as c rs ra = .ok ip) :
    ((c.loc ra).isNull host.localOnly = true ∧ ip = 0) ∨
      (c.loc ra).get host.localOnly as = .ok ip := by
  unfold returnAddress at read
  split at read
  next null =>
    cases read
    exact .inl ⟨null, rfl⟩
  next =>
    obtain ⟨ip', got, same⟩ := bind_eq_ok.mp read
    cases same
    exact .inr got

theorem AppliedBy.settled {rs : RegState 17 64} {budget : Nat} {result : Result Bool}
    (applied : AppliedBy host.target as budget c rs result c')
    (readable : ∀ ra cfa newLoc, Staged host.target as budget c rs ra cfa newLoc →
      ra = rip ∧
        ∃ ip, returnAddress host.target as { c with loc := newLoc, cfa } rs rip = .ok ip)
    (settled : Settled host as c) :
    Settled host as c' ∧ (result = .ok true → Coherent host as c') := by
  cases applied with
  | refused => exact ⟨settled, by rintro ⟨⟩⟩
  | unread staged failed =>
      obtain ⟨rfl, ip, read⟩ := readable _ _ _ staged
      rw [failed] at read
      cases read
  | stuck staged read =>
      obtain ⟨rfl, -⟩ := readable _ _ _ staged
      refine ⟨?_, by rintro ⟨⟩⟩
      obtain ended | coherent := returnAddress_cases read
      · exact .inr ended
      · exact .inl coherent
  | moved staged read =>
      obtain ⟨rfl, -⟩ := readable _ _ _ staged
      obtain ended | coherent := returnAddress_cases read
      · refine ⟨.inr ended, fun more => ?_⟩
        simp [ended.2] at more
      · exact ⟨.inl coherent, fun _ => coherent⟩

/-- What `dwarf_step` leaves. -/
theorem dwarfStep_settled {result : Result Bool} (keeps : ReturnsByRip host c space)
    (stepped : SteppedBy host.target space (clearSigcontext c) result c')
    (settled : Settled host space.as c) :
    Settled host space.as c' ∧ (result = .ok true → Coherent host space.as c') := by
  have settled : Settled host space.as (clearSigcontext c) := settled
  cases stepped with
  | notFound failed =>
      have same := space.find_sameFrame host.target (clearSigcontext c) (.inr ⟨_, failed⟩)
      exact ⟨settled.sameFrame same, by rintro ⟨⟩⟩
  | applied found applied =>
      have same := space.find_sameFrame host.target (clearSigcontext c) (.inl ⟨_, found⟩)
      exact AppliedBy.settled applied (fun ra cfa newLoc => keeps.tables _ ra cfa newLoc found)
        (settled.sameFrame same)

/-- A step that comes back leaves a settled cursor, and a coherent one if it has
    found a caller. -/
theorem unwStep_settled (keeps : ReturnsByRip host c space)
    (concludes : Concludes (unwStep host c space).1) (settled : Settled host space.as c) :
    Settled host space.as (unwStep host c space).2 ∧
      ((unwStep host c space).1 = .ok true → Coherent host space.as (unwStep host c space).2) := by
  obtain ⟨stepped, -⟩ | ⟨c₁, result, next, noinfo, fell, same⟩ := unwStep_cases host c space
  · have steppedBy := dwarfStep_steppedBy host.target space (clearSigcontext c)
    rw [stepped] at steppedBy
    exact dwarfStep_settled keeps (steppedBy concludes) settled
  · have steppedBy := dwarfStep_steppedBy host.target space (clearSigcontext c)
    rw [noinfo] at steppedBy
    obtain ⟨settled₁, -⟩ := dwarfStep_settled keeps (steppedBy (.inr ⟨_, rfl⟩)) settled
    obtain ⟨settledNext, coherent⟩ := fell.settled (keeps.fallback c₁ noinfo) settled₁
    rw [same]
    refine ⟨settledNext, fun more => coherent ?_⟩
    cases result with
    | error fault => cases more
    | ok more' =>
        have both : (more' && !(next.ip == c₁.ip && next.cfa == c₁.cfa)) = true := Except.ok.inj more
        rw [(Bool.and_eq_true_iff.mp both).1]

/-! ## Runs -/

/-- The cursors that runs of `unw_step` over one memory lead to, from one that
    `unw_init_local` or `unw_init_remote` has set up. The tables and the cache may
    change from step to step. -/
def CursorRun (host : Host) (as : AddrSpace 64)
    (allowed : X86Cursor → StepSpace 17 64 → Prop) : X86Cursor → Prop :=
  Run (fun c => ∃ usePrevInstr frameInfo, host.commonInit as usePrevInstr frameInfo = .ok c)
    (fun c space c' => Concludes (unwStep host c space).1 ∧ (unwStep host c space).2 = c')
    (fun c space => space.as = as ∧ allowed c space)

theorem commonInit_coherent {usePrevInstr : Bool} {frameInfo : Frame}
    (initial : host.commonInit as usePrevInstr frameInfo = .ok c) : Coherent host as c := by
  obtain ⟨ip, read, rest⟩ := bind_eq_ok.mp initial
  obtain ⟨cfa, -, same⟩ := bind_eq_ok.mp rest
  cases same
  exact read

theorem run_settled (run : CursorRun host as (ReturnsByRip host) c) : Settled host as c := by
  refine run.invariant ?_ ?_
  · rintro c ⟨usePrevInstr, frameInfo, initial⟩
    exact .inl (commonInit_coherent initial)
  · rintro c space c' settled ⟨rfl, keeps⟩ ⟨concludes, rfl⟩
    exact (unwStep_settled keeps concludes settled).1

/-- In a run whose steps all return by `rip`, a step that finds a caller leaves
    `ip` equal to what the location of `rip` leads to; one that ends the chain
    does so too, or leaves neither. -/
theorem run_coherent {more : Bool} (run : CursorRun host as (ReturnsByRip host) c)
    (sameMemory : space.as = as) (keeps : ReturnsByRip host c space)
    (stepped : unwStep host c space = (.ok more, c')) :
    if more then Coherent host as c' else Coherent host as c' ∨ Ended host c' := by
  subst sameMemory
  have concludes : Concludes (unwStep host c space).1 := .inl ⟨more, by rw [stepped]⟩
  obtain ⟨settled, coherent⟩ := unwStep_settled keeps concludes (run_settled run)
  rw [stepped] at settled coherent
  cases more with
  | true => exact coherent rfl
  | false => exact settled

/-- A process that is stopped at `ip`, with the return address `0x401000` on its
    stack. There is a PLT entry at `0x402000`. -/
def stoppedAt (ip : Word 64) : AddrSpace 64 :=
  processOf [(16, ip), (7, 0x7000)] ((0x7000, 0x401000) :: pltEntryAt 0x402000)

theorem stoppedCursor_run (ip : Word 64) (allowed : X86Cursor → StepSpace 17 64 → Prop) :
    CursorRun linuxHost (stoppedAt ip) allowed (stoppedCursor ip 0x7000 true) :=
  .start ⟨true, {}, rfl⟩

/-- The step out of the vsyscall page moves the location of `rip` to the return
    address, and leaves `ip`. -/
theorem vsyscall_not_coherent :
    ¬ ∀ (host : Host) (as : AddrSpace 64) (c c' : X86Cursor) (space : StepSpace 17 64),
      CursorRun host as (fun _ _ => True) c → space.as = as →
        unwStep host c space = (.ok true, c') → Coherent host as c' := by
  intro always
  have coherent := always linuxHost (stoppedAt 0xffffffffff600000) _ _
    (bareSpace (stoppedAt 0xffffffffff600000)) (stoppedCursor_run _ _) rfl rfl
  unfold Coherent at coherent
  exact absurd coherent (by decide)

theorem pltEntry_returnsByRip :
    ReturnsByRip linuxHost (stoppedCursor 0x402000 0x7000 true) (bareSpace (stoppedAt 0x402000)) where
  tables rs _ _ _ found := by cases found
  fallback c₁ stepped := by
    obtain rfl := (Prod.mk.inj stepped).2
    exact ⟨by decide, fun _ _ _ => ⟨0x401000, rfl⟩, fun _ _ other => by cases other⟩

/-- The step over a PLT entry moves both. -/
theorem pltEntry_coherent :
    Coherent linuxHost (stoppedAt 0x402000)
      (unwStep linuxHost (stoppedCursor 0x402000 0x7000 true)
        (bareSpace (stoppedAt 0x402000))).2 :=
  run_coherent (stoppedCursor_run _ _) rfl pltEntry_returnsByRip
    (rfl : unwStep linuxHost (stoppedCursor 0x402000 0x7000 true) (bareSpace (stoppedAt 0x402000)) =
      (.ok true, _))

end Libunwind.X86_64
