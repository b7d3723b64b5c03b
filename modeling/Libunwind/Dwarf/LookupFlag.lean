import Libunwind.Library.Run
import Libunwind.Dwarf.Step

/-! # The lookup flag

`use_prev_instr` tells the next search whether `ip` is a return address, so that
the call lies before it, or the instruction that a signal interrupted. It is to
say how the step before has left its frame.
-/

namespace Libunwind.Dwarf

/-- How a step leaves its frame. -/
structure Departure where
  /-- The frame is a signal frame: its CIE says so, or its code. -/
  signalFrame : Bool
  /-- The frame is left through a return address. -/
  returnAddress : Bool
  deriving DecidableEq, Repr

/-- `use_prev_instr` is 0 after a signal frame, and 1 after a return address. -/
def Departure.Describes (left : Departure) (usePrevInstr : Bool) : Prop :=
  (usePrevInstr = false ↔ left.signalFrame = true) ∧
    (usePrevInstr = true ↔ left.returnAddress = true)

instance (left : Departure) (usePrevInstr : Bool) : Decidable (left.Describes usePrevInstr) :=
  inferInstanceAs (Decidable (_ ∧ _))

/-- The departure from a frame that a signal-frame recogniser handles. -/
def Departure.recognised : Departure := ⟨true, false⟩

variable {n w : Nat} {τ : Type}

/-! ## What the unwind tables say -/

section Tables

variable (t : Target n w τ) (tables : UnwindTables n w) (c : Cursor n w τ)

/-- The unwind tables have a CIE for the frame, with the `S` augmentation. -/
def tableSignalFrame : Bool :=
  match fetchProcInfo t tables c with
  | (.ok (), fetched) =>
      match fetched.pi.unwindInfo with
      | some dci => dci.signalFrame
      | none => false
  | (.error _, _) => false

/-- The flag that a search of the unwind tables leaves: that of the CIE, or the
    one before if there is none. -/
def fetchedFlag : Bool :=
  nextUsePrevInstr (fetchProcInfo t tables c).1 (fetchProcInfo t tables c).2

/-- Cache entries of the frame remember the flag of its CIE. -/
def CacheAgrees (cache : RsCache n w) : Prop :=
  ∀ i signalFrame rs, cache.Holds i c.ip signalFrame rs →
    signalFrame = tableSignalFrame t tables c

/-- The departure by `dwarf_step`, or, where that fails, through the return address
    that the target's other methods find. -/
def tableDeparture (space : StepSpace n w) : Departure :=
  let signalFrame := tableSignalFrame t space.tables c
  match (dwarfStep t space c).1 with
  | .ok _ => { signalFrame, returnAddress := !signalFrame }
  | .error _ => { signalFrame, returnAddress := true }

variable {t tables c}

theorem tableSignalFrame_of_fetchedFlag (flag : fetchedFlag t tables c = true) :
    tableSignalFrame t tables c = false := by
  unfold fetchedFlag at flag
  unfold tableSignalFrame
  rcases fetched : fetchProcInfo t tables c with ⟨fault | ⟨⟩, c₁⟩
  · rfl
  · rw [fetched] at flag
    cases info : c₁.pi.unwindInfo with
    | none => simp [info]
    | some dci => simpa [nextUsePrevInstr, info] using flag

variable {cache : RsCache n w} {c' : Cursor n w τ} {rs : RegState n w} {fault : Fault}

theorem computeState_flag (computed : computeState t tables c = (.ok rs, c')) :
    c'.usePrevInstr = !tableSignalFrame t tables c := by
  unfold computeState at computed
  unfold tableSignalFrame
  rcases fetched : fetchProcInfo t tables c with ⟨fault | ⟨⟩, c₁⟩
  · rw [fetched] at computed
    cases congrArg Prod.fst computed
  · rw [fetched] at computed
    obtain rfl := congrArg Prod.snd computed
    cases info : c₁.pi.unwindInfo with
    | none =>
        have parsed := congrArg Prod.fst computed
        simp only [info, notNull] at parsed
        cases parsed
    | some dci => simp [nextUsePrevInstr, info]

/-- A search that succeeds sets the flag by the CIE. -/
theorem FoundBy.flag (found : FoundBy t tables cache c (.ok rs) c')
    (agrees : CacheAgrees t tables c cache) : c'.usePrevInstr = !tableSignalFrame t tables c := by
  cases found with
  | hit holds used =>
      obtain ⟨_, _, _, -, -, -, -, rfl⟩ := useEntry_eq_ok.mp used
      rw [← agrees _ _ _ holds]
  | uncached computed => exact computeState_flag computed
  | entered computed _ used =>
      have flag := computeState_flag computed
      obtain ⟨_, _, _, -, -, -, -, rfl⟩ := useEntry_eq_ok.mp used
      exact flag

/-- A search that fails has gone to the tables. -/
theorem FoundBy.flag_failed (found : FoundBy t tables cache c (.error fault) c') :
    c'.usePrevInstr = fetchedFlag t tables c := by
  cases found with
  | failed computed =>
      obtain rfl := congrArg Prod.snd computed
      rfl

end Tables

/-! ## What `dwarf_step` makes of the flag -/

section Step

variable {t : Target n w τ} {space : StepSpace n w} {as : AddrSpace w} {budget : Nat}
  {c c' : Cursor n w τ} {rs : RegState n w} {result : Result Bool} {fault : Fault} {more : Bool}

theorem AppliedBy.flag (applied : AppliedBy t as budget c rs result c') :
    c'.usePrevInstr = c.usePrevInstr := by
  cases applied with
  | refused => rfl
  | unread => rfl
  | stuck => rfl
  | moved => rfl

/-- A step that fails leaves `ip`. -/
theorem AppliedBy.ip_failed (applied : AppliedBy t as budget c rs (.error fault) c') :
    c'.ip = c.ip := by
  cases applied with
  | refused => rfl
  | unread => rfl
  | stuck => rfl

variable (t space c)

/-- The cache that the first visit finds remembers the flag of the frame's CIE. -/
def StepSpace.CacheAgrees : Prop :=
  Dwarf.CacheAgrees t space.tables c (getRsCache space.policy space.first space.cache).cache

variable {t space c}

theorem SteppedBy.flag_moved (stepped : SteppedBy t space c (.ok more) c')
    (agrees : space.CacheAgrees t c) : c'.usePrevInstr = !tableSignalFrame t space.tables c := by
  cases stepped with
  | applied found applied =>
      have foundBy := space.find_foundBy t c (.inl ⟨_, found⟩)
      rw [found] at foundBy
      rw [applied.flag, foundBy.flag agrees]

theorem SteppedBy.flag_failed (stepped : SteppedBy t space c (.error fault) c')
    (agrees : space.CacheAgrees t c) (flag : fetchedFlag t space.tables c = true) :
    c'.usePrevInstr = true := by
  cases stepped with
  | notFound failed =>
      have foundBy := space.find_foundBy t c (.inr ⟨_, failed⟩)
      rw [failed] at foundBy
      rw [foundBy.flag_failed, flag]
  | applied found applied =>
      have foundBy := space.find_foundBy t c (.inl ⟨_, found⟩)
      rw [found] at foundBy
      rw [applied.flag, foundBy.flag agrees, tableSignalFrame_of_fetchedFlag flag, Bool.not_false]

theorem SteppedBy.ip_failed (stepped : SteppedBy t space c (.error fault) c') : c'.ip = c.ip := by
  cases stepped with
  | notFound failed => exact (space.find_sameFrame t c (.inr ⟨_, failed⟩)).ip
  | applied found applied =>
      exact applied.ip_failed.trans (space.find_sameFrame t c (.inl ⟨_, found⟩)).ip

/-- The flag describes a frame that `dwarf_step` has left. -/
theorem dwarfStep_describes (stepped : dwarfStep t space c = (.ok more, c'))
    (agrees : space.CacheAgrees t c) : (tableDeparture t c space).Describes c'.usePrevInstr := by
  have steppedBy := dwarfStep_steppedBy t space c
  rw [stepped] at steppedBy
  rw [(steppedBy (.inl ⟨_, rfl⟩)).flag_moved agrees]
  simp [tableDeparture, stepped, Departure.Describes]

/-- A cache without arrays agrees with any tables. -/
theorem bareSpace_cacheAgrees (as : AddrSpace w) : (bareSpace as).CacheAgrees t c := by
  rintro i signalFrame rs ⟨links, _, _, held, -⟩
  cases held

/-- After `dwarf_step` has failed, a set flag describes a frame that is no signal
    frame by its CIE. -/
theorem fallback_describes (failed : (dwarfStep t space c).1 = .error fault)
    (plain : tableSignalFrame t space.tables c = false) :
    (tableDeparture t c space).Describes true := by
  simp [tableDeparture, failed, plain, Departure.Describes]

end Step

/-! ## Runs -/

/-- A cursor, with how its last step has left the frame before, if that step has
    returned a positive value. -/
structure Walker (γ : Type) where
  cursor : γ
  left : Option Departure

/-- The flag describes the frame that the last step has left. -/
def Walker.Described {γ : Type} (flag : γ → Bool) (s : Walker γ) : Prop :=
  ∀ left, s.left = some left → left.Describes (flag s.cursor)

section Walk

variable {γ ε : Type} (start : γ → Prop) (unwStep : γ → ε → Result Bool × γ)
  (departure : γ → ε → Departure) (keeps : γ → ε → Prop)

/-- The runs of `unw_step` in which every step that finds a caller keeps the
    condition. -/
def Walk : Walker γ → Prop :=
  Run (fun s => start s.cursor ∧ s.left = none)
    (fun s space s' =>
      Concludes (unwStep s.cursor space).1 ∧ s'.cursor = (unwStep s.cursor space).2 ∧
        s'.left =
          if (unwStep s.cursor space).1 = .ok true then some (departure s.cursor space) else none)
    (fun s space => (unwStep s.cursor space).1 = .ok true → keeps s.cursor space)

variable {start unwStep departure keeps}

/-- The walk of one step that finds a caller. -/
theorem Walk.single {c : γ} {space : ε} (isStart : start c) (kept : keeps c space)
    (moved : (unwStep c space).1 = .ok true) :
    Walk start unwStep departure keeps
      { cursor := (unwStep c space).2, left := some (departure c space) } :=
  have initial : Walk start unwStep departure keeps { cursor := c, left := none } :=
    .start ⟨isStart, rfl⟩
  .step space initial (fun _ => kept) ⟨.inl ⟨_, moved⟩, rfl, (if_pos moved).symm⟩

/-- What one step establishes holds throughout a walk. -/
theorem Walk.described {flag : γ → Bool} {s : Walker γ}
    (walk : Walk start unwStep departure keeps s)
    (describes : ∀ c space, (unwStep c space).1 = .ok true → keeps c space →
      (departure c space).Describes (flag (unwStep c space).2)) : s.Described flag := by
  refine Run.invariant walk ?_ ?_
  · rintro s ⟨-, notLeft⟩ left leaves
    rw [notLeft] at leaves
    cases leaves
  · rintro s space s' - keeps ⟨-, sameCursor, sameLeft⟩ left leaves
    rw [sameLeft] at leaves
    split at leaves
    next moved =>
      cases leaves
      rw [sameCursor]
      exact describes s.cursor space moved (keeps moved)
    next => cases leaves

end Walk

end Libunwind.Dwarf
