import Libunwind.Dwarf.LookupFlag
import Libunwind.X64.Step
import Libunwind.A64.Step
import Libunwind.Riscv.Step

/-! # The lookup flag of the targets

The unwind tables set `use_prev_instr` by the CIE. Of the other methods of
`unw_step` only some set it: the vsyscall page and PLT entries of x86_64, the
frame record and the link register of aarch64, and the signal trampoline and the
return address of riscv leave the flag that a search of the tables has left.
-/

namespace Libunwind

open Dwarf

/-! ## x86_64 -/

namespace X86_64

variable {host : Host} {as : AddrSpace 64} {c c₁ c' : X86Cursor} {space : StepSpace 17 64}
  {result : Result Bool}

/-- How `unw_step` leaves its frame. -/
def departure (host : Host) (c : X86Cursor) (space : StepSpace 17 64) : Departure :=
  tableDeparture host.target (clearSigcontext c) space

/-- What a step that finds a caller has to find for its flag: a cache that agrees
    with the tables, and, where these do not lead on, no signal frame, with a set
    flag if a method steps over the frame that does not set it. -/
structure KeepsFlag (host : Host) (c : X86Cursor) (space : StepSpace 17 64) : Prop where
  cache : space.CacheAgrees host.target (clearSigcontext c)
  fallback : (dwarfStep host.target space (clearSigcontext c)).1 = .error (.err .noinfo) →
    tableSignalFrame host.target space.tables (clearSigcontext c) = false ∧
      (host.isVsyscall c ∨ isPltEntry space.as c →
        fetchedFlag host.target space.tables (clearSigcontext c) = true)

theorem isPltEntry_congr (sameIp : c'.ip = c.ip) : isPltEntry as c' = isPltEntry as c := by
  unfold isPltEntry
  rw [sameIp]

theorem isVsyscall_congr (sameIp : c'.ip = c.ip) : host.isVsyscall c' = host.isVsyscall c := by
  unfold Host.isVsyscall
  rw [sameIp]

/-- The fallback keeps the flag on the vsyscall page and in PLT entries, and sets
    it in every other walk. -/
theorem FellBack.flag (fell : FellBack host as c (.ok true) c')
    (unset : host.isVsyscall c ∨ isPltEntry as c → c.usePrevInstr = true) :
    c'.usePrevInstr = true := by
  cases fell with
  | hook handled =>
      unfold osStep at handled
      split at handled
      next vsyscall =>
        cases handled
        exact unset (.inl vsyscall)
      next => cases handled
  | plt _ _ plt => exact unset (.inr plt)
  | walked _ _ _ walked =>
      cases walked with
      | call => rfl
      | record => rfl

theorem unwStep_describes (moved : (unwStep host c space).1 = .ok true)
    (keeps : KeepsFlag host c space) :
    (departure host c space).Describes (unwStep host c space).2.usePrevInstr := by
  obtain ⟨stepped, -⟩ | ⟨c₁, result, next, noinfo, fell, same⟩ := unwStep_cases host c space
  · exact dwarfStep_describes (stepped.trans (Prod.ext moved rfl)) keeps.cache
  · have failed : (dwarfStep host.target space (clearSigcontext c)).1 = .error (.err .noinfo) :=
      congrArg Prod.fst noinfo
    obtain ⟨plain, unset⟩ := keeps.fallback failed
    have steppedBy := dwarfStep_steppedBy host.target space (clearSigcontext c)
    rw [noinfo] at steppedBy
    have steppedBy := steppedBy (.inr ⟨_, rfl⟩)
    have sameIp : c₁.ip = c.ip := steppedBy.ip_failed
    rw [same] at moved ⊢
    have set : next.usePrevInstr = true := by
      cases result with
      | error fault => cases moved
      | ok more =>
          have both : (more && !(next.ip == c₁.ip && next.cfa == c₁.cfa)) = true :=
            Except.ok.inj moved
          rw [(Bool.and_eq_true_iff.mp both).1] at fell
          refine fell.flag fun bare => ?_
          rw [isVsyscall_congr sameIp, isPltEntry_congr sameIp] at bare
          exact steppedBy.flag_failed keeps.cache (unset bare)
    rw [set]
    exact fallback_describes failed plain

/-- The walks from a cursor that `unw_init_local` or `unw_init_remote` has set up. -/
abbrev FlagWalk (host : Host) (keeps : X86Cursor → StepSpace 17 64 → Prop) :
    Walker X86Cursor → Prop :=
  Walk (fun c => ∃ as usePrevInstr frameInfo, host.commonInit as usePrevInstr frameInfo = .ok c)
    (unwStep host) (departure host) keeps

end X86_64

/-! ## aarch64 -/

namespace AArch64

variable {host : Host} {as : AddrSpace 64} {budget : Nat} {c c' : A64Cursor}
  {space : StepSpace 97 64} {fp : Word 64}

/-- How `unw_step` leaves its frame. -/
def departure (host : Host) (c : A64Cursor) (space : StepSpace 97 64) : Departure :=
  if unwIsSignalFrame space.as c = .ok true then .recognised
  else tableDeparture host.target (searched host space.as c) space

/-- What a step that finds a caller has to find for its flag, unless it recognises
    a signal frame. -/
structure KeepsFlag (host : Host) (c : A64Cursor) (space : StepSpace 97 64) : Prop where
  cache : space.CacheAgrees host.target (searched host space.as c)
  fallback : (dwarfStep host.target space (searched host space.as c)).1 = .error (.err .noinfo) →
    fetchedFlag host.target space.tables (searched host space.as c) = true

theorem handleSignalFrame_flag (moved : (handleSignalFrame host as budget c).1 = .ok true) :
    (handleSignalFrame host as budget c).2.usePrevInstr = false := by
  unfold handleSignalFrame at moved ⊢
  split
  next =>
    unfold getSveVlSignalLoc
    split <;> rfl
  next other =>
    split at moved
    next recognised => exact absurd recognised other
    next => cases moved

theorem frameRecordStep_flag (record : Word 64) :
    (frameRecordStep host as c record).2.usePrevInstr = c.usePrevInstr := by
  unfold frameRecordStep
  dsimp only
  split
  next => rfl
  next => split <;> rfl

theorem atFpStep_flag : (atFpStep host as c fp).2.usePrevInstr = c.usePrevInstr := by
  unfold atFpStep
  split
  next =>
    split
    next => rfl
    next => exact frameRecordStep_flag _
  next => exact frameRecordStep_flag _

theorem atSpStep_flag (offset : Int) :
    (atSpStep host as c offset).2.usePrevInstr = c.usePrevInstr := by
  unfold atSpStep
  split
  next => rfl
  next => exact frameRecordStep_flag _

theorem linkRegisterStep_flag (offset : Int) :
    (linkRegisterStep host as c offset).2.usePrevInstr = c.usePrevInstr := by
  unfold linkRegisterStep
  dsimp only
  split
  next => rfl
  next => split <;> rfl

/-- No method but the unwind tables and the signal trampoline sets the flag. -/
theorem stepFallback_flag :
    (stepFallback host as budget c fp).2.usePrevInstr = c.usePrevInstr := by
  unfold stepFallback
  dsimp only
  split
  next => rfl
  next fs _ =>
    cases fs.loc with
    | atFp => exact atFpStep_flag
    | atSpOffset => exact atSpStep_flag _
    | none => exact linkRegisterStep_flag _

theorem unwStep_describes (moved : (unwStep host c space).1 = .ok true)
    (keeps : unwIsSignalFrame space.as c ≠ .ok true → KeepsFlag host c space) :
    (departure host c space).Describes (unwStep host c space).2.usePrevInstr := by
  have steppedOver := unwStep_steppedOver host c space
  unfold departure
  generalize (unwStep host c space).1 = result at moved steppedOver
  generalize (unwStep host c space).2 = c' at steppedOver ⊢
  cases steppedOver with
  | recognised recognised =>
      rw [if_pos recognised, handleSignalFrame_flag moved]
      decide
  | ended => cases moved
  | tables other stepped =>
      rw [if_neg other]
      rw [moved] at stepped
      exact dwarfStep_describes stepped (keeps other).cache
  | fallback other noinfo =>
      have failed := congrArg Prod.fst noinfo
      have steppedBy := dwarfStep_steppedBy host.target space (searched host space.as c)
      rw [noinfo] at steppedBy
      have flag := (keeps other).fallback failed
      have set := (steppedBy (.inr ⟨_, rfl⟩)).flag_failed (keeps other).cache flag
      rw [if_neg other, stepFallback_flag, set]
      exact fallback_describes failed (tableSignalFrame_of_fetchedFlag flag)

/-- The walks from a cursor that `unw_init_local` or `unw_init_remote` has set up. -/
abbrev FlagWalk (host : Host) (keeps : A64Cursor → StepSpace 97 64 → Prop) :
    Walker A64Cursor → Prop :=
  Walk (fun c => ∃ as before usePrevInstr, host.commonInit as before usePrevInstr = .ok c)
    (unwStep host) (departure host) keeps

end AArch64

/-! ## riscv -/

namespace RiscV

variable {w : Nat} {host : Host w} {as : AddrSpace w} {c c' : RiscVCursor w}
  {space : StepSpace 66 w}

/-- How `unw_step` leaves its frame. -/
def departure (host : Host w) (c : RiscVCursor w) (space : StepSpace 66 w) : Departure :=
  if unwIsSignalFrame space.as c = .ok true then .recognised
  else tableDeparture host.target c space

/-- What a step that finds a caller has to find for its flag, unless it recognises
    a signal frame: then the flag has to be unset already. -/
structure KeepsFlag (host : Host w) (c : RiscVCursor w) (space : StepSpace 66 w) : Prop where
  recognised : unwIsSignalFrame space.as c = .ok true → c.usePrevInstr = false
  cache : unwIsSignalFrame space.as c ≠ .ok true → space.CacheAgrees host.target c
  fallback : unwIsSignalFrame space.as c ≠ .ok true →
    IsNegative (dwarfStep host.target space c).1 →
      fetchedFlag host.target space.tables c = true

theorem handleSignalFrame_flag :
    (handleSignalFrame host as c).2.usePrevInstr = c.usePrevInstr := by
  unfold handleSignalFrame
  split
  next => rfl
  next => split <;> rfl

theorem returnAddressStep_flag :
    (returnAddressStep host as c).2.usePrevInstr = c.usePrevInstr := by
  unfold returnAddressStep
  dsimp only
  split
  next => rfl
  next => split <;> rfl

theorem unwStep_describes (moved : (unwStep host c space).1 = .ok true)
    (keeps : KeepsFlag host c space) :
    (departure host c space).Describes (unwStep host c space).2.usePrevInstr := by
  unfold unwStep at moved ⊢
  unfold departure
  by_cases recognised : unwIsSignalFrame space.as c = .ok true
  · rw [if_pos recognised, if_pos recognised, handleSignalFrame_flag, keeps.recognised recognised]
    decide
  · rw [if_neg recognised] at moved
    rw [if_neg recognised, if_neg recognised]
    have steppedBy := dwarfStep_steppedBy host.target space c
    rcases stepped : dwarfStep host.target space c with ⟨fault | more, c₁⟩
    · rw [stepped] at moved steppedBy
      cases fault with
      | undefined => cases moved
      | timeout => cases moved
      | err code =>
          dsimp only at moved ⊢
          split at moved
          next => cases moved
          next notStopped =>
            have failed : (dwarfStep host.target space c).1 = .error (.err code) :=
              congrArg Prod.fst stepped
            have flag := keeps.fallback recognised ⟨code, failed⟩
            have set := (steppedBy (.inr ⟨_, rfl⟩)).flag_failed (keeps.cache recognised) flag
            rw [if_neg notStopped, returnAddressStep_flag, set]
            exact fallback_describes failed (tableSignalFrame_of_fetchedFlag flag)
    · rw [stepped] at moved
      exact dwarfStep_describes stepped (keeps.cache recognised)

/-- The walks from a cursor that `unw_init_local` or `unw_init_remote` has set up. -/
abbrev FlagWalk (host : Host w) (keeps : RiscVCursor w → StepSpace 66 w → Prop) :
    Walker (RiscVCursor w) → Prop :=
  Walk (fun c => ∃ as before usePrevInstr, host.commonInit as before usePrevInstr = .ok c)
    (unwStep host) (departure host) keeps

end RiscV

/-! ## Every walk -/

/-- In a walk whose steps all keep the condition, the flag describes the frame that
    the last step has left. -/
theorem flagWalk_described {w : Nat} (x86 : X86_64.Host) (a64 : AArch64.Host)
    (riscv : RiscV.Host w) :
    (∀ s, X86_64.FlagWalk x86 (X86_64.KeepsFlag x86) s → s.Described (·.usePrevInstr)) ∧
    (∀ s, AArch64.FlagWalk a64 (fun c space =>
        AArch64.unwIsSignalFrame space.as c ≠ .ok true → AArch64.KeepsFlag a64 c space) s →
      s.Described (·.usePrevInstr)) ∧
    ∀ s, RiscV.FlagWalk riscv (RiscV.KeepsFlag riscv) s → s.Described (·.usePrevInstr) :=
  ⟨fun _ walk => walk.described fun _ _ => X86_64.unwStep_describes,
    fun _ walk => walk.described fun _ _ => AArch64.unwStep_describes,
    fun _ walk => walk.described fun _ _ => RiscV.unwStep_describes⟩

/-! ## Three stopped processes -/

namespace X86_64

/-- A process that is stopped at a PLT entry. -/
def atPltEntry : AddrSpace 64 :=
  processOf [(16, 0x402000), (7, 0x7000)] ((0x7000, 0x401000) :: pltEntryAt 0x402000)

theorem pltEntry_walk {keeps : X86Cursor → StepSpace 17 64 → Prop} (usePrevInstr : Bool)
    (kept : keeps (stoppedCursor 0x402000 0x7000 usePrevInstr) (bareSpace atPltEntry)) :
    FlagWalk linuxHost keeps
      { cursor := (unwStep linuxHost (stoppedCursor 0x402000 0x7000 usePrevInstr)
          (bareSpace atPltEntry)).2
        left := some { signalFrame := false, returnAddress := true } } :=
  Walk.single ⟨atPltEntry, usePrevInstr, {}, rfl⟩ kept rfl

end X86_64

namespace AArch64

/-- A process that is stopped where only the link register tells the caller. -/
def inLeaf : AddrSpace 64 :=
  processOf [(32, 0x402000), (31, 0x7000), (30, 0x401000), (29, 0x7100)] [(0x402000, 0)]

/-- A cursor as `common_init` leaves it there. -/
def leafCursor (usePrevInstr : Bool) : A64Cursor where
  cfa := 0x7000
  ip := 0x402000
  loc r := if r ≤ pstate ∨ r = vg ∨ (v0 ≤ r ∧ r ≤ v31) then ⟨BitVec.ofInt 64 r, .reg⟩ else nullLoc
  usePrevInstr
  tdep := {}

theorem leafCursor_initial (usePrevInstr : Bool) :
    Host.commonInit { localOnly := false } inLeaf (leafCursor false) usePrevInstr =
      .ok (leafCursor usePrevInstr) := by
  have loc : (fun r : Fin 97 => if r ≤ pstate ∨ r = vg ∨ (v0 ≤ r ∧ r ≤ v31) then
      (⟨BitVec.ofInt 64 r, .reg⟩ : Loc 64) else if r < v0 then nullLoc
      else (leafCursor false).loc r) = (leafCursor usePrevInstr).loc := by
    funext r
    dsimp only [leafCursor]
    split_ifs <;> rfl
  unfold Host.commonInit
  dsimp only
  rw [loc]
  rfl

theorem leaf_walk {keeps : A64Cursor → StepSpace 97 64 → Prop} (usePrevInstr : Bool)
    (kept : keeps (leafCursor usePrevInstr) (bareSpace inLeaf)) :
    FlagWalk { localOnly := false } keeps
      { cursor := (unwStep { localOnly := false } (leafCursor usePrevInstr) (bareSpace inLeaf)).2
        left := some { signalFrame := false, returnAddress := true } } :=
  Walk.single ⟨inLeaf, leafCursor false, usePrevInstr, leafCursor_initial usePrevInstr⟩ kept rfl

end AArch64

namespace RiscV

/-- A process that is stopped at the trampoline of a signal handler. -/
def atTrampoline : AddrSpace 64 :=
  processOf [(64, 0x402000), (2, 0x7000)]
    [(0x402000, 0x08b00893), (0x402004, 0x00000073), (0x7000, 0), (0x7130, 0x401000),
      (0x7140, 0x8000)]

/-- A cursor as `common_init` leaves it there. -/
def trampolineCursor (usePrevInstr : Bool) : RiscVCursor 64 where
  cfa := 0x7000
  ip := 0x402000
  loc r := if r < f0 ∨ r = pc then ⟨BitVec.ofInt 64 r, .reg⟩ else nullLoc
  usePrevInstr
  tdep := {}

theorem trampoline_walk {keeps : RiscVCursor 64 → StepSpace 66 64 → Prop} (usePrevInstr : Bool)
    (kept : keeps (trampolineCursor usePrevInstr) (bareSpace atTrampoline)) :
    FlagWalk { localOnly := false } keeps
      { cursor := (unwStep { localOnly := false } (trampolineCursor usePrevInstr)
          (bareSpace atTrampoline)).2
        left := some .recognised } :=
  Walk.single ⟨atTrampoline, trampolineCursor false, usePrevInstr, rfl⟩ kept rfl

end RiscV

/-- From `unw_init_remote` a PLT entry of x86_64 and a leaf procedure of aarch64
    are left with an unset flag; from `unw_init_local` a signal frame of riscv is
    left with a set one. -/
theorem flagWalk_not_described :
    (¬ ∀ host s, X86_64.FlagWalk host (fun _ _ => True) s → s.Described (·.usePrevInstr)) ∧
    (¬ ∀ host s, AArch64.FlagWalk host (fun _ _ => True) s → s.Described (·.usePrevInstr)) ∧
    ¬ ∀ (host : RiscV.Host 64) s, RiscV.FlagWalk host (fun _ _ => True) s →
      s.Described (·.usePrevInstr) := by
  refine ⟨fun always => ?_, fun always => ?_, fun always => ?_⟩
  · have walk : X86_64.FlagWalk X86_64.linuxHost (fun _ _ => True) _ :=
      X86_64.pltEntry_walk false trivial
    exact absurd (always _ _ walk _ rfl) (by decide)
  · have walk : AArch64.FlagWalk { localOnly := false } (fun _ _ => True) _ :=
      AArch64.leaf_walk false trivial
    exact absurd (always _ _ walk _ rfl) (by decide)
  · have walk : RiscV.FlagWalk { localOnly := false } (fun _ _ => True) _ :=
      RiscV.trampoline_walk true trivial
    exact absurd (always _ _ walk _ rfl) (by decide)

/-- The same processes with the other flag keep the condition. -/
theorem stopped_flagWalk_described :
    (X86_64.unwStep X86_64.linuxHost (X86_64.stoppedCursor 0x402000 0x7000 true)
      (bareSpace X86_64.atPltEntry)).2.usePrevInstr = true ∧
    (AArch64.unwStep { localOnly := false } (AArch64.leafCursor true)
      (bareSpace AArch64.inLeaf)).2.usePrevInstr = true ∧
    (RiscV.unwStep { localOnly := false } (RiscV.trampolineCursor false)
      (bareSpace RiscV.atTrampoline)).2.usePrevInstr = false := by
  obtain ⟨x86, a64, riscv⟩ := flagWalk_described X86_64.linuxHost { localOnly := false }
    { localOnly := false }
  have x86Kept : X86_64.KeepsFlag X86_64.linuxHost (X86_64.stoppedCursor 0x402000 0x7000 true)
      (bareSpace X86_64.atPltEntry) :=
    ⟨bareSpace_cacheAgrees _, fun _ => ⟨rfl, fun _ => rfl⟩⟩
  have a64Kept : AArch64.KeepsFlag { localOnly := false } (AArch64.leafCursor true)
      (bareSpace AArch64.inLeaf) :=
    ⟨bareSpace_cacheAgrees _, fun _ => rfl⟩
  have riscvKept : RiscV.KeepsFlag { localOnly := false } (RiscV.trampolineCursor false)
      (bareSpace RiscV.atTrampoline) :=
    ⟨fun _ => rfl, fun _ => bareSpace_cacheAgrees _, fun other => absurd rfl other⟩
  exact ⟨(x86 _ (X86_64.pltEntry_walk true x86Kept) _ rfl).2.mpr rfl,
    (a64 _ (AArch64.leaf_walk true fun _ => a64Kept) _ rfl).2.mpr rfl,
    (riscv _ (RiscV.trampoline_walk false riscvKept) _ rfl).1.mpr rfl⟩

end Libunwind
