import Libunwind.Library.BitField
import Libunwind.Dwarf.LookupFlag
import Libunwind.Ppc64.Step

/-! # The frame that a step leads to

Each method of `unw_step` sets `ip`, the CFA, the locations and the lookup flag on
its own. A cursor is to describe one frame by all of them: the frame that the method
has found, which is left by a return address or by a signal.
-/

namespace Libunwind.Ppc64

open Dwarf

variable {host : Host} {as : AddrSpace 64} {c c' : Ppc64Cursor} {space : StepSpace 115 64}

/-! ## What a step is to leave -/

/-- The instruction at an address, as the target stores it. -/
def instructionAt (host : Host) (as : AddrSpace 64) (addr : Word 64) : Option (BitVec 32) :=
  if host.localOnly then (readu32 as addr).toOption.map Prod.fst else readInstruction as addr

/-- The instruction at `ip` reloads the TOC pointer. -/
def AtTocReload (host : Host) (as : AddrSpace 64) (c : Ppc64Cursor) : Prop :=
  c.ip &&& 3 = 0 ∧ instructionAt host as c.ip = some host.tocReload

/-- The TOC save slot of the frame. -/
def tocSlot (host : Host) (c : Ppc64Cursor) : Loc 64 := memLoc (c.cfa + host.tocSave)

/-- How a step leaves its frame, and what it then knows of the next one. -/
structure Left where
  as : AddrSpace 64
  departure : Departure
  /-- The stack pointer of the next frame. -/
  stackPointer : Option (Word 64)
  /-- The registers whose values are lost. -/
  unknown : Fin 115 → Bool

/-- The cursor describes the frame that the step has found. -/
structure Left.Describes (left : Left) (host : Host) (c : Ppc64Cursor) : Prop where
  stackPointer : left.stackPointer = some c.cfa
  lookupFlag : left.departure.Describes c.usePrevInstr
  unknown : ∀ r, left.unknown r = true → (c.loc r).isNull host.localOnly = true ∨
    (AtTocReload host left.as c ∧ r = r2 ∧ c.loc r2 = tocSlot host c)
  toc : left.departure.returnAddress = true → AtTocReload host left.as c →
    c.loc r2 = tocSlot host c

/-- A trampoline has the registers in its `ucontext_t`, but no frame pointer, and the
    vector registers only if the kernel has saved them. -/
def leftByTrampoline (host : Host) (as : AddrSpace 64) (c : Ppc64Cursor) : Left :=
  let field (offset : Word 64) : Option (Word 64) :=
    ((memLoc (ucontextAddr c + offset)).get host.localOnly as).toOption
  { as
    departure := .recognised
    stackPointer := field (host.gpRegs + 8)
    unknown := fun r => r == framePointer || (isVector r && field host.vRegs == some 0) }

/-- A row of the unwind tables says where the stack pointer was, and which registers
    it has no rule for. -/
def leftByRow (host : Host) (c : Ppc64Cursor) (space : StepSpace 115 64)
    (rs : RegState 115 64) : Left where
  as := space.as
  departure := tableDeparture host.target c space
  stackPointer := (evalCfa host.target space.as space.budget c rs).toOption
  unknown r := decide ((rs.reg (regColumn r)).how = .undef)

/-- A PLT entry has no frame of its own, and its return address is in LR. -/
def leftByPltEntry (host : Host) (c : Ppc64Cursor) (space : StepSpace 115 64) : Left where
  as := space.as
  departure := tableDeparture host.target c space
  stackPointer := some c.cfa
  unknown r := r == lr

/-- The stack pointer leads to that of the caller, and to nothing else. -/
def leftByBackChain (host : Host) (c : Ppc64Cursor) (space : StepSpace 115 64) : Left where
  as := space.as
  departure := tableDeparture host.target c space
  stackPointer := ((memLoc c.cfa).get host.localOnly space.as).toOption
  unknown _ := true

/-- How `unw_step` leaves its frame. -/
def leaving (host : Host) (c : Ppc64Cursor) (space : StepSpace 115 64) : Left :=
  if unwIsSignalFrame space.as c then leftByTrampoline host space.as c
  else
    match (dwarfStep host.target space c).1, (space.find host.target c).result with
    | .ok _, .ok rs => leftByRow host c space rs
    | _, _ =>
        if isPltEntry space.as c then leftByPltEntry host c space else leftByBackChain host c space

/-- What a step that finds a caller has to find for its cursor: at a trampoline, an
    unset flag; elsewhere, a cache that agrees with the tables, and where these do not
    lead on, that `dwarf_step` has not moved the cursor, and a set flag. -/
structure KeepsFrame (host : Host) (c : Ppc64Cursor) (space : StepSpace 115 64) : Prop where
  trampoline : unwIsSignalFrame space.as c = true → c.usePrevInstr = false
  cache : unwIsSignalFrame space.as c = false → space.CacheAgrees host.target c
  fallback : unwIsSignalFrame space.as c = false →
    (dwarfStep host.target space c).1 = .error (.err .noinfo) →
      c.SameFrame (dwarfStep host.target space c).2 ∧
        fetchedFlag host.target space.tables c = true
  /-- libunwind was built for the byte order of its target. -/
  byteOrder : host.localOnly = false → host.bigEndian = space.as.bigEndian

/-! ## The tail -/

/-- An instruction is the first or the second half of its word. -/
theorem offset_of_aligned {addr : Word 64} (aligned : addr &&& 3 = 0) :
    addr - (addr &&& ~~~7) = 0 ∨ addr - (addr &&& ~~~7) = 4 := by
  have low : addr.toNat % 4 = 0 := by
    have zero := congrArg BitVec.toNat aligned
    rwa [BitVec.toNat_and, show (3 : Word 64).toNat = 2 ^ 2 - 1 from rfl,
      Nat.and_two_pow_sub_one_eq_mod] at zero
  have value : (addr &&& 7).toNat = addr.toNat % 8 := by
    rw [BitVec.toNat_and, show (7 : Word 64).toNat = 2 ^ 3 - 1 from rfl,
      Nat.and_two_pow_sub_one_eq_mod]
  rw [sub_and_not]
  obtain zero | four : addr.toNat % 8 = 0 ∨ addr.toNat % 8 = 4 := by omega
  · exact .inl (BitVec.eq_of_toNat_eq (value.trans zero))
  · exact .inr (BitVec.eq_of_toNat_eq (value.trans four))

/-- In the byte order of the target, `fetch32` reads the instruction. -/
theorem fetch32_eq (sameOrder : host.localOnly = false → host.bigEndian = as.bigEndian)
    {addr : Word 64} (aligned : addr &&& 3 = 0) {insn : BitVec 32} :
    fetch32 host as addr = .ok insn ↔ instructionAt host as addr = some insn := by
  unfold fetch32 instructionAt
  cases isLocal : host.localOnly with
  | true =>
      rcases readu32 as addr with fault | ⟨value, next⟩
      · simp [Except.toOption]
      · simp [Except.toOption]
  | false =>
      simp only [Bool.false_eq_true, if_false]
      have lowBits : (addr - (addr &&& ~~~7)) &&& 3 = 0 := by
        obtain zero | four := offset_of_aligned aligned
        · rw [zero]
          rfl
        · rw [four]
          rfl
      rw [if_neg (not_not.mpr lowBits), readInstruction, sameOrder isLocal]
      cases as.accessMem (addr &&& ~~~7) with
      | error code => simp
      | ok word =>
          have same : addr = addr &&& ~~~7 ↔ addr - (addr &&& ~~~7) = 0 := sub_eq_zero.symm
          obtain zero | four := offset_of_aligned aligned
          · simp only [ofAccess_ok, ok_bind, pure_eq_ok, zero, if_pos (same.mpr zero)]
            cases as.bigEndian <;> simp
          · have second : addr ≠ addr &&& ~~~7 := by
              rw [ne_eq, same, four]
              decide
            simp only [ofAccess_ok, ok_bind, pure_eq_ok, four, if_neg second]
            cases as.bigEndian <;> simp

/-- What `step_done` makes of a cursor. -/
structure Finished (host : Host) (as : AddrSpace 64) (c c' : Ppc64Cursor) : Prop where
  cfa : c'.cfa = c.cfa
  usePrevInstr : c'.usePrevInstr = c.usePrevInstr
  loc : ∀ r, c'.loc r = c.loc r ∨
    (AtTocReload host as c' ∧ r = r2 ∧ c'.loc r2 = tocSlot host c')
  toc : AtTocReload host as c' → c'.loc r2 = tocSlot host c'

theorem stepDone_finished (sameOrder : host.localOnly = false → host.bigEndian = as.bigEndian)
    {ret : Bool} (moved : (stepDone host as c ret).1 = .ok true) :
    Finished host as c (stepDone host as c ret).2 := by
  have unchanged (elsewhere : ¬ AtTocReload host as c) : Finished host as c c :=
    ⟨rfl, rfl, fun _ => .inl rfl, fun there => absurd there elsewhere⟩
  unfold stepDone at moved ⊢
  split
  next zero =>
    rw [if_pos zero] at moved
    cases moved
  next =>
    split
    next odd => exact unchanged fun there => odd there.1
    next even =>
      have aligned : c.ip &&& 3 = 0 := not_not.mp even
      have fetches (insn : BitVec 32) :
          fetch32 host as c.ip = .ok insn ↔ instructionAt host as c.ip = some insn :=
        fetch32_eq sameOrder aligned
      split
      next insn fetched =>
        have there := (fetches insn).mp fetched
        split
        next reload =>
          have atReload : AtTocReload host as c := ⟨aligned, there.trans (congrArg some reload)⟩
          have slot : Function.update c.loc r2 (memLoc (c.cfa + host.tocSave)) r2 =
              memLoc (c.cfa + host.tocSave) := Function.update_self ..
          refine ⟨rfl, rfl, fun r => ?_, fun _ => slot⟩
          by_cases isToc : r = r2
          · exact .inr ⟨atReload, isToc, slot⟩
          · exact .inl (Function.update_of_ne isToc ..)
        next other =>
          refine unchanged fun atReload => other ?_
          exact Option.some.inj (there.symm.trans atReload.2)
      next failed =>
        refine unchanged fun atReload => ?_
        rw [(fetches _).mpr atReload.2] at failed
        cases failed
      next fault _ failed =>
        refine unchanged fun atReload => ?_
        rw [(fetches _).mpr atReload.2] at failed
        cases failed

/-- What the method has left right is right after the tail. -/
theorem Finished.describes {left : Left} (finished : Finished host left.as c c')
    (stackPointer : left.stackPointer = some c.cfa)
    (lookupFlag : left.departure.Describes c.usePrevInstr)
    (unknown : ∀ r, left.unknown r = true → (c.loc r).isNull host.localOnly = true) :
    left.Describes host c' where
  stackPointer := stackPointer.trans (congrArg some finished.cfa.symm)
  lookupFlag := by
    rw [finished.usePrevInstr]
    exact lookupFlag
  unknown r lost := by
    obtain same | toc := finished.loc r
    · rw [same]
      exact .inl (unknown r lost)
    · exact .inr toc
  toc _ := finished.toc

/-! ## The methods -/

theorem sigcontextLoc_r1 (ucontext : Word 64) (old : Fin 115 → Loc 64) :
    sigcontextLoc host ucontext old r1 = memLoc (ucontext + (host.gpRegs + 8)) := by
  rw [← add_assoc]
  rfl

theorem vectorLoc_framePointer (ucontext vRegs : Word 64) (old : Fin 115 → Loc 64) :
    vectorLoc vRegs (sigcontextLoc host ucontext old) framePointer = nullLoc := rfl

theorem vectorLoc_null (old : Fin 115 → Loc 64) {r : Fin 115} (vector : isVector r = true) :
    vectorLoc 0 old r = nullLoc := by
  unfold vectorLoc
  rw [if_pos vector, if_pos rfl]

/-- The step over a trampoline leaves the flag as it is. -/
theorem signalStep_describes (sameOrder : host.localOnly = false → host.bigEndian = as.bigEndian)
    (unset : c.usePrevInstr = false) (moved : (signalStep host as c).1 = .ok true) :
    (leftByTrampoline host as c).Describes host (signalStep host as c).2 := by
  unfold signalStep at moved ⊢
  dsimp only at moved ⊢
  cases sp : (sigcontextLoc host (ucontextAddr c) c.loc r1).get host.localOnly as with
  | error fault =>
      rw [sp] at moved
      cases moved
  | ok cfa =>
      rw [sp] at moved
      cases ip : (sigcontextLoc host (ucontextAddr c) c.loc nip).get host.localOnly as with
      | error fault =>
          rw [ip] at moved
          cases moved
      | ok ip' =>
          rw [ip] at moved
          cases vectors : (memLoc (ucontextAddr c + host.vRegs)).get host.localOnly as with
          | error fault =>
              rw [vectors] at moved
              cases moved
          | ok vRegs =>
              rw [vectors] at moved
              dsimp only at moved ⊢
              refine (stepDone_finished sameOrder moved).describes ?_ ?_ ?_
              · rw [sigcontextLoc_r1] at sp
                change (Except.toOption _) = some cfa
                rw [sp]
                rfl
              · have left : Departure.recognised.Describes false := by decide
                dsimp only
                rw [unset]
                exact left
              · intro r lost
                obtain isFrame | ⟨vector, none⟩ : r = framePointer ∨
                    (isVector r = true ∧ (Except.ok vRegs : Result (Word 64)).toOption = some 0) := by
                  rw [← vectors]
                  simpa [leftByTrampoline] using lost
                · dsimp only
                  rw [isFrame, vectorLoc_framePointer, Loc.isNull_nullLoc]
                · obtain rfl : vRegs = 0 := Option.some.inj none
                  dsimp only
                  rw [vectorLoc_null _ vector, Loc.isNull_nullLoc]

theorem getReg_congr (same : c.SameFrame c') :
    host.target.getReg as c' = host.target.getReg as c := by
  funext reg
  simp only [Target.getReg, Host.target, accessReg, same.loc, same.cfa, same.ip]

theorem evalCfa_congr (same : c.SameFrame c') (budget : Nat) (rs : RegState 115 64) :
    evalCfa host.target as budget c' rs = evalCfa host.target as budget c rs := by
  simp only [evalCfa, evalLocationExpr, exprContext, getReg_congr same, same.loc, same.cfa]

/-- The step by a row of the unwind tables. -/
theorem dwarfStep_finishes (keeps : KeepsFrame host c space)
    (other : unwIsSignalFrame space.as c = false) {more : Bool}
    (stepped : dwarfStep host.target space c = (.ok more, c'))
    (moved : (stepDone host space.as c' more).1 = .ok true) :
    (leaving host c space).Describes host (stepDone host space.as c' more).2 := by
  have steppedBy := dwarfStep_steppedBy host.target space c
  rw [stepped] at steppedBy
  have flag := dwarfStep_describes stepped (keeps.cache other)
  cases steppedBy (.inl ⟨_, rfl⟩) with
  | @applied rs _ _ found applied =>
      have same := space.find_sameFrame host.target c (.inl ⟨_, found⟩)
      have isRow : leaving host c space = leftByRow host c space rs := by
        rw [leaving, if_neg (Bool.eq_false_iff.mp other), stepped, found]
      rw [isRow]
      refine (stepDone_finished keeps.byteOrder moved).describes ?_ flag ?_
      · cases applied with
        | moved staged =>
            rw [leftByRow, ← evalCfa_congr same, staged.base]
            rfl
      · intro r lost
        have noRule : (rs.reg (regColumn r)).how = .undef := by simpa [leftByRow] using lost
        cases applied with
        | moved staged =>
            have own := applyColumns_own (List.nodup_finRange 115) (List.mem_finRange r)
              (by rw [noRule]; decide) staged.columns
            rw [ruleLoc, noRule] at own
            dsimp only
            rw [← Except.ok.inj own, Loc.isNull_nullLoc]

theorem isPltEntry_congr (sameIp : c'.ip = c.ip) : isPltEntry as c' = isPltEntry as c := by
  simp only [isPltEntry, isPltEntryElfv1, pltHalves, sameIp]

/-- The step over a PLT entry leaves the flag as it is. -/
theorem pltStep_describes (same : c.SameFrame c')
    (sameOrder : host.localOnly = false → host.bigEndian = space.as.bigEndian)
    (flag : (tableDeparture host.target c space).Describes c'.usePrevInstr)
    (moved : (pltStep host space.as c').1 = .ok true) :
    (leftByPltEntry host c space).Describes host (pltStep host space.as c').2 := by
  unfold pltStep at moved ⊢
  dsimp only at moved ⊢
  split
  next null =>
    rw [if_pos null, stepDone, if_pos rfl] at moved
    cases moved
  next saved =>
    rw [if_neg saved] at moved
    cases read : (c'.loc lr).get host.localOnly space.as with
    | error fault =>
        rw [read] at moved
        cases moved
    | ok ip =>
        rw [read] at moved
        refine (stepDone_finished sameOrder moved).describes ?_ ?_ ?_
        · exact congrArg some same.cfa.symm
        · exact flag
        · intro r lost
          obtain rfl : r = lr := by simpa [leftByPltEntry] using lost
          dsimp only
          rw [Function.update_self, Loc.isNull_nullLoc]

/-- So does the step along the back chain. -/
theorem backChainStep_describes (same : c.SameFrame c')
    (sameOrder : host.localOnly = false → host.bigEndian = space.as.bigEndian)
    (flag : (tableDeparture host.target c space).Describes c'.usePrevInstr)
    (moved : (backChainStep host space.as c').1 = .ok true) :
    (leftByBackChain host c space).Describes host (backChainStep host space.as c').2 := by
  unfold backChainStep at moved ⊢
  rw [same.cfa] at moved ⊢
  cases chain : (memLoc c.cfa).get host.localOnly space.as with
  | error fault =>
      rw [chain] at moved
      cases moved
  | ok cfa =>
      rw [chain] at moved
      dsimp only at moved ⊢
      split
      next zero =>
        rw [if_pos zero] at moved
        cases moved
      next notZero =>
        rw [if_neg notZero] at moved
        cases saved : (memLoc (cfa + 16)).get host.localOnly space.as with
        | error fault =>
            rw [saved] at moved
            cases moved
        | ok ip =>
            rw [saved] at moved
            refine (stepDone_finished sameOrder moved).describes ?_ ?_ ?_
            · rw [leftByBackChain, chain]
              rfl
            · exact flag
            · intro r _
              exact Loc.isNull_nullLoc _

/-- A step that finds a caller, and keeps the condition, describes its frame. -/
theorem unwStep_describes (moved : (unwStep host c space).1 = .ok true)
    (keeps : KeepsFrame host c space) :
    (leaving host c space).Describes host (unwStep host c space).2 := by
  unfold unwStep at moved ⊢
  cases recognised : unwIsSignalFrame space.as c with
  | true =>
      rw [recognised, if_pos rfl] at moved
      rw [leaving, recognised, if_pos rfl, if_pos rfl]
      exact signalStep_describes keeps.byteOrder (keeps.trampoline recognised) moved
  | false =>
      rw [recognised, if_neg Bool.false_ne_true] at moved
      rw [if_neg Bool.false_ne_true]
      rcases stepped : dwarfStep host.target space c with ⟨fault | more, c₁⟩
      · rw [stepped] at moved
        have failed : (dwarfStep host.target space c).1 = .error fault := congrArg Prod.fst stepped
        split at moved
        next c₁ noinfo =>
          cases noinfo
          obtain ⟨same, flag⟩ := keeps.fallback recognised failed
          have steppedBy := dwarfStep_steppedBy host.target space c
          rw [stepped] at steppedBy
          have set := (steppedBy (.inr ⟨_, rfl⟩)).flag_failed (keeps.cache recognised) flag
          rw [stepped] at same
          have departs : (tableDeparture host.target c space).Describes c₁.usePrevInstr := by
            rw [set]
            exact fallback_describes failed (tableSignalFrame_of_fetchedFlag flag)
          rw [leaving, recognised, if_neg Bool.false_ne_true, stepped]
          dsimp only at moved ⊢
          rw [isPltEntry_congr same.ip] at moved ⊢
          split
          next plt =>
            rw [if_pos plt] at moved
            exact pltStep_describes same keeps.byteOrder departs moved
          next chain =>
            rw [if_neg chain] at moved
            exact backChainStep_describes same keeps.byteOrder departs moved
        next => cases moved
        next c₁ _ impossible => cases impossible
      · rw [stepped] at moved
        exact dwarfStep_finishes keeps recognised stepped moved

/-! ## Runs -/

/-- A cursor, with how its last step has left the frame before, if that step has
    returned a positive value. -/
structure FrameWalker where
  cursor : Ppc64Cursor
  left : Option Left

/-- The runs of `unw_step`, from a cursor that `unw_init_local` or `unw_init_remote` has
    set up, in which every step that finds a caller keeps the condition. -/
def FrameWalk (host : Host) (keeps : Ppc64Cursor → StepSpace 115 64 → Prop) :
    FrameWalker → Prop :=
  Run (fun s => (∃ as before usePrevInstr, host.commonInit as before usePrevInstr = .ok s.cursor) ∧
      s.left = none)
    (fun s space s' =>
      Concludes (unwStep host s.cursor space).1 ∧ s'.cursor = (unwStep host s.cursor space).2 ∧
        s'.left = if (unwStep host s.cursor space).1 = .ok true then
          some (leaving host s.cursor space) else none)
    (fun s space => (unwStep host s.cursor space).1 = .ok true → keeps s.cursor space)

/-- The walk of one step that finds a caller. -/
theorem FrameWalk.single {keeps : Ppc64Cursor → StepSpace 115 64 → Prop} {before : Ppc64Cursor}
    {usePrevInstr : Bool} (initial : host.commonInit as before usePrevInstr = .ok c)
    (kept : keeps c space) (moved : (unwStep host c space).1 = .ok true) :
    FrameWalk host keeps
      { cursor := (unwStep host c space).2, left := some (leaving host c space) } :=
  have start : FrameWalk host keeps { cursor := c, left := none } :=
    .start ⟨⟨as, before, usePrevInstr, initial⟩, rfl⟩
  .step space start (fun _ => kept) ⟨.inl ⟨_, moved⟩, rfl, (if_pos moved).symm⟩

/-- The cursor describes the frame that its last step has found. -/
def FrameWalker.Described (host : Host) (s : FrameWalker) : Prop :=
  ∀ left, s.left = some left → left.Describes host s.cursor

/-- In a walk whose steps all keep the condition, every step that finds a caller leaves
    a cursor that describes one frame. -/
theorem frameWalk_described {s : FrameWalker} (walk : FrameWalk host (KeepsFrame host) s) :
    s.Described host := by
  refine Run.invariant walk ?_ ?_
  · rintro s ⟨-, notLeft⟩ left leaves
    rw [notLeft] at leaves
    cases leaves
  · rintro s space s' - keeps ⟨-, sameCursor, sameLeft⟩ left leaves
    rw [sameLeft] at leaves
    split at leaves
    next moved =>
      cases leaves
      rw [sameCursor]
      exact unwStep_describes moved (keeps moved)
    next => cases leaves

/-! ## A process at a trampoline -/

def remoteHost : Host where
  localOnly := false

/-- A process that is stopped at the trampoline of a signal handler. -/
def atTrampoline : AddrSpace 64 :=
  processOf [(114, 0x402000), (1, 0x7000)]
    [(0x402000, 0x380000ac38210080), (0x402008, 0x44000002), (0x7170, 0x8000),
      (0x7268, 0x401000), (0x73f0, 0)]

/-- A cursor as `common_init_ppc64` leaves it there. -/
def trampolineCursor (usePrevInstr : Bool) : Ppc64Cursor where
  cfa := 0x7000
  ip := 0x402000
  loc r :=
    if r ≤ r31 ∨ (lr ≤ r ∧ r ≤ xer) ∨ (vrsave ≤ r ∧ r ≤ spefscr) ∨ r = nip then
      ⟨BitVec.ofInt 64 r, .reg⟩
    else if r ≤ f31 ∨ (v0 ≤ r ∧ r ≤ v31) then ⟨BitVec.ofInt 64 r, .fpreg⟩
    else nullLoc
  usePrevInstr
  tdep := {}

theorem trampolineCursor_initial (usePrevInstr : Bool) :
    remoteHost.commonInit atTrampoline (trampolineCursor false) usePrevInstr =
      .ok (trampolineCursor usePrevInstr) := by
  have loc : (fun r : Fin 115 =>
      if r ≤ r31 ∨ (lr ≤ r ∧ r ≤ xer) ∨ (vrsave ≤ r ∧ r ≤ spefscr) ∨ r = nip then
        remoteHost.regLoc r
      else if r ≤ f31 ∨ (v0 ≤ r ∧ r ≤ v31) then remoteHost.fpregLoc r
      else (trampolineCursor false).loc r) = (trampolineCursor usePrevInstr).loc := by
    funext r
    dsimp only [trampolineCursor]
    split_ifs <;> rfl
  unfold Host.commonInit
  dsimp only
  rw [loc]
  rfl

theorem trampoline_walk {keeps : Ppc64Cursor → StepSpace 115 64 → Prop} (usePrevInstr : Bool)
    (kept : keeps (trampolineCursor usePrevInstr) (bareSpace atTrampoline)) :
    FrameWalk remoteHost keeps
      { cursor :=
          (unwStep remoteHost (trampolineCursor usePrevInstr) (bareSpace atTrampoline)).2
        left := some (leaving remoteHost (trampolineCursor usePrevInstr)
          (bareSpace atTrampoline)) } := by
  refine FrameWalk.single (trampolineCursor_initial usePrevInstr) kept ?_
  cases usePrevInstr with
  | true => decide
  | false => decide

/-- From `unw_init_local` a signal frame is left with a set flag. -/
theorem frameWalk_not_described :
    ¬ ∀ host s, FrameWalk host (fun _ _ => True) s → s.Described host := by
  intro always
  have flag : Departure.recognised.Describes true :=
    (always _ _ (trampoline_walk true trivial) _ rfl).lookupFlag
  exact absurd flag (by decide)

/-- From `unw_init_remote` it is left with an unset one. -/
theorem trampoline_described :
    (leaving remoteHost (trampolineCursor false) (bareSpace atTrampoline)).Describes remoteHost
      (unwStep remoteHost (trampolineCursor false) (bareSpace atTrampoline)).2 := by
  have kept : KeepsFrame remoteHost (trampolineCursor false) (bareSpace atTrampoline) :=
    ⟨fun _ => rfl, fun _ => bareSpace_cacheAgrees _, fun other => absurd other (by decide),
      fun _ => rfl⟩
  exact frameWalk_described (trampoline_walk false kept) _ rfl

end Libunwind.Ppc64
