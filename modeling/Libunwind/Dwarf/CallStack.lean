import Libunwind.Dwarf.CacheTransparency
import Libunwind.Dwarf.Step

/-! # The call stack

What unwind info says about a stack, as a relation of each frame to its caller: in the values of the
registers alone, without locations or cursors. A step of `dwarf_step` leads from a cursor that shows a
frame to one that shows its caller.
-/

namespace Libunwind.Dwarf

variable {n w : ℕ} {τ : Type}

/-! ## Frames and rows -/

/-- A frame: what is known of its registers. One that was saved nowhere is none; one that was saved may
    be unreadable. -/
structure Activation (n w : ℕ) where
  ip : Word w
  cfa : Word w
  usePrevInstr : Bool
  regs : Fin n → Option (Result (Word w))

/-- What there is at a location. -/
def Loc.shown (localOnly : Bool) (as : AddrSpace w) (loc : Loc w) : Option (Result (Word w)) :=
  if loc.isNull localOnly then none else some (loc.get localOnly as)

@[simp] theorem Loc.isNone_shown (localOnly : Bool) (as : AddrSpace w) (loc : Loc w) :
    (loc.shown localOnly as).isNone = loc.isNull localOnly := by
  rw [shown]
  split <;> simp [*]

/-- What reading a register of a frame comes to. -/
def readShown : Option (Result (Word w)) → Result (Word w)
  | none => .error (.err .badreg)
  | some saved => saved

@[simp] theorem Loc.readShown_shown (localOnly : Bool) (as : AddrSpace w) (loc : Loc w) :
    readShown (loc.shown localOnly as) = loc.get localOnly as := by
  rw [shown]
  cases null : loc.isNull localOnly with
  | true =>
      rw [Loc.get, null]
      rfl
  | false => rfl

/-- The frame that a cursor is at. -/
def Cursor.activation (localOnly : Bool) (as : AddrSpace w) (c : Cursor n w τ) : Activation n w where
  ip := c.ip
  cfa := c.cfa
  usePrevInstr := c.usePrevInstr
  regs r := (c.loc r).shown localOnly as

/-- The cursor shows the registers of the frame, and none of them has been set since. -/
structure Cursor.Shows (localOnly : Bool) (as : AddrSpace w) (c : Cursor n w τ)
    (a : Activation n w) : Prop where
  ip : c.ip = a.ip
  cfa : c.cfa = a.cfa
  regs : ∀ r, (c.loc r).shown localOnly as = a.regs r
  ehArgs : c.ehArgs = fun _ => none

/-- The next step is made for the frame. -/
structure Cursor.IsAt (localOnly : Bool) (as : AddrSpace w) (c : Cursor n w τ)
    (a : Activation n w) : Prop extends c.Shows localOnly as a where
  usePrevInstr : c.usePrevInstr = a.usePrevInstr

/-- How a port reads the registers of a frame. -/
structure View (t : Target n w τ) (as : AddrSpace w) where
  getReg : Activation n w → Int → Result (Word w)
  strip : Word w → Word w
  getReg_eq {c : Cursor n w τ} {a : Activation n w} :
    c.Shows t.localOnly as a → t.getReg as c = getReg a
  strip_eq (c : Cursor n w τ) : t.stripPtrauth c = strip

/-- The row of the instruction that an address is looked up by, and whether its frame is one of a
    signal. -/
def UnwindTables.rowAt (t : Target n w τ) (tables : UnwindTables n w) (ip : Word w)
    (usePrevInstr : Bool) : Result (RegState n w × Bool) :=
  match tables.search (tables.searchIp ip usePrevInstr) with
  | (.error code, _) => .error (.err code)
  | (.ok (), pi, _) =>
      if tables.accepts pi.format then
        match pi.unwindInfo with
        | none => .error .undefined
        | some dci => do
            let sr ← createStateRecordFor (tables.context t.cfi) tables.budget pi ip usePrevInstr
            pure (sr.rsCurrent, dci.signalFrame)
      else .error (.err .noinfo)

section Caller

variable (t : Target n w τ) {as : AddrSpace w} (view : View t as) (budget : ℕ) (a : Activation n w)

/-- Where an expression leads to. -/
def Activation.location (stackVal addr : Word w) : Result (Loc w) := do
  let (len, addr) ← readUleb128 as addr
  let context : ExprContext w := { as, toUnwRegnum := t.toUnwRegnum, getReg := view.getReg a }
  let value ← evalExpr context budget stackVal addr len
  if value.isRegister then
    let regnum ← t.toUnwRegnum value.val.toNat
    pure (t.regLoc regnum)
  else pure (memLoc value.val)

/-- The CFA of the caller -/
def Activation.callerCfa (rs : RegState n w) : Result (Word w) :=
  let rule := rs.reg (cfaRegColumn n)
  match rule.how with
  | .reg => do
      let base ←
        if rule.val = BitVec.ofNat w t.cfi.sp ∧ (a.regs t.cfi.sp).isNone then pure a.cfa
        else do
          let regnum ← t.toUnwRegnum (rule.val.setWidth 32).toInt
          view.getReg a regnum
      pure (base + (rs.reg (cfaOffColumn n)).val)
  | .expr => do
      let loc ← a.location t view budget 0 rule.val
      if loc.isReg then .error (.err .badframe) else pure loc.val
  | _ => .error .undefined

/-- A register of the caller -/
def Activation.callerReg (cfa : Word w) (rs : RegState n w) (r : Fin n) :
    Result (Option (Result (Word w))) :=
  let rule := rs.reg (regColumn r)
  let shown := Loc.shown t.localOnly as
  match rule.how with
  | .undef => pure none
  | .same => pure (a.regs r)
  | .reg =>
      match t.fpregLoc rule.val with
      | some loc => pure (shown loc)
      | none =>
          if valid : rule.val.toNat < n then pure (a.regs ⟨rule.val.toNat, valid⟩)
          else .error .undefined
  | .cfa => pure (shown (t.valLoc cfa))
  | .cfarel => pure (shown (memLoc (cfa + rule.val)))
  | .expr => do
      let loc ← a.location t view budget cfa rule.val
      pure (shown loc)
  | .valExpr => do
      let loc ← a.location t view budget cfa rule.val
      pure (shown (t.valLoc loc.val))

/-- The return address to a caller, out of the column for it. A frame without one is the outermost. -/
def Activation.returnAddress (caller : Activation n w) (rs : RegState n w) (ra : Fin n) :
    Result (Word w) :=
  match caller.regs ra with
  | none => pure 0
  | some saved => do
      let ip ← saved
      match t.cfi.windowSave with
      | .aarch64 r => pure (if (rs.reg (regColumn r)).val ≠ 0 then view.strip ip else ip)
      | _ => pure ip

/-- No register is saved in one before it, unless that one is kept. -/
def Orderly (rs : RegState n w) : Prop :=
  ∀ i r, SavedIn t rs i r → r < i → (rs.reg (regColumn r)).how = .same

/-- The second frame is the caller of the first, by the unwind info for the first. -/
structure CalledBy (tables : UnwindTables n w) (caller : Activation n w) : Prop where
  byRow : ∃ rs signalFrame ra, tables.rowAt t a.ip a.usePrevInstr = .ok (rs, signalFrame) ∧
    Orderly t rs ∧ rs.retAddrColumn.toNat = ra.val ∧
    caller.usePrevInstr = !signalFrame ∧ a.callerCfa t view budget rs = .ok caller.cfa ∧
    (∀ r, a.callerReg t view budget caller.cfa rs r = .ok (caller.regs r)) ∧
    caller.returnAddress t view rs ra = .ok caller.ip
  moves : caller.ip ≠ a.ip ∨ caller.cfa ≠ a.cfa

/-- The frames above a frame, up to the outermost. -/
inductive CallChain (tables : UnwindTables n w) : Activation n w → List (Activation n w) → Prop where
  | outermost {a b : Activation n w} :
      CalledBy t view budget a tables b → b.ip = 0 → CallChain tables a []
  | call {a b : Activation n w} {above : List (Activation n w)} :
      CalledBy t view budget a tables b → b.ip ≠ 0 → CallChain tables b above →
      CallChain tables a (b :: above)

end Caller

/-! ## A step -/

section Step

variable {t : Target n w τ} {as : AddrSpace w} {view : View t as} {budget : ℕ} {a b : Activation n w}
  {c : Cursor n w τ} {rs : RegState n w} {tables : UnwindTables n w}

theorem Cursor.isAt_activation (ehArgs : c.ehArgs = fun _ => none) :
    c.IsAt t.localOnly as (c.activation t.localOnly as) :=
  ⟨⟨rfl, rfl, fun _ => rfl, ehArgs⟩, rfl⟩

variable (view budget) in
theorem evalLocationExpr_of_shows (shows : c.Shows t.localOnly as a) :
    evalLocationExpr t as budget c = a.location t view budget := by
  funext stackVal addr
  unfold evalLocationExpr exprContext Activation.location
  rw [view.getReg_eq shows]

variable (view budget) in
theorem evalCfa_of_shows (shows : c.Shows t.localOnly as a) :
    evalCfa t as budget c rs = a.callerCfa t view budget rs := by
  have null : (a.regs t.cfi.sp).isNone = (c.loc t.cfi.sp).isNull t.localOnly := by
    rw [← shows.regs, Loc.isNone_shown]
  unfold evalCfa Activation.callerCfa
  have location := evalLocationExpr_of_shows view budget shows
  simp only [location, view.getReg_eq shows, null, shows.cfa] <;> rfl

/-- What a rule alone says is shown where it says so. -/
theorem callerReg_of_shows (shows : c.Shows t.localOnly as a) (cfa : Word w) (r : Fin n) :
    a.callerReg t view budget cfa rs r =
      simultaneousLoc t as budget c cfa rs r >>= fun loc => pure (loc.shown t.localOnly as) := by
  have location := evalLocationExpr_of_shows view budget shows
  unfold Activation.callerReg simultaneousLoc
  cases how : (rs.reg (regColumn r)).how with
  | undef =>
      simp [ruleLoc, how, Loc.shown]
  | same => simp [ruleLoc, how, shows.regs]
  | cfa => simp [ruleLoc, how]
  | cfarel => simp [ruleLoc, how]
  | expr => simp [ruleLoc, how, location]
  | valExpr => simp [ruleLoc, how, location]
  | reg =>
      simp only [how, if_true, regRuleLoc, ← shows.regs]
      cases t.fpregLoc (rs.reg (regColumn r)).val with
      | some loc => rfl
      | none =>
          dsimp only
          split <;> rfl

variable (view) in
theorem returnAddress_of_shows {ra : Fin n} (shown : (c.loc ra).shown t.localOnly as = b.regs ra) :
    returnAddress t as c rs ra = b.returnAddress t view rs ra := by
  unfold returnAddress Activation.returnAddress
  rw [← shown]
  simp only [Loc.shown, view.strip_eq]
  cases null : (c.loc ra).isNull t.localOnly with
  | true => rfl
  | false => rfl

/-- The locations that a row of an orderly frame gives show the registers of the caller. -/
theorem applyColumns_of_shows (shows : c.Shows t.localOnly as a) {cfa : Word w}
    (orderly : Orderly t rs) (regs : ∀ r, a.callerReg t view budget cfa rs r = .ok (b.regs r)) :
    ∃ newLoc, applyColumns t as budget c cfa rs (List.finRange n) = .ok newLoc ∧
      ∀ r, (newLoc r).shown t.localOnly as = b.regs r := by
  have each (r : Fin n) : ∃ loc, simultaneousLoc t as budget c cfa rs r = .ok loc ∧
      loc.shown t.localOnly as = b.regs r := by
    obtain ⟨loc, rule, shown⟩ := bind_eq_ok.mp ((callerReg_of_shows shows cfa r).symm.trans (regs r))
    exact ⟨loc, rule, Except.ok.inj shown⟩
  choose meant rules shown using each
  refine ⟨meant, ?_, shown⟩
  rw [applyColumns_eq _ rules]
  refine congrArg Except.ok (((InPlace.sequential_eq_iff (List.nodup_finRange n)
    List.mem_finRange).mpr fun i r copies before => ?_).trans (simultaneous_columnSource rules))
  have less := before_finRange.mp before
  rw [simultaneous_columnSource rules]
  rcases (columnSource_copy t).mp copies with ⟨-, rfl⟩ | saved
  · exact absurd less (lt_irrefl _)
  · have same := rules r
    rw [simultaneousLoc, orderly i r saved less, if_neg (by decide), ruleLoc,
      orderly i r saved less] at same
    exact (Except.ok.inj same).symm

theorem computeState_of_rowAt {signalFrame : Bool}
    (isRow : tables.rowAt t c.ip c.usePrevInstr = .ok (rs, signalFrame)) :
    (computeState t tables c).1 = .ok rs ∧
      (computeState t tables c).2.usePrevInstr = !signalFrame := by
  unfold UnwindTables.rowAt at isRow
  split at isRow
  · cases isRow
  · next pi dynamic searched =>
      split at isRow
      next accepted =>
        split at isRow
        · cases isRow
        · next dci isInfo =>
            obtain ⟨sr, created, isRow⟩ := bind_eq_ok.mp isRow
            cases isRow
            have fetched : fetchProcInfo t tables c =
                let c := { c with pi, piValid := true, piIsDynamic := dynamic }
                (.ok (), { c with tdep := t.fetchFrame c }) := by
              rw [fetchProcInfo, searched]
              exact if_pos accepted
            simp only [computeState, fetched, isInfo, created, nextUsePrevInstr]
            exact ⟨rfl, trivial⟩
      next => cases isRow

/-- The steps in this space are made by these tables: where these have a row, it is the one that is
    used. -/
structure StepSpace.Follows (t : Target n w τ) (as : AddrSpace w) (tables : UnwindTables n w)
    (budget : ℕ) (space : StepSpace n w) : Prop where
  as : space.as = as
  budget : space.budget = budget
  finds {c : Cursor n w τ} {rs : RegState n w} {signalFrame : Bool} :
    tables.rowAt t c.ip c.usePrevInstr = .ok (rs, signalFrame) →
    (space.find t c).result = .ok rs ∧ (space.find t c).cursor.usePrevInstr = !signalFrame

theorem StepSpace.follows_of_uncached (t : Target n w τ) (space : StepSpace n w)
    (uncached : space.policy = .none) : space.Follows t space.as space.tables space.budget where
  as := rfl
  budget := rfl
  finds {c rs signalFrame} isRow := by
    obtain ⟨isState, signal⟩ := computeState_of_rowAt isRow
    rcases computed : computeState t space.tables c with ⟨result, c'⟩
    rw [computed] at isState signal
    cases isState
    simp only [StepSpace.find, findRegState, getRsCache, uncached, if_true, Bool.false_eq_true,
      if_false, computed]
    exact ⟨rfl, signal⟩

/-- A cache that is transparent does not matter where it serves. -/
theorem StepSpace.follows_of_transparent {space : StepSpace n w}
    (transparent : ∀ c, Transparent t space.tables c (space.find t c))
    (served : ∀ c rs, (computeState t space.tables c).1 = .ok rs →
      ∃ rs, (space.find t c).result = .ok rs) :
    space.Follows t space.as space.tables space.budget where
  as := rfl
  budget := rfl
  finds {c rs signalFrame} isRow := by
    obtain ⟨isState, signal⟩ := computeState_of_rowAt isRow
    obtain ⟨rs', found⟩ := served c rs isState
    obtain ⟨same, use⟩ := transparent c rs' found c rfl rfl
    cases isState.symm.trans same
    exact ⟨found, use.symm.trans signal⟩

/-- A step leads from a cursor at a frame to one at its caller. -/
theorem dwarfStep_of_calledBy {space : StepSpace n w} (follows : space.Follows t as tables budget)
    (isAt : c.IsAt t.localOnly as a) (called : CalledBy t view budget a tables b) :
    ∃ c', dwarfStep t space c = (.ok (decide (b.ip ≠ 0)), c') ∧ c'.IsAt t.localOnly as b := by
  obtain ⟨⟨rs, signalFrame, ra, isRow, orderly, column, usePrevInstr, base, regs, returns⟩, moves⟩ :=
    called
  rw [← isAt.ip, ← isAt.usePrevInstr] at isRow
  obtain ⟨found, signal⟩ := follows.finds isRow
  have same := space.find_sameFrame t c (.inl ⟨rs, found⟩)
  have stepped : dwarfStep t space c = applyRegState t as budget (space.find t c).cursor rs := by
    simp only [dwarfStep, found, follows.as, follows.budget]
  generalize (space.find t c).cursor = d at same signal stepped
  have shows : d.Shows t.localOnly as a :=
    ⟨same.ip.trans isAt.ip, same.cfa.trans isAt.cfa, fun r => by rw [same.loc]; exact isAt.regs r,
      same.ehArgs.trans isAt.ehArgs⟩
  rw [← evalCfa_of_shows view budget shows] at base
  obtain ⟨newLoc, columns, shown⟩ := applyColumns_of_shows shows orderly regs
  have staged : Staged t as budget d rs ra b.cfa newLoc := ⟨column, base, columns⟩
  have address : returnAddress t as { d with loc := newLoc, cfa := b.cfa } rs ra = .ok b.ip := by
    rw [returnAddress_of_shows view (shown ra), returns]
  have moves : ¬ (b.ip = d.ip ∧ b.cfa = d.cfa) := by
    rw [shows.ip, shows.cfa]
    exact not_and_or.mpr moves
  rw [stepped, staged.applyRegState_eq, finishStep, address]
  simp only [if_neg moves]
  refine ⟨_, rfl, ?_⟩
  have use : d.usePrevInstr = b.usePrevInstr := signal.trans usePrevInstr.symm
  split
  · exact ⟨⟨rfl, rfl, shown, shows.ehArgs⟩, use⟩
  · exact ⟨⟨rfl, rfl, shown, shows.ehArgs⟩, use⟩

end Step

/-! ## Walks -/

section Walks

/-- The cursors that steps lead to, up to one that ends the chain. -/
inductive Walks (step : ℕ → Cursor n w τ → Result Bool × Cursor n w τ) :
    ℕ → Cursor n w τ → List (Cursor n w τ) → Prop where
  | ended {depth : ℕ} {c c' : Cursor n w τ} : step depth c = (.ok false, c') → Walks step depth c []
  | step {depth : ℕ} {c c' : Cursor n w τ} {rest : List (Cursor n w τ)} :
      step depth c = (.ok true, c') → Walks step (depth + 1) c' rest →
      Walks step depth c (c' :: rest)

variable {t : Target n w τ} {as : AddrSpace w} {view : View t as} {budget : ℕ} {a : Activation n w}
  {c : Cursor n w τ} {tables : UnwindTables n w} {chain : List (Activation n w)}
  {step : ℕ → Cursor n w τ → Result Bool × Cursor n w τ}

/-- If each step leads to the caller, a walk comes to all the frames of the chain. -/
theorem walks_of_callChain
    (steps : ∀ depth c a b, c.IsAt t.localOnly as a → CalledBy t view budget a tables b →
      ∃ c', step depth c = (.ok (decide (b.ip ≠ 0)), c') ∧ c'.IsAt t.localOnly as b)
    (isAt : c.IsAt t.localOnly as a) (isChain : CallChain t view budget tables a chain)
    (depth : ℕ) :
    ∃ cursors, Walks step depth c cursors ∧
      List.Forall₂ (fun c a => c.IsAt t.localOnly as a) cursors chain := by
  induction isChain generalizing depth c with
  | @outermost a b called ends =>
      obtain ⟨c', stepped, -⟩ := steps depth c a b isAt called
      rw [decide_eq_false (not_not.mpr ends)] at stepped
      exact ⟨[], .ended stepped, .nil⟩
  | @call a b above called goesOn _ ih =>
      obtain ⟨c', stepped, isAt'⟩ := steps depth c a b isAt called
      rw [decide_eq_true goesOn] at stepped
      obtain ⟨cursors, walks, each⟩ := ih isAt' (depth + 1)
      exact ⟨c' :: cursors, .step stepped walks, .cons isAt' each⟩

end Walks

end Libunwind.Dwarf
