import Libunwind.Library.InPlace
import Libunwind.Dwarf.Cursor
import Libunwind.Dwarf.Expr

/-! # Applying a register state

`apply_reg_state` moves a cursor to the caller's frame. It evaluates the CFA,
stages the new locations column by column in a copy, commits them, and reads
the return address.
-/

namespace Libunwind.Dwarf

variable {n w : Nat} {τ : Type}

section Source

variable (t : Target n w τ) (as : AddrSpace w) (budget : Nat) (c : Cursor n w τ)

def exprContext : ExprContext w where
  as := as
  toUnwRegnum := t.toUnwRegnum
  getReg := t.getReg as c

/-- `eval_location_expr`. -/
def evalLocationExpr (stackVal addr : Word w) : Result (Loc w) := do
  let (len, addr) ← readUleb128 as addr
  let value ← evalExpr (exprContext t as c) budget stackVal addr len
  if value.isRegister then
    let regnum ← t.toUnwRegnum value.val.toNat
    pure (t.regLoc regnum)
  else pure (memLoc value.val)

/-- The CFA that a register state describes. -/
def evalCfa (rs : RegState n w) : Result (Word w) :=
  let rule := rs.reg (cfaRegColumn n)
  match rule.how with
  | .reg => do
      -- popping the CFA implicitly pops a stack pointer that was not saved
      let base ←
        if rule.val = BitVec.ofNat w t.cfi.sp ∧ (c.loc t.cfi.sp).isNull t.localOnly then pure c.cfa
        else do
          let regnum ← t.toUnwRegnum (rule.val.setWidth 32).toInt
          t.getReg as c regnum
      pure (base + (rs.reg (cfaOffColumn n)).val)
  | .expr => do
      let loc ← evalLocationExpr t as budget c 0 rule.val
      if loc.isReg then .error (.err .badframe) else pure loc.val
  | _ => .error .undefined

/-- The new location of a column whose rule does not name another register. -/
def ruleLoc (cfa : Word w) (rule : Rule w) (old : Loc w) : Result (Loc w) :=
  match rule.how with
  | .undef => pure nullLoc
  | .same | .reg => pure old
  | .cfa => pure (t.valLoc cfa)
  | .cfarel => pure (memLoc (cfa + rule.val))
  | .expr => evalLocationExpr t as budget c cfa rule.val
  | .valExpr => do
      let loc ← evalLocationExpr t as budget c cfa rule.val
      pure (t.valLoc loc.val)

/-- The location that `DWARF_WHERE_REG` copies, out of the given ones. -/
def regRuleLoc (rule : Rule w) (locs : Fin n → Loc w) : Result (Loc w) :=
  match t.fpregLoc rule.val with
  | some loc => pure loc
  | none =>
      if valid : rule.val.toNat < n then pure (locs ⟨rule.val.toNat, valid⟩)
      else .error .undefined

/-- The loop's body: stages the new location of column `i`. A register saved in
    another one is looked up among the staged locations. -/
def applyColumn (cfa : Word w) (rs : RegState n w) (newLoc : Fin n → Loc w) (i : Fin n) :
    Result (Fin n → Loc w) := do
  let rule := rs.reg (regColumn i)
  let loc ←
    if rule.how = .reg then regRuleLoc t rule newLoc else ruleLoc t as budget c cfa rule (newLoc i)
  pure (Function.update newLoc i loc)

/-- The loop over the columns, in the given order. -/
def applyColumns (cfa : Word w) (rs : RegState n w) (order : List (Fin n)) :
    Result (Fin n → Loc w) :=
  order.foldlM (applyColumn t as budget c cfa rs) c.loc

/-- The return address that a register state with the column `ra` leads to. -/
def returnAddress (c : Cursor n w τ) (rs : RegState n w) (ra : Fin n) : Result (Word w) :=
  if (c.loc ra).isNull t.localOnly then pure 0
  else do
    let ip ← (c.loc ra).get t.localOnly as
    match t.cfi.windowSave with
    | .aarch64 r => pure (if (rs.reg (regColumn r)).val ≠ 0 then t.stripPtrauth c ip else ip)
    | _ => pure ip

/-- What follows the commit of the new locations and the new CFA. -/
def finishStep (prevIp prevCfa : Word w) (rs : RegState n w) (ra : Fin n) (c : Cursor n w τ) :
    Result Bool × Cursor n w τ :=
  match returnAddress t as c rs ra with
  | .error f => (.error f, c)
  | .ok ip =>
      let c := { c with ip }
      if c.ip = prevIp ∧ c.cfa = prevCfa then (.error (.err .badframe), c)
      else (.ok (c.ip ≠ 0), if c.stashFrames then { c with tdep := t.stashFrame as c rs } else c)

/-- `apply_reg_state`, with the cursor that it leaves. -/
def applyRegState (rs : RegState n w) : Result Bool × Cursor n w τ :=
  if inRange : rs.retAddrColumn.toNat < n then
    match evalCfa t as budget c rs with
    | .error f => (.error f, c)
    | .ok cfa =>
        match applyColumns t as budget c cfa rs (List.finRange n) with
        | .error f => (.error f, c)
        | .ok newLoc =>
            finishStep t as c.ip c.cfa rs ⟨rs.retAddrColumn.toNat, inRange⟩
              { c with loc := newLoc, cfa }
  else (.error (.err .badframe), c)

end Source

/-! ## Staging -/

section Staging

variable {t : Target n w τ} {as : AddrSpace w} {budget : Nat} {c : Cursor n w τ} {cfa : Word w}
  {rs : RegState n w} {order : List (Fin n)} {start newLoc : Fin n → Loc w} {i : Fin n}

theorem applyColumn_update (staged : applyColumn t as budget c cfa rs start i = .ok newLoc) :
    ∃ loc, newLoc = Function.update start i loc ∧ ((rs.reg (regColumn i)).how ≠ .reg →
      ruleLoc t as budget c cfa (rs.reg (regColumn i)) (start i) = .ok loc) := by
  rw [applyColumn] at staged
  split at staged
  · next isReg =>
      obtain ⟨loc, rule, updated⟩ := bind_eq_ok.mp staged
      exact ⟨loc, (Except.ok.inj updated).symm, fun own => absurd isReg own⟩
  · obtain ⟨loc, rule, updated⟩ := bind_eq_ok.mp staged
    exact ⟨loc, (Except.ok.inj updated).symm, fun _ => rule⟩

theorem foldlM_column_other (absent : i ∉ order)
    (staged : order.foldlM (applyColumn t as budget c cfa rs) start = .ok newLoc) :
    newLoc i = start i := by
  induction order generalizing start with
  | nil => rw [← Except.ok.inj staged]
  | cons j rest ih =>
      rw [List.foldlM_cons] at staged
      obtain ⟨next, column, later⟩ := bind_eq_ok.mp staged
      obtain ⟨loc, rfl, -⟩ := applyColumn_update column
      rw [ih (List.not_mem_of_not_mem_cons absent) later]
      exact Function.update_of_ne (List.ne_of_not_mem_cons absent) _ _

/-- A rule that names no other register sees the old location only. -/
theorem applyColumns_own (nodup : order.Nodup) (member : i ∈ order)
    (own : (rs.reg (regColumn i)).how ≠ .reg)
    (staged : applyColumns t as budget c cfa rs order = .ok newLoc) :
    ruleLoc t as budget c cfa (rs.reg (regColumn i)) (c.loc i) = .ok (newLoc i) := by
  obtain ⟨before, after, rfl⟩ := List.append_of_mem member
  have absent : i ∉ before := fun early =>
    List.disjoint_of_nodup_append nodup early List.mem_cons_self
  have once : i ∉ after := (List.nodup_cons.mp (List.Nodup.of_append_right nodup)).1
  rw [applyColumns, List.foldlM_append] at staged
  obtain ⟨early, first, staged⟩ := bind_eq_ok.mp staged
  rw [List.foldlM_cons] at staged
  obtain ⟨next, column, last⟩ := bind_eq_ok.mp staged
  obtain ⟨loc, rfl, rule⟩ := applyColumn_update column
  rw [foldlM_column_other once last, Function.update_self, ← foldlM_column_other absent first]
  exact rule own

end Staging

/-! ## Simultaneous substitution -/

section Simultaneous

variable (t : Target n w τ) (as : AddrSpace w) (budget : Nat) (c : Cursor n w τ)

/-- The location that a rule alone gives a register: a function of the old
    locations, the new CFA and the rule. -/
def simultaneousLoc (cfa : Word w) (rs : RegState n w) (i : Fin n) : Result (Loc w) :=
  let rule := rs.reg (regColumn i)
  if rule.how = .reg then regRuleLoc t rule c.loc else ruleLoc t as budget c cfa rule (c.loc i)

/-- Register `i` is saved in register `r`. -/
def SavedIn (rs : RegState n w) (i r : Fin n) : Prop :=
  (rs.reg (regColumn i)).how = .reg ∧ t.fpregLoc (rs.reg (regColumn i)).val = none ∧
    (rs.reg (regColumn i)).val.toNat = r

/-- A column as part of an assignment; `meant` has the locations of the rules
    that do not copy. -/
def columnSource (rs : RegState n w) (meant : Fin n → Loc w) (i : Fin n) :
    InPlace.Source (Fin n) (Loc w) :=
  let rule := rs.reg (regColumn i)
  match rule.how with
  | .same => .copy i
  | .reg =>
      match t.fpregLoc rule.val with
      | some loc => .value loc
      | none =>
          if valid : rule.val.toNat < n then .copy ⟨rule.val.toNat, valid⟩ else .value (meant i)
  | _ => .value (meant i)

theorem columnSource_copy {rs : RegState n w} {meant : Fin n → Loc w} {i r} :
    columnSource t rs meant i = .copy r ↔
      ((rs.reg (regColumn i)).how = .same ∧ i = r) ∨ SavedIn t rs i r := by
  rw [columnSource, SavedIn]
  cases how : (rs.reg (regColumn i)).how with
  | reg =>
      cases fpreg : t.fpregLoc (rs.reg (regColumn i)).val with
      | some loc => simp
      | none =>
          by_cases valid : (rs.reg (regColumn i)).val.toNat < n
          · simp [valid, Fin.ext_iff]
          · simp only [valid, dite_false, reduceCtorEq, false_and, true_and, false_or, false_iff]
            intro same
            exact valid (same ▸ r.isLt)
  | same => simp
  | undef => simp
  | cfarel => simp
  | expr => simp
  | valExpr => simp
  | cfa => simp

theorem before_finRange {r i : Fin n} : InPlace.Before (List.finRange n) r i ↔ r < i := by
  have sorted : (List.finRange n).Pairwise (· < ·) := List.pairwise_lt_finRange n
  constructor
  · rintro ⟨before, after, split, member⟩
    rw [split] at sorted
    exact (List.pairwise_append.mp sorted).2.2 r member i List.mem_cons_self
  · intro less
    obtain ⟨before, after, split⟩ := List.append_of_mem (List.mem_finRange i)
    refine ⟨before, after, split, ?_⟩
    rw [split] at sorted
    have inside : r ∈ before ++ i :: after := split ▸ List.mem_finRange r
    rcases List.mem_append.mp inside with early | late
    · exact early
    · rcases List.mem_cons.mp late with rfl | late
      · exact absurd less (lt_irrefl _)
      · have greater := (List.pairwise_cons.mp (List.pairwise_append.mp sorted).2.1).1 r late
        exact absurd less (not_lt_of_gt greater)

variable {t as budget c} {cfa : Word w} {rs : RegState n w} {meant : Fin n → Loc w}

theorem columnSource_fetch {i} (rule : simultaneousLoc t as budget c cfa rs i = .ok (meant i)) :
    (columnSource t rs meant i).fetch c.loc = meant i := by
  rw [simultaneousLoc] at rule
  rw [columnSource]
  cases how : (rs.reg (regColumn i)).how with
  | reg =>
      simp only [how, if_true, regRuleLoc] at rule
      cases fpreg : t.fpregLoc (rs.reg (regColumn i)).val with
      | some loc =>
          rw [fpreg] at rule
          exact Except.ok.inj rule
      | none =>
          rw [fpreg] at rule
          by_cases valid : (rs.reg (regColumn i)).val.toNat < n
          · simp only [valid, dite_true] at rule ⊢
            exact Except.ok.inj rule
          · simp [valid] at rule
  | same =>
      simp only [how, ruleLoc] at rule
      exact Except.ok.inj rule
  | undef => rfl
  | cfarel => rfl
  | expr => rfl
  | valExpr => rfl
  | cfa => rfl

/-- A column whose rule evaluates is one step of the assignment. -/
theorem applyColumn_eq {i} (newLoc : Fin n → Loc w)
    (rule : simultaneousLoc t as budget c cfa rs i = .ok (meant i)) :
    applyColumn t as budget c cfa rs newLoc i =
      .ok (Function.update newLoc i ((columnSource t rs meant i).fetch newLoc)) := by
  rw [simultaneousLoc] at rule
  rw [applyColumn, columnSource]
  cases how : (rs.reg (regColumn i)).how with
  | reg =>
      simp only [how, if_true, regRuleLoc] at rule ⊢
      cases fpreg : t.fpregLoc (rs.reg (regColumn i)).val with
      | some loc => rfl
      | none =>
          rw [fpreg] at rule
          by_cases valid : (rs.reg (regColumn i)).val.toNat < n
          · simp only [valid, dite_true]
            rfl
          · simp [valid] at rule
  | same =>
      simp only [how, ruleLoc]
      rfl
  | undef | cfarel | expr | valExpr | cfa =>
      simp only [how, reduceCtorEq, if_false, ruleLoc] at rule ⊢
      rw [rule]
      rfl

theorem applyColumns_eq (order : List (Fin n))
    (rules : ∀ i, simultaneousLoc t as budget c cfa rs i = .ok (meant i)) :
    applyColumns t as budget c cfa rs order =
      .ok (InPlace.sequential (columnSource t rs meant) order c.loc) := by
  have whole (newLoc : Fin n → Loc w) :
      order.foldlM (applyColumn t as budget c cfa rs) newLoc =
        .ok (InPlace.sequential (columnSource t rs meant) order newLoc) := by
    induction order generalizing newLoc with
    | nil => rfl
    | cons i rest ih =>
        rw [List.foldlM_cons, applyColumn_eq newLoc (rules i), ok_bind, ih]
        rfl
  exact whole c.loc

theorem simultaneous_columnSource
    (rules : ∀ i, simultaneousLoc t as budget c cfa rs i = .ok (meant i)) :
    InPlace.simultaneous (columnSource t rs meant) c.loc = meant :=
  funext fun i => columnSource_fetch (rules i)

theorem finishStep_loc (prevIp prevCfa : Word w) (rs : RegState n w) (ra : Fin n)
    (c : Cursor n w τ) : (finishStep t as prevIp prevCfa rs ra c).2.loc = c.loc := by
  rw [finishStep]
  cases returnAddress t as c rs ra with
  | error f => rfl
  | ok ip =>
      dsimp only
      split
      · rfl
      · split <;> rfl

/-- `apply_reg_state` gives every register the location that its rule alone says
    exactly when no register is saved in one that comes before it and moves. No
    order of the columns matters exactly when none is saved in one that moves. -/
theorem applyRegState_simultaneous_iff (t : Target n w τ) (as : AddrSpace w) (budget : Nat)
    (c : Cursor n w τ) (rs : RegState n w) {cfa : Word w} {meant : Fin n → Loc w}
    (inRange : rs.retAddrColumn.toNat < n)
    (base : evalCfa t as budget c rs = .ok cfa)
    (rules : ∀ i, simultaneousLoc t as budget c cfa rs i = .ok (meant i)) :
    ((applyRegState t as budget c rs).2.loc = meant ↔
      ∀ i r, SavedIn t rs i r → r < i → meant r = c.loc r) ∧
    ((∀ order, order.Perm (List.finRange n) →
        applyColumns t as budget c cfa rs order = .ok meant) ↔
      ∀ i r, SavedIn t rs i r → r ≠ i → meant r = c.loc r) := by
  have all : InPlace.simultaneous (columnSource t rs meant) c.loc = meant :=
    simultaneous_columnSource rules
  have nodup := List.nodup_finRange n
  have complete : ∀ i, i ∈ List.finRange n := List.mem_finRange
  constructor
  · have committed : (applyRegState t as budget c rs).2.loc =
        InPlace.sequential (columnSource t rs meant) (List.finRange n) c.loc := by
      rw [applyRegState, dif_pos inRange, base]
      simp only [applyColumns_eq _ rules, finishStep_loc]
    rw [committed]
    nth_rewrite 2 [← all]
    rw [InPlace.sequential_eq_iff nodup complete, all]
    constructor
    · intro unmoved i r saved less
      exact unmoved i r ((columnSource_copy t).mpr (.inr saved)) (before_finRange.mpr less)
    · intro unmoved i r copies before
      have less := before_finRange.mp before
      rcases (columnSource_copy t).mp copies with ⟨-, rfl⟩ | saved
      · exact absurd less (lt_irrefl _)
      · exact unmoved i r saved less
  · have evaluated (order : List (Fin n)) :
        applyColumns t as budget c cfa rs order = .ok meant ↔
          InPlace.sequential (columnSource t rs meant) order c.loc =
            InPlace.simultaneous (columnSource t rs meant) c.loc := by
      rw [applyColumns_eq order rules, Except.ok.injEq, all]
    simp only [evaluated]
    rw [InPlace.every_order_iff nodup complete, all]
    constructor
    · intro unmoved i r saved different
      exact unmoved i r ((columnSource_copy t).mpr (.inr saved)) different
    · intro unmoved i r copies different
      rcases (columnSource_copy t).mp copies with ⟨-, rfl⟩ | saved
      · exact absurd rfl different
      · exact unmoved i r saved different

end Simultaneous

/-- A frame that keeps `rbp` in `rbx`, and saves `rbx` on the stack. -/
def rbxFrame : RegState 17 64 where
  retAddrColumn := 16
  reg i :=
    match i.val with
    | 3 => ⟨.cfarel, -16⟩
    | 6 => ⟨.reg, 3⟩
    | 16 => ⟨.cfarel, -8⟩
    | 17 => ⟨.reg, 7⟩
    | 18 => ⟨.undef, 16⟩
    | _ => ⟨.same, 0⟩

def rbxCursor : Cursor 17 64 Unit where
  cfa := 0x7000
  ip := 0x401000
  loc i := if i = 7 then nullLoc else ⟨BitVec.ofNat 64 i, .reg⟩
  tdep := ()

/-- Memory in which every word is `0x402000`. -/
def rbxSpace : AddrSpace 64 :=
  { spaceOfBytes 64 [] with accessMem := fun _ => .ok 0x402000 }

/-- Where the rules say the caller's registers are. -/
def rbxMeant (i : Fin 17) : Loc 64 :=
  match i.val with
  | 3 => memLoc 0x7000
  | 6 => ⟨3, .reg⟩
  | 16 => memLoc 0x7008
  | _ => rbxCursor.loc i

theorem rbxFrame_rules :
    evalCfa (plainTarget 17 64 7 16) rbxSpace 0 rbxCursor rbxFrame = .ok 0x7010 ∧
    ∀ i, simultaneousLoc (plainTarget 17 64 7 16) rbxSpace 0 rbxCursor 0x7010 rbxFrame i =
      .ok (rbxMeant i) := by
  decide

/-- The caller's `rbp` is found where its `rbx` was saved. -/
theorem rbxFrame_not_simultaneous :
    (applyRegState (plainTarget 17 64 7 16) rbxSpace 0 rbxCursor rbxFrame).2.loc ≠ rbxMeant := by
  intro same
  have rbp := congrFun same 6
  exact absurd rbp (by decide)

theorem rbxFrame_iff :
    (applyRegState (plainTarget 17 64 7 16) rbxSpace 0 rbxCursor rbxFrame).2.loc = rbxMeant ↔
      ∀ i r, SavedIn (plainTarget 17 64 7 16) rbxFrame i r → r < i → rbxMeant r = rbxCursor.loc r :=
  (applyRegState_simultaneous_iff (plainTarget 17 64 7 16) rbxSpace 0 rbxCursor rbxFrame
    (by decide) rbxFrame_rules.1 rbxFrame_rules.2).1

/-! ## Failures -/

/-- The step changed nothing that says which frame the cursor is at. -/
def Intact (before after : Cursor n w τ) : Prop :=
  after.loc = before.loc ∧ after.cfa = before.cfa ∧ after.ip = before.ip

section Failures

variable {t : Target n w τ} {as : AddrSpace w} {budget : Nat} {c : Cursor n w τ}
  {rs : RegState n w}

/-- What the rules stage can be committed: the return address it leads to can be
    read and belongs to another frame, or there is nothing to commit. -/
def SafeToCommit (t : Target n w τ) (as : AddrSpace w) (budget : Nat) (c : Cursor n w τ)
    (rs : RegState n w) : Prop :=
  ∀ (inRange : rs.retAddrColumn.toNat < n) cfa newLoc,
    evalCfa t as budget c rs = .ok cfa →
    applyColumns t as budget c cfa rs (List.finRange n) = .ok newLoc →
    (∃ ip, returnAddress t as { c with loc := newLoc, cfa } rs
        ⟨rs.retAddrColumn.toNat, inRange⟩ = .ok ip ∧ (ip ≠ c.ip ∨ cfa ≠ c.cfa)) ∨
      (newLoc = c.loc ∧ cfa = c.cfa)

theorem Loc.get_error {localOnly : Bool} {loc : Loc w} {f} (failed : loc.get localOnly as = .error f) :
    ∃ code, f = .err code := by
  rw [Loc.get] at failed
  split at failed
  · exact ⟨_, (Except.error.inj failed).symm⟩
  · have access {answer : Except UnwError (Word w)} (failed : ofAccess answer = .error f) :
        ∃ code, f = .err code := by
      cases answer with
      | ok val => cases failed
      | error code => exact ⟨code, (Except.error.inj failed).symm⟩
    split at failed
    · exact access failed
    · exact access failed
    · exact access failed
    · cases failed

theorem returnAddress_error {ra f} (failed : returnAddress t as c rs ra = .error f) :
    ∃ code, f = .err code := by
  rw [returnAddress] at failed
  split at failed
  · exact nomatch failed
  · cases read : (c.loc ra).get t.localOnly as with
    | error f' =>
        rw [read] at failed
        exact Loc.get_error (read.trans failed)
    | ok ip =>
        rw [read, ok_bind] at failed
        split at failed <;> exact nomatch failed

/-- A failure after the commit is one to read the return address, or to move. -/
theorem finishStep_intact_iff {prev : Cursor n w τ} {newLoc cfa ra} :
    (IsNegative (finishStep t as prev.ip prev.cfa rs ra { prev with loc := newLoc, cfa }).1 →
        Intact prev (finishStep t as prev.ip prev.cfa rs ra { prev with loc := newLoc, cfa }).2) ↔
      (∃ ip, returnAddress t as { prev with loc := newLoc, cfa } rs ra = .ok ip ∧
        (ip ≠ prev.ip ∨ cfa ≠ prev.cfa)) ∨ (newLoc = prev.loc ∧ cfa = prev.cfa) := by
  rw [finishStep]
  cases read : returnAddress t as { prev with loc := newLoc, cfa } rs ra with
  | error f =>
      obtain ⟨code, rfl⟩ := returnAddress_error read
      constructor
      · intro intact
        have kept := intact ⟨code, rfl⟩
        exact .inr ⟨kept.1, kept.2.1⟩
      · rintro (⟨ip, ok, -⟩ | ⟨rfl, rfl⟩)
        · exact nomatch ok
        · exact fun _ => ⟨rfl, rfl, rfl⟩
  | ok ip =>
      by_cases stuck : ip = prev.ip ∧ cfa = prev.cfa
      · simp only [if_pos stuck]
        constructor
        · intro intact
          have kept := intact ⟨.badframe, rfl⟩
          exact .inr ⟨kept.1, stuck.2⟩
        · rintro (⟨other, same, moved⟩ | ⟨rfl, -⟩)
          · obtain rfl := Except.ok.inj same
            rcases moved with moved | moved
            · exact absurd stuck.1 moved
            · exact absurd stuck.2 moved
          · exact fun _ => ⟨rfl, stuck.2, stuck.1⟩
      · simp only [if_neg stuck]
        constructor
        · exact fun _ => .inl ⟨ip, rfl, not_and_or.mp stuck⟩
        · rintro - ⟨code, failed⟩
          exact nomatch failed

end Failures

end Libunwind.Dwarf
