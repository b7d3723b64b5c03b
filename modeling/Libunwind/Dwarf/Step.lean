import Libunwind.Dwarf.ApplyRegState
import Libunwind.Dwarf.CacheTransparency

/-! # `dwarf_step`

One step by the unwind tables: the register state of the frame is found, in the
cache or by running its instructions, and then applied. Each half says here what
it leaves of the cursor, so that the steps of the targets need not look into it.
-/

namespace Libunwind.Dwarf

variable {n w : Nat} {τ : Type}

/-- What a step finds in its address space: the memory, the unwind tables and the
    cache, with what happens to the cache between the two visits. -/
structure StepSpace (n w : Nat) where
  as : AddrSpace w
  tables : UnwindTables n w
  policy : CachingPolicy := .none
  cache : RsCache n w := { logSize := 0 }
  first : CacheVisit n w := {}
  second : CacheVisit n w := {}
  meanwhile : RsCache n w → RsCache n w := id
  budget : Nat

namespace StepSpace

/-- The `find_reg_state` of a step. -/
def find (space : StepSpace n w) (t : Target n w τ) (c : Cursor n w τ) : Found n w τ :=
  findRegState t space.tables space.policy space.first space.second space.meanwhile space.cache c

end StepSpace

/-- `dwarf_step`. -/
def dwarfStep (t : Target n w τ) (space : StepSpace n w) (c : Cursor n w τ) :
    Result Bool × Cursor n w τ :=
  let found := space.find t c
  match found.result with
  | .ok rs => applyRegState t space.as space.budget found.cursor rs
  | .error fault => (.error fault, found.cursor)

/-- The routine came back, with a value or with a code. -/
def Concludes {α : Type} (r : Result α) : Prop :=
  (∃ a, r = .ok a) ∨ IsNegative r

/-- `dwarf_get` into a variable, which a failure leaves as it is. -/
def Loc.getInto (localOnly : Bool) (as : AddrSpace w) (loc : Loc w) (old : Word w) : Word w :=
  match loc.get localOnly as with
  | .ok val => val
  | .error _ => old

/-! ## The cache never fails with a code -/

section Faults

variable {α β : Type}

/-- A fault here is no return. -/
def Unfailing (r : Result α) : Prop := ¬ IsNegative r

theorem Unfailing.bind {first : Result α} {rest : α → Result β} (start : Unfailing first)
    (later : ∀ a, first = .ok a → Unfailing (rest a)) : Unfailing (first >>= rest) := by
  cases first with
  | error fault =>
      rintro ⟨code, failed⟩
      exact start ⟨code, congrArg Except.error (Except.error.inj failed)⟩
  | ok a => exact later a rfl

/-- A fault that is no code is no return. -/
theorem Unfailing.not_concludes {fault : Fault} (unfailing : Unfailing (.error fault : Result α)) :
    ¬ Concludes (.error fault : Result β) := by
  rintro (⟨b, returned⟩ | ⟨code, failed⟩)
  · cases returned
  · cases failed
    exact unfailing ⟨code, rfl⟩

theorem unfailing_ok (a : α) : Unfailing (.ok a : Result α) := by
  rintro ⟨code, failed⟩
  cases failed

theorem unfailing_undefined : Unfailing (.error .undefined : Result α) := by
  rintro ⟨code, failed⟩
  cases failed

theorem unfailing_timeout : Unfailing (.error .timeout : Result α) := by
  rintro ⟨code, failed⟩
  cases failed

theorem index_unfailing (array : List α) (i : Nat) : Unfailing (index array i) := by
  unfold index
  cases array[i]? with
  | none => exact unfailing_undefined
  | some a => exact unfailing_ok a

theorem notNull_unfailing (pointer : Option α) : Unfailing (notNull pointer) := by
  unfold notNull
  cases pointer with
  | none => exact unfailing_undefined
  | some a => exact unfailing_ok a

variable {cache : RsCache n w} {c : Cursor n w τ} {i : Nat} {rs : RegState n w}
  {links : List (CacheEntry w)}

theorem cacheMatch_unfailing {ip : Word w} : Unfailing (cacheMatch links i ip) :=
  (index_unfailing links i).bind fun _ _ => unfailing_ok _

theorem lookupChain_unfailing {size rounds start : Nat} {ip : Word w} :
    Unfailing (lookupChain links size ip rounds start) := by
  induction rounds generalizing start with
  | zero => exact unfailing_timeout
  | succ rounds ih =>
      unfold lookupChain
      split
      · refine cacheMatch_unfailing.bind fun found _ => ?_
        cases found with
        | true => exact unfailing_ok _
        | false => exact (index_unfailing links start).bind fun _ _ => ih
      · exact unfailing_ok _

theorem rsLookup_unfailing : Unfailing (rsLookup cache c) := by
  refine (notNull_unfailing _).bind fun links _ => (notNull_unfailing _).bind fun hash _ => ?_
  have hinted : Unfailing (hintMatch links c) := by
    unfold hintMatch
    split
    · exact cacheMatch_unfailing
    · exact unfailing_ok _
  refine hinted.bind fun fromHint _ => ?_
  cases fromHint with
  | true => exact unfailing_ok _
  | false => exact (index_unfailing hash _).bind fun _ _ => lookupChain_unfailing

theorem readEntry_unfailing : Unfailing (readEntry cache c i) :=
  (notNull_unfailing _).bind fun links _ => (notNull_unfailing _).bind fun buckets _ =>
    (index_unfailing links i).bind fun _ _ => (index_unfailing buckets i).bind fun _ _ =>
      unfailing_ok _

theorem useEntry_unfailing {t : Target n w τ} : Unfailing (useEntry t cache c i) :=
  (notNull_unfailing _).bind fun links _ => (index_unfailing links i).bind fun _ _ =>
    (index_unfailing links _).bind fun _ _ => unfailing_ok _

theorem unlinkFrom_unfailing {size rounds : Nat} {head : BitVec 16} :
    Unfailing (unlinkFrom size head rounds i links) := by
  induction rounds generalizing i with
  | zero => exact unfailing_timeout
  | succ rounds ih =>
      refine (index_unfailing links i).bind fun link _ => ?_
      split
      · split
        · exact (index_unfailing links _).bind fun _ _ => unfailing_ok _
        · exact ih
      · exact unfailing_ok _

theorem unlink_unfailing {head : BitVec 16} {hash : List (BitVec 16)} :
    Unfailing (unlink cache head hash links) := by
  refine (index_unfailing links _).bind fun old _ => ?_
  split
  · exact unfailing_ok _
  · refine (index_unfailing hash _).bind fun first _ => ?_
    split
    · split
      · exact unfailing_ok _
      · exact unlinkFrom_unfailing.bind fun _ _ => unfailing_ok _
    · exact unfailing_ok _

theorem rsNew_unfailing {ip : Word w} {signalFrame : Bool} :
    Unfailing (rsNew cache ip signalFrame rs) :=
  (notNull_unfailing _).bind fun _ _ => (notNull_unfailing _).bind fun _ _ =>
    (notNull_unfailing _).bind fun buckets _ => unlink_unfailing.bind fun (hash, _) _ =>
      (index_unfailing hash _).bind fun _ _ => (index_unfailing buckets _).bind fun _ _ =>
        unfailing_ok _

theorem enterState_unfailing {t : Target n w τ} : Unfailing (enterState t cache c rs) := by
  refine rsLookup_unfailing.bind fun found _ => ?_
  cases found with
  | some i =>
      exact (notNull_unfailing _).bind fun buckets _ => (index_unfailing buckets i).bind fun _ _ =>
        unfailing_ok _
  | none => exact rsNew_unfailing.bind fun (_, _) _ => unfailing_ok _

end Faults

/-! ## What `find_reg_state` leaves -/

section Find

variable {t : Target n w τ} {tables : UnwindTables n w} {policy : CachingPolicy}
  {first second : CacheVisit n w} {meanwhile : RsCache n w → RsCache n w} {cache : RsCache n w}
  {c c' : Cursor n w τ} {result : Result (RegState n w)}

/-- How `find_reg_state` comes back, with the cache that its first visit finds. -/
inductive FoundBy (t : Target n w τ) (tables : UnwindTables n w) (cache : RsCache n w)
    (c : Cursor n w τ) : Result (RegState n w) → Cursor n w τ → Prop where
  | hit {i : Nat} {signalFrame : Bool} {rs : RegState n w} {c' : Cursor n w τ}
      {cache' : RsCache n w} :
      cache.Holds i c.ip signalFrame rs →
      useEntry t cache { c with usePrevInstr := !signalFrame } i = .ok (cache', c') →
      FoundBy t tables cache c (.ok rs) c'
  | failed {code : UnwError} {c' : Cursor n w τ} :
      computeState t tables c = (.error (.err code), c') →
      FoundBy t tables cache c (.error (.err code)) c'
  | uncached {rs : RegState n w} {c' : Cursor n w τ} :
      computeState t tables c = (.ok rs, c') → FoundBy t tables cache c (.ok rs) c'
  | entered {computed rs : RegState n w} {c₁ c' : Cursor n w τ} {again cache₁ cache' : RsCache n w}
      {i : Nat} :
      computeState t tables c = (.ok computed, c₁) →
      enterState t again c₁ computed = .ok (cache₁, i, rs) →
      useEntry t cache₁ c₁ i = .ok (cache', c') → FoundBy t tables cache c (.ok rs) c'

theorem Found.ofEntry_returns {trace : List LockTrace.Action}
    {entry : Result (RsCache n w × Cursor n w τ × Nat × RegState n w)}
    {motive : Result (RegState n w) → Cursor n w τ → Prop} (unfailing : Unfailing entry)
    (concludes : Concludes (Found.ofEntry t policy trace c cache entry).result)
    (used : ∀ cache₁ c₁ i rs cache' c', entry = .ok (cache₁, c₁, i, rs) →
      useEntry t cache₁ c₁ i = .ok (cache', c') → motive (.ok rs) c') :
    motive (Found.ofEntry t policy trace c cache entry).result
      (Found.ofEntry t policy trace c cache entry).cursor := by
  cases entry with
  | error fault => exact absurd concludes unfailing.not_concludes
  | ok entry =>
      obtain ⟨cache₁, c₁, i, rs⟩ := entry
      unfold Found.ofEntry at concludes ⊢
      simp only [ok_bind] at concludes ⊢
      cases left : useEntry t cache₁ c₁ i with
      | error fault =>
          rw [left] at concludes
          have noCode : Unfailing (useEntry t cache₁ c₁ i) := useEntry_unfailing
          rw [left] at noCode
          exact absurd concludes noCode.not_concludes
      | ok left' => exact used cache₁ c₁ i rs left'.1 left'.2 rfl left

/-- `find_reg_state` comes back in one of these ways only. -/
theorem findRegState_foundBy
    (concludes : Concludes (findRegState t tables policy first second meanwhile cache c).result) :
    FoundBy t tables (getRsCache policy first cache).cache c
      (findRegState t tables policy first second meanwhile cache c).result
      (findRegState t tables policy first second meanwhile cache c).cursor := by
  unfold findRegState at concludes ⊢
  dsimp only at concludes ⊢
  cases lookedUp : (if (getRsCache policy first cache).present then
      rsLookup (getRsCache policy first cache).cache c else pure none) with
  | error fault =>
      rw [lookedUp] at concludes
      have noCode : Unfailing (if (getRsCache policy first cache).present then
          rsLookup (getRsCache policy first cache).cache c else pure none) := by
        split
        · exact rsLookup_unfailing
        · exact unfailing_ok _
      rw [lookedUp] at noCode
      exact absurd concludes noCode.not_concludes
  | ok found =>
      cases found with
      | some i =>
          rw [lookedUp] at concludes
          have hit : rsLookup (getRsCache policy first cache).cache c = .ok (some i) := by
            split at lookedUp
            · exact lookedUp
            · cases lookedUp
          refine Found.ofEntry_returns (motive := FoundBy t tables _ c)
            (readEntry_unfailing.bind fun _ _ => unfailing_ok _) concludes ?_
          intro cache₁ c₁ j rs cache' c' entry used
          obtain ⟨⟨c₂, rs₂⟩, read, same⟩ := bind_eq_ok.mp entry
          cases same
          obtain ⟨signalFrame, holds, rfl⟩ := readEntry_holds hit read
          exact .hit holds used
      | none =>
          rw [lookedUp] at concludes
          simp only at concludes ⊢
          rcases computed : computeState t tables c with ⟨fault | rs, c'⟩
          · rw [computed] at concludes
            obtain ⟨rs, found⟩ | ⟨code, failed⟩ := concludes
            · cases found
            · cases failed
              exact .failed computed
          · rw [computed] at concludes
            simp only at concludes ⊢
            split at concludes
            next present =>
              rw [if_pos present]
              refine Found.ofEntry_returns (motive := FoundBy t tables _ c)
                (enterState_unfailing.bind fun _ _ => unfailing_ok _) concludes ?_
              intro cache₁ c₁ j rs' cache' c₂ entry used
              obtain ⟨⟨cache₂, i, rs₂⟩, entered, same⟩ := bind_eq_ok.mp entry
              cases same
              exact .entered computed entered used
            next absent =>
              rw [if_neg absent]
              exact .uncached computed

/-- What no search for a register state changes. -/
structure Cursor.SameFrame (before after : Cursor n w τ) : Prop where
  loc : after.loc = before.loc
  cfa : after.cfa = before.cfa
  ip : after.ip = before.ip
  ehArgs : after.ehArgs = before.ehArgs
  stashFrames : after.stashFrames = before.stashFrames

theorem Cursor.SameFrame.trans {before between after : Cursor n w τ}
    (first : before.SameFrame between) (second : between.SameFrame after) :
    before.SameFrame after where
  loc := second.loc.trans first.loc
  cfa := second.cfa.trans first.cfa
  ip := second.ip.trans first.ip
  ehArgs := second.ehArgs.trans first.ehArgs
  stashFrames := second.stashFrames.trans first.stashFrames

theorem computeState_sameFrame : c.SameFrame (computeState t tables c).2 := by
  have fetched : c.SameFrame (fetchProcInfo t tables c).2 := by
    unfold fetchProcInfo
    split
    · exact ⟨rfl, rfl, rfl, rfl, rfl⟩
    · split
      · split <;> exact ⟨rfl, rfl, rfl, rfl, rfl⟩
      · exact ⟨rfl, rfl, rfl, rfl, rfl⟩
  exact { fetched with }

theorem useEntry_sameFrame {cache' : RsCache n w} {i : Nat}
    (used : useEntry t cache c i = .ok (cache', c')) : c.SameFrame c' := by
  obtain ⟨_, _, _, -, -, -, -, rfl⟩ := useEntry_eq_ok.mp used
  exact ⟨rfl, rfl, rfl, rfl, rfl⟩

namespace FoundBy

theorem sameFrame (found : FoundBy t tables cache c result c') : c.SameFrame c' := by
  have computes {result c'} (computed : computeState t tables c = (result, c')) : c.SameFrame c' := by
    have same : c.SameFrame (computeState t tables c).2 := computeState_sameFrame
    rwa [computed] at same
  cases found with
  | hit holds used => exact { useEntry_sameFrame used with }
  | failed computed => exact computes computed
  | uncached computed => exact computes computed
  | entered computed _ used => exact (computes computed).trans (useEntry_sameFrame used)

end FoundBy

end Find

/-! ## What `apply_reg_state` leaves -/

section Apply

variable (t : Target n w τ) (as : AddrSpace w) (budget : Nat) (c : Cursor n w τ)
  (rs : RegState n w)

/-- The rules of a register state evaluate. -/
structure Staged (ra : Fin n) (cfa : Word w) (newLoc : Fin n → Loc w) : Prop where
  column : rs.retAddrColumn.toNat = ra
  base : evalCfa t as budget c rs = .ok cfa
  columns : applyColumns t as budget c cfa rs (List.finRange n) = .ok newLoc

/-- How `apply_reg_state` comes back. -/
inductive AppliedBy : Result Bool → Cursor n w τ → Prop where
  | refused {fault : Fault} : AppliedBy (.error fault) c
  | unread {ra : Fin n} {cfa : Word w} {newLoc : Fin n → Loc w} {fault : Fault} :
      Staged t as budget c rs ra cfa newLoc →
      returnAddress t as { c with loc := newLoc, cfa } rs ra = .error fault →
      AppliedBy (.error fault) { c with loc := newLoc, cfa }
  | stuck {ra : Fin n} {newLoc : Fin n → Loc w} :
      Staged t as budget c rs ra c.cfa newLoc →
      returnAddress t as { c with loc := newLoc } rs ra = .ok c.ip →
      AppliedBy (.error (.err .badframe)) { c with loc := newLoc }
  | moved {ra : Fin n} {cfa ip : Word w} {newLoc : Fin n → Loc w} {tdep : τ} :
      Staged t as budget c rs ra cfa newLoc →
      returnAddress t as { c with loc := newLoc, cfa } rs ra = .ok ip →
      (ip ≠ c.ip ∨ cfa ≠ c.cfa) →
      (tdep = if c.stashFrames then t.stashFrame as { c with loc := newLoc, cfa, ip } rs
        else c.tdep) →
      AppliedBy (.ok (ip ≠ 0)) { c with loc := newLoc, cfa, ip, tdep }

section Staged

variable {t as budget c rs} {ra : Fin n} {cfa ip : Word w} {newLoc : Fin n → Loc w}

theorem Staged.applyRegState_eq (staged : Staged t as budget c rs ra cfa newLoc) :
    applyRegState t as budget c rs =
      finishStep t as c.ip c.cfa rs ra { c with loc := newLoc, cfa } := by
  have inRange : rs.retAddrColumn.toNat < n := staged.column ▸ ra.isLt
  have column : (⟨rs.retAddrColumn.toNat, inRange⟩ : Fin n) = ra := Fin.ext staged.column
  simp only [applyRegState, dif_pos inRange, staged.base, staged.columns, column]

/-- A step over staged rules succeeds if it leads to another frame. -/
theorem Staged.returns_iff (staged : Staged t as budget c rs ra cfa newLoc) :
    (∃ more, (applyRegState t as budget c rs).1 = .ok more) ↔
      ∃ ip, returnAddress t as { c with loc := newLoc, cfa } rs ra = .ok ip ∧
        (ip ≠ c.ip ∨ cfa ≠ c.cfa) := by
  rw [staged.applyRegState_eq, finishStep]
  cases read : returnAddress t as { c with loc := newLoc, cfa } rs ra with
  | error fault => simp
  | ok ip =>
      by_cases stuck : ip = c.ip ∧ cfa = c.cfa
      · simp [stuck]
      · simp only [if_neg stuck]
        have moved := not_and_or.mp stuck
        exact iff_of_true ⟨_, rfl⟩ ⟨ip, rfl, moved⟩

/-- Where it leads. -/
theorem Staged.leads (staged : Staged t as budget c rs ra cfa newLoc)
    (read : returnAddress t as { c with loc := newLoc, cfa } rs ra = .ok ip) :
    (applyRegState t as budget c rs).2.cfa = cfa ∧
      (applyRegState t as budget c rs).2.ip = ip ∧
      (applyRegState t as budget c rs).2.loc = newLoc := by
  rw [staged.applyRegState_eq, finishStep, read]
  dsimp only
  split
  · exact ⟨rfl, rfl, rfl⟩
  · dsimp only
    split
    · exact ⟨rfl, rfl, rfl⟩
    · exact ⟨rfl, rfl, rfl⟩

end Staged

theorem applyRegState_appliedBy :
    AppliedBy t as budget c rs (applyRegState t as budget c rs).1
      (applyRegState t as budget c rs).2 := by
  unfold applyRegState
  split
  next inRange =>
    cases base : evalCfa t as budget c rs with
    | error fault => exact .refused
    | ok cfa =>
        simp only
        cases columns : applyColumns t as budget c cfa rs (List.finRange n) with
        | error fault => exact .refused
        | ok newLoc =>
            have staged : Staged t as budget c rs ⟨rs.retAddrColumn.toNat, inRange⟩ cfa newLoc :=
              ⟨rfl, base, columns⟩
            simp only [finishStep]
            cases read : returnAddress t as { c with loc := newLoc, cfa } rs
                ⟨rs.retAddrColumn.toNat, inRange⟩ with
            | error fault => exact .unread staged read
            | ok ip =>
                simp only
                split
                next same =>
                  obtain ⟨rfl, rfl⟩ := same
                  exact .stuck staged read
                next moved =>
                  have moved := not_and_or.mp moved
                  by_cases stash : c.stashFrames = true
                  · rw [if_pos stash]
                    exact .moved staged read moved (if_pos stash).symm
                  · rw [if_neg stash]
                    exact .moved staged read moved (if_neg stash).symm
  next => exact .refused

variable {t as budget c rs}

/-- Where a step over a row succeeds, its rules were staged, and the frame may have been stashed. -/
theorem applyRegState_ok {more : Bool} (returned : (applyRegState t as budget c rs).1 = .ok more) :
    ∃ ra cfa ip newLoc, Staged t as budget c rs ra cfa newLoc ∧
      returnAddress t as { c with loc := newLoc, cfa } rs ra = .ok ip ∧ more = decide (ip ≠ 0) ∧
      (applyRegState t as budget c rs).2.tdep =
        if c.stashFrames then t.stashFrame as { c with loc := newLoc, cfa, ip } rs else c.tdep := by
  have applied := applyRegState_appliedBy t as budget c rs
  generalize (applyRegState t as budget c rs).1 = result at returned applied
  generalize (applyRegState t as budget c rs).2 = c' at applied ⊢
  cases applied with
  | refused => cases returned
  | unread => cases returned
  | stuck => cases returned
  | @moved ra cfa ip newLoc tdep staged read _ stashed =>
      exact ⟨ra, cfa, ip, newLoc, staged, read, (Except.ok.inj returned).symm, stashed⟩

/-- The outermost frame has no rule for the return address. -/
theorem Staged.returns_null {ra : Fin n} {cfa : Word w} {newLoc : Fin n → Loc w}
    (staged : Staged t as budget c rs ra cfa newLoc)
    (undefined : (rs.reg (regColumn ra)).how = .undef) :
    returnAddress t as { c with loc := newLoc, cfa } rs ra = .ok 0 := by
  have own := applyColumns_own (List.nodup_finRange n) (List.mem_finRange ra)
    (by rw [undefined]; simp) staged.columns
  rw [ruleLoc, undefined] at own
  have null : newLoc ra = nullLoc := (Except.ok.inj own).symm
  rw [returnAddress]
  simp only [null, Loc.isNull_nullLoc, if_true]
  rfl

end Apply

/-! ## What `dwarf_step` leaves -/

section Step

variable (t : Target n w τ) (space : StepSpace n w) (c : Cursor n w τ)

/-- How the `find_reg_state` of a step comes back. -/
theorem StepSpace.find_foundBy (concludes : Concludes (space.find t c).result) :
    FoundBy t space.tables (getRsCache space.policy space.first space.cache).cache c
      (space.find t c).result (space.find t c).cursor :=
  findRegState_foundBy concludes

theorem StepSpace.find_sameFrame (concludes : Concludes (space.find t c).result) :
    c.SameFrame (space.find t c).cursor :=
  (space.find_foundBy t c concludes).sameFrame

/-- How `dwarf_step` comes back. -/
inductive SteppedBy : Result Bool → Cursor n w τ → Prop where
  | notFound {code : UnwError} : (space.find t c).result = .error (.err code) →
      SteppedBy (.error (.err code)) (space.find t c).cursor
  | applied {rs : RegState n w} {c' : Cursor n w τ} {result : Result Bool} :
      (space.find t c).result = .ok rs →
      AppliedBy t space.as space.budget (space.find t c).cursor rs result c' → SteppedBy result c'

theorem dwarfStep_steppedBy (concludes : Concludes (dwarfStep t space c).1) :
    SteppedBy t space c (dwarfStep t space c).1 (dwarfStep t space c).2 := by
  unfold dwarfStep at concludes ⊢
  simp only at concludes ⊢
  cases found : (space.find t c).result with
  | error fault =>
      rw [found] at concludes
      obtain ⟨_, impossible⟩ | ⟨code, negative⟩ := concludes
      · cases impossible
      · cases negative
        exact .notFound found
  | ok rs => exact .applied found (applyRegState_appliedBy ..)

end Step

/-! ## A stopped process -/

/-- A process with these registers, and zero in the others, and these words of
    memory. -/
def processOf (registers : List (Int × Word w)) (words : List (Word w × Word w)) :
    AddrSpace w :=
  { spaceOfBytes w [] with
    accessReg := fun r => .ok ((registers.lookup r).getD 0)
    accessMem := fun addr =>
      match words.lookup addr with
      | some word => .ok word
      | none => .error .unspec }

/-- A step through it without unwind tables. -/
def bareSpace (as : AddrSpace w) : StepSpace n w where
  as
  tables :=
    { findProcInfo := fun _ => (.error .noinfo, {})
      cursorSpace := as
      localSpace := as
      budget := 0 }
  budget := 0

end Libunwind.Dwarf
