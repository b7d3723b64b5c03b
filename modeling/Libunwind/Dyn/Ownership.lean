import Libunwind.Dyn.LocalRemote

/-! # Who owns what is interned

`intern_dyn_info` with the blocks that it allocates. Fetches and allocations may fail at any point;
the blocks are named by the order in which they were asked for.
-/

namespace Libunwind.Dyn.Owned

open Inquiry

variable {w : Nat} {α β : Type}

/-- The target's memory, and which fetches and allocations fail. -/
structure World (w : Nat) where
  mem : Memory w
  fetchFails : Nat → Option UnwError
  callocFails : Nat → Bool

def World.answer (world : World w) (k : Nat) (addr : Word w) : Except UnwError (Word w) :=
  match world.fetchFails k with
  | some code => .error code
  | none => .ok (world.mem addr)

/-- How many fetches and allocations there were, the blocks allocated and freed so far, and the
    pointers in the union of `di`. -/
structure State (w : Nat) where
  fetches : Nat
  callocs : Nat
  allocated : List Nat
  freed : List Nat
  regions : List (Nat × DynRegionInfo w)
  tableData : Option (Nat × List (Word w))
  deriving DecidableEq

/-- A routine leaves its state behind even where it fails. -/
def Act (w : Nat) (α : Type) := State w → Result α × State w

instance instMonadAct : Monad (Act w) where
  pure a := fun s => (.ok a, s)
  bind p rest := fun s =>
    match p s with
    | (.ok a, s) => rest a s
    | (.error e, s) => (.error e, s)

def fail (e : Fault) : Act w α := fun s => (.error e, s)

/-- `goto out`: what is done where the routine fails. -/
def onError (cleanup : Act w Unit) (p : Act w α) : Act w α := fun s =>
  match p s with
  | (.ok a, s) => (.ok a, s)
  | (.error e, s) => (.error e, (cleanup s).2)

def free (block : Nat) : Act w Unit := fun s => (.ok (), { s with freed := s.freed ++ [block] })

def setRegions (regions : List (Nat × DynRegionInfo w)) : Act w Unit :=
  fun s => (.ok (), { s with regions })

def setTableData (tableData : Option (Nat × List (Word w))) : Act w Unit :=
  fun s => (.ok (), { s with tableData })

/-- `free_regions`; the region behind a region is freed first. -/
def freeRegions : List (Nat × DynRegionInfo w) → Act w Unit
  | [] => pure ()
  | (block, _) :: regions => do
      freeRegions regions
      free block

/-- `free_dyn_info`. -/
def freeDynInfo (format : BitVec 32) : Act w Unit := fun s =>
  if format = formatDynamic then (do freeRegions s.regions; setRegions []) s
  else if format = formatTable then
    match s.tableData with
    | some (block, _) => (do free block; setTableData none) s
    | none => (.ok (), s)
  else (.ok (), s)

section Intern

variable (world : World w) (r : Reader w)

def fetch (p : Fetch w α) : Act w α := fun s =>
  let (outcome, fetches) := p.run world.answer s.fetches
  (outcome, { s with fetches })

def calloc : Act w (Option Nat) := fun s =>
  if world.callocFails s.callocs then (.ok none, { s with callocs := s.callocs + 1 })
  else
    (.ok (some s.callocs),
      { s with callocs := s.callocs + 1, allocated := s.allocated ++ [s.callocs] })

/-- What a region has before its ops. -/
def regionHead (addr : Word w) : Fetch w (Word w × BitVec 32 × BitVec 32 × Word w) := do
  let (nextAddr, addr) ← fetchw addr
  let (insnCount, addr) ← fetch32 r.bigEndian addr
  let (opCount, addr) ← fetch32 r.bigEndian addr
  pure (nextAddr, insnCount, opCount, addr)

/-- `intern_regions`. The size of a region is undefined where it overflows. -/
def internRegions : Nat → Word w → Act w (List (Nat × DynRegionInfo w))
  | 0, _ => fail .timeout
  | depth + 1, addr =>
      if addr = 0 then pure []
      else do
        let (nextAddr, insnCount, opCount, addr) ← fetch world (regionHead r addr)
        if 2 ^ w ≤ dynRegionInfoSize w opCount.toNat then fail .undefined
        else do
          match ← calloc world with
          | none => fail (.err .nomem)
          | some block =>
              onError (free block) do
                let op ← fetch world (internOps r opCount.toNat addr)
                let next ← (if nextAddr = 0 then pure [] else internRegions depth nextAddr)
                pure ((block, ⟨insnCount, op⟩) :: next)

/-- The loop of `intern_array`; a failed fetch leaves it with `ret` still 0. -/
def internWords (block : Nat) (addr tableLen : Word w) : Act w Unit := fun s =>
  match fetch world (fetchWords tableLen.toNat addr) s with
  | (.ok data, s) => setTableData (some (block, data)) s
  | (.error _, s) => free block s

/-- `intern_array`. -/
def internArray (addr tableLen : Word w) : Act w Unit := do
  match ← calloc world with
  | none => fail (.err .nomem)
  | some block => internWords world block addr tableLen

/-- What `intern_dyn_info` fetches of a procedure before its regions. -/
def procHead (addr : Word w) : Fetch w (Word w × Word w × BitVec 32 × Word w) := do
  let (namePtr, addr) ← fetchw addr
  let (handler, addr) ← fetchw addr
  let (flags, addr) ← fetch32 r.bigEndian addr
  -- skip over pad0
  let (firstRegion, _) ← fetchw (addr + 4)
  pure (namePtr, handler, flags, firstRegion)

/-- What it fetches of a table before the words of it. -/
def tableHead (addr : Word w) : Fetch w (Word w × Word w × Word w × Word w) := do
  let (namePtr, addr) ← fetchw addr
  let (segbase, addr) ← fetchw addr
  let (tableLen, addr) ← fetchw addr
  pure (namePtr, segbase, tableLen, addr)

/-- What `intern_dyn_info` does for a dynamic procedure. -/
def internProc (depth : Nat) (addr : Word w) : Act w (DynUnion w) := do
  let (namePtr, handler, flags, firstRegion) ← fetch world (procHead r addr)
  setRegions []
  let regions ← internRegions world r depth firstRegion
  setRegions regions
  pure (.pi ⟨namePtr, handler, flags, regions.map Prod.snd⟩)

/-- What it does for a table, and for one that stays where it is. -/
def internTable (addr : Word w) : Act w (DynUnion w) := do
  let (namePtr, segbase, tableLen, addr) ← fetch world (tableHead addr)
  internArray world addr tableLen
  fun s => (.ok (.ti ⟨namePtr, segbase, tableLen, s.tableData.map Prod.snd⟩), s)

def internRemoteTable (addr : Word w) : Act w (DynUnion w) := do
  let (namePtr, segbase, tableLen, addr) ← fetch world (tableHead addr)
  let (tableData, _) ← fetch world (fetchw addr)
  pure (.rti ⟨namePtr, segbase, tableLen, tableData⟩)

/-- `intern_dyn_info`, for a `di` whose format is known. -/
def internDynInfo (depth : Nat) (addr : Word w) (format : BitVec 32) : Act w (DynUnion w) :=
  onError (freeDynInfo format) <|
    if format = formatDynamic then internProc world r depth addr
    else if format = formatTable then internTable world addr
    else if format = formatRemoteTable then internRemoteTable world addr
    else fail (.err .noinfo)

end Intern

/-! ## Fetching -/

section Heed

/-- The fetches that a failure ends, with a negative return. -/
abbrev Careful (p : Fetch w α) : Prop :=
  p.Heeds (fun answer => ∃ code, answer = .error code) fun e => ∃ code, e = .err code

theorem careful_accessMem (addr : Word w) : Careful (accessMem addr) := by
  intro answer
  constructor
  · intro bad
    obtain ⟨code, rfl⟩ := bad
    exact ⟨.err code, rfl⟩
  · intro e failed
    cases answer with
    | ok value => cases failed
    | error code => exact ⟨code, (Except.error.inj failed).symm⟩

theorem careful_fetchw (addr : Word w) : Careful (fetchw addr) :=
  (careful_accessMem addr).bind fun _ => .pure _

theorem careful_fetchField (bigEndian : Bool) (size : Nat) (addr : Word w) :
    Careful (fetchField bigEndian size addr) := by
  dsimp only [fetchField, Careful]
  split
  · intro e failed
    exact ⟨.inval, (Except.error.inj failed).symm⟩
  · exact (careful_accessMem _).bind fun _ => .pure _

variable (r : Reader w)

theorem careful_internOp (addr : Word w) : Careful (internOp r addr) :=
  (careful_fetchField _ _ _).bind fun _ => (careful_fetchField _ _ _).bind fun _ =>
    (careful_fetchField _ _ _).bind fun _ => (careful_fetchField _ _ _).bind fun _ =>
      (careful_fetchw _).bind fun _ => .pure _

theorem careful_internOps (n : Nat) (addr : Word w) : Careful (internOps r n addr) := by
  induction n generalizing addr with
  | zero => exact .pure _
  | succ n ih => exact (careful_internOp r addr).bind fun _ => (ih _).bind fun _ => .pure _

theorem careful_fetchWords (len : Nat) (addr : Word w) : Careful (fetchWords len addr) := by
  induction len generalizing addr with
  | zero => exact .pure _
  | succ len ih => exact (careful_fetchw addr).bind fun _ => (ih _).bind fun _ => .pure _

theorem careful_regionHead (addr : Word w) : Careful (regionHead r addr) :=
  (careful_fetchw addr).bind fun _ => (careful_fetchField _ _ _).bind fun _ =>
    (careful_fetchField _ _ _).bind fun _ => .pure _

theorem careful_procHead (addr : Word w) : Careful (procHead r addr) :=
  (careful_fetchw addr).bind fun _ => (careful_fetchw _).bind fun _ =>
    (careful_fetchField _ _ _).bind fun _ => (careful_fetchw _).bind fun _ => .pure _

theorem careful_tableHead (addr : Word w) : Careful (tableHead addr) :=
  (careful_fetchw addr).bind fun _ => (careful_fetchw _).bind fun _ =>
    (careful_fetchw _).bind fun _ => .pure _

end Heed

section Read

variable {bigEndian : Bool} {mem : Memory w} {r : Reader w}

theorem read_bind_ok {p : Fetch w α} {rest : α → Fetch w β} {b : β}
    (value : mem.read (p >>= rest) = .ok b) :
    ∃ a, mem.read p = .ok a ∧ mem.read (rest a) = .ok b := by
  rw [read_bind] at value
  exact bind_eq_ok.mp value

theorem stored_of_fetchField {size : Nat} {addr next : Word w} {v : BitVec (8 * size)}
    (value : mem.read (fetchField bigEndian size addr) = .ok (v, next)) :
    StoredField bigEndian mem size addr v ∧ next = ahead addr size := by
  simp only [fetchField] at value
  split at value
  · cases value
  next aligned =>
    obtain ⟨rfl, rfl⟩ := Prod.mk.inj (Except.ok.inj value)
    exact ⟨⟨not_not.mp aligned, rfl⟩, rfl⟩

theorem stored_of_fetchw {addr v next : Word w} (value : mem.read (fetchw addr) = .ok (v, next)) :
    mem addr = v ∧ next = ahead addr (w / 8) := by
  obtain ⟨rfl, rfl⟩ := Prod.mk.inj (Except.ok.inj value)
  exact ⟨rfl, rfl⟩

theorem opAt_of_internOp {addr next : Word w} {op : DynOp w}
    (value : mem.read (internOp r addr) = .ok (op, next)) :
    OpAt r.bigEndian mem addr op ∧ next = ahead addr (8 + w / 8) := by
  obtain ⟨⟨tag, _⟩, fetched, value⟩ := read_bind_ok value
  obtain ⟨tagStored, rfl⟩ := stored_of_fetchField fetched
  obtain ⟨⟨qp, _⟩, fetched, value⟩ := read_bind_ok value
  obtain ⟨qpStored, rfl⟩ := stored_of_fetchField fetched
  obtain ⟨⟨reg, _⟩, fetched, value⟩ := read_bind_ok value
  obtain ⟨regStored, rfl⟩ := stored_of_fetchField fetched
  obtain ⟨⟨when, _⟩, fetched, value⟩ := read_bind_ok value
  obtain ⟨whenStored, rfl⟩ := stored_of_fetchField fetched
  obtain ⟨⟨val, _⟩, fetched, value⟩ := read_bind_ok value
  obtain ⟨valStored, rfl⟩ := stored_of_fetchw fetched
  obtain ⟨rfl, rfl⟩ := Prod.mk.inj (Except.ok.inj value)
  simp only [ahead_ahead, Nat.reduceAdd] at qpStored regStored whenStored valStored ⊢
  exact ⟨⟨tagStored, qpStored, regStored, whenStored, valStored⟩, trivial⟩

theorem opsAt_of_internOps {n : Nat} {addr : Word w} {ops : List (DynOp w)}
    (value : mem.read (internOps r n addr) = .ok ops) :
    OpsAt r.bigEndian mem addr ops ∧ ops.length = n := by
  induction n generalizing addr ops with
  | zero =>
      cases value
      exact ⟨trivial, rfl⟩
  | succ n ih =>
      obtain ⟨⟨op, _⟩, fetched, value⟩ := read_bind_ok value
      obtain ⟨opStored, rfl⟩ := opAt_of_internOp fetched
      obtain ⟨rest, fetched, value⟩ := read_bind_ok value
      obtain ⟨restStored, length⟩ := ih fetched
      cases value
      exact ⟨⟨opStored, restStored⟩, by simp [length]⟩

theorem stored_of_regionHead {addr nextAddr addr' : Word w} {insnCount opCount : BitVec 32}
    (value : mem.read (regionHead r addr) = .ok (nextAddr, insnCount, opCount, addr')) :
    mem addr = nextAddr ∧ StoredField r.bigEndian mem 4 (ahead addr (w / 8)) insnCount ∧
      StoredField r.bigEndian mem 4 (ahead addr (w / 8 + 4)) opCount ∧
      addr' = ahead addr (w / 8 + 8) := by
  obtain ⟨⟨next, _⟩, fetched, value⟩ := read_bind_ok value
  obtain ⟨link, rfl⟩ := stored_of_fetchw fetched
  obtain ⟨⟨insn, _⟩, fetched, value⟩ := read_bind_ok value
  obtain ⟨insnStored, rfl⟩ := stored_of_fetchField fetched
  obtain ⟨⟨count, _⟩, fetched, value⟩ := read_bind_ok value
  obtain ⟨countStored, rfl⟩ := stored_of_fetchField fetched
  cases value
  simp only [ahead_ahead, Nat.add_assoc, Nat.reduceAdd] at countStored ⊢
  exact ⟨link, insnStored, countStored, trivial⟩

end Read

/-! ## What the routines do to the blocks -/

section Effects

variable {world : World w} {s s' s'' : State w}

theorem bind_ok_iff {p : Act w α} {rest : α → Act w β} {b : β} :
    (p >>= rest) s = (.ok b, s'') ↔ ∃ a s', p s = (.ok a, s') ∧ rest a s' = (.ok b, s'') := by
  change (match p s with
    | (.ok a, s) => rest a s
    | (.error e, s) => (.error e, s)) = _ ↔ _
  cases ran : p s with
  | mk outcome s' =>
      cases outcome with
      | ok a => simp
      | error e => simp

theorem bind_error_iff {p : Act w α} {rest : α → Act w β} {e : Fault} :
    (p >>= rest) s = (.error e, s'') ↔
      p s = (.error e, s'') ∨ ∃ a s', p s = (.ok a, s') ∧ rest a s' = (.error e, s'') := by
  change (match p s with
    | (.ok a, s) => rest a s
    | (.error e, s) => (.error e, s)) = _ ↔ _
  cases ran : p s with
  | mk outcome s' =>
      cases outcome with
      | ok a => simp
      | error e => simp

theorem onError_ok_iff {cleanup : Act w Unit} {p : Act w α} {a : α} :
    onError cleanup p s = (.ok a, s') ↔ p s = (.ok a, s') := by
  unfold onError
  cases p s with
  | mk outcome s' =>
      cases outcome with
      | ok a => simp
      | error e => simp

theorem onError_error_iff {cleanup : Act w Unit} {p : Act w α} {e : Fault} :
    onError cleanup p s = (.error e, s'') ↔ ∃ s', p s = (.error e, s') ∧ s'' = (cleanup s').2 := by
  unfold onError
  cases p s with
  | mk outcome s' =>
      cases outcome with
      | ok a => simp
      | error e => simp [eq_comm]

theorem bind_of_ok {p : Act w α} {rest : α → Act w β} {a : α} (ran : p s = (.ok a, s')) :
    (p >>= rest) s = rest a s' := by
  change (match p s with
    | (.ok a, s) => rest a s
    | (.error e, s) => (.error e, s)) = _
  rw [ran]

theorem bind_of_error {p : Act w α} {rest : α → Act w β} {e : Fault} (ran : p s = (.error e, s')) :
    (p >>= rest) s = (.error e, s') := bind_error_iff.mpr (.inl ran)

/-- No fetch between two counts failed. -/
def NoFailure (world : World w) (first last : Nat) : Prop :=
  ∀ j, first ≤ j → j < last → world.fetchFails j = none

theorem NoFailure.append {first middle last : Nat} (before : NoFailure world first middle)
    (behind : NoFailure world middle last) : NoFailure world first last := by
  intro j from_first below
  by_cases early : j < middle
  · exact before j from_first early
  · exact behind j (by omega) below

/-- The blocks that were allocated and freed from one state to another. -/
structure Grows (s s' : State w) (news frees : List Nat) : Prop where
  allocated : s'.allocated = s.allocated ++ news
  freed : s'.freed = s.freed ++ frees
  callocs : s.callocs ≤ s'.callocs
  fresh : ∀ b ∈ news, s.callocs ≤ b ∧ b < s'.callocs
  nodup : news.Nodup

theorem Grows.refl (s : State w) : Grows s s [] [] :=
  ⟨by simp, by simp, Nat.le_refl _, by simp, List.nodup_nil⟩

theorem Grows.trans {news frees news' frees' : List Nat} (first : Grows s s' news frees)
    (second : Grows s' s'' news' frees') : Grows s s'' (news ++ news') (frees ++ frees') where
  allocated := by rw [second.allocated, first.allocated, List.append_assoc]
  freed := by rw [second.freed, first.freed, List.append_assoc]
  callocs := Nat.le_trans first.callocs second.callocs
  fresh := by
    intro b member
    cases List.mem_append.mp member with
    | inl early =>
        have := first.fresh b early
        have := second.callocs
        omega
    | inr late =>
        have := second.fresh b late
        have := first.callocs
        omega
  nodup := by
    apply List.nodup_append.mpr
    refine ⟨first.nodup, second.nodup, ?_⟩
    intro a early b late same
    have := first.fresh a early
    have := second.fresh b late
    omega

/-- The pointers in the union of `di` stay. -/
def SamePointers (s s' : State w) : Prop := s'.regions = s.regions ∧ s'.tableData = s.tableData

theorem SamePointers.trans (first : SamePointers s s') (second : SamePointers s' s'') :
    SamePointers s s'' :=
  ⟨second.1.trans first.1, second.2.trans first.2⟩

theorem fetch_state {p : Fetch w α} {outcome : Result α} (ran : fetch world p s = (outcome, s')) :
    s' = { s with fetches := s'.fetches } ∧
      p.run world.answer s.fetches = (outcome, s'.fetches) := by
  obtain ⟨rfl, rfl⟩ := Prod.mk.inj ran
  exact ⟨rfl, rfl⟩

theorem fetch_grows {p : Fetch w α} {outcome : Result α} (ran : fetch world p s = (outcome, s')) :
    Grows s s' [] [] ∧ SamePointers s s' := by
  obtain ⟨same, -⟩ := fetch_state ran
  rw [same]
  exact ⟨⟨by simp, by simp, Nat.le_refl _, by simp, List.nodup_nil⟩, rfl, rfl⟩

theorem fetch_of_run {p : Fetch w α} {outcome : Result α} {k : Nat}
    (ran : p.run world.answer s.fetches = (outcome, k)) :
    ∃ s', fetch world p s = (outcome, s') ∧ s'.fetches = k ∧ s'.callocs = s.callocs := by
  refine ⟨{ s with fetches := k }, ?_, rfl, rfl⟩
  rw [fetch, ran]

theorem fetch_error {p : Fetch w α} (careful : Careful p) {e : Fault}
    (ran : fetch world p s = (.error e, s')) : ∃ code, e = .err code :=
  careful.run_error (fetch_state ran).2

/-- What a run without failures delivers is in memory. -/
theorem run_ok {p : Fetch w α} (careful : Careful p) {a : α} {k k' : Nat}
    (ran : p.run world.answer k = (.ok a, k')) :
    NoFailure world k k' ∧ world.mem.read p = .ok a := by
  have none : NoFailure world k k' := by
    intro j from_k below
    obtain ⟨addr, good⟩ := careful.run_ok ran j from_k below
    cases fails : world.fetchFails j with
    | none => rfl
    | some code => exact absurd ⟨code, by rw [World.answer, fails]⟩ good
  have same : ∀ j, k ≤ j → j < (p.run world.answer k).2 →
      world.answer j = fun addr => .ok (world.mem addr) := by
    intro j from_k below
    rw [ran] at below
    funext addr
    rw [World.answer, none j from_k below]
  refine ⟨none, ?_⟩
  have value := run_eq_eval p k same
  rw [ran] at value
  exact value.symm

theorem fetch_fetches {p : Fetch w α} {outcome : Result α}
    (ran : fetch world p s = (outcome, s')) : s.fetches ≤ s'.fetches := by
  have later : s.fetches ≤ (p.run world.answer s.fetches).2 := le_run p s.fetches
  rwa [(fetch_state ran).2] at later

theorem fetch_ok {p : Fetch w α} (careful : Careful p) {a : α}
    (ran : fetch world p s = (.ok a, s')) :
    NoFailure world s.fetches s'.fetches ∧ world.mem.read p = .ok a :=
  run_ok careful (fetch_state ran).2

theorem calloc_some {block : Nat} (ran : calloc world s = (.ok (some block), s')) :
    Grows s s' [block] [] ∧ SamePointers s s' ∧ s'.fetches = s.fetches ∧
      s'.callocs = s.callocs + 1 ∧ world.callocFails s.callocs = false := by
  unfold calloc at ran
  split at ran
  · cases ran
  next room =>
    cases ran
    refine ⟨⟨rfl, by simp, Nat.le_succ _, ?_, by simp⟩, ⟨rfl, rfl⟩, rfl, rfl, by simpa using room⟩
    intro b member
    rw [List.mem_singleton.mp member]
    exact ⟨Nat.le_refl _, Nat.lt_succ_self _⟩

theorem calloc_none (ran : calloc world s = (.ok none, s')) :
    Grows s s' [] [] ∧ SamePointers s s' ∧ world.callocFails s.callocs = true := by
  unfold calloc at ran
  split at ran
  next full =>
    cases ran
    exact ⟨⟨by simp, by simp, Nat.le_succ _, by simp, List.nodup_nil⟩, ⟨rfl, rfl⟩, full⟩
  · cases ran

theorem calloc_of_full (full : world.callocFails s.callocs = true) :
    ∃ s', calloc world s = (.ok none, s') := by
  rw [calloc, full]
  exact ⟨_, rfl⟩

theorem calloc_of_room (room : world.callocFails s.callocs = false) :
    ∃ s', calloc world s = (.ok (some s.callocs), s') ∧ s'.fetches = s.fetches ∧
      s'.callocs = s.callocs + 1 := by
  rw [calloc, room]
  exact ⟨_, rfl, rfl, rfl⟩

theorem calloc_ok {e : Fault} : calloc world s ≠ (.error e, s') := by
  unfold calloc
  split
  · simp
  · simp

/-- Freeing a block. -/
theorem free_grows (block : Nat) (s : State w) :
    Grows s (free block s).2 [] [block] ∧ SamePointers s (free block s).2 :=
  ⟨⟨by simp [free], rfl, Nat.le_refl _, by simp, List.nodup_nil⟩, rfl, rfl⟩

/-- Every block of a list of regions is freed, the last one first. -/
theorem freeRegions_grows (regions : List (Nat × DynRegionInfo w)) (s : State w) :
    ∃ s', freeRegions regions s = (.ok (), s') ∧
      Grows s s' [] (regions.map Prod.fst).reverse ∧ SamePointers s s' := by
  induction regions with
  | nil => exact ⟨s, rfl, .refl s, rfl, rfl⟩
  | cons region regions ih =>
      obtain ⟨s', freed, grows, same⟩ := ih
      obtain ⟨grows', same'⟩ := free_grows region.1 s'
      refine ⟨_, bind_ok_iff.mpr ⟨(), s', freed, rfl⟩, ?_, same.trans same'⟩
      rw [List.map_cons, List.reverse_cons]
      exact grows.trans grows'

end Effects

section Regions

variable {world : World w} {r : Reader w}

/-- What an interned list of regions is: new blocks that hold what is in memory. -/
structure RegionsInterned (world : World w) (r : Reader w) (addr : Word w) (s s' : State w)
    (regions : List (Nat × DynRegionInfo w)) : Prop where
  grows : Grows s s' (regions.map Prod.fst) []
  pointers : SamePointers s s'
  fetches : s.fetches ≤ s'.fetches
  noFailure : NoFailure world s.fetches s'.fetches
  stored : RegionsAt r.bigEndian world.mem addr (regions.map Prod.snd)

theorem RegionsInterned.nil {addr : Word w} {s : State w} (null : addr = 0) :
    RegionsInterned world r addr s s [] :=
  ⟨.refl _, ⟨rfl, rfl⟩, Nat.le_refl _,
    fun _ from_first below => absurd below (Nat.not_lt.mpr from_first), null⟩

/-- What a failure leaves behind: every new block is freed again. -/
structure Undone (s s' : State w) : Prop where
  grows : ∃ news frees, Grows s s' news frees ∧ frees.Perm news
  pointers : SamePointers s s'

theorem Undone.of_grows {s s' : State w} (grows : Grows s s' [] [] ∧ SamePointers s s') :
    Undone s s' :=
  ⟨⟨[], [], grows.1, .refl _⟩, grows.2⟩

theorem Undone.after {s s' s'' : State w} (first : Grows s s' [] [] ∧ SamePointers s s')
    (second : Undone s' s'') : Undone s s'' := by
  obtain ⟨⟨news, frees, grows, perm⟩, same⟩ := second
  exact ⟨⟨_, _, first.1.trans grows, perm⟩, first.2.trans same⟩

/-- A routine behind the allocation of a block, which is freed where the routine fails. -/
theorem undone_onError {α : Type} {p : Act w α} {s s₁ s' : State w} {block : Nat} {e : Fault}
    (allocated : Grows s s₁ [block] [] ∧ SamePointers s s₁)
    (undone : ∀ e s₂, p s₁ = (.error e, s₂) → Undone s₁ s₂)
    (failed : onError (free block) p s₁ = (.error e, s')) : Undone s s' := by
  obtain ⟨s₂, ran, rfl⟩ := onError_error_iff.mp failed
  obtain ⟨⟨news, frees, grows, perm⟩, same⟩ := undone _ _ ran
  obtain ⟨freed, same'⟩ := free_grows block s₂
  refine ⟨⟨_, _, (allocated.1.trans grows).trans freed, ?_⟩,
    (allocated.2.trans same).trans same'⟩
  simpa using (List.perm_append_singleton block frees).trans (perm.cons block)

theorem internRegions_error {depth : Nat} {addr : Word w} {s s' : State w} {e : Fault}
    (failed : internRegions world r depth addr s = (.error e, s')) : Undone s s' := by
  induction depth generalizing addr s s' e with
  | zero =>
      cases failed
      exact .of_grows ⟨.refl _, rfl, rfl⟩
  | succ depth ih =>
      rw [internRegions] at failed
      split at failed
      · cases failed
      cases bind_error_iff.mp failed with
      | inl cut => exact .of_grows (fetch_grows cut)
      | inr later =>
          obtain ⟨⟨nextAddr, insnCount, opCount, addr'⟩, s₁, fetched, failed⟩ := later
          apply Undone.after (fetch_grows fetched)
          dsimp only at failed
          split at failed
          · cases failed
            exact .of_grows ⟨.refl _, rfl, rfl⟩
          cases bind_error_iff.mp failed with
          | inl never => exact absurd never calloc_ok
          | inr later =>
              obtain ⟨answer, s₂, asked, failed⟩ := later
              cases answer with
              | none =>
                  cases failed
                  obtain ⟨grows, same, -⟩ := calloc_none asked
                  exact .of_grows ⟨grows, same⟩
              | some block =>
                  obtain ⟨grows, same, -⟩ := calloc_some asked
                  refine undone_onError ⟨grows, same⟩ ?_ failed
                  intro e s₃ failed
                  cases bind_error_iff.mp failed with
                  | inl cut => exact .of_grows (fetch_grows cut)
                  | inr later =>
                      obtain ⟨op, s₄, fetched, failed⟩ := later
                      apply Undone.after (fetch_grows fetched)
                      cases bind_error_iff.mp failed with
                      | inl inner =>
                          split at inner
                          · cases inner
                          · exact ih inner
                      | inr later =>
                          obtain ⟨regions, s₅, -, never⟩ := later
                          cases never

theorem internRegions_ok {depth : Nat} {addr : Word w} {s s' : State w}
    {regions : List (Nat × DynRegionInfo w)}
    (done : internRegions world r depth addr s = (.ok regions, s')) :
    RegionsInterned world r addr s s' regions := by
  induction depth generalizing addr s s' regions with
  | zero => cases done
  | succ depth ih =>
      rw [internRegions] at done
      split at done
      next null =>
        cases done
        exact .nil null
      next there =>
        obtain ⟨⟨nextAddr, insnCount, opCount, addr'⟩, s₁, head, done⟩ := bind_ok_iff.mp done
        dsimp only at done
        split at done
        · cases done
        obtain ⟨answer, s₂, asked, done⟩ := bind_ok_iff.mp done
        cases answer with
        | none => cases done
        | some block =>
            obtain ⟨allocated, same, fetches, -⟩ := calloc_some asked
            obtain ⟨op, s₃, ops, done⟩ := bind_ok_iff.mp (onError_ok_iff.mp done)
            obtain ⟨next, s₄, rest, done⟩ := bind_ok_iff.mp done
            cases done
            obtain ⟨noHead, headRead⟩ := fetch_ok (careful_regionHead r addr) head
            obtain ⟨noOps, opsRead⟩ := fetch_ok (careful_internOps r _ _) ops
            obtain ⟨link, insnStored, countStored, rfl⟩ := stored_of_regionHead headRead
            obtain ⟨opsStored, length⟩ := opsAt_of_internOps opsRead
            have restInterned : RegionsInterned world r nextAddr s₃ s' next := by
              split at rest
              next null =>
                cases rest
                exact .nil null
              next =>
                exact ih rest
            obtain ⟨headGrows, headSame⟩ := fetch_grows head
            obtain ⟨opsGrows, opsSame⟩ := fetch_grows ops
            have headFetches := fetch_fetches head
            have opsFetches := fetch_fetches ops
            refine ⟨?_, ?_, ?_, ?_, ?_⟩
            · exact ((headGrows.trans allocated).trans opsGrows).trans restInterned.grows
            · exact ((headSame.trans same).trans opsSame).trans restInterned.pointers
            · have := restInterned.fetches
              omega
            · rw [fetches] at noOps
              exact (noHead.append noOps).append restInterned.noFailure
            · refine ⟨there, insnStored, ⟨opCount, length.symm, countStored⟩, opsStored, ?_⟩
              rw [link]
              exact restInterned.stored

/-- A routine returns, and does nothing that is undefined. -/
def Returns {α : Type} (outcome : Result α) : Prop := Ends outcome ∧ Defined outcome

theorem Returns.err {α : Type} {e : Fault} (negative : ∃ code, e = .err code) :
    Returns (.error e : Result α) := by
  obtain ⟨code, rfl⟩ := negative
  exact ⟨.err code, .err code⟩

theorem Returns.ok {α : Type} (a : α) : Returns (.ok a : Result α) := ⟨.ok a, .ok a⟩

theorem returns_of_onError {α : Type} {cleanup : Act w Unit} {p : Act w α} {s : State w}
    (returns : Returns (onError cleanup p s).1) : Returns (p s).1 := by
  unfold onError at returns
  cases ran : p s with
  | mk outcome s' =>
      rw [ran] at returns
      cases outcome with
      | ok a => exact returns
      | error e => exact returns

theorem returns_of_bind {α β : Type} {p : Act w α} {rest : α → Act w β} {s : State w}
    (returns : Returns ((p >>= rest) s).1) : Returns (p s).1 := by
  cases ran : p s with
  | mk outcome s' =>
      cases outcome with
      | ok a => exact .ok a
      | error e =>
          rw [bind_of_error ran] at returns
          exact ⟨fun timeout => returns.1 (by cases timeout; rfl),
            fun undefined => returns.2 (by cases undefined; rfl)⟩

/-- From a region on, with so many fetches and allocations before: as far as the list is read, it
    ends, and the sizes of its regions do not overflow. -/
inductive RegionsEnd (world : World w) (r : Reader w) : Nat → Nat → Word w → Prop where
  | null {k a : Nat} : RegionsEnd world r k a 0
  | cut {k k' a : Nat} {addr : Word w} {e : Fault} :
      (regionHead r addr).run world.answer k = (.error e, k') → RegionsEnd world r k a addr
  | noRoom {k k' a : Nat} {addr next addr' : Word w} {insnCount opCount : BitVec 32} :
      (regionHead r addr).run world.answer k = (.ok (next, insnCount, opCount, addr'), k') →
      dynRegionInfoSize w opCount.toNat < 2 ^ w → world.callocFails a = true →
      RegionsEnd world r k a addr
  | opsCut {k k' k'' a : Nat} {addr next addr' : Word w} {insnCount opCount : BitVec 32}
      {e : Fault} :
      (regionHead r addr).run world.answer k = (.ok (next, insnCount, opCount, addr'), k') →
      dynRegionInfoSize w opCount.toNat < 2 ^ w →
      (internOps r opCount.toNat addr').run world.answer k' = (.error e, k'') →
      RegionsEnd world r k a addr
  | next {k k' k'' a : Nat} {addr next addr' : Word w} {insnCount opCount : BitVec 32}
      {op : List (DynOp w)} :
      (regionHead r addr).run world.answer k = (.ok (next, insnCount, opCount, addr'), k') →
      dynRegionInfoSize w opCount.toNat < 2 ^ w →
      (internOps r opCount.toNat addr').run world.answer k' = (.ok op, k'') →
      RegionsEnd world r k'' (a + 1) next → RegionsEnd world r k a addr

/-- A walk that returns has come to the end of the list, or to a failure. -/
theorem regionsEnd_of_returns {depth : Nat} {addr : Word w} {s : State w}
    (returns : Returns (internRegions world r depth addr s).1) :
    RegionsEnd world r s.fetches s.callocs addr := by
  induction depth generalizing addr s with
  | zero => exact absurd rfl returns.1
  | succ depth ih =>
      by_cases null : addr = 0
      · subst null
        exact .null
      rw [internRegions, if_neg null] at returns
      cases head : (regionHead r addr).run world.answer s.fetches with
      | mk outcome k' =>
          cases outcome with
          | error e => exact .cut head
          | ok value =>
              obtain ⟨nextAddr, insnCount, opCount, addr'⟩ := value
              obtain ⟨s₁, fetched, rfl, sameCallocs⟩ := fetch_of_run head
              rw [bind_of_ok fetched] at returns
              dsimp only at returns
              split at returns
              · exact absurd rfl returns.2
              next fits =>
                have size := Nat.lt_of_not_le fits
                rw [← sameCallocs]
                cases room : world.callocFails s₁.callocs with
                | true => exact .noRoom head size room
                | false =>
                    obtain ⟨s₂, asked, sameFetches, callocs⟩ := calloc_of_room room
                    rw [bind_of_ok asked] at returns
                    have inner := returns_of_onError returns
                    cases ops : (internOps r opCount.toNat addr').run world.answer s₁.fetches with
                    | mk outcome k'' =>
                        cases outcome with
                        | error e => exact .opsCut head size ops
                        | ok op =>
                            obtain ⟨s₃, opsFetched, rfl, sameCallocs'⟩ :=
                              fetch_of_run (sameFetches ▸ ops)
                            rw [bind_of_ok opsFetched] at inner
                            refine .next head size ops ?_
                            rw [← callocs, ← sameCallocs']
                            by_cases last : nextAddr = 0
                            · subst last
                              exact .null
                            · rw [if_neg last] at inner
                              exact ih (returns_of_bind inner)

theorem returns_onError {α : Type} {cleanup : Act w Unit} {p : Act w α} {s : State w}
    (returns : Returns (p s).1) : Returns (onError cleanup p s).1 := by
  unfold onError
  cases ran : p s with
  | mk outcome s' =>
      rw [ran] at returns
      cases outcome with
      | ok a => exact returns
      | error e => exact returns

theorem returns_bind {α β : Type} {p : Act w α} {rest : α → Act w β} {s : State w}
    (first : Returns (p s).1)
    (later : ∀ a s', p s = (.ok a, s') → Returns (rest a s').1) : Returns ((p >>= rest) s).1 := by
  cases ran : p s with
  | mk outcome s' =>
      rw [ran] at first
      cases outcome with
      | ok a =>
          rw [bind_of_ok ran]
          exact later a s' ran
      | error e =>
          rw [bind_of_error ran]
          exact ⟨fun timeout => first.1 (by cases timeout; rfl),
            fun undefined => first.2 (by cases undefined; rfl)⟩

theorem returns_fetch {α : Type} {p : Fetch w α} (careful : Careful p) (s : State w) :
    Returns (fetch world p s).1 := by
  cases ran : fetch world p s with
  | mk outcome s' =>
      cases outcome with
      | ok a => exact .ok a
      | error e => exact .err (fetch_error careful ran)

/-- A region is walked when its size does not overflow and those behind it are walked. -/
theorem returns_region {depth : Nat} {addr : Word w} {s : State w}
    (behind : ∀ next insnCount opCount addr' k',
      (regionHead r addr).run world.answer s.fetches = (.ok (next, insnCount, opCount, addr'), k') →
      dynRegionInfoSize w opCount.toNat < 2 ^ w ∧
        (world.callocFails s.callocs = false → ∀ op k'',
          (internOps r opCount.toNat addr').run world.answer k' = (.ok op, k'') →
          ∀ s', s'.fetches = k'' → s'.callocs = s.callocs + 1 →
            Returns (internRegions world r depth next s').1)) :
    Returns (internRegions world r (depth + 1) addr s).1 := by
  rw [internRegions]
  split
  · exact .ok _
  apply returns_bind (returns_fetch (careful_regionHead r addr) s)
  intro head s₁ fetched
  obtain ⟨next, insnCount, opCount, addr'⟩ := head
  obtain ⟨size, rest⟩ := behind _ _ _ _ _ (fetch_state fetched).2
  dsimp only
  rw [if_neg (Nat.not_le.mpr size)]
  have sameCallocs : s₁.callocs = s.callocs := by rw [(fetch_state fetched).1]
  cases room : world.callocFails s₁.callocs with
  | true =>
      obtain ⟨s₂, asked⟩ := calloc_of_full room
      rw [bind_of_ok asked]
      exact .err ⟨.nomem, rfl⟩
  | false =>
      obtain ⟨s₂, asked, sameFetches, callocs⟩ := calloc_of_room room
      rw [bind_of_ok asked]
      apply returns_onError
      apply returns_bind (returns_fetch (careful_internOps r _ _) s₂)
      intro op s₃ opsFetched
      apply returns_bind _ fun _ _ _ => .ok _
      have ops := (fetch_state opsFetched).2
      rw [sameFetches] at ops
      split
      · exact .ok _
      · apply rest (sameCallocs ▸ room) op _ ops s₃ rfl
        rw [(fetch_state opsFetched).1, ← sameCallocs]
        exact callocs

/-- A list that ends is walked within a bound. -/
theorem returns_of_regionsEnd {k a : Nat} {addr : Word w} (ends : RegionsEnd world r k a addr) :
    ∃ least, ∀ depth, least ≤ depth → ∀ s : State w, s.fetches = k → s.callocs = a →
      Returns (internRegions world r depth addr s).1 := by
  induction ends with
  | null =>
      refine ⟨1, fun depth deep s _ _ => ?_⟩
      obtain ⟨depth, rfl⟩ : ∃ d, depth = d + 1 := ⟨depth - 1, by omega⟩
      rw [internRegions, if_pos rfl]
      exact .ok _
  | cut head =>
      refine ⟨1, fun depth deep s isK _ => ?_⟩
      obtain ⟨depth, rfl⟩ : ∃ d, depth = d + 1 := ⟨depth - 1, by omega⟩
      subst isK
      apply returns_region
      intro _ _ _ _ _ head'
      rw [head] at head'
      cases head'
  | noRoom head size full =>
      refine ⟨1, fun depth deep s isK isA => ?_⟩
      obtain ⟨depth, rfl⟩ : ∃ d, depth = d + 1 := ⟨depth - 1, by omega⟩
      subst isK isA
      apply returns_region
      intro _ _ _ _ _ head'
      rw [head] at head'
      cases head'
      refine ⟨size, fun room => ?_⟩
      rw [full] at room
      cases room
  | opsCut head size ops =>
      refine ⟨1, fun depth deep s isK isA => ?_⟩
      obtain ⟨depth, rfl⟩ : ∃ d, depth = d + 1 := ⟨depth - 1, by omega⟩
      subst isK isA
      apply returns_region
      intro _ _ _ _ _ head'
      rw [head] at head'
      cases head'
      refine ⟨size, fun _ _ _ ops' => ?_⟩
      rw [ops] at ops'
      cases ops'
  | next head size ops _ ih =>
      obtain ⟨least, later⟩ := ih
      refine ⟨least + 1, fun depth deep s isK isA => ?_⟩
      obtain ⟨depth, rfl⟩ : ∃ d, depth = d + 1 := ⟨depth - 1, by omega⟩
      subst isK isA
      apply returns_region
      intro _ _ _ _ _ head'
      rw [head] at head'
      cases head'
      refine ⟨size, fun _ _ _ ops' s' isK isA => ?_⟩
      rw [ops] at ops'
      cases ops'
      exact later depth (by omega) s' isK isA

end Regions

/-! ## All or nothing -/

/-- The blocks that the union of a `di` of this format points to. -/
def State.blocks (format : BitVec 32) (s : State w) : List Nat :=
  if format = formatDynamic then s.regions.map Prod.fst
  else if format = formatTable then s.tableData.toList.map Prod.fst
  else []

/-- What the blocks hold is what the union says. -/
def State.Holds (s : State w) : DynUnion w → Prop
  | .pi info => s.regions.map Prod.snd = info.regions
  | .ti info => s.tableData.map Prod.snd = info.tableData
  | .rti _ => True

section AllOrNothing

variable (world : World w) (r : Reader w) (format : BitVec 32) (addr : Word w) (s : State w)

/-- Either the union is a copy of the one in memory, every word of which was fetched, and it owns
    the new blocks; or the return is negative, each new block was freed once, and the union has no
    pointer left. -/
inductive AllOrNothing : Result (DynUnion w) × State w → Prop where
  | all {u : DynUnion w} {s' : State w} : NoFailure world s.fetches s'.fetches →
      UnionAt r.bigEndian world.mem addr u → u.Fits format → s'.Holds u →
      Grows s s' (s'.blocks format) [] → AllOrNothing (.ok u, s')
  | nothing {code : UnwError} {s' : State w} {news frees : List Nat} : Grows s s' news frees →
      (∀ b ∈ news, frees.count b = 1) → s'.blocks format = [] →
      AllOrNothing (.error (.err code), s')

/-- The condition for it. The list of regions ends as far as it is read, and their sizes do not
    overflow; no word of a table fails to be fetched, and the words where the pointer to the table
    is are the table's. -/
structure Interns : Prop where
  regions : format = formatDynamic → ∀ namePtr handler flags firstRegion k,
    (procHead r addr).run world.answer s.fetches = (.ok (namePtr, handler, flags, firstRegion), k) →
      RegionsEnd world r k s.callocs firstRegion
  words : format = formatTable → ∀ namePtr segbase tableLen addr' k,
    (tableHead addr).run world.answer s.fetches = (.ok (namePtr, segbase, tableLen, addr'), k) →
      world.callocFails s.callocs = false →
        NoFailure world k (k + tableLen.toNat) ∧
          WordsAt world.mem (world.mem addr') (world.mem.wordsFrom tableLen.toNat addr')

end AllOrNothing

section Outcomes

variable {world : World w} {r : Reader w} {format : BitVec 32} {addr : Word w} {s s' : State w}

/-- `free_dyn_info` frees what the union points to, and leaves no pointer. -/
theorem freeDynInfo_grows (format : BitVec 32) (s : State w) :
    ∃ frees, Grows s (freeDynInfo format s).2 [] frees ∧
      (freeDynInfo format s).2.blocks format = [] ∧ (s.blocks format = [] → frees = []) := by
  unfold freeDynInfo State.blocks
  by_cases dynamic : format = formatDynamic
  · obtain ⟨s', freed, grows, -⟩ := freeRegions_grows s.regions s
    simp only [if_pos dynamic]
    rw [bind_of_ok freed]
    refine ⟨_, ⟨grows.allocated, grows.freed, grows.callocs, grows.fresh, grows.nodup⟩, rfl, ?_⟩
    intro none
    rw [none]
    rfl
  · by_cases table : format = formatTable
    · simp only [if_neg dynamic, if_pos table]
      cases held : s.tableData with
      | none =>
          refine ⟨[], .refl s, ?_, fun _ => rfl⟩
          simp [held]
      | some data =>
          obtain ⟨grows, -⟩ := free_grows data.1 s
          refine ⟨[data.1],
            ⟨grows.allocated, grows.freed, grows.callocs, grows.fresh, grows.nodup⟩, rfl, ?_⟩
          intro none
          simp at none
    · simp only [if_neg dynamic, if_neg table]
      exact ⟨[], .refl s, trivial, fun _ => rfl⟩

/-- A failure leaves nothing: blocks are freed by the routine that allocated them, or by
    `free_dyn_info`, which has nothing to free then. -/
theorem nothing_of_error {p : Act w (DynUnion w)} {code : UnwError}
    {news frees : List Nat} (failed : p s = (.error (.err code), s')) (grows : Grows s s' news frees)
    (perm : frees.Perm news) (once : news = [] ∨ s'.blocks format = []) :
    AllOrNothing world r format addr s (onError (freeDynInfo format) p s) := by
  obtain ⟨frees', grows', none, idle⟩ := freeDynInfo_grows format s'
  have ran : onError (freeDynInfo format) p s = (.error (.err code), (freeDynInfo format s').2) :=
    onError_error_iff.mpr ⟨s', failed, rfl⟩
  rw [ran]
  refine .nothing (grows.trans grows') ?_ none
  intro b member
  rw [List.append_nil] at member
  cases once with
  | inl empty =>
      rw [empty] at member
      cases member
  | inr owned =>
      rw [idle owned, List.append_nil, perm.count_eq, grows.nodup.count, if_pos member]

theorem stored_of_procHead {mem : Memory w} {namePtr handler firstRegion : Word w}
    {flags : BitVec 32}
    (value : mem.read (procHead r addr) = .ok (namePtr, handler, flags, firstRegion)) :
    mem addr = namePtr ∧ mem (ahead addr (w / 8)) = handler ∧
      StoredField r.bigEndian mem 4 (ahead addr (2 * (w / 8))) flags ∧
      mem (ahead addr (2 * (w / 8) + 8)) = firstRegion := by
  obtain ⟨⟨name, _⟩, fetched, value⟩ := read_bind_ok value
  obtain ⟨nameStored, rfl⟩ := stored_of_fetchw fetched
  obtain ⟨⟨routine, _⟩, fetched, value⟩ := read_bind_ok value
  obtain ⟨handlerStored, rfl⟩ := stored_of_fetchw fetched
  obtain ⟨⟨bits, next⟩, fetched, value⟩ := read_bind_ok value
  obtain ⟨flagsStored, rfl⟩ := stored_of_fetchField fetched
  obtain ⟨⟨first, _⟩, fetched, value⟩ := read_bind_ok value
  obtain ⟨firstStored, rfl⟩ := stored_of_fetchw fetched
  cases value
  have second : ahead (ahead addr (w / 8)) (w / 8) = ahead addr (2 * (w / 8)) := by
    rw [ahead_ahead, Nat.two_mul]
  have pad : ahead (ahead addr (2 * (w / 8))) 4 + 4 = ahead addr (2 * (w / 8) + 8) :=
    (ahead_ahead _ 4 4).trans (by rw [ahead_ahead])
  rw [second] at flagsStored firstStored
  exact ⟨nameStored, handlerStored, flagsStored, by rw [← pad]; exact firstStored⟩

theorem stored_of_tableHead {mem : Memory w} {namePtr segbase tableLen addr' : Word w}
    (value : mem.read (tableHead addr) = .ok (namePtr, segbase, tableLen, addr')) :
    mem addr = namePtr ∧ mem (ahead addr (w / 8)) = segbase ∧
      mem (ahead addr (2 * (w / 8))) = tableLen ∧ addr' = ahead addr (3 * (w / 8)) := by
  obtain ⟨⟨name, _⟩, fetched, value⟩ := read_bind_ok value
  obtain ⟨nameStored, rfl⟩ := stored_of_fetchw fetched
  obtain ⟨⟨base, _⟩, fetched, value⟩ := read_bind_ok value
  obtain ⟨baseStored, rfl⟩ := stored_of_fetchw fetched
  obtain ⟨⟨len, _⟩, fetched, value⟩ := read_bind_ok value
  obtain ⟨lenStored, rfl⟩ := stored_of_fetchw fetched
  cases value
  have second : ahead (ahead addr (w / 8)) (w / 8) = ahead addr (2 * (w / 8)) := by
    rw [ahead_ahead, Nat.two_mul]
  have third : ahead (ahead addr (2 * (w / 8))) (w / 8) = ahead addr (3 * (w / 8)) := by
    rw [ahead_ahead, Nat.succ_mul 2]
  rw [second] at lenStored
  exact ⟨nameStored, baseStored, lenStored, by rw [second, third]⟩

/-- A dynamic procedure is interned as a whole or not at all, if its list of regions ends. -/
theorem internDynInfo_dynamic {depth : Nat}
    (walked : ∀ namePtr handler flags firstRegion k,
      (procHead r addr).run world.answer s.fetches =
          (.ok (namePtr, handler, flags, firstRegion), k) →
        ∀ s₁ : State w, s₁.fetches = k → s₁.callocs = s.callocs →
          Returns (internRegions world r depth firstRegion s₁).1) :
    AllOrNothing world r formatDynamic addr s
      (internDynInfo world r depth addr formatDynamic s) := by
  rw [internDynInfo, if_pos rfl]
  cases head : fetch world (procHead r addr) s with
  | mk outcome s₁ =>
      obtain ⟨headGrows, headSame⟩ := fetch_grows head
      cases outcome with
      | error e =>
          obtain ⟨code, rfl⟩ := fetch_error (careful_procHead r addr) head
          exact nothing_of_error (bind_of_error head) headGrows (.refl _) (.inl rfl)
      | ok value =>
          obtain ⟨namePtr, handler, flags, firstRegion⟩ := value
          have cleared : setRegions [] s₁ = (.ok (), { s₁ with regions := [] }) := rfl
          have clearedGrows : Grows s { s₁ with regions := [] } [] [] :=
            ⟨headGrows.allocated, headGrows.freed, headGrows.callocs, headGrows.fresh,
              headGrows.nodup⟩
          have callocs : s₁.callocs = s.callocs := by rw [(fetch_state head).1]
          have returns := walked _ _ _ _ _ (fetch_state head).2 { s₁ with regions := [] } rfl callocs
          cases ran : internRegions world r depth firstRegion { s₁ with regions := [] } with
          | mk outcome s₂ =>
              rw [ran] at returns
              cases outcome with
              | error e =>
                  obtain ⟨⟨news, frees, grows, perm⟩, same⟩ := internRegions_error ran
                  have failed : internProc world r depth addr s = (.error e, s₂) := by
                    rw [internProc, bind_of_ok head]
                    dsimp only
                    rw [bind_of_ok cleared, bind_of_error ran]
                  cases e with
                  | err code =>
                      refine nothing_of_error failed (clearedGrows.trans grows) perm (.inr ?_)
                      rw [State.blocks, if_pos rfl, same.1]
                      rfl
                  | undefined => exact absurd rfl returns.2
                  | timeout => exact absurd rfl returns.1
              | ok regions =>
                  have interned := internRegions_ok ran
                  have done : internProc world r depth addr s =
                      (.ok (.pi ⟨namePtr, handler, flags, regions.map Prod.snd⟩),
                        { s₂ with regions }) := by
                    rw [internProc, bind_of_ok head]
                    dsimp only
                    rw [bind_of_ok cleared, bind_of_ok ran]
                    rfl
                  rw [onError_ok_iff.mpr done]
                  obtain ⟨noHead, headRead⟩ := fetch_ok (careful_procHead r addr) head
                  obtain ⟨nameStored, handlerStored, flagsStored, firstStored⟩ :=
                    stored_of_procHead headRead
                  have grows := clearedGrows.trans interned.grows
                  refine .all (noHead.append interned.noFailure) ?_ rfl rfl ?_
                  · refine ⟨nameStored, handlerStored, flagsStored, ?_⟩
                    rw [firstStored]
                    exact interned.stored
                  · exact ⟨grows.allocated, grows.freed, grows.callocs, grows.fresh, grows.nodup⟩

theorem returns_of_allOrNothing {outcome : Result (DynUnion w) × State w}
    (whole : AllOrNothing world r format addr s outcome) : Returns outcome.1 := by
  cases whole with
  | all => exact .ok _
  | nothing => exact .err ⟨_, rfl⟩

/-! ### Tables -/

theorem run_fetchw {k : Nat} (addr : Word w) (works : world.fetchFails k = none) :
    (fetchw addr).run world.answer k = (.ok (world.mem addr, ahead addr (w / 8)), k + 1) := by
  have here : (accessMem addr).run world.answer k = (.ok (world.mem addr), k + 1) := by
    simp [accessMem, Inquiry.run, World.answer, works, ofAccess]
  exact run_bind_ok here

theorem run_fetchw_failed {k : Nat} {code : UnwError} (addr : Word w)
    (fails : world.fetchFails k = some code) :
    (fetchw addr).run world.answer k = (.error (.err code), k + 1) := by
  have here : (accessMem addr).run world.answer k = (.error (.err code), k + 1) := by
    simp [accessMem, Inquiry.run, World.answer, fails, ofAccess]
  exact run_bind_error here

theorem run_fetchWords {len k : Nat} (addr : Word w) (none : NoFailure world k (k + len)) :
    (fetchWords len addr).run world.answer k = (.ok (world.mem.wordsFrom len addr), k + len) := by
  induction len generalizing addr k with
  | zero => rfl
  | succ len ih =>
      have rest := ih (ahead addr (w / 8)) (k := k + 1)
        (fun j from_k below => none j (by omega) (by omega))
      have here := none k (Nat.le_refl k) (by omega)
      rw [fetchWords, run_bind_ok (run_fetchw addr here)]
      dsimp only
      rw [run_bind_ok rest, Nat.add_assoc, Nat.add_comm 1]
      rfl

/-- The loop comes to its end only when no fetch of it fails. -/
theorem noFailure_of_fetchWords {len k k' : Nat} {addr : Word w} {data : List (Word w)}
    (ran : (fetchWords len addr).run world.answer k = (.ok data, k')) :
    NoFailure world k (k + len) := by
  induction len generalizing addr k k' data with
  | zero =>
      intro j from_k below
      omega
  | succ len ih =>
      cases fails : world.fetchFails k with
      | some code =>
          rw [fetchWords, run_bind_error (run_fetchw_failed addr fails)] at ran
          cases ran
      | none =>
          rw [fetchWords, run_bind_ok (run_fetchw addr fails)] at ran
          dsimp only at ran
          cases rest : (fetchWords len (ahead addr (w / 8))).run world.answer (k + 1) with
          | mk outcome last =>
              cases outcome with
              | error e =>
                  rw [run_bind_error rest] at ran
                  cases ran
              | ok data =>
                  intro j from_k below
                  by_cases first : j = k
                  · rw [first]
                    exact fails
                  · exact ih rest j (by omega) (by omega)

theorem length_wordsFrom (mem : Memory w) (len : Nat) (addr : Word w) :
    (mem.wordsFrom len addr).length = len := by
  induction len generalizing addr with
  | zero => rfl
  | succ len ih => simp [Memory.wordsFrom, ih]

/-- What is left when the words of a table have all been fetched. -/
theorem allOrNothing_words {s₂ s₃ : State w} {block : Nat} {namePtr segbase tableLen addr' : Word w}
    (head : world.mem.read (tableHead addr) = .ok (namePtr, segbase, tableLen, addr'))
    (before : NoFailure world s.fetches s₂.fetches) (grows : Grows s s₂ [block] [])
    (ran : fetch world (fetchWords tableLen.toNat addr') s₂ =
      (.ok (world.mem.wordsFrom tableLen.toNat addr'), s₃)) :
    AllOrNothing world r formatTable addr s
        (.ok (.ti ⟨namePtr, segbase, tableLen, some (world.mem.wordsFrom tableLen.toNat addr')⟩),
          { s₃ with tableData := some (block, world.mem.wordsFrom tableLen.toNat addr') }) ↔
      WordsAt world.mem (world.mem addr') (world.mem.wordsFrom tableLen.toNat addr') := by
  obtain ⟨name, base, len, rfl⟩ := stored_of_tableHead head
  have after := grows.trans (fetch_grows ran).1
  constructor
  · intro whole
    cases whole with
    | all _ stored => exact stored.2.2.2.2
  · intro stored
    obtain ⟨behind, -⟩ := fetch_ok (careful_fetchWords _ _) ran
    refine .all (before.append behind) ?_ rfl rfl ?_
    · exact ⟨name, base, len, length_wordsFrom _ _ _, stored⟩
    · exact ⟨after.allocated, after.freed, after.callocs, after.fresh, after.nodup⟩

/-- A block was freed, and yet the return is 0. -/
theorem not_allOrNothing_of_freed {s₃ : State w} {u : DynUnion w} {block : Nat}
    (freed : s₃.freed = s.freed ++ [block]) :
    ¬ AllOrNothing world r format addr s (.ok u, s₃) := by
  intro whole
  cases whole with
  | all _ _ _ _ grows =>
      have same := grows.freed
      rw [freed, List.append_nil] at same
      exact absurd (congrArg List.length same) (by simp)

theorem internDynInfo_table {depth : Nat} :
    AllOrNothing world r formatTable addr s (internDynInfo world r depth addr formatTable s) ↔
      Interns world r formatTable addr s := by
  have apart : formatTable ≠ formatDynamic := by decide
  rw [internDynInfo, if_neg apart, if_pos rfl]
  cases head : fetch world (tableHead addr) s with
  | mk outcome s₁ =>
      obtain ⟨headGrows, -⟩ := fetch_grows head
      have headRan := (fetch_state head).2
      cases outcome with
      | error e =>
          obtain ⟨code, rfl⟩ := fetch_error (careful_tableHead addr) head
          have failed : internTable world addr s = (.error (.err code), s₁) := bind_of_error head
          refine iff_of_true (nothing_of_error failed headGrows (.refl _) (.inl rfl)) ⟨?_, ?_⟩
          · exact fun dynamic => absurd dynamic apart
          · intro _ _ _ _ _ _ headOk
            rw [headRan] at headOk
            cases headOk
      | ok value =>
          obtain ⟨namePtr, segbase, tableLen, addr'⟩ := value
          obtain ⟨noHead, headRead⟩ := fetch_ok (careful_tableHead addr) head
          have sameCallocs : s₁.callocs = s.callocs := by rw [(fetch_state head).1]
          cases room : world.callocFails s.callocs with
          | true =>
              obtain ⟨s₂, asked⟩ := calloc_of_full (sameCallocs ▸ room)
              have failed : internTable world addr s = (.error (.err .nomem), s₂) := by
                have refused : internArray world addr' tableLen s₁ =
                    (.error (.err .nomem), s₂) := by
                  rw [internArray, bind_of_ok asked]
                  rfl
                rw [internTable, bind_of_ok head]
                exact bind_of_error refused
              have grows := headGrows.trans (calloc_none asked).1
              refine iff_of_true (nothing_of_error failed grows (.refl _) (.inl rfl)) ⟨?_, ?_⟩
              · exact fun dynamic => absurd dynamic apart
              · intro _ _ _ _ _ _ _ room'
                rw [room] at room'
                cases room'
          | false =>
              obtain ⟨s₂, asked, sameFetches, -⟩ := calloc_of_room (sameCallocs ▸ room)
              obtain ⟨blockGrows, -, -⟩ := calloc_some asked
              have grows := headGrows.trans blockGrows
              have whole : internArray world addr' tableLen s₁ =
                  internWords world s₁.callocs addr' tableLen s₂ := by
                rw [internArray, bind_of_ok asked]
              cases words : fetch world (fetchWords tableLen.toNat addr') s₂ with
              | mk outcome s₃ =>
                  have wordsRan := (fetch_state words).2
                  rw [sameFetches] at wordsRan
                  cases outcome with
                  | ok data =>
                      have none := noFailure_of_fetchWords wordsRan
                      obtain rfl : world.mem.wordsFrom tableLen.toNat addr' = data := by
                        rw [run_fetchWords addr' none] at wordsRan
                        exact Except.ok.inj (Prod.mk.inj wordsRan).1
                      have done : internTable world addr s =
                          (.ok (.ti ⟨namePtr, segbase, tableLen,
                              some (world.mem.wordsFrom tableLen.toNat addr')⟩),
                            { s₃ with tableData := some (s₁.callocs,
                              world.mem.wordsFrom tableLen.toNat addr') }) := by
                        have kept : internArray world addr' tableLen s₁ =
                            (.ok (), { s₃ with tableData := some (s₁.callocs,
                              world.mem.wordsFrom tableLen.toNat addr') }) := by
                          rw [whole, internWords, words]
                          rfl
                        rw [internTable, bind_of_ok head]
                        exact bind_of_ok kept
                      rw [onError_ok_iff.mpr done,
                        allOrNothing_words headRead (sameFetches ▸ noHead) grows words]
                      constructor
                      · intro stored
                        refine ⟨fun dynamic => absurd dynamic apart, ?_⟩
                        intro _ _ _ _ _ _ headOk _
                        rw [headRan] at headOk
                        cases headOk
                        exact ⟨none, stored⟩
                      · intro interns
                        exact (interns.words rfl _ _ _ _ _ headRan room).2
                  | error e =>
                      have done : ∃ s₄ u, s₄.freed = s.freed ++ [s₁.callocs] ∧
                          internTable world addr s = (.ok u, s₄) := by
                        refine ⟨(free s₁.callocs s₃).2,
                          .ti ⟨namePtr, segbase, tableLen, s₃.tableData.map Prod.snd⟩, ?_, ?_⟩
                        · have freed := (grows.trans (fetch_grows words).1).freed
                          rw [List.append_nil, List.append_nil, List.append_nil] at freed
                          rw [free, freed]
                        · have gone : internArray world addr' tableLen s₁ =
                              (.ok (), (free s₁.callocs s₃).2) := by
                            rw [whole, internWords, words]
                            rfl
                          rw [internTable, bind_of_ok head]
                          exact bind_of_ok gone
                      obtain ⟨s₄, u, freed, done⟩ := done
                      rw [onError_ok_iff.mpr done]
                      refine iff_of_false (not_allOrNothing_of_freed freed) ?_
                      intro interns
                      obtain ⟨none, -⟩ := interns.words rfl _ _ _ _ _ headRan room
                      rw [run_fetchWords addr' none] at wordsRan
                      cases wordsRan

/-- A table that stays where it is, and a format that is not known. -/
theorem internDynInfo_other {depth : Nat} (notDynamic : format ≠ formatDynamic)
    (notTable : format ≠ formatTable) :
    AllOrNothing world r format addr s (internDynInfo world r depth addr format s) := by
  rw [internDynInfo, if_neg notDynamic, if_neg notTable]
  split
  · cases head : fetch world (tableHead addr) s with
    | mk outcome s₁ =>
        obtain ⟨headGrows, -⟩ := fetch_grows head
        cases outcome with
        | error e =>
            obtain ⟨code, rfl⟩ := fetch_error (careful_tableHead addr) head
            exact nothing_of_error (bind_of_error head) headGrows (.refl _) (.inl rfl)
        | ok value =>
            obtain ⟨namePtr, segbase, tableLen, addr'⟩ := value
            obtain ⟨noHead, headRead⟩ := fetch_ok (careful_tableHead addr) head
            obtain ⟨name, base, len, rfl⟩ := stored_of_tableHead headRead
            cases last : fetch world (fetchw (ahead addr (3 * (w / 8)))) s₁ with
            | mk outcome s₂ =>
                have grows := headGrows.trans (fetch_grows last).1
                cases outcome with
                | error e =>
                    obtain ⟨code, rfl⟩ := fetch_error (careful_fetchw _) last
                    have failed : internRemoteTable world addr s = (.error (.err code), s₂) := by
                      rw [internRemoteTable, bind_of_ok head]
                      dsimp only
                      rw [bind_of_error last]
                    exact nothing_of_error failed grows (.refl _) (.inl rfl)
                | ok value =>
                    obtain ⟨tableData, next⟩ := value
                    obtain ⟨noLast, lastRead⟩ := fetch_ok (careful_fetchw _) last
                    have done : internRemoteTable world addr s =
                        (.ok (.rti ⟨namePtr, segbase, tableLen, tableData⟩), s₂) := by
                      rw [internRemoteTable, bind_of_ok head]
                      dsimp only
                      rw [bind_of_ok last]
                      rfl
                    rw [onError_ok_iff.mpr done]
                    refine .all (noHead.append noLast) ?_ ⟨notDynamic, notTable⟩ trivial ?_
                    · exact ⟨name, base, len, (stored_of_fetchw lastRead).1⟩
                    · rw [State.blocks, if_neg notDynamic, if_neg notTable]
                      exact grows
  · exact nothing_of_error rfl (.refl s) (.refl _) (.inl rfl)

/-- Interning is all or nothing exactly where the list of regions ends without an overflow, and the
    words of a table are all fetched, from where the table is. -/
theorem internDynInfo_iff (world : World w) (r : Reader w) (format : BitVec 32) (addr : Word w)
    (s : State w) :
    (∃ least, ∀ depth, least ≤ depth →
      AllOrNothing world r format addr s (internDynInfo world r depth addr format s)) ↔
      Interns world r format addr s := by
  by_cases dynamic : format = formatDynamic
  · subst dynamic
    constructor
    · intro whole
      obtain ⟨least, whole⟩ := whole
      refine ⟨?_, fun table => absurd table (by decide)⟩
      intro _ namePtr handler flags firstRegion k head
      have returns := returns_of_onError (returns_of_allOrNothing (whole least (Nat.le_refl _)))
      obtain ⟨s₁, fetched, rfl, sameCallocs⟩ := fetch_of_run head
      rw [if_pos rfl, internProc, bind_of_ok fetched] at returns
      dsimp only at returns
      have cleared : setRegions [] s₁ = (.ok (), { s₁ with regions := [] }) := rfl
      rw [bind_of_ok cleared] at returns
      have ends := regionsEnd_of_returns (returns_of_bind returns)
      rw [← sameCallocs]
      exact ends
    · intro interns
      cases head : (procHead r addr).run world.answer s.fetches with
      | mk outcome k =>
          cases outcome with
          | error e =>
              refine ⟨0, fun depth _ => internDynInfo_dynamic ?_⟩
              intro _ _ _ _ _ headOk
              rw [head] at headOk
              cases headOk
          | ok value =>
              obtain ⟨namePtr, handler, flags, firstRegion⟩ := value
              obtain ⟨least, walked⟩ :=
                returns_of_regionsEnd (interns.regions rfl _ _ _ _ _ head)
              refine ⟨least, fun depth deep => internDynInfo_dynamic ?_⟩
              intro _ _ _ _ _ headOk s₁ sameFetches sameCallocs
              rw [head] at headOk
              cases headOk
              exact walked depth deep s₁ sameFetches sameCallocs
  · by_cases table : format = formatTable
    · subst table
      constructor
      · intro whole
        obtain ⟨least, whole⟩ := whole
        exact internDynInfo_table.mp (whole least (Nat.le_refl _))
      · exact fun interns => ⟨0, fun depth _ => internDynInfo_table.mpr interns⟩
    · refine iff_of_true ⟨0, fun depth _ => internDynInfo_other dynamic table⟩ ⟨?_, ?_⟩
      · exact fun same => absurd same dynamic
      · exact fun same => absurd same table

end Outcomes

/-! ## A table with a word that cannot be fetched -/

namespace WordLost

def reader : Reader 64 where
  bigEndian := false
  calloc _ := true
  search _ _ pi _ := { ret := .error (.err .noinfo), pi }

/-- A table of one word at `0x2000`. The fourth fetch, which is that word's, fails. -/
def world : World 64 where
  mem addr := if addr = 0x1010 then 1 else if addr = 0x1018 then 0x2000 else 0
  fetchFails k := if k = 3 then some .inval else none
  callocFails _ := false

def start : State 64 where
  fetches := 0
  callocs := 0
  allocated := []
  freed := []
  regions := []
  tableData := none

/-- The return is 0, and the union a table of one word with no words. -/
theorem word_lost :
    ¬ ∃ least, ∀ depth, least ≤ depth →
      AllOrNothing world reader formatTable 0x1000 start
        (internDynInfo world reader depth 0x1000 formatTable start) := by
  intro whole
  obtain ⟨least, whole⟩ := whole
  have ran : internDynInfo world reader least 0x1000 formatTable start =
      (.ok (.ti ⟨0, 0, 1, none⟩),
        { start with fetches := 4, callocs := 1, allocated := [0], freed := [0] }) := rfl
  have kept := whole least (Nat.le_refl least)
  rw [ran] at kept
  exact not_allOrNothing_of_freed rfl kept

end WordLost

end Libunwind.Dyn.Owned
