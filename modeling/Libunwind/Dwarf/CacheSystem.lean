import Libunwind.Dwarf.ApplyRegState
import Libunwind.Dwarf.CacheIndices
import Libunwind.Dwarf.CacheTransparency

/-! # Caches that are resized

An address space with its caches, and the cursors that step through them while
the caches are flushed, resized and switched. A cursor keeps its hint and its
previous entry through all of that. They are in range of every cache that is no
smaller than the last one the cursor stepped through; a step through a smaller
one reads and writes out of bounds.
-/

namespace Libunwind.Dwarf

variable {n w : Nat} {τ : Type}

/-! ## A call and its visits -/

section Call

variable (t : Target n w τ) (tables : UnwindTables n w) (policy : CachingPolicy)
  (first second : CacheVisit n w) (cache : RsCache n w) (c : Cursor n w τ)

def Found.left (found : Found n w τ) : Result (RegState n w) × Cursor n w τ × RsCache n w :=
  (found.result, found.cursor, found.cache)

/-- What a call leaves, after its last visit to the cache. -/
def afterVisit : Result (RsCache n w × Cursor n w τ × RegState n w) →
    Result (RegState n w) × Cursor n w τ × RsCache n w
  | .error fault => (.error fault, c, cache)
  | .ok (cache, c, rs) => (.ok rs, c, cache)

/-- What follows a first visit in vain. -/
def missVisit : Result (RegState n w) × Cursor n w τ × RsCache n w :=
  match computeState t tables c with
  | (.error fault, c) => (.error fault, c, cache)
  | (.ok rs, c) =>
      let again := getRsCache policy second cache
      if again.present then afterVisit again.cache c (secondVisit t again.cache c rs)
      else (.ok rs, c, again.cache)

/-- Every index into the arrays of the cache that a call uses is in range. -/
def IndicesInRange : Prop :=
  let got := getRsCache policy first cache
  let again := getRsCache policy second got.cache
  (got.present = true → InBounds (firstVisit t got.cache c)) ∧
    ((got.present = true → firstVisit t got.cache c = .ok none) →
      ∀ rs c', computeState t tables c = (.ok rs, c') →
        again.present = true → InBounds (secondVisit t again.cache c' rs))

theorem Found.ofEntry_left (trace : List LockTrace.Action)
    (entry : Result (RsCache n w × Cursor n w τ × Nat × RegState n w)) :
    (Found.ofEntry t policy trace c cache entry).left = afterVisit cache c (do
      let (cache, c, i, rs) ← entry
      let (cache, c) ← useEntry t cache c i
      pure (cache, c, rs)) := by
  unfold Found.ofEntry
  cases entry with
  | error fault => rfl
  | ok entry =>
      obtain ⟨cache₁, c₁, i, rs⟩ := entry
      simp only [ok_bind]
      cases useEntry t cache₁ c₁ i with
      | error fault => rfl
      | ok used => rfl

theorem findRegState_miss
    (missed : (if (getRsCache policy first cache).present then
      rsLookup (getRsCache policy first cache).cache c else pure none) = .ok none) :
    (findRegState t tables policy first second id cache c).left =
      missVisit t tables policy second (getRsCache policy first cache).cache c := by
  unfold findRegState missVisit
  dsimp only [id_eq]
  rw [missed]
  dsimp only
  obtain ⟨_ | rs, c'⟩ := computeState t tables c
  · rfl
  · dsimp only
    split
    · rw [Found.ofEntry_left, secondVisit]
      congr 1
      cases enterState t (getRsCache policy second (getRsCache policy first cache).cache).cache c' rs
        <;> rfl
    · rfl

/-- `find_reg_state` visits the cache once, or twice with a computation between. -/
theorem findRegState_left :
    (findRegState t tables policy first second id cache c).left =
      match if (getRsCache policy first cache).present then
          firstVisit t (getRsCache policy first cache).cache c else pure none with
      | .error fault => (.error fault, c, (getRsCache policy first cache).cache)
      | .ok (some visited) => afterVisit (getRsCache policy first cache).cache c (.ok visited)
      | .ok none => missVisit t tables policy second (getRsCache policy first cache).cache c := by
  by_cases present : (getRsCache policy first cache).present = true
  · rw [if_pos present]
    cases lookedUp : rsLookup (getRsCache policy first cache).cache c with
    | error fault =>
        rw [firstVisit, lookedUp]
        unfold findRegState
        dsimp only
        rw [if_pos present, lookedUp]
        rfl
    | ok found =>
        cases found with
        | none =>
            rw [firstVisit, lookedUp]
            exact findRegState_miss t tables policy first second cache c
              (by rw [if_pos present, lookedUp])
        | some i =>
            rw [firstVisit, lookedUp]
            unfold findRegState
            dsimp only
            rw [if_pos present, lookedUp]
            dsimp only
            rw [Found.ofEntry_left, ok_bind]
            dsimp only
            cases readEntry (getRsCache policy first cache).cache c i with
            | error fault => rfl
            | ok read =>
                simp only [ok_bind, pure_eq_ok]
                cases useEntry t (getRsCache policy first cache).cache read.1 i <;> rfl
  · rw [if_neg present]
    exact findRegState_miss t tables policy first second cache c (by rw [if_neg present]; rfl)

/-- Without a caching policy a call leaves the caches alone. -/
theorem findRegState_uncached :
    (findRegState t tables .none first second id cache c).cache = cache := by
  change (findRegState t tables .none first second id cache c).left.2.2 = cache
  rw [findRegState_left]
  simp only [getRsCache, if_true, Bool.false_eq_true, if_false, pure_eq_ok, missVisit]
  split <;> rfl

end Call

/-! ## Getting a cache -/

section Get

variable {policy : CachingPolicy} {visit : CacheVisit n w} {cache cache' : RsCache n w}

/-- A cache that has arrays has them all, and its own indices are in range. -/
def RsCache.Ready (cache : RsCache n w) : Prop :=
  cache.hash.isNone = false → ∃ hash links buckets, cache.Installed hash links buckets

/-- The size that a visit finds in a cache, or flushes it to. -/
def CacheVisit.logSize (visit : CacheVisit n w) (cache : RsCache n w) : ℕ :=
  if visit.needsFlush cache then
    if cache.hash.isNone then defaultLogCacheSize else visit.globalLogSize
  else cache.logSize

theorem installed_install (cache : RsCache n w) (memory : CacheMemory n w) {logSize : ℕ}
    (small : logSize ≤ 15) :
    ∃ hash links buckets, (cache.install memory logSize).Installed hash links buckets := by
  obtain ⟨hash, links, buckets, table⟩ := isTable_install cache memory small
  refine ⟨hash, links, buckets, table.toArrays, table.rrHead_lt, fun i link isLink valid => ?_⟩
  have isIp := table.entries i (by
    rw [← table.linksLong]
    exact (List.getElem?_eq_some_iff.mp isLink).1)
  rw [entryIp_eq isLink, CacheEntry.validIp, if_pos valid] at isIp
  cases isIp

/-- What a flush leaves when its memory is granted. -/
theorem flushRsCache_installed {memory : CacheMemory n w} (small : cache.logSize ≤ 15)
    (flushed : flushRsCache memory cache = (true, cache')) :
    (∃ hash links buckets, cache'.Installed hash links buckets) ∧
      cache'.logSize = if cache.hash.isNone then defaultLogCacheSize else cache.logSize := by
  rw [flushRsCache] at flushed
  split at flushed
  next default =>
    cases flushed
    refine ⟨installed_install cache memory (by norm_num [defaultLogCacheSize]), ?_⟩
    rw [RsCache.usesDefault, Bool.or_eq_true, beq_iff_eq] at default
    split
    · rfl
    · next present => exact (default.resolve_right present).symm
  next own =>
    split at flushed
    · obtain ⟨hash, links, buckets, installed⟩ := installed_install cache memory small
      cases flushed
      refine ⟨⟨hash, links, buckets, { installed, installed.toArrays with }⟩, ?_⟩
      rw [RsCache.usesDefault, Bool.or_eq_true, not_or] at own
      rw [if_neg own.2]
      rfl
    · cases flushed

/-- A flush that is refused leaves the size. -/
theorem flushRsCache_refused {memory : CacheMemory n w}
    (refused : flushRsCache memory cache = (false, cache')) :
    cache'.logSize = cache.logSize ∧ cache.hash.isNone = false := by
  rw [flushRsCache] at refused
  split at refused
  · cases refused
  next own =>
    rw [RsCache.usesDefault, Bool.or_eq_true, not_or] at own
    split at refused
    · cases refused
    · cases refused
      exact ⟨rfl, Bool.eq_false_iff.mpr own.2⟩

theorem CacheVisit.logSize_le (small : visit.globalLogSize ≤ 15) (cacheSmall : cache.logSize ≤ 15) :
    visit.logSize cache ≤ 15 := by
  rw [CacheVisit.logSize]
  split
  · split
    · norm_num [defaultLogCacheSize]
    · exact small
  · exact cacheSmall

/-- What a visit to a cache that is in use gets. -/
theorem getRsCache_logSize (uses : policy ≠ .none) (small : visit.globalLogSize ≤ 15)
    (ready : visit.needsFlush cache = false → cache.Ready) :
    (getRsCache policy visit cache).cache.logSize = visit.logSize cache ∧
      ((getRsCache policy visit cache).present = true →
        (∃ hash links buckets,
          (getRsCache policy visit cache).cache.Installed hash links buckets) ∧
        (getRsCache policy visit cache).cache.generation = visit.generation) ∧
      ((getRsCache policy visit cache).present = false →
        (getRsCache policy visit cache).cache.generation = cache.generation ∧
          visit.generation ≠ cache.generation) := by
  by_cases needs : visit.needsFlush cache = true
  · rw [CacheVisit.logSize, if_pos needs]
    rcases flushed : flushRsCache visit.memory { cache with logSize := visit.globalLogSize } with
      ⟨_ | _, cache'⟩
    · have got : (getRsCache policy visit cache).cache = cache' ∧
          (getRsCache policy visit cache).present = false := by
        simp only [getRsCache, if_neg uses, if_pos needs, flushed, and_self]
      obtain ⟨sameSize, present⟩ := flushRsCache_refused flushed
      obtain ⟨stale, kept⟩ := getRsCache_absent uses got.2
      rw [got.1] at kept ⊢
      rw [got.2]
      refine ⟨?_, (by rintro ⟨⟩), fun _ => ⟨kept, stale⟩⟩
      rw [sameSize, if_neg (by rw [present]; exact Bool.false_ne_true)]
    · have got : getRsCache policy visit cache =
          { getRsCache policy visit cache with
            present := true, cache := { cache' with generation := visit.generation } } := by
        simp only [getRsCache, if_neg uses, if_pos needs, flushed]
      obtain ⟨⟨hash, links, buckets, installed⟩, size⟩ := flushRsCache_installed small flushed
      rw [got]
      exact ⟨size, fun _ => ⟨⟨hash, links, buckets, { installed, installed.toArrays with }⟩, rfl⟩,
        fun absent => by cases absent⟩
  · have current := Bool.eq_false_iff.mpr needs
    have got : (getRsCache policy visit cache).cache = cache ∧
        (getRsCache policy visit cache).present = true := by
      simp only [getRsCache, if_neg uses, if_neg needs, and_self]
    rw [got.1, got.2, CacheVisit.logSize, if_neg needs]
    refine ⟨rfl, fun _ => ⟨ready current ?_, CacheVisit.generation_of_current current⟩,
      fun absent => by cases absent⟩
    rw [CacheVisit.needsFlush, Bool.or_eq_false_iff] at current
    exact current.2

end Get

/-! ## One step -/

section Step

variable {t : Target n w τ} {tables : UnwindTables n w} {policy : CachingPolicy}
  {first second : CacheVisit n w} {cache : RsCache n w} {c : Cursor n w τ}

theorem fetchProcInfo_within {size : ℕ} (within : c.Within size) :
    (fetchProcInfo t tables c).2.Within size := by
  have kept : (fetchProcInfo t tables c).2.hint = c.hint ∧
      (fetchProcInfo t tables c).2.prevRs = c.prevRs := by
    unfold fetchProcInfo
    split
    · exact ⟨rfl, rfl⟩
    · split
      · split <;> exact ⟨rfl, rfl⟩
      · exact ⟨rfl, rfl⟩
  exact ⟨by rw [Cursor.HintWithin, kept.1]; exact within.hint, by rw [kept.2]; exact within.prevRs⟩

theorem computeState_within {size : ℕ} (within : c.Within size) :
    (computeState t tables c).2.Within size := by
  have fetched : (fetchProcInfo t tables c).2.Within size := fetchProcInfo_within within
  exact ⟨fetched.hint, fetched.prevRs⟩

/-- What a call relies on: the cursor's entries are in the cache as each visit
    finds it. -/
structure FitsVisits (policy : CachingPolicy) (first second : CacheVisit n w)
    (cache : RsCache n w) (c : Cursor n w τ) : Prop where
  atFirst : c.Within (cacheSize (first.logSize cache))
  atSecond : c.Within (cacheSize (second.logSize (getRsCache policy first cache).cache))

/-- What a call leaves: a cursor that is within its cache, and a cache that is
    in order or still to be flushed. -/
structure LeavesFit (generation : BitVec 32) (before after : RsCache n w) (c : Cursor n w τ) :
    Prop where
  logSize_le : after.logSize ≤ 15
  within : c.Within (cacheSize after.logSize)
  current : (after.generation = generation ∧
      ∃ hash links buckets, after.Installed hash links buckets) ∨
    (after.generation = before.generation ∧ generation ≠ before.generation)

theorem LeavesWithin.leavesFit {generation : BitVec 32} {before cache after : RsCache n w}
    (leaves : LeavesWithin cache after c) (current : cache.generation = generation) :
    LeavesFit generation before after c := by
  obtain ⟨⟨hash, links, buckets, installed⟩, sameSize, sameGeneration, within⟩ := leaves
  refine ⟨installed.logSize_le, by rwa [sameSize], .inl ⟨sameGeneration.trans current, _, _, _,
    installed⟩⟩

/-- A visit to a cache that the cursor is within. -/
theorem firstVisit_fits {generation : BitVec 32} {before : RsCache n w}
    (installed : ∃ hash links buckets, cache.Installed hash links buckets)
    (current : cache.generation = generation) (within : c.Within (cacheSize cache.logSize)) :
    InBounds (firstVisit t cache c) ∧ ∀ visited, firstVisit t cache c = .ok (some visited) →
      LeavesFit generation before visited.1 visited.2.1 := by
  obtain ⟨hash, links, buckets, installed⟩ := installed
  obtain ⟨inBounds, leaves⟩ := firstVisit_within (t := t) installed within
  exact ⟨inBounds, fun ⟨cache', c', rs⟩ visited => (leaves cache' c' rs visited).leavesFit current⟩

theorem afterVisit_fits {generation : BitVec 32} {before : RsCache n w}
    (installed : ∃ hash links buckets, cache.Installed hash links buckets)
    (current : cache.generation = generation) (within : c.Within (cacheSize cache.logSize))
    (computed : RegState n w) :
    InBounds (secondVisit t cache c computed) ∧
      LeavesFit generation before (afterVisit cache c (secondVisit t cache c computed)).2.2
        (afterVisit cache c (secondVisit t cache c computed)).2.1 := by
  obtain ⟨hash, links, buckets, installed⟩ := installed
  obtain ⟨inBounds, leaves⟩ := secondVisit_within (t := t) installed within computed
  refine ⟨inBounds, ?_⟩
  cases visited : secondVisit t cache c computed with
  | error fault =>
      exact ⟨installed.logSize_le, within, .inl ⟨current, hash, links, buckets, installed⟩⟩
  | ok visited' =>
      obtain ⟨cache', c', rs⟩ := visited'
      exact (leaves cache' c' rs visited).leavesFit current

/-- What a first visit gets can be visited again. -/
theorem ready_again (uses : policy ≠ .none) (small : first.globalLogSize ≤ 15)
    (sameGeneration : second.generation = first.generation)
    (ready : first.needsFlush cache = false → cache.Ready) :
    second.needsFlush (getRsCache policy first cache).cache = false →
      (getRsCache policy first cache).cache.Ready := by
  obtain ⟨-, present, absent⟩ := getRsCache_logSize uses small ready
  intro current _
  cases served : (getRsCache policy first cache).present with
  | true => exact (present served).1
  | false =>
      obtain ⟨kept, stale⟩ := absent served
      have := CacheVisit.generation_of_current current
      rw [kept, sameGeneration] at this
      exact absurd this.symm stale

/-- The second visit of a call, and what the call leaves then. -/
theorem missVisit_fits (uses : policy ≠ .none) (small : first.globalLogSize ≤ 15)
    (cacheSmall : cache.logSize ≤ 15) (sameGeneration : second.generation = first.generation)
    (sameSize : second.globalLogSize = first.globalLogSize)
    (ready : first.needsFlush cache = false → cache.Ready)
    (fits : FitsVisits policy first second cache c) :
    (∀ rs c', computeState t tables c = (.ok rs, c') →
        (getRsCache policy second (getRsCache policy first cache).cache).present = true →
        InBounds (secondVisit t
          (getRsCache policy second (getRsCache policy first cache).cache).cache c' rs)) ∧
      LeavesFit first.generation cache
        (missVisit t tables policy second (getRsCache policy first cache).cache c).2.2
        (missVisit t tables policy second (getRsCache policy first cache).cache c).2.1 := by
  have ready' : second.needsFlush (getRsCache policy first cache).cache = false →
      (getRsCache policy first cache).cache.Ready := ready_again uses small sameGeneration ready
  obtain ⟨firstSize, firstPresent, firstAbsent⟩ := getRsCache_logSize uses small ready
  obtain ⟨secondSize, secondPresent, secondAbsent⟩ :=
    getRsCache_logSize uses (by rwa [sameSize] : second.globalLogSize ≤ 15) ready'
  have gotSmall : (getRsCache policy first cache).cache.logSize ≤ 15 := by
    rw [firstSize]
    exact CacheVisit.logSize_le small cacheSmall
  have againSmall :
      (getRsCache policy second (getRsCache policy first cache).cache).cache.logSize ≤ 15 := by
    rw [secondSize]
    exact CacheVisit.logSize_le (by rwa [sameSize]) gotSmall
  have atFirst := fits.atFirst
  have atSecond := fits.atSecond
  rw [← firstSize] at atFirst
  rw [← secondSize] at atSecond
  have atFirst' : (computeState t tables c).2.Within
      (cacheSize (getRsCache policy first cache).cache.logSize) := computeState_within atFirst
  have atSecond' : (computeState t tables c).2.Within
      (cacheSize (getRsCache policy second (getRsCache policy first cache).cache).cache.logSize) :=
    computeState_within atSecond
  rw [missVisit]
  rcases computed : computeState t tables c with ⟨_ | rs, c'⟩
  · rw [computed] at atFirst'
    refine ⟨fun _ _ other => (by cases other), gotSmall, atFirst', ?_⟩
    cases served : (getRsCache policy first cache).present with
    | true => exact .inl ⟨(firstPresent served).2, (firstPresent served).1⟩
    | false => exact .inr (firstAbsent served)
  · rw [computed] at atSecond'
    dsimp only
    cases served : (getRsCache policy second (getRsCache policy first cache).cache).present with
    | true =>
        obtain ⟨installed, current⟩ := secondPresent served
        rw [sameGeneration] at current
        obtain ⟨inBounds, leaves⟩ := afterVisit_fits installed current atSecond' rs
        rw [if_pos rfl]
        refine ⟨?_, leaves⟩
        rintro _ _ ⟨⟩ -
        exact inBounds
    | false =>
        rw [if_neg Bool.false_ne_true]
        refine ⟨fun _ _ _ present => (by cases present), againSmall, atSecond', .inr ?_⟩
        obtain ⟨kept, stale⟩ := secondAbsent served
        rw [sameGeneration] at stale
        cases servedFirst : (getRsCache policy first cache).present with
        | true => exact absurd (firstPresent servedFirst).2.symm stale
        | false => exact ⟨kept.trans (firstAbsent servedFirst).1, (firstAbsent servedFirst).2⟩

/-- A call that fits its visits uses indices in range only. -/
theorem findRegState_fits (uses : policy ≠ .none) (small : first.globalLogSize ≤ 15)
    (cacheSmall : cache.logSize ≤ 15) (sameGeneration : second.generation = first.generation)
    (sameSize : second.globalLogSize = first.globalLogSize)
    (ready : first.needsFlush cache = false → cache.Ready)
    (fits : FitsVisits policy first second cache c) :
    IndicesInRange t tables policy first second cache c ∧
      LeavesFit first.generation cache
        (findRegState t tables policy first second id cache c).left.2.2
        (findRegState t tables policy first second id cache c).left.2.1 := by
  rw [findRegState_left, IndicesInRange]
  obtain ⟨second', missed⟩ :=
    missVisit_fits uses small cacheSmall sameGeneration sameSize ready fits
  cases served : (getRsCache policy first cache).present with
  | false =>
      rw [if_neg Bool.false_ne_true]
      exact ⟨⟨fun present => (by cases present), fun _ => second'⟩, missed⟩
  | true =>
      rw [if_pos rfl]
      obtain ⟨firstSize, firstPresent, -⟩ := getRsCache_logSize uses small ready
      obtain ⟨installed, current⟩ := firstPresent served
      have atFirst := fits.atFirst
      rw [← firstSize] at atFirst
      obtain ⟨inBounds, leaves⟩ := firstVisit_fits installed current atFirst
      refine ⟨⟨fun _ => inBounds, fun _ => second'⟩, ?_⟩
      cases visited : firstVisit t (getRsCache policy first cache).cache c with
      | error fault =>
          obtain ⟨hash, links, buckets, installed⟩ := installed
          exact ⟨installed.logSize_le, atFirst, .inl ⟨current, hash, links, buckets, installed⟩⟩
      | ok found =>
          cases found with
          | none => exact missed
          | some visited' => exact leaves visited' visited

end Step

/-! ## Runs -/

variable {κ ι : Type}

/-- How libunwind was configured. -/
structure CacheBuild where
  /-- `HAVE___CACHE_PER_THREAD`. -/
  perThread : Bool
  /-- `HAVE___THREAD`. -/
  thread : Bool

/-- An address space with its cursors and caches: its `global_cache` is `none`,
    and a thread has its `tls_cache`. For each cache, `pending` counts the
    flushes that it has still to follow. -/
structure CacheSystem (κ ι : Type) (n w : ℕ) (τ : Type) where
  generation : BitVec 32 := 0
  policy : CachingPolicy
  caches : Option κ → RsCache n w := fun _ => { logSize := 0 }
  pending : Option κ → ℕ := fun _ => 0
  cursors : ι → Cursor n w τ

/-- A call of `dwarf_step`, with the memory that its visits to the cache find. -/
structure DwarfStep (κ ι : Type) (n w : ℕ) where
  thread : κ
  cursor : ι
  tables : UnwindTables n w
  as : AddrSpace w
  budget : ℕ
  first : CacheMemory n w := {}
  second : CacheMemory n w := {}

/-- The loop of `unw_set_cache_size` that rounds the size up; it stops at the
    largest one that is supported. -/
def roundLogSize (size : ℕ) : ℕ → ℕ → ℕ
  | 0, logSize => logSize
  | rounds + 1, logSize =>
      if 2 ^ logSize < size then roundLogSize size rounds (logSize + 1) else logSize

namespace CacheSystem

/-- The cache that the policy selects in `get_rs_cache`. -/
def select (build : CacheBuild) (system : CacheSystem κ ι n w τ) (thread : κ) : Option κ :=
  if build.perThread = true ∧ system.policy = .perThread then some thread else none

/-- What a visit finds in the address space. A second visit flushes only after
    a flush that was refused, which leaves `log_size`. -/
def visit (system : CacheSystem κ ι n w τ) (memory : CacheMemory n w) : CacheVisit n w where
  generation := system.generation
  globalLogSize := (system.caches none).logSize
  memory := memory

/-- The `find_reg_state` of a call. -/
def find (build : CacheBuild) (t : Target n w τ) (system : CacheSystem κ ι n w τ)
    (call : DwarfStep κ ι n w) : Found n w τ :=
  findRegState t call.tables system.policy (system.visit call.first) (system.visit call.second) id
    (system.caches (system.select build call.thread)) (system.cursors call.cursor)

/-- `dwarf_step`: the cursor that it leaves. -/
def stepped (t : Target n w τ) (call : DwarfStep κ ι n w) (found : Found n w τ) : Cursor n w τ :=
  match found.result with
  | .ok rs => (applyRegState t call.as call.budget found.cursor rs).2
  | .error _ => found.cursor

variable [DecidableEq κ] [DecidableEq ι]

def step (build : CacheBuild) (t : Target n w τ) (system : CacheSystem κ ι n w τ)
    (call : DwarfStep κ ι n w) : CacheSystem κ ι n w τ :=
  let found := system.find build t call
  let k := system.select build call.thread
  { system with
    caches := Function.update system.caches k found.cache
    pending :=
      if system.policy ≠ .none ∧ found.cache.generation = system.generation then
        Function.update system.pending k 0
      else system.pending
    cursors := Function.update system.cursors call.cursor (stepped t call found) }

/-- `unw_flush_cache`. -/
def flush (system : CacheSystem κ ι n w τ) : CacheSystem κ ι n w τ :=
  { system with
    generation := system.generation + 1
    pending := fun k => system.pending k + 1 }

/-- `unw_set_caching_policy`. -/
def setCachingPolicy (build : CacheBuild) (system : CacheSystem κ ι n w τ)
    (policy : CachingPolicy) : CacheSystem κ ι n w τ :=
  let policy := if !build.thread ∧ policy = .perThread then .global else policy
  if policy = system.policy then system else { system with policy }.flush

/-- `unw_set_cache_size`. -/
def setCacheSize (build : CacheBuild) (system : CacheSystem κ ι n w τ) (size : ℕ) (flag : Int)
    (memory : CacheMemory n w) : CacheSystem κ ι n w τ :=
  let logSize := roundLogSize size 15 0
  if flag ≠ 0 ∨ build.thread ∨ logSize = (system.caches none).logSize then system
  else
    let resized := { system.caches none with logSize }
    { system.flush with
      caches := Function.update system.caches none (flushRsCache memory resized).2 }

/-- Sets a cursor up, copies one, or moves one by other means than `dwarf_step`. -/
def setCursor (system : CacheSystem κ ι n w τ) (i : ι) (c : Cursor n w τ) :
    CacheSystem κ ι n w τ :=
  { system with cursors := Function.update system.cursors i c }

/-- Every index into a cache that a call uses is in range. -/
def IndicesInRange (build : CacheBuild) (t : Target n w τ) (system : CacheSystem κ ι n w τ)
    (call : DwarfStep κ ι n w) : Prop :=
  Dwarf.IndicesInRange t call.tables system.policy (system.visit call.first)
    (system.visit call.second) (system.caches (system.select build call.thread))
    (system.cursors call.cursor)

/-- What a call has to meet: the cursor's entries are in the cache as its visits
    find it, and the cache is not a whole cycle of `cache_generation` behind. -/
structure Fits (build : CacheBuild) (system : CacheSystem κ ι n w τ) (call : DwarfStep κ ι n w) :
    Prop where
  pending : system.pending (system.select build call.thread) < 2 ^ 32
  visits : FitsVisits system.policy (system.visit call.first) (system.visit call.second)
    (system.caches (system.select build call.thread)) (system.cursors call.cursor)

section Visited

variable {build : CacheBuild} {t : Target n w τ} {system : CacheSystem κ ι n w τ}
  {call : DwarfStep κ ι n w}

/-- A step without a cache leaves the caches alone. -/
theorem step_uncached (unused : system.policy = .none) :
    (system.step build t call).caches = system.caches ∧
      (system.step build t call).pending = system.pending := by
  have kept : (system.find build t call).cache = system.caches (system.select build call.thread) := by
    rw [CacheSystem.find, unused]
    exact findRegState_uncached ..
  constructor
  · simp only [CacheSystem.step, kept, Function.update_eq_self]
  · simp [CacheSystem.step, unused]

/-- A step leaves the cache that it selects as its visits do. -/
theorem step_own (uses : system.policy ≠ .none) :
    (system.step build t call).caches (system.select build call.thread) =
        (system.find build t call).cache ∧
      (system.step build t call).pending (system.select build call.thread) =
        if (system.find build t call).cache.generation = system.generation then 0
        else system.pending (system.select build call.thread) := by
  constructor
  · simp only [CacheSystem.step, Function.update_self]
  · simp only [CacheSystem.step, uses, ne_eq, not_false_eq_true, true_and]
    split
    · rw [Function.update_self]
    · rfl

/-- A step leaves every other cache alone. -/
theorem step_others {k : Option κ} (other : k ≠ system.select build call.thread) :
    (system.step build t call).caches k = system.caches k ∧
      (system.step build t call).pending k = system.pending k := by
  constructor
  · simp only [CacheSystem.step, Function.update_of_ne other]
  · simp only [CacheSystem.step]
    split
    · rw [Function.update_of_ne other]
    · rfl

end Visited

end CacheSystem

/-- The systems that runs lead to whose calls of `dwarf_step` are `allowed`. -/
inductive SystemRun [DecidableEq κ] [DecidableEq ι] (build : CacheBuild) (t : Target n w τ)
    (allowed : CacheSystem κ ι n w τ → DwarfStep κ ι n w → Prop) :
    CacheSystem κ ι n w τ → Prop where
  | start (policy : CachingPolicy) (cursors : ι → Cursor n w τ) :
      (∀ i, (cursors i).hint = 0 ∧ (cursors i).prevRs = 0) →
        SystemRun build t allowed { policy, cursors }
  | step {system : CacheSystem κ ι n w τ} (call : DwarfStep κ ι n w) :
      SystemRun build t allowed system → allowed system call →
        SystemRun build t allowed (system.step build t call)
  | flush {system : CacheSystem κ ι n w τ} :
      SystemRun build t allowed system → SystemRun build t allowed system.flush
  | setCachingPolicy {system : CacheSystem κ ι n w τ} (policy : CachingPolicy) :
      SystemRun build t allowed system →
        SystemRun build t allowed (system.setCachingPolicy build policy)
  | setCacheSize {system : CacheSystem κ ι n w τ} (size : ℕ) (flag : Int)
      (memory : CacheMemory n w) :
      SystemRun build t allowed system →
        SystemRun build t allowed (system.setCacheSize build size flag memory)
  | init {system : CacheSystem κ ι n w τ} (i : ι) (c : Cursor n w τ) :
      SystemRun build t allowed system → c.hint = 0 → c.prevRs = 0 →
        SystemRun build t allowed (system.setCursor i c)
  | move {system : CacheSystem κ ι n w τ} (i j : ι) (c : Cursor n w τ) :
      SystemRun build t allowed system → c.hint = (system.cursors j).hint →
        c.prevRs = (system.cursors j).prevRs → SystemRun build t allowed (system.setCursor i c)

theorem roundLogSize_le (size rounds logSize : ℕ) :
    roundLogSize size rounds logSize ≤ rounds + logSize := by
  induction rounds generalizing logSize with
  | zero => exact (Nat.zero_add logSize).ge
  | succ rounds ih =>
      rw [roundLogSize]
      split
      · exact (ih (logSize + 1)).trans_eq (by omega)
      · omega

theorem flushRsCache_logSize_le {cache : RsCache n w} {memory : CacheMemory n w}
    (small : cache.logSize ≤ 15) : (flushRsCache memory cache).2.logSize ≤ 15 := by
  rcases flushed : flushRsCache memory cache with ⟨_ | _, cache'⟩
  · exact (flushRsCache_refused flushed).1.trans_le small
  · obtain ⟨⟨hash, links, buckets, installed⟩, -⟩ := flushRsCache_installed small flushed
    exact installed.logSize_le

/-- The cache is a number of flushes behind, and in order if that is zero. -/
structure CacheSound (generation : BitVec 32) (cache : RsCache n w) (pending : ℕ) : Prop where
  logSize_le : cache.logSize ≤ 15
  behind : generation = cache.generation + BitVec.ofNat 32 pending
  ready : pending = 0 → cache.Ready

namespace CacheSound

variable {generation : BitVec 32} {cache : RsCache n w} {pending : ℕ}

theorem flush (sound : CacheSound generation cache pending) :
    CacheSound (generation + 1) cache (pending + 1) where
  logSize_le := sound.logSize_le
  behind := by
    rw [sound.behind, BitVec.ofNat_add, BitVec.add_assoc, BitVec.ofNat_eq_ofNat]
  ready := fun none => absurd none (Nat.succ_ne_zero _)

/-- A flush out of turn does not make up for the ones that are pending. -/
theorem resize (sound : CacheSound generation cache (pending + 1)) (memory : CacheMemory n w)
    {logSize : ℕ} (small : logSize ≤ 15) :
    CacheSound generation (flushRsCache memory { cache with logSize }).2 (pending + 1) where
  logSize_le := flushRsCache_logSize_le small
  behind := by
    rw [flushRsCache_generation]
    exact sound.behind
  ready := fun none => absurd none (Nat.succ_ne_zero _)

/-- A cache of the current generation is ready, unless it is a whole cycle behind. -/
theorem ready_of_current (sound : CacheSound generation cache pending) (few : pending < 2 ^ 32)
    (current : cache.generation = generation) : cache.Ready := by
  refine sound.ready ?_
  have behind := sound.behind
  rw [current] at behind
  have zero := congrArg BitVec.toNat (BitVec.self_eq_add_right.mp behind)
  rwa [BitVec.toNat_ofNat, Nat.mod_eq_of_lt few] at zero

/-- What a call leaves. -/
theorem left (sound : CacheSound generation cache pending) {after : RsCache n w}
    {c : Cursor n w τ} (leaves : LeavesFit generation cache after c) :
    CacheSound generation after (if after.generation = generation then 0 else pending) := by
  obtain ⟨current, installed⟩ | ⟨kept, stale⟩ := leaves.current
  · rw [if_pos current]
    exact ⟨leaves.logSize_le, by rw [current]; exact (BitVec.add_zero _).symm, fun _ _ => installed⟩
  · rw [if_neg (by rw [kept]; exact stale.symm)]
    refine ⟨leaves.logSize_le, by rw [kept]; exact sound.behind, fun none => ?_⟩
    have behind := sound.behind
    rw [none] at behind
    exact absurd (behind.trans (BitVec.add_zero _)) stale

end CacheSound

def SystemSound (system : CacheSystem κ ι n w τ) : Prop :=
  ∀ k, CacheSound system.generation (system.caches k) (system.pending k)

namespace SystemSound

variable {build : CacheBuild} {t : Target n w τ} {system : CacheSystem κ ι n w τ}
  {call : DwarfStep κ ι n w}

theorem setCachingPolicy (sound : SystemSound system) (policy : CachingPolicy) :
    SystemSound (system.setCachingPolicy build policy) := by
  rw [CacheSystem.setCachingPolicy]
  generalize (if !build.thread ∧ policy = .perThread then .global else policy) = policy
  by_cases same : policy = system.policy
  · simpa only [if_pos same] using sound
  · simp only [if_neg same]
    exact fun k => (sound k).flush

/-- A call that fits uses indices in range, and leaves its cache in order. -/
theorem find (sound : SystemSound system) (uses : system.policy ≠ .none)
    (fits : system.Fits build call) :
    system.IndicesInRange build t call ∧
      LeavesFit system.generation (system.caches (system.select build call.thread))
        (system.find build t call).cache (system.find build t call).cursor :=
  findRegState_fits uses (sound none).logSize_le (sound _).logSize_le rfl rfl
    (fun current => (sound _).ready_of_current fits.pending
      (CacheVisit.generation_of_current current)) fits.visits

theorem setCacheSize [DecidableEq κ] (sound : SystemSound system) (size : ℕ) (flag : Int)
    (memory : CacheMemory n w) : SystemSound (system.setCacheSize build size flag memory) := by
  rw [CacheSystem.setCacheSize]
  split
  · exact sound
  · intro k
    by_cases isGlobal : k = none
    · subst isGlobal
      simp only [Function.update_self]
      exact (sound none).flush.resize memory (roundLogSize_le size 15 0)
    · simp only [Function.update_of_ne isGlobal]
      exact (sound k).flush

theorem step [DecidableEq κ] [DecidableEq ι] (sound : SystemSound system)
    (fits : system.policy ≠ .none → system.Fits build call) :
    SystemSound (system.step build t call) := by
  intro k
  by_cases uses : system.policy = .none
  · rw [(CacheSystem.step_uncached uses).1, (CacheSystem.step_uncached uses).2]
    exact sound k
  · by_cases mine : k = system.select build call.thread
    · subst mine
      obtain ⟨-, leaves⟩ := sound.find (t := t) uses (fits uses)
      rw [(CacheSystem.step_own uses).1, (CacheSystem.step_own uses).2]
      exact (sound _).left leaves
    · obtain ⟨sameCache, samePending⟩ := CacheSystem.step_others (t := t) mine
      rw [sameCache, samePending]
      exact sound k

end SystemSound

section Run

variable [DecidableEq κ] [DecidableEq ι] {build : CacheBuild} {t : Target n w τ}
  {allowed : CacheSystem κ ι n w τ → DwarfStep κ ι n w → Prop} {system : CacheSystem κ ι n w τ}
  {call : DwarfStep κ ι n w}

theorem SystemRun.sound (run : SystemRun build t allowed system)
    (fits : ∀ system call, allowed system call → system.policy ≠ .none →
      system.Fits build call) : SystemSound system := by
  induction run with
  | start policy cursors =>
      exact fun k => ⟨Nat.zero_le _, rfl, fun _ present => by cases present⟩
  | step call _ isAllowed ih => exact ih.step (fits _ call isAllowed)
  | flush _ ih => exact fun k => (ih k).flush
  | setCachingPolicy policy _ ih => exact ih.setCachingPolicy policy
  | setCacheSize size flag memory _ ih => exact ih.setCacheSize size flag memory
  | init i c _ _ _ ih => exact ih
  | move i j c _ _ _ ih => exact ih

/-- In a run whose calls fit, every call that fits uses indices in range only. -/
theorem run_indicesInRange (run : SystemRun build t allowed system)
    (fits : ∀ system call, allowed system call → system.policy ≠ .none → system.Fits build call)
    (isAllowed : allowed system call) : system.IndicesInRange build t call := by
  by_cases uses : system.policy = .none
  · rw [CacheSystem.IndicesInRange, uses]
    simp [IndicesInRange, getRsCache]
  · exact ((run.sound fits).find uses (fits system call isAllowed uses)).1

theorem applyRegState_within {as : AddrSpace w} {budget size : ℕ} {c : Cursor n w τ}
    (within : c.Within size) (rs : RegState n w) : (applyRegState t as budget c rs).2.Within size := by
  have kept : (applyRegState t as budget c rs).2.hint = c.hint ∧
      (applyRegState t as budget c rs).2.prevRs = c.prevRs := by
    unfold applyRegState finishStep
    split
    · split
      · exact ⟨rfl, rfl⟩
      · split
        · exact ⟨rfl, rfl⟩
        · split
          · exact ⟨rfl, rfl⟩
          · dsimp only
            split
            · exact ⟨rfl, rfl⟩
            · split <;> exact ⟨rfl, rfl⟩
    · exact ⟨rfl, rfl⟩
  exact ⟨by rw [Cursor.HintWithin, kept.1]; exact within.hint, by rw [kept.2]; exact within.prevRs⟩

/-- A call that fits leaves its cursor within its cache: only a cache that got
    smaller since then is one that the next call does not fit. -/
theorem SystemSound.step_within (sound : SystemSound system) (uses : system.policy ≠ .none)
    (fits : system.Fits build call) :
    ((system.step build t call).cursors call.cursor).Within
      (cacheSize ((system.step build t call).caches (system.select build call.thread)).logSize) := by
  obtain ⟨-, leaves⟩ := sound.find (t := t) uses fits
  simp only [CacheSystem.step, Function.update_self, CacheSystem.stepped]
  split
  · exact applyRegState_within leaves.within _
  · exact leaves.within

end Run

/-! ## A cache that got smaller -/

def plainBuild : CacheBuild := { perThread := false, thread := false }

def callSystem : CacheSystem Unit Unit 1 64 Unit where
  policy := .global
  cursors := fun _ => (stepAtReturn true).cursor

/-- A step through `callTables`. -/
def callStep : DwarfStep Unit Unit 1 64 where
  thread := ()
  cursor := ()
  tables := callTables
  as := spaceOfBytes 64 []
  budget := 4

/-- The system after a step from here. -/
def CacheSystem.stepFrom (system : CacheSystem Unit Unit 1 64 Unit) (ip : Word 64) :
    CacheSystem Unit Unit 1 64 Unit :=
  (system.setCursor () { system.cursors () with ip }).step plainBuild
    (plainTarget 1 64 (Fin.last 0) 0) callStep

theorem SystemRun.stepFrom {allowed : CacheSystem Unit Unit 1 64 Unit → DwarfStep Unit Unit 1 64 → Prop}
    {system : CacheSystem Unit Unit 1 64 Unit}
    (run : SystemRun plainBuild (plainTarget 1 64 0 0) allowed system) (ip : Word 64)
    (isAllowed : allowed (system.setCursor () { system.cursors () with ip }) callStep) :
    SystemRun plainBuild (plainTarget 1 64 0 0) allowed (system.stepFrom ip) :=
  .step callStep (.move () () _ run rfl rfl) isAllowed

/-- A cursor whose last entry was the second one steps through a cache that has
    got only one: it writes that entry's hint out of bounds. -/
theorem shrunkCache_outOfRange :
    ¬ ∀ (system : CacheSystem Unit Unit 1 64 Unit) (call : DwarfStep Unit Unit 1 64),
      SystemRun plainBuild (plainTarget 1 64 0 0) (fun _ _ => True) system →
        system.IndicesInRange plainBuild (plainTarget 1 64 0 0) call := by
  intro always
  have run : SystemRun plainBuild (plainTarget 1 64 0 0) (fun _ _ => True)
      (((callSystem.stepFrom 0x1004).stepFrom 0x1008).setCacheSize plainBuild 1 0 {}) :=
    .setCacheSize 1 0 {} ((SystemRun.start .global _ fun _ => ⟨rfl, rfl⟩).stepFrom 0x1004 trivial
      |>.stepFrom 0x1008 trivial)
  obtain ⟨-, second⟩ := always _ callStep run
  exact second (fun _ => rfl) _ _ rfl rfl rfl

/-- In a cache that grew the same cursor is in range. -/
theorem grownCache_inRange :
    ((callSystem.stepFrom 0x1004).setCacheSize plainBuild 1024 0 {}).IndicesInRange plainBuild
      (plainTarget 1 64 0 0) callStep := by
  refine run_indicesInRange
    (SystemRun.setCacheSize 1024 0 {} ((SystemRun.start .global _ fun _ => ⟨rfl, rfl⟩).stepFrom 0x1004 ?_))
    (fun _ _ fits _ => fits) ?_
  · exact ⟨by decide, ⟨by decide, by decide⟩, ⟨by decide, by decide⟩⟩
  · exact ⟨by decide, ⟨by decide, by decide⟩, ⟨by decide, by decide⟩⟩

end Libunwind.Dwarf
