import Mathlib.Data.Nat.Log
import Libunwind.Library.Run
import Libunwind.Dwarf.CacheSystem

/-! # The size that is asked for

`unw_set_cache_size` notes the logarithm of the size in the global cache, and flushes. A flush
brings a cache to the size that is noted there, unless the cache has no arrays yet: then it gets
the default ones. So a request lasts only where the cache was used before.
-/

namespace Libunwind.Dwarf

variable {n w : ℕ} {τ κ ι : Type}

/-! ## Caches of a size -/

/-- The cache has its arrays, and they are of this size. -/
structure RsCache.HasSize (cache : RsCache n w) (logSize : ℕ) : Prop where
  logSize : cache.logSize = logSize
  arrays : ∃ hash links buckets, cache.Arrays hash links buckets

/-- What the entries of a cache have no part in. -/
structure KeepsSize (before after : RsCache n w) : Prop where
  logSize : after.logSize = before.logSize
  generation : after.generation = before.generation
  hash : after.hash.isNone = before.hash.isNone
  arrays : (∃ hash links buckets, before.Arrays hash links buckets) →
    ∃ hash links buckets, after.Arrays hash links buckets

section Entries

variable {t : Target n w τ} {cache cache' before after : RsCache n w} {c c' : Cursor n w τ} {i : ℕ}
  {rs : RegState n w} {logSize : ℕ}

theorem RsCache.HasSize.hash (sized : cache.HasSize logSize) : cache.hash.isNone = false := by
  obtain ⟨hash, links, buckets, arrays⟩ := sized.arrays
  simp [arrays.isHash]

theorem RsCache.HasSize.keep (sized : before.HasSize logSize) (keeps : KeepsSize before after) :
    after.HasSize logSize :=
  ⟨keeps.logSize.trans sized.logSize, keeps.arrays sized.arrays⟩

theorem KeepsSize.refl (cache : RsCache n w) : KeepsSize cache cache := ⟨rfl, rfl, rfl, id⟩

theorem KeepsSize.trans (first : KeepsSize before cache) (second : KeepsSize cache after) :
    KeepsSize before after where
  logSize := second.logSize.trans first.logSize
  generation := second.generation.trans first.generation
  hash := second.hash.trans first.hash
  arrays := fun arrays => second.arrays (first.arrays arrays)

theorem useEntry_keepsSize (used : useEntry t cache c i = .ok (cache', c')) :
    KeepsSize cache cache' := by
  obtain ⟨links, link, previous, isLinks, -, -, rfl, -⟩ := useEntry_eq_ok.mp used
  refine ⟨rfl, rfl, rfl, fun found => ?_⟩
  obtain ⟨hash, links', buckets, arrays⟩ := found
  obtain rfl := Option.some.inj (arrays.isLinks.symm.trans isLinks)
  refine ⟨hash, _, buckets, { arrays with isLinks := rfl, linksLong := ?_ }⟩
  rw [List.length_set]
  exact arrays.linksLong

theorem unlink_length {head : BitVec 16} {hash hash' : List (BitVec 16)}
    {links links' : List (CacheEntry w)}
    (done : unlink cache head hash links = .ok (hash', links')) :
    hash'.length = hash.length ∧ links'.length = links.length := by
  have long : links'.length = links.length := by
    simpa using congrArg List.length (unlink_keys done)
  obtain ⟨⟨slot, next, rfl⟩, -⟩ | ⟨rfl, -⟩ | ⟨rfl, -⟩ := unlink_cases done
  · exact ⟨List.length_set, long⟩
  · exact ⟨rfl, long⟩
  · exact ⟨rfl, long⟩

theorem rsNew_keepsSize {ip : Word w} {signalFrame : Bool}
    (entered : rsNew cache ip signalFrame rs = .ok (cache', i)) : KeepsSize cache cache' := by
  obtain ⟨hash, links, buckets, hash', links', first, old, isHash, isLinks, isBuckets, done, -, -,
    rfl, -⟩ := rsNew_eq_ok.mp entered
  obtain ⟨hashLong, linksLong⟩ := unlink_length done
  refine ⟨rfl, rfl, by simp [RsCache.entered, isHash], fun found => ?_⟩
  obtain ⟨_, _, _, arrays⟩ := found
  obtain rfl := Option.some.inj (arrays.isHash.symm.trans isHash)
  obtain rfl := Option.some.inj (arrays.isLinks.symm.trans isLinks)
  obtain rfl := Option.some.inj (arrays.isBuckets.symm.trans isBuckets)
  refine ⟨_, _, _, rfl, rfl, rfl, arrays.logSize_le, ?_, ?_, ?_⟩
  · rw [List.length_set, hashLong]
    exact arrays.hashLong
  · rw [List.length_set, linksLong]
    exact arrays.linksLong
  · rw [List.length_set]
    exact arrays.bucketsLong

theorem enterState_keepsSize {computed : RegState n w}
    (entered : enterState t cache c computed = .ok (cache', i, rs)) : KeepsSize cache cache' := by
  obtain ⟨found, -, rest⟩ := bind_eq_ok.mp entered
  cases found with
  | none =>
      obtain ⟨⟨cache₁, i₁⟩, isNew, result⟩ := bind_eq_ok.mp rest
      cases result
      exact rsNew_keepsSize isNew
  | some i₁ =>
      obtain ⟨buckets, -, rest⟩ := bind_eq_ok.mp rest
      obtain ⟨rs₁, -, result⟩ := bind_eq_ok.mp rest
      cases result
      exact .refl _

theorem firstVisit_keepsSize (visited : firstVisit t cache c = .ok (some (cache', c', rs))) :
    KeepsSize cache cache' := by
  obtain ⟨found, -, rest⟩ := bind_eq_ok.mp visited
  cases found with
  | none => cases rest
  | some i =>
      obtain ⟨⟨c₁, rs₁⟩, -, rest⟩ := bind_eq_ok.mp rest
      obtain ⟨⟨cache₂, c₂⟩, used, result⟩ := bind_eq_ok.mp rest
      cases result
      exact useEntry_keepsSize used

theorem secondVisit_keepsSize {computed : RegState n w}
    (visited : secondVisit t cache c computed = .ok (cache', c', rs)) : KeepsSize cache cache' := by
  obtain ⟨⟨cache₁, i, rs₁⟩, entered, rest⟩ := bind_eq_ok.mp visited
  obtain ⟨⟨cache₂, c₂⟩, used, result⟩ := bind_eq_ok.mp rest
  cases result
  exact (enterState_keepsSize entered).trans (useEntry_keepsSize used)

theorem afterVisit_keepsSize
    {visited : Result (RsCache n w × Cursor n w τ × RegState n w)}
    (keeps : ∀ cache' c' rs, visited = .ok (cache', c', rs) → KeepsSize cache cache') :
    KeepsSize cache (afterVisit cache c visited).2.2 := by
  cases visited with
  | error fault => exact .refl _
  | ok left =>
      obtain ⟨cache', c', rs⟩ := left
      exact keeps cache' c' rs rfl

end Entries

/-! ## Visits -/

/-- How a visit comes by its cache. -/
inductive GotBy (visit : CacheVisit n w) (cache : RsCache n w) : Bool → RsCache n w → Prop where
  | current : visit.needsFlush cache = false → GotBy visit cache true cache
  | flushed {cache' : RsCache n w} :
      visit.needsFlush cache = true → cache'.HasSize (visit.logSize cache) →
      cache'.generation = visit.generation → GotBy visit cache true cache'
  | refused {cache' : RsCache n w} :
      visit.needsFlush cache = true → cache.hash.isNone = false →
      visit.globalLogSize ≠ defaultLogCacheSize → visit.memory.granted = false →
      cache'.logSize = visit.globalLogSize → cache'.generation = cache.generation →
      cache'.hash.isNone = !visit.memory.grantHash → GotBy visit cache false cache'

section Visits

variable {t : Target n w τ} {tables : UnwindTables n w} {policy : CachingPolicy}
  {visit first second : CacheVisit n w} {cache cache' : RsCache n w} {c : Cursor n w τ}
  {present : Bool} {sizes : ℕ → Prop}

theorem getRsCache_gotBy (uses : policy ≠ .none) (small : visit.globalLogSize ≤ 15) :
    GotBy visit cache (getRsCache policy visit cache).present
      (getRsCache policy visit cache).cache := by
  cases needs : visit.needsFlush cache with
  | false =>
      simp only [getRsCache, if_neg uses, needs, Bool.false_eq_true, if_false]
      exact .current needs
  | true =>
      simp only [getRsCache, if_neg uses, needs, if_true]
      rcases flushed : flushRsCache visit.memory { cache with logSize := visit.globalLogSize } with
        ⟨_ | _, cache'⟩
      · have default := flushed
        rw [flushRsCache] at default
        split at default
        next => cases default
        next own =>
          rw [RsCache.usesDefault, Bool.or_eq_true, beq_iff_eq, not_or, Bool.not_eq_true] at own
          split at default
          next => cases default
          next refused =>
            rw [Bool.not_eq_true] at refused
            cases default
            refine .refused needs own.2 own.1 refused rfl rfl ?_
            cases visit.memory.grantHash <;> simp
      · obtain ⟨⟨hash, links, buckets, installed⟩, size⟩ := flushRsCache_installed small flushed
        refine .flushed needs ⟨?_, hash, links, buckets, ?_⟩ rfl
        · rw [CacheVisit.logSize, if_pos needs]
          exact size
        · exact { installed.toArrays with }

theorem generation_of_current (current : visit.needsFlush cache = false) :
    cache.generation = visit.generation ∧ cache.hash.isNone = false := by
  refine ⟨CacheVisit.generation_of_current current, ?_⟩
  rw [CacheVisit.needsFlush, Bool.or_eq_false_iff] at current
  exact current.2

theorem generation_of_stale (needs : visit.needsFlush cache = true)
    (hash : cache.hash.isNone = false) : cache.generation ≠ visit.generation := by
  rw [CacheVisit.needsFlush, hash, Bool.or_false] at needs
  intro same
  simp [same] at needs

/-- A visit finds its cache in one of the sizes, or flushes it to one. -/
structure VisitFits (sizes : ℕ → Prop) (visit : CacheVisit n w) (cache : RsCache n w) : Prop where
  current : visit.needsFlush cache = false → ∃ logSize, sizes logSize ∧ cache.HasSize logSize
  flushed : visit.needsFlush cache = true → sizes (visit.logSize cache)

theorem GotBy.served (got : GotBy visit cache true cache') (fits : VisitFits sizes visit cache) :
    cache'.generation = visit.generation ∧ ∃ logSize, sizes logSize ∧ cache'.HasSize logSize := by
  cases got with
  | current isCurrent => exact ⟨(generation_of_current isCurrent).1, fits.current isCurrent⟩
  | flushed needs sized sameGeneration => exact ⟨sameGeneration, _, fits.flushed needs, sized⟩

/-- What the visits of a call leave: a cache of one of the sizes, or one that was refused its
    memory. -/
inductive LeftBy (sizes : ℕ → Prop) (first second : CacheVisit n w) (cache cache' : RsCache n w) :
    Prop where
  | served {logSize : ℕ} : cache'.generation = first.generation → sizes logSize →
      cache'.HasSize logSize → LeftBy sizes first second cache cache'
  | refused : first.needsFlush cache = true → cache.hash.isNone = false →
      first.globalLogSize ≠ defaultLogCacheSize → first.memory.granted = false →
      cache'.logSize = first.globalLogSize → cache'.generation = cache.generation →
      (first.memory.grantHash = true → second.memory.grantHash = true →
        cache'.hash.isNone = false) → LeftBy sizes first second cache cache'

theorem LeftBy.keep {before after : RsCache n w} (left : LeftBy sizes first second cache before)
    (keeps : KeepsSize before after) : LeftBy sizes first second cache after := by
  cases left with
  | served sameGeneration isSize sized =>
      exact .served (keeps.generation.trans sameGeneration) isSize (sized.keep keeps)
  | refused needs hash notDefault refused sameSize sameGeneration hash' =>
      refine .refused needs hash notDefault refused (keeps.logSize.trans sameSize)
        (keeps.generation.trans sameGeneration) fun firstHash secondHash => ?_
      rw [keeps.hash]
      exact hash' firstHash secondHash

theorem GotBy.leftBy (got : GotBy first cache present cache') (fits : VisitFits sizes first cache) :
    LeftBy sizes first second cache cache' := by
  cases present with
  | true =>
      obtain ⟨sameGeneration, logSize, isSize, sized⟩ := got.served fits
      exact .served sameGeneration isSize sized
  | false =>
      cases got with
      | refused needs hash notDefault refused sameSize sameGeneration hash' =>
          exact .refused needs hash notDefault refused sameSize sameGeneration
            fun firstHash _ => by rw [hash', firstHash]; rfl

/-- A second visit adds to what the first one left. -/
theorem GotBy.leftBy_again {mid : RsCache n w} (sameGeneration : second.generation = first.generation)
    (sameSize : second.globalLogSize = first.globalLogSize)
    (left : LeftBy sizes first second cache mid) (got : GotBy second mid present cache')
    (fits : VisitFits sizes second mid) : LeftBy sizes first second cache cache' := by
  cases present with
  | true =>
      obtain ⟨isCurrent, logSize, isSize, sized⟩ := got.served fits
      exact .served (isCurrent.trans sameGeneration) isSize sized
  | false =>
      cases got with
      | refused needs hash notDefault refused isSize isGeneration hash' =>
          cases left with
          | served isCurrent _ sized =>
              exact absurd (isCurrent.trans sameGeneration.symm) (generation_of_stale needs hash)
          | refused needs₁ hash₁ notDefault₁ refused₁ _ isGeneration₁ _ =>
              exact .refused needs₁ hash₁ notDefault₁ refused₁ (isSize.trans sameSize)
                (isGeneration.trans isGeneration₁) fun _ secondHash => by rw [hash', secondHash]; rfl

/-- What is right after the first visit is right for the second one. -/
theorem LeftBy.visitFits {mid : RsCache n w} (sameGeneration : second.generation = first.generation)
    (left : LeftBy sizes first second cache mid)
    (again : first.memory.granted = false → first.needsFlush cache = true →
      second.needsFlush mid = true → sizes (second.logSize mid)) : VisitFits sizes second mid := by
  cases left with
  | served isCurrent isSize sized =>
      have current : second.needsFlush mid = false := by
        simp [CacheVisit.needsFlush, isCurrent, sameGeneration, sized.hash]
      exact ⟨fun _ => ⟨_, isSize, sized⟩, fun needs => absurd (current.symm.trans needs) (by simp)⟩
  | refused needs hash _ refused _ isGeneration _ =>
      refine ⟨fun current => ?_, again refused needs⟩
      have isCurrent := (generation_of_current current).1
      rw [isGeneration, sameGeneration] at isCurrent
      exact absurd isCurrent (generation_of_stale needs hash)

/-- What `find_reg_state` leaves of a cache. -/
theorem findRegState_leftBy (uses : policy ≠ .none) (small : first.globalLogSize ≤ 15)
    (sameGeneration : second.generation = first.generation)
    (sameSize : second.globalLogSize = first.globalLogSize) (fits : VisitFits sizes first cache)
    (again : first.memory.granted = false → first.needsFlush cache = true →
      second.needsFlush (getRsCache policy first cache).cache = true →
        sizes (second.logSize (getRsCache policy first cache).cache)) :
    LeftBy sizes first second cache
      (findRegState t tables policy first second id cache c).left.2.2 := by
  have got : LeftBy sizes first second cache (getRsCache policy first cache).cache :=
    (getRsCache_gotBy uses small).leftBy fits
  have missed : LeftBy sizes first second cache
      (missVisit t tables policy second (getRsCache policy first cache).cache c).2.2 := by
    have gotAgain : LeftBy sizes first second cache
        (getRsCache policy second (getRsCache policy first cache).cache).cache :=
      (getRsCache_gotBy uses (sameSize.trans_le small)).leftBy_again sameGeneration sameSize got
        (got.visitFits sameGeneration again)
    unfold missVisit
    split
    next => exact got
    next rs c' computed =>
      dsimp only
      split
      next => exact gotAgain.keep (afterVisit_keepsSize fun _ _ _ visited =>
        secondVisit_keepsSize visited)
      next => exact gotAgain
  rw [findRegState_left]
  split
  next => exact got
  next visited found =>
    refine got.keep (afterVisit_keepsSize fun cache' c' rs same => ?_)
    cases same
    split at found
    next => exact firstVisit_keepsSize found
    next => cases found
  next => exact missed

end Visits

/-! ## Runs -/

/-- What the users of an address space do with it. -/
inductive CacheOp (κ ι : Type) (n w : ℕ) (τ : Type) where
  | step (call : DwarfStep κ ι n w)
  | flush
  | setCachingPolicy (policy : CachingPolicy)
  | setCacheSize (size : ℕ) (flag : Int) (memory : CacheMemory n w)
  | setCursor (i : ι) (c : Cursor n w τ)

/-- An address space, with the size that was asked for last. -/
structure SizedSystem (κ ι : Type) (n w : ℕ) (τ : Type) where
  system : CacheSystem κ ι n w τ
  requested : Option ℕ := none

/-- What `unw_set_cache_size` returns. -/
def CacheSystem.setCacheSizeResult (build : CacheBuild) (system : CacheSystem κ ι n w τ) (size : ℕ)
    (flag : Int) (memory : CacheMemory n w) : Result Unit :=
  let logSize := roundLogSize size 15 0
  if flag ≠ 0 ∨ build.thread then .error (.err .unspec)
  else if logSize = (system.caches none).logSize then pure ()
  else if (flushRsCache memory { system.caches none with logSize }).1 then pure ()
  else .error (.err .nomem)

section Requests

variable [DecidableEq κ] [DecidableEq ι] (build : CacheBuild) (t : Target n w τ)

/-- Only a call that succeeds asks for a size. -/
def SizedSystem.perform (s : SizedSystem κ ι n w τ) : CacheOp κ ι n w τ → SizedSystem κ ι n w τ
  | .step call => { s with system := s.system.step build t call }
  | .flush => { s with system := s.system.flush }
  | .setCachingPolicy policy => { s with system := s.system.setCachingPolicy build policy }
  | .setCacheSize size flag memory =>
      { system := s.system.setCacheSize build size flag memory
        requested := match s.system.setCacheSizeResult build size flag memory with
          | .ok () => some size
          | .error _ => s.requested }
  | .setCursor i c => { s with system := s.system.setCursor i c }

/-- The runs of an address space from its creation on. -/
abbrev SizedRun (allowed : SizedSystem κ ι n w τ → CacheOp κ ι n w τ → Prop) :
    SizedSystem κ ι n w τ → Prop :=
  Run (fun s => ∃ policy cursors, s = { system := { policy, cursors } })
    (fun s op s' => s.perform build t op = s') allowed

end Requests

namespace SizedSystem

variable (build : CacheBuild) (s : SizedSystem κ ι n w τ)

/-- The least power of two that is no smaller than the size, or the largest one supported. -/
def logSizeFor (size : ℕ) : ℕ := min 15 (Nat.clog 2 size)

/-- Every cache that a step uses is of the size that was asked for. -/
def UsesRequested (call : DwarfStep κ ι n w) : Prop :=
  let got := getRsCache s.system.policy (s.system.visit call.first)
    (s.system.caches (s.system.select build call.thread))
  let again := getRsCache s.system.policy (s.system.visit call.second) got.cache
  ∀ size, s.requested = some size →
    (got.present = true → got.cache.HasSize (logSizeFor size)) ∧
      (again.present = true → again.cache.HasSize (logSizeFor size))

/-- What an operation does is what was asked for: a step uses caches of that size, and a call that
    fails leaves the size. -/
def Obeys [DecidableEq κ] : CacheOp κ ι n w τ → Prop
  | .step call => s.UsesRequested build call
  | .setCacheSize size flag memory =>
      (∃ fault, s.system.setCacheSizeResult build size flag memory = .error fault) →
        ((s.system.setCacheSize build size flag memory).caches none).logSize =
          (s.system.caches none).logSize
  | _ => True

/-- What a request relies on: the global cache has arrays, and the memory for new ones is granted,
    unless the size is the default one. -/
def RequestFits (size : ℕ) (flag : Int) (memory : CacheMemory n w) : Prop :=
  flag ≠ 0 ∨ build.thread = true ∨ logSizeFor size = defaultLogCacheSize ∨
    ((s.system.caches none).hash.isNone = false ∧
      (logSizeFor size = (s.system.caches none).logSize ∨ memory.granted = true))

/-- What a step relies on: a cache that it flushes to another size than the default one has arrays,
    and gets a hash table even if it is refused the rest, and it is not a whole cycle of
    `cache_generation` behind. -/
structure StepFits (call : DwarfStep κ ι n w) : Prop where
  pending : s.system.pending (s.system.select build call.thread) < 2 ^ 32
  arrays : s.requested ≠ none →
    (s.system.visit call.first).needsFlush
      (s.system.caches (s.system.select build call.thread)) = true →
    (s.system.caches none).logSize ≠ defaultLogCacheSize →
    (s.system.caches (s.system.select build call.thread)).hash.isNone = false ∧
      (call.first.granted = true ∨ (call.first.grantHash = true ∧ call.second.grantHash = true))

def Fits : CacheOp κ ι n w τ → Prop
  | .step call => s.system.policy ≠ .none → s.StepFits build call
  | .setCacheSize size flag memory => s.RequestFits build size flag memory
  | _ => True

end SizedSystem

/-! ## What runs keep -/

theorem roundLogSize_eq (size rounds logSize : ℕ) :
    roundLogSize size rounds logSize = max logSize (min (rounds + logSize) (Nat.clog 2 size)) := by
  induction rounds generalizing logSize with
  | zero =>
      rw [roundLogSize]
      omega
  | succ rounds ih =>
      have larger := @Nat.lt_clog_iff_pow_lt 2 one_lt_two size logSize
      rw [roundLogSize]
      split
      next below =>
        rw [ih]
        have := larger.mpr below
        omega
      next above =>
        have := mt larger.mp above
        omega

theorem roundLogSize_request (size : ℕ) : roundLogSize size 15 0 = SizedSystem.logSizeFor size := by
  rw [roundLogSize_eq, SizedSystem.logSizeFor]
  omega

/-- A cache is a number of flushes behind, and has its arrays if that is zero. -/
structure CacheInOrder (generation : BitVec 32) (cache : RsCache n w) (pending : ℕ) : Prop where
  behind : generation = cache.generation + BitVec.ofNat 32 pending
  sized : pending = 0 → cache.hash.isNone = false → cache.HasSize cache.logSize

namespace CacheInOrder

variable {generation : BitVec 32} {cache cache' : RsCache n w} {pending : ℕ} {sizes : ℕ → Prop}
  {first second : CacheVisit n w}

theorem flush (inOrder : CacheInOrder generation cache pending) :
    CacheInOrder (generation + 1) cache (pending + 1) where
  behind := by
    rw [inOrder.behind, BitVec.ofNat_add, BitVec.add_assoc, BitVec.ofNat_eq_ofNat]
  sized := fun none => absurd none (Nat.succ_ne_zero _)

theorem none_pending (inOrder : CacheInOrder generation cache pending) (few : pending < 2 ^ 32)
    (current : cache.generation = generation) : pending = 0 := by
  have behind := inOrder.behind
  rw [current] at behind
  have zero := congrArg BitVec.toNat (BitVec.self_eq_add_right.mp behind)
  rwa [BitVec.toNat_ofNat, Nat.mod_eq_of_lt few] at zero

theorem left (inOrder : CacheInOrder generation cache pending)
    (isCurrent : first.generation = generation)
    (left : LeftBy sizes first second cache cache') :
    CacheInOrder generation cache' (if cache'.generation = generation then 0 else pending) := by
  cases left with
  | served sameGeneration isSize sized =>
      rw [if_pos (sameGeneration.trans isCurrent)]
      refine ⟨?_, fun _ _ => ?_⟩
      · rw [sameGeneration, isCurrent]
        exact (BitVec.add_zero _).symm
      · rw [sized.logSize]
        exact sized
  | refused needs hash _ _ _ sameGeneration _ =>
      have stale : cache'.generation ≠ generation := by
        rw [sameGeneration, ← isCurrent]
        exact generation_of_stale needs hash
      rw [if_neg stale]
      refine ⟨by rw [sameGeneration]; exact inOrder.behind, fun none => ?_⟩
      have behind := inOrder.behind
      rw [none, ← sameGeneration] at behind
      exact absurd (behind.trans (BitVec.add_zero _)).symm stale

end CacheInOrder

/-- The global cache has not been used: only a policy that selects another cache has used one. -/
structure Unused (build : CacheBuild) (system : CacheSystem κ ι n w τ) : Prop where
  hash : (system.caches none).hash.isNone = true
  logSize : (system.caches none).logSize = 0
  own : ∀ thread, system.pending (some thread) = 0 →
    (system.caches (some thread)).hash.isNone = false →
      build.perThread = true ∧ system.policy = .perThread

/-- The global cache has been used. It has the size that was asked for, and so have the caches that
    need no flush. -/
structure InUse (system : CacheSystem κ ι n w τ) (requested : Option ℕ) : Prop where
  hash : (system.caches none).hash.isNone = false
  logSize : (system.caches none).logSize =
    (requested.map SizedSystem.logSizeFor).getD defaultLogCacheSize
  others : ∀ k, system.pending k = 0 → (system.caches k).hash.isNone = false →
    (system.caches k).logSize = (system.caches none).logSize

/-- What every reachable state meets. -/
structure Configured (build : CacheBuild) (s : SizedSystem κ ι n w τ) : Prop where
  inOrder : ∀ k, CacheInOrder s.system.generation (s.system.caches k) (s.system.pending k)
  use : (s.requested = none ∧ Unused build s.system) ∨ InUse s.system s.requested

section Step

variable {build : CacheBuild} {t : Target n w τ} {s : SizedSystem κ ι n w τ}
  {call : DwarfStep κ ι n w}

/-- What the first visit of a step finds, and what a second one finds after a refusal. -/
structure CallFits (build : CacheBuild) (s : SizedSystem κ ι n w τ) (call : DwarfStep κ ι n w)
    (sizes : ℕ → Prop) : Prop where
  first : VisitFits sizes (s.system.visit call.first)
    (s.system.caches (s.system.select build call.thread))
  again : call.first.granted = false →
    (s.system.visit call.first).needsFlush
      (s.system.caches (s.system.select build call.thread)) = true →
    (s.system.visit call.second).needsFlush (getRsCache s.system.policy (s.system.visit call.first)
      (s.system.caches (s.system.select build call.thread))).cache = true →
    sizes ((s.system.visit call.second).logSize
      (getRsCache s.system.policy (s.system.visit call.first)
        (s.system.caches (s.system.select build call.thread))).cache)

theorem InUse.small (inUse : InUse s.system s.requested) : (s.system.caches none).logSize ≤ 15 := by
  rw [inUse.logSize]
  cases s.requested with
  | none => decide
  | some size => exact min_le_left _ _

theorem InUse.callFits (inUse : InUse s.system s.requested)
    (inOrder : ∀ k, CacheInOrder s.system.generation (s.system.caches k) (s.system.pending k))
    (uses : s.system.policy ≠ .none) (fits : s.StepFits build call) :
    CallFits build s call (· = (s.system.caches none).logSize) := by
  have asked (notDefault : (s.system.caches none).logSize ≠ defaultLogCacheSize) :
      s.requested ≠ none := by
    intro unasked
    rw [inUse.logSize, unasked] at notDefault
    exact notDefault rfl
  have fits₁ : VisitFits (· = (s.system.caches none).logSize) (s.system.visit call.first)
      (s.system.caches (s.system.select build call.thread)) := by
    constructor
    · intro current
      obtain ⟨isCurrent, hash⟩ := generation_of_current current
      have none := (inOrder _).none_pending fits.pending isCurrent
      exact ⟨_, inUse.others _ none hash, (inOrder _).sized none hash⟩
    · intro needs
      rw [CacheVisit.logSize, if_pos needs]
      by_cases isDefault : (s.system.caches none).logSize = defaultLogCacheSize
      · simp [CacheSystem.visit, isDefault]
      · simp [(fits.arrays (asked isDefault) needs isDefault).1, CacheSystem.visit]
  refine ⟨fits₁, fun refused needs needsAgain => ?_⟩
  rw [CacheVisit.logSize, if_pos needsAgain]
  by_cases isDefault : (s.system.caches none).logSize = defaultLogCacheSize
  · simp [CacheSystem.visit, isDefault]
  · obtain ⟨-, granted⟩ := fits.arrays (asked isDefault) needs isDefault
    rw [refused] at granted
    obtain ⟨grantHash, grantHash'⟩ := granted.resolve_left (by simp)
    have left : LeftBy (· = (s.system.caches none).logSize) (s.system.visit call.first)
        (s.system.visit call.second) _ _ :=
      (getRsCache_gotBy uses inUse.small).leftBy fits₁
    rw [if_neg ?_]
    · rfl
    · rw [Bool.not_eq_true]
      cases left with
      | served _ _ sized => exact sized.hash
      | refused _ _ _ _ _ _ hash' => exact hash' grantHash grantHash'

theorem Unused.callFits (unused : Unused build s.system)
    (isGlobal : s.system.select build call.thread = none) (uses : s.system.policy ≠ .none) :
    CallFits build s call (· = defaultLogCacheSize) := by
  have fits₁ : VisitFits (· = defaultLogCacheSize) (s.system.visit call.first)
      (s.system.caches (s.system.select build call.thread)) := by
    rw [isGlobal]
    constructor
    · intro current
      cases unused.hash.symm.trans (generation_of_current current).2
    · intro needs
      simp [CacheVisit.logSize, needs, unused.hash]
  refine ⟨fits₁, fun _ _ needsAgain => ?_⟩
  have small : (s.system.visit call.first).globalLogSize ≤ 15 := by
    simp [CacheSystem.visit, unused.logSize]
  have left : LeftBy (· = defaultLogCacheSize) (s.system.visit call.first)
      (s.system.visit call.second) _ _ := (getRsCache_gotBy uses small).leftBy fits₁
  cases left with
  | served isCurrent _ sized => exact absurd isCurrent (generation_of_stale needsAgain sized.hash)
  | refused _ hash _ _ _ _ _ =>
      rw [isGlobal] at hash
      cases unused.hash.symm.trans hash

theorem CacheInOrder.callFits
    (inOrder : ∀ k, CacheInOrder s.system.generation (s.system.caches k) (s.system.pending k))
    (few : s.system.pending (s.system.select build call.thread) < 2 ^ 32) :
    CallFits build s call fun _ => True := by
  refine ⟨⟨fun current => ?_, fun _ => trivial⟩, fun _ _ _ => trivial⟩
  obtain ⟨isCurrent, hash⟩ := generation_of_current current
  exact ⟨_, trivial, (inOrder _).sized ((inOrder _).none_pending few isCurrent) hash⟩

theorem CallFits.leftBy {sizes : ℕ → Prop} (fits : CallFits build s call sizes)
    (uses : s.system.policy ≠ .none) (small : (s.system.caches none).logSize ≤ 15) :
    LeftBy sizes (s.system.visit call.first) (s.system.visit call.second)
      (s.system.caches (s.system.select build call.thread)) (s.system.find build t call).cache :=
  findRegState_leftBy uses small rfl rfl fits.first fits.again

/-- The caches that a step uses are of the size that was asked for. -/
theorem Configured.usesRequested (configured : Configured build s)
    (fits : s.system.policy ≠ .none → s.StepFits build call) : s.UsesRequested build call := by
  intro size asked
  by_cases uses : s.system.policy = .none
  · simp [uses, getRsCache]
  · have inUse : InUse s.system s.requested := by
      refine configured.use.resolve_left fun unused => ?_
      rw [asked] at unused
      cases unused.1
    have isSize : (s.system.caches none).logSize = SizedSystem.logSizeFor size := by
      rw [inUse.logSize, asked]
      rfl
    have callFits := inUse.callFits configured.inOrder uses (fits uses)
    have got : GotBy (s.system.visit call.first)
        (s.system.caches (s.system.select build call.thread)) _ _ :=
      getRsCache_gotBy uses inUse.small
    constructor
    · intro present
      rw [present] at got
      obtain ⟨-, _, rfl, sized⟩ := got.served callFits.first
      rwa [isSize] at sized
    · intro present
      have left : LeftBy _ _ (s.system.visit call.second) _ _ := got.leftBy callFits.first
      have sameGeneration : (s.system.visit call.second).generation =
          (s.system.visit call.first).generation := rfl
      have again : GotBy (s.system.visit call.second)
          (getRsCache s.system.policy (s.system.visit call.first)
            (s.system.caches (s.system.select build call.thread))).cache _ _ :=
        getRsCache_gotBy uses inUse.small
      rw [present] at again
      obtain ⟨-, _, rfl, sized⟩ := again.served (left.visitFits sameGeneration callFits.again)
      rwa [isSize] at sized

variable [DecidableEq κ] [DecidableEq ι]

theorem step_inOrder {sizes : ℕ → Prop}
    (inOrder : ∀ k, CacheInOrder s.system.generation (s.system.caches k) (s.system.pending k))
    (uses : s.system.policy ≠ .none) (small : (s.system.caches none).logSize ≤ 15)
    (fits : CallFits build s call sizes) (k : Option κ) :
    CacheInOrder s.system.generation ((s.system.step build t call).caches k)
      ((s.system.step build t call).pending k) := by
  by_cases mine : k = s.system.select build call.thread
  · subst mine
    rw [(CacheSystem.step_own uses).1, (CacheSystem.step_own uses).2]
    exact (inOrder _).left rfl (fits.leftBy (t := t) uses small)
  · obtain ⟨sameCache, samePending⟩ := CacheSystem.step_others (t := t) mine
    rw [sameCache, samePending]
    exact inOrder k

theorem InUse.step (inUse : InUse s.system s.requested)
    (inOrder : ∀ k, CacheInOrder s.system.generation (s.system.caches k) (s.system.pending k))
    (uses : s.system.policy ≠ .none) (fits : s.StepFits build call) :
    InUse (s.system.step build t call) s.requested := by
  have left := (inUse.callFits inOrder uses fits).leftBy (t := t) uses inUse.small
  have mine : ((s.system.step build t call).caches (s.system.select build call.thread)) =
      (s.system.find build t call).cache := (CacheSystem.step_own uses).1
  have size : (s.system.find build t call).cache.logSize = (s.system.caches none).logSize := by
    cases left with
    | served _ isSize sized => exact sized.logSize.trans isSize
    | refused _ _ _ _ isSize _ _ => exact isSize
  have global : ((s.system.step build t call).caches none).logSize = (s.system.caches none).logSize := by
    by_cases isGlobal : none = s.system.select build call.thread
    · rw [isGlobal, mine, size, ← isGlobal]
    · rw [(CacheSystem.step_others isGlobal).1]
  refine ⟨?_, global.trans inUse.logSize, fun k none hash => ?_⟩
  · by_cases isGlobal : none = s.system.select build call.thread
    · rw [isGlobal, mine]
      cases left with
      | served _ _ sized => exact sized.hash
      | refused needs _ notDefault refused _ _ hash' =>
          have asked : s.requested ≠ none := by
            intro unasked
            have isSize := inUse.logSize
            rw [unasked] at isSize
            exact notDefault isSize
          obtain ⟨-, granted⟩ := fits.arrays asked needs notDefault
          obtain ⟨grantHash, grantHash'⟩ := granted.resolve_left
            fun granted => by cases granted.symm.trans refused
          exact hash' grantHash grantHash'
    · rw [(CacheSystem.step_others isGlobal).1]
      exact inUse.hash
  · rw [global]
    by_cases isMine : k = s.system.select build call.thread
    · rw [isMine, mine, size]
    · obtain ⟨sameCache, samePending⟩ := CacheSystem.step_others (t := t) isMine
      rw [sameCache] at hash ⊢
      rw [samePending] at none
      exact inUse.others k none hash

theorem Unused.step
    (unused : Unused build s.system) (uses : s.system.policy ≠ .none) :
    (Unused build (s.system.step build t call)) ∨ InUse (s.system.step build t call) none := by
  cases isGlobal : s.system.select build call.thread with
  | none =>
      right
      have small : (s.system.caches none).logSize ≤ 15 := by simp [unused.logSize]
      have left := (unused.callFits isGlobal uses).leftBy (t := t) uses small
      rw [isGlobal] at left
      have mine : (s.system.step build t call).caches none = (s.system.find build t call).cache := by
        simp only [CacheSystem.step, isGlobal, Function.update_self]
      rw [← mine] at left
      cases left with
      | served _ isSize sized =>
          subst isSize
          refine ⟨sized.hash, sized.logSize, fun k none hash => ?_⟩
          cases k with
          | none => rfl
          | some thread =>
              have other : some thread ≠ s.system.select build call.thread := by simp [isGlobal]
              obtain ⟨sameCache, samePending⟩ := CacheSystem.step_others (t := t) other
              rw [sameCache] at hash
              rw [samePending] at none
              have own := unused.own thread none hash
              simp [CacheSystem.select, own] at isGlobal
      | refused _ hash _ _ _ _ _ => cases unused.hash.symm.trans hash
  | some own =>
      left
      have other : none ≠ s.system.select build call.thread := by simp [isGlobal]
      obtain ⟨sameCache, -⟩ := CacheSystem.step_others (t := t) other
      have selected : build.perThread = true ∧ s.system.policy = .perThread := by
        by_contra unselected
        simp [CacheSystem.select, unselected] at isGlobal
      refine ⟨by rw [sameCache]; exact unused.hash, by rw [sameCache]; exact unused.logSize,
        fun thread none hash => selected⟩

end Step

section Run

variable {build : CacheBuild} {t : Target n w τ} {s : SizedSystem κ ι n w τ}

namespace Configured

/-- After a flush no cache is current. -/
theorem of_pending {system : CacheSystem κ ι n w τ} {requested : Option ℕ}
    (inOrder : ∀ k, CacheInOrder system.generation (system.caches k) (system.pending k))
    (stale : ∀ k, system.pending k ≠ 0)
    (use : (requested = none ∧ (system.caches none).hash.isNone = true ∧
        (system.caches none).logSize = 0) ∨
      ((system.caches none).hash.isNone = false ∧
        (system.caches none).logSize =
          (requested.map SizedSystem.logSizeFor).getD defaultLogCacheSize)) :
    Configured build ⟨system, requested⟩ where
  inOrder := inOrder
  use := by
    cases use with
    | inl unused =>
        exact .inl ⟨unused.1, unused.2.1, unused.2.2, fun thread none => absurd none (stale _)⟩
    | inr inUse => exact .inr ⟨inUse.1, inUse.2, fun k none => absurd none (stale _)⟩

theorem unconfigured (configured : Configured build s) :
    (s.requested = none ∧ (s.system.caches none).hash.isNone = true ∧
        (s.system.caches none).logSize = 0) ∨
      ((s.system.caches none).hash.isNone = false ∧
        (s.system.caches none).logSize =
          (s.requested.map SizedSystem.logSizeFor).getD defaultLogCacheSize) := by
  cases configured.use with
  | inl unused => exact .inl ⟨unused.1, unused.2.hash, unused.2.logSize⟩
  | inr inUse => exact .inr ⟨inUse.hash, inUse.logSize⟩

theorem flush (configured : Configured build s) :
    Configured build { s with system := s.system.flush } :=
  of_pending (fun k => (configured.inOrder k).flush) (fun _ => Nat.succ_ne_zero _)
    configured.unconfigured

theorem setCachingPolicy (configured : Configured build s) (policy : CachingPolicy) :
    Configured build { s with system := s.system.setCachingPolicy build policy } := by
  rw [CacheSystem.setCachingPolicy]
  generalize (if !build.thread ∧ policy = .perThread then .global else policy) = policy
  by_cases same : policy = s.system.policy
  · simpa only [if_pos same] using configured
  · simp only [if_neg same]
    exact of_pending (fun k => (configured.inOrder k).flush) (fun _ => Nat.succ_ne_zero _)
      configured.unconfigured

section Step

variable [DecidableEq κ] [DecidableEq ι]

theorem step {call : DwarfStep κ ι n w} (configured : Configured build s)
    (fits : s.system.policy ≠ .none → s.StepFits build call) :
    Configured build { s with system := s.system.step build t call } := by
  by_cases uses : s.system.policy = .none
  · have same : (s.system.step build t call).caches = s.system.caches ∧
        (s.system.step build t call).pending = s.system.pending := CacheSystem.step_uncached uses
    obtain ⟨sameCaches, samePending⟩ := same
    constructor
    · intro k
      rw [sameCaches, samePending]
      exact configured.inOrder k
    · cases configured.use with
      | inl unused =>
          refine .inl ⟨unused.1, ?_, ?_, ?_⟩
          · rw [sameCaches]
            exact unused.2.hash
          · rw [sameCaches]
            exact unused.2.logSize
          · rw [sameCaches, samePending]
            exact unused.2.own
      | inr inUse =>
          refine .inr ⟨?_, ?_, ?_⟩
          · rw [sameCaches]
            exact inUse.hash
          · rw [sameCaches]
            exact inUse.logSize
          · rw [sameCaches, samePending]
            exact inUse.others
  · have fits := fits uses
    have inOrder := CacheInOrder.callFits configured.inOrder fits.pending
    cases configured.use with
    | inl unused =>
        have small : (s.system.caches none).logSize ≤ 15 := by simp [unused.2.logSize]
        refine ⟨step_inOrder configured.inOrder uses small inOrder, ?_⟩
        have stepped : Unused build (s.system.step build t call) ∨
            InUse (s.system.step build t call) none := unused.2.step uses
        cases stepped with
        | inl still => exact .inl ⟨unused.1, still⟩
        | inr inUse =>
            refine .inr ?_
            rw [unused.1]
            exact inUse
    | inr inUse =>
        exact ⟨step_inOrder configured.inOrder uses inUse.small inOrder,
          .inr (inUse.step configured.inOrder uses fits)⟩

end Step

/-- A request that fits is refused before anything is changed, or it is met. -/
theorem setCacheSize_cases [DecidableEq κ] (configured : Configured build s) {size : ℕ} {flag : Int}
    {memory : CacheMemory n w} (fits : s.RequestFits build size flag memory) :
    ((∃ fault, s.system.setCacheSizeResult build size flag memory = .error fault) ∧
        s.system.setCacheSize build size flag memory = s.system) ∨
      (s.system.setCacheSizeResult build size flag memory = .ok () ∧
        Configured build ⟨s.system.setCacheSize build size flag memory, some size⟩) := by
  rw [CacheSystem.setCacheSizeResult, CacheSystem.setCacheSize]
  simp only [roundLogSize_request]
  by_cases refused : flag ≠ 0 ∨ build.thread = true
  · left
    have kept : flag ≠ 0 ∨ build.thread = true ∨
        SizedSystem.logSizeFor size = (s.system.caches none).logSize := by tauto
    rw [if_pos refused, if_pos kept]
    exact ⟨⟨_, rfl⟩, rfl⟩
  · right
    have fits := fits
    rw [SizedSystem.RequestFits, ← or_assoc] at fits
    replace fits := fits.resolve_left refused
    rw [if_neg refused]
    by_cases same : SizedSystem.logSizeFor size = (s.system.caches none).logSize
    · rw [if_pos same, if_pos (.inr (.inr same))]
      refine ⟨rfl, configured.inOrder, .inr ?_⟩
      cases configured.use with
      | inl unused =>
          exfalso
          rw [unused.2.logSize] at same
          obtain isDefault | ⟨hash, -⟩ := fits
          · rw [same] at isDefault
            cases isDefault
          · cases unused.2.hash.symm.trans hash
      | inr inUse => exact ⟨inUse.hash, same.symm, inUse.others⟩
    · have resizes : ¬(flag ≠ 0 ∨ build.thread = true ∨
          SizedSystem.logSizeFor size = (s.system.caches none).logSize) := by tauto
      rw [if_neg same, if_neg resizes]
      have small : SizedSystem.logSizeFor size ≤ 15 := min_le_left _ _
      rcases flushed : flushRsCache memory
        { s.system.caches none with logSize := SizedSystem.logSizeFor size } with ⟨_ | _, resized⟩
      · exfalso
        obtain ⟨-, hash⟩ := flushRsCache_refused flushed
        rw [flushRsCache] at flushed
        split at flushed
        next => cases flushed
        next own =>
          rw [RsCache.usesDefault, Bool.or_eq_true, beq_iff_eq, not_or] at own
          obtain isDefault | ⟨-, isSame | granted⟩ := fits
          · exact own.1 isDefault
          · exact same isSame
          · rw [if_pos granted] at flushed
            cases flushed
      · obtain ⟨⟨hash, links, buckets, installed⟩, isSize⟩ := flushRsCache_installed small flushed
        have isSize : resized.logSize = SizedSystem.logSizeFor size := by
          rw [isSize]
          split
          next bare =>
            obtain isDefault | ⟨hash, -⟩ := fits
            · exact isDefault.symm
            · cases bare.symm.trans hash
          next => rfl
        have sameGeneration : resized.generation = (s.system.caches none).generation := by
          have kept := flushRsCache_generation memory
            { s.system.caches none with logSize := SizedSystem.logSizeFor size }
          rwa [flushed] at kept
        refine ⟨rfl, of_pending (fun k => ?_) (fun _ => Nat.succ_ne_zero _) (.inr ?_)⟩
        · by_cases isGlobal : k = none
          · subst isGlobal
            simp only [Function.update_self]
            refine ⟨?_, fun none => absurd none (Nat.succ_ne_zero _)⟩
            rw [sameGeneration]
            exact (configured.inOrder none).flush.behind
          · simp only [Function.update_of_ne isGlobal]
            exact (configured.inOrder k).flush
        · simp only [Function.update_self]
          exact ⟨by simp [installed.isHash], isSize⟩

theorem perform [DecidableEq κ] [DecidableEq ι] {op : CacheOp κ ι n w τ}
    (configured : Configured build s) (fits : s.Fits build op) :
    Configured build (s.perform build t op) := by
  cases op with
  | step call => exact configured.step fits
  | flush => exact configured.flush
  | setCachingPolicy policy => exact configured.setCachingPolicy policy
  | setCacheSize size flag memory =>
      obtain ⟨⟨fault, failed⟩, same⟩ | ⟨done, configured'⟩ := configured.setCacheSize_cases fits
      · simp only [SizedSystem.perform, failed, same]
        exact configured
      · simp only [SizedSystem.perform, done]
        exact configured'
  | setCursor i c =>
      refine ⟨configured.inOrder, ?_⟩
      cases configured.use with
      | inl unused => exact .inl ⟨unused.1, unused.2.hash, unused.2.logSize, unused.2.own⟩
      | inr inUse => exact .inr ⟨inUse.hash, inUse.logSize, inUse.others⟩

end Configured

variable [DecidableEq κ] [DecidableEq ι] {op : CacheOp κ ι n w τ}
  {allowed : SizedSystem κ ι n w τ → CacheOp κ ι n w τ → Prop}

theorem SizedRun.configured (run : SizedRun build t allowed s)
    (fits : ∀ s op, allowed s op → s.Fits build op) : Configured build s := by
  apply run.invariant
  · intro s start
    obtain ⟨policy, cursors, rfl⟩ := start
    refine ⟨fun k => ⟨rfl, fun _ hash => by cases hash⟩, .inl ⟨rfl, rfl, rfl, ?_⟩⟩
    intro thread none hash
    cases hash
  · intro s op s' configured isAllowed performed
    rw [← performed]
    exact configured.perform (fits s op isAllowed)

/-- In a run whose operations fit, a step uses caches of the size that was asked for, and a request
    that fails leaves the size. -/
theorem run_obeys (run : SizedRun build t allowed s)
    (fits : ∀ s op, allowed s op → s.Fits build op) (isAllowed : allowed s op) :
    s.Obeys build op := by
  have configured := run.configured fits
  have fits := fits s op isAllowed
  cases op with
  | step call => exact configured.usesRequested fits
  | flush => trivial
  | setCachingPolicy policy => trivial
  | setCacheSize size flag memory =>
      intro failed
      obtain ⟨-, same⟩ | ⟨done, -⟩ := configured.setCacheSize_cases fits
      · rw [same]
      · obtain ⟨fault, failed⟩ := failed
        cases done.symm.trans failed
  | setCursor i c => trivial

end Run

/-! ## A request before the first use -/

def callSpace : SizedSystem Unit Unit 1 64 Unit := { system := callSystem }

theorem callSpace_starts {allowed : SizedSystem Unit Unit 1 64 Unit → CacheOp Unit Unit 1 64 Unit → Prop} :
    SizedRun plainBuild (plainTarget 1 64 0 0) allowed callSpace :=
  .start ⟨_, _, rfl⟩

/-- An address space that is asked for 1024 entries before its cache is used gets 128 of them, and
    says that all went well. -/
theorem callSpace_ignored :
    ¬∀ (s : SizedSystem Unit Unit 1 64 Unit) (op : CacheOp Unit Unit 1 64 Unit),
      SizedRun plainBuild (plainTarget 1 64 0 0) (fun _ _ => True) s → s.Obeys plainBuild op := by
  intro always
  have run : SizedRun plainBuild (plainTarget 1 64 0 0) (fun _ _ => True)
      (callSpace.perform plainBuild (plainTarget 1 64 0 0) (.setCacheSize 1024 0 {})) :=
    .step _ callSpace_starts trivial rfl
  have used := always _ (.step callStep) run
  have sized := (used 1024 rfl).1 rfl
  exact absurd sized.logSize (by decide)

/-- After a first use the same request is met. -/
theorem callSpace_obeys :
    ((callSpace.perform plainBuild (plainTarget 1 64 0 0) (.step callStep)).perform plainBuild
      (plainTarget 1 64 0 0) (.setCacheSize 1024 0 {})).Obeys plainBuild (.step callStep) := by
  have run : SizedRun plainBuild (plainTarget 1 64 0 0) (fun s op => s.Fits plainBuild op)
      ((callSpace.perform plainBuild (plainTarget 1 64 0 0) (.step callStep)).perform plainBuild
        (plainTarget 1 64 0 0) (.setCacheSize 1024 0 {})) := by
    refine .step _ (.step _ callSpace_starts ?_ rfl) ?_ rfl
    · exact fun _ => ⟨by decide, fun asked => absurd rfl asked⟩
    · exact .inr (.inr (.inr ⟨rfl, .inr rfl⟩))
  exact run_obeys run (fun _ _ fits => fits) fun _ => ⟨by decide, fun _ _ _ => ⟨rfl, .inl rfl⟩⟩

end Libunwind.Dwarf
