import Libunwind.Dwarf.CacheTable

/-! # Runs of the hash table

From a flush on, every call of `rs_new` enters one entry. Through a run that
never replaces a valid entry with the `ip` 0 the table stays one, so lookups end
and find the last entries. An entry with the `ip` 0 that is replaced stays in
its chain, which can close into a circle.
-/

namespace Libunwind.Dwarf

open ChainedTable RoundRobin

variable {n w : Nat} {τ : Type}

/-- What the hash table promises: its chains end and have no cell twice, a valid
    entry is once in the chain of its `ip` and in no other, and a lookup ends,
    with an entry for its `ip` if one of the last entries is for it. -/
structure RsCache.HashTable (τ : Type) (cache : RsCache n w) (inserted : List (Word w)) :
    Prop where
  chains : ∃ hash links, cache.hash = some hash ∧ cache.links = some links ∧
    ∀ slot < hash.length, ∃ cells,
      Chain (nextOf links) (cacheSize cache.logSize ≤ ·) (headOf hash slot) cells ∧ cells.Nodup
  once : ∀ hash links, cache.hash = some hash → cache.links = some links →
    ∀ (i : ℕ) (link : CacheEntry w), links[i]? = some link → link.valid = true →
      ∀ slot < hash.length, ∀ cells,
        Chain (nextOf links) (cacheSize cache.logSize ≤ ·) (headOf hash slot) cells →
        cells.count i = if slot = hashIndex link.ip cache.logSize then 1 else 0
  lookup : ∀ c : Cursor n w τ, c.HintWithin (cacheSize cache.logSize) →
    ∃ found, rsLookup cache c = .ok found ∧
      (found.isSome = true ↔ c.ip ∈ inserted.take (cacheSize cache.logSize)) ∧
      ∀ i links, found = some i → cache.links = some links →
        cacheMatch links i c.ip = .ok true

/-- No two valid entries have the same `ip`. -/
def RsCache.DistinctIps (cache : RsCache n w) : Prop :=
  ∀ links, cache.links = some links → ∀ i j ip,
    entryIp links i = some ip → entryIp links j = some ip → i = j

/-- `rs_new` is called for an `ip` that was looked up in vain. -/
def RsCache.Missed (τ : Type) (cache : RsCache n w) (ip : Word w) : Prop :=
  ∃ c : Cursor n w τ, c.ip = ip ∧ c.HintWithin (cacheSize cache.logSize) ∧
    rsLookup cache c = .ok none

/-- The caches that calls of `rs_new` lead to, with the instruction pointers
    from the last one; a lookup leaves the cache as it is. The calls are those
    that `allowed` lets through. -/
inductive CacheRun (allowed : RsCache n w → Word w → Prop) :
    RsCache n w → List (Word w) → Prop where
  | flush {cache cache' : RsCache n w} (memory : CacheMemory n w) :
      cache.logSize ≤ 15 → flushRsCache memory cache = (true, cache') →
        CacheRun allowed cache' []
  | new {cache cache' : RsCache n w} {inserted : List (Word w)} {ip : Word w}
      {signalFrame : Bool} {rs : RegState n w} {i : ℕ} :
      CacheRun allowed cache inserted → allowed cache ip →
        rsNew cache ip signalFrame rs = .ok (cache', i) → CacheRun allowed cache' (ip :: inserted)

namespace RsCache.IsTable

variable {cache : RsCache n w} {inserted : List (Word w)} {hash : List (BitVec 16)}
  {links : List (CacheEntry w)} {buckets : List (RegState n w)}

theorem entryIp_lt (table : cache.IsTable inserted hash links buckets) {i : ℕ} {ip : Word w}
    (isIp : entryIp links i = some ip) : i < cacheSize cache.logSize := by
  obtain ⟨link, isLink, -⟩ := Option.bind_eq_some_iff.mp isIp
  rw [← table.linksLong]
  exact (List.getElem?_eq_some_iff.mp isLink).1

/-- The entries are those of the last calls of `rs_new`. -/
theorem exists_entryIp (table : cache.IsTable inserted hash links buckets) (ip : Word w) :
    (∃ i < cacheSize cache.logSize, entryIp links i = some ip) ↔
      ip ∈ inserted.take (cacheSize cache.logSize) := by
  rw [← exists_lastIn]
  constructor
  · rintro ⟨i, inRange, isIp⟩
    exact ⟨i, inRange, by rw [← table.entries i inRange, isIp]⟩
  · rintro ⟨i, inRange, isIp⟩
    exact ⟨i, inRange, by rw [table.entries i inRange, isIp]⟩

theorem hashTable (table : cache.IsTable inserted hash links buckets) :
    cache.HashTable τ inserted := by
  refine ⟨⟨hash, links, table.isHash, table.isLinks, fun slot _ => ?_⟩, ?_, fun c within => ?_⟩
  · obtain ⟨cells, chain, -⟩ := table.keyed slot
    exact ⟨cells, chain, chain.nodup⟩
  · intro hash' links' isHash isLinks i link isLink valid slot _ cells chain
    obtain rfl := Option.some.inj (table.isHash.symm.trans isHash)
    obtain rfl := Option.some.inj (table.isLinks.symm.trans isLinks)
    have mine : slotOf cache.logSize links i = some (hashIndex link.ip cache.logSize) := by
      rw [slotOf, entryIp_eq isLink, CacheEntry.validIp, if_pos valid, Option.map_some]
    obtain ⟨cells', chain', mem⟩ := table.keyed slot
    obtain rfl := chain.unique chain'
    by_cases same : slot = hashIndex link.ip cache.logSize
    · rw [if_pos same]
      exact List.count_eq_one_of_mem chain.nodup ((mem i).mpr (by rw [mine, same]))
    · rw [if_neg same, List.count_eq_zero, mem i, mine]
      exact fun eq => same (Option.some.inj eq).symm
  · obtain ⟨found, isFound, hits, misses⟩ := table.rsLookup_eq c within
    refine ⟨found, isFound, ?_, fun i links' hit isLinks => ?_⟩
    · rw [← table.exists_entryIp]
      cases found with
      | none => simpa using misses rfl
      | some i => simpa using ⟨i, hits i rfl⟩
    · obtain rfl := Option.some.inj (table.isLinks.symm.trans isLinks)
      obtain ⟨inRange, isIp⟩ := hits i hit
      obtain ⟨link, isLink⟩ := exists_link table.linksLong (not_le.mpr inRange)
      rw [cacheMatch_eq isLink, isIp, beq_self_eq_true]

theorem distinctIps (table : cache.IsTable inserted hash links buckets)
    (distinct : (inserted.take (cacheSize cache.logSize)).Nodup) : cache.DistinctIps := by
  intro links' isLinks i j ip isIp isIp'
  obtain rfl := Option.some.inj (table.isLinks.symm.trans isLinks)
  have inRange := table.entryIp_lt isIp
  have inRange' := table.entryIp_lt isIp'
  rw [table.entries i inRange] at isIp
  rw [table.entries j inRange'] at isIp'
  exact lastIn_injective distinct inRange inRange' isIp isIp'

/-- A lookup in vain is for an `ip` that is not among the last ones. -/
theorem not_mem_of_missed (table : cache.IsTable inserted hash links buckets) {ip : Word w}
    (missed : cache.Missed τ ip) : ip ∉ inserted.take (cacheSize cache.logSize) := by
  obtain ⟨c, rfl, within, vain⟩ := missed
  obtain ⟨found, isFound, -, misses⟩ := table.rsLookup_eq c within
  rw [← table.exists_entryIp]
  rintro ⟨i, inRange, isIp⟩
  exact misses (Except.ok.inj (isFound.symm.trans vain)) i inRange isIp

end RsCache.IsTable

theorem flushRsCache_isTable {memory : CacheMemory n w} {cache cache' : RsCache n w}
    (small : cache.logSize ≤ 15) (flushed : flushRsCache memory cache = (true, cache')) :
    ∃ hash links buckets, cache'.IsTable [] hash links buckets := by
  rw [flushRsCache] at flushed
  split at flushed
  · rw [← (Prod.mk.inj flushed).2]
    exact isTable_install cache memory (by norm_num [defaultLogCacheSize])
  · split at flushed
    · obtain ⟨hash, links, buckets, table⟩ := isTable_install cache memory small
      rw [← (Prod.mk.inj flushed).2]
      exact ⟨hash, links, buckets, { table, table.toArrays with }⟩
    · cases (Prod.mk.inj flushed).1

section Run

variable {allowed : RsCache n w → Word w → Prop} {cache : RsCache n w} {inserted : List (Word w)}

theorem CacheRun.isTable (run : CacheRun allowed cache inserted)
    (replaces : ∀ cache ip, allowed cache ip → cache.Replaceable) :
    ∃ hash links buckets, cache.IsTable inserted hash links buckets := by
  induction run with
  | flush memory small flushed => exact flushRsCache_isTable small flushed
  | @new cache cache' inserted ip signalFrame rs i _ isAllowed entered ih =>
      obtain ⟨hash, links, buckets, table⟩ := ih
      obtain ⟨cache'', hash', links', buckets', entered', table'⟩ :=
        table.rsNew_eq (replaces cache ip isAllowed) ip signalFrame rs
      rw [entered] at entered'
      cases entered'
      exact ⟨hash', links', buckets', table'⟩

theorem CacheRun.nodup (run : CacheRun allowed cache inserted)
    (replaces : ∀ cache ip, allowed cache ip → cache.Replaceable)
    (misses : ∀ cache ip, allowed cache ip → cache.Missed τ ip) :
    (inserted.take (cacheSize cache.logSize)).Nodup := by
  induction run with
  | flush => simp
  | new before isAllowed entered ih =>
      obtain ⟨hash, links, buckets, table⟩ := before.isTable replaces
      obtain ⟨_, _, _, _, _, first, _, _, _, _, _, _, _, rfl, -⟩ := rsNew_eq_ok.mp entered
      exact nodup_take_cons ih (table.not_mem_of_missed (misses _ _ isAllowed))

/-- The hash table through a run whose calls of `rs_new` do not replace a valid
    entry with the `ip` 0. -/
theorem run_hashTable (run : CacheRun allowed cache inserted)
    (replaces : ∀ cache ip, allowed cache ip → cache.Replaceable) :
    cache.HashTable τ inserted ∧
      ((∀ cache ip, allowed cache ip → cache.Missed τ ip) → cache.DistinctIps) ∧
      ∀ ip signalFrame rs, allowed cache ip →
        ∃ cache' i, rsNew cache ip signalFrame rs = .ok (cache', i) := by
  obtain ⟨hash, links, buckets, table⟩ := run.isTable replaces
  refine ⟨table.hashTable, fun misses => table.distinctIps (run.nodup replaces misses), ?_⟩
  intro ip signalFrame rs isAllowed
  obtain ⟨cache', _, _, _, entered, -⟩ :=
    table.rsNew_eq (replaces cache ip isAllowed) ip signalFrame rs
  exact ⟨cache', _, entered⟩

/-- The entry of the `ip` 0 that `rs_new` does not take out stays in its chain. -/
theorem RsCache.IsTable.not_hashTable {hash : List (BitVec 16)} {links : List (CacheEntry w)}
    {buckets : List (RegState n w)} (table : cache.IsTable inserted hash links buckets)
    {cache' : RsCache n w} {ip : Word w} {signalFrame : Bool} {rs : RegState n w} {i : ℕ}
    (isZero : entryIp links cache.rrHead.toNat = some 0)
    (entered : rsNew cache ip signalFrame rs = .ok (cache', i)) (later : List (Word w)) :
    ¬ cache'.HashTable τ later := by
  intro ⟨⟨hash', links', isHash, isLinks, chains⟩, once, _⟩
  obtain ⟨old, isOld, isIp⟩ := Option.bind_eq_some_iff.mp isZero
  have zeroIp : old.ip = 0 := by
    rw [CacheEntry.validIp] at isIp
    split at isIp
    · exact Option.some.inj isIp
    · cases isIp
  obtain ⟨_, _, _, _, _, first, _, isHash₀, isLinks₀, _, unlinked, isFirst, _, rfl, -⟩ :=
    rsNew_eq_ok.mp entered
  obtain rfl := Option.some.inj (table.isHash.symm.trans isHash₀)
  obtain rfl := Option.some.inj (table.isLinks.symm.trans isLinks₀)
  rw [unlink, index_eq_ok.mpr isOld, ok_bind, if_pos zeroIp, pure_eq_ok] at unlinked
  cases unlinked
  cases isHash
  cases isLinks
  have inLinks := (List.getElem?_eq_some_iff.mp isOld).1
  have inHash := (List.getElem?_eq_some_iff.mp isFirst).1
  have zeroInHash : hashIndex (0 : Word w) cache.logSize < hash.length := by
    rw [table.hashLong]
    exact hashIndex_lt _ _
  obtain ⟨cells, chain, mem⟩ := table.keyed (hashIndex (0 : Word w) cache.logSize)
  have member : cache.rrHead.toNat ∈ cells := (mem _).mpr (by rw [slotOf, isZero, Option.map_some])
  obtain ⟨before, after, rfl⟩ := List.append_of_mem member
  obtain ⟨cells', chain', distinct⟩ := chains (hashIndex (0 : Word w) cache.logSize) (by simpa using zeroInHash)
  have count := once _ _ rfl rfl cache.rrHead.toNat _ (List.getElem?_set_self inLinks) rfl
    (hashIndex (0 : Word w) cache.logSize) (by simpa using zeroInHash) cells' chain'
  rw [headOf_set inHash, nextOf_set inLinks, RsCache.entered_logSize] at chain'
  have agree : ∀ y ∈ before, Function.update (nextOf links) cache.rrHead.toNat first.toNat y =
      nextOf links y := by
    intro y early
    refine Function.update_of_ne ?_ _ _
    rintro rfl
    exact (List.disjoint_of_nodup_append chain.nodup) early List.mem_cons_self
  by_cases same : hashIndex (0 : Word w) cache.logSize = hashIndex ip cache.logSize
  · -- the new entry is at the head of the chain that leads back to it
    rw [same, Function.update_self] at chain'
    rw [same, headOf_eq isFirst] at chain
    cases chain' with
    | nil stops => exact absurd stops (not_le.mpr table.rrHead_lt)
    | cons _ rest =>
        rw [Function.update_self] at rest
        exact (List.nodup_cons.mp distinct).1 (chain.mem_of_agree rest agree)
  · rw [Function.update_of_ne same] at chain'
    rw [RsCache.entered_logSize, if_neg same, List.count_eq_zero] at count
    exact count (chain.mem_of_agree chain' agree)

/-- `rs_new` keeps the hash table exactly when it does not replace a valid entry
    with the `ip` 0. -/
theorem rsNew_hashTable_iff (run : CacheRun allowed cache inserted)
    (replaces : ∀ cache ip, allowed cache ip → cache.Replaceable) {cache' : RsCache n w}
    {ip : Word w} {signalFrame : Bool} {rs : RegState n w} {i : ℕ}
    (entered : rsNew cache ip signalFrame rs = .ok (cache', i)) :
    cache'.HashTable τ (ip :: inserted) ↔ cache.Replaceable := by
  obtain ⟨hash, links, buckets, table⟩ := run.isTable replaces
  constructor
  · intro kept links' isLinks isZero
    obtain rfl := Option.some.inj (table.isLinks.symm.trans isLinks)
    exact table.not_hashTable isZero entered (ip :: inserted) kept
  · intro replaceable
    obtain ⟨cache'', hash', links', buckets', entered', table'⟩ :=
      table.rsNew_eq replaceable ip signalFrame rs
    rw [entered] at entered'
    cases entered'
    exact table'.hashTable

end Run

/-- A flushed cache of one entry. -/
def oneEntryCache : RsCache 1 64 :=
  (flushRsCache {} { logSize := 0, hash := some [] }).2

theorem oneEntryCache_flushed :
    flushRsCache {} { logSize := 0, hash := some [] } = (true, oneEntryCache) := rfl

/-- The cache after a call of `rs_new`. -/
def RsCache.entering (cache : RsCache 1 64) (ip : Word 64) : RsCache 1 64 :=
  match rsNew cache ip false {} with
  | .ok (cache, _) => cache
  | .error _ => cache

def cursorAt (ip : Word 64) : Cursor 1 64 Unit :=
  { cfa := 0, ip, loc := fun _ => nullLoc, tdep := () }

theorem oneEntryCache_run (allowed : RsCache 1 64 → Word 64 → Prop) :
    CacheRun allowed oneEntryCache [] :=
  .flush {} (by decide) oneEntryCache_flushed

theorem zeroRun :
    CacheRun (RsCache.Missed Unit) ((oneEntryCache.entering 0).entering 2) [2, 0] := by
  refine .new (.new (oneEntryCache_run _) ?_
    (rfl : rsNew oneEntryCache 0 false {} = .ok (oneEntryCache.entering 0, 0))) ?_
    (rfl : rsNew (oneEntryCache.entering 0) 2 false {} =
      .ok ((oneEntryCache.entering 0).entering 2, 0))
  · exact ⟨cursorAt 0, rfl, by decide, by decide⟩
  · exact ⟨cursorAt 2, rfl, by decide, by decide⟩

/-- The entry that replaces the one for 0 leads to itself: a lookup that passes
    it does not end, though every call of `rs_new` followed a lookup in vain. -/
theorem recycledZero_cycle :
    (∃ links, ((oneEntryCache.entering 0).entering 2).links = some links ∧
      ∀ rounds, lookupChain links 1 4 rounds 0 = .error .timeout) ∧
    ¬ ∀ (cache : RsCache 1 64) (inserted : List (Word 64)),
      CacheRun (RsCache.Missed Unit) cache inserted → cache.HashTable Unit inserted := by
  constructor
  · refine ⟨_, rfl, fun rounds => ?_⟩
    induction rounds with
    | zero => rfl
    | succ rounds ih => exact ih
  · intro always
    obtain ⟨found, ends, -⟩ := (always _ _ zeroRun).lookup (cursorAt 4) (by decide)
    have cycle : rsLookup ((oneEntryCache.entering 0).entering 2) (cursorAt 4) =
        .error .timeout := by decide
    rw [cycle] at ends
    cases ends

/-- Replacing the entry for another `ip` keeps the table. -/
theorem recycledOther_hashTable :
    ((oneEntryCache.entering 6).entering 2).HashTable Unit [2, 6] := by
  have run : CacheRun (fun (cache : RsCache 1 64) _ => cache.Replaceable)
      ((oneEntryCache.entering 6).entering 2) [2, 6] := by
    refine .new (.new (oneEntryCache_run _) ?_
      (rfl : rsNew oneEntryCache 6 false {} = .ok (oneEntryCache.entering 6, 0))) ?_
      (rfl : rsNew (oneEntryCache.entering 6) 2 false {} =
        .ok ((oneEntryCache.entering 6).entering 2, 0))
    · rintro links ⟨⟩
      decide
    · rintro links ⟨⟩
      decide
  exact (run_hashTable run fun _ _ replaceable => replaceable).1

end Libunwind.Dwarf
