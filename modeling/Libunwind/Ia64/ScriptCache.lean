import Libunwind.Basic
import Libunwind.Library.ChainedTable
import Libunwind.Library.RotatingList
import Libunwind.Library.Run

/-! # The script cache on ia64

The buckets are threaded twice: in the order in which they are to be used again, and by the hash of
the instruction pointer that each is for. A bucket for the instruction pointer 0 enters a chain
like any other, but when it is used again it is taken for one that was never used.
-/

namespace Libunwind.Ia64

/-- `struct ia64_script`, as far as the cache goes. -/
structure Script where
  ip : Word 64
  prMask : Word 64
  prVal : Word 64
  lruChain : BitVec 16
  collChain : BitVec 16
  hint : BitVec 16
  count : BitVec 16
  abiMarker : BitVec 16
  deriving DecidableEq

/-- `IA64_UNW_CACHE_SIZE` -/
def unwCacheSize : Nat := 128

/-- `IA64_UNW_HASH_SIZE` -/
def unwHashSize : Nat := 256

/-- `struct ia64_script_cache`; only the first buckets are there. -/
structure ScriptCache where
  lruHead : BitVec 16
  lruTail : BitVec 16
  hash : BitVec 8 → BitVec 16
  buckets : BitVec 16 → Script

/-- What a cursor keeps of the cache; as an index, a negative number is one that is too large. -/
structure CursorHint where
  hint : BitVec 16
  prevScript : BitVec 16

/-- `hash` -/
def hash (ip : Word 64) : BitVec 8 :=
  (((ip >>> 4) * 0x9e3779b97f4a7c16) >>> (64 - 8)).setWidth 8

/-- `cache_match` -/
def cacheMatch (script : Script) (ip pr : Word 64) : Bool :=
  ip == script.ip && (pr ^^^ script.prVal) &&& script.prMask == 0

/-- `script_init` -/
def scriptInit (script : Script) (ip : Word 64) : Script :=
  { script with ip, hint := 0, count := 0, abiMarker := 0 }

/-- There is a bucket with this index. -/
def IsBucket (i : BitVec 16) : Prop := i.toNat < unwCacheSize

instance (i : BitVec 16) : Decidable (IsBucket i) := inferInstanceAs (Decidable (_ < _))

/-- `flush_script_cache` -/
def flushScriptCache (cache : ScriptCache) : ScriptCache where
  lruHead := 127
  lruTail := 0
  hash _ := -1
  buckets i :=
    let script := cache.buckets i
    { script with
      lruChain := if 0 < i then i - 1 else script.lruChain
      collChain := -1
      ip := 0 }

namespace ScriptCache

variable (cache : ScriptCache)

/-- `cache->buckets[i]` -/
def bucket (i : BitVec 16) : Result Script :=
  if IsBucket i then pure (cache.buckets i) else .error .undefined

def setBucket (i : BitVec 16) (script : Script) : ScriptCache :=
  { cache with buckets := Function.update cache.buckets i script }

/-- The loop of `script_lookup`. A walk of more steps than there are buckets goes round in a
    circle. -/
def lookupChain (ip pr : Word 64) : Nat → BitVec 16 → Result (Option (BitVec 16))
  | 0, _ => .error .timeout
  | rounds + 1, i => do
      let script ← cache.bucket i
      if cacheMatch script ip pr then pure (some i)
      else if unwHashSize ≤ script.collChain.toNat then pure none
      else lookupChain ip pr rounds script.collChain

/-- `script_lookup` -/
def scriptLookup (c : CursorHint) (ip pr : Word 64) :
    Result (Option (BitVec 16) × ScriptCache × CursorHint) := do
  let script ← cache.bucket c.hint
  if cacheMatch script ip pr then pure (some c.hint, cache, c)
  else
    let index := cache.hash (Ia64.hash ip)
    if unwCacheSize ≤ index.toNat then pure (none, cache, c)
    else
      match ← cache.lookupChain ip pr (unwCacheSize + 1) index with
      | none => pure (none, cache, c)
      | some i => do
          let prev ← cache.bucket c.prevScript
          pure (some i, cache.setBucket c.prevScript { prev with hint := i }, { c with hint := i })

/-- The loop of `script_new` that removes the old script from the hash table. -/
def unlinkFrom (index : BitVec 8) (script : BitVec 16) :
    Nat → Option (BitVec 16) → BitVec 16 → Result ScriptCache
  | 0, _, _ => .error .timeout
  | rounds + 1, prev, tmp =>
      if tmp = script then do
        let old ← cache.bucket tmp
        match prev with
        | some prev => do
            let before ← cache.bucket prev
            pure (cache.setBucket prev { before with collChain := old.collChain })
        | none => pure { cache with hash := Function.update cache.hash index old.collChain }
      else do
        let other ← cache.bucket tmp
        -- old script wasn't in the hash-table
        if unwCacheSize ≤ other.collChain.toNat then pure cache
        else unlinkFrom index script rounds (some tmp) other.collChain

/-- The bucket to be used again goes to the tail of the LRU chain. -/
def rotate : Result ScriptCache := do
  let head := cache.lruHead
  let script ← cache.bucket head
  let last ← cache.bucket cache.lruTail
  pure { cache.setBucket cache.lruTail { last with lruChain := head } with
    lruHead := script.lruChain
    lruTail := head }

/-- The old script is taken out of the hash table, if it's there. -/
def unlink (head : BitVec 16) : Result ScriptCache := do
  let script ← cache.bucket head
  if script.ip ≠ 0 then
    let index := Ia64.hash script.ip
    cache.unlinkFrom index head (unwCacheSize + 1) none (cache.hash index)
  else pure cache

/-- The new script enters the hash table. -/
def enter (head : BitVec 16) (ip : Word 64) : Result ScriptCache := do
  let script ← cache.bucket head
  let index := Ia64.hash ip
  let cache := cache.setBucket head (scriptInit { script with collChain := cache.hash index } ip)
  pure { cache with hash := Function.update cache.hash index head }

/-- `script_new` -/
def scriptNew (ip : Word 64) : Result (BitVec 16 × ScriptCache) := do
  let head := cache.lruHead
  let cache ← cache.rotate
  let cache ← cache.unlink head
  let cache ← cache.enter head ip
  pure (head, cache)

/-! ## What the cache should be -/

def lruNext (i : BitVec 16) : BitVec 16 := (cache.buckets i).lruChain

def collNext (i : BitVec 16) : BitVec 16 := (cache.buckets i).collChain

/-- The index that ends a chain. -/
def EndsChain (i : BitVec 16) : Prop := i = -1

/-- The buckets that the LRU list leads to. -/
def lruOrder : List (BitVec 16) := List.iterate cache.lruNext cache.lruHead unwCacheSize

/-- The list has every bucket once, and ends at the tail. -/
structure LruRight : Prop where
  distinct : cache.lruOrder.Nodup
  all : ∀ i, i ∈ cache.lruOrder ↔ IsBucket i
  last : cache.lruOrder.getLast? = some cache.lruTail

/-- Every chain goes along buckets and ends, and the buckets for other instruction pointers than 0
    are each in the chain of their own hash only. -/
def ChainsRight : Prop :=
  ∀ slot, ∃ cells, ChainedTable.Chain cache.collNext EndsChain (cache.hash slot) cells ∧
    (∀ i ∈ cells, IsBucket i) ∧
    ∀ i, IsBucket i → (cache.buckets i).ip ≠ 0 → (i ∈ cells ↔ Ia64.hash (cache.buckets i).ip = slot)

/-- `script_finalize`, for a script that a lookup or `script_new` has returned. -/
def scriptFinalize (i : BitVec 16) (prMask prVal : Word 64) : Result ScriptCache := do
  let script ← cache.bucket i
  pure (cache.setBucket i { script with prMask, prVal })

/-- What `ia64_find_save_locs` does with the hints once it has a script. -/
def followScript (c : CursorHint) (i : BitVec 16) : Result (ScriptCache × CursorHint) := do
  let prev ← cache.bucket c.prevScript
  let cache := cache.setBucket c.prevScript { prev with hint := i }
  let script ← cache.bucket i
  pure (cache, { hint := script.hint, prevScript := i })

end ScriptCache

/-! ## Runs -/

/-- A cache with the cursors that use it, and the buckets that were made since it was flushed, the
    last one first. -/
structure ScriptUse where
  cache : ScriptCache
  cursors : Nat → CursorHint
  made : List (BitVec 16 × Word 64)

/-- What is done with a cache. -/
inductive ScriptEvent where
  | flush
  | initCursor (k : Nat)
  | lookup (k : Nat) (ip pr : Word 64)
  | new (ip : Word 64)
  | finalize (i : BitVec 16) (prMask prVal : Word 64)
  | follow (k : Nat) (i : BitVec 16)

namespace ScriptUse

variable (use : ScriptUse)

/-- The cache was flushed; its hints come from before. -/
def Start : Prop :=
  (∃ before : ScriptCache, (∀ i, IsBucket i → IsBucket (before.buckets i).hint) ∧
    use.cache = flushScriptCache before) ∧
  (∀ k, use.cursors k = ⟨0, 0⟩) ∧ use.made = []

/-- What is remembered of a call of `script_new`. -/
def afterNew (i : BitVec 16) (ip : Word 64) (cache : ScriptCache) : ScriptUse :=
  { use with cache, made := (i, ip) :: use.made }

inductive Step : ScriptUse → ScriptEvent → ScriptUse → Prop where
  | flush {use : ScriptUse} :
      Step use .flush { use with cache := flushScriptCache use.cache, made := [] }
  | initCursor {use : ScriptUse} {k : Nat} :
      Step use (.initCursor k) { use with cursors := Function.update use.cursors k ⟨0, 0⟩ }
  | lookup {use : ScriptUse} {k : Nat} {ip pr : Word 64} {found : Option (BitVec 16)}
      {cache : ScriptCache} {c : CursorHint} :
      use.cache.scriptLookup (use.cursors k) ip pr = .ok (found, cache, c) →
      Step use (.lookup k ip pr)
        { use with cache, cursors := Function.update use.cursors k c }
  | new {use : ScriptUse} {ip : Word 64} {i : BitVec 16} {cache : ScriptCache} :
      use.cache.scriptNew ip = .ok (i, cache) → Step use (.new ip) (use.afterNew i ip cache)
  | finalize {use : ScriptUse} {i : BitVec 16} {prMask prVal : Word 64} {cache : ScriptCache} :
      use.cache.scriptFinalize i prMask prVal = .ok cache →
      Step use (.finalize i prMask prVal) { use with cache }
  | follow {use : ScriptUse} {k : Nat} {i : BitVec 16} {cache : ScriptCache} {c : CursorHint} :
      use.cache.followScript (use.cursors k) i = .ok (cache, c) →
      Step use (.follow k i) { use with cache, cursors := Function.update use.cursors k c }

/-- Where a bucket was made at all, all others were made later. -/
def LeastRecent (i : BitVec 16) : Prop :=
  ∀ j, IsBucket j → j ≠ i → i ∈ use.made.map Prod.fst →
    (use.made.map Prod.fst).idxOf j < (use.made.map Prod.fst).idxOf i

/-- The list and the chains are right, and no lookup leaves the buckets or goes round in a circle. -/
structure Right : Prop where
  lru : use.cache.LruRight
  chains : use.cache.ChainsRight
  lookups : ∀ k ip pr, ∃ found cache c,
    use.cache.scriptLookup (use.cursors k) ip pr = .ok (found, cache, c) ∧ ∀ i ∈ found, IsBucket i

/-- `script_new` returns the bucket that was made least recently, and leaves the cache right. -/
def NewRight (ip : Word 64) : Prop :=
  ∃ i cache, use.cache.scriptNew ip = .ok (i, cache) ∧ use.LeastRecent i ∧
    (use.afterNew i ip cache).Right

/-- The bucket that is to be used again was not made for the instruction pointer 0: that was not
    what the last call but 127 was for. -/
def ReusesNonzero : Prop := ∀ made ∈ use.made[127]?, made.2 ≠ 0

/-- No bucket that was made for the instruction pointer 0 is used again. -/
def Allowed : ScriptEvent → Prop
  | .new _ => use.ReusesNonzero
  | .finalize i _ _ | .follow _ i => IsBucket i
  | _ => True

end ScriptUse

/-! ## The operations on chains -/

open ChainedTable

namespace ScriptCache

variable {cache : ScriptCache} {i head : BitVec 16} {script : Script}

theorem bucket_eq (isBucket : IsBucket i) : cache.bucket i = .ok (cache.buckets i) := if_pos isBucket

theorem not_endsChain (isBucket : IsBucket i) : ¬EndsChain i := by
  rintro rfl
  exact absurd isBucket (by decide)

/-- The bucket at an index changes, and only in its `coll_chain`. -/
theorem setBucket_collNext {x : BitVec 16} (same : script.collChain = x) :
    (cache.setBucket i script).collNext = Function.update cache.collNext i x := by
  funext j
  by_cases here : j = i
  · subst here
    simp only [collNext, setBucket, Function.update_self, same]
  · simp only [collNext, setBucket, Function.update_of_ne here]

theorem setBucket_lruNext {x : BitVec 16} (same : script.lruChain = x) :
    (cache.setBucket i script).lruNext = Function.update cache.lruNext i x := by
  funext j
  by_cases here : j = i
  · subst here
    simp only [lruNext, setBucket, Function.update_self, same]
  · simp only [lruNext, setBucket, Function.update_of_ne here]

/-- Nothing but the chains differs. -/
structure SameButChains (cache cache' : ScriptCache) : Prop where
  lruHead : cache'.lruHead = cache.lruHead
  lruTail : cache'.lruTail = cache.lruTail
  bucket : ∀ i, cache'.buckets i =
    { cache.buckets i with collChain := (cache'.buckets i).collChain }

theorem SameButChains.refl (cache : ScriptCache) : SameButChains cache cache := ⟨rfl, rfl, fun _ => rfl⟩

theorem SameButChains.setBucket (cache : ScriptCache) (i x : BitVec 16) :
    SameButChains cache (cache.setBucket i { cache.buckets i with collChain := x }) := by
  refine ⟨rfl, rfl, fun j => ?_⟩
  by_cases here : j = i
  · subst here
    simp only [ScriptCache.setBucket, Function.update_self]
  · simp only [ScriptCache.setBucket, Function.update_of_ne here]

theorem SameButChains.lruNext_eq {cache' : ScriptCache} (same : SameButChains cache cache') :
    cache'.lruNext = cache.lruNext := by
  funext i
  rw [lruNext, same.bucket i]
  rfl

/-- The walk is at the bucket, and takes it out. -/
theorem unlinkHere {slotOf : BitVec 16 → Option (BitVec 8)} {index : BitVec 8}
    (keyed : Keyed EndsChain cache.hash cache.collNext slotOf) (mine : slotOf head = some index)
    {before cells : List (BitVec 16)}
    (chain : Chain cache.collNext EndsChain (cache.hash index) (before ++ head :: cells))
    (buckets : ∀ j ∈ before ++ head :: cells, IsBucket j) (rounds : Nat) :
    ∃ cache', cache.unlinkFrom index head (rounds + 1) before.getLast? head = .ok cache' ∧
      Keyed EndsChain cache'.hash cache'.collNext (Function.update slotOf head none) ∧
      SameButChains cache cache' := by
  have isBucket := buckets head (by simp)
  rw [unlinkFrom, if_pos rfl, bucket_eq isBucket]
  cases last : before.getLast? with
  | none =>
      obtain rfl := List.getLast?_eq_none_iff.mp last
      have first := (Chain.cons_iff.mp chain).1
      exact ⟨_, rfl, keyed.removeFirst mine first, rfl, rfl, fun _ => rfl⟩
  | some prev =>
      obtain ⟨front, rfl⟩ : ∃ front, before = front ++ [prev] :=
        ⟨_, (List.dropLast_append_getLast? prev last).symm⟩
      simp only [ok_bind, bucket_eq (buckets prev (by simp))]
      refine ⟨_, rfl, ?_, .setBucket cache prev _⟩
      rw [setBucket_collNext rfl]
      exact keyed.removeAfter (by simpa using chain)

/-- The walk comes to a bucket that is in the chain, and takes it out. -/
theorem unlinkFrom_spec {slotOf : BitVec 16 → Option (BitVec 8)} {index : BitVec 8}
    (keyed : Keyed EndsChain cache.hash cache.collNext slotOf) (mine : slotOf head = some index)
    {before cells : List (BitVec 16)}
    (chain : Chain cache.collNext EndsChain (cache.hash index) (before ++ i :: cells))
    (buckets : ∀ j ∈ before ++ i :: cells, IsBucket j) (further : head ∈ i :: cells) {rounds : Nat}
    (enough : cells.length < rounds) :
    ∃ cache', cache.unlinkFrom index head rounds before.getLast? i = .ok cache' ∧
      Keyed EndsChain cache'.hash cache'.collNext (Function.update slotOf head none) ∧
      SameButChains cache cache' := by
  induction cells generalizing before i rounds with
  | nil =>
      obtain ⟨rounds, rfl⟩ := Nat.exists_eq_add_of_lt enough
      obtain rfl : head = i := by simpa using further
      exact unlinkHere keyed mine chain buckets _
  | cons j cells ih =>
      obtain ⟨rounds, rfl⟩ : ∃ k, rounds = k + 1 := ⟨rounds - 1, by omega⟩
      by_cases here : head = i
      · subst here
        exact unlinkHere keyed mine chain buckets _
      · have isBucket := buckets i (by simp)
        obtain ⟨-, -, link⟩ := Chain.cons_iff.mp chain.suffix
        obtain ⟨next, -, -⟩ := Chain.cons_iff.mp link
        have inRange : ¬unwCacheSize ≤ (cache.buckets i).collChain.toNat := by
          have isNext := buckets j (by simp)
          rw [← next] at isNext
          exact Nat.not_le.mpr isNext
        have chain' : Chain cache.collNext EndsChain (cache.hash index) ((before ++ [i]) ++ j :: cells) := by
          simpa using chain
        have enough' : cells.length < rounds := by simpa using enough
        have rest := ih chain' (by simpa using buckets) (by simpa [here] using further) enough'
        rw [List.getLast?_concat] at rest
        rw [unlinkFrom, if_neg (Ne.symm here), bucket_eq isBucket]
        simp only [ok_bind, if_neg inRange]
        rw [show (cache.buckets i).collChain = j from next]
        exact rest

/-- A chain has no more buckets than there are. -/
theorem chain_length {cells : List (BitVec 16)} (distinct : cells.Nodup)
    (buckets : ∀ j ∈ cells, IsBucket j) : cells.length ≤ unwCacheSize := by
  have within : cells.map BitVec.toNat ⊆ List.range unwCacheSize := by
    intro n member
    obtain ⟨j, mem, rfl⟩ := List.mem_map.mp member
    exact List.mem_range.mpr (buckets j mem)
  have distinct' : (cells.map BitVec.toNat).Nodup :=
    distinct.map fun _ _ same => BitVec.eq_of_toNat_eq same
  simpa using (distinct'.subperm within).length_le

/-- A walk along a chain comes back, with a bucket if it finds one. -/
theorem lookupChain_ok {cells : List (BitVec 16)} {rounds : Nat} (ip pr : Word 64)
    (chain : Chain cache.collNext EndsChain i (i :: cells)) (buckets : ∀ j ∈ i :: cells, IsBucket j)
    (enough : cells.length < rounds) :
    ∃ found, cache.lookupChain ip pr rounds i = .ok found ∧ ∀ j ∈ found, IsBucket j := by
  induction cells generalizing i rounds with
  | nil =>
      obtain ⟨rounds, rfl⟩ : ∃ k, rounds = k + 1 := ⟨rounds - 1, by omega⟩
      have isBucket := buckets i (by simp)
      rw [lookupChain, bucket_eq isBucket]
      by_cases isMatch : cacheMatch (cache.buckets i) ip pr = true
      · exact ⟨some i, by simp [isMatch], by simpa using isBucket⟩
      · cases (Chain.cons_iff.mp chain).2.2 with
        | nil stops =>
            have atEnd : unwHashSize ≤ (cache.buckets i).collChain.toNat := by
              rw [show (cache.buckets i).collChain = -1 from stops]
              decide
            exact ⟨none, by simp [isMatch, atEnd], by simp⟩
  | cons j cells ih =>
      obtain ⟨rounds, rfl⟩ : ∃ k, rounds = k + 1 := ⟨rounds - 1, by omega⟩
      have isBucket := buckets i (by simp)
      rw [lookupChain, bucket_eq isBucket]
      by_cases isMatch : cacheMatch (cache.buckets i) ip pr = true
      · exact ⟨some i, by simp [isMatch], by simpa using isBucket⟩
      · obtain ⟨-, -, link⟩ := Chain.cons_iff.mp chain
        obtain ⟨next, -, -⟩ := Chain.cons_iff.mp link
        have next : (cache.buckets i).collChain = j := next
        have inside : ¬unwHashSize ≤ j.toNat := by
          have isNext : j.toNat < 128 := buckets j (by simp)
          rw [unwHashSize]
          omega
        have link' : Chain cache.collNext EndsChain j (j :: cells) := by
          rw [← next]
          simpa [collNext, next] using link
        obtain ⟨found, walked, within⟩ := ih link' (fun k mem => buckets k (List.mem_cons_of_mem i mem))
          (by simpa using enough)
        refine ⟨found, ?_, within⟩
        simp only [ok_bind, isMatch, Bool.false_eq_true, if_false, next, inside]
        exact walked

/-- A bucket that keeps its links and its instruction pointer. -/
theorem setBucket_keeps (sameColl : script.collChain = (cache.buckets i).collChain)
    (sameLru : script.lruChain = (cache.buckets i).lruChain)
    (sameIp : script.ip = (cache.buckets i).ip) :
    (cache.setBucket i script).collNext = cache.collNext ∧
      (cache.setBucket i script).lruNext = cache.lruNext ∧
      ∀ j, ((cache.setBucket i script).buckets j).ip = (cache.buckets j).ip := by
  refine ⟨(setBucket_collNext sameColl).trans (Function.update_eq_self i cache.collNext),
    (setBucket_lruNext sameLru).trans (Function.update_eq_self i cache.lruNext), fun j => ?_⟩
  by_cases here : j = i
  · subst here
    simp only [setBucket, Function.update_self, sameIp]
  · simp only [setBucket, Function.update_of_ne here]

end ScriptCache

/-! ## What every operation keeps -/

namespace ScriptUse

open ScriptCache

variable {use : ScriptUse}

/-- The chain that a bucket is in. -/
def slotOf (made : List (BitVec 16 × Word 64)) (i : BitVec 16) : Option (BitVec 8) :=
  (made.lookup i).map Ia64.hash

/-- The LRU list is in the order in which the buckets were made, those never made before all
    others; what was made is in the chain of its hash. -/
structure Ordered (cache : ScriptCache) (made : List (BitVec 16 × Word 64))
    (fresh : List (BitVec 16)) : Prop where
  threaded : RotatingList.Threaded cache.lruNext cache.lruHead cache.lruTail
    (fresh ++ ((made.map Prod.fst).take unwCacheSize).reverse)
  distinct : (fresh ++ ((made.map Prod.fst).take unwCacheSize).reverse).Nodup
  all : ∀ i, i ∈ fresh ++ ((made.map Prod.fst).take unwCacheSize).reverse ↔ IsBucket i
  fresh : ∀ i ∈ fresh, i ∉ made.map Prod.fst
  buckets : ∀ i ∈ made.map Prod.fst, IsBucket i
  ips : ∀ i, IsBucket i → (cache.buckets i).ip = (made.lookup i).getD 0
  keyed : Keyed EndsChain cache.hash cache.collNext (slotOf made)

/-- All indices are those of buckets. -/
structure HintsWithin (use : ScriptUse) : Prop where
  buckets : ∀ i, IsBucket i → IsBucket (use.cache.buckets i).hint
  hint : ∀ k, IsBucket (use.cursors k).hint
  prevScript : ∀ k, IsBucket (use.cursors k).prevScript

def Invariant (use : ScriptUse) : Prop :=
  (∃ fresh, Ordered use.cache use.made fresh) ∧ use.HintsWithin

theorem mem_of_lookup {made : List (BitVec 16 × Word 64)} {i : BitVec 16} {ip : Word 64}
    (found : made.lookup i = some ip) : i ∈ made.map Prod.fst := by
  obtain ⟨later, earlier, rfl, -⟩ := List.lookup_eq_some_iff.mp found
  simp

/-- The indices of the buckets. -/
def allBuckets : List (BitVec 16) := (List.range unwCacheSize).map (BitVec.ofNat 16)

theorem allBuckets_nodup : allBuckets.Nodup := by
  refine List.Nodup.map_on ?_ List.nodup_range
  intro m small n small' same
  have small : m < 128 := List.mem_range.mp small
  have small' : n < 128 := List.mem_range.mp small'
  have same := congrArg BitVec.toNat same
  simp only [BitVec.toNat_ofNat] at same
  omega

theorem mem_allBuckets {i : BitVec 16} : i ∈ allBuckets ↔ IsBucket i := by
  rw [allBuckets, List.mem_map]
  constructor
  · rintro ⟨n, small, rfl⟩
    have small : n < 128 := List.mem_range.mp small
    change (BitVec.ofNat 16 n).toNat < 128
    rw [BitVec.toNat_ofNat]
    omega
  · intro isBucket
    exact ⟨i.toNat, List.mem_range.mpr isBucket, by simp⟩

theorem Ordered.length {cache : ScriptCache} {made : List (BitVec 16 × Word 64)}
    {fresh : List (BitVec 16)} (ordered : Ordered cache made fresh) :
    (fresh ++ ((made.map Prod.fst).take unwCacheSize).reverse).length = unwCacheSize := by
  have same : (fresh ++ ((made.map Prod.fst).take unwCacheSize).reverse).Perm allBuckets := by
    rw [List.perm_ext_iff_of_nodup ordered.distinct allBuckets_nodup]
    intro i
    rw [ordered.all, mem_allBuckets]
  rw [same.length_eq, allBuckets, List.length_map, List.length_range]

section Facts

variable {cache : ScriptCache} {made : List (BitVec 16 × Word 64)} {fresh : List (BitVec 16)}

/-- What follows from it for the LRU list, -/
theorem Ordered.lruRight (ordered : Ordered cache made fresh) : cache.LruRight := by
  have order : cache.lruOrder = fresh ++ ((made.map Prod.fst).take unwCacheSize).reverse := by
    have iterated := ordered.threaded.iterate
    rwa [ordered.length] at iterated
  refine ⟨?_, ?_, ?_⟩
  · rw [order]
    exact ordered.distinct
  · rw [order]
    exact ordered.all
  · rw [order]
    exact ordered.threaded.last

/-- for the chains, -/
theorem Ordered.chainsRight (ordered : Ordered cache made fresh) : cache.ChainsRight := by
  intro slot
  obtain ⟨cells, chain, mem⟩ := ordered.keyed slot
  refine ⟨cells, chain, fun i inChain => ?_, fun i isBucket nonzero => ?_⟩
  · obtain ⟨ip, found, -⟩ := Option.map_eq_some_iff.mp ((mem i).mp inChain)
    exact ordered.buckets i (mem_of_lookup found)
  · rw [mem i, slotOf]
    have ip := ordered.ips i isBucket
    cases found : made.lookup i with
    | none =>
        rw [found] at ip
        exact absurd ip nonzero
    | some ip' =>
        rw [found] at ip
        simp [ip]

/-- and for the bucket that is used next. -/
theorem Ordered.head_isBucket (ordered : Ordered cache made fresh) : IsBucket cache.lruHead := by
  obtain ⟨rest, order⟩ := ordered.threaded.cons_eq
  rw [← ordered.all, order]
  exact List.mem_cons_self

/-- Once every bucket was made, the next one is that which was made longest ago. -/
theorem Ordered.oldest (ordered : Ordered cache made fresh)
    (again : cache.lruHead ∈ made.map Prod.fst) :
    fresh = [] ∧ (made.map Prod.fst)[127]? = some cache.lruHead := by
  have first := ordered.threaded.first
  have none : fresh = [] := by
    cases fresh with
    | nil => rfl
    | cons i fresh =>
        cases first
        exact absurd again (ordered.fresh _ List.mem_cons_self)
  refine ⟨none, ?_⟩
  have length := ordered.length
  subst none
  rw [List.nil_append, List.length_reverse] at length
  rw [List.nil_append, List.head?_reverse, List.getLast?_eq_getElem?, length,
    List.getElem?_take_of_lt (by decide)] at first
  exact first

/-- The next bucket goes to the end of the list. -/
structure Rotated (cache : ScriptCache) (rest : List (BitVec 16)) (cache' : ScriptCache) : Prop where
  threaded : RotatingList.Threaded cache'.lruNext cache'.lruHead cache'.lruTail
    (rest ++ [cache.lruHead])
  hash : cache'.hash = cache.hash
  collNext : cache'.collNext = cache.collNext
  ip : ∀ i, (cache'.buckets i).ip = (cache.buckets i).ip
  hint : ∀ i, (cache'.buckets i).hint = (cache.buckets i).hint

theorem Ordered.rotate (ordered : Ordered cache made fresh) : ∃ rest cache',
    fresh ++ ((made.map Prod.fst).take unwCacheSize).reverse = cache.lruHead :: rest ∧
      cache.rotate = .ok cache' ∧ Rotated cache rest cache' := by
  obtain ⟨rest, order⟩ := ordered.threaded.cons_eq
  have threaded := ordered.threaded
  have length := ordered.length
  have distinct := ordered.distinct
  have tail := (ordered.all _).mp threaded.tail_mem
  rw [order] at threaded length distinct
  have more : rest ≠ [] := by
    rintro rfl
    cases length
  have rotated : cache.rotate = .ok { cache.setBucket cache.lruTail
      { cache.buckets cache.lruTail with lruChain := cache.lruHead } with
        lruHead := cache.lruNext cache.lruHead
        lruTail := cache.lruHead } := by
    rw [ScriptCache.rotate, bucket_eq ordered.head_isBucket]
    simp only [ok_bind, bucket_eq tail]
    rfl
  have links : (cache.setBucket cache.lruTail
      { cache.buckets cache.lruTail with lruChain := cache.lruHead }).lruNext =
        Function.update cache.lruNext cache.lruTail cache.lruHead := setBucket_lruNext rfl
  have kept : (cache.setBucket cache.lruTail
      { cache.buckets cache.lruTail with lruChain := cache.lruHead }).collNext = cache.collNext :=
    (setBucket_collNext rfl).trans (Function.update_eq_self cache.lruTail cache.collNext)
  refine ⟨rest, _, order, rotated, ?_, rfl, kept, fun i => ?_, fun i => ?_⟩
  · have turned := threaded.rotate more distinct
    rw [← links] at turned
    exact turned
  · by_cases here : i = cache.lruTail
    · subst here
      simp only [setBucket, Function.update_self]
    · simp only [setBucket, Function.update_of_ne here]
  · by_cases here : i = cache.lruTail
    · subst here
      simp only [setBucket, Function.update_self]
    · simp only [setBucket, Function.update_of_ne here]

/-- A bucket is at the front of the chain of its new hash. -/
structure Entered (cache : ScriptCache) (head : BitVec 16) (ip : Word 64) (cache' : ScriptCache) :
    Prop where
  lruHead : cache'.lruHead = cache.lruHead
  lruTail : cache'.lruTail = cache.lruTail
  lruNext : cache'.lruNext = cache.lruNext
  hash : cache'.hash = Function.update cache.hash (Ia64.hash ip) head
  collNext : cache'.collNext = Function.update cache.collNext head (cache.hash (Ia64.hash ip))
  atHead : (cache'.buckets head).ip = ip ∧ (cache'.buckets head).hint = 0
  elsewhere : ∀ i, i ≠ head → cache'.buckets i = cache.buckets i

theorem enter_entered (cache : ScriptCache) {head : BitVec 16} (isBucket : IsBucket head) (ip : Word 64) :
    ∃ cache', cache.enter head ip = .ok cache' ∧ Entered cache head ip cache' := by
  have entered : cache.enter head ip = .ok { cache.setBucket head (scriptInit { cache.buckets head with
      collChain := cache.hash (Ia64.hash ip) } ip) with
        hash := Function.update cache.hash (Ia64.hash ip) head } := by
    rw [enter, bucket_eq isBucket]
    rfl
  have links : (cache.setBucket head (scriptInit { cache.buckets head with
      collChain := cache.hash (Ia64.hash ip) } ip)).lruNext = cache.lruNext :=
    (setBucket_lruNext rfl).trans (Function.update_eq_self head cache.lruNext)
  have chains : (cache.setBucket head (scriptInit { cache.buckets head with
      collChain := cache.hash (Ia64.hash ip) } ip)).collNext =
        Function.update cache.collNext head (cache.hash (Ia64.hash ip)) := setBucket_collNext rfl
  refine ⟨_, entered, rfl, rfl, links, rfl, chains, ?_, fun i other => ?_⟩
  · simp only [setBucket, Function.update_self, scriptInit, and_self]
  · simp only [setBucket, Function.update_of_ne other]

/-- The list after the next bucket was made. -/
theorem Ordered.order_after {rest : List (BitVec 16)} (ordered : Ordered cache made fresh)
    (order : fresh ++ ((made.map Prod.fst).take unwCacheSize).reverse = cache.lruHead :: rest)
    (ip : Word 64) : ∃ fresh', rest ++ [cache.lruHead] =
      fresh' ++ ((((cache.lruHead, ip) :: made).map Prod.fst).take unwCacheSize).reverse ∧
        ∀ i ∈ fresh', i ∉ ((cache.lruHead, ip) :: made).map Prod.fst := by
  have length := ordered.length
  have unwCacheSize_succ : unwCacheSize = 127 + 1 := rfl
  rw [List.map_cons, unwCacheSize_succ, List.take_succ_cons, List.reverse_cons]
  cases fresh with
  | nil =>
      refine ⟨[], ?_, by simp⟩
      rw [List.nil_append] at order length
      have last : (made.map Prod.fst)[127]? = some cache.lruHead := by
        refine (ordered.oldest ?_).2
        refine List.mem_of_mem_take (i := unwCacheSize) (List.mem_reverse.mp ?_)
        rw [order]
        exact List.mem_cons_self
      rw [unwCacheSize_succ, List.take_add_one, last, Option.toList_some, List.reverse_append,
        List.reverse_singleton, List.singleton_append, List.cons.injEq] at order
      rw [← order.2]
      rfl
  | cons i fresh =>
      obtain ⟨rfl, rfl⟩ := List.cons.inj order
      rw [List.length_append, List.length_cons, List.length_reverse, List.length_take] at length
      have size : unwCacheSize = 128 := rfl
      have short : (made.map Prod.fst).length ≤ 127 := by omega
      refine ⟨fresh, ?_, fun j mem => ?_⟩
      · change fresh ++ _ ++ _ = _
        rw [List.take_of_length_le (by omega), List.take_of_length_le short, List.append_assoc]
      · have distinct := (List.nodup_cons.mp (List.nodup_append.mp ordered.distinct).1).1
        rw [List.mem_cons, not_or]
        exact ⟨ne_of_mem_of_not_mem mem distinct, ordered.fresh j (List.mem_cons_of_mem _ mem)⟩

theorem slotOf_cons (made : List (BitVec 16 × Word 64)) (head : BitVec 16) (ip : Word 64)
    (before : Option (BitVec 8)) :
    slotOf ((head, ip) :: made) =
      Function.update (Function.update (slotOf made) head before) head (some (Ia64.hash ip)) := by
  funext i
  by_cases here : i = head
  · subst here
    simp [slotOf]
  · rw [Function.update_of_ne here, Function.update_of_ne here, slotOf, List.lookup_cons,
      beq_false_of_ne here]
    rfl

/-- A bucket that is used again is taken out of its chain, unless it was made for the instruction
    pointer 0. -/
theorem unlink_spec {head : BitVec 16}
    (keyed : Keyed EndsChain cache.hash cache.collNext (slotOf made))
    (buckets : ∀ i ∈ made.map Prod.fst, IsBucket i) (isBucket : IsBucket head)
    (ip : (cache.buckets head).ip = (made.lookup head).getD 0) (nonzero : made.lookup head ≠ some 0) :
    ∃ cache', cache.unlink head = .ok cache' ∧
      Keyed EndsChain cache'.hash cache'.collNext (Function.update (slotOf made) head none) ∧
      SameButChains cache cache' := by
  cases found : made.lookup head with
  | none =>
      rw [found, Option.getD_none] at ip
      have free : slotOf made head = none := by rw [slotOf, found, Option.map_none]
      refine ⟨cache, ?_, ?_, .refl cache⟩
      · rw [unlink, bucket_eq isBucket]
        simp only [ok_bind, ip, ne_eq, not_true_eq_false, if_false]
        rfl
      · rwa [← free, Function.update_eq_self]
  | some old =>
      rw [found, Option.getD_some] at ip
      have real : (cache.buckets head).ip ≠ 0 := by
        rw [ip]
        rintro rfl
        exact nonzero found
      have mine : slotOf made head = some (Ia64.hash old) := by rw [slotOf, found, Option.map_some]
      obtain ⟨cells, chain, mem⟩ := keyed (Ia64.hash old)
      have member := (mem head).mpr mine
      have within : ∀ j ∈ cells, IsBucket j := by
        intro j inChain
        obtain ⟨_, found', -⟩ := Option.map_eq_some_iff.mp ((mem j).mp inChain)
        exact buckets j (mem_of_lookup found')
      have short := chain_length chain.nodup within
      cases cells with
      | nil => cases member
      | cons i cells =>
          obtain ⟨first, -, -⟩ := Chain.cons_iff.mp chain
          have enough : cells.length < unwCacheSize + 1 := by
            rw [List.length_cons] at short
            omega
          have chain' : Chain cache.collNext EndsChain (cache.hash (Ia64.hash old)) ([] ++ i :: cells) :=
            chain
          obtain ⟨cache', walked, keyed', same⟩ :=
            unlinkFrom_spec keyed mine chain' within member enough
          refine ⟨cache', ?_, keyed', same⟩
          rw [unlink, bucket_eq isBucket]
          simp only [ok_bind, if_pos real]
          rw [ip, first]
          exact walked

/-- Unless the next bucket was made for the instruction pointer 0, it is used again in order. -/
theorem Ordered.scriptNew (ordered : Ordered cache made fresh)
    (nonzero : made.lookup cache.lruHead ≠ some 0) (ip : Word 64) :
    ∃ cache', cache.scriptNew ip = .ok (cache.lruHead, cache') ∧
      (∃ fresh', Ordered cache' ((cache.lruHead, ip) :: made) fresh') ∧
      ∀ i, (cache'.buckets i).hint = (cache.buckets i).hint ∨ (cache'.buckets i).hint = 0 := by
  have isBucket := ordered.head_isBucket
  obtain ⟨rest, cache₁, order, rotates, rotated⟩ := ordered.rotate
  have keyed : Keyed EndsChain cache₁.hash cache₁.collNext (slotOf made) := by
    rw [rotated.hash, rotated.collNext]
    exact ordered.keyed
  have ip₁ : (cache₁.buckets cache.lruHead).ip = (made.lookup cache.lruHead).getD 0 :=
    (rotated.ip _).trans (ordered.ips _ isBucket)
  obtain ⟨cache₂, unlinks, keyed₂, same⟩ :=
    unlink_spec keyed ordered.buckets isBucket ip₁ nonzero
  obtain ⟨cache₃, enters, entered⟩ := enter_entered cache₂ isBucket ip
  have kept (i : BitVec 16) (other : i ≠ cache.lruHead) :
      (cache₃.buckets i).ip = (cache.buckets i).ip ∧
        (cache₃.buckets i).hint = (cache.buckets i).hint := by
    rw [entered.elsewhere i other, same.bucket i]
    exact ⟨rotated.ip i, rotated.hint i⟩
  obtain ⟨fresh', order', unmade⟩ := ordered.order_after order ip
  have turned : (rest ++ [cache.lruHead]).Perm
      (fresh ++ ((made.map Prod.fst).take unwCacheSize).reverse) := by
    rw [order]
    exact List.perm_append_singleton _ _
  refine ⟨cache₃, ?_, ⟨fresh', ?_, ?_, fun i => ?_, unmade, ?_, fun i bucket => ?_, ?_⟩, fun i => ?_⟩
  · rw [ScriptCache.scriptNew, rotates]
    simp only [ok_bind, unlinks, enters]
    rfl
  · rw [← order', entered.lruNext, entered.lruHead, entered.lruTail, same.lruNext_eq, same.lruHead,
      same.lruTail]
    exact rotated.threaded
  · rw [← order']
    exact turned.nodup_iff.mpr ordered.distinct
  · rw [← order', turned.mem_iff, ordered.all]
  · rw [List.map_cons, List.forall_mem_cons]
    exact ⟨isBucket, ordered.buckets⟩
  · by_cases here : i = cache.lruHead
    · subst here
      simp [entered.atHead.1]
    · rw [(kept i here).1, ordered.ips i bucket, List.lookup_cons, beq_false_of_ne here]
  · rw [entered.hash, entered.collNext, slotOf_cons made cache.lruHead ip none]
    exact keyed₂.addFirst (Function.update_self ..) (not_endsChain isBucket) _
  · by_cases here : i = cache.lruHead
    · subst here
      exact Or.inr entered.atHead.2
    · exact Or.inl (kept i here).2

/-- A bucket that was made for the instruction pointer 0 stays in its old chain. -/
theorem Ordered.not_chainsRight (ordered : Ordered cache made fresh)
    (zero : made.lookup cache.lruHead = some 0) {ip : Word 64} {i : BitVec 16} {cache' : ScriptCache}
    (new : cache.scriptNew ip = .ok (i, cache')) : ¬cache'.ChainsRight := by
  have isBucket := ordered.head_isBucket
  obtain ⟨rest, cache₁, order, rotates, rotated⟩ := ordered.rotate
  have ip₁ : (cache₁.buckets cache.lruHead).ip = 0 := by
    rw [rotated.ip, ordered.ips _ isBucket, zero]
    rfl
  have unlinks : cache₁.unlink cache.lruHead = .ok cache₁ := by
    rw [unlink, bucket_eq isBucket]
    simp only [ok_bind, ip₁, ne_eq, not_true_eq_false, if_false]
    rfl
  obtain ⟨cache₃, enters, entered⟩ := enter_entered cache₁ isBucket ip
  rw [ScriptCache.scriptNew, rotates] at new
  simp only [ok_bind, unlinks, enters] at new
  cases new
  have hash := entered.hash
  have collNext := entered.collNext
  rw [rotated.hash] at hash
  rw [rotated.hash, rotated.collNext] at collNext
  intro right
  obtain ⟨cells, chain, mem⟩ := ordered.keyed (Ia64.hash 0)
  have member : cache.lruHead ∈ cells := (mem _).mpr (by rw [slotOf, zero, Option.map_some])
  obtain ⟨before, after, rfl⟩ := List.append_of_mem member
  have agrees : ∀ j ∈ before, cache'.collNext j = cache.collNext j := by
    intro j inFront
    have other : j ≠ cache.lruHead := by
      have apart := (List.nodup_append.mp chain.nodup).2.2
      exact apart j inFront _ List.mem_cons_self
    rw [collNext, Function.update_of_ne other]
  obtain ⟨cells', chain', -, only⟩ := right (Ia64.hash 0)
  by_cases again : Ia64.hash 0 = Ia64.hash ip
  · -- the chain comes back to the bucket that heads it
    rw [hash, again, Function.update_self] at chain'
    cases chain' with
    | nil stops => exact not_endsChain isBucket stops
    | cons goes rest' =>
        have distinct := (Chain.cons goes rest').nodup
        have link : cache'.collNext cache.lruHead = cache.hash (Ia64.hash 0) := by
          rw [collNext, Function.update_self, again]
        rw [link] at rest'
        exact (List.nodup_cons.mp distinct).1 (chain.mem_of_agree rest' agrees)
  · rw [hash, Function.update_of_ne again] at chain'
    have nonzero : ip ≠ 0 := by
      rintro rfl
      exact again rfl
    have inOld := chain.mem_of_agree chain' agrees
    have key := (only _ isBucket (by rwa [entered.atHead.1])).mp inOld
    rw [entered.atHead.1] at key
    exact again key.symm

end Facts

section Facts

variable {cache : ScriptCache} {made : List (BitVec 16 × Word 64)} {fresh : List (BitVec 16)}

/-- What was made 128 calls ago is in the bucket that is used next. -/
theorem Ordered.lookup_oldest (ordered : Ordered cache made fresh) {m : BitVec 16 × Word 64}
    (at' : made[127]? = some m) : m.1 = cache.lruHead ∧ made.lookup cache.lruHead = some m.2 := by
  obtain ⟨long, here⟩ := List.getElem?_eq_some_iff.mp at'
  have length := ordered.length
  have size : unwCacheSize = 128 := rfl
  rw [List.length_append, List.length_reverse, List.length_take, List.length_map] at length
  obtain rfl : fresh = [] := List.eq_nil_of_length_eq_zero (by omega)
  have again : cache.lruHead ∈ made.map Prod.fst := by
    obtain ⟨rest, order⟩ := ordered.threaded.cons_eq
    refine List.mem_of_mem_take (i := unwCacheSize) (List.mem_reverse.mp ?_)
    rw [List.nil_append] at order
    rw [order]
    exact List.mem_cons_self
  have oldest := (ordered.oldest again).2
  rw [List.getElem?_map, at', Option.map_some, Option.some.injEq] at oldest
  refine ⟨oldest, ?_⟩
  have split : made = made.take 127 ++ m :: made.drop 128 := by
    rw [← here, ← List.drop_eq_getElem_cons long, List.take_append_drop]
  have distinct := ordered.distinct
  rw [List.nil_append, List.nodup_reverse, size, List.take_add_one, List.getElem?_map, at'] at distinct
  rw [List.lookup_eq_some_iff]
  refine ⟨made.take 127, made.drop 128, ?_, fun p mem => ?_⟩
  · rw [← oldest]
    exact split
  · have apart := (List.nodup_append.mp distinct).2.2 p.1 (by
      rw [← List.map_take]
      exact List.mem_map_of_mem mem) m.1 (by simp)
    rw [← oldest]
    simpa using Ne.symm apart

/-- The bucket that is used next was made for the instruction pointer 0 exactly if that was 128 calls
    ago. -/
theorem Ordered.reuses_iff (ordered : Ordered cache made fresh) :
    (∀ m ∈ made[127]?, m.2 ≠ 0) ↔ made.lookup cache.lruHead ≠ some 0 := by
  constructor
  · intro nonzero zero
    have oldest := (ordered.oldest (mem_of_lookup zero)).2
    rw [List.getElem?_map] at oldest
    obtain ⟨m, at', -⟩ := Option.map_eq_some_iff.mp oldest
    have found := (ordered.lookup_oldest at').2
    rw [zero, Option.some.injEq] at found
    exact nonzero m at' found.symm
  · intro nonzero m at' zero
    exact nonzero (zero ▸ (ordered.lookup_oldest at').2)

/-- All other buckets were made after the one that is used next. -/
theorem Ordered.leastRecent {use : ScriptUse} (ordered : Ordered use.cache use.made fresh) :
    use.LeastRecent use.cache.lruHead := by
  intro j isBucket other again
  obtain ⟨rfl, oldest⟩ := ordered.oldest again
  have all := (ordered.all j).mpr isBucket
  have distinct := ordered.distinct
  rw [List.nil_append, List.mem_reverse] at all
  rw [List.nil_append, List.nodup_reverse] at distinct
  have long : 127 < ((use.made.map Prod.fst).take unwCacheSize).length := by
    have length := ordered.length
    rw [List.nil_append, List.length_reverse] at length
    rw [length]
    decide
  have last : ((use.made.map Prod.fst).take unwCacheSize)[127] = use.cache.lruHead := by
    have at' : ((use.made.map Prod.fst).take unwCacheSize)[127]? = some use.cache.lruHead := by
      rw [List.getElem?_take_of_lt (by decide), oldest]
    rwa [List.getElem?_eq_getElem long, Option.some.injEq] at at'
  have atLast : ((use.made.map Prod.fst).take unwCacheSize).idxOf use.cache.lruHead = 127 := by
    rw [← last]
    exact distinct.idxOf_getElem 127 long
  have headMem : use.cache.lruHead ∈ (use.made.map Prod.fst).take unwCacheSize :=
    last ▸ List.getElem_mem long
  have inTake (i : BitVec 16) (mem : i ∈ (use.made.map Prod.fst).take unwCacheSize) :
      (use.made.map Prod.fst).idxOf i = ((use.made.map Prod.fst).take unwCacheSize).idxOf i := by
    conv_lhs => rw [← List.take_append_drop unwCacheSize (use.made.map Prod.fst)]
    exact List.idxOf_append_of_mem mem
  rw [inTake j all, inTake _ headMem, atLast]
  have inside := List.idxOf_lt_length_of_mem all
  have notLast : ((use.made.map Prod.fst).take unwCacheSize).idxOf j ≠ 127 := by
    intro same
    have found := List.getElem_idxOf inside
    simp only [same, last] at found
    exact other found.symm
  have length : ((use.made.map Prod.fst).take unwCacheSize).length ≤ 128 := List.length_take_le _ _
  omega

/-- A bucket that keeps its links and its instruction pointer. -/
theorem Ordered.setBucket (ordered : Ordered cache made fresh) {i : BitVec 16} {script : Script}
    (sameColl : script.collChain = (cache.buckets i).collChain)
    (sameLru : script.lruChain = (cache.buckets i).lruChain)
    (sameIp : script.ip = (cache.buckets i).ip) : Ordered (cache.setBucket i script) made fresh := by
  obtain ⟨collNext, lruNext, ips⟩ := setBucket_keeps sameColl sameLru sameIp
  refine ⟨?_, ordered.distinct, ordered.all, ordered.fresh, ordered.buckets, fun j isBucket => ?_, ?_⟩
  · rw [lruNext]
    exact ordered.threaded
  · rw [ips, ordered.ips j isBucket]
  · rw [collNext]
    exact ordered.keyed

theorem ordered_flush (cache : ScriptCache) :
    Ordered (flushScriptCache cache) [] allBuckets.reverse := by
  have down : ∀ m < 127, (0 : BitVec 16) < BitVec.ofNat 16 (m + 1) ∧
      BitVec.ofNat 16 (m + 1) - 1 = BitVec.ofNat 16 m := by
    decide
  have first : allBuckets.reverse.head? = some 127 := by decide
  have last : allBuckets.reverse.getLast? = some 0 := by decide
  refine ⟨⟨?_, ?_, ?_⟩, ?_, fun i => ?_, fun i _ => List.not_mem_nil,
    fun i none => absurd none List.not_mem_nil, fun i _ => rfl, ?_⟩
  · exact (congrArg List.head? (List.append_nil _)).trans first
  · exact (congrArg List.getLast? (List.append_nil _)).trans last
  · simp only [List.map_nil, List.take_nil, List.reverse_nil, List.append_nil]
    rw [List.isChain_reverse, allBuckets, List.isChain_map, List.isChain_range]
    intro m small
    obtain ⟨positive, same⟩ := down m small
    change (if 0 < BitVec.ofNat 16 (m + 1) then BitVec.ofNat 16 (m + 1) - 1 else _) = _
    rw [if_pos positive, same]
  · simp only [List.map_nil, List.take_nil, List.reverse_nil, List.append_nil]
    exact List.nodup_reverse.mpr allBuckets_nodup
  · simp only [List.map_nil, List.take_nil, List.reverse_nil, List.append_nil, List.mem_reverse]
    exact mem_allBuckets
  · exact Keyed.of_empty (fun _ => rfl) fun _ => rfl

end Facts

theorem HintsWithin.setBucket (hints : use.HintsWithin) {i : BitVec 16} {script : Script}
    (within : IsBucket script.hint) :
    ∀ j, IsBucket j → IsBucket ((use.cache.setBucket i script).buckets j).hint := by
  intro j isBucket
  by_cases here : j = i
  · subst here
    simpa only [ScriptCache.setBucket, Function.update_self] using within
  · simpa only [ScriptCache.setBucket, Function.update_of_ne here] using hints.buckets j isBucket

theorem HintsWithin.setCursor (hints : use.HintsWithin) (k : Nat) {c : CursorHint}
    (hint : IsBucket c.hint) (prevScript : IsBucket c.prevScript) :
    ∀ k', IsBucket (Function.update use.cursors k c k').hint ∧
      IsBucket (Function.update use.cursors k c k').prevScript := by
  intro k'
  by_cases here : k' = k
  · subst here
    rw [Function.update_self]
    exact ⟨hint, prevScript⟩
  · rw [Function.update_of_ne here]
    exact ⟨hints.hint k', hints.prevScript k'⟩

theorem Start.invariant (start : use.Start) : use.Invariant := by
  obtain ⟨⟨before, hints, flushed⟩, cursors, none⟩ := start
  refine ⟨⟨allBuckets.reverse, ?_⟩, ?_, ?_, ?_⟩
  · rw [flushed, none]
    exact ordered_flush before
  · rw [flushed]
    exact hints
  · intro k
    rw [cursors]
    decide
  · intro k
    rw [cursors]
    decide

/-- A lookup comes back, and changes nothing but hints. -/
theorem Invariant.lookup (inv : use.Invariant) (k : Nat) (ip pr : Word 64) :
    ∃ found cache c, use.cache.scriptLookup (use.cursors k) ip pr = .ok (found, cache, c) ∧
      (∀ i ∈ found, IsBucket i) ∧
        { use with cache, cursors := Function.update use.cursors k c }.Invariant := by
  obtain ⟨⟨fresh, ordered⟩, hints⟩ := inv
  have unchanged : { use with
      cursors := Function.update use.cursors k (use.cursors k) }.Invariant := by
    rw [Function.update_eq_self]
    exact ⟨⟨fresh, ordered⟩, hints⟩
  rw [scriptLookup, bucket_eq (hints.hint k)]
  simp only [ok_bind]
  by_cases byHint : cacheMatch (use.cache.buckets (use.cursors k).hint) ip pr = true
  · rw [if_pos byHint]
    exact ⟨_, _, _, rfl, by simpa using hints.hint k, unchanged⟩
  · rw [if_neg byHint]
    by_cases empty : unwCacheSize ≤ (use.cache.hash (Ia64.hash ip)).toNat
    · rw [if_pos empty]
      exact ⟨_, _, _, rfl, by simp, unchanged⟩
    · rw [if_neg empty]
      obtain ⟨cells, chain, mem⟩ := ordered.keyed (Ia64.hash ip)
      have within : ∀ j ∈ cells, IsBucket j := by
        intro j inChain
        obtain ⟨_, found, -⟩ := Option.map_eq_some_iff.mp ((mem j).mp inChain)
        exact ordered.buckets j (mem_of_lookup found)
      have short := chain_length chain.nodup within
      cases chain with
      | nil stops =>
          rw [show use.cache.hash (Ia64.hash ip) = -1 from stops] at empty
          exact absurd (by decide) empty
      | @cons _ rest goes tail =>
          have enough : rest.length < unwCacheSize + 1 := by
            rw [List.length_cons] at short
            omega
          obtain ⟨found, walked, inside⟩ := lookupChain_ok ip pr (.cons goes tail) within enough
          rw [walked]
          cases found with
          | none => exact ⟨_, _, _, rfl, by simp, unchanged⟩
          | some i =>
              have isBucket := inside i rfl
              simp only [ok_bind, bucket_eq (hints.prevScript k)]
              have cursor := hints.setCursor k (c := ⟨i, _⟩) isBucket (hints.prevScript k)
              exact ⟨_, _, _, rfl, inside, ⟨fresh, ordered.setBucket rfl rfl rfl⟩,
                hints.setBucket isBucket, fun k' => (cursor k').1, fun k' => (cursor k').2⟩

theorem Invariant.right (inv : use.Invariant) : use.Right := by
  obtain ⟨fresh, ordered⟩ := inv.1
  refine ⟨ordered.lruRight, ordered.chainsRight, fun k ip pr => ?_⟩
  obtain ⟨found, cache, c, looked, within, -⟩ := inv.lookup k ip pr
  exact ⟨found, cache, c, looked, within⟩

/-- A call of `script_new` that reuses no bucket made for the instruction pointer 0. -/
theorem Invariant.new (inv : use.Invariant) (reuses : use.ReusesNonzero) (ip : Word 64) :
    ∃ cache, use.cache.scriptNew ip = .ok (use.cache.lruHead, cache) ∧
      (use.afterNew use.cache.lruHead ip cache).Invariant := by
  obtain ⟨⟨fresh, ordered⟩, hints⟩ := inv
  obtain ⟨cache, made, ordered', sameHints⟩ := ordered.scriptNew (ordered.reuses_iff.mp reuses) ip
  refine ⟨cache, made, ordered', fun i isBucket => ?_, hints.hint, hints.prevScript⟩
  cases sameHints i with
  | inl same =>
      change IsBucket (cache.buckets i).hint
      rw [same]
      exact hints.buckets i isBucket
  | inr zero =>
      change IsBucket (cache.buckets i).hint
      rw [zero]
      decide

theorem Invariant.follow (inv : use.Invariant) (k : Nat) {i : BitVec 16} (isBucket : IsBucket i)
    {cache : ScriptCache} {c : CursorHint}
    (followed : use.cache.followScript (use.cursors k) i = .ok (cache, c)) :
    { use with cache, cursors := Function.update use.cursors k c }.Invariant := by
  obtain ⟨⟨fresh, ordered⟩, hints⟩ := inv
  rw [followScript, bucket_eq (hints.prevScript k)] at followed
  simp only [ok_bind, bucket_eq isBucket] at followed
  cases followed
  have kept : ∀ j, IsBucket j → IsBucket ((use.cache.setBucket (use.cursors k).prevScript
      { use.cache.buckets (use.cursors k).prevScript with hint := i }).buckets j).hint :=
    hints.setBucket isBucket
  have cursor := hints.setCursor k (c := ⟨_, i⟩) (kept i isBucket) isBucket
  exact ⟨⟨fresh, ordered.setBucket rfl rfl rfl⟩, kept, fun k' => (cursor k').1,
    fun k' => (cursor k').2⟩

/-- What a step keeps. -/
theorem Invariant.step (inv : use.Invariant) {event : ScriptEvent} {use' : ScriptUse}
    (allowed : use.Allowed event) (stepped : Step use event use') : use'.Invariant := by
  cases stepped with
  | flush =>
      obtain ⟨-, hints⟩ := inv
      exact ⟨⟨allBuckets.reverse, ordered_flush use.cache⟩, hints.buckets, hints.hint,
        hints.prevScript⟩
  | @initCursor k =>
      obtain ⟨ordered, hints⟩ := inv
      have cursor := hints.setCursor k (c := ⟨0, 0⟩) (by decide) (by decide)
      exact ⟨ordered, hints.buckets, fun k' => (cursor k').1, fun k' => (cursor k').2⟩
  | lookup looked =>
      obtain ⟨found, cache, c, looked', -, inv'⟩ := inv.lookup _ _ _
      cases looked.symm.trans looked'
      exact inv'
  | new made =>
      obtain ⟨cache, made', inv'⟩ := inv.new allowed _
      cases made.symm.trans made'
      exact inv'
  | @finalize i prMask prVal cache finalized =>
      obtain ⟨⟨fresh, ordered⟩, hints⟩ := inv
      rw [scriptFinalize, bucket_eq allowed] at finalized
      cases finalized
      exact ⟨⟨fresh, ordered.setBucket rfl rfl rfl⟩, hints.setBucket (hints.buckets i allowed),
        hints.hint, hints.prevScript⟩
  | follow followed => exact inv.follow _ allowed followed

/-- While no bucket that was made for the instruction pointer 0 is used again, the list and the
    chains are right; and the next call of `script_new` is right exactly if it uses none either. -/
theorem right_of_run (run : Run Start Step Allowed use) :
    use.Right ∧ ∀ ip, use.NewRight ip ↔ use.ReusesNonzero := by
  have inv : use.Invariant := run.invariant (fun _ start => start.invariant)
    (fun _ _ _ inv allowed step => inv.step allowed step)
  obtain ⟨fresh, ordered⟩ := inv.1
  refine ⟨inv.right, fun ip => ⟨fun right => ?_, fun reuses => ?_⟩⟩
  · obtain ⟨i, cache, made, -, right⟩ := right
    refine ordered.reuses_iff.mpr fun zero => ?_
    exact ordered.not_chainsRight zero made right.chains
  · obtain ⟨cache, made, inv'⟩ := inv.new reuses ip
    exact ⟨_, cache, made, ordered.leastRecent, inv'.right⟩

/-- A cache that was never used, flushed. -/
def flushed : ScriptUse where
  cache := flushScriptCache ⟨0, 0, fun _ => 0, fun _ => ⟨0, 0, 0, 0, 0, 0, 0, 0⟩⟩
  cursors _ := ⟨0, 0⟩
  made := []

theorem flushed_start : flushed.Start := by
  have zero : IsBucket 0 := by decide
  exact ⟨⟨_, fun _ _ => zero, rfl⟩, fun _ => rfl, rfl⟩

theorem flushed_right :
    flushed.Right ∧ ∀ ip, flushed.NewRight ip ↔ flushed.ReusesNonzero :=
  right_of_run (.start flushed_start)

/-- As many calls for the instruction pointer 0 as there are buckets, and after them one more. -/
theorem zeros_wrong :
    ∃ use, Run Start Step Allowed use ∧ use.made.map Prod.snd = List.replicate 128 0 ∧
      ∀ ip, ¬use.NewRight ip := by
  have calls (n : Nat) (few : n ≤ 128) : ∃ use, Run Start Step Allowed use ∧ use.Invariant ∧
      use.made.map Prod.snd = List.replicate n 0 := by
    induction n with
    | zero => exact ⟨flushed, .start flushed_start, flushed_start.invariant, rfl⟩
    | succ n ih =>
        obtain ⟨use, run, inv, zeros⟩ := ih (by omega)
        have reuses : use.ReusesNonzero := by
          intro m at'
          have length := congrArg List.length zeros
          rw [List.length_map, List.length_replicate] at length
          have bound := (List.getElem?_eq_some_iff.mp at').1
          omega
        obtain ⟨cache, made, inv'⟩ := inv.new reuses 0
        refine ⟨_, .step (.new 0) run reuses (.new made), inv', ?_⟩
        rw [List.replicate_succ, ← zeros]
        rfl
  obtain ⟨use, run, inv, zeros⟩ := calls 128 (Nat.le_refl _)
  refine ⟨use, run, zeros, fun ip right => ?_⟩
  obtain ⟨fresh, ordered⟩ := inv.1
  obtain ⟨i, cache, made, -, right⟩ := right
  refine ordered.not_chainsRight ?_ made right.chains
  have at' := congrArg (fun zeros : List (Word 64) => zeros[127]?) zeros
  rw [List.getElem?_map, List.getElem?_replicate, if_pos (by decide)] at at'
  obtain ⟨m, here, zero⟩ := Option.map_eq_some_iff.mp at'
  exact zero ▸ (ordered.lookup_oldest here).2

end ScriptUse

end Libunwind.Ia64
