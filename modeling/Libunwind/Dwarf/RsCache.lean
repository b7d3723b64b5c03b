import Libunwind.Dwarf.Cursor

/-! # The register-state cache

A `dwarf_rs_cache` keeps register states by instruction pointer: `links` and
`buckets` are parallel arrays that are filled round robin, and `hash` heads the
collision chains through `links`. The arrays are installed by a flush.
-/

namespace Libunwind.Dwarf

variable {n w : Nat} {τ : Type}

/-- `dwarf_reg_cache_entry_t`. -/
structure CacheEntry (w : Nat) where
  ip : Word w := 0
  collChain : BitVec 16 := 0
  hint : BitVec 16 := 0
  valid : Bool := false
  signalFrame : Bool := false
  deriving DecidableEq, Repr, Inhabited

/-- `struct dwarf_rs_cache`, without its lock. An array that is `none` is a null
    pointer. -/
structure RsCache (n w : Nat) where
  rrHead : BitVec 16 := 0
  logSize : Nat := 7
  prevLogSize : Nat := 0
  generation : BitVec 32 := 0
  hash : Option (List (BitVec 16)) := none
  buckets : Option (List (RegState n w)) := none
  links : Option (List (CacheEntry w)) := none

/-- `DWARF_DEFAULT_LOG_UNW_CACHE_SIZE`. -/
def defaultLogCacheSize : Nat := 7

/-- `DWARF_UNW_CACHE_SIZE`. -/
def cacheSize (logSize : Nat) : Nat := 2 ^ logSize

/-- `DWARF_UNW_HASH_SIZE`. -/
def hashSize (logSize : Nat) : Nat := 2 ^ (logSize + 1)

/-- What a flush finds: whether each of the three mappings is granted, and what
    the installed arrays hold before they are reset. -/
structure CacheMemory (n w : Nat) where
  grantHash : Bool := true
  grantBuckets : Bool := true
  grantLinks : Bool := true
  staleBucket : Nat → RegState n w := fun _ => {}
  staleLink : Nat → CacheEntry w := fun _ => {}

def CacheMemory.granted (memory : CacheMemory n w) : Bool :=
  memory.grantHash && memory.grantBuckets && memory.grantLinks

/-- The arrays of a cache with every entry reset, as a flush leaves them. -/
def RsCache.install (cache : RsCache n w) (memory : CacheMemory n w) (logSize : Nat) :
    RsCache n w :=
  let reset (i : Nat) : CacheEntry w :=
    { memory.staleLink i with collChain := -1, ip := 0, valid := false }
  { cache with
    rrHead := 0
    logSize
    hash := some (List.replicate (hashSize logSize) (-1))
    buckets := some ((List.range (cacheSize logSize)).map memory.staleBucket)
    links := some ((List.range (cacheSize logSize)).map reset) }

/-- The default arrays serve a cache of the default size, or one that has no
    arrays yet. -/
def RsCache.usesDefault (cache : RsCache n w) : Bool :=
  cache.logSize == defaultLogCacheSize || cache.hash.isNone

/-- `dwarf_flush_rs_cache`: whether it succeeds, and the cache it leaves. -/
def flushRsCache (memory : CacheMemory n w) (cache : RsCache n w) : Bool × RsCache n w :=
  if cache.usesDefault then (true, cache.install memory defaultLogCacheSize)
  else if memory.granted then
    (true, { cache.install memory cache.logSize with prevLogSize := cache.logSize })
  else
    (false,
      { cache with
        hash := if memory.grantHash then
          some (List.replicate (hashSize cache.logSize) 0) else none
        buckets := if memory.grantBuckets then
          some ((List.range (cacheSize cache.logSize)).map memory.staleBucket) else none
        links := if memory.grantLinks then
          some ((List.range (cacheSize cache.logSize)).map memory.staleLink) else none })

/-- `hash`; `unw_hash_index_t` is an unsigned char. -/
def hashIndex (ip : Word w) (logSize : Nat) : Nat :=
  ((ip * 0x9e3779b97f4a7c16) >>> (w - (logSize + 1))).toNat % 256

/-- An array access, undefined out of bounds. -/
def index {α : Type} (array : List α) (i : Nat) : Result α :=
  match array[i]? with
  | some a => pure a
  | none => .error .undefined

def notNull {α : Type} (pointer : Option α) : Result α :=
  match pointer with
  | some a => pure a
  | none => .error .undefined

/-- `cache_match`. -/
def cacheMatch (links : List (CacheEntry w)) (i : Nat) (ip : Word w) : Result Bool := do
  let link ← index links i
  pure (link.valid && ip == link.ip)

/-- The chain from `i` on. A walk of more steps than there are entries goes round
    in a circle. -/
def lookupChain (links : List (CacheEntry w)) (size : Nat) (ip : Word w) :
    Nat → Nat → Result (Option Nat)
  | 0, _ => .error .timeout
  | rounds + 1, i =>
      if i < size then do
        let found ← cacheMatch links i ip
        if found then pure (some i)
        else
          let link ← index links i
          lookupChain links size ip rounds link.collChain.toNat
      else pure none

/-- The entry that the hint names, when there is a hint. -/
def hintMatch (links : List (CacheEntry w)) (c : Cursor n w τ) : Result Bool :=
  if 0 < c.hint.toInt then cacheMatch links (c.hint.toNat - 1) c.ip else pure false

/-- `rs_lookup`; yields the index of the entry. -/
def rsLookup (cache : RsCache n w) (c : Cursor n w τ) : Result (Option Nat) := do
  let links ← notNull cache.links
  let hash ← notNull cache.hash
  let fromHint ← hintMatch links c
  if fromHint then pure (some (c.hint.toNat - 1))
  else
    let first ← index hash (hashIndex c.ip cache.logSize)
    lookupChain links (cacheSize cache.logSize) c.ip (cacheSize cache.logSize + 1) first.toNat

/-- The walk of `rs_new` that takes `head` out of its chain; the chain enters at
    the slot of `hash` or, further on, at a link. -/
def unlinkFrom (size : Nat) (head : BitVec 16) :
    Nat → Nat → List (CacheEntry w) → Result (List (CacheEntry w))
  | 0, _, _ => .error .timeout
  | rounds + 1, i, links => do
      let link ← index links i
      if link.collChain.toNat < size then
        if link.collChain = head then
          let removed ← index links head.toNat
          pure (links.set i { link with collChain := removed.collChain })
        else unlinkFrom size head rounds link.collChain.toNat links
      else pure links

/-- Takes the old entry `head` out of the hash table, if it is there. -/
def unlink (cache : RsCache n w) (head : BitVec 16) (hash : List (BitVec 16))
    (links : List (CacheEntry w)) : Result (List (BitVec 16) × List (CacheEntry w)) := do
  let old ← index links head.toNat
  if old.ip = 0 then pure (hash, links)
  else
    let slot := hashIndex old.ip cache.logSize
    let size := cacheSize cache.logSize
    let first ← index hash slot
    if first.toNat < size then
      if first = head then pure (hash.set slot old.collChain, links)
      else
        let links ← unlinkFrom size head (size + 1) first.toNat links
        pure (hash, links)
    else pure (hash, links)

/-- `rs_new`, with the copy of the register state into the new bucket. -/
def rsNew (cache : RsCache n w) (ip : Word w) (signalFrame : Bool) (rs : RegState n w) :
    Result (RsCache n w × Nat) := do
  let hash ← notNull cache.hash
  let links ← notNull cache.links
  let buckets ← notNull cache.buckets
  let head := cache.rrHead
  let rrHead := (head + 1) &&& (BitVec.ofNat 16 (cacheSize cache.logSize) - 1)
  let (hash, links) ← unlink cache head hash links
  let slot := hashIndex ip cache.logSize
  let first ← index hash slot
  let _ ← index buckets head.toNat
  let links := links.set head.toNat
    { ip, collChain := first, hint := 0, valid := true, signalFrame }
  pure ({ cache with
      rrHead
      hash := some (hash.set slot head)
      links := some links
      buckets := some (buckets.set head.toNat rs) }, head.toNat)

end Libunwind.Dwarf
