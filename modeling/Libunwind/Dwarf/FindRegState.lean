import Libunwind.Library.LockTrace
import Libunwind.Dwarf.RsCache
import Libunwind.Dwarf.StateRecord

/-! # Finding the register state of a frame

`find_reg_state` looks a frame up in the cache; on a miss it releases the cache,
fetches the procedure info, runs the frame instructions, and enters the result.
The cache's lock is seen through the trace of its uses.
-/

namespace Libunwind.Dwarf

open LockTrace

variable {n w : Nat} {τ : Type}

/-- `unw_caching_policy_t`. -/
inductive CachingPolicy where
  | none
  | global
  | perThread
  deriving DecidableEq, Repr

/-- What `get_rs_cache` finds in the address space: `cache_generation`, the
    `log_size` of the global cache, and the memory for a flush. -/
structure CacheVisit (n w : Nat) where
  generation : BitVec 32 := 0
  globalLogSize : Nat := defaultLogCacheSize
  memory : CacheMemory n w := {}

/-- What `get_rs_cache` delivers; it returns NULL unless the cache is `present`. -/
structure CacheAccess (n w : Nat) where
  present : Bool
  cache : RsCache n w
  trace : List Action

/-- The cache has no arrays, or entries of an earlier generation. -/
def CacheVisit.needsFlush (visit : CacheVisit n w) (cache : RsCache n w) : Bool :=
  visit.generation != cache.generation || cache.hash.isNone

/-- `get_rs_cache`; `cache` is the one that the policy selects. -/
def getRsCache (policy : CachingPolicy) (visit : CacheVisit n w) (cache : RsCache n w) :
    CacheAccess n w :=
  if policy = .none then { present := false, cache, trace := [] }
  else
    let trace := if policy = .global then [.acquire] else []
    if visit.needsFlush cache then
      match flushRsCache visit.memory { cache with logSize := visit.globalLogSize } with
      | (true, cache) =>
          { present := true, cache := { cache with generation := visit.generation }, trace }
      | (false, cache) => { present := false, cache, trace }
    else { present := true, cache, trace }

/-- `put_rs_cache`. -/
def putRsCache (policy : CachingPolicy) : List Action :=
  if policy = .global then [.release] else []

/-- The unwind tables of an address space. A search also says what it leaves in
    the procedure info. -/
structure UnwindTables (n w : Nat) where
  /-- The code runs on ARM (`__arm__`). -/
  hostArm : Bool := false
  /-- `UNW_TARGET_ARM`. -/
  arm : Bool := false
  /-- `unwi_find_dynamic_proc_info`. -/
  findDynamic : Word w → Except UnwError Unit × ProcInfo w := fun _ => (.error .noinfo, {})
  /-- `tdep_find_proc_info`. -/
  findProcInfo : Word w → Except UnwError Unit × ProcInfo w
  cursorSpace : AddrSpace w
  localSpace : AddrSpace w
  pool : Nat → Bool := fun _ => true
  budget : Nat

def UnwindTables.context (tables : UnwindTables n w) (target : CfiTarget n) :
    CfiContext n w :=
  { tables with target }

/-- The location that `fetch_proc_info` searches for. -/
def UnwindTables.searchIp (tables : UnwindTables n w) (ip : Word w) (usePrevInstr : Bool) :
    Word w :=
  if usePrevInstr then (if tables.hostArm then ip &&& ~~~1 else ip) - 1 else ip

/-- Whether `fetch_proc_info` accepts info of this format. -/
def UnwindTables.accepts (tables : UnwindTables n w) : InfoFormat → Bool
  | .dynamic | .table | .remoteTable => true
  | .armExidx => tables.arm
  | .ipOffset | .remoteTable64 => false

/-- The searches of `fetch_proc_info`: what they return, the info they leave, and
    whether it is dynamic. -/
def UnwindTables.search (tables : UnwindTables n w) (ip : Word w) :
    Except UnwError Unit × ProcInfo w × Bool :=
  match tables.findDynamic ip with
  | (.error .noinfo, _) =>
      let (found, pi) := tables.findProcInfo ip
      (found, pi, false)
  | (found, pi) => (found, pi, true)

/-- `fetch_proc_info`. -/
def fetchProcInfo (t : Target n w τ) (tables : UnwindTables n w) (c : Cursor n w τ) :
    Result Unit × Cursor n w τ :=
  match tables.search (tables.searchIp c.ip c.usePrevInstr) with
  | (.error code, pi, false) => (.error (.err code), { c with pi })
  | (found, pi, dynamic) =>
      if tables.accepts pi.format then
        let c := { c with pi, piValid := true, piIsDynamic := dynamic }
        match found with
        | .ok () => (.ok (), { c with tdep := t.fetchFrame c })
        | .error code => (.error (.err code), c)
      else (.error (.err .noinfo), { c with pi })

/-- `put_unwind_info`. -/
def putUnwindInfo (c : Cursor n w τ) : Cursor n w τ :=
  { c with
    pi := if !c.piIsDynamic && c.pi.format == .table then { c.pi with unwindInfo := none }
      else c.pi
    piValid := false }

/-- The next frame's `use_prev_instr`. -/
def nextUsePrevInstr (fetched : Result Unit) (c : Cursor n w τ) : Bool :=
  match fetched, c.pi.unwindInfo with
  | .ok (), some dci => !dci.signalFrame
  | _, _ => c.usePrevInstr

/-- What `find_reg_state` does without the cache: the register state, and the
    cursor with the next frame's `use_prev_instr`. -/
def computeState (t : Target n w τ) (tables : UnwindTables n w) (c : Cursor n w τ) :
    Result (RegState n w) × Cursor n w τ :=
  let (fetched, fetchedCursor) := fetchProcInfo t tables c
  let parsed : Result (RegState n w) := do
    fetched
    let _ ← notNull fetchedCursor.pi.unwindInfo
    let sr ← createStateRecordFor (tables.context t.cfi) tables.budget fetchedCursor.pi c.ip
      c.usePrevInstr
    pure sr.rsCurrent
  (parsed, { putUnwindInfo fetchedCursor with
    usePrevInstr := nextUsePrevInstr fetched fetchedCursor })

/-- A hit: the cursor with the next frame's `use_prev_instr`, and the state. -/
def readEntry (cache : RsCache n w) (c : Cursor n w τ) (i : Nat) :
    Result (Cursor n w τ × RegState n w) := do
  let links ← notNull cache.links
  let buckets ← notNull cache.buckets
  let link ← index links i
  let rs ← index buckets i
  pure ({ c with usePrevInstr := !link.signalFrame }, rs)

/-- The second visit to the cache: another thread's entry is used in place of
    the computed state, which is entered if there is none. -/
def enterState (t : Target n w τ) (cache : RsCache n w) (c : Cursor n w τ)
    (computed : RegState n w) : Result (RsCache n w × Nat × RegState n w) := do
  match ← rsLookup cache c with
  | some i =>
      let buckets ← notNull cache.buckets
      let rs ← index buckets i
      pure (cache, i, rs)
  | none =>
      let (cache, i) ← rsNew cache c.ip (t.cacheFrame c) computed
      pure (cache, i, computed)

/-- The end of `find_reg_state`: the hints that lead from one frame's entry to
    the next one's, and the frame's attributes. -/
def useEntry (t : Target n w τ) (cache : RsCache n w) (c : Cursor n w τ) (i : Nat) :
    Result (RsCache n w × Cursor n w τ) := do
  let links ← notNull cache.links
  let link ← index links i
  let previous ← index links c.prevRs.toNat
  let links := links.set c.prevRs.toNat { previous with hint := BitVec.ofNat 16 (i + 1) }
  let c := { c with hint := link.hint, prevRs := BitVec.ofNat 16 i }
  pure ({ cache with links := some links }, { c with tdep := t.reuseFrame c link.signalFrame })

/-- What `find_reg_state` leaves, with the trace of the lock up to its return. -/
structure Found (n w : Nat) (τ : Type) where
  result : Result (RegState n w)
  cursor : Cursor n w τ
  cache : RsCache n w
  trace : List Action

/-- Return from a hit, or from the second visit. The cache itself never fails
    with an error code, so a fault here is no return. -/
def Found.ofEntry (t : Target n w τ) (policy : CachingPolicy) (trace : List Action)
    (c : Cursor n w τ) (cache : RsCache n w)
    (entry : Result (RsCache n w × Cursor n w τ × Nat × RegState n w)) : Found n w τ :=
  match (do
    let (cache, c, i, rs) ← entry
    let (cache, c) ← useEntry t cache c i
    pure (rs, c, cache) : Result (RegState n w × Cursor n w τ × RsCache n w)) with
  | .ok (rs, cursor, cache) =>
      { result := .ok rs, cursor, cache, trace := trace ++ putRsCache policy ++ [.leave] }
  | .error fault => { result := .error fault, cursor := c, cache, trace }

/-- `find_reg_state`. `meanwhile` is what happens to the cache between the two
    visits. -/
def findRegState (t : Target n w τ) (tables : UnwindTables n w) (policy : CachingPolicy)
    (first second : CacheVisit n w) (meanwhile : RsCache n w → RsCache n w)
    (cache : RsCache n w) (c : Cursor n w τ) : Found n w τ :=
  let got := getRsCache policy first cache
  match if got.present then rsLookup got.cache c else pure none with
  | .error fault => { result := .error fault, cursor := c, cache := got.cache, trace := got.trace }
  | .ok (some i) =>
      Found.ofEntry t policy got.trace c got.cache do
        let (c, rs) ← readEntry got.cache c i
        pure (got.cache, c, i, rs)
  | .ok none =>
      let trace := got.trace ++ (if got.present then putRsCache policy else []) ++ [.leave]
      match computeState t tables c with
      | (.error fault, c) =>
          { result := .error fault, cursor := c, cache := got.cache, trace := trace ++ [.leave] }
      | (.ok rs, c) =>
          let again := getRsCache policy second (meanwhile got.cache)
          let trace := trace ++ again.trace
          if again.present then
            Found.ofEntry t policy trace c again.cache do
              let (cache, i, rs) ← enterState t again.cache c rs
              pure (cache, c, i, rs)
          else { result := .ok rs, cursor := c, cache := again.cache, trace := trace ++ [.leave] }

end Libunwind.Dwarf
