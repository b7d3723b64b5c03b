import Libunwind.Dwarf.Resume
import Libunwind.Library.LinearProbe
import Libunwind.X64.HeuristicFrames

/-! # The trace cache of x86_64

`tdep_trace` remembers how the frame at each address is laid out in a hash table with open
addressing. A frame that is not there yet is filled by one whole `unw_step`; a table that is half
full, or in which the frame's sixteen slots are taken, is replaced by an empty one of four times
the size.
-/

namespace Libunwind.X86_64

open Dwarf LinearProbe

/-- `unw_tdep_frame_t` -/
structure CachedFrame where
  virtualAddress : Word 64
  lastFrame : Bool
  frame : Frame
  deriving DecidableEq

/-- `empty_frame` -/
def emptyFrame : CachedFrame where
  virtualAddress := 0
  lastFrame := true
  frame := {}

/-- `unw_trace_cache_t`; only the first `2 ^ logSize` frames are there. -/
structure TraceCache where
  frames : ℕ → CachedFrame
  logSize : ℕ
  used : ℕ

/-- `HASH_MIN_BITS` -/
def hashMinBits : ℕ := 14

/-- `1ULL << log_size` -/
def cacheSizeOf (logSize : ℕ) : Result (Word 64) :=
  if logSize < 64 then pure ((1 : Word 64) <<< logSize) else .error .undefined

/-- `trace_cache_buckets`. No memory is mapped where none is asked for. -/
def traceCacheBuckets (granted : Bool) (n : Word 64) : Option (ℕ → CachedFrame) :=
  if granted = true ∧ n * 16 ≠ 0 then some fun _ => emptyFrame else none

/-- The slot in which a lookup begins. -/
def homeSlot (rip cacheSize : Word 64) : Word 64 :=
  ((rip * 0x9e3779b97f4a7c16) >>> 43) &&& (cacheSize - 1)

/-- The arguments of `trace_lookup`, the process that it writes to, and what the kernel answers. -/
structure TraceCall (σ : Type) where
  cursor : X86Cursor
  process : σ
  cfa : Word 64
  rip : Word 64
  rbp : Word 64
  rsp : Word 64
  space : StepSpace 17 64
  granted : Bool

section Source

variable {σ : Type} (host : Host) (p : Process σ 64) (call : TraceCall σ)

namespace TraceCall

/-- The frame properties before the step: unknown, not last. -/
def unknownFrame : CachedFrame where
  virtualAddress := call.rip
  lastFrame := false
  frame := {}

/-- The cursor, reinitialised to the instruction. -/
def reinitialised : X86Cursor :=
  { call.cursor with
    ip := call.rip + if call.cursor.usePrevInstr then 1 else 0
    cfa := call.cfa
    loc := fun r =>
      if r = X86_64.rip ∨ r = X86_64.rbp ∨ r = X86_64.rsp then host.regLoc r else nullLoc
    tdep := { call.cursor.tdep with frameInfo := call.unknownFrame.frame } }

/-- The calls of `dwarf_put`, up to the first that fails. -/
def putRegs : List (Fin 17 × Word 64) → σ → Result Unit × σ
  | [], s => (.ok (), s)
  | (r, val) :: rest, s =>
      match ((call.reinitialised host).loc r).put host.localOnly p val s with
      | (.ok (), s) => putRegs rest s
      | failed => failed

/-- `trace_init_addr`. Of `frame_info` a step writes nothing but what a `Frame` has. -/
def traceInitAddr : Result (CachedFrame × X86Cursor × σ) :=
  let f := call.unknownFrame
  let c := call.reinitialised host
  let regs := [(X86_64.rip, call.rip), (X86_64.rbp, call.rbp), (X86_64.rsp, call.rsp)]
  match call.putRegs host p regs call.process with
  | (.error (.err _), s) => pure (f, c, s)
  | (.error fault, _) => .error fault
  | (.ok (), s) =>
      match unwStep host c { call.space with as := p.space s } with
      | (.ok more, c) => pure ({ f with frame := c.tdep.frameInfo, lastFrame := !more }, c, s)
      | (.error (.err _), c) => pure (f, c, s)
      | (.error fault, _) => .error fault

end TraceCall

namespace TraceCache

variable (cache : TraceCache)

/-- What `trace_cache_create` makes. -/
def create : TraceCache where
  frames _ := emptyFrame
  logSize := hashMinBits
  used := 0

/-- `cache->frames[slot]` -/
def frameAt (slot : ℕ) : Result CachedFrame :=
  if slot < 2 ^ cache.logSize then pure (cache.frames slot) else .error .undefined

/-- `trace_cache_expand` -/
def expand (granted : Bool) : Result TraceCache := do
  let newLogSize := cache.logSize + 2
  let newSize ← cacheSizeOf newLogSize
  match traceCacheBuckets granted newSize with
  | some newFrames => pure { frames := newFrames, logSize := newLogSize, used := 0 }
  | none => .error (.err .nomem)

/-- The loop of `trace_lookup`. -/
def probeSlots (rip cacheSize : Word 64) : ℕ → Word 64 → Result Probe
  | 0, _ => pure .collided
  | rounds + 1, slot => do
      let frame ← cache.frameAt slot.toNat
      if frame.virtualAddress = rip then pure (.found slot.toNat)
      else if frame.virtualAddress = 0 then pure (.free slot.toNat)
      else
        let next := slot + 1
        probeSlots rip cacheSize rounds (if cacheSize ≤ next then next - cacheSize else next)

/-- The selected slot is filled, whether it is free or not. -/
def fill (slot : ℕ) : Result (Option ℕ × TraceCache × X86Cursor × σ) := do
  let frame ← cache.frameAt slot
  let used := if frame.virtualAddress = 0 then (cache.used + 1) % 2 ^ 64 else cache.used
  let (f, c, s) ← call.traceInitAddr host p
  pure (some slot, { cache with used, frames := Function.update cache.frames slot f }, c, s)

/-- The hash is forced to expand, then the slot is filled. -/
def expandAndFill : Result (Option ℕ × TraceCache × X86Cursor × σ) :=
  match cache.expand call.granted with
  | .ok cache => do
      let cacheSize ← cacheSizeOf cache.logSize
      cache.fill host p call (homeSlot call.rip cacheSize).toNat
  | .error (.err _) => pure (none, cache, call.cursor, call.process)
  | .error fault => .error fault

/-- `trace_lookup`: the slot of the frame, and what has become of the cache, the cursor and the
    process. -/
def traceLookup : Result (Option ℕ × TraceCache × X86Cursor × σ) := do
  let cacheSize ← cacheSizeOf cache.logSize
  match ← cache.probeSlots call.rip cacheSize 16 (homeSlot call.rip cacheSize) with
  | .found slot => pure (some slot, cache, call.cursor, call.process)
  | .free slot =>
      if cacheSize.toNat / 2 ≤ cache.used then cache.expandAndFill host p call
      else cache.fill host p call slot
  | .collided => cache.expandAndFill host p call

/-- A lookup that comes back, and the cache after it. -/
def Looked (cache : TraceCache) (call : TraceCall σ) (cache' : TraceCache) : Prop :=
  ∃ slot c s, cache.traceLookup host p call = .ok (slot, cache', c, s)

end TraceCache

end Source

/-! ## What a call can do -/

namespace TraceCall

variable {σ : Type} {host : Host} {p : Process σ 64} {call : TraceCall σ}

/-- The record that is filled in is for the address of the call. -/
theorem traceInitAddr_virtualAddress {f : CachedFrame} {c : X86Cursor} {s : σ}
    (filled : call.traceInitAddr host p = .ok (f, c, s)) : f.virtualAddress = call.rip := by
  unfold traceInitAddr at filled
  simp only at filled
  split at filled
  · cases filled
    rfl
  · cases filled
  · split at filled
    · cases filled
      rfl
    · cases filled
      rfl
    · cases filled

end TraceCall

namespace TraceCache

/-- The address that a slot is used for. -/
def keys (cache : TraceCache) (slot : ℕ) : Option (Word 64) :=
  let va := (cache.frames slot).virtualAddress
  if va = 0 then none else some va

/-- The slot in which the lookup of an address begins. -/
def home (logSize : ℕ) (rip : Word 64) : ℕ := (homeSlot rip ((1 : Word 64) <<< logSize)).toNat

/-- The slots that are not empty. -/
def occupied (cache : TraceCache) : Finset ℕ := LinearProbe.occupied (2 ^ cache.logSize) cache.keys

/-- What every lookup keeps. -/
structure Inv (cache : TraceCache) : Prop where
  small : cache.logSize < 60
  large : hashMinBits ≤ cache.logSize
  counted : cache.used = cache.occupied.card
  halfFree : cache.used ≤ 2 ^ cache.logSize / 2
  placed : Placed (2 ^ cache.logSize) cache.keys 16 (home cache.logSize)

variable {cache cache' : TraceCache} {rip : Word 64} {slot : ℕ}

theorem keys_eq_some (notNull : rip ≠ 0) :
    cache.keys slot = some rip ↔ (cache.frames slot).virtualAddress = rip := by
  simp only [keys]
  constructor
  · intro holds
    split at holds
    · exact nomatch holds
    · exact Option.some.inj holds
  · rintro rfl
    exact if_neg notNull

theorem keys_eq_none : cache.keys slot = none ↔ (cache.frames slot).virtualAddress = 0 := by
  simp [keys]

section Sizes

variable {logSize : ℕ}

theorem toNat_size (small : logSize < 64) : ((1 : Word 64) <<< logSize).toNat = 2 ^ logSize := by
  rw [BitVec.toNat_shiftLeft, show (1 : Word 64).toNat = 1 from rfl, Nat.one_shiftLeft]
  exact Nat.mod_eq_of_lt (Nat.pow_lt_pow_right Nat.one_lt_two small)

theorem home_lt (small : logSize < 64) : home logSize rip < 2 ^ logSize := by
  have pos : 0 < 2 ^ logSize := Nat.two_pow_pos logSize
  have size := toNat_size small
  have mask : ((1 : Word 64) <<< logSize - 1).toNat = 2 ^ logSize - 1 := by
    rw [BitVec.toNat_sub_of_le (BitVec.le_def.mpr (by rw [size]; exact pos)), size]
    rfl
  rw [home, homeSlot, BitVec.toNat_and, mask]
  have := Nat.and_le_right (n := ((rip * 0x9e3779b97f4a7c16) >>> 43).toNat) (m := 2 ^ logSize - 1)
  omega

theorem cacheSizeOf_ok (small : logSize < 64) : cacheSizeOf logSize = .ok ((1 : Word 64) <<< logSize) :=
  if_pos small

/-- The mapping of a table that would take all of the address space has the length 0. -/
theorem size_mul_eq_zero (large : 60 ≤ logSize) : (1 : Word 64) <<< logSize * 16 = 0 := by
  apply BitVec.eq_of_toNat_eq
  rw [BitVec.toNat_mul, BitVec.toNat_shiftLeft, show (1 : Word 64).toNat = 1 from rfl,
    show (16 : Word 64).toNat = 2 ^ 4 from rfl, Nat.one_shiftLeft, Nat.mod_mul_mod]
  obtain ⟨more, rfl⟩ := Nat.exists_eq_add_of_le large
  apply Nat.mod_eq_zero_of_dvd
  exact ⟨2 ^ more, by ring⟩

end Sizes

theorem frameAt_ok (lt : slot < 2 ^ cache.logSize) :
    cache.frameAt slot = .ok (cache.frames slot) := if_pos lt

/-- An expansion leaves a larger empty table, or no larger one can be had. -/
theorem expand_cases (small : cache.logSize < 60) (granted : Bool) :
    (cache.logSize + 2 < 60 ∧ cache.expand granted =
        .ok { frames := fun _ => emptyFrame, logSize := cache.logSize + 2, used := 0 }) ∨
      cache.expand granted = .error (.err .nomem) := by
  simp only [expand, cacheSizeOf_ok (show cache.logSize + 2 < 64 by omega), ok_bind]
  by_cases mapped : granted = true ∧ ((1 : Word 64) <<< (cache.logSize + 2)) * 16 ≠ 0
  · refine .inl ⟨?_, ?_⟩
    · by_contra large
      exact mapped.2 (size_mul_eq_zero (Nat.le_of_not_lt large))
    · rw [traceCacheBuckets, if_pos mapped]
      rfl
  · right
    rw [traceCacheBuckets, if_neg mapped]

theorem keys_of_empty {logSize used : ℕ} (slot : ℕ) :
    keys { frames := fun _ => emptyFrame, logSize, used } slot = none := rfl

/-- The invariant of a table without frames. -/
theorem inv_of_empty {logSize : ℕ} (small : logSize < 60) (large : hashMinBits ≤ logSize) :
    Inv { frames := fun _ => emptyFrame, logSize, used := 0 } where
  small
  large
  counted := by
    rw [occupied, occupied_empty fun slot _ => keys_of_empty slot]
    rfl
  halfFree := Nat.zero_le _
  placed := placed_empty fun slot _ => keys_of_empty slot

/-- The steps of the loop are those of a linear probe. -/
theorem probeSlots_eq (small : cache.logSize < 60) (notNull : rip ≠ 0) (rounds : ℕ) {start : Word 64}
    (lt : start.toNat < 2 ^ cache.logSize) :
    cache.probeSlots rip ((1 : Word 64) <<< cache.logSize) rounds start =
      .ok (probe (2 ^ cache.logSize) cache.keys rip rounds start.toNat) := by
  have size : ((1 : Word 64) <<< cache.logSize).toNat = 2 ^ cache.logSize := toNat_size (by omega)
  have bound : 2 ^ cache.logSize ≤ 2 ^ 59 := Nat.pow_le_pow_right Nat.two_pos (by omega)
  induction rounds generalizing start with
  | zero => rfl
  | succ rounds ih =>
      rw [probeSlots, frameAt_ok lt, ok_bind, probe]
      by_cases found : (cache.frames start.toNat).virtualAddress = rip
      · rw [if_pos found, (keys_eq_some notNull).mpr found]
        exact congrArg Except.ok (if_pos rfl).symm
      · rw [if_neg found]
        by_cases free : (cache.frames start.toNat).virtualAddress = 0
        · rw [if_pos free, keys_eq_none.mpr free]
          rfl
        · rw [if_neg free, (keys_eq_some free).mpr rfl]
          have after : (start + 1).toNat = start.toNat + 1 := by
            rw [BitVec.toNat_add]
            change (start.toNat + 1) % 2 ^ 64 = _
            omega
          have next : (if (1 : Word 64) <<< cache.logSize ≤ start + 1 then
              start + 1 - (1 : Word 64) <<< cache.logSize else start + 1).toNat =
                (start.toNat + 1) % 2 ^ cache.logSize := by
            by_cases wraps : (1 : Word 64) <<< cache.logSize ≤ start + 1
            · rw [if_pos wraps, BitVec.toNat_sub_of_le wraps, size, after]
              rw [BitVec.le_def, size, after] at wraps
              rw [show start.toNat + 1 = 2 ^ cache.logSize by omega, Nat.mod_self, Nat.sub_self]
            · rw [if_neg wraps, after]
              rw [BitVec.le_def, size, after] at wraps
              exact (Nat.mod_eq_of_lt (by omega)).symm
          have inside : (start.toNat + 1) % 2 ^ cache.logSize < 2 ^ cache.logSize :=
            Nat.mod_lt _ (Nat.two_pow_pos _)
          rw [ih (by rw [next]; exact inside), next]
          exact congrArg Except.ok (if_neg found).symm

/-- The slot is the one in which the probe for an address ends, and the table has room. -/
structure Ready (cache : TraceCache) (rip : Word 64) (slot : ℕ) : Prop where
  inv : cache.Inv
  lt : slot < 2 ^ cache.logSize
  isFree : cache.keys slot = none
  reaches : Reaches (2 ^ cache.logSize) cache.keys rip 16 (home cache.logSize rip) slot
  room : cache.used < 2 ^ cache.logSize / 2

/-- The table with one frame more. -/
def filled (cache : TraceCache) (slot : ℕ) (f : CachedFrame) : TraceCache :=
  { cache with used := cache.used + 1, frames := Function.update cache.frames slot f }

section Fill

variable {f : CachedFrame} (notNull : rip ≠ 0) (isFor : f.virtualAddress = rip)
include notNull isFor

theorem keys_filled :
    (cache.filled slot f).keys = Function.update cache.keys slot (some rip) := by
  funext there
  by_cases here : there = slot
  · subst here
    rw [Function.update_self, keys_eq_some notNull, filled]
    simp only [Function.update_self]
    exact isFor
  · rw [Function.update_of_ne here]
    simp only [keys, filled, Function.update_of_ne here]

theorem Ready.inv_filled (ready : cache.Ready rip slot) : (cache.filled slot f).Inv where
  small := ready.inv.small
  large := ready.inv.large
  counted := by
    have more := occupied_update (k := rip) ready.isFree ready.lt
    rw [occupied, keys_filled notNull isFor]
    exact (congrArg (· + 1) ready.inv.counted).trans more.symm
  halfFree := ready.room
  placed := by
    rw [keys_filled notNull isFor]
    exact ready.inv.placed.update ready.isFree ready.reaches

end Fill

section Lookup

variable {σ : Type} {host : Host} {p : Process σ 64} {call : TraceCall σ}

theorem Ready.fill_eq (ready : cache.Ready rip slot) :
    cache.fill host p call slot =
      call.traceInitAddr host p >>= fun (f, c, s) => pure (some slot, cache.filled slot f, c, s) := by
  have few : cache.used + 1 < 2 ^ 64 := by
    have room := ready.room
    have : 2 ^ cache.logSize ≤ 2 ^ 63 :=
      Nat.pow_le_pow_right Nat.two_pos (by have := ready.inv.small; omega)
    omega
  simp only [fill, frameAt_ok ready.lt, ok_bind, if_pos (keys_eq_none.mp ready.isFree),
    Nat.mod_eq_of_lt few]
  rfl

/-- A table that was just expanded is ready. -/
theorem ready_of_empty {logSize : ℕ} (small : logSize < 60) (large : hashMinBits ≤ logSize) :
    Ready { frames := fun _ => emptyFrame, logSize, used := 0 } rip (home logSize rip) := by
  have lt : home logSize rip < 2 ^ logSize := home_lt (by omega)
  refine ⟨inv_of_empty small large, lt, keys_of_empty _, ⟨0, by decide, ?_, ?_⟩, ?_⟩
  · rw [Nat.add_zero, Nat.mod_eq_of_lt lt]
  · intro j before
    exact nomatch before
  · have : 2 ^ 1 ≤ 2 ^ logSize :=
      Nat.pow_le_pow_right Nat.two_pos (by rw [hashMinBits] at large; omega)
    simp only
    omega

variable (inv : cache.Inv)
include inv

section Cases

variable (host p call)

/-- A forced expansion fails, or it leaves a table that is ready. -/
theorem Inv.expandAndFill_cases :
    (∃ grown : TraceCache, cache.logSize < grown.logSize ∧
        Ready grown call.rip (home grown.logSize call.rip) ∧
        cache.expandAndFill host p call =
          grown.fill host p call (home grown.logSize call.rip)) ∨
      cache.expandAndFill host p call = .ok (none, cache, call.cursor, call.process) := by
  rcases expand_cases inv.small call.granted with ⟨small, expanded⟩ | failed
  · have large : hashMinBits ≤ cache.logSize + 2 := Nat.le_add_right_of_le inv.large
    refine .inl ⟨{ frames := fun _ => emptyFrame, logSize := cache.logSize + 2, used := 0 },
      Nat.lt_succ_of_lt (Nat.lt_succ_self _), ready_of_empty small large, ?_⟩
    have size : cacheSizeOf (cache.logSize + 2) = .ok _ := cacheSizeOf_ok (by omega)
    rw [expandAndFill, expanded]
    dsimp only
    rw [size, ok_bind, home]
  · right
    rw [expandAndFill, failed]
    rfl

variable (notNull : call.rip ≠ 0)
include notNull

theorem Inv.traceLookup_eq :
    cache.traceLookup host p call =
      match probe (2 ^ cache.logSize) cache.keys call.rip 16 (home cache.logSize call.rip) with
      | .found slot => .ok (some slot, cache, call.cursor, call.process)
      | .free slot =>
          if 2 ^ cache.logSize / 2 ≤ cache.used then cache.expandAndFill host p call
          else cache.fill host p call slot
      | .collided => cache.expandAndFill host p call := by
  have small : cache.logSize < 64 := by
    have := inv.small
    omega
  rw [traceLookup, cacheSizeOf_ok small, ok_bind,
    probeSlots_eq inv.small notNull 16 (home_lt small), ok_bind, toNat_size small]
  rfl

/-- What a lookup can do: it finds the frame, it fills a slot of a table that is ready, or it does
    nothing. -/
theorem Inv.traceLookup_cases :
    (∃ slot < 2 ^ cache.logSize, cache.keys slot = some call.rip ∧
        cache.traceLookup host p call = .ok (some slot, cache, call.cursor, call.process)) ∨
      (∃ (table : TraceCache) (slot : ℕ), Ready table call.rip slot ∧
        (table = cache ∨ cache.logSize < table.logSize) ∧
        cache.traceLookup host p call = table.fill host p call slot) ∨
      cache.traceLookup host p call = .ok (none, cache, call.cursor, call.process) := by
  have expands (forced : cache.traceLookup host p call = cache.expandAndFill host p call) :
      (∃ (table : TraceCache) (slot : ℕ), Ready table call.rip slot ∧
        (table = cache ∨ cache.logSize < table.logSize) ∧
        cache.traceLookup host p call = table.fill host p call slot) ∨
      cache.traceLookup host p call = .ok (none, cache, call.cursor, call.process) := by
    rw [forced]
    rcases inv.expandAndFill_cases host p call with
      ⟨grown, larger, ready, fills⟩ | failed
    · exact .inl ⟨grown, _, ready, .inr larger, fills⟩
    · exact .inr failed
  have isHome : home cache.logSize call.rip % 2 ^ cache.logSize = home cache.logSize call.rip :=
    Nat.mod_eq_of_lt (home_lt (by have := inv.small; omega))
  have lookup := inv.traceLookup_eq host p call notNull
  rw [← isHome] at lookup
  cases ends : probe (2 ^ cache.logSize) cache.keys call.rip 16
      (home cache.logSize call.rip % 2 ^ cache.logSize) with
  | found slot =>
      rw [ends] at lookup
      exact .inl ⟨slot, lt_of_found (Nat.two_pow_pos _) ends, key_of_found ends, lookup⟩
  | free slot =>
      rw [ends] at lookup
      by_cases full : 2 ^ cache.logSize / 2 ≤ cache.used
      · exact .inr (expands (lookup.trans (if_pos full)))
      · obtain ⟨isFree, reaches⟩ := reaches_of_free ends
        exact .inr (.inl ⟨cache, slot, ⟨inv, reaches.lt (Nat.two_pow_pos _), isFree, reaches,
          Nat.lt_of_not_le full⟩, .inl rfl, lookup.trans (if_neg full)⟩)
  | collided =>
      rw [ends] at lookup
      exact .inr (expands lookup)

end Cases

end Lookup

/-! ## Runs of lookups -/

section Runs

variable {σ : Type} {host : Host} {p : Process σ 64} {call again : TraceCall σ}
  {later : TraceCache}

/-- The caches that lookups lead to from a cache. -/
def Later (host : Host) (p : Process σ 64) (cache : TraceCache) : TraceCache → Prop :=
  Run (· = cache) (Looked host p) fun _ call => call.rip ≠ 0

theorem inv_create : create.Inv := inv_of_empty (by decide) le_rfl

/-- The frames of a table stay there as long as it is not replaced by a larger one. -/
structure Keeps (cache cache' : TraceCache) : Prop where
  grows : cache.logSize ≤ cache'.logSize
  frames : cache'.logSize = cache.logSize → ∀ slot rip, cache.keys slot = some rip →
    cache'.frames slot = cache.frames slot

theorem Keeps.refl (cache : TraceCache) : Keeps cache cache := ⟨le_rfl, fun _ _ _ _ => rfl⟩

theorem Keeps.trans (first : Keeps cache cache') (second : Keeps cache' later) :
    Keeps cache later where
  grows := first.grows.trans second.grows
  frames same slot rip holds := by
    have unmoved : cache'.logSize = cache.logSize :=
      Nat.le_antisymm (same ▸ second.grows) first.grows
    have kept := first.frames unmoved slot rip holds
    have holds' : cache'.keys slot = some rip := by
      simp only [keys, kept]
      exact holds
    exact (second.frames (same.trans unmoved.symm) slot rip holds').trans kept

theorem Ready.keeps (ready : cache.Ready rip slot) (f : CachedFrame) :
    Keeps cache (cache.filled slot f) where
  grows := le_rfl
  frames _ there rip holds := by
    have different : there ≠ slot := by
      rintro rfl
      exact nomatch holds.symm.trans ready.isFree
    exact Function.update_of_ne different _ _

variable {result : Option ℕ} {c : X86Cursor} {s : σ}

theorem Inv.of_traceLookup (inv : cache.Inv) (notNull : call.rip ≠ 0)
    (looked : cache.traceLookup host p call = .ok (result, cache', c, s)) :
    cache'.Inv ∧ Keeps cache cache' ∧
      ∀ slot ∈ result, slot < 2 ^ cache'.logSize ∧ cache'.keys slot = some call.rip := by
  rcases inv.traceLookup_cases host p call notNull with ⟨slot, lt, holds, found⟩ |
    ⟨table, slot, ready, isTable, fills⟩ | nothing
  · cases looked.symm.trans found
    refine ⟨inv, .refl cache, fun slot' isSlot => ?_⟩
    obtain rfl := Option.mem_some_iff.mp isSlot
    exact ⟨lt, holds⟩
  · rw [fills, ready.fill_eq] at looked
    obtain ⟨⟨f, c', s'⟩, filled, looked⟩ := bind_eq_ok.mp looked
    have isFor := TraceCall.traceInitAddr_virtualAddress filled
    cases looked
    refine ⟨ready.inv_filled notNull isFor, ?_, fun slot' isSlot => ?_⟩
    · rcases isTable with rfl | larger
      · exact ready.keeps f
      · exact ⟨larger.le, fun same => absurd same larger.ne'⟩
    · obtain rfl := Option.mem_some_iff.mp isSlot
      rw [keys_filled notNull isFor, Function.update_self]
      exact ⟨ready.lt, rfl⟩
  · cases looked.symm.trans nothing
    exact ⟨inv, .refl cache, fun _ isSlot => nomatch isSlot⟩

/-- What is in the table is found, and nothing else happens. -/
theorem Inv.traceLookup_found (inv : cache.Inv) (notNull : call.rip ≠ 0)
    (lt : slot < 2 ^ cache.logSize) (holds : cache.keys slot = some call.rip) :
    cache.traceLookup host p call = .ok (some slot, cache, call.cursor, call.process) := by
  have small : cache.logSize < 64 := by
    have := inv.small
    omega
  have ends := inv.placed.probe_eq_found lt holds
  rw [Nat.mod_eq_of_lt (home_lt small)] at ends
  rw [inv.traceLookup_eq host p call notNull, ends]

theorem Later.inv_and_keeps (runs : Later host p cache later) (inv : cache.Inv) :
    later.Inv ∧ Keeps cache later := by
  induction runs with
  | start isStart =>
      obtain rfl := isStart
      exact ⟨inv, .refl _⟩
  | step call _ notNull looked ih =>
      obtain ⟨slot, c, s, looked⟩ := looked
      obtain ⟨inv', keeps, -⟩ := ih.1.of_traceLookup notNull looked
      exact ⟨inv', ih.2.trans keeps⟩

/-- The cache is a map from addresses to frames, which forgets only when it is expanded. -/
structure IsMap (host : Host) (p : Process σ 64) (cache : TraceCache) : Prop where
  /-- `used` is the number of slots that are not empty, -/
  counted : cache.used = cache.occupied.card
  /-- and at least half of the table is. -/
  halfFree : cache.used ≤ 2 ^ cache.logSize / 2
  /-- The loop of a lookup ends, and reads nothing but the table. -/
  probes : ∀ rip ≠ 0, ∃ ends, cache.probeSlots rip ((1 : Word 64) <<< cache.logSize) 16
    (homeSlot rip ((1 : Word 64) <<< cache.logSize)) = .ok ends
  /-- A lookup comes back unless the step that fills the slot does not. -/
  returns : ∀ (call : TraceCall σ) fault, call.rip ≠ 0 →
    cache.traceLookup host p call = .error fault → call.traceInitAddr host p = .error fault
  /-- The slot that is returned is one of the table, and is for the address. -/
  isFor : ∀ (call : TraceCall σ) slot cache' c s, call.rip ≠ 0 →
    cache.traceLookup host p call = .ok (some slot, cache', c, s) →
      slot < 2 ^ cache'.logSize ∧ (cache'.frames slot).virtualAddress = call.rip
  /-- It is found again, with what it held, until the cache is expanded. -/
  found : ∀ (call : TraceCall σ) slot cache' c s, call.rip ≠ 0 →
    cache.traceLookup host p call = .ok (some slot, cache', c, s) →
      ∀ later, Later host p cache' later → later.logSize = cache'.logSize →
        later.frames slot = cache'.frames slot ∧ ∀ again : TraceCall σ, again.rip = call.rip →
          later.traceLookup host p again = .ok (some slot, later, again.cursor, again.process)

theorem Inv.traceInitAddr_of_error (inv : cache.Inv) (notNull : call.rip ≠ 0) {fault : Fault}
    (failed : cache.traceLookup host p call = .error fault) :
    call.traceInitAddr host p = .error fault := by
  rcases inv.traceLookup_cases host p call notNull with ⟨slot, -, -, found⟩ |
    ⟨table, slot, ready, -, fills⟩ | nothing
  · exact nomatch failed.symm.trans found
  · rw [fills, ready.fill_eq] at failed
    cases init : call.traceInitAddr host p with
    | error other =>
        rw [init, error_bind] at failed
        exact congrArg Except.error (Except.error.inj failed)
    | ok filled =>
        rw [init] at failed
        exact nomatch failed
  · exact nomatch failed.symm.trans nothing

/-- The cache is such a map after all lookups of addresses other than 0, whether or not memory is
    granted for its expansions. -/
theorem traceCache_isMap (runs : Later host p create cache) : IsMap host p cache := by
  have inv := (runs.inv_and_keeps inv_create).1
  refine ⟨inv.counted, inv.halfFree, ?probes, ?returns, ?isFor, ?found⟩
  case probes =>
    intro rip notNull
    have small : cache.logSize < 64 := by
      have := inv.small
      omega
    exact ⟨_, probeSlots_eq inv.small notNull 16 (home_lt small)⟩
  case returns =>
    intro call fault notNull failed
    exact inv.traceInitAddr_of_error notNull failed
  case isFor =>
    intro call slot cache' c s notNull looked
    obtain ⟨-, -, returned⟩ := inv.of_traceLookup notNull looked
    obtain ⟨lt, holds⟩ := returned slot rfl
    exact ⟨lt, (keys_eq_some notNull).mp holds⟩
  case found =>
    intro call slot cache' c s notNull looked later runs same
    obtain ⟨inv', -, returned⟩ := inv.of_traceLookup notNull looked
    obtain ⟨lt, holds⟩ := returned slot rfl
    obtain ⟨later_inv, keeps⟩ := runs.inv_and_keeps inv'
    have kept := keeps.frames same slot call.rip holds
    refine ⟨kept, fun again isFor => later_inv.traceLookup_found (isFor ▸ notNull) ?_ ?_⟩
    · rw [same]
      exact lt
    · rw [isFor]
      simp only [keys, kept]
      exact holds

/-- The process with a frame record, when it is traced. -/
def recordTraced : Traced 64 where
  regs := recordProcess.accessReg
  mem := recordProcess.accessMem

/-- A lookup of the address at which that process is. -/
def recordCall : TraceCall (Traced 64) where
  cursor := stoppedCursor 0x402000 0x7000 true
  process := recordTraced
  cfa := 0x7000
  rip := 0x402000
  rbp := 0x7010
  rsp := 0x7000
  space := bareSpace recordProcess
  granted := true

/-- A step fills one slot of a table, which is then a map. -/
theorem recordCall_isMap :
    ∃ cache : TraceCache, cache.used = 1 ∧ IsMap linuxHost (tracedProcess recordProcess) cache := by
  have looked : ∃ cache, Looked linuxHost (tracedProcess recordProcess) create recordCall cache ∧
      cache.used = 1 := ⟨_, ⟨_, _, _, rfl⟩, rfl⟩
  obtain ⟨cache, looked, one⟩ := looked
  exact ⟨cache, one, traceCache_isMap (.step recordCall (.start rfl) (by decide) looked)⟩

end Runs

end TraceCache

end Libunwind.X86_64
