import Libunwind.Dwarf.FindRegState

/-! # The lock of the register-state cache

`get_rs_cache` takes the lock before it flushes, and returns NULL, with the lock
held, when the memory for the flush is refused. `find_reg_state` keeps to the
lock discipline exactly in the calls that do not get there.
-/

namespace Libunwind.Dwarf

open LockTrace

variable {n w : Nat} {τ : Type}

/-- The visit has to flush a cache that is not of the default size, and a
    mapping for its new arrays is refused. -/
def CacheVisit.FlushRefused (visit : CacheVisit n w) (cache : RsCache n w) : Prop :=
  visit.generation ≠ cache.generation ∧ cache.hash ≠ none ∧
    visit.globalLogSize ≠ defaultLogCacheSize ∧ visit.memory.granted = false

/-- The first visit finds no entry, and the state can be computed. -/
def Revisits (t : Target n w τ) (tables : UnwindTables n w) (policy : CachingPolicy)
    (first : CacheVisit n w) (cache : RsCache n w) (c : Cursor n w τ) : Prop :=
  rsLookup (getRsCache policy first cache).cache c = .ok none ∧
    ∃ rs, (computeState t tables c).1 = .ok rs

theorem getRsCache_trace (policy : CachingPolicy) (visit : CacheVisit n w)
    (cache : RsCache n w) :
    (getRsCache policy visit cache).trace = if policy = .global then [.acquire] else [] := by
  unfold getRsCache
  split
  next isNone => simp only [isNone, reduceCtorEq, ↓reduceIte]
  next =>
    dsimp only
    split
    · split <;> rfl
    · rfl

/-- The flush that `get_rs_cache` makes fails only when the memory is refused. -/
theorem getRsCache_present_iff {policy : CachingPolicy} (uses : policy ≠ .none)
    (visit : CacheVisit n w) (cache : RsCache n w) :
    (getRsCache policy visit cache).present = true ↔ ¬ visit.FlushRefused cache := by
  unfold getRsCache CacheVisit.FlushRefused CacheVisit.needsFlush flushRsCache
    RsCache.usesDefault
  rw [if_neg uses]
  cases cache.hash with
  | none => simp
  | some hash =>
      by_cases sameGeneration : visit.generation = cache.generation
      · simp [sameGeneration]
      · by_cases defaultSize : visit.globalLogSize = defaultLogCacheSize
        · simp [sameGeneration, defaultSize]
        · cases visit.memory.granted <;> simp [sameGeneration, defaultSize]

/-- Without the lock there is nothing to keep to. -/
theorem Found.ofEntry_balanced {t : Target n w τ} {policy : CachingPolicy}
    {trace : List Action} {c : Cursor n w τ} {cache : RsCache n w}
    (entry : Result (RsCache n w × Cursor n w τ × Nat × RegState n w))
    (taken : after false trace = some (decide (policy = .global))) :
    LockTrace.Balanced (Found.ofEntry t policy trace c cache entry).trace := by
  unfold Found.ofEntry
  split
  · by_cases isGlobal : policy = .global <;>
      simp_all [LockTrace.Balanced, after_append, putRsCache]
  · simp only [LockTrace.Balanced, taken, ne_eq, reduceCtorEq, not_false_eq_true]

/-- The trace up to the search of the tables, after a first visit that did not
    fail with the lock held. -/
theorem firstVisit_released {policy : CachingPolicy} {first : CacheVisit n w}
    {cache : RsCache n w}
    (served : policy = .global → (getRsCache policy first cache).present = true) :
    after false ((getRsCache policy first cache).trace ++
      (if (getRsCache policy first cache).present then putRsCache policy else []) ++ [.leave]) =
      some false := by
  rw [getRsCache_trace]
  by_cases isGlobal : policy = .global
  · rw [if_pos isGlobal, if_pos (served isGlobal), putRsCache, if_pos isGlobal]
    rfl
  · rw [if_neg isGlobal, putRsCache, if_neg isGlobal, ite_self]
    rfl

theorem after_visit (policy : CachingPolicy) (visit : CacheVisit n w) (cache : RsCache n w) :
    after false (getRsCache policy visit cache).trace = some (decide (policy = .global)) := by
  rw [getRsCache_trace]
  by_cases isGlobal : policy = .global <;> simp [isGlobal]

/-- Once the first visit did not fail, all depends on the second. -/
theorem findRegState_balanced_of_served {t : Target n w τ} {tables : UnwindTables n w}
    {policy : CachingPolicy} {first second : CacheVisit n w}
    {meanwhile : RsCache n w → RsCache n w} {cache : RsCache n w} {c : Cursor n w τ}
    (served : policy = .global → (getRsCache policy first cache).present = true) :
    LockTrace.Balanced (findRegState t tables policy first second meanwhile cache c).trace ↔
      (policy = .global → Revisits t tables policy first cache c →
        (getRsCache policy second (meanwhile (getRsCache policy first cache).cache)).present =
          true) := by
  have released := firstVisit_released served
  unfold findRegState
  dsimp only
  split
  next fault failed =>
    refine iff_of_true (by simp [LockTrace.Balanced, after_visit]) fun isGlobal revisits => ?_
    rw [if_pos (served isGlobal), revisits.1] at failed
    cases failed
  next i hit =>
    refine iff_of_true (Found.ofEntry_balanced _ (after_visit ..)) fun isGlobal revisits => ?_
    rw [if_pos (served isGlobal), revisits.1] at hit
    cases hit
  next missed =>
    split
    next fault next failed =>
      refine iff_of_true ?_ fun _ revisits => ?_
      · rw [balanced_append released]
        decide
      · obtain ⟨rs, computed⟩ := revisits.2
        rw [failed] at computed
        cases computed
    next rs next computed =>
      split
      next present =>
        refine iff_of_true (Found.ofEntry_balanced _ ?_) fun _ _ => present
        rw [after_append, released, Option.bind_some, after_visit]
      next absent =>
        rw [List.append_assoc, balanced_append released, getRsCache_trace]
        by_cases isGlobal : policy = .global
        · rw [if_pos isGlobal]
          refine iff_of_false (by decide) fun kept => absent (kept isGlobal ⟨?_, rs, ?_⟩)
          · rwa [if_pos (served isGlobal)] at missed
          · rw [computed]
        · rw [if_neg isGlobal]
          exact iff_of_true (by decide) fun isGlobal' => absurd isGlobal' isGlobal

/-- A first visit that fails holds the lock while the tables are searched. -/
theorem findRegState_leaks {t : Target n w τ} {tables : UnwindTables n w}
    {first second : CacheVisit n w} {meanwhile : RsCache n w → RsCache n w}
    {cache : RsCache n w} {c : Cursor n w τ}
    (absent : (getRsCache .global first cache).present = false) :
    ¬ LockTrace.Balanced (findRegState t tables .global first second meanwhile cache c).trace := by
  have leaves (rest : List Action) :
      ¬ LockTrace.Balanced ((getRsCache .global first cache).trace ++ [] ++ [.leave] ++ rest) := by
    simpa using not_balanced_of_leave rest (after_visit .global first cache)
  unfold findRegState
  simp only [absent, Bool.false_eq_true, ↓reduceIte, pure_eq_ok]
  split
  next => exact leaves _
  next =>
    split
    next =>
      unfold Found.ofEntry
      split
      · simpa only [List.append_assoc] using leaves _
      · exact leaves _
    next => simpa only [List.append_assoc] using leaves _

/-- The lock is released once for every time it is taken, and before each return
    and each search of the tables, exactly when neither visit is refused the
    memory for a flush. -/
theorem findRegState_balanced_iff (t : Target n w τ) (tables : UnwindTables n w)
    (policy : CachingPolicy) (first second : CacheVisit n w)
    (meanwhile : RsCache n w → RsCache n w) (cache : RsCache n w) (c : Cursor n w τ) :
    LockTrace.Balanced (findRegState t tables policy first second meanwhile cache c).trace ↔
      (policy = .global →
        ¬ first.FlushRefused cache ∧
          (Revisits t tables policy first cache c →
            ¬ second.FlushRefused (meanwhile (getRsCache policy first cache).cache))) := by
  by_cases isGlobal : policy = .global
  · subst isGlobal
    have served := getRsCache_present_iff (show CachingPolicy.global ≠ .none by nofun)
      (n := n) (w := w)
    simp only [forall_const, ← served]
    cases present : (getRsCache .global first cache).present with
    | true =>
        rw [findRegState_balanced_of_served fun _ => present]
        simp only [forall_const, true_and]
    | false => simp only [findRegState_leaks present, Bool.false_eq_true, false_and]
  · rw [findRegState_balanced_of_served fun isGlobal' => absurd isGlobal' isGlobal]
    simp only [isGlobal, false_implies]

/-- Tables without any procedure. -/
def noTables : UnwindTables 1 64 where
  findProcInfo := fun _ => (.error .noinfo, {})
  cursorSpace := spaceOfBytes 64 []
  localSpace := spaceOfBytes 64 []
  budget := 0

/-- The cache was filled, and its size is raised to 256 entries: the next lookup
    has to map new arrays, and cannot. -/
theorem resizedCache_leaksLock :
    ¬ LockTrace.Balanced (findRegState (plainTarget 1 64 0 0) noTables .global
      { generation := 1, globalLogSize := 8, memory := { grantHash := false } } {} id
      { hash := some [-1], buckets := some [], links := some [] }
      { cfa := 0, ip := 0x1000, loc := fun _ => nullLoc, tdep := () }).trace := by
  decide

end Libunwind.Dwarf
