import Libunwind.Dwarf.CacheEntries
import Libunwind.Dwarf.CacheLock

/-! # Unwinding through the cache

An entry of the cache is found by its instruction pointer alone, but the state
in it also depends on whether it was computed for the instruction before. The
invariant below says of every entry for which lookup it is right; a run is
transparent as long as no lookup of the other kind meets it.
-/

namespace Libunwind.Dwarf

variable {n w : Nat} {τ : Type}

/-! ## Sound caches -/

section Sound

variable {t : Target n w τ} {tables : UnwindTables n w}

/-- What `find_reg_state` computes without a cache for this location. -/
def Computes (t : Target n w τ) (tables : UnwindTables n w) (ip : Word w) (usePrevInstr : Bool)
    (rs : RegState n w) (nextUsePrevInstr : Bool) : Prop :=
  ∀ c : Cursor n w τ, c.ip = ip → c.usePrevInstr = usePrevInstr →
    (computeState t tables c).1 = .ok rs ∧
      (computeState t tables c).2.usePrevInstr = nextUsePrevInstr

theorem fetchProcInfo_usePrevInstr (c : Cursor n w τ) :
    (fetchProcInfo t tables c).2.usePrevInstr = c.usePrevInstr := by
  unfold fetchProcInfo
  split
  next => rfl
  next =>
    split
    · split <;> rfl
    · rfl

/-- The search of the tables depends on the cursor only for its location. -/
theorem fetchProcInfo_congr {c c' : Cursor n w τ} (sameIp : c.ip = c'.ip)
    (sameUse : c.usePrevInstr = c'.usePrevInstr) :
    (fetchProcInfo t tables c).1 = (fetchProcInfo t tables c').1 ∧
      (fetchProcInfo t tables c).2.pi = (fetchProcInfo t tables c').2.pi := by
  unfold fetchProcInfo
  rw [sameIp, sameUse]
  split
  next => exact ⟨rfl, rfl⟩
  next =>
    split
    · split <;> exact ⟨rfl, rfl⟩
    · exact ⟨rfl, rfl⟩

theorem nextUsePrevInstr_congr {fetched : Result Unit} {c c' : Cursor n w τ}
    (samePi : c.pi = c'.pi) (sameUse : c.usePrevInstr = c'.usePrevInstr) :
    nextUsePrevInstr fetched c = nextUsePrevInstr fetched c' := by
  simp only [nextUsePrevInstr, samePi, sameUse]

/-- What the computation yields, by the search of the tables. -/
theorem computeState_fst (c : Cursor n w τ) :
    (computeState t tables c).1 = (do
      (fetchProcInfo t tables c).1
      let _ ← notNull (fetchProcInfo t tables c).2.pi.unwindInfo
      let sr ← createStateRecordFor (tables.context t.cfi) tables.budget
        (fetchProcInfo t tables c).2.pi c.ip c.usePrevInstr
      pure sr.rsCurrent) := rfl

theorem computeState_snd (c : Cursor n w τ) :
    (computeState t tables c).2 =
      { putUnwindInfo (fetchProcInfo t tables c).2 with
        usePrevInstr :=
          nextUsePrevInstr (fetchProcInfo t tables c).1 (fetchProcInfo t tables c).2 } := rfl

theorem computes_of_eq_ok {c c' : Cursor n w τ} {rs}
    (computed : computeState t tables c = (.ok rs, c')) :
    Computes t tables c.ip c.usePrevInstr rs c'.usePrevInstr := by
  intro d sameIp sameUse
  obtain ⟨fetched, samePi⟩ : (fetchProcInfo t tables d).1 = (fetchProcInfo t tables c).1 ∧
      (fetchProcInfo t tables d).2.pi = (fetchProcInfo t tables c).2.pi :=
    fetchProcInfo_congr sameIp sameUse
  have use : (fetchProcInfo t tables d).2.usePrevInstr =
      (fetchProcInfo t tables c).2.usePrevInstr := by
    rw [fetchProcInfo_usePrevInstr, fetchProcInfo_usePrevInstr, sameUse]
  have parsed : (computeState t tables c).1 = .ok rs := congrArg Prod.fst computed
  obtain rfl : (computeState t tables c).2 = c' := congrArg Prod.snd computed
  constructor
  · rw [← parsed, computeState_fst, computeState_fst, fetched, samePi, sameIp, sameUse]
  · rw [computeState_snd, computeState_snd, fetched]
    exact nextUsePrevInstr_congr samePi use

/-- Every entry is what one of the lookups in `seen` computes. -/
def Sound (t : Target n w τ) (tables : UnwindTables n w) (seen : List (Word w × Bool))
    (cache : RsCache n w) : Prop :=
  ∀ i ip signalFrame rs, cache.Holds i ip signalFrame rs →
    ∃ usePrevInstr, (ip, usePrevInstr) ∈ seen ∧
      Computes t tables ip usePrevInstr rs (!signalFrame)

theorem Sound.mono {seen seen' : List (Word w × Bool)} {cache : RsCache n w}
    (sound : Sound t tables seen cache) (more : seen ⊆ seen') : Sound t tables seen' cache := by
  intro i ip signalFrame rs holds
  obtain ⟨usePrevInstr, member, computes⟩ := sound i ip signalFrame rs holds
  exact ⟨usePrevInstr, more member, computes⟩

theorem Sound.useEntry {seen : List (Word w × Bool)} {cache cache' : RsCache n w}
    {c c' : Cursor n w τ} {i} (sound : Sound t tables seen cache)
    (used : useEntry t cache c i = .ok (cache', c')) : Sound t tables seen cache' :=
  fun j ip signalFrame rs holds => sound j ip signalFrame rs (useEntry_holds used holds)

/-- The target's frame attributes keep the `signal_frame` flag of the info that
    the lookup fetches. -/
def KeepsSignalFrame (t : Target n w τ) (tables : UnwindTables n w) (c : Cursor n w τ) : Prop :=
  ∀ fetched dci, fetchProcInfo t tables c = (.ok (), fetched) →
    fetched.pi.unwindInfo = some dci →
    t.cacheFrame { putUnwindInfo fetched with usePrevInstr := !dci.signalFrame } = dci.signalFrame

theorem cacheFrame_of_computed {c c' : Cursor n w τ} {rs}
    (computed : computeState t tables c = (.ok rs, c')) (keeps : KeepsSignalFrame t tables c) :
    t.cacheFrame c' = !c'.usePrevInstr := by
  have parsed : (computeState t tables c).1 = .ok rs := congrArg Prod.fst computed
  obtain rfl : (computeState t tables c).2 = c' := congrArg Prod.snd computed
  rw [computeState_fst] at parsed
  obtain ⟨_, searched, rest⟩ := bind_eq_ok.mp parsed
  obtain ⟨dci, isDci, -⟩ := bind_eq_ok.mp rest
  have isDci := notNull_eq_ok.mp isDci
  have next : nextUsePrevInstr (fetchProcInfo t tables c).1 (fetchProcInfo t tables c).2 =
      !dci.signalFrame := by
    rw [searched]
    simp only [nextUsePrevInstr, isDci]
  simp only [computeState_snd, next, Bool.not_not]
  exact keeps _ dci (Prod.ext searched rfl) isDci

/-- What a lookup may rely on in its cache: it is sound for the lookups since it
    was last emptied, if it has not to be emptied now. -/
def CacheVisit.Relies (t : Target n w τ) (tables : UnwindTables n w) (visit : CacheVisit n w)
    (seen : List (Word w × Bool)) (cache : RsCache n w) : Prop :=
  visit.needsFlush cache = false → Sound t tables seen cache

/-- The lookups whose entries a visit can find. -/
def CacheVisit.seenAfter (visit : CacheVisit n w) (cache : RsCache n w)
    (seen : List (Word w × Bool)) : List (Word w × Bool) :=
  if visit.needsFlush cache then [] else seen

theorem flushRsCache_true {memory : CacheMemory n w} {cache cache' : RsCache n w}
    (flushed : flushRsCache memory cache = (true, cache')) :
    cache'.hash.isNone = false ∧ ∀ i ip signalFrame rs, ¬ cache'.Holds i ip signalFrame rs := by
  unfold flushRsCache at flushed
  split at flushed
  next =>
    obtain rfl := (Prod.mk.inj flushed).2
    exact ⟨rfl, fun _ _ _ _ => install_empty cache memory _⟩
  next =>
    split at flushed
    next =>
      obtain rfl := (Prod.mk.inj flushed).2
      exact ⟨rfl, fun _ _ _ _ => install_empty cache memory cache.logSize⟩
    next => exact nomatch (Prod.mk.inj flushed).1

theorem flushRsCache_generation (memory : CacheMemory n w) (cache : RsCache n w) :
    (flushRsCache memory cache).2.generation = cache.generation := by
  unfold flushRsCache
  split
  · rfl
  · split <;> rfl

/-- A visit that is served finds a sound cache of the current generation. -/
theorem getRsCache_served {policy : CachingPolicy} {visit : CacheVisit n w} {cache : RsCache n w}
    {seen : List (Word w × Bool)} (relies : visit.Relies t tables seen cache)
    (served : (getRsCache policy visit cache).present = true) :
    visit.needsFlush (getRsCache policy visit cache).cache = false ∧
      Sound t tables (visit.seenAfter cache seen) (getRsCache policy visit cache).cache := by
  unfold getRsCache at served ⊢
  split at served
  next => exact nomatch served
  next uses =>
    rw [if_neg uses]
    dsimp only at served ⊢
    split at served
    next needs =>
      rw [if_pos needs]
      split at served
      next emptied flushed =>
        obtain ⟨hasHash, empty⟩ := flushRsCache_true flushed
        refine ⟨by simp [CacheVisit.needsFlush, hasHash], ?_⟩
        intro i ip signalFrame rs holds
        exact absurd holds (empty i ip signalFrame rs)
      next => exact nomatch served
    next current =>
      rw [if_neg current, CacheVisit.seenAfter, if_neg current]
      exact ⟨Bool.eq_false_iff.mpr current, relies (Bool.eq_false_iff.mpr current)⟩

/-- A visit that is not served leaves the cache to be flushed. -/
theorem getRsCache_absent {policy : CachingPolicy} {visit : CacheVisit n w} {cache : RsCache n w}
    (uses : policy ≠ .none) (absent : (getRsCache policy visit cache).present = false) :
    visit.generation ≠ cache.generation ∧
      (getRsCache policy visit cache).cache.generation = cache.generation := by
  constructor
  · by_contra current
    rw [← Bool.not_eq_true, getRsCache_present_iff uses, not_not] at absent
    exact absent.1 current
  · unfold getRsCache at absent ⊢
    rw [if_neg uses] at absent ⊢
    dsimp only at absent ⊢
    split at absent
    next needs =>
      rw [if_pos needs]
      split at absent
      next => exact nomatch absent
      next failed =>
        have kept := flushRsCache_generation visit.memory
          { cache with logSize := visit.globalLogSize }
        rw [failed] at kept
        exact kept
    next => exact nomatch absent

theorem Computes.unique {c : Cursor n w τ} {rs rs' next next'}
    (one : Computes t tables c.ip c.usePrevInstr rs next)
    (other : Computes t tables c.ip c.usePrevInstr rs' next') : rs = rs' ∧ next = next' := by
  obtain ⟨state, use⟩ := one c rfl rfl
  obtain ⟨state', use'⟩ := other c rfl rfl
  exact ⟨Except.ok.inj (state.symm.trans state'), use.symm.trans use'⟩

theorem computeState_ip (c : Cursor n w τ) : (computeState t tables c).2.ip = c.ip := by
  rw [computeState_snd]
  change (fetchProcInfo t tables c).2.ip = c.ip
  unfold fetchProcInfo
  split
  next => rfl
  next =>
    split
    · split <;> rfl
    · rfl

theorem useEntry_frame {cache cache' : RsCache n w} {c c' : Cursor n w τ} {i}
    (used : Libunwind.Dwarf.useEntry t cache c i = .ok (cache', c')) :
    cache'.generation = cache.generation ∧ c'.usePrevInstr = c.usePrevInstr := by
  obtain ⟨links, link, previous, -, -, -, rfl, rfl⟩ := useEntry_eq_ok.mp used
  exact ⟨rfl, rfl⟩

theorem rsNew_generation {cache cache' : RsCache n w} {ip : Word w} {signalFrame : Bool} {rs head}
    (entered : rsNew cache ip signalFrame rs = .ok (cache', head)) :
    cache'.generation = cache.generation := by
  obtain ⟨hash, -, rest⟩ := bind_eq_ok.mp entered
  obtain ⟨links, -, rest⟩ := bind_eq_ok.mp rest
  obtain ⟨buckets, -, rest⟩ := bind_eq_ok.mp rest
  obtain ⟨⟨hash', links'⟩, -, rest⟩ := bind_eq_ok.mp rest
  obtain ⟨first, -, rest⟩ := bind_eq_ok.mp rest
  obtain ⟨_, -, result⟩ := bind_eq_ok.mp rest
  rw [← (Prod.mk.inj (Except.ok.inj result)).1]

/-- No lookup of the other kind at this location has left an entry. -/
def Alike (c : Cursor n w τ) (seen : List (Word w × Bool)) : Prop :=
  ∀ usePrevInstr, (c.ip, usePrevInstr) ∈ seen → usePrevInstr = c.usePrevInstr

/-- An entry for the cursor's location is what the cursor would compute. -/
theorem Sound.computes {seen : List (Word w × Bool)} {cache : RsCache n w} {c : Cursor n w τ}
    {i signalFrame rs} (sound : Sound t tables seen cache) (alike : Alike c seen)
    (holds : cache.Holds i c.ip signalFrame rs) :
    Computes t tables c.ip c.usePrevInstr rs (!signalFrame) := by
  obtain ⟨usePrevInstr, member, computes⟩ := sound i c.ip signalFrame rs holds
  rwa [alike usePrevInstr member] at computes

/-- The second visit uses an entry that is what was computed, or enters it. -/
theorem enterState_sound {seen : List (Word w × Bool)} {cache cache' : RsCache n w}
    {c c' : Cursor n w τ} {i computed rs} (sound : Sound t tables seen cache)
    (alike : Alike c seen) (state : computeState t tables c = (.ok computed, c'))
    (keeps : KeepsSignalFrame t tables c)
    (entered : enterState t cache c' computed = .ok (cache', i, rs)) :
    Sound t tables ((c.ip, c.usePrevInstr) :: seen) cache' ∧ rs = computed ∧
      cache'.generation = cache.generation := by
  have computes := computes_of_eq_ok state
  have sameIp : c'.ip = c.ip := by
    have kept : (computeState t tables c).2.ip = c.ip := computeState_ip c
    rwa [state] at kept
  obtain ⟨found, lookedUp, rest⟩ := bind_eq_ok.mp entered
  cases found with
  | some i =>
      obtain ⟨buckets, isBuckets, rest⟩ := bind_eq_ok.mp rest
      obtain ⟨rs, isRs, result⟩ := bind_eq_ok.mp rest
      obtain ⟨rfl, -, rfl⟩ : cache = cache' ∧ _ = _ ∧ rs = _ := by simpa using result
      obtain ⟨links, link, isLinks, isLink, valid, linkIp⟩ := rsLookup_found lookedUp
      have holds : cache.Holds i c.ip link.signalFrame rs :=
        ⟨links, buckets, isLinks, notNull_eq_ok.mp isBuckets,
          by simp only [List.getElem?_map, isLink, Option.map_some, CacheEntry.key, valid, linkIp,
            sameIp], index_eq_ok.mp isRs⟩
      exact ⟨sound.mono (List.subset_cons_self _ _),
        ((sound.computes alike holds).unique computes).1, rfl⟩
  | none =>
      obtain ⟨⟨cache₁, head⟩, isNew, result⟩ := bind_eq_ok.mp rest
      obtain ⟨rfl, -, rfl⟩ : cache₁ = cache' ∧ _ = _ ∧ computed = rs := by simpa using result
      refine ⟨?_, rfl, rsNew_generation isNew⟩
      intro j ip signalFrame rs holds
      obtain ⟨rfl, rfl, rfl⟩ | before := rsNew_holds isNew holds
      · refine ⟨c.usePrevInstr, by simp [sameIp], ?_⟩
        rw [cacheFrame_of_computed state keeps, Bool.not_not, sameIp]
        exact computes
      · obtain ⟨usePrevInstr, member, computes⟩ := sound j ip signalFrame rs before
        exact ⟨usePrevInstr, List.mem_cons_of_mem _ member, computes⟩

theorem Found.ofEntry_cases (t : Target n w τ) (policy : CachingPolicy)
    (trace : List LockTrace.Action) (c : Cursor n w τ) (cache : RsCache n w)
    (entry : Result (RsCache n w × Cursor n w τ × Nat × RegState n w)) :
    (∃ fault, (Found.ofEntry t policy trace c cache entry).result = .error fault ∧
      (Found.ofEntry t policy trace c cache entry).cache = cache) ∨
    ∃ cache₁ c₁ i rs, entry = .ok (cache₁, c₁, i, rs) ∧
      (Found.ofEntry t policy trace c cache entry).result = .ok rs ∧
      Libunwind.Dwarf.useEntry t cache₁ c₁ i =
        .ok ((Found.ofEntry t policy trace c cache entry).cache,
          (Found.ofEntry t policy trace c cache entry).cursor) := by
  unfold Found.ofEntry
  split
  next used =>
    obtain ⟨⟨cache₁, c₁, i, rs⟩, rfl, rest⟩ := bind_eq_ok.mp used
    obtain ⟨⟨cache₂, c₂⟩, isUsed, result⟩ := bind_eq_ok.mp rest
    obtain ⟨rfl, rfl, rfl⟩ : rs = _ ∧ c₂ = _ ∧ cache₂ = _ := by simpa using result
    exact .inr ⟨cache₁, c₁, i, rs, rfl, rfl, isUsed⟩
  next => exact .inl ⟨_, rfl, rfl⟩

/-- What a call hands on is what it would compute without the cache. -/
def Transparent (t : Target n w τ) (tables : UnwindTables n w) (c : Cursor n w τ)
    (found : Found n w τ) : Prop :=
  ∀ rs, found.result = .ok rs →
    Computes t tables c.ip c.usePrevInstr rs found.cursor.usePrevInstr

/-- What a call leaves in the cache: a sound cache of the current generation, or
    one that is still to be flushed. -/
def LeavesSound (t : Target n w τ) (tables : UnwindTables n w) (visit : CacheVisit n w)
    (before : RsCache n w) (seen : List (Word w × Bool)) (after : RsCache n w) : Prop :=
  (after.generation = visit.generation ∧ Sound t tables seen after) ∨
    (visit.generation ≠ before.generation ∧ after.generation = before.generation)

theorem CacheVisit.generation_of_current {visit : CacheVisit n w} {cache : RsCache n w}
    (current : visit.needsFlush cache = false) : cache.generation = visit.generation := by
  simp only [needsFlush, Bool.or_eq_false_iff, bne_eq_false_iff_eq] at current
  exact current.1.symm

theorem LeavesSound.mono {visit : CacheVisit n w} {before after : RsCache n w}
    {seen seen' : List (Word w × Bool)} (leaves : LeavesSound t tables visit before seen after)
    (more : seen ⊆ seen') : LeavesSound t tables visit before seen' after :=
  leaves.imp_left fun ⟨current, sound⟩ => ⟨current, sound.mono more⟩

/-- What the first visit leaves for the second one. -/
theorem firstVisit_sound {policy : CachingPolicy} {first second : CacheVisit n w}
    {cache : RsCache n w} {seen : List (Word w × Bool)} (uses : policy ≠ .none)
    (same : second.generation = first.generation) (relies : first.Relies t tables seen cache) :
    LeavesSound t tables first cache (first.seenAfter cache seen)
        (getRsCache policy first cache).cache ∧
      second.Relies t tables (first.seenAfter cache seen) (getRsCache policy first cache).cache ∧
      second.seenAfter (getRsCache policy first cache).cache (first.seenAfter cache seen) =
        first.seenAfter cache seen := by
  cases served : (getRsCache policy first cache).present with
  | true =>
      obtain ⟨current, sound⟩ := getRsCache_served relies served
      have current' : second.needsFlush (getRsCache policy first cache).cache = false := by
        rw [← current, CacheVisit.needsFlush, CacheVisit.needsFlush, same]
      refine ⟨.inl ⟨CacheVisit.generation_of_current current, sound⟩, fun _ => sound, ?_⟩
      rw [CacheVisit.seenAfter, current', if_neg Bool.false_ne_true]
  | false =>
      obtain ⟨stale, kept⟩ := getRsCache_absent uses served
      have needs : second.needsFlush (getRsCache policy first cache).cache = true := by
        simp [CacheVisit.needsFlush, kept, same, stale]
      have emptied : first.seenAfter cache seen = [] := by
        simp [CacheVisit.seenAfter, CacheVisit.needsFlush, stale]
      refine ⟨.inr ⟨stale, kept⟩, fun current => ?_, ?_⟩
      · rw [needs] at current
        exact nomatch current
      · rw [emptied, CacheVisit.seenAfter, ite_self]

/-- The common end of a call. -/
theorem Found.ofEntry_sound {policy : CachingPolicy} {visit : CacheVisit n w} {trace}
    {before cache : RsCache n w} {c c' : Cursor n w τ} {seen : List (Word w × Bool)}
    {entry : Result (RsCache n w × Cursor n w τ × Nat × RegState n w)}
    (leaves : LeavesSound t tables visit before seen cache)
    (entered : ∀ cache₁ c₁ i rs, entry = .ok (cache₁, c₁, i, rs) →
      cache₁.generation = visit.generation ∧ Sound t tables seen cache₁ ∧
        Computes t tables c.ip c.usePrevInstr rs c₁.usePrevInstr) :
    Transparent t tables c (Found.ofEntry t policy trace c' cache entry) ∧
      LeavesSound t tables visit before seen
        (Found.ofEntry t policy trace c' cache entry).cache := by
  obtain ⟨fault, failed, kept⟩ | ⟨cache₁, c₁, i, rs, isEntry, result, used⟩ :=
    Found.ofEntry_cases t policy trace c' cache entry
  · refine ⟨fun rs found => ?_, ?_⟩
    · rw [failed] at found
      exact nomatch found
    · rw [kept]
      exact leaves
  · obtain ⟨current, sound, computes⟩ := entered cache₁ c₁ i rs isEntry
    obtain ⟨sameGeneration, sameUse⟩ := useEntry_frame used
    refine ⟨fun rs' found => ?_, .inl ⟨sameGeneration.trans current, sound.useEntry used⟩⟩
    rw [result] at found
    rw [sameUse, ← Except.ok.inj found]
    exact computes

/-- A call whose cache is sound, and has no entry of the other kind for the
    cursor's location, is transparent and leaves the cache sound. -/
theorem findRegState_sound {policy : CachingPolicy} {first second : CacheVisit n w}
    {cache : RsCache n w} {c : Cursor n w τ} {seen : List (Word w × Bool)}
    (uses : policy ≠ .none) (same : second.generation = first.generation)
    (relies : first.Relies t tables seen cache) (alike : Alike c (first.seenAfter cache seen))
    (keeps : KeepsSignalFrame t tables c) :
    Transparent t tables c (findRegState t tables policy first second id cache c) ∧
      LeavesSound t tables first cache ((c.ip, c.usePrevInstr) :: first.seenAfter cache seen)
        (findRegState t tables policy first second id cache c).cache := by
  obtain ⟨leaves, relies', seen'⟩ := firstVisit_sound uses same relies
  have leaves := leaves.mono (List.subset_cons_self (c.ip, c.usePrevInstr) _)
  unfold findRegState
  dsimp only [id_eq]
  split
  next => exact ⟨nofun, leaves⟩
  next i hit =>
    -- only a visit that was served looks an entry up
    have served : (getRsCache policy first cache).present = true := by
      by_contra absent
      rw [if_neg absent] at hit
      exact nomatch hit
    rw [if_pos served] at hit
    obtain ⟨current, sound⟩ := getRsCache_served relies served
    refine Found.ofEntry_sound leaves fun cache₁ c₁ j rs isEntry => ?_
    obtain ⟨⟨c₂, rs₂⟩, read, result⟩ := bind_eq_ok.mp isEntry
    obtain ⟨rfl, rfl, -, rfl⟩ : _ = cache₁ ∧ c₂ = c₁ ∧ i = j ∧ rs₂ = rs := by simpa using result
    obtain ⟨signalFrame, holds, rfl⟩ := readEntry_holds hit read
    exact ⟨CacheVisit.generation_of_current current,
      sound.mono (List.subset_cons_self _ _), sound.computes alike holds⟩
  next =>
    split
    next => exact ⟨nofun, leaves⟩
    next rs c' computed =>
      split
      next served =>
        obtain ⟨current, sound⟩ := getRsCache_served relies' served
        rw [seen'] at sound
        have now := CacheVisit.generation_of_current current
        refine Found.ofEntry_sound (.inl ⟨now.trans same, sound.mono (List.subset_cons_self _ _)⟩)
          fun cache₁ c₁ j rs' isEntry => ?_
        obtain ⟨⟨cache₂, i, rs₂⟩, entered, result⟩ := bind_eq_ok.mp isEntry
        obtain ⟨rfl, rfl, -, rfl⟩ : cache₂ = cache₁ ∧ c' = c₁ ∧ i = j ∧ rs₂ = rs' := by
          simpa using result
        obtain ⟨sound', rfl, kept⟩ := enterState_sound sound alike computed keeps entered
        exact ⟨kept.trans (now.trans same), sound', computes_of_eq_ok computed⟩
      next absent =>
        obtain ⟨stale, kept⟩ := getRsCache_absent uses (Bool.eq_false_iff.mpr absent)
        refine ⟨fun rs' found => ?_, ?_⟩
        · rw [← Except.ok.inj found]
          exact computes_of_eq_ok computed
        · obtain ⟨current, -⟩ | ⟨old, kept'⟩ := leaves
          · exact absurd (same.trans current.symm) stale
          · exact .inr ⟨old, kept.trans kept'⟩

end Sound

/-! ## Runs -/

variable {κ : Type}

/-- A cache, the flushes of its address space that it has still to follow, and
    the lookups that were made in it since it was last emptied. -/
structure CacheHistory (n w : Nat) where
  cache : RsCache n w
  pending : Nat := 0
  seen : List (Word w × Bool) := []

/-- An address space with its caches: the global one, and one for each thread. -/
structure World (κ : Type) (n w : Nat) where
  tables : UnwindTables n w
  generation : BitVec 32
  caches : κ → CacheHistory n w

/-- A call of `dwarf_step`, with the cache that its policy selects and what its
    visits find there. -/
structure StepCall (κ : Type) (n w : Nat) (τ : Type) where
  cacheId : κ
  policy : CachingPolicy
  cursor : Cursor n w τ
  first : CacheVisit n w := {}
  second : CacheVisit n w := {}

namespace World

/-- Before the first call no cache has its arrays. -/
def initial (tables : UnwindTables n w) (logSize : κ → Nat) : World κ n w where
  tables := tables
  generation := 0
  caches := fun k => { cache := { logSize := logSize k } }

def visit (world : World κ n w) (visit : CacheVisit n w) : CacheVisit n w :=
  { visit with generation := world.generation }

/-- The `find_reg_state` of a call. -/
def find (t : Target n w τ) (world : World κ n w) (call : StepCall κ n w τ) : Found n w τ :=
  findRegState t world.tables call.policy (world.visit call.first) (world.visit call.second) id
    (world.caches call.cacheId).cache call.cursor

/-- The same with `UNW_CACHE_NONE`. -/
def findUncached (t : Target n w τ) (world : World κ n w) (call : StepCall κ n w τ) :
    Found n w τ :=
  world.find t { call with policy := .none }

def stepHistory (t : Target n w τ) (world : World κ n w) (call : StepCall κ n w τ) :
    CacheHistory n w :=
  let before := world.caches call.cacheId
  let after := (world.find t call).cache
  { cache := after
    pending := if after.generation = world.generation then 0 else before.pending
    seen := (call.cursor.ip, call.cursor.usePrevInstr) ::
      (world.visit call.first).seenAfter before.cache before.seen }

def step [DecidableEq κ] (t : Target n w τ) (world : World κ n w) (call : StepCall κ n w τ) : World κ n w :=
  if call.policy = .none then world
  else
    { world with caches := Function.update world.caches call.cacheId (world.stepHistory t call) }

/-- `unw_flush_cache`, which has to be called when the tables change. -/
def flush (world : World κ n w) (tables : UnwindTables n w) : World κ n w where
  tables := tables
  generation := world.generation + 1
  caches := fun k => { world.caches k with pending := (world.caches k).pending + 1 }

/-- `unw_set_cache_size`, when it changes the size of the global cache. -/
def setCacheSize [DecidableEq κ] (world : World κ n w) (globalId : κ) (logSize : Nat)
    (memory : CacheMemory n w) : World κ n w :=
  let flushed := world.flush world.tables
  let resized := { (flushed.caches globalId).cache with logSize }
  { flushed with
    caches := Function.update flushed.caches globalId
      { flushed.caches globalId with cache := (flushRsCache memory resized).2 } }

/-- What a call has to meet: the lookups at its `ip` since the last flush were
    of its own kind, the frame attributes keep the signal-frame flag, and its
    cache is not a whole cycle of `cache_generation` behind. -/
def Fits (t : Target n w τ) (world : World κ n w) (call : StepCall κ n w τ) : Prop :=
  (world.caches call.cacheId).pending < 2 ^ 32 ∧
    Alike call.cursor ((world.visit call.first).seenAfter (world.caches call.cacheId).cache
      (world.caches call.cacheId).seen) ∧
    KeepsSignalFrame t world.tables call.cursor

end World

/-- The worlds that runs lead to whose calls fit. -/
inductive Reachable [DecidableEq κ] (t : Target n w τ) : World κ n w → Prop where
  | start (tables : UnwindTables n w) (logSize : κ → Nat) : Reachable t (World.initial tables logSize)
  | step {world : World κ n w} (call : StepCall κ n w τ) :
      Reachable t world → (call.policy ≠ .none → world.Fits t call) →
        Reachable t (world.step t call)
  | flush {world : World κ n w} (tables : UnwindTables n w) :
      Reachable t world → Reachable t (world.flush tables)
  | setCacheSize {world : World κ n w} (globalId : κ) (logSize : Nat) (memory : CacheMemory n w) :
      Reachable t world → Reachable t (world.setCacheSize globalId logSize memory)

/-- Every cache is a number of flushes behind, and sound if that number is zero. -/
def WorldSound (t : Target n w τ) (world : World κ n w) : Prop :=
  ∀ k, world.generation =
      (world.caches k).cache.generation + BitVec.ofNat 32 (world.caches k).pending ∧
    ((world.caches k).pending = 0 → Sound t world.tables (world.caches k).seen (world.caches k).cache)

theorem worldSound_initial {t : Target n w τ} (tables : UnwindTables n w) (logSize : κ → Nat) :
    WorldSound t (World.initial tables logSize) := by
  intro k
  refine ⟨rfl, fun _ => ?_⟩
  rintro i ip signalFrame rs ⟨_, _, links, -⟩
  exact nomatch links

theorem WorldSound.flush {t : Target n w τ} {world : World κ n w} (sound : WorldSound t world)
    (tables : UnwindTables n w) : WorldSound t (world.flush tables) := by
  intro k
  refine ⟨?_, fun none => absurd none (Nat.succ_ne_zero _)⟩
  simp only [World.flush, (sound k).1, BitVec.ofNat_add, BitVec.add_assoc, BitVec.ofNat_eq_ofNat]

theorem WorldSound.setCacheSize [DecidableEq κ] {t : Target n w τ} {world : World κ n w}
    (sound : WorldSound t world) (globalId : κ) (logSize : Nat) (memory : CacheMemory n w) :
    WorldSound t (world.setCacheSize globalId logSize memory) := by
  intro k
  have flushed := (sound.flush world.tables) k
  by_cases isGlobal : k = globalId
  · subst isGlobal
    simp only [World.setCacheSize, Function.update_self, flushRsCache_generation]
    exact ⟨flushed.1, fun none => absurd none (Nat.succ_ne_zero _)⟩
  · simp only [World.setCacheSize, Function.update_of_ne isGlobal]
    exact flushed

/-- What a fitting call finds in its cache can be relied on. -/
theorem WorldSound.relies {t : Target n w τ} {world : World κ n w} {call : StepCall κ n w τ}
    (sound : WorldSound t world) (fits : world.Fits t call) :
    (world.visit call.first).Relies t world.tables (world.caches call.cacheId).seen
      (world.caches call.cacheId).cache := by
  intro current
  obtain ⟨behind, soundNow⟩ := sound call.cacheId
  apply soundNow
  have same : (world.caches call.cacheId).cache.generation = world.generation :=
    CacheVisit.generation_of_current current
  rw [same] at behind
  have zero : BitVec.ofNat 32 (world.caches call.cacheId).pending = 0 :=
    BitVec.self_eq_add_right.mp behind
  have := congrArg BitVec.toNat zero
  rwa [BitVec.toNat_ofNat, Nat.mod_eq_of_lt fits.1] at this

theorem WorldSound.find {t : Target n w τ} {world : World κ n w} {call : StepCall κ n w τ}
    (sound : WorldSound t world) (uses : call.policy ≠ .none) (fits : world.Fits t call) :
    Transparent t world.tables call.cursor (world.find t call) ∧
      LeavesSound t world.tables (world.visit call.first) (world.caches call.cacheId).cache
        (world.stepHistory t call).seen (world.find t call).cache :=
  findRegState_sound uses rfl (sound.relies fits) fits.2.1 fits.2.2

theorem WorldSound.step [DecidableEq κ] {t : Target n w τ} {world : World κ n w}
    {call : StepCall κ n w τ} (sound : WorldSound t world)
    (fits : call.policy ≠ .none → world.Fits t call) : WorldSound t (world.step t call) := by
  by_cases uses : call.policy = .none
  · rwa [World.step, if_pos uses]
  · rw [World.step, if_neg uses]
    intro k
    by_cases mine : k = call.cacheId
    · subst mine
      simp only [Function.update_self]
      obtain ⟨-, ⟨current, soundAfter⟩ | ⟨stale, kept⟩⟩ := sound.find uses (fits uses)
      · have current : (world.find t call).cache.generation = world.generation := current
        simp only [World.stepHistory, current, if_true, BitVec.add_zero]
        exact ⟨trivial, fun _ => soundAfter⟩
      · have old : (world.find t call).cache.generation ≠ world.generation := by
          rw [kept]
          exact stale.symm
        simp only [World.stepHistory, if_neg old]
        rw [kept]
        refine ⟨(sound call.cacheId).1, fun zero => ?_⟩
        have behind := (sound call.cacheId).1
        rw [zero, BitVec.add_zero] at behind
        exact absurd behind stale
    · simp only [Function.update_of_ne mine]
      exact sound k

theorem Reachable.sound [DecidableEq κ] {t : Target n w τ} {world : World κ n w}
    (reachable : Reachable t world) : WorldSound t world := by
  induction reachable with
  | start tables logSize => exact worldSound_initial tables logSize
  | step call _ fits ih => exact ih.step fits
  | flush tables _ ih => exact ih.flush tables
  | setCacheSize globalId logSize memory _ ih => exact ih.setCacheSize globalId logSize memory

theorem findUncached_eq {t : Target n w τ} {world : World κ n w} {call : StepCall κ n w τ} {rs c'}
    (computed : computeState t world.tables call.cursor = (.ok rs, c')) :
    (world.findUncached t call).result = .ok rs ∧ (world.findUncached t call).cursor = c' := by
  simp only [World.findUncached, World.find, findRegState, getRsCache, if_true, Bool.false_eq_true,
    if_false, pure_eq_ok, computed, and_self]

/-- In a run whose calls fit, the register state that a call hands on, and the
    next frame's `use_prev_instr`, are those it would compute without a cache. -/
theorem find_transparent [DecidableEq κ] {t : Target n w τ} {world : World κ n w}
    (reachable : Reachable t world) (call : StepCall κ n w τ)
    (fits : call.policy ≠ .none → world.Fits t call) {rs : RegState n w}
    (found : (world.find t call).result = .ok rs) :
    (world.findUncached t call).result = .ok rs ∧
      (world.findUncached t call).cursor.usePrevInstr =
        (world.find t call).cursor.usePrevInstr := by
  by_cases uses : call.policy = .none
  · have same : world.findUncached t call = world.find t call := by
      rw [World.findUncached, ← uses]
    rw [same]
    exact ⟨found, rfl⟩
  · obtain ⟨transparent, -⟩ := reachable.sound.find uses (fits uses)
    obtain ⟨computed, use⟩ := transparent rs found call.cursor rfl rfl
    obtain ⟨result, cursor⟩ := findUncached_eq (Prod.ext computed rfl)
    exact ⟨result, by rw [cursor, use]⟩

/-- A procedure whose row changes where one of its calls returns to. -/
def callTables : UnwindTables 1 64 where
  findProcInfo := fun _ =>
    (.ok (),
      { startIp := 0x1000, endIp := 0x1010, format := .table
        unwindInfo := some
          { codeAlign := 1, dataAlign := -8, cieInstrStart := 0, cieInstrEnd := 3
            fdeInstrStart := 3, fdeInstrEnd := 6 } })
  -- def_cfa r0, 8; advance_loc 4; def_cfa_offset 16
  cursorSpace := spaceOfBytes 64 [0x0c, 0, 8, 0x44, 0x0e, 16]
  localSpace := spaceOfBytes 64 []
  budget := 4

/-- A step from the instruction behind that call, which is either the return
    address or the next instruction of an interrupted frame. -/
def stepAtReturn (usePrevInstr : Bool) : StepCall Unit 1 64 Unit where
  cacheId := ()
  policy := .global
  cursor := { cfa := 0, ip := 0x1004, usePrevInstr, loc := fun _ => nullLoc, tdep := () }

def callWorld : World Unit 1 64 :=
  (World.initial callTables fun _ => 7).step (plainTarget 1 64 0 0) (stepAtReturn true)

/-- The frame that was interrupted there gets the row of the call. -/
theorem interruptedReturn_not_transparent :
    (callWorld.find (plainTarget 1 64 0 0) (stepAtReturn false)).result.isOk = true ∧
      (callWorld.find (plainTarget 1 64 0 0) (stepAtReturn false)).result ≠
        (callWorld.findUncached (plainTarget 1 64 0 0) (stepAtReturn false)).result := by
  decide

theorem callTables_keepSignalFrame (c : Cursor 1 64 Unit) :
    KeepsSignalFrame (plainTarget 1 64 0 0) callTables c := by
  intro fetched dci searched isDci
  obtain rfl := (Prod.mk.inj searched).2
  obtain rfl := Option.some.inj isDci
  rfl

theorem stepAtReturn_fits :
    callWorld.Fits (plainTarget 1 64 0 0) (stepAtReturn true) ∧
      (World.initial callTables fun _ : Unit => 7).Fits (plainTarget 1 64 0 0)
        (stepAtReturn true) := by
  refine ⟨⟨by decide, ?_, callTables_keepSignalFrame _⟩,
    ⟨by decide, ?_, callTables_keepSignalFrame _⟩⟩
  · have seen : ((callWorld.visit (stepAtReturn true).first).seenAfter
        (callWorld.caches (stepAtReturn true).cacheId).cache
        (callWorld.caches (stepAtReturn true).cacheId).seen) = [(0x1004, true)] := by decide
    intro usePrevInstr member
    rw [seen, List.mem_singleton] at member
    exact (Prod.mk.inj member).2
  · intro usePrevInstr member
    exact nomatch member

/-- The row that `callTables` gives a return address: the CFA is `r0 + 8`. -/
def callRow : RegState 1 64 :=
  let start := initialRecord { sp := 0 } ({ codeAlign := 1, dataAlign := -8 } : CieInfo 64)
  (setReg (setReg start (cfaRegColumn 1) .reg 0) (cfaOffColumn 1) .undef 8).rsCurrent

theorem callWorld_transparent :
    (callWorld.findUncached (plainTarget 1 64 0 0) (stepAtReturn true)).result = .ok callRow ∧
      (callWorld.findUncached (plainTarget 1 64 0 0) (stepAtReturn true)).cursor.usePrevInstr =
        (callWorld.find (plainTarget 1 64 0 0) (stepAtReturn true)).cursor.usePrevInstr :=
  find_transparent
    (.step (stepAtReturn true) (.start callTables fun _ => 7) fun _ => stepAtReturn_fits.2)
    (stepAtReturn true) (fun _ => stepAtReturn_fits.1) rfl

end Libunwind.Dwarf
