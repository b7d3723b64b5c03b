import Libunwind.Dwarf.CacheTable

/-! # The indices into the register-state cache

What `rs_lookup`, `rs_new` and the update of the hints access lies in the arrays
of the cache, as long as the cursor's hint and its previous entry do: the other
indices are checked against the size of the cache, or are in range by the way
they are computed.
-/

namespace Libunwind.Dwarf

variable {n w : Nat} {τ : Type}

/-! ## Accesses in range -/

/-- The computation makes no access out of bounds. -/
def InBounds {α : Type} (r : Result α) : Prop := r ≠ .error .undefined

section InBounds

variable {α β : Type}

theorem inBounds_ok (a : α) : InBounds (.ok a : Result α) := by
  rintro ⟨⟩

theorem InBounds.bind {first : Result α} {rest : α → Result β} (starts : InBounds first)
    (goesOn : ∀ a, first = .ok a → InBounds (rest a)) : InBounds (first >>= rest) := by
  cases first with
  | error fault =>
      rintro ⟨⟩
      exact starts rfl
  | ok a => exact goesOn a rfl

theorem inBounds_index {array : List α} {i : ℕ} (inRange : i < array.length) :
    InBounds (index array i) := by
  rw [index, List.getElem?_eq_getElem inRange]
  exact inBounds_ok _

theorem inBounds_notNull {pointer : Option α} {a : α} (present : pointer = some a) :
    InBounds (notNull pointer) := by
  rw [notNull_eq_ok.mpr present]
  exact inBounds_ok a

end InBounds

section Walks

variable {links : List (CacheEntry w)} {size : ℕ}

theorem inBounds_cacheMatch {i : ℕ} (inRange : i < links.length) (ip : Word w) :
    InBounds (cacheMatch links i ip) :=
  (inBounds_index inRange).bind fun _ _ => inBounds_ok _

/-- A chain is followed only as far as its entries are in range. -/
theorem inBounds_lookupChain (long : links.length = size) (ip : Word w) (rounds i : ℕ) :
    InBounds (lookupChain links size ip rounds i) := by
  induction rounds generalizing i with
  | zero => rintro ⟨⟩
  | succ rounds ih =>
      rw [lookupChain]
      split
      next inner =>
        rw [← long] at inner
        refine (inBounds_cacheMatch inner ip).bind fun found _ => ?_
        split
        · exact inBounds_ok _
        · exact (inBounds_index inner).bind fun link _ => ih _
      next => exact inBounds_ok _

theorem inBounds_unlinkFrom {head : BitVec 16} (inner : head.toNat < size) (rounds : ℕ) {i : ℕ}
    {links : List (CacheEntry w)} (long : links.length = size) (inRange : i < size) :
    InBounds (unlinkFrom size head rounds i links) := by
  induction rounds generalizing i with
  | zero => rintro ⟨⟩
  | succ rounds ih =>
      rw [unlinkFrom]
      refine (inBounds_index (by rwa [long])).bind fun link _ => ?_
      split
      next more =>
        split
        · exact (inBounds_index (by rwa [long])).bind fun _ _ => inBounds_ok _
        · exact ih more
      next => exact inBounds_ok _

/-- Every hint of a valid entry names an entry. -/
def HintsWithin (links : List (CacheEntry w)) (size : ℕ) : Prop :=
  ∀ (i : ℕ) (link : CacheEntry w), links[i]? = some link → link.valid = true →
    link.hint.toNat ≤ size

/-- A write keeps the hints in range if the new entry's is. -/
theorem HintsWithin.set {i : ℕ} {link : CacheEntry w} (hints : HintsWithin links size)
    (within : link.valid = true → link.hint.toNat ≤ size) : HintsWithin (links.set i link) size := by
  intro j other found valid
  rw [List.getElem?_set] at found
  split at found
  · split at found
    · cases found
      exact within valid
    · cases found
  · exact hints j other found valid

theorem unlinkFrom_hints {head : BitVec 16} {rounds i : ℕ} {links' : List (CacheEntry w)}
    (hints : HintsWithin links size) (walked : unlinkFrom size head rounds i links = .ok links') :
    HintsWithin links' size := by
  induction rounds generalizing i with
  | zero => cases walked
  | succ rounds ih =>
      obtain ⟨link, isLink, rest⟩ := bind_eq_ok.mp walked
      split at rest
      · split at rest
        · obtain ⟨removed, -, result⟩ := bind_eq_ok.mp rest
          cases result
          exact hints.set (hints i link (index_eq_ok.mp isLink))
        · exact ih rest
      · cases rest
        exact hints

end Walks

/-! ## Installed caches -/

/-- A cache whose own indices are in range: the next entry to be replaced and
    the hints. -/
structure RsCache.Installed (cache : RsCache n w) (hash : List (BitVec 16))
    (links : List (CacheEntry w)) (buckets : List (RegState n w)) : Prop
    extends cache.Arrays hash links buckets where
  rrHead_lt : cache.rrHead.toNat < cacheSize cache.logSize
  hints : HintsWithin links (cacheSize cache.logSize)

/-- The entries that a cursor names are in a cache of this size. -/
structure Cursor.Within (c : Cursor n w τ) (size : ℕ) : Prop where
  hint : c.HintWithin size
  prevRs : c.prevRs.toNat < size

namespace RsCache.Installed

variable {cache : RsCache n w} {hash : List (BitVec 16)} {links : List (CacheEntry w)}
  {buckets : List (RegState n w)} {c : Cursor n w τ}

theorem inBounds_rsLookup (installed : cache.Installed hash links buckets)
    (within : c.HintWithin (cacheSize cache.logSize)) : InBounds (rsLookup cache c) := by
  refine (inBounds_notNull installed.isLinks).bind fun links' isLinks => ?_
  obtain rfl := Option.some.inj (installed.isLinks.symm.trans (notNull_eq_ok.mp isLinks))
  refine (inBounds_notNull installed.isHash).bind fun hash' isHash => ?_
  obtain rfl := Option.some.inj (installed.isHash.symm.trans (notNull_eq_ok.mp isHash))
  have byHint : InBounds (hintMatch links c) := by
    rw [hintMatch]
    split
    next hinted =>
      refine inBounds_cacheMatch ?_ c.ip
      have := within hinted
      have := cacheSize_pos cache.logSize
      rw [installed.linksLong]
      omega
    next => exact inBounds_ok _
  refine byHint.bind fun matched _ => ?_
  split
  · exact inBounds_ok _
  · have inHash : hashIndex c.ip cache.logSize < hash.length := by
      rw [installed.hashLong]
      exact hashIndex_lt c.ip cache.logSize
    exact (inBounds_index inHash).bind fun _ _ => inBounds_lookupChain installed.linksLong _ _ _

theorem inBounds_unlink (installed : cache.Installed hash links buckets) :
    InBounds (unlink cache cache.rrHead hash links) := by
  have inLinks : cache.rrHead.toNat < links.length := by
    rw [installed.linksLong]
    exact installed.rrHead_lt
  refine (inBounds_index inLinks).bind fun old _ => ?_
  split
  · exact inBounds_ok _
  · have inHash : hashIndex old.ip cache.logSize < hash.length := by
      rw [installed.hashLong]
      exact hashIndex_lt old.ip cache.logSize
    refine (inBounds_index inHash).bind fun first _ => ?_
    split
    next inner =>
      split
      · exact inBounds_ok _
      · exact (inBounds_unlinkFrom installed.rrHead_lt _ installed.linksLong inner).bind
          fun _ _ => inBounds_ok _
    next => exact inBounds_ok _

/-- Taking an entry out changes no length, and no hint. -/
theorem unlinked (installed : cache.Installed hash links buckets) {hash' : List (BitVec 16)}
    {links' : List (CacheEntry w)}
    (done : unlink cache cache.rrHead hash links = .ok (hash', links')) :
    hash'.length = hash.length ∧ links'.length = links.length ∧
      HintsWithin links' (cacheSize cache.logSize) := by
  have long : links'.length = links.length := by
    simpa using congrArg List.length (unlink_keys done)
  obtain ⟨⟨slot, next, rfl⟩, rfl⟩ | ⟨rfl, rounds, i, walk⟩ | ⟨rfl, rfl⟩ := unlink_cases done
  · exact ⟨List.length_set, long, installed.hints⟩
  · exact ⟨rfl, long, unlinkFrom_hints installed.hints walk⟩
  · exact ⟨rfl, long, installed.hints⟩

theorem inBounds_rsNew (installed : cache.Installed hash links buckets) (ip : Word w)
    (signalFrame : Bool) (rs : RegState n w) : InBounds (rsNew cache ip signalFrame rs) := by
  refine (inBounds_notNull installed.isHash).bind fun hash' isHash => ?_
  obtain rfl := Option.some.inj (installed.isHash.symm.trans (notNull_eq_ok.mp isHash))
  refine (inBounds_notNull installed.isLinks).bind fun links' isLinks => ?_
  obtain rfl := Option.some.inj (installed.isLinks.symm.trans (notNull_eq_ok.mp isLinks))
  refine (inBounds_notNull installed.isBuckets).bind fun buckets' isBuckets => ?_
  obtain rfl := Option.some.inj (installed.isBuckets.symm.trans (notNull_eq_ok.mp isBuckets))
  refine installed.inBounds_unlink.bind fun ⟨hash', links'⟩ done => ?_
  have inHash : hashIndex ip cache.logSize < hash'.length := by
    rw [(installed.unlinked done).1, installed.hashLong]
    exact hashIndex_lt ip cache.logSize
  refine (inBounds_index inHash).bind fun first _ => ?_
  refine (inBounds_index ?_).bind fun _ _ => inBounds_ok _
  rw [installed.bucketsLong]
  exact installed.rrHead_lt

/-- `rs_new` leaves an installed cache, and enters a valid entry. -/
theorem rsNew (installed : cache.Installed hash links buckets) {ip : Word w} {signalFrame : Bool}
    {rs : RegState n w} {cache' : RsCache n w} {i : ℕ}
    (entered : Dwarf.rsNew cache ip signalFrame rs = .ok (cache', i)) :
    ∃ hash' links' buckets', cache'.Installed hash' links' buckets' ∧
      cache'.logSize = cache.logSize ∧ ∃ link, links'[i]? = some link ∧ link.valid = true := by
  obtain ⟨_, _, _, hash', links', first, _, isHash, isLinks, isBuckets, done, isFirst, _, rfl, rfl⟩ :=
    rsNew_eq_ok.mp entered
  obtain rfl := Option.some.inj (installed.isHash.symm.trans isHash)
  obtain rfl := Option.some.inj (installed.isLinks.symm.trans isLinks)
  obtain rfl := Option.some.inj (installed.isBuckets.symm.trans isBuckets)
  obtain ⟨hashLong, linksLong, hints⟩ := installed.unlinked done
  have inLinks : cache.rrHead.toNat < links'.length := by
    rw [linksLong, installed.linksLong]
    exact installed.rrHead_lt
  refine ⟨_, _, _, ⟨⟨rfl, rfl, rfl, installed.logSize_le, ?_, ?_, ?_⟩, ?_, ?_⟩, rfl, _,
    List.getElem?_set_self inLinks, rfl⟩
  · rw [List.length_set, hashLong]
    exact installed.hashLong
  · rw [List.length_set, linksLong]
    exact installed.linksLong
  · rw [List.length_set]
    exact installed.bucketsLong
  · change ((cache.rrHead + 1) &&& (BitVec.ofNat 16 (cacheSize cache.logSize) - 1)).toNat < _
    rw [toNat_nextHead installed.logSize_le]
    exact Nat.mod_lt _ (cacheSize_pos _)
  · exact hints.set fun _ => Nat.zero_le _

/-- The update of the hints leads the cursor and an entry to entries of the
    cache. -/
theorem useEntry (installed : cache.Installed hash links buckets) (t : Target n w τ)
    (inRange : c.prevRs.toNat < cacheSize cache.logSize) {i : ℕ} {link : CacheEntry w}
    (isLink : links[i]? = some link) (valid : link.valid = true) :
    ∃ cache' c', Dwarf.useEntry t cache c i = .ok (cache', c') ∧
      (∃ links', cache'.Installed hash links' buckets) ∧ cache'.logSize = cache.logSize ∧
      cache'.generation = cache.generation ∧ c'.Within (cacheSize cache.logSize) := by
  have isPrevious := List.getElem?_eq_getElem
    (show c.prevRs.toNat < links.length by rwa [installed.linksLong])
  have inLinks : i < cacheSize cache.logSize := by
    rw [← installed.linksLong]
    exact (List.getElem?_eq_some_iff.mp isLink).1
  refine ⟨_, _, useEntry_eq_ok.mpr ⟨links, link, _, installed.isLinks, isLink, isPrevious, rfl, rfl⟩,
    ?_, rfl, rfl, ?_, ?_⟩
  · refine ⟨_, ⟨installed.isHash, rfl, installed.isBuckets, installed.logSize_le,
      installed.hashLong, ?_, installed.bucketsLong⟩, installed.rrHead_lt, ?_⟩
    · rw [List.length_set]
      exact installed.linksLong
    · refine installed.hints.set fun _ => ?_
      rw [BitVec.toNat_ofNat]
      exact (Nat.mod_le _ _).trans inLinks
  · exact fun _ => installed.hints i link isLink valid
  · rw [BitVec.toNat_ofNat]
    exact (Nat.mod_le _ _).trans_lt inLinks

end RsCache.Installed

/-! ## Visits -/

/-- The first visit of `find_reg_state` to a cache: the lookup, and on a hit the
    use of the entry. -/
def firstVisit (t : Target n w τ) (cache : RsCache n w) (c : Cursor n w τ) :
    Result (Option (RsCache n w × Cursor n w τ × RegState n w)) := do
  match ← rsLookup cache c with
  | none => pure none
  | some i =>
      let (c, rs) ← readEntry cache c i
      let (cache, c) ← useEntry t cache c i
      pure (some (cache, c, rs))

/-- The second visit, with the state that was computed meanwhile. -/
def secondVisit (t : Target n w τ) (cache : RsCache n w) (c : Cursor n w τ)
    (computed : RegState n w) : Result (RsCache n w × Cursor n w τ × RegState n w) := do
  let (cache, i, rs) ← enterState t cache c computed
  let (cache, c) ← useEntry t cache c i
  pure (cache, c, rs)

section Visits

variable {t : Target n w τ} {cache : RsCache n w} {hash : List (BitVec 16)}
  {links : List (CacheEntry w)} {buckets : List (RegState n w)} {c : Cursor n w τ}

/-- What a visit leaves: an installed cache of the same size, and a cursor that
    is within it. -/
def LeavesWithin (before after : RsCache n w) (c : Cursor n w τ) : Prop :=
  (∃ hash links buckets, after.Installed hash links buckets) ∧ after.logSize = before.logSize ∧
    after.generation = before.generation ∧ c.Within (cacheSize before.logSize)

theorem RsCache.Installed.found (installed : cache.Installed hash links buckets) {i : ℕ}
    (hit : rsLookup cache c = .ok (some i)) :
    (∃ link, links[i]? = some link ∧ link.valid = true) ∧ ∃ rs, buckets[i]? = some rs := by
  obtain ⟨links', link, isLinks, isLink, valid, -⟩ := rsLookup_found hit
  obtain rfl := Option.some.inj (installed.isLinks.symm.trans isLinks)
  have inRange : i < buckets.length := by
    rw [installed.bucketsLong, ← installed.linksLong]
    exact (List.getElem?_eq_some_iff.mp isLink).1
  exact ⟨⟨link, isLink, valid⟩, _, List.getElem?_eq_getElem inRange⟩

theorem firstVisit_within (installed : cache.Installed hash links buckets)
    (within : c.Within (cacheSize cache.logSize)) :
    InBounds (firstVisit t cache c) ∧ ∀ cache' c' rs,
      firstVisit t cache c = .ok (some (cache', c', rs)) → LeavesWithin cache cache' c' := by
  rw [firstVisit]
  cases lookedUp : rsLookup cache c with
  | error fault =>
      refine ⟨?_, fun _ _ _ visited => by cases visited⟩
      have := installed.inBounds_rsLookup within.hint
      rw [lookedUp] at this
      exact fun undefined => this (by cases undefined; rfl)
  | ok found =>
      cases found with
      | none => exact ⟨inBounds_ok _, fun _ _ _ visited => by cases visited⟩
      | some i =>
          obtain ⟨⟨link, isLink, valid⟩, rs, isRs⟩ := installed.found lookedUp
          obtain ⟨cache', c', used, ⟨links', installed'⟩, sameSize, sameGeneration, within'⟩ :=
            installed.useEntry (c := { c with usePrevInstr := !link.signalFrame }) t within.prevRs
              isLink valid
          have visited : (do
              let (c, rs) ← readEntry cache c i
              let (cache, c) ← useEntry t cache c i
              pure (some (cache, c, rs)) : Result _) = .ok (some (cache', c', rs)) := by
            rw [readEntry, notNull_eq_ok.mpr installed.isLinks, ok_bind,
              notNull_eq_ok.mpr installed.isBuckets, ok_bind, index_eq_ok.mpr isLink, ok_bind,
              index_eq_ok.mpr isRs, ok_bind, pure_eq_ok, ok_bind]
            dsimp only
            rw [used, ok_bind, pure_eq_ok]
          rw [ok_bind]
          dsimp only
          rw [visited]
          refine ⟨inBounds_ok _, ?_⟩
          rintro _ _ _ ⟨⟩
          exact ⟨⟨hash, links', buckets, installed'⟩, sameSize, sameGeneration, within'⟩

theorem enterState_installed (installed : cache.Installed hash links buckets)
    (within : c.HintWithin (cacheSize cache.logSize)) (computed : RegState n w) :
    InBounds (enterState t cache c computed) ∧ ∀ cache' i rs,
      enterState t cache c computed = .ok (cache', i, rs) →
        cache'.logSize = cache.logSize ∧ cache'.generation = cache.generation ∧
        ∃ hash' links' buckets', cache'.Installed hash' links' buckets' ∧
          ∃ link, links'[i]? = some link ∧ link.valid = true := by
  constructor
  · refine (installed.inBounds_rsLookup within).bind fun found lookedUp => ?_
    cases found with
    | none => exact (installed.inBounds_rsNew _ _ _).bind fun _ _ => inBounds_ok _
    | some i =>
        obtain ⟨-, rs, isRs⟩ := installed.found lookedUp
        refine (inBounds_notNull installed.isBuckets).bind fun buckets' isBuckets => ?_
        obtain rfl := Option.some.inj (installed.isBuckets.symm.trans (notNull_eq_ok.mp isBuckets))
        exact (inBounds_index (List.getElem?_eq_some_iff.mp isRs).1).bind fun _ _ => inBounds_ok _
  · intro cache' i rs entered
    obtain ⟨found, lookedUp, rest⟩ := bind_eq_ok.mp entered
    cases found with
    | none =>
        obtain ⟨⟨cache₁, i₁⟩, isNew, result⟩ := bind_eq_ok.mp rest
        cases result
        obtain ⟨hash', links', buckets', installed', sameSize, isValid⟩ := installed.rsNew isNew
        obtain ⟨_, _, _, _, _, _, _, -, -, -, -, -, -, rfl, -⟩ := rsNew_eq_ok.mp isNew
        exact ⟨sameSize, rfl, hash', links', buckets', installed', isValid⟩
    | some i₁ =>
        obtain ⟨_, -, rest⟩ := bind_eq_ok.mp rest
        obtain ⟨_, -, result⟩ := bind_eq_ok.mp rest
        cases result
        exact ⟨rfl, rfl, hash, links, buckets, installed, (installed.found lookedUp).1⟩

theorem secondVisit_within (installed : cache.Installed hash links buckets)
    (within : c.Within (cacheSize cache.logSize)) (computed : RegState n w) :
    InBounds (secondVisit t cache c computed) ∧ ∀ cache' c' rs,
      secondVisit t cache c computed = .ok (cache', c', rs) → LeavesWithin cache cache' c' := by
  obtain ⟨inBounds, leaves⟩ := enterState_installed (t := t) installed within.hint computed
  have used : ∀ cache₁ i rs, enterState t cache c computed = .ok (cache₁, i, rs) →
      ∃ cache' c', useEntry t cache₁ c i = .ok (cache', c') ∧ LeavesWithin cache cache' c' := by
    intro cache₁ i rs entered
    obtain ⟨sameSize, sameGeneration, hash', links', buckets', installed', link, isLink, valid⟩ :=
      leaves cache₁ i rs entered
    have prevRs := within.prevRs
    rw [← sameSize] at prevRs
    obtain ⟨cache', c', used, ⟨links'', installed''⟩, sameSize', sameGeneration', within'⟩ :=
      installed'.useEntry t prevRs isLink valid
    rw [sameSize] at within'
    exact ⟨cache', c', used, ⟨hash', links'', buckets', installed''⟩, sameSize'.trans sameSize,
      sameGeneration'.trans sameGeneration, within'⟩
  constructor
  · refine inBounds.bind fun ⟨cache₁, i, rs⟩ entered => ?_
    obtain ⟨cache', c', isUsed, -⟩ := used cache₁ i rs entered
    dsimp only
    rw [isUsed]
    exact inBounds_ok _
  · intro cache' c' rs visited
    obtain ⟨⟨cache₁, i, rs₁⟩, entered, rest⟩ := bind_eq_ok.mp visited
    obtain ⟨cache₂, c₂, isUsed, within'⟩ := used cache₁ i rs₁ entered
    obtain ⟨⟨cache₃, c₃⟩, isUsed', result⟩ := bind_eq_ok.mp rest
    rw [isUsed] at isUsed'
    cases isUsed'
    cases result
    exact within'

end Visits

end Libunwind.Dwarf
