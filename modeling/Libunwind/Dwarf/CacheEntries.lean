import Libunwind.Dwarf.FindRegState

/-! # The entries of the register-state cache

What a lookup, a new entry, an update of the hints and a flush do to the set of
valid entries. The collision chains only decide which of them are found.
-/

namespace Libunwind.Dwarf

variable {n w : Nat} {τ : Type}

/-- What a lookup reads of an entry. -/
def CacheEntry.key (link : CacheEntry w) : Word w × Bool × Bool :=
  (link.ip, link.valid, link.signalFrame)

/-- Entry `i` is a valid one, with this content. -/
def RsCache.Holds (cache : RsCache n w) (i : Nat) (ip : Word w) (signalFrame : Bool)
    (rs : RegState n w) : Prop :=
  ∃ links buckets, cache.links = some links ∧ cache.buckets = some buckets ∧
    (links.map CacheEntry.key)[i]? = some (ip, true, signalFrame) ∧ buckets[i]? = some rs

theorem index_eq_ok {α : Type} {array : List α} {i : Nat} {a : α} :
    index array i = .ok a ↔ array[i]? = some a := by
  unfold index
  cases array[i]? <;> simp

theorem notNull_eq_ok {α : Type} {pointer : Option α} {a : α} :
    notNull pointer = .ok a ↔ pointer = some a := by
  unfold notNull
  cases pointer <;> simp

/-- A write to an entry that keeps its key keeps all keys. -/
theorem keys_set {links : List (CacheEntry w)} {i : Nat} {link link' : CacheEntry w}
    (found : links[i]? = some link) (same : link'.key = link.key) :
    (links.set i link').map CacheEntry.key = links.map CacheEntry.key := by
  obtain ⟨inRange, rfl⟩ := List.getElem?_eq_some_iff.mp found
  apply List.ext_getElem (by simp)
  intro j hj hj'
  simp only [List.map_set, List.getElem_set, List.getElem_map]
  split
  next here =>
    subst here
    exact same
  next => rfl

theorem cacheMatch_eq_true {links : List (CacheEntry w)} {i : Nat} {ip : Word w}
    (found : cacheMatch links i ip = .ok true) :
    ∃ link, links[i]? = some link ∧ link.valid = true ∧ link.ip = ip := by
  obtain ⟨link, read, matched⟩ := bind_eq_ok.mp found
  have matched := Except.ok.inj matched
  rw [Bool.and_eq_true, beq_iff_eq] at matched
  exact ⟨link, index_eq_ok.mp read, matched.1, matched.2.symm⟩

theorem lookupChain_found {links : List (CacheEntry w)} {size : Nat} {ip : Word w} {i : Nat} :
    ∀ {rounds start}, lookupChain links size ip rounds start = .ok (some i) →
      cacheMatch links i ip = .ok true := by
  intro rounds
  induction rounds with
  | zero => intro start found; exact nomatch found
  | succ rounds ih =>
      intro start found
      rw [lookupChain] at found
      split at found
      next =>
        obtain ⟨matched, isMatch, rest⟩ := bind_eq_ok.mp found
        cases matched with
        | true =>
            obtain rfl : start = i := by simpa using rest
            exact isMatch
        | false =>
            obtain ⟨link, -, rest⟩ := bind_eq_ok.mp rest
            exact ih rest
      next => exact nomatch found

/-- The entry that a lookup finds is a valid one for the cursor's `ip`. -/
theorem rsLookup_found {cache : RsCache n w} {c : Cursor n w τ} {i : Nat}
    (found : rsLookup cache c = .ok (some i)) :
    ∃ links link, cache.links = some links ∧ links[i]? = some link ∧ link.valid = true ∧
      link.ip = c.ip := by
  obtain ⟨links, isLinks, rest⟩ := bind_eq_ok.mp found
  obtain ⟨hash, -, rest⟩ := bind_eq_ok.mp rest
  obtain ⟨fromHint, hinted, rest⟩ := bind_eq_ok.mp rest
  have matched : cacheMatch links i c.ip = .ok true := by
    cases fromHint with
    | true =>
        obtain rfl : c.hint.toNat - 1 = i := by simpa using rest
        rw [hintMatch] at hinted
        split at hinted
        · exact hinted
        · exact nomatch hinted
    | false =>
        obtain ⟨first, -, rest⟩ := bind_eq_ok.mp rest
        exact lookupChain_found rest
  obtain ⟨link, read, valid, sameIp⟩ := cacheMatch_eq_true matched
  exact ⟨links, link, notNull_eq_ok.mp isLinks, read, valid, sameIp⟩

/-- What a hit delivers is a valid entry's content. -/
theorem readEntry_holds {cache : RsCache n w} {c c' : Cursor n w τ} {i : Nat} {rs}
    (found : rsLookup cache c = .ok (some i)) (read : readEntry cache c i = .ok (c', rs)) :
    ∃ signalFrame, cache.Holds i c.ip signalFrame rs ∧
      c' = { c with usePrevInstr := !signalFrame } := by
  obtain ⟨links, link, isLinks, isLink, valid, sameIp⟩ := rsLookup_found found
  obtain ⟨links', isLinks', rest⟩ := bind_eq_ok.mp read
  obtain ⟨buckets, isBuckets, rest⟩ := bind_eq_ok.mp rest
  obtain ⟨link', isLink', rest⟩ := bind_eq_ok.mp rest
  obtain ⟨rs', isRs, result⟩ := bind_eq_ok.mp rest
  obtain ⟨rfl, rfl⟩ := Prod.mk.inj (Except.ok.inj result)
  obtain rfl : links = links' := Option.some.inj (isLinks.symm.trans (notNull_eq_ok.mp isLinks'))
  obtain rfl : link = link' := Option.some.inj (isLink.symm.trans (index_eq_ok.mp isLink'))
  refine ⟨link.signalFrame, ⟨links, buckets, isLinks, notNull_eq_ok.mp isBuckets, ?_,
    index_eq_ok.mp isRs⟩, rfl⟩
  simp only [List.getElem?_map, isLink, Option.map_some, CacheEntry.key, valid, sameIp]

theorem unlinkFrom_keys {size : Nat} {head : BitVec 16} :
    ∀ {rounds i} {links links' : List (CacheEntry w)},
      unlinkFrom size head rounds i links = .ok links' →
        links'.map CacheEntry.key = links.map CacheEntry.key := by
  intro rounds
  induction rounds with
  | zero => intro i links links' done; exact nomatch done
  | succ rounds ih =>
      intro i links links' done
      obtain ⟨link, isLink, rest⟩ := bind_eq_ok.mp done
      split at rest
      next =>
        split at rest
        next =>
          obtain ⟨removed, -, result⟩ := bind_eq_ok.mp rest
          rw [← Except.ok.inj result]
          exact keys_set (index_eq_ok.mp isLink) rfl
        next => exact ih rest
      next => rw [← Except.ok.inj rest]

/-- Taking an entry out writes one slot of `hash`, or one link, or nothing. -/
theorem unlink_cases {cache : RsCache n w} {head : BitVec 16} {hash hash' : List (BitVec 16)}
    {links links' : List (CacheEntry w)}
    (done : unlink cache head hash links = .ok (hash', links')) :
    ((∃ slot next, hash' = hash.set slot next) ∧ links' = links) ∨
      (hash' = hash ∧ ∃ rounds i,
        unlinkFrom (cacheSize cache.logSize) head rounds i links = .ok links') ∨
      (hash' = hash ∧ links' = links) := by
  obtain ⟨old, -, rest⟩ := bind_eq_ok.mp done
  split at rest
  · cases rest
    exact .inr (.inr ⟨rfl, rfl⟩)
  · obtain ⟨first, -, rest⟩ := bind_eq_ok.mp rest
    split at rest
    · split at rest
      · cases rest
        exact .inl ⟨⟨_, _, rfl⟩, rfl⟩
      · obtain ⟨walked, walk, result⟩ := bind_eq_ok.mp rest
        cases result
        exact .inr (.inl ⟨rfl, _, _, walk⟩)
    · cases rest
      exact .inr (.inr ⟨rfl, rfl⟩)

theorem unlink_keys {cache : RsCache n w} {head : BitVec 16} {hash hash' : List (BitVec 16)}
    {links links' : List (CacheEntry w)}
    (done : unlink cache head hash links = .ok (hash', links')) :
    links'.map CacheEntry.key = links.map CacheEntry.key := by
  obtain ⟨-, rfl⟩ | ⟨-, rounds, i, walk⟩ | ⟨-, rfl⟩ := unlink_cases done
  · rfl
  · exact unlinkFrom_keys walk
  · rfl

/-- `rs_new` enters one entry; every other one was there before. -/
theorem rsNew_holds {cache cache' : RsCache n w} {ip : Word w} {signalFrame : Bool} {rs head}
    (entered : rsNew cache ip signalFrame rs = .ok (cache', head)) {j ip' signalFrame' rs'}
    (holds : cache'.Holds j ip' signalFrame' rs') :
    (ip' = ip ∧ signalFrame' = signalFrame ∧ rs' = rs) ∨ cache.Holds j ip' signalFrame' rs' := by
  obtain ⟨hash, -, rest⟩ := bind_eq_ok.mp entered
  obtain ⟨links, isLinks, rest⟩ := bind_eq_ok.mp rest
  obtain ⟨buckets, isBuckets, rest⟩ := bind_eq_ok.mp rest
  obtain ⟨⟨hash', links'⟩, unlinked, rest⟩ := bind_eq_ok.mp rest
  obtain ⟨first, -, rest⟩ := bind_eq_ok.mp rest
  obtain ⟨_, -, result⟩ := bind_eq_ok.mp rest
  obtain ⟨rfl, rfl⟩ := Prod.mk.inj (Except.ok.inj result)
  obtain ⟨_, _, links'', buckets'', isKey, isBucket⟩ := holds
  obtain rfl := Option.some.inj links''
  obtain rfl := Option.some.inj buckets''
  rw [List.map_set, List.getElem?_set] at isKey
  rw [List.getElem?_set] at isBucket
  split at isKey
  next here =>
    left
    rw [if_pos here] at isBucket
    split at isKey
    · split at isBucket
      · obtain ⟨rfl, -, rfl⟩ : ip = ip' ∧ true = true ∧ signalFrame = signalFrame' := by
          simpa [CacheEntry.key] using isKey
        exact ⟨rfl, rfl, (Option.some.inj isBucket).symm⟩
      · exact nomatch isBucket
    · exact nomatch isKey
  next elsewhere =>
    right
    rw [if_neg elsewhere] at isBucket
    refine ⟨links, buckets, notNull_eq_ok.mp isLinks, notNull_eq_ok.mp isBuckets, ?_, isBucket⟩
    rw [← unlink_keys unlinked]
    exact isKey

theorem useEntry_eq_ok {t : Target n w τ} {cache cache' : RsCache n w} {c c' : Cursor n w τ} {i} :
    useEntry t cache c i = .ok (cache', c') ↔
      ∃ links link previous, cache.links = some links ∧ links[i]? = some link ∧
        links[c.prevRs.toNat]? = some previous ∧
        { cache with
          links := some (links.set c.prevRs.toNat
            { previous with hint := BitVec.ofNat 16 (i + 1) }) } = cache' ∧
        { c with
          hint := link.hint
          prevRs := BitVec.ofNat 16 i
          tdep := t.reuseFrame { c with hint := link.hint, prevRs := BitVec.ofNat 16 i }
            link.signalFrame } = c' := by
  simp only [useEntry, bind_eq_ok, notNull_eq_ok, index_eq_ok, pure_eq_ok, Except.ok.injEq,
    Prod.mk.injEq]
  constructor
  · rintro ⟨links, isLinks, link, isLink, previous, isPrevious, rfl, rfl⟩
    exact ⟨links, link, previous, isLinks, isLink, isPrevious, rfl, rfl⟩
  · rintro ⟨links, link, previous, isLinks, isLink, isPrevious, rfl, rfl⟩
    exact ⟨links, isLinks, link, isLink, previous, isPrevious, rfl, rfl⟩

theorem useEntry_holds {t : Target n w τ} {cache cache' : RsCache n w} {c c' : Cursor n w τ} {i}
    (used : useEntry t cache c i = .ok (cache', c')) {j ip signalFrame rs} :
    cache'.Holds j ip signalFrame rs → cache.Holds j ip signalFrame rs := by
  obtain ⟨links, link, previous, isLinks, -, isPrevious, rfl, rfl⟩ := useEntry_eq_ok.mp used
  rintro ⟨_, buckets, links', isBuckets, isKey, isBucket⟩
  obtain rfl := Option.some.inj links'
  have kept : { previous with hint := BitVec.ofNat 16 (i + 1) }.key = previous.key := rfl
  rw [keys_set isPrevious kept] at isKey
  exact ⟨links, buckets, isLinks, isBuckets, isKey, isBucket⟩

/-- A flush leaves no valid entry. -/
theorem install_empty (cache : RsCache n w) (memory : CacheMemory n w) (logSize : Nat) {i ip}
    {signalFrame : Bool} {rs} : ¬ (cache.install memory logSize).Holds i ip signalFrame rs := by
  rintro ⟨_, buckets, links, -, isKey, -⟩
  obtain rfl := Option.some.inj links
  simp [CacheEntry.key] at isKey

end Libunwind.Dwarf
