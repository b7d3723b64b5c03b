import Libunwind.Library.ChainedTable
import Libunwind.Library.RoundRobin
import Libunwind.Dwarf.CacheEntries

/-! # The hash table of the register-state cache

`hash` and the `coll_chain` fields make a chained table of the valid entries,
whose cells are used round robin. `rs_new` keeps it one unless the entry that it
replaces is valid and has the `ip` 0: that entry is taken for one that is not in
the table.
-/

namespace Libunwind.Dwarf

open ChainedTable RoundRobin

variable {n w : Nat} {τ : Type}

/-! ## The arrays as a table -/

def headOf (hash : List (BitVec 16)) (slot : ℕ) : ℕ := (hash[slot]?.getD (-1)).toNat

def nextOf (links : List (CacheEntry w)) (i : ℕ) : ℕ :=
  ((links[i]?.map CacheEntry.collChain).getD (-1)).toNat

/-- The `ip` of a valid entry. -/
def CacheEntry.validIp (link : CacheEntry w) : Option (Word w) :=
  if link.valid then some link.ip else none

def entryIp (links : List (CacheEntry w)) (i : ℕ) : Option (Word w) :=
  links[i]?.bind CacheEntry.validIp

/-- The slot in whose chain an entry belongs. -/
def slotOf (logSize : ℕ) (links : List (CacheEntry w)) (i : ℕ) : Option ℕ :=
  (entryIp links i).map (hashIndex · logSize)

section Arrays

variable {hash : List (BitVec 16)} {links links' : List (CacheEntry w)} {link : CacheEntry w}
  {slot i : ℕ}

theorem headOf_eq {head : BitVec 16} (found : hash[slot]? = some head) :
    headOf hash slot = head.toNat := by
  rw [headOf, found, Option.getD_some]

theorem nextOf_eq (found : links[i]? = some link) : nextOf links i = link.collChain.toNat := by
  rw [nextOf, found, Option.map_some, Option.getD_some]

theorem entryIp_eq (found : links[i]? = some link) : entryIp links i = link.validIp := by
  rw [entryIp, found, Option.bind_some]

theorem headOf_set (inRange : slot < hash.length) (head : BitVec 16) :
    headOf (hash.set slot head) = Function.update (headOf hash) slot head.toNat := by
  funext other
  by_cases same : other = slot
  · subst same
    rw [Function.update_self, headOf_eq (List.getElem?_set_self inRange)]
  · rw [Function.update_of_ne same, headOf, headOf, List.getElem?_set_ne (Ne.symm same)]

theorem nextOf_set (inRange : i < links.length) (link : CacheEntry w) :
    nextOf (links.set i link) = Function.update (nextOf links) i link.collChain.toNat := by
  funext j
  by_cases same : j = i
  · subst same
    rw [Function.update_self, nextOf_eq (List.getElem?_set_self inRange)]
  · rw [Function.update_of_ne same, nextOf, nextOf, List.getElem?_set_ne (Ne.symm same)]

theorem entryIp_set (inRange : i < links.length) (link : CacheEntry w) :
    entryIp (links.set i link) = Function.update (entryIp links) i link.validIp := by
  funext j
  by_cases same : j = i
  · subst same
    rw [Function.update_self, entryIp_eq (List.getElem?_set_self inRange)]
  · rw [Function.update_of_ne same, entryIp, entryIp, List.getElem?_set_ne (Ne.symm same)]

theorem slotOf_set (logSize : ℕ) (inRange : i < links.length) (link : CacheEntry w) :
    slotOf logSize (links.set i link) =
      Function.update (slotOf logSize links) i (link.validIp.map (hashIndex · logSize)) := by
  funext j
  rw [slotOf, entryIp_set inRange]
  by_cases same : j = i
  · subst same
    rw [Function.update_self, Function.update_self]
  · rw [Function.update_of_ne same, Function.update_of_ne same, slotOf]

/-- Entries with the same keys hold the same. -/
theorem entryIp_congr (same : links'.map CacheEntry.key = links.map CacheEntry.key) :
    entryIp links' = entryIp links := by
  funext i
  have := congrArg (fun keys => keys[i]?) same
  simp only [List.getElem?_map] at this
  rw [entryIp, entryIp]
  cases here : links'[i]? <;> cases there : links[i]? <;>
    simp_all [CacheEntry.key, CacheEntry.validIp]

theorem slotOf_congr (logSize : ℕ) (same : links'.map CacheEntry.key = links.map CacheEntry.key) :
    slotOf logSize links' = slotOf logSize links := by
  funext i
  rw [slotOf, slotOf, entryIp_congr same]

theorem hashIndex_lt (ip : Word w) (logSize : ℕ) : hashIndex ip logSize < hashSize logSize := by
  refine (Nat.mod_le _ _).trans_lt ?_
  rw [BitVec.toNat_ushiftRight, Nat.shiftRight_eq_div_pow, hashSize]
  rw [Nat.div_lt_iff_lt_mul (by positivity), ← pow_add]
  exact (BitVec.isLt _).trans_le (Nat.pow_le_pow_right (by norm_num) (by omega))

end Arrays

/-! ## Walks -/

section Walks

variable {links : List (CacheEntry w)} {size : ℕ} {i : ℕ} {cells : List ℕ}

theorem exists_link (long : links.length = size) (inner : ¬ size ≤ i) :
    ∃ link, links[i]? = some link := by
  have : i < links.length := by omega
  exact ⟨links[i], List.getElem?_eq_getElem this⟩

theorem cacheMatch_eq {link : CacheEntry w} {ip : Word w} (found : links[i]? = some link) :
    cacheMatch links i ip = .ok (entryIp links i == some ip) := by
  rw [cacheMatch, index_eq_ok.mpr found, ok_bind, pure_eq_ok, entryIp_eq found,
    CacheEntry.validIp]
  cases link.valid
  · rfl
  · simp [Bool.beq_comm]

/-- The walk of a lookup searches the cells of its chain. -/
theorem lookupChain_eq {ip : Word w} (long : links.length = size)
    (chain : Chain (nextOf links) (size ≤ ·) i cells) {rounds : ℕ} (enough : cells.length < rounds) :
    lookupChain links size ip rounds i = .ok (cells.find? (entryIp links · == some ip)) := by
  induction chain generalizing rounds with
  | nil stops =>
      cases rounds with
      | zero => exact absurd enough (Nat.not_lt_zero _)
      | succ rounds => rw [lookupChain, if_neg (not_lt.mpr stops), List.find?_nil, pure_eq_ok]
  | @cons i rest goes _ ih =>
      cases rounds with
      | zero => exact absurd enough (Nat.not_lt_zero _)
      | succ rounds =>
          obtain ⟨link, found⟩ := exists_link long goes
          rw [lookupChain, if_pos (not_le.mp goes), cacheMatch_eq found, ok_bind]
          cases matched : entryIp links i == some ip with
          | true => rw [if_pos rfl, List.find?_cons, matched, pure_eq_ok]
          | false =>
              rw [if_neg Bool.false_ne_true, index_eq_ok.mpr found, ok_bind,
                List.find?_cons, matched, ← nextOf_eq found]
              exact ih (Nat.lt_of_succ_lt_succ enough)

/-- The walk of `rs_new` passes over `head` from its predecessor `y`. -/
theorem unlinkFrom_eq {head : BitVec 16} (long : links.length = size) {y : ℕ}
    {link removed : CacheEntry w} (isLink : links[y]? = some link)
    (isRemoved : links[head.toNat]? = some removed) {before after : List ℕ} {rounds : ℕ}
    (chain : Chain (nextOf links) (size ≤ ·) i (before ++ y :: head.toNat :: after))
    (enough : before.length < rounds) :
    unlinkFrom size head rounds i links =
      .ok (links.set y { link with collChain := removed.collChain }) := by
  induction before generalizing i rounds with
  | nil =>
      cases rounds with
      | zero => exact absurd enough (Nat.not_lt_zero _)
      | succ rounds =>
          obtain ⟨rfl, -, rest⟩ := Chain.cons_iff.mp chain
          obtain ⟨isHead, inner, -⟩ := Chain.cons_iff.mp rest
          rw [nextOf_eq isLink] at isHead
          rw [unlinkFrom, index_eq_ok.mpr isLink, ok_bind, isHead, if_pos (not_le.mp inner),
            if_pos (BitVec.eq_of_toNat_eq isHead), index_eq_ok.mpr isRemoved, ok_bind, pure_eq_ok]
  | cons b before ih =>
      cases rounds with
      | zero => exact absurd enough (Nat.not_lt_zero _)
      | succ rounds =>
          have distinct := chain.nodup
          obtain ⟨rfl, goes, rest⟩ := Chain.cons_iff.mp chain
          obtain ⟨next, isNext⟩ := exists_link long goes
          rw [nextOf_eq isNext] at rest
          -- the chain goes on to an entry that is not `head`
          have goesOn : next.collChain.toNat < size ∧ next.collChain ≠ head := by
            cases before with
            | nil =>
                obtain ⟨isY, inner, -⟩ := Chain.cons_iff.mp rest
                refine ⟨by omega, ?_⟩
                rintro rfl
                simp [isY] at distinct
            | cons c before =>
                obtain ⟨isC, inner, -⟩ := Chain.cons_iff.mp rest
                refine ⟨by omega, ?_⟩
                rintro rfl
                simp [isC] at distinct
          rw [unlinkFrom, index_eq_ok.mpr isNext, ok_bind, if_pos goesOn.1, if_neg goesOn.2]
          exact ih rest (Nat.lt_of_succ_lt_succ enough)

end Walks

/-! ## The invariant -/

/-- The cache that `rs_new` leaves, when `unlink` leaves these arrays. -/
def RsCache.entered (cache : RsCache n w) (hash : List (BitVec 16)) (links : List (CacheEntry w))
    (buckets : List (RegState n w)) (first : BitVec 16) (ip : Word w) (signalFrame : Bool)
    (rs : RegState n w) : RsCache n w :=
  { cache with
    rrHead := (cache.rrHead + 1) &&& (BitVec.ofNat 16 (cacheSize cache.logSize) - 1)
    hash := some (hash.set (hashIndex ip cache.logSize) cache.rrHead)
    links := some (links.set cache.rrHead.toNat
      { ip, collChain := first, hint := 0, valid := true, signalFrame })
    buckets := some (buckets.set cache.rrHead.toNat rs) }

@[simp] theorem RsCache.entered_logSize (cache : RsCache n w) (hash links buckets first ip)
    (signalFrame : Bool) (rs : RegState n w) :
    (cache.entered hash links buckets first ip signalFrame rs).logSize = cache.logSize := rfl

theorem rsNew_eq_ok {cache cache' : RsCache n w} {ip : Word w} {signalFrame : Bool}
    {rs : RegState n w} {i : ℕ} :
    rsNew cache ip signalFrame rs = .ok (cache', i) ↔
      ∃ hash links buckets hash' links' first bucket, cache.hash = some hash ∧
        cache.links = some links ∧ cache.buckets = some buckets ∧
        unlink cache cache.rrHead hash links = .ok (hash', links') ∧
        hash'[hashIndex ip cache.logSize]? = some first ∧
        buckets[cache.rrHead.toNat]? = some bucket ∧
        cache.entered hash' links' buckets first ip signalFrame rs = cache' ∧
        cache.rrHead.toNat = i := by
  simp only [rsNew, bind_eq_ok, notNull_eq_ok, index_eq_ok, pure_eq_ok, Except.ok.injEq,
    Prod.mk.injEq, Prod.exists]
  constructor
  · rintro ⟨hash, isHash, links, isLinks, buckets, isBuckets, hash', links', unlinked, first,
      isFirst, bucket, isBucket, rfl, rfl⟩
    exact ⟨hash, links, buckets, hash', links', first, bucket, isHash, isLinks, isBuckets,
      unlinked, isFirst, isBucket, rfl, rfl⟩
  · rintro ⟨hash, links, buckets, hash', links', first, bucket, isHash, isLinks, isBuckets,
      unlinked, isFirst, isBucket, rfl, rfl⟩
    exact ⟨hash, isHash, links, isLinks, buckets, isBuckets, hash', links', unlinked, first,
      isFirst, bucket, isBucket, rfl, rfl⟩

/-- The cursor's hint names an entry of a cache of this size, if it names one. -/
def Cursor.HintWithin (c : Cursor n w τ) (size : ℕ) : Prop :=
  0 < c.hint.toInt → c.hint.toNat ≤ size

instance decidableHintWithin (c : Cursor n w τ) (size : ℕ) : Decidable (c.HintWithin size) :=
  inferInstanceAs (Decidable (_ → _))

/-- The entry that `rs_new` replaces is not a valid one with the `ip` 0. -/
def RsCache.Replaceable (cache : RsCache n w) : Prop :=
  ∀ links, cache.links = some links → entryIp links cache.rrHead.toNat ≠ some 0

/-- A cache that has its arrays, each of the size that `logSize` gives. -/
structure RsCache.Arrays (cache : RsCache n w) (hash : List (BitVec 16))
    (links : List (CacheEntry w)) (buckets : List (RegState n w)) : Prop where
  isHash : cache.hash = some hash
  isLinks : cache.links = some links
  isBuckets : cache.buckets = some buckets
  logSize_le : cache.logSize ≤ 15
  hashLong : hash.length = hashSize cache.logSize
  linksLong : links.length = cacheSize cache.logSize
  bucketsLong : buckets.length = cacheSize cache.logSize

/-- A cache whose arrays make a chained table of the last entries that were
    made; `inserted` lists their instruction pointers from the last one. -/
structure RsCache.IsTable (cache : RsCache n w) (inserted : List (Word w))
    (hash : List (BitVec 16)) (links : List (CacheEntry w)) (buckets : List (RegState n w)) : Prop
    extends cache.Arrays hash links buckets where
  rrHead : cache.rrHead.toNat = inserted.length % cacheSize cache.logSize
  entries : ∀ i < cacheSize cache.logSize,
    entryIp links i = lastIn (cacheSize cache.logSize) inserted i
  unused : ∀ (i : ℕ) (link : CacheEntry w),
    links[i]? = some link → link.valid = false → link.ip = 0
  keyed : Keyed (cacheSize cache.logSize ≤ ·) (headOf hash) (nextOf links)
    (slotOf cache.logSize links)

theorem cacheSize_pos (logSize : ℕ) : 0 < cacheSize logSize := Nat.two_pow_pos logSize

theorem cacheSize_le {logSize : ℕ} (small : logSize ≤ 15) : cacheSize logSize ≤ 32768 :=
  Nat.pow_le_pow_right (by norm_num) small

/-- The head moves on round robin. -/
theorem toNat_nextHead {logSize : ℕ} (small : logSize ≤ 15) (head : BitVec 16) :
    ((head + 1) &&& (BitVec.ofNat 16 (cacheSize logSize) - 1)).toNat =
      (head.toNat + 1) % cacheSize logSize := by
  have le := cacheSize_le small
  have pos := cacheSize_pos logSize
  have mask : (BitVec.ofNat 16 (cacheSize logSize) - 1).toNat = 2 ^ logSize - 1 := by
    rw [← cacheSize]
    bv_omega
  have divides : cacheSize logSize ∣ 2 ^ 16 := pow_dvd_pow 2 (by omega)
  rw [BitVec.toNat_and, mask, Nat.and_two_pow_sub_one_eq_mod, BitVec.toNat_add]
  exact Nat.mod_mod_of_dvd _ divides

/-- A flush leaves the empty table. -/
theorem isTable_install (cache : RsCache n w) (memory : CacheMemory n w) {logSize : ℕ}
    (small : logSize ≤ 15) :
    ∃ hash links buckets, (cache.install memory logSize).IsTable [] hash links buckets := by
  have isReset : ∀ (i : ℕ) (link : CacheEntry w),
      ((cache.install memory logSize).links.getD [])[i]? = some link →
      link.valid = false ∧ link.ip = 0 := by
    intro i link found
    obtain ⟨_, -, rfl⟩ := Option.map_eq_some_iff.mp (List.getElem?_map.symm.trans found)
    exact ⟨rfl, rfl⟩
  have noEntry : ∀ i, entryIp ((cache.install memory logSize).links.getD []) i = none := by
    intro i
    rw [entryIp, Option.bind_eq_none_iff]
    intro link found
    rw [CacheEntry.validIp, (isReset i link found).1, if_neg Bool.false_ne_true]
  refine ⟨_, _, _, ⟨rfl, rfl, rfl, small, ?_, ?_, ?_⟩, (Nat.zero_mod _).symm, ?_, ?_, ?_⟩
  · exact List.length_replicate
  · simp [RsCache.install]
  · simp [RsCache.install]
  · exact fun i _ => noEntry i
  · exact fun i link found _ => (isReset i link found).2
  · refine Keyed.of_empty (fun slot => ?_) fun i => by
      rw [slotOf]
      exact congrArg _ (noEntry i)
    have stops : headOf (List.replicate (hashSize logSize) (-1)) slot = 65535 := by
      rw [headOf, List.getElem?_replicate]
      split <;> rfl
    rw [stops]
    exact (cacheSize_le small).trans (by norm_num)

namespace RsCache.IsTable

variable {cache : RsCache n w} {inserted : List (Word w)} {hash : List (BitVec 16)}
  {links : List (CacheEntry w)} {buckets : List (RegState n w)}

theorem rrHead_lt (table : cache.IsTable inserted hash links buckets) :
    cache.rrHead.toNat < cacheSize cache.logSize := by
  rw [table.rrHead]
  exact Nat.mod_lt _ (cacheSize_pos _)

theorem exists_head (table : cache.IsTable inserted hash links buckets) (ip : Word w) :
    ∃ head, hash[hashIndex ip cache.logSize]? = some head := by
  have inRange := hashIndex_lt ip cache.logSize
  rw [← table.hashLong] at inRange
  exact ⟨_, List.getElem?_eq_getElem inRange⟩

/-- Taking out an entry that is not a valid one with the `ip` 0. -/
theorem unlink_eq (table : cache.IsTable inserted hash links buckets) {head : BitVec 16}
    (inRange : head.toNat < cacheSize cache.logSize)
    (replaceable : entryIp links head.toNat ≠ some 0) :
    ∃ hash' links', unlink cache head hash links = .ok (hash', links') ∧
      hash'.length = hash.length ∧ links'.map CacheEntry.key = links.map CacheEntry.key ∧
      Keyed (cacheSize cache.logSize ≤ ·) (headOf hash') (nextOf links')
        (Function.update (slotOf cache.logSize links) head.toNat none) := by
  obtain ⟨old, isOld⟩ := exists_link table.linksLong (not_le.mpr inRange)
  rw [entryIp_eq isOld, CacheEntry.validIp] at replaceable
  by_cases zero : old.ip = 0
  · have invalid : old.valid = false := by
      cases isValid : old.valid with
      | false => rfl
      | true => exact absurd (by rw [isValid, zero, if_pos rfl]) replaceable
    have free : slotOf cache.logSize links head.toNat = none := by
      rw [slotOf, entryIp_eq isOld, CacheEntry.validIp, invalid, if_neg Bool.false_ne_true,
        Option.map_none]
    refine ⟨hash, links, ?_, rfl, rfl, ?_⟩
    · rw [unlink, index_eq_ok.mpr isOld, ok_bind, if_pos zero, pure_eq_ok]
    · rw [← free, Function.update_eq_self]
      exact table.keyed
  · have valid : old.valid = true := by
      by_contra invalid
      exact zero (table.unused _ old isOld (Bool.eq_false_iff.mpr invalid))
    obtain ⟨first, isFirst⟩ := table.exists_head old.ip
    have mine : slotOf cache.logSize links head.toNat = some (hashIndex old.ip cache.logSize) := by
      rw [slotOf, entryIp_eq isOld, CacheEntry.validIp, if_pos valid, Option.map_some]
    obtain ⟨cells, chain, mem⟩ := table.keyed (hashIndex old.ip cache.logSize)
    have member : head.toNat ∈ cells := (mem _).mpr mine
    have slotInRange := (List.getElem?_eq_some_iff.mp isFirst).1
    have firstInner : first.toNat < cacheSize cache.logSize := by
      rw [headOf_eq isFirst] at chain
      cases cells with
      | nil => exact absurd member List.not_mem_nil
      | cons a rest =>
          obtain ⟨isA, inner, -⟩ := Chain.cons_iff.mp chain
          rw [isA]
          exact not_le.mp inner
    rw [unlink, index_eq_ok.mpr isOld, ok_bind, if_neg zero]
    dsimp only
    rw [index_eq_ok.mpr isFirst, ok_bind, if_pos firstInner]
    by_cases atHead : first = head
    · subst atHead
      refine ⟨_, links, by rw [if_pos rfl, pure_eq_ok], List.length_set, rfl, ?_⟩
      rw [headOf_set slotInRange, ← nextOf_eq isOld]
      exact table.keyed.removeFirst mine (headOf_eq isFirst)
    · obtain ⟨before, after, rfl⟩ := List.append_of_mem member
      -- the entry is not the first, so another one leads to it
      rcases before.eq_nil_or_concat with rfl | ⟨before, y, rfl⟩
      · rw [headOf_eq isFirst] at chain
        exact absurd (BitVec.eq_of_toNat_eq (Chain.cons_iff.mp chain).1) atHead
      · rw [List.concat_eq_append, List.append_assoc, List.singleton_append] at chain
        obtain ⟨link, isLink⟩ := exists_link table.linksLong (chain.not_ends y (by simp))
        have shorter : before.length < cacheSize cache.logSize + 1 := by
          have := chain.length_le
          rw [List.length_append] at this
          omega
        have walk := unlinkFrom_eq table.linksLong isLink isOld
          (by rwa [headOf_eq isFirst] at chain) shorter
        refine ⟨hash, links.set y { link with collChain := old.collChain }, ?_, rfl,
          keys_set isLink rfl, ?_⟩
        · rw [if_neg atHead, walk, ok_bind, pure_eq_ok]
        · rw [nextOf_set (List.getElem?_eq_some_iff.mp isLink).1, ← nextOf_eq isOld]
          exact table.keyed.removeAfter chain

theorem next_rrHead (table : cache.IsTable inserted hash links buckets) :
    ((cache.rrHead + 1) &&& (BitVec.ofNat 16 (cacheSize cache.logSize) - 1)).toNat =
      (inserted.length + 1) % cacheSize cache.logSize := by
  rw [toNat_nextHead table.logSize_le, table.rrHead, Nat.mod_add_mod]

/-- What `rs_new` leaves once the old entry is out of the table. -/
theorem isTable_entered (table : cache.IsTable inserted hash links buckets)
    {hash' : List (BitVec 16)} {links' : List (CacheEntry w)} (hashLong : hash'.length = hash.length)
    (sameKeys : links'.map CacheEntry.key = links.map CacheEntry.key)
    (keyed : Keyed (cacheSize cache.logSize ≤ ·) (headOf hash') (nextOf links')
      (Function.update (slotOf cache.logSize links) cache.rrHead.toNat none))
    (ip : Word w) (signalFrame : Bool) (rs : RegState n w) {first : BitVec 16}
    (isFirst : hash'[hashIndex ip cache.logSize]? = some first) :
    (cache.entered hash' links' buckets first ip signalFrame rs).IsTable (ip :: inserted)
      (hash'.set (hashIndex ip cache.logSize) cache.rrHead)
      (links'.set cache.rrHead.toNat
        { ip, collChain := first, hint := 0, valid := true, signalFrame })
      (buckets.set cache.rrHead.toNat rs) := by
  have inRange := table.rrHead_lt
  have linksLong : links'.length = cacheSize cache.logSize := by
    simpa [table.linksLong] using congrArg List.length sameKeys
  have headInLinks : cache.rrHead.toNat < links'.length := by rwa [linksLong]
  have slotInRange := (List.getElem?_eq_some_iff.mp isFirst).1
  refine ⟨⟨rfl, rfl, rfl, table.logSize_le, ?_, ?_, ?_⟩, table.next_rrHead, ?_, ?_, ?_⟩
  · rw [List.length_set, hashLong]
    exact table.hashLong
  · rw [List.length_set]
    exact linksLong
  · rw [List.length_set]
    exact table.bucketsLong
  · intro i bound
    rw [RsCache.entered_logSize] at bound
    rw [entryIp_set headInLinks, lastIn_cons, entryIp_congr sameKeys, RsCache.entered_logSize,
      ← table.rrHead]
    by_cases here : i = cache.rrHead.toNat
    · rw [here, Function.update_self, Function.update_self]
      rfl
    · rw [Function.update_of_ne here, Function.update_of_ne here]
      exact table.entries i bound
  · intro i link found invalid
    rw [List.getElem?_set] at found
    split at found
    · cases found
      cases invalid
    · obtain ⟨link', found', sameKey⟩ : ∃ link', links[i]? = some link' ∧ link'.key = link.key := by
        have := congrArg (fun keys => keys[i]?) sameKeys
        simp only [List.getElem?_map, found, Option.map_some] at this
        exact Option.map_eq_some_iff.mp this.symm
      simp only [CacheEntry.key, Prod.mk.injEq] at sameKey
      rw [← sameKey.1]
      exact table.unused i link' found' (by rw [sameKey.2.1, invalid])
  · rw [RsCache.entered_logSize, headOf_set slotInRange, nextOf_set headInLinks, slotOf_set _ headInLinks,
      slotOf_congr _ sameKeys, ← headOf_eq isFirst]
    have added := keyed.addFirst (Function.update_self _ _ _) (not_le.mpr inRange)
      (hashIndex ip cache.logSize)
    rwa [Function.update_idem] at added

/-- `rs_new` replaces the oldest entry. -/
theorem rsNew_eq (table : cache.IsTable inserted hash links buckets)
    (replaceable : cache.Replaceable) (ip : Word w) (signalFrame : Bool) (rs : RegState n w) :
    ∃ cache' hash' links' buckets',
      rsNew cache ip signalFrame rs = .ok (cache', cache.rrHead.toNat) ∧
      cache'.IsTable (ip :: inserted) hash' links' buckets' := by
  have inRange := table.rrHead_lt
  obtain ⟨hash', links', unlinked, hashLong, sameKeys, keyed⟩ :=
    table.unlink_eq inRange (replaceable links table.isLinks)
  have slotInRange : hashIndex ip cache.logSize < hash'.length := by
    rw [hashLong, table.hashLong]
    exact hashIndex_lt ip cache.logSize
  have isFirst := List.getElem?_eq_getElem slotInRange
  have isBucket := List.getElem?_eq_getElem
    (show cache.rrHead.toNat < buckets.length by rwa [table.bucketsLong])
  exact ⟨_, _, _, _,
    rsNew_eq_ok.mpr ⟨hash, links, buckets, hash', links', _, _, table.isHash, table.isLinks,
      table.isBuckets, unlinked, isFirst, isBucket, rfl, rfl⟩,
    table.isTable_entered hashLong sameKeys keyed ip signalFrame rs isFirst⟩

/-- A lookup finds an entry for its `ip`, if there is one. -/
theorem rsLookup_eq (table : cache.IsTable inserted hash links buckets) (c : Cursor n w τ)
    (within : c.HintWithin (cacheSize cache.logSize)) :
    ∃ found, rsLookup cache c = .ok found ∧
      (∀ i, found = some i → i < cacheSize cache.logSize ∧ entryIp links i = some c.ip) ∧
      (found = none → ∀ i < cacheSize cache.logSize, entryIp links i ≠ some c.ip) := by
  obtain ⟨first, isFirst⟩ := table.exists_head c.ip
  obtain ⟨cells, chain, mem⟩ := table.keyed (hashIndex c.ip cache.logSize)
  rw [headOf_eq isFirst] at chain
  have walk : lookupChain links (cacheSize cache.logSize) c.ip (cacheSize cache.logSize + 1)
      first.toNat = .ok (cells.find? (entryIp links · == some c.ip)) :=
    lookupChain_eq table.linksLong chain (Nat.lt_succ_of_le chain.length_le)
  have inChain : ∀ i, entryIp links i = some c.ip → i ∈ cells := fun i isIp =>
    (mem i).mpr (by rw [slotOf, isIp, Option.map_some])
  have byWalk : ∀ i, cells.find? (entryIp links · == some c.ip) = some i →
      i < cacheSize cache.logSize ∧ entryIp links i = some c.ip := fun i found =>
    ⟨not_le.mp (chain.not_ends i (List.mem_of_find?_eq_some found)),
      by simpa using List.find?_some found⟩
  have missed : cells.find? (entryIp links · == some c.ip) = none →
      ∀ i < cacheSize cache.logSize, entryIp links i ≠ some c.ip := fun none i _ isIp => by
    have := List.find?_eq_none.mp none i (inChain i isIp)
    simp [isIp] at this
  simp only [rsLookup, notNull_eq_ok.mpr table.isLinks, notNull_eq_ok.mpr table.isHash, ok_bind]
  by_cases hinted : 0 < c.hint.toInt
  · have inRange : c.hint.toNat - 1 < cacheSize cache.logSize := by
      have := within hinted
      have := cacheSize_pos cache.logSize
      omega
    obtain ⟨link, isLink⟩ := exists_link table.linksLong (not_le.mpr inRange)
    rw [hintMatch, if_pos hinted, cacheMatch_eq isLink, ok_bind]
    cases matched : entryIp links (c.hint.toNat - 1) == some c.ip with
    | true =>
        refine ⟨_, by rw [if_pos rfl, pure_eq_ok], ?_, fun none => by cases none⟩
        rintro i ⟨⟩
        exact ⟨inRange, beq_iff_eq.mp matched⟩
    | false =>
        rw [if_neg Bool.false_ne_true, index_eq_ok.mpr isFirst, ok_bind]
        exact ⟨_, walk, byWalk, missed⟩
  · rw [hintMatch, if_neg hinted, pure_eq_ok, ok_bind, if_neg Bool.false_ne_true,
      index_eq_ok.mpr isFirst, ok_bind]
    exact ⟨_, walk, byWalk, missed⟩

end RsCache.IsTable

end Libunwind.Dwarf
