import Libunwind.Elf.SymbolTables

/-! # The symbols that a GNU hash table counts

`DT_GNU_HASH` has no number of symbols. `dynamic_symtab_count` goes to the last chain instead, and
to the end of it.
-/

namespace Libunwind.Elf

variable {c : ElfClass}

namespace ElfImage

variable (ei : ElfImage c)

/-- `dynamic_symtab_count`, with what `sym_num` points to, if anything. -/
def dynamicSymtabCountInto (hash gnuHash : Option Nat) (symNum : Option (BitVec 32)) :
    Result (Except UnwError Unit × Option (BitVec 32)) :=
  match symNum, hash, gnuHash with
  | none, _, _ => pure (.error .noinfo, symNum)
  | some _, none, none => pure (.error .noinfo, symNum)
  | some _, some hash, _ => do
    let count ← ei.load 4 (hash + 4)
    pure (.ok (), some count)
  | some _, none, some gnuHash => do
    let nbuckets ← ei.load 4 gnuHash
    let symoffset ← ei.load 4 (gnuHash + 4)
    let bloomSize ← ei.load 4 (gnuHash + 8)
    let buckets := gnuHash + 16 + bloomSize.toNat * c.bytes
    match ← ei.lastBucket nbuckets.toNat buckets 0 with
    | none => pure (.error .noinfo, symNum)
    | some count =>
        if count = 0 then pure (.ok (), some count)
        else if count < symoffset then pure (.error .noinfo, symNum)
        else do
          let chain := buckets + 4 * nbuckets.toNat + 4 * (count - symoffset).toNat
          let count ← ei.endOfChain (ei.size.toNat + 1) chain count
          pure (.ok (), some count)

/-! ## What a table says -/

def nbuckets (gnuHash : Nat) : Nat := (ei.field 4 gnuHash).toNat

/-- The first symbol that may be in the table. -/
def symoffset (gnuHash : Nat) : Nat := (ei.field 4 (gnuHash + 4)).toNat

/-- The buckets come after the Bloom filter, -/
def bucketsAt (gnuHash : Nat) : Nat := gnuHash + 16 + (ei.field 4 (gnuHash + 8)).toNat * c.bytes

def bucket (gnuHash i : Nat) : BitVec 32 := ei.field 4 (ei.bucketsAt gnuHash + 4 * i)

/-- and the words of the chains, one for each symbol in the table, after them. -/
def chainsAt (gnuHash : Nat) : Nat := ei.bucketsAt gnuHash + 4 * ei.nbuckets gnuHash

/-- The chain that a symbol is in ends with it. -/
def EndsChain (gnuHash symbol : Nat) : Prop :=
  ei.field 4 (ei.chainsAt gnuHash + 4 * (symbol - ei.symoffset gnuHash)) &&& 1 ≠ 0

/-- A symbol is in the chain of a bucket: it is the first one of the chain, or comes later and
    before the end. -/
structure InChain (gnuHash i symbol : Nat) : Prop where
  bucket : i < ei.nbuckets gnuHash
  nonempty : ei.bucket gnuHash i ≠ 0
  first : (ei.bucket gnuHash i).toNat ≤ symbol
  before : ∀ s, (ei.bucket gnuHash i).toNat ≤ s → s < symbol → ¬ei.EndsChain gnuHash s

/-- A well-formed table that so many symbols are hashed to. -/
structure HashFormed (gnuHash hashed : Nat) : Prop where
  inside : ei.chainsAt gnuHash + 4 * hashed ≤ ei.size.toNat
  starts : ∀ i, i < ei.nbuckets gnuHash → ei.bucket gnuHash i ≠ 0 →
    ei.symoffset gnuHash ≤ (ei.bucket gnuHash i).toNat ∧
      (ei.bucket gnuHash i).toNat < ei.symoffset gnuHash + hashed
  ordered : ∀ i j, i < j → j < ei.nbuckets gnuHash → ei.bucket gnuHash i ≠ 0 →
    ei.bucket gnuHash j ≠ 0 → ei.bucket gnuHash i ≤ ei.bucket gnuHash j
  chains : ∀ s, ei.symoffset gnuHash ≤ s → s < ei.symoffset gnuHash + hashed →
    ∃! i, ei.InChain gnuHash i s
  ends : ∀ i, i < ei.nbuckets gnuHash → ei.bucket gnuHash i ≠ 0 →
    ∃ s, (ei.bucket gnuHash i).toNat ≤ s ∧ s < ei.symoffset gnuHash + hashed ∧
      ei.EndsChain gnuHash s

/-- The count is `symoffset` plus the number of hashed symbols. -/
def CountsSymbols (gnuHash hashed : Nat) : Prop :=
  ∀ symNum, ∃ count : BitVec 32, count.toNat = ei.symoffset gnuHash + hashed ∧
    ei.dynamicSymtabCountInto none (some gnuHash) (some symNum) = .ok (.ok (), some count)

/-- Where there is an error, whatever the tables are, the caller's count is left as it was. -/
def ErrorKeepsCount : Prop :=
  ∀ hash gnuHash symNum code after,
    ei.dynamicSymtabCountInto hash gnuHash symNum = .ok (.error code, after) → after = symNum

variable {ei} {gnuHash hashed : Nat}

/-! ## What the loops do -/

/-- The buckets in order, all of them are gone through. The last one that is not empty has the
    largest value. -/
theorem lastBucket_eq {nbuckets buckets : Nat} {count : BitVec 32}
    (inside : ∀ i, i < nbuckets → ei.Inside 4 (buckets + 4 * i))
    (above : ∀ i, i < nbuckets → ei.field 4 (buckets + 4 * i) ≠ 0 →
      count ≤ ei.field 4 (buckets + 4 * i))
    (ordered : ∀ i j, i < j → j < nbuckets → ei.field 4 (buckets + 4 * i) ≠ 0 →
      ei.field 4 (buckets + 4 * j) ≠ 0 →
      ei.field 4 (buckets + 4 * i) ≤ ei.field 4 (buckets + 4 * j)) :
    ∃ last, ei.lastBucket nbuckets buckets count = .ok (some last) ∧ count ≤ last ∧
      (last = count ∨ ∃ i, i < nbuckets ∧ ei.field 4 (buckets + 4 * i) = last) ∧
      ∀ i, i < nbuckets → ei.field 4 (buckets + 4 * i) ≤ last := by
  induction nbuckets generalizing buckets count with
  | zero => exact ⟨count, rfl, BitVec.le_refl count, .inl rfl, by simp⟩
  | succ n ih =>
      have later (i : Nat) : buckets + 4 + 4 * i = buckets + 4 * (i + 1) := by omega
      have here := inside 0 (Nat.succ_pos n)
      simp only [Nat.mul_zero, Nat.add_zero] at here
      -- the rest of the buckets, from the count that this one leaves
      have rest (left : BitVec 32) (past : ∀ i, i < n → ei.field 4 (buckets + 4 * (i + 1)) ≠ 0 →
          left ≤ ei.field 4 (buckets + 4 * (i + 1))) :
          ∃ last, ei.lastBucket n (buckets + 4) left = .ok (some last) ∧ left ≤ last ∧
            (last = left ∨ ∃ i, i < n ∧ ei.field 4 (buckets + 4 * (i + 1)) = last) ∧
            ∀ i, i < n → ei.field 4 (buckets + 4 * (i + 1)) ≤ last := by
        have whole := @ih (buckets + 4) left
        simp only [later] at whole
        apply whole
        · exact fun i below => inside (i + 1) (Nat.succ_lt_succ below)
        · exact past
        · exact fun i j earlier below => ordered (i + 1) (j + 1) (Nat.succ_lt_succ earlier)
            (Nat.succ_lt_succ below)
      simp only [lastBucket, load_of_inside here, ok_bind]
      by_cases empty : ei.field 4 buckets = 0
      · obtain ⟨last, ran, least, among, largest⟩ :=
          rest count fun i below => above (i + 1) (Nat.succ_lt_succ below)
        refine ⟨last, by simpa [empty] using ran, least, ?_, ?_⟩
        · cases among with
          | inl same => exact .inl same
          | inr found =>
              obtain ⟨i, below, same⟩ := found
              exact .inr ⟨i + 1, Nat.succ_lt_succ below, same⟩
        · intro i below
          cases i with
          | zero => simp [empty, BitVec.le_def]
          | succ i => exact largest i (Nat.lt_of_succ_lt_succ below)
      · have atLeast := above 0 (Nat.succ_pos n) (by simpa using empty)
        simp only [Nat.mul_zero, Nat.add_zero] at atLeast
        obtain ⟨last, ran, least, among, largest⟩ := rest (ei.field 4 buckets) (by
          intro i below nonempty
          simpa using ordered 0 (i + 1) (Nat.succ_pos i) (Nat.succ_lt_succ below)
            (by simpa using empty) nonempty)
        refine ⟨last, ?_, BitVec.le_trans atLeast least, .inr ?_, ?_⟩
        · rw [if_neg empty, if_neg (BitVec.not_lt.mpr atLeast)]
          exact ran
        · cases among with
          | inl same => exact ⟨0, Nat.succ_pos n, same.symm⟩
          | inr found =>
              obtain ⟨i, below, same⟩ := found
              exact ⟨i + 1, Nat.succ_lt_succ below, same⟩
        · intro i below
          cases i with
          | zero => exact least
          | succ i => exact largest i (Nat.lt_of_succ_lt_succ below)

/-- From a word that so many even ones come before the odd one of. -/
theorem endOfChain_eq {fuel hashval words : Nat} {count : BitVec 32}
    (inside : hashval + 4 * (words + 1) ≤ ei.size.toNat)
    (even : ∀ j, j < words → ei.field 4 (hashval + 4 * j) &&& 1 = 0)
    (odd : ei.field 4 (hashval + 4 * words) &&& 1 ≠ 0) (enough : words < fuel) :
    ei.endOfChain fuel hashval count = .ok (count + BitVec.ofNat 32 (words + 1)) := by
  induction words generalizing fuel hashval count with
  | zero =>
      cases fuel with
      | zero => cases enough
      | succ fuel =>
          have here : ei.Inside 4 hashval := by
            unfold Inside
            omega
          simp only [Nat.mul_zero, Nat.add_zero] at odd
          simp only [endOfChain, load_of_inside here, ok_bind, if_neg odd]
          rfl
  | succ n ih =>
      cases fuel with
      | zero => cases enough
      | succ fuel =>
          have here : ei.Inside 4 hashval := by
            unfold Inside
            omega
          have later (j : Nat) : hashval + 4 + 4 * j = hashval + 4 * (j + 1) := by omega
          have first : ei.field 4 hashval &&& 1 = 0 := by simpa using even 0 (Nat.succ_pos n)
          simp only [endOfChain, load_of_inside here, ok_bind, first, if_true]
          rw [ih (by omega) (fun j below => by simpa only [later] using even (j + 1) (by omega))
            (by simpa only [later] using odd) (by omega)]
          rw [BitVec.ofNat_add (n + 1) 1, BitVec.add_comm (BitVec.ofNat 32 (n + 1)),
            ← BitVec.add_assoc]
          rfl

/-! ## The last chain -/

/-- The top symbol is in the chain of the last bucket, and all words before its own are even: the
    last bucket's symbol is in the same chain as the top symbol, and in no other one. -/
theorem HashFormed.lastChain (formed : ei.HashFormed gnuHash hashed) (some : 0 < hashed) {i : Nat}
    (below : i < ei.nbuckets gnuHash) (nonempty : ei.bucket gnuHash i ≠ 0)
    (largest : ∀ j, j < ei.nbuckets gnuHash → ei.bucket gnuHash j ≤ ei.bucket gnuHash i) :
    ei.InChain gnuHash i (ei.symoffset gnuHash + hashed - 1) ∧
      ei.EndsChain gnuHash (ei.symoffset gnuHash + hashed - 1) := by
  obtain ⟨low, high⟩ := formed.starts i below nonempty
  obtain ⟨j, top, -⟩ := formed.chains (ei.symoffset gnuHash + hashed - 1) (by omega) (by omega)
  have shared : ei.InChain gnuHash j (ei.bucket gnuHash i).toNat := by
    refine ⟨top.bucket, top.nonempty, BitVec.le_def.mp (largest j top.bucket), ?_⟩
    intro s first earlier
    exact top.before s first (by omega)
  have own : ei.InChain gnuHash i (ei.bucket gnuHash i).toNat := by
    refine ⟨below, nonempty, Nat.le_refl _, ?_⟩
    intro s first earlier
    omega
  have same : i = j := (formed.chains _ low high).unique own shared
  subst same
  refine ⟨top, ?_⟩
  obtain ⟨s, first, inTable, ended⟩ := formed.ends i below nonempty
  by_cases atTop : s = ei.symoffset gnuHash + hashed - 1
  · rwa [← atTop]
  · exact absurd ended (top.before s first (by omega))

/-- From the word of the last bucket's symbol, the loop ends after the top symbol. -/
theorem HashFormed.endOfLastChain (formed : ei.HashFormed gnuHash hashed) {i : Nat}
    (below : i < ei.nbuckets gnuHash) (nonempty : ei.bucket gnuHash i ≠ 0)
    (largest : ∀ j, j < ei.nbuckets gnuHash → ei.bucket gnuHash j ≤ ei.bucket gnuHash i) :
    ei.endOfChain (ei.size.toNat + 1)
        (ei.chainsAt gnuHash + 4 * ((ei.bucket gnuHash i).toNat - ei.symoffset gnuHash))
        (ei.bucket gnuHash i) =
      .ok (BitVec.ofNat 32 (ei.symoffset gnuHash + hashed)) := by
  have inside := formed.inside
  obtain ⟨low, high⟩ := formed.starts i below nonempty
  obtain ⟨chain, ended⟩ := formed.lastChain (by omega) below nonempty largest
  have word (j : Nat) :
      ei.chainsAt gnuHash + 4 * ((ei.bucket gnuHash i).toNat - ei.symoffset gnuHash) + 4 * j =
        ei.chainsAt gnuHash + 4 * ((ei.bucket gnuHash i).toNat + j - ei.symoffset gnuHash) := by
    omega
  obtain ⟨words, top⟩ : ∃ words,
      (ei.bucket gnuHash i).toNat + words = ei.symoffset gnuHash + hashed - 1 :=
    ⟨ei.symoffset gnuHash + hashed - 1 - (ei.bucket gnuHash i).toNat, by omega⟩
  have whole : (ei.bucket gnuHash i).toNat + (words + 1) = ei.symoffset gnuHash + hashed := by
    omega
  rw [← whole, BitVec.ofNat_add, BitVec.ofNat_toNat, BitVec.setWidth_eq]
  apply endOfChain_eq
  case inside => omega
  case even =>
    intro j earlier
    rw [word]
    exact Decidable.not_not.mp (chain.before _ (by omega) (by omega))
  case odd =>
    rw [word, top]
    exact ended
  case enough => omega

/-- What comes of a well-formed table. -/
theorem dynamicSymtabCountInto_eq (formed : ei.HashFormed gnuHash hashed) (symNum : BitVec 32) :
    ei.dynamicSymtabCountInto none (some gnuHash) (some symNum) = .ok (.ok (),
      some (if hashed = 0 then 0 else BitVec.ofNat 32 (ei.symoffset gnuHash + hashed))) := by
  have inside := formed.inside
  unfold chainsAt bucketsAt at inside
  have first : ei.Inside 4 gnuHash := by
    unfold Inside
    omega
  have second : ei.Inside 4 (gnuHash + 4) := by
    unfold Inside
    omega
  have third : ei.Inside 4 (gnuHash + 8) := by
    unfold Inside
    omega
  obtain ⟨last, ran, -, among, largest⟩ := @lastBucket_eq c ei (ei.nbuckets gnuHash)
    (ei.bucketsAt gnuHash) 0
    (by
      intro i below
      unfold Inside bucketsAt
      omega)
    (by
      intro i below nonempty
      simp [BitVec.le_def])
    formed.ordered
  simp only [dynamicSymtabCountInto, load_of_inside first, load_of_inside second,
    load_of_inside third, ok_bind]
  rw [← nbuckets, ← bucketsAt, ran, ok_bind]
  by_cases empty : last = 0
  · have none : hashed = 0 := by
      apply Nat.eq_zero_of_not_pos
      intro some
      obtain ⟨i, chain, -⟩ := formed.chains (ei.symoffset gnuHash) (Nat.le_refl _) (by omega)
      have zero := BitVec.le_def.mp (largest i chain.bucket)
      rw [empty] at zero
      exact chain.nonempty (BitVec.eq_of_toNat_eq (Nat.le_zero.mp zero))
    simp [empty, none]
  · obtain ⟨i, below, found⟩ := among.resolve_left empty
    change ei.bucket gnuHash i = last at found
    subst found
    obtain ⟨low, high⟩ := formed.starts i below empty
    have some : 0 < hashed := by omega
    have reached : ¬ei.bucket gnuHash i < ei.field 4 (gnuHash + 4) :=
      Nat.not_lt.mpr low
    have start : (ei.bucket gnuHash i - ei.field 4 (gnuHash + 4)).toNat =
        (ei.bucket gnuHash i).toNat - ei.symoffset gnuHash :=
      BitVec.toNat_sub_of_le (BitVec.not_lt.mp reached)
    simp only [if_neg empty, if_neg reached, Nat.ne_of_gt some, if_false, start]
    rw [← chainsAt, formed.endOfLastChain below empty largest]
    rfl

/-- What a count makes of the caller's, if there is a count. -/
def countInto (symNum : BitVec 32) : Option (BitVec 32) → Except UnwError Unit × Option (BitVec 32)
  | none => (.error .noinfo, some symNum)
  | some count => (.ok (), some count)

/-- The lookup of symbols takes the same count. -/
theorem dynamicSymtabCountInto_some (hash gnuHash : Option Nat) (symNum : BitVec 32) :
    ei.dynamicSymtabCountInto hash gnuHash (some symNum) =
      (ei.dynamicSymtabCount hash gnuHash).map (countInto symNum) := by
  cases hash with
  | some hash =>
      simp only [dynamicSymtabCountInto, dynamicSymtabCount]
      cases ei.load 4 (hash + 4) with
      | error e => rfl
      | ok count => rfl
  | none =>
      cases gnuHash with
      | none => rfl
      | some gnuHash =>
          simp only [dynamicSymtabCountInto, dynamicSymtabCount]
          cases ei.load 4 gnuHash with
          | error e => rfl
          | ok nbuckets =>
          cases ei.load 4 (gnuHash + 4) with
          | error e => rfl
          | ok symoffset =>
          cases ei.load 4 (gnuHash + 8) with
          | error e => rfl
          | ok bloomSize =>
          simp only [ok_bind]
          cases ei.lastBucket nbuckets.toNat (gnuHash + 16 + bloomSize.toNat * c.bytes) 0 with
          | error e => rfl
          | ok last =>
          cases last with
          | none => rfl
          | some last =>
              simp only [ok_bind]
              split
              next empty =>
                rw [empty]
                rfl
              · split
                · rfl
                · generalize ei.endOfChain _ _ last = ended
                  cases ended with
                  | error e => rfl
                  | ok count => rfl

theorem errorKeepsCount (ei : ElfImage c) : ei.ErrorKeepsCount := by
  intro hash gnuHash symNum code after returned
  cases symNum with
  | none =>
      cases returned
      rfl
  | some symNum =>
      rw [dynamicSymtabCountInto_some] at returned
      cases counted : ei.dynamicSymtabCount hash gnuHash with
      | error e => simp [counted, Except.map] at returned
      | ok count =>
          cases count with
          | none =>
              simp only [counted, Except.map, countInto] at returned
              cases returned
              rfl
          | some count => simp [counted, Except.map, countInto] at returned

/-- The count is right exactly where a symbol is hashed or none comes before the table, and the
    count is an `Elf_W(Word)`. An error leaves the caller's count in any case. -/
theorem dynamicSymtabCount_iff (formed : ei.HashFormed gnuHash hashed) :
    ei.CountsSymbols gnuHash hashed ∧ ei.ErrorKeepsCount ↔
      (0 < hashed ∨ ei.symoffset gnuHash = 0) ∧ ei.symoffset gnuHash + hashed < 2 ^ 32 := by
  have word : ei.symoffset gnuHash < 2 ^ 32 := (ei.field 4 (gnuHash + 4)).isLt
  constructor
  · intro right
    obtain ⟨count, whole, ran⟩ := right.1 0
    have fits := count.isLt
    rw [dynamicSymtabCountInto_eq formed] at ran
    simp only [Except.ok.injEq, Prod.mk.injEq, Option.some.injEq, true_and] at ran
    refine ⟨?_, by omega⟩
    by_cases none : hashed = 0
    · rw [if_pos none] at ran
      rw [← ran, none] at whole
      exact .inr whole.symm
    · exact .inl (Nat.pos_of_ne_zero none)
  · intro condition
    obtain ⟨nonempty, fits⟩ := condition
    refine ⟨?_, errorKeepsCount ei⟩
    intro symNum
    refine ⟨_, ?_, dynamicSymtabCountInto_eq formed symNum⟩
    by_cases none : hashed = 0
    · rw [if_pos none, none]
      simp only [none, Nat.lt_irrefl, false_or] at nonempty
      simp [nonempty]
    · rw [if_neg none, BitVec.toNat_ofNat, Nat.mod_eq_of_lt fits]

/-! ## Tables with one bucket -/

/-- A Bloom filter of one word, and `symoffset` 5; the bytes from the bucket on are given. -/
def oneBucket (rest : List Byte) : ElfImage .elf64 where
  size := BitVec.ofNat _ (24 + rest.length)
  byte off :=
    if off = 0 ∨ off = 8 then 1 else if off = 4 then 5
    else if off < 24 then 0 else (rest[off - 24]?).getD 0
  bigEndian := false

/-- No symbol is hashed, and none of the five before the table is counted. -/
theorem emptyTable_uncounted :
    (oneBucket [0, 0, 0, 0]).HashFormed 0 0 ∧
      ¬((oneBucket [0, 0, 0, 0]).CountsSymbols 0 0 ∧
        (oneBucket [0, 0, 0, 0]).ErrorKeepsCount) := by
  have empty (i : Nat) (below : i < (oneBucket [0, 0, 0, 0]).nbuckets 0) :
      (oneBucket [0, 0, 0, 0]).bucket 0 i = 0 := by
    have one : (oneBucket [0, 0, 0, 0]).nbuckets 0 = 1 := by decide
    obtain rfl : i = 0 := by omega
    decide
  constructor
  · constructor
    case inside => decide
    case starts =>
      intro i below nonempty
      exact absurd (empty i below) nonempty
    case ordered =>
      intro i j earlier below nonempty
      exact absurd (empty i (Nat.lt_trans earlier below)) nonempty
    case chains =>
      intro s low high
      omega
    case ends =>
      intro i below nonempty
      exact absurd (empty i below) nonempty
  · intro right
    obtain ⟨count, five, ran⟩ := right.1 0
    have zero : (oneBucket [0, 0, 0, 0]).dynamicSymtabCountInto none (some 0) (some 0) =
        .ok (.ok (), some 0) := by
      decide
    have offset : (oneBucket [0, 0, 0, 0]).symoffset 0 = 5 := by decide
    simp only [zero, Except.ok.injEq, Prod.mk.injEq, Option.some.injEq, true_and] at ran
    rw [← ran, offset] at five
    cases five

/-- One symbol is hashed, the last of six. -/
theorem singleTable_counted :
    (oneBucket [5, 0, 0, 0, 1, 0, 0, 0]).HashFormed 0 1 ∧
      (oneBucket [5, 0, 0, 0, 1, 0, 0, 0]).CountsSymbols 0 1 ∧
      (oneBucket [5, 0, 0, 0, 1, 0, 0, 0]).ErrorKeepsCount := by
  have one : (oneBucket [5, 0, 0, 0, 1, 0, 0, 0]).nbuckets 0 = 1 := by decide
  have first : (oneBucket [5, 0, 0, 0, 1, 0, 0, 0]).bucket 0 0 = 5 := by decide
  have offset : (oneBucket [5, 0, 0, 0, 1, 0, 0, 0]).symoffset 0 = 5 := by decide
  have chain : (oneBucket [5, 0, 0, 0, 1, 0, 0, 0]).InChain 0 0 5 := by
    refine ⟨by decide, by decide, by decide, ?_⟩
    intro s low high
    rw [first] at low
    exact absurd high (Nat.not_lt.mpr low)
  have formed : (oneBucket [5, 0, 0, 0, 1, 0, 0, 0]).HashFormed 0 1 := by
    constructor
    case inside => decide
    case starts =>
      intro i below nonempty
      obtain rfl : i = 0 := by omega
      rw [first, offset]
      decide
    case ordered =>
      intro i j earlier below
      omega
    case chains =>
      intro s low high
      obtain rfl : s = 5 := by omega
      refine ⟨0, chain, ?_⟩
      intro i other
      have below := other.bucket
      omega
    case ends =>
      intro i below nonempty
      obtain rfl : i = 0 := by omega
      refine ⟨5, by rw [first]; decide, by omega, ?_⟩
      unfold EndsChain
      decide
  exact ⟨formed, (dynamicSymtabCount_iff formed).mpr ⟨.inl Nat.one_pos, by rw [offset]; decide⟩⟩

end ElfImage

end Libunwind.Elf
