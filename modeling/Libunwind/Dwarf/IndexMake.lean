import Libunwind.Library.WhileLoop
import Libunwind.Dwarf.DebugFrame
import Libunwind.Dwarf.LocalMemory

/-! # The two passes over a `.debug_frame`

`debug_frame_index_make` runs twice over the copy of the section: without an
index, to count the FDEs, and with an index of that size, to enter them. An
item's length comes from the file, and leads to the next item unchecked.
-/

namespace Libunwind.Dwarf

open WhileLoop

variable {w : Nat}

/-- `fdesc->debug_frame` and its size. -/
structure Buffer (w : Nat) where
  start : Word w
  size : Nat
  fits : start.toNat + size < 2 ^ w

def Buffer.limit (b : Buffer w) : Word w := b.start + BitVec.ofNat w b.size

theorem Buffer.toNat_limit (b : Buffer w) : b.limit.toNat = b.start.toNat + b.size := by
  have fits := b.fits
  rw [limit, BitVec.toNat_add, BitVec.toNat_ofNat, Nat.add_mod_mod, Nat.mod_eq_of_lt fits]

/-- So many bytes from an address on belong to the buffer. -/
def Buffer.Inside (b : Buffer w) (addr : Word w) (count : Nat) : Prop :=
  b.start ≤ addr ∧ addr.toNat + count ≤ b.limit.toNat

instance (b : Buffer w) (addr : Word w) (count : Nat) : Decidable (b.Inside addr count) :=
  inferInstanceAs (Decidable (_ ∧ _))

/-- The bytes of the buffer alone: a load of any other fails. -/
def Buffer.space (b : Buffer w) (m : LocalMemory w) : AddrSpace w where
  bigEndian := m.bigEndian
  readByte addr := if b.start ≤ addr ∧ addr < b.limit then .ok (m.byte addr) else .error .inval
  accessMem _ := .error .inval
  accessReg _ := .error .inval
  accessFpreg _ := .error .inval

/-! ## A pass -/

/-- What the loop finds at an item. -/
inductive Visit (w : Nat) where
  | stop
  | skip (itemEnd : Word w)
  | enter (itemEnd : Word w) (entry : TableEntry 32)

/-- Where the next item starts. -/
def Visit.itemEnd? : Visit w → Option (Word w)
  | .stop => none
  | .skip itemEnd => some itemEnd
  | .enter itemEnd _ => some itemEnd

/-- The part of the loop body that reads. The procedure info that an FDE is read
    into is not initialised. -/
def visitItem (as : AddrSpace w) (buf : Word w) (uninitialised : Word w → ProcInfo w)
    (addr : Word w) : Result (Visit w) := do
  match ← readItem as addr with
  | none => pure .stop
  | some (isCie, itemEnd) =>
      if isCie then pure (.skip itemEnd)
      else
        match extractProcInfoFromFde as addr (uninitialised addr) buf false true true with
        | .ok (pi, _) => pure (.enter itemEnd (indexEntry buf addr pi.startIp))
        | .error (.err _) => pure (.skip itemEnd)
        | .error fault => .error fault

/-- The variables of the loop, and `fdesc->index`. No memory but the index is written,
    and that is mapped only after the first pass. -/
structure Pass (w : Nat) where
  addr : Word w
  count : Nat := 0
  index : Option (List (TableEntry 32)) := none
  stopped : Bool := false

/-- The part of the loop body that writes. -/
def Pass.take (s : Pass w) : Visit w → Result (Pass w)
  | .stop => pure { s with stopped := true }
  | .skip itemEnd => pure { s with addr := itemEnd }
  | .enter itemEnd entry =>
      match s.index with
      | none => pure { s with addr := itemEnd, count := s.count + 1 }
      | some index =>
          if s.count < index.length then
            pure { s with
              addr := itemEnd
              count := s.count + 1
              index := some (index.set s.count entry) }
          else .error .undefined

def passRound (m : LocalMemory w) (b : Buffer w) (uninitialised : Word w → ProcInfo w)
    (s : Pass w) : Result (Pass w) := do
  let visit ← visitItem m.space b.start uninitialised s.addr
  s.take visit

def passGuard (b : Buffer w) (s : Pass w) : Bool := !s.stopped && decide (s.addr < b.limit)

/-- `debug_frame_index_make`, from the allocation of the index on if there is one. -/
def indexPass (m : LocalMemory w) (b : Buffer w) (uninitialised : Word w → ProcInfo w)
    (index : Option (List (TableEntry 32))) (budget : Nat) : Result (Pass w) :=
  run .timeout (passGuard b) (passRound m b uninitialised) budget { addr := b.start, index }

/-! ## What the two passes should do -/

/-- An item that the loop comes to. -/
def PassReaches (m : LocalMemory w) (b : Buffer w) (uninitialised : Word w → ProcInfo w)
    (index : Option (List (TableEntry 32))) (s : Pass w) : Prop :=
  Reaches (passGuard b) (passRound m b uninitialised) { addr := b.start, index } s ∧
    passGuard b s = true

/-- The passes end with one count, so that an index of that size holds all
    entries; the items lie one behind the other, and their headers in the buffer. -/
structure IndexMade (m : LocalMemory w) (b : Buffer w) : Prop where
  counts : ∃ count most, ∀ uninitialised budget, most ≤ budget →
    (∃ s, indexPass m b uninitialised none budget = .ok s ∧ s.count = count) ∧
      ∀ index : List (TableEntry 32), index.length = count →
        ∃ s, indexPass m b uninitialised (some index) budget = .ok s ∧ s.count = count
  increasing : ∀ uninitialised index s t, PassReaches m b uninitialised index s →
    passRound m b uninitialised s = .ok t → t.stopped = false → s.addr < t.addr
  inside : ∀ uninitialised index s, PassReaches m b uninitialised index s →
    ∃ item, readItem (b.space m) s.addr = .ok item

/-! ## Items -/

section Items

variable (m : LocalMemory w)

def LocalMemory.u16 (addr : Word w) : BitVec 16 :=
  joinHalves m.space (m.byte addr) (m.byte (addr + 1))

def LocalMemory.u32 (addr : Word w) : BitVec 32 :=
  joinHalves m.space (m.u16 addr) (m.u16 (addr + 2))

def LocalMemory.u64 (addr : Word w) : BitVec 64 :=
  joinHalves m.space (m.u32 addr) (m.u32 (addr + 4))

/-- The start of an item as memory has it. -/
def LocalMemory.item (addr : Word w) : Option (Bool × Word w) :=
  if m.u32 addr = 0 then none
  else if m.u32 addr = 0xffffffff then
    some (m.u64 (addr + 4 + 8) == -1, addr + 4 + 8 + (m.u64 (addr + 4)).setWidth w)
  else some (m.u32 (addr + 4) == 0xffffffff, addr + 4 + (m.u32 addr).setWidth w)

/-- The bytes of an item up to its CIE id. -/
def headerSize (len : BitVec 32) : Nat :=
  if len = 0 then 4 else if len = 0xffffffff then 20 else 8

/-- Reading some bytes succeeds everywhere in memory, and in the buffer alone if
    they belong to it. -/
structure ReadsBytes {α : Type} (b : Buffer w) (count : Nat) (addr : Word w)
    (read : AddrSpace w → Word w → Result (α × Word w)) (value : α) : Prop where
  whole : read m.space addr = .ok (value, addr + BitVec.ofNat w count)
  inside : b.Inside addr count → read (b.space m) addr = .ok (value, addr + BitVec.ofNat w count)
  outside : ¬ b.Inside addr count → ∃ code, read (b.space m) addr = .error (.err code)

variable {m} {b : Buffer w}

theorem Buffer.inside_add {addr : Word w} {first second : Nat} (some : 0 < first)
    (someMore : 0 < second) :
    b.Inside addr (first + second) ↔
      b.Inside addr first ∧ b.Inside (addr + BitVec.ofNat w first) second := by
  have fits := b.fits
  have limit := b.toNat_limit
  simp only [Inside, BitVec.le_def, BitVec.toNat_add, BitVec.toNat_ofNat, Nat.add_mod_mod]
  constructor
  · intro ⟨after, before⟩
    rw [Nat.mod_eq_of_lt (by omega)]
    omega
  · intro ⟨⟨after, before⟩, after', before'⟩
    rw [Nat.mod_eq_of_lt (by omega)] at after' before'
    omega

theorem readu8_reads (addr : Word w) : ReadsBytes m b 1 addr readu8 (m.byte addr) := by
  have byte : b.Inside addr 1 ↔ b.start ≤ addr ∧ addr < b.limit := by
    rw [Buffer.Inside, BitVec.lt_def, Nat.succ_le_iff]
  constructor
  · rfl
  · intro inside
    apply readu8_byte
    exact if_pos (byte.mp inside)
  · intro outside
    refine ⟨.inval, readu8_fails ?_⟩
    exact if_neg fun inside => outside (byte.mpr inside)

/-- Reading two halves. -/
theorem ReadsBytes.join {half count : Nat} {addr : Word w} (some : 0 < count)
    {read : AddrSpace w → Word w → Result (BitVec half × Word w)} {first second : BitVec half}
    (readFirst : ReadsBytes m b count addr read first)
    (readSecond : ReadsBytes m b count (addr + BitVec.ofNat w count) read second) :
    ReadsBytes m b (count + count) addr (fun as addr => do
      let (first, addr) ← read as addr
      let (second, addr) ← read as addr
      pure (joinHalves as first second, addr)) (joinHalves m.space first second) := by
  have next : addr + BitVec.ofNat w count + BitVec.ofNat w count =
      addr + BitVec.ofNat w (count + count) := by
    rw [BitVec.ofNat_add, BitVec.add_assoc]
  constructor
  · simp only [readFirst.whole, readSecond.whole, ok_bind, pure_eq_ok, next]
  · intro inside
    obtain ⟨front, back⟩ := (Buffer.inside_add some some).mp inside
    simp only [readFirst.inside front, readSecond.inside back, ok_bind, pure_eq_ok, next]
    rfl
  · intro outside
    by_cases front : b.Inside addr count
    · have back : ¬ b.Inside (addr + BitVec.ofNat w count) count := fun back =>
        outside ((Buffer.inside_add some some).mpr ⟨front, back⟩)
      obtain ⟨code, fails⟩ := readSecond.outside back
      exact ⟨code, by simp only [readFirst.inside front, fails, ok_bind, error_bind]⟩
    · obtain ⟨code, fails⟩ := readFirst.outside front
      exact ⟨code, by simp only [fails, error_bind]⟩

theorem readu16_reads (addr : Word w) : ReadsBytes m b 2 addr readu16 (m.u16 addr) :=
  (readu8_reads addr).join Nat.one_pos (readu8_reads _)

theorem readu32_reads (addr : Word w) : ReadsBytes m b 4 addr readu32 (m.u32 addr) :=
  (readu16_reads addr).join Nat.two_pos (readu16_reads _)

theorem readu64_reads (addr : Word w) : ReadsBytes m b 8 addr readu64 (m.u64 addr) :=
  (readu32_reads addr).join (by decide) (readu32_reads _)

/-- Where its header can be read, an item is what memory has. -/
theorem readItem_of_reads {as : AddrSpace w} {addr : Word w}
    (len : readu32 as addr = .ok (m.u32 addr, addr + 4))
    (id : headerSize (m.u32 addr) = 8 →
      readu32 as (addr + 4) = .ok (m.u32 (addr + 4), addr + 4 + 4))
    (longLen : headerSize (m.u32 addr) = 20 →
      readu64 as (addr + 4) = .ok (m.u64 (addr + 4), addr + 4 + 8))
    (longId : headerSize (m.u32 addr) = 20 →
      readu64 as (addr + 4 + 8) = .ok (m.u64 (addr + 4 + 8), addr + 4 + 8 + 8)) :
    readItem as addr = .ok (m.item addr) := by
  rw [readItem, len, ok_bind, LocalMemory.item]
  by_cases zero : m.u32 addr = 0
  · simp only [if_pos zero, pure_eq_ok]
  · by_cases long : m.u32 addr = 0xffffffff
    · have size : headerSize (m.u32 addr) = 20 := by rw [long]; rfl
      simp only [if_neg zero, if_pos long, longLen size, longId size, ok_bind, pure_eq_ok]
    · have size : headerSize (m.u32 addr) = 8 := by rw [headerSize, if_neg zero, if_neg long]
      simp only [if_neg zero, if_neg long, id size, ok_bind, pure_eq_ok]

theorem Buffer.Inside.mono {addr : Word w} {small large : Nat} (le : small ≤ large)
    (inside : b.Inside addr large) : b.Inside addr small :=
  ⟨inside.1, le_trans (Nat.add_le_add_left le _) inside.2⟩

theorem four_le_headerSize (len : BitVec 32) : 4 ≤ headerSize len := by
  rw [headerSize]
  split
  · exact le_refl 4
  · split <;> decide

/-- The parts of a long header. -/
theorem Buffer.inside_long {addr : Word w} :
    b.Inside addr 20 ↔
      b.Inside addr 4 ∧ b.Inside (addr + 4) 8 ∧ b.Inside (addr + 4 + 8) 8 := by
  rw [show 20 = 4 + (8 + 8) from rfl, inside_add (by decide) (by decide),
    inside_add (by decide) (by decide)]
  rfl

theorem Buffer.inside_short {addr : Word w} :
    b.Inside addr 8 ↔ b.Inside addr 4 ∧ b.Inside (addr + 4) 4 :=
  inside_add (show 0 < 4 by decide) (show 0 < 4 by decide)

theorem readItem_inside {addr : Word w} (inside : b.Inside addr (headerSize (m.u32 addr))) :
    readItem (b.space m) addr = .ok (m.item addr) := by
  apply readItem_of_reads
  · exact (readu32_reads addr).inside (inside.mono (four_le_headerSize _))
  · intro size
    rw [size, Buffer.inside_short] at inside
    exact (readu32_reads _).inside inside.2
  · intro size
    rw [size, Buffer.inside_long] at inside
    exact (readu64_reads _).inside inside.2.1
  · intro size
    rw [size, Buffer.inside_long] at inside
    exact (readu64_reads _).inside inside.2.2

theorem readItem_outside {addr : Word w} (outside : ¬ b.Inside addr (headerSize (m.u32 addr))) :
    ∃ code, readItem (b.space m) addr = .error (.err code) := by
  rw [readItem]
  by_cases start : b.Inside addr 4
  · have len : readu32 (b.space m) addr = .ok (m.u32 addr, addr + 4) :=
      (readu32_reads addr).inside start
    rw [len, ok_bind]
    by_cases zero : m.u32 addr = 0
    · rw [headerSize, if_pos zero] at outside
      exact absurd start outside
    · by_cases long : m.u32 addr = 0xffffffff
      · simp only [if_neg zero, if_pos long]
        rw [headerSize, if_neg zero, if_pos long, Buffer.inside_long] at outside
        by_cases middle : b.Inside (addr + 4) 8
        · have size : readu64 (b.space m) (addr + 4) = .ok (m.u64 (addr + 4), addr + 4 + 8) :=
            (readu64_reads _).inside middle
          obtain ⟨code, fails⟩ := (readu64_reads (m := m) (b := b) (addr + 4 + 8)).outside
            fun back => outside ⟨start, middle, back⟩
          exact ⟨code, by simp only [size, ok_bind, fails, error_bind]⟩
        · obtain ⟨code, fails⟩ := (readu64_reads (m := m) (b := b) (addr + 4)).outside middle
          exact ⟨code, by simp only [fails, error_bind]⟩
      · simp only [if_neg zero, if_neg long]
        rw [headerSize, if_neg zero, if_neg long, Buffer.inside_short] at outside
        obtain ⟨code, fails⟩ := (readu32_reads (m := m) (b := b) (addr + 4)).outside
          fun back => outside ⟨start, back⟩
        exact ⟨code, by simp only [fails, error_bind]⟩
  · obtain ⟨code, fails⟩ := (readu32_reads (m := m) (b := b) addr).outside start
    exact ⟨code, by simp only [fails, error_bind]⟩

end Items

theorem readItem_local (m : LocalMemory w) (addr : Word w) :
    readItem m.space addr = .ok (m.item addr) := by
  let b : Buffer w := ⟨0, 0, by simp⟩
  apply readItem_of_reads
  · exact (readu32_reads (b := b) addr).whole
  · intro _
    exact (readu32_reads (b := b) _).whole
  · intro _
    exact (readu64_reads (b := b) _).whole
  · intro _
    exact (readu64_reads (b := b) _).whole

/-! ## Rounds -/

section Rounds

variable {m : LocalMemory w} {b : Buffer w} {uninitialised : Word w → ProcInfo w}

/-- The number of entries that a visit makes. -/
def Visit.entered : Visit w → Nat
  | .stop => 0
  | .skip _ => 0
  | .enter _ _ => 1

/-- The visits differ in the entry at most. -/
def SameVisit (v v' : Visit w) : Prop := v.itemEnd? = v'.itemEnd? ∧ v.entered = v'.entered

theorem visitItem_itemEnd {addr : Word w} {v : Visit w}
    (visit : visitItem m.space b.start uninitialised addr = .ok v) :
    v.itemEnd? = (m.item addr).map (·.2) := by
  rw [visitItem, readItem_local, ok_bind] at visit
  cases item : m.item addr with
  | none =>
      rw [item] at visit
      cases visit
      rfl
  | some found =>
      obtain ⟨isCie, itemEnd⟩ := found
      simp only [item] at visit
      cases isCie with
      | true =>
          cases visit
          rfl
      | false =>
          simp only [Bool.false_eq_true, if_false] at visit
          split at visit
          · cases visit
            rfl
          · cases visit
            rfl
          · cases visit

/-- What the procedure info held makes no difference but to the entry. -/
theorem visitItem_alike (uninitialised uninitialised' : Word w → ProcInfo w) (addr : Word w) :
    Simulates SameVisit (visitItem m.space b.start uninitialised addr)
      (visitItem m.space b.start uninitialised' addr) := by
  rw [visitItem, visitItem]
  apply (Simulates.same _).bind
  intro item _ same
  cases same
  cases item with
  | none => exact .ok ⟨rfl, rfl⟩
  | some found =>
      obtain ⟨isCie, itemEnd⟩ := found
      cases isCie with
      | true => exact .ok ⟨rfl, rfl⟩
      | false =>
          simp only [Bool.false_eq_true, if_false]
          cases extractProcInfoFromFde_alike m addr b.start (uninitialised addr)
            (uninitialised' addr) true true with
          | inl fails =>
              obtain ⟨e, left, right⟩ := fails
              rw [left, right]
              cases e with
              | err code => exact .ok ⟨rfl, rfl⟩
              | undefined => exact .error _
              | timeout => exact .error _
          | inr read =>
              obtain ⟨x, y, left, right, -⟩ := read
              rw [left, right]
              exact .ok ⟨rfl, rfl⟩

/-- A visit fails only in an FDE whose reading is not defined or does not end. -/
theorem visitItem_ok_iff {addr : Word w} :
    (∃ v, visitItem m.space b.start uninitialised addr = .ok v) ↔
      ∀ itemEnd, m.item addr = some (false, itemEnd) →
        Defined (extractProcInfoFromFde m.space addr (uninitialised addr) b.start false true true) ∧
        Ends (extractProcInfoFromFde m.space addr (uninitialised addr) b.start false true true) := by
  rw [visitItem, readItem_local, ok_bind]
  cases item : m.item addr with
  | none => simp
  | some found =>
      obtain ⟨isCie, itemEnd⟩ := found
      cases isCie with
      | true => simp
      | false =>
          simp only [Bool.false_eq_true, if_false, Option.some.injEq, Prod.mk.injEq, true_and,
            forall_eq']
          cases extractProcInfoFromFde m.space addr (uninitialised addr) b.start false true true with
          | ok read => simp [Defined, Ends]
          | error fault => cases fault <;> simp [Defined, Ends]

/-- What taking a visit does to the variables. -/
theorem Pass.take_ok {s t : Pass w} {v : Visit w} (taken : s.take v = .ok t) :
    t.addr = v.itemEnd?.getD s.addr ∧ t.stopped = (s.stopped || v.itemEnd?.isNone) ∧
      t.count = s.count + v.entered ∧ t.index.map List.length = s.index.map List.length := by
  cases v with
  | stop =>
      cases taken
      simp [Visit.itemEnd?, Visit.entered]
  | skip itemEnd =>
      cases taken
      simp [Visit.itemEnd?, Visit.entered]
  | enter itemEnd entry =>
      rw [Pass.take] at taken
      cases isIndex : s.index with
      | none =>
          simp only [isIndex] at taken
          cases taken
          simp [Visit.itemEnd?, Visit.entered]
      | some index =>
          simp only [isIndex] at taken
          by_cases room : s.count < index.length
          · rw [if_pos room] at taken
            cases taken
            simp [Visit.itemEnd?, Visit.entered]
          · rw [if_neg room] at taken
            cases taken

/-- A visit can be taken if there is room for its entry. -/
theorem Pass.exists_take {s : Pass w} {v : Visit w}
    (room : ∀ index, s.index = some index → s.count + v.entered ≤ index.length) :
    ∃ t, s.take v = .ok t := by
  cases v with
  | stop => exact ⟨_, rfl⟩
  | skip itemEnd => exact ⟨_, rfl⟩
  | enter itemEnd entry =>
      rw [Pass.take]
      cases isIndex : s.index with
      | none => exact ⟨_, rfl⟩
      | some index =>
          simp only [if_pos (show s.count < index.length from room index isIndex)]
          exact ⟨_, rfl⟩

/-- What one round does. -/
theorem passRound_ok {s t : Pass w} (round : passRound m b uninitialised s = .ok t) :
    ∃ v, visitItem m.space b.start uninitialised s.addr = .ok v ∧ s.take v = .ok t :=
  bind_eq_ok.mp round

theorem passGuard_iff {s : Pass w} :
    passGuard b s = true ↔ s.stopped = false ∧ s.addr < b.limit := by
  simp [passGuard]

/-- A round that does not stop goes to the end of the item. -/
theorem passRound_next {s t : Pass w} (round : passRound m b uninitialised s = .ok t)
    (goesOn : t.stopped = false) : ∃ isCie, m.item s.addr = some (isCie, t.addr) := by
  obtain ⟨v, visit, taken⟩ := passRound_ok round
  obtain ⟨addr, stopped, -, -⟩ := Pass.take_ok taken
  have itemEnd := visitItem_itemEnd visit
  rw [itemEnd] at addr stopped
  cases item : m.item s.addr with
  | none => simp [item, goesOn] at stopped
  | some found =>
      rw [item] at addr
      exact ⟨found.1, congrArg some (Prod.ext rfl addr.symm)⟩

end Rounds

/-! ## Sections on which the passes do what they should -/

/-- The items of the section, as their lengths lead from one to the next. -/
inductive Visited (m : LocalMemory w) (b : Buffer w) : Word w → Prop where
  | start : Visited m b b.start
  | next {addr isCie itemEnd} : Visited m b addr → addr < b.limit →
      m.item addr = some (isCie, itemEnd) → Visited m b itemEnd

/-- The header lies in the buffer, the length leads upwards, and an FDE can be
    read without a step that is not defined. -/
structure ItemSound (m : LocalMemory w) (b : Buffer w) (addr : Word w) : Prop where
  header : b.Inside addr (headerSize (m.u32 addr))
  advances : ∀ isCie itemEnd, m.item addr = some (isCie, itemEnd) → addr < itemEnd
  parse : ∀ itemEnd pi, m.item addr = some (false, itemEnd) →
    Defined (extractProcInfoFromFde m.space addr pi b.start false true true) ∧
    Ends (extractProcInfoFromFde m.space addr pi b.start false true true)

def SectionSound (m : LocalMemory w) (b : Buffer w) : Prop :=
  ∀ addr, Visited m b addr → addr < b.limit → ItemSound m b addr

section Passes

variable {m : LocalMemory w} {b : Buffer w} {uninitialised uninitialised' : Word w → ProcInfo w}
  {index : Option (List (TableEntry 32))}

theorem visited_of_reaches {s : Pass w}
    (path : Reaches (passGuard b) (passRound m b uninitialised) { addr := b.start, index } s) :
    Visited m b s.addr := by
  refine path.invariant (fun s => Visited m b s.addr) ?_ .start
  intro s t visited enter round
  obtain ⟨v, visit, taken⟩ := passRound_ok round
  have addr := (Pass.take_ok taken).1
  rw [visitItem_itemEnd visit] at addr
  cases item : m.item s.addr with
  | none =>
      rw [item] at addr
      exact addr ▸ visited
  | some found =>
      rw [item] at addr
      exact addr ▸ visited.next (passGuard_iff.mp enter).2 item

/-- The count never gets smaller. -/
theorem count_le_of_run {budget : Nat} {s t : Pass w}
    (ended : run .timeout (passGuard b) (passRound m b uninitialised) budget s = .ok t) :
    s.count ≤ t.count := by
  refine (run_invariant (fun t => s.count ≤ t.count) ?_ (le_refl _) ended).1
  intro u v le _ round
  obtain ⟨visit, -, taken⟩ := passRound_ok round
  have count := (Pass.take_ok taken).2.2.1
  omega

/-- The second pass keeps step with a first one that will count `total` FDEs. -/
structure InStep (m : LocalMemory w) (b : Buffer w) (uninitialised : Word w → ProcInfo w)
    (total : Nat) (s s' : Pass w) : Prop where
  addr : s.addr = s'.addr
  stopped : s.stopped = s'.stopped
  count : s.count = s'.count
  ends : ∃ budget t,
    run .timeout (passGuard b) (passRound m b uninitialised) budget s = .ok t ∧ t.count = total
  room : ∀ index, s'.index = some index → index.length = total

theorem InStep.round {total : Nat} {s s' t : Pass w} (step : InStep m b uninitialised total s s')
    (enter : passGuard b s = true) (round : passRound m b uninitialised s = .ok t) :
    ∃ t', passRound m b uninitialised' s' = .ok t' ∧ InStep m b uninitialised total t t' := by
  obtain ⟨v, visit, taken⟩ := passRound_ok round
  obtain ⟨addr, stopped, count, -⟩ := Pass.take_ok taken
  -- the first pass goes on to the same total
  obtain ⟨rest, final, ends, isTotal⟩ : ∃ budget final,
      run .timeout (passGuard b) (passRound m b uninitialised) budget t = .ok final ∧
        final.count = total := by
    obtain ⟨budget, final, ends, isTotal⟩ := step.ends
    cases budget with
    | zero => simp [run_zero enter] at ends
    | succ budget =>
        rw [run_next enter round] at ends
        exact ⟨budget, final, ends, isTotal⟩
  have bound := count_le_of_run ends
  cases visitItem_alike (m := m) (b := b) uninitialised uninitialised' s.addr with
  | inl fails =>
      obtain ⟨e, left, -⟩ := fails
      cases left.symm.trans visit
  | inr both =>
      obtain ⟨x, v', left, visit', sameEnd, sameEntered⟩ := both
      cases left.symm.trans visit
      have room : ∀ index, s'.index = some index → s'.count + v'.entered ≤ index.length := by
        intro index isIndex
        rw [step.room index isIndex, ← step.count, ← sameEntered, ← count, ← isTotal]
        exact bound
      obtain ⟨t', taken'⟩ := Pass.exists_take room
      obtain ⟨addr', stopped', count', length'⟩ := Pass.take_ok taken'
      refine ⟨t', ?_, ?_, ?_, ?_, ⟨rest, final, ends, isTotal⟩, ?_⟩
      · rw [passRound, ← step.addr, visit', ok_bind, taken']
      · rw [addr, addr', sameEnd, step.addr]
      · rw [stopped, stopped', sameEnd, step.stopped]
      · rw [count, count', sameEntered, step.count]
      · intro index isIndex
        cases isIndex' : s'.index with
        | none => simp [isIndex, isIndex'] at length'
        | some before =>
            rw [isIndex, isIndex'] at length'
            exact (Option.some.inj length').trans (step.room before isIndex')

/-- Passes make one count, and entries up to that count alone. -/
theorem indexPass_alike {budget : Nat} {s : Pass w}
    (ended : indexPass m b uninitialised none budget = .ok s)
    (room : ∀ entries, index = some entries → entries.length = s.count) :
    ∃ s', indexPass m b uninitialised' index budget = .ok s' ∧ s'.count = s.count := by
  have start : InStep m b uninitialised s.count { addr := b.start, index := none }
      { addr := b.start, index } := ⟨rfl, rfl, rfl, ⟨budget, s, ended, rfl⟩, room⟩
  have guards (a a' : Pass w) (step : InStep m b uninitialised s.count a a') :
      passGuard b a = passGuard b a' := by
    rw [passGuard, passGuard, step.addr, step.stopped]
  obtain ⟨s', ended', step⟩ : ∃ s', indexPass m b uninitialised' index budget = .ok s' ∧
      InStep m b uninitialised s.count s s' :=
    run_simulates guards (fun _ _ _ step enter round => step.round enter round) start ended
  exact ⟨s', ended', step.count.symm⟩

/-- In a sound section every round gets closer to the end of the buffer. -/
theorem SectionSound.round (sound : SectionSound m b) {s : Pass w}
    (path : Reaches (passGuard b) (passRound m b uninitialised) { addr := b.start } s)
    (enter : passGuard b s = true) :
    ∃ t, passRound m b uninitialised s = .ok t ∧ (t.stopped = false → s.addr < t.addr) := by
  have item := sound s.addr (visited_of_reaches path) (passGuard_iff.mp enter).2
  obtain ⟨v, visit⟩ := visitItem_ok_iff.mpr fun itemEnd isFde =>
    item.parse itemEnd (uninitialised s.addr) isFde
  have noIndex : s.index = none := by
    refine path.invariant (fun s => s.index = none) ?_ rfl
    intro s t isNone _ round
    obtain ⟨v, -, taken⟩ := passRound_ok round
    have length := (Pass.take_ok taken).2.2.2
    simpa [isNone] using length
  obtain ⟨t, taken⟩ : ∃ t, s.take v = .ok t := by
    apply Pass.exists_take
    intro index isIndex
    cases noIndex.symm.trans isIndex
  have round : passRound m b uninitialised s = .ok t := by rw [passRound, visit, ok_bind, taken]
  refine ⟨t, round, fun goesOn => ?_⟩
  obtain ⟨isCie, found⟩ := passRound_next round goesOn
  exact item.advances isCie t.addr found

theorem SectionSound.indexPass_ends (sound : SectionSound m b)
    (uninitialised : Word w → ProcInfo w) {budget : Nat} (enough : b.limit.toNat ≤ budget) :
    ∃ s, indexPass m b uninitialised none budget = .ok s := by
  let left (s : Pass w) : Nat := if s.stopped then 0 else b.limit.toNat - s.addr.toNat
  have rounds (s : Pass w)
      (path : Reaches (passGuard b) (passRound m b uninitialised) { addr := b.start } s)
      (enter : passGuard b s = true) :
      ∃ t, passRound m b uninitialised s = .ok t ∧ left t < left s := by
    obtain ⟨t, round, advances⟩ := sound.round path enter
    obtain ⟨goesOn, before⟩ := passGuard_iff.mp enter
    refine ⟨t, round, ?_⟩
    cases stopped : t.stopped with
    | true =>
        simp only [left, stopped, goesOn, if_true, Bool.false_eq_true, if_false, BitVec.lt_def] at *
        omega
    | false =>
        have smaller := advances stopped
        simp only [left, stopped, goesOn, Bool.false_eq_true, if_false, BitVec.lt_def] at *
        omega
  apply run_ok_of_reaches left rounds
  simp only [left, Bool.false_eq_true, if_false]
  omega

theorem SectionSound.indexMade (sound : SectionSound m b) : IndexMade m b := by
  obtain ⟨first, ended⟩ := sound.indexPass_ends (fun _ => {}) (le_refl _)
  constructor
  · refine ⟨first.count, b.limit.toNat, fun uninitialised budget enough => ?_⟩
    have notLate : indexPass m b (fun _ => {}) none b.limit.toNat ≠ .error .timeout := by
      intro late
      cases ended.symm.trans late
    have longer : indexPass m b (fun _ => {}) none budget = .ok first :=
      (run_mono enough notLate).trans ended
    constructor
    · exact indexPass_alike longer fun _ isSome => by cases isSome
    · intro index length
      exact indexPass_alike longer fun _ isSome => by
        cases isSome
        exact length
  · intro uninitialised index s t reached round goesOn
    obtain ⟨path, enter⟩ := reached
    obtain ⟨isCie, item⟩ := passRound_next round goesOn
    exact (sound s.addr (visited_of_reaches path) (passGuard_iff.mp enter).2).advances
      isCie t.addr item
  · intro uninitialised index s reached
    obtain ⟨path, enter⟩ := reached
    exact ⟨_, readItem_inside
      (sound s.addr (visited_of_reaches path) (passGuard_iff.mp enter).2).header⟩

/-- A pass that ends came to every item. -/
theorem reaches_of_visited {budget : Nat} {s : Pass w} {addr : Word w}
    (ended : indexPass m b uninitialised none budget = .ok s) (visited : Visited m b addr) :
    ∃ t, Reaches (passGuard b) (passRound m b uninitialised) { addr := b.start } t ∧
      t.addr = addr ∧ t.stopped = false := by
  induction visited with
  | start => exact ⟨_, .refl _, rfl, rfl⟩
  | @next addr isCie itemEnd _ before item ih =>
      obtain ⟨t, path, rfl, goesOn⟩ := ih
      have enter := passGuard_iff.mpr ⟨goesOn, before⟩
      obtain ⟨next, round⟩ := path.round_of_run enter ended
      obtain ⟨v, visit, taken⟩ := passRound_ok round
      obtain ⟨sameAddr, stopped, -, -⟩ := Pass.take_ok taken
      rw [visitItem_itemEnd visit, item] at sameAddr stopped
      exact ⟨next, path.snoc enter round, sameAddr, by simp [stopped, goesOn]⟩

theorem IndexMade.sectionSound (made : IndexMade m b) : SectionSound m b := by
  obtain ⟨count, most, counts⟩ := made.counts
  intro addr visited before
  have reached (pi : ProcInfo w) : ∃ s t, PassReaches m b (fun _ => pi) none s ∧ s.addr = addr ∧
      passRound m b (fun _ => pi) s = .ok t := by
    obtain ⟨⟨last, ended, -⟩, -⟩ := counts (fun _ => pi) most (le_refl _)
    obtain ⟨s, path, rfl, goesOn⟩ := reaches_of_visited ended visited
    have enter := passGuard_iff.mpr ⟨goesOn, before⟩
    obtain ⟨t, round⟩ := path.round_of_run enter ended
    exact ⟨s, t, ⟨path, enter⟩, rfl, round⟩
  constructor
  · by_contra outside
    obtain ⟨s, t, passes, rfl, -⟩ := reached {}
    obtain ⟨item, read⟩ := made.inside _ _ s passes
    obtain ⟨code, fails⟩ := readItem_outside outside
    cases fails.symm.trans read
  · intro isCie itemEnd item
    obtain ⟨s, t, passes, rfl, round⟩ := reached {}
    obtain ⟨v, visit, taken⟩ := passRound_ok round
    obtain ⟨sameAddr, stopped, -, -⟩ := Pass.take_ok taken
    rw [visitItem_itemEnd visit, item] at sameAddr stopped
    have goesOn : t.stopped = false := by
      simp [stopped, (passGuard_iff.mp passes.2).1]
    have advances := made.increasing _ _ s t passes round goesOn
    rw [sameAddr] at advances
    exact advances
  · intro itemEnd pi item
    obtain ⟨s, t, passes, rfl, round⟩ := reached pi
    obtain ⟨v, visit, -⟩ := passRound_ok round
    exact visitItem_ok_iff.mp ⟨v, visit⟩ itemEnd item

/-- Exactly when both passes end, in the buffer and with one count. -/
theorem indexMade_iff (m : LocalMemory w) (b : Buffer w) : IndexMade m b ↔ SectionSound m b :=
  ⟨IndexMade.sectionSound, SectionSound.indexMade⟩

/-- One round of the recursion that yields the entries. -/
theorem debugFrameIndexMake_visit {addr : Word w} {v : Visit w} (before : addr < b.limit)
    (visit : visitItem m.space b.start uninitialised addr = .ok v) (budget : Nat) :
    debugFrameIndexMake m.space b.start b.size uninitialised (budget + 1) addr =
      match v with
      | .stop => .ok []
      | .skip itemEnd => debugFrameIndexMake m.space b.start b.size uninitialised budget itemEnd
      | .enter itemEnd entry =>
          (debugFrameIndexMake m.space b.start b.size uninitialised budget itemEnd).map
            (entry :: ·) := by
  have inside : addr < b.start + BitVec.ofNat w b.size := before
  rw [debugFrameIndexMake, if_pos inside, readItem_local, ok_bind]
  rw [visitItem, readItem_local, ok_bind] at visit
  cases item : m.item addr with
  | none =>
      rw [item] at visit
      cases visit
      rfl
  | some found =>
      obtain ⟨isCie, itemEnd⟩ := found
      cases isCie with
      | true =>
          rw [item] at visit
          cases visit
          rfl
      | false =>
          simp only [item, Bool.false_eq_true, if_false] at visit ⊢
          cases read : extractProcInfoFromFde m.space addr (uninitialised addr) b.start false true
              true with
          | ok pi =>
              simp only [read] at visit
              cases visit
              exact (bind_pure_comp _ _).trans rfl
          | error fault =>
              cases fault with
              | err code =>
                  simp only [read] at visit
                  cases visit
                  rfl
              | undefined => simp [read] at visit
              | timeout => simp [read] at visit

/-- What is in an index after an entry and those behind it are made. -/
theorem set_then_fill {α : Type} {before entries : List α} {count : Nat} (entry : α)
    (room : count < before.length) :
    (before.set count entry).take (count + 1) ++ entries ++
        (before.set count entry).drop (count + 1 + entries.length) =
      before.take count ++ entry :: entries ++ before.drop (count + (entry :: entries).length) := by
  rw [List.take_add_one, List.take_set_of_le (le_refl _), List.getElem?_set_self room,
    List.drop_set_of_lt (by omega)]
  simp [Nat.add_assoc, Nat.add_comm 1]

theorem debugFrameIndexMake_exit {s : Pass w} (goesOn : s.stopped = false)
    (exit : passGuard b s = false) (budget : Nat) :
    debugFrameIndexMake m.space b.start b.size uninitialised (budget + 1) s.addr = .ok [] := by
  have outside : ¬ s.addr < b.start + BitVec.ofNat w b.size := by
    intro inside
    rw [passGuard_iff.mpr ⟨goesOn, inside⟩] at exit
    cases exit
  rw [debugFrameIndexMake, if_neg outside]
  rfl

/-- The index of a pass takes up the entries of the section one behind the other. -/
theorem entries_of_run {budget : Nat} {s t : Pass w} {before : List (TableEntry 32)}
    (ended : run .timeout (passGuard b) (passRound m b uninitialised) budget s = .ok t)
    (goesOn : s.stopped = false) (isIndex : s.index = some before) :
    ∃ entries,
      debugFrameIndexMake m.space b.start b.size uninitialised (budget + 1) s.addr =
        .ok entries ∧
      t.count = s.count + entries.length ∧
      t.index = some (before.take s.count ++ entries ++ before.drop (s.count + entries.length)) := by
  induction budget generalizing s before with
  | zero =>
      cases enter : passGuard b s with
      | true => simp [run_zero enter] at ended
      | false =>
          rw [run_exit enter] at ended
          cases ended
          exact ⟨[], debugFrameIndexMake_exit goesOn enter _, by simp [isIndex]⟩
  | succ budget ih =>
      cases enter : passGuard b s with
      | false =>
          rw [run_exit enter] at ended
          cases ended
          exact ⟨[], debugFrameIndexMake_exit goesOn enter _, by simp [isIndex]⟩
      | true =>
          obtain ⟨next, round⟩ := (Reaches.refl s).round_of_run enter ended
          rw [run_next enter round] at ended
          obtain ⟨v, visit, taken⟩ := passRound_ok round
          rw [debugFrameIndexMake_visit (passGuard_iff.mp enter).2 visit]
          cases v with
          | stop =>
              cases taken
              rw [run_exit (by simp [passGuard])] at ended
              cases ended
              exact ⟨[], rfl, by simp [isIndex]⟩
          | skip itemEnd =>
              cases taken
              exact ih ended goesOn isIndex
          | enter itemEnd entry =>
              rw [Pass.take, isIndex] at taken
              simp only at taken
              by_cases room : s.count < before.length
              · rw [if_pos room] at taken
                cases taken
                obtain ⟨entries, made, count, index⟩ := ih ended goesOn rfl
                refine ⟨entry :: entries, ?_, ?_, ?_⟩
                · simp only [made]
                  rfl
                · simp only [count, List.length_cons]
                  omega
                · rw [index, set_then_fill entry room]
              · rw [if_neg room] at taken
                cases taken

/-- The second pass fills its index with the entries of the section. -/
theorem indexPass_entries {budget : Nat} {s : Pass w} {before : List (TableEntry 32)}
    (ended : indexPass m b uninitialised (some before) budget = .ok s)
    (length : before.length = s.count) :
    ∃ entries, debugFrameIndexMake m.space b.start b.size uninitialised (budget + 1) b.start =
        .ok entries ∧ s.index = some entries := by
  obtain ⟨entries, made, count, index⟩ := entries_of_run ended rfl rfl
  refine ⟨entries, made, ?_⟩
  rw [index, List.drop_of_length_le (by simp only at count ⊢; omega)]
  simp

end Passes

/-! A CIE whose 64-bit length leads back to its own start. -/
namespace EndlessItem

def memory : LocalMemory 64 where
  bigEndian := false
  byte addr := if addr = 0x1004 then 0xf4 else 0xff

def buffer : Buffer 64 where
  start := 0x1000
  size := 20
  fits := by decide

theorem pass_never_ends :
    (∀ uninitialised budget,
      indexPass memory buffer uninitialised none budget = .error .timeout) ∧
      ¬ IndexMade memory buffer := by
  have endless (uninitialised : Word 64 → ProcInfo 64) (budget : Nat) :
      indexPass memory buffer uninitialised none budget = .error .timeout := by
    have enter : passGuard buffer { addr := buffer.start } = true := by decide
    have round : passRound memory buffer uninitialised { addr := buffer.start } =
        .ok { addr := buffer.start } := rfl
    induction budget with
    | zero => exact run_zero enter
    | succ budget ih => exact (run_next enter round budget).trans ih
  refine ⟨endless, fun made => ?_⟩
  obtain ⟨count, most, counts⟩ := made.counts
  obtain ⟨⟨s, ended, -⟩, -⟩ := counts (fun _ => {}) most (le_refl _)
  cases (endless _ most).symm.trans ended

end EndlessItem

end Libunwind.Dwarf
