import Libunwind.A64.Step
import Libunwind.Dwarf.ReadLength

/-! # The records of a signal context

`get_sve_vl_signal_loc` walks the reserved section of a signal context by the sizes that its
records give. Sizes are read from the stack, and those of records of no interest are not looked at:
a walk that comes to one of size zero stays there.
-/

namespace Libunwind.AArch64

open Dwarf

def sveMagic : BitVec 32 := 0x53564501

section Records

variable (as : AddrSpace 64) (resAddr : Word 64)

/-- A record at an offset: its magic number and its size. -/
structure RecordAt (off : Word 64) (magic size : BitVec 32) : Prop where
  magic_read : ∃ next, readu32 as (resAddr + off + 0x0) = .ok (magic, next)
  size_read : ∃ next, readu32 as (resAddr + off + 0x4) = .ok (size, next)

/-- The walk goes on behind a record. -/
def Skipped (magic : BitVec 32) : Prop := magic ≠ 0 ∧ magic ≠ sveMagic

/-- The offsets that the walk comes to. -/
inductive Visited : Word 64 → Prop where
  | first : Visited 0
  | next {off : Word 64} {magic size : BitVec 32} : Visited off → off < 4096 →
      RecordAt as resAddr off magic size → Skipped magic → Visited (off + size.setWidth 64)

/-- The walk comes to a record of no interest whose size is zero. -/
def Stalls : Prop :=
  ∃ off magic, Visited as resAddr off ∧ off < 4096 ∧ RecordAt as resAddr off magic 0 ∧
    Skipped magic

variable {as resAddr} {off : Word 64} {magic size : BitVec 32}

/-- What a record that can be read makes of the walk. -/
theorem sveSection_record (inside : off < 4096) (record : RecordAt as resAddr off magic size)
    (rounds : Nat) :
    sveSection as resAddr (rounds + 1) off =
      if magic = 0 then if size = 0 then .ok none else .error (.err .unspec)
      else if magic = sveMagic then
        if size < 10 then .error (.err .unspec) else .ok (some (memLoc (resAddr + off + 8)))
      else sveSection as resAddr rounds (off + size.setWidth 64) := by
  obtain ⟨_, readMagic⟩ := record.magic_read
  obtain ⟨_, readSize⟩ := record.size_read
  rw [sveSection, if_pos inside]
  simp only [readMagic, readSize, ok_bind]
  rfl

/-- A record of no interest sends the walk on by its size. -/
theorem sveSection_skip (inside : off < 4096) (record : RecordAt as resAddr off magic size)
    (skipped : Skipped magic) (rounds : Nat) :
    sveSection as resAddr (rounds + 1) off =
      sveSection as resAddr rounds (off + size.setWidth 64) := by
  rw [sveSection_record inside record, if_neg skipped.1, if_neg skipped.2]

/-- What the walk does at an offset when it does not go on. -/
structure StopsAt (as : AddrSpace 64) (resAddr off : Word 64) (result : Result (Option (Loc 64))) :
    Prop where
  stops : ∀ rounds, sveSection as resAddr (rounds + 1) off = result
  ends : Ends result
  located : ∀ loc, result = .ok (some loc) → off < 4096 ∧
    ∃ size, RecordAt as resAddr off sveMagic size ∧ 10 ≤ size ∧ loc = memLoc (resAddr + off + 8)

/-- The walk stops at an offset, or there is a record of no interest. -/
theorem sveSection_cases (as : AddrSpace 64) (resAddr off : Word 64) :
    (∃ result, StopsAt as resAddr off result) ∨
      off < 4096 ∧ ∃ magic size, RecordAt as resAddr off magic size ∧ Skipped magic := by
  by_cases inside : off < 4096
  · cases readMagic : readu32 as (resAddr + off + 0x0) with
    | error fault =>
        refine .inl ⟨.error fault, ?_, ?_, ?_⟩
        · intro rounds
          rw [sveSection, if_pos inside, readMagic]
          rfl
        · intro timeout
          cases timeout
          exact readu32_ends _ readMagic
        · intro loc found
          cases found
    | ok read =>
        obtain ⟨magic, next⟩ := read
        cases readSize : readu32 as (resAddr + off + 0x4) with
        | error fault =>
            refine .inl ⟨.error fault, ?_, ?_, ?_⟩
            · intro rounds
              rw [sveSection, if_pos inside, readMagic, ok_bind, readSize]
              rfl
            · intro timeout
              cases timeout
              exact readu32_ends _ readSize
            · intro loc found
              cases found
        | ok read =>
            obtain ⟨size, next'⟩ := read
            have record : RecordAt as resAddr off magic size := ⟨⟨_, readMagic⟩, ⟨_, readSize⟩⟩
            by_cases endMarker : magic = 0
            · refine .inl ⟨if size = 0 then .ok none else .error (.err .unspec), ?_, ?_, ?_⟩
              · intro rounds
                rw [sveSection_record inside record, if_pos endMarker]
              · exact .ite (fun _ => .ok _) fun _ => .err _
              · intro loc found
                split at found
                · cases found
                · cases found
            · by_cases isSve : magic = sveMagic
              · refine .inl ⟨if size < 10 then .error (.err .unspec)
                  else .ok (some (memLoc (resAddr + off + 8))), ?_, ?_, ?_⟩
                · intro rounds
                  rw [sveSection_record inside record, if_neg endMarker, if_pos isSve]
                · exact .ite (fun _ => .err _) fun _ => .ok _
                · intro loc found
                  split at found
                  next => cases found
                  next large =>
                    cases found
                    exact ⟨inside, size, isSve ▸ record, BitVec.not_lt.mp large, rfl⟩
              · exact .inr ⟨inside, magic, size, record, endMarker, isSve⟩
  · refine .inl ⟨.ok none, ?_, .ok _, ?_⟩
    · intro rounds
      rw [sveSection, if_neg inside]
      rfl
    · intro loc found
      cases found

/-- A walk that finds the vector length does so at an offset that it comes to. -/
theorem sveSection_located {loc : Loc 64} {rounds : Nat} (visited : Visited as resAddr off)
    (found : sveSection as resAddr rounds off = .ok (some loc)) :
    ∃ off size, Visited as resAddr off ∧ off < 4096 ∧ RecordAt as resAddr off sveMagic size ∧
      10 ≤ size ∧ loc = memLoc (resAddr + off + 8) := by
  induction rounds generalizing off with
  | zero => cases found
  | succ rounds ih =>
      cases sveSection_cases as resAddr off with
      | inl stops =>
          obtain ⟨result, stops⟩ := stops
          rw [stops.stops] at found
          obtain ⟨inside, size, record, large, place⟩ := stops.located loc found
          exact ⟨off, size, visited, inside, record, large, place⟩
      | inr goesOn =>
          obtain ⟨inside, magic, size, record, skipped⟩ := goesOn
          rw [sveSection_skip inside record skipped] at found
          exact ih (visited.next inside record skipped) found

/-- As long as no record of size zero is skipped, the offset grows, so that the walk leaves the
    section. -/
theorem sveSection_ends (moves : ¬ Stalls as resAddr) {rounds : Nat}
    (visited : Visited as resAddr off) (small : off.toNat < 2 ^ 33)
    (enough : 4096 < rounds + off.toNat) (some : 0 < rounds) :
    Ends (sveSection as resAddr rounds off) := by
  induction rounds generalizing off with
  | zero => omega
  | succ rounds ih =>
      cases sveSection_cases as resAddr off with
      | inl stops =>
          obtain ⟨result, stops⟩ := stops
          rw [stops.stops]
          exact stops.ends
      | inr goesOn =>
          obtain ⟨inside, magic, size, record, skipped⟩ := goesOn
          have positive : size ≠ 0 := by
            intro zero
            exact moves ⟨off, magic, visited, inside, zero ▸ record, skipped⟩
          have grows : off.toNat < (off + size.setWidth 64).toNat := by
            bv_omega
          rw [sveSection_skip inside record skipped]
          apply ih (visited.next inside record skipped)
          · bv_omega
          · omega
          · have : off.toNat < 4096 := inside
            omega

/-- From a skipped record of size zero the walk never ends. -/
theorem sveSection_stalls (inside : off < 4096) (record : RecordAt as resAddr off magic 0)
    (skipped : Skipped magic) (rounds : Nat) :
    sveSection as resAddr rounds off = .error .timeout := by
  induction rounds with
  | zero => rfl
  | succ rounds ih =>
      have stays : off + (0 : BitVec 32).setWidth 64 = off := by simp
      rw [sveSection_skip inside record skipped, stays]
      exact ih

/-- The walk goes on from any offset that it comes to. -/
theorem sveSection_from (visited : Visited as resAddr off)
    (timeout : ∀ rounds, sveSection as resAddr rounds off = .error .timeout) (rounds : Nat) :
    sveSection as resAddr rounds 0 = .error .timeout := by
  induction visited generalizing rounds with
  | first => exact timeout rounds
  | next _ inside record skipped ih =>
      apply ih
      intro rounds
      cases rounds with
      | zero => rfl
      | succ rounds =>
          rw [sveSection_skip inside record skipped]
          exact timeout rounds

theorem getSveVl_ends (as : AddrSpace 64) (c : A64Cursor) (scAddr : Word 64) (budget : Nat) :
    Ends (getSveVlSignalLoc as budget c scAddr).1 ↔
      Ends (sveSection as (scAddr + scReservedOff) budget 0) := by
  rw [getSveVlSignalLoc]
  cases sveSection as (scAddr + scReservedOff) budget 0 with
  | error fault => simp [Ends]
  | ok found =>
      cases found with
      | none => exact iff_of_true (.ok _) (.ok _)
      | some loc => exact iff_of_true (.ok _) (.ok _)

/-- The walk ends if and only if it comes to no record of size zero that it skips; where it sets
    a location, that is the vector length in a record of its own magic number. -/
theorem getSveVl_ends_iff (as : AddrSpace 64) (c : A64Cursor) (scAddr : Word 64) (budget : Nat)
    (enough : 4096 < budget) :
    (Ends (getSveVlSignalLoc as budget c scAddr).1 ↔ ¬ Stalls as (scAddr + scReservedOff)) ∧
      ∀ r, (getSveVlSignalLoc as budget c scAddr).2.loc r = c.loc r ∨
        r = vg ∧ ∃ off size, Visited as (scAddr + scReservedOff) off ∧ off < 4096 ∧
          RecordAt as (scAddr + scReservedOff) off sveMagic size ∧ 10 ≤ size ∧
          (getSveVlSignalLoc as budget c scAddr).2.loc r =
            memLoc (scAddr + scReservedOff + off + 8) := by
  constructor
  · rw [getSveVl_ends]
    constructor
    · intro done stalls
      obtain ⟨off, magic, visited, inside, record, skipped⟩ := stalls
      exact done (sveSection_from visited (sveSection_stalls inside record skipped) budget)
    · intro moves
      exact sveSection_ends moves .first (by decide) (by simpa using enough) (by omega)
  · intro r
    cases walked : sveSection as (scAddr + scReservedOff) budget 0 with
    | error fault => exact .inl (by rw [getSveVlSignalLoc, walked])
    | ok found =>
        cases found with
        | none => exact .inl (by rw [getSveVlSignalLoc, walked])
        | some loc =>
            by_cases isVg : r = vg
            · obtain ⟨off, size, visited, inside, record, large, place⟩ :=
                sveSection_located .first walked
              refine .inr ⟨isVg, off, size, visited, inside, record, large, ?_⟩
              rw [getSveVlSignalLoc, walked, isVg, ← place]
              simp
            · refine .inl ?_
              rw [getSveVlSignalLoc, walked]
              exact Function.update_of_ne isVg _ _

end Records

/-! ## A record of size zero -/

namespace EmptyRecord

/-- A stack whose reserved section starts with a record of magic number one and size zero. -/
def space : AddrSpace 64 where
  bigEndian := false
  readByte := fun addr => .ok (if addr = 0x8120 then 1 else 0)
  accessMem := fun _ => .error .inval
  accessReg := fun _ => .error .badreg
  accessFpreg := fun _ => .error .badreg

def cursor : A64Cursor := { cfa := 0x8000, ip := 0x1000, loc := fun _ => nullLoc, tdep := {} }

theorem record : RecordAt space 0x8120 0 1 0 := ⟨⟨0x8124, by decide⟩, ⟨0x8128, by decide⟩⟩

theorem walk_never_ends : ¬ ∃ budget, Ends (getSveVlSignalLoc space budget cursor 0x8000).1 := by
  intro ends
  obtain ⟨budget, ends⟩ := ends
  have skipped : Skipped 1 := ⟨by decide, by decide⟩
  exact (getSveVl_ends space cursor 0x8000 budget).mp ends
    (sveSection_stalls (by decide) record skipped budget)

theorem ends_iff :
    (Ends (getSveVlSignalLoc space 4097 cursor 0x8000).1 ↔
        ¬ Stalls space (0x8000 + scReservedOff)) ∧
      ∀ r, (getSveVlSignalLoc space 4097 cursor 0x8000).2.loc r = cursor.loc r ∨
        r = vg ∧ ∃ off size, Visited space (0x8000 + scReservedOff) off ∧ off < 4096 ∧
          RecordAt space (0x8000 + scReservedOff) off sveMagic size ∧ 10 ≤ size ∧
          (getSveVlSignalLoc space 4097 cursor 0x8000).2.loc r =
            memLoc (0x8000 + scReservedOff + off + 8) :=
  getSveVl_ends_iff space cursor 0x8000 4097 (by decide)

end EmptyRecord

end Libunwind.AArch64
