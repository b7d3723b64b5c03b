import Libunwind.Library.Bytes
import Libunwind.Elf.BuildId

/-! # The notes of a core dump

`_UCD_elf_visit_notes` goes through a segment of notes that was read into memory. Where the next
note is comes from the sizes in this one, which are added up in 32 bits.
-/

namespace Libunwind.Coredump

open Elf

variable {h : DataModel} {σ : Type}

/-- A segment that `_UCD_elf_read_segment` has read. -/
structure NoteSegment (h : DataModel) where
  bytes : List Byte
  bigEndian : Bool
  /-- `malloc` gives no object that is larger. -/
  fits : bytes.length < 2 ^ (h.bits - 1)

/-- `Elf64_Nhdr`, and where it is in its segment. -/
structure Note where
  header : Nat
  namesz : BitVec 32
  descsz : BitVec 32
  type : BitVec 32
  deriving DecidableEq, Repr

/-- `UNW_ALIGN(x, 4)`, as an `unsigned`. -/
def alignedSize (h : DataModel) (x : BitVec 32) : Nat := unwAlign h x % 2 ^ 32

namespace Note

def name (n : Note) : Nat := n.header + nhdrSize

def desc (h : DataModel) (n : Note) : Nat := n.header + nhdrSize + alignedSize h n.namesz

/-- `note_size` -/
def noteSize (h : DataModel) (n : Note) : Nat :=
  (nhdrSize + alignedSize h n.namesz + alignedSize h n.descsz) % 2 ^ 32

end Note

namespace NoteSegment

variable (seg : NoteSegment h)

def size : Nat := seg.bytes.length

/-- A field of a header, wherever it is. -/
def word (off : Nat) : BitVec 32 :=
  Bytes.word 32 seg.bigEndian ((seg.bytes.drop off).take 4)

def load (off : Nat) : Result (BitVec 32) :=
  if off + 4 ≤ seg.size then .ok (seg.word off) else .error .undefined

/-- What a header says. -/
def noteAt (off : Nat) : Note where
  header := off
  namesz := seg.word off
  descsz := seg.word (off + 4)
  type := seg.word (off + 8)

def readNote (off : Nat) : Result Note := do
  let namesz ← seg.load off
  let descsz ← seg.load (off + 4)
  let type ← seg.load (off + 8)
  pure { header := off, namesz, descsz, type }

end NoteSegment

/-- `note_visitor_t`: what it returns, and what it makes of the state at `arg`. -/
abbrev NoteVisitor (σ : Type) := Note → σ → Result (Int × σ)

/-- The loop of `_UCD_elf_visit_notes`, from `parsed_size` on. -/
def visitNotes (seg : NoteSegment h) (visit : NoteVisitor σ) : Nat → Nat → σ → Result (Int × σ)
  | 0, _, _ => .error .timeout
  | fuel + 1, parsedSize, s =>
      if parsedSize < seg.size then do
        let note ← seg.readNote parsedSize
        let (ret, s) ← visit note s
        if ret ≠ 0 then pure (ret, s)
        else visitNotes seg visit fuel ((parsedSize + note.noteSize h) % 2 ^ h.bits) s
      else pure (0, s)

/-! ## Notes in their segment -/

section Layout

variable {seg : NoteSegment h} {p : Nat}

/-- The header, the name and the descriptor are in the segment. -/
structure Note.Within (n : Note) (seg : NoteSegment h) : Prop where
  header : n.header + nhdrSize ≤ seg.size
  name : n.name + n.namesz.toNat ≤ seg.size
  desc : n.desc h + n.descsz.toNat ≤ seg.size

theorem readNote_eq (inside : p + nhdrSize ≤ seg.size) : seg.readNote p = .ok (seg.noteAt p) := by
  have whole : p + 12 ≤ seg.size := inside
  simp only [NoteSegment.readNote, NoteSegment.load, if_pos (show p + 4 ≤ seg.size by omega),
    if_pos (show p + 4 + 4 ≤ seg.size by omega), if_pos (show p + 8 + 4 ≤ seg.size by omega)]
  rfl

theorem readNote_ok {n : Note} (read : seg.readNote p = .ok n) :
    n = seg.noteAt p ∧ p + nhdrSize ≤ seg.size := by
  have inside : p + nhdrSize ≤ seg.size := by
    by_contra outside
    have short : ¬p + 8 + 4 ≤ seg.size := outside
    unfold NoteSegment.readNote NoteSegment.load at read
    rw [if_neg short] at read
    split at read
    · split at read
      · cases read
      · cases read
    · cases read
  rw [readNote_eq inside] at read
  exact ⟨(Except.ok.inj read).symm, inside⟩

theorem alignedSize_of_small {x : BitVec 32} (small : alignUp x.toNat < 2 ^ 32) :
    alignedSize h x = alignUp x.toNat := by
  have wide : 2 ^ 32 ≤ 2 ^ h.bits := by
    cases h with
    | ilp32 => exact Nat.le_refl _
    | lp64 => decide
  rw [alignedSize, unwAlign, Nat.mod_eq_of_lt (small.trans_le wide), Nat.mod_eq_of_lt small]

/-- Behind a note that is in its segment, `parsed_size` does not wrap. -/
theorem Note.Within.step_lt (within : (seg.noteAt p).Within seg) :
    p + (seg.noteAt p).noteSize h < 2 ^ h.bits := by
  have fits := seg.fits
  have inside : p + 12 ≤ seg.size := within.header
  change seg.size < _ at fits
  cases h with
  | ilp32 =>
      -- the sizes are small here, so that nothing wraps in 32 bits
      have desc : p + 12 + alignedSize .ilp32 (seg.noteAt p).namesz +
        (seg.noteAt p).descsz.toNat ≤ seg.size := within.desc
      have half : seg.size < 2 ^ 31 := fits
      have rounded : alignUp (seg.noteAt p).descsz.toNat ≤ (seg.noteAt p).descsz.toNat + 3 := by
        unfold alignUp
        omega
      have same := alignedSize_of_small (h := .ilp32) (x := (seg.noteAt p).descsz) (by omega)
      have noteSize : (seg.noteAt p).noteSize .ilp32 ≤
          12 + alignedSize .ilp32 (seg.noteAt p).namesz + alignUp (seg.noteAt p).descsz.toNat := by
        rw [Note.noteSize, same]
        exact Nat.mod_le _ _
      change _ < 2 ^ 32
      omega
  | lp64 =>
      have half : seg.size < 2 ^ 63 := fits
      have noteSize : (seg.noteAt p).noteSize .lp64 < 2 ^ 32 := Nat.mod_lt _ (by decide)
      change _ < 2 ^ 64
      omega

end Layout

/-! ## What is visited -/

/-- A visitor, and the notes that it was called with. -/
def logged (visit : Note → σ → Int × σ) : NoteVisitor (σ × List Note) := fun note (s, seen) =>
  let (ret, s) := visit note s
  .ok (ret, s, seen ++ [note])

/-- The walk comes to an end, each note that is visited is in the segment, and each is behind the
    one before it. -/
def VisitsInside (seg : NoteSegment h) (visit : Note → σ → Int × σ) (s : σ) : Prop :=
  ∃ fuel ret s' seen, visitNotes seg (logged visit) fuel 0 (s, []) = .ok (ret, s', seen) ∧
    (∀ n ∈ seen, n.Within seg) ∧ seen.Pairwise fun n n' => n.header < n'.header

/-- From a place on, the segment has notes up to its end, or up to one at which the visitor
    stops. -/
inductive NotesFormed (seg : NoteSegment h) (visit : Note → σ → Int × σ) : Nat → σ → Prop where
  | past {p : Nat} {s : σ} : seg.size ≤ p → NotesFormed seg visit p s
  | stops {p : Nat} {s : σ} : p < seg.size → (seg.noteAt p).Within seg →
      (visit (seg.noteAt p) s).1 ≠ 0 → NotesFormed seg visit p s
  | goesOn {p : Nat} {s : σ} : p < seg.size → (seg.noteAt p).Within seg →
      (visit (seg.noteAt p) s).1 = 0 → (seg.noteAt p).noteSize h ≠ 0 →
      NotesFormed seg visit (p + (seg.noteAt p).noteSize h) (visit (seg.noteAt p) s).2 →
      NotesFormed seg visit p s

section Visits

variable {seg : NoteSegment h} {visit : Note → σ → Int × σ} {p : Nat} {s : σ} {seen : List Note}

/-- One round of the loop. -/
theorem visitNotes_logged (before : p < seg.size) (header : p + nhdrSize ≤ seg.size) (fuel : Nat) :
    visitNotes seg (logged visit) (fuel + 1) p (s, seen) =
      if (visit (seg.noteAt p) s).1 ≠ 0 then
        .ok ((visit (seg.noteAt p) s).1, (visit (seg.noteAt p) s).2, seen ++ [seg.noteAt p])
      else visitNotes seg (logged visit) fuel ((p + (seg.noteAt p).noteSize h) % 2 ^ h.bits)
        ((visit (seg.noteAt p) s).2, seen ++ [seg.noteAt p]) := by
  rw [visitNotes, if_pos before, readNote_eq header]
  rfl

/-- What the walk visits of a segment that has notes. -/
theorem NotesFormed.visited (formed : NotesFormed seg visit p s) (seen : List Note) :
    ∃ fuel ret s' later,
      visitNotes seg (logged visit) fuel p (s, seen) = .ok (ret, s', seen ++ later) ∧
        (∀ n ∈ later, n.Within seg ∧ p ≤ n.header) ∧
        later.Pairwise fun n n' => n.header < n'.header := by
  induction formed generalizing seen with
  | @past p s past =>
      refine ⟨1, 0, s, [], ?_, by simp, .nil⟩
      rw [visitNotes, if_neg (Nat.not_lt.mpr past), List.append_nil]
      rfl
  | @stops p s before within stops =>
      refine ⟨1, (visit (seg.noteAt p) s).1, (visit (seg.noteAt p) s).2, [seg.noteAt p], ?_, ?_,
        List.pairwise_singleton _ _⟩
      · rw [visitNotes_logged before within.header, if_pos stops]
      · intro n mem
        obtain rfl := List.mem_singleton.mp mem
        exact ⟨within, Nat.le_refl p⟩
  | @goesOn p s before within goesOn moves _ ih =>
      obtain ⟨fuel, ret, s', later, visited, inside, ordered⟩ := ih (seen ++ [seg.noteAt p])
      refine ⟨fuel + 1, ret, s', seg.noteAt p :: later, ?_, ?_, ?_⟩
      · rw [visitNotes_logged before within.header, if_neg (not_not.mpr goesOn),
          Nat.mod_eq_of_lt within.step_lt, visited, List.append_assoc]
        rfl
      · intro n mem
        cases List.mem_cons.mp mem with
        | inl here =>
            subst here
            exact ⟨within, Nat.le_refl p⟩
        | inr later => exact ⟨(inside n later).1, by have := (inside n later).2; omega⟩
      · refine List.pairwise_cons.mpr ⟨fun n mem => ?_, ordered⟩
        have behind := (inside n mem).2
        change p < n.header
        omega

/-- A walk that stays inside goes along notes. -/
theorem notesFormed_of_visited {fuel : Nat} {ret : Int} {s' : σ} {all : List Note}
    (visited : visitNotes seg (logged visit) fuel p (s, seen) = .ok (ret, s', all)) :
    ∃ later, all = seen ++ later ∧ (p < seg.size → ∃ rest, later = seg.noteAt p :: rest) ∧
      ((∀ n ∈ later, n.Within seg) → (later.Pairwise fun n n' => n.header < n'.header) →
        NotesFormed seg visit p s) := by
  induction fuel generalizing p s seen with
  | zero => cases visited
  | succ fuel ih =>
      by_cases before : p < seg.size
      · have header : p + nhdrSize ≤ seg.size := by
          rw [visitNotes, if_pos before] at visited
          obtain ⟨n, read, -⟩ := bind_eq_ok.mp visited
          exact (readNote_ok read).2
        rw [visitNotes_logged before header] at visited
        by_cases stops : (visit (seg.noteAt p) s).1 ≠ 0
        · rw [if_pos stops] at visited
          cases visited
          exact ⟨[seg.noteAt p], rfl, fun _ => ⟨[], rfl⟩,
            fun inside _ => .stops before (inside _ List.mem_cons_self) stops⟩
        · rw [if_neg stops] at visited
          obtain ⟨later, rfl, next, formed⟩ := ih visited
          refine ⟨seg.noteAt p :: later, by simp, fun _ => ⟨later, rfl⟩, fun inside ordered => ?_⟩
          have within := inside _ List.mem_cons_self
          rw [Nat.mod_eq_of_lt within.step_lt] at next formed
          rw [List.pairwise_cons] at ordered
          -- a note of no size would be visited again
          have moves : (seg.noteAt p).noteSize h ≠ 0 := by
            intro stays
            rw [stays] at next
            obtain ⟨rest, rfl⟩ := next before
            exact absurd (ordered.1 _ List.mem_cons_self) (lt_irrefl p)
          exact .goesOn before within (not_not.mp stops) moves
            (formed (fun n mem => inside n (List.mem_cons_of_mem _ mem)) ordered.2)
      · rw [visitNotes, if_neg before] at visited
        cases visited
        exact ⟨[], (List.append_nil _).symm, fun inside => absurd inside before,
          fun _ _ => .past (Nat.not_lt.mp before)⟩

end Visits

/-- Exactly when the walk ends and stays in its segment, whatever the visitor does. -/
theorem visitNotes_inside_iff (seg : NoteSegment h) (visit : Note → σ → Int × σ) (s : σ) :
    VisitsInside seg visit s ↔ NotesFormed seg visit 0 s := by
  constructor
  · rintro ⟨fuel, ret, s', seen, visited, inside, ordered⟩
    obtain ⟨later, rfl, -, formed⟩ := notesFormed_of_visited visited
    exact formed inside ordered
  · intro formed
    obtain ⟨fuel, ret, s', later, visited, inside, ordered⟩ := formed.visited []
    exact ⟨fuel, ret, s', later, visited, fun n mem => (inside n mem).1, ordered⟩

/-- A note with the name "CORE", whose sizes add up to 2^32. -/
def endlessNote : NoteSegment .lp64 where
  bytes := [4, 0, 0, 0, 0xf0, 0xff, 0xff, 0xff, 1, 0, 0, 0, 0x43, 0x4f, 0x52, 0x45]
  bigEndian := false
  fits := by decide

theorem endlessNote_visited_again : ¬VisitsInside endlessNote (fun _ (s : Unit) => (0, s)) () := by
  have never (fuel : Nat) (seen : List Note) :
      visitNotes endlessNote (logged fun _ (s : Unit) => (0, s)) fuel 0 ((), seen) =
        .error .timeout := by
    induction fuel generalizing seen with
    | zero => rfl
    | succ fuel ih =>
        rw [visitNotes_logged (by decide) (by decide)]
        exact ih _
  rintro ⟨fuel, ret, s', seen, visited, -⟩
  cases (never fuel []).symm.trans visited

/-! ## Visitors that never stop -/

/-- The notes that a segment is made up of, from a place on. -/
inductive ConsistsOf (seg : NoteSegment h) : Nat → List Note → Prop where
  | nil {p : Nat} : seg.size ≤ p → ConsistsOf seg p []
  | cons {p : Nat} {notes : List Note} : p < seg.size → (seg.noteAt p).Within seg →
      (seg.noteAt p).noteSize h ≠ 0 → ConsistsOf seg (p + (seg.noteAt p).noteSize h) notes →
      ConsistsOf seg p (seg.noteAt p :: notes)

/-- `_UCD_elf_visit_notes`; each round but the last gets on by a byte at least, or none does. -/
def visitAll (seg : NoteSegment h) (visit : NoteVisitor σ) (s : σ) : Result σ :=
  (visitNotes seg visit (seg.size + 1) 0 s).map Prod.snd

theorem map_eq_ok {α β : Type} {r : Result α} {f : α → β} {b : β} :
    r.map f = .ok b ↔ ∃ a, r = .ok a ∧ f a = b := by
  cases r with
  | error fault => simp [Except.map]
  | ok a => simp [Except.map]

/-- Two visitors that go along with each other. -/
theorem visitNotes_related {τ : Type} {seg : NoteSegment h} {visit : NoteVisitor σ}
    {visit' : NoteVisitor τ} {related : σ → τ → Prop}
    (kept : ∀ n s t ret t', related s t → visit' n t = .ok (ret, t') →
      ∃ s', visit n s = .ok (ret, s') ∧ related s' t')
    {fuel p : Nat} {s : σ} {t t' : τ} {ret : Int} (before : related s t)
    (visited : visitNotes seg visit' fuel p t = .ok (ret, t')) :
    ∃ s', visitNotes seg visit fuel p s = .ok (ret, s') ∧ related s' t' := by
  induction fuel generalizing p s t with
  | zero => cases visited
  | succ fuel ih =>
      rw [visitNotes] at visited ⊢
      by_cases inside : p < seg.size
      · rw [if_pos inside] at visited ⊢
        obtain ⟨n, read, visited⟩ := bind_eq_ok.mp visited
        obtain ⟨⟨stop, t₁⟩, first, visited⟩ := bind_eq_ok.mp visited
        obtain ⟨s₁, first', between⟩ := kept n s t stop t₁ before first
        simp only [read, first', ok_bind]
        by_cases stops : stop ≠ 0
        · simp only [if_pos stops] at visited ⊢
          cases visited
          exact ⟨s₁, rfl, between⟩
        · simp only [if_neg stops] at visited ⊢
          exact ih between visited
      · rw [if_neg inside] at visited ⊢
        cases visited
        exact ⟨s, rfl, before⟩

theorem visitAll_related {τ : Type} {seg : NoteSegment h} {next : Note → σ → Result σ}
    {next' : Note → τ → Result τ} {related : σ → τ → Prop}
    (kept : ∀ n s t t', related s t → next' n t = .ok t' → ∃ s', next n s = .ok s' ∧ related s' t')
    {s : σ} {t t' : τ} (before : related s t)
    (visited : visitAll seg (fun n t => (next' n t).map fun t => (0, t)) t = .ok t') :
    ∃ s', visitAll seg (fun n s => (next n s).map fun s => (0, s)) s = .ok s' ∧ related s' t' := by
  have along (n : Note) (s : σ) (t : τ) (ret : Int) (t' : τ) (before : related s t)
      (called : (next' n t).map (fun t => ((0 : Int), t)) = .ok (ret, t')) :
      ∃ s', (next n s).map (fun s => ((0 : Int), s)) = .ok (ret, s') ∧ related s' t' := by
    obtain ⟨t₁, called, same⟩ := map_eq_ok.mp called
    cases same
    obtain ⟨s', called', after⟩ := kept n s t _ before called
    exact ⟨s', by rw [called']; rfl, after⟩
  rw [visitAll] at visited
  obtain ⟨⟨ret, last⟩, walked, same⟩ := map_eq_ok.mp visited
  obtain ⟨s', walked', after⟩ := visitNotes_related along before walked
  cases same
  exact ⟨s', by rw [visitAll, walked']; rfl, after⟩

theorem ConsistsOf.within {seg : NoteSegment h} {p : Nat} {notes : List Note}
    (consists : ConsistsOf seg p notes) : ∀ n ∈ notes, n.Within seg := by
  induction consists with
  | nil _ => simp
  | cons _ within _ _ ih => exact List.forall_mem_cons.mpr ⟨within, ih⟩

theorem ConsistsOf.visitNotes {seg : NoteSegment h} {p : Nat} {notes : List Note}
    (consists : ConsistsOf seg p notes) {next : Note → σ → Result σ} {fuel : Nat}
    (enough : seg.size - p < fuel) (s : σ) :
    visitNotes seg (fun n s => (next n s).map fun s => (0, s)) fuel p s =
      (notes.foldlM (fun s n => next n s) s).map fun s => (0, s) := by
  induction consists generalizing fuel s with
  | @nil p past =>
      obtain ⟨fuel, rfl⟩ : ∃ k, fuel = k + 1 := ⟨fuel - 1, by omega⟩
      rw [Coredump.visitNotes, if_neg (Nat.not_lt.mpr past)]
      rfl
  | @cons p notes before within moves _ ih =>
      obtain ⟨fuel, rfl⟩ : ∃ k, fuel = k + 1 := ⟨fuel - 1, by omega⟩
      rw [Coredump.visitNotes, if_pos before, readNote_eq (p := p) within.header, List.foldlM_cons]
      cases visited : next (seg.noteAt p) s with
      | error fault => simp [visited, Except.map]
      | ok s' =>
          simp only [ok_bind, visited, Except.map, ne_eq, not_true_eq_false, if_false,
            Nat.mod_eq_of_lt within.step_lt]
          exact ih (by omega) s'

theorem ConsistsOf.visitAll {seg : NoteSegment h} {notes : List Note}
    (consists : ConsistsOf seg 0 notes) (next : Note → σ → Result σ) (s : σ) :
    visitAll seg (fun n s => (next n s).map fun s => (0, s)) s =
      notes.foldlM (fun s n => next n s) s := by
  rw [Coredump.visitAll, consists.visitNotes (by omega)]
  cases notes.foldlM (fun s n => next n s) s with
  | error fault => rfl
  | ok s' => rfl

end Libunwind.Coredump
