import Libunwind.Coredump.Notes

/-! # The threads of a core dump

`_UCD_get_threadinfo` counts the status notes of a segment, makes room for so many threads more,
and saves the notes in a second pass. An index goes by how many threads were saved before.
-/

namespace Libunwind.Coredump

open Elf

variable {h : DataModel}

def ntPrstatus : BitVec 32 := 1
def ntFpregset : BitVec 32 := 2

/-- `struct UCD_thread_info`, in a build that has `elf_fpregset_t`. -/
structure ThreadBuild where
  /-- `HAVE_STRUCT_ELF_PRSTATUS` -/
  haveStructElfPrstatus : Bool
  sizeofProcStatus : Nat
  /-- `offsetof(UCD_proc_status_t, pr_reg)` -/
  prReg : Nat
  sizeofPrReg : Nat
  sizeofFpregset : Nat
  sizeofThreadInfo : Nat
  sizeofThreadInfo_pos : 0 < sizeofThreadInfo

/-- An element of `threads`; what was not written yet is `none`. -/
structure ThreadInfo where
  prstatus : Option (List Byte) := none
  fpregset : Option (List Byte) := none
  deriving DecidableEq, Repr

/-- The fields of `UCD_info` that are about threads. -/
structure UcdThreads where
  threads : Option (List ThreadInfo) := none
  nThreads : Nat := 0
  deriving DecidableEq, Repr

/-- A program header, and what `_UCD_elf_read_segment` makes of it. -/
structure NotePhdr (h : DataModel) where
  pType : BitVec 32
  segment : Option (NoteSegment h)

/-- Reading so many bytes. -/
def NoteSegment.copy (seg : NoteSegment h) (off len : Nat) : Result (List Byte) :=
  if off + len ≤ seg.size then .ok ((seg.bytes.drop off).take len) else .error .undefined

section Source

variable (b : ThreadBuild) (seg : NoteSegment h)

/-- `_count_thread_notes` -/
def countThreadNotes (n : Note) (threadCount : Nat) : Result Nat :=
  pure (if n.type = ntPrstatus then threadCount + 1 else threadCount)

/-- What is copied of a status note. -/
def copyStatus (n : Note) : Result (List Byte) := do
  let descsz := n.descsz.toNat
  let copySz := if descsz < b.sizeofProcStatus then descsz else b.sizeofProcStatus
  let copied ← seg.copy (n.desc h) copySz
  let dst := copied ++ List.replicate (b.sizeofProcStatus - copySz) 0
  if b.haveStructElfPrstatus ∧ descsz ≠ b.sizeofProcStatus ∧ b.sizeofPrReg + 4 ≤ descsz then
    let actualPrRegOff := descsz - b.sizeofPrReg - 4
    if actualPrRegOff ≠ b.prReg then do
      let regs ← seg.copy (n.desc h + actualPrRegOff) b.sizeofPrReg
      pure (dst.take b.prReg ++ regs ++ dst.drop (b.prReg + b.sizeofPrReg))
    else pure dst
  else pure dst

/-- A write to `threads[i]`. -/
def UcdThreads.write (ui : UcdThreads) (i : Int) (f : ThreadInfo → ThreadInfo) :
    Result UcdThreads :=
  match ui.threads with
  | none => .error .undefined
  | some threads =>
      if 0 ≤ i ∧ i.toNat < threads.length then
        .ok { ui with threads := some (threads.modify i.toNat f) }
      else .error .undefined

/-- `_save_thread_notes` -/
def saveThreadNotes (n : Note) (ui : UcdThreads) : Result UcdThreads := do
  let ui ← (
    if n.type = ntPrstatus then do
      let status ← copyStatus b seg n
      let ui ← ui.write ui.nThreads fun t => { t with prstatus := some status }
      -- `n_threads` is an `int`
      if ui.nThreads + 1 < 2 ^ 31 then pure { ui with nThreads := ui.nThreads + 1 }
      else .error .undefined
    else pure ui)
  if n.type = ntFpregset then do
    let fpregset ← seg.copy (n.desc h) b.sizeofFpregset
    ui.write ((ui.nThreads : Int) - 1) fun t => { t with fpregset := some fpregset }
  else pure ui

/-- The `realloc` of `threads`, where it gives memory. -/
def UcdThreads.realloc (h : DataModel) (ui : UcdThreads) (threadCount : Nat) : UcdThreads :=
  let newSize := b.sizeofThreadInfo * (ui.nThreads + threadCount) % 2 ^ h.bits
  let room := newSize / b.sizeofThreadInfo
  let kept := (ui.threads.getD []).take room
  { ui with threads := some (kept ++ List.replicate (room - kept.length) {}) }

/-- The loop over the program headers; `grants k` tells whether call `k` of `realloc` gives
    memory. -/
def threadinfoLoop (grants : Nat → Bool) :
    List (NotePhdr h) → Nat → Except UnwError Unit → UcdThreads →
      Result (Except UnwError Unit × UcdThreads)
  | [], _, ret, ui => pure (ret, ui)
  | phdr :: phdrs, k, ret, ui =>
      if phdr.pType ≠ ptNote then threadinfoLoop grants phdrs k ret ui
      else
        match phdr.segment with
        | none => threadinfoLoop grants phdrs k (.error .unspec) ui
        | some seg => do
            let threadCount ← visitAll seg
              (fun n s => (countThreadNotes n s).map fun s => (0, s)) 0
            if grants k then do
              let ui ← visitAll seg (fun n s => (saveThreadNotes b seg n s).map fun s => (0, s))
                (ui.realloc b h threadCount)
              threadinfoLoop grants phdrs (k + 1) (.ok ()) ui
            else pure (.error .unspec, { ui with threads := none })

/-- `_UCD_get_threadinfo` -/
def getThreadinfo (grants : Nat → Bool) (phdrs : List (NotePhdr h)) :
    Result (Except UnwError Unit × UcdThreads) :=
  threadinfoLoop b grants phdrs 0 (.error .noinfo) {}

end Source

/-! ## Notes and the threads they belong to -/

def notesFrom (seg : NoteSegment h) : Nat → Nat → List Note
  | 0, _ => []
  | fuel + 1, p =>
      if p < seg.size then seg.noteAt p :: notesFrom seg fuel (p + (seg.noteAt p).noteSize h) else []

/-- The notes of a segment. -/
def NoteSegment.notes (seg : NoteSegment h) : List Note := notesFrom seg (seg.size + 1) 0

/-- A note with the segment it is in. -/
structure Entry (h : DataModel) where
  seg : NoteSegment h
  note : Note

def NoteSegment.entries (seg : NoteSegment h) : List (Entry h) := seg.notes.map (Entry.mk seg)

/-- The segments that are read, and whether there is memory for the threads of each. -/
def segmentsRead (grants : Nat → Bool) : List (NotePhdr h) → Nat → List (NoteSegment h × Bool)
  | [], _ => []
  | phdr :: phdrs, k =>
      if phdr.pType ≠ ptNote then segmentsRead grants phdrs k
      else
        match phdr.segment with
        | none => segmentsRead grants phdrs k
        | some seg =>
            (seg, grants k) :: if grants k then segmentsRead grants phdrs (k + 1) else []

/-- The notes of some segments, in their order. -/
def notesOf (segs : List (NoteSegment h × Bool)) : List (Entry h) :=
  segs.flatMap fun seg => seg.1.entries

/-- All notes of the segments that are read. -/
def notesRead (grants : Nat → Bool) (phdrs : List (NotePhdr h)) : List (Entry h) :=
  notesOf (segmentsRead grants phdrs 0)

/-- Those that are saved. -/
def notesSaved (segs : List (NoteSegment h × Bool)) : List (Entry h) :=
  notesOf (segs.filter fun seg => seg.2)

namespace Entry

def IsStatus (e : Entry h) : Prop := e.note.type = ntPrstatus

def IsFpregset (e : Entry h) : Prop := e.note.type = ntFpregset

instance (e : Entry h) : Decidable e.IsStatus := inferInstanceAs (Decidable (_ = _))

instance (e : Entry h) : Decidable e.IsFpregset := inferInstanceAs (Decidable (_ = _))

variable (b : ThreadBuild) (e : Entry h)

/-- What is copied of a status note, -/
def status : List Byte := (copyStatus b e.seg e.note).toOption.getD []

/-- and of a note with floating-point registers. -/
def fpregset : List Byte := (e.seg.bytes.drop (e.note.desc h)).take b.sizeofFpregset

/-- The registers are in the segment, -/
def InSegment : Prop := e.note.desc h + b.sizeofFpregset ≤ e.seg.size

/-- and all of them in the descriptor. -/
def IsFull : Prop := b.sizeofFpregset ≤ e.note.descsz.toNat

instance : Decidable (e.InSegment b) := inferInstanceAs (Decidable (_ ≤ _))

instance : Decidable (e.IsFull b) := inferInstanceAs (Decidable (_ ≤ _))

end Entry

/-- A status note, and the notes behind it up to the next one. -/
structure ThreadNotes (h : DataModel) where
  status : Entry h
  behind : List (Entry h)

/-- The notes before the first status note, and those of each thread. -/
def threadNotes : List (Entry h) → List (Entry h) × List (ThreadNotes h)
  | [] => ([], [])
  | e :: later =>
      let (behind, threads) := threadNotes later
      if e.IsStatus then ([], ⟨e, behind⟩ :: threads) else (e :: behind, threads)

namespace ThreadNotes

variable (b : ThreadBuild) (t : ThreadNotes h)

/-- The last note with floating-point registers. -/
def lastFpregset : Option (Entry h) := (t.behind.filter fun e => e.IsFpregset).getLast?

/-- What is saved of a thread. -/
def info : ThreadInfo where
  prstatus := some (t.status.status b)
  fpregset := t.lastFpregset.map (Entry.fpregset b)

/-- The status is that of the thread's status note, and the floating-point registers are those of a
    note behind it. -/
def PairedIn (info : ThreadInfo) : Prop :=
  info.prstatus = some (t.status.status b) ∧
    ∃ fp ∈ t.behind, fp.IsFpregset ∧ fp.IsFull b ∧ info.fpregset = some (fp.fpregset b)

/-- Behind the status note there is a note with floating-point registers, and the last one has all
    of them, or the same ones. -/
def Paired : Prop :=
  ∃ last ∈ t.lastFpregset, ∃ fp ∈ t.behind,
    fp.IsFpregset ∧ fp.IsFull b ∧ fp.fpregset b = last.fpregset b

end ThreadNotes

/-- No write was out of bounds, and there is a thread for each status note, with its registers. -/
def ThreadsRight (b : ThreadBuild) (result : Result (Except UnwError Unit × UcdThreads))
    (notes : List (Entry h)) : Prop :=
  ∃ ret ui, result = .ok (ret, ui) ∧ ui.nThreads = notes.countP (fun e => e.IsStatus) ∧
    ∀ (i : Nat) (t : ThreadNotes h), (threadNotes notes).2[i]? = some t →
      ∃ info, (ui.threads.getD [])[i]? = some info ∧ t.PairedIn b info

/-- The notes can be saved one after another. -/
structure Saveable (b : ThreadBuild) (notes : List (Entry h)) : Prop where
  /-- No floating-point registers come before the first status note, or reach over the end. -/
  fpregset : ∀ earlier e later, notes = earlier ++ e :: later → e.IsFpregset →
    (∃ s ∈ earlier, s.IsStatus) ∧ e.InSegment b
  /-- `int` can count the threads, -/
  few : notes.countP (fun e => e.IsStatus) < 2 ^ 31
  /-- and `size_t` their bytes. -/
  small : b.sizeofThreadInfo * notes.countP (fun e => e.IsStatus) < 2 ^ h.bits

section ThreadNotes

variable {notes later : List (Entry h)} {e : Entry h} {b : ThreadBuild}

theorem threadNotes_status (isStatus : e.IsStatus) :
    threadNotes (e :: later) = ([], ⟨e, (threadNotes later).1⟩ :: (threadNotes later).2) := by
  simp only [threadNotes, if_pos isStatus]

theorem threadNotes_other (other : ¬e.IsStatus) :
    threadNotes (e :: later) = (e :: (threadNotes later).1, (threadNotes later).2) := by
  simp only [threadNotes, if_neg other]

/-- There is a thread for each status note. -/
theorem threadNotes_length (notes : List (Entry h)) :
    (threadNotes notes).2.length = notes.countP fun e => e.IsStatus := by
  induction notes with
  | nil => rfl
  | cons e later ih =>
      by_cases isStatus : e.IsStatus
      · rw [threadNotes_status isStatus, List.countP_cons_of_pos (by simpa using isStatus)]
        simp [ih]
      · rw [threadNotes_other isStatus, List.countP_cons_of_neg (by simpa using isStatus), ih]

/-- A status note begins a thread, -/
theorem threadNotes_append_status (notes : List (Entry h)) (isStatus : e.IsStatus) :
    threadNotes (notes ++ [e]) = ((threadNotes notes).1, (threadNotes notes).2 ++ [⟨e, []⟩]) := by
  induction notes with
  | nil => exact threadNotes_status isStatus
  | cons a notes ih =>
      by_cases first : a.IsStatus
      · rw [List.cons_append, threadNotes_status first, threadNotes_status first, ih]
        rfl
      · rw [List.cons_append, threadNotes_other first, threadNotes_other first, ih]

theorem threadNotes_append_before (other : ¬e.IsStatus) (none : (threadNotes notes).2 = []) :
    threadNotes (notes ++ [e]) = ((threadNotes notes).1 ++ [e], []) := by
  induction notes with
  | nil => exact threadNotes_other other
  | cons a notes ih =>
      by_cases first : a.IsStatus
      · rw [threadNotes_status first] at none
        cases none
      · rw [threadNotes_other first] at none ⊢
        rw [List.cons_append, threadNotes_other first, ih none]
        rfl

/-- and any other note belongs to the last one. -/
theorem threadNotes_append_behind {threads : List (ThreadNotes h)} {t : ThreadNotes h}
    (other : ¬e.IsStatus) (last : (threadNotes notes).2 = threads ++ [t]) :
    threadNotes (notes ++ [e]) =
      ((threadNotes notes).1, threads ++ [⟨t.status, t.behind ++ [e]⟩]) := by
  induction notes generalizing threads with
  | nil => simp [threadNotes] at last
  | cons a notes ih =>
      by_cases first : a.IsStatus
      · rw [threadNotes_status first] at last ⊢
        rw [List.cons_append, threadNotes_status first]
        cases threads with
        | nil =>
            obtain ⟨rfl, none⟩ := List.cons.inj last
            rw [threadNotes_append_before other none]
            rfl
        | cons t' threads =>
            obtain ⟨rfl, rest⟩ := List.cons.inj last
            rw [ih rest]
            rfl
      · rw [threadNotes_other first] at last ⊢
        rw [List.cons_append, threadNotes_other first, ih last]

/-- Whether the last of some threads is there. -/
theorem threadNotes_last (some : ∃ s ∈ notes, s.IsStatus) :
    ∃ threads t, (threadNotes notes).2 = threads ++ [t] := by
  have nonempty : (threadNotes notes).2 ≠ [] := by
    rw [← List.length_pos_iff_ne_nil, threadNotes_length, List.countP_pos_iff]
    simpa using some
  exact ⟨_, _, (List.dropLast_append_getLast nonempty).symm⟩

theorem ThreadNotes.pairedIn_info (t : ThreadNotes h) : t.PairedIn b (t.info b) ↔ t.Paired b := by
  simp only [PairedIn, Paired, info, true_and, Option.map_eq_some_iff, Option.mem_def]
  constructor
  · rintro ⟨fp, mem, isFp, full, last, isLast, same⟩
    exact ⟨last, isLast, fp, mem, isFp, full, same.symm⟩
  · rintro ⟨last, isLast, fp, mem, isFp, full, same⟩
    exact ⟨fp, mem, isFp, full, last, isLast, same.symm⟩

end ThreadNotes

/-! ## The second pass -/

section Save

variable {b : ThreadBuild} {seg : NoteSegment h} {n : Note} {ui ui' : UcdThreads}

theorem copy_ok {off len : Nat} (inside : off + len ≤ seg.size) :
    seg.copy off len = .ok ((seg.bytes.drop off).take len) := if_pos inside

/-- A status note in its segment can be copied. -/
theorem copyStatus_ok (within : n.Within seg) :
    copyStatus b seg n = .ok (Entry.status b ⟨seg, n⟩) := by
  have desc := within.desc
  have copies : ∃ status, copyStatus b seg n = .ok status := by
    unfold copyStatus
    have small : n.desc h + (if n.descsz.toNat < b.sizeofProcStatus then n.descsz.toNat
        else b.sizeofProcStatus) ≤ seg.size := by
      split
      · exact desc
      · omega
    simp only [copy_ok small, ok_bind]
    split
    next large =>
      have inside : n.desc h + (n.descsz.toNat - b.sizeofPrReg - 4) + b.sizeofPrReg ≤ seg.size := by
        omega
      rw [copy_ok inside]
      split
      · exact ⟨_, rfl⟩
      · exact ⟨_, rfl⟩
    · exact ⟨_, rfl⟩
  obtain ⟨status, copied⟩ := copies
  rw [Entry.status, copied]
  rfl

theorem write_ok {i : Int} {f : ThreadInfo → ThreadInfo} (written : ui.write i f = .ok ui') :
    0 ≤ i ∧ i.toNat < (ui.threads.getD []).length ∧ ui'.nThreads = ui.nThreads ∧
      (ui'.threads.getD []).length = (ui.threads.getD []).length := by
  unfold UcdThreads.write at written
  cases threads : ui.threads with
  | none => simp [threads] at written
  | some arr =>
      simp only [threads] at written
      split at written
      next inside =>
        obtain rfl := Except.ok.inj written
        simp [inside.1, inside.2]
      · cases written

/-- What saving a note goes through. -/
theorem saveThreadNotes_ok (saved : saveThreadNotes b seg n ui = .ok ui') :
    ui'.nThreads = ui.nThreads + (if n.type = ntPrstatus then 1 else 0) ∧
      (ui'.threads.getD []).length = (ui.threads.getD []).length ∧
      (n.type = ntPrstatus →
        ui'.nThreads ≤ (ui.threads.getD []).length ∧ ui'.nThreads < 2 ^ 31) ∧
      (n.type = ntFpregset → 0 < ui.nThreads ∧ n.desc h + b.sizeofFpregset ≤ seg.size) := by
  unfold saveThreadNotes at saved
  by_cases isStatus : n.type = ntPrstatus
  · have notFp : n.type ≠ ntFpregset := by
      rw [isStatus]
      decide
    simp only [if_pos isStatus, if_neg notFp] at saved
    obtain ⟨ui₁, status, last⟩ := bind_eq_ok.mp saved
    obtain rfl := Except.ok.inj last
    obtain ⟨bytes, -, status⟩ := bind_eq_ok.mp status
    obtain ⟨ui₂, written, status⟩ := bind_eq_ok.mp status
    obtain ⟨-, inside, same, length⟩ := write_ok written
    split at status
    next few =>
      obtain rfl := Except.ok.inj status
      simp only [if_pos isStatus, same, length, true_and, notFp, false_implies, and_true]
      intro _
      rw [same] at few
      simp only [Int.toNat_natCast] at inside
      omega
    · cases status
  · simp only [if_neg isStatus, pure_eq_ok, ok_bind] at saved
    by_cases isFp : n.type = ntFpregset
    · simp only [if_pos isFp] at saved
      obtain ⟨bytes, copied, written⟩ := bind_eq_ok.mp saved
      obtain ⟨positive, -, same, length⟩ := write_ok written
      unfold NoteSegment.copy at copied
      split at copied
      next inside =>
        refine ⟨by simp [same, isStatus], length, fun status => absurd status isStatus,
          fun _ => ⟨by omega, inside⟩⟩
      · cases copied
    · rw [if_neg isFp] at saved
      obtain rfl := Except.ok.inj saved
      simp [isStatus, isFp]

/-- What the second pass goes through. -/
theorem saveAll_ok {notes : List Note}
    (saved : notes.foldlM (fun s n => saveThreadNotes b seg n s) ui = .ok ui') :
    ui'.nThreads = ui.nThreads + (notes.map (Entry.mk seg)).countP (fun e => e.IsStatus) ∧
      ((∃ e ∈ notes.map (Entry.mk seg), e.IsStatus) →
        ui'.nThreads ≤ (ui.threads.getD []).length ∧ ui'.nThreads < 2 ^ 31) ∧
      ∀ earlier e later, notes.map (Entry.mk seg) = earlier ++ e :: later → e.IsFpregset →
        (0 < ui.nThreads ∨ ∃ s ∈ earlier, s.IsStatus) ∧ e.InSegment b := by
  induction notes generalizing ui with
  | nil =>
      obtain rfl := Except.ok.inj saved
      simp
  | cons n notes ih =>
      rw [List.foldlM_cons] at saved
      obtain ⟨ui₁, first, rest⟩ := bind_eq_ok.mp saved
      obtain ⟨count, length, status, fp⟩ := saveThreadNotes_ok first
      obtain ⟨counts, statuses, fps⟩ := ih rest
      refine ⟨?_, ?_, ?_⟩
      · have here : (if decide (Entry.IsStatus ⟨seg, n⟩) = true then 1 else 0) =
            if n.type = ntPrstatus then 1 else 0 := by
          by_cases isStatus : n.type = ntPrstatus
          · simp [Entry.IsStatus, isStatus]
          · simp [Entry.IsStatus, isStatus]
        rw [counts, count, List.map_cons, List.countP_cons, here]
        omega
      · rintro ⟨e, mem, isStatus⟩
        rw [List.map_cons, List.mem_cons] at mem
        rw [length] at statuses
        by_cases more : ∃ e ∈ notes.map (Entry.mk seg), e.IsStatus
        · exact statuses more
        · cases mem with
          | inl here =>
              subst here
              have none : (notes.map (Entry.mk seg)).countP (fun e => e.IsStatus) = 0 := by
                rw [List.countP_eq_zero]
                intro e mem isStatus
                exact more ⟨e, mem, by simpa using isStatus⟩
              rw [counts, none]
              exact status isStatus
          | inr later => exact absurd ⟨e, later, isStatus⟩ more
      · intro earlier e later apart isFp
        cases earlier with
        | nil =>
            obtain ⟨rfl, -⟩ := List.cons.inj apart
            obtain ⟨positive, inside⟩ := fp isFp
            exact ⟨.inl positive, inside⟩
        | cons a earlier =>
            obtain ⟨rfl, behind⟩ := List.cons.inj apart
            obtain ⟨before, inside⟩ := fps earlier e later behind isFp
            refine ⟨?_, inside⟩
            by_cases isStatus : n.type = ntPrstatus
            · exact .inr ⟨⟨seg, n⟩, List.mem_cons_self, isStatus⟩
            · rw [if_neg isStatus, Nat.add_zero] at count
              rw [count] at before
              exact before.imp_right fun ⟨s, mem, status⟩ => ⟨s, List.mem_cons_of_mem _ mem, status⟩

end Save

section Saved

variable {b : ThreadBuild} {notes : List (Entry h)} {e : Entry h}

/-- The threads of some notes, and room for more. -/
def tableOf (b : ThreadBuild) (notes : List (Entry h)) (spare : Nat) : UcdThreads where
  threads := some ((threadNotes notes).2.map (ThreadNotes.info b) ++ List.replicate spare {})
  nThreads := (threadNotes notes).2.length

theorem modify_append {α : Type} (front : List α) (a : α) (rest : List α) (f : α → α) :
    (front ++ a :: rest).modify front.length f = front ++ f a :: rest := by
  induction front with
  | nil => rfl
  | cons c front ih => rw [List.cons_append, List.length_cons, List.modify_succ_cons, ih]; rfl

theorem write_append {front rest : List ThreadInfo} {a : ThreadInfo} {count : Nat} {i : Int}
    (f : ThreadInfo → ThreadInfo) (here : i = front.length) :
    UcdThreads.write ⟨some (front ++ a :: rest), count⟩ i f =
      .ok ⟨some (front ++ f a :: rest), count⟩ := by
  subst here
  have inside : front.length < (front ++ a :: rest).length := by simp
  simp only [UcdThreads.write, Int.toNat_natCast, Int.natCast_nonneg, inside, and_self, if_true,
    modify_append]

theorem saveThreadNotes_status (within : e.note.Within e.seg) (isStatus : e.IsStatus) {spare : Nat}
    (few : (threadNotes notes).2.length + 1 < 2 ^ 31) :
    saveThreadNotes b e.seg e.note (tableOf b notes (spare + 1)) =
      .ok (tableOf b (notes ++ [e]) spare) := by
  have type : e.note.type = ntPrstatus := isStatus
  have notFp : e.note.type ≠ ntFpregset := by
    rw [type]
    decide
  simp only [saveThreadNotes, if_pos type, if_neg notFp, copyStatus_ok within, ok_bind]
  rw [tableOf, List.replicate_succ, write_append _ (by simp), ok_bind, if_pos few, tableOf,
    threadNotes_append_status notes isStatus, List.map_append, List.append_assoc, List.length_append]
  rfl

theorem saveThreadNotes_fpregset (isFp : e.IsFpregset) (before : ∃ s ∈ notes, s.IsStatus)
    (inside : e.InSegment b) (spare : Nat) :
    saveThreadNotes b e.seg e.note (tableOf b notes spare) =
      .ok (tableOf b (notes ++ [e]) spare) := by
  have notStatus : ¬e.IsStatus := by
    intro isStatus
    exact absurd (isStatus.symm.trans isFp) (by decide)
  obtain ⟨threads, t, last⟩ := threadNotes_last before
  have saved : ThreadNotes.info b ⟨t.status, t.behind ++ [e]⟩ =
      { t.info b with fpregset := some (e.fpregset b) } := by
    have isLast : ([e].filter fun e => e.IsFpregset).getLast? = some e := by simp [isFp]
    rw [ThreadNotes.info, ThreadNotes.lastFpregset, List.filter_append, List.getLast?_append,
      isLast]
    rfl
  have type : e.note.type = ntFpregset := isFp
  have other : e.note.type ≠ ntPrstatus := notStatus
  rw [saveThreadNotes, if_neg other, pure_eq_ok, ok_bind, if_pos type, copy_ok inside, ok_bind,
    tableOf, last, List.map_append, List.append_assoc, List.map_singleton, List.singleton_append,
    write_append _ (by simp), tableOf, threadNotes_append_behind notStatus last, List.map_append,
    List.append_assoc, List.map_singleton, saved, List.length_append, List.length_append]
  rfl

theorem saveThreadNotes_other (notStatus : ¬e.IsStatus) (notFp : ¬e.IsFpregset) (spare : Nat) :
    saveThreadNotes b e.seg e.note (tableOf b notes spare) =
      .ok (tableOf b (notes ++ [e]) spare) := by
  have other : e.note.type ≠ ntPrstatus := notStatus
  have noRegisters : e.note.type ≠ ntFpregset := notFp
  rw [saveThreadNotes, if_neg other, pure_eq_ok, ok_bind, if_neg noRegisters, pure_eq_ok]
  by_cases before : ∃ s ∈ notes, s.IsStatus
  · obtain ⟨threads, t, last⟩ := threadNotes_last before
    have saved : ThreadNotes.info b ⟨t.status, t.behind ++ [e]⟩ = t.info b := by
      have none : ([e].filter fun e => e.IsFpregset) = [] := by simp [notFp]
      rw [ThreadNotes.info, ThreadNotes.lastFpregset, List.filter_append, none, List.append_nil]
      rfl
    rw [tableOf, tableOf, threadNotes_append_behind notStatus last, last]
    simp [saved]
  · have none : (threadNotes notes).2 = [] := by
      rw [← List.length_eq_zero_iff, threadNotes_length, List.countP_eq_zero]
      intro s mem isStatus
      exact before ⟨s, mem, by simpa using isStatus⟩
    rw [tableOf, tableOf, threadNotes_append_before notStatus none, none]

/-- The second pass fills the room that the first one made. -/
theorem saveAll_saveable {seg : NoteSegment h} (more : List Note) (within : ∀ n ∈ more, n.Within seg)
    (saveable : Saveable b (notes ++ more.map (Entry.mk seg))) :
    more.foldlM (fun s n => saveThreadNotes b seg n s)
        (tableOf b notes ((more.map (Entry.mk seg)).countP fun e => e.IsStatus)) =
      .ok (tableOf b (notes ++ more.map (Entry.mk seg)) 0) := by
  induction more generalizing notes with
  | nil =>
      rw [List.map_nil, List.append_nil]
      rfl
  | cons n more ih =>
      have joined : notes ++ (n :: more).map (Entry.mk seg) =
          (notes ++ [⟨seg, n⟩]) ++ more.map (Entry.mk seg) := by simp
      have within := List.forall_mem_cons.mp within
      have rest := ih within.2 (joined ▸ saveable)
      have first : saveThreadNotes b seg n
            (tableOf b notes (((n :: more).map (Entry.mk seg)).countP fun e => e.IsStatus)) =
          .ok (tableOf b (notes ++ [⟨seg, n⟩])
            ((more.map (Entry.mk seg)).countP fun e => e.IsStatus)) := by
        by_cases isStatus : Entry.IsStatus ⟨seg, n⟩
        · have few := saveable.few
          rw [joined, List.countP_append, List.countP_append, List.countP_singleton] at few
          rw [List.map_cons, List.countP_cons_of_pos (by simpa using isStatus)]
          refine saveThreadNotes_status (e := ⟨seg, n⟩) within.1 isStatus ?_
          rw [threadNotes_length]
          simp only [isStatus, decide_true, if_true] at few
          omega
        · rw [List.map_cons, List.countP_cons_of_neg (by simpa using isStatus)]
          by_cases isFp : Entry.IsFpregset ⟨seg, n⟩
          · obtain ⟨before, inside⟩ := saveable.fpregset notes ⟨seg, n⟩
              (more.map (Entry.mk seg)) (by simp) isFp
            exact saveThreadNotes_fpregset (e := ⟨seg, n⟩) isFp before inside _
          · exact saveThreadNotes_other (e := ⟨seg, n⟩) isStatus isFp _
      rw [List.foldlM_cons, first, ok_bind, rest, joined]

end Saved

/-! ## All segments -/

section Segments

variable {b : ThreadBuild} {notes : List (Entry h)} {seg : NoteSegment h} {ui : UcdThreads}

/-- The segment is made up of its notes. -/
def NoteSegment.Formed (seg : NoteSegment h) : Prop := ConsistsOf seg 0 seg.notes

theorem Saveable.of_append {later : List (Entry h)} (saveable : Saveable b (notes ++ later)) :
    Saveable b notes where
  fpregset earlier e rest apart isFp :=
    saveable.fpregset earlier e (rest ++ later) (by rw [apart]; simp) isFp
  few := by
    have few := saveable.few
    rw [List.countP_append] at few
    omega
  small := by
    have small := saveable.small
    rw [List.countP_append, Nat.mul_add] at small
    omega

theorem countAll (seg : NoteSegment h) (more : List Note) (threadCount : Nat) :
    more.foldlM (fun s n => countThreadNotes n s) threadCount =
      .ok (threadCount + (more.map (Entry.mk seg)).countP fun e => e.IsStatus) := by
  induction more generalizing threadCount with
  | nil => rfl
  | cons n more ih =>
      rw [List.foldlM_cons, countThreadNotes, pure_eq_ok, ok_bind, ih, List.map_cons,
        List.countP_cons]
      by_cases isStatus : n.type = ntPrstatus
      · simp only [Entry.IsStatus, isStatus, if_true, decide_true]
        congr 1
        omega
      · simp [Entry.IsStatus, isStatus]

/-- The threads of some notes are there. -/
structure Filled (b : ThreadBuild) (notes : List (Entry h)) (ui : UcdThreads) : Prop where
  nThreads : ui.nThreads = (threadNotes notes).2.length
  threads : ui.threads.getD [] = (threadNotes notes).2.map (ThreadNotes.info b)

theorem tableOf_filled : Filled b notes (tableOf b notes 0) where
  nThreads := rfl
  threads := List.append_nil _

theorem Filled.count (filled : Filled b notes ui) :
    ui.nThreads = notes.countP fun e => e.IsStatus :=
  filled.nThreads.trans (threadNotes_length notes)

theorem Filled.realloc (filled : Filled b notes ui) {count : Nat}
    (small : b.sizeofThreadInfo * (ui.nThreads + count) < 2 ^ h.bits) :
    ui.realloc b h count = tableOf b notes count := by
  have room : b.sizeofThreadInfo * (ui.nThreads + count) % 2 ^ h.bits / b.sizeofThreadInfo =
      ui.nThreads + count := by
    rw [Nat.mod_eq_of_lt small, Nat.mul_div_cancel_left _ b.sizeofThreadInfo_pos]
  have length : ((threadNotes notes).2.map (ThreadNotes.info b)).length = ui.nThreads := by
    rw [List.length_map, filled.nThreads]
  rw [UcdThreads.realloc, tableOf, room, filled.threads, List.take_of_length_le (by omega), length,
    Nat.add_sub_cancel_left, filled.nThreads]

/-- Where the second pass gets through a segment, there was room for its threads. -/
theorem small_of_room {count : Nat} (before : b.sizeofThreadInfo * ui.nThreads < 2 ^ h.bits)
    (room : 0 < count → ui.nThreads + count ≤ ((ui.realloc b h count).threads.getD []).length) :
    b.sizeofThreadInfo * (ui.nThreads + count) < 2 ^ h.bits := by
  cases count with
  | zero => exact before
  | succ count =>
      have enough := room (Nat.succ_pos count)
      have length : ((ui.realloc b h (count + 1)).threads.getD []).length =
          b.sizeofThreadInfo * (ui.nThreads + (count + 1)) % 2 ^ h.bits / b.sizeofThreadInfo := by
        simp only [UcdThreads.realloc, Option.getD_some, List.length_append, List.length_take,
          List.length_replicate]
        omega
      rw [length, Nat.le_div_iff_mul_le b.sizeofThreadInfo_pos, Nat.mul_comm] at enough
      exact enough.trans_lt (Nat.mod_lt _ (Nat.two_pow_pos _))

/-- Both passes over a segment, where there is memory. -/
theorem segment_saved (formed : seg.Formed) (filled : Filled b notes ui)
    (saveable : Saveable b (notes ++ seg.entries)) :
    visitAll seg (fun n s => (saveThreadNotes b seg n s).map fun s => (0, s))
        (ui.realloc b h (seg.entries.countP fun e => e.IsStatus)) =
      .ok (tableOf b (notes ++ seg.entries) 0) := by
  have small := saveable.small
  rw [List.countP_append, ← filled.count] at small
  rw [formed.visitAll, filled.realloc small]
  exact saveAll_saveable seg.notes formed.within saveable

theorem segment_saveable (formed : seg.Formed) (filled : Filled b notes ui)
    (before : Saveable b notes) {ui' : UcdThreads}
    (saved : visitAll seg (fun n s => (saveThreadNotes b seg n s).map fun s => (0, s))
      (ui.realloc b h (seg.entries.countP fun e => e.IsStatus)) = .ok ui') :
    Saveable b (notes ++ seg.entries) := by
  rw [formed.visitAll] at saved
  obtain ⟨counts, statuses, fps⟩ := saveAll_ok saved
  have same : (ui.realloc b h (seg.entries.countP fun e => e.IsStatus)).nThreads = ui.nThreads := rfl
  rw [same] at counts
  have some (positive : 0 < seg.entries.countP fun e => e.IsStatus) :
      ∃ e ∈ seg.notes.map (Entry.mk seg), e.IsStatus := by
    obtain ⟨e, mem, isStatus⟩ := List.countP_pos_iff.mp positive
    exact ⟨e, mem, by simpa using isStatus⟩
  refine ⟨?_, ?_, ?_⟩
  · intro earlier e later apart isFp
    rw [List.append_eq_append_iff] at apart
    cases apart with
    | inl within =>
        obtain ⟨front, rfl, apart⟩ := within
        obtain ⟨first, inside⟩ := fps front e later apart isFp
        refine ⟨?_, inside⟩
        cases first with
        | inl positive =>
            rw [same, filled.count, List.countP_pos_iff] at positive
            obtain ⟨s, mem, isStatus⟩ := positive
            exact ⟨s, List.mem_append_left _ mem, by simpa using isStatus⟩
        | inr among =>
            obtain ⟨s, mem, isStatus⟩ := among
            exact ⟨s, List.mem_append_right _ mem, isStatus⟩
    | inr within =>
        obtain ⟨back, apart, split⟩ := within
        cases back with
        | nil =>
            rw [List.append_nil] at apart
            subst apart
            obtain ⟨first, inside⟩ := fps [] e later split.symm isFp
            refine ⟨?_, inside⟩
            have positive := first.resolve_right (by simp)
            rw [same, filled.count, List.countP_pos_iff] at positive
            obtain ⟨s, mem, isStatus⟩ := positive
            exact ⟨s, mem, by simpa using isStatus⟩
        | cons a back =>
            obtain ⟨rfl, -⟩ := List.cons.inj split
            exact before.fpregset earlier e back apart isFp
  · rw [List.countP_append, ← filled.count]
    by_cases positive : 0 < seg.entries.countP fun e => e.IsStatus
    · have few := (statuses (some positive)).2
      rw [counts] at few
      exact few
    · rw [Nat.eq_zero_of_not_pos positive, Nat.add_zero, filled.count]
      exact before.few
  · rw [List.countP_append, ← filled.count]
    apply small_of_room
    · rw [filled.count]
      exact before.small
    · intro positive
      have room := (statuses (some positive)).1
      rw [counts] at room
      exact room

/-- The loop, from where some notes are saved. -/
theorem threadinfoLoop_right_iff (grants : Nat → Bool) (phdrs : List (NotePhdr h))
    (formed : ∀ phdr ∈ phdrs, ∀ seg ∈ phdr.segment, seg.Formed) (k : Nat)
    (ret : Except UnwError Unit) (filled : Filled b notes ui) (before : Saveable b notes) :
    ThreadsRight b (threadinfoLoop b grants phdrs k ret ui)
        (notes ++ notesOf (segmentsRead grants phdrs k)) ↔
      Saveable b (notes ++ notesSaved (segmentsRead grants phdrs k)) ∧
        (∀ t ∈ (threadNotes (notes ++ notesOf (segmentsRead grants phdrs k))).2, t.Paired b) ∧
        ((∃ seg ∈ segmentsRead grants phdrs k, seg.2 = false) →
          (threadNotes (notes ++ notesOf (segmentsRead grants phdrs k))).2 = []) := by
  induction phdrs generalizing notes ui k ret with
  | nil =>
      have paired (i : Nat) (t : ThreadNotes h) (found : (threadNotes notes).2[i]? = some t) :
          (∃ info, (ui.threads.getD [])[i]? = some info ∧ t.PairedIn b info) ↔ t.Paired b := by
        rw [filled.threads, List.getElem?_map, found, Option.map_some, ← t.pairedIn_info]
        constructor
        · rintro ⟨info, same, paired⟩
          obtain rfl := Option.some.inj same
          exact paired
        · exact fun paired => ⟨_, rfl, paired⟩
      simp only [segmentsRead, notesOf, notesSaved, List.flatMap_nil, List.append_nil,
        List.filter_nil, List.not_mem_nil, false_and, exists_false, false_implies, and_true, before,
        true_and]
      constructor
      · rintro ⟨_, _, same, -, right⟩ t mem
        cases same
        obtain ⟨i, found⟩ := List.mem_iff_getElem?.mp mem
        exact (paired i t found).mp (right i t found)
      · intro right
        refine ⟨ret, ui, rfl, filled.count, fun i t found => ?_⟩
        exact (paired i t found).mpr (right t (List.mem_of_getElem? found))
  | cons phdr phdrs ih =>
      rw [List.forall_mem_cons] at formed
      by_cases isNote : phdr.pType ≠ ptNote
      · rw [threadinfoLoop, segmentsRead, if_pos isNote, if_pos isNote]
        exact ih formed.2 k ret filled before
      · rw [threadinfoLoop, segmentsRead, if_neg isNote, if_neg isNote]
        cases read : phdr.segment with
        | none => exact ih formed.2 k (.error .unspec) filled before
        | some seg =>
            have whole : seg.Formed := formed.1 seg read
            have counted : visitAll seg (fun n s => (countThreadNotes n s).map fun s => (0, s)) 0 =
                .ok (seg.entries.countP fun e => e.IsStatus) := by
              rw [whole.visitAll, countAll seg, Nat.zero_add]
              rfl
            simp only [counted, ok_bind]
            cases granted : grants k with
            | true =>
                have notesOf_cons (segs : List (NoteSegment h × Bool)) :
                    notes ++ notesOf ((seg, true) :: segs) =
                      (notes ++ seg.entries) ++ notesOf segs := by
                  simp [notesOf]
                have notesSaved_cons (segs : List (NoteSegment h × Bool)) :
                    notes ++ notesSaved ((seg, true) :: segs) =
                      (notes ++ seg.entries) ++ notesSaved segs := by
                  simp [notesOf, notesSaved]
                simp only [if_true, notesOf_cons, notesSaved_cons, List.exists_mem_cons_iff,
                  Bool.true_eq_false, false_or]
                by_cases saveable : Saveable b (notes ++ seg.entries)
                · rw [segment_saved whole filled saveable, ok_bind]
                  exact ih formed.2 (k + 1) (.ok ()) tableOf_filled saveable
                · apply iff_of_false
                  · rintro ⟨ret', ui', returned, -⟩
                    obtain ⟨ui₁, saved, -⟩ := bind_eq_ok.mp returned
                    exact saveable (segment_saveable whole filled before saved)
                  · exact fun right => saveable right.1.of_append
            | false =>
                -- the array is lost, and with it the threads that it had
                have total : notes ++ notesOf [(seg, false)] = notes ++ seg.entries := by
                  simp [notesOf]
                have saved : notes ++ notesSaved [(seg, false)] = notes := by
                  simp [notesOf, notesSaved]
                simp only [Bool.false_eq_true, if_false, total, saved, before, true_and,
                  List.mem_singleton, exists_eq_left, true_implies]
                have count := threadNotes_length (notes ++ seg.entries)
                constructor
                · rintro ⟨_, _, same, counts, right⟩
                  cases same
                  have none : (threadNotes (notes ++ seg.entries)).2 = [] := by
                    rw [List.eq_nil_iff_forall_not_mem]
                    intro t mem
                    obtain ⟨i, found⟩ := List.mem_iff_getElem?.mp mem
                    obtain ⟨info, lost, -⟩ := right i t found
                    simp at lost
                  exact ⟨by simp [none], none⟩
                · rintro ⟨-, none⟩
                  rw [none, List.length_nil] at count
                  refine ⟨_, _, rfl, ?_, fun i t found => ?_⟩
                  · have earlier := filled.count
                    rw [List.countP_append] at count ⊢
                    change ui.nThreads = _
                    omega
                  · rw [none] at found
                    cases found

end Segments

/-- The notes of all segments can be saved, each thread has its registers, and `realloc` gives
    memory unless there is no thread. -/
structure ThreadNotesSound (b : ThreadBuild) (grants : Nat → Bool) (phdrs : List (NotePhdr h)) :
    Prop where
  saveable : Saveable b (notesSaved (segmentsRead grants phdrs 0))
  paired : ∀ t ∈ (threadNotes (notesRead grants phdrs)).2, t.Paired b
  granted : (∃ seg ∈ segmentsRead grants phdrs 0, seg.2 = false) →
    (threadNotes (notesRead grants phdrs)).2 = []

/-- Exactly when the threads are filled in bounds and have their own registers. -/
theorem getThreadinfo_right_iff (b : ThreadBuild) (grants : Nat → Bool) (phdrs : List (NotePhdr h))
    (formed : ∀ phdr ∈ phdrs, ∀ seg ∈ phdr.segment, seg.Formed) :
    ThreadsRight b (getThreadinfo b grants phdrs) (notesRead grants phdrs) ↔
      ThreadNotesSound b grants phdrs := by
  have none : Saveable b ([] : List (Entry h)) :=
    ⟨by simp, by simp, by simp⟩
  have filled : Filled b ([] : List (Entry h)) {} := ⟨rfl, rfl⟩
  have right := threadinfoLoop_right_iff grants phdrs formed 0 (.error .noinfo) filled none
  exact right.trans ⟨fun ⟨saveable, paired, granted⟩ => ⟨saveable, paired, granted⟩,
    fun sound => ⟨sound.saveable, sound.paired, sound.granted⟩⟩

/-! ## Small segments -/

/-- A build in which a status has eight bytes and the floating-point registers four. -/
def smallBuild : ThreadBuild where
  haveStructElfPrstatus := true
  sizeofProcStatus := 8
  prReg := 0
  sizeofPrReg := 4
  sizeofFpregset := 4
  sizeofThreadInfo := 12
  sizeofThreadInfo_pos := by decide

/-- A note without a name. -/
def shortNote (type descsz : Byte) : List Byte := [0, 0, 0, 0, descsz, 0, 0, 0, type, 0, 0, 0]

def notePhdr (seg : NoteSegment h) : NotePhdr h := ⟨ptNote, some seg⟩

/-- A status note, and floating-point registers behind it. -/
def oneThread : NoteSegment .lp64 where
  bytes := shortNote 1 8 ++ [1, 2, 3, 4, 5, 6, 7, 8] ++ shortNote 2 4 ++ [9, 9, 9, 9]
  bigEndian := false
  fits := by decide

theorem oneThread_formed : oneThread.Formed :=
  .cons (by decide) ⟨by decide, by decide, by decide⟩ (by decide) <|
    .cons (by decide) ⟨by decide, by decide, by decide⟩ (by decide) <| .nil (by decide)

theorem oneThread_right :
    ThreadsRight smallBuild (getThreadinfo smallBuild (fun _ => true) [notePhdr oneThread])
      (notesRead (fun _ => true) [notePhdr oneThread]) := by
  refine (getThreadinfo_right_iff smallBuild (fun _ => true) [notePhdr oneThread] ?_).mpr ?_
  · intro phdr mem seg read
    obtain rfl := List.mem_singleton.mp mem
    obtain rfl := Option.some.inj read
    exact oneThread_formed
  · have read : notesRead (fun _ => true) [notePhdr oneThread] =
        [⟨oneThread, oneThread.noteAt 0⟩, ⟨oneThread, oneThread.noteAt 20⟩] := rfl
    refine ⟨⟨?_, by decide, by decide⟩, ?_, ?_⟩
    · change ∀ earlier e later, [_, _] = _ → _
      intro earlier e later apart isFp
      cases earlier with
      | nil =>
          obtain ⟨rfl, -⟩ := List.cons.inj apart
          exact absurd isFp (by decide)
      | cons first earlier =>
          obtain ⟨rfl, behind⟩ := List.cons.inj apart
          cases earlier with
          | nil =>
              obtain ⟨rfl, -⟩ := List.cons.inj behind
              exact ⟨⟨_, List.mem_cons_self, by decide⟩, by decide⟩
          | cons second earlier => simp at behind
    · rw [read]
      intro t mem
      obtain rfl := List.mem_singleton.mp mem
      exact ⟨_, rfl, _, List.mem_cons_self, by decide, by decide, rfl⟩
    · rintro ⟨seg, mem, refused⟩
      obtain rfl := List.mem_singleton.mp mem
      cases refused

/-- Floating-point registers alone. -/
def noThread : NoteSegment .lp64 where
  bytes := shortNote 2 4 ++ [9, 9, 9, 9]
  bigEndian := false
  fits := by decide

/-- They are written to `threads[-1]`. -/
theorem noThread_underflows :
    noThread.Formed ∧ ¬ThreadsRight smallBuild
      (getThreadinfo smallBuild (fun _ => true) [notePhdr noThread])
      (notesRead (fun _ => true) [notePhdr noThread]) := by
  constructor
  · exact .cons (by decide) ⟨by decide, by decide, by decide⟩ (by decide) (.nil (by decide))
  · have undefined : getThreadinfo smallBuild (fun _ => true) [notePhdr noThread] =
        .error .undefined := by decide
    rintro ⟨ret, ui, returned, -⟩
    cases undefined.symm.trans returned

end Libunwind.Coredump
