import Libunwind.Lookup.History

/-! # Lookups that do not depend on earlier ones

The record is used again by the extent of an object, and the list of `.debug_frame` sections by
an address alone. When lookups do not depend on what was looked up before is therefore a
condition on the extents of the objects that they come to.
-/

namespace Libunwind.Lookup

open Dwarf Elf

variable {w : Nat} {ι π : Type}

/-! ## What a first lookup finds -/

section Object

variable (host : Host w) (o : Object w)

/-- The tables that are found for an object with nothing on the list. -/
def Object.tables : Result (Except UnwError Unit × ElfDynInfo w) := do
  match ← header host o invalidateEdi with
  | (edi, some ret) => pure (ret, edi)
  | (edi, none) =>
      let edi ← findDebugFrame host o (o.entry host) (armTable host o edi)
      pure (.ok (), edi)

/-- The list is looked at for the object. -/
def Object.UsesDebugFrame : Prop := ∃ edi, header host o invalidateEdi = .ok (edi, none)

/-- A table is found that later addresses are tested against. -/
def Object.KeepsTable : Prop :=
  ∃ edi, o.tables host = .ok (.ok (), edi) ∧ (edi.diCache.kept ∨ edi.diDebug.kept)

end Object

namespace Target

/-- What is mapped at an address. -/
def mapped (t : Target w π) (ip : Word w) : Option (Mapped w) :=
  match t with
  | .ptrace tdepGetElfImage _ => tdepGetElfImage ip
  | .core phdrs table _ =>
      (backing phdrs table ip).bind fun (phdr, _, file) =>
        file.image.bind fun ei =>
          if ei.valid then some ⟨ei, phdr.pVaddr, phdr.pMapoff, file.filename⟩ else none

/-- The place of the backing file. -/
def file (t : Target w π) (ip : Word w) : Option Nat :=
  match t with
  | .ptrace _ _ => none
  | .core phdrs table _ => (backing phdrs table ip).map (·.2.1)

/-- No backing file has been lost, and the one of the address is mapped. -/
def FilesHold (t : Target w π) (ip : Word w) (files : Nat → FileState) : Prop :=
  (∀ n, files n ≠ .lost) ∧ ∀ n, t.file ip = some n → files n = .mapped

/-- The object at an address. -/
def object (host : Host w) (t : Target w π) (ip : Word w) : Option (Object w) :=
  (t.mapped ip).bind fun m => if m.ei.valid then m.object host ip else none

/-- The backing file is an ELF object, if it can be mapped. -/
def Readable (t : Target w π) (ip : Word w) : Prop :=
  match t with
  | .ptrace _ _ => True
  | .core phdrs table _ => ∀ phdr n file ei, backing phdrs table ip = some (phdr, n, file) →
      file.image = some ei → ei.valid

/-- A search for an address reads the same, whichever other backing files have been mapped. -/
def ReadsAlike (host : Host w) (t : Target w π) (ip : Word w) : Prop :=
  ∀ o ret edi, t.object host ip = some o → o.tables host = .ok (ret, edi) →
    ∀ files files', t.FilesHold ip files → t.FilesHold ip files' →
      ∀ slot ∈ (edi.discard ip).slots host.arm, slot.kept → ∀ needUnwindInfo pi,
        t.search files slot.info ip needUnwindInfo pi =
          t.search files' slot.info ip needUnwindInfo pi

end Target

/-- What makes lookups at certain addresses independent of each other. -/
structure Apart (host : Host w) (targets : ι → Target w π) (looked : ι → Word w → Prop) :
    Prop where
  readable : ∀ i ip, looked i ip → (targets i).Readable ip
  readsAlike : ∀ i ip, looked i ip → (targets i).ReadsAlike host ip
  /-- An address within the extent of an object belongs to the object. -/
  own : ∀ i ip ip' o, looked i ip → looked i ip' → (targets i).object host ip = some o →
    o.KeepsTable host → o.Covers ip → o.Covers ip' →
    (targets i).object host ip' = some o ∧ (targets i).file ip' = (targets i).file ip
  /-- The same holds across processes, as far as the sections on the list go. -/
  shared : ∀ i ip j ip' o o', looked i ip → looked j ip' →
    (targets i).object host ip = some o → (targets j).object host ip' = some o' →
    o.UsesDebugFrame host → o'.UsesDebugFrame host →
    ∀ e, o.entry host = some e → e.Covers ip' → o'.entry host = some e

/-! ## The list -/

section Tables

variable {host : Host w} {o : Object w} {ip : Word w} {debugFrames : List (FrameEntry w)}

theorem locateDebugInfo_entry
    (same : ∀ e ∈ debugFrames, e.Covers ip → o.entry host = some e) :
    (locateDebugInfo host o ip debugFrames).1 = o.entry host := by
  unfold locateDebugInfo
  cases found : debugFrames.find? fun e => e.Covers ip with
  | some fdesc =>
      have covers : fdesc.Covers ip := by simpa using List.find?_some found
      exact (same fdesc (List.mem_of_find?_eq_some found) covers).symm
  | none => cases made : o.entry host <;> rfl

theorem locateDebugInfo_list {e : FrameEntry w}
    (member : e ∈ (locateDebugInfo host o ip debugFrames).2) :
    e ∈ debugFrames ∨ o.entry host = some e := by
  unfold locateDebugInfo at member
  cases found : debugFrames.find? fun e => e.Covers ip with
  | some fdesc => exact .inl (by simpa [found] using member)
  | none =>
      cases made : o.entry host with
      | none => exact .inl (by simpa [found, made] using member)
      | some fdesc =>
          have split : e = fdesc ∨ e ∈ debugFrames := by simpa [found, made] using member
          cases split with
          | inl isNew => exact .inr (congrArg some isNew.symm)
          | inr old => exact .inl old

/-- What is found for an object does not depend on the list, as long as that has nothing else
    for the address. -/
theorem findTables_eq
    (same : o.UsesDebugFrame host → ∀ e ∈ debugFrames, e.Covers ip → o.entry host = some e) :
    Simulates (fun b r => (b.ret, b.edi) = r ∧
        ∀ e ∈ b.debugFrames, e ∈ debugFrames ∨ o.UsesDebugFrame host ∧ o.entry host = some e)
      (findTables host o ip invalidateEdi debugFrames) (o.tables host) := by
  unfold findTables Object.tables
  cases headed : header host o invalidateEdi with
  | error fault => exact .error fault
  | ok out =>
      obtain ⟨edi, ended⟩ := out
      cases ended with
      | some ret => exact .ok ⟨rfl, fun e member => .inl member⟩
      | none =>
          have uses : o.UsesDebugFrame host := ⟨edi, headed⟩
          simp only [ok_bind, locateDebugInfo_entry (same uses)]
          apply (Simulates.same _).bind
          rintro edi' _ rfl
          exact .ok ⟨rfl, fun e member => (locateDebugInfo_list member).imp_right (⟨uses, ·⟩)⟩

end Tables

/-! ## The extents of the tables -/

section Ranges

variable {host : Host w} {o : Object w}

theorem orNoinfo_ok {α β : Type} {r : Result α} {noinfo b : β} {next : α → Result β}
    (done : orNoinfo r noinfo next = .ok b) : b = noinfo ∨ ∃ a, r = .ok a ∧ next a = .ok b := by
  unfold orNoinfo at done
  split at done
  · exact .inr ⟨_, rfl, done⟩
  · exact .inl (Except.ok.inj done).symm
  · cases done

/-- What the part on `PT_GNU_EH_FRAME` leaves. -/
structure Headed (o : Object w) (edi edi' : ElfDynInfo w) (ended : Option (Except UnwError Unit)) :
    Prop where
  debug : edi'.diDebug = edi.diDebug
  arm : edi'.diArm = edi.diArm
  dropped : ended ≠ none → edi'.diCache.kept = edi.diCache.kept
  extent : ended = none → edi'.diCache.info.startIp = o.startIp ∧ edi'.diCache.info.endIp = o.endIp

theorem ehFrameTable_headed {pehHdr : ProgramHeader w} {edi edi' : ElfDynInfo w}
    {ended : Option (Except UnwError Unit)}
    (done : ehFrameTable host o pehHdr edi = .ok (edi', ended)) : Headed o edi edi' ended := by
  unfold ehFrameTable at done
  have gaveUp {gp : Word w} {ret : Except UnwError Unit}
      (left : (edi', ended) = ({ edi with
        diCache := { edi.diCache with info := { edi.diCache.info with gp } } }, some ret)) :
      Headed o edi edi' ended := by
    cases left
    exact ⟨rfl, rfl, fun _ => rfl, fun none => by cases none⟩
  dsimp only at done
  split at done
  · exact gaveUp (Except.ok.inj done).symm
  · obtain ⟨version, -, done⟩ := bind_eq_ok.mp done
    split at done
    · exact gaveUp (Except.ok.inj done).symm
    obtain ⟨ehFramePtrEnc, -, done⟩ := bind_eq_ok.mp done
    cases orNoinfo_ok done with
    | inl failed => exact gaveUp failed
    | inr read =>
        obtain ⟨first, -, done⟩ := read
        obtain ⟨fdeCountEnc, -, done⟩ := bind_eq_ok.mp done
        cases orNoinfo_ok done with
        | inl failed => exact gaveUp failed
        | inr read =>
            obtain ⟨second, -, done⟩ := read
            obtain ⟨tableEnc, -, done⟩ := bind_eq_ok.mp done
            split at done
            · exact gaveUp (Except.ok.inj done).symm
            split at done
            · exact gaveUp (Except.ok.inj done).symm
            · cases done
              exact ⟨rfl, rfl, fun some => absurd rfl some, fun _ => ⟨rfl, rfl⟩⟩

/-- The tables of an object cover its extent. -/
structure Ranged (o : Object w) (edi : ElfDynInfo w) : Prop where
  cache : edi.diCache.kept → ∀ ip, edi.diCache.info.Covers ip ↔ o.Covers ip
  debug : edi.diDebug.kept → ∀ ip, edi.diDebug.info.Covers ip ↔ o.Covers ip
  arm : ∀ ip, edi.diArm.info.Covers ip → o.Covers ip

theorem zero_covers_none (ip : Word w) : ¬ (TableInfo.zero : TableInfo w).Covers ip := by
  intro covers
  exact absurd covers.2 (by simp [TableInfo.zero])

theorem covers_iff {t : TableInfo w} (extent : t.startIp = o.startIp ∧ t.endIp = o.endIp)
    (ip : Word w) : t.Covers ip ↔ o.Covers ip := by
  simp [TableInfo.Covers, Object.Covers, extent]

theorem armTable_ranged {edi : ElfDynInfo w} (ranged : Ranged o edi) :
    Ranged o (armTable host o edi) := by
  unfold armTable
  split
  · split
    · exact ⟨ranged.cache, ranged.debug, fun ip => (covers_iff ⟨rfl, rfl⟩ ip).mp⟩
    · exact ranged
  · exact ranged

theorem entry_extent {e : FrameEntry w} (made : o.entry host = some e) :
    e.start = o.startIp ∧ e.end' = o.endIp := by
  simp only [Object.entry, Option.bind_eq_bind, Option.bind_eq_some_iff, Option.pure_def,
    Option.some.injEq] at made
  obtain ⟨name, -, loaded, -, rfl⟩ := made
  exact ⟨rfl, rfl⟩

theorem findDebugFrame_ranged {edi edi' : ElfDynInfo w} (ranged : Ranged o edi)
    (done : findDebugFrame host o (o.entry host) edi = .ok edi') : Ranged o edi' := by
  unfold findDebugFrame at done
  split at done
  · cases done
    exact ranged
  · next fdesc made =>
      split at done
      · cases done
        exact ranged
      · obtain ⟨index, -, done⟩ := bind_eq_ok.mp done
        split at done
        · cases done
          exact ranged
        · cases done
          exact ⟨ranged.cache, fun _ => covers_iff (entry_extent made), ranged.arm⟩

theorem invalidateEdi_ranged : Ranged o invalidateEdi where
  cache kept := by simp [invalidateEdi] at kept
  debug kept := by simp [invalidateEdi] at kept
  arm ip covers := absurd covers (zero_covers_none ip)

/-- A record that keeps nothing that addresses are tested against. -/
def Unkept (edi : ElfDynInfo w) : Prop := edi.diCache.kept = false ∧ edi.diDebug.kept = false

theorem header_headed {edi edi' : ElfDynInfo w} {ended : Option (Except UnwError Unit)}
    (done : header host o edi = .ok (edi', ended)) :
    Headed o edi edi' ended ∨ edi' = edi ∧ ended = none := by
  unfold header at done
  split at done
  · exact .inl (ehFrameTable_headed done)
  · cases done
    exact .inr ⟨rfl, rfl⟩

theorem tables_ranged {ret : Except UnwError Unit} {edi : ElfDynInfo w}
    (done : o.tables host = .ok (ret, edi)) : Ranged o edi ∧ (ret ≠ .ok () → Unkept edi) := by
  obtain ⟨⟨headed, ended⟩, first, done⟩ := bind_eq_ok.mp done
  cases ended with
  | some code =>
      cases done
      cases header_headed first with
      | inr whole => cases whole.2
      | inl left =>
          have unkept : Unkept edi :=
            ⟨left.dropped (by simp), congrArg Slot.kept left.debug⟩
          refine ⟨⟨fun kept => ?_, fun kept => ?_, fun ip covers => ?_⟩, fun _ => unkept⟩
          · simp [unkept.1] at kept
          · simp [unkept.2] at kept
          · rw [left.arm] at covers
            exact absurd covers (zero_covers_none ip)
  | none =>
      obtain ⟨edi', second, done⟩ := bind_eq_ok.mp done
      cases done
      refine ⟨findDebugFrame_ranged (armTable_ranged ?_) second, fun failed => absurd rfl failed⟩
      cases header_headed first with
      | inr whole => exact whole.1 ▸ invalidateEdi_ranged
      | inl left =>
          refine ⟨fun _ => covers_iff (left.extent rfl), fun kept => ?_, fun ip covers => ?_⟩
          · simp [left.debug, invalidateEdi] at kept
          · rw [left.arm] at covers
            exact absurd covers (zero_covers_none ip)

end Ranges

/-! ## The record -/

section Record

variable {host : Host w} {o : Object w} {edi : ElfDynInfo w} {ip ip' : Word w}

@[simp] theorem Slot.discard_info (slot : Slot w) : (slot.discard ip).info = slot.info := by
  unfold Slot.discard
  split <;> rfl

theorem Slot.discard_kept_iff (slot : Slot w) :
    (slot.discard ip).kept ↔ slot.kept ∧ slot.info.Covers ip := by
  unfold Slot.discard
  by_cases covers : slot.info.Covers ip <;> cases kept : slot.kept <;> simp [covers, kept]

theorem Slot.discard_of_covers {slot : Slot w} (covers : slot.kept → slot.info.Covers ip) :
    slot.discard ip = slot :=
  if_neg fun ⟨kept, outside⟩ => outside (covers kept)

/-- Where the record of an object is used again, nothing was discarded. -/
theorem Ranged.hits {arm : Bool} (ranged : Ranged o edi) (hits : (edi.discard ip).Hits arm ip') :
    (edi.diCache.kept ∨ edi.diDebug.kept) ∧ o.Covers ip ∧ o.Covers ip' := by
  have debugKept (kept : (edi.diDebug.discard ip).kept) : edi.diDebug.kept ∧ o.Covers ip :=
    have ⟨kept, covers⟩ := (Slot.discard_kept_iff _).mp kept
    ⟨kept, (ranged.debug kept ip).mp covers⟩
  rcases hits with ⟨kept, covers⟩ | ⟨-, kept, covers⟩ | ⟨kept, covers⟩
  · have ⟨kept, first⟩ := (Slot.discard_kept_iff _).mp kept
    rw [ElfDynInfo.discard, Slot.discard_info] at covers
    exact ⟨.inl kept, (ranged.cache kept ip).mp first, (ranged.cache kept ip').mp covers⟩
  · have ⟨kept, first⟩ := debugKept kept
    exact ⟨.inr kept, first, ranged.arm ip' covers⟩
  · have ⟨kept, first⟩ := debugKept kept
    rw [ElfDynInfo.discard, Slot.discard_info] at covers
    exact ⟨.inr kept, first, (ranged.debug kept ip').mp covers⟩

theorem Ranged.discard (ranged : Ranged o edi) (covers : o.Covers ip) : edi.discard ip = edi := by
  have cache : edi.diCache.discard ip = edi.diCache :=
    Slot.discard_of_covers fun kept => (ranged.cache kept ip).mpr covers
  have debug : edi.diDebug.discard ip = edi.diDebug :=
    Slot.discard_of_covers fun kept => (ranged.debug kept ip).mpr covers
  rw [ElfDynInfo.discard, cache, debug]

theorem Unkept.not_hits {arm : Bool} (unkept : Unkept edi) : ¬ edi.Hits arm ip := by
  simp [ElfDynInfo.Hits, Slot.Hits, unkept.1, unkept.2]

theorem Unkept.discard (unkept : Unkept edi) : Unkept (edi.discard ip) := by
  simp [Unkept, ElfDynInfo.discard, Slot.discard, unkept.1, unkept.2]

/-- A record in use is not empty. -/
theorem ElfDynInfo.Hits.not_empty {arm : Bool} (hits : edi.Hits arm ip) : ¬ edi.Empty arm :=
  fun empty => Unkept.not_hits ⟨empty.1, empty.2.2⟩ hits

end Record

/-! ## The image -/

section Image

variable {t : Target w π} {files : Nat → FileState} {ip : Word w}

/-- What is mapped does not depend on the files that have been mapped, as long as none is lost. -/
theorem getElfImage_ok (readable : t.Readable ip) (kept : ∀ n, files n ≠ .lost) :
    ∃ files', t.getElfImage files ip = .ok (t.mapped ip, files') ∧ (∀ n, files' n ≠ .lost) ∧
      ((t.mapped ip).isSome → t.FilesHold ip files') := by
  cases t with
  | ptrace tdepGetElfImage search =>
      exact ⟨files, rfl, kept, fun _ => ⟨kept, fun n here => by cases here⟩⟩
  | core phdrs table search =>
      cases found : backing phdrs table ip with
      | none =>
          refine ⟨files, ?_, kept, ?_⟩ <;> simp [Target.getElfImage, Target.mapped, found]
      | some segment =>
          obtain ⟨phdr, n, file⟩ := segment
          cases there : file.image with
          | none =>
              refine ⟨files, ?_, kept, ?_⟩ <;>
                simp [Target.getElfImage, Target.mapped, found, elfMapImage, there]
          | some ei =>
              have valid : ei.valid = true := readable phdr n file ei found there
              have holds (k : Nat) : Function.update files n .mapped k ≠ .lost := by
                by_cases same : k = n
                · simp [same]
                · simp [same, kept k]
              refine ⟨Function.update files n .mapped, ?_, holds, fun _ => ⟨holds, ?_⟩⟩
              · simp [Target.getElfImage, Target.mapped, found, elfMapImage, there, kept n, valid]
              · intro k here
                have place : n = k := by simpa [Target.file, found] using here
                simp [place]

end Image

/-! ## One lookup -/

/-- The record that a first lookup of an address searches. -/
def Target.record (host : Host w) (t : Target w π) (ip : Word w) :
    Result (Option (ElfDynInfo w)) :=
  match t.object host ip with
  | none => pure none
  | some o => do
      let (ret, edi) ← o.tables host
      pure (if ret = .ok () ∧ ¬ (edi.discard ip).Empty host.arm then some (edi.discard ip) else none)

/-- What a first lookup answers, with no backing file mapped but its own. -/
def Target.firstAnswer (host : Host w) (t : Target w π) (ip : Word w) (needUnwindInfo : Bool)
    (pi : π) : Result (Answer π) := do
  let files n := if t.file ip = some n then FileState.mapped else .unmapped
  match ← t.record host ip with
  | none => pure (.error (.err .noinfo), pi)
  | some edi => pure (searchTables (t.search files) ip needUnwindInfo (edi.slots host.arm) pi)

section OneLookup

variable {host : Host w} {t : Target w π} {s : Session w} {ip ip' : Word w}

/-- What is asked of the state before a lookup. -/
structure Session.Fits (host : Host w) (t : Target w π) (s : Session w) (ip : Word w) : Prop where
  list : ∀ o, t.object host ip = some o → o.UsesDebugFrame host →
    ∀ e ∈ s.debugFrames, e.Covers ip → o.entry host = some e
  files : ∀ n, s.files n ≠ .lost
  used : s.edi.Hits host.arm ip →
    t.record host ip = .ok (some s.edi) ∧ t.FilesHold ip s.files

/-- What `get_unwind_info` leaves, given the record of a first lookup. -/
structure Session.Left (host : Host w) (t : Target w π) (s : Session w) (ip : Word w)
    (out : Except UnwError Unit × Session w) (record : Option (ElfDynInfo w)) : Prop where
  fails : record = none → out.1 = .error .noinfo
  finds : ∀ edi, record = some edi → out.1 = .ok () ∧ out.2.edi = edi ∧ t.FilesHold ip out.2.files
  files : ∀ n, out.2.files n ≠ .lost
  list : ∀ e ∈ out.2.debugFrames, e ∈ s.debugFrames ∨
    ∃ o, t.object host ip = some o ∧ o.UsesDebugFrame host ∧ o.entry host = some e
  used : ∀ ip', out.2.edi.Hits host.arm ip' → record = some out.2.edi

/-- A lookup that finds no table leaves none. -/
theorem Session.Left.noinfo {edi : ElfDynInfo w} {files : Nat → FileState}
    {debugFrames : List (FrameEntry w)} (unkept : Unkept edi) (kept : ∀ n, files n ≠ .lost)
    (list : ∀ e ∈ debugFrames, e ∈ s.debugFrames ∨
      ∃ o, t.object host ip = some o ∧ o.UsesDebugFrame host ∧ o.entry host = some e) :
    s.Left host t ip (.error .noinfo, ⟨debugFrames, edi, files⟩) none where
  fails _ := rfl
  finds edi found := by cases found
  files := kept
  list := list
  used ip' hits := absurd hits unkept.not_hits

theorem invalidateEdi_unkept : Unkept (invalidateEdi : ElfDynInfo w) := ⟨rfl, rfl⟩

/-- The end of `get_unwind_info`, once the tables of an object are found. -/
theorem left_of_tables {o : Object w} {built : Built w} {files : Nat → FileState}
    (kept : ∀ n, files n ≠ .lost) (holds : t.FilesHold ip files)
    (list : ∀ e ∈ built.debugFrames, e ∈ s.debugFrames ∨
      ∃ o, t.object host ip = some o ∧ o.UsesDebugFrame host ∧ o.entry host = some e)
    (ranged : Ranged o built.edi ∧ (built.ret ≠ .ok () → Unkept built.edi)) :
    Simulates (s.Left host t ip)
      (match built.ret with
        | .error _ =>
            pure (.error .noinfo, { debugFrames := built.debugFrames, edi := built.edi, files })
        | .ok () =>
            let s := { debugFrames := built.debugFrames, edi := built.edi.discard ip, files }
            pure (if s.edi.Empty host.arm then (.error .noinfo, s) else (.ok (), s)))
      (pure (if built.ret = .ok () ∧ ¬ (built.edi.discard ip).Empty host.arm then
        some (built.edi.discard ip) else none)) := by
  cases ret : built.ret with
  | error code =>
      have unkept : Unkept built.edi := ranged.2 (by simp [ret])
      simp only [reduceCtorEq, false_and, if_false]
      exact .ok (.noinfo unkept kept list)
  | ok value =>
      by_cases empty : (built.edi.discard ip).Empty host.arm
      · simp only [empty, not_true, and_false, if_true, if_false]
        exact .ok (.noinfo ⟨empty.1, empty.2.2⟩ kept list)
      · simp only [empty, not_false_eq_true, and_true, if_true, if_false]
        refine .ok ⟨fun none => ?_, fun edi same => ?_, kept, list, fun ip' _ => rfl⟩
        · cases none
        · cases same
          exact ⟨rfl, rfl, holds⟩

theorem getUnwindInfo_left (fits : s.Fits host t ip) (readable : t.Readable ip) :
    Simulates (s.Left host t ip) (getUnwindInfo host t s ip) (t.record host ip) := by
  unfold getUnwindInfo
  by_cases hits : s.edi.Hits host.arm ip
  · obtain ⟨record, holds⟩ := fits.used hits
    rw [if_pos hits, record]
    refine .ok ⟨fun none => ?_, fun edi same => ?_, fits.files, fun e => .inl, fun ip' _ => rfl⟩
    · cases none
    · cases same
      exact ⟨rfl, rfl, holds⟩
  · rw [if_neg hits]
    obtain ⟨files, mapped, kept, holds⟩ := getElfImage_ok readable fits.files
    simp only [mapped, ok_bind]
    have list (e : FrameEntry w) (member : e ∈ s.debugFrames) : e ∈ s.debugFrames ∨
        ∃ o, t.object host ip = some o ∧ o.UsesDebugFrame host ∧ o.entry host = some e :=
      .inl member
    unfold Target.record
    cases found : t.mapped ip with
    | none =>
        rw [Target.object, found]
        exact .ok (.noinfo invalidateEdi_unkept kept list)
    | some m =>
        have object : t.object host ip = if m.ei.valid then m.object host ip else none := by
          rw [Target.object, found, Option.bind_some]
        dsimp only
        unfold dwarfFindUnwindTable
        cases valid : m.ei.valid with
        | false =>
            simp only [valid, Bool.false_eq_true, if_false] at object
            rw [object]
            exact .ok (.noinfo invalidateEdi_unkept kept list)
        | true =>
            simp only [valid, if_true] at object
            rw [object]
            simp only [Bool.not_true, Bool.false_eq_true, if_false]
            have object : t.object host ip = m.object host ip := by rw [object]
            cases same : m.object host ip with
            | none =>
                have empty : (invalidateEdi.discard ip : ElfDynInfo w).Empty host.arm := by
                  simp [ElfDynInfo.Empty, ElfDynInfo.discard, Slot.discard, invalidateEdi]
                simp only [pure_eq_ok, ok_bind, if_pos empty]
                exact .ok (.noinfo invalidateEdi_unkept.discard kept list)
            | some o =>
                rw [same] at object
                cases findTables_eq (fits.list o object) with
                | inl fails =>
                    obtain ⟨fault, left, right⟩ := fails
                    simp only [left, right, error_bind]
                    exact .error fault
                | inr goesOn =>
                    obtain ⟨built, out, left, right, rfl, made⟩ := goesOn
                    have list (e : FrameEntry w) (member : e ∈ built.debugFrames) :
                        e ∈ s.debugFrames ∨
                          ∃ o, t.object host ip = some o ∧ o.UsesDebugFrame host ∧
                            o.entry host = some e :=
                      (made e member).imp_right fun used => ⟨o, object, used⟩
                    simp only [left, right, ok_bind]
                    exact left_of_tables kept (holds (by rw [found]; rfl)) list (tables_ranged right)

/-! What was found can be told from the record. -/

theorem record_some {edi : ElfDynInfo w} (found : t.record host ip = .ok (some edi)) :
    ∃ o edi', t.object host ip = some o ∧ o.tables host = .ok (.ok (), edi') ∧
      edi = edi'.discard ip := by
  unfold Target.record at found
  cases object : t.object host ip with
  | none => simp [object] at found
  | some o =>
      simp only [object] at found
      obtain ⟨⟨ret, edi'⟩, tables, found⟩ := bind_eq_ok.mp found
      by_cases keeps : ret = .ok () ∧ ¬ (edi'.discard ip).Empty host.arm
      · rw [if_pos keeps] at found
        cases found
        exact ⟨o, edi', rfl, keeps.1 ▸ tables, rfl⟩
      · simp [keeps] at found

theorem record_of_tables {o : Object w} {edi : ElfDynInfo w} (object : t.object host ip = some o)
    (tables : o.tables host = .ok (.ok (), edi)) (used : (edi.discard ip).Hits host.arm ip') :
    t.record host ip = .ok (some (edi.discard ip)) := by
  have nonempty : ¬ (edi.discard ip).Empty host.arm := used.not_empty
  simp [Target.record, object, tables, nonempty]

theorem searchTables_congr {search search' : Search w π} {needUnwindInfo : Bool}
    {slots : List (Slot w)}
    (alike : ∀ slot ∈ slots, slot.kept → ∀ needUnwindInfo pi,
      search slot.info ip needUnwindInfo pi = search' slot.info ip needUnwindInfo pi) (pi : π) :
    searchTables search ip needUnwindInfo slots pi =
      searchTables search' ip needUnwindInfo slots pi := by
  induction slots generalizing pi with
  | nil => rfl
  | cons slot slots ih =>
      have ih := ih fun other member => alike other (List.mem_cons_of_mem slot member)
      cases kept : slot.kept with
      | false => simp only [searchTables, kept, Bool.false_eq_true, if_false, ih]
      | true =>
          simp only [searchTables, kept, if_true, alike slot List.mem_cons_self kept, ih]

variable {needUnwindInfo : Bool} {pi : π}

/-- The answer is that of a first lookup. -/
theorem findProcInfo_eq (fits : s.Fits host t ip) (readable : t.Readable ip)
    (reads : t.ReadsAlike host ip) :
    (findProcInfo host t s ip needUnwindInfo pi).map (·.1) =
      t.firstAnswer host ip needUnwindInfo pi := by
  unfold findProcInfo Target.firstAnswer
  rcases getUnwindInfo_left fits readable with ⟨fault, left, right⟩ | ⟨out, record, left, right, rel⟩
  · rw [left, right]
    rfl
  · obtain ⟨ret, after⟩ := out
    rw [left, right]
    cases record with
    | none =>
        cases rel.fails rfl
        rfl
    | some edi =>
        obtain ⟨o, edi', object, tables, same⟩ := record_some right
        obtain ⟨returned, recorded, holds⟩ := rel.finds edi rfl
        cases returned
        have own : t.FilesHold ip fun n => if t.file ip = some n then .mapped else .unmapped := by
          refine ⟨fun n => ?_, fun n here => if_pos here⟩
          dsimp only
          split <;> simp
        have slots : after.edi.slots host.arm = (edi'.discard ip).slots host.arm := by
          rw [← same, ← recorded]
        simp only [ok_bind, pure_eq_ok, Except.map, slots, same]
        exact congrArg Except.ok
          (searchTables_congr (reads o _ edi' object tables _ _ holds own) pi)

/-- The state that a lookup leaves. -/
theorem findProcInfo_left {answer : Answer π} {after : Session w} (fits : s.Fits host t ip)
    (readable : t.Readable ip)
    (done : findProcInfo host t s ip needUnwindInfo pi = .ok (answer, after)) :
    ∃ ret record, t.record host ip = .ok record ∧ s.Left host t ip (ret, after) record := by
  unfold findProcInfo at done
  obtain ⟨⟨ret, session⟩, got, done⟩ := bind_eq_ok.mp done
  have same : session = after := by
    cases ret <;> cases done <;> rfl
  subst same
  rcases getUnwindInfo_left fits readable with ⟨fault, left, -⟩ | ⟨out, record, left, right, rel⟩
  · cases left.symm.trans got
  · cases left.symm.trans got
    exact ⟨ret, record, right, rel⟩

/-- A backing file that is not an ELF object is unmapped by the first lookup, and read by the
    second. -/
theorem lookup_again_undefined {phdrs : List (CorePhdr w)} {table : List (UcdFile w)}
    {search : (Nat → FileState) → Search w π} {phdr : CorePhdr w} {n : Nat} {file : UcdFile w}
    {ei : Image w} (found : backing phdrs table ip = some (phdr, n, file))
    (there : file.image = some ei) (invalid : ei.valid = false) :
    ∃ after, findProcInfo host (.core phdrs table search) {} ip needUnwindInfo pi =
        .ok ((.error (.err .noinfo), pi), after) ∧
      findProcInfo host (.core phdrs table search) after ip needUnwindInfo pi =
        .error .undefined := by
  have created : ¬ (createdEdi : ElfDynInfo w).Hits host.arm ip := Unkept.not_hits ⟨rfl, rfl⟩
  have left : ¬ (invalidateEdi : ElfDynInfo w).Hits host.arm ip := invalidateEdi_unkept.not_hits
  refine ⟨{ edi := invalidateEdi, files := Function.update (fun _ => .unmapped) n .lost }, ?_, ?_⟩
  · simp [findProcInfo, getUnwindInfo, created, Target.getElfImage, found, elfMapImage, there,
      invalid]
  · simp [findProcInfo, getUnwindInfo, left, Target.getElfImage, found, elfMapImage, there]

end OneLookup

/-! ## Runs -/

section Runs

variable {host : Host w} {targets : ι → Target w π} {looked : ι → Word w → Prop}
  {s s' : System ι w}

/-- What holds throughout: the list has sections of objects that were looked up, no backing file
    is lost, and a record is used for an address only if a first lookup would build it. -/
structure Good (host : Host w) (targets : ι → Target w π) (looked : ι → Word w → Prop)
    (s : System ι w) : Prop where
  list : ∀ e ∈ s.debugFrames, ∃ i ip o, looked i ip ∧ (targets i).object host ip = some o ∧
    o.UsesDebugFrame host ∧ o.entry host = some e
  files : ∀ i n, s.files i n ≠ .lost
  used : ∀ i ip, looked i ip → (s.edi i).Hits host.arm ip →
    (targets i).record host ip = .ok (some (s.edi i)) ∧ (targets i).FilesHold ip (s.files i)

theorem good_start : Good host targets looked ({} : System ι w) where
  list e member := by cases member
  files i n := by simp
  used i ip _ hits := absurd hits (Unkept.not_hits ⟨rfl, rfl⟩)

theorem Good.fits (good : Good host targets looked s) (apart : Apart host targets looked) {i : ι}
    {ip : Word w} (isLooked : looked i ip) : (s.session i).Fits host (targets i) ip where
  list o object uses e member covers := by
    obtain ⟨j, other, o', lookedOther, object', uses', entry⟩ := good.list e member
    exact apart.shared j other i ip o' o lookedOther isLooked object' object uses' uses e entry
      covers
  files := good.files i
  used := good.used i ip isLooked

/-- The record that one address has left serves another only if it would be built for that too. -/
theorem Apart.record (apart : Apart host targets looked) {i : ι} {ip ip' : Word w}
    {edi : ElfDynInfo w} (first : looked i ip) (second : looked i ip')
    (record : (targets i).record host ip = .ok (some edi)) (hits : edi.Hits host.arm ip') :
    (targets i).record host ip' = .ok (some edi) ∧
      (targets i).file ip' = (targets i).file ip := by
  obtain ⟨o, edi', object, tables, rfl⟩ := record_some record
  have ranged := (tables_ranged tables).1
  obtain ⟨keeps, covers, covers'⟩ := ranged.hits hits
  obtain ⟨same, file⟩ := apart.own i ip ip' o first second object ⟨edi', tables, keeps⟩ covers covers'
  have discard : edi'.discard ip' = edi'.discard ip := by
    rw [ranged.discard covers, ranged.discard covers']
  refine ⟨?_, file⟩
  rw [← discard] at hits ⊢
  exact record_of_tables same tables hits

theorem Good.answer (good : Good host targets looked s) (apart : Apart host targets looked)
    {l : Call ι w π} (isLooked : looked l.process l.ip) :
    s.answer host targets l =
      (targets l.process).firstAnswer host l.ip l.needUnwindInfo l.pi :=
  findProcInfo_eq (good.fits apart isLooked) (apart.readable l.process l.ip isLooked)
    (apart.readsAlike l.process l.ip isLooked)

variable [DecidableEq ι]

theorem Good.step (good : Good host targets looked s) (apart : Apart host targets looked)
    {l : Call ι w π} (isLooked : looked l.process l.ip) (stepped : s.Step host targets l s') :
    Good host targets looked s' := by
  obtain ⟨answer, after, done, rfl⟩ := stepped
  obtain ⟨ret, record, recorded, left⟩ := findProcInfo_left (good.fits apart isLooked)
    (apart.readable l.process l.ip isLooked) done
  constructor
  · intro e member
    cases left.list e member with
    | inl old => exact good.list e old
    | inr new =>
        obtain ⟨o, object, uses, entry⟩ := new
        exact ⟨l.process, l.ip, o, isLooked, object, uses, entry⟩
  · intro i n
    by_cases same : i = l.process
    · subst same
      simpa [System.withSession] using left.files n
    · simpa [System.withSession, same] using good.files i n
  · intro i ip isLooked' hits
    by_cases same : i = l.process
    · subst same
      simp only [System.withSession, Function.update_self] at hits ⊢
      have found := left.used ip hits
      subst found
      obtain ⟨again, file⟩ := apart.record isLooked isLooked' recorded hits
      obtain ⟨-, -, holds⟩ := left.finds after.edi rfl
      exact ⟨again, holds.1, fun n here => holds.2 n (file ▸ here)⟩
    · simp only [System.withSession, Function.update_of_ne same] at hits ⊢
      exact good.used i ip isLooked' hits

/-- In whatever order addresses of objects that are apart are looked up, each lookup answers as
    it would have as the first. -/
theorem lookups_historyFree (apart : Apart host targets looked) :
    System.HistoryFree host targets fun l => looked l.process l.ip := by
  intro s reached l isLooked
  have good : Good host targets looked s := by
    apply Run.invariant reached
    · rintro _ rfl
      exact good_start
    · intro s l s' good isLooked stepped
      exact good.step apart isLooked stepped
  rw [good.answer apart isLooked, good_start.answer apart isLooked]

end Runs

/-! A process in which the text of one object lies between the segments of another. -/
namespace Interleaved

/-- An `.eh_frame_hdr` at offset 44. -/
def headerBytes (fdeCount : Byte) : List Byte :=
  List.replicate 44 0 ++ [1, 0xff, 3, 0x3b, fdeCount, 0, 0, 0] ++ List.replicate 12 0

def host : Host 64 where
  arm := false
  localSpace := spaceOfBytes 64 (List.replicate 64 0 ++ headerBytes 1 ++ headerBytes 0)
  loadDebugFrame _ := none
  findBinaryForAddress _ := none
  uninitialised _ := {}
  budget := 0

/-- A CIE, an FDE for the procedure at 0x401000, and the table with an entry for it. -/
def memory : AddrSpace 64 :=
  spaceOfBytes 64 [0, 0, 0, 0,
    9, 0, 0, 0, 0, 0, 0, 0, 1, 0, 1, 0x78, 16,
    20, 0, 0, 0, 17, 0, 0, 0, 0, 0x10, 0x40, 0, 0, 0, 0, 0, 0x20, 0, 0, 0, 0, 0, 0, 0,
    0, 0, 0, 1, 0xff, 3, 0x3b, 1, 0, 0, 0, 0xd4, 0x0f, 0x40, 0, 0xe5, 0xff, 0xff, 0xff]

def segments (textVaddr : Word 64) : List (ProgramHeader 64) :=
  [{ type := .load, flags := 0, offset := 0, vaddr := 0, memsz := 0x1000, filesz := 0x1000 },
    { type := .load, flags := pfX, offset := 0x1000, vaddr := textVaddr, memsz := 0x1000
      filesz := 0x1000 },
    { type := .gnuEhFrame, flags := 0, offset := 44, vaddr := 44, memsz := 8, filesz := 8 }]

/-- The object between the segments. -/
def inner : Image 64 := { image := 64, size := 0x2000, valid := true, phdrs := segments 0x401000 }

/-- An object with no FDE, loaded at 0x400000. -/
def outer : Image 64 := { image := 128, size := 0x2000, valid := true, phdrs := segments 0x100000 }

def target : Target 64 (ProcInfo 64) :=
  .ptrace
    (fun ip =>
      if 0x401000 ≤ ip ∧ ip < 0x402000 then some ⟨inner, 0x401000, 0x1000, "inner"⟩
      else if 0x500000 ≤ ip ∧ ip < 0x501000 then some ⟨outer, 0x500000, 0x1000, "outer"⟩
      else none)
    (dwarfSearch memory host.localSpace)

def innerObject : Object 64 :=
  { ei := inner, loadBase := 0, startIp := 0, endIp := 0x402000, name := some "inner" }

theorem object_of_inner {ip : Word 64} (inside : 0x401000 ≤ ip ∧ ip < 0x402000) :
    target.object host ip = some innerObject := by
  have mapped : target.mapped ip = some ⟨inner, 0x401000, 0x1000, "inner"⟩ := if_pos inside
  rw [Target.object, mapped]
  rfl

/-- Addresses of one object only. -/
theorem inner_historyFree :
    System.HistoryFree host (fun _ : Unit => target)
      fun l => 0x401000 ≤ l.ip ∧ l.ip < 0x402000 := by
  have apart : Apart host (fun _ : Unit => target) fun _ ip => 0x401000 ≤ ip ∧ ip < 0x402000 := by
    refine ⟨fun _ _ _ => trivial, ?_, ?_, ?_⟩
    · intro _ ip _ o ret edi _ _ files files' _ _ slot _ _ needUnwindInfo pi
      rfl
    · intro _ ip ip' o inside inside' object _ _ _
      rw [object_of_inner inside] at object
      exact ⟨object ▸ object_of_inner inside', rfl⟩
    · intro _ ip _ ip' o o' inside _ object _ _ _ e made
      rw [object_of_inner inside] at object
      cases object
      cases made
  exact lookups_historyFree apart

def lookup (ip : Word 64) : Call Unit 64 (ProcInfo 64) := ⟨(), ip, false, {}⟩

/-- What a lookup in the outer object leaves. -/
def afterOuter : Session 64 :=
  match findProcInfo host target {} 0x500010 false {} with
  | .ok (_, s) => s
  | .error _ => {}

/-- The table of the outer object is searched for an address of the inner one. -/
theorem stale_table_searched :
    ¬ System.HistoryFree host (fun _ : Unit => target) fun _ => True := by
  intro free
  have first : findProcInfo host target {} 0x500010 false {} =
      .ok ((.error (.err .noinfo), {}), afterOuter) := rfl
  have reached : System.Reached host (fun _ : Unit => target) (fun _ => True)
      (({} : System Unit 64).withSession () afterOuter) :=
    .step (lookup 0x500010) (.start rfl) trivial ⟨_, _, first, rfl⟩
  have fresh : ({} : System Unit 64).answer host (fun _ => target) (lookup 0x401010) =
      .ok (.ok (), { startIp := 0x401000, endIp := 0x401020 }) := rfl
  have stale : (({} : System Unit 64).withSession () afterOuter).answer host (fun _ => target)
      (lookup 0x401010) = .ok (.error (.err .noinfo), {}) := rfl
  have same := free _ reached (lookup 0x401010) trivial
  rw [fresh, stale] at same
  simp at same

end Interleaved

end Libunwind.Lookup
