import Libunwind.Dwarf.Fde

/-! # Linear search of an `.eh_frame`

Without a binary search table the entries of the section are visited one after
the other. Reading a CIE succeeds like reading an FDE, and leaves the procedure
info as it was; every visit counts against the number of FDEs.
-/

namespace Libunwind.Dwarf

variable {w : Nat}

def ProcInfo.Covers (pi : ProcInfo w) (ip : Word w) : Prop := pi.startIp ≤ ip ∧ ip < pi.endIp

instance ProcInfo.decidableCovers (pi : ProcInfo w) (ip : Word w) : Decidable (pi.Covers ip) :=
  inferInstanceAs (Decidable (_ ∧ _))

/-- The loop of `linear_search`, with so many rounds left before `i` reaches
    `fde_count`. -/
def linearSearchLoop (as : AddrSpace w) (ip ehFrameStart ehFrameEnd : Word w)
    (needUnwindInfo granted : Bool) : Nat → Word w → ProcInfo w → Result (ProcInfo w)
  | 0, _, _ => .error (.err .noinfo)
  | left + 1, addr, pi =>
      if addr < ehFrameEnd then do
        let fdeAddr := addr
        let (pi, addr) ← extractProcInfoFromFde as addr pi ehFrameStart false granted false
        if pi.startIp ≤ ip ∧ ip < pi.endIp then
          if !needUnwindInfo then pure pi
          else do
            let (pi, _) ←
              extractProcInfoFromFde as fdeAddr pi ehFrameStart needUnwindInfo granted false
            pure pi
        else linearSearchLoop as ip ehFrameStart ehFrameEnd needUnwindInfo granted left addr pi
      else .error (.err .noinfo)

/-- `linear_search`; a success returns 1. -/
def linearSearch (as : AddrSpace w) (ip ehFrameStart ehFrameEnd fdeCount : Word w)
    (pi : ProcInfo w) (needUnwindInfo granted : Bool) : Result (ProcInfo w) :=
  linearSearchLoop as ip ehFrameStart ehFrameEnd needUnwindInfo granted fdeCount.toNat
    ehFrameStart pi

/-! ## Sections -/

/-- What an FDE says of its procedure. -/
structure FdeInfo (w : Nat) where
  startIp : Word w
  endIp : Word w
  handler : Word w
  lsda : Word w
  dci : CieInfo w
  deriving DecidableEq, Repr

namespace FdeInfo

def Covers (f : FdeInfo w) (ip : Word w) : Prop := f.startIp ≤ ip ∧ ip < f.endIp

instance (f : FdeInfo w) (ip : Word w) : Decidable (f.Covers ip) :=
  inferInstanceAs (Decidable (_ ∧ _))

/-- Fills in the procedure info. -/
def write (f : FdeInfo w) (needUnwindInfo : Bool) (pi : ProcInfo w) : ProcInfo w :=
  let pi := { pi with startIp := f.startIp, endIp := f.endIp, handler := f.handler, lsda := f.lsda }
  if needUnwindInfo then { pi with format := .table, unwindInfo := some f.dci } else pi

/-- The procedure info has been filled in from this FDE. -/
def Describes (f : FdeInfo w) (needUnwindInfo : Bool) (pi : ProcInfo w) : Prop :=
  f.write needUnwindInfo pi = pi

variable (f g : FdeInfo w) (needUnwindInfo : Bool) (pi : ProcInfo w)

@[simp] theorem write_startIp : (f.write needUnwindInfo pi).startIp = f.startIp := by
  cases needUnwindInfo <;> rfl

@[simp] theorem write_endIp : (f.write needUnwindInfo pi).endIp = f.endIp := by
  cases needUnwindInfo <;> rfl

@[simp] theorem write_gp : (f.write needUnwindInfo pi).gp = pi.gp := by
  cases needUnwindInfo <;> rfl

/-- The info of an FDE covers that of the one before. -/
@[simp] theorem write_write : f.write needUnwindInfo (g.write false pi) =
    f.write needUnwindInfo pi := by
  cases needUnwindInfo <;> rfl

theorem describes_write : f.Describes needUnwindInfo (f.write needUnwindInfo pi) := by
  cases needUnwindInfo <;> rfl

end FdeInfo

inductive Entry (w : Nat) where
  | cie
  | fde (info : FdeInfo w)
  deriving DecidableEq, Repr

def Entry.fde? : Entry w → Option (FdeInfo w)
  | .cie => none
  | .fde info => some info

def fdesOf (entries : List (Entry w)) : List (FdeInfo w) := entries.filterMap Entry.fde?

/-- The entries of a section from `addr` on, in an object with this global
    pointer. What an FDE says does not depend on the procedure info that it is
    read into. -/
inductive Layout (as : AddrSpace w) (gp base limit : Word w) : Word w → List (Entry w) → Prop where
  | done {addr} : ¬ addr < limit → Layout as gp base limit addr []
  | terminator {addr next} : addr < limit → readu32 as addr = .ok (0, next) →
      Layout as gp base limit addr []
  | cie {addr header rest} : addr < limit → readFdeHeader as addr = .ok header →
      isCieId header.cieOffset false = true → Layout as gp base limit header.fdeEnd rest →
      Layout as gp base limit addr (.cie :: rest)
  | fde {addr next info rest} : addr < limit →
      (∀ pi needUnwindInfo, pi.gp = gp →
        extractProcInfoFromFde as addr pi base needUnwindInfo true false =
          .ok (info.write needUnwindInfo pi, next)) →
      Layout as gp base limit next rest → Layout as gp base limit addr (.fde info :: rest)

/-- An `.eh_frame` section, and the number of its FDEs. -/
structure EhFrame (as : AddrSpace w) (gp : Word w) where
  start : Word w
  limit : Word w
  entries : List (Entry w)
  layout : Layout as gp start limit start entries
  fdeCount : Word w
  counts : fdeCount.toNat = (fdesOf entries).length

/-! ## The search over the entries -/

/-- What the loop does on the entries that it visits. -/
def searchEntries (ip : Word w) (needUnwindInfo : Bool) :
    List (Entry w) → ProcInfo w → Option (ProcInfo w)
  | [], _ => none
  | .cie :: rest, pi => if pi.Covers ip then some pi else searchEntries ip needUnwindInfo rest pi
  | .fde f :: rest, pi =>
      if f.Covers ip then some (f.write needUnwindInfo pi)
      else searchEntries ip needUnwindInfo rest (f.write false pi)

/-- A search that finds nothing returns `-UNW_ENOINFO`. -/
def foundOr : Option (ProcInfo w) → Result (ProcInfo w)
  | some pi => .ok pi
  | none => .error (.err .noinfo)

section Search

variable {as : AddrSpace w} {gp base limit addr ip : Word w} {needUnwindInfo : Bool}

theorem extract_terminator {next : Word w} {pi : ProcInfo w} {granted isDebugFrame : Bool}
    (zero : readu32 as addr = .ok (0, next)) :
    extractProcInfoFromFde as addr pi base needUnwindInfo granted isDebugFrame =
      .error (.err .noinfo) := by
  rw [extractProcInfoFromFde, readFdeHeader, zero]
  rfl

theorem extract_cie {header : FdeHeader w} {pi : ProcInfo w} {granted isDebugFrame : Bool}
    (read : readFdeHeader as addr = .ok header)
    (isCie : isCieId header.cieOffset isDebugFrame = true) :
    extractProcInfoFromFde as addr pi base needUnwindInfo granted isDebugFrame =
      .ok (pi, header.fdeEnd) := by
  rw [extractProcInfoFromFde, read, ok_bind, if_pos isCie]
  rfl

/-- On a well-formed section the loop sees the entries alone. -/
theorem linearSearchLoop_eq {entries : List (Entry w)}
    (layout : Layout as gp base limit addr entries) (left : Nat) (pi : ProcInfo w)
    (sameGp : pi.gp = gp) :
    linearSearchLoop as ip base limit needUnwindInfo true left addr pi =
      foundOr (searchEntries ip needUnwindInfo (entries.take left) pi) := by
  induction layout generalizing left pi with
  | done outside =>
      cases left with
      | zero => rfl
      | succ left =>
          rw [linearSearchLoop, if_neg outside, List.take_nil]
          rfl
  | terminator inside zero =>
      cases left with
      | zero => rfl
      | succ left =>
          rw [linearSearchLoop, if_pos inside, extract_terminator zero, error_bind, List.take_nil]
          rfl
  | @cie addr header rest inside read isCie _ ih =>
      cases left with
      | zero => rfl
      | succ left =>
          rw [linearSearchLoop, if_pos inside, List.take_succ_cons, searchEntries]
          simp only [extract_cie read isCie, ok_bind]
          by_cases covers : pi.Covers ip
          · have inPi : pi.startIp ≤ ip ∧ ip < pi.endIp := covers
            rw [if_pos inPi, if_pos covers]
            cases needUnwindInfo <;> rfl
          · have notInPi : ¬ (pi.startIp ≤ ip ∧ ip < pi.endIp) := covers
            rw [if_neg notInPi, if_neg covers]
            exact ih left pi sameGp
  | @fde addr next f rest inside read _ ih =>
      cases left with
      | zero => rfl
      | succ left =>
          rw [linearSearchLoop, if_pos inside, List.take_succ_cons, searchEntries]
          simp only [read pi false sameGp, ok_bind, FdeInfo.write_startIp, FdeInfo.write_endIp]
          by_cases covers : f.Covers ip
          · have inFde : f.startIp ≤ ip ∧ ip < f.endIp := covers
            rw [if_pos inFde, if_pos covers]
            cases needUnwindInfo with
            | false => rfl
            | true =>
                have again := read (f.write false pi) true ((f.write_gp false pi).trans sameGp)
                simp only [Bool.not_true, Bool.false_eq_true, if_false, again, ok_bind,
                  FdeInfo.write_write]
                rfl
          · have notInFde : ¬ (f.startIp ≤ ip ∧ ip < f.endIp) := covers
            rw [if_neg notInFde, if_neg covers]
            exact ih left (f.write false pi) ((f.write_gp false pi).trans sameGp)

/-- The first FDE that covers the address. -/
def firstCovering (ip : Word w) (entries : List (Entry w)) : Option (FdeInfo w) :=
  (fdesOf entries).find? fun f => f.Covers ip

theorem firstCovering_fde (f : FdeInfo w) (rest : List (Entry w)) :
    firstCovering ip (.fde f :: rest) = if f.Covers ip then some f else firstCovering ip rest := by
  by_cases covers : f.Covers ip <;>
    simp [firstCovering, fdesOf, Entry.fde?, covers]

/-- Info that does not cover the address never will be taken for an FDE's. -/
theorem searchEntries_eq (entries : List (Entry w)) (pi : ProcInfo w) (apart : ¬ pi.Covers ip) :
    searchEntries ip needUnwindInfo entries pi =
      (firstCovering ip entries).map fun f => f.write needUnwindInfo pi := by
  induction entries generalizing pi with
  | nil => rfl
  | cons entry rest ih =>
      cases entry with
      | cie =>
          rw [searchEntries, if_neg apart, ih pi apart]
          rfl
      | fde f =>
          rw [searchEntries, firstCovering_fde]
          by_cases covers : f.Covers ip
          · rw [if_pos covers, if_pos covers]
            rfl
          · have still : ¬ (f.write false pi).Covers ip := covers
            rw [if_neg covers, if_neg covers, ih _ still]
            simp only [FdeInfo.write_write]

/-- Only a leading CIE leaves the caller's info to be looked at. -/
theorem searchEntries_eq_of_not_stale (entries : List (Entry w)) (pi : ProcInfo w)
    (fresh : ¬ (entries.head? = some .cie ∧ pi.Covers ip)) :
    searchEntries ip needUnwindInfo entries pi =
      (firstCovering ip entries).map fun f => f.write needUnwindInfo pi := by
  cases entries with
  | nil => rfl
  | cons entry rest =>
      cases entry with
      | cie => exact searchEntries_eq _ pi fun covers => fresh ⟨rfl, covers⟩
      | fde f =>
          rw [searchEntries, firstCovering_fde]
          by_cases covers : f.Covers ip
          · rw [if_pos covers, if_pos covers]
            rfl
          · have apart : ¬ (f.write false pi).Covers ip := covers
            rw [if_neg covers, if_neg covers, searchEntries_eq rest _ apart]
            simp only [FdeInfo.write_write]

theorem firstCovering_isSome_iff {entries : List (Entry w)} :
    (firstCovering ip entries).isSome ↔ ∃ f ∈ fdesOf entries, f.Covers ip := by
  simp [firstCovering]

/-- An FDE found among the first entries is the first of all. -/
theorem firstCovering_of_take {entries : List (Entry w)} {count : Nat} {f : FdeInfo w}
    (found : firstCovering ip (entries.take count) = some f) :
    firstCovering ip entries = some f := by
  have whole : fdesOf entries = fdesOf (entries.take count) ++ fdesOf (entries.drop count) := by
    rw [fdesOf, fdesOf, fdesOf, ← List.filterMap_append, List.take_append_drop]
  rw [firstCovering] at found
  rw [firstCovering, whole, List.find?_append, found]
  rfl

end Search

namespace EhFrame

variable {as : AddrSpace w} {gp : Word w}

/-- `linear_search` in this section. -/
def search (s : EhFrame as gp) (ip : Word w) (pi : ProcInfo w) (needUnwindInfo : Bool) :
    Result (ProcInfo w) :=
  linearSearch as ip s.start s.limit s.fdeCount pi needUnwindInfo true

/-- The search succeeds just for the addresses that an FDE covers, and describes
    the first such FDE. -/
def SearchCorrect (s : EhFrame as gp) (ip : Word w) (pi : ProcInfo w) (needUnwindInfo : Bool) :
    Prop :=
  ((∃ out, s.search ip pi needUnwindInfo = .ok out) ↔ ∃ f ∈ fdesOf s.entries, f.Covers ip) ∧
    ∀ out, s.search ip pi needUnwindInfo = .ok out →
      ∃ f, firstCovering ip s.entries = some f ∧ f.Describes needUnwindInfo out

/-- The section starts with a CIE, and the caller's info covers the address. -/
def Stale (s : EhFrame as gp) (ip : Word w) (pi : ProcInfo w) : Prop :=
  s.fdeCount ≠ 0 ∧ s.entries.head? = some .cie ∧ pi.Covers ip

/-- Counting CIEs too, the search gets to an FDE that covers the address, if
    there is any; and what the caller's info says of the address is not looked at,
    or is right. -/
structure InReach (s : EhFrame as gp) (ip : Word w) (pi : ProcInfo w) (needUnwindInfo : Bool) :
    Prop where
  stale : s.Stale ip pi →
    ∃ f, firstCovering ip s.entries = some f ∧ f.Describes needUnwindInfo pi
  counted : ¬ s.Stale ip pi → (∃ f ∈ fdesOf s.entries, f.Covers ip) →
    ∃ f ∈ fdesOf (s.entries.take s.fdeCount.toNat), f.Covers ip

variable {s : EhFrame as gp} {ip : Word w} {pi : ProcInfo w} {needUnwindInfo : Bool}

theorem search_eq (sameGp : pi.gp = gp) :
    s.search ip pi needUnwindInfo =
      foundOr (searchEntries ip needUnwindInfo (s.entries.take s.fdeCount.toNat) pi) :=
  linearSearchLoop_eq s.layout _ pi sameGp

theorem search_stale (sameGp : pi.gp = gp) (stale : s.Stale ip pi) :
    s.search ip pi needUnwindInfo = .ok pi := by
  obtain ⟨some_fde, first, covers⟩ := stale
  obtain ⟨rest, isRest⟩ := List.head?_eq_some_iff.mp first
  obtain ⟨count, isCount⟩ := Nat.exists_eq_succ_of_ne_zero
    fun zero => some_fde (BitVec.eq_of_toNat_eq zero)
  rw [search_eq sameGp, isRest, isCount, List.take_succ_cons, searchEntries, if_pos covers]
  rfl

theorem search_fresh (sameGp : pi.gp = gp) (fresh : ¬ s.Stale ip pi) :
    s.search ip pi needUnwindInfo =
      foundOr ((firstCovering ip (s.entries.take s.fdeCount.toNat)).map
        fun f => f.write needUnwindInfo pi) := by
  rw [search_eq sameGp, searchEntries_eq_of_not_stale]
  rw [List.head?_take]
  intro stale
  by_cases none : s.fdeCount.toNat = 0
  · rw [if_pos none] at stale
    cases stale.1
  · rw [if_neg none] at stale
    refine fresh ⟨fun zero => none ?_, stale⟩
    rw [zero]
    rfl

/-- Exactly when the search of a well-formed section is correct. -/
theorem searchCorrect_iff (s : EhFrame as pi.gp) (ip : Word w) (needUnwindInfo : Bool) :
    s.SearchCorrect ip pi needUnwindInfo ↔ s.InReach ip pi needUnwindInfo := by
  by_cases stale : s.Stale ip pi
  · have result : s.search ip pi needUnwindInfo = .ok pi := search_stale rfl stale
    constructor
    · intro correct
      exact ⟨fun _ => correct.2 pi result, fun fresh => absurd stale fresh⟩
    · intro reach
      obtain ⟨f, first, describes⟩ := reach.stale stale
      have covered := firstCovering_isSome_iff.mp (Option.isSome_of_eq_some first)
      refine ⟨⟨fun _ => covered, fun _ => ⟨pi, result⟩⟩, fun out found => ?_⟩
      cases result.symm.trans found
      exact ⟨f, first, describes⟩
  · have result : s.search ip pi needUnwindInfo =
        foundOr ((firstCovering ip (s.entries.take s.fdeCount.toNat)).map
          fun f => f.write needUnwindInfo pi) := search_fresh rfl stale
    cases found : firstCovering ip (s.entries.take s.fdeCount.toNat) with
    | none =>
        rw [found] at result
        have missed : ¬ ∃ f ∈ fdesOf (s.entries.take s.fdeCount.toNat), f.Covers ip := by
          rw [← firstCovering_isSome_iff, found]
          simp
        have fails : ∀ out, s.search ip pi needUnwindInfo ≠ .ok out := by
          intro out success
          cases result.symm.trans success
        constructor
        · intro correct
          refine ⟨fun isStale => absurd isStale stale, fun _ covered => ?_⟩
          obtain ⟨out, success⟩ := correct.1.mpr covered
          exact absurd success (fails out)
        · intro reach
          refine ⟨⟨fun ⟨out, success⟩ => absurd success (fails out), fun covered => ?_⟩,
            fun out success => absurd success (fails out)⟩
          exact absurd (reach.counted stale covered) missed
    | some f =>
        rw [found] at result
        have first := firstCovering_of_take found
        have covered := firstCovering_isSome_iff.mp (Option.isSome_of_eq_some first)
        have visited := firstCovering_isSome_iff.mp (Option.isSome_of_eq_some found)
        constructor
        · intro _
          exact ⟨fun isStale => absurd isStale stale, fun _ _ => visited⟩
        · intro _
          refine ⟨⟨fun _ => covered, fun _ => ⟨_, result⟩⟩, fun out success => ?_⟩
          cases result.symm.trans success
          exact ⟨f, first, f.describes_write needUnwindInfo pi⟩

end EhFrame

/-! A section at address 4 with a CIE, and an FDE at address 17: the CIE is
counted, and the FDE is not visited. -/
namespace OneFde

def memory : AddrSpace 64 :=
  spaceOfBytes 64 [0, 0, 0, 0,
    9, 0, 0, 0, 0, 0, 0, 0, 1, 0, 1, 0x78, 16,
    20, 0, 0, 0, 17, 0, 0, 0, 0, 0x10, 0x40, 0, 0, 0, 0, 0, 0x20, 0, 0, 0, 0, 0, 0, 0]

def info : FdeInfo 64 where
  startIp := 0x401000
  endIp := 0x401020
  handler := 0
  lsda := 0
  dci :=
    { cieInstrStart := 17, cieInstrEnd := 17, fdeInstrStart := 41, fdeInstrEnd := 41
      codeAlign := 1, dataAlign := -8, retAddrColumn := 16, fdeEncoding := ehPeUdata8
      lsdaEncoding := ehPeOmit }

def ehFrame : EhFrame memory 0 where
  start := 4
  limit := 41
  entries := [.cie, .fde info]
  layout := by
    have read (pi : ProcInfo 64) (needUnwindInfo : Bool) :
        extractProcInfoFromFde memory 17 pi 4 needUnwindInfo true false =
          .ok (info.write needUnwindInfo pi, 41) := by
      cases needUnwindInfo <;> rfl
    exact .cie (by decide) rfl rfl
      (.fde (by decide) (fun pi needUnwindInfo _ => read pi needUnwindInfo) (.done (by decide)))
  fdeCount := 1
  counts := rfl

theorem fde_not_visited : ehFrame.search 0x401000 {} false = .error (.err .noinfo) ∧
    ¬ ehFrame.SearchCorrect 0x401000 {} false := by
  have missed : ehFrame.search 0x401000 {} false = .error (.err .noinfo) := by decide
  refine ⟨missed, fun correct => ?_⟩
  have covered : ∃ f ∈ fdesOf ehFrame.entries, f.Covers 0x401000 := ⟨info, by decide, by decide⟩
  obtain ⟨out, found⟩ := correct.1.mpr covered
  cases missed.symm.trans found

end OneFde

end Libunwind.Dwarf
