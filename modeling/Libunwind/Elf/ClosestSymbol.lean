import Libunwind.Elf.SymbolTables

/-! # The closest symbol

The names and the ranges of procedures. The distance of the symbol that was found is carried from
one symbol table to the next, and to the mini debuginfo.
-/

namespace Libunwind.Elf

variable {c : ElfClass}

/-- The distance of the closest symbol so far, with what the lookup is to deliver. -/
structure Closest (c : ElfClass) (α : Type) where
  minDist : Word c.bits
  data : α

/-- The test of both callbacks. -/
def Hits (ip minDist : Word c.bits) (info : SymbolInfo c) : Prop :=
  info.startIp ≤ ip ∧ ip < info.startIp + info.sym.size ∧ ip - info.startIp < minDist

instance instDecidableHits (ip minDist : Word c.bits) (info : SymbolInfo c) :
    Decidable (Hits ip minDist info) :=
  inferInstanceAs (Decidable (_ ∧ _ ∧ _))

/-- A callback that takes what is closer. -/
def takeCloser {α : Type} (take : SymbolInfo c → α → Result (Hit × α)) (ip : Word c.bits) :
    SymtabLookup c (Closest c α) := fun info s =>
  if Hits ip s.minDist info then do
    let (hit, data) ← take info s.data
    pure (some hit, { minDist := ip - info.startIp, data })
  else pure (none, s)

section Callbacks

variable (ei : ElfImage c)

/-- A string that ends in the image, if so many bytes are left of it. -/
def cString : Nat → Nat → Result (List Byte)
  | 0, _ => .error .undefined
  | left + 1, off =>
      if ei.byte off = 0 then pure []
      else do
        let rest ← cString left (off + 1)
        pure (ei.byte off :: rest)

def symName (info : SymbolInfo c) : Result (List Byte) :=
  let off := info.strtab + info.sym.name.toNat
  cString ei (ei.size.toNat - off) off

/-- What `lookup_symbol_callback` does with a symbol: the name is copied to a buffer, which holds a
    string then. Without a byte for the terminator, there is no bound for the copy. -/
def copyName (bufLen : Nat) (info : SymbolInfo c) (_ : List Byte) : Result (Hit × List Byte) := do
  let name ← symName ei info
  if name.length < bufLen then pure (.success, name)
  else if bufLen = 0 then .error .undefined
  else pure (.nomem, name.take (bufLen - 1))

def lookupSymbolCallback (bufLen : Nat) (ip : Word c.bits) :
    SymtabLookup c (Closest c (List Byte)) :=
  takeCloser (copyName ei bufLen) ip

/-- `lookup_ip_range_callback` -/
def lookupIpRangeCallback (ip : Word c.bits) :
    SymtabLookup c (Closest c (Word c.bits × Word c.bits)) :=
  takeCloser (fun info _ => pure (.success, info.startIp, info.startIp + info.sym.size)) ip

end Callbacks

/-- What the routines use beside the image: the page size, `tdep_get_func_addr` and the
    decompression of mini debuginfo, which may fail. -/
structure Host (c : ElfClass) where
  pageBits : Nat
  getFuncAddr : Word c.bits → Option (Word c.bits)
  decompress : List Byte → Option (ElfImage c)

section Code

variable (host : Host c) (ei : ElfImage c)

/-- The program headers, for `get_load_offset`. -/
def programHeaders : Nat → Nat → Result (List (Phdr c.bits))
  | 0, _ => pure []
  | phnum + 1, phdr => do
      let pType ← ei.load 4 phdr
      let flags ← ei.load 4 (phdr + c.pFlags)
      let offset ← ei.load c.bytes (phdr + c.pOffset)
      let vaddr ← ei.load c.bytes (phdr + c.pVaddr)
      let rest ← programHeaders phnum (phdr + c.phdrSize)
      pure (⟨if pType = ptLoad then .load else .other, flags, offset, vaddr, 0⟩ :: rest)

/-- `get_load_offset` of the image. -/
def loadOffset (segbase : Word c.bits) : Result (Word c.bits) := do
  let phoff ← ei.load c.bytes c.ePhoff
  let phnum ← ei.load 2 c.ePhnum
  let phdrs ← programHeaders ei phnum.toNat phoff.toNat
  pure (getLoadOffset host.pageBits phdrs segbase)

/-- `.gnu_debugdata` -/
def gnuDebugdata : List Byte :=
  [0x2e, 0x67, 0x6e, 0x75, 0x5f, 0x64, 0x65, 0x62, 0x75, 0x67, 0x64, 0x61, 0x74, 0x61]

/-- `extract_minidebuginfo` -/
def extractMinidebuginfo : Result (Option (ElfImage c)) := do
  match ← ei.findSection gnuDebugdata with
  | none => pure none
  | some shdr => do
      let shOffset ← ei.load c.bytes (shdr + c.shOffset)
      let shSize ← ei.load c.bytes (shdr + c.shSize)
      let compressed := (List.range shSize.toNat).map fun i => ei.byte (shOffset.toNat + i)
      pure (host.decompress compressed)

/-- What both routines do: the image is searched, and then the mini debuginfo for what is closer. The
    callback depends on the image that it is for. -/
def lookupInImage {α : Type} (symtabLookup : ElfImage c → SymtabLookup c (Closest c α))
    (segbase : Word c.bits) (data : α) : Result (Option Hit × Closest c α) := do
  let offset ← loadOffset host ei segbase
  let loading : Loading c := ⟨offset, host.getFuncAddr⟩
  let (ret, s) ← ei.lookupSymbolCloseness loading (symtabLookup ei) ⟨BitVec.allOnes c.bits, data⟩
  match ← extractMinidebuginfo host ei with
  | none => pure (ret, s)
  | some mdi => do
      let (retMdi, s) ← mdi.lookupSymbolCloseness loading (symtabLookup mdi) s
      pure (retMdi.or ret, s)

/-- What `get_proc_name_in_image` returns (`-UNW_ENOINFO` is no hit), the string in the buffer, and
    the offset. -/
structure ProcName (c : ElfClass) where
  ret : Option Hit
  buf : List Byte
  offp : Option (Word c.bits)
  deriving DecidableEq

/-- `get_proc_name_in_image` -/
def getProcNameInImage (segbase ip : Word c.bits) (buf : List Byte) (bufLen : Nat) :
    Result (ProcName c) := do
  let (ret, s) ← lookupInImage host ei (fun ei => lookupSymbolCallback ei bufLen ip) segbase buf
  if ei.size ≤ s.minDist then pure ⟨none, s.data, none⟩
  else pure ⟨ret, s.data, some s.minDist⟩

/-- `get_proc_ip_range_in_image`: what it returns, and the range. -/
def getProcIpRangeInImage (segbase ip : Word c.bits) (range : Word c.bits × Word c.bits) :
    Result (Option Hit × Word c.bits × Word c.bits) := do
  let (ret, s) ← lookupInImage host ei (fun _ => lookupIpRangeCallback ip) segbase range
  if ei.size ≤ s.minDist then pure (none, s.data) else pure (ret, s.data)

end Code

/-! ## What is closest -/

/-- A symbol with the image that it is of. -/
abbrev Located (c : ElfClass) := ElfImage c × SymbolInfo c

def locatedSymbols (loading : Loading c) (ei : ElfImage c) : List (Located c) :=
  (ei.symbols loading).map fun info => (ei, info)

def miniSymbols (loading : Loading c) : Option (ElfImage c) → List (Located c)
  | none => []
  | some mdi => locatedSymbols loading mdi

section Spec

variable (ip : Word c.bits)

def distance (x : Located c) : Word c.bits := ip - x.2.startIp

/-- The address is in the range of the symbol. -/
def Covers (x : Located c) : Prop :=
  x.2.startIp ≤ ip ∧ ip.toNat < x.2.startIp.toNat + x.2.sym.size.toNat

/-- It is near enough for an image of such a size. -/
def Candidate (size : Word c.bits) (x : Located c) : Prop := Covers ip x ∧ distance ip x < size

structure IsClosest (all : List (Located c)) (x : Located c) : Prop where
  mem : x ∈ all
  covers : Covers ip x
  closest : ∀ y ∈ all, Covers ip y → distance ip x ≤ distance ip y

variable (size : Word c.bits) (all : List (Located c))

/-- What is promised of `get_proc_name_in_image`. -/
structure NameRight (bufLen : Nat) (r : ProcName c) : Prop where
  noinfo : r.ret = none ↔ ¬∃ x ∈ all, Candidate ip size x
  closest : (∃ x ∈ all, Candidate ip size x) → ∃ x name, IsClosest ip all x ∧
    symName x.1 x.2 = .ok name ∧ r.offp = some (distance ip x) ∧
    (r.ret, r.buf) =
      if name.length < bufLen then (some .success, name) else (some .nomem, name.take (bufLen - 1))

/-- What is promised of `get_proc_ip_range_in_image`. -/
structure RangeRight (r : Option Hit × Word c.bits × Word c.bits) : Prop where
  noinfo : r.1 = none ↔ ¬∃ x ∈ all, Candidate ip size x
  closest : (∃ x ∈ all, Candidate ip size x) → ∃ x, IsClosest ip all x ∧
    r = (some .success, x.2.startIp, x.2.startIp + x.2.sym.size)

/-- The first symbol that the test of the callbacks is true of. -/
def firstHit (minDist : Word c.bits) (infos : List (Located c)) : Option (Located c) :=
  infos.find? fun x => Hits ip minDist x.2

/-- The first symbol of the image that is hit, or the first one of the mini debuginfo that is
    closer. -/
def firstFound (main mini : List (Located c)) : Option (Located c) :=
  let found := firstHit ip (BitVec.allOnes c.bits) main
  (firstHit ip (found.elim (BitVec.allOnes c.bits) (distance ip)) mini).or found

/-- No symbol stands behind one that is farther away, and the buffer has room for a string. -/
structure ClosestFirst (bufLen : Nat) (main mini : List (Located c)) : Prop where
  room : bufLen ≠ 0 ∨ firstFound ip main mini = none
  first : ∀ x ∈ main ++ mini, Candidate ip size x →
    ∃ y, firstFound ip main mini = some y ∧ distance ip y ≤ distance ip x

end Spec

/-- The image, its mini debuginfo and their names are in order. -/
structure Searchable (host : Host c) (ei : ElfImage c) (segbase : Word c.bits)
    (loading : Loading c) (mdi : Option (ElfImage c)) : Prop where
  offset : loadOffset host ei segbase = .ok loading.loadOffset
  funcAddr : loading.getFuncAddr = host.getFuncAddr
  formed : ei.WellFormed
  mini : extractMinidebuginfo host ei = .ok mdi
  miniFormed : ∀ m, mdi = some m → m.WellFormed
  names : ∀ x ∈ locatedSymbols loading ei ++ miniSymbols loading mdi,
    ∃ name, symName x.1 x.2 = .ok name

/-! ## What the lookups find -/

section Lookup

variable {α : Type} {ip : Word c.bits} {loading : Loading c} {host : Host c} {ei : ElfImage c}
  {segbase : Word c.bits} {mdi : Option (ElfImage c)}
  {take : ElfImage c → SymbolInfo c → α → Result (Hit × α)}

/-- The lookup with such a symbol. -/
def takeFound (take : ElfImage c → SymbolInfo c → α → Result (Hit × α)) (ip : Word c.bits)
    (s : Closest c α) : Option (Located c) → Result (Option Hit × Closest c α)
  | none => pure (none, s)
  | some x => do
      let (hit, data) ← take x.1 x.2 s.data
      pure (some hit, { minDist := distance ip x, data })

theorem visitAll_takeCloser (infos : List (SymbolInfo c)) (s : Closest c α) :
    visitAll (takeCloser (take ei) ip) infos s =
      takeFound take ip s (firstHit ip s.minDist (infos.map fun info => (ei, info))) := by
  induction infos with
  | nil => rfl
  | cons info infos ih =>
      rw [visitAll, takeCloser, List.map_cons, firstHit, List.find?_cons]
      by_cases hits : Hits ip s.minDist info
      · rw [if_pos hits, decide_eq_true hits]
        simp only [takeFound]
        cases take ei info s.data with
        | error e => rfl
        | ok outcome => rfl
      · rw [if_neg hits, decide_eq_false hits]
        exact ih

theorem lookup_takeCloser (formed : ei.WellFormed) (s : Closest c α) :
    ei.lookupSymbolCloseness loading (takeCloser (take ei) ip) s =
      takeFound take ip s (firstHit ip s.minDist (locatedSymbols loading ei)) := by
  rw [ElfImage.lookupSymbolCloseness_eq formed, visitAll_takeCloser]
  rfl

theorem lookupInImage_eq (ready : Searchable host ei segbase loading mdi) (data : α) :
    lookupInImage host ei (fun ei => takeCloser (take ei) ip) segbase data = (do
      let (ret, s) ← takeFound take ip ⟨BitVec.allOnes c.bits, data⟩
        (firstHit ip (BitVec.allOnes c.bits) (locatedSymbols loading ei))
      let (retMdi, s) ← takeFound take ip s (firstHit ip s.minDist (miniSymbols loading mdi))
      pure (retMdi.or ret, s)) := by
  have same : loading = ⟨loading.loadOffset, host.getFuncAddr⟩ := by
    rw [← ready.funcAddr]
  rw [lookupInImage, ready.offset]
  simp only [ok_bind, ← same, ready.mini, lookup_takeCloser ready.formed]
  congr 1
  funext outcome
  obtain ⟨ret, s⟩ := outcome
  cases found : mdi with
  | none => rfl
  | some m =>
      simp only [lookup_takeCloser (ready.miniFormed m found)]
      rfl

theorem firstHit_mem {minDist : Word c.bits} {infos : List (Located c)} {x : Located c}
    (hit : firstHit ip minDist infos = some x) : x ∈ infos :=
  List.mem_of_find?_eq_some hit

theorem firstHit_hits {minDist : Word c.bits} {infos : List (Located c)} {x : Located c}
    (hit : firstHit ip minDist infos = some x) : Hits ip minDist x.2 := by
  have held := List.find?_some hit
  exact of_decide_eq_true held

variable (take) in
theorem lookupInImage_of_none (ready : Searchable host ei segbase loading mdi) (data : α)
    (found : firstFound ip (locatedSymbols loading ei) (miniSymbols loading mdi) = none) :
    lookupInImage host ei (fun ei => takeCloser (take ei) ip) segbase data =
      .ok (none, ⟨BitVec.allOnes c.bits, data⟩) := by
  obtain ⟨mini, main⟩ := Option.or_eq_none_iff.mp found
  rw [main, Option.elim_none] at mini
  rw [lookupInImage_eq ready, main]
  simp only [takeFound, pure_eq_ok, ok_bind, mini]
  rfl

variable (take) in
theorem lookupInImage_of_some (out : Located c → Hit × α)
    (ready : Searchable host ei segbase loading mdi)
    (takes : ∀ x ∈ locatedSymbols loading ei ++ miniSymbols loading mdi, ∀ data,
      take x.1 x.2 data = .ok (out x)) (data : α) {x : Located c}
    (found : firstFound ip (locatedSymbols loading ei) (miniSymbols loading mdi) = some x) :
    lookupInImage host ei (fun ei => takeCloser (take ei) ip) segbase data =
      .ok (some (out x).1, ⟨distance ip x, (out x).2⟩) := by
  rw [lookupInImage_eq ready]
  rw [firstFound] at found
  cases main : firstHit ip (BitVec.allOnes c.bits) (locatedSymbols loading ei) with
  | none =>
      rw [main, Option.elim_none, Option.or_none] at found
      simp only [takeFound, pure_eq_ok, ok_bind, found,
        takes x (List.mem_append_right _ (firstHit_mem found))]
      rfl
  | some y =>
      rw [main, Option.elim_some] at found
      simp only [takeFound, takes y (List.mem_append_left _ (firstHit_mem main)), pure_eq_ok,
        ok_bind]
      cases mini : firstHit ip (distance ip y) (miniSymbols loading mdi) with
      | none =>
          rw [mini, Option.none_or, Option.some.injEq] at found
          subst found
          rfl
      | some z =>
          rw [mini, Option.some_or, Option.some.injEq] at found
          subst found
          simp only [takes z (List.mem_append_right _ (firstHit_mem mini)), ok_bind]
          rfl

variable (take) in
theorem lookupInImage_of_fails (ready : Searchable host ei segbase loading mdi)
    (fails : ∀ x ∈ locatedSymbols loading ei ++ miniSymbols loading mdi, ∀ data,
      take x.1 x.2 data = .error .undefined) (data : α)
    (found : firstFound ip (locatedSymbols loading ei) (miniSymbols loading mdi) ≠ none) :
    lookupInImage host ei (fun ei => takeCloser (take ei) ip) segbase data =
      .error .undefined := by
  rw [lookupInImage_eq ready]
  rw [firstFound] at found
  cases main : firstHit ip (BitVec.allOnes c.bits) (locatedSymbols loading ei) with
  | none =>
      rw [main] at found
      simp only [takeFound, pure_eq_ok, ok_bind]
      cases mini : firstHit ip (BitVec.allOnes c.bits) (miniSymbols loading mdi) with
      | none => simp [mini] at found
      | some y =>
          simp only [fails y (List.mem_append_right _ (firstHit_mem mini))]
          rfl
  | some x =>
      simp only [takeFound, fails x (List.mem_append_left _ (firstHit_mem main))]
      rfl

theorem firstFound_mem {main mini : List (Located c)} {x : Located c}
    (found : firstFound ip main mini = some x) : x ∈ main ++ mini := by
  cases Option.or_eq_some_iff.mp found with
  | inl later => exact List.mem_append_right _ (firstHit_mem later)
  | inr first => exact List.mem_append_left _ (firstHit_mem first.2)

theorem Hits.covers {minDist : Word c.bits} {x : Located c} (hits : Hits ip minDist x.2) :
    Covers ip x := by
  obtain ⟨start, ends, -⟩ := hits
  refine ⟨start, ?_⟩
  have below := BitVec.lt_def.mp ends
  rw [BitVec.toNat_add] at below
  exact below.trans_le (Nat.mod_le _ _)

theorem firstFound_covers {main mini : List (Located c)} {x : Located c}
    (found : firstFound ip main mini = some x) : Covers ip x := by
  cases Option.or_eq_some_iff.mp found with
  | inl later => exact (firstHit_hits later).covers
  | inr first => exact (firstHit_hits first.2).covers

end Lookup

/-! ## The routines -/

section Routines

variable {ip : Word c.bits} {loading : Loading c} {host : Host c} {ei : ElfImage c}
  {segbase : Word c.bits} {mdi : Option (ElfImage c)} {bufLen : Nat} {buf : List Byte}
  {range : Word c.bits × Word c.bits} {x : Located c}

/-- The string that a name leaves in the buffer. -/
def nameOut (bufLen : Nat) (x : Located c) : Hit × List Byte :=
  match symName x.1 x.2 with
  | .ok name => if name.length < bufLen then (.success, name) else (.nomem, name.take (bufLen - 1))
  | .error _ => (.success, [])

theorem nameOut_eq {name : List Byte} (named : symName x.1 x.2 = .ok name) :
    nameOut bufLen x = if name.length < bufLen then (.success, name)
      else (.nomem, name.take (bufLen - 1)) := by
  rw [nameOut, named]

theorem copyName_eq (room : bufLen ≠ 0) {name : List Byte} (named : symName x.1 x.2 = .ok name)
    (buf : List Byte) : copyName x.1 bufLen x.2 buf = .ok (nameOut bufLen x) := by
  rw [copyName, named, ok_bind, nameOut_eq named]
  by_cases fits : name.length < bufLen
  · rw [if_pos fits, if_pos fits]
    rfl
  · rw [if_neg fits, if_neg fits, if_neg room]
    rfl

theorem copyName_zero {name : List Byte} (named : symName x.1 x.2 = .ok name) (buf : List Byte) :
    copyName x.1 0 x.2 buf = .error .undefined := by
  rw [copyName, named, ok_bind, if_neg (Nat.not_lt_zero _), if_pos rfl]

theorem size_le_allOnes (size : Word c.bits) : size ≤ BitVec.allOnes c.bits := by
  rw [BitVec.le_def, BitVec.toNat_allOnes]
  have below := size.isLt
  omega

theorem procName_of_none (ready : Searchable host ei segbase loading mdi)
    (found : firstFound ip (locatedSymbols loading ei) (miniSymbols loading mdi) = none) :
    getProcNameInImage host ei segbase ip buf bufLen = .ok ⟨none, buf, none⟩ := by
  have ran := lookupInImage_of_none (fun ei => copyName ei bufLen) ready buf found
  simp only [getProcNameInImage, lookupSymbolCallback, ran, ok_bind, if_pos (size_le_allOnes _)]
  rfl

theorem procIpRange_of_none (ready : Searchable host ei segbase loading mdi)
    (found : firstFound ip (locatedSymbols loading ei) (miniSymbols loading mdi) = none) :
    getProcIpRangeInImage host ei segbase ip range = .ok (none, range) := by
  have ran := lookupInImage_of_none
    (fun _ info _ => pure (.success, info.startIp, info.startIp + info.sym.size)) ready range found
  simp only [getProcIpRangeInImage, lookupIpRangeCallback, ran, ok_bind,
    if_pos (size_le_allOnes _)]
  rfl

theorem procName_of_some (ready : Searchable host ei segbase loading mdi) (room : bufLen ≠ 0)
    (found : firstFound ip (locatedSymbols loading ei) (miniSymbols loading mdi) = some x) :
    getProcNameInImage host ei segbase ip buf bufLen =
      if ei.size ≤ distance ip x then .ok ⟨none, (nameOut bufLen x).2, none⟩
      else .ok ⟨some (nameOut bufLen x).1, (nameOut bufLen x).2, some (distance ip x)⟩ := by
  have takes : ∀ x ∈ locatedSymbols loading ei ++ miniSymbols loading mdi, ∀ buf,
      copyName x.1 bufLen x.2 buf = .ok (nameOut bufLen x) := by
    intro x mem buf
    obtain ⟨name, named⟩ := ready.names x mem
    exact copyName_eq room named buf
  have ran := lookupInImage_of_some (fun ei => copyName ei bufLen) (nameOut bufLen) ready
    takes buf found
  simp only [getProcNameInImage, lookupSymbolCallback, ran, ok_bind]
  rfl

theorem procName_of_no_room (ready : Searchable host ei segbase loading mdi)
    (found : firstFound ip (locatedSymbols loading ei) (miniSymbols loading mdi) ≠ none) :
    getProcNameInImage host ei segbase ip buf 0 = .error .undefined := by
  have fails : ∀ x ∈ locatedSymbols loading ei ++ miniSymbols loading mdi, ∀ buf,
      copyName x.1 0 x.2 buf = .error .undefined := by
    intro x mem buf
    obtain ⟨name, named⟩ := ready.names x mem
    exact copyName_zero named buf
  have ran := lookupInImage_of_fails (fun ei => copyName ei 0) ready fails buf found
  simp only [getProcNameInImage, lookupSymbolCallback, ran]
  rfl

theorem procIpRange_of_some (ready : Searchable host ei segbase loading mdi)
    (found : firstFound ip (locatedSymbols loading ei) (miniSymbols loading mdi) = some x) :
    getProcIpRangeInImage host ei segbase ip range =
      .ok (if ei.size ≤ distance ip x then none else some .success,
        x.2.startIp, x.2.startIp + x.2.sym.size) := by
  have ran := lookupInImage_of_some
    (fun _ info _ => pure (.success, info.startIp, info.startIp + info.sym.size))
    (fun x => (.success, x.2.startIp, x.2.startIp + x.2.sym.size)) ready (fun _ _ _ => rfl)
    range found
  simp only [getProcIpRangeInImage, lookupIpRangeCallback, ran, ok_bind]
  by_cases far : ei.size ≤ distance ip x
  · simp only [if_pos far]
    rfl
  · simp only [if_neg far]
    rfl

/-- What is closest among the near ones is closest among all. -/
theorem isClosest_of_candidates {size : Word c.bits} {all : List (Located c)} (mem : x ∈ all)
    (candidate : Candidate ip size x)
    (closest : ∀ y ∈ all, Candidate ip size y → distance ip x ≤ distance ip y) :
    IsClosest ip all x := by
  refine ⟨mem, candidate.1, ?_⟩
  intro y present covers
  by_cases near : distance ip y < size
  · exact closest y present ⟨covers, near⟩
  · have beyond := BitVec.le_def.mp (BitVec.not_lt.mp near)
    have within := BitVec.lt_def.mp candidate.2
    exact BitVec.le_def.mpr (within.le.trans beyond)

theorem ClosestFirst.none_near {size : Word c.bits} {main mini : List (Located c)}
    (order : ClosestFirst ip size bufLen main mini)
    (far : ∀ x, firstFound ip main mini = some x → size ≤ distance ip x) :
    ¬∃ x ∈ main ++ mini, Candidate ip size x := by
  intro some
  obtain ⟨x, mem, candidate⟩ := some
  obtain ⟨y, found, closer⟩ := order.first x mem candidate
  have beyond := BitVec.le_def.mp (far y found)
  have within := BitVec.lt_def.mp candidate.2
  have between := BitVec.le_def.mp closer
  omega

theorem ClosestFirst.isClosest {size : Word c.bits} {main mini : List (Located c)}
    (order : ClosestFirst ip size bufLen main mini) (found : firstFound ip main mini = some x)
    (near : ¬size ≤ distance ip x) :
    Candidate ip size x ∧ IsClosest ip (main ++ mini) x := by
  have candidate : Candidate ip size x := ⟨firstFound_covers found, BitVec.not_le.mp near⟩
  refine ⟨candidate, isClosest_of_candidates (firstFound_mem found) candidate ?_⟩
  intro y mem other
  obtain ⟨z, same, closer⟩ := order.first y mem other
  rw [found, Option.some.injEq] at same
  subst same
  exact closer

theorem nameRight_of_order (ready : Searchable host ei segbase loading mdi)
    (order : ClosestFirst ip ei.size bufLen (locatedSymbols loading ei) (miniSymbols loading mdi)) :
    ∃ r, getProcNameInImage host ei segbase ip buf bufLen = .ok r ∧
      NameRight ip ei.size (locatedSymbols loading ei ++ miniSymbols loading mdi) bufLen r := by
  cases found : firstFound ip (locatedSymbols loading ei) (miniSymbols loading mdi) with
  | none =>
      have none := order.none_near (by simp [found])
      exact ⟨_, procName_of_none ready found, ⟨iff_of_true rfl none, fun some => absurd some none⟩⟩
  | some x =>
      have room : bufLen ≠ 0 := order.room.resolve_right (by simp [found])
      refine ⟨_, (procName_of_some ready room found).trans (apply_ite Except.ok _ _ _).symm, ?_⟩
      by_cases far : ei.size ≤ distance ip x
      · have none := order.none_near (by simpa [found] using far)
        rw [if_pos far]
        exact ⟨iff_of_true rfl none, fun some => absurd some none⟩
      · obtain ⟨candidate, closest⟩ := order.isClosest found far
        obtain ⟨name, named⟩ := ready.names x closest.mem
        rw [if_neg far]
        refine ⟨iff_of_false (by simp) (not_not_intro ⟨x, closest.mem, candidate⟩), ?_⟩
        intro _
        refine ⟨x, name, closest, named, rfl, ?_⟩
        rw [nameOut_eq named]
        by_cases fits : name.length < bufLen
        · simp [fits]
        · simp [fits]

theorem rangeRight_of_order (ready : Searchable host ei segbase loading mdi)
    (order : ClosestFirst ip ei.size bufLen (locatedSymbols loading ei) (miniSymbols loading mdi)) :
    ∃ r, getProcIpRangeInImage host ei segbase ip range = .ok r ∧
      RangeRight ip ei.size (locatedSymbols loading ei ++ miniSymbols loading mdi) r := by
  cases found : firstFound ip (locatedSymbols loading ei) (miniSymbols loading mdi) with
  | none =>
      have none := order.none_near (by simp [found])
      exact ⟨_, procIpRange_of_none ready found,
        ⟨iff_of_true rfl none, fun some => absurd some none⟩⟩
  | some x =>
      refine ⟨_, procIpRange_of_some ready found, ?_⟩
      by_cases far : ei.size ≤ distance ip x
      · have none := order.none_near (by simpa [found] using far)
        rw [if_pos far]
        exact ⟨iff_of_true rfl none, fun some => absurd some none⟩
      · obtain ⟨candidate, closest⟩ := order.isClosest found far
        rw [if_neg far]
        exact ⟨iff_of_false (by simp) (not_not_intro ⟨x, closest.mem, candidate⟩),
          fun _ => ⟨x, closest, rfl⟩⟩

theorem room_of_nameRight {r : ProcName c} (ready : Searchable host ei segbase loading mdi)
    (ran : getProcNameInImage host ei segbase ip buf bufLen = .ok r) :
    bufLen ≠ 0 ∨ firstFound ip (locatedSymbols loading ei) (miniSymbols loading mdi) = none := by
  by_cases found : firstFound ip (locatedSymbols loading ei) (miniSymbols loading mdi) = none
  · exact .inr found
  · refine .inl ?_
    intro empty
    subst empty
    rw [procName_of_no_room ready found] at ran
    simp at ran

theorem order_of_nameRight {r : ProcName c} (ready : Searchable host ei segbase loading mdi)
    (ran : getProcNameInImage host ei segbase ip buf bufLen = .ok r)
    (right : NameRight ip ei.size (locatedSymbols loading ei ++ miniSymbols loading mdi) bufLen r) :
    ClosestFirst ip ei.size bufLen (locatedSymbols loading ei) (miniSymbols loading mdi) := by
  have room := room_of_nameRight ready ran
  refine ⟨room, ?_⟩
  intro x mem candidate
  have some : ∃ x ∈ locatedSymbols loading ei ++ miniSymbols loading mdi,
      Candidate ip ei.size x := ⟨x, mem, candidate⟩
  obtain ⟨y, name, closest, named, offset, -⟩ := right.closest some
  cases found : firstFound ip (locatedSymbols loading ei) (miniSymbols loading mdi) with
  | none =>
      rw [procName_of_none ready found, Except.ok.injEq] at ran
      subst ran
      simp at offset
  | some z =>
      rw [procName_of_some ready (room.resolve_right (by simp [found])) found] at ran
      refine ⟨z, rfl, ?_⟩
      by_cases far : ei.size ≤ distance ip z
      · rw [if_pos far, Except.ok.injEq] at ran
        subst ran
        simp at offset
      · rw [if_neg far, Except.ok.injEq] at ran
        subst ran
        rw [Option.some.injEq] at offset
        rw [offset]
        exact closest.closest x mem candidate.1

end Routines

/-! ## A closer symbol behind another one -/

namespace Overlap

/-- The bytes of the image that are not zero. -/
def bytes : List (Nat × Byte) :=
  [(0, 0x7f), (1, 0x45), (2, 0x4c), (3, 0x46), (4, 1), (6, 1), (32, 52), (46, 40), (48, 2), (50, 1),
    (56, 2), (68, 132), (72, 32), (76, 1), (88, 16), (96, 3), (108, 164), (112, 5),
    (132, 1), (137, 1), (140, 0x20), (144, 2), (146, 1),
    (148, 3), (152, 4), (153, 1), (156, 4), (160, 2), (162, 1), (165, 0x61), (167, 0x62)]

def image : ElfImage .elf32 where
  size := 169
  byte off := (bytes.lookup off).getD 0
  bigEndian := false

def host : Host .elf32 where
  pageBits := 12
  getFuncAddr := some
  decompress _ := none

def loading : Loading .elf32 := ⟨0, some⟩

def outer : SymbolInfo .elf32 := ⟨164, ⟨1, 2, 1, 0x100, 0x20⟩, 0x100⟩

def inner : SymbolInfo .elf32 := ⟨164, ⟨3, 2, 1, 0x104, 4⟩, 0x104⟩

theorem image_symbols : image.symbols loading = [outer, inner] := by decide

theorem symtab_formed : image.SectionFormed 52 where
  shType := by decide
  header _ := by decide
  strings _ := ⟨some 164, by decide⟩
  entsize _ := by decide
  symbols _ := by
    unfold ElfImage.TableFormed
    decide

theorem strtab_formed : image.SectionFormed 92 := by
  have other : ¬image.IsSymtab 92 := by decide
  exact ⟨by decide, fun h => absurd h other, fun h => absurd h other, fun h => absurd h other,
    fun h => absurd h other⟩

theorem formed : image.WellFormed where
  valid := by decide
  ehdr := by decide
  table := by decide
  sections := by
    intro i below
    have count : (image.field 2 ElfClass.elf32.eShnum).toNat = 2 := by decide
    have first : image.headerAt 0 = 52 := by decide
    have second : image.headerAt 1 = 92 := by decide
    obtain rfl | rfl : i = 0 ∨ i = 1 := by omega
    · rw [first]
      exact symtab_formed
    · rw [second]
      exact strtab_formed
  dynamic := ⟨none, by decide, by simp⟩

theorem searchable : Searchable host image 0 loading none where
  offset := by decide
  funcAddr := rfl
  formed := formed
  mini := by rfl
  miniFormed := by simp
  names := by
    intro x mem
    rw [locatedSymbols, image_symbols] at mem
    obtain rfl | rfl : x = (image, outer) ∨ x = (image, inner) := by simpa [miniSymbols] using mem
    · exact ⟨[0x61], by decide⟩
    · exact ⟨[0x62], by decide⟩

theorem inner_mem : (image, inner) ∈ locatedSymbols loading image ++ miniSymbols loading none := by
  rw [locatedSymbols, image_symbols]
  simp [miniSymbols]

theorem inner_candidate : Candidate 0x105 image.size (image, inner) := by
  unfold Candidate Covers
  decide

end Overlap
end Libunwind.Elf
