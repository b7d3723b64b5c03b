import Libunwind.Elf.BuildIdPath

/-! # Debug files

`load_debuginfo` looks for the debug file of an image by its build-id and by its debug link. What
`elf_map_image` leaves behind where it fails is what the next attempt begins with.
-/

namespace Libunwind.Elf

variable {c : ElfClass}

/-- What comes of opening a file and mapping it: `open` or `fstat` fails, `mmap` does, as for an
    empty file, or the file is mapped. -/
inductive DebugFile (c : ElfClass) where
  | absent
  | unreadable
  | unmappable (size : Word c.bits)
  | contents (elf : ElfImage c)

/-- `ei->image`: no image, `MAP_FAILED`, or a region with bytes. -/
inductive ImagePtr where
  | null
  | mapFailed
  | region (id : Nat) (byte : Nat → Byte) (bigEndian : Bool)

/-- `*ei`, and the regions that are mapped. -/
structure ImageState (c : ElfClass) where
  image : ImagePtr
  size : Word c.bits
  regions : List Nat

/-- What a routine returns, and what it leaves. -/
structure LoadResult (c : ElfClass) where
  ret : Int
  state : ImageState c

/-- A region that is not mapped yet. -/
def freshRegion : List Nat → Nat
  | [] => 0
  | id :: regions => max (id + 1) (freshRegion regions)

/-- `mi_munmap` -/
def munmap (image : ImagePtr) (s : ImageState c) : ImageState c :=
  match image with
  | .region id _ _ => { s with regions := s.regions.erase id }
  | _ => s

/-- The file is mapped to a new region. -/
def ImageState.withImage (s : ImageState c) (elf : ElfImage c) : ImageState c where
  image := .region (freshRegion s.regions) elf.byte elf.bigEndian
  size := elf.size
  regions := freshRegion s.regions :: s.regions

/-- `elf_map_image` -/
def elfMapImage (file : DebugFile c) (s : ImageState c) : LoadResult c :=
  match file with
  | .absent => ⟨-1, s⟩
  | .unreadable => ⟨-1, s⟩
  | .unmappable size => ⟨-1, { s with image := .mapFailed, size }⟩
  | .contents elf =>
      let mapped := s.withImage elf
      if elf.validObject then ⟨0, mapped⟩
      else ⟨-1, { munmap mapped.image mapped with image := .null }⟩

/-- `load_debuginfo` with an `is_local` of -1. -/
def loadFile (fs : List Byte → DebugFile c) (path : List Byte) (s : ImageState c) : LoadResult c :=
  match s.image with
  | .null => elfMapImage (fs path) s
  | _ => ⟨0, s⟩

/-- `PATH_MAX` -/
def pathMax : BitVec 32 := 4096

/-- The string at the beginning of a buffer. -/
def pathText (path : Nat → Byte) : List Byte :=
  ((List.range pathMax.toNat).map path).takeWhile (· ≠ 0)

/-- `.gnu_debuglink` -/
def gnuDebuglink : List Byte :=
  ascii ['.', 'g', 'n', 'u', '_', 'd', 'e', 'b', 'u', 'g', 'l', 'i', 'n', 'k']

/-- `debugdir` -/
def debugdir : List Byte :=
  ascii ['/', 'u', 's', 'r', '/', 'l', 'i', 'b', '/', 'd', 'e', 'b', 'u', 'g']

def dotDebug : List Byte := ascii ['/', '.', 'd', 'e', 'b', 'u', 'g', '/']

/-- `basedir`: what comes before the last slash, if there is one. -/
def basedir (file : List Byte) : List Byte :=
  (file.reverse.dropWhile (· ≠ slash)).tail.reverse

/-- The name in the debug link section, if it is a string. -/
def ElfImage.debuglink (elf : ElfImage c) : Result (Option (List Byte)) := do
  match ← elf.findSection gnuDebuglink with
  | none => pure none
  | some shdr => do
      let shSize ← elf.load c.bytes (shdr + c.shSize)
      let shOffset ← elf.load c.bytes (shdr + c.shOffset)
      if pathMax.toNat ≤ shSize.toNat ∨ elf.size < shOffset + shSize then pure none
      else if elf.Inside shSize.toNat shOffset.toNat then
        let linkbuf := elf.bytesAt shSize.toNat shOffset.toNat
        if linkbuf.contains 0 then pure (some (linkbuf.takeWhile (· ≠ 0))) else pure none
      else .error .undefined

/-! The three files that a debug link may mean -/

def besideFile (file linkbuf : List Byte) : List Byte := basedir file ++ [slash] ++ linkbuf

def inDotDebug (file linkbuf : List Byte) : List Byte := basedir file ++ dotDebug ++ linkbuf

def inDebugdir (file linkbuf : List Byte) : List Byte :=
  debugdir ++ basedir file ++ [slash] ++ linkbuf

section Code

variable (fs : List Byte → DebugFile c) (file : List Byte) (isLocal : Int)

/-- The files are tried in turn, each with what the one before has left. -/
def followDebuglink (linkbuf : List Byte) (s : ImageState c) : LoadResult c :=
  let first := loadFile fs (besideFile file linkbuf) { s with image := .null }
  let second :=
    if first.ret = -1 then loadFile fs (inDotDebug file linkbuf) first.state else first
  let third :=
    if second.ret = -1 ∧ isLocal = 1 then loadFile fs (inDebugdir file linkbuf) second.state
    else second
  if third.ret = -1 then ⟨0, { third.state with image := s.image, size := s.size }⟩
  else ⟨third.ret, munmap s.image third.state⟩

def followLink (s : ImageState c) : Option (List Byte) → LoadResult c
  | none => ⟨0, s⟩
  | some linkbuf => followDebuglink fs file isLocal linkbuf s

/-- What is done once the image itself is there. The buffer for the path holds anything before. -/
def followImage (h : DataModel) (before : Nat → Byte) (elf : ElfImage c) (s : ImageState c) :
    Result (LoadResult c) := do
  let (found, path) ← elf.findBuildIdPath h (fun _ => elf.size.toNat) pathMax before
  let byId := if found then loadFile fs (pathText path) { s with image := .null } else ⟨-1, s⟩
  if byId.ret = 0 then pure ⟨0, munmap s.image byId.state⟩
  else do
    let link ← elf.debuglink
    pure (followLink fs file isLocal { byId.state with image := s.image, size := s.size } link)

/-- `load_debuginfo` -/
def loadDebuginfo (h : DataModel) (before : Nat → Byte) (s : ImageState c) :
    Result (LoadResult c) :=
  let mapped := loadFile fs file s
  if mapped.ret ≠ 0 then pure mapped
  else if isLocal = -1 then pure mapped
  else
    match mapped.state.image with
    | .region _ byte bigEndian =>
        followImage fs file isLocal h before ⟨mapped.state.size, byte, bigEndian⟩ mapped.state
    -- `valid_object` looks at the size before it reads anything.
    | _ => if mapped.state.size.toNat ≤ 6 then pure mapped else .error .undefined

end Code

/-! ## What it is to leave -/

/-- The image that `*ei` describes, if it is mapped. -/
def ImageState.elf (s : ImageState c) : Option (ElfImage c) :=
  match s.image with
  | .region _ byte bigEndian => some ⟨s.size, byte, bigEndian⟩
  | _ => none

/-- The regions but for that of the image. -/
def ImageState.others (s : ImageState c) : List Nat :=
  match s.image with
  | .region id _ _ => s.regions.erase id
  | _ => s.regions

/-- A valid image is there: the original as it was, or a file in a region of its own in place of the
    original. -/
def Usable (fs : List Byte → DebugFile c) (start after : ImageState c) : Prop :=
  ∃ elf, after.elf = some elf ∧ elf.validObject = true ∧
    (after = start ∨ ∃ path id, fs path = .contents elf ∧ id ∉ start.regions ∧
      after.image = .region id elf.byte elf.bigEndian ∧ after.regions = id :: start.others)

/-- The image is the original, and nothing else is mapped than before. -/
structure Kept (start after : ImageState c) : Prop where
  image : after.image = start.image
  size : start.image ≠ .null → after.size = start.size
  regions : after.regions = start.regions

/-- What is promised of `load_debuginfo`. -/
structure LoadRight (fs : List Byte → DebugFile c) (start : ImageState c) (r : LoadResult c) :
    Prop where
  success : r.ret = 0 → Usable fs start r.state
  failure : r.ret ≠ 0 → Kept start r.state

/-- An image that is given is mapped once. -/
structure ImageState.Formed (s : ImageState c) : Prop where
  image : s.image ≠ .mapFailed
  region : ∀ id byte bigEndian, s.image = .region id byte bigEndian → id ∈ s.regions
  once : s.regions.Nodup

/-! ## What the files must be -/

/-- The object in a file, if it can be used. -/
def DebugFile.object : DebugFile c → Option (ElfImage c)
  | .contents elf => if elf.validObject then some elf else none
  | _ => none

/-- `mmap` does not fail on the file, as it does on an empty one. -/
def DebugFile.Mappable : DebugFile c → Prop
  | .unmappable _ => False
  | _ => True

section Conditions

variable (fs : List Byte → DebugFile c) (file : List Byte) (isLocal : Int) (h : DataModel)
  (before : Nat → Byte)

/-- The build-id of an image leads to its debug file. -/
def HasIdFile (elf : ElfImage c) : Prop :=
  ∃ path debug, elf.findBuildIdPath h (fun _ => elf.size.toNat) pathMax before = .ok (true, path) ∧
    (fs (pathText path)).object = some debug

/-- No file on which `mmap` fails is tried before another one. -/
structure LinkSound (linkbuf : List Byte) : Prop where
  first : (fs (besideFile file linkbuf)).Mappable
  second : (fs (besideFile file linkbuf)).object = none → isLocal = 1 →
    (fs (inDotDebug file linkbuf)).Mappable

/-- The build-id and the debug link of an image are read inside of it, and the link, where it is
    followed, leads to files that can be mapped. -/
structure LinksSound (elf : ElfImage c) : Prop where
  path : ∃ r, elf.findBuildIdPath h (fun _ => elf.size.toNat) pathMax before = .ok r
  link : ¬HasIdFile fs h before elf → ∃ link, elf.debuglink = .ok link ∧
    ∀ linkbuf, link = some linkbuf → LinkSound fs file isLocal linkbuf

/-- The image whose links are followed. -/
def opened (start : ImageState c) : Option (ElfImage c) :=
  match start.image with
  | .null => (fs file).object
  | _ => start.elf

/-- The condition. -/
structure FilesSound (start : ImageState c) : Prop where
  mapped : start.image = .null → (fs file).Mappable
  original : ∀ elf, start.elf = some elf → elf.validObject = true
  links : isLocal ≠ -1 → ∀ elf, opened fs file start = some elf →
    LinksSound fs file isLocal h before elf

end Conditions

/-! ## One file -/

variable {fs : List Byte → DebugFile c} {file path linkbuf : List Byte} {isLocal : Int}
  {h : DataModel} {before : Nat → Byte} {s start : ImageState c} {elf debug : ElfImage c}

theorem lt_freshRegion {regions : List Nat} {id : Nat} (mapped : id ∈ regions) :
    id < freshRegion regions := by
  induction regions with
  | nil => cases mapped
  | cons first regions ih =>
      rw [freshRegion]
      cases mapped with
      | head => omega
      | tail _ later =>
          have below := ih later
          omega

theorem freshRegion_notMem (regions : List Nat) : freshRegion regions ∉ regions :=
  fun mapped => Nat.lt_irrefl _ (lt_freshRegion mapped)

theorem object_eq_some {f : DebugFile c} :
    f.object = some elf ↔ f = .contents elf ∧ elf.validObject = true := by
  cases f with
  | contents elf' =>
      rw [DebugFile.object]
      grind
  | _ => simp [DebugFile.object]

theorem Mappable.of_object {f : DebugFile c} (usable : f.object = some elf) : f.Mappable := by
  obtain ⟨rfl, valid⟩ := object_eq_some.mp usable
  trivial

theorem loadFile_given (given : s.image ≠ .null) : loadFile fs path s = ⟨0, s⟩ := by
  rw [loadFile]
  split
  next null => exact absurd null given
  · rfl

theorem loadFile_object (null : s.image = .null) (usable : (fs path).object = some elf) :
    loadFile fs path s = ⟨0, s.withImage elf⟩ := by
  obtain ⟨contents, valid⟩ := object_eq_some.mp usable
  rw [loadFile, null]
  simp only [contents, elfMapImage, if_pos valid]

/-- Nothing stays mapped of a file that cannot be used, but the image is null only where `mmap` did
    not fail. -/
theorem loadFile_none (null : s.image = .null) (unusable : (fs path).object = none) :
    ∃ image size, loadFile fs path s = ⟨-1, { s with image, size }⟩ ∧
      (image = .null ∧ (fs path).Mappable ∨ image = .mapFailed ∧ ¬(fs path).Mappable) := by
  rw [loadFile, null]
  cases found : fs path with
  | absent => exact ⟨.null, s.size, by simp [elfMapImage, ← null], .inl ⟨rfl, trivial⟩⟩
  | unreadable => exact ⟨.null, s.size, by simp [elfMapImage, ← null], .inl ⟨rfl, trivial⟩⟩
  | unmappable size => exact ⟨.mapFailed, size, rfl, .inr ⟨rfl, id⟩⟩
  | contents elf =>
      have invalid : ¬elf.validObject = true := by
        simpa [found, DebugFile.object] using unusable
      refine ⟨.null, elf.size, ?_, .inl ⟨rfl, trivial⟩⟩
      simp [elfMapImage, if_neg invalid, ImageState.withImage, munmap]

/-! ## The links of an image -/

/-- A debug file in place of the image. -/
def ImageState.replaced (s : ImageState c) (debug : ElfImage c) : ImageState c :=
  munmap s.image (s.withImage debug)

/-- The image is kept, or a debug file is in its place. -/
def Followed (fs : List Byte → DebugFile c) (s : ImageState c) (r : LoadResult c) : Prop :=
  r.ret = 0 ∧ (r.state = s ∨
    ∃ path debug, (fs path).object = some debug ∧ r.state = s.replaced debug)

/-- What is returned as a success is no image. -/
def Lost (r : LoadResult c) : Prop := r.ret = 0 ∧ r.state.image = .mapFailed

theorem munmap_image (image : ImagePtr) (s : ImageState c) : (munmap image s).image = s.image := by
  cases image with
  | region id byte bigEndian => rfl
  | _ => rfl

/-- The third file is tried only after two that cannot be used, and what it leaves is put right. -/
theorem followDebuglink_sound (sound : LinkSound fs file isLocal linkbuf) :
    Followed fs s (followDebuglink fs file isLocal linkbuf s) := by
  rw [followDebuglink]
  cases first : (fs (besideFile file linkbuf)).object with
  | some debug =>
      rw [loadFile_object rfl first]
      exact ⟨rfl, .inr ⟨_, debug, first, rfl⟩⟩
  | none =>
      obtain ⟨image, size, loaded, ⟨rfl, -⟩ | ⟨-, failed⟩⟩ :=
        loadFile_none (s := { s with image := .null }) rfl first
      · rw [loaded, if_pos rfl]
        cases second : (fs (inDotDebug file linkbuf)).object with
        | some debug =>
            rw [loadFile_object rfl second]
            exact ⟨rfl, .inr ⟨_, debug, second, rfl⟩⟩
        | none =>
            obtain ⟨image, size, loaded, mapped⟩ :=
              loadFile_none (s := { s with image := .null, size }) rfl second
            rw [loaded]
            by_cases systemWide : isLocal = 1
            · have tried : (-1 : Int) = -1 ∧ isLocal = 1 := ⟨rfl, systemWide⟩
              obtain ⟨rfl, -⟩ | ⟨-, failed⟩ := mapped
              · cases third : (fs (inDebugdir file linkbuf)).object with
                | some debug =>
                    rw [if_pos tried, loadFile_object rfl third]
                    exact ⟨rfl, .inr ⟨_, debug, third, rfl⟩⟩
                | none =>
                    obtain ⟨image, size, loaded, -⟩ :=
                      loadFile_none (s := { s with image := .null, size }) rfl third
                    rw [if_pos tried, loaded]
                    exact ⟨rfl, .inl rfl⟩
              · exact absurd (sound.second first systemWide) failed
            · have notTried : ¬((-1 : Int) = -1 ∧ isLocal = 1) := fun both => systemWide both.2
              rw [if_neg notTried]
              exact ⟨rfl, .inl rfl⟩
      · exact absurd sound.first failed

/-- A file on which `mmap` fails makes the next one seem to be mapped. -/
theorem followDebuglink_lost (unsound : ¬LinkSound fs file isLocal linkbuf) :
    Lost (followDebuglink fs file isLocal linkbuf s) := by
  rw [followDebuglink]
  cases first : (fs (besideFile file linkbuf)).object with
  | some debug =>
      have firstMapped := Mappable.of_object first
      exact absurd ⟨firstMapped, fun none => by simp [first] at none⟩ unsound
  | none =>
      obtain ⟨image, size, loaded, ⟨rfl, firstMapped⟩ | ⟨rfl, -⟩⟩ :=
        loadFile_none (s := { s with image := .null }) rfl first
      · have secondFails : isLocal = 1 ∧ ¬(fs (inDotDebug file linkbuf)).Mappable := by
          by_contra holds
          exact unsound ⟨firstMapped, fun _ systemWide =>
            Classical.not_not.mp fun fails => holds ⟨systemWide, fails⟩⟩
        obtain ⟨systemWide, fails⟩ := secondFails
        cases second : (fs (inDotDebug file linkbuf)).object with
        | some debug => exact absurd (Mappable.of_object second) fails
        | none =>
            obtain ⟨image, size', loaded', ⟨-, mapped⟩ | ⟨rfl, -⟩⟩ :=
              loadFile_none (s := { s with image := .null, size }) rfl second
            · exact absurd mapped fails
            · have tried : (-1 : Int) = -1 ∧ isLocal = 1 := ⟨rfl, systemWide⟩
              rw [loaded, if_pos rfl, loaded', if_pos tried, loadFile_given (by simp)]
              exact ⟨rfl, munmap_image s.image _⟩
      · rw [loaded, if_pos rfl, loadFile_given (by simp)]
        exact ⟨rfl, munmap_image s.image _⟩

/-- The link is followed where the build-id leads to no file, and what that leaves is put right. -/
theorem followImage_eq {r : Bool × (Nat → Byte)}
    (found : elf.findBuildIdPath h (fun _ => elf.size.toNat) pathMax before = .ok r)
    (noFile : ¬HasIdFile fs h before elf) :
    followImage fs file isLocal h before elf s =
      elf.debuglink.map (followLink fs file isLocal s) := by
  have restored (byId : LoadResult c) (image : ImagePtr) (size : Word c.bits)
      (fails : byId = ⟨-1, { s with image, size }⟩) :
      (if byId.ret = 0 then pure ⟨0, munmap s.image byId.state⟩
        else do
          let link ← elf.debuglink
          let kept := { byId.state with image := s.image, size := s.size }
          pure (followLink fs file isLocal kept link) :
        Result (LoadResult c)) = elf.debuglink.map (followLink fs file isLocal s) := by
    rw [fails, if_neg (by simp)]
    cases elf.debuglink with
    | error e => rfl
    | ok link => rfl
  obtain ⟨found', path⟩ := r
  rw [followImage, found]
  simp only [ok_bind]
  cases found' with
  | false => exact restored _ s.image s.size rfl
  | true =>
      cases usable : (fs (pathText path)).object with
      | some debug => exact absurd ⟨path, debug, found, usable⟩ noFile
      | none =>
          obtain ⟨image, size, loaded, -⟩ :=
            loadFile_none (s := { s with image := .null }) rfl usable
          exact restored _ image size loaded

theorem followImage_file (file : List Byte) (isLocal : Int) (s : ImageState c)
    (idFile : HasIdFile fs h before elf) :
    ∃ r, followImage fs file isLocal h before elf s = .ok r ∧ Followed fs s r := by
  obtain ⟨path, debug, found, usable⟩ := idFile
  refine ⟨⟨0, s.replaced debug⟩, ?_, rfl, .inr ⟨pathText path, debug, usable, rfl⟩⟩
  rw [followImage, found]
  simp only [ok_bind, if_true, loadFile_object (s := { s with image := .null }) rfl usable]
  rfl

theorem followImage_sound (sound : LinksSound fs file isLocal h before elf) (s : ImageState c) :
    ∃ r, followImage fs file isLocal h before elf s = .ok r ∧ Followed fs s r := by
  by_cases idFile : HasIdFile fs h before elf
  · exact followImage_file file isLocal s idFile
  · obtain ⟨r, found⟩ := sound.path
    obtain ⟨link, read, followed⟩ := sound.link idFile
    refine ⟨followLink fs file isLocal s link, ?_, ?_⟩
    · rw [followImage_eq found idFile, read]
      rfl
    · cases link with
      | none => exact ⟨rfl, .inl rfl⟩
      | some linkbuf => exact followDebuglink_sound (followed linkbuf rfl)

theorem followImage_lost (unsound : ¬LinksSound fs file isLocal h before elf) {r : LoadResult c}
    (returned : followImage fs file isLocal h before elf s = .ok r) : Lost r := by
  cases found : elf.findBuildIdPath h (fun _ => elf.size.toNat) pathMax before with
  | error e =>
      rw [followImage, found] at returned
      cases returned
  | ok found' =>
      have noFile : ¬HasIdFile fs h before elf :=
        fun idFile => unsound ⟨⟨found', found⟩, fun noFile => absurd idFile noFile⟩
      rw [followImage_eq found noFile] at returned
      cases read : elf.debuglink with
      | error e =>
          rw [read] at returned
          cases returned
      | ok link =>
          rw [read] at returned
          cases returned
          cases link with
          | none =>
              exact absurd ⟨⟨found', found⟩, fun _ => ⟨none, read, by simp⟩⟩ unsound
          | some linkbuf =>
              apply followDebuglink_lost
              intro sound
              apply unsound
              exact ⟨⟨found', found⟩, fun _ => ⟨some linkbuf, read, by simpa using sound⟩⟩

/-! ## The original image -/

theorem elf_eq_some : s.elf = some elf ↔
    ∃ id, s.image = .region id elf.byte elf.bigEndian ∧ s.size = elf.size := by
  rw [ImageState.elf]
  cases s.image with
  | region id byte bigEndian =>
      constructor
      · rintro ⟨rfl⟩
        exact ⟨id, rfl, rfl⟩
      · rintro ⟨id', ⟨rfl⟩, size⟩
        rw [size]
  | _ => simp

theorem replaced_eq (formed : s.Formed) {id : Nat} {byte : Nat → Byte} {bigEndian : Bool}
    (image : s.image = .region id byte bigEndian) (debug : ElfImage c) :
    s.replaced debug = ⟨.region (freshRegion s.regions) debug.byte debug.bigEndian, debug.size,
      freshRegion s.regions :: s.others⟩ := by
  have mapped := formed.region id byte bigEndian image
  have other : freshRegion s.regions ≠ id :=
    fun same => freshRegion_notMem s.regions (same ▸ mapped)
  rw [ImageState.replaced, ImageState.others, image]
  simp [munmap, ImageState.withImage, other]

theorem withImage_formed (formed : start.Formed) (elf : ElfImage c) :
    (start.withImage elf).Formed where
  image := by simp [ImageState.withImage]
  region := by
    rintro id byte bigEndian ⟨rfl⟩
    exact List.mem_cons_self
  once := List.nodup_cons.mpr ⟨freshRegion_notMem start.regions, formed.once⟩

/-- The image that was given is kept or replaced. -/
theorem Followed.usable_given {r : LoadResult c} (followed : Followed fs start r)
    (formed : start.Formed) (original : start.elf = some elf) (valid : elf.validObject = true) :
    Usable fs start r.state := by
  obtain ⟨-, kept | ⟨path, debug, usable, replaced⟩⟩ := followed
  · rw [kept]
    exact ⟨elf, original, valid, .inl rfl⟩
  · obtain ⟨id, image, -⟩ := elf_eq_some.mp original
    obtain ⟨contents, valid⟩ := object_eq_some.mp usable
    rw [replaced, replaced_eq formed image]
    exact ⟨debug, rfl, valid, .inr ⟨path, freshRegion start.regions, contents,
      freshRegion_notMem start.regions, rfl, rfl⟩⟩

/-- The image of the file itself is kept or replaced. -/
theorem Followed.usable_mapped {r : LoadResult c} (followed : Followed fs (start.withImage elf) r)
    (formed : start.Formed) (null : start.image = .null)
    (mapped : (fs file).object = some elf) : Usable fs start r.state := by
  have unmapped : start.others = start.regions := by
    rw [ImageState.others, null]
  obtain ⟨-, kept | ⟨path, debug, usable, replaced⟩⟩ := followed
  · obtain ⟨contents, valid⟩ := object_eq_some.mp mapped
    rw [kept]
    refine ⟨elf, rfl, valid, .inr ⟨file, freshRegion start.regions, contents,
      freshRegion_notMem start.regions, rfl, ?_⟩⟩
    rw [unmapped]
    rfl
  · obtain ⟨contents, valid⟩ := object_eq_some.mp usable
    have left : (start.withImage elf).others = start.regions := by
      simp [ImageState.others, ImageState.withImage]
    have fresh : freshRegion (start.withImage elf).regions ∉ start.regions := fun among =>
      freshRegion_notMem _ (List.mem_cons_of_mem _ among)
    rw [replaced, replaced_eq (withImage_formed formed elf) rfl, left]
    refine ⟨debug, rfl, valid, .inr ⟨path, _, contents, fresh, rfl, ?_⟩⟩
    rw [unmapped]

theorem Lost.not_usable {r : LoadResult c} (lost : Lost r) : ¬Usable fs start r.state := by
  rintro ⟨elf, image, -⟩
  obtain ⟨id, region, -⟩ := elf_eq_some.mp image
  rw [lost.2] at region
  cases region

/-! ## The routine -/

/-- After the image itself, the links are followed unless they are not to be. -/
theorem loadDebuginfo_mapped (mapped : loadFile fs file start = ⟨0, s⟩) (image : s.elf = some elf) :
    loadDebuginfo fs file isLocal h before start =
      if isLocal = -1 then .ok ⟨0, s⟩ else followImage fs file isLocal h before elf s := by
  obtain ⟨id, region, size⟩ := elf_eq_some.mp image
  rw [loadDebuginfo, mapped]
  simp only [ne_eq, not_true_eq_false, if_false, region, size]
  rfl

/-- What has no valid header has no links. -/
theorem followImage_invalid (invalid : ¬elf.validObject = true) :
    followImage fs file isLocal h before elf s = .ok ⟨0, s⟩ := by
  rw [followImage, ElfImage.findBuildIdPath, ElfImage.findBuildId, ElfImage.debuglink,
    ElfImage.findSection, if_neg invalid, if_neg invalid]
  rfl

/-- Opening the file, or taking the image that is given. -/
theorem loadFile_opened (formed : start.Formed) (image : opened fs file start = some elf) :
    ∃ s, loadFile fs file start = ⟨0, s⟩ ∧ s.elf = some elf ∧
      ∀ r, Followed fs s r → elf.validObject = true → Usable fs start r.state := by
  rw [opened] at image
  split at image
  next null =>
    exact ⟨start.withImage elf, loadFile_object null image, rfl,
      fun _ followed _ => followed.usable_mapped formed null image⟩
  next given =>
    exact ⟨start, loadFile_given given, image,
      fun _ followed valid => followed.usable_given formed image valid⟩

theorem filesSound_opened (image : opened fs file start = some elf) :
    FilesSound fs file isLocal h before start ↔
      elf.validObject = true ∧ (isLocal ≠ -1 → LinksSound fs file isLocal h before elf) := by
  have links : (∀ elf', opened fs file start = some elf' →
      LinksSound fs file isLocal h before elf') ↔ LinksSound fs file isLocal h before elf := by
    simp [image]
  rw [opened] at image
  split at image
  next null =>
    obtain ⟨-, valid⟩ := object_eq_some.mp image
    constructor
    · exact fun sound => ⟨valid, fun followed => links.mp (sound.links followed)⟩
    · rintro ⟨-, sound⟩
      exact ⟨fun _ => Mappable.of_object image, by simp [ImageState.elf, null],
        fun followed => links.mpr (sound followed)⟩
  next given =>
    constructor
    · exact fun sound =>
        ⟨sound.original elf image, fun followed => links.mp (sound.links followed)⟩
    · rintro ⟨valid, sound⟩
      exact ⟨fun null => absurd null given, by simp [image, valid],
        fun followed => links.mpr (sound followed)⟩

theorem filesSound_none (null : start.image = .null)
    (unusable : (fs file).object = none) :
    FilesSound fs file isLocal h before start ↔ (fs file).Mappable := by
  constructor
  · exact fun sound => sound.mapped null
  · exact fun mappable => ⟨fun _ => mappable, by simp [ImageState.elf, null],
      by simp [opened, null, unusable]⟩

/-- An image that is given is a region. -/
theorem opened_none (formed : start.Formed) (none : opened fs file start = none) :
    start.image = .null ∧ (fs file).object = .none := by
  rw [opened, ImageState.elf] at none
  cases image : start.image with
  | null => exact ⟨rfl, by simpa [image] using none⟩
  | mapFailed => exact absurd image formed.image
  | region id byte bigEndian => simp [image] at none

/-- A success leaves a valid image that is mapped, and every other outcome leaves the original,
    exactly where no file on which `mmap` fails is taken for one that is mapped. -/
theorem loadDebuginfo_right_iff (formed : start.Formed) :
    (∃ r, loadDebuginfo fs file isLocal h before start = .ok r ∧ LoadRight fs start r) ↔
      FilesSound fs file isLocal h before start := by
  cases image : opened fs file start with
  | none =>
      obtain ⟨null, unusable⟩ := opened_none formed image
      obtain ⟨left, size, loaded, mapped⟩ := loadFile_none null unusable
      have returned : loadDebuginfo fs file isLocal h before start =
          .ok ⟨-1, { start with image := left, size }⟩ := by
        rw [loadDebuginfo, loaded]
        rfl
      rw [filesSound_none null unusable, returned]
      constructor
      · rintro ⟨r, ⟨rfl⟩, right⟩
        have kept := (right.failure (by simp)).image
        obtain ⟨-, mappable⟩ | ⟨rfl, -⟩ := mapped
        · exact mappable
        · simp [null] at kept
      · intro mappable
        obtain ⟨rfl, -⟩ | ⟨-, fails⟩ := mapped
        · exact ⟨_, rfl, fun success => by simp at success,
            fun _ => ⟨null.symm, fun given => absurd null given, rfl⟩⟩
        · exact absurd mappable fails
  | some elf =>
      obtain ⟨s, loaded, mapped, usable⟩ := loadFile_opened formed image
      have right {r : LoadResult c} (followed : Followed fs s r) (valid : elf.validObject = true) :
          LoadRight fs start r :=
        ⟨fun _ => usable r followed valid, fun fails => absurd followed.1 fails⟩
      have unchanged : LoadRight fs start ⟨0, s⟩ ↔ elf.validObject = true := by
        constructor
        · intro right
          obtain ⟨elf', image', valid, -⟩ := right.success rfl
          rw [mapped] at image'
          cases image'
          exact valid
        · exact right ⟨rfl, .inl rfl⟩
      rw [filesSound_opened image, loadDebuginfo_mapped loaded mapped]
      by_cases alone : isLocal = -1
      · simp [alone, unchanged]
      · rw [if_neg alone]
        by_cases valid : elf.validObject = true
        · constructor
          · rintro ⟨r, returned, right⟩
            refine ⟨valid, fun _ => ?_⟩
            by_contra unsound
            have lost := followImage_lost unsound returned
            exact lost.not_usable (right.success lost.1)
          · rintro ⟨-, sound⟩
            obtain ⟨r, returned, followed⟩ := followImage_sound (sound alone) s
            exact ⟨r, returned, right followed valid⟩
        · simp [followImage_invalid valid, unchanged, valid]

/-! ## An image with a debug link -/

def linkedFile : List Byte := ascii ['a']

/-- The only section holds its own name, which is the link, too. -/
def linkedImage : ElfImage .elf64 where
  size := 143
  byte off :=
    if off = 0 then 0x7f else if off = 1 then 0x45 else if off = 2 then 0x4c
    else if off = 3 then 0x46 else if off = 4 then 2 else if off = 6 then 1
    else if off = 40 then 64 else if off = 58 then 64 else if off = 60 then 1
    else if off = 88 then 128 else if off = 96 then 15
    else if 128 ≤ off then gnuDebuglink.getD (off - 128) 0 else 0
  bigEndian := false

/-- The image is in one file, and the other files are all the same. -/
def linkedFiles (other : DebugFile .elf64) (path : List Byte) : DebugFile .elf64 :=
  if path = linkedFile then .contents linkedImage else other

/-- Nothing is mapped. -/
def noImage : ImageState .elf64 := ⟨.null, 0, []⟩

theorem noImage_formed : noImage.Formed where
  image := by simp [noImage]
  region := by simp [noImage]
  once := List.nodup_nil

theorem linkedImage_noPath :
    linkedImage.findBuildIdPath .lp64 (fun _ => linkedImage.size.toNat) pathMax (fun _ => 0) =
      .ok (false, fun _ => 0) := rfl

theorem linkedImage_debuglink : linkedImage.debuglink = .ok (some gnuDebuglink) := by
  decide

/-- Where there are no other files, the image is kept. -/
theorem linkedImage_kept :
    ∃ r, loadDebuginfo (linkedFiles .absent) linkedFile 1 .lp64 (fun _ => 0) noImage = .ok r ∧
      LoadRight (linkedFiles .absent) noImage r := by
  have image : opened (linkedFiles .absent) linkedFile noImage = some linkedImage := rfl
  have sound : LinksSound (linkedFiles .absent) linkedFile 1 .lp64 (fun _ => 0) linkedImage := by
    refine ⟨⟨_, linkedImage_noPath⟩, fun _ => ⟨_, linkedImage_debuglink, ?_⟩⟩
    rintro linkbuf ⟨rfl⟩
    exact ⟨trivial, fun _ _ => trivial⟩
  exact (loadDebuginfo_right_iff noImage_formed).mpr
    ((filesSound_opened image).mpr ⟨by decide, fun _ => sound⟩)

/-- Where they are empty, the image is lost, and this is a success. -/
theorem linkedImage_lost : ¬∀ (c : ElfClass) (fs : List Byte → DebugFile c) (file : List Byte)
    (isLocal : Int) (h : DataModel) (before : Nat → Byte) (start : ImageState c), start.Formed →
      ∃ r, loadDebuginfo fs file isLocal h before start = .ok r ∧ LoadRight fs start r := by
  intro right
  obtain ⟨r, returned, right⟩ := right .elf64 (linkedFiles (.unmappable 0)) linkedFile 1 .lp64
    (fun _ => 0) noImage noImage_formed
  have loaded : loadFile (linkedFiles (.unmappable 0)) linkedFile noImage =
      ⟨0, noImage.withImage linkedImage⟩ := rfl
  rw [loadDebuginfo_mapped loaded rfl] at returned
  have unsound : ¬LinksSound (linkedFiles (.unmappable 0)) linkedFile 1 .lp64 (fun _ => 0)
      linkedImage := by
    intro sound
    have noFile : ¬HasIdFile (linkedFiles (.unmappable 0)) .lp64 (fun _ => 0) linkedImage := by
      rintro ⟨path, debug, found, -⟩
      cases found
    obtain ⟨link, read, followed⟩ := sound.link noFile
    rw [linkedImage_debuglink] at read
    cases read
    exact (followed gnuDebuglink rfl).first
  have lost := followImage_lost unsound returned
  exact lost.not_usable (right.success lost.1)

end Libunwind.Elf
