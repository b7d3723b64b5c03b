import Libunwind.Elf.BuildId

/-! # The path of a debug file

What `find_build_id_path` writes to the buffer of its caller, which holds anything before.
-/

namespace Libunwind.Elf

open Checked BoundedBuffer

variable {c : ElfClass}

def ascii (text : List Char) : List Byte := text.map fun ch => BitVec.ofNat 8 ch.toNat

/-- `prefix`, but for its terminator -/
def buildIdDir : List Byte :=
  ascii ['/', 'u', 's', 'r', '/', 'l', 'i', 'b', '/', 'd', 'e', 'b', 'u', 'g', '/', '.', 'b', 'u',
    'i', 'l', 'd', '-', 'i', 'd', '/']

def debugSuffix : List Byte := ascii ['.', 'd', 'e', 'b', 'u', 'g']

def slash : Byte := 0x2f

/-- `hex` -/
def hexTable : List Byte :=
  ascii ['0', '1', '2', '3', '4', '5', '6', '7', '8', '9', 'a', 'b', 'c', 'd', 'e', 'f']

def hexDigits (byte : Byte) : List Byte :=
  [hexTable.getD (byte >>> 4).toNat 0, hexTable.getD (byte &&& 0xf).toNat 0]

/-- What `path_len` is compared with. The size of the leaf is an `unsigned`. -/
def neededLen (h : DataModel) (descsz : BitVec 32) : Nat :=
  (buildIdDir.length + 1 + 2 + 1 + (2 * (descsz - 1)).toNat + 6) % 2 ^ h.bits

/-- `add_hex_byte` -/
def addHexByte (pathLen str : Nat) (byte : Byte) (path : Nat → Byte) :
    Result (Nat × (Nat → Byte)) := do
  let path ← putAll Fault.undefined pathLen str (hexDigits byte ++ [0]) path
  pure (str + 2, path)

namespace ElfImage

variable (ei : ElfImage c)

/-- The loop over the bytes after the first one. -/
def addRest (bound pathLen : Nat) :
    Nat → Nat → Nat → (Nat → Byte) → Result (Nat × (Nat → Byte))
  | 0, _, str, path => pure (str, path)
  | n + 1, desc, str, path => do
      let byte ← ei.loadBelow bound 1 desc
      let (str, path) ← addHexByte pathLen str byte path
      addRest bound pathLen n (desc + 1) str path

/-- The path as far as the last byte of the descriptor. -/
def writeDigits (bound pathLen desc descsz : Nat) (path : Nat → Byte) :
    Result (Nat × (Nat → Byte)) := do
  let path ← putAll Fault.undefined pathLen 0 (buildIdDir ++ [0]) path
  let byte ← ei.loadBelow bound 1 desc
  let (str, path) ← addHexByte pathLen buildIdDir.length byte path
  let path ← putAll Fault.undefined pathLen str [slash] path
  ei.addRest bound pathLen (descsz - 1) (desc + 1) (str + 1) path

/-- `find_build_id_path`: whether it returns 0, and the path. -/
def findBuildIdPath (h : DataModel) (bound : Nat → Nat) (pathLen : BitVec 32)
    (path : Nat → Byte) : Result (Bool × (Nat → Byte)) := do
  match ← ei.findBuildId h bound with
  | none => pure (false, path)
  | some found =>
      if pathLen.toNat < neededLen h found.descsz then pure (false, path)
      else do
        let (str, path) ← ei.writeDigits (bound found.notesEnd) pathLen.toNat found.desc
          found.descsz.toNat path
        let path ← append Fault.undefined 0 pathLen.toNat str debugSuffix path
        pure (true, path)

/-! ## What the path is to be -/

def bytesAt : Nat → Nat → List Byte
  | 0, _ => []
  | n + 1, off => ei.byte off :: bytesAt n (off + 1)

end ElfImage

/-- The debug directory, the first byte, a slash, the other bytes, and the suffix. -/
def debugPath : List Byte → List Byte
  | [] => []
  | first :: rest =>
      buildIdDir ++ hexDigits first ++ [slash] ++ rest.flatMap hexDigits ++ debugSuffix

/-- A descriptor that is not empty, and whose path fits with a terminator. -/
def Fits (pathLen descsz : BitVec 32) : Prop := descsz ≠ 0 ∧ 33 + 2 * descsz.toNat ≤ pathLen.toNat

namespace ElfImage

variable (ei : ElfImage c)

/-- Reads stay in the segment and in the image. -/
def inSegment (notesEnd : Nat) : Nat := min notesEnd ei.size.toNat

/-- The descriptor of a note. -/
def noteDescriptor (found : Nat × Nat) : Descriptor :=
  ⟨found.1 + nhdrSize + alignUp (ei.namesz found.1).toNat, ei.descsz found.1, found.2⟩

def descriptorBytes (found : Descriptor) : List Byte :=
  ei.bytesAt found.descsz.toNat found.desc

/-- The walk over the notes ends at the first build-id. The call ends, reads inside of the segments
    and writes inside of the buffer, whatever that holds; and it returns 0 with the path exactly
    where the descriptor of the first build-id is not empty, and fits. -/
structure FindsPath (h : DataModel) (pathLen : BitVec 32) : Prop where
  walk : ei.findBuildId h ei.inSegment =
    .ok ((ei.firstBuildId ei.nextNote).map ei.noteDescriptor)
  path : ∀ before, ∃ ret after,
    ei.findBuildIdPath h ei.inSegment pathLen before = .ok (ret, after) ∧
      ei.findBuildIdPath h (fun _ => ei.size.toNat) pathLen before = .ok (ret, after) ∧
      (ret = true ↔ ∃ found, ei.firstBuildId ei.nextNote = some found ∧
        Fits pathLen (ei.descsz found.1)) ∧
      ∀ found, ei.firstBuildId ei.nextNote = some found → ret = true →
        Holds after 0 (debugPath (ei.descriptorBytes (ei.noteDescriptor found)) ++ [0])

/-- The notes can be read; sizes that wrap lead to no other build-id; and a descriptor that passes
    the check fits, has more than one byte, and is in the segment. -/
structure PathSound (h : DataModel) (pathLen : BitVec 32) : Prop where
  notes : ei.validObject = true → ei.NotesRead h ei.inSegment
  sizes : ei.firstBuildId (ei.steppedNote h) = ei.firstBuildId ei.nextNote
  descriptor : ∀ found, ei.firstBuildId ei.nextNote = some found →
    neededLen h (ei.descsz found.1) ≤ pathLen.toNat →
      Fits pathLen (ei.descsz found.1) ∧ ei.descsz found.1 ≠ 1 ∧
        (ei.noteDescriptor found).desc + (ei.descsz found.1).toNat ≤ ei.inSegment found.2

/-! ## What is written -/

/-- The buffer after the bytes from a place on were added. -/
def withRest : Nat → Nat → Nat → (Nat → Byte) → Nat → Byte
  | 0, _, _, path => path
  | n + 1, desc, str, path =>
      withRest n (desc + 1) (str + 2) (overwrite str (hexDigits (ei.byte desc) ++ [0]) path)

/-- The buffer after the directory, the first byte and the slash. -/
def withFirst (desc : Nat) (path : Nat → Byte) : Nat → Byte :=
  overwrite 27 [slash]
    (overwrite 25 (hexDigits (ei.byte desc) ++ [0]) (overwrite 0 (buildIdDir ++ [0]) path))

/-- The buffer with the path of a descriptor of more than one byte. -/
def withPath (found : Descriptor) (path : Nat → Byte) : Nat → Byte :=
  overwrite (28 + 2 * (found.descsz.toNat - 1)) (debugSuffix ++ [0])
    (ei.withRest (found.descsz.toNat - 1) (found.desc + 1) 28 (ei.withFirst found.desc path))

variable {ei} {h : DataModel} {pathLen : BitVec 32} {path : Nat → Byte}

theorem buildIdDir_length : buildIdDir.length = 25 := rfl

theorem hexDigits_length (byte : Byte) : (hexDigits byte).length = 2 := rfl

theorem addHexByte_delivers (len str : Nat) (byte : Byte) (path : Nat → Byte) :
    Delivers (addHexByte len str byte path) (str + 3 ≤ len)
      (str + 2, overwrite str (hexDigits byte ++ [0]) path) := by
  refine Delivers.congr ((putAll_delivers Fault.undefined len str (hexDigits byte ++ [0]) path).bind
    fun _ => Delivers.of_ok (str + 2, overwrite str (hexDigits byte ++ [0]) path)) ?_ fun _ => rfl
  simp [hexDigits_length]

theorem addRest_delivers (bound len n desc str : Nat) (path : Nat → Byte) :
    Delivers (ei.addRest bound len n desc str path)
      (0 < n → desc + n ≤ bound ∧ str + 2 * n + 1 ≤ len)
      (str + 2 * n, ei.withRest n desc str path) := by
  induction n generalizing desc str path with
  | zero => exact (Delivers.of_ok (str, path)).congr (by simp) fun _ => rfl
  | succ n ih =>
      refine Delivers.congr ((loadBelow_delivers bound 1 desc).bind fun _ =>
        (addHexByte_delivers len str (ei.field 1 desc) path).bind fun _ => by
          exact ih (desc + 1) (str + 2) _) ?_ ?_
      · omega
      · intro _
        rw [field_one, withRest, Nat.mul_succ, Nat.add_assoc, Nat.add_comm 2]

variable (ei) in
theorem writeDigits_delivers (bound len desc descsz : Nat) (path : Nat → Byte) :
    Delivers (ei.writeDigits bound len desc descsz path)
      (28 ≤ len ∧ desc + 1 ≤ bound ∧
        (1 < descsz → desc + descsz ≤ bound ∧ 27 + 2 * descsz ≤ len))
      (28 + 2 * (descsz - 1),
        ei.withRest (descsz - 1) (desc + 1) 28 (ei.withFirst desc path)) := by
  refine Delivers.congr
    ((putAll_delivers Fault.undefined len 0 (buildIdDir ++ [0]) path).bind fun _ =>
      (loadBelow_delivers bound 1 desc).bind fun _ =>
      (addHexByte_delivers len 25 (ei.field 1 desc) _).bind fun _ => by
        exact (putAll_delivers Fault.undefined len 27 [slash] _).bind fun _ =>
          addRest_delivers bound len (descsz - 1) (desc + 1) 28 _) ?_ ?_
  · simp [buildIdDir_length]
    omega
  · intro _
    rw [field_one]
    rfl

/-- The digits of the bytes come one after another. -/
theorem withRest_holds {n str : Nat} {text : List Byte} (desc : Nat) (holds : Holds path 0 text)
    (written : text.length = str) :
    Holds (ei.withRest n desc str path) 0 (text ++ (ei.bytesAt n desc).flatMap hexDigits) := by
  induction n generalizing desc str text path with
  | zero => simpa [withRest, bytesAt] using holds
  | succ n ih =>
      have added := holds.append (hexDigits (ei.byte desc) ++ [0])
      rw [Nat.zero_add, written, ← List.append_assoc, holds_append] at added
      have longer : (text ++ hexDigits (ei.byte desc)).length = str + 2 := by
        rw [List.length_append, hexDigits_length, written]
      have rest := ih (desc + 1) added.1 longer
      rw [withRest, bytesAt, List.flatMap_cons, ← List.append_assoc]
      exact rest

variable (ei) in
/-- After one byte at least, there is a terminator behind the digits. -/
theorem withRest_terminated {n : Nat} (desc str : Nat) (path : Nat → Byte) (some : 0 < n) :
    ei.withRest n desc str path (str + 2 * n) = 0 := by
  induction n generalizing desc str path with
  | zero => cases some
  | succ n ih =>
      rw [withRest]
      cases n with
      | zero =>
          have added : Holds (overwrite str (hexDigits (ei.byte desc) ++ [0]) path) str
              (hexDigits (ei.byte desc) ++ [0]) := overwrite_holds
          rw [holds_append] at added
          exact added.2.1
      | succ n =>
          have later := ih (desc + 1) (str + 2)
            (overwrite str (hexDigits (ei.byte desc) ++ [0]) path) (Nat.succ_pos n)
          rwa [Nat.add_assoc, Nat.add_comm 2, ← Nat.mul_succ] at later

theorem withFirst_holds (desc : Nat) (path : Nat → Byte) :
    Holds (ei.withFirst desc path) 0 (buildIdDir ++ hexDigits (ei.byte desc) ++ [slash]) := by
  have dir : Holds (overwrite 0 (buildIdDir ++ [0]) path) 0 (buildIdDir ++ [0]) := overwrite_holds
  have first := (holds_append.mp dir).1.append (hexDigits (ei.byte desc) ++ [0])
  rw [← List.append_assoc] at first
  exact (holds_append.mp first).1.append [slash]

theorem withFirst_other (desc : Nat) (path : Nat → Byte) {i : Nat} (behind : 28 ≤ i) :
    ei.withFirst desc path i = path i := by
  rw [withFirst, overwrite_other (.inr behind), overwrite_other (.inr behind),
    overwrite_other (.inr (Nat.le_trans (by decide) behind))]

/-- A path that fits passes the check. -/
theorem neededLen_le {descsz : BitVec 32} (fits : Fits pathLen descsz) :
    neededLen h descsz ≤ pathLen.toNat := by
  obtain ⟨nonempty, room⟩ := fits
  have len := pathLen.isLt
  have some : descsz.toNat ≠ 0 := fun zero => nonempty (BitVec.eq_of_toNat_eq zero)
  have leaf : (2 * (descsz - 1)).toNat = 2 * (descsz.toNat - 1) := by
    bv_omega
  rw [neededLen, leaf, buildIdDir_length]
  apply Nat.le_trans (Nat.mod_le _ _)
  omega

theorem digits_length (n desc : Nat) : ((ei.bytesAt n desc).flatMap hexDigits).length = 2 * n := by
  induction n generalizing desc with
  | zero => rfl
  | succ n ih =>
      rw [bytesAt, List.flatMap_cons, List.length_append, ih, hexDigits_length]
      omega

/-- The path is in the buffer once the suffix is. -/
theorem withPath_holds {found : Descriptor} (nonempty : 0 < found.descsz.toNat)
    (path : Nat → Byte) :
    Holds (ei.withPath found path) 0 (debugPath (ei.descriptorBytes found) ++ [0]) := by
  obtain ⟨n, size⟩ : ∃ n, found.descsz.toNat = n + 1 := ⟨found.descsz.toNat - 1, by omega⟩
  have digits : Holds (ei.withRest n (found.desc + 1) 28 (ei.withFirst found.desc path)) 0
      (buildIdDir ++ hexDigits (ei.byte found.desc) ++ [slash] ++
        (ei.bytesAt n (found.desc + 1)).flatMap hexDigits) :=
    withRest_holds (found.desc + 1) (withFirst_holds found.desc path) rfl
  have whole := digits.append (debugSuffix ++ [0])
  rw [List.length_append, digits_length, Nat.zero_add] at whole
  rw [withPath, descriptorBytes, size, bytesAt, debugPath, List.append_assoc _ debugSuffix]
  exact whole

/-- The path of a descriptor of more than one byte is written where there is room for it. -/
theorem findBuildIdPath_eq {bound : Nat → Nat} {found : Descriptor}
    (walk : ei.findBuildId h bound = .ok (some found)) (fits : Fits pathLen found.descsz)
    (more : found.descsz ≠ 1)
    (inside : found.desc + found.descsz.toNat ≤ bound found.notesEnd) :
    ei.findBuildIdPath h bound pathLen path = .ok (true, ei.withPath found path) := by
  have passes := neededLen_le (h := h) fits
  obtain ⟨nonempty, room⟩ := fits
  have many : 1 < found.descsz.toNat := by
    bv_omega
  have digits := (writeDigits_delivers ei (bound found.notesEnd) pathLen.toNat found.desc
    found.descsz.toNat path).eq_ok (by omega)
  have terminated := withRest_terminated ei (found.desc + 1) 28
    (ei.withFirst found.desc path) (Nat.sub_pos_of_lt many)
  have suffix := (append_delivers Fault.undefined pathLen.toNat debugSuffix terminated).eq_ok (by
    have six : debugSuffix.length = 6 := rfl
    omega)
  rw [findBuildIdPath, walk]
  simp only [ok_bind, if_neg (Nat.not_lt.mpr passes), digits, suffix]
  rfl

/-! ## The note and its path -/

theorem firstBuildId_isBuildId {next : Nat → Nat} {found : Nat × Nat}
    (first : ei.firstBuildId next = some found) : ei.IsBuildId found.1 := by
  rw [firstBuildId] at first
  split at first
  · obtain ⟨phdr, -, here⟩ := List.exists_of_findSome?_eq_some first
    obtain ⟨note, among, rfl⟩ := Option.map_eq_some_iff.mp here
    have held := List.find?_some among
    exact of_decide_eq_true held
  · cases first

theorem descriptorAt_eq {found : Nat × Nat} (isBuildId : ei.IsBuildId found.1) :
    ei.descriptorAt h found = ei.noteDescriptor found := by
  have four : nameAsz h 4 = alignUp (4 : BitVec 32).toNat := by
    cases h with
    | ilp32 => rfl
    | lp64 => rfl
  rw [descriptorAt, noteDescriptor, isBuildId.1, four]

theorem map_descriptorAt {next : Nat → Nat} :
    (ei.firstBuildId next).map (ei.descriptorAt h) =
      (ei.firstBuildId next).map ei.noteDescriptor := by
  cases first : ei.firstBuildId next with
  | none => rfl
  | some found =>
      rw [Option.map_some, Option.map_some, descriptorAt_eq (firstBuildId_isBuildId first)]

theorem noteDescriptor_inj {found found' : Nat × Nat} (isBuildId : ei.IsBuildId found.1)
    (isBuildId' : ei.IsBuildId found'.1)
    (same : ei.noteDescriptor found = ei.noteDescriptor found') : found = found' := by
  rw [noteDescriptor, noteDescriptor, isBuildId.1, isBuildId'.1, Descriptor.mk.injEq] at same
  obtain ⟨place, -, notesEnd⟩ := same
  exact Prod.ext (by omega) notesEnd

theorem findBuildId_eq_iff {bound : Nat → Nat} :
    ei.findBuildId h bound = .ok ((ei.firstBuildId ei.nextNote).map ei.noteDescriptor) ↔
      (ei.validObject = true → ei.NotesRead h bound) ∧
        ei.firstBuildId (ei.steppedNote h) = ei.firstBuildId ei.nextNote := by
  by_cases valid : ei.validObject = true
  · rw [findBuildId_delivers valid bound, map_descriptorAt]
    simp only [valid, true_implies, and_congr_right_iff]
    intro _
    constructor
    · intro same
      cases stepped : ei.firstBuildId (ei.steppedNote h) with
      | none =>
          rw [stepped, Option.map_none, eq_comm, Option.map_eq_none_iff] at same
          exact same.symm
      | some found =>
          rw [stepped, Option.map_some, eq_comm, Option.map_eq_some_iff] at same
          obtain ⟨found', first, same⟩ := same
          rw [first, noteDescriptor_inj (firstBuildId_isBuildId first)
            (firstBuildId_isBuildId stepped) same]
    · intro same
      rw [same]
  · rw [findBuildId, if_neg valid, firstBuildId, firstBuildId, if_neg valid, if_neg valid]
    simp [valid]

/-- One byte leaves no terminator behind it, where the buffer had none. -/
theorem findBuildIdPath_single {bound : Nat → Nat} {found : Descriptor}
    (walk : ei.findBuildId h bound = .ok (some found))
    (passes : neededLen h found.descsz ≤ pathLen.toNat) (single : found.descsz.toNat - 1 = 0)
    (endless : ∀ i, path i ≠ 0) (outcome : Bool × (Nat → Byte)) :
    ei.findBuildIdPath h bound pathLen path ≠ .ok outcome := by
  intro ran
  rw [findBuildIdPath, walk] at ran
  simp only [ok_bind, if_neg (Nat.not_lt.mpr passes)] at ran
  obtain ⟨digits, wrote, ran⟩ := bind_eq_ok.mp ran
  obtain ⟨-, rfl⟩ := (writeDigits_delivers _ _ _ _ _ _ _).mp wrote
  obtain ⟨after, appended, -⟩ := bind_eq_ok.mp ran
  rw [single, append_error] at appended
  · cases appended
  · intro i behind
    exact (withFirst_other found.desc path behind).trans_ne (endless i)

theorem writes_of_ok {bound : Nat → Nat} {found : Descriptor} {outcome : Bool × (Nat → Byte)}
    (walk : ei.findBuildId h bound = .ok (some found))
    (passes : neededLen h found.descsz ≤ pathLen.toNat)
    (ran : ei.findBuildIdPath h bound pathLen path = .ok outcome) :
    outcome.1 = true ∧ (found.descsz ≠ 0 →
      found.desc + found.descsz.toNat ≤ bound found.notesEnd) := by
  rw [findBuildIdPath, walk] at ran
  simp only [ok_bind, if_neg (Nat.not_lt.mpr passes)] at ran
  obtain ⟨digits, wrote, ran⟩ := bind_eq_ok.mp ran
  obtain ⟨⟨-, first, rest⟩, -⟩ := (writeDigits_delivers _ _ _ _ _ _ _).mp wrote
  obtain ⟨after, -, ran⟩ := bind_eq_ok.mp ran
  cases ran
  refine ⟨rfl, ?_⟩
  intro nonempty
  by_cases many : 1 < found.descsz.toNat
  · exact (rest many).1
  · bv_omega

theorem refused_eq {bound : Nat → Nat} {found : Descriptor}
    (walk : ei.findBuildId h bound = .ok (some found))
    (refused : ¬neededLen h found.descsz ≤ pathLen.toNat) :
    ei.findBuildIdPath h bound pathLen path = .ok (false, path) := by
  rw [findBuildIdPath, walk]
  simp only [ok_bind, if_pos (Nat.not_le.mp refused)]
  rfl

theorem none_eq {bound : Nat → Nat} (walk : ei.findBuildId h bound = .ok none) :
    ei.findBuildIdPath h bound pathLen path = .ok (false, path) := by
  rw [findBuildIdPath, walk]
  rfl

/-- The path is found as it should be exactly where the notes and the descriptor are sound. -/
theorem findBuildIdPath_iff (ei : ElfImage c) (h : DataModel) (pathLen : BitVec 32) :
    ei.FindsPath h pathLen ↔ ei.PathSound h pathLen := by
  constructor
  · intro finds
    obtain ⟨notes, sizes⟩ := findBuildId_eq_iff.mp finds.walk
    refine ⟨notes, sizes, ?_⟩
    intro found first passes
    have walk := finds.walk
    rw [first, Option.map_some] at walk
    obtain ⟨ret, after, ran, -, returns, -⟩ := finds.path fun _ => 1
    obtain ⟨taken, inside⟩ := writes_of_ok walk passes ran
    obtain ⟨found', first', fits⟩ := returns.mp taken
    rw [first, Option.some.injEq] at first'
    subst first'
    refine ⟨fits, ?_, inside fits.1⟩
    intro single
    refine findBuildIdPath_single walk passes ?_ (fun _ => by decide) _ ran
    have one : (ei.noteDescriptor found).descsz = 1 := single
    rw [one]
    rfl
  · intro sound
    have walk := findBuildId_eq_iff.mpr ⟨sound.notes, sound.sizes⟩
    have walkImage : ei.findBuildId h (fun _ => ei.size.toNat) =
        .ok ((ei.firstBuildId ei.nextNote).map ei.noteDescriptor) :=
      findBuildId_eq_iff.mpr ⟨fun valid => (sound.notes valid).mono fun _ => Nat.min_le_right _ _,
        sound.sizes⟩
    refine ⟨walk, ?_⟩
    intro before
    cases first : ei.firstBuildId ei.nextNote with
    | none =>
        rw [first] at walk walkImage
        exact ⟨false, before, none_eq walk, none_eq walkImage, by simp, by simp⟩
    | some found =>
        rw [first] at walk walkImage
        by_cases passes : neededLen h (ei.descsz found.1) ≤ pathLen.toNat
        · obtain ⟨fits, more, inside⟩ := sound.descriptor found first passes
          have nonempty : 0 < (ei.descsz found.1).toNat := by
            have zero := fits.1
            bv_omega
          have insideImage := Nat.le_trans inside (Nat.min_le_right _ _)
          refine ⟨true, ei.withPath (ei.noteDescriptor found) before,
            findBuildIdPath_eq walk fits more inside,
            findBuildIdPath_eq walkImage fits more insideImage, ?_, ?_⟩
          · simpa using fits
          · intro found' same _
            rw [Option.some.injEq] at same
            subst same
            exact withPath_holds nonempty before
        · refine ⟨false, before, refused_eq walk passes, refused_eq walkImage passes, ?_, by simp⟩
          have never : ¬Fits pathLen (ei.descsz found.1) := fun fits => passes (neededLen_le fits)
          simpa using never

/-! ## A build-id of one byte -/

/-- One segment with one note. -/
def singleNote : ElfImage .elf64 where
  size := 140
  byte off :=
    if off = 0 then 0x7f else if off = 1 then 0x45 else if off = 2 then 0x4c
    else if off = 3 then 0x46 else if off = 4 then 2 else if off = 6 then 1
    else if off = 32 then 64 else if off = 54 then 56 else if off = 56 then 1
    else if off = 64 then 4 else if off = 72 then 120 else if off = 96 then 20
    else if off = 120 then 4 else if off = 124 then 1 else if off = 128 then 3
    else if off = 132 then 0x47 else if off = 133 then 0x4e else if off = 134 then 0x55
    else if off = 136 then 0xab else 0
  bigEndian := false

/-- The slash takes the place of the terminator, and `strcat` looks for another one. -/
theorem singleNote_overruns : ¬singleNote.FindsPath .lp64 4096 := by
  intro finds
  have walk : singleNote.findBuildId .lp64 singleNote.inSegment = .ok (some ⟨136, 1, 140⟩) := by
    decide
  obtain ⟨ret, after, ran, -⟩ := finds.path fun _ => 1
  exact findBuildIdPath_single walk (by decide) rfl (fun _ => by decide) _ ran

end ElfImage

end Libunwind.Elf
