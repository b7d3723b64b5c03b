import Libunwind.Library.Bytes
import Libunwind.Dwarf.EncodedPointer
import Libunwind.Dwarf.LocalMemory
import Libunwind.Dwarf.ReadDefined

/-! # The two families of readers

The generic readers of `dwarf_i.h` fetch aligned words through `access_mem`, and put a number
together from the bytes of these. The readers of the local-only build load it.
-/

namespace Libunwind.Dwarf

variable {w : Nat}

/-! ## The sizes of numbers -/

/-- What the readers are there for. -/
inductive NumberSize where
  | one
  | two
  | four
  | eight
  deriving DecidableEq, Repr

namespace NumberSize

def bytes : NumberSize → Nat
  | one => 1
  | two => 2
  | four => 4
  | eight => 8

abbrev bits (size : NumberSize) : Nat := 8 * size.bytes

end NumberSize

/-! ## The generic readers -/

/-- An address space as the generic readers see it: `UNW_BYTE_ORDER`, the byte order of the target,
    and `access_mem`. -/
structure WordAccess (w : Nat) where
  hostBigEndian : Bool
  bigEndian : Bool
  accessMem : Word w → Except UnwError (Word w)

/-- The word that a byte is in. -/
def alignedAddr (addr : Word w) : Word w := addr &&& (~~~BitVec.ofNat w (w / 8) + 1)

namespace WordAccess

variable (a : WordAccess w)

/-- The byte that `dwarf_readu8` takes from a word. -/
def readByte (addr : Word w) : Except UnwError Byte := do
  let off := (addr - alignedAddr addr).toNat
  let val ← a.accessMem (alignedAddr addr)
  pure ((val >>> (8 * if a.hostBigEndian then w / 8 - 1 - off else off)).setWidth 8)

def space : AddrSpace w where
  bigEndian := a.bigEndian
  readByte := a.readByte
  accessMem := a.accessMem
  accessReg _ := .error .badreg
  accessFpreg _ := .error .badreg

end WordAccess

/-- `dwarf_readu8`, `dwarf_readu16`, `dwarf_readu32` or `dwarf_readu64`. -/
def readUnsigned (as : AddrSpace w) (addr : Word w) :
    (size : NumberSize) → Result (BitVec size.bits × Word w)
  | .one => readu8 as addr
  | .two => readu16 as addr
  | .four => readu32 as addr
  | .eight => readu64 as addr

/-- What `dwarf_reads8`, `dwarf_reads16`, `dwarf_reads32` and `dwarf_reads64` share. -/
def readSigned (as : AddrSpace w) (addr : Word w) (size : NumberSize) : Result (Int × Word w) := do
  let (uval, addr) ← readUnsigned as addr size
  pure (uval.toInt, addr)

/-! ## The local readers -/

namespace LocalMemory

variable (m : LocalMemory w)

/-- The bytes from an address on. -/
def bytesAt (addr : Word w) (len : Nat) : List Byte :=
  (List.range len).map fun i => m.byte (addr + BitVec.ofNat w i)

/-- A member of `dwarf_misaligned_value_t`. -/
def load (addr : Word w) (len : Nat) : BitVec (8 * len) :=
  Bytes.word (8 * len) m.bigEndian (m.bytesAt addr len)

/-- What `dwarf_readu8`, `dwarf_readu16`, `dwarf_readu32` and `dwarf_readu64` share. -/
def readUnsigned (addr : Word w) (size : NumberSize) : Result (BitVec size.bits × Word w) :=
  pure (m.load addr size.bytes, addr + BitVec.ofNat w size.bytes)

/-- What `dwarf_reads8`, `dwarf_reads16`, `dwarf_reads32` and `dwarf_reads64` share. -/
def readSigned (addr : Word w) (size : NumberSize) : Result (Int × Word w) :=
  pure ((m.load addr size.bytes).toInt, addr + BitVec.ofNat w size.bytes)

/-- `dwarf_readw` -/
def readw (addr : Word w) : Result (Word w × Word w) :=
  match w / 8 with
  | 4 => do
      let (u32, addr) ← m.readUnsigned addr .four
      pure (u32.setWidth w, addr)
  | 8 => do
      let (u64, addr) ← m.readUnsigned addr .eight
      pure (u64.setWidth w, addr)
  | _ => .error .undefined

end LocalMemory

/-! ## The bytes of aligned words -/

namespace WordAccess

variable {a : WordAccess w} {m : LocalMemory w} {addr : Word w}

/-- Both families read the same memory, in the order of the host. A word may still be unreadable. -/
structure Serves (a : WordAccess w) (m : LocalMemory w) : Prop where
  host : a.hostBigEndian = m.bigEndian
  target : a.bigEndian = m.bigEndian
  word : ∀ addr val, a.accessMem (alignedAddr addr) = .ok val →
    val = Bytes.word w m.bigEndian (m.bytesAt (alignedAddr addr) (w / 8))

/-- Every aligned word that so many bytes are in can be fetched. -/
def Readable (a : WordAccess w) (addr : Word w) (len : Nat) : Prop :=
  ∀ i, i < len → ∃ val, a.accessMem (alignedAddr (addr + BitVec.ofNat w i)) = .ok val

/-- The generic reader does what the local one does, and fails where a fetch fails. -/
structure Agrees {α : Type} (a : WordAccess w) (addr : Word w) (len : Nat)
    (generic loads : Result α) : Prop where
  same : a.Readable addr len → generic = loads
  fails : ¬a.Readable addr len → IsNegative generic

theorem and_add_and (addr mask : Word w) : (addr &&& ~~~mask) + (addr &&& mask) = addr := by
  have disjoint : (addr &&& ~~~mask) &&& (addr &&& mask) = 0#w := by
    ext i inside
    cases bit : mask[i] <;> simp [bit]
  rw [BitVec.add_eq_or_of_and_eq_zero _ _ disjoint]
  ext i inside
  cases bit : mask[i] <;> simp [bit]

/-- An address is an offset into an aligned word. -/
theorem alignedAddr_split (size : WordSize w) (addr : Word w) :
    (addr - alignedAddr addr).toNat < w / 8 ∧
      alignedAddr addr + BitVec.ofNat w (addr - alignedAddr addr).toNat = addr := by
  have aligned : alignedAddr addr = addr &&& ~~~BitVec.ofNat w (w / 8 - 1) := by
    cases size with
    | inl narrow =>
        subst narrow
        rfl
    | inr wide =>
        subst wide
        rfl
  have off : addr - alignedAddr addr = addr &&& BitVec.ofNat w (w / 8 - 1) := by
    rw [aligned, sub_eq_iff_eq_add', and_add_and]
  rw [BitVec.ofNat_toNat, BitVec.setWidth_eq, off, aligned, and_add_and]
  refine ⟨?_, rfl⟩
  have below : (addr &&& BitVec.ofNat w (w / 8 - 1)).toNat ≤ w / 8 - 1 := by
    rw [BitVec.toNat_and, BitVec.toNat_ofNat]
    exact Nat.and_le_right.trans (Nat.mod_le _ _)
  have least := size.least
  omega

/-- The byte that is taken from a word is the one that is stored there. -/
theorem readByte_eq (size : WordSize w) (serves : a.Serves m) {val : Word w}
    (fetched : a.accessMem (alignedAddr addr) = .ok val) : a.readByte addr = .ok (m.byte addr) := by
  obtain ⟨inside, whole⟩ := alignedAddr_split size addr
  have long : (m.bytesAt (alignedAddr addr) (w / 8)).length = w / 8 := by
    simp [LocalMemory.bytesAt]
  have bits : 8 * (w / 8) = w := by
    cases size with
    | inl narrow => omega
    | inr wide => omega
  have stored : (m.bytesAt (alignedAddr addr) (w / 8))[(addr - alignedAddr addr).toNat]? =
      some (m.byte addr) := by
    simp only [LocalMemory.bytesAt, List.getElem?_map, List.getElem?_range inside, Option.map_some,
      whole]
  have byte := Bytes.word_shift m.bigEndian (by rw [long, bits]) stored
  rw [long] at byte
  rw [readByte, fetched, serves.host, serves.word addr val fetched]
  exact congrArg Except.ok byte

theorem readable_append {m n : Nat} :
    a.Readable addr (m + n) ↔ a.Readable addr m ∧ a.Readable (addr + BitVec.ofNat w m) n := by
  constructor
  · intro readable
    refine ⟨fun i inside => readable i (by omega), fun i inside => ?_⟩
    rw [add_ofNat_add]
    exact readable (m + i) (by omega)
  · intro both i inside
    obtain ⟨front, back⟩ := both
    by_cases early : i < m
    · exact front i early
    · have later := back (i - m) (by omega)
      rwa [add_ofNat_add, Nat.add_sub_cancel' (by omega)] at later

end WordAccess

/-! ## Numbers of several bytes -/

theorem LocalMemory.bytesAt_append (m : LocalMemory w) (addr : Word w) (len more : Nat) :
    m.bytesAt addr (len + more) =
      m.bytesAt addr len ++ m.bytesAt (addr + BitVec.ofNat w len) more := by
  simp only [bytesAt, List.range_add, List.map_append, List.map_map, add_ofNat_add]
  rfl

section Agree

variable {α β : Type} {a : WordAccess w} {m : LocalMemory w} {addr : Word w} {len more : Nat}

theorem IsNegative.bind {first : Result α} (negative : IsNegative first) (rest : α → Result β) :
    IsNegative (first >>= rest) := by
  obtain ⟨code, rfl⟩ := negative
  exact ⟨code, rfl⟩

namespace WordAccess

theorem Agrees.bind {generic : Result (α × Word w)} {x : α} {rest : α × Word w → Result β}
    {loads : Result β}
    (first : a.Agrees addr len generic (pure (x, addr + BitVec.ofNat w len)))
    (second : a.Agrees (addr + BitVec.ofNat w len) more (rest (x, addr + BitVec.ofNat w len))
      loads) :
    a.Agrees addr (len + more) (generic >>= rest) loads := by
  refine ⟨fun readable => ?_, fun unreadable => ?_⟩
  · obtain ⟨front, back⟩ := readable_append.mp readable
    rw [first.same front, pure_eq_ok, ok_bind]
    exact second.same back
  · by_cases front : a.Readable addr len
    · rw [first.same front, pure_eq_ok, ok_bind]
      exact second.fails fun back => unreadable (readable_append.mpr ⟨front, back⟩)
    · exact IsNegative.bind (first.fails front) rest

theorem Agrees.map {generic : Result (α × Word w)} {x : α} {next : Word w}
    (agrees : a.Agrees addr len generic (pure (x, next))) (f : α → β) :
    a.Agrees addr len (generic >>= fun read => pure (f read.1, read.2)) (pure (f x, next)) := by
  refine ⟨fun readable => ?_, fun unreadable => IsNegative.bind (agrees.fails unreadable) _⟩
  rw [agrees.same readable]
  rfl

/-- A number is read as its two halves. -/
theorem Agrees.join (serves : a.Serves m)
    {half : Word w → Result (BitVec (8 * len) × Word w)}
    (agrees : ∀ addr, a.Agrees addr len (half addr)
      (pure (m.load addr len, addr + BitVec.ofNat w len))) (addr : Word w) :
    a.Agrees addr (len + len)
      (do
        let (first, addr) ← half addr
        let (second, addr) ← half addr
        pure (joinHalves a.space first second, addr))
      (pure (Bytes.word (8 * len + 8 * len) m.bigEndian (m.bytesAt addr (len + len)),
        addr + BitVec.ofNat w (len + len))) := by
  have whole : joinHalves a.space (m.load addr len) (m.load (addr + BitVec.ofNat w len) len) =
      Bytes.word (8 * len + 8 * len) m.bigEndian (m.bytesAt addr (len + len)) := by
    rw [m.bytesAt_append, ← Bytes.word_append m.bigEndian (by simp [LocalMemory.bytesAt])
      (by simp [LocalMemory.bytesAt])]
    simp only [joinHalves, WordAccess.space, serves.target, LocalMemory.load]
  rw [← whole, ← add_ofNat_add]
  exact (agrees addr).bind ((agrees _).map fun second => joinHalves a.space _ second)

/-! ## The readers -/

theorem readu8_agrees (size : WordSize w) (serves : a.Serves m) (addr : Word w) :
    a.Agrees addr 1 (readu8 a.space addr) (m.readUnsigned addr .one) := by
  have here : addr + BitVec.ofNat w 0 = addr := by simp
  refine ⟨fun readable => ?_, fun unreadable => ?_⟩
  · obtain ⟨val, fetched⟩ := readable 0 Nat.one_pos
    rw [here] at fetched
    have stored : m.load addr 1 = m.byte addr := by
      simp [LocalMemory.load, LocalMemory.bytesAt, Bytes.word, Bytes.number]
    rw [readu8_byte (readByte_eq size serves fetched), LocalMemory.readUnsigned]
    exact congrArg (fun x => Except.ok (x, addr + BitVec.ofNat w 1)) stored.symm
  · cases fetched : a.accessMem (alignedAddr addr) with
    | ok val =>
        refine absurd (fun i inside => ⟨val, ?_⟩) unreadable
        obtain rfl : i = 0 := by omega
        rw [here, fetched]
    | error code =>
        have fails : a.space.readByte addr = .error code := by
          change a.readByte addr = _
          rw [readByte, fetched]
          rfl
        exact ⟨code, readu8_fails fails⟩

theorem readUnsigned_agrees (size : WordSize w) (serves : a.Serves m) (addr : Word w)
    (n : NumberSize) :
    a.Agrees addr n.bytes (readUnsigned a.space addr n) (m.readUnsigned addr n) := by
  have two := Agrees.join serves (readu8_agrees size serves)
  have four := Agrees.join serves two
  have eight := Agrees.join serves four
  cases n with
  | one => exact readu8_agrees size serves addr
  | two => exact two addr
  | four => exact four addr
  | eight => exact eight addr

theorem readSigned_agrees (size : WordSize w) (serves : a.Serves m) (addr : Word w)
    (n : NumberSize) :
    a.Agrees addr n.bytes (readSigned a.space addr n) (m.readSigned addr n) :=
  (readUnsigned_agrees size serves addr n).map fun uval => uval.toInt

theorem readw_agrees (size : WordSize w) (serves : a.Serves m) (addr : Word w) :
    a.Agrees addr (w / 8) (readw a.space addr) (m.readw addr) := by
  cases size with
  | inl narrow =>
      subst narrow
      exact (readUnsigned_agrees (.inl rfl) serves addr .four).map fun u32 => u32.setWidth 32
  | inr wide =>
      subst wide
      exact (readUnsigned_agrees (.inr rfl) serves addr .eight).map fun u64 => u64.setWidth 64

end WordAccess

/-- The generic readers do what the local ones do, of whatever size and sign, at every address. -/
theorem readers_agree (size : WordSize w) (serves : a.Serves m) (addr : Word w) :
    (∀ n, a.Agrees addr n.bytes (readUnsigned a.space addr n) (m.readUnsigned addr n)) ∧
      (∀ n, a.Agrees addr n.bytes (readSigned a.space addr n) (m.readSigned addr n)) ∧
      a.Agrees addr (w / 8) (readw a.space addr) (m.readw addr) :=
  ⟨WordAccess.readUnsigned_agrees size serves addr, WordAccess.readSigned_agrees size serves addr,
    WordAccess.readw_agrees size serves addr⟩

end Agree

/-! ## The own process through its accessors -/

/-- `access_mem` of a memory, of which some words can be read. -/
def LocalMemory.wordAccess (m : LocalMemory w) (readable : Word w → Bool) : WordAccess w where
  hostBigEndian := m.bigEndian
  bigEndian := m.bigEndian
  accessMem addr :=
    if readable addr then .ok (Bytes.word w m.bigEndian (m.bytesAt addr (w / 8)))
    else .error .unspec

theorem LocalMemory.wordAccess_serves (m : LocalMemory w) (readable : Word w → Bool) :
    (m.wordAccess readable).Serves m where
  host := rfl
  target := rfl
  word addr val fetched := by
    simp only [LocalMemory.wordAccess] at fetched
    split at fetched
    · exact (Except.ok.inj fetched).symm
    · cases fetched

/-- The byte at an address is the end of the address. -/
def countingMemory : LocalMemory 64 where
  bigEndian := false
  byte addr := addr.setWidth 8

/-- Two words of it can be read, and a number that is in both. -/
theorem countingMemory_agrees :
    (countingMemory.wordAccess (· < 16)).Agrees 6 4
        (readUnsigned (countingMemory.wordAccess (· < 16)).space 6 .four)
        (countingMemory.readUnsigned 6 .four) ∧
      readUnsigned (countingMemory.wordAccess (· < 16)).space 6 .four =
        .ok (0x09080706, 10) :=
  ⟨(readers_agree .eight (LocalMemory.wordAccess_serves _ _) 6).1 .four, by decide⟩

end Libunwind.Dwarf
