import Libunwind.Dwarf.EncodedPointer
import Libunwind.Dwarf.LocalMemory
import Libunwind.Dwarf.ReadDefined

/-! # Readers of LEB128 numbers

`dwarf_read_uleb128` and `dwarf_read_sleb128` read through an address space; `_ReadULEB` and
`_ReadSLEB`, which are for LSDA tables, read what a pointer points to.
-/

namespace Libunwind.Dwarf

open Leb128

variable {w : Nat}

/-! ## The local readers -/

namespace LocalMemory

variable (m : LocalMemory w)

/-- The loop of `_ReadULEB`. -/
def readULEBLoop : Nat → Word w → Word w → Nat → Result (Word w × Word w)
  | 0, _, _, _ => .error .timeout
  | rounds + 1, bp, result, shift =>
      let byte := m.byte bp
      let bp := bp + 1
      if w ≤ shift then .error .undefined
      else
        let result := result ||| ((byte.setWidth w &&& 0x7f) <<< shift)
        if byte &&& 0x80 = 0 then pure (result, bp)
        else readULEBLoop rounds bp result (shift + 7)

/-- `_ReadULEB` -/
def readULEB (dpp : Word w) : Result (Word w × Word w) := m.readULEBLoop (w + 1) dpp 0 0

/-- The loop of `_ReadSLEB`. -/
def readSLEBLoop : Nat → Word w → Word w → Nat → Result (Word w × Nat × Byte × Word w)
  | 0, _, _, _ => .error .timeout
  | rounds + 1, bp, result, shift =>
      let byte := m.byte bp
      let bp := bp + 1
      if w ≤ shift then .error .undefined
      else
        let result := result ||| ((byte.setWidth w &&& 0x7f) <<< shift)
        let shift := shift + 7
        if byte &&& 0x80 = 0 then pure (result, shift, byte, bp)
        else readSLEBLoop rounds bp result shift

/-- `_ReadSLEB` -/
def readSLEB (dpp : Word w) : Result (Word w × Word w) := do
  let (result, shift, byte, bp) ← m.readSLEBLoop (w + 1) dpp 0 0
  if shift < 8 * (w / 8) ∧ byte &&& 0x40 ≠ 0 then
    pure (result ||| ((-1 : Word w) <<< shift), bp)
  else pure (result, bp)

theorem readSLEBLoop_eq (rounds : Nat) (bp result : Word w) (shift : Nat) :
    m.readSLEBLoop rounds bp result shift = readLeb128 m.space rounds bp result shift := by
  induction rounds generalizing bp result shift with
  | zero => rfl
  | succ rounds ih =>
      have stored : m.space.readByte bp = .ok (m.byte bp) := rfl
      rw [readSLEBLoop, readLeb128, readu8_byte stored, ok_bind]
      by_cases last : m.byte bp &&& 0x80 = 0
      · simp only [last, ne_eq, not_true, if_true, if_false]
      · simp only [last, ne_eq, not_false_eq_true, if_true, if_false, ih]

theorem readULEBLoop_eq (rounds : Nat) (bp result : Word w) (shift : Nat) :
    m.readULEBLoop rounds bp result shift =
      (readLeb128 m.space rounds bp result shift).map fun read => (read.1, read.2.2.2) := by
  induction rounds generalizing bp result shift with
  | zero => rfl
  | succ rounds ih =>
      have stored : m.space.readByte bp = .ok (m.byte bp) := rfl
      rw [readULEBLoop, readLeb128, readu8_byte stored, ok_bind]
      by_cases wide : w ≤ shift
      · simp only [if_pos wide]
        rfl
      · by_cases last : m.byte bp &&& 0x80 = 0
        · simp only [if_neg wide, last, ne_eq, not_true, if_true, if_false]
          rfl
        · simp only [if_neg wide, last, ne_eq, not_false_eq_true, if_true, if_false, ih]

/-- The local readers are those of the own address space. -/
theorem readULEB_eq (dpp : Word w) : m.readULEB dpp = readUleb128 m.space dpp := by
  rw [readULEB, readULEBLoop_eq, readUleb128]
  cases readLeb128 m.space (w + 1) dpp 0 0 with
  | error e => rfl
  | ok read => rfl

theorem readSLEB_eq (dpp : Word w) : m.readSLEB dpp = readSleb128 m.space dpp := by
  rw [readSLEB, readSLEBLoop_eq, readSleb128]

end LocalMemory

/-! ## Numbers in bytes -/

/-- The digits of a number, of which it may have more than it needs. -/
structure LebString where
  digits : List Nat
  some : digits ≠ []
  small : ∀ digit ∈ digits, digit < 128

namespace LebString

def bytes (s : LebString) : List Byte := encode s.digits

def length (s : LebString) : Nat := s.digits.length

/-- What the bytes stand for as an unsigned number, -/
def unsigned (s : LebString) : Nat := Nat.ofDigits 128 s.digits

/-- and as a signed one. -/
def signed (s : LebString) : Int := signedValue s.digits

def ofUnsigned (v : Word w) : LebString :=
  ⟨ulebDigits v.toNat, ulebDigits_ne_nil _, fun _ => ulebDigits_lt⟩

def ofSigned (v : Word w) : LebString :=
  ⟨slebDigits v.toInt, slebDigits_ne_nil _, slebDigits_lt⟩

/-- No byte is shifted by the width of a word. -/
def Short (w : Nat) (s : LebString) : Prop := 7 * (s.length - 1) < w

instance decidableShort (w : Nat) (s : LebString) : Decidable (s.Short w) :=
  inferInstanceAs (Decidable (_ < _))

end LebString

/-- Both readers of unsigned numbers deliver the value, and go on behind the bytes. -/
def UnsignedRight (as : AddrSpace w) (m : LocalMemory w) (addr : Word w) (s : LebString) : Prop :=
  ∃ val : Word w, val.toNat = s.unsigned ∧
    readUleb128 as addr = .ok (val, addr + BitVec.ofNat w s.length) ∧
    m.readULEB addr = .ok (val, addr + BitVec.ofNat w s.length)

/-- Both readers of signed numbers do. -/
def SignedRight (as : AddrSpace w) (m : LocalMemory w) (addr : Word w) (s : LebString) : Prop :=
  ∃ val : Word w, val.toInt = s.signed ∧
    readSleb128 as addr = .ok (val, addr + BitVec.ofNat w s.length) ∧
    m.readSLEB addr = .ok (val, addr + BitVec.ofNat w s.length)

section Right

variable {as : AddrSpace w} {m : LocalMemory w} {addr : Word w} {s : LebString}

theorem unsignedRight_iff (stored : Stores as addr s.bytes) (here : Stores m.space addr s.bytes)
    (fits : s.unsigned < 2 ^ w) : UnsignedRight as m addr s ↔ s.Short w := by
  have read := readUleb128_encode s.some s.small stored
  have readHere := readUleb128_encode s.some s.small here
  rw [← m.readULEB_eq] at readHere
  by_cases short : s.Short w
  · have inside : 7 * (s.digits.length - 1) < w := short
    rw [if_pos inside] at read readHere
    refine iff_of_true ⟨_, ?_, read, readHere⟩ short
    rw [BitVec.toNat_ofNat]
    exact Nat.mod_eq_of_lt fits
  · have outside : ¬ 7 * (s.digits.length - 1) < w := short
    rw [if_neg outside] at read
    apply iff_of_false _ short
    intro right
    obtain ⟨val, -, same, -⟩ := right
    cases read.symm.trans same

theorem signedRight_iff (size : WordSize w) (stored : Stores as addr s.bytes)
    (here : Stores m.space addr s.bytes) (low : -2 ^ (w - 1) ≤ s.signed)
    (high : s.signed < 2 ^ (w - 1)) : SignedRight as m addr s ↔ s.Short w := by
  have bytes : 8 * (w / 8) = w := by
    cases size with
    | inl narrow => omega
    | inr wide => omega
  have least := size.least
  have read := readSleb128_encode bytes s.some s.small stored
  have readHere := readSleb128_encode bytes s.some s.small here
  rw [← m.readSLEB_eq] at readHere
  by_cases short : s.Short w
  · have inside : 7 * (s.digits.length - 1) < w := short
    rw [if_pos inside] at read readHere
    refine iff_of_true ⟨_, ?_, read, readHere⟩ short
    exact BitVec.toInt_ofInt_eq_self (by omega) low high
  · have outside : ¬ 7 * (s.digits.length - 1) < w := short
    rw [if_neg outside] at read
    apply iff_of_false _ short
    intro right
    obtain ⟨val, -, same, -⟩ := right
    cases read.symm.trans same

theorem short_ofUnsigned (v : Word w) (size : WordSize w) : (LebString.ofUnsigned v).Short w := by
  have least := size.least
  have bound : v.toNat < 128 ^ ((w - 1) / 7 + 1) := by
    calc
      v.toNat < 2 ^ w := v.isLt
      _ ≤ 2 ^ (7 * ((w - 1) / 7 + 1)) := Nat.pow_le_pow_right (by decide) (by omega)
      _ = 128 ^ ((w - 1) / 7 + 1) := Nat.pow_mul 2 7 _
  have length := length_ulebDigits_le bound
  change 7 * ((ulebDigits v.toNat).length - 1) < w
  omega

theorem short_ofSigned (v : Word w) (size : WordSize w) : (LebString.ofSigned v).Short w := by
  have least := size.least
  have power : (2 : Int) ^ (w - 1) ≤ 64 * 128 ^ ((w - 1) / 7) := by
    calc
      (2 : Int) ^ (w - 1) ≤ 2 ^ (6 + 7 * ((w - 1) / 7)) := by
        apply pow_le_pow_right₀ (by decide)
        omega
      _ = 64 * 128 ^ ((w - 1) / 7) := by
        rw [pow_add, pow_mul]
        norm_num
  have low := BitVec.le_toInt v
  have high := BitVec.toInt_lt (x := v)
  have length := length_slebDigits_le (k := (w - 1) / 7) (by omega) (high.trans_le power)
  change 7 * ((slebDigits v.toInt).length - 1) < w
  omega

theorem ofUnsigned_unsigned (v : Word w) : (LebString.ofUnsigned v).unsigned = v.toNat :=
  ofDigits_ulebDigits v.toNat

theorem ofSigned_signed (v : Word w) : (LebString.ofSigned v).signed = v.toInt :=
  signedValue_slebDigits v.toInt

/-- A number that fits a word is read right exactly if no byte of it is shifted by the width of a
    word, which is so in the shortest form of every number. -/
theorem leb128_right_iff (size : WordSize w) (stored : Stores as addr s.bytes)
    (here : Stores m.space addr s.bytes) :
    (s.unsigned < 2 ^ w → (UnsignedRight as m addr s ↔ s.Short w)) ∧
      (-2 ^ (w - 1) ≤ s.signed → s.signed < 2 ^ (w - 1) →
        (SignedRight as m addr s ↔ s.Short w)) ∧
      (∀ v : Word w, s = .ofUnsigned v → s.unsigned = v.toNat ∧ UnsignedRight as m addr s) ∧
      ∀ v : Word w, s = .ofSigned v → s.signed = v.toInt ∧ SignedRight as m addr s := by
  refine ⟨unsignedRight_iff stored here, signedRight_iff size stored here, ?_, ?_⟩
  · intro v same
    have value : s.unsigned = v.toNat := by rw [same, ofUnsigned_unsigned]
    refine ⟨value, (unsignedRight_iff stored here ?_).mpr (same ▸ short_ofUnsigned v size)⟩
    rw [value]
    exact v.isLt
  · intro v same
    have least := size.least
    have value : s.signed = v.toInt := by rw [same, ofSigned_signed]
    refine ⟨value, (signedRight_iff size stored here ?_ ?_).mpr (same ▸ short_ofSigned v size)⟩
    · rw [value]
      exact BitVec.le_toInt v
    · rw [value]
      exact BitVec.toInt_lt

end Right

/-! ## Padded numbers -/

/-- So many bytes with the top bit, and zeros behind them. -/
def paddedMemory (padding : Word 64) : LocalMemory 64 where
  bigEndian := false
  byte addr := if addr < padding then 0x80 else 0

theorem replicate_small (n : Nat) : ∀ digit ∈ List.replicate n 0, digit < 128 := by
  intro digit mem
  rw [List.eq_of_mem_replicate mem]
  decide

/-- Zero in so many bytes, and one more. -/
def paddedZero (padding : Nat) : LebString where
  digits := List.replicate (padding + 1) 0
  some := List.cons_ne_nil _ _
  small := replicate_small _

instance decidableStores (as : AddrSpace w) :
    (addr : Word w) → (bytes : List Byte) → Decidable (Stores as addr bytes)
  | _, [] => .isTrue trivial
  | addr, byte :: rest =>
      @instDecidableAnd (as.readByte addr = .ok byte) (Stores as (addr + 1) rest) inferInstance
        (decidableStores as (addr + 1) rest)

/-- Zero in eleven bytes: the last one is shifted by 70 bits. -/
theorem paddedZero_shifts :
    ¬ ∀ (as : AddrSpace 64) (m : LocalMemory 64) (addr : Word 64) (s : LebString),
      Stores as addr s.bytes → Stores m.space addr s.bytes → s.unsigned < 2 ^ 64 →
        UnsignedRight as m addr s := by
  intro always
  have stored : Stores (paddedMemory 10).space 0 (paddedZero 10).bytes := by decide
  obtain ⟨val, -, read, -⟩ :=
    always (paddedMemory 10).space (paddedMemory 10) 0 (paddedZero 10) stored stored (by decide)
  have shifted : readUleb128 (paddedMemory 10).space 0 = .error .undefined := by decide
  rw [shifted] at read
  cases read

/-- In ten bytes it is read. -/
theorem paddedZero_read :
    UnsignedRight (paddedMemory 9).space (paddedMemory 9) 0 (paddedZero 9) := by
  have stored : Stores (paddedMemory 9).space 0 (paddedZero 9).bytes := by decide
  exact ((leb128_right_iff .eight stored stored).1 (by decide)).mpr (by decide)

end Libunwind.Dwarf
