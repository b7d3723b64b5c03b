import Libunwind.Library.Leb128
import Libunwind.Dwarf.ReadDefined

/-! # Encoded pointers

A pointer of `.eh_frame` has a format, in which its value is stored, and an
application, which gives the base that the value is relative to. What is meant
by an encoding is set against what `dwarf_read_encoded_pointer` makes of it.
-/

namespace Libunwind.Dwarf

open Leb128

variable {w : Nat}

/-! ## Stored bytes -/

/-- The bytes from an address on. -/
def Stores (as : AddrSpace w) (addr : Word w) : List Byte → Prop
  | [] => True
  | byte :: rest => as.readByte addr = .ok byte ∧ Stores as (addr + 1) rest

theorem add_ofNat_add (addr : Word w) (m n : Nat) :
    addr + BitVec.ofNat w m + BitVec.ofNat w n = addr + BitVec.ofNat w (m + n) := by
  rw [BitVec.ofNat_add, BitVec.add_assoc]

theorem stores_append {as : AddrSpace w} {addr : Word w} {front back : List Byte} :
    Stores as addr (front ++ back) ↔
      Stores as addr front ∧ Stores as (addr + BitVec.ofNat w front.length) back := by
  induction front generalizing addr with
  | nil => simp [Stores]
  | cons byte rest ih =>
      have next : addr + 1 + BitVec.ofNat w rest.length =
          addr + BitVec.ofNat w (byte :: rest).length := by
        rw [List.length_cons, Nat.add_comm]
        exact add_ofNat_add addr 1 rest.length
      simp only [List.cons_append, Stores, ih, next, and_assoc]

/-- The two halves of a number in the order in which the target stores them. -/
def splitHalves {half : Nat} (bigEndian : Bool) (x : BitVec (half + half)) :
    BitVec half × BitVec half :=
  if bigEndian then (x.extractLsb' half half, x.setWidth half)
  else (x.setWidth half, x.extractLsb' half half)

theorem joinHalves_split (as : AddrSpace w) {half : Nat} (x : BitVec (half + half)) :
    joinHalves as (splitHalves as.bigEndian x).1 (splitHalves as.bigEndian x).2 = x := by
  have join : x.extractLsb' half half ++ x.setWidth half = x := by
    apply BitVec.eq_of_getLsbD_eq
    intro i inside
    rw [BitVec.getLsbD_append, BitVec.getLsbD_setWidth, BitVec.getLsbD_extractLsb']
    by_cases low : i < half
    · simp [low]
    · have high : i - half < half := by omega
      have place : half + (i - half) = i := by omega
      simp [low, high, place]
  rw [joinHalves, splitHalves]
  cases as.bigEndian <;> exact join

/-- The sizes of numbers of a fixed number of bytes. -/
inductive FixedSize where
  | two
  | four
  | eight
  deriving DecidableEq, Repr

namespace FixedSize

@[simp] def bits : FixedSize → Nat
  | two => 16
  | four => 32
  | eight => 64

def bytes16 (bigEndian : Bool) (x : BitVec (8 + 8)) : List Byte :=
  [(splitHalves bigEndian x).1, (splitHalves bigEndian x).2]

def bytes32 (bigEndian : Bool) (x : BitVec (16 + 16)) : List Byte :=
  bytes16 bigEndian (splitHalves bigEndian x).1 ++ bytes16 bigEndian (splitHalves bigEndian x).2

def bytes64 (bigEndian : Bool) (x : BitVec (32 + 32)) : List Byte :=
  bytes32 bigEndian (splitHalves bigEndian x).1 ++ bytes32 bigEndian (splitHalves bigEndian x).2

def bytes (bigEndian : Bool) : (size : FixedSize) → BitVec size.bits → List Byte
  | two => bytes16 bigEndian
  | four => bytes32 bigEndian
  | eight => bytes64 bigEndian

def read (as : AddrSpace w) (addr : Word w) : (size : FixedSize) → Result (BitVec size.bits × Word w)
  | two => readu16 as addr
  | four => readu32 as addr
  | eight => readu64 as addr

section Read

variable {as : AddrSpace w} {addr : Word w}

theorem readu16_bytes {x : BitVec (8 + 8)} (stored : Stores as addr (bytes16 as.bigEndian x)) :
    readu16 as addr = .ok (x, addr + 2) := by
  obtain ⟨first, second, -⟩ := stored
  simp only [readu16, readu8_byte first, readu8_byte second, ok_bind, pure_eq_ok, joinHalves_split]
  exact congrArg (fun next => Except.ok (x, next)) (add_ofNat_add addr 1 1)

theorem readu32_bytes {x : BitVec (16 + 16)} (stored : Stores as addr (bytes32 as.bigEndian x)) :
    readu32 as addr = .ok (x, addr + 4) := by
  obtain ⟨front, back⟩ := stores_append.mp stored
  have second : readu16 as (addr + 2) = _ := readu16_bytes back
  simp only [readu32, readu16_bytes front, second, ok_bind, pure_eq_ok, joinHalves_split]
  exact congrArg (fun next => Except.ok (x, next)) (add_ofNat_add addr 2 2)

theorem readu64_bytes {x : BitVec (32 + 32)} (stored : Stores as addr (bytes64 as.bigEndian x)) :
    readu64 as addr = .ok (x, addr + 8) := by
  obtain ⟨front, back⟩ := stores_append.mp stored
  have second : readu32 as (addr + 4) = _ := readu32_bytes back
  simp only [readu64, readu32_bytes front, second, ok_bind, pure_eq_ok, joinHalves_split]
  exact congrArg (fun next => Except.ok (x, next)) (add_ofNat_add addr 4 4)

theorem read_bytes {size : FixedSize} {x : BitVec size.bits}
    (stored : Stores as addr (size.bytes as.bigEndian x)) :
    size.read as addr = .ok (x, addr + BitVec.ofNat w (size.bits / 8)) := by
  cases size with
  | two => exact readu16_bytes stored
  | four => exact readu32_bytes stored
  | eight => exact readu64_bytes stored

end Read

theorem length_bytes (bigEndian : Bool) {size : FixedSize} (x : BitVec size.bits) :
    (size.bytes bigEndian x).length = size.bits / 8 := by
  cases size <;> simp [bytes, bytes64, bytes32, bytes16]

end FixedSize

/-! ## LEB128 numbers in memory -/

section Leb

variable {as : AddrSpace w}

/-- The digits are read if the shift of the last one is below the width of a
    word. -/
theorem readLeb128_encode {digits : List Nat} (some : digits ≠ [])
    (small : ∀ digit ∈ digits, digit < 128) {rounds shift : Nat} (addr val : Word w)
    (stored : Stores as addr (encode digits)) (enough : w + 7 ≤ shift + 7 * rounds)
    (positive : 0 < rounds) :
    (shift + 7 * (digits.length - 1) < w →
      readLeb128 as rounds addr val shift =
        .ok (val ||| (BitVec.ofNat w (Nat.ofDigits 128 digits) <<< shift),
          shift + 7 * digits.length, BitVec.ofNat 8 (digits.getLastD 0),
          addr + BitVec.ofNat w digits.length)) ∧
    (w ≤ shift + 7 * (digits.length - 1) →
      readLeb128 as rounds addr val shift = .error .undefined) := by
  induction digits using encode.induct generalizing rounds shift addr val with
  | case1 => exact absurd rfl some
  | case2 digit =>
      obtain ⟨rounds, rfl⟩ := Nat.exists_eq_succ_of_ne_zero positive.ne'
      obtain ⟨low, high⟩ := last_byte (small digit List.mem_cons_self)
      rw [readLeb128, readu8_byte stored.1, ok_bind]
      constructor
      · intro fits
        have inside : ¬ w ≤ shift := by simpa using fits
        simp only [if_neg inside, high, ne_eq, not_true, if_false,
          widen_digit (small digit List.mem_cons_self) low, pure_eq_ok, Nat.ofDigits_singleton]
        rfl
      · intro wide
        exact if_pos (by simpa using wide)
  | case3 digit rest notLast ih =>
      obtain ⟨rounds, rfl⟩ := Nat.exists_eq_succ_of_ne_zero positive.ne'
      have isDigit := small digit List.mem_cons_self
      obtain ⟨low, high⟩ := continued_byte isDigit
      have someRest : rest ≠ [] := notLast
      have length : 0 < rest.length := List.length_pos_iff.mpr someRest
      have final : (digit :: rest).getLastD 0 = rest.getLastD 0 := by
        cases rest with
        | nil => exact absurd rfl someRest
        | cons next rest => simp only [List.getLastD_cons]
      rw [encode_cons someRest] at stored
      rw [readLeb128, readu8_byte stored.1, ok_bind]
      by_cases wide : w ≤ shift
      · refine ⟨fun fits => ?_, fun _ => if_pos wide⟩
        omega
      · simp only [if_neg wide, if_pos high, widen_digit isDigit low]
        have step : shift + 7 * ((digit :: rest).length - 1) = shift + 7 + 7 * (rest.length - 1) := by
          rw [List.length_cons]
          omega
        obtain ⟨read, undefined⟩ := ih someRest (fun d mem => small d (.tail _ mem)) (addr + 1)
          (val ||| (BitVec.ofNat w digit <<< shift)) stored.2
          (show w + 7 ≤ shift + 7 + 7 * rounds by omega) (by omega)
        rw [step]
        refine ⟨fun fits => ?_, undefined⟩
        have next : addr + 1 + BitVec.ofNat w rest.length =
            addr + BitVec.ofNat w (digit :: rest).length := by
          rw [List.length_cons, Nat.add_comm]
          exact add_ofNat_add addr 1 rest.length
        have shifts : shift + 7 + 7 * rest.length = shift + 7 * (digit :: rest).length := by
          rw [List.length_cons]
          omega
        rw [read fits, or_digits isDigit, next, shifts, final]
        rfl

theorem readUleb128_encode {digits : List Nat} (some : digits ≠ [])
    (small : ∀ digit ∈ digits, digit < 128) {addr : Word w} (stored : Stores as addr (encode digits)) :
    readUleb128 as addr =
      if 7 * (digits.length - 1) < w then
        .ok (BitVec.ofNat w (Nat.ofDigits 128 digits), addr + BitVec.ofNat w digits.length)
      else .error .undefined := by
  obtain ⟨read, undefined⟩ := readLeb128_encode some small addr 0 stored
    (show w + 7 ≤ 0 + 7 * (w + 1) by omega) (Nat.succ_pos w)
  rw [Nat.zero_add] at read undefined
  rw [readUleb128]
  by_cases fits : 7 * (digits.length - 1) < w
  · rw [if_pos fits, read fits]
    simp
  · rw [if_neg fits, undefined (by omega)]
    rfl

/-- The sign of a last digit. -/
theorem sign_bit {digit : Nat} (small : digit < 128) :
    BitVec.ofNat 8 digit &&& 0x40 ≠ 0 ↔ 64 ≤ digit := by
  revert digit
  decide

theorem readSleb128_encode (bytes : 8 * (w / 8) = w) {digits : List Nat} (some : digits ≠ [])
    (small : ∀ digit ∈ digits, digit < 128) {addr : Word w} (stored : Stores as addr (encode digits)) :
    readSleb128 as addr =
      if 7 * (digits.length - 1) < w then
        .ok (BitVec.ofInt w (signedValue digits), addr + BitVec.ofNat w digits.length)
      else .error .undefined := by
  obtain ⟨read, undefined⟩ := readLeb128_encode some small addr 0 stored
    (show w + 7 ≤ 0 + 7 * (w + 1) by omega) (Nat.succ_pos w)
  rw [Nat.zero_add] at read undefined
  rw [readSleb128]
  by_cases fits : 7 * (digits.length - 1) < w
  · have final : digits.getLastD 0 < 128 := by
      rw [List.getLastD_eq_getLast?, List.getLast?_eq_some_getLast some]
      exact small _ (List.getLast_mem some)
    have bound := ofDigits_lt small
    have power : (128 : Int) ^ digits.length = 2 ^ (7 * digits.length) := by
      rw [pow_mul]
      norm_num
    have bits : Nat.ofDigits 128 digits < 2 ^ (7 * digits.length) := by
      rw [Nat.pow_mul]
      exact bound
    have digitsOnly : (0 : Word w) ||| BitVec.ofNat w (Nat.ofDigits 128 digits) <<< 0 =
        BitVec.ofNat w (Nat.ofDigits 128 digits) := by simp
    rw [if_pos fits, read fits]
    simp only [ok_bind, pure_eq_ok, Nat.zero_add, digitsOnly, bytes, sign_bit final, signedValue]
    by_cases negative : 64 ≤ digits.getLastD 0
    · rw [if_pos negative, power, ← or_sign bits]
      by_cases inside : 7 * digits.length < w
      · rw [if_pos ⟨inside, negative⟩]
      · -- all bits of the word are there
        rw [if_neg (by omega), BitVec.shiftLeft_eq_zero (by omega)]
        simp
    · rw [if_neg negative, if_neg (by omega)]
      simp
  · rw [if_neg fits, undefined (by omega)]
    rfl

end Leb

/-! ## Encodings -/

inductive PointerFormat where
  | ptr
  | uleb128
  | udata (size : FixedSize)
  | sleb128
  | sdata (size : FixedSize)
  deriving DecidableEq, Repr

namespace PointerFormat

/-- The low nibble of the encoding byte. -/
def code : PointerFormat → Byte
  | ptr => 0x00
  | uleb128 => 0x01
  | udata .two => 0x02
  | udata .four => 0x03
  | udata .eight => 0x04
  | sleb128 => 0x09
  | sdata .two => 0x0a
  | sdata .four => 0x0b
  | sdata .eight => 0x0c

/-- The values that the format has an encoding for. -/
def Represents (w : Nat) (v : Int) : PointerFormat → Prop
  | ptr => 0 ≤ v ∧ v < 2 ^ w
  | uleb128 => 0 ≤ v
  | udata size => 0 ≤ v ∧ v < 2 ^ size.bits
  | sleb128 => True
  | sdata size => -(2 ^ (size.bits - 1)) ≤ v ∧ v < 2 ^ (size.bits - 1)

/-- The canonical encoding of a value. -/
def bytes (w : Nat) (bigEndian : Bool) (v : Int) : PointerFormat → List Byte
  | ptr => if w = 32 then FixedSize.four.bytes bigEndian (BitVec.ofInt 32 v)
      else FixedSize.eight.bytes bigEndian (BitVec.ofInt 64 v)
  | uleb128 => encode (ulebDigits v.toNat)
  | udata size => size.bytes bigEndian (BitVec.ofInt size.bits v)
  | sleb128 => encode (slebDigits v)
  | sdata size => size.bytes bigEndian (BitVec.ofInt size.bits v)

/-- The reader that the format selects. -/
def read (as : AddrSpace w) (addr : Word w) : PointerFormat → Result (Word w × Word w)
  | ptr => readw as addr
  | uleb128 => readUleb128 as addr
  | udata size => do
      let (value, addr) ← size.read as addr
      pure (value.setWidth w, addr)
  | sleb128 => readUleb128 as addr
  | sdata size => do
      let (value, addr) ← size.read as addr
      pure (value.signExtend w, addr)

theorem readPointerFormat_eq {as : AddrSpace w} {addr : Word w} {encoding : Byte}
    {format : PointerFormat} (code : encoding &&& ehPeFormatMask = format.code) :
    readPointerFormat as addr encoding = format.read as addr := by
  rw [readPointerFormat, code]
  cases format with
  | ptr => rfl
  | uleb128 => rfl
  | udata size => cases size <;> rfl
  | sleb128 => rfl
  | sdata size => cases size <;> rfl

end PointerFormat

inductive Application where
  | absptr
  | pcrel
  | datarel
  | funcrel
  deriving DecidableEq, Repr

namespace Application

def code : Application → Byte
  | absptr => 0x00
  | pcrel => 0x10
  | datarel => 0x30
  | funcrel => 0x40

/-- What a value is relative to. -/
def base (addr : Word w) (pi : ProcInfo w) : Application → Word w
  | absptr => 0
  | pcrel => addr
  | datarel => pi.gp
  | funcrel => pi.startIp

end Application

/-- The encoding byte. -/
def encodingOf (format : PointerFormat) (application : Application) (indirect : Bool) : Byte :=
  format.code ||| application.code ||| (if indirect then ehPeIndirect else 0)

section Masks

variable (format : PointerFormat) (application : Application) (indirect : Bool)

theorem encodingOf_format :
    encodingOf format application indirect &&& ehPeFormatMask = format.code := by
  cases application <;> cases indirect <;> cases format
  all_goals first | rfl | (rename_i size; cases size <;> rfl)

theorem encodingOf_application :
    encodingOf format application indirect &&& ehPeApplMask = application.code := by
  cases application <;> cases indirect <;> cases format
  all_goals first | rfl | (rename_i size; cases size <;> rfl)

theorem encodingOf_indirect :
    encodingOf format application indirect &&& ehPeIndirect ≠ 0 ↔ indirect = true := by
  cases application <;> cases indirect <;> cases format
  all_goals first | decide | (rename_i size; cases size <;> decide)

theorem encodingOf_ne_omit : encodingOf format application indirect ≠ ehPeOmit := by
  cases application <;> cases indirect <;> cases format
  all_goals first | decide | (rename_i size; cases size <;> decide)

theorem encodingOf_ne_aligned : encodingOf format application indirect ≠ ehPeAligned := by
  cases application <;> cases indirect <;> cases format
  all_goals first | decide | (rename_i size; cases size <;> decide)

end Masks

/-- A pointer that is stored in its canonical encoding. -/
structure StoredPointer (w : Nat) where
  wordSize : WordSize w
  as : AddrSpace w
  addr : Word w
  format : PointerFormat
  application : Application
  indirect : Bool
  value : Int
  represented : format.Represents w value
  stored : Stores as addr (format.bytes w as.bigEndian value)

namespace StoredPointer

def encoding (p : StoredPointer w) : Byte := encodingOf p.format p.application p.indirect

def length (p : StoredPointer w) : Nat := (p.format.bytes w p.as.bigEndian p.value).length

/-- The word at a place, if the encoding says that the pointer is there. -/
def follow (p : StoredPointer w) (place : Word w) : Result (Word w) :=
  if p.indirect then do
    let (target, _) ← readw p.as place
    pure target
  else pure place

/-- What the encoding means: the value relative to the base, and 0 always itself. -/
def meaning (p : StoredPointer w) (pi : ProcInfo w) : Result (Word w) :=
  if p.value = 0 then pure 0
  else p.follow (BitVec.ofInt w p.value + p.application.base p.addr pi)

/-- Reading the pointer yields what it means, and advances by its length. -/
def Decoded (p : StoredPointer w) (pi : ProcInfo w) : Prop :=
  readEncodedPointer p.as p.addr p.encoding pi = (do
    let pointer ← p.meaning pi
    pure (pointer, p.addr + BitVec.ofNat w p.length))

/-- A number whose length varies. -/
def IsLeb (p : StoredPointer w) : Prop := p.format = .uleb128 ∨ p.format = .sleb128

instance (p : StoredPointer w) : Decidable p.IsLeb := inferInstanceAs (Decidable (_ ∨ _))

/-- The bits of the number as they are read. -/
def raw (p : StoredPointer w) : Word w :=
  if p.format = .sleb128 then BitVec.ofInt w (p.value % 128 ^ p.length) else BitVec.ofInt w p.value

/-- No digit of a LEB128 number lies above the word. -/
def DigitsFit (p : StoredPointer w) : Prop := p.IsLeb → 7 * (p.length - 1) < w

instance (p : StoredPointer w) : Decidable p.DigitsFit := inferInstanceAs (Decidable (_ → _))

end StoredPointer

theorem setWidth_ofInt {bits : Nat} {v : Int} (nonneg : 0 ≤ v) (small : v < 2 ^ bits) :
    (BitVec.ofInt bits v).setWidth w = BitVec.ofInt w v := by
  obtain ⟨n, rfl⟩ := Int.eq_ofNat_of_zero_le nonneg
  have below : n < 2 ^ bits := by exact_mod_cast small
  rw [BitVec.ofInt_natCast, BitVec.ofInt_natCast]
  apply BitVec.eq_of_toNat_eq
  rw [BitVec.toNat_setWidth, BitVec.toNat_ofNat, BitVec.toNat_ofNat, Nat.mod_eq_of_lt below]

theorem signExtend_ofInt {bits : Nat} {v : Int} (some : 0 < bits) (large : -(2 ^ (bits - 1)) ≤ v)
    (small : v < 2 ^ (bits - 1)) : (BitVec.ofInt bits v).signExtend w = BitVec.ofInt w v := by
  have split : (2 : Int) ^ bits = 2 * 2 ^ (bits - 1) := by
    rw [← pow_succ', Nat.sub_add_cancel some]
  rw [BitVec.signExtend, BitVec.toInt_ofInt]
  congr 1
  apply Int.bmod_eq_of_le
  · push_cast
    omega
  · push_cast
    omega

theorem ofInt_ne_zero {v : Int} (notZero : v ≠ 0) (lower : -(2 ^ w) < v) (upper : v < 2 ^ w) :
    BitVec.ofInt w v ≠ 0 := by
  intro zero
  have low : (v % (2 ^ w : Nat)).toNat = 0 := by
    rw [← BitVec.toNat_ofInt, zero]
    exact BitVec.toNat_zero
  have nonneg : 0 ≤ v % (2 ^ w : Nat) := Int.emod_nonneg v (by positivity)
  have divides : ((2 ^ w : Nat) : Int) ∣ v := by
    apply Int.dvd_of_emod_eq_zero
    omega
  apply notZero
  apply Int.eq_zero_of_abs_lt_dvd divides
  push_cast
  exact abs_lt.mpr ⟨lower, upper⟩

/-- A result is known by itself and the place behind it. -/
theorem bind_pair_inj {α : Type} {r r' : Result α} {next : Word w} :
    ((do let a ← r; pure (a, next)) : Result (α × Word w)) = (do let a ← r'; pure (a, next)) ↔
      r = r' := by
  constructor
  · intro same
    cases r with
    | ok a =>
        cases r' with
        | ok b =>
            cases same
            rfl
        | error e => cases same
    | error e =>
        cases r' with
        | ok b => cases same
        | error e' =>
            cases same
            rfl
  · intro same
    rw [same]

namespace StoredPointer

/-- The value of a format of fixed size is read as it is. -/
theorem read_fixed (p : StoredPointer w) (fixed : ¬ p.IsLeb) :
    p.format.read p.as p.addr =
      .ok (BitVec.ofInt w p.value, p.addr + BitVec.ofNat w p.length) := by
  obtain ⟨wordSize, as, addr, format, application, indirect, v, represented, stored⟩ := p
  simp only [length]
  cases format with
  | ptr =>
      cases wordSize with
      | inl narrow =>
          subst narrow
          have read : readu32 as addr = .ok (BitVec.ofInt 32 v, addr + 4) :=
            FixedSize.readu32_bytes stored
          have result : readw as addr = .ok (BitVec.ofInt 32 v, addr + 4) := by
            simp [readw, read]
          have length := @FixedSize.length_bytes as.bigEndian .four (BitVec.ofInt 32 v)
          rw [PointerFormat.read, result]
          simp [PointerFormat.bytes, length]
      | inr wide =>
          subst wide
          have read : readu64 as addr = .ok (BitVec.ofInt 64 v, addr + 8) :=
            FixedSize.readu64_bytes stored
          have result : readw as addr = .ok (BitVec.ofInt 64 v, addr + 8) := by
            simp [readw, read]
          have length := @FixedSize.length_bytes as.bigEndian .eight (BitVec.ofInt 64 v)
          rw [PointerFormat.read, result]
          simp [PointerFormat.bytes, length]
  | uleb128 => exact absurd (.inl rfl) fixed
  | udata size =>
      rw [PointerFormat.read, FixedSize.read_bytes stored, ok_bind, PointerFormat.bytes,
        FixedSize.length_bytes]
      simp only [setWidth_ofInt represented.1 represented.2]
      rfl
  | sleb128 => exact absurd (.inr rfl) fixed
  | sdata size =>
      have some : 0 < size.bits := by cases size <;> decide
      rw [PointerFormat.read, FixedSize.read_bytes stored, ok_bind, PointerFormat.bytes,
        FixedSize.length_bytes]
      simp only [signExtend_ofInt some represented.1 represented.2]
      rfl

/-- The digits of a LEB128 number are read as those of an unsigned one. -/
theorem read_leb (p : StoredPointer w) (leb : p.IsLeb) :
    p.format.read p.as p.addr =
      if 7 * (p.length - 1) < w then .ok (p.raw, p.addr + BitVec.ofNat w p.length)
      else .error .undefined := by
  obtain ⟨wordSize, as, addr, format, application, indirect, v, represented, stored⟩ := p
  cases format with
  | ptr => simp [IsLeb] at leb
  | uleb128 =>
      have digits := readUleb128_encode (ulebDigits_ne_nil _) (fun _ => ulebDigits_lt) stored
      obtain ⟨n, rfl⟩ := Int.eq_ofNat_of_zero_le represented
      rw [ofDigits_ulebDigits, ← length_encode] at digits
      simpa [length, raw, PointerFormat.read, PointerFormat.bytes] using digits
  | udata size => simp [IsLeb] at leb
  | sleb128 =>
      have digits := readUleb128_encode (slebDigits_ne_nil _) slebDigits_lt stored
      have value := congrArg (BitVec.ofInt w) (ofDigits_slebDigits v)
      rw [BitVec.ofInt_natCast, ← length_encode] at value
      rw [value, ← length_encode] at digits
      simpa [length, raw, PointerFormat.read, PointerFormat.bytes] using digits
  | sdata size => simp [IsLeb] at leb

theorem read_eq (p : StoredPointer w) :
    p.format.read p.as p.addr =
      if p.DigitsFit then .ok (p.raw, p.addr + BitVec.ofNat w p.length)
      else .error .undefined := by
  by_cases leb : p.IsLeb
  · simp [read_leb p leb, DigitsFit, leb]
  · have notSleb : p.format ≠ .sleb128 := fun isSleb => leb (.inr isSleb)
    simp [read_fixed p leb, DigitsFit, leb, raw, notSleb]

theorem applyEncoding_eq (p : StoredPointer w) (pi : ProcInfo w) (val : Word w) :
    applyEncoding p.as p.addr p.encoding pi val =
      if val = 0 then pure 0 else p.follow (val + p.application.base p.addr pi) := by
  have base : pointerBase p.addr p.encoding pi = .ok (p.application.base p.addr pi) := by
    rw [pointerBase, encoding, encodingOf_application]
    cases p.application <;> rfl
  rw [applyEncoding, base, follow]
  simp only [ok_bind, encoding, encodingOf_indirect]

theorem follow_defined (p : StoredPointer w) (place : Word w) : Defined (p.follow place) :=
  .ite (fun _ => (p.wordSize.readw_defined _ _).bind fun _ _ => .ok _) fun _ => .ok _

theorem meaning_defined (p : StoredPointer w) (pi : ProcInfo w) : Defined (p.meaning pi) :=
  .ite (fun _ => .ok _) fun _ => p.follow_defined _

/-- What the source makes of the bits. -/
def found (p : StoredPointer w) (pi : ProcInfo w) : Result (Word w) :=
  if p.raw = 0 then pure 0 else p.follow (p.raw + p.application.base p.addr pi)

theorem readEncodedPointer_eq (p : StoredPointer w) (pi : ProcInfo w) :
    readEncodedPointer p.as p.addr p.encoding pi =
      if p.DigitsFit then (do
        let pointer ← p.found pi
        pure (pointer, p.addr + BitVec.ofNat w p.length))
      else .error .undefined := by
  have format : readPointerFormat p.as p.addr p.encoding = p.format.read p.as p.addr :=
    PointerFormat.readPointerFormat_eq (encodingOf_format _ _ _)
  have notOmit : p.encoding ≠ ehPeOmit := encodingOf_ne_omit _ _ _
  have notAligned : p.encoding ≠ ehPeAligned := encodingOf_ne_aligned _ _ _
  rw [readEncodedPointer, if_neg notOmit, if_neg notAligned, format, read_eq]
  by_cases fits : p.DigitsFit
  · rw [if_pos fits, if_pos fits, ok_bind]
    simp only [applyEncoding_eq, found]
  · rw [if_neg fits, if_neg fits, error_bind]

/-! ## When the meaning is found -/

/-- The number is negative, and its bits end below the top of the word. -/
def NarrowNegative (p : StoredPointer w) : Prop :=
  p.format = .sleb128 ∧ p.value < 0 ∧ 7 * p.length < w

/-- The digits fit; a value whose bits all lie above the word has no base, and a
    number that is negative fills the word — or there is another pointer to go
    through, and the same word at both places. -/
structure WellRead (p : StoredPointer w) (pi : ProcInfo w) : Prop where
  digitsFit : p.DigitsFit
  highBits : p.value ≠ 0 → BitVec.ofInt w p.value = 0 →
    p.follow (p.application.base p.addr pi) = .ok 0
  negative : p.NarrowNegative →
    p.follow (BitVec.ofInt w (p.value % 128 ^ p.length) + p.application.base p.addr pi) =
      p.follow (BitVec.ofInt w p.value + p.application.base p.addr pi)

theorem value_bounds (p : StoredPointer w) (sleb : p.format = .sleb128) :
    -(128 ^ p.length : Int) ≤ 2 * p.value ∧ 2 * p.value < 128 ^ p.length := by
  have length : p.length = (slebDigits p.value).length := by
    rw [StoredPointer.length, sleb, PointerFormat.bytes, length_encode]
  rw [length]
  exact slebDigits_bounds p.value

/-- The bits are those of the value, but for the sign of a narrow negative number. -/
theorem raw_eq (p : StoredPointer w) (notNarrow : ¬ p.NarrowNegative) :
    p.raw = BitVec.ofInt w p.value := by
  rw [raw]
  by_cases sleb : p.format = .sleb128
  · rw [if_pos sleb]
    obtain ⟨lower, upper⟩ := p.value_bounds sleb
    by_cases nonneg : 0 ≤ p.value
    · rw [Int.emod_eq_of_lt nonneg (by omega)]
    · have wide : w ≤ 7 * p.length := by
        by_contra narrow
        exact notNarrow ⟨sleb, by omega, by omega⟩
      have divides : ((2 ^ w : Nat) : Int) ∣ 128 ^ p.length := by
        rw [show (128 : Int) = 2 ^ 7 from rfl, ← pow_mul]
        exact_mod_cast pow_dvd_pow 2 wide
      apply BitVec.eq_of_toNat_eq
      rw [BitVec.toNat_ofInt, BitVec.toNat_ofInt, Int.emod_emod_of_dvd _ divides]
  · rw [if_neg sleb]

/-- A narrow negative number is not read as 0. -/
theorem NarrowNegative.ne_zero {p : StoredPointer w} (narrow : p.NarrowNegative) :
    p.raw ≠ 0 ∧ BitVec.ofInt w p.value ≠ 0 := by
  obtain ⟨sleb, negative, short⟩ := narrow
  obtain ⟨lower, -⟩ := p.value_bounds sleb
  have small : (128 : Int) ^ p.length < 2 ^ w := by
    rw [show (128 : Int) = 2 ^ 7 from rfl, ← pow_mul]
    exact pow_lt_pow_right₀ (by decide) short
  have complement : p.value % 128 ^ p.length = p.value + 128 ^ p.length := by
    rw [← Int.add_emod_right]
    exact Int.emod_eq_of_lt (by omega) (by omega)
  rw [raw, if_pos sleb, complement]
  exact ⟨ofInt_ne_zero (by omega) (by omega) (by omega),
    ofInt_ne_zero (by omega) (by omega) (by omega)⟩

theorem found_eq_meaning_iff (p : StoredPointer w) (pi : ProcInfo w) (fits : p.DigitsFit) :
    p.found pi = p.meaning pi ↔ p.WellRead pi := by
  by_cases zero : p.value = 0
  · have notNarrow : ¬ p.NarrowNegative := fun narrow => by
      have negative := narrow.2.1
      omega
    have rawZero : p.raw = 0 := by simp [p.raw_eq notNarrow, zero]
    rw [found, meaning, if_pos rawZero, if_pos zero]
    exact iff_of_true rfl ⟨fits, fun notZero => absurd zero notZero,
      fun narrow => absurd narrow notNarrow⟩
  · by_cases narrow : p.NarrowNegative
    · obtain ⟨rawNotZero, notZero⟩ := narrow.ne_zero
      have isRaw : p.raw = BitVec.ofInt w (p.value % 128 ^ p.length) := by
        rw [raw, if_pos narrow.1]
      rw [found, meaning, if_neg rawNotZero, if_neg zero, isRaw]
      constructor
      · intro same
        exact ⟨fits, fun _ high => absurd high notZero, fun _ => same⟩
      · intro well
        exact well.negative narrow
    · rw [found, meaning, if_neg zero, p.raw_eq narrow]
      by_cases high : BitVec.ofInt w p.value = 0
      · rw [if_pos high, high, zero_add]
        constructor
        · intro same
          exact ⟨fits, fun _ _ => same.symm, fun isNarrow => absurd isNarrow narrow⟩
        · intro well
          exact (well.highBits zero high).symm
      · rw [if_neg high]
        exact iff_of_true rfl ⟨fits, fun _ isHigh => absurd isHigh high,
          fun isNarrow => absurd isNarrow narrow⟩

/-- Exactly when a canonical encoding is read as what it means. -/
theorem decoded_iff (p : StoredPointer w) (pi : ProcInfo w) : p.Decoded pi ↔ p.WellRead pi := by
  rw [Decoded, readEncodedPointer_eq]
  by_cases fits : p.DigitsFit
  · rw [if_pos fits, bind_pair_inj]
    exact p.found_eq_meaning_iff pi fits
  · rw [if_neg fits]
    constructor
    · intro same
      have isDefined := (p.meaning_defined pi).bind
        fun pointer _ => Defined.ok (pointer, p.addr + BitVec.ofNat w p.length)
      exact absurd same.symm isDefined
    · intro well
      exact absurd well.digitsFit fits

end StoredPointer

/-! The number -1 as a single signed digit, at address 1. -/
namespace SignedDigit

theorem digits : slebDigits (-1) = [0x7f] := by
  rw [slebDigits, if_pos (by decide)]
  rfl

def pointer : StoredPointer 64 where
  wordSize := .inr rfl
  as := spaceOfBytes 64 [0, 0x7f]
  addr := 1
  format := .sleb128
  application := .absptr
  indirect := false
  value := -1
  represented := trivial
  stored := by
    rw [PointerFormat.bytes, digits]
    exact ⟨rfl, trivial⟩

theorem not_sign_extended :
    readEncodedPointer pointer.as pointer.addr pointer.encoding {} = .ok (0x7f, 2) ∧
      pointer.meaning {} = .ok (-1) ∧ ¬ pointer.Decoded {} := by
  have read : readEncodedPointer pointer.as pointer.addr pointer.encoding {} = .ok (0x7f, 2) := rfl
  have meant : pointer.meaning {} = .ok (-1) := rfl
  refine ⟨read, meant, fun decoded => ?_⟩
  rw [StoredPointer.Decoded, read, meant, ok_bind] at decoded
  cases decoded

end SignedDigit

end Libunwind.Dwarf
