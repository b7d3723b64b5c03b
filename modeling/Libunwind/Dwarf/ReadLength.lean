import Libunwind.Dwarf.Reader

/-! # How far the readers go

The number of bytes that each reader takes, as a function of what is stored at the address.
An address that is advanced by as many bytes wraps where the address space ends.
-/

namespace Libunwind.Dwarf

variable {w : Nat} {as : AddrSpace w}

/-- What is read lies in the next `length` bytes. -/
def Takes {α : Type} (length : Nat) (addr : Word w) (r : Result (α × Word w)) : Prop :=
  ∀ a next, r = .ok (a, next) → next = addr + BitVec.ofNat w length

section Takes

variable {α β : Type} {length : Nat} {addr : Word w}

theorem Takes.ok (a : α) : Takes 0 addr (.ok (a, addr) : Result (α × Word w)) := by
  intro a' next same
  cases same
  simp

theorem Takes.error {e : Fault} : Takes length addr (.error e : Result (α × Word w)) := by
  intro a next same
  cases same

theorem Takes.bind {first : Result (α × Word w)} {rest : α × Word w → Result (β × Word w)}
    {more : Nat} (takes : Takes length addr first)
    (later : ∀ a, first = .ok (a, addr + BitVec.ofNat w length) →
      Takes more (addr + BitVec.ofNat w length) (rest (a, addr + BitVec.ofNat w length))) :
    Takes (length + more) addr (first >>= rest) := by
  intro b next same
  obtain ⟨⟨a, between⟩, start, last⟩ := bind_eq_ok.mp same
  cases takes a between start
  rw [later a start b next last, BitVec.add_assoc, BitVec.ofNat_add]

/-- What is made of the value takes no more. -/
theorem Takes.map {first : Result (α × Word w)} {rest : α × Word w → Result (β × Word w)}
    (takes : Takes length addr first) (f : α → β)
    (same : ∀ a next, rest (a, next) = .ok (f a, next)) : Takes length addr (first >>= rest) := by
  intro b next ended
  obtain ⟨⟨a, between⟩, start, last⟩ := bind_eq_ok.mp ended
  rw [same] at last
  cases last
  exact takes a _ start

end Takes

/-! ## Numbers of a fixed size -/

theorem readu8_takes (addr : Word w) : Takes 1 addr (readu8 as addr) := by
  intro byte next read
  obtain ⟨value, -, last⟩ := bind_eq_ok.mp read
  cases last
  rfl

theorem readu16_takes (addr : Word w) : Takes 2 addr (readu16 as addr) := by
  have both : Takes (1 + 1) addr (readu16 as addr) :=
    (readu8_takes addr).bind fun _ _ => (readu8_takes _).map _ fun _ _ => rfl
  exact both

theorem readu32_takes (addr : Word w) : Takes 4 addr (readu32 as addr) := by
  have both : Takes (2 + 2) addr (readu32 as addr) :=
    (readu16_takes addr).bind fun _ _ => (readu16_takes _).map _ fun _ _ => rfl
  exact both

theorem readu64_takes (addr : Word w) : Takes 8 addr (readu64 as addr) := by
  have both : Takes (4 + 4) addr (readu64 as addr) :=
    (readu32_takes addr).bind fun _ _ => (readu32_takes _).map _ fun _ _ => rfl
  exact both

theorem readw_takes (addr : Word w) : Takes (w / 8) addr (readw as addr) := by
  rw [readw]
  split
  · rename_i size
    rw [size]
    exact (readu32_takes addr).map _ fun _ _ => rfl
  · rename_i size
    rw [size]
    exact (readu64_takes addr).map _ fun _ _ => rfl
  · exact .error

/-! ## LEB128 numbers -/

/-- The bytes of a LEB128 number, of which only the last has a clear top bit. -/
def lebLength (as : AddrSpace w) : Nat → Word w → Nat
  | 0, _ => 0
  | rounds + 1, addr =>
      match as.readByte addr with
      | .ok byte => if byte &&& 0x80 ≠ 0 then 1 + lebLength as rounds (addr + 1) else 1
      | .error _ => 0

theorem readLeb128_takes {rounds : Nat} {addr val result next : Word w} {shift final : Nat}
    {last : Byte} (read : readLeb128 as rounds addr val shift = .ok (result, final, last, next)) :
    next = addr + BitVec.ofNat w (lebLength as rounds addr) := by
  induction rounds generalizing addr val shift with
  | zero => cases read
  | succ rounds ih =>
      rw [readLeb128] at read
      obtain ⟨⟨byte, after⟩, first, read⟩ := bind_eq_ok.mp read
      obtain ⟨byte', stored, same⟩ := bind_eq_ok.mp first
      cases same
      have stored : as.readByte addr = .ok byte := by
        cases answer : as.readByte addr with
        | ok value => simpa [answer] using stored
        | error code => simp [answer] at stored
      rw [lebLength, stored]
      by_cases wide : w ≤ shift
      · simp [wide] at read
      · simp only [if_neg wide] at read
        by_cases more : byte &&& 0x80 ≠ 0
        · simp only [more, ne_eq, not_false_eq_true, if_true] at read ⊢
          rw [ih read, BitVec.add_assoc, BitVec.ofNat_add]
          rfl
        · simp only [more, if_false] at read ⊢
          cases read
          rfl

/-- The bytes of a LEB128 operand. -/
def operandLength (as : AddrSpace w) (addr : Word w) : Nat := lebLength as (w + 1) addr

theorem readUleb128_takes (addr : Word w) :
    Takes (operandLength as addr) addr (readUleb128 as addr) := by
  intro val next read
  obtain ⟨⟨_, _, _, after⟩, leb, last⟩ := bind_eq_ok.mp read
  cases last
  exact readLeb128_takes leb

theorem readSleb128_takes (addr : Word w) :
    Takes (operandLength as addr) addr (readSleb128 as addr) := by
  intro val next read
  obtain ⟨⟨value, shift, byte, after⟩, leb, last⟩ := bind_eq_ok.mp read
  rw [operandLength, ← readLeb128_takes leb]
  by_cases extend : shift < 8 * (w / 8) ∧ byte &&& 0x40 ≠ 0
  · simp only [if_pos extend] at last
    cases last
    rfl
  · simp only [if_neg extend] at last
    cases last
    rfl

/-! ## Encoded pointers -/

/-- The bytes of a pointer's value. -/
def formatLength (as : AddrSpace w) (addr : Word w) (encoding : Byte) : Nat :=
  match (encoding &&& ehPeFormatMask).toNat with
  | 0x00 => w / 8
  | 0x01 => operandLength as addr
  | 0x02 => 2
  | 0x03 => 4
  | 0x04 => 8
  | 0x09 => operandLength as addr
  | 0x0a => 2
  | 0x0b => 4
  | 0x0c => 8
  | _ => 0

/-- The bytes up to the end of an encoded pointer. -/
def pointerLength (as : AddrSpace w) (addr : Word w) (encoding : Byte) : Nat :=
  if encoding = ehPeOmit then 0
  else if encoding = ehPeAligned then
    let size := BitVec.ofNat w (w / 8)
    (((addr + size - 1) &&& -size) - addr).toNat + w / 8
  else formatLength as addr encoding

theorem readPointerFormat_takes (addr : Word w) (encoding : Byte) :
    Takes (formatLength as addr encoding) addr (readPointerFormat as addr encoding) := by
  rw [readPointerFormat, formatLength]
  generalize (encoding &&& ehPeFormatMask).toNat = format
  split
  · exact readw_takes addr
  · exact readUleb128_takes addr
  · exact (readu16_takes addr).map _ fun _ _ => rfl
  · exact (readu32_takes addr).map _ fun _ _ => rfl
  · exact (readu64_takes addr).map _ fun _ _ => rfl
  · exact readUleb128_takes addr
  · exact (readu16_takes addr).map _ fun _ _ => rfl
  · exact (readu32_takes addr).map _ fun _ _ => rfl
  · exact (readu64_takes addr).map _ fun _ _ => rfl
  · simpa only using Takes.error

theorem readEncodedPointer_takes (addr : Word w) (encoding : Byte) (pi : ProcInfo w) :
    Takes (pointerLength as addr encoding) addr (readEncodedPointer as addr encoding pi) := by
  rw [readEncodedPointer, pointerLength]
  by_cases omitted : encoding = ehPeOmit
  · rw [if_pos omitted, if_pos omitted]
    exact .ok 0
  · rw [if_neg omitted, if_neg omitted]
    by_cases aligned : encoding = ehPeAligned
    · rw [if_pos aligned, if_pos aligned]
      intro val next read
      rw [readw_takes _ val next read, BitVec.ofNat_add, BitVec.ofNat_toNat, BitVec.setWidth_eq,
        ← BitVec.add_assoc, add_sub_cancel]
    · rw [if_neg aligned, if_neg aligned]
      intro val next read
      obtain ⟨⟨value, after⟩, format, read⟩ := bind_eq_ok.mp read
      obtain ⟨pointer, -, last⟩ := bind_eq_ok.mp read
      cases last
      exact readPointerFormat_takes addr encoding value _ format

/-! ## Every reader ends -/

theorem readu8_ends (addr : Word w) : Ends (readu8 as addr) :=
  (Ends.ofAccess _).bind fun _ _ => .ok _

theorem readu16_ends (addr : Word w) : Ends (readu16 as addr) :=
  (readu8_ends addr).bind fun _ _ => (readu8_ends _).bind fun _ _ => .ok _

theorem readu32_ends (addr : Word w) : Ends (readu32 as addr) :=
  (readu16_ends addr).bind fun _ _ => (readu16_ends _).bind fun _ _ => .ok _

theorem readu64_ends (addr : Word w) : Ends (readu64 as addr) :=
  (readu32_ends addr).bind fun _ _ => (readu32_ends _).bind fun _ _ => .ok _

theorem readw_ends (addr : Word w) : Ends (readw as addr) := by
  rw [readw]
  split
  · exact (readu32_ends addr).bind fun _ _ => .ok _
  · exact (readu64_ends addr).bind fun _ _ => .ok _
  · exact .undefined

/-- The shift is as wide as a word before the rounds are used up. -/
theorem readLeb128_ends {rounds : Nat} {addr val : Word w} {shift : Nat}
    (enough : w ≤ shift + 7 * rounds) : Ends (readLeb128 as (rounds + 1) addr val shift) := by
  induction rounds generalizing addr val shift with
  | zero =>
      rw [readLeb128]
      apply (readu8_ends addr).bind
      intro read _
      simp only [if_pos (show w ≤ shift from enough)]
      exact .undefined
  | succ rounds ih =>
      rw [readLeb128]
      apply (readu8_ends addr).bind
      intro read _
      apply Ends.ite fun _ => .undefined
      intro narrow
      apply Ends.ite
      · intro _
        exact ih (by omega)
      · exact fun _ => .ok _

theorem readUleb128_ends (addr : Word w) : Ends (readUleb128 as addr) :=
  (readLeb128_ends (by omega)).bind fun _ _ => .ok _

theorem readSleb128_ends (addr : Word w) : Ends (readSleb128 as addr) :=
  (readLeb128_ends (by omega)).bind fun _ _ => .ite (fun _ => .ok _) fun _ => .ok _

theorem readPointerFormat_ends (addr : Word w) (encoding : Byte) :
    Ends (readPointerFormat as addr encoding) := by
  rw [readPointerFormat]
  split
  · exact readw_ends addr
  · exact readUleb128_ends addr
  · exact (readu16_ends addr).bind fun _ _ => .ok _
  · exact (readu32_ends addr).bind fun _ _ => .ok _
  · exact (readu64_ends addr).bind fun _ _ => .ok _
  · exact readUleb128_ends addr
  · exact (readu16_ends addr).bind fun _ _ => .ok _
  · exact (readu32_ends addr).bind fun _ _ => .ok _
  · exact (readu64_ends addr).bind fun _ _ => .ok _
  · exact .err _

theorem pointerBase_ends (addr : Word w) (encoding : Byte) (pi : ProcInfo w) :
    Ends (pointerBase addr encoding pi) := by
  rw [pointerBase]
  split
  · exact .ok _
  · exact .ok _
  · exact .ok _
  · exact .ok _
  · exact .err _

theorem readEncodedPointer_ends (addr : Word w) (encoding : Byte) (pi : ProcInfo w) :
    Ends (readEncodedPointer as addr encoding pi) := by
  apply Ends.ite fun _ => .ok _
  intro _
  apply Ends.ite fun _ => readw_ends _
  intro _
  apply (readPointerFormat_ends addr encoding).bind
  intro read _
  apply Ends.bind _ fun _ _ => .ok _
  apply Ends.ite fun _ => .ok _
  intro _
  apply (pointerBase_ends addr encoding pi).bind
  intro base _
  exact .ite (fun _ => (readw_ends _).bind fun _ _ => .ok _) fun _ => .ok _

end Libunwind.Dwarf
