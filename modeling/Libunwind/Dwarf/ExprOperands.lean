import Libunwind.Dwarf.EncodedPointer
import Libunwind.Dwarf.ExprReference
import Libunwind.Dwarf.ExprSafety

/-! # The operands of an expression

What `read_operand` makes of the operands that the reference evaluator reads. The tables of
both agree.
-/

namespace Libunwind.Dwarf

open Leb128 StackMachine

variable {w : Nat}

/-! ## Numbers of a fixed size -/

theorem append_ofNat {u v a b : Nat} (small : b < 2 ^ v) :
    BitVec.ofNat u a ++ BitVec.ofNat v b = BitVec.ofNat (u + v) (b + 2 ^ v * a) := by
  apply BitVec.eq_of_toNat_eq
  have high : (a % 2 ^ u) <<< v = 2 ^ v * (a % 2 ^ u) := by
    rw [Nat.shiftLeft_eq, Nat.mul_comm]
  have wraps : (b + 2 ^ v * a) % 2 ^ (u + v) = b + 2 ^ v * (a % 2 ^ u) := by
    rw [Nat.add_comm u v, Nat.pow_add, Nat.mod_mul, Nat.add_mul_mod_self_left,
      Nat.mod_eq_of_lt small, Nat.add_mul_div_left _ _ (Nat.two_pow_pos v),
      Nat.div_eq_of_lt small, Nat.zero_add]
  rw [BitVec.toNat_append, BitVec.toNat_ofNat, BitVec.toNat_ofNat, BitVec.toNat_ofNat,
    Nat.mod_eq_of_lt small, ← Nat.shiftLeft_add_eq_or_of_lt small, high, wraps, Nat.add_comm]

theorem ofBytes_lt (bigEndian : Bool) (bytes : List Byte) :
    ofBytes bigEndian bytes < 256 ^ bytes.length := by
  have small : ∀ digit ∈ (if bigEndian then bytes.reverse else bytes).map BitVec.toNat,
      digit < 256 := by
    intro digit mem
    obtain ⟨byte, -, rfl⟩ := List.mem_map.mp mem
    exact byte.isLt
  have bound := Nat.ofDigits_lt_base_pow_length (by decide) small
  cases bigEndian <;> simpa [ofBytes] using bound

theorem ofBytes_append (bigEndian : Bool) (front back : List Byte) :
    ofBytes bigEndian (front ++ back) =
      if bigEndian then ofBytes true back + 256 ^ back.length * ofBytes true front
      else ofBytes false front + 256 ^ front.length * ofBytes false back := by
  cases bigEndian <;> simp [ofBytes, Nat.ofDigits_append]

/-- Two halves that are stored one after the other. -/
theorem joinHalves_ofBytes (as : AddrSpace w) {front back : List Byte} {half : Nat}
    (frontSize : 8 * front.length = half) (backSize : 8 * back.length = half) :
    joinHalves as (BitVec.ofNat half (ofBytes as.bigEndian front))
        (BitVec.ofNat half (ofBytes as.bigEndian back)) =
      BitVec.ofNat (half + half) (ofBytes as.bigEndian (front ++ back)) := by
  have power {bytes : List Byte} (size : 8 * bytes.length = half) :
      256 ^ bytes.length = 2 ^ half := by
    rw [← size, Nat.pow_mul]
  have small {bytes : List Byte} (size : 8 * bytes.length = half) :
      ofBytes as.bigEndian bytes < 2 ^ half := by
    rw [← power size]
    exact ofBytes_lt _ bytes
  rw [joinHalves, ofBytes_append, power frontSize, power backSize]
  cases big : as.bigEndian with
  | true =>
      rw [big] at small
      exact append_ofNat (small backSize)
  | false =>
      rw [big] at small
      exact append_ofNat (small frontSize)

section Read

variable {as : AddrSpace w} {addr : Word w} {bytes : List Byte} (stored : Stores as addr bytes)

include stored

theorem readu8_stored (size : bytes.length = 1) :
    readu8 as addr = .ok (BitVec.ofNat 8 (ofBytes as.bigEndian bytes), addr + 1) := by
  obtain ⟨byte, rfl⟩ := List.length_eq_one_iff.mp size
  have value : ofBytes as.bigEndian [byte] = byte.toNat := by
    cases big : as.bigEndian <;> simp [ofBytes]
  rw [readu8_byte stored.1, value, BitVec.ofNat_toNat, BitVec.setWidth_eq]

theorem readHalves_stored {half n : Nat}
    {read : AddrSpace w → Word w → Result (BitVec half × Word w)} (width : 8 * n = half)
    (halves : ∀ {addr bytes}, Stores as addr bytes → bytes.length = n →
      read as addr = .ok (BitVec.ofNat half (ofBytes as.bigEndian bytes), addr + BitVec.ofNat w n))
    (size : bytes.length = n + n) :
    readHalves read as addr = .ok (BitVec.ofNat (half + half) (ofBytes as.bigEndian bytes),
      addr + BitVec.ofNat w (n + n)) := by
  obtain ⟨front, back, rfl, frontSize, backSize⟩ :
      ∃ front back, bytes = front ++ back ∧ front.length = n ∧ back.length = n :=
    ⟨bytes.take n, bytes.drop n, (List.take_append_drop n bytes).symm, by simp [size],
      by simp [size]⟩
  obtain ⟨first, second⟩ := stores_append.mp stored
  rw [frontSize] at second
  simp only [readHalves, halves first frontSize, halves second backSize, ok_bind, pure_eq_ok]
  rw [joinHalves_ofBytes as (by omega) (by omega), add_ofNat_add]

theorem readu16_stored (size : bytes.length = 2) :
    readu16 as addr = .ok (BitVec.ofNat 16 (ofBytes as.bigEndian bytes), addr + 2) :=
  readHalves_stored stored (n := 1) rfl readu8_stored size

theorem readu32_stored (size : bytes.length = 4) :
    readu32 as addr = .ok (BitVec.ofNat 32 (ofBytes as.bigEndian bytes), addr + 4) :=
  readHalves_stored stored (n := 2) rfl readu16_stored size

theorem readu64_stored (size : bytes.length = 8) :
    readu64 as addr = .ok (BitVec.ofNat 64 (ofBytes as.bigEndian bytes), addr + 8) :=
  readHalves_stored stored (n := 4) rfl readu32_stored size

end Read

/-! ## Operands -/

namespace StackMachine

theorem readBytes_eq_some {m : Machine w} {count n : Nat} {bytes rest : List Byte} :
    readBytes m count bytes = some (n, rest) ↔
      ∃ front, bytes = front ++ rest ∧ front.length = count ∧ n = ofBytes m.bigEndian front := by
  rw [readBytes]
  constructor
  · intro read
    split at read
    · rename_i enough
      cases read
      exact ⟨bytes.take count, (List.take_append_drop count bytes).symm, by simpa, rfl⟩
    · cases read
  · intro ⟨front, isFront, size, value⟩
    subst isFront size value
    simp

theorem ofInt_signedOf {bits n : Nat} (small : n < 2 ^ bits) :
    BitVec.ofInt bits (signedOf bits n) = BitVec.ofNat bits n := by
  rw [signedOf]
  split
  · rw [← or_sign small, BitVec.shiftLeft_eq_zero (Nat.le_refl bits)]
    simp
  · exact BitVec.ofInt_natCast bits n

namespace Number

/-- The entry of the table `operands`. -/
def type : Number → OperandType
  | fixed _ .one => .val8
  | fixed _ .two => .val16
  | fixed _ .four => .val32
  | fixed _ .eight => .val64
  | uleb => .uleb128
  | sleb => .sleb128
  | address => .addr

/-- An operand as it is read, before it has got its sign. -/
def raw (x : Int) : Number → Word w
  | fixed _ size => (BitVec.ofInt (8 * size.bytes) x).setWidth w
  | _ => BitVec.ofInt w x

/-- The numbers that can be stored. -/
def InRange (x : Int) : Number → Prop
  | fixed true size => -(2 ^ (8 * size.bytes - 1)) ≤ x ∧ x < 2 ^ (8 * size.bytes - 1)
  | fixed false size => 0 ≤ x ∧ x < 2 ^ (8 * size.bytes)
  | uleb | address => 0 ≤ x
  | sleb => True

theorem read_inRange {m : Machine w} {number : Number} {bytes rest : List Byte} {x : Int}
    (read : number.read m bytes = some (x, rest)) : number.InRange x := by
  cases number with
  | fixed signed size =>
      simp only [Number.read, Option.map_eq_some_iff, Prod.mk.injEq] at read
      obtain ⟨⟨n, rest⟩, found, value, -⟩ := read
      obtain ⟨front, -, length, rfl⟩ := readBytes_eq_some.mp found
      have small := ofBytes_lt m.bigEndian front
      rw [length] at small
      cases signed with
      | false =>
          subst value
          cases size <;> simp [InRange] <;> simp at small <;> omega
      | true =>
          subst value
          cases size <;> simp [InRange, signedOf] <;> simp at small <;> omega
  | uleb =>
      simp only [Number.read, Option.map_eq_some_iff, Prod.mk.injEq] at read
      obtain ⟨split, -, rfl, -⟩ := read
      exact Int.natCast_nonneg _
  | sleb => trivial
  | address =>
      simp only [Number.read, Option.map_eq_some_iff, Prod.mk.injEq] at read
      obtain ⟨split, -, rfl, -⟩ := read
      exact Int.natCast_nonneg _

/-- The reference's operand is read, where the code's reader is defined. -/
theorem read_operand (size : WordSize w) {as : AddrSpace w} {m : Machine w} {number : Number}
    {bytes rest : List Byte} {x : Int} {addr : Word w} (order : m.bigEndian = as.bigEndian)
    (read : number.read m bytes = some (x, rest)) (stored : Stores as addr bytes)
    (isDefined : Defined (readOperand as addr number.type)) :
    ∃ front, bytes = front ++ rest ∧
      readOperand as addr number.type =
        .ok (number.raw x, addr + BitVec.ofNat w front.length) := by
  have wholeBytes : 8 * (w / 8) = w := by
    cases size with
    | inl narrow => omega
    | inr wide => omega
  cases number with
  | fixed signed count =>
      simp only [Number.read, Option.map_eq_some_iff, Prod.mk.injEq] at read
      obtain ⟨⟨n, rest⟩, found, value, rfl⟩ := read
      obtain ⟨front, rfl, length, isNumber⟩ := readBytes_eq_some.mp found
      have small := ofBytes_lt m.bigEndian front
      have bits : n < 2 ^ (8 * count.bytes) := by
        rw [isNumber, Nat.pow_mul, ← length]
        exact small
      have isRaw : (fixed signed count).raw x = (BitVec.ofNat (8 * count.bytes) n).setWidth w := by
        subst value
        cases signed with
        | false => simp [raw]
        | true => exact congrArg (BitVec.setWidth w) (ofInt_signedOf bits)
      obtain ⟨stored, -⟩ := stores_append.mp stored
      refine ⟨front, rfl, ?_⟩
      rw [isRaw, isNumber, order, length]
      cases count with
      | one => simp [readOperand, type, readu8_stored stored length]
      | two => simp [readOperand, type, readu16_stored stored length]
      | four => simp [readOperand, type, readu32_stored stored length]
      | eight => simp [readOperand, type, readu64_stored stored length]
  | uleb =>
      simp only [Number.read, Option.map_eq_some_iff, Prod.mk.injEq] at read
      obtain ⟨⟨digits, rest⟩, split, rfl, rfl⟩ := read
      obtain ⟨rfl, some', small⟩ := splitDigits_eq split
      obtain ⟨stored, -⟩ := stores_append.mp stored
      have leb := readUleb128_encode some' small stored
      have same : readOperand as addr uleb.type = readUleb128 as addr := rfl
      rw [same, leb] at isDefined
      refine ⟨encode digits, rfl, ?_⟩
      rw [same, leb, length_encode]
      split
      · simp [raw]
      · rename_i wide
        exact absurd (if_neg wide) isDefined
  | sleb =>
      simp only [Number.read, Option.map_eq_some_iff, Prod.mk.injEq] at read
      obtain ⟨⟨digits, rest⟩, split, rfl, rfl⟩ := read
      obtain ⟨rfl, some', small⟩ := splitDigits_eq split
      obtain ⟨stored, -⟩ := stores_append.mp stored
      have leb := readSleb128_encode wholeBytes some' small stored
      have same : readOperand as addr sleb.type = readSleb128 as addr := rfl
      rw [same, leb] at isDefined
      refine ⟨encode digits, rfl, ?_⟩
      rw [same, leb, length_encode]
      split
      · rfl
      · rename_i wide
        exact absurd (if_neg wide) isDefined
  | address =>
      simp only [Number.read, Option.map_eq_some_iff, Prod.mk.injEq] at read
      obtain ⟨⟨n, rest⟩, found, rfl, rfl⟩ := read
      obtain ⟨front, rfl, length, rfl⟩ := readBytes_eq_some.mp found
      obtain ⟨stored, -⟩ := stores_append.mp stored
      refine ⟨front, rfl, ?_⟩
      rw [order, length]
      cases size with
      | inl narrow =>
          subst narrow
          simp [readOperand, type, addressOperand, readu32_stored stored length, raw]
      | inr wide =>
          subst wide
          simp [readOperand, type, addressOperand, readu64_stored stored length, raw]

/-- The two variables for the operands. -/
def rawOperands (x y : Int) : List Number → Word w × Word w
  | [] => (0, 0)
  | [first] => (first.raw x, 0)
  | first :: second :: _ => (first.raw x, second.raw y)

theorem read_operands (size : WordSize w) {as : AddrSpace w} {m : Machine w}
    {numbers : List Number} {bytes rest : List Byte} {x y : Int} {addr : Word w}
    (order : m.bigEndian = as.bigEndian) (read : readNumbers m bytes numbers = some (x, y, rest))
    (stored : Stores as addr bytes)
    (isDefined : Defined (readOperands as addr (numbers.map type))) :
    ∃ front, bytes = front ++ rest ∧
      readOperands as addr (numbers.map type) =
        .ok ((rawOperands x y numbers).1, (rawOperands x y numbers).2,
          addr + BitVec.ofNat w front.length) := by
  have first {number : Number} {next : Word w × Word w → Result (Word w × Word w × Word w)}
      (isDefined : Defined (readOperand as addr number.type >>= next)) :
      Defined (readOperand as addr number.type) := by
    intro undefined
    exact isDefined (by rw [undefined]; rfl)
  cases numbers with
  | nil =>
      cases read
      exact ⟨[], rfl, by simp [readOperands, rawOperands]⟩
  | cons number numbers =>
      cases numbers with
      | nil =>
          simp only [readNumbers, Option.map_eq_some_iff, Prod.mk.injEq] at read
          obtain ⟨⟨x, rest⟩, found, rfl, rfl, rfl⟩ := read
          obtain ⟨front, isFront, result⟩ := read_operand size order found stored (first isDefined)
          exact ⟨front, isFront, by simp [readOperands, rawOperands, result]⟩
      | cons second numbers =>
          simp only [readNumbers, Option.bind_eq_some_iff, Option.map_eq_some_iff,
            Prod.mk.injEq] at read
          obtain ⟨⟨x, middle⟩, found, ⟨y, rest⟩, found', rfl, rfl, rfl⟩ := read
          obtain ⟨front, rfl, result⟩ := read_operand size order found stored (first isDefined)
          obtain ⟨-, stored⟩ := stores_append.mp stored
          have isDefined' : Defined
              (readOperand as (addr + BitVec.ofNat w front.length) second.type) := by
            intro undefined
            exact isDefined (by simp [readOperands, result, undefined])
          obtain ⟨back, rfl, result'⟩ := read_operand size order found' stored isDefined'
          refine ⟨front ++ back, (List.append_assoc _ _ _).symm, ?_⟩
          simp [readOperands, rawOperands, result, result', add_ofNat_add]

/-- The operands are numbers that can be stored. -/
def AllInRange (x y : Int) : List Number → Prop
  | [] => True
  | [first] => first.InRange x
  | first :: second :: _ => first.InRange x ∧ second.InRange y

theorem readNumbers_inRange {m : Machine w} {numbers : List Number} {bytes rest : List Byte}
    {x y : Int} (read : readNumbers m bytes numbers = some (x, y, rest)) :
    AllInRange x y numbers := by
  cases numbers with
  | nil => trivial
  | cons number numbers =>
      cases numbers with
      | nil =>
          simp only [readNumbers, Option.map_eq_some_iff, Prod.mk.injEq] at read
          obtain ⟨⟨x, rest⟩, found, rfl, rfl, rfl⟩ := read
          exact read_inRange found
      | cons second numbers =>
          simp only [readNumbers, Option.bind_eq_some_iff, Option.map_eq_some_iff,
            Prod.mk.injEq] at read
          obtain ⟨⟨x, middle⟩, found, ⟨y, rest⟩, found', rfl, rfl, rfl⟩ := read
          exact ⟨read_inRange found, read_inRange found'⟩

/-! ## Operands and their values -/

theorem setWidth_ofInt_of_nonneg {k : Nat} {x : Int} (nonneg : 0 ≤ x) (small : x < 2 ^ k) :
    (BitVec.ofInt k x).setWidth w = BitVec.ofInt w x := by
  obtain ⟨n, rfl⟩ := Int.eq_ofNat_of_zero_le nonneg
  have below : n < 2 ^ k := by exact_mod_cast small
  apply BitVec.eq_of_toNat_eq
  simp [Nat.mod_eq_of_lt below]

theorem setWidth_ofInt_of_le {k : Nat} (narrow : w ≤ k) (x : Int) :
    (BitVec.ofInt k x).setWidth w = BitVec.ofInt w x := by
  have multiple : (2 ^ w : Int) ∣ 2 ^ k := pow_dvd_pow 2 narrow
  apply BitVec.eq_of_toNat_eq
  apply Int.natCast_inj.mp
  simp [BitVec.toNat_ofInt, Int.emod_nonneg, Int.emod_emod_of_dvd x multiple]

/-- Giving an operand its sign. -/
theorem constSigned_raw {k : Nat} {x : Int} (positive : 0 < k) (narrow : k ≤ w)
    (above : -(2 ^ (k - 1)) ≤ x) (below : x < 2 ^ (k - 1)) :
    (if ((BitVec.ofInt k x).setWidth w).getLsbD (k - 1) then
        (BitVec.ofInt k x).setWidth w ||| ((-1 : Word w) <<< k)
      else (BitVec.ofInt k x).setWidth w) = BitVec.ofInt w x := by
  have value := BitVec.toInt_ofInt_eq_self positive above below
  have inside : k - 1 < w := by omega
  have sign : ((BitVec.ofInt k x).setWidth w).getLsbD (k - 1) = decide (x < 0) := by
    have isMsb := BitVec.msb_eq_toInt (x := BitVec.ofInt k x)
    rw [BitVec.msb_eq_getLsbD_last, value] at isMsb
    rw [BitVec.getLsbD_setWidth, isMsb]
    simp [inside]
  have power : (2 ^ k : Int) = 2 * 2 ^ (k - 1) := by
    rw [← pow_succ']
    congr 1
    omega
  rw [sign]
  by_cases negative : x < 0
  · have digits : (BitVec.ofInt k x).toNat = x + 2 ^ k := by
      rw [BitVec.toNat_ofInt, Int.toNat_of_nonneg (Int.emod_nonneg _ (by positivity))]
      push_cast
      rw [← Int.add_emod_right, Int.emod_eq_of_lt (by omega) (by omega)]
    have signed := or_sign (w := w) (BitVec.ofInt k x).isLt
    rw [digits, add_sub_cancel_right] at signed
    rw [if_pos (decide_eq_true negative), ← signed, BitVec.ofNat_toNat]
  · rw [if_neg (by simpa using negative)]
    exact setWidth_ofInt_of_nonneg (by omega) (by omega)

end Number

/-! ## The tables -/

namespace Opcode

/-- The same operation in the switch of `dwarf_eval_expr`. -/
def exprOp : Opcode → ExprOp
  | lit k => .lit k
  | const (.fixed true .one) => .constSigned 8
  | const (.fixed true .two) => .constSigned 16
  | const (.fixed true .four) => .constSigned 32
  | const _ => .const
  | reg r => .reg r
  | regx => .regx
  | breg r => .breg r
  | bregx => .bregx
  | deref => .deref
  | derefSize => .derefSize
  | dup => .dup
  | drop => .drop
  | pick => .pick
  | «over» => .over
  | swap => .swap
  | rot => .rot
  | abs => .abs
  | neg => .neg
  | not => .not
  | plusUconst => .plusUconst
  | binary .and => .and
  | binary .div => .div
  | binary .minus => .minus
  | binary .mod => .mod
  | binary .mul => .mul
  | binary .or => .or
  | binary .plus => .plus
  | binary .shl => .shl
  | binary .shr => .shr
  | binary .shra => .shra
  | binary .xor => .xor
  | binary .le => .le
  | binary .ge => .ge
  | binary .eq => .eq
  | binary .lt => .lt
  | binary .gt => .gt
  | binary .ne => .ne
  | skip => .skip
  | bra => .bra
  | nop => .nop

set_option maxRecDepth 4000 in
theorem ofByte_tables : ∀ byte : Byte, ∀ op ∈ ofByte byte,
    ExprOp.ofByte byte = op.exprOp ∧ Dwarf.operands byte = op.operands.map Number.type := by
  decide

end Opcode

end StackMachine

end Libunwind.Dwarf
