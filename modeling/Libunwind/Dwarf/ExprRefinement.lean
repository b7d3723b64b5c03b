import Libunwind.Library.BitField
import Libunwind.Dwarf.ExprOperands

/-! # The evaluator and the reference

The evaluator goes through the states of the reference as long as nothing is undefined, the
array has room, and `DW_OP_deref_size` loads what it should. The mask of its little-endian
loads of five to seven bytes keeps the other bytes of the eight that it reads.
-/

namespace Libunwind.Dwarf

open StackMachine

variable {w : Nat}

/-- An expression in memory, and the frame in which it is evaluated. -/
structure StoredExpr (w : Nat) where
  as : AddrSpace w
  size : WordSize w
  /-- `dwarf_to_unw_regnum_map`. -/
  map : List Byte
  /-- The indices of the array are `int`s. -/
  mapSize : map.length ≤ 2 ^ 31
  /-- The registers of the frame, by their libunwind numbers. -/
  file : Int → Except UnwError (Word w)
  addr : Word w
  code : List Byte
  stored : Stores as addr code
  length_lt : code.length < 2 ^ w

namespace StoredExpr

/-- The libunwind number of a register. -/
def regnum (e : StoredExpr w) (r : Nat) : Int := (e.map.getD r 0).toNat

def machine (e : StoredExpr w) : Machine w where
  bigEndian := e.as.bigEndian
  byte addr := (e.as.readByte addr).toOption
  registers := e.map.length
  register r := if r < e.map.length then (e.file (e.regnum r)).toOption else none

def ctx (e : StoredExpr w) : ExprContext w := fileContext e.as e.map e.file

/-- The evaluator's state for one of the reference. -/
def image (e : StoredExpr w) (s : State w) : ExprState w where
  addr := e.addr + BitVec.ofNat w s.pc
  stack := s.stack
  register := s.register.map fun r => BitVec.ofInt w (e.regnum r)

end StoredExpr

/-! ## Loads -/

theorem stores_unique {as : AddrSpace w} {addr : Word w} {bytes bytes' : List Byte}
    (stored : Stores as addr bytes) (stored' : Stores as addr bytes')
    (length : bytes.length = bytes'.length) : bytes = bytes' := by
  induction bytes generalizing addr bytes' with
  | nil => exact (List.eq_nil_of_length_eq_zero length.symm).symm
  | cons byte rest ih =>
      cases bytes' with
      | nil => cases length
      | cons byte' rest' =>
          have same : byte = byte' := Except.ok.inj (stored.1.symm.trans stored'.1)
          rw [same, ih stored.2 stored'.2 (Nat.succ.inj length)]

theorem StoredExpr.bytes_eq_some {e : StoredExpr w} {count : Nat} {addr : Word w}
    {bytes : List Byte} (found : e.machine.bytes count addr = some bytes) :
    bytes.length = count ∧ Stores e.as addr bytes := by
  induction count generalizing addr bytes with
  | zero =>
      cases found
      exact ⟨rfl, trivial⟩
  | succ count ih =>
      simp only [Machine.bytes, StoredExpr.machine, Option.bind_eq_bind, Option.bind_eq_some_iff,
        Option.some.injEq] at found
      obtain ⟨byte, first, rest, later, rfl⟩ := found
      obtain ⟨length, stored⟩ := ih later
      refine ⟨by simp [length], ?_, stored⟩
      cases read : e.as.readByte addr with
      | error code => simp [read, Except.toOption] at first
      | ok byte' =>
          simp only [read, Except.toOption, Option.some.injEq] at first
          rw [first]

theorem StoredExpr.load_eq_some {e : StoredExpr w} {count : Nat} {addr x : Word w}
    (found : e.machine.load addr count = some x) :
    ∃ bytes, bytes.length = count ∧ Stores e.as addr bytes ∧
      x = BitVec.ofNat w (ofBytes e.as.bigEndian bytes) := by
  simp only [Machine.load, Option.map_eq_some_iff] at found
  obtain ⟨bytes, found, rfl⟩ := found
  obtain ⟨length, stored⟩ := bytes_eq_some found
  exact ⟨bytes, length, stored, rfl⟩

/-- Bytes that are read, one after the other. -/
theorem readu8_ok {as : AddrSpace w} {addr : Word w} {read} (isRead : readu8 as addr = .ok read) :
    ∃ bytes, bytes.length = 1 ∧ Stores as addr bytes ∧ read.2 = addr + 1 := by
  cases stored : as.readByte addr with
  | error code => simp [readu8_fails stored] at isRead
  | ok byte =>
      rw [readu8_byte stored] at isRead
      cases isRead
      exact ⟨[byte], rfl, ⟨stored, trivial⟩, rfl⟩

theorem readHalves_ok {half n : Nat}
    {reader : AddrSpace w → Word w → Result (BitVec half × Word w)} {as : AddrSpace w}
    {addr : Word w} {read}
    (halves : ∀ {addr read}, reader as addr = .ok read →
      ∃ bytes, bytes.length = n ∧ Stores as addr bytes ∧ read.2 = addr + BitVec.ofNat w n)
    (isRead : readHalves reader as addr = .ok read) :
    ∃ bytes, bytes.length = n + n ∧ Stores as addr bytes ∧
      read.2 = addr + BitVec.ofNat w (n + n) := by
  obtain ⟨first, isFirst, isRead⟩ := bind_eq_ok.mp isRead
  obtain ⟨second, isSecond, isRead⟩ := bind_eq_ok.mp isRead
  cases isRead
  obtain ⟨front, frontSize, stored, next⟩ := halves isFirst
  rw [next] at isSecond
  obtain ⟨back, backSize, stored', next'⟩ := halves isSecond
  refine ⟨front ++ back, by simp [frontSize, backSize], ?_, ?_⟩
  · rw [stores_append, frontSize]
    exact ⟨stored, stored'⟩
  · exact next'.trans (add_ofNat_add addr n n)

theorem readu16_ok {as : AddrSpace w} {addr : Word w} {read} (isRead : readu16 as addr = .ok read) :
    ∃ bytes, bytes.length = 2 ∧ Stores as addr bytes ∧ read.2 = addr + 2 :=
  readHalves_ok (n := 1) readu8_ok isRead

theorem readu32_ok {as : AddrSpace w} {addr : Word w} {read} (isRead : readu32 as addr = .ok read) :
    ∃ bytes, bytes.length = 4 ∧ Stores as addr bytes ∧ read.2 = addr + 4 :=
  readHalves_ok (n := 2) readu16_ok isRead

theorem readu64_ok {as : AddrSpace w} {addr : Word w} {read} (isRead : readu64 as addr = .ok read) :
    ∃ bytes, bytes.length = 8 ∧ Stores as addr bytes ∧ read.2 = addr + 8 :=
  readHalves_ok (n := 4) readu32_ok isRead

/-- What `DW_OP_deref_size` needs besides the bytes that it is to load: it reads four or eight,
    and a little-endian load of five to seven is right only if all eight are 0. -/
def DerefExact (as : AddrSpace w) (addr : Word w) (count : Nat) : Prop :=
  (count = 3 → ∃ bytes, bytes.length = 4 ∧ Stores as addr bytes) ∧
    (5 ≤ count → count ≤ 7 → ∃ bytes, bytes.length = 8 ∧ Stores as addr bytes ∧
      (as.bigEndian = false → ofBytes false bytes = 0))

section DerefSize

variable {as : AddrSpace w} {addr : Word w} {front : List Byte} (stored : Stores as addr front)

include stored

/-- The bytes that are to be loaded are the first ones of those that are read. -/
theorem stores_front {count : Nat} {bytes : List Byte} (stored' : Stores as addr bytes)
    (length : bytes.length = front.length + count) :
    ∃ back, bytes = front ++ back ∧ back.length = count := by
  have split : bytes = bytes.take front.length ++ bytes.drop front.length :=
    (List.take_append_drop front.length bytes).symm
  have stored'' : Stores as addr (bytes.take front.length) := by
    rw [split] at stored'
    exact (stores_append.mp stored').1
  have same : bytes.take front.length = front :=
    stores_unique stored'' stored (by simp [length])
  refine ⟨bytes.drop front.length, ?_, by simp [length]⟩
  rw [same] at split
  exact split

theorem derefSize_three (wide : 32 ≤ w) (length : front.length = 3) {bytes : List Byte}
    (stored' : Stores as addr bytes) (length' : bytes.length = 4) :
    derefSize as addr 3 = .ok (BitVec.ofNat w (ofBytes as.bigEndian front)) := by
  obtain ⟨back, rfl, backLength⟩ : ∃ back, bytes = front ++ back ∧ back.length = 1 :=
    stores_front stored stored' (by omega)
  have power : 2 ^ 32 ≤ 2 ^ w := Nat.pow_le_pow_right (by decide) wide
  have small := ofBytes_lt as.bigEndian (front ++ back)
  have frontSmall := ofBytes_lt as.bigEndian front
  have backSmall := ofBytes_lt as.bigEndian back
  rw [length'] at small
  rw [length] at frontSmall
  rw [backLength] at backSmall
  replace small : ofBytes as.bigEndian (front ++ back) < 2 ^ 32 := small
  have widened : (BitVec.ofNat 32 (ofBytes as.bigEndian (front ++ back))).setWidth w =
      BitVec.ofNat w (ofBytes as.bigEndian (front ++ back)) := by
    apply BitVec.eq_of_toNat_eq
    rw [BitVec.toNat_setWidth, BitVec.toNat_ofNat, BitVec.toNat_ofNat, Nat.mod_eq_of_lt small]
  simp only [derefSize, readu32_stored stored' length', ok_bind, pure_eq_ok, widened]
  rw [ofBytes_append] at small ⊢
  cases big : as.bigEndian with
  | true =>
      rw [big] at small frontSmall backSmall
      simp only [if_true, backLength] at small ⊢
      exact congrArg Except.ok (ofNat_shiftRight (k := 8) backSmall (by omega))
  | false =>
      rw [big] at small frontSmall backSmall
      simp only [Bool.false_eq_true, if_false, length] at small ⊢
      exact congrArg Except.ok (ofNat_and_mask (k := 24) frontSmall (by omega) (by omega))

end DerefSize

theorem derefSize_wide_iff {as : AddrSpace 64} {addr : Word 64} {front bytes : List Byte}
    (stored : Stores as addr front) (least : 5 ≤ front.length) (most : front.length ≤ 7)
    (stored' : Stores as addr bytes) (length' : bytes.length = 8) :
    derefSize as addr front.length = .ok (BitVec.ofNat 64 (ofBytes as.bigEndian front)) ↔
      (as.bigEndian = false → ofBytes false bytes = 0) := by
  obtain ⟨back, rfl, backLength⟩ :
      ∃ back, bytes = front ++ back ∧ back.length = 8 - front.length :=
    stores_front stored stored' (by omega)
  have small := ofBytes_lt as.bigEndian (front ++ back)
  have frontSmall := ofBytes_lt as.bigEndian front
  have backSmall := ofBytes_lt as.bigEndian back
  have power (n : Nat) : 256 ^ n = 2 ^ (8 * n) := by rw [Nat.pow_mul]
  rw [power, length'] at small
  rw [power] at frontSmall backSmall
  rw [derefSize_wide least most]
  simp only [readu64_stored stored' length', ok_bind, pure_eq_ok, BitVec.setWidth_eq]
  cases big : as.bigEndian with
  | true =>
      have shift : 64 - 8 * front.length = 8 * back.length := by omega
      rw [big] at small backSmall
      rw [ofBytes_append, if_pos rfl, power] at small
      refine iff_of_true ?_ (by simp)
      rw [if_pos rfl, if_pos (by omega), shift, ofBytes_append, if_pos rfl, power]
      exact congrArg Except.ok (ofNat_shiftRight backSmall small)
  | false =>
      rw [big] at small frontSmall
      have low : ofBytes false front =
          (BitVec.ofNat 64 (ofBytes false (front ++ back))).toNat % 2 ^ (8 * front.length) := by
        rw [BitVec.toNat_ofNat, Nat.mod_eq_of_lt small, ofBytes_append, if_neg (by simp), power,
          Nat.add_mul_mod_self_left, Nat.mod_eq_of_lt frontSmall]
      have zero : BitVec.ofNat 64 (ofBytes false (front ++ back)) = 0 ↔
          ofBytes false (front ++ back) = 0 := by
        rw [← BitVec.toNat_inj, BitVec.toNat_ofNat, Nat.mod_eq_of_lt small]
        rfl
      rw [if_neg (by simp), if_pos (by omega), Except.ok.injEq, low, and_shiftLeft_neg_one_iff, zero]
      simp

/-- The load is the right one. -/
theorem derefSize_iff (e : StoredExpr w) {addr x : Word w} {count : Nat} (least : 1 ≤ count)
    (most : count ≤ w / 8) (loaded : e.machine.load addr count = some x) :
    derefSize e.as addr count = .ok x ↔ DerefExact e.as addr count := by
  obtain ⟨front, length, stored, rfl⟩ := e.load_eq_some loaded
  have wide := e.size.least
  have widened {v : Nat} (small : ofBytes e.as.bigEndian front < 2 ^ v) :
      (BitVec.ofNat v (ofBytes e.as.bigEndian front)).setWidth w =
        BitVec.ofNat w (ofBytes e.as.bigEndian front) := by
    apply BitVec.eq_of_toNat_eq
    rw [BitVec.toNat_setWidth, BitVec.toNat_ofNat, BitVec.toNat_ofNat, Nat.mod_eq_of_lt small]
  have small := ofBytes_lt e.as.bigEndian front
  rw [length] at small
  by_cases five : 5 ≤ count ∧ count ≤ 7
  · have width : w = 64 := by
      cases e.size with
      | inl narrow => omega
      | inr wide => exact wide
    obtain ⟨five, seven⟩ := five
    subst width length
    constructor
    · intro exact'
      have read := exact'
      rw [derefSize_wide five seven] at read
      obtain ⟨value, isRead, -⟩ := bind_eq_ok.mp read
      obtain ⟨bytes, length', stored', -⟩ := readu64_ok isRead
      refine ⟨by omega, fun _ _ => ⟨bytes, length', stored', ?_⟩⟩
      exact (derefSize_wide_iff stored five seven stored' length').mp exact'
    · intro needs
      obtain ⟨bytes, length', stored', zero⟩ := needs.2 five seven
      exact (derefSize_wide_iff stored five seven stored' length').mpr zero
  · by_cases three : count = 3
    · subst three
      constructor
      · intro read
        obtain ⟨value, isRead, -⟩ := bind_eq_ok.mp read
        obtain ⟨bytes, length', stored', -⟩ := readu32_ok isRead
        exact ⟨fun _ => ⟨bytes, length', stored'⟩, by omega⟩
      · intro needs
        obtain ⟨bytes, length', stored'⟩ := needs.1 rfl
        exact derefSize_three stored wide length stored' length'
    · refine iff_of_true ?_ ⟨fun same => absurd same three, fun h h' => absurd ⟨h, h'⟩ five⟩
      have narrow := e.size.most
      have sizes : count = 1 ∨ count = 2 ∨ count = 4 ∨ count = 8 := by omega
      rcases sizes with rfl | rfl | rfl | rfl
      · simp [derefSize, readu8_stored stored length, widened (v := 8) small]
      · simp [derefSize, readu16_stored stored length, widened (v := 16) small]
      · simp [derefSize, readu32_stored stored length, widened (v := 32) small]
      · simp [derefSize, readu64_stored stored length, widened (v := 64) small]

/-- A load of a whole word. -/
theorem readw_load (e : StoredExpr w) {addr x : Word w}
    (loaded : e.machine.load addr (w / 8) = some x) :
    ∃ next, readw e.as addr = .ok (x, next) := by
  obtain ⟨front, length, stored, rfl⟩ := e.load_eq_some loaded
  cases e.size with
  | inl narrow =>
      subst narrow
      exact ⟨_, by simp [readw, readu32_stored stored length]; rfl⟩
  | inr wide =>
      subst wide
      exact ⟨_, by simp [readw, readu64_stored stored length]; rfl⟩

/-! ## Operations -/

/-- The load of the operation is the right one. -/
def Exact (as : AddrSpace w) (x : Int) (stack : List (Word w)) : Opcode → Prop
  | .derefSize => ∀ addr rest, stack = addr :: rest → DerefExact as addr x.toNat
  | _ => True

section Use

variable (e : StoredExpr w) {s : State w}

theorem onList_push {x : Result (Word w)} {v : Word w} :
    (StackUse.push x).onList (e.image s) = .ok (e.image { s with stack := v :: s.stack }) ↔
      x = .ok v ∧ (v :: s.stack).length ≤ maxExprStackSize := by
  cases x with
  | error fault => simp [StackUse.onList]
  | ok x =>
      by_cases room : s.stack.length < maxExprStackSize
      · simp [StackUse.onList, push, StoredExpr.image, room, Nat.succ_le_of_lt room]
      · have full : ¬ s.stack.length + 1 ≤ maxExprStackSize := room
        simp [StackUse.onList, push, StoredExpr.image, room, full]

theorem onList_unary {f : Word w → Result (Word w)} {a v : Word w} {rest : List (Word w)}
    (top : s.stack = a :: rest) (room : s.stack.length ≤ maxExprStackSize) :
    (StackUse.unary f).onList (e.image s) = .ok (e.image { s with stack := v :: rest }) ↔
      f a = .ok v := by
  have room' : rest.length < maxExprStackSize := by
    rw [top] at room
    exact room
  cases result : f a with
  | error fault => simp [StackUse.onList, pop, StoredExpr.image, top, result]
  | ok x => simp [StackUse.onList, pop, push, StoredExpr.image, top, result, room']

/-- An operation on the top of the stack that is always defined. -/
theorem unary_onStack {f : Word w → Result (Word w)} {a v : Word w} {rest : List (Word w)}
    {safe isExact : Prop} (top : s.stack = a :: rest) (room : s.stack.length ≤ maxExprStackSize)
    (value : f a = .ok v) (always : safe ∧ isExact) :
    (StackUse.unary f).onList (e.image s) = .ok (e.image { s with stack := v :: rest }) ↔
      safe ∧ isExact ∧ (v :: rest).length ≤ maxExprStackSize := by
  refine iff_of_true ((onList_unary e top room).mpr value) ⟨always.1, always.2, ?_⟩
  rw [top] at room
  exact room

theorem onList_binary {f : Word w → Word w → Result (Word w)} {a b v : Word w}
    {rest : List (Word w)} (top : s.stack = b :: a :: rest)
    (room : s.stack.length ≤ maxExprStackSize) :
    (StackUse.binary f).onList (e.image s) = .ok (e.image { s with stack := v :: rest }) ↔
      f b a = .ok v := by
  have room' : rest.length < maxExprStackSize := by
    rw [top] at room
    exact Nat.lt_of_succ_lt room
  cases result : f b a with
  | error fault => simp [StackUse.onList, binary, pop, StoredExpr.image, top, result]
  | ok x => simp [StackUse.onList, binary, pop, push, StoredExpr.image, top, result, room']

/-- The registers that the target has. -/
theorem toUnwRegnum_of_lt {r : Nat} (has : r < e.map.length) :
    dwarfToUnwRegnum e.map r = .ok (e.regnum r) := by
  have below : (r : Int) < e.map.length := by exact_mod_cast has
  simp [dwarfToUnwRegnum, below, StoredExpr.regnum, has]

theorem register_eq_some {r : Nat} {v : Word w} (known : e.machine.register r = some v) :
    r < e.map.length ∧ e.file (e.regnum r) = .ok v := by
  simp only [StoredExpr.machine] at known
  split at known
  · rename_i has
    refine ⟨has, ?_⟩
    cases read : e.file (e.regnum r) with
    | error code => simp [read, Except.toOption] at known
    | ok value => simpa [read, Except.toOption] using known
  · cases known

/-- A register and an offset, as `DW_OP_breg` and `DW_OP_bregx` add them. -/
theorem registerPlus_eq {r : Nat} {v : Word w} (known : e.machine.register r = some v)
    (offset : Word w) :
    (do
      let regnum ← e.ctx.toUnwRegnum r
      let tmp1 ← e.ctx.getReg regnum
      pure (tmp1 + offset) : Result (Word w)) = .ok (v + offset) := by
  obtain ⟨has, read⟩ := register_eq_some e known
  simp only [StoredExpr.ctx, fileContext, toUnwRegnum_of_lt e has, ok_bind, read, ofAccess_ok,
    pure_eq_ok]

theorem truth_eq (p : Prop) [Decidable p] {q : Bool} (same : q = decide p) :
    truth w (decide p) = ofBool w q := by
  rw [same]
  rfl

/-- The operation computes the reference's word where C defines it. -/
theorem binary_iff {op : BinaryOp} {a b v : Word w} {rest : List (Word w)}
    (top : s.stack = b :: a :: rest) (room : s.stack.length ≤ maxExprStackSize)
    (value : op.value a b = some v) (operand1 operand2 : Word w) :
    ((Opcode.binary op).exprOp.stackUse e.ctx operand1 operand2).onList (e.image s) =
        .ok (e.image { s with stack := v :: rest }) ↔
      OpSafe e.as operand1 s.stack (Opcode.binary op).exprOp := by
  have shift {result : Word w} : shiftBy b result = .ok result ↔
      ∀ tmp1 tmp2 rest, s.stack = tmp1 :: tmp2 :: rest → tmp1.toNat < w := by
    rw [shiftBy, top]
    constructor
    · intro isDefined tmp1 tmp2 rest same
      cases same
      by_contra wide
      rw [if_neg wide] at isDefined
      cases isDefined
    · intro narrow
      exact if_pos (narrow b a rest rfl)
  cases op with
  | and =>
      cases value
      exact iff_of_true ((onList_binary e top room).mpr (congrArg _ (BitVec.and_comm b a))) trivial
  | or =>
      cases value
      exact iff_of_true ((onList_binary e top room).mpr (congrArg _ (BitVec.or_comm b a))) trivial
  | xor =>
      cases value
      exact iff_of_true ((onList_binary e top room).mpr (congrArg _ (BitVec.xor_comm b a))) trivial
  | plus =>
      cases value
      exact iff_of_true ((onList_binary e top room).mpr (congrArg _ (BitVec.add_comm b a))) trivial
  | minus | mul | le | ge | lt | gt =>
      cases value
      exact iff_of_true ((onList_binary e top room).mpr rfl) trivial
  | mod =>
      simp only [BinaryOp.value] at value
      split at value
      · cases value
      · rename_i divides
        cases value
        exact iff_of_true ((onList_binary e top room).mpr (congrArg _ (if_neg divides))) trivial
  | div =>
      simp only [BinaryOp.value] at value
      split at value
      · cases value
      · rename_i divides
        cases value
        apply (onList_binary e top room).trans
        rw [signedDiv, if_neg divides]
        constructor
        · intro isDefined rest same
          rw [top] at same
          cases same
          rw [if_pos ⟨rfl, rfl⟩] at isDefined
          cases isDefined
        · intro safe
          refine if_neg ?_
          intro overflow
          exact safe rest (by rw [top, overflow.1, overflow.2])
  | shl | shr | shra =>
      cases value
      exact (onList_binary e top room).trans shift
  | eq =>
      cases value
      have same : (a == b) = decide (a.toInt = b.toInt) := by
        simp only [BitVec.toInt_inj]
        rfl
      exact iff_of_true ((onList_binary e top room).mpr (congrArg _ (truth_eq _ same).symm)) trivial
  | ne =>
      cases value
      have same : (a != b) = decide (a.toInt ≠ b.toInt) := by
        apply Bool.eq_iff_iff.mpr
        simp [BitVec.toInt_inj]
      exact iff_of_true ((onList_binary e top room).mpr (congrArg _ (truth_eq _ same).symm)) trivial

theorem const_stackUse {number : Number} {x y : Int} (range : number.InRange x) :
    (Opcode.const number).exprOp.stackUse e.ctx (Number.rawOperands x y [number]).1
        (Number.rawOperands x y [number]).2 = .push (pure (BitVec.ofInt w x)) := by
  have wide := e.size.least
  have narrow := e.size.most
  have same {z z' : Word w} (eq : z = z') :
      (StackUse.push (pure z) : StackUse w) = .push (pure z') := by rw [eq]
  cases number with
  | fixed signed size =>
      cases signed with
      | false =>
          cases size with
          | one => exact same (Number.setWidth_ofInt_of_nonneg range.1 range.2)
          | two => exact same (Number.setWidth_ofInt_of_nonneg range.1 range.2)
          | four => exact same (Number.setWidth_ofInt_of_nonneg range.1 range.2)
          | eight => exact same (Number.setWidth_ofInt_of_nonneg range.1 range.2)
      | true =>
          cases size with
          | one => exact same (Number.constSigned_raw (k := 8) (by decide) (by omega) range.1 range.2)
          | two => exact same (Number.constSigned_raw (k := 16) (by decide) (by omega) range.1 range.2)
          | four => exact same (Number.constSigned_raw (by decide) wide range.1 range.2)
          | eight => exact same (Number.setWidth_ofInt_of_le narrow x)
  | uleb => rfl
  | sleb => rfl
  | address => rfl

theorem const_safe {number : Number} {operand1 : Word w} {stack : List (Word w)} :
    OpSafe e.as operand1 stack (Opcode.const number).exprOp := by
  cases number with
  | fixed signed size => cases signed <;> cases size <;> trivial
  | uleb => trivial
  | sleb => trivial
  | address => trivial

/-- A byte as an operand. -/
theorem toNat_byte_operand {x : Int} (wide : 32 ≤ w) (nonneg : 0 ≤ x) (small : x < 256) :
    ((BitVec.ofInt 8 x).setWidth w).toNat = x.toNat := by
  obtain ⟨n, rfl⟩ := Int.eq_ofNat_of_zero_le nonneg
  have below : n < 2 ^ 8 := by exact_mod_cast small
  have power : 2 ^ 8 ≤ 2 ^ w := Nat.pow_le_pow_right (by decide) (by omega)
  simp only [BitVec.ofInt_natCast, BitVec.toNat_setWidth, BitVec.toNat_ofNat, Int.toNat_natCast]
  rw [Nat.mod_eq_of_lt below, Nat.mod_eq_of_lt (by omega)]

/-- The operation leaves the reference's stack behind, where C defines it, the array has room
    and the load is the right one. -/
theorem onStack_iff {op : Opcode} {x y : Int} {stack : List (Word w)}
    (room : s.stack.length ≤ maxExprStackSize) (ranges : Number.AllInRange x y op.operands)
    (does : op.onStack e.machine x y s.stack = some stack) :
    (op.exprOp.stackUse e.ctx (Number.rawOperands x y op.operands).1
        (Number.rawOperands x y op.operands).2).onList (e.image s) =
          .ok (e.image { s with stack }) ↔
      OpSafe e.as (Number.rawOperands x y op.operands).1 s.stack op.exprOp ∧
        Exact e.as x s.stack op ∧ stack.length ≤ maxExprStackSize := by
  cases op with
  | lit k =>
      cases does
      exact (onList_push e).trans ⟨fun h => ⟨trivial, trivial, h.2⟩, fun h => ⟨rfl, h.2.2⟩⟩
  | const number =>
      cases does
      rw [show (Opcode.const number).operands = [number] from rfl, const_stackUse e ranges]
      exact (onList_push e).trans
        ⟨fun h => ⟨const_safe e, trivial, h.2⟩, fun h => ⟨rfl, h.2.2⟩⟩
  | breg r =>
      simp only [Opcode.onStack, Option.map_eq_some_iff] at does
      obtain ⟨v, known, rfl⟩ := does
      have value := registerPlus_eq e known (BitVec.ofInt w x)
      exact (onList_push e).trans ⟨fun h => ⟨trivial, trivial, h.2⟩, fun h => ⟨value, h.2.2⟩⟩
  | bregx =>
      simp only [Opcode.onStack, Option.map_eq_some_iff] at does
      obtain ⟨v, known, rfl⟩ := does
      obtain ⟨has, -⟩ := register_eq_some e known
      have small := e.mapSize
      obtain ⟨r, rfl⟩ := Int.eq_ofNat_of_zero_le (show 0 ≤ x from ranges.1)
      rw [Int.toNat_natCast] at has known
      have number : ((BitVec.ofInt w r).setWidth 32).toInt = r := by
        rw [Number.setWidth_ofInt_of_le e.size.least]
        exact BitVec.toInt_ofInt_eq_self (by decide) (by omega) (by omega)
      have value : (do
          let regnum ← e.ctx.toUnwRegnum ((BitVec.ofInt w r).setWidth 32).toInt
          let tmp1 ← e.ctx.getReg regnum
          pure (tmp1 + BitVec.ofInt w y) : Result (Word w)) = .ok (v + BitVec.ofInt w y) := by
        rw [number]
        exact registerPlus_eq e known (BitVec.ofInt w y)
      have safe : 0 ≤ ((BitVec.ofInt w r).setWidth 32).toInt := by
        rw [number]
        exact Int.natCast_nonneg r
      exact (onList_push e).trans ⟨fun h => ⟨safe, trivial, h.2⟩, fun h => ⟨value, h.2.2⟩⟩
  | deref =>
      cases top : s.stack with
      | nil => simp [top, Opcode.onStack] at does
      | cons a rest =>
          simp only [top, Opcode.onStack, Option.map_eq_some_iff] at does
          obtain ⟨v, loaded, rfl⟩ := does
          obtain ⟨next, read⟩ := readw_load e loaded
          refine unary_onStack e top room ?_ ⟨trivial, trivial⟩
          simp only [StoredExpr.ctx, fileContext, read, ok_bind, pure_eq_ok]
  | derefSize =>
      cases top : s.stack with
      | nil => simp [top, Opcode.onStack] at does
      | cons a rest =>
          simp only [top, Opcode.onStack] at does
          split at does
          · rename_i sizes
            obtain ⟨v, loaded, rfl⟩ := Option.map_eq_some_iff.mp does
            have widths : w = 32 ∨ w = 64 := e.size
            have operand : (Number.rawOperands (w := w) x y Opcode.derefSize.operands).1.toNat =
                x.toNat := toNat_byte_operand e.size.least ranges.1 ranges.2
            have load : Dwarf.derefSize e.ctx.as a
                (Number.rawOperands (w := w) x y Opcode.derefSize.operands).1.toNat = .ok v ↔
                  DerefExact e.as a x.toNat := by
              rw [operand]
              exact derefSize_iff e (by omega) (by omega) loaded
            apply ((onList_unary e top room).trans load).trans
            rw [top] at room
            constructor
            · intro needs
              refine ⟨?_, ?_, room⟩
              · intro tmp1 rest read _ _ least most _
                omega
              · intro addr rest same
                cases same
                exact needs
            · intro needs
              exact needs.2.1 a rest rfl
          · cases does
  | dup =>
      cases top : s.stack with
      | nil => simp [top, Opcode.onStack] at does
      | cons a rest =>
          simp only [top, Opcode.onStack, Option.some.injEq] at does
          subst does
          have value : pick (e.image s) 0 = .ok a := by simp [pick, StoredExpr.image, top]
          have same := onList_push e (s := s) (x := pick (e.image s) 0) (v := a)
          rw [top] at same
          exact same.trans ⟨fun h => ⟨trivial, trivial, h.2⟩, fun h => ⟨value, h.2.2⟩⟩
  | «over» =>
      cases top : s.stack with
      | nil => simp [top, Opcode.onStack] at does
      | cons a rest =>
          cases rest with
          | nil => simp [top, Opcode.onStack] at does
          | cons b rest =>
              simp only [top, Opcode.onStack, Option.some.injEq] at does
              subst does
              have value : pick (e.image s) 1 = .ok b := by simp [pick, StoredExpr.image, top]
              have same := onList_push e (s := s) (x := pick (e.image s) 1) (v := b)
              rw [top] at same
              exact same.trans ⟨fun h => ⟨trivial, trivial, h.2⟩, fun h => ⟨value, h.2.2⟩⟩
  | pick =>
      simp only [Opcode.onStack, Option.map_eq_some_iff] at does
      obtain ⟨v, found, rfl⟩ := does
      have operand : (Number.rawOperands (w := w) x y Opcode.pick.operands).1.toNat = x.toNat :=
        toNat_byte_operand e.size.least ranges.1 ranges.2
      have value : Dwarf.pick (e.image s)
          (Number.rawOperands (w := w) x y Opcode.pick.operands).1.toNat = .ok v := by
        rw [operand]
        simp [pick, StoredExpr.image, found]
      exact (onList_push e).trans ⟨fun h => ⟨trivial, trivial, h.2⟩, fun h => ⟨value, h.2.2⟩⟩
  | drop =>
      cases top : s.stack with
      | nil => simp [top, Opcode.onStack] at does
      | cons a rest =>
          simp only [top, Opcode.onStack, Option.some.injEq] at does
          subst does
          rw [top] at room
          refine iff_of_true ?_ ⟨trivial, trivial, Nat.le_of_succ_le room⟩
          simp [Opcode.exprOp, ExprOp.stackUse, StackUse.onList, pop, StoredExpr.image, top]
  | swap =>
      cases top : s.stack with
      | nil => simp [top, Opcode.onStack] at does
      | cons a rest =>
          cases rest with
          | nil => simp [top, Opcode.onStack] at does
          | cons b rest =>
              simp only [top, Opcode.onStack, Option.some.injEq] at does
              subst does
              rw [top] at room
              have room' : rest.length + 1 < maxExprStackSize := room
              refine iff_of_true ?_ ⟨trivial, trivial, room⟩
              simp [Opcode.exprOp, ExprOp.stackUse, StackUse.onList, pop, push, StoredExpr.image,
                top, room', Nat.lt_of_succ_lt room']
  | rot =>
      cases top : s.stack with
      | nil => simp [top, Opcode.onStack] at does
      | cons a rest =>
          cases rest with
          | nil => simp [top, Opcode.onStack] at does
          | cons b rest =>
              cases rest with
              | nil => simp [top, Opcode.onStack] at does
              | cons c rest =>
                  simp only [top, Opcode.onStack, Option.some.injEq] at does
                  subst does
                  rw [top] at room
                  have room' : rest.length + 1 + 1 < maxExprStackSize := room
                  refine iff_of_true ?_ ⟨trivial, trivial, room⟩
                  simp [Opcode.exprOp, ExprOp.stackUse, StackUse.onList, pop, push,
                    StoredExpr.image, top, room', Nat.lt_of_succ_lt room',
                    Nat.lt_of_succ_lt (Nat.lt_of_succ_lt room')]
  | abs =>
      cases top : s.stack with
      | nil => simp [top, Opcode.onStack] at does
      | cons a rest =>
          simp only [top, Opcode.onStack, Option.some.injEq] at does
          subst does
          have negated : ~~~a + 1 = -a := (BitVec.neg_eq_not_add a).symm
          have value : (if a.msb then ~~~a + 1 else a) = a.abs := by
            rw [negated]
            rfl
          exact unary_onStack e top room (congrArg Except.ok value) ⟨trivial, trivial⟩
  | neg =>
      cases top : s.stack with
      | nil => simp [top, Opcode.onStack] at does
      | cons a rest =>
          simp only [top, Opcode.onStack, Option.some.injEq] at does
          subst does
          have value : ~~~a + 1 = -a := (BitVec.neg_eq_not_add a).symm
          exact unary_onStack e top room (congrArg Except.ok value) ⟨trivial, trivial⟩
  | not | plusUconst =>
      cases top : s.stack with
      | nil => simp [top, Opcode.onStack] at does
      | cons a rest =>
          simp only [top, Opcode.onStack, Option.some.injEq] at does
          subst does
          exact unary_onStack e top room rfl ⟨trivial, trivial⟩
  | binary op =>
      cases top : s.stack with
      | nil => simp [top, Opcode.onStack] at does
      | cons b rest =>
          cases rest with
          | nil => simp [top, Opcode.onStack] at does
          | cons a rest =>
              simp only [top, Opcode.onStack, Option.map_eq_some_iff] at does
              obtain ⟨v, value, rfl⟩ := does
              have same := binary_iff e top room value
              rw [top] at same room
              refine (same _ _).trans ⟨fun safe => ⟨safe, trivial, ?_⟩, fun h => h.1⟩
              exact Nat.le_of_succ_le room
  | nop =>
      cases does
      exact iff_of_true rfl ⟨trivial, trivial, room⟩
  | reg | regx | skip | bra => simp [Opcode.onStack] at does

/-- A branch goes to the same place. -/
theorem image_jump {next : State w} {x : Int} (range : -(2 ^ 15) ≤ x ∧ x < 2 ^ 15)
    (does : s.jump e.code.length x = some next) :
    e.image next = { e.image s with
      addr := (e.image s).addr +
        ((((BitVec.ofInt 16 x).setWidth w).setWidth 16).signExtend w) } := by
  have wide := e.size.least
  have narrowed : ((BitVec.ofInt 16 x).setWidth w).setWidth 16 = BitVec.ofInt 16 x := by
    rw [BitVec.setWidth_setWidth_of_le _ (by omega), BitVec.setWidth_eq]
  have offset : (BitVec.ofInt 16 x).signExtend w = BitVec.ofInt w x := by
    rw [BitVec.signExtend, BitVec.toInt_ofInt_eq_self (by decide) range.1 range.2]
  simp only [State.jump] at does
  split at does
  · rename_i inside
    cases does
    have target : ((s.pc + x).toNat : Int) = s.pc + x := Int.toNat_of_nonneg inside.1
    have sum : BitVec.ofNat w (s.pc + x).toNat = BitVec.ofNat w s.pc + BitVec.ofInt w x := by
      rw [← BitVec.ofInt_natCast, target, BitVec.ofInt_add, BitVec.ofInt_natCast]
    simp only [StoredExpr.image, narrowed, offset, sum, BitVec.add_assoc]
  · cases does

/-- `onStack_iff` for all operations. -/
theorem exec_iff {op : Opcode} {x y : Int} {next : State w}
    (room : s.stack.length ≤ maxExprStackSize) (ranges : Number.AllInRange x y op.operands)
    (does : op.exec e.machine e.code.length x y s = some next) :
    exprExec e.ctx op.exprOp (Number.rawOperands x y op.operands).1
        (Number.rawOperands x y op.operands).2 (e.image s) = .ok (e.image next) ↔
      OpSafe e.as (Number.rawOperands x y op.operands).1 s.stack op.exprOp ∧
        Exact e.as x s.stack op ∧ next.stack.length ≤ maxExprStackSize := by
  cases op with
  | reg r =>
      simp only [Opcode.exec, State.name] at does
      split at does
      · rename_i has
        cases does
        refine iff_of_true ?_ ⟨trivial, trivial, room⟩
        have number : e.ctx.toUnwRegnum r = .ok (e.regnum r) := toUnwRegnum_of_lt e has.1
        simp [exprExec, Opcode.exprOp, number, StoredExpr.image]
      · cases does
  | regx =>
      simp only [Opcode.exec, State.name] at does
      split at does
      · rename_i has
        cases does
        refine iff_of_true ?_ ⟨trivial, trivial, room⟩
        have small := e.mapSize
        have power : 2 ^ 32 ≤ 2 ^ w := Nat.pow_le_pow_right (by decide) e.size.least
        obtain ⟨r, rfl⟩ := Int.eq_ofNat_of_zero_le (show 0 ≤ x from ranges)
        have has' : r < e.map.length := has.1
        have operand : (Number.rawOperands (w := w) r y Opcode.regx.operands).1.toNat = r := by
          have value : (BitVec.ofInt w (r : Int)).toNat = r := by
            rw [BitVec.ofInt_natCast, BitVec.toNat_ofNat, Nat.mod_eq_of_lt (by omega)]
          exact value
        have number : e.ctx.toUnwRegnum r = .ok (e.regnum r) := toUnwRegnum_of_lt e has'
        simp [exprExec, Opcode.exprOp, operand, number, StoredExpr.image]
      · cases does
  | skip =>
      have same := image_jump e ranges does
      have stack : next.stack = s.stack := by
        simp only [Opcode.exec, State.jump] at does
        split at does
        · cases does
          rfl
        · cases does
      rw [stack, same]
      exact iff_of_true rfl ⟨trivial, trivial, room⟩
  | bra =>
      simp only [Opcode.exec] at does
      cases top : s.stack with
      | nil => simp [top] at does
      | cons a rest =>
          have popped : pop (e.image s) = .ok (a, e.image { s with stack := rest }) := by
            simp [pop, StoredExpr.image, top]
          simp only [top] at does
          rw [top] at room
          by_cases zero : a = 0
          · rw [if_pos zero] at does
            cases does
            refine iff_of_true ?_ ⟨trivial, trivial, Nat.le_of_succ_le room⟩
            simp [exprExec, Opcode.exprOp, popped, zero]
          · rw [if_neg zero] at does
            have same := image_jump e ranges does
            have stack : next.stack = rest := by
              simp only [State.jump] at does
              split at does
              · cases does
                rfl
              · cases does
            rw [stack, same]
            refine iff_of_true ?_ ⟨trivial, trivial, Nat.le_of_succ_le room⟩
            simp only [exprExec, Opcode.exprOp, popped, ok_bind, if_neg zero, pure_eq_ok]
            rfl
  | _ =>
      simp only [Opcode.exec, Option.map_eq_some_iff] at does
      obtain ⟨stack, found, rfl⟩ := does
      rw [exprExec_eq]
      exact onStack_iff e room ranges found

end Use

end Libunwind.Dwarf
