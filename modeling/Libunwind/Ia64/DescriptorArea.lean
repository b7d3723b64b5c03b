import Libunwind.Library.Leb128
import Libunwind.Library.WhileLoop
import Libunwind.Ia64.StackOwnership

/-! # The descriptor area

The loop over the descriptors reads what is in their area and moves on, as long as these are well
formed: their operands are whole, a spill mask does not end before it starts, and the mask of a
prologue that is left is there.
-/

namespace Libunwind.Ia64

/-! ## The form of descriptors -/

/-- A number in front of some bytes, of ten digits at most, and the bytes behind it. -/
def readNumber (bytes : List Byte) : Option (Word 64 × List Byte) :=
  match Leb128.splitDigits bytes with
  | some (digits, rest) =>
      if digits.length ≤ 10 then some (BitVec.ofNat 64 (Nat.ofDigits 128 digits), rest) else none
  | none => none

/-- The bytes behind so many numbers. -/
def skipNumbers : Nat → List Byte → Option (List Byte)
  | 0, bytes => some bytes
  | numbers + 1, bytes => (readNumber bytes).bind fun (_, rest) => skipNumbers numbers rest

/-- The bytes behind so many single bytes and then so many numbers. -/
def skipOperands (numbers : Nat) : Nat → List Byte → Option (List Byte)
  | 0, bytes => skipNumbers numbers bytes
  | _ + 1, [] => none
  | singles + 1, _ :: rest => skipOperands numbers singles rest

/-! How many single bytes and numbers there are behind a descriptor's code. -/

def layoutB3X4 (code : Byte) : Nat × Nat :=
  if code &&& 0x10 = 0 then (0, 2)
  else
    match (code &&& 0x7).toNat with
    | 0 => (0, 1)
    | 1 => (1, 2)
    | 2 => (2, 1)
    | 3 => (2, 2)
    | 4 => (3, 1)
    | _ => (0, 0)

def layoutP2P5 (code : Byte) : Nat × Nat :=
  if code &&& 0x10 = 0 then (1, 0)
  else if code &&& 0x08 = 0 then (1, 0)
  else if code &&& 0x7 = 1 then (3, 0)
  else (0, 0)

def layoutP7P10 (code : Byte) : Nat × Nat :=
  if code &&& 0x10 = 0 then if code &&& 0xf = 0 then (0, 2) else (0, 1)
  else
    match (code &&& 0xf).toNat with
    | 0x0 => (1, 1)
    | 0x1 => (2, 0)
    | 0xf => (2, 0)
    | 0x9 => (1, 2)
    | 0xa => (2, 1)
    | 0xb => (2, 2)
    | 0xc => (3, 1)
    | _ => (0, 0)

def operandLayout (insideBody : Bool) (code : Byte) : Nat × Nat :=
  match (code >>> 5).toNat, insideBody with
  | 0, _ => (0, 0)
  | 1, _ => (0, 0)
  | 2, _ => (1, 1)
  | 3, _ => (0, 1)
  | 6, true => (0, 1)
  | 7, true => layoutB3X4 code
  | 5, false => layoutP2P5 code
  | 7, false => layoutP7P10 code
  | _, _ => (0, 0)

/-- What a descriptor is for the loop. -/
inductive DescriptorKind where
  | header (body : Bool) (rlen : Word 64)
  | mask
  | other
  deriving DecidableEq

def descriptorKind (insideBody : Bool) (code : Byte) (operands : List Byte) : DescriptorKind :=
  match (code >>> 5).toNat, insideBody with
  | 0, _ => .header (code &&& 0x20 != 0) (code.setWidth 64 &&& 0x1f)
  | 1, _ => .header (code &&& 0x20 != 0) (code.setWidth 64 &&& 0x1f)
  | 2, _ => .header false (((readNumber operands.tail).map Prod.fst).getD 0)
  | 3, _ => .header (code &&& 0x3 == 1) (((readNumber operands).map Prod.fst).getD 0)
  | 5, false => if code = 0xb8 then .mask else .other
  | _, _ => .other

/-- How many bytes a spill mask takes for the region. -/
def Region.maskLength (r : Region) : Int := (toInt32 (2 * r.len + 7)).tdiv 8

/-- The descriptors from some place on are well formed, as far as they are read in a region. -/
inductive WellFormed (area : List Byte) : Region → List Byte → Prop
  | nil {r} : WellFormed area r []
  /-- The header behind the region that has the target. -/
  | last {r code operands rest body rlen} :
      skipOperands (operandLayout r.inBody code).2 (operandLayout r.inBody code).1 operands =
        some rest →
      descriptorKind r.inBody code operands = .header body rlen → r.Leaves area → r.HasTarget →
      WellFormed area r (code :: operands)
  | header {r code operands rest body rlen} :
      skipOperands (operandLayout r.inBody code).2 (operandLayout r.inBody code).1 operands =
        some rest →
      descriptorKind r.inBody code operands = .header body rlen → r.Leaves area → ¬r.HasTarget →
      WellFormed area (r.enter body rlen) rest → WellFormed area r (code :: operands)
  | mask {r code operands} :
      descriptorKind r.inBody code operands = .mask → 0 ≤ r.maskLength →
      WellFormed area { r with imask := some (area.length - operands.length) }
        (operands.drop r.maskLength.toNat) →
      WellFormed area r (code :: operands)
  | other {r code operands rest} :
      skipOperands (operandLayout r.inBody code).2 (operandLayout r.inBody code).1 operands =
        some rest →
      descriptorKind r.inBody code operands = .other → WellFormed area r rest →
      WellFormed area r (code :: operands)

/-! ## The decoder -/

variable {area : List Byte} {dp : Int} {suffix rest : List Byte}

/-- A pointer into the area, and the bytes from there to its end. -/
structure PointsTo (area : List Byte) (dp : Int) (suffix : List Byte) : Prop where
  nonneg : 0 ≤ dp
  inside : dp ≤ area.length
  drop : area.drop dp.toNat = suffix

theorem PointsTo.eq_length (isAt : PointsTo area dp suffix) : dp = area.length - suffix.length := by
  have nonneg := isAt.nonneg
  have inside := isAt.inside
  have count := congrArg List.length isAt.drop
  rw [List.length_drop] at count
  omega

theorem PointsTo.next {byte : Byte} (isAt : PointsTo area dp (byte :: rest)) :
    nextByte area dp = .ok (byte, dp + 1) ∧ PointsTo area (dp + 1) rest := by
  obtain ⟨n, rfl⟩ := Int.eq_ofNat_of_zero_le isAt.nonneg
  have drop : area.drop n = byte :: rest := isAt.drop
  have first : area[n]? = some byte := by
    rw [← List.head?_drop, drop]
    rfl
  have inside := (List.getElem?_eq_some_iff.mp first).1
  refine ⟨by rw [nextByte_natCast, first], by omega, by omega, ?_⟩
  change area.drop (n + 1) = rest
  rw [← List.tail_drop, drop]
  rfl

theorem PointsTo.end (isAt : PointsTo area dp []) : nextByte area dp = .error .undefined := by
  obtain ⟨n, rfl⟩ := Int.eq_ofNat_of_zero_le isAt.nonneg
  have beyond : area.length ≤ n := List.drop_eq_nil_iff.mp isAt.drop
  rw [nextByte_natCast, List.getElem?_eq_none beyond]

/-- A byte with its digit, by its high bit. -/
theorem digit_of_byte (byte : Byte) :
    (byte.toNat < 128 ∧ byte &&& 0x80 = 0 ∧
        byte.setWidth 64 &&& 0x7f = BitVec.ofNat 64 byte.toNat) ∨
      (¬byte.toNat < 128 ∧ byte &&& 0x80 ≠ 0 ∧ byte.toNat - 128 < 128 ∧
        byte.setWidth 64 &&& 0x7f = BitVec.ofNat 64 (byte.toNat - 128)) := by
  by_cases last : byte.toNat < 128
  · have digit := Leb128.last_byte last
    rw [BitVec.ofNat_toNat, BitVec.setWidth_eq] at digit
    refine .inl ⟨last, digit.2, Leb128.widen_digit last ?_⟩
    rw [digit.1, BitVec.ofNat_toNat, BitVec.setWidth_eq]
  · have small : byte.toNat - 128 < 128 := by omega
    have digit := Leb128.continued_byte small
    rw [Nat.sub_add_cancel (Nat.le_of_not_lt last), BitVec.ofNat_toNat, BitVec.setWidth_eq] at digit
    exact .inr ⟨last, digit.2, small, Leb128.widen_digit small digit.1⟩

/-- The loop reads a number that has no more digits than fit, and is undefined elsewhere. -/
theorem unwDecodeUlebLoop_cases {rounds digits : Nat} (isAt : PointsTo area dp suffix)
    (budget : rounds + digits = 11) (started : digits ≤ 10) (result : Word 64) :
    (∃ value rest dp', Leb128.splitDigits suffix = some (value, rest) ∧
        digits + value.length ≤ 10 ∧ PointsTo area dp' rest ∧ dp ≤ dp' ∧
        unwDecodeUlebLoop area rounds dp result (7 * digits) =
          .ok (result ||| BitVec.ofNat 64 (Nat.ofDigits 128 value) <<< (7 * digits), dp')) ∨
      ((∀ value rest, Leb128.splitDigits suffix = some (value, rest) →
          ¬digits + value.length ≤ 10) ∧
        unwDecodeUlebLoop area rounds dp result (7 * digits) = .error .undefined) := by
  induction rounds generalizing dp suffix digits result with
  | zero => omega
  | succ rounds ih =>
      rw [unwDecodeUlebLoop]
      cases suffix with
      | nil =>
          have none : ∀ value rest, Leb128.splitDigits [] = some (value, rest) →
              ¬digits + value.length ≤ 10 := nofun
          rw [isAt.end]
          exact .inr ⟨none, rfl⟩
      | cons byte bytes =>
          obtain ⟨read, isAt'⟩ := isAt.next
          rw [read, ok_bind]
          dsimp only
          by_cases wide : 64 ≤ 7 * digits
          · rw [if_pos wide]
            refine .inr ⟨fun value rest split => ?_, rfl⟩
            have some := List.length_pos_iff.mpr (Leb128.splitDigits_eq split).2.1
            omega
          · rw [if_neg wide, Leb128.splitDigits]
            rcases digit_of_byte byte with ⟨last, clear, low⟩ | ⟨more, set, small, low⟩
            · rw [if_pos clear, if_pos last, low]
              refine .inl ⟨_, _, _, rfl, ?_, isAt', by omega, ?_⟩
              · rw [List.length_singleton]
                omega
              · rw [Nat.ofDigits_singleton]
                rfl
            · rw [if_neg set, if_neg more, low]
              have budget' : rounds + (digits + 1) = 11 := by omega
              rcases ih isAt' budget' (by omega) _ with
                ⟨value, rest, dp', split, fits, isAt'', later, loop⟩ | ⟨misfits, undefined⟩
              · rw [Nat.mul_succ] at loop
                rw [loop, split]
                refine .inl ⟨_, _, _, rfl, ?_, isAt'', by omega, ?_⟩
                · rw [List.length_cons]
                  omega
                · rw [Leb128.or_digits small, Nat.ofDigits_cons]
              · rw [Nat.mul_succ] at undefined
                rw [undefined]
                refine .inr ⟨fun value rest split => ?_, rfl⟩
                cases later : Leb128.splitDigits bytes with
                | none =>
                    rw [later] at split
                    cases split
                | some found =>
                    rw [later] at split
                    cases split
                    have := misfits _ _ later
                    rw [List.length_cons]
                    omega

theorem unwDecodeUleb128_cases (isAt : PointsTo area dp suffix) :
    (∃ value rest dp', readNumber suffix = some (value, rest) ∧ PointsTo area dp' rest ∧ dp ≤ dp' ∧
        unwDecodeUleb128 area dp = .ok (value, dp')) ∨
      (readNumber suffix = none ∧ unwDecodeUleb128 area dp = .error .undefined) := by
  have start : (0 : Nat) ≤ 10 := Nat.zero_le 10
  rcases unwDecodeUlebLoop_cases isAt (rfl : 11 + 0 = 11) start 0 with
    ⟨value, rest, dp', split, fits, isAt', later, loop⟩ | ⟨misfits, undefined⟩
  · refine .inl ⟨BitVec.ofNat 64 (Nat.ofDigits 128 value), rest, dp', ?_, isAt', later,
      loop.trans ?_⟩
    · rw [readNumber, split]
      exact if_pos (by omega)
    · rw [Nat.mul_zero, BitVec.shiftLeft_zero]
      simp
  · refine .inr ⟨?_, undefined⟩
    rw [readNumber]
    cases split : Leb128.splitDigits suffix with
    | none => rfl
    | some found => exact if_neg fun fits => misfits _ _ split (by omega)

/-- A routine reads operands of this form and makes a descriptor of them, or finds too few. -/
def Decodes (area : List Byte) (dp : Int) (suffix : List Byte) (layout : Nat × Nat)
    (Made : Descriptor → Prop) (r : Result (Descriptor × Int)) : Prop :=
  (skipOperands layout.2 layout.1 suffix = none ∧ r = .error .undefined) ∨
    ∃ d dp' rest, skipOperands layout.2 layout.1 suffix = some rest ∧ r = .ok (d, dp') ∧
      PointsTo area dp' rest ∧ dp ≤ dp' ∧ Made d

namespace Decodes

variable {singles numbers : Nat} {Made : Descriptor → Prop} {d : Descriptor}

theorem nothing (isAt : PointsTo area dp suffix) (made : Made d) :
    Decodes area dp suffix (0, 0) Made (pure (d, dp)) :=
  .inr ⟨d, dp, suffix, rfl, rfl, isAt, le_rfl, made⟩

theorem single {next : Byte × Int → Result (Descriptor × Int)} (isAt : PointsTo area dp suffix)
    (later : ∀ byte rest, suffix = byte :: rest → PointsTo area (dp + 1) rest →
      Decodes area (dp + 1) rest (singles, numbers) Made (next (byte, dp + 1))) :
    Decodes area dp suffix (singles + 1, numbers) Made (nextByte area dp >>= next) := by
  cases suffix with
  | nil =>
      rw [isAt.end]
      exact .inl ⟨rfl, rfl⟩
  | cons byte rest =>
      obtain ⟨read, isAt'⟩ := isAt.next
      rw [read, ok_bind]
      rcases later byte rest rfl isAt' with ⟨few, undefined⟩ | ⟨d, dp', rest', skips, made⟩
      · exact .inl ⟨few, undefined⟩
      · exact .inr ⟨d, dp', rest', skips, made.1, made.2.1, by omega, made.2.2.2⟩

theorem number {next : Word 64 × Int → Result (Descriptor × Int)} (isAt : PointsTo area dp suffix)
    (later : ∀ value rest dp', readNumber suffix = some (value, rest) → PointsTo area dp' rest →
      Decodes area dp' rest (0, numbers) Made (next (value, dp'))) :
    Decodes area dp suffix (0, numbers + 1) Made (unwDecodeUleb128 area dp >>= next) := by
  rcases unwDecodeUleb128_cases isAt with ⟨value, rest, dp', number, isAt', after, read⟩ |
    ⟨none, undefined⟩
  · have skips : skipOperands (numbers + 1) 0 suffix = skipOperands numbers 0 rest := by
      rw [skipOperands, skipNumbers, number, Option.bind_some, skipOperands]
    rw [read, ok_bind]
    rcases later value rest dp' number isAt' with ⟨few, undefined⟩ | ⟨d, dp'', rest', more, made⟩
    · exact .inl ⟨skips.trans few, undefined⟩
    · exact .inr ⟨d, dp'', rest', skips.trans more, made.1, made.2.1, by omega, made.2.2.2⟩
  · refine .inl ⟨?_, by rw [undefined]; rfl⟩
    rw [skipOperands, skipNumbers, none, Option.bind_none]

end Decodes

/-- The descriptors that are neither headers nor spill masks. -/
def Descriptor.IsPlain : Descriptor → Prop
  | .prologue .. | .spillMask => False
  | _ => True

theorem Descriptor.isPlain_ite {p : Prop} [Decidable p] {d d' : Descriptor} (isPlain : d.IsPlain)
    (isPlain' : d'.IsPlain) : (if p then d else d').IsPlain := by
  split
  · exact isPlain
  · exact isPlain'

theorem descriptorP3_isPlain (r dst : Byte) : (descriptorP3 r dst).IsPlain := by
  rw [descriptorP3]
  split <;> trivial

theorem descriptorP7_isPlain (r : Byte) (t : Word 64) : (descriptorP7 r t).IsPlain := by
  rw [descriptorP7]
  split <;> trivial

theorem descriptorP8_isPlain (r : Byte) (t : Word 64) : (descriptorP8 r t).IsPlain := by
  rw [descriptorP8]
  split <;> trivial

section Formats

variable (isAt : PointsTo area dp suffix)

include isAt

theorem unwDecodeX1_reads :
    Decodes area dp suffix (1, 2) Descriptor.IsPlain (unwDecodeX1 area dp) := by
  refine .single isAt fun byte1 _ _ isAt => .number isAt fun t _ _ _ isAt =>
    .number isAt fun off _ _ _ isAt => .nothing isAt ?_
  exact Descriptor.isPlain_ite trivial trivial

theorem unwDecodeX2_reads :
    Decodes area dp suffix (2, 1) Descriptor.IsPlain (unwDecodeX2 area dp) := by
  refine .single isAt fun byte1 _ _ isAt => .single isAt fun byte2 _ _ isAt =>
    .number isAt fun t _ _ _ isAt => .nothing isAt ?_
  exact Descriptor.isPlain_ite trivial trivial

theorem unwDecodeX3_reads :
    Decodes area dp suffix (2, 2) Descriptor.IsPlain (unwDecodeX3 area dp) := by
  refine .single isAt fun byte1 _ _ isAt => .single isAt fun byte2 _ _ isAt =>
    .number isAt fun t _ _ _ isAt => .number isAt fun off _ _ _ isAt => .nothing isAt ?_
  exact Descriptor.isPlain_ite trivial trivial

theorem unwDecodeX4_reads :
    Decodes area dp suffix (3, 1) Descriptor.IsPlain (unwDecodeX4 area dp) := by
  refine .single isAt fun byte1 _ _ isAt => .single isAt fun byte2 _ _ isAt =>
    .single isAt fun byte3 _ _ isAt => .number isAt fun t _ _ _ isAt => .nothing isAt ?_
  exact Descriptor.isPlain_ite trivial trivial

variable (code : Byte)

theorem unwDecodeB3X4_reads :
    Decodes area dp suffix (layoutB3X4 code) Descriptor.IsPlain (unwDecodeB3X4 area dp code) := by
  rw [layoutB3X4, unwDecodeB3X4]
  by_cases short : code &&& 0x10 = 0
  · rw [if_pos short, if_pos short]
    exact .number isAt fun t _ _ _ isAt => .number isAt fun ecount _ _ _ isAt => .nothing isAt trivial
  rw [if_neg short, if_neg short]
  by_cases label : code &&& 0x7 = 0
  · rw [if_pos label, label]
    refine .number isAt fun value _ _ _ isAt => .nothing isAt ?_
    exact Descriptor.isPlain_ite trivial trivial
  rw [if_neg label]
  have notZero : (code &&& 0x7).toNat ≠ 0 := fun zero => label (BitVec.eq_of_toNat_eq zero)
  generalize (code &&& 0x7).toNat = low at notZero
  match low, notZero with
  | 1, _ => exact unwDecodeX1_reads isAt
  | 2, _ => exact unwDecodeX2_reads isAt
  | 3, _ => exact unwDecodeX3_reads isAt
  | 4, _ => exact unwDecodeX4_reads isAt
  | low + 5, _ => exact .nothing isAt trivial

theorem unwDecodeP7P10_reads :
    Decodes area dp suffix (layoutP7P10 code) Descriptor.IsPlain (unwDecodeP7P10 area dp code) := by
  rw [layoutP7P10, unwDecodeP7P10]
  by_cases short : code &&& 0x10 = 0
  · rw [if_pos short, if_pos short]
    by_cases frame : code &&& 0xf = 0
    · rw [if_pos frame]
      refine .number isAt fun t _ _ _ isAt => ?_
      dsimp only
      rw [if_pos frame]
      exact .number isAt fun size _ _ _ isAt => .nothing isAt trivial
    · rw [if_neg frame]
      refine .number isAt fun t _ _ _ isAt => ?_
      dsimp only
      rw [if_neg frame]
      exact .nothing isAt (descriptorP7_isPlain _ t)
  rw [if_neg short, if_neg short]
  generalize (code &&& 0xf).toNat = low
  match low with
  | 0 =>
      exact .single isAt fun r _ _ isAt => .number isAt fun t _ _ _ isAt =>
        .nothing isAt (descriptorP8_isPlain r t)
  | 1 | 15 =>
      exact .single isAt fun byte1 _ _ isAt => .single isAt fun byte2 _ _ isAt =>
        .nothing isAt trivial
  | 9 => exact unwDecodeX1_reads isAt
  | 10 => exact unwDecodeX2_reads isAt
  | 11 => exact unwDecodeX3_reads isAt
  | 12 => exact unwDecodeX4_reads isAt
  | 2 | 3 | 4 | 5 | 6 | 7 | 8 | 13 | 14 | low + 16 => exact .nothing isAt trivial

end Formats

/-- The code of a spill mask. -/
theorem spillMask_code (code : Byte) (primary : (code >>> 5).toNat = 5) : code = 0xb8 ↔
    ¬code &&& 0x10 = 0 ∧ ¬code &&& 0x08 = 0 ∧ code &&& 0x7 = 0 := by
  revert code
  decide

/-- The descriptors of a kind. -/
def DescriptorKind.Makes : DescriptorKind → Descriptor → Prop
  | .header body rlen, d => ∃ mask grsave, d = .prologue body rlen mask grsave
  | .mask, d => d = .spillMask
  | .other, d => d.IsPlain

theorem unwDecodeP2P5_reads {code : Byte} (isAt : PointsTo area dp suffix)
    (primary : (code >>> 5).toNat = 5) :
    Decodes area dp suffix (layoutP2P5 code)
      (if code = 0xb8 then DescriptorKind.mask else DescriptorKind.other).Makes
      (unwDecodeP2P5 area dp code) := by
  have isMask := spillMask_code code primary
  rw [layoutP2P5, unwDecodeP2P5]
  by_cases p2 : code &&& 0x10 = 0
  · rw [if_pos p2, if_pos p2, if_neg fun same => (isMask.mp same).1 p2]
    exact .single isAt fun byte1 _ _ isAt => .nothing isAt trivial
  rw [if_neg p2, if_neg p2]
  by_cases p3 : code &&& 0x08 = 0
  · rw [if_pos p3, if_pos p3, if_neg fun same => (isMask.mp same).2.1 p3]
    exact .single isAt fun byte1 _ _ isAt => .nothing isAt (descriptorP3_isPlain _ _)
  rw [if_neg p3, if_neg p3]
  by_cases p4 : code &&& 0x7 = 0
  · have notP5 : ¬code &&& 0x7 = 1 := by
      rw [p4]
      decide
    rw [if_neg notP5, if_pos p4, if_pos (isMask.mpr ⟨p2, p3, p4⟩)]
    exact .nothing isAt rfl
  rw [if_neg p4, if_neg fun same => p4 (isMask.mp same).2.2]
  by_cases p5 : code &&& 0x7 = 1
  · rw [if_pos p5, if_pos p5]
    exact .single isAt fun byte1 _ _ isAt => .single isAt fun byte2 _ _ isAt =>
      .single isAt fun byte3 _ _ isAt => .nothing isAt trivial
  · rw [if_neg p5, if_neg p5]
    exact .nothing isAt trivial

/-- The decoder reads the operands of the descriptor, and makes one of its kind. -/
theorem unwDecode_reads {code : Byte} {operands : List Byte} (insideBody : Bool)
    (isAt : PointsTo area dp (code :: operands)) :
    Decodes area (dp + 1) operands (operandLayout insideBody code)
      (descriptorKind insideBody code operands).Makes (unwDecode area dp insideBody) := by
  obtain ⟨read, isAt'⟩ := isAt.next
  have small : (code >>> 5).toNat < 8 := by
    rw [BitVec.toNat_ushiftRight, Nat.shiftRight_eq_div_pow]
    have := code.isLt
    omega
  unfold operandLayout descriptorKind
  rw [unwDecode, read, ok_bind]
  dsimp only
  generalize primaryIs : (code >>> 5).toNat = primary at small
  match primary, small with
  | 0, _ => exact .nothing isAt' ⟨0, 32, rfl⟩
  | 1, _ => exact .nothing isAt' ⟨0, 32, rfl⟩
  | 2, _ =>
      refine .single isAt' fun byte1 rest front isAt => .number isAt fun rlen _ _ number isAt =>
        .nothing isAt ?_
      have value : ((readNumber operands.tail).map Prod.fst).getD 0 = rlen := by
        rw [front, List.tail_cons, number]
        rfl
      rw [value]
      exact ⟨_, _, rfl⟩
  | 3, _ =>
      refine .number isAt' fun rlen _ _ number isAt => .nothing isAt ?_
      rw [number]
      exact ⟨0, 32, rfl⟩
  | 4, _ =>
      cases insideBody with
      | true => exact .nothing isAt' (Descriptor.isPlain_ite trivial trivial)
      | false => exact .nothing isAt' trivial
  | 5, _ =>
      cases insideBody with
      | true => exact .nothing isAt' (Descriptor.isPlain_ite trivial trivial)
      | false => exact unwDecodeP2P5_reads isAt' primaryIs
  | 6, _ =>
      cases insideBody with
      | true => exact .number isAt' fun t _ _ _ isAt => .nothing isAt trivial
      | false => exact .nothing isAt' (Descriptor.isPlain_ite trivial trivial)
  | 7, _ =>
      cases insideBody with
      | true => exact unwDecodeB3X4_reads isAt' code
      | false => exact unwDecodeP7P10_reads isAt' code

/-! ## The loop -/

/-- One round of the loop, for the descriptor that it is at. -/
theorem Parsing.advance_cases {base : Pools} {s : Parsing} {o : Owners} {code : Byte}
    {operands : List Byte} (owns : Owns base s.parse o) (isAt : PointsTo area s.dp (code :: operands)) :
    let layout := operandLayout s.parse.sr.region.inBody code
    (skipOperands layout.2 layout.1 operands = none ∧ s.advance area = .error .undefined) ∨
      ∃ d dp rest, skipOperands layout.2 layout.1 operands = some rest ∧ PointsTo area dp rest ∧
        s.dp < dp ∧ (descriptorKind s.parse.sr.region.inBody code operands).Makes d ∧
        ((s.parse.sr.region.Allows area d ∧ ∃ s' o', s.advance area = .ok s' ∧
            s'.dp = s.parse.sr.region.moved dp d ∧ Owns base s'.parse o' ∧
            s'.parse.sr.region = s.parse.sr.region.after dp d) ∨
          (¬s.parse.sr.region.Allows area d ∧ s.advance area = .error .undefined)) := by
  rw [Parsing.advance]
  rcases unwDecode_reads s.parse.sr.inBody isAt with ⟨few, undefined⟩ |
    ⟨d, dp, rest, skips, decoded, isAt', later, makes⟩
  · rw [undefined]
    exact .inl ⟨few, rfl⟩
  · refine .inr ⟨d, dp, rest, skips, isAt', by omega, makes, ?_⟩
    rw [decoded, ok_bind]
    dsimp only
    rcases owns.perform area dp d with ⟨allows, parse', o', performed, owns', -, region⟩ |
      ⟨stuck, undefined⟩
    · rw [performed]
      exact .inl ⟨allows, _, o', rfl, rfl, owns', region⟩
    · rw [undefined]
      exact .inr ⟨stuck, rfl⟩

/-- A round for a descriptor with all of its operands. -/
theorem Parsing.advance_ok {base : Pools} {s : Parsing} {o : Owners} {code : Byte}
    {operands : List Byte} {kind : DescriptorKind} (owns : Owns base s.parse o)
    (isAt : PointsTo area s.dp (code :: operands))
    (skips : skipOperands (operandLayout s.parse.sr.region.inBody code).2
      (operandLayout s.parse.sr.region.inBody code).1 operands = some rest)
    (isKind : descriptorKind s.parse.sr.region.inBody code operands = kind)
    (allows : ∀ d, kind.Makes d → s.parse.sr.region.Allows area d) :
    ∃ d dp s' o', PointsTo area dp rest ∧ s.dp < dp ∧ kind.Makes d ∧ s.advance area = .ok s' ∧
      s'.dp = s.parse.sr.region.moved dp d ∧ Owns base s'.parse o' ∧
      s'.parse.sr.region = s.parse.sr.region.after dp d := by
  subst isKind
  rcases advance_cases owns isAt with ⟨few, -⟩ |
    ⟨d, dp, rest', skips', isAt', later, makes, ⟨-, s', o', round⟩ | ⟨stuck, -⟩⟩
  · exact nomatch few.symm.trans skips
  · obtain rfl := Option.some_inj.mp (skips.symm.trans skips')
    exact ⟨d, dp, s', o', isAt', later, makes, round⟩
  · exact absurd (allows d makes) stuck

/-- What was read in a round that is defined. -/
theorem Parsing.of_advance_ok {base : Pools} {s s' : Parsing} {o : Owners} {code : Byte}
    {operands : List Byte} (owns : Owns base s.parse o)
    (isAt : PointsTo area s.dp (code :: operands)) (advanced : s.advance area = .ok s') :
    ∃ d dp rest o', skipOperands (operandLayout s.parse.sr.region.inBody code).2
        (operandLayout s.parse.sr.region.inBody code).1 operands = some rest ∧
      PointsTo area dp rest ∧ s.dp < dp ∧
      (descriptorKind s.parse.sr.region.inBody code operands).Makes d ∧
      s.parse.sr.region.Allows area d ∧ s'.dp = s.parse.sr.region.moved dp d ∧
      Owns base s'.parse o' ∧ s'.parse.sr.region = s.parse.sr.region.after dp d := by
  rcases advance_cases owns isAt with ⟨-, undefined⟩ |
    ⟨d, dp, rest, skips, isAt', later, makes, ⟨allows, s'', o', isOk, round⟩ | ⟨-, undefined⟩⟩
  · exact nomatch undefined.symm.trans advanced
  · obtain rfl := Except.ok.inj (isOk.symm.trans advanced)
    exact ⟨d, dp, rest, o', skips, isAt', later, makes, allows, round⟩
  · exact nomatch undefined.symm.trans advanced

/-- From here on, each round of the loop is defined and moves on. -/
def Steady (area : List Byte) (s : Parsing) : Prop :=
  ∀ t, WhileLoop.Reaches (Parsing.goesOn area) (Parsing.advance area) s t →
    t.goesOn area = true → ∃ t', t.advance area = .ok t' ∧ t.dp < t'.dp

theorem Steady.stopped {s : Parsing} (stopped : s.goesOn area = false) : Steady area s := by
  intro t reaches goesOn
  cases reaches with
  | refl => exact nomatch stopped.symm.trans goesOn
  | step enter => exact nomatch stopped.symm.trans enter

theorem Steady.round {s s' : Parsing} (advanced : s.advance area = .ok s') (further : s.dp < s'.dp)
    (steady : Steady area s') : Steady area s := by
  intro t reaches goesOn
  cases reaches with
  | refl => exact ⟨s', advanced, further⟩
  | step enter round rest =>
      obtain rfl := Except.ok.inj (advanced.symm.trans round)
      exact steady t rest goesOn

theorem Steady.next {s s' : Parsing} (steady : Steady area s) (goesOn : s.goesOn area = true)
    (advanced : s.advance area = .ok s') : Steady area s' :=
  fun t reaches => steady t (.step goesOn advanced reaches)

/-- A steady loop comes to its end. -/
theorem Steady.ends {s : Parsing} (steady : Steady area s) {budget : Nat}
    (enough : area.length - s.dp ≤ budget) :
    ∃ t, WhileLoop.run .timeout (Parsing.goesOn area) (Parsing.advance area) budget s = .ok t := by
  induction budget generalizing s with
  | zero =>
      have stopped : s.goesOn area = false := by
        rw [Parsing.goesOn, decide_eq_false (by omega), Bool.and_false]
      exact ⟨s, WhileLoop.run_exit stopped 0⟩
  | succ budget ih =>
      cases goesOn : s.goesOn area with
      | false => exact ⟨s, WhileLoop.run_exit goesOn _⟩
      | true =>
          obtain ⟨s', advanced, further⟩ := steady s (.refl s) goesOn
          obtain ⟨t, ended⟩ := ih (steady.next goesOn advanced) (by omega)
          exact ⟨t, (WhileLoop.run_next goesOn advanced budget).trans ended⟩

/-! ## Descriptors that are well formed -/

theorem PointsTo.of_cons {byte : Byte} (nonneg : 0 ≤ dp) (drop : area.drop dp.toNat = byte :: rest) :
    PointsTo area dp (byte :: rest) := by
  refine ⟨nonneg, ?_, drop⟩
  have count := congrArg List.length drop
  rw [List.length_drop, List.length_cons] at count
  omega

/-- Only the one code of a spill mask is the code of one, and nothing is behind it. -/
theorem operandLayout_of_mask {insideBody : Bool} {code : Byte} {operands : List Byte}
    (isMask : descriptorKind insideBody code operands = .mask) :
    operandLayout insideBody code = (0, 0) := by
  unfold descriptorKind at isMask
  split at isMask
  case h_5 =>
    split at isMask
    next same =>
      rw [same]
      rfl
    next => exact nomatch isMask
  all_goals exact nomatch isMask

namespace Descriptor.IsPlain

variable {d : Descriptor} {r : Region}

theorem allows (isPlain : d.IsPlain) : r.Allows area d := by
  cases d with
  | prologue => exact isPlain.elim
  | _ => trivial

theorem after_eq (isPlain : d.IsPlain) : r.after dp d = r := by
  cases d with
  | prologue | spillMask => exact isPlain.elim
  | _ => rfl

theorem moved_eq (isPlain : d.IsPlain) : r.moved dp d = dp := by
  cases d with
  | spillMask => exact isPlain.elim
  | _ => rfl

end Descriptor.IsPlain

/-- The bytes behind a spill mask. -/
theorem PointsTo.behind_mask {length : Int} (isAt : PointsTo area dp suffix) (nonneg : 0 ≤ length) :
    area.drop (dp + length).toNat = suffix.drop length.toNat := by
  rw [Int.toNat_add isAt.nonneg nonneg, ← List.drop_drop, isAt.drop]

theorem PointsTo.toNat_eq (isAt : PointsTo area dp suffix) : dp.toNat = area.length - suffix.length := by
  have := isAt.eq_length
  omega

/-- The loop over descriptors that are well formed is steady. -/
theorem WellFormed.steady {r : Region} (wellFormed : WellFormed area r suffix) {base : Pools}
    {s : Parsing} {o : Owners} (owns : Owns base s.parse o) (region : s.parse.sr.region = r)
    (nonneg : 0 ≤ s.dp) (drop : area.drop s.dp.toNat = suffix) : Steady area s := by
  induction wellFormed generalizing s o with
  | nil =>
      have beyond := List.drop_eq_nil_iff.mp drop
      have stopped : s.goesOn area = false := by
        rw [Parsing.goesOn, decide_eq_false (by omega), Bool.and_false]
      exact .stopped stopped
  | @last r code operands _ body rlen skips kind leaves target =>
      obtain rfl := region
      obtain ⟨_, dp, s', o', -, later, ⟨mask, grsave, rfl⟩, advanced, moved, -, after⟩ :=
        Parsing.advance_ok owns (.of_cons nonneg drop) skips kind
          (fun _ ⟨_, _, isHeader⟩ => isHeader ▸ leaves)
      have done : s'.parse.sr.done = true := congrArg Region.done (after.trans (if_pos target))
      refine .round advanced (moved ▸ later) (.stopped ?_)
      rw [Parsing.goesOn, done]
      rfl
  | @header r code operands _ body rlen skips kind leaves noTarget _ ih =>
      obtain rfl := region
      obtain ⟨_, dp, s', o', isAt, later, ⟨mask, grsave, rfl⟩, advanced, moved, owns', after⟩ :=
        Parsing.advance_ok owns (.of_cons nonneg drop) skips kind
          (fun _ ⟨_, _, isHeader⟩ => isHeader ▸ leaves)
      have moved : s'.dp = dp := moved
      refine .round advanced (moved ▸ later) (ih owns' (after.trans (if_neg noTarget)) ?_ ?_)
      · exact moved ▸ isAt.nonneg
      · exact moved ▸ isAt.drop
  | @mask r code operands kind maskNonneg _ ih =>
      obtain rfl := region
      have skips : skipOperands (operandLayout s.parse.sr.region.inBody code).2
          (operandLayout s.parse.sr.region.inBody code).1 operands = some operands := by
        rw [operandLayout_of_mask kind]
        rfl
      obtain ⟨_, dp, s', o', isAt, later, rfl, advanced, moved, owns', after⟩ :=
        Parsing.advance_ok owns (.of_cons nonneg drop) skips kind
          (fun _ isMask => isMask ▸ trivial)
      have moved : s'.dp = dp + s.parse.sr.region.maskLength := moved
      have after : s'.parse.sr.region =
          { s.parse.sr.region with imask := some (area.length - operands.length) } := by
        rw [after, ← isAt.toNat_eq]
        rfl
      refine .round advanced (by omega) (ih owns' after (by omega) ?_)
      rw [moved, isAt.behind_mask maskNonneg]
  | @other r code operands _ skips kind _ ih =>
      obtain rfl := region
      obtain ⟨d, dp, s', o', isAt, later, isPlain, advanced, moved, owns', after⟩ :=
        Parsing.advance_ok owns (.of_cons nonneg drop) skips kind
          (fun _ isPlain => Descriptor.IsPlain.allows isPlain)
      have isPlain : d.IsPlain := isPlain
      rw [isPlain.moved_eq] at moved
      rw [isPlain.after_eq] at after
      exact .round advanced (moved ▸ later)
        (ih owns' after (moved ▸ isAt.nonneg) (moved ▸ isAt.drop))

/-- Only the loop over descriptors that are well formed is steady. -/
theorem Steady.wellFormed {base : Pools} {s : Parsing} {o : Owners} (steady : Steady area s)
    (owns : Owns base s.parse o) (goesOn : s.parse.sr.region.done = false) (nonneg : 0 ≤ s.dp)
    (drop : area.drop s.dp.toNat = suffix) : WellFormed area s.parse.sr.region suffix := by
  induction count : suffix.length using Nat.strong_induction_on generalizing suffix s o with
  | _ n ih =>
  subst count
  cases suffix with
  | nil => exact .nil
  | cons code operands =>
      have isAt := PointsTo.of_cons nonneg drop
      have enter : s.goesOn area = true := by
        have := isAt.eq_length
        rw [List.length_cons] at this
        rw [Parsing.goesOn, show s.parse.sr.done = false from goesOn, decide_eq_true (by omega)]
        rfl
      obtain ⟨s', round, further⟩ := steady s (.refl s) enter
      have steady' := steady.next enter round
      obtain ⟨d, dp, rest, o', skips, isAt', later, makes, allows, moved, owns', after⟩ :=
        Parsing.of_advance_ok owns isAt round
      have here := isAt.eq_length
      have there := isAt'.eq_length
      have shorter : rest.length < (code :: operands).length := by omega
      cases kind : descriptorKind s.parse.sr.region.inBody code operands with
      | header body rlen =>
          rw [kind] at makes
          obtain ⟨mask, grsave, rfl⟩ := makes
          by_cases target : s.parse.sr.region.HasTarget
          · exact .last skips kind allows target
          · have moved : s'.dp = dp := moved
            have after : s'.parse.sr.region = s.parse.sr.region.enter body rlen :=
              after.trans (if_neg target)
            refine .header skips kind allows target ?_
            rw [← after]
            exact ih _ shorter steady' owns' (after ▸ goesOn) (moved ▸ isAt'.nonneg)
              (moved ▸ isAt'.drop) rfl
      | mask =>
          rw [operandLayout_of_mask kind] at skips
          obtain rfl : operands = rest := Option.some_inj.mp skips
          rw [kind] at makes
          obtain rfl : d = .spillMask := makes
          rw [List.length_cons] at here
          have moved : s'.dp = dp + s.parse.sr.region.maskLength := moved
          have maskNonneg : 0 ≤ s.parse.sr.region.maskLength := by omega
          have after : s'.parse.sr.region =
              { s.parse.sr.region with imask := some (area.length - operands.length) } := by
            rw [after, ← isAt'.toNat_eq]
            rfl
          refine .mask kind maskNonneg ?_
          rw [← after]
          refine ih _ ?_ steady' owns' (after ▸ goesOn) (by omega) ?_ rfl
          · rw [List.length_drop, List.length_cons]
            omega
          · rw [moved, isAt'.behind_mask maskNonneg]
      | other =>
          rw [kind] at makes
          have isPlain : d.IsPlain := makes
          rw [isPlain.moved_eq] at moved
          rw [isPlain.after_eq] at after
          refine .other skips kind ?_
          rw [← after]
          exact ih _ shorter steady' owns' (after ▸ goesOn) (moved ▸ isAt'.nonneg)
            (moved ▸ isAt'.drop) rfl

/-! ## The descriptors of a procedure -/

/-- No records are out, and none will be granted. -/
def Pools.none : Pools where
  regs := .empty
  labels := .empty
  grants _ := false
  asked := 0

namespace Parsing

/-- The loop's variables before the first round. -/
def start (whenTarget : Int) (prVal : Word 64) (pools : Pools) : Parsing :=
  ⟨0, ⟨.initial whenTarget prVal, pools⟩⟩

/-- Each round of the loop moves on and reads what is in the area only, and the loop ends. -/
def StaysInArea (area : List Byte) (s : Parsing) : Prop :=
  Steady area s ∧ ∃ budget t,
    WhileLoop.run .timeout (goesOn area) (advance area) budget s = .ok t

/-- The loop over the descriptors of a procedure moves on, ends, and reads what is among them only,
    exactly where the descriptors are well formed. -/
theorem start_staysInArea_iff (area : List Byte) (whenTarget : Int) (prVal : Word 64)
    (pools : Pools) : StaysInArea area (start whenTarget prVal pools) ↔
      WellFormed area (StateRecord.initial whenTarget prVal).region area := by
  have owns := Owns.initial whenTarget prVal pools
  constructor
  · rintro ⟨steady, -⟩
    exact steady.wellFormed (s := start whenTarget prVal pools) owns rfl le_rfl rfl
  · intro wellFormed
    have steady : Steady area (start whenTarget prVal pools) :=
      wellFormed.steady owns rfl le_rfl rfl
    have enough : (area.length : Int) - (start whenTarget prVal pools).dp ≤ area.length :=
      (Int.sub_zero _).le
    exact ⟨steady, area.length, steady.ends enough⟩

/-- The header of a prologue of -8 instructions, and a spill mask. -/
def negativeRegion : List Byte := [0x60, 0xf8, 0xff, 0xff, 0xff, 0x0f, 0xb8, 0x00]

/-- A spill mask in a region of length -8 ends where it starts, and a header without its length is read
    beyond the end. -/
theorem not_start_staysInArea : ¬StaysInArea negativeRegion (start 0 0 .none) ∧
    ¬StaysInArea [0x60] (start 0 0 .none) := by
  constructor
  · rintro ⟨steady, -⟩
    let s : Parsing := ⟨6, ((start 0 0 .none).parse.descPrologue negativeRegion false
      0xfffffff8 0 32).toOption.getD (start 0 0 .none).parse⟩
    have first : (start 0 0 .none).advance negativeRegion = .ok s := rfl
    obtain ⟨t, second, further⟩ := steady s (.step rfl first (.refl s)) rfl
    have stays : t.dp = s.dp := by
      obtain rfl := Except.ok.inj second
      rfl
    omega
  · rintro ⟨steady, -⟩
    obtain ⟨s, first, -⟩ := steady _ (.refl _) rfl
    exact nomatch first

end Parsing

end Libunwind.Ia64
