import Libunwind.Maps.Scan

/-! # Well-formed maps lines

`LOW-HIGH PERM OFFSET MAJOR:MINOR INUM PATH`, with any white-space between the fields and
a path of any length, and what such a line says. The scanners of `maps_next` read it
back.
-/

namespace Libunwind.Maps

variable {w : Nat}

def isHex (b : Byte) : Bool := (hexDigit b).isSome

def isDec (b : Byte) : Bool := (decDigit b).isSome

/-- The number that a sequence of digits in a base stands for. -/
def valueIn (base : Nat) (digit : Byte → Option Nat) (digits : List Byte) : Nat :=
  digits.foldl (fun value b => base * value + (digit b).getD 0) 0

abbrev hexValue : List Byte → Nat := valueIn 16 hexDigit

/-- A hexadecimal number that a word holds. -/
structure HexField (w : Nat) where
  digits : List Byte
  nonempty : digits ≠ []
  hex : ∀ b ∈ digits, isHex b = true
  fits : hexValue digits < 2 ^ w

structure DecField where
  digits : List Byte
  nonempty : digits ≠ []
  dec : ∀ b ∈ digits, isDec b = true

/-- The white-space between two fields. -/
structure Gap where
  bytes : List Byte
  nonempty : bytes ≠ []
  blank : ∀ b ∈ bytes, isBlank b = true

structure Perms where
  read : Bool
  write : Bool
  exec : Bool
  shared : Bool

/-- What follows the inode number: nothing, or white-space and perhaps a path. -/
structure Tail where
  bytes : List Byte
  starts : ∀ b ∈ bytes.head?, isBlank b = true
  clean : ∀ b ∈ bytes, b ≠ ofChar '\n' ∧ b ≠ 0

structure MapsLine (w : Nat) where
  low : HexField w
  high : HexField w
  permGap : Gap
  perms : Perms
  offsetGap : Gap
  offset : HexField w
  majorGap : Gap
  major : HexField w
  minor : HexField w
  inumGap : Gap
  inum : DecField
  tail : Tail

def HexField.value (f : HexField w) : Word w := .ofNat w (hexValue f.digits)

def Perms.bytes (p : Perms) : List Byte :=
  [if p.read then ofChar 'r' else ofChar '-', if p.write then ofChar 'w' else ofChar '-',
    if p.exec then ofChar 'x' else ofChar '-', if p.shared then ofChar 's' else ofChar 'p']

def Perms.flags (p : Perms) : Word w :=
  (if p.read then 1 else 0) ||| (if p.write then 2 else 0) ||| (if p.exec then 4 else 0)

namespace MapsLine

variable (l : MapsLine w)

/-- The inode number and what is around it. -/
def inode : List Byte := l.inumGap.bytes ++ (l.inum.digits ++ l.tail.bytes)

/-- The line behind its lower address. -/
def afterLow : List Byte :=
  ofChar '-' :: (l.high.digits ++ (l.permGap.bytes ++ (l.perms.bytes ++ (l.offsetGap.bytes ++
    (l.offset.digits ++ (l.majorGap.bytes ++ (l.major.digits ++ ofChar ':' ::
      (l.minor.digits ++ l.inode))))))))

/-- The line, without its newline. -/
def bytes : List Byte := l.low.digits ++ l.afterLow

def path : List Byte := skipWhitespace l.tail.bytes

/-- What the line says. -/
def record : Record w where
  low := l.low.value
  high := l.high.value
  offset := l.offset.value
  flags := l.perms.flags
  path := l.path

/-- The line's part of the text of the file. -/
def text : List Byte := l.bytes ++ [ofChar '\n']

def head : Head w where
  low := l.low.value
  dash := ofChar '-'
  high := l.high.value
  perm := l.perms.bytes
  offset := l.offset.value
  colon := ofChar ':'

end MapsLine

/-! ## Reading a field -/

theorem isHex_of_isBlank {b : Byte} (blank : isBlank b = true) : isHex b = false := by
  simp only [isBlank, Bool.or_eq_true, beq_iff_eq] at blank
  cases blank with
  | inl space => rw [space]; rfl
  | inr tab => rw [tab]; rfl

theorem isDec_of_isBlank {b : Byte} (blank : isBlank b = true) : isDec b = false := by
  simp only [isBlank, Bool.or_eq_true, beq_iff_eq] at blank
  cases blank with
  | inl space => rw [space]; rfl
  | inr tab => rw [tab]; rfl

theorem isHex_of_isDec {b : Byte} (dec : isDec b = true) : isHex b = true := by
  simp only [isDec, decDigit] at dec
  by_cases small : b - ofChar '0' ≤ 9
  · simp only [isHex, hexDigit, if_pos small, Option.isSome_some]
  · simp only [if_neg small, Option.isSome_none, Bool.false_eq_true] at dec

theorem isBlank_of_isHex {b : Byte} (hex : isHex b = true) : isBlank b = false := by
  cases blank : isBlank b with
  | false => rfl
  | true => exact absurd hex (by simp only [isHex_of_isBlank blank, Bool.false_eq_true,
      not_false_eq_true])

set_option maxRecDepth 4000 in
theorem hexDigit_lt : ∀ b : Byte, (hexDigit b).getD 0 < 16 := by decide

/-- A string that does not go on with a digit. -/
def Ends (digit : Byte → Option Nat) (s : List Byte) : Prop :=
  ∀ b ∈ s.head?, digit b = none

@[simp] theorem skipWhitespace_gap (g : Gap) (s : List Byte) :
    skipWhitespace (g.bytes ++ s) = skipWhitespace s := by
  rw [skipWhitespace, List.dropWhile_append_of_pos g.blank]
  rfl

theorem skipWhitespace_of_head {s : List Byte} (solid : ∀ b ∈ s.head?, isBlank b = false) :
    skipWhitespace s = s := by
  cases s with
  | nil => rfl
  | cons b s => exact List.dropWhile_cons_of_neg (by simp [solid b rfl])

theorem ends_gap {digit : Byte → Option Nat} (blank : ∀ b, isBlank b = true → digit b = none)
    (g : Gap) (s : List Byte) : Ends digit (g.bytes ++ s) := by
  cases bytes : g.bytes with
  | nil => exact absurd bytes g.nonempty
  | cons b rest =>
      intro first isFirst
      simp only [List.cons_append, List.head?_cons, Option.mem_some_iff] at isFirst
      subst isFirst
      exact blank b (g.blank b (bytes ▸ List.mem_cons_self))

theorem hexDigit_of_isBlank (b : Byte) (blank : isBlank b = true) : hexDigit b = none :=
  Option.isSome_eq_false_iff.mp (isHex_of_isBlank blank) |> Option.isNone_iff_eq_none.mp

theorem decDigit_of_isBlank (b : Byte) (blank : isBlank b = true) : decDigit b = none :=
  Option.isSome_eq_false_iff.mp (isDec_of_isBlank blank) |> Option.isNone_iff_eq_none.mp

section Digits

variable {digit : Byte → Option Nat} {push : Word w → Nat → Word w}

theorem digitsLoop_digits {ds : List Byte} (all : ∀ b ∈ ds, (digit b).isSome = true)
    {rest : List Byte} (ends : Ends digit rest) (val : Word w) (n : Nat) :
    digitsLoop digit push (ds ++ rest) val n =
      (ds.foldl (fun val b => push val ((digit b).getD 0)) val, n + ds.length, rest) := by
  induction ds generalizing val n with
  | nil =>
      cases rest with
      | nil => rfl
      | cons b s => simp only [List.nil_append, digitsLoop, ends b rfl, List.foldl_nil,
          List.length_nil, Nat.add_zero]
  | cons b ds ih =>
      obtain ⟨d, read⟩ := Option.isSome_iff_exists.mp (all b List.mem_cons_self)
      simp only [List.cons_append, digitsLoop, read, List.foldl_cons, List.length_cons,
        Option.getD_some]
      rw [ih fun b member => all b (List.mem_cons_of_mem _ member)]
      simp only [Nat.add_assoc, Nat.add_comm 1]

theorem scanNumber_gap (g : Gap) (s : List Byte) :
    scanNumber digit push (g.bytes ++ s) = scanNumber digit push s := by
  simp only [scanNumber, skipWhitespace_gap]

theorem scanNumber_digits {ds : List Byte} (some' : ds ≠ [])
    (all : ∀ b ∈ ds, (digit b).isSome = true)
    (solid : ∀ b, (digit b).isSome = true → isBlank b = false)
    {rest : List Byte} (ends : Ends digit rest) :
    scanNumber digit push (ds ++ rest) =
      some (ds.foldl (fun val b => push val ((digit b).getD 0)) 0, rest) := by
  have start : skipWhitespace (ds ++ rest) = ds ++ rest := by
    apply skipWhitespace_of_head
    cases ds with
    | nil => exact absurd rfl some'
    | cons b ds =>
        intro first isFirst
        simp only [List.cons_append, List.head?_cons, Option.mem_some_iff] at isFirst
        subst isFirst
        exact solid b (all b List.mem_cons_self)
  have counted : ¬ 0 + ds.length = 0 := by
    simpa using some'
  simp only [scanNumber, start, digitsLoop_digits all ends, if_neg counted]

end Digits

/-- Shifting a digit in is arithmetic on the number read so far. -/
theorem shift_or_digit (val : Word w) {d : Nat} (small : d < 16) :
    val <<< 4 ||| BitVec.ofNat w d = BitVec.ofNat w (16 * val.toNat + d) := by
  apply BitVec.eq_of_toNat_eq
  have split : val.toNat <<< 4 ||| d = 16 * val.toNat + d := by
    rw [← Nat.shiftLeft_add_eq_or_of_lt (by simpa using small), Nat.shiftLeft_eq, Nat.mul_comm]
  simp only [BitVec.toNat_or, BitVec.toNat_shiftLeft, BitVec.toNat_ofNat, ← Nat.or_mod_two_pow,
    split]

theorem foldl_push_hex (ds : List Byte) (n : Nat) :
    ds.foldl (fun (val : Word w) b => val <<< 4 ||| .ofNat w ((hexDigit b).getD 0)) (.ofNat w n) =
      BitVec.ofNat w (ds.foldl (fun value b => 16 * value + (hexDigit b).getD 0) n) := by
  induction ds generalizing n with
  | nil => rfl
  | cons b ds ih =>
      rw [List.foldl_cons, List.foldl_cons, ← ih, shift_or_digit _ (hexDigit_lt b)]
      congr 1
      apply BitVec.eq_of_toNat_eq
      simp only [BitVec.toNat_ofNat, Nat.add_mod, Nat.mul_mod, Nat.mod_mod]

theorem scanHex_field (f : HexField w) {rest : List Byte} (ends : Ends hexDigit rest) :
    scanHex (f.digits ++ rest) = some (f.value, rest) := by
  rw [scanHex, scanNumber_digits f.nonempty f.hex (fun _ => isBlank_of_isHex) ends]
  exact congrArg (fun value => some (value, rest)) (foldl_push_hex f.digits 0)

theorem scanHex_gap (g : Gap) (s : List Byte) :
    scanHex (w := w) (g.bytes ++ s) = scanHex s := scanNumber_gap g s

theorem Perms.forall_bytes {property : Byte → Prop} (p : Perms)
    (letters : ∀ b ∈ [ofChar 'r', ofChar 'w', ofChar 'x', ofChar 's', ofChar 'p', ofChar '-'],
      property b) : ∀ b ∈ p.bytes, property b := by
  have pick (flag : Bool) {c d : Char} (first : property (ofChar c))
      (second : property (ofChar d)) : property (if flag then ofChar c else ofChar d) := by
    cases flag with
    | false => exact second
    | true => exact first
  simp only [List.forall_mem_cons] at letters
  obtain ⟨r, w, x, s, priv, dash, -⟩ := letters
  simp only [bytes, List.forall_mem_cons]
  exact ⟨pick _ r dash, pick _ w dash, pick _ x dash, pick _ s priv, nofun⟩

theorem Perms.solid (p : Perms) : ∀ b ∈ p.bytes, isBlank b = false := p.forall_bytes (by decide)

theorem scanString_gap (size : Nat) (g : Gap) (s : List Byte) :
    scanString size (g.bytes ++ s) = scanString size s := by
  simp only [scanString, skipWhitespace_gap]

theorem scanString_perms (p : Perms) (g : Gap) (s : List Byte) :
    scanString 16 (p.bytes ++ (g.bytes ++ s)) = some (p.bytes, g.bytes ++ s) := by
  have solid : ∀ b ∈ p.bytes, (!isBlank b) = true := by
    intro b member
    simp only [p.solid b member, Bool.not_false]
  obtain ⟨blank, more, bytes⟩ := List.exists_cons_of_ne_nil g.nonempty
  have stop : (!isBlank blank) = false := by
    simp only [g.blank blank (bytes ▸ List.mem_cons_self), Bool.not_true]
  have start : skipWhitespace (p.bytes ++ (g.bytes ++ s)) = p.bytes ++ (g.bytes ++ s) := by
    apply skipWhitespace_of_head
    intro b isFirst
    exact p.solid b (by simpa [Perms.bytes] using Or.inl isFirst.symm)
  rw [scanString, start, List.takeWhile_append_of_pos solid, List.dropWhile_append_of_pos solid,
    bytes]
  simp [stop, Perms.bytes]

theorem Perms.protFlags_bytes (p : Perms) : protFlags (w := w) p.bytes = p.flags := by
  obtain ⟨r, w, x, s⟩ := p
  cases r <;> cases w <;> cases x <;> rfl

/-! ## Reading a line -/

namespace MapsLine

variable (l : MapsLine w)

theorem scanHead_bytes : scanHead l.bytes = some (l.head, l.inode) := by
  have dash (s : List Byte) : Ends hexDigit (ofChar '-' :: s) := by
    rintro b ⟨⟩
    rfl
  have colon (s : List Byte) : Ends hexDigit (ofChar ':' :: s) := by
    rintro b ⟨⟩
    rfl
  have gap (g : Gap) (s : List Byte) : Ends hexDigit (g.bytes ++ s) :=
    ends_gap hexDigit_of_isBlank g s
  simp only [scanHead, bytes, afterLow, scanHex_field _ (dash _), Option.bind_eq_bind,
    Option.bind_some, scanChar, scanHex_field _ (gap _ _), scanString_gap, scanString_perms,
    scanHex_gap, scanHex_field _ (colon _)]
  have inode : Ends hexDigit l.inode := gap _ _
  rw [scanHex_field l.minor inode]
  rfl

theorem ends_tail : Ends decDigit l.tail.bytes :=
  fun b isFirst => decDigit_of_isBlank b (l.tail.starts b isFirst)

theorem scanDec_inode : ∃ inum, scanDec (w := w) l.inode = some (inum, l.tail.bytes) := by
  have solid : ∀ b, isDec b = true → isBlank b = false := fun _ dec =>
    isBlank_of_isHex (isHex_of_isDec dec)
  exact ⟨_, (scanNumber_gap _ _).trans
    (scanNumber_digits l.inum.nonempty l.inum.dec solid l.ends_tail)⟩

/-- `maps_next` reads a whole line as what it says. -/
theorem parseLine_bytes : parseLine l.bytes = some l.record := by
  obtain ⟨inum, scanned⟩ := l.scanDec_inode
  simp only [parseLine, scanHead_bytes, Option.bind_eq_bind, Option.bind_some, scanned]
  rw [if_neg (by simp [head])]
  exact congrArg some (congrArg (Record.mk l.low.value l.high.value l.offset.value · l.path)
    l.perms.protFlags_bytes)

end MapsLine

end Libunwind.Maps
