import Libunwind.Basic

/-! # The fields of a maps line

The scanners of `os-linux.h` walk over a C string, which is a list here: its end is
the terminating NUL, and `NULL` is `none`. `maps_next` gives every line of a process'
map to them in turn and reports what they found.
-/

namespace Libunwind.Maps

/-- A byte of the text, by its character. -/
abbrev ofChar (c : Char) : Byte := .ofNat 8 c.toNat

def isBlank (b : Byte) : Bool := b == ofChar ' ' || b == ofChar '\t'

def skipWhitespace (s : List Byte) : List Byte := s.dropWhile isBlank

def hexDigit (b : Byte) : Option Nat :=
  if b - ofChar '0' ≤ 9 then some (b - ofChar '0').toNat
  else if b - ofChar 'A' < 6 then some (b - (ofChar 'A' - 10)).toNat
  else if b - ofChar 'a' < 6 then some (b - (ofChar 'a' - 10)).toNat
  else none

def decDigit (b : Byte) : Option Nat :=
  if b - ofChar '0' ≤ 9 then some (b - ofChar '0').toNat else none

variable {w : Nat}

section Numbers

variable (digit : Byte → Option Nat) (push : Word w → Nat → Word w)

/-- The loop of `scan_hex` and `scan_dec`. -/
def digitsLoop : List Byte → Word w → Nat → Word w × Nat × List Byte
  | [], val, numDigits => (val, numDigits, [])
  | b :: s, val, numDigits =>
      match digit b with
      | some d => digitsLoop s (push val d) (numDigits + 1)
      | none => (val, numDigits, b :: s)

def scanNumber (s : List Byte) : Option (Word w × List Byte) :=
  let (val, numDigits, rest) := digitsLoop digit push (skipWhitespace s) 0 0
  if numDigits = 0 then none else some (val, rest)

end Numbers

def scanHex : List Byte → Option (Word w × List Byte) :=
  scanNumber hexDigit fun val digit => val <<< 4 ||| .ofNat w digit

def scanDec : List Byte → Option (Word w × List Byte) :=
  scanNumber decDigit fun val digit => 10 * val + .ofNat w digit

/-- It does not step over the terminator. -/
def scanChar : List Byte → Byte × List Byte
  | [] => (0, [])
  | b :: s => (b, s)

/-- A string delimited by white-space, as much of it as a buffer of `size` bytes holds. -/
def scanString (size : Nat) (s : List Byte) : Option (List Byte × List Byte) :=
  let s := skipWhitespace s
  let stored := (s.takeWhile fun b => !isBlank b).take (size - 1)
  if stored = [] then none else some (stored, s.dropWhile fun b => !isBlank b)

/-- What `maps_next` reports about a line. -/
structure Record (w : Nat) where
  low : Word w
  high : Word w
  offset : Word w
  flags : Word w
  path : List Byte
  deriving DecidableEq, Repr

/-- What is scanned of a line before its inode number. -/
structure Head (w : Nat) where
  low : Word w
  dash : Byte
  high : Word w
  perm : List Byte
  offset : Word w
  colon : Byte
  deriving DecidableEq, Repr

/-- `LOW-HIGH PERM OFFSET MAJOR:MINOR`. -/
def scanHead (s : List Byte) : Option (Head w × List Byte) := do
  let (low, s) ← scanHex s
  let (dash, s) := scanChar s
  let (high, s) ← scanHex s
  let (perm, s) ← scanString 16 s
  let (offset, s) ← scanHex s
  let (_major, s) ← scanHex (w := w) s
  let (colon, s) := scanChar s
  let (_minor, s) ← scanHex (w := w) s
  pure ({ low, dash, high, perm, offset, colon }, s)

/-- `PROT_READ`, `PROT_WRITE` and `PROT_EXEC`. The array behind a shorter string is not
    initialised, and is read as NUL here. -/
def protFlags (perm : List Byte) : Word w :=
  (if perm.getD 0 0 = ofChar 'r' then 1 else 0) |||
    (if perm.getD 1 0 = ofChar 'w' then 2 else 0) |||
    (if perm.getD 2 0 = ofChar 'x' then 4 else 0)

/-- What `maps_next` makes of one line; it skips the line where there is no record. -/
def parseLine (s : List Byte) : Option (Record w) := do
  let (head, s) ← scanHead s
  let (_inum, s) ← scanDec (w := w) s
  let path := skipWhitespace s
  -- skip line with unknown or bad format
  if head.dash ≠ ofChar '-' ∨ head.colon ≠ ofChar ':' then none
  else some { low := head.low, high := head.high, offset := head.offset,
              flags := protFlags head.perm, path }

/-! ## Scanners on a string that goes on -/

/-- A scanner leaves a rest of its string, and finds the same when there is more
    behind a rest that is not empty. -/
structure Resumes {α : Type} (scan : List Byte → Option (α × List Byte)) : Prop where
  suffix : ∀ {s v rest}, scan s = some (v, rest) → rest <:+ s
  extend : ∀ {s v rest} (more : List Byte), scan s = some (v, rest) → rest ≠ [] →
    scan (s ++ more) = some (v, rest ++ more)

section Resumes

variable {α β : Type}

theorem Resumes.pure (v : α) : Resumes fun s => some (v, s) where
  suffix h := by
    cases h
    exact List.suffix_rfl
  extend more h _ := by
    cases h
    rfl

theorem Resumes.bind {scan : List Byte → Option (α × List Byte)}
    {next : α × List Byte → Option (β × List Byte)} (first : Resumes scan)
    (second : ∀ v, Resumes fun s => next (v, s)) : Resumes fun s => (scan s).bind next where
  suffix {s v rest} h := by
    obtain ⟨p, scanned, h⟩ := Option.bind_eq_some_iff.mp h
    exact ((second p.1).suffix h).trans (first.suffix scanned)
  extend {s v rest} more h left := by
    obtain ⟨p, scanned, h⟩ := Option.bind_eq_some_iff.mp h
    have kept : p.2 ≠ [] := by
      intro empty
      exact left (List.suffix_nil.mp (empty ▸ (second p.1).suffix h))
    simp only [first.extend more scanned kept, Option.bind_some]
    exact (second p.1).extend more h left

theorem resumes_scanChar : Resumes fun s => some (scanChar s) where
  suffix {s v rest} h := by
    cases s with
    | nil =>
        cases h
        exact List.suffix_rfl
    | cons b s =>
        cases h
        exact List.suffix_cons _ _
  extend {s v rest} more h left := by
    cases s with
    | nil =>
        cases h
        exact absurd rfl left
    | cons b s =>
        cases h
        rfl

theorem dropWhile_append_of_ne_nil {p : Byte → Bool} {s : List Byte} (more : List Byte)
    (left : s.dropWhile p ≠ []) : (s ++ more).dropWhile p = s.dropWhile p ++ more := by
  rw [List.dropWhile_append, if_neg (by simpa using left)]

theorem takeWhile_append_of_ne_nil {p : Byte → Bool} {s : List Byte} (more : List Byte)
    (left : s.dropWhile p ≠ []) : (s ++ more).takeWhile p = s.takeWhile p := by
  induction s with
  | nil => exact absurd rfl left
  | cons b s ih =>
      by_cases holds : p b = true
      · simp only [List.dropWhile_cons_of_pos holds] at left
        simp only [List.cons_append, List.takeWhile_cons_of_pos holds, ih left]
      · simp only [List.cons_append, List.takeWhile_cons_of_neg holds]

theorem resumes_scanString (size : Nat) : Resumes (scanString size) where
  suffix {s v rest} h := by
    simp only [scanString, Option.ite_none_left_eq_some, Option.some.injEq, Prod.mk.injEq] at h
    obtain ⟨_, _, rfl⟩ := h
    exact (List.dropWhile_suffix _).trans (List.dropWhile_suffix _)
  extend {s v rest} more h left := by
    simp only [scanString, Option.ite_none_left_eq_some, Option.some.injEq, Prod.mk.injEq] at h
    obtain ⟨found, rfl, rfl⟩ := h
    have kept : skipWhitespace s ≠ [] := by
      intro empty
      simp only [empty, List.dropWhile_nil] at left
      exact left rfl
    have skipped : skipWhitespace (s ++ more) = skipWhitespace s ++ more :=
      dropWhile_append_of_ne_nil more kept
    simp only [scanString, skipped, takeWhile_append_of_ne_nil more left,
      dropWhile_append_of_ne_nil more left, if_neg found]

variable {digit : Byte → Option Nat} {push : Word w → Nat → Word w}

theorem digitsLoop_suffix (s : List Byte) (val : Word w) (n : Nat) :
    (digitsLoop digit push s val n).2.2 <:+ s := by
  induction s generalizing val n with
  | nil => exact List.suffix_rfl
  | cons b s ih =>
      cases read : digit b with
      | some d =>
          simp only [digitsLoop, read]
          exact (ih _ _).trans (List.suffix_cons _ _)
      | none =>
          simp only [digitsLoop, read]
          exact List.suffix_rfl

theorem digitsLoop_extend {s : List Byte} (more : List Byte) {val : Word w} {n : Nat}
    (left : (digitsLoop digit push s val n).2.2 ≠ []) :
    digitsLoop digit push (s ++ more) val n =
      ((digitsLoop digit push s val n).1, (digitsLoop digit push s val n).2.1,
        (digitsLoop digit push s val n).2.2 ++ more) := by
  induction s generalizing val n with
  | nil => exact absurd rfl left
  | cons b s ih =>
      cases read : digit b with
      | some d =>
          simp only [digitsLoop, read] at left
          simp only [List.cons_append, digitsLoop, read]
          exact ih left
      | none => simp only [List.cons_append, digitsLoop, read]

theorem resumes_scanNumber : Resumes (scanNumber digit push) where
  suffix {s v rest} h := by
    simp only [scanNumber, Option.ite_none_left_eq_some, Option.some.injEq, Prod.mk.injEq] at h
    obtain ⟨_, _, rfl⟩ := h
    exact (digitsLoop_suffix _ _ _).trans (List.dropWhile_suffix _)
  extend {s v rest} more h left := by
    simp only [scanNumber, Option.ite_none_left_eq_some, Option.some.injEq, Prod.mk.injEq] at h
    obtain ⟨found, rfl, rfl⟩ := h
    have kept : skipWhitespace s ≠ [] := by
      intro empty
      simp only [empty, digitsLoop] at left
      exact left rfl
    have skipped : skipWhitespace (s ++ more) = skipWhitespace s ++ more :=
      dropWhile_append_of_ne_nil more kept
    simp only [scanNumber, skipped, digitsLoop_extend more left, if_neg found]

theorem resumes_scanHex : Resumes (scanHex (w := w)) := resumes_scanNumber

theorem resumes_scanHead : Resumes (scanHead (w := w)) := by
  change Resumes fun s => (scanHex s).bind fun low => (some (scanChar low.2)).bind fun dash =>
    (scanHex dash.2).bind fun high => (scanString 16 high.2).bind fun perm =>
    (scanHex perm.2).bind fun offset => (scanHex (w := w) offset.2).bind fun major =>
    (some (scanChar major.2)).bind fun colon => (scanHex (w := w) colon.2).bind fun minor =>
    some (Head.mk low.1 dash.1 high.1 perm.1 offset.1 colon.1, minor.2)
  apply resumes_scanHex.bind
  intro low
  dsimp only
  apply resumes_scanChar.bind
  intro dash
  dsimp only
  apply resumes_scanHex.bind
  intro high
  dsimp only
  apply (resumes_scanString 16).bind
  intro perm
  dsimp only
  apply resumes_scanHex.bind
  intro offset
  dsimp only
  apply (resumes_scanHex (w := w)).bind
  intro major
  dsimp only
  apply resumes_scanChar.bind
  intro colon
  dsimp only
  apply (resumes_scanHex (w := w)).bind
  intro minor
  exact .pure _

end Resumes

end Libunwind.Maps
