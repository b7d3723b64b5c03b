import Mathlib

/-! # Words, results and address spaces

`unw_word_t` is a bit vector whose width is the target's, so that every sum and
product wraps as it does in C. A routine that returns a negative number is an
`Except` value; `Fault` also has the two ways in which the C text gives no
result at all: behaviour it leaves undefined, and a loop that does not end.
-/

namespace Libunwind

/-- `unw_word_t` on a target with `w`-bit words. -/
abbrev Word (w : Nat) := BitVec w

abbrev Byte := BitVec 8

/-- `unw_error_t`; the routines return the negated codes. -/
inductive UnwError where
  | unspec
  | nomem
  | badreg
  | readonlyreg
  | stopunwind
  | invalidip
  | badframe
  | inval
  | badversion
  | noinfo
  deriving DecidableEq, Repr

/-- Why a routine has no successful result. -/
inductive Fault where
  /-- The routine returns the negated code. -/
  | err (code : UnwError)
  /-- An out-of-bounds access, a zero divisor, too wide a shift, `abort` or a
      failed assertion. -/
  | undefined
  /-- The loop is still running when the step budget is used up. -/
  | timeout
  deriving DecidableEq, Repr

abbrev Result := Except Fault

instance decEqExcept {ε α : Type} [DecidableEq ε] [DecidableEq α] : DecidableEq (Except ε α)
  | .ok a, .ok b => decidable_of_iff (a = b) (by simp)
  | .error a, .error b => decidable_of_iff (a = b) (by simp)
  | .ok _, .error _ => isFalse nofun
  | .error _, .ok _ => isFalse nofun

/-- The routine returned a negative number. -/
def IsNegative {α : Type} (r : Result α) : Prop := ∃ code, r = .error (.err code)

/-- A callback's answer, seen as a result of the routine that called it. -/
def ofAccess {α : Type} : Except UnwError α → Result α
  | .ok value => .ok value
  | .error code => .error (.err code)

@[simp] theorem ofAccess_ok {α : Type} (value : α) : ofAccess (.ok value) = .ok value := rfl

@[simp] theorem ofAccess_error {α : Type} (code : UnwError) :
    ofAccess (.error code : Except UnwError α) = .error (.err code) := rfl

/-- The part of `unw_addr_space` that reading unwind info and frames needs: the
    target's byte order and the accessors, any of which may fail at any address.
    `readByte` is what `dwarf_readu8` delivers: through `access_mem` in the
    generic build, by a load in the local-only one. -/
structure AddrSpace (w : Nat) where
  bigEndian : Bool
  readByte : Word w → Except UnwError Byte
  accessMem : Word w → Except UnwError (Word w)
  accessReg : Int → Except UnwError (Word w)
  accessFpreg : Int → Except UnwError (Word w)

section Result

variable {α β : Type}

/-- What a successful sequence of two routines went through. -/
theorem bind_eq_ok {first : Result α} {rest : α → Result β} {b : β} :
    (first >>= rest) = .ok b ↔ ∃ a, first = .ok a ∧ rest a = .ok b := by
  constructor
  · intro h
    cases first with
    | error e => exact nomatch h
    | ok a => exact ⟨a, rfl, h⟩
  · rintro ⟨a, rfl, h⟩
    exact h

@[simp] theorem ok_bind (a : α) (rest : α → Result β) : (Except.ok a >>= rest) = rest a := rfl

@[simp] theorem error_bind (e : Fault) (rest : α → Result β) :
    ((Except.error e : Result α) >>= rest) = .error e := rfl

@[simp] theorem pure_eq_ok (a : α) : (pure a : Result α) = .ok a := rfl

/-- Nothing that the routine did was undefined. -/
def Defined (r : Result α) : Prop := r ≠ .error .undefined

theorem Defined.ok (a : α) : Defined (.ok a : Result α) := nofun

theorem Defined.err (code : UnwError) : Defined (.error (.err code) : Result α) := nofun

theorem Defined.bind {first : Result α} {rest : α → Result β} (isDefined : Defined first)
    (later : ∀ a, first = .ok a → Defined (rest a)) : Defined (first >>= rest) := by
  cases first with
  | error e => exact fun same => isDefined (congrArg Except.error (Except.error.inj same))
  | ok a => exact later a rfl

theorem Defined.ite {p : Prop} [Decidable p] {r r' : Result α} (first : p → Defined r)
    (second : ¬ p → Defined r') : Defined (if p then r else r') := by
  by_cases holds : p
  · rw [if_pos holds]
    exact first holds
  · rw [if_neg holds]
    exact second holds

/-- The routine comes to an end. -/
def Ends (r : Result α) : Prop := r ≠ .error .timeout

theorem Ends.ok (a : α) : Ends (.ok a : Result α) := nofun

theorem Ends.err (code : UnwError) : Ends (.error (.err code) : Result α) := nofun

theorem Ends.undefined : Ends (.error .undefined : Result α) := nofun

theorem Ends.bind {first : Result α} {rest : α → Result β} (ends : Ends first)
    (later : ∀ a, first = .ok a → Ends (rest a)) : Ends (first >>= rest) := by
  cases first with
  | error e => exact fun same => ends (congrArg Except.error (Except.error.inj same))
  | ok a => exact later a rfl

theorem Ends.ite {p : Prop} [Decidable p] {r r' : Result α} (first : p → Ends r)
    (second : ¬ p → Ends r') : Ends (if p then r else r') := by
  by_cases holds : p
  · rw [if_pos holds]
    exact first holds
  · rw [if_neg holds]
    exact second holds

theorem Ends.ofAccess (answer : Except UnwError α) : Ends (ofAccess answer) := by
  cases answer with
  | ok value => exact .ok value
  | error code => exact .err code

/-- Both fail alike, or both go on with what matches. -/
def Simulates (rel : α → β → Prop) (r : Result α) (r' : Result β) : Prop :=
  (∃ e, r = .error e ∧ r' = .error e) ∨ ∃ a b, r = .ok a ∧ r' = .ok b ∧ rel a b

variable {rel : α → β → Prop}

theorem Simulates.ok {a : α} {b : β} (related : rel a b) : Simulates rel (.ok a) (.ok b) :=
  .inr ⟨a, b, rfl, rfl, related⟩

theorem Simulates.error (e : Fault) : Simulates rel (.error e) (.error e) := .inl ⟨e, rfl, rfl⟩

theorem Simulates.bind {α' β' : Type} {rel' : α' → β' → Prop} {r : Result α} {r' : Result β}
    {next : α → Result α'} {next' : β → Result β'} (first : Simulates rel r r')
    (later : ∀ a b, rel a b → Simulates rel' (next a) (next' b)) :
    Simulates rel' (r >>= next) (r' >>= next') := by
  cases first with
  | inl fails =>
      obtain ⟨e, left, right⟩ := fails
      rw [left, right]
      exact .error e
  | inr goesOn =>
      obtain ⟨a, b, left, right, related⟩ := goesOn
      rw [left, right]
      exact later a b related

theorem Simulates.defined_iff {r : Result α} {r' : Result β} (same : Simulates rel r r') :
    Defined r ↔ Defined r' := by
  cases same with
  | inl fails =>
      obtain ⟨e, left, right⟩ := fails
      rw [left, right]
      exact ⟨fun isDefined undefined => isDefined (by cases undefined; rfl),
        fun isDefined undefined => isDefined (by cases undefined; rfl)⟩
  | inr goesOn =>
      obtain ⟨a, b, left, right, -⟩ := goesOn
      rw [left, right]
      exact iff_of_true (.ok a) (.ok b)

theorem Simulates.refl {rel : α → α → Prop} (reflexive : ∀ a, rel a a) (r : Result α) :
    Simulates rel r r := by
  cases r with
  | error e => exact .error e
  | ok a => exact .ok (reflexive a)

theorem Simulates.same (r : Result α) : Simulates Eq r r := .refl (fun _ => rfl) r

end Result

end Libunwind
