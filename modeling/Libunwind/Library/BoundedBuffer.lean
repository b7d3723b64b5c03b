import Libunwind.Library.Checked

/-! # Strings in a buffer of bounded size

Bytes are written one after another, and a write past the end is an error. What a string is
appended to is found by its terminator, wherever that is.
-/

namespace BoundedBuffer

open Checked

variable {ε α : Type}

def put (e : ε) (size pos : Nat) (a : α) (buf : Nat → α) : Except ε (Nat → α) :=
  if pos < size then .ok (Function.update buf pos a) else .error e

def putAll (e : ε) (size : Nat) : Nat → List α → (Nat → α) → Except ε (Nat → α)
  | _, [], buf => .ok buf
  | pos, a :: rest, buf => put e size pos a buf >>= putAll e size (pos + 1) rest

/-- The place of the first terminator among so many bytes. -/
def endOf [DecidableEq α] (e : ε) (zero : α) (buf : Nat → α) : Nat → Nat → Except ε Nat
  | 0, _ => .error e
  | left + 1, pos => if buf pos = zero then .ok pos else endOf e zero buf left (pos + 1)

/-- Appends to the string at a place. -/
def append [DecidableEq α] (e : ε) (zero : α) (size pos : Nat) (text : List α) (buf : Nat → α) :
    Except ε (Nat → α) := do
  let last ← endOf e zero buf (size - pos) pos
  putAll e size last (text ++ [zero]) buf

/-- What is in the buffer after it was written to. -/
def overwrite : Nat → List α → (Nat → α) → Nat → α
  | _, [], buf => buf
  | pos, a :: rest, buf => overwrite (pos + 1) rest (Function.update buf pos a)

/-- The buffer has a text at a place. -/
def Holds (buf : Nat → α) : Nat → List α → Prop
  | _, [] => True
  | pos, a :: rest => buf pos = a ∧ Holds buf (pos + 1) rest

variable {e : ε} {zero : α} {size pos : Nat} {text rest : List α} {buf buf' : Nat → α}

theorem holds_append :
    Holds buf pos (text ++ rest) ↔ Holds buf pos text ∧ Holds buf (pos + text.length) rest := by
  induction text generalizing pos with
  | nil => simp [Holds]
  | cons a text ih =>
      simp only [List.cons_append, Holds, ih, List.length_cons, and_assoc]
      rw [Nat.add_right_comm, Nat.add_assoc]

theorem Holds.congr (holds : Holds buf pos text)
    (same : ∀ i, pos ≤ i → i < pos + text.length → buf' i = buf i) : Holds buf' pos text := by
  induction text generalizing pos with
  | nil => trivial
  | cons a text ih =>
      obtain ⟨here, later⟩ := holds
      rw [List.length_cons] at same
      refine ⟨(same pos (Nat.le_refl pos) (by omega)).trans here, ih later ?_⟩
      intro i low high
      exact same i (by omega) (by omega)

theorem overwrite_other {i : Nat} (outside : i < pos ∨ pos + text.length ≤ i) :
    overwrite pos text buf i = buf i := by
  induction text generalizing pos buf with
  | nil => rfl
  | cons a text ih =>
      rw [List.length_cons] at outside
      rw [overwrite, ih (by omega)]
      exact Function.update_of_ne (by omega) _ _

theorem overwrite_holds : Holds (overwrite pos text buf) pos text := by
  induction text generalizing pos buf with
  | nil => trivial
  | cons a text ih =>
      refine ⟨?_, ih⟩
      rw [overwrite, overwrite_other (.inl (Nat.lt_succ_self pos))]
      exact Function.update_self _ _ _

/-- Text that is written behind text. -/
theorem Holds.append (holds : Holds buf pos text) (rest : List α) :
    Holds (overwrite (pos + text.length) rest buf) pos (text ++ rest) := by
  rw [holds_append]
  refine ⟨holds.congr ?_, overwrite_holds⟩
  intro i _ high
  exact overwrite_other (.inl high)

theorem putAll_delivers (e : ε) (size pos : Nat) (text : List α) (buf : Nat → α) :
    Delivers (putAll e size pos text buf) (text ≠ [] → pos + text.length ≤ size)
      (overwrite pos text buf) := by
  induction text generalizing pos buf with
  | nil => exact (Delivers.of_ok buf).congr (by simp) fun _ => rfl
  | cons a rest ih =>
      have first : Delivers (put e size pos a buf) (pos < size) (Function.update buf pos a) :=
        (Delivers.ite (fun _ => Delivers.of_ok _)
          fun _ => Delivers.of_error e (Function.update buf pos a)).congr (by simp) (by simp)
      refine Delivers.congr (first.bind fun _ => ih (pos + 1) _) ?_ fun _ => rfl
      cases rest with
      | nil =>
          simp only [ne_eq, not_true_eq_false, false_implies, and_true, reduceCtorEq,
            not_false_eq_true, true_implies, List.length_singleton]
          omega
      | cons b rest =>
          simp only [ne_eq, reduceCtorEq, not_false_eq_true, true_implies, List.length_cons]
          omega

section Append

variable [DecidableEq α]

/-- At a terminator, the text is appended right there. -/
theorem append_delivers (e : ε) (size : Nat) (text : List α) (terminated : buf pos = zero) :
    Delivers (append e zero size pos text buf) (pos + text.length < size)
      (overwrite pos (text ++ [zero]) buf) := by
  cases left : size - pos with
  | zero =>
      rw [append, left]
      refine Delivers.congr (Delivers.of_error e _) ?_ fun _ => rfl
      apply iff_of_false
      · exact id
      · omega
  | succ n =>
      have found : endOf e zero buf (size - pos) pos = .ok pos := by
        rw [left, endOf, if_pos terminated]
      rw [append, found]
      refine Delivers.congr (putAll_delivers e size pos (text ++ [zero]) buf) ?_ fun _ => rfl
      simp
      omega

/-- Where no terminator comes, nothing can be appended. -/
theorem append_error (text : List α) (endless : ∀ i, pos ≤ i → buf i ≠ zero) :
    append e zero size pos text buf = .error e := by
  have never : ∀ left, endOf e zero buf left pos = .error e := by
    intro left
    induction left generalizing pos with
    | zero => rfl
    | succ left ih =>
        rw [endOf, if_neg (endless pos (Nat.le_refl pos))]
        exact ih fun i above => endless i (Nat.le_of_succ_le above)
  rw [append, never]
  rfl

end Append

end BoundedBuffer
