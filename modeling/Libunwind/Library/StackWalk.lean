import Mathlib.Data.List.Basic

/-! # Walking up a stack

A cursor on a stack of frames, and what a walk from the innermost frame outwards has done
when it has called some routine for each frame it has passed that has one.
-/

namespace Libunwind

/-- A frame and the frames outside it, its caller first. -/
structure StackCursor (φ : Type) where
  frame : φ
  outer : List φ

namespace StackCursor

variable {φ : Type}

/-- The caller's frame, if there is one. -/
def up : StackCursor φ → Option (StackCursor φ)
  | ⟨_, []⟩ => none
  | ⟨_, caller :: outer⟩ => some ⟨caller, outer⟩

/-- The frames from the cursor on. -/
def frames (c : StackCursor φ) : List φ := c.frame :: c.outer

theorem up_eq_none {c : StackCursor φ} : c.up = none ↔ c.outer = [] := by
  obtain ⟨frame, outer⟩ := c
  cases outer with
  | nil => simp [up]
  | cons caller outer => simp [up]

theorem outer_of_up {c caller : StackCursor φ} (stepped : c.up = some caller) :
    c.outer = caller.frames := by
  obtain ⟨frame, outer⟩ := c
  cases outer with
  | nil => exact nomatch stepped
  | cons _ _ =>
      cases stepped
      rfl

end StackCursor

section Walked

variable {φ α : Type} {calls : φ → List α} {stack ahead : List φ} {made : List α} {f : φ}

/-- The frames behind the walk are those of the stack before `ahead`, and what was done is
    what is to be done for each of them, in turn. -/
def Walked (calls : φ → List α) (stack : List φ) (made : List α) (ahead : List φ) : Prop :=
  ∃ passed, stack = passed ++ ahead ∧ made = passed.flatMap calls

theorem Walked.start (calls : φ → List α) (stack : List φ) : Walked calls stack [] stack :=
  ⟨[], rfl, rfl⟩

theorem Walked.next (walked : Walked calls stack made (f :: ahead)) :
    Walked calls stack (made ++ calls f) ahead := by
  obtain ⟨passed, rfl, rfl⟩ := walked
  exact ⟨passed ++ [f], by simp, by simp⟩

/-- Nothing is skipped and nothing is done twice. -/
theorem Walked.isPrefix (walked : Walked calls stack made ahead) : made <+: stack.flatMap calls := by
  obtain ⟨passed, rfl, rfl⟩ := walked
  rw [List.flatMap_append]
  exact List.prefix_append _ _

/-- The same, in the middle of what is to be done for a frame. -/
theorem Walked.within {some' : List α} (walked : Walked calls stack made (f :: ahead))
    (part : some' <+: calls f) : made ++ some' <+: stack.flatMap calls := by
  obtain ⟨rest, whole⟩ := part
  obtain ⟨passed, rfl, rfl⟩ := walked
  exact ⟨rest ++ ahead.flatMap calls, by simp [← whole]⟩

theorem Walked.mem_stack (walked : Walked calls stack made ahead) (isAhead : f ∈ ahead) :
    f ∈ stack := by
  obtain ⟨passed, rfl, -⟩ := walked
  exact List.mem_append_right passed isAhead

/-- What is to be done for a frame that is not ahead any more was done. -/
theorem Walked.mem_made {x : α} (walked : Walked calls stack made ahead) (inStack : f ∈ stack)
    (one : x ∈ calls f) (behind : f ∉ ahead) : x ∈ made := by
  obtain ⟨passed, rfl, rfl⟩ := walked
  have isPassed := (List.mem_append.mp inStack).resolve_right behind
  exact List.mem_flatMap_of_mem isPassed one

/-- What is done in stack order up to some point has all been done before it. -/
theorem prefix_through {x : α} {front back : List α} (inOrder : made <+: front ++ [x] ++ back)
    (isMade : x ∈ made) (first : x ∉ front) : front ++ [x] <+: made := by
  cases List.prefix_or_prefix_of_prefix inOrder (List.prefix_append (front ++ [x]) back) with
  | inr through => exact through
  | inl short =>
      cases List.prefix_concat_iff.mp short with
      | inl whole => exact whole ▸ List.prefix_rfl
      | inr inFront => exact absurd (inFront.subset isMade) first

theorem flatMap_if (keep : φ → Bool) (stack : List φ) :
    (stack.flatMap fun f => if keep f then [f] else []) = stack.filter keep := by
  induction stack with
  | nil => rfl
  | cons f stack ih =>
      cases one : keep f with
      | true => simp [one, ih]
      | false => simp [one, ih]

end Walked

end Libunwind
