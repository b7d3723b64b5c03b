import Mathlib.Logic.Function.Basic

/-! # Lists threaded through their members

A list whose links are kept in the members themselves. Pushing writes one link,
popping reads one, and a write to anything else leaves the list as it is. With links in both
directions, a member can be taken out wherever it is.
-/

namespace IntrusiveList

variable {α : Type*} {next next' : α → α} {null head x : α} {xs : List α}

/-- Following the links from `head` leads through these members to the null link. -/
def Linked (next : α → α) (null : α) : α → List α → Prop
  | head, [] => head = null
  | head, x :: xs => head = x ∧ x ≠ null ∧ Linked next null (next x) xs

theorem Linked.congr (linked : Linked next null head xs) (same : ∀ x ∈ xs, next' x = next x) :
    Linked next' null head xs := by
  induction xs generalizing head with
  | nil => exact linked
  | cons x xs ih =>
      obtain ⟨first, real, rest⟩ := linked
      refine ⟨first, real, ?_⟩
      rw [same x List.mem_cons_self]
      exact ih rest fun y member => same y (List.mem_cons_of_mem x member)

theorem Linked.push [DecidableEq α] (linked : Linked next null head xs) (real : x ≠ null)
    (fresh : x ∉ xs) : Linked (Function.update next x head) null x (x :: xs) := by
  refine ⟨rfl, real, ?_⟩
  rw [Function.update_self]
  refine linked.congr fun y member => Function.update_of_ne ?_ head next
  rintro rfl
  exact fresh member

theorem Linked.pop (linked : Linked next null head xs) (real : xs ≠ []) :
    ∃ rest, xs = head :: rest ∧ Linked next null (next head) rest := by
  cases xs with
  | nil => exact absurd rfl real
  | cons x rest =>
      obtain ⟨rfl, -, linked⟩ := linked
      exact ⟨rest, rfl, linked⟩

theorem Linked.ne_null (linked : Linked next null head xs) : ∀ y ∈ xs, y ≠ null := by
  induction xs generalizing head with
  | nil => simp
  | cons x xs ih =>
      obtain ⟨-, real, rest⟩ := linked
      intro y member
      cases List.mem_cons.mp member with
      | inl same => exact same ▸ real
      | inr later => exact ih rest y later

/-- A link goes to the next member, or to null. -/
theorem Linked.next_eq {before after : List α}
    (linked : Linked next null head (before ++ x :: after)) :
    Linked next null (next x) after := by
  induction before generalizing head with
  | nil => exact linked.2.2
  | cons b before ih => exact ih linked.2.2

/-! ## Links in both directions -/

variable {prev prev' : α → α} {back : α}

/-- Following `next` from `head` leads through these members, and `prev` leads from each to the one
    before it, the first one's to `back`. -/
def DoublyLinked (next prev : α → α) (null : α) : α → α → List α → Prop
  | _, head, [] => head = null
  | back, head, x :: xs =>
      head = x ∧ x ≠ null ∧ prev x = back ∧ DoublyLinked next prev null x (next x) xs

namespace DoublyLinked

theorem linked (both : DoublyLinked next prev null back head xs) : Linked next null head xs := by
  induction xs generalizing back head with
  | nil => exact both
  | cons x xs ih =>
      obtain ⟨first, real, -, rest⟩ := both
      exact ⟨first, real, ih rest⟩

theorem congr (both : DoublyLinked next prev null back head xs)
    (sameNext : ∀ x ∈ xs, next' x = next x) (samePrev : ∀ x ∈ xs, prev' x = prev x) :
    DoublyLinked next' prev' null back head xs := by
  induction xs generalizing back head with
  | nil => exact both
  | cons x xs ih =>
      obtain ⟨first, real, before, rest⟩ := both
      refine ⟨first, real, (samePrev x List.mem_cons_self).trans before, ?_⟩
      rw [sameNext x List.mem_cons_self]
      exact ih rest (fun y member => sameNext y (List.mem_cons_of_mem x member))
        fun y member => samePrev y (List.mem_cons_of_mem x member)

/-- The member before another one. -/
theorem prev_mem {b : α} {before after : List α}
    (both : DoublyLinked next prev null back head (b :: before ++ x :: after)) :
    prev x ∈ b :: before := by
  induction before generalizing b back head with
  | nil =>
      obtain ⟨-, -, -, -, -, link, -⟩ := both
      simp [link]
  | cons c before ih =>
      obtain ⟨-, -, -, rest⟩ := both
      exact List.mem_cons_of_mem b (ih rest)

theorem prev_head (both : DoublyLinked next prev null back head xs) (real : head ≠ null) :
    prev head = back := by
  cases xs with
  | nil => exact absurd both real
  | cons x xs =>
      obtain ⟨rfl, -, link, -⟩ := both
      exact link

/-- `prev` undoes `next`. -/
theorem prev_next (both : DoublyLinked next prev null back head xs) {y : α} (member : y ∈ xs)
    (further : next y ≠ null) : prev (next y) = y := by
  induction xs generalizing back head with
  | nil => cases member
  | cons x xs ih =>
      obtain ⟨-, -, -, rest⟩ := both
      cases List.mem_cons.mp member with
      | inl here =>
          subst here
          cases xs with
          | nil => exact absurd rest further
          | cons z xs =>
              obtain ⟨same, -, link, -⟩ := rest
              rw [same]
              exact link
      | inr later => exact ih rest later

/-- `next` undoes `prev`. -/
theorem next_prev (both : DoublyLinked next prev null back head xs) {y : α} (member : y ∈ xs)
    (further : prev y ≠ back) : next (prev y) = y := by
  have general : ∀ {back head}, DoublyLinked next prev null back head xs → ∀ y ∈ xs,
      prev y = back ∧ head = y ∨ next (prev y) = y := by
    clear both member further
    induction xs with
    | nil => simp
    | cons x xs ih =>
        intro back head both y member
        obtain ⟨first, -, link, rest⟩ := both
        cases List.mem_cons.mp member with
        | inl here =>
            subst here
            exact .inl ⟨link, first⟩
        | inr later =>
            cases ih rest y later with
            | inl behind =>
                obtain ⟨same, head⟩ := behind
                rw [same]
                exact .inr head
            | inr inner => exact .inr inner
  cases general both y member with
  | inl first => exact absurd first.1 further
  | inr inner => exact inner

theorem head_mem (both : DoublyLinked next prev null back head xs) (real : head ≠ null) :
    head ∈ xs := by
  cases xs with
  | nil => exact absurd both real
  | cons x xs =>
      obtain ⟨rfl, -⟩ := both
      exact List.mem_cons_self

variable [DecidableEq α]

/-- Writing the first member's `prev`, if there is one. -/
theorem setBack (both : DoublyLinked next prev null back head xs) (nodup : xs.Nodup)
    (back' : α) :
    DoublyLinked next (if head = null then prev else Function.update prev head back') null back'
      head xs := by
  cases xs with
  | nil => exact both
  | cons x xs =>
      obtain ⟨rfl, real, -, rest⟩ := both
      rw [if_neg real]
      refine ⟨rfl, real, Function.update_self .., ?_⟩
      apply rest.congr (fun _ _ => rfl)
      intro y member
      apply Function.update_of_ne
      intro same
      exact (List.nodup_cons.mp nodup).1 (same ▸ member)

theorem push (both : DoublyLinked next prev null back head xs) (nodup : xs.Nodup)
    (real : x ≠ null) (fresh : x ∉ xs) (back' : α) :
    DoublyLinked (Function.update next x head)
      (if head = null then Function.update prev x back'
        else Function.update (Function.update prev x back') head x) null back' x (x :: xs) := by
  have apart : ∀ y ∈ xs, y ≠ x := fun y member same => fresh (same ▸ member)
  have kept : DoublyLinked (Function.update next x head) (Function.update prev x back') null back
      head xs :=
    both.congr (fun y member => Function.update_of_ne (apart y member) _ _)
      fun y member => Function.update_of_ne (apart y member) _ _
  refine ⟨rfl, real, ?_, ?_⟩
  · split
    · exact Function.update_self ..
    next further =>
      rw [Function.update_of_ne, Function.update_self]
      intro same
      exact fresh (same ▸ head_mem both further)
  · rw [Function.update_self]
    exact kept.setBack nodup x

/-- Taking out a member that has another one before it. -/
theorem removeInner {b : α} {before after : List α}
    (both : DoublyLinked next prev null back head (b :: before ++ x :: after))
    (nodup : (b :: before ++ x :: after).Nodup) :
    DoublyLinked (Function.update next (prev x) (next x))
      (if next x = null then prev else Function.update prev (next x) (prev x)) null back head
      (b :: before ++ after) := by
  have outside : ∀ y ∈ b :: before, y ∉ x :: after :=
    fun y member later => (List.nodup_append.mp nodup).2.2 y member y later rfl
  have behind : next x ≠ null → next x ∈ after := by
    intro further
    have rest := both.linked.next_eq
    cases after with
    | nil => exact absurd rest further
    | cons a after => exact rest.1 ▸ List.mem_cons_self
  have samePrev : ∀ y ∈ b :: before,
      (if next x = null then prev else Function.update prev (next x) (prev x)) y = prev y := by
    intro y member
    split
    · rfl
    next further =>
      apply Function.update_of_ne
      intro same
      exact outside y member (List.mem_cons_of_mem x (same ▸ behind further))
  induction before generalizing b back head with
  | nil =>
      obtain ⟨rfl, real, link, same, -, prevX, rest⟩ := both
      rw [prevX] at samePrev ⊢
      refine ⟨rfl, real, (samePrev _ List.mem_cons_self).trans link, ?_⟩
      rw [Function.update_self]
      have nodupAfter : after.Nodup := (List.nodup_cons.mp (List.nodup_cons.mp nodup).2).2
      apply (rest.setBack nodupAfter head).congr
      · intro y member
        apply Function.update_of_ne
        intro same
        exact outside head List.mem_cons_self (List.mem_cons_of_mem x (same ▸ member))
      · exact fun _ _ => rfl
  | cons c before ih =>
      obtain ⟨rfl, real, link, rest⟩ := both
      refine ⟨rfl, real, (samePrev _ List.mem_cons_self).trans link, ?_⟩
      have notPrev : head ≠ prev x := by
        intro same
        have twice : head ∈ c :: before := by
          rw [same]
          exact rest.prev_mem
        exact (List.nodup_cons.mp nodup).1 (List.mem_append_left _ twice)
      rw [Function.update_of_ne notPrev]
      exact ih rest (List.nodup_cons.mp nodup).2
        (fun y member => outside y (List.mem_cons_of_mem head member))
        fun y member => samePrev y (List.mem_cons_of_mem head member)

/-- Taking out a member, wherever it is. -/
theorem remove {before after : List α}
    (both : DoublyLinked next prev null null head (before ++ x :: after))
    (nodup : (before ++ x :: after).Nodup) :
    DoublyLinked (if prev x = null then next else Function.update next (prev x) (next x))
      (if next x = null then prev else Function.update prev (next x) (prev x)) null null
      (if prev x = null then next x else head) (before ++ after) := by
  cases before with
  | nil =>
      obtain ⟨rfl, real, link, rest⟩ := both
      rw [if_pos link, if_pos link, link]
      exact rest.setBack (List.nodup_cons.mp nodup).2 null
  | cons b before =>
      have inner : prev x ≠ null := by
        apply both.linked.ne_null
        exact List.mem_append_left _ both.prev_mem
      rw [if_neg inner, if_neg inner]
      exact both.removeInner nodup

end DoublyLinked

end IntrusiveList
