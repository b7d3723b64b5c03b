import Mathlib

/-! # Lists that are rotated

A list threaded through its members, with both ends at hand. Taking the first member and putting it
behind the last one writes one link, and the members come round again in their order.
-/

namespace RotatingList

variable {α : Type} {next : α → α} {head tail : α} {order rest : List α}

/-- From `head` on, the links lead through these members, the last of which is `tail`. -/
structure Threaded (next : α → α) (head tail : α) (order : List α) : Prop where
  first : order.head? = some head
  last : order.getLast? = some tail
  links : order.IsChain fun a b => next a = b

namespace Threaded

theorem cons_eq (threaded : Threaded next head tail order) : ∃ rest, order = head :: rest := by
  cases order with
  | nil => cases threaded.first
  | cons a rest =>
      cases threaded.first
      exact ⟨rest, rfl⟩

theorem tail_mem (threaded : Threaded next head tail order) : tail ∈ order :=
  List.mem_of_getLast? threaded.last

/-- The members are those that following the links gives. -/
theorem iterate (threaded : Threaded next head tail order) :
    List.iterate next head order.length = order := by
  obtain ⟨rest, rfl⟩ := threaded.cons_eq
  have links := threaded.links
  clear threaded
  induction rest generalizing head with
  | nil => rfl
  | cons b rest ih =>
      rw [List.isChain_cons_cons] at links
      rw [List.length_cons, List.iterate, links.1, ih links.2]

/-- Behind the first of several members comes the next one's list. -/
theorem next_eq (threaded : Threaded next head tail (head :: rest)) (more : rest ≠ []) :
    rest.head? = some (next head) := by
  cases rest with
  | nil => exact absurd rfl more
  | cons b rest =>
      have links := List.isChain_cons_cons.mp threaded.links
      rw [links.1]
      rfl

variable [DecidableEq α]

/-- The first of several members goes to the end. -/
theorem rotate (threaded : Threaded next head tail (head :: rest)) (more : rest ≠ [])
    (distinct : (head :: rest).Nodup) :
    Threaded (Function.update next tail head) (next head) head (rest ++ [head]) := by
  have atEnd : rest.getLast? = some tail := by
    have last := threaded.last
    rwa [List.getLast?_cons_of_ne_nil more] at last
  obtain ⟨before, rfl⟩ : ∃ before, rest = before ++ [tail] :=
    ⟨rest.dropLast, (List.dropLast_append_getLast? tail atEnd).symm⟩
  have outside : tail ∉ before := by
    have apart := (List.nodup_cons.mp distinct).2
    rw [List.nodup_append] at apart
    exact fun member => apart.2.2 tail member tail (List.mem_singleton_self tail) rfl
  refine ⟨?_, by simp, ?_⟩
  · rw [List.head?_append, threaded.next_eq more]
    rfl
  · have links : (before ++ [tail]).IsChain fun a b => next a = b := threaded.links.tail
    rw [List.isChain_append]
    refine ⟨?_, List.isChain_singleton _, ?_⟩
    · rw [List.isChain_append] at links ⊢
      refine ⟨?_, List.isChain_singleton _, ?_⟩
      · refine links.1.imp_of_mem_imp fun a b memA _ linked => ?_
        rw [Function.update_of_ne (ne_of_mem_of_not_mem memA outside)]
        exact linked
      · intro a atLast b atFirst
        rw [Function.update_of_ne (ne_of_mem_of_not_mem (List.mem_of_getLast? atLast) outside)]
        exact links.2.2 a atLast b atFirst
    · intro a atLast b atFirst
      rw [List.getLast?_append] at atLast
      cases atLast
      cases atFirst
      exact Function.update_self ..

end Threaded

end RotatingList
