import Libunwind.Library.BinarySearch

/-! # Shell sort in place

The passes of a Shell sort insert each entry into the entries that are a multiple
of the gap before it. Every pass permutes the array, and the last one, whose gap
is one, leaves it in ascending order.
-/

namespace ShellSort

open BinarySearch

variable {α β : Type} [LinearOrder β] (key : α → β)

/-- `for (j = i; j >= gap; j -= gap)`: moves the entries above `t` up, and puts
    `t` into the place that is left. -/
def insertGap (gap : Nat) (t : α) : Nat → Nat → List α → List α
  | 0, j, a => a.set j t
  | rounds + 1, j, a =>
      if gap ≤ j then
        match a[j - gap]? with
        | none => a.set j t
        | some b =>
            if key b ≤ key t then a.set j t
            else insertGap gap t rounds (j - gap) (a.set j b)
      else a.set j t

/-- `for (i = gap; i < n; i++)`, with `n - i` entries to go. -/
def gapPass (gap : Nat) : Nat → Nat → List α → List α
  | 0, _, a => a
  | left + 1, i, a =>
      match a[i]? with
      | none => a
      | some t => gapPass gap left (i + 1) (insertGap key gap t i i a)

/-- `for (gap = n / 2; gap > 0; gap /= 2)`. -/
def passes : Nat → Nat → List α → List α
  | 0, _, a => a
  | rounds + 1, gap, a =>
      if 0 < gap then passes rounds (gap / 2) (gapPass key gap (a.length - gap) gap a) else a

def shellSort (a : List α) : List α :=
  passes key a.length (a.length / 2) a

variable {key}

@[simp] theorem insertGap_length (gap : Nat) (t : α) (rounds j : Nat) (a : List α) :
    (insertGap key gap t rounds j a).length = a.length := by
  induction rounds generalizing j a with
  | zero => rw [insertGap, List.length_set]
  | succ rounds ih =>
      rw [insertGap]
      split
      · split
        · rw [List.length_set]
        · split
          · rw [List.length_set]
          · rw [ih, List.length_set]
      · rw [List.length_set]

/-- The entry at `j` is the hole that `t` ends up in. -/
theorem insertGap_perm {gap : Nat} (positive : 0 < gap) (t : α) :
    ∀ {rounds j} {a : List α}, j < a.length → (insertGap key gap t rounds j a).Perm (a.set j t) := by
  intro rounds
  induction rounds with
  | zero => intro j a _; exact .refl _
  | succ rounds ih =>
      intro j a inRange
      rw [insertGap]
      split
      next reaches =>
        split
        next => exact .refl _
        next b found =>
          split
          next => exact .refl _
          next =>
            refine (ih (by rw [List.length_set]; omega)).trans ?_
            -- moving `b` up and `t` down exchanges two entries of `a.set j t`
            obtain ⟨inRange', rfl⟩ := List.getElem?_eq_some_iff.mp found
            have apart : j ≠ j - gap := by omega
            have hole : j < (a.set j t).length := by rwa [List.length_set]
            have source : j - gap < (a.set j t).length := by rwa [List.length_set]
            have swap : (((a.set j t).set j (a.set j t)[j - gap]).set (j - gap)
                (a.set j t)[j]).Perm (a.set j t) :=
              List.set_set_perm hole source
            rwa [List.getElem_set_self, List.getElem_set_ne apart, List.set_set] at swap
      next => exact .refl _

theorem gapPass_perm {gap : Nat} (positive : 0 < gap) :
    ∀ {left i} {a : List α}, (gapPass key gap left i a).Perm a := by
  intro left
  induction left with
  | zero => intro i a; exact .refl _
  | succ left ih =>
      intro i a
      rw [gapPass]
      split
      next => exact .refl _
      next t found =>
        obtain ⟨inRange, rfl⟩ := List.getElem?_eq_some_iff.mp found
        refine ih.trans ((insertGap_perm positive _ inRange).trans ?_)
        rw [List.set_getElem_self]

theorem passes_perm {rounds gap : Nat} {a : List α} : (passes key rounds gap a).Perm a := by
  induction rounds generalizing gap a with
  | zero => exact .refl _
  | succ rounds ih =>
      rw [passes]
      split
      next positive => exact ih.trans (gapPass_perm positive)
      next => exact .refl _

theorem shellSort_perm (a : List α) : (shellSort key a).Perm a := passes_perm

/-! ## The last pass -/

/-- With gap one, `t` is inserted into the entries before the hole. -/
theorem insertGap_one (t : α) (before : List α) :
    ∀ {rounds} (hole : α) (rest : List α), before.length ≤ rounds → Ascending key before →
      ∃ inserted, insertGap key 1 t rounds before.length (before ++ hole :: rest) =
          inserted ++ rest ∧ inserted.Perm (t :: before) ∧ Ascending key inserted := by
  induction before using List.reverseRecOn with
  | nil =>
      intro rounds hole rest _ _
      refine ⟨[t], ?_, .refl _, List.pairwise_singleton _ _⟩
      cases rounds <;> rfl
  | append_singleton front b ih =>
      intro rounds hole rest enough ascending
      cases rounds with
      | zero => simp at enough
      | succ rounds =>
          obtain ⟨frontAscending, -, least⟩ := List.pairwise_append.mp ascending
          have last : ((front ++ [b]) ++ hole :: rest)[(front ++ [b]).length - 1]? = some b := by
            simp
          have fill (x : α) : ((front ++ [b]) ++ hole :: rest).set (front ++ [b]).length x =
              (front ++ [b]) ++ x :: rest := by
            rw [List.set_append_right _ _ (le_refl _), Nat.sub_self, List.set_cons_zero]
          rw [insertGap, if_pos (by simp), last]
          dsimp only
          split
          next small =>
            refine ⟨front ++ [b] ++ [t], by rw [fill]; simp, List.perm_append_singleton _ _, ?_⟩
            refine List.pairwise_append.mpr ⟨ascending, List.pairwise_singleton _ _, ?_⟩
            intro x member y isT
            rw [List.mem_singleton.mp isT]
            rcases List.mem_append.mp member with inFront | isB
            · exact (least x inFront b (List.mem_singleton_self b)).trans small
            · rw [List.mem_singleton.mp isB]
              exact small
          next large =>
            obtain ⟨inserted, result, perm, sorted⟩ := ih b (b :: rest)
              (by simpa using enough) frontAscending
            refine ⟨inserted ++ [b], ?_, ?_, ?_⟩
            · rw [fill]
              simpa using result
            · exact (perm.append_right [b]).trans (List.Perm.refl _)
            · refine List.pairwise_append.mpr ⟨sorted, List.pairwise_singleton _ _, ?_⟩
              intro x member y isB
              rw [List.mem_singleton.mp isB]
              rcases List.mem_cons.mp (perm.mem_iff.mp member) with rfl | inFront
              · exact le_of_lt (not_le.mp large)
              · exact least x inFront b (List.mem_singleton_self b)

/-- A pass with gap one, from an ascending front on. -/
theorem gapPass_one :
    ∀ {left} (front rest : List α), left = rest.length → Ascending key front →
      Ascending key (gapPass key 1 left front.length (front ++ rest)) := by
  intro left
  induction left with
  | zero =>
      intro front rest length ascending
      obtain rfl : rest = [] := List.eq_nil_of_length_eq_zero length.symm
      simpa [gapPass] using ascending
  | succ left ih =>
      intro front rest length ascending
      cases rest with
      | nil => exact absurd length (Nat.succ_ne_zero left)
      | cons t rest =>
          have found : (front ++ t :: rest)[front.length]? = some t := by simp
          obtain ⟨inserted, result, perm, sorted⟩ :=
            insertGap_one t front t rest (le_refl front.length) ascending
          have grown : inserted.length = front.length + 1 := by simpa using perm.length_eq
          rw [gapPass, found]
          dsimp only
          rw [result, ← grown]
          exact ih inserted rest (by simpa using length) sorted

/-- The gaps end with one, so the last pass sorts. -/
theorem passes_ascending {rounds gap : Nat} {a : List α} (enough : gap ≤ rounds)
    (positive : 0 < gap) : Ascending key (passes key rounds gap a) := by
  induction rounds generalizing gap a with
  | zero => omega
  | succ rounds ih =>
      rw [passes, if_pos positive]
      by_cases last : gap = 1
      · subst last
        have sorted : Ascending key (gapPass key 1 (a.length - 1) 1 a) := by
          cases a with
          | nil => simp [gapPass, Ascending]
          | cons first rest =>
              exact gapPass_one [first] rest (by simp) (List.pairwise_singleton _ _)
        cases rounds with
        | zero => exact sorted
        | succ rounds => exact sorted
      · exact ih (by omega) (by omega)

theorem shellSort_ascending (a : List α) : Ascending key (shellSort key a) := by
  by_cases short : a.length / 2 = 0
  · have unchanged : shellSort key a = a := by
      rw [shellSort, short]
      cases a.length <;> rfl
    rw [unchanged]
    match a, short with
    | [], _ => exact List.Pairwise.nil
    | [_], _ => exact List.pairwise_singleton _ _
    | _ :: _ :: rest, short => simp only [List.length_cons] at short; omega
  · exact passes_ascending (Nat.div_le_self _ _) (Nat.pos_of_ne_zero short)

end ShellSort
