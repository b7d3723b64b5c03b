import Libunwind.Ia64.Parser

/-! # Who owns the register states

The records on the state stack and those on the stacks under labels are on lists of their own, and
what was taken since some moment is on one of these. Each routine keeps that.
-/

namespace Libunwind.Ia64

open Ledger

/-- The records on a state stack. -/
abbrev OnStack (pools : Pools) (head : PoolPtr) (ids : List Nat) : Prop :=
  Chain RegState.next pools.regs.cells head ids

namespace Pools

variable {pools : Pools} {head : PoolPtr} {ids : List Nat}

theorem regState_eq {rs : PoolPtr} {state : RegState} (out : pools.regs.cells rs = some state) :
    pools.regState rs = .ok state := by
  rw [regState, out]
  rfl

theorem labeledState_eq {ls : PoolPtr} {state : LabeledState}
    (out : pools.labels.cells ls = some state) : pools.labeledState ls = .ok state := by
  rw [labeledState, out]
  rfl

/-! ## Returning a stack -/

/-- These register states were returned, and nothing else was done. -/
structure Returns (pools pools' : Pools) (ids : List Nat) : Prop where
  frees : Frees pools.regs.cells pools'.regs.cells ids
  labels : pools'.labels = pools.labels
  taken : pools'.regs.taken = pools.regs.taken
  grants : pools'.grants = pools.grants
  asked : pools'.asked = pools.asked

theorem Returns.refl (pools : Pools) : Returns pools pools [] := ⟨Frees.refl _, rfl, rfl, rfl, rfl⟩

theorem Returns.trans {pools pools₁ pools₂ : Pools} {ids others : List Nat}
    (first : Returns pools pools₁ ids) (more : Returns pools₁ pools₂ others) :
    Returns pools pools₂ (ids ++ others) :=
  ⟨first.frees.trans more.frees, more.labels.trans first.labels, more.taken.trans first.taken,
    more.grants.trans first.grants, more.asked.trans first.asked⟩

theorem freeRegState_eq {rs : PoolPtr} {state : RegState}
    (out : pools.regs.cells rs = some state) :
    ∃ pools', pools.freeRegState rs = .ok pools' ∧ Returns pools pools' [rs] := by
  have isOut : (pools.regs.cells rs).isSome := by
    rw [out]
    rfl
  exact ⟨_, dif_pos isOut, Frees.giveBack isOut, rfl, rfl, rfl, rfl⟩

/-- `free_state_stack` returns what is on the stack, and nothing else. -/
theorem freeLoop_spec {rounds : Nat} (onStack : OnStack pools head ids) (nodup : ids.Nodup)
    (enough : ids.length < rounds) :
    ∃ pools', freeLoop rounds pools head = .ok pools' ∧ Returns pools pools' ids := by
  induction rounds generalizing pools head ids with
  | zero => exact absurd enough (Nat.not_lt_zero _)
  | succ rounds ih =>
      rw [freeLoop]
      by_cases ended : head = 0
      · subst ended
        obtain rfl := chain_nil_of_zero onStack
        rw [if_pos rfl]
        exact ⟨pools, rfl, .refl pools⟩
      · obtain ⟨state, rest, rfl, out, behind⟩ := onStack.uncons ended
        obtain ⟨first, restNodup⟩ := List.nodup_cons.mp nodup
        obtain ⟨pools₁, freed, returns⟩ := freeRegState_eq out
        have still : OnStack pools₁ state.next rest := by
          refine behind.frees returns.frees fun i member also => ?_
          obtain rfl := List.mem_singleton.mp also
          exact first member
        obtain ⟨pools₂, loop, more⟩ := ih still restNodup (Nat.lt_of_succ_lt_succ enough)
        rw [if_neg ended, regState_eq out, ok_bind, freed, ok_bind]
        exact ⟨pools₂, loop, returns.trans more⟩

theorem freeStateStack_spec {rs : RegState} (onStack : OnStack pools rs.next ids)
    (nodup : ids.Nodup) :
    ∃ pools', pools.freeStateStack rs = .ok pools' ∧ Returns pools pools' ids :=
  freeLoop_spec onStack nodup (Nat.lt_succ_of_le (onStack.length_le nodup))

/-! ## Copying a stack -/

theorem setNext_eq {rs : PoolPtr} {state : RegState} (out : pools.regs.cells rs = some state)
    (next : PoolPtr) :
    ∃ pools', pools.setNext rs next = .ok pools' ∧
      pools'.regs.cells = Function.update pools.regs.cells rs (some { state with next }) ∧
      pools'.labels = pools.labels ∧ pools'.grants = pools.grants ∧ pools'.asked = pools.asked := by
  rw [setNext]
  split
  next found out' =>
    obtain rfl := Option.some_inj.mp (out.symm.trans out')
    exact ⟨_, rfl, rfl, rfl, rfl, rfl⟩
  next out' => exact nomatch out.symm.trans out'

/-- Where the loop of `dup_state_stack` is: it has copied the records before `rs`, and the last copy is
    still linked to what its original is linked to. -/
structure Copying (origin pools : Pools) (copies : List Nat) (rs prev first : PoolPtr) : Prop where
  accounts : Accounts origin.regs.cells pools.regs.cells copies
  nodup : copies.Nodup
  labels : pools.labels = origin.labels
  linked : copies = [] ∧ first = 0 ∨
    first ≠ 0 ∧ ∃ before, copies = before ++ [prev] ∧
      Segment RegState.next pools.regs.cells first copies rs

/-- The pools after a register state was granted. -/
def taking (pools : Pools) (state : RegState) : Pools :=
  { pools with asked := pools.asked + 1, regs := pools.regs.take state }

theorem allocRegState_granted (granted : pools.grants pools.asked = true) (state : RegState) :
    pools.allocRegState state = (some pools.regs.fresh, pools.taking state) := if_pos granted

theorem allocRegState_denied (denied : ¬pools.grants pools.asked = true) (state : RegState) :
    pools.allocRegState state = (none, { pools with asked := pools.asked + 1 }) := if_neg denied

section Copying

variable {origin : Pools} {copies : List Nat} {rs prev first : PoolPtr} {state : RegState}

theorem Copying.fresh_not_mem (copying : Copying origin pools copies rs prev first) :
    pools.regs.fresh ∉ copies := by
  rcases copying.linked with ⟨rfl, -⟩ | ⟨-, -, -, segment⟩
  · exact List.not_mem_nil
  · intro member
    obtain ⟨a, out⟩ := segment.out _ member
    exact Pool.ne_fresh_of_cells out rfl

theorem Copying.taken (copying : Copying origin pools copies rs prev first) (state : RegState) :
    Accounts origin.regs.cells (pools.taking state).regs.cells (copies ++ [pools.regs.fresh]) ∧
      (copies ++ [pools.regs.fresh]).Nodup := by
  constructor
  · refine (copying.accounts.trans (Accounts.take pools.regs state)).congr fun i => ?_
    rw [List.mem_append, List.mem_append, or_comm]
  · refine List.nodup_append.mpr ⟨copying.nodup, List.nodup_singleton _, ?_⟩
    rintro i member j also rfl
    rw [List.mem_singleton.mp also] at member
    exact copying.fresh_not_mem member

/-- The first copy. -/
theorem Copying.begin (copying : Copying origin pools copies rs prev 0) (state : RegState) :
    Copying origin (pools.taking state) (copies ++ [pools.regs.fresh]) state.next pools.regs.fresh
      pools.regs.fresh := by
  obtain ⟨accounts, nodup⟩ := copying.taken state
  obtain ⟨rfl, -⟩ := copying.linked.resolve_right fun more => more.1 rfl
  refine ⟨accounts, nodup, copying.labels, .inr ⟨pools.regs.fresh_ne_zero, [], rfl, rfl, state, ?_⟩⟩
  exact ⟨Function.update_self .., rfl⟩

/-- Another copy, to which the one before is linked. -/
theorem Copying.append (copying : Copying origin pools copies rs prev first) (more : first ≠ 0)
    (state : RegState) :
    ∃ pools', (pools.taking state).setNext prev pools.regs.fresh = .ok pools' ∧
      Copying origin pools' (copies ++ [pools.regs.fresh]) state.next pools.regs.fresh first ∧
      pools'.grants = pools.grants ∧ pools'.asked = pools.asked + 1 := by
  obtain ⟨accounts, nodup⟩ := copying.taken state
  obtain ⟨-, before, rfl, segment⟩ := copying.linked.resolve_left fun none => more none.2
  have last : prev ∈ before ++ [prev] := List.mem_append_right before List.mem_cons_self
  obtain ⟨copy, out⟩ := segment.out prev last
  have notFresh := Pool.ne_fresh_of_cells out
  have out' : (pools.taking state).regs.cells prev = some copy := by
    rw [taking, Pool.cells_take, Function.update_of_ne notFresh, out]
  obtain ⟨pools', linked, cells, labels, grants, asked⟩ := setNext_eq out' pools.regs.fresh
  refine ⟨pools', linked, ⟨?_, nodup, labels.trans copying.labels, .inr ⟨more, _, rfl, ?_⟩⟩,
    grants, asked⟩
  · rw [cells]
    exact accounts.update (List.mem_append_left _ last) _
  · have front := (segment.update copying.fresh_not_mem (some state)).setLast copying.nodup
      { copy with next := pools.regs.fresh }
    rw [cells]
    refine front.append ⟨rfl, state, ?_, rfl⟩
    rw [Function.update_of_ne notFresh.symm]
    exact Function.update_self ..

/-- The loop comes to an end. Copies are lost where it is denied a record after it was granted some. -/
theorem dupLoop_spec {rounds : Nat} {rest : List Nat} (onStack : OnStack origin rs rest)
    (enough : rest.length < rounds) (copying : Copying origin pools copies rs prev first) :
    ∃ head' pools' ids' lost, dupLoop rounds pools rs prev first = .ok (head', pools') ∧
      OnStack pools' head' ids' ∧ (ids' ++ lost).Nodup ∧
      Accounts origin.regs.cells pools'.regs.cells (ids' ++ lost) ∧ pools'.labels = origin.labels ∧
      ((∀ k < rest.length, pools.grants (pools.asked + k) = true) → lost = []) := by
  induction rounds generalizing pools copies rs prev first rest with
  | zero => exact absurd enough (Nat.not_lt_zero _)
  | succ rounds ih =>
      rw [dupLoop]
      by_cases ended : rs = 0
      · subst ended
        rw [if_pos rfl]
        refine ⟨first, pools, copies, [], rfl, ?_, ?_, ?_, copying.labels, fun _ => rfl⟩
        · rcases copying.linked with ⟨rfl, rfl⟩ | ⟨-, -, -, segment⟩
          · rfl
          · exact segment
        · rw [List.append_nil]
          exact copying.nodup
        · rw [List.append_nil]
          exact copying.accounts
      · obtain ⟨state, behind, rfl, out, restStack⟩ := onStack.uncons ended
        rw [if_neg ended, regState_eq (copying.accounts.out out), ok_bind]
        by_cases granted : pools.grants pools.asked = true
        · have later (all : ∀ k < (rs :: behind).length, pools.grants (pools.asked + k) = true) :
              ∀ k < behind.length, pools.grants (pools.asked + 1 + k) = true := by
            intro k lt
            rw [Nat.add_assoc, Nat.add_comm 1 k]
            exact all (k + 1) (Nat.succ_lt_succ lt)
          rw [allocRegState_granted granted]
          by_cases none : first = 0
          · subst none
            have begun := copying.begin state
            simp only [if_true, pure_eq_ok, ok_bind, regState_eq (begun.accounts.out out)]
            obtain ⟨head', pools', ids', lost, loop, stack, nodup, accounts, labels, whole⟩ :=
              ih restStack (Nat.lt_of_succ_lt_succ enough) begun
            exact ⟨head', pools', ids', lost, loop, stack, nodup, accounts, labels,
              fun all => whole (later all)⟩
          · obtain ⟨pools₁, linked, appended, grants, asked⟩ := copying.append none state
            simp only [if_neg none, linked, ok_bind, regState_eq (appended.accounts.out out)]
            obtain ⟨head', pools', ids', lost, loop, stack, nodup, accounts, labels, whole⟩ :=
              ih restStack (Nat.lt_of_succ_lt_succ enough) appended
            rw [grants, asked] at whole
            exact ⟨head', pools', ids', lost, loop, stack, nodup, accounts, labels,
              fun all => whole (later all)⟩
        · rw [allocRegState_denied granted]
          exact ⟨0, _, [], copies, rfl, rfl, copying.nodup, copying.accounts, copying.labels,
            fun all => absurd (all 0 (Nat.succ_pos _)) granted⟩

end Copying

/-- Where the first record of a copy is granted, the others are. -/
def CopiesWhole (pools : Pools) (count : Nat) : Prop :=
  pools.grants pools.asked = true → ∀ k < count, pools.grants (pools.asked + k) = true

/-- `dup_state_stack` takes the records of a stack of their own. It loses those that it has taken where
    it is denied one after the first. -/
theorem dupStateStack_spec (onStack : OnStack pools head ids) (nodup : ids.Nodup) :
    ∃ head' pools' ids' lost, pools.dupStateStack head = .ok (head', pools') ∧
      OnStack pools' head' ids' ∧ (ids' ++ lost).Nodup ∧
      Accounts pools.regs.cells pools'.regs.cells (ids' ++ lost) ∧ pools'.labels = pools.labels ∧
      (pools.CopiesWhole ids.length → lost = []) := by
  have copying : Copying pools pools [] head 0 0 :=
    ⟨Accounts.refl _, List.nodup_nil, rfl, .inl ⟨rfl, rfl⟩⟩
  have enough : ids.length < pools.regs.taken + 1 := Nat.lt_succ_of_le (onStack.length_le nodup)
  by_cases granted : pools.grants pools.asked = true
  · obtain ⟨head', pools', ids', lost, loop, stack, nodup, accounts, labels, whole⟩ :=
      dupLoop_spec onStack enough copying
    exact ⟨head', pools', ids', lost, loop, stack, nodup, accounts, labels,
      fun all => whole (all granted)⟩
  · rw [dupStateStack, dupLoop]
    by_cases ended : head = 0
    · rw [if_pos ended]
      exact ⟨0, pools, [], [], rfl, rfl, List.nodup_nil, Accounts.refl _, rfl, fun _ => rfl⟩
    · obtain ⟨state, behind, -, out, -⟩ := onStack.uncons ended
      rw [if_neg ended, regState_eq out, ok_bind, allocRegState_denied granted]
      exact ⟨0, _, [], [], rfl, rfl, List.nodup_nil, Accounts.refl _, rfl, fun _ => rfl⟩

end Pools

/-! ## The lists of a state record -/

/-- The labeled states, each with the records on its stack. -/
def Labeled (pools : Pools) : PoolPtr → List (Nat × List Nat) → Prop
  | head, [] => head = 0
  | head, (l, ids) :: rest => head = l ∧ ∃ ls, pools.labels.cells l = some ls ∧
      OnStack pools ls.savedState.next ids ∧ Labeled pools ls.next rest

/-- The register states on the stacks of labeled states. -/
abbrev labeledRegs (labeled : List (Nat × List Nat)) : List Nat := labeled.flatMap Prod.snd

namespace Labeled

variable {pools pools' : Pools} {head : PoolPtr} {labeled : List (Nat × List Nat)}
  {ids : List Nat}

theorem congr (isLabeled : Labeled pools head labeled)
    (labels : ∀ l ∈ labeled.map Prod.fst, pools'.labels.cells l = pools.labels.cells l)
    (regs : ∀ i ∈ labeledRegs labeled, pools'.regs.cells i = pools.regs.cells i) :
    Labeled pools' head labeled := by
  induction labeled generalizing head with
  | nil => exact isLabeled
  | cons one rest ih =>
      obtain ⟨l, ids⟩ := one
      obtain ⟨isHead, ls, out, onStack, behind⟩ := isLabeled
      refine ⟨isHead, ls, ?_, onStack.congr fun i member => ?_, ih behind ?_ ?_⟩
      · rw [labels l List.mem_cons_self]
        exact out
      · exact regs i (List.mem_append_left _ member)
      · exact fun l' member => labels l' (List.mem_cons_of_mem _ member)
      · exact fun i member => regs i (List.mem_append_right _ member)

theorem out (isLabeled : Labeled pools head labeled) :
    ∀ i ∈ labeledRegs labeled, ∃ a, pools.regs.cells i = some a := by
  induction labeled generalizing head with
  | nil => exact fun i member => nomatch member
  | cons one rest ih =>
      obtain ⟨-, ls, -, onStack, behind⟩ := isLabeled
      intro i member
      cases List.mem_append.mp member with
      | inl here => exact onStack.out i here
      | inr later => exact ih behind i later

/-- The labeled states themselves are a chain. -/
theorem chain (isLabeled : Labeled pools head labeled) :
    Chain LabeledState.next pools.labels.cells head (labeled.map Prod.fst) := by
  induction labeled generalizing head with
  | nil => exact isLabeled
  | cons one rest ih =>
      obtain ⟨isHead, ls, out, -, behind⟩ := isLabeled
      exact ⟨isHead, ls, out, ih behind⟩

theorem accounts (isLabeled : Labeled pools head labeled) (labels : pools'.labels = pools.labels)
    (accounts : Accounts pools.regs.cells pools'.regs.cells ids) : Labeled pools' head labeled := by
  refine isLabeled.congr (fun l _ => by rw [labels]) fun i member => ?_
  obtain ⟨a, out⟩ := isLabeled.out i member
  exact accounts.rest i (accounts.not_mem_of_out out)

theorem returns (isLabeled : Labeled pools head labeled) (returns : Pools.Returns pools pools' ids)
    (disjoint : ∀ i ∈ labeledRegs labeled, i ∉ ids) : Labeled pools' head labeled :=
  isLabeled.congr (fun l _ => by rw [returns.labels])
    fun i member => returns.frees.rest i (disjoint i member)

/-- What `desc_copy_state` finds is one of the labeled states. -/
theorem find (isLabeled : Labeled pools head labeled) (label : Word 64) {rounds : Nat}
    (enough : labeled.length < rounds) :
    ∃ found, pools.findLabel label rounds head = .ok found ∧ ∀ ls, found = some ls →
      ∃ ids, OnStack pools ls.savedState.next ids ∧ ids.Sublist (labeledRegs labeled) := by
  induction rounds generalizing head labeled with
  | zero => exact absurd enough (Nat.not_lt_zero _)
  | succ rounds ih =>
      rw [Pools.findLabel]
      by_cases ended : head = 0
      · rw [if_pos ended]
        exact ⟨none, rfl, nofun⟩
      · cases labeled with
        | nil => exact absurd isLabeled ended
        | cons one rest =>
            obtain ⟨l, ids⟩ := one
            obtain ⟨rfl, ls, out, onStack, behind⟩ := isLabeled
            rw [if_neg ended, Pools.labeledState_eq out, ok_bind]
            by_cases same : ls.label = label
            · rw [if_pos same]
              refine ⟨some ls, rfl, ?_⟩
              rintro _ ⟨⟩
              exact ⟨ids, onStack, List.sublist_append_left ids _⟩
            · rw [if_neg same]
              obtain ⟨found, isFound, spec⟩ := ih behind (Nat.lt_of_succ_lt_succ enough)
              refine ⟨found, isFound, fun ls' isSome => ?_⟩
              obtain ⟨ids', onStack', sub⟩ := spec ls' isSome
              exact ⟨ids', onStack', sub.trans (List.sublist_append_right ids _)⟩

end Labeled

/-- Who has the records that were taken: the stack, the labeled states, or nobody. -/
structure Owners where
  stack : List Nat
  labeled : List (Nat × List Nat)
  lost : List Nat

namespace Owners

def regs (o : Owners) : List Nat := o.stack ++ (labeledRegs o.labeled ++ o.lost)

def labels (o : Owners) : List Nat := o.labeled.map Prod.fst

end Owners

/-- The lists of a state record are of the records that were taken since, and have no record twice. -/
structure Owns (base : Pools) (parse : Parse) (o : Owners) : Prop where
  stack : OnStack parse.pools parse.sr.curr.next o.stack
  labeled : Labeled parse.pools parse.sr.labeledStates o.labeled
  regs : Accounts base.regs.cells parse.pools.regs.cells o.regs
  labels : Accounts base.labels.cells parse.pools.labels.cells o.labels
  nodupRegs : o.regs.Nodup
  nodupLabels : o.labels.Nodup

namespace Owns

variable {base : Pools} {parse : Parse} {o o' : Owners} {sr' : StateRecord} {pools' : Pools}
  {ids : List Nat}

/-- Before the first descriptor there are no lists. -/
theorem initial (whenTarget : Int) (prVal : Word 64) (pools : Pools) :
    Owns pools ⟨.initial whenTarget prVal, pools⟩ ⟨[], [], []⟩ :=
  ⟨rfl, rfl, Accounts.refl _, Accounts.refl _, List.nodup_nil, List.nodup_nil⟩

/-- Records are returned, and the others belong to the lists of another state record. -/
theorem returns (owns : Owns base parse o) (returns : Pools.Returns parse.pools pools' ids)
    (stack : OnStack parse.pools sr'.curr.next o'.stack)
    (labeled : Labeled parse.pools sr'.labeledStates o'.labeled)
    (perm : o.regs.Perm (ids ++ o'.regs)) (labels : o'.labels = o.labels) :
    Owns base ⟨sr', pools'⟩ o' := by
  have nodup := perm.nodup_iff.mp owns.nodupRegs
  have disjoint : ∀ i ∈ o'.regs, i ∉ ids := fun i member also =>
    (List.nodup_append.mp nodup).2.2 i also i member rfl
  refine ⟨?_, ?_, ?_, ?_, (List.nodup_append.mp nodup).2.1, labels ▸ owns.nodupLabels⟩
  · exact stack.frees returns.frees fun i member => disjoint i (List.mem_append_left _ member)
  · exact labeled.returns returns fun i member =>
      disjoint i (List.mem_append_right _ (List.mem_append_left _ member))
  · exact (owns.regs.congr fun i => perm.mem_iff.symm).free returns.frees disjoint
  · rw [labels, returns.labels]
    exact owns.labels

/-- Records are taken, and belong with the others to the lists of another state record. -/
theorem takes (owns : Owns base parse o)
    (accounts : Accounts parse.pools.regs.cells pools'.regs.cells ids) (nodup : ids.Nodup)
    (samePools : pools'.labels = parse.pools.labels)
    (stack : OnStack pools' sr'.curr.next o'.stack)
    (labeled : Labeled pools' sr'.labeledStates o'.labeled)
    (perm : (ids ++ o.regs).Perm o'.regs) (labels : o'.labels = o.labels) :
    Owns base ⟨sr', pools'⟩ o' := by
  refine ⟨stack, labeled, ?_, ?_, ?_, labels ▸ owns.nodupLabels⟩
  · exact (owns.regs.trans accounts).congr fun i => perm.mem_iff.symm
  · rw [labels, samePools]
    exact owns.labels
  · exact perm.nodup_iff.mp (accounts.nodup nodup owns.nodupRegs owns.regs.held)

/-- What is known about the registers does not matter. -/
theorem sameLists (owns : Owns base parse o) (next : sr'.curr.next = parse.sr.curr.next)
    (labeled : sr'.labeledStates = parse.sr.labeledStates) :
    Owns base { parse with sr := sr' } o :=
  ⟨next ▸ owns.stack, labeled ▸ owns.labeled, owns.regs, owns.labels, owns.nodupRegs,
    owns.nodupLabels⟩

/-- A record was asked for and not granted. -/
theorem asking (owns : Owns base parse o) :
    Owns base ⟨parse.sr, { parse.pools with asked := parse.pools.asked + 1 }⟩ o :=
  owns.takes (Accounts.refl _) List.nodup_nil rfl owns.stack
    (owns.labeled.accounts rfl (Accounts.refl _)) (List.Perm.refl _) rfl

/-- `push` takes a record for the stack, or does nothing. -/
theorem push (owns : Owns base parse o) : ∃ o', Owns base parse.push o' ∧ o'.lost = o.lost ∧
    parse.push.sr = { parse.sr with curr := parse.push.sr.curr } := by
  rw [Parse.push]
  by_cases granted : parse.pools.grants parse.pools.asked = true
  · rw [Pools.allocRegState_granted granted]
    have taken := Accounts.take parse.pools.regs parse.sr.curr
    refine ⟨{ o with stack := parse.pools.regs.fresh :: o.stack }, ?_, rfl, rfl⟩
    refine owns.takes taken (List.nodup_singleton _) rfl ?_ (owns.labeled.accounts rfl taken)
      (List.Perm.refl _) rfl
    exact ⟨rfl, parse.sr.curr, Function.update_self .., owns.stack.accounts taken⟩
  · rw [Pools.allocRegState_denied granted]
    exact ⟨o, owns.asking, rfl, rfl⟩

/-- `pop` returns the top of the stack. -/
theorem pop (owns : Owns base parse o) : ∃ parse' o', parse.pop = .ok parse' ∧
    Owns base parse' o' ∧ o'.lost = o.lost ∧
    parse'.sr = { parse.sr with curr := parse'.sr.curr } := by
  rw [Parse.pop]
  by_cases empty : parse.sr.curr.next = 0
  · rw [if_pos empty]
    exact ⟨parse, o, rfl, owns, rfl, rfl⟩
  · obtain ⟨state, rest, isStack, out, behind⟩ := owns.stack.uncons empty
    obtain ⟨pools', freed, returns⟩ := Pools.freeRegState_eq out
    rw [if_neg empty, Pools.regState_eq out, ok_bind, freed, ok_bind]
    refine ⟨_, { o with stack := rest }, rfl, ?_, rfl, rfl⟩
    refine owns.returns returns behind owns.labeled ?_ rfl
    rw [Owners.regs, isStack]
    exact List.Perm.refl _

theorem popTimes (owns : Owns base parse o) (count : Nat) :
    ∃ parse' o', Parse.popTimes count parse = .ok parse' ∧ Owns base parse' o' ∧
      o'.lost = o.lost ∧ parse'.sr = { parse.sr with curr := parse'.sr.curr } := by
  induction count generalizing parse o with
  | zero => exact ⟨parse, o, rfl, owns, rfl, rfl⟩
  | succ count ih =>
      obtain ⟨parse₁, o₁, popped, owns₁, lost, same⟩ := owns.pop
      obtain ⟨parse₂, o₂, loop, owns₂, lost', same'⟩ := ih owns₁
      refine ⟨parse₂, o₂, ?_, owns₂, lost'.trans lost, ?_⟩
      · rw [Parse.popTimes, popped, ok_bind, loop]
      · rw [same', same]

end Owns

/-! ## Labels -/

/-- The records that `desc_copy_state` asks for are granted all, or the first is not. -/
def Parse.CopyWhole (parse : Parse) (label : Word 64) : Prop :=
  ∀ ls ids, parse.pools.findLabel label (parse.pools.labels.taken + 1) parse.sr.labeledStates =
      .ok (some ls) →
    OnStack parse.pools ls.savedState.next ids → parse.pools.CopiesWhole ids.length

/-- Those that `desc_label_state` asks for after that for the label. -/
def Parse.LabelWhole (parse : Parse) : Prop :=
  parse.pools.grants parse.pools.asked = true →
    ∀ ids, OnStack parse.pools parse.sr.curr.next ids →
      Pools.CopiesWhole { parse.pools with asked := parse.pools.asked + 1 } ids.length

namespace Owns

variable {base : Pools} {parse : Parse} {o : Owners}

theorem sublist_labeledRegs {ids : List Nat} (owns : Owns base parse o)
    (sub : ids.Sublist (labeledRegs o.labeled)) : ids.Nodup := by
  refine (sub.trans ?_).nodup owns.nodupRegs
  exact (List.sublist_append_left _ _).trans (List.sublist_append_right _ _)

/-- `desc_copy_state` returns the stack, and copies that of the label. -/
theorem descCopyState (owns : Owns base parse o) (label : Word 64) :
    ∃ parse' o', parse.descCopyState label = .ok parse' ∧ Owns base parse' o' ∧
      (parse.CopyWhole label → o'.lost = o.lost) ∧
      parse'.sr = { parse.sr with curr := parse'.sr.curr } := by
  have count : o.labeled.length < parse.pools.labels.taken + 1 := by
    have := owns.labeled.chain.length_le owns.nodupLabels
    rw [List.length_map] at this
    exact Nat.lt_succ_of_le this
  obtain ⟨found, isFound, spec⟩ := owns.labeled.find label count
  rw [Parse.descCopyState, isFound, ok_bind]
  cases found with
  | none => exact ⟨parse, o, rfl, owns, fun _ => rfl, rfl⟩
  | some ls =>
      obtain ⟨ids, onStack, sub⟩ := spec ls rfl
      have nodup := List.nodup_append.mp owns.nodupRegs
      obtain ⟨pools₁, freed, returns⟩ := Pools.freeStateStack_spec owns.stack nodup.1
      have disjoint : ∀ i ∈ labeledRegs o.labeled, i ∉ o.stack := fun i member also =>
        nodup.2.2 i also i (List.mem_append_left _ member) rfl
      have onStack₁ : OnStack pools₁ ls.savedState.next ids :=
        onStack.frees returns.frees fun i member => disjoint i (sub.subset member)
      -- between the two the stack is empty
      have owns₁ : Owns base ⟨{ parse.sr with curr := { parse.sr.curr with next := 0 } }, pools₁⟩
          { o with stack := [] } :=
        owns.returns returns rfl owns.labeled (List.Perm.refl _) rfl
      obtain ⟨next, pools₂, copies, lost, copied, stack, nodup₂, accounts, labels, whole⟩ :=
        Pools.dupStateStack_spec onStack₁ (owns.sublist_labeledRegs sub)
      dsimp only
      rw [freed, ok_bind, copied, ok_bind]
      refine ⟨_, ⟨copies, o.labeled, lost ++ o.lost⟩, rfl, ?_, fun granted => ?_, rfl⟩
      · refine owns₁.takes accounts nodup₂ labels stack
          (owns₁.labeled.accounts labels accounts) ?_ rfl
        refine List.perm_iff_count.mpr fun i => ?_
        simp only [Owners.regs, List.count_append, List.count_nil]
        omega
      · have granted₁ : pools₁.CopiesWhole ids.length := by
          rw [Pools.CopiesWhole, returns.grants, returns.asked]
          exact granted ls ids isFound onStack
        rw [whole granted₁]
        rfl

/-- `desc_label_state` copies the stack for a new label. -/
theorem descLabelState (owns : Owns base parse o) (label : Word 64) :
    ∃ parse' o', parse.descLabelState label = .ok parse' ∧ Owns base parse' o' ∧
      (parse.LabelWhole → o'.lost = o.lost) ∧
      parse'.sr = { parse.sr with labeledStates := parse'.sr.labeledStates } := by
  rw [Parse.descLabelState, Pools.allocLabeledState]
  by_cases granted : parse.pools.grants parse.pools.asked = true
  · obtain ⟨next, pools₂, copies, lost, copied, stack, nodup, accounts, labels, whole⟩ :=
      Pools.dupStateStack_spec
        (show OnStack { parse.pools with
            asked := parse.pools.asked + 1
            labels := parse.pools.labels.take ⟨0, label, parse.sr.curr⟩ } _ _ from owns.stack)
        (List.nodup_append.mp owns.nodupRegs).1
    have out : (pools₂.labels.cells parse.pools.labels.fresh).isSome := by
      rw [labels, Pool.cells_take, Function.update_self]
      rfl
    have notFresh : ∀ l ∈ o.labels, l ≠ parse.pools.labels.fresh := fun l member => by
      obtain ⟨a, isOut⟩ := owns.labels.held l member
      exact Pool.ne_fresh_of_cells isOut
    rw [if_pos granted]
    dsimp only
    rw [copied, ok_bind, Pools.setLabeledState, dif_pos out, pure_eq_ok, ok_bind]
    refine ⟨_, ⟨o.stack, (parse.pools.labels.fresh, copies) :: o.labeled, lost ++ o.lost⟩, rfl,
      ⟨owns.stack.accounts accounts, ?_, ?_, ?_, ?_, ?_⟩, fun wholly => ?_, rfl⟩
    · refine ⟨rfl, _, Function.update_self .., stack, owns.labeled.congr (fun l member => ?_) ?_⟩
      · rw [Pool.cells_write, Function.update_of_ne (notFresh l member), labels, Pool.cells_take,
          Function.update_of_ne (notFresh l member)]
      · intro i member
        obtain ⟨a, isOut⟩ := owns.labeled.out i member
        exact accounts.rest i (accounts.not_mem_of_out isOut)
    · refine (owns.regs.trans accounts).congr fun i => ?_
      simp only [Owners.regs, List.flatMap_cons, List.mem_append]
      tauto
    · rw [Pool.cells_write, labels]
      exact (owns.labels.trans (Accounts.take _ _)).update List.mem_cons_self _
    · have all := accounts.nodup nodup owns.nodupRegs owns.regs.held
      refine (List.Perm.nodup_iff (List.perm_iff_count.mpr fun i => ?_)).mp all
      simp only [Owners.regs, labeledRegs, List.flatMap_cons, List.count_append]
      omega
    · exact List.nodup_cons.mpr ⟨fun member => notFresh _ member rfl, owns.nodupLabels⟩
    · rw [whole (wholly granted _ owns.stack)]
      rfl
  · rw [if_neg granted]
    exact ⟨_, o, rfl, owns.asking, fun _ => rfl, rfl⟩

end Owns

/-! ## The end of a state record -/

theorem Pools.freeLabeledState_eq {pools : Pools} {l : PoolPtr} {state : LabeledState}
    (out : pools.labels.cells l = some state) :
    ∃ pools', pools.freeLabeledState l = .ok pools' ∧ pools'.regs = pools.regs ∧
      Frees pools.labels.cells pools'.labels.cells [l] := by
  have isOut : (pools.labels.cells l).isSome := by
    rw [out]
    rfl
  exact ⟨_, dif_pos isOut, rfl, Frees.giveBack isOut⟩

/-- The loop of `ia64_free_state_record` returns the labeled states and their stacks. -/
theorem Labeled.free {pools : Pools} {head : PoolPtr} {labeled : List (Nat × List Nat)}
    {rounds : Nat} (isLabeled : Labeled pools head labeled) (nodupRegs : (labeledRegs labeled).Nodup)
    (nodupLabels : (labeled.map Prod.fst).Nodup) (enough : labeled.length < rounds) :
    ∃ pools', Pools.freeLabels rounds pools head = .ok pools' ∧
      Frees pools.regs.cells pools'.regs.cells (labeledRegs labeled) ∧
      Frees pools.labels.cells pools'.labels.cells (labeled.map Prod.fst) := by
  induction rounds generalizing pools head labeled with
  | zero => exact absurd enough (Nat.not_lt_zero _)
  | succ rounds ih =>
      rw [Pools.freeLabels]
      by_cases ended : head = 0
      · subst ended
        rw [if_pos rfl]
        obtain rfl : labeled = [] := List.map_eq_nil_iff.mp (chain_nil_of_zero isLabeled.chain)
        exact ⟨pools, rfl, Frees.refl _, Frees.refl _⟩
      · cases labeled with
        | nil => exact absurd isLabeled ended
        | cons one rest =>
            obtain ⟨l, ids⟩ := one
            obtain ⟨rfl, ls, out, onStack, behind⟩ := isLabeled
            obtain ⟨idsNodup, restRegs, apart⟩ := List.nodup_append.mp nodupRegs
            obtain ⟨first, restLabels⟩ := List.nodup_cons.mp nodupLabels
            obtain ⟨pools₁, freed, returns⟩ := Pools.freeStateStack_spec onStack idsNodup
            have out₁ : pools₁.labels.cells head = some ls := by
              rw [returns.labels]
              exact out
            obtain ⟨pools₂, freedLabel, regs, frees⟩ := Pools.freeLabeledState_eq out₁
            have still : Labeled pools₂ ls.next rest := by
              refine behind.congr (fun l member => ?_) fun i member => ?_
              · have other : l ∉ [head] := fun also => first (List.mem_singleton.mp also ▸ member)
                rw [frees.rest l other, returns.labels]
              · rw [regs]
                exact returns.frees.rest i fun also => apart i also i member rfl
            obtain ⟨pools₃, loop, freesRegs, freesLabels⟩ :=
              ih still restRegs restLabels (Nat.lt_of_succ_lt_succ enough)
            rw [if_neg ended, Pools.labeledState_eq out, ok_bind, freed, ok_bind, freedLabel, ok_bind]
            rw [regs] at freesRegs
            rw [returns.labels] at frees
            exact ⟨pools₃, loop, returns.frees.trans freesRegs, frees.trans freesLabels⟩

/-- `ia64_free_state_record` returns what the record has. -/
theorem Owns.freeStateRecord {base : Pools} {parse : Parse} {o : Owners}
    (owns : Owns base parse o) :
    ∃ parse', parse.freeStateRecord = .ok parse' ∧
      Accounts base.regs.cells parse'.pools.regs.cells o.lost ∧
      parse'.pools.labels.cells = base.labels.cells := by
  obtain ⟨stackNodup, restNodup, apart⟩ := List.nodup_append.mp owns.nodupRegs
  obtain ⟨labeledNodup, -, apart'⟩ := List.nodup_append.mp restNodup
  have count : o.labeled.length < parse.pools.labels.taken + 1 := by
    have := owns.labeled.chain.length_le owns.nodupLabels
    rw [List.length_map] at this
    exact Nat.lt_succ_of_le this
  obtain ⟨pools₁, freed, freesRegs, freesLabels⟩ :=
    owns.labeled.free labeledNodup owns.nodupLabels count
  have stack : OnStack pools₁ parse.sr.curr.next o.stack :=
    owns.stack.frees freesRegs fun i member also =>
      apart i member i (List.mem_append_left _ also) rfl
  obtain ⟨pools₂, freed', returns⟩ := Pools.freeStateStack_spec stack stackNodup
  have all : Accounts base.regs.cells parse.pools.regs.cells
      ((labeledRegs o.labeled ++ o.stack) ++ o.lost) := by
    refine owns.regs.congr fun i => ?_
    simp only [Owners.regs, List.mem_append]
    tauto
  have labels : Accounts base.labels.cells parse.pools.labels.cells
      (o.labeled.map Prod.fst ++ []) := by
    rw [List.append_nil]
    exact owns.labels
  refine ⟨_, by rw [Parse.freeStateRecord, freed, ok_bind, freed', ok_bind]; rfl, ?_, ?_⟩
  · refine all.free (freesRegs.trans returns.frees) fun i member also => ?_
    cases List.mem_append.mp also with
    | inl inLabeled => exact apart' i inLabeled i member rfl
    | inr onStack => exact apart i onStack i (List.mem_append_right _ member) rfl
  · have none := (labels.free freesLabels (List.forall_mem_nil _)).eq
    change pools₂.labels.cells = _
    rw [returns.labels]
    exact none

/-! ## Descriptors -/

namespace Region

/-- The prologue that ends here has its spill mask among the descriptors. -/
def Leaves (area : List Byte) (r : Region) : Prop :=
  r.inBody = false → r.first = false → r.MaskFits area

/-- The instruction that is sought is in the region. -/
def HasTarget (r : Region) : Prop := r.whenTarget < toInt32 (r.start + r.len)

instance (r : Region) : Decidable r.HasTarget := inferInstanceAs (Decidable (_ < _))

/-- The region behind a header. -/
def enter (body : Bool) (rlen : Word 64) (r : Region) : Region :=
  { r with
    first := false
    inBody := body
    imask := if body then r.imask else none
    start := toInt32 (r.start + r.len)
    len := (rlen.setWidth 32).toInt }

/-- What a descriptor makes of the region. -/
def after (dp : Int) (r : Region) : Descriptor → Region
  | .prologue body rlen _ _ =>
      if r.HasTarget then { r with first := false, done := true } else r.enter body rlen
  | .spillMask => { r with imask := some dp.toNat }
  | _ => r

/-- Where the descriptor behind it starts. -/
def moved (dp : Int) (r : Region) : Descriptor → Int
  | .spillMask => dp + (toInt32 (2 * r.len + 7)).tdiv 8
  | _ => dp

/-- What is read for a descriptor, apart from its operands, is among the descriptors. -/
def Allows (area : List Byte) (r : Region) : Descriptor → Prop
  | .prologue .. => r.Leaves area
  | _ => True

end Region

/-- The records that a descriptor asks for are granted all, or the first is not. -/
def Parse.Whole (parse : Parse) : Descriptor → Prop
  | .copyState label => parse.CopyWhole label
  | .labelState _ => parse.LabelWhole
  | _ => True

theorem leaveRegion_cases (area : List Byte) (parse : Parse) :
    (parse.sr.region.Leaves area ∧ ∃ sr', parse.leaveRegion area = .ok sr' ∧ Keeps parse.sr sr') ∨
      (¬parse.sr.region.Leaves area ∧ parse.leaveRegion area = .error .undefined) := by
  rw [Parse.leaveRegion]
  by_cases stays : (parse.sr.inBody || parse.sr.firstRegion) = true
  · have leaves : parse.sr.region.Leaves area := by
      intro notInBody notFirst
      rw [show parse.sr.inBody = false from notInBody,
        show parse.sr.firstRegion = false from notFirst] at stays
      exact nomatch stays
    rw [if_pos stays]
    exact .inl ⟨leaves, _, rfl, Keeps.refl _⟩
  · obtain ⟨notInBody, notFirst⟩ := Bool.or_eq_false_iff.mp (Bool.eq_false_of_not_eq_true stays)
    rw [if_neg stays]
    rcases finishPrologue_cases area parse.sr with ⟨fits, finished⟩ | ⟨misfits, fails⟩
    · exact .inl ⟨fun _ _ => fits, finished⟩
    · exact .inr ⟨fun leaves => misfits (leaves notInBody notFirst), fails⟩

namespace Owns

variable {base : Pools} {parse : Parse} {o : Owners}

theorem keeps {sr' : StateRecord} (owns : Owns base parse o) (keeps : Keeps parse.sr sr') :
    Owns base { parse with sr := sr' } o := owns.sameLists keeps.next keeps.labeled

theorem enterPrologue (owns : Owns base parse o) (mask grsave : Byte) :
    ∃ o', Owns base (Parse.enterPrologue mask grsave parse) o' ∧ o'.lost = o.lost ∧
      (Parse.enterPrologue mask grsave parse).sr.region = { parse.sr.region with imask := none } := by
  obtain ⟨o', owns', lost, pushed⟩ := owns.push
  have masked := Keeps.saveMasked mask grsave parse.push.sr
  have region : parse.push.sr.region = parse.sr.region := by
    rw [pushed]
    rfl
  refine ⟨o', owns'.sameLists masked.next masked.labeled, lost, ?_⟩
  exact congrArg (fun r : Region => { r with imask := none }) (masked.region.trans region)

/-- A region header pops what the epilogue popped, and stacks the state for a prologue. -/
theorem descPrologue (owns : Owns base parse o) (area : List Byte) (body : Bool) (rlen : Word 64)
    (mask grsave : Byte) :
    (parse.sr.region.Leaves area ∧ ∃ parse' o',
        parse.descPrologue area body rlen mask grsave = .ok parse' ∧ Owns base parse' o' ∧
          o'.lost = o.lost ∧
          ∀ dp, parse'.sr.region = parse.sr.region.after dp (.prologue body rlen mask grsave)) ∨
      (¬parse.sr.region.Leaves area ∧
        parse.descPrologue area body rlen mask grsave = .error .undefined) := by
  rw [Parse.descPrologue]
  rcases leaveRegion_cases area parse with ⟨leaves, sr, left, keeps⟩ | ⟨stuck, fails⟩
  · refine .inl ⟨leaves, ?_⟩
    rw [left, ok_bind]
    have owns₁ : Owns base { parse with sr := { sr with firstRegion := false } } o :=
      owns.sameLists keeps.next keeps.labeled
    by_cases target : sr.whenTarget < toInt32 (sr.regionStart + sr.regionLen)
    · dsimp only
      rw [if_pos target]
      refine ⟨_, o, rfl, owns₁.sameLists rfl rfl, rfl, fun dp => ?_⟩
      rw [← keeps.region]
      exact (if_pos target).symm
    · obtain ⟨parse₂, o₂, popped, owns₂, lost, same⟩ := owns₁.popTimes sr.epilogueCount.toNat
      dsimp only at popped same ⊢
      rw [if_neg target, popped, ok_bind]
      have after (dp : Int) : parse.sr.region.after dp (.prologue body rlen mask grsave) =
          sr.region.enter body rlen := by
        rw [← keeps.region]
        exact if_neg target
      have owns₃ : Owns base { parse₂ with sr := { parse₂.sr with
          epilogueCount := 0
          whenSpRestored := whenNever
          regionStart := toInt32 (sr.regionStart + sr.regionLen)
          regionLen := (rlen.setWidth 32).toInt
          inBody := body } } o₂ := owns₂.sameLists rfl rfl
      cases body with
      | true =>
          refine ⟨_, o₂, rfl, owns₃, lost, fun dp => ?_⟩
          rw [after, same]
          rfl
      | false =>
          obtain ⟨o₄, owns₄, lost₄, region⟩ := owns₃.enterPrologue mask grsave
          refine ⟨_, o₄, rfl, owns₄, lost₄.trans lost, fun dp => ?_⟩
          rw [after, if_neg Bool.false_ne_true, region, same]
          rfl
  · rw [fails]
    exact .inr ⟨stuck, rfl⟩

/-- What one descriptor does. -/
theorem perform (owns : Owns base parse o) (area : List Byte) (dp : Int) (d : Descriptor) :
    (parse.sr.region.Allows area d ∧ ∃ parse' o',
        parse.perform area dp d = .ok (parse', parse.sr.region.moved dp d) ∧
          Owns base parse' o' ∧ (parse.Whole d → o'.lost = o.lost) ∧
          parse'.sr.region = parse.sr.region.after dp d) ∨
      (¬parse.sr.region.Allows area d ∧ parse.perform area dp d = .error .undefined) := by
  have regs (d : Descriptor) := Keeps.performRegs parse.sr d
  cases d with
  | prologue body rlen mask grsave =>
      rcases owns.descPrologue area body rlen mask grsave with
        ⟨leaves, parse', o', performed, owns', lost, region⟩ | ⟨stuck, fails⟩
      · exact .inl ⟨leaves, parse', o', congrArg (· >>= fun parse => pure (parse, dp)) performed,
          owns', fun _ => lost, region dp⟩
      · exact .inr ⟨stuck, congrArg (· >>= fun parse => pure (parse, dp)) fails⟩
  | spillMask => exact .inl ⟨trivial, _, o, rfl, owns.sameLists rfl rfl, fun _ => rfl, rfl⟩
  | copyState label =>
      obtain ⟨parse', o', performed, owns', lost, same⟩ := owns.descCopyState label
      refine .inl ⟨trivial, parse', o', congrArg (· >>= fun parse => pure (parse, dp)) performed,
        owns', lost, ?_⟩
      rw [same]
      rfl
  | labelState label =>
      obtain ⟨parse', o', performed, owns', lost, same⟩ := owns.descLabelState label
      refine .inl ⟨trivial, parse', o', congrArg (· >>= fun parse => pure (parse, dp)) performed,
        owns', lost, ?_⟩
      rw [same]
      rfl
  | _ => exact .inl ⟨trivial, _, o, rfl, owns.keeps (regs _), fun _ => rfl, (regs _).region⟩

end Owns

end Libunwind.Ia64
