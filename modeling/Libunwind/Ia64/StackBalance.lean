import Libunwind.Library.Run
import Libunwind.Ia64.DynamicRegions
import Libunwind.Ia64.StackOwnership

/-! # Records that are taken and returned

While `build_script` runs, the lists of its state record and those that aliases have put aside are
apart from each other. When it returns, it has returned the records that it has taken, unless it
rejects what it reads while it has some, or a copy stops in its midst.
-/

namespace Libunwind.Ia64

open Ledger
open Dyn (DynOp DynRegionInfo)

/-! ## What is said of a call -/

/-- The same records are out as before, and each that was taken since was returned exactly once. -/
structure Pools.GivenBack (base pools : Pools) : Prop where
  regs : pools.regs.cells = base.regs.cells
  labels : pools.labels.cells = base.labels.cells
  regsOnce : ∀ i, base.regs.taken < i → i ≤ pools.regs.taken → pools.regs.returned.count i = 1
  labelsOnce : ∀ l, base.labels.taken < l → l ≤ pools.labels.taken →
    pools.labels.returned.count l = 1

theorem Pools.givenBack {base pools : Pools} (regs : pools.regs.cells = base.regs.cells)
    (labels : pools.labels.cells = base.labels.cells) : GivenBack base pools :=
  ⟨regs, labels, fun _ since isTaken => Pool.returned_once regs since isTaken,
    fun _ since isTaken => Pool.returned_once labels since isTaken⟩

/-- These are the records on the lists of a state record. -/
structure HasLists (pools : Pools) (sr : StateRecord) (o : Owners) : Prop where
  stack : OnStack pools sr.curr.next o.stack
  labeled : Labeled pools sr.labeledStates o.labeled
  lost : o.lost = []

/-- The lists of these state records end, and have no record in common. -/
def ListsApart (pools : Pools) (srs : List StateRecord) : Prop :=
  ∃ os : List Owners, List.Forall₂ (HasLists pools) srs os ∧ (os.flatMap Owners.regs).Nodup ∧
    (os.flatMap Owners.labels).Nodup

namespace Building

/-- The state records of the calls that are under way, the innermost first. -/
def records (s : Building) : List StateRecord := s.parse.sr :: s.callers.map AliasCall.origSr

/-- The lists are apart while the call is under way, and it has returned what it has taken. -/
structure Sound (base : Pools) (s : Building) : Prop where
  underWay : (∀ ret, s.control ≠ .returned ret) → ListsApart s.parse.pools s.records
  returned : ∀ ret, s.control = .returned ret → base.GivenBack s.parse.pools

/-- None of the state records has a list. -/
def HoldsNothing (s : Building) : Prop :=
  ∀ sr ∈ s.records, sr.curr.next = 0 ∧ sr.labeledStates = 0

/-- The proc info for an alias is not found, or its format is unknown. -/
def Rejected (answer : Except UnwError FetchedProc) : Prop :=
  ∀ proc, answer = .ok proc → proc.unwind = .otherFormat

/-- The next step rejects nothing while a record is held, and a copy that it makes is granted the records
    for all of a stack or not the first. -/
def Balanced (s : Building) (answer : Except UnwError FetchedProc) : Prop :=
  match s.control with
  | .descriptors dp => Parsing.goesOn s.area ⟨dp, s.parse⟩ = true →
      ∀ d dp', unwDecode s.area dp s.parse.sr.inBody = .ok (d, dp') → s.parse.Whole d
  | .regions _ (r :: rest) => r.insnCount.toInt < 0 ∧ rest ≠ [] → s.HoldsNothing
  | .ops _ (op :: _) _ =>
      match s.parse.sr.takeOp op with
      | (sr, .labelState _) => Parse.LabelWhole ⟨sr, s.parse.pools⟩
      | (sr, .copyState label) => Parse.CopyWhole ⟨sr, s.parse.pools⟩ label
      | (_, .reject _) => s.HoldsNothing
      | (_, .alias) => Rejected answer → s.HoldsNothing
      | _ => True
  | _ => True

/-- What the next step reads of descriptors is inside of their area, and a predicate register has a
    number that there is. -/
def Readable (s : Building) : Prop :=
  match s.control with
  | .descriptors dp => Parsing.goesOn s.area ⟨dp, s.parse⟩ = true →
      ∃ d dp', unwDecode s.area dp s.parse.sr.inBody = .ok (d, dp') ∧
        s.parse.sr.region.Allows s.area d
  | .regions _ (r :: _) => 0 ≤ r.insnCount.toInt → s.parse.sr.region.Leaves s.area
  | .ops _ (op :: _) _ => ¬s.parse.sr.ShiftsFar op
  | _ => True

end Building

/-! ## One call inside the other -/

/-- The lists of each state record are of what was taken since the one behind it waits. -/
def Lists (base : Pools) : Pools → List StateRecord → Prop
  | pools, [] => pools = base
  | pools, sr :: srs =>
      ∃ before o, Owns before ⟨sr, pools⟩ o ∧ o.lost = [] ∧ Lists base before srs

namespace HasLists

variable {pools pools' : Pools} {sr : StateRecord} {o : Owners} {ids ls : List Nat}

theorem out (lists : HasLists pools sr o) : ∀ i ∈ o.regs, ∃ a, pools.regs.cells i = some a := by
  intro i member
  rw [Owners.regs, lists.lost, List.append_nil] at member
  cases List.mem_append.mp member with
  | inl onStack => exact lists.stack.out i onStack
  | inr inLabeled => exact lists.labeled.out i inLabeled

theorem accounts (lists : HasLists pools sr o)
    (regs : Accounts pools.regs.cells pools'.regs.cells ids)
    (labels : Accounts pools.labels.cells pools'.labels.cells ls) : HasLists pools' sr o := by
  refine ⟨lists.stack.accounts regs, lists.labeled.congr (fun l member => ?_) fun i member => ?_,
    lists.lost⟩
  · obtain ⟨a, out⟩ := lists.labeled.chain.out l member
    exact labels.rest l (labels.not_mem_of_out out)
  · obtain ⟨a, out⟩ := lists.labeled.out i member
    exact regs.rest i (regs.not_mem_of_out out)

end HasLists

/-- The records on lists are out. -/
theorem out_of_hasLists {pools : Pools} {srs : List StateRecord} {os : List Owners}
    (lists : List.Forall₂ (HasLists pools) srs os) :
    (∀ i ∈ os.flatMap Owners.regs, ∃ a, pools.regs.cells i = some a) ∧
      ∀ l ∈ os.flatMap Owners.labels, ∃ a, pools.labels.cells l = some a := by
  induction lists with
  | nil => exact ⟨nofun, nofun⟩
  | cons first _ ih =>
      constructor
      · intro i member
        rw [List.flatMap_cons] at member
        exact (List.mem_append.mp member).elim (first.out i) (ih.1 i)
      · intro l member
        rw [List.flatMap_cons] at member
        exact (List.mem_append.mp member).elim (first.labeled.chain.out l) (ih.2 l)

namespace Lists

variable {base pools pools' : Pools} {sr sr' : StateRecord} {srs : List StateRecord}

/-- What one call took is apart from what the calls behind it had. -/
theorem apart (lists : Lists base pools srs) : ListsApart pools srs := by
  induction srs generalizing pools with
  | nil => exact ⟨[], .nil, List.nodup_nil, List.nodup_nil⟩
  | cons sr srs ih =>
      obtain ⟨before, o, owns, lost, waiting⟩ := lists
      obtain ⟨os, all, nodupRegs, nodupLabels⟩ := ih waiting
      obtain ⟨outRegs, outLabels⟩ := out_of_hasLists all
      refine ⟨o :: os, .cons ⟨owns.stack, owns.labeled, lost⟩ ?_, ?_, ?_⟩
      · exact all.imp fun _ _ lists => lists.accounts owns.regs owns.labels
      · exact owns.regs.nodup owns.nodupRegs nodupRegs outRegs
      · exact owns.labels.nodup owns.nodupLabels nodupLabels outLabels

/-- Where nobody has a list, nothing is out that was not. -/
theorem nothing (lists : Lists base pools srs)
    (empty : ∀ sr ∈ srs, sr.curr.next = 0 ∧ sr.labeledStates = 0) :
    pools.regs.cells = base.regs.cells ∧ pools.labels.cells = base.labels.cells := by
  induction srs generalizing pools with
  | nil => exact lists ▸ ⟨rfl, rfl⟩
  | cons sr srs ih =>
      obtain ⟨before, o, owns, lost, waiting⟩ := lists
      obtain ⟨regs, labels⟩ := ih waiting fun sr member => empty sr (List.mem_cons_of_mem _ member)
      obtain ⟨noStack, noLabels⟩ := empty sr List.mem_cons_self
      have stack : o.stack = [] := chain_nil_of_zero (noStack ▸ owns.stack)
      have labeled : o.labeled = [] :=
        List.map_eq_nil_iff.mp (chain_nil_of_zero (noLabels ▸ owns.labeled.chain))
      have ownsRegs := owns.regs
      have ownsLabels := owns.labels
      rw [Owners.regs, stack, labeled, lost] at ownsRegs
      rw [Owners.labels, labeled] at ownsLabels
      exact ⟨ownsRegs.eq.trans regs, ownsLabels.eq.trans labels⟩

/-- A call begins with no lists. -/
theorem cons (waiting : Lists base pools srs) (next : sr.curr.next = 0)
    (labeled : sr.labeledStates = 0) : Lists base pools (sr :: srs) :=
  ⟨pools, ⟨[], [], []⟩, ⟨next, labeled, Accounts.refl _, Accounts.refl _, List.nodup_nil,
    List.nodup_nil⟩, rfl, waiting⟩

/-- What is known about the registers does not matter. -/
theorem sameLists (lists : Lists base pools (sr :: srs)) (next : sr'.curr.next = sr.curr.next)
    (labeled : sr'.labeledStates = sr.labeledStates) : Lists base pools (sr' :: srs) := by
  obtain ⟨before, o, owns, lost, waiting⟩ := lists
  exact ⟨before, o, owns.sameLists next labeled, lost, waiting⟩

/-- Only the records matter that are out. -/
theorem sameCells (lists : Lists base pools (sr :: srs))
    (regs : pools'.regs.cells = pools.regs.cells)
    (labels : pools'.labels.cells = pools.labels.cells) : Lists base pools' (sr :: srs) := by
  obtain ⟨before, o, owns, lost, waiting⟩ := lists
  refine ⟨before, o, ⟨?_, ?_, ?_, ?_, owns.nodupRegs, owns.nodupLabels⟩, lost, waiting⟩
  · exact owns.stack.congr fun i _ => congrFun regs i
  · exact owns.labeled.congr (fun l _ => congrFun labels l) fun i _ => congrFun regs i
  · exact regs ▸ owns.regs
  · exact labels ▸ owns.labels

end Lists

/-! ## Steps -/

namespace Building

/-- What holds of a call of `build_script` that is under way, and of one that has returned. -/
def Inv (base : Pools) (s : Building) : Prop :=
  match s.control with
  | .returned _ => base.GivenBack s.parse.pools
  | _ => Lists base s.parse.pools s.records

/-- A step that can be made keeps the invariant. -/
def Goes (base : Pools) (readable : Prop) (r : Result Building) : Prop :=
  (readable ∧ ∃ s', r = .ok s' ∧ s'.Inv base) ∨ (¬readable ∧ ¬∃ s', r = .ok s')

variable {base : Pools} {s : Building} {sr : StateRecord} {pr : Word 64}
  {answer : Except UnwError FetchedProc}

theorem Goes.ok {readable : Prop} (isReadable : readable) (inv : s.Inv base) :
    Goes base readable (.ok s) := .inl ⟨isReadable, s, rfl, inv⟩

theorem Goes.error {readable : Prop} {e : Fault} (notReadable : ¬readable) :
    Goes base readable (.error e) := .inr ⟨notReadable, fun ⟨_, isOk⟩ => nomatch isOk⟩

theorem Inv.sound (inv : s.Inv base) : s.Sound base := by
  rw [Inv] at inv
  constructor
  · intro underWay
    split at inv
    next ret isReturned => exact absurd isReturned (underWay ret)
    next => exact inv.apart
  · intro ret isReturned
    rw [isReturned] at inv
    exact inv

/-- What is rejected while nothing is held. -/
theorem Inv.reject (lists : Lists base s.parse.pools s.records) (nothing : s.HoldsNothing)
    (code : UnwError) : (s.reject code).Inv base := by
  obtain ⟨regs, labels⟩ := lists.nothing nothing
  exact Pools.givenBack regs labels

/-- `create_state_record_for` begins a call inside of the others. -/
theorem Inv.create (waiting : Lists base s.parse.pools (s.callers.map AliasCall.origSr))
    {proc : FetchedProc} (rejected : proc.unwind = .otherFormat →
      ∀ call ∈ s.callers, call.origSr.curr.next = 0 ∧ call.origSr.labeledStates = 0)
    (pr ip : Word 64) : (s.create pr ip proc).Inv base := by
  rw [Building.create]
  cases unwind : proc.unwind with
  | null | table _ | dynamic _ _ => exact waiting.cons rfl rfl
  | otherFormat =>
      obtain ⟨regs, labels⟩ := waiting.nothing fun sr member => by
        obtain ⟨call, isCaller, rfl⟩ := List.mem_map.mp member
        exact rejected unwind call isCaller
      exact Pools.givenBack regs labels

theorem Inv.nextDescriptor {dp : Int} (lists : Lists base s.parse.pools s.records)
    (whole : Parsing.goesOn s.area ⟨dp, s.parse⟩ = true →
      ∀ d dp', unwDecode s.area dp s.parse.sr.inBody = .ok (d, dp') → s.parse.Whole d) :
    Goes base (Parsing.goesOn s.area ⟨dp, s.parse⟩ = true →
      ∃ d dp', unwDecode s.area dp s.parse.sr.inBody = .ok (d, dp') ∧
        s.parse.sr.region.Allows s.area d) (s.nextDescriptor dp) := by
  rw [Building.nextDescriptor]
  cases goesOn : Parsing.goesOn s.area ⟨dp, s.parse⟩ with
  | false => exact .ok nofun lists
  | true =>
      rw [if_pos rfl, Parsing.advance]
      dsimp only
      cases decoded : unwDecode s.area dp s.parse.sr.inBody with
      | error e =>
          rw [error_bind, error_bind]
          refine .error fun readable => ?_
          obtain ⟨_, _, isOk, -⟩ := readable rfl
          exact nomatch isOk
      | ok found =>
          obtain ⟨d, dp'⟩ := found
          obtain ⟨before, o, owns, lost, waiting⟩ := lists
          rw [ok_bind]
          dsimp only
          rcases owns.perform s.area dp' d with
            ⟨allows, parse', o', performed, owns', kept, -⟩ | ⟨stuck, fails⟩
          · rw [performed, ok_bind, pure_eq_ok, ok_bind]
            have lost' := (kept (whole goesOn d dp' decoded)).trans lost
            exact .ok (fun _ => ⟨d, dp', rfl, allows⟩) ⟨before, o', owns', lost', waiting⟩
          · rw [fails, error_bind, error_bind]
            refine .error fun readable => ?_
            obtain ⟨_, _, same, allows⟩ := readable rfl
            cases same
            exact stuck allows

/-- A region of negative length has nothing of a spill mask to read. -/
theorem atRegion_leaves_iff (area : List Byte) (length : Word 64) (count : Int) (sr : StateRecord) :
    (atRegion length count sr).region.Leaves area ↔ (0 ≤ count → sr.region.Leaves area) := by
  rw [atRegion]
  by_cases negative : count < 0
  · rw [if_pos negative]
    refine ⟨fun _ nonneg => absurd negative (not_lt.mpr nonneg), fun _ _ _ imask _ t below => ?_⟩
    exact absurd below (Nat.not_lt_zero t)
  · rw [if_neg negative]
    exact ⟨fun leaves _ => leaves, fun leaves => leaves (not_lt.mp negative)⟩

theorem Lists.atRegion {srs : List StateRecord} {pools : Pools}
    (lists : Lists base pools (sr :: srs)) (length : Word 64) (count : Int) :
    Lists base pools (Building.atRegion length count sr :: srs) := by
  rw [Building.atRegion]
  split
  · exact lists.sameLists rfl rfl
  · exact lists

theorem Inv.nextRegion {length : Word 64} {r : DynRegionInfo 64} {rest : List (DynRegionInfo 64)}
    (lists : Lists base s.parse.pools s.records)
    (nothing : r.insnCount.toInt < 0 ∧ rest ≠ [] → s.HoldsNothing) :
    Goes base (0 ≤ r.insnCount.toInt → s.parse.sr.region.Leaves s.area)
      (s.nextRegion length (r :: rest)) := by
  rw [Building.nextRegion]
  by_cases rejects : r.insnCount.toInt < 0 ∧ rest ≠ []
  · rw [if_pos rejects]
    exact .ok (fun nonneg => absurd rejects.1 (not_lt.mpr nonneg))
      (Inv.reject lists (nothing rejects) .inval)
  · rw [if_neg rejects, ← atRegion_leaves_iff s.area length]
    obtain ⟨before, o, owns, lost, waiting⟩ := Lists.atRegion lists length r.insnCount.toInt
    dsimp only
    generalize BitVec.ofInt 64 _ = rlen
    rcases owns.descPrologue s.area false rlen 0 0 with
      ⟨leaves, parse', o', prologue, owns', lost', -⟩ | ⟨stuck, fails⟩
    · rw [prologue, ok_bind]
      refine .ok leaves ?_
      cases parse'.sr.done with
      | true | false => exact ⟨before, o', owns', lost'.trans lost, waiting⟩
    · rw [fails, error_bind]
      exact .error stuck

/-- The registers that an operation changes are not on the lists. -/
theorem opEffect_lists {op : DynOp 64} {when : Int} {sr' : StateRecord}
    (effect : sr.opEffect op when = .regs sr') :
    sr'.curr.next = sr.curr.next ∧ sr'.labeledStates = sr.labeledStates := by
  have update (memory : Bool) (saved : Where) (val : Word 64)
      (effect : sr.updateRegInfo op memory saved when val = .regs sr') :
      sr'.curr.next = sr.curr.next ∧ sr'.labeledStates = sr.labeledStates := by
    rw [StateRecord.updateRegInfo] at effect
    split at effect
    · cases effect
      exact ⟨rfl, rfl⟩
    · exact nomatch effect
  rw [StateRecord.opEffect] at effect
  split at effect
  · split_ifs at effect
    · exact update _ _ _ effect
    · exact update _ _ _ effect
    · exact update _ _ _ effect
  · exact update _ _ _ effect
  · exact update _ _ _ effect
  · split_ifs at effect
    cases effect
    exact ⟨rfl, rfl⟩
  · cases effect
    exact ⟨rfl, rfl⟩
  · exact nomatch effect
  · exact nomatch effect
  · exact nomatch effect
  · exact nomatch effect
  · cases effect
    exact ⟨rfl, rfl⟩

theorem finish_lists (sr : StateRecord) :
    sr.finish.curr.next = sr.curr.next ∧ sr.finish.labeledStates = sr.labeledStates := by
  rw [StateRecord.finish]
  by_cases restored : sr.whenSpRestored < sr.whenTarget
  · rw [if_pos restored]
    split
    · exact ⟨rfl, rfl⟩
    · exact ⟨rfl, rfl⟩
  · rw [if_neg restored]
    split
    · exact ⟨rfl, rfl⟩
    · exact ⟨rfl, rfl⟩

theorem takeOp_lists {op : DynOp 64} {effect : OpEffect} {sr' : StateRecord}
    (taken : sr.takeOp op = (sr', effect)) :
    (sr'.curr.next = sr.curr.next ∧ sr'.labeledStates = sr.labeledStates) ∧
      ∀ sr'', effect = .regs sr'' →
        sr''.curr.next = sr.curr.next ∧ sr''.labeledStates = sr.labeledStates := by
  have keeps := Keeps.descIsActive sr op.qp (op.when.signExtend 64)
  rw [StateRecord.takeOp] at taken
  generalize sr.descIsActive op.qp (op.when.signExtend 64) = activity at keeps taken
  obtain ⟨active, sr₁⟩ := activity
  obtain ⟨rfl, rfl⟩ := Prod.mk.inj taken
  refine ⟨⟨keeps.next, keeps.labeled⟩, fun sr'' isRegs => ?_⟩
  split at isRegs
  · have same := opEffect_lists isRegs
    exact ⟨same.1.trans keeps.next, same.2.trans keeps.labeled⟩
  · cases isRegs
    exact ⟨keeps.next, keeps.labeled⟩

theorem Inv.nextOp {length : Word 64} {op : DynOp 64} {ops : List (DynOp 64)}
    {rest : List (DynRegionInfo 64)} (isControl : s.control = .ops length (op :: ops) rest)
    (lists : Lists base s.parse.pools s.records) (balanced : s.Balanced answer) :
    Goes base (¬s.parse.sr.ShiftsFar op) (s.nextOp pr answer length rest (op :: ops)) := by
  rw [Building.nextOp]
  by_cases far : s.parse.sr.ShiftsFar op
  · rw [if_pos far]
    exact .error (not_not_intro far)
  rw [if_neg far]
  rw [Balanced, isControl] at balanced
  dsimp only at balanced
  generalize taken : s.parse.sr.takeOp op = both at balanced
  obtain ⟨sr, effect⟩ := both
  obtain ⟨⟨next, labeled⟩, regs⟩ := takeOp_lists taken
  have lists' : Lists base s.parse.pools (sr :: s.callers.map AliasCall.origSr) :=
    lists.sameLists next labeled
  -- a record that is put aside holds what the current one holds
  have puts (nothing : s.HoldsNothing) (call : AliasCall) (orig : call.origSr = sr) :
      ∀ c ∈ call :: s.callers, c.origSr.curr.next = 0 ∧ c.origSr.labeledStates = 0 := by
    intro c member
    cases List.mem_cons.mp member with
    | inl isFirst =>
        obtain ⟨noStack, noLabels⟩ := nothing s.parse.sr List.mem_cons_self
        rw [isFirst, orig, next, labeled]
        exact ⟨noStack, noLabels⟩
    | inr behind =>
        exact nothing c.origSr (List.mem_cons_of_mem _ (List.mem_map_of_mem behind))
  cases effect with
  | regs sr' =>
      obtain ⟨next', labeled'⟩ := regs sr' rfl
      exact .ok far (lists.sameLists next' labeled')
  | stop => exact .ok far lists'
  | reject code =>
      obtain ⟨regs, labels⟩ := lists.nothing balanced
      exact .ok far (Pools.givenBack regs labels)
  | labelState label =>
      obtain ⟨before, o, owns, lost, waiting⟩ := lists'
      obtain ⟨parse', o', labels, owns', kept, -⟩ := owns.descLabelState label
      dsimp only
      rw [labels, ok_bind]
      exact .ok far ⟨before, o', owns', (kept balanced).trans lost, waiting⟩
  | copyState label =>
      obtain ⟨before, o, owns, lost, waiting⟩ := lists'
      obtain ⟨parse', o', copies, owns', kept, -⟩ := owns.descCopyState label
      dsimp only
      rw [copies, ok_bind]
      exact .ok far ⟨before, o', owns', (kept balanced).trans lost, waiting⟩
  | «alias» =>
      cases answer with
      | error code =>
          have nothing : s.HoldsNothing := balanced nofun
          obtain ⟨regs, labels⟩ := lists.nothing nothing
          exact .ok far (Pools.givenBack regs labels)
      | ok proc =>
          refine .ok far (Inv.create lists' (fun unwind => puts (balanced ?_) _ rfl) pr _)
          rintro _ ⟨⟩
          exact unwind

/-- What a call has, it returns. -/
theorem Lists.free {pools : Pools} {srs : List StateRecord} (lists : Lists base pools (sr :: srs)) :
    ∃ before parse', Parse.freeStateRecord ⟨sr, pools⟩ = .ok parse' ∧ Lists base before srs ∧
      parse'.pools.regs.cells = before.regs.cells ∧
      parse'.pools.labels.cells = before.labels.cells := by
  obtain ⟨before, o, owns, lost, waiting⟩ := lists
  obtain ⟨parse', freed, regs, labels⟩ := owns.freeStateRecord
  rw [lost] at regs
  exact ⟨before, parse', freed, waiting, regs.eq, labels⟩

/-- An alias leaves the lists that were put aside as they were. -/
theorem Inv.created (lists : Lists base s.parse.pools s.records) :
    Goes base True s.created := by
  rw [Building.created]
  cases isCallers : s.callers with
  | nil =>
      rw [records, isCallers] at lists
      obtain ⟨before, parse', freed, rfl, regs, labels⟩ := Lists.free lists
      have freed : s.parse.freeStateRecord = .ok parse' := freed
      dsimp only
      rw [freed, ok_bind]
      exact .ok trivial (Pools.givenBack regs labels)
  | cons call callers =>
      rw [records, isCallers] at lists
      have lists' : Lists base s.parse.pools
          (s.parse.sr.inRegionOf call.origSr call.op.when.toInt ::
            call.origSr :: callers.map AliasCall.origSr) := lists.sameLists rfl rfl
      obtain ⟨before, parse', freed, waiting, regs, labels⟩ := Lists.free lists'
      dsimp only
      rw [freed, ok_bind]
      exact .ok trivial ((waiting.sameCells regs labels).sameLists rfl rfl)

/-- A step of a call that is under way is made where what it reads is there, and keeps the invariant. -/
theorem Inv.step (inv : s.Inv base) (balanced : s.Balanced answer) :
    Goes base s.Readable (s.step pr answer) := by
  rw [Building.step]
  cases isControl : s.control with
  | descriptors dp =>
      rw [Inv, isControl] at inv
      rw [Balanced, isControl] at balanced
      rw [Readable, isControl]
      exact Inv.nextDescriptor inv balanced
  | regions length rest =>
      rw [Inv, isControl] at inv
      rw [Balanced, isControl] at balanced
      rw [Readable, isControl]
      cases rest with
      | nil => exact .ok trivial inv
      | cons r rest => exact Inv.nextRegion inv balanced
  | ops length ops rest =>
      rw [Inv, isControl] at inv
      rw [Readable, isControl]
      cases ops with
      | nil => exact .ok trivial inv
      | cons op ops => exact Inv.nextOp isControl inv balanced
  | finish =>
      rw [Inv, isControl] at inv
      rw [Readable, isControl]
      exact .ok trivial (inv.sameLists (finish_lists _).1 (finish_lists _).2)
  | created =>
      rw [Inv, isControl] at inv
      rw [Readable, isControl]
      exact Inv.created inv
  | returned ret =>
      rw [Readable, isControl]
      exact .ok trivial inv

/-! ## Runs -/

/-- The runs of `build_script` for a procedure whose steps are all allowed. -/
def Runs (pr ip : Word 64) (proc : FetchedProc) (pools : Pools)
    (allowed : Building → Except UnwError FetchedProc → Prop) : Building → Prop :=
  Run (· = begin pr ip proc pools) (fun s answer s' => s.step pr answer = .ok s') allowed

variable {ip : Word 64} {proc : FetchedProc} {pools : Pools}

theorem Runs.inv (run : Runs pr ip proc pools Balanced s) : s.Inv pools := by
  refine run.invariant (fun s isBegin => ?_) fun s answer s' inv balanced stepped => ?_
  · have noCallers (call : AliasCall) (member : call ∈ []) :
        call.origSr.curr.next = 0 ∧ call.origSr.labeledStates = 0 := nomatch member
    rw [isBegin, begin]
    refine Inv.create ?_ (fun _ => noCallers) pr ip
    rfl
  · rcases inv.step balanced with ⟨-, s'', isOk, inv'⟩ | ⟨-, stuck⟩
    · obtain rfl := Except.ok.inj (isOk.symm.trans stepped)
      exact inv'
    · exact absurd ⟨s', stepped⟩ stuck

/-- In every run of balanced steps the lists are apart, what was taken has been returned once at the end,
    and only what is read can keep a step from being made. -/
theorem Runs.buildScript_sound (run : Runs pr ip proc pools Balanced s) :
    s.Sound pools ∧ ∀ answer, s.Balanced answer →
      (s.Readable ↔ ∃ s', s.step pr answer = .ok s') := by
  refine ⟨run.inv.sound, fun answer balanced => ?_⟩
  rcases run.inv.step balanced with ⟨readable, s', isOk, -⟩ | ⟨notReadable, stuck⟩
  · exact ⟨fun _ => ⟨s', isOk⟩, fun _ => readable⟩
  · exact ⟨fun readable => absurd readable notReadable, fun goes => absurd goes stuck⟩

/-- Pools that are never empty. -/
def ample : Pools := ⟨.empty, .empty, fun _ => true, 0⟩

/-- A procedure with one region of three instructions, in which there is one operation. -/
def oneOp (tag : BitVec 8) : FetchedProc :=
  ⟨0, .dynamic 0x10 [⟨3, [⟨tag, 0, 0, 0, 7⟩]⟩]⟩

/-- The state is labeled in a prologue. -/
theorem runs_sound_label :
    ∃ (s : Building) (script : _), s.control = .returned (.ok script) ∧ s.Sound ample := by
  have begins : Runs 0 1 (oneOp 6) ample Balanced (begin 0 1 (oneOp 6) ample) := .start rfl
  have region := Run.step (.error .noinfo) begins (fun rejects => absurd rfl rejects.2) rfl
  have labels := Run.step (.error .noinfo) region (fun _ _ _ _ _ _ => rfl) rfl
  have endOfOps := Run.step (.error .noinfo) labels trivial rfl
  have endOfRegions := Run.step (.error .noinfo) endOfOps trivial rfl
  have finished := Run.step (.error .noinfo) endOfRegions trivial rfl
  have created := Run.step (.error .noinfo) finished trivial rfl
  exact ⟨_, _, rfl, (Runs.buildScript_sound created).1⟩

/-- A frame size is added to another register than the stack pointer: the operation is rejected, and the
    state that was stacked for the region stays out. -/
theorem not_runs_sound : ¬∀ s : Building,
    Runs 0 1 (oneOp 4) ample (fun _ _ => True) s → s.Sound ample := by
  intro sound
  have begins : Runs 0 1 (oneOp 4) ample (fun _ _ => True) (begin 0 1 (oneOp 4) ample) := .start rfl
  have region := Run.step (.error .noinfo) begins trivial rfl
  have rejects := Run.step (.error .noinfo) region trivial rfl
  have balanced := (sound _ rejects).returned (.error .badreg) rfl
  exact nomatch congrFun balanced.regs 1

end Building

end Libunwind.Ia64
