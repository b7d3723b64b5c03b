import Libunwind.Dyn.Info
import Libunwind.Library.IntrusiveList

/-! # The registered entries

`_U_dyn_register` and `_U_dyn_cancel` keep the entries on a list that is threaded through them, and
`local_find_proc_info` goes along it.
-/

namespace Libunwind.Dyn.Registry

open IntrusiveList

variable {w : Nat}

/-- `_U_dyn_info_list`, and the links that each address holds as an entry. -/
structure State (w : Nat) where
  generation : BitVec 32
  first : Word w
  next : Word w → Word w
  prev : Word w → Word w

/-- `_U_dyn_register`. -/
def State.dynRegister (s : State w) (di : Word w) : State w :=
  let next := Function.update s.next di s.first
  let prev := Function.update s.prev di 0
  let prev := if next di = 0 then prev else Function.update prev (next di) di
  { generation := s.generation + 1, first := di, next, prev }

/-- `_U_dyn_cancel`. -/
def State.dynCancel (s : State w) (di : Word w) : State w :=
  let first := if s.prev di = 0 then s.next di else s.first
  let next := if s.prev di = 0 then s.next else Function.update s.next (s.prev di) (s.next di)
  let prev := if next di = 0 then s.prev else Function.update s.prev (next di) (s.prev di)
  { generation := s.generation + 1, first
    next := Function.update next di 0
    prev := Function.update prev di 0 }

inductive Call (w : Nat) where
  | register (di : Word w)
  | cancel (di : Word w)
  deriving DecidableEq

def State.exec (s : State w) : Call w → State w
  | .register di => s.dynRegister di
  | .cancel di => s.dynCancel di

/-- The list as it is at first; nothing is known about the links of what is no entry yet. -/
def start (next prev : Word w → Word w) : State w :=
  { generation := 0, first := 0, next, prev }

/-- The state after these calls, the latest of which comes first. -/
def State.after (s : State w) : List (Call w) → State w
  | [] => s
  | call :: calls => (s.after calls).exec call

/-- The loop of `local_find_proc_info`. -/
def findEntry (next : Word w → Word w) (info : Word w → DynInfo w) (ip : Word w) :
    Nat → Word w → Result (Option (Word w))
  | 0, _ => .error .timeout
  | fuel + 1, di =>
      if di = 0 then .ok none
      else if (info di).Covers ip then .ok (some di)
      else findEntry next info ip fuel (next di)

/-- `local_find_proc_info`, on the links. -/
def State.findProcInfo (s : State w) (search : TableSearch w) (info : Word w → DynInfo w)
    (ip : Word w) (pi : ProcInfo w) (needUnwindInfo : Bool) (fuel : Nat) : Outcome w :=
  match findEntry s.next info ip fuel s.first with
  | .ok (some di) => extractDynamicProcInfo search ip pi (info di) needUnwindInfo
  | .ok none => { ret := .error (.err .noinfo), pi }
  | .error e => { ret := .error e, pi }

/-! ## What is registered -/

/-- An entry is registered after these calls. -/
def Registered (di : Word w) : List (Call w) → Prop
  | [] => False
  | .register x :: calls => di = x ∨ Registered di calls
  | .cancel x :: calls => di ≠ x ∧ Registered di calls

/-- Calls of a client that registers what is not registered, and cancels what is. -/
def Proper : List (Call w) → Prop
  | [] => True
  | .register x :: calls => x ≠ 0 ∧ ¬Registered x calls ∧ Proper calls
  | .cancel x :: calls => Registered x calls ∧ Proper calls

/-- The last registration of the one entry comes after every one of the other. -/
def MoreRecent (calls : List (Call w)) (x y : Word w) : Prop :=
  ∃ later earlier, calls = later ++ .register x :: earlier ∧ .register y ∉ later

/-- The registered entries, the most recent one first. -/
def registered : List (Call w) → List (Word w)
  | [] => []
  | .register x :: calls => x :: registered calls
  | .cancel x :: calls => (registered calls).erase x

/-- The list and its entries agree with the calls so far. -/
structure Faithful (calls : List (Call w)) (s : State w) : Prop where
  linked : DoublyLinked s.next s.prev 0 0 s.first (registered calls)
  nodup : (registered calls).Nodup
  members : ∀ di, di ∈ registered calls ↔ Registered di calls
  recent : (registered calls).Pairwise (MoreRecent calls)
  generation : s.generation = BitVec.ofNat 32 calls.length

namespace Faithful

variable {calls : List (Call w)} {s : State w}

theorem register {di : Word w} (faithful : Faithful calls s) (real : di ≠ 0)
    (fresh : ¬Registered di calls) :
    Faithful (.register di :: calls) (s.dynRegister di) where
  linked := by
    have pushed := faithful.linked.push faithful.nodup real
      (fun member => fresh ((faithful.members di).mp member)) 0
    simp only [State.dynRegister, Function.update_self]
    exact pushed
  nodup := List.nodup_cons.mpr
    ⟨fun member => fresh ((faithful.members di).mp member), faithful.nodup⟩
  members := by
    intro x
    rw [registered, List.mem_cons, Registered, faithful.members x]
  recent := by
    apply List.pairwise_cons.mpr
    constructor
    · intro y _
      exact ⟨[], calls, rfl, List.not_mem_nil⟩
    · apply faithful.recent.imp_of_mem
      intro x y _ memberY recent
      obtain ⟨later, earlier, rfl, none⟩ := recent
      refine ⟨.register di :: later, earlier, rfl, ?_⟩
      intro again
      cases List.mem_cons.mp again with
      | inl same =>
          cases same
          exact fresh ((faithful.members _).mp memberY)
      | inr inLater => exact none inLater
  generation := by
    simp only [State.dynRegister, faithful.generation, List.length_cons, BitVec.ofNat_add]
    rfl

theorem cancel {di : Word w} (faithful : Faithful calls s) (held : Registered di calls) :
    Faithful (.cancel di :: calls) (s.dynCancel di) where
  linked := by
    obtain ⟨before, after, -, split, erased⟩ :=
      List.exists_erase_eq ((faithful.members di).mpr held)
    have linked := faithful.linked
    have nodup := faithful.nodup
    rw [split] at linked nodup
    rw [registered, erased]
    have outside : ∀ x ∈ before ++ after, x ≠ di := by
      intro x member same
      subst same
      exact (List.nodup_middle.mp nodup |> List.nodup_cons.mp).1 member
    have own : (if s.prev di = 0 then s.next
        else Function.update s.next (s.prev di) (s.next di)) di = s.next di := by
      split
      · rfl
      · by_cases same : di = s.prev di
        · rw [← same, Function.update_self]
        · exact Function.update_of_ne same _ _
    simp only [State.dynCancel, own]
    apply (linked.remove nodup).congr
    · exact fun x member => Function.update_of_ne (outside x member) _ _
    · exact fun x member => Function.update_of_ne (outside x member) _ _
  nodup := faithful.nodup.erase di
  members := by
    intro x
    rw [registered, faithful.nodup.mem_erase_iff, Registered, faithful.members x]
  recent := by
    apply (faithful.recent.sublist List.erase_sublist).imp
    intro x y recent
    obtain ⟨later, earlier, rfl, none⟩ := recent
    exact ⟨.cancel di :: later, earlier, rfl, by simpa using none⟩
  generation := by
    simp only [State.dynCancel, faithful.generation, List.length_cons, BitVec.ofNat_add]
    rfl

end Faithful

/-- Whatever a proper client does, the list agrees with it. -/
theorem faithful_after (next prev : Word w → Word w) (calls : List (Call w))
    (proper : Proper calls) : Faithful calls ((start next prev).after calls) := by
  induction calls with
  | nil => exact ⟨rfl, .nil, fun _ => by simp [registered, Registered], .nil, rfl⟩
  | cons call calls ih =>
      cases call with
      | register di =>
          obtain ⟨real, fresh, proper⟩ := proper
          exact (ih proper).register real fresh
      | cancel di =>
          obtain ⟨held, proper⟩ := proper
          exact (ih proper).cancel held

/-! ## Looking up -/

/-- Along linked entries, the loop comes to the first one that covers the address. -/
theorem findEntry_linked {next : Word w → Word w} {info : Word w → DynInfo w} {ip head : Word w}
    {entries : List (Word w)} {fuel : Nat} (linked : Linked next 0 head entries)
    (deep : entries.length < fuel) :
    findEntry next info ip fuel head = .ok (entries.find? fun di => (info di).Covers ip) := by
  induction entries generalizing head fuel with
  | nil =>
      obtain ⟨fuel, rfl⟩ : ∃ n, fuel = n + 1 := ⟨fuel - 1, by omega⟩
      have last : head = 0 := linked
      rw [findEntry, if_pos last]
      rfl
  | cons di entries ih =>
      obtain ⟨fuel, rfl⟩ : ∃ n, fuel = n + 1 := ⟨fuel - 1, by omega⟩
      obtain ⟨rfl, real, rest⟩ := linked
      rw [findEntry, if_neg real, List.find?_cons]
      by_cases covers : (info head).Covers ip
      · simp [covers]
      · simp only [covers, if_false, decide_false]
        exact ih rest (by simpa using deep)

/-- The lookup on the links is the lookup on the list of the registered entries. -/
theorem Faithful.findProcInfo {calls : List (Call w)} {s : State w} (faithful : Faithful calls s)
    (search : TableSearch w) (info : Word w → DynInfo w) (ip : Word w) (pi : ProcInfo w)
    (needUnwindInfo : Bool) {fuel : Nat} (deep : (registered calls).length < fuel) :
    s.findProcInfo search info ip pi needUnwindInfo fuel =
      localFindProcInfo search ip pi needUnwindInfo ((registered calls).map info) := by
  rw [State.findProcInfo, findEntry_linked faithful.linked.linked deep, localFindProcInfo,
    List.find?_map]
  cases found : (registered calls).find? fun di => (info di).Covers ip with
  | none => simp [found]
  | some di => simp [found]

/-- The list is what a proper client's calls make it: linked both ways, its entries the registered
    ones, the most recent one first, and looked up in this order. The generation counts the calls
    up to the width of its field. -/
theorem registry_faithful {next prev : Word w → Word w} {calls : List (Call w)} {s : State w}
    (proper : Proper calls) (reached : (start next prev).after calls = s) :
    Faithful calls s ∧
      (∀ di ∈ registered calls, (s.next di ≠ 0 → s.prev (s.next di) = di) ∧
        (s.prev di ≠ 0 → s.next (s.prev di) = di)) ∧
      (s.first ≠ 0 → s.prev s.first = 0) ∧
      ∀ (search : TableSearch w) (info : Word w → DynInfo w) (ip : Word w) (pi : ProcInfo w)
        (needUnwindInfo : Bool) (fuel : Nat), (registered calls).length < fuel →
        s.findProcInfo search info ip pi needUnwindInfo fuel =
          localFindProcInfo search ip pi needUnwindInfo ((registered calls).map info) := by
  subst reached
  have faithful := faithful_after next prev calls proper
  refine ⟨faithful, ?_, ?_, ?_⟩
  · exact fun di member =>
      ⟨faithful.linked.prev_next member, faithful.linked.next_prev member⟩
  · exact fun real => faithful.linked.prev_head real
  · exact fun search info ip pi needUnwindInfo fuel deep =>
      faithful.findProcInfo search info ip pi needUnwindInfo deep

/-- The middle one of three entries is cancelled, and registered again. -/
theorem registry_faithful_again :
    Faithful [.register 2, .cancel 2, .register 3, .register 2, .register 1]
      ((start (fun _ => 0) fun _ => 0).after (w := 64)
        [.register 2, .cancel 2, .register 3, .register 2, .register 1]) :=
  (registry_faithful (by simp [Proper, Registered]) rfl).1

/-! ## Beyond a proper client -/

namespace Beyond

/-- An entry that is registered and cancelled so many times. -/
def alternate : Nat → List (Call 64)
  | 0 => []
  | n + 1 => .cancel 1 :: .register 1 :: alternate n

theorem proper_alternate (n : Nat) : Proper (alternate n) ∧ ¬Registered 1 (alternate n) := by
  induction n with
  | zero => simp [alternate, Proper, Registered]
  | succ n ih =>
      obtain ⟨proper, gone⟩ := ih
      refine ⟨⟨.inl rfl, by decide, gone, proper⟩, ?_⟩
      intro again
      exact again.1 rfl

theorem length_alternate (n : Nat) : (alternate n).length = 2 * n := by
  induction n with
  | zero => rfl
  | succ n ih =>
      simp only [alternate, List.length_cons, ih]
      omega

def fresh : State 64 := start (fun _ => 0) fun _ => 0

/-- After 2 ^ 32 calls the generation is 0, and an entry that is registered twice is its own
    next. -/
theorem generation_wraps :
    (Proper (alternate (2 ^ 31)) ∧ (alternate (2 ^ 31)).length = 2 ^ 32 ∧
      (fresh.after (alternate (2 ^ 31))).generation = 0) ∧
    ¬ ∃ entries, Linked (fresh.after [.register 1, .register 1]).next 0
      (fresh.after [.register 1, .register 1]).first entries := by
  have proper := (proper_alternate (2 ^ 31)).1
  have length := length_alternate (2 ^ 31)
  refine ⟨⟨proper, length, ?_⟩, ?_⟩
  · have counted := (faithful_after (fun _ => 0) (fun _ => 0) _ proper).generation
    rw [length] at counted
    exact counted
  · intro linked
    obtain ⟨entries, linked⟩ := linked
    have first : (fresh.after [.register 1, .register 1]).first = 1 := rfl
    have own : (fresh.after [.register 1, .register 1]).next 1 = 1 := by decide
    rw [first] at linked
    induction entries with
    | nil =>
        have last : (1 : Word 64) = 0 := linked
        exact absurd last (by decide)
    | cons di entries ih =>
        obtain ⟨rfl, -, rest⟩ := linked
        rw [own] at rest
        exact ih rest

end Beyond

end Libunwind.Dyn.Registry
