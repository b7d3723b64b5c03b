import Libunwind.Dyn.ListUpdates
import Libunwind.Dyn.Remote

/-! # Reading the list while it changes

The reader fetches its words between the stores of the target, and compares the generations before
and after. A round in which no store comes to a word that it reads sees the list as it is at its
first fetch.
-/

namespace Libunwind.Dyn.Interleaving

open Inquiry Relation

/-! ## Entries -/

/-- The entries from one on, each linked to the next. -/
inductive Linked (mem : Space) : Word 64 → Word 64 → Prop where
  | here {a : Word 64} : a ≠ 0 → Linked mem a a
  | next {a b c : Word 64} : a ≠ 0 → mem a = .ok b → Linked mem b c → Linked mem a c

/-- An entry is on the list. -/
def OnList (list : InfoList) (mem : Space) (a : Word 64) : Prop :=
  ∃ first, mem list.firstAddr = .ok first ∧ Linked mem first a

section Entry

variable (mem : Space) (ip : Word 64)

/-- The range of an entry, and where the rest of the entry is. -/
def RangeAt (a startIp endIp rest : Word 64) : Prop :=
  ∃ nextAddr, (fetchRange a).eval mem = .ok (nextAddr, startIp, endIp, rest)

/-- An entry covers `ip`. -/
def CoveredBy (a : Word 64) : Prop :=
  ∃ startIp endIp rest, RangeAt mem a startIp endIp rest ∧ startIp ≤ ip ∧ ip < endIp

/-- The entries from one on, as far as the first that covers `ip`. -/
inductive Reached : Word 64 → Word 64 → Prop where
  | here {a : Word 64} : a ≠ 0 → Reached a a
  | next {a b c : Word 64} : a ≠ 0 → ¬CoveredBy mem ip a → mem a = .ok b → Reached b c →
      Reached a c

variable (r : Reader 64) (budget : Nat) (needUnwindInfo : Bool)

/-- The copy of an entry, all of which is read from one memory. The array of a table that cannot be
    fetched is as it was in the copy before. -/
inductive CopyOf (before : Option (List (Word 64))) (a : Word 64) : DynInfo 64 → Prop where
  | mk {startIp endIp rest gp next : Word 64} {format : BitVec 32}
      {u : { u : DynUnion 64 // u.Fits format }} : RangeAt mem a startIp endIp rest →
      (fetchFormat r rest).eval mem = .ok (gp, format, next) →
      (if needUnwindInfo then internDynInfo r budget (next + 4) format before
        else pure (clearUnion 64 format)).eval mem = .ok u →
      CopyOf before a { startIp, endIp, gp, format, u := u.1, fits := u.2 }

/-- The info is extracted from an entry of the list that covers `ip`. -/
def Delivers (list : InfoList) (pi : ProcInfo 64) : Prop :=
  ∃ a di before, OnList list mem a ∧ di.Covers ip ∧
    CopyOf mem r budget needUnwindInfo none a di ∧
    extractDynamicProcInfo r.search ip before di needUnwindInfo = { ret := .ok (), pi }

end Entry

/-- Whatever copy `*pi` refers to, it did before. -/
def RefersOnlyAs (before after : ProcInfo 64) : Prop :=
  ∀ di, after.unwindInfo = .dyn di → before.unwindInfo = .dyn di

/-! ## Rounds -/

/-- How a round of the reader ends. -/
inductive RoundEnd where
  /-- The head of the list cannot be fetched. -/
  | gaveUp (s : Reading 64)
  /-- The generation cannot be fetched again. -/
  | unchecked (s : Reading 64)
  | again (s : Reading 64)
  | settled (s : Reading 64)

section Rounds

variable (r : Reader 64) (budget : Nat) (ip : Word 64) (needUnwindInfo : Bool)
  (listAddr : Word 64)

/-- The body of the loop. -/
def round (s : Reading 64) : Fetch 64 RoundEnd := do
  let s := { s with ret := .error .noinfo }
  match ← attempt (fetchHead listAddr) with
  | .error _ => pure (.gaveUp s)
  | .ok (gen1, nextAddr) =>
      let s ← s.walk r budget ip needUnwindInfo budget nextAddr
      match ← attempt (fetchw listAddr) with
      | .error _ => pure (.unchecked s)
      | .ok (gen2, _) => pure (if gen1 ≠ gen2 then .again s else .settled s)

/-- What comes after a round. -/
def afterRound (rounds : Nat) : RoundEnd → Fetch 64 (Returned 64)
  | .gaveUp s => pure ⟨s, false⟩
  | .unchecked s => pure ⟨s, false⟩
  | .again s => s.rounds r budget ip needUnwindInfo listAddr rounds
  | .settled s => pure ⟨s, s.ret.toBool = false ∧ s.di.isSome⟩

theorem rounds_succ (n : Nat) (s : Reading 64) :
    Reading.rounds r budget ip needUnwindInfo listAddr (n + 1) s =
      round r budget ip needUnwindInfo listAddr s >>=
        afterRound r budget ip needUnwindInfo listAddr n := by
  rw [Reading.rounds, round, Inquiry.bind_assoc]
  congr 1
  funext head
  cases head with
  | error code => rfl
  | ok head =>
      obtain ⟨gen1, nextAddr⟩ := head
      dsimp only
      rw [Inquiry.bind_assoc]
      congr 1
      funext s
      rw [Inquiry.bind_assoc]
      congr 1
      funext checked
      cases checked with
      | error code => rfl
      | ok checked =>
          by_cases changed : gen1 ≠ checked.1
          · simp only [if_pos changed]
            rfl
          · simp only [if_neg changed]
            rfl

/-- A round starts at this fetch, with these variables. -/
inductive RoundAt (answer : Nat → Space) (start : Reading 64) : Nat → Reading 64 → Prop where
  | first : RoundAt answer start 0 start
  | next {k k' : Nat} {s s' : Reading 64} : RoundAt answer start k s →
      (round r budget ip needUnwindInfo listAddr s).run answer k = (.ok (.again s'), k') →
      RoundAt answer start k' s'

variable {r budget ip needUnwindInfo listAddr} {answer : Nat → Space} {start s : Reading 64}
  {k last : Nat} {out : Returned 64}

/-- The call returns at the end of one of its rounds. -/
theorem last_round {n : Nat} (starts : RoundAt r budget ip needUnwindInfo listAddr answer start k s)
    (returned : (Reading.rounds r budget ip needUnwindInfo listAddr n s).run answer k =
      (.ok out, last)) :
    ∃ k' s' ending, RoundAt r budget ip needUnwindInfo listAddr answer start k' s' ∧
      (round r budget ip needUnwindInfo listAddr s').run answer k' = (.ok ending, last) ∧
      (ending = .gaveUp out.reading ∨ ending = .unchecked out.reading ∨
        ending = .settled out.reading) := by
  induction n generalizing k s with
  | zero => cases returned
  | succ n ih =>
      rw [rounds_succ] at returned
      cases ran : (round r budget ip needUnwindInfo listAddr s).run answer k with
      | mk outcome k' =>
          cases outcome with
          | error e =>
              rw [run_bind_error ran] at returned
              cases returned
          | ok ending =>
              rw [run_bind_ok ran] at returned
              cases ending with
              | gaveUp s' =>
                  cases returned
                  exact ⟨k, s, _, starts, ran, .inl rfl⟩
              | unchecked s' =>
                  cases returned
                  exact ⟨k, s, _, starts, ran, .inr (.inl rfl)⟩
              | again s' => exact ih (.next starts ran) returned
              | settled s' =>
                  cases returned
                  exact ⟨k, s, _, starts, ran, .inr (.inr rfl)⟩

end Rounds

/-! ## The fetches of a round -/

section Fetches

variable {α : Type} {answer : Nat → Space} {mem : Space} {k k' : Nat} {addr v : Word 64}

theorem run_attempt {p : Fetch 64 α} {a : α} (value : p.run answer k = (.ok a, k')) :
    (attempt p).run answer k = (.ok (.ok a), k') := by
  rw [attempt, run_handle, value]
  rfl

theorem eval_attempt {p : Fetch 64 α} {a : α} (value : p.eval mem = .ok a) :
    (attempt p).eval mem = .ok (.ok a) := by
  rw [attempt, eval_handle, value]
  rfl

theorem run_fetchw (reads : answer k addr = .ok v) :
    (fetchw addr).run answer k = (.ok (v, addr + wsize 64), k + 1) := by
  have here : (accessMem addr).run answer k = (.ok v, k + 1) := by
    simp [accessMem, Inquiry.run, reads]
  exact run_bind_ok here

theorem eval_fetchw (reads : mem addr = .ok v) :
    (fetchw addr).eval mem = .ok (v, addr + wsize 64) := by
  have here : (accessMem addr).eval mem = .ok v := by
    simp [accessMem, reads]
  exact eval_bind_ok here

theorem fetchw_reads {read : Word 64 × Word 64} (value : (fetchw addr).eval mem = .ok read) :
    mem addr = .ok read.1 := by
  rw [fetchw, eval_bind] at value
  obtain ⟨val, reads, same⟩ := bind_eq_ok.mp value
  cases same
  cases answered : mem addr with
  | error code => simp [accessMem, answered] at reads
  | ok v =>
      rw [accessMem, eval_ask, answered] at reads
      cases reads
      rfl

variable {list : InfoList} {gen first : Word 64}

theorem run_fetchHead (generation : answer k list.addr = .ok gen)
    (reads : answer (k + 1) list.firstAddr = .ok first) :
    (fetchHead list.addr).run answer k = (.ok (gen, first), k + 2) := by
  have second : (fetchw (list.addr + wsize 64)).run answer (k + 1) = (.ok (first, _), k + 2) :=
    run_fetchw reads
  rw [fetchHead, run_bind_ok (run_fetchw generation), run_bind_ok second]
  rfl

theorem eval_fetchHead (generation : mem list.addr = .ok gen)
    (reads : mem list.firstAddr = .ok first) :
    (fetchHead list.addr).eval mem = .ok (gen, first) := by
  have second : (fetchw (list.addr + wsize 64)).eval mem = .ok (first, _) := eval_fetchw reads
  rw [fetchHead, eval_bind_ok (eval_fetchw generation), eval_bind_ok second]
  rfl

end Fetches

/-! ## The last round -/

section LastRound

variable {r : Reader 64} {budget : Nat} {ip : Word 64} {needUnwindInfo : Bool} {list : InfoList}
  {target : Nat → Target} {s s' : Reading 64} {ending : RoundEnd} {k last : Nat}
  {mem : Space} {gen first : Word 64}

/-- Both generations can be fetched, and they are the same. -/
theorem round_settled (interleaved : Interleaved list target)
    (ran : (round r budget ip needUnwindInfo list.addr s).run (fun k => (target k).mem) k =
      (.ok ending, last)) (final : ∀ s', ending ≠ .again s') :
    ∃ s' k', ending = .settled s' ∧ last = k' + 1 ∧ k ≤ k' ∧
      (target k).mem list.addr = (target k').mem list.addr := by
  have generation := (interleaved.counts k).generation
  obtain ⟨first, reads⟩ := (interleaved.counts (k + 1)).first
  rw [round, run_bind_ok (run_attempt (run_fetchHead generation reads))] at ran
  dsimp only at ran
  cases walked : (Reading.walk r budget ip needUnwindInfo { s with ret := .error .noinfo } budget
      first).run (fun k => (target k).mem) (k + 2) with
  | mk outcome k' =>
      have later : k + 2 ≤ (outcome, k').2 := by
        rw [← walked]
        exact le_run _ _
      cases outcome with
      | error e =>
          rw [run_bind_error walked] at ran
          cases ran
      | ok s' =>
          have checked := (interleaved.counts k').generation
          rw [run_bind_ok walked, run_bind_ok (run_attempt (run_fetchw checked))] at ran
          dsimp only at ran
          cases ran
          by_cases changed : list.word (BitVec.ofNat 32 (target k).operations) ≠
              list.word (BitVec.ofNat 32 (target k').operations)
          · rw [if_pos changed] at final
            exact absurd rfl (final s')
          · refine ⟨s', k', by rw [if_neg changed], rfl, Nat.le_of_add_right_le later, ?_⟩
            rw [generation, checked, not_not.mp changed]

/-- What a round that is settled has read. -/
theorem eval_round (generation : mem list.addr = .ok gen) (reads : mem list.firstAddr = .ok first)
    (value : (round r budget ip needUnwindInfo list.addr s).eval mem = .ok (.settled s')) :
    (Reading.walk r budget ip needUnwindInfo { s with ret := .error .noinfo } budget first).eval mem =
      .ok s' := by
  rw [round, eval_bind_ok (eval_attempt (eval_fetchHead generation reads))] at value
  dsimp only at value
  cases walked : (Reading.walk r budget ip needUnwindInfo { s with ret := .error .noinfo } budget
      first).eval mem with
  | error e =>
      rw [eval_bind_error walked] at value
      cases value
  | ok s'' =>
      rw [eval_bind_ok walked, eval_bind_ok (eval_attempt (eval_fetchw generation))] at value
      simp only [ne_eq, not_true_eq_false, if_false] at value
      cases value
      rfl

/-- Where no store that is outstanding at the first fetch comes to a word that the round reads,
    what it reads is what memory is at that fetch. -/
theorem settled_walk (interleaved : Interleaved list target)
    (ran : (round r budget ip needUnwindInfo list.addr s).run (fun k => (target k).mem) k =
      (.ok ending, last)) (final : ∀ s', ending ≠ .again s')
    (apart : ∀ store ∈ (target k).outstanding,
      store.1 ∉ asked (target k).mem (round r budget ip needUnwindInfo list.addr s))
    (few : ∀ j, j < last → (target j).operations < (target k).operations + 2 ^ 32)
    (reads : (target k).mem list.firstAddr = .ok first) :
    ∃ s', ending = .settled s' ∧ k < last ∧
      (Reading.walk r budget ip needUnwindInfo { s with ret := .error .noinfo } budget first).eval
        (target k).mem = .ok s' := by
  obtain ⟨s', k', rfl, rfl, le, same⟩ := round_settled interleaved ran final
  refine ⟨s', rfl, Nat.lt_succ_of_le le, eval_round (interleaved.counts k).generation reads ?_⟩
  have agree : ∀ j, k ≤ j → j < k' + 1 →
      ∀ question ∈ asked (target k).mem (round r budget ip needUnwindInfo list.addr s),
        (target j).mem question = (target k).mem question := by
    intro j later earlier question member
    have trails := interleaved.trails (few k' (Nat.lt_succ_self k')) same later
      (Nat.le_of_lt_succ earlier)
    apply trails.mem question
    intro store outstanding hit
    exact apart store outstanding (hit ▸ member)
  have value := run_eq_eval_of_asked (round r budget ip needUnwindInfo list.addr s) k (by
    rw [ran]
    exact agree)
  rw [ran] at value
  exact value.symm

end LastRound

/-! ## The walk over entries that stay the same -/

section Walk

variable (r : Reader 64) (budget : Nat) (ip : Word 64) (needUnwindInfo : Bool) (mem : Space)

/-- The entries that the reader comes to can be read. One that covers `ip` can be copied, to the
    same copy whatever an earlier round has left, and the info can be extracted from it. -/
structure EntriesSound (s : Reading 64) (start : Word 64) : Prop where
  ranges : ∀ a, Reached mem ip start a → ∃ startIp endIp rest, RangeAt mem a startIp endIp rest
  copied : ∀ a, Reached mem ip start a → CoveredBy mem ip a → ∃ di,
    CopyOf mem r budget needUnwindInfo s.tableData a di ∧
      CopyOf mem r budget needUnwindInfo none a di ∧
      (extractDynamicProcInfo r.search ip s.pi di needUnwindInfo).ret = .ok ()

/-- The info is extracted from a copy. -/
def Extracts (s s' : Reading 64) (di : DynInfo 64) : Prop :=
  s'.ret = .ok () ∧
    extractDynamicProcInfo r.search ip s.pi di needUnwindInfo = { ret := .ok (), pi := s'.pi }

variable {r budget ip needUnwindInfo mem} {s s' : Reading 64} {di : DynInfo 64}
  {before : Option (List (Word 64))} {a b c startIp endIp rest : Word 64}

theorem range_next {nextAddr : Word 64}
    (fetched : (fetchRange a).eval mem = .ok (nextAddr, startIp, endIp, rest)) :
    mem a = .ok nextAddr := by
  rw [fetchRange, eval_bind] at fetched
  obtain ⟨⟨link, addr⟩, first, later⟩ := bind_eq_ok.mp fetched
  simp only [eval_bind] at later
  obtain ⟨⟨startIp', addr'⟩, -, later⟩ := bind_eq_ok.mp later
  obtain ⟨⟨endIp', addr''⟩, -, later⟩ := bind_eq_ok.mp later
  cases later
  exact fetchw_reads first

theorem RangeAt.unique (range : RangeAt mem a startIp endIp rest) {startIp' endIp' rest' : Word 64}
    (other : RangeAt mem a startIp' endIp' rest') :
    startIp = startIp' ∧ endIp = endIp' ∧ rest = rest' := by
  obtain ⟨nextAddr, fetched⟩ := range
  obtain ⟨nextAddr', fetched'⟩ := other
  cases fetched.symm.trans fetched'
  exact ⟨rfl, rfl, rfl⟩

theorem RangeAt.coveredBy_iff (range : RangeAt mem a startIp endIp rest) :
    CoveredBy mem ip a ↔ startIp ≤ ip ∧ ip < endIp := by
  constructor
  · intro covered
    obtain ⟨startIp', endIp', rest', other, covers⟩ := covered
    obtain ⟨rfl, rfl, -⟩ := range.unique other
    exact covers
  · exact fun covers => ⟨startIp, endIp, rest, range, covers⟩

theorem CopyOf.covers (copy : CopyOf mem r budget needUnwindInfo before a di)
    (covered : CoveredBy mem ip a) : di.Covers ip := by
  cases copy with
  | mk range format interned => exact range.coveredBy_iff.mp covered

/-- The copy gets its range; everything else is as it was. -/
theorem eval_allocate (value : (s.allocate r startIp endIp).eval mem = .ok s') :
    s'.pi = s.pi ∧ s'.tableData = s.tableData := by
  rw [Reading.allocate] at value
  cases held : s.di with
  | some di =>
      rw [held] at value
      cases value
      refine ⟨rfl, ?_⟩
      rw [Reading.tableData, Reading.tableData, held]
      obtain ⟨startIp', endIp', gp, format, u, fits⟩ := di
      cases u with
      | pi info => rfl
      | ti info => rfl
      | rti info => rfl
  | none =>
      rw [held] at value
      dsimp only at value
      split at value
      · cases value
        refine ⟨rfl, ?_⟩
        rw [Reading.tableData, Reading.tableData, held]
        rfl
      · cases value

theorem eval_cover (range : RangeAt mem a startIp endIp rest)
    (copy : CopyOf mem r budget needUnwindInfo s.tableData a di)
    (extracts : (extractDynamicProcInfo r.search ip s.pi di needUnwindInfo).ret = .ok ())
    (value : (s.cover r budget ip needUnwindInfo startIp endIp rest).eval mem = .ok s') :
    Extracts r ip needUnwindInfo s s' di := by
  cases copy with
  | @mk startIp' endIp' rest' gp next format u range' format' interned =>
      obtain ⟨rfl, rfl, rfl⟩ := range.unique range'
      rw [Reading.cover_eq, eval_bind] at value
      obtain ⟨s₁, allocated, value⟩ := bind_eq_ok.mp value
      obtain ⟨pi, tableData⟩ := eval_allocate allocated
      rw [← tableData] at interned
      rw [eval_bind_ok (eval_attempt format')] at value
      dsimp only at value
      rw [eval_bind_ok (eval_attempt interned)] at value
      dsimp only at value
      rw [Extracts, ← pi]
      rw [← pi] at extracts
      rw [Reading.extract] at value
      generalize extractDynamicProcInfo r.search ip s₁.pi _ needUnwindInfo = o at extracts value ⊢
      obtain ⟨ret, pi'⟩ := o
      cases extracts
      cases value
      exact ⟨rfl, rfl⟩

/-- Either no entry on the way covers `ip`, and the variables are as before; or the info is from the
    first one that does. -/
theorem eval_walk {entries : Nat} (sound : EntriesSound r budget ip needUnwindInfo mem s a)
    (value : (s.walk r budget ip needUnwindInfo entries a).eval mem = .ok s') :
    (s' = s ∧ ∀ c, Reached mem ip a c → ¬CoveredBy mem ip c) ∨
      ∃ c di, Reached mem ip a c ∧ di.Covers ip ∧
        CopyOf mem r budget needUnwindInfo none c di ∧ Extracts r ip needUnwindInfo s s' di := by
  induction entries generalizing a with
  | zero => cases value
  | succ entries ih =>
      rw [Reading.walk] at value
      by_cases null : a = 0
      · rw [if_pos null] at value
        cases value
        refine .inl ⟨rfl, ?_⟩
        intro c reached
        cases reached with
        | here there => exact absurd null there
        | next there _ _ _ => exact absurd null there
      · rw [if_neg null] at value
        obtain ⟨startIp, endIp, rest, nextAddr, fetched⟩ := sound.ranges a (.here null)
        rw [eval_bind_ok (eval_attempt fetched)] at value
        dsimp only at value
        have range : RangeAt mem a startIp endIp rest := ⟨nextAddr, fetched⟩
        by_cases covers : startIp ≤ ip ∧ ip < endIp
        · have covered : CoveredBy mem ip a := range.coveredBy_iff.mpr covers
          obtain ⟨di, copied, copy, extracts⟩ := sound.copied a (.here null) covered
          rw [if_pos covers] at value
          exact .inr ⟨a, di, .here null, copy.covers covered, copy,
            eval_cover range copied extracts value⟩
        · have uncovered : ¬CoveredBy mem ip a := mt range.coveredBy_iff.mp covers
          have link := range_next fetched
          have later : EntriesSound r budget ip needUnwindInfo mem s nextAddr :=
            ⟨fun c reached => sound.ranges c (.next null uncovered link reached),
              fun c reached => sound.copied c (.next null uncovered link reached)⟩
          rw [if_neg covers] at value
          obtain ⟨same, none⟩ | ⟨c, di, reached, found⟩ := ih later value
          · refine .inl ⟨same, ?_⟩
            intro c reached
            cases reached with
            | here _ => exact uncovered
            | next _ _ link' reached =>
                cases link.symm.trans link'
                exact none c reached
          · exact .inr ⟨c, di, .next null uncovered link reached, found⟩

theorem Reached.linked (reached : Reached mem ip a c) : Linked mem a c := by
  induction reached with
  | here there => exact .here there
  | next there _ link _ ih => exact .next there link ih

theorem Linked.reached (linked : Linked mem a c)
    (none : ∀ c, Reached mem ip a c → ¬CoveredBy mem ip c) : Reached mem ip a c := by
  induction linked with
  | here there => exact .here there
  | next there link _ ih =>
      have uncovered := none _ (.here there)
      exact .next there uncovered link
        (ih fun c reached => none c (.next there uncovered link reached))

end Walk

/-! ## The call -/

section Call

variable (r : Reader 64) (budget : Nat) (ip : Word 64) (needUnwindInfo : Bool) (list : InfoList)
  (target : Nat → Target) (pi : ProcInfo 64) (last : Nat)

/-- What is promised of a call that ends before fetch `last`: it answers for the list as it is at
    one moment. -/
structure Linearized (out : Returned 64) : Prop where
  found : out.reading.ret = .ok () → ∃ j, j < last ∧
    Delivers (target j).mem ip r budget needUnwindInfo list out.reading.pi
  noinfo : out.reading.ret = .error .noinfo → ∃ j, j < last ∧
    ∀ a, OnList list (target j).mem a → ¬CoveredBy (target j).mem ip a
  pi : out.reading.ret ≠ .ok () → RefersOnlyAs pi out.reading.pi

/-- The condition on the last round, which starts at fetch `k`. -/
structure RoundSound (k : Nat) (s : Reading 64) : Prop where
  apart : ∀ store ∈ (target k).outstanding,
    store.1 ∉ asked (target k).mem (round r budget ip needUnwindInfo list.addr s)
  few : ∀ j, j < last → (target j).operations < (target k).operations + 2 ^ 32
  entries : ∀ first, (target k).mem list.firstAddr = .ok first →
    EntriesSound r budget ip needUnwindInfo (target k).mem s first
  pi : (∀ a, OnList list (target k).mem a → ¬CoveredBy (target k).mem ip a) → RefersOnlyAs pi s.pi

/-- The variables before the first round. -/
def startOf (pi : ProcInfo 64) : Reading 64 := { ret := .error .noinfo, pi, di := none }

variable {r budget ip needUnwindInfo list target pi last} {known : Word 64}
  {listAddr : Except UnwError (Word 64)} {s : Reading 64} {k : Nat} {ending : RoundEnd}
  {out : Returned 64}

theorem round_linearized (interleaved : Interleaved list target)
    (ran : (round r budget ip needUnwindInfo list.addr s).run (fun k => (target k).mem) k =
      (.ok ending, last))
    (sound : RoundSound r budget ip needUnwindInfo list target pi last k s)
    (ends : ending = .gaveUp out.reading ∨ ending = .unchecked out.reading ∨
      ending = .settled out.reading) :
    Linearized r budget ip needUnwindInfo list target pi last out := by
  have final : ∀ s', ending ≠ .again s' := by
    intro s'
    obtain rfl | rfl | rfl := ends
    all_goals exact RoundEnd.noConfusion
  obtain ⟨first, reads⟩ := (interleaved.counts k).first
  obtain ⟨s', rfl, inCall, walked⟩ := settled_walk interleaved ran final sound.apart sound.few reads
  obtain rfl : s' = out.reading := by simpa using ends
  have entries := sound.entries first reads
  have entries : EntriesSound r budget ip needUnwindInfo (target k).mem
      { s with ret := .error .noinfo } first := ⟨entries.ranges, entries.copied⟩
  obtain ⟨same, none⟩ | ⟨a, di, reached, covers, copy, ret, extracted⟩ := eval_walk entries walked
  · have uncovered : ∀ a, OnList list (target k).mem a → ¬CoveredBy (target k).mem ip a := by
      intro a onList
      obtain ⟨first', reads', linked⟩ := onList
      cases reads.symm.trans reads'
      exact none a (linked.reached none)
    refine ⟨?_, fun _ => ⟨k, inCall, uncovered⟩, ?_⟩
    · rw [same]
      exact fun found => by cases found
    · rw [same]
      exact fun _ => sound.pi uncovered
  · refine ⟨fun _ => ⟨k, inCall, a, di, s.pi, ⟨first, reads, reached.linked⟩, covers, copy,
      extracted⟩, ?_, fun failed => absurd ret failed⟩
    rw [ret]
    exact fun failed => by cases failed

/-- A call whose last round reads the list as it is when the round starts answers for the list at
    that moment. -/
theorem remote_linearized (interleaved : Interleaved list target)
    (located : dynListAddr known listAddr = .ok list.addr)
    (returned : (remoteFindProcInfo r budget ip needUnwindInfo known listAddr pi).run
      (fun k => (target k).mem) 0 = (.ok out, last))
    (sound : ∀ k s ending, RoundAt r budget ip needUnwindInfo list.addr (fun k => (target k).mem)
        (startOf pi) k s →
      (round r budget ip needUnwindInfo list.addr s).run (fun k => (target k).mem) k =
        (.ok ending, last) → RoundSound r budget ip needUnwindInfo list target pi last k s) :
    Linearized r budget ip needUnwindInfo list target pi last out := by
  rw [remoteFindProcInfo, located] at returned
  obtain ⟨k, s, ending, starts, ran, ends⟩ := last_round .first returned
  exact round_linearized interleaved ran (sound k s ending starts ran) ends

end Call

/-! ## An entry that is cancelled while the reader is at it -/

namespace MidCancel

def list : InfoList := ⟨0x1000, 1, false⟩

/-- Two entries; the second one covers the addresses from `0x100` to `0x200`. -/
def twoEntries : Target where
  mem addr :=
    if addr = 0x1000 then .ok (list.word 0) else if addr = 0x1008 then .ok 0x2000
    else if addr = 0x2000 then .ok 0x3000
    else if addr = 0x2010 then .ok 0x10 else if addr = 0x2018 then .ok 0x20
    else if addr = 0x3008 then .ok 0x2000
    else if addr = 0x3010 then .ok 0x100 else if addr = 0x3018 then .ok 0x200
    else .ok 0
  operations := 0
  underway := []

/-- `_U_dyn_cancel` of the first entry has the lock, -/
def begun : Target :=
  twoEntries.bumped list
    ⟨[(0x1008, 0x3000), (0x3008, 0)], [(prevAddr 0x2000, 0), (0x2000, 0)]⟩

/-- has taken the entry out, -/
def unlinked : Target :=
  (begun.stored (0x1008, 0x3000) [⟨[(0x3008, 0)], [(prevAddr 0x2000, 0), (0x2000, 0)]⟩]).stored
    (0x3008, 0) [⟨[], [(prevAddr 0x2000, 0), (0x2000, 0)]⟩]

/-- and has returned. -/
def cancelled : Target :=
  (unlinked.stored (prevAddr 0x2000, 0) [⟨[], [(0x2000, 0)]⟩]).stored (0x2000, 0) [⟨[], []⟩]

/-- All links are stored between the second fetch and the third. -/
def midCancel (k : Nat) : Target := if k < 2 then begun else cancelled

def reader : Reader 64 where
  bigEndian := false
  calloc _ := true
  search _ _ pi _ := { ret := .error (.err .noinfo), pi }

theorem twoEntries_idle : Target.Idle list twoEntries where
  underway := rfl
  generation := rfl
  first := ⟨0x2000, rfl⟩

theorem begun_steps : ReflTransGen (Target.Step list) twoEntries begun := by
  have held : links list twoEntries.mem (.cancel 0x2000) =
      .ok ⟨[(0x1008, 0x3000), (0x3008, 0)], [(prevAddr 0x2000, 0), (0x2000, 0)]⟩ := rfl
  refine .single (.begin (by simp [Target.Unlocked, twoEntries]) held ?_)
  simp [Underway.stores, prevAddr, list]

theorem cancelled_steps : ReflTransGen (Target.Step list) begun cancelled := by
  have one (s : Target) {u u' : Underway} {store : Store} (holds : s.underway = [u])
      (next : u.next = some (store, u')) : Target.Step list s (s.stored store [u']) :=
    @Target.Step.store list s [] [] u u' store holds next
  refine ReflTransGen.head (one begun rfl rfl) ?_
  refine ReflTransGen.head (one _ rfl rfl) ?_
  refine ReflTransGen.head (one unlinked rfl rfl) ?_
  exact .single (one _ rfl rfl)

theorem midCancel_interleaved : Interleaved list midCancel where
  begins := ⟨twoEntries, twoEntries_idle, begun_steps⟩
  steps k := by
    by_cases before : k + 1 < 2
    · rw [midCancel, midCancel, if_pos before, if_pos (Nat.lt_of_succ_lt before)]
    · rw [midCancel, midCancel, if_neg before]
      split
      · exact cancelled_steps
      · exact .refl

/-- The second entry is on the list all the time. -/
theorem second_onList (k : Nat) :
    OnList list (midCancel k).mem 0x3000 ∧ CoveredBy (midCancel k).mem 0x150 0x3000 := by
  rw [midCancel]
  split
  · exact ⟨⟨0x2000, rfl, .next (by decide) rfl (.here (by decide))⟩,
      0x100, 0x200, 0x3020, ⟨0, rfl⟩, by decide, by decide⟩
  · exact ⟨⟨0x3000, rfl, .here (by decide)⟩, 0x100, 0x200, 0x3020, ⟨0, rfl⟩, by decide, by decide⟩

/-- The reader follows the link of the entry that is cancelled, and misses the second one. -/
theorem midCancel_missed : ¬∀ (r : Reader 64) (budget : Nat) (ip : Word 64) (needUnwindInfo : Bool)
    (list : InfoList) (target : Nat → Target) (pi : ProcInfo 64) (known : Word 64)
    (listAddr : Except UnwError (Word 64)) (out : Returned 64) (last : Nat),
    Interleaved list target → dynListAddr known listAddr = .ok list.addr →
      (remoteFindProcInfo r budget ip needUnwindInfo known listAddr pi).run
        (fun k => (target k).mem) 0 = (.ok out, last) →
      Linearized r budget ip needUnwindInfo list target pi last out := by
  intro all
  have returned : (remoteFindProcInfo reader 3 0x150 false 0x1000 (.error .noinfo) {}).run
      (fun k => (midCancel k).mem) 0 = (.ok ⟨⟨.error .noinfo, {}, none⟩, false⟩, 6) := rfl
  have linearized := all reader 3 0x150 false list midCancel {} 0x1000 (.error .noinfo) _ 6
    midCancel_interleaved rfl returned
  obtain ⟨j, -, none⟩ := linearized.noinfo rfl
  obtain ⟨onList, covered⟩ := second_onList j
  exact none 0x3000 onList covered

/-! ## When the cancellation is over -/

theorem cancelled_interleaved : Interleaved list fun _ => cancelled where
  begins := ⟨twoEntries, twoEntries_idle, begun_steps.trans cancelled_steps⟩
  steps _ := .refl

/-- What is read of the second entry. -/
def second : DynInfo 64 := .cleared 0x100 0x200 0 0

theorem second_range : RangeAt cancelled.mem 0x3000 0x100 0x200 0x3020 := ⟨0, rfl⟩

theorem second_copy (before : Option (List (Word 64))) :
    CopyOf cancelled.mem reader 3 false before 0x3000 second :=
  .mk second_range rfl rfl

theorem second_covered : CoveredBy cancelled.mem 0x150 0x3000 :=
  second_range.coveredBy_iff.mpr (by decide)

theorem second_sound (s : Reading 64) :
    EntriesSound reader 3 0x150 false cancelled.mem s 0x3000 := by
  have only {a : Word 64} (reached : Reached cancelled.mem 0x150 0x3000 a) : a = 0x3000 := by
    cases reached with
    | here _ => rfl
    | next _ uncovered _ _ => exact absurd second_covered uncovered
  refine ⟨fun a reached => ?_, fun a reached _ => ?_⟩
  · rw [only reached]
    exact ⟨_, _, _, second_range⟩
  · rw [only reached]
    exact ⟨second, second_copy _, second_copy _, rfl⟩

theorem second_found :
    Linearized reader 3 0x150 false list (fun _ => cancelled) {} 8
      ⟨⟨.ok (), { startIp := 0x100, endIp := 0x200 }, some second⟩, false⟩ := by
  have located : dynListAddr (0x1000 : Word 64) (.error .noinfo) = .ok list.addr := rfl
  have returned : (remoteFindProcInfo reader 3 0x150 false 0x1000 (.error .noinfo) {}).run
      (fun _ => cancelled.mem) 0 =
      (.ok ⟨⟨.ok (), { startIp := 0x100, endIp := 0x200 }, some second⟩, false⟩, 8) := rfl
  refine remote_linearized cancelled_interleaved located returned fun k s ending _ _ => ?_
  have quiet : cancelled.outstanding = [] := rfl
  have onList : OnList list cancelled.mem 0x3000 := ⟨0x3000, rfl, .here (by decide)⟩
  refine ⟨by simp [quiet], fun j _ => Nat.lt_add_of_pos_right (by decide), ?_,
    fun none => absurd second_covered (none 0x3000 onList)⟩
  intro first reads
  cases reads
  exact second_sound s

end MidCancel

end Libunwind.Dyn.Interleaving
