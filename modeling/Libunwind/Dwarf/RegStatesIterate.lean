import Libunwind.Dwarf.StateRecord

/-! # Iterating over the register states of a procedure

`dwarf_reg_states_table_iterate` runs the instructions of an FDE in slices, one
for each row, and hands every row to a callback. Stepping runs them in one go.
For instructions that only move forward the two agree at every location.
-/

namespace Libunwind.Dwarf

open WhileLoop

variable {n w : Nat}

/-- One call of the callback: a row and the locations `[prevIp, currIp)` it is for. -/
structure Report (n w : Nat) where
  rs : RegState n w
  prevIp : Word w
  currIp : Word w
  deriving DecidableEq

/-- The loop's condition in `dwarf_reg_states_table_iterate`. -/
def sliceGuard {τ : Type} (env : CfiEnv n w) (s : CfiState n w × τ) : Bool :=
  s.1.ip < env.pi.endIp && s.1.addr < env.dci.fdeInstrEnd

/-- The loop's body: the instructions of one row, and its report. -/
def slice {τ : Type} (env : CfiEnv n w) (budget : Nat) (cb : τ → Report n w → Result τ)
    (s : CfiState n w × τ) : Result (CfiState n w × τ) := do
  let next ← runCfiProgram env budget s.1.ip env.dci.fdeInstrEnd s.1
  if s.1.ip < next.ip then
    let token ← cb s.2 ⟨next.sr.rsCurrent, s.1.ip, next.ip⟩
    pure (next, token)
  else pure (next, s.2)

/-- The report of what is left before the end of the procedure. -/
def lastReport {τ : Type} (env : CfiEnv n w) (cb : τ → Report n w → Result τ)
    (s : CfiState n w × τ) : Result τ :=
  if s.1.ip < env.pi.endIp then cb s.2 ⟨s.1.sr.rsCurrent, s.1.ip, env.pi.endIp⟩ else pure s.2

/-- `dwarf_reg_states_table_iterate`, for targets without `NEED_LAST_IP`. -/
def regStatesTableIterate {τ : Type} (env : CfiEnv n w) (budget : Nat)
    (cb : τ → Report n w → Result τ) (token : τ) : Result τ := do
  let (sr, allocs) ← setupFde env budget
  let last ← run .timeout (sliceGuard env) (slice env budget cb) budget
    (fdeStart env sr allocs, token)
  lastReport env cb last

/-- The callback that keeps what it is told. -/
def record (seen : List (Report n w)) (report : Report n w) : Result (List (Report n w)) :=
  .ok (seen ++ [report])

/-- The instructions from `s` on run without error and are `length` many; each
    leaves the location where it is or moves it forward, and never past `limit`. -/
def ForwardRun (env : CfiEnv n w) (endAddr limit : Word w) : Nat → CfiState n w → Prop
  | 0, s => ¬ s.addr < endAddr
  | length + 1, s => s.addr < endAddr ∧
      ∃ next, cfiStep env s = .ok next ∧ s.ip ≤ next.ip ∧ next.ip ≤ limit ∧
        ForwardRun env endAddr limit length next

instance ForwardRun.decidable (env : CfiEnv n w) (endAddr limit : Word w) :
    (length : Nat) → (s : CfiState n w) → Decidable (ForwardRun env endAddr limit length s)
  | 0, s => inferInstanceAs (Decidable (¬ s.addr < endAddr))
  | length + 1, s =>
      match round : cfiStep env s with
      | .error _ => .isFalse fun ⟨_, _, ok, _⟩ => nomatch round.symm.trans ok
      | .ok next =>
          have := ForwardRun.decidable env endAddr limit length next
          decidable_of_iff
            (s.addr < endAddr ∧ s.ip ≤ next.ip ∧ next.ip ≤ limit ∧
              ForwardRun env endAddr limit length next)
            ⟨fun ⟨more, rest⟩ => ⟨more, next, round, rest⟩,
              fun ⟨more, _, ok, rest⟩ => ⟨more, by rwa [Except.ok.inj (round.symm.trans ok)]⟩⟩

/-! ## One slice -/

section Slice

variable {env : CfiEnv n w} {endAddr limit : Word w}

/-- A run over forward instructions ends within their number of rounds, at a
    later row or at the end of the instructions. -/
theorem run_of_forward {length s} (forward : ForwardRun env endAddr limit length s)
    (endIp : Word w) :
    ∃ left next,
      (∀ budget, length ≤ budget → runCfiProgram env budget endIp endAddr s = .ok next) ∧
      ForwardRun env endAddr limit left next ∧ left ≤ length ∧
      (cfiGuard endIp endAddr s = true → left < length) ∧
      s.ip ≤ next.ip ∧ (s.ip ≤ limit → next.ip ≤ limit) := by
  induction length generalizing s with
  | zero =>
      have exit : cfiGuard endIp endAddr s = false := by
        have ended : ¬ s.addr < endAddr := forward
        simp [cfiGuard, ended]
      refine ⟨0, s, fun budget _ => run_exit exit budget, forward, Nat.le_refl _, ?_, BitVec.le_refl _,
        id⟩
      intro enter
      rw [exit] at enter
      exact nomatch enter
  | succ length ih =>
      cases enter : cfiGuard endIp endAddr s with
      | false =>
          exact ⟨length + 1, s, fun budget _ => run_exit enter budget, forward, Nat.le_refl _,
            nofun, BitVec.le_refl _, id⟩
      | true =>
          obtain ⟨-, next, round, later, inside, rest⟩ := forward
          obtain ⟨left, last, ended, remaining, fewer, -, after, bounded⟩ := ih rest
          refine ⟨left, last, ?_, remaining, by omega, fun _ => by omega,
            BitVec.le_trans later after, fun _ => bounded inside⟩
          intro budget enough
          obtain ⟨budget, rfl⟩ : ∃ m, budget = m + 1 := ⟨budget - 1, by omega⟩
          rw [runCfiProgram, run_next enter round]
          exact ended budget (by omega)

/-- The row at a location, as one run up to it finds it. -/
def RowAt (env : CfiEnv n w) (endAddr : Word w) (s : CfiState n w) (ip : Word w)
    (rs : RegState n w) : Prop :=
  ∃ rounds, ∀ budget, rounds ≤ budget →
    ∃ last, runCfiProgram env budget ip endAddr s = .ok last ∧ last.sr.rsCurrent = rs

theorem rowAt_here {s : CfiState n w} {ip} (exit : cfiGuard ip endAddr s = false) :
    RowAt env endAddr s ip s.sr.rsCurrent :=
  ⟨0, fun budget _ => ⟨s, run_exit exit budget, rfl⟩⟩

/-- A run up to a location goes through the end of every run to an earlier one. -/
theorem rowAt_later {s next : CfiState n w} {budget early ip rs} (le : early ≤ ip)
    (ended : runCfiProgram env budget early endAddr s = .ok next)
    (row : RowAt env endAddr next ip rs) : RowAt env endAddr s ip rs := by
  have implies : ∀ u : CfiState n w, cfiGuard early endAddr u = true →
      cfiGuard ip endAddr u = true := by
    intro u inside
    simp only [cfiGuard, Bool.and_eq_true, decide_eq_true_eq] at inside ⊢
    exact ⟨BitVec.le_trans inside.1 le, inside.2⟩
  have path : Reaches (cfiGuard ip endAddr) (cfiStep env) s next :=
    (run_reaches ended).weaken implies
  obtain ⟨skipped, later⟩ : ∃ skipped, ∀ budget,
      runCfiProgram env (skipped + budget) ip endAddr s = runCfiProgram env budget ip endAddr next :=
    path.run_shift
  obtain ⟨rounds, found⟩ := row
  refine ⟨skipped + rounds, fun budget enough => ?_⟩
  obtain ⟨last, whole, same⟩ := found (budget - skipped) (by omega)
  refine ⟨last, ?_, same⟩
  have split : budget = skipped + (budget - skipped) := by omega
  rw [split, later]
  exact whole

end Slice

/-! ## Tilings -/

/-- The reports lie side by side from the first location to the last. -/
inductive Tiles : Word w → Word w → List (Report n w) → Prop where
  | nil (ip) : Tiles ip ip []
  | cons {first middle last reports} (rs) : first < middle → Tiles middle last reports →
      Tiles first last (⟨rs, first, middle⟩ :: reports)

theorem Tiles.inside {first last : Word w} {reports : List (Report n w)}
    (tiles : Tiles first last reports) :
    first ≤ last ∧ ∀ report ∈ reports,
      first ≤ report.prevIp ∧ report.prevIp < report.currIp ∧ report.currIp ≤ last := by
  induction tiles with
  | nil => exact ⟨BitVec.le_refl _, nofun⟩
  | cons rs before _ ih =>
      obtain ⟨le, members⟩ := ih
      refine ⟨BitVec.le_trans (BitVec.le_of_lt before) le, fun report member => ?_⟩
      cases member with
      | head => exact ⟨BitVec.le_refl _, before, le⟩
      | tail _ member =>
          obtain ⟨start, nonempty, stop⟩ := members report member
          exact ⟨BitVec.le_trans (BitVec.le_of_lt before) start, nonempty, stop⟩

theorem Tiles.disjoint {first last : Word w} {reports : List (Report n w)}
    (tiles : Tiles first last reports) :
    reports.Pairwise (fun a b => a.currIp ≤ b.prevIp) := by
  induction tiles with
  | nil => exact .nil
  | cons rs _ rest ih => exact .cons (fun report member => (rest.inside.2 report member).1) ih

theorem Tiles.covers {first last : Word w} {reports : List (Report n w)}
    (tiles : Tiles first last reports) (ip : Word w) :
    (∃ report ∈ reports, report.prevIp ≤ ip ∧ ip < report.currIp) ↔ first ≤ ip ∧ ip < last := by
  constructor
  · rintro ⟨report, member, start, stop⟩
    obtain ⟨after, -, before⟩ := tiles.inside.2 report member
    exact ⟨BitVec.le_trans after start, by bv_omega⟩
  · rintro ⟨after, before⟩
    induction tiles with
    | nil => exact absurd before (BitVec.not_lt.mpr after)
    | @cons first middle last reports rs _ _ ih =>
        by_cases here : ip < middle
        · exact ⟨_, .head _, after, here⟩
        · obtain ⟨report, member, found⟩ := ih (BitVec.not_lt.mp here) before
          exact ⟨report, .tail _ member, found⟩

/-! ## All slices -/

/-- The slices from `s` on make the reports: these tile what is left of the
    procedure, and each has the row that one run from `s` finds. -/
structure Sliced (env : CfiEnv n w) (length : Nat) (s : CfiState n w)
    (reports : List (Report n w)) : Prop where
  tiles : Tiles s.ip env.pi.endIp reports
  rows : ∀ report ∈ reports, ∀ ip, report.prevIp ≤ ip → ip < report.currIp →
    RowAt env env.dci.fdeInstrEnd s ip report.rs
  told : ∀ budget rounds seen, length ≤ budget → length ≤ rounds →
    (run .timeout (sliceGuard env) (slice env budget record) rounds (s, seen) >>=
      lastReport env record) = .ok (seen ++ reports)

section Sliced

variable {env : CfiEnv n w} {length left : Nat} {s next : CfiState n w}
  {reports : List (Report n w)}

/-- Instructions left over at the end of the procedure are not run. -/
theorem sliced_end (here : s.ip = env.pi.endIp) : Sliced env length s [] where
  tiles := here ▸ .nil _
  rows := nofun
  told budget rounds seen _ _ := by
    have ended : ¬ s.ip < env.pi.endIp := by rw [here]; exact BitVec.lt_irrefl _
    have exit : sliceGuard env (s, seen) = false := by simp [sliceGuard, ended]
    rw [run_exit exit, ok_bind, lastReport, if_neg ended, List.append_nil]
    rfl

/-- Once the instructions are used up, their last row is reported for the rest. -/
theorem sliced_rest (inside : s.ip < env.pi.endIp) (ended : ¬ s.addr < env.dci.fdeInstrEnd) :
    Sliced env length s [⟨s.sr.rsCurrent, s.ip, env.pi.endIp⟩] where
  tiles := .cons _ inside (.nil _)
  rows report member ip _ _ := by
    have exit : cfiGuard ip env.dci.fdeInstrEnd s = false := by simp [cfiGuard, ended]
    rw [List.mem_singleton.mp member]
    exact rowAt_here exit
  told budget rounds seen _ _ := by
    have exit : sliceGuard env (s, seen) = false := by simp [sliceGuard, ended]
    rw [run_exit exit, ok_bind, lastReport, if_pos inside]
    rfl

theorem rows_of_later {early} (later : Sliced env left next reports)
    (ended : runCfiProgram env length early env.dci.fdeInstrEnd s = .ok next)
    (le : early ≤ next.ip) :
    ∀ report ∈ reports, ∀ ip, report.prevIp ≤ ip → ip < report.currIp →
      RowAt env env.dci.fdeInstrEnd s ip report.rs := by
  intro report member ip start stop
  have after := (later.tiles.inside.2 report member).1
  exact rowAt_later (by bv_omega) ended (later.rows report member ip start stop)

/-- A slice that moves the location adds a report. -/
theorem sliced_moved (later : Sliced env left next reports) (fewer : left < length)
    (enter : s.ip < env.pi.endIp ∧ s.addr < env.dci.fdeInstrEnd)
    (ended : ∀ budget, length ≤ budget →
      runCfiProgram env budget s.ip env.dci.fdeInstrEnd s = .ok next)
    (moved : s.ip < next.ip) :
    Sliced env length s (⟨next.sr.rsCurrent, s.ip, next.ip⟩ :: reports) where
  tiles := .cons _ moved later.tiles
  rows report member ip start stop := by
    have one := ended length (Nat.le_refl _)
    cases member with
    | head =>
        have before : ¬ next.ip ≤ ip := BitVec.not_le.mpr stop
        exact rowAt_later start one (rowAt_here (by simp [cfiGuard, before]))
    | tail _ member =>
        exact rows_of_later later one (BitVec.le_of_lt moved) report member ip start stop
  told budget rounds seen enough more := by
    obtain ⟨rounds, rfl⟩ : ∃ m, rounds = m + 1 := ⟨rounds - 1, by omega⟩
    have inside : sliceGuard env (s, seen) = true := by simp [sliceGuard, enter]
    have round : slice env budget record (s, seen) =
        .ok (next, seen ++ [⟨next.sr.rsCurrent, s.ip, next.ip⟩]) := by
      rw [slice, ended budget enough, ok_bind, if_pos moved]
      rfl
    rw [run_next inside round, later.told budget rounds _ (by omega) (by omega),
      List.append_assoc]
    rfl

/-- A slice that leaves the location as it was adds none. -/
theorem sliced_stayed (later : Sliced env left next reports) (fewer : left < length)
    (enter : s.ip < env.pi.endIp ∧ s.addr < env.dci.fdeInstrEnd)
    (ended : ∀ budget, length ≤ budget →
      runCfiProgram env budget s.ip env.dci.fdeInstrEnd s = .ok next)
    (stayed : s.ip = next.ip) : Sliced env length s reports where
  tiles := stayed ▸ later.tiles
  rows := rows_of_later later (ended length (Nat.le_refl _)) (by rw [stayed]; exact BitVec.le_refl _)
  told budget rounds seen enough more := by
    obtain ⟨rounds, rfl⟩ : ∃ m, rounds = m + 1 := ⟨rounds - 1, by omega⟩
    have inside : sliceGuard env (s, seen) = true := by simp [sliceGuard, enter]
    have still : ¬ s.ip < next.ip := by rw [stayed]; exact BitVec.lt_irrefl _
    have round : slice env budget record (s, seen) = .ok (next, seen) := by
      rw [slice, ended budget enough, ok_bind, if_neg still]
      rfl
    rw [run_next inside round, later.told budget rounds _ (by omega) (by omega)]

end Sliced

theorem sliced_of_forward {env : CfiEnv n w} {length s}
    (forward : ForwardRun env env.dci.fdeInstrEnd env.pi.endIp length s)
    (started : s.ip ≤ env.pi.endIp) : ∃ reports, Sliced env length s reports := by
  induction length using Nat.strongRecOn generalizing s with
  | ind length ih =>
    by_cases inside : s.ip < env.pi.endIp
    · by_cases more : s.addr < env.dci.fdeInstrEnd
      · obtain ⟨left, next, ended, rest, -, fewer, later, bounded⟩ := run_of_forward forward s.ip
        have fewer : left < length := fewer (by simp [cfiGuard, more])
        obtain ⟨reports, sliced⟩ := ih left fewer rest (bounded started)
        by_cases moved : s.ip < next.ip
        · exact ⟨_, sliced_moved sliced fewer ⟨inside, more⟩ ended moved⟩
        · have stayed : s.ip = next.ip := BitVec.le_antisymm later (BitVec.not_lt.mp moved)
          exact ⟨_, sliced_stayed sliced fewer ⟨inside, more⟩ ended stayed⟩
      · exact ⟨_, sliced_rest inside more⟩
    · exact ⟨_, sliced_end (BitVec.le_antisymm started (BitVec.not_lt.mp inside))⟩

/-- Iterating is faithful to stepping: over instructions that only move forward,
    the reports are disjoint, in order, cover the procedure, and at every location
    give the row that `parse_fde` computes for it. -/
theorem regStatesTableIterate_faithful (env : CfiEnv n w) {used sr allocs length}
    (setup : setupFde env used = .ok (sr, allocs))
    (forward : ForwardRun env env.dci.fdeInstrEnd env.pi.endIp length (fdeStart env sr allocs)) :
    ∃ reports most,
      (∀ budget, most ≤ budget → regStatesTableIterate env budget record [] = .ok reports) ∧
      reports.Pairwise (fun a b => a.currIp ≤ b.prevIp) ∧
      (∀ report ∈ reports, report.prevIp < report.currIp) ∧
      (∀ ip, (∃ report ∈ reports, report.prevIp ≤ ip ∧ ip < report.currIp) ↔
        env.pi.startIp ≤ ip ∧ ip < env.pi.endIp) ∧
      ∀ report ∈ reports, ∀ ip usePrevInstr,
        report.prevIp ≤ ip - (if usePrevInstr then 1 else 0) →
        ip - (if usePrevInstr then 1 else 0) < report.currIp →
        ∃ rounds, ∀ budget, rounds ≤ budget →
          ∃ found, parseFde env budget ip usePrevInstr sr allocs = .ok found ∧
            found.rsCurrent = report.rs := by
  have again {budget} (enough : used ≤ budget) : setupFde env budget = .ok (sr, allocs) :=
    setupFde_mono enough setup
  by_cases started : env.pi.startIp ≤ env.pi.endIp
  · obtain ⟨reports, sliced⟩ := sliced_of_forward forward started
    refine ⟨reports, max used length, ?_, sliced.tiles.disjoint, ?_, sliced.tiles.covers, ?_⟩
    · intro budget enough
      rw [regStatesTableIterate, again (by omega), ok_bind]
      exact sliced.told budget budget [] (by omega) (by omega)
    · intro report member
      exact (sliced.tiles.inside.2 report member).2.1
    · intro report member ip usePrevInstr after before
      obtain ⟨rounds, found⟩ := sliced.rows report member _ after before
      refine ⟨rounds, fun budget enough => ?_⟩
      obtain ⟨last, ended, same⟩ := found budget enough
      exact ⟨last.sr, by rw [parseFde, ended]; rfl, same⟩
  · -- a procedure that ends before it starts: no slice, no report
    refine ⟨[], used, ?_, .nil, nofun, ?_, nofun⟩
    · intro budget enough
      have ended : ¬ (fdeStart env sr allocs).ip < env.pi.endIp := fun before =>
        started (BitVec.le_of_lt before)
      have exit : sliceGuard env (fdeStart env sr allocs, ([] : List (Report n w))) = false := by
        simp [sliceGuard, ended]
      rw [regStatesTableIterate, again enough, ok_bind]
      simp only [run_exit exit, ok_bind, lastReport, if_neg ended]
      rfl
    · intro ip
      refine ⟨nofun, fun ⟨after, before⟩ => ?_⟩
      exact absurd (BitVec.le_trans after (BitVec.le_of_lt before)) started

/-- A frame that is set up by a push and torn down before its last byte, which
    remembers and restores its row. -/
def pushFrame : CfiEnv 17 64 where
  target := { sp := 7 }
  cursorSpace := spaceOfBytes 64
    [0x0c, 7, 8, 0x90, 1,                            -- def_cfa r7, 8; offset r16, 1
     0x41, 0x0e, 16, 0x86, 2, 0x0a, 0x44,            -- advance_loc 1, 4 around the push of r6
     0x0e, 8, 0xc6, 0x42, 0x0b]                      -- restore r6; advance_loc 2; restore_state
  localSpace := spaceOfBytes 64 []
  pi := { startIp := 0x1000, endIp := 0x1010 }
  dci := { codeAlign := 1, dataAlign := -8, retAddrColumn := 16, cieInstrStart := 0,
           cieInstrEnd := 5, fdeInstrStart := 5, fdeInstrEnd := 17 }

def pushFrameRecord : StateRecord 17 64 × Nat :=
  match setupFde pushFrame 4 with
  | .ok record => record
  | .error _ => ({}, 0)

theorem pushFrame_iterated :
    ∃ reports most,
      (∀ budget, most ≤ budget → regStatesTableIterate pushFrame budget record [] = .ok reports) ∧
      ∀ ip, (∃ report ∈ reports, report.prevIp ≤ ip ∧ ip < report.currIp) ↔
        0x1000 ≤ ip ∧ ip < 0x1010 := by
  have setup : setupFde pushFrame 4 = .ok (pushFrameRecord.1, pushFrameRecord.2) := rfl
  have forward : ForwardRun pushFrame 17 0x1010 9
      (fdeStart pushFrame pushFrameRecord.1 pushFrameRecord.2) := by
    decide
  obtain ⟨reports, most, iterated, -, -, covers, -⟩ :=
    regStatesTableIterate_faithful pushFrame setup forward
  exact ⟨reports, most, iterated, covers⟩

end Libunwind.Dwarf
