import Libunwind.Ia64.PredicateUse
import Libunwind.Ia64.SaveOrder

/-! # What a script is built to

A script that has been built is not truncated, and its proc info is that which it was built from, unless
it was marked or replaced on the way.
-/

namespace Libunwind.Ia64

open Dyn (DynOp DynRegionInfo)

namespace Building

/-- A script that is returned is shorter than the longest that there can be. -/
def Fits (s : Building) : Prop :=
  ∀ insns, s.control = .returned (.ok insns) → insns.length < maxScriptLen

variable {s s' : Building} {pr ip : Word 64} {answer : Except UnwError FetchedProc}

theorem reject_fits (code : UnwError) : (s.reject code).Fits := by
  rintro insns ⟨⟩

theorem create_fits (proc : FetchedProc) : (create pr ip proc s).Fits := by
  intro insns isControl
  rw [create] at isControl
  cases isUnwind : proc.unwind with
  | null | table | dynamic | otherFormat =>
      rw [isUnwind] at isControl
      cases isControl

theorem nextDescriptor_fits {dp : Int} (stepped : s.nextDescriptor dp = .ok s') : s'.Fits := by
  rw [nextDescriptor] at stepped
  split at stepped
  · obtain ⟨next, -, stepped⟩ := bind_eq_ok.mp stepped
    cases stepped
    rintro insns ⟨⟩
  · cases stepped
    rintro insns ⟨⟩

theorem nextRegion_fits {length : Word 64} {regions : List (DynRegionInfo 64)}
    (stepped : s.nextRegion length regions = .ok s') : s'.Fits := by
  cases regions with
  | nil =>
      cases stepped
      rintro insns ⟨⟩
  | cons r rest =>
      rw [nextRegion] at stepped
      dsimp only at stepped
      split at stepped
      · cases stepped
        exact reject_fits _
      · obtain ⟨parse, -, stepped⟩ := bind_eq_ok.mp stepped
        cases stepped
        intro insns isControl
        dsimp only at isControl
        split at isControl
        · cases isControl
        · cases isControl

theorem nextOp_fits {length : Word 64} {ops : List (DynOp 64)} {rest : List (DynRegionInfo 64)}
    (stepped : s.nextOp pr answer length rest ops = .ok s') : s'.Fits := by
  cases ops with
  | nil =>
      cases stepped
      rintro insns ⟨⟩
  | cons op ops =>
      rw [nextOp] at stepped
      split at stepped
      · cases stepped
      · generalize s.parse.sr.takeOp op = both at stepped
        obtain ⟨sr, effect⟩ := both
        cases effect with
        | regs | stop =>
            cases stepped
            rintro insns ⟨⟩
        | reject code =>
            cases stepped
            exact reject_fits code
        | labelState | copyState =>
            obtain ⟨parse, -, stepped⟩ := bind_eq_ok.mp stepped
            cases stepped
            rintro insns ⟨⟩
        | «alias» =>
            cases stepped
            cases answer with
            | error code => exact reject_fits code
            | ok proc => exact create_fits proc

theorem created_fits (stepped : s.created = .ok s') : s'.Fits := by
  rw [created] at stepped
  split at stepped
  · obtain ⟨parse, -, stepped⟩ := bind_eq_ok.mp stepped
    cases stepped
    intro insns isControl
    cases isControl
    exact buildScript_fits s.parse.sr
  · obtain ⟨parse, -, stepped⟩ := bind_eq_ok.mp stepped
    cases stepped
    rintro insns ⟨⟩

theorem step_fits (fits : s.Fits) (stepped : s.step pr answer = .ok s') : s'.Fits := by
  rw [step] at stepped
  split at stepped
  · exact nextDescriptor_fits stepped
  · exact nextRegion_fits stepped
  · exact nextOp_fits stepped
  · cases stepped
    rintro insns ⟨⟩
  · exact created_fits stepped
  · cases stepped
    exact fits

end Building

namespace ScriptBuild

variable {sources : ProcSources} {pr : Word 64} {s s' : ScriptBuild}

theorem step_building (stepped : s.step sources pr = .ok s') :
    ∃ answer, s.building.step pr answer = .ok s'.building := by
  rw [step] at stepped
  split at stepped
  · obtain ⟨building, one, stepped⟩ := bind_eq_ok.mp stepped
    cases stepped
    exact ⟨_, one⟩
  · obtain ⟨building, one, stepped⟩ := bind_eq_ok.mp stepped
    split at stepped
    · cases stepped
      exact ⟨_, one⟩
    · cases stepped
      exact ⟨_, one⟩

theorem run_fits {rounds : Nat} {built : Built} {pi : UnwProcInfo} {dynamic : Bool}
    (fits : s.building.Fits) (returns : run sources pr rounds s = .ok (.ok built, pi, dynamic)) :
    built.insns.length < maxScriptLen := by
  induction rounds generalizing s with
  | zero => cases returns
  | succ rounds ih =>
      rw [run] at returns
      split at returns
      case h_1 insns isControl =>
        cases returns
        exact fits insns isControl
      case h_2 => cases returns
      case h_3 =>
        obtain ⟨next, stepped, returns⟩ := bind_eq_ok.mp returns
        obtain ⟨answer, one⟩ := step_building stepped
        exact ih (Building.step_fits fits one) returns

theorem start_fits (memory : Nat → Bool) (ip : Word 64) (pi : UnwProcInfo) (dynamic : Bool) :
    (start memory ip pr pi dynamic).building.Fits := Building.create_fits pi.fetched

/-- No alias is carried out while the script is built, and the procedure is not found to switch the
    register backing store. -/
def Unmarked (sources : ProcSources) (pr : Word 64) (s : ScriptBuild) : Prop :=
  ∀ t, Reaches sources pr s t → t.building.nextAlias = none ∧
    (t.building.control = .finish → ¬t.building.parse.sr.finish.SwitchesRbs)

theorem putUnwindInfo_members (dynamic : Bool) (pi : UnwProcInfo) :
    (sources.putUnwindInfo dynamic pi).members = pi.members := by
  rw [ProcSources.putUnwindInfo]
  split
  · rfl
  · rfl

theorem Unmarked.step (unmarked : Unmarked sources pr s) (stepped : s.step sources pr = .ok s') :
    Unmarked sources pr s' ∧ s'.pi.members = s.pi.members := by
  refine ⟨fun t reached => unmarked t (reached.after stepped), ?_⟩
  obtain ⟨noAlias, keeps⟩ := unmarked s .start
  rw [ScriptBuild.step, noAlias] at stepped
  obtain ⟨building, one, stepped⟩ := bind_eq_ok.mp stepped
  split at stepped
  case h_1 isFinish =>
    cases stepped
    rw [Building.step, isFinish] at one
    cases one
    change (if _ then _ else _ : UnwProcInfo).members = _
    rw [if_neg (keeps isFinish), putUnwindInfo_members]
  case h_2 =>
    cases stepped
    rfl

/-- The proc info that is kept with a script is that which the script was built from. -/
theorem run_members {rounds : Nat} {ret : Except UnwError Built} {pi : UnwProcInfo} {dynamic : Bool}
    (unmarked : Unmarked sources pr s) (returns : run sources pr rounds s = .ok (ret, pi, dynamic)) :
    pi.members = s.pi.members := by
  induction rounds generalizing s with
  | zero => cases returns
  | succ rounds ih =>
      rw [run] at returns
      split at returns
      · cases returns
        rfl
      · cases returns
        exact putUnwindInfo_members ..
      · obtain ⟨next, stepped, returns⟩ := bind_eq_ok.mp returns
        obtain ⟨unmarked', same⟩ := unmarked.step stepped
        exact (ih unmarked' returns).trans same

end ScriptBuild

end Libunwind.Ia64
