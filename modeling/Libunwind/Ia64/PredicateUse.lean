import Libunwind.Ia64.ProcLookup

/-! # The predicates that a script depends on

`build_script` has the predicates of the cursor in its state record, and looks at one of them where a
descriptor is qualified by it. With other predicates it does the same as long as those that it asks
for are the same.
-/

namespace Libunwind.Ia64

open Dyn (DynOp DynRegionInfo)

/-- The predicate is not 0. -/
def HasPredicate (pr : Word 64) (qp : Byte) : Prop := pr &&& (1 : Word 64) <<< qp.toNat ≠ 0

instance (pr : Word 64) (qp : Byte) : Decidable (HasPredicate pr qp) :=
  inferInstanceAs (Decidable (_ ≠ _))

/-! ## Other predicates in the same state -/

def StateRecord.withPr (v : Word 64) (sr : StateRecord) : StateRecord := { sr with prVal := v }

def Parse.withPr (v : Word 64) (parse : Parse) : Parse := ⟨parse.sr.withPr v, parse.pools⟩

def AliasCall.withPr (v : Word 64) (call : AliasCall) : AliasCall :=
  { call with origSr := call.origSr.withPr v }

def Building.withPr (v : Word 64) (s : Building) : Building :=
  { s with parse := s.parse.withPr v, callers := s.callers.map (·.withPr v) }

def ScriptBuild.withPr (v : Word 64) (s : ScriptBuild) : ScriptBuild :=
  { s with building := s.building.withPr v }

/-- A sequence of routines whose values are mapped is mapped. -/
theorem bind_mapped {α α' β β' : Type} {first : Result α} {first' : Result α'} {rest : α → Result β}
    {rest' : α' → Result β'} {f : α → α'} {g : β → β'} (mapped : first' = first.map f)
    (later : ∀ a, first = .ok a → rest' (f a) = (rest a).map g) :
    (first' >>= rest') = (first >>= rest).map g := by
  rw [mapped]
  cases isFirst : first with
  | ok a => exact later a isFirst
  | error e => rfl

theorem bind_same {α β β' : Type} {first : Result α} {rest : α → Result β} {rest' : α → Result β'}
    {g : β → β'} (later : ∀ a, first = .ok a → rest' a = (rest a).map g) :
    (first >>= rest') = (first >>= rest).map g := by
  cases isFirst : first with
  | ok a => exact later a isFirst
  | error e => rfl

/-- Where both ways are mapped, so is the choice. -/
theorem ite_mapped {α β : Type} {p : Prop} [Decidable p] {a b : α} {a' b' : β} (f : α → β)
    (first : a' = f a) (second : b' = f b) : (if p then a' else b') = f (if p then a else b) := by
  rw [first, second, apply_ite f]

section Registers

variable (v : Word 64) (sr : StateRecord)

theorem resolveGrSave_mapped : (sr.withPr v).resolveGrSave = sr.resolveGrSave.withPr v :=
  List.foldl_hom (StateRecord.withPr v) fun _ _ => ite_mapped (StateRecord.withPr v) rfl rfl

theorem spillNextWhen_mapped (regp lim : Nat) (t : Word 64) :
    (sr.withPr v).spillNextWhen regp lim t =
      Prod.map id (StateRecord.withPr v) (sr.spillNextWhen regp lim t) := by
  have same : ((List.range' regp (lim + 1 - regp)).find? fun i =>
      ((sr.withPr v).curr.reg (Fin.ofNat 45 i)).saved = .spillHome) =
        (List.range' regp (lim + 1 - regp)).find? fun i =>
          (sr.curr.reg (Fin.ofNat 45 i)).saved = .spillHome := rfl
  rw [StateRecord.spillNextWhen, StateRecord.spillNextWhen, same]
  split
  · rfl
  · rfl

theorem walkImask_mapped (area : List Byte) (imask rounds t : Nat) (mask : Byte)
    (regs : Fin 3 → Nat) :
    StateRecord.walkImask area imask rounds t mask regs (sr.withPr v) =
      (StateRecord.walkImask area imask rounds t mask regs sr).map (StateRecord.withPr v) := by
  induction rounds generalizing t mask regs sr with
  | zero => rfl
  | succ rounds ih =>
      rw [StateRecord.walkImask, StateRecord.walkImask]
      refine bind_same fun byte _ => ?_
      dsimp only
      rw [spillNextWhen_mapped]
      exact ite_mapped (Except.map (StateRecord.withPr v)) (ih ..) (ih ..)

theorem resolveSpills_mapped (area : List Byte) :
    (sr.withPr v).resolveSpills area = (sr.resolveSpills area).map (StateRecord.withPr v) := by
  have same : (sr.withPr v).imask = sr.imask := rfl
  rw [StateRecord.resolveSpills, StateRecord.resolveSpills, same]
  split
  · exact walkImask_mapped v sr ..
  · rfl

theorem allocSpillArea_mapped (regsize : Word 64) (lo hi : Preg) (spill : Word 64 × StateRecord) :
    StateRecord.allocSpillArea regsize lo hi (Prod.map id (StateRecord.withPr v) spill) =
      Prod.map id (StateRecord.withPr v) (StateRecord.allocSpillArea regsize lo hi spill) :=
  List.foldl_hom (Prod.map id (StateRecord.withPr v)) fun _ _ =>
    ite_mapped (Prod.map id (StateRecord.withPr v)) rfl rfl

theorem layOutSpills_mapped : (sr.withPr v).layOutSpills = sr.layOutSpills.withPr v := by
  have same : (sr.withPr v).anySpills = sr.anySpills := rfl
  have frs : StateRecord.allocSpillArea 16 .f2 .f31 ((sr.withPr v).spillOffset, sr.withPr v) =
      Prod.map id (StateRecord.withPr v)
        (StateRecord.allocSpillArea 16 .f2 .f31 (sr.spillOffset, sr)) :=
    allocSpillArea_mapped v 16 .f2 .f31 (sr.spillOffset, sr)
  rw [StateRecord.layOutSpills, StateRecord.layOutSpills, same]
  split
  · change (StateRecord.allocSpillArea 8 .r4 .r7 (StateRecord.allocSpillArea 8 .b1 .b5
      (StateRecord.allocSpillArea 16 .f2 .f31 ((sr.withPr v).spillOffset, sr.withPr v)))).2 =
        (StateRecord.allocSpillArea 8 .r4 .r7 (StateRecord.allocSpillArea 8 .b1 .b5
          (StateRecord.allocSpillArea 16 .f2 .f31 (sr.spillOffset, sr)))).2.withPr v
    rw [frs]
    generalize StateRecord.allocSpillArea 16 .f2 .f31 (sr.spillOffset, sr) = spill
    rw [allocSpillArea_mapped v 8 .b1 .b5 spill]
    generalize StateRecord.allocSpillArea 8 .b1 .b5 spill = spill
    rw [allocSpillArea_mapped v 8 .r4 .r7 spill, Prod.map_snd]
  · rfl

theorem finishPrologue_mapped (area : List Byte) :
    (sr.withPr v).finishPrologue area = (sr.finishPrologue area).map (StateRecord.withPr v) := by
  rw [StateRecord.finishPrologue, StateRecord.finishPrologue, resolveGrSave_mapped]
  exact bind_mapped (resolveSpills_mapped ..) fun sr _ => congrArg Except.ok (layOutSpills_mapped v sr)

theorem saveInGrs_mapped (first : Preg) (count : Nat) (mask gr : Byte) :
    (sr.withPr v).saveInGrs first count mask gr = (sr.saveInGrs first count mask gr).withPr v := by
  refine congrArg Prod.fst
    (@List.foldl_hom _ _ _ (Prod.map (StateRecord.withPr v) id) _ _ (List.range count) (sr, gr) ?_)
  rintro ⟨sr, gr⟩ i
  exact ite_mapped (Prod.map (StateRecord.withPr v) id) rfl rfl

theorem spillHomes_mapped (reg : Nat → Preg) (count : Nat) (mask : Word 64) :
    (sr.withPr v).spillHomes reg count mask = (sr.spillHomes reg count mask).withPr v :=
  List.foldl_hom (StateRecord.withPr v) fun _ _ => ite_mapped (StateRecord.withPr v) rfl rfl

theorem saveMasked_mapped (mask grsave : Byte) :
    Parse.saveMasked mask grsave (sr.withPr v) =
      Prod.map (StateRecord.withPr v) id (Parse.saveMasked mask grsave sr) := by
  refine @List.foldl_hom _ _ _ (Prod.map (StateRecord.withPr v) id) _ _ _ (sr, grsave) ?_
  rintro ⟨sr, gr⟩ i
  exact ite_mapped (Prod.map (StateRecord.withPr v) id) rfl rfl

/-- `desc_is_active` looks at the predicate. -/
def StateRecord.AsksFor (qp : Byte) (t : Word 64) : Prop := sr.whenOf t < sr.whenTarget ∧ 0 < qp

variable {v sr} {qp : Byte} {t : Word 64}

theorem descIsActive_mapped
    (same : sr.AsksFor qp t → (HasPredicate sr.prVal qp ↔ HasPredicate v qp)) :
    (sr.withPr v).descIsActive qp t = Prod.map id (StateRecord.withPr v) (sr.descIsActive qp t) := by
  have target : (sr.withPr v).whenTarget ≤ (sr.withPr v).whenOf t ↔ sr.whenTarget ≤ sr.whenOf t :=
    Iff.rfl
  rw [StateRecord.descIsActive, StateRecord.descIsActive]
  by_cases past : sr.whenTarget ≤ sr.whenOf t
  · rw [if_pos past, if_pos (target.mpr past)]
    rfl
  rw [if_neg past, if_neg (target.not.mpr past)]
  by_cases qualified : 0 < qp
  · rw [if_pos qualified, if_pos qualified]
    have same := same ⟨lt_of_not_ge past, qualified⟩
    by_cases isZero : sr.prVal &&& (1 : Word 64) <<< qp.toNat = 0
    · have isZero' : v &&& (1 : Word 64) <<< qp.toNat = 0 := by
        by_contra nonzero
        exact same.mpr nonzero isZero
      dsimp only
      rw [if_pos isZero]
      exact if_pos isZero'
    · have nonzero : v &&& (1 : Word 64) <<< qp.toNat ≠ 0 := same.mp isZero
      dsimp only
      rw [if_neg isZero]
      exact if_neg nonzero
  · rw [if_neg qualified, if_neg qualified]
    rfl

theorem saveWhenActive_mapped
    (same : sr.AsksFor qp t → (HasPredicate sr.prVal qp ↔ HasPredicate v qp)) (i : Preg)
    (info : RegInfo) :
    (sr.withPr v).saveWhenActive qp t i info = (sr.saveWhenActive qp t i info).withPr v := by
  rw [StateRecord.saveWhenActive, descIsActive_mapped same, StateRecord.saveWhenActive]
  exact ite_mapped (StateRecord.withPr v) rfl rfl

/-- The predicate that qualifies a descriptor, and when the descriptor is about. -/
def Descriptor.qualifier : Descriptor → Option (Byte × Word 64)
  | .spillRegP qp t .. | .spillPsprelP qp t .. | .spillSprelP qp t .. | .restoreP qp t _ => some (qp, t)
  | _ => none

theorem performRegs_mapped (d : Descriptor)
    (same : ∀ qp t, d.qualifier = some (qp, t) → sr.AsksFor qp t →
      (HasPredicate sr.prVal qp ↔ HasPredicate v qp)) :
    (sr.withPr v).performRegs d = (sr.performRegs d).withPr v := by
  cases d with
  | brGr | grGr => exact saveInGrs_mapped ..
  | brMem | frMem | grMem => exact spillHomes_mapped ..
  | frgrMem =>
      rw [StateRecord.performRegs, StateRecord.descFrgrMem, spillHomes_mapped, spillHomes_mapped]
      rfl
  | spillRegP qp t | spillPsprelP qp t | spillSprelP qp t | restoreP qp t =>
      exact saveWhenActive_mapped (same qp t rfl) ..
  | _ => rfl

end Registers

/-! ## Lists -/

section Lists

variable (v : Word 64) (parse : Parse)

theorem push_mapped : (parse.withPr v).push = parse.push.withPr v := by
  have same : (parse.withPr v).pools.allocRegState (parse.withPr v).sr.curr =
      parse.pools.allocRegState parse.sr.curr := rfl
  rw [Parse.push, Parse.push, same]
  split
  · rfl
  · rfl

theorem pop_mapped : (parse.withPr v).pop = parse.pop.map (Parse.withPr v) := by
  rw [Parse.pop, Parse.pop]
  exact ite_mapped (Except.map (Parse.withPr v)) rfl
    (bind_same fun state _ => bind_same fun pools _ => rfl)

theorem popTimes_mapped (count : Nat) :
    Parse.popTimes count (parse.withPr v) = (Parse.popTimes count parse).map (Parse.withPr v) := by
  induction count generalizing parse with
  | zero => rfl
  | succ count ih => exact bind_mapped (pop_mapped v parse) fun parse _ => ih parse

theorem leaveRegion_mapped (area : List Byte) :
    (parse.withPr v).leaveRegion area = (parse.leaveRegion area).map (StateRecord.withPr v) :=
  ite_mapped (Except.map (StateRecord.withPr v)) rfl (finishPrologue_mapped v parse.sr area)

theorem enterPrologue_mapped (mask grsave : Byte) :
    Parse.enterPrologue mask grsave (parse.withPr v) =
      (Parse.enterPrologue mask grsave parse).withPr v := by
  rw [Parse.enterPrologue, Parse.enterPrologue, push_mapped]
  generalize parse.push = parse
  have saved := saveMasked_mapped v parse.sr mask grsave
  change Parse.saveMasked mask grsave (parse.withPr v).sr = _ at saved
  rw [saved]
  rfl

theorem descPrologue_mapped (area : List Byte) (body : Bool) (rlen : Word 64) (mask grsave : Byte) :
    (parse.withPr v).descPrologue area body rlen mask grsave =
      (parse.descPrologue area body rlen mask grsave).map (Parse.withPr v) := by
  rw [Parse.descPrologue, Parse.descPrologue]
  refine bind_mapped (leaveRegion_mapped v parse area) fun sr _ => ?_
  refine ite_mapped (Except.map (Parse.withPr v)) rfl ?_
  refine bind_mapped (popTimes_mapped v { parse with sr := { sr with firstRegion := false } } _)
    fun parse _ => congrArg Except.ok ?_
  let next : Parse := { parse with
    sr := { parse.sr with
      epilogueCount := 0
      whenSpRestored := whenNever
      regionStart := toInt32 (sr.regionStart + sr.regionLen)
      regionLen := (rlen.setWidth 32).toInt
      inBody := body } }
  exact ite_mapped (Parse.withPr v) rfl (enterPrologue_mapped v next mask grsave)

theorem descCopyState_mapped (label : Word 64) :
    (parse.withPr v).descCopyState label = (parse.descCopyState label).map (Parse.withPr v) := by
  rw [Parse.descCopyState, Parse.descCopyState]
  refine bind_same fun found _ => ?_
  cases found with
  | some ls => exact bind_same fun pools _ => bind_same fun copy _ => rfl
  | none => rfl

theorem descLabelState_mapped (label : Word 64) :
    (parse.withPr v).descLabelState label = (parse.descLabelState label).map (Parse.withPr v) := by
  have same : (parse.withPr v).pools.allocLabeledState ⟨0, label, (parse.withPr v).sr.curr⟩ =
      parse.pools.allocLabeledState ⟨0, label, parse.sr.curr⟩ := rfl
  rw [Parse.descLabelState, Parse.descLabelState, same]
  split
  · rfl
  · exact bind_same fun copy _ => bind_same fun pools _ => rfl

theorem freeStateRecord_mapped :
    (parse.withPr v).freeStateRecord = parse.freeStateRecord.map (Parse.withPr v) :=
  bind_same fun _ _ => bind_same fun _ _ => rfl

variable {v parse}

theorem perform_mapped (area : List Byte) (dp : Int) (d : Descriptor)
    (same : ∀ qp t, d.qualifier = some (qp, t) → parse.sr.AsksFor qp t →
      (HasPredicate parse.sr.prVal qp ↔ HasPredicate v qp)) :
    (parse.withPr v).perform area dp d =
      (parse.perform area dp d).map (Prod.map (Parse.withPr v) id) := by
  have regs := performRegs_mapped d same
  cases d with
  | prologue body rlen mask grsave =>
      exact bind_mapped (descPrologue_mapped v parse area body rlen mask grsave) fun _ _ => rfl
  | spillMask => rfl
  | copyState label => exact bind_mapped (descCopyState_mapped v parse label) fun _ _ => rfl
  | labelState label => exact bind_mapped (descLabelState_mapped v parse label) fun _ _ => rfl
  | _ => exact congrArg (fun sr => Except.ok ((⟨sr, parse.pools⟩ : Parse), dp)) regs

end Lists

/-! ## Operations and steps -/

def OpEffect.withPr (v : Word 64) : OpEffect → OpEffect
  | .regs sr => .regs (sr.withPr v)
  | effect => effect

namespace Building

/-- The next step of `build_script` looks at the predicate. -/
def Asks (s : Building) (qp : Byte) : Prop :=
  match s.control with
  | .descriptors dp => Parsing.goesOn s.area ⟨dp, s.parse⟩ = true ∧
      ∃ d dp' t, unwDecode s.area dp s.parse.sr.inBody = .ok (d, dp') ∧
        d.qualifier = some (qp, t) ∧ s.parse.sr.AsksFor qp t
  | .ops _ (op :: _) _ => op.qp = qp ∧ s.parse.sr.AsksFor qp (op.when.signExtend 64)
  | _ => False

/-- The predicates that it looks at are the same in other predicates. -/
def SameAsked (s : Building) (v : Word 64) : Prop :=
  ∀ qp, s.Asks qp → (HasPredicate s.parse.sr.prVal qp ↔ HasPredicate v qp)

section Steps

variable {v pr : Word 64} {s : Building} {sr : StateRecord} {op : DynOp 64}

theorem updateRegInfo_mapped (memory : Bool) (saved : Where) (when : Int) (val : Word 64) :
    (sr.withPr v).updateRegInfo op memory saved when val =
      (sr.updateRegInfo op memory saved when val).withPr v := by
  rw [StateRecord.updateRegInfo, StateRecord.updateRegInfo]
  split
  · rfl
  · rfl

theorem opEffect_mapped (when : Int) :
    (sr.withPr v).opEffect op when = (sr.opEffect op when).withPr v := by
  rw [StateRecord.opEffect, StateRecord.opEffect]
  split
  · refine ite_mapped (OpEffect.withPr v) (updateRegInfo_mapped ..) ?_
    refine ite_mapped (OpEffect.withPr v) (updateRegInfo_mapped ..) ?_
    exact ite_mapped (OpEffect.withPr v) (updateRegInfo_mapped ..) rfl
  · exact updateRegInfo_mapped ..
  · exact updateRegInfo_mapped ..
  · exact ite_mapped (OpEffect.withPr v) (ite_mapped (OpEffect.withPr v) rfl rfl) rfl
  all_goals rfl

theorem takeOp_mapped (same : sr.AsksFor op.qp (op.when.signExtend 64) →
      (HasPredicate sr.prVal op.qp ↔ HasPredicate v op.qp)) :
    (sr.withPr v).takeOp op =
      Prod.map (StateRecord.withPr v) (OpEffect.withPr v) (sr.takeOp op) := by
  rw [StateRecord.takeOp, StateRecord.takeOp, descIsActive_mapped same]
  exact congrArg (Prod.mk _) (ite_mapped (OpEffect.withPr v) (opEffect_mapped _) rfl)

theorem create_mapped (ip : Word 64) (proc : FetchedProc) :
    create v ip proc (s.withPr v) = (create pr ip proc s).withPr v := by
  rw [create, create]
  cases proc.unwind with
  | null | table _ | dynamic _ _ | otherFormat => rfl

theorem nextDescriptor_mapped {dp : Int} (isControl : s.control = .descriptors dp)
    (same : s.SameAsked v) :
    (s.withPr v).nextDescriptor dp = (s.nextDescriptor dp).map (Building.withPr v) := by
  rw [nextDescriptor, nextDescriptor]
  by_cases goesOn : Parsing.goesOn s.area ⟨dp, s.parse⟩ = true
  · have goesOn' : Parsing.goesOn (s.withPr v).area ⟨dp, (s.withPr v).parse⟩ = true := goesOn
    rw [if_pos goesOn, if_pos goesOn']
    refine bind_mapped (f := fun p => ⟨p.dp, p.parse.withPr v⟩) (bind_same fun found decoded => ?_)
      fun _ _ => rfl
    obtain ⟨d, dp'⟩ := found
    refine bind_mapped (perform_mapped s.area dp' d fun qp t qualifier asks => same qp ?_)
      fun _ _ => rfl
    rw [Asks, isControl]
    exact ⟨goesOn, d, dp', t, decoded, qualifier, asks⟩
  · have goesOn' : ¬Parsing.goesOn (s.withPr v).area ⟨dp, (s.withPr v).parse⟩ = true := goesOn
    rw [if_neg goesOn, if_neg goesOn']
    rfl

theorem nextRegion_mapped (length : Word 64) (regions : List (DynRegionInfo 64)) :
    (s.withPr v).nextRegion length regions =
      (s.nextRegion length regions).map (Building.withPr v) := by
  cases regions with
  | nil => rfl
  | cons r rest =>
      refine ite_mapped (Except.map (Building.withPr v)) rfl ?_
      have atRegion : atRegion length r.insnCount.toInt (s.parse.sr.withPr v) =
          (Building.atRegion length r.insnCount.toInt s.parse.sr).withPr v :=
        ite_mapped (StateRecord.withPr v) rfl rfl
      refine bind_mapped (f := Parse.withPr v) ?_ fun parse _ => rfl
      change Parse.descPrologue _ ⟨Building.atRegion _ _ (s.parse.sr.withPr v), _⟩ _ _ _ _ = _
      rw [atRegion]
      exact descPrologue_mapped v
        ⟨Building.atRegion length r.insnCount.toInt s.parse.sr, s.parse.pools⟩ ..

theorem nextOp_mapped {length : Word 64} {ops : List (DynOp 64)} {rest : List (DynRegionInfo 64)}
    (isControl : s.control = .ops length ops rest) (same : s.SameAsked v)
    (answer : Except UnwError FetchedProc) :
    (s.withPr v).nextOp v answer length rest ops =
      (s.nextOp pr answer length rest ops).map (Building.withPr v) := by
  cases ops with
  | nil => rfl
  | cons op ops =>
      rw [nextOp, nextOp]
      refine ite_mapped (Except.map (Building.withPr v)) rfl ?_
      have taken : (s.withPr v).parse.sr.takeOp op = _ := takeOp_mapped fun asks => same op.qp (by
        rw [Asks, isControl]
        exact ⟨rfl, asks⟩)
      rw [taken]
      generalize s.parse.sr.takeOp op = both
      obtain ⟨sr, effect⟩ := both
      cases effect with
      | regs | stop | reject => rfl
      | labelState label =>
          exact bind_mapped (descLabelState_mapped v ⟨sr, s.parse.pools⟩ label) fun _ _ => rfl
      | copyState label =>
          exact bind_mapped (descCopyState_mapped v ⟨sr, s.parse.pools⟩ label) fun _ _ => rfl
      | «alias» =>
          cases answer with
          | error code => rfl
          | ok proc =>
              let called : Building := { s with
                parse := ⟨sr, s.parse.pools⟩
                control := .ops length ops rest
                callers := ⟨sr, op, length, rest⟩ :: s.callers }
              exact congrArg Except.ok (create_mapped (s := called) (sr.aliasIp op) proc)

theorem finish_mapped : (sr.withPr v).finish = sr.finish.withPr v := by
  rw [StateRecord.finish, StateRecord.finish]
  have restored : (if (sr.withPr v).whenSpRestored < (sr.withPr v).whenTarget then
      (sr.withPr v).restoreSp else sr.withPr v) =
        (if sr.whenSpRestored < sr.whenTarget then sr.restoreSp else sr).withPr v :=
    ite_mapped (StateRecord.withPr v) rfl rfl
  rw [restored]
  exact ite_mapped (StateRecord.withPr v) rfl rfl

theorem buildScript_mapped : buildScript (sr.withPr v) = buildScript sr := rfl

theorem created_mapped : (s.withPr v).created = s.created.map (Building.withPr v) := by
  have callers : (s.withPr v).callers = s.callers.map (·.withPr v) := rfl
  rw [created, created, callers]
  cases isCallers : s.callers with
  | nil =>
      refine bind_mapped (freeStateRecord_mapped v s.parse) fun parse _ => congrArg Except.ok ?_
      rw [Building.withPr, Building.withPr, isCallers]
      rfl
  | cons call callers =>
      exact bind_mapped (freeStateRecord_mapped v
        ⟨s.parse.sr.inRegionOf call.origSr call.op.when.toInt, s.parse.pools⟩) fun parse _ => rfl

theorem step_mapped (same : s.SameAsked v) (answer : Except UnwError FetchedProc) :
    (s.withPr v).step v answer = (s.step pr answer).map (Building.withPr v) := by
  have control : (s.withPr v).control = s.control := rfl
  rw [step, step, control]
  cases isControl : s.control with
  | descriptors dp => exact nextDescriptor_mapped isControl same
  | regions length rest => exact nextRegion_mapped length rest
  | ops length ops rest => exact nextOp_mapped isControl same answer
  | finish =>
      refine congrArg Except.ok ?_
      rw [Building.withPr]
      dsimp only [Parse.withPr]
      rw [finish_mapped]
      rfl
  | created => exact created_mapped
  | returned ret => rfl

theorem nextAlias_mapped (same : s.SameAsked v) : (s.withPr v).nextAlias = s.nextAlias := by
  have control : (s.withPr v).control = s.control := rfl
  rw [nextAlias, nextAlias, control]
  split
  case h_1 length op ops rest isControl =>
    have taken : (s.withPr v).parse.sr.takeOp op = _ := takeOp_mapped fun asks => same op.qp (by
      rw [Asks, isControl]
      exact ⟨rfl, asks⟩)
    rw [taken]
    generalize s.parse.sr.takeOp op = both
    obtain ⟨sr, effect⟩ := both
    cases effect with
    | regs | labelState | copyState | «alias» | stop | reject => rfl
  case h_2 => rfl

end Steps

end Building

namespace ScriptBuild

variable {sources : ProcSources} {v pr : Word 64} {s : ScriptBuild}

variable (sources pr) in
theorem step_mapped (same : s.building.SameAsked v) :
    (s.withPr v).step sources v = (s.step sources pr).map (ScriptBuild.withPr v) := by
  have nextAlias : (s.withPr v).building.nextAlias = s.building.nextAlias :=
    Building.nextAlias_mapped same
  rw [step, step, nextAlias]
  split
  · exact bind_mapped (Building.step_mapped same _) fun building _ => rfl
  · have control : (s.withPr v).building.control = s.building.control := rfl
    refine bind_mapped (Building.step_mapped same _) fun building _ => ?_
    rw [control]
    split
    · rfl
    · rfl

/-- The states that the building of a script comes to. -/
inductive Reaches (sources : ProcSources) (pr : Word 64) (s : ScriptBuild) : ScriptBuild → Prop where
  | start : Reaches sources pr s s
  | step {t t' : ScriptBuild} : Reaches sources pr s t → t.step sources pr = .ok t' →
      Reaches sources pr s t'

theorem Reaches.after {t t' : ScriptBuild} (first : s.step sources pr = .ok t)
    (more : Reaches sources pr t t') : Reaches sources pr s t' := by
  induction more with
  | start => exact .step .start first
  | step _ stepped ih => exact .step ih stepped

/-- With other predicates, a script is built in the same way, if they are the same as far as they are
    asked for. -/
theorem run_mapped {rounds : Nat}
    (same : ∀ t, Reaches sources pr s t → t.building.SameAsked v) :
    run sources v rounds (s.withPr v) = run sources pr rounds s := by
  induction rounds generalizing s with
  | zero => rfl
  | succ rounds ih =>
      have control : (s.withPr v).building.control = s.building.control := rfl
      rw [run, run, control]
      split
      · rfl
      · rfl
      · rw [step_mapped sources pr (same s .start)]
        cases stepped : s.step sources pr with
        | error e => rfl
        | ok next => exact ih fun t reached => same t (reached.after stepped)

/-- All state records have the predicates that the script is built for. -/
theorem Reaches.withPr_eq {t : ScriptBuild} (reached : Reaches sources pr s t)
    (isStart : s.withPr pr = s) : t.withPr pr = t := by
  induction reached with
  | start => exact isStart
  | @step t t' _ stepped same =>
      have prVal : pr = t.building.parse.sr.prVal :=
        congrArg (fun t : ScriptBuild => t.building.parse.sr.prVal) same
      have mapped := step_mapped sources pr (s := t) (v := pr) fun qp _ => by
        rw [← prVal]
      rw [same, stepped] at mapped
      exact (Except.ok.inj mapped).symm

theorem start_mapped (memory : Nat → Bool) (ip : Word 64) (pi : UnwProcInfo) (dynamic : Bool) :
    (start memory ip pr pi dynamic).withPr v = start memory ip v pi dynamic := by
  let before : Building := ⟨⟨.initial 0 pr, .granting memory⟩, [], .created, []⟩
  have created : Building.create v ip pi.fetched (before.withPr v) =
      (Building.create pr ip pi.fetched before).withPr v := Building.create_mapped ..
  exact congrArg (fun b => (⟨b, pi, dynamic⟩ : ScriptBuild)) created.symm

/-- The predicates that are asked for while a script is built are the same. -/
def SamePredicates (sources : ProcSources) (s : ScriptBuild) (pr v : Word 64) : Prop :=
  ∀ t, Reaches sources pr s t → ∀ qp, t.building.Asks qp → (HasPredicate pr qp ↔ HasPredicate v qp)

/-- A script depends on the predicates that are asked for, and on no others. -/
theorem run_samePredicates {memory : Nat → Bool} {ip : Word 64} {pi : UnwProcInfo} {dynamic : Bool}
    (same : SamePredicates sources (start memory ip pr pi dynamic) pr v) (rounds : Nat) :
    run sources v rounds (start memory ip v pi dynamic) =
      run sources pr rounds (start memory ip pr pi dynamic) := by
  have started : start memory ip v pi dynamic = (start memory ip pr pi dynamic).withPr v :=
    (start_mapped ..).symm
  rw [started]
  refine run_mapped fun t reached qp asks => ?_
  have prVal : pr = t.building.parse.sr.prVal :=
    congrArg (fun t : ScriptBuild => t.building.parse.sr.prVal) (reached.withPr_eq (start_mapped ..))
  rw [← prVal]
  exact same t reached qp asks

end ScriptBuild

end Libunwind.Ia64
