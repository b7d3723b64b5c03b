import Libunwind.Ia64.ScriptContents
import Libunwind.Ia64.StepOutcomes

/-! # The scripts of a cache

A script that has instructions is what would be built again, for the predicates that it was built for;
one that has none has the proc info of its instruction pointer. The routines of the cache keep this.
-/

namespace Libunwind.Ia64

open ScriptCache

section Scripts

variable (tables : UnwindTables) (memory : Nat → Bool)

/-! ## What the scripts are -/

/-- A script with instructions is what was built for its instruction pointer and its predicates. -/
def Script.BuiltAs (script : Script) (body : ScriptBody) : Prop :=
  ∃ pi dynamic rounds prMask dynamic', tables.lookUp script.ip true = (.ok pi, dynamic) ∧
    ScriptBuild.run tables.toProcSources script.prVal rounds
      (.start memory script.ip script.prVal pi dynamic) =
        .ok (.ok ⟨body.insns, script.abiMarker, prMask⟩, body.pi, dynamic')

/-- One without instructions has the proc info of its instruction pointer. -/
def Script.HasProc (script : Script) (body : ScriptBody) : Prop :=
  ∃ pi dynamic, tables.lookUp script.ip false = (.ok pi, dynamic) ∧ pi.members = body.pi.members

def Script.IsRight (script : Script) (body : ScriptBody) : Prop :=
  if script.count = 0 then script.HasProc tables body else script.BuiltAs tables memory body

/-- Scripts that are `settled` are right, unless they are for no procedure. -/
structure ScriptsRight (settled : BitVec 16 → Prop) (use : ScriptUse)
    (body : BitVec 16 → ScriptBody) : Prop where
  inv : use.Invariant
  nonzero : ∀ made ∈ use.made, made.2 ≠ 0
  scripts : ∀ i, settled i → (use.cache.buckets i).ip ≠ 0 →
    (use.cache.buckets i).IsRight tables memory (body i)

/-- Scripts stay as they are but for their links and hints. -/
structure KeepsScripts (use use' : ScriptUse) : Prop where
  inv : use'.Invariant
  made : use'.made = use.made
  contents : SameContents use.cache use'.cache

variable {tables memory} {settled : BitVec 16 → Prop} {use use' : ScriptUse}
  {body : BitVec 16 → ScriptBody} {i : BitVec 16}

theorem Script.isRight_congr {script script' : Script} {body : ScriptBody}
    (same : script'.contents = script.contents) (isRight : script.IsRight tables memory body) :
    script'.IsRight tables memory body := by
  obtain ⟨ip, -, prVal, count, abiMarker⟩ := Script.contents_eq_iff.mp same
  unfold IsRight HasProc BuiltAs at *
  rwa [ip, prVal, count, abiMarker]

theorem KeepsScripts.trans {use'' : ScriptUse} (first : KeepsScripts use use')
    (second : KeepsScripts use' use'') : KeepsScripts use use'' :=
  ⟨second.inv, second.made.trans first.made, first.contents.trans second.contents⟩

theorem ScriptsRight.kept (right : ScriptsRight tables memory settled use body)
    (keeps : KeepsScripts use use') : ScriptsRight tables memory settled use' body where
  inv := keeps.inv
  nonzero := by
    rw [keeps.made]
    exact right.nonzero
  scripts i isSettled nonzero := by
    have same := keeps.contents i
    refine Script.isRight_congr same (right.scripts i isSettled ?_)
    rwa [← (Script.contents_eq_iff.mp same).1]

theorem ScriptsRight.weaken {settled' : BitVec 16 → Prop}
    (right : ScriptsRight tables memory settled use body) (fewer : ∀ i, settled' i → settled i) :
    ScriptsRight tables memory settled' use body :=
  ⟨right.inv, right.nonzero, fun i isSettled => right.scripts i (fewer i isSettled)⟩

/-- The last script that is not settled becomes so. -/
theorem ScriptsRight.settle {body' : BitVec 16 → ScriptBody}
    (right : ScriptsRight tables memory (· ≠ i) use body) (same : ∀ j, j ≠ i → body' j = body j)
    (isRight : (use.cache.buckets i).IsRight tables memory (body' i)) :
    ScriptsRight tables memory (fun _ => True) use body' where
  inv := right.inv
  nonzero := right.nonzero
  scripts j _ nonzero := by
    by_cases here : j = i
    · subst here
      exact isRight
    · rw [same j here]
      exact right.scripts j here nonzero

theorem reusesNonzero (right : ScriptsRight tables memory settled use body) : use.ReusesNonzero :=
  fun made isMade => right.nonzero made (List.mem_of_getElem? isMade)

end Scripts

/-! ## The routines of the cache -/

namespace Cursors

variable (cursors : Cursors) (k : Nat) (c c' : Cursor)

@[simp] theorem load_store : (cursors.store k c).load k = c := by
  simp only [load, store, Function.update_self]

@[simp] theorem store_store : (cursors.store k c).store k c' = cursors.store k c' := by
  simp only [store, Function.update_idem]

end Cursors

section Routines

variable {s : Cached} {k : Nat} {i : BitVec 16}

/-- What `script_lookup` finds for a cursor. -/
def Cached.entry (s : Cached) (k : Nat) : Option (BitVec 16) :=
  let c := s.cursors.load k
  match s.use.cache.scriptLookup (s.use.cursors k) c.frame.ip c.frame.pr with
  | .ok (found, _) => found
  | .error _ => none

theorem lookUpScript_outcome (inv : s.use.Invariant) : ∃ use',
    (lookUpScript k).outcome s = (.ok (s.entry k), { s with use := use' }) ∧
      KeepsScripts s.use use' ∧ ∀ i ∈ s.entry k, IsBucket i ∧
        (s.use.cache.buckets i).ip = (s.cursors.load k).frame.ip := by
  obtain ⟨found, cache, c, looked, buckets, inv'⟩ :=
    inv.lookup k (s.cursors.load k).frame.ip (s.cursors.load k).frame.pr
  have entry : s.entry k = found := by
    simp only [Cached.entry, looked]
  obtain ⟨contents, isMatch⟩ := scriptLookup_contents looked
  rw [entry]
  refine ⟨_, ?_, ⟨inv', rfl, contents⟩, fun i isFound => ⟨buckets i isFound, ?_⟩⟩
  · rw [lookUpScript, Routine.outcome_bind_ok (Routine.outcome_get s)]
    dsimp only
    rw [looked, Routine.outcome_bind_ok (Routine.outcome_given _ _)]
    dsimp only
    rw [Routine.outcome_bind_ok (Routine.outcome_set _ _), Routine.outcome_pure]
  · have same := isMatch i isFound
    rw [cacheMatch, Bool.and_eq_true, beq_iff_eq] at same
    exact same.1.symm

theorem followTo_outcome (inv : s.use.Invariant) (isBucket : IsBucket i) : ∃ use',
    (followTo k i).outcome s = (.ok (), { s with use := use' }) ∧ KeepsScripts s.use use' := by
  obtain ⟨cache, c, followed⟩ :
      ∃ cache c, s.use.cache.followScript (s.use.cursors k) i = .ok (cache, c) := by
    simp only [ScriptCache.followScript, bucket_eq (inv.2.prevScript k), ok_bind, bucket_eq isBucket]
    exact ⟨_, _, rfl⟩
  refine ⟨_, ?_, inv.follow k isBucket followed, rfl, followScript_contents followed⟩
  rw [followTo, Routine.outcome_bind_ok (Routine.outcome_get s), followed,
    Routine.outcome_bind_ok (Routine.outcome_given _ _)]
  dsimp only
  rw [Routine.outcome_set]

theorem theScript_outcome (isBucket : IsBucket i) :
    (theScript i).outcome s = (.ok (s.use.cache.buckets i, s.body i), s) := by
  rw [theScript, Routine.outcome_bind_ok (Routine.outcome_get s), bucket_eq isBucket,
    Routine.outcome_bind_ok (Routine.outcome_given _ _), Routine.outcome_pure]

theorem theCursor_outcome : (theCursor k).outcome s = (.ok (s.cursors.load k), s) := rfl

theorem onCursor_outcome {α : Type} (routine : CursorRoutine α) :
    (onCursor k routine).outcome s =
      ((routine.outcome (s.cursors.load k)).1,
        { s with cursors := s.cursors.store k (routine.outcome (s.cursors.load k)).2 }) := rfl

variable {tables : UnwindTables} {memory : Nat → Bool}

/-- A new script is not settled; it has the instruction pointer that it was made for, and no
    instructions. -/
theorem newScript_outcome {ip : Word 64} (nonzero : ip ≠ 0)
    (right : ScriptsRight tables memory (fun _ => True) s.use s.body) : ∃ i use',
      (newScript ip).outcome s = (.ok i, { s with use := use' }) ∧ IsBucket i ∧
        ScriptsRight tables memory (· ≠ i) use' s.body ∧
        (use'.cache.buckets i).ip = ip ∧ (use'.cache.buckets i).count = 0 := by
  obtain ⟨cache, made, inv'⟩ := right.inv.new (reusesNonzero right) ip
  obtain ⟨contents, isNew⟩ := scriptNew_contents made
  obtain ⟨fresh, ordered⟩ := right.inv.1
  refine ⟨_, s.use.afterNew s.use.cache.lruHead ip cache, ?_, ordered.head_isBucket, ?_, isNew⟩
  · rw [newScript, Routine.outcome_bind_ok (Routine.outcome_get s), made,
      Routine.outcome_bind_ok (Routine.outcome_given _ _)]
    dsimp only
    rw [Routine.outcome_bind_ok (Routine.outcome_set _ _), Routine.outcome_pure]
  · refine ⟨inv', fun made isMade => ?_, fun j other isIp => ?_⟩
    · rcases List.mem_cons.mp isMade with rfl | isOld
      · exact nonzero
      · exact right.nonzero made isOld
    · have same := contents j other
      have sameIp : (cache.buckets j).ip = (s.use.cache.buckets j).ip :=
        (Script.contents_eq_iff.mp same).1
      refine Script.isRight_congr same (right.scripts j True.intro ?_)
      rw [← sameIp]
      exact isIp

/-- A bucket that keeps its links, its hint and its instruction pointer. -/
theorem setBucket_invariant {use : ScriptUse} (inv : use.Invariant) {script : Script}
    (isBucket : IsBucket i) (lruChain : script.lruChain = (use.cache.buckets i).lruChain)
    (collChain : script.collChain = (use.cache.buckets i).collChain)
    (hint : script.hint = (use.cache.buckets i).hint) (ip : script.ip = (use.cache.buckets i).ip) :
    { use with cache := use.cache.setBucket i script }.Invariant := by
  obtain ⟨⟨fresh, ordered⟩, hints⟩ := inv
  refine ⟨⟨fresh, ordered.setBucket collChain lruChain ip⟩, hints.setBucket ?_, hints.hint,
    hints.prevScript⟩
  rw [hint]
  exact hints.buckets i isBucket

/-- The script of a build that has returned becomes right. -/
theorem storeScript_outcome {c : Cursor} (isCursor : s.cursors.load k = c)
    (right : ScriptsRight tables memory (· ≠ i) s.use s.body)
    (isBucket : IsBucket i) (ip : (s.use.cache.buckets i).ip = c.frame.ip)
    {rounds : Nat} {pi : UnwProcInfo} {dynamic dynamic' : Bool} {built : Built}
    (found : tables.lookUp c.frame.ip true = (.ok pi, dynamic))
    (returned : ScriptBuild.run tables.toProcSources c.frame.pr rounds
      (.start memory c.frame.ip c.frame.pr pi dynamic) = .ok (.ok built, c.pi, dynamic'))
    (notEmpty : built.insns ≠ []) : ∃ use' body',
      (storeScript k i built).outcome s = (.ok (), ⟨use', body', s.cursors⟩) ∧
        ScriptsRight tables memory (fun _ => True) use' body' ∧
        (use'.cache.buckets i).abiMarker = built.abiMarker ∧ body' i = ⟨c.pi, built.insns⟩ := by
  subst isCursor
  let script : Script := { s.use.cache.buckets i with
    prMask := built.prMask
    prVal := (s.cursors.load k).frame.pr
    count := BitVec.ofNat 16 built.insns.length
    abiMarker := built.abiMarker }
  have few : built.insns.length < 46 := ScriptBuild.run_fits (ScriptBuild.start_fits _ _ _ _) returned
  have full : script.count ≠ 0 := by
    intro none
    have length := congrArg BitVec.toNat none
    change (BitVec.ofNat 16 built.insns.length).toNat = 0 at length
    rw [BitVec.toNat_ofNat, Nat.mod_eq_of_lt (by omega), List.length_eq_zero_iff] at length
    exact notEmpty length
  have stored : (s.use.cache.setBucket i script).buckets i = script := Function.update_self ..
  refine ⟨{ s.use with cache := s.use.cache.setBucket i script },
    Function.update s.body i ⟨(s.cursors.load k).pi, built.insns⟩, ?_, ?_, ?_,
    Function.update_self ..⟩
  · rw [storeScript, Routine.outcome_bind_ok theCursor_outcome,
      Routine.outcome_bind_ok (theScript_outcome isBucket)]
    rfl
  · have others : ScriptsRight tables memory (· ≠ i)
        { s.use with cache := s.use.cache.setBucket i script } s.body := by
      refine ⟨setBucket_invariant right.inv isBucket rfl rfl rfl rfl, right.nonzero,
        fun j other isIp => ?_⟩
      simp only [setBucket, Function.update_of_ne other] at isIp ⊢
      exact right.scripts j other isIp
    refine others.settle (fun j other => Function.update_of_ne other ..) ?_
    dsimp only
    rw [stored, Function.update_self, Script.IsRight, if_neg full]
    refine ⟨pi, dynamic, rounds, built.prMask, dynamic', ?_, ?_⟩
    · change tables.lookUp (s.use.cache.buckets i).ip true = _
      rw [ip, found]
    · change ScriptBuild.run _ _ rounds (.start memory (s.use.cache.buckets i).ip _ pi dynamic) = _
      rw [ip]
      exact returned
  · dsimp only
    rw [stored]

end Routines

/-! ## Steps with the cache -/

section Steps

variable {tables : UnwindTables} {memory : Nat → Bool} {rounds : Nat} {target : Target} {s : Cached}
  {k : Nat} {i : BitVec 16} {pi pi' : UnwProcInfo} {dynamic dynamic' : Bool} {built : Built}

/-- Two routines on a cursor, one after the other. -/
theorem andThen_onCursor {α β : Type} (first : CursorRoutine α) (rest : α → CursorRoutine β) :
    Routine.andThen ((onCursor k first).outcome s) (fun a s => (onCursor k (rest a)).outcome s) =
      (onCursor k (first >>= rest)).outcome s := by
  rw [onCursor_outcome, onCursor_outcome, Routine.outcome_bind]
  rcases first.outcome (s.cursors.load k) with ⟨e | a, c⟩
  · rfl
  · rw [Routine.andThen_ok, Routine.andThen_ok, onCursor_outcome, Cursors.load_store,
      Cursors.store_store]

/-- A script that has instructions is run as it is. -/
theorem finishStored (isBucket : IsBucket i) :
    Routine.andThen ((runStoredScript target k i).outcome s)
        (fun _ s => (onCursor k (finishStep target)).outcome s) =
      (onCursor k (completeStep target (s.body i).pi (s.use.cache.buckets i).abiMarker
        (s.body i).insns)).outcome s := by
  rw [runStoredScript, Routine.outcome_bind_ok (theScript_outcome isBucket)]
  exact andThen_onCursor (runScriptFor target _ _ _) fun _ => finishStep target

variable (tables memory rounds) in
theorem completeScript_full (isBucket : IsBucket i) (full : (s.use.cache.buckets i).count ≠ 0) :
    (completeScript tables.toProcSources memory rounds k i).outcome s = (.ok (), s) := by
  rw [completeScript, Routine.outcome_bind_ok (theScript_outcome isBucket)]
  dsimp only
  rw [if_neg full, Routine.outcome_pure]

theorem completeScript_stuck (isBucket : IsBucket i) (empty : (s.use.cache.buckets i).count = 0)
    (valid : (s.cursors.load k).piValid = true) {e : Fault} (undefined : ∀ code, e ≠ .err code)
    (failed : (s.cursors.load k).build tables.toProcSources memory rounds = .error e) :
    (completeScript tables.toProcSources memory rounds k i).outcome s =
      (.error e, { s with cursors := s.cursors.store k (s.cursors.load k) }) := by
  rw [completeScript, Routine.outcome_bind_ok (theScript_outcome isBucket)]
  dsimp only
  rw [if_pos empty, buildInCache]
  refine Routine.outcome_bind_error ?_
  rw [onCursor_outcome, buildAsserted, Routine.outcome_ofOutcome, buildScriptFor_failed valid failed]
  cases e with
  | err code => exact absurd rfl (undefined code)
  | undefined => rfl
  | timeout => rfl

/-- A script that is built is right, and is the one that is run. -/
theorem completeScript_built (right : ScriptsRight tables memory (· ≠ i) s.use s.body)
    (isBucket : IsBucket i) (ip : (s.use.cache.buckets i).ip = (s.cursors.load k).frame.ip)
    (empty : (s.use.cache.buckets i).count = 0) (valid : (s.cursors.load k).piValid = true)
    (found : tables.lookUp (s.cursors.load k).frame.ip true =
      (.ok (s.cursors.load k).pi, (s.cursors.load k).piIsDynamic))
    (returned : (s.cursors.load k).build tables.toProcSources memory rounds =
      .ok (.ok built, pi', dynamic'))
    (notEmpty : built.insns ≠ []) : ∃ use' body',
      (completeScript tables.toProcSources memory rounds k i).outcome s =
        (.ok (), ⟨use', body', s.cursors.store k ((s.cursors.load k).fetched pi' dynamic')⟩) ∧
        ScriptsRight tables memory (fun _ => True) use' body' ∧
        (use'.cache.buckets i).abiMarker = built.abiMarker ∧ body' i = ⟨pi', built.insns⟩ := by
  have onBuilt : (onCursor k (buildAsserted tables.toProcSources memory rounds)).outcome s = (.ok built,
      { s with cursors := s.cursors.store k ((s.cursors.load k).fetched pi' dynamic') }) := by
    rw [onCursor_outcome, buildAsserted, Routine.outcome_ofOutcome,
      buildScriptFor_returned valid returned]
    rfl
  obtain ⟨use', body', stored, right', marker, body⟩ := storeScript_outcome
    (s := { s with cursors := s.cursors.store k ((s.cursors.load k).fetched pi' dynamic') })
    (c := (s.cursors.load k).fetched pi' dynamic') (Cursors.load_store ..) right isBucket ip found
    returned notEmpty
  refine ⟨use', body', ?_, right', marker, body⟩
  rw [completeScript, Routine.outcome_bind_ok (theScript_outcome isBucket)]
  dsimp only
  rw [if_pos empty, buildInCache, Routine.outcome_bind_ok onBuilt, Routine.outcome_bind_ok stored,
    if_neg notEmpty, Routine.outcome_pure]

end Steps

/-! ## Coming to a script -/

section Scripted

variable {tables : UnwindTables} {memory : Nat → Bool} {s s' : Cached} {k : Nat} {i : BitVec 16}
  {pi : UnwProcInfo} {dynamic : Bool} {code : UnwError}

/-- A script has yet to be built, from proc info that is looked up or is that of the cursor. -/
def Cached.Unbuilt (tables : UnwindTables) (s : Cached) (k : Nat) : Prop :=
  ∀ i ∈ s.entry k, (s.use.cache.buckets i).count = 0 ∧ ((s.body i).pi.hasUnwind = true →
    (s.cursors.load k).piValid = true ∧ tables.lookUp (s.cursors.load k).frame.ip true =
      (.ok (s.cursors.load k).pi, (s.cursors.load k).piIsDynamic))

/-- A script is to be built from this proc info. -/
structure ReadyToBuild (tables : UnwindTables) (memory : Nat → Bool) (k : Nat) (s : Cached)
    (i : BitVec 16) (pi : UnwProcInfo) (dynamic : Bool) (s' : Cached) : Prop where
  right : ScriptsRight tables memory (· ≠ i) s'.use s'.body
  isBucket : IsBucket i
  ip : (s'.use.cache.buckets i).ip = (s'.cursors.load k).frame.ip
  empty : (s'.use.cache.buckets i).count = 0
  valid : (s'.cursors.load k).piValid = true
  hasPi : (s'.cursors.load k).pi = pi
  isDynamic : (s'.cursors.load k).piIsDynamic = dynamic
  frame : (s'.cursors.load k).frame = { (s.cursors.load k).frame with pi := pi.members }
  store : ∀ c, s'.cursors.store k c = s.cursors.store k c

theorem fetchForScript_none : (fetchForScript tables.toProcSources k none).outcome s =
    (onCursor k (fetchProcInfo tables.toProcSources (s.cursors.load k).frame.ip true)).outcome s := by
  rw [fetchForScript, Routine.outcome_bind_ok theCursor_outcome]

variable (tables) in
theorem fetchForScript_some (isBucket : IsBucket i) :
    (fetchForScript tables.toProcSources k (some i)).outcome s =
      if (s.use.cache.buckets i).count = 0 ∧ ¬(s.body i).pi.hasUnwind = true then
        (onCursor k (fetchProcInfo tables.toProcSources (s.cursors.load k).frame.ip true)).outcome s
      else (.ok (), s) := by
  rw [fetchForScript, Routine.outcome_bind_ok theCursor_outcome]
  dsimp only
  rw [Routine.outcome_bind_ok (theScript_outcome isBucket)]
  dsimp only
  rw [Routine.outcome_ite, Routine.outcome_pure]

variable (tables) in
theorem scriptFor_full (inv : s.use.Invariant) (isEntry : s.entry k = some i)
    (full : (s.use.cache.buckets i).count ≠ 0) : ∃ use',
      (scriptFor tables.toProcSources k).outcome s = (.ok i, { s with use := use' }) ∧
        KeepsScripts s.use use' ∧ IsBucket i := by
  obtain ⟨use₁, looked, keeps, isFound⟩ := lookUpScript_outcome (k := k) inv
  rw [isEntry] at looked
  obtain ⟨isBucket, -⟩ := isFound i isEntry
  have full₁ : (use₁.cache.buckets i).count ≠ 0 := by
    rw [(Script.contents_eq_iff.mp (keeps.contents i)).2.2.2.1]
    exact full
  obtain ⟨use₂, followed, keeps'⟩ :=
    followTo_outcome (s := { s with use := use₁ }) (k := k) keeps.inv isBucket
  refine ⟨use₂, ?_, keeps.trans keeps', isBucket⟩
  have fetched := fetchForScript_some tables (s := { s with use := use₁ }) (k := k) isBucket
  rw [if_neg fun needed => full₁ needed.1] at fetched
  rw [scriptFor, Routine.outcome_bind_ok looked, Routine.outcome_bind_ok fetched, theOrNewScript,
    Routine.outcome_bind_ok (Routine.outcome_pure ..), Routine.outcome_bind_ok followed,
    Routine.outcome_pure]

/-- Whether proc info is looked up for a script that has yet to be built. -/
theorem fetchForScript_cases (unbuilt : s.Unbuilt tables k) {use' : ScriptUse}
    (keeps : KeepsScripts s.use use') (buckets : ∀ i ∈ s.entry k, IsBucket i) :
    (fetchForScript tables.toProcSources k (s.entry k)).outcome { s with use := use' } =
        (onCursor k (fetchProcInfo tables.toProcSources (s.cursors.load k).frame.ip true)).outcome
          { s with use := use' } ∨
      (fetchForScript tables.toProcSources k (s.entry k)).outcome { s with use := use' } =
        (.ok (), { s with use := use' }) ∧ (s.cursors.load k).piValid = true ∧
        tables.lookUp (s.cursors.load k).frame.ip true =
          (.ok (s.cursors.load k).pi, (s.cursors.load k).piIsDynamic) := by
  cases isEntry : s.entry k with
  | none => exact .inl fetchForScript_none
  | some i =>
      obtain ⟨empty, isCursors⟩ := unbuilt i isEntry
      rw [fetchForScript_some tables (buckets i isEntry)]
      have empty' : (use'.cache.buckets i).count = 0 := by
        rw [(Script.contents_eq_iff.mp (keeps.contents i)).2.2.2.1]
        exact empty
      by_cases hasUnwind : (s.body i).pi.hasUnwind = true
      · rw [if_neg fun needed => needed.2 hasUnwind]
        exact .inr ⟨rfl, isCursors hasUnwind⟩
      · rw [if_pos ⟨empty', hasUnwind⟩]
        exact .inl rfl

theorem scriptFor_failed (inv : s.use.Invariant) (unbuilt : s.Unbuilt tables k)
    (found : tables.lookUp (s.cursors.load k).frame.ip true = (.error code, dynamic)) :
    ∃ use' c, (scriptFor tables.toProcSources k).outcome s =
        (.error (.err code), ⟨use', s.body, s.cursors.store k c⟩) ∧ KeepsScripts s.use use' ∧
      c.frame = { (s.cursors.load k).frame with
        pi := tables.leaves (s.cursors.load k).frame.ip true (s.cursors.load k).frame.pi } := by
  obtain ⟨use', looked, keeps, isFound⟩ := lookUpScript_outcome (k := k) inv
  refine ⟨use', (s.cursors.load k).fetched
    ⟨tables.leaves (s.cursors.load k).frame.ip true (s.cursors.load k).frame.pi,
      tables.leavesUnwind (s.cursors.load k).frame.ip true (s.cursors.load k).unwind⟩ dynamic,
    ?_, keeps, rfl⟩
  rw [scriptFor, Routine.outcome_bind_ok looked]
  refine Routine.outcome_bind_error ?_
  rcases fetchForScript_cases unbuilt keeps fun i isEntry => (isFound i isEntry).1 with
    fetched | ⟨-, -, wasFound⟩
  · rw [fetched, onCursor_outcome, fetchProcInfo_failed (fun _ => rfl) found]
  · rw [found] at wasFound
    cases wasFound

theorem scriptFor_ready (right : ScriptsRight tables memory (fun _ => True) s.use s.body)
    (nonzero : (s.cursors.load k).frame.ip ≠ 0) (unbuilt : s.Unbuilt tables k)
    (found : tables.lookUp (s.cursors.load k).frame.ip true = (.ok pi, dynamic)) :
    ∃ i s', (scriptFor tables.toProcSources k).outcome s = (.ok i, s') ∧
      ReadyToBuild tables memory k s i pi dynamic s' := by
  obtain ⟨use₁, looked, keeps, isFound⟩ := lookUpScript_outcome (k := k) right.inv
  -- after the lookup of the proc info, if there is one
  obtain ⟨cursors, fetched, valid, hasPi, isDynamic, frame, store⟩ : ∃ cursors,
      (fetchForScript tables.toProcSources k (s.entry k)).outcome { s with use := use₁ } =
        (.ok (), ⟨use₁, s.body, cursors⟩) ∧ (cursors.load k).piValid = true ∧
        (cursors.load k).pi = pi ∧ (cursors.load k).piIsDynamic = dynamic ∧
        (cursors.load k).frame = { (s.cursors.load k).frame with pi := pi.members } ∧
        ∀ c, cursors.store k c = s.cursors.store k c := by
    rcases fetchForScript_cases unbuilt keeps fun i isEntry => (isFound i isEntry).1 with
      fetched | ⟨fetched, valid, wasFound⟩
    · rw [onCursor_outcome, fetchProcInfo_found (fun _ => rfl) found] at fetched
      refine ⟨_, fetched, ?_⟩
      dsimp only
      rw [Cursors.load_store]
      exact ⟨rfl, rfl, rfl, rfl, fun c => Cursors.store_store ..⟩
    · rw [found] at wasFound
      cases wasFound
      exact ⟨_, fetched, valid, rfl, rfl, rfl, fun _ => rfl⟩
  have sameIp : (cursors.load k).frame.ip = (s.cursors.load k).frame.ip := by rw [frame]
  -- after the script was made, if there was none
  obtain ⟨i, use₂, isScript, isBucket, right₂, ip, empty⟩ : ∃ i use₂,
      (theOrNewScript k (s.entry k)).outcome ⟨use₁, s.body, cursors⟩ =
        (.ok i, ⟨use₂, s.body, cursors⟩) ∧ IsBucket i ∧
        ScriptsRight tables memory (· ≠ i) use₂ s.body ∧
        (use₂.cache.buckets i).ip = (cursors.load k).frame.ip ∧
        (use₂.cache.buckets i).count = 0 := by
    cases isEntry : s.entry k with
    | none =>
        rw [← sameIp] at nonzero
        obtain ⟨i, use₂, made, isBucket, right₂, ip, empty⟩ :=
          newScript_outcome (s := ⟨use₁, s.body, cursors⟩) nonzero (right.kept keeps)
        refine ⟨i, use₂, ?_, isBucket, right₂, ip, empty⟩
        rw [theOrNewScript, Routine.outcome_bind_ok theCursor_outcome]
        exact made
    | some i =>
        obtain ⟨isBucket, ip⟩ := isFound i isEntry
        have same := Script.contents_eq_iff.mp (keeps.contents i)
        refine ⟨i, use₁, Routine.outcome_pure .., isBucket,
          (right.kept keeps).weaken fun _ _ => True.intro, ?_, ?_⟩
        · rw [same.1, ip, sameIp]
        · rw [same.2.2.2.1]
          exact (unbuilt i isEntry).1
  obtain ⟨use₃, followed, keeps'⟩ :=
    followTo_outcome (s := ⟨use₂, s.body, cursors⟩) (k := k) right₂.inv isBucket
  have same := Script.contents_eq_iff.mp (keeps'.contents i)
  refine ⟨i, ⟨use₃, s.body, cursors⟩, ?_, right₂.kept keeps', isBucket, ?_, ?_, valid, hasPi,
    isDynamic, frame, store⟩
  · rw [scriptFor, Routine.outcome_bind_ok looked, Routine.outcome_bind_ok fetched,
      Routine.outcome_bind_ok isScript, Routine.outcome_bind_ok followed, Routine.outcome_pure]
  · exact same.1.trans ip
  · exact same.2.2.2.1.trans empty

end Scripted

end Libunwind.Ia64
