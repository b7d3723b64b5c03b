import Libunwind.Ia64.CachedScripts
import Libunwind.Library.Run

/-! # When the script cache on ia64 is transparent

Where a script that is found was built for the same predicates, as far as it depends on them, and the
other conditions are met on which the cache relies, calls return the same with the cache as without it,
and leave the same frames.
-/

namespace Libunwind.Ia64

open ScriptCache

/-! ## How a call ends -/

section Ends

variable (tables : UnwindTables) (memory : Nat → Bool)

/-- The routine has done nothing undefined, and has come to an end. -/
def Returned {α : Type} (ret : Result α) : Prop := Defined ret ∧ Ends ret

/-- A call with the cache has returned this, and left this frame; its scripts are right. -/
structure EndsIn (s : Cached) (k : Nat) (ended : Except Fault Nat × Cached)
    (ret : Except Fault Nat × Frame) : Prop where
  returns : ended.1 = ret.1
  leaves : ∃ c, ended.2.cursors = s.cursors.store k c ∧ c.frame = ret.2
  keeps : Returned ended.1 → ScriptsRight tables memory (fun _ => True) ended.2.use ended.2.body

variable {tables memory} {rounds : Nat} {target : Target} {s : Cached} {k : Nat} {i : BitVec 16}
  {pi : UnwProcInfo} {dynamic : Bool} {code : UnwError}

theorem cachedStep_eq : (cachedCall tables.toProcSources memory rounds target k .step).outcome s =
    Routine.andThen ((scriptFor tables.toProcSources k).outcome s) fun i s =>
      Routine.andThen ((completeScript tables.toProcSources memory rounds k i).outcome s) fun _ s =>
        Routine.andThen ((runStoredScript target k i).outcome s) fun _ s =>
          (onCursor k (finishStep target)).outcome s := by
  simp only [cachedCall, findSaveLocs]
  generalize onCursor k (finishStep target) = finish
  simp only [Routine.outcome_bind]
  generalize (scriptFor tables.toProcSources k).outcome s = first
  rcases first with ⟨e | i, s⟩
  · rfl
  rw [Routine.andThen_ok, Routine.andThen_ok]
  generalize (completeScript tables.toProcSources memory rounds k i).outcome s = second
  rcases second with ⟨e | _, s⟩
  · rfl
  · rfl

/-- A step with a script that was found ends as the script has it. -/
theorem cachedStep_full (right : ScriptsRight tables memory (fun _ => True) s.use s.body)
    (isEntry : s.entry k = some i) (full : (s.use.cache.buckets i).count ≠ 0) :
    EndsIn tables memory s k
      ((cachedCall tables.toProcSources memory rounds target k .step).outcome s)
      ((frameStep target (s.body i).pi.members (s.use.cache.buckets i).abiMarker
        (s.body i).insns).outcome (s.cursors.load k).frame) := by
  obtain ⟨use', scripted, keeps, isBucket⟩ :=
    scriptFor_full tables right.inv isEntry full
  have same := Script.contents_eq_iff.mp (keeps.contents i)
  have full' : (use'.cache.buckets i).count ≠ 0 := by
    rw [same.2.2.2.1]
    exact full
  have completed := completeScript_full tables memory rounds
    (s := { s with use := use' }) (k := k) isBucket full'
  rw [cachedStep_eq, scripted, Routine.andThen_ok, completed, Routine.andThen_ok,
    finishStored (s := { s with use := use' }) isBucket, onCursor_outcome]
  dsimp only
  rw [same.2.2.2.2, ← completeStep_frame]
  exact ⟨rfl, ⟨_, rfl, rfl⟩, fun _ => right.kept keeps⟩

/-- Where the proc info of a script is not found, the step fails. -/
theorem cachedStep_failed (right : ScriptsRight tables memory (fun _ => True) s.use s.body)
    (unbuilt : s.Unbuilt tables k)
    (found : tables.lookUp (s.cursors.load k).frame.ip true = (.error code, dynamic)) :
    EndsIn tables memory s k
      ((cachedCall tables.toProcSources memory rounds target k .step).outcome s)
      (.error (.err code), { (s.cursors.load k).frame with
        pi := tables.leaves (s.cursors.load k).frame.ip true (s.cursors.load k).frame.pi }) := by
  obtain ⟨use', c, scripted, keeps, frame⟩ := scriptFor_failed right.inv unbuilt found
  rw [cachedStep_eq, scripted, Routine.andThen_error]
  exact ⟨rfl, ⟨c, rfl, frame⟩, fun _ => right.kept keeps⟩

/-- What is built is the same as without the cache. -/
theorem cachedBuild_eq {s' : Cached} (ready : ReadyToBuild tables memory k s i pi dynamic s') :
    (s'.cursors.load k).build tables.toProcSources memory rounds =
      ((s.cursors.load k).fetched pi dynamic).build tables.toProcSources memory rounds := by
  rw [Cursor.build, Cursor.build, ready.hasPi, ready.isDynamic, ready.frame]
  rfl

/-- Where the build of a script does not return, neither does the step. -/
theorem cachedStep_stuck (right : ScriptsRight tables memory (fun _ => True) s.use s.body)
    (nonzero : (s.cursors.load k).frame.ip ≠ 0) (unbuilt : s.Unbuilt tables k)
    (found : tables.lookUp (s.cursors.load k).frame.ip true = (.ok pi, dynamic)) {e : Fault}
    (stuck : e = .undefined ∨ e = .timeout)
    (failed : ((s.cursors.load k).fetched pi dynamic).build tables.toProcSources memory rounds =
      .error e) :
    EndsIn tables memory s k
      ((cachedCall tables.toProcSources memory rounds target k .step).outcome s)
      (.error e, { (s.cursors.load k).frame with pi := pi.members }) := by
  obtain ⟨i, s', scripted, ready⟩ := scriptFor_ready right nonzero unbuilt found
  have notCode : ∀ code, e ≠ .err code := by
    rintro code rfl
    rcases stuck with isCode | isCode
    · cases isCode
    · cases isCode
  have completed := completeScript_stuck ready.isBucket ready.empty ready.valid notCode
    ((cachedBuild_eq ready).trans failed)
  rw [cachedStep_eq, scripted, Routine.andThen_ok, completed, Routine.andThen_error]
  refine ⟨rfl, ⟨s'.cursors.load k, ready.store _, ready.frame⟩, fun returned => ?_⟩
  rcases stuck with rfl | rfl
  · exact absurd rfl returned.1
  · exact absurd rfl returned.2

/-- A step for which a script is built ends as the script has it. -/
theorem cachedStep_built (right : ScriptsRight tables memory (fun _ => True) s.use s.body)
    (nonzero : (s.cursors.load k).frame.ip ≠ 0) (unbuilt : s.Unbuilt tables k)
    (found : tables.lookUp (s.cursors.load k).frame.ip true = (.ok pi, dynamic)) {built : Built}
    {pi' : UnwProcInfo} {dynamic' : Bool}
    (returned : ((s.cursors.load k).fetched pi dynamic).build tables.toProcSources memory rounds =
      .ok (.ok built, pi', dynamic'))
    (notEmpty : built.insns ≠ []) :
    EndsIn tables memory s k
      ((cachedCall tables.toProcSources memory rounds target k .step).outcome s)
      ((frameStep target pi'.members built.abiMarker built.insns).outcome
        (s.cursors.load k).frame) := by
  obtain ⟨i, s', scripted, ready⟩ := scriptFor_ready right nonzero unbuilt found
  have found' : tables.lookUp (s'.cursors.load k).frame.ip true =
      (.ok (s'.cursors.load k).pi, (s'.cursors.load k).piIsDynamic) := by
    rw [ready.hasPi, ready.isDynamic, ← found, ready.frame]
  obtain ⟨use', body', completed, right', marker, body⟩ := completeScript_built ready.right
    ready.isBucket ready.ip ready.empty ready.valid found' ((cachedBuild_eq ready).trans returned)
    notEmpty
  have onFrame := completeStep_frame target pi' built.abiMarker built.insns
    ((s'.cursors.load k).fetched pi' dynamic')
  rw [Cursor.fetched_frame, frameStep_anyPi, ready.frame, frameStep_anyPi] at onFrame
  rw [cachedStep_eq, scripted, Routine.andThen_ok, completed, Routine.andThen_ok,
    finishStored (s := ⟨use', body', _⟩) ready.isBucket, onCursor_outcome]
  dsimp only
  rw [marker, body, Cursors.load_store, Cursors.store_store, ← onFrame]
  exact ⟨rfl, ⟨_, ready.store _, rfl⟩, fun _ => right'⟩

/-! ## Proc info -/

theorem cachedGetProcInfo_eq :
    (cachedCall tables.toProcSources memory rounds target k .getProcInfo).outcome s =
      Routine.andThen ((makeProcInfo tables.toProcSources k).outcome s) fun _ s => (.ok 0, s) := by
  simp only [cachedCall, Routine.outcome_bind, Routine.outcome_pure]

/-- Proc info that is in the cache is taken from there. -/
theorem cachedGetProcInfo_found (right : ScriptsRight tables memory (fun _ => True) s.use s.body)
    (isEntry : s.entry k = some i) :
    EndsIn tables memory s k
      ((cachedCall tables.toProcSources memory rounds target k .getProcInfo).outcome s)
      (.ok 0, { (s.cursors.load k).frame with pi := (s.body i).pi.members }) := by
  obtain ⟨use', looked, keeps, isFound⟩ := lookUpScript_outcome (k := k) right.inv
  obtain ⟨isBucket, -⟩ := isFound i isEntry
  rw [isEntry] at looked
  have cached : (getCachedProcInfo k).outcome s = (.ok true,
      ⟨use', s.body, s.cursors.store k ((s.cursors.load k).setPi (s.body i).pi)⟩) := by
    rw [getCachedProcInfo, Routine.outcome_bind_ok looked]
    dsimp only
    rw [Routine.outcome_bind_ok (theScript_outcome (s := { s with use := use' }) isBucket)]
    rfl
  rw [cachedGetProcInfo_eq, makeProcInfo, Routine.outcome_bind_ok cached, if_pos rfl,
    Routine.outcome_pure, Routine.andThen_ok]
  exact ⟨rfl, ⟨_, rfl, rfl⟩, fun _ => right.kept keeps⟩

/-- `c->pi` is that of the instruction pointer, if it is marked as valid. -/
def Cursor.UpToDate (tables : UnwindTables) (c : Cursor) : Prop :=
  c.piValid = true → ∃ pi dynamic,
    tables.lookUp c.frame.ip false = (.ok pi, dynamic) ∧ pi.members = c.frame.pi

/-- Proc info that is up to date is as good as that which is looked up. -/
theorem fetchProcInfo_ok {c : Cursor} (upToDate : c.UpToDate tables)
    (found : tables.lookUp c.frame.ip false = (.ok pi, dynamic)) :
    ∃ c', (fetchProcInfo tables.toProcSources c.frame.ip false).outcome c = (.ok (), c') ∧
      c'.frame = { c.frame with pi := pi.members } := by
  by_cases valid : c.piValid = true
  · obtain ⟨pi', dynamic', found', members⟩ := upToDate valid
    obtain rfl : pi = pi' := by
      rw [found] at found'
      cases found'
      rfl
    refine ⟨c, fetchProcInfo_valid valid, ?_⟩
    rw [members]
  · exact ⟨_, fetchProcInfo_found (fun isValid => absurd isValid valid) found, rfl⟩

theorem fetchProcInfo_error {c : Cursor} (upToDate : c.UpToDate tables)
    (found : tables.lookUp c.frame.ip false = (.error code, dynamic)) :
    ∃ c', (fetchProcInfo tables.toProcSources c.frame.ip false).outcome c = (.error (.err code), c') ∧
      c'.frame = { c.frame with pi := tables.leaves c.frame.ip false c.frame.pi } := by
  refine ⟨_, fetchProcInfo_failed (fun valid => ?_) found, rfl⟩
  obtain ⟨pi', dynamic', found', -⟩ := upToDate valid
  rw [found] at found'
  cases found'

/-- Proc info of the instruction pointer is entered, unless there is some. -/
theorem cacheProcInfo_outcome (right : ScriptsRight tables memory (fun _ => True) s.use s.body)
    (nonzero : (s.cursors.load k).frame.ip ≠ 0)
    (found : tables.lookUp (s.cursors.load k).frame.ip false = (.ok pi, dynamic))
    (members : pi.members = (s.cursors.load k).frame.pi) : ∃ use' body',
      (cacheProcInfo k).outcome s = (.ok (), ⟨use', body', s.cursors⟩) ∧
        ScriptsRight tables memory (fun _ => True) use' body' := by
  obtain ⟨use₁, looked, keeps, -⟩ := lookUpScript_outcome (k := k) right.inv
  cases isEntry : s.entry k with
  | some i =>
      rw [isEntry] at looked
      refine ⟨use₁, s.body, ?_, right.kept keeps⟩
      rw [cacheProcInfo, Routine.outcome_bind_ok looked]
      rfl
  | none =>
      rw [isEntry] at looked
      obtain ⟨i, use₂, made, isBucket, right₂, ip, empty⟩ :=
        newScript_outcome (s := { s with use := use₁ }) nonzero (right.kept keeps)
      refine ⟨use₂, Function.update s.body i { s.body i with pi := (s.cursors.load k).pi }, ?_,
        right₂.settle (fun j other => Function.update_of_ne other ..) ?_⟩
      · rw [cacheProcInfo, Routine.outcome_bind_ok looked]
        dsimp only
        rw [Routine.outcome_bind_ok theCursor_outcome, Routine.outcome_bind_ok made]
        rfl
      · rw [Script.IsRight, if_pos empty, Function.update_self]
        refine ⟨pi, dynamic, ?_, members⟩
        rw [ip, ← found]

variable (tables) in
theorem makeProcInfo_missed (inv : s.use.Invariant) (isEntry : s.entry k = none) : ∃ use',
    KeepsScripts s.use use' ∧ (makeProcInfo tables.toProcSources k).outcome s =
      Routine.andThen ((onCursor k (fetchProcInfo tables.toProcSources (s.cursors.load k).frame.ip
        false)).outcome { s with use := use' }) fun _ s => (cacheProcInfo k).outcome s := by
  obtain ⟨use', looked, keeps, -⟩ := lookUpScript_outcome (k := k) inv
  rw [isEntry] at looked
  have missed : (getCachedProcInfo k).outcome s = (.ok false, { s with use := use' }) := by
    rw [getCachedProcInfo, Routine.outcome_bind_ok looked]
    rfl
  refine ⟨use', keeps, ?_⟩
  rw [makeProcInfo, Routine.outcome_bind_ok missed, if_neg (by decide),
    Routine.outcome_bind_ok theCursor_outcome, Routine.outcome_bind]

/-- Proc info that is not in the cache is found as without it. -/
theorem cachedGetProcInfo_missed (right : ScriptsRight tables memory (fun _ => True) s.use s.body)
    (nonzero : (s.cursors.load k).frame.ip ≠ 0) (isEntry : s.entry k = none)
    (upToDate : (s.cursors.load k).UpToDate tables)
    (found : tables.lookUp (s.cursors.load k).frame.ip false = (.ok pi, dynamic)) :
    EndsIn tables memory s k
      ((cachedCall tables.toProcSources memory rounds target k .getProcInfo).outcome s)
      (.ok 0, { (s.cursors.load k).frame with pi := pi.members }) := by
  obtain ⟨use', keeps, made⟩ := makeProcInfo_missed tables right.inv isEntry
  obtain ⟨c, fetched, frame⟩ := fetchProcInfo_ok upToDate found
  have onCursors : (onCursor k (fetchProcInfo tables.toProcSources (s.cursors.load k).frame.ip
      false)).outcome { s with use := use' } = (.ok (), ⟨use', s.body, s.cursors.store k c⟩) := by
    rw [onCursor_outcome, fetched]
  have isCursor : (s.cursors.store k c).load k = c := Cursors.load_store ..
  have same : c.frame.ip = (s.cursors.load k).frame.ip := by rw [frame]
  obtain ⟨use'', body'', cached, right''⟩ := cacheProcInfo_outcome (k := k)
    (s := ⟨use', s.body, s.cursors.store k c⟩) (right.kept keeps)
    (by rw [isCursor, same]; exact nonzero) (by rw [isCursor, same]; exact found)
    (by rw [isCursor, frame])
  rw [cachedGetProcInfo_eq, made, onCursors, Routine.andThen_ok, cached, Routine.andThen_ok]
  exact ⟨rfl, ⟨c, rfl, frame⟩, fun _ => right''⟩

theorem cachedGetProcInfo_failed (right : ScriptsRight tables memory (fun _ => True) s.use s.body)
    (isEntry : s.entry k = none) (upToDate : (s.cursors.load k).UpToDate tables)
    (found : tables.lookUp (s.cursors.load k).frame.ip false = (.error code, dynamic)) :
    EndsIn tables memory s k
      ((cachedCall tables.toProcSources memory rounds target k .getProcInfo).outcome s)
      (.error (.err code), { (s.cursors.load k).frame with
        pi := tables.leaves (s.cursors.load k).frame.ip false (s.cursors.load k).frame.pi }) := by
  obtain ⟨use', keeps, made⟩ := makeProcInfo_missed tables right.inv isEntry
  obtain ⟨c, fetched, frame⟩ := fetchProcInfo_error upToDate found
  have onCursors : (onCursor k (fetchProcInfo tables.toProcSources (s.cursors.load k).frame.ip
      false)).outcome { s with use := use' } =
        (.error (.err code), ⟨use', s.body, s.cursors.store k c⟩) := by
    rw [onCursor_outcome, fetched]
  rw [cachedGetProcInfo_eq, made, onCursors, Routine.andThen_error, Routine.andThen_error]
  exact ⟨rfl, ⟨c, rfl, frame⟩, fun _ => right.kept keeps⟩

end Ends

/-! ## Two address spaces -/

/-- The cursors of an address space with a cache, and the same cursors without one. -/
structure Twin where
  cached : Cached
  plain : Cursors

/-- What is done with the cursors. -/
inductive TwinEvent where
  | flush
  | init (k : Nat) (c : Cursor)
  | call (k : Nat) (call : Call) (target : Target)

/-- The cursors have the same frames, and the address spaces the same ABI. -/
structure SameFrames (cursors cursors' : Cursors) : Prop where
  abi : cursors.abi = cursors'.abi
  frame : ∀ k, (cursors.cursor k).frame = (cursors'.cursor k).frame

theorem SameFrames.load {cursors cursors' : Cursors} (same : SameFrames cursors cursors') (k : Nat) :
    (cursors.load k).frame = (cursors'.load k).frame := by
  simp only [Cursors.load, same.abi, same.frame k]

theorem SameFrames.store {cursors cursors' : Cursors} (same : SameFrames cursors cursors') (k : Nat)
    {c c' : Cursor} (frame : c.frame = c'.frame) :
    SameFrames (cursors.store k c) (cursors'.store k c') := by
  refine ⟨congrArg Frame.abi frame, fun j => ?_⟩
  by_cases here : j = k
  · subst here
    simpa only [Cursors.store, Function.update_self] using frame
  · simpa only [Cursors.store, Function.update_of_ne here] using same.frame j

/-- The same is returned, and the same frames are left. -/
def SameOutcome (ended : Except Fault Nat × Cached) (ended' : Except Fault Nat × Cursors) : Prop :=
  ended.1 = ended'.1 ∧ SameFrames ended.2.cursors ended'.2

namespace Twin

variable (tables : UnwindTables) (memory : Nat → Bool) (t : Twin)

/-- `unw_init_remote` and the like -/
def initCursor (k : Nat) (c : Cursor) : Twin where
  cached := { t.cached with
    use := { t.cached.use with cursors := Function.update t.cached.use.cursors k ⟨0, 0⟩ }
    cursors := { t.cached.cursors with cursor := Function.update t.cached.cursors.cursor k c } }
  plain := { t.plain with cursor := Function.update t.plain.cursor k c }

/-- The cache is empty, and the cursors are the same. -/
structure Start : Prop where
  use : t.cached.use.Start
  plain : t.plain = t.cached.cursors

/-- A call returns in both address spaces; with more rounds it returns the same. -/
inductive Step : Twin → TwinEvent → Twin → Prop where
  | flush {t : Twin} : Step t .flush { t with cached := { t.cached with use := { t.cached.use with
      cache := flushScriptCache t.cached.use.cache
      made := [] } } }
  | init {t : Twin} {k : Nat} {c : Cursor} : c.piValid = false → Step t (.init k c) (t.initCursor k c)
  | call {t : Twin} {k : Nat} {call : Call} {target : Target} {rounds : Nat} {s : Cached}
      {cursors : Cursors} {ret ret' : Except Fault Nat} :
      (cachedCall tables.toProcSources memory rounds target k call).outcome t.cached = (ret, s) →
      Returned ret →
      (uncachedCall tables.toProcSources memory rounds target k call).outcome t.plain =
        (ret', cursors) →
      Returned ret' → Step t (.call k call target) ⟨s, cursors⟩

/-- The call returns with the cache what it returns without, and the other way round. -/
structure Transparent (k : Nat) (call : Call) (target : Target) : Prop where
  cached : ∀ rounds,
    Ends ((uncachedCall tables.toProcSources memory rounds target k call).outcome t.plain).1 →
      SameOutcome ((cachedCall tables.toProcSources memory rounds target k call).outcome t.cached)
        ((uncachedCall tables.toProcSources memory rounds target k call).outcome t.plain)
  uncached : ∀ rounds,
    Ends ((cachedCall tables.toProcSources memory rounds target k call).outcome t.cached).1 →
      ∃ rounds',
        SameOutcome ((cachedCall tables.toProcSources memory rounds target k call).outcome t.cached)
          ((uncachedCall tables.toProcSources memory rounds' target k call).outcome t.plain)

/-! ## The conditions -/

/-- A build succeeds, with some instructions, unless it does not return. -/
def Succeeds (ret : Result (Except UnwError Built × UnwProcInfo × Bool)) : Prop :=
  (∃ built rest, ret = .ok (.ok built, rest) ∧ built.insns ≠ []) ∨
    ret = .error .undefined ∨ ret = .error .timeout

/-- What the cache relies on for `unw_step`. -/
structure StepAllowed (s : Cached) (k : Nat) : Prop where
  nonzero : (s.cursors.load k).frame.ip ≠ 0
  /-- A script that is found was built for predicates that are the same, as far as its building looks
      at them. -/
  predicates : ∀ i ∈ s.entry k, (s.use.cache.buckets i).count ≠ 0 → ∀ pi dynamic,
    tables.lookUp (s.cursors.load k).frame.ip true = (.ok pi, dynamic) →
      ScriptBuild.SamePredicates tables.toProcSources
        (.start memory (s.cursors.load k).frame.ip (s.use.cache.buckets i).prVal pi dynamic)
        (s.use.cache.buckets i).prVal (s.cursors.load k).frame.pr
  /-- One that is not built yet has no unwind info, or it is that which the cursor has. -/
  unbuilt : (∀ i ∈ s.entry k, (s.use.cache.buckets i).count = 0) → s.Unbuilt tables k
  /-- It can be built. -/
  builds : (∀ i ∈ s.entry k, (s.use.cache.buckets i).count = 0) → ∀ pi dynamic rounds,
    tables.lookUp (s.cursors.load k).frame.ip true = (.ok pi, dynamic) →
      Succeeds (((s.cursors.load k).fetched pi dynamic).build tables.toProcSources memory rounds)

/-- What it relies on for `unw_get_proc_info`. -/
structure ProcAllowed (k : Nat) : Prop where
  nonzero : (t.cached.cursors.load k).frame.ip ≠ 0
  /-- Proc info that is marked as valid is that of the instruction pointer. -/
  plain : (t.plain.load k).UpToDate tables
  cached : (t.cached.cursors.load k).UpToDate tables
  /-- A script that is found was built without an alias, and without the flag for a procedure that may
      switch the register backing store. -/
  unmarked : ∀ i ∈ t.cached.entry k, (t.cached.use.cache.buckets i).count ≠ 0 → ∀ pi dynamic,
    tables.lookUp (t.cached.cursors.load k).frame.ip true = (.ok pi, dynamic) →
      ScriptBuild.Unmarked tables.toProcSources (t.cached.use.cache.buckets i).prVal
        (.start memory (t.cached.cursors.load k).frame.ip (t.cached.use.cache.buckets i).prVal pi
          dynamic)

def Allowed : TwinEvent → Prop
  | .call k .step _ => StepAllowed tables memory t.cached k
  | .call k .getProcInfo _ => t.ProcAllowed tables memory k
  | _ => True

/-! ## What every call keeps -/

structure Invariant : Prop where
  scripts : ScriptsRight tables memory (fun _ => True) t.cached.use t.cached.body
  frames : SameFrames t.cached.cursors t.plain

variable {tables memory t} {k : Nat} {target : Target} {rounds : Nat}

/-- What a call without the cache leaves. -/
theorem uncachedCall_outcome {call : Call} {cursors : Cursors} {ret : Except Fault Nat × Frame}
    (ends : frameOf ((uncachedOn tables.toProcSources memory rounds target call).outcome
      (cursors.load k)) = ret) :
    ∃ c, (uncachedCall tables.toProcSources memory rounds target k call).outcome cursors =
      (ret.1, cursors.store k c) ∧ c.frame = ret.2 := by
  subst ends
  exact ⟨_, rfl, rfl⟩

/-- A call that ends in the same way with the cache as without it. -/
theorem sameOutcome_of_ends {call : Call} {rounds' : Nat} {ret : Except Fault Nat × Frame}
    (frames : SameFrames t.cached.cursors t.plain)
    (ends : EndsIn tables memory t.cached k
      ((cachedCall tables.toProcSources memory rounds target k call).outcome t.cached) ret)
    (ends' : frameOf ((uncachedOn tables.toProcSources memory rounds' target call).outcome
      (t.plain.load k)) = ret) :
    SameOutcome ((cachedCall tables.toProcSources memory rounds target k call).outcome t.cached)
      ((uncachedCall tables.toProcSources memory rounds' target k call).outcome t.plain) := by
  obtain ⟨c, cursors, frame⟩ := ends.leaves
  obtain ⟨c', uncached, frame'⟩ := uncachedCall_outcome ends'
  rw [SameOutcome, uncached, cursors]
  exact ⟨ends.returns, frames.store k (frame.trans frame'.symm)⟩

/-- How a call ends: with the cache in some way, and without it in the same way, unless it takes more
    rounds than these. -/
structure CallEnds (tables : UnwindTables) (memory : Nat → Bool) (t : Twin) (k : Nat) (call : Call)
    (target : Target) (rounds : Nat) (ret : Except Fault Nat × Frame) : Prop where
  cached : EndsIn tables memory t.cached k
    ((cachedCall tables.toProcSources memory rounds target k call).outcome t.cached) ret
  uncached : Ends ((uncachedOn tables.toProcSources memory rounds target call).outcome
    (t.plain.load k)).1 → frameOf ((uncachedOn tables.toProcSources memory rounds target call).outcome
      (t.plain.load k)) = ret
  later : ∃ rounds', frameOf ((uncachedOn tables.toProcSources memory rounds' target call).outcome
    (t.plain.load k)) = ret

theorem CallEnds.of_uncached {call : Call} {ret : Except Fault Nat × Frame}
    (cached : EndsIn tables memory t.cached k
      ((cachedCall tables.toProcSources memory rounds target k call).outcome t.cached) ret)
    (uncached : frameOf ((uncachedOn tables.toProcSources memory rounds target call).outcome
      (t.plain.load k)) = ret) : CallEnds tables memory t k call target rounds ret :=
  ⟨cached, fun _ => uncached, rounds, uncached⟩

/-- A script that is found is for the instruction pointer. -/
theorem entry_spec {s : Cached} (inv : s.use.Invariant) {i : BitVec 16} (isEntry : i ∈ s.entry k) :
    (s.use.cache.buckets i).ip = (s.cursors.load k).frame.ip := by
  obtain ⟨_, -, -, isFound⟩ := lookUpScript_outcome (k := k) inv
  exact (isFound i isEntry).2

/-- A script that was built for other predicates is built again for these, if they are the same as far
    as it depends on them. -/
theorem build_again {s : Cached} {i : BitVec 16} {f : Frame} {rounds : Nat} {pi : UnwProcInfo}
    {dynamic dynamic' : Bool} {prMask : Word 64}
    (same : ScriptBuild.SamePredicates tables.toProcSources
      (.start memory f.ip (s.use.cache.buckets i).prVal pi dynamic) (s.use.cache.buckets i).prVal f.pr)
    (returned : ScriptBuild.run tables.toProcSources (s.use.cache.buckets i).prVal rounds
      (.start memory f.ip (s.use.cache.buckets i).prVal pi dynamic) =
        .ok (.ok ⟨(s.body i).insns, (s.use.cache.buckets i).abiMarker, prMask⟩, (s.body i).pi,
          dynamic'))
    {c : Cursor} (frame : c.frame = f) {rounds' : Nat} :
    (c.fetched pi dynamic).build tables.toProcSources memory rounds' = .error .timeout ∨
      (c.fetched pi dynamic).build tables.toProcSources memory rounds' =
        .ok (.ok ⟨(s.body i).insns, (s.use.cache.buckets i).abiMarker, prMask⟩, (s.body i).pi,
          dynamic') := by
  subst frame
  have again := ScriptBuild.run_samePredicates same rounds'
  change (c.fetched pi dynamic).build tables.toProcSources memory rounds' = _ at again
  rw [again]
  by_cases inTime : ScriptBuild.run tables.toProcSources (s.use.cache.buckets i).prVal rounds'
      (.start memory c.frame.ip (s.use.cache.buckets i).prVal pi dynamic) = .error .timeout
  · exact .inl inTime
  · right
    rw [← returned]
    exact ScriptBuild.run_unique inTime (by rw [returned]; exact Ends.ok _)

/-- `unw_step` with the cache, in the way in which it is without it. -/
theorem step_ends (inv : t.Invariant tables memory) (allowed : StepAllowed tables memory t.cached k) :
    ∃ ret, CallEnds tables memory t k .step target rounds ret := by
  have frame : (t.plain.load k).frame = (t.cached.cursors.load k).frame := (inv.frames.load k).symm
  by_cases full : ∃ i ∈ t.cached.entry k, (t.cached.use.cache.buckets i).count ≠ 0
  · obtain ⟨i, isEntry, full⟩ := full
    have ip := entry_spec inv.scripts.inv isEntry
    have isRight := inv.scripts.scripts i True.intro (by rw [ip]; exact allowed.nonzero)
    rw [Script.IsRight, if_neg full, Script.BuiltAs, ip] at isRight
    obtain ⟨pi, dynamic, rounds₀, prMask, dynamic', found, returned⟩ := isRight
    have same := allowed.predicates i isEntry full pi dynamic found
    rw [← frame] at same returned found
    refine ⟨_, cachedStep_full inv.scripts isEntry full, fun inTime => ?_, rounds₀, ?_⟩
    · rcases build_again same returned rfl with stuck | built
      · have ends := congrArg Prod.fst (uncachedStep_stuck target found stuck)
        exact absurd ends inTime
      · rw [← frame]
        exact uncachedStep_built found built
    · rw [← frame]
      exact uncachedStep_built found ((ScriptBuild.run_samePredicates same rounds₀).trans returned)
  · have empty : ∀ i ∈ t.cached.entry k, (t.cached.use.cache.buckets i).count = 0 := by
      intro i isEntry
      by_contra isFull
      exact full ⟨i, isEntry, isFull⟩
    have unbuilt := allowed.unbuilt empty
    rcases found : tables.lookUp (t.cached.cursors.load k).frame.ip true with ⟨code | pi, dynamic⟩
    · refine ⟨_, .of_uncached (cachedStep_failed inv.scripts unbuilt found) ?_⟩
      rw [← frame] at found ⊢
      exact uncachedStep_failed found
    · have succeeds := allowed.builds empty pi dynamic rounds found
      have found' := found
      rw [← frame] at found'
      have builds : ((t.plain.load k).fetched pi dynamic).build tables.toProcSources memory rounds =
          ((t.cached.cursors.load k).fetched pi dynamic).build tables.toProcSources memory rounds := by
        rw [Cursor.build, Cursor.build, Cursor.fetched_frame, Cursor.fetched_frame, frame]
        rfl
      rcases succeeds with ⟨built, ⟨pi', dynamic'⟩, returned, notEmpty⟩ | stuck
      · refine ⟨_, .of_uncached (cachedStep_built inv.scripts allowed.nonzero unbuilt found returned
          notEmpty) ?_⟩
        rw [← frame]
        exact uncachedStep_built found' (builds.trans returned)
      · obtain ⟨e, isStuck, failed⟩ : ∃ e : Fault, (e = .undefined ∨ e = .timeout) ∧
            ((t.cached.cursors.load k).fetched pi dynamic).build tables.toProcSources memory rounds =
              .error e := by
          rcases stuck with failed | failed
          · exact ⟨_, .inl rfl, failed⟩
          · exact ⟨_, .inr rfl, failed⟩
        refine ⟨_, .of_uncached (cachedStep_stuck inv.scripts allowed.nonzero unbuilt found isStuck
          failed) ?_⟩
        rw [← frame]
        exact uncachedStep_stuck _ found' (builds.trans failed)

theorem uncachedGetProcInfo_ok {c : Cursor} {pi : UnwProcInfo} {dynamic : Bool}
    (upToDate : c.UpToDate tables) (found : tables.lookUp c.frame.ip false = (.ok pi, dynamic)) :
    frameOf ((uncachedGetProcInfo tables.toProcSources).outcome c) =
      (.ok 0, { c.frame with pi := pi.members }) := by
  obtain ⟨c', fetched, frame⟩ := fetchProcInfo_ok upToDate found
  rw [uncachedGetProcInfo, Routine.outcome_bind_ok (Routine.outcome_get c),
    Routine.outcome_bind_ok fetched, Routine.outcome_pure, frameOf, frame]

theorem uncachedGetProcInfo_error {c : Cursor} {code : UnwError} {dynamic : Bool}
    (upToDate : c.UpToDate tables) (found : tables.lookUp c.frame.ip false = (.error code, dynamic)) :
    frameOf ((uncachedGetProcInfo tables.toProcSources).outcome c) =
      (.error (.err code), { c.frame with
        pi := tables.leaves c.frame.ip false c.frame.pi }) := by
  obtain ⟨c', fetched, frame⟩ := fetchProcInfo_error upToDate found
  rw [uncachedGetProcInfo, Routine.outcome_bind_ok (Routine.outcome_get c),
    Routine.outcome_bind_error fetched, frameOf, frame]

/-- The proc info of a script is that of the instruction pointer, unless it was marked or replaced when
    the script was built. -/
theorem entry_members (inv : t.Invariant tables memory) (allowed : t.ProcAllowed tables memory k)
    {i : BitVec 16} (isEntry : i ∈ t.cached.entry k) : ∃ pi dynamic,
      tables.lookUp (t.cached.cursors.load k).frame.ip false = (.ok pi, dynamic) ∧
        pi.members = (t.cached.body i).pi.members := by
  have ip := entry_spec inv.scripts.inv isEntry
  have isRight := inv.scripts.scripts i True.intro (by rw [ip]; exact allowed.nonzero)
  rw [Script.IsRight, Script.HasProc, Script.BuiltAs, ip] at isRight
  by_cases full : (t.cached.use.cache.buckets i).count = 0
  · rwa [if_pos full] at isRight
  · rw [if_neg full] at isRight
    obtain ⟨pi, dynamic, rounds, prMask, dynamic', found, returned⟩ := isRight
    have kept := ScriptBuild.run_members (allowed.unmarked i isEntry full pi dynamic found) returned
    obtain ⟨pi', found', members⟩ := tables.notNeeded _ pi dynamic found
    exact ⟨pi', dynamic, found', members.trans kept.symm⟩

/-- `unw_get_proc_info` with the cache, in the way in which it is without it. -/
theorem getProcInfo_ends (inv : t.Invariant tables memory)
    (allowed : t.ProcAllowed tables memory k) :
    ∃ ret, CallEnds tables memory t k .getProcInfo target rounds ret := by
  have frame : (t.plain.load k).frame = (t.cached.cursors.load k).frame := (inv.frames.load k).symm
  cases isEntry : t.cached.entry k with
  | some i =>
      obtain ⟨pi, dynamic, found, members⟩ := entry_members inv allowed isEntry
      refine ⟨_, .of_uncached (cachedGetProcInfo_found inv.scripts isEntry) ?_⟩
      rw [← frame] at found ⊢
      rw [← members]
      exact uncachedGetProcInfo_ok allowed.plain found
  | none =>
      rcases found : tables.lookUp (t.cached.cursors.load k).frame.ip false with ⟨code | pi, dynamic⟩
      · refine ⟨_, .of_uncached (cachedGetProcInfo_failed inv.scripts isEntry allowed.cached found) ?_⟩
        rw [← frame] at found ⊢
        exact uncachedGetProcInfo_error allowed.plain found
      · refine ⟨_, .of_uncached (cachedGetProcInfo_missed inv.scripts allowed.nonzero isEntry
          allowed.cached found) ?_⟩
        rw [← frame] at found ⊢
        exact uncachedGetProcInfo_ok allowed.plain found

theorem call_ends {call : Call} (inv : t.Invariant tables memory)
    (allowed : t.Allowed tables memory (.call k call target)) (rounds : Nat) :
    ∃ ret, CallEnds tables memory t k call target rounds ret := by
  cases call with
  | step => exact step_ends inv allowed
  | getProcInfo => exact getProcInfo_ends inv allowed

theorem Invariant.transparent {call : Call} (inv : t.Invariant tables memory)
    (allowed : t.Allowed tables memory (.call k call target)) :
    t.Transparent tables memory k call target := by
  constructor
  case cached =>
    intro rounds inTime
    obtain ⟨ret, ends⟩ := call_ends inv allowed rounds
    exact sameOutcome_of_ends inv.frames ends.cached (ends.uncached inTime)
  case uncached =>
    intro rounds _
    obtain ⟨ret, ends⟩ := call_ends inv allowed rounds
    obtain ⟨rounds', uncached⟩ := ends.later
    exact ⟨rounds', sameOutcome_of_ends inv.frames ends.cached uncached⟩

theorem Start.invariant (start : t.Start) : t.Invariant tables memory := by
  obtain ⟨use, plain⟩ := start
  have inv := use.invariant
  obtain ⟨⟨before, -, flushed⟩, -, none⟩ := use
  refine ⟨⟨inv, fun made isMade => ?_, fun i _ nonzero => ?_⟩, ?_⟩
  · rw [none] at isMade
    cases isMade
  · rw [flushed] at nonzero
    exact absurd rfl nonzero
  · rw [plain]
    exact ⟨rfl, fun _ => rfl⟩

/-- What a step keeps. -/
theorem Invariant.step {event : TwinEvent} {t' : Twin} (inv : t.Invariant tables memory)
    (allowed : t.Allowed tables memory event) (stepped : Step tables memory t event t') :
    t'.Invariant tables memory := by
  cases stepped with
  | flush =>
      obtain ⟨-, hints⟩ := inv.scripts.inv
      refine ⟨⟨⟨⟨_, ScriptUse.ordered_flush t.cached.use.cache⟩, hints.buckets, hints.hint,
        hints.prevScript⟩, fun made isMade => ?_, fun i _ nonzero => absurd rfl nonzero⟩, inv.frames⟩
      cases isMade
  | @init k c =>
      obtain ⟨ordered, hints⟩ := inv.scripts.inv
      have cursor := hints.setCursor k (c := ⟨0, 0⟩) (by decide) (by decide)
      refine ⟨⟨⟨ordered, hints.buckets, fun k' => (cursor k').1, fun k' => (cursor k').2⟩,
        inv.scripts.nonzero, inv.scripts.scripts⟩, inv.frames.abi, fun j => ?_⟩
      by_cases here : j = k
      · subst here
        simp only [initCursor, Function.update_self]
      · simp only [initCursor, Function.update_of_ne here]
        exact inv.frames.frame j
  | @call k call target rounds s cursors ret ret' isCached returned isPlain returned' =>
      obtain ⟨_, ends⟩ := call_ends inv allowed rounds
      have keeps := ends.cached.keeps
      have same := (inv.transparent allowed).cached rounds
      rw [isCached, isPlain] at same
      rw [isCached] at keeps
      exact ⟨keeps returned, (same returned'.2).2⟩

/-- While every call meets the condition, calls return the same with the cache as without it, and leave
    the same frames; so does the next one that meets it. -/
theorem transparent_of_run (run : Run Start (Step tables memory) (Allowed tables memory) t) :
    SameFrames t.cached.cursors t.plain ∧ ∀ k call target,
      t.Allowed tables memory (.call k call target) → t.Transparent tables memory k call target := by
  have inv : t.Invariant tables memory := run.invariant (fun _ start => start.invariant)
    (fun _ _ _ inv allowed stepped => inv.step allowed stepped)
  exact ⟨inv.frames, fun k call target allowed => inv.transparent allowed⟩

/-! One procedure without unwind info -/

def noMembers : ProcMembers := ⟨0, 0, 0, 0, 0, 0⟩

def oneProc : UnwindTables where
  findDynamicProcInfo _ _ := .error .noinfo
  findProcInfo _ _ := .ok ⟨{ noMembers with startIp := 0x1000 }, .null⟩
  leaves _ _ pi := pi
  leavesUnwind _ _ unwind := unwind
  puts _ _ := false
  notNeeded _ _ _ found := ⟨_, found, rfl⟩
  notAsked _ _ _ found _ := found

def atProc : Cursor where
  frame := {
    loc := fun _ => ia64NullLoc, natBitnr := fun _ => 0, sp := 0, psp := 0,
    rbs := ⟨0, ⟨0, by decide⟩, ⟨0, by decide⟩, fun _ => ⟨0, 0, ia64NullLoc⟩⟩, ip := 0x1000, cfm := 0, pr := 0,
    cfmLoc := ia64NullLoc, ecLoc := ia64NullLoc, sigcontextAddr := 0, sigcontextOff := 0,
    abiMarker := 0, lastAbiMarker := 0, abi := 0, pi := noMembers }
  unwind := .null
  piValid := false
  piIsDynamic := false

def fresh : Twin where
  cached := ⟨.flushed, fun _ => ⟨⟨noMembers, .null⟩, []⟩, ⟨fun _ => atProc, 0⟩⟩
  plain := ⟨fun _ => atProc, 0⟩

def noTarget : Target := ⟨fun _ => .error .inval, fun _ _ => (ia64NullLoc, 0)⟩

theorem fresh_start : fresh.Start := ⟨ScriptUse.flushed_start, rfl⟩

theorem fresh_entry : fresh.cached.entry 0 = none := by
  decide

theorem fresh_allowed (memory : Nat → Bool) :
    fresh.Allowed oneProc memory (.call 0 .getProcInfo noTarget) where
  nonzero := by decide
  plain valid := by cases valid
  cached valid := by cases valid
  unmarked i isEntry := by
    rw [fresh_entry] at isEntry
    cases isEntry

def firstCall (memory : Nat → Bool) : (Except Fault Nat × Cached) × (Except Fault Nat × Cursors) :=
  ((cachedCall oneProc.toProcSources memory 0 noTarget 0 .getProcInfo).outcome fresh.cached,
    (uncachedCall oneProc.toProcSources memory 0 noTarget 0 .getProcInfo).outcome fresh.plain)

/-- Its proc info is entered into the cache at the first call, and is the same without it. -/
theorem fresh_transparent :
    fresh.Transparent oneProc (fun _ => true) 0 .getProcInfo noTarget ∧
      ∃ t, Run Start (Step oneProc fun _ => true) (Allowed oneProc fun _ => true) t ∧
        t.cached.use.made.map Prod.snd = [0x1000] ∧ SameFrames t.cached.cursors t.plain := by
  obtain ⟨-, transparent⟩ := transparent_of_run (.start fresh_start)
  have cached : (firstCall fun _ => true).1.1 = .ok 0 := by rfl
  have plain : (firstCall fun _ => true).2.1 = .ok 0 := by rfl
  have run : Run Start (Step oneProc fun _ => true) (Allowed oneProc fun _ => true)
      ⟨(firstCall fun _ => true).1.2, (firstCall fun _ => true).2.2⟩ := by
    refine .step _ (.start fresh_start) (fresh_allowed _) (.call rfl ?_ rfl ?_)
    · change Returned (firstCall fun _ => true).1.1
      rw [cached]
      exact ⟨.ok 0, .ok 0⟩
    · change Returned (firstCall fun _ => true).2.1
      rw [plain]
      exact ⟨.ok 0, .ok 0⟩
  refine ⟨transparent 0 .getProcInfo noTarget (fresh_allowed _), _, run, by decide, ?_⟩
  exact (transparent_of_run run).1

end Twin

end Libunwind.Ia64
