import Libunwind.X64.TraceLoop

/-! # When the trace cache of x86_64 is transparent

If the record of a frame depends on nothing but its address, a trace by the cache stores the addresses
that one by the records would, whatever the thread has traced before. Where the cache cannot be had, or
not be expanded, the trace says so and stores the first of them.
-/

namespace Libunwind.X86_64

open Dwarf LinearProbe

/-! ## A walk without a cache -/

/-- What is recorded of the frame at an address. -/
structure FrameRecord where
  lastFrame : Bool
  frame : Frame

def FrameRecord.at (record : FrameRecord) (rip : Word 64) : CachedFrame :=
  ⟨rip, record.lastFrame, record.frame⟩

section Plain

variable (record : Word 64 → FrameRecord)

/-- The way of a walk that has all records, and reads memory as it is. -/
def recordWays (localOnly : Bool) (as : AddrSpace 64) : TraceWays Unit where
  lookup _ regs _ := pure (some ((record regs.rip).at regs.rip), ())
  step _ f regs _ := traceFrame localOnly false as f regs.cfa regs.rbp regs.rsp

/-- `tdep_trace` by these records -/
def TraceSetting.plainTrace {σ : Type} (setting : TraceSetting σ) (size : Int) (c : X86Cursor)
    (s : σ) : Result TraceOutcome :=
  if size ≤ 0 then pure ⟨.error .inval, []⟩
  else do
    let regs ← setting.initialRegs c s
    let (outcome, _) ←
      (recordWays record setting.host.localOnly (setting.p.space s)).loop size.toNat 0 regs ()
    pure outcome

/-- The cache has records that are right. -/
structure TraceCache.Right (cache : TraceCache) : Prop where
  inv : cache.Inv
  records : ∀ slot < 2 ^ cache.logSize, ∀ rip, cache.keys slot = some rip →
    cache.frames slot = (record rip).at rip

end Plain

/-! ## Reads that are validated -/

section Validated

variable {α β : Type} {localOnly validate : Bool} {as : AddrSpace 64}

/-- If the one does nothing undefined, the other is the same. -/
def SameIfDefined (r r' : Result α) : Prop := Defined r → r' = r

theorem SameIfDefined.rfl {r : Result α} : SameIfDefined r r := fun _ => .refl _

theorem SameIfDefined.bind {first first' : Result α} {rest rest' : α → Result β}
    (same : SameIfDefined first first') (later : ∀ a, SameIfDefined (rest a) (rest' a)) :
    SameIfDefined (first >>= rest) (first' >>= rest') := by
  intro isDefined
  cases isFirst : first with
  | error e =>
      rw [isFirst] at same isDefined
      rw [same fun undefined => isDefined (congrArg Except.error (Except.error.inj undefined))]
      exact .refl _
  | ok a =>
      rw [isFirst] at same isDefined
      rw [same (.ok a)]
      exact later a isDefined

theorem accessMemFast_validated (null : NullUnmapped as) (addr : Word 64) :
    SameIfDefined (accessMemFast localOnly false as addr) (accessMemFast localOnly validate as addr) := by
  intro isDefined
  cases isRead : accessMemFast localOnly false as addr with
  | ok val => exact null.accessMemFast.mpr (null.accessMemFast.mp isRead)
  | error e =>
      cases localOnly with
      | false => exact isRead
      | true =>
          rw [accessMemFast, if_pos (by rfl)] at isDefined isRead
          cases stored : as.accessMem addr with
          | ok val =>
              rw [stored] at isRead
              cases isRead
          | error code =>
              rw [stored] at isDefined
              exact absurd (.refl _) isDefined

theorem standardStep_validated (null : NullUnmapped as) (f : Frame) (cfa b : Word 64) :
    SameIfDefined (f.standardStep (accessMemFast localOnly false as) cfa b)
      (f.standardStep (accessMemFast localOnly validate as) cfa b) := by
  unfold Frame.standardStep
  by_cases saved : f.rbpCfaOffset ≠ -1
  · simp only [if_pos saved]
    exact (accessMemFast_validated null _).bind fun rip =>
      (accessMemFast_validated null _).bind fun rbp => .rfl
  · simp only [if_neg saved]
    exact (accessMemFast_validated null _).bind fun rip => .rfl

/-- A step that does nothing undefined is the same if its reads are validated. -/
theorem traceFrame_validated (null : NullUnmapped as) (f : Frame) (cfa b s : Word 64) :
    SameIfDefined (traceFrame localOnly false as f cfa b s) (traceFrame localOnly validate as f cfa b s) := by
  unfold traceFrame
  cases f.frameType with
  | guessed => exact .rfl
  | standard => exact standardStep_validated null f _ b
  | sigreturn =>
      exact (accessMemFast_validated null _).bind fun rip =>
        (accessMemFast_validated null _).bind fun rbp =>
          (accessMemFast_validated null _).bind fun rsp => .rfl
  | aligned =>
      exact (accessMemFast_validated null _).bind fun cfa =>
        (accessMemFast_validated null _).bind fun rip =>
          (accessMemFast_validated null _).bind fun rbp => .rfl
  | other => exact .rfl

end Validated

/-! ## Lookups -/

namespace TraceCache

section Lookups

variable {σ : Type} {host : Host} {p : Process σ 64} {call : TraceCall σ} {cache : TraceCache}
  {record : Word 64 → FrameRecord}

/-- No larger table can be had. -/
def Refuses (cache : TraceCache) (granted : Bool) : Prop :=
  ∃ code, cache.expand granted = .error (.err code)

/-- The address has no slot. -/
def Misses (cache : TraceCache) (rip : Word 64) : Prop :=
  ∀ slot < 2 ^ cache.logSize, cache.keys slot ≠ some rip

/-- A lookup that finds nothing is refused, or fills a slot of this table or of an empty one. -/
structure FillsSlot (host : Host) (p : Process σ 64) (call : TraceCall σ) (cache : TraceCache)
    (table : TraceCache) (slot : ℕ) (looked : Result (Option ℕ × TraceCache × X86Cursor × σ)) :
    Prop where
  isTable : table = cache ∨ ∀ slot, table.keys slot = none
  ready : table.Ready call.rip slot
  fills : looked = table.fill host p call slot

variable (host p call) in
theorem Inv.expandAndFill_fills (inv : cache.Inv) :
    (cache.Refuses call.granted ∧
        cache.expandAndFill host p call = .ok (none, cache, call.cursor, call.process)) ∨
      ∃ table slot, FillsSlot host p call cache table slot (cache.expandAndFill host p call) := by
  rcases expand_cases inv.small call.granted with ⟨small, expanded⟩ | failed
  · right
    have large : hashMinBits ≤ cache.logSize + 2 := Nat.le_add_right_of_le inv.large
    refine ⟨_, home (cache.logSize + 2) call.rip, .inr keys_of_empty, ready_of_empty small large, ?_⟩
    have size : cacheSizeOf (cache.logSize + 2) = .ok _ := cacheSizeOf_ok (by omega)
    rw [expandAndFill, expanded]
    dsimp only
    rw [size, ok_bind, home]
  · left
    refine ⟨⟨_, failed⟩, ?_⟩
    rw [expandAndFill, failed]
    rfl

variable (host p) in
theorem Inv.traceLookup_misses (inv : cache.Inv) (notNull : call.rip ≠ 0)
    (misses : cache.Misses call.rip) :
    (cache.Refuses call.granted ∧
        cache.traceLookup host p call = .ok (none, cache, call.cursor, call.process)) ∨
      ∃ table slot, FillsSlot host p call cache table slot (cache.traceLookup host p call) := by
  have isHome : home cache.logSize call.rip % 2 ^ cache.logSize = home cache.logSize call.rip :=
    Nat.mod_eq_of_lt (home_lt (by have := inv.small; omega))
  have looked := inv.traceLookup_eq host p call notNull
  rw [← isHome] at looked
  cases ends : probe (2 ^ cache.logSize) cache.keys call.rip 16
      (home cache.logSize call.rip % 2 ^ cache.logSize) with
  | found slot =>
      exact absurd (key_of_found ends) (misses slot (lt_of_found (Nat.two_pow_pos _) ends))
  | free slot =>
      rw [ends] at looked
      dsimp only at looked
      by_cases full : 2 ^ cache.logSize / 2 ≤ cache.used
      · rw [if_pos full] at looked
        rw [looked]
        exact inv.expandAndFill_fills host p call
      · rw [if_neg full] at looked
        obtain ⟨isFree, reaches⟩ := reaches_of_free ends
        exact .inr ⟨cache, slot, .inl rfl, ⟨inv, reaches.lt (Nat.two_pow_pos _), isFree, reaches,
          Nat.lt_of_not_le full⟩, looked⟩
  | collided =>
      rw [ends] at looked
      rw [looked]
      exact inv.expandAndFill_fills host p call

/-- A table to which a record that is right is added is right. -/
theorem right_filled {table : TraceCache} {slot : ℕ} {rip : Word 64} (notNull : rip ≠ 0)
    (ready : table.Ready rip slot)
    (records : ∀ slot < 2 ^ table.logSize, ∀ rip, table.keys slot = some rip →
      table.frames slot = (record rip).at rip) :
    (table.filled slot ((record rip).at rip)).Right record := by
  have isFor : ((record rip).at rip).virtualAddress = rip := rfl
  refine ⟨ready.inv_filled notNull isFor, fun there inside other holds => ?_⟩
  rw [keys_filled notNull isFor] at holds
  by_cases here : there = slot
  · subst here
    rw [Function.update_self] at holds
    obtain rfl := Option.some.inj holds
    exact Function.update_self ..
  · rw [Function.update_of_ne here] at holds
    exact (Function.update_of_ne here ..).trans (records there inside other holds)

variable (call) in
/-- A lookup returns a record that is right, unless it is refused. -/
theorem Right.traceLookup (right : cache.Right record) (notNull : call.rip ≠ 0)
    (fills : cache.Misses call.rip →
      ∃ c s, call.traceInitAddr host p = .ok ((record call.rip).at call.rip, c, s)) :
    (cache.Refuses call.granted ∧
        cache.traceLookup host p call = .ok (none, cache, call.cursor, call.process)) ∨
      ∃ slot cache' c s, cache.traceLookup host p call = .ok (some slot, cache', c, s) ∧
        cache'.frames slot = (record call.rip).at call.rip ∧ cache'.Right record := by
  by_cases found : ∃ slot < 2 ^ cache.logSize, cache.keys slot = some call.rip
  · obtain ⟨slot, inside, holds⟩ := found
    exact .inr ⟨slot, cache, _, _, right.inv.traceLookup_found notNull inside holds,
      right.records slot inside _ holds, right⟩
  · have misses : cache.Misses call.rip := fun slot inside holds => found ⟨slot, inside, holds⟩
    obtain ⟨c, s, filled⟩ := fills misses
    rcases right.inv.traceLookup_misses host p notNull misses with refused | ⟨table, slot, isFilled⟩
    · exact .inl refused
    · obtain ⟨isTable, ready, looked⟩ := isFilled
      rw [ready.fill_eq, filled, ok_bind] at looked
      refine .inr ⟨slot, _, c, s, looked, Function.update_self .., right_filled notNull ready ?_⟩
      rcases isTable with rfl | isEmpty
      · exact right.records
      · intro slot _ rip holds
        rw [isEmpty] at holds
        cases holds

end Lookups

end TraceCache

/-! ## Traces -/

/-- The rounds that the loop comes to, with room for as many addresses. -/
inductive TraceWays.Visits {S : Type} (ways : TraceWays S) :
    ℕ → ℕ → TraceRegs → S → ℕ → TraceRegs → S → Prop where
  | here {room depth : ℕ} {regs : TraceRegs} {s : S} : Visits ways (room + 1) depth regs s depth regs s
  | later {room depth d : ℕ} {regs next r : TraceRegs} {s s' t : S} :
      ways.round depth regs s = .ok (.next next, s') →
      Visits ways room (depth + 1) next s' d r t → Visits ways (room + 1) depth regs s d r t

theorem TraceRegs.backedUp_ne_zero {regs : TraceRegs} (above : 0x4000 ≤ regs.rip) :
    regs.backedUp.rip ≠ 0 := by
  rw [backedUp]
  cases regs.usePrevInstr with
  | true =>
      simp only [if_pos]
      bv_omega
  | false =>
      simp only [Bool.false_eq_true, if_false]
      bv_omega

namespace TraceSetting

variable {σ : Type}

/-- What the cache relies on at a round: a record that is filled in is that of its address, and the
    frame is not in the memory that was written for it. -/
structure Steady (setting : TraceSetting σ) (record : Word 64 → FrameRecord) (as : AddrSpace 64)
    (depth : ℕ) (regs : TraceRegs) (s : TraceState σ) : Prop where
  fills : s.cache.Misses regs.rip → ∃ c s',
    (setting.callAt depth regs s).traceInitAddr setting.host setting.p =
      .ok ((record regs.rip).at regs.rip, c, s')
  null : ∀ f after, setting.lookup depth regs s = .ok (some f, after) →
    NullUnmapped (setting.p.space after.process)
  undisturbed : ∀ f after, setting.lookup depth regs s = .ok (some f, after) →
    traceFrame setting.host.localOnly false (setting.p.space after.process) f.frame regs.cfa regs.rbp
        regs.rsp =
      traceFrame setting.host.localOnly false as f.frame regs.cfa regs.rbp regs.rsp

/-- A trace ended early, as the cache could not be expanded. -/
structure CutShort (outcome whole : TraceOutcome) : Prop where
  ret : outcome.ret = .error .noinfo
  stored : outcome.stored <+: whole.stored

section Rounds

variable {setting : TraceSetting σ} {record : Word 64 → FrameRecord} {as : AddrSpace 64} {depth : ℕ}
  {regs : TraceRegs} {s after : TraceState σ}

theorem lookup_steady (right : s.cache.Right record) (notNull : regs.rip ≠ 0)
    (steady : setting.Steady record as depth regs s) :
    (∃ after, setting.lookup depth regs s = .ok (none, after) ∧ after.cache.Right record ∧
        s.cache.Refuses (setting.granted depth)) ∨
      ∃ after, setting.lookup depth regs s = .ok (some ((record regs.rip).at regs.rip), after) ∧
        after.cache.Right record := by
  rcases right.traceLookup (setting.callAt depth regs s) notNull steady.fills with
    ⟨refuses, looked⟩ | ⟨slot, cache, c, s', looked, isRecord, right'⟩
  · refine .inl ⟨⟨s.cache, (setting.callAt depth regs s).cursor, s.process⟩, ?_, right, refuses⟩
    rw [lookup, looked]
    rfl
  · refine .inr ⟨⟨cache, c, s'⟩, ?_, right'⟩
    change _ = (record regs.rip).at regs.rip at isRecord
    rw [lookup, looked, ← isRecord]
    rfl

theorem round_right (right : s.cache.Right record) (notNull : regs.backedUp.rip ≠ 0)
    (steady : setting.Steady record as depth regs.backedUp s) {turn : TraceTurn}
    (ends : setting.ways.round depth regs s = .ok (turn, after)) : after.cache.Right record := by
  obtain ⟨⟨found, s₁⟩, looked, ends⟩ := bind_eq_ok.mp ends
  rcases lookup_steady right notNull steady with ⟨s₂, looked', right', -⟩ | ⟨s₂, looked', right'⟩
  · cases looked'.symm.trans looked
    cases ends
    exact right'
  · cases looked'.symm.trans looked
    obtain ⟨turn', -, ends⟩ := bind_eq_ok.mp ends
    cases ends
    exact right'

/-- A record is stepped over as in the memory that the walk started with. -/
theorem stepOver_agrees (null : NullUnmapped (setting.p.space after.process)) {f : CachedFrame}
    (undisturbed : traceFrame setting.host.localOnly false (setting.p.space after.process) f.frame
        regs.cfa regs.rbp regs.rsp =
      traceFrame setting.host.localOnly false as f.frame regs.cfa regs.rbp regs.rsp)
    {turn : TraceTurn}
    (plain : (recordWays record setting.host.localOnly as).stepOver depth regs f () = .ok turn) :
    setting.ways.stepOver depth regs f after = .ok turn := by
  rw [TraceWays.stepOver] at plain ⊢
  split at plain
  next other => cases plain
  next isFor =>
    rw [if_neg isFor]
    split at plain
    next last =>
      rw [if_pos last]
      exact plain
    next more =>
      rw [if_neg more]
      have isDefined : Defined (traceFrame setting.host.localOnly false as f.frame regs.cfa regs.rbp
          regs.rsp) := by
        intro undefined
        rw [show (recordWays record setting.host.localOnly as).step depth f.frame regs () =
          .error .undefined from undefined] at plain
        cases plain
      have same : setting.ways.step depth f.frame regs after =
          (recordWays record setting.host.localOnly as).step depth f.frame regs () := by
        rw [← undisturbed] at isDefined
        exact (traceFrame_validated null f.frame _ _ _ isDefined).trans undisturbed
      rw [same]
      exact plain

theorem round_agrees (right : s.cache.Right record) (notNull : regs.backedUp.rip ≠ 0)
    (steady : setting.Steady record as depth regs.backedUp s)
    {turn : TraceTurn}
    (plain : (recordWays record setting.host.localOnly as).round depth regs () = .ok (turn, ())) :
    ∃ after, setting.ways.round depth regs s = .ok (turn, after) ∨
      s.cache.Refuses (setting.granted depth) ∧
        setting.ways.round depth regs s = .ok (.done (.error .noinfo), after) := by
  rcases lookup_steady right notNull steady with ⟨after, looked, -, refuses⟩ | ⟨after, looked, -⟩
  · exact ⟨after, .inr ⟨refuses, TraceWays.round_none looked⟩⟩
  · refine ⟨after, .inl ?_⟩
    rw [TraceWays.round_some rfl] at plain
    obtain ⟨turn', stepped, same⟩ := bind_eq_ok.mp plain
    cases same
    have agrees :=
      stepOver_agrees (steady.null _ _ looked) (steady.undisturbed _ _ looked) stepped
    rw [TraceWays.round_some looked, agrees, ok_bind]

variable {room : ℕ}

theorem loop_right (right : s.cache.Right record) (notNull : regs.backedUp.rip ≠ 0)
    (steady : ∀ d r t, setting.ways.Visits room depth regs s d r t →
      setting.Steady record as d r.backedUp t)
    {outcome : TraceOutcome} (ends : setting.ways.loop room depth regs s = .ok (outcome, after)) :
    after.cache.Right record := by
  induction room generalizing depth regs s outcome with
  | zero =>
      cases ends
      exact right
  | succ room ih =>
      obtain ⟨⟨turn, s₁⟩, isRound, ends⟩ := bind_eq_ok.mp ends
      have right₁ := round_right right notNull (steady _ _ _ .here) isRound
      cases turn with
      | done ret =>
          cases ends
          exact right₁
      | next regs' =>
          obtain ⟨⟨rest, s₂⟩, isRest, ends⟩ := bind_eq_ok.mp ends
          cases ends
          exact ih right₁ (TraceRegs.backedUp_ne_zero (TraceWays.round_next isRound))
            (fun d r t visits => steady d r t (.later isRound visits)) isRest

/-- The loop by the cache stores what the walk by the records does, as far as it goes. -/
theorem loop_agrees (right : s.cache.Right record) (notNull : regs.backedUp.rip ≠ 0)
    (steady : ∀ d r t, setting.ways.Visits room depth regs s d r t →
      setting.Steady record as d r.backedUp t)
    {whole : TraceOutcome}
    (plain : (recordWays record setting.host.localOnly as).loop room depth regs () = .ok (whole, ())) :
    ∃ outcome after, setting.ways.loop room depth regs s = .ok (outcome, after) ∧
      (outcome = whole ∨ CutShort outcome whole ∧ ∃ d r t,
        setting.ways.Visits room depth regs s d r t ∧ t.cache.Refuses (setting.granted d)) := by
  induction room generalizing depth regs s whole with
  | zero =>
      cases plain
      exact ⟨_, s, rfl, .inl rfl⟩
  | succ room ih =>
      obtain ⟨⟨turn, ⟨⟩⟩, isRound, plain⟩ := bind_eq_ok.mp plain
      obtain ⟨s₁, isRound' | ⟨refuses, isRound'⟩⟩ :=
        round_agrees right notNull (steady _ _ _ .here) isRound
      · cases turn with
        | done ret =>
            cases plain
            refine ⟨_, s₁, ?_, .inl rfl⟩
            rw [TraceWays.loop_succ, isRound']
            rfl
        | next regs' =>
            obtain ⟨⟨rest, ⟨⟩⟩, isRest, plain⟩ := bind_eq_ok.mp plain
            cases plain
            obtain ⟨outcome, after, isLoop, agrees⟩ :=
              ih (round_right right notNull (steady _ _ _ .here) isRound')
                (TraceRegs.backedUp_ne_zero (TraceWays.round_next isRound))
                (fun d r t visits => steady d r t (.later isRound' visits)) isRest
            refine ⟨⟨outcome.ret, regs'.rip :: outcome.stored⟩, after, ?_, ?_⟩
            · rw [TraceWays.loop_succ, isRound', ok_bind]
              dsimp only
              rw [isLoop]
              rfl
            · rcases agrees with rfl | ⟨cut, d, r, t, visits, refuses⟩
              · exact .inl rfl
              · exact .inr ⟨⟨cut.ret, List.cons_prefix_cons.mpr ⟨rfl, cut.stored⟩⟩, d, r, t,
                  .later isRound' visits, refuses⟩
      · refine ⟨⟨.error .noinfo, []⟩, s₁, ?_, .inr ⟨⟨rfl, List.nil_prefix⟩, _, _, _, .here, refuses⟩⟩
        rw [TraceWays.loop_succ, isRound']
        rfl

end Rounds

end TraceSetting

/-! ## The traces of a thread -/

/-- A call of `tdep_trace`, and whether a cache can be created for it. -/
structure TraceEvent (σ : Type) where
  setting : TraceSetting σ
  size : Int
  created : Bool
  cursor : X86Cursor
  process : σ

namespace TraceEvent

variable {σ : Type} (record : Word 64 → FrameRecord) (tls : Option TraceCache) (event : TraceEvent σ)

def trace : Result (TraceOutcome × Option TraceCache × σ) :=
  event.setting.tdepTrace event.size event.created tls event.cursor event.process

/-- The trace without a cache -/
def plainTrace : Result TraceOutcome :=
  event.setting.plainTrace record event.size event.cursor event.process

/-- The rounds of the trace -/
def Visits (d : ℕ) (r : TraceRegs) (t : TraceState σ) : Prop :=
  ∃ cache regs, traceCacheGet event.created tls = some cache ∧
    event.setting.initialRegs event.cursor event.process = .ok regs ∧
    event.setting.ways.Visits event.size.toNat 0 regs
      ⟨cache, { event.cursor with stashFrames := true }, event.process⟩ d r t

/-- A trace that ends, and the cache of the thread after it. -/
inductive Step : Option TraceCache → TraceEvent σ → Option TraceCache → Prop where
  | ends {tls tls' : Option TraceCache} {event : TraceEvent σ} {outcome : TraceOutcome} {s : σ} :
      event.trace tls = .ok (outcome, tls', s) → Step tls event tls'

/-- What the cache relies on. -/
structure Allowed : Prop where
  notNull : ∀ regs, event.setting.initialRegs event.cursor event.process = .ok regs →
    regs.backedUp.rip ≠ 0
  steady : ∀ d r t, event.Visits tls d r t →
    event.setting.Steady record (event.setting.p.space event.process) d r.backedUp t

/-- What a trace comes to where one without a cache comes to `whole`. -/
inductive Agrees (whole outcome : TraceOutcome) : Prop where
  | same : outcome = whole → Agrees whole outcome
  | noCache : traceCacheGet event.created tls = none → outcome = ⟨.error .nomem, []⟩ →
      Agrees whole outcome
  | cutShort {d : ℕ} {r : TraceRegs} {t : TraceState σ} : event.Visits tls d r t →
      t.cache.Refuses (event.setting.granted d) → TraceSetting.CutShort outcome whole →
      Agrees whole outcome

variable {record tls event}

theorem right_create : TraceCache.create.Right record :=
  ⟨TraceCache.inv_create, fun slot _ _ holds => by
    rw [show TraceCache.create.keys slot = none from rfl] at holds
    cases holds⟩

theorem right_of_traceCacheGet (right : ∀ cache ∈ tls, cache.Right record) {created : Bool}
    {cache : TraceCache} (isCache : traceCacheGet created tls = some cache) : cache.Right record := by
  cases tls with
  | some _ =>
      cases isCache
      exact right cache rfl
  | none =>
      rw [traceCacheGet] at isCache
      split at isCache
      · cases isCache
        exact right_create
      · cases isCache

/-- What a trace keeps. -/
theorem Step.right {tls' : Option TraceCache} (right : ∀ cache ∈ tls, cache.Right record)
    (allowed : event.Allowed record tls) (stepped : Step tls event tls') :
    ∀ cache ∈ tls', cache.Right record := by
  obtain ⟨traced⟩ := stepped
  by_cases positive : 0 < event.size
  · obtain ⟨regs, isRegs, traced⟩ := (TraceSetting.tdepTrace_eq_ok positive).mp traced
    cases isCache : traceCacheGet event.created tls with
    | none =>
        rw [isCache] at traced
        obtain ⟨-, rfl, -⟩ := traced
        intro cache isSome
        cases isSome
    | some cache =>
        rw [isCache] at traced
        obtain ⟨after, isLoop, rfl, -⟩ := traced
        have right' := TraceSetting.loop_right (s := ⟨cache, { event.cursor with stashFrames := true },
          event.process⟩) (right_of_traceCacheGet right isCache) (allowed.notNull regs isRegs)
          (fun d r t visits => allowed.steady d r t ⟨cache, regs, isCache, isRegs, visits⟩) isLoop
        intro last isLast
        cases isLast
        exact right'
  · rw [TraceEvent.trace, TraceSetting.tdepTrace, if_pos (not_lt.mp positive)] at traced
    cases traced
    exact right

theorem agrees_of_right (right : ∀ cache ∈ tls, cache.Right record)
    (allowed : event.Allowed record tls) {whole : TraceOutcome}
    (plain : event.plainTrace record = .ok whole) :
    ∃ outcome tls' s, event.trace tls = .ok (outcome, tls', s) ∧ event.Agrees tls whole outcome := by
  rw [plainTrace, TraceSetting.plainTrace] at plain
  split at plain
  next none =>
    cases plain
    refine ⟨_, tls, event.process, ?_, .same rfl⟩
    rw [trace, TraceSetting.tdepTrace, if_pos none]
    rfl
  next positive =>
    obtain ⟨regs, isRegs, plain⟩ := bind_eq_ok.mp plain
    obtain ⟨⟨rest, ⟨⟩⟩, isPlain, plain⟩ := bind_eq_ok.mp plain
    cases plain
    simp only [trace, TraceSetting.tdepTrace_eq_ok (not_le.mp positive)]
    cases isCache : traceCacheGet event.created tls with
    | none => exact ⟨_, _, _, ⟨regs, isRegs, rfl, rfl, rfl⟩, .noCache isCache rfl⟩
    | some cache =>
        obtain ⟨outcome, after, isLoop, agrees⟩ := TraceSetting.loop_agrees
          (s := ⟨cache, { event.cursor with stashFrames := true }, event.process⟩)
          (right_of_traceCacheGet right isCache) (allowed.notNull regs isRegs)
          (fun d r t visits => allowed.steady d r t ⟨cache, regs, isCache, isRegs, visits⟩) isPlain
        refine ⟨outcome, _, _, ⟨regs, isRegs, after, isLoop, rfl, rfl⟩, ?_⟩
        rcases agrees with same | ⟨cut, d, r, t, visits, refuses⟩
        · exact .same same
        · exact .cutShort ⟨cache, regs, isCache, isRegs, visits⟩ refuses cut

/-- What is in the cache of a thread is right as long as every trace met the condition. -/
theorem stays_right (run : Run (· = none) (Step (σ := σ)) (Allowed record) tls) :
    ∀ cache ∈ tls, cache.Right record := by
  refine run.invariant (fun tls isNone cache isSome => ?_)
    fun tls event tls' right allowed stepped => stepped.right right allowed
  rw [isNone] at isSome
  cases isSome

/-- Whatever a thread has traced before, a trace that meets the condition comes to what it would without
    a cache. -/
theorem agrees_of_run (run : Run (· = none) (Step (σ := σ)) (Allowed record) tls)
    (allowed : event.Allowed record tls) {whole : TraceOutcome}
    (plain : event.plainTrace record = .ok whole) :
    ∃ outcome tls' s, event.trace tls = .ok (outcome, tls', s) ∧ event.Agrees tls whole outcome :=
  agrees_of_right (stays_right run) allowed plain

end TraceEvent

/-- A trace with room for one address. -/
def calledTrace : TraceEvent (Traced 64) where
  setting := calledSetting
  size := 1
  created := true
  cursor := calledCursor
  process := calledTraced

def calledRecord (_ : Word 64) : FrameRecord where
  lastFrame := false
  frame := { frameType := .guessed, cfaRegRsp := false, cfaRegOffset := 16, rbpCfaOffset := -16 }

def calledRegs : TraceRegs := ⟨0x7000, 0x402000, 0x7010, 0x7000, false⟩

theorem calledTrace_allowed : calledTrace.Allowed calledRecord none := by
  have isRegs : calledTrace.setting.initialRegs calledTrace.cursor calledTrace.process =
      .ok calledRegs := rfl
  refine ⟨fun regs same => ?_, fun d r t visits => ?_⟩
  · cases isRegs.symm.trans same
    decide
  · obtain ⟨cache, regs, isCache, same, visits⟩ := visits
    cases isCache
    cases isRegs.symm.trans same
    have one : calledTrace.size.toNat = 1 := rfl
    rw [one] at visits
    cases visits with
    | here =>
        refine ⟨fun _ => ⟨_, _, rfl⟩, fun f after looked => ?_, fun f after looked => ?_⟩
        · cases looked
          intro val read
          cases read
        · cases looked
          rfl
    | later _ visits => cases visits

/-- The first trace of a thread stores the return address, as the walk by its record does. -/
theorem calledTrace_agrees :
    ∃ outcome tls s, calledTrace.trace none = .ok (outcome, tls, s) ∧
      calledTrace.Agrees none ⟨.ok (), [0x401000]⟩ outcome :=
  TraceEvent.agrees_of_run (.start rfl) calledTrace_allowed rfl

end Libunwind.X86_64
