import Mathlib.Logic.Function.Basic
import Libunwind.Library.Run

/-! # Initialisation of the library

Every way into the library calls `tdep_init` if `tdep_init_done` is not set. Threads come in at any
time, and so do signal handlers that unwind, on top of what their thread is doing: `tdep_init` blocks
all signals before it takes its lock.
-/

namespace Libunwind.Init

/-- What `tdep_init` initialises: `mi_init`, `dwarf_init` and the local address space. -/
inductive Part where
  | mi
  | dwarf
  | localAddrSpace
  deriving DecidableEq, Repr

/-- What a call is about to do. -/
inductive Place where
  /-- The load of `tdep_init_done` outside of the lock. -/
  | entry
  | mask
  | lock
  /-- The load of `tdep_init_done` inside of the lock. -/
  | recheck
  | init (part : Part)
  | store
  | unlock
  | unmask
  /-- What the function is called for. -/
  | body
  deriving DecidableEq, Repr

/-- A call into the library; `saved_mask` says whether the thread's signals were blocked. -/
structure Call where
  place : Place
  savedMask : Bool
  deriving DecidableEq, Repr

/-- The calls of a thread, the innermost first; of the mask it matters whether signals are blocked. -/
structure State (ι : Type) where
  initDone : Bool
  lock : Option ι
  blocked : ι → Bool
  calls : ι → List Call
  parts : List Part

inductive Event (ι : Type) where
  /-- A thread calls the library, from a signal handler or not. -/
  | call (i : ι)
  | advance (i : ι)
  | ret (i : ι)
  /-- The program sets the mask of a thread outside of the library. -/
  | setMask (i : ι) (blocks : Bool)

section Source

variable {ι : Type} [DecidableEq ι]

def State.start (blocked : ι → Bool) : State ι where
  initDone := false
  lock := none
  blocked
  calls _ := []
  parts := []

/-- A thread that is in `tdep_init` can be interrupted as long as its signals are not blocked. -/
def State.canCall (s : State ι) (i : ι) : Bool :=
  match s.calls i with
  | [] => true
  | call :: _ => !s.blocked i || call.place = .body

def State.setPlace (s : State ι) (i : ι) (place : Place) : State ι :=
  { s with
    calls := Function.update s.calls i <|
      match s.calls i with
      | [] => []
      | call :: outer => { call with place } :: outer }

def Part.next : Part → Place
  | .mi => .init .dwarf
  | .dwarf => .init .localAddrSpace
  | .localAddrSpace => .store

/-- A step of a call. -/
def State.advance (s : State ι) (i : ι) : Option (State ι) :=
  match s.calls i with
  | [] => none
  | call :: outer =>
      match call.place with
      | .entry => some (s.setPlace i (if s.initDone then .body else .mask))
      | .mask => some
          { s with
            blocked := Function.update s.blocked i true
            calls := Function.update s.calls i (⟨.lock, s.blocked i⟩ :: outer) }
      | .lock =>
          match s.lock with
          | none => some { s.setPlace i .recheck with lock := some i }
          | some _ => none
      | .recheck => some (s.setPlace i (if s.initDone then .unlock else .init .mi))
      | .init part => some { s.setPlace i part.next with parts := s.parts ++ [part] }
      | .store => some { s.setPlace i .unlock with initDone := true }
      | .unlock => some { s.setPlace i .unmask with lock := none }
      | .unmask => some { s.setPlace i .body with
          blocked := Function.update s.blocked i call.savedMask }
      | .body => none

def next (s : State ι) : Event ι → Option (State ι)
  | .call i =>
      if s.canCall i then
        some { s with calls := Function.update s.calls i (⟨.entry, false⟩ :: s.calls i) }
      else none
  | .advance i => s.advance i
  | .ret i =>
      match s.calls i with
      | ⟨.body, _⟩ :: outer => some { s with calls := Function.update s.calls i outer }
      | _ => none
  | .setMask i blocks =>
      if s.calls i = [] then some { s with blocked := Function.update s.blocked i blocks } else none

end Source

/-! ## What holds in every run -/

/-- Signals are blocked here. -/
def Place.blocks : Place → Bool
  | .lock | .recheck | .init _ | .store | .unlock | .unmask => true
  | _ => false

/-- The lock is held here. -/
def Place.holds : Place → Bool
  | .recheck | .init _ | .store | .unlock => true
  | _ => false

/-- A call gets here only when all is initialised. -/
def Place.past : Place → Bool
  | .unlock | .unmask | .body => true
  | _ => false

/-- A call gets here only when something is not initialised. -/
def Place.pending : Place → Bool
  | .init _ | .store => true
  | _ => false

def allParts : List Part := [.mi, .dwarf, .localAddrSpace]

/-- What the holder of the lock has initialised here. -/
def Place.made : Place → List Part
  | .init .dwarf => [.mi]
  | .init .localAddrSpace => [.mi, .dwarf]
  | .store => allParts
  | _ => []

section Invariant

variable {ι : Type} {s s' : State ι} {i j : ι} {call : Call} {outer : List Call} {e : Event ι}

/-- The calls of a thread: only the innermost can be in `tdep_init`. -/
structure Thread (s : State ι) (i : ι) : Prop where
  outer {call : Call} {outer : List Call} : s.calls i = call :: outer →
    ∀ c ∈ outer, c.place.blocks = false
  blocked {call : Call} {outer : List Call} : s.calls i = call :: outer →
    call.place.blocks = true → s.blocked i = true
  holds : s.lock = some i ↔ ∃ call outer, s.calls i = call :: outer ∧ call.place.holds = true
  past : ∀ call ∈ s.calls i, call.place.past = true → s.initDone = true
  pending {call : Call} {outer : List Call} : s.calls i = call :: outer →
    call.place.pending = true → s.initDone = false
  made {call : Call} {outer : List Call} : s.calls i = call :: outer → call.place.holds = true →
    s.initDone = false → s.parts = call.place.made

/-- What is initialised is what the holder of the lock has initialised. -/
structure Orderly (s : State ι) : Prop where
  threads : ∀ i, Thread s i
  done : s.initDone = true → s.parts = allParts
  free : s.lock = none → s.initDone = false → s.parts = []

theorem start_orderly (blocked : ι → Bool) : Orderly (State.start blocked) where
  threads i :=
    { outer := fun isTop => by cases isTop
      blocked := fun isTop => by cases isTop
      holds := by
        refine ⟨fun held => (by cases held), ?_⟩
        rintro ⟨_, _, isTop, -⟩
        cases isTop
      past := fun _ isCall => by cases isCall
      pending := fun isTop => by cases isTop
      made := fun isTop => by cases isTop }
  done isDone := by cases isDone
  free _ _ := rfl

/-- A thread whose innermost call is known. -/
theorem Thread.of_top (isTop : s.calls i = call :: outer)
    (below : ∀ c ∈ outer, c.place.blocks = false)
    (blocked : call.place.blocks = true → s.blocked i = true)
    (holds : s.lock = some i ↔ call.place.holds = true)
    (past : ∀ c ∈ call :: outer, c.place.past = true → s.initDone = true)
    (pending : call.place.pending = true → s.initDone = false)
    (made : call.place.holds = true → s.initDone = false → s.parts = call.place.made) :
    Thread s i where
  outer isTop' := by
    cases isTop.symm.trans isTop'
    exact below
  blocked isTop' := by
    cases isTop.symm.trans isTop'
    exact blocked
  holds := by
    rw [holds]
    refine ⟨fun held => ⟨call, outer, isTop, held⟩, ?_⟩
    rintro ⟨call', outer', isTop', held⟩
    cases isTop.symm.trans isTop'
    exact held
  past := by
    rw [isTop]
    exact past
  pending isTop' := by
    cases isTop.symm.trans isTop'
    exact pending
  made isTop' := by
    cases isTop.symm.trans isTop'
    exact made

theorem Thread.holds_top (thread : Thread s i) (isTop : s.calls i = call :: outer) :
    s.lock = some i ↔ call.place.holds = true := by
  rw [thread.holds]
  refine ⟨?_, fun held => ⟨call, outer, isTop, held⟩⟩
  rintro ⟨call', outer', isTop', held⟩
  cases isTop.symm.trans isTop'
  exact held

theorem Thread.past_outer (thread : Thread s i) (isTop : s.calls i = call :: outer) {c : Call}
    (isOuter : c ∈ outer) (isPast : c.place.past = true) : s.initDone = true :=
  thread.past c (isTop ▸ List.mem_cons_of_mem call isOuter) isPast

theorem Thread.past_top (thread : Thread s i) (isTop : s.calls i = call :: outer)
    (isPast : call.place.past = true) : s.initDone = true :=
  thread.past call (isTop ▸ List.mem_cons_self) isPast

theorem Place.holds_of_pending {place : Place} (pending : place.pending = true) :
    place.holds = true := by
  cases place with
  | init part => rfl
  | store => rfl
  | _ => cases pending

theorem Place.blocks_of_holds {place : Place} (holds : place.holds = true) :
    place.blocks = true := by
  cases place with
  | entry => cases holds
  | mask => cases holds
  | lock => cases holds
  | unmask => cases holds
  | body => cases holds
  | _ => rfl

/-- A thread that does not act. -/
theorem Thread.other (thread : Thread s j) (calls : s'.calls j = s.calls j)
    (blocked : s'.blocked j = s.blocked j) (lock : s'.lock = some j ↔ s.lock = some j)
    (done : s.initDone = true → s'.initDone = true)
    (parts : s.lock = some j → s'.initDone = s.initDone ∧ s'.parts = s.parts) : Thread s' j where
  outer isTop := thread.outer (calls.symm.trans isTop)
  blocked isTop blocks := blocked.trans (thread.blocked (calls.symm.trans isTop) blocks)
  holds := by rw [lock, thread.holds, calls]
  past := by
    rw [calls]
    exact fun call isCall isPast => done (thread.past call isCall isPast)
  pending isTop isPending := by
    have isTop' := calls.symm.trans isTop
    have held := (thread.holds_top isTop').mpr (Place.holds_of_pending isPending)
    exact (parts held).1.trans (thread.pending isTop' isPending)
  made isTop held unset := by
    have isTop' := calls.symm.trans isTop
    obtain ⟨sameDone, sameParts⟩ := parts ((thread.holds_top isTop').mpr held)
    exact sameParts.trans (thread.made isTop' held (sameDone.symm.trans unset))

/-- A thread is interrupted, or goes into the library again, only outside of `tdep_init`. -/
theorem Thread.below_of_canCall (thread : Thread s i) (can : s.canCall i = true) :
    ∀ c ∈ s.calls i, c.place.blocks = false := by
  cases isTop : s.calls i with
  | nil =>
      intro c isCall
      cases isCall
  | cons call outer =>
      intro c isCall
      cases List.mem_cons.mp isCall with
      | inr isOuter => exact thread.outer isTop c isOuter
      | inl isSame =>
          rw [isSame]
          cases blocks : call.place.blocks with
          | false => rfl
          | true =>
              have isBlocked := thread.blocked isTop blocks
              simp only [State.canCall, isTop, isBlocked, Bool.not_true, Bool.false_or,
                decide_eq_true_eq] at can
              rw [can] at blocks
              cases blocks

/-- Another thread does not hold the lock that this one holds. -/
theorem not_held (held : s.lock = some i) (other : j ≠ i) : s.lock ≠ some j := by
  rw [held]
  exact fun same => other (Option.some.inj same).symm

end Invariant

section Steps

variable {ι : Type} [DecidableEq ι] {s s' : State ι} {i j : ι} {call call' : Call}
  {outer : List Call} {e : Event ι}

/-- What the innermost call of a thread may do, when it becomes `call'`. -/
structure Acts (s s' : State ι) (i : ι) (outer : List Call) (call' : Call) : Prop where
  calls : s'.calls = Function.update s.calls i (call' :: outer)
  blocked : ∀ j, j ≠ i → s'.blocked j = s.blocked j
  blocks : call'.place.blocks = true → s'.blocked i = true
  lock : ∀ j, j ≠ i → (s'.lock = some j ↔ s.lock = some j)
  holds : s'.lock = some i ↔ call'.place.holds = true
  initDone : s.initDone = true → s'.initDone = true
  past : call'.place.past = true → s'.initDone = true
  parts : ∀ j, j ≠ i → s.lock = some j → s'.initDone = s.initDone ∧ s'.parts = s.parts
  pending : call'.place.pending = true → s'.initDone = false
  made : call'.place.holds = true → s'.initDone = false → s'.parts = call'.place.made
  done : s'.initDone = true → s'.parts = allParts
  free : s'.lock = none → s'.initDone = false → s'.parts = []

theorem Orderly.act (orderly : Orderly s) (isTop : s.calls i = call :: outer)
    (acts : Acts s s' i outer call') : Orderly s' where
  threads j := by
    by_cases same : j = i
    · rw [same]
      have thread := orderly.threads i
      have isTop' : s'.calls i = call' :: outer := by
        rw [acts.calls]
        exact Function.update_self ..
      refine .of_top isTop' (thread.outer isTop) acts.blocks acts.holds ?_ acts.pending acts.made
      intro c isCall isPast
      cases List.mem_cons.mp isCall with
      | inl isSame =>
          rw [isSame] at isPast
          exact acts.past isPast
      | inr isOuter => exact acts.initDone (thread.past_outer isTop isOuter isPast)
    · have kept : s'.calls j = s.calls j := by
        rw [acts.calls]
        exact Function.update_of_ne same ..
      exact (orderly.threads j).other kept (acts.blocked j same) (acts.lock j same) acts.initDone
        (acts.parts j same)
  done := acts.done
  free := acts.free

theorem setPlace_calls (isTop : s.calls i = call :: outer) (place : Place) :
    (s.setPlace i place).calls =
      Function.update s.calls i ({ call with place } :: outer) := by
  rw [State.setPlace, isTop]

/-- A step that only moves a call on. -/
theorem Orderly.setPlace (orderly : Orderly s) (isTop : s.calls i = call :: outer) {place : Place}
    (blocks : place.blocks = call.place.blocks) (holds : place.holds = call.place.holds)
    (past : place.past = true → s.initDone = true)
    (pending : place.pending = true → s.initDone = false)
    (made : s.initDone = false → call.place.made = place.made) : Orderly (s.setPlace i place) :=
  have thread := orderly.threads i
  orderly.act isTop
    { calls := setPlace_calls isTop place
      blocked := fun _ _ => rfl
      blocks := fun isBlocked => thread.blocked isTop (blocks.symm.trans isBlocked)
      lock := fun _ _ => Iff.rfl
      holds := (thread.holds_top isTop).trans (by rw [holds])
      initDone := id
      past := past
      parts := fun _ _ _ => ⟨rfl, rfl⟩
      pending := pending
      made := fun held unset =>
        (thread.made isTop (holds.symm.trans held) unset).trans (made unset)
      done := orderly.done
      free := orderly.free }

/-- A call blocks the signals of its thread. -/
theorem Orderly.mask (orderly : Orderly s) (isTop : s.calls i = call :: outer)
    (isPlace : call.place = .mask) :
    Orderly { s with
      blocked := Function.update s.blocked i true
      calls := Function.update s.calls i (⟨.lock, s.blocked i⟩ :: outer) } := by
  have free : s.lock ≠ some i := by
    rw [Ne, (orderly.threads i).holds_top isTop, isPlace]
    decide
  exact orderly.act isTop
    { calls := rfl
      blocked := fun j other => Function.update_of_ne other ..
      blocks := fun _ => Function.update_self ..
      lock := fun _ _ => Iff.rfl
      holds := iff_of_false free Bool.false_ne_true
      initDone := id
      past := fun isPast => by cases isPast
      parts := fun _ _ _ => ⟨rfl, rfl⟩
      pending := fun pending => by cases pending
      made := fun held => by cases held
      done := orderly.done
      free := orderly.free }

theorem Orderly.takeLock (orderly : Orderly s) (isTop : s.calls i = call :: outer)
    (isPlace : call.place = .lock) (unlocked : s.lock = none) :
    Orderly { s.setPlace i .recheck with lock := some i } :=
  orderly.act isTop
    { calls := setPlace_calls isTop .recheck
      blocked := fun _ _ => rfl
      blocks := fun _ => (orderly.threads i).blocked isTop (by rw [isPlace]; rfl)
      lock := fun j other => iff_of_false (not_held rfl other) (by simp [unlocked])
      holds := iff_of_true rfl rfl
      initDone := id
      past := fun isPast => by cases isPast
      parts := fun _ _ _ => ⟨rfl, rfl⟩
      pending := fun pending => by cases pending
      made := fun _ unset => orderly.free unlocked unset
      done := orderly.done
      free := fun free => by cases free }

/-- The holder of the lock initialises a part. -/
theorem Orderly.init (orderly : Orderly s) (isTop : s.calls i = call :: outer) {part : Part}
    (isPlace : call.place = .init part) :
    Orderly { s.setPlace i part.next with parts := s.parts ++ [part] } := by
  have thread := orderly.threads i
  have held : s.lock = some i := (thread.holds_top isTop).mpr (by rw [isPlace]; rfl)
  have unset : s.initDone = false := thread.pending isTop (by rw [isPlace]; rfl)
  have before : s.parts = (Place.init part).made :=
    isPlace ▸ thread.made isTop (by rw [isPlace]; rfl) unset
  exact orderly.act isTop
    { calls := setPlace_calls isTop part.next
      blocked := fun _ _ => rfl
      blocks := fun _ => thread.blocked isTop (by rw [isPlace]; rfl)
      lock := fun _ _ => Iff.rfl
      holds := iff_of_true held (by cases part <;> rfl)
      initDone := id
      past := by cases part <;> exact fun isPast => by cases isPast
      parts := fun j other held' => absurd held' (not_held held other)
      pending := fun _ => unset
      made := fun _ _ => by
        change s.parts ++ [part] = part.next.made
        rw [before]
        cases part <;> rfl
      done := fun isDone => by simp [State.setPlace, unset] at isDone
      free := fun free => by simp [State.setPlace, held] at free }

theorem Orderly.store (orderly : Orderly s) (isTop : s.calls i = call :: outer)
    (isPlace : call.place = .store) :
    Orderly { s.setPlace i .unlock with initDone := true } := by
  have thread := orderly.threads i
  have held : s.lock = some i := (thread.holds_top isTop).mpr (by rw [isPlace]; rfl)
  have unset : s.initDone = false := thread.pending isTop (by rw [isPlace]; rfl)
  have all : s.parts = Place.store.made :=
    isPlace ▸ thread.made isTop (by rw [isPlace]; rfl) unset
  exact orderly.act isTop
    { calls := setPlace_calls isTop .unlock
      blocked := fun _ _ => rfl
      blocks := fun _ => thread.blocked isTop (by rw [isPlace]; rfl)
      lock := fun _ _ => Iff.rfl
      holds := iff_of_true held rfl
      initDone := fun _ => rfl
      past := fun _ => rfl
      parts := fun j other held' => absurd held' (not_held held other)
      pending := fun pending => by cases pending
      made := fun _ unset => by cases unset
      done := fun _ => all
      free := fun _ unset => by cases unset }

theorem Orderly.unlock (orderly : Orderly s) (isTop : s.calls i = call :: outer)
    (isPlace : call.place = .unlock) : Orderly { s.setPlace i .unmask with lock := none } := by
  have thread := orderly.threads i
  have held : s.lock = some i := (thread.holds_top isTop).mpr (by rw [isPlace]; rfl)
  have isDone : s.initDone = true := thread.past_top isTop (by rw [isPlace]; rfl)
  exact orderly.act isTop
    { calls := setPlace_calls isTop .unmask
      blocked := fun _ _ => rfl
      blocks := fun _ => thread.blocked isTop (by rw [isPlace]; rfl)
      lock := fun j other => iff_of_false (by simp) (not_held held other)
      holds := iff_of_false (by simp) Bool.false_ne_true
      initDone := id
      past := fun _ => isDone
      parts := fun _ _ _ => ⟨rfl, rfl⟩
      pending := fun pending => by cases pending
      made := fun held => by cases held
      done := orderly.done
      free := fun _ unset => by simp [State.setPlace, isDone] at unset }

theorem Orderly.unmask (orderly : Orderly s) (isTop : s.calls i = call :: outer)
    (isPlace : call.place = .unmask) :
    Orderly { s.setPlace i .body with blocked := Function.update s.blocked i call.savedMask } := by
  have thread := orderly.threads i
  have free : s.lock ≠ some i := by
    rw [Ne, thread.holds_top isTop, isPlace]
    decide
  exact orderly.act isTop
    { calls := setPlace_calls isTop .body
      blocked := fun j other => Function.update_of_ne other ..
      blocks := fun isBlocked => by cases isBlocked
      lock := fun _ _ => Iff.rfl
      holds := iff_of_false free Bool.false_ne_true
      initDone := id
      past := fun _ => thread.past_top isTop (by rw [isPlace]; rfl)
      parts := fun _ _ _ => ⟨rfl, rfl⟩
      pending := fun pending => by cases pending
      made := fun held => by cases held
      done := orderly.done
      free := orderly.free }

theorem Orderly.advance (orderly : Orderly s) (advanced : s.advance i = some s') : Orderly s' := by
  unfold State.advance at advanced
  cases isTop : s.calls i with
  | nil => simp [isTop] at advanced
  | cons call outer =>
      have thread := orderly.threads i
      cases isPlace : call.place with
      | entry =>
          simp only [isTop, isPlace, Option.some.injEq] at advanced
          subst advanced
          cases isDone : s.initDone with
          | true =>
              exact orderly.setPlace isTop (by rw [isPlace]; rfl) (by rw [isPlace]; rfl)
                (fun _ => isDone) (fun pending => by cases pending) (fun _ => by rw [isPlace]; rfl)
          | false =>
              exact orderly.setPlace isTop (by rw [isPlace]; rfl) (by rw [isPlace]; rfl)
                (fun past => by cases past) (fun pending => by cases pending)
                (fun _ => by rw [isPlace]; rfl)
      | mask =>
          simp only [isTop, isPlace, Option.some.injEq] at advanced
          subst advanced
          exact orderly.mask isTop isPlace
      | lock =>
          cases unlocked : s.lock with
          | none =>
              simp only [isTop, isPlace, unlocked, Option.some.injEq] at advanced
              subst advanced
              exact orderly.takeLock isTop isPlace unlocked
          | some holder => simp [isTop, isPlace, unlocked] at advanced
      | recheck =>
          simp only [isTop, isPlace, Option.some.injEq] at advanced
          subst advanced
          cases isDone : s.initDone with
          | true =>
              exact orderly.setPlace isTop (by rw [isPlace]; rfl) (by rw [isPlace]; rfl)
                (fun _ => isDone) (fun pending => by cases pending) (fun _ => by rw [isPlace]; rfl)
          | false =>
              exact orderly.setPlace isTop (by rw [isPlace]; rfl) (by rw [isPlace]; rfl)
                (fun past => by cases past) (fun _ => isDone) (fun _ => by rw [isPlace]; rfl)
      | init part =>
          simp only [isTop, isPlace, Option.some.injEq] at advanced
          subst advanced
          exact orderly.init isTop isPlace
      | store =>
          simp only [isTop, isPlace, Option.some.injEq] at advanced
          subst advanced
          exact orderly.store isTop isPlace
      | unlock =>
          simp only [isTop, isPlace, Option.some.injEq] at advanced
          subst advanced
          exact orderly.unlock isTop isPlace
      | unmask =>
          simp only [isTop, isPlace, Option.some.injEq] at advanced
          subst advanced
          exact orderly.unmask isTop isPlace
      | body => simp [isTop, isPlace] at advanced

/-- A call, or a return, of a thread that is not in `tdep_init`. -/
theorem Orderly.setCalls (orderly : Orderly s) {calls : List Call}
    (blocks : ∀ c ∈ calls, c.place.blocks = false) (below : ∀ c ∈ s.calls i, c.place.blocks = false)
    (past : ∀ c ∈ calls, c.place.past = true → s.initDone = true) :
    Orderly { s with calls := Function.update s.calls i calls } where
  threads j := by
    by_cases same : j = i
    · rw [same]
      have isCalls : Function.update s.calls i calls i = calls := Function.update_self ..
      have none {call : Call} {outer : List Call} (isTop : calls = call :: outer) :
          call.place.blocks ≠ true := by
        rw [blocks call (isTop ▸ List.mem_cons_self)]
        exact Bool.false_ne_true
      refine ⟨fun isTop c isOuter => ?_, fun isTop isBlocked => ?_, ?_, ?_, fun isTop pending => ?_,
        fun isTop held => ?_⟩
      · exact blocks c (isCalls.symm.trans isTop ▸ List.mem_cons_of_mem _ isOuter)
      · exact absurd isBlocked (none (isCalls.symm.trans isTop))
      · refine iff_of_false ?_ ?_
        · rintro held
          obtain ⟨call, outer, isTop, held⟩ := (orderly.threads i).holds.mp held
          have blocked := below call (isTop ▸ List.mem_cons_self)
          rw [Place.blocks_of_holds held] at blocked
          cases blocked
        · rintro ⟨call, outer, isTop, held⟩
          exact none (isCalls.symm.trans isTop) (Place.blocks_of_holds held)
      · exact fun call isCall => past call (isCalls ▸ isCall)
      · exact absurd (Place.blocks_of_holds (Place.holds_of_pending pending))
          (none (isCalls.symm.trans isTop))
      · exact absurd (Place.blocks_of_holds held) (none (isCalls.symm.trans isTop))
    · exact (orderly.threads j).other (Function.update_of_ne same ..) rfl Iff.rfl id
        fun _ => ⟨rfl, rfl⟩
  done := orderly.done
  free := orderly.free

theorem Orderly.step (orderly : Orderly s) (stepped : next s e = some s') : Orderly s' := by
  cases e with
  | advance i => exact orderly.advance stepped
  | call i =>
      simp only [next] at stepped
      split at stepped
      next can =>
        cases stepped
        have below := (orderly.threads i).below_of_canCall can
        refine orderly.setCalls ?_ below ?_
        · intro c isCall
          cases List.mem_cons.mp isCall with
          | inl isNew =>
              rw [isNew]
              rfl
          | inr isOuter => exact below c isOuter
        · intro c isCall isPast
          cases List.mem_cons.mp isCall with
          | inl isNew =>
              rw [isNew] at isPast
              cases isPast
          | inr isOuter => exact (orderly.threads i).past c isOuter isPast
      next => cases stepped
  | ret i =>
      simp only [next] at stepped
      split at stepped
      next savedMask outer isTop =>
        cases stepped
        have below := (orderly.threads i).outer isTop
        refine orderly.setCalls below ?_ fun c isCall => (orderly.threads i).past_outer isTop isCall
        intro c isCall
        rw [isTop] at isCall
        cases List.mem_cons.mp isCall with
        | inl isSame =>
            rw [isSame]
            rfl
        | inr isOuter => exact below c isOuter
      next => cases stepped
  | setMask i blocks =>
      simp only [next] at stepped
      split at stepped
      next outside =>
        cases stepped
        refine ⟨fun j => ?_, orderly.done, orderly.free⟩
        by_cases same : j = i
        · rw [same]
          have thread := orderly.threads i
          refine ⟨thread.outer, fun isTop => ?_, thread.holds, thread.past, thread.pending, thread.made⟩
          cases outside.symm.trans isTop
        · exact (orderly.threads j).other rfl (Function.update_of_ne same ..) Iff.rfl id
            fun _ => ⟨rfl, rfl⟩
      next => cases stepped

/-- A call that has not got past `tdep_init` can go on, or another thread is in its way that can. -/
theorem Orderly.goesOn (orderly : Orderly s) (isTop : s.calls i = call :: outer)
    (waits : call.place ≠ .body) :
    ∃ j s', s.advance j = some s' ∧ (j = i ∨ s.lock = some j) := by
  have moves {j : ι} {call : Call} {outer : List Call} (isTop : s.calls j = call :: outer)
      (notBody : call.place ≠ .body) (notLock : call.place ≠ .lock) :
      ∃ s', s.advance j = some s' := by
    unfold State.advance
    rw [isTop]
    cases isPlace : call.place with
    | body => exact absurd isPlace notBody
    | lock => exact absurd isPlace notLock
    | _ =>
        simp only [isPlace]
        exact ⟨_, rfl⟩
  by_cases isLock : call.place = .lock
  · cases held : s.lock with
    | none =>
        refine ⟨i, { s.setPlace i .recheck with lock := some i }, ?_, .inl rfl⟩
        simp only [State.advance, isTop, isLock, held]
    | some j =>
        obtain ⟨holder, below, isHolder, holds⟩ := (orderly.threads j).holds.mp held
        obtain ⟨s', advanced⟩ := moves isHolder (fun isBody => by rw [isBody] at holds; cases holds)
          (fun isLock => by rw [isLock] at holds; cases holds)
        exact ⟨j, s', advanced, .inr rfl⟩
  · obtain ⟨s', advanced⟩ := moves isTop waits isLock
    exact ⟨i, s', advanced, .inl rfl⟩

theorem Place.made_isPrefix (place : Place) : place.made <+: allParts := by
  cases place with
  | init part => cases part <;> decide
  | _ => decide

/-- In every interleaving of threads and signal handlers each part of the library is initialised at
    most once, in order, all of them before any call goes about its work, and no call is stuck. -/
theorem initialised_once {s : State ι}
    (run : Run (fun s => ∃ blocked, s = State.start blocked) (fun s e s' => next s e = some s')
      (fun _ _ => True) s) :
    s.parts <+: allParts ∧
    (∀ i, ∀ call ∈ s.calls i, call.place = .body → s.parts = allParts) ∧
    ∀ i call outer, s.calls i = call :: outer → call.place ≠ .body →
      ∃ j s', s.advance j = some s' ∧ (j = i ∨ s.lock = some j) := by
  have orderly : Orderly s := by
    apply run.invariant
    · rintro _ ⟨blocked, rfl⟩
      exact start_orderly blocked
    · exact fun s e s' orderly _ stepped => orderly.step stepped
  refine ⟨?_, fun i call isCall isBody => ?_, fun i call outer => orderly.goesOn⟩
  · cases isDone : s.initDone with
    | true => exact orderly.done isDone ▸ List.prefix_rfl
    | false =>
        cases held : s.lock with
        | none => exact orderly.free held isDone ▸ List.nil_prefix
        | some i =>
            obtain ⟨call, outer, isTop, holds⟩ := (orderly.threads i).holds.mp held
            exact (orderly.threads i).made isTop holds isDone ▸ call.place.made_isPrefix
  · exact orderly.done ((orderly.threads i).past call isCall (by rw [isBody]; rfl))

end Steps

/-! ## Two threads, and a signal handler -/

/-- The second thread waits; the first is interrupted before it blocks its signals, and its signal
    handler initialises the library. -/
def interrupted : List (Event Bool) :=
  List.replicate 10 (.advance false) ++
    [.call false, .advance true, .advance true, .advance false, .call true, .call false]

theorem interrupted_initialised : ∃ s,
    follow (fun _ _ => True) next (.start fun _ => false) interrupted = some s ∧
    s.calls false = [⟨.body, false⟩, ⟨.mask, false⟩] ∧ s.calls true = [⟨.lock, false⟩] ∧
    s.parts = allParts ∧ ∃ j s', s.advance j = some s' ∧ (j = true ∨ s.lock = some j) := by
  obtain ⟨s, reached⟩ : ∃ s, follow (fun _ _ => True) next (.start fun _ => false) interrupted =
    some s := ⟨_, rfl⟩
  have first : s.calls false = [⟨.body, false⟩, ⟨.mask, false⟩] := by
    cases reached
    rfl
  have second : s.calls true = [⟨.lock, false⟩] := by
    cases reached
    rfl
  obtain ⟨-, initialised, goesOn⟩ := initialised_once
    (Run.follow ⟨fun _ => false, rfl⟩ interrupted reached)
  exact ⟨s, reached, first, second, initialised false _ (first ▸ List.mem_cons_self) rfl,
    goesOn true _ _ second (by decide)⟩

end Libunwind.Init
