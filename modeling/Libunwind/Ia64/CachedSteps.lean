import Libunwind.Ia64.ProcLookup
import Libunwind.Ia64.ScriptCache

/-! # Steps with and without the script cache

`unw_step` and `unw_get_proc_info` of a cursor, as they are for an address space with the caching policy
`UNW_CACHE_NONE`, and as they are with the cache.
-/

namespace Libunwind.Ia64

/-- `struct cursor`, but for what it keeps of the cache -/
structure Cursor where
  frame : Frame
  /-- `c->pi`, as far as it is about the unwind info -/
  unwind : FetchedUnwind
  piValid : Bool
  piIsDynamic : Bool

namespace Cursor

def pi (c : Cursor) : UnwProcInfo := ⟨c.frame.pi, c.unwind⟩

/-- `c->pi = pi` -/
def setPi (c : Cursor) (pi : UnwProcInfo) : Cursor :=
  { c with
    frame := { c.frame with pi := pi.members }
    unwind := pi.unwind }

end Cursor

abbrev CursorRoutine := Routine Fault Cursor

section Uncached

variable (sources : ProcSources) (memory : Nat → Bool) (rounds : Nat) (target : Target)

/-- `ia64_fetch_proc_info` -/
def fetchProcInfo (ip : Word 64) (need : Bool) : CursorRoutine Unit := do
  let c ← get
  if c.piValid ∧ ¬need then pure ()
  else
    let (found, dynamic) := sources.lookUp ip need
    set { c.setPi (sources.piAfter ip need found c.pi) with
      piValid := true
      piIsDynamic := dynamic }
    .given (ofAccess (found.map fun _ => ()))

/-- `build_script`, which asserts that `c->pi` is valid -/
def buildScriptFor : CursorRoutine Built := do
  let c ← get
  if c.piValid then
    let (ret, pi, piIsDynamic) ← Routine.given
      ((ScriptBuild.start memory c.frame.ip c.frame.pr c.pi c.piIsDynamic).run sources c.frame.pr rounds)
    set { c.setPi pi with piIsDynamic }
    .given (ofAccess ret)
  else throw .undefined

/-- `run_script` -/
def runScriptFor (pi : UnwProcInfo) (abiMarker : Word 16) (insns : List ScriptInsn) :
    CursorRoutine Unit := do
  modify fun c => { c with unwind := pi.unwind }
  .within Cursor.frame (fun frame c => { c with frame }) (runScriptOn target pi.members abiMarker insns)

/-- The end of `unw_step`, from `update_frame_state` on; yields what `unw_step` returns. -/
def finishStep : CursorRoutine Nat := do
  let atEnd ← .within Cursor.frame (fun frame c => { c with frame }) (updateFrameState target)
  modify fun c => { c with piValid := c.piValid && !atEnd }
  let c ← get
  pure (if c.frame.ip = 0 then 0 else 1)

/-- `uncached_find_save_locs` -/
def uncachedFindSaveLocs : CursorRoutine Unit := do
  let c ← get
  fetchProcInfo sources c.frame.ip true
  let built ← buildScriptFor sources memory rounds
  let c ← get
  runScriptFor target c.pi built.abiMarker built.insns

/-- `unw_step` for an address space without caching -/
def uncachedStep : CursorRoutine Nat := do
  uncachedFindSaveLocs sources memory rounds target
  finishStep target

/-- `ia64_make_proc_info` without caching, and what `unw_get_proc_info` returns -/
def uncachedGetProcInfo : CursorRoutine Nat := do
  let c ← get
  fetchProcInfo sources c.frame.ip false
  pure 0

end Uncached

/-! ## With the cache -/

/-- The cursors of an address space. -/
structure Cursors where
  cursor : Nat → Cursor
  abi : Word 32

namespace Cursors

variable (cursors : Cursors)

/-- A cursor, which knows the ABI from its address space. -/
def load (k : Nat) : Cursor :=
  let c := cursors.cursor k
  { c with frame := { c.frame with abi := cursors.abi } }

def store (k : Nat) (c : Cursor) : Cursors := ⟨Function.update cursors.cursor k c, c.frame.abi⟩

end Cursors

/-- What a script of the cache has besides the members that the cache itself looks at. -/
structure ScriptBody where
  pi : UnwProcInfo
  insns : List ScriptInsn

/-- An address space with a script cache. -/
structure Cached where
  use : ScriptUse
  body : BitVec 16 → ScriptBody
  cursors : Cursors

abbrev CachedRoutine := Routine Fault Cached

section WithCache

variable (sources : ProcSources) (memory : Nat → Bool) (rounds : Nat) (target : Target) (k : Nat)

def onCursor {α : Type} (routine : CursorRoutine α) : CachedRoutine α :=
  .within (fun s => s.cursors.load k) (fun c s => { s with cursors := s.cursors.store k c }) routine

/-- The state of a cursor -/
def theCursor : CachedRoutine Cursor := do
  let s ← get
  pure (s.cursors.load k)

/-- `script_lookup` -/
def lookUpScript : CachedRoutine (Option (BitVec 16)) := do
  let s ← get
  let c := s.cursors.load k
  let (found, cache, hint) ← Routine.given
    (s.use.cache.scriptLookup (s.use.cursors k) c.frame.ip c.frame.pr)
  set { s with use := { s.use with cache, cursors := Function.update s.use.cursors k hint } }
  pure found

/-- `script_new` -/
def newScript (ip : Word 64) : CachedRoutine (BitVec 16) := do
  let s ← get
  let (i, cache) ← Routine.given (s.use.cache.scriptNew ip)
  set { s with use := s.use.afterNew i ip cache }
  pure i

/-- What is done with the hints once there is a script. -/
def followTo (i : BitVec 16) : CachedRoutine Unit := do
  let s ← get
  let (cache, hint) ← Routine.given (s.use.cache.followScript (s.use.cursors k) i)
  set { s with use := { s.use with cache, cursors := Function.update s.use.cursors k hint } }

/-- A script, with its body -/
def theScript (i : BitVec 16) : CachedRoutine (Script × ScriptBody) := do
  let s ← get
  let script ← Routine.given (s.use.cache.bucket i)
  pure (script, s.body i)

/-- The end of `build_script`, with `script_finalize`. The number of instructions that were emitted is
    that of the script. -/
def storeScript (i : BitVec 16) (built : Built) : CachedRoutine Unit := do
  let c ← theCursor k
  let (script, _) ← theScript i
  modify fun s => { s with
    use := { s.use with
      cache := s.use.cache.setBucket i { script with
        prMask := built.prMask
        prVal := c.frame.pr
        count := BitVec.ofNat 16 built.insns.length
        abiMarker := built.abiMarker } }
    body := Function.update s.body i ⟨c.pi, built.insns⟩ }

/-- `build_script` for a script of the cache. When it fails the script is left without instructions, and
    the assertion that it has some fails. -/
def buildAsserted : CursorRoutine Built := .ofOutcome fun c =>
  match (buildScriptFor sources memory rounds).outcome c with
  | (.error (.err _), c) => (.error .undefined, c)
  | outcome => outcome

def buildInCache (i : BitVec 16) : CachedRoutine Unit := do
  let built ← onCursor k (buildAsserted sources memory rounds)
  storeScript k i built
  if built.insns = [] then throw .undefined else pure ()

/-- The proc info is looked up unless there is a script, or unwind info for one. -/
def fetchForScript (found : Option (BitVec 16)) : CachedRoutine Unit := do
  let c ← theCursor k
  match found with
  | none => onCursor k (fetchProcInfo sources c.frame.ip true)
  | some i => do
      let (script, body) ← theScript i
      if script.count = 0 ∧ ¬body.pi.hasUnwind then onCursor k (fetchProcInfo sources c.frame.ip true)
      else pure ()

def theOrNewScript : Option (BitVec 16) → CachedRoutine (BitVec 16)
  | some i => pure i
  | none => do
      let c ← theCursor k
      newScript c.frame.ip

/-- A script without instructions is built. -/
def completeScript (i : BitVec 16) : CachedRoutine Unit := do
  let (script, _) ← theScript i
  if script.count = 0 then buildInCache sources memory rounds k i else pure ()

def runStoredScript (i : BitVec 16) : CachedRoutine Unit := do
  let (script, body) ← theScript i
  onCursor k (runScriptFor target body.pi script.abiMarker body.insns)

/-- The first half of `ia64_find_save_locs`, which comes to a script. -/
def scriptFor : CachedRoutine (BitVec 16) := do
  let found ← lookUpScript k
  fetchForScript sources k found
  let i ← theOrNewScript k found
  followTo k i
  pure i

/-- `ia64_find_save_locs` -/
def findSaveLocs : CachedRoutine Unit := do
  let i ← scriptFor sources k
  completeScript sources memory rounds k i
  runStoredScript target k i

/-- `ia64_get_cached_proc_info`; yields whether it returns 0. -/
def getCachedProcInfo : CachedRoutine Bool := do
  match ← lookUpScript k with
  | some i => do
      let (_, body) ← theScript i
      onCursor k (modify fun c => c.setPi body.pi)
      pure true
  | none => pure false

/-- `ia64_cache_proc_info` -/
def cacheProcInfo : CachedRoutine Unit := do
  match ← lookUpScript k with
  | some _ => pure ()
  | none => do
      let c ← theCursor k
      let i ← newScript c.frame.ip
      modify fun s => { s with body := Function.update s.body i { s.body i with pi := c.pi } }

/-- `ia64_make_proc_info` -/
def makeProcInfo : CachedRoutine Unit := do
  let cached ← getCachedProcInfo k
  if cached then pure ()
  else
    let c ← theCursor k
    onCursor k (fetchProcInfo sources c.frame.ip false)
    cacheProcInfo k

/-- The two calls -/
inductive Call where
  | step
  | getProcInfo

/-- `unw_step` and `unw_get_proc_info` with the cache, and what they return -/
def cachedCall : Call → CachedRoutine Nat
  | .step => do
      findSaveLocs sources memory rounds target k
      onCursor k (finishStep target)
  | .getProcInfo => do
      makeProcInfo sources k
      pure 0

/-- `unw_step` and `unw_get_proc_info` of a cursor without one -/
def uncachedOn : Call → CursorRoutine Nat
  | .step => uncachedStep sources memory rounds target
  | .getProcInfo => uncachedGetProcInfo sources

def uncachedCall (call : Call) : Routine Fault Cursors Nat :=
  .within (fun cursors => cursors.load k) (fun c cursors => cursors.store k c)
    (uncachedOn sources memory rounds target call)

end WithCache

end Libunwind.Ia64
