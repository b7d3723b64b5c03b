import Libunwind.Ia64.ScriptCache

/-! # What the cache leaves of the scripts

The links of a script and its hint are for the cache itself. Whatever else a script has is not changed
by a lookup, nor when another script is made.
-/

namespace Libunwind.Ia64

/-- A script without what the cache uses it for. -/
def Script.contents (script : Script) : Script :=
  { script with lruChain := 0, collChain := 0, hint := 0 }

theorem Script.contents_eq_iff {script script' : Script} :
    script'.contents = script.contents ↔ script'.ip = script.ip ∧ script'.prMask = script.prMask ∧
      script'.prVal = script.prVal ∧ script'.count = script.count ∧
      script'.abiMarker = script.abiMarker := by
  simp [contents]

namespace ScriptCache

/-- The scripts are the same but for their links and hints. -/
def SameContents (cache cache' : ScriptCache) : Prop :=
  ∀ i, (cache'.buckets i).contents = (cache.buckets i).contents

variable {cache cache' cache'' : ScriptCache} {i j : BitVec 16} {script : Script} {ip pr : Word 64}

theorem SameContents.refl (cache : ScriptCache) : SameContents cache cache := fun _ => rfl

theorem SameContents.trans (first : SameContents cache cache') (second : SameContents cache' cache'') :
    SameContents cache cache'' := fun i => (second i).trans (first i)

theorem SameContents.setBucket (same : script.contents = (cache.buckets i).contents) :
    SameContents cache (cache.setBucket i script) := by
  intro j
  by_cases here : j = i
  · subst here
    simpa only [ScriptCache.setBucket, Function.update_self] using same
  · simp only [ScriptCache.setBucket, Function.update_of_ne here]

/-- Reading a bucket that is there. -/
theorem bucket_eq_ok : cache.bucket i = .ok script ↔ IsBucket i ∧ script = cache.buckets i := by
  rw [bucket]
  by_cases isBucket : IsBucket i
  · rw [if_pos isBucket]
    simp [isBucket, eq_comm]
  · rw [if_neg isBucket]
    simp [isBucket]

theorem lookupChain_match {rounds : Nat} (found : cache.lookupChain ip pr rounds i = .ok (some j)) :
    cacheMatch (cache.buckets j) ip pr = true := by
  induction rounds generalizing i with
  | zero => cases found
  | succ rounds ih =>
      obtain ⟨script, atBucket, found⟩ := bind_eq_ok.mp found
      obtain ⟨-, rfl⟩ := bucket_eq_ok.mp atBucket
      by_cases isMatch : cacheMatch (cache.buckets i) ip pr = true
      · rw [if_pos isMatch] at found
        cases found
        exact isMatch
      · rw [if_neg isMatch] at found
        split at found
        · cases found
        · exact ih found

/-- A lookup finds a script that matches, and changes hints only. -/
theorem scriptLookup_contents {c c' : CursorHint} {found : Option (BitVec 16)}
    (looked : cache.scriptLookup c ip pr = .ok (found, cache', c')) :
    SameContents cache cache' ∧ ∀ i ∈ found, cacheMatch (cache.buckets i) ip pr = true := by
  obtain ⟨script, atBucket, looked⟩ := bind_eq_ok.mp looked
  obtain ⟨-, rfl⟩ := bucket_eq_ok.mp atBucket
  by_cases byHint : cacheMatch (cache.buckets c.hint) ip pr = true
  · rw [if_pos byHint] at looked
    cases looked
    exact ⟨.refl cache, by simpa using byHint⟩
  · rw [if_neg byHint] at looked
    dsimp only at looked
    split at looked
    · cases looked
      exact ⟨.refl cache, by simp⟩
    · obtain ⟨walked, ends, looked⟩ := bind_eq_ok.mp looked
      cases walked with
      | none =>
          cases looked
          exact ⟨.refl cache, by simp⟩
      | some i =>
          obtain ⟨prev, atPrev, looked⟩ := bind_eq_ok.mp looked
          obtain ⟨-, rfl⟩ := bucket_eq_ok.mp atPrev
          cases looked
          exact ⟨.setBucket rfl, by simpa using lookupChain_match ends⟩

theorem unlinkFrom_contents {index : BitVec 8} {head : BitVec 16} {rounds : Nat}
    {prev : Option (BitVec 16)} (unlinked : cache.unlinkFrom index head rounds prev i = .ok cache') :
    SameContents cache cache' := by
  induction rounds generalizing prev i with
  | zero => cases unlinked
  | succ rounds ih =>
      rw [unlinkFrom] at unlinked
      split at unlinked
      · obtain ⟨old, -, unlinked⟩ := bind_eq_ok.mp unlinked
        cases prev with
        | some prev =>
            obtain ⟨before, atBefore, unlinked⟩ := bind_eq_ok.mp unlinked
            obtain ⟨-, rfl⟩ := bucket_eq_ok.mp atBefore
            cases unlinked
            exact .setBucket rfl
        | none =>
            cases unlinked
            exact .refl cache
      · obtain ⟨other, -, unlinked⟩ := bind_eq_ok.mp unlinked
        split at unlinked
        · cases unlinked
          exact .refl cache
        · exact ih unlinked

theorem rotate_contents (rotated : cache.rotate = .ok cache') : SameContents cache cache' := by
  obtain ⟨script, -, rotated⟩ := bind_eq_ok.mp rotated
  obtain ⟨last, atLast, rotated⟩ := bind_eq_ok.mp rotated
  obtain ⟨-, rfl⟩ := bucket_eq_ok.mp atLast
  cases rotated
  have linked : SameContents cache (cache.setBucket cache.lruTail
      { cache.buckets cache.lruTail with lruChain := cache.lruHead }) := .setBucket rfl
  exact linked

theorem unlink_contents (unlinked : cache.unlink i = .ok cache') : SameContents cache cache' := by
  obtain ⟨script, -, unlinked⟩ := bind_eq_ok.mp unlinked
  split at unlinked
  · exact unlinkFrom_contents unlinked
  · cases unlinked
    exact .refl cache

theorem enter_contents (entered : cache.enter i ip = .ok cache') :
    (∀ j, j ≠ i → cache'.buckets j = cache.buckets j) ∧
      (cache'.buckets i).ip = ip ∧ (cache'.buckets i).count = 0 := by
  obtain ⟨script, -, entered⟩ := bind_eq_ok.mp entered
  cases entered
  refine ⟨fun j other => ?_, ?_, ?_⟩
  · simp only [ScriptCache.setBucket, Function.update_of_ne other]
  · simp only [ScriptCache.setBucket, Function.update_self, scriptInit]
  · simp only [ScriptCache.setBucket, Function.update_self, scriptInit]

/-- A new script has no instructions, and leaves the others as they are. -/
theorem scriptNew_contents (made : cache.scriptNew ip = .ok (i, cache')) :
    (∀ j, j ≠ i → (cache'.buckets j).contents = (cache.buckets j).contents) ∧
      (cache'.buckets i).ip = ip ∧ (cache'.buckets i).count = 0 := by
  obtain ⟨rotated, turns, made⟩ := bind_eq_ok.mp made
  obtain ⟨unlinked, unlinks, made⟩ := bind_eq_ok.mp made
  obtain ⟨entered, enters, made⟩ := bind_eq_ok.mp made
  cases made
  obtain ⟨elsewhere, isNew⟩ := enter_contents enters
  refine ⟨fun j other => ?_, isNew⟩
  rw [elsewhere j other]
  exact ((rotate_contents turns).trans (unlink_contents unlinks)) j

theorem followScript_contents {c c' : CursorHint}
    (followed : cache.followScript c i = .ok (cache', c')) : SameContents cache cache' := by
  obtain ⟨prev, atPrev, followed⟩ := bind_eq_ok.mp followed
  obtain ⟨-, rfl⟩ := bucket_eq_ok.mp atPrev
  obtain ⟨script, -, followed⟩ := bind_eq_ok.mp followed
  cases followed
  exact .setBucket rfl

end ScriptCache

end Libunwind.Ia64
