import Libunwind.Mempool

/-! # Memory in reserve

`mempool_alloc` expands a pool before it is empty. Whether the objects that are left can be had
depends on what becomes of that.
-/

namespace Libunwind.Mempool

open IntrusiveList

variable {w : Nat}

/-- The chunk that `expand` comes to has room for an object. -/
def Refills (pf : Platform w) (s : State w) (grant : Grant) : Prop :=
  match grant.chunk, grant.pages with
  | some _, _ => s.pool.objSize ≤ s.pool.chunkSize
  | none, some _ => s.pool.objSize ≤ unwAlign s.pool.objSize pf.pageSize
  | none, none =>
      2 ^ pf.alignBits ∣ pf.sosMemory + s.sosMemoryFreepos.toNat ∧
        s.sosMemoryFreepos.toNat + s.pool.objSize.toNat ≤ sosMemorySize

section Expand

variable {pf : Platform w} {s : State w} {mem last obj rounds : Nat} {size objSize : Word w}

/-- A round for each address is enough. -/
theorem carve_ok {step : Nat} (positive : 0 < step) (enough : last < obj + rounds) :
    ∃ s' objs, s.carve last step (rounds + 1) obj = .ok (s', objs) := by
  induction rounds generalizing obj s with
  | zero =>
      rw [State.carve, if_neg (by omega)]
      exact ⟨s, [], rfl⟩
  | succ rounds ih =>
      rw [State.carve]
      split
      · obtain ⟨s', objs, carved⟩ : ∃ s' objs,
            (s.freeObject obj).carve last step (rounds + 1) (obj + step) = .ok (s', objs) :=
          ih (by omega)
        rw [carved]
        exact ⟨s', obj :: objs, rfl⟩
      · exact ⟨s, [], rfl⟩

variable (s mem) in
theorem addMemory_ok_iff (positive : 0 < objSize.toNat) :
    (∃ s' objs, s.addMemory mem size objSize = .ok (s', objs)) ↔ objSize ≤ size := by
  rw [State.addMemory]
  by_cases small : size < objSize
  · rw [if_pos small]
    simp [BitVec.not_le.mpr small]
  · rw [if_neg small]
    exact iff_of_true (carve_ok positive (by omega)) (BitVec.not_lt.mp small)

/-- The emergency memory has room for so many bytes. -/
theorem sosAlloc_ok_iff {freepos : Word w} (multiple : 2 ^ pf.alignBits ∣ objSize.toNat) :
    (∃ mem freepos', sosAlloc pf freepos objSize = .ok (mem, freepos') ∧
      mem + objSize.toNat ≤ pf.sosMemory + sosMemorySize) ↔
      2 ^ pf.alignBits ∣ pf.sosMemory + freepos.toNat ∧
        freepos.toNat + objSize.toNat ≤ sosMemorySize := by
  have rounded : unwAlign objSize pf.maxAlign = objSize :=
    round_up_of_dvd (Nat.lt_of_le_of_lt pf.align_le_page pf.page_lt) multiple
  have small := pf.sos_lt
  have total : (BitVec.ofNat w sosMemorySize).toNat = sosMemorySize := by
    rw [BitVec.toNat_ofNat]
    exact Nat.mod_eq_of_lt (by omega)
  constructor
  · intro allocated
    obtain ⟨mem, freepos', allocated, within⟩ := allocated
    obtain ⟨aligned, rfl, -⟩ := sosAlloc_eq multiple allocated
    exact ⟨aligned, by omega⟩
  · intro room
    obtain ⟨aligned, within⟩ := room
    refine ⟨pf.sosMemory + freepos.toNat, freepos + objSize, ?_, by omega⟩
    have end_ : (freepos + objSize).toNat = freepos.toNat + objSize.toNat := by
      rw [BitVec.toNat_add]
      exact Nat.mod_eq_of_lt (by omega)
    have fits : ¬BitVec.ofNat w sosMemorySize < freepos + objSize := by
      rw [BitVec.lt_def, total, end_]
      omega
    simp only [sosAlloc, rounded]
    rw [if_neg (not_not.mpr (Nat.mod_eq_zero_of_dvd aligned)), if_neg fits]

/-- What is returned with the new objects changes nothing about success. -/
theorem grown_ok_iff {added : Result (State w × List Nat)} (c : Chunk) :
    (∃ s' c' objs, (added >>= fun grown => pure (grown.1, c, grown.2)) = .ok (s', c', objs)) ↔
      ∃ s' objs, added = .ok (s', objs) := by
  constructor
  · intro expanded
    obtain ⟨s', c', objs, expanded⟩ := expanded
    obtain ⟨⟨t, carved⟩, added, -⟩ := bind_eq_ok.mp expanded
    exact ⟨t, carved, added⟩
  · intro added
    obtain ⟨t, carved, added⟩ := added
    rw [added]
    exact ⟨t, c, carved, rfl⟩

theorem expand_ok_iff {grant : Grant} (positive : 0 < s.pool.objSize.toNat)
    (multiple : 2 ^ pf.alignBits ∣ s.pool.objSize.toNat) :
    (∃ s' c objs, s.expand pf grant = .ok (s', c, objs)) ↔ Refills pf s grant := by
  obtain ⟨chunk, pages⟩ := grant
  cases chunk with
  | some mem => exact (grown_ok_iff _).trans (addMemory_ok_iff s mem positive)
  | none =>
      cases pages with
      | some mem => exact (grown_ok_iff _).trans (addMemory_ok_iff s mem positive)
      | none =>
          simp only [State.expand, Refills]
          rw [← sosAlloc_ok_iff multiple]
          constructor
          · intro expanded
            obtain ⟨s', c, objs, expanded⟩ := expanded
            obtain ⟨⟨mem, freepos⟩, allocated, rest⟩ := bind_eq_ok.mp expanded
            dsimp only at rest
            split at rest
            · cases rest
            next within => exact ⟨mem, freepos, allocated, Nat.le_of_not_lt within⟩
          · intro room
            obtain ⟨mem, freepos, allocated, within⟩ := room
            obtain ⟨t, carved, added⟩ :=
              (addMemory_ok_iff { s with sosMemoryFreepos := freepos } mem positive).mpr
                (BitVec.le_refl s.pool.objSize)
            rw [allocated, ok_bind]
            dsimp only
            rw [if_neg (Nat.not_lt.mpr within), added]
            exact ⟨_, _, _, rfl⟩

end Expand

section Reserve

variable {pf : Platform w} {s : System w} {free : List Nat} {grant : Grant}

/-- A list that is not empty has an object to take, its first one. -/
theorem takeObject_ok (inv : Inv pf s) (isFree : s.Free free) (left : free ≠ []) :
    ∃ t obj, s.state.takeObject = .ok (t, obj) ∧ obj ∈ free := by
  have short := inv.length_lt isFree
  obtain ⟨linked, numFree, -⟩ := isFree
  have count : s.state.pool.numFree ≠ 0 := by
    intro none
    have length : free.length % 2 ^ w = 0 := by
      rw [← BitVec.toNat_ofNat, ← numFree, none]
      exact BitVec.toNat_zero
    rw [Nat.mod_eq_of_lt short] at length
    exact left (List.length_eq_zero_iff.mp length)
  obtain ⟨rest, rfl, -⟩ := linked.pop left
  have real : s.state.pool.freeList ≠ 0 := linked.2.1
  rw [State.takeObject, if_neg count, if_neg real]
  exact ⟨_, _, rfl, List.mem_cons_self⟩

/-- The pool still has what it had when it has been expanded. -/
theorem take_after_expand {t : State w} {c : Chunk} {objs : List Nat} (inv : Inv pf s)
    (isFree : s.Free free) (left : free ≠ []) (valid : grant.Valid pf s.chunks s.state.pool)
    (expanded : s.state.expand pf grant = .ok (t, c, objs)) :
    ∃ t' obj, t.takeObject = .ok (t', obj) ∧ (obj ∈ free ∨ obj ∈ objs) := by
  have inv' := inv.add (expand_expanded inv.multiple valid expanded)
  obtain ⟨free', isFree'⟩ := inv'.free
  have perm : (free' ++ s.allocated).Perm (objs ++ s.carved) := isFree'.2.2
  have same : free'.length = objs.length + free.length := by
    have new := perm.length_eq
    have old := isFree.2.2.length_eq
    simp only [List.length_append] at new old
    omega
  have left' : free' ≠ [] := by
    intro none
    rw [none, List.length_nil] at same
    exact left (List.length_eq_zero_iff.mp (by omega))
  obtain ⟨t', obj, taken, member⟩ := takeObject_ok inv' isFree' left'
  refine ⟨t', obj, taken, ?_⟩
  cases List.mem_append.mp (perm.subset (List.mem_append_left _ member)) with
  | inl new => exact .inr new
  | inr old =>
      cases List.mem_append.mp (isFree.2.2.symm.subset old) with
      | inl stillFree => exact .inl stillFree
      | inr inUse =>
          have nodup := isFree'.nodup inv'
          exact absurd rfl ((List.nodup_append.mp nodup).2.2 obj member obj inUse)

/-- With objects left, one is returned exactly where the pool has more than its reserve, or is
    expanded. -/
theorem mempoolAlloc_iff (run : Run (Starts pf) (Steps pf) (fun _ _ => True) s)
    (isFree : s.Free free) (left : free ≠ []) (valid : grant.Valid pf s.chunks s.state.pool) :
    (∃ t obj added, mempoolAlloc pf s.state grant = .ok ((t, obj), added) ∧
      (obj ∈ free ∨ ∃ c objs, added = some (c, objs) ∧ obj ∈ objs)) ↔
      s.state.pool.reserve < s.state.pool.numFree ∨ Refills pf s.state grant := by
  have inv : Inv pf s := run.invariant (fun s starts => Inv.start starts)
    fun s e s' inv _ step => Inv.step inv step
  rw [← expand_ok_iff inv.positive inv.multiple]
  rw [mempoolAlloc]
  by_cases low : s.state.pool.numFree ≤ s.state.pool.reserve
  · rw [if_pos low]
    constructor
    · intro allocated
      obtain ⟨t, obj, added, allocated, -⟩ := allocated
      obtain ⟨⟨mid, c, objs⟩, expanded, -⟩ := bind_eq_ok.mp allocated
      exact .inr ⟨mid, c, objs, expanded⟩
    · intro condition
      cases condition with
      | inl high => exact absurd low (BitVec.not_le.mpr high)
      | inr refilled =>
          obtain ⟨mid, c, objs, expanded⟩ := refilled
          obtain ⟨t, obj, taken, member⟩ := take_after_expand inv isFree left valid expanded
          refine ⟨t, obj, some (c, objs), ?_, ?_⟩
          · rw [expanded, ok_bind]
            dsimp only
            rw [taken]
            rfl
          · cases member with
            | inl old => exact .inl old
            | inr new => exact .inr ⟨c, objs, rfl, new⟩
  · rw [if_neg low]
    obtain ⟨t, obj, taken, member⟩ := takeObject_ok inv isFree left
    refine iff_of_true ⟨t, obj, none, ?_, .inl member⟩ (.inl (BitVec.not_le.mp low))
    rw [taken]
    rfl

end Reserve

/-! ## A reserve that cannot be had -/

/-- A pool with a reserve of 16 objects, for which the system had room for one page only. -/
theorem poolOfPage : ∃ t, Starts platform
    ⟨t, [page], [0x7000000, 0x70003f0, 0x70007e0, 0x7000bd0], [], []⟩ ∧
      t = { pool := ⟨1008, 32768, 16, 4, 0x7000bd0⟩, next := t.next, sosMemoryFreepos := 0 } := by
  have mapped : platform.Mapped [] page :=
    ⟨by decide, by decide, by decide, .inr (by decide), by simp⟩
  have valid (pool : Pool 64) (initialised : initPool platform 1000 16 = .ok pool) :
      Grant.Valid platform [] pool ⟨none, some page.base⟩ := by
    have sizes : initPool platform 1000 16 = .ok ⟨1008, 32768, 16, 0, 0⟩ := rfl
    cases sizes.symm.trans initialised
    exact ⟨by simp, fun mem granted => by cases granted; exact mapped⟩
  exact ⟨_, ⟨1000, 16, fun _ => 0, 0, ⟨none, some page.base⟩, page, _, by decide, valid, rfl, rfl⟩,
    rfl⟩

/-- It has four objects, and may be left without emergency memory. -/
theorem pageFree {t : State 64} (freepos : Word 64) (small : freepos.toNat ≤ sosMemorySize)
    (starts : Starts platform
      ⟨t, [page], [0x7000000, 0x70003f0, 0x70007e0, 0x7000bd0], [], []⟩)
    (fields : t = { pool := ⟨1008, 32768, 16, 4, 0x7000bd0⟩, next := t.next,
                    sosMemoryFreepos := 0 }) :
    ∃ (s : System 64) (free : List Nat), Run (Starts platform) (Steps platform) (fun _ _ => True) s ∧
      s.Free free ∧ free.length = 4 ∧ s.chunks = [page] ∧
      s.state = { pool := ⟨1008, 32768, 16, 4, 0x7000bd0⟩, next := t.next,
                  sosMemoryFreepos := freepos } := by
  have first : t.sosMemoryFreepos = 0 := by rw [fields]
  have run : Run (Starts platform) (Steps platform) (fun _ _ => True) _ :=
    .step (.sosTaken freepos) (.start starts) trivial
      ⟨by rw [first]; exact Nat.zero_le _, small, rfl⟩
  have inv := run.invariant (fun s starts => Inv.start starts)
    fun s e s' inv _ step => Inv.step inv step
  obtain ⟨free, isFree⟩ := inv.free
  refine ⟨_, free, run, isFree, ?_, rfl, ?_⟩
  · have numFree : t.pool.numFree = BitVec.ofNat 64 free.length := isFree.2.1
    have count := congrArg BitVec.toNat numFree
    rw [BitVec.toNat_ofNat, Nat.mod_eq_of_lt (inv.length_lt isFree), fields] at count
    exact count.symm
  · dsimp only
    rw [fields]

/-- With neither pages nor emergency memory, none of the four objects can be had. -/
theorem reserve_lost : ∃ (s : System 64) (free : List Nat),
    Run (Starts platform) (Steps platform) (fun _ _ => True) s ∧ s.Free free ∧ free.length = 4 ∧
      Grant.Valid platform s.chunks s.state.pool ⟨none, none⟩ ∧
      mempoolAlloc platform s.state ⟨none, none⟩ = .error .undefined := by
  obtain ⟨t, starts, fields⟩ := poolOfPage
  obtain ⟨s, free, run, isFree, count, -, state⟩ :=
    pageFree 16384 (by decide) starts fields
  refine ⟨s, free, run, isFree, count, ⟨by simp, by simp⟩, ?_⟩
  have low : (4 : Word 64) ≤ 16 := by decide
  have full : sosAlloc platform 16384 1008 = .error .undefined := by decide
  rw [state, mempoolAlloc, if_pos low, State.expand]
  simp only [full, error_bind]

/-- With emergency memory, one can. -/
theorem reserve_refilled : ∃ (s : System 64) (free : List Nat), s.Free free ∧ free.length = 4 ∧
    ∃ t obj added, mempoolAlloc platform s.state ⟨none, none⟩ = .ok ((t, obj), added) ∧
      (obj ∈ free ∨ ∃ c objs, added = some (c, objs) ∧ obj ∈ objs) := by
  obtain ⟨t, starts, fields⟩ := poolOfPage
  obtain ⟨s, free, run, isFree, count, -, state⟩ :=
    pageFree 0 (by decide) starts fields
  have left : free ≠ [] := by
    intro none
    rw [none] at count
    cases count
  refine ⟨s, free, isFree, count, (mempoolAlloc_iff run isFree left ⟨by simp, by simp⟩).mpr ?_⟩
  have aligned : 2 ^ platform.alignBits ∣ platform.sosMemory + (0 : Word 64).toNat := by decide
  have room : (0 : Word 64).toNat + (1008 : Word 64).toNat ≤ sosMemorySize := by decide
  right
  rw [state]
  exact ⟨aligned, room⟩

end Libunwind.Mempool
