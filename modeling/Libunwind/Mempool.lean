import Libunwind.Basic
import Libunwind.Library.BitField
import Libunwind.Library.IntrusiveList
import Libunwind.Library.Run

/-! # Memory pools

A pool carves the chunks that it obtains into objects of one size, and keeps the
objects that are free on a list that is threaded through them.
-/

namespace Libunwind.Mempool

open IntrusiveList

variable {w : Nat}

def sosMemorySize : Nat := 16384

/-- What a pool is built on: `MAX_ALIGN`, the page size, and the place of the array
    `sos_memory`, which is in the address space like any object of C, not up to its
    very end. -/
structure Platform (w : Nat) where
  alignBits : Nat
  pageBits : Nat
  sosMemory : Nat
  align_le_page : alignBits ≤ pageBits
  page_lt : pageBits < w
  sos_aligned : 2 ^ alignBits ∣ sosMemory
  sos_pos : 0 < sosMemory
  sos_lt : sosMemory + sosMemorySize < 2 ^ w

def Platform.maxAlign (pf : Platform w) : Word w := BitVec.twoPow w pf.alignBits
def Platform.pageSize (pf : Platform w) : Word w := BitVec.twoPow w pf.pageBits

/-- `UNW_ALIGN`. -/
def unwAlign (x a : Word w) : Word w := (x + a - 1) &&& ~~~(a - 1)

/-- `struct mempool`, without its lock. -/
structure Pool (w : Nat) where
  objSize : Word w
  chunkSize : Word w
  reserve : Word w
  numFree : Word w
  /-- The first object, or 0. -/
  freeList : Nat

/-- The pool, the link that each address holds as an object, and the position in
    `sos_memory`. -/
structure State (w : Nat) where
  pool : Pool w
  next : Nat → Nat
  sosMemoryFreepos : Word w

section Code

variable (pf : Platform w)

/-- `sos_alloc`. -/
def sosAlloc (sosMemoryFreepos size : Word w) : Result (Nat × Word w) :=
  let size := unwAlign size pf.maxAlign
  let pos := sosMemoryFreepos
  if (pf.sosMemory + pos.toNat) % 2 ^ pf.alignBits ≠ 0 then .error .undefined
  else if BitVec.ofNat w sosMemorySize < pos + size then .error .undefined
  else .ok (pf.sosMemory + pos.toNat, pos + size)

/-- `free_object`. -/
def State.freeObject (s : State w) (object : Nat) : State w :=
  { s with
    next := Function.update s.next object s.pool.freeList
    pool := { s.pool with freeList := object, numFree := s.pool.numFree + 1 } }

/-- The loop of `add_memory`, up to the last place for an object. It also yields the
    objects that it frees. -/
def State.carve (last objSize : Nat) : Nat → Nat → State w → Result (State w × List Nat)
  | 0, _, _ => .error .timeout
  | rounds + 1, obj, s =>
      if obj ≤ last then do
        let (s, objs) ← State.carve last objSize rounds (obj + objSize) (s.freeObject obj)
        pure (s, obj :: objs)
      else pure (s, [])

/-- `add_memory`. `mem + size - obj_size` must not be before the chunk; and without a
    size, the loop never ends. -/
def State.addMemory (s : State w) (mem : Nat) (size objSize : Word w) :
    Result (State w × List Nat) :=
  if size < objSize then .error .undefined
  else s.carve (mem + size.toNat - objSize.toNat) objSize.toNat (size.toNat + 2) mem

/-- Where `GET_MEMORY` finds room for a chunk and, failing that, for the pages of one
    object. -/
structure Grant where
  chunk : Option Nat
  pages : Option Nat

/-- A range of memory that a pool obtained. -/
structure Chunk where
  base : Nat
  size : Nat
  deriving DecidableEq

/-- `expand`; also yields the chunk, and the objects that it is carved into. -/
def State.expand (s : State w) (grant : Grant) : Result (State w × Chunk × List Nat) :=
  let objSize := s.pool.objSize
  match grant.chunk, grant.pages with
  | some mem, _ => do
      let (s', objs) ← s.addMemory mem s.pool.chunkSize objSize
      pure (s', ⟨mem, s.pool.chunkSize.toNat⟩, objs)
  | none, some mem => do
      let size := unwAlign objSize pf.pageSize
      let (s', objs) ← s.addMemory mem size objSize
      pure (s', ⟨mem, size.toNat⟩, objs)
  -- last chance: one object from the SOS memory
  | none, none => do
      let (mem, sosMemoryFreepos) ← sosAlloc pf s.sosMemoryFreepos objSize
      -- the object ends within the array
      if pf.sosMemory + sosMemorySize < mem + objSize.toNat then .error .undefined
      else
        let (s', objs) ← { s with sosMemoryFreepos }.addMemory mem objSize objSize
        pure (s', ⟨mem, objSize.toNat⟩, objs)

/-- The fields that `mempool_init` sets. -/
def initPool (objSize reserve : Word w) : Result (Pool w) :=
  let objSize := unwAlign objSize pf.maxAlign
  if reserve = 0 ∧ objSize = 0 then .error .undefined
  else
    let reserve :=
      if reserve = 0 then
        let reserve := pf.pageSize / objSize / 4
        if reserve = 0 then 16 else reserve
      else reserve
    let chunkSize := unwAlign (2 * reserve * objSize) pf.pageSize
    .ok { objSize, chunkSize, reserve, numFree := 0, freeList := 0 }

/-- `mempool_init`. -/
def mempoolInit (objSize reserve : Word w) (next : Nat → Nat) (sosMemoryFreepos : Word w)
    (grant : Grant) : Result (State w × Chunk × List Nat) := do
  let pool ← initPool pf objSize reserve
  State.expand pf { pool, next, sosMemoryFreepos } grant

/-- The first object of the free list. -/
def State.takeObject (s : State w) : Result (State w × Nat) :=
  if s.pool.numFree = 0 then .error .undefined
  else if s.pool.freeList = 0 then .error .undefined
  else
    let obj := s.pool.freeList
    .ok ({ s with
      pool := { s.pool with numFree := s.pool.numFree - 1, freeList := s.next obj } }, obj)

/-- `mempool_alloc`; also yields the chunk that the pool is expanded by, if any, and
    the objects that it is carved into. -/
def mempoolAlloc (s : State w) (grant : Grant) :
    Result ((State w × Nat) × Option (Chunk × List Nat)) :=
  if s.pool.numFree ≤ s.pool.reserve then do
    let (s, added) ← s.expand pf grant
    let taken ← s.takeObject
    pure (taken, some added)
  else do
    let taken ← s.takeObject
    pure (taken, none)

/-- `mempool_free`. -/
def mempoolFree (s : State w) (object : Nat) : State w := s.freeObject object

end Code

/-! ## Carving -/

/-- Two ranges do not overlap. -/
def Chunk.Apart (c d : Chunk) : Prop := c.base + c.size ≤ d.base ∨ d.base + d.size ≤ c.base

theorem Chunk.Apart.symm {c d : Chunk} (apart : c.Apart d) : d.Apart c := Or.symm apart

/-- The place of an object of a size. -/
abbrev objectAt (size x : Nat) : Chunk := ⟨x, size⟩

/-- Objects of one size, one after another, from `obj` to `last`. -/
structure Carved (last objSize obj : Nat) (objs : List Nat) : Prop where
  from_obj : ∀ x ∈ objs, obj ≤ x
  to_last : ∀ x ∈ objs, x ≤ last
  multiple : ∀ x ∈ objs, objSize ∣ x - obj
  ordered : objs.Pairwise fun x y => x + objSize ≤ y

section Carve

variable {s s' : State w} {last objSize obj rounds : Nat} {objs free : List Nat}

theorem carve_carved (carving : s.carve last objSize rounds obj = .ok (s', objs)) :
    Carved last objSize obj objs := by
  induction rounds generalizing obj s s' objs with
  | zero => cases carving
  | succ rounds ih =>
      simp only [State.carve] at carving
      split at carving
      next inside =>
        obtain ⟨⟨t, rest⟩, carvingRest, result⟩ := bind_eq_ok.mp carving
        cases result
        have later := ih carvingRest
        refine ⟨?_, ?_, ?_, ?_⟩
        · rintro x (_ | ⟨_, member⟩)
          · exact Nat.le_refl obj
          · exact Nat.le_trans (Nat.le_add_right obj objSize) (later.from_obj x member)
        · rintro x (_ | ⟨_, member⟩)
          · exact inside
          · exact later.to_last x member
        · rintro x (_ | ⟨_, member⟩)
          · rw [Nat.sub_self]
            exact Nat.dvd_zero objSize
          · have place := later.from_obj x member
            have split : x - obj = x - (obj + objSize) + objSize := by omega
            rw [split]
            exact Nat.dvd_add (later.multiple x member) (Nat.dvd_refl objSize)
        · exact List.pairwise_cons.mpr ⟨later.from_obj, later.ordered⟩
      next => 
        cases carving
        exact ⟨nofun, nofun, nofun, .nil⟩

/-- Carving changes the list and its length only. -/
theorem carve_frame (carving : s.carve last objSize rounds obj = .ok (s', objs)) :
    s'.pool.objSize = s.pool.objSize ∧ s'.pool.chunkSize = s.pool.chunkSize ∧
      s'.sosMemoryFreepos = s.sosMemoryFreepos ∧
      s'.pool.numFree = s.pool.numFree + BitVec.ofNat w objs.length := by
  induction rounds generalizing obj s s' objs with
  | zero => cases carving
  | succ rounds ih =>
      simp only [State.carve] at carving
      split at carving
      next =>
        obtain ⟨⟨t, rest⟩, carvingRest, result⟩ := bind_eq_ok.mp carving
        cases result
        obtain ⟨objSize, chunkSize, freepos, numFree⟩ := ih carvingRest
        refine ⟨objSize, chunkSize, freepos, ?_⟩
        rw [numFree, List.length_cons, Nat.add_comm, BitVec.ofNat_add, ← BitVec.add_assoc]
        rfl
      next =>
        cases carving
        simp

/-- The objects are put before the ones that are on the list. -/
theorem carve_linked (carving : s.carve last objSize rounds obj = .ok (s', objs))
    (real : 0 < obj) (positive : 0 < objSize) (fresh : ∀ x ∈ objs, x ∉ free)
    (linked : Linked s.next 0 s.pool.freeList free) :
    Linked s'.next 0 s'.pool.freeList (objs.reverse ++ free) := by
  induction rounds generalizing obj s s' objs free with
  | zero => cases carving
  | succ rounds ih =>
      simp only [State.carve] at carving
      split at carving
      next =>
        obtain ⟨⟨t, rest⟩, carvingRest, result⟩ := bind_eq_ok.mp carving
        cases result
        have absent : obj ∉ free := fresh obj List.mem_cons_self
        have pushed : Linked (s.freeObject obj).next 0 (s.freeObject obj).pool.freeList
            (obj :: free) := linked.push (Nat.ne_of_gt real) absent
        have freshRest : ∀ x ∈ rest, x ∉ obj :: free := by
          intro x member twice
          cases twice with
          | head =>
              have place := (carve_carved carvingRest).from_obj obj member
              omega
          | tail _ old => exact fresh x (List.mem_cons_of_mem obj member) old
        have done := ih carvingRest (by omega) freshRest pushed
        rw [List.reverse_cons, List.append_assoc]
        exact done
      next =>
        cases carving
        exact linked

end Carve

/-! ## Expanding -/

def Platform.sos (pf : Platform w) : Chunk := ⟨pf.sosMemory, sosMemorySize⟩

/-- Pages that the system maps: apart from all that is in use. -/
structure Platform.Mapped (pf : Platform w) (chunks : List Chunk) (c : Chunk) : Prop where
  aligned : 2 ^ pf.pageBits ∣ c.base
  real : 0 < c.base
  inside : c.base + c.size < 2 ^ w
  apart_sos : c.Apart pf.sos
  apart : ∀ d ∈ chunks, c.Apart d

/-- A grant for a pool: what `GET_MEMORY` yields is mapped. -/
structure Grant.Valid (pf : Platform w) (chunks : List Chunk) (pool : Pool w) (grant : Grant) :
    Prop where
  chunk : ∀ mem, grant.chunk = some mem → pf.Mapped chunks ⟨mem, pool.chunkSize.toNat⟩
  pages : ∀ mem, grant.pages = some mem →
    pf.Mapped chunks ⟨mem, (unwAlign pool.objSize pf.pageSize).toNat⟩

/-- Where a chunk comes from: the system, or the next part of `sos_memory`. -/
def Obtained (pf : Platform w) (chunks : List Chunk) (freepos freepos' : Word w) (c : Chunk) :
    Prop :=
  (freepos' = freepos ∧ c.Apart pf.sos ∧ ∀ d ∈ chunks, c.Apart d) ∨
    (pf.sosMemory + freepos.toNat ≤ c.base ∧
      c.base + c.size ≤ pf.sosMemory + freepos'.toNat ∧ freepos'.toNat ≤ sosMemorySize)

/-- What `expand` does to a pool. -/
structure Expanded (pf : Platform w) (chunks : List Chunk) (s s' : State w) (c : Chunk)
    (objs : List Nat) : Prop where
  positive : 0 < s.pool.objSize.toNat
  room : s.pool.objSize.toNat ≤ c.size
  aligned : 2 ^ pf.alignBits ∣ c.base
  real : 0 < c.base
  inside : c.base + c.size < 2 ^ w
  obtained : Obtained pf chunks s.sosMemoryFreepos s'.sosMemoryFreepos c
  carved : Carved (c.base + c.size - s.pool.objSize.toNat) s.pool.objSize.toNat c.base objs
  objSize : s'.pool.objSize = s.pool.objSize
  numFree : s'.pool.numFree = s.pool.numFree + BitVec.ofNat w objs.length
  linked : ∀ free, (∀ x ∈ objs, x ∉ free) → Linked s.next 0 s.pool.freeList free →
    Linked s'.next 0 s'.pool.freeList (objs.reverse ++ free)

section Expand

variable {pf : Platform w} {s s' : State w} {chunks : List Chunk} {c : Chunk} {objs : List Nat}
  {grant : Grant} {mem : Nat} {size objSize : Word w}

/-- Without a size, the loop goes round for ever. -/
theorem carve_zero {last obj : Nat} (inside : obj ≤ last) (rounds : Nat) :
    s.carve last 0 rounds obj = .error .timeout := by
  induction rounds generalizing s with
  | zero => rfl
  | succ rounds ih =>
      simp only [State.carve, if_pos inside, Nat.add_zero, ih, error_bind]

theorem addMemory_eq (added : s.addMemory mem size objSize = .ok (s', objs)) :
    0 < objSize.toNat ∧ objSize.toNat ≤ size.toNat ∧
      s.carve (mem + size.toNat - objSize.toNat) objSize.toNat (size.toNat + 2) mem =
        .ok (s', objs) := by
  unfold State.addMemory at added
  split at added
  · cases added
  next fits =>
    refine ⟨?_, BitVec.le_def.mp (BitVec.not_lt.mp fits), added⟩
    apply Nat.pos_of_ne_zero
    intro none
    rw [none, carve_zero (by omega)] at added
    cases added

/-- A chunk is carved into objects, wherever it comes from. -/
theorem expanded_of_addMemory {freepos : Word w}
    (added : { s with sosMemoryFreepos := freepos }.addMemory mem size s.pool.objSize =
      .ok (s', objs))
    (aligned : 2 ^ pf.alignBits ∣ mem) (real : 0 < mem) (inside : mem + size.toNat < 2 ^ w)
    (obtained : Obtained pf chunks s.sosMemoryFreepos freepos ⟨mem, size.toNat⟩) :
    Expanded pf chunks s s' ⟨mem, size.toNat⟩ objs := by
  obtain ⟨positive, room, carving⟩ := addMemory_eq added
  obtain ⟨same, -, unmoved, numFree⟩ := carve_frame carving
  refine ⟨positive, room, aligned, real, inside, ?_, carve_carved carving, same, numFree, ?_⟩
  · rw [unmoved]
    exact obtained
  · intro free fresh linked
    exact carve_linked carving real positive fresh linked

theorem sosAlloc_eq {freepos freepos' : Word w} (multiple : 2 ^ pf.alignBits ∣ objSize.toNat)
    (allocated : sosAlloc pf freepos objSize = .ok (mem, freepos')) :
    2 ^ pf.alignBits ∣ mem ∧ mem = pf.sosMemory + freepos.toNat ∧ freepos' = freepos + objSize := by
  have rounded : unwAlign objSize pf.maxAlign = objSize :=
    round_up_of_dvd (Nat.lt_of_le_of_lt pf.align_le_page pf.page_lt) multiple
  simp only [sosAlloc, rounded] at allocated
  split at allocated
  · cases allocated
  next aligned =>
    split at allocated
    · cases allocated
    · cases allocated
      exact ⟨Nat.dvd_of_mod_eq_zero (not_not.mp aligned), rfl, rfl⟩

/-- An expansion by the chunk that was granted. -/
theorem expand_expanded (multiple : 2 ^ pf.alignBits ∣ s.pool.objSize.toNat)
    (valid : grant.Valid pf chunks s.pool)
    (expanded : s.expand pf grant = .ok (s', c, objs)) : Expanded pf chunks s s' c objs := by
  have pageAligned {base : Nat} (page : 2 ^ pf.pageBits ∣ base) : 2 ^ pf.alignBits ∣ base :=
    Nat.dvd_trans (Nat.pow_dvd_pow 2 pf.align_le_page) page
  unfold State.expand at expanded
  split at expanded
  next mem granted =>
    obtain ⟨⟨t, carved⟩, added, result⟩ := bind_eq_ok.mp expanded
    cases result
    have mapped := valid.chunk mem granted
    exact expanded_of_addMemory added (pageAligned mapped.aligned) mapped.real mapped.inside
      (.inl ⟨rfl, mapped.apart_sos, mapped.apart⟩)
  next mem _ granted =>
    obtain ⟨⟨t, carved⟩, added, result⟩ := bind_eq_ok.mp expanded
    cases result
    have mapped := valid.pages mem granted
    exact expanded_of_addMemory added (pageAligned mapped.aligned) mapped.real mapped.inside
      (.inl ⟨rfl, mapped.apart_sos, mapped.apart⟩)
  next =>
    obtain ⟨⟨mem, freepos⟩, allocated, rest⟩ := bind_eq_ok.mp expanded
    dsimp only at rest
    split at rest
    · cases rest
    next within =>
      obtain ⟨⟨t, carved⟩, added, result⟩ := bind_eq_ok.mp rest
      cases result
      obtain ⟨aligned, rfl, rfl⟩ := sosAlloc_eq multiple allocated
      have small := pf.sos_lt
      have end_ : (s.sosMemoryFreepos + s.pool.objSize).toNat =
          s.sosMemoryFreepos.toNat + s.pool.objSize.toNat := by
        rw [BitVec.toNat_add]
        exact Nat.mod_eq_of_lt (by omega)
      have real := pf.sos_pos
      refine expanded_of_addMemory added aligned (by omega) (by omega) (.inr ⟨Nat.le_refl _, ?_, ?_⟩)
      · dsimp only
        omega
      · omega

end Expand

/-! ## Runs -/

/-- A pool in use, with the chunks that it obtained, the objects that they were carved
    into, the objects that are allocated, and all that were ever handed out. -/
structure System (w : Nat) where
  state : State w
  chunks : List Chunk
  carved : List Nat
  allocated : List Nat
  handedOut : List Nat

/-- What happens to a pool: a call of `mempool_alloc` or `mempool_free`, a write to
    memory, and a call of `sos_alloc` from elsewhere. -/
inductive Event (w : Nat) where
  | alloc (grant : Grant)
  | free (object : Nat)
  | write (next : Nat → Nat)
  | sosTaken (freepos : Word w)

def System.add (s : System w) (state : State w) (added : Option (Chunk × List Nat)) : System w :=
  match added with
  | some (c, objs) => { s with state, chunks := c :: s.chunks, carved := objs ++ s.carved }
  | none => { s with state }

/-- A pool that `mempool_init` returned. -/
def Starts (pf : Platform w) (s : System w) : Prop :=
  ∃ objSize reserve next freepos grant c objs,
    freepos.toNat ≤ sosMemorySize ∧
      (∀ pool, initPool pf objSize reserve = .ok pool → grant.Valid pf [] pool) ∧
      mempoolInit pf objSize reserve next freepos grant = .ok (s.state, c, objs) ∧
      s = ⟨s.state, [c], objs, [], []⟩

/-- Calls that return. An object is freed while it is allocated, nobody writes to an
    object that is free, and no part of `sos_memory` is handed out twice. -/
def Steps (pf : Platform w) (s : System w) (e : Event w) (s' : System w) : Prop :=
  match e with
  | .alloc grant =>
      grant.Valid pf s.chunks s.state.pool ∧ ∃ state obj added,
        mempoolAlloc pf s.state grant = .ok ((state, obj), added) ∧
          s' = { s.add state added with
            allocated := obj :: s.allocated, handedOut := obj :: s.handedOut }
  | .free object =>
      object ∈ s.allocated ∧
        s' = { s with
          state := mempoolFree s.state object, allocated := s.allocated.erase object }
  | .write next =>
      (∀ x ∈ s.carved, x ∉ s.allocated → next x = s.state.next x) ∧
        s' = { s with state := { s.state with next } }
  | .sosTaken freepos =>
      s.state.sosMemoryFreepos.toNat ≤ freepos.toNat ∧ freepos.toNat ≤ sosMemorySize ∧
        s' = { s with state := { s.state with sosMemoryFreepos := freepos } }

/-- The objects on the free list. -/
def System.Free (s : System w) (free : List Nat) : Prop :=
  Linked s.state.next 0 s.state.pool.freeList free ∧
    s.state.pool.numFree = BitVec.ofNat w free.length ∧ (free ++ s.allocated).Perm s.carved

def System.objSize (s : System w) : Nat := s.state.pool.objSize.toNat

/-- An object's place. -/
def System.Placed (pf : Platform w) (s : System w) (x : Nat) : Prop :=
  2 ^ pf.alignBits ∣ x ∧
    ∃ c ∈ s.chunks, c.base ≤ x ∧ x + s.objSize ≤ c.base + c.size

structure Inv (pf : Platform w) (s : System w) : Prop where
  free : ∃ free, s.Free free
  handedOut : ∀ x ∈ s.handedOut, x ∈ s.carved
  placed : ∀ x ∈ s.carved, s.Placed pf x
  apart : s.carved.Pairwise fun x y => (objectAt s.objSize x).Apart (objectAt s.objSize y)
  real : ∀ c ∈ s.chunks, 0 < c.base ∧ c.base + c.size < 2 ^ w
  sos : ∀ c ∈ s.chunks, c.Apart pf.sos ∨
    (pf.sosMemory ≤ c.base ∧ c.base + c.size ≤ pf.sosMemory + s.state.sosMemoryFreepos.toNat)
  freepos : s.state.sosMemoryFreepos.toNat ≤ sosMemorySize
  multiple : 2 ^ pf.alignBits ∣ s.objSize
  positive : 0 < s.objSize

section Invariant

variable {pf : Platform w} {s s' : System w}

/-- Objects in chunks that are apart are apart. -/
theorem Chunk.Apart.inside {c d c' d' : Chunk} (apart : c.Apart d)
    (inC : c.base ≤ c'.base ∧ c'.base + c'.size ≤ c.base + c.size)
    (inD : d.base ≤ d'.base ∧ d'.base + d'.size ≤ d.base + d.size) : c'.Apart d' := by
  unfold Chunk.Apart at *
  omega

/-- A new chunk is apart from every old one. -/
theorem Expanded.apart {t : State w} {c : Chunk} {objs : List Nat}
    (expanded : Expanded pf s.chunks s.state t c objs)
    (sos : ∀ d ∈ s.chunks, d.Apart pf.sos ∨ (pf.sosMemory ≤ d.base ∧
      d.base + d.size ≤ pf.sosMemory + s.state.sosMemoryFreepos.toNat))
    (d : Chunk) (old : d ∈ s.chunks) : c.Apart d := by
  rcases expanded.obtained with ⟨-, -, apart⟩ | ⟨after, before, inArray⟩
  · exact apart d old
  · rcases sos d old with outside | ⟨-, taken⟩
    · -- the chunk is a part of `sos_memory`, the old one is not
      unfold Chunk.Apart Platform.sos at *
      dsimp only at outside
      omega
    · unfold Chunk.Apart
      omega

theorem Expanded.placed {t : State w} {chunks : List Chunk} {c : Chunk} {objs : List Nat}
    (expanded : Expanded pf chunks s.state t c objs) (multiple : 2 ^ pf.alignBits ∣ s.objSize)
    {x : Nat} (member : x ∈ objs) :
    2 ^ pf.alignBits ∣ x ∧ c.base ≤ x ∧ x + s.objSize ≤ c.base + c.size := by
  have above := expanded.carved.from_obj x member
  have below := expanded.carved.to_last x member
  have room := expanded.room
  refine ⟨?_, above, ?_⟩
  · have split : x = c.base + (x - c.base) := by omega
    rw [split]
    exact Nat.dvd_add expanded.aligned (Nat.dvd_trans multiple (expanded.carved.multiple x member))
  · unfold System.objSize
    omega

/-- The new objects are apart from the old ones, and from each other. -/
theorem Inv.add {t : State w} {c : Chunk} {objs : List Nat} (inv : Inv pf s)
    (expanded : Expanded pf s.chunks s.state t c objs) : Inv pf (s.add t (some (c, objs))) := by
  have size : (s.add t (some (c, objs))).objSize = s.objSize :=
    congrArg BitVec.toNat expanded.objSize
  have chunkApart := expanded.apart inv.sos
  have newPlace {x : Nat} (member : x ∈ objs) := expanded.placed inv.multiple member
  have positive : 0 < s.objSize := inv.positive
  have newApart : ∀ x ∈ objs, ∀ y ∈ s.carved,
      (objectAt s.objSize x).Apart (objectAt s.objSize y) := by
    intro x new y old
    obtain ⟨-, d, chunk, inside⟩ := inv.placed y old
    exact (chunkApart d chunk).inside (newPlace new).2 inside
  refine ⟨?_, ?_, ?_, ?_, ?_, ?_, ?_, ?_, ?_⟩
  · obtain ⟨free, linked, numFree, perm⟩ := inv.free
    refine ⟨objs.reverse ++ free, ?_, ?_, ?_⟩
    · refine expanded.linked free (fun x new old => ?_) linked
      have apart := newApart x new x (perm.subset (List.mem_append_left _ old))
      unfold Chunk.Apart at apart
      dsimp only at apart
      omega
    · change t.pool.numFree = _
      rw [expanded.numFree, numFree, List.length_append, List.length_reverse, Nat.add_comm,
        BitVec.ofNat_add]
    · change (objs.reverse ++ free ++ s.allocated).Perm (objs ++ s.carved)
      rw [List.append_assoc]
      exact objs.reverse_perm.append perm
  · exact fun x out => List.mem_append_right objs (inv.handedOut x out)
  · intro x member
    rcases List.mem_append.mp member with new | old
    · obtain ⟨aligned, inside⟩ := newPlace new
      refine ⟨aligned, c, List.mem_cons_self, ?_⟩
      rw [size]
      exact inside
    · obtain ⟨aligned, d, chunk, inside⟩ := inv.placed x old
      refine ⟨aligned, d, List.mem_cons_of_mem c chunk, ?_⟩
      rw [size]
      exact inside
  · rw [size]
    refine List.pairwise_append.mpr ⟨?_, inv.apart, newApart⟩
    exact expanded.carved.ordered.imp fun before => .inl before
  · rintro d (_ | ⟨_, old⟩)
    · exact ⟨expanded.real, expanded.inside⟩
    · exact inv.real d old
  · rintro d (_ | ⟨_, old⟩)
    · rcases expanded.obtained with ⟨-, apart, -⟩ | ⟨after, before, -⟩
      · exact .inl apart
      · exact .inr ⟨by omega, before⟩
    · rcases inv.sos d old with apart | ⟨after, before⟩
      · exact .inl apart
      · refine .inr ⟨after, ?_⟩
        change _ ≤ pf.sosMemory + t.sosMemoryFreepos.toNat
        rcases expanded.obtained with ⟨same, -, -⟩ | ⟨later, inArray, -⟩
        · rw [same]
          exact before
        · omega
  · change t.sosMemoryFreepos.toNat ≤ sosMemorySize
    rcases expanded.obtained with ⟨same, -, -⟩ | ⟨-, -, bound⟩
    · rw [same]
      exact inv.freepos
    · exact bound
  · rw [size]
    exact inv.multiple
  · rw [size]
    exact positive

/-- Taking an object moves it from the free list to the allocated ones. -/
theorem Inv.take {t : State w} {obj : Nat} (inv : Inv pf s)
    (taken : s.state.takeObject = .ok (t, obj)) :
    Inv pf { s with
      state := t, allocated := obj :: s.allocated, handedOut := obj :: s.handedOut } := by
  unfold State.takeObject at taken
  split at taken
  · cases taken
  · split at taken
    · cases taken
    next real =>
      cases taken
      obtain ⟨free, linked, numFree, perm⟩ := inv.free
      have some_free : free ≠ [] := by
        rintro rfl
        exact real linked
      obtain ⟨rest, rfl, linkedRest⟩ := linked.pop some_free
      have moved : (rest ++ s.state.pool.freeList :: s.allocated).Perm s.carved :=
        List.perm_middle.trans perm
      refine ⟨⟨rest, linkedRest, ?_, moved⟩, ?_, inv.placed, inv.apart, inv.real, inv.sos,
        inv.freepos, inv.multiple, inv.positive⟩
      · change s.state.pool.numFree - 1 = _
        rw [numFree, List.length_cons, BitVec.ofNat_add]
        exact BitVec.add_sub_cancel _ _
      · rintro x (_ | ⟨_, old⟩)
        · exact perm.subset List.mem_cons_self
        · exact inv.handedOut x old

theorem Inv.alloc {t : State w} {obj : Nat} {grant : Grant}
    {added : Option (Chunk × List Nat)} (inv : Inv pf s)
    (valid : grant.Valid pf s.chunks s.state.pool)
    (allocated : mempoolAlloc pf s.state grant = .ok ((t, obj), added)) :
    Inv pf { s.add t added with
      allocated := obj :: s.allocated, handedOut := obj :: s.handedOut } := by
  unfold mempoolAlloc at allocated
  split at allocated
  · obtain ⟨⟨mid, c, objs⟩, expanded, rest⟩ := bind_eq_ok.mp allocated
    obtain ⟨taken, took, result⟩ := bind_eq_ok.mp rest
    cases result
    exact (inv.add (expand_expanded inv.multiple valid expanded)).take took
  · obtain ⟨taken, took, result⟩ := bind_eq_ok.mp allocated
    cases result
    exact inv.take took

theorem System.Free.nodup {free : List Nat} (inv : Inv pf s) (isFree : s.Free free) :
    (free ++ s.allocated).Nodup := by
  refine isFree.2.2.nodup_iff.mpr (inv.apart.imp fun apart same => ?_)
  have positive := inv.positive
  unfold Chunk.Apart at apart
  dsimp only at apart
  omega

theorem Inv.nonzero (inv : Inv pf s) {x : Nat} (member : x ∈ s.carved) :
    0 < x ∧ x < 2 ^ w := by
  obtain ⟨-, c, chunk, inside⟩ := inv.placed x member
  have place := inv.real c chunk
  have positive := inv.positive
  omega

/-- Freeing an object moves it back. -/
theorem Inv.release {object : Nat} (inv : Inv pf s) (inUse : object ∈ s.allocated) :
    Inv pf { s with
      state := mempoolFree s.state object, allocated := s.allocated.erase object } := by
  obtain ⟨free, isFree⟩ := inv.free
  have nodup := isFree.nodup inv
  obtain ⟨linked, numFree, perm⟩ := isFree
  have absent : object ∉ free := fun twice =>
    (List.nodup_append.mp nodup).2.2 object twice object inUse rfl
  have real := (inv.nonzero (perm.subset (List.mem_append_right free inUse))).1
  have moved : (object :: free ++ s.allocated.erase object).Perm s.carved := by
    refine List.Perm.trans ?_ perm
    refine List.perm_middle.symm.trans ?_
    exact (List.perm_cons_erase inUse).symm.append_left free
  refine ⟨⟨object :: free, linked.push (Nat.ne_of_gt real) absent, ?_, moved⟩, inv.handedOut,
    inv.placed, inv.apart, inv.real, inv.sos, inv.freepos, inv.multiple, inv.positive⟩
  change s.state.pool.numFree + 1 = _
  rw [numFree, List.length_cons, BitVec.ofNat_add]
  rfl

/-- Nothing that happens to the pool breaks the invariant. -/
theorem Inv.step {e : Event w} (inv : Inv pf s) (step : Steps pf s e s') : Inv pf s' := by
  cases e with
  | alloc grant =>
      obtain ⟨valid, state, obj, added, allocated, rfl⟩ := step
      exact inv.alloc valid allocated
  | free object =>
      obtain ⟨inUse, rfl⟩ := step
      exact inv.release inUse
  | write next =>
      obtain ⟨untouched, rfl⟩ := step
      obtain ⟨free, isFree⟩ := inv.free
      have nodup := isFree.nodup inv
      obtain ⟨linked, numFree, perm⟩ := isFree
      have same : ∀ x ∈ free, next x = s.state.next x := fun x member =>
        untouched x (perm.subset (List.mem_append_left _ member)) fun twice =>
          (List.nodup_append.mp nodup).2.2 x member x twice rfl
      exact ⟨⟨free, linked.congr same, numFree, perm⟩, inv.handedOut, inv.placed, inv.apart,
        inv.real, inv.sos, inv.freepos, inv.multiple, inv.positive⟩
  | sosTaken freepos =>
      obtain ⟨later, bound, rfl⟩ := step
      refine ⟨inv.free, inv.handedOut, inv.placed, inv.apart, inv.real, ?_, bound, inv.multiple,
        inv.positive⟩
      intro c chunk
      rcases inv.sos c chunk with apart | ⟨after, before⟩
      · exact .inl apart
      · exact .inr ⟨after, Nat.le_trans before (Nat.add_le_add_left later _)⟩

/-- A pool that `mempool_init` returned has the invariant. -/
theorem Inv.start (starts : Starts pf s) : Inv pf s := by
  obtain ⟨objSize, reserve, next, freepos, grant, c, objs, bound, valid, init, same⟩ := starts
  obtain ⟨pool, initialised, expanded⟩ := bind_eq_ok.mp init
  have fits := valid pool initialised
  have fresh : 2 ^ pf.alignBits ∣ pool.objSize.toNat ∧ pool.numFree = 0 ∧ pool.freeList = 0 := by
    simp only [initPool] at initialised
    by_cases none : reserve = 0 ∧ unwAlign objSize pf.maxAlign = 0
    · rw [if_pos none] at initialised
      cases initialised
    · rw [if_neg none] at initialised
      cases initialised
      exact ⟨dvd_and_not_mask _ (Nat.lt_of_le_of_lt pf.align_le_page pf.page_lt), rfl, rfl⟩
  obtain ⟨multiple, numFree, freeList⟩ := fresh
  have done := expand_expanded multiple fits expanded
  let blank : System w := ⟨{ pool, next, sosMemoryFreepos := freepos }, [], [], [], []⟩
  have inv : Inv pf blank :=
    { free := ⟨[], freeList, numFree, .nil⟩
      handedOut := nofun
      placed := nofun
      apart := .nil
      real := nofun
      sos := nofun
      freepos := bound
      multiple
      positive := done.positive }
  rw [same]
  have added := inv.add done
  rw [System.add, List.append_nil] at added
  exact added

end Invariant

/-! ## The pool's contract -/

/-- What holds of a pool at any time: the counter is the length of the free list; each
    object that was ever handed out is aligned and inside one chunk, and no two overlap;
    and an object is either on the free list or allocated. -/
structure Sound (pf : Platform w) (s : System w) (free : List Nat) : Prop where
  linked : Linked s.state.next 0 s.state.pool.freeList free
  numFree : s.state.pool.numFree.toNat = free.length
  aligned : ∀ x ∈ s.handedOut, 2 ^ pf.alignBits ∣ x
  inside : ∀ x ∈ s.handedOut, ∃ c ∈ s.chunks, c.base ≤ x ∧ x + s.objSize ≤ c.base + c.size
  disjoint : ∀ x ∈ s.handedOut, ∀ y ∈ s.handedOut, x ≠ y →
    (objectAt s.objSize x).Apart (objectAt s.objSize y)
  carved : s.carved.Nodup ∧ ∀ x ∈ s.handedOut, x ∈ s.carved
  once : ∀ x, (x ∈ s.carved ↔ x ∈ free ∨ x ∈ s.allocated) ∧ ¬(x ∈ free ∧ x ∈ s.allocated)
  count : free.Nodup ∧ s.allocated.Nodup

/-- The list is shorter than there are addresses. -/
theorem Inv.length_lt {pf : Platform w} {s : System w} {free : List Nat} (inv : Inv pf s)
    (isFree : s.Free free) : free.length < 2 ^ w := by
  have nodup : free.Nodup := (List.nodup_append.mp (isFree.nodup inv)).1
  have small : free.toFinset ⊆ Finset.Ioo 0 (2 ^ w) := by
    intro x member
    have carved := isFree.2.2.subset (List.mem_append_left s.allocated (List.mem_toFinset.mp member))
    exact Finset.mem_Ioo.mpr (inv.nonzero carved)
  have count := Finset.card_le_card small
  rw [List.toFinset_card_of_nodup nodup, Nat.card_Ioo] at count
  have positive := Nat.two_pow_pos w
  omega

/-- Whatever happens to a pool, it stays sound. -/
theorem pool_sound (pf : Platform w) (s : System w)
    (run : Run (Starts pf) (Steps pf) (fun _ _ => True) s) : ∃ free, Sound pf s free := by
  have inv : Inv pf s := run.invariant (fun s starts => Inv.start starts)
    fun s e s' inv _ step => Inv.step inv step
  obtain ⟨free, isFree⟩ := inv.free
  have nodup := isFree.nodup inv
  have perm := isFree.2.2
  obtain ⟨freeNodup, allocatedNodup, apart⟩ := List.nodup_append.mp nodup
  refine ⟨free, isFree.1, ?_, fun x out => (inv.placed x (inv.handedOut x out)).1,
    fun x out => (inv.placed x (inv.handedOut x out)).2, ?_, ⟨perm.nodup_iff.mp nodup, inv.handedOut⟩,
    ?_, freeNodup, allocatedNodup⟩
  · rw [isFree.2.1, BitVec.toNat_ofNat, Nat.mod_eq_of_lt (inv.length_lt isFree)]
  · intro x outX y outY different
    have symmetric : Std.Symm fun x y => (objectAt s.objSize x).Apart (objectAt s.objSize y) :=
      ⟨fun _ _ => Chunk.Apart.symm⟩
    exact inv.apart.forall (inv.handedOut x outX) (inv.handedOut y outY) different
  · intro x
    refine ⟨?_, fun both => apart x both.1 x both.2 rfl⟩
    rw [← perm.mem_iff, List.mem_append]

/-! ## A pool of four objects -/

theorem sixteen_le_page : 4 ≤ 12 := by decide

theorem page_bits_lt : 12 < 64 := by decide

theorem sixteen_dvd_sos : 2 ^ 4 ∣ 0x600000 := by decide

theorem sos_base_pos : 0 < 0x600000 := by decide

theorem sos_end_lt : 0x600000 + sosMemorySize < 2 ^ 64 := by decide

def platform : Platform 64 where
  alignBits := 4
  pageBits := 12
  sosMemory := 0x600000
  align_le_page := sixteen_le_page
  page_lt := page_bits_lt
  sos_aligned := sixteen_dvd_sos
  sos_pos := sos_base_pos
  sos_lt := sos_end_lt

def page : Chunk := ⟨0x7000000, 4096⟩

/-- A page for four objects of 1000 bytes, of which one is allocated. -/
theorem pool_used : ∃ (s : System 64) (free : List Nat),
    s.allocated = [0x7000bd0] ∧ free.length = 3 ∧ Sound platform s free := by
  have mapped : platform.Mapped [] page :=
    ⟨by decide, by decide, by decide, .inr (by decide), nofun⟩
  have valid (pool : Pool 64) (initialised : initPool platform 1000 1 = .ok pool) :
      Grant.Valid platform [] pool ⟨some page.base, none⟩ := by
    have sizes : initPool platform 1000 1 = .ok ⟨1008, 4096, 1, 0, 0⟩ := rfl
    cases sizes.symm.trans initialised
    exact ⟨fun mem granted => by cases granted; exact mapped, nofun⟩
  obtain ⟨t, t', started, allocated, numFree⟩ : ∃ t t',
      Starts platform ⟨t, [page], [0x7000000, 0x70003f0, 0x70007e0, 0x7000bd0], [], []⟩ ∧
        mempoolAlloc platform t ⟨none, none⟩ = .ok ((t', 0x7000bd0), none) ∧
        t'.pool.numFree = 3 :=
    ⟨_, _, ⟨1000, 1, fun _ => 0, 0, ⟨some page.base, none⟩, page, _, by decide, valid, rfl, rfl⟩,
      rfl, rfl⟩
  obtain ⟨free, sound⟩ := pool_sound platform _ (.step (.alloc ⟨none, none⟩) (.start started)
    trivial ⟨⟨nofun, nofun⟩, t', _, none, allocated, rfl⟩)
  exact ⟨_, free, rfl, by rw [← sound.numFree, System.add, numFree]; rfl, sound⟩

end Libunwind.Mempool
