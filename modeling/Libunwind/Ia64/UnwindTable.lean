import Libunwind.Basic
import Libunwind.Library.Ledger

/-! # The unwind table

The search for the unwind info of an address: a bisection of a table in local memory or in the
target's, and the reads that follow it. Each of these may fail, and from the third on a block may
have been allocated.
-/

namespace Libunwind.Ia64

open Ledger

/-- `struct ia64_table_entry` -/
structure TableEntry where
  startOffset : Word 64
  endOffset : Word 64
  infoOffset : Word 64
  deriving DecidableEq, Repr

/-- `sizeof (struct ia64_table_entry)` -/
def tableEntrySize : ℕ := 24

/-! ## The two searches

The numbers of entries are far below the largest `unsigned long`, so that no sum of two wraps. -/

section Local

variable (entryAt : ℕ → Result TableEntry) (relIp : Word 64)

/-- The loop of `lookup`; `e` is the entry that it looked at last. -/
def lookupLoop : ℕ → ℕ → ℕ → Option TableEntry → Result (Option TableEntry)
  | 0, lo, hi, e => if lo < hi then .error .timeout else pure e
  | rounds + 1, lo, hi, e =>
      if lo < hi then do
        let mid := (lo + hi) / 2
        let e ← entryAt mid
        if relIp < e.startOffset then lookupLoop rounds lo mid (some e)
        else if relIp ≥ e.endOffset then lookupLoop rounds (mid + 1) hi (some e)
        else pure (some e)
      else pure e

/-- The test after the loop. There is no entry to test where the loop looked at none. -/
def lookupTest : Option TableEntry → Result (Option TableEntry)
  | none => .error .undefined
  | some e => if relIp < e.startOffset ∨ relIp ≥ e.endOffset then pure none else pure (some e)

/-- `lookup` -/
def lookup (tableSize : Word 64) : Result (Option TableEntry) := do
  let hi := tableSize.toNat / tableEntrySize
  let e ← lookupLoop entryAt relIp hi 0 hi none
  lookupTest relIp e

end Local

section Remote

variable (as : AddrSpace 64) (table : Word 64) (relIp : Word 64)

/-- The locals of `remote_lookup`; an offset is `none` until it has been read. -/
structure RemoteEntry where
  addr : Word 64 := 0
  startOffset : Option (Word 64) := none
  endOffset : Option (Word 64) := none

/-- `remote_read` -/
def remoteRead (addr : Word 64) : Result (Word 64) := ofAccess (as.accessMem addr)

/-- The address of an entry. -/
def entryAddr (i : ℕ) : Word 64 := table + BitVec.ofNat 64 (i * tableEntrySize)

/-- The loop of `remote_lookup`. -/
def remoteLoop : ℕ → ℕ → ℕ → RemoteEntry → Result RemoteEntry
  | 0, lo, hi, e => if lo < hi then .error .timeout else pure e
  | rounds + 1, lo, hi, e =>
      if lo < hi then do
        let mid := (lo + hi) / 2
        let addr := entryAddr table mid
        let startOffset ← remoteRead as addr
        if relIp < startOffset then
          remoteLoop rounds lo mid { e with addr, startOffset := some startOffset }
        else do
          let endOffset ← remoteRead as (addr + 8)
          let e := ⟨addr, some startOffset, some endOffset⟩
          if relIp ≥ endOffset then remoteLoop rounds (mid + 1) hi e else pure e
      else pure e

/-- What follows the loop. -/
def remoteTest (e : RemoteEntry) : Result (Option TableEntry) :=
  match e.startOffset with
  | none => .error .undefined
  | some startOffset =>
      if relIp < startOffset then pure none
      else
        match e.endOffset with
        | none => .error .undefined
        | some endOffset =>
            if relIp ≥ endOffset then pure none
            else do
              let infoOffset ← remoteRead as (e.addr + 16)
              pure (some ⟨startOffset, endOffset, infoOffset⟩)

/-- `remote_lookup` -/
def remoteLookup (tableSize : Word 64) : Result (Option TableEntry) := do
  let hi := tableSize.toNat / tableEntrySize
  let e ← remoteLoop as table relIp hi 0 hi {}
  remoteTest as relIp e

end Remote

/-! ## The search for the unwind info of an address -/

/-- The table of an `unw_dyn_info_t`, by its format. -/
inductive TableData where
  /-- `UNW_INFO_FORMAT_TABLE` -/
  | table (entries : List TableEntry)
  /-- `UNW_INFO_FORMAT_REMOTE_TABLE` -/
  | remoteTable (addr : Word 64)
  deriving DecidableEq

def TableData.isRemote : TableData → Bool
  | .table _ => false
  | .remoteTable _ => true

/-- `unw_dyn_info_t` with a table; `tableLen` counts words. -/
structure DynInfo where
  startIp : Word 64
  endIp : Word 64
  gp : Word 64
  segbase : Word 64
  tableLen : Word 64
  tableData : TableData

/-- What `unwind_info` points to. -/
inductive UnwindInfo where
  | null
  | inPlace (addr : Word 64)
  | block (id : ℕ)
  deriving DecidableEq

/-- `unw_proc_info_t`; the format is that of the table. -/
structure ProcInfo where
  startIp : Word 64 := 0
  endIp : Word 64 := 0
  lsda : Word 64 := 0
  handler : Word 64 := 0
  gp : Word 64 := 0
  flags : Word 64 := 0
  isRemoteTable : Bool := false
  unwindInfoSize : Int := 0
  unwindInfo : UnwindInfo := .null
  deriving DecidableEq

/-- What `malloc` has given out, with the words in each block. -/
abbrev Heap := Pool (List (Word 64))

/-- `IA64_UNW_VER` -/
def unwVer (hdr : Word 64) : Word 64 := hdr >>> 48

/-- `IA64_UNW_LENGTH` -/
def unwLength (hdr : Word 64) : Word 64 := hdr &&& 0x00000000ffffffff

/-- `IA64_UNW_FLAG_EHANDLER` or `IA64_UNW_FLAG_UHANDLER` -/
def unwHasHandler (hdr : Word 64) : Bool :=
  hdr &&& 0x0000000100000000 != 0 || hdr &&& 0x0000000200000000 != 0

/-- The arguments of a search, and what it finds in the process. -/
structure SearchCall where
  as : AddrSpace 64
  /-- `is_local_addr_space (as)` -/
  isLocal : Bool
  ip : Word 64
  di : DynInfo
  pi : ProcInfo
  needUnwindInfo : Bool
  heap : Heap
  /-- Whether `malloc` has a block of so many bytes. -/
  grants : ℕ → Bool

/-- What a search leaves when it returns. -/
structure Outcome where
  ret : Except UnwError Unit
  pi : ProcInfo
  heap : Heap

namespace SearchCall

variable (call : SearchCall)

def relIp : Word 64 := call.ip - call.di.segbase

def tableSize : Word 64 := call.di.tableLen * 8

/-- An entry of the table in local memory. There is none behind its end. -/
def localEntry (entries : List TableEntry) (i : ℕ) : Result TableEntry :=
  match entries[i]? with
  | some e => pure e
  | none => .error .undefined

/-- The search of the table. -/
def findEntry : Result (Option TableEntry) :=
  match call.di.tableData with
  | .table entries => lookup (localEntry entries) call.relIp call.tableSize
  | .remoteTable table => remoteLookup call.as table call.relIp call.tableSize

/-- The loop that copies the unwind descriptors; their number bounds its rounds. -/
def readDescriptors (infoEnd : Word 64) : ℕ → Word 64 → Result (List (Word 64))
  | 0, addr => if addr < infoEnd then .error .timeout else pure []
  | rounds + 1, addr =>
      if addr < infoEnd then do
        let word ← ofAccess (call.as.accessMem addr)
        let words ← readDescriptors infoEnd rounds (addr + 8)
        pure (word :: words)
      else pure []

/-- The descriptors are wanted, and have to be copied. -/
def internalises : Bool := call.needUnwindInfo && !call.isLocal

/-- `if (need_unwind_info || is_local)` -/
def unwindInfo (hdr infoAddr infoEnd : Word 64) (pi : ProcInfo) : Result Outcome :=
  let size := 8 * (unwLength hdr).toNat
  if call.needUnwindInfo || call.isLocal then
    let pi := { pi with unwindInfoSize := (BitVec.ofNat 32 size).toInt }
    if call.isLocal then pure ⟨.ok (), { pi with unwindInfo := .inPlace infoAddr }, call.heap⟩
    else if call.grants size then
      let pi := { pi with unwindInfo := .block call.heap.fresh }
      match call.readDescriptors infoEnd (unwLength hdr).toNat infoAddr with
      | .ok words => pure ⟨.ok (), pi, call.heap.take words⟩
      | .error (.err code) =>
          pure ⟨.error code, pi, (call.heap.take []).giveBack call.heap.fresh (by simp)⟩
      | .error e => .error e
    else pure ⟨.error .nomem, pi, call.heap⟩
  else pure ⟨.ok (), pi, call.heap⟩

/-- The rest of the search, from the flags of the header on. Where the personality routine cannot
    be read, the result is that of the read before. -/
def readHandler (hdr infoEnd : Word 64) (o : Outcome) : Outcome :=
  let rest (pi : ProcInfo) : Outcome :=
    { o with pi := { pi with
        lsda := infoEnd + 8
        gp := call.di.gp
        isRemoteTable := call.di.tableData.isRemote } }
  if unwHasHandler hdr then
    match call.as.accessMem infoEnd with
    | .error code => { o with ret := .error code }
    | .ok handlerOffset =>
        match call.as.accessMem (handlerOffset + call.di.gp) with
        | .error _ => o
        | .ok handler => rest { o.pi with handler }
  else rest o.pi

def hdrAddr (e : TableEntry) : Word 64 := e.infoOffset + call.di.segbase

def infoAddr (e : TableEntry) : Word 64 := call.hdrAddr e + 8

def infoEnd (e : TableEntry) (hdr : Word 64) : Word 64 := call.infoAddr e + 8 * unwLength hdr

/-- The search, from the entry on. -/
def readProcInfo (e : TableEntry) (pi : ProcInfo) : Result Outcome :=
  let pi := { pi with
    startIp := e.startOffset + call.di.segbase
    endIp := e.endOffset + call.di.segbase }
  match call.as.accessMem (call.hdrAddr e) with
  | .error code => pure ⟨.error code, pi, call.heap⟩
  | .ok hdr =>
      if unwVer hdr ≠ 1 then pure ⟨.error .badversion, pi, call.heap⟩
      else do
        let o ← call.unwindInfo hdr (call.infoAddr e) (call.infoEnd e hdr) pi
        match o.ret with
        | .error _ => pure o
        | .ok () => pure (call.readHandler hdr (call.infoEnd e hdr) o)

/-- `unw_search_ia64_unwind_table` -/
def unwSearchIa64UnwindTable : Result Outcome :=
  if call.di.startIp ≤ call.ip ∧ call.ip < call.di.endIp then
    let pi := { call.pi with flags := 0, unwindInfo := .null, handler := 0 }
    match call.findEntry with
    | .error (.err code) => pure ⟨.error code, pi, call.heap⟩
    | .error e => .error e
    | .ok none => pure ⟨.ok (), { gp := call.di.gp }, call.heap⟩
    | .ok (some e) => call.readProcInfo e pi
  else .error .undefined

end SearchCall

/-! ## Where a bisection leads -/

def TableEntry.Contains (e : TableEntry) (relIp : Word 64) : Prop :=
  e.startOffset ≤ relIp ∧ relIp < e.endOffset

section Path

variable (entries : List TableEntry) (table relIp : Word 64)

/-- The entry to which the bisection between two positions leads. -/
def located : ℕ → ℕ → ℕ → Option TableEntry
  | 0, _, _ => none
  | rounds + 1, lo, hi =>
      if lo < hi then
        match entries[(lo + hi) / 2]? with
        | none => none
        | some e =>
            if relIp < e.startOffset then located rounds lo ((lo + hi) / 2)
            else if e.endOffset ≤ relIp then located rounds ((lo + hi) / 2 + 1) hi
            else some e
      else none

/-- The words that it takes to get there. -/
def wordsOnWay : ℕ → ℕ → ℕ → List (Word 64)
  | 0, _, _ => []
  | rounds + 1, lo, hi =>
      if lo < hi then
        match entries[(lo + hi) / 2]? with
        | none => []
        | some e =>
            let addr := entryAddr table ((lo + hi) / 2)
            if relIp < e.startOffset then addr :: wordsOnWay rounds lo ((lo + hi) / 2)
            else if e.endOffset ≤ relIp then
              addr :: (addr + 8) :: wordsOnWay rounds ((lo + hi) / 2 + 1) hi
            else [addr, addr + 8, addr + 16]
      else []

end Path

/-- The table is sorted by start, and no two of its entries overlap. -/
def IsSorted (entries : List TableEntry) : Prop :=
  entries.Pairwise fun e e' => e.startOffset ≤ e'.startOffset ∧ e.endOffset ≤ e'.startOffset

/-- The memory cannot be read there. -/
def Fails (as : AddrSpace 64) (addr : Word 64) : Prop := ∃ code, as.accessMem addr = .error code

/-- What is read there, if anything. -/
def Holds (as : AddrSpace 64) (addr word : Word 64) : Prop :=
  ∀ read, as.accessMem addr = .ok read → read = word

/-- The entries are in memory at `table`, which need not be readable. -/
def StoredAt (as : AddrSpace 64) (table : Word 64) (entries : List TableEntry) : Prop :=
  ∀ i e, entries[i]? = some e → Holds as (entryAddr table i) e.startOffset ∧
    Holds as (entryAddr table i + 8) e.endOffset ∧ Holds as (entryAddr table i + 16) e.infoOffset

variable {entries : List TableEntry} {relIp table : Word 64} {as : AddrSpace 64}

theorem IsSorted.apart (sorted : IsSorted entries) {i j : ℕ} {e e' : TableEntry} (lt : i < j)
    (first : entries[i]? = some e) (second : entries[j]? = some e') :
    e.startOffset ≤ e'.startOffset ∧ e.endOffset ≤ e'.startOffset := by
  obtain ⟨inFirst, rfl⟩ := List.getElem?_eq_some_iff.mp first
  obtain ⟨inSecond, rfl⟩ := List.getElem?_eq_some_iff.mp second
  exact List.pairwise_iff_getElem.mp sorted i j inFirst inSecond lt

/-- Where the address is before an entry, no entry from there on contains it. -/
theorem IsSorted.before (sorted : IsSorted entries) {i j : ℕ} {e e' : TableEntry}
    (first : entries[i]? = some e) (second : entries[j]? = some e')
    (before : relIp < e.startOffset) (contains : e'.Contains relIp) : j < i := by
  rcases Nat.lt_trichotomy j i with lt | rfl | gt
  · exact lt
  · obtain rfl := Option.some_inj.mp (first.symm.trans second)
    exact absurd contains.1 (BitVec.not_le.mpr before)
  · exact absurd (BitVec.le_trans (sorted.apart gt first second).1 contains.1) (BitVec.not_le.mpr before)

/-- Where the address is behind an entry, no entry up to there contains it. -/
theorem IsSorted.behind (sorted : IsSorted entries) {i j : ℕ} {e e' : TableEntry}
    (first : entries[i]? = some e) (second : entries[j]? = some e')
    (started : e.startOffset ≤ relIp) (behind : e.endOffset ≤ relIp)
    (contains : e'.Contains relIp) : i < j := by
  rcases Nat.lt_trichotomy j i with lt | rfl | gt
  · have ended := (sorted.apart lt second first).2
    exact absurd contains.2 (BitVec.not_lt.mpr (BitVec.le_trans ended started))
  · obtain rfl := Option.some_inj.mp (first.symm.trans second)
    exact absurd contains.2 (BitVec.not_lt.mpr behind)
  · exact gt

/-- In a sorted table the bisection leads to the entry that contains the address, if there is one. -/
theorem located_eq_some_iff (sorted : IsSorted entries) {e : TableEntry} {rounds lo hi : ℕ}
    (enough : hi - lo ≤ rounds) (within : hi ≤ entries.length) :
    located entries relIp rounds lo hi = some e ↔
      ∃ i, lo ≤ i ∧ i < hi ∧ entries[i]? = some e ∧ e.Contains relIp := by
  induction rounds generalizing lo hi with
  | zero =>
      refine iff_of_false nofun ?_
      rintro ⟨i, above, below, -⟩
      omega
  | succ rounds ih =>
      rw [located]
      by_cases inside : lo < hi
      · have found := List.getElem?_eq_getElem (show (lo + hi) / 2 < entries.length by omega)
        rw [if_pos inside, found]
        dsimp only
        generalize entries[(lo + hi) / 2] = middle at found
        by_cases before : relIp < middle.startOffset
        · rw [if_pos before, ih (by omega) (by omega)]
          refine exists_congr fun i => and_congr_right fun above => ⟨?_, ?_⟩
          · rintro ⟨below, rest⟩
            exact ⟨by omega, rest⟩
          · rintro ⟨-, at_i, contains⟩
            exact ⟨sorted.before found at_i before contains, at_i, contains⟩
        · rw [if_neg before]
          by_cases behind : middle.endOffset ≤ relIp
          · rw [if_pos behind, ih (by omega) within]
            refine exists_congr fun i => ⟨?_, ?_⟩
            · rintro ⟨above, rest⟩
              exact ⟨by omega, rest⟩
            · rintro ⟨-, below, at_i, contains⟩
              have := sorted.behind found at_i (BitVec.not_lt.mp before) behind contains
              exact ⟨by omega, below, at_i, contains⟩
          · rw [if_neg behind, Option.some_inj]
            have contains : middle.Contains relIp := ⟨BitVec.not_lt.mp before, BitVec.not_le.mp behind⟩
            constructor
            · rintro rfl
              exact ⟨_, by omega, by omega, found, contains⟩
            · rintro ⟨i, -, -, at_i, also⟩
              rcases Nat.lt_trichotomy i ((lo + hi) / 2) with lt | rfl | gt
              · have ended := (sorted.apart lt at_i found).2
                exact absurd also.2 (BitVec.not_lt.mpr (BitVec.le_trans ended contains.1))
              · exact Option.some_inj.mp (found.symm.trans at_i)
              · have ended := (sorted.apart gt found at_i).2
                exact absurd contains.2 (BitVec.not_lt.mpr (BitVec.le_trans ended also.1))
      · rw [if_neg inside]
        refine iff_of_false nofun ?_
        rintro ⟨i, above, below, -⟩
        omega

/-! ## What the searches find -/

/-- `lookup` finds the entry to which the bisection leads, once it has looked at any. -/
theorem lookupLoop_eq {rounds lo hi : ℕ} {last : Option TableEntry} (enough : hi - lo ≤ rounds)
    (within : hi ≤ entries.length) (looked : lo < hi ∨ lookupTest relIp last = .ok none) :
    (do
      let e ← lookupLoop (SearchCall.localEntry entries) relIp rounds lo hi last
      lookupTest relIp e) = .ok (located entries relIp rounds lo hi) := by
  induction rounds generalizing lo hi last with
  | zero =>
      have outside : ¬lo < hi := by omega
      rw [lookupLoop, if_neg outside]
      exact looked.resolve_left outside
  | succ rounds ih =>
      rw [lookupLoop, located]
      by_cases inside : lo < hi
      · have found := List.getElem?_eq_getElem (show (lo + hi) / 2 < entries.length by omega)
        rw [if_pos inside, if_pos inside]
        simp only [SearchCall.localEntry, found, pure_eq_ok, ok_bind]
        generalize entries[(lo + hi) / 2] = middle at found
        by_cases before : relIp < middle.startOffset
        · rw [if_pos before, if_pos before]
          exact ih (by omega) (by omega) (.inr (if_pos (.inl before)))
        · rw [if_neg before, if_neg before]
          by_cases behind : middle.endOffset ≤ relIp
          · rw [if_pos behind, if_pos behind]
            exact ih (by omega) within (.inr (if_pos (.inr behind)))
          · rw [if_neg behind, if_neg behind]
            exact if_neg (not_or.mpr ⟨before, behind⟩)
      · rw [if_neg inside, if_neg inside]
        exact looked.resolve_left inside

theorem lookup_eq {tableSize : Word 64} (length : tableSize.toNat / tableEntrySize = entries.length)
    (nonempty : entries ≠ []) :
    lookup (SearchCall.localEntry entries) relIp tableSize =
      .ok (located entries relIp entries.length 0 entries.length) := by
  rw [lookup, length]
  exact lookupLoop_eq (Nat.sub_le _ _) le_rfl (.inl (List.length_pos_iff.mpr nonempty))

/-- The routine needs these words: it fails where one of them cannot be read, and delivers `value`
    where all can. -/
def Needs {α : Type} (as : AddrSpace 64) (words : List (Word 64)) (r : Result α) (value : α) : Prop :=
  ((∃ addr ∈ words, Fails as addr) ∧ IsNegative r) ∨
    ((∀ addr ∈ words, ¬Fails as addr) ∧ r = .ok value)

namespace Needs

variable {α : Type} {words : List (Word 64)} {value : α}

theorem nothing {r : Result α} (isOk : r = .ok value) : Needs as [] r value :=
  .inr ⟨List.forall_mem_nil _, isOk⟩

theorem map {β : Type} {r : Result α} (needs : Needs as words r value) (f : α → β) :
    Needs as words (r >>= fun a => pure (f a)) (f value) := by
  cases needs with
  | inl fails =>
      obtain ⟨missing, code, rfl⟩ := fails
      exact .inl ⟨missing, code, rfl⟩
  | inr reads =>
      obtain ⟨all, rfl⟩ := reads
      exact .inr ⟨all, rfl⟩

/-- One more word, which is read first. -/
theorem read {addr word : Word 64} {rest : Word 64 → Result α} (holds : Holds as addr word)
    (later : Needs as words (rest word) value) :
    Needs as (addr :: words) (remoteRead as addr >>= rest) value := by
  rw [remoteRead]
  cases isRead : as.accessMem addr with
  | error code => exact .inl ⟨⟨addr, List.mem_cons_self, code, isRead⟩, code, rfl⟩
  | ok found =>
      obtain rfl := holds found isRead
      have succeeds : ¬Fails as addr := by
        rintro ⟨code, fails⟩
        exact nomatch isRead.symm.trans fails
      cases later with
      | inl fails =>
          obtain ⟨⟨bad, member, fails⟩, isNegative⟩ := fails
          exact .inl ⟨⟨bad, List.mem_cons_of_mem addr member, fails⟩, isNegative⟩
      | inr reads =>
          obtain ⟨all, isOk⟩ := reads
          exact .inr ⟨List.forall_mem_cons.mpr ⟨succeeds, all⟩, isOk⟩

end Needs

/-- `remote_lookup` finds the entry to which the bisection leads, and needs the words on the way. -/
theorem remoteLoop_needs (stored : StoredAt as table entries) {rounds lo hi : ℕ}
    {last : RemoteEntry} (enough : hi - lo ≤ rounds) (within : hi ≤ entries.length)
    (looked : lo < hi ∨ remoteTest as relIp last = .ok none) :
    Needs as (wordsOnWay entries table relIp rounds lo hi)
      (do
        let e ← remoteLoop as table relIp rounds lo hi last
        remoteTest as relIp e)
      (located entries relIp rounds lo hi) := by
  induction rounds generalizing lo hi last with
  | zero =>
      have outside : ¬lo < hi := by omega
      rw [remoteLoop, if_neg outside]
      exact .nothing (looked.resolve_left outside)
  | succ rounds ih =>
      rw [remoteLoop, located, wordsOnWay]
      by_cases inside : lo < hi
      · have found := List.getElem?_eq_getElem (show (lo + hi) / 2 < entries.length by omega)
        rw [if_pos inside, if_pos inside, if_pos inside, found, bind_assoc]
        dsimp only
        generalize entries[(lo + hi) / 2] = middle at found
        obtain ⟨start, finish, info⟩ := stored _ _ found
        by_cases before : relIp < middle.startOffset
        · rw [if_pos before, if_pos before]
          refine .read start ?_
          rw [if_pos before]
          exact ih (by omega) (by omega) (.inr (if_pos before))
        · rw [if_neg before, if_neg before]
          by_cases behind : middle.endOffset ≤ relIp
          · rw [if_pos behind, if_pos behind]
            refine .read start ?_
            rw [if_neg before, bind_assoc]
            refine .read finish ?_
            rw [if_pos behind]
            have missed : remoteTest as relIp ⟨entryAddr table ((lo + hi) / 2),
                some middle.startOffset, some middle.endOffset⟩ = .ok none := by
              rw [remoteTest]
              dsimp only
              rw [if_neg before, if_pos behind]
              rfl
            exact ih (by omega) within (.inr missed)
          · rw [if_neg behind, if_neg behind]
            refine .read start ?_
            rw [if_neg before, bind_assoc]
            refine .read finish ?_
            rw [if_neg behind, pure_eq_ok, ok_bind, remoteTest]
            dsimp only
            rw [if_neg before, if_neg behind]
            exact .read info (.nothing rfl)
      · rw [if_neg inside, if_neg inside, if_neg inside]
        exact .nothing (looked.resolve_left inside)

theorem remoteLookup_needs (stored : StoredAt as table entries) {tableSize : Word 64}
    (length : tableSize.toNat / tableEntrySize = entries.length) (nonempty : entries ≠ []) :
    Needs as (wordsOnWay entries table relIp entries.length 0 entries.length)
      (remoteLookup as table relIp tableSize)
      (located entries relIp entries.length 0 entries.length) := by
  rw [remoteLookup, length]
  exact remoteLoop_needs stored (Nat.sub_le _ _) le_rfl (.inl (List.length_pos_iff.mpr nonempty))

/-- All of the table can be read. -/
def InMemory (as : AddrSpace 64) (table : Word 64) (entries : List TableEntry) : Prop :=
  ∀ i e, entries[i]? = some e → as.accessMem (entryAddr table i) = .ok e.startOffset ∧
    as.accessMem (entryAddr table i + 8) = .ok e.endOffset ∧
    as.accessMem (entryAddr table i + 16) = .ok e.infoOffset

theorem not_fails_of_read {addr word : Word 64} (read : as.accessMem addr = .ok word) :
    ¬Fails as addr := by
  rintro ⟨code, fails⟩
  exact nomatch read.symm.trans fails

theorem InMemory.storedAt (inMemory : InMemory as table entries) : StoredAt as table entries := by
  have holds {addr word : Word 64} (read : as.accessMem addr = .ok word) : Holds as addr word :=
    fun _ also => Except.ok.inj (also.symm.trans read)
  intro i e found
  obtain ⟨start, finish, info⟩ := inMemory i e found
  exact ⟨holds start, holds finish, holds info⟩

theorem InMemory.not_fails (inMemory : InMemory as table entries) {rounds lo hi : ℕ} :
    ∀ addr ∈ wordsOnWay entries table relIp rounds lo hi, ¬Fails as addr := by
  induction rounds generalizing lo hi with
  | zero => exact List.forall_mem_nil _
  | succ rounds ih =>
      rw [wordsOnWay]
      split
      next =>
        split
        next => exact List.forall_mem_nil _
        next e found =>
          obtain ⟨start, finish, info⟩ := inMemory _ e found
          dsimp only
          split_ifs
          · exact List.forall_mem_cons.mpr ⟨not_fails_of_read start, ih⟩
          · exact List.forall_mem_cons.mpr ⟨not_fails_of_read start,
              List.forall_mem_cons.mpr ⟨not_fails_of_read finish, ih⟩⟩
          · exact List.forall_mem_cons.mpr ⟨not_fails_of_read start,
              List.forall_mem_cons.mpr ⟨not_fails_of_read finish,
                List.forall_mem_singleton.mpr (not_fails_of_read info)⟩⟩
      next => exact List.forall_mem_nil _

/-- For every address, both searches of the table find the same entry or none. Where the table is in
    order, that is the entry which contains the address. -/
def SearchesAgree (entries : List TableEntry) : Prop :=
  ∀ as table tableSize relIp, tableSize.toNat / tableEntrySize = entries.length →
    InMemory as table entries →
      ∃ found, lookup (SearchCall.localEntry entries) relIp tableSize = .ok found ∧
        remoteLookup as table relIp tableSize = .ok found ∧
        (IsSorted entries → ∀ e, found = some e ↔ e ∈ entries ∧ e.Contains relIp)

/-- They do, but for the table without entries. -/
theorem searchesAgree_iff : SearchesAgree entries ↔ entries ≠ [] := by
  constructor
  · rintro agree rfl
    let as : AddrSpace 64 := ⟨false, fun _ => .ok 0, fun _ => .ok 0, fun _ => .ok 0, fun _ => .ok 0⟩
    obtain ⟨found, isLocal, -⟩ := agree as 0 0 0 rfl (fun _ _ found => nomatch found)
    exact nomatch isLocal
  · intro nonempty as table tableSize relIp length inMemory
    refine ⟨_, lookup_eq length nonempty, ?_, fun sorted e => ?_⟩
    · cases remoteLookup_needs inMemory.storedAt length nonempty with
      | inl fails =>
          obtain ⟨⟨addr, member, fails⟩, -⟩ := fails
          exact absurd fails (inMemory.not_fails addr member)
      | inr reads => exact reads.2
    · rw [located_eq_some_iff sorted (Nat.sub_le _ _) le_rfl]
      constructor
      · rintro ⟨i, -, -, found, contains⟩
        exact ⟨List.mem_of_getElem? found, contains⟩
      · rintro ⟨member, contains⟩
        obtain ⟨i, below, rfl⟩ := List.getElem_of_mem member
        exact ⟨i, Nat.zero_le i, below, List.getElem?_eq_getElem below, contains⟩

/-! ## What a search reads -/

namespace SearchCall

variable (call : SearchCall)

/-- The table of the call, in local memory or where the target's memory can be read. -/
def HasTable (entries : List TableEntry) : Prop :=
  call.tableSize.toNat / tableEntrySize = entries.length ∧
    match call.di.tableData with
    | .table own => own = entries
    | .remoteTable table => StoredAt call.as table entries

/-- The entry for the address. -/
def entry (entries : List TableEntry) : Option TableEntry :=
  located entries call.relIp entries.length 0 entries.length

/-- The words of the table that the target has to be asked for. -/
def tableWords (entries : List TableEntry) : List (Word 64) :=
  match call.di.tableData with
  | .table _ => []
  | .remoteTable table => wordsOnWay entries table call.relIp entries.length 0 entries.length

/-- The header that the search goes on with. -/
def Header (e : TableEntry) (hdr : Word 64) : Prop :=
  call.as.accessMem (call.hdrAddr e) = .ok hdr ∧ unwVer hdr = 1

/-- The words from `addr` on. -/
def wordAddrs (addr : Word 64) (count : ℕ) : List (Word 64) :=
  (List.range count).map fun i => addr + 8 * BitVec.ofNat 64 i

/-- The addresses of the descriptors; there are none where their end is not above their start. -/
def descriptorAddrs (e : TableEntry) (hdr : Word 64) : List (Word 64) :=
  if call.infoAddr e < call.infoEnd e hdr then
    wordAddrs (call.infoAddr e) (unwLength hdr).toNat
  else []

/-- What a search needs to read, given what it has read. -/
inductive Needed (entries : List TableEntry) : Word 64 → Prop
  | table {addr} : addr ∈ call.tableWords entries → Needed entries addr
  | header {e} : call.entry entries = some e → Needed entries (call.hdrAddr e)
  | descriptor {e hdr addr} : call.entry entries = some e → call.Header e hdr →
      call.internalises = true → addr ∈ call.descriptorAddrs e hdr → Needed entries addr
  | handlerOffset {e hdr} : call.entry entries = some e → call.Header e hdr →
      unwHasHandler hdr = true → Needed entries (call.infoEnd e hdr)
  | handler {e hdr handlerOffset} : call.entry entries = some e → call.Header e hdr →
      unwHasHandler hdr = true → call.as.accessMem (call.infoEnd e hdr) = .ok handlerOffset →
      Needed entries (handlerOffset + call.di.gp)

/-- A read that is needed and fails makes the result negative, and a negative result leaves no
    block allocated. -/
structure IsClean (entries : List TableEntry) (o : Outcome) : Prop where
  reports : ∀ addr, call.Needed entries addr → Fails call.as addr → ∃ code, o.ret = .error code
  frees : (∃ code, o.ret = .error code) → o.heap.cells = call.heap.cells

def FailsCleanly (entries : List TableEntry) : Prop :=
  ∃ o, call.unwSearchIa64UnwindTable = .ok o ∧ call.IsClean entries o

/-- The descriptors can be copied. -/
def Copies (e : TableEntry) (hdr : Word 64) : Prop :=
  call.grants (8 * (unwLength hdr).toNat) = true ∧
    ∀ addr ∈ call.descriptorAddrs e hdr, ¬Fails call.as addr

/-- Where the search comes to read the personality routine, it can read the routine's offset, or has
    no block; and with the offset it can read the routine. -/
def HandlerReadable (entries : List TableEntry) : Prop :=
  ∀ e hdr, call.entry entries = some e → (∀ addr ∈ call.tableWords entries, ¬Fails call.as addr) →
    call.Header e hdr → unwHasHandler hdr = true →
    (call.internalises = true → call.Copies e hdr) →
    (Fails call.as (call.infoEnd e hdr) → call.internalises = false) ∧
      ∀ handlerOffset, call.as.accessMem (call.infoEnd e hdr) = .ok handlerOffset →
        ¬Fails call.as (handlerOffset + call.di.gp)

variable {call}

theorem findEntry_needs (hasTable : call.HasTable entries) (nonempty : entries ≠ []) :
    Needs call.as (call.tableWords entries) call.findEntry (call.entry entries) := by
  obtain ⟨length, isTable⟩ := hasTable
  rw [tableWords, findEntry]
  cases data : call.di.tableData with
  | table own =>
      rw [data] at isTable
      subst isTable
      exact .nothing (lookup_eq length nonempty)
  | remoteTable table =>
      rw [data] at isTable
      exact remoteLookup_needs isTable length nonempty

theorem wordAddrs_succ (addr : Word 64) (count : ℕ) :
    wordAddrs addr (count + 1) = addr :: wordAddrs (addr + 8) count := by
  have first : addr + 8 * BitVec.ofNat 64 0 = addr := by simp
  have next (i : ℕ) : addr + 8 * BitVec.ofNat 64 (i + 1) = addr + 8 + 8 * BitVec.ofNat 64 i := by
    rw [Nat.add_comm i 1, ← BitVec.ofNat_add_ofNat, BitVec.mul_add, ← BitVec.add_assoc]
    rfl
  rw [wordAddrs, List.range_succ_eq_map, List.map_cons, List.map_map, first]
  exact congrArg _ (List.map_congr_left fun i _ => next i)

/-- What can be read at an address. -/
def wordAt (as : AddrSpace 64) (addr : Word 64) : Word 64 := (as.accessMem addr).toOption.getD 0

theorem holds_wordAt (as : AddrSpace 64) (addr : Word 64) : Holds as addr (wordAt as addr) := by
  intro word read
  rw [wordAt, read]
  rfl

theorem readDescriptors_needs {infoEnd : Word 64} {count : ℕ} {addr : Word 64}
    (isEnd : infoEnd = addr + 8 * BitVec.ofNat 64 count) (fits : addr.toNat + 8 * count < 2 ^ 64) :
    Needs call.as (wordAddrs addr count) (call.readDescriptors infoEnd count addr)
      ((wordAddrs addr count).map (wordAt call.as)) := by
  induction count generalizing addr with
  | zero =>
      have ended : ¬addr < infoEnd := by
        rw [isEnd]
        simp
      rw [readDescriptors, if_neg ended]
      exact .nothing rfl
  | succ count ih =>
      have more : addr < infoEnd := by
        rw [isEnd, BitVec.lt_def, BitVec.toNat_add, BitVec.toNat_mul, BitVec.toNat_ofNat]
        change addr.toNat < (addr.toNat + 8 * ((count + 1) % 2 ^ 64) % 2 ^ 64) % 2 ^ 64
        omega
      have addrs := wordAddrs_succ addr count
      have after : infoEnd = addr + 8 + 8 * BitVec.ofNat 64 count := by
        rw [isEnd, Nat.add_comm count 1, ← BitVec.ofNat_add_ofNat, BitVec.mul_add,
          ← BitVec.add_assoc]
        rfl
      have behind : (addr + 8).toNat + 8 * count < 2 ^ 64 := by
        rw [BitVec.toNat_add]
        change (addr.toNat + 8) % 2 ^ 64 + 8 * count < 2 ^ 64
        omega
      rw [readDescriptors, if_pos more, addrs, List.map_cons]
      exact .read (holds_wordAt _ _) ((ih after behind).map _)

/-- The descriptors are read from the start of the info to its end. -/
theorem readDescriptors_all (call : SearchCall) (e : TableEntry) (hdr : Word 64) :
    ∃ words, Needs call.as (call.descriptorAddrs e hdr)
      (call.readDescriptors (call.infoEnd e hdr) (unwLength hdr).toNat (call.infoAddr e)) words := by
  have isEnd : call.infoEnd e hdr =
      call.infoAddr e + 8 * BitVec.ofNat 64 (unwLength hdr).toNat := by
    rw [infoEnd, BitVec.ofNat_toNat, BitVec.setWidth_eq]
  have few : (unwLength hdr).toNat < 2 ^ 32 := by
    rw [unwLength, BitVec.toNat_and]
    exact Nat.lt_succ_of_le Nat.and_le_right
  rw [descriptorAddrs]
  by_cases more : call.infoAddr e < call.infoEnd e hdr
  · rw [if_pos more]
    refine ⟨_, readDescriptors_needs isEnd ?_⟩
    rw [isEnd, BitVec.lt_def, BitVec.toNat_add, BitVec.toNat_mul, BitVec.toNat_ofNat] at more
    change (call.infoAddr e).toNat <
      ((call.infoAddr e).toNat + 8 * ((unwLength hdr).toNat % 2 ^ 64) % 2 ^ 64) % 2 ^ 64 at more
    have := (call.infoAddr e).isLt
    omega
  · rw [if_neg more]
    refine ⟨[], .nothing ?_⟩
    cases (unwLength hdr).toNat <;> rw [readDescriptors, if_neg more] <;> rfl

/-- The copy succeeds where it can, and leaves the one block that it takes. -/
theorem unwindInfo_cases (call : SearchCall) (e : TableEntry) (hdr : Word 64) (pi : ProcInfo) :
    ∃ o, call.unwindInfo hdr (call.infoAddr e) (call.infoEnd e hdr) pi = .ok o ∧
      (((call.internalises = true ∧ ¬call.Copies e hdr) ∧
          (∃ code, o.ret = .error code) ∧ o.heap.cells = call.heap.cells) ∨
        ((call.internalises = true → call.Copies e hdr) ∧
          o.ret = .ok () ∧ (o.heap.cells = call.heap.cells ↔ call.internalises = false))) := by
  rw [unwindInfo]
  dsimp only
  by_cases copied : call.internalises = true
  · obtain ⟨needed, remote⟩ : call.needUnwindInfo = true ∧ call.isLocal = false := by
      simpa [internalises] using copied
    rw [needed, remote, copied, Bool.true_or, if_pos rfl, if_neg Bool.false_ne_true]
    by_cases granted : call.grants (8 * (unwLength hdr).toNat) = true
    · rw [if_pos granted]
      obtain ⟨words, needs⟩ := call.readDescriptors_all e hdr
      cases needs with
      | inl fails =>
          obtain ⟨⟨addr, member, fails⟩, code, failed⟩ := fails
          rw [failed]
          refine ⟨_, rfl, .inl ⟨⟨rfl, fun copies => copies.2 addr member fails⟩, ⟨code, rfl⟩, ?_⟩⟩
          rw [Pool.cells_giveBack, Pool.cells_take, Function.update_idem,
            ← call.heap.cells_fresh, Function.update_eq_self]
      | inr reads =>
          obtain ⟨all, read⟩ := reads
          rw [read]
          refine ⟨_, rfl, .inr ⟨fun _ => ⟨granted, all⟩, rfl, iff_of_false ?_ Bool.true_eq_false.mp⟩⟩
          intro same
          have here := congrFun same call.heap.fresh
          rw [Pool.cells_take, Function.update_self, call.heap.cells_fresh] at here
          exact nomatch here
    · rw [if_neg granted]
      exact ⟨_, rfl, .inl ⟨⟨rfl, fun copies => granted copies.1⟩, ⟨_, rfl⟩, rfl⟩⟩
  · have kept : call.internalises = false := Bool.eq_false_of_not_eq_true copied
    have clean (o : Outcome) (ret : o.ret = .ok ()) (heap : o.heap = call.heap) :
        (call.internalises = true → call.Copies e hdr) ∧ o.ret = .ok () ∧
          (o.heap.cells = call.heap.cells ↔ call.internalises = false) :=
      ⟨fun also => absurd also copied, ret, iff_of_true (by rw [heap]) kept⟩
    split_ifs with wanted isLocal granted
    · exact ⟨_, rfl, .inr (clean _ rfl rfl)⟩
    · simp [internalises, isLocal] at kept
      simp [kept, isLocal] at wanted
    · simp [internalises, isLocal] at kept
      simp [kept, isLocal] at wanted
    · exact ⟨_, rfl, .inr (clean _ rfl rfl)⟩

theorem isClean_of_error {o : Outcome} (ret : ∃ code, o.ret = .error code)
    (heap : o.heap.cells = call.heap.cells) : call.IsClean entries o :=
  ⟨fun _ _ _ => ret, fun _ => heap⟩

/-- An outcome without an error is clean where nothing that is needed fails. -/
theorem isClean_ok_iff {o : Outcome} (ret : o.ret = .ok ()) :
    call.IsClean entries o ↔ ∀ addr, call.Needed entries addr → ¬Fails call.as addr := by
  have noError : ¬∃ code, o.ret = .error code := by
    rintro ⟨code, isError⟩
    exact nomatch ret.symm.trans isError
  constructor
  · intro clean addr needed fails
    exact noError (clean.reports addr needed fails)
  · intro reads
    exact ⟨fun addr needed fails => absurd fails (reads addr needed), fun error => absurd error noError⟩

/-- The header and the entry of a search are the only ones. -/
theorem Header.eq {e : TableEntry} {hdr hdr' : Word 64} (header : call.Header e hdr)
    (also : call.Header e hdr') : hdr' = hdr :=
  Except.ok.inj (also.1.symm.trans header.1)

/-- What a search needs to read that has come to the flags of the header. -/
theorem needed_iff {e : TableEntry} {hdr : Word 64} (isEntry : call.entry entries = some e)
    (header : call.Header e hdr) {addr : Word 64} :
    call.Needed entries addr ↔ addr ∈ call.tableWords entries ∨ addr = call.hdrAddr e ∨
      (call.internalises = true ∧ addr ∈ call.descriptorAddrs e hdr) ∨
      (unwHasHandler hdr = true ∧ (addr = call.infoEnd e hdr ∨
        ∃ handlerOffset, call.as.accessMem (call.infoEnd e hdr) = .ok handlerOffset ∧
          addr = handlerOffset + call.di.gp)) := by
  constructor
  · intro needed
    cases needed with
    | table member => exact .inl member
    | header isEntry' =>
        obtain rfl := Option.some_inj.mp (isEntry.symm.trans isEntry')
        exact .inr (.inl rfl)
    | descriptor isEntry' header' copied member =>
        obtain rfl := Option.some_inj.mp (isEntry.symm.trans isEntry')
        obtain rfl := header.eq header'
        exact .inr (.inr (.inl ⟨copied, member⟩))
    | handlerOffset isEntry' header' flag =>
        obtain rfl := Option.some_inj.mp (isEntry.symm.trans isEntry')
        obtain rfl := header.eq header'
        exact .inr (.inr (.inr ⟨flag, .inl rfl⟩))
    | handler isEntry' header' flag read =>
        obtain rfl := Option.some_inj.mp (isEntry.symm.trans isEntry')
        obtain rfl := header.eq header'
        exact .inr (.inr (.inr ⟨flag, .inr ⟨_, read, rfl⟩⟩))
  · rintro (member | rfl | ⟨copied, member⟩ | ⟨flag, rfl | ⟨handlerOffset, read, rfl⟩⟩)
    · exact .table member
    · exact .header isEntry
    · exact .descriptor isEntry header copied member
    · exact .handlerOffset isEntry header flag
    · exact .handler isEntry header flag read

section Handler

variable {e : TableEntry} {hdr : Word 64} {o : Outcome} (isEntry : call.entry entries = some e)
  (header : call.Header e hdr) (tableRead : ∀ addr ∈ call.tableWords entries, ¬Fails call.as addr)
  (copies : call.internalises = true → call.Copies e hdr)

include isEntry header tableRead copies

/-- Once the descriptors are copied, only the personality routine is left to be read. -/
theorem reads_iff : (∀ addr, call.Needed entries addr → ¬Fails call.as addr) ↔
    (unwHasHandler hdr = true → ¬Fails call.as (call.infoEnd e hdr) ∧
      ∀ handlerOffset, call.as.accessMem (call.infoEnd e hdr) = .ok handlerOffset →
        ¬Fails call.as (handlerOffset + call.di.gp)) := by
  constructor
  · intro reads flag
    exact ⟨reads _ (.handlerOffset isEntry header flag),
      fun _ read => reads _ (.handler isEntry header flag read)⟩
  · intro reads addr needed
    rcases (needed_iff isEntry header).mp needed with
      member | rfl | ⟨copied, member⟩ | ⟨flag, rfl | ⟨handlerOffset, read, rfl⟩⟩
    · exact tableRead addr member
    · exact not_fails_of_read header.1
    · exact (copies copied).2 addr member
    · exact (reads flag).1
    · exact (reads flag).2 handlerOffset read

/-- The search, from the flags of the header on. -/
theorem readHandler_isClean_iff (ret : o.ret = .ok ())
    (heap : o.heap.cells = call.heap.cells ↔ call.internalises = false) :
    call.IsClean entries (call.readHandler hdr (call.infoEnd e hdr) o) ↔
      (unwHasHandler hdr = true →
        (Fails call.as (call.infoEnd e hdr) → call.internalises = false) ∧
          ∀ handlerOffset, call.as.accessMem (call.infoEnd e hdr) = .ok handlerOffset →
            ¬Fails call.as (handlerOffset + call.di.gp)) := by
  have reads := reads_iff isEntry header tableRead copies
  rw [readHandler]
  dsimp only
  by_cases flag : unwHasHandler hdr = true
  · rw [if_pos flag]
    simp only [flag, true_implies] at reads ⊢
    cases read : call.as.accessMem (call.infoEnd e hdr) with
    | error code =>
        have fails : Fails call.as (call.infoEnd e hdr) := ⟨code, read⟩
        have noOffset : ∀ handlerOffset, (Except.error code : Except UnwError (Word 64)) =
            .ok handlerOffset → ¬Fails call.as (handlerOffset + call.di.gp) := nofun
        dsimp only
        rw [← heap]
        exact ⟨fun clean => ⟨fun _ => clean.frees ⟨code, rfl⟩, noOffset⟩,
          fun condition => isClean_of_error ⟨code, rfl⟩ (condition.1 fails)⟩
    | ok handlerOffset =>
        have succeeds := not_fails_of_read read
        have condition : ((Fails call.as (call.infoEnd e hdr) → call.internalises = false) ∧
            ∀ handlerOffset', (Except.ok handlerOffset : Except UnwError (Word 64)) =
              .ok handlerOffset' → ¬Fails call.as (handlerOffset' + call.di.gp)) ↔
            ∀ addr, call.Needed entries addr → ¬Fails call.as addr := by
          rw [reads, read]
          exact and_congr_left' (iff_of_true (fun fails => absurd fails succeeds) succeeds)
        dsimp only
        rw [condition]
        cases call.as.accessMem (handlerOffset + call.di.gp) with
        | error code => exact isClean_ok_iff ret
        | ok handler => exact isClean_ok_iff ret
  · rw [if_neg flag]
    refine iff_of_true ((isClean_ok_iff ?_).mpr (reads.mpr ?_)) ?_
    · exact ret
    all_goals exact fun also => absurd also flag

end Handler

/-- The search, from the entry on. -/
theorem readProcInfo_isClean_iff {e : TableEntry} (isEntry : call.entry entries = some e)
    (tableRead : ∀ addr ∈ call.tableWords entries, ¬Fails call.as addr) (pi : ProcInfo) :
    ∃ o, call.readProcInfo e pi = .ok o ∧
      (call.IsClean entries o ↔ call.HandlerReadable entries) := by
  have eq {e' : TableEntry} (isEntry' : call.entry entries = some e') : e' = e :=
    Option.some_inj.mp (isEntry'.symm.trans isEntry)
  rw [readProcInfo]
  cases read : call.as.accessMem (call.hdrAddr e) with
  | error code =>
      refine ⟨_, rfl, iff_of_true (isClean_of_error ⟨code, rfl⟩ rfl) ?_⟩
      intro e' hdr isEntry' _ header
      obtain rfl := eq isEntry'
      exact nomatch read.symm.trans header.1
  | ok hdr =>
      dsimp only
      have same {hdr' : Word 64} (header : call.Header e hdr') : hdr' = hdr :=
        Except.ok.inj (header.1.symm.trans read)
      by_cases version : unwVer hdr = 1
      · have header : call.Header e hdr := ⟨read, version⟩
        rw [if_neg (not_not_intro version)]
        obtain ⟨o, copied, ending⟩ := call.unwindInfo_cases e hdr _
        rw [copied, ok_bind]
        rcases ending with ⟨⟨internalised, fails⟩, ⟨code, ret⟩, heap⟩ | ⟨copies, ret, heap⟩
        · rw [ret]
          refine ⟨o, rfl, iff_of_true (isClean_of_error ⟨code, ret⟩ heap) ?_⟩
          intro e' hdr' isEntry' _ header' _ copies
          obtain rfl := eq isEntry'
          obtain rfl := same header'
          exact absurd (copies internalised) fails
        · rw [ret]
          refine ⟨_, rfl, (readHandler_isClean_iff isEntry header tableRead copies ret heap).trans ?_⟩
          constructor
          · intro readable e' hdr' isEntry' _ header' flag _
            obtain rfl := eq isEntry'
            obtain rfl := same header'
            exact readable flag
          · intro readable flag
            exact readable e hdr isEntry tableRead header flag copies
      · rw [if_pos version]
        refine ⟨_, rfl, iff_of_true (isClean_of_error ⟨_, rfl⟩ rfl) ?_⟩
        intro e' hdr' isEntry' _ header'
        obtain rfl := eq isEntry'
        obtain rfl := same header'
        exact absurd header'.2 version

/-- With an empty table the search has nothing to test. -/
theorem not_failsCleanly_nil (hasTable : call.HasTable [])
    (covers : call.di.startIp ≤ call.ip ∧ call.ip < call.di.endIp) : ¬call.FailsCleanly [] := by
  have search : call.unwSearchIa64UnwindTable = _ := if_pos covers
  have undefined : call.findEntry = .error .undefined := by
    obtain ⟨length, isTable⟩ := hasTable
    rw [findEntry]
    cases data : call.di.tableData with
    | table own =>
        dsimp only
        rw [lookup, length]
        rfl
    | remoteTable table =>
        dsimp only
        rw [remoteLookup, length]
        rfl
  rw [undefined] at search
  rintro ⟨o, isOk, -⟩
  exact nomatch search.symm.trans isOk

/-- The search fails cleanly where the table has an entry and the personality routine is readable. -/
theorem failsCleanly_iff (hasTable : call.HasTable entries)
    (covers : call.di.startIp ≤ call.ip ∧ call.ip < call.di.endIp) :
    call.FailsCleanly entries ↔ entries ≠ [] ∧ call.HandlerReadable entries := by
  by_cases nonempty : entries = []
  · subst nonempty
    exact iff_of_false (not_failsCleanly_nil hasTable covers) fun both => both.1 rfl
  rw [and_iff_right nonempty]
  have clean_iff {o : Outcome} (same : call.unwSearchIa64UnwindTable = .ok o) :
      call.FailsCleanly entries ↔ call.IsClean entries o := by
    constructor
    · rintro ⟨o', same', clean⟩
      obtain rfl := Except.ok.inj (same.symm.trans same')
      exact clean
    · exact fun clean => ⟨o, same, clean⟩
  have search : call.unwSearchIa64UnwindTable = _ := if_pos covers
  dsimp only at search
  cases findEntry_needs hasTable nonempty with
  | inl fails =>
      obtain ⟨⟨addr, member, fails⟩, code, failed⟩ := fails
      rw [failed] at search
      refine (clean_iff search).trans (iff_of_true (isClean_of_error ⟨code, rfl⟩ rfl) ?_)
      exact fun _ _ _ reads => absurd fails (reads addr member)
  | inr found =>
      obtain ⟨tableRead, found⟩ := found
      rw [found] at search
      cases isEntry : call.entry entries with
      | none =>
          rw [isEntry] at search
          refine (clean_iff search).trans (iff_of_true ((isClean_ok_iff rfl).mpr ?_) ?_)
          · intro addr needed
            cases needed with
            | table member => exact tableRead addr member
            | _ isEntry' => exact nomatch isEntry.symm.trans isEntry'
          · exact fun _ _ isEntry' => nomatch isEntry.symm.trans isEntry'
      | some e =>
          rw [isEntry] at search
          obtain ⟨o, ran, isClean⟩ := readProcInfo_isClean_iff isEntry tableRead _
          exact (clean_iff (search.trans ran)).trans isClean

end SearchCall

/-- The searches of a table agree, and that for the unwind info of an address fails cleanly, exactly
    where the table has an entry and the personality routine that the search comes to is readable. -/
theorem unwSearchIa64UnwindTable_iff (call : SearchCall) (entries : List TableEntry)
    (hasTable : call.HasTable entries)
    (covers : call.di.startIp ≤ call.ip ∧ call.ip < call.di.endIp) :
    SearchesAgree entries ∧ call.FailsCleanly entries ↔
      entries ≠ [] ∧ call.HandlerReadable entries := by
  rw [searchesAgree_iff, SearchCall.failsCleanly_iff hasTable covers, ← and_assoc, and_self_iff]

/-- A search of a table with one entry, whose info has one word of descriptors and a personality
    routine. The memory cannot be read at `bad`. -/
def searchWithHandler (bad : Word 64) : SearchCall where
  as := {
    bigEndian := false
    readByte := fun _ => .ok 0
    accessMem := fun addr =>
      if addr = bad then .error .inval
      else if addr = 0x1000 then .ok 0x0001000100000001
      else if addr = 0x1010 then .ok 0x2000
      else .ok 0
    accessReg := fun _ => .ok 0
    accessFpreg := fun _ => .ok 0 }
  isLocal := false
  ip := 0x180
  di := {
    startIp := 0x100
    endIp := 0x300
    gp := 0
    segbase := 0
    tableLen := 3
    tableData := .table [⟨0x100, 0x200, 0x1000⟩] }
  pi := {}
  needUnwindInfo := true
  heap := Pool.empty
  grants := fun _ => true

/-- Where every read succeeds, the condition is met. -/
theorem unwSearchIa64UnwindTable_iff_readable :
    SearchesAgree [⟨0x100, 0x200, 0x1000⟩] ∧
        (searchWithHandler 0).FailsCleanly [⟨0x100, 0x200, 0x1000⟩] ↔
      [(⟨0x100, 0x200, 0x1000⟩ : TableEntry)] ≠ [] ∧
        (searchWithHandler 0).HandlerReadable [⟨0x100, 0x200, 0x1000⟩] :=
  unwSearchIa64UnwindTable_iff (searchWithHandler 0) [⟨0x100, 0x200, 0x1000⟩] ⟨by decide, rfl⟩
    (by decide)

/-- A table without entries is searched beyond its end. A search that cannot read the offset of the
    personality routine keeps its block, and one that cannot read the routine succeeds. -/
theorem unwSearchIa64UnwindTable_unclean :
    ¬SearchesAgree [] ∧
      ¬(searchWithHandler 0x1010).FailsCleanly [⟨0x100, 0x200, 0x1000⟩] ∧
      ¬(searchWithHandler 0x2000).FailsCleanly [⟨0x100, 0x200, 0x1000⟩] := by
  refine ⟨fun agree => searchesAgree_iff.mp agree rfl, ?_, ?_⟩
  · rintro ⟨o, ran, clean⟩
    obtain rfl := Except.ok.inj ran
    have kept := congrFun (clean.frees ⟨.inval, rfl⟩) 1
    exact nomatch kept
  · rintro ⟨o, ran, clean⟩
    obtain rfl := Except.ok.inj ran
    have header : (searchWithHandler 0x2000).Header ⟨0x100, 0x200, 0x1000⟩ 0x0001000100000001 :=
      ⟨rfl, rfl⟩
    have offset : (searchWithHandler 0x2000).as.accessMem
        ((searchWithHandler 0x2000).infoEnd ⟨0x100, 0x200, 0x1000⟩ 0x0001000100000001) =
          .ok 0x2000 := rfl
    obtain ⟨code, isError⟩ := clean.reports 0x2000 (.handler rfl header rfl offset) ⟨.inval, rfl⟩
    exact nomatch isError

end Libunwind.Ia64
