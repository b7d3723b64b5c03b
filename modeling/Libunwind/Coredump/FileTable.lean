import Libunwind.Library.Run
import Libunwind.Coredump.AccessMem

/-! # The table of backing files

`ucd_file_table_insert` looks a path up in the table, and adds an entry for it where there is none.
The callers keep indices. What a failed allocation leaves of the table is told apart from what a
call should leave.
-/

namespace Libunwind.Coredump

/-- A C string. -/
abbrev Path := List Byte

/-- `ucd_file_t`; the name is `none` while it is `NULL`, or was not written yet. -/
structure FileEntry extends UcdFile where
  filename : Option Path
  fd : Int

/-- An element of the storage that was not initialized. -/
def FileEntry.blank : FileEntry where
  size := 0
  mapped := false
  filename := none
  fd := 0

/-- `ucd_file_table_t`; the storage is `none` while it is `NULL`. -/
structure UcdFileTable where
  uftCount : Nat
  uftSize : Nat
  uftFiles : Option (List FileEntry)

/-- `UNW_ENOMEM`, negated. -/
def enomem : Int := -2

/-- A `size_t` as an `int`. -/
def toInt (n : Nat) : Int := (BitVec.ofNat 32 n).toInt

/-- `ucd_file_init`, for an entry; `copied` tells whether there is memory for the name. -/
def ucdFileInit (file : FileEntry) (filename : Path) (copied : Bool) : Int × FileEntry :=
  if copied then (0, { filename := some filename, fd := -1, size := 0, mapped := false })
  else (enomem, { file with filename := none })

/-- What `open`, `fstat` and `mmap` give. -/
structure OpenOutcome where
  fd : Option Nat
  stSize : Option (Word 64)
  mapped : Bool

/-- `_ucd_file_open` -/
def ucdFileOpen (file : FileEntry) (outcome : OpenOutcome) : FileEntry :=
  match outcome.fd with
  | none => { file with fd := -1 }
  | some fd =>
      match outcome.stSize with
      | none => { file with fd := -1, size := 0 }
      | some size => { file with fd, size }

/-- `ucd_file_map` -/
def ucdFileMap (file : FileEntry) (outcome : OpenOutcome) : FileEntry :=
  if file.mapped then file
  else
    let file := if file.fd = -1 then ucdFileOpen file outcome else file
    if file.fd = -1 then file else { file with mapped := outcome.mapped }

/-- `ucd_file_table_init` -/
def ucdFileTableInit (granted : Bool) : Int × UcdFileTable :=
  if granted then (0, ⟨0, 2, some (List.replicate 2 .blank)⟩) else (enomem, ⟨0, 2, none⟩)

/-- Which of the allocations of a call succeed. -/
structure Grants where
  storage : Bool
  name : Bool
  deriving DecidableEq

namespace UcdFileTable

variable (table : UcdFileTable)

/-- The loop that looks for a path, with so many entries left to compare. -/
def findPath (filename : Path) : Nat → Nat → Result (Option Nat)
  | 0, _ => pure none
  | left + 1, i =>
      match table.uftFiles.bind (·[i]?) with
      | none => .error .undefined
      | some file =>
          match file.filename with
          | none => .error .undefined
          | some name => if name = filename then pure (some i) else findPath filename left (i + 1)

/-- The storage, with room for another entry. -/
def grow (granted : Bool) : Option UcdFileTable :=
  if table.uftSize ≤ table.uftCount then
    let newSize := table.uftSize * 2
    if granted then
      let kept := (table.uftFiles.getD []).take newSize
      some { table with
        uftFiles := some (kept ++ List.replicate (newSize - kept.length) .blank)
        uftSize := newSize }
    else none
  else some table

/-- `ucd_file_table_insert` -/
def insert (filename : Path) (grants : Grants) : Result (Int × UcdFileTable) := do
  match ← table.findPath filename (toInt table.uftCount).toNat 0 with
  | some i => pure (i, table)
  | none =>
      let index := toInt table.uftCount
      let table := { table with uftCount := table.uftCount + 1 }
      match table.grow grants.storage with
      | none => pure (enomem, { table with uftFiles := none })
      | some table =>
          match table.uftFiles with
          | none => .error .undefined
          | some files =>
              match if 0 ≤ index then files[index.toNat]? else none with
              | none => .error .undefined
              | some file =>
                  let (err, file) := ucdFileInit file filename grants.name
                  let table := { table with uftFiles := some (files.set index.toNat file) }
                  pure (if err ≠ 0 then err else index, table)

/-- `ucd_file_table_at`, and what is there. -/
def fileAt (index : Int) : Option FileEntry :=
  if 0 ≤ index ∧ index < toInt table.uftCount then table.uftFiles.bind (·[index.toNat]?) else none

/-- `ucd_file_table_at`, and `ucd_file_map` on what it gives. -/
def mapAt (index : Int) (outcome : OpenOutcome) : Result UcdFileTable :=
  if 0 ≤ index ∧ index < toInt table.uftCount then
    match table.uftFiles with
    | none => .error .undefined
    | some files =>
        if index.toNat < files.length then
          pure { table with
            uftFiles := some (files.modify index.toNat fun file => ucdFileMap file outcome) }
        else .error .undefined
  else pure table

end UcdFileTable

/-! ## What the table should be -/

/-- The table, and what the calls so far returned an index for. -/
structure TableUse where
  table : UcdFileTable
  returned : List (Path × Int)

/-- What is done with a table. -/
inductive TableEvent where
  | insert (filename : Path) (grants : Grants)
  | map (index : Int) (outcome : OpenOutcome)

namespace TableUse

/-- A table was set up. -/
def Start (use : TableUse) : Prop := ucdFileTableInit true = (0, use.table) ∧ use.returned = []

/-- What is remembered of a call. -/
def afterInsert (use : TableUse) (filename : Path) (ret : Int) (table : UcdFileTable) : TableUse where
  table
  returned := if 0 ≤ ret then (filename, ret) :: use.returned else use.returned

inductive Step : TableUse → TableEvent → TableUse → Prop where
  | insert {use : TableUse} {filename : Path} {grants : Grants} {ret : Int} {table : UcdFileTable} :
      use.table.insert filename grants = .ok (ret, table) →
      Step use (.insert filename grants) (use.afterInsert filename ret table)
  | map {use : TableUse} {index : Int} {outcome : OpenOutcome} {table : UcdFileTable} :
      use.table.mapAt index outcome = .ok table →
      Step use (.map index outcome) { use with table }

/-- The entry for an index has this name. -/
def Denotes (table : UcdFileTable) (index : Int) (filename : Path) : Prop :=
  ∃ file, table.fileAt index = some file ∧ file.filename = some filename

/-- The table is a set of paths, and the indices stay what they were. -/
structure Stable (use : TableUse) : Prop where
  distinct : ∀ i j filename, Denotes use.table i filename → Denotes use.table j filename → i = j
  denotes : ∀ known ∈ use.returned, Denotes use.table known.2 known.1
  initialized : ∀ i < use.table.uftCount, ∃ filename, Denotes use.table i filename

/-- A call returns, and either fails and changes nothing, or returns an index for the path. -/
def InsertsRight (use : TableUse) (filename : Path) (grants : Grants) : Prop :=
  ∃ ret table, use.table.insert filename grants = .ok (ret, table) ∧
    (ret < 0 → table = use.table) ∧ (use.afterInsert filename ret table).Stable

/-- The path is in the table, or there is memory for its entry and for the name, and the count
    stays an `int`. -/
def HasRoom (table : UcdFileTable) (filename : Path) (grants : Grants) : Prop :=
  (∃ i, Denotes table i filename) ∨
    (table.uftCount + 1 < 2 ^ 31 ∧ (table.uftSize ≤ table.uftCount + 1 → grants.storage = true) ∧
      grants.name = true)

/-- No allocation fails. -/
def Allowed (use : TableUse) : TableEvent → Prop
  | .insert filename grants => HasRoom use.table filename grants
  | .map _ _ => True

end TableUse

/-! ## The names in the table -/

/-- The table has these names, in this order. -/
structure HasNames (table : UcdFileTable) (names : List Path) : Prop where
  count : table.uftCount = names.length
  small : names.length < 2 ^ 31
  room : names.length < table.uftSize
  nodup : names.Nodup
  stored : ∃ files, table.uftFiles = some files ∧ files.length = table.uftSize ∧
    ∀ (i : Nat) (name : Path), names[i]? = some name →
      ∃ file, files[i]? = some file ∧ file.filename = some name

section Names

open TableUse

variable {table : UcdFileTable} {names : List Path} {filename : Path} {grants : Grants}

theorem toInt_of_small {n : Nat} (small : n < 2 ^ 31) : toInt n = n := by
  rw [toInt, BitVec.toInt_eq_toNat_of_lt (by rw [BitVec.toNat_ofNat]; omega), BitVec.toNat_ofNat]
  omega

theorem HasNames.toInt_count (has : HasNames table names) :
    toInt table.uftCount = names.length := by
  rw [has.count]
  exact toInt_of_small has.small

/-- An index denotes a path exactly where the path is at that place. -/
theorem HasNames.denotes_iff (has : HasNames table names) (index : Int) :
    Denotes table index filename ↔ 0 ≤ index ∧ names[index.toNat]? = some filename := by
  obtain ⟨files, atFiles, length, named⟩ := has.stored
  constructor
  · intro denotes
    obtain ⟨file, at', isName⟩ := denotes
    rw [UcdFileTable.fileAt, has.toInt_count] at at'
    split at at'
    case isFalse => cases at'
    case isTrue inside =>
      refine ⟨inside.1, ?_⟩
      have bound : index.toNat < names.length := by omega
      obtain ⟨file', at'', isName'⟩ := named _ _ (List.getElem?_eq_getElem bound)
      rw [atFiles, Option.bind_some] at at'
      cases at'.symm.trans at''
      rw [List.getElem?_eq_getElem bound, ← isName', isName]
  · intro both
    obtain ⟨nonneg, at'⟩ := both
    obtain ⟨file, found, isName⟩ := named _ _ at'
    have bound : index.toNat < names.length := (List.getElem?_eq_some_iff.mp at').1
    refine ⟨file, ?_, isName⟩
    rw [UcdFileTable.fileAt, has.toInt_count, if_pos ⟨nonneg, by omega⟩, atFiles, Option.bind_some,
      found]

theorem HasNames.findPath_none (has : HasNames table names) (absent : filename ∉ names) :
    ∀ left i, left + i = names.length → table.findPath filename left i = .ok none := by
  obtain ⟨files, atFiles, -, named⟩ := has.stored
  intro left
  induction left with
  | zero => exact fun i _ => rfl
  | succ left ih =>
      intro i total
      have bound : i < names.length := by omega
      obtain ⟨file, found, isName⟩ := named _ _ (List.getElem?_eq_getElem bound)
      have other : names[i] ≠ filename := fun same => absent (same ▸ List.getElem_mem bound)
      rw [UcdFileTable.findPath, atFiles, Option.bind_some, found]
      simp only [isName, if_neg other]
      exact ih (i + 1) (by omega)

theorem HasNames.findPath_some (has : HasNames table names) {k : Nat}
    (at' : names[k]? = some filename) :
    ∀ left i, left + i = names.length → i ≤ k → table.findPath filename left i = .ok (some k) := by
  obtain ⟨files, atFiles, -, named⟩ := has.stored
  obtain ⟨inside, here⟩ := List.getElem?_eq_some_iff.mp at'
  intro left
  induction left with
  | zero =>
      intro i total before
      omega
  | succ left ih =>
      intro i total before
      have bound : i < names.length := by omega
      obtain ⟨file, found, isName⟩ := named _ _ (List.getElem?_eq_getElem bound)
      rw [UcdFileTable.findPath, atFiles, Option.bind_some, found]
      by_cases same : names[i] = filename
      · -- no path is there twice
        have atIt : i = k := (List.Nodup.getElem_inj_iff has.nodup).mp (same.trans here.symm)
        simp only [isName, if_pos same]
        rw [atIt]
        rfl
      · have further : i ≠ k := by
          intro atIt
          subst atIt
          exact same here
        simp only [isName, if_neg same]
        exact ih (i + 1) (by omega) (by omega)

/-- What is in the table already is found again. -/
theorem HasNames.insert_present (has : HasNames table names) {k : Nat}
    (at' : names[k]? = some filename) (grants : Grants) :
    table.insert filename grants = .ok ((k : Int), table) := by
  have found : table.findPath filename (toInt table.uftCount).toNat 0 = .ok (some k) := by
    rw [has.toInt_count, Int.toNat_natCast]
    exact has.findPath_some at' _ 0 rfl (Nat.zero_le k)
  rw [UcdFileTable.insert, found]
  rfl

/-- A table with room for one more entry, behind those that it had. -/
structure Extended (table : UcdFileTable) (files : List FileEntry) (table' : UcdFileTable)
    (files' : List FileEntry) : Prop where
  count : table'.uftCount = table.uftCount + 1
  room : table.uftCount + 1 < table'.uftSize
  stored : table'.uftFiles = some files'
  length : files'.length = table'.uftSize
  same : ∀ i < table.uftCount, files'[i]? = files[i]?

theorem HasNames.grow (has : HasNames table names) {files : List FileEntry}
    (atFiles : table.uftFiles = some files) (length : files.length = table.uftSize) {granted : Bool}
    (memory : table.uftSize ≤ table.uftCount + 1 → granted = true) :
    ∃ table' files', { table with uftCount := table.uftCount + 1 }.grow granted = some table' ∧
      Extended table files table' files' := by
  have room := has.room
  have count := has.count
  by_cases full : table.uftSize ≤ table.uftCount + 1
  · refine ⟨_, _, by rw [UcdFileTable.grow, if_pos full, if_pos (memory full)],
      rfl, ?_, rfl, ?_, ?_⟩
    · change table.uftCount + 1 < table.uftSize * 2
      omega
    · simp only [atFiles, Option.getD_some, List.length_append, List.length_take,
        List.length_replicate]
      omega
    · intro i below
      simp only [atFiles, Option.getD_some]
      rw [List.getElem?_append_left (by rw [List.length_take]; omega),
        List.getElem?_take_of_lt (by omega)]
  · have stays : { table with uftCount := table.uftCount + 1 }.grow granted =
        some { table with uftCount := table.uftCount + 1 } := by
      rw [UcdFileTable.grow, if_neg full]
    exact ⟨_, files, stays, rfl, Nat.lt_of_not_le full, atFiles, length, fun _ _ => rfl⟩

/-- What a call does for a new path where there is room in the storage. -/
theorem HasNames.insert_absent (has : HasNames table names) (grants : Grants)
    (absent : filename ∉ names)
    {files : List FileEntry} (atFiles : table.uftFiles = some files)
    (length : files.length = table.uftSize)
    (memory : table.uftSize ≤ table.uftCount + 1 → grants.storage = true) :
    ∃ grown files' file, Extended table files grown files' ∧ files'[names.length]? = some file ∧
      table.insert filename grants =
        .ok (if grants.name then names.length else enomem, { grown with
          uftFiles := some (files'.set names.length (ucdFileInit file filename grants.name).2) }) := by
  obtain ⟨grown, files', grows, extended⟩ := has.grow atFiles length memory
  have inside : names.length < files'.length := by
    have room := extended.room
    have count := has.count
    rw [extended.length]
    omega
  have here := List.getElem?_eq_getElem inside
  refine ⟨grown, files', _, extended, here, ?_⟩
  have found : table.findPath filename (toInt table.uftCount).toNat 0 = .ok none := by
    rw [has.toInt_count, Int.toNat_natCast]
    exact has.findPath_none absent _ 0 rfl
  rw [UcdFileTable.insert, found]
  simp only [ok_bind, grows, extended.stored, has.toInt_count, Int.natCast_nonneg, if_true,
    Int.toNat_natCast, here]
  cases grants.name with
  | true => rfl
  | false => rfl

/-- A new path comes behind the others where there is memory for it. -/
theorem HasNames.insert_new (has : HasNames table names) (absent : filename ∉ names)
    (small : table.uftCount + 1 < 2 ^ 31)
    (memory : table.uftSize ≤ table.uftCount + 1 → grants.storage = true)
    (copied : grants.name = true) :
    ∃ table', table.insert filename grants = .ok ((names.length : Int), table') ∧
      HasNames table' (names ++ [filename]) := by
  obtain ⟨files, atFiles, length, named⟩ := has.stored
  obtain ⟨grown, files', file, extended, here, inserted⟩ :=
    has.insert_absent grants absent atFiles length memory
  have room := extended.room
  have count := has.count
  rw [copied, if_pos rfl] at inserted
  have nodup : (names ++ [filename]).Nodup := by
    rw [← List.concat_eq_append]
    exact has.nodup.concat absent
  refine ⟨_, inserted, ?_, ?_, ?_, nodup, _, rfl, ?_, ?_⟩
  · rw [List.length_append, ← count]
    exact extended.count
  · rw [List.length_append, List.length_singleton]
    omega
  · rw [List.length_append, List.length_singleton]
    exact count ▸ room
  · rw [List.length_set]
    exact extended.length
  · intro i name at'
    by_cases new : i = names.length
    · subst new
      rw [List.getElem?_append_right (Nat.le_refl _), Nat.sub_self] at at'
      cases at'
      exact ⟨_, List.getElem?_set_self (List.getElem?_eq_some_iff.mp here).1, rfl⟩
    · have old : i < names.length := by
        have bound := (List.getElem?_eq_some_iff.mp at').1
        rw [List.length_append, List.length_singleton] at bound
        omega
      rw [List.getElem?_append_left old] at at'
      rw [List.getElem?_set_ne (Ne.symm new), extended.same i (by omega)]
      exact named i name at'

/-- Without memory for a new path, the count is one too large then. -/
theorem HasNames.insert_refused (has : HasNames table names) (absent : filename ∉ names)
    (refused : ¬((table.uftSize ≤ table.uftCount + 1 → grants.storage = true) ∧
      grants.name = true)) :
    ∃ table', table.insert filename grants = .ok (enomem, table') ∧
      table'.uftCount = table.uftCount + 1 := by
  obtain ⟨files, atFiles, length, -⟩ := has.stored
  by_cases memory : table.uftSize ≤ table.uftCount + 1 → grants.storage = true
  · obtain ⟨grown, files', file, extended, here, inserted⟩ :=
      has.insert_absent grants absent atFiles length memory
    have noName : ¬grants.name = true := fun copied => refused ⟨memory, copied⟩
    rw [if_neg noName] at inserted
    exact ⟨_, inserted, extended.count⟩
  · obtain ⟨full, noStorage⟩ := Classical.not_imp.mp memory
    have found : table.findPath filename (toInt table.uftCount).toNat 0 = .ok none := by
      rw [has.toInt_count, Int.toNat_natCast]
      exact has.findPath_none absent _ 0 rfl
    have refuses : { table with uftCount := table.uftCount + 1 }.grow grants.storage = none := by
      rw [UcdFileTable.grow, if_pos full, if_neg noStorage]
    refine ⟨{ table with uftCount := table.uftCount + 1, uftFiles := none }, ?_, rfl⟩
    rw [UcdFileTable.insert, found]
    simp only [ok_bind, refuses]
    rfl

/-- The entry that makes the count leave the range of an `int`. -/
theorem HasNames.insert_last (has : HasNames table names) (absent : filename ∉ names)
    (memory : table.uftSize ≤ table.uftCount + 1 → grants.storage = true)
    (copied : grants.name = true) :
    ∃ table', table.insert filename grants = .ok ((names.length : Int), table') ∧
      table'.uftCount = table.uftCount + 1 := by
  obtain ⟨files, atFiles, length, -⟩ := has.stored
  obtain ⟨grown, files', file, extended, here, inserted⟩ :=
    has.insert_absent grants absent atFiles length memory
  rw [copied, if_pos rfl] at inserted
  exact ⟨_, inserted, extended.count⟩

/-- Opening or mapping a file changes no name. -/
theorem ucdFileMap_filename (file : FileEntry) (outcome : OpenOutcome) :
    (ucdFileMap file outcome).filename = file.filename := by
  have opened : (ucdFileOpen file outcome).filename = file.filename := by
    unfold ucdFileOpen
    split
    · rfl
    · split
      · rfl
      · rfl
  unfold ucdFileMap
  grind

theorem HasNames.mapAt (has : HasNames table names) (index : Int) (outcome : OpenOutcome) :
    ∃ table', table.mapAt index outcome = .ok table' ∧ HasNames table' names := by
  obtain ⟨files, atFiles, length, named⟩ := has.stored
  have room := has.room
  by_cases inside : 0 ≤ index ∧ index < toInt table.uftCount
  · have bound : index.toNat < files.length := by
      have count := has.toInt_count
      omega
    have mapped : table.mapAt index outcome = .ok { table with
        uftFiles := some (files.modify index.toNat fun file => ucdFileMap file outcome) } := by
      rw [UcdFileTable.mapAt, if_pos inside, atFiles]
      exact if_pos bound
    refine ⟨_, mapped, has.count, has.small, has.room, has.nodup, _, rfl, ?_, ?_⟩
    · rw [List.length_modify]
      exact length
    · intro i name at'
      obtain ⟨file, found, isName⟩ := named i name at'
      rw [List.getElem?_modify, found]
      by_cases here : index.toNat = i
      · exact ⟨_, by simp only [if_pos here]; rfl, (ucdFileMap_filename file outcome).trans isName⟩
      · exact ⟨_, by simp only [if_neg here]; rfl, isName⟩
  · refine ⟨table, ?_, has⟩
    rw [UcdFileTable.mapAt, if_neg inside]
    rfl

end Names

/-! ## Whatever the allocations give -/

namespace UcdFileTable

/-- The storage is as large as the table says. -/
def Sized (table : UcdFileTable) : Prop :=
  ∀ files, table.uftFiles = some files → files.length = table.uftSize

/-- The entry at a place has this name, if there is storage still. -/
def Names (table : UcdFileTable) (i : Nat) (filename : Path) : Prop :=
  i < table.uftCount ∧ ∀ files, table.uftFiles = some files →
    ∃ file, files[i]? = some file ∧ file.filename = some filename

variable {table : UcdFileTable} {filename : Path}

theorem findPath_found {left i k : Nat} (found : table.findPath filename left i = .ok (some k)) :
    k < left + i ∧ ∃ files file, table.uftFiles = some files ∧ files[k]? = some file ∧
      file.filename = some filename := by
  induction left generalizing i with
  | zero => cases found
  | succ left ih =>
      rw [findPath] at found
      split at found
      · cases found
      · next file at' =>
        split at found
        · cases found
        · next name isName =>
          by_cases same : name = filename
          · rw [if_pos same] at found
            cases found
            obtain ⟨files, atFiles, here⟩ := Option.bind_eq_some_iff.mp at'
            exact ⟨by omega, files, file, atFiles, here, same ▸ isName⟩
          · rw [if_neg same] at found
            obtain ⟨below, rest⟩ := ih found
            exact ⟨by omega, rest⟩

theorem grow_sized {t grown : UcdFileTable} {granted : Bool} (sized : t.Sized)
    (grows : t.grow granted = some grown) :
    grown.Sized ∧ grown.uftCount = t.uftCount ∧
      ∀ files, t.uftFiles = some files → ∃ files', grown.uftFiles = some files' ∧
        ∀ i < files.length, files'[i]? = files[i]? := by
  unfold grow at grows
  by_cases full : t.uftSize ≤ t.uftCount
  · simp only [if_pos full] at grows
    cases granted with
    | false => cases grows
    | true =>
        cases grows
        refine ⟨?_, rfl, ?_⟩
        · intro files same
          cases same
          rw [List.length_append, List.length_replicate, List.length_take]
          change _ = t.uftSize * 2
          omega
        · intro files atFiles
          have length := sized files atFiles
          refine ⟨_, rfl, fun i inside => ?_⟩
          simp only [atFiles, Option.getD_some]
          rw [List.getElem?_append_left (by rw [List.length_take]; omega),
            List.getElem?_take_of_lt (by omega)]
  · rw [if_neg full] at grows
    cases grows
    exact ⟨sized, rfl, fun files atFiles => ⟨files, atFiles, fun _ _ => rfl⟩⟩

/-- What a call has done that did not find the path. -/
theorem insert_searched {grants : Grants} {ret : Int} {table' : UcdFileTable}
    (small : table.uftCount < 2 ^ 31) (searched : table.findPath filename table.uftCount 0 = .ok none)
    (inserted : table.insert filename grants = .ok (ret, table')) :
    (ret = enomem ∧ table' = { table with uftCount := table.uftCount + 1, uftFiles := none }) ∨
      ∃ grown files file, { table with uftCount := table.uftCount + 1 }.grow grants.storage =
          some grown ∧ grown.uftFiles = some files ∧ files[table.uftCount]? = some file ∧
        ret = (if grants.name then (table.uftCount : Int) else enomem) ∧
        table' = { grown with
          uftFiles := some (files.set table.uftCount (ucdFileInit file filename grants.name).2) } := by
  have count := toInt_of_small small
  rw [insert, count, Int.toNat_natCast, searched] at inserted
  simp only [ok_bind] at inserted
  cases grows : { table with uftCount := table.uftCount + 1 }.grow grants.storage with
  | none =>
      rw [grows] at inserted
      cases inserted
      exact Or.inl ⟨rfl, rfl⟩
  | some grown =>
      rw [grows] at inserted
      cases atFiles : grown.uftFiles with
      | none =>
          simp only [atFiles] at inserted
          cases inserted
      | some files =>
          simp only [atFiles, Int.natCast_nonneg, if_true, Int.toNat_natCast] at inserted
          cases here : files[table.uftCount]? with
          | none =>
              rw [here] at inserted
              cases inserted
          | some file =>
              rw [here] at inserted
              refine Or.inr ⟨grown, files, file, rfl, atFiles, here, ?_⟩
              cases copied : grants.name with
              | true =>
                  rw [copied] at inserted
                  cases inserted
                  exact ⟨rfl, rfl⟩
              | false =>
                  rw [copied] at inserted
                  cases inserted
                  exact ⟨rfl, rfl⟩

/-- A call that comes back leaves the names that were there, and its index denotes the path. -/
theorem insert_names {grants : Grants} {ret : Int} {table' : UcdFileTable} (sized : table.Sized)
    (small : table.uftCount < 2 ^ 31) (inserted : table.insert filename grants = .ok (ret, table')) :
    table'.Sized ∧ table'.uftCount ≤ table.uftCount + 1 ∧
      (0 ≤ ret → table'.Names ret.toNat filename) ∧
        ∀ i name, table.Names i name → table'.Names i name := by
  have call := inserted
  rw [insert] at call
  obtain ⟨found, searched, call⟩ := bind_eq_ok.mp call
  rw [toInt_of_small small, Int.toNat_natCast] at searched
  cases found with
  | some k =>
      cases call
      obtain ⟨below, files, file, atFiles, at', isName⟩ := findPath_found searched
      refine ⟨sized, by omega, fun _ => ⟨by simpa using below, fun files' same => ?_⟩,
        fun _ _ names => names⟩
      cases atFiles.symm.trans same
      exact ⟨file, at', isName⟩
  | none =>
      clear call
      cases insert_searched small searched inserted with
      | inl refused =>
          obtain ⟨rfl, rfl⟩ := refused
          refine ⟨?_, Nat.le_refl _, fun nonneg => absurd nonneg (by decide), fun i name names => ?_⟩
          · intro files none
            cases none
          · refine ⟨Nat.lt_succ_of_lt names.1, fun files none => ?_⟩
            cases none
      | inr added =>
          obtain ⟨grown, files, file, grows, atFiles, here, rfl, rfl⟩ := added
          obtain ⟨sized', counted, kept⟩ := grow_sized
            (t := { table with uftCount := table.uftCount + 1 }) sized grows
          change grown.uftCount = table.uftCount + 1 at counted
          refine ⟨?_, Nat.le_of_eq counted, ?_, ?_⟩
          · intro files' same
            cases same
            rw [List.length_set]
            exact sized' files atFiles
          · intro nonneg
            cases copied : grants.name with
            | false =>
                simp only [copied, Bool.false_eq_true, if_false] at nonneg
                exact absurd nonneg (by decide)
            | true =>
                simp only [if_true, Int.toNat_natCast]
                refine ⟨?_, fun files' same => ?_⟩
                · change table.uftCount < grown.uftCount
                  omega
                · cases same
                  exact ⟨_, List.getElem?_set_self (List.getElem?_eq_some_iff.mp here).1, rfl⟩
          · intro i name names
            have below := names.1
            refine ⟨?_, fun files' same => ?_⟩
            · change i < grown.uftCount
              omega
            · cases same
              cases stored : table.uftFiles with
              | none =>
                  -- without storage the first entry cannot be compared
                  obtain ⟨left, some⟩ := Nat.exists_eq_add_of_lt below
                  rw [some, findPath, stored] at searched
                  cases searched
              | some files' =>
                  obtain ⟨entry, at', isName⟩ := names.2 files' stored
                  obtain ⟨files'', same, keeps⟩ := kept files' stored
                  cases atFiles.symm.trans same
                  refine ⟨entry, ?_, isName⟩
                  rw [List.getElem?_set_ne (Nat.ne_of_gt below),
                    keeps i (List.getElem?_eq_some_iff.mp at').1, at']

theorem mapAt_names {index : Int} {outcome : OpenOutcome} {table' : UcdFileTable}
    (mapped : table.mapAt index outcome = .ok table') {i : Nat} {name : Path}
    (names : table.Names i name) : table'.Names i name := by
  unfold mapAt at mapped
  split at mapped
  · split at mapped
    · cases mapped
    · next files atFiles =>
      split at mapped
      · cases mapped
        refine ⟨names.1, fun files' same => ?_⟩
        cases same
        obtain ⟨file, at', isName⟩ := names.2 files atFiles
        rw [List.getElem?_modify, at']
        by_cases here : index.toNat = i
        · exact ⟨_, by simp only [if_pos here]; rfl, (ucdFileMap_filename file outcome).trans isName⟩
        · exact ⟨_, by simp only [if_neg here]; rfl, isName⟩
      · cases mapped
  · cases mapped
    exact names

end UcdFileTable

/-! ## Runs -/

namespace TableUse

variable {use : TableUse}

/-- The table has names, and every index that was returned is the place of its path. -/
def Keeps (use : TableUse) : Prop :=
  ∃ names, HasNames use.table names ∧
    ∀ known ∈ use.returned, 0 ≤ known.2 ∧ names[known.2.toNat]? = some known.1

theorem Keeps.stable (keeps : use.Keeps) : use.Stable := by
  obtain ⟨names, has, known⟩ := keeps
  refine ⟨?_, fun pair mem => (has.denotes_iff _).mpr (known pair mem), ?_⟩
  · intro i j filename first second
    obtain ⟨nonneg, at'⟩ := (has.denotes_iff i).mp first
    obtain ⟨nonneg', at''⟩ := (has.denotes_iff j).mp second
    obtain ⟨bound, -⟩ := List.getElem?_eq_some_iff.mp at'
    have same : i.toNat = j.toNat := (List.getElem?_inj bound has.nodup).mp (at'.trans at''.symm)
    omega
  · intro i below
    rw [has.count] at below
    refine ⟨names[i], (has.denotes_iff i).mpr ⟨Int.natCast_nonneg i, ?_⟩⟩
    rw [Int.toNat_natCast]
    exact List.getElem?_eq_getElem below

theorem Start.keeps (start : use.Start) : use.Keeps := by
  obtain ⟨init, none⟩ := start
  refine ⟨[], ?_, by simp [none]⟩
  have table : use.table = ⟨0, 2, some (List.replicate 2 .blank)⟩ := (Prod.ext_iff.mp init).2.symm
  rw [table]
  exact ⟨rfl, by decide, by decide, List.nodup_nil, _, rfl, rfl, by simp⟩

/-- With room for the path, a call returns an index that is its place. -/
theorem Keeps.insert (keeps : use.Keeps) {filename : Path} {grants : Grants}
    (room : HasRoom use.table filename grants) :
    ∃ ret table, use.table.insert filename grants = .ok (ret, table) ∧ 0 ≤ ret ∧
      (use.afterInsert filename ret table).Keeps := by
  obtain ⟨names, has, known⟩ := keeps
  by_cases present : filename ∈ names
  · obtain ⟨k, at'⟩ := List.getElem?_of_mem present
    refine ⟨_, _, has.insert_present at' grants, Int.natCast_nonneg k, names, has, ?_⟩
    simp only [afterInsert, Int.natCast_nonneg, if_true, List.forall_mem_cons]
    exact ⟨⟨trivial, by simpa using at'⟩, known⟩
  · cases room with
    | inl there =>
        obtain ⟨i, denotes⟩ := there
        exact absurd (List.mem_of_getElem? ((has.denotes_iff i).mp denotes).2) present
    | inr memory =>
        obtain ⟨small, storage, copied⟩ := memory
        obtain ⟨table, inserted, has'⟩ := has.insert_new present small storage copied
        refine ⟨_, _, inserted, Int.natCast_nonneg _, _, has', ?_⟩
        simp only [afterInsert, Int.natCast_nonneg, if_true, List.forall_mem_cons]
        refine ⟨⟨trivial, by simp⟩, fun pair mem => ⟨(known pair mem).1, ?_⟩⟩
        have bound := (List.getElem?_eq_some_iff.mp (known pair mem).2).1
        rw [List.getElem?_append_left bound]
        exact (known pair mem).2

theorem Keeps.step (keeps : use.Keeps) {event : TableEvent} {use' : TableUse}
    (allowed : use.Allowed event) (stepped : Step use event use') : use'.Keeps := by
  cases stepped with
  | insert inserted =>
      obtain ⟨ret, table, inserted', -, keeps'⟩ := keeps.insert allowed
      cases inserted.symm.trans inserted'
      exact keeps'
  | map mapped =>
      obtain ⟨names, has, known⟩ := keeps
      obtain ⟨table, mapped', has'⟩ := has.mapAt _ _
      cases mapped.symm.trans mapped'
      exact ⟨names, has', known⟩

/-- Without room for the path, a call fails and changes the table, or its index denotes nothing. -/
theorem Keeps.room_of_insertsRight (keeps : use.Keeps) {filename : Path} {grants : Grants}
    (right : use.InsertsRight filename grants) : HasRoom use.table filename grants := by
  obtain ⟨names, has, -⟩ := keeps
  obtain ⟨ret, table, inserted, unchanged, stable⟩ := right
  by_contra noRoom
  obtain ⟨absent, noMemory⟩ := not_or.mp noRoom
  have new : filename ∉ names := by
    intro present
    obtain ⟨k, at'⟩ := List.getElem?_of_mem present
    exact absent ⟨k, (has.denotes_iff _).mpr ⟨Int.natCast_nonneg k, by simpa using at'⟩⟩
  by_cases memory : (use.table.uftSize ≤ use.table.uftCount + 1 → grants.storage = true) ∧
      grants.name = true
  · obtain ⟨table', inserted', counted⟩ := has.insert_last new memory.1 memory.2
    cases inserted.symm.trans inserted'
    have last : table.uftCount = 2 ^ 31 := by
      have count := has.count
      have small := has.small
      have large : ¬use.table.uftCount + 1 < 2 ^ 31 := fun small => noMemory ⟨small, memory⟩
      omega
    -- the count is negative as an `int`
    obtain ⟨file, at', -⟩ := stable.denotes (filename, names.length) (by simp [afterInsert])
    have negative : toInt table.uftCount < 0 := by
      rw [last]
      decide
    have outside : ¬((0 : Int) ≤ names.length ∧ (names.length : Int) < toInt table.uftCount) := by
      omega
    change table.fileAt names.length = some file at at'
    rw [UcdFileTable.fileAt, if_neg outside] at at'
    cases at'
  · obtain ⟨table', inserted', counted⟩ := has.insert_refused new memory
    cases inserted.symm.trans inserted'
    rw [unchanged (by decide)] at counted
    omega

/-- While no allocation fails the table is a set with fixed indices, and then the next call is right
    exactly where its allocations do not fail either. -/
theorem stable_of_run (run : Run Start Step Allowed use) :
    use.Stable ∧ ∀ filename grants,
      use.InsertsRight filename grants ↔ HasRoom use.table filename grants := by
  have keeps : use.Keeps :=
    run.invariant (fun _ start => start.keeps) (fun _ _ _ keeps allowed step => keeps.step allowed step)
  refine ⟨keeps.stable, fun filename grants => ⟨keeps.room_of_insertsRight, fun room => ?_⟩⟩
  obtain ⟨ret, table, inserted, nonneg, keeps'⟩ := keeps.insert room
  exact ⟨ret, table, inserted, fun negative => by omega, keeps'.stable⟩

/-- A table that was set up. -/
def new : TableUse := ⟨(ucdFileTableInit true).2, []⟩

/-- A second call for a path finds it again. -/
theorem new_stable :
    let use := (new.afterInsert [0x61] 0 ⟨1, 2, some [⟨⟨0, false⟩, some [0x61], -1⟩, .blank]⟩)
    use.Stable ∧ ∀ filename grants,
      use.InsertsRight filename grants ↔ HasRoom use.table filename grants := by
  have room : new.Allowed (.insert [0x61] ⟨true, true⟩) := Or.inr (by decide)
  exact stable_of_run (.step (.insert [0x61] ⟨true, true⟩) (.start ⟨rfl, rfl⟩) room (.insert rfl))

/-- There is no memory for the copy of a name: the entry stays without one, and the next call
    compares with it. -/
theorem unnamed_counted :
    ¬new.InsertsRight [0x61] ⟨true, false⟩ ∧
      ∃ table, new.table.insert [0x61] ⟨true, false⟩ = .ok (enomem, table) ∧ table.uftCount = 1 ∧
        table.insert [0x62] ⟨true, true⟩ = .error .undefined := by
  refine ⟨?_, _, rfl, rfl, rfl⟩
  rintro ⟨ret, table, inserted, unchanged, -⟩
  cases inserted
  have counted : (1 : Nat) = 0 := congrArg UcdFileTable.uftCount (unchanged (by decide))
  cases counted

end TableUse

end Libunwind.Coredump
