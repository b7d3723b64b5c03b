import Libunwind.Library.BinarySearch
import Libunwind.Dwarf.Fde

/-! # Searching an unwind table

A table of `.eh_frame_hdr`, and the index that is made of a `.debug_frame`,
have an entry for each FDE in ascending order of the start address. The entry
for an `ip` is looked up in local memory, or by reading remote memory.
-/

namespace Libunwind.Dwarf

open BinarySearch

variable {w : Nat}

/-- The two kinds of tables: of 32-bit and of 64-bit offsets. -/
inductive EntryWidth where
  | sdata4
  | sdata8
  deriving DecidableEq, Repr

namespace EntryWidth

@[simp] def bits : EntryWidth → Nat
  | .sdata4 => 32
  | .sdata8 => 64

/-- The size of an offset. -/
@[simp] def offsetSize : EntryWidth → Nat
  | .sdata4 => 4
  | .sdata8 => 8

/-- The size of an entry. -/
@[simp] def size : EntryWidth → Nat
  | .sdata4 => 8
  | .sdata8 => 16

end EntryWidth

/-- `struct table_entry` and `struct table_entry64`. -/
structure TableEntry (b : Nat) where
  startIpOffset : BitVec b
  fdeOffset : BitVec b
  deriving DecidableEq, Repr

def TableEntry.start {b : Nat} (e : TableEntry b) : Int := e.startIpOffset.toInt

/-- The binary search of `lookup` and `lookup64`. -/
def lookupEntry {b : Nat} (entryAt : Nat → Result (TableEntry b)) (tableLen : Nat)
    (relIp : BitVec b) : Result (Option Nat) := do
  let precedes (mid : Nat) : Result Bool := do
    let e ← entryAt mid
    pure (decide (relIp.toInt < e.start))
  let hi ← bisect precedes tableLen 0 tableLen
  pure (if hi = 0 then none else some (hi - 1))

/-- `lookup`; yields the index of the entry. -/
def lookup (entryAt : Nat → Result (TableEntry 32)) (tableSize : Nat) (relIp : BitVec 32) :
    Result (Option Nat) :=
  lookupEntry entryAt (tableSize / 8) relIp

/-- `lookup64`. -/
def lookup64 (entryAt : Nat → Result (TableEntry 64)) (tableSize : Nat) (relIp : BitVec 64) :
    Result (Option Nat) :=
  lookupEntry entryAt (tableSize / 16) relIp

def EntryWidth.lookup : (width : EntryWidth) → (Nat → Result (TableEntry width.bits)) → Nat →
    BitVec width.bits → Result (Option Nat)
  | .sdata4 => Libunwind.Dwarf.lookup
  | .sdata8 => lookup64

/-- What a search selects. -/
structure Selection (w : Nat) where
  startIpOffset : Word w
  fdeOffset : Word w
  lastIp : Word w
  deriving DecidableEq, Repr

/-- The local search. Passing `ip - ip_base` to `lookup` narrows it to 32 bits. -/
def selectLocal (width : EntryWidth) (entryAt : Nat → Result (TableEntry width.bits))
    (tableSize : Nat) (ip ipBase endIp : Word w) : Result (Option (Selection w)) := do
  match ← width.lookup entryAt tableSize ((ip - ipBase).setWidth width.bits) with
  | none => pure none
  | some i =>
      let e ← entryAt i
      let lastIp ← if i + 1 < tableSize / width.size then do
          let next ← entryAt (i + 1)
          pure (next.startIpOffset.signExtend w + ipBase)
        else pure endIp
      pure (some ⟨e.startIpOffset.signExtend w, e.fdeOffset.signExtend w, lastIp⟩)

def readOffset (as : AddrSpace w) :
    (width : EntryWidth) → Word w → Result (BitVec width.bits × Word w)
  | .sdata4, addr => readu32 as addr
  | .sdata8, addr => readu64 as addr

/-- An entry of a table in local memory. -/
def loadEntry (localSpace : AddrSpace w) (width : EntryWidth) (table : Word w) (i : Nat) :
    Result (TableEntry width.bits) := do
  let (startIpOffset, addr) ← readOffset localSpace width (table + BitVec.ofNat w (i * width.size))
  let (fdeOffset, _) ← readOffset localSpace width addr
  pure ⟨startIpOffset, fdeOffset⟩

/-- `remote_read_entry`. -/
def remoteReadEntry (as : AddrSpace w) (width : EntryWidth) (addr : Word w) :
    Result (BitVec 64 × Word w) := do
  let (val, addr) ← readOffset as width addr
  pure (val.signExtend 64, addr)

/-- `remote_lookup`: the start, the FDE offset and the last `ip` of the entry. -/
def remoteLookup (as : AddrSpace w) (width : EntryWidth) (table : Word w) (tableSize : Nat)
    (relIp lastIpOffset : BitVec 64) : Result (Option (BitVec 64 × BitVec 64 × BitVec 64)) := do
  let tableLen := tableSize / width.size
  let precedes (mid : Nat) : Result Bool := do
    let (start, _) ← remoteReadEntry as width (table + BitVec.ofNat w (mid * width.size))
    pure (decide (relIp.toInt < start.toInt))
  let hi ← bisect precedes tableLen 0 tableLen
  if hi = 0 then pure none
  else
    let addr := table + BitVec.ofNat w ((hi - 1) * width.size)
    let (start, addr) ← remoteReadEntry as width addr
    let (fdeOffset, addr) ← remoteReadEntry as width addr
    let lastIpOffset ← if hi < tableLen then do
        let (next, _) ← remoteReadEntry as width addr
        pure next
      else pure lastIpOffset
    pure (some (start, fdeOffset, lastIpOffset))

/-- The search through `access_mem`; the difference is widened with its sign. -/
def selectRemote (as : AddrSpace w) (width : EntryWidth) (table : Word w) (tableSize : Nat)
    (ip ipBase endIp : Word w) : Result (Option (Selection w)) := do
  let found ← remoteLookup as width table tableSize ((ip - ipBase).signExtend 64)
    ((endIp - ipBase).signExtend 64)
  pure (found.map fun (start, fdeOffset, lastIpOffset) =>
    ⟨start.setWidth w, fdeOffset.setWidth w, lastIpOffset.setWidth w + ipBase⟩)

/-- `unw_dyn_info_t`, with its table. -/
structure DynInfo (w : Nat) where
  startIp : Word w
  endIp : Word w
  format : InfoFormat
  segbase : Word w
  tableData : Word w := 0
  /-- The number of words. -/
  tableLen : Word w := 0
  deriving Repr

/-- `struct unw_debug_frame_list`. -/
structure DebugFrame (w : Nat) where
  debugFrame : Word w
  index : List (TableEntry 32)
  deriving Repr

/-- An access to the index, undefined out of bounds. -/
def DebugFrame.entryAt (fdesc : DebugFrame w) (i : Nat) : Result (TableEntry 32) :=
  match fdesc.index[i]? with
  | some e => pure e
  | none => .error .undefined

/-- `is_remote_table`. -/
def isRemoteTable : InfoFormat → Bool
  | .remoteTable | .remoteTable64 | .ipOffset => true
  | _ => false

/-- What `dwarf_search_unwind_table` does with the selected entry. -/
def useSelection (as : AddrSpace w) (ip : Word w) (di : DynInfo w) (debugFrameBase : Word w)
    (pi : ProcInfo w) (needUnwindInfo granted : Bool) (found : Option (Selection w)) :
    Result (ProcInfo w) :=
  match found with
  | none => .error (.err .noinfo)
  | some entry => do
      let base := if debugFrameBase ≠ 0 then debugFrameBase else di.segbase
      let (pi, _) ← extractProcInfoFromFde as (entry.fdeOffset + base) pi base needUnwindInfo
        granted (debugFrameBase != 0)
      -- .debug_frame does not know about the relocation of the object
      let pi := if di.format = .table then
          { pi with
            startIp := pi.startIp + di.segbase
            endIp := pi.endIp + di.segbase
            flags := piFlagDebugFrame w }
        else pi
      if ip < pi.startIp ∨ pi.endIp ≤ ip then .error (.err .noinfo) else pure pi

/-- `dwarf_search_unwind_table`. The table of a `.debug_frame` is the one of
    `fdesc`, and is in local memory; `isLocal` tells whether `as` is the local
    address space. -/
def searchUnwindTable (as localSpace : AddrSpace w) (isLocal : Bool) (fdesc : DebugFrame w)
    (ip : Word w) (di : DynInfo w) (pi : ProcInfo w) (needUnwindInfo granted : Bool) :
    Result (ProcInfo w) :=
  if !(di.startIp ≤ ip && ip < di.endIp) then .error .undefined
  else if di.format = .table then do
    let found ← selectLocal .sdata4 fdesc.entryAt (fdesc.index.length * 8) ip di.segbase di.endIp
    useSelection localSpace ip di fdesc.debugFrame pi needUnwindInfo granted found
  else if isRemoteTable di.format then do
    let width : EntryWidth := if di.format = .remoteTable64 then .sdata8 else .sdata4
    let ipBase := if di.format = .ipOffset then di.startIp else di.segbase
    let tableSize := (di.tableLen * BitVec.ofNat w (w / 8)).toNat
    let found ← if isLocal then
        selectLocal width (loadEntry localSpace width di.tableData) tableSize ip ipBase di.endIp
      else selectRemote as width di.tableData tableSize ip ipBase di.endIp
    useSelection as ip di 0 pi needUnwindInfo granted found
  else .error .undefined

end Libunwind.Dwarf
