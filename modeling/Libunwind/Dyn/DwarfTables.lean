import Libunwind.Dyn.LocalRemote
import Libunwind.Dwarf.LocalRemoteLookup

/-! # Registered DWARF tables

On a target with DWARF unwind info, `tdep_search_unwind_table` is
`dwarf_search_unwind_table`. A remote table is found from both sides as far as the
two binary searches select the same entry.
-/

namespace Libunwind.Dyn

open Dwarf (InfoFormat DebugFrame TableEntry searchUnwindTable)
open BinarySearch

variable {w : Nat}

def infoFormat (format : BitVec 32) : InfoFormat :=
  if format = formatTable then .table
  else if format = formatRemoteTable then .remoteTable
  else if format = formatArmExidx then .armExidx
  else if format = formatIpOffset then .ipOffset
  else if format = formatRemoteTable64 then .remoteTable64
  else .dynamic

def formatNumber : InfoFormat → BitVec 32
  | .dynamic => formatDynamic
  | .table => formatTable
  | .remoteTable => formatRemoteTable
  | .armExidx => formatArmExidx
  | .ipOffset => formatIpOffset
  | .remoteTable64 => formatRemoteTable64

def ProcInfo.toDwarf (pi : ProcInfo w) : Dwarf.ProcInfo w where
  startIp := pi.startIp
  endIp := pi.endIp
  lsda := pi.lsda
  handler := pi.handler
  gp := pi.gp
  flags := pi.flags
  format := infoFormat pi.format

/-- The search sets `unwind_info` where it is asked to. -/
def ProcInfo.found (pi : ProcInfo w) (found : Dwarf.ProcInfo w) : ProcInfo w where
  startIp := found.startIp
  endIp := found.endIp
  lsda := found.lsda
  handler := found.handler
  gp := found.gp
  flags := found.flags
  format := formatNumber found.format
  unwindInfo :=
    match found.unwindInfo with
    | some dci => .cie dci
    | none => pi.unwindInfo

/-- The entry as `dwarf_search_unwind_table` takes it. -/
def DynInfo.toDwarf (di : DynInfo w) : Dwarf.DynInfo w :=
  let (segbase, tableData, tableLen) :=
    match di.u with
    | .pi _ => (0, 0, 0)
    | .ti info => (info.segbase, 0, info.tableLen)
    | .rti info => (info.segbase, info.tableData, info.tableLen)
  { startIp := di.startIp
    endIp := di.endIp
    format := infoFormat di.format
    segbase
    tableData
    tableLen }

/-- `dwarf_search_unwind_table`. The words of a table are taken for a
    `struct unw_debug_frame_list`, which `debugFrame` follows. Of a search that fails,
    only the code is modelled. -/
def dwarfSearch (as localSpace : AddrSpace w) (isLocal granted : Bool)
    (debugFrame : Option (List (Word w)) → DebugFrame w) : TableSearch w :=
  fun ip di pi needUnwindInfo =>
    let fdesc :=
      match di.u with
      | .ti info => debugFrame info.tableData
      | _ => debugFrame none
    match searchUnwindTable as localSpace isLocal fdesc ip di.toDwarf pi.toDwarf
        needUnwindInfo granted with
    | .ok found => { ret := .ok (), pi := pi.found found }
    | .error e => { ret := .error e, pi }

/-- An outcome agrees with what the remote lookup makes of it, but for its code. -/
theorem agree_settled_iff {o : Outcome w} {pi : ProcInfo w} :
    Agree o (o.settled pi) ↔ o.ret = .ok () ∨ o.ret = .error (.err .noinfo) := by
  obtain ⟨ret, found⟩ := o
  cases ret with
  | ok u => simp [Agree, Outcome.settled]
  | error e =>
      cases e with
      | err code => simp [Agree, Outcome.settled, eq_comm]
      | undefined => simp [Agree, Outcome.settled]
      | timeout => simp [Agree, Outcome.settled]

section RemoteTable

variable {as remoteSpace : AddrSpace 64} {granted : Bool}
  {debugFrame debugFrame' : Option (List (Word 64)) → DebugFrame 64} {ip : Word 64}
  {pi : ProcInfo 64} {di : DynInfo 64} {info : DynRemoteTableInfo 64}
  {entries : List (TableEntry 32)}

theorem searchUnwindTable_remoteTable {localSpace : AddrSpace 64} {isLocal needUnwindInfo : Bool}
    {fdesc : DebugFrame 64} {p : Dwarf.ProcInfo 64} {d : Dwarf.DynInfo 64}
    (format : d.format = .remoteTable) :
    searchUnwindTable as localSpace isLocal fdesc ip d p needUnwindInfo granted =
      if !(d.startIp ≤ ip && ip < d.endIp) then .error .undefined
      else (do
        let tableSize := (d.tableLen * BitVec.ofNat 64 (64 / 8)).toNat
        let found ← if isLocal then
            Dwarf.selectLocal .sdata4 (Dwarf.loadEntry localSpace .sdata4 d.tableData) tableSize ip
              d.segbase d.endIp
          else Dwarf.selectRemote as .sdata4 d.tableData tableSize ip d.segbase d.endIp
        Dwarf.useSelection as ip d 0 p needUnwindInfo granted found) := by
  obtain ⟨startIp, endIp, _, segbase, tableData, tableLen⟩ := d
  subst format
  rfl

/-- A search of a table of 32-bit offsets from either side. -/
theorem dwarfSearch_eq (isTable : di.u = .rti info) (format : di.format = formatRemoteTable)
    (ascending : Ascending TableEntry.start entries)
    (length : (info.tableLen * BitVec.ofNat 64 (64 / 8)).toNat / 8 = entries.length)
    (stored : Dwarf.StoredAt as .sdata4 info.tableData entries)
    (near : ∀ e ∈ entries, e.start ≤ ((ip - info.segbase).setWidth 32).toInt ↔
      e.start ≤ (ip - info.segbase).toInt) :
    dwarfSearch as as true granted debugFrame ip di pi true =
      dwarfSearch as remoteSpace false granted debugFrame' ip di pi true := by
  have isRemote : di.toDwarf.format = .remoteTable := by
    change infoFormat di.format = .remoteTable
    rw [format]
    decide
  have same : Dwarf.selectLocal .sdata4 (Dwarf.loadEntry as .sdata4 info.tableData)
        (info.tableLen * BitVec.ofNat 64 (64 / 8)).toNat ip info.segbase di.toDwarf.endIp =
      Dwarf.selectRemote as .sdata4 info.tableData
        (info.tableLen * BitVec.ofNat 64 (64 / 8)).toNat ip info.segbase di.toDwarf.endIp :=
    (Dwarf.selectLocal_eq_selectRemote_iff .sdata4 ascending length stored stored).mpr near
  have dwarf : di.toDwarf.segbase = info.segbase ∧ di.toDwarf.tableData = info.tableData ∧
      di.toDwarf.tableLen = info.tableLen := by
    simp only [DynInfo.toDwarf, isTable, and_self]
  simp only [dwarfSearch, searchUnwindTable_remoteTable isRemote, dwarf, if_true,
    Bool.false_eq_true, if_false]
  rw [← same]

/-- A registered remote table serves from both sides, where its search fails with no
    other code than `UNW_ENOINFO`. -/
theorem remoteTable_serves_iff {r : Reader 64} {mem : Memory 64} {addr : Word 64}
    (search : r.search = dwarfSearch as remoteSpace false granted debugFrame')
    (isTable : di.u = .rti info) (format : di.format = formatRemoteTable)
    (ascending : Ascending TableEntry.start entries)
    (length : (info.tableLen * BitVec.ofNat 64 (64 / 8)).toNat / 8 = entries.length)
    (stored : Dwarf.StoredAt as .sdata4 info.tableData entries)
    (near : ∀ e ∈ entries, e.start ≤ ((ip - info.segbase).setWidth 32).toInt ↔
      e.start ≤ (ip - info.segbase).toInt) :
    r.CopyServes (dwarfSearch as as true granted debugFrame) mem ip pi true addr di ↔
      let o := dwarfSearch as as true granted debugFrame ip di (di.described pi) true
      o.ret = .ok () ∨ o.ret = .error (.err .noinfo) := by
  have searched : Searched di.format := .inr (.inl format)
  have copied : r.copy mem true addr di = .ok di := by
    obtain ⟨startIp, endIp, gp, _, _, fits⟩ := di
    subst isTable
    simp only [Reader.copy, Reader.copiedUnion, Reader.internedUnion, if_true, if_pos format]
    rfl
  simp only [Reader.CopyServes, isTable, searched, true_and, copied, search]
  rw [← dwarfSearch_eq isTable format ascending length stored near]
  exact agree_settled_iff

end RemoteTable

end Libunwind.Dyn
