import Libunwind.Dwarf.Info

/-! # Dynamic unwind info

What a program registers for the code that it generates, and what a lookup makes
of an entry. A local lookup walks the list itself.
-/

namespace Libunwind.Dyn

variable {w : Nat}

/-- `unw_dyn_op_t`. -/
structure DynOp (w : Nat) where
  tag : BitVec 8
  qp : BitVec 8
  reg : BitVec 16
  when : BitVec 32
  val : Word w
  deriving DecidableEq, Repr

/-- `unw_dyn_region_info_t`; the regions of a procedure are a list. -/
structure DynRegionInfo (w : Nat) where
  insnCount : BitVec 32
  op : List (DynOp w)
  deriving DecidableEq, Repr

/-- `unw_dyn_proc_info_t`. -/
structure DynProcInfo (w : Nat) where
  namePtr : Word w
  handler : Word w
  flags : BitVec 32
  regions : List (DynRegionInfo w)
  deriving DecidableEq, Repr

/-- `unw_dyn_table_info_t`; no table data is a null pointer. -/
structure DynTableInfo (w : Nat) where
  namePtr : Word w
  segbase : Word w
  tableLen : Word w
  tableData : Option (List (Word w))
  deriving DecidableEq, Repr

/-- `unw_dyn_remote_table_info_t`. -/
structure DynRemoteTableInfo (w : Nat) where
  namePtr : Word w
  segbase : Word w
  tableLen : Word w
  tableData : Word w
  deriving DecidableEq, Repr

/-- The union in `unw_dyn_info_t`. -/
inductive DynUnion (w : Nat) where
  | pi (info : DynProcInfo w)
  | ti (info : DynTableInfo w)
  | rti (info : DynRemoteTableInfo w)
  deriving DecidableEq, Repr

/-! `unw_dyn_info_format_t`. -/

def formatDynamic : BitVec 32 := 0
def formatTable : BitVec 32 := 1
def formatRemoteTable : BitVec 32 := 2
def formatArmExidx : BitVec 32 := 3
def formatIpOffset : BitVec 32 := 4
def formatRemoteTable64 : BitVec 32 := 5

/-- The member of the union that is in use: the proc info or the table of its
    format, and a remote table for every format that came later. -/
def DynUnion.Fits (format : BitVec 32) : DynUnion w → Prop
  | .pi _ => format = formatDynamic
  | .ti _ => format = formatTable
  | .rti _ => format ≠ formatDynamic ∧ format ≠ formatTable

instance (format : BitVec 32) : (u : DynUnion w) → Decidable (u.Fits format)
  | .pi _ => inferInstanceAs (Decidable (format = formatDynamic))
  | .ti _ => inferInstanceAs (Decidable (format = formatTable))
  | .rti _ => inferInstanceAs (Decidable (format ≠ formatDynamic ∧ format ≠ formatTable))

/-- `unw_dyn_info_t`, apart from its links. -/
structure DynInfo (w : Nat) where
  startIp : Word w
  endIp : Word w
  gp : Word w
  format : BitVec 32
  u : DynUnion w
  fits : u.Fits format
  deriving DecidableEq

def DynInfo.Covers (di : DynInfo w) (ip : Word w) : Prop := di.startIp ≤ ip ∧ ip < di.endIp

instance (di : DynInfo w) (ip : Word w) : Decidable (di.Covers ip) :=
  inferInstanceAs (Decidable (_ ∧ _))

/-- What `unwind_info` points at. -/
inductive UnwindInfo (w : Nat) where
  | none
  | dyn (di : DynInfo w)
  | cie (dci : Dwarf.CieInfo w)
  deriving DecidableEq

/-- `unw_proc_info_t`. -/
structure ProcInfo (w : Nat) where
  startIp : Word w := 0
  endIp : Word w := 0
  lsda : Word w := 0
  handler : Word w := 0
  gp : Word w := 0
  flags : Word w := 0
  format : BitVec 32 := 0
  unwindInfo : UnwindInfo w := .none
  deriving DecidableEq

/-- How a lookup ends: what it returns, and what `*pi` then holds. -/
structure Outcome (w : Nat) where
  ret : Result Unit
  pi : ProcInfo w
  deriving DecidableEq

/-- The target's `tdep_search_unwind_table`. -/
abbrev TableSearch (w : Nat) := Word w → DynInfo w → ProcInfo w → Bool → Outcome w

/-- The formats that `unwi_extract_dynamic_proc_info` leaves to the target's search. -/
def Searched (format : BitVec 32) : Prop :=
  format = formatTable ∨ format = formatRemoteTable ∨ format = formatArmExidx ∨
    format = formatIpOffset

instance (format : BitVec 32) : Decidable (Searched format) :=
  inferInstanceAs (Decidable (_ ∨ _))

/-- `unwi_extract_dynamic_proc_info`. -/
def extractDynamicProcInfo (search : TableSearch w) (ip : Word w) (pi : ProcInfo w)
    (di : DynInfo w) (needUnwindInfo : Bool) : Outcome w :=
  let pi := { pi with startIp := di.startIp, endIp := di.endIp, gp := di.gp, format := di.format }
  match di.u with
  | .pi info =>
      { ret := .ok ()
        pi := { pi with
          handler := info.handler
          lsda := 0
          flags := info.flags.setWidth w
          unwindInfo := if needUnwindInfo then .dyn di else .none } }
  | _ =>
      if Searched di.format then search ip di pi needUnwindInfo
      else { ret := .error (.err .inval), pi }

/-- `local_find_proc_info`. -/
def localFindProcInfo (search : TableSearch w) (ip : Word w) (pi : ProcInfo w)
    (needUnwindInfo : Bool) (list : List (DynInfo w)) : Outcome w :=
  match list.find? fun di => di.Covers ip with
  | some di => extractDynamicProcInfo search ip pi di needUnwindInfo
  | none => { ret := .error (.err .noinfo), pi }

end Libunwind.Dyn
