import Libunwind.Library.Inquiry
import Libunwind.Dyn.Info

/-! # Reading the list of another process

`unwi_dyn_remote_find_proc_info` walks the list through `access_mem`, copies the
entry that it is after, and reads the list's generation before and after.
-/

namespace Libunwind.Dyn

variable {w : Nat} {α : Type}

/-- Reading the target's memory word by word. -/
abbrev Fetch (w : Nat) := Inquiry (Word w) (Except UnwError (Word w)) Fault

def fault (e : Fault) : Fetch w α := .done (.error e)

def accessMem (addr : Word w) : Fetch w (Word w) :=
  .ask addr fun answer => .done (ofAccess answer)

/-- A routine whose negative return the caller looks at. -/
def attempt (p : Fetch w α) : Fetch w (Except UnwError α) :=
  p.handle fun
    | .ok a => pure (.ok a)
    | .error (.err code) => pure (.error code)
    | .error e => fault e

/-- `WSIZE`. -/
def wsize (w : Nat) : Word w := BitVec.ofNat w (w / 8)

/-- The start of the word that an address is in. -/
def alignedAddr (addr : Word w) : Word w := addr &&& (~~~wsize w + 1)

/-- The field of `size` bytes at an offset in a word. -/
def fieldOf (bigEndian : Bool) (size off : Nat) (val : Word w) : BitVec (8 * size) :=
  (val >>> (8 * if bigEndian then w / 8 - size - off else off)).setWidth (8 * size)

/-- What `fetch8`, `fetch16` and `fetch32` share. -/
def fetchField (bigEndian : Bool) (size : Nat) (addr : Word w) :
    Fetch w (BitVec (8 * size) × Word w) :=
  let off := (addr - alignedAddr addr).toNat
  if off % size ≠ 0 then fault (.err .inval)
  else do
    let val ← accessMem (alignedAddr addr)
    pure (fieldOf bigEndian size off val, addr + BitVec.ofNat w size)

def fetch8 (bigEndian : Bool) (addr : Word w) : Fetch w (BitVec 8 × Word w) :=
  fetchField bigEndian 1 addr

def fetch16 (bigEndian : Bool) (addr : Word w) : Fetch w (BitVec 16 × Word w) :=
  fetchField bigEndian 2 addr

def fetch32 (bigEndian : Bool) (addr : Word w) : Fetch w (BitVec 32 × Word w) :=
  fetchField bigEndian 4 addr

def fetchw (addr : Word w) : Fetch w (Word w × Word w) := do
  let val ← accessMem addr
  pure (val, addr + wsize w)

/-- What a reader is built for: the byte order, whether `calloc` has room for so
    many bytes, and the search of tables. -/
structure Reader (w : Nat) where
  bigEndian : Bool
  calloc : Nat → Bool
  search : TableSearch w

/-- The size of an `unw_dyn_info_t`. -/
def dynInfoSize (w : Nat) : Nat := 8 * (w / 8) + 16

/-- `_U_dyn_region_info_size`. -/
def dynRegionInfoSize (w opCount : Nat) : Nat := w / 8 + 8 + opCount * (8 + w / 8)

section Intern

variable (r : Reader w)

/-- `intern_op`. -/
def internOp (addr : Word w) : Fetch w (DynOp w × Word w) := do
  let (tag, addr) ← fetch8 r.bigEndian addr
  let (qp, addr) ← fetch8 r.bigEndian addr
  let (reg, addr) ← fetch16 r.bigEndian addr
  let (when, addr) ← fetch32 r.bigEndian addr
  let (val, addr) ← fetchw addr
  pure (⟨tag, qp, reg, when, val⟩, addr)

/-- The loop over the ops of a region. -/
def internOps : Nat → Word w → Fetch w (List (DynOp w))
  | 0, _ => pure []
  | opCount + 1, addr => do
      let (op, addr) ← internOp r addr
      let ops ← internOps opCount addr
      pure (op :: ops)

/-- `intern_regions`, with a bound on how deep it calls itself. -/
def internRegions : Nat → Word w → Fetch w (List (DynRegionInfo w))
  | 0, _ => fault .timeout
  | depth + 1, addr =>
      if addr = 0 then pure []
      else do
        let (nextAddr, addr) ← fetchw addr
        let (insnCount, addr) ← fetch32 r.bigEndian addr
        let (opCount, addr) ← fetch32 r.bigEndian addr
        if r.calloc (dynRegionInfoSize w opCount.toNat) then do
          let op ← internOps r opCount.toNat addr
          let next ← if nextAddr ≠ 0 then internRegions depth nextAddr else pure []
          pure (⟨insnCount, op⟩ :: next)
        else fault (.err .nomem)

/-- The loop of `intern_array`. -/
def fetchWords : Nat → Word w → Fetch w (List (Word w))
  | 0, _ => pure []
  | len + 1, addr => do
      let (val, addr) ← fetchw addr
      let vals ← fetchWords len addr
      pure (val :: vals)

/-- `intern_array`. Where a fetch fails it returns 0, and leaves `table_data` as it
    was. -/
def internArray (addr tableLen : Word w) (tableData : Option (List (Word w))) :
    Fetch w (Option (List (Word w))) :=
  if r.calloc (tableLen.toNat * (w / 8)) then do
    match ← attempt (fetchWords tableLen.toNat addr) with
    | .ok data => pure (some data)
    | .error _ => pure tableData
  else fault (.err .nomem)

/-- `intern_dyn_info`. The array of a table is read from `addr` on, which is where
    the pointer to it is. -/
def internDynInfo (depth : Nat) (addr : Word w) (format : BitVec 32)
    (tableData : Option (List (Word w))) : Fetch w { u : DynUnion w // u.Fits format } :=
  if dynamic : format = formatDynamic then do
    let (namePtr, addr) ← fetchw addr
    let (handler, addr) ← fetchw addr
    let (flags, addr) ← fetch32 r.bigEndian addr
    -- skip over pad0
    let (firstRegion, _) ← fetchw (addr + 4)
    let regions ← internRegions r depth firstRegion
    pure ⟨.pi ⟨namePtr, handler, flags, regions⟩, dynamic⟩
  else if table : format = formatTable then do
    let (namePtr, addr) ← fetchw addr
    let (segbase, addr) ← fetchw addr
    let (tableLen, addr) ← fetchw addr
    let tableData ← internArray r addr tableLen tableData
    pure ⟨.ti ⟨namePtr, segbase, tableLen, tableData⟩, table⟩
  else if format = formatRemoteTable then do
    let (namePtr, addr) ← fetchw addr
    let (segbase, addr) ← fetchw addr
    let (tableLen, addr) ← fetchw addr
    let (tableData, _) ← fetchw addr
    pure ⟨.rti ⟨namePtr, segbase, tableLen, tableData⟩, dynamic, table⟩
  else fault (.err .noinfo)

end Intern

/-- The union as `calloc` leaves it. -/
def clearUnion (w : Nat) (format : BitVec 32) : { u : DynUnion w // u.Fits format } :=
  if dynamic : format = formatDynamic then ⟨.pi ⟨0, 0, 0, []⟩, dynamic⟩
  else if table : format = formatTable then ⟨.ti ⟨0, 0, 0, none⟩, table⟩
  else ⟨.rti ⟨0, 0, 0, 0⟩, dynamic, table⟩

/-- The entry without what its format adds. -/
def DynInfo.cleared (startIp endIp gp : Word w) (format : BitVec 32) : DynInfo w where
  startIp
  endIp
  gp
  format
  u := (clearUnion w format).1
  fits := (clearUnion w format).2

/-- The variables that the reader keeps over its rounds. -/
structure Reading (w : Nat) where
  ret : Except UnwError Unit
  pi : ProcInfo w
  di : Option (DynInfo w)

/-- The table that the copy has from an earlier round. -/
def Reading.tableData (s : Reading w) : Option (List (Word w)) :=
  match s.di with
  | some { u := .ti info, .. } => info.tableData
  | _ => none

section Rounds

variable (r : Reader w) (budget : Nat) (ip : Word w) (needUnwindInfo : Bool)

/-- `di`, which the first entry that covers `ip` allocates. -/
def Reading.allocate (s : Reading w) (startIp endIp : Word w) : Fetch w (Reading w) :=
  match s.di with
  | some di => pure { s with di := some { di with startIp, endIp } }
  | none =>
      if r.calloc (dynInfoSize w) then
        pure { s with di := some (.cleared startIp endIp 0 0) }
      else fault .undefined

/-- Extracts from the copy, and drops what is interned for it where that fails. -/
def Reading.extract (s : Reading w) (di : DynInfo w) : Fetch w (Reading w) :=
  let o := extractDynamicProcInfo r.search ip s.pi di needUnwindInfo
  match o.ret with
  | .ok () => pure { ret := .ok (), pi := o.pi, di := some di }
  | .error (.err _) =>
      pure { s with pi := o.pi, di := some (.cleared di.startIp di.endIp di.gp di.format) }
  | .error e => fault e

/-- An entry that covers `ip`; `addr` is behind its range. Wherever a fetch fails,
    the generation is checked with `ret` as it was. -/
def Reading.cover (s : Reading w) (startIp endIp addr : Word w) : Fetch w (Reading w) := do
  let s ← s.allocate r startIp endIp
  let fetchFormat : Fetch w (Word w × BitVec 32 × Word w) := do
    let (gp, addr) ← fetchw addr
    let (format, addr) ← fetch32 r.bigEndian addr
    pure (gp, format, addr)
  match ← attempt fetchFormat with
  | .error _ => pure s
  | .ok (gp, format, addr) =>
      -- skip over padding
      let intern := if needUnwindInfo then internDynInfo r budget (addr + 4) format s.tableData
        else pure (clearUnion w format)
      match ← attempt intern with
      | .error _ => pure { s with di := some (.cleared startIp endIp gp format) }
      | .ok u =>
          s.extract r ip needUnwindInfo { startIp, endIp, gp, format, u := u.1, fits := u.2 }

/-- What an entry has between its range and its union. -/
def fetchFormat (addr : Word w) : Fetch w (Word w × BitVec 32 × Word w) := do
  let (gp, addr) ← fetchw addr
  let (format, addr) ← fetch32 r.bigEndian addr
  pure (gp, format, addr)

theorem Reading.cover_eq (s : Reading w) (startIp endIp addr : Word w) :
    s.cover r budget ip needUnwindInfo startIp endIp addr = (do
      let s ← s.allocate r startIp endIp
      match ← attempt (fetchFormat r addr) with
      | .error _ => pure s
      | .ok (gp, format, addr) =>
          let intern := if needUnwindInfo then internDynInfo r budget (addr + 4) format s.tableData
            else pure (clearUnion w format)
          match ← attempt intern with
          | .error _ => pure { s with di := some (.cleared startIp endIp gp format) }
          | .ok u =>
              s.extract r ip needUnwindInfo { startIp, endIp, gp, format, u := u.1, fits := u.2 }) :=
  rfl

/-- The links and the range of an entry. -/
def fetchRange (addr : Word w) : Fetch w (Word w × Word w × Word w × Word w) := do
  let (nextAddr, addr) ← fetchw addr
  -- skip over prev_addr
  let (startIp, addr) ← fetchw (addr + wsize w)
  let (endIp, addr) ← fetchw addr
  pure (nextAddr, startIp, endIp, addr)

/-- The loop over the entries. -/
def Reading.walk (s : Reading w) : Nat → Word w → Fetch w (Reading w)
  | 0, _ => fault .timeout
  | entries + 1, addr =>
      if addr = 0 then pure s
      else do
        match ← attempt (fetchRange addr) with
        | .error _ => pure s
        | .ok (nextAddr, startIp, endIp, addr) =>
            if startIp ≤ ip ∧ ip < endIp then
              s.cover r budget ip needUnwindInfo startIp endIp addr
            else s.walk entries nextAddr

/-- What the reader is left with when it returns, and whether it frees `di`. -/
structure Returned (w : Nat) where
  reading : Reading w
  freed : Bool

def Returned.outcome (result : Returned w) : Outcome w where
  ret := ofAccess result.reading.ret
  pi := result.reading.pi

def dynListAddr (known : Word w) (listAddr : Except UnwError (Word w)) :
    Except UnwError (Word w) :=
  if known ≠ 0 then .ok known else listAddr

/-- The generation, and the first entry. -/
def fetchHead (dynListAddr : Word w) : Fetch w (Word w × Word w) := do
  let (gen, addr) ← fetchw dynListAddr
  let (nextAddr, _) ← fetchw addr
  pure (gen, nextAddr)

/-- The rounds, until the generation is the same before and after. -/
def Reading.rounds (dynListAddr : Word w) : Nat → Reading w → Fetch w (Returned w)
  | 0, _ => fault .timeout
  | rounds + 1, s => do
      let s := { s with ret := .error .noinfo }
      match ← attempt (fetchHead dynListAddr) with
      | .error _ => pure ⟨s, false⟩
      | .ok (gen1, nextAddr) =>
          let s ← s.walk r budget ip needUnwindInfo budget nextAddr
          match ← attempt (fetchw dynListAddr) with
          | .error _ => pure ⟨s, false⟩
          | .ok (gen2, _) =>
              if gen1 ≠ gen2 then Reading.rounds dynListAddr rounds s
              else pure ⟨s, s.ret.toBool = false ∧ s.di.isSome⟩

/-- `unwi_dyn_remote_find_proc_info`. `known` is the list's address that the address
    space remembers, if any, and `listAddr` what `get_dyn_info_list_addr` answers. -/
def remoteFindProcInfo (known : Word w) (listAddr : Except UnwError (Word w)) (pi : ProcInfo w) :
    Fetch w (Returned w) :=
  let s : Reading w := { ret := .error .noinfo, pi, di := none }
  match dynListAddr known listAddr with
  | .ok addr => Reading.rounds r budget ip needUnwindInfo addr budget s
  | .error _ => pure ⟨s, false⟩

end Rounds

end Libunwind.Dyn
