import Libunwind.Dyn.Remote

/-! # Local and remote lookups of dynamic unwind info

The image of a list in another process's memory, what the reader makes of it, and
when that is what the process itself would find.
-/

namespace Libunwind.Dyn

open Inquiry

variable {w : Nat} {α β : Type}

/-- The target's memory, all of which can be read. -/
abbrev Memory (w : Nat) := Word w → Word w

def Memory.read (mem : Memory w) (p : Fetch w α) : Result α := p.eval fun addr => .ok (mem addr)

/-- The address `n` bytes on. -/
abbrev ahead (addr : Word w) (n : Nat) : Word w := addr + BitVec.ofNat w n

theorem ahead_ahead (addr : Word w) (m n : Nat) : ahead (ahead addr m) n = ahead addr (m + n) := by
  rw [ahead, ahead, ahead, BitVec.ofNat_add, BitVec.add_assoc]

/-! ## The image -/

section Image

variable (bigEndian : Bool) (mem : Memory w)

/-- A field of `size` bytes is stored at an address. -/
def StoredField (size : Nat) (addr : Word w) (v : BitVec (8 * size)) : Prop :=
  (addr - alignedAddr addr).toNat % size = 0 ∧
    fieldOf bigEndian size (addr - alignedAddr addr).toNat (mem (alignedAddr addr)) = v

instance (size : Nat) (addr : Word w) (v : BitVec (8 * size)) :
    Decidable (StoredField bigEndian mem size addr v) :=
  inferInstanceAs (Decidable (_ ∧ _))

structure OpAt (addr : Word w) (op : DynOp w) : Prop where
  tag : StoredField bigEndian mem 1 addr op.tag
  qp : StoredField bigEndian mem 1 (ahead addr 1) op.qp
  reg : StoredField bigEndian mem 2 (ahead addr 2) op.reg
  when : StoredField bigEndian mem 4 (ahead addr 4) op.when
  val : mem (ahead addr 8) = op.val

def OpsAt : Word w → List (DynOp w) → Prop
  | _, [] => True
  | addr, op :: ops => OpAt bigEndian mem addr op ∧ OpsAt (ahead addr (8 + w / 8)) ops

def RegionsAt : Word w → List (DynRegionInfo w) → Prop
  | addr, [] => addr = 0
  | addr, region :: regions =>
      addr ≠ 0 ∧ StoredField bigEndian mem 4 (ahead addr (w / 8)) region.insnCount ∧
        (∃ opCount : BitVec 32, opCount.toNat = region.op.length ∧
          StoredField bigEndian mem 4 (ahead addr (w / 8 + 4)) opCount) ∧
        OpsAt bigEndian mem (ahead addr (w / 8 + 8)) region.op ∧ RegionsAt (mem addr) regions

def WordsAt : Word w → List (Word w) → Prop
  | _, [] => True
  | addr, v :: vs => mem addr = v ∧ WordsAt (ahead addr (w / 8)) vs

def UnionAt (addr : Word w) : DynUnion w → Prop
  | .pi info =>
      mem addr = info.namePtr ∧ mem (ahead addr (w / 8)) = info.handler ∧
        StoredField bigEndian mem 4 (ahead addr (2 * (w / 8))) info.flags ∧
        RegionsAt bigEndian mem (mem (ahead addr (2 * (w / 8) + 8))) info.regions
  | .ti info =>
      mem addr = info.namePtr ∧ mem (ahead addr (w / 8)) = info.segbase ∧
        mem (ahead addr (2 * (w / 8))) = info.tableLen ∧
        match info.tableData with
        | some data => data.length = info.tableLen.toNat ∧
            WordsAt mem (mem (ahead addr (3 * (w / 8)))) data
        | none => mem (ahead addr (3 * (w / 8))) = 0
  | .rti info =>
      mem addr = info.namePtr ∧ mem (ahead addr (w / 8)) = info.segbase ∧
        mem (ahead addr (2 * (w / 8))) = info.tableLen ∧
        mem (ahead addr (3 * (w / 8))) = info.tableData

/-- The entry at an address, its links apart. -/
structure EntryAt (addr : Word w) (di : DynInfo w) : Prop where
  startIp : mem (ahead addr (2 * (w / 8))) = di.startIp
  endIp : mem (ahead addr (3 * (w / 8))) = di.endIp
  gp : mem (ahead addr (4 * (w / 8))) = di.gp
  format : StoredField bigEndian mem 4 (ahead addr (5 * (w / 8))) di.format
  u : UnionAt bigEndian mem (ahead addr (5 * (w / 8) + 8)) di.u

/-- Entries with their addresses, each linked to the next. -/
def EntriesAt : Word w → List (Word w × DynInfo w) → Prop
  | addr, [] => addr = 0
  | addr, (place, di) :: entries =>
      addr = place ∧ addr ≠ 0 ∧ EntryAt bigEndian mem addr di ∧ EntriesAt (mem addr) entries

/-- The list itself: `version` and `generation` come before `first`. -/
def ListAt (addr : Word w) (entries : List (Word w × DynInfo w)) : Prop :=
  EntriesAt bigEndian mem (mem (ahead addr 8)) entries

/-- The reader takes the second word of the list for `first`. -/
def HeadSeen (addr : Word w) : Prop := mem (ahead addr (w / 8)) = mem (ahead addr 8)

end Image

theorem headSeen_of_wide (mem : Memory 64) (addr : Word 64) : HeadSeen mem addr := rfl

/-! ## Fetching from the image -/

section Fetch

variable {bigEndian : Bool} {mem : Memory w}

theorem read_bind (p : Fetch w α) (rest : α → Fetch w β) :
    mem.read (p >>= rest) = mem.read p >>= fun a => mem.read (rest a) :=
  eval_bind p rest

@[simp] theorem read_pure (a : α) : mem.read (pure a) = .ok a := rfl

@[simp] theorem read_fault (e : Fault) : mem.read (fault e : Fetch w α) = .error e := rfl

theorem read_attempt_ok {p : Fetch w α} {a : α} (value : mem.read p = .ok a) :
    mem.read (attempt p) = .ok (.ok a) := by
  rw [Memory.read, attempt, eval_handle]
  change mem.read _ = _
  rw [show eval _ p = .ok a from value]
  rfl

theorem read_attempt_err {p : Fetch w α} {code : UnwError} (failed : mem.read p = .error (.err code)) :
    mem.read (attempt p) = .ok (.error code) := by
  rw [Memory.read, attempt, eval_handle]
  change mem.read _ = _
  rw [show eval _ p = .error (.err code) from failed]
  rfl

theorem read_fetchw (addr : Word w) :
    mem.read (fetchw addr) = .ok (mem addr, ahead addr (w / 8)) := rfl

theorem read_fetchField {size : Nat} {addr : Word w} {v : BitVec (8 * size)}
    (stored : StoredField bigEndian mem size addr v) :
    mem.read (fetchField bigEndian size addr) = .ok (v, ahead addr size) := by
  obtain ⟨aligned, rfl⟩ := stored
  simp only [fetchField, aligned, ne_eq, not_true_eq_false, if_false]
  rfl

theorem read_fetch8 {addr : Word w} {v : BitVec 8} (stored : StoredField bigEndian mem 1 addr v) :
    mem.read (fetch8 bigEndian addr) = .ok (v, ahead addr 1) := read_fetchField stored

theorem read_fetch16 {addr : Word w} {v : BitVec 16}
    (stored : StoredField bigEndian mem 2 addr v) :
    mem.read (fetch16 bigEndian addr) = .ok (v, ahead addr 2) := read_fetchField stored

theorem read_fetch32 {addr : Word w} {v : BitVec 32}
    (stored : StoredField bigEndian mem 4 addr v) :
    mem.read (fetch32 bigEndian addr) = .ok (v, ahead addr 4) := read_fetchField stored

/-- The words from an address on. -/
def Memory.wordsFrom (mem : Memory w) : Nat → Word w → List (Word w)
  | 0, _ => []
  | len + 1, addr => mem addr :: mem.wordsFrom len (ahead addr (w / 8))

theorem read_fetchWords (len : Nat) (addr : Word w) :
    mem.read (fetchWords len addr) = .ok (mem.wordsFrom len addr) := by
  induction len generalizing addr with
  | zero => rfl
  | succ len ih =>
      simp only [fetchWords, read_bind, read_fetchw, ok_bind, ih, read_pure, Memory.wordsFrom]

end Fetch

/-! ## Interning from the image -/

section Intern

variable {r : Reader w} {mem : Memory w}

theorem read_internOp {addr : Word w} {op : DynOp w} (image : OpAt r.bigEndian mem addr op) :
    mem.read (internOp r addr) = .ok (op, ahead addr (8 + w / 8)) := by
  have qp := read_fetch8 image.qp
  have reg := read_fetch16 image.reg
  have when := read_fetch32 image.when
  simp only [internOp, read_bind, read_fetch8 image.tag, ok_bind, qp, ahead_ahead, Nat.reduceAdd,
    reg, when, read_fetchw, image.val, read_pure]

theorem read_internOps {addr : Word w} {ops : List (DynOp w)}
    (image : OpsAt r.bigEndian mem addr ops) :
    mem.read (internOps r ops.length addr) = .ok ops := by
  induction ops generalizing addr with
  | nil => rfl
  | cons op ops ih =>
      simp only [List.length_cons, internOps, read_bind, read_internOp image.1, ok_bind,
        ih image.2, read_pure]

/-- `calloc` has room for every region. -/
def Reader.HoldsRegions (r : Reader w) (regions : List (DynRegionInfo w)) : Prop :=
  ∀ region ∈ regions, r.calloc (dynRegionInfoSize w region.op.length) = true

instance (regions : List (DynRegionInfo w)) : Decidable (r.HoldsRegions regions) :=
  inferInstanceAs (Decidable (∀ region ∈ regions, _))

theorem Reader.holdsRegions_cons {region : DynRegionInfo w} {regions : List (DynRegionInfo w)} :
    r.HoldsRegions (region :: regions) ↔
      r.calloc (dynRegionInfoSize w region.op.length) = true ∧ r.HoldsRegions regions :=
  List.forall_mem_cons

theorem RegionsAt.null {bigEndian : Bool} {addr : Word w} {regions : List (DynRegionInfo w)}
    (image : RegionsAt bigEndian mem addr regions) (null : addr = 0) : regions = [] := by
  cases regions with
  | nil => rfl
  | cons region regions => exact absurd null image.1

/-- A list of regions is interned as a whole, or not at all. -/
theorem read_internRegions {depth : Nat} {addr : Word w} {regions : List (DynRegionInfo w)}
    (deep : regions.length < depth) (image : RegionsAt r.bigEndian mem addr regions) :
    mem.read (internRegions r depth addr) =
      if r.HoldsRegions regions then .ok regions else .error (.err .nomem) := by
  induction regions generalizing addr depth with
  | nil =>
      cases depth with
      | zero => exact absurd deep (Nat.not_lt_zero _)
      | succ depth =>
          have null : addr = 0 := image
          simp [internRegions, null, Reader.HoldsRegions]
  | cons region regions ih =>
      cases depth with
      | zero => exact absurd deep (Nat.not_lt_zero _)
      | succ depth =>
          obtain ⟨there, insnCount, ⟨opCount, length, storedCount⟩, ops, rest⟩ := image
          have deeper : regions.length < depth := Nat.lt_of_succ_lt_succ deep
          simp only [internRegions, if_neg there, read_bind, read_fetchw, ok_bind,
            read_fetch32 insnCount, ahead_ahead, read_fetch32 storedCount, length,
            Reader.holdsRegions_cons]
          by_cases room : r.calloc (dynRegionInfoSize w region.op.length) = true
          · rw [if_pos room, read_bind, read_internOps ops, ok_bind]
            by_cases last : mem addr = 0
            · obtain rfl := rest.null last
              simp [room, last, read_bind, Reader.HoldsRegions]
            · rw [if_pos last, read_bind, ih deeper rest]
              by_cases rooms : r.HoldsRegions regions
              · simp only [room, rooms, and_self, if_true, ok_bind, read_pure]
              · simp only [rooms, and_false, if_false, error_bind]
          · rw [if_neg room, read_fault, if_neg fun both => room both.1]

/-- What becomes of an entry's union when it is interned. -/
def Reader.internedUnion (r : Reader w) (mem : Memory w) (addr : Word w) (format : BitVec 32) :
    (u : DynUnion w) → u.Fits format → Result { u : DynUnion w // u.Fits format }
  | .pi info, dynamic =>
      if r.HoldsRegions info.regions then .ok ⟨.pi info, dynamic⟩ else .error (.err .nomem)
  -- the words of the table are taken from where the pointer to them is
  | .ti info, table =>
      if r.calloc (info.tableLen.toNat * (w / 8)) then
        let data := mem.wordsFrom info.tableLen.toNat (ahead addr (3 * (w / 8)))
        .ok ⟨.ti { info with tableData := some data }, table⟩
      else .error (.err .nomem)
  | .rti info, later =>
      if format = formatRemoteTable then .ok ⟨.rti info, later⟩ else .error (.err .noinfo)

def DynUnion.regions : DynUnion w → List (DynRegionInfo w)
  | .pi info => info.regions
  | _ => []

theorem read_internDynInfo {depth : Nat} {addr : Word w} {format : BitVec 32} {u : DynUnion w}
    (tableData : Option (List (Word w))) (deep : u.regions.length < depth) (fits : u.Fits format)
    (image : UnionAt r.bigEndian mem addr u) :
    mem.read (internDynInfo r depth addr format tableData) =
      r.internedUnion mem addr format u fits := by
  have second : ahead (ahead addr (w / 8)) (w / 8) = ahead addr (2 * (w / 8)) := by
    rw [ahead_ahead, Nat.two_mul]
  have third : ahead (ahead addr (2 * (w / 8))) (w / 8) = ahead addr (3 * (w / 8)) := by
    rw [ahead_ahead, Nat.succ_mul 2]
  cases u with
  | pi info =>
      obtain rfl : format = formatDynamic := fits
      obtain ⟨namePtr, handler, flags, regions⟩ := image
      have shallow : info.regions.length < depth := deep
      have pad : ahead (ahead addr (2 * (w / 8))) 4 + 4 = ahead addr (2 * (w / 8) + 8) := by
        exact (ahead_ahead _ 4 4).trans (by rw [ahead_ahead])
      simp only [internDynInfo, dif_pos, read_bind, read_fetchw, ok_bind, second,
        read_fetch32 flags, pad, read_internRegions shallow regions, namePtr, handler,
        Reader.internedUnion]
      by_cases room : r.HoldsRegions info.regions
      · rw [if_pos room, if_pos room]
        rfl
      · rw [if_neg room, if_neg room]
        rfl
  | ti info =>
      obtain rfl : format = formatTable := fits
      obtain ⟨namePtr, segbase, tableLen, -⟩ := image
      have dynamic : formatTable ≠ formatDynamic := by decide
      simp only [internDynInfo, dif_neg dynamic, dif_pos, read_bind, read_fetchw, ok_bind, second,
        third, namePtr, segbase, tableLen, internArray, Reader.internedUnion]
      by_cases room : r.calloc (info.tableLen.toNat * (w / 8)) = true
      · rw [if_pos room, if_pos room, read_bind, read_attempt_ok (read_fetchWords _ _)]
        rfl
      · rw [if_neg room, if_neg room]
        rfl
  | rti info =>
      obtain ⟨dynamic, table⟩ := fits
      obtain ⟨namePtr, segbase, tableLen, data⟩ := image
      by_cases remote : format = formatRemoteTable
      · simp only [internDynInfo, dif_neg dynamic, dif_neg table, if_pos remote, read_bind,
          read_fetchw, ok_bind, second, third, namePtr, segbase, tableLen, data, read_pure,
          Reader.internedUnion]
      · simp only [internDynInfo, dif_neg dynamic, dif_neg table, if_neg remote, read_fault,
          Reader.internedUnion]

theorem internedUnion_negative {addr : Word w} {format : BitVec 32} {u : DynUnion w}
    {fits : u.Fits format} {e : Fault} (failed : r.internedUnion mem addr format u fits = .error e) :
    ∃ code, e = .err code := by
  cases u with
  | pi info =>
      simp only [Reader.internedUnion] at failed
      split at failed
      · cases failed
      · exact ⟨.nomem, (Except.error.inj failed).symm⟩
  | ti info =>
      simp only [Reader.internedUnion] at failed
      split at failed
      · cases failed
      · exact ⟨.nomem, (Except.error.inj failed).symm⟩
  | rti info =>
      simp only [Reader.internedUnion] at failed
      split at failed
      · cases failed
      · exact ⟨.noinfo, (Except.error.inj failed).symm⟩

/-- The union of the copy that is made of the entry at an address. -/
def Reader.copiedUnion (r : Reader w) (mem : Memory w) (needUnwindInfo : Bool) (addr : Word w)
    (di : DynInfo w) : Result { u : DynUnion w // u.Fits di.format } :=
  if needUnwindInfo then r.internedUnion mem (ahead addr (5 * (w / 8) + 8)) di.format di.u di.fits
  else .ok (clearUnion w di.format)

/-- The copy that is made of the entry at an address. -/
def Reader.copy (r : Reader w) (mem : Memory w) (needUnwindInfo : Bool) (addr : Word w)
    (di : DynInfo w) : Result (DynInfo w) :=
  (r.copiedUnion mem needUnwindInfo addr di).map fun u => { di with u := u.1, fits := u.2 }

theorem copiedUnion_negative {needUnwindInfo : Bool} {addr : Word w} {di : DynInfo w} {e : Fault}
    (failed : r.copiedUnion mem needUnwindInfo addr di = .error e) : ∃ code, e = .err code := by
  cases needUnwindInfo with
  | false => cases failed
  | true => exact internedUnion_negative failed

end Intern

/-! ## The walk -/

section Walk

variable {r : Reader w} {mem : Memory w} {budget : Nat} {ip : Word w} {needUnwindInfo : Bool}

theorem read_fetchRange {bigEndian : Bool} {addr : Word w} {di : DynInfo w}
    (image : EntryAt bigEndian mem addr di) :
    mem.read (fetchRange addr) =
      .ok (mem addr, di.startIp, di.endIp, ahead addr (4 * (w / 8))) := by
  have second : ahead (ahead addr (w / 8)) (w / 8) = ahead addr (2 * (w / 8)) := by
    rw [ahead_ahead, Nat.two_mul]
  have third : ahead (ahead addr (2 * (w / 8))) (w / 8) = ahead addr (3 * (w / 8)) := by
    rw [ahead_ahead, Nat.succ_mul 2]
  have fourth : ahead (ahead addr (3 * (w / 8))) (w / 8) = ahead addr (4 * (w / 8)) := by
    rw [ahead_ahead, Nat.succ_mul 3]
  have start := image.startIp
  simp only [fetchRange, read_bind, read_fetchw, ok_bind, wsize, second, third, fourth,
    image.startIp, image.endIp, read_pure]

theorem EntriesAt.entry {bigEndian : Bool} {addr : Word w} {entries : List (Word w × DynInfo w)}
    (image : EntriesAt bigEndian mem addr entries) {e : Word w × DynInfo w} (member : e ∈ entries) :
    EntryAt bigEndian mem e.1 e.2 := by
  induction entries generalizing addr with
  | nil => cases member
  | cons e' entries ih =>
      obtain ⟨rfl, -, entry, rest⟩ := image
      cases member with
      | head => exact entry
      | tail _ later => exact ih rest later

/-- The walk ends at the first entry that covers `ip`. -/
theorem read_walk {entries : List (Word w × DynInfo w)} {addr : Word w} (s : Reading w) {n : Nat}
    (long : entries.length < n) (image : EntriesAt r.bigEndian mem addr entries) :
    mem.read (s.walk r budget ip needUnwindInfo n addr) =
      match entries.find? fun e => e.2.Covers ip with
      | none => .ok s
      | some e => mem.read (s.cover r budget ip needUnwindInfo e.2.startIp e.2.endIp
          (ahead e.1 (4 * (w / 8)))) := by
  induction entries generalizing addr n with
  | nil =>
      cases n with
      | zero => exact absurd long (Nat.not_lt_zero _)
      | succ n =>
          have null : addr = 0 := image
          simp only [Reading.walk, if_pos null, read_pure, List.find?_nil]
  | cons e entries ih =>
      cases n with
      | zero => exact absurd long (Nat.not_lt_zero _)
      | succ n =>
          obtain ⟨rfl, there, entry, rest⟩ := image
          simp only [Reading.walk, if_neg there, read_bind, read_attempt_ok (read_fetchRange entry),
            ok_bind]
          by_cases covers : e.2.Covers ip
          · have found : (e :: entries).find? (fun e => e.2.Covers ip) = some e :=
              List.find?_cons_of_pos (by simpa using covers)
            rw [if_pos (show e.2.startIp ≤ ip ∧ ip < e.2.endIp from covers), found]
          · have later : (e :: entries).find? (fun e => e.2.Covers ip) =
                entries.find? fun e => e.2.Covers ip :=
              List.find?_cons_of_neg (by simpa using covers)
            rw [if_neg (show ¬(e.2.startIp ≤ ip ∧ ip < e.2.endIp) from covers), later]
            exact ih (Nat.lt_of_succ_lt_succ long) rest

/-- The covering entry's copy, from a reader that has none yet. -/
theorem read_cover {addr : Word w} {di : DynInfo w} {s : Reading w} (fresh : s.di = none)
    (room : r.calloc (dynInfoSize w) = true) (deep : di.u.regions.length < budget)
    (image : EntryAt r.bigEndian mem addr di) :
    mem.read (s.cover r budget ip needUnwindInfo di.startIp di.endIp (ahead addr (4 * (w / 8)))) =
      match r.copy mem needUnwindInfo addr di with
      | .error _ => .ok { s with di := some (.cleared di.startIp di.endIp di.gp di.format) }
      | .ok copy => mem.read (Reading.extract r ip needUnwindInfo
          { s with di := some (.cleared di.startIp di.endIp 0 0) } copy) := by
  have fifth : ahead (ahead addr (4 * (w / 8))) (w / 8) = ahead addr (5 * (w / 8)) := by
    rw [ahead_ahead, Nat.succ_mul 4]
  have pad : ahead (ahead addr (5 * (w / 8))) 4 + 4 = ahead addr (5 * (w / 8) + 8) :=
    (ahead_ahead _ 4 4).trans (by rw [ahead_ahead])
  have allocated : mem.read (s.allocate r di.startIp di.endIp) =
      .ok { s with di := some (.cleared di.startIp di.endIp 0 0) } := by
    rw [Reading.allocate, fresh]
    simp only [room, if_true, read_pure]
  have format : mem.read (fetchFormat r (ahead addr (4 * (w / 8)))) =
      .ok (di.gp, di.format, ahead (ahead addr (5 * (w / 8))) 4) := by
    simp only [fetchFormat, read_bind, read_fetchw, ok_bind, fifth, read_fetch32 image.format,
      image.gp, read_pure]
  simp only [Reading.cover_eq, read_bind, allocated, ok_bind, read_attempt_ok format, pad]
  have union (tableData : Option (List (Word w))) : mem.read (if needUnwindInfo then
      internDynInfo r budget (ahead addr (5 * (w / 8) + 8)) di.format tableData
      else pure (clearUnion w di.format)) = r.copiedUnion mem needUnwindInfo addr di := by
    cases needUnwindInfo with
    | false => rfl
    | true => exact read_internDynInfo tableData deep di.fits image.u
  rw [Reader.copy]
  cases copied : r.copiedUnion mem needUnwindInfo addr di with
  | ok u => 
      rw [read_attempt_ok ((union _).trans copied)]
      rfl
  | error e =>
      obtain ⟨code, rfl⟩ := copiedUnion_negative copied
      rw [read_attempt_err ((union _).trans copied)]
      rfl

theorem read_rounds {entries : List (Word w × DynInfo w)} {addr : Word w} {s : Reading w} {n : Nat}
    (long : entries.length < budget) (image : ListAt r.bigEndian mem addr entries)
    (head : HeadSeen mem addr) :
    mem.read (Reading.rounds r budget ip needUnwindInfo addr (n + 1) s) =
      (match entries.find? fun e => e.2.Covers ip with
      | none => .ok { s with ret := .error .noinfo }
      | some e => mem.read (Reading.cover r budget ip needUnwindInfo
          { s with ret := .error .noinfo } e.2.startIp e.2.endIp (ahead e.1 (4 * (w / 8)))) :
        Result (Reading w)) >>= fun s =>
          .ok ⟨s, s.ret.toBool = false ∧ s.di.isSome⟩ := by
  have headed : mem.read (fetchHead addr) = .ok (mem addr, mem (ahead addr 8)) := by
    simp only [fetchHead, read_bind, read_fetchw, ok_bind, read_pure]
    rw [show mem (ahead addr (w / 8)) = mem (ahead addr 8) from head]
  simp only [Reading.rounds, read_bind, read_attempt_ok headed, ok_bind, read_walk _ long image,
    read_attempt_ok (read_fetchw addr), ne_eq, not_true_eq_false, if_false, read_pure]

end Walk

/-! ## The two lookups -/

/-- Both return the same code, and on success the same info. -/
def Agree (o o' : Outcome w) : Prop :=
  (o.ret = .ok () ∧ o'.ret = .ok () ∧ o.pi = o'.pi) ∨
    ∃ code, o.ret = .error (.err code) ∧ o'.ret = .error (.err code)

/-- The outcome of a call that started with `pi`. -/
def outcomeOf (pi : ProcInfo w) : Result (Returned w) → Outcome w
  | .ok result => result.outcome
  | .error e => { ret := .error e, pi }

/-- The remote lookup has one code for every failure. -/
def Outcome.settled (pi : ProcInfo w) (o : Outcome w) : Outcome w :=
  match o.ret with
  | .ok () => o
  | .error (.err _) => { o with ret := .error (.err .noinfo) }
  | .error e => { ret := .error e, pi }

/-- What the remote lookup finds in an image. -/
def Reader.lookup (r : Reader w) (mem : Memory w) (ip : Word w) (pi : ProcInfo w)
    (needUnwindInfo : Bool) (entries : List (Word w × DynInfo w)) : Outcome w :=
  match entries.find? fun e => e.2.Covers ip with
  | none => { ret := .error (.err .noinfo), pi }
  | some e =>
      if r.calloc (dynInfoSize w) then
        match r.copy mem needUnwindInfo e.1 e.2 with
        | .ok copy => (extractDynamicProcInfo r.search ip pi copy needUnwindInfo).settled pi
        | .error _ => { ret := .error (.err .noinfo), pi }
      else { ret := .error .undefined, pi }

section Lookups

variable {r : Reader w} {mem : Memory w} {budget : Nat} {ip known addr : Word w}
  {listAddr : Except UnwError (Word w)} {pi : ProcInfo w} {needUnwindInfo : Bool}
  {entries : List (Word w × DynInfo w)}

theorem outcomeOf_extract (s : Reading w) (copy : DynInfo w) (old : s.ret = .error .noinfo) :
    outcomeOf s.pi (mem.read (s.extract r ip needUnwindInfo copy) >>= fun s =>
      .ok ⟨s, s.ret.toBool = false ∧ s.di.isSome⟩) =
      (extractDynamicProcInfo r.search ip s.pi copy needUnwindInfo).settled s.pi := by
  unfold Reading.extract Outcome.settled
  generalize extractDynamicProcInfo r.search ip s.pi copy needUnwindInfo = o
  obtain ⟨ret, pi⟩ := o
  cases ret with
  | ok u => rfl
  | error e =>
      cases e with
      | err code =>
          simp only [read_pure, ok_bind, outcomeOf, Returned.outcome, old, ofAccess_error]
      | undefined => rfl
      | timeout => rfl

/-- The remote lookup of an image: enough rounds, and room for the copy of any entry. -/
theorem outcomeOf_remote (given : dynListAddr known listAddr = .ok addr)
    (long : entries.length < budget) (deep : ∀ e ∈ entries, e.2.u.regions.length < budget)
    (image : ListAt r.bigEndian mem addr entries) (head : HeadSeen mem addr) :
    outcomeOf pi (mem.read (remoteFindProcInfo r budget ip needUnwindInfo known listAddr pi)) =
      r.lookup mem ip pi needUnwindInfo entries := by
  obtain ⟨n, rfl⟩ : ∃ n, budget = n + 1 := Nat.exists_eq_add_one.mpr (Nat.zero_lt_of_lt long)
  rw [remoteFindProcInfo, given, read_rounds long image head, Reader.lookup]
  cases found : entries.find? fun e => e.2.Covers ip with
  | none => rfl
  | some e =>
      have member := List.mem_of_find?_eq_some found
      by_cases room : r.calloc (dynInfoSize w) = true
      · have fresh : ({ ret := .error .noinfo, pi, di := none } : Reading w).di = none := rfl
        simp only [room, if_true]
        rw [read_cover fresh room (deep e member) (image.entry member)]
        cases copied : r.copy mem needUnwindInfo e.1 e.2 with
        | ok copy => exact outcomeOf_extract { ret := .error .noinfo, pi, di := _ } copy rfl
        | error _ => rfl
      · simp only [Reading.cover, Reading.allocate, room, read_bind]
        rfl

/-- What the search of a table starts with. -/
def DynInfo.described (di : DynInfo w) (pi : ProcInfo w) : ProcInfo w :=
  { pi with startIp := di.startIp, endIp := di.endIp, gp := di.gp, format := di.format }

/-- When a lookup is the same for the entry at an address and for its copy. The copy
    of a procedure has its regions, handler and flags only where unwind info is asked
    for; otherwise, the target's search has to find the same in both tables, and
    nothing where there is no copy. -/
def Reader.CopyServes (r : Reader w) (localSearch : TableSearch w) (mem : Memory w) (ip : Word w)
    (pi : ProcInfo w) (needUnwindInfo : Bool) (addr : Word w) (di : DynInfo w) : Prop :=
  match di.u with
  | .pi info =>
      if needUnwindInfo then r.HoldsRegions info.regions
      else info.handler = 0 ∧ info.flags.setWidth w = 0
  | _ => Searched di.format ∧
      match r.copy mem needUnwindInfo addr di with
      | .ok copy => Agree (localSearch ip di (di.described pi) needUnwindInfo)
          ((r.search ip copy (copy.described pi) needUnwindInfo).settled pi)
      | .error _ =>
          (localSearch ip di (di.described pi) needUnwindInfo).ret = .error (.err .noinfo)

/-- The first entry that covers `ip`, if any, has a copy that serves. -/
def Reader.ListServes (r : Reader w) (localSearch : TableSearch w) (mem : Memory w) (ip : Word w)
    (pi : ProcInfo w) (needUnwindInfo : Bool) (entries : List (Word w × DynInfo w)) : Prop :=
  ∀ e, (entries.find? fun e => e.2.Covers ip) = some e →
    r.calloc (dynInfoSize w) = true ∧ r.CopyServes localSearch mem ip pi needUnwindInfo e.1 e.2

theorem agree_noinfo_iff {o : Outcome w} :
    Agree o { ret := .error (.err .noinfo), pi } ↔ o.ret = .error (.err .noinfo) := by
  constructor
  · rintro (⟨-, failed, -⟩ | ⟨code, ret, failed⟩)
    · cases failed
    · rw [ret]
      exact failed.symm
  · exact fun ret => .inr ⟨.noinfo, ret, rfl⟩

theorem not_agree_undefined {o : Outcome w} : ¬Agree o { ret := .error .undefined, pi } := by
  rintro (⟨-, failed, -⟩ | ⟨code, -, failed⟩) <;> cases failed

theorem not_agree_inval {o : Outcome w} {pi' : ProcInfo w} :
    ¬Agree { ret := .error (.err .inval), pi := pi' } (o.settled pi) := by
  rintro (⟨failed, -, -⟩ | ⟨code, failed, settled⟩)
  · cases failed
  · cases failed
    unfold Outcome.settled at settled
    split at settled <;> simp_all

theorem extract_search {search : TableSearch w} {di : DynInfo w}
    (other : di.format ≠ formatDynamic) :
    extractDynamicProcInfo search ip pi di needUnwindInfo =
      if Searched di.format then search ip di (di.described pi) needUnwindInfo
      else { ret := .error (.err .inval), pi := di.described pi } := by
  obtain ⟨startIp, endIp, gp, format, u, fits⟩ := di
  cases u with
  | pi info => exact absurd fits other
  | ti info => rfl
  | rti info => rfl

theorem copy_format {di copy : DynInfo w} (copied : r.copy mem needUnwindInfo addr di = .ok copy) :
    copy.format = di.format := by
  unfold Reader.copy at copied
  cases union : r.copiedUnion mem needUnwindInfo addr di with
  | ok u =>
      rw [union] at copied
      cases copied
      rfl
  | error e =>
      rw [union] at copied
      cases copied

/-- The lookup of a table, and of a format without one. -/
theorem agree_search_iff {localSearch : TableSearch w} {di : DynInfo w}
    (other : di.format ≠ formatDynamic) :
    Agree (extractDynamicProcInfo localSearch ip pi di needUnwindInfo)
        (match r.copy mem needUnwindInfo addr di with
        | .ok copy => (extractDynamicProcInfo r.search ip pi copy needUnwindInfo).settled pi
        | .error _ => { ret := .error (.err .noinfo), pi }) ↔
      Searched di.format ∧
        match r.copy mem needUnwindInfo addr di with
        | .ok copy => Agree (localSearch ip di (di.described pi) needUnwindInfo)
            ((r.search ip copy (copy.described pi) needUnwindInfo).settled pi)
        | .error _ =>
            (localSearch ip di (di.described pi) needUnwindInfo).ret = .error (.err .noinfo) := by
  rw [extract_search other]
  cases copied : r.copy mem needUnwindInfo addr di with
  | ok copy =>
      have format := copy_format copied
      dsimp only
      rw [extract_search (format ▸ other), format]
      by_cases searched : Searched di.format
      · simp only [searched, if_true, true_and]
      · simp only [searched, if_false, false_and, iff_false]
        exact not_agree_inval
  | error e =>
      by_cases searched : Searched di.format
      · simp only [searched, if_true, true_and]
        exact agree_noinfo_iff
      · simp only [searched, if_false, false_and, iff_false]
        exact fun agree => nomatch agree_noinfo_iff.mp agree

theorem agree_copy_iff {localSearch : TableSearch w} {di : DynInfo w} :
    Agree (extractDynamicProcInfo localSearch ip pi di needUnwindInfo)
        (match r.copy mem needUnwindInfo addr di with
        | .ok copy => (extractDynamicProcInfo r.search ip pi copy needUnwindInfo).settled pi
        | .error _ => { ret := .error (.err .noinfo), pi }) ↔
      r.CopyServes localSearch mem ip pi needUnwindInfo addr di := by
  obtain ⟨startIp, endIp, gp, format, u, fits⟩ := di
  cases u with
  | pi info =>
      obtain rfl : format = formatDynamic := fits
      cases needUnwindInfo with
      | true =>
          by_cases room : r.HoldsRegions info.regions
          · simp [Reader.copy, Reader.copiedUnion, Reader.internedUnion, room, Except.map,
              extractDynamicProcInfo, Outcome.settled, Agree, Reader.CopyServes]
          · simp [Reader.copy, Reader.copiedUnion, Reader.internedUnion, room, Except.map,
              extractDynamicProcInfo, Agree, Reader.CopyServes]
      | false =>
          simp [Reader.copy, Reader.copiedUnion, clearUnion, Except.map,
              extractDynamicProcInfo, Outcome.settled, Agree, Reader.CopyServes]
  | ti info => exact agree_search_iff fun dynamic => nomatch fits.symm.trans dynamic
  | rti info => exact agree_search_iff fits.1

end Lookups

/-! ## A procedure with a personality routine -/

namespace OneProcedure

def procInfo : DynProcInfo 64 where
  namePtr := 0
  handler := 0x500000
  flags := 1
  regions := [{ insnCount := 0x40, op := [⟨4, 0, 7, 1, -16⟩] }]

def entry : DynInfo 64 where
  startIp := 0x400000
  endIp := 0x400100
  gp := 0
  format := formatDynamic
  u := .pi procInfo
  fits := rfl

/-- The list is at `0x1000`, its only entry at `0x2000`, and the region at `0x3000`. -/
def image : Memory 64 := fun addr =>
  match addr.toNat with
  | 0x1000 => 0x0000000100000001
  | 0x1008 => 0x2000
  | 0x2010 => 0x400000
  | 0x2018 => 0x400100
  | 0x2038 => 0x500000
  | 0x2040 => 1
  | 0x2048 => 0x3000
  | 0x3008 => 0x0000000100000040
  | 0x3010 => 0x0000000100070004
  | 0x3018 => -16
  | _ => 0

def reader : Reader 64 where
  bigEndian := false
  calloc _ := true
  search _ _ pi _ := { ret := .error (.err .noinfo), pi }

theorem imageAt : ListAt false image 0x1000 [(0x2000, entry)] := by
  have op : OpAt false image 0x3010 ⟨4, 0, 7, 1, -16⟩ :=
    ⟨by decide, by decide, by decide, by decide, by decide⟩
  have last : image 0x3000 = 0 := by decide
  have regions : RegionsAt false image 0x3000 procInfo.regions :=
    ⟨by decide, by decide, ⟨1, by decide, by decide⟩, ⟨op, trivial⟩, last⟩
  have u : UnionAt false image 0x2030 entry.u :=
    ⟨by decide, by decide, by decide, regions⟩
  have alone : image 0x2000 = 0 := by decide
  exact ⟨by decide, by decide, ⟨by decide, by decide, by decide, by decide, u⟩, alone⟩

end OneProcedure

end Libunwind.Dyn
