import Libunwind.Dwarf.CfiProgram

/-! # Cursors and save locations

A cursor describes one frame: its CFA, its instruction pointer, and for each
preserved register the location of its value. What the headers of a target
define is a `Target`.
-/

namespace Libunwind.Dwarf

/-- `DWARF_LOC_TYPE_*`. -/
inductive LocType where
  | mem
  | reg
  | fpreg
  | val
  deriving DecidableEq, Repr, Inhabited

/-- `dwarf_loc_t`. -/
structure Loc (w : Nat) where
  val : Word w
  type : LocType := .mem
  deriving DecidableEq, Repr, Inhabited

/-- `DWARF_NULL_LOC`. -/
def nullLoc {w : Nat} : Loc w := ⟨0, .mem⟩

/-- `DWARF_MEM_LOC`. -/
def memLoc {w : Nat} (addr : Word w) : Loc w := ⟨addr, .mem⟩

/-- `dwarf_cursor_t`; `tdep` is what the target's cursor has besides it. -/
structure Cursor (n w : Nat) (τ : Type) where
  cfa : Word w
  ip : Word w
  /-- The entries of `eh_args` that `eh_valid_mask` marks as set. -/
  ehArgs : Nat → Option (Word w) := fun _ => none
  loc : Fin n → Loc w
  stashFrames : Bool := false
  usePrevInstr : Bool := true
  piValid : Bool := false
  piIsDynamic : Bool := false
  pi : ProcInfo w := {}
  hint : BitVec 16 := 0
  prevRs : BitVec 16 := 0
  tdep : τ

/-- What a target's headers and its register access define. -/
structure Target (n w : Nat) (τ : Type) where
  cfi : CfiTarget n
  /-- `UNW_LOCAL_ONLY`: a location is null by its value alone. -/
  localOnly : Bool := false
  /-- The target has `DWARF_VAL_LOC`; on the others it is `DWARF_NULL_LOC`. -/
  valLocs : Bool := true
  /-- `DWARF_REG_LOC`. -/
  regLoc : Int → Loc w := fun r => ⟨BitVec.ofInt w r, .reg⟩
  /-- `dwarf_to_unw_regnum`. -/
  toUnwRegnum : Int → Result Int
  /-- `UNW_REG_IP`. -/
  regIp : Int
  /-- `tdep_access_reg`, for reading. -/
  accessReg : AddrSpace w → Cursor n w τ → Int → Result (Word w)
  /-- On s390x, the location of a register that is saved in a floating-point one. -/
  fpregLoc : Word w → Option (Loc w) := fun _ => none
  /-- `tdep_strip_ptrauth_insn_mask`. -/
  stripPtrauth : Cursor n w τ → Word w → Word w := fun _ ip => ip
  /-- `tdep_fetch_frame`, `tdep_cache_frame` and `tdep_reuse_frame`; most targets
      define them to do nothing. -/
  fetchFrame : Cursor n w τ → τ := fun c => c.tdep
  cacheFrame : Cursor n w τ → Bool := fun _ => false
  reuseFrame : Cursor n w τ → Bool → τ := fun c _ => c.tdep
  /-- `tdep_stash_frame`. -/
  stashFrame : AddrSpace w → Cursor n w τ → RegState n w → τ := fun _ c _ => c.tdep

variable {n w : Nat} {τ : Type}

/-- `DWARF_IS_REG_LOC`. -/
def Loc.isReg (loc : Loc w) : Bool :=
  loc.type == .reg || loc.type == .fpreg

/-- `DWARF_IS_NULL_LOC`. -/
def Loc.isNull (localOnly : Bool) (loc : Loc w) : Bool :=
  loc.val == 0 && (localOnly || loc.type == .mem)

/-- `dwarf_get`. -/
def Loc.get (localOnly : Bool) (as : AddrSpace w) (loc : Loc w) : Result (Word w) :=
  if loc.isNull localOnly then .error (.err .badreg)
  else
    match loc.type with
    | .reg => ofAccess (as.accessReg (loc.val.setWidth 32).toInt)
    | .fpreg => ofAccess (as.accessFpreg (loc.val.setWidth 32).toInt)
    | .mem => ofAccess (as.accessMem loc.val)
    | .val => pure loc.val

@[simp] theorem Loc.isNull_nullLoc (localOnly : Bool) :
    (nullLoc : Loc w).isNull localOnly = true := by
  simp [Loc.isNull, nullLoc]

/-- `ACCESS_MEM_FAST`. Code that is local only reads memory by a plain load,
    unless it validates, and a load that faults has no result. -/
def accessMemFast (localOnly validate : Bool) (as : AddrSpace w) (addr : Word w) :
    Result (Word w) :=
  if localOnly && !validate then
    match as.accessMem addr with
    | .ok value => pure value
    | .error _ => .error .undefined
  else (memLoc addr).get localOnly as

/-- The null page is not mapped. -/
def NullUnmapped (as : AddrSpace w) : Prop := ∀ val, as.accessMem 0 ≠ .ok val

namespace NullUnmapped

variable {as : AddrSpace w} {localOnly validate : Bool} {addr val : Word w}

theorem get_memLoc (null : NullUnmapped as) :
    (memLoc addr).get localOnly as = .ok val ↔ as.accessMem addr = .ok val := by
  by_cases zero : addr = 0
  · subst zero
    exact iff_of_false (by simp [Loc.get, Loc.isNull, memLoc]) (null val)
  · have located : (memLoc addr : Loc w).isNull localOnly = false := by
      simp only [Loc.isNull, memLoc, beq_eq_false_iff_ne.mpr zero, Bool.false_and]
    rw [Loc.get, located]
    cases stored : as.accessMem addr <;> simp [memLoc, stored]

theorem accessMemFast (null : NullUnmapped as) :
    accessMemFast localOnly validate as addr = .ok val ↔ as.accessMem addr = .ok val := by
  rw [Dwarf.accessMemFast]
  split
  · cases stored : as.accessMem addr <;> simp
  · exact null.get_memLoc

end NullUnmapped

namespace Target

/-- `DWARF_VAL_LOC`. -/
def valLoc (t : Target n w τ) (val : Word w) : Loc w :=
  if t.valLocs then ⟨val, .val⟩ else nullLoc

/-- `unw_get_reg`. -/
def getReg (t : Target n w τ) (as : AddrSpace w) (c : Cursor n w τ) (regnum : Int) :
    Result (Word w) :=
  if regnum = t.regIp then pure c.ip else t.accessReg as c regnum

end Target

/-- A target whose registers have their DWARF numbers, and are read from their
    locations. -/
def plainTarget (n w : Nat) (sp : Fin n) (regIp : Int) : Target n w Unit where
  cfi := { sp }
  toUnwRegnum r := .ok r
  regIp := regIp
  accessReg as c r :=
    if valid : 0 ≤ r ∧ r.toNat < n then (c.loc ⟨r.toNat, valid.2⟩).get false as
    else .error (.err .badreg)

end Libunwind.Dwarf
