import Libunwind.Arm.ExDecode

/-! # The bytecode against the ABI

A cursor stands for a state of the ABI's interpreter, and each command acts on it as the
instruction that it was made of, if that instruction pops no VFP registers from `d16` on:
the flag for them is set in the data word, and nothing reads it.
-/

namespace Libunwind.Arm

open Ehabi

variable {τ : Type}

/-! ## Pops -/

section Pops

theorem popEach_cfa (size : Nat) (slots : List (Option (Fin 128))) (c : Cursor τ) :
    (popEach (BitVec.ofNat 32 size) slots c).cfa =
      c.cfa + BitVec.ofNat 32 (size * slots.length) := by
  induction slots generalizing c with
  | nil => simp [popEach]
  | cons slot slots ih =>
      rw [popEach, ih, BitVec.add_assoc, ← BitVec.ofNat_add, List.length_cons, Nat.mul_succ,
        Nat.add_comm]

theorem popEach_other {size : Word 32} {slots : List (Option (Fin 128))} {slot : Fin 128}
    (other : some slot ∉ slots) (c : Cursor τ) : (popEach size slots c).loc slot = c.loc slot := by
  induction slots generalizing c with
  | nil => rfl
  | cons first slots ih =>
      obtain ⟨notFirst, notLater⟩ := not_or.mp (mt List.mem_cons.mpr other)
      rw [popEach, ih notLater]
      cases first with
      | none => rfl
      | some r =>
          apply Function.update_of_ne
          intro same
          exact notFirst (congrArg some same)

theorem popEach_loc {regs : List Nat} (size : Nat) (slotOf : Nat → Fin 128) (r : Nat)
    (distinct : regs.Nodup) (apart : ∀ a ∈ regs, slotOf a = slotOf r → a = r) (c : Cursor τ) :
    (popEach (BitVec.ofNat 32 size) (regs.map fun i => some (slotOf i)) c).loc (slotOf r) =
      if r ∈ regs then Dwarf.memLoc (c.cfa + BitVec.ofNat 32 (size * regs.idxOf r))
      else c.loc (slotOf r) := by
  induction regs generalizing c with
  | nil => simp [popEach]
  | cons a regs ih =>
      obtain ⟨first, distinct⟩ := List.nodup_cons.mp distinct
      have later := ih distinct fun b member => apart b (List.mem_cons_of_mem a member)
      rw [List.map_cons, popEach, later]
      by_cases here : r = a
      · subst here
        simp [first, popLoc]
      · have notHere : slotOf r ≠ slotOf a := by
          intro same
          exact here (apart a List.mem_cons_self same.symm).symm
        have index : (a :: regs).idxOf r = regs.idxOf r + 1 := List.idxOf_cons_ne regs (Ne.symm here)
        by_cases member : r ∈ regs
        · simp only [member, here, List.mem_cons, or_true, if_true, index, Nat.mul_succ]
          rw [BitVec.add_assoc, ← BitVec.ofNat_add, Nat.add_comm size]
        · simp [member, here, notHere, popLoc]

end Pops

/-! ## States -/

section Abs

variable (localOnly : Bool) (as : AddrSpace 32)

/-- A location, unless it is null. -/
def place (loc : Dwarf.Loc 32) : Place := if loc.isNull localOnly then none else some loc

/-- The state that a cursor stands for. -/
def abs (c : Cursor τ) : State where
  vsp := c.cfa
  core r := if r < 16 then place localOnly (c.loc (coreSlot r)) else none
  doubles r := if r < 32 then place localOnly (c.loc (vfpSlot r)) else none

/-- A register's value, where it is found. -/
def load (loc : Dwarf.Loc 32) : Result (Word 32) := loc.get localOnly as

end Abs

section Fits

variable (load : Dwarf.Loc 32 → Result (Word 32)) (s : State)

/-- Nothing is popped from address 0, which makes a null location. -/
def NonNull (size count : Nat) : Prop := ∀ k < count, s.vsp + BitVec.ofNat 32 (size * k) ≠ 0

/-- What the code takes for granted of an instruction: what is loaded into the stack pointer
    can be read, and no VFP register from `d16` on is popped. -/
def InstrFits : Instr → Prop
  | .popCore regs => NonNull s 4 regs.length ∧
      (13 ∈ regs → ∃ vsp, value load (popped s.vsp 4 regs s.core 13) = .ok vsp)
  | .vspFrom reg => ∃ vsp, value load (s.core reg) = .ok vsp
  | .popDoubles first count _ => NonNull s 8 count ∧ first < 16
  | _ => True

/-- The next instruction fits. -/
def Fits (s : Config) : Prop :=
  ∀ op rest instr rest', s.1 = op :: rest → readInstr op.toNat rest = .ok (instr, rest') →
    InstrFits load s.2 instr

end Fits

section Apply

variable {localOnly : Bool} {as : AddrSpace 32} {c : Cursor τ} {edata : ArmExbufData}

theorem value_place (loc : Dwarf.Loc 32) :
    value (load localOnly as) (place localOnly loc) = loc.get localOnly as := by
  cases null : loc.isNull localOnly with
  | true => simp [place, null, value, Dwarf.Loc.get]
  | false => simp [place, null, value, load]

theorem place_memLoc {addr : Word 32} (nonNull : addr ≠ 0) :
    place localOnly (Dwarf.memLoc addr) = some (Dwarf.memLoc addr) := by
  have located : (Dwarf.memLoc addr).isNull localOnly = false := by
    simp only [Dwarf.Loc.isNull, Dwarf.memLoc, beq_eq_false_iff_ne.mpr nonNull, Bool.false_and]
  simp [place, located]

theorem getOr_of_ok {loc : Dwarf.Loc 32} {val old : Word 32}
    (found : loc.get localOnly as = .ok val) : getOr localOnly as loc old = val := by
  rw [getOr, found]

theorem coreSlot_inj {a r : Nat} (small : a < 16) (small' : r < 16)
    (same : coreSlot a = coreSlot r) : a = r := by
  have values := congrArg Fin.val same
  simp only [coreSlot, Fin.val_ofNat] at values
  omega

theorem vfpSlot_inj {a r : Nat} (small : a < 32) (small' : r < 32)
    (same : vfpSlot a = vfpSlot r) : a = r := by
  have values := congrArg Fin.val same
  simp only [vfpSlot, Fin.val_ofNat] at values
  omega

theorem coreSlot_ne_vfpSlot {a r : Nat} (small : a < 16) (small' : r < 32) :
    coreSlot a ≠ vfpSlot r := by
  intro same
  have values := congrArg Fin.val same
  simp only [coreSlot, vfpSlot, Fin.val_ofNat] at values
  omega

theorem popped_of_mem {vsp : Word 32} {size : Nat} {regs : List Nat} {places : Nat → Place}
    {r : Nat} (member : r ∈ regs)
    (nonNull : ∀ k < regs.length, vsp + BitVec.ofNat 32 (size * k) ≠ 0) :
    popped vsp size regs places r =
      place localOnly (Dwarf.memLoc (vsp + BitVec.ofNat 32 (size * regs.idxOf r))) := by
  rw [popped, if_pos member, place_memLoc (nonNull _ (List.idxOf_lt_length_of_mem member))]

/-- Core registers are popped to where the ABI says. -/
theorem abs_popCore {regs : List Nat} (distinct : regs.Nodup) (core : ∀ r ∈ regs, r < 16)
    (nonNull : NonNull (abs localOnly c) 4 regs.length) :
    abs localOnly (popEach 4 (regs.map fun i => some (coreSlot i)) c) =
      { abs localOnly c with
        vsp := c.cfa + BitVec.ofNat 32 (4 * regs.length)
        core := popped c.cfa 4 regs (abs localOnly c).core } := by
  have vsp := popEach_cfa 4 (regs.map fun i => some (coreSlot i)) c
  have others : ∀ r < 32, (popEach 4 (regs.map fun i => some (coreSlot i)) c).loc (vfpSlot r) =
      c.loc (vfpSlot r) := by
    intro r small
    apply popEach_other
    intro member
    obtain ⟨a, isCore, same⟩ := List.mem_map.mp member
    exact coreSlot_ne_vfpSlot (core a isCore) small (Option.some.inj same)
  rw [List.length_map] at vsp
  simp only [abs, State.mk.injEq]
  refine ⟨vsp, funext fun r => ?_, funext fun r => ?_⟩
  · by_cases small : r < 16
    · have found := popEach_loc 4 coreSlot r distinct
        (fun a member same => coreSlot_inj (core a member) small same) c
      rw [if_pos small]
      by_cases member : r ∈ regs
      · have nonNull : ∀ k < regs.length, c.cfa + BitVec.ofNat 32 (4 * k) ≠ 0 := nonNull
        rw [popped_of_mem member nonNull]
        rw [if_pos member] at found
        exact congrArg (place localOnly) found
      · rw [if_neg member] at found
        simp only [popped, member, if_false, small, if_true]
        exact congrArg (place localOnly) found
    · have notMember : r ∉ regs := fun member => small (core r member)
      simp [popped, notMember, small]
  · by_cases small : r < 32
    · simp only [small, if_true, others r small]
    · simp only [small, if_false]

/-- VFP registers are popped to where the ABI says, if they are the ones that it says. -/
theorem abs_popVfp {first count : Nat} (vfp : first + count ≤ 32)
    (nonNull : NonNull (abs localOnly c) 8 count) :
    abs localOnly (popEach 8 ((List.range' first count).map fun i => some (vfpSlot i)) c) =
      { abs localOnly c with
        vsp := c.cfa + BitVec.ofNat 32 (8 * count)
        doubles := popped c.cfa 8 (List.range' first count) (abs localOnly c).doubles } := by
  have vsp := popEach_cfa 8 ((List.range' first count).map fun i => some (vfpSlot i)) c
  have range : ∀ r ∈ List.range' first count, r < 32 := by
    intro r member
    have bounds := List.mem_range'_1.mp member
    omega
  have others : ∀ r < 16,
      (popEach 8 ((List.range' first count).map fun i => some (vfpSlot i)) c).loc (coreSlot r) =
        c.loc (coreSlot r) := by
    intro r small
    apply popEach_other
    intro member
    obtain ⟨a, isVfp, same⟩ := List.mem_map.mp member
    exact coreSlot_ne_vfpSlot small (range a isVfp) (Option.some.inj same).symm
  rw [List.length_map, List.length_range'] at vsp
  simp only [abs, State.mk.injEq]
  refine ⟨vsp, funext fun r => ?_, funext fun r => ?_⟩
  · by_cases small : r < 16
    · simp only [small, if_true, others r small]
    · simp only [small, if_false]
  · by_cases small : r < 32
    · have found := popEach_loc 8 vfpSlot r List.nodup_range'
        (fun a member same => vfpSlot_inj (range a member) small same) c
      rw [if_pos small]
      by_cases member : r ∈ List.range' first count
      · have nonNull : ∀ k < (List.range' first count).length,
            c.cfa + BitVec.ofNat 32 (8 * k) ≠ 0 := by
          rw [List.length_range']
          exact nonNull
        rw [popped_of_mem member nonNull]
        rw [if_pos member] at found
        exact congrArg (place localOnly) found
      · rw [if_neg member] at found
        simp only [popped, member, if_false, small, if_true]
        exact congrArg (place localOnly) found
    · have notMember : r ∉ List.range' first count := fun member => small (range r member)
      simp [popped, notMember, small]

/-- What is popped without being kept only moves the stack pointer. -/
theorem abs_popNone (size : Nat) (items : List Nat) (c : Cursor τ) :
    abs localOnly (popEach (BitVec.ofNat 32 size) (items.map fun _ => none) c) =
      { abs localOnly c with vsp := c.cfa + BitVec.ofNat 32 (size * items.length) } := by
  have vsp := popEach_cfa size (items.map fun _ => none) c
  have others (slot : Fin 128) :
      (popEach (BitVec.ofNat 32 size) (items.map fun _ => none) c).loc slot = c.loc slot :=
    popEach_other (by simp) c
  rw [List.length_map] at vsp
  simp only [abs, others, vsp]

theorem core_abs {r : Nat} (small : r < 16) :
    (abs localOnly c).core r = place localOnly (c.loc (coreSlot r)) := if_pos small

theorem core_update {r : Nat} (small : r < 16) (loc : Dwarf.Loc 32) :
    (abs localOnly { c with loc := Function.update c.loc (coreSlot r) loc }) =
      { abs localOnly c with
        core := Function.update (abs localOnly c).core r (place localOnly loc) } := by
  simp only [abs, State.mk.injEq, true_and]
  constructor
  · funext a
    by_cases same : a = r
    · subst same
      simp [small]
    · rw [Function.update_of_ne same]
      by_cases smallA : a < 16
      · have apart : coreSlot a ≠ coreSlot r := fun equal => same (coreSlot_inj smallA small equal)
        simp [smallA, apart]
      · simp [smallA]
  · funext a
    by_cases smallA : a < 32
    · have apart : vfpSlot a ≠ coreSlot r := (coreSlot_ne_vfpSlot small smallA).symm
      simp [smallA, apart]
    · simp [smallA]

theorem apply_popCore {data : Word 32} {regs : List Nat}
    (isRegs : (List.range 16).filter data.getLsbD = regs)
    (fits : InstrFits (load localOnly as) (abs localOnly c) (.popCore regs)) :
    execute (load localOnly as) (abs localOnly c) (.popCore regs) =
      (armExidxApplyCmd localOnly as ⟨.regPop, data⟩ c).map (abs localOnly) := by
  obtain ⟨nonNull, loads⟩ := fits
  have distinct : regs.Nodup := isRegs ▸ List.nodup_range.filter _
  have core : ∀ r ∈ regs, r < 16 := by
    intro r member
    rw [← isRegs] at member
    exact List.mem_range.mp (List.mem_of_mem_filter member)
  have isSp : 13 ∈ regs ↔ data.getLsbD 13 = true := by simp [← isRegs]
  let restored : Cursor τ := popEach 4 (regs.map fun i => some (coreSlot i)) c
  have saved : abs localOnly restored = _ := abs_popCore distinct core nonNull
  simp only [execute, armExidxApplyCmd, Except.map, isRegs]
  by_cases sp : data.getLsbD 13 = true
  · obtain ⟨vsp, loaded⟩ := loads (isSp.mpr sp)
    have found : (restored.loc (coreSlot 13)).get localOnly as = .ok vsp := by
      rw [← loaded, ← value_place, ← core_abs (by omega), saved]
      rfl
    have moved : abs localOnly { restored with cfa := vsp } =
        { abs localOnly restored with vsp } := rfl
    rw [saved] at moved
    rw [if_pos sp, if_pos (isSp.mpr sp), loaded, getOr_of_ok found]
    exact congrArg Except.ok moved.symm
  · rw [if_neg sp, if_neg (mt isSp.mp sp)]
    exact congrArg Except.ok saved.symm

/-- The command for an instruction does what the instruction does. -/
theorem apply_refines {instr : Instr} (means : Means edata instr)
    (fits : InstrFits (load localOnly as) (abs localOnly c) instr) :
    execute (load localOnly as) (abs localOnly c) instr =
      (armExidxApplyCmd localOnly as edata c).map (abs localOnly) := by
  obtain ⟨cmd, data⟩ := edata
  cases instr with
  | up offset =>
      cases means
      rfl
  | down offset =>
      cases means
      rfl
  | refuse =>
      cases means
      rfl
  | spare =>
      cases means
      rfl
  | popWmmx count =>
      obtain ⟨rfl, rfl⟩ := means
      have moved : abs localOnly (popEach 8 _ c) = _ :=
        abs_popNone 8 (List.range' (exbufStart data) (exbufCount data + 1)) c
      rw [List.length_range'] at moved
      exact congrArg Except.ok moved.symm
  | popWmmxControl count =>
      obtain ⟨rfl, rfl⟩ := means
      exact congrArg Except.ok (abs_popNone 4 ((List.range 4).filter data.getLsbD) c).symm
  | popDoubles first count format =>
      obtain ⟨rfl, start, rfl, double⟩ := means
      obtain ⟨nonNull, low⟩ := fits
      have few : exbufCount data < 16 := Nat.mod_lt _ (by omega)
      have start : exbufStart data = first := start.trans (Nat.mod_eq_of_lt low)
      let popped : Cursor τ := popEach 8
        ((List.range' (exbufStart data) (exbufCount data + 1)).map fun i => some (vfpSlot i)) c
      have saved : abs localOnly popped = _ := abs_popVfp (by omega) nonNull
      subst start
      cases format with
      | vpush =>
          have isDouble : ¬ data &&& vfpDouble = 0 := by
            intro single
            cases double.mp single
          simp only [execute, armExidxApplyCmd, Except.map, if_neg isDouble]
          exact congrArg Except.ok saved.symm
      | fstmfdx =>
          have single : data &&& vfpDouble = 0 := double.mpr rfl
          have moved : abs localOnly { popped with cfa := popped.cfa + 4 } =
              { abs localOnly popped with vsp := (abs localOnly popped).vsp + 4 } := rfl
          rw [saved] at moved
          simp only [execute, armExidxApplyCmd, Except.map, if_pos single, if_true]
          rw [BitVec.ofNat_add, ← BitVec.add_assoc]
          exact congrArg Except.ok moved.symm
  | popCore regs =>
      obtain ⟨rfl, isRegs⟩ := means
      exact apply_popCore isRegs fits
  | vspFrom reg =>
      obtain ⟨same, small⟩ := means
      cases same
      obtain ⟨vsp, loads⟩ := fits
      have number : (BitVec.ofNat 32 reg).toNat = reg := by
        rw [BitVec.toNat_ofNat]
        omega
      have isCore : BitVec.ofNat 32 reg < 16 := by
        rw [BitVec.lt_def, number]
        exact small
      rw [core_abs small, value_place] at loads
      have moved : abs localOnly { c with
          loc := Function.update c.loc (coreSlot 13) (c.loc (coreSlot reg)) } = _ :=
        core_update (by omega) (c.loc (coreSlot reg))
      simp only [execute, core_abs small, value_place, loads, armExidxApplyCmd, isCore, if_true,
        number, getOr_of_ok loads, ok_bind, Except.map]
      have whole : abs localOnly { c with
            loc := Function.update c.loc (coreSlot 13) (c.loc (coreSlot reg))
            cfa := vsp } =
          { abs localOnly { c with
              loc := Function.update c.loc (coreSlot 13) (c.loc (coreSlot reg)) } with vsp } := rfl
      rw [moved] at whole
      exact congrArg Except.ok whole.symm
  | finish =>
      cases means
      simp only [execute, armExidxApplyCmd, Except.map]
      have pc : (abs localOnly c).core 15 = place localOnly (c.loc (coreSlot 15)) :=
        core_abs (by omega)
      cases null : (c.loc (coreSlot 15)).isNull localOnly with
      | true =>
          have unset : (abs localOnly c).core 15 = none := by rw [pc, place, if_pos null]
          have moved : abs localOnly { c with
              loc := Function.update c.loc (coreSlot 15) (c.loc (coreSlot 14)) } = _ :=
            core_update (by omega) (c.loc (coreSlot 14))
          rw [unset]
          exact congrArg Except.ok moved.symm
      | false =>
          have isSet : (abs localOnly c).core 15 = some (c.loc (coreSlot 15)) := by
            rw [pc, place, null]
            rfl
          have kept : Function.update (abs localOnly c).core 15 ((abs localOnly c).core 15) =
              (abs localOnly c).core := Function.update_eq_self _ _
          rw [isSet] at kept ⊢
          exact congrArg Except.ok (congrArg (fun core => { abs localOnly c with core }) kept)

end Apply

/-! ## The loop ends -/

section Ends

variable {buf : List Byte}

/-- What is left is no longer than what there was. -/
def Consumes {α : Type} (buf : List Byte) (r : Result (α × List Byte)) : Prop :=
  ∀ a rest, r = .ok (a, rest) → rest.length ≤ buf.length

theorem Consumes.error {α : Type} {buf : List Byte} {e : Fault} :
    Consumes buf (.error e : Result (α × List Byte)) := by
  intro a rest same
  cases same

theorem Consumes.ok {α : Type} {a : α} {rest : List Byte} (le : rest.length ≤ buf.length) :
    Consumes buf (.ok (a, rest)) := by
  intro a' rest' same
  cases same
  exact le

theorem Consumes.ite {α : Type} {p : Prop} [Decidable p] {r r' : Result (α × List Byte)}
    (first : Consumes buf r) (second : Consumes buf r') :
    Consumes buf (if p then r else r') := by
  by_cases holds : p
  · rwa [if_pos holds]
  · rwa [if_neg holds]

theorem Consumes.operand {α : Type} {next : Byte × List Byte → Result (α × List Byte)}
    (later : ∀ op2 rest, Consumes rest (next (op2, rest))) :
    Consumes buf (readOp buf >>= next) := by
  cases buf with
  | nil => exact nofun
  | cons op2 buf =>
      intro a rest same
      have shorter := later op2 buf a rest same
      simp only [List.length_cons]
      omega

theorem readOffset_consumes (offset : Word 32) (shift : Nat) (buf : List Byte) :
    Consumes buf (readOffset offset shift buf) := by
  induction buf generalizing offset shift with
  | nil => exact .error
  | cons byte buf ih =>
      rw [readOffset]
      apply Consumes.ite .error
      apply Consumes.ite
      · intro a rest same
        have shorter := ih _ _ a rest same
        simp only [List.length_cons]
        omega
      · exact .ok (Nat.le_succ _)

theorem decodeOp_consumes (op : Byte) (buf : List Byte) : Consumes buf (decodeOp op buf) := by
  have same {edata : ArmExbufData} {rest : List Byte} : Consumes rest (.ok (edata, rest)) :=
    .ok (Nat.le_refl _)
  apply Consumes.ite same
  apply Consumes.ite same
  apply Consumes.ite (.operand fun _ _ => .ite same same)
  apply Consumes.ite (.ite same same)
  apply Consumes.ite same
  apply Consumes.ite (.ok (Nat.zero_le _))
  apply Consumes.ite (.operand fun _ _ => .ite same same)
  apply Consumes.ite
  · intro edata rest decoded
    obtain ⟨⟨offset, left⟩, read, last⟩ := bind_eq_ok.mp decoded
    cases last
    exact readOffset_consumes 0 0 buf offset _ read
  apply Consumes.ite (.operand fun _ _ => same)
  apply Consumes.ite same
  apply Consumes.ite same
  apply Consumes.ite (.operand fun _ _ => same)
  apply Consumes.ite (.operand fun _ _ => .ite same same)
  exact same

theorem applyCmd_ne_timeout (localOnly : Bool) (as : AddrSpace 32) (edata : ArmExbufData)
    (c : Cursor τ) : armExidxApplyCmd localOnly as edata c ≠ .error .timeout := by
  obtain ⟨cmd, data⟩ := edata
  cases cmd with
  | regToSp =>
      simp only [armExidxApplyCmd]
      split
      · exact nofun
      · exact nofun
  | finish => exact nofun
  | dataPush => exact nofun
  | dataPop => exact nofun
  | regPop => exact nofun
  | vfpPop => exact nofun
  | wregPop => exact nofun
  | wcgrPop => exact nofun
  | reserved => exact nofun
  | refused => exact nofun

/-- The budget of one round for each byte is enough. -/
theorem decodeRun_ne_timeout (localOnly : Bool) (as : AddrSpace 32) {budget : Nat}
    (c : Cursor τ) (enough : buf.length ≤ budget) :
    WhileLoop.run .timeout decodeGuard (decodeRound localOnly as) budget (buf, c) ≠
      .error .timeout := by
  apply WhileLoop.run_ne_late fun s : DecodeState τ => s.1.length
  · intro a b _ round
    obtain ⟨⟨op, rest⟩, first, round⟩ := bind_eq_ok.mp round
    obtain ⟨⟨edata, left⟩, decoded, round⟩ := bind_eq_ok.mp round
    obtain ⟨c', -, last⟩ := bind_eq_ok.mp round
    have shorter := decodeOp_consumes op rest edata left decoded
    cases last
    obtain ⟨bytes, c⟩ := a
    cases bytes with
    | nil => cases first
    | cons byte bytes =>
        cases first
        exact Nat.lt_succ_of_le shorter
  · intro s failed
    obtain ⟨bytes, c⟩ := s
    cases bytes with
    | nil => cases failed
    | cons op rest =>
        cases decodeOp_decodes op rest with
        | inl undefined =>
            simp only [decodeRound, readOp, ok_bind, undefined, error_bind] at failed
            cases failed
        | inr decodes =>
            obtain ⟨edata, instr, left, decoded, -, -⟩ := decodes
            simp only [decodeRound, readOp, ok_bind, decoded] at failed
            cases applied : armExidxApplyCmd localOnly as edata c with
            | ok c' =>
                rw [applied] at failed
                cases failed
            | error e =>
                rw [applied] at failed
                cases failed
                exact applyCmd_ne_timeout localOnly as edata c applied
  · intro s enter
    simpa [decodeGuard, List.length_pos_iff] using enter
  · exact enough

theorem armExidxDecode_ne_timeout (localOnly : Bool) (as : AddrSpace 32) (buf : List Byte)
    (c : Cursor τ) : armExidxDecode localOnly as buf c ≠ .error .timeout := by
  have ends := decodeRun_ne_timeout localOnly as c (Nat.le_refl buf.length)
  rw [armExidxDecode]
  split
  · exact nofun
  · cases run : WhileLoop.run .timeout decodeGuard (decodeRound localOnly as) buf.length (buf, c) with
    | ok s => exact nofun
    | error e =>
        intro failed
        cases failed
        exact ends run

end Ends

/-! ## Whole sequences -/

section Sequences

variable {localOnly : Bool} {as : AddrSpace 32} {bytes : List Byte} {c : Cursor τ}

/-- The configuration that a round starts from. -/
def config (localOnly : Bool) (s : DecodeState τ) : Config := (s.1, abs localOnly s.2)

theorem round_refines {s : DecodeState τ} (enter : decodeGuard s = true)
    (fits : Fits (load localOnly as) (config localOnly s)) :
    (∃ e, decodeRound localOnly as s = .error e ∧ e = .undefined) ∨
      step (load localOnly as) (config localOnly s) =
        (decodeRound localOnly as s).map (config localOnly) := by
  obtain ⟨bytes, c⟩ := s
  cases bytes with
  | nil => simp [decodeGuard] at enter
  | cons op rest =>
      simp only [decodeRound, readOp, ok_bind]
      cases decodeOp_decodes op rest with
      | inl undefined => exact Or.inl ⟨.undefined, by rw [undefined]; rfl, rfl⟩
      | inr decodes =>
          obtain ⟨edata, instr, left, decoded, read, means⟩ := decodes
          have same := apply_refines means (fits op rest instr left rfl read)
          right
          simp only [config, step, read, decoded, ok_bind, same]
          cases armExidxApplyCmd localOnly as edata c with
          | ok c' => rfl
          | error e => rfl

/-- `arm_exidx_decode` implements the instructions of the ABI for a sequence of bytes. -/
structure Implements (localOnly : Bool) (as : AddrSpace 32) (bytes : List Byte) (c : Cursor τ) :
    Prop where
  result : ∀ c', armExidxDecode localOnly as bytes c = .ok c' →
    interpret (load localOnly as) bytes (abs localOnly c) = .ok (abs localOnly c')
  /-- What the ABI refuses is an error, unless the behaviour is undefined before. -/
  refused : interpret (load localOnly as) bytes (abs localOnly c) = .error (.err .unspec) →
    armExidxDecode localOnly as bytes c = .error (.err .unspec) ∨
      armExidxDecode localOnly as bytes c = .error .undefined

theorem decode_eq_interpret
    (fits : ∀ a, WhileLoop.Reaches guard (step (load localOnly as)) (bytes, abs localOnly c) a →
      Fits (load localOnly as) a) :
    armExidxDecode localOnly as bytes c = .error .undefined ∨
      interpret (load localOnly as) bytes (abs localOnly c) =
        (armExidxDecode localOnly as bytes c).map (abs localOnly) := by
  cases bytes with
  | nil => exact Or.inl rfl
  | cons op rest =>
      let bytes := op :: rest
      have guards : ∀ s : DecodeState τ, guard (config localOnly s) = decodeGuard s := fun _ => rfl
      have rounds : ∀ s : DecodeState τ,
          WhileLoop.Reaches guard (step (load localOnly as)) (config localOnly (bytes, c))
            (config localOnly s) → decodeGuard s = true →
          (∃ e, decodeRound localOnly as s = .error e ∧ e = .undefined) ∨
            step (load localOnly as) (config localOnly s) =
              (decodeRound localOnly as s).map (config localOnly) :=
        fun s path enter => round_refines enter (fits _ path)
      have refines : (∃ e, WhileLoop.run .timeout decodeGuard (decodeRound localOnly as)
            bytes.length (bytes, c) = .error e ∧ e = .undefined) ∨
          WhileLoop.run .timeout guard (step (load localOnly as)) bytes.length
              (config localOnly (bytes, c)) =
            (WhileLoop.run .timeout decodeGuard (decodeRound localOnly as) bytes.length
              (bytes, c)).map (config localOnly) :=
        WhileLoop.run_refines_of_abs guards rounds bytes.length
      have decode : armExidxDecode localOnly as bytes c =
          (WhileLoop.run .timeout decodeGuard (decodeRound localOnly as) bytes.length
            (bytes, c)).map Prod.snd := if_neg (List.cons_ne_nil op rest)
      cases refines with
      | inl undefined =>
          obtain ⟨e, failed, rfl⟩ := undefined
          exact Or.inl (by rw [decode, failed]; rfl)
      | inr same =>
          right
          have interpreted : interpret (load localOnly as) bytes (abs localOnly c) =
            (WhileLoop.run .timeout guard (step (load localOnly as)) bytes.length
              (config localOnly (bytes, c))).map Prod.snd := rfl
          rw [interpreted, decode, same]
          cases WhileLoop.run .timeout decodeGuard (decodeRound localOnly as) bytes.length
            (bytes, c) with
          | ok s => rfl
          | error e => rfl

/-- The condition under which the code implements a sequence: no instruction that is come to
    pops VFP registers from `d16` on, what is loaded into the stack pointer can be read, and
    nothing is popped from address 0. -/
theorem decode_implements
    (fits : ∀ a, WhileLoop.Reaches guard (step (load localOnly as)) (bytes, abs localOnly c) a →
      Fits (load localOnly as) a) : Implements localOnly as bytes c := by
  constructor
  · intro c' decoded
    cases decode_eq_interpret fits with
    | inl undefined => simp [decoded] at undefined
    | inr same => rw [same, decoded]; rfl
  · intro refused
    cases decode_eq_interpret fits with
    | inl undefined => exact Or.inr undefined
    | inr same =>
        left
        rw [refused] at same
        cases decoded : armExidxDecode localOnly as bytes c with
        | ok c' => simp [decoded, Except.map] at same
        | error e => simpa [decoded, Except.map] using same.symm

end Sequences

/-! ## High registers -/

namespace HighDoubles

def as : AddrSpace 32 where
  bigEndian := false
  readByte _ := .error .inval
  accessMem _ := .error .inval
  accessReg _ := .error .badreg
  accessFpreg _ := .error .badreg

/-- A cursor on a frame with its CFA at `0x1000`, and `lr` in the memory before it. -/
def cursor : Cursor Unit where
  cfa := 0x1000
  ip := 0x8000
  loc := Function.update (fun _ => Dwarf.nullLoc) (coreSlot 14) (Dwarf.memLoc 0xffc)
  tdep := ()

/-- `pop {r4-r5}`, and `vpop {d8}`. -/
def low : List Byte := [0xa1, 0xd0, 0xb0]

/-- `vpop {d16}`. -/
def high : List Byte := [0xc8, 0x00, 0xb0]

instance (s : State) (size count : Nat) : Decidable (NonNull s size count) :=
  inferInstanceAs (Decidable (∀ k < count, _))

set_option maxRecDepth 4000 in
theorem fits_low : ∀ a, WhileLoop.Reaches guard (step (load false as)) (low, abs false cursor) a →
    Fits (load false as) a := by
  intro a path op rest instr left shape read
  cases path.of_round rfl with
  | inl start =>
      subst start
      cases shape
      cases read
      exact ⟨by decide, fun sp => absurd sp (by decide)⟩
  | inr path =>
      cases path.of_round rfl with
      | inl second =>
          subst second
          cases shape
          cases read
          exact ⟨by decide, by decide⟩
      | inr path =>
          cases path.of_round rfl with
          | inl third =>
              subst third
              cases shape
              cases read
              trivial
          | inr path =>
              cases path.of_exit rfl
              cases shape

theorem low_popped : Implements false as low cursor := decode_implements fits_low

set_option maxRecDepth 4000 in
theorem high_misplaced : ¬ Implements false as high cursor := by
  intro implements
  have same := implements.result _ rfl
  have d16 := congrArg (fun r => r.toOption.map fun s => s.doubles 16) same
  exact absurd d16 (by decide +kernel)

end HighDoubles

end Libunwind.Arm
