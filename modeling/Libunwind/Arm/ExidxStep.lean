import Libunwind.Arm.Extract

/-! # A step by the unwinding tables

`arm_exidx_step` works on the live cursor: it marks PC as unsaved before it looks for an
entry, and applies each instruction of the entry as soon as it is decoded. What it returns
is kept apart here from the cursor that it leaves, which is left when it fails, too.
-/

namespace Libunwind.Arm

/-- What a search leaves in `pi`; the `unwind_info` of the format is the entry. -/
structure ExidxInfo where
  pi : Dwarf.ProcInfo 32
  unwindInfo : Word 32

/-- The two searches of a step, each with what it returns and what it leaves. -/
structure ExidxTables where
  /-- `unwi_find_dynamic_proc_info`. -/
  findDynamic : Word 32 → Except UnwError Unit × ExidxInfo
  /-- `tdep_find_proc_info`, or `arm_find_proc_info2` in the local-only library. -/
  find : Word 32 → Except UnwError Unit × ExidxInfo

section Step

variable {τ : Type} (localOnly : Bool) (as : AddrSpace 32) (tables : ExidxTables)

/-- PC is marked as unsaved. -/
def markPcUnsaved (c : Cursor τ) : Cursor τ :=
  { c with loc := Function.update c.loc (coreSlot 15) Dwarf.nullLoc }

/-- The address that is looked up. The least bit of an IP is the mode. -/
def lookupIp (c : Cursor τ) : Word 32 := if c.usePrevInstr then (c.ip &&& ~~~1) - 1 else c.ip

/-- The entry that is found, and what is left in `pi`. A failure of the dynamic search other
    than `-UNW_ENOINFO` is not looked at. -/
def findEntry (ip : Word 32) : Result (Word 32) × Dwarf.ProcInfo 32 :=
  let (ret, info) := tables.findDynamic ip
  let (ret, info) := if ret = .error .noinfo then tables.find ip else (.ok (), info)
  match ret with
  | .error code => (.error (.err code), info.pi)
  | .ok () =>
      if info.pi.format = .armExidx then (.ok info.unwindInfo, info.pi)
      else (.error (.err .noinfo), info.pi)

/-- What the instructions that are applied make of a cursor, up to one that fails. -/
def applied : Nat → List Byte → Cursor τ → Cursor τ
  | 0, _, c => c
  | rounds + 1, bytes, c =>
      if bytes = [] then c
      else
        match decodeRound localOnly as (bytes, c) with
        | .ok (left, c) => applied rounds left c
        | .error _ => c

/-- The end of a step, on the cursor that the decoder left. -/
def finishExidx (old : Cursor τ) (ret : Result (Cursor τ)) (c : Cursor τ) :
    Result Bool × Cursor τ :=
  match ret with
  | .error e => (.error e, c)
  | .ok _ =>
      if c.ip = old.ip ∧ c.cfa = old.cfa then (.error (.err .badframe), c)
      else (.ok (c.ip ≠ 0), { c with piValid := false })

/-- `arm_exidx_step`: what it returns, and the cursor that it leaves. -/
def armExidxStep (c : Cursor τ) : Result Bool × Cursor τ :=
  let old := c
  let c := markPcUnsaved c
  let (entry, pi) := findEntry tables (lookupIp c)
  let c := { c with pi }
  match entry >>= armExidxExtract as with
  | .error e => (.error e, c)
  | .ok bytes =>
      finishExidx old (armExidxDecode localOnly as bytes c) (applied localOnly as bytes.length bytes c)

/-- A cursor is as it was, as far as stepping goes. -/
def Unchanged (c c' : Cursor τ) : Prop :=
  c'.loc = c.loc ∧ c'.cfa = c.cfa ∧ c'.ip = c.ip ∧ c'.usePrevInstr = c.usePrevInstr

/-- The instructions of the entry that a step finds. -/
def instructions (c : Cursor τ) : Result (List Byte) :=
  (findEntry tables (lookupIp c)).1 >>= armExidxExtract as

/-- The cursor that the instructions start from. -/
def lookedUp (c : Cursor τ) : Cursor τ :=
  { markPcUnsaved c with pi := (findEntry tables (lookupIp c)).2 }

/-! ## When a step that fails puts the cursor back -/

/-- A command that is never applied. -/
def isRefused (edata : ArmExbufData) : Bool := edata.cmd = .reserved || edata.cmd = .refused

/-- The commands that stand before the first one that is refused, and whether one is. They
    depend on the bytes alone. -/
def commands : Nat → List Byte → Result (List ArmExbufData × Bool)
  | _, [] => .ok ([], false)
  | 0, _ :: _ => .error .timeout
  | rounds + 1, op :: buf => do
      let (edata, buf) ← decodeOp op buf
      if isRefused edata then .ok ([], true)
      else do
        let (edatas, refused) ← commands rounds buf
        .ok (edata :: edatas, refused)

/-- The effect of some commands. -/
def applyCmds (edatas : List ArmExbufData) (c : Cursor τ) : Result (Cursor τ) :=
  edatas.foldlM (fun c edata => armExidxApplyCmd localOnly as edata c) c

/-- When nothing is put into the cursor that is not put back before a failure. -/
structure PutsBack (c : Cursor τ) : Prop where
  /-- There are no instructions, and PC was not saved before. -/
  unreached : ∀ code, instructions as tables c = .error (.err code) →
    c.loc (coreSlot 15) = Dwarf.nullLoc
  /-- What stands before an instruction that is refused cancels out. -/
  refused : ∀ bytes edatas c', instructions as tables c = .ok bytes →
    commands bytes.length bytes = .ok (edatas, true) →
    applyCmds localOnly as edatas (lookedUp tables c) = .ok c' →
    c'.loc = c.loc ∧ c'.cfa = c.cfa
  /-- Instructions that lead nowhere save no register. -/
  stuck : ∀ bytes edatas c', instructions as tables c = .ok bytes →
    commands bytes.length bytes = .ok (edatas, false) →
    applyCmds localOnly as edatas (lookedUp tables c) = .ok c' →
    c'.ip = c.ip → c'.cfa = c.cfa → c'.loc = c.loc

end Step

section Commands

variable {τ : Type} {localOnly : Bool} {as : AddrSpace 32} {edata : ArmExbufData} {c c' : Cursor τ}

theorem popEach_keeps (size : Word 32) (slots : List (Option (Fin 128))) (c : Cursor τ) :
    (popEach size slots c).ip = c.ip ∧ (popEach size slots c).usePrevInstr = c.usePrevInstr := by
  induction slots generalizing c with
  | nil => exact ⟨rfl, rfl⟩
  | cons slot slots ih => exact ih _

/-- Only a finish sets the IP. -/
theorem apply_keeps (done : armExidxApplyCmd localOnly as edata c = .ok c') :
    c'.usePrevInstr = c.usePrevInstr ∧ (edata.cmd ≠ .finish → c'.ip = c.ip) := by
  obtain ⟨cmd, data⟩ := edata
  cases cmd with
  | finish =>
      cases done
      exact ⟨rfl, fun other => absurd rfl other⟩
  | dataPush =>
      cases done
      exact ⟨rfl, fun _ => rfl⟩
  | dataPop =>
      cases done
      exact ⟨rfl, fun _ => rfl⟩
  | regPop =>
      simp only [armExidxApplyCmd, Except.ok.injEq] at done
      subst done
      split
      · exact ⟨(popEach_keeps _ _ c).2, fun _ => (popEach_keeps _ _ c).1⟩
      · exact ⟨(popEach_keeps _ _ c).2, fun _ => (popEach_keeps _ _ c).1⟩
  | regToSp =>
      simp only [armExidxApplyCmd] at done
      split at done
      · cases done
        exact ⟨rfl, fun _ => rfl⟩
      · cases done
  | vfpPop =>
      simp only [armExidxApplyCmd, Except.ok.injEq] at done
      subst done
      split
      · exact ⟨(popEach_keeps _ _ c).2, fun _ => (popEach_keeps _ _ c).1⟩
      · exact ⟨(popEach_keeps _ _ c).2, fun _ => (popEach_keeps _ _ c).1⟩
  | wregPop =>
      cases done
      exact ⟨(popEach_keeps _ _ c).2, fun _ => (popEach_keeps _ _ c).1⟩
  | wcgrPop =>
      cases done
      exact ⟨(popEach_keeps _ _ c).2, fun _ => (popEach_keeps _ _ c).1⟩
  | reserved => cases done
  | refused => cases done

/-- What is refused, and all else. -/
theorem apply_decoded (localOnly : Bool) (as : AddrSpace 32) {op : Byte} {buf left : List Byte}
    (decoded : decodeOp op buf = .ok (edata, left)) (c : Cursor τ) :
    (isRefused edata = true ∧ armExidxApplyCmd localOnly as edata c = .error (.err .unspec)) ∨
      (isRefused edata = false ∧ ∃ c', armExidxApplyCmd localOnly as edata c = .ok c') := by
  cases decodeOp_decodes op buf with
  | inl undefined => simp [undefined] at decoded
  | inr decodes =>
      obtain ⟨edata', instr, _, decoded', -, means⟩ := decodes
      cases decoded'.symm.trans decoded
      cases apply_outcome means localOnly as c with
      | inl fails =>
          refine Or.inl ⟨?_, fails.2⟩
          cases fails.1 with
          | inl refuse =>
              subst refuse
              simp [isRefused, show edata.cmd = .refused from means]
          | inr spare =>
              subst spare
              simp [isRefused, show edata.cmd = .reserved from means]
      | inr done =>
          refine Or.inr ⟨?_, done.2⟩
          obtain ⟨c', done⟩ := done.2
          obtain ⟨cmd, data⟩ := edata
          cases cmd with
          | reserved => cases done
          | refused => cases done
          | _ => rfl

theorem nil_of_finish {op : Byte} {buf left : List Byte}
    (decoded : decodeOp op buf = .ok (edata, left)) (isFinish : edata.cmd = .finish) :
    left = [] := by
  cases finish_of_decodeOp decoded isFinish
  cases decoded
  rfl

/-- What the decoder makes of the bytes, by their commands. -/
theorem decode_outcome (localOnly : Bool) (as : AddrSpace 32) {rounds : Nat} {bytes : List Byte} (enough : bytes.length ≤ rounds)
    (c : Cursor τ) :
    (commands rounds bytes = .error .undefined ∧
        decodeRest localOnly as bytes c = .error .undefined) ∨
      ∃ edatas refused c', commands rounds bytes = .ok (edatas, refused) ∧
        applyCmds localOnly as edatas c = .ok c' ∧ applied localOnly as rounds bytes c = c' ∧
        c'.usePrevInstr = c.usePrevInstr ∧
        if refused = true then decodeRest localOnly as bytes c = .error (.err .unspec) ∧ c'.ip = c.ip
        else decodeRest localOnly as bytes c = .ok ([], c') := by
  induction rounds generalizing bytes c with
  | zero =>
      cases List.eq_nil_of_length_eq_zero (Nat.le_zero.mp enough)
      exact Or.inr ⟨[], false, c, rfl, rfl, rfl, rfl, rfl⟩
  | succ rounds ih =>
      cases bytes with
      | nil => exact Or.inr ⟨[], false, c, rfl, rfl, rfl, rfl, rfl⟩
      | cons op buf =>
          cases decoded : decodeOp op buf with
          | error e =>
              cases decodeOp_decodes op buf with
              | inl undefined =>
                  left
                  simp [decodeRest_cons, commands, decodeRound, readOp, undefined]
              | inr decodes =>
                  obtain ⟨_, _, _, decoded', -⟩ := decodes
                  simp [decoded] at decoded'
          | ok read =>
              obtain ⟨edata, left⟩ := read
              have round : decodeRound localOnly as (op :: buf, c) =
                  armExidxApplyCmd localOnly as edata c >>= fun c => .ok (left, c) := by
                simp only [decodeRound, readOp, ok_bind, decoded]
              cases apply_decoded localOnly as decoded c with
              | inl fails =>
                  rw [fails.2] at round
                  refine Or.inr ⟨[], true, c, ?_, rfl, ?_, rfl, ?_⟩
                  · simp [commands, decoded, fails.1]
                  · simp [applied, round]
                  · simp [decodeRest_cons, round]
              | inr done =>
                  obtain ⟨accepted, c₁, done⟩ := done
                  rw [done, ok_bind] at round
                  have rest : decodeRest localOnly as (op :: buf) c =
                      decodeRest localOnly as left c₁ := by
                    rw [decodeRest_cons, round, ok_bind]
                  have shorter := decodeOp_consumes op buf edata left decoded
                  have fewer : left.length ≤ rounds := by
                    rw [List.length_cons] at enough
                    omega
                  cases ih fewer c₁ with
                  | inl undefined =>
                      obtain ⟨cut, undefined⟩ := undefined
                      refine Or.inl ⟨?_, rest.trans undefined⟩
                      simp [commands, decoded, accepted, cut]
                  | inr later =>
                      obtain ⟨edatas, refused, c', read, effect, last, prev, ended⟩ := later
                      obtain ⟨samePrev, sameIp⟩ := apply_keeps done
                      refine Or.inr ⟨edata :: edatas, refused, c', ?_, ?_, ?_, ?_, ?_⟩
                      · simp [commands, decoded, accepted, read]
                      · simp only [applyCmds, List.foldlM_cons, done, ok_bind]
                        exact effect
                      · simp [applied, round, last]
                      · exact prev.trans samePrev
                      · rw [rest]
                        cases refused with
                        | false => exact ended
                        | true =>
                            have notFinish : edata.cmd ≠ .finish := by
                              intro isFinish
                              cases nil_of_finish decoded isFinish
                              cases rounds <;> simp [commands] at read
                            exact ⟨ended.1, ended.2.trans (sameIp notFinish)⟩

end Commands

section Failure

variable {τ : Type} {localOnly : Bool} {as : AddrSpace 32} {tables : ExidxTables} {c : Cursor τ}

theorem step_unreached {e : Fault} (failed : instructions as tables c = .error e) :
    armExidxStep localOnly as tables c = (.error e, lookedUp tables c) := by
  have failed : (findEntry tables (lookupIp (markPcUnsaved c))).1 >>= armExidxExtract as =
      .error e := failed
  simp only [armExidxStep, failed]
  rfl

theorem step_reached {bytes : List Byte} (reached : instructions as tables c = .ok bytes) :
    armExidxStep localOnly as tables c =
      finishExidx c (armExidxDecode localOnly as bytes (lookedUp tables c))
        (applied localOnly as bytes.length bytes (lookedUp tables c)) := by
  have reached : (findEntry tables (lookupIp (markPcUnsaved c))).1 >>= armExidxExtract as =
      .ok bytes := reached
  simp only [armExidxStep, reached]
  rfl

theorem unchanged_lookedUp :
    Unchanged c (lookedUp tables c) ↔ c.loc (coreSlot 15) = Dwarf.nullLoc := by
  constructor
  · intro same
    rw [← same.1]
    simp [lookedUp, markPcUnsaved]
  · intro null
    exact ⟨Function.update_eq_self_iff.mpr null.symm, rfl, rfl, rfl⟩

theorem putsBack_iff {bytes : List Byte} {edatas : List ArmExbufData} {refused : Bool}
    {c' : Cursor τ} (reached : instructions as tables c = .ok bytes)
    (read : commands bytes.length bytes = .ok (edatas, refused))
    (effect : applyCmds localOnly as edatas (lookedUp tables c) = .ok c') :
    PutsBack localOnly as tables c ↔
      (refused = true → c'.loc = c.loc ∧ c'.cfa = c.cfa) ∧
        (refused = false → c'.ip = c.ip → c'.cfa = c.cfa → c'.loc = c.loc) := by
  constructor
  · intro putsBack
    constructor
    · rintro rfl
      exact putsBack.refused bytes edatas c' reached read effect
    · rintro rfl
      exact putsBack.stuck bytes edatas c' reached read effect
  · intro ⟨whenRefused, whenStuck⟩
    refine ⟨?_, ?_, ?_⟩
    · intro code failed
      simp [reached] at failed
    · intro bytes edatas c' reached' read' effect'
      cases reached.symm.trans reached'
      cases read.symm.trans read'
      cases effect.symm.trans effect'
      exact whenRefused rfl
    · intro bytes edatas c' reached' read' effect'
      cases reached.symm.trans reached'
      cases read.symm.trans read'
      cases effect.symm.trans effect'
      exact whenStuck rfl

end Failure

/-! ## No entry -/

namespace NoEntry

/-- Neither search finds anything. -/
def tables : ExidxTables where
  findDynamic _ := (.error .noinfo, ⟨{}, 0⟩)
  find _ := (.error .noinfo, ⟨{}, 0⟩)

/-- A frame whose PC was saved at `0x0ffc`. -/
def cursor : Cursor Unit where
  cfa := 0x1000
  ip := 0x8000
  loc := Function.update (fun _ => Dwarf.nullLoc) (coreSlot 15) (Dwarf.memLoc 0xffc)
  tdep := ()

end NoEntry

end Libunwind.Arm
