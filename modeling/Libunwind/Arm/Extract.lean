import Libunwind.Arm.ExRefinement

/-! # Extracting the instructions of an entry

`arm_exidx_extract` copies the instructions of an unwinding table entry into a buffer, and
puts a finish behind them unless the last byte looks like one. Whether it is the opcode or
an operand is only known once the instructions before it are read.
-/

namespace Libunwind.Arm

/-! ## The table -/

section Extract

variable (as : AddrSpace 32)

/-- A word of the table; `access_mem` may fail in any way. -/
def tableWord (addr : Word 32) : Result (Word 32) :=
  match as.accessMem addr with
  | .ok data => .ok data
  | .error _ => .error (.err .inval)

/-- `prel31_to_addr`. -/
def prel31ToAddr (prel31 : Word 32) : Result (Word 32) := do
  let offset ← tableWord as prel31
  .ok (prel31 + (offset <<< 1).sshiftRight 1)

/-- The byte of a word that starts at bit `shift`. -/
def byteAt (data : Word 32) (shift : Nat) : Byte := (data >>> shift).setWidth 8

def exidxCantUnwind : Word 32 := 1

/-- `ARM_EXIDX_COMPACT` is set. -/
def isCompact (data : Word 32) : Bool := data &&& 0x80000000 ≠ 0

/-- What the first words of an entry have of instructions, how many more words of them there
    are (`n_table_words`), and where. -/
structure TableHead where
  bytes : List Byte
  words : Nat
  next : Word 32

/-- The entry up to the assertion on `n_table_words`. -/
def tableHead (entry : Word 32) : Result TableHead := do
  let _ ← prel31ToAddr as entry
  let data ← tableWord as (entry + 4)
  if data = exidxCantUnwind then .error (.err .stopunwind)
  else if isCompact data then .ok ⟨[byteAt data 16, byteAt data 8, byteAt data 0], 0, 0⟩
  else do
    let extbl ← prel31ToAddr as (entry + 4)
    let data ← tableWord as extbl
    if isCompact data then
      let pers := (data.toNat / 2 ^ 24) % 16
      if pers = 1 ∨ pers = 2 then
        .ok ⟨[byteAt data 8, byteAt data 0], (byteAt data 16).toNat, extbl + 4⟩
      else .ok ⟨[byteAt data 16, byteAt data 8, byteAt data 0], 0, extbl⟩
    else do
      let _ ← prel31ToAddr as extbl
      let data ← tableWord as (extbl + 4)
      .ok ⟨[byteAt data 16, byteAt data 8, byteAt data 0], (byteAt data 24).toNat, extbl + 8⟩

/-- The loop over the other words. -/
def tableBytes : Nat → Word 32 → Result (List Byte)
  | 0, _ => .ok []
  | words + 1, addr => do
      let data ← tableWord as addr
      let rest ← tableBytes words (addr + 4)
      .ok (byteAt data 24 :: byteAt data 16 :: byteAt data 8 :: byteAt data 0 :: rest)

/-- A finish is put behind what does not end in one. -/
def withFinish (bytes : List Byte) : List Byte :=
  if bytes.getLast? = some 0xb0 then bytes else bytes ++ [0xb0]

/-- `arm_exidx_extract`, from an entry. -/
def armExidxExtract (entry : Word 32) : Result (List Byte) := do
  let head ← tableHead as entry
  if 5 < head.words then .error .undefined
  else do
    let rest ← tableBytes as head.words head.next
    .ok (withFinish (head.bytes ++ rest))

end Extract

section Lengths

variable {as : AddrSpace 32} {entry : Word 32}

theorem tableHead_length {head : TableHead} (read : tableHead as entry = .ok head) :
    0 < head.bytes.length ∧ head.bytes.length ≤ 3 := by
  obtain ⟨_, -, read⟩ := bind_eq_ok.mp read
  obtain ⟨data, -, read⟩ := bind_eq_ok.mp read
  by_cases stop : data = exidxCantUnwind
  · simp [stop] at read
  · by_cases compact : isCompact data = true
    · simp only [stop, compact, if_false, if_true, Except.ok.injEq] at read
      subst read
      simp
    · simp only [stop, compact, if_false, Bool.false_eq_true] at read
      obtain ⟨extbl, -, read⟩ := bind_eq_ok.mp read
      obtain ⟨data, -, read⟩ := bind_eq_ok.mp read
      split at read
      · split at read
        · cases read
          simp
        · cases read
          simp
      · obtain ⟨_, -, read⟩ := bind_eq_ok.mp read
        obtain ⟨data, -, read⟩ := bind_eq_ok.mp read
        cases read
        simp

theorem tableBytes_length {words : Nat} {addr : Word 32} {bytes : List Byte}
    (read : tableBytes as words addr = .ok bytes) : bytes.length = 4 * words := by
  induction words generalizing addr bytes with
  | zero =>
      cases read
      rfl
  | succ words ih =>
      obtain ⟨data, -, read⟩ := bind_eq_ok.mp read
      obtain ⟨rest, more, read⟩ := bind_eq_ok.mp read
      cases read
      simp only [List.length_cons, ih more]
      omega

/-- What is extracted fits the buffer of `arm_exidx_step` with room to spare. -/
theorem extract_length {bytes : List Byte} (extracted : armExidxExtract as entry = .ok bytes) :
    0 < bytes.length ∧ bytes.length ≤ 24 := by
  obtain ⟨head, read, extracted⟩ := bind_eq_ok.mp extracted
  obtain ⟨some', few⟩ := tableHead_length read
  by_cases many : 5 < head.words
  · simp [many] at extracted
  · rw [if_neg many] at extracted
    obtain ⟨rest, more, extracted⟩ := bind_eq_ok.mp extracted
    cases extracted
    have length := tableBytes_length more
    rw [withFinish]
    split
    · simp only [List.length_append]
      omega
    · simp only [List.length_append, List.length_singleton]
      omega

theorem tableWord_defined (addr : Word 32) : Defined (tableWord as addr) := by
  rw [tableWord]
  cases as.accessMem addr with
  | ok data => exact .ok data
  | error code => exact .err _

theorem prel31ToAddr_defined (addr : Word 32) : Defined (prel31ToAddr as addr) :=
  (tableWord_defined addr).bind fun _ _ => .ok _

theorem tableHead_defined (entry : Word 32) : Defined (tableHead as entry) := by
  apply (prel31ToAddr_defined entry).bind
  intro _ _
  apply (tableWord_defined _).bind
  intro data _
  apply Defined.ite fun _ => .err _
  intro _
  apply Defined.ite fun _ => .ok _
  intro _
  apply (prel31ToAddr_defined _).bind
  intro extbl _
  apply (tableWord_defined _).bind
  intro data _
  apply Defined.ite
  · intro _
    exact .ite (fun _ => .ok _) fun _ => .ok _
  · intro _
    exact (prel31ToAddr_defined _).bind fun _ _ => (tableWord_defined _).bind fun _ _ => .ok _

theorem tableBytes_defined (words : Nat) (addr : Word 32) : Defined (tableBytes as words addr) := by
  induction words generalizing addr with
  | zero => exact .ok _
  | succ words ih =>
      apply (tableWord_defined addr).bind
      intro data _
      exact (ih _).bind fun _ _ => .ok _

/-- The assertion is all that can go wrong. -/
theorem extract_defined_iff : Defined (armExidxExtract as entry) ↔
    ∀ head, tableHead as entry = .ok head → head.words ≤ 5 := by
  constructor
  · intro isDefined head read
    by_contra many
    apply isDefined
    simp [armExidxExtract, read, Nat.lt_of_not_le many]
  · intro few
    apply (tableHead_defined entry).bind
    intro head read
    have inside : ¬ 5 < head.words := Nat.not_lt.mpr (few head read)
    rw [if_neg inside]
    exact (tableBytes_defined _ _).bind fun _ _ => .ok _

end Lengths

/-! ## Finishing -/

/-- The loop of the decoder, from some instructions on. -/
def decodeRest {τ : Type} (localOnly : Bool) (as : AddrSpace 32) (bytes : List Byte)
    (c : Cursor τ) : Result (DecodeState τ) :=
  WhileLoop.run .timeout decodeGuard (decodeRound localOnly as) bytes.length (bytes, c)

/-- The next command is the finish. -/
def AppliesFinish {τ : Type} (s : DecodeState τ) : Prop :=
  ∃ op rest edata left, s.1 = op :: rest ∧ decodeOp op rest = .ok (edata, left) ∧
    edata.cmd = .finish

/-- Every instruction is whole, up to a finish, or to one that is refused. An offset of more
    than five bytes cannot be shifted into place. -/
inductive Complete : List Byte → Prop where
  | finish (rest : List Byte) : Complete (0xb0 :: rest)
  | refused {op : Byte} {rest left : List Byte} {instr : Ehabi.Instr} :
      Ehabi.readInstr op.toNat rest = .ok (instr, left) →
      instr = .refuse ∨ instr = .spare → Complete (op :: rest)
  | next {op : Byte} {rest left : List Byte} {instr : Ehabi.Instr} :
      Ehabi.readInstr op.toNat rest = .ok (instr, left) →
      (op = 0xb2 → ∃ byte ∈ rest.take 5, byte.toNat < 128) → Complete left →
      Complete (op :: rest)

section Offsets

variable {rest : List Byte}

theorem readOffset_defined {offset : Word 32} {shift k : Nat} (room : shift + 7 * k ≤ 35)
    (short : ∃ byte ∈ rest.take k, byte.toNat < 128) : Defined (readOffset offset shift rest) := by
  induction rest generalizing offset shift k with
  | nil => simp at short
  | cons byte rest ih =>
      cases k with
      | zero => simp at short
      | succ k =>
          rw [readOffset, if_neg (by omega)]
          apply Defined.ite
          · intro more
            apply ih (k := k) (by omega)
            obtain ⟨last, member, low⟩ := short
            rw [List.take_succ_cons] at member
            cases List.mem_cons.mp member with
            | inl first =>
                subst first
                apply absurd _ more
                rw [BitVec.toNat_eq, toNat_and_80, Nat.div_eq_of_lt low]
                rfl
            | inr later => exact ⟨last, later, low⟩
          · exact fun _ => .ok _

theorem short_of_readOffset {offset : Word 32} {shift k : Nat} {read : Word 32 × List Byte}
    (room : 35 ≤ shift + 7 * k) (done : readOffset offset shift rest = .ok read) :
    ∃ byte ∈ rest.take k, byte.toNat < 128 := by
  induction rest generalizing offset shift k with
  | nil => cases done
  | cons byte rest ih =>
      rw [readOffset] at done
      by_cases wide : 32 ≤ shift
      · simp [wide] at done
      · rw [if_neg wide] at done
        cases k with
        | zero => omega
        | succ k =>
            by_cases low : byte.toNat < 128
            · exact ⟨byte, List.mem_cons_self, low⟩
            · have more : byte &&& 0x80 ≠ 0 := by
                rw [ne_eq, BitVec.toNat_eq, toNat_and_80]
                simp only [BitVec.reduceToNat]
                omega
              rw [if_pos more] at done
              obtain ⟨last, member, isLow⟩ := ih (k := k) (by omega) done
              exact ⟨last, List.mem_cons_of_mem byte member, isLow⟩

end Offsets

set_option maxRecDepth 8000 in
/-- An opcode without its operand is cut short for the ABI as well. -/
theorem decodeOp_nil (op : Byte) : decodeOp op [] ≠ .error .undefined ∨
    Ehabi.readInstr op.toNat [] = .error .undefined := by
  decide +revert

/-- What is decoded is never a finish. -/
def NoFinish (r : Result (ArmExbufData × List Byte)) : Prop :=
  ∀ edata left, r = .ok (edata, left) → edata.cmd ≠ .finish

theorem NoFinish.ok {cmd : ArmExbufCmd} {data : Word 32} {left : List Byte} (other : cmd ≠ .finish) :
    NoFinish (.ok (⟨cmd, data⟩, left)) := by
  intro edata left' same
  cases same
  exact other

theorem NoFinish.ite {p : Prop} [Decidable p] {r r' : Result (ArmExbufData × List Byte)}
    (first : NoFinish r) (second : ¬ p → NoFinish r') : NoFinish (if p then r else r') := by
  by_cases holds : p
  · rwa [if_pos holds]
  · rw [if_neg holds]
    exact second holds

theorem NoFinish.bind {α : Type} {first : Result α} {next : α → Result (ArmExbufData × List Byte)}
    (later : ∀ a, NoFinish (next a)) : NoFinish (first >>= next) := by
  intro edata left same
  obtain ⟨a, -, same⟩ := bind_eq_ok.mp same
  exact later a edata left same

section Decodes

variable {op : Byte} {rest left : List Byte} {edata : ArmExbufData} {instr : Ehabi.Instr}

theorem decodeOp_defined (read : Ehabi.readInstr op.toNat rest = .ok (instr, left))
    (short : op = 0xb2 → ∃ byte ∈ rest.take 5, byte.toNat < 128) : Defined (decodeOp op rest) := by
  cases rest with
  | nil =>
      cases decodeOp_nil op with
      | inl isDefined => exact isDefined
      | inr cut => simp [cut] at read
  | cons op2 rest =>
      have ok {edata : ArmExbufData × List Byte} : Defined (.ok edata) := .ok edata
      apply Defined.ite fun _ => ok
      intro _
      apply Defined.ite fun _ => ok
      intro _
      apply Defined.ite fun _ => .ite (fun _ => ok) fun _ => ok
      intro _
      apply Defined.ite fun _ => .ite (fun _ => ok) fun _ => ok
      intro _
      apply Defined.ite fun _ => ok
      intro _
      apply Defined.ite fun _ => ok
      intro _
      apply Defined.ite fun _ => .ite (fun _ => ok) fun _ => ok
      intro _
      apply Defined.ite
      · intro isOffset
        exact (readOffset_defined (by omega) (short isOffset)).bind fun _ _ => ok
      intro _
      apply Defined.ite fun _ => ok
      intro _
      apply Defined.ite fun _ => ok
      intro _
      apply Defined.ite fun _ => ok
      intro _
      apply Defined.ite fun _ => ok
      intro _
      apply Defined.ite fun _ => .ite (fun _ => ok) fun _ => ok
      exact fun _ => ok

theorem short_of_decodeOp (decoded : decodeOp 0xb2 rest = .ok (edata, left)) :
    ∃ byte ∈ rest.take 5, byte.toNat < 128 := by
  obtain ⟨read, done, -⟩ := bind_eq_ok.mp decoded
  exact short_of_readOffset (by omega) done

/-- Only the opcode of a finish makes one. -/
theorem finish_of_decodeOp (decoded : decodeOp op rest = .ok (edata, left))
    (isFinish : edata.cmd = .finish) : op = 0xb0 := by
  by_contra other
  have never : NoFinish (decodeOp op rest) := by
    have no (cmd : ArmExbufCmd) (other : cmd ≠ .finish) {data : Word 32} {left : List Byte} :
        NoFinish (.ok (⟨cmd, data⟩, left)) := .ok other
    apply NoFinish.ite (no .dataPop nofun)
    intro _
    apply NoFinish.ite (no .dataPush nofun)
    intro _
    apply NoFinish.ite (.bind fun _ => .ite (no .refused nofun) fun _ => no .regPop nofun)
    intro _
    apply NoFinish.ite (.ite (no .reserved nofun) fun _ => no .regToSp nofun)
    intro _
    apply NoFinish.ite (no .regPop nofun)
    intro _
    rw [if_neg other]
    apply NoFinish.ite (.bind fun _ => .ite (no .reserved nofun) fun _ => no .regPop nofun)
    intro _
    apply NoFinish.ite (.bind fun _ => no .dataPop nofun)
    intro _
    apply NoFinish.ite (.bind fun _ => no .vfpPop nofun)
    intro _
    apply NoFinish.ite (no .vfpPop nofun)
    intro _
    apply NoFinish.ite (no .wregPop nofun)
    intro _
    apply NoFinish.ite (.bind fun _ => no .wregPop nofun)
    intro _
    exact .ite (.bind fun _ => .ite (no .reserved nofun) fun _ => no .wcgrPop nofun)
      fun _ => no .reserved nofun
  exact never edata left decoded isFinish

end Decodes

theorem apply_outcome {τ : Type} {edata : ArmExbufData} {instr : Ehabi.Instr}
    (means : Means edata instr) (localOnly : Bool) (as : AddrSpace 32) (c : Cursor τ) :
    ((instr = .refuse ∨ instr = .spare) ∧
        armExidxApplyCmd localOnly as edata c = .error (.err .unspec)) ∨
      (¬ (instr = .refuse ∨ instr = .spare) ∧
        ∃ c', armExidxApplyCmd localOnly as edata c = .ok c') := by
  obtain ⟨cmd, data⟩ := edata
  cases instr with
  | refuse =>
      cases means
      exact Or.inl ⟨Or.inl rfl, rfl⟩
  | spare =>
      cases means
      exact Or.inl ⟨Or.inr rfl, rfl⟩
  | up offset =>
      cases means
      exact Or.inr ⟨by simp, _, rfl⟩
  | down offset =>
      cases means
      exact Or.inr ⟨by simp, _, rfl⟩
  | popCore regs =>
      obtain ⟨rfl, -⟩ := means
      exact Or.inr ⟨by simp, _, rfl⟩
  | vspFrom reg =>
      obtain ⟨same, small⟩ := means
      cases same
      have isCore : BitVec.ofNat 32 reg < 16 := by
        rw [BitVec.lt_def, BitVec.toNat_ofNat]
        exact (Nat.mod_le _ _).trans_lt small
      exact Or.inr ⟨by simp, _, if_pos isCore⟩
  | finish =>
      cases means
      exact Or.inr ⟨by simp, _, rfl⟩
  | popDoubles first count format =>
      obtain ⟨rfl, -⟩ := means
      exact Or.inr ⟨by simp, _, rfl⟩
  | popWmmx count =>
      obtain ⟨rfl, -⟩ := means
      exact Or.inr ⟨by simp, _, rfl⟩
  | popWmmxControl count =>
      obtain ⟨rfl, -⟩ := means
      exact Or.inr ⟨by simp, _, rfl⟩

theorem not_offset_of_refused {rest left : List Byte} {instr : Ehabi.Instr}
    (read : Ehabi.readInstr 0xb2 rest = .ok (instr, left)) :
    ¬ (instr = .refuse ∨ instr = .spare) := by
  obtain ⟨_, -, read⟩ := bind_eq_ok.mp read
  cases read
  simp

/-! ## The whole buffer -/

section Whole

variable {τ : Type} {localOnly : Bool} {as : AddrSpace 32} {bytes rest : List Byte} {op : Byte}
  {c : Cursor τ}

theorem decodeRest_cons : decodeRest localOnly as (op :: rest) c =
    decodeRound localOnly as (op :: rest, c) >>= fun s => decodeRest localOnly as s.1 s.2 := by
  have enter : decodeGuard (op :: rest, c) = true := rfl
  cases round : decodeRound localOnly as (op :: rest, c) with
  | error e => exact WhileLoop.run_fail enter round rest.length
  | ok next =>
      obtain ⟨left, c'⟩ := next
      have shorter : left.length ≤ rest.length := by
        obtain ⟨_, first, last⟩ := bind_eq_ok.mp round
        cases first
        obtain ⟨⟨edata, left'⟩, decoded, last⟩ := bind_eq_ok.mp last
        obtain ⟨_, -, last⟩ := bind_eq_ok.mp last
        cases last
        exact decodeOp_consumes op rest edata left decoded
      have goesOn : decodeRest localOnly as (op :: rest) c = WhileLoop.run .timeout decodeGuard
          (decodeRound localOnly as) rest.length (left, c') :=
        WhileLoop.run_next enter round rest.length
      rw [goesOn, ok_bind]
      exact WhileLoop.run_agree (decodeRun_ne_timeout localOnly as c' shorter)
        (decodeRun_ne_timeout localOnly as c' (Nat.le_refl _))

/-- Decoding goes no further than the bytes, and ends after one finish. -/
def FinishesOnce (localOnly : Bool) (as : AddrSpace 32) (bytes : List Byte) (c : Cursor τ) :
    Prop :=
  Defined (decodeRest localOnly as bytes c) ∧
    ∀ s', decodeRest localOnly as bytes c = .ok s' →
      ∃! s, WhileLoop.Reaches decodeGuard (decodeRound localOnly as) (bytes, c) s ∧ AppliesFinish s

theorem not_finishesOnce_nil : ¬ FinishesOnce localOnly as [] c := by
  intro finishes
  obtain ⟨s, ⟨path, op, rest, _, _, some', -⟩, -⟩ := finishes.2 ([], c) rfl
  rw [path.of_exit rfl] at some'
  cases some'

theorem finishesOnce_finish : FinishesOnce localOnly as (0xb0 :: rest) c := by
  have round : ∃ c', decodeRound localOnly as (0xb0 :: rest, c) = .ok ([], c') := ⟨_, rfl⟩
  obtain ⟨c', round⟩ := round
  have ended : decodeRest localOnly as (0xb0 :: rest) c = .ok ([], c') := by
    rw [decodeRest_cons, round]
    rfl
  refine ⟨ended ▸ .ok _, ?_⟩
  intro _ _
  refine ⟨(0xb0 :: rest, c), ⟨.refl _, 0xb0, rest, _, _, rfl, rfl, rfl⟩, ?_⟩
  rintro s ⟨path, op, rest', _, _, some', -⟩
  cases path.of_round round with
  | inl start => exact start
  | inr later =>
      rw [later.of_exit rfl] at some'
      cases some'

theorem finishesOnce_next {left : List Byte} {c' : Cursor τ} (other : op ≠ 0xb0)
    (round : decodeRound localOnly as (op :: rest, c) = .ok (left, c')) :
    FinishesOnce localOnly as (op :: rest) c ↔ FinishesOnce localOnly as left c' := by
  have goesOn : decodeRest localOnly as (op :: rest) c = decodeRest localOnly as left c' := by
    rw [decodeRest_cons, round]
    rfl
  have heads (s : DecodeState τ) :
      (WhileLoop.Reaches decodeGuard (decodeRound localOnly as) (op :: rest, c) s ∧
          AppliesFinish s) ↔
        WhileLoop.Reaches decodeGuard (decodeRound localOnly as) (left, c') s ∧
          AppliesFinish s := by
    constructor
    · rintro ⟨path, finish⟩
      cases path.of_round round with
      | inl start =>
          subst start
          obtain ⟨op', rest', edata, left', same, decoded, isFinish⟩ := finish
          cases same
          exact absurd (finish_of_decodeOp decoded isFinish) other
      | inr later => exact ⟨later, finish⟩
    · rintro ⟨path, finish⟩
      exact ⟨.step rfl round path, finish⟩
  simp only [FinishesOnce, goesOn, heads]

/-- The decoder stays in the buffer and finishes once just when the instructions are complete. -/
theorem finishesOnce_iff : FinishesOnce localOnly as bytes c ↔ Complete bytes := by
  induction length : bytes.length using Nat.strong_induction_on generalizing bytes c with
  | _ n ih =>
      cases bytes with
      | nil => exact iff_of_false not_finishesOnce_nil nofun
      | cons op rest =>
          by_cases isFinish : op = 0xb0
          · subst isFinish
            exact iff_of_true finishesOnce_finish (.finish rest)
          · cases decodeOp_decodes op rest with
            | inl undefined =>
                have cut : decodeRest localOnly as (op :: rest) c = .error .undefined := by
                  rw [decodeRest_cons]
                  simp only [decodeRound, readOp, ok_bind, undefined, error_bind]
                apply iff_of_false
                · exact fun finishes => finishes.1 cut
                · intro complete
                  cases complete with
                  | finish => exact isFinish rfl
                  | refused read refused =>
                      apply decodeOp_defined read _ undefined
                      rintro rfl
                      exact absurd refused (not_offset_of_refused read)
                  | next read short _ => exact decodeOp_defined read short undefined
            | inr decodes =>
                obtain ⟨edata, instr, left, decoded, read, means⟩ := decodes
                have shorter := decodeOp_consumes op rest edata left decoded
                have round : decodeRound localOnly as (op :: rest, c) =
                    armExidxApplyCmd localOnly as edata c >>= fun c => .ok (left, c) := by
                  simp only [decodeRound, readOp, ok_bind, decoded]
                cases apply_outcome means localOnly as c with
                | inl refused =>
                    have failed : decodeRest localOnly as (op :: rest) c =
                        .error (.err .unspec) := by
                      rw [decodeRest_cons, round, refused.2]
                      rfl
                    apply iff_of_true
                    · exact ⟨failed ▸ .err _, fun s' ended => by simp [failed] at ended⟩
                    · exact .refused read refused.1
                | inr accepted =>
                    obtain ⟨accepted, c', applied⟩ := accepted
                    rw [applied] at round
                    rw [finishesOnce_next isFinish round, ih left.length
                      (by simp only [List.length_cons] at length; omega) rfl]
                    constructor
                    · intro complete
                      refine .next read ?_ complete
                      rintro rfl
                      exact short_of_decodeOp decoded
                    · intro complete
                      cases complete with
                      | finish => exact absurd rfl isFinish
                      | refused read' refused =>
                          cases read.symm.trans read'
                          exact absurd refused accepted
                      | next read' _ complete =>
                          cases read.symm.trans read'
                          exact complete

theorem armExidxDecode_eq (some' : bytes ≠ []) : armExidxDecode localOnly as bytes c =
    (decodeRest localOnly as bytes c).map Prod.snd := if_neg some'

/-- What `arm_exidx_step` needs of the extraction and the decoding of an entry. -/
structure StaysInside (localOnly : Bool) (as : AddrSpace 32) (entry : Word 32) (c : Cursor τ) :
    Prop where
  /-- No assertion fails. -/
  asserts : Defined (armExidxExtract as entry)
  fits : ∀ bytes, armExidxExtract as entry = .ok bytes → bytes.length ≤ 32
  /-- No byte behind the buffer is read. -/
  inside : ∀ bytes, armExidxExtract as entry = .ok bytes →
    Defined (armExidxDecode localOnly as bytes c)
  finished : ∀ bytes c', armExidxExtract as entry = .ok bytes →
    armExidxDecode localOnly as bytes c = .ok c' →
    ∃! s, WhileLoop.Reaches decodeGuard (decodeRound localOnly as) (bytes, c) s ∧ AppliesFinish s

theorem decode_extracted {entry : Word 32} (extracted : armExidxExtract as entry = .ok bytes) :
    armExidxDecode localOnly as bytes c = (decodeRest localOnly as bytes c).map Prod.snd :=
  armExidxDecode_eq (List.length_pos_iff.mp (extract_length extracted).1)

theorem StaysInside.complete {entry : Word 32} (safe : StaysInside localOnly as entry c)
    (extracted : armExidxExtract as entry = .ok bytes) : Complete bytes := by
  have decodes : armExidxDecode localOnly as bytes c =
      (decodeRest localOnly as bytes c).map Prod.snd := decode_extracted extracted
  have finishes : FinishesOnce localOnly as bytes c := by
    constructor
    · intro undefined
      apply safe.inside bytes extracted
      rw [decodes, undefined]
      rfl
    · intro s' ended
      apply safe.finished bytes s'.2 extracted
      rw [decodes, ended]
      rfl
  exact finishesOnce_iff.mp finishes

end Whole

/-! ## An operand that looks like a finish -/

namespace LastOperand

/-- An inline entry for a function at `0x8000`, with the instructions `vpop {d11}` behind a
    `pop {r4}`. -/
def as : AddrSpace 32 where
  bigEndian := false
  readByte _ := .error .inval
  accessMem addr :=
    if addr = 0x10000 then .ok 0x7fff8000
    else if addr = 0x10004 then .ok 0x80a0c9b0
    else .error .inval
  accessReg _ := .error .badreg
  accessFpreg _ := .error .badreg

theorem extracted : armExidxExtract as 0x10000 = .ok [0xa0, 0xc9, 0xb0] := by decide

end LastOperand

end Libunwind.Arm
