import Libunwind.Ia64.BuildScript

/-! # Scripts undo the saves in order

When a register is saved, its value is copied to a save location, which may be another register that
is saved later on. A script finds where each entry value is at the end if it undoes the saves from
the last one to the first.
-/

namespace Libunwind.Ia64

/-! ## What the saves leave behind -/

/-- Where a value may be: in a register of the procedure, or elsewhere. -/
inductive Place where
  | reg (k : Preg)
  | at (loc : Ia64Loc)
  deriving DecidableEq

namespace Preg

/-- A register with a save of its own; the NaT bits go with `r4` to `r7`. -/
def HasEntry (i : Preg) : Prop := bsp ≤ i ∧ ¬(nat4 ≤ i ∧ i ≤ nat7)

instance (i : Preg) : Decidable i.HasEntry := inferInstanceAs (Decidable (_ ∧ _))

/-- The register with a number. -/
def ofVal (val : Word 64) : Preg := Fin.ofNat 45 val.toNat

end Preg

section Places

variable (scratchLoc : Word 64 → Ia64Loc × Byte) (c : ScriptCursor)

/-- A slot on the memory stack. -/
def memSlot (base : Word 64) (i : Preg) (val : Word 64) : Ia64Loc :=
  let val := if i.IsPreservedFr then val ||| 1 else val
  ia64LocAddr (base + val) (if i.IsPreservedGr then 0 else val &&& 1)

/-- Where a register is saved to; for a stacked register that there is not, nowhere. -/
def savePlace (i : Preg) (r : RegInfo) : Result Place :=
  let rval := r.val
  match r.saved with
  | .gr =>
      if 32 ≤ rval then do
        let (loc, _) ← ia64GetStacked c.rbs rval
        pure (.at loc)
      else if 4 ≤ rval ∧ rval ≤ 7 then pure (.reg (.ofVal (pregVal .r4 rval 4)))
      else pure (.at (scratchLoc (unwGr + rval)).1)
  | .fr =>
      if 2 ≤ rval ∧ rval ≤ 5 then pure (.reg (.ofVal (pregVal .f2 rval 2)))
      else if 16 ≤ rval ∧ rval ≤ 31 then pure (.reg (.ofVal (pregVal .f16 rval 16)))
      else pure (.at (scratchLoc (unwFr + rval)).1)
  | .br =>
      if 1 ≤ rval ∧ rval ≤ 5 then pure (.reg (.ofVal (pregVal .b1 rval 1)))
      else pure (.at (scratchLoc (unwBr + rval)).1)
  | .sprel => pure (.at (memSlot c.sp i rval))
  | .psprel => pure (.at (memSlot c.psp i rval))
  | .none | .spillHome | .grSave => .error .undefined

end Places

/-- On entry each register has its own value. -/
def entry : Place → Option Preg
  | .reg k => if k.HasEntry then some k else none
  | .at _ => none

/-- Saving a register: its value is copied, and it is free for other uses. -/
def saveReg (place : Preg → Place) (held : Place → Option Preg) (i : Preg) : Place → Option Preg :=
  Function.update (Function.update held (.reg i) none) (place i) (held (.reg i))

/-- Which entry values the places still hold after some saves. -/
def heldAfter (place : Preg → Place) (times : List Preg) : Place → Option Preg :=
  times.foldl (saveReg place) entry

/-- The saved registers in the order of their saves. -/
def savesInTime (sr : StateRecord) : List Preg :=
  (savedRegs sr).mergeSort fun r s => (sr.curr.reg r).when ≤ (sr.curr.reg s).when

/-- The location of a place, as the cursor knew it before the script was run. -/
def Place.locIn (c : ScriptCursor) : Place → Ia64Loc
  | .reg k => c.loc k
  | .at loc => loc

/-- A script that has been run has found the places that still hold the entry values. -/
def Restores (sr : StateRecord) (scratchLoc : Word 64 → Ia64Loc × Byte) (c c' : ScriptCursor) : Prop :=
  ∃ place : Preg → Place,
    (∀ i ∈ savedRegs sr, savePlace scratchLoc c' i (sr.curr.reg i) = .ok (place i)) ∧
    ∀ i pl, heldAfter place (savesInTime sr) pl = some i → c'.loc i = pl.locIn c

/-- The saves are sorted from the last one to the first, the script fits into its array together with
    the instruction that is read behind it, and whenever it is run to its end it has found the entry
    values. -/
structure ScriptRight (sr : StateRecord) : Prop where
  perm : (sortRegs sr).Perm (savedRegs sr)
  decreasing : (sortRegs sr).Pairwise fun r s => (sr.curr.reg s).when < (sr.curr.reg r).when
  fits : (buildScript sr).length < maxScriptLen
  restores : ∀ get scratchLoc c c',
    runScript get scratchLoc (buildScript sr) c = .ok c' → Restores sr scratchLoc c c'

/-- Each saved register is in another register, or on the memory stack. -/
def SavesResolved (sr : StateRecord) : Prop :=
  ∀ i ∈ savedRegs sr, (sr.curr.reg i).saved ∈ [Where.gr, .fr, .br, .sprel, .psprel]

/-- No two registers are saved at the same time. -/
def SavesApart (sr : StateRecord) : Prop :=
  ∀ i ∈ savedRegs sr, ∀ j ∈ savedRegs sr,
    (sr.curr.reg i).when = (sr.curr.reg j).when → i = j

/-- The condition: in no round of the sort but the last one, the last save of those that are left is
    the first of them, and in the last round only if it has just been put there. -/
def SavesInTurn (sr : StateRecord) : Prop :=
  CarriedSelection.InTurn (fun r => (sr.curr.reg r).when) (savedRegs sr).length
    ((savedRegs sr).length - 1) 0 0 ((savedRegs sr).getD · 0)

instance (sr : StateRecord) : Decidable (SavesInTurn sr) :=
  inferInstanceAs (Decidable (CarriedSelection.InTurn ..))

/-! ## The sort -/

section SortedSaves

variable {sr : StateRecord}

theorem mem_savedRegs {i : Preg} : i ∈ savedRegs sr ↔
    Preg.bsp ≤ i ∧ (sr.curr.reg i).saved ≠ .none ∧ (sr.curr.reg i).when < sr.whenTarget := by
  rw [savedRegs, List.mem_filter]
  simp

theorem nodup_savedRegs (sr : StateRecord) : (savedRegs sr).Nodup :=
  (List.nodup_finRange 45).filter _

theorem map_getD {α : Type} (l : List α) (d : α) : (List.range l.length).map (l.getD · d) = l := by
  apply List.ext_getElem
  · rw [List.length_map, List.length_range]
  · intro p inside inside'
    rw [List.getElem_map, List.getElem_range, List.getD_eq_getElem _ _ inside']

theorem sortRegs_perm (sr : StateRecord) : (sortRegs sr).Perm (savedRegs sr) := by
  have sorted := CarriedSelection.sort_perm (fun r => (sr.curr.reg r).when)
    (savedRegs sr).length ((savedRegs sr).getD · 0)
  rwa [map_getD] at sorted

theorem pairwise_map_range {α : Type} {R : α → α → Prop} (n : Nat) (f : Nat → α) :
    ((List.range n).map f).Pairwise R ↔ ∀ p q, p < q → q < n → R (f p) (f q) := by
  rw [List.pairwise_iff_getElem]
  constructor
  · intro each p q lt inside
    have here := each p q (by simpa using lt.trans inside) (by simpa using inside) lt
    simpa using here
  · intro each p q inside inside' lt
    simpa using each p q lt (by simpa using inside')

/-- The saves are sorted just when they come in turn. -/
theorem sortRegs_decreasing_iff (apart : SavesApart sr) :
    ((sortRegs sr).Pairwise fun r s => (sr.curr.reg s).when < (sr.curr.reg r).when) ↔
      SavesInTurn sr := by
  rw [sortRegs, pairwise_map_range]
  refine CarriedSelection.sort_decreasing_iff (fun r => (sr.curr.reg r).when)
    fun p q inside inside' same => ?_
  rw [List.getD_eq_getElem _ _ inside, List.getD_eq_getElem _ _ inside'] at same
  have equal : (savedRegs sr)[p] = (savedRegs sr)[q] :=
    apart _ (List.getElem_mem inside) _ (List.getElem_mem inside') same
  exact (nodup_savedRegs sr).getElem_inj_iff.mp equal

/-- Sorted, they are the saves from the last one to the first. -/
theorem savesInTime_eq (apart : SavesApart sr)
    (decreasing : (sortRegs sr).Pairwise fun r s => (sr.curr.reg s).when < (sr.curr.reg r).when) :
    savesInTime sr = (sortRegs sr).reverse := by
  have perm : (savesInTime sr).Perm (sortRegs sr).reverse :=
    (List.mergeSort_perm _ _).trans ((sortRegs_perm sr).symm.trans (List.reverse_perm _).symm)
  have ascending : (savesInTime sr).Pairwise fun r s =>
      decide ((sr.curr.reg r).when ≤ (sr.curr.reg s).when) = true := by
    refine List.pairwise_mergeSort ?_ ?_ _
    · intro r s t first second
      exact decide_eq_true ((of_decide_eq_true first).trans (of_decide_eq_true second))
    · intro r s
      rw [Bool.or_eq_true, decide_eq_true_eq, decide_eq_true_eq]
      exact le_total _ _
  refine perm.eq_of_pairwise ?_ ascending ?_
  · intro r s mem mem' first second
    have saved : r ∈ savedRegs sr := (List.mergeSort_perm _ _).mem_iff.mp mem
    have saved' : s ∈ savedRegs sr := (sortRegs_perm sr).mem_iff.mp (List.mem_reverse.mp mem')
    exact apart r saved s saved'
      (le_antisymm (of_decide_eq_true first) (of_decide_eq_true second))
  · rw [List.pairwise_reverse]
    exact decreasing.imp fun less => decide_eq_true (le_of_lt less)

end SortedSaves

/-! ## The instructions -/

section Instructions

variable {get : Ia64Loc → Result (Word 64)} {scratchLoc : Word 64 → Ia64Loc × Byte}
  {c c' : ScriptCursor} {sr : StateRecord} {i k : Preg} {r : RegInfo} {pl : Place}

/-- All but the locations of NaT bits is the same. -/
structure SameButNat (c c' : ScriptCursor) : Prop where
  loc : ∀ k, ¬(Preg.nat4 ≤ k ∧ k ≤ Preg.nat7) → c'.loc k = c.loc k
  sp : c'.sp = c.sp
  psp : c'.psp = c.psp
  rbs : c'.rbs = c.rbs

theorem SameButNat.refl (c : ScriptCursor) : SameButNat c c := ⟨fun _ _ => rfl, rfl, rfl, rfl⟩

/-- A register has got a location, and the other ones have kept theirs. -/
structure Moved (dst : Preg) (loc : Ia64Loc) (c c' : ScriptCursor) : Prop where
  here : c'.loc dst = loc
  others : ∀ k, k ≠ dst → ¬(Preg.nat4 ≤ k ∧ k ≤ Preg.nat7) → c'.loc k = c.loc k
  sp : c'.sp = c.sp
  psp : c'.psp = c.psp
  rbs : c'.rbs = c.rbs

theorem SameButNat.setLoc (same : SameButNat c c') (dst : Preg) (loc : Ia64Loc) :
    Moved dst loc c (setLoc c' dst loc) where
  here := Function.update_self _ _ _
  others k other main := (Function.update_of_ne other _ _).trans (same.loc k main)
  sp := same.sp
  psp := same.psp
  rbs := same.rbs

theorem setNatInfo_same {dst : Preg} {natLoc : Ia64Loc} {bitnr : Byte}
    (set : setNatInfo c dst natLoc bitnr = .ok c') : SameButNat c c' := by
  have natRegs : ∀ dst : Preg, Preg.r4.val ≤ dst.val ∧ dst.val < Preg.r4.val + 4 →
      Preg.nat4 ≤ dst - .r4 + .nat4 ∧ dst - .r4 + .nat4 ≤ Preg.nat7 := by decide
  rw [setNatInfo] at set
  split at set
  · next inside =>
      obtain rfl := Except.ok.inj set
      refine ⟨fun k main => Function.update_of_ne ?_ _ _, rfl, rfl, rfl⟩
      rintro rfl
      exact main (natRegs dst inside)
  · exact nomatch set

/-- The location that an instruction gives its destination. -/
def insnLoc (scratchLoc : Word 64 → Ia64Loc × Byte) (c : ScriptCursor) (val : Word 64) :
    ScriptOpcode → Result Ia64Loc
  | .moveStacked | .moveStackedNat => do
      let (loc, _) ← ia64GetStacked c.rbs val
      pure loc
  | .addPsp => pure (ia64LocAddr (c.psp + val) (val &&& 1))
  | .addPspNat => pure (ia64LocAddr (c.psp + val) 0)
  | .addSp => pure (ia64LocAddr (c.sp + val) (val &&& 1))
  | .addSpNat => pure (ia64LocAddr (c.sp + val) 0)
  | .move | .moveNat | .moveNoNat => c.locAt val
  | .moveScratch | .moveScratchNat | .moveScratchNoNat => pure (scratchLoc val).1
  | .incPsp | .loadPsp => .error .undefined

theorem SameButNat.locAt {val : Word 64} (same : SameButNat c c')
    (main : ∀ k : Preg, k.val = val.toNat → ¬(Preg.nat4 ≤ k ∧ k ≤ .nat7)) :
    c'.locAt val = c.locAt val := by
  rw [ScriptCursor.locAt, ScriptCursor.locAt]
  split
  · rw [same.loc _ (main _ rfl)]
  · rfl

theorem runInsn_moves {opc : ScriptOpcode} {val : Word 64} (moves : opc ≠ .incPsp ∧ opc ≠ .loadPsp)
    (main : opc = .moveNoNat → ∀ k : Preg, k.val = val.toNat → ¬(Preg.nat4 ≤ k ∧ k ≤ .nat7))
    (run : runInsn get scratchLoc c ⟨opc, i, val⟩ = .ok c') :
    ∃ loc, insnLoc scratchLoc c val opc = .ok loc ∧ Moved i loc c c' := by
  cases opc with
  | incPsp => exact absurd rfl moves.1
  | loadPsp => exact absurd rfl moves.2
  | addPsp | addSp | moveScratch =>
      obtain rfl := Except.ok.inj run
      exact ⟨_, rfl, (SameButNat.refl c).setLoc i _⟩
  | addPspNat | addSpNat | moveScratchNat | moveScratchNoNat =>
      obtain ⟨d, set, result⟩ := bind_eq_ok.mp run
      obtain rfl := Except.ok.inj result
      exact ⟨_, rfl, (setNatInfo_same set).setLoc i _⟩
  | move =>
      obtain ⟨loc, found, result⟩ := bind_eq_ok.mp run
      obtain rfl := Except.ok.inj result
      exact ⟨loc, found, (SameButNat.refl c).setLoc i _⟩
  | moveNat =>
      obtain ⟨loc, found, run⟩ := bind_eq_ok.mp run
      obtain ⟨natLoc, _, run⟩ := bind_eq_ok.mp run
      obtain ⟨bitnr, _, run⟩ := bind_eq_ok.mp run
      obtain ⟨d, set, result⟩ := bind_eq_ok.mp run
      obtain rfl := Except.ok.inj result
      exact ⟨loc, found, (setNatInfo_same set).setLoc i _⟩
  | moveNoNat =>
      obtain ⟨d, set, run⟩ := bind_eq_ok.mp run
      obtain ⟨loc, found, result⟩ := bind_eq_ok.mp run
      obtain rfl := Except.ok.inj result
      rw [(setNatInfo_same set).locAt (main rfl)] at found
      exact ⟨loc, found, (setNatInfo_same set).setLoc i _⟩
  | moveStacked =>
      obtain ⟨⟨loc, natLoc⟩, found, result⟩ := bind_eq_ok.mp run
      obtain rfl := Except.ok.inj result
      exact ⟨loc, by rw [insnLoc, found]; rfl, (SameButNat.refl c).setLoc i _⟩
  | moveStackedNat =>
      obtain ⟨⟨loc, natLoc⟩, found, run⟩ := bind_eq_ok.mp run
      simp only at run
      split at run
      · exact nomatch run
      · obtain ⟨d, set, result⟩ := bind_eq_ok.mp run
        obtain rfl := Except.ok.inj result
        exact ⟨loc, by rw [insnLoc, found]; rfl, (setNatInfo_same set).setLoc i _⟩

/-- A place that is not in a register of the NaT bits. -/
def Place.IsMain : Place → Prop
  | .reg k => k.HasEntry
  | .at _ => True

theorem ofVal_eq {val : Word 64} (same : k.val = val.toNat) : Preg.ofVal val = k := by
  apply Fin.ext
  rw [Preg.ofVal, Fin.val_ofNat, ← same]
  exact Nat.mod_eq_of_lt k.isLt

theorem locAt_eq_ok {val : Word 64} {loc : Ia64Loc} (found : c.locAt val = .ok loc) :
    c.loc (.ofVal val) = loc := by
  rw [ScriptCursor.locAt] at found
  split at found
  · next inside =>
      rw [ofVal_eq (k := ⟨val.toNat, inside⟩) rfl]
      exact Except.ok.inj found
  · exact nomatch found

/-- The number of a preserved register is that of one with a save of its own. -/
theorem hasEntry_pregVal {first : Preg} {rval least : Word 64} (n : Nat)
    (range : least.toNat ≤ rval.toNat ∧ rval.toNat ≤ least.toNat + n)
    (inside : Preg.bsp.val ≤ first.val ∧ first.val + n < Preg.nat4.val ∨
      Preg.nat7.val < first.val ∧ first.val + n < 45) :
    (Preg.ofVal (pregVal first rval least)).HasEntry := by
  have number : (pregVal first rval least).toNat = first.val + (rval.toNat - least.toNat) := by
    have bound := first.isLt
    rw [pregVal, BitVec.toNat_add, BitVec.toNat_ofNat, BitVec.toNat_sub_of_le range.1]
    omega
  rw [Preg.HasEntry, Fin.le_def, Fin.le_def, Fin.le_def, Preg.ofVal, Fin.val_ofNat, number]
  change 3 ≤ _ ∧ ¬(12 ≤ _ ∧ _ ≤ 15)
  change 3 ≤ first.val ∧ first.val + n < 12 ∨ 15 < first.val ∧ first.val + n < 45 at inside
  omega

theorem Preg.IsPreservedGr.not_fr (isGr : i.IsPreservedGr) : ¬i.IsPreservedFr := by
  have apart : ∀ i : Preg, i.IsPreservedGr → ¬i.IsPreservedFr := by decide
  exact apart i isGr

/-- The instruction for a save gives its register a location; without NaT bits it takes that of a
    branch register. -/
theorem saveInsn_moves (i : Preg) (r : RegInfo) :
    ((saveInsn i r).1 ≠ .incPsp ∧ (saveInsn i r).1 ≠ .loadPsp) ∧
      ((saveInsn i r).1 = .moveNoNat →
        ∀ k : Preg, k.val = (saveInsn i r).2.toNat → ¬(Preg.nat4 ≤ k ∧ k ≤ .nat7)) := by
  rw [saveInsn]
  cases r.saved with
  | none | spillHome | grSave => exact ⟨⟨nofun, nofun⟩, nofun⟩
  | gr | fr | sprel | psprel =>
      simp only
      repeat' split
      all_goals exact ⟨⟨nofun, nofun⟩, nofun⟩
  | br =>
      by_cases preserved : 1 ≤ r.val ∧ r.val ≤ 5
      · have isMain : (Preg.ofVal (pregVal .b1 r.val 1)).HasEntry :=
          hasEntry_pregVal 4 preserved (by decide)
        simp only [if_pos preserved]
        refine ⟨?_, fun _ k same => ?_⟩
        · split
          all_goals exact ⟨nofun, nofun⟩
        · rw [← ofVal_eq same]
          exact isMain.2
      · simp only [if_neg preserved]
        split
        all_goals exact ⟨⟨nofun, nofun⟩, nofun⟩

/-- An instruction for a save has the location of the save's place. -/
theorem insnLoc_saveInsn (resolved : r.saved ∈ [Where.gr, .fr, .br, .sprel, .psprel]) {loc : Ia64Loc}
    (found : insnLoc scratchLoc c (saveInsn i r).2 (saveInsn i r).1 = .ok loc) :
    ∃ pl, savePlace scratchLoc c i r = .ok pl ∧ pl.IsMain ∧ pl.locIn c = loc := by
  cases saved : r.saved with
  | none | spillHome | grSave =>
      rw [saved] at resolved
      exact absurd resolved (by decide)
  | gr =>
      simp only [saveInsn, savePlace, saved] at found ⊢
      by_cases stacked : 32 ≤ r.val
      · simp only [if_pos stacked] at found ⊢
        have found : (ia64GetStacked c.rbs r.val >>= fun found => pure found.1) = .ok loc := by
          split at found
          · exact found
          · exact found
        obtain ⟨⟨loc', natLoc⟩, isFound, result⟩ := bind_eq_ok.mp found
        exact ⟨.at loc', by rw [isFound]; rfl, trivial, Except.ok.inj result⟩
      · simp only [if_neg stacked] at found ⊢
        by_cases preserved : 4 ≤ r.val ∧ r.val ≤ 7
        · simp only [if_pos preserved] at found ⊢
          have found : c.locAt (pregVal .r4 r.val 4) = .ok loc := by
            split at found
            · exact found
            · exact found
          exact ⟨_, rfl, hasEntry_pregVal 3 preserved (by decide), locAt_eq_ok found⟩
        · simp only [if_neg preserved] at found ⊢
          have found : (scratchLoc (unwGr + r.val)).1 = loc := by
            split at found
            · exact Except.ok.inj found
            · exact Except.ok.inj found
          exact ⟨_, rfl, trivial, found⟩
  | fr =>
      simp only [saveInsn, savePlace, saved] at found ⊢
      by_cases low : 2 ≤ r.val ∧ r.val ≤ 5
      · simp only [if_pos low] at found ⊢
        exact ⟨_, rfl, hasEntry_pregVal 3 low (by decide), locAt_eq_ok found⟩
      · simp only [if_neg low] at found ⊢
        by_cases high : 16 ≤ r.val ∧ r.val ≤ 31
        · simp only [if_pos high] at found ⊢
          exact ⟨_, rfl, hasEntry_pregVal 15 high (by decide), locAt_eq_ok found⟩
        · simp only [if_neg high] at found ⊢
          exact ⟨_, rfl, trivial, Except.ok.inj found⟩
  | br =>
      simp only [saveInsn, savePlace, saved] at found ⊢
      by_cases preserved : 1 ≤ r.val ∧ r.val ≤ 5
      · simp only [if_pos preserved] at found ⊢
        have found : c.locAt (pregVal .b1 r.val 1) = .ok loc := by
          split at found
          · exact found
          · exact found
        exact ⟨_, rfl, hasEntry_pregVal 4 preserved (by decide), locAt_eq_ok found⟩
      · simp only [if_neg preserved] at found ⊢
        have found : (scratchLoc (unwBr + r.val)).1 = loc := by
          split at found
          · exact Except.ok.inj found
          · exact Except.ok.inj found
        exact ⟨_, rfl, trivial, found⟩
  | sprel =>
      simp only [saveInsn, savePlace, saved, memSlot] at found ⊢
      by_cases isGr : i.IsPreservedGr
      · simp only [if_pos isGr, if_neg isGr.not_fr] at found ⊢
        exact ⟨_, rfl, trivial, Except.ok.inj found⟩
      · simp only [if_neg isGr] at found ⊢
        exact ⟨_, rfl, trivial, Except.ok.inj found⟩
  | psprel =>
      simp only [saveInsn, savePlace, saved, memSlot] at found ⊢
      by_cases isGr : i.IsPreservedGr
      · simp only [if_pos isGr, if_neg isGr.not_fr] at found ⊢
        exact ⟨_, rfl, trivial, Except.ok.inj found⟩
      · simp only [if_neg isGr] at found ⊢
        exact ⟨_, rfl, trivial, Except.ok.inj found⟩

/-- What an instruction for a save does. -/
theorem runInsn_save (resolved : r.saved ∈ [Where.gr, .fr, .br, .sprel, .psprel])
    (run : runInsn get scratchLoc c ⟨(saveInsn i r).1, i, (saveInsn i r).2⟩ = .ok c') :
    ∃ pl, savePlace scratchLoc c i r = .ok pl ∧ pl.IsMain ∧ Moved i (pl.locIn c) c c' := by
  obtain ⟨moves, main⟩ := saveInsn_moves i r
  obtain ⟨loc, found, moved⟩ := runInsn_moves moves main run
  obtain ⟨pl, isPlace, isMain, rfl⟩ := insnLoc_saveInsn resolved found
  exact ⟨pl, isPlace, isMain, moved⟩

/-! ## The whole script -/

theorem runInsns_append {first second : List ScriptInsn} {n : Nat}
    (run : runInsns get scratchLoc n (first ++ second) c = .ok c') :
    ∃ d, runInsns get scratchLoc n first c = .ok d ∧
      runInsns get scratchLoc (n + first.length) second d = .ok c' := by
  induction first generalizing n c with
  | nil => exact ⟨c, rfl, run⟩
  | cons insn first ih =>
      rw [List.cons_append, runInsns] at run
      rw [runInsns]
      split at run
      · next inside =>
          obtain ⟨e, here, later⟩ := bind_eq_ok.mp run
          obtain ⟨d, ran, rest⟩ := ih later
          refine ⟨d, ?_, ?_⟩
          · rw [if_pos inside, here]
            exact ran
          · rwa [List.length_cons, Nat.add_comm first.length, ← Nat.add_assoc]
      · exact nomatch run

/-- The step of a run. -/
theorem runInsns_cons {insn : ScriptInsn} {rest : List ScriptInsn} {n : Nat}
    (run : runInsns get scratchLoc n (insn :: rest) c = .ok c') :
    ∃ d, runInsn get scratchLoc c insn = .ok d ∧ runInsns get scratchLoc (n + 1) rest d = .ok c' := by
  rw [runInsns] at run
  split at run
  · exact bind_eq_ok.mp run
  · exact nomatch run

/-- The instruction for a save of the record. -/
def insnOf (sr : StateRecord) (i : Preg) : ScriptInsn :=
  ⟨(saveInsn i (sr.curr.reg i)).1, i, (saveInsn i (sr.curr.reg i)).2⟩

/-- The place for a save of the record. -/
def placeOf (scratchLoc : Word 64 → Ia64Loc × Byte) (sr : StateRecord) (c : ScriptCursor) (i : Preg) :
    Place :=
  (savePlace scratchLoc c i (sr.curr.reg i)).toOption.getD (.reg i)

/-- The places depend on the stack pointers and the backing store only. -/
theorem savePlace_congr (sp : c'.sp = c.sp) (psp : c'.psp = c.psp) (rbs : c'.rbs = c.rbs) :
    savePlace scratchLoc c' i r = savePlace scratchLoc c i r := by
  rw [savePlace, savePlace, sp, psp, rbs]

/-- A value is in a register with a save of its own, or elsewhere. -/
theorem held_isMain {place : Preg → Place} {order : List Preg}
    (main : ∀ i ∈ order, (place i).IsMain)
    (held : order.foldr (fun i held => saveReg place held i) entry pl = some i) : pl.IsMain := by
  induction order generalizing pl i with
  | nil =>
      cases pl with
      | reg k =>
          rw [List.foldr_nil, entry] at held
          by_cases own : k.HasEntry
          · exact own
          · rw [if_neg own] at held
            exact nomatch held
      | «at» loc => trivial
  | cons x order ih =>
      rw [List.foldr_cons, saveReg] at held
      by_cases here : pl = place x
      · rw [here]
        exact main x List.mem_cons_self
      · rw [Function.update_of_ne here] at held
        by_cases freed : pl = .reg x
        · rw [freed, Function.update_self] at held
          exact nomatch held
        · rw [Function.update_of_ne freed] at held
          exact ih (fun j mem => main j (List.mem_cons_of_mem x mem)) held

/-- Undoing the saves from the last one to the first leads to the places that hold the entry values:
    the induction is on the saves that are left, with the cursor that the later ones have led to. -/
theorem runInsns_saves {order : List Preg} {n : Nat}
    (resolved : ∀ i ∈ order, (sr.curr.reg i).saved ∈ [Where.gr, .fr, .br, .sprel, .psprel])
    (run : runInsns get scratchLoc n (order.map (insnOf sr)) c = .ok c') :
    (c'.sp = c.sp ∧ c'.psp = c.psp ∧ c'.rbs = c.rbs) ∧
      (∀ i ∈ order, savePlace scratchLoc c i (sr.curr.reg i) = .ok (placeOf scratchLoc sr c i) ∧
        (placeOf scratchLoc sr c i).IsMain) ∧
      ∀ i pl, order.foldr (fun i held => saveReg (placeOf scratchLoc sr c) held i) entry pl = some i →
        c'.loc i = pl.locIn c := by
  induction order generalizing c n with
  | nil =>
      obtain rfl := Except.ok.inj run
      refine ⟨⟨rfl, rfl, rfl⟩, nofun, fun i pl held => ?_⟩
      cases pl with
      | reg k =>
          rw [List.foldr_nil, entry] at held
          split at held
          · rw [← Option.some.inj held]
            rfl
          · exact nomatch held
      | «at» loc => exact nomatch held
  | cons x order ih =>
      obtain ⟨d, here, later⟩ := runInsns_cons run
      obtain ⟨pl, isPlace, isMain, moved⟩ := runInsn_save (resolved x List.mem_cons_self) here
      have place : placeOf scratchLoc sr c x = pl := by
        rw [placeOf, isPlace]
        rfl
      have same (i : Preg) : savePlace scratchLoc d i (sr.curr.reg i) =
          savePlace scratchLoc c i (sr.curr.reg i) := savePlace_congr moved.sp moved.psp moved.rbs
      have samePlaces : placeOf scratchLoc sr d = placeOf scratchLoc sr c := by
        funext i
        rw [placeOf, placeOf, same]
      obtain ⟨⟨sp, psp, rbs⟩, places, restored⟩ :=
        ih (fun i mem => resolved i (List.mem_cons_of_mem x mem)) later
      rw [samePlaces] at places restored
      have all : ∀ i ∈ x :: order,
          savePlace scratchLoc c i (sr.curr.reg i) = .ok (placeOf scratchLoc sr c i) ∧
            (placeOf scratchLoc sr c i).IsMain := by
        intro i mem
        rcases List.mem_cons.mp mem with rfl | mem
        · rw [place]
          exact ⟨isPlace, isMain⟩
        · rw [← same]
          exact places i mem
      refine ⟨⟨sp.trans moved.sp, psp.trans moved.psp, rbs.trans moved.rbs⟩, all, fun i pl' held => ?_⟩
      rw [List.foldr_cons, saveReg] at held
      by_cases target : pl' = placeOf scratchLoc sr c x
      · rw [target, Function.update_self] at held
        rw [restored i (.reg x) held, target, place]
        exact moved.here
      · rw [Function.update_of_ne target] at held
        by_cases freed : pl' = .reg x
        · rw [freed, Function.update_self] at held
          exact nomatch held
        · rw [Function.update_of_ne freed] at held
          rw [restored i pl' held]
          cases pl' with
          | reg k =>
              have own : k.HasEntry := held_isMain (fun i mem => (places i mem).2) held
              exact moved.others k (fun same => freed (congrArg Place.reg same)) own.2
          | «at» loc => rfl

/-- An instruction from before the sorted saves. -/
inductive Preliminary : ScriptInsn → Prop
  | incPsp (dst val) : Preliminary ⟨.incPsp, dst, val⟩
  | loadPsp (dst val) : Preliminary ⟨.loadPsp, dst, val⟩
  | save {i : Preg} (r : RegInfo) (early : i < .bsp) :
      Preliminary ⟨(saveInsn i r).1, i, (saveInsn i r).2⟩

theorem scriptEmit_mem {script : List ScriptInsn} {insn x : ScriptInsn}
    (mem : x ∈ scriptEmit script insn) : x ∈ script ∨ x = insn := by
  rw [scriptEmit] at mem
  split at mem
  · exact .inl mem
  · simpa using mem

theorem scriptEmit_length (script : List ScriptInsn) (insn : ScriptInsn) :
    (scriptEmit script insn).length ≤ script.length + 1 := by
  rw [scriptEmit]
  split
  · omega
  · rw [List.length_append, List.length_singleton]

theorem compileReg_preliminary {script : List ScriptInsn} (early : i < .bsp)
    (all : ∀ x ∈ script, Preliminary x) :
    (∀ x ∈ compileReg sr i r script, Preliminary x) ∧
      (compileReg sr i r script).length ≤ script.length + if i = .psp then 2 else 1 := by
  have emits (x : ScriptInsn) (mem : x ∈ scriptEmit script ⟨(saveInsn i r).1, i, (saveInsn i r).2⟩) :
      Preliminary x := by
    rcases scriptEmit_mem mem with old | rfl
    · exact all x old
    · exact .save r early
  have length := scriptEmit_length script ⟨(saveInsn i r).1, i, (saveInsn i r).2⟩
  rw [compileReg]
  split
  · exact ⟨all, Nat.le_add_right _ _⟩
  · by_cases isPsp : i = .psp
    · simp only [if_pos isPsp]
      have length' := scriptEmit_length (scriptEmit script ⟨(saveInsn i r).1, i, (saveInsn i r).2⟩)
        ⟨.loadPsp, i, (saveInsn i r).2⟩
      refine ⟨fun x mem => ?_, by omega⟩
      rcases scriptEmit_mem mem with old | rfl
      · exact emits x old
      · exact .loadPsp ..
    · simp only [if_neg isPsp]
      exact ⟨emits, length⟩

/-- At most three instructions come before the sorted saves. -/
theorem preliminaries (sr : StateRecord) :
    (∀ x ∈ compilePriUnat sr (compilePsp sr), Preliminary x) ∧
      (compilePriUnat sr (compilePsp sr)).length ≤ 3 := by
  have psp : (∀ x ∈ compilePsp sr, Preliminary x) ∧ (compilePsp sr).length ≤ 2 := by
    rw [compilePsp]
    split
    · refine ⟨fun x mem => ?_, (scriptEmit_length _ _).trans (by decide)⟩
      rcases scriptEmit_mem mem with old | rfl
      · exact nomatch old
      · exact .incPsp ..
    · exact compileReg_preliminary (i := .psp) (by decide) nofun
  rw [compilePriUnat]
  simp only
  split
  · obtain ⟨compiled, length⟩ := compileReg_preliminary (i := .priUnatMem) (r := _) (by decide) psp.1
    rw [if_neg (by decide)] at length
    exact ⟨compiled, length.trans (Nat.succ_le_succ psp.2)⟩
  · exact ⟨psp.1, psp.2.trans (by decide)⟩

/-- Registers with a save of their own are where they were. -/
structure SameMain (c c' : ScriptCursor) : Prop where
  loc : ∀ k : Preg, k.HasEntry → c'.loc k = c.loc k
  sp : c'.sp = c.sp
  rbs : c'.rbs = c.rbs

theorem SameMain.trans {d : ScriptCursor} (first : SameMain c d) (second : SameMain d c') :
    SameMain c c' where
  loc k own := (second.loc k own).trans (first.loc k own)
  sp := second.sp.trans first.sp
  rbs := second.rbs.trans first.rbs

theorem Preliminary.run {insn : ScriptInsn} (preliminary : Preliminary insn)
    (run : runInsn get scratchLoc c insn = .ok c') : SameMain c c' := by
  cases preliminary with
  | incPsp dst val =>
      obtain rfl := Except.ok.inj run
      exact ⟨fun _ _ => rfl, rfl, rfl⟩
  | loadPsp dst val =>
      obtain ⟨psp, _, result⟩ := bind_eq_ok.mp run
      obtain rfl := Except.ok.inj result
      exact ⟨fun _ _ => rfl, rfl, rfl⟩
  | save r early =>
      obtain ⟨moves, main⟩ := saveInsn_moves _ r
      obtain ⟨loc, _, moved⟩ := runInsn_moves moves main run
      refine ⟨fun k own => moved.others k ?_ own.2, moved.sp, moved.rbs⟩
      rintro rfl
      exact absurd own.1 (not_le.mpr early)

theorem runInsns_preliminary {insns : List ScriptInsn} {n : Nat}
    (all : ∀ x ∈ insns, Preliminary x) (run : runInsns get scratchLoc n insns c = .ok c') :
    SameMain c c' := by
  induction insns generalizing c n with
  | nil =>
      obtain rfl := Except.ok.inj run
      exact ⟨fun _ _ => rfl, rfl, rfl⟩
  | cons insn rest ih =>
      obtain ⟨d, here, later⟩ := runInsns_cons run
      exact ((all insn List.mem_cons_self).run here).trans
        (ih (fun x mem => all x (List.mem_cons_of_mem insn mem)) later)

/-- Nothing is left out of a script with enough space. -/
theorem foldl_compileReg {order : List Preg} {script : List ScriptInsn}
    (saved : ∀ i ∈ order, i ∈ savedRegs sr) (space : script.length + order.length ≤ maxScriptLen) :
    order.foldl (fun script r => compileReg sr r (sr.curr.reg r) script) script =
      script ++ order.map (insnOf sr) := by
  induction order generalizing script with
  | nil => rw [List.foldl_nil, List.map_nil, List.append_nil]
  | cons i order ih =>
      obtain ⟨late, isSaved, before⟩ := mem_savedRegs.mp (saved i List.mem_cons_self)
      rw [List.length_cons] at space
      have compiled : compileReg sr i (sr.curr.reg i) script = script ++ [insnOf sr i] := by
        have notPsp : i ≠ .psp := by
          rintro rfl
          exact absurd late (by decide)
        rw [compileReg, if_neg (not_or.mpr ⟨isSaved, not_le.mpr before⟩)]
        simp only [if_neg notPsp]
        rw [scriptEmit, if_neg (by omega)]
        rfl
      rw [List.foldl_cons, compiled, ih (fun j mem => saved j (List.mem_cons_of_mem i mem))
        (by rw [List.length_append, List.length_singleton]; omega), List.map_cons, List.append_assoc]
      rfl

theorem length_savedRegs (sr : StateRecord) : (savedRegs sr).length ≤ 42 := by
  have sub : (savedRegs sr).Subperm ((List.finRange 45).filter fun r => Preg.bsp ≤ r) := by
    refine (nodup_savedRegs sr).subperm fun i mem => ?_
    rw [List.mem_filter]
    exact ⟨List.mem_finRange i, decide_eq_true (mem_savedRegs.mp mem).1⟩
  exact sub.length_le.trans (by decide)

/-- The script is that of the preliminaries and one instruction for each save. -/
theorem buildScript_eq (sr : StateRecord) :
    buildScript sr = compilePriUnat sr (compilePsp sr) ++ (sortRegs sr).map (insnOf sr) := by
  have few := (preliminaries sr).2
  have saves := (sortRegs_perm sr).length_eq.trans_le (length_savedRegs sr)
  refine foldl_compileReg (fun i mem => (sortRegs_perm sr).mem_iff.mp mem) ?_
  rw [maxScriptLen]
  omega

theorem buildScript_fits (sr : StateRecord) : (buildScript sr).length < maxScriptLen := by
  have few := (preliminaries sr).2
  have saves := (sortRegs_perm sr).length_eq.trans_le (length_savedRegs sr)
  rw [buildScript_eq, List.length_append, List.length_map, maxScriptLen]
  omega

/-- With the saves in order, the script finds the entry values. -/
theorem buildScript_restores (resolved : SavesResolved sr) (apart : SavesApart sr)
    (decreasing : (sortRegs sr).Pairwise fun r s => (sr.curr.reg s).when < (sr.curr.reg r).when)
    (run : runScript get scratchLoc (buildScript sr) c = .ok c') : Restores sr scratchLoc c c' := by
  rw [runScript, buildScript_eq] at run
  obtain ⟨d, early, later⟩ := runInsns_append run
  have same := runInsns_preliminary (preliminaries sr).1 early
  have mem_iff (i : Preg) : i ∈ sortRegs sr ↔ i ∈ savedRegs sr := (sortRegs_perm sr).mem_iff
  obtain ⟨⟨sp, psp, rbs⟩, places, restored⟩ :=
    runInsns_saves (fun i mem => resolved i ((mem_iff i).mp mem)) later
  refine ⟨placeOf scratchLoc sr d, fun i saved => ?_, fun i pl held => ?_⟩
  · rw [savePlace_congr sp psp rbs]
    exact (places i ((mem_iff i).mpr saved)).1
  · rw [heldAfter, savesInTime_eq apart decreasing, List.foldl_reverse] at held
    rw [restored i pl held]
    cases pl with
    | reg k => exact same.loc k (held_isMain (fun i mem => (places i mem).2) held)
    | «at» loc => rfl

end Instructions

/-- A script is right just when the saves come in turn. -/
theorem scriptRight_iff {sr : StateRecord} (resolved : SavesResolved sr) (apart : SavesApart sr) :
    ScriptRight sr ↔ SavesInTurn sr := by
  rw [← sortRegs_decreasing_iff apart]
  constructor
  · exact fun right => right.decreasing
  · intro decreasing
    exact ⟨sortRegs_perm sr, decreasing, buildScript_fits sr,
      fun get scratchLoc c c' run => buildScript_restores resolved apart decreasing run⟩

/-! ## Small records -/

/-- A record in which three registers are saved; `r4` goes to `r5` when that is on the stack. -/
def chainRecord (when4 when5 when6 : Int) : StateRecord where
  firstRegion := false
  done := true
  anySpills := false
  inBody := true
  imask := none
  abiMarker := 0
  prVal := 0
  prMask := 0
  spillOffset := 0
  regionStart := 0
  regionLen := 0
  whenSpRestored := whenNever
  epilogueCount := 0
  whenTarget := 10
  grSaveLoc := 0
  returnLinkReg := 0
  labeledStates := 0
  curr := ⟨0, fun i =>
    if i = 8 then ⟨5, .gr, when4⟩
    else if i = 9 then ⟨0x10, .sprel, when5⟩
    else if i = 10 then ⟨0x20, .sprel, when6⟩
    else ⟨0, .none, whenNever⟩⟩

theorem chainRecord_resolved (when4 when5 when6 : Int) :
    SavesResolved (chainRecord when4 when5 when6) := by
  intro i mem
  have isSaved := (mem_savedRegs.mp mem).2.1
  simp only [chainRecord] at isSaved ⊢
  split_ifs at isSaved ⊢
  · exact List.mem_cons_self
  · simp
  · simp
  · exact absurd rfl isSaved

/-- `r5` is saved first, after it `r4` in `r5`, and at last `r6`. -/
theorem chainRecord_right : ScriptRight (chainRecord 2 1 3) :=
  (scriptRight_iff (chainRecord_resolved 2 1 3) (by unfold SavesApart; decide)).mpr (by decide)

/-- With `r6` first, then `r5` and at last `r4`, the saves are found in order, and not left in it. -/
theorem chainRecord_wrong : SavesResolved (chainRecord 3 2 1) ∧ SavesApart (chainRecord 3 2 1) ∧
    sortRegs (chainRecord 3 2 1) = [9, 8, 10] ∧ ¬ScriptRight (chainRecord 3 2 1) := by
  have sorted : sortRegs (chainRecord 3 2 1) = [9, 8, 10] := by decide
  refine ⟨chainRecord_resolved 3 2 1, by unfold SavesApart; decide, sorted, fun right => ?_⟩
  have decreasing := right.decreasing
  rw [sorted] at decreasing
  exact absurd (List.rel_of_pairwise_cons decreasing List.mem_cons_self) (by decide)

end Libunwind.Ia64
