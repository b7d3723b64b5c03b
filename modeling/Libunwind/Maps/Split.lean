import Libunwind.Maps.LineCuts
import Libunwind.Maps.Iterator

/-! # The maps file in pieces

`maps_next` carries a partial line over to the next `read`, but only from a piece in which
another line ended: where a piece has no newline at all, its last byte is overwritten as if
it were one. So the records do not depend on how the kernel splits the file as long as
every such piece ends in a byte that its line can do without.
-/

namespace Libunwind.Maps

variable {w : Nat}

/-- The bytes of a piece that are lost: the last one, if no line ends in the piece. -/
def lostBytes (piece : List Byte) : List Bool :=
  if piece.contains (ofChar '\n') then piece.map fun _ => false
  else piece.dropLast.map (fun _ => false) ++ [true]

/-- Overwrites what is lost. -/
def overwrite (text : List Byte) (marks : List Bool) : List Byte :=
  List.zipWith (fun b lost => if lost then ofChar '\n' else b) text marks

/-- No line loses a byte that its record needs. -/
def Unharmed : List (MapsLine w) → List Bool → Prop
  | [], _ => True
  | l :: lines, marks =>
      (∀ i < l.bytes.length, marks[i]? = some true → l.Harmless i) ∧
        Unharmed lines (marks.drop (l.bytes.length + 1))

theorem lostBytes_length {piece : List Byte} (some' : piece ≠ []) :
    (lostBytes piece).length = piece.length := by
  have positive := List.length_pos_iff.mpr some'
  rw [lostBytes]
  split
  · exact List.length_map _
  · simp only [List.length_append, List.length_map, List.length_dropLast, List.length_singleton]
    omega

theorem overwrite_lostBytes {piece : List Byte} (some' : piece ≠ []) :
    overwrite piece (lostBytes piece) = ended piece := by
  have kept : ∀ s : List Byte, overwrite s (s.map fun _ => false) = s := by
    intro s
    induction s with
    | nil => rfl
    | cons b s ih =>
        rw [List.map_cons, overwrite, List.zipWith_cons_cons, if_neg Bool.false_ne_true]
        exact congrArg (b :: ·) ih
  simp only [lostBytes, ended, List.contains_iff_mem]
  split
  · exact kept piece
  · obtain ⟨front, last, rfl⟩ := (List.eq_nil_or_concat piece).resolve_left some'
    rw [List.concat_eq_append, List.dropLast_concat, overwrite, List.zipWith_append (List.length_map _).symm]
    exact congrArg (· ++ [ofChar '\n']) (kept front)

theorem overwrite_flatten {pieces : List (List Byte)} (some' : ∀ p ∈ pieces, p ≠ []) :
    overwrite pieces.flatten (pieces.flatMap lostBytes) = pieces.flatMap ended := by
  induction pieces with
  | nil => rfl
  | cons p pieces ih =>
      have first := some' p List.mem_cons_self
      rw [List.flatten_cons, List.flatMap_cons, List.flatMap_cons, overwrite,
        List.zipWith_append (lostBytes_length first).symm, ← overwrite_lostBytes first,
        ← ih fun q member => some' q (List.mem_cons_of_mem _ member)]
      rfl

/-! ## One line -/

theorem mem_map_one_add {i : Nat} {positions : List Nat} :
    i + 1 ∈ positions.map (1 + ·) ↔ i ∈ positions := by
  simp [Nat.add_comm 1]

/-- A byte that is kept goes before the first of the pieces. -/
theorem exists_kept (b : Byte) (cuts : List Cut) (last : List Byte) :
    ∃ cuts' last', b :: (joined cuts ++ last) = joined cuts' ++ last' ∧
      (∃ line lines, segments cuts last = line :: lines ∧
        segments cuts' last' = (b :: line) :: lines) ∧
      lost 0 cuts' = (lost 0 cuts).map (1 + ·) := by
  cases cuts with
  | nil => exact ⟨[], b :: last, rfl, ⟨last, [], rfl, rfl⟩, rfl⟩
  | cons c cuts =>
      refine ⟨(b :: c.1, c.2) :: cuts, last, ?_, ⟨c.1, segments cuts last, rfl, rfl⟩, ?_⟩
      · rw [joined_cons, joined_cons]
        rfl
      · rw [← lost_add 1 0]
        simp only [lost, List.length_cons, Nat.zero_add, Nat.add_comm 1]

/-- A line with marks is cut where they are. -/
theorem exists_cuts {s : List Byte} {marks : List Bool} (same : marks.length = s.length)
    (one : ofChar '\n' ∉ s) :
    ∃ cuts last, s = joined cuts ++ last ∧
      (∀ rest, splitLines (overwrite s marks ++ ofChar '\n' :: rest) =
        segments cuts last ++ splitLines rest) ∧
      ∀ i, i ∈ lost 0 cuts ↔ marks[i]? = some true := by
  induction s generalizing marks with
  | nil =>
      rw [List.length_nil, List.length_eq_zero_iff] at same
      subst same
      refine ⟨[], [], rfl, ?_, ?_⟩
      · intro rest
        simp [overwrite, splitLines, segments]
      · intro i
        simp [lost]
  | cons b s ih =>
      cases marks with
      | nil => simp at same
      | cons mark marks =>
          obtain ⟨first, later⟩ := not_or.mp (mt List.mem_cons.mpr one)
          obtain ⟨cuts, last, rfl, lines, positions⟩ := ih (Nat.succ.inj same) later
          cases mark with
          | true =>
              refine ⟨([], b) :: cuts, last, ?_, ?_, ?_⟩
              · rw [joined_cons]
                rfl
              · intro rest
                simp only [overwrite, List.zipWith_cons_cons, if_true, List.cons_append, splitLines]
                rw [← overwrite, lines]
                rfl
              · have moved : lost 0 (([], b) :: cuts) = 0 :: (lost 0 cuts).map (1 + ·) :=
                  congrArg (0 :: ·) (lost_add 1 0 cuts)
                intro i
                rw [moved]
                cases i with
                | zero => simp
                | succ i =>
                    rw [List.mem_cons, or_iff_right (Nat.succ_ne_zero i), mem_map_one_add,
                      List.getElem?_cons_succ, positions]
          | false =>
              obtain ⟨cuts', last', whole, ⟨line, more, before, after⟩, moved⟩ :=
                exists_kept b cuts last
              refine ⟨cuts', last', whole, ?_, ?_⟩
              · intro rest
                have inner := lines rest
                rw [before] at inner
                simp only [overwrite, List.zipWith_cons_cons, Bool.false_eq_true, if_false,
                  List.cons_append, splitLines, if_neg (Ne.symm first)]
                rw [← overwrite, inner, after]
                rfl
              · intro i
                rw [moved]
                cases i with
                | zero => simp
                | succ i => rw [mem_map_one_add, List.getElem?_cons_succ, positions]

/-! ## All lines -/

/-- No newline and no NUL. -/
def Plain (b : Byte) : Prop := b ≠ ofChar '\n' ∧ b ≠ 0

instance (b : Byte) : Decidable (Plain b) := inferInstanceAs (Decidable (_ ∧ _))

theorem plain_of_isHex {b : Byte} (hex : isHex b = true) : Plain b := by
  constructor
  · rintro rfl
    exact absurd hex (by decide)
  · rintro rfl
    exact absurd hex (by decide)

theorem plain_of_isBlank {b : Byte} (blank : isBlank b = true) : Plain b := by
  constructor
  · rintro rfl
    exact absurd blank (by decide)
  · rintro rfl
    exact absurd blank (by decide)

theorem Perms.plain (p : Perms) : ∀ b ∈ p.bytes, Plain b := p.forall_bytes (by decide)

theorem MapsLine.plain (l : MapsLine w) : ∀ b ∈ l.bytes, Plain b := by
  have hex (f : HexField w) : ∀ b ∈ f.digits, Plain b := fun b member =>
    plain_of_isHex (f.hex b member)
  have gap (g : Gap) : ∀ b ∈ g.bytes, Plain b := fun b member => plain_of_isBlank (g.blank b member)
  have dec : ∀ b ∈ l.inum.digits, Plain b := fun b member =>
    plain_of_isHex (isHex_of_isDec (l.inum.dec b member))
  have sign : Plain (ofChar '-') ∧ Plain (ofChar ':') := by decide
  have inode := List.forall_mem_append.mpr
    ⟨gap l.inumGap, List.forall_mem_append.mpr ⟨dec, l.tail.clean⟩⟩
  have device := List.forall_mem_append.mpr ⟨hex l.major, List.forall_mem_cons.mpr
    ⟨sign.2, List.forall_mem_append.mpr ⟨hex l.minor, inode⟩⟩⟩
  have offset := List.forall_mem_append.mpr ⟨gap l.offsetGap, List.forall_mem_append.mpr
    ⟨hex l.offset, List.forall_mem_append.mpr ⟨gap l.majorGap, device⟩⟩⟩
  have high := List.forall_mem_append.mpr ⟨hex l.high, List.forall_mem_append.mpr
    ⟨gap l.permGap, List.forall_mem_append.mpr ⟨l.perms.plain, offset⟩⟩⟩
  exact List.forall_mem_append.mpr ⟨hex l.low, List.forall_mem_cons.mpr ⟨sign.1, high⟩⟩

/-- A line has no newline in it. -/
theorem MapsLine.one_line (l : MapsLine w) : ofChar '\n' ∉ l.bytes :=
  fun member => (l.plain _ member).1 rfl

theorem clean_text (lines : List (MapsLine w)) : Clean (lines.flatMap MapsLine.text) := by
  intro b member
  obtain ⟨l, -, inText⟩ := List.mem_flatMap.mp member
  cases List.mem_append.mp inText with
  | inl inLine => exact (l.plain b inLine).2
  | inr newline =>
      rw [List.mem_singleton] at newline
      rw [newline]
      decide

/-- What is scanned of each line, beside the record it should give. -/
theorem exists_groups (lines : List (MapsLine w)) {marks : List Bool}
    (same : marks.length = (lines.flatMap MapsLine.text).length) :
    ∃ groups : List (Record w × List (Record w)),
      groups.map Prod.fst = lines.map MapsLine.record ∧
      groups.flatMap Prod.snd = MapIterator.records w (overwrite (lines.flatMap MapsLine.text) marks) ∧
      (∀ g ∈ groups, g.1 ∈ g.2 → g.2 = [g.1]) ∧
      ((∀ g ∈ groups, g.2 = [g.1]) ↔ Unharmed lines marks) := by
  induction lines generalizing marks with
  | nil => exact ⟨[], rfl, rfl, nofun, by simp [Unharmed]⟩
  | cons l lines ih =>
      rw [List.flatMap_cons, MapsLine.text, List.append_assoc, List.singleton_append,
        List.length_append, List.length_cons] at same
      have inLine : (marks.take l.bytes.length).length = l.bytes.length := by
        rw [List.length_take]
        omega
      obtain ⟨mark, behind, split⟩ : ∃ mark behind, marks.drop l.bytes.length = mark :: behind := by
        apply List.exists_cons_of_length_pos
        rw [List.length_drop]
        omega
      have dropped : marks.drop (l.bytes.length + 1) = behind := by
        rw [← List.drop_drop, split]
        rfl
      have rest : behind.length = (lines.flatMap MapsLine.text).length := by
        rw [← dropped, List.length_drop]
        omega
      obtain ⟨cuts, last, whole, scanned, positions⟩ := exists_cuts inLine l.one_line
      obtain ⟨groups, firsts, found, alone, unharmed⟩ := ih rest
      have text : overwrite ((l :: lines).flatMap MapsLine.text) marks =
          overwrite l.bytes (marks.take l.bytes.length) ++
            ofChar '\n' :: overwrite (lines.flatMap MapsLine.text) behind := by
        conv_lhs =>
          rw [← List.take_append_drop l.bytes.length marks, split, List.flatMap_cons,
            MapsLine.text, List.append_assoc, List.singleton_append, overwrite,
            List.zipWith_append inLine.symm, List.zipWith_cons_cons, ite_self]
        rfl
      have one : (segments cuts last).filterMap parseLine = [l.record] ↔
          ∀ i < l.bytes.length, marks[i]? = some true → l.Harmless i := by
        constructor
        · intro single i inside marked
          apply MapsLine.harmless_of_mem whole (single ▸ List.mem_singleton_self _)
          rwa [positions, List.getElem?_take_of_lt inside]
        · intro harmless
          apply MapsLine.filterMap_segments whole
          intro i isLost
          rw [positions] at isLost
          have inside : i < l.bytes.length :=
            inLine ▸ (List.getElem?_eq_some_iff.mp isLost).1
          rw [List.getElem?_take_of_lt inside] at isLost
          exact harmless i inside isLost
      refine ⟨(l.record, (segments cuts last).filterMap parseLine) :: groups, ?_, ?_, ?_, ?_⟩
      · rw [List.map_cons, List.map_cons, firsts]
      · rw [text, MapIterator.records, scanned, List.filterMap_append, List.flatMap_cons, found]
        rfl
      · rw [List.forall_mem_cons]
        refine ⟨fun member => ?_, alone⟩
        exact MapsLine.filterMap_segments whole (MapsLine.harmless_of_mem whole member)
      · rw [List.forall_mem_cons, Unharmed, unharmed, one, dropped]

/-! ## What comes out of the wrong line -/

section Groups

variable {α : Type}

/-- Once a value is missing, the later groups never make up for it. -/
theorem behind_ne {groups : List (α × List α)} (alone : ∀ g ∈ groups, g.1 ∈ g.2 → g.2 = [g.1])
    {missing : List α} (some' : missing ≠ []) :
    groups.flatMap Prod.snd ≠ missing ++ groups.map Prod.fst := by
  induction groups generalizing missing with
  | nil => simpa using Ne.symm some'
  | cons g groups ih =>
      obtain ⟨first, later⟩ := List.forall_mem_cons.mp alone
      intro same
      rw [List.flatMap_cons, List.map_cons] at same
      cases List.append_eq_append_iff.mp same with
      | inl inGroup =>
          obtain ⟨more, isMissing, rest⟩ := inGroup
          have some'' : more ++ [g.1] ≠ [] := by simp
          exact ih later some'' (by simpa using rest)
      | inr beyond =>
          obtain ⟨more, isGroup, rest⟩ := beyond
          cases more with
          | nil => exact ih later (List.cons_ne_nil g.1 []) rest.symm
          | cons value more =>
              obtain ⟨isFirst, -⟩ := List.cons.inj rest
              have member : g.1 ∈ g.2 := by
                rw [isGroup, isFirst]
                simp
              have single := first member
              rw [isGroup] at single
              have lengths := congrArg List.length single
              have positive := List.length_pos_iff.mpr some'
              simp only [List.length_append, List.length_cons, List.length_nil] at lengths
              omega

/-- If all groups together give the values in turn, then each of them gives its own. -/
theorem groups_aligned {groups : List (α × List α)}
    (alone : ∀ g ∈ groups, g.1 ∈ g.2 → g.2 = [g.1]) :
    groups.flatMap Prod.snd = groups.map Prod.fst ↔ ∀ g ∈ groups, g.2 = [g.1] := by
  induction groups with
  | nil => simp
  | cons g groups ih =>
      obtain ⟨first, later⟩ := List.forall_mem_cons.mp alone
      rw [List.forall_mem_cons, ← ih later, List.flatMap_cons, List.map_cons]
      constructor
      · intro same
        cases own : g.2 with
        | nil =>
            rw [own] at same
            exact absurd same (behind_ne later (List.cons_ne_nil g.1 []))
        | cons value more =>
            have isFirst : value = g.1 := by
              rw [own] at same
              exact (List.cons.inj same).1
            have single := first (by rw [own, isFirst]; exact List.mem_cons_self)
            rw [single] at same
            rw [own] at single
            exact ⟨single, (List.cons.inj same).2⟩
      · rintro ⟨single, rest⟩
        rw [single, rest]
        rfl

end Groups

/-! ## A run over the file -/

theorem Fits.nonempty {size carried : Nat} {pieces : List (List Byte)}
    (fits : Fits size carried pieces) : ∀ p ∈ pieces, p ≠ [] := by
  induction pieces generalizing carried with
  | nil => exact nofun
  | cons p pieces ih => exact List.forall_mem_cons.mpr ⟨fits.1, ih fits.2.2⟩

theorem flatMap_lostBytes_length {pieces : List (List Byte)} (some' : ∀ p ∈ pieces, p ≠ []) :
    (pieces.flatMap lostBytes).length = pieces.flatten.length := by
  induction pieces with
  | nil => rfl
  | cons p pieces ih =>
      obtain ⟨first, later⟩ := List.forall_mem_cons.mp some'
      rw [List.flatMap_cons, List.flatten_cons, List.length_append, List.length_append,
        lostBytes_length first, ih later]

/-- Calling `maps_next` until it returns 0 gives the records of the file's lines exactly
    where every piece without a newline ends in a byte that its line can do without. -/
theorem mapsAll_eq_records_iff {fd : Int} {buffer : List Byte} {lines : List (MapsLine w)}
    {pieces : List (List Byte)} {budget : Nat} (opened : 0 ≤ fd)
    (text : pieces.flatten = lines.flatMap MapsLine.text) (fits : Fits buffer.length 0 pieces)
    (enough : (lines.flatMap MapsLine.text).length < budget) :
    (mapsInit fd buffer).mapsAll budget budget pieces = .ok (lines.map MapsLine.record) ↔
      Unharmed lines (pieces.flatMap lostBytes) := by
  have marked := flatMap_lostBytes_length fits.nonempty
  have delivered := overwrite_flatten fits.nonempty
  rw [text] at marked delivered
  have size : (pieces.flatMap ended).length < budget := by
    rw [← delivered, overwrite, List.length_zipWith, marked, Nat.min_self]
    exact enough
  have start : (mapsInit fd buffer).window = [] := List.drop_length
  have ready : (mapsInit fd buffer).Ready pieces (pieces.flatMap ended) := by
    refine ⟨opened, by rw [start]; rfl, by rw [start]; exact nofun, ?_, by rw [start]; exact fits⟩
    intro p member b inPiece
    exact clean_text lines b (text ▸ List.mem_flatten_of_mem member inPiece)
  obtain ⟨groups, firsts, found, alone, unharmed⟩ := exists_groups lines marked
  rw [ready.mapsAll size size, Except.ok.injEq, ← delivered, ← found, ← firsts, ← unharmed,
    groups_aligned alone]

/-! ## Two lines of a map -/

namespace TwoLines

def field (digits : List Byte) (nonempty : digits ≠ []) (hex : ∀ b ∈ digits, isHex b = true)
    (fits : hexValue digits < 2 ^ 64) : HexField 64 := { digits, nonempty, hex, fits }

def gap : Gap where
  bytes := [ofChar ' ']
  nonempty := by decide
  blank := by decide

/-- `LOW-HIGH r-xp 0 8:1 17 /a`. -/
def mapped (low high : HexField 64) : MapsLine 64 where
  low
  high
  permGap := gap
  perms := { read := true, write := false, exec := true, shared := false }
  offsetGap := gap
  offset := field [ofChar '0'] (by decide) (by decide) (by decide)
  majorGap := gap
  major := field [ofChar '8'] (by decide) (by decide) (by decide)
  minor := field [ofChar '1'] (by decide) (by decide) (by decide)
  inumGap := gap
  inum := { digits := [ofChar '1', ofChar '7'], nonempty := by decide, dec := by decide }
  tail := { bytes := [ofChar ' ', ofChar '/', ofChar 'a'], starts := by decide, clean := by decide }

def four : HexField 64 :=
  field [ofChar '4', ofChar '0', ofChar '0'] (by decide) (by decide) (by decide)

def five : HexField 64 :=
  field [ofChar '5', ofChar '0', ofChar '0'] (by decide) (by decide) (by decide)

def six : HexField 64 :=
  field [ofChar '6', ofChar '0', ofChar '0'] (by decide) (by decide) (by decide)

def lines : List (MapsLine 64) := [mapped four five, mapped five six]

def text : List Byte := lines.flatMap MapsLine.text

def buffer : List Byte := List.replicate 4096 0

theorem fits {text : List Byte} {k : Nat} (long : text.length ≤ 50) (front : text.take k ≠ [])
    (back : text.drop k ≠ []) : Fits buffer.length 0 [text.take k, text.drop k] := by
  have size : buffer.length = 4096 := List.length_replicate
  have left : (text.take k).length ≤ 50 := (List.length_take_le' k text).trans long
  have right : (text.drop k).length ≤ 50 := (List.length_drop ▸ Nat.sub_le _ _).trans long
  have carried : (if ofChar '\n' ∈ text.take k then unterminated (text.take k) else 0) ≤ 50 := by
    split
    · apply Nat.le_trans _ left
      calc unterminated (text.take k) ≤ (text.take k).reverse.length :=
          (List.takeWhile_sublist _).length_le
        _ = (text.take k).length := List.length_reverse
    · exact Nat.zero_le _
  exact ⟨front, by omega, back, by omega, trivial⟩

/-- Five bytes of the second line come with the first. -/
theorem carried_over :
    (mapsInit 3 buffer).mapsAll 60 60 [text.take 30, text.drop 30] =
      .ok (lines.map MapsLine.record) :=
  (mapsAll_eq_records_iff (by decide) (by decide) (fits (by decide) (by decide) (by decide))
    (by decide)).mpr
    ⟨by decide, by decide, trivial⟩

def line : List Byte := (mapped four five).text

/-- The first `read` ends before the newline, and the path `/a` becomes `/`. -/
theorem path_cut :
    [line.take 24, line.drop 24].flatten = [mapped four five].flatMap MapsLine.text ∧
      Fits buffer.length 0 [line.take 24, line.drop 24] ∧
      (mapsInit 3 buffer).mapsAll 30 30 [line.take 24, line.drop 24] ≠
        .ok ([mapped four five].map MapsLine.record) :=
  ⟨by decide, fits (by decide) (by decide) (by decide), by decide +kernel⟩

end TwoLines

end Libunwind.Maps
