import Libunwind.Maps.CutLine

/-! # A line in pieces

Where the text of a line is cut, the byte before the cut is lost and the pieces are
scanned as lines of their own. Only two kinds of cuts go unnoticed: one behind a leading
zero of the lower address, and one behind the first digit of the inode number of a line
without a path.
-/

namespace Libunwind.Maps

variable {w : Nat}

/-! ## Leading zeros -/

theorem valueIn_append (base : Nat) (digit : Byte → Option Nat) (front back : List Byte) :
    valueIn base digit (front ++ back) =
      valueIn base digit front * base ^ back.length + valueIn base digit back := by
  have fold : ∀ (ds : List Byte) (n : Nat),
      ds.foldl (fun value b => base * value + (digit b).getD 0) n =
        n * base ^ ds.length + valueIn base digit ds := by
    intro ds
    induction ds with
    | nil => simp [valueIn]
    | cons b ds ih =>
        intro n
        have single : valueIn base digit (b :: ds) =
            (digit b).getD 0 * base ^ ds.length + valueIn base digit ds := by
          rw [valueIn, List.foldl_cons, ih, Nat.mul_zero, Nat.zero_add]
        rw [List.foldl_cons, ih, single, List.length_cons, Nat.pow_succ]
        ring
  rw [valueIn, List.foldl_append, fold]
  rfl

set_option maxRecDepth 4000 in
theorem eq_zero_of_hexDigit :
    ∀ b : Byte, isHex b = true → (hexDigit b).getD 0 = 0 → b = ofChar '0' := by decide

theorem hexValue_eq_zero {ds : List Byte} (hex : ∀ b ∈ ds, isHex b = true) :
    hexValue ds = 0 ↔ ∀ b ∈ ds, b = ofChar '0' := by
  induction ds with
  | nil => simp [hexValue, valueIn]
  | cons b ds ih =>
      have later := ih fun b member => hex b (List.mem_cons_of_mem _ member)
      have split := valueIn_append 16 hexDigit [b] ds
      simp only [List.singleton_append, valueIn, List.foldl_cons, List.foldl_nil,
        Nat.mul_zero, Nat.zero_add] at split
      rw [hexValue, valueIn, List.foldl_cons, Nat.mul_zero, Nat.zero_add, split,
        Nat.add_eq_zero_iff, Nat.mul_eq_zero, List.forall_mem_cons, ← later]
      have positive : 16 ^ ds.length ≠ 0 := Nat.pos_iff_ne_zero.mp (Nat.pow_pos (by decide))
      constructor
      · rintro ⟨zero | absurd', rest⟩
        · exact ⟨eq_zero_of_hexDigit b (hex b List.mem_cons_self) zero, rest⟩
        · exact absurd absurd' positive
      · rintro ⟨rfl, rest⟩
        exact ⟨Or.inl rfl, rest⟩

namespace HexField

variable (f : HexField w)

/-- The number without its first digits. -/
def drop (k : Nat) (left : k < f.digits.length) : HexField w where
  digits := f.digits.drop k
  nonempty := by simpa using left
  hex b member := f.hex b (List.mem_of_mem_drop member)
  fits := by
    apply Nat.lt_of_le_of_lt _ f.fits
    rw [hexValue, ← List.take_append_drop k f.digits, valueIn_append, List.drop_left' (by
      simp only [List.length_take]; omega)]
    exact Nat.le_add_left _ _

theorem value_drop (k : Nat) (left : k < f.digits.length) :
    (f.drop k left).value = f.value ↔ ∀ b ∈ f.digits.take k, b = ofChar '0' := by
  have hex : ∀ b ∈ f.digits.take k, isHex b = true := fun b member =>
    f.hex b (List.mem_of_mem_take member)
  have split := valueIn_append 16 hexDigit (f.digits.take k) (f.digits.drop k)
  rw [List.take_append_drop] at split
  have positive : 16 ^ (f.digits.drop k).length ≠ 0 :=
    Nat.pos_iff_ne_zero.mp (Nat.pow_pos (by decide))
  have words : (f.drop k left).value = f.value ↔
      hexValue (f.digits.drop k) = hexValue f.digits := by
    rw [value, value, ← BitVec.toNat_inj, BitVec.toNat_ofNat, BitVec.toNat_ofNat,
      Nat.mod_eq_of_lt (f.drop k left).fits, Nat.mod_eq_of_lt f.fits]
    rfl
  rw [words, ← hexValue_eq_zero hex, hexValue, split]
  constructor
  · intro same
    have none : valueIn 16 hexDigit (f.digits.take k) * 16 ^ (f.digits.drop k).length = 0 := by
      omega
    exact (Nat.mul_eq_zero.mp none).resolve_right positive
  · intro none
    rw [none, Nat.zero_mul, Nat.zero_add]

end HexField

namespace MapsLine

variable (l : MapsLine w)

def dropLow (k : Nat) (left : k < l.low.digits.length) : MapsLine w :=
  { l with low := l.low.drop k left }

variable {l} {k : Nat} (left : k < l.low.digits.length)

theorem dropLow_bytes : (l.dropLow k left).bytes = l.bytes.drop k := by
  rw [bytes, bytes, List.drop_append_of_le_length (Nat.le_of_lt left)]
  rfl

theorem dropLow_inumAt : (l.dropLow k left).inumAt + k = l.inumAt := by
  have lengths := l.inode_le
  have there : (l.low.digits ++ l.afterLow).length = _ := List.length_append
  have inode := l.inode_suffix.length_le
  simp only [inumAt, dropLow_bytes, List.length_drop]
  simp only [show (l.dropLow k left).inode = l.inode from rfl,
    show (l.dropLow k left).inumGap = l.inumGap from rfl, bytes, List.length_append]
  omega

theorem dropLow_record (zeros : ∀ b ∈ l.low.digits.take k, b = ofChar '0') :
    (l.dropLow k left).record = l.record :=
  congrArg (Record.mk · l.high.value l.offset.value l.perms.flags l.path)
    ((l.low.value_drop k left).mpr zeros)

theorem dropLow_zeros (same : (l.dropLow k left).record.low = l.record.low) :
    ∀ b ∈ l.low.digits.take k, b = ofChar '0' :=
  (l.low.value_drop k left).mp same

end MapsLine

/-! ## The pieces of a line -/

/-- The byte at `i` may be lost: it is a leading zero of the lower address, or it is
    behind the first digit of the inode number of a line without a path. -/
def MapsLine.Harmless (l : MapsLine w) (i : Nat) : Prop :=
  (i + 1 < l.low.digits.length ∧ ∀ b ∈ l.low.digits.take (i + 1), b = ofChar '0') ∨
    (l.path = [] ∧ l.inumAt < i)

instance (l : MapsLine w) (i : Nat) : Decidable (l.Harmless i) :=
  inferInstanceAs (Decidable (_ ∨ _))

/-- What is before a cut, and the byte that is lost there. -/
abbrev Cut := List Byte × Byte

/-- The text that was cut. -/
def joined (cuts : List Cut) : List Byte := cuts.flatMap fun c => c.1 ++ [c.2]

/-- Where the lost bytes were. -/
def lost : Nat → List Cut → List Nat
  | _, [] => []
  | k, c :: cuts => (k + c.1.length) :: lost (k + c.1.length + 1) cuts

/-- What is scanned as lines. -/
def segments (cuts : List Cut) (last : List Byte) : List (List Byte) :=
  cuts.map Prod.fst ++ [last]

theorem joined_cons (c : Cut) (cuts : List Cut) : joined (c :: cuts) = c.1 ++ c.2 :: joined cuts := by
  simp only [joined, List.flatMap_cons, List.append_assoc, List.singleton_append]

theorem joined_append (front back : List Cut) : joined (front ++ back) = joined front ++ joined back :=
  List.flatMap_append

theorem lost_add (k j : Nat) (cuts : List Cut) : lost (k + j) cuts = (lost j cuts).map (k + ·) := by
  induction cuts generalizing j with
  | nil => rfl
  | cons c cuts ih => simp only [lost, List.map_cons, Nat.add_assoc, ih]

theorem lost_append (k : Nat) (front back : List Cut) :
    lost k (front ++ back) = lost k front ++ lost (k + (joined front).length) back := by
  induction front generalizing k with
  | nil => rfl
  | cons c front ih =>
      simp only [List.cons_append, lost, ih, joined_cons, List.length_append, List.length_cons]
      congr 3
      omega

theorem le_of_mem_lost {k i : Nat} {cuts : List Cut} (member : i ∈ lost k cuts) :
    k ≤ i ∧ i < k + (joined cuts).length := by
  induction cuts generalizing k with
  | nil => exact nomatch member
  | cons c cuts ih =>
      rw [joined_cons, List.length_append, List.length_cons]
      cases member with
      | head => omega
      | tail _ later =>
          have := ih later
          omega

theorem mem_segments {cuts : List Cut} {last s : List Byte} (member : s ∈ segments cuts last) :
    ∃ front back z, cuts = front ++ back ∧ joined cuts ++ last = joined front ++ (s ++ z) ∧
      (z = [] → back = []) ∧ ∀ c rest, back = c :: rest → s = c.1 := by
  cases List.mem_append.mp member with
  | inl before =>
      obtain ⟨c, there, rfl⟩ := List.mem_map.mp before
      obtain ⟨front, rest, rfl⟩ := List.append_of_mem there
      refine ⟨front, c :: rest, c.2 :: joined rest ++ last, rfl, ?_, nofun, ?_⟩
      · simp only [joined_append, joined_cons, List.append_assoc, List.cons_append]
      · intro _ _ same
        cases same
        rfl
  | inr isLast =>
      rw [List.mem_singleton] at isLast
      subst isLast
      exact ⟨cuts, [], [], (List.append_nil _).symm, by rw [List.append_nil], fun _ => rfl, nofun⟩

namespace MapsLine

variable {l : MapsLine w}

/-- Where the record of the line can be found in it: behind leading zeros, and up to the
    end unless there is no path. -/
theorem part_of_record {a s z : List Byte} (whole : l.bytes = a ++ (s ++ z))
    (parsed : parseLine s = some l.record) :
    (a.length < l.low.digits.length ∧ ∀ b ∈ l.low.digits.take a.length, b = ofChar '0') ∧
      (z ≠ [] → l.path = [] ∧ l.inumAt < a.length + s.length) := by
  have left : a.length < l.low.digits.length := by
    by_contra behind
    exact absurd (l.solid_of_behind whole (by omega) parsed) (Nat.lt_irrefl _)
  have dropped : (l.dropLow a.length left).bytes = s ++ z := by
    rw [dropLow_bytes, whole, List.drop_left]
  obtain ⟨rest, scanned, -⟩ := parseLine_cons parsed
  have low := resumes_scanHex.extend z scanned (List.cons_ne_nil _ rest)
  rw [← dropped] at low
  have dash : Ends hexDigit l.afterLow := by
    rintro b ⟨⟩
    rfl
  have same := (scanHex_field (l.dropLow a.length left).low dash).symm.trans low
  refine ⟨⟨left, dropLow_zeros left (congrArg Prod.fst (Option.some.inj same))⟩, ?_⟩
  intro more
  obtain ⟨noPath, begun⟩ :=
    (l.dropLow a.length left).cut_of_parseLine dropped more parsed rfl
  exact ⟨noPath, by rw [← dropLow_inumAt left]; omega⟩

/-- If the record of the line is found, then no byte is lost that it needs. -/
theorem harmless_of_mem {cuts : List Cut} {last : List Byte}
    (whole : l.bytes = joined cuts ++ last)
    (found : l.record ∈ (segments cuts last).filterMap parseLine) :
    ∀ i ∈ lost 0 cuts, l.Harmless i := by
  obtain ⟨s, member, parsed⟩ := List.mem_filterMap.mp found
  obtain ⟨front, back, z, rfl, parts, more, isCut⟩ := mem_segments member
  obtain ⟨⟨left, zeros⟩, cut⟩ := part_of_record (whole.trans parts) parsed
  intro i isLost
  rw [lost_append, Nat.zero_add] at isLost
  cases List.mem_append.mp isLost with
  | inl before =>
      have inFront := (le_of_mem_lost before).2
      refine Or.inl ⟨by omega, fun b member => zeros b ?_⟩
      exact (List.take_prefix_take_left (by omega)).subset member
  | inr behind =>
      cases back with
      | nil => exact nomatch behind
      | cons c rest =>
          obtain ⟨noPath, begun⟩ := cut fun none => nomatch more none
          rw [isCut c rest rfl] at begun
          refine Or.inr ⟨noPath, ?_⟩
          cases behind with
          | head => exact begun
          | tail _ later =>
              have := (le_of_mem_lost later).1
              omega

theorem low_le_inumAt (l : MapsLine w) : l.low.digits.length ≤ l.inumAt := by
  have inode := l.inode_suffix.length_le
  simp only [inumAt, bytes, List.length_append]
  omega

/-- What is left of the lower address alone is no record. -/
theorem parseLine_digits {s v : List Byte} (whole : l.bytes = s ++ v)
    (short : s.length ≤ l.low.digits.length) : parseLine (w := w) s = none := by
  have inLow : s <+: l.low.digits :=
    List.prefix_of_prefix_length_le ⟨v, whole.symm⟩ (List.prefix_append _ _) short
  cases parsed : parseLine (w := w) s with
  | none => rfl
  | some r =>
      have start := parseLine_opens parsed
      cases s with
      | nil => exact nomatch start
      | cons b s =>
          have hex : ∀ d ∈ b :: s, isHex d = true := fun d member =>
            l.low.hex d (inLow.subset member)
          have shut := opens_digits (s := []) hex (List.cons_ne_nil b s) rfl
          rw [List.append_nil, start] at shut
          exact nomatch shut

/-- Cutting leading zeros off leaves the other cuts as harmless as they were. -/
theorem harmless_dropLow {k i : Nat} (left : k < l.low.digits.length)
    (harmless : l.Harmless (k + i)) : (l.dropLow k left).Harmless i := by
  cases harmless with
  | inl zero =>
      obtain ⟨inLow, zeros⟩ := zero
      refine Or.inl ⟨?_, fun b member => zeros b ?_⟩
      · simp only [dropLow, HexField.drop, List.length_drop]
        omega
      · simp only [dropLow, HexField.drop, List.take_drop] at member
        exact List.mem_of_mem_drop member
  | inr noPath =>
      have moved := dropLow_inumAt left
      exact Or.inr ⟨noPath.1, by omega⟩

/-- If no byte is lost that the record needs, then it is found once. -/
theorem filterMap_segments {cuts : List Cut} {last : List Byte}
    (whole : l.bytes = joined cuts ++ last) (harmless : ∀ i ∈ lost 0 cuts, l.Harmless i) :
    (segments cuts last).filterMap parseLine = [l.record] := by
  induction cuts generalizing l with
  | nil =>
      have all : last = l.bytes := whole.symm
      simp only [segments, List.map_nil, List.nil_append, all, List.filterMap_cons,
        parseLine_bytes, List.filterMap_nil]
  | cons c cuts ih =>
      rw [joined_cons, List.append_assoc, List.cons_append] at whole
      have first : l.Harmless c.1.length := harmless _ (by simp [lost])
      have split : segments (c :: cuts) last = c.1 :: segments cuts last := rfl
      rw [split, List.filterMap_cons]
      cases first with
      | inl zero =>
          obtain ⟨left, zeros⟩ := zero
          rw [parseLine_digits whole (by omega)]
          have rest : (l.dropLow (c.1.length + 1) left).bytes = joined cuts ++ last := by
            rw [dropLow_bytes, whole, List.drop_append, List.drop_of_length_le (by omega),
              Nat.add_sub_cancel_left]
            rfl
          rw [← dropLow_record left zeros]
          apply ih rest
          intro i isLost
          apply harmless_dropLow
          apply harmless
          rw [lost, Nat.zero_add, ← Nat.add_zero (c.1.length + 1), lost_add]
          exact List.mem_cons_of_mem _ (List.mem_map_of_mem isLost)
      | inr noPath =>
          obtain ⟨none, begun⟩ := noPath
          rw [l.parseLine_cut whole none begun]
          have nothing : (segments cuts last).filterMap (parseLine (w := w)) = [] := by
            apply List.filterMap_eq_nil_iff.mpr
            intro s member
            cases parsed : parseLine (w := w) s with
            | none => rfl
            | some r =>
                obtain ⟨front, back, z, -, parts, -⟩ := mem_segments member
                have behind : l.bytes = c.1 ++ c.2 :: joined front ++ (s ++ z) := by
                  rw [whole, parts, List.append_assoc, List.cons_append]
                have start := l.low_le_inumAt
                have shorter := l.solid_of_behind behind
                  (by rw [List.length_append, List.length_cons]; omega) parsed
                rw [none] at shorter
                exact absurd shorter (Nat.not_lt_zero _)
          simp only [nothing]

end MapsLine

end Libunwind.Maps
