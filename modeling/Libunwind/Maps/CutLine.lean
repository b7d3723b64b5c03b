import Libunwind.Maps.Line

/-! # Parts of a line

What the scanners make of a part of a well-formed line: from behind the lower address
there is no record, or one whose path is shorter than the line's, and a line that is cut
short has its record only where it has no path and its inode number has begun.
-/

namespace Libunwind.Maps

variable {w : Nat}

/-! ## What a record starts with -/

/-- The string goes on with digits and then a dash. -/
def inDigits : List Byte → Bool
  | [] => false
  | b :: s => if isHex b then inDigits s else b == ofChar '-'

/-- The string starts as a line does: with a number, and then a dash. -/
def opens : List Byte → Bool
  | [] => false
  | b :: s => if isBlank b then opens s else isHex b && inDigits s

theorem inDigits_append {s : List Byte} (more : List Byte) (dash : inDigits s = true) :
    inDigits (s ++ more) = true := by
  induction s with
  | nil => simp [inDigits] at dash
  | cons b s ih =>
      simp only [inDigits, List.cons_append] at dash ⊢
      cases hex : isHex b with
      | true =>
          simp only [hex, if_true] at dash ⊢
          exact ih dash
      | false => simpa only [hex, Bool.false_eq_true, if_false] using dash

theorem opens_append {s : List Byte} (more : List Byte) (start : opens s = true) :
    opens (s ++ more) = true := by
  induction s with
  | nil => simp [opens] at start
  | cons b s ih =>
      simp only [opens, List.cons_append] at start ⊢
      cases blank : isBlank b with
      | true =>
          simp only [blank, if_true] at start ⊢
          exact ih start
      | false =>
          simp only [blank, Bool.false_eq_true, if_false, Bool.and_eq_true] at start ⊢
          exact ⟨start.1, inDigits_append more start.2⟩

theorem opens_skipWhitespace (s : List Byte) : opens (skipWhitespace s) = opens s := by
  induction s with
  | nil => rfl
  | cons b s ih =>
      cases blank : isBlank b with
      | true => simpa only [skipWhitespace, List.dropWhile_cons_of_pos blank, opens, blank, if_true]
          using ih
      | false => simp only [skipWhitespace, List.dropWhile_cons, blank, Bool.false_eq_true, if_false]

theorem inDigits_of_digitsLoop {push : Word w → Nat → Word w} {s rest : List Byte} {val : Word w}
    {n : Nat} (scanned : (digitsLoop hexDigit push s val n).2.2 = ofChar '-' :: rest) :
    inDigits s = true := by
  induction s generalizing val n with
  | nil => simp [digitsLoop] at scanned
  | cons b s ih =>
      cases read : hexDigit b with
      | some d =>
          simp only [digitsLoop, read] at scanned
          simp only [inDigits, isHex, read, Option.isSome_some, if_true]
          exact ih scanned
      | none =>
          simp only [digitsLoop, read, List.cons.injEq] at scanned
          rw [scanned.1]
          rfl

/-- How many bytes are not white-space. -/
def solid (s : List Byte) : Nat := s.countP fun b => !isBlank b

theorem solid_suffix {s t : List Byte} (suffix : s <:+ t) : solid s ≤ solid t :=
  suffix.sublist.countP_le

@[simp] theorem solid_skipWhitespace (s : List Byte) : solid (skipWhitespace s) = solid s := by
  induction s with
  | nil => rfl
  | cons b s ih =>
      cases blank : isBlank b with
      | true => simpa [solid, skipWhitespace, blank] using ih
      | false => simp [skipWhitespace, blank]

/-- A number takes a byte that is not white-space. -/
theorem scanHex_cons {s rest : List Byte} {v : Word w} (scanned : scanHex s = some (v, rest)) :
    solid rest < solid s ∧ ∀ more, rest = ofChar '-' :: more → opens s = true := by
  simp only [scanHex, scanNumber, Option.ite_none_left_eq_some, Option.some.injEq,
    Prod.mk.injEq] at scanned
  obtain ⟨found, -, rfl⟩ := scanned
  rw [← solid_skipWhitespace s, ← opens_skipWhitespace s]
  have first : ∀ b ∈ (skipWhitespace s).head?, isBlank b = false := by
    intro b isFirst
    have stopped := List.head?_dropWhile_not isBlank s
    rwa [show (s.dropWhile isBlank).head? = some b from isFirst] at stopped
  generalize skipWhitespace s = s at *
  cases s with
  | nil => exact absurd rfl found
  | cons b s =>
      have notBlank := first b rfl
      cases read : hexDigit b with
      | none => simp [digitsLoop, read] at found
      | some d =>
          simp only [digitsLoop, read]
          constructor
          · apply Nat.lt_of_le_of_lt (solid_suffix (digitsLoop_suffix s _ _))
            simp only [solid, List.countP_cons, notBlank, Bool.not_false, if_true]
            omega
          · intro more dash
            simp only [opens, notBlank, Bool.false_eq_true, if_false, isHex, read,
              Option.isSome_some, Bool.true_and]
            exact inDigits_of_digitsLoop dash

/-- A record has the number its string starts with, and its path from behind it. -/
theorem parseLine_cons {s : List Byte} {r : Record w} (parsed : parseLine s = some r) :
    ∃ rest, scanHex s = some (r.low, ofChar '-' :: rest) ∧ r.path <:+ rest := by
  simp only [parseLine, scanHead, Option.bind_eq_bind, Option.bind_eq_some_iff,
    Option.ite_none_left_eq_some, Option.some.injEq, Option.pure_def] at parsed
  obtain ⟨_, ⟨low, lowScanned, high, highScanned, perm, permScanned, offset, offsetScanned,
    major, majorScanned, minor, minorScanned, rfl⟩, inum, inumScanned, form, rfl⟩ := parsed
  obtain ⟨lowVal, s⟩ := low
  cases s with
  | nil => simp [scanChar, ofChar] at form
  | cons b rest =>
      have dash : b = ofChar '-' := Classical.not_not.mp fun other => form (Or.inl other)
      subst dash
      refine ⟨rest, lowScanned, ?_⟩
      have afterColon : (scanChar major.2).2 <:+ major.2 := resumes_scanChar.suffix rfl
      calc skipWhitespace inum.2 <:+ inum.2 := List.dropWhile_suffix _
        _ <:+ minor.2 := resumes_scanNumber.suffix inumScanned
        _ <:+ (scanChar major.2).2 := resumes_scanHex.suffix minorScanned
        _ <:+ major.2 := afterColon
        _ <:+ offset.2 := resumes_scanHex.suffix majorScanned
        _ <:+ perm.2 := resumes_scanHex.suffix offsetScanned
        _ <:+ high.2 := (resumes_scanString 16).suffix permScanned
        _ <:+ rest := resumes_scanHex.suffix highScanned

theorem parseLine_opens {s : List Byte} {r : Record w} (parsed : parseLine s = some r) :
    opens s = true := by
  obtain ⟨rest, scanned, -⟩ := parseLine_cons parsed
  exact (scanHex_cons scanned).2 rest rfl

theorem parseLine_solid {s : List Byte} {r : Record w} (parsed : parseLine s = some r) :
    solid r.path < solid s := by
  obtain ⟨rest, scanned, suffix⟩ := parseLine_cons parsed
  exact Nat.lt_of_le_of_lt (solid_suffix (suffix.trans (List.suffix_cons _ rest)))
    (scanHex_cons scanned).1

/-! ## Where no record starts -/

/-- No suffix of `s` that is longer than `base` starts as a line does. -/
def Quiet (base s : List Byte) : Prop :=
  ∀ t, t <:+ s → base.length < t.length → opens t = false

theorem Quiet.self (base : List Byte) : Quiet base base := by
  intro t suffix longer
  exact absurd suffix.length_le (by omega)

theorem Quiet.cons {base s : List Byte} {b : Byte} (quiet : Quiet base s)
    (closed : opens (b :: s) = false) : Quiet base (b :: s) := by
  intro t suffix longer
  cases List.suffix_cons_iff.mp suffix with
  | inl whole => rw [whole, closed]
  | inr inside => exact quiet t inside longer

/-- A byte that is neither a digit nor white-space. -/
theorem Quiet.sign {base s : List Byte} {b : Byte} (quiet : Quiet base s)
    (noBlank : isBlank b = false) (noHex : isHex b = false) : Quiet base (b :: s) :=
  quiet.cons (by simp only [opens, noBlank, noHex, Bool.false_eq_true, if_false, Bool.false_and])

theorem Quiet.signs {base s bs : List Byte} (quiet : Quiet base s)
    (neither : ∀ b ∈ bs, isBlank b = false ∧ isHex b = false) : Quiet base (bs ++ s) := by
  induction bs with
  | nil => exact quiet
  | cons b bs ih =>
      have first := neither b List.mem_cons_self
      exact (ih fun b member => neither b (List.mem_cons_of_mem _ member)).sign first.1 first.2

theorem Quiet.gap {base s : List Byte} (g : Gap) (quiet : Quiet base s)
    (closed : opens s = false) : Quiet base (g.bytes ++ s) ∧ opens (g.bytes ++ s) = false := by
  have blanks : ∀ bs : List Byte, (∀ b ∈ bs, isBlank b = true) →
      Quiet base (bs ++ s) ∧ opens (bs ++ s) = false := by
    intro bs blank
    induction bs with
    | nil => exact ⟨quiet, closed⟩
    | cons b bs ih =>
        obtain ⟨before, shut⟩ := ih fun b member => blank b (List.mem_cons_of_mem _ member)
        have here : opens (b :: (bs ++ s)) = false := by
          simp only [opens, blank b List.mem_cons_self, if_true, shut]
        exact ⟨before.cons here, here⟩
  exact blanks g.bytes g.blank

theorem inDigits_digits {ds s : List Byte} (hex : ∀ b ∈ ds, isHex b = true) :
    inDigits (ds ++ s) = inDigits s := by
  induction ds with
  | nil => rfl
  | cons b ds ih =>
      simp only [List.cons_append, inDigits, hex b List.mem_cons_self, if_true]
      exact ih fun b member => hex b (List.mem_cons_of_mem _ member)

/-- Digits with something else than a dash behind them. -/
theorem Quiet.digits {base s ds : List Byte} (hex : ∀ b ∈ ds, isHex b = true)
    (quiet : Quiet base s) (noDash : inDigits s = false) : Quiet base (ds ++ s) := by
  induction ds with
  | nil => exact quiet
  | cons b ds ih =>
      have later := fun b member => hex b (List.mem_cons_of_mem _ member)
      apply (ih later).cons
      simp only [opens, isBlank_of_isHex (hex b List.mem_cons_self), Bool.false_eq_true, if_false,
        inDigits_digits later, noDash, Bool.and_false]

theorem opens_digits {s ds : List Byte} (hex : ∀ b ∈ ds, isHex b = true) (some' : ds ≠ [])
    (noDash : inDigits s = false) : opens (ds ++ s) = false := by
  cases ds with
  | nil => exact absurd rfl some'
  | cons b ds =>
      simp only [List.cons_append, opens, isBlank_of_isHex (hex b List.mem_cons_self),
        Bool.false_eq_true, if_false,
        inDigits_digits fun b member => hex b (List.mem_cons_of_mem _ member), noDash,
        Bool.and_false]

theorem inDigits_blank {s : List Byte} (blank : ∀ b ∈ s.head?, isBlank b = true) :
    inDigits s = false := by
  cases s with
  | nil => rfl
  | cons b s =>
      have first := blank b rfl
      have noDash : b ≠ ofChar '-' := by
        rintro rfl
        exact absurd first (by decide)
      simp only [inDigits, isHex_of_isBlank first, Bool.false_eq_true, if_false, beq_eq_false_iff_ne]
      exact noDash

theorem inDigits_gap (g : Gap) (s : List Byte) : inDigits (g.bytes ++ s) = false := by
  apply inDigits_blank
  obtain ⟨b, bs, bytes⟩ := List.exists_cons_of_ne_nil g.nonempty
  rw [bytes]
  rintro first ⟨⟩
  exact g.blank b (bytes ▸ List.mem_cons_self)

theorem Perms.signs (p : Perms) : ∀ b ∈ p.bytes, isBlank b = false ∧ isHex b = false :=
  p.forall_bytes (by decide)

namespace MapsLine

variable (l : MapsLine w)

/-- Between the lower address and what follows the inode number. -/
theorem quiet_afterLow : Quiet l.tail.bytes l.afterLow := by
  have inumHex : ∀ b ∈ l.inum.digits, isHex b = true := fun b member =>
    isHex_of_isDec (l.inum.dec b member)
  have inumEnds : inDigits l.tail.bytes = false := inDigits_blank l.tail.starts
  have inum := (Quiet.self l.tail.bytes).digits inumHex inumEnds
  obtain ⟨inode, -⟩ := inum.gap l.inumGap (opens_digits inumHex l.inum.nonempty inumEnds)
  have minor := inode.digits l.minor.hex (inDigits_gap l.inumGap _)
  have colon := minor.sign (b := ofChar ':') rfl rfl
  have colonEnds (s : List Byte) : inDigits (ofChar ':' :: s) = false := rfl
  obtain ⟨major, -⟩ := (colon.digits l.major.hex (colonEnds _)).gap l.majorGap
    (opens_digits l.major.hex l.major.nonempty (colonEnds _))
  obtain ⟨offset, -⟩ := (major.digits l.offset.hex (inDigits_gap l.majorGap _)).gap l.offsetGap
    (opens_digits l.offset.hex l.offset.nonempty (inDigits_gap l.majorGap _))
  have permsShut : opens (l.perms.bytes ++ (l.offsetGap.bytes ++ (l.offset.digits ++
      (l.majorGap.bytes ++ (l.major.digits ++ ofChar ':' :: (l.minor.digits ++ l.inode)))))) =
      false := by
    have first := l.perms.signs _ List.mem_cons_self
    simp only [Perms.bytes, List.cons_append, opens]
    rw [if_neg (by simpa using first.1), first.2, Bool.false_and]
  obtain ⟨perms, -⟩ := (offset.signs l.perms.signs).gap l.permGap permsShut
  exact (perms.digits l.high.hex (inDigits_gap l.permGap _)).sign rfl rfl

theorem inode_suffix : l.inode <:+ l.afterLow := by
  refine ⟨ofChar '-' :: (l.high.digits ++ l.permGap.bytes ++ l.perms.bytes ++ l.offsetGap.bytes ++
    l.offset.digits ++ l.majorGap.bytes ++ l.major.digits ++ ofChar ':' :: l.minor.digits), ?_⟩
  simp only [afterLow, List.cons_append, List.append_assoc]

/-- What is scanned from behind the lower address gives no record, or one with a path
    that is shorter than the line's. -/
theorem solid_of_behind {a s z : List Byte} {r : Record w} (whole : l.bytes = a ++ (s ++ z))
    (behind : l.low.digits.length ≤ a.length) (parsed : parseLine s = some r) :
    solid r.path < solid l.path := by
  have suffix : s ++ z <:+ l.afterLow := by
    have both : a ++ (s ++ z) <:+ l.bytes := whole ▸ List.suffix_rfl
    have lengths := congrArg List.length whole
    simp only [bytes, List.length_append] at lengths
    apply List.suffix_of_suffix_length_le ((List.suffix_append a _).trans both)
      (List.suffix_append l.low.digits _)
    simp only [List.length_append]
    omega
  by_cases longer : l.tail.bytes.length < (s ++ z).length
  · have shut := l.quiet_afterLow _ suffix longer
    rw [opens_append z (parseLine_opens parsed)] at shut
    cases shut
  · have tail : l.tail.bytes <:+ l.inode :=
      List.suffix_append_of_suffix (List.suffix_append _ _)
    have inTail := List.suffix_of_suffix_length_le suffix (tail.trans l.inode_suffix) (by omega)
    calc solid r.path < solid s := parseLine_solid parsed
      _ ≤ solid (s ++ z) := (List.sublist_append_left s z).countP_le
      _ ≤ solid l.tail.bytes := solid_suffix inTail
      _ = solid l.path := (solid_skipWhitespace _).symm

/-! ## Lines that are cut short -/

/-- Where the first digit of the inode number is. -/
def inumAt : Nat := l.bytes.length - l.inode.length + l.inumGap.bytes.length

theorem inode_le : l.inode.length ≤ l.bytes.length :=
  (l.inode_suffix.trans (List.suffix_append _ _)).length_le

/-- What is left of the line has its path only if there is none, and if the inode number
    has begun. -/
theorem cut_of_parseLine {u v : List Byte} {r : Record w} (whole : l.bytes = u ++ v)
    (some' : v ≠ []) (parsed : parseLine u = some r) (same : r.path = l.path) :
    l.path = [] ∧ l.inumAt < u.length := by
  simp only [parseLine, Option.bind_eq_bind, Option.bind_eq_some_iff,
    Option.ite_none_left_eq_some, Option.some.injEq] at parsed
  obtain ⟨⟨head, s⟩, headScanned, ⟨inum, t⟩, inumScanned, -, rfl⟩ := parsed
  have left : s ≠ [] := by
    rintro rfl
    exact absurd inumScanned.symm (Option.some_ne_none _)
  have inode : s ++ v = l.inode := by
    have extended := resumes_scanHead.extend v headScanned left
    rw [← whole, l.scanHead_bytes] at extended
    exact (congrArg Prod.snd (Option.some.inj extended)).symm
  constructor
  · cases t with
    | nil => exact same.symm
    | cons b t =>
        obtain ⟨number, tailScanned⟩ := l.scanDec_inode
        have extended := resumes_scanNumber.extend v inumScanned (List.cons_ne_nil b t)
        rw [inode] at extended
        have tail : l.tail.bytes = b :: t ++ v :=
          congrArg Prod.snd (Option.some.inj (tailScanned.symm.trans extended))
        by_cases blank : skipWhitespace (b :: t) = []
        · rw [← same, blank]
        · have longer : l.path = skipWhitespace (b :: t) ++ v := by
            rw [path, tail]
            exact dropWhile_append_of_ne_nil v blank
          rw [← same] at longer
          exact absurd (List.self_eq_append_right.mp longer) some'
  · by_contra short
    have lengths := congrArg List.length whole
    have inodeLength := congrArg List.length inode
    simp only [List.length_append] at lengths inodeLength
    have inGap : s.length ≤ l.inumGap.bytes.length := by
      have := l.inode_le
      simp only [inumAt] at short
      omega
    have isPrefix : s <+: l.inumGap.bytes :=
      List.prefix_of_prefix_length_le ⟨v, inode⟩ (List.prefix_append _ _) inGap
    have blank : skipWhitespace s = [] :=
      List.dropWhile_eq_nil_iff.mpr fun b member => l.inumGap.blank b (isPrefix.subset member)
    simp only [scanDec, scanNumber, blank] at inumScanned
    exact absurd inumScanned.symm (Option.some_ne_none _)

/-- The line with less behind its inode number, or with fewer digits there. -/
def shorten (tail : Tail) (inum : DecField) : MapsLine w := { l with tail, inum }

theorem shorten_bytes :
    ∃ front, l.bytes = front ++ (l.inum.digits ++ l.tail.bytes) ∧ front.length = l.inumAt ∧
      ∀ tail inum, (l.shorten tail inum).bytes = front ++ (inum.digits ++ tail.bytes) := by
  refine ⟨l.low.digits ++ ofChar '-' :: (l.high.digits ++ (l.permGap.bytes ++ (l.perms.bytes ++
    (l.offsetGap.bytes ++ (l.offset.digits ++ (l.majorGap.bytes ++ (l.major.digits ++ ofChar ':' ::
      (l.minor.digits ++ l.inumGap.bytes)))))))), ?_, ?_, ?_⟩
  · simp only [bytes, afterLow, inode, List.append_assoc, List.cons_append]
  · simp only [inumAt, bytes, afterLow, inode, List.length_append, List.length_cons]
    omega
  · intro tail inum
    simp only [bytes, afterLow, inode, shorten, List.append_assoc, List.cons_append]

/-- Where there is no path, what has a digit of the inode number says the same. -/
theorem parseLine_cut {u v : List Byte} (whole : l.bytes = u ++ v) (noPath : l.path = [])
    (begun : l.inumAt < u.length) : parseLine u = some l.record := by
  have blank : ∀ b ∈ l.tail.bytes, isBlank b = true := List.dropWhile_eq_nil_iff.mp noPath
  have unchanged (tail : Tail) (inum : DecField) (short : tail.bytes <+: l.tail.bytes)
      (cut : u = (l.shorten tail inum).bytes) : parseLine u = some l.record := by
    rw [cut, parseLine_bytes]
    have none : (l.shorten tail inum).path = l.path := by
      rw [noPath]
      exact List.dropWhile_eq_nil_iff.mpr fun b member => blank b (short.subset member)
    exact congrArg some (congrArg (Record.mk l.low.value l.high.value l.offset.value l.perms.flags)
      none)
  obtain ⟨front, bytes, length, shortened⟩ := l.shorten_bytes
  obtain ⟨s, rfl, rest⟩ : ∃ s, u = front ++ s ∧ s ++ v = l.inum.digits ++ l.tail.bytes := by
    cases List.append_eq_append_iff.mp (whole.symm.trans bytes) with
    | inl shorter =>
        obtain ⟨s, rfl, -⟩ := shorter
        rw [List.length_append] at length
        omega
    | inr longer =>
        obtain ⟨s, isU, rest⟩ := longer
        exact ⟨s, isU, rest.symm⟩
  have some' : s ≠ [] := by
    rintro rfl
    rw [List.append_nil] at begun
    omega
  cases List.append_eq_append_iff.mp rest with
  | inl inDigits =>
      -- fewer digits, and nothing behind them
      obtain ⟨more, digits, -⟩ := inDigits
      have dec : ∀ b ∈ s, isDec b = true := fun b member =>
        l.inum.dec b (digits ▸ List.mem_append_left more member)
      apply unchanged { bytes := [], starts := nofun, clean := nofun } ⟨s, some', dec⟩ List.nil_prefix
      rw [shortened, List.append_nil]
  | inr inTail =>
      obtain ⟨t, rfl, tail⟩ := inTail
      have starts : ∀ b ∈ t.head?, isBlank b = true := fun b isFirst =>
        blank b (tail ▸ List.mem_append_left v (List.mem_of_mem_head? isFirst))
      have clean : ∀ b ∈ t, b ≠ ofChar '\n' ∧ b ≠ 0 := fun b member =>
        l.tail.clean b (tail ▸ List.mem_append_left v member)
      apply unchanged ⟨t, starts, clean⟩ l.inum (tail ▸ List.prefix_append t v)
      rw [shortened]

end MapsLine

end Libunwind.Maps
