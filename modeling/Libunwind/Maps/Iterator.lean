import Libunwind.Maps.Scan

/-! # Iterating over `/proc/<pid>/maps`

`maps_next` keeps what it has read of the file at the end of a buffer. The kernel is the
list of what its `read` calls deliver.
-/

namespace Libunwind.Maps

variable {w : Nat}

/-- The buffer starts at `buf_end - buf_size`; `buf` is an index into it. -/
structure MapIterator where
  fd : Int
  bytes : List Byte
  buf : Nat

/-- What `maps_init` sets up once the file is open and the buffer is there. -/
def mapsInit (fd : Int) (bytes : List Byte) : MapIterator where
  fd
  bytes
  buf := bytes.length

/-- The next `read`: the kernel delivers a piece of the file, up to the count it is asked
    for, and nothing at the end of the file. -/
def readPiece (count : Nat) : List (List Byte) → List Byte × List (List Byte)
  | [] => ([], [])
  | p :: pieces =>
      (p.take count, if count < p.length then p.drop count :: pieces else pieces)

/-- The newline in the bytes that are left, unless there is a NUL before it. -/
def findEol : List Byte → Option Nat
  | [] => none
  | b :: s =>
      if b = ofChar '\n' then some 0
      else if b = 0 then none
      else (findEol s).map (· + 1)

/-- `memmove` or `read` to an index of the buffer. -/
def copyTo (bytes : List Byte) (i : Nat) (source : List Byte) : List Byte :=
  bytes.take i ++ (source ++ bytes.drop (i + source.length))

namespace MapIterator

variable (mi : MapIterator)

/-- The bytes from `buf` to `buf_end`. -/
def window : List Byte := mi.bytes.drop mi.buf

/-- The contents of the buffer after the bytes that are left were copied down, and a
    piece was read behind them. -/
def filled (piece : List Byte) : List Byte :=
  copyTo (copyTo mi.bytes 0 mi.window) mi.window.length piece

/-- Contents that do not fill the buffer are moved to its end. -/
def refilled (piece : List Byte) : MapIterator :=
  let n := mi.window.length + piece.length
  if n < mi.bytes.length then
    let buf := mi.bytes.length - n
    { mi with bytes := copyTo (mi.filled piece) buf ((mi.filled piece).take n), buf }
  else { mi with bytes := mi.filled piece, buf := 0 }

/-- One round of the loop, up to where the end of the line is known. It ends the loop at
    the end of the file. -/
def findLine (pieces : List (List Byte)) : Option Nat × MapIterator × List (List Byte) :=
  match findEol mi.window with
  | some i => (some (mi.buf + i), mi, pieces)
  | none =>
      let bytesLeft := mi.window.length
      let (piece, rest) := readPiece (mi.bytes.length - bytesLeft) pieces
      if piece = [] then
        (none, { mi with bytes := copyTo mi.bytes 0 mi.window, buf := 0 }, rest)
      else
        let mi := mi.refilled piece
        let eol := match piece.findIdx? (· == ofChar '\n') with
          | some i => mi.buf + bytesLeft + i
          -- no newline: the last byte stands for it
          | none => mi.buf + bytesLeft + piece.length - 1
        (some eol, mi, rest)

/-- The line that ends at `eol`: its string once `eol` is overwritten, and what is left. -/
def takeLine (eol : Nat) : List Byte × MapIterator :=
  let bytes := mi.bytes.set eol 0
  ((bytes.drop mi.buf).takeWhile (· != 0), { mi with bytes, buf := eol + 1 })

/-- The loop of `maps_next`, for so many rounds. -/
def nextLoop : Nat → MapIterator → List (List Byte) →
    Result (Option (Record w) × MapIterator × List (List Byte))
  | 0, _, _ => .error .timeout
  | rounds + 1, mi, pieces =>
      match mi.findLine pieces with
      | (none, mi, rest) => .ok (none, mi, rest)
      | (some eol, mi, rest) =>
          let (line, mi) := mi.takeLine eol
          match parseLine line with
          | none => nextLoop rounds mi rest
          | some record => .ok (some record, mi, rest)

/-- `maps_next`; `none` is its 0. -/
def mapsNext (rounds : Nat) (pieces : List (List Byte)) :
    Result (Option (Record w) × MapIterator × List (List Byte)) :=
  if mi.fd < 0 then .ok (none, mi, pieces) else nextLoop rounds mi pieces

/-- Calling `maps_next` until it returns 0. -/
def mapsAll (rounds : Nat) : Nat → MapIterator → List (List Byte) → Result (List (Record w))
  | 0, _, _ => .error .timeout
  | calls + 1, mi, pieces => do
      let (found, mi, rest) ← mi.mapsNext rounds pieces
      match found with
      | none => pure []
      | some record => return record :: (← mapsAll rounds calls mi rest)

end MapIterator

/-! ## What the loop takes as lines -/

/-- A piece as the loop leaves it: without a newline in it, its last byte is overwritten
    as if it were one. -/
def ended (piece : List Byte) : List Byte :=
  if ofChar '\n' ∈ piece then piece else piece.dropLast ++ [ofChar '\n']

/-- The lines of a text that end in a newline. -/
def splitLines : List Byte → List (List Byte)
  | [] => []
  | b :: s =>
      if b = ofChar '\n' then [] :: splitLines s
      else match splitLines s with
        | [] => []
        | line :: lines => (b :: line) :: lines

/-- How many bytes there are behind the last newline. -/
def unterminated (s : List Byte) : Nat := (s.reverse.takeWhile (· != ofChar '\n')).length

/-- The pieces are not empty, and a `read` delivers no more than it is asked for: the
    room that a partial line leaves in a buffer of `size` bytes. -/
def Fits (size : Nat) : Nat → List (List Byte) → Prop
  | _, [] => True
  | carried, p :: pieces =>
      p ≠ [] ∧ carried + p.length ≤ size ∧
        Fits size (if ofChar '\n' ∈ p then unterminated p else 0) pieces

def Clean (s : List Byte) : Prop := ∀ b ∈ s, b ≠ 0

theorem splitLines_cons {line rest : List Byte} (one : ofChar '\n' ∉ line) :
    splitLines (line ++ ofChar '\n' :: rest) = line :: splitLines rest := by
  induction line with
  | nil => simp [splitLines]
  | cons b line ih =>
      obtain ⟨first, later⟩ := not_or.mp (mt List.mem_cons.mpr one)
      simp only [List.cons_append, splitLines, if_neg (Ne.symm first), ih later]

theorem splitLines_nil {s : List Byte} (noNewline : ofChar '\n' ∉ s) : splitLines s = [] := by
  induction s with
  | nil => rfl
  | cons b s ih =>
      obtain ⟨first, later⟩ := not_or.mp (mt List.mem_cons.mpr noNewline)
      simp only [splitLines, if_neg (Ne.symm first), ih later]

theorem unterminated_append (front back : List Byte) :
    unterminated (front ++ ofChar '\n' :: back) = unterminated back := by
  have stop : (ofChar '\n' :: front.reverse).takeWhile (· != ofChar '\n') = [] := by simp
  simp only [unterminated, List.reverse_append, List.reverse_cons, List.append_assoc,
    List.singleton_append, List.takeWhile_append, stop, List.append_nil]
  split
  · rename_i all
    rw [List.takeWhile_prefix _ |>.eq_of_length all]
  · rfl

theorem unterminated_whole {s : List Byte} (noNewline : ofChar '\n' ∉ s) :
    unterminated s = s.length := by
  have all : s.reverse.takeWhile (· != ofChar '\n') = s.reverse := by
    apply List.takeWhile_eq_self_iff.mpr
    intro b member
    have other : b ≠ ofChar '\n' := by
      rintro rfl
      exact noNewline (List.mem_reverse.mp member)
    simpa using other
  rw [unterminated, all, List.length_reverse]

theorem unterminated_ended (p : List Byte) :
    unterminated (ended p) = if ofChar '\n' ∈ p then unterminated p else 0 := by
  by_cases one : ofChar '\n' ∈ p
  · rw [ended, if_pos one, if_pos one]
  · rw [ended, if_neg one, if_neg one, unterminated_append]
    rfl

/-- What the loop takes a piece for: a line's end, with the byte that ends it. -/
theorem ended_split {p : List Byte} (some' : p ≠ []) :
    ∃ a c b, p = a ++ c :: b ∧ ended p = a ++ ofChar '\n' :: b ∧ ofChar '\n' ∉ a ∧
      (p.findIdx? (· == ofChar '\n')).getD (p.length - 1) = a.length := by
  by_cases one : ofChar '\n' ∈ p
  · obtain ⟨a, b, rfl, first⟩ := List.eq_append_cons_of_mem one
    refine ⟨a, ofChar '\n', b, rfl, by rw [ended, if_pos one], first, ?_⟩
    have none : ∀ c ∈ a, ¬ (c == ofChar '\n') = true := by
      intro c member same
      exact first (beq_iff_eq.mp same ▸ member)
    have skip : a.findIdx? (· == ofChar '\n') = Option.none := List.findIdx?_eq_none_iff.mpr (by
      intro c member
      simpa using none c member)
    rw [List.findIdx?_append, skip]
    simp [List.findIdx?_cons]
  · have last := List.dropLast_append_getLast some'
    refine ⟨p.dropLast, p.getLast some', [], last.symm, by rw [ended, if_neg one],
      fun member => one (List.dropLast_subset p member), ?_⟩
    have skip : p.findIdx? (· == ofChar '\n') = Option.none := List.findIdx?_eq_none_iff.mpr (by
      intro c member
      have other : c ≠ ofChar '\n' := by
        rintro rfl
        exact one member
      simpa using other)
    rw [skip, List.length_dropLast]
    rfl

/-! ## The buffer -/

theorem findEol_some {line rest : List Byte} (clean : Clean line) (one : ofChar '\n' ∉ line) :
    findEol (line ++ ofChar '\n' :: rest) = some line.length := by
  induction line with
  | nil => simp [findEol]
  | cons b line ih =>
      obtain ⟨first, later⟩ := not_or.mp (mt List.mem_cons.mpr one)
      have cleanLater : Clean line := fun d member => clean d (List.mem_cons_of_mem _ member)
      simp only [List.cons_append, findEol, if_neg (Ne.symm first),
        if_neg (clean b List.mem_cons_self), ih cleanLater later, Option.map_some,
        List.length_cons]

theorem findEol_none {s : List Byte} (noNewline : ofChar '\n' ∉ s) : findEol s = none := by
  induction s with
  | nil => rfl
  | cons b s ih =>
      obtain ⟨first, later⟩ := not_or.mp (mt List.mem_cons.mpr noNewline)
      simp only [findEol, if_neg (Ne.symm first), ih later, Option.map_none, ite_self]

theorem copyTo_length {bytes source : List Byte} {i : Nat} (fits : i + source.length ≤ bytes.length) :
    (copyTo bytes i source).length = bytes.length := by
  simp only [copyTo, List.length_append, List.length_take, List.length_drop]
  omega

theorem copyTo_drop {bytes source : List Byte} {i : Nat}
    (whole : i + source.length = bytes.length) : (copyTo bytes i source).drop i = source := by
  have start : (bytes.take i).length = i := by
    rw [List.length_take]
    omega
  rw [copyTo, whole, List.drop_length, List.append_nil, List.drop_left' start]

theorem copyTo_take {bytes source : List Byte} {i : Nat} (fits : i ≤ bytes.length) :
    (copyTo bytes i source).take (i + source.length) = bytes.take i ++ source := by
  have start : (bytes.take i).length = i := by
    rw [List.length_take]
    omega
  rw [copyTo, ← List.append_assoc]
  exact List.take_left' (by rw [List.length_append, start])

namespace MapIterator

variable {mi : MapIterator}

/-- The buffer after a refill: as large as before, and its end has what was left and the
    piece. -/
theorem refilled_window {piece : List Byte}
    (fits : mi.window.length + piece.length ≤ mi.bytes.length) :
    (mi.refilled piece).window = mi.window ++ piece ∧
      (mi.refilled piece).bytes.length = mi.bytes.length ∧
      (mi.refilled piece).fd = mi.fd := by
  have down : (copyTo mi.bytes 0 mi.window).length = mi.bytes.length :=
    copyTo_length (by omega)
  have length : (mi.filled piece).length = mi.bytes.length :=
    (copyTo_length (by omega)).trans down
  have front : (mi.filled piece).take (mi.window.length + piece.length) = mi.window ++ piece := by
    have left : (copyTo mi.bytes 0 mi.window).take mi.window.length = mi.window := by
      simpa using copyTo_take (Nat.zero_le mi.bytes.length)
    rw [filled, copyTo_take (by omega), left]
  by_cases short : mi.window.length + piece.length < mi.bytes.length
  · simp only [refilled, if_pos short]
    have taken : ((mi.filled piece).take (mi.window.length + piece.length)).length =
        mi.window.length + piece.length := by
      rw [front, List.length_append]
    refine ⟨?_, ?_, trivial⟩
    · have end' : mi.bytes.length - (mi.window.length + piece.length) +
          ((mi.filled piece).take (mi.window.length + piece.length)).length =
          (mi.filled piece).length := by omega
      exact (copyTo_drop end').trans front
    · rw [copyTo_length (by omega), length]
  · simp only [refilled, if_neg short]
    have whole : mi.window.length + piece.length = (mi.filled piece).length := by omega
    refine ⟨?_, length, trivial⟩
    rw [whole, List.take_length] at front
    rw [window, List.drop_zero, front]

/-- Ending the line at a byte of the window. -/
theorem takeLine_window {line rest : List Byte} {b : Byte} (clean : Clean line)
    (window : mi.window = line ++ b :: rest) :
    (mi.takeLine (mi.buf + line.length)).1 = line ∧
      (mi.takeLine (mi.buf + line.length)).2.window = rest ∧
      (mi.takeLine (mi.buf + line.length)).2.bytes.length = mi.bytes.length ∧
      (mi.takeLine (mi.buf + line.length)).2.fd = mi.fd := by
  have overwritten : (mi.bytes.set (mi.buf + line.length) 0).drop mi.buf = line ++ 0 :: rest := by
    rw [List.drop_set, if_neg (by omega), show mi.bytes.drop mi.buf = _ from window,
      Nat.add_sub_cancel_left, List.set_append_right _ _ (Nat.le_refl _), Nat.sub_self]
    rfl
  refine ⟨?_, ?_, List.length_set, rfl⟩
  · have all : ∀ c ∈ line, (c != 0) = true := by
      intro c member
      simpa using clean c member
    simp only [takeLine, overwritten, List.takeWhile_append_of_pos all]
    simp
  · simp only [takeLine, MapIterator.window, Nat.add_assoc]
    rw [← List.drop_drop, overwritten, ← List.drop_drop, List.drop_left]
    rfl

theorem findLine_window {line rest : List Byte} (clean : Clean line) (one : ofChar '\n' ∉ line)
    (window : mi.window = line ++ ofChar '\n' :: rest) (pieces : List (List Byte)) :
    mi.findLine pieces = (some (mi.buf + line.length), mi, pieces) := by
  simp only [findLine, window, findEol_some clean one]

theorem findLine_refill {p a b : List Byte} {c : Byte} {pieces : List (List Byte)}
    (noNewline : ofChar '\n' ∉ mi.window) (split : p = a ++ c :: b)
    (fits : mi.window.length + p.length ≤ mi.bytes.length)
    (found : (p.findIdx? (· == ofChar '\n')).getD (p.length - 1) = a.length) :
    mi.findLine (p :: pieces) =
      (some ((mi.refilled p).buf + (mi.window ++ a).length), mi.refilled p, pieces) := by
  have some' : p ≠ [] := by
    rw [split]
    simp
  have all : p.take (mi.bytes.length - mi.window.length) = p := List.take_of_length_le (by omega)
  have last : ¬ mi.bytes.length - mi.window.length < p.length := by omega
  simp only [findLine, findEol_none noNewline, readPiece, all, if_neg last, if_neg some',
    List.length_append]
  congr 2
  rw [← found]
  cases p.findIdx? (· == ofChar '\n') with
  | some i => simp only [Option.getD_some, Nat.add_assoc]
  | none =>
      have positive := List.length_pos_iff.mpr some'
      simp only [Option.getD_none]
      omega

theorem findLine_end (noNewline : ofChar '\n' ∉ mi.window) :
    (mi.findLine []).1 = none := by
  simp only [findLine, findEol_none noNewline, readPiece, if_true]

/-! ## A run -/

/-- Between two rounds: what is left of the text, and the room in the buffer. -/
structure Ready (mi : MapIterator) (pieces : List (List Byte)) (text : List Byte) : Prop where
  opened : 0 ≤ mi.fd
  text_eq : text = mi.window ++ pieces.flatMap ended
  clean : Clean mi.window
  cleanPieces : ∀ p ∈ pieces, Clean p
  fits : Fits mi.bytes.length (unterminated mi.window) pieces

/-- A round takes the next line of the text, or finds that there is none. -/
theorem Ready.round {pieces : List (List Byte)} {text : List Byte} (ready : Ready mi pieces text) :
    (∃ line rest next left eol mid, text = line ++ ofChar '\n' :: rest ∧ ofChar '\n' ∉ line ∧
      mi.findLine pieces = (some eol, mid, left) ∧ mid.takeLine eol = (line, next) ∧
      Ready next left rest) ∨
    (ofChar '\n' ∉ text ∧ ∃ mid left, mi.findLine pieces = (none, mid, left)) := by
  by_cases one : ofChar '\n' ∈ mi.window
  · obtain ⟨line, rest, window, first⟩ := List.eq_append_cons_of_mem one
    have clean : Clean line := fun b member =>
      ready.clean b (window ▸ List.mem_append_left _ member)
    obtain ⟨string, left, length, fd⟩ := takeLine_window clean window
    refine Or.inl ⟨line, rest ++ pieces.flatMap ended, _, pieces, _, _, ?_, first,
      findLine_window clean first window pieces, Prod.ext string rfl, ?_⟩
    · rw [ready.text_eq, window, List.append_assoc, List.cons_append]
    · have carried := ready.fits
      rw [window, unterminated_append] at carried
      refine ⟨fd ▸ ready.opened, left ▸ rfl, ?_, ready.cleanPieces, ?_⟩
      · rw [left]
        exact fun b member => ready.clean b (by rw [window]; simp [member])
      · rwa [left, length]
  · cases pieces with
    | nil =>
        refine Or.inr ⟨?_, ?_⟩
        · rwa [ready.text_eq, List.flatMap_nil, List.append_nil]
        · have none := findLine_end one
          exact ⟨_, _, Prod.ext none rfl⟩
    | cons p pieces =>
        obtain ⟨some', room, later⟩ := ready.fits
        rw [unterminated_whole one] at room
        obtain ⟨a, c, b, split, ends, first, found⟩ := ended_split some'
        obtain ⟨window, length, fd⟩ := refilled_window room
        have cleanPiece := ready.cleanPieces p List.mem_cons_self
        have clean : Clean (mi.window ++ a) := by
          intro d member
          cases List.mem_append.mp member with
          | inl inWindow => exact ready.clean d inWindow
          | inr inPiece => exact cleanPiece d (split ▸ List.mem_append_left _ inPiece)
        have whole : (mi.refilled p).window = (mi.window ++ a) ++ c :: b := by
          rw [window, split, List.append_assoc]
        obtain ⟨string, left, size, opened⟩ := takeLine_window clean whole
        refine Or.inl ⟨mi.window ++ a, b ++ pieces.flatMap ended, _, pieces, _, _, ?_, ?_,
          findLine_refill one split room found, Prod.ext string rfl, ?_⟩
        · rw [ready.text_eq, List.flatMap_cons, ends]
          simp only [List.append_assoc, List.cons_append]
        · exact fun member => (List.mem_append.mp member).elim one first
        · refine ⟨opened ▸ fd ▸ ready.opened, left ▸ rfl, ?_,
            fun q member => ready.cleanPieces q (List.mem_cons_of_mem _ member), ?_⟩
          · rw [left]
            exact fun d member => cleanPiece d (split ▸ by simp [member])
          · have carried := unterminated_ended p
            rw [ends, unterminated_append] at carried
            rwa [left, size, length, carried]

/-- The records of a text, line by line. -/
def records (w : Nat) (text : List Byte) : List (Record w) :=
  (splitLines text).filterMap parseLine

/-- What a call of `maps_next` returns when `rest` are the records that are left. -/
def Returns (found : Option (Record w) × MapIterator × List (List Byte)) (text : List Byte) :
    List (Record w) → Prop
  | [] => found.1 = none
  | record :: later => found.1 = some record ∧ ∃ rest, Ready found.2.1 found.2.2 rest ∧
      rest.length < text.length ∧ records w rest = later

theorem Ready.nextLoop {pieces : List (List Byte)} {text : List Byte} {rounds : Nat}
    (ready : Ready mi pieces text) (enough : text.length < rounds) :
    ∃ found, MapIterator.nextLoop rounds mi pieces = .ok found ∧
      Returns found text (records w text) := by
  induction rounds generalizing mi pieces text with
  | zero => exact absurd enough (Nat.not_lt_zero _)
  | succ rounds ih =>
      cases ready.round with
      | inl line =>
          obtain ⟨line, rest, next, left, eol, mid, rfl, one, found, taken, ready⟩ := line
          rw [List.length_append, List.length_cons] at enough
          have shorter : rest.length < (line ++ ofChar '\n' :: rest).length := by
            rw [List.length_append, List.length_cons]
            omega
          simp only [MapIterator.nextLoop, found, taken, records, splitLines_cons one,
            List.filterMap_cons]
          cases parsed : parseLine (w := w) line with
          | some record => exact ⟨_, rfl, rfl, rest, ready, shorter, rfl⟩
          | none =>
              obtain ⟨found, called, returned⟩ := ih ready (by omega)
              refine ⟨found, called, ?_⟩
              simp only [records] at returned
              cases later : (splitLines rest).filterMap (parseLine (w := w)) with
              | nil =>
                  rw [later] at returned
                  exact returned
              | cons record later' =>
                  rw [later] at returned
                  obtain ⟨first, rest', ready', fewer, rfl⟩ := returned
                  exact ⟨first, rest', ready', Nat.lt_trans fewer shorter, rfl⟩
      | inr ended =>
          obtain ⟨last, mid, left, found⟩ := ended
          refine ⟨_, by simp only [MapIterator.nextLoop, found]; rfl, ?_⟩
          rw [records, splitLines_nil last]
          rfl

/-- Calling `maps_next` until it returns 0 gives the records of the text that the loop
    makes of the pieces. -/
theorem Ready.mapsAll {pieces : List (List Byte)} {text : List Byte} {rounds calls : Nat}
    (ready : Ready mi pieces text) (enough : text.length < rounds) (often : text.length < calls) :
    mi.mapsAll rounds calls pieces = .ok (records w text) := by
  induction calls generalizing mi pieces text with
  | zero => exact absurd often (Nat.not_lt_zero _)
  | succ calls ih =>
      obtain ⟨⟨found, next, left⟩, called, returned⟩ := ready.nextLoop (w := w) enough
      have opened : ¬ mi.fd < 0 := by
        have := ready.opened
        omega
      simp only [MapIterator.mapsAll, mapsNext, if_neg opened, called, ok_bind]
      cases left' : records w text with
      | nil =>
          rw [left'] at returned
          cases returned
          rfl
      | cons record later =>
          rw [left'] at returned
          obtain ⟨first, rest, ready, shorter, rfl⟩ := returned
          cases first
          simp only [ih ready (by omega) (by omega), ok_bind]
          rfl

end MapIterator

end Libunwind.Maps
