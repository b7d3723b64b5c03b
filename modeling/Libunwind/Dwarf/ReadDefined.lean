import Libunwind.Dwarf.Reader

/-! # When the readers are defined

Only a LEB128 number can lead a reader to something C leaves undefined: a shift
by the width of a word or more.
-/

namespace Libunwind.Dwarf

variable {w : Nat}

/-- There is another byte behind so many bytes with the top bit. -/
def goesOn (as : AddrSpace w) : Nat → Word w → Bool
  | 0, addr =>
      match as.readByte addr with
      | .ok _ => true
      | .error _ => false
  | bytes + 1, addr =>
      match as.readByte addr with
      | .ok byte => decide (byte &&& 0x80 ≠ 0) && goesOn as bytes (addr + 1)
      | .error _ => false

/-- A LEB128 number has no bytes beyond the width of a word. -/
def LebFits (as : AddrSpace w) (addr : Word w) : Prop := goesOn as ((w + 6) / 7) addr = false

theorem readu8_defined (as : AddrSpace w) (addr : Word w) : Defined (readu8 as addr) := by
  cases stored : as.readByte addr with
  | ok byte =>
      rw [readu8_byte stored]
      exact .ok _
  | error code =>
      rw [readu8_fails stored]
      exact .err _

theorem readu16_defined (as : AddrSpace w) (addr : Word w) : Defined (readu16 as addr) :=
  (readu8_defined as addr).bind fun _ _ => (readu8_defined as _).bind fun _ _ => .ok _

theorem readu32_defined (as : AddrSpace w) (addr : Word w) : Defined (readu32 as addr) :=
  (readu16_defined as addr).bind fun _ _ => (readu16_defined as _).bind fun _ _ => .ok _

theorem readu64_defined (as : AddrSpace w) (addr : Word w) : Defined (readu64 as addr) :=
  (readu32_defined as addr).bind fun _ _ => (readu32_defined as _).bind fun _ _ => .ok _

theorem readLeb128_defined_iff {as : AddrSpace w} {rounds bytes : Nat} {addr val : Word w}
    {shift : Nat} (enough : bytes < rounds) (width : w ≤ shift + 7 * bytes)
    (tight : shift + 7 * bytes < w + 7) :
    Defined (readLeb128 as rounds addr val shift) ↔ goesOn as bytes addr = false := by
  induction rounds generalizing bytes addr val shift with
  | zero => omega
  | succ rounds ih =>
      rw [readLeb128]
      cases stored : as.readByte addr with
      | error code =>
          rw [readu8_fails stored]
          apply iff_of_true (.err code)
          cases bytes with
          | zero => simp [goesOn, stored]
          | succ bytes => simp [goesOn, stored]
      | ok byte =>
          rw [readu8_byte stored, ok_bind]
          cases bytes with
          | zero =>
              simp only [if_pos (show w ≤ shift by omega)]
              exact iff_of_false (fun isDefined => isDefined rfl) (by simp [goesOn, stored])
          | succ bytes =>
              simp only [if_neg (show ¬ w ≤ shift by omega)]
              have none' : goesOn as (bytes + 1) addr = false ↔
                  (byte &&& 0x80 ≠ 0 → goesOn as bytes (addr + 1) = false) := by
                simp [goesOn, stored]
              rw [none']
              by_cases more : byte &&& 0x80 ≠ 0
              · rw [if_pos more]
                exact (ih (by omega) (by omega) (by omega)).trans ⟨fun h _ => h, fun h => h more⟩
              · rw [if_neg more]
                exact iff_of_true (.ok _) fun h => absurd h more

theorem readUleb128_defined_iff {as : AddrSpace w} {addr : Word w} :
    Defined (readUleb128 as addr) ↔ LebFits as addr := by
  have leb : Defined (readLeb128 as (w + 1) addr 0 0) ↔ LebFits as addr :=
    readLeb128_defined_iff (by omega) (by omega) (by omega)
  rw [← leb, readUleb128]
  cases readLeb128 as (w + 1) addr 0 0 with
  | ok read => exact iff_of_true (.ok _) (.ok _)
  | error e => exact ⟨fun h same => h (by rw [same]; rfl), fun h same => h (by cases same; rfl)⟩

theorem readSleb128_defined_iff {as : AddrSpace w} {addr : Word w} :
    Defined (readSleb128 as addr) ↔ LebFits as addr := by
  have leb : Defined (readLeb128 as (w + 1) addr 0 0) ↔ LebFits as addr :=
    readLeb128_defined_iff (by omega) (by omega) (by omega)
  rw [← leb, readSleb128]
  cases readLeb128 as (w + 1) addr 0 0 with
  | ok read => exact iff_of_true (.ite (fun _ => .ok _) fun _ => .ok _) (.ok _)
  | error e => exact ⟨fun h same => h (by rw [same]; rfl), fun h same => h (by cases same; rfl)⟩

/-- Machine addresses have four or eight bytes. -/
def WordSize (w : Nat) : Prop := w = 32 ∨ w = 64

theorem WordSize.eight : WordSize 64 := .inr rfl

theorem WordSize.least (size : WordSize w) : 32 ≤ w := by
  cases size with
  | inl narrow => omega
  | inr wide => omega

theorem WordSize.most (size : WordSize w) : w ≤ 64 := by
  cases size with
  | inl narrow => omega
  | inr wide => omega

theorem WordSize.readw_defined (size : WordSize w) (as : AddrSpace w) (addr : Word w) :
    Defined (readw as addr) := by
  cases size with
  | inl narrow =>
      subst narrow
      exact (readu32_defined as addr).bind fun _ _ => .ok _
  | inr wide =>
      subst wide
      exact (readu64_defined as addr).bind fun _ _ => .ok _

end Libunwind.Dwarf
