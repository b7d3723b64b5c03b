import Mathlib

/-! # Numbers in bytes

A word is stored as its bytes, lowest first or highest first. Either way its bytes can be told
from it by shifts, and two halves of it that are stored next to each other make the whole.
-/

namespace Bytes

/-- The number that some bytes make, lowest first. -/
def number (bytes : List (BitVec 8)) : Nat := Nat.ofDigits 256 (bytes.map BitVec.toNat)

/-- The word of `n` bits that some bytes make in an order. -/
def word (n : Nat) (bigEndian : Bool) (bytes : List (BitVec 8)) : BitVec n :=
  BitVec.ofNat n (number (if bigEndian then bytes.reverse else bytes))

variable {n half : Nat} {bytes front back : List (BitVec 8)}

theorem number_cons (byte : BitVec 8) (bytes : List (BitVec 8)) :
    number (byte :: bytes) = byte.toNat + 256 * number bytes := by
  simp [number, Nat.ofDigits_cons]

theorem number_append :
    number (front ++ back) = number front + 2 ^ (8 * front.length) * number back := by
  simp [number, Nat.ofDigits_append, Nat.pow_mul]

theorem number_lt : number bytes < 2 ^ (8 * bytes.length) := by
  have small : ∀ digit ∈ bytes.map BitVec.toNat, digit < 256 := by
    intro digit mem
    obtain ⟨byte, -, rfl⟩ := List.mem_map.mp mem
    exact byte.isLt
  have bound := Nat.ofDigits_lt_base_pow_length (by decide) small
  rw [List.length_map] at bound
  rw [Nat.pow_mul]
  exact bound

/-! ## Halves -/

/-- Two numbers side by side. -/
theorem append_eq_ofNat (high : Nat) {low : Nat} (small : low < 2 ^ half) :
    BitVec.ofNat half high ++ BitVec.ofNat half low =
      BitVec.ofNat (half + half) (low + 2 ^ half * high) := by
  apply BitVec.eq_of_toNat_eq
  have positive := Nat.two_pow_pos half
  have below : (low + 2 ^ half * high) % 2 ^ half = low := by
    rw [Nat.add_mul_mod_self_left, Nat.mod_eq_of_lt small]
  have above : (low + 2 ^ half * high) / 2 ^ half = high := by
    rw [Nat.add_mul_div_left _ _ positive, Nat.div_eq_of_lt small, Nat.zero_add]
  rw [BitVec.toNat_append, BitVec.toNat_ofNat, BitVec.toNat_ofNat, BitVec.toNat_ofNat,
    Nat.mod_eq_of_lt small, ← Nat.shiftLeft_add_eq_or_of_lt small, Nat.shiftLeft_eq, Nat.pow_add,
    Nat.mod_mul, below, above, Nat.mul_comm, Nat.add_comm]

theorem append_numbers (low : 8 * front.length = half) :
    BitVec.ofNat half (number back) ++ BitVec.ofNat half (number front) =
      BitVec.ofNat (half + half) (number (front ++ back)) := by
  subst low
  rw [append_eq_ofNat _ number_lt, number_append]

/-- What is stored first comes first in the order. -/
theorem word_append (bigEndian : Bool) (first : 8 * front.length = half)
    (second : 8 * back.length = half) :
    (if bigEndian then word half bigEndian front ++ word half bigEndian back
      else word half bigEndian back ++ word half bigEndian front) =
      word (half + half) bigEndian (front ++ back) := by
  cases bigEndian with
  | false => exact append_numbers first
  | true =>
      simp only [word, if_true, List.reverse_append]
      exact append_numbers (by rwa [List.length_reverse])

/-! ## Bytes of a word -/

theorem number_shift {i : Nat} (inside : i < bytes.length) :
    number bytes / 2 ^ (8 * i) % 256 = bytes[i].toNat := by
  have split : number bytes = number (bytes.take i) + 2 ^ (8 * i) * number (bytes.drop i) := by
    have whole : number (bytes.take i ++ bytes.drop i) = _ := number_append
    rwa [List.take_append_drop, List.length_take, Nat.min_eq_left inside.le] at whole
  have low : number (bytes.take i) < 2 ^ (8 * i) := by
    have bound : number (bytes.take i) < _ := number_lt
    rwa [List.length_take, Nat.min_eq_left inside.le] at bound
  have isByte := bytes[i].isLt
  rw [split, Nat.add_mul_div_left _ _ (Nat.two_pow_pos _), Nat.div_eq_of_lt low, Nat.zero_add,
    List.drop_eq_getElem_cons inside, number_cons]
  omega

/-- The shift that brings the byte at an offset to the bottom. -/
theorem word_shift (bigEndian : Bool) (long : 8 * bytes.length = n) {i : Nat} {byte : BitVec 8}
    (stored : bytes[i]? = some byte) :
    (word n bigEndian bytes >>>
      (8 * if bigEndian then bytes.length - 1 - i else i)).setWidth 8 = byte := by
  subst long
  obtain ⟨inside, rfl⟩ := List.getElem?_eq_some_iff.mp stored
  have bits (bytes' : List (BitVec 8)) (same : bytes'.length = bytes.length) {j : Nat}
      (below : j < bytes'.length) :
      (BitVec.ofNat (8 * bytes.length) (number bytes') >>> (8 * j)).setWidth 8 = bytes'[j] := by
    have bound : number bytes' < _ := number_lt
    rw [same] at bound
    apply BitVec.eq_of_toNat_eq
    rw [BitVec.toNat_setWidth, BitVec.toNat_ushiftRight, BitVec.toNat_ofNat,
      Nat.mod_eq_of_lt bound, Nat.shiftRight_eq_div_pow]
    exact number_shift below
  cases bigEndian with
  | false => exact bits bytes rfl inside
  | true =>
      have below : bytes.length - 1 - i < bytes.reverse.length := by
        rw [List.length_reverse]
        omega
      have place : bytes.length - 1 - (bytes.length - 1 - i) = i := by omega
      have byte := bits bytes.reverse List.length_reverse below
      simpa only [word, if_true, List.getElem_reverse, place] using byte

end Bytes
