import Libunwind.Basic
import Libunwind.Library.BitField
import Libunwind.Library.Run

/-! # Address validation

`unw_address_is_valid` probes a byte of each page of a range, and remembers the last pages that
could be read.
-/

namespace Libunwind.AddressValidator

variable {w : Nat}

/-- An address space, in pages, some of which can be read. -/
structure Space (w : Nat) where
  pageBits : Nat
  small : pageBits < w
  readable : Nat → Bool

namespace Space

variable (m : Space w)

def unwPageSize : Word w := BitVec.twoPow w m.pageBits

def unwPageStart (addr : Word w) : Word w := addr &&& ~~~(m.unwPageSize - 1)

/-- The page of an address. -/
def page (addr : Nat) : Nat := addr / 2 ^ m.pageBits

/-- `_write_validate`, whose `write` succeeds where the byte can be read. -/
def writeValidate (addr : Word w) : Bool := m.readable (m.page addr.toNat)

end Space

/-- The cache of pages that were validated; 0 is an empty slot. -/
structure Cache (w : Nat) where
  lastGoodAddr : Fin 4 → Word w
  lgaVictim : Fin 4

namespace Cache

def empty : Cache w := ⟨fun _ => 0, 0⟩

/-- `_is_cached_valid_mem`. -/
def isCachedValidMem (c : Cache w) (pageAddr : Word w) : Bool :=
  decide (∃ i, pageAddr = c.lastGoodAddr i)

/-- The loop of `_cache_valid_mem`, and what it does when all slots are full. -/
def insert (c : Cache w) (pageAddr : Word w) : Nat → Fin 4 → Cache w
  | 0, victim =>
      { lastGoodAddr := Function.update c.lastGoodAddr victim pageAddr, lgaVictim := victim + 1 }
  | slots + 1, victim =>
      if c.lastGoodAddr victim = 0 then
        { c with lastGoodAddr := Function.update c.lastGoodAddr victim pageAddr }
      else c.insert pageAddr slots (victim + 1)

/-- `_cache_valid_mem`. -/
def cacheValidMem (c : Cache w) (pageAddr : Word w) : Cache w := c.insert pageAddr 4 c.lgaVictim

end Cache

section Code

variable (m : Space w)

/-- The loop of `unw_address_is_valid` over the pages from `startPageAddr` to `endPageAddr`. -/
def validatePages (addr startPageAddr endPageAddr : Word w) :
    Nat → Word w → Cache w → Result (Bool × Cache w)
  | 0, _, _ => .error .timeout
  | fuel + 1, pageAddr, c =>
      if pageAddr < endPageAddr then
        if c.isCachedValidMem pageAddr then
          validatePages addr startPageAddr endPageAddr fuel (pageAddr + m.unwPageSize) c
        -- the first byte of a page, but for the first page that of the range
        else if m.writeValidate (if pageAddr = startPageAddr then addr else pageAddr) then
          validatePages addr startPageAddr endPageAddr fuel (pageAddr + m.unwPageSize)
            (c.cacheValidMem pageAddr)
        else .ok (false, c)
      else .ok (true, c)

def startPage (addr : Word w) : Word w := m.unwPageStart addr

def endPage (addr len : Word w) : Word w := m.unwPageStart (addr + (len - 1)) + m.unwPageSize

/-- `unw_address_is_valid`. -/
def addressIsValid (fuel : Nat) (c : Cache w) (addr len : Word w) : Result (Bool × Cache w) :=
  if len = 0 then .ok (true, c)
  else if startPage m addr = 0 then .ok (false, c)
  else if BitVec.allOnes w - len - m.unwPageSize < addr then .ok (false, c)
  else validatePages m addr (startPage m addr) (endPage m addr len) fuel (startPage m addr) c

end Code

/-! ## The cache -/

/-- Every page in the cache can be read. -/
def Cache.Good (m : Space w) (c : Cache w) : Prop :=
  ∀ i, c.lastGoodAddr i ≠ 0 → m.readable (m.page (c.lastGoodAddr i).toNat) = true

section Cache

variable {m : Space w} {c : Cache w} {pageAddr : Word w}

theorem good_empty (m : Space w) : (Cache.empty : Cache w).Good m :=
  fun _ real => absurd rfl real

theorem Cache.Good.insert (good : c.Good m) (readable : m.readable (m.page pageAddr.toNat) = true)
    (slots : Nat) (victim : Fin 4) : (c.insert pageAddr slots victim).Good m := by
  have written : ∀ victim i, Function.update c.lastGoodAddr victim pageAddr i ≠ 0 →
      m.readable (m.page (Function.update c.lastGoodAddr victim pageAddr i).toNat) = true := by
    intro victim i real
    by_cases here : i = victim
    · subst here
      rw [Function.update_self]
      exact readable
    · rw [Function.update_of_ne here] at real ⊢
      exact good i real
  induction slots generalizing victim with
  | zero => exact written victim
  | succ slots ih =>
      rw [Cache.insert]
      split
      · exact written victim
      · exact ih (victim + 1)

theorem Cache.Good.readable (good : c.Good m) (real : pageAddr ≠ 0)
    (cached : c.isCachedValidMem pageAddr = true) :
    m.readable (m.page pageAddr.toNat) = true := by
  obtain ⟨i, rfl⟩ := of_decide_eq_true cached
  exact good i real

end Cache

/-! ## The pages of a range -/

section Pages

variable {m : Space w}

theorem toNat_unwPageSize (m : Space w) : m.unwPageSize.toNat = 2 ^ m.pageBits := by
  have below : 2 ^ m.pageBits < 2 ^ w := Nat.pow_lt_pow_right (by omega) m.small
  rw [Space.unwPageSize, BitVec.toNat_twoPow, Nat.mod_eq_of_lt below]

theorem toNat_unwPageStart (m : Space w) (addr : Word w) :
    (m.unwPageStart addr).toNat = m.page addr.toNat * 2 ^ m.pageBits := by
  rw [Nat.mul_comm]
  exact toNat_and_not_mask addr m.small

theorem page_mul (m : Space w) (q : Nat) : m.page (q * 2 ^ m.pageBits) = q :=
  Nat.mul_div_cancel q (Nat.two_pow_pos m.pageBits)

/-- The byte that is probed is in the page. -/
theorem writeValidate_page {addr pageAddr : Word w} {q : Nat}
    (place : pageAddr.toNat = q * 2 ^ m.pageBits) :
    m.writeValidate (if pageAddr = startPage m addr then addr else pageAddr) = m.readable q := by
  split
  next first =>
    rw [first, startPage, toNat_unwPageStart] at place
    have same := Nat.eq_of_mul_eq_mul_right (Nat.two_pow_pos m.pageBits) place
    rw [Space.writeValidate, same]
  next => rw [Space.writeValidate, place, page_mul]

/-- Over pages that do not wrap, the answer is whether all of them can be read. -/
theorem validatePages_eq {addr endPageAddr pageAddr : Word w} {n q fuel : Nat} {c : Cache w}
    (good : c.Good m) (place : pageAddr.toNat = q * 2 ^ m.pageBits)
    (last : endPageAddr.toNat = (q + n) * 2 ^ m.pageBits) (real : 0 < q) (enough : n < fuel) :
    ∃ answer c', validatePages m addr (startPage m addr) endPageAddr fuel pageAddr c =
        .ok (answer, c') ∧ c'.Good m ∧ (answer = true ↔ ∀ i, i < n → m.readable (q + i) = true) := by
  have positive := Nat.two_pow_pos m.pageBits
  induction n generalizing q fuel pageAddr c with
  | zero =>
      obtain ⟨fuel, rfl⟩ : ∃ k, fuel = k + 1 := ⟨fuel - 1, by omega⟩
      have done : ¬pageAddr < endPageAddr := by
        rw [BitVec.lt_def, place, last]
        exact Nat.lt_irrefl _
      rw [validatePages, if_neg done]
      exact ⟨true, c, rfl, good, by simp⟩
  | succ n ih =>
      obtain ⟨fuel, rfl⟩ : ∃ k, fuel = k + 1 := ⟨fuel - 1, by omega⟩
      have following : (q + 1 + n) * 2 ^ m.pageBits = q * 2 ^ m.pageBits + 2 ^ m.pageBits +
          n * 2 ^ m.pageBits := by
        rw [Nat.add_mul, Nat.succ_mul]
      rw [show q + (n + 1) = q + 1 + n by omega] at last
      have bound := endPageAddr.isLt
      have inside : pageAddr < endPageAddr := by
        rw [BitVec.lt_def, place, last, following]
        omega
      have next : (pageAddr + m.unwPageSize).toNat = (q + 1) * 2 ^ m.pageBits := by
        rw [BitVec.toNat_add, place, toNat_unwPageSize, Nat.succ_mul]
        apply Nat.mod_eq_of_lt
        omega
      have nonzero : pageAddr ≠ 0 := by
        intro zero
        have value : q * 2 ^ m.pageBits = 0 := by
          rw [← place, zero]
          exact BitVec.toNat_zero
        have := Nat.mul_pos real positive
        omega
      have later (c : Cache w) (good : c.Good m) (here : m.readable q = true) :
          ∃ answer c', validatePages m addr (startPage m addr) endPageAddr fuel
              (pageAddr + m.unwPageSize) c = .ok (answer, c') ∧ c'.Good m ∧
            (answer = true ↔ ∀ i, i < n + 1 → m.readable (q + i) = true) := by
        have shorter : n < fuel := by omega
        obtain ⟨answer, c', ran, good', exact_⟩ := ih good next last (Nat.succ_pos q) shorter
        refine ⟨answer, c', ran, good', exact_.trans ?_⟩
        constructor
        · intro all i below
          cases i with
          | zero => exact here
          | succ i =>
              have readable := all i (by omega)
              rwa [show q + 1 + i = q + (i + 1) by omega] at readable
        · intro all i below
          have readable := all (i + 1) (by omega)
          rwa [show q + (i + 1) = q + 1 + i by omega] at readable
      rw [validatePages, if_pos inside, writeValidate_page place]
      split
      next cached =>
        have here := good.readable nonzero cached
        rw [place, page_mul] at here
        exact later c good here
      next =>
        split
        next here =>
          apply later _ _ here
          apply good.insert
          rw [place, page_mul]
          exact here
        next unreadable =>
          refine ⟨false, c, rfl, good, ?_⟩
          constructor
          · intro impossible
            cases impossible
          · intro all
            exact absurd (all 0 (by omega)) unreadable

theorem page_lt_iff (m : Space w) (addr q : Nat) :
    m.page addr < q ↔ addr < q * 2 ^ m.pageBits :=
  Nat.div_lt_iff_lt_mul (Nat.two_pow_pos m.pageBits)

theorem page_mono (m : Space w) {a b : Nat} (le : a ≤ b) : m.page a ≤ m.page b :=
  Nat.div_le_div_right le

/-- A page ends within the address space. -/
theorem page_end_le (m : Space w) (addr : Word w) :
    (m.page addr.toNat + 1) * 2 ^ m.pageBits ≤ 2 ^ w := by
  have whole : 2 ^ (w - m.pageBits) * 2 ^ m.pageBits = 2 ^ w := by
    rw [← Nat.pow_add, Nat.sub_add_cancel (Nat.le_of_lt m.small)]
  have below : m.page addr.toNat < 2 ^ (w - m.pageBits) := by
    rw [page_lt_iff, whole]
    exact addr.isLt
  rw [← whole]
  exact Nat.mul_le_mul_right _ below

theorem toNat_endPage (m : Space w) (addr len : Word w) :
    (endPage m addr len).toNat =
      (m.page (addr + (len - 1)).toNat + 1) * 2 ^ m.pageBits % 2 ^ w := by
  rw [endPage, BitVec.toNat_add, toNat_unwPageStart, toNat_unwPageSize, Nat.succ_mul]

theorem startPage_eq_zero_iff (m : Space w) (addr : Word w) :
    startPage m addr = 0 ↔ addr.toNat < 2 ^ m.pageBits := by
  have positive := Nat.two_pow_pos m.pageBits
  constructor
  · intro zero
    have value := toNat_unwPageStart m addr
    rw [← startPage, zero] at value
    have first : m.page addr.toNat * 2 ^ m.pageBits = 0 := value.symm.trans BitVec.toNat_zero
    have none : m.page addr.toNat < 1 := by
      cases Nat.mul_eq_zero.mp first with
      | inl none => omega
      | inr impossible => omega
    rw [page_lt_iff, Nat.one_mul] at none
    exact none
  · intro low
    have first : m.page addr.toNat < 1 := (page_lt_iff m _ 1).mpr (by rwa [Nat.one_mul])
    apply BitVec.eq_of_toNat_eq
    rw [startPage, toNat_unwPageStart, Nat.lt_one_iff.mp first, Nat.zero_mul]
    exact BitVec.toNat_zero.symm

/-- The bytes of a range can be read where its pages can. -/
theorem pages_readable_iff (m : Space w) {first last : Nat} (order : first ≤ last) :
    (∀ i, i < m.page last + 1 - m.page first → m.readable (m.page first + i) = true) ↔
      ∀ a, first ≤ a → a ≤ last → m.readable (m.page a) = true := by
  have le := page_mono m order
  constructor
  · intro pages a above below
    have low := page_mono m above
    have high := page_mono m below
    have readable := pages (m.page a - m.page first) (by omega)
    rwa [Nat.add_sub_cancel' low] at readable
  · intro bytes i inside
    cases i with
    | zero => exact bytes first (Nat.le_refl _) order
    | succ i =>
        have above : first < (m.page first + (i + 1)) * 2 ^ m.pageBits :=
          (page_lt_iff m _ _).mp (by omega)
        have below : (m.page first + (i + 1)) * 2 ^ m.pageBits ≤ last := by
          refine Nat.le_trans (Nat.mul_le_mul_right _ ?_) (Nat.div_mul_le_self last _)
          change _ ≤ m.page last
          omega
        have readable := bytes _ (Nat.le_of_lt above) below
        rwa [page_mul] at readable

end Pages

/-! ## What is accepted -/

section Accepted

variable (m : Space w) (addr len : Word w)

/-- A range that is neither in the first page nor in the last one, and that can be read. -/
structure Valid : Prop where
  bottom : 2 ^ m.pageBits ≤ addr.toNat
  top : addr.toNat + len.toNat + 2 ^ m.pageBits ≤ 2 ^ w
  readable : ∀ a, addr.toNat ≤ a → a < addr.toNat + len.toNat → m.readable (m.page a) = true

/-- The range is longer than what is left of the address space without one page, and the check
    for its end wraps: the pages that are probed are those up to the wrapped end. -/
structure Wraps : Prop where
  bottom : 2 ^ m.pageBits ≤ addr.toNat
  long : 2 ^ w ≤ len.toNat + 2 ^ m.pageBits
  passed : addr.toNat + len.toNat + 2 ^ m.pageBits < 2 * 2 ^ w
  probed : endPage m addr len ≤ startPage m addr ∨ m.readable (m.page addr.toNat) = true

/-- Inputs on which `unw_address_is_valid` goes wrong: a readable range that ends right below the
    last page, and one for which the check wraps. -/
def Misjudged : Prop :=
  (Valid m addr len ∧ addr.toNat + len.toNat + 2 ^ m.pageBits = 2 ^ w) ∨ Wraps m addr len

/-- What is accepted. -/
def Accepted : Prop :=
  (Valid m addr len ∧ addr.toNat + len.toNat + 2 ^ m.pageBits ≠ 2 ^ w) ∨ Wraps m addr len

variable {m addr len}

theorem not_valid_of_wraps (wraps : Wraps m addr len) : ¬Valid m addr len := by
  intro valid
  have bottom := wraps.bottom
  have long := wraps.long
  have top := valid.top
  have positive := Nat.two_pow_pos m.pageBits
  omega

theorem accepted_iff_valid_iff :
    (Accepted m addr len ↔ Valid m addr len) ↔ ¬Misjudged m addr len := by
  constructor
  · intro same misjudged
    cases misjudged with
    | inl edge =>
        cases same.mpr edge.1 with
        | inl inside => exact inside.2 edge.2
        | inr wraps => exact not_valid_of_wraps wraps edge.1
    | inr wraps => exact not_valid_of_wraps wraps (same.mp (.inr wraps))
  · intro judged
    constructor
    · intro accepted
      cases accepted with
      | inl inside => exact inside.1
      | inr wraps => exact absurd (.inr wraps) judged
    · intro valid
      exact .inl ⟨valid, fun edge => judged (.inl ⟨valid, edge⟩)⟩

end Accepted

/-! ## Queries -/

section Query

variable {m : Space w} {addr len : Word w} {c : Cache w} {fuel : Nat}

/-- The check for the top, where it does not wrap and where it does. -/
theorem check_iff (m : Space w) (addr len : Word w) :
    BitVec.allOnes w - len - m.unwPageSize < addr ↔
      2 ^ w ≤ addr.toNat + len.toNat + 2 ^ m.pageBits ∧
        (2 ^ w ≤ len.toNat + 2 ^ m.pageBits →
          2 * 2 ^ w ≤ addr.toNat + len.toNat + 2 ^ m.pageBits) := by
  have below := len.isLt
  have size := Nat.two_pow_pos m.pageBits
  have small : 2 ^ m.pageBits < 2 ^ w := Nat.pow_lt_pow_right (by omega) m.small
  have all : (BitVec.allOnes w).toNat = 2 ^ w - 1 := BitVec.toNat_allOnes
  have first : (BitVec.allOnes w - len).toNat = 2 ^ w - 1 - len.toNat := by
    rw [BitVec.toNat_sub_of_le (BitVec.le_def.mpr (by omega)), all]
  rw [BitVec.lt_def, BitVec.toNat_sub, first, toNat_unwPageSize]
  by_cases long : 2 ^ w ≤ len.toNat + 2 ^ m.pageBits
  · rw [Nat.mod_eq_of_lt (by omega)]
    omega
  · obtain ⟨limit, total⟩ : ∃ limit, limit + len.toNat + 2 ^ m.pageBits + 1 = 2 ^ w :=
      ⟨2 ^ w - 1 - len.toNat - 2 ^ m.pageBits, by omega⟩
    have value : 2 ^ w - 2 ^ m.pageBits + (2 ^ w - 1 - len.toNat) = limit + 2 ^ w := by omega
    have fits : limit < 2 ^ w := by omega
    rw [value, Nat.add_mod_right, Nat.mod_eq_of_lt fits]
    omega

/-- A range that does not wrap. -/
theorem validate_inside (good : c.Good m) (positive : len ≠ 0) (enough : 2 ^ w ≤ fuel)
    (bottom : 2 ^ m.pageBits ≤ addr.toNat)
    (top : addr.toNat + len.toNat + 2 ^ m.pageBits < 2 ^ w) :
    ∃ answer c', validatePages m addr (startPage m addr) (endPage m addr len) fuel
        (startPage m addr) c = .ok (answer, c') ∧ c'.Good m ∧
      (answer = true ↔ ∀ a, addr.toNat ≤ a → a < addr.toNat + len.toNat →
        m.readable (m.page a) = true) := by
  have size := Nat.two_pow_pos m.pageBits
  have below := len.isLt
  have some_ : 0 < len.toNat := by
    apply Nat.pos_of_ne_zero
    intro none
    exact positive (BitVec.eq_of_toNat_eq (none.trans BitVec.toNat_zero.symm))
  have two : 1 < 2 ^ w := by omega
  have one : (1 : Word w).toNat = 1 := Nat.mod_eq_of_lt two
  have less : (len - 1).toNat = len.toNat - 1 := by
    rw [BitVec.toNat_sub_of_le (BitVec.le_def.mpr (by omega)), one]
  have last : (addr + (len - 1)).toNat = addr.toNat + len.toNat - 1 := by
    rw [BitVec.toNat_add, less, Nat.mod_eq_of_lt (by omega)]
    omega
  have order : addr.toNat ≤ addr.toNat + len.toNat - 1 := by omega
  have le := page_mono m order
  have inside : (m.page (addr.toNat + len.toNat - 1) + 1) * 2 ^ m.pageBits < 2 ^ w := by
    have floor : m.page (addr.toNat + len.toNat - 1) * 2 ^ m.pageBits ≤
        addr.toNat + len.toNat - 1 := Nat.div_mul_le_self _ _
    rw [Nat.succ_mul]
    omega
  have ending : (endPage m addr len).toNat =
      (m.page addr.toNat + (m.page (addr.toNat + len.toNat - 1) + 1 - m.page addr.toNat)) *
        2 ^ m.pageBits := by
    rw [toNat_endPage, last, Nat.mod_eq_of_lt inside, Nat.add_sub_cancel' (by omega)]
  have first : 0 < m.page addr.toNat := by
    apply Nat.pos_of_ne_zero
    intro none
    have low : m.page addr.toNat < 1 := by omega
    rw [page_lt_iff, Nat.one_mul] at low
    omega
  have short : m.page (addr.toNat + len.toNat - 1) + 1 - m.page addr.toNat < fuel := by
    have bound := Nat.le_mul_of_pos_right (m.page (addr.toNat + len.toNat - 1) + 1) size
    omega
  obtain ⟨answer, c', ran, good', exact_⟩ :=
    validatePages_eq good (toNat_unwPageStart m addr) ending first short
  refine ⟨answer, c', ran, good', exact_.trans ((pages_readable_iff m order).trans ?_)⟩
  constructor
  · exact fun bytes a above below => bytes a above (by omega)
  · exact fun bytes a above below => bytes a above (by omega)

/-- Where the check wraps, no page is probed, or the first one. -/
theorem validate_wrapped (good : c.Good m) (positive : 0 < fuel - 1)
    (bottom : 2 ^ m.pageBits ≤ addr.toNat) (long : 2 ^ w ≤ len.toNat + 2 ^ m.pageBits) :
    ∃ answer c', validatePages m addr (startPage m addr) (endPage m addr len) fuel
        (startPage m addr) c = .ok (answer, c') ∧ c'.Good m ∧
      (answer = true ↔
        endPage m addr len ≤ startPage m addr ∨ m.readable (m.page addr.toNat) = true) := by
  by_cases none : endPage m addr len ≤ startPage m addr
  · obtain ⟨fuel, rfl⟩ : ∃ n, fuel = n + 1 := ⟨fuel - 1, by omega⟩
    rw [validatePages, if_neg (BitVec.not_lt.mpr none)]
    exact ⟨true, c, rfl, good, by simp [none]⟩
  · have later := BitVec.lt_def.mp (BitVec.not_le.mp none)
    have below := len.isLt
    have addrBelow := addr.isLt
    have size := Nat.two_pow_pos m.pageBits
    have start := toNat_unwPageStart m addr
    rw [← startPage] at start
    have two : 1 < 2 ^ w := by omega
    have one : (1 : Word w).toNat = 1 := Nat.mod_eq_of_lt two
    have less : (len - 1).toNat = len.toNat - 1 := by
      rw [BitVec.toNat_sub_of_le (BitVec.le_def.mpr (by omega)), one]
    have ending := toNat_endPage m addr len
    have endLe := page_end_le m (addr + (len - 1))
    -- the end is not 0
    have inside : (m.page (addr + (len - 1)).toNat + 1) * 2 ^ m.pageBits < 2 ^ w := by
      apply Nat.lt_of_le_of_ne endLe
      intro whole
      rw [whole, Nat.mod_self] at ending
      omega
    rw [Nat.mod_eq_of_lt inside] at ending
    -- nor is it behind the first page
    have last : (addr + (len - 1)).toNat ≤ addr.toNat ∨
        (addr + (len - 1)).toNat = 2 ^ w - 1 := by
      rw [BitVec.toNat_add, less]
      by_cases whole : addr.toNat + (len.toNat - 1) < 2 ^ w
      · rw [Nat.mod_eq_of_lt whole]
        omega
      · rw [Nat.mod_eq_sub_mod (by omega), Nat.mod_eq_of_lt (by omega)]
        omega
    have past : (addr + (len - 1)).toNat <
        (m.page (addr + (len - 1)).toNat + 1) * 2 ^ m.pageBits :=
      (page_lt_iff m _ _).mp (Nat.lt_succ_self _)
    have same : m.page (addr + (len - 1)).toNat = m.page addr.toNat := by
      cases last with
      | inl before =>
          have le := page_mono m before
          rw [ending, start] at later
          have lt := Nat.lt_of_mul_lt_mul_right later
          omega
      | inr top => omega
    rw [same] at ending
    have first : 0 < m.page addr.toNat := by
      apply Nat.pos_of_ne_zero
      intro none
      have low : m.page addr.toNat < 1 := by omega
      rw [page_lt_iff, Nat.one_mul] at low
      omega
    have enough : 1 < fuel := by omega
    obtain ⟨answer, c', ran, good', exact_⟩ := validatePages_eq good start ending first enough
    refine ⟨answer, c', ran, good', exact_.trans ?_⟩
    constructor
    · exact fun pages => .inr (pages 0 Nat.zero_lt_one)
    · intro either i one
      rw [Nat.lt_one_iff.mp one]
      exact either.resolve_left none

variable (addr) in
/-- The answer to a query, whatever is in the cache. -/
theorem addressIsValid_eq (good : c.Good m) (positive : len ≠ 0) (enough : 2 ^ w ≤ fuel) :
    ∃ answer c', addressIsValid m fuel c addr len = .ok (answer, c') ∧ c'.Good m ∧
      (answer = true ↔ Accepted m addr len) := by
  have refused (no : ¬Accepted m addr len) : ∃ answer c',
      (.ok (false, c) : Result (Bool × Cache w)) = .ok (answer, c') ∧ c'.Good m ∧
        (answer = true ↔ Accepted m addr len) :=
    ⟨false, c, rfl, good, by simp [no]⟩
  rw [addressIsValid, if_neg positive]
  by_cases low : addr.toNat < 2 ^ m.pageBits
  · rw [if_pos ((startPage_eq_zero_iff m addr).mpr low)]
    apply refused
    intro accepted
    cases accepted with
    | inl inside => exact Nat.not_le.mpr low inside.1.bottom
    | inr wraps => exact Nat.not_le.mpr low wraps.bottom
  · have bottom := Nat.le_of_not_lt low
    rw [if_neg fun zero => low ((startPage_eq_zero_iff m addr).mp zero)]
    by_cases check : BitVec.allOnes w - len - m.unwPageSize < addr
    · rw [if_pos check]
      apply refused
      intro accepted
      have beyond := (check_iff m addr len).mp check
      cases accepted with
      | inl inside =>
          have top := inside.1.top
          have edge := inside.2
          omega
      | inr wraps =>
          have long := wraps.long
          have passed := wraps.passed
          omega
    · rw [if_neg check]
      have passed := mt (check_iff m addr len).mpr check
      by_cases long : 2 ^ w ≤ len.toNat + 2 ^ m.pageBits
      · have size := Nat.two_pow_pos m.pageBits
        have small : 2 ^ m.pageBits < 2 ^ w := Nat.pow_lt_pow_right (by omega) m.small
        have rounds : 0 < fuel - 1 := by omega
        obtain ⟨answer, c', ran, good', exact_⟩ := validate_wrapped good rounds bottom long
        refine ⟨answer, c', ran, good', exact_.trans ?_⟩
        constructor
        · exact fun probed => .inr ⟨bottom, long, by omega, probed⟩
        · intro accepted
          cases accepted with
          | inl inside =>
              have top := inside.1.top
              omega
          | inr wraps => exact wraps.probed
      · have top : addr.toNat + len.toNat + 2 ^ m.pageBits < 2 ^ w := by omega
        obtain ⟨answer, c', ran, good', exact_⟩ :=
          validate_inside good positive enough bottom top
        refine ⟨answer, c', ran, good', exact_.trans ?_⟩
        constructor
        · exact fun readable => .inl ⟨⟨bottom, Nat.le_of_lt top, readable⟩, Nat.ne_of_lt top⟩
        · intro accepted
          cases accepted with
          | inl inside => exact inside.1.readable
          | inr wraps => exact absurd wraps.long long

/-- A cache that was left by so many queries. -/
def Queried (m : Space w) : Cache w → Prop :=
  Run (fun c => c = .empty)
    (fun c (query : Word w × Word w) c' => ∃ answer,
      addressIsValid m (2 ^ w) c query.1 query.2 = .ok (answer, c'))
    fun _ _ => True

theorem good_of_queried (queried : Queried m c) : c.Good m := by
  apply queried.invariant
  · intro c start
    rw [start]
    exact good_empty m
  · intro c query c' good _ answered
    obtain ⟨answer, answered⟩ := answered
    by_cases none : query.2 = 0
    · rw [addressIsValid, if_pos none] at answered
      cases answered
      exact good
    · obtain ⟨answer', c'', ran, good', -⟩ :=
        addressIsValid_eq query.1 good none (Nat.le_refl (2 ^ w))
      rw [ran] at answered
      cases answered
      exact good'

end Query

/-! ## Pages of 4096 bytes, none of which can be read -/

namespace Unreadable

theorem page_small : 12 < 64 := by decide

def space : Space 64 where
  pageBits := 12
  small := page_small
  readable _ := false

end Unreadable

end Libunwind.AddressValidator
