import Libunwind.Dwarf.Reader

/-! # Parsing a CIE

`parse_cie` reads the header of a CIE, stores the first characters of its
augmentation string, and reads the augmentation data that they announce. What
follows is taken to be the initial instructions.
-/

namespace Libunwind.Dwarf

variable {w : Nat}

/-- `DWARF_CIE_VERSION` and `DWARF_CIE_VERSION_MAX`; GCC also emits version 1. -/
def acceptedVersion (version : Byte) : Bool :=
  version == 1 || 3 ≤ version && version ≤ 4

/-- The characters up to a NUL. The address space has `2 ^ w` bytes: a string
    that has not ended after as many has no end. -/
def readString (as : AddrSpace w) : Nat → Word w → Result (List Byte × Word w)
  | 0, _ => .error .timeout
  | rounds + 1, addr => do
      let (ch, addr) ← readu8 as addr
      if ch = 0 then pure ([], addr)
      else
        let (rest, addr) ← readString as rounds addr
        pure (ch :: rest, addr)

/-- The length and the id of a CIE; yields the end of the CIE and the address
    of its version. -/
def readCieExtent (as : AddrSpace w) (addr : Word w) (isDebugFrame : Bool) :
    Result (Word w × Word w) := do
  let (u32val, addr) ← readu32 as addr
  if u32val ≠ 0xffffffff then
    let cieEndAddr := addr + u32val.setWidth w
    let (cieId, addr) ← readu32 as addr
    if cieId ≠ (if isDebugFrame then 0xffffffff else 0) then .error (.err .inval)
    else pure (cieEndAddr, addr)
  else
    let (u64val, addr) ← readu64 as addr
    let cieEndAddr := addr + u64val.setWidth w
    let (cieId, addr) ← readu64 as addr
    if cieId ≠ (if isDebugFrame then 0xffffffffffffffff else 0) then .error (.err .inval)
    else pure (cieEndAddr, addr)

/-- A CIE up to its return-address column; `addr` is behind that. -/
structure CieHeader (w : Nat) where
  cieInstrEnd : Word w
  augmentation : List Byte
  codeAlign : Word w
  dataAlign : Word w
  retAddrColumn : Word w
  addr : Word w
  deriving DecidableEq, Repr

def readCieHeader (as : AddrSpace w) (addr : Word w) (isDebugFrame : Bool) :
    Result (CieHeader w) := do
  let (cieInstrEnd, addr) ← readCieExtent as addr isDebugFrame
  let (version, addr) ← readu8 as addr
  if !acceptedVersion version then .error (.err .badversion)
  else
    let (augmentation, addr) ← readString as (2 ^ w) addr
    -- the sizes of addresses and segments
    let addr ← if 3 < version then do
        let (_, addr) ← readu8 as addr
        let (_, addr) ← readu8 as addr
        pure addr
      else pure addr
    let (codeAlign, addr) ← readUleb128 as addr
    let (dataAlign, addr) ← readSleb128 as addr
    if version = 1 then
      let (ch, addr) ← readu8 as addr
      pure { cieInstrEnd, augmentation, codeAlign, dataAlign, retAddrColumn := ch.setWidth w, addr }
    else
      let (retAddrColumn, addr) ← readUleb128 as addr
      pure { cieInstrEnd, augmentation, codeAlign, dataAlign, retAddrColumn, addr }

/-- The augmentation characters that the scan recognises behind the `z`. -/
inductive AugChar where
  | lsdaEncoding
  | fdeEncoding
  | personality
  | signalFrame
  deriving DecidableEq, Repr

def AugChar.ofByte (ch : Byte) : Option AugChar :=
  match ch.toNat with
  | 0x4c => some .lsdaEncoding      -- L
  | 0x52 => some .fdeEncoding       -- R
  | 0x50 => some .personality       -- P
  | 0x53 => some .signalFrame       -- S
  | _ => none

/-- The character `z`. -/
def augZ : Byte := 0x7a

/-- What the scan of the augmentation string updates. -/
structure AugState (w : Nat) where
  addr : Word w
  fdeEncoding : Byte
  dci : CieInfo w
  deriving DecidableEq, Repr

/-- The case of a recognised character, with the data that it announces. -/
def AugChar.read (as : AddrSpace w) (pi : ProcInfo w) (s : AugState w) :
    AugChar → Result (AugState w)
  | .lsdaEncoding => do
      let (ch, addr) ← readu8 as s.addr
      pure { s with addr, dci := { s.dci with lsdaEncoding := ch } }
  | .fdeEncoding => do
      let (ch, addr) ← readu8 as s.addr
      pure { s with addr, fdeEncoding := ch }
  | .personality => do
      let (handlerEncoding, addr) ← readu8 as s.addr
      let (handler, addr) ← readEncodedPointer as addr handlerEncoding pi
      pure { s with addr, dci := { s.dci with handler } }
  | .signalFrame =>
      pure { s with dci := { s.dci with signalFrame := true, haveAbiMarker := true } }

/-- The loop over the stored characters. -/
def scanAugmentation (as : AddrSpace w) (pi : ProcInfo w) :
    List Byte → AugState w → Result (AugState w)
  | [], s => pure s
  | ch :: rest, s =>
      match AugChar.ofByte ch with
      | some known => do
          let s ← known.read as pi s
          scanAugmentation as pi rest s
      | none => if s.dci.sizedAugmentation then pure s else .error (.err .inval)

/-- The encoding of code addresses when no `R` gives another: by the size of an
    address. -/
def defaultFdeEncoding (w : Nat) : Byte :=
  match w / 8 with
  | 4 => ehPeUdata4
  | 8 => ehPeUdata8
  | _ => ehPeOmit

/-- The characters of the augmentation string that fit `augstr`. -/
def augstrSize : Nat := 4

/-- The fields that are set before the augmentation data is read. -/
def CieHeader.info (header : CieHeader w) (dci : CieInfo w) : CieInfo w :=
  { dci with
    lsdaEncoding := ehPeOmit
    handler := 0
    cieInstrEnd := header.cieInstrEnd
    codeAlign := header.codeAlign
    dataAlign := header.dataAlign
    retAddrColumn := header.retAddrColumn }

/-- Reads the augmentation data that the stored characters announce. -/
def readAugmentation (as : AddrSpace w) (pi : ProcInfo w) (addr : Word w) (dci : CieInfo w)
    (augstr : List Byte) : Result (AugState w) :=
  if augstr.head? = some augZ then do
    let (_, addr) ← readUleb128 as addr
    scanAugmentation as pi augstr.tail
      ⟨addr, defaultFdeEncoding w, { dci with sizedAugmentation := true }⟩
  else scanAugmentation as pi augstr ⟨addr, defaultFdeEncoding w, dci⟩

/-- `parse_cie`. -/
def parseCie (as : AddrSpace w) (addr : Word w) (pi : ProcInfo w) (dci : CieInfo w)
    (isDebugFrame : Bool) : Result (CieInfo w) := do
  let header ← readCieHeader as addr isDebugFrame
  let s ← readAugmentation as pi header.addr (header.info dci)
    (header.augmentation.take augstrSize)
  pure { s.dci with fdeEncoding := s.fdeEncoding, cieInstrStart := s.addr }

/-! ## What the augmentation string announces -/

/-- The recognised characters before the first unrecognised one. -/
def recognised : List Byte → List AugChar
  | [] => []
  | ch :: rest =>
      match AugChar.ofByte ch with
      | some known => known :: recognised rest
      | none => []

theorem recognised_take (count : Nat) (chars : List Byte) :
    recognised (chars.take count) = (recognised chars).take count := by
  induction chars generalizing count with
  | nil => simp [recognised]
  | cons ch rest ih =>
      cases count with
      | zero => simp [recognised]
      | succ count =>
          simp only [List.take_succ_cons, recognised]
          cases AugChar.ofByte ch with
          | none => rfl
          | some known => simp only [ih, List.take_succ_cons]

theorem AugChar.read_sized {as : AddrSpace w} {pi s t} {ch : AugChar}
    (done : ch.read as pi s = .ok t) : t.dci.sizedAugmentation = s.dci.sizedAugmentation := by
  cases ch with
  | lsdaEncoding =>
      obtain ⟨_, -, result⟩ := bind_eq_ok.mp done
      rw [← Except.ok.inj result]
  | fdeEncoding =>
      obtain ⟨_, -, result⟩ := bind_eq_ok.mp done
      rw [← Except.ok.inj result]
  | personality =>
      obtain ⟨_, -, rest⟩ := bind_eq_ok.mp done
      obtain ⟨_, -, result⟩ := bind_eq_ok.mp rest
      rw [← Except.ok.inj result]
  | signalFrame => rw [← Except.ok.inj done]

/-- In a sized augmentation the scan reads the recognised characters and stops. -/
theorem scanAugmentation_sized (as : AddrSpace w) (pi : ProcInfo w) (chars : List Byte)
    {s : AugState w} (sized : s.dci.sizedAugmentation = true) :
    scanAugmentation as pi chars s = (recognised chars).foldlM (AugChar.read as pi) s := by
  induction chars generalizing s with
  | nil => rfl
  | cons ch rest ih =>
      rw [scanAugmentation, recognised]
      cases AugChar.ofByte ch with
      | none => simp [sized]
      | some known =>
          simp only [List.foldlM_cons]
          cases read : known.read as pi s with
          | error f => rfl
          | ok t => exact ih ((AugChar.read_sized read).trans sized)

/-- Where the data of a sized augmentation begins to be read. -/
def CieHeader.sizedStart (header : CieHeader w) (dci : CieInfo w) (start : Word w) : AugState w :=
  ⟨start, defaultFdeEncoding w, { header.info dci with sizedAugmentation := true }⟩

/-- The four things that the augmentation data can say are the same. -/
def SameAugmentation (s t : AugState w) : Prop :=
  s.fdeEncoding = t.fdeEncoding ∧ s.dci.lsdaEncoding = t.dci.lsdaEncoding ∧
    s.dci.handler = t.dci.handler ∧ s.dci.signalFrame = t.dci.signalFrame

/-- The initial instructions start right behind the sized augmentation data, and
    the info has what all its recognised characters say. -/
def Delimited (as : AddrSpace w) (pi : ProcInfo w) (dci : CieInfo w) (header : CieHeader w)
    (out : CieInfo w) : Prop :=
  ∃ augSize start s, readUleb128 as header.addr = .ok (augSize, start) ∧
    out.cieInstrStart = start + augSize ∧
    (recognised header.augmentation.tail).foldlM (AugChar.read as pi)
      (header.sizedStart dci start) = .ok s ∧
    out.fdeEncoding = s.fdeEncoding ∧ out.lsdaEncoding = s.dci.lsdaEncoding ∧
    out.handler = s.dci.handler ∧ out.signalFrame = s.dci.signalFrame

/-- Every success of `parse_cie` on a sized augmentation delimits it. -/
def ParseCieDelimits (as : AddrSpace w) (addr : Word w) (pi : ProcInfo w) (dci : CieInfo w)
    (isDebugFrame : Bool) : Prop :=
  ∀ header out, readCieHeader as addr isDebugFrame = .ok header →
    header.augmentation.head? = some augZ → parseCie as addr pi dci isDebugFrame = .ok out →
    Delimited as pi dci header out

/-- The data of the recognised characters that are stored fills the augmentation
    exactly, and those that are not stored say nothing new. -/
def AugmentationFits (as : AddrSpace w) (addr : Word w) (pi : ProcInfo w) (dci : CieInfo w)
    (isDebugFrame : Bool) : Prop :=
  ∀ header augSize start s, readCieHeader as addr isDebugFrame = .ok header →
    header.augmentation.head? = some augZ → readUleb128 as header.addr = .ok (augSize, start) →
    ((recognised header.augmentation.tail).take (augstrSize - 1)).foldlM (AugChar.read as pi)
      (header.sizedStart dci start) = .ok s →
    s.addr = start + augSize ∧
      ∃ t, ((recognised header.augmentation.tail).drop (augstrSize - 1)).foldlM
        (AugChar.read as pi) s = .ok t ∧ SameAugmentation s t

/-- On a sized augmentation `parse_cie` reads the data of the stored recognised
    characters and no more. -/
theorem parseCie_sized {as : AddrSpace w} {addr pi dci isDebugFrame header}
    (read : readCieHeader as addr isDebugFrame = .ok header)
    (sized : header.augmentation.head? = some augZ) :
    parseCie as addr pi dci isDebugFrame = (do
      let (_, start) ← readUleb128 as header.addr
      let s ← ((recognised header.augmentation.tail).take (augstrSize - 1)).foldlM
        (AugChar.read as pi) (header.sizedStart dci start)
      pure { s.dci with fdeEncoding := s.fdeEncoding, cieInstrStart := s.addr }) := by
  obtain ⟨rest, string⟩ : ∃ rest, header.augmentation = augZ :: rest := by
    cases string : header.augmentation with
    | nil => rw [string] at sized; exact nomatch sized
    | cons ch rest =>
        rw [string] at sized
        exact ⟨rest, by rw [Option.some.inj sized]⟩
  have kept : header.augmentation.take augstrSize = augZ :: rest.take (augstrSize - 1) := by
    rw [string]
    rfl
  rw [parseCie, read, ok_bind, kept, readAugmentation, string]
  simp only [List.head?_cons, if_true, List.tail_cons, bind_assoc]
  congr 1
  funext ⟨augSize, start⟩
  rw [scanAugmentation_sized _ _ _ rfl, recognised_take]
  rfl

/-- A CIE with the augmentation string `zPLRS`. -/
def signalFrameCie : AddrSpace 64 :=
  spaceOfBytes 64
    [0x18, 0, 0, 0, 0, 0, 0, 0,                      -- length, id
     1, 0x7a, 0x50, 0x4c, 0x52, 0x53, 0,             -- version, "zPLRS"
     1, 0x78, 16,                                    -- alignments, return column
     7, 0x03, 0x40, 0x10, 0, 0, 0x0b, 0x1b,          -- size, P, L and R data
     0, 0]

end Libunwind.Dwarf
