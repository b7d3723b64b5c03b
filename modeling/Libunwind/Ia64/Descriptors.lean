import Libunwind.Ia64.StateRecord

/-! # Unwind descriptors

The decoder reads one descriptor and hands its operands on. A pointer into the descriptors is an
offset from their start, and what is read outside of them is undefined.
-/

namespace Libunwind.Ia64

/-- A descriptor with the operands that its macro is given. -/
inductive Descriptor where
  /-- `desc_prologue`, for the headers of prologues and of bodies -/
  | prologue (body : Bool) (rlen : Word 64) (mask grsave : Byte)
  | abi (abi context : Byte)
  | brGr (brmask gr : Byte)
  | brMem (brmask : Byte)
  | frgrMem (grmask frmask : Word 64)
  | frMem (frmask : Byte)
  | grGr (grmask gr : Byte)
  | grMem (grmask : Byte)
  | memStackF (t size : Word 64)
  | memStackV (t : Word 64)
  | regGr (reg : Preg) (dst : Byte)
  | regPsprel (reg : Preg) (pspoff : Word 64)
  | regSprel (reg : Preg) (spoff : Word 64)
  | regWhen (reg : Preg) (t : Word 64)
  | rpBr (dst : Byte)
  | spillBase (pspoff : Word 64)
  | spillMask
  | epilogue (t ecount : Word 64)
  | copyState (label : Word 64)
  | labelState (label : Word 64)
  | spillRegP (qp : Byte) (t : Word 64) (abreg x ytreg : Byte)
  | spillPsprelP (qp : Byte) (t : Word 64) (abreg : Byte) (pspoff : Word 64)
  | spillSprelP (qp : Byte) (t : Word 64) (abreg : Byte) (spoff : Word 64)
  | restoreP (qp : Byte) (t : Word 64) (abreg : Byte)
  /-- `UNW_DEC_BAD_CODE` -/
  | badCode
  deriving DecidableEq

section Decoder

variable (area : List Byte)

/-- `*dp++` -/
def nextByte (dp : Int) : Result (Byte × Int) :=
  if dp < 0 then .error .undefined
  else
    match area[dp.toNat]? with
    | some byte => pure (byte, dp + 1)
    | none => .error .undefined

/-- The loop of `unw_decode_uleb128`. Too wide a shift is undefined. -/
def unwDecodeUlebLoop : Nat → Int → Word 64 → Nat → Result (Word 64 × Int)
  | 0, _, _, _ => .error .timeout
  | rounds + 1, bp, result, shift => do
      let (byte, bp) ← nextByte area bp
      if 64 ≤ shift then .error .undefined
      else
        let result := result ||| ((byte.setWidth 64 &&& 0x7f) <<< shift)
        if byte &&& 0x80 = 0 then pure (result, bp)
        else unwDecodeUlebLoop rounds bp result (shift + 7)

/-- `unw_decode_uleb128`; the shift is too wide after ten bytes. -/
def unwDecodeUleb128 (dp : Int) : Result (Word 64 × Int) := unwDecodeUlebLoop area 11 dp 0 0

def unwDecodeX1 (dp : Int) : Result (Descriptor × Int) := do
  let (byte1, dp) ← nextByte area dp
  let (t, dp) ← unwDecodeUleb128 area dp
  let (off, dp) ← unwDecodeUleb128 area dp
  let abreg := byte1 &&& 0x7f
  pure (if byte1 &&& 0x80 ≠ 0 then .spillSprelP 0 t abreg off else .spillPsprelP 0 t abreg off, dp)

def unwDecodeX2 (dp : Int) : Result (Descriptor × Int) := do
  let (byte1, dp) ← nextByte area dp
  let (byte2, dp) ← nextByte area dp
  let (t, dp) ← unwDecodeUleb128 area dp
  let abreg := byte1 &&& 0x7f
  let ytreg := byte2
  let x := (byte1 >>> 7) &&& 1
  pure (if byte1 &&& 0x80 = 0 ∧ ytreg = 0 then .restoreP 0 t abreg
    else .spillRegP 0 t abreg x ytreg, dp)

def unwDecodeX3 (dp : Int) : Result (Descriptor × Int) := do
  let (byte1, dp) ← nextByte area dp
  let (byte2, dp) ← nextByte area dp
  let (t, dp) ← unwDecodeUleb128 area dp
  let (off, dp) ← unwDecodeUleb128 area dp
  let qp := byte1 &&& 0x3f
  let abreg := byte2 &&& 0x7f
  pure (if byte1 &&& 0x80 ≠ 0 then .spillSprelP qp t abreg off else .spillPsprelP qp t abreg off, dp)

def unwDecodeX4 (dp : Int) : Result (Descriptor × Int) := do
  let (byte1, dp) ← nextByte area dp
  let (byte2, dp) ← nextByte area dp
  let (byte3, dp) ← nextByte area dp
  let (t, dp) ← unwDecodeUleb128 area dp
  let qp := byte1 &&& 0x3f
  let abreg := byte2 &&& 0x7f
  let x := (byte2 >>> 7) &&& 1
  let ytreg := byte3
  pure (if byte2 &&& 0x80 = 0 ∧ byte3 = 0 then .restoreP qp t abreg
    else .spillRegP qp t abreg x ytreg, dp)

def unwDecodeR1 (dp : Int) (code : Byte) : Result (Descriptor × Int) :=
  pure (.prologue (code &&& 0x20 != 0) (code.setWidth 64 &&& 0x1f) 0 32, dp)

def unwDecodeR2 (dp : Int) (code : Byte) : Result (Descriptor × Int) := do
  let (byte1, dp) ← nextByte area dp
  let mask := ((code &&& 0x7) <<< 1) ||| ((byte1 >>> 7) &&& 1)
  let grsave := byte1 &&& 0x7f
  let (rlen, dp) ← unwDecodeUleb128 area dp
  pure (.prologue false rlen mask grsave, dp)

def unwDecodeR3 (dp : Int) (code : Byte) : Result (Descriptor × Int) := do
  let (rlen, dp) ← unwDecodeUleb128 area dp
  pure (.prologue (code &&& 0x3 == 1) rlen 0 32, dp)

def unwDecodeP1 (dp : Int) (code : Byte) : Result (Descriptor × Int) :=
  pure (.brMem (code &&& 0x1f), dp)

/-- The register of a descriptor of format P3. -/
def descriptorP3 (r dst : Byte) : Descriptor :=
  match r.toNat with
  | 0 => .regGr .psp dst
  | 1 => .regGr .ip dst
  | 2 => .regGr .pfs dst
  | 3 => .regGr .pr dst
  | 4 => .regGr .unat dst
  | 5 => .regGr .lc dst
  | 6 => .rpBr dst
  | 7 => .regGr .rnat dst
  | 8 => .regGr .bsp dst
  | 9 => .regGr .bspstore dst
  | 10 => .regGr .fpsr dst
  | 11 => .regGr .priUnatGr dst
  | _ => .badCode

def unwDecodeP2P5 (dp : Int) (code : Byte) : Result (Descriptor × Int) :=
  if code &&& 0x10 = 0 then do
    let (byte1, dp) ← nextByte area dp
    pure (.brGr (((code &&& 0xf) <<< 1) ||| ((byte1 >>> 7) &&& 1)) (byte1 &&& 0x7f), dp)
  else if code &&& 0x08 = 0 then do
    let (byte1, dp) ← nextByte area dp
    let r := ((code &&& 0x7) <<< 1) ||| ((byte1 >>> 7) &&& 1)
    let dst := byte1 &&& 0x7f
    pure (descriptorP3 r dst, dp)
  else if code &&& 0x7 = 0 then pure (.spillMask, dp)
  else if code &&& 0x7 = 1 then do
    let (byte1, dp) ← nextByte area dp
    let (byte2, dp) ← nextByte area dp
    let (byte3, dp) ← nextByte area dp
    let byte1 := byte1.setWidth 64
    let grmask := (byte1 >>> 4) &&& 0xf
    let frmask := ((byte1 &&& 0xf) <<< 16) ||| (byte2.setWidth 64 <<< 8) ||| byte3.setWidth 64
    pure (.frgrMem grmask frmask, dp)
  else pure (.badCode, dp)

def unwDecodeP6 (dp : Int) (code : Byte) : Result (Descriptor × Int) :=
  let mask := code &&& 0x0f
  pure (if code &&& 0x10 ≠ 0 then .grMem mask else .frMem mask, dp)

/-- The descriptors of format P7 with one operand. -/
def descriptorP7 (r : Byte) (t : Word 64) : Descriptor :=
  match r.toNat with
  | 1 => .memStackV t
  | 2 => .spillBase t
  | 3 => .regSprel .psp t
  | 4 => .regWhen .ip t
  | 5 => .regPsprel .ip t
  | 6 => .regWhen .pfs t
  | 7 => .regPsprel .pfs t
  | 8 => .regWhen .pr t
  | 9 => .regPsprel .pr t
  | 10 => .regWhen .lc t
  | 11 => .regPsprel .lc t
  | 12 => .regWhen .unat t
  | 13 => .regPsprel .unat t
  | 14 => .regWhen .fpsr t
  | 15 => .regPsprel .fpsr t
  | _ => .badCode

/-- The descriptors of format P8. -/
def descriptorP8 (r : Byte) (t : Word 64) : Descriptor :=
  match r.toNat with
  | 1 => .regSprel .ip t
  | 2 => .regSprel .pfs t
  | 3 => .regSprel .pr t
  | 4 => .regSprel .lc t
  | 5 => .regSprel .unat t
  | 6 => .regSprel .fpsr t
  | 7 => .regWhen .bsp t
  | 8 => .regPsprel .bsp t
  | 9 => .regSprel .bsp t
  | 10 => .regWhen .bspstore t
  | 11 => .regPsprel .bspstore t
  | 12 => .regSprel .bspstore t
  | 13 => .regWhen .rnat t
  | 14 => .regPsprel .rnat t
  | 15 => .regSprel .rnat t
  | 16 => .regWhen .priUnatGr t
  | 17 => .regPsprel .priUnatMem t
  | 18 => .regSprel .priUnatMem t
  | 19 => .regWhen .priUnatMem t
  | _ => .badCode

def unwDecodeP7P10 (dp : Int) (code : Byte) : Result (Descriptor × Int) :=
  if code &&& 0x10 = 0 then do
    let r := code &&& 0xf
    let (t, dp) ← unwDecodeUleb128 area dp
    if r = 0 then do
      let (size, dp) ← unwDecodeUleb128 area dp
      pure (.memStackF t size, dp)
    else pure (descriptorP7 r t, dp)
  else
    match (code &&& 0xf).toNat with
    | 0x0 => do
        let (r, dp) ← nextByte area dp
        let (t, dp) ← unwDecodeUleb128 area dp
        pure (descriptorP8 r t, dp)
    | 0x1 => do
        let (byte1, dp) ← nextByte area dp
        let (byte2, dp) ← nextByte area dp
        pure (.grGr (byte1 &&& 0xf) (byte2 &&& 0x7f), dp)
    | 0xf => do
        let (byte1, dp) ← nextByte area dp
        let (byte2, dp) ← nextByte area dp
        pure (.abi byte1 byte2, dp)
    | 0x9 => unwDecodeX1 area dp
    | 0xa => unwDecodeX2 area dp
    | 0xb => unwDecodeX3 area dp
    | 0xc => unwDecodeX4 area dp
    | _ => pure (.badCode, dp)

def unwDecodeB1 (dp : Int) (code : Byte) : Result (Descriptor × Int) :=
  let label := code.setWidth 64 &&& 0x1f
  pure (if code &&& 0x20 ≠ 0 then .copyState label else .labelState label, dp)

def unwDecodeB2 (dp : Int) (code : Byte) : Result (Descriptor × Int) := do
  let (t, dp) ← unwDecodeUleb128 area dp
  pure (.epilogue t (code.setWidth 64 &&& 0x1f), dp)

def unwDecodeB3X4 (dp : Int) (code : Byte) : Result (Descriptor × Int) :=
  if code &&& 0x10 = 0 then do
    let (t, dp) ← unwDecodeUleb128 area dp
    let (ecount, dp) ← unwDecodeUleb128 area dp
    pure (.epilogue t ecount, dp)
  else if code &&& 0x07 = 0 then do
    let (label, dp) ← unwDecodeUleb128 area dp
    pure (if code &&& 0x08 ≠ 0 then .copyState label else .labelState label, dp)
  else
    match (code &&& 0x7).toNat with
    | 1 => unwDecodeX1 area dp
    | 2 => unwDecodeX2 area dp
    | 3 => unwDecodeX3 area dp
    | 4 => unwDecodeX4 area dp
    | _ => pure (.badCode, dp)

/-- `unw_decode`, up to the call for the descriptor. -/
def unwDecode (dp : Int) (insideBody : Bool) : Result (Descriptor × Int) := do
  let (code, dp) ← nextByte area dp
  let primary := (code >>> 5).toNat
  if primary < 2 then unwDecodeR1 dp code
  else if primary = 2 then unwDecodeR2 area dp code
  else if primary = 3 then unwDecodeR3 area dp code
  else if insideBody then
    match primary with
    | 4 | 5 => unwDecodeB1 dp code
    | 6 => unwDecodeB2 area dp code
    | _ => unwDecodeB3X4 area dp code
  else
    match primary with
    | 4 => unwDecodeP1 dp code
    | 5 => unwDecodeP2P5 area dp code
    | 6 => unwDecodeP6 dp code
    | _ => unwDecodeP7P10 area dp code

end Decoder

end Libunwind.Ia64
