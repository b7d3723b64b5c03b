import Libunwind.Basic

/-! # The state record of a procedure

What the unwind descriptors say about the registers of a procedure up to an instruction: where each
preserved register is saved, and from which instruction on.
-/

namespace Libunwind.Ia64

/-- `enum ia64_pregnum`, up to `IA64_NUM_PREGS`. -/
abbrev Preg := Fin 45

/-- Literals are the numbers of preserved registers. -/
instance neZeroPreg : NeZero 45 := ⟨by decide⟩

namespace Preg

def priUnatGr : Preg := 0
def priUnatMem : Preg := 1
def psp : Preg := 2
def bsp : Preg := 3
def bspstore : Preg := 4
def pfs : Preg := 5
def rnat : Preg := 6
def ip : Preg := 7
def r4 : Preg := 8
def r7 : Preg := 11
def nat4 : Preg := 12
def nat7 : Preg := 15
def unat : Preg := 16
def pr : Preg := 17
def lc : Preg := 18
def fpsr : Preg := 19
def b1 : Preg := 20
def b5 : Preg := 24
def f2 : Preg := 25
def f5 : Preg := 28
def f16 : Preg := 29
def f31 : Preg := 44

end Preg

/-- `enum ia64_where` -/
inductive Where where
  | none
  | gr
  | fr
  | br
  | sprel
  | psprel
  | spillHome
  | grSave
  deriving DecidableEq, Repr

/-- `IA64_WHEN_NEVER` -/
def whenNever : Int := 0x7fffffff

/-- `struct ia64_reg_info`; the field `where` is `saved` here. -/
structure RegInfo where
  val : Word 64
  saved : Where
  when : Int
  deriving DecidableEq

/-- A pointer to an object of one of the pools; 0 is `NULL`. -/
abbrev PoolPtr := Nat

/-- `struct ia64_reg_state` -/
structure RegState where
  next : PoolPtr
  reg : Preg → RegInfo

/-- `struct ia64_state_record`; `imask` is an offset into the unwind descriptors. -/
structure StateRecord where
  firstRegion : Bool
  done : Bool
  anySpills : Bool
  inBody : Bool
  imask : Option Nat
  abiMarker : Word 16
  prVal : Word 64
  prMask : Word 64
  spillOffset : Word 64
  regionStart : Int
  regionLen : Int
  whenSpRestored : Int
  epilogueCount : Int
  whenTarget : Int
  grSaveLoc : Byte
  returnLinkReg : Byte
  labeledStates : PoolPtr
  curr : RegState

end Libunwind.Ia64
