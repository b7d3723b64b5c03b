import Libunwind.Ia64.StateRecord
import Libunwind.Library.Ledger

/-! # The state stack

The register states that a state record has on its stack, and the stacks that it keeps under labels,
are threaded through records of two pools. Here are the routines that take such records and return
them, and what each makes of the lists.
-/

namespace Libunwind.Ia64

open Ledger

/-- `struct ia64_labeled_state` -/
structure LabeledState where
  next : PoolPtr
  label : Word 64
  savedState : RegState

/-- `unw.reg_state_pool` and `unw.labeled_state_pool`. -/
structure Pools where
  regs : Pool RegState
  labels : Pool LabeledState
  /-- Whether `mempool_alloc` has a record for its caller, each time that it is called. -/
  grants : ℕ → Bool
  asked : ℕ

/-- A state record, and the pools that it has its lists from. -/
structure Parse where
  sr : StateRecord
  pools : Pools

namespace Pools

variable (pools : Pools)

/-- `alloc_reg_state`, and the `memcpy` that follows it. -/
def allocRegState (rs : RegState) : Option PoolPtr × Pools :=
  let after := { pools with asked := pools.asked + 1 }
  if pools.grants pools.asked then
    (some pools.regs.fresh, { after with regs := pools.regs.take rs })
  else (none, after)

/-- `alloc_labeled_state`, and the assignments that follow it. -/
def allocLabeledState (ls : LabeledState) : Option PoolPtr × Pools :=
  let after := { pools with asked := pools.asked + 1 }
  if pools.grants pools.asked then
    (some pools.labels.fresh, { after with labels := pools.labels.take ls })
  else (none, after)

/-- What a pointer to a register state points to. -/
def regState (rs : PoolPtr) : Result RegState :=
  match pools.regs.cells rs with
  | some state => pure state
  | none => .error .undefined

def labeledState (ls : PoolPtr) : Result LabeledState :=
  match pools.labels.cells ls with
  | some state => pure state
  | none => .error .undefined

/-- `rs->next = next` -/
def setNext (rs next : PoolPtr) : Result Pools :=
  match out : pools.regs.cells rs with
  | some state =>
      pure { pools with regs := pools.regs.write rs { state with next } (by rw [out]; rfl) }
  | none => .error .undefined

/-- The assignments to a labeled state. -/
def setLabeledState (ls : PoolPtr) (state : LabeledState) : Result Pools :=
  if out : (pools.labels.cells ls).isSome then
    pure { pools with labels := pools.labels.write ls state out }
  else .error .undefined

/-- `free_reg_state` -/
def freeRegState (rs : PoolPtr) : Result Pools :=
  if out : (pools.regs.cells rs).isSome then
    pure { pools with regs := pools.regs.giveBack rs out }
  else .error .undefined

/-- `free_labeled_state` -/
def freeLabeledState (ls : PoolPtr) : Result Pools :=
  if out : (pools.labels.cells ls).isSome then
    pure { pools with labels := pools.labels.giveBack ls out }
  else .error .undefined

/-- The loop of `dup_state_stack`. It goes round in a circle when it takes more steps than records
    were ever taken. -/
def dupLoop : ℕ → Pools → PoolPtr → PoolPtr → PoolPtr → Result (PoolPtr × Pools)
  | 0, _, _, _, _ => .error .timeout
  | rounds + 1, pools, rs, prev, first =>
      if rs = 0 then pure (first, pools)
      else do
        let state ← pools.regState rs
        match pools.allocRegState state with
        | (none, pools) => pure (0, pools)
        | (some copy, pools) => do
            let pools ← if first = 0 then pure pools else pools.setNext prev copy
            let state ← pools.regState rs
            dupLoop rounds pools state.next copy (if first = 0 then copy else first)

/-- `dup_state_stack` -/
def dupStateStack (rs : PoolPtr) : Result (PoolPtr × Pools) :=
  dupLoop (pools.regs.taken + 1) pools rs 0 0

/-- The loop of `free_state_stack`. -/
def freeLoop : ℕ → Pools → PoolPtr → Result Pools
  | 0, _, _ => .error .timeout
  | rounds + 1, pools, p =>
      if p = 0 then pure pools
      else do
        let state ← pools.regState p
        let pools ← pools.freeRegState p
        freeLoop rounds pools state.next

/-- `free_state_stack`, but for the link that it clears. -/
def freeStateStack (rs : RegState) : Result Pools := freeLoop (pools.regs.taken + 1) pools rs.next

/-- The loop of `desc_copy_state`, as far as the label. -/
def findLabel (label : Word 64) : ℕ → PoolPtr → Result (Option LabeledState)
  | 0, _ => .error .timeout
  | rounds + 1, ls =>
      if ls = 0 then pure none
      else do
        let state ← pools.labeledState ls
        if state.label = label then pure (some state) else findLabel label rounds state.next

/-- The loop of `ia64_free_state_record`. -/
def freeLabels : ℕ → Pools → PoolPtr → Result Pools
  | 0, _, _ => .error .timeout
  | rounds + 1, pools, ls =>
      if ls = 0 then pure pools
      else do
        let state ← pools.labeledState ls
        let pools ← pools.freeStateStack state.savedState
        let pools ← pools.freeLabeledState ls
        freeLabels rounds pools state.next

end Pools

namespace Parse

variable (parse : Parse)

/-- The record with another state stack. -/
def withNext (next : PoolPtr) (pools : Pools) : Parse where
  sr := { parse.sr with curr := { parse.sr.curr with next } }
  pools

/-- `push` -/
def push : Parse :=
  match parse.pools.allocRegState parse.sr.curr with
  | (some rs, pools) => parse.withNext rs pools
  | (none, pools) => { parse with pools }

/-- `pop` -/
def pop : Result Parse :=
  let rs := parse.sr.curr.next
  if rs = 0 then pure parse
  else do
    let state ← parse.pools.regState rs
    let pools ← parse.pools.freeRegState rs
    pure { sr := { parse.sr with curr := state }, pools }

/-- `desc_copy_state` -/
def descCopyState (label : Word 64) : Result Parse := do
  match ← parse.pools.findLabel label (parse.pools.labels.taken + 1) parse.sr.labeledStates with
  | some ls => do
      let pools ← parse.pools.freeStateStack parse.sr.curr
      let (next, pools) ← pools.dupStateStack ls.savedState.next
      pure { sr := { parse.sr with curr := { ls.savedState with next } }, pools }
  | none => pure parse

/-- `desc_label_state`. The record is filled when it has been taken. -/
def descLabelState (label : Word 64) : Result Parse :=
  match parse.pools.allocLabeledState ⟨0, label, parse.sr.curr⟩ with
  | (none, pools) => pure { parse with pools }
  | (some ls, pools) => do
      let (next, pools) ← pools.dupStateStack parse.sr.curr.next
      let pools ← pools.setLabeledState ls
        ⟨parse.sr.labeledStates, label, { parse.sr.curr with next }⟩
      pure { sr := { parse.sr with labeledStates := ls }, pools }

/-- `ia64_free_state_record` -/
def freeStateRecord : Result Parse := do
  let pools ← parse.pools.freeLabels (parse.pools.labels.taken + 1) parse.sr.labeledStates
  let pools ← pools.freeStateStack parse.sr.curr
  pure (parse.withNext 0 pools)

end Parse

end Libunwind.Ia64
