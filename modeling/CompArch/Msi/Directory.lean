import CompArch.Outcome
import CompArch.Slicc
import CompArch.Msi.Messages
/-!
# The directory controller (`MSI-dir.sm`)

The home directory's view of one block. `directory.isPresent` holds of every
address at its home, and a TBE's fields that no transition sets have their
default values.
-/

namespace Msi.Directory

open Slicc

inductive State
  | I | M | S
  | IS_D | IM_D | MI_A | MS_D | MS_A
  deriving DecidableEq

inductive Event
  | GETM | GETS | PUTM_Owner | PUTM_NotOwner | PUTS_NotLast | PUTS_Last
  | Memory_Data | Memory_Ack
  | Data
  deriving DecidableEq

/-- A directory entry. `NetDest` is a set of machines. -/
structure Entry (C : Type) (n : Nat) where
  directoryState : State := .I
  dataBlk : DataBlock n := default
  sharers : Finset (MachineID C) := ∅
  owner : Finset (MachineID C) := ∅
  deriving DecidableEq

structure TBE (n : Nat) where
  physicalAddress : Nat := 0
  tbeState : State := .I
  dataBlk : DataBlock n := default
  len : Nat := 0
  deriving DecidableEq

/-- What the directory holds for the block. -/
structure Block (C : Type) (n : Nat) where
  entry : Entry C n := {}
  tbe : Option (TBE n) := none
  deriving DecidableEq

/-- What the controller uses of the memory that keeps its entries: invalidating a
block does not take its entry away. -/
class Memory (C : Type) (n : Nat) where
  invalidateBlock : Entry C n → Entry C n
  keeps : ∀ e, invalidateBlock e = e

attribute [simp] Memory.keeps

/-- Invalidating does nothing, with caches that are numbered. -/
instance {k n : Nat} : Memory (Fin k) n where
  invalidateBlock e := e
  keeps _ := rfl

variable {C : Type} {n : Nat}

def Block.getState (b : Block C n) : State :=
  match b.tbe with
  | some t => t.tbeState
  | none => b.entry.directoryState

/-- Stores the state, with the assertions on `Owner` and `Sharers` in `M` and `I`. -/
def Block.setState [Memory C n] (b : Block C n) (st : State) : Except Stop (Block C n) := do
  if st = .M then
    assert (b.entry.owner.card = 1)
    assert (b.entry.sharers.card = 0)
  if st = .I then
    assert (b.entry.owner.card = 0)
    assert (b.entry.sharers.card = 0)
  let entry := { b.entry with directoryState := st }
  return { entry := if st = .I then Memory.invalidateBlock entry else entry
           tbe := b.tbe.map ({ · with tbeState := st }) }

/-- In `I` the entry is kept with its new state. -/
theorem Block.setState_I [Memory C n] (b : Block C n) (ho : b.entry.owner.card = 0) (hs : b.entry.sharers.card = 0) :
    b.setState .I =
      .ok { entry := { b.entry with directoryState := .I }, tbe := b.tbe.map ({ · with tbeState := .I }) } := by
  simp [Block.setState, assert, ho, hs]
  rfl

/-- The byte of its block an address points to. -/
def addressOffset (n a : Nat) : Nat := a % n

/-! ## Input ports -/

def responseQueue_in (m : ResponseMsg C n) : Except Stop Event :=
  match m.type with
  | .DATA => .ok .Data
  | .DATA_FROM_DIR | .DATA_FROM_OWNER | .ACK => .error (.error "Directory: Invalid response message")

section
variable [DecidableEq C]

/-- The event a request triggers. A PUTM is classified by `Owner`, a PUTS by `Sharers`. -/
def requestQueue_in (e : Entry C n) (m : RequestMsg C n) : Except Stop Event :=
  match m.type with
  | .GETS => .ok .GETS
  | .GETM => .ok .GETM
  | .PUTM => if m.requestor ∈ e.owner then .ok .PUTM_Owner else .ok .PUTM_NotOwner
  | .PUTS => if e.sharers.card < 2 ∧ m.requestor ∈ e.sharers then .ok .PUTS_Last else .ok .PUTS_NotLast
  | .INV | .WB_ACK => .error (.error "Invalid message")

end

def memQueue_in (m : MemoryMsg C n) : Except Stop Event :=
  match m.type with
  | .MEMORY_READ => .ok .Memory_Data
  | .MEMORY_WB => .ok .Memory_Ack

/-! ## Actions -/

/-- A transition in progress: the messages at the heads of the queues, what
the block has become and what has been sent and popped. A forward goes to
every machine of its destination. -/
structure Ctx (C : Type) (n : Nat) where
  block : Block C n
  request : Option (RequestMsg C n) := none
  response : Option (ResponseMsg C n) := none
  memory : Option (MemoryMsg C n) := none
  forwards : List (Finset (MachineID C) × RequestMsg C n) := []
  responses : List (MachineID C × ResponseMsg C n) := []
  memoryRequests : List (MemoryMsg C n) := []
  poppedRequest : Bool := false
  poppedResponse : Bool := false
  poppedMemory : Bool := false

abbrev Action (C : Type) (n : Nat) := Ctx C n → Except Stop (Ctx C n)

namespace Ctx

def setEntry (x : Ctx C n) (e : Entry C n) : Ctx C n := { x with block := { x.block with entry := e } }

def setTBE (x : Ctx C n) (t : Option (TBE n)) : Ctx C n := { x with block := { x.block with tbe := t } }

def forward (x : Ctx C n) (dest : Finset (MachineID C)) (m : RequestMsg C n) : Ctx C n :=
  { x with forwards := x.forwards ++ [(dest, m)] }

def respond (x : Ctx C n) (dest : MachineID C) (m : ResponseMsg C n) : Ctx C n :=
  { x with responses := x.responses ++ [(dest, m)] }

def queueMemory (x : Ctx C n) (m : MemoryMsg C n) : Ctx C n :=
  { x with memoryRequests := x.memoryRequests ++ [m] }

end Ctx

section
variable [DecidableEq C]

def kk_removeRequestSharer : Action C n := fun x => do
  let m ← valid x.request
  return x.setEntry { x.block.entry with sharers := x.block.entry.sharers.erase m.requestor }

def ars2_addRequestorToSharers : Action C n := fun x => do
  let m ← valid x.request
  return x.setEntry { x.block.entry with sharers := insert m.requestor x.block.entry.sharers }

def aos_addOwnertoSharers : Action C n := fun x =>
  .ok (x.setEntry { x.block.entry with sharers := x.block.entry.sharers ∪ x.block.entry.owner })

def a_sendWriteBackAck : Action C n := fun x => do
  let m ← valid x.request
  return x.forward {m.requestor} { type := .WB_ACK, requestor := .Directory }

def la_sendWriteBackAck : Action C n := fun x => do
  let m ← valid x.memory
  return x.forward {m.originalRequestorMachId} { type := .WB_ACK, requestor := m.originalRequestorMachId }

def c_clearOwner : Action C n := fun x => .ok (x.setEntry { x.block.entry with owner := ∅ })

def cs_clearSharers : Action C n := fun x => .ok (x.setEntry { x.block.entry with sharers := ∅ })

def d_sendData : Action C n := fun x => do
  let m ← valid x.memory
  return x.respond m.originalRequestorMachId
    { type := .DATA_FROM_DIR, sender := .Directory, dataBlk := m.dataBlk, ackCount := 0 }

def ds_sendSharedData : Action C n := fun x => do
  let m ← valid x.request
  return x.respond m.requestor
    { type := .DATA_FROM_DIR, sender := .Directory, dataBlk := x.block.entry.dataBlk, ackCount := 0 }

def ds2_sendSharedData : Action C n := fun x => do
  let m ← valid x.request
  let e := x.block.entry
  return x.respond m.requestor
    { type := .DATA_FROM_DIR, sender := .Directory, dataBlk := e.dataBlk,
      ackCount := if m.requestor ∈ e.sharers then 1 - (e.sharers.card : Int) else 0 - (e.sharers.card : Int) }

def e_ownerIsRequestor : Action C n := fun x => do
  let m ← valid x.request
  return x.setEntry { x.block.entry with owner := {m.requestor} }

def f_forwardRequest : Action C n := fun x => do
  let m ← valid x.request
  return x.forward x.block.entry.owner { type := m.type, requestor := m.requestor }

def i_popIncomingRequestQueue : Action C n := fun x => .ok { x with poppedRequest := true }

def pr_popIncomingResponseQueue : Action C n := fun x => .ok { x with poppedResponse := true }

def pl_writeDataToDirectory : Action C n := fun x => do
  let m ← valid x.request
  return x.setEntry { x.block.entry with dataBlk := m.dataBlk }

def pl2_writeDataToDirectory : Action C n := fun x => do
  let m ← valid x.response
  return x.setEntry { x.block.entry with dataBlk := m.dataBlk }

def vv_allocateTBEFromRequestNet : Action C n := fun x => do
  let m ← valid x.request
  return x.setTBE (some { dataBlk := m.dataBlk })

def w_deallocateTBE : Action C n := fun x => .ok (x.setTBE none)

def z_stall : Action C n := fun _ => .error .stall

def qf_queueMemoryFetchRequest : Action C n := fun x => do
  let m ← valid x.request
  return x.queueMemory
    { type := .MEMORY_READ, originalRequestorMachId := m.requestor, dataBlk := x.block.entry.dataBlk }

def lq_queueMemoryWBRequest : Action C n := fun x => do
  let m ← valid x.request
  return x.queueMemory { type := .MEMORY_WB, originalRequestorMachId := m.requestor, dataBlk := m.dataBlk }

def lq2_queueMemoryWBRequest : Action C n := fun x => do
  let m ← valid x.response
  return x.queueMemory { type := .MEMORY_WB, originalRequestorMachId := m.sender, dataBlk := m.dataBlk }

def qm_popMemQueue : Action C n := fun x => .ok { x with poppedMemory := true }

def w_writeDataToMemoryFromTBE : Action C n := fun x => do
  let t ← valid x.block.tbe
  let e := x.block.entry
  return x.setEntry
    { e with dataBlk := e.dataBlk.copyPartial t.dataBlk (addressOffset n t.physicalAddress) t.len }

def fwm_sendFwdInvToSharersMinusRequestor : Action C n := fun x => do
  let m ← valid x.request
  return x.forward (x.block.entry.sharers.erase m.requestor) { type := .INV, requestor := m.requestor }

/-! ## Transitions -/

def transition : State → Event → Option (Row State (Ctx C n))
  -- I
  | .I, .GETS =>
    some ⟨[vv_allocateTBEFromRequestNet, ars2_addRequestorToSharers, qf_queueMemoryFetchRequest,
      i_popIncomingRequestQueue], .IS_D⟩
  | .I, .GETM =>
    some ⟨[vv_allocateTBEFromRequestNet, e_ownerIsRequestor, qf_queueMemoryFetchRequest,
      i_popIncomingRequestQueue], .IM_D⟩
  | .I, .PUTS_NotLast | .I, .PUTS_Last | .I, .PUTM_NotOwner =>
    some ⟨[a_sendWriteBackAck, i_popIncomingRequestQueue], .I⟩
  -- IS_D
  | .IS_D, .Memory_Data => some ⟨[w_writeDataToMemoryFromTBE, d_sendData, w_deallocateTBE, qm_popMemQueue], .S⟩
  | .IS_D, .GETS | .IS_D, .GETM => some ⟨[z_stall], .IS_D⟩
  | .IS_D, .PUTS_NotLast | .IS_D, .PUTS_Last | .IS_D, .PUTM_NotOwner =>
    some ⟨[a_sendWriteBackAck, i_popIncomingRequestQueue], .IS_D⟩
  -- IM_D
  | .IM_D, .Memory_Data => some ⟨[w_writeDataToMemoryFromTBE, d_sendData, w_deallocateTBE, qm_popMemQueue], .M⟩
  | .IM_D, .GETS | .IM_D, .GETM => some ⟨[z_stall], .IM_D⟩
  | .IM_D, .PUTS_NotLast | .IM_D, .PUTS_Last | .IM_D, .PUTM_NotOwner =>
    some ⟨[a_sendWriteBackAck, i_popIncomingRequestQueue], .IM_D⟩
  -- S
  | .S, .GETS => some ⟨[ds_sendSharedData, ars2_addRequestorToSharers, i_popIncomingRequestQueue], .S⟩
  | .S, .GETM =>
    some ⟨[ds2_sendSharedData, fwm_sendFwdInvToSharersMinusRequestor, cs_clearSharers, e_ownerIsRequestor,
      i_popIncomingRequestQueue], .M⟩
  | .S, .PUTS_NotLast | .S, .PUTM_NotOwner =>
    some ⟨[kk_removeRequestSharer, a_sendWriteBackAck, i_popIncomingRequestQueue], .S⟩
  | .S, .PUTS_Last => some ⟨[kk_removeRequestSharer, a_sendWriteBackAck, i_popIncomingRequestQueue], .I⟩
  -- M
  | .M, .GETS =>
    some ⟨[f_forwardRequest, vv_allocateTBEFromRequestNet, ars2_addRequestorToSharers, aos_addOwnertoSharers,
      c_clearOwner, i_popIncomingRequestQueue], .MS_D⟩
  | .M, .GETM => some ⟨[f_forwardRequest, c_clearOwner, e_ownerIsRequestor, i_popIncomingRequestQueue], .M⟩
  | .M, .PUTS_NotLast | .M, .PUTS_Last | .M, .PUTM_NotOwner =>
    some ⟨[a_sendWriteBackAck, i_popIncomingRequestQueue], .M⟩
  | .M, .PUTM_Owner =>
    some ⟨[vv_allocateTBEFromRequestNet, pl_writeDataToDirectory, lq_queueMemoryWBRequest, c_clearOwner,
      i_popIncomingRequestQueue], .MI_A⟩
  -- MS_D
  | .MS_D, .Data =>
    some ⟨[pl2_writeDataToDirectory, lq2_queueMemoryWBRequest, pr_popIncomingResponseQueue], .MS_A⟩
  | .MS_D, .PUTS_NotLast | .MS_D, .PUTM_NotOwner | .MS_D, .PUTS_Last =>
    some ⟨[kk_removeRequestSharer, a_sendWriteBackAck, i_popIncomingRequestQueue], .MS_D⟩
  | .MS_D, .GETS | .MS_D, .GETM => some ⟨[z_stall], .MS_D⟩
  -- MI_A
  | .MI_A, .Memory_Ack => some ⟨[la_sendWriteBackAck, w_deallocateTBE, qm_popMemQueue], .I⟩
  | .MI_A, .GETS | .MI_A, .GETM => some ⟨[z_stall], .MI_A⟩
  | .MI_A, .PUTS_NotLast | .MI_A, .PUTS_Last | .MI_A, .PUTM_NotOwner =>
    some ⟨[a_sendWriteBackAck, i_popIncomingRequestQueue], .MI_A⟩
  -- MS_A
  | .MS_A, .Memory_Ack => some ⟨[w_deallocateTBE, qm_popMemQueue], .S⟩
  | .MS_A, .PUTS_NotLast | .MS_A, .PUTS_Last | .MS_A, .PUTM_NotOwner =>
    some ⟨[kk_removeRequestSharer, a_sendWriteBackAck, i_popIncomingRequestQueue], .MS_A⟩
  | .MS_A, .GETS | .MS_A, .GETM => some ⟨[z_stall], .MS_A⟩
  | _, _ => none

variable [Memory C n]

def trigger (event : Event) (x : Ctx C n) : Except Stop (Ctx C n) :=
  doTransition transition (·.block.getState) (fun st x => do
    let b ← x.block.setState st
    return { x with block := b }) event x

/-- A transition to `I` that completes. -/
theorem trigger_to_I {event : Event} {x y x' : Ctx C n} {actions : List (Action C n)}
    (hrow : transition x.block.getState event = some ⟨actions, .I⟩) (hy : runActions actions x = .ok y)
    (ho : y.block.entry.owner.card = 0) (hs : y.block.entry.sharers.card = 0) (hx : x' = { y with
      block := { entry := { y.block.entry with directoryState := .I }
                 tbe := y.block.tbe.map ({ · with tbeState := .I }) } }) : trigger event x = .ok x' := by
  unfold trigger doTransition
  simp only [hrow, hy, Except.bind, Block.setState_I y.block ho hs, hx]
  rfl

/-! ## What each kind of input does -/

def onRequest (b : Block C n) (m : RequestMsg C n) : Except Stop (Ctx C n) := do
  let event ← requestQueue_in b.entry m
  trigger event { block := b, request := some m }

def onResponse (b : Block C n) (m : ResponseMsg C n) : Except Stop (Ctx C n) := do
  let event ← responseQueue_in m
  trigger event { block := b, response := some m }

def onMemory (b : Block C n) (m : MemoryMsg C n) : Except Stop (Ctx C n) := do
  let event ← memQueue_in m
  trigger event { block := b, memory := some m }

theorem onRequest_eq {b : Block C n} {m : RequestMsg C n} {event : Event} (h : requestQueue_in b.entry m = .ok event) :
    onRequest b m = trigger event { block := b, request := some m } := by
  rw [onRequest, h]
  rfl

theorem onMemory_eq {b : Block C n} {m : MemoryMsg C n} {event : Event} (h : memQueue_in m = .ok event) :
    onMemory b m = trigger event { block := b, memory := some m } := by
  rw [onMemory, h]
  rfl

/-- A request that is taken is an event, and a transition for it. -/
theorem onRequest_ok {b : Block C n} {m : RequestMsg C n} {x : Ctx C n} (h : onRequest b m = .ok x) :
    ∃ event, requestQueue_in b.entry m = .ok event ∧ trigger event { block := b, request := some m } = .ok x :=
  Outcome.bind_ok.1 h

theorem onResponse_ok {b : Block C n} {m : ResponseMsg C n} {x : Ctx C n} (h : onResponse b m = .ok x) :
    ∃ event, responseQueue_in m = .ok event ∧ trigger event { block := b, response := some m } = .ok x :=
  Outcome.bind_ok.1 h

theorem onMemory_ok {b : Block C n} {m : MemoryMsg C n} {x : Ctx C n} (h : onMemory b m = .ok x) :
    ∃ event, memQueue_in m = .ok event ∧ trigger event { block := b, memory := some m } = .ok x :=
  Outcome.bind_ok.1 h

end

end Msi.Directory
