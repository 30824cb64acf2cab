import CompArch.Outcome
import CompArch.Slicc
import CompArch.Msi.Messages
/-!
# The L1 cache controller (`MSI-cache.sm`)

One controller's view of one block: its cache entry, its TBE, and for each
event the actions of the source in the source's order. Profiling, latencies
and debug output are left out.
-/

namespace Msi.L1Cache

open Slicc

/-- Stable states first, then the transient ones. -/
inductive State
  | I | S | M
  | IS_D | IM_AD | IM_A | SM_AD | SM_A | MI_A | SI_A | II_A
  deriving DecidableEq

inductive Event
  | Load | Ifetch | Store | Replacement
  | Fwd_GetS | Fwd_GetM | Inv | WB_Ack
  | Inv_Ack | Inv_Ack_all
  | Data_from_Dir_No_Acks | Data_from_Dir_Ack_Cnt | Data_from_Dir_Ack_Cnt_Last | Data_from_Owner
  deriving DecidableEq

/-- A cache entry; `Dirty` is never used. -/
structure Entry (n : Nat) where
  cacheState : State := .I
  dataBlk : DataBlock n := default
  deriving DecidableEq

structure TBE (n : Nat) where
  tbeState : State := .I
  dataBlk : DataBlock n := default
  pendingAcks : Int := 0
  deriving DecidableEq

/-- What a cache holds for the block. -/
structure Block (n : Nat) where
  entry : Option (Entry n) := none
  tbe : Option (TBE n) := none
  deriving DecidableEq

def L1Cache_State_to_permission : State → AccessPermission
  | .I => .Invalid
  | .S => .Read_Only
  | .M => .Read_Write
  | .IS_D | .IM_AD | .IM_A | .SM_AD | .SM_A | .MI_A | .SI_A | .II_A => .Busy

variable {C : Type} {n : Nat}

def Block.getState (b : Block n) : State :=
  match b.tbe, b.entry with
  | some t, _ => t.tbeState
  | none, some e => e.cacheState
  | none, none => .I

def Block.setState (b : Block n) (st : State) : Block n where
  entry := b.entry.map ({ · with cacheState := st })
  tbe := b.tbe.map ({ · with tbeState := st })

def Block.getAccessPermission (b : Block n) : AccessPermission :=
  match b.tbe, b.entry with
  | some t, _ => L1Cache_State_to_permission t.tbeState
  | none, some e => L1Cache_State_to_permission e.cacheState
  | none, none => .NotPresent

/-- A field of an absent TBE is a null dereference. -/
def getPendingAcks (tbe : Option (TBE n)) : Except Stop Int := (valid tbe).map (·.pendingAcks)

def getNondirectHitMachType : MachineID C → GenericMachineType
  | .L1Cache _ => .L1Cache_wCC
  | .Directory => .Directory

def mandatory_request_type_to_event : RubyRequestType → Event
  | .LD => .Load
  | .IFETCH => .Ifetch
  | .ST | .ATOMIC => .Store

/-! ## Input ports -/

/-- The event a forwarded message triggers. -/
def forwardRequestNetwork_in (m : RequestMsg C n) : Except Stop Event :=
  match m.type with
  | .GETM => .ok .Fwd_GetM
  | .GETS => .ok .Fwd_GetS
  | .INV => .ok .Inv
  | .WB_ACK => .ok .WB_Ack
  | .PUTS | .PUTM => .error (.error "MSI_example L1 - Unexpected message in forwardToCache buffer")

/-- The event a response triggers. -/
def responseNetwork_in (tbe : Option (TBE n)) (m : ResponseMsg C n) : Except Stop Event :=
  match m.type with
  | .DATA_FROM_DIR =>
    if m.ackCount = 0 then .ok .Data_from_Dir_No_Acks
    else (getPendingAcks tbe).map fun k =>
      if k - m.ackCount = 0 then .Data_from_Dir_Ack_Cnt_Last else .Data_from_Dir_Ack_Cnt
  | .DATA_FROM_OWNER => .ok .Data_from_Owner
  | .ACK => (getPendingAcks tbe).map fun k => if k - m.ackCount = 0 then .Inv_Ack_all else .Inv_Ack
  | .DATA => .error (.error "MSI_example L1 - Unexpected message in reponseToCache buffer")

/-! ## Actions -/

/-- A transition in progress: the messages at the heads of the queues, the
value the sequencer would store, what the block has become and what has been
sent, popped and reported. -/
structure Ctx (C : Type) (n : Nat) where
  machineID : C
  block : Block n
  mandatory : Option RubyRequestType := none
  forward : Option (RequestMsg C n) := none
  response : Option (ResponseMsg C n) := none
  stored : DataBlock n := default
  send_evictions : Bool := true
  requests : List (RequestMsg C n) := []
  responses : List (MachineID C × ResponseMsg C n) := []
  callbacks : List (Callback n) := []
  poppedForward : Bool := false
  poppedResponse : Bool := false

abbrev Action (C : Type) (n : Nat) := Ctx C n → Except Stop (Ctx C n)

namespace Ctx

def request (x : Ctx C n) (m : RequestMsg C n) : Ctx C n := { x with requests := x.requests ++ [m] }

def respond (x : Ctx C n) (dest : MachineID C) (m : ResponseMsg C n) : Ctx C n :=
  { x with responses := x.responses ++ [(dest, m)] }

def report (x : Ctx C n) (k : Callback n) : Ctx C n := { x with callbacks := x.callbacks ++ [k] }

def setEntry (x : Ctx C n) (e : Option (Entry n)) : Ctx C n := { x with block := { x.block with entry := e } }

def setTBE (x : Ctx C n) (t : Option (TBE n)) : Ctx C n := { x with block := { x.block with tbe := t } }

end Ctx

def as_issueGetS : Action C n := fun x =>
  .ok (x.request { type := .GETS, requestor := .L1Cache x.machineID })

def am_issueGetM : Action C n := fun x =>
  .ok (x.request { type := .GETM, requestor := .L1Cache x.machineID })

def bs_issuePUTS : Action C n := fun x => do
  let e ← valid x.block.entry
  return x.request { type := .PUTS, requestor := .L1Cache x.machineID, dataBlk := e.dataBlk }

def bm_issuePUTM : Action C n := fun x => do
  let e ← valid x.block.entry
  return x.request { type := .PUTM, requestor := .L1Cache x.machineID, dataBlk := e.dataBlk }

def e_sendDataFromCacheToRequestor : Action C n := fun x => do
  let m ← valid x.forward
  let e ← valid x.block.entry
  return x.respond m.requestor { type := .DATA_FROM_OWNER, sender := .L1Cache x.machineID, dataBlk := e.dataBlk }

def ee_sendDataFromTBEToRequestor : Action C n := fun x => do
  let m ← valid x.forward
  let t ← valid x.block.tbe
  return x.respond m.requestor { type := .DATA_FROM_OWNER, sender := .L1Cache x.machineID, dataBlk := t.dataBlk }

def de_sendDataFromCacheToDir : Action C n := fun x => do
  let e ← valid x.block.entry
  return x.respond .Directory { type := .DATA, sender := .L1Cache x.machineID, dataBlk := e.dataBlk }

def dee_sendDataFromTBEToDir : Action C n := fun x => do
  let t ← valid x.block.tbe
  return x.respond .Directory { type := .DATA, sender := .L1Cache x.machineID, dataBlk := t.dataBlk }

def fi_sendInvAck : Action C n := fun x => do
  let m ← valid x.forward
  return x.respond m.requestor { type := .ACK, sender := .L1Cache x.machineID, ackCount := 1 }

def i_allocateL1CacheBlock : Action C n := fun x =>
  match x.block.entry with
  | some _ =>
    if x.block.getAccessPermission ≠ .Invalid then
      .error (.error "Should not get an allocate request for a block that has not Invalid permissions")
    else .ok x
  | none => .ok (x.setEntry (some {}))

def h_deallocateL1CacheBlock : Action C n := fun x => .ok (x.setEntry none)

def m_popMandatoryQueue : Action C n := fun x => do
  let r ← valid x.mandatory
  return x.report (.popMandatory r)

def n_popResponseQueue : Action C n := fun x => .ok { x with poppedResponse := true }

def o_popForwardedRequestQueue : Action C n := fun x => .ok { x with poppedForward := true }

def r_load_hit : Action C n := fun x => do
  let e ← valid x.block.entry
  return x.report (.readCallback .L1Cache e.dataBlk)

def rx_load_hit : Action C n := fun x => do
  let m ← valid x.response
  let e ← valid x.block.entry
  return x.report (.readCallback (getNondirectHitMachType m.sender) e.dataBlk)

/-- `writeCallback` replaces the entry's block by the stored value. -/
def s_store_hit : Action C n := fun x => do
  let e ← valid x.block.entry
  return (x.setEntry (some { e with dataBlk := x.stored })).report (.writeCallback .L1Cache x.stored)

def sx_store_hit : Action C n := fun x => do
  let m ← valid x.response
  let e ← valid x.block.entry
  return (x.setEntry (some { e with dataBlk := x.stored })).report
    (.writeCallback (getNondirectHitMachType m.sender) x.stored)

def u_writeDataToCache : Action C n := fun x => do
  let m ← valid x.response
  let e ← valid x.block.entry
  return x.setEntry (some { e with dataBlk := m.dataBlk })

def q_updateAckCount : Action C n := fun x => do
  let m ← valid x.response
  let t ← valid x.block.tbe
  return x.setTBE (some { t with pendingAcks := t.pendingAcks - m.ackCount })

def forward_eviction_to_cpu : Action C n := fun x =>
  if x.send_evictions then .ok (x.report .evictionCallback) else .ok x

def v_allocateTBE : Action C n := fun x => .ok (x.setTBE (some {}))

def w_deallocateTBE : Action C n := fun x => .ok (x.setTBE none)

def x_copyDataFromCacheToTBE : Action C n := fun x => do
  let e ← valid x.block.entry
  let t ← valid x.block.tbe
  return x.setTBE (some { t with dataBlk := e.dataBlk })

def z_stall : Action C n := fun _ => .error .stall

/-! ## Transitions -/

def transition : State → Event → Option (Row State (Ctx C n))
  -- I
  | .I, .Load | .I, .Ifetch =>
    some ⟨[i_allocateL1CacheBlock, v_allocateTBE, as_issueGetS, m_popMandatoryQueue], .IS_D⟩
  | .I, .Store =>
    some ⟨[i_allocateL1CacheBlock, v_allocateTBE, am_issueGetM, m_popMandatoryQueue], .IM_AD⟩
  -- IS_D
  | .IS_D, .Data_from_Dir_No_Acks | .IS_D, .Data_from_Owner =>
    some ⟨[u_writeDataToCache, rx_load_hit, w_deallocateTBE, n_popResponseQueue], .S⟩
  | .IS_D, .Load | .IS_D, .Ifetch | .IS_D, .Store | .IS_D, .Replacement | .IS_D, .Inv => some ⟨[z_stall], .IS_D⟩
  -- IM_AD
  | .IM_AD, .Data_from_Dir_No_Acks | .IM_AD, .Data_from_Owner =>
    some ⟨[u_writeDataToCache, sx_store_hit, w_deallocateTBE, n_popResponseQueue], .M⟩
  | .IM_AD, .Data_from_Dir_Ack_Cnt_Last =>
    some ⟨[q_updateAckCount, u_writeDataToCache, sx_store_hit, w_deallocateTBE, n_popResponseQueue], .M⟩
  | .IM_AD, .Data_from_Dir_Ack_Cnt => some ⟨[q_updateAckCount, u_writeDataToCache, n_popResponseQueue], .IM_A⟩
  | .IM_AD, .Inv_Ack => some ⟨[q_updateAckCount, n_popResponseQueue], .IM_AD⟩
  | .IM_AD, .Load | .IM_AD, .Ifetch | .IM_AD, .Store | .IM_AD, .Replacement | .IM_AD, .Fwd_GetS
  | .IM_AD, .Fwd_GetM => some ⟨[z_stall], .IM_AD⟩
  -- IM_A
  | .IM_A, .Inv_Ack_all => some ⟨[q_updateAckCount, sx_store_hit, w_deallocateTBE, n_popResponseQueue], .M⟩
  | .IM_A, .Inv_Ack => some ⟨[q_updateAckCount, n_popResponseQueue], .IM_A⟩
  | .IM_A, .Load | .IM_A, .Ifetch | .IM_A, .Store | .IM_A, .Replacement | .IM_A, .Fwd_GetS
  | .IM_A, .Fwd_GetM => some ⟨[z_stall], .IM_A⟩
  -- S
  | .S, .Load | .S, .Ifetch => some ⟨[r_load_hit, m_popMandatoryQueue], .S⟩
  | .S, .Store => some ⟨[v_allocateTBE, x_copyDataFromCacheToTBE, am_issueGetM, m_popMandatoryQueue], .SM_AD⟩
  | .S, .Replacement => some ⟨[bs_issuePUTS, v_allocateTBE], .SI_A⟩
  | .S, .Inv =>
    some ⟨[fi_sendInvAck, h_deallocateL1CacheBlock, forward_eviction_to_cpu, o_popForwardedRequestQueue], .I⟩
  -- SM_AD
  | .SM_AD, .Load | .SM_AD, .Ifetch => some ⟨[r_load_hit, m_popMandatoryQueue], .SM_AD⟩
  | .SM_AD, .Inv => some ⟨[fi_sendInvAck, o_popForwardedRequestQueue], .IM_AD⟩
  | .SM_AD, .Data_from_Dir_No_Acks =>
    some ⟨[u_writeDataToCache, sx_store_hit, w_deallocateTBE, n_popResponseQueue], .M⟩
  | .SM_AD, .Data_from_Dir_Ack_Cnt_Last =>
    some ⟨[q_updateAckCount, u_writeDataToCache, sx_store_hit, w_deallocateTBE, n_popResponseQueue], .M⟩
  | .SM_AD, .Inv_Ack => some ⟨[q_updateAckCount, n_popResponseQueue], .SM_AD⟩
  | .SM_AD, .Data_from_Dir_Ack_Cnt => some ⟨[q_updateAckCount, u_writeDataToCache, n_popResponseQueue], .SM_A⟩
  | .SM_AD, .Store | .SM_AD, .Replacement | .SM_AD, .Fwd_GetS | .SM_AD, .Fwd_GetM => some ⟨[z_stall], .SM_AD⟩
  -- SM_A
  | .SM_A, .Load | .SM_A, .Ifetch => some ⟨[r_load_hit, m_popMandatoryQueue], .SM_A⟩
  | .SM_A, .Inv_Ack_all => some ⟨[q_updateAckCount, sx_store_hit, w_deallocateTBE, n_popResponseQueue], .M⟩
  | .SM_A, .Inv_Ack => some ⟨[q_updateAckCount, n_popResponseQueue], .SM_A⟩
  | .SM_A, .Store | .SM_A, .Replacement | .SM_A, .Fwd_GetS | .SM_A, .Fwd_GetM => some ⟨[z_stall], .SM_A⟩
  -- M
  | .M, .Load | .M, .Ifetch => some ⟨[r_load_hit, m_popMandatoryQueue], .M⟩
  | .M, .Store => some ⟨[s_store_hit, m_popMandatoryQueue], .M⟩
  | .M, .Replacement => some ⟨[bm_issuePUTM, v_allocateTBE, x_copyDataFromCacheToTBE], .MI_A⟩
  | .M, .Fwd_GetS =>
    some ⟨[e_sendDataFromCacheToRequestor, de_sendDataFromCacheToDir, o_popForwardedRequestQueue], .S⟩
  | .M, .Fwd_GetM =>
    some ⟨[e_sendDataFromCacheToRequestor, h_deallocateL1CacheBlock, forward_eviction_to_cpu,
      o_popForwardedRequestQueue], .I⟩
  -- MI_A
  | .MI_A, .Fwd_GetS =>
    some ⟨[ee_sendDataFromTBEToRequestor, dee_sendDataFromTBEToDir, o_popForwardedRequestQueue], .SI_A⟩
  | .MI_A, .Fwd_GetM => some ⟨[ee_sendDataFromTBEToRequestor, o_popForwardedRequestQueue], .II_A⟩
  | .MI_A, .WB_Ack =>
    some ⟨[w_deallocateTBE, h_deallocateL1CacheBlock, forward_eviction_to_cpu, o_popForwardedRequestQueue], .I⟩
  | .MI_A, .Load | .MI_A, .Ifetch | .MI_A, .Store | .MI_A, .Replacement => some ⟨[z_stall], .MI_A⟩
  -- SI_A
  | .SI_A, .Inv => some ⟨[fi_sendInvAck, o_popForwardedRequestQueue], .II_A⟩
  | .SI_A, .WB_Ack =>
    some ⟨[w_deallocateTBE, h_deallocateL1CacheBlock, forward_eviction_to_cpu, o_popForwardedRequestQueue], .I⟩
  | .SI_A, .Load | .SI_A, .Ifetch | .SI_A, .Store | .SI_A, .Replacement => some ⟨[z_stall], .SI_A⟩
  -- II_A
  | .II_A, .WB_Ack =>
    some ⟨[w_deallocateTBE, h_deallocateL1CacheBlock, forward_eviction_to_cpu, o_popForwardedRequestQueue], .I⟩
  | .II_A, .Load | .II_A, .Ifetch | .II_A, .Store | .II_A, .Replacement => some ⟨[z_stall], .II_A⟩
  | _, _ => none

/-- `trigger(event, ..)` -/
def trigger (event : Event) (x : Ctx C n) : Except Stop (Ctx C n) :=
  doTransition transition (·.block.getState) (fun st x => .ok { x with block := x.block.setState st }) event x

/-! ## What each kind of input does -/

/-- A request of the core. `stored` is the value it would store. -/
def onMandatory (c : C) (b : Block n) (stored : DataBlock n) (r : RubyRequestType) : Except Stop (Ctx C n) :=
  trigger (mandatory_request_type_to_event r) { machineID := c, block := b, mandatory := some r, stored }

/-- The core needs the block's place for another block. -/
def onReplacement (c : C) (b : Block n) : Except Stop (Ctx C n) :=
  trigger .Replacement { machineID := c, block := b }

def onForward (c : C) (b : Block n) (m : RequestMsg C n) : Except Stop (Ctx C n) := do
  let event ← forwardRequestNetwork_in m
  trigger event { machineID := c, block := b, forward := some m }

def onResponse (c : C) (b : Block n) (stored : DataBlock n) (m : ResponseMsg C n) : Except Stop (Ctx C n) := do
  let event ← responseNetwork_in b.tbe m
  trigger event { machineID := c, block := b, response := some m, stored }

/-- A forward that is taken is an event, and a transition for it. -/
theorem onForward_ok {c : C} {b : Block n} {m : RequestMsg C n} {x : Ctx C n} (h : onForward c b m = .ok x) :
    ∃ event, forwardRequestNetwork_in m = .ok event ∧
      trigger event { machineID := c, block := b, forward := some m } = .ok x :=
  Outcome.bind_ok.1 h

theorem onResponse_ok {c : C} {b : Block n} {stored : DataBlock n} {m : ResponseMsg C n} {x : Ctx C n}
    (h : onResponse c b stored m = .ok x) :
    ∃ event, responseNetwork_in b.tbe m = .ok event ∧
      trigger event { machineID := c, block := b, response := some m, stored } = .ok x :=
  Outcome.bind_ok.1 h

end Msi.L1Cache
