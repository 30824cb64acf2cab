import CompArch.Msi.Refines
/-!
# What a transition takes, and when it stalls

A transition that completes pops the queue its event came from and no other.
One that stalls is a forward a cache cannot serve yet, an invalidation of a
copy that has not come, or a request for a block the directory is busy with.
-/

namespace Msi

open Slicc

variable {C : Type} {n : Nat}

/-! ## The caches -/

namespace L1Cache

/-- The event is a message in the forward queue. -/
def Event.forwarded : Event → Bool
  | .Fwd_GetS | .Fwd_GetM | .Inv | .WB_Ack => true
  | .Load | .Ifetch | .Store | .Replacement | .Inv_Ack | .Inv_Ack_all | .Data_from_Dir_No_Acks
  | .Data_from_Dir_Ack_Cnt | .Data_from_Dir_Ack_Cnt_Last | .Data_from_Owner => false

/-- The event is a response. -/
def Event.responded : Event → Bool
  | .Inv_Ack | .Inv_Ack_all | .Data_from_Dir_No_Acks | .Data_from_Dir_Ack_Cnt | .Data_from_Dir_Ack_Cnt_Last
  | .Data_from_Owner => true
  | .Load | .Ifetch | .Store | .Replacement | .Fwd_GetS | .Fwd_GetM | .Inv | .WB_Ack => false

/-- The transition leaves the message it looked at and popped its queue. -/
structure Pops (event : Event) (x x' : Ctx C n) : Prop where
  response : x'.response = x.response := by rfl
  forwarded : x'.poppedForward = event.forwarded := by rfl
  responded : x'.poppedResponse = event.responded := by rfl

theorem trigger_pops {st : State} {k : Int} {d d' : DataBlock n} {event : Event} {x x' : Ctx C n}
    (hb : x.block = blockOf st k d d') (hx : x.poppedForward = false ∧ x.poppedResponse = false)
    (h : trigger event x = .ok x') : Pops event x x' := by
  obtain ⟨c, b, mand, fwd, resp, stored, ev, reqs, resps, calls, pf, pr⟩ := x
  obtain ⟨rfl, rfl⟩ : pf = false ∧ pr = false := hx
  obtain rfl : b = blockOf st k d d' := hb
  cases st <;> cases event <;> try cases h
  -- what is left completes, if the message it looks at is there
  all_goals first
    | exact {}
    | (cases mand <;> cases h; exact {})
    | (cases fwd <;> cases h; exact {})
    | (cases resp <;> cases h; exact {})
    | (cases ev <;> cases h <;> exact {})
    | (cases fwd <;> cases ev <;> cases h <;> exact {})

theorem forwarded_of_port {m : RequestMsg C n} {event : Event} (h : forwardRequestNetwork_in m = .ok event) :
    event.forwarded = true ∧ event.responded = false := by
  obtain ⟨t, r, b⟩ := m
  cases t <;> cases h <;> exact ⟨rfl, rfl⟩

theorem responded_of_port {tbe : Option (TBE n)} {m : ResponseMsg C n} {event : Event}
    (h : responseNetwork_in tbe m = .ok event) : event.forwarded = false ∧ event.responded = true := by
  obtain ⟨t, r, b, k⟩ := m
  cases tbe with
  | none =>
    cases t <;> simp only [responseNetwork_in, getPendingAcks, valid] at h
    case DATA_FROM_DIR =>
      split at h
      · cases h; exact ⟨rfl, rfl⟩
      · cases h
    all_goals cases h <;> exact ⟨rfl, rfl⟩
  | some e =>
    cases t <;> simp only [responseNetwork_in, getPendingAcks, valid, Except.map] at h
    case DATA => cases h
    all_goals
      repeat' split at h
      all_goals
        cases h
        exact ⟨rfl, rfl⟩

theorem onMandatory_pops {c : C} {st : State} {k : Int} {d d' stored : DataBlock n} {r : RubyRequestType} {x : Ctx C n}
    (h : onMandatory c (blockOf st k d d') stored r = .ok x) : x.poppedForward = false ∧ x.poppedResponse = false := by
  obtain ⟨-, h1, h2⟩ := trigger_pops rfl ⟨rfl, rfl⟩ h
  cases r <;> exact ⟨h1, h2⟩

theorem onReplacement_pops {c : C} {st : State} {k : Int} {d d' : DataBlock n} {x : Ctx C n}
    (h : onReplacement c (blockOf st k d d') = .ok x) : x.poppedForward = false ∧ x.poppedResponse = false := by
  obtain ⟨-, h1, h2⟩ := trigger_pops rfl ⟨rfl, rfl⟩ h
  exact ⟨h1, h2⟩

theorem onForward_pops {c : C} {st : State} {k : Int} {d d' : DataBlock n} {m : RequestMsg C n} {x : Ctx C n}
    (h : onForward c (blockOf st k d d') m = .ok x) : x.poppedForward = true ∧ x.poppedResponse = false := by
  obtain ⟨event, he, h⟩ := onForward_ok h
  obtain ⟨-, h1, h2⟩ := trigger_pops rfl ⟨rfl, rfl⟩ h
  obtain ⟨h3, h4⟩ := forwarded_of_port he
  exact ⟨h1.trans h3, h2.trans h4⟩

theorem onResponse_pops {c : C} {st : State} {k : Int} {d d' stored : DataBlock n} {m : ResponseMsg C n} {x : Ctx C n}
    (h : onResponse c (blockOf st k d d') stored m = .ok x) :
    x.poppedForward = false ∧ x.poppedResponse = true ∧ x.response = some m := by
  obtain ⟨event, he, h⟩ := onResponse_ok h
  obtain ⟨h1, h2, h3⟩ := trigger_pops rfl ⟨rfl, rfl⟩ h
  obtain ⟨h4, h5⟩ := responded_of_port he
  exact ⟨h2.trans h4, h3.trans h5, h1⟩

/-- The states in which the cache has asked for the block to write to it. -/
def State.waits : State → Bool
  | .IM_AD | .IM_A | .SM_AD | .SM_A => true
  | .I | .S | .M | .IS_D | .MI_A | .SI_A | .II_A => false

/-- A forward that stalls. -/
theorem onForward_stall {c : C} {st : State} {k : Int} {d d' : DataBlock n} {m : RequestMsg C n}
    (h : onForward c (blockOf st k d d') m = .error .stall) :
    st = .IS_D ∧ m.type = .INV ∨ st.waits = true ∧ (m.type = .GETS ∨ m.type = .GETM) := by
  obtain ⟨t, r, b⟩ := m
  cases st <;> cases t <;> first
    | exact .inl ⟨rfl, rfl⟩
    | exact .inr ⟨rfl, .inl rfl⟩
    | exact .inr ⟨rfl, .inr rfl⟩
    | cases h

/-- Responses never stall. -/
theorem onResponse_not_stall {c : C} {st : State} {k : Int} {d d' stored : DataBlock n} {m : ResponseMsg C n} :
    onResponse c (blockOf st k d d') stored m ≠ .error .stall := by
  intro h
  unfold onResponse at h
  cases he : responseNetwork_in (blockOf st k d d').tbe m with
  | error e =>
    rw [he] at h
    cases h
    obtain ⟨t, r, b, k'⟩ := m
    cases st <;> cases t <;> simp [responseNetwork_in, getPendingAcks, valid, blockOf, Except.map] at he <;>
      (split at he <;> cases he)
  | ok event =>
    rw [he] at h
    have hev := (responded_of_port he).2
    cases st <;> cases event <;> first | (cases hev; done) | cases h

end L1Cache

/-! ## The directory -/

namespace Directory

section
variable [DecidableEq C]

/-- The queue an event comes from. -/
inductive Source
  | request
  | response
  | memory
  deriving DecidableEq

def Event.source : Event → Source
  | .GETM | .GETS | .PUTM_Owner | .PUTM_NotOwner | .PUTS_NotLast | .PUTS_Last => .request
  | .Memory_Data | .Memory_Ack => .memory
  | .Data => .response

/-- The transition leaves the messages it looked at and popped one queue. -/
structure Pops (event : Event) (x x' : Ctx C n) : Prop where
  response : x'.response = x.response := by rfl
  memory : x'.memory = x.memory := by rfl
  request_popped : x'.poppedRequest = decide (event.source = .request) := by rfl
  response_popped : x'.poppedResponse = decide (event.source = .response) := by rfl
  memory_popped : x'.poppedMemory = decide (event.source = .memory) := by rfl

theorem source_of_request {e : Entry C n} {m : RequestMsg C n} {event : Event}
    (h : requestQueue_in e m = .ok event) : event.source = .request := by
  obtain ⟨t, r, b⟩ := m
  cases t <;> simp only [requestQueue_in] at h
  case PUTS => split at h <;> cases h <;> rfl
  case PUTM => split at h <;> cases h <;> rfl
  all_goals cases h <;> rfl

omit [DecidableEq C] in
theorem source_of_response {m : ResponseMsg C n} {event : Event} (h : responseQueue_in m = .ok event) :
    event = .Data := by
  obtain ⟨t, r, b, k⟩ := m
  cases t <;> cases h
  rfl

omit [DecidableEq C] in
theorem source_of_memory {m : MemoryMsg C n} {event : Event} (h : memQueue_in m = .ok event) :
    event.source = .memory := by
  obtain ⟨t, r, b⟩ := m
  cases t <;> cases h <;> rfl

variable [Memory C n]

theorem trigger_ok {event : Event} {x x' : Ctx C n} (h : trigger event x = .ok x') :
    ∃ row y b, transition x.block.getState event = some row ∧ runActions row.actions x = .ok y ∧
      y.block.setState row.next = .ok b ∧ x' = { y with block := b } := by
  obtain ⟨row, y, hrow, hy, hs⟩ := doTransition_ok h
  cases hb : y.block.setState row.next with
  | error e => simp only [hb] at hs; cases hs
  | ok b =>
    simp only [hb] at hs
    cases hs
    exact ⟨row, y, b, hrow, hy, hb, rfl⟩

theorem trigger_pops {st : State} {d d' : DataBlock n} {sh ow : Finset (MachineID C)} {event : Event} {x x' : Ctx C n}
    (hb : x.block = blockOf st d d' sh ow)
    (hx : x.poppedRequest = false ∧ x.poppedResponse = false ∧ x.poppedMemory = false)
    (h : trigger event x = .ok x') : Pops event x x' := by
  obtain ⟨row, y, b', hrow, hy, -, rfl⟩ := trigger_ok h
  obtain ⟨b, req, resp, mem, fs, rs, ms, pq, pr, pm⟩ := x
  obtain ⟨rfl, rfl, rfl⟩ : pq = false ∧ pr = false ∧ pm = false := hx
  obtain rfl : b = blockOf st d d' sh ow := hb
  cases st <;> cases event <;> cases hrow <;> try cases hy
  all_goals first
    | exact {}
    | (cases req <;> cases hy; exact {})
    | (cases resp <;> cases hy; exact {})
    | (cases mem <;> cases hy; exact {})

/-- At most one message is forwarded: an acknowledgement, an invalidation for
the requestor, or the request itself, to the owner. -/
theorem trigger_forwards {st : State} {d d' : DataBlock n} {sh ow : Finset (MachineID C)} {event : Event}
    {x x' : Ctx C n} (hb : x.block = blockOf st d d' sh ow) (hx : x.forwards = []) (h : trigger event x = .ok x') :
    x'.forwards = [] ∨ ∃ f, x'.forwards = [f] ∧ (f.2.type = .WB_ACK ∨ ∃ m, x.request = some m ∧
      f.2.requestor = m.requestor ∧ (event = .GETS ∨ event = .GETM) ∧ (f.2.type = .INV ∨ st = .M ∧ f.1 = ow)) := by
  obtain ⟨row, y, b', hrow, hy, -, rfl⟩ := trigger_ok h
  obtain ⟨b, req, resp, mem, fs, rs, ms, pq, pr, pm⟩ := x
  obtain rfl : fs = [] := hx
  obtain rfl : b = blockOf st d d' sh ow := hb
  cases st <;> cases event <;> cases hrow <;> try cases hy
  all_goals first
    | exact .inl rfl
    | (cases req <;> cases hy; first
      | exact .inl rfl
      | exact .inr ⟨_, rfl, .inl rfl⟩
      | exact .inr ⟨_, rfl, .inr ⟨_, rfl, rfl, .inr rfl, .inl rfl⟩⟩
      | exact .inr ⟨_, rfl, .inr ⟨_, rfl, rfl, .inl rfl, .inr ⟨rfl, rfl⟩⟩⟩
      | exact .inr ⟨_, rfl, .inr ⟨_, rfl, rfl, .inr rfl, .inr ⟨rfl, rfl⟩⟩⟩)
    | (cases resp <;> cases hy; exact .inl rfl)
    | (cases mem <;> cases hy; first | exact .inl rfl | exact .inr ⟨_, rfl, .inl rfl⟩)

theorem onRequest_pops {st : State} {d d' : DataBlock n} {sh ow : Finset (MachineID C)} {m : RequestMsg C n}
    {x : Ctx C n} (h : onRequest (blockOf st d d' sh ow) m = .ok x) :
    x.poppedRequest = true ∧ x.poppedResponse = false ∧ x.poppedMemory = false := by
  obtain ⟨event, he, h⟩ := onRequest_ok h
  obtain ⟨-, -, h1, h2, h3⟩ := trigger_pops rfl ⟨rfl, rfl, rfl⟩ h
  rw [source_of_request he] at h1 h2 h3
  exact ⟨h1, h2, h3⟩

theorem onResponse_pops {st : State} {d d' : DataBlock n} {sh ow : Finset (MachineID C)} {m : ResponseMsg C n}
    {x : Ctx C n} (h : onResponse (blockOf st d d' sh ow) m = .ok x) :
    x.poppedRequest = false ∧ x.poppedResponse = true ∧ x.poppedMemory = false ∧ x.response = some m := by
  obtain ⟨event, he, h⟩ := onResponse_ok h
  obtain ⟨h0, -, h1, h2, h3⟩ := trigger_pops rfl ⟨rfl, rfl, rfl⟩ h
  rw [source_of_response he] at h1 h2 h3
  exact ⟨h1, h2, h3, h0⟩

theorem onMemory_pops {st : State} {d d' : DataBlock n} {sh ow : Finset (MachineID C)} {m : MemoryMsg C n}
    {x : Ctx C n} (h : onMemory (blockOf st d d' sh ow) m = .ok x) :
    x.poppedRequest = false ∧ x.poppedResponse = false ∧ x.poppedMemory = true ∧ x.memory = some m := by
  obtain ⟨event, he, h⟩ := onMemory_ok h
  obtain ⟨-, h0, h1, h2, h3⟩ := trigger_pops rfl ⟨rfl, rfl, rfl⟩ h
  rw [source_of_memory he] at h1 h2 h3
  exact ⟨h1, h2, h3, h0⟩

/-- What a request makes the directory forward. -/
theorem onRequest_forwards {st : State} {d d' : DataBlock n} {sh ow : Finset (MachineID C)} {m : RequestMsg C n}
    {x : Ctx C n} (h : onRequest (blockOf st d d' sh ow) m = .ok x) : x.forwards = [] ∨ ∃ f, x.forwards = [f] ∧
      (f.2.type = .WB_ACK ∨ f.2.requestor = m.requestor ∧ (m.type = .GETS ∨ m.type = .GETM) ∧
        (f.2.type = .INV ∨ st = .M ∧ f.1 = ow)) := by
  obtain ⟨event, he, h⟩ := onRequest_ok h
  rcases trigger_forwards rfl rfl h with hf | ⟨f, hf, hw | ⟨m', hm, hreq, hev, hd⟩⟩
  · exact .inl hf
  · exact .inr ⟨f, hf, .inl hw⟩
  · cases hm
    refine .inr ⟨f, hf, .inr ⟨hreq, ?_, hd⟩⟩
    obtain ⟨t, r, b⟩ := m
    cases t <;> simp only [requestQueue_in] at he
    case GETS => exact .inl rfl
    case GETM => exact .inr rfl
    case PUTS => split at he <;> cases he <;> rcases hev with hev | hev <;> cases hev
    case PUTM => split at he <;> cases he <;> rcases hev with hev | hev <;> cases hev
    all_goals cases he

/-- Data and memory make it forward acknowledgements only. -/
theorem onResponse_forwards {st : State} {d d' : DataBlock n} {sh ow : Finset (MachineID C)} {m : ResponseMsg C n}
    {x : Ctx C n} (h : onResponse (blockOf st d d' sh ow) m = .ok x) :
    x.forwards = [] ∨ ∃ f, x.forwards = [f] ∧ f.2.type = .WB_ACK := by
  obtain ⟨event, he, h⟩ := onResponse_ok h
  rcases trigger_forwards rfl rfl h with hf | ⟨f, hf, hw | ⟨m', hm, -⟩⟩
  · exact .inl hf
  · exact .inr ⟨f, hf, hw⟩
  · cases hm

theorem onMemory_forwards {st : State} {d d' : DataBlock n} {sh ow : Finset (MachineID C)} {m : MemoryMsg C n}
    {x : Ctx C n} (h : onMemory (blockOf st d d' sh ow) m = .ok x) :
    x.forwards = [] ∨ ∃ f, x.forwards = [f] ∧ f.2.type = .WB_ACK := by
  obtain ⟨event, he, h⟩ := onMemory_ok h
  rcases trigger_forwards rfl rfl h with hf | ⟨f, hf, hw | ⟨m', hm, -⟩⟩
  · exact .inl hf
  · exact .inr ⟨f, hf, hw⟩
  · cases hm

omit [DecidableEq C] in
theorem setState_not_stall {b : Block C n} {st : State} : b.setState st ≠ .error .stall := by
  intro h
  cases st <;> simp only [Block.setState, assert] at h <;> repeat' split at h
  all_goals cases h

theorem trigger_stall {event : Event} {x : Ctx C n} (h : trigger event x = .error .stall) :
    ∃ row, transition x.block.getState event = some row ∧ runActions row.actions x = .error .stall := by
  refine doTransition_stall (fun st y hs => ?_) h
  cases hb : y.block.setState st with
  | error e =>
    simp only [hb] at hs
    cases hs
    exact setState_not_stall hb
  | ok b => simp only [hb] at hs; cases hs

/-- The directory works on a request for the block. -/
def State.busy : State → Bool
  | .IS_D | .IM_D | .MI_A | .MS_D | .MS_A => true
  | .I | .M | .S => false

/-- A request that stalls. -/
theorem onRequest_stall {st : State} {d d' : DataBlock n} {sh ow : Finset (MachineID C)} {m : RequestMsg C n}
    (h : onRequest (blockOf st d d' sh ow) m = .error .stall) : st.busy = true := by
  unfold onRequest at h
  cases he : requestQueue_in (blockOf st d d' sh ow).entry m with
  | error e =>
    rw [he] at h
    cases h
    obtain ⟨t, r, b⟩ := m
    cases t <;> simp only [requestQueue_in] at he <;> try cases he
    all_goals split at he <;> cases he
  | ok event =>
    rw [he] at h
    obtain ⟨row, hrow, ha⟩ := trigger_stall h
    have hs := source_of_request he
    cases st <;> try rfl
    all_goals cases event <;> first | (cases hs; done) | (cases hrow; done) | (cases hrow; cases ha)

theorem onResponse_not_stall {st : State} {d d' : DataBlock n} {sh ow : Finset (MachineID C)} {m : ResponseMsg C n} :
    onResponse (blockOf st d d' sh ow) m ≠ .error .stall := by
  intro h
  obtain ⟨t, r, b, k⟩ := m
  cases t <;> cases st <;> cases h

theorem onMemory_not_stall {st : State} {d d' : DataBlock n} {sh ow : Finset (MachineID C)} {m : MemoryMsg C n} :
    onMemory (blockOf st d d' sh ow) m ≠ .error .stall := by
  intro h
  unfold onMemory at h
  cases he : memQueue_in m with
  | error e => obtain ⟨t, r, b⟩ := m; cases t <;> cases he
  | ok event =>
    rw [he] at h
    obtain ⟨row, hrow, ha⟩ := trigger_stall h
    have hs := source_of_memory he
    cases st <;> cases event <;> first | (cases hs; done) | (cases hrow; done) | (cases hrow; cases ha)

end

end Directory

end Msi
