import CompArch.Msi.Refines
/-!
# What the caches do

Every input of a cache either stalls or moves the cache to the phase that the
source's transition stands for. The contexts written out below are what the
action lists of `MSI-cache.sm` compute.
-/

namespace Msi

open Function Slicc L1Cache

variable {C : Type} {n : Nat}

/-! ## Messages -/

theorem RequestMsg.of_fwd_inv {m : RequestMsg C n} {d : C} (h : m.fwd = some (.inv d)) :
    m = { type := .INV, requestor := .L1Cache d, dataBlk := m.dataBlk } := by
  obtain ⟨t, r, b⟩ := m
  cases t <;> cases r <;> simp [RequestMsg.fwd] at h ⊢
  exact h

theorem RequestMsg.of_fwd_serve {m : RequestMsg C n} {z : Next C} (h : m.fwd = some (.serve z)) :
    (∃ r, z = .getS r ∧ m = ⟨.GETS, .L1Cache r, m.dataBlk⟩) ∨
      ∃ r, z = .getM r ∧ m = ⟨.GETM, .L1Cache r, m.dataBlk⟩ := by
  obtain ⟨t, r, b⟩ := m
  cases t <;> cases r <;> simp [RequestMsg.fwd] at h ⊢ <;> exact h.symm

theorem RequestMsg.type_of_fwd_wbAck {m : RequestMsg C n} (h : m.fwd = some .wbAck) : m.type = .WB_ACK := by
  obtain ⟨t, r, b⟩ := m
  cases t <;> cases r <;> simp [RequestMsg.fwd] at h ⊢

theorem ResponseMsg.of_resp_ack {m : ResponseMsg C n} (h : m.resp = some .ack) :
    m = ⟨.ACK, m.sender, m.dataBlk, 1⟩ := by
  obtain ⟨t, r, b, k⟩ := m
  cases t <;> simp [ResponseMsg.resp] at h ⊢
  exact h

theorem ResponseMsg.of_resp_owner {m : ResponseMsg C n} (h : m.resp = some .owner) : m.type = .DATA_FROM_OWNER := by
  cases ht : m.type <;> simp [ResponseMsg.resp, ht] at h ⊢

theorem ResponseMsg.of_resp_dir {m : ResponseMsg C n} {k : Int} (h : m.resp = some (.dir k)) :
    m.type = .DATA_FROM_DIR ∧ m.ackCount = k := by
  cases ht : m.type <;> simp [ResponseMsg.resp, ht] at h ⊢
  exact h

/-! ## One cache and its channels -/

section
variable [DecidableEq C] {c : C} {p q : Phase C} {f : Nat} {k k' : Int} {cur v : DataBlock n} {y : Node C n}
    {x : Ctx C n}

omit [DecidableEq C] in
/-- The head of the forward queue is the first thing the phase has waiting. -/
theorem NodeOk.head (h : NodeOk c p f k cur y) {m : RequestMsg C n} (hm : y.forwardToCache.head? = some m) :
    ∃ e l, p.forwards = e :: l ∧ m.fwd = some e := by
  have hf := h.forward
  cases hq : y.forwardToCache with
  | nil => simp [hq] at hm
  | cons m' q =>
    obtain rfl : m' = m := by simpa [hq] using hm
    cases hp : p.forwards with
    | nil => simp [hq, hp] at hf
    | cons e l =>
      rw [hq, hp, List.map_cons, List.map_cons] at hf
      exact ⟨e, l, rfl, (List.cons.inj hf).1⟩

/-- The core's request makes the cache send at most one request. -/
theorem NodeOk.ask (h : NodeOk c q f k cur y) (hx : x.poppedForward = false ∧ x.poppedResponse = false)
    (hb : ∃ d d', x.block = blockOf p.state k' d d' ∧ (p.copy = true → d = v) ∧ (p.supplies = true → d' = v))
    (hq : q.request = none)
    (hr : x.requests.map (fun m => (m.type, m.requestor)) = (p.request.map (·, .L1Cache c)).toList)
    (hw : p.owner = true → ∀ m ∈ x.requests, m.dataBlk = v) (hf : p.forwards = q.forwards) (hd : p.data = q.data)
    (hv : v = cur ∨ q.data = none) : NodeOk c p f k' v (y.after x) := by
  have he : y.requestFromCache = [] := by simpa [hq] using h.request
  refine ⟨hb, ?_, fun _ m hm ho => ?_, ?_, ?_, fun m hm hne => ?_⟩
  · simpa [Node.after, he] using hr
  · simp only [Node.after, he, List.nil_append] at hm
    exact hw ho m hm
  · simpa [Node.after, hx.1, hf] using h.forward
  · simpa [Node.after, hx.2, hd] using h.response
  · simp only [Node.after, hx.2, Bool.false_eq_true, if_false] at hm
    rcases hv with rfl | hn
    · exact h.copies m hm hne
    · exact absurd (h.only_acks hn m hm) hne

/-- The cache answers the head of its forward queue. -/
theorem NodeOk.answer (h : NodeOk c q f k cur y)
    (hx : x.poppedForward = true ∧ x.poppedResponse = false ∧ x.requests = [])
    (hb : ∃ d d', x.block = blockOf p.state k d d' ∧ (p.copy = true → d = cur) ∧ (p.supplies = true → d' = cur))
    (hr : p.request = q.request) (hw : p.owner = true → p.supplies = true → q.owner = true ∧ q.supplies = true)
    {e : Fwd C} (hf : q.forwards = e :: p.forwards) (hd : p.data = q.data) : NodeOk c p f k cur (y.after x) := by
  obtain ⟨hx, hx', hx''⟩ := hx
  refine ⟨hb, ?_, fun hs m hm ho => ?_, ?_, ?_, fun m hm hne => ?_⟩
  · simpa [Node.after, hx'', hr] using h.request
  · simp only [Node.after, hx'', List.append_nil] at hm
    obtain ⟨ho', hs'⟩ := hw ho hs
    exact h.written hs' m hm ho'
  · simp only [Node.after, hx, if_true, List.map_tail, h.forward, hf, List.map_cons, List.tail_cons]
  · simpa [Node.after, hx', hd] using h.response
  · simp only [Node.after, hx', Bool.false_eq_true, if_false] at hm
    exact h.copies m hm hne

/-- The cache takes a response. -/
theorem NodeOk.take (h : NodeOk c q f k cur y) {m : ResponseMsg C n} (hm : m ∈ y.responseToCache)
    (hx : x.poppedForward = false ∧ x.poppedResponse = true ∧ x.response = some m ∧ x.requests = [])
    (hb : ∃ d d', x.block = blockOf p.state k' d d' ∧ (p.copy = true → d = v) ∧ (p.supplies = true → d' = v))
    (hr : q.request = none ∧ p.request = none) (hf : p.forwards = q.forwards) {f' : Nat}
    (hd : m.resp = some .ack ∧ f = f' + 1 ∧ p.data = q.data ∨ m.resp = q.data ∧ f = f' ∧ p.data = none)
    (hv : v = cur ∨ p.data = none) : NodeOk c p f' k' v (y.after x) := by
  obtain ⟨hx, hx', hx'', hx'''⟩ := hx
  have he : y.requestFromCache = [] := by simpa [hr.1] using h.request
  have hrest : (y.after x).responseToCache = y.responseToCache.erase m := by simp [Node.after, hx', hx'']
  have hresp : (y.responseToCache.erase m).map ResponseMsg.resp =
      Multiset.replicate f' (some .ack) + p.data.elim 0 ({some ·}) := by
    rw [Multiset.map_erase_of_mem _ _ hm, h.response]
    rcases hd with ⟨ha, rfl, hd⟩ | ⟨ha, rfl, hd⟩
    · rw [ha, hd, Multiset.replicate_succ, Multiset.cons_add, Multiset.erase_cons_head]
    · rw [ha, hd]
      cases hq : q.data with
      | none =>
        have := Multiset.mem_map_of_mem ResponseMsg.resp hm
        rw [h.response, ha, hq] at this
        simp [Multiset.mem_replicate] at this
      | some e =>
        rw [Option.elim_some, Multiset.add_comm, Multiset.singleton_add, Multiset.erase_cons_head]
        simp
  refine ⟨hb, ?_, fun _ m' hm' _ => ?_, ?_, ?_, fun m' hm' hne => ?_⟩
  · simp [Node.after, he, hx''', hr.2]
  · simp [Node.after, he, hx'''] at hm'
  · simpa [Node.after, hx, hf] using h.forward
  · rw [hrest, hresp]
  · rw [hrest] at hm'
    rcases hv with rfl | hn
    · exact h.copies m' (Multiset.mem_of_mem_erase hm') hne
    · exact absurd (only_acks_of (f := f') (by rw [hresp, hn]; simp) m' hm') hne

omit [DecidableEq C] in
/-- An acknowledgement is sent to the cache. -/
theorem NodeOk.addAck (h : NodeOk c p f k cur y) {m : ResponseMsg C n} (hm : m.resp = some .ack) :
    NodeOk c p (f + 1) k cur { y with responseToCache := m ::ₘ y.responseToCache } := by
  refine ⟨h.cache, h.request, h.written, h.forward, ?_, fun m' hm' hne => ?_⟩
  · rw [Multiset.map_cons, h.response, hm, Multiset.replicate_succ, Multiset.cons_add]
  · rcases Multiset.mem_cons.1 hm' with rfl | hm'
    · exact absurd (only_acks_of (f := 1) (by simp [hm]) m' (Multiset.mem_singleton_self m')) hne
    · exact h.copies m' hm' hne

omit [DecidableEq C] in
/-- Data is sent to the cache. -/
theorem NodeOk.addData (h : NodeOk c q f k cur y) {m : ResponseMsg C n} (hm : m.resp = p.data) (hd : m.dataBlk = cur)
    (hq : q.data = none ∧ p.data ≠ none) (hst : p.state = q.state)
    (hr : p.request = q.request ∧ p.forwards = q.forwards)
    (hc : (p.copy = true → q.copy = true) ∧ p.supplies = false) :
    NodeOk c p f k cur { y with responseToCache := m ::ₘ y.responseToCache } := by
  obtain ⟨d, d', hb, hd', -⟩ := h.cache
  refine ⟨⟨d, d', by rw [hst]; exact hb, fun hp => hd' (hc.1 hp), by simp [hc.2]⟩, by rw [hr.1]; exact h.request,
    by simp [hc.2], by rw [hr.2]; exact h.forward, ?_, fun m' hm' hne => ?_⟩
  · rw [Multiset.map_cons, h.response, hm, hq.1]
    cases hp : p.data with
    | none => exact absurd hp hq.2
    | some e => rw [Option.elim_none, add_zero, Option.elim_some, Multiset.add_comm, Multiset.singleton_add]
  · rcases Multiset.mem_cons.1 hm' with rfl | hm'
    · exact hd
    · exact h.copies m' hm' hne

end

/-- A load hits wherever the phase promises a readable copy. -/
theorem L1Cache.load_hits {p : Phase C} (hp : p.reads = true) (c : C) (k : Int) (d d' stored : DataBlock n)
    {r : RubyRequestType}
    (hr : mandatory_request_type_to_event r = .Load ∨ mandatory_request_type_to_event r = .Ifetch) :
    onMandatory c (blockOf p.state k d d') stored r = .ok {
      machineID := c, block := blockOf p.state k d d', mandatory := some r, stored
      callbacks := [.readCallback .L1Cache d, .popMandatory r] } := by
  have hr' : r = .LD ∨ r = .IFETCH := by cases r <;> simp [mandatory_request_type_to_event] at hr ⊢
  cases p with
  | excl g x => cases g <;> first | (rcases hr' with rfl | rfl <;> rfl) | cases hp
  | shared i => rcases hr' with rfl | rfl <;> rfl
  | upgrade i => rcases hr' with rfl | rfl <;> rfl
  | _ => cases hp

/-- The transition an acknowledgement triggers while the cache has `k` more to come than it has taken. -/
theorem L1Cache.onResponse_ack {st : State} (hst : st = .IM_AD ∨ st = .SM_AD ∨ st = .IM_A ∨ st = .SM_A) (c : C)
    {k : Int}
    (hk : k - 1 ≠ 0) (b b' stored blk : DataBlock n) (r : MachineID C) :
    onResponse c (blockOf st k b b') stored ⟨.ACK, r, blk, 1⟩ = .ok {
      machineID := c, block := blockOf st (k - 1) b b', response := some ⟨.ACK, r, blk, 1⟩, stored
      poppedResponse := true } := by
  have he : responseNetwork_in (blockOf st k b b').tbe (⟨.ACK, r, blk, 1⟩ : ResponseMsg C n) = .ok .Inv_Ack := by
    rcases hst with rfl | rfl | rfl | rfl <;> simp [responseNetwork_in, getPendingAcks, blockOf, valid, Except.map, hk]
  rw [onResponse, he]
  rcases hst with rfl | rfl | rfl | rfl <;> rfl

/-- The last acknowledgement completes the store. -/
theorem L1Cache.onResponse_ack_all {st : State} (hst : st = .IM_A ∨ st = .SM_A) (c : C) {k : Int} (hk : k - 1 = 0)
    (b b' stored blk : DataBlock n) (r : MachineID C) :
    onResponse c (blockOf st k b b') stored ⟨.ACK, r, blk, 1⟩ = .ok {
      machineID := c, block := blockOf .M (k - 1) stored b', response := some ⟨.ACK, r, blk, 1⟩, stored
      callbacks := [.writeCallback (getNondirectHitMachType r) stored], poppedResponse := true } := by
  have he : responseNetwork_in (blockOf st k b b').tbe (⟨.ACK, r, blk, 1⟩ : ResponseMsg C n) = .ok .Inv_Ack_all := by
    rcases hst with rfl | rfl <;> simp [responseNetwork_in, getPendingAcks, blockOf, valid, Except.map, hk]
  rw [onResponse, he]
  rcases hst with rfl | rfl <;> rfl

/-- Data that completes a store: nothing to collect, or everything collected. -/
theorem L1Cache.onResponse_data {st : State} {m : ResponseMsg C n} {k : Int}
    (h : st = .IM_AD ∧ m.type = .DATA_FROM_OWNER ∨ (st = .IM_AD ∨ st = .SM_AD) ∧ m.type = .DATA_FROM_DIR ∧
      (m.ackCount = 0 ∨ k - m.ackCount = 0)) (c : C) (b b' stored : DataBlock n) :
    ∃ k', onResponse c (blockOf st k b b') stored m = .ok {
      machineID := c, block := blockOf .M k' stored b', response := some m, stored
      callbacks := [.writeCallback (getNondirectHitMachType m.sender) stored], poppedResponse := true } := by
  obtain ⟨t, r, blk, j⟩ := m
  rcases h with ⟨rfl, h⟩ | ⟨hst, h, hk⟩
  · obtain rfl : t = .DATA_FROM_OWNER := h
    exact ⟨k, rfl⟩
  · obtain rfl : t = .DATA_FROM_DIR := h
    by_cases hj : j = 0
    · subst hj
      rcases hst with rfl | rfl <;> exact ⟨k, rfl⟩
    · have he : responseNetwork_in (blockOf st k b b').tbe (⟨.DATA_FROM_DIR, r, blk, j⟩ : ResponseMsg C n) =
          .ok .Data_from_Dir_Ack_Cnt_Last := by
        have hk' : k - j = 0 := hk.resolve_left hj
        rcases hst with rfl | rfl <;> simp [responseNetwork_in, getPendingAcks, blockOf, valid, Except.map, hk', hj]
      refine ⟨k - j, ?_⟩
      rw [onResponse, he]
      rcases hst with rfl | rfl <;> rfl

/-- Data with acknowledgements still to come. -/
theorem L1Cache.onResponse_data_wait {st st' : State} (hst : st = .IM_AD ∧ st' = .IM_A ∨ st = .SM_AD ∧ st' = .SM_A)
    {m : ResponseMsg C n} (hm : m.type = .DATA_FROM_DIR) {k : Int} (hj : m.ackCount ≠ 0) (hk : k - m.ackCount ≠ 0)
    (c : C)
    (b b' stored : DataBlock n) :
    onResponse c (blockOf st k b b') stored m = .ok {
      machineID := c, block := blockOf st' (k - m.ackCount) m.dataBlk b', response := some m, stored
      poppedResponse := true } := by
  obtain ⟨t, r, blk, j⟩ := m
  obtain rfl : t = .DATA_FROM_DIR := hm
  have he : responseNetwork_in (blockOf st k b b').tbe (⟨.DATA_FROM_DIR, r, blk, j⟩ : ResponseMsg C n) =
      .ok .Data_from_Dir_Ack_Cnt := by
    rcases hst with ⟨rfl, rfl⟩ | ⟨rfl, rfl⟩ <;>
      simp [responseNetwork_in, getPendingAcks, blockOf, valid, Except.map, hj, hk]
  rw [onResponse, he]
  rcases hst with ⟨rfl, rfl⟩ | ⟨rfl, rfl⟩ <;> rfl

/-- Data for a load. -/
theorem L1Cache.onResponse_data_load {m : ResponseMsg C n}
    (hm : m.type = .DATA_FROM_OWNER ∨ m.type = .DATA_FROM_DIR ∧ m.ackCount = 0) (c : C) (k : Int)
    (b b' stored : DataBlock n) :
    onResponse c (blockOf .IS_D k b b') stored m = .ok {
      machineID := c, block := blockOf .S k m.dataBlk b', response := some m, stored
      callbacks := [.readCallback (getNondirectHitMachType m.sender) m.dataBlk], poppedResponse := true } := by
  obtain ⟨t, r, blk, j⟩ := m
  rcases hm with h | ⟨h, hj⟩
  · obtain rfl : t = .DATA_FROM_OWNER := h
    rfl
  · obtain rfl : t = .DATA_FROM_DIR := h
    obtain rfl : j = 0 := hj
    rfl

/-! ## Steps of the whole system -/

section
variable [Fintype C] [DecidableEq C] {s : Sys C n} {a : Abs C} {cur v : DataBlock n} {c : C} {x : Ctx C n}

theorem Safe.cache {e : Except Stop (Ctx C n)} (he : e = .ok x)
    (h : Good (s.afterCache c x) (lastValue cur (x.callbacks.map (c, ·))) ∧ LoadsOk cur (x.callbacks.map (c, ·))) :
    Safe cur (s.fromCache c e) := by
  subst he
  exact h

theorem Safe.stalled {e : Except Stop (Ctx C n)} (he : e = .error .stall) :
    Safe cur (s.fromCache c e) := by
  subst he
  rfl

/-- A transition that sends no response. -/
theorem Repr.quiet (h : Repr s a cur) (hx : x.responses = []) {p : Phase C} {f : Nat} {k : Int}
    (hi : Abs.Inv ⟨update a.ph c p, a.dir, update a.inFlight c f, update a.pending c k⟩)
    (hy : NodeOk c p f k cur ((s.node c).after x)) (hs : p.sharer = (a.ph c).sharer) : Good (s.afterCache c x) cur := by
  simp only [Sys.afterCache, hx, List.foldl_nil]
  exact ⟨_, hi, h.update_node (by simpa using hy) (by simpa using hs) (fun d hd => by simp [hd]) rfl⟩

/-- The same, when `c` completes a store of `v`. -/
theorem Repr.quiet_store (h : Repr s a cur) (hx : x.responses = []) {z : Option (Next C)} {f : Nat} {k : Int}
    (hi : Abs.Inv ⟨update a.ph c (.excl .done z), a.dir, update a.inFlight c f, update a.pending c k⟩)
    (hy : NodeOk c (.excl .done z) f k v ((s.node c).after x))
    (hs : (Phase.excl .done z).sharer = (a.ph c).sharer) : Good (s.afterCache c x) v := by
  simp only [Sys.afterCache, hx, List.foldl_nil]
  exact ⟨_, hi, h.update_node_store (update_self ..) (by simpa using hy) (by simpa using hs)
    (fun d hd => by simp [hd]) rfl hi⟩

/-! ## Requests of the core -/

theorem Repr.load_hit (h : Repr s a cur) (hI : a.Inv) (hp : (a.ph c).reads = true) (stored : DataBlock n)
    {r : RubyRequestType}
    (hr : mandatory_request_type_to_event r = .Load ∨ mandatory_request_type_to_event r = .Ifetch) :
    Safe cur (s.fromCache c (onMandatory c (s.node c).cache stored r)) := by
  obtain ⟨d, d', hb, hd, hd'⟩ := (h.node c).cache
  have he := load_hits hp c (a.pending c) d d' stored hr
  rw [← hb] at he
  refine Safe.cache he ⟨?_, hd (Phase.copy_of_reads hp), trivial⟩
  refine h.quiet rfl (p := a.ph c) (f := a.inFlight c) (k := a.pending c) (by simpa using hI) ?_ rfl
  simpa [Node.after] using h.node c

/-- A miss allocates the block and sends `t`. -/
theorem Repr.miss (h : Repr s a cur) (hI : a.Inv) (hp : a.ph c = .idle) {stored : DataBlock n} {r : RubyRequestType}
    {t : CoherenceRequestType} {p : Phase C} (hx : (t = .GETS ∧ p = .getS) ∨ (t = .GETM ∧ p = .getM))
    (he : onMandatory c (s.node c).cache stored r = .ok {
      machineID := c, block := blockOf p.state 0 default default, mandatory := some r, stored
      requests := [{ type := t, requestor := .L1Cache c }], callbacks := [.popMandatory r] }) :
    Safe cur (s.fromCache c (onMandatory c (s.node c).cache stored r)) := by
  have hy := h.node c
  have hk := hI.acks c
  rw [hp] at hy hk
  refine Safe.cache he ⟨h.quiet rfl (p := p) (f := a.inFlight c) (k := 0) ?_ ?_ ?_, trivial⟩
  · rw [update_eq_self]
    rcases hx with ⟨-, rfl⟩ | ⟨-, rfl⟩
    · exact hI.move_own (by rw [hp]; exact {}) (by rw [hp]; rfl) hk
    · exact hI.move_own (by rw [hp]; exact {}) (by rw [hp]; rfl) ⟨hk, rfl⟩
  · rcases hx with ⟨rfl, rfl⟩ | ⟨rfl, rfl⟩ <;>
      exact hy.ask ⟨rfl, rfl⟩ ⟨_, _, rfl, nofun, nofun⟩ rfl rfl nofun rfl rfl (.inl rfl)
  · rcases hx with ⟨-, rfl⟩ | ⟨-, rfl⟩ <;> rw [hp] <;> rfl

/-- A store to a shared block asks for it. -/
theorem Repr.upgrade (h : Repr s a cur) (hI : a.Inv) {i : Option C} (hp : a.ph c = .shared i) {stored : DataBlock n}
    {r : RubyRequestType} (hr : mandatory_request_type_to_event r = .Store) :
    Safe cur (s.fromCache c (onMandatory c (s.node c).cache stored r)) := by
  have hy := h.node c
  have hk := hI.acks c
  rw [hp] at hy hk
  obtain ⟨d, d', hb, hd, -⟩ := hy.cache
  have he : onMandatory c (s.node c).cache stored r = .ok {
      machineID := c, block := blockOf .SM_AD 0 d d, mandatory := some r, stored
      requests := [{ type := .GETM, requestor := .L1Cache c }], callbacks := [.popMandatory r] } := by
    rw [hb]
    cases r <;> first | rfl | cases hr
  refine Safe.cache he ⟨h.quiet rfl (p := .upgrade i) (f := a.inFlight c) (k := 0) ?_ ?_ ?_, trivial⟩
  · rw [update_eq_self]
    exact hI.move_own (by rw [hp]; cases i <;> exact {}) (by rw [hp]; rfl) ⟨hk, rfl⟩
  · exact hy.ask ⟨rfl, rfl⟩ ⟨_, _, rfl, fun _ => hd rfl, by rintro ⟨⟩⟩ rfl rfl (by rintro ⟨⟩) rfl rfl (.inl rfl)
  · rw [hp]
    cases i <;> rfl

theorem Repr.store_hit (h : Repr s a cur) (hI : a.Inv) {z : Option (Next C)} (hp : a.ph c = .excl .done z)
    {stored : DataBlock n} {r : RubyRequestType} (hr : mandatory_request_type_to_event r = .Store) :
    Safe cur (s.fromCache c (onMandatory c (s.node c).cache stored r)) := by
  have hy := h.node c
  rw [hp] at hy
  obtain ⟨d, d', hb, -, -⟩ := hy.cache
  have he : onMandatory c (s.node c).cache stored r = .ok {
      machineID := c, block := blockOf .M (a.pending c) stored d', mandatory := some r, stored
      callbacks := [.writeCallback .L1Cache stored, .popMandatory r] } := by
    rw [hb]
    cases r <;> first | rfl | cases hr
  refine Safe.cache he ⟨h.quiet_store rfl (z := z) (f := a.inFlight c) (k := a.pending c) ?_ ?_ ?_, trivial⟩
  · rw [← hp]
    simpa using hI
  · exact hy.ask ⟨rfl, rfl⟩ ⟨stored, d', rfl, fun _ => rfl, by rintro ⟨⟩⟩ rfl rfl (by rintro - - ⟨⟩) rfl rfl (.inr rfl)
  · rw [hp]

theorem Repr.mandatory (h : Repr s a cur) (hI : a.Inv) (stored : DataBlock n) (r : RubyRequestType) :
    Safe cur (s.fromCache c (onMandatory c (s.node c).cache stored r)) := by
  by_cases hl : (a.ph c).reads = true ∧ mandatory_request_type_to_event r ≠ .Store
  · exact h.load_hit hI hl.1 stored (by cases r <;> simp [mandatory_request_type_to_event] at hl ⊢)
  obtain ⟨d, d', hb, -, -⟩ := (h.node c).cache
  cases hp : a.ph c with
  | idle =>
    rw [hp] at hb
    cases r with
    | LD => exact h.miss hI hp (.inl ⟨rfl, rfl⟩) (by rw [hb]; rfl)
    | IFETCH => exact h.miss hI hp (.inl ⟨rfl, rfl⟩) (by rw [hb]; rfl)
    | ST => exact h.miss hI hp (.inr ⟨rfl, rfl⟩) (by rw [hb]; rfl)
    | ATOMIC => exact h.miss hI hp (.inr ⟨rfl, rfl⟩) (by rw [hb]; rfl)
  | shared i => exact h.upgrade hI hp (by simpa [hp, Phase.reads] using hl)
  | excl g z =>
    cases g with
    | done => exact h.store_hit hI hp (by simpa [hp, Phase.reads] using hl)
    | memory | forwarded e | fromOwner | fromDir k | acks => exact Safe.stalled (by rw [hb, hp]; cases r <;> rfl)
    | forwardedS e i | fromDirS k | acksS =>
      have hr : mandatory_request_type_to_event r = .Store := by simpa [hp, Phase.reads] using hl
      exact Safe.stalled (by rw [hb, hp]; cases r <;> first | rfl | cases hr)
  | upgrade i =>
    have hr : mandatory_request_type_to_event r = .Store := by simpa [hp, Phase.reads] using hl
    exact Safe.stalled (by rw [hb, hp]; cases r <;> first | rfl | cases hr)
  | getS | getSMem | getSFwd e | getSData b i | getM | evictM z | evictMem | evictMAck z | evictS b i | evictSAck i
  | evictI b | evictIAck => exact Safe.stalled (by rw [hb, hp]; cases r <;> rfl)

/-! ## Replacements -/

theorem Repr.replacement (h : Repr s a cur) (hI : a.Inv) (hv : (s.node c).cache.entry.isSome = true) :
    Safe cur (s.fromCache c (onReplacement c (s.node c).cache)) := by
  have hy := h.node c
  have hk := hI.acks c
  obtain ⟨d, d', hb, hd, -⟩ := hy.cache
  cases hp : a.ph c with
  | idle => simp [hb, hp, Phase.state, blockOf] at hv
  | shared i =>
    rw [hp] at hy hk hb hd
    have he : onReplacement c (s.node c).cache = .ok {
        machineID := c, block := blockOf .SI_A 0 d default
        requests := [{ type := .PUTS, requestor := .L1Cache c, dataBlk := d }] } := by rw [hb]; rfl
    refine Safe.cache he ⟨h.quiet rfl (p := .evictS false i) (f := a.inFlight c) (k := 0) ?_ ?_ ?_, trivial⟩
    · rw [update_eq_self]
      exact hI.move_own (by rw [hp]; cases i <;> exact {}) (by rw [hp]; rfl) hk
    · exact hy.ask ⟨rfl, rfl⟩ ⟨d, default, rfl, nofun, nofun⟩ rfl rfl nofun rfl rfl (.inl rfl)
    · rw [hp]
      cases i <;> rfl
  | excl g z =>
    cases g with
    | done =>
      rw [hp] at hy hk hb hd
      have he : onReplacement c (s.node c).cache = .ok {
          machineID := c, block := blockOf .MI_A 0 d d
          requests := [{ type := .PUTM, requestor := .L1Cache c, dataBlk := d }] } := by rw [hb]; rfl
      refine Safe.cache he ⟨h.quiet rfl (p := .evictM z) (f := a.inFlight c) (k := 0) ?_ ?_ ?_, trivial⟩
      · rw [update_eq_self]
        exact hI.move_own (by rw [hp]; rcases z with _ | _ | _ <;> exact {}) (by rw [hp]; rfl) hk
      · exact hy.ask ⟨rfl, rfl⟩ ⟨d, d, rfl, nofun, fun _ => hd rfl⟩ rfl rfl
          (fun _ m hm => by rw [List.mem_singleton.1 hm]; exact hd rfl) rfl rfl (.inl rfl)
      · rw [hp]
        rcases z with _ | _ | _ <;> rfl
    | memory | forwarded e | forwardedS e i | fromOwner | fromDir k | fromDirS k | acks | acksS =>
      exact Safe.stalled (by rw [hb, hp]; rfl)
  | getS | getSMem | getSFwd e | getSData b i | getM | upgrade i | evictM z | evictMem | evictMAck z | evictS b i
  | evictSAck i | evictI b | evictIAck => exact Safe.stalled (by rw [hb, hp]; rfl)

/-! ## Forwards -/

/-- An invalidation is acknowledged to its requestor. -/
theorem Repr.acked (h : Repr s a cur) (hI : a.Inv) {d : C} (hd : (a.ph c).inv = some d)
    (hx : x.responses = [(.L1Cache d, { type := .ACK, sender := .L1Cache c, ackCount := 1 })]) {p : Phase C}
    (hm : (a.ph c).Moves p) (hp : p.inv = none) (hk : Abs.acksOk (a.outstanding c) (a.pending c) p)
    (hy : NodeOk c p (a.inFlight c) (a.pending c) cur ((s.node c).after x)) (hs : p.sharer = (a.ph c).sharer) :
    Good (s.afterCache c x) cur := by
  have hne : d ≠ c := by
    rintro rfl
    have := (hI.holds_of_waits (Abs.waits_of_inv hd)).2.2.2
    simp [hd] at this
  have hr : Repr { s with node := update s.node c ((s.node c).after x) }
      ⟨update a.ph c p, a.dir, a.inFlight, a.pending⟩ cur :=
    h.update_node (by simpa using hy) (by simpa using hs) (fun e he => by simp [he]) rfl
  refine ⟨_, hI.move_inv hm hd hp hk, ?_⟩
  simp only [Sys.afterCache, hx, List.foldl_cons, List.foldl_nil]
  refine hr.update_node ?_ rfl (fun e he => by simp [he]) rfl
  have hn := (hr.node d).addAck (m := { type := .ACK, sender := .L1Cache c, ackCount := 1 }) rfl
  simpa using hn

/-- What every state that takes an invalidation does with it, up to the callback. -/
theorem Repr.answer_inv (h : Repr s a cur) (hI : a.Inv) {d : C} (hd : (a.ph c).inv = some d) {blk : DataBlock n}
    (callbacks : List (Callback n)) (hc : callbacks = [] ∨ callbacks = [.evictionCallback]) (p : Phase C)
    (he : ∀ b b', onForward c (blockOf (a.ph c).state (a.pending c) b b') ⟨.INV, .L1Cache d, blk⟩ = .ok {
      machineID := c, block := blockOf p.state (a.pending c) b b', forward := some ⟨.INV, .L1Cache d, blk⟩
      responses := [(.L1Cache d, { type := .ACK, sender := .L1Cache c, ackCount := 1 })]
      callbacks, poppedForward := true })
    (hm : (a.ph c).Moves p) (hs : p.sharer = (a.ph c).sharer) (hk : Abs.acksOk (a.outstanding c) (a.pending c) p)
    (hq : p.request = (a.ph c).request ∧ (a.ph c).forwards = .inv d :: p.forwards ∧ p.data = (a.ph c).data)
    (hz : p.inv = none ∧ p.copy = false ∧ p.supplies = false) :
    Safe cur (s.fromCache c (onForward c (s.node c).cache ⟨.INV, .L1Cache d, blk⟩)) := by
  have hy := h.node c
  obtain ⟨b, b', hb, -, -⟩ := hy.cache
  rw [hb]
  have hy' := hy.answer (p := p) (x := {
      machineID := c, block := blockOf p.state (a.pending c) b b', forward := some ⟨.INV, .L1Cache d, blk⟩
      responses := [(.L1Cache d, { type := .ACK, sender := .L1Cache c, ackCount := 1 })]
      callbacks, poppedForward := true })
    ⟨rfl, rfl, rfl⟩ ⟨b, b', rfl, by simp [hz.2.1], by simp [hz.2.2]⟩ hq.1 (by simp [hz.2.2]) hq.2.1 hq.2.2
  have hgood := h.acked hI hd rfl hm hz.1 hk hy' hs
  refine Safe.cache (he b b') ?_
  rcases hc with rfl | rfl <;> exact ⟨hgood, trivial⟩

theorem Repr.forward_inv (h : Repr s a cur) (hI : a.Inv) {d : C} (hd : (a.ph c).inv = some d) {m : RequestMsg C n}
    (hm : m.fwd = some (.inv d)) :
    Safe cur (s.fromCache c (onForward c (s.node c).cache m)) := by
  rw [RequestMsg.of_fwd_inv hm]
  have hk := hI.acks c
  cases hp : a.ph c with
  | getSData g i =>
    obtain ⟨b, b', hb, -, -⟩ := (h.node c).cache
    exact Safe.stalled (by rw [hb, hp]; rfl)
  | shared i =>
    obtain rfl : i = some d := by rw [hp] at hd; exact hd
    exact h.answer_inv hI hd [.evictionCallback] (.inr rfl) .idle (fun _ _ => by rw [hp]; rfl) (by rw [hp]; exact {})
      (by rw [hp]; rfl) (by rwa [hp] at hk) (by rw [hp]; exact ⟨rfl, rfl, rfl⟩) ⟨rfl, rfl, rfl⟩
  | upgrade i =>
    obtain rfl : i = some d := by rw [hp] at hd; exact hd
    exact h.answer_inv hI hd [] (.inl rfl) .getM (fun _ _ => by rw [hp]; rfl) (by rw [hp]; exact {})
      (by rw [hp]; rfl) (by rwa [hp] at hk) (by rw [hp]; exact ⟨rfl, rfl, rfl⟩) ⟨rfl, rfl, rfl⟩
  | excl g z =>
    cases g with
    | forwardedS e i =>
      obtain rfl : i = d := by rw [hp] at hd; exact Option.some.inj hd
      exact h.answer_inv hI hd [] (.inl rfl) (.excl (.forwarded e) z) (fun _ _ => by rw [hp]; rfl)
        (by rw [hp]; rcases z with _ | _ | _ <;> exact {}) (by rw [hp]; rcases z with _ | _ | _ <;> rfl)
        (by rwa [hp] at hk) (by rw [hp]; exact ⟨rfl, rfl, rfl⟩) ⟨rfl, rfl, rfl⟩
    | memory | forwarded e | fromOwner | fromDir k | fromDirS k | acks | acksS | done => simp [hp, Phase.inv] at hd
  | evictS g i =>
    obtain rfl : i = some d := by rw [hp] at hd; exact hd
    exact h.answer_inv hI hd [] (.inl rfl) (.evictI g) (fun _ _ => by rw [hp]; rfl) (by rw [hp]; exact {})
      (by rw [hp]; rfl) (by rwa [hp] at hk) (by rw [hp]; cases g <;> exact ⟨rfl, rfl, rfl⟩) ⟨rfl, rfl, rfl⟩
  | evictSAck i =>
    obtain rfl : i = some d := by rw [hp] at hd; exact hd
    exact h.answer_inv hI hd [] (.inl rfl) .evictIAck (fun _ _ => by rw [hp]; rfl) (by rw [hp]; exact {})
      (by rw [hp]; rfl) (by rwa [hp] at hk) (by rw [hp]; exact ⟨rfl, rfl, rfl⟩) ⟨rfl, rfl, rfl⟩
  | idle | getS | getSMem | getSFwd e | getM | evictM z | evictMem | evictMAck z | evictI g | evictIAck =>
    simp [hp, Phase.inv] at hd

omit [Fintype C] in
/-- The old owner's data is on its way to the directory. -/
theorem Repr.reply (h : Repr s a cur) {e : C} (hd : a.dir = .MS_D e) :
    Repr (s.respond (.Directory, { type := .DATA, sender := .L1Cache e, dataBlk := cur }))
      ⟨a.ph, .MS_D_data e, a.inFlight, a.pending⟩ cur := by
  obtain ⟨⟨d, d', hb, -⟩, hr, hw, hm, hf⟩ := hd ▸ h.home
  refine ⟨h.node, ⟨⟨d, d', hb, nofun⟩, ?_, fun m hm' => ?_, hm, hf⟩, h.sharers⟩
  · have : s.responseToDir = 0 := by simpa [DirPhase.reply] using hr
    simp [Sys.respond, this, DirPhase.reply]
  · rcases Multiset.mem_cons.1 hm' with rfl | hm'
    · rfl
    · exact hw m hm'

omit [Fintype C] in
/-- One cache answers, and what it sends reaches another. -/
theorem Repr.passed (h : Repr s a cur) {r : C} (hne : r ≠ c) {p q : Phase C} {y z : Node C n}
    (hy : NodeOk c p (a.inFlight c) (a.pending c) cur y) (hz : NodeOk r q (a.inFlight r) (a.pending r) cur z)
    (hp : p.sharer = (a.ph c).sharer) (hq : q.sharer = (a.ph r).sharer) :
    Repr { s with node := update (update s.node c y) r z }
      ⟨update (update a.ph c p) r q, a.dir, a.inFlight, a.pending⟩ cur := by
  have h1 : Repr { s with node := update s.node c y } ⟨update a.ph c p, a.dir, a.inFlight, a.pending⟩ cur :=
    h.update_node (by simpa using hy) (by simpa using hp) (fun e he => by simp [he]) rfl
  exact h1.update_node (by simpa using hz) (by simpa [hne] using hq) (fun e he => by simp [he]) rfl

/-- The cache passes the block on for reading. -/
theorem Repr.serveS (h : Repr s a cur) (hI : a.Inv) {r : C} (hr : (a.ph c).next = some (.getS r))
    {blk b : DataBlock n} (b' : DataBlock n) {p : Phase C} (hx : x = {
      machineID := c, block := blockOf p.state (a.pending c) b b', forward := some ⟨.GETS, .L1Cache r, blk⟩
      responses := [(.L1Cache r, { type := .DATA_FROM_OWNER, sender := .L1Cache c, dataBlk := cur }),
        (.Directory, { type := .DATA, sender := .L1Cache c, dataBlk := cur })]
      poppedForward := true })
    (he : onForward c (s.node c).cache ⟨.GETS, .L1Cache r, blk⟩ = .ok x)
    (hb : p.copy = true → b = cur) (hs : p.supplies = false) (hp : (a.ph c).Serves p)
    (hq : p.request = (a.ph c).request ∧ (a.ph c).forwards = .serve (.getS r) :: p.forwards ∧ p.data = (a.ph c).data)
    (hsh : p.sharer = (a.ph c).sharer) (hk : Abs.acksOk (a.outstanding c) (a.pending c) p) :
    Safe cur (s.fromCache c (onForward c (s.node c).cache ⟨.GETS, .L1Cache r, blk⟩)) := by
  obtain ⟨hd, hrp, hne, hI'⟩ := hI.serveS hr hp hk
  have hy : NodeOk c p (a.inFlight c) (a.pending c) cur ((s.node c).after x) :=
    (h.node c).answer (by rw [hx]; exact ⟨rfl, rfl, rfl⟩) ⟨b, b', by rw [hx], hb, by simp [hs]⟩ hq.1 (by simp [hs])
      hq.2.1 hq.2.2
  have hn := h.node r
  rw [hrp] at hn
  have hz := hn.addData (p := .getSData false none) (m := ⟨.DATA_FROM_OWNER, .L1Cache c, cur, 0⟩)
    rfl rfl ⟨rfl, nofun⟩ rfl ⟨rfl, rfl⟩ ⟨nofun, rfl⟩
  have h2 := h.passed hne hy hz hsh (by rw [hrp]; rfl)
  have hgood : Good (s.afterCache c x) cur := by
    refine ⟨_, hI', ?_⟩
    rw [Sys.afterCache, show x.responses = _ from congrArg Ctx.responses hx]
    simpa [Sys.respond, hne] using h2.reply hd
  refine Safe.cache he ?_
  subst hx
  exact ⟨hgood, trivial⟩

/-- The cache passes the block on for writing. -/
theorem Repr.serveM (h : Repr s a cur) (hI : a.Inv) {r : C} (hr : (a.ph c).next = some (.getM r))
    {blk b : DataBlock n} (b' : DataBlock n) {p : Phase C} {callbacks : List (Callback n)}
    (hc : callbacks = [] ∨ callbacks = [.evictionCallback]) (hx : x = {
      machineID := c, block := blockOf p.state (a.pending c) b b', forward := some ⟨.GETM, .L1Cache r, blk⟩
      responses := [(.L1Cache r, { type := .DATA_FROM_OWNER, sender := .L1Cache c, dataBlk := cur })]
      callbacks, poppedForward := true })
    (he : onForward c (s.node c).cache ⟨.GETM, .L1Cache r, blk⟩ = .ok x)
    (hb : p.copy = false) (hs : p.supplies = false) (hp : (a.ph c).Serves p)
    (hq : p.request = (a.ph c).request ∧ (a.ph c).forwards = .serve (.getM r) :: p.forwards ∧ p.data = (a.ph c).data)
    (hsh : p.sharer = (a.ph c).sharer) (hk : Abs.acksOk (a.outstanding c) (a.pending c) p) (hz : a.outstanding c = 0) :
    Safe cur (s.fromCache c (onForward c (s.node c).cache ⟨.GETM, .L1Cache r, blk⟩)) := by
  obtain ⟨z, hrp, hne, hI'⟩ := hI.serveM hr hp hk hz
  have hy : NodeOk c p (a.inFlight c) (a.pending c) cur ((s.node c).after x) :=
    (h.node c).answer (by rw [hx]; exact ⟨rfl, rfl, rfl⟩) ⟨b, b', by rw [hx], by simp [hb], by simp [hs]⟩ hq.1
      (by simp [hs]) hq.2.1 hq.2.2
  have hn := h.node r
  rw [hrp] at hn
  have hz' := hn.addData (p := .excl .fromOwner z) (m := ⟨.DATA_FROM_OWNER, .L1Cache c, cur, 0⟩)
    rfl rfl ⟨rfl, nofun⟩ rfl ⟨rfl, rfl⟩ ⟨nofun, rfl⟩
  have h2 := h.passed hne hy hz' hsh (by rw [hrp]; exact (Phase.links_excl .fromOwner (.forwarded c) z).2.2)
  have hgood : Good (s.afterCache c x) cur := by
    refine ⟨_, hI', ?_⟩
    rw [Sys.afterCache, show x.responses = _ from congrArg Ctx.responses hx]
    simpa [Sys.respond, hne] using h2
  refine Safe.cache he ?_
  subst hx
  rcases hc with rfl | rfl <;> exact ⟨hgood, trivial⟩

theorem Repr.forward_serve (h : Repr s a cur) (hI : a.Inv) {z : Next C} (hi : (a.ph c).inv = none)
    (hz : (a.ph c).next = some z) {m : RequestMsg C n} (hm : m.fwd = some (.serve z)) :
    Safe cur (s.fromCache c (onForward c (s.node c).cache m)) := by
  have hk := hI.acks c
  obtain ⟨b, b', hb, hr, hs⟩ := (h.node c).cache
  cases hp : a.ph c with
  | excl g w =>
    obtain rfl : w = some z := by rw [hp] at hz; exact hz
    cases g with
    | done =>
      rw [hp] at hb hr hk
      obtain rfl := hr rfl
      rcases RequestMsg.of_fwd_serve hm with ⟨r, rfl, hm'⟩ | ⟨r, rfl, hm'⟩ <;> rw [hm']
      · exact h.serveS hI hz b' (p := .shared none) rfl (by rw [hb]; rfl) (fun _ => rfl) rfl
          (by rw [hp]; exact {}) (by rw [hp]; exact ⟨rfl, rfl, rfl⟩) (by rw [hp]; rfl) hk
      · exact h.serveM hI hz b' (b := b) (p := .idle) (.inr rfl) rfl (by rw [hb]; rfl) rfl rfl
          (by rw [hp]; exact {}) (by rw [hp]; exact ⟨rfl, rfl, rfl⟩) (by rw [hp]; rfl) hk hk
    | memory | forwarded e | fromOwner | fromDir j | fromDirS j | acks | acksS =>
      rcases RequestMsg.of_fwd_serve hm with ⟨r, -, hm⟩ | ⟨r, -, hm⟩ <;>
        exact Safe.stalled (by rw [hb, hp, hm]; rfl)
    | forwardedS e d => simp [hp, Phase.inv] at hi
  | evictM w =>
    obtain rfl : w = some z := by rw [hp] at hz; exact hz
    rw [hp] at hb hs hk
    obtain rfl := hs rfl
    rcases RequestMsg.of_fwd_serve hm with ⟨r, rfl, hm'⟩ | ⟨r, rfl, hm'⟩ <;> rw [hm']
    · exact h.serveS hI hz b' (p := .evictS true none) rfl (by rw [hb]; rfl) nofun rfl
        (by rw [hp]; exact {}) (by rw [hp]; exact ⟨rfl, rfl, rfl⟩) (by rw [hp]; rfl) hk
    · exact h.serveM hI hz b' (p := .evictI true) (.inl rfl) rfl (by rw [hb]; rfl) rfl rfl
        (by rw [hp]; exact {}) (by rw [hp]; exact ⟨rfl, rfl, rfl⟩) (by rw [hp]; rfl) hk hk
  | evictMAck w =>
    obtain rfl : w = some z := by rw [hp] at hz; exact hz
    rw [hp] at hb hs hk
    obtain rfl := hs rfl
    rcases RequestMsg.of_fwd_serve hm with ⟨r, rfl, hm'⟩ | ⟨r, rfl, hm'⟩ <;> rw [hm']
    · exact h.serveS hI hz b' (p := .evictSAck none) rfl (by rw [hb]; rfl) nofun rfl
        (by rw [hp]; exact {}) (by rw [hp]; exact ⟨rfl, rfl, rfl⟩) (by rw [hp]; rfl) hk
    · exact h.serveM hI hz b' (p := .evictIAck) (.inl rfl) rfl (by rw [hb]; rfl) rfl rfl
        (by rw [hp]; exact {}) (by rw [hp]; exact ⟨rfl, rfl, rfl⟩) (by rw [hp]; rfl) hk hk
  | _ => simp [hp, Phase.next] at hz

theorem Repr.forward_wbAck (h : Repr s a cur) (hI : a.Inv) (hi : (a.ph c).inv = none) (hn : (a.ph c).next = none)
    (hw : (a.ph c).wbAcked = true) {m : RequestMsg C n} (hm : m.type = .WB_ACK) :
    Safe cur (s.fromCache c (onForward c (s.node c).cache m)) := by
  have hy := h.node c
  have hk := hI.acks c
  obtain ⟨b, b', hb, -, -⟩ := hy.cache
  obtain ⟨t, r, blk⟩ := m
  obtain rfl : t = .WB_ACK := hm
  have hp : a.ph c = .evictMAck none ∨ a.ph c = .evictSAck none ∨ a.ph c = .evictIAck := by
    cases hp : a.ph c <;> simp [hp, Phase.wbAcked, Phase.inv, Phase.next] at hw hi hn ⊢ <;> assumption
  have he : onForward c (s.node c).cache ⟨.WB_ACK, r, blk⟩ = .ok {
      machineID := c, block := blockOf .I (a.pending c) b b', forward := some ⟨.WB_ACK, r, blk⟩
      callbacks := [.evictionCallback], poppedForward := true } := by
    rcases hp with hp | hp | hp <;> rw [hb, hp] <;> rfl
  refine Safe.cache he ⟨h.quiet rfl (p := .idle) (f := a.inFlight c) (k := a.pending c) ?_ ?_ ?_, trivial⟩
  · simp only [update_eq_self]
    rcases hp with hp | hp | hp <;> rw [hp] at hk <;>
      exact hI.move_keep (by rw [hp]; exact {}) (by rw [hp]; rfl) hk
  · rcases hp with hp | hp | hp <;> rw [hp] at hy <;>
      exact hy.answer ⟨rfl, rfl, rfl⟩ ⟨b, b', rfl, by rintro ⟨⟩, by rintro ⟨⟩⟩ rfl (by rintro ⟨⟩) rfl rfl
  · rcases hp with hp | hp | hp <;> rw [hp] <;> rfl

theorem Repr.forward (h : Repr s a cur) (hI : a.Inv) {m : RequestMsg C n}
    (hm : (s.node c).forwardToCache.head? = some m) :
    Safe cur (s.fromCache c (onForward c (s.node c).cache m)) := by
  obtain ⟨e, l, hl, he⟩ := (h.node c).head hm
  have hc := Phase.forwards_cons hl
  cases e with
  | inv d => exact h.forward_inv hI hc he
  | serve z => exact h.forward_serve hI hc.1 hc.2 he
  | wbAck => exact h.forward_wbAck hI hc.1 hc.2.1 hc.2.2 (RequestMsg.type_of_fwd_wbAck he)

/-! ## Responses -/

/-- A response, with what it leaves in the channel: `f` acknowledgements, and
the data if it was not the data itself. -/
def Takes (a : Abs C) (c : C) (m : ResponseMsg C n) (p : Phase C) (f : Nat) : Prop :=
  m.resp = some .ack ∧ a.inFlight c = f + 1 ∧ p.data = (a.ph c).data ∨
    m.resp = (a.ph c).data ∧ a.inFlight c = f ∧ p.data = none

/-- The response a cache waits for completes its store. -/
theorem Repr.complete (h : Repr s a cur) {g : Grant C} {z : Option (Next C)} (hp : a.ph c = .excl g z)
    (hg : g.coming = true) {m : ResponseMsg C n} (hm : m ∈ (s.node c).responseToCache) {stored : DataBlock n}
    (b' : DataBlock n) {k : Int} (mach : GenericMachineType) (hx : x = {
      machineID := c, block := blockOf .M k stored b', response := some m, stored
      callbacks := [.writeCallback mach stored], poppedResponse := true })
    (he : onResponse c (s.node c).cache stored m = .ok x) {f : Nat} (hd : Takes a c m (.excl .done z) f)
    (hi : Abs.Inv ⟨update a.ph c (.excl .done z), a.dir, update a.inFlight c f, update a.pending c k⟩) :
    Safe cur (s.fromCache c (onResponse c (s.node c).cache stored m)) := by
  obtain ⟨-, hi1, hi2⟩ := Phase.moves_coming hg (rfl : (Grant.done : Grant C).coming = true) z
  have hy : NodeOk c (.excl .done z) f k stored ((s.node c).after x) :=
    (h.node c).take hm (by rw [hx]; exact ⟨rfl, rfl, rfl, rfl⟩)
      ⟨stored, b', by rw [hx]; rfl, fun _ => rfl, by simp [Phase.supplies]⟩
      (by rw [hp]; exact ⟨rfl, rfl⟩) (by rw [hp, Phase.forwards, Phase.forwards, hi1, hi2]; rfl) hd (.inr rfl)
  have hgood : Good (s.afterCache c x) stored := h.quiet_store (by rw [hx]) hi hy
    (by rw [hp]; exact (Phase.links_excl .done g z).2.2)
  refine Safe.cache he ?_
  subst hx
  exact ⟨hgood, trivial⟩

/-- A response that leaves the cache waiting. -/
theorem Repr.wait (h : Repr s a cur) {g g' : Grant C} {z : Option (Next C)} (hp : a.ph c = .excl g z)
    (hg : g.coming = true) (hg' : g'.coming = true) {m : ResponseMsg C n} (hm : m ∈ (s.node c).responseToCache)
    {stored b : DataBlock n} (b' : DataBlock n) {k : Int} (hx : x = {
      machineID := c, block := blockOf (Phase.excl g' z).state k b b', response := some m, stored
      poppedResponse := true })
    (he : onResponse c (s.node c).cache stored m = .ok x) (hb : (Phase.excl g' z).copy = true → b = cur) {f : Nat}
    (hd : Takes a c m (.excl g' z) f)
    (hi : Abs.Inv ⟨update a.ph c (.excl g' z), a.dir, update a.inFlight c f, update a.pending c k⟩) :
    Safe cur (s.fromCache c (onResponse c (s.node c).cache stored m)) := by
  obtain ⟨-, hi1, hi2⟩ := Phase.moves_coming hg hg' z
  have hy : NodeOk c (.excl g' z) f k cur ((s.node c).after x) :=
    (h.node c).take hm (by rw [hx]; exact ⟨rfl, rfl, rfl, rfl⟩) ⟨b, b', by rw [hx], hb, by simp [Phase.supplies]⟩
      (by rw [hp]; exact ⟨rfl, rfl⟩) (by rw [hp, Phase.forwards, Phase.forwards, hi1, hi2]; rfl) hd (.inl rfl)
  have hgood : Good (s.afterCache c x) cur := h.quiet (by rw [hx]) hi hy
    (by rw [hp]; exact (Phase.links_excl g' g z).2.2)
  refine Safe.cache he ?_
  subst hx
  exact ⟨hgood, trivial⟩

theorem Repr.response_ack (h : Repr s a cur) (hI : a.Inv) {m : ResponseMsg C n} (hm : m ∈ (s.node c).responseToCache)
    (hr : m.resp = some .ack) {f : Nat} (hf : a.inFlight c = f + 1) (stored : DataBlock n) :
    Safe cur (s.fromCache c (onResponse c (s.node c).cache stored m)) := by
  have hk := hI.acks c
  obtain ⟨b, b', hb, hrd, -⟩ := (h.node c).cache
  have hpos : 0 < a.outstanding c := by
    simp only [Abs.outstanding]
    omega
  have hmm := ResponseMsg.of_resp_ack hr
  cases hp : a.ph c with
  | excl g z =>
    rw [hp] at hb hrd hk
    have hstay : g.coming = true → a.pending c - 1 ≠ 0 →
        Abs.acksOk (a.outstanding c - 1) (a.pending c - 1) (.excl g z) →
        ((Phase.excl g z).state = .IM_AD ∨ (Phase.excl g z).state = .SM_AD ∨ (Phase.excl g z).state = .IM_A ∨
          (Phase.excl g z).state = .SM_A) →
        Safe cur (s.fromCache c (onResponse c (s.node c).cache stored m)) := by
      intro hg hne hok hst
      obtain ⟨hmv, hi, -⟩ := Phase.moves_coming hg hg z
      refine h.wait (k := a.pending c - 1) hp hg hg hm b' rfl ?_ hrd (.inl ⟨hr, hf, by rw [hp]⟩) ?_
      · rw [hb, hmm]
        exact onResponse_ack hst c hne b b' stored m.dataBlk m.sender
      · exact hI.move_ack (by rw [hp]; exact hmv) (by rw [hp]) hf hok
    have hlast : g = .acks ∨ g = .acksS → a.pending c - 1 = 0 →
        Safe cur (s.fromCache c (onResponse c (s.node c).cache stored m)) := by
      intro hg hz
      have hgc : g.coming = true := by rcases hg with rfl | rfl <;> rfl
      obtain ⟨hmv, hi, hi'⟩ := Phase.moves_coming hgc (rfl : (Grant.done : Grant C).coming = true) z
      refine h.complete (k := a.pending c - 1) hp hgc hm b' (getNondirectHitMachType m.sender) rfl ?_
        (.inl ⟨hr, hf, by rw [hp]; rcases hg with rfl | rfl <;> rfl⟩) ?_
      · rw [hb, hmm]
        rcases hg with rfl | rfl
        · exact onResponse_ack_all (.inl rfl) c hz b b' stored m.dataBlk m.sender
        · exact onResponse_ack_all (.inr rfl) c hz b b' stored m.dataBlk m.sender
      · refine hI.move_ack (by rw [hp]; exact hmv) (by rw [hp, hi]; exact hi') hf ?_
        rcases hg with rfl | rfl <;> simp only [Abs.acksOk] at hk ⊢ <;> omega
    cases g with
    | fromDir j =>
      simp only [Abs.acksOk] at hk
      exact hstay rfl (by omega) ⟨by omega, by omega⟩ (.inl rfl)
    | fromDirS j =>
      simp only [Abs.acksOk] at hk
      exact hstay rfl (by omega) ⟨by omega, by omega⟩ (.inr (.inl rfl))
    | acks =>
      by_cases hz : a.pending c - 1 = 0
      · exact hlast (.inl rfl) hz
      · simp only [Abs.acksOk] at hk
        exact hstay rfl hz ⟨by omega, by omega⟩ (.inr (.inr (.inl rfl)))
    | acksS =>
      by_cases hz : a.pending c - 1 = 0
      · exact hlast (.inr rfl) hz
      · simp only [Abs.acksOk] at hk
        exact hstay rfl hz ⟨by omega, by omega⟩ (.inr (.inr (.inr rfl)))
    | memory | forwarded e | forwardedS e d | fromOwner | done => simp [Abs.acksOk] at hk; omega
  | _ => rw [hp] at hk; simp [Abs.acksOk] at hk; omega

theorem Repr.response_load (h : Repr s a cur) (hI : a.Inv) {g : Bool} {i : Option C} (hp : a.ph c = .getSData g i)
    {m : ResponseMsg C n} (hm : m ∈ (s.node c).responseToCache) (hr : m.resp = (a.ph c).data) (stored : DataBlock n) :
    Safe cur (s.fromCache c (onResponse c (s.node c).cache stored m)) := by
  have hy := h.node c
  have hk := hI.acks c
  have hr' := hr
  rw [hp] at hy hk hr'
  obtain ⟨b, b', hb, -, -⟩ := hy.cache
  have hty : m.type = .DATA_FROM_OWNER ∨ m.type = .DATA_FROM_DIR ∧ m.ackCount = 0 := by
    cases g with
    | false => exact .inl (ResponseMsg.of_resp_owner hr')
    | true => exact .inr (ResponseMsg.of_resp_dir hr')
  have hcur : m.dataBlk = cur := hy.copies m hm (by rcases hty with h | ⟨h, -⟩ <;> rw [h] <;> rintro ⟨⟩)
  have he := onResponse_data_load hty c (a.pending c) b b' stored
  rw [show blockOf .IS_D (a.pending c) b b' = (s.node c).cache from hb.symm] at he
  refine Safe.cache he ⟨h.quiet rfl (p := .shared i) (f := a.inFlight c) (k := a.pending c) ?_ ?_ ?_, hcur, trivial⟩
  · simp only [update_eq_self]
    exact hI.move_keep (by rw [hp]; cases i <;> exact {}) (by rw [hp]; rfl) hk
  · exact hy.take (p := .shared i) hm ⟨rfl, rfl, rfl, rfl⟩ ⟨m.dataBlk, b', rfl, fun _ => hcur, by rintro ⟨⟩⟩ ⟨rfl, rfl⟩
      rfl (.inr ⟨hr', rfl, rfl⟩) (.inl rfl)
  · rw [hp]
    cases i <;> rfl

theorem Repr.response_store (h : Repr s a cur) (hI : a.Inv) {g : Grant C} {z : Option (Next C)}
    (hp : a.ph c = .excl g z)
    {m : ResponseMsg C n} (hm : m ∈ (s.node c).responseToCache) (hr : m.resp = (a.ph c).data)
    (hd : (a.ph c).data ≠ none)
    (stored : DataBlock n) :
    Safe cur (s.fromCache c (onResponse c (s.node c).cache stored m)) := by
  have hk := hI.acks c
  obtain ⟨b, b', hb, -, -⟩ := (h.node c).cache
  have hcop := (h.node c).copies m hm
  have hg : g.coming = true := by cases g <;> simp [hp, Phase.data] at hd <;> rfl
  obtain ⟨hmv, hi1, hi2⟩ := Phase.moves_coming hg (rfl : (Grant.done : Grant C).coming = true) z
  rw [hp] at hb hk
  -- the store completes once nothing is outstanding
  have hlast : (∃ k', onResponse c (blockOf (Phase.excl g z).state (a.pending c) b b') stored m = .ok {
        machineID := c, block := blockOf .M k' stored b', response := some m, stored
        callbacks := [.writeCallback (getNondirectHitMachType m.sender) stored], poppedResponse := true }) →
      a.outstanding c = 0 →
      Safe cur (s.fromCache c (onResponse c (s.node c).cache stored m)) := by
    rintro ⟨k', he⟩ hz
    refine h.complete (k := k') hp hg hm b' (getNondirectHitMachType m.sender) rfl (by rw [hb]; exact he)
      (.inr ⟨hr, rfl, rfl⟩) ?_
    rw [update_eq_self]
    exact hI.move_own (by rw [hp]; exact hmv) (by rw [hp, hi1, hi2]) hz
  -- otherwise it waits, with a readable copy if it had one
  have hwait : ∀ (g' : Grant C), (g' = .acks ∧ (Phase.excl g z).state = .IM_AD ∨
        g' = .acksS ∧ (Phase.excl g z).state = .SM_AD) → m.type = .DATA_FROM_DIR → m.ackCount ≠ 0 →
      a.pending c - m.ackCount ≠ 0 → Abs.acksOk (a.outstanding c) (a.pending c - m.ackCount) (.excl g' z) →
      Safe cur (s.fromCache c (onResponse c (s.node c).cache stored m)) := by
    intro g' hst ht hj hne hok
    have hg' : g'.coming = true := by rcases hst with ⟨rfl, -⟩ | ⟨rfl, -⟩ <;> rfl
    obtain ⟨hmv, hi1, hi2⟩ := Phase.moves_coming hg hg' z
    refine h.wait (k := a.pending c - m.ackCount) hp hg hg' hm b' rfl ?_ (fun _ => hcop (by rw [ht]; rintro ⟨⟩))
      (.inr ⟨hr, rfl, by rcases hst with ⟨rfl, -⟩ | ⟨rfl, -⟩ <;> rfl⟩) ?_
    · rw [hb]
      refine onResponse_data_wait ?_ ht hj hne c b b' stored
      rcases hst with ⟨rfl, hs⟩ | ⟨rfl, hs⟩
      · exact .inl ⟨hs, rfl⟩
      · exact .inr ⟨hs, rfl⟩
    · rw [update_eq_self]
      exact hI.move_own (by rw [hp]; exact hmv) (by rw [hp, hi1, hi2]) hok
  cases g with
  | fromOwner =>
    have ht := ResponseMsg.of_resp_owner (m := m) (by rw [hr, hp]; rfl)
    exact hlast (onResponse_data (.inl ⟨rfl, ht⟩) c b b' stored) hk.1
  | fromDir j =>
    obtain ⟨ht, hj⟩ := ResponseMsg.of_resp_dir (m := m) (k := -j) (by rw [hr, hp]; rfl)
    simp only [Abs.acksOk] at hk
    by_cases hz : a.outstanding c = 0
    · exact hlast (onResponse_data (.inr ⟨.inl rfl, ht, .inr (by omega)⟩) c b b' stored) hz
    · exact hwait .acks (.inl ⟨rfl, rfl⟩) ht (by omega) (by omega) ⟨by omega, by omega⟩
  | fromDirS j =>
    obtain ⟨ht, hj⟩ := ResponseMsg.of_resp_dir (m := m) (k := -j) (by rw [hr, hp]; rfl)
    simp only [Abs.acksOk] at hk
    by_cases hz : a.outstanding c = 0
    · exact hlast (onResponse_data (.inr ⟨.inr rfl, ht, .inr (by omega)⟩) c b b' stored) hz
    · exact hwait .acksS (.inr ⟨rfl, rfl⟩) ht (by omega) (by omega) ⟨by omega, by omega⟩
  | memory | forwarded e | forwardedS e d | acks | acksS | done => cases hg <;> simp [hp, Phase.data] at hd

theorem Repr.response (h : Repr s a cur) (hI : a.Inv) {m : ResponseMsg C n} (hm : m ∈ (s.node c).responseToCache)
    (stored : DataBlock n) :
    Safe cur (s.fromCache c (onResponse c (s.node c).cache stored m)) := by
  have hmem := Multiset.mem_map_of_mem ResponseMsg.resp hm
  rw [(h.node c).response, Multiset.mem_add, Multiset.mem_replicate] at hmem
  rcases hmem with ⟨hf, hr⟩ | hr
  · obtain ⟨f, hf⟩ := Nat.exists_eq_succ_of_ne_zero hf
    exact h.response_ack hI hm hr hf stored
  · have hd : m.resp = (a.ph c).data ∧ (a.ph c).data ≠ none := by
      cases hq : (a.ph c).data with
      | none => simp [hq] at hr
      | some e => exact ⟨by simpa [hq] using hr, nofun⟩
    cases hp : a.ph c with
    | getSData g i => exact h.response_load hI hp hm hd.1 stored
    | excl g z => exact h.response_store hI hp hm hd.1 hd.2 stored
    | _ => simp [hp, Phase.data] at hd

end
end Msi
