import CompArch.Msi.Evictions
import CompArch.Msi.Ports
import Mathlib.Algebra.BigOperators.Group.Finset.Piecewise
import Mathlib.Algebra.GroupWithZero.Nat
/-!
# Accounting for invalidations

When the directory takes a GETM in `S` it sends invalidations, and data that says
how many. `tally` counts along a run what becomes of them for each requestor, until
its next miss for writing. The invalidations still in the forward queues, the
acknowledgements in flight and those taken always add up to what was sent.
-/

namespace Msi

open Function Slicc Lts

variable {C : Type} {n : Nat}

/-! ## What is counted -/

/-- The cache has the block for writing and has freed its TBE. -/
def L1Cache.Block.inM (b : L1Cache.Block n) : Bool := b.getState = .M ∧ b.tbe = none

/-- What a step is to the accounting of a cache's GETM. -/
inductive AckEvent
  /-- The cache has sent a GETM. -/
  | asked
  /-- The directory has taken a GETM in `S`: it sent `invs` invalidations, and data with this `AckCount`. -/
  | granted (invs : Nat) (ackCount : Int)
  | tookAck
  | tookData
  /-- The cache has freed its TBE and gone to `M`. -/
  | entered
  deriving DecidableEq

/-- The account of the last GETM of a cache that the directory took in `S`. -/
structure Tally where
  invs : Nat
  ackCount : Int
  acks : Nat := 0
  data : Bool := false
  entered : Nat := 0
  deriving DecidableEq

def Tally.next (t : Option Tally) : AckEvent → Option Tally
  | .asked => none
  | .granted invs ackCount => some { invs, ackCount }
  | .tookAck => t.map fun t => { t with acks := t.acks + 1 }
  | .tookData => t.map fun t => { t with data := true }
  | .entered => t.map fun t => { t with entered := t.entered + 1 }

/-- What a response is to the accounting of the cache that takes it. -/
def ResponseMsg.ackEvent (m : ResponseMsg C n) : AckEvent := if m.type = .ACK then .tookAck else .tookData

/-- The invalidations a transition of the directory sends. -/
def Directory.Ctx.invs (x : Directory.Ctx C n) : Nat :=
  (x.forwards.map fun f => if f.2.type = .INV then f.1.card else 0).sum

/-- Data that the directory sends to a cache, with the invalidations beside it. -/
def Directory.Ctx.grants (x : Directory.Ctx C n) : List (C × AckEvent) :=
  x.responses.filterMap fun r =>
    match r.1 with
    | .L1Cache c => some (c, .granted x.invs r.2.ackCount)
    | .Directory => none

section
variable [DecidableEq C] [Directory.Memory C n]

/-- What the step from `s` to `s'` on input `i` is to the accounting. -/
def Sys.ackEvents (s : Sys C n) (i : Input C n) (s' : Sys C n) : List (C × AckEvent) :=
  match i with
  | .mandatory c _ =>
    (if (s.node c).cache.getState.waits = false ∧ (s'.node c).cache.getState.waits = true then [.asked] else []).map
      (c, ·)
  | .response c m => (m.ackEvent :: if (s'.node c).cache.inM then [.entered] else []).map (c, ·)
  | .request c =>
    match (s.node c).requestFromCache.head? with
    | some m =>
      if s.dir.getState = .S ∧ m.type = .GETM then
        match Directory.onRequest s.dir m with
        | .ok x => x.grants
        | .error _ => []
      else []
    | none => []
  | .replacement _ | .forward _ | .data _ | .memory _ => []

/-- A step, with what it is to the accounting. -/
inductive Sys.CountedStep (s : Sys C n) : List (C × AckEvent) → Sys C n → Prop
  | deliver {stored : DataBlock n} {i : Input C n} {o : List (C × Callback n)} {s' : Sys C n} :
      s.deliver stored i = some (.ok (o, s')) → CountedStep s (s.ackEvents i s') s'

/-- The account of cache `c` after the events of a run. -/
def tally (c : C) (log : List (C × AckEvent)) : Option Tally := (logOf c log).foldl Tally.next none

/-- An invalidation that is to be acknowledged to `c`. -/
def RequestMsg.invalidatesFor (c : C) (m : RequestMsg C n) : Bool := m.type = .INV ∧ m.requestor = .L1Cache c

/-- The invalidations for `c`'s GETM that are in flight or stalled. -/
def Sys.invsFor [Fintype C] (s : Sys C n) (c : C) : Nat :=
  ∑ e, (s.node e).forwardToCache.countP (RequestMsg.invalidatesFor c)

/-- The acknowledgements in flight to `c`. -/
def Sys.acksFor (s : Sys C n) (c : C) : Nat := (s.node c).responseToCache.countP fun m => m.type = .ACK

/-- The `pendingAcks` of a cache's TBE. -/
def L1Cache.Block.pendingAcks (b : L1Cache.Block n) : Option Int := b.tbe.map (·.pendingAcks)

/-- An account that is right: what was announced is what was sent, nothing is lost or
counted twice, and the cache goes to `M` once, with the data and the last acknowledgement. -/
structure Tally.Balanced [Fintype C] (s : Sys C n) (c : C) (t : Tally) : Prop where
  announced : (t.invs : Int) = -t.ackCount
  conserved : s.invsFor c + s.acksFor c + t.acks = t.invs
  pending : t.entered = 0 → (s.node c).cache.pendingAcks = some ((if t.data = true then (t.invs : Int) else 0) - t.acks)
  entered : t.entered = if t.data = true ∧ t.acks = t.invs then 1 else 0
  freed : t.entered = 1 → s.invsFor c = 0 ∧ s.acksFor c = 0

end

/-! ## The channels of a cache -/

theorem RequestMsg.invalidatesFor_iff [DecidableEq C] {m : RequestMsg C n} {d : C} :
    m.invalidatesFor d = true ↔ m.fwd = some (.inv d) := by
  obtain ⟨t, r, b⟩ := m
  cases t <;> cases r <;> simp [invalidatesFor, fwd]

/-- A forward queue has the one invalidation that the phase tells. -/
theorem NodeOk.countP_inv [DecidableEq C] {c : C} {p : Phase C} {f : Nat} {k : Int} {cur : DataBlock n} {y : Node C n}
    (h : NodeOk c p f k cur y) (d : C) :
    y.forwardToCache.countP (RequestMsg.invalidatesFor d) = if p.inv = some d then 1 else 0 := by
  have hcount : y.forwardToCache.countP (RequestMsg.invalidatesFor d) =
      (y.forwardToCache.map RequestMsg.fwd).countP (· = some (.inv d)) := by
    rw [List.countP_map]
    exact List.countP_congr fun m _ => by simp [RequestMsg.invalidatesFor_iff]
  rw [hcount, h.forward, List.countP_map, Phase.forwards]
  cases hi : p.inv <;> cases hn : p.next <;> cases hw : p.wbAcked <;> simp [List.countP_cons, Function.comp_def]

/-- Every message in the response channel is one the phase tells of. -/
theorem NodeOk.resp_mem {c : C} {p : Phase C} {f : Nat} {k : Int} {cur : DataBlock n} {y : Node C n}
    (h : NodeOk c p f k cur y) {m : ResponseMsg C n} (hm : m ∈ y.responseToCache) :
    m.resp = some .ack ∨ p.data ≠ none ∧ m.resp = p.data := by
  have hmem := Multiset.mem_map_of_mem ResponseMsg.resp hm
  rw [h.response, Multiset.mem_add] at hmem
  rcases hmem with hack | hdata
  · exact .inl (Multiset.eq_of_mem_replicate hack)
  · cases hd : p.data with
    | none => simp [hd] at hdata
    | some r => exact .inr ⟨nofun, by simpa [hd] using hdata⟩

/-- A response that is no acknowledgement is the one the phase waits for. -/
theorem NodeOk.data_eq {c : C} {p : Phase C} {f : Nat} {k : Int} {cur : DataBlock n} {y : Node C n}
    (h : NodeOk c p f k cur y) {m : ResponseMsg C n} (hm : m ∈ y.responseToCache) {r : Resp} (hr : m.resp = some r)
    (hne : r ≠ .ack) : p.data = some r := by
  rcases h.resp_mem hm with hack | ⟨-, hdata⟩
  · exact absurd (Option.some.inj (hr.symm.trans hack)) hne
  · rw [← hdata, hr]

theorem Phase.data_ne_ack (p : Phase C) : p.data ≠ some .ack := by
  cases p with
  | excl g x => cases g <;> nofun
  | getSData b i => cases b <;> nofun
  | _ => nofun

theorem NodeOk.ack_iff {c : C} {p : Phase C} {f : Nat} {k : Int} {cur : DataBlock n} {y : Node C n}
    (h : NodeOk c p f k cur y) {m : ResponseMsg C n} (hm : m ∈ y.responseToCache) :
    m.type = .ACK ↔ m.resp = some .ack := by
  constructor
  · intro ht
    rcases h.resp_mem hm with hr | ⟨hne, hr⟩
    · exact hr
    · -- an acknowledgement that is not one is nothing at all
      obtain ⟨t, r, b, k'⟩ := m
      obtain rfl : t = .ACK := ht
      simp only [ResponseMsg.resp] at hr ⊢
      split
      · rfl
      · rw [if_neg (by assumption)] at hr
        exact absurd hr.symm hne
  · intro hr
    rw [ResponseMsg.of_resp_ack hr]

/-- The response channel has the acknowledgements in flight. -/
theorem NodeOk.countP_ack {c : C} {p : Phase C} {f : Nat} {k : Int} {cur : DataBlock n} {y : Node C n}
    (h : NodeOk c p f k cur y) : y.responseToCache.countP (fun m => m.type = .ACK) = f := by
  have hcount : y.responseToCache.countP (fun m => m.type = .ACK) =
      (y.responseToCache.map ResponseMsg.resp).countP (· = some .ack) := by
    rw [Multiset.countP_map, Multiset.countP_eq_card_filter]
    exact congrArg _ (Multiset.filter_congr fun m hm => h.ack_iff hm)
  rw [hcount, h.response, Multiset.countP_add, Multiset.countP_eq_card_filter]
  have hreplicate : (Multiset.replicate f (some Resp.ack)).filter (· = some .ack) = Multiset.replicate f (some .ack) :=
    Multiset.filter_eq_self.2 fun r hr => Multiset.eq_of_mem_replicate hr
  have hdata : (p.data.elim 0 ({some ·}) : Multiset (Option Resp)).countP (· = some .ack) = 0 := by
    have hne := p.data_ne_ack
    cases hd : p.data with
    | none => rfl
    | some r =>
      rw [hd] at hne
      refine Multiset.countP_eq_zero.2 fun r' hr' he => hne ?_
      rw [← he]
      exact (Multiset.mem_singleton.1 hr').symm
  rw [hreplicate, hdata, Multiset.card_replicate, Nat.add_zero]

section
variable [DecidableEq C] [Fintype C]

/-- What the phases call outstanding is what is in the channels. -/
theorem Repr.outstanding_eq {s : Sys C n} {a : Abs C} {cur : DataBlock n} (hR : Repr s a cur) (c : C) :
    a.outstanding c = s.invsFor c + s.acksFor c := by
  have hinvs : s.invsFor c = (Finset.univ.filter fun e => (a.ph e).inv = some c).card := by
    rw [Sys.invsFor, Finset.card_filter]
    exact Finset.sum_congr rfl fun e _ => (hR.node e).countP_inv c
  rw [hinvs, Sys.acksFor, (hR.node c).countP_ack]
  rfl

end

/-! ## What a cache waits for -/

namespace L1Cache

inductive Awaited
  | data
  | acks
  deriving DecidableEq

/-- What is missing before the cache can store. -/
def State.awaits : State → Option Awaited
  | .IM_AD | .SM_AD => some .data
  | .IM_A | .SM_A => some .acks
  | .I | .S | .M | .IS_D | .MI_A | .SI_A | .II_A => none

theorem State.waits_eq (st : State) : st.waits = st.awaits.isSome := by
  cases st <;> rfl

theorem Block.awaits_of_inM {b : Block n} (h : b.inM = true) : b.getState.awaits = none := by
  rw [(of_decide_eq_true h).1]
  rfl

theorem Block.not_inM {b : Block n} {w : Awaited} (h : b.getState.awaits = some w) : ¬ b.inM = true := by
  intro hM
  rw [awaits_of_inM hM] at h
  cases h

/-- What a transition is to a cache that counts acknowledgements, from `st` with `k`
pending ones to `b'`. -/
inductive Counts (st : State) (k : Int) (event : Event) (response : Option (ResponseMsg C n)) (b' : Block n) : Prop
  /-- The cache has no GETM out. Only a load's data can come. -/
  | idle : st.awaits = none → b'.getState.awaits = none → (event.responded = true → b'.inM = false) →
      Counts st k event response b'
  | ask : st.awaits = none → b'.getState.awaits = some .data → event = .Store → Counts st k event response b'
  | wait (w : Awaited) : st.awaits = some w → b'.getState.awaits = some w → event.responded = false →
      b'.pendingAcks = some k → Counts st k event response b'
  | ack (w : Awaited) (m : ResponseMsg C n) : st.awaits = some w → b'.getState.awaits = some w → event = .Inv_Ack →
      response = some m → b'.pendingAcks = some (k - m.ackCount) → Counts st k event response b'
  | lastAck : st.awaits = some .acks → b'.inM = true → event = .Inv_Ack_all → Counts st k event response b'
  | data (m : ResponseMsg C n) : st.awaits = some .data → b'.getState.awaits = some .acks →
      event = .Data_from_Dir_Ack_Cnt → response = some m → b'.pendingAcks = some (k - m.ackCount) →
      Counts st k event response b'
  | lastData : st.awaits = some .data → b'.inM = true →
      (event = .Data_from_Dir_No_Acks ∨ event = .Data_from_Dir_Ack_Cnt_Last ∨ event = .Data_from_Owner) →
      Counts st k event response b'

theorem trigger_counts {st : State} {k : Int} {d d' : DataBlock n} {event : Event} {x x' : Ctx C n}
    (hb : x.block = blockOf st k d d') (h : trigger event x = .ok x') : Counts st k event x.response x'.block := by
  obtain ⟨c, b, mand, fwd, resp, stored, ev, reqs, resps, calls, pf, pr⟩ := x
  obtain rfl : b = blockOf st k d d' := hb
  cases st <;> cases event <;> try cases h
  -- what is left completes, if the message it looks at is there
  all_goals first
    | exact .idle rfl rfl nofun
    | (cases mand <;> cases h; first
      | exact .idle rfl rfl nofun
      | exact .ask rfl rfl rfl
      | exact .wait _ rfl rfl rfl rfl)
    | (cases fwd <;> cases h; first
      | exact .idle rfl rfl nofun
      | exact .wait _ rfl rfl rfl rfl)
    | (cases resp <;> cases h; first
      | exact .idle rfl rfl fun _ => rfl
      | exact .ack _ _ rfl rfl rfl rfl rfl
      | exact .lastAck rfl rfl rfl
      | exact .data _ rfl rfl rfl rfl rfl
      | exact .lastData rfl rfl (.inl rfl)
      | exact .lastData rfl rfl (.inr (.inl rfl))
      | exact .lastData rfl rfl (.inr (.inr rfl)))
    | (cases ev <;> cases h <;> exact .idle rfl rfl nofun)
    | (cases fwd <;> cases ev <;> cases h <;> exact .idle rfl rfl nofun)

end L1Cache

/-! ## Accounts that fit the cache -/

section
variable {y y' : Node C n} {t : Tally} {st : L1Cache.State} {k : Int} {d d' : DataBlock n} {event : L1Cache.Event}

/-- How far the GETM of an account is: its data is on the way, acknowledgements are
missing, or it is completed. -/
inductive Tally.Stage (y : Node C n) (t : Tally) : Prop
  | data (m : ResponseMsg C n) : y.cache.getState.awaits = some .data → t.data = false → t.entered = 0 →
      y.cache.pendingAcks = some (-(t.acks : Int)) → m ∈ y.responseToCache → m.resp = some (.dir (-(t.invs : Int))) →
      Stage y t
  | acks : y.cache.getState.awaits = some .acks → t.data = true → t.entered = 0 →
      y.cache.pendingAcks = some ((t.invs : Int) - (t.acks : Int)) → Stage y t
  | done : y.cache.getState.awaits = none → t.data = true → t.entered = 1 → t.acks = t.invs → Stage y t

structure Tally.Ok (y : Node C n) (t : Tally) : Prop where
  announced : (t.invs : Int) = -t.ackCount
  stage : t.Stage y

/-- Responses may be added. -/
theorem Tally.Ok.mono (h : t.Ok y) (hc : y'.cache = y.cache) (hr : ∀ m ∈ y.responseToCache, m ∈ y'.responseToCache) :
    t.Ok y' := by
  refine ⟨h.announced, ?_⟩
  cases h.stage with
  | data m ha hd he hk hm hresp => exact .data m (by rwa [hc]) hd he (by rwa [hc]) (hr m hm) hresp
  | acks ha hd he hk => exact .acks (by rwa [hc]) hd he (by rwa [hc])
  | done ha hd he hinvs => exact .done (by rwa [hc]) hd he hinvs

theorem L1Cache.getState_blockOf (st : State) (k : Int) (d d' : DataBlock n) : (blockOf st k d d').getState = st := by
  cases st <;> rfl

theorem L1Cache.pendingAcks_blockOf {st : State} {w : Awaited} (h : st.awaits = some w) (k : Int) (d d' : DataBlock n) :
    (blockOf st k d d').pendingAcks = some k := by
  cases st <;> first | rfl | cases h

theorem NodeOk.getState {c : C} {p : Phase C} {f : Nat} {cur : DataBlock n} (h : NodeOk c p f k cur y) :
    y.cache.getState = p.state := by
  obtain ⟨d, d', hb, -⟩ := h.cache
  rw [hb, L1Cache.getState_blockOf]

theorem NodeOk.pendingAcks {c : C} {p : Phase C} {f : Nat} {cur : DataBlock n} (h : NodeOk c p f k cur y)
    {w : L1Cache.Awaited} (hw : p.state.awaits = some w) : y.cache.pendingAcks = some k := by
  obtain ⟨d, d', hb, -⟩ := h.cache
  rw [hb, L1Cache.pendingAcks_blockOf hw]

/-- A transition for no response leaves the account as it is, or begins a new GETM. -/
theorem Tally.Ok.quiet (h : t.Ok y) (hb : y.cache = L1Cache.blockOf st k d d')
    {response : Option (ResponseMsg C n)} (hc : L1Cache.Counts st k event response y'.cache)
    (hev : event.responded = false) (hr : ∀ m ∈ y.responseToCache, m ∈ y'.responseToCache) :
    t.Ok y' ∨ st.awaits = none ∧ y'.cache.getState.awaits = some .data ∧ event = .Store := by
  have hst : y.cache.getState = st := by rw [hb, L1Cache.getState_blockOf]
  cases hc with
  | idle h0 h1 _ =>
    refine .inl ⟨h.announced, ?_⟩
    cases h.stage with
    | data m ha _ _ _ _ _ => rw [hst, h0] at ha; cases ha
    | acks ha _ _ _ => rw [hst, h0] at ha; cases ha
    | done _ hd he hinvs => exact .done h1 hd he hinvs
  | ask h0 h1 hs => exact .inr ⟨h0, h1, hs⟩
  | wait w h0 h1 _ hk' =>
    have hk : y.cache.pendingAcks = y'.cache.pendingAcks := by rw [hb, L1Cache.pendingAcks_blockOf h0, hk']
    refine .inl ⟨h.announced, ?_⟩
    cases h.stage with
    | data m ha hd he hp hm hresp =>
      rw [hst, h0] at ha
      exact .data m (h1.trans ha) hd he (hk.symm.trans hp) (hr m hm) hresp
    | acks ha hd he hp =>
      rw [hst, h0] at ha
      exact .acks (h1.trans ha) hd he (hk.symm.trans hp)
    | done ha _ _ _ => rw [hst, h0] at ha; cases ha
  | ack w m _ _ he => rw [he] at hev; cases hev
  | lastAck _ _ he => rw [he] at hev; cases hev
  | data m _ _ he => rw [he] at hev; cases hev
  | lastData _ _ he => rcases he with he | he | he <;> (rw [he] at hev; cases hev)

end

/-! ## What the phases say of an account -/

/-- While the directory's data is on its way, it announces what is out and what was taken already. -/
theorem Phase.acks_of_dir {p : Phase C} {total : Nat} {k invs : Int} (hd : p.data = some (.dir invs))
    (ha : p.state.awaits = some .data) (h : Abs.acksOk total k p) : (total : Int) = -invs + k := by
  cases p with
  | excl g x =>
    cases g <;> simp only [data, reduceCtorEq, Option.some.injEq, Resp.dir.injEq] at hd
    case fromDir m => rw [h.1, ← hd, Int.neg_neg]
    case fromDirS m => rw [h.1, ← hd, Int.neg_neg]
  | getSData b i => cases b <;> cases ha
  | _ => cases hd

theorem Phase.acks_of_awaits {p : Phase C} {total : Nat} {k : Int} (ha : p.state.awaits = some .acks)
    (h : Abs.acksOk total k p) : (total : Int) = k ∧ 0 < k ∧ p.data = none := by
  cases p with
  | excl g x =>
    cases g <;> cases ha
    · exact ⟨h.1, h.2, rfl⟩
    · exact ⟨h.1, h.2, rfl⟩
  | _ => cases ha

theorem Phase.acks_of_idle {p : Phase C} {total : Nat} {k : Int} (ha : p.state.awaits = none)
    (h : Abs.acksOk total k p) : total = 0 := by
  cases p with
  | excl g x => cases g <;> first | exact h | cases ha
  | _ => first | exact h | cases ha

section
variable [DecidableEq C] [Fintype C] {s s' : Sys C n} {a : Abs C} {cur : DataBlock n} {c : C} {t : Tally}

/-- An account that fits its cache is right. -/
theorem Repr.balanced (hI : a.Inv) (hR : Repr s a cur) (h : t.Ok (s.node c)) : t.Balanced s c := by
  have hacks := hI.acks c
  have hn := hR.node c
  rw [hR.outstanding_eq] at hacks
  cases h.stage with
  | data m ha hd he hp hm hresp =>
    rw [hn.getState] at ha
    have htotal := Phase.acks_of_dir (hn.data_eq hm hresp nofun) ha hacks
    have hk : a.pending c = -(t.acks : Int) := Option.some.inj ((hn.pendingAcks ha).symm.trans hp)
    refine ⟨h.announced, by omega, fun _ => ?_, by simp [hd, he], by simp [he]⟩
    rw [hp, hd]
    simp
  | acks ha hd he hp =>
    rw [hn.getState] at ha
    obtain ⟨htotal, hpos, -⟩ := Phase.acks_of_awaits ha hacks
    have hk : a.pending c = (t.invs : Int) - t.acks := Option.some.inj ((hn.pendingAcks ha).symm.trans hp)
    refine ⟨h.announced, by omega, fun _ => ?_, ?_, by simp [he]⟩
    · rw [hp, hd]
      rfl
    · rw [he, if_neg (by omega)]
  | done ha hd he hinvs =>
    rw [hn.getState] at ha
    have htotal := Phase.acks_of_idle ha hacks
    exact ⟨h.announced, by omega, fun h0 => by omega, by simp [hd, he, hinvs], fun _ => by omega⟩

end

/-! ## Taking a response -/

/-- What the event of a response says of it. -/
theorem L1Cache.responseNetwork_in_of_tbe {tbe : Option (TBE n)} {k : Int} {m : ResponseMsg C n} {event : Event}
    (hk : tbe.map (·.pendingAcks) = some k) (h : responseNetwork_in tbe m = .ok event) :
    match event with
    | .Inv_Ack => m.type = .ACK
    | .Inv_Ack_all => m.type = .ACK ∧ k - m.ackCount = 0
    | .Data_from_Dir_No_Acks => m.type = .DATA_FROM_DIR ∧ m.ackCount = 0
    | .Data_from_Dir_Ack_Cnt => m.type = .DATA_FROM_DIR
    | .Data_from_Dir_Ack_Cnt_Last => m.type = .DATA_FROM_DIR ∧ k - m.ackCount = 0
    | .Data_from_Owner => m.type = .DATA_FROM_OWNER
    | _ => False := by
  obtain ⟨e, rfl, rfl⟩ := Option.map_eq_some_iff.1 hk
  obtain ⟨t, r, b, i⟩ := m
  cases t <;> simp only [responseNetwork_in, getPendingAcks, valid, Except.map] at h
  case DATA => cases h
  case DATA_FROM_OWNER => cases h; rfl
  case DATA_FROM_DIR =>
    split at h
    case isTrue h0 => cases h; exact ⟨rfl, h0⟩
    case isFalse =>
      split at h <;> cases h
      case isTrue hk => exact ⟨rfl, hk⟩
      case isFalse => rfl
  case ACK =>
    split at h <;> cases h
    case isTrue hk => exact ⟨rfl, hk⟩
    case isFalse => rfl

section
variable [DecidableEq C] {c : C} {p : Phase C} {f total : Nat} {k : Int} {cur d d' : DataBlock n} {y y' : Node C n}
    {t : Tally} {m : ResponseMsg C n} {event : L1Cache.Event}

/-- Taking a response while the directory's data is on its way. -/
theorem Tally.Ok.respond_data (h : t.Ok y) (hn : NodeOk c p f k cur y) (hacks : Abs.acksOk total k p)
    (ha : p.state.awaits = some .data) (hm : m ∈ y.responseToCache)
    (he : L1Cache.responseNetwork_in y.cache.tbe m = .ok event)
    (hc : L1Cache.Counts p.state k event (some m) y'.cache)
    (hr : ∀ m' ∈ y.responseToCache.erase m, m' ∈ y'.responseToCache) :
    ∃ t', (m.ackEvent :: if y'.cache.inM then [.entered] else []).foldl Tally.next (some t) = some t' ∧
      t'.Ok y' := by
  have hk := hn.pendingAcks ha
  have hport := L1Cache.responseNetwork_in_of_tbe hk he
  cases h.stage with
  | acks ha' _ _ _ => rw [hn.getState, ha] at ha'; cases ha'
  | done ha' _ _ _ => rw [hn.getState, ha] at ha'; cases ha'
  | data m₀ _ hd hent hp hm₀ hresp =>
    have hacked : k = -(t.acks : Int) := Option.some.inj (hk.symm.trans hp)
    have hpdata := hn.data_eq hm₀ hresp (by rintro ⟨⟩)
    have htotal := Phase.acks_of_dir hpdata ha hacks
    -- data is what the directory sent
    have hdir (hty : m.type = .DATA_FROM_DIR) : m.ackEvent = .tookData ∧ m.ackCount = -(t.invs : Int) := by
      refine ⟨by rw [ResponseMsg.ackEvent, hty]; rfl, ?_⟩
      have hdata := hn.data_eq hm (by rw [ResponseMsg.resp, hty] : m.resp = some (.dir m.ackCount)) (by rintro ⟨⟩)
      exact Resp.dir.inj (Option.some.inj (hdata.symm.trans hpdata))
    cases hc with
    | idle h0 _ _ => rw [ha] at h0; cases h0
    | ask h0 _ _ => rw [ha] at h0; cases h0
    | lastAck h0 _ _ => rw [ha] at h0; cases h0
    | wait w _ _ hev _ =>
      rw [(L1Cache.responded_of_port he).2] at hev
      cases hev
    | ack w m' h0 h1 hev hm' hk' =>
      subst hev
      cases hm'
      cases (h0.symm.trans ha)
      have hty : m.type = .ACK := hport
      have hone : m.ackCount = 1 := by rw [ResponseMsg.of_resp_ack ((hn.ack_iff hm).1 hty)]
      have hne : m₀ ≠ m := by
        rintro rfl
        rw [(hn.ack_iff hm).1 hty] at hresp
        cases hresp
      rw [if_neg (L1Cache.Block.not_inM h1)]
      refine ⟨{ t with acks := t.acks + 1 }, ?_, h.announced, .data m₀ h1 hd hent ?_ ?_ hresp⟩
      · simp [Tally.next, ResponseMsg.ackEvent, hty]
      · rw [hk', hone, hacked]
        exact congrArg some (by dsimp only; omega)
      · exact hr m₀ ((Multiset.mem_erase_of_ne hne).2 hm₀)
    | data m' h0 h1 hev hm' hk' =>
      subst hev
      cases hm'
      obtain ⟨htook, hcount⟩ := hdir hport
      rw [if_neg (L1Cache.Block.not_inM h1)]
      refine ⟨{ t with data := true }, by simp [Tally.next, htook], h.announced, .acks h1 rfl hent ?_⟩
      rw [hk', hcount, hacked]
      exact congrArg some (by dsimp only; omega)
    | lastData h0 h1 hev =>
      -- the acknowledgements have all been taken
      have hall : m.ackEvent = .tookData ∧ t.acks = t.invs := by
        rcases hev with rfl | rfl | rfl
        · obtain ⟨htook, hcount⟩ := hdir hport.1
          exact ⟨htook, by have := hport.2; omega⟩
        · obtain ⟨htook, hcount⟩ := hdir hport.1
          exact ⟨htook, by have := hport.2; omega⟩
        · have hmr : m.resp = some .owner := by rw [ResponseMsg.resp, show m.type = .DATA_FROM_OWNER from hport]
          cases hpdata.symm.trans (hn.data_eq hm hmr (by rintro ⟨⟩))
      rw [if_pos h1]
      refine ⟨{ t with data := true, entered := t.entered + 1 }, by simp [Tally.next, hall.1], h.announced,
        .done (L1Cache.Block.awaits_of_inM h1) rfl (by rw [hent]) hall.2⟩

omit [DecidableEq C] in
/-- Taking a response while acknowledgements are missing. -/
theorem Tally.Ok.respond_acks (h : t.Ok y) (hn : NodeOk c p f k cur y) (hacks : Abs.acksOk total k p)
    (ha : p.state.awaits = some .acks) (hm : m ∈ y.responseToCache)
    (he : L1Cache.responseNetwork_in y.cache.tbe m = .ok event)
    (hc : L1Cache.Counts p.state k event (some m) y'.cache) :
    ∃ t', (m.ackEvent :: if y'.cache.inM then [.entered] else []).foldl Tally.next (some t) = some t' ∧
      t'.Ok y' := by
  have hk := hn.pendingAcks ha
  have hport := L1Cache.responseNetwork_in_of_tbe hk he
  obtain ⟨-, -, hpdata⟩ := Phase.acks_of_awaits ha hacks
  have hty := hn.only_acks hpdata m hm
  have hone : m.ackCount = 1 := by rw [ResponseMsg.of_resp_ack ((hn.ack_iff hm).1 hty)]
  have htook : m.ackEvent = .tookAck := by rw [ResponseMsg.ackEvent, if_pos hty]
  cases h.stage with
  | data m₀ ha' _ _ _ _ _ => rw [hn.getState, ha] at ha'; cases ha'
  | done ha' _ _ _ => rw [hn.getState, ha] at ha'; cases ha'
  | acks _ hd hent hp =>
    have hmissing : k = (t.invs : Int) - t.acks := Option.some.inj (hk.symm.trans hp)
    cases hc with
    | idle h0 _ _ => rw [ha] at h0; cases h0
    | ask h0 _ _ => rw [ha] at h0; cases h0
    | data m' h0 _ _ _ _ => rw [ha] at h0; cases h0
    | lastData h0 _ _ => rw [ha] at h0; cases h0
    | wait w _ _ hev _ =>
      rw [(L1Cache.responded_of_port he).2] at hev
      cases hev
    | ack w m' h0 h1 hev hm' hk' =>
      cases hm'
      cases (h0.symm.trans ha)
      rw [if_neg (L1Cache.Block.not_inM h1)]
      refine ⟨{ t with acks := t.acks + 1 }, by simp [Tally.next, htook], h.announced, .acks h1 hd hent ?_⟩
      rw [hk', hone, hmissing]
      exact congrArg some (by dsimp only; omega)
    | lastAck h0 h1 hev =>
      subst hev
      rw [if_pos h1]
      refine ⟨{ t with acks := t.acks + 1, entered := t.entered + 1 }, by simp [Tally.next, htook], h.announced,
        .done (L1Cache.Block.awaits_of_inM h1) hd (by rw [hent]) ?_⟩
      have := hport.2
      dsimp only
      omega

omit [DecidableEq C] in
/-- Taking a response when the GETM is completed: it is the data of a load. -/
theorem Tally.Ok.respond_done (h : t.Ok y) (hn : NodeOk c p f k cur y) (hf : f = 0)
    (ha : p.state.awaits = none) (hm : m ∈ y.responseToCache)
    (he : L1Cache.responseNetwork_in y.cache.tbe m = .ok event)
    (hc : L1Cache.Counts p.state k event (some m) y'.cache) :
    ∃ t', (m.ackEvent :: if y'.cache.inM then [.entered] else []).foldl Tally.next (some t) = some t' ∧
      t'.Ok y' := by
  have hresp := (L1Cache.responded_of_port he).2
  have htook : m.ackEvent = .tookData := by
    refine if_neg fun hty => ?_
    have hpos : 0 < y.responseToCache.countP fun m => m.type = .ACK := Multiset.countP_pos.2 ⟨m, hm, hty⟩
    rw [hn.countP_ack, hf] at hpos
    exact absurd hpos (Nat.lt_irrefl 0)
  cases h.stage with
  | data m₀ ha' _ _ _ _ _ => rw [hn.getState, ha] at ha'; cases ha'
  | acks ha' _ _ _ => rw [hn.getState, ha] at ha'; cases ha'
  | done _ hd hent hinvs =>
    cases hc with
    | idle _ h1 hM =>
      rw [if_neg (by rw [hM hresp]; nofun)]
      refine ⟨t, ?_, h.announced, .done h1 hd hent hinvs⟩
      simp only [List.foldl_cons, List.foldl_nil, htook, Tally.next, Option.map_some]
      rw [← hd]
    | ask _ _ hev => rw [hev] at hresp; cases hresp
    | wait w h0 _ _ _ => rw [ha] at h0; cases h0
    | ack w m' h0 _ _ _ _ => rw [ha] at h0; cases h0
    | lastAck h0 _ _ => rw [ha] at h0; cases h0
    | data m' h0 _ _ _ _ => rw [ha] at h0; cases h0
    | lastData h0 _ _ => rw [ha] at h0; cases h0

theorem Tally.Ok.respond (h : t.Ok y) (hn : NodeOk c p f k cur y) (hacks : Abs.acksOk total k p) (hf : f ≤ total)
    (hm : m ∈ y.responseToCache) (he : L1Cache.responseNetwork_in y.cache.tbe m = .ok event)
    (hc : L1Cache.Counts p.state k event (some m) y'.cache)
    (hr : ∀ m' ∈ y.responseToCache.erase m, m' ∈ y'.responseToCache) :
    ∃ t', (m.ackEvent :: if y'.cache.inM then [.entered] else []).foldl Tally.next (some t) = some t' ∧
      t'.Ok y' := by
  cases ha : p.state.awaits with
  | none =>
    have := Phase.acks_of_idle ha hacks
    exact h.respond_done hn (by omega) ha hm he hc
  | some w =>
    cases w with
    | data => exact h.respond_data hn hacks ha hm he hc hr
    | acks => exact h.respond_acks hn hacks ha hm he hc

end

/-! ## Steps -/

section
variable [DecidableEq C] {s s' : Sys C n} {cur : DataBlock n} {c d : C} {x : L1Cache.Ctx C n}

theorem Sys.mem_responseToCache_afterDir {m : ResponseMsg C n} (hm : m ∈ (s.node d).responseToCache)
    (src : Option C) (x : Directory.Ctx C n) : m ∈ ((s.afterDir src x).node d).responseToCache := by
  rw [node_afterDir]
  exact Multiset.mem_add.2 (.inr hm)

theorem Sys.mem_responseToCache_afterCache {m : ResponseMsg C n} (hm : m ∈ (s.node d).responseToCache)
    (hd : d ≠ c ∨ x.poppedResponse = false) : m ∈ ((s.afterCache c x).node d).responseToCache := by
  rw [Sys.afterCache, node_foldl_respond]
  refine Multiset.mem_add.2 (.inr ?_)
  by_cases hdc : d = c
  · subst hdc
    have hpop := hd.resolve_left (fun h => h rfl)
    simpa [Node.after, hpop] using hm
  · simpa [update_of_ne hdc] using hm

theorem Sys.mem_responseToCache_popped {m m' : ResponseMsg C n} (hx : x.poppedResponse = true ∧ x.response = some m')
    (hm : m ∈ (s.node c).responseToCache.erase m') : m ∈ ((s.afterCache c x).node c).responseToCache := by
  rw [Sys.afterCache, node_foldl_respond]
  refine Multiset.mem_add.2 (.inr ?_)
  simpa [Node.after, hx.1, hx.2] using hm

variable {a : Abs C} {t : Tally}

/-- A transition of another cache. -/
theorem Tally.Ok.afterCache_other (h : t.Ok (s.node d)) (hd : d ≠ c) (x : L1Cache.Ctx C n) :
    t.Ok ((s.afterCache c x).node d) :=
  h.mono (by rw [Sys.cache_afterCache, if_neg hd]) fun _ hm => Sys.mem_responseToCache_afterCache hm (.inl hd)

theorem Tally.Ok.afterDir (h : t.Ok (s.node d)) (src : Option C) (x : Directory.Ctx C n) :
    t.Ok ((s.afterDir src x).node d) :=
  h.mono (by rw [node_afterDir]) fun _ hm => Sys.mem_responseToCache_afterDir hm src x

/-- A transition of the cache itself that takes no response and is not the start of a GETM. -/
theorem Repr.quiet_afterCache (hR : Repr s a cur) {event : L1Cache.Event} {x₀ : L1Cache.Ctx C n}
    (hx₀ : x₀.block = (s.node c).cache ∧ x₀.poppedForward = false ∧ x₀.poppedResponse = false)
    (hx : L1Cache.trigger event x₀ = .ok x) (hev : event.responded = false) (h : t.Ok (s.node c)) :
    t.Ok ((s.afterCache c x).node c) ∨ (s.node c).cache.getState.awaits = none ∧
      ((s.afterCache c x).node c).cache.getState.awaits = some .data ∧ event = .Store := by
  obtain ⟨d, d', hb, -⟩ := (hR.node c).cache
  obtain ⟨hblock, hpopped⟩ := hx₀
  have hpops := L1Cache.trigger_pops (hblock.trans hb) hpopped hx
  have hcounts := L1Cache.trigger_counts (hblock.trans hb) hx
  have hcache : ((s.afterCache c x).node c).cache = x.block := by rw [Sys.cache_afterCache, if_pos rfl]
  rw [hR.getState]
  refine h.quiet hb (by rwa [hcache]) hev fun _ hm => Sys.mem_responseToCache_afterCache hm (.inr ?_)
  rw [hpops.responded, hev]

/-- A GETM that the directory takes in `S` begins an account. -/
theorem Repr.granted_ok [Fintype C] [Directory.Memory C n] (hI : a.Inv) (hR : Repr s a cur) {m : RequestMsg C n}
    {x : Directory.Ctx C n} (hm : (s.node c).requestFromCache.head? = some m) (hS : s.dir.getState = .S) (hG : m.type = .GETM)
    (hx : Directory.onRequest s.dir m = .ok x) :
    ∃ invs k, x.grants = [(c, .granted invs k)] ∧
      Tally.Ok ((s.afterDir (some c) x).node c) { invs, ackCount := k } := by
  have hn := hR.node c
  obtain ⟨ty, hreq, hm', -⟩ := hn.request_head hm
  obtain rfl : ty = .GETM := by rw [hm'] at hG; exact hG
  obtain ⟨d, d', hb, -⟩ := hn.cache
  obtain ⟨e, e', hdir, -⟩ := hR.home.dir
  rw [← hR.home.getState.1, hS] at hdir
  have hgrant := (congrArg (Directory.onRequest · ⟨.GETM, .L1Cache c, m.dataBlk⟩) hdir).trans Directory.onRequest_grant
  rw [hR.ackCount, ← hm', hx] at hgrant
  obtain rfl := Except.ok.inj hgrant
  have hcard : (s.dir.entry.sharers.erase (.L1Cache c)).card = (a.others c).card := by
    rw [hR.sharers_others, Finset.card_image_of_injective _ fun _ _ => MachineID.L1Cache.inj]
  -- the cache waits for data and has counted nothing
  have hphase : (a.ph c).state.awaits = some .data ∧ a.pending c = 0 := by
    have hacks := hI.acks c
    rcases hI.getM_phase hreq with hp | ⟨d, hp, -⟩ | ⟨hp, -⟩ <;> rw [hp] at hacks ⊢ <;> exact ⟨rfl, hacks.2⟩
  refine ⟨(a.others c).card, -((a.others c).card : Int), ?_, by simp, ?_⟩
  · simp [Directory.Ctx.grants, Directory.Ctx.invs, hcard]
  · have hcache (x : Directory.Ctx C n) : ((s.afterDir (some c) x).node c).cache =
        L1Cache.blockOf (a.ph c).state (a.pending c) d d' := by rw [node_afterDir, hb]
    refine .data ⟨.DATA_FROM_DIR, .Directory, e, -((a.others c).card : Int)⟩ ?_ rfl rfl ?_ ?_ rfl
    · rw [hcache, L1Cache.getState_blockOf, hphase.1]
    · rw [hcache, L1Cache.pendingAcks_blockOf hphase.1, hphase.2]
      rfl
    · rw [node_afterDir]
      simp

/-- The cache takes a response. -/
theorem Repr.responded_ok [Fintype C] (hI : a.Inv) (hR : Repr s a cur) {stored : DataBlock n} {m : ResponseMsg C n}
    (hm : m ∈ (s.node c).responseToCache) (hx : L1Cache.onResponse c (s.node c).cache stored m = .ok x)
    (h : t.Ok (s.node c)) : ∃ t', (m.ackEvent ::
      if ((s.afterCache c x).node c).cache.inM then [.entered] else []).foldl Tally.next (some t) = some t' ∧
        t'.Ok ((s.afterCache c x).node c) := by
  obtain ⟨d, d', hb, -⟩ := (hR.node c).cache
  have hpops := hx
  rw [hb] at hpops
  obtain ⟨-, hpopped⟩ := L1Cache.onResponse_pops hpops
  have hcache : ((s.afterCache c x).node c).cache = x.block := by rw [Sys.cache_afterCache, if_pos rfl]
  obtain ⟨event, he, hx⟩ := L1Cache.onResponse_ok hx
  have hcounts := L1Cache.trigger_counts hb hx
  exact h.respond (hR.node c) (hI.acks c) (Nat.le_add_left ..) hm he (by rwa [hcache])
    fun _ hm' => Sys.mem_responseToCache_popped hpopped hm'

omit [DecidableEq C] in
/-- An account of nothing stays one until the directory takes a GETM. -/
theorem Tally.next_took (m : ResponseMsg C n) (p : Prop) [Decidable p] :
    (m.ackEvent :: if p then [AckEvent.entered] else []).foldl Tally.next none = none := by
  unfold ResponseMsg.ackEvent
  split <;> split <;> rfl

variable [Directory.Memory C n]

/-- Accounts that fit their caches still do after a step. -/
theorem Good.counted_step [Fintype C] (hg : Good s cur) {stored : DataBlock n} {i : Input C n}
    {o : List (C × Callback n)} (hd : s.deliver stored i = some (.ok (o, s'))) {T : C → Option Tally}
    (hT : ∀ c t, T c = some t → t.Ok (s.node c)) (c : C) (t : Tally)
    (ht : (logOf c (s.ackEvents i s')).foldl Tally.next (T c) = some t) : t.Ok (s'.node c) := by
  obtain ⟨a, hI, hR⟩ := hg
  cases Sys.acted hd with
  | mandatory c' r x hx =>
    simp only [Sys.ackEvents] at ht
    by_cases hc : c' = c
    · subst hc
      rw [logOf_self] at ht
      split at ht
      case isTrue hask => cases ht
      case isFalse hask =>
        have hev : (L1Cache.mandatory_request_type_to_event r).responded = false := by cases r <;> rfl
        rcases hR.quiet_afterCache ⟨rfl, rfl, rfl⟩ hx hev (hT _ t ht) with h | ⟨h0, h1, -⟩
        · exact h
        · exact absurd ⟨by rw [L1Cache.State.waits_eq, h0]; rfl, by rw [L1Cache.State.waits_eq, h1]; rfl⟩ hask
    · rw [logOf_other hc] at ht
      exact (hT c t ht).afterCache_other (Ne.symm hc) x
  | replacement c' x _ hx =>
    by_cases hc : c' = c
    · subst hc
      rcases hR.quiet_afterCache ⟨rfl, rfl, rfl⟩ hx rfl (hT _ t ht) with h | ⟨-, -, hev⟩
      · exact h
      · cases hev
    · exact (hT c t ht).afterCache_other (Ne.symm hc) x
  | forward c' m x _ hx =>
    by_cases hc : c' = c
    · subst hc
      obtain ⟨event, he, hx⟩ := L1Cache.onForward_ok hx
      obtain ⟨hfwd, hev⟩ := L1Cache.forwarded_of_port he
      rcases hR.quiet_afterCache ⟨rfl, rfl, rfl⟩ hx hev (hT _ t ht) with h | ⟨-, -, hstore⟩
      · exact h
      · rw [hstore] at hfwd
        cases hfwd
    · exact (hT c t ht).afterCache_other (Ne.symm hc) x
  | response c' m x hm hx =>
    simp only [Sys.ackEvents] at ht
    by_cases hc : c' = c
    · subst hc
      rw [logOf_self] at ht
      cases hold : T c' with
      | none =>
        rw [hold, Tally.next_took] at ht
        cases ht
      | some t₀ =>
        obtain ⟨t', ht', hok⟩ := hR.responded_ok hI hm hx (hT _ t₀ hold)
        rw [hold, ht'] at ht
        cases ht
        exact hok
    · rw [logOf_other hc] at ht
      exact (hT c t ht).afterCache_other (Ne.symm hc) x
  | request c' m x hm hx =>
    simp only [Sys.ackEvents, hm, hx] at ht
    split at ht
    case isTrue hSG =>
      obtain ⟨invs, k, hgrants, hok⟩ := hR.granted_ok hI hm hSG.1 hSG.2 hx
      rw [hgrants] at ht
      by_cases hc : c' = c
      · subst hc
        rw [logOf_cons_self] at ht
        cases ht
        exact hok
      · rw [logOf_cons_other hc] at ht
        exact (hT c t ht).afterDir (some c') x
    case isFalse => exact (hT c t ht).afterDir (some c') x
  | data m x _ _ => exact (hT c t ht).afterDir none x
  | memory m x _ _ => exact (hT c t ht).afterDir none x

/-! ## Runs -/

theorem counted_of_run [Fintype C] {d : DataBlock n} {log : List (C × AckEvent)}
    (h : Run Sys.CountedStep (Sys.init d) log s) :
    (∃ v, Good s v) ∧ ∀ c t, tally c log = some t → t.Ok (s.node c) := by
  induction h with
  | start => exact ⟨⟨d, .init d⟩, nofun⟩
  | step _ hs ih =>
    obtain ⟨⟨v, hg⟩, hT⟩ := ih
    obtain ⟨hd⟩ := hs
    refine ⟨⟨_, (hg.step (.deliver hd)).1⟩, fun c t ht => ?_⟩
    rw [tally, logOf_append, List.foldl_append] at ht
    exact hg.counted_step hd hT c t ht

/-- Every run of the system is counted. -/
theorem Sys.run_counted {s₀ : Sys C n} {log : List (C × Callback n)} (h : Run Sys.Step s₀ log s) :
    ∃ log', Run Sys.CountedStep s₀ log' s := by
  induction h with
  | start => exact ⟨[], .start⟩
  | step _ hs ih =>
    obtain ⟨log', hr⟩ := ih
    obtain ⟨hd⟩ := hs
    exact ⟨_, .step hr (.deliver hd)⟩

/-- In every reachable state every GETM that the directory took in `S` is accounted for. -/
theorem acks_balanced [Fintype C] (d : DataBlock n) {log : List (C × AckEvent)}
    (h : Run Sys.CountedStep (Sys.init d) log s) (c : C) (t : Tally) (ht : tally c log = some t) : t.Balanced s c := by
  obtain ⟨⟨v, a, hI, hR⟩, hT⟩ := counted_of_run h
  exact hR.balanced hI (hT c t ht)

end

/-! ## Runs on given inputs -/

/-- Delivers the inputs in turn and keeps the accounts. -/
def Sys.followCounted [DecidableEq C] [Directory.Memory C n] (s : Sys C n) (is : List (DataBlock n × Input C n)) :
    Option (List (C × AckEvent) × Sys C n) :=
  exec (fun s x => (s.next x).map fun r => (s.ackEvents x.2 r.2, r.2)) s is

theorem Sys.run_followCounted [DecidableEq C] [Directory.Memory C n] {s s' : Sys C n}
    {is : List (DataBlock n × Input C n)} {log : List (C × AckEvent)} (h : s.followCounted is = some (log, s')) :
    Run Sys.CountedStep s log s' := by
  refine Run.start.exec (fun s x e s' hn => ?_) h
  obtain ⟨⟨o, s₁⟩, hr, he⟩ := Option.map_eq_some_iff.1 hn
  obtain ⟨rfl, rfl⟩ := Prod.mk.inj he
  exact .deliver (deliver_of_next hr)

/-- Cache 0 invalidates cache 1's copy, upgrading its own, and takes the acknowledgement first. -/
def ackFirst : List (DataBlock 1 × Input (Fin 2) 1) :=
  loadMiss ++ [(byte 7, .mandatory 1 .LD), (byte 7, .request 1),
    (byte 7, .response 1 ⟨.DATA_FROM_DIR, .Directory, byte 0, 0⟩), (byte 7, .mandatory 0 .ST), (byte 7, .request 0),
    (byte 7, .forward 1), (byte 7, .response 0 ⟨.ACK, .L1Cache 1, byte 0, 1⟩)]

theorem acks_balanced_ackFirst :
    ∃ r, (Sys.init (byte 0)).followCounted ackFirst = some r ∧
      tally 0 r.1 = some { invs := 1, ackCount := -1, acks := 1 } ∧
        Tally.Balanced r.2 0 { invs := 1, ackCount := -1, acks := 1 } := by
  obtain ⟨r, hr⟩ := Option.isSome_iff_exists.1
    (show ((Sys.init (byte 0)).followCounted ackFirst).isSome by decide)
  have ht : ((Sys.init (byte 0)).followCounted ackFirst).map (fun r => tally 0 r.1) =
      some (some { invs := 1, ackCount := -1, acks := 1 }) := by decide
  rw [hr] at ht
  have ht' := Option.some.inj ht
  exact ⟨r, hr, ht', acks_balanced (byte 0) (Sys.run_followCounted hr) 0 _ ht'⟩

end Msi
