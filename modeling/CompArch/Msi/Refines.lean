import CompArch.Msi.Invariant
import CompArch.Msi.System
/-!
# What a phase stands for

`Repr s a cur` relates a state of the controllers and their channels to the
phases of the caches. Everything in the channels is determined by the phases
up to the senders of acknowledgements; `cur` is the block's current value, and
every copy that may still be read or passed on is equal to it.
-/

namespace Msi

open Function Slicc

variable {C : Type} {n : Nat}

/-! ## Messages without their data -/

inductive Fwd (C : Type)
  | inv (d : C)
  | serve (y : Next C)
  | wbAck
  deriving DecidableEq

inductive Resp
  | ack
  | owner
  | dir (ackCount : Int)
  deriving DecidableEq

def RequestMsg.fwd (m : RequestMsg C n) : Option (Fwd C) :=
  match m.type, m.requestor with
  | .INV, .L1Cache d => some (.inv d)
  | .GETS, .L1Cache r => some (.serve (.getS r))
  | .GETM, .L1Cache r => some (.serve (.getM r))
  | .WB_ACK, _ => some .wbAck
  | _, _ => none

def ResponseMsg.resp (m : ResponseMsg C n) : Option Resp :=
  match m.type with
  | .ACK => if m.ackCount = 1 then some .ack else none
  | .DATA_FROM_OWNER => some .owner
  | .DATA_FROM_DIR => some (.dir m.ackCount)
  | .DATA => none

namespace Phase

/-- The request on its way to the directory. -/
def request : Phase C → Option CoherenceRequestType
  | getS => some .GETS
  | getM | upgrade _ => some .GETM
  | evictM _ | evictS true _ | evictI true => some .PUTM
  | evictS false _ | evictI false => some .PUTS
  | idle | getSMem | getSFwd _ | getSData _ _ | shared _ | excl _ _ | evictMem | evictMAck _ | evictSAck _
  | evictIAck => none

/-- The directory has acknowledged the eviction. -/
def wbAcked : Phase C → Bool
  | evictMAck _ | evictSAck _ | evictIAck => true
  | _ => false

/-- What waits in the cache's forward queue. -/
def forwards (p : Phase C) : List (Fwd C) :=
  (p.inv.map .inv).toList ++ (p.next.map .serve).toList ++ if p.wbAcked then [.wbAck] else []

theorem forwards_cons {p : Phase C} {e : Fwd C} {l : List (Fwd C)} (h : p.forwards = e :: l) :
    match e with
    | .inv d => p.inv = some d
    | .serve z => p.inv = none ∧ p.next = some z
    | .wbAck => p.inv = none ∧ p.next = none ∧ p.wbAcked = true := by
  unfold forwards at h
  cases hi : p.inv <;> cases hn : p.next <;> cases hw : p.wbAcked <;> simp [hi, hn, hw] at h <;>
    (obtain ⟨rfl, -⟩ := h; simp)

/-- The data on its way to the cache. -/
def data : Phase C → Option Resp
  | getSData true _ => some (.dir 0)
  | getSData false _ | excl .fromOwner _ => some .owner
  | excl (.fromDir k) _ | excl (.fromDirS k) _ => some (.dir (-k))
  | _ => none

/-- A load would hit. -/
def reads : Phase C → Bool
  | shared _ | upgrade _ | excl (.forwardedS _ _) _ | excl (.fromDirS _) _ | excl .acksS _ | excl .done _ => true
  | _ => false

/-- The cache entry has a current copy, readable or about to be overwritten. -/
def copy : Phase C → Bool
  | excl .acks _ => true
  | p => p.reads

theorem copy_of_reads {p : Phase C} (h : p.reads = true) : p.copy = true := by
  cases p with
  | excl g x => cases g <;> first | rfl | cases h
  | _ => first | rfl | cases h

/-- The TBE has the only copy that is known to be current. -/
def supplies : Phase C → Bool
  | evictM _ | evictMAck (some _) => true
  | _ => false

/-- Some copy of the cache's has to be current. -/
def fresh (p : Phase C) : Bool := p.copy || p.supplies || p.data.isSome

end Phase

/-! ## One cache -/

/-- A cache's block in state `st`. -/
def L1Cache.blockOf (st : L1Cache.State) (k : Int) (d d' : DataBlock n) : L1Cache.Block n :=
  match st with
  | .I => {}
  | .S | .M => { entry := some ⟨st, d⟩ }
  | .IS_D | .IM_AD | .IM_A | .SM_AD | .SM_A | .MI_A | .SI_A | .II_A =>
    { entry := some ⟨st, d⟩, tbe := some ⟨st, d', k⟩ }

/-- Cache `c` and its channels in phase `p`, with `f` acknowledgements in
flight and `k` more taken than announced. -/
structure NodeOk (c : C) (p : Phase C) (f : Nat) (k : Int) (cur : DataBlock n) (y : Node C n) : Prop where
  cache : ∃ d d', y.cache = L1Cache.blockOf p.state k d d' ∧ (p.copy = true → d = cur) ∧ (p.supplies = true → d' = cur)
  request : y.requestFromCache.map (fun m => (m.type, m.requestor)) = (p.request.map (·, .L1Cache c)).toList
  written : p.supplies = true → ∀ m ∈ y.requestFromCache, p.owner = true → m.dataBlk = cur
  forward : y.forwardToCache.map RequestMsg.fwd = p.forwards.map some
  response : y.responseToCache.map ResponseMsg.resp = Multiset.replicate f (some .ack) + p.data.elim 0 ({some ·})
  copies : ∀ m ∈ y.responseToCache, m.type ≠ .ACK → m.dataBlk = cur

/-! ## The directory -/

namespace DirPhase

def state : DirPhase C → Directory.State
  | I => .I
  | S => .S
  | M _ => .M
  | IS_D _ => .IS_D
  | IM_D _ => .IM_D
  | MI_A _ => .MI_A
  | MS_D _ | MS_D_data _ => .MS_D
  | MS_A _ => .MS_A

def owner : DirPhase C → Finset (MachineID C)
  | M o | IM_D o => {.L1Cache o}
  | _ => ∅

/-- The memory access in progress. -/
def access : DirPhase C → Option (MemoryRequestType × C)
  | IS_D c | IM_D c => some (.MEMORY_READ, c)
  | MI_A c | MS_A c => some (.MEMORY_WB, c)
  | _ => none

/-- The old owner whose data is on its way. -/
def reply : DirPhase C → Option C
  | MS_D_data e => some e
  | _ => none

/-- The directory's copy is current. -/
def current : DirPhase C → Bool
  | I | S | IS_D _ | MI_A _ | MS_A _ => true
  | M _ | IM_D _ | MS_D _ | MS_D_data _ => false

end DirPhase

/-- The directory's block in state `st`. -/
def Directory.blockOf (st : Directory.State) (d d' : DataBlock n) (sharers owner : Finset (MachineID C)) :
    Directory.Block C n :=
  match st with
  | .I | .S | .M => { entry := ⟨st, d, sharers, owner⟩ }
  | .IS_D | .IM_D | .MI_A | .MS_D | .MS_A => { entry := ⟨st, d, sharers, owner⟩, tbe := some ⟨0, st, d', 0⟩ }

/-- The directory, the data on its way to it and memory in phase `g`. -/
structure HomeOk (g : DirPhase C) (cur : DataBlock n) (dir : Directory.Block C n)
    (responseToDir : Multiset (ResponseMsg C n)) (memBuffer : Multiset (MemoryMsg C n)) : Prop where
  dir : ∃ d d', dir = Directory.blockOf g.state d d' dir.entry.sharers g.owner ∧ (g.current = true → d = cur)
  data : responseToDir.map (fun m => (m.type, m.sender)) = g.reply.elim 0 fun e => {(.DATA, .L1Cache e)}
  written : ∀ m ∈ responseToDir, m.dataBlk = cur
  memory : memBuffer.map (fun m => (m.type, m.originalRequestorMachId)) =
    g.access.elim 0 fun r => {(r.1, .L1Cache r.2)}
  fetched : ∀ m ∈ memBuffer, m.dataBlk = cur

/-- The state of the controllers, the channels and memory when the phases are
`a` and the block's value is `cur`. -/
structure Repr (s : Sys C n) (a : Abs C) (cur : DataBlock n) : Prop where
  node : ∀ c, NodeOk c (a.ph c) (a.inFlight c) (a.pending c) cur (s.node c)
  home : HomeOk a.dir cur s.dir s.responseToDir s.memBuffer
  sharers : ∀ m, m ∈ s.dir.entry.sharers ↔ ∃ c, m = .L1Cache c ∧ (a.ph c).sharer = true

/-- What a phase says of the directory's own state. -/
theorem HomeOk.getState {g : DirPhase C} {cur : DataBlock n} {b : Directory.Block C n}
    {rs : Multiset (ResponseMsg C n)} {ms : Multiset (MemoryMsg C n)} (h : HomeOk g cur b rs ms) :
    b.getState = g.state ∧ b.entry.owner = g.owner ∧ (g.current = true → b.entry.dataBlk = cur) := by
  obtain ⟨d, d', hb, hd⟩ := h.dir
  rw [hb]
  cases g <;> exact ⟨rfl, rfl, hd⟩

/-! ## Messages there have to be -/

theorem NodeOk.mem_of_data {c : C} {p : Phase C} {f : Nat} {k : Int} {cur : DataBlock n} {y : Node C n}
    (h : NodeOk c p f k cur y) (hd : p.data.isSome = true) :
    ∃ m ∈ y.responseToCache, m.type ≠ .ACK ∧ m.dataBlk = cur := by
  obtain ⟨r, hr⟩ := Option.isSome_iff_exists.1 hd
  have hm : some r ∈ y.responseToCache.map ResponseMsg.resp := by simp [h.response, hr]
  obtain ⟨m, hm, he⟩ := Multiset.mem_map.1 hm
  have hne : m.type ≠ .ACK := by
    intro ht
    simp only [ResponseMsg.resp, ht] at he
    split at he
    · cases he
      cases p with
      | excl g x => cases g <;> simp [Phase.data] at hr
      | getSData b i => cases b <;> simp [Phase.data] at hr
      | _ => simp [Phase.data] at hr
    · cases he
  exact ⟨m, hm, hne, h.copies m hm hne⟩

theorem HomeOk.mem_of_access {g : DirPhase C} {cur : DataBlock n} {b : Directory.Block C n}
    {rs : Multiset (ResponseMsg C n)} {ms : Multiset (MemoryMsg C n)} (h : HomeOk g cur b rs ms)
    {t : MemoryRequestType} {c : C} (hg : g.access = some (t, c)) : ∃ m ∈ ms, m.type = t ∧ m.dataBlk = cur := by
  have hm : (t, MachineID.L1Cache c) ∈ ms.map (fun m => (m.type, m.originalRequestorMachId)) := by
    simp [h.memory, hg]
  obtain ⟨m, hm, he⟩ := Multiset.mem_map.1 hm
  exact ⟨m, hm, (Prod.mk.inj he).1, h.fetched m hm⟩

/-! ## What a completed store makes stale -/

theorem only_acks_of {f : Nat} {ms : Multiset (ResponseMsg C n)}
    (h : ms.map ResponseMsg.resp = Multiset.replicate f (some .ack)) : ∀ m ∈ ms, m.type = .ACK := by
  intro m hm
  have := Multiset.mem_map_of_mem ResponseMsg.resp hm
  rw [h, Multiset.mem_replicate] at this
  cases ht : m.type <;> simp [ResponseMsg.resp, ht] at this ⊢

theorem NodeOk.only_acks {c : C} {p : Phase C} {f : Nat} {k : Int} {cur : DataBlock n} {y : Node C n}
    (h : NodeOk c p f k cur y) (hp : p.data = none) : ∀ m ∈ y.responseToCache, m.type = .ACK :=
  only_acks_of (f := f) (by simpa [hp] using h.response)

/-- A copy that nobody needs to be current can be anything. -/
theorem NodeOk.forget {c : C} {p : Phase C} {f : Nat} {k : Int} {cur : DataBlock n} {y : Node C n}
    (h : NodeOk c p f k cur y) (hp : p.fresh = false) (v : DataBlock n) : NodeOk c p f k v y := by
  simp only [Phase.fresh, Bool.or_eq_false_iff] at hp
  obtain ⟨⟨hr, hs⟩, hd⟩ := hp
  have hacks := h.only_acks (by simpa using hd)
  obtain ⟨⟨d, d', hb, -, -⟩, hq, -, hf, hm, -⟩ := h
  exact ⟨⟨d, d', hb, by simp [hr], by simp [hs]⟩, hq, by simp [hs], hf, hm, fun m hmem hne => absurd (hacks m hmem) hne⟩

/-- While a cache can store, the directory's copy, the data it was sent and
what memory has are not used. -/
theorem HomeOk.forget {g : DirPhase C} {cur : DataBlock n} {b : Directory.Block C n}
    {rs : Multiset (ResponseMsg C n)} {ms : Multiset (MemoryMsg C n)} (h : HomeOk g cur b rs ms)
    (hg : (∃ o, g = .M o) ∨ ∃ e, g = .MS_D e) (v : DataBlock n) : HomeOk g v b rs ms := by
  obtain ⟨⟨d, d', hb, -⟩, hr, -, hm, -⟩ := h
  refine ⟨⟨d, d', hb, ?_⟩, hr, fun m hmem => ?_, hm, fun m hmem => ?_⟩
  · rcases hg with ⟨o, rfl⟩ | ⟨e, rfl⟩ <;> simp [DirPhase.current]
  · have : rs = 0 := by
      rcases hg with ⟨o, rfl⟩ | ⟨e, rfl⟩ <;> simpa [DirPhase.reply] using hr
    simp [this] at hmem
  · have : ms = 0 := by
      rcases hg with ⟨o, rfl⟩ | ⟨e, rfl⟩ <;> simpa [DirPhase.access] using hm
    simp [this] at hmem

/-- Why a copy may have to be current: it is shared, it is about to be
invalidated, or the cache holds the block. -/
theorem Phase.of_fresh {p : Phase C} (h : p.fresh = true) :
    (p.sharer = true ∧ p.downgrades = false ∧ p.readFrom = none) ∨ (∃ d, p.inv = some d) ∨ p.holds = true := by
  cases p with
  | excl g x => cases g <;> simp [fresh, copy, reads, supplies, data, inv, holds] at h ⊢
  | evictMAck x => cases x <;> simp [fresh, copy, reads, supplies, data, holds] at h ⊢
  | getSData b i => cases i <;> simp [sharer, downgrades, readFrom, inv]
  | shared i => cases i <;> simp [sharer, downgrades, readFrom, inv]
  | upgrade i => cases i <;> simp [sharer, downgrades, readFrom, inv]
  | _ => simp [fresh, copy, reads, supplies, data, holds] at h ⊢

section
variable [Fintype C] [DecidableEq C]

/-- Once one cache can store, the directory is in `M` or waits for the owner's data. -/
theorem Abs.Inv.dir_of_done {a : Abs C} (h : a.Inv) {c : C} {x : Option (Next C)} (hc : a.ph c = .excl .done x) :
    (∃ o, a.dir = .M o) ∨ ∃ e, a.dir = .MS_D e := by
  rcases h.holder c (by rw [hc]; rfl) with ho | ho | he
  · exact .inl ho
  · have := (h.fetch_own c).2 ho
    rw [hc] at this
    cases this
  · exact .inr he

/-- Once one cache can store, no other copy is current. -/
theorem Abs.Inv.quiet {a : Abs C} (h : a.Inv) {c : C} {x : Option (Next C)} (hc : a.ph c = .excl .done x) {d : C}
    (hd : d ≠ c) : (a.ph d).fresh = false := by
  have hh : (a.ph c).holds = true := by rw [hc]; rfl
  rw [Bool.eq_false_iff]
  intro hf
  rcases Phase.of_fresh hf with ⟨hs, hg, hr⟩ | ⟨d', hi⟩ | hd'
  · rcases h.dir_of_done hc with ⟨o, ho⟩ | ⟨e, he⟩
    · simpa [ho] using h.sharer d hs
    · rcases h.downgrade_sharer d e he hs with rfl | hr'
      · simp [(h.downgrade d).2 he] at hg
      · simp [hr'] at hr
  · obtain ⟨hk, hm, -⟩ := h.holds_of_waits (waits_of_inv hi)
    rw [h.holder_unique d' c hk hh, hc] at hm
    exact hm rfl
  · exact hd (h.holder_unique d c hd' hh)

end

/-! ## Repr after a step -/

section
variable [DecidableEq C]

/-- The sharers stay what they are when only the phase of `c` changed, and not whether it shares. -/
theorem Repr.sharers_congr {s : Sys C n} {a b : Abs C} {cur : DataBlock n} (h : Repr s a cur) {c : C}
    (hs : (b.ph c).sharer = (a.ph c).sharer) (he : ∀ d ≠ c, b.ph d = a.ph d) (m : MachineID C) :
    m ∈ s.dir.entry.sharers ↔ ∃ d, m = .L1Cache d ∧ (b.ph d).sharer = true := by
  rw [h.sharers m]
  refine exists_congr fun d => and_congr_right fun _ => ?_
  by_cases hc : d = c
  · rw [hc, hs]
  · rw [he d hc]

/-- Only cache `c` and its channels changed. -/
theorem Repr.update_node {s : Sys C n} {a b : Abs C} {cur : DataBlock n} (h : Repr s a cur) {c : C} {y : Node C n}
    (hy : NodeOk c (b.ph c) (b.inFlight c) (b.pending c) cur y) (hs : (b.ph c).sharer = (a.ph c).sharer)
    (he : ∀ d ≠ c, b.ph d = a.ph d ∧ b.inFlight d = a.inFlight d ∧ b.pending d = a.pending d)
    (hd : b.dir = a.dir) : Repr { s with node := update s.node c y } b cur := by
  refine ⟨fun d => ?_, by rw [hd]; exact h.home, fun m => ?_⟩
  · by_cases hc : d = c
    · subst hc
      simpa using hy
    · obtain ⟨h1, h2, h3⟩ := he d hc
      simpa [hc, h1, h2, h3] using h.node d
  · exact h.sharers_congr hs (fun d hc => (he d hc).1) m

/-- The same, when `c` completed a store of `v`. -/
theorem Repr.update_node_store [Fintype C] {s : Sys C n} {a a' : Abs C} {cur v : DataBlock n} (h : Repr s a cur) {c : C}
    {y : Node C n} {x : Option (Next C)} (hp : a'.ph c = .excl .done x)
    (hy : NodeOk c (a'.ph c) (a'.inFlight c) (a'.pending c) v y) (hs : (a'.ph c).sharer = (a.ph c).sharer)
    (he : ∀ d ≠ c, a'.ph d = a.ph d ∧ a'.inFlight d = a.inFlight d ∧ a'.pending d = a.pending d)
    (hd : a'.dir = a.dir) (hi : a'.Inv) : Repr { s with node := update s.node c y } a' v := by
  refine ⟨fun d => ?_, ?_, fun m => ?_⟩
  · by_cases hc : d = c
    · subst hc
      simpa using hy
    · obtain ⟨h1, h2, h3⟩ := he d hc
      have hq := hi.quiet hp hc
      rw [h1] at hq
      simpa [hc, h1, h2, h3] using (h.node d).forget hq v
  · rw [hd]
    exact h.home.forget (hd ▸ hi.dir_of_done hp) v
  · exact h.sharers_congr hs (fun d hc => (he d hc).1) m

end

/-! ## The block's value along a run -/

/-- The value of the most recent store in `log`, or `d` when there is none. -/
def lastValue (d : DataBlock n) : List (C × Callback n) → DataBlock n
  | [] => d
  | (_, .writeCallback _ v) :: log => lastValue v log
  | (_, .popMandatory _) :: log | (_, .readCallback _ _) :: log | (_, .evictionCallback) :: log => lastValue d log

/-- Every load in `log` returns the value of the store before it. -/
def LoadsOk (d : DataBlock n) : List (C × Callback n) → Prop
  | [] => True
  | (_, .readCallback _ v) :: log => v = d ∧ LoadsOk d log
  | (_, .writeCallback _ v) :: log => LoadsOk v log
  | (_, .popMandatory _) :: log | (_, .evictionCallback) :: log => LoadsOk d log

@[simp] theorem lastValue_append (d : DataBlock n) (l l' : List (C × Callback n)) :
    lastValue d (l ++ l') = lastValue (lastValue d l) l' := by
  fun_induction lastValue d l <;> simp_all [lastValue]

theorem loadsOk_append (d : DataBlock n) (l l' : List (C × Callback n)) :
    LoadsOk d (l ++ l') ↔ LoadsOk d l ∧ LoadsOk (lastValue d l) l' := by
  fun_induction LoadsOk d l <;> simp_all [LoadsOk, lastValue, and_assoc]

/-- Some phases fit the state, and the block's value is `cur`. -/
def Good [Fintype C] [DecidableEq C] (s : Sys C n) (cur : DataBlock n) : Prop := ∃ a : Abs C, a.Inv ∧ Repr s a cur

/-- A transition that leaves the message where it is or leads to a good state. -/
def Safe [Fintype C] [DecidableEq C] (cur : DataBlock n) : Except Stop (List (C × Callback n) × Sys C n) → Prop
  | .error e => e = .stall
  | .ok (o, s') => Good s' (lastValue cur o) ∧ LoadsOk cur o

end Msi
