import CompArch.Msi.Refines
/-!
# What the directory does

Every message to the directory either stalls or moves the phases as the
source's transition says. The contexts written out below are what the action
lists of `MSI-dir.sm` compute.
-/

namespace Msi

open Function Slicc Directory

variable {C : Type} {n : Nat}

/-! ## The channels after a transition -/

section
variable [DecidableEq C] {s : Sys C n} {x : Ctx C n}

theorem node_foldl_respond (rs : List (MachineID C × ResponseMsg C n)) (s : Sys C n) (d : C) :
    (rs.foldl Sys.respond s).node d = { s.node d with
      responseToCache := ↑((rs.filter fun r => r.1 = .L1Cache d).map (·.2)) + (s.node d).responseToCache } := by
  induction rs generalizing s with
  | nil => simp
  | cons r rs ih =>
    obtain ⟨dest, m⟩ := r
    rw [List.foldl_cons, ih]
    cases dest with
    | Directory => simp [Sys.respond]
    | L1Cache c =>
      by_cases hc : c = d
      · subst hc
        simp only [Sys.respond, update_self, decide_true, List.filter_cons_of_pos, List.map_cons, Multiset.add_cons]
        rw [← Multiset.cons_coe, Multiset.cons_add]
      · simp [Sys.respond, hc, update_of_ne (Ne.symm hc)]

theorem node_foldl_forward (fs : List (Finset (MachineID C) × RequestMsg C n)) (s : Sys C n) (d : C) :
    (fs.foldl Sys.forward s).node d = { s.node d with
      forwardToCache := (s.node d).forwardToCache ++ (fs.filter fun f => .L1Cache d ∈ f.1).map (·.2) } := by
  induction fs generalizing s with
  | nil => simp
  | cons f fs ih =>
    rw [List.foldl_cons, ih]
    by_cases hd : .L1Cache d ∈ f.1 <;> simp [Sys.forward, hd]

theorem home_foldl_respond (rs : List (MachineID C × ResponseMsg C n)) (s : Sys C n) :
    (rs.foldl Sys.respond s).dir = s.dir ∧ (rs.foldl Sys.respond s).responseToDir =
      ↑((rs.filter fun r => r.1 = .Directory).map (·.2)) + s.responseToDir ∧
      (rs.foldl Sys.respond s).memBuffer = s.memBuffer := by
  induction rs generalizing s with
  | nil => simp
  | cons r rs ih =>
    obtain ⟨dest, m⟩ := r
    obtain ⟨h1, h2, h3⟩ := ih (s.respond (dest, m))
    rw [List.foldl_cons, h1, h2, h3]
    cases dest with
    | Directory =>
      simp only [Sys.respond, decide_true, List.filter_cons_of_pos, List.map_cons, Multiset.add_cons, true_and,
        and_true]
      rw [← Multiset.cons_coe, Multiset.cons_add]
    | L1Cache c => simp [Sys.respond]

theorem home_foldl_forward (fs : List (Finset (MachineID C) × RequestMsg C n)) (s : Sys C n) :
    (fs.foldl Sys.forward s).dir = s.dir ∧ (fs.foldl Sys.forward s).responseToDir = s.responseToDir ∧
      (fs.foldl Sys.forward s).memBuffer = s.memBuffer := by
  induction fs generalizing s with
  | nil => exact ⟨rfl, rfl, rfl⟩
  | cons f fs ih => exact ih _

/-- The directory, the responses to it and memory after a transition. -/
theorem home_afterDir (s : Sys C n) (src : Option C) (x : Ctx C n) :
    (s.afterDir src x).dir = x.block ∧
      (s.afterDir src x).responseToDir = ↑((x.responses.filter fun r => r.1 = .Directory).map (·.2)) +
        (if x.poppedResponse then x.response.elim s.responseToDir s.responseToDir.erase else s.responseToDir) ∧
      (s.afterDir src x).memBuffer =
        ↑x.memoryRequests + if x.poppedMemory then x.memory.elim s.memBuffer s.memBuffer.erase else s.memBuffer := by
  obtain ⟨h1, h2, h3⟩ := home_foldl_forward x.forwards (x.responses.foldl Sys.respond ⟨fun c => { s.node c with
    requestFromCache := if x.poppedRequest ∧ src = some c then (s.node c).requestFromCache.tail
      else (s.node c).requestFromCache }, x.block,
    if x.poppedResponse then x.response.elim s.responseToDir s.responseToDir.erase else s.responseToDir,
    ↑x.memoryRequests + if x.poppedMemory then x.memory.elim s.memBuffer s.memBuffer.erase else s.memBuffer⟩)
  obtain ⟨h1', h2', h3'⟩ := home_foldl_respond x.responses _
  exact ⟨h1.trans h1', h2.trans h2', h3.trans h3'⟩

/-- The directory sends no response to itself. -/
theorem home_afterDir_caches (h : ∀ r ∈ x.responses, r.1 ≠ .Directory) (s : Sys C n) (src : Option C) :
    (s.afterDir src x).dir = x.block ∧
      (s.afterDir src x).responseToDir =
        (if x.poppedResponse then x.response.elim s.responseToDir s.responseToDir.erase else s.responseToDir) ∧
      (s.afterDir src x).memBuffer =
        ↑x.memoryRequests + if x.poppedMemory then x.memory.elim s.memBuffer s.memBuffer.erase else s.memBuffer := by
  have hn : x.responses.filter (fun r => r.1 = .Directory) = [] := by
    rw [List.filter_eq_nil_iff]
    simpa using h
  obtain ⟨h1, h2, h3⟩ := home_afterDir s src x
  exact ⟨h1, by simpa [hn] using h2, h3⟩

theorem node_afterDir (s : Sys C n) (src : Option C) (x : Ctx C n) (d : C) :
    (s.afterDir src x).node d = {
      cache := (s.node d).cache
      requestFromCache :=
        if x.poppedRequest ∧ src = some d then (s.node d).requestFromCache.tail else (s.node d).requestFromCache
      forwardToCache := (s.node d).forwardToCache ++ (x.forwards.filter fun f => .L1Cache d ∈ f.1).map (·.2)
      responseToCache :=
        ↑((x.responses.filter fun r => r.1 = .L1Cache d).map (·.2)) + (s.node d).responseToCache } := by
  rw [Sys.afterDir, node_foldl_forward, node_foldl_respond]

end

/-- What the directory's transition does to the channels of cache `c`: it takes
its request, or sends it the forwards `es`, or sends it data. -/
structure Handles [DecidableEq C] (x : Ctx C n) (src : Option C) (c : C) (q p : Phase C) (cur : DataBlock n)
    (es : List (Fwd C)) : Prop where
  state : p.state = q.state := by rfl
  copy : p.copy = true → q.copy = true := by rintro ⟨⟩
  supplies : p.supplies = true → q.supplies = true ∧ (p.owner = true → q.owner = true) := by rintro ⟨⟩
  request : (x.poppedRequest = true ∧ src = some c ∧ p.request = none) ∨
    ((x.poppedRequest = false ∨ src ≠ some c) ∧ p.request = q.request) := by exact .inl ⟨rfl, rfl, rfl⟩
  forwards : p.forwards = q.forwards ++ es := by rfl
  sent : (x.forwards.filter fun f => .L1Cache c ∈ f.1).map (·.2.fwd) = es.map some := by simp; rfl
  data : (x.responses.filter fun r => r.1 = .L1Cache c) = [] ∧ p.data = q.data ∨
    ∃ m, (x.responses.filter fun r => r.1 = .L1Cache c) = [(.L1Cache c, m)] ∧ q.data = none ∧ m.resp = p.data ∧
      m.resp ≠ none ∧ m.dataBlk = cur := by exact .inl ⟨rfl, rfl⟩

theorem NodeOk.served [DecidableEq C] {s : Sys C n} {x : Ctx C n} {src : Option C} {c : C} {q p : Phase C} {f : Nat}
    {k : Int} {cur : DataBlock n} (h : NodeOk c q f k cur (s.node c)) {es : List (Fwd C)}
    (hs : Handles x src c q p cur es) : NodeOk c p f k cur ((s.afterDir src x).node c) := by
  obtain ⟨hst, hrd, hsp, hr, hf, he, hd⟩ := hs
  obtain ⟨d, d', hb, hrd', hsp'⟩ := h.cache
  rw [node_afterDir]
  refine ⟨⟨d, d', by rw [hst]; exact hb, fun h => hrd' (hrd h), fun h => hsp' (hsp h).1⟩, ?_, fun hs m hm ho => ?_,
    ?_, ?_, fun m hm hne => ?_⟩
  · rcases hr with ⟨h1, rfl, h2⟩ | ⟨h1, h2⟩
    · rw [if_pos ⟨h1, rfl⟩, List.map_tail, h.request, h2]
      cases q.request <;> rfl
    · rw [if_neg (by rcases h1 with h1 | h1 <;> simp [h1]), h.request, h2]
  · refine h.written (hsp hs).1 m ?_ ((hsp hs).2 ho)
    dsimp only at hm
    split at hm
    · exact List.mem_of_mem_tail hm
    · exact hm
  · rw [List.map_append, h.forward, hf, List.map_append, List.map_map]
    exact congrArg _ he
  · rcases hd with ⟨h1, h2⟩ | ⟨m, h1, hq, hm, hne, -⟩
    · rw [h1, h2]
      simpa using h.response
    · rw [h1, Multiset.map_add, h.response, hq, ← hm]
      cases hmr : m.resp with
      | none => exact absurd hmr hne
      | some e => simp [hmr, Multiset.add_comm]
  · rcases hd with ⟨h1, -⟩ | ⟨m', h1, -, -, -, hcur⟩
    · rw [h1] at hm
      exact h.copies m (by simpa using hm) hne
    · rw [h1] at hm
      rcases (by simpa using hm : m = m' ∨ m ∈ (s.node c).responseToCache) with rfl | hm
      · exact hcur
      · exact h.copies m hm hne

/-- A cache the transition is not about. -/
theorem Handles.other [DecidableEq C] {x : Ctx C n} {src : Option C} {d : C} {cur : DataBlock n} (hr : src ≠ some d)
    (hf : ∀ f ∈ x.forwards, .L1Cache d ∉ f.1) (hd : ∀ r ∈ x.responses, r.1 ≠ .L1Cache d) (q : Phase C) :
    Handles x src d q q cur [] where
  copy := id
  supplies h := ⟨h, id⟩
  request := .inr ⟨.inr hr, rfl⟩
  forwards := (List.append_nil _).symm
  sent := by
    have h1 : (x.forwards.filter fun f => .L1Cache d ∈ f.1) = [] := by simpa using hf
    rw [h1]
    rfl
  data := .inl ⟨by simpa using hd, rfl⟩

/-! ## What the action lists compute -/

section
variable [DecidableEq C] {r : MachineID C} {sh ow : Finset (MachineID C)} {d d' blk : DataBlock n}

/-- Which PUT a request is, unless it is the owner's. -/
theorem Directory.requestQueue_in_put (e : Entry C n) (blk : DataBlock n) {t : CoherenceRequestType}
    (ht : t = .PUTS ∨ t = .PUTM ∧ r ∉ e.owner) : ∃ event, requestQueue_in e ⟨t, r, blk⟩ = .ok event ∧
      (event = .PUTS_Last ∧ t = .PUTS ∧ e.sharers.card < 2 ∧ r ∈ e.sharers ∨
        (event = .PUTS_NotLast ∨ event = .PUTM_NotOwner) ∧ ¬(t = .PUTS ∧ e.sharers.card < 2 ∧ r ∈ e.sharers)) := by
  rcases ht with rfl | ⟨rfl, ht⟩
  · by_cases h : e.sharers.card < 2 ∧ r ∈ e.sharers
    · exact ⟨.PUTS_Last, if_pos h, .inl ⟨rfl, rfl, h⟩⟩
    · exact ⟨.PUTS_NotLast, if_neg h, .inr ⟨.inl rfl, fun h' => h h'.2⟩⟩
  · exact ⟨.PUTM_NotOwner, if_neg ht, .inr ⟨.inr rfl, nofun⟩⟩

variable [Memory C n]

/-- A block in transition takes no new request for data. -/
theorem Directory.onRequest_stalls {st : State} (hst : st = .IS_D ∨ st = .IM_D ∨ st = .MI_A ∨ st = .MS_D ∨ st = .MS_A)
    {t : CoherenceRequestType} (ht : t = .GETS ∨ t = .GETM) :
    onRequest (blockOf st d d' sh ow) ⟨t, r, blk⟩ = .error .stall := by
  rcases hst with rfl | rfl | rfl | rfl | rfl <;> rcases ht with rfl | rfl <;> rfl

theorem Directory.onRequest_fetchS : onRequest (blockOf .I d d' sh ow) ⟨.GETS, r, blk⟩ = .ok {
    block := blockOf .IS_D d blk (insert r sh) ow, request := some ⟨.GETS, r, blk⟩
    memoryRequests := [⟨.MEMORY_READ, r, d⟩], poppedRequest := true } := rfl

theorem Directory.onRequest_fetchM : onRequest (blockOf .I d d' sh ow) ⟨.GETM, r, blk⟩ = .ok {
    block := blockOf .IM_D d blk sh {r}, request := some ⟨.GETM, r, blk⟩
    memoryRequests := [⟨.MEMORY_READ, r, d⟩], poppedRequest := true } := rfl

theorem Directory.onRequest_share : onRequest (blockOf .S d d' sh ow) ⟨.GETS, r, blk⟩ = .ok {
    block := blockOf .S d d' (insert r sh) ow, request := some ⟨.GETS, r, blk⟩
    responses := [(r, ⟨.DATA_FROM_DIR, .Directory, d, 0⟩)], poppedRequest := true } := rfl

theorem Directory.onRequest_grant : onRequest (blockOf .S d d' sh ow) ⟨.GETM, r, blk⟩ = .ok {
    block := blockOf .M d d' ∅ {r}, request := some ⟨.GETM, r, blk⟩
    responses := [(r, ⟨.DATA_FROM_DIR, .Directory, d, if r ∈ sh then 1 - (sh.card : Int) else 0 - (sh.card : Int)⟩)]
    forwards := [(sh.erase r, ⟨.INV, r, default⟩)], poppedRequest := true } := rfl

theorem Directory.onRequest_forwardS : onRequest (blockOf .M d d' sh ow) ⟨.GETS, r, blk⟩ = .ok {
    block := blockOf .MS_D d blk (insert r sh ∪ ow) ∅, request := some ⟨.GETS, r, blk⟩
    forwards := [(ow, ⟨.GETS, r, default⟩)], poppedRequest := true } := rfl

theorem Directory.onRequest_forwardM : onRequest (blockOf .M d d' ∅ ow) ⟨.GETM, r, blk⟩ = .ok {
    block := blockOf .M d d' ∅ {r}, request := some ⟨.GETM, r, blk⟩
    forwards := [(ow, ⟨.GETM, r, default⟩)], poppedRequest := true } := rfl

theorem Directory.onRequest_takeBack (hr : r ∈ ow) : onRequest (blockOf .M d d' sh ow) ⟨.PUTM, r, blk⟩ = .ok {
    block := blockOf .MI_A blk blk sh ∅, request := some ⟨.PUTM, r, blk⟩
    memoryRequests := [⟨.MEMORY_WB, r, blk⟩], poppedRequest := true } := by
  have he : requestQueue_in (blockOf .M d d' sh ow).entry ⟨.PUTM, r, blk⟩ = .ok .PUTM_Owner := by
    simp [requestQueue_in, blockOf, hr]
  rw [onRequest_eq he]
  rfl

/-- A PUT that is only acknowledged. -/
theorem Directory.onRequest_put {st : State} (hst : st = .I ∧ sh = ∅ ∧ ow = ∅ ∨ st = .IS_D ∨ st = .IM_D ∨
      st = .M ∧ sh = ∅ ∧ (∃ o, ow = {o}) ∨ st = .MI_A)
    {t : CoherenceRequestType} (ht : t = .PUTS ∨ t = .PUTM ∧ r ∉ ow) :
    onRequest (blockOf st d d' sh ow) ⟨t, r, blk⟩ = .ok {
      block := blockOf st d d' sh ow, request := some ⟨t, r, blk⟩
      forwards := [({r}, ⟨.WB_ACK, .Directory, default⟩)], poppedRequest := true } := by
  have hb : (blockOf st d d' sh ow).entry.owner = ow := by cases st <;> rfl
  obtain ⟨event, he, hev⟩ := requestQueue_in_put (blockOf st d d' sh ow).entry blk (by rwa [hb])
  replace hev : event = .PUTS_Last ∨ event = .PUTS_NotLast ∨ event = .PUTM_NotOwner := by
    rcases hev with ⟨h, -⟩ | ⟨h, -⟩
    · exact .inl h
    · exact .inr h
  rw [onRequest_eq he]
  rcases hst with ⟨rfl, rfl, rfl⟩ | rfl | rfl | ⟨rfl, rfl, o, rfl⟩ | rfl
  · rcases hev with rfl | rfl | rfl <;> exact trigger_to_I rfl rfl rfl rfl rfl
  · rcases hev with rfl | rfl | rfl <;> rfl
  · rcases hev with rfl | rfl | rfl <;> rfl
  · rcases hev with rfl | rfl | rfl <;> rfl
  · rcases hev with rfl | rfl | rfl <;> rfl

/-- A PUT of a sharer that is not the last. -/
theorem Directory.onRequest_put_shared {st : State} (hst : st = .S ∨ st = .MS_D ∨ st = .MS_A) {t : CoherenceRequestType}
    (ht : t = .PUTS ∨ t = .PUTM ∧ r ∉ ow) (hl : st = .S → ¬(t = .PUTS ∧ sh.card < 2 ∧ r ∈ sh)) :
    onRequest (blockOf st d d' sh ow) ⟨t, r, blk⟩ = .ok {
      block := blockOf st d d' (sh.erase r) ow, request := some ⟨t, r, blk⟩
      forwards := [({r}, ⟨.WB_ACK, .Directory, default⟩)], poppedRequest := true } := by
  have hb : (blockOf st d d' sh ow).entry.owner = ow := by cases st <;> rfl
  obtain ⟨event, he, hev⟩ := requestQueue_in_put (blockOf st d d' sh ow).entry blk (by rwa [hb])
  rw [onRequest_eq he]
  rcases hst with rfl | rfl | rfl <;> rcases hev with ⟨rfl, hev⟩ | ⟨rfl | rfl, -⟩ <;>
    first | rfl | exact absurd hev (hl rfl)

theorem Directory.onRequest_put_last (hs : sh.card < 2 ∧ r ∈ sh) :
    onRequest (blockOf .S d d' sh ∅) ⟨.PUTS, r, blk⟩ = .ok {
      block := blockOf .I d d' ∅ ∅, request := some ⟨.PUTS, r, blk⟩
      forwards := [({r}, ⟨.WB_ACK, .Directory, default⟩)], poppedRequest := true } := by
  have he : requestQueue_in (blockOf .S d d' sh ∅).entry ⟨.PUTS, r, blk⟩ = .ok .PUTS_Last := by
    simp [requestQueue_in, blockOf, hs]
  have hsh : sh.erase r = ∅ := by
    have := Finset.card_erase_of_mem hs.2
    exact Finset.card_eq_zero.1 (by omega)
  have hput : onRequest (blockOf .S d d' sh ∅) ⟨.PUTS, r, blk⟩ = .ok {
      block := blockOf .I d d' (sh.erase r) ∅, request := some ⟨.PUTS, r, blk⟩
      forwards := [({r}, ⟨.WB_ACK, .Directory, default⟩)], poppedRequest := true } :=
    (onRequest_eq he).trans (trigger_to_I rfl rfl rfl (Finset.card_eq_zero.2 hsh) rfl)
  rwa [hsh] at hput

theorem Directory.onResponse_reply (m : ResponseMsg C n) (hm : m.type = .DATA) :
    onResponse (blockOf .MS_D d d' sh ow) m = .ok {
      block := blockOf .MS_A m.dataBlk d' sh ow, response := some m
      memoryRequests := [⟨.MEMORY_WB, m.sender, m.dataBlk⟩], poppedResponse := true } := by
  obtain ⟨t, r, b, k⟩ := m
  obtain rfl : t = .DATA := hm
  rfl

theorem Directory.onMemory_dataS : onMemory (blockOf .IS_D d d' sh ow) ⟨.MEMORY_READ, r, blk⟩ = .ok {
    block := blockOf .S d d' sh ow, memory := some ⟨.MEMORY_READ, r, blk⟩
    responses := [(r, ⟨.DATA_FROM_DIR, .Directory, blk, 0⟩)], poppedMemory := true } := by
  have h : d.copyPartial d' (addressOffset n 0) 0 = d := DataBlock.copyPartial_zero ..
  conv_rhs => rw [← h]
  rfl

theorem Directory.onMemory_dataM {o : MachineID C} :
    onMemory (blockOf .IM_D d d' ∅ {o}) ⟨.MEMORY_READ, r, blk⟩ = .ok {
      block := blockOf .M d d' ∅ {o}, memory := some ⟨.MEMORY_READ, r, blk⟩
      responses := [(r, ⟨.DATA_FROM_DIR, .Directory, blk, 0⟩)], poppedMemory := true } := by
  have h : d.copyPartial d' (addressOffset n 0) 0 = d := DataBlock.copyPartial_zero ..
  conv_rhs => rw [← h]
  rfl

theorem Directory.onMemory_writtenBack : onMemory (blockOf .MI_A d d' ∅ ∅) ⟨.MEMORY_WB, r, blk⟩ = .ok {
    block := blockOf .I d d' ∅ ∅, memory := some ⟨.MEMORY_WB, r, blk⟩
    forwards := [({r}, ⟨.WB_ACK, r, default⟩)], poppedMemory := true } := by
  rw [onMemory_eq rfl]
  exact trigger_to_I rfl rfl rfl rfl rfl

theorem Directory.onMemory_shared : onMemory (blockOf .MS_A d d' sh ow) ⟨.MEMORY_WB, r, blk⟩ = .ok {
    block := blockOf .S d d' sh ow, memory := some ⟨.MEMORY_WB, r, blk⟩, poppedMemory := true } := rfl

end

/-! ## Steps of the whole system -/

/-- The head of a request queue is what the phase has on its way. -/
theorem NodeOk.request_head {c : C} {p : Phase C} {f : Nat} {k : Int} {cur : DataBlock n} {y : Node C n}
    (h : NodeOk c p f k cur y) {m : RequestMsg C n} (hm : y.requestFromCache.head? = some m) :
    ∃ t, p.request = some t ∧ m = ⟨t, .L1Cache c, m.dataBlk⟩ ∧
      (p.supplies = true → p.owner = true → m.dataBlk = cur) := by
  have hr := h.request
  cases hq : y.requestFromCache with
  | nil => simp [hq] at hm
  | cons m' l =>
    obtain rfl : m' = m := by simpa [hq] using hm
    cases hp : p.request with
    | none => simp [hq, hp] at hr
    | some t =>
      obtain ⟨t', r, b⟩ := m'
      simp only [hq, hp, List.map_cons, Option.map_some, Option.toList_some, List.cons.injEq, Prod.mk.injEq] at hr
      obtain ⟨⟨rfl, rfl⟩, -⟩ := hr
      exact ⟨t', rfl, rfl, fun hs ho => h.written hs _ (by rw [hq]; exact List.mem_cons_self ..) ho⟩

section
variable [Fintype C] [DecidableEq C] {s : Sys C n} {a : Abs C} {cur : DataBlock n} {c : C} {x : Ctx C n}
    {src : Option C}

theorem Safe.dir {e : Except Stop (Ctx C n)} (he : e = .ok x) (h : Good (s.afterDir src x) cur) :
    Safe cur (s.fromDir src e) := by
  subst he
  exact ⟨h, trivial⟩

theorem Safe.dir_stalled {e : Except Stop (Ctx C n)} (he : e = .error .stall) : Safe cur (s.fromDir src e) := by
  subst he
  rfl

/-- Nobody is recorded as a sharer. -/
theorem Repr.no_sharers (h : Repr s a cur) (hI : a.Inv)
    (hd : a.dir = .I ∨ (∃ o, a.dir = .M o) ∨ (∃ o, a.dir = .IM_D o) ∨ ∃ o, a.dir = .MI_A o) :
    s.dir.entry.sharers = ∅ := by
  refine Finset.eq_empty_of_forall_notMem fun m hm => ?_
  obtain ⟨c, -, hc⟩ := (h.sharers m).1 hm
  have := hI.sharer c hc
  rcases hd with hd | ⟨o, hd⟩ | ⟨o, hd⟩ | ⟨o, hd⟩ <;> simp [hd] at this

omit [Fintype C] in
theorem sharers_insert {ph : C → Phase C} {p : Phase C} (hp : p.sharer = true) (m : MachineID C) :
    (m = .L1Cache c ∨ ∃ d, m = .L1Cache d ∧ (ph d).sharer = true) ↔
      ∃ d, m = .L1Cache d ∧ (update ph c p d).sharer = true := by
  grind

omit [Fintype C] in
theorem sharers_same {ph : C → Phase C} {p : Phase C} (hp : p.sharer = (ph c).sharer) (m : MachineID C) :
    (∃ d, m = .L1Cache d ∧ (ph d).sharer = true) ↔ ∃ d, m = .L1Cache d ∧ (update ph c p d).sharer = true := by
  grind

omit [Fintype C] in
theorem sharers_erase {ph : C → Phase C} {p : Phase C} (hp : p.sharer = false) (m : MachineID C) :
    (m ≠ .L1Cache c ∧ ∃ d, m = .L1Cache d ∧ (ph d).sharer = true) ↔
      ∃ d, m = .L1Cache d ∧ (update ph c p d).sharer = true := by
  grind

/-- A transition of the directory and what it does to every cache. -/
theorem Repr.handled (h : Repr s a cur) {ph : C → Phase C} {g : DirPhase C}
    (hI' : Abs.Inv ⟨ph, g, a.inFlight, a.pending⟩) (hs : ∀ d, ∃ es, Handles x src d (a.ph d) (ph d) cur es)
    (hx : ∀ r ∈ x.responses, r.1 ≠ .Directory)
    (hhome : HomeOk g cur x.block
      (if x.poppedResponse then x.response.elim s.responseToDir s.responseToDir.erase else s.responseToDir)
      (↑x.memoryRequests + if x.poppedMemory then x.memory.elim s.memBuffer s.memBuffer.erase else s.memBuffer))
    (hsh : ∀ m, m ∈ x.block.entry.sharers ↔ ∃ d, m = .L1Cache d ∧ (ph d).sharer = true) :
    Good (s.afterDir src x) cur := by
  obtain ⟨h1, h2, h3⟩ := home_afterDir_caches hx s src
  refine ⟨_, hI', fun d => ?_, by rw [h1, h2, h3]; exact hhome, by rw [h1]; exact hsh⟩
  obtain ⟨es, hd⟩ := hs d
  exact (h.node d).served hd

/-- The directory turns to cache `c` alone. -/
theorem Repr.turn (h : Repr s a cur) {p : Phase C} {g : DirPhase C}
    (hI' : Abs.Inv ⟨update a.ph c p, g, a.inFlight, a.pending⟩) {l : List (Fwd C)}
    (hs : Handles x src c (a.ph c) p cur l)
    (hx : (src = some c ∨ src = none) ∧ (∀ f ∈ x.forwards, f.1 = {.L1Cache c}) ∧ ∀ r ∈ x.responses, r.1 = .L1Cache c)
    (hhome : HomeOk g cur x.block
      (if x.poppedResponse then x.response.elim s.responseToDir s.responseToDir.erase else s.responseToDir)
      (↑x.memoryRequests + if x.poppedMemory then x.memory.elim s.memBuffer s.memBuffer.erase else s.memBuffer))
    (hsh : ∀ m, m ∈ x.block.entry.sharers ↔ ∃ d, m = .L1Cache d ∧ (update a.ph c p d).sharer = true) :
    Good (s.afterDir src x) cur := by
  refine h.handled hI' (fun d => ?_) (fun r hr => by rw [hx.2.2 r hr]; nofun) hhome hsh
  by_cases hd : d = c
  · subst hd
    exact ⟨l, by simpa using hs⟩
  · rw [update_of_ne hd]
    refine ⟨[], .other ?_ (fun f hf => by simpa [hx.2.1 f hf] using hd)
      (fun r hr => by simpa [hx.2.2 r hr] using Ne.symm hd) _⟩
    rcases hx.1 with rfl | rfl
    · simpa using Ne.symm hd
    · nofun

/-- No cache is concerned. -/
theorem Repr.settled (h : Repr s a cur) {g : DirPhase C} (hI' : Abs.Inv ⟨a.ph, g, a.inFlight, a.pending⟩)
    (hx : x.forwards = [] ∧ x.responses = [])
    (hhome : HomeOk g cur x.block
      (if x.poppedResponse then x.response.elim s.responseToDir s.responseToDir.erase else s.responseToDir)
      (↑x.memoryRequests + if x.poppedMemory then x.memory.elim s.memBuffer s.memBuffer.erase else s.memBuffer))
    (hsh : x.block.entry.sharers = s.dir.entry.sharers) : Good (s.afterDir none x) cur := by
  refine h.handled hI' (fun d => ⟨[], ?_⟩) (by simp [hx.2]) hhome (by rw [hsh]; exact h.sharers)
  refine Handles.other ?_ ?_ ?_ _
  · nofun
  · simp [hx.1]
  · simp [hx.2]

/-- The owner is sent a forward. -/
theorem Abs.Inv.handles_owner (hI : a.Inv) {o : C} (hd : a.dir = .M o) (y : Next C) {m : RequestMsg C n}
    (hm : m.fwd = some (.serve y)) (hf : x.forwards = [({.L1Cache o}, m)]) (hr : x.responses = []) (hs : src ≠ some o) :
    Handles x src o (a.ph o) ((a.ph o).withNext y) cur [.serve y] := by
  have hsent : (x.forwards.filter fun f => .L1Cache o ∈ f.1).map (·.2.fwd) = [Fwd.serve y].map some := by simp [hf, hm]
  have hdata : (x.responses.filter fun r => r.1 = .L1Cache o) = [] := by simp [hr]
  rcases hI.owner_phase hd with ⟨g, -, hp⟩ | hp <;> rw [hp]
  · cases g <;> exact { copy := id, request := .inr ⟨.inr hs, rfl⟩, sent := hsent, data := .inl ⟨hdata, rfl⟩ }
  · exact { supplies := fun _ => ⟨rfl, nofun⟩, request := .inr ⟨.inr hs, rfl⟩, sent := hsent,
            data := .inl ⟨hdata, rfl⟩ }

/-- The directory passes the request of `c` on to the owner. -/
theorem Repr.forwarded (h : Repr s a cur) (hI : a.Inv) {o : C} (hd : a.dir = .M o) {y : Next C} {p : Phase C}
    {g : DirPhase C} (hI' : Abs.Inv ⟨update (update a.ph o ((a.ph o).withNext y)) c p, g, a.inFlight, a.pending⟩)
    (hne : c ≠ o) {m : RequestMsg C n} (hm : m.fwd = some (.serve y)) (hf : x.forwards = [({.L1Cache o}, m)])
    (hr : x.responses = []) (hs : Handles x (some c) c (a.ph c) p cur [])
    (hhome : HomeOk g cur x.block
      (if x.poppedResponse then x.response.elim s.responseToDir s.responseToDir.erase else s.responseToDir)
      (↑x.memoryRequests + if x.poppedMemory then x.memory.elim s.memBuffer s.memBuffer.erase else s.memBuffer))
    (hsh : ∀ m, m ∈ x.block.entry.sharers ↔
      ∃ d, m = .L1Cache d ∧ (update (update a.ph o ((a.ph o).withNext y)) c p d).sharer = true) :
    Good (s.afterDir (some c) x) cur := by
  refine h.handled hI' (fun d => ?_) (by simp [hr]) hhome hsh
  by_cases hc : d = c
  · subst hc
    exact ⟨[], by simpa using hs⟩
  rw [update_of_ne hc]
  by_cases ho : d = o
  · subst ho
    rw [update_self]
    exact ⟨_, hI.handles_owner hd y hm hf hr (by simpa using hne)⟩
  · rw [update_of_ne ho]
    exact ⟨[], .other (by simpa using Ne.symm hc) (by simpa [hf] using ho) (by simp [hr]) _⟩

/-- The sharers an invalidation goes to. -/
theorem Repr.sharers_others (h : Repr s a cur) :
    s.dir.entry.sharers.erase (.L1Cache c) = (a.others c).image .L1Cache := by
  ext m
  simp only [Finset.mem_erase, h.sharers, Abs.others, Finset.mem_image, Finset.mem_filter, Finset.mem_univ, true_and]
  grind

/-- The acknowledgements the directory announces are those of the sharers it invalidates. -/
theorem Repr.ackCount (h : Repr s a cur) :
    (if MachineID.L1Cache c ∈ s.dir.entry.sharers then 1 - (s.dir.entry.sharers.card : Int)
      else 0 - (s.dir.entry.sharers.card : Int)) = -((a.others c).card : Int) := by
  have hc := congrArg Finset.card (h.sharers_others (c := c))
  rw [Finset.card_image_of_injective _ fun _ _ => MachineID.L1Cache.inj] at hc
  split
  case isTrue hm =>
    have := Finset.card_erase_add_one hm
    omega
  case isFalse hm =>
    rw [Finset.erase_eq_of_notMem hm] at hc
    omega

omit [Fintype C] in
theorem Phase.Acked.handles {q p : Phase C} (hp : q.Acked p) {m : RequestMsg C n} (hm : m.type = .WB_ACK)
    (hf : x.forwards = [({.L1Cache c}, m)]) (hr : x.responses = []) (hpop : x.poppedRequest = true) :
    Handles x (some c) c q p cur [.wbAck] := by
  have hsent : (x.forwards.filter fun f => .L1Cache c ∈ f.1).map (·.2.fwd) = [Fwd.wbAck].map some := by
    simp [hf, RequestMsg.fwd, hm]
  have hdata : (x.responses.filter fun r => r.1 = .L1Cache c) = [] := by simp [hr]
  rcases hp with ⟨y, rfl, rfl⟩ | ⟨g, i, rfl, rfl⟩ | ⟨g, rfl, rfl⟩
  · exact { supplies := fun _ => ⟨rfl, by rintro ⟨⟩⟩, request := .inl ⟨hpop, rfl, rfl⟩, sent := hsent,
            data := .inl ⟨hdata, rfl⟩ }
  · exact { request := .inl ⟨hpop, rfl, rfl⟩, forwards := by cases i <;> rfl, sent := hsent, data := .inl ⟨hdata, rfl⟩ }
  · exact { request := .inl ⟨hpop, rfl, rfl⟩, sent := hsent, data := .inl ⟨hdata, rfl⟩ }

variable [Memory C n]

theorem Repr.getS (h : Repr s a cur) (hI : a.Inv) (hp : a.ph c = .getS) (blk : DataBlock n) :
    Safe cur (s.fromDir (some c) (onRequest s.dir ⟨.GETS, .L1Cache c, blk⟩)) := by
  have hk := hI.acks c
  have hsh := h.sharers
  rw [hp] at hk
  obtain ⟨⟨d, d', hb, hcur⟩, hr, hw, hm, hf⟩ := h.home
  cases hd : a.dir with
  | I =>
    rw [hd] at hb hcur hr hm
    have hz : s.memBuffer = 0 := by simpa [DirPhase.access] using hm
    have he := (congrArg (onRequest · ⟨.GETS, .L1Cache c, blk⟩) hb).trans onRequest_fetchS
    refine Safe.dir he (h.turn (p := .getSMem) (g := .IS_D c) (hI.turn (by rw [hp, hd]; exact {}) hk)
      (by rw [hp]; exact {}) (by simp) ⟨⟨d, blk, rfl, hcur⟩, hr, hw, ?_, ?_⟩ ?_)
    · simp [hz, DirPhase.access]
    · simpa [hz] using hcur rfl
    · exact fun m => Finset.mem_insert.trans ((or_congr_right (hsh m)).trans (sharers_insert rfl m))
  | S =>
    rw [hd] at hb hcur hr hm
    have he := (congrArg (onRequest · ⟨.GETS, .L1Cache c, blk⟩) hb).trans onRequest_share
    refine Safe.dir he (h.turn (p := .getSData true none) (g := .S) (hI.turn (by rw [hp, hd]; exact {}) hk)
      (by
        rw [hp]
        exact { data := .inr ⟨⟨.DATA_FROM_DIR, .Directory, d, 0⟩, by simp, rfl, rfl, by rintro ⟨⟩, hcur rfl⟩ })
      (by simp) ⟨⟨d, d', rfl, hcur⟩, hr, hw, by simpa using hm, by simpa using hf⟩ ?_)
    exact fun m => Finset.mem_insert.trans ((or_congr_right (hsh m)).trans (sharers_insert rfl m))
  | M o =>
    have hne : c ≠ o := by
      rintro rfl
      have := (hI.owner c).2 (.inl hd)
      simp [hp, Phase.owner] at this
    rw [hd] at hb hcur hr hm
    have he := (congrArg (onRequest · ⟨.GETS, .L1Cache c, blk⟩) hb).trans onRequest_forwardS
    refine Safe.dir he (h.forwarded hI hd (y := .getS c) (hI.forwardS hd hp) hne
      (m := ⟨.GETS, .L1Cache c, default⟩) rfl rfl
      rfl (by rw [hp]; exact { sent := by simp [DirPhase.owner, hne] })
      ⟨⟨d, blk, rfl, by rintro ⟨⟩⟩, hr, hw, by simpa [DirPhase.access] using hm, by simpa using hf⟩ ?_)
    have hs := (hI.asked hd (.getS c)).sharer.2
    intro m
    simp only [blockOf, Finset.mem_union, Finset.mem_insert, hsh, DirPhase.owner, Finset.mem_singleton]
    grind
  | IS_D o | IM_D o | MI_A o | MS_D o | MS_D_data o | MS_A o =>
    rw [hd] at hb
    exact Safe.dir_stalled (hb ▸ onRequest_stalls (by simp [DirPhase.state]) (.inl rfl))

/-- A GETM comes from a cache without the block, from one that is being
invalidated, or from a sharer. -/
theorem Abs.Inv.getM_phase (hI : a.Inv) (hq : (a.ph c).request = some .GETM) :
    a.ph c = .getM ∨
      (∃ d, a.ph c = .upgrade (some d) ∧ ((∃ o, a.dir = .M o) ∨ a.dir = .IM_D d ∨ ∃ e, a.dir = .MS_D e)) ∨
      (a.ph c = .upgrade none ∧
        (a.dir = .S ∨ a.dir = .IS_D c ∨ ∃ e, a.dir = .MS_D e ∨ a.dir = .MS_D_data e ∨ a.dir = .MS_A e)) := by
  cases hp : a.ph c with
  | getM => exact .inl rfl
  | upgrade i =>
    cases i with
    | none => exact .inr (.inr ⟨rfl, hI.sharer c (by rw [hp]; rfl)⟩)
    | some d =>
      have hw := (hI.holds_of_waits (Abs.waits_of_inv (c := c) (d := d) (by rw [hp]; rfl))).1
      exact .inr (.inl ⟨d, rfl, hI.holder d hw⟩)
  | evictS g i => cases g <;> simp [hp, Phase.request] at hq
  | evictI g => cases g <;> simp [hp, Phase.request] at hq
  | _ => simp [hp, Phase.request] at hq

theorem Repr.granted (h : Repr s a cur) (hI : a.Inv) (hd : a.dir = .S) {p : Phase C} (blk : DataBlock n)
    (hg : (a.ph c).Granted (a.others c).card p) (hst : p.state = (a.ph c).state ∧ p.request = none)
    (hrd : p.copy = true → (a.ph c).copy = true) (hsp : p.supplies = false)
    (hdt : (a.ph c).data = none ∧ p.data = some (.dir (-((a.others c).card : Int))))
    (hw : (a.ph c).wbAcked = false ∧ p.wbAcked = false) :
    Safe cur (s.fromDir (some c) (onRequest s.dir ⟨.GETM, .L1Cache c, blk⟩)) := by
  obtain ⟨⟨d, d', hb, hcur⟩, hr, hwr, hm, hf⟩ := h.home
  rw [hd] at hb hcur hr hm
  have he := (congrArg (onRequest · ⟨.GETM, .L1Cache c, blk⟩) hb).trans onRequest_grant
  rw [h.ackCount] at he
  have hmem : ∀ e, MachineID.L1Cache e ∈ s.dir.entry.sharers.erase (.L1Cache c) ↔ e ≠ c ∧ (a.ph e).sharer = true := by
    intro e
    rw [Finset.mem_erase, h.sharers]
    grind
  have hforw : p.forwards = (a.ph c).forwards := by
    simp only [Phase.forwards, hg.next.1, hg.next.2, hg.inv.1, hg.inv.2, hw.1, hw.2]
  refine Safe.dir he (h.handled (g := .M c) (hI.grant hd hg) (fun e => ?_) (by simp)
    ⟨⟨d, d', rfl, by rintro ⟨⟩⟩, hr, hwr, by simpa [DirPhase.access] using hm, by simpa using hf⟩ fun m => ?_)
  · by_cases hec : e = c
    · subst hec
      refine ⟨[], ?_⟩
      rw [update_self]
      exact {
        state := hst.1
        copy := hrd
        supplies := by simp [hsp]
        request := .inl ⟨rfl, rfl, hst.2⟩
        forwards := by rw [hforw, List.append_nil]
        sent := by simp
        data := .inr ⟨⟨.DATA_FROM_DIR, .Directory, d, -((a.others e).card : Int)⟩, by simp, hdt.1, hdt.2.symm,
          by rintro ⟨⟩, hcur rfl⟩ }
    · rw [update_of_ne hec]
      by_cases hs : (a.ph e).sharer = true
      · simp only [hs, if_true]
        have hin : MachineID.L1Cache e ∈ s.dir.entry.sharers.erase (.L1Cache c) := (hmem e).2 ⟨hec, hs⟩
        have hec' : c ≠ e := Ne.symm hec
        refine ⟨[.inv c], ?_⟩
        rcases hI.sharer_phase hd hs with ⟨_ | _, hp⟩ | hp | hp | ⟨_ | _, hp⟩ <;> rw [hp] <;>
          exact { copy := id, request := .inr ⟨.inr (by simpa using hec'), rfl⟩, sent := by simp [hin]; rfl,
                  data := .inl ⟨by simpa using hec', rfl⟩ }
      · simp only [hs, Bool.false_eq_true, if_false]
        exact ⟨[], .other (by simpa using Ne.symm hec) (by simp [hmem, hs]) (by simpa using Ne.symm hec) _⟩
  · simp only [blockOf, Finset.notMem_empty, false_iff, not_exists, not_and, Bool.not_eq_true]
    intro e _
    by_cases hec : e = c
    · subst hec
      rw [update_self]
      exact hg.sharer
    · rw [update_of_ne hec]
      split
      case isTrue hs => exact (hI.invalidated hd c hs).2.1
      case isFalse hs => simpa using hs

/-- The owner is asked to pass the block on to `c` for writing. -/
theorem Repr.forwardedM (h : Repr s a cur) (hI : a.Inv) {o : C} (hd : a.dir = .M o) {p : Phase C}
    (hs : (a.ph c).Sent o p) (hst : p.state = (a.ph c).state ∧ p.request = none)
    (hrd : p.copy = true → (a.ph c).copy = true) (hsp : p.supplies = false) (hdt : p.data = (a.ph c).data)
    (hf : p.forwards = (a.ph c).forwards) (blk : DataBlock n) :
    Safe cur (s.fromDir (some c) (onRequest s.dir ⟨.GETM, .L1Cache c, blk⟩)) := by
  have hne : c ≠ o := by
    rintro rfl
    have := (hI.owner c).2 (.inl hd)
    simp [hs.owner.1] at this
  have hsh := h.no_sharers hI (.inr (.inl ⟨o, hd⟩))
  obtain ⟨⟨d, d', hb, hcur⟩, hr, hw, hm, hfe⟩ := h.home
  rw [hd] at hb hcur hr hm
  rw [hsh] at hb
  have he := (congrArg (onRequest · ⟨.GETM, .L1Cache c, blk⟩) hb).trans onRequest_forwardM
  refine Safe.dir he (h.forwarded hI hd (y := .getM c) (hI.forwardM hd hs) hne (m := ⟨.GETM, .L1Cache c, default⟩) rfl
    rfl rfl ?_ ⟨⟨d, d', rfl, by rintro ⟨⟩⟩, hr, hw, by simpa [DirPhase.access] using hm, by simpa using hfe⟩
    fun m => ?_)
  · exact {
      state := hst.1
      copy := hrd
      supplies := by simp [hsp]
      request := .inl ⟨rfl, rfl, hst.2⟩
      forwards := by rw [hf, List.append_nil]
      sent := by simp [DirPhase.owner, hne]
      data := .inl ⟨rfl, hdt⟩ }
  · have hso := (hI.asked hd (.getM c)).sharer.2
    have hno : ∀ e, (a.ph e).sharer = false := by
      intro e
      rw [Bool.eq_false_iff]
      intro he
      simpa [hd] using hI.sharer e he
    have := hs.sharer
    simp only [blockOf, Finset.notMem_empty, false_iff]
    grind

theorem Repr.getM (h : Repr s a cur) (hI : a.Inv) (hq : (a.ph c).request = some .GETM) (blk : DataBlock n) :
    Safe cur (s.fromDir (some c) (onRequest s.dir ⟨.GETM, .L1Cache c, blk⟩)) := by
  have hph := hI.getM_phase hq
  have hk := hI.acks c
  cases hd : a.dir with
  | I =>
    have hp : a.ph c = .getM := by simpa [hd] using hph
    have hsh := h.no_sharers hI (.inl hd)
    obtain ⟨⟨d, d', hb, hcur⟩, hr, hw, hm, hf⟩ := h.home
    rw [hd] at hb hcur hr hm
    rw [hp] at hk
    have hz : s.memBuffer = 0 := by simpa [DirPhase.access] using hm
    have he := (congrArg (onRequest · ⟨.GETM, .L1Cache c, blk⟩) hb).trans onRequest_fetchM
    refine Safe.dir he (h.turn (p := .excl .memory none) (g := .IM_D c) (hI.turn (by rw [hp, hd]; exact {}) hk)
      (by rw [hp]; exact {}) (by simp) ⟨⟨d, blk, rfl, by rintro ⟨⟩⟩, hr, hw, ?_, ?_⟩ ?_)
    · simp [hz, DirPhase.access]
    · simpa [hz] using hcur rfl
    · exact fun m => (h.sharers m).trans (sharers_same (by rw [hp]; rfl) m)
  | S =>
    rcases hph with hp | ⟨d, -, hd'⟩ | ⟨hp, -⟩
    · exact h.granted hI hd (p := .excl (.fromDir (a.others c).card) none) blk (by rw [hp]; exact {})
        (by rw [hp]; exact ⟨rfl, rfl⟩) (by rintro ⟨⟩)
        rfl (by rw [hp]; exact ⟨rfl, rfl⟩) (by rw [hp]; exact ⟨rfl, rfl⟩)
    · simp [hd] at hd'
    · exact h.granted hI hd (p := .excl (.fromDirS (a.others c).card) none) blk (by rw [hp]; exact {})
        (by rw [hp]; exact ⟨rfl, rfl⟩)
        (by rw [hp]; exact fun _ => rfl) rfl (by rw [hp]; exact ⟨rfl, rfl⟩) (by rw [hp]; exact ⟨rfl, rfl⟩)
  | M o =>
    rcases hph with hp | ⟨d, hp, -⟩ | ⟨-, hd'⟩
    · exact h.forwardedM hI hd (p := .excl (.forwarded o) none) (by rw [hp]; exact {})
        (by rw [hp]; exact ⟨rfl, rfl⟩) (by rintro ⟨⟩)
        rfl (by rw [hp]; rfl) (by rw [hp]; rfl) blk
    · exact h.forwardedM hI hd (p := .excl (.forwardedS o d) none) (by rw [hp]; exact {}) (by rw [hp]; exact ⟨rfl, rfl⟩)
        (by rw [hp]; exact fun _ => rfl) rfl (by rw [hp]; rfl) (by rw [hp]; rfl) blk
    · simp [hd] at hd'
  | IS_D o | IM_D o | MI_A o | MS_D o | MS_D_data o | MS_A o =>
    obtain ⟨⟨d, d', hb, -⟩, -⟩ := h.home
    rw [hd] at hb
    exact Safe.dir_stalled (hb ▸ onRequest_stalls (by simp [DirPhase.state]) (.inr rfl))

/-- The owner's block comes back. -/
theorem Repr.takeBack (h : Repr s a cur) (hI : a.Inv) (hd : a.dir = .M c) (hp : a.ph c = .evictM none)
    {blk : DataBlock n}
    (hblk : blk = cur) : Safe cur (s.fromDir (some c) (onRequest s.dir ⟨.PUTM, .L1Cache c, blk⟩)) := by
  have hk := hI.acks c
  obtain ⟨⟨d, d', hb, -⟩, hr, hw, hm, hf⟩ := h.home
  rw [hd] at hb hr hm
  rw [hp] at hk
  have hz : s.memBuffer = 0 := by simpa [DirPhase.access] using hm
  have he := (congrArg (onRequest · ⟨.PUTM, .L1Cache c, blk⟩) hb).trans
    (onRequest_takeBack (by simp [DirPhase.owner]))
  refine Safe.dir he (h.turn (p := .evictMem) (g := .MI_A c) (hI.turn (by rw [hp, hd]; exact {}) hk)
    (by rw [hp]; exact {}) (by simp) ⟨⟨blk, blk, rfl, fun _ => hblk⟩, hr, hw, ?_, ?_⟩ ?_)
  · simp [hz, DirPhase.access]
  · simpa [hz] using hblk
  · exact fun m => (h.sharers m).trans (sharers_same (by rw [hp]; rfl) m)

/-- Any other PUT is acknowledged at once. -/
theorem Repr.put (h : Repr s a cur) (hI : a.Inv) {p : Phase C} (hp : (a.ph c).Acked p) {t : CoherenceRequestType}
    (ht : t = .PUTS ∨ t = .PUTM) (hq : (a.ph c).request = some t) (blk : DataBlock n) :
    Safe cur (s.fromDir (some c) (onRequest s.dir ⟨t, .L1Cache c, blk⟩)) := by
  have hps : p.sharer = false := by rcases hp with ⟨y, -, rfl⟩ | ⟨g, i, -, rfl⟩ | ⟨g, -, rfl⟩ <;> rfl
  have hown : (a.ph c).owner = false := by
    rcases hp with ⟨y, hc, -⟩ | ⟨g, i, hc, -⟩ | ⟨g, hc, -⟩ <;> rw [hc] <;> rfl
  have hmem : (a.ph c).atMemory = none := by
    rcases hp with ⟨y, hc, -⟩ | ⟨g, i, hc, -⟩ | ⟨g, hc, -⟩ <;> rw [hc] <;> rfl
  obtain ⟨⟨d, d', hb, hcur⟩, hr, hw, hm, hf⟩ := h.home
  have ht' : t = .PUTS ∨ t = .PUTM ∧ .L1Cache c ∉ a.dir.owner := by
    refine ht.imp_right fun ht => ⟨ht, fun hin => ?_⟩
    have := (hI.owner c).2 (by cases hd : a.dir <;> simp [hd, DirPhase.owner] at hin <;> simp [hin])
    simp [hown] at this
  by_cases hl : a.dir = .S ∧ t = .PUTS ∧ s.dir.entry.sharers.card < 2 ∧ .L1Cache c ∈ s.dir.entry.sharers
  · -- the last sharer: the block is `I` again
    obtain ⟨hd, rfl, hl⟩ := hl
    obtain ⟨e, he, hs⟩ := (h.sharers _).1 hl.2
    obtain rfl := MachineID.L1Cache.inj he
    have hc : ∃ g, a.ph c = .evictS g none ∧ p = .evictSAck none := by
      rcases hp with ⟨y, hc, -⟩ | ⟨g, i, hc, rfl⟩ | ⟨g, hc, -⟩
      · simp [hc, Phase.request] at hq
      · cases i with
        | none => exact ⟨g, hc, rfl⟩
        | some e => simp [hc, Phase.sharer] at hs
      · simp [hc, Phase.sharer] at hs
    obtain ⟨g, hc, rfl⟩ := hc
    have hlast : ∀ x, (a.ph x).sharer = true → x = c := fun x hx => MachineID.L1Cache.inj
      (Finset.card_le_one.1 (by omega) _ ((h.sharers _).2 ⟨x, rfl, hx⟩) _ hl.2)
    rw [hd] at hb hcur hr hm
    have he := (congrArg (onRequest · ⟨.PUTS, .L1Cache c, blk⟩) hb).trans (onRequest_put_last hl)
    refine Safe.dir he (h.turn (hI.lastShared hd hc hlast) (hp.handles rfl rfl rfl rfl) (by simp)
      ⟨⟨d, d', rfl, hcur⟩, hr, hw, by simpa [DirPhase.access] using hm, by simpa using hf⟩ fun m => ?_)
    simp only [blockOf, Finset.notMem_empty, false_iff, not_exists, not_and, Bool.not_eq_true]
    intro e _
    by_cases hec : e = c
    · rw [hec, update_self]
      rfl
    · rw [update_of_ne hec, Bool.eq_false_iff]
      exact fun he => hec (hlast e he)
  have hstay : ∀ sh, onRequest s.dir ⟨t, .L1Cache c, blk⟩ = .ok {
        block := blockOf a.dir.state d d' sh a.dir.owner, request := some ⟨t, .L1Cache c, blk⟩
        forwards := [({.L1Cache c}, ⟨.WB_ACK, .Directory, default⟩)], poppedRequest := true } →
      (∀ m, m ∈ sh ↔ ∃ e, m = .L1Cache e ∧ (update a.ph c p e).sharer = true) →
      Safe cur (s.fromDir (some c) (onRequest s.dir ⟨t, .L1Cache c, blk⟩)) := by
    intro sh he hsh
    refine Safe.dir he (h.turn (hI.put hp) (hp.handles rfl rfl rfl rfl) (by simp)
      ⟨⟨d, d', ?_, hcur⟩, hr, hw, by simpa using hm, by simpa using hf⟩ ?_)
    · cases a.dir <;> rfl
    · cases a.dir <;> exact hsh
  -- with sharers on record the requestor is taken off, otherwise it is not on record
  have hshared : (a.dir.state = .S ∨ a.dir.state = .MS_D ∨ a.dir.state = .MS_A) →
      Safe cur (s.fromDir (some c) (onRequest s.dir ⟨t, .L1Cache c, blk⟩)) := by
    intro hst
    refine hstay (s.dir.entry.sharers.erase (.L1Cache c)) ?_ fun m => ?_
    · refine (congrArg (onRequest · ⟨t, .L1Cache c, blk⟩) hb).trans (onRequest_put_shared hst ht' fun hs => ?_)
      exact fun h' => hl ⟨by cases hd : a.dir <;> simp [hd, DirPhase.state] at hs ⊢, h'⟩
    · rw [Finset.mem_erase, h.sharers]
      exact sharers_erase hps m
  have hplain : (a.ph c).sharer = false → (a.dir.state = .I ∧ s.dir.entry.sharers = ∅ ∧ a.dir.owner = ∅ ∨
        a.dir.state = .IS_D ∨ a.dir.state = .IM_D ∨
        a.dir.state = .M ∧ s.dir.entry.sharers = ∅ ∧ (∃ o, a.dir.owner = {o}) ∨ a.dir.state = .MI_A) →
      Safe cur (s.fromDir (some c) (onRequest s.dir ⟨t, .L1Cache c, blk⟩)) := by
    intro hns hst
    refine hstay s.dir.entry.sharers ?_ fun m => ?_
    · exact (congrArg (onRequest · ⟨t, .L1Cache c, blk⟩) hb).trans (onRequest_put hst ht')
    · exact (h.sharers m).trans (sharers_same (by rw [hps, hns]) m)
  have hns : a.dir.shares = false → (a.ph c).sharer = false := by
    intro hg
    rw [Bool.eq_false_iff]
    intro hs
    rcases hI.sharer c hs with hd | hd | ⟨e, hd | hd | hd⟩
    · simp [hd, DirPhase.shares] at hg
    · have := (hI.fetch_shared c).2 hd
      simp [hmem] at this
    all_goals simp [hd, DirPhase.shares] at hg
  cases hd : a.dir with
  | I =>
    exact hplain (hns (by rw [hd]; rfl)) (.inl ⟨by rw [hd]; rfl, h.no_sharers hI (.inl hd), by rw [hd]; rfl⟩)
  | S => exact hshared (.inl (by rw [hd]; rfl))
  | M o =>
    exact hplain (hns (by rw [hd]; rfl)) (.inr (.inr (.inr (.inl ⟨by rw [hd]; rfl,
      h.no_sharers hI (.inr (.inl ⟨o, hd⟩)), _, by rw [hd]; rfl⟩))))
  | IS_D o => exact hplain (hns (by rw [hd]; rfl)) (.inr (.inl (by rw [hd]; rfl)))
  | IM_D o => exact hplain (hns (by rw [hd]; rfl)) (.inr (.inr (.inl (by rw [hd]; rfl))))
  | MI_A o => exact hplain (hns (by rw [hd]; rfl)) (.inr (.inr (.inr (.inr (by rw [hd]; rfl)))))
  | MS_D e | MS_D_data e => exact hshared (.inr (.inl (by rw [hd]; rfl)))
  | MS_A e => exact hshared (.inr (.inr (by rw [hd]; rfl)))

/-- A request is taken in every state, or stalls. -/
theorem Repr.request (h : Repr s a cur) (hI : a.Inv) {m : RequestMsg C n}
    (hm : (s.node c).requestFromCache.head? = some m) : Safe cur (s.fromDir (some c) (onRequest s.dir m)) := by
  obtain ⟨t, ht, hmm, hcur⟩ := (h.node c).request_head hm
  rw [hmm]
  cases hp : a.ph c with
  | getS =>
    obtain rfl : t = .GETS := by simpa [hp, Phase.request] using ht.symm
    exact h.getS hI hp _
  | getM | upgrade i =>
    obtain rfl : t = .GETM := by simpa [hp, Phase.request] using ht.symm
    exact h.getM hI ht _
  | evictM z =>
    obtain rfl : t = .PUTM := by simpa [hp, Phase.request] using ht.symm
    cases z with
    | none =>
      have hd : a.dir = .M c := by
        rcases (hI.owner c).1 (by rw [hp]; rfl) with hd | hd
        · exact hd
        · have := (hI.fetch_own c).2 hd
          simp [hp, Phase.atMemory] at this
      exact h.takeBack hI hd hp (hcur (by rw [hp]; rfl) (by rw [hp]; rfl))
    | some y => exact h.put hI (.inl ⟨y, hp, rfl⟩) (.inr rfl) ht _
  | evictS g i =>
    exact h.put hI (.inr (.inl ⟨g, i, hp, rfl⟩)) (by cases g <;> simp [hp, Phase.request] at ht <;> simp [ht]) ht _
  | evictI g =>
    exact h.put hI (.inr (.inr ⟨g, hp, rfl⟩)) (by cases g <;> simp [hp, Phase.request] at ht <;> simp [ht]) ht _
  | _ => simp [hp, Phase.request] at ht

/-- The old owner's data reaches the directory. -/
theorem Repr.data (h : Repr s a cur) (hI : a.Inv) {m : ResponseMsg C n} (hmem : m ∈ s.responseToDir) :
    Safe cur (s.fromDir none (onResponse s.dir m)) := by
  obtain ⟨⟨d, d', hb, -⟩, hr, hw, hm, -⟩ := h.home
  have hcur := hw m hmem
  cases hg : a.dir.reply with
  | none =>
    rw [hg, Option.elim_none, Multiset.map_eq_zero] at hr
    simp [hr] at hmem
  | some e =>
    have hd : a.dir = .MS_D_data e := by cases hd : a.dir <;> simp [hd, DirPhase.reply] at hg ⊢; exact hg
    rw [hg, Option.elim_some] at hr
    obtain ⟨m', hs, hm'⟩ := Multiset.map_eq_singleton.1 hr
    obtain rfl : m = m' := by simpa [hs] using hmem
    obtain ⟨hty, hsend⟩ := Prod.mk.inj hm'
    rw [hd] at hb hm
    have hz : s.memBuffer = 0 := by simpa [DirPhase.access] using hm
    have he := (congrArg (onResponse · m) hb).trans (onResponse_reply m hty)
    refine Safe.dir he (h.settled (hI.settle (.inl ⟨hd, rfl⟩)) ⟨rfl, rfl⟩
      ⟨⟨m.dataBlk, d', rfl, fun _ => hcur⟩, ?_, ?_, ?_, ?_⟩ rfl)
    · simp [hs, DirPhase.reply]
    · simp [hs]
    · simp [hz, DirPhase.access, hsend]
    · simpa [hz] using hcur

/-- Memory answers. -/
theorem Repr.memory (h : Repr s a cur) (hI : a.Inv) {m : MemoryMsg C n} (hmem : m ∈ s.memBuffer) :
    Safe cur (s.fromDir none (onMemory s.dir m)) := by
  have hsh := h.sharers
  obtain ⟨⟨d, d', hb, hcd⟩, hr, hw, hm, hf⟩ := h.home
  have hcur := hf m hmem
  cases hg : a.dir.access with
  | none =>
    rw [hg, Option.elim_none, Multiset.map_eq_zero] at hm
    simp [hm] at hmem
  | some tc =>
    obtain ⟨t, c⟩ := tc
    rw [hg, Option.elim_some] at hm
    obtain ⟨m', hs, hm'⟩ := Multiset.map_eq_singleton.1 hm
    obtain rfl : m = m' := by simpa [hs] using hmem
    obtain ⟨ty, r, blk⟩ := m
    obtain ⟨hty, hreq⟩ := Prod.mk.inj hm'
    obtain rfl : ty = t := hty
    obtain rfl : r = .L1Cache c := hreq
    have hk := hI.acks c
    cases hd : a.dir <;> simp [hd, DirPhase.access] at hg <;> obtain ⟨rfl, rfl⟩ := hg <;> rw [hd] at hb hcd hr
    case IS_D c =>
      have hp : a.ph c = .getSMem := by simpa using Phase.of_atMemory ((hI.fetch_shared c).2 hd)
      rw [hp] at hk
      have he := (congrArg (onMemory · ⟨.MEMORY_READ, .L1Cache c, blk⟩) hb).trans onMemory_dataS
      refine Safe.dir he (h.turn (p := .getSData true none) (g := .S) (hI.turn (by rw [hp, hd]; exact {}) hk)
        (by
          rw [hp]
          exact { request := .inr ⟨.inl rfl, rfl⟩
                  data := .inr ⟨⟨.DATA_FROM_DIR, .Directory, blk, 0⟩, by simp, rfl, rfl, by rintro ⟨⟩, hcur⟩ })
        (by simp) ⟨⟨d, d', rfl, hcd⟩, hr, hw, by simp [hs, DirPhase.access], by simp [hs]⟩ ?_)
      exact fun m => (hsh m).trans (sharers_same (by rw [hp]; rfl) m)
    case IM_D c =>
      have hp : a.ph c = .excl .memory none := by
        obtain ⟨z, hp⟩ : ∃ z, a.ph c = .excl .memory z := by simpa using Phase.of_atMemory ((hI.fetch_own c).2 hd)
        have howner := (hI.owner c).2 (.inr hd)
        rw [hp] at howner ⊢
        cases z with
        | none => rfl
        | some y => cases howner
      rw [hp] at hk
      have hno := h.no_sharers hI (.inr (.inr (.inl ⟨c, hd⟩)))
      rw [hno] at hb
      have he := (congrArg (onMemory · ⟨.MEMORY_READ, .L1Cache c, blk⟩) hb).trans onMemory_dataM
      refine Safe.dir he (h.turn (p := .excl (.fromDir 0) none) (g := .M c)
        (hI.turn (by rw [hp, hd]; exact {}) (by obtain ⟨h1, h2⟩ := hk; simp [h1, h2, Abs.acksOk]))
        (by
          rw [hp]
          exact { request := .inr ⟨.inl rfl, rfl⟩
                  data := .inr ⟨⟨.DATA_FROM_DIR, .Directory, blk, 0⟩, by simp, rfl, rfl, by rintro ⟨⟩, hcur⟩ })
        (by simp) ⟨⟨d, d', rfl, by rintro ⟨⟩⟩, hr, hw, by simp [hs, DirPhase.access], by simp [hs]⟩ ?_)
      have hsm := fun m => (hsh m).trans (sharers_same (p := .excl (.fromDir 0) none) (by rw [hp]; rfl) m)
      rwa [hno] at hsm
    case MI_A c =>
      have hp : a.ph c = .evictMem := by simpa using Phase.of_atMemory ((hI.writeback c).2 hd)
      rw [hp] at hk
      have hno := h.no_sharers hI (.inr (.inr (.inr ⟨c, hd⟩)))
      rw [hno] at hb
      have he := (congrArg (onMemory · ⟨.MEMORY_WB, .L1Cache c, blk⟩) hb).trans onMemory_writtenBack
      refine Safe.dir he (h.turn (p := .evictMAck none) (g := .I) (l := [.wbAck])
        (hI.turn (by rw [hp, hd]; exact {}) hk)
        (by rw [hp]; exact { request := .inr ⟨.inl rfl, rfl⟩ })
        (by simp) ⟨⟨d, d', rfl, hcd⟩, hr, hw, by simp [hs, DirPhase.access], by simp [hs]⟩ ?_)
      have hsm := fun m => (hsh m).trans (sharers_same (p := .evictMAck none) (by rw [hp]; rfl) m)
      rwa [hno] at hsm
    case MS_A e =>
      have he := (congrArg (onMemory · ⟨.MEMORY_WB, .L1Cache e, blk⟩) hb).trans onMemory_shared
      exact Safe.dir he (h.settled (g := .S) (hI.settle (.inr ⟨hd, rfl⟩)) ⟨rfl, rfl⟩
        ⟨⟨d, d', rfl, hcd⟩, hr, hw, by simp [hs, DirPhase.access], by simp [hs]⟩ rfl)

end

end Msi
