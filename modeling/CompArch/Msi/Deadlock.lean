import CompArch.Msi.Net
import CompArch.Msi.Waits
/-!
# Deadlock

The oldest of the forwards at the heads of the queues never stalls, as long as
no forward that can stall gets in front of one that somebody waits for. With
one directory forwards arrive in the order they were sent, so it cannot; with
several it can, and then caches wait for each other in a circle.
-/

namespace Msi

open Function Slicc Lts Arrival

/-! ## The heads of the queues -/

namespace Net

section
variable {B C D : Type} {n : Nat} [DecidableEq C]

/-- What happens to the head of a port's queue, if there is one. -/
def tryPort [Directory.Memory C n] (N : Net B C D n) (stored : DataBlock n) (p : Port C D) :
    Option (Except Stop Unit) :=
  match N.atCache stored (.head p), N.atDir (.head p) with
  | some (_, _, e), _ => some (e.map fun _ => ())
  | none, some (_, _, e) => some (e.map fun _ => ())
  | none, none => none

/-- Some message of the network or of memory is on its way. -/
def InFlight (N : Net B C D n) : Prop :=
  (∃ c, N.forwardToCache c ≠ [] ∨ N.responseToCache c ≠ []) ∨
    ∃ δ, N.requestToDir δ ≠ [] ∨ N.responseToDir δ ≠ [] ∨ N.memBuffer δ ≠ []

/-- Some controller is in a transient state. -/
def Transient (N : Net B C D n) : Prop :=
  (∃ c b, (N.cache c b).getState.transient = true) ∨ ∃ b, (N.dir b).getState.busy = true

/-- There are messages, and whatever is at the head of a queue stalls. -/
def Deadlocked [Directory.Memory C n] (N : Net B C D n) (stored : DataBlock n) : Prop :=
  N.InFlight ∧ ∀ p r, N.tryPort stored p = some r → r = .error .stall

/-! ## The order of the forwards -/

/-- The forward queues with the times their messages were sent at. A forward
that can stall is not in front of an older one that somebody waits for, and
what its own cache waits for was sent before it. -/
structure Ordered (N : Net B C D n) (Q : C → List (Nat × B × RequestMsg C n)) (now : Nat) : Prop where
  queue : ∀ c, (Q c).map (·.2) = N.forwardToCache c
  past : ∀ c, ∀ e ∈ Q c, e.1 < now
  front : ∀ c, (Q c).Pairwise fun e e' => e.2.2.serves → e'.2.2.wanted → e.1 < e'.1
  earlier : ∀ c c', ∀ e ∈ Q c, ∀ e' ∈ Q c', e.2.1 = e'.2.1 → e.2.2.serves → e'.2.2.wanted →
    e'.2.2.requestor = .L1Cache c → e'.1 < e.1

omit [DecidableEq C] in
theorem Ordered.init (d : B → DataBlock n) : (Net.init d : Net B C D n).Ordered (fun _ => []) 0 :=
  ⟨fun _ => rfl, nofun, fun _ => .nil, nofun⟩

omit [DecidableEq C] in
/-- The queues lose messages only. -/
theorem Ordered.sublist {N N' : Net B C D n} {Q Q' : C → List (Nat × B × RequestMsg C n)} {now : Nat}
    (h : N.Ordered Q now) (hq : ∀ c, (Q' c).map (·.2) = N'.forwardToCache c) (hs : ∀ c, (Q' c).Sublist (Q c)) :
    N'.Ordered Q' now where
  queue := hq
  past c e he := h.past c e ((hs c).mem he)
  front c := (h.front c).sublist (hs c)
  earlier c c' e he e' he' := h.earlier c c' e ((hs c).mem he) e' ((hs c').mem he')

end

section
variable {B C D : Type} {n : Nat} [Fintype C] [DecidableEq B] [DecidableEq C] [DecidableEq D] {home : B → D}
  {behind : B × RequestMsg C n → B × RequestMsg C n → Prop} {N N' : Net B C D n}

omit [Fintype C] [DecidableEq D] in
/-- A message in a queue is a message about its block. -/
theorem mem_forward_block {c : C} {b : B} {m : RequestMsg C n} :
    m ∈ ((N.block home b).node c).forwardToCache ↔ (b, m) ∈ N.forwardToCache c := by
  simp [Net.block, List.mem_filterMap, about]

variable [Directory.Memory C n]

omit [DecidableEq D] in
/-- What a directory forwards is an acknowledgement, or it is about a request
of a cache that has no forward to serve and is not sent to that cache to serve. -/
theorem dir_forwards (hok : N.Ok home) {i : Input B C D} {δ : D} {b : B} {x : Directory.Ctx C n}
    (hi : N.atDir i = some (δ, b, .ok x)) : x.forwards = [] ∨ ∃ f, x.forwards = [f] ∧
      (¬ f.2.serves ∧ ¬ f.2.wanted ∨ ∃ c, f.2.requestor = .L1Cache c ∧
        (∀ m, (b, m) ∈ N.forwardToCache c → ¬ m.serves) ∧ (f.2.serves → .L1Cache c ∉ f.1)) := by
  have ack {f : Finset (MachineID C) × RequestMsg C n} (hf : f.2.type = .WB_ACK) : ¬ f.2.serves ∧ ¬ f.2.wanted := by
    simp [RequestMsg.serves, RequestMsg.wanted, hf]
  obtain ⟨v, a, hI, hR⟩ := hok.good b
  obtain ⟨d, d', hd, -⟩ := hR.home.dir
  replace hd : N.dir b = _ := hd
  cases i with
  | mandatory c' b' r => cases hi
  | replacement c' b' => cases hi
  | head p =>
    cases p with
    | forward c => cases hi
    | response c => cases hi
    | data δ' =>
      obtain ⟨⟨b', m⟩, hm, he⟩ := Option.map_eq_some_iff.1 hi
      obtain ⟨rfl, rfl, hx⟩ : δ' = δ ∧ b' = b ∧ _ = Except.ok x := by simpa using he
      rcases Directory.onResponse_forwards (hd ▸ hx) with hf | ⟨f, hf, hw⟩
      · exact .inl hf
      · exact .inr ⟨f, hf, .inl (ack hw)⟩
    | memory δ' =>
      obtain ⟨⟨b', m⟩, hm, he⟩ := Option.map_eq_some_iff.1 hi
      obtain ⟨rfl, rfl, hx⟩ : δ' = δ ∧ b' = b ∧ _ = Except.ok x := by simpa using he
      rcases Directory.onMemory_forwards (hd ▸ hx) with hf | ⟨f, hf, hw⟩
      · exact .inl hf
      · exact .inr ⟨f, hf, .inl (ack hw)⟩
    | request δ' =>
      obtain ⟨⟨c, b', m⟩, hm, he⟩ := Option.map_eq_some_iff.1 hi
      obtain ⟨rfl, rfl, hx⟩ : δ' = δ ∧ b' = b ∧ _ = Except.ok x := by simpa using he
      obtain rfl : home b' = δ' := hok.routed.request _ _ (List.mem_of_mem_head? hm)
      rcases Directory.onRequest_forwards (hd ▸ hx) with hf | ⟨f, hf, hw | ⟨hreq, ht, hdest⟩⟩
      · exact .inl hf
      · exact .inr ⟨f, hf, .inl (ack hw)⟩
      · obtain ⟨t, hq, hme, -⟩ := (hR.node c).request_head (head_requestAbout hm)
        have hmt : m.type = t := by rw [hme]
        obtain ⟨hnext, hown⟩ := Phase.of_request hq (hmt ▸ ht)
        refine .inr ⟨f, hf, .inr ⟨c, hreq.trans (by rw [hme]), fun m' hm' hs => ?_, fun hs hmem => ?_⟩⟩
        · exact (hR.node c).next_of_serves (mem_forward_block.2 hm') hs hnext
        · rcases hdest with hinv | ⟨hM, howner⟩
          · simp [RequestMsg.serves, hinv] at hs
          · obtain ⟨o, ho⟩ : ∃ o, a.dir = .M o := by
              cases hdir : a.dir <;> rw [hdir] at hM <;> first | exact ⟨_, rfl⟩ | cases hM
            rw [howner, ho] at hmem
            obtain rfl : c = o := by simpa [DirPhase.owner] using hmem
            rw [(hI.owner c).2 (.inl ho)] at hown
            cases hown

theorem Ordered.dir_step (hw : ∀ a a' : B × RequestMsg C n, a.2.serves → a'.2.wanted → behind a a') (hok : N.Ok home)
    {Q : C → List (Nat × B × RequestMsg C n)} {now : Nat} (h : N.Ordered Q now) {i : Input B C D} {δ : D} {b : B}
    {x : Directory.Ctx C n} (hi : N.atDir i = some (δ, b, .ok x)) (ha : N.AfterDir behind δ b x N') :
    ∃ Q', N'.Ordered Q' (now + 1) := by
  rcases dir_forwards hok hi with hf | ⟨f, hf, hreq⟩
  · refine ⟨Q, fun c => ?_, fun c e he => Nat.lt_succ_of_lt (h.past c e he), h.front, h.earlier⟩
    have := ha.forward c
    rw [hf] at this
    rw [h.queue c, Joins.nil_iff.1 this]
  -- where the forward joins each queue
  have hjoin (c : C) : ∃ q, q.map (·.2) = N'.forwardToCache c ∧ (q = Q c ∨ .L1Cache c ∈ f.1 ∧ ∃ l r, Q c = l ++ r ∧
      q = l ++ (now, b, f.2) :: r ∧ ∀ e ∈ r, ¬ behind (b, f.2) e.2) := by
    have hj := ha.forward c
    rw [hf] at hj
    by_cases hc : .L1Cache c ∈ f.1
    · obtain ⟨l, r, hlr, hq, hr⟩ := Joins.singleton (a := (b, f.2)) (by simpa [hc] using hj)
      rw [← h.queue c] at hlr
      obtain ⟨Ql, Qr, hQ, rfl, rfl⟩ := List.map_eq_append_iff.1 hlr
      exact ⟨Ql ++ (now, b, f.2) :: Qr, by simp [hq],
        .inr ⟨hc, Ql, Qr, hQ, rfl, fun e he => hr _ (List.mem_map_of_mem he)⟩⟩
    · have hsame : Joins behind [] (N.forwardToCache c) (N'.forwardToCache c) := by simpa [hc] using hj
      exact ⟨Q c, by rw [h.queue c, Joins.nil_iff.1 hsame], .inl rfl⟩
  choose Q' hqueue hQ using hjoin
  have hmem {c : C} {e : Nat × B × RequestMsg C n} (he : e ∈ Q' c) :
      e ∈ Q c ∨ e = (now, b, f.2) ∧ .L1Cache c ∈ f.1 := by
    rcases hQ c with hc | ⟨hc, l, r, hlr, hq, -⟩
    · exact .inl (hc ▸ he)
    · rw [hq] at he
      rw [hlr]
      rcases List.mem_append.1 he with he | he
      · exact .inl (List.mem_append_left _ he)
      · rcases List.mem_cons.1 he with rfl | he
        · exact .inr ⟨rfl, hc⟩
        · exact .inl (List.mem_append_right _ he)
  refine ⟨Q', hqueue, fun c e he => ?_, fun c => ?_, fun c c' e he e' he' hb hs hwant hr => ?_⟩
  · rcases hmem he with he | ⟨rfl, -⟩
    · exact Nat.lt_succ_of_lt (h.past c e he)
    · exact Nat.lt_succ_self _
  · rcases hQ c with hc | ⟨-, l, r, hlr, hq, hr⟩
    · rw [hc]
      exact h.front c
    · have hfront := h.front c
      rw [hlr, List.pairwise_append] at hfront
      obtain ⟨hl, hr', hlr'⟩ := hfront
      rw [hq, List.pairwise_append, List.pairwise_cons]
      refine ⟨hl, ⟨fun e he hs hwant => absurd (hw _ _ hs hwant) (hr e he), hr'⟩, fun e he e' he' => ?_⟩
      rcases List.mem_cons.1 he' with rfl | he'
      · exact fun _ _ => h.past c e (by rw [hlr]; exact List.mem_append_left _ he)
      · exact hlr' e he e' he'
  · rcases hmem he with ho | ⟨rfl, hd⟩ <;> rcases hmem he' with ho' | ⟨rfl, -⟩
    · exact h.earlier c c' e ho e' ho' hb hs hwant hr
    · rcases hreq with ⟨-, hn⟩ | ⟨r, hreq, hserve, -⟩
      · exact absurd hwant hn
      · obtain rfl : r = c := by
          have := hreq.symm.trans hr
          simpa using this
        refine absurd hs (hserve e.2.2 ?_)
        rw [← h.queue r]
        exact List.mem_map.2 ⟨e, ho, Prod.ext hb rfl⟩
    · exact h.past c' e' ho'
    · rcases hreq with ⟨hn, -⟩ | ⟨r, hreq, -, hdest⟩
      · exact absurd hs hn
      · obtain rfl : r = c := by
          have := hreq.symm.trans hr
          simpa using this
        exact absurd hd (hdest hs)

theorem Ordered.step
    (hw : ∀ a a' : B × RequestMsg C n, a.2.serves → a'.2.wanted → behind a a') (hok : N.Ok home)
    {Q : C → List (Nat × B × RequestMsg C n)} {now : Nat} (h : N.Ordered Q now) {o : List (B × C × Callback n)}
    (hs : N.Step home behind o N') : ∃ Q' now', N'.Ordered Q' now' := by
  cases hs with
  | @cache stored i c b x _ hi ha =>
    refine ⟨fun c' => if c' = c ∧ x.poppedForward then (Q c').tail else Q c', now,
      h.sublist (fun c' => ?_) fun c' => ?_⟩
    · rw [ha.forward, ← h.queue c', ← List.map_tail]
      split <;> rfl
    · split
      · exact List.tail_sublist _
      · exact .refl _
  | @dir i δ b x _ hi ha =>
    obtain ⟨Q', hQ⟩ := h.dir_step hw hok hi ha
    exact ⟨Q', _, hQ⟩

/-! ## Some head does not stall -/

omit [Fintype C] [DecidableEq B] [DecidableEq D] in
theorem tryPort_of_atCache {stored : DataBlock n} {p : Port C D} {c : C} {b : B} {e : Except Stop (L1Cache.Ctx C n)}
    (h : N.atCache stored (.head p) = some (c, b, e)) : N.tryPort stored p = some (e.map fun _ => ()) := by
  simp only [tryPort, h]

omit [Fintype C] [DecidableEq B] [DecidableEq D] in
theorem tryPort_of_atDir {stored : DataBlock n} {p : Port C D} {δ : D} {b : B} {e : Except Stop (Directory.Ctx C n)}
    (hn : N.atCache stored (.head p) = none) (h : N.atDir (.head p) = some (δ, b, e)) :
    N.tryPort stored p = some (e.map fun _ => ()) := by
  simp only [tryPort, hn, h]

omit [DecidableEq B] [DecidableEq D] [Directory.Memory C n] in
/-- A cache's transition completes unless it stalls. -/
theorem completes_of_cache {s : Sys C n} {v : DataBlock n} {c : C} {e : Except Stop (L1Cache.Ctx C n)}
    (h : Safe v (s.fromCache c e)) (hs : e ≠ .error .stall) : (e.map fun _ => ()) = .ok () := by
  cases e with
  | ok x => rfl
  | error e => exact absurd (congrArg Except.error h) hs

omit [DecidableEq B] [DecidableEq D] [Directory.Memory C n] in
theorem completes_of_dir {s : Sys C n} {v : DataBlock n} {src : Option C} {e : Except Stop (Directory.Ctx C n)}
    (h : Safe v (s.fromDir src e)) (hs : e ≠ .error .stall) : (e.map fun _ => ()) = .ok () := by
  cases e with
  | ok x => rfl
  | error e => exact absurd (congrArg Except.error h) hs

omit [DecidableEq D] in
theorem forward_runs (hok : N.Ok home) {c : C} {b : B} {m : RequestMsg C n}
    (hm : (N.forwardToCache c).head? = some (b, m)) (hs : L1Cache.onForward c (N.cache c b) m ≠ .error .stall)
    (stored : DataBlock n) : N.tryPort stored (.forward c) = some (.ok ()) := by
  obtain ⟨v, hg⟩ := hok.good b
  have hsafe := hg.deliver stored (.forward c) (congrArg (Option.map _) (head_of_about hm))
  have hp : N.atCache stored (.head (.forward c)) = some (c, b, L1Cache.onForward c (N.cache c b) m) := by
    simp [atCache, hm]
  rw [tryPort_of_atCache hp]
  exact congrArg some (completes_of_cache hsafe hs)

omit [DecidableEq D] in
theorem response_runs (hok : N.Ok home) {c : C} (hq : N.responseToCache c ≠ []) (stored : DataBlock n) :
    N.tryPort stored (.response c) = some (.ok ()) := by
  obtain ⟨⟨b, m⟩, hm⟩ : ∃ e, (N.responseToCache c).head? = some e := ⟨_, List.head?_eq_some_head hq⟩
  obtain ⟨v, hg⟩ := hok.good b
  have hmem : m ∈ (N.responseToCache c).filterMap (about b) := List.mem_of_mem_head? (head_of_about hm)
  have hsafe := hg.deliver stored (.response c m) (if_pos hmem)
  have hp : N.atCache stored (.head (.response c)) = some (c, b, L1Cache.onResponse c (N.cache c b) stored m) := by
    simp [atCache, hm]
  rw [tryPort_of_atCache hp]
  refine congrArg some (completes_of_cache hsafe ?_)
  obtain ⟨a, -, hR⟩ := hg
  obtain ⟨d, d', hc, -⟩ := (hR.node c).cache
  replace hc : N.cache c b = _ := hc
  rw [hc]
  exact L1Cache.onResponse_not_stall

omit [DecidableEq D] in
theorem request_runs (hok : N.Ok home) {δ : D} {c : C} {b : B} {m : RequestMsg C n}
    (hm : (N.requestToDir δ).head? = some (c, b, m)) (hs : Directory.onRequest (N.dir b) m ≠ .error .stall)
    (stored : DataBlock n) : N.tryPort stored (.request δ) = some (.ok ()) := by
  obtain ⟨v, hg⟩ := hok.good b
  obtain rfl : home b = δ := hok.routed.request _ _ (List.mem_of_mem_head? hm)
  have hsafe := hg.deliver stored (.request c) (congrArg (Option.map _) (head_requestAbout hm))
  have hp : N.atDir (.head (.request (home b))) = some (home b, b, Directory.onRequest (N.dir b) m) := by
    simp [atDir, hm]
  rw [tryPort_of_atDir rfl hp]
  exact congrArg some (completes_of_dir hsafe hs)

omit [DecidableEq D] in
theorem data_runs (hok : N.Ok home) {δ : D} (hq : N.responseToDir δ ≠ []) (stored : DataBlock n) :
    N.tryPort stored (.data δ) = some (.ok ()) := by
  obtain ⟨⟨b, m⟩, hm⟩ : ∃ e, (N.responseToDir δ).head? = some e := ⟨_, List.head?_eq_some_head hq⟩
  obtain ⟨v, hg⟩ := hok.good b
  obtain rfl : home b = δ := hok.routed.data _ _ (List.mem_of_mem_head? hm)
  have hmem : m ∈ (N.responseToDir (home b)).filterMap (about b) := List.mem_of_mem_head? (head_of_about hm)
  have hsafe := hg.deliver stored (.data m) (if_pos hmem)
  have hp : N.atDir (.head (.data (home b))) = some (home b, b, Directory.onResponse (N.dir b) m) := by simp [atDir, hm]
  rw [tryPort_of_atDir rfl hp]
  obtain ⟨st, d, d', sharers, owner, hd⟩ := N.dir_of_good hg
  refine congrArg some (completes_of_dir hsafe ?_)
  rw [hd]
  exact Directory.onResponse_not_stall

omit [DecidableEq D] in
theorem memory_runs (hok : N.Ok home) {δ : D} (hq : N.memBuffer δ ≠ []) (stored : DataBlock n) :
    N.tryPort stored (.memory δ) = some (.ok ()) := by
  obtain ⟨⟨b, m⟩, hm⟩ : ∃ e, (N.memBuffer δ).head? = some e := ⟨_, List.head?_eq_some_head hq⟩
  obtain ⟨v, hg⟩ := hok.good b
  obtain rfl : home b = δ := hok.routed.memory _ _ (List.mem_of_mem_head? hm)
  have hmem : m ∈ (N.memBuffer (home b)).filterMap (about b) := List.mem_of_mem_head? (head_of_about hm)
  have hsafe := hg.deliver stored (.memory m) (if_pos hmem)
  have hp : N.atDir (.head (.memory (home b))) = some (home b, b, Directory.onMemory (N.dir b) m) := by simp [atDir, hm]
  rw [tryPort_of_atDir rfl hp]
  obtain ⟨st, d, d', sharers, owner, hd⟩ := N.dir_of_good hg
  refine congrArg some (completes_of_dir hsafe ?_)
  rw [hd]
  exact Directory.onMemory_not_stall

/-- No response and no answer of memory is on its way. -/
structure Drained (N : Net B C D n) : Prop where
  response : ∀ c, N.responseToCache c = []
  data : ∀ δ, N.responseToDir δ = []
  memory : ∀ δ, N.memBuffer δ = []

omit [DecidableEq D] [Directory.Memory C n] in
/-- What a stalled forward waits for is an older forward to another cache. -/
theorem Ordered.stalled (hok : N.Ok home) (hd : N.Drained) {Q : C → List (Nat × B × RequestMsg C n)} {now : Nat}
    (h : N.Ordered Q now) {c : C} {t : Nat} {b : B} {m : RequestMsg C n} (hm : (Q c).head? = some (t, b, m))
    (hs : L1Cache.onForward c (N.cache c b) m = .error .stall) :
    m.serves ∧ ∃ e, ∃ t' m', (t', b, m') ∈ Q e ∧ m'.wanted ∧ t' < t := by
  obtain ⟨v, a, hI, hR⟩ := hok.good b
  have hhead : (N.forwardToCache c).head? = some (b, m) := by rw [← h.queue c, List.head?_map, hm]; rfl
  rcases hR.forward_stalls hI (head_of_about hhead) hs with hn | hn | ⟨hserve, e, m', hm', hw, hr⟩
  · exact absurd (by simp [Net.block, hd.response]) hn
  · exact absurd (by simp [Net.block, hd.memory]) hn
  · have hq := mem_forward_block.1 hm'
    rw [← h.queue e] at hq
    obtain ⟨⟨t', e'⟩, hmem, rfl⟩ := List.mem_map.1 hq
    exact ⟨hserve, e, t', m', hmem, hw, h.earlier c e _ (List.mem_of_mem_head? hm) _ hmem rfl hserve hw hr⟩

omit [DecidableEq D] in
/-- Some forward does not stall, when nothing else is on its way. -/
theorem Ordered.forward_runs (hok : N.Ok home) (hd : N.Drained) {Q : C → List (Nat × B × RequestMsg C n)} {now : Nat}
    (h : N.Ordered Q now) (stored : DataBlock n) {c : C} (hq : N.forwardToCache c ≠ []) :
    ∃ c, N.tryPort stored (.forward c) = some (.ok ()) := by
  -- by induction on the time the head was sent at
  have older (t : Nat) : ∀ c b m, (Q c).head? = some (t, b, m) →
      ∃ c, N.tryPort stored (.forward c) = some (.ok ()) := by
    induction t using Nat.strong_induction_on with
    | _ t ih =>
      intro c b m hm
      have hhead : (N.forwardToCache c).head? = some (b, m) := by rw [← h.queue c, List.head?_map, hm]; rfl
      by_cases hs : L1Cache.onForward c (N.cache c b) m = .error .stall
      · obtain ⟨-, e, t', m', hmem, hw, hlt⟩ := h.stalled hok hd hm hs
        obtain ⟨⟨t₁, b₁, m₁⟩, q, hqe⟩ := List.exists_cons_of_ne_nil (List.ne_nil_of_mem hmem)
        have hhead₁ : (Q e).head? = some (t₁, b₁, m₁) := by rw [hqe]; rfl
        by_cases hs₁ : L1Cache.onForward e (N.cache e b₁) m₁ = .error .stall
        · obtain ⟨hserve₁, -⟩ := h.stalled hok hd hhead₁ hs₁
          have hle : t₁ ≤ t' := by
            rw [hqe] at hmem
            rcases List.mem_cons.1 hmem with he | hmem
            · exact (Prod.mk.inj he).1.ge
            · have hfront := h.front e
              rw [hqe, List.pairwise_cons] at hfront
              exact (hfront.1 _ hmem hserve₁ hw).le
          exact ih t₁ (by omega) e b₁ m₁ hhead₁
        · refine ⟨e, Net.forward_runs hok (b := b₁) ?_ hs₁ stored⟩
          rw [← h.queue e, List.head?_map, hhead₁]
          rfl
      · exact ⟨c, Net.forward_runs hok hhead hs stored⟩
  obtain ⟨⟨t, b, m⟩, q, hQ⟩ : ∃ e q, Q c = e :: q := by
    refine List.exists_cons_of_ne_nil fun h0 => hq ?_
    rw [← h.queue c, h0]
    rfl
  exact older t c b m (by rw [hQ]; rfl)

omit [DecidableEq D] in
/-- While a message is on its way, some queue has a head that does not stall. -/
theorem Ordered.runs (hok : N.Ok home) {Q : C → List (Nat × B × RequestMsg C n)} {now : Nat} (h : N.Ordered Q now)
    (hf : N.InFlight) (stored : DataBlock n) : ∃ p, N.tryPort stored p = some (.ok ()) := by
  by_cases hr : ∃ c, N.responseToCache c ≠ []
  · obtain ⟨c, hc⟩ := hr
    exact ⟨_, response_runs hok hc stored⟩
  by_cases ht : ∃ δ, N.responseToDir δ ≠ []
  · obtain ⟨δ, hδ⟩ := ht
    exact ⟨_, data_runs hok hδ stored⟩
  by_cases hm : ∃ δ, N.memBuffer δ ≠ []
  · obtain ⟨δ, hδ⟩ := hm
    exact ⟨_, memory_runs hok hδ stored⟩
  push Not at hr ht hm
  have hd : N.Drained := ⟨hr, ht, hm⟩
  by_cases hfw : ∃ c, N.forwardToCache c ≠ []
  · obtain ⟨c, hc⟩ := hfw
    obtain ⟨c', hc'⟩ := h.forward_runs hok hd stored hc
    exact ⟨_, hc'⟩
  push Not at hfw
  obtain ⟨δ, hδ⟩ : ∃ δ, N.requestToDir δ ≠ [] := by
    rcases hf with ⟨c, hc | hc⟩ | ⟨δ, hδ | hδ | hδ⟩
    · exact absurd (hfw c) hc
    · exact absurd (hr c) hc
    · exact ⟨δ, hδ⟩
    · exact absurd (ht δ) hδ
    · exact absurd (hm δ) hδ
  obtain ⟨⟨c, b, m⟩, hhead⟩ : ∃ e, (N.requestToDir δ).head? = some e := ⟨_, List.head?_eq_some_head hδ⟩
  refine ⟨_, request_runs hok hhead (fun hs => ?_) stored⟩
  obtain ⟨v, a, hI, hR⟩ := hok.good b
  rcases hR.request_stalls hI hs with hn | hn | ⟨e, hn⟩
  · exact absurd (by simp [Net.block, ht]) hn
  · exact absurd (by simp [Net.block, hm]) hn
  · exact absurd (by simp [Net.block, hfw]) hn

omit [DecidableEq D] [Directory.Memory C n] in
/-- A controller in a transient state waits for a message. -/
theorem Ok.inFlight (hok : N.Ok home) (ht : N.Transient) : N.InFlight := by
  have lift {b : B} (hs : (N.block home b).InFlight) : N.InFlight := by
    by_contra hn
    simp only [Net.InFlight, not_or, not_exists, not_not] at hn
    obtain ⟨hc, hδ⟩ := hn
    rcases hs with ⟨c, hs | hs | hs⟩ | hs | hs
    · exact hs (by simp [Net.block, (hδ _).1])
    · exact hs (by simp [Net.block, (hc _).1])
    · exact hs (by simp [Net.block, (hc _).2])
    · exact hs (by simp [Net.block, (hδ _).2.1])
    · exact hs (by simp [Net.block, (hδ _).2.2])
  rcases ht with ⟨c, b, hc⟩ | ⟨b, hb⟩
  · obtain ⟨v, a, hI, hR⟩ := hok.good b
    refine lift (b := b) (hR.transient hI (c := c) ?_)
    rw [← hR.getState]
    exact hc
  · obtain ⟨v, a, hI, hR⟩ := hok.good b
    have hst : (N.dir b).getState = a.dir.state := hR.home.getState.1
    rw [hst] at hb
    refine lift (b := b) ?_
    rcases hR.busy hI hb with h | h | ⟨e, h⟩
    · exact .inr (.inl h)
    · exact .inr (.inr h)
    · exact .inl ⟨e, .inr (.inl h)⟩

/-- In a run in which no forward that can stall gets in front of one that is
waited for, the forwards are ordered. -/
theorem ordered_of_reachable (hb : ∀ a a' : B × RequestMsg C n, home a.1 = home a'.1 → behind a a')
    (hw : ∀ a a' : B × RequestMsg C n, a.2.serves → a'.2.wanted → behind a a') {d : B → DataBlock n}
    (h : Reachable (Step home behind) (Net.init d) N) : N.Ok home ∧ ∃ Q now, N.Ordered Q now := by
  refine h.invariant (P := fun N => N.Ok home ∧ ∃ Q now, N.Ordered Q now) ⟨.init d, _, _, .init d⟩ ?_
  rintro N o N' ⟨hok, Q, now, hQ⟩ hs
  exact ⟨hok.step hb hs, hQ.step hw hok hs⟩

end

/-! ## One directory -/

section
variable {B C D : Type} {n : Nat}

/-- Forwards of one directory arrive in the order they were sent. -/
def sameHome (home : B → D) (a a' : B × RequestMsg C n) : Prop := home a.1 = home a'.1

instance [DecidableEq D] (home : B → D) : DecidableRel (sameHome (C := C) (n := n) home) := fun a a' =>
  inferInstanceAs (Decidable (home a.1 = home a'.1))

/-- Besides, a forwarded GETS or GETM does not get in front of an invalidation
or a GETM that another directory sent before. -/
def inTurn (home : B → D) (a a' : B × RequestMsg C n) : Prop := home a.1 = home a'.1 ∨ a.2.serves ∧ a'.2.wanted

instance [DecidableEq D] (home : B → D) : DecidableRel (inTurn (C := C) (n := n) home) := fun a a' =>
  inferInstanceAs (Decidable (home a.1 = home a'.1 ∨ a.2.serves ∧ a'.2.wanted))

variable [Fintype C] [DecidableEq B] [DecidableEq C] [DecidableEq D] [Directory.Memory C n] {home : B → D}

/-- With one directory, while a message is on its way or a controller is in a
transient state, the head of some queue does not stall. -/
theorem progress_of_one_directory (one : ∀ b b', home b = home b') (d : B → DataBlock n) {N : Net B C D n}
    (h : Reachable (Step home (sameHome home)) (Net.init d) N) (hN : N.InFlight ∨ N.Transient) (stored : DataBlock n) :
    ∃ p, N.tryPort stored p = some (.ok ()) := by
  obtain ⟨hok, Q, now, hQ⟩ := ordered_of_reachable (fun _ _ hh => hh) (fun a a' _ _ => one a.1 a'.1) h
  exact hQ.runs hok (hN.elim id hok.inFlight) stored

/-- Cache 0 has stored to block 0, and caches 1 and 2 ask for it one after the other,
besides a load of block 1. -/
def inRow : List (Act (Fin 2) (Fin 3) Unit 1) :=
  [⟨byte 7, .mandatory 0 0 .ST, 0⟩, ⟨byte 7, .head (.request ()), 0⟩, ⟨byte 7, .head (.memory ()), 0⟩,
    ⟨byte 7, .head (.response 0), 0⟩, ⟨byte 7, .mandatory 1 0 .ST, 0⟩, ⟨byte 7, .head (.request ()), 0⟩,
    ⟨byte 7, .mandatory 2 0 .ST, 0⟩, ⟨byte 7, .head (.request ()), 0⟩, ⟨byte 7, .mandatory 0 1 .LD, 0⟩]

/-- The forward to cache 1 waits for the one to cache 0, which can be served. -/
theorem progress_of_one_directory_inRow : ∃ N : Net (Fin 2) (Fin 3) Unit 1,
    ((Net.init fun _ => byte 0).follow (fun _ => ()) (sameHome fun _ => ()) inRow).map (·.2) = some N ∧
      (N.InFlight ∨ N.Transient) ∧ (N.forwardToCache 0).length = 1 ∧ (N.requestToDir ()).length = 1 ∧
        N.tryPort (byte 7) (.forward 1) = some (.error .stall) ∧ ∃ p, N.tryPort (byte 7) p = some (.ok ()) := by
  have hN : ((Net.init fun _ => byte 0).follow (fun _ => ()) (sameHome fun _ => ()) inRow).map (fun r =>
      decide ((r.2.forwardToCache 0).length = 1 ∧ (r.2.requestToDir ()).length = 1 ∧
        r.2.tryPort (byte 7) (.forward 1) = some (.error .stall))) = some true := by
    decide +kernel
  obtain ⟨r, hr, hd⟩ := Option.map_eq_some_iff.1 hN
  obtain ⟨hfwd, hreq, hstall⟩ := of_decide_eq_true hd
  have ht : r.2.InFlight ∨ r.2.Transient := .inl (.inl ⟨0, .inl (List.ne_nil_of_length_pos (by omega))⟩)
  exact ⟨r.2, by rw [hr]; rfl, ht, hfwd, hreq, hstall,
    progress_of_one_directory (fun _ _ => rfl) (fun _ => byte 0) (reachable_follow _ _ hr) ht (byte 7)⟩

/-! ## Several directories -/

/-- Cache `c` stores to block `b`, which nobody has. -/
def storeTo (c : Fin 3) (b : Fin 2) : List (Act (Fin 2) (Fin 3) (Fin 2) 1) :=
  [⟨byte 7, .mandatory c b .ST, 0⟩, ⟨byte 7, .head (.request b), 0⟩, ⟨byte 7, .head (.memory b), 0⟩,
    ⟨byte 7, .head (.response c), 0⟩]

/-- Cache `c` asks to store to block `b`, and the directory's forward stays behind `k` messages. -/
def askFor (c : Fin 3) (b : Fin 2) (k : Nat) : List (Act (Fin 2) (Fin 3) (Fin 2) 1) :=
  [⟨byte 7, .mandatory c b .ST, 0⟩, ⟨byte 7, .head (.request b), k⟩]

/-- Caches 1 and 0 have the blocks 0 and 1 and ask for each other's, and so
does cache 2 for both. The last forward arrives behind `k` messages. -/
def exchange (k : Nat) : List (Act (Fin 2) (Fin 3) (Fin 2) 1) :=
  storeTo 1 0 ++ storeTo 0 1 ++ askFor 0 0 0 ++ askFor 2 0 0 ++ askFor 1 1 1 ++ askFor 2 1 k

/-- With any number of directories, a run in which no forward that can stall
overtakes one that is waited for does not end in a deadlock. -/
theorem not_deadlocked (d : B → DataBlock n) {N : Net B C D n} (h : Reachable (Step home (inTurn home)) (Net.init d) N)
    (stored : DataBlock n) : ¬ N.Deadlocked stored := by
  rintro ⟨hf, hs⟩
  obtain ⟨hok, Q, now, hQ⟩ := ordered_of_reachable (fun _ _ => .inl) (fun _ _ hs hw => .inr ⟨hs, hw⟩) h
  obtain ⟨p, hp⟩ := hQ.runs hok hf stored
  cases hs p _ hp

theorem not_deadlocked_exchange : ∃ N,
    ((Net.init fun _ => byte 0).follow id (inTurn id) (exchange 1)).map (·.2) = some N ∧
    ¬ N.Deadlocked (byte 7) := by
  obtain ⟨r, hr⟩ := Option.isSome_iff_exists.1
    (show ((Net.init fun _ => byte 0).follow id (inTurn id) (exchange 1)).isSome by decide +kernel)
  exact ⟨r.2, by rw [hr]; rfl, not_deadlocked (fun _ => byte 0) (reachable_follow _ _ hr) (byte 7)⟩

/-- Nothing at the head, or a message that stalls. -/
def idle : Option (Except Stop Unit) → Bool
  | none | some (.error .stall) => true
  | some (.ok _) | some (.error _) => false

omit [Fintype C] [DecidableEq B] [DecidableEq D] in
theorem deadlocked_of_idle {N : Net B C D n} {stored : DataBlock n} (hf : N.InFlight)
    (hc : ∀ c, idle (N.tryPort stored (.forward c)) ∧ idle (N.tryPort stored (.response c)))
    (hδ : ∀ δ, idle (N.tryPort stored (.request δ)) ∧ idle (N.tryPort stored (.data δ)) ∧
      idle (N.tryPort stored (.memory δ))) : N.Deadlocked stored := by
  refine ⟨hf, fun p r hr => ?_⟩
  have hi : idle (N.tryPort stored p) = true := by
    cases p with
    | forward c => exact (hc c).1
    | response c => exact (hc c).2
    | request δ => exact (hδ δ).1
    | data δ => exact (hδ δ).2.1
    | memory δ => exact (hδ δ).2.2
  rw [hr] at hi
  unfold idle at hi
  split at hi <;> simp_all

/-- When the last forward arrives in front of the one sent before it, caches 0
and 1 wait for each other: each has the other's forward behind one for cache 2. -/
theorem deadlocked_exchange : ∃ N : Net (Fin 2) (Fin 3) (Fin 2) 1,
    Reachable (Step id (sameHome id)) (Net.init fun _ => byte 0) N ∧ N.Deadlocked (byte 7) := by
  have hN : ((Net.init fun _ => byte 0).follow id (sameHome id) (exchange 0)).map (fun r =>
      decide (r.2.forwardToCache 0 ≠ [] ∧
        (∀ c, idle (r.2.tryPort (byte 7) (.forward c)) ∧ idle (r.2.tryPort (byte 7) (.response c))) ∧
          ∀ δ, idle (r.2.tryPort (byte 7) (.request δ)) ∧ idle (r.2.tryPort (byte 7) (.data δ)) ∧
            idle (r.2.tryPort (byte 7) (.memory δ)))) = some true := by
    decide +kernel
  obtain ⟨r, hr, hd⟩ := Option.map_eq_some_iff.1 hN
  obtain ⟨hf, hc, hδ⟩ := of_decide_eq_true hd
  exact ⟨r.2, reachable_follow _ _ hr, deadlocked_of_idle (.inl ⟨0, .inl hf⟩) hc hδ⟩

end

end Net

end Msi
