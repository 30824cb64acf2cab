import CompArch.Msi.Ports
import CompArch.Msi.Safety
/-!
# What a message about a block waits for

A message that stalls, and a controller in a transient state, wait for another
message about the same block. A forwarded GETS or GETM stalls at a cache that
does not have the block yet; what that cache waits for, when it is not on its
way already, is an invalidation or a forward in the queue of another cache.
-/

namespace Msi

open Slicc

/-! ## Forwards -/

section
variable {C : Type} {n : Nat}

/-- A forward that the cache answers with the block, when it has it. -/
def RequestMsg.serves (m : RequestMsg C n) : Prop := m.type = .GETS ∨ m.type = .GETM

/-- A forward whose requestor cannot write to the block before it is answered. -/
def RequestMsg.wanted (m : RequestMsg C n) : Prop := m.type = .INV ∨ m.type = .GETM

instance (m : RequestMsg C n) : Decidable m.serves := inferInstanceAs (Decidable (_ ∨ _))

instance (m : RequestMsg C n) : Decidable m.wanted := inferInstanceAs (Decidable (_ ∨ _))

theorem Phase.of_request {p : Phase C} {t : CoherenceRequestType} (h : p.request = some t)
    (ht : t = .GETS ∨ t = .GETM) :
    p.next = none ∧ p.owner = false := by
  cases p with
  | evictS m i => cases m <;> rcases ht with rfl | rfl <;> cases h
  | evictI m => cases m <;> rcases ht with rfl | rfl <;> cases h
  | evictM x => rcases ht with rfl | rfl <;> cases h
  | getS => exact ⟨rfl, rfl⟩
  | getM => exact ⟨rfl, rfl⟩
  | upgrade i => exact ⟨rfl, rfl⟩
  | _ => cases h

theorem NodeOk.mem_forwards {c : C} {p : Phase C} {f : Nat} {k : Int} {cur : DataBlock n} {y : Node C n}
    (h : NodeOk c p f k cur y) {m : RequestMsg C n} (hm : m ∈ y.forwardToCache) : ∃ e ∈ p.forwards, m.fwd = some e := by
  have := List.mem_map_of_mem (f := RequestMsg.fwd) hm
  rw [h.forward] at this
  obtain ⟨e, he, hme⟩ := List.mem_map.1 this
  exact ⟨e, he, hme.symm⟩

theorem NodeOk.exists_forward {c : C} {p : Phase C} {f : Nat} {k : Int} {cur : DataBlock n} {y : Node C n}
    (h : NodeOk c p f k cur y) {e : Fwd C} (he : e ∈ p.forwards) : ∃ m ∈ y.forwardToCache, m.fwd = some e := by
  have := List.mem_map_of_mem (f := some) he
  rw [← h.forward] at this
  exact List.mem_map.1 this

theorem Phase.mem_forwards {p : Phase C} {e : Fwd C} : e ∈ p.forwards ↔
    (∃ d, p.inv = some d ∧ e = .inv d) ∨ (∃ z, p.next = some z ∧ e = .serve z) ∨ p.wbAcked = true ∧ e = .wbAck := by
  unfold forwards
  cases p.inv <;> cases p.next <;> cases p.wbAcked <;> simp

theorem RequestMsg.fwd_of_serves {m : RequestMsg C n} (h : m.serves) {e : Fwd C} (he : m.fwd = some e) :
    ∃ z, e = .serve z := by
  obtain ⟨t, r, b⟩ := m
  rcases h with h | h <;> obtain rfl : t = _ := h <;> cases r <;> simp [fwd] at he <;> exact ⟨_, he.symm⟩

/-- A cache with a forward to serve has one in its phase. -/
theorem NodeOk.next_of_serves {c : C} {p : Phase C} {f : Nat} {k : Int} {cur : DataBlock n} {y : Node C n}
    (h : NodeOk c p f k cur y) {m : RequestMsg C n} (hm : m ∈ y.forwardToCache) (hs : m.serves) : p.next ≠ none := by
  obtain ⟨e, he, hme⟩ := h.mem_forwards hm
  obtain ⟨z, rfl⟩ := m.fwd_of_serves hs hme
  rcases Phase.mem_forwards.1 he with ⟨d, -, h⟩ | ⟨z', hz, h⟩ | ⟨-, h⟩
  · cases h
  · simp [hz]
  · cases h

theorem RequestMsg.of_fwd {m : RequestMsg C n} {e : Fwd C} (h : m.fwd = some e) :
    (m.type = .INV → ∃ d, e = .inv d) ∧ (∀ d, e = .inv d → m.type = .INV ∧ m.requestor = .L1Cache d) ∧
      ∀ r, e = .serve (.getM r) → m.type = .GETM ∧ m.requestor = .L1Cache r := by
  obtain ⟨t, r, b⟩ := m
  cases t <;> cases r <;> simp [fwd] at h <;> subst h <;> simp

/-! ## What a stalled message waits for -/

/-- The cache waits for the directory or for another cache. -/
def L1Cache.State.transient : L1Cache.State → Bool
  | .IS_D | .IM_AD | .IM_A | .SM_AD | .SM_A | .MI_A | .SI_A | .II_A => true
  | .I | .S | .M => false

theorem Phase.next_of_downgrades {p : Phase C} (h : p.downgrades = true) : ∃ r, p.next = some (.getS r) := by
  cases p with
  | excl g x => rcases x with _ | _ | _ <;> first | exact ⟨_, rfl⟩ | cases h
  | evictM x => rcases x with _ | _ | _ <;> first | exact ⟨_, rfl⟩ | cases h
  | evictMAck x => rcases x with _ | _ | _ <;> first | exact ⟨_, rfl⟩ | cases h
  | _ => cases h

/-- An invalidation that comes before the copy. -/
theorem Phase.data_of_inv {p : Phase C} {d : C} (hi : p.inv = some d) (hs : p.state = .IS_D) :
    p.data.isSome = true := by
  cases p with
  | getSData b i => cases b <;> rfl
  | excl g x => cases g <;> cases hs
  | _ => first | (cases hi; done) | cases hs

theorem Phase.excl_of_waits {p : Phase C} {z : Next C} (hz : p.next = some z) (hs : p.state.waits = true) :
    ∃ g, g ≠ .done ∧ p = .excl g (some z) := by
  cases p with
  | excl g x =>
    obtain rfl : x = some z := hz
    refine ⟨g, ?_, rfl⟩
    rintro rfl
    cases hs
  | evictM x => cases hs
  | evictMAck x => cases hs
  | _ => cases hz

variable [Fintype C] [DecidableEq C]

/-- A cache that has not got the block yet waits for data, for memory, for
acknowledgements, or for another cache that has yet to answer. -/
theorem Abs.Inv.waits {a : Abs C} (h : a.Inv) {c : C} {g : Grant C} {x : Option (Next C)} (hp : a.ph c = .excl g x)
    (hg : g ≠ .done) : (a.ph c).data.isSome = true ∨ a.dir = .IM_D c ∨ 0 < a.inFlight c ∨
      ∃ e, (a.ph e).inv = some c ∨ (a.ph e).next = some (.getM c) := by
  have acks (ht : 0 < a.outstanding c) :
      0 < a.inFlight c ∨ ∃ e, (a.ph e).inv = some c ∨ (a.ph e).next = some (.getM c) := by
    rcases Nat.eq_zero_or_pos (a.inFlight c) with hf | hf
    · obtain ⟨e, he⟩ := Finset.card_pos.1 (show 0 < (Finset.univ.filter fun e => (a.ph e).inv = some c).card by
        simpa [Abs.outstanding, hf] using ht)
      exact .inr ⟨e, .inl (by simpa using he)⟩
    · exact .inl hf
  have hk := h.acks c
  rw [hp] at hk
  have hm := h.fetch_own c
  have hw := fun e => h.next_getM e c
  rw [hp] at hm
  simp only [hp] at hw
  rw [hp]
  cases g with
  | memory => exact .inr (.inl (hm.1 rfl))
  | forwarded e => exact .inr (.inr (.inr ⟨e, .inr ((hw e).2 rfl)⟩))
  | forwardedS e d => exact .inr (.inr (.inr ⟨e, .inr ((hw e).2 rfl)⟩))
  | fromOwner => exact .inl rfl
  | fromDir k => exact .inl rfl
  | fromDirS k => exact .inl rfl
  | acks => exact .inr (.inr (acks (by simp only [Abs.acksOk] at hk; omega)))
  | acksS => exact .inr (.inr (acks (by simp only [Abs.acksOk] at hk; omega)))
  | done => exact absurd rfl hg

omit [Fintype C] [DecidableEq C] in
theorem NodeOk.response_ne_zero {c : C} {p : Phase C} {f : Nat} {k : Int} {cur : DataBlock n} {y : Node C n}
    (h : NodeOk c p f k cur y) (hp : p.data.isSome = true ∨ 0 < f) : y.responseToCache ≠ 0 := by
  intro h0
  have hr := h.response
  rw [h0, Multiset.map_zero] at hr
  have := congrArg Multiset.card hr
  rcases hp with hp | hp
  · obtain ⟨r, hr⟩ := Option.isSome_iff_exists.1 hp
    simp [hr] at this
  · simp at this
    omega

/-- The block's message that a cache waits for. -/
theorem Repr.waits {s : Sys C n} {a : Abs C} {cur : DataBlock n} (hI : a.Inv) (hR : Repr s a cur) {c : C} {g : Grant C}
    {x : Option (Next C)} (hp : a.ph c = .excl g x) (hg : g ≠ .done) :
    (s.node c).responseToCache ≠ 0 ∨ s.memBuffer ≠ 0 ∨
      ∃ e, ∃ m ∈ (s.node e).forwardToCache, m.wanted ∧ m.requestor = .L1Cache c := by
  rcases hI.waits hp hg with hd | hd | hf | ⟨e, he⟩
  · exact .inl ((hR.node c).response_ne_zero (.inl hd))
  · obtain ⟨m, hm, -⟩ := hR.home.mem_of_access (t := .MEMORY_READ) (c := c) (by rw [hd]; rfl)
    exact .inr (.inl fun h0 => by simp [h0] at hm)
  · exact .inl ((hR.node c).response_ne_zero (.inr hf))
  · refine .inr (.inr ⟨e, ?_⟩)
    rcases he with he | he
    · obtain ⟨m, hm, hf⟩ := (hR.node e).exists_forward (Phase.mem_forwards.2 (.inl ⟨c, he, rfl⟩))
      obtain ⟨ht, hr⟩ := (RequestMsg.of_fwd hf).2.1 c rfl
      exact ⟨m, hm, .inl ht, hr⟩
    · obtain ⟨m, hm, hf⟩ := (hR.node e).exists_forward (Phase.mem_forwards.2 (.inr (.inl ⟨_, he, rfl⟩)))
      obtain ⟨ht, hr⟩ := (RequestMsg.of_fwd hf).2.2 c rfl
      exact ⟨m, hm, .inr ht, hr⟩

/-- A forward that stalls: the block or memory's answer is on its way, or the
cache waits for a forward to another one. -/
theorem Repr.forward_stalls {s : Sys C n} {a : Abs C} {cur : DataBlock n} (hI : a.Inv) (hR : Repr s a cur) {c : C}
    {m : RequestMsg C n} (hm : (s.node c).forwardToCache.head? = some m)
    (hs : L1Cache.onForward c (s.node c).cache m = .error .stall) :
    (s.node c).responseToCache ≠ 0 ∨ s.memBuffer ≠ 0 ∨
      m.serves ∧ ∃ e, ∃ m' ∈ (s.node e).forwardToCache, m'.wanted ∧ m'.requestor = .L1Cache c := by
  have hn := hR.node c
  obtain ⟨d, d', hb, -⟩ := hn.cache
  obtain ⟨e, l, hl, hfwd⟩ := hn.head hm
  rw [hb] at hs
  rcases L1Cache.onForward_stall hs with ⟨hst, ht⟩ | ⟨hst, ht⟩
  · obtain ⟨d, rfl⟩ := (RequestMsg.of_fwd hfwd).1 ht
    exact .inl (hn.response_ne_zero (.inl (Phase.data_of_inv (Phase.forwards_cons hl) hst)))
  · obtain ⟨z, rfl⟩ := m.fwd_of_serves ht hfwd
    obtain ⟨g, hg, hp⟩ := Phase.excl_of_waits (Phase.forwards_cons hl).2 hst
    rcases hR.waits hI hp hg with h | h | h
    · exact .inl h
    · exact .inr (.inl h)
    · exact .inr (.inr ⟨ht, h⟩)

/-- A busy directory waits for a message about the block. -/
theorem Repr.busy {s : Sys C n} {a : Abs C} {cur : DataBlock n} (hI : a.Inv) (hR : Repr s a cur)
    (hb : a.dir.state.busy = true) :
    s.responseToDir ≠ 0 ∨ s.memBuffer ≠ 0 ∨ ∃ e, (s.node e).forwardToCache ≠ [] := by
  have access {t : MemoryRequestType} {c : C} (hg : a.dir.access = some (t, c)) : s.memBuffer ≠ 0 := by
    obtain ⟨m, hm, -⟩ := hR.home.mem_of_access hg
    exact fun h0 => by simp [h0] at hm
  cases hd : a.dir with
  | I | S | M _ => rw [hd] at hb; cases hb
  | IS_D c | IM_D c | MI_A c | MS_A c => exact .inr (.inl (access (by rw [hd]; rfl)))
  | MS_D e =>
    refine .inr (.inr ⟨e, ?_⟩)
    obtain ⟨r, hr⟩ := Phase.next_of_downgrades ((hI.downgrade e).2 hd)
    obtain ⟨m, hm, -⟩ := (hR.node e).exists_forward (Phase.mem_forwards.2 (.inr (.inl ⟨_, hr, rfl⟩)))
    exact List.ne_nil_of_mem hm
  | MS_D_data e =>
    refine .inl fun h0 => ?_
    have := congrArg Multiset.card hR.home.data
    simp [h0, hd, DirPhase.reply] at this

/-- A request that stalls: something else about the block is on its way. -/
theorem Repr.request_stalls [Directory.Memory C n] {s : Sys C n} {a : Abs C} {cur : DataBlock n} (hI : a.Inv)
    (hR : Repr s a cur) {m : RequestMsg C n} (hs : Directory.onRequest s.dir m = .error .stall) :
    s.responseToDir ≠ 0 ∨ s.memBuffer ≠ 0 ∨ ∃ e, (s.node e).forwardToCache ≠ [] := by
  obtain ⟨d, d', hb, -⟩ := hR.home.dir
  rw [hb] at hs
  exact hR.busy hI (Directory.onRequest_stall hs)

/-- Some message about the block is on its way. -/
def Sys.InFlight (s : Sys C n) : Prop :=
  (∃ c, (s.node c).requestFromCache ≠ [] ∨ (s.node c).forwardToCache ≠ [] ∨ (s.node c).responseToCache ≠ 0) ∨
    s.responseToDir ≠ 0 ∨ s.memBuffer ≠ 0

/-- A cache in transition waits for a message about the block. -/
theorem Repr.transient {s : Sys C n} {a : Abs C} {cur : DataBlock n} (hI : a.Inv) (hR : Repr s a cur) {c : C}
    (hc : (a.ph c).state.transient = true) : s.InFlight := by
  have request (h : (a.ph c).request.isSome = true) : s.InFlight := by
    refine .inl ⟨c, .inl fun h0 => ?_⟩
    obtain ⟨t, ht⟩ := Option.isSome_iff_exists.1 h
    have := (hR.node c).request
    simp [h0, ht] at this
  have forward {e : C} {w : Fwd C} (h : w ∈ (a.ph e).forwards) : s.InFlight := by
    obtain ⟨m, hm, -⟩ := (hR.node e).exists_forward h
    exact .inl ⟨e, .inr (.inl (List.ne_nil_of_mem hm))⟩
  have access {t : MemoryRequestType} {d : C} (hg : a.dir.access = some (t, d)) : s.InFlight := by
    obtain ⟨m, hm, -⟩ := hR.home.mem_of_access hg
    exact .inr (.inr fun h0 => by simp [h0] at hm)
  cases hp : a.ph c with
  | getS | getM | upgrade _ | evictM _ => exact request (by rw [hp]; rfl)
  | evictS m i => exact request (by rw [hp]; cases m <;> rfl)
  | evictI m => exact request (by rw [hp]; cases m <;> rfl)
  | getSMem => exact access (t := .MEMORY_READ) (d := c) (by rw [(hI.fetch_shared c).1 (by rw [hp]; rfl)]; rfl)
  | evictMem => exact access (t := .MEMORY_WB) (d := c) (by rw [(hI.writeback c).1 (by rw [hp]; rfl)]; rfl)
  | getSFwd e =>
    have := (hI.next_getS e c).2 (by rw [hp]; rfl)
    exact forward (Phase.mem_forwards.2 (.inr (.inl ⟨_, this, rfl⟩)))
  | getSData b i =>
    exact .inl ⟨c, .inr (.inr ((hR.node c).response_ne_zero (.inl (by rw [hp]; cases b <;> rfl))))⟩
  | excl g x =>
    have hg : g ≠ .done := by
      rintro rfl
      rw [hp] at hc
      cases hc
    rcases hR.waits hI hp hg with h | h | ⟨e, m, hm, -⟩
    · exact .inl ⟨c, .inr (.inr h)⟩
    · exact .inr (.inr h)
    · exact .inl ⟨e, .inr (.inl (List.ne_nil_of_mem hm))⟩
  | evictMAck _ | evictSAck _ | evictIAck =>
    exact forward (e := c) (Phase.mem_forwards.2 (.inr (.inr ⟨by rw [hp]; rfl, rfl⟩)))
  | idle | shared _ => rw [hp] at hc; cases hc

end

end Msi
