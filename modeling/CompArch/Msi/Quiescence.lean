import CompArch.Msi.Waits
/-!
# What the directory knows when nothing is in flight

`Sharers` and `Owner` change when the directory takes a request, the caches
change later, when its messages reach them. Once all of them have arrived, the
directory's record is exact.
-/

namespace Msi

open Function Slicc Lts

variable {C : Type} {n : Nat}

/-- No message about the block is on its way, to memory neither. -/
structure Sys.Quiet (s : Sys C n) : Prop where
  request : ∀ c, (s.node c).requestFromCache = []
  forward : ∀ c, (s.node c).forwardToCache = []
  response : ∀ c, (s.node c).responseToCache = 0
  responseToDir : s.responseToDir = 0
  memBuffer : s.memBuffer = 0

/-- The directory's record of the block is what the caches have. -/
structure Sys.Agree (s : Sys C n) : Prop where
  cache : ∀ c, (s.node c).cache.getState = .I ∨ (s.node c).cache.getState = .S ∨ (s.node c).cache.getState = .M
  home : s.dir.getState = .I ∨ s.dir.getState = .S ∨ s.dir.getState = .M
  modified : s.dir.getState = .M ↔ ∃! c, (s.node c).cache.getState = .M
  owner : ∀ c, (s.node c).cache.getState = .M →
    s.dir.entry.owner = {.L1Cache c} ∧ ∀ c' ≠ c, (s.node c').cache.getState = .I
  shared : s.dir.getState = .S → ∀ c, (s.node c).cache.getState ≠ .M
  sharers : s.dir.getState = .S →
    ∀ m, m ∈ s.dir.entry.sharers ↔ ∃ c, m = .L1Cache c ∧ (s.node c).cache.getState = .S
  copies : s.dir.getState = .S → ∀ c, (s.node c).cache.getState = .S →
    ∃ e, (s.node c).cache.entry = some e ∧ e.dataBlk = s.dir.entry.dataBlk
  invalid : s.dir.getState = .I → ∀ c, (s.node c).cache.getState = .I

/-! ## Phases without messages -/

namespace Phase

/-- Nothing queued and nothing awaited leaves three phases. -/
theorem settled {p : Phase C} (hq : p.request = none) (hf : p.forwards = []) (hd : p.data = none)
    (hm : p.atMemory = none) (hr : p.readFrom = none) (hw : p.writeFrom = none) {k : Int} (ha : Abs.acksOk 0 k p) :
    p = .idle ∨ p = .shared none ∨ p = .excl .done none := by
  unfold forwards at hf
  cases p with
  | idle => exact .inl rfl
  | shared i =>
    cases i with
    | none => exact .inr (.inl rfl)
    | some d => simp [inv] at hf
  | excl g x =>
    have hx : x = none := by
      cases x with
      | none => rfl
      | some y => simp [next] at hf
    subst hx
    cases g with
    | done => exact .inr (.inr rfl)
    | memory => cases hm
    | forwarded e => cases hw
    | forwardedS e d => cases hw
    | fromOwner => cases hd
    | fromDir k => cases hd
    | fromDirS k => cases hd
    | acks => obtain ⟨h1, h2⟩ := ha; omega
    | acksS => obtain ⟨h1, h2⟩ := ha; omega
  | getSData b i => cases b <;> cases hd
  | getSMem => cases hm
  | getSFwd e => cases hr
  | evictMem => cases hm
  | evictMAck x => simp [wbAcked] at hf
  | evictSAck i => simp [wbAcked] at hf
  | evictIAck => simp [wbAcked] at hf
  | evictS b i => cases b <;> cases hq
  | evictI b => cases b <;> cases hq
  | getS => cases hq
  | getM => cases hq
  | upgrade i => cases hq
  | evictM x => cases hq

end Phase

theorem NodeOk.settled {c : C} {p : Phase C} {f : Nat} {k : Int} {cur : DataBlock n} {y : Node C n}
    (h : NodeOk c p f k cur y) (hq : y.requestFromCache = []) (hf : y.forwardToCache = [])
    (hr : y.responseToCache = 0) : p.request = none ∧ p.forwards = [] ∧ p.data = none ∧ f = 0 := by
  have hrequest := h.request
  have hforward := h.forward
  have hresponse := h.response
  rw [hq] at hrequest
  rw [hf] at hforward
  rw [hr, Multiset.map_zero] at hresponse
  have hlen := congrArg Multiset.card hresponse
  refine ⟨?_, by simpa using hforward.symm, ?_, ?_⟩
  · cases hp : p.request with
    | none => rfl
    | some t => simp [hp] at hrequest
  · cases hp : p.data with
    | none => rfl
    | some r => simp [hp] at hlen
  · simp at hlen
    omega

/-- A directory with nothing to wait for. -/
theorem HomeOk.settled {g : DirPhase C} {cur : DataBlock n} {b : Directory.Block C n}
    {rs : Multiset (ResponseMsg C n)} {ms : Multiset (MemoryMsg C n)} (h : HomeOk g cur b rs ms) (hr : rs = 0)
    (hm : ms = 0) : g.access = none ∧ g.reply = none := by
  have hdata := h.data
  have hmemory := h.memory
  rw [hr, Multiset.map_zero] at hdata
  rw [hm, Multiset.map_zero] at hmemory
  constructor
  · cases hg : g.access with
    | none => rfl
    | some r => simp [hg] at hmemory
  · cases hg : g.reply with
    | none => rfl
    | some e => simp [hg] at hdata

section
variable [Fintype C] [DecidableEq C]

/-! ## Exact agreement -/

/-- Without messages no cache has a transaction. -/
theorem Repr.ph_of_quiet {s : Sys C n} {a : Abs C} {cur : DataBlock n} (hI : a.Inv) (hR : Repr s a cur) (hq : s.Quiet)
    (c : C) : a.ph c = .idle ∨ a.ph c = .shared none ∨ a.ph c = .excl .done none := by
  have hnode (d : C) := (hR.node d).settled (hq.request d) (hq.forward d) (hq.response d)
  have hhome := hR.home.settled hq.responseToDir hq.memBuffer
  have hnext (d : C) : (a.ph d).inv = none ∧ (a.ph d).next = none := by
    have h := (hnode d).2.1
    unfold Phase.forwards at h
    cases hi : (a.ph d).inv <;> cases hn : (a.ph d).next <;> simp [hi, hn] at h ⊢
  have hout : a.outstanding c = 0 := by
    simp [Abs.outstanding, hnext, (hnode c).2.2.2]
  have hacks := hI.acks c
  rw [hout] at hacks
  refine Phase.settled (hnode c).1 (hnode c).2.1 (hnode c).2.2.1 ?_ ?_ ?_ hacks
  · cases hm : (a.ph c).atMemory with
    | none => rfl
    | some t =>
      rcases Phase.of_atMemory hm with ⟨rfl, -⟩ | ⟨rfl, -⟩ | ⟨rfl, -⟩
      · simp [(hI.fetch_shared c).1 hm, DirPhase.access] at hhome
      · simp [(hI.fetch_own c).1 hm, DirPhase.access] at hhome
      · simp [(hI.writeback c).1 hm, DirPhase.access] at hhome
  · cases hr : (a.ph c).readFrom with
    | none => rfl
    | some e =>
      have := (hI.next_getS e c).2 hr
      rw [(hnext e).2] at this
      cases this
  · cases hw : (a.ph c).writeFrom with
    | none => rfl
    | some e =>
      have := (hI.next_getM e c).2 hw
      rw [(hnext e).2] at this
      cases this

/-- Neither does the directory. -/
theorem Repr.dir_of_quiet {s : Sys C n} {a : Abs C} {cur : DataBlock n} (hI : a.Inv) (hR : Repr s a cur)
    (hq : s.Quiet) : a.dir = .I ∨ a.dir = .S ∨ ∃ o, a.dir = .M o := by
  obtain ⟨haccess, hreply⟩ := hR.home.settled hq.responseToDir hq.memBuffer
  cases hdir : a.dir with
  | I => exact .inl rfl
  | S => exact .inr (.inl rfl)
  | M o => exact .inr (.inr ⟨o, rfl⟩)
  | MS_D e =>
    obtain ⟨r, hn⟩ := Phase.next_of_downgrades ((hI.downgrade e).2 hdir)
    rcases hR.ph_of_quiet hI hq e with h | h | h <;> simp [h, Phase.next] at hn
  | MS_D_data e => simp [hdir, DirPhase.reply] at hreply
  | IS_D c => simp [hdir, DirPhase.access] at haccess
  | IM_D c => simp [hdir, DirPhase.access] at haccess
  | MI_A c => simp [hdir, DirPhase.access] at haccess
  | MS_A e => simp [hdir, DirPhase.access] at haccess

/-- Without messages, the cache in `M` is the one the directory takes for the owner. -/
theorem Repr.getState_M_iff {s : Sys C n} {a : Abs C} {cur : DataBlock n} (hI : a.Inv) (hR : Repr s a cur)
    (hq : s.Quiet) (c : C) : (s.node c).cache.getState = .M ↔ a.dir = .M c := by
  have hph := hR.ph_of_quiet hI hq c
  rw [hR.getState c]
  constructor
  · intro h
    have ho : (a.ph c).owner = true := by
      rcases hph with hc | hc | hc <;> rw [hc] at h ⊢ <;> first | rfl | cases h
    rcases (hI.owner c).1 ho with hd | hd
    · exact hd
    · rcases hR.dir_of_quiet hI hq with hd' | hd' | ⟨o, hd'⟩ <;> rw [hd] at hd' <;> cases hd'
  · intro hd
    have ho := (hI.owner c).2 (.inl hd)
    rcases hph with hc | hc | hc <;> rw [hc] at ho ⊢ <;> first | rfl | cases ho

/-- Without messages, there are shared copies only while the directory is in `S`. -/
theorem Repr.of_getState_S {s : Sys C n} {a : Abs C} {cur : DataBlock n} (hI : a.Inv) (hR : Repr s a cur)
    (hq : s.Quiet) {c : C} (h : (s.node c).cache.getState = .S) : a.dir = .S ∧ a.ph c = .shared none := by
  rw [hR.getState c] at h
  rcases hR.ph_of_quiet hI hq c with hc | hc | hc
  · rw [hc] at h
    cases h
  · refine ⟨?_, hc⟩
    have hs := hI.sharer c (by rw [hc]; rfl)
    rcases hR.dir_of_quiet hI hq with hd | hd | ⟨o, hd⟩ <;> simp [hd] at hs ⊢
  · rw [hc] at h
    cases h

theorem Repr.agree {s : Sys C n} {a : Abs C} {cur : DataBlock n} (hI : a.Inv) (hR : Repr s a cur)
    (hq : s.Quiet) : s.Agree := by
  have hph := hR.ph_of_quiet hI hq
  have hdir := hR.dir_of_quiet hI hq
  have hM := hR.getState_M_iff hI hq
  have hS (c : C) (h : (s.node c).cache.getState = .S) := hR.of_getState_S hI hq h
  obtain ⟨hst, howner, hdata⟩ := hR.home.getState
  have hcache (c : C) : (s.node c).cache.getState = .I ∨ (s.node c).cache.getState = .S ∨
      (s.node c).cache.getState = .M := by
    rw [hR.getState c]
    rcases hph c with hc | hc | hc <;> rw [hc] <;> simp [Phase.state]
  refine ⟨hcache, ?_, ?_, ?_, ?_, ?_, ?_, ?_⟩
  · rw [hst]
    rcases hdir with hd | hd | ⟨o, hd⟩ <;> rw [hd] <;> simp [DirPhase.state]
  · rw [hst]
    constructor
    · intro h
      rcases hdir with hd | hd | ⟨o, hd⟩
      · simp [hd, DirPhase.state] at h
      · simp [hd, DirPhase.state] at h
      · refine ⟨o, (hM o).2 hd, fun c hc => ?_⟩
        have := (hM c).1 hc
        rw [hd] at this
        exact (DirPhase.M.inj this).symm
    · rintro ⟨c, hc, -⟩
      rw [(hM c).1 hc]
      rfl
  · intro c hc
    have hd := (hM c).1 hc
    refine ⟨by rw [howner, hd]; rfl, fun c' hne => ?_⟩
    rcases hcache c' with h | h | h
    · exact h
    · have := (hS c' h).1
      rw [hd] at this
      cases this
    · have := (hM c').1 h
      rw [hd] at this
      exact absurd (DirPhase.M.inj this).symm hne
  · intro h c hc
    rw [hst, (hM c).1 hc] at h
    cases h
  · intro h m
    rw [hR.sharers m]
    refine exists_congr fun c => and_congr_right fun _ => ?_
    constructor
    · intro hs
      rw [hR.getState c]
      rcases hph c with hc | hc | hc <;> rw [hc] at hs ⊢ <;> first | rfl | cases hs
    · intro hs
      rw [(hS c hs).2]
      rfl
  · intro h c hc
    obtain ⟨hd, hp⟩ := hS c hc
    obtain ⟨e, e', he, hcopy, -⟩ := (hR.node c).cache
    refine ⟨⟨.S, e⟩, by rw [he, hp]; rfl, ?_⟩
    rw [hdata (by rw [hd]; rfl)]
    exact hcopy (by rw [hp]; rfl)
  · intro h c
    rcases hcache c with hc | hc | hc
    · exact hc
    · rw [hst, (hS c hc).1] at h
      cases h
    · rw [hst, (hM c).1 hc] at h
      cases h

/-- Whenever nothing is in flight, directory and caches agree. -/
theorem agree_at_quiescence [Directory.Memory C n] (d : DataBlock n) {s : Sys C n}
    (h : Reachable Sys.Step (Sys.init d) s) (hq : s.Quiet) : s.Agree := by
  obtain ⟨v, a, hI, hR⟩ := Good.reachable h
  exact hR.agree hI hq

end

/-- After the store of cache 0 has completed, nothing is in flight. -/
theorem agree_at_quiescence_storeMiss : ∃ s : Sys (Fin 2) 1, Reachable Sys.Step (Sys.init (byte 0)) s ∧
    (s.node 0).cache.getState = .M ∧ s.Quiet ∧ s.Agree := by
  obtain ⟨r, hr, hM, hq, hf, ha, hd, hm⟩ : ∃ r : List (Fin 2 × Callback 1) × Sys (Fin 2) 1,
      (Sys.init (byte 0)).follow storeMiss = some r ∧ (r.2.node 0).cache.getState = .M ∧
      (∀ c, (r.2.node c).requestFromCache = []) ∧ (∀ c, (r.2.node c).forwardToCache = []) ∧
      (∀ c, (r.2.node c).responseToCache = 0) ∧ r.2.responseToDir = 0 ∧ r.2.memBuffer = 0 :=
    ⟨_, rfl, by decide, by decide, by decide, by decide, by decide, by decide⟩
  have hreach : Reachable Sys.Step (Sys.init (byte 0)) r.2 := ⟨r.1, Sys.run_follow hr⟩
  exact ⟨r.2, hreach, hM, ⟨hq, hf, ha, hd, hm⟩, agree_at_quiescence (byte 0) hreach ⟨hq, hf, ha, hd, hm⟩⟩

end Msi
