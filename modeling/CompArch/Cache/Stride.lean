import CompArch.Cache.Isolation
import CompArch.Cache.Lookup
import CompArch.Cache.Sweep
/-!
# Strides

One instruction accesses addresses a fixed distance apart. Every access brings
its entry of the reference prediction table closer to predicting that distance,
and from then on a prefetch brings in the block of the next access.
-/

namespace Cache

open Function Outcome Lts

variable {g : Geometry} {σ : Type} {env : Env σ} {cp : Params} {pc : Addr} {δ : BitVec 32}

/-! ## Learning a stride -/

/-- How many accesses at the distance `δ` an entry still needs before it predicts it. -/
def distance (δ : BitVec 32) (entry : RptEntry) : Nat :=
  match entry.state with
  | .STEADY => if entry.stride = δ then 0 else 3
  | .TRANSIENT => if entry.stride = δ then 1 else 3
  | .INIT => if entry.stride = δ then 1 else 2
  | .NO_PREDICTION => if entry.stride = δ then 2 else 3

theorem distance_le (δ : BitVec 32) (entry : RptEntry) : distance δ entry ≤ 3 := by
  unfold distance
  split <;> split <;> omega

theorem distance_eq_zero {entry : RptEntry} (h : distance δ entry = 0) : entry.state = .STEADY ∧ entry.stride = δ := by
  unfold distance at h
  split at h <;> split at h <;> simp_all

/-- Every access at the distance brings the entry closer. -/
theorem distance_update {entry : RptEntry} {addr : Addr} (hpc : entry.tag = pc) (hδ : addr - entry.prev_addr = δ) :
    distance δ (update_entry entry addr pc) ≤ distance δ entry - 1 := by
  obtain ⟨tag, prev, stride, state⟩ := entry
  obtain rfl : tag = pc := hpc
  simp only at hδ
  by_cases hs : δ = stride
  · cases state <;> simp [update_entry, distance, hδ, hs]
  · have hs' : ¬ stride = δ := fun h => hs h.symm
    cases state <;> simp [update_entry, distance, hδ, hs, hs']

/-! ## The table -/

/-- A table this cache allocated itself, if there is one: no other cache uses it. -/
def OwnRpt (cp : Params) (s : Statics) : Prop := ∀ t, s.rpt = some t → t.length = cp.prefetch_type

/-- The entry of the instruction at `pc`. -/
def rptEntry (cp : Params) (s : Statics) (pc : Addr) : Option RptEntry :=
  (s.rpt.getD (List.replicate cp.prefetch_type {}))[(pc >>> zero_bits).toNat % cp.prefetch_type]?

/-- The stride prefetcher updates the entry, and unless that makes no prediction
computes the block it predicts. -/
theorem generate_prefetch_entry (h : UsesStride cp) {s : Statics} (hown : OwnRpt cp s) (a : Access) :
    ∃ entry s', rptEntry cp s a.pc = some entry ∧ OwnRpt cp s' ∧
      rptEntry cp s' a.pc = some (update_entry entry a.addr a.pc) ∧
      generate_prefetch cp s a = some (if (update_entry entry a.addr a.pc).state ≠ .NO_PREDICTION
        then [CACHE_TAGSET cp (a.addr + (update_entry entry a.addr a.pc).stride)] else [], s') := by
  have hpos : 0 < cp.prefetch_type := Nat.lt_of_lt_of_le (by decide) h
  have hlen : (s.rpt.getD (List.replicate cp.prefetch_type {})).length = cp.prefetch_type := by
    cases hr : s.rpt with
    | none => exact List.length_replicate
    | some t => exact hown t hr
  have hi : (a.pc >>> zero_bits).toNat % cp.prefetch_type <
      (s.rpt.getD (List.replicate cp.prefetch_type {})).length := by
    rw [hlen]
    exact Nat.mod_lt _ hpos
  have he := List.getElem?_eq_getElem hi
  have hg := generate_prefetch_stride h s a
  simp only [stride_prefetcher, he, Option.map_some] at hg
  refine ⟨_, _, he, fun t ht => ?_, ?_, hg⟩
  · cases ht
    rw [List.length_set, hlen]
  · exact List.getElem?_set_self hi

/-- The entry of the instruction predicts the stride `δ`. -/
def Steady (cp : Params) (δ : BitVec 32) (pc : Addr) (w : World σ) : Prop :=
  ∃ entry, rptEntry cp w.statics pc = some entry ∧ entry.state = .STEADY ∧ entry.stride = δ

/-! ## Streams -/

/-- The accesses are by one instruction, and their addresses `δ` apart from `a` on. -/
def IsStride (a : Addr) (δ : BitVec 32) (pc : Addr) (ds : List Demand) : Prop :=
  ∀ i d, ds[i]? = some d → d.pc = pc ∧ d.addr = a + BitVec.ofNat 32 i * δ

theorem isStride_concat {a : Addr} {ds : List Demand} {d : Demand} : IsStride a δ pc (ds ++ [d]) ↔
    IsStride a δ pc ds ∧ d.pc = pc ∧ d.addr = a + BitVec.ofNat 32 ds.length * δ := by
  constructor
  · intro h
    refine ⟨fun i d' hd => h i d' ?_, h ds.length d (by simp)⟩
    have hi : i < ds.length := (List.getElem?_eq_some_iff.1 hd).1
    rwa [List.getElem?_append_left hi]
  · rintro ⟨h, hd⟩ i d' hi
    rcases Nat.lt_or_ge i ds.length with hlt | hge
    · rw [List.getElem?_append_left hlt] at hi
      exact h i d' hi
    · rw [List.getElem?_append_right hge] at hi
      obtain ⟨he, rfl⟩ : i - ds.length = 0 ∧ d = d' := by
        cases hk : i - ds.length with
        | zero => simpa [hk] using hi
        | succ k => simp [hk] at hi
      obtain rfl : i = ds.length := by omega
      exact hd

/-- The access or its prefetch is to block 0. -/
def Demand.touchesBlock0 (env : Env σ) (d : Demand) (st : Store g) (w : World σ) : Bool :=
  CACHE_TAGSET g.toParams d.addr == 0 || match st.access env d.cmd d.addr d.nbytes false w with
    | .error _ => false
    | .ok (_, _, st, w) =>
      match generate_prefetch g.toParams w.statics { addr := d.addr, pc := d.pc, resident := st.resident } with
      | none => false
      | some (pf, _) => pf.any fun a => CACHE_TAGSET g.toParams a == 0 && !st.resident a

/-- The miss handler leaves the table alone: no cache below uses it. -/
def Env.KeepsRpt (env : Env σ) : Prop :=
  ∀ cmd baddr prefetch w w', env.blk_access_fn cmd baddr prefetch w = some w' → w'.statics.rpt = w.statics.rpt

/-- An access that completes and stays clear of block 0, or what happens elsewhere. -/
inductive StreamStep (env : Env σ) : Store g × World σ → List Demand → Store g × World σ → Prop
  | access (d : Demand) {exit : Exit} {st st' : Store g} {w w' : World σ} : d.touchesBlock0 env st w = false →
      d.perform env st w = .ok (exit, st', w') → StreamStep env (st, w) [d] (st', w')
  | elsewhere (st : Store g) {w w' : World σ} : w'.statics.rpt = w.statics.rpt → StreamStep env (st, w) [] (st, w')

/-- What the stream's next access does, after `n` others: from the fourth on it
leaves a steady entry behind or ends in the miss handler, and from the fifth on
it finds its block. -/
structure Streams (env : Env σ) (δ : BitVec 32) (n : Nat) (d : Demand) (s : Store g × World σ) : Prop where
  steady : 3 ≤ n → Ensures (d.perform env s.1 s.2) (fun r => Steady g.toParams δ d.pc r.2.2) (· = .handler)
  hit : 4 ≤ n → ∃ exit p, s.1.lookup d.addr d.nbytes = .ok (exit, some p) ∧ exit ≠ .miss

/-! ## What a stream has learned -/

theorem stride_succ (a : Addr) (δ : BitVec 32) (n : Nat) :
    a + BitVec.ofNat 32 (n + 1) * δ = a + BitVec.ofNat 32 n * δ + δ := by
  rw [BitVec.ofNat_add, BitVec.add_mul, BitVec.add_assoc]
  congr 2
  exact BitVec.one_mul δ

/-- The table is the only part of the statics the entry depends on. -/
theorem rptEntry_congr {s s' : Statics} (h : s'.rpt = s.rpt) : rptEntry cp s' pc = rptEntry cp s pc := by
  rw [rptEntry, h, rptEntry]

theorem OwnRpt.congr {s s' : Statics} (h : s'.rpt = s.rpt) (ho : OwnRpt cp s) : OwnRpt cp s' := by
  intro t ht
  exact ho t (h.symm.trans ht)

/-- The state after `n` accesses of a stream. -/
structure Learned (a : Addr) (δ : BitVec 32) (pc : Addr) (n : Nat) (s : Store g × World σ) : Prop where
  ok : s.1.Ok
  own : OwnRpt g.toParams s.2.statics
  entry : ∀ m, n = m + 1 → ∃ entry, rptEntry g.toParams s.2.statics pc = some entry ∧ entry.tag = pc ∧
    entry.prev_addr = a + BitVec.ofNat 32 m * δ ∧ distance δ entry ≤ 4 - n
  next : 4 ≤ n → s.1.Resident (a + BitVec.ofNat 32 n * δ)

theorem Learned.congr {a : Addr} {n : Nat} {st : Store g} {w w' : World σ} (h : Learned a δ pc n (st, w))
    (hw : w'.statics.rpt = w.statics.rpt) : Learned a δ pc n (st, w') := by
  refine ⟨h.ok, h.own.congr hw, fun m hm => ?_, h.next⟩
  rw [rptEntry_congr hw]
  exact h.entry m hm

/-- After the fourth access the entry is steady. -/
theorem Learned.steady {a : Addr} {n : Nat} {s : Store g × World σ} (h : Learned a δ pc n s) (hn : 4 ≤ n) :
    Steady g.toParams δ pc s.2 := by
  obtain ⟨m, rfl⟩ := Nat.exists_eq_add_of_le' (Nat.le_trans (by decide : 1 ≤ 4) hn)
  obtain ⟨entry, he, -, -, hd⟩ := h.entry m rfl
  obtain ⟨hs, hδ⟩ := distance_eq_zero (Nat.le_zero.1 (Nat.le_trans hd (by omega)))
  exact ⟨entry, he, hs, hδ⟩

/-- The table stays the same but for the prefetcher's own update. -/
def SameRpt (w w' : World σ) : Prop := w'.statics.rpt = w.statics.rpt

theorem Env.KeepsRpt.keeps (h : env.KeepsRpt) (w : World σ) : env.Keeps (SameRpt w) where
  handler cmd baddr prefetch w₁ w₂ hw hc := (h cmd baddr prefetch w₁ w₂ hc).trans hw
  rest _ _ hw := hw

/-- What one access of a stream adds. -/
theorem Learned.access (h3 : UsesStride g.toParams) {a : Addr} {n : Nat} {st st₁ : Store g} {w w₁ : World σ}
    {d : Demand}
    {p : g.SetIdx × g.Way} {pf : List Addr} {s : Statics} {r : Exit × Store g × World σ} (h : Learned a δ pc n (st, w))
    (hpc : d.pc = pc) (haddr : d.addr = a + BitVec.ofNat 32 n * δ)
    (hd : Store.Demanded SameRpt d.cmd d.addr d.pc st w p st₁ w₁ pf s r) : Learned a δ pc (n + 1) (r.2.1, r.2.2) := by
  obtain ⟨entry, s', he, hown, he', hg⟩ := generate_prefetch_entry h3 (h.own.congr hd.body)
    { addr := d.addr, pc := d.pc, resident := st₁.resident }
  obtain ⟨hpf, hs⟩ := Prod.mk.inj (Option.some.inj (hd.prefetch.symm.trans hg))
  subst hs
  dsimp only at he he' hpf
  rw [hpc] at he he' hpf
  rw [rptEntry_congr hd.body] at he
  have hafter : r.2.2.statics.rpt = s.rpt := hd.after
  have hdist : distance δ (update_entry entry d.addr pc) ≤ 4 - (n + 1) := by
    cases n with
    | zero => exact distance_le ..
    | succ m =>
      obtain ⟨e, hentry, htag, hprev, hle⟩ := h.entry m rfl
      obtain rfl := Option.some.inj (hentry.symm.trans he)
      have hδ : d.addr - e.prev_addr = δ := by
        rw [haddr, hprev, stride_succ, BitVec.add_comm, BitVec.add_sub_cancel]
      have := distance_update htag hδ
      omega
  refine ⟨hd.ok, hown.congr hafter, fun m hm => ?_, fun hn => ?_⟩
  · obtain rfl : n = m := by omega
    refine ⟨_, ?_, rfl, haddr, hdist⟩
    rw [← he']
    exact rptEntry_congr hafter
  · obtain ⟨hsteady, hstride⟩ := distance_eq_zero (Nat.le_zero.1 (Nat.le_trans hdist (by omega)))
    rw [hsteady, hstride, if_pos (by decide)] at hpf
    have hf := hd.fetched
    rw [hpf] at hf
    cases hf with
    | cons hf hnil =>
      cases hnil
      rw [stride_succ, ← haddr]
      exact hf.mem.congr (CACHE_TAGSET_idem ..)

theorem Demand.perform_stream (hrpt : env.KeepsRpt) (d : Demand) {s : Store g × World σ} (h : s.1.Ok) :
    Ensures (d.perform env s.1 s.2)
      (fun r => ∃ p st₁ w₁ pf s', Store.Demanded SameRpt d.cmd d.addr d.pc s.1 s.2 p st₁ w₁ pf s' r)
      (Store.DemandStopped env SameRpt d.cmd d.addr d.nbytes d.pc s.1 s.2) :=
  Store.demandAccess_ok h hrpt.keeps fun _ => rfl

theorem Learned.step (h3 : UsesStride g.toParams) (hrpt : env.KeepsRpt) {a : Addr} {ds o : List Demand}
    {s s' : Store g × World σ} (h : Learned a δ pc ds.length s) (hstep : StreamStep env s o s')
    (hs : IsStride a δ pc (ds ++ o)) : Learned a δ pc (ds ++ o).length s' := by
  cases hstep with
  | elsewhere st hw =>
    rw [List.append_nil]
    exact h.congr hw
  | access d _ hd =>
    obtain ⟨-, hpc, haddr⟩ := isStride_concat.1 hs
    obtain ⟨p, st₁, w₁, pf, s, hdem⟩ := (d.perform_stream hrpt h.ok).of_ok hd
    rw [List.length_append]
    exact h.access h3 hpc haddr hdem

theorem Learned.run (h3 : UsesStride g.toParams) (hrpt : env.KeepsRpt) {a : Addr} {ds : List Demand}
    {s₀ s : Store g × World σ} (h₀ : s₀.1.Ok) (hown : OwnRpt g.toParams s₀.2.statics)
    (hrun : Run (StreamStep env) s₀ ds s) (hs : IsStride a δ pc ds) : Learned a δ pc ds.length s := by
  induction hrun with
  | start => exact ⟨h₀, hown, fun m hm => (by cases hm), fun hn => absurd hn (by decide)⟩
  | @step ds s o s' hrun hstep ih =>
    refine (ih ?_).step h3 hrpt hstep hs
    intro i d hi
    exact hs i d ((List.getElem?_append_left (List.getElem?_eq_some_iff.1 hi).1).trans hi)

/-! ## Streams stop missing -/

/-- What the access stays clear of. -/
theorem Demand.clear {d : Demand} {st : Store g} {w : World σ} (h : d.touchesBlock0 env st w = false) :
    CACHE_TAGSET g.toParams d.addr ≠ 0 ∧ ∀ exit blk st₁ w₁ pf s,
      st.access env d.cmd d.addr d.nbytes false w = .ok (exit, blk, st₁, w₁) →
      generate_prefetch g.toParams w₁.statics { addr := d.addr, pc := d.pc, resident := st₁.resident } = some (pf, s) →
      ∀ x ∈ pf, CACHE_TAGSET g.toParams x = 0 → st₁.resident x = true := by
  rw [touchesBlock0, Bool.or_eq_false_iff] at h
  refine ⟨by simpa using h.1, fun exit blk st₁ w₁ pf s hacc hg x hx h0 => ?_⟩
  have hpf := h.2
  rw [hacc] at hpf
  simp only [hg, List.any_eq_false] at hpf
  simpa [h0] using hpf x hx

/-- Fetching one block ends early in the miss handler, or at block 0. -/
theorem fetchStopped_block {st : Store g} (h : st.Ok) {addr : Addr} {e : Stop}
    (hclear : CACHE_TAGSET g.toParams (CACHE_TAGSET g.toParams addr) = 0 →
      st.resident (CACHE_TAGSET g.toParams addr) = true)
    (hf : Store.FetchStopped st [CACHE_TAGSET g.toParams addr] e) : e = .handler := by
  cases hf with
  | here hno hs =>
    cases hs with
    | handler => rfl
    | fatal text hnp => exact absurd ⟨(inBlock_block _ _).size, not_spans_block _ _⟩ hnp
    | null hb ht => exact absurd ((h.resident_eq _).1 (hclear ht)) hno
  | later _ hf => cases hf

/-- An access of a stream that passes the checks ends early in the miss handler only. -/
theorem Learned.completes (h3 : UsesStride g.toParams) {a : Addr} {n : Nat} {s : Store g × World σ}
    {d : Demand} (h : Learned a δ pc n s) (hclear : d.touchesBlock0 env s.1 s.2 = false)
    (hp : Store.Passes g.toParams d.addr d.nbytes) {e : Stop}
    (he : Store.DemandStopped env SameRpt d.cmd d.addr d.nbytes d.pc s.1 s.2 e) : e = .handler := by
  obtain ⟨h0, hpf⟩ := Demand.clear hclear
  cases he with
  | body he =>
    cases he with
    | handler => rfl
    | fatal text hnp => exact absurd hp hnp
    | null hb ht => exact absurd ht h0
  | @bounds exit blk st₁ w₁ hacc hw hg =>
    obtain ⟨entry, s', -, -, -, hg'⟩ := generate_prefetch_entry h3 (h.own.congr hw)
      { addr := d.addr, pc := d.pc, resident := st₁.resident }
    cases hg.symm.trans hg'
  | @prefetch exit blk st₁ w₁ pf s' _ hacc hw hg hf =>
    obtain ⟨entry, s'', -, -, -, hg'⟩ := generate_prefetch_entry h3 (h.own.congr hw)
      { addr := d.addr, pc := d.pc, resident := st₁.resident }
    have h₁ := ((Store.access_ok h.ok env.keeps_true trivial).of_ok hacc).1.ok h.ok
    have hx := hpf _ _ _ _ _ _ hacc hg
    obtain ⟨rfl, -⟩ := Prod.mk.inj (Option.some.inj (hg.symm.trans hg'))
    split at hf
    · next hstate =>
      rw [if_pos hstate] at hx
      exact fetchStopped_block h₁ (hx _ (List.mem_singleton_self _)) hf
    · cases hf

/-- From the fourth access of a stream on, an access does what is expected of it exactly
when it is not in the last block of the address space, short of its end. -/
theorem streams_iff (h3 : UsesStride g.toParams) (hrpt : env.KeepsRpt) {s₀ s : Store g × World σ} (h₀ : Reached env s₀)
    (hown : OwnRpt g.toParams s₀.2.statics) {ds : List Demand} (hrun : Run (StreamStep env) s₀ ds s) {a : Addr}
    {d : Demand}
    (hs : IsStride a δ pc (ds ++ [d])) (hin : InBlock g.toParams d.addr d.nbytes)
    (hclear : d.touchesBlock0 env s.1 s.2 = false) (hn : 3 ≤ ds.length) :
    Streams env δ ds.length d s ↔ ¬ Store.InLastBlock g.toParams d.addr d.nbytes := by
  obtain ⟨hds, hpc, haddr⟩ := isStride_concat.1 hs
  have hl := Learned.run h3 hrpt h₀.ok hown hrun hds
  rw [← Store.passes_iff hin]
  constructor
  · intro hstream
    by_contra hp
    obtain ⟨text, ht⟩ := Store.lookup_fatal s.1 hp
    have hfatal : d.perform env s.1 s.2 = .error (.fatal text d.addr) := by
      unfold Demand.perform Store.demandAccess Store.access
      rw [ht]
      rfl
    have := hstream.steady hn
    rw [hfatal] at this
    cases this
  · intro hp
    constructor
    · intro _
      refine (d.perform_stream hrpt hl.ok).mono ?_ fun e he => hl.completes h3 hclear hp he
      rintro r ⟨p, st₁, w₁, pf, s', hdem⟩
      rw [hpc]
      exact (hl.access h3 hpc haddr hdem).steady (Nat.succ_le_succ hn)
    · intro h4
      have hres := hl.next h4
      rw [← haddr] at hres
      obtain ⟨r, hr, hlooked⟩ := hl.ok.lookup hp
      cases hlooked with
      | miss hno => exact absurd hres hno
      | slow p hh => exact ⟨_, p, hr, nofun⟩
      | fast p hh => exact ⟨_, p, hr, nofun⟩
      | null hb ht => exact absurd ht (Demand.clear hclear).1

/-! ## Two streams -/

def strided : Geometry := { small with prefetch_type := 8 }

/-- The next access of a stream, when it completes and stays clear of block 0. -/
def streamNext (env : Env σ) (s : Store g × World σ) (d : Demand) : Option (List Demand × (Store g × World σ)) :=
  if d.touchesBlock0 env s.1 s.2 then none
  else match d.perform env s.1 s.2 with
    | .error _ => none
    | .ok (_, st, w) => some ([d], (st, w))

theorem streamNext_step {s s' : Store g × World σ} {d : Demand} {o : List Demand}
    (h : streamNext env s d = some (o, s')) : StreamStep env s o s' := by
  unfold streamNext at h
  split at h
  · cases h
  · next hclear =>
    split at h
    · cases h
    · next hd =>
      cases h
      exact .access d (by simpa using hclear) hd

/-- The load of one word number `i` of a stream of words that are one block of 32 bytes apart. -/
def wordAt (a : Addr) (i : Nat) : Demand := ⟨.Read, a + BitVec.ofNat 32 i * 32, 4, 8⟩

theorem isStride_words (a : Addr) (n : Nat) : IsStride a 32 8 ((List.range n).map (wordAt a)) := by
  intro i d hd
  obtain ⟨hi, rfl⟩ := List.getElem?_eq_some_iff.1 hd
  rw [List.getElem_map, List.getElem_range]
  exact ⟨rfl, rfl⟩

theorem idle_keepsRpt : idle.KeepsRpt := by
  intro cmd baddr prefetch w w' h
  cases h
  rfl

/-- The fifth word of a stream in a new cache. -/
theorem streams_iff_words : ∃ s, Run (StreamStep idle) (cache_create strided, { rest := () })
    ((List.range 4).map (wordAt 0x1000)) s ∧ Streams idle 32 4 (wordAt 0x1000 4) s := by
  obtain ⟨s, hs, hclear⟩ : ∃ s, exec (streamNext idle) (cache_create strided, { rest := () })
      ((List.range 4).map (wordAt 0x1000)) = some ((List.range 4).map (wordAt 0x1000), s) ∧
      (wordAt 0x1000 4).touchesBlock0 idle s.1 s.2 = false := ⟨_, rfl, rfl⟩
  have hrun := Run.exec (fun _ _ _ _ => streamNext_step) .start hs
  have hown : OwnRpt strided.toParams {} := by
    intro t ht
    cases ht
  exact ⟨s, hrun, (streams_iff (by decide) idle_keepsRpt ⟨_, Reachable.start⟩ hown hrun (isStride_words _ 5)
    ⟨⟨2, rfl, by decide⟩, by decide⟩ hclear (by decide)).2 fun h => absurd h.1 (by decide)⟩

/-- The fifth word of a stream into the last block: its prefetch is in the cache,
and the load fails. -/
theorem not_streams_words : ∃ s, Run (StreamStep idle) (cache_create strided, { rest := () })
    ((List.range 4).map (wordAt 0xFFFFFF60)) s ∧ Reached idle (cache_create strided, ({ rest := () } : World Unit)) ∧
    OwnRpt strided.toParams {} ∧ idle.KeepsRpt ∧ IsStride 0xFFFFFF60 32 8 ((List.range 5).map (wordAt 0xFFFFFF60)) ∧
    InBlock strided.toParams (wordAt 0xFFFFFF60 4).addr 4 ∧
    (wordAt 0xFFFFFF60 4).touchesBlock0 idle s.1 s.2 = false ∧ s.1.resident (wordAt 0xFFFFFF60 4).addr = true ∧
    ¬ Streams idle 32 4 (wordAt 0xFFFFFF60 4) s := by
  obtain ⟨s, hs, hclear, hres, hl⟩ : ∃ s, exec (streamNext idle) (cache_create strided, { rest := () })
      ((List.range 4).map (wordAt 0xFFFFFF60)) = some ((List.range 4).map (wordAt 0xFFFFFF60), s) ∧
      (wordAt 0xFFFFFF60 4).touchesBlock0 idle s.1 s.2 = false ∧ s.1.resident (wordAt 0xFFFFFF60 4).addr = true ∧
      s.1.lookup (wordAt 0xFFFFFF60 4).addr 4 =
        .error (.fatal "cache: access error: access spans block, addr 0x%08x" (wordAt 0xFFFFFF60 4).addr) :=
    ⟨_, rfl, rfl, rfl, rfl⟩
  refine ⟨s, Run.exec (fun _ _ _ _ => streamNext_step) .start hs, ⟨_, Reachable.start⟩, ?_, idle_keepsRpt,
    isStride_words _ 5, ⟨⟨2, rfl, by decide⟩, by decide⟩, hclear, hres, fun h => ?_⟩
  · intro t ht
    cases ht
  · obtain ⟨exit, p, he, -⟩ := h.hit (by decide)
    cases hl.symm.trans he

end Cache
