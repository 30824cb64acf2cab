import CompArch.Cache.Isolation
import CompArch.Cache.Sweep
/-!
# A demand access and its prefetch

A demand access of an LRU cache of two or more ways puts its block at the head of
the way list, and at most one prefetch follows. So the block is still there when
the access returns, first or second in its set.
-/

namespace Cache

open Function Recency Outcome Lts

variable {g : Geometry} {σ : Type} {env : Env σ}

/-! ## At most one prefetch -/

/-- Whatever the prefetcher, it stops at the first address that is not resident. -/
theorem generate_prefetch_probes {cp : Params} {s s' : Statics} {a : Access} {pf : List Addr}
    (h : generate_prefetch cp s a = some (pf, s')) : ∃ l, pf = probeUntilMiss a.resident l := by
  have hone (x : Addr) : [x] = probeUntilMiss a.resident [x] := by
    by_cases hr : a.resident x = true <;> simp [probeUntilMiss, hr]
  by_cases hs : UsesStride cp
  · rw [generate_prefetch_stride hs, stride_prefetcher] at h
    dsimp only at h
    split at h
    case h_1 => cases h
    case h_2 =>
      cases h
      split
      · exact ⟨_, hone _⟩
      · exact ⟨[], rfl⟩
  · by_cases ho : UsesOpenEnded cp
    · rw [generate_prefetch_openEnded ho] at h
      cases h
      unfold open_ended_prefetcher
      dsimp only
      split
      · exact ⟨_, hone _⟩
      · exact ⟨_, rfl⟩
    · unfold UsesStride at hs
      unfold UsesOpenEnded at ho
      obtain ht | ht : cp.prefetch_type = 0 ∨ cp.prefetch_type = 1 := by omega
      · simp only [generate_prefetch, ht] at h
        cases h
        exact ⟨[], rfl⟩
      · simp only [generate_prefetch, ht] at h
        cases h
        exact ⟨_, hone _⟩

namespace Store

variable {st st' : Store g} {addr : Addr} {cmd : Cmd} {prefetch : Bool} {exit : Exit} {p : g.SetIdx × g.Way}

theorem Used.prefetches (hu : Used cmd prefetch st addr exit p st') :
    st'.stats.prefetches = st.stats.prefetches + if prefetch = true then 1 else 0 := by
  have hs := hu.stats
  by_cases he : exit = .miss
  · rw [if_pos he] at hs
    obtain ⟨valid, dirty, hs⟩ := hs
    rw [hs]
    cases prefetch <;> simp [Stats.prefetches, Stats.replaced, Stats.countMiss, Nat.add_assoc]
  · rw [if_neg he] at hs
    rw [hs]
    cases prefetch <;> simp [Stats.prefetches, Stats.countHit, Nat.add_right_comm]

/-- Of addresses that are resident up to the last one at most this one is fetched. -/
theorem FetchedAll.once (h : st.Ok) {l : List Addr} (hf : FetchedAll st (probeUntilMiss st.resident l) st') :
    st' = st ∨ ∃ pf p, Used .Read true st pf .miss p st' := by
  induction l with
  | nil =>
    cases hf
    exact .inl rfl
  | cons a l ih =>
    unfold probeUntilMiss at hf
    by_cases hr : st.resident a = true
    · rw [if_pos hr] at hf
      cases hf with
      | cons hf hrest =>
        cases hf with
        | resident => exact ih hrest
        | fetched p st' hno _ => exact absurd ((h.resident_eq a).1 hr) hno
    · rw [if_neg hr] at hf
      cases hf with
      | cons hf hnil =>
        cases hnil
        cases hf with
        | resident hres => exact absurd ((h.resident_eq a).2 hres) hr
        | fetched p st' _ hu => exact .inr ⟨a, p, hu⟩

/-- A tag among the first two held is that of one of the first two blocks. -/
theorem mem_order_of_contents {cs : CacheSet g.assoc} (h : cs.Sound) (hl : g.policy = .LRU) {tag : Addr}
    (ht : tag ∈ cs.contents.take 2) : ∃ b ∈ cs.order.take 2, cs.holds tag b = true := by
  have hpacked := h.packed (by rw [hl]; nofun)
  rw [CacheSet.contents, take_tagsOf hpacked] at ht
  obtain ⟨b, hb, rfl⟩ := List.mem_map.1 ht
  obtain ⟨hb, hv⟩ := List.mem_filter.1 hb
  exact ⟨b, hb, holds_iff.2 ⟨rfl, hv⟩⟩

variable {J : World σ → World σ → Prop} {pc : Addr} {st₁ : Store g} {w w₁ : World σ} {pf : List Addr} {s : Statics}
  {r : Exit × Store g × World σ}

/-- What a demand access leaves behind: its block was used, and at most one more. -/
theorem Demanded.once (hd : Demanded J cmd addr pc st w p st₁ w₁ pf s r) :
    r.2.1 = st₁ ∨ ∃ pf p, Used .Read true st₁ pf .miss p r.2.1 := by
  obtain ⟨l, hl⟩ := generate_prefetch_probes hd.prefetch
  have hf := hd.fetched
  rw [hl] at hf
  exact hf.once hd.used.ok

/-- The block is one of the last two used of its set. -/
theorem Demanded.recent (hl : g.policy = .LRU) (ha : 2 ≤ g.assoc) (hd : Demanded J cmd addr pc st w p st₁ w₁ pf s r) :
    CACHE_TAG g addr ∈ (r.2.1.sets (CACHE_SET g addr)).contents.take 2 := by
  have hhead := hd.used.head hl
  have hfirst : CACHE_TAG g addr ∈ (st₁.sets (CACHE_SET g addr)).contents.take 2 := by
    obtain ⟨ts, hts⟩ := List.head?_eq_some_iff.1 hhead
    rw [hts]
    exact List.mem_cons_self
  rcases hd.once with he | ⟨pf', p', hu⟩
  · rwa [he]
  · by_cases hs : CACHE_SET g addr = CACHE_SET g pf'
    · rw [hs] at hhead ⊢
      rw [hu.recency hl]
      exact mem_take_touch_of_head ha hhead
    · rwa [hu.others _ hs]

end Store

/-! ## A demand access keeps its block -/

/-- When a demand access returns, `cache_probe` finds its block, which is one of the
last two used of its set, and the cache has made at most one prefetch access. -/
theorem access_keeps_block (hl : g.policy = .LRU) (ha : 2 ≤ g.assoc) {s : Store g × World σ} (h : Reached env s)
    {d : Demand} {exit : Exit} {st' : Store g} {w' : World σ} (hd : d.perform env s.1 s.2 = .ok (exit, st', w')) :
    st'.cache_probe d.addr = .ok true ∧
      (∃ b ∈ (st'.sets (CACHE_SET g d.addr)).order.take 2,
        (st'.sets (CACHE_SET g d.addr)).holds (CACHE_TAG g d.addr) b = true) ∧
      st'.stats.prefetches ≤ s.1.stats.prefetches + 1 := by
  obtain ⟨p, st₁, w₁, pf, s₁, hdem⟩ := d.perform_ok h.ok hd
  have hok : st'.Ok := hdem.ok
  have hrecent := hdem.recent hl ha
  have hmem : st'.Resident d.addr := List.mem_of_mem_take hrecent
  refine ⟨hok.probe_iff.2 hmem, Store.mem_order_of_contents (hok.sets _) hl hrecent, ?_⟩
  have hbody : st₁.stats.prefetches = s.1.stats.prefetches := hdem.used.prefetches.trans (by simp)
  rcases hdem.once with he | ⟨pf', p', hu⟩
  · have he' : st' = st₁ := he
    rw [he', hbody]
    exact Nat.le_succ _
  · have hone : st'.stats.prefetches = st₁.stats.prefetches + 1 := hu.prefetches.trans (by simp)
    rw [hone, hbody]

/-- One set of two blocks, with the next line prefetcher. -/
def narrow : Geometry := { wide with way_bits := 1 }

/-- A load into a full set replaces one block, and its prefetch the other. -/
theorem access_keeps_block_full : ∃ log s exit st' w',
    performAll idle narrow { rest := () } [.access .Read 64 4 false 0, .access .Write 160 4 false 0] = some (log, s) ∧
      s.1.resident 160 = true ∧ s.1.resident 192 = true ∧
      Demand.perform idle ⟨.Read, 256, 4, 0⟩ s.1 s.2 = .ok (exit, st', w') ∧ st'.resident 160 = false ∧
      st'.resident 192 = false ∧ st'.cache_probe 256 = .ok true ∧ st'.stats.prefetches ≤ s.1.stats.prefetches + 1 := by
  obtain ⟨log, s, hs, h160, h192⟩ : ∃ log s, performAll idle narrow { rest := () }
      [.access .Read 64 4 false 0, .access .Write 160 4 false 0] = some (log, s) ∧
        s.1.resident 160 = true ∧ s.1.resident 192 = true := ⟨_, _, rfl, rfl, rfl⟩
  obtain ⟨exit, st', w', hr, hgone160, hgone192⟩ : ∃ exit st' w',
      Demand.perform idle ⟨.Read, 256, 4, 0⟩ s.1 s.2 = .ok (exit, st', w') ∧ st'.resident 160 = false ∧
        st'.resident 192 = false := by
    cases hs
    exact ⟨_, _, _, rfl, rfl, rfl⟩
  obtain ⟨hprobe, -, hone⟩ := access_keeps_block rfl (by decide) (reached_performAll hs) hr
  exact ⟨log, s, exit, st', w', hs, h160, h192, hr, hgone160, hgone192, hprobe, hone⟩

end Cache
