import Mathlib.Data.List.Chain
import CompArch.Cache.Calls
/-!
# Sweeps with the next line prefetcher

Demand accesses that follow each other, each in the block of the one before or in
the next block. After every access its block and the next one are in an LRU cache
of two or more ways: the block was used last, so the prefetch does not replace it.
-/

namespace Cache

open Function Recency Outcome Lts

variable {g : Geometry} {σ : Type} {env : Env σ} {between : World σ → World σ → Prop}

/-! ## Demand accesses in a row -/

/-- A demand access by the instruction at `pc`. -/
structure Demand where
  cmd : Cmd
  addr : Addr
  nbytes : Addr
  pc : Addr
  deriving DecidableEq

def Demand.perform (env : Env σ) (d : Demand) (st : Store g) (w : World σ) : Except Stop (Exit × Store g × World σ) :=
  st.demandAccess env d.cmd d.addr d.nbytes d.pc w

/-- A demand access that completes, or what happens elsewhere before the next one. -/
inductive DemandStep (env : Env σ) (between : World σ → World σ → Prop) :
    Store g × World σ → List (Demand × Exit) → Store g × World σ → Prop
  | access (d : Demand) {exit : Exit} {st st' : Store g} {w w' : World σ} : d.perform env st w = .ok (exit, st', w') →
      DemandStep env between (st, w) [(d, exit)] (st', w')
  | elsewhere (st : Store g) {w w' : World σ} : between w w' → DemandStep env between (st, w) [] (st, w')

namespace Store

variable {st st' : Store g} {addr addr' : Addr} {cmd : Cmd} {prefetch : Bool} {exit : Exit} {p : g.SetIdx × g.Way}

/-! ## What an access keeps -/

/-- The last block used stays when another one is used. -/
theorem Used.resident_of_head (hl : g.policy = .LRU) (ha : 2 ≤ g.assoc) (hu : Used cmd prefetch st addr exit p st')
    (hhead : (st.sets (CACHE_SET g addr')).contents.head? = some (CACHE_TAG g addr')) : st'.Resident addr' := by
  unfold Resident
  by_cases hs : CACHE_SET g addr' = CACHE_SET g addr
  · rw [hs] at hhead ⊢
    rw [hu.recency hl]
    exact mem_touch_of_head ha hhead
  · rw [hu.others _ hs]
    exact List.mem_of_mem_head? hhead

theorem Used.head (hl : g.policy = .LRU) (hu : Used cmd prefetch st addr exit p st') :
    (st'.sets (CACHE_SET g addr)).contents.head? = some (CACHE_TAG g addr) := by
  rw [hu.recency hl]
  exact head_touch g.assoc_pos

/-- A prefetch keeps the last block used. -/
theorem Fetched.resident_of_head {pf : Addr} (hl : g.policy = .LRU) (ha : 2 ≤ g.assoc) (hf : Fetched st pf st')
    (hhead : (st.sets (CACHE_SET g addr)).contents.head? = some (CACHE_TAG g addr)) : st'.Resident addr := by
  cases hf with
  | resident => exact List.mem_of_mem_head? hhead
  | fetched p st' _ hu => exact hu.resident_of_head hl ha hhead

/-- An access counts a miss when it is a demand access that takes the miss exit. -/
theorem Used.misses (hu : Used cmd prefetch st addr exit p st') :
    st'.stats.misses = st.stats.misses + if exit = .miss ∧ prefetch = false then 1 else 0 := by
  have hs := hu.stats
  by_cases he : exit = .miss
  · rw [if_pos he] at hs
    obtain ⟨valid, dirty, hs⟩ := hs
    rw [hs]
    cases prefetch <;> simp [Stats.replaced, Stats.countMiss, he]
  · rw [if_neg he] at hs
    rw [hs]
    cases prefetch <;> simp [Stats.countHit, he]

theorem Fetched.misses {pf : Addr} (hf : Fetched st pf st') : st'.stats.misses = st.stats.misses := by
  cases hf with
  | resident => rfl
  | fetched p st' _ hu => exact hu.misses.trans (by simp)

theorem FetchedAll.misses {pf : List Addr} (hf : FetchedAll st pf st') : st'.stats.misses = st.stats.misses := by
  induction hf with
  | nil => rfl
  | cons hf _ ih => rw [ih, hf.misses]

end Store

/-- What a demand access that completes did. -/
theorem Demand.perform_ok {d : Demand} {st st' : Store g} {w w' : World σ} {exit : Exit} (h : st.Ok)
    (hd : d.perform env st w = .ok (exit, st', w')) :
    ∃ p st₁ w₁ pf s, Store.Demanded (fun _ _ => True) d.cmd d.addr d.pc st w p st₁ w₁ pf s (exit, st', w') :=
  (Store.demandAccess_ok h (fun _ => env.keeps_true) fun _ => trivial).of_ok hd

/-! ## Sweeps -/

/-- Each address is in the block of the one before or in the next block. -/
def IsSweep (cp : Params) (addrs : List Addr) : Prop :=
  addrs.IsChain fun a b => CACHE_TAGSET cp b = CACHE_TAGSET cp a ∨ CACHE_TAGSET cp b = CACHE_TAGSET cp (a + cp.bsize)

instance (cp : Params) (addrs : List Addr) : Decidable (IsSweep cp addrs) :=
  inferInstanceAs (Decidable (List.IsChain _ _))

/-- A state in a sweep: with `log` behind it, from a state with `m` misses. -/
structure Swept (m : Nat) (log : List (Demand × Exit)) (st : Store g) : Prop where
  ok : st.Ok
  misses : st.stats.misses ≤ m + if log = [] then 0 else 1
  hits : ∀ e ∈ log.tail, e.2 ≠ .miss
  last : ∀ e, log.getLast? = some e → st.Resident e.1.addr ∧ st.Resident (e.1.addr + g.bsize)

/-- The next access of a sweep finds its block. -/
theorem Swept.resident {m : Nat} {log : List (Demand × Exit)} {st : Store g} (h : Swept m log st) (hne : log ≠ [])
    {d : Demand} (hs : IsSweep g.toParams (log.map (·.1.addr) ++ [d.addr])) : st.Resident d.addr := by
  obtain ⟨e, he⟩ : ∃ e, log.getLast? = some e := ⟨_, List.getLast?_eq_some_getLast hne⟩
  obtain ⟨h₁, h₂⟩ := h.last e he
  have hmap : (log.map (·.1.addr)).getLast? = some e.1.addr := by
    rw [List.getLast?_map, he]
    rfl
  rcases (List.isChain_append.1 hs).2.2 _ hmap d.addr rfl with ht | ht
  · exact h₁.congr ht.symm
  · exact h₂.congr ht.symm

/-- An access that completes leaves its block and the next one behind. -/
theorem Store.Demanded.next_line (h1 : g.prefetch_type = 1) (hl : g.policy = .LRU) (ha : 2 ≤ g.assoc)
    {J : World σ → World σ → Prop} {cmd : Cmd} {addr pc : Addr} {st st₁ : Store g} {w w₁ : World σ}
    {p : g.SetIdx × g.Way} {pf : List Addr} {s : Statics} {r : Exit × Store g × World σ}
    (hd : Store.Demanded J cmd addr pc st w p st₁ w₁ pf s r) :
    r.2.1.Resident addr ∧ r.2.1.Resident (addr + g.bsize) := by
  have hpf : pf = [CACHE_TAGSET g.toParams (addr + g.bsize)] := by
    have := hd.prefetch
    simp only [generate_prefetch, h1, Option.some.injEq, Prod.mk.injEq] at this
    exact this.1.symm
  have hf := hd.fetched
  rw [hpf] at hf
  cases hf with
  | cons hf hnil =>
    cases hnil
    exact ⟨hf.resident_of_head hl ha (hd.used.head hl), hf.mem.congr (CACHE_TAGSET_idem ..)⟩

theorem Swept.step (h1 : g.prefetch_type = 1) (hl : g.policy = .LRU) (ha : 2 ≤ g.assoc) {m : Nat}
    {log o : List (Demand × Exit)} {s s' : Store g × World σ} (h : Swept m log s.1)
    (hstep : DemandStep env between s o s')
    (hs : IsSweep g.toParams ((log ++ o).map (·.1.addr))) : Swept m (log ++ o) s'.1 := by
  cases hstep with
  | elsewhere st hw => rwa [List.append_nil]
  | @access d exit st st' w w' hd =>
    obtain ⟨p, st₁, w₁, pf, s, hdem⟩ := d.perform_ok h.ok hd
    have hmiss := hdem.fetched.misses.trans hdem.used.misses
    have hexit (hne : log ≠ []) : exit ≠ .miss := by
      intro he
      refine hdem.used.missed.1 he (h.resident hne ?_)
      simpa using hs
    refine ⟨hdem.ok, ?_, fun e he => ?_, fun e he => ?_⟩
    · have hm := h.misses
      rw [if_neg (by simp)]
      rw [hmiss]
      by_cases hnil : log = []
      · rw [if_pos hnil] at hm
        split <;> omega
      · rw [if_neg hnil] at hm
        rw [if_neg fun hc => hexit hnil hc.1]
        omega
    · cases log with
      | nil => cases he
      | cons e₀ log =>
        rcases List.mem_append.1 he with he | he
        · exact h.hits e he
        · rw [List.mem_singleton.1 he]
          exact hexit (List.cons_ne_nil _ _)
    · rw [List.getLast?_concat] at he
      cases he
      exact hdem.next_line h1 hl ha

theorem Swept.run (h1 : g.prefetch_type = 1) (hl : g.policy = .LRU) (ha : 2 ≤ g.assoc) {s₀ s : Store g × World σ}
    (h₀ : s₀.1.Ok) {log : List (Demand × Exit)} (hrun : Run (DemandStep env between) s₀ log s)
    (hs : IsSweep g.toParams (log.map (·.1.addr))) : Swept s₀.1.stats.misses log s.1 := by
  induction hrun with
  | start => exact ⟨h₀, Nat.le_refl _, fun e he => (by cases he), fun e he => (by cases he)⟩
  | step hrun hstep ih =>
    rw [List.map_append] at hs
    refine (ih hs.left_of_append).step h1 hl ha hstep ?_
    rwa [List.map_append]

theorem Store.Ok.lookup_ne_miss {st : Store g} {addr nbytes : Addr} (h : st.Ok) (hres : st.Resident addr)
    (blk : Option (g.SetIdx × g.Way)) : st.lookup addr nbytes ≠ .ok (.miss, blk) := by
  intro hm
  by_cases hp : Store.Passes g.toParams addr nbytes
  · obtain ⟨r, hr, hlooked⟩ := h.lookup hp
    cases hr.symm.trans hm
    cases hlooked with
    | miss hno => exact hno hres
  · obtain ⟨text, ht⟩ := Store.lookup_fatal st hp
    cases ht.symm.trans hm

/-- In a sweep at most the first access misses; this includes an access that has
only been started. -/
theorem sweep_misses_once (h1 : g.prefetch_type = 1) (hl : g.policy = .LRU) (ha : 2 ≤ g.assoc)
    {s₀ s : Store g × World σ}
    (h₀ : Reached env s₀) {log : List (Demand × Exit)} (hrun : Run (DemandStep env fun _ _ => True) s₀ log s)
    (hs : IsSweep g.toParams (log.map (·.1.addr))) :
    s.1.stats.misses ≤ s₀.1.stats.misses + 1 ∧ (∀ e ∈ log.tail, e.2 ≠ .miss) ∧
      ∀ d : Demand, log ≠ [] → IsSweep g.toParams (log.map (·.1.addr) ++ [d.addr]) →
        ∀ blk, s.1.lookup d.addr d.nbytes ≠ .ok (.miss, blk) := by
  have hswept := Swept.run h1 hl ha h₀.ok hrun hs
  refine ⟨Nat.le_trans hswept.misses ?_, hswept.hits, fun d hne hd => hswept.ok.lookup_ne_miss (hswept.resident hne hd)⟩
  split <;> omega

/-- Two loads in a new cache, of a block and of the next one. -/
theorem sweep_misses_once_loads : ∃ r₁ r₂ : Exit × Store small × World Unit,
    Demand.perform idle ⟨.Read, 64, 4, 0⟩ (cache_create small) { rest := () } = .ok r₁ ∧
      Demand.perform idle ⟨.Read, 96, 4, 0⟩ r₁.2.1 r₁.2.2 = .ok r₂ ∧ r₂.2.1.stats.misses ≤ 1 ∧ r₂.1 ≠ .miss := by
  obtain ⟨r₁, hr₁⟩ : ∃ r₁, Demand.perform idle ⟨.Read, 64, 4, 0⟩ (cache_create small) { rest := () } = .ok r₁ :=
    ⟨_, rfl⟩
  obtain ⟨r₂, hr₂⟩ : ∃ r₂, Demand.perform idle ⟨.Read, 96, 4, 0⟩ r₁.2.1 r₁.2.2 = .ok r₂ := by
    cases hr₁
    exact ⟨_, rfl⟩
  have hrun := (Run.start.step (.access _ hr₁)).step (@DemandStep.access _ _ idle (fun _ _ => True) _ _ _ _ _ _ hr₂)
  have hsweep : IsSweep small.toParams [64, 96] := by decide
  obtain ⟨hm, hhits, -⟩ := sweep_misses_once rfl rfl (by decide) ⟨{ rest := () }, Reachable.start⟩ hrun hsweep
  exact ⟨r₁, r₂, hr₁, hr₂, hm, hhits _ (List.mem_singleton_self _)⟩

end Cache
