import CompArch.Cache.Events
/-!
# The statistics balance

Between two calls the counters of a cache account for its valid blocks and for
the calls made so far.
-/

namespace Cache

open Lts Outcome

variable {g : Geometry} {σ : Type} {env : Env σ}

/-! ## What is counted -/

def Call.isDemand : Call → Bool
  | .access _ _ _ prefetch _ => !prefetch
  | _ => false

def Call.isDemandRead : Call → Bool
  | .access cmd _ _ prefetch _ => !prefetch && cmd == .Read
  | _ => false

/-- A prefetch of a cache above. -/
def Call.isPrefetch : Call → Bool
  | .access _ _ _ prefetch _ => prefetch
  | _ => false

def Event.isDemand : Event → Bool
  | .hit _ prefetch | .miss _ prefetch _ _ => !prefetch
  | .invalidate _ => false

def Event.isDemandRead : Event → Bool
  | .hit cmd prefetch | .miss cmd prefetch _ _ => !prefetch && cmd == .Read
  | .invalidate _ => false

def Event.isPrefetchHit : Event → Bool
  | .hit _ prefetch => prefetch
  | _ => false

section Count
variable (es : List Event) (s : Stats)

theorem count_demand : (es.foldl Stats.count s).hits + (es.foldl Stats.count s).misses =
    s.hits + s.misses + es.countP Event.isDemand := by
  refine count_foldl (f := fun s => s.hits + s.misses) (fun s e => ?_) es s
  cases e with
  | hit cmd prefetch => cases prefetch <;> simp [Stats.count, Stats.countHit, Event.isDemand, Nat.add_right_comm]
  | miss cmd prefetch valid dirty =>
    cases prefetch <;> simp [Stats.count, Stats.countMiss, Stats.replaced, Event.isDemand, Nat.add_assoc]
  | invalidate dirty => rfl

theorem count_demandRead : (es.foldl Stats.count s).read_hits + (es.foldl Stats.count s).read_misses =
    s.read_hits + s.read_misses + es.countP Event.isDemandRead := by
  refine count_foldl (f := fun s => s.read_hits + s.read_misses) (fun s e => ?_) es s
  cases e with
  | hit cmd prefetch =>
    cases prefetch <;> cases cmd <;> simp [Stats.count, Stats.countHit, Event.isDemandRead, Nat.add_right_comm]
  | miss cmd prefetch valid dirty =>
    cases prefetch <;> cases cmd <;>
      simp [Stats.count, Stats.countMiss, Stats.replaced, Event.isDemandRead, Nat.add_assoc]
  | invalidate dirty => rfl

theorem count_prefetchHit :
    (es.foldl Stats.count s).prefetch_hits = s.prefetch_hits + es.countP Event.isPrefetchHit := by
  refine count_foldl (f := fun s => s.prefetch_hits) (fun s e => ?_) es s
  cases e with
  | hit cmd prefetch => cases prefetch <;> simp [Stats.count, Stats.countHit, Event.isPrefetchHit]
  | miss cmd prefetch valid dirty =>
    cases prefetch <;> simp [Stats.count, Stats.countMiss, Stats.replaced, Event.isPrefetchHit]
  | invalidate dirty => rfl

end Count

/-! ## One call -/

/-- The events of a call. -/
structure Call.Makes (c : Call) (es : List Event) : Prop where
  demand : es.countP Event.isDemand = c.isDemand.toNat
  demandRead : es.countP Event.isDemandRead = c.isDemandRead.toNat
  prefetchHit : c.isPrefetch = false → es.countP Event.isPrefetchHit = 0

/-- Events that none of these counters counts. -/
def Event.isQuiet (e : Event) : Prop :=
  e.isDemand = false ∧ e.isDemandRead = false ∧ e.isPrefetchHit = false

theorem quiet_of_isFill {e : Event} (h : Store.IsFill e) : e.isQuiet := by
  unfold Store.IsFill at h
  split at h
  · exact ⟨rfl, rfl, rfl⟩
  · exact h.elim

theorem quiet_of_isInvalidate {e : Event} (h : Store.IsInvalidate e) : e.isQuiet := by
  unfold Store.IsInvalidate at h
  split at h
  · exact ⟨rfl, rfl, rfl⟩
  · exact h.elim

theorem countP_quiet {es : List Event} (h : ∀ e ∈ es, e.isQuiet) :
    es.countP Event.isDemand = 0 ∧ es.countP Event.isDemandRead = 0 ∧ es.countP Event.isPrefetchHit = 0 := by
  refine ⟨List.countP_eq_zero.2 fun e he => ?_, List.countP_eq_zero.2 fun e he => ?_,
    List.countP_eq_zero.2 fun e he => ?_⟩
  · rw [(h e he).1]
    exact Bool.false_ne_true
  · rw [(h e he).2.1]
    exact Bool.false_ne_true
  · rw [(h e he).2.2]
    exact Bool.false_ne_true

theorem Call.makes_access {cmd : Cmd} {addr nbytes pc : Addr} {prefetch : Bool} {exit : Exit} {e : Event}
    {es : List Event} (he : Store.IsAccess cmd prefetch exit e) (hes : ∀ e ∈ es, e.isQuiet) :
    (Call.access cmd addr nbytes prefetch pc).Makes (e :: es) := by
  obtain ⟨hd, hr, hp⟩ := countP_quiet hes
  constructor
  · rw [List.countP_cons, hd]
    cases he <;> cases prefetch <;> rfl
  · rw [List.countP_cons, hr]
    cases he <;> cases prefetch <;> cases cmd <;> rfl
  · intro hno
    rw [List.countP_cons, hp]
    obtain rfl : prefetch = false := hno
    cases he <;> rfl

theorem Call.perform_did (c : Call) {st st' : Store g} {w w' : World σ} (h : st.Ok)
    (hc : c.perform env st w = .ok (st', w')) : ∃ es, Store.Did env (st, w) es (st', w') ∧ c.Makes es := by
  cases c with
  | access cmd addr nbytes prefetch pc =>
    obtain ⟨⟨exit, st₁, w₁⟩, hacc, hc⟩ := bind_ok.1 hc
    cases hc
    obtain ⟨e, es, he, hd, -, hes⟩ := Store.cache_access_did h hacc
    exact ⟨_, hd, makes_access he fun e he => quiet_of_isFill (hes e he)⟩
  | flush =>
    obtain ⟨es, hd, hes⟩ := Store.cache_flush_did hc
    obtain ⟨h₁, h₂, h₃⟩ := countP_quiet fun e he => quiet_of_isInvalidate (hes e he)
    exact ⟨es, hd, h₁, h₂, fun _ => h₃⟩
  | flush_addr addr =>
    obtain ⟨es, hd, hes⟩ := Store.cache_flush_addr_did h hc
    obtain ⟨h₁, h₂, h₃⟩ := countP_quiet fun e he => quiet_of_isInvalidate (hes e he)
    exact ⟨es, hd, h₁, h₂, fun _ => h₃⟩

/-! ## Runs -/

/-- The counters of a cache after the calls `log`. -/
structure Balanced (log : List Call) (st : Store g) : Prop where
  surplus : st.surplus = 0
  demand : st.stats.hits + st.stats.misses = log.countP Call.isDemand
  demandRead : st.stats.read_hits + st.stats.read_misses = log.countP Call.isDemandRead
  prefetchHit : (∀ c ∈ log, c.isPrefetch = false) → st.stats.prefetch_hits = 0

theorem surplus_create : (cache_create g).surplus = 0 := by
  have hvalid (i : g.SetIdx) (b : g.Way) : ((cache_create g).sets i).valid b = false :=
    congrFun (foldl_insert_ok (List.nodup_finRange g.assoc)).2.2.2 b
  have hempty : (cache_create g).validBlocks = ∅ := by
    unfold Store.validBlocks
    simp [hvalid]
  unfold Store.surplus
  rw [hempty]
  rfl

theorem Balanced.step {log : List Call} {s s' : Store g × World σ} {o : List Call} (h : Balanced log s.1)
    (hok : s.1.Ok) (hs : Step env s o s') : Balanced (log ++ o) s'.1 := by
  cases hs with
  | elsewhere st w w' =>
    rw [List.append_nil]
    exact h
  | call c hc =>
    obtain ⟨es, hd, hm⟩ := c.perform_did hok hc
    have hstats := hd.stats
    dsimp only at hstats
    constructor
    · exact hd.surplus.trans h.surplus
    · rw [hstats, count_demand, h.demand, hm.demand, List.countP_append, List.countP_singleton]
      cases c.isDemand <;> rfl
    · rw [hstats, count_demandRead, h.demandRead, hm.demandRead, List.countP_append, List.countP_singleton]
      cases c.isDemandRead <;> rfl
    · intro hno
      rw [hstats, count_prefetchHit, h.prefetchHit fun c' hc' => hno c' (List.mem_append_left _ hc'),
        hm.prefetchHit (hno c (List.mem_append_right _ (List.mem_singleton_self _)))]

theorem Balanced.run {w₀ : World σ} {log : List Call} {s : Store g × World σ}
    (h : Run (Step env) (cache_create g, w₀) log s) : Balanced log s.1 := by
  induction h with
  | start => exact ⟨surplus_create, rfl, rfl, fun _ => rfl⟩
  | step hr hs ih => exact ih.step (Reached.ok ⟨_, _, hr⟩) hs

/-- Between two calls of any run the valid blocks are those filled and not yet replaced or
invalidated, hits and misses are the demand accesses, and without prefetches from above no
prefetch was a hit. -/
theorem stats_balance {w₀ : World σ} {log : List Call} {s : Store g × World σ}
    (h : Run (Step env) (cache_create g, w₀) log s) :
    (s.1.validBlocks.card : Int) =
        s.1.stats.misses + s.1.stats.prefetch_misses - s.1.stats.replacements - s.1.stats.invalidations ∧
      s.1.stats.hits + s.1.stats.misses = log.countP Call.isDemand ∧
      s.1.stats.read_hits + s.1.stats.read_misses = log.countP Call.isDemandRead ∧
      ((∀ c ∈ log, c.isPrefetch = false) → s.1.stats.prefetch_hits = 0) := by
  have hb := Balanced.run h
  refine ⟨?_, hb.demand, hb.demandRead, hb.prefetchHit⟩
  have := hb.surplus
  unfold Store.surplus at this
  omega

/-- A load and a store to the next block, which the load has prefetched, and a flush. -/
theorem stats_balance_small : ∃ s : Store small × World Unit,
    (s.1.validBlocks.card : Int) =
      s.1.stats.misses + s.1.stats.prefetch_misses - s.1.stats.replacements - s.1.stats.invalidations ∧
      s.1.stats.hits + s.1.stats.misses = 2 ∧ s.1.stats.read_hits + s.1.stats.read_misses = 1 ∧
      s.1.stats.prefetch_hits = 0 := by
  obtain ⟨s₁, h₁⟩ : ∃ s, (Call.access .Read 64 4 false 0).perform idle (cache_create small) { rest := () } = .ok s :=
    ⟨_, rfl⟩
  obtain ⟨s₂, h₂⟩ : ∃ s, (Call.access .Write 96 4 false 0).perform idle s₁.1 s₁.2 = .ok s := by
    cases h₁
    exact ⟨_, rfl⟩
  obtain ⟨s₃, h₃⟩ : ∃ s, Call.flush.perform idle s₂.1 s₂.2 = .ok s := by
    cases h₁
    cases h₂
    exact ⟨_, rfl⟩
  obtain ⟨hvalid, hdemand, hread, hprefetch⟩ :=
    stats_balance (((Run.start.step (.call _ h₁)).step (.call _ h₂)).step (.call _ h₃))
  exact ⟨s₃, hvalid, hdemand, hread, hprefetch (by decide)⟩

end Cache
