import CompArch.Cache.Balance
/-!
# Two levels of data cache (`sim-cache.c`)

The miss handler of dl1 accesses dl2, with the block size of dl1 and the prefetch
flag of the access that missed. Every fill and every write back of dl1 is then an
access of dl2, and the rest of dl2's accesses are its own prefetches.
-/

namespace Cache

open Lts Outcome

variable {σ : Type}

/-- What the two caches use of the rest of the simulation. -/
structure Machine (σ : Type) where
  get_PC : σ → Addr
  myrand : σ → Nat × σ

/-- What is below dl1. `issued` is no variable of the source: it counts the accesses of dl2
by its own prefetcher. -/
structure Lower (g : Geometry) (σ : Type) where
  cache_dl2 : Store g
  issued : Nat := 0
  rest : σ

/-- Main memory, which is always done in the main simulator loop. -/
def dl2_access_fn (_cmd : Cmd) (_baddr : Addr) (_prefetch : Bool) (w : World σ) : Option (World σ) := some w

namespace Machine

variable (m : Machine σ) {g₁ g₂ : Geometry}

/-- What dl2 shares with the rest of the simulation. -/
def dl2Env : Env σ where
  blk_access_fn := dl2_access_fn
  myrand := m.myrand

/-- `bsize` is the block size of dl1. -/
def dl1_access_fn (bsize : Addr) (cmd : Cmd) (baddr : Addr) (prefetch : Bool) (w : World (Lower g₂ σ)) :
    Option (World (Lower g₂ σ)) :=
  let below : World σ := { statics := w.statics, rest := w.rest.rest }
  let pc := m.get_PC w.rest.rest
  match w.rest.cache_dl2.cache_access m.dl2Env cmd baddr bsize prefetch pc below with
  | .error _ => none
  | .ok (_, dl2, below') =>
    let own := w.rest.cache_dl2.accessIssues m.dl2Env cmd baddr bsize prefetch pc below
    some {
      statics := below'.statics
      rest := { cache_dl2 := dl2, issued := w.rest.issued + own.length, rest := below'.rest } }

/-- What dl1 shares with the rest of the simulation. -/
def dl1Env (g₁ g₂ : Geometry) : Env (Lower g₂ σ) where
  blk_access_fn := m.dl1_access_fn g₁.bsize
  myrand l := ((m.myrand l.rest).1, { l with rest := (m.myrand l.rest).2 })

/-- A call on dl1 that completes, or anything that happens elsewhere and does not access dl2. -/
inductive LevelStep (g₁ g₂ : Geometry) :
    Store g₁ × World (Lower g₂ σ) → List Call → Store g₁ × World (Lower g₂ σ) → Prop
  | call (c : Call) {st st' : Store g₁} {w w' : World (Lower g₂ σ)} :
      c.perform (m.dl1Env g₁ g₂) st w = .ok (st', w') → LevelStep g₁ g₂ (st, w) [c] (st', w')
  | elsewhere (st : Store g₁) (w : World (Lower g₂ σ)) (statics : Statics) (rest : σ) :
      LevelStep g₁ g₂ (st, w) [] (st, { statics, rest := { w.rest with rest } })

end Machine

/-! ## The counters of both levels -/

/-- What a cache sent to the level below, without and with the prefetch flag. -/
def Stats.sent (s : Stats) (prefetch : Bool) : Nat := if prefetch then s.prefetch_misses else s.misses + s.writebacks

def Event.isPrefetch : Event → Bool
  | .hit _ prefetch | .miss _ prefetch _ _ => prefetch
  | .invalidate _ => false

section Count
variable (es : List Event) (s : Stats)

theorem count_prefetches : (es.foldl Stats.count s).prefetches = s.prefetches + es.countP Event.isPrefetch := by
  refine count_foldl (fun s e => ?_) es s
  cases e with
  | hit cmd prefetch =>
    cases prefetch <;> simp [Stats.prefetches, Stats.count, Stats.countHit, Event.isPrefetch, Nat.add_right_comm]
  | miss cmd prefetch valid dirty =>
    cases prefetch <;>
      simp [Stats.prefetches, Stats.count, Stats.countMiss, Stats.replaced, Event.isPrefetch, Nat.add_assoc]
  | invalidate dirty => rfl

/-- What is sent below is what the miss handler is called with. -/
theorem count_sent (prefetch : Bool) :
    (es.foldl Stats.count s).sent prefetch = s.sent prefetch + (es.flatMap Event.calls).count prefetch := by
  rw [List.count_flatMap]
  refine sum_foldl (f := fun s => s.sent prefetch) (fun s e => ?_) es s
  cases e with
  | hit cmd p => cases prefetch <;> cases p <;> rfl
  | miss cmd p valid dirty =>
    cases prefetch <;> cases p <;> cases valid <;> cases dirty <;>
      simp [Stats.sent, Stats.count, Stats.countMiss, Stats.replaced, Event.calls] <;> omega
  | invalidate dirty =>
    cases prefetch <;> cases dirty <;> simp [Stats.sent, Stats.count, Event.calls, Nat.add_assoc]

end Count

/-! ## One access of dl2 -/

namespace Machine

variable {m : Machine σ} {g₁ g₂ : Geometry}

/-- What dl2 has counted after accesses with the flags `l`: a prefetch it did not issue itself
came from above. -/
structure Served (l : List Bool) (r r' : Lower g₂ σ) : Prop where
  ok : r'.cache_dl2.Ok
  demands : r'.cache_dl2.stats.demands = r.cache_dl2.stats.demands + l.count false
  prefetched : r'.cache_dl2.stats.prefetches + r.issued = r.cache_dl2.stats.prefetches + r'.issued + l.count true

theorem Served.trans {l l' : List Bool} {r r₁ r' : Lower g₂ σ} (h : Served l r r₁) (h' : Served l' r₁ r') :
    Served (l ++ l') r r' := by
  have hd := h.demands
  have hp := h.prefetched
  have hd' := h'.demands
  have hp' := h'.prefetched
  refine ⟨h'.ok, ?_, ?_⟩
  · rw [List.count_append]
    omega
  · rw [List.count_append]
    omega

theorem countP_isPrefetch {es : List Event} (h : ∀ e ∈ es, Store.IsFill e) :
    es.countP Event.isPrefetch = es.length := by
  refine List.countP_eq_length.2 fun e he => ?_
  have := h e he
  unfold Store.IsFill at this
  split at this
  · rfl
  · exact this.elim

theorem dl1_access_fn_served {bsize : Addr} {cmd : Cmd} {baddr : Addr} {prefetch : Bool} {w w' : World (Lower g₂ σ)}
    (h : w.rest.cache_dl2.Ok) (hc : m.dl1_access_fn bsize cmd baddr prefetch w = some w') :
    Served [prefetch] w.rest w'.rest := by
  unfold dl1_access_fn at hc
  dsimp only at hc
  split at hc
  case h_1 => cases hc
  case h_2 exit dl2' w₁ hacc =>
    cases hc
    obtain ⟨e, es, he, hd, hlen, hes⟩ := Store.cache_access_did h hacc
    have hcall : (Call.access cmd baddr bsize prefetch (m.get_PC w.rest.rest)).perform m.dl2Env w.rest.cache_dl2
        { statics := w.statics, rest := w.rest.rest } = .ok (dl2', w₁) := bind_ok.2 ⟨_, hacc, rfl⟩
    have hok : dl2'.Ok := (Call.perform_ok _ h).of_ok hcall
    have hstats := hd.stats
    dsimp only at hstats
    have hdem := count_demand (e :: es) w.rest.cache_dl2.stats
    have hpre := count_prefetches (e :: es) w.rest.cache_dl2.stats
    rw [← hstats] at hdem hpre
    obtain ⟨hquiet, -, -⟩ := countP_quiet fun e he => quiet_of_isFill (hes e he)
    have hfills := countP_isPrefetch hes
    have hflag : e.isDemand = !prefetch ∧ e.isPrefetch = prefetch := by
      cases he <;> exact ⟨rfl, rfl⟩
    rw [List.countP_cons, hquiet, hflag.1] at hdem
    rw [List.countP_cons, hfills, hlen, hflag.2] at hpre
    have hcount : [prefetch].count true = if prefetch = true then 1 else 0 := by cases prefetch <;> rfl
    refine ⟨hok, hdem.trans ?_, ?_⟩
    · cases prefetch <;> rfl
    · dsimp only
      rw [hcount]
      omega

theorem served_of_below {r r' : Lower g₂ σ} {l : List Bool} (h : Below (m.dl1Env g₁ g₂) r l r')
    (hok : r.cache_dl2.Ok) : Served l r r' := by
  induction h with
  | nil r => exact ⟨hok, rfl, rfl⟩
  | @call _ _ _ statics r _ _ _ hc _ ih =>
    have hs := dl1_access_fn_served (w := { statics, rest := r }) hok hc
    exact hs.trans (ih hs.ok)
  | rand _ ih =>
    obtain ⟨h₁, h₂, h₃⟩ := ih hok
    exact ⟨h₁, h₂, h₃⟩

/-! ## Runs -/

/-- The traffic between the two levels is counted alike above and below. -/
structure Conserved (s : Store g₁ × World (Lower g₂ σ)) : Prop where
  dl1 : s.1.Ok
  dl2 : s.2.rest.cache_dl2.Ok
  demands : s.2.rest.cache_dl2.stats.demands = s.1.stats.sent false
  prefetched : s.2.rest.cache_dl2.stats.prefetches = s.1.stats.sent true + s.2.rest.issued

theorem Conserved.step {s s' : Store g₁ × World (Lower g₂ σ)} {o : List Call} (h : Conserved s)
    (hs : m.LevelStep g₁ g₂ s o s') : Conserved s' := by
  cases hs with
  | elsewhere => exact ⟨h.dl1, h.dl2, h.demands, h.prefetched⟩
  | call c hc =>
    obtain ⟨es, hd, -⟩ := c.perform_did h.dl1 hc
    obtain ⟨hok, hdem, hpre⟩ := served_of_below hd.below h.dl2
    have hstats := hd.stats
    have h₁ := h.demands
    have h₂ := h.prefetched
    dsimp only at *
    refine ⟨(Call.perform_ok c h.dl1).of_ok hc, hok, ?_, ?_⟩
    · rw [hstats, count_sent, hdem, h₁]
    · dsimp only
      rw [hstats, count_sent]
      omega

theorem Conserved.run {w₀ : World (Lower g₂ σ)} {log : List Call} {s : Store g₁ × World (Lower g₂ σ)}
    (hdl2 : w₀.rest.cache_dl2 = cache_create g₂) (hissued : w₀.rest.issued = 0)
    (h : Run (m.LevelStep g₁ g₂) (cache_create g₁, w₀) log s) : Conserved s := by
  induction h with
  | start =>
    refine ⟨Store.ok_create, hdl2 ▸ Store.ok_create, ?_, ?_⟩
    · rw [hdl2]
      rfl
    · rw [hdl2, hissued]
      rfl
  | step _ hs ih => exact ih.step hs

/-- A prefetch that arrives from dl1 leaves dl2's prefetcher alone. -/
theorem dl1_access_fn_prefetch {bsize : Addr} {cmd : Cmd} {baddr : Addr} {w w' : World (Lower g₂ σ)}
    (h : m.dl1_access_fn bsize cmd baddr true w = some w') :
    w'.rest.issued = w.rest.issued ∧ w'.statics = w.statics := by
  unfold dl1_access_fn at h
  dsimp only at h
  split at h
  case h_1 => cases h
  case h_2 exit dl2' w₁ hacc =>
    cases h
    have hkeeps : m.dl2Env.Keeps fun w₁ => w₁.statics = w.statics :=
      ⟨fun _ _ _ _ _ hw hc => Option.some.inj hc ▸ hw, fun _ _ hw => hw⟩
    obtain ⟨⟨exit₁, blk, st₁, w₂⟩, hbody, hfin⟩ := bind_ok.1 hacc
    cases Store.finish_eq hfin
    exact ⟨rfl, Store.access_keeps hkeeps rfl hbody⟩

/-- After any run on dl1 the demand accesses of dl2 are the misses and write backs of dl1, and
the prefetch accesses of dl2 are those of dl1 that missed and dl2's own, which no prefetch of
dl1 triggers. -/
theorem traffic_conserved {statics : Statics} {rest : σ} {log : List Call} {s : Store g₁ × World (Lower g₂ σ)}
    (h : Run (m.LevelStep g₁ g₂)
      (cache_create g₁, { statics, rest := { cache_dl2 := cache_create g₂, rest } }) log s) :
    let dl1 := s.1.stats
    let dl2 := s.2.rest.cache_dl2.stats
    dl2.hits + dl2.misses = dl1.misses + dl1.writebacks ∧
      dl2.prefetch_hits + dl2.prefetch_misses = dl1.prefetch_misses + s.2.rest.issued ∧
      ∀ (cmd : Cmd) (baddr : Addr) (w w' : World (Lower g₂ σ)),
        m.dl1_access_fn g₁.bsize cmd baddr true w = some w' →
          w'.rest.issued = w.rest.issued ∧ w'.statics = w.statics := by
  have hc := Conserved.run rfl rfl h
  exact ⟨hc.demands, hc.prefetched, fun _ _ _ _ => dl1_access_fn_prefetch⟩

end Machine

/-- Two sets of two blocks of 64 bytes, with the next line prefetcher. -/
def large : Geometry where
  set_shift := 6
  prefetch_type := 1
  set_bits := 1
  way_bits := 1
  policy := .LRU

def quiet : Machine Unit where
  get_PC _ := 0
  myrand r := (0, r)

/-- A store that misses in both levels, each of which prefetches its next block, and a flush
that writes the block back. -/
theorem traffic_conserved_store : ∃ s : Store small × World (Lower large Unit),
    s.2.rest.cache_dl2.stats.hits + s.2.rest.cache_dl2.stats.misses = s.1.stats.misses + s.1.stats.writebacks ∧
      s.2.rest.cache_dl2.stats.prefetch_hits + s.2.rest.cache_dl2.stats.prefetch_misses =
        s.1.stats.prefetch_misses + s.2.rest.issued := by
  obtain ⟨s₁, h₁⟩ : ∃ s : Store small × World (Lower large Unit),
      (Call.access .Write 64 4 false 0).perform (quiet.dl1Env small large) (cache_create small)
        { rest := { cache_dl2 := cache_create large, rest := () } } = .ok s := ⟨_, rfl⟩
  obtain ⟨s₂, h₂⟩ : ∃ s, Call.flush.perform (quiet.dl1Env small large) s₁.1 s₁.2 = .ok s := by
    cases h₁
    exact ⟨_, rfl⟩
  obtain ⟨hdemands, hprefetched, -⟩ := Machine.traffic_conserved ((Run.start.step (.call _ h₁)).step (.call _ h₂))
  exact ⟨s₂, hdemands, hprefetched⟩

end Cache
