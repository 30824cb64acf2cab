import CompArch.Sim.Caches
/-!
# What the counters of sim-cache count

A cache for instructions counts one access a fetch, a cache for data one for each
access of the data, and a cache below them one for each miss and each write back
above it. Hits and misses together do not depend on what the caches are.
-/

namespace Sim

open Effects Function Memory Outcome Pisa

variable {ρ O : Type}

/-! ## The accesses of a program -/

structure Tally where
  insts : Nat
  data : Nat

/-- The memory, and how often it was accessed. -/
structure Counting where
  mem : Mem
  tally : Tally

/-- One more access of the data. -/
def Counting.datum (s : Counting) (mem : Mem) : Counting :=
  { mem, tally := { s.tally with data := s.tally.data + 1 } }

/-- The accesses of a system call are not counted after a flush. -/
def countPorts (flush_on_syscalls : Bool) : Ports Stop Counting where
  read n addr s := do
    let (v, mem) ← memPorts.read n addr s.mem
    return (v, s.datum mem)
  write n addr v s := do
    let mem ← memPorts.write n addr v s.mem
    return s.datum mem
  mem_fn cmd addr p nbytes s := do
    let (fault, p, mem) ← memPorts.mem_fn cmd addr p nbytes s.mem
    return (fault, p, if flush_on_syscalls then { s with mem } else s.datum mem)
  sync := .ok
  abort := .abort

/-- sim-safe, with its accesses counted. No cache is part of it. -/
def counted (flush_on_syscalls : Bool) : Simulator Stop Counting where
  toPorts := countPorts flush_on_syscalls
  fetch PC s := do
    let (inst, mem) ← safe.fetch PC s.mem
    return (inst, { mem, tally := { s.tally with insts := s.tally.insts + 1 } })
  after := safe.after

/-! ## Counters -/

def Caches.stats (c : Caches ρ) : Pointer → Cache.Stats
  | .upper x => (c.upper x).store.stats
  | .bottom y => (c.world.rest.caches y).store.stats

/-- The misses and the write backs of the caches above `y`. -/
def Caches.fed (o : Options) (c : Caches ρ) (y : Bottom) : Nat :=
  (if o.below .il1 = some y then (c.upper .il1).store.stats.sent false else 0) +
    if o.below .dl1 = some y then (c.upper .dl1).store.stats.sent false else 0

/-- What the demand accesses of a cache are when `f` of them are the simulator's own. -/
structure Counts (o : Options) (f : Pointer → Nat) (c : Caches ρ) : Prop where
  upper_ok (x : Upper) : (c.upper x).store.Ok
  bottom_ok (y : Bottom) : (c.world.rest.caches y).store.Ok
  upper (x : Upper) : (c.stats (.upper x)).demands = f (.upper x)
  bottom (y : Bottom) : (c.stats (.bottom y)).demands = f (.bottom y) + c.fed o y

/-- The accesses by the simulator that a cache gets: those of the pointers to it. -/
def Options.seen (o : Options) (t : Tally) (p : Pointer) : Nat :=
  [o.itlb, o.cache_il1].count (some p) * t.insts + [o.dtlb, o.cache_dl1].count (some p) * t.data

/-! ## Calls -/

section Calls
variable {o : Options} {myrand : ρ → Nat × ρ}

def Lower.demands (r : Lower ρ) (y : Bottom) : Nat := (r.caches y).store.stats.demands

/-- The lower caches after accesses, of which `n z` are demand accesses of `z`. -/
structure Lower.Served (n : Bottom → Nat) (r r' : Lower ρ) : Prop where
  ok (z : Bottom) : (r'.caches z).store.Ok
  demands (z : Bottom) : r'.demands z = r.demands z + n z

theorem demands_did {g : Cache.Geometry} {σ : Type} {env : Cache.Env σ} {k : Cache.Call} {st st' : Cache.Store g}
    {w w' : Cache.World σ} {es : List Cache.Event} (hd : Cache.Store.Did env (st, w) es (st', w')) (hm : k.Makes es) :
    st'.stats.demands = st.stats.demands + k.isDemand.toNat := by
  have hstats := hd.stats
  dsimp only at hstats
  unfold Cache.Stats.demands
  rw [hstats, Cache.count_demand, hm.demand]

theorem Lower.call_served {k : Cache.Call} {w w' : Cache.World (Lower ρ)} {y : Bottom}
    (hok : ∀ z, (w.rest.caches z).store.Ok) (h : Lower.call myrand k w y = .ok w') :
    Lower.Served (fun z => if z = y then k.isDemand.toNat else 0) w.rest w'.rest := by
  obtain ⟨⟨store, w₁⟩, hp, h⟩ := bind_ok.1 h
  cases h
  obtain ⟨es, hd, hm⟩ := k.perform_did (hok y) hp
  have hstore : store.Ok := (k.perform_ok (hok y)).of_ok hp
  constructor
  · intro z
    by_cases hz : z = y
    · subst hz
      show (update w.rest.caches z _ z).store.Ok
      rw [update_self]
      exact hstore
    · show (update w.rest.caches y _ z).store.Ok
      rw [update_of_ne hz]
      exact hok z
  · intro z
    by_cases hz : z = y
    · subst hz
      show (update w.rest.caches z _ z).store.stats.demands = _
      rw [update_self, if_pos rfl]
      exact demands_did hd hm
    · show (update w.rest.caches y _ z).store.stats.demands = _
      rw [update_of_ne hz, if_neg hz]
      rfl

theorem Lower.Served.trans {n n' : Bottom → Nat} {r r₁ r' : Lower ρ} (h : Lower.Served n r r₁)
    (h' : Lower.Served n' r₁ r') : Lower.Served (fun z => n z + n' z) r r' := by
  refine ⟨h'.ok, fun z => ?_⟩
  rw [h'.demands, h.demands, Nat.add_assoc]

/-- The miss handler of an upper cache accesses the cache below it. -/
theorem below_served {x : Upper} {bsize : Addr} {r r' : Lower ρ} {l : List Bool}
    (h : Cache.Below (upperEnv o myrand x bsize) r l r') (hok : ∀ z, (r.caches z).store.Ok) :
    Lower.Served (fun z => if o.below x = some z then l.count false else 0) r r' := by
  induction h with
  | nil r =>
    refine ⟨hok, fun z => ?_⟩
    rw [List.count_nil, ite_self]
    rfl
  | rand _ ih => exact ⟨(ih hok).ok, (ih hok).demands⟩
  | @call cmd baddr prefetch statics r r' w l hc _ ih =>
    have hone : Lower.Served (fun z => if o.below x = some z then [prefetch].count false else 0) r w.rest := by
      unfold upperEnv at hc
      dsimp only at hc
      cases hx : o.below x with
      | none =>
        rw [hx] at hc
        cases hc
        exact ⟨hok, fun z => rfl⟩
      | some y =>
        rw [hx] at hc
        dsimp only at hc
        cases hcall : Lower.call myrand (.access cmd baddr bsize prefetch r.PC) { statics, rest := r } y with
        | error e =>
          rw [hcall] at hc
          cases hc
        | ok w₁ =>
          rw [hcall] at hc
          cases hc
          obtain ⟨hok', hd⟩ := Lower.call_served hok hcall
          refine ⟨hok', fun z => (hd z).trans ?_⟩
          by_cases hz : z = y
          · subst hz
            rw [if_pos rfl, if_pos rfl]
            cases prefetch <;> rfl
          · rw [if_neg hz, if_neg fun h => hz (Option.some.inj h).symm]
    refine ⟨(hone.trans (ih hone.ok)).ok, fun z => ?_⟩
    rw [(hone.trans (ih hone.ok)).demands]
    show _ = _ + if _ then ([prefetch] ++ l).count false else 0
    rw [List.count_append]
    split <;> rfl

/-- One upper cache sends `n` accesses down. -/
theorem fed_update {c : Caches ρ} {x : Upper} {store : Cache.Store (c.upper x).g} {world : Cache.World (Lower ρ)}
    {n : Nat} (hn : store.stats.sent false = (c.upper x).store.stats.sent false + n) (y : Bottom) :
    Caches.fed o { upper := update c.upper x { c.upper x with store }, world } y =
      c.fed o y + if o.below x = some y then n else 0 := by
  unfold Caches.fed
  cases x with
  | il1 =>
    dsimp only
    rw [update_self, update_of_ne (by rintro ⟨⟩), Nat.add_right_comm]
    congr 1
    split
    · exact hn
    · rfl
  | dl1 =>
    dsimp only
    rw [update_self, update_of_ne (by rintro ⟨⟩), Nat.add_assoc]
    congr 1
    split
    · exact hn
    · rfl

theorem Counts.call {f : Pointer → Nat} {k : Cache.Call} {c c' : Caches ρ} {p : Pointer} (h : Counts o f c)
    (hc : c.call o myrand k p = .ok c') : Counts o (fun q => f q + if q = p then k.isDemand.toNat else 0) c' := by
  cases p with
  | upper x =>
    obtain ⟨⟨store, world⟩, hp, hc⟩ := bind_ok.1 hc
    cases hc
    obtain ⟨es, hd, hm⟩ := k.perform_did (h.upper_ok x) hp
    have hserved := below_served hd.below h.bottom_ok
    have hsent := Cache.count_sent es (c.upper x).store.stats false
    have hstats := hd.stats
    dsimp only at hserved hstats
    rw [← hstats] at hsent
    constructor
    · intro z
      by_cases hz : z = x
      · subst hz
        show (update c.upper z _ z).store.Ok
        rw [update_self]
        exact (k.perform_ok (h.upper_ok z)).of_ok hp
      · show (update c.upper x _ z).store.Ok
        rw [update_of_ne hz]
        exact h.upper_ok z
    · exact hserved.ok
    · intro z
      by_cases hz : z = x
      · subst hz
        show (update c.upper z _ z).store.stats.demands = _
        rw [update_self, if_pos rfl, ← h.upper]
        exact demands_did hd hm
      · show (update c.upper x _ z).store.stats.demands = _
        rw [update_of_ne hz, if_neg fun he => hz (Pointer.upper.inj he), Nat.add_zero]
        exact h.upper z
    · intro y
      have hy := hserved.demands y
      have hb := h.bottom y
      rw [if_neg (by rintro ⟨⟩), Nat.add_zero, fed_update hsent, ← Nat.add_assoc, ← hb]
      exact hy
  | bottom y =>
    obtain ⟨world, hp, hc⟩ := bind_ok.1 hc
    cases hc
    obtain ⟨hok, hd⟩ := Lower.call_served h.bottom_ok hp
    refine ⟨h.upper_ok, hok, fun x => ?_, fun z => ?_⟩
    · rw [if_neg (by rintro ⟨⟩), Nat.add_zero]
      exact h.upper x
    · have hz := hd z
      have hb := h.bottom z
      have hif : (if Pointer.bottom z = .bottom y then k.isDemand.toNat else 0) =
          if z = y then k.isDemand.toNat else 0 := by
        simp
      rw [hif, Nat.add_right_comm]
      show _ = f (.bottom z) + c.fed o z + _
      rw [← hb]
      exact hz

theorem Counts.congr {f g : Pointer → Nat} {c : Caches ρ} (h : Counts o f c) (hfg : ∀ p, f p = g p) : Counts o g c :=
  funext hfg ▸ h

theorem Counts.callAt {f : Pointer → Nat} {k : Cache.Call} {c c' : Caches ρ} {p : Option Pointer}
    (h : Counts o f c) (hc : c.callAt o myrand k p = .ok c') :
    Counts o (fun q => f q + if p = some q then k.isDemand.toNat else 0) c' := by
  cases p with
  | none =>
    cases hc
    exact h.congr fun q => rfl
  | some p =>
    refine (h.call hc).congr fun q => ?_
    simp only [Option.some.injEq, eq_comm]

theorem Counts.accesses {f : Pointer → Nat} {cmd : Cache.Cmd} {addr nbytes : Addr} {ps : List (Option Pointer)}
    {c c' : Caches ρ} (h : Counts o f c) (hc : c.accesses o myrand cmd addr nbytes ps = .ok c') :
    Counts o (fun q => f q + ps.count (some q)) c' := by
  induction ps generalizing f c with
  | nil =>
    cases hc
    exact h.congr fun q => rfl
  | cons p ps ih =>
    obtain ⟨c₁, hp, hc⟩ := bind_ok.1 hc
    refine (ih (h.callAt hp) hc).congr fun q => ?_
    rw [List.count_cons, Nat.add_assoc, Nat.add_comm (ps.count _)]
    simp [Cache.Call.isDemand]

/-- A flush is no demand access, though it writes back. -/
theorem Counts.flush {f : Pointer → Nat} {ps : List (Option Pointer)} {c c' : Caches ρ} (h : Counts o f c)
    (hc : c.flush o myrand ps = .ok c') : Counts o f c' := by
  induction ps generalizing c with
  | nil => exact Except.ok.inj hc ▸ h
  | cons p ps ih =>
    obtain ⟨c₁, hp, hc⟩ := bind_ok.1 hc
    refine ih ((h.callAt hp).congr fun q => ?_) hc
    exact (congrArg (f q + ·) (ite_self 0)).trans (Nat.add_zero _)

/-- Before a fetch. -/
theorem Counts.inst {t : Tally} {c c' : Caches ρ} {PC : Addr} (h : Counts o (o.seen t) c)
    (hc : c.inst o myrand PC = .ok c') : Counts o (o.seen { t with insts := t.insts + 1 }) c' := by
  have hpc : Counts o (o.seen t) { c with world.rest.PC := PC } := ⟨h.upper_ok, h.bottom_ok, h.upper, h.bottom⟩
  refine (hpc.accesses hc).congr fun q => ?_
  unfold Options.seen
  rw [Nat.mul_add, Nat.mul_one, Nat.add_right_comm]

/-- Before an access of the data. -/
theorem Counts.data {t : Tally} {c c' : Caches ρ} {cmd : Cache.Cmd} {addr nbytes : Addr} (h : Counts o (o.seen t) c)
    (hc : c.data o myrand cmd addr nbytes = .ok c') : Counts o (o.seen { t with data := t.data + 1 }) c' := by
  refine (h.accesses hc).congr fun q => ?_
  unfold Options.seen
  rw [Nat.mul_add, Nat.mul_one, Nat.add_assoc]

end Calls

/-! ## Runs -/

section Runs
variable {o : Options} {myrand : ρ → Nat × ρ}

/-- The same memory, and caches that have counted its accesses. -/
def Tallied (o : Options) (s : Cached ρ) (t : Counting) : Prop := s.mem = t.mem ∧ Counts o (o.seen t.tally) s.caches

theorem cachePorts_tallied : (cachePorts o myrand).Mirrors (countPorts o.flush_on_syscalls) CacheStop.other?
    (Tallied o) where
  read := by
    rintro n addr s ⟨_, t⟩ ⟨rfl, h⟩
    exact follows_caches fun c hc => follows_other fun r => follows_ok ⟨rfl, rfl, h.data hc⟩
  write := by
    rintro n addr v s ⟨_, t⟩ ⟨rfl, h⟩
    exact follows_caches fun c hc => follows_other fun r => follows_ok ⟨rfl, h.data hc⟩
  mem_fn := by
    rintro cmd addr p nbytes s ⟨_, t⟩ ⟨rfl, h⟩
    unfold cachePorts countPorts
    dsimp only
    split
    · exact follows_other fun r => follows_ok ⟨rfl, rfl, rfl, h⟩
    · exact follows_caches fun c hc => follows_other fun r => follows_ok ⟨rfl, rfl, rfl, h.data hc⟩
  sync := by
    rintro s ⟨_, t⟩ ⟨rfl, h⟩
    unfold cachePorts
    dsimp only
    split
    · exact follows_caches fun c hc => follows_ok ⟨rfl, h.flush hc⟩
    · exact follows_ok ⟨rfl, h⟩
  abort := by
    rintro why err ⟨⟩
    rfl

theorem cached_tallied : (cached o myrand).Mirrors (counted o.flush_on_syscalls) CacheStop.other? (Tallied o) where
  ports := cachePorts_tallied
  fetch := by
    rintro PC s ⟨_, t⟩ ⟨rfl, h⟩
    exact follows_caches fun c hc => follows_other fun r => follows_ok ⟨rfl, rfl, h.inst hc⟩
  after := by
    have hm : (cached o myrand).Mirrors safe CacheStop.other? fun s m => s.mem = m := cached_mirrors
    exact hm.after

theorem countPorts_insts {flush : Bool} {n : Nat} : (countPorts flush).Mirrors (countPorts flush) some
    fun s t => s = t ∧ t.tally.insts = n where
  read := by
    rintro k addr s _ ⟨rfl, hn⟩
    refine follows_self (fun _ _ => Option.some.inj) fun r hr => ?_
    obtain ⟨r', -, hr⟩ := bind_ok.1 hr
    cases hr
    exact ⟨rfl, rfl, hn⟩
  write := by
    rintro k addr v s _ ⟨rfl, hn⟩
    refine follows_self (fun _ _ => Option.some.inj) fun r hr => ?_
    obtain ⟨r', -, hr⟩ := bind_ok.1 hr
    cases hr
    exact ⟨rfl, hn⟩
  mem_fn := by
    rintro cmd addr p nbytes s _ ⟨rfl, hn⟩
    refine follows_self (fun _ _ => Option.some.inj) fun r hr => ?_
    obtain ⟨r', -, hr⟩ := bind_ok.1 hr
    cases hr
    refine ⟨rfl, rfl, rfl, ?_⟩
    cases flush <;> exact hn
  sync := by
    rintro s _ ⟨rfl, hn⟩
    exact follows_ok ⟨rfl, hn⟩
  abort why err he := Option.some.inj he

/-- Every turn is one fetch. -/
theorem counted_insts {flush : Bool} {sys : Syscall O} {host : Host} (s s' : State Counting O)
    (h : s.machine.store.tally.insts = s.sim_num_insn) (ht : (counted flush).turn sys host s = .ok s') :
    s'.machine.store.tally.insts = s'.sim_num_insn := by
  obtain ⟨inst, m, fault, m', refs, hf, hr, -, rfl⟩ := turn_eq_ok.1 ht
  obtain ⟨store, hs, rfl⟩ := fetched_eq_ok.1 hf
  obtain ⟨⟨inst', mem⟩, -, hs⟩ := bind_ok.1 hs
  cases hs
  obtain ⟨_, -, -, -, ⟨hst, hn⟩, -⟩ := ((countPorts_insts (n := s.sim_num_insn + 1)).run
    ⟨rfl, ⟨rfl, congrArg (· + 1) h⟩, rfl⟩ (impl host inst (MD_SET_OPCODE inst))).of_ok hr
  rw [← hst] at hn
  exact hn

theorem counts_created (o : Options) (g : Pointer → Cache.Geometry) (seed : ρ) :
    Counts o (o.seen ⟨0, 0⟩) (Caches.created g seed) where
  upper_ok _ := Cache.Store.ok_create
  bottom_ok _ := Cache.Store.ok_create
  upper _ := rfl
  bottom y := by
    have hsent (x : Upper) : ((Caches.created g seed).upper x).store.stats.sent false = 0 := rfl
    unfold Caches.fed
    rw [hsent, hsent, ite_self, ite_self]
    rfl

/-- The counters of the caches of sim-cache, in terms of the instructions it has executed and of the accesses of the
data. The latter are those of the program: the run that counts them has no caches. -/
theorem traffic_counted (o : Options) (myrand : ρ → Nat × ρ) (g : Pointer → Cache.Geometry) (seed : ρ)
    (sys : Syscall O) (host : Host) (max_insts fuel : Nat) (m : Machine Mem O) (s : State (Cached ρ) O) (b : Bool)
    (hr : (cached o myrand).sim_main sys host max_insts fuel (withCaches m (.created g seed)) = .ok (s, b)) :
    ∃ t, (counted o.flush_on_syscalls).sim_main sys host max_insts fuel ⟨m.regs, ⟨m.store, ⟨0, 0⟩⟩, m.os⟩ = .ok (t, b) ∧
      Counts o (o.seen ⟨s.sim_num_insn, t.machine.store.tally.data⟩) s.machine.store.caches := by
  have hrun : Follows CacheStop.other? (fun a b => State.Alike (Tallied o) a.1 b.1 ∧ a.2 = b.2)
      ((cached o myrand).sim_main sys host max_insts fuel (withCaches m (.created g seed)))
      ((counted o.flush_on_syscalls).sim_main sys host max_insts fuel ⟨m.regs, ⟨m.store, ⟨0, 0⟩⟩, m.os⟩) :=
    cached_tallied.loop max_insts fuel ⟨⟨rfl, ⟨rfl, counts_created o g seed⟩, rfl⟩, rfl, rfl⟩
  obtain ⟨⟨t, _⟩, ht, ⟨hm, hn, -⟩, rfl⟩ := hrun.of_ok hr
  have hinsts : t.machine.store.tally.insts = t.sim_num_insn :=
    loop_keeps (fun s s' => counted_insts s s') rfl ht
  refine ⟨t, ht, ?_⟩
  have hcounts := hm.store.2
  dsimp only at hn hcounts
  rw [hn, ← hinsts]
  exact hcounts

/-- `lw $4, 64($0)` -/
theorem traffic_counted_load : ∃ answers m s t,
    Call.run [.write 4 0x400000 18#32, .write 4 0x400004 0x40040#32] mem_init = .ok (answers, m) ∧
      (cached twoLevels noRand).sim_main (fun os : Unit => .ret os) slowHost 0 1
        (withCaches ⟨{ regs_init with PC := 0x400000 }, m, ()⟩ (.created (fun _ => Cache.small) ())) = .ok (s, false) ∧
      (counted true).sim_main (fun os : Unit => .ret os) slowHost 0 1
        ⟨{ regs_init with PC := 0x400000 }, ⟨m, ⟨0, 0⟩⟩, ()⟩ = .ok (t, false) ∧
      Counts twoLevels (twoLevels.seen ⟨1, t.machine.store.tally.data⟩) s.machine.store.caches := by
  obtain ⟨⟨answers, m⟩, hr⟩ : ∃ r, Call.run [.write 4 0x400000 18#32, .write 4 0x400004 0x40040#32] mem_init = .ok r :=
    ⟨_, rfl⟩
  obtain ⟨s, hs⟩ : ∃ s, (cached twoLevels noRand).sim_main (fun os : Unit => .ret os) slowHost 0 1
      (withCaches ⟨{ regs_init with PC := 0x400000 }, m, ()⟩ (.created (fun _ => Cache.small) ())) = .ok (s, false) ∧
        s.sim_num_insn = 1 := by
    cases hr
    exact ⟨_, rfl, rfl⟩
  obtain ⟨t, ht, hcounts⟩ := traffic_counted _ _ _ _ _ _ _ _ _ _ _ hs.1
  exact ⟨answers, m, s, t, hr, hs.1, ht, hs.2 ▸ hcounts⟩

end Runs

end Sim
