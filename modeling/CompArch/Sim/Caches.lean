import CompArch.Cache.Levels
import CompArch.Memory.Runs
import CompArch.Pisa.Integer
import CompArch.Sim.Loop
/-!
# sim-cache (`sim-cache.c`)

sim-cache shows every fetch and every access of the data to its caches before it goes
to the memory. The caches hold no data, and `sim_check_options` lets instructions and
data share some of them. The statistics by program counter are left out.
-/

namespace Sim

open Effects Function Memory Outcome Pisa

/-! ## The caches -/

/-- The caches with a level below them. -/
inductive Upper
  | il1 | dl1
  deriving DecidableEq

/-- The caches above the main memory. -/
inductive Bottom
  | il2 | dl2 | itlb | dtlb
  deriving DecidableEq

/-- Which cache a pointer points to. -/
inductive Pointer
  | upper (x : Upper)
  | bottom (y : Bottom)
  deriving DecidableEq

/-- The pointers, which may be null, and the other options. -/
structure Options where
  cache_il1 : Option Pointer
  cache_il2 : Option Bottom
  cache_dl1 : Option Pointer
  cache_dl2 : Option Bottom
  itlb : Option Pointer
  dtlb : Option Pointer
  flush_on_syscalls : Bool
  compress_icache_addrs : Bool
  ld_text_base : Addr

/-- `struct cache_t`: its parameters, and everything else. -/
structure CacheT where
  g : Cache.Geometry
  store : Cache.Store g

variable {ρ O : Type}

/-- What the first level shares with the rest of the simulation: the caches below it, the `regs_PC` that `get_PC`
returns and the state of `myrand`. -/
structure Lower (ρ : Type) where
  caches : Bottom → CacheT
  PC : Addr
  seed : ρ

structure Caches (ρ : Type) where
  upper : Upper → CacheT
  world : Cache.World (Lower ρ)

namespace Options

variable (o : Options)

/-- `dl1_access_fn` accesses `cache_dl2`, and `il1_access_fn` accesses `cache_il2`. -/
def below : Upper → Option Bottom
  | .il1 => o.cache_il2
  | .dl1 => o.cache_dl2

def IACOMPRESS (A : Addr) : Addr :=
  if o.compress_icache_addrs then ((A - o.ld_text_base) >>> 1) + o.ld_text_base else A

def ISCOMPRESS (SZ : Addr) : Addr := if o.compress_icache_addrs then SZ >>> 1 else SZ

end Options

section Calls
variable (o : Options) (myrand : ρ → Nat × ρ)

/-- `dl2_access_fn`, `il2_access_fn` and the handlers of the TLBs access no cache. -/
def bottomEnv : Cache.Env ρ where
  blk_access_fn _ _ _ w := some w
  myrand := myrand

def Lower.call (k : Cache.Call) (w : Cache.World (Lower ρ)) (y : Bottom) :
    Except Cache.Stop (Cache.World (Lower ρ)) := do
  let c := w.rest.caches y
  let (store, w') ← k.perform (bottomEnv myrand) c.store { statics := w.statics, rest := w.rest.seed }
  return {
    statics := w'.statics
    rest := { w.rest with caches := update w.rest.caches y { c with store }, seed := w'.rest } }

/-- `il1_access_fn` and `dl1_access_fn`. `bsize` is the block size of the cache that missed. -/
def upperEnv (x : Upper) (bsize : Addr) : Cache.Env (Lower ρ) where
  blk_access_fn cmd baddr prefetch w :=
    match o.below x with
    | none => some w
    | some y => (Lower.call myrand (.access cmd baddr bsize prefetch w.rest.PC) w y).toOption
  myrand r := ((myrand r.seed).1, { r with seed := (myrand r.seed).2 })

namespace Caches

def call (k : Cache.Call) (c : Caches ρ) : Pointer → Except Cache.Stop (Caches ρ)
  | .upper x => do
    let u := c.upper x
    let (store, world) ← k.perform (upperEnv o myrand x u.g.bsize) u.store c.world
    return { upper := update c.upper x { u with store }, world }
  | .bottom y => do return { c with world := ← Lower.call myrand k c.world y }

/-- A call on the cache that is there. -/
def callAt (k : Cache.Call) (p : Option Pointer) (c : Caches ρ) : Except Cache.Stop (Caches ρ) :=
  match p with
  | none => .ok c
  | some p => c.call o myrand k p

/-- One call of `cache_access` for each pointer that is not null. -/
def accesses (cmd : Cache.Cmd) (addr nbytes : Addr) : List (Option Pointer) → Caches ρ → Except Cache.Stop (Caches ρ)
  | [], c => .ok c
  | p :: ps, c => do
    let c ← c.callAt o myrand (.access cmd addr nbytes false c.world.rest.PC) p
    accesses cmd addr nbytes ps c

/-- The accesses before a fetch. -/
def inst (PC : Addr) (c : Caches ρ) : Except Cache.Stop (Caches ρ) :=
  { c with world.rest.PC := PC }.accesses o myrand .Read (o.IACOMPRESS PC) (o.ISCOMPRESS 8) [o.itlb, o.cache_il1]

/-- `__READ_CACHE` and `__WRITE_CACHE` -/
def data (cmd : Cache.Cmd) (addr nbytes : Addr) (c : Caches ρ) : Except Cache.Stop (Caches ρ) :=
  c.accesses o myrand cmd addr nbytes [o.dtlb, o.cache_dl1]

/-- The flushes before a system call. -/
def flush : List (Option Pointer) → Caches ρ → Except Cache.Stop (Caches ρ)
  | [], c => .ok c
  | p :: ps, c => do flush ps (← c.callAt o myrand .flush p)

end Caches

end Calls

/-! ## The simulator -/

/-- The memory of the simulated program, and the caches. -/
structure Cached (ρ : Type) where
  mem : Mem
  caches : Caches ρ

/-- How a run of sim-cache ends: in a cache, or as it would without. -/
inductive CacheStop
  | cache (e : Cache.Stop)
  | other (e : Stop)

def CacheStop.other? : CacheStop → Option Stop
  | .cache _ => none
  | .other e => some e

/-- `enum mem_cmd` -/
def cacheCmd : Memory.Cmd → Cache.Cmd
  | .Read => .Read
  | .Write => .Write

section Simulator
variable (o : Options) (myrand : ρ → Nat × ρ)

/-- The macros of sim-cache.c. -/
def cachePorts : Ports CacheStop (Cached ρ) where
  read n addr s := do
    let caches ← (s.caches.data o myrand .Read addr (BitVec.ofNat 32 n)).mapError .cache
    let (v, mem) ← (memPorts.read n addr s.mem).mapError .other
    return (v, { mem, caches })
  write n addr v s := do
    let caches ← (s.caches.data o myrand .Write addr (BitVec.ofNat 32 n)).mapError .cache
    let mem ← (memPorts.write n addr v s.mem).mapError .other
    return { mem, caches }
  -- `dcache_access_fn`, or `mem_access` when the caches are flushed
  mem_fn cmd addr p nbytes s := do
    let caches ←
      if o.flush_on_syscalls then .ok s.caches
      else (s.caches.data o myrand (cacheCmd cmd) addr nbytes).mapError .cache
    let (fault, p, mem) ← (memPorts.mem_fn cmd addr p nbytes s.mem).mapError .other
    return (fault, p, { mem, caches })
  sync s :=
    if o.flush_on_syscalls then do
      let caches ← (s.caches.flush o myrand [o.dtlb, o.cache_dl1, o.cache_dl2.map .bottom]).mapError .cache
      return { s with caches }
    else .ok s
  abort why := .other (.abort why)

def cached : Simulator CacheStop (Cached ρ) where
  toPorts := cachePorts o myrand
  fetch PC s := do
    let caches ← (s.caches.inst o myrand PC).mapError .cache
    let (inst, mem) ← (safe.fetch PC s.mem).mapError .other
    return (inst, { mem, caches })
  after fault PC op sim_num_refs := (safe.after fault PC op sim_num_refs).mapError .other

end Simulator

/-! ## The caches change nothing -/

section Transparent
variable {o : Options} {myrand : ρ → Nat × ρ}

/-- What the memory does in both runs. -/
theorem follows_other {α β γ : Type} {S : β → γ → Prop} {x : Except Stop α} {f : α → Except CacheStop β}
    {g : α → Except Stop γ} (h : ∀ a, Follows CacheStop.other? S (f a) (g a)) :
    Follows CacheStop.other? S (x.mapError .other >>= f) (x >>= g) := by
  cases x with
  | error e =>
    rintro e' ⟨⟩
    rfl
  | ok a => exact h a

theorem follows_last {α β : Type} {S : β → α → Prop} {x : Except Stop α} {f : α → Except CacheStop β}
    (h : ∀ a, Follows CacheStop.other? S (f a) (.ok a)) :
    Follows CacheStop.other? S (x.mapError .other >>= f) x := by
  cases x with
  | error e =>
    rintro e' ⟨⟩
    rfl
  | ok a => exact h a

/-- What the caches do before. -/
theorem follows_caches {α β : Type} {S : α → β → Prop} {x : Except Cache.Stop (Caches ρ)}
    {f : Caches ρ → Except CacheStop α} {y : Except Stop β}
    (h : ∀ c, x = .ok c → Follows CacheStop.other? S (f c) y) :
    Follows CacheStop.other? S (x.mapError .cache >>= f) y := by
  cases x with
  | error e => rintro e' ⟨⟩
  | ok c => exact h c rfl

theorem cachePorts_mirrors : (cachePorts o myrand).Mirrors memPorts CacheStop.other? fun s m => s.mem = m where
  read := by
    rintro n addr s _ rfl
    exact follows_caches fun c _ => follows_last fun r => follows_ok ⟨rfl, rfl⟩
  write := by
    rintro n addr v s _ rfl
    exact follows_caches fun c _ => follows_last fun r => follows_ok rfl
  mem_fn := by
    rintro cmd addr p nbytes s _ rfl
    have hmem (c : Caches ρ) : Follows CacheStop.other? (fun a b => a.1 = b.1 ∧ a.2.1 = b.2.1 ∧ a.2.2.mem = b.2.2)
        ((memPorts.mem_fn cmd addr p nbytes s.mem).mapError .other >>= fun r =>
          .ok (r.1, r.2.1, (⟨r.2.2, c⟩ : Cached ρ)))
        (memPorts.mem_fn cmd addr p nbytes s.mem) := follows_last fun r => follows_ok ⟨rfl, rfl, rfl⟩
    unfold cachePorts
    dsimp only
    split
    · exact hmem s.caches
    · exact follows_caches fun c _ => hmem c
  sync := by
    rintro s _ rfl
    unfold cachePorts
    dsimp only
    split
    · exact follows_caches fun c _ => follows_ok rfl
    · exact follows_ok rfl
  abort := by
    rintro why err ⟨⟩
    rfl

theorem cached_mirrors : (cached o myrand).Mirrors safe CacheStop.other? fun s m => s.mem = m where
  ports := cachePorts_mirrors
  fetch := by
    rintro PC s _ rfl
    exact follows_caches fun c _ => follows_last fun r => follows_ok ⟨rfl, rfl⟩
  after fault PC op refs := by
    show Follows _ _ ((safe.after fault PC op refs).mapError CacheStop.other) _
    cases safe.after fault PC op refs with
    | error e =>
      rintro e' ⟨⟩
      rfl
    | ok refs' => exact follows_ok rfl

/-- The program, with caches. -/
def withCaches (m : Machine Mem O) (caches : Caches ρ) : Machine (Cached ρ) O := ⟨m.regs, ⟨m.store, caches⟩, m.os⟩

/-- What sim-safe has of a state of sim-cache. -/
def State.withoutCaches (s : State (Cached ρ) O) : State Mem O :=
  ⟨⟨s.machine.regs, s.machine.store.mem, s.machine.os⟩, s.sim_num_insn, s.sim_num_refs⟩

theorem withoutCaches_of_alike {s : State (Cached ρ) O} {t : State Mem O} (h : s.Alike (fun s m => s.mem = m) t) :
    t = s.withoutCaches := by
  obtain ⟨⟨r, st, os⟩, n, refs⟩ := t
  obtain ⟨⟨hr, hs, ho⟩, hn, hk⟩ := h
  dsimp only at hr hs ho hn hk
  rw [← hr, ← hs, ← ho, ← hn, ← hk]
  rfl

/-- Whatever the caches are and hold, sim-cache is after every turn where sim-safe is, and ends as it does, unless a
cache stops it. -/
theorem caches_change_nothing (o : Options) (myrand : ρ → Nat × ρ) (sys : Syscall O) (host : Host)
    (max_insts fuel : Nat) (m : Machine Mem O) (caches : Caches ρ) :
    (∀ s b, (cached o myrand).sim_main sys host max_insts fuel (withCaches m caches) = .ok (s, b) →
        safe.sim_main sys host max_insts fuel m = .ok (s.withoutCaches, b)) ∧
      ∀ e, (cached o myrand).sim_main sys host max_insts fuel (withCaches m caches) = .error (.other e) →
        safe.sim_main sys host max_insts fuel m = .error e := by
  have hrun : Follows CacheStop.other? (fun a b => State.Alike (fun s m => s.mem = m) a.1 b.1 ∧ a.2 = b.2)
      ((cached o myrand).sim_main sys host max_insts fuel (withCaches m caches))
      (safe.sim_main sys host max_insts fuel m) :=
    cached_mirrors.loop max_insts fuel ⟨⟨rfl, rfl, rfl⟩, rfl, rfl⟩
  constructor
  · intro s b hr
    obtain ⟨⟨t, _⟩, ht, hs, rfl⟩ := hrun.of_ok hr
    exact withoutCaches_of_alike hs ▸ ht
  · intro e hr
    rw [hr] at hrun
    exact hrun e rfl

/-- Two levels of caches, the second one shared, and a TLB for the data. -/
def twoLevels : Options where
  cache_il1 := some (.upper .il1)
  cache_il2 := some .dl2
  cache_dl1 := some (.upper .dl1)
  cache_dl2 := some .dl2
  itlb := none
  dtlb := some (.bottom .dtlb)
  flush_on_syscalls := true
  compress_icache_addrs := false
  ld_text_base := 0x400000

/-- All caches as `cache_create` makes them. -/
def Caches.created (g : Pointer → Cache.Geometry) (seed : ρ) : Caches ρ where
  upper x := ⟨g (.upper x), Cache.cache_create _⟩
  world := { rest := { caches := fun y => ⟨g (.bottom y), Cache.cache_create _⟩, PC := 0, seed } }

def noRand (n : Unit) : Nat × Unit := (0, n)

/-- `lw $4, 64($0)` -/
theorem caches_change_nothing_load : ∃ answers m s,
    Call.run [.write 4 0x400000 18#32, .write 4 0x400004 0x40040#32] mem_init = .ok (answers, m) ∧
      (cached twoLevels noRand).sim_main (fun os : Unit => .ret os) slowHost 0 1
        (withCaches ⟨{ regs_init with PC := 0x400000 }, m, ()⟩ (.created (fun _ => Cache.small) ())) = .ok (s, false) ∧
      safe.sim_main (fun os : Unit => .ret os) slowHost 0 1 ⟨{ regs_init with PC := 0x400000 }, m, ()⟩ =
        .ok (s.withoutCaches, false) := by
  obtain ⟨⟨answers, m⟩, hr⟩ : ∃ r, Call.run [.write 4 0x400000 18#32, .write 4 0x400004 0x40040#32] mem_init = .ok r :=
    ⟨_, rfl⟩
  obtain ⟨s, hs⟩ : ∃ s, (cached twoLevels noRand).sim_main (fun os : Unit => .ret os) slowHost 0 1
      (withCaches ⟨{ regs_init with PC := 0x400000 }, m, ()⟩ (.created (fun _ => Cache.small) ())) = .ok (s, false) := by
    cases hr
    exact ⟨_, rfl⟩
  exact ⟨answers, m, s, hr, hs, (caches_change_nothing _ _ _ _ _ _ _ _).1 _ _ hs⟩

end Transparent

end Sim
