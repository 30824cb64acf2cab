import CompArch.Pisa.Ports
/-!
# The simulators' loops (`sim-safe.c`, `sim-fast.c`)

All functional simulators execute one instruction a turn. They differ in the macros,
in what comes before the fetch, and in what follows a fault. The counter of a loop's
turns stands for the time it has. The debugger and the printing are left out.
-/

namespace Sim

open Effects Memory Outcome Pisa

variable {ε σ O : Type}

/-! ## One turn -/

/-- What a simulator does in its own way. -/
structure Simulator (ε σ : Type) extends Ports ε σ where
  /-- `MD_FETCH_INST`, with what comes before it. -/
  fetch (PC : Word) (s : σ) : Except ε (MdInst × σ)
  /-- What follows the instruction: the new `sim_num_refs`. -/
  after (fault : Fault) (PC : Word) (op : Opcode) (sim_num_refs : Nat) : Except ε Nat

/-- The simulated program and the counters of the loop. -/
structure State (σ O : Type) where
  machine : Machine σ O
  sim_num_insn : Nat
  sim_num_refs : Nat

/-- The next instruction: `sizeof(md_inst_t)` is 8. -/
def advance (m : Machine σ O) : Machine σ O :=
  { m with regs := { m.regs with PC := m.regs.NPC, NPC := m.regs.NPC + 8 } }

namespace Simulator

variable (sim : Simulator ε σ) (sys : Syscall O) (host : Host)

/-- The instruction at the program counter, and the machine that executes it: `$r0` is cleared before the fetch. -/
def fetched (m : Machine σ O) : Except ε (MdInst × Machine σ O) := do
  let regs := m.regs.setR 0 0
  let (inst, store) ← sim.fetch regs.PC m.store
  return (inst, { m with regs, store })

def turn (s : State σ O) : Except ε (State σ O) := do
  let (inst, m) ← sim.fetched s.machine
  let op := MD_SET_OPCODE inst
  let (fault, m) ← (impl host inst op).run (sim.handler sys) m
  let sim_num_refs ← sim.after fault m.regs.PC op s.sim_num_refs
  return { machine := advance m, sim_num_insn := s.sim_num_insn + 1, sim_num_refs }

/-- That many turns. -/
def turns : Nat → State σ O → Except ε (State σ O)
  | 0, s => .ok s
  | n + 1, s => sim.turn sys host s >>= turns n

/-- The `while` loop of `sim_main`, and whether it has returned. It does so only with `max_insts`. -/
def loop (max_insts : Nat) : (fuel : Nat) → State σ O → Except ε (State σ O × Bool)
  | 0, s => .ok (s, false)
  | fuel + 1, s => do
    let s ← sim.turn sys host s
    if max_insts ≠ 0 ∧ max_insts ≤ s.sim_num_insn then return (s, true)
    loop max_insts fuel s

/-- `sim_main`, on the program that was loaded. -/
def sim_main (max_insts fuel : Nat) (m : Machine σ O) : Except ε (State σ O × Bool) :=
  sim.loop sys host max_insts fuel
    { machine := { m with regs := { m.regs with NPC := m.regs.PC + 8 } }, sim_num_insn := 0, sim_num_refs := 0 }

end Simulator

/-! ## The simulators -/

/-- `MD_FETCH_INST` -/
def MD_FETCH_INST (PC : Word) (mem : Mem) : Except Bad (MdInst × Mem) := do
  let (a, mem) ← mem.MEM_READ_WORD PC
  let (b, mem) ← mem.MEM_READ_WORD (PC + 4)
  return (⟨a, b⟩, mem)

/-- A fault ends sim-safe. -/
def safe : Simulator Stop Mem where
  toPorts := memPorts
  fetch PC mem := Stop.of (MD_FETCH_INST PC mem)
  after fault PC op sim_num_refs :=
    if fault ≠ .none then .error (.fault fault PC)
    else .ok (if MD_OP_FLAGS op &&& F_MEM ≠ 0 then sim_num_refs + 1 else sim_num_refs)

/-- sim-fast catches no fault and counts no references. -/
def fast : Simulator Stop Mem where
  toPorts := memPorts
  fetch PC mem := Stop.of (MD_FETCH_INST PC mem)
  after _ _ _ sim_num_refs := .ok sim_num_refs

/-! ## Turns -/

section Turns
variable {sim : Simulator ε σ} {sys : Syscall O} {host : Host} {s s' : State σ O} {n : Nat}

theorem turn_error {e : ε} (hf : sim.fetched s.machine = .error e) : sim.turn sys host s = .error e := by
  unfold Simulator.turn
  rw [hf]
  rfl

theorem turn_stops {inst : MdInst} {m : Machine σ O} {e : ε} (hf : sim.fetched s.machine = .ok (inst, m))
    (hr : (impl host inst (MD_SET_OPCODE inst)).run (sim.handler sys) m = .error e) :
    sim.turn sys host s = .error e := by
  unfold Simulator.turn
  rw [hf]
  show (impl host inst (MD_SET_OPCODE inst)).run (sim.handler sys) m >>= _ = _
  rw [hr]
  rfl

/-- A turn whose instruction completes. -/
theorem turn_runs {inst : MdInst} {m m' : Machine σ O} {fault : Fault} (hf : sim.fetched s.machine = .ok (inst, m))
    (hr : (impl host inst (MD_SET_OPCODE inst)).run (sim.handler sys) m = .ok (fault, m')) :
    sim.turn sys host s = (sim.after fault m'.regs.PC (MD_SET_OPCODE inst) s.sim_num_refs).map
      fun refs => ⟨advance m', s.sim_num_insn + 1, refs⟩ := by
  unfold Simulator.turn
  rw [hf]
  show (impl host inst (MD_SET_OPCODE inst)).run (sim.handler sys) m >>= _ = _
  rw [hr]
  rfl

theorem turn_eq_ok : sim.turn sys host s = .ok s' ↔ ∃ inst m fault m' refs, sim.fetched s.machine = .ok (inst, m) ∧
    (impl host inst (MD_SET_OPCODE inst)).run (sim.handler sys) m = .ok (fault, m') ∧
    sim.after fault m'.regs.PC (MD_SET_OPCODE inst) s.sim_num_refs = .ok refs ∧
    s' = ⟨advance m', s.sim_num_insn + 1, refs⟩ := by
  unfold Simulator.turn
  simp only [bind_ok, Prod.exists, pure, Except.pure, Except.ok.injEq]
  constructor
  · rintro ⟨inst, m, hf, fault, m', hr, refs, ha, rfl⟩
    exact ⟨inst, m, fault, m', refs, hf, hr, ha, rfl⟩
  · rintro ⟨inst, m, fault, m', refs, hf, hr, ha, rfl⟩
    exact ⟨inst, m, hf, fault, m', hr, refs, ha, rfl⟩

theorem fetched_eq_ok {m m' : Machine σ O} {inst : MdInst} : sim.fetched m = .ok (inst, m') ↔
    ∃ store, sim.fetch m.regs.PC m.store = .ok (inst, store) ∧ m' = { m with regs := m.regs.setR 0 0, store } := by
  unfold Simulator.fetched
  simp only [bind_ok, Prod.exists, pure, Except.pure, Except.ok.injEq, Prod.mk.injEq]
  constructor
  · rintro ⟨_, store, hf, rfl, rfl⟩
    exact ⟨store, hf, rfl⟩
  · rintro ⟨store, hf, rfl⟩
    exact ⟨inst, store, hf, rfl, rfl⟩

theorem loop_keeps {I : State σ O → Prop} (hI : ∀ s s', I s → sim.turn sys host s = .ok s' → I s') (h : I s)
    {max_insts fuel : Nat} {b : Bool} (hr : sim.loop sys host max_insts fuel s = .ok (s', b)) : I s' := by
  induction fuel generalizing s with
  | zero =>
    obtain ⟨rfl, -⟩ := Prod.mk.inj (Except.ok.inj hr)
    exact h
  | succ fuel ih =>
    obtain ⟨s₁, ht, hr⟩ := bind_ok.1 hr
    split at hr
    · obtain ⟨rfl, -⟩ := Prod.mk.inj (Except.ok.inj hr)
      exact hI s s₁ h ht
    · exact ih (hI s s₁ h ht) hr

/-- Every turn counts one instruction. -/
theorem turns_sim_num_insn (hr : sim.turns sys host n s = .ok s') : s'.sim_num_insn = s.sim_num_insn + n := by
  induction n generalizing s with
  | zero => exact congrArg State.sim_num_insn (Except.ok.inj hr).symm
  | succ n ih =>
    obtain ⟨s₁, ht, hr⟩ := bind_ok.1 hr
    obtain ⟨_, _, _, _, _, -, -, -, rfl⟩ := turn_eq_ok.1 ht
    rw [ih hr, Nat.add_right_comm, Nat.add_assoc]

/-- The loop makes its turns until `max_insts` is reached, and returns then. -/
theorem loop_eq (max_insts fuel : Nat) (s : State σ O) (hs : s.sim_num_insn < max_insts) :
    sim.loop sys host max_insts fuel s =
      (sim.turns sys host (min fuel (max_insts - s.sim_num_insn)) s).map
        (·, decide (max_insts - s.sim_num_insn ≤ fuel)) := by
  induction fuel generalizing s with
  | zero =>
    have h : ¬ max_insts - s.sim_num_insn ≤ 0 := by omega
    rw [Nat.zero_min, decide_eq_false h]
    rfl
  | succ fuel ih =>
    obtain ⟨k, hk⟩ : ∃ k, max_insts = s.sim_num_insn + 1 + k := Nat.exists_eq_add_of_le hs
    have hmin : min (fuel + 1) (max_insts - s.sim_num_insn) = min fuel k + 1 := by omega
    rw [hmin]
    unfold Simulator.loop Simulator.turns
    cases ht : sim.turn sys host s with
    | error e => rfl
    | ok s₁ =>
      obtain ⟨_, _, _, _, _, -, -, -, rfl⟩ := turn_eq_ok.1 ht
      show (if _ then _ else _) = Except.map _ (sim.turns sys host (min fuel k) _)
      dsimp only at ih ⊢
      split
      case isTrue hmax =>
        have hk0 : k = 0 := by omega
        have hle : max_insts - s.sim_num_insn ≤ fuel + 1 := by omega
        rw [hk0, Nat.min_zero, decide_eq_true hle]
        rfl
      case isFalse hmax =>
        rw [ih _ (by dsimp only; omega)]
        have hk' : max_insts - (s.sim_num_insn + 1) = k := by omega
        have hiff : (k ≤ fuel) = (max_insts - s.sim_num_insn ≤ fuel + 1) := propext (by omega)
        simp only [hk', hiff]

end Turns

/-! ## Two simulators -/

/-- Two simulators in the same place. -/
structure State.Alike {τ : Type} (R : σ → τ → Prop) (s : State σ O) (t : State τ O) : Prop where
  machine : s.machine.Alike R t.machine
  sim_num_insn : s.sim_num_insn = t.sim_num_insn
  sim_num_refs : s.sim_num_refs = t.sim_num_refs

/-- The second simulator does what the first one does, but for errors that `e` is not about. -/
structure Simulator.Mirrors {ε' τ : Type} (sim : Simulator ε σ) (sim' : Simulator ε' τ) (e : ε → Option ε')
    (R : σ → τ → Prop) : Prop where
  ports : sim.toPorts.Mirrors sim'.toPorts e R
  fetch {PC : Word} {s : σ} {t : τ} : R s t →
    Follows e (fun a b => a.1 = b.1 ∧ R a.2 b.2) (sim.fetch PC s) (sim'.fetch PC t)
  after (fault : Fault) (PC : Word) (op : Opcode) (refs : Nat) :
    Follows e Eq (sim.after fault PC op refs) (sim'.after fault PC op refs)

section Mirrors
variable {ε' τ : Type} {sim : Simulator ε σ} {sim' : Simulator ε' τ} {e : ε → Option ε'} {R : σ → τ → Prop}
  {sys : Syscall O} {host : Host} {s : State σ O} {t : State τ O}

theorem Simulator.Mirrors.turn (hm : sim.Mirrors sim' e R) (h : s.Alike R t) :
    Follows e (State.Alike R) (sim.turn sys host s) (sim'.turn sys host t) := by
  obtain ⟨⟨r, st, os⟩, n, refs⟩ := s
  obtain ⟨⟨_, st', _⟩, _, _⟩ := t
  obtain ⟨⟨rfl, hst, rfl⟩, rfl, rfl⟩ := h
  have hfetched : Follows e (fun a b => a.1 = b.1 ∧ Machine.Alike R a.2 b.2) (sim.fetched ⟨r, st, os⟩)
      (sim'.fetched ⟨r, st', os⟩) := by
    refine (hm.fetch hst).bind ?_
    rintro ⟨inst, m⟩ ⟨_, m'⟩ ⟨rfl, hm'⟩
    exact follows_ok ⟨rfl, rfl, hm', rfl⟩
  refine hfetched.bind ?_
  rintro ⟨inst, m⟩ ⟨_, m'⟩ ⟨rfl, hm'⟩
  refine (hm.ports.run hm' (impl host inst (MD_SET_OPCODE inst))).bind ?_
  rintro ⟨fault, ⟨r₁, st₁, os₁⟩⟩ ⟨_, ⟨_, st₂, _⟩⟩ ⟨rfl, rfl, hst', rfl⟩
  refine (hm.after fault r₁.PC (MD_SET_OPCODE inst) refs).bind ?_
  rintro refs' _ rfl
  exact follows_ok ⟨⟨rfl, hst', rfl⟩, rfl, rfl⟩

theorem Simulator.Mirrors.loop (hm : sim.Mirrors sim' e R) (max_insts fuel : Nat) (h : s.Alike R t) :
    Follows e (fun a b => a.1.Alike R b.1 ∧ a.2 = b.2) (sim.loop sys host max_insts fuel s)
      (sim'.loop sys host max_insts fuel t) := by
  induction fuel generalizing s t with
  | zero => exact follows_ok ⟨h, rfl⟩
  | succ fuel ih =>
    refine (hm.turn h).bind fun s' t' h' => ?_
    rw [h'.sim_num_insn]
    split
    · exact follows_ok ⟨h', rfl⟩
    · exact ih h'

end Mirrors

end Sim
