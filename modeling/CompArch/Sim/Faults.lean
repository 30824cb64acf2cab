import CompArch.Pisa.Faults
import CompArch.Sim.Loop
/-!
# sim-fast against sim-safe

sim-fast catches no fault. What it executes in place of an instruction that faults
is a `NOP`, and up to there it is sim-safe.
-/

namespace Sim

open Effects Memory Outcome Pisa

variable {O α : Type} (sys : Syscall O) (host : Host)

/-- A turn of sim-safe, but for an instruction that faults: a `NOP` is executed in its place. -/
def skip (s : State Mem O) : Except Stop (State Mem O) :=
  match safe.turn sys host s with
  | .error (.fault _ _) => do
    let (_, m) ← safe.fetched s.machine
    return { s with machine := advance m, sim_num_insn := s.sim_num_insn + 1 }
  | r => r

def skips : Nat → State Mem O → Except Stop (State Mem O)
  | 0, s => .ok s
  | n + 1, s => skip sys host s >>= skips n

/-- What both simulators keep. -/
def State.program (s : State Mem O) : Machine Mem O × Nat := (s.machine, s.sim_num_insn)

variable {sys host}

/-! ## Where a fault can come from -/

section Ends
variable {m : Machine Mem O}

/-- The simulation goes on, or it ends in another way than by a fault. -/
def NoFault (x : Except Stop α) : Prop := Ensures x (fun _ => True) fun e => ∀ f PC, e ≠ .fault f PC

theorem noFault_of (x : Except Bad α) : NoFault (Stop.of x) := by
  cases x with
  | error b =>
    intro f PC he
    cases he
  | ok a => trivial

theorem noFault_reg (n size : Nat) (r : α) : NoFault (memPorts.reg n size r) := by
  unfold Ports.reg
  split
  · trivial
  · intro f PC he
    cases he

theorem NoFault.bind {β : Type} {x : Except Stop α} {g : α → Except Stop β} (hx : NoFault x) (hg : ∀ a, NoFault (g a)) :
    NoFault (x >>= g) := Ensures.bind hx fun a _ => hg a

theorem noFault_sysHandler (o : SysOp) (s : Regs × Mem) : NoFault (memPorts.sysHandler o s) := by
  cases o with
  | GPR n | SET_GPR n v => exact noFault_reg ..
  | mem_fn cmd addr q nbytes => exact (noFault_of _).bind fun _ => trivial
  | exit =>
    intro f PC he
    cases he

/-- A macro answers with a fault. It does not end with one. -/
theorem noFault_handler (o : Macro) (m : Machine Mem O) : NoFault (memPorts.handler sys o m) := by
  cases o with
  | GPR n | SET_GPR n v | FPR_L n | SET_FPR_L n v => exact noFault_reg ..
  | HI | SET_HI v | LO | SET_LO v | FCC | SET_FCC v | CPC | SET_NPC v => trivial
  | READ_BYTE addr | READ_HALF addr | READ_WORD addr | WRITE_BYTE v addr | WRITE_HALF v addr | WRITE_WORD v addr =>
    exact (noFault_of _).bind fun _ => trivial
  | SYSCALL =>
    have hrun : NoFault ((sys m.os).run memPorts.sysHandler (m.regs, m.store)) := run_ensures noFault_sysHandler _ _
    exact hrun.bind fun _ => trivial
  | abort why =>
    intro f PC he
    cases he

theorem noFault_fetched (m : Machine Mem O) : NoFault (safe.fetched m) := (noFault_of _).bind fun _ => trivial

end Ends

/-! ## Turn by turn -/

/-- A turn of sim-fast is one of sim-safe with its faults skipped. -/
theorem fast_turn {s t : State Mem O} (hp : s.program = t.program) :
    (fast.turn sys host s).map State.program = (skip sys host t).map State.program := by
  obtain ⟨m, n, refs⟩ := s
  obtain ⟨m', n', refs'⟩ := t
  obtain ⟨rfl, rfl⟩ := Prod.mk.inj hp
  have hends := noFault_fetched m
  unfold skip
  cases hf : safe.fetched m with
  | error e =>
    have hfast : fast.turn sys host ⟨m, n, refs⟩ = .error e := turn_error hf
    have hsafe : safe.turn sys host ⟨m, n, refs'⟩ = .error e := turn_error hf
    rw [hfast, hsafe]
    rw [hf] at hends
    cases e with
    | fault f PC => exact (hends f PC rfl).elim
    | bad b | abort why => rfl
  | ok r =>
    obtain ⟨inst, m₁⟩ := r
    have hends : NoFault ((impl host inst (MD_SET_OPCODE inst)).run (memPorts.handler sys) m₁) :=
      run_ensures noFault_handler _ _
    cases hr : (impl host inst (MD_SET_OPCODE inst)).run (memPorts.handler sys) m₁ with
    | error e =>
      have hfast : fast.turn sys host ⟨m, n, refs⟩ = .error e := turn_stops hf hr
      have hsafe : safe.turn sys host ⟨m, n, refs'⟩ = .error e := turn_stops hf hr
      rw [hfast, hsafe]
      rw [hr] at hends
      cases e with
      | fault f PC => exact (hends f PC rfl).elim
      | bad b | abort why => rfl
    | ok r =>
      obtain ⟨fault, m₂⟩ := r
      have hfast : fast.turn sys host ⟨m, n, refs⟩ = _ := turn_runs hf hr
      have hsafe : safe.turn sys host ⟨m, n, refs'⟩ = _ := turn_runs hf hr
      rw [hfast, hsafe]
      by_cases hn : fault = .none
      · subst hn
        rfl
      · obtain rfl := impl_precise host inst _ memPorts sys hr hn
        have hafter : safe.after fault m₂.regs.PC (MD_SET_OPCODE inst) refs' = .error (.fault fault m₂.regs.PC) :=
          if_pos hn
        dsimp only
        rw [hafter]
        rfl

/-! ## Whole runs -/

theorem fast_turns (n : Nat) {s t : State Mem O} (hp : s.program = t.program) :
    (fast.turns sys host n s).map State.program = (skips sys host n t).map State.program := by
  induction n generalizing s t with
  | zero => exact congrArg Except.ok hp
  | succ n ih =>
    have hturn : (fast.turn sys host s).map State.program = (skip sys host t).map State.program := fast_turn hp
    unfold Simulator.turns skips
    cases hf : fast.turn sys host s with
    | error e =>
      cases hs : skip sys host t with
      | error e' =>
        rw [hf, hs] at hturn
        exact hturn
      | ok t' =>
        rw [hf, hs] at hturn
        cases hturn
    | ok s' =>
      cases hs : skip sys host t with
      | error e' =>
        rw [hf, hs] at hturn
        cases hturn
      | ok t' =>
        rw [hf, hs] at hturn
        exact ih (Except.ok.inj hturn)

theorem skips_of_turns {n : Nat} {s t : State Mem O} (hr : safe.turns sys host n s = .ok t) :
    skips sys host n s = .ok t := by
  induction n generalizing s with
  | zero => exact hr
  | succ n ih =>
    obtain ⟨s₁, ht, hr⟩ := bind_ok.1 hr
    have hs : skip sys host s = .ok s₁ := by
      unfold skip
      rw [ht]
    unfold skips
    rw [hs]
    exact ih hr

/-- sim-fast runs a program as sim-safe would with a `NOP` in place of every instruction that faults, and just as
sim-safe does when none faults. -/
theorem fast_skips_faults (sys : Syscall O) (host : Host) (n : Nat) (s : State Mem O) :
    (fast.turns sys host n s).map State.program = (skips sys host n s).map State.program ∧
      ∀ t, safe.turns sys host n s = .ok t → (fast.turns sys host n s).map State.program = .ok t.program := by
  refine ⟨fast_turns n rfl, fun t ht => ?_⟩
  rw [fast_turns n rfl, skips_of_turns ht]
  rfl

end Sim
