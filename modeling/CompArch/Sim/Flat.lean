import CompArch.Sim.Fetch
/-!
# Programs see a flat memory

The page table, its order and the pages that are allocated cannot be observed by a
simulated program: sim-safe and sim-fast run it as they would over an array of
`2 ^ 32` bytes. The macros do not check that an access stays in its page, so the
runs compared are those in which all accesses do.
-/

namespace Sim

open Effects Memory Outcome Pisa

variable {O : Type}

/-! ## The machine with a flat memory -/

/-- An access that has to stay in its page. -/
def inPage {α : Type} (n : Nat) (addr : Addr) (r : α) : Except Stop α :=
  if MEM_OFFSET addr + n ≤ MD_PAGE_SIZE then .ok r else .error (.bad .bounds)

def flatPorts : Ports Stop Flat where
  read n addr f := inPage n addr (f.read addr n, f)
  write n addr v f := inPage n addr (f.write addr v)
  mem_fn cmd addr q nbytes f :=
    let c := Call.access cmd addr q nbytes
    .ok (c.fault, (c.plain f).1, (c.plain f).2)
  sync := .ok
  abort := .abort

/-- The simulator over a flat memory. -/
def overFlat (sim : Simulator Stop Mem) : Simulator Stop Flat where
  toPorts := flatPorts
  fetch PC f := do
    let (a, f) ← flatPorts.read 4 PC f
    let (b, f) ← flatPorts.read 4 (PC + 4) f
    return (⟨a, b⟩, f)
  after := sim.after

/-! ## Pages against bytes -/

/-- What ends a run that is compared. -/
def ends : Stop → Option Stop
  | .bad _ => none
  | s => some s

theorem ends_eq (s s' : Stop) (h : ends s = some s') : s = s' := by
  cases s with
  | bad b => cases h
  | abort why | fault f PC => exact Option.some.inj h

theorem follows_inPage {α β : Type} {Q : α → β → Prop} {n : Nat} {addr : Addr} {r : α} {y : Except Stop β}
    (h : MEM_OFFSET addr + n ≤ MD_PAGE_SIZE → ∃ b, y = .ok b ∧ Q r b) : Follows ends Q (inPage n addr r) y := by
  unfold inPage
  split
  case isTrue hn => exact h hn
  case isFalse =>
    intro err he
    cases he

theorem flatPorts_mirrors : flatPorts.Mirrors memPorts ends fun f m => m.Ok ∧ m.flat = f where
  read := by
    rintro n addr _ m ⟨hm, rfl⟩
    refine follows_inPage fun hn => ?_
    obtain ⟨m', hr, hmoved⟩ := Mem.MEM_READ_spec hm hn
    exact ⟨_, congrArg Stop.of hr, rfl, hmoved.ok hm, hmoved.flat hm⟩
  write := by
    rintro n addr v _ m ⟨hm, rfl⟩
    refine follows_inPage fun hn => ?_
    obtain ⟨m', hw, hok, hf, -⟩ := Mem.MEM_WRITE_spec hm hn v
    exact ⟨_, congrArg Stop.of hw, hok, hf⟩
  mem_fn := by
    rintro cmd addr q nbytes _ m ⟨hm, rfl⟩
    obtain ⟨m', hp⟩ := Call.faithful (c := .access cmd addr q nbytes) hm trivial
    have hperform : (Mem.mem_access cmd addr q nbytes m).map Call.copyAnswer = .ok _ := hp.perform
    cases hr : Mem.mem_access cmd addr q nbytes m with
    | error b =>
      rw [hr] at hperform
      cases hperform
    | ok r =>
      obtain ⟨f, q', m₁⟩ := r
      rw [hr] at hperform
      obtain ⟨hans, rfl⟩ := Prod.mk.inj (Except.ok.inj hperform)
      obtain ⟨rfl, rfl⟩ := Answer.copied.inj hans
      exact ⟨_, congrArg Stop.of hr, rfl, rfl, hp.ok, hp.flat⟩
  sync := by
    rintro _ m h
    exact follows_ok h
  abort why err he := ends_eq _ _ he

theorem of_bind {α β : Type} (x : Except Bad α) (g : α → Except Bad β) :
    Stop.of (x >>= g) = Stop.of x >>= fun a => Stop.of (g a) := by
  cases x <;> rfl

/-- The fetch, as two reads of the ports. -/
theorem of_MD_FETCH_INST (PC : Word) (m : Mem) : Stop.of (MD_FETCH_INST PC m) =
    memPorts.read 4 PC m >>= fun a => memPorts.read 4 (PC + 4) a.2 >>= fun b => .ok (⟨a.1, b.1⟩, b.2) := by
  unfold MD_FETCH_INST
  rw [of_bind]
  congr 1
  funext a
  exact of_bind _ _

theorem overFlat_mirrors {sim : Simulator Stop Mem} (hp : sim.toPorts = memPorts)
    (hfetch : ∀ PC m, sim.fetch PC m = Stop.of (MD_FETCH_INST PC m)) :
    (overFlat sim).Mirrors sim ends fun f m => m.Ok ∧ m.flat = f where
  ports := hp ▸ flatPorts_mirrors
  fetch := by
    intro PC f m h
    rw [hfetch, of_MD_FETCH_INST]
    refine (flatPorts_mirrors.read h).bind ?_
    rintro ⟨a, f₁⟩ ⟨_, m₁⟩ ⟨rfl, h₁⟩
    refine (flatPorts_mirrors.read h₁).bind ?_
    rintro ⟨b, f₂⟩ ⟨_, m₂⟩ ⟨rfl, h₂⟩
    exact follows_ok ⟨rfl, h₂⟩
  after fault PC op refs := by
    exact follows_self ends_eq fun _ _ => rfl

/-! ## Whole runs -/

/-- The program that was loaded, over the bytes of its memory. -/
def flattened (m : Machine Mem O) : Machine Flat O := ⟨m.regs, m.store.flat, m.os⟩

/-- The states agree on everything that a program can observe. -/
def Observed (s : State Flat O) (s' : State Mem O) : Prop :=
  s = ⟨flattened s'.machine, s'.sim_num_insn, s'.sim_num_refs⟩

/-- A run over the bytes that ends in no bad access. -/
structure Runs (sim : Simulator Stop Mem) (sys : Syscall O) (host : Host) (max_insts fuel : Nat) (m : Machine Mem O) :
    Prop where
  goes_on {s : State Flat O} {b : Bool} : (overFlat sim).sim_main sys host max_insts fuel (flattened m) = .ok (s, b) →
    ∃ s', sim.sim_main sys host max_insts fuel m = .ok (s', b) ∧ Observed s s'
  ends {stop : Stop} : (overFlat sim).sim_main sys host max_insts fuel (flattened m) = .error stop →
    (∀ bad, stop ≠ .bad bad) → sim.sim_main sys host max_insts fuel m = .error stop

theorem observed_of_alike {s : State Flat O} {s' : State Mem O} (h : s.Alike (fun f m => m.Ok ∧ m.flat = f) s') :
    Observed s s' := by
  obtain ⟨⟨r, f, os⟩, n, refs⟩ := s
  obtain ⟨⟨_, st, _⟩, _, _⟩ := s'
  obtain ⟨⟨rfl, ⟨-, hf⟩, rfl⟩, rfl, rfl⟩ := h
  change st.flat = f at hf
  rw [← hf]
  rfl

theorem runs_of_mirrors {sim : Simulator Stop Mem} (hp : sim.toPorts = memPorts)
    (hfetch : ∀ PC m, sim.fetch PC m = Stop.of (MD_FETCH_INST PC m)) {m : Machine Mem O} (hm : m.store.Ok)
    (sys : Syscall O) (host : Host) (max_insts fuel : Nat) : Runs sim sys host max_insts fuel m := by
  have hstart : State.Alike (fun f m => m.Ok ∧ m.flat = f)
      (⟨{ flattened m with regs := { m.regs with NPC := m.regs.PC + 8 } }, 0, 0⟩ : State Flat O)
      ⟨{ m with regs := { m.regs with NPC := m.regs.PC + 8 } }, 0, 0⟩ := ⟨⟨rfl, ⟨hm, rfl⟩, rfl⟩, rfl, rfl⟩
  have hrun : Follows ends (fun a b => State.Alike (fun f m => m.Ok ∧ m.flat = f) a.1 b.1 ∧ a.2 = b.2)
      ((overFlat sim).sim_main sys host max_insts fuel (flattened m)) (sim.sim_main sys host max_insts fuel m) :=
    (overFlat_mirrors hp hfetch).loop max_insts fuel hstart
  constructor
  · intro s b hr
    obtain ⟨⟨s', _⟩, hs', h, rfl⟩ := hrun.of_ok hr
    exact ⟨s', hs', observed_of_alike h⟩
  · intro stop hr hbad
    have hends : ends stop = some stop := by
      cases stop with
      | bad b => exact absurd rfl (hbad b)
      | abort why => rfl
      | fault f PC => rfl
    rw [hr] at hrun
    exact hrun stop hends

/-- sim-safe and sim-fast run every program over the pages as it runs over the bytes. -/
theorem memory_is_unseen (m : Machine Mem O) (hm : m.store.Ok) (sys : Syscall O) (host : Host) (max_insts fuel : Nat) :
    Runs safe sys host max_insts fuel m ∧ Runs fast sys host max_insts fuel m :=
  ⟨runs_of_mirrors rfl (fun _ _ => rfl) hm sys host max_insts fuel,
    runs_of_mirrors rfl (fun _ _ => rfl) hm sys host max_insts fuel⟩

/-- A jump, run over the bytes and so over the pages. -/
theorem memory_is_unseen_jump : ∃ answers m s,
    Call.run [.write 4 0x400000 2#32, .write 4 0x400004 0x100001#32] mem_init = .ok (answers, m) ∧
      safe.sim_main (fun os : Unit => .ret os) slowHost 0 1 ⟨{ regs_init with PC := 0x400000 }, m, ()⟩ =
        .ok (s, false) ∧ s.machine.regs.PC = 0x400004 := by
  have hc : ∀ c ∈ [Call.write 4 0x400000 2#32, .write 4 0x400004 0x100001#32], c.InPage := by
    simp [Call.InPage, MEM_OFFSET, MD_PAGE_SIZE]
  obtain ⟨m, hr, hok, -, -⟩ := run_flat Mem.ok_init hc
  obtain ⟨-, rfl⟩ := Prod.mk.inj (Except.ok.inj hr)
  obtain ⟨s, hs, ho⟩ := (memory_is_unseen ⟨{ regs_init with PC := 0x400000 }, _, ()⟩ hok (fun os => .ret os) slowHost 0
    1).1.goes_on rfl
  exact ⟨_, _, s, hr, hs, (congrArg (fun s => s.machine.regs.PC) ho).symm⟩

end Sim
