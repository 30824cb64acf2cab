import CompArch.Memory.Runs
import CompArch.Pisa.Depends
import CompArch.Sim.Loop
/-!
# Where instructions are fetched from

Branches and jumps lead to multiples of 4 only, though an instruction has 8 bytes. So
both words of every instruction that is fetched lie in a page.
-/

namespace Sim

open Effects Memory Outcome Pisa

variable {ε σ O α : Type}

/-! ## Multiples of 4 -/

section Four
variable {x y : Word}

theorem or_mod_four (hx : x.toNat % 4 = 0) (hy : y.toNat % 4 = 0) : (x ||| y).toNat % 4 = 0 := by
  rw [BitVec.toNat_or, show 4 = 2 ^ 2 from rfl, Nat.or_mod_two_pow]
  rw [show 4 = 2 ^ 2 from rfl] at hx hy
  rw [hx, hy]
  rfl

theorem and_mod_four (hy : y.toNat % 4 = 0) : (x &&& y).toNat % 4 = 0 := by
  rw [BitVec.toNat_and, show 4 = 2 ^ 2 from rfl, Nat.and_mod_two_pow]
  rw [show 4 = 2 ^ 2 from rfl] at hy
  rw [hy, Nat.and_zero]

theorem shiftLeft_two_mod_four : (x <<< 2).toNat % 4 = 0 := by
  rw [BitVec.toNat_shiftLeft, Nat.shiftLeft_eq]
  omega

theorem add_mod_four (hx : x.toNat % 4 = 0) (hy : y.toNat % 4 = 0) : (x + y).toNat % 4 = 0 := by
  rw [BitVec.toNat_add]
  omega

theorem mod_four_of_and_seven (hx : ¬ x &&& 0x7 ≠ 0) : x.toNat % 4 = 0 := by
  have h := congrArg BitVec.toNat (Decidable.not_not.1 hx)
  have h7 : (0x7 : Word).toNat = 2 ^ 3 - 1 := rfl
  have h0 : (0 : Word).toNat = 0 := rfl
  rw [BitVec.toNat_and, h7, Nat.and_two_pow_sub_one_eq_mod, h0] at h
  omega

end Four

/-! ## The next program counter -/

/-- The program counter and the next one are addresses of words. -/
def Aligned (r : Regs) : Prop := r.PC.toNat % 4 = 0 ∧ r.NPC.toNat % 4 = 0

section Counters
variable {p : Ports ε σ} {sys : Syscall O} {s s' : Machine σ O} {i : MdInst} {op : Opcode} {f : Fault}

theorem run_PC {code : Code α} {a : α} (hr : code.run (p.handler sys) s = .ok (a, s')) : s'.regs.PC = s.regs.PC := by
  refine run_keeps (P := fun _ => True) (I := fun t => t.regs.PC = s.regs.PC) ?_ code.only_true rfl hr
  intro o t a t' _ ht ho
  have hc : ¬ o.sets .PC := by cases o <;> simp [Macro.sets]
  exact (handler_frame ho hc).symm.trans ht

theorem run_NPC {code : Code α} {a : α} (hc : code.Only fun o => ¬ o.sets .NPC)
    (hr : code.run (p.handler sys) s = .ok (a, s')) : s'.regs.NPC = s.regs.NPC := by
  refine run_keeps (I := fun t => t.regs.NPC = s.regs.NPC) ?_ hc rfl hr
  intro o t a t' hn ht ho
  exact (handler_frame ho hn).symm.trans ht

end Counters

/-! ## Instructions that do not branch -/

/-- Code without `SET_NPC`. -/
def Straight (code : Code α) : Prop := code.Only fun o => ¬ o.sets .NPC

section Straight
variable {n : Nat} {v : Word} {ea : Code Addr}

theorem straight_return (a : α) : Straight (return a) := trivial

theorem Straight.bind {β : Type} {c : Code α} {f : α → Code β} (hc : Straight c) (hf : ∀ a, Straight (f a)) :
    Straight (c >>= f) := Prog.Only.bind hc hf

theorem straight_GPR : Straight (GPR n) := ⟨id, fun _ => trivial⟩

theorem straight_SET_GPR : Straight (SET_GPR n v) := by
  refine ⟨?_, fun _ => trivial⟩
  rintro ⟨m, -, h⟩
  cases h

theorem straight_FPR_L : Straight (FPR_L n) := ⟨id, fun _ => trivial⟩

theorem straight_SET_FPR_L : Straight (SET_FPR_L n v) := by
  refine ⟨?_, fun _ => trivial⟩
  rintro ⟨m, -, h⟩
  cases h

theorem straight_READ_WORD (a : Addr) : Straight (READ_WORD a) := by
  refine ⟨?_, fun _ => trivial⟩
  rintro ⟨⟩

theorem straight_WRITE_WORD (a : Addr) : Straight (WRITE_WORD v a) := by
  refine ⟨?_, fun _ => trivial⟩
  rintro ⟨⟩

theorem straight_FCC : Straight FCC := ⟨id, fun _ => trivial⟩

theorem straight_SYSCALL : Straight SYSCALL := by
  refine ⟨?_, fun _ => trivial⟩
  rintro (h | ⟨m, h⟩) <;> cases h

theorem straight_disp (i : MdInst) : Straight (disp i) := straight_GPR.bind fun _ => straight_return _

theorem straight_rr (i : MdInst) : Straight (rr i) :=
  straight_GPR.bind fun _ => straight_GPR.bind fun _ => straight_return _

theorem straight_next (hea : Straight ea) : Straight (next ea) := hea.bind fun _ => straight_return _

theorem straight_loadDouble {set : Nat → Word → Code Unit} (hea : Straight ea) (hset : ∀ n v, Straight (set n v)) :
    Straight (loadDouble ea n set) := by
  unfold loadDouble
  split
  · exact straight_return _
  · refine hea.bind fun a => (straight_READ_WORD a).bind fun r => ?_
    dsimp only
    split
    · exact straight_return _
    · refine (straight_next hea).bind fun a => (straight_READ_WORD a).bind fun r => ?_
      split
      · exact straight_return _
      · exact (hset _ _).bind fun _ => (hset _ _).bind fun _ => straight_return _

theorem straight_storePair {get : Nat → Code Word} (hea : Straight ea) (hget : ∀ n, Straight (get n)) :
    Straight (storePair ea n get) := by
  unfold storePair
  split
  · exact straight_return _
  · refine (hget _).bind fun v => hea.bind fun a => (straight_WRITE_WORD a).bind fun f => ?_
    split
    · exact straight_return _
    · exact (hget _).bind fun v => (straight_next hea).bind fun a => straight_WRITE_WORD a

theorem straight_undeclared (host : Host) (i : MdInst) {op : Opcode} (hop : op ∈ undeclared) :
    Straight (impl host i op) := by
  simp only [undeclared, List.mem_cons, List.not_mem_nil, or_false] at hop
  rcases hop with rfl | rfl | rfl | rfl | rfl | rfl | rfl | rfl | rfl
  · refine straight_GPR.bind fun _ => (straight_READ_WORD _).bind fun r => ?_
    dsimp only
    split
    · exact straight_return _
    · exact straight_GPR.bind fun _ => straight_SET_GPR.bind fun _ => straight_return _
  · refine straight_GPR.bind fun _ => (straight_READ_WORD _).bind fun r => ?_
    dsimp only
    split
    · exact straight_return _
    · exact straight_GPR.bind fun _ => straight_SET_GPR.bind fun _ => straight_return _
  · exact straight_loadDouble (straight_disp i) fun _ _ => straight_SET_GPR
  · exact straight_loadDouble (straight_rr i) fun _ _ => straight_SET_GPR
  · exact straight_storePair (straight_disp i) fun _ => straight_GPR
  · exact straight_storePair (straight_rr i) fun _ => straight_GPR
  · show Straight (ite _ _ _)
    split
    · exact straight_return _
    · exact straight_FPR_L.bind fun _ => straight_SET_GPR.bind fun _ => straight_FPR_L.bind fun _ =>
        straight_SET_GPR.bind fun _ => straight_return _
  · show Straight (ite _ _ _)
    split
    · exact straight_return _
    · exact straight_GPR.bind fun _ => straight_SET_FPR_L.bind fun _ => straight_GPR.bind fun _ =>
        straight_SET_FPR_L.bind fun _ => straight_return _
  · exact straight_SYSCALL.bind fun _ => straight_return _

end Straight

/-! ## Every instruction -/

section Aligned
variable {p : Ports ε σ} {sys : Syscall O} {host : Host} {s s' : Machine σ O} {i : MdInst} {op : Opcode} {f : Fault}

/-- An instruction that is not declared to branch leaves the next program counter alone. -/
theorem impl_NPC (hop : MD_OP_FLAGS op &&& F_CTRL = 0)
    (hr : (impl host i op).run (p.handler sys) s = .ok (f, s')) : s'.regs.NPC = s.regs.NPC := by
  by_cases hu : op ∈ undeclared
  · exact run_NPC (straight_undeclared host i hu) hr
  · have hw : ¬ (i.inst op).MayWrite .NPC := by
      rintro ((⟨k, hk⟩ | ⟨hc, -⟩ | ⟨-, h⟩) | h)
      · cases ho : (i.inst op).r_out k <;> rw [ho] at hk <;> exact hk
      · exact hc hop
      · cases h
      · cases h
    exact ((impl_within host i hu (D := fun _ => False)).frame handler_local hr hw).symm

/-- The target of a branch. -/
theorem branch_aligned {cond : Code Bool} (hcond : Straight cond) (h : Aligned s.regs)
    (hr : (branch i cond).run (p.handler sys) s = .ok (f, s')) : s'.regs.NPC.toNat % 4 = 0 := by
  unfold branch at hr
  rw [run_bind] at hr
  obtain ⟨⟨b, s₁⟩, hr₁, hr₂⟩ := bind_ok.1 hr
  have hpc : s₁.regs.PC = s.regs.PC := run_PC hr₁
  have hnpc : s₁.regs.NPC = s.regs.NPC := run_NPC hcond hr₁
  dsimp only at hr₂
  cases b with
  | false =>
    obtain ⟨-, rfl⟩ := Prod.mk.inj (Except.ok.inj hr₂)
    rw [hnpc]
    exact h.2
  | true =>
    obtain ⟨-, rfl⟩ := Prod.mk.inj (Except.ok.inj hr₂)
    show ((s₁.regs.PC + (8 : Word)) + (i.OFS <<< 2)).toNat % 4 = 0
    rw [hpc]
    exact add_mod_four (add_mod_four h.1 rfl) shiftLeft_two_mod_four

theorem jumpTarget_aligned (pc : Word) : ((pc &&& (0xf0000000 : Word)) ||| (i.TARG <<< 2)).toNat % 4 = 0 :=
  or_mod_four (and_mod_four rfl) shiftLeft_two_mod_four

theorem GPR_ok {n : Nat} {v : Word} (hr : (GPR n).run (p.handler sys) s = .ok (v, s')) :
    n < MD_NUM_IREGS ∧ v = s.regs.R n ∧ s' = s := by
  have ho : p.reg n MD_NUM_IREGS (s.regs.R n, s) = .ok (v, s') := (run_perform _ (Macro.GPR n) s).symm.trans hr
  obtain ⟨hn, he⟩ := reg_eq_ok.1 ho
  obtain ⟨rfl, rfl⟩ := Prod.mk.inj he
  exact ⟨hn, rfl, rfl⟩

theorem JR_aligned (h : Aligned s.regs) (hr : (JR_IMPL i).run (p.handler sys) s = .ok (f, s')) :
    s'.regs.NPC.toNat % 4 = 0 := by
  unfold JR_IMPL at hr
  rw [run_bind] at hr
  obtain ⟨⟨v, s₁⟩, hv, hr⟩ := bind_ok.1 hr
  obtain ⟨hn, rfl, rfl⟩ := GPR_ok hv
  dsimp only at hr
  split at hr
  case isTrue =>
    obtain ⟨-, rfl⟩ := Prod.mk.inj (Except.ok.inj hr)
    exact h.2
  case isFalse hv =>
    rw [run_GPR _ _ _ _ hn] at hr
    obtain ⟨-, rfl⟩ := Prod.mk.inj (Except.ok.inj hr)
    exact mod_four_of_and_seven hv

/-- `JALR` reads the target after it has written the link, which may be the same register. -/
theorem JALR_aligned (h : Aligned s.regs) (hr : (JALR_IMPL i).run (p.handler sys) s = .ok (f, s')) :
    s'.regs.NPC.toNat % 4 = 0 := by
  unfold JALR_IMPL at hr
  rw [run_bind] at hr
  obtain ⟨⟨v, s₁⟩, hv, hr⟩ := bind_ok.1 hr
  obtain ⟨hn, rfl, rfl⟩ := GPR_ok hv
  dsimp only at hr
  split at hr
  case isTrue =>
    obtain ⟨-, rfl⟩ := Prod.mk.inj (Except.ok.inj hr)
    exact h.2
  case isFalse hv =>
    rw [run_CPC, run_bind] at hr
    obtain ⟨⟨⟨⟩, s₂⟩, hset, hr⟩ := bind_ok.1 hr
    obtain ⟨hd, he⟩ := reg_eq_ok.1 ((run_perform _ (Macro.SET_GPR i.RD (s₁.regs.PC + 8)) s₁).symm.trans hset)
    obtain ⟨-, rfl⟩ := Prod.mk.inj he
    dsimp only at hr
    rw [run_GPR _ _ _ _ hn] at hr
    obtain ⟨-, rfl⟩ := Prod.mk.inj (Except.ok.inj hr)
    show ((s₁.regs.setR i.RD (s₁.regs.PC + 8)).R i.RS).toNat % 4 = 0
    by_cases hsd : i.RS = i.RD
    · rw [hsd, Regs.setR_self]
      exact add_mod_four h.1 rfl
    · rw [Regs.setR_ne _ hsd]
      exact mod_four_of_and_seven hv

theorem impl_aligned (h : Aligned s.regs) (hr : (impl host i op).run (p.handler sys) s = .ok (f, s')) :
    Aligned s'.regs := by
  refine ⟨by rw [run_PC hr]; exact h.1, ?_⟩
  by_cases hc : MD_OP_FLAGS op &&& F_CTRL = 0
  · rw [impl_NPC hc hr]
    exact h.2
  · cases op
    case JUMP =>
      obtain ⟨-, rfl⟩ := Prod.mk.inj (Except.ok.inj hr)
      exact jumpTarget_aligned _
    case JAL =>
      obtain ⟨-, rfl⟩ := Prod.mk.inj (Except.ok.inj hr)
      exact jumpTarget_aligned _
    case JR => exact JR_aligned h hr
    case JALR => exact JALR_aligned h hr
    case BEQ | BNE =>
      exact branch_aligned (straight_GPR.bind fun _ => straight_GPR.bind fun _ => straight_return _) h hr
    case BLEZ | BGTZ | BLTZ | BGEZ => exact branch_aligned (straight_GPR.bind fun _ => straight_return _) h hr
    case BC1F | BC1T => exact branch_aligned (straight_FCC.bind fun _ => straight_return _) h hr
    all_goals exact absurd rfl hc

end Aligned

/-! ## The memory under a run -/

section Memory
variable {m m' : Mem} {a : Addr} {n : Nat}

theorem of_ok {x : Except Bad α} {r : α} : Stop.of x = .ok r ↔ x = .ok r := by
  cases x with
  | error b =>
    constructor
    · intro h
      cases h
    · intro h
      cases h
  | ok a =>
    constructor
    · intro h
      exact congrArg Except.ok (Except.ok.inj h)
    · intro h
      exact congrArg Except.ok (Except.ok.inj h)

theorem mem_access_ok {cmd : Cmd} {q q' : Buffer} {nbytes : BitVec 32} {f : Fault} (h : m.Ok)
    (hr : m.mem_access cmd a q nbytes = .ok (f, q', m')) : m'.Ok := by
  obtain ⟨m₁, hm⟩ := Call.faithful (c := .access cmd a q nbytes) h trivial
  have hp : (Mem.mem_access cmd a q nbytes m).map Call.copyAnswer = .ok _ := hm.perform
  rw [hr] at hp
  obtain ⟨-, rfl⟩ := Prod.mk.inj (Except.ok.inj hp)
  exact hm.ok

/-- The memory's accesses keep its page table in order. -/
theorem memPorts_ok : memPorts.Mirrors memPorts some fun s t => s = t ∧ s.Ok where
  read := by
    rintro n addr m _ ⟨rfl, h⟩
    exact follows_self (fun _ _ => Option.some.inj) fun r hr => ⟨rfl, rfl, (Mem.MEM_READ_moved (of_ok.1 hr)).ok h⟩
  write := by
    rintro n addr v m _ ⟨rfl, h⟩
    refine follows_self (fun _ _ => Option.some.inj) fun m' hw => ⟨rfl, ?_⟩
    have hw' := of_ok.1 hw
    obtain ⟨m₁, hw₁, hok, -, -⟩ := Mem.MEM_WRITE_spec h (Mem.MEM_WRITE_in_page hw') v
    obtain rfl := Except.ok.inj (hw'.symm.trans hw₁)
    exact hok
  mem_fn := by
    rintro cmd addr q nbytes m _ ⟨rfl, h⟩
    exact follows_self (fun _ _ => Option.some.inj) fun r hr => ⟨rfl, rfl, rfl, mem_access_ok h (of_ok.1 hr)⟩
  sync := by
    rintro m _ h
    exact follows_ok h
  abort why err he := Option.some.inj he

/-- The two words of an instruction. -/
theorem MD_FETCH_INST_spec {PC : Word} (h : m.Ok) (ha : PC.toNat % 4 = 0) :
    ∃ m', MD_FETCH_INST PC m = .ok (⟨m.flat.read PC 4, m.flat.read (PC + 4) 4⟩, m') ∧ Mem.Moved m m' := by
  have hin {x : Word} (hx : x.toNat % 4 = 0) : MEM_OFFSET x + 4 ≤ MD_PAGE_SIZE := by
    have hsize : MD_PAGE_SIZE = 4096 := rfl
    rw [MEM_OFFSET_eq]
    omega
  obtain ⟨m₁, hr₁, hm₁⟩ := Mem.MEM_READ_spec h (hin ha)
  have h4 : (PC + 4).toNat % 4 = 0 := add_mod_four ha rfl
  obtain ⟨m₂, hr₂, hm₂⟩ := Mem.MEM_READ_spec (hm₁.ok h) (hin h4)
  rw [hm₁.flat h] at hr₂
  refine ⟨m₂, ?_, hm₁.trans hm₂⟩
  unfold MD_FETCH_INST Mem.MEM_READ_WORD
  rw [hr₁]
  show (m₁.MEM_READ 4 (PC + 4) >>= _) = _
  rw [hr₂]
  rfl

end Memory

/-! ## Whole runs -/

section Runs
variable {sys : Syscall O} {host : Host}

/-- What both simulators keep. -/
def Sound (s : State Mem O) : Prop := Aligned s.machine.regs ∧ s.machine.store.Ok

/-- A turn of a simulator over the memory itself. -/
theorem turn_sound {sim : Simulator Stop Mem} (hp : sim.toPorts = memPorts)
    (hfetch : ∀ PC m, sim.fetch PC m = Stop.of (MD_FETCH_INST PC m)) (s s' : State Mem O) (h : Sound s)
    (ht : sim.turn sys host s = .ok s') : Sound s' := by
  obtain ⟨inst, m, fault, m', refs, hf, hr, -, rfl⟩ := turn_eq_ok.1 ht
  obtain ⟨store, hs, rfl⟩ := fetched_eq_ok.1 hf
  obtain ⟨store', hs', hmoved⟩ := MD_FETCH_INST_spec h.2 h.1.1
  rw [hfetch, of_ok, hs'] at hs
  obtain ⟨-, rfl⟩ := Prod.mk.inj (Except.ok.inj hs)
  rw [hp] at hr
  have ha : Aligned m'.regs :=
    impl_aligned (s := { s.machine with regs := s.machine.regs.setR 0 0, store := store' }) h.1 hr
  obtain ⟨_, -, -, -, ⟨-, hok⟩, -⟩ := (memPorts_ok.run ⟨rfl, ⟨rfl, hmoved.ok h.2⟩, rfl⟩ _).of_ok hr
  exact ⟨⟨ha.2, add_mod_four ha.2 rfl⟩, hok⟩

/-- The next fetch reads the two words at the program counter, and changes nothing. -/
def Fetches (s : State Mem O) : Prop :=
  s.machine.regs.PC.toNat % 4 = 0 ∧
    ∃ store, MD_FETCH_INST s.machine.regs.PC s.machine.store = .ok
      (⟨s.machine.store.flat.read s.machine.regs.PC 4, s.machine.store.flat.read (s.machine.regs.PC + 4) 4⟩, store) ∧
    store.flat = s.machine.store.flat

theorem Sound.fetches {s : State Mem O} (h : Sound s) : Fetches s := by
  obtain ⟨store, hs, hm⟩ := MD_FETCH_INST_spec h.2 h.1.1
  exact ⟨h.1.1, store, hs, hm.flat h.2⟩

/-- From the address of a word on, wherever the program branches, no fetch of sim-safe or sim-fast fails: both words
of the instruction are read as they are in the memory. -/
theorem fetches_two_words (m : Machine Mem O) (hm : m.store.Ok) (hpc : m.regs.PC.toNat % 4 = 0) (sys : Syscall O)
    (host : Host) (max_insts fuel : Nat) (s : State Mem O) (b : Bool) :
    (safe.sim_main sys host max_insts fuel m = .ok (s, b) → Fetches s) ∧
      (fast.sim_main sys host max_insts fuel m = .ok (s, b) → Fetches s) := by
  have hstart : Sound ⟨{ m with regs := { m.regs with NPC := m.regs.PC + 8 } }, 0, 0⟩ :=
    ⟨⟨hpc, add_mod_four hpc rfl⟩, hm⟩
  constructor
  · intro hr
    exact (loop_keeps (turn_sound rfl fun _ _ => rfl) hstart hr).fetches
  · intro hr
    exact (loop_keeps (turn_sound rfl fun _ _ => rfl) hstart hr).fetches

/-- A jump to an address that is no multiple of 8. -/
theorem fetches_two_words_jump : ∃ answers m s,
    Call.run [.write 4 0x400000 2#32, .write 4 0x400004 0x100001#32] mem_init = .ok (answers, m) ∧
      safe.sim_main (fun os : Unit => .ret os) slowHost 0 1 ⟨{ regs_init with PC := 0x400000 }, m, ()⟩ =
        .ok (s, false) ∧ s.machine.regs.PC = 0x400004 ∧ Fetches s := by
  have hc : ∀ c ∈ [Call.write 4 0x400000 2#32, .write 4 0x400004 0x100001#32], c.InPage := by
    simp [Call.InPage, MEM_OFFSET, MD_PAGE_SIZE]
  obtain ⟨m, hr, hok, -, -⟩ := run_flat Mem.ok_init hc
  obtain ⟨-, rfl⟩ := Prod.mk.inj (Except.ok.inj hr)
  exact ⟨_, _, _, hr, rfl, rfl,
    (fetches_two_words ⟨{ regs_init with PC := 0x400000 }, _, ()⟩ hok rfl (fun os => .ret os) slowHost 0 1 _ _).1 rfl⟩

end Runs

end Sim
