import CompArch.Pisa.Machine
/-!
# Faults are precise

No access to the memory declares a fault, so the faults are those of the checks that
`pisa.def` makes itself. Each of them comes before the instruction changes anything.
-/

namespace Pisa

open Effects Memory

variable {α β : Type}

/-! ## Code that changes nothing, and code that declares nothing -/

def Quiet (code : Code α) : Prop :=
  ∀ ⦃ε σ O : Type⦄ (p : Ports ε σ) (sys : Syscall O) ⦃s s' : Machine σ O⦄ ⦃a : α⦄,
    code.run (p.handler sys) s = .ok (a, s') → s' = s

def Faultless (code : Impl) : Prop :=
  ∀ ⦃ε σ O : Type⦄ (p : Ports ε σ) (sys : Syscall O) ⦃s s' : Machine σ O⦄ ⦃f : Fault⦄,
    code.run (p.handler sys) s = .ok (f, s') → f = .none

/-- What declares a fault has changed nothing. -/
def Precise (code : Impl) : Prop :=
  ∀ ⦃ε σ O : Type⦄ (p : Ports ε σ) (sys : Syscall O) ⦃s s' : Machine σ O⦄ ⦃f : Fault⦄,
    code.run (p.handler sys) s = .ok (f, s') → f ≠ .none → s' = s

theorem quiet_return (a : α) : Quiet (return a) := by
  intro ε σ O p sys s s' b hr
  exact (Prod.mk.inj (Except.ok.inj hr)).2.symm

theorem quiet_GPR (n : Nat) : Quiet (GPR n) := by
  intro ε σ O p sys s s' v hr
  have ho : p.reg n MD_NUM_IREGS (s.regs.R n, s) = .ok (v, s') := (run_perform _ (Macro.GPR n) s).symm.trans hr
  exact (Prod.mk.inj (reg_eq_ok.1 ho).2).2.symm

theorem faultless_return : Faultless (return .none) := by
  intro ε σ O p sys s s' f hr
  exact (Prod.mk.inj (Except.ok.inj hr)).1.symm

theorem Faultless.bind {c : Code α} {f : α → Impl} (hf : ∀ a, Faultless (f a)) : Faultless (c >>= f) := by
  intro ε σ O p sys s s' b hr
  rw [run_bind] at hr
  obtain ⟨⟨a, s₁⟩, -, hr₂⟩ := Outcome.bind_ok.1 hr
  exact hf a p sys hr₂

theorem Faultless.precise {c : Impl} (hc : Faultless c) : Precise c := by
  intro ε σ O p sys s s' f hr hf
  exact absurd (hc p sys hr) hf

theorem Quiet.precise {c : Impl} (hc : Quiet c) : Precise c := by
  intro ε σ O p sys s s' f hr _
  exact hc p sys hr

theorem Precise.bind {c : Code α} {f : α → Impl} (hc : Quiet c) (hf : ∀ a, Precise (f a)) : Precise (c >>= f) := by
  intro ε σ O p sys s s' b hr hb
  rw [run_bind] at hr
  obtain ⟨⟨a, s₁⟩, hr₁, hr₂⟩ := Outcome.bind_ok.1 hr
  exact (hf a p sys hr₂ hb).trans (hc p sys hr₁)

/-- A check that comes before everything that declares no more. -/
theorem Precise.check {c : Prop} [Decidable c] {f : Fault} {code : Impl} (hc : Faultless code) :
    Precise (if c then return f else code) := by
  split
  · exact (quiet_return f).precise
  · exact hc.precise

/-! ## Accesses to the memory -/

section Accesses
variable {w : Nat}

/-- An access that declares no fault. -/
def FaultlessRead (read : Code (BitVec w × Fault)) : Prop :=
  ∀ ⦃ε σ O : Type⦄ (p : Ports ε σ) (sys : Syscall O) ⦃s s' : Machine σ O⦄ ⦃r : BitVec w × Fault⦄,
    read.run (p.handler sys) s = .ok (r, s') → r.2 = .none

theorem load_none {ε σ O : Type} {p : Ports ε σ} {n : Nat} {addr : Addr} {s s' : Machine σ O}
    {r : BitVec (8 * n) × Fault} (h : p.load n addr s = .ok (r, s')) : r.2 = .none := by
  obtain ⟨q, -, he⟩ := load_ok h
  obtain ⟨rfl, -⟩ := Prod.mk.inj he
  rfl

theorem save_none {ε σ O : Type} {p : Ports ε σ} {n : Nat} {v : BitVec (8 * n)} {addr : Addr} {s s' : Machine σ O}
    {f : Fault} (h : p.save n v addr s = .ok (f, s')) : f = .none := by
  obtain ⟨store, -, he⟩ := save_ok h
  exact (Prod.mk.inj he).1

theorem faultlessRead_READ_BYTE (addr : Addr) : FaultlessRead (READ_BYTE addr) := by
  intro ε σ O p sys s s' r hr
  exact load_none ((run_perform (p.handler sys) (Macro.READ_BYTE addr) s).symm.trans hr)

theorem faultlessRead_READ_HALF (addr : Addr) : FaultlessRead (READ_HALF addr) := by
  intro ε σ O p sys s s' r hr
  exact load_none ((run_perform (p.handler sys) (Macro.READ_HALF addr) s).symm.trans hr)

theorem faultlessRead_READ_WORD (addr : Addr) : FaultlessRead (READ_WORD addr) := by
  intro ε σ O p sys s s' r hr
  exact load_none ((run_perform (p.handler sys) (Macro.READ_WORD addr) s).symm.trans hr)

theorem faultless_WRITE_BYTE (v : BitVec 8) (addr : Addr) : Faultless (WRITE_BYTE v addr) := by
  intro ε σ O p sys s s' f hr
  exact save_none ((run_perform (p.handler sys) (Macro.WRITE_BYTE v addr) s).symm.trans hr)

theorem faultless_WRITE_HALF (v : BitVec 16) (addr : Addr) : Faultless (WRITE_HALF v addr) := by
  intro ε σ O p sys s s' f hr
  exact save_none ((run_perform (p.handler sys) (Macro.WRITE_HALF v addr) s).symm.trans hr)

theorem faultless_WRITE_WORD (v : Word) (addr : Addr) : Faultless (WRITE_WORD v addr) := by
  intro ε σ O p sys s s' f hr
  exact save_none ((run_perform (p.handler sys) (Macro.WRITE_WORD v addr) s).symm.trans hr)

/-- What follows a read gets no fault. -/
theorem FaultlessRead.faultless {read : Code (BitVec w × Fault)} (hread : FaultlessRead read)
    {f : BitVec w × Fault → Impl} (hf : ∀ v, Faultless (f (v, .none))) : Faultless (read >>= f) := by
  intro ε σ O p sys s s' b hr
  rw [run_bind] at hr
  obtain ⟨⟨⟨v, fault⟩, s₁⟩, hr₁, hr₂⟩ := Outcome.bind_ok.1 hr
  obtain rfl : fault = .none := hread p sys hr₁
  exact hf v p sys hr₂

/-- So it does after a write. -/
theorem Faultless.next {write : Impl} (hw : Faultless write) {f : Fault → Impl} (hf : Faultless (f .none)) :
    Faultless (write >>= f) := by
  intro ε σ O p sys s s' b hr
  rw [run_bind] at hr
  obtain ⟨⟨fault, s₁⟩, hr₁, hr₂⟩ := Outcome.bind_ok.1 hr
  obtain rfl : fault = .none := hw p sys hr₁
  exact hf p sys hr₂

end Accesses

/-! ## Families of instructions -/

section Families
variable (i : MdInst) {w n : Nat} {ea : Code Addr}

theorem faultless_branch (cond : Code Bool) : Faultless (branch i cond) := by
  refine Faultless.bind fun b => ?_
  split
  · exact Faultless.bind fun _ => Faultless.bind fun _ => faultless_return
  · exact faultless_return

theorem faultless_load {read : Addr → Code (BitVec w × Fault)} (hread : ∀ a, FaultlessRead (read a))
    (ext : BitVec w → Word) (set : Word → Code Unit) : Faultless (load ea read ext set) :=
  Faultless.bind fun a => (hread a).faultless fun _ => Faultless.bind fun _ => faultless_return

theorem precise_loadDouble (set : Nat → Word → Code Unit) : Precise (loadDouble ea n set) := by
  refine Precise.check ?_
  refine Faultless.bind fun a => (faultlessRead_READ_WORD a).faultless fun v => ?_
  refine Faultless.bind fun b => (faultlessRead_READ_WORD b).faultless fun w => ?_
  exact Faultless.bind fun _ => Faultless.bind fun _ => faultless_return

theorem faultless_store {write : BitVec w → Addr → Code Fault} (hw : ∀ v a, Faultless (write v a))
    (src : Code (BitVec w)) : Faultless (store ea write src) :=
  Faultless.bind fun v => Faultless.bind fun a => hw v a

theorem faultless_storeDouble (src src' : Code Word) : Faultless (storeDouble ea src src') :=
  Faultless.bind fun v => Faultless.bind fun a => (faultless_WRITE_WORD v a).next <|
    Faultless.bind fun v' => Faultless.bind fun a' => faultless_WRITE_WORD v' a'

theorem precise_storePair (get : Nat → Code Word) : Precise (storePair ea n get) :=
  Precise.check (faultless_storeDouble _ _)

theorem faultless_binary (rd : Nat) (x y : Code Word) (f : Word → Word → Word) : Faultless (binary rd x y f) :=
  Faultless.bind fun _ => Faultless.bind fun _ => Faultless.bind fun _ => faultless_return

theorem precise_checked {x y : Code Word} (hx : Quiet x) (hy : Quiet y) (overflows : Word → Word → Bool) (rd : Nat)
    (f : Word → Word → Word) : Precise (checked overflows rd x y f) :=
  Precise.bind hx fun _ => Precise.bind hy fun _ => Precise.check (faultless_binary rd x y f)

theorem faultless_srl (host : Host) : Faultless (srl i host n) := by
  unfold srl
  split
  · exact Faultless.bind fun _ => Faultless.bind fun _ => Faultless.bind fun _ => faultless_return
  · split
    · exact Faultless.bind fun _ => Faultless.bind fun _ => Faultless.bind fun _ => faultless_return
    · exact Faultless.bind fun _ => Faultless.bind fun _ => faultless_return

theorem faultless_sra (host : Host) : Faultless (sra i host n) := by
  unfold sra
  split
  · exact Faultless.bind fun _ => Faultless.bind fun _ => Faultless.bind fun _ => faultless_return
  · refine Faultless.bind fun _ => ?_
    split
    · exact Faultless.bind fun _ => Faultless.bind fun _ => Faultless.bind fun _ => faultless_return
    · exact Faultless.bind fun _ => Faultless.bind fun _ => Faultless.bind fun _ => faultless_return

theorem precise_evenFPR (ns : List Nat) (body : Code Unit) : Precise (evenFPR ns body) :=
  Precise.check (Faultless.bind fun _ => faultless_return)

end Families

/-- An instruction that declares a fault has changed nothing, in every simulator. -/
theorem impl_precise (host : Host) (i : MdInst) (op : Opcode) : Precise (impl host i op) := by
  cases op
  case NA =>
    intro ε σ O p sys s s' f hr
    cases hr
  case NOP | CFC1 | CTC1 => exact (quiet_return _).precise
  case BREAK => exact (quiet_return _).precise
  case JUMP => exact (Faultless.bind fun _ => Faultless.bind fun _ => faultless_return).precise
  case JAL =>
    exact (Faultless.bind fun _ => Faultless.bind fun _ => Faultless.bind fun _ => Faultless.bind fun _ =>
      faultless_return).precise
  case JR =>
    exact Precise.bind (quiet_GPR i.RS) fun _ =>
      Precise.check (Faultless.bind fun _ => Faultless.bind fun _ => faultless_return)
  case JALR =>
    exact Precise.bind (quiet_GPR i.RS) fun _ => Precise.check <| Faultless.bind fun _ => Faultless.bind fun _ =>
      Faultless.bind fun _ => Faultless.bind fun _ => faultless_return
  case BEQ | BNE | BLEZ | BGTZ | BLTZ | BGEZ | BC1F | BC1T => exact (faultless_branch i _).precise
  case LB | LBU | LB_RR | LBU_RR => exact (faultless_load faultlessRead_READ_BYTE _ _).precise
  case LH | LHU | LH_RR | LHU_RR => exact (faultless_load faultlessRead_READ_HALF _ _).precise
  case LW | L_S | LW_RR | L_S_RR | LW_RR_R2 | L_S_RR_R2 => exact (faultless_load faultlessRead_READ_WORD _ _).precise
  case DLW | L_D | DLW_RR | L_D_RR => exact precise_loadDouble _
  case LWL | LWR =>
    exact (Faultless.bind fun _ => (faultlessRead_READ_WORD _).faultless fun _ => Faultless.bind fun _ =>
      Faultless.bind fun _ => faultless_return).precise
  case SB | SB_RR => exact (faultless_store faultless_WRITE_BYTE _).precise
  case SH | SH_RR => exact (faultless_store faultless_WRITE_HALF _).precise
  case SW | S_S | SW_RR | S_S_RR | SW_RR_R2 | S_S_RR_R2 => exact (faultless_store faultless_WRITE_WORD _).precise
  case DSW | S_D | DSW_RR | S_D_RR => exact precise_storePair _
  case DSZ | DSZ_RR => exact (faultless_storeDouble _ _).precise
  case SWL | SWR =>
    exact (Faultless.bind fun _ => (faultlessRead_READ_WORD _).faultless fun _ => Faultless.bind fun _ =>
      faultless_WRITE_WORD _ _).precise
  case ADD | SUB => exact precise_checked (quiet_GPR _) (quiet_GPR _) _ _ _
  case ADDI => exact precise_checked (quiet_GPR _) (quiet_return _) _ _ _
  case ADDU | SUBU | AND_ | OR | XOR | NOR | SLT | SLTU | ADDIU | ANDI | ORI | XORI | SLTI | SLTIU =>
    exact (faultless_binary _ _ _ _).precise
  case MULT =>
    refine (Faultless.bind fun _ => Faultless.bind fun _ => Faultless.bind fun _ => Faultless.bind fun _ =>
      Faultless.bind fun _ => ?_).precise
    split
    · refine Faultless.bind fun _ => Faultless.bind fun _ => Faultless.bind fun _ => Faultless.bind fun _ =>
        Faultless.bind fun _ => ?_
      split
      · exact Faultless.bind fun _ => Faultless.bind fun _ => Faultless.bind fun _ => Faultless.bind fun _ =>
          faultless_return
      · exact Faultless.bind fun _ => Faultless.bind fun _ => faultless_return
    · exact faultless_return
  case MULTU =>
    exact (Faultless.bind fun _ => Faultless.bind fun _ => Faultless.bind fun _ => faultless_return).precise
  case DIV =>
    refine Precise.bind (quiet_GPR i.RT) fun _ => Precise.check ?_
    refine Faultless.bind fun _ => Faultless.bind fun _ => ?_
    split
    · exact Faultless.bind fun _ => Faultless.bind fun _ => Faultless.bind fun _ => Faultless.bind fun _ =>
        Faultless.bind fun _ => Faultless.bind fun _ => Faultless.bind fun _ => faultless_return
    · exact Faultless.bind fun _ => Faultless.bind fun _ => Faultless.bind fun _ => Faultless.bind fun _ =>
        Faultless.bind fun _ => Faultless.bind fun _ => faultless_return
  case DIVU =>
    exact Precise.bind (quiet_GPR i.RT) fun _ => Precise.check <| Faultless.bind fun _ => Faultless.bind fun _ =>
      Faultless.bind fun _ => Faultless.bind fun _ => Faultless.bind fun _ => Faultless.bind fun _ => faultless_return
  case MFHI | MTHI | MFLO | MTLO | MFC1 | MTC1 =>
    exact (Faultless.bind fun _ => Faultless.bind fun _ => faultless_return).precise
  case SLL | SLLV =>
    exact (Faultless.bind fun _ => Faultless.bind fun _ => Faultless.bind fun _ => faultless_return).precise
  case SRL => exact (faultless_srl i host).precise
  case SRLV => exact (Faultless.bind fun _ => faultless_srl i host).precise
  case SRA => exact (faultless_sra i host).precise
  case SRAV => exact (Faultless.bind fun _ => faultless_sra i host).precise
  case FADD_S | FADD_D | FSUB_S | FSUB_D | FMUL_S | FMUL_D | FDIV_S | FDIV_D | FABS_S | FABS_D | FMOV_S | FMOV_D |
      FNEG_S | FNEG_D | CVT_S_D | CVT_S_W | CVT_D_S | CVT_D_W | CVT_W_S | CVT_W_D | C_EQ_S | C_EQ_D | C_LT_S | C_LT_D |
      C_LE_S | C_LE_D | FSQRT_S | FSQRT_D =>
    exact precise_evenFPR _ _
  case SYSCALL => exact (Faultless.bind fun _ => faultless_return).precise
  case LUI => exact (Faultless.bind fun _ => faultless_return).precise
  case DMFC1 | DMTC1 =>
    exact Precise.check (Faultless.bind fun _ => Faultless.bind fun _ => Faultless.bind fun _ => Faultless.bind fun _ =>
      faultless_return)

end Pisa
