import CompArch.Pisa.Footprints
import CompArch.Pisa.Integer
/-!
# What the declared dependences promise (`target-pisa/pisa.def`)

The simulators schedule instructions by the input and output registers that
`pisa.def` declares. Here the declarations are compared with the expressions of the
instructions. A floating point operand names a pair of registers.
-/

namespace Pisa

open Effects Function Memory

variable {ε σ O α : Type}

/-! ## Declarations -/

/-- The five bits of a field that number a register. -/
def field (n : Nat) : Fin 32 := ⟨n % 32, Nat.mod_lt _ (by decide)⟩

/-- What the simulators declare of an instruction word. -/
def MdInst.inst (i : MdInst) (op : Opcode) : Inst := ⟨op, field i.RS, field i.RT, field i.RD⟩

/-- The cells a dependence designator stands for. -/
def Operand.Names : Operand → Cell → Prop
  | some r, .GPR n => r.val = n.val
  | some r, .FPR n => r.val = (n.val + 32) / 2 * 2
  | some r, .HI => some r = DHI
  | some r, .LO => some r = DLO
  | some r, .FCC => some r = DFCC
  | _, _ => False

instance Operand.decNames : (o : Operand) → (c : Cell) → Decidable (o.Names c)
  | some r, .GPR n => inferInstanceAs (Decidable (r.val = n.val))
  | some r, .FPR n => inferInstanceAs (Decidable (r.val = (n.val + 32) / 2 * 2))
  | some r, .HI => inferInstanceAs (Decidable (some r = DHI))
  | some r, .LO => inferInstanceAs (Decidable (some r = DLO))
  | some r, .FCC => inferInstanceAs (Decidable (some r = DFCC))
  | some _, .PC | some _, .NPC | some _, .mem => .isFalse id
  | none, .GPR _ | none, .FPR _ | none, .HI | none, .LO | none, .FCC | none, .PC | none, .NPC | none, .mem =>
    .isFalse id

namespace Inst

variable (j : Inst) (c : Cell)

/-- What an instruction may read: its inputs, and what its flags tell. -/
def Reads : Prop :=
  (∃ k, (j.r_in k).Names c) ∨ (MD_OP_FLAGS j.op &&& F_CTRL ≠ 0 ∧ c = .PC) ∨
    (MD_OP_FLAGS j.op &&& F_MEM ≠ 0 ∧ c = .mem)

/-- What it may write. -/
def Writes : Prop :=
  (∃ k, (j.r_out k).Names c) ∨ (MD_OP_FLAGS j.op &&& F_CTRL ≠ 0 ∧ c = .NPC) ∨
    (MD_OP_FLAGS j.op &&& F_MEM ≠ 0 ∧ c = .mem)

/-- Register 0 may be read and written without a declaration: it is cleared before every instruction. -/
def MayRead : Prop := j.Reads c ∨ c = .GPR 0
def MayWrite : Prop := j.Writes c ∨ c = .GPR 0

/-- What the result of an instruction may depend on. -/
def Needs : Prop := j.Reads c ∧ c ≠ .GPR 0

instance : Decidable (j.Reads c) := by unfold Reads; infer_instance
instance : Decidable (j.Writes c) := by unfold Writes; infer_instance
instance : Decidable (j.MayWrite c) := by unfold MayWrite; infer_instance
instance : Decidable (j.Needs c) := by unfold Needs; infer_instance

end Inst

/-- The opcodes whose declarations leave out a register: `LWL` and `LWR` read `RT`, and those with a double word in
general registers access `RT + 1`. `SYSCALL` declares nothing. -/
def undeclared : List Opcode := [.LWL, .LWR, .DLW, .DLW_RR, .DSW, .DSW_RR, .DMFC1, .DMTC1, .SYSCALL]

section Declared
variable {j : Inst} {n : Nat}

theorem names_GPR {m : Fin 32} (hm : m = n) : (DGPR (field n)).Names (.GPR m) := by
  show n % 32 = m.val
  omega

theorem names_FPR {m : Fin 32} (hm : m.val / 2 = n / 2) : (DFPR_L (field n)).Names (.FPR m) := by
  show (n % 32 + 32) / 2 * 2 = (m.val + 32) / 2 * 2
  omega

theorem in_GPR (k : Fin 3) (hk : j.r_in k = DGPR (field n)) : May j.MayRead .GPR n := fun _ hm =>
  .inl (.inl ⟨k, by rw [hk]; exact names_GPR hm⟩)

theorem out_GPR (k : Fin 2) (hk : j.r_out k = DGPR (field n)) : May j.MayWrite .GPR n := fun _ hm =>
  .inl (.inl ⟨k, by rw [hk]; exact names_GPR hm⟩)

theorem in_FPR (k : Fin 3) (hk : j.r_in k = DFPR_L (field n)) : Both j.MayRead n := fun _ hm =>
  .inl (.inl ⟨k, by rw [hk]; exact names_FPR hm⟩)

theorem out_FPR (k : Fin 2) (hk : j.r_out k = DFPR_L (field n)) : Both j.MayWrite n := fun _ hm =>
  .inl (.inl ⟨k, by rw [hk]; exact names_FPR hm⟩)

theorem out_HI (k : Fin 2) (hk : j.r_out k = DHI) : j.MayWrite .HI := .inl (.inl ⟨k, by rw [hk]; rfl⟩)
theorem out_LO (k : Fin 2) (hk : j.r_out k = DLO) : j.MayWrite .LO := .inl (.inl ⟨k, by rw [hk]; rfl⟩)

theorem may_zero : May j.MayRead .GPR 0 := fun m hm => .inr (by rw [Fin.ext (a := m) (b := 0) hm])

variable {i : MdInst} {op : Opcode}

theorem in_PC (h : MD_OP_FLAGS op &&& F_CTRL ≠ 0) : (i.inst op).MayRead .PC := .inl (.inr (.inl ⟨h, rfl⟩))
theorem out_NPC (h : MD_OP_FLAGS op &&& F_CTRL ≠ 0) : (i.inst op).MayWrite .NPC := .inl (.inr (.inl ⟨h, rfl⟩))
theorem in_mem (h : MD_OP_FLAGS op &&& F_MEM ≠ 0) : (i.inst op).MayRead .mem := .inl (.inr (.inr ⟨h, rfl⟩))
theorem out_mem (h : MD_OP_FLAGS op &&& F_MEM ≠ 0) : (i.inst op).MayWrite .mem := .inl (.inr (.inr ⟨h, rfl⟩))

end Declared

variable (host : Host) (i : MdInst) {op : Opcode}

/-- An expression keeps within its declarations. -/
theorem impl_within (hop : op ∉ undeclared) {D : Cell → Prop} :
    (impl host i op).Within access (i.inst op).MayRead (i.inst op).MayWrite D := by
  cases op
  case NA => exact within_abort
  case NOP | BREAK | CFC1 | CTC1 => exact within_return _
  case LWL | LWR | DLW | DLW_RR | DSW | DSW_RR | DMFC1 | DMTC1 | SYSCALL => exact absurd (by decide) hop
  case JUMP =>
    exact (within_jumpTarget (in_PC (by decide))).bind fun _ => (within_SET_NPC (out_NPC (by decide))).bind fun _ =>
      within_return _
  case JAL =>
    exact (within_jumpTarget (in_PC (by decide))).bind fun _ => (within_SET_NPC (out_NPC (by decide))).bind fun _ =>
      (within_CPC (in_PC (by decide))).bind fun _ => (within_SET_GPR (out_GPR 0 rfl)).bind fun _ => within_return _
  case JR =>
    have hs : (GPR i.RS).Within access (i.inst .JR).MayRead (i.inst .JR).MayWrite D := within_GPR (in_GPR 0 rfl).left
    refine hs.bind fun _ => ?_
    split
    · exact within_return _
    · exact hs.bind fun _ => (within_SET_NPC (out_NPC (by decide))).bind fun _ => within_return _
  case JALR =>
    have hs : (GPR i.RS).Within access (i.inst .JALR).MayRead (i.inst .JALR).MayWrite D :=
      within_GPR (in_GPR 0 rfl).left
    refine hs.bind fun _ => ?_
    split
    · exact within_return _
    · exact (within_CPC (in_PC (by decide))).bind fun _ => (within_SET_GPR (out_GPR 0 rfl)).bind fun _ =>
        hs.bind fun _ => (within_SET_NPC (out_NPC (by decide))).bind fun _ => within_return _
  case BEQ | BNE =>
    exact within_branch ((within_GPR (in_GPR 0 rfl).left).bind fun _ => (within_GPR (in_GPR 1 rfl).left).bind fun _ =>
      within_return _) (in_PC (by decide)) (out_NPC (by decide))
  case BLEZ | BGTZ | BLTZ | BGEZ =>
    exact within_branch ((within_GPR (in_GPR 0 rfl).left).bind fun _ => within_return _) (in_PC (by decide))
      (out_NPC (by decide))
  case BC1F | BC1T =>
    exact within_branch ((within_FCC (.inl (.inl ⟨0, rfl⟩))).bind fun _ => within_return _) (in_PC (by decide))
      (out_NPC (by decide))
  case LB | LBU =>
    exact within_load (within_disp (in_GPR 1 rfl))
      (fun _ => within_READ_BYTE (in_mem (by decide)) (out_mem (by decide))) fun _ => within_SET_GPR (out_GPR 0 rfl)
  case LH | LHU =>
    exact within_load (within_disp (in_GPR 1 rfl))
      (fun _ => within_READ_HALF (in_mem (by decide)) (out_mem (by decide))) fun _ => within_SET_GPR (out_GPR 0 rfl)
  case LW =>
    exact within_load (within_disp (in_GPR 1 rfl))
      (fun _ => within_READ_WORD (in_mem (by decide)) (out_mem (by decide))) fun _ => within_SET_GPR (out_GPR 0 rfl)
  case L_S =>
    exact within_load (within_disp (in_GPR 1 rfl))
      (fun _ => within_READ_WORD (in_mem (by decide)) (out_mem (by decide)))
      fun _ => within_SET_FPR_L (out_FPR 0 rfl).may
  case LB_RR | LBU_RR =>
    exact within_load (within_rr (in_GPR 1 rfl) (in_GPR 2 rfl))
      (fun _ => within_READ_BYTE (in_mem (by decide)) (out_mem (by decide))) fun _ => within_SET_GPR (out_GPR 0 rfl)
  case LH_RR | LHU_RR =>
    exact within_load (within_rr (in_GPR 1 rfl) (in_GPR 2 rfl))
      (fun _ => within_READ_HALF (in_mem (by decide)) (out_mem (by decide))) fun _ => within_SET_GPR (out_GPR 0 rfl)
  case LW_RR =>
    exact within_load (within_rr (in_GPR 1 rfl) (in_GPR 2 rfl))
      (fun _ => within_READ_WORD (in_mem (by decide)) (out_mem (by decide))) fun _ => within_SET_GPR (out_GPR 0 rfl)
  case LW_RR_R2 =>
    exact within_load (within_next (within_rr (in_GPR 1 rfl) (in_GPR 2 rfl)))
      (fun _ => within_READ_WORD (in_mem (by decide)) (out_mem (by decide))) fun _ => within_SET_GPR (out_GPR 0 rfl)
  case L_S_RR =>
    exact within_load (within_rr (in_GPR 1 rfl) (in_GPR 2 rfl))
      (fun _ => within_READ_WORD (in_mem (by decide)) (out_mem (by decide)))
      fun _ => within_SET_FPR_L (out_FPR 0 rfl).may
  case L_S_RR_R2 =>
    exact within_load (within_next (within_rr (in_GPR 1 rfl) (in_GPR 2 rfl)))
      (fun _ => within_READ_WORD (in_mem (by decide)) (out_mem (by decide)))
      fun _ => within_SET_FPR_L (out_FPR 0 rfl).may
  case L_D =>
    exact within_loadDouble (in_mem (by decide)) (out_mem (by decide)) (within_disp (in_GPR 1 rfl))
      (fun _ => within_SET_FPR_L (out_FPR 0 rfl).may) fun heven _ => within_SET_FPR_L ((out_FPR 0 rfl).next heven)
  case L_D_RR =>
    exact within_loadDouble (in_mem (by decide)) (out_mem (by decide)) (within_rr (in_GPR 1 rfl) (in_GPR 2 rfl))
      (fun _ => within_SET_FPR_L (out_FPR 0 rfl).may) fun heven _ => within_SET_FPR_L ((out_FPR 0 rfl).next heven)
  case SB =>
    exact within_store (within_disp (in_GPR 1 rfl))
      (fun _ _ => within_WRITE_BYTE (in_mem (by decide)) (out_mem (by decide)))
      ((within_GPR (in_GPR 0 rfl).left).bind fun _ => within_return _)
  case SH =>
    exact within_store (within_disp (in_GPR 1 rfl))
      (fun _ _ => within_WRITE_HALF (in_mem (by decide)) (out_mem (by decide)))
      ((within_GPR (in_GPR 0 rfl).left).bind fun _ => within_return _)
  case SW =>
    exact within_store (within_disp (in_GPR 1 rfl))
      (fun _ _ => within_WRITE_WORD (in_mem (by decide)) (out_mem (by decide)))
      (within_GPR (in_GPR 0 rfl).left)
  case S_S =>
    exact within_store (within_disp (in_GPR 1 rfl))
      (fun _ _ => within_WRITE_WORD (in_mem (by decide)) (out_mem (by decide)))
      (within_FPR_L (in_FPR 0 rfl).may)
  case SB_RR =>
    exact within_store (within_rr (in_GPR 1 rfl) (in_GPR 2 rfl))
      (fun _ _ => within_WRITE_BYTE (in_mem (by decide)) (out_mem (by decide)))
      ((within_GPR (in_GPR 0 rfl).left).bind fun _ => within_return _)
  case SH_RR =>
    exact within_store (within_rr (in_GPR 1 rfl) (in_GPR 2 rfl))
      (fun _ _ => within_WRITE_HALF (in_mem (by decide)) (out_mem (by decide)))
      ((within_GPR (in_GPR 0 rfl).left).bind fun _ => within_return _)
  case SW_RR =>
    exact within_store (within_rr (in_GPR 1 rfl) (in_GPR 2 rfl))
      (fun _ _ => within_WRITE_WORD (in_mem (by decide)) (out_mem (by decide))) (within_GPR (in_GPR 0 rfl).left)
  case SW_RR_R2 =>
    exact within_store (within_next (within_rr (in_GPR 1 rfl) (in_GPR 2 rfl)))
      (fun _ _ => within_WRITE_WORD (in_mem (by decide)) (out_mem (by decide))) (within_GPR (in_GPR 0 rfl).left)
  case S_S_RR =>
    exact within_store (within_rr (in_GPR 1 rfl) (in_GPR 2 rfl))
      (fun _ _ => within_WRITE_WORD (in_mem (by decide)) (out_mem (by decide))) (within_FPR_L (in_FPR 0 rfl).may)
  case S_S_RR_R2 =>
    exact within_store (within_next (within_rr (in_GPR 1 rfl) (in_GPR 2 rfl)))
      (fun _ _ => within_WRITE_WORD (in_mem (by decide)) (out_mem (by decide))) (within_FPR_L (in_FPR 0 rfl).may)
  case S_D =>
    exact within_storePair (in_mem (by decide)) (out_mem (by decide)) (within_disp (in_GPR 1 rfl))
      (within_FPR_L (in_FPR 0 rfl).may) fun heven => within_FPR_L ((in_FPR 0 rfl).next heven)
  case S_D_RR =>
    exact within_storePair (in_mem (by decide)) (out_mem (by decide)) (within_rr (in_GPR 1 rfl) (in_GPR 2 rfl))
      (within_FPR_L (in_FPR 0 rfl).may) fun heven => within_FPR_L ((in_FPR 0 rfl).next heven)
  case DSZ =>
    exact within_storeDouble (in_mem (by decide)) (out_mem (by decide)) (within_disp (in_GPR 1 rfl))
      (within_GPR may_zero.left) (within_GPR may_zero.left)
  case DSZ_RR =>
    exact within_storeDouble (in_mem (by decide)) (out_mem (by decide)) (within_rr (in_GPR 1 rfl) (in_GPR 2 rfl))
      (within_GPR may_zero.left) (within_GPR may_zero.left)
  case SWL =>
    exact within_SWL (in_mem (by decide)) (out_mem (by decide)) (in_GPR 1 rfl) (in_GPR 0 rfl)
  case SWR =>
    exact within_SWR (in_mem (by decide)) (out_mem (by decide)) (in_GPR 1 rfl) (in_GPR 0 rfl)
  case ADD | SUB =>
    exact within_checked (out_GPR 0 rfl) (within_GPR (in_GPR 0 rfl).left) (within_GPR (in_GPR 1 rfl).left)
  case ADDI => exact within_checked (out_GPR 0 rfl) (within_GPR (in_GPR 0 rfl).left) (within_return _)
  case ADDU | SUBU | AND_ | OR | XOR | NOR | SLT | SLTU =>
    exact within_binary (out_GPR 0 rfl) (within_GPR (in_GPR 0 rfl).left) (within_GPR (in_GPR 1 rfl).left)
  case ADDIU | ANDI | ORI | XORI | SLTI | SLTIU =>
    exact within_binary (out_GPR 0 rfl) (within_GPR (in_GPR 0 rfl).left) (within_return _)
  case MULT => exact within_MULT (in_GPR 1 rfl) (in_GPR 0 rfl) (out_HI 0 rfl) (out_LO 1 rfl)
  case MULTU => exact within_MULTU (in_GPR 1 rfl) (in_GPR 0 rfl) (out_HI 0 rfl) (out_LO 1 rfl)
  case DIV => exact within_DIV (in_GPR 1 rfl) (in_GPR 0 rfl) (out_HI 0 rfl) (out_LO 1 rfl)
  case DIVU => exact within_DIVU (in_GPR 1 rfl) (in_GPR 0 rfl) (out_HI 0 rfl) (out_LO 1 rfl)
  case MFHI =>
    exact (within_HI (.inl (.inl (.inl ⟨0, rfl⟩)))).bind fun _ => (within_SET_GPR (out_GPR 0 rfl)).bind fun _ =>
      within_return _
  case MTHI =>
    exact (within_GPR (in_GPR 0 rfl).left).bind fun _ => (within_SET_HI (out_HI 0 rfl)).bind fun _ => within_return _
  case MFLO =>
    exact (within_LO (.inl (.inl (.inl ⟨0, rfl⟩)))).bind fun _ => (within_SET_GPR (out_GPR 0 rfl)).bind fun _ =>
      within_return _
  case MTLO =>
    exact (within_GPR (in_GPR 0 rfl).left).bind fun _ => (within_SET_LO (out_LO 0 rfl)).bind fun _ => within_return _
  case SLL =>
    exact within_shiftable.bind fun _ => (within_GPR (in_GPR 0 rfl).left).bind fun _ =>
      (within_SET_GPR (out_GPR 0 rfl)).bind fun _ => within_return _
  case SLLV =>
    exact (within_GPR (in_GPR 0 rfl).left).bind fun _ => (within_shamtV (in_GPR 1 rfl)).bind fun _ =>
      (within_SET_GPR (out_GPR 0 rfl)).bind fun _ => within_return _
  case SRL => exact within_srl (in_GPR 0 rfl) (out_GPR 0 rfl)
  case SRLV => exact (within_shamtV (in_GPR 1 rfl)).bind fun _ => within_srl (in_GPR 0 rfl) (out_GPR 0 rfl)
  case SRA => exact within_sra (in_GPR 0 rfl) (out_GPR 0 rfl)
  case SRAV => exact (within_shamtV (in_GPR 1 rfl)).bind fun _ => within_sra (in_GPR 0 rfl) (out_GPR 0 rfl)
  case FADD_S | FSUB_S | FMUL_S | FDIV_S =>
    exact within_evenFPR ((within_FPR_L (in_FPR 0 rfl).may).bind fun _ =>
      (within_FPR_L (in_FPR 1 rfl).may).bind fun _ => within_SET_FPR_L (out_FPR 0 rfl).may)
  case FADD_D | FSUB_D | FMUL_D | FDIV_D =>
    exact within_evenFPR ((within_FPR_D (in_FPR 0 rfl)).bind fun _ => (within_FPR_D (in_FPR 1 rfl)).bind fun _ =>
      within_SET_FPR_D (out_FPR 0 rfl))
  case FABS_S | FMOV_S | FNEG_S | FSQRT_S | CVT_S_W | CVT_W_S =>
    exact within_evenFPR ((within_FPR_L (in_FPR 0 rfl).may).bind fun _ => within_SET_FPR_L (out_FPR 0 rfl).may)
  case FABS_D | FMOV_D | FNEG_D | FSQRT_D =>
    exact within_evenFPR ((within_FPR_D (in_FPR 0 rfl)).bind fun _ => within_SET_FPR_D (out_FPR 0 rfl))
  case CVT_S_D | CVT_W_D =>
    exact within_evenFPR ((within_FPR_D (in_FPR 0 rfl)).bind fun _ => within_SET_FPR_L (out_FPR 0 rfl).may)
  case CVT_D_S | CVT_D_W =>
    exact within_evenFPR ((within_FPR_L (in_FPR 0 rfl).may).bind fun _ => within_SET_FPR_D (out_FPR 0 rfl))
  case C_EQ_S | C_LT_S | C_LE_S =>
    exact within_evenFPR ((within_FPR_L (in_FPR 0 rfl).may).bind fun _ =>
      (within_FPR_L (in_FPR 1 rfl).may).bind fun _ => within_SET_FCC (.inl (.inl ⟨0, rfl⟩)))
  case C_EQ_D | C_LT_D | C_LE_D =>
    exact within_evenFPR ((within_FPR_D (in_FPR 0 rfl)).bind fun _ => (within_FPR_D (in_FPR 1 rfl)).bind fun _ =>
      within_SET_FCC (.inl (.inl ⟨0, rfl⟩)))
  case LUI => exact (within_SET_GPR (out_GPR 0 rfl)).bind fun _ => within_return _
  case MFC1 =>
    exact (within_FPR_L (in_FPR 0 rfl).may).bind fun _ => (within_SET_GPR (out_GPR 0 rfl)).bind fun _ => within_return _
  case MTC1 =>
    exact (within_GPR (in_GPR 0 rfl).left).bind fun _ => (within_SET_FPR_L (out_FPR 0 rfl).may).bind fun _ =>
      within_return _

/-- What the simulators' loops do with an instruction: `$r0` is cleared before it. -/
def step (op : Opcode) : Impl := do
  SET_GPR 0 0
  impl host i op

theorem step_within (hop : op ∉ undeclared) :
    (step host i op).Within access (i.inst op).Needs (i.inst op).MayWrite fun _ => False := by
  refine ⟨fun _ => False.elim, ?_, fun _ => (impl_within host i hop).mono (D := fun _ => False) fun c hc => ?_⟩
  · rintro _ ⟨m, hm, rfl⟩
    exact .inr (by rw [Fin.ext (a := m) (b := 0) hm])
  · rcases hc with (hr | rfl) | hc
    · by_cases h0 : c = .GPR 0
      · exact .inr (.inr ⟨0, rfl, h0⟩)
      · exact .inl ⟨hr, h0⟩
    · exact .inr (.inr ⟨0, rfl, rfl⟩)
    · exact hc.elim

/-- The declarations of an opcode are complete, in every simulator: an instruction changes only what it may write,
and how it does depends only on what it may read. -/
structure Declares (op : Opcode) : Prop where
  frame {ε σ O : Type} (p : Ports ε σ) (sys : Syscall O) (host : Host) (i : MdInst) {s s' : Machine σ O} {f : Fault} :
    (step host i op).run (p.handler sys) s = .ok (f, s') → ∀ c, ¬ (i.inst op).MayWrite c → c.Same s s'
  same {ε σ O : Type} (p : Ports ε σ) (sys : Syscall O) (host : Host) (i : MdInst) {s s' t : Machine σ O} {f : Fault} :
    (∀ c, (i.inst op).Needs c → c.Same s t) → (step host i op).run (p.handler sys) s = .ok (f, s') →
    ∃ t', (step host i op).run (p.handler sys) t = .ok (f, t') ∧ ∀ c : Cell, c.Same s' t' ∨ c.Same s s' ∧ c.Same t t'

theorem declares_of_not_mem (hop : op ∉ undeclared) : Declares op where
  frame _ _ host i _ _ _ hr _ hc := (step_within host i hop).frame handler_local hr hc
  same _ _ host i _ _ _ _ hst hr :=
    (step_within host i hop).same handler_local (fun c hc => hst c (hc.resolve_right id)) hr

section Undeclared
variable (sys : Syscall Unit) (r : Regs) {s' t' : Machine Mem Unit} {f f' : Fault} {c : Cell}

/-- An instruction that changes a register it does not declare. -/
theorem not_declares_of_write (hr : (step slowHost i op).run (memPorts.handler sys) ⟨r, mem_init, ()⟩ = .ok (f, s'))
    (hc : ¬ (i.inst op).MayWrite c) (hne : ¬ c.Same ⟨r, mem_init, ()⟩ s') : ¬ Declares op := fun hd =>
  hne (hd.frame memPorts sys slowHost i hr c hc)

/-- An instruction whose changes differ with a register it does not declare. -/
theorem not_declares_of_read {m : Fin 32} {v w : Word} (hm : ¬ (i.inst op).Needs (.GPR m))
    (hs : (step slowHost i op).run (memPorts.handler sys) ⟨r.setR m v, mem_init, ()⟩ = .ok (f, s'))
    (ht : (step slowHost i op).run (memPorts.handler sys) ⟨r.setR m w, mem_init, ()⟩ = .ok (f', t'))
    (hne : ¬ c.Same s' t') (hch : ¬ c.Same ⟨r.setR m v, mem_init, ()⟩ s') : ¬ Declares op := by
  intro hd
  have hst (b : Cell) (hb : (i.inst op).Needs b) :
      b.Same (⟨r.setR m v, mem_init, ()⟩ : Machine Mem Unit) ⟨r.setR m w, mem_init, ()⟩ := by
    cases b with
    | GPR n =>
      have hnm : n ≠ m := fun h => hm (h ▸ hb)
      exact (Regs.setR_ne r (Fin.val_ne_of_ne hnm) v).trans (Regs.setR_ne r (Fin.val_ne_of_ne hnm) w).symm
    | mem => exact ⟨rfl, rfl⟩
    | _ => rfl
  obtain ⟨t'', ht'', hsame⟩ := hd.same memPorts sys slowHost i hst hs
  obtain ⟨-, rfl⟩ := Prod.mk.inj (Except.ok.inj (ht.symm.trans ht''))
  exact (hsame c).elim hne fun h => hch h.1

theorem not_declares (hop : op ∈ undeclared) : ¬ Declares op := by
  simp only [undeclared, List.mem_cons, List.not_mem_nil, or_false] at hop
  rcases hop with rfl | rfl | rfl | rfl | rfl | rfl | rfl | rfl | rfl
  · refine not_declares_of_read ⟨0x2c, 0x00020000⟩ (fun os => .ret os) regs_init (m := 2) (v := 0xff000000)
      (w := 0xff000001) (c := .GPR 2) (by decide) rfl rfl ?_ ?_
    · exact fun h => absurd (show (0 : Word) = 1 from h) (by decide)
    · exact fun h => absurd (show (0xff000000 : Word) = 0 from h) (by decide)
  · refine not_declares_of_read ⟨0x2d, 0x00020003⟩ (fun os => .ret os) regs_init (m := 2) (v := 0x0ff)
      (w := 0x1ff) (c := .GPR 2) (by decide) rfl rfl ?_ ?_
    · exact fun h => absurd (show (0 : Word) = 0x100 from h) (by decide)
    · exact fun h => absurd (show (0xff : Word) = 0 from h) (by decide)
  · refine not_declares_of_write ⟨0x29, 0x00020000⟩ (fun os => .ret os) (regs_init.setR 3 1) (c := .GPR 3)
      rfl (by decide) ?_
    exact fun h => absurd (show (1 : Word) = 0 from h) (by decide)
  · refine not_declares_of_write ⟨0xce, 0x00020000⟩ (fun os => .ret os) (regs_init.setR 3 1) (c := .GPR 3)
      rfl (by decide) ?_
    exact fun h => absurd (show (1 : Word) = 0 from h) (by decide)
  · refine not_declares_of_read ⟨0x35, 0x00020000⟩ (fun os => .ret os) regs_init (m := 3) (v := 1)
      (w := 2) (c := .mem) (by decide) rfl rfl ?_ ?_
    · exact fun h => absurd (congrArg (fun m => m.core 0 4) h.1) (by decide)
    · exact fun h => absurd (congrArg (fun m => m.page_count) h.1) (by decide)
  · refine not_declares_of_read ⟨0xd2, 0x00020000⟩ (fun os => .ret os) regs_init (m := 3) (v := 1)
      (w := 2) (c := .mem) (by decide) rfl rfl ?_ ?_
    · exact fun h => absurd (congrArg (fun m => m.core 0 4) h.1) (by decide)
    · exact fun h => absurd (congrArg (fun m => m.page_count) h.1) (by decide)
  · refine not_declares_of_write ⟨0xa4, 0x00020000⟩ (fun os => .ret os) (regs_init.setR 3 1) (c := .GPR 3)
      rfl (by decide) ?_
    exact fun h => absurd (show (1 : Word) = 0 from h) (by decide)
  · refine not_declares_of_read ⟨0xa7, 0x00020000⟩ (fun os => .ret os) regs_init (m := 3) (v := 1)
      (w := 2) (c := .FPR 1) (by decide) rfl rfl ?_ ?_
    · exact fun h => absurd (show (1 : Word) = 2 from h) (by decide)
    · exact fun h => absurd (show (0 : Word) = 1 from h) (by decide)
  · refine not_declares_of_write ⟨0xa0, 0⟩ (fun os => .op (SysOp.SET_GPR 2 1) fun _ => .ret os) regs_init
      (c := .GPR 2) rfl (by decide) ?_
    exact fun h => absurd (show (0 : Word) = 1 from h) (by decide)

end Undeclared

/-- The declarations are complete but for nine opcodes. -/
theorem declares_iff : Declares op ↔ op ∉ undeclared :=
  ⟨fun hd hop => not_declares hop hd, declares_of_not_mem⟩

/-! ## Other orders -/

/-- A register that a dependence can be about. -/
def Operand.Real (o : Operand) : Prop := o ≠ DNA ∧ o ≠ DGPR 0

instance (o : Operand) : Decidable o.Real := by unfold Operand.Real; infer_instance

/-- Two instructions of which neither writes what the other depends on or writes, by their declarations and flags. -/
structure Independent (j j' : Inst) : Prop where
  out_in (k : Fin 2) (m : Fin 3) : (j.r_out k).Real → j.r_out k ≠ j'.r_in m
  in_out (k : Fin 2) (m : Fin 3) : (j'.r_out k).Real → j'.r_out k ≠ j.r_in m
  out_out (k m : Fin 2) : (j.r_out k).Real → j.r_out k ≠ j'.r_out m
  mem : MD_OP_FLAGS j.op &&& F_MEM = 0 ∨ MD_OP_FLAGS j'.op &&& F_MEM = 0
  ctrl : MD_OP_FLAGS j.op &&& F_CTRL = 0 ∧ MD_OP_FLAGS j'.op &&& F_CTRL = 0

theorem Independent.symm {j j' : Inst} (h : Independent j j') : Independent j' j where
  out_in := h.in_out
  in_out := h.out_in
  out_out k m hr he := h.out_out m k (he ▸ hr) he.symm
  mem := h.mem.symm
  ctrl := h.ctrl.symm

variable {p : Ports ε σ} {sys : Syscall O} {host : Host}

end Pisa
