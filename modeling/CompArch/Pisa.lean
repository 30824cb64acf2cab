import Mathlib.Algebra.GroupWithZero.Nat
import Mathlib.Data.Fin.VecNotation
/-!
# The PISA instruction set (`target-pisa/pisa.def`)

What the simulators read of an instruction: the flags of its opcode and the
registers it depends on. What an instruction computes, its functional unit class
and its printed form are left out.
-/

namespace Pisa

/-- The opcodes in the order of `pisa.def`; `NA` is the zero of `enum md_opcode`. -/
inductive Opcode
  | NA
  | NOP | JUMP | JAL | JR | JALR | BEQ | BNE | BLEZ | BGTZ | BLTZ | BGEZ | BC1F | BC1T | LB | LBU | LH | LHU
  | LW | DLW | L_S | L_D | LWL | LWR | SB | SH | SW | DSW | DSZ | S_S | S_D | SWL | SWR | LB_RR | LBU_RR
  | LH_RR | LHU_RR | LW_RR | DLW_RR | L_S_RR | L_D_RR | SB_RR | SH_RR | SW_RR | DSW_RR | DSZ_RR | S_S_RR
  | S_D_RR | L_S_RR_R2 | S_S_RR_R2 | LW_RR_R2 | SW_RR_R2 | ADD | ADDI | ADDU | ADDIU | SUB | SUBU | MULT
  | MULTU | DIV | DIVU | MFHI | MTHI | MFLO | MTLO | AND_ | ANDI | OR | ORI | XOR | XORI | NOR | SLL | SLLV
  | SRL | SRLV | SRA | SRAV | SLT | SLTI | SLTU | SLTIU | FADD_S | FADD_D | FSUB_S | FSUB_D | FMUL_S | FMUL_D
  | FDIV_S | FDIV_D | FABS_S | FABS_D | FMOV_S | FMOV_D | FNEG_S | FNEG_D | CVT_S_D | CVT_S_W | CVT_D_S
  | CVT_D_W | CVT_W_S | CVT_W_D | C_EQ_S | C_EQ_D | C_LT_S | C_LT_D | C_LE_S | C_LE_D | FSQRT_S | FSQRT_D
  | SYSCALL | BREAK | LUI | MFC1 | DMFC1 | CFC1 | MTC1 | DMTC1 | CTC1
  deriving DecidableEq

/-! ## Flags -/

def F_ICOMP : Nat := 0x00000001
def F_FCOMP : Nat := 0x00000002
def F_CTRL : Nat := 0x00000004
def F_UNCOND : Nat := 0x00000008
def F_COND : Nat := 0x00000010
def F_MEM : Nat := 0x00000020
def F_LOAD : Nat := 0x00000040
def F_STORE : Nat := 0x00000080
def F_DISP : Nat := 0x00000100
def F_RR : Nat := 0x00000200
def F_TRAP : Nat := 0x00000800
def F_LONGLAT : Nat := 0x00001000
def F_DIRJMP : Nat := 0x00002000
def F_INDIRJMP : Nat := 0x00004000
def F_CALL : Nat := 0x00008000
def F_FPCOND : Nat := 0x00010000
def F_IMM : Nat := 0x00020000

/-- `md_op2flags`. -/
def MD_OP_FLAGS : Opcode → Nat
  | .NA => 0
  | .NOP | .ADD | .ADDU | .SUB | .SUBU | .MFHI | .MTHI | .MFLO | .MTLO | .AND_ | .OR | .XOR | .NOR | .SLL
  | .SLLV | .SRL | .SRLV | .SRA | .SRAV | .SLT | .SLTU | .LUI | .MFC1 | .DMFC1 | .CFC1 | .MTC1 | .DMTC1 | .CTC1 =>
    F_ICOMP
  | .JUMP => F_CTRL ||| F_UNCOND ||| F_DIRJMP
  | .JAL => F_CTRL ||| F_UNCOND ||| F_DIRJMP ||| F_CALL
  | .JR => F_CTRL ||| F_UNCOND ||| F_INDIRJMP
  | .JALR => F_CTRL ||| F_UNCOND ||| F_INDIRJMP ||| F_CALL
  | .BEQ | .BNE | .BLEZ | .BGTZ | .BLTZ | .BGEZ => F_CTRL ||| F_COND ||| F_DIRJMP
  | .BC1F | .BC1T => F_CTRL ||| F_COND ||| F_DIRJMP ||| F_FPCOND
  | .LB | .LBU | .LH | .LHU | .LW | .DLW | .L_S | .L_D | .LWL | .LWR => F_MEM ||| F_LOAD ||| F_DISP
  | .SB | .SH | .SW | .DSW | .DSZ | .S_S | .S_D | .SWL | .SWR => F_MEM ||| F_STORE ||| F_DISP
  | .LB_RR | .LBU_RR | .LH_RR | .LHU_RR | .LW_RR | .DLW_RR | .L_S_RR | .L_D_RR | .L_S_RR_R2 | .LW_RR_R2 =>
    F_MEM ||| F_LOAD ||| F_RR
  | .SB_RR | .SH_RR | .SW_RR | .DSW_RR | .DSZ_RR | .S_S_RR | .S_D_RR | .S_S_RR_R2 | .SW_RR_R2 =>
    F_MEM ||| F_STORE ||| F_RR
  | .ADDI | .ADDIU | .ANDI | .ORI | .XORI | .SLTI | .SLTIU => F_ICOMP ||| F_IMM
  | .MULT | .MULTU | .DIV | .DIVU => F_ICOMP ||| F_LONGLAT
  | .FADD_S | .FADD_D | .FSUB_S | .FSUB_D | .FABS_S | .FABS_D | .FMOV_S | .FMOV_D | .FNEG_S | .FNEG_D
  | .CVT_S_D | .CVT_S_W | .CVT_D_S | .CVT_D_W | .CVT_W_S | .CVT_W_D | .C_EQ_S | .C_EQ_D | .C_LT_S | .C_LT_D
  | .C_LE_S | .C_LE_D =>
    F_FCOMP
  | .FMUL_S | .FMUL_D | .FDIV_S | .FDIV_D | .FSQRT_S | .FSQRT_D => F_FCOMP ||| F_LONGLAT
  | .SYSCALL | .BREAK => F_TRAP

/-! ## Registers -/

/-- Register fields and operands are numbered with literals, which all use these instances. -/
scoped instance neZero_field : NeZero 32 := ⟨by decide⟩
scoped instance neZero_in : NeZero 3 := ⟨by decide⟩
scoped instance neZero_out : NeZero 2 := ⟨by decide⟩

abbrev MD_TOTAL_REGS : Nat := 32 + 32 + 3 + 1 + 1 + 1

abbrev Reg := Fin MD_TOTAL_REGS

/-- A register an instruction depends on, or `DNA`. -/
abbrev Operand := Option Reg

def DNA : Operand := none
def DGPR (n : Fin 32) : Operand := some (n.castLE (by decide))
/-- The even register of the pair: `n & ~1`. -/
def DGPR_D (n : Fin 32) : Operand := some ⟨n / 2 * 2, by have := n.isLt; unfold MD_TOTAL_REGS; omega⟩
/-- `(n + 32) & ~1`, the same for words, single and double precision. -/
def DFPR_L (n : Fin 32) : Operand := some ⟨(n + 32) / 2 * 2, by have := n.isLt; unfold MD_TOTAL_REGS; omega⟩
def DFPR_F (n : Fin 32) : Operand := DFPR_L n
def DFPR_D (n : Fin 32) : Operand := DFPR_L n
def DHI : Operand := some ⟨0 + 32 + 32, by decide⟩
def DLO : Operand := some ⟨1 + 32 + 32, by decide⟩
def DFCC : Operand := some ⟨2 + 32 + 32, by decide⟩

/-- An instruction: its opcode and the register fields of its word. -/
structure Inst where
  op : Opcode
  RS : Fin 32 := 0
  RT : Fin 32 := 0
  RD : Fin 32 := 0
  deriving DecidableEq

/-- The dependence designators of an instruction. -/
structure Deps where
  O1 : Operand
  O2 : Operand
  I1 : Operand
  I2 : Operand
  I3 : Operand
  deriving DecidableEq

/-- The designators of `pisa.def`, where `BS` and `FS` are `RS`, `FT` is `RT` and `FD` is `RD`. -/
def Inst.deps (i : Inst) : Deps :=
  match i.op with
  | .NA | .NOP | .JUMP | .SYSCALL | .BREAK | .CFC1 | .CTC1 => ⟨DNA, DNA, DNA, DNA, DNA⟩
  | .JAL => ⟨DGPR 31, DNA, DNA, DNA, DNA⟩
  | .JR | .BLEZ | .BGTZ | .BLTZ | .BGEZ => ⟨DNA, DNA, DGPR i.RS, DNA, DNA⟩
  | .JALR => ⟨DGPR i.RD, DNA, DGPR i.RS, DNA, DNA⟩
  | .BEQ | .BNE => ⟨DNA, DNA, DGPR i.RS, DGPR i.RT, DNA⟩
  | .BC1F | .BC1T => ⟨DNA, DNA, DFCC, DNA, DNA⟩
  | .LB | .LBU | .LH | .LHU | .LW | .LWL | .LWR => ⟨DGPR i.RT, DNA, DNA, DGPR i.RS, DNA⟩
  | .DLW => ⟨DGPR_D i.RT, DNA, DNA, DGPR i.RS, DNA⟩
  | .L_S => ⟨DFPR_L i.RT, DNA, DNA, DGPR i.RS, DNA⟩
  | .L_D => ⟨DFPR_D i.RT, DNA, DNA, DGPR i.RS, DNA⟩
  | .SB | .SH | .SW | .SWL | .SWR => ⟨DNA, DNA, DGPR i.RT, DGPR i.RS, DNA⟩
  | .DSW => ⟨DNA, DNA, DGPR_D i.RT, DGPR i.RS, DNA⟩
  | .DSZ => ⟨DNA, DNA, DNA, DGPR i.RS, DNA⟩
  | .S_S => ⟨DNA, DNA, DFPR_L i.RT, DGPR i.RS, DNA⟩
  | .S_D => ⟨DNA, DNA, DFPR_D i.RT, DGPR i.RS, DNA⟩
  | .LB_RR | .LBU_RR | .LH_RR | .LHU_RR | .LW_RR | .LW_RR_R2 => ⟨DGPR i.RT, DNA, DNA, DGPR i.RS, DGPR i.RD⟩
  | .DLW_RR => ⟨DGPR_D i.RT, DNA, DNA, DGPR i.RS, DGPR i.RD⟩
  | .L_S_RR | .L_S_RR_R2 => ⟨DFPR_L i.RT, DNA, DNA, DGPR i.RS, DGPR i.RD⟩
  | .L_D_RR => ⟨DFPR_D i.RT, DNA, DNA, DGPR i.RS, DGPR i.RD⟩
  | .SB_RR | .SH_RR | .SW_RR | .SW_RR_R2 => ⟨DNA, DNA, DGPR i.RT, DGPR i.RS, DGPR i.RD⟩
  | .DSW_RR => ⟨DNA, DNA, DGPR_D i.RT, DGPR i.RS, DGPR i.RD⟩
  | .DSZ_RR => ⟨DNA, DNA, DNA, DGPR i.RS, DGPR i.RD⟩
  | .S_S_RR | .S_S_RR_R2 => ⟨DNA, DNA, DFPR_L i.RT, DGPR i.RS, DGPR i.RD⟩
  | .S_D_RR => ⟨DNA, DNA, DFPR_D i.RT, DGPR i.RS, DGPR i.RD⟩
  | .ADD | .ADDU | .SUB | .SUBU | .AND_ | .OR | .XOR | .NOR | .SLT | .SLTU =>
    ⟨DGPR i.RD, DNA, DGPR i.RS, DGPR i.RT, DNA⟩
  | .ADDI | .ADDIU | .ANDI | .ORI | .XORI | .SLTI | .SLTIU => ⟨DGPR i.RT, DNA, DGPR i.RS, DNA, DNA⟩
  | .MULT | .MULTU | .DIV | .DIVU => ⟨DHI, DLO, DGPR i.RT, DGPR i.RS, DNA⟩
  | .MFHI => ⟨DGPR i.RD, DNA, DHI, DNA, DNA⟩
  | .MTHI => ⟨DHI, DNA, DGPR i.RS, DNA, DNA⟩
  | .MFLO => ⟨DGPR i.RD, DNA, DLO, DNA, DNA⟩
  | .MTLO => ⟨DLO, DNA, DGPR i.RS, DNA, DNA⟩
  | .SLL | .SRL | .SRA => ⟨DGPR i.RD, DNA, DGPR i.RT, DNA, DNA⟩
  | .SLLV | .SRLV | .SRAV => ⟨DGPR i.RD, DNA, DGPR i.RT, DGPR i.RS, DNA⟩
  | .FADD_S | .FSUB_S | .FMUL_S | .FDIV_S => ⟨DFPR_F i.RD, DNA, DFPR_F i.RS, DFPR_F i.RT, DNA⟩
  | .FADD_D | .FSUB_D | .FMUL_D | .FDIV_D => ⟨DFPR_D i.RD, DNA, DFPR_D i.RS, DFPR_D i.RT, DNA⟩
  | .FABS_S | .FMOV_S | .FNEG_S | .FSQRT_S => ⟨DFPR_F i.RD, DNA, DFPR_F i.RS, DNA, DNA⟩
  | .FABS_D | .FMOV_D | .FNEG_D | .FSQRT_D => ⟨DFPR_D i.RD, DNA, DFPR_D i.RS, DNA, DNA⟩
  | .CVT_S_D => ⟨DFPR_F i.RD, DNA, DFPR_D i.RS, DNA, DNA⟩
  | .CVT_S_W => ⟨DFPR_F i.RD, DNA, DFPR_L i.RS, DNA, DNA⟩
  | .CVT_D_S => ⟨DFPR_D i.RD, DNA, DFPR_F i.RS, DNA, DNA⟩
  | .CVT_D_W => ⟨DFPR_D i.RD, DNA, DFPR_L i.RS, DNA, DNA⟩
  | .CVT_W_S => ⟨DFPR_L i.RD, DNA, DFPR_F i.RS, DNA, DNA⟩
  | .CVT_W_D => ⟨DFPR_L i.RD, DNA, DFPR_D i.RS, DNA, DNA⟩
  | .C_EQ_S | .C_LT_S | .C_LE_S => ⟨DFCC, DNA, DFPR_F i.RS, DFPR_F i.RT, DNA⟩
  | .C_EQ_D | .C_LT_D | .C_LE_D => ⟨DFCC, DNA, DFPR_D i.RS, DFPR_D i.RT, DNA⟩
  | .LUI => ⟨DGPR i.RT, DNA, DNA, DNA, DNA⟩
  | .MFC1 => ⟨DGPR i.RT, DNA, DFPR_L i.RS, DNA, DNA⟩
  | .DMFC1 => ⟨DGPR_D i.RT, DNA, DFPR_D i.RS, DNA, DNA⟩
  | .MTC1 => ⟨DFPR_L i.RS, DNA, DGPR i.RT, DNA, DNA⟩
  | .DMTC1 => ⟨DFPR_D i.RS, DNA, DGPR_D i.RT, DNA, DNA⟩

/-- The output registers sim-safe.c records for an instruction. -/
def Inst.r_out (i : Inst) : Fin 2 → Operand := ![i.deps.O1, i.deps.O2]

/-- The input registers sim-safe.c records for an instruction. -/
def Inst.r_in (i : Inst) : Fin 3 → Operand := ![i.deps.I1, i.deps.I2, i.deps.I3]

end Pisa
