import CompArch.Effects
import CompArch.Memory.Pages
import CompArch.Pisa
/-!
# What PISA instructions compute (`target-pisa/pisa.def`, `target-pisa/pisa.h`)

The expression of an instruction uses macros for all architected state, and every
simulator defines them its own way. Here an expression is a program over these
macros. The target and the host are little endian. `SET_TPC` is not there: it is
`(void)0` in the simulators modelled. Host floating point is a parameter.
-/

namespace Pisa

open Effects Memory

abbrev Word := BitVec 32

/-! ## Instruction words -/

/-- `md_inst_t` -/
structure MdInst where
  a : Word
  b : Word
  deriving DecidableEq

namespace MdInst

variable (i : MdInst)

def RS : Nat := (i.b >>> 24).toNat
def RT : Nat := ((i.b >>> 16) &&& 0xff).toNat
def RD : Nat := ((i.b >>> 8) &&& 0xff).toNat
def SHAMT : Nat := (i.b &&& 0xff).toNat
def IMM : Word := (i.b.setWidth 16).signExtend 32
def UIMM : Word := i.b &&& 0xffff
def TARG : Word := i.b &&& 0x3ffffff
def FS : Nat := i.RS
def FT : Nat := i.RT
def FD : Nat := i.RD
def BS : Nat := i.RS
def OFS : Word := i.IMM

end MdInst

/-- The number of opcodes and `OP_NA`. -/
def OP_MAX : Nat := 120

/-- `MD_SET_OPCODE`: the text segment is predecoded, so the field is the opcode's number. -/
def MD_SET_OPCODE (i : MdInst) : Opcode :=
  if (i.a &&& 0xff).toNat < OP_MAX then .ofNat (i.a &&& 0xff).toNat else .NA

/-! ## Macros -/

/-- Why an instruction does not complete on the host. -/
inductive Abort
  /-- The C expression is undefined: a shift by 32 or more, a quotient that is no `int`. -/
  | undefined
  /-- `panic("attempted to execute a bogus opcode")` -/
  | bogus
  /-- A system call ends the simulation. -/
  | exit
  deriving DecidableEq

/-- The macros of `pisa.def` that access architected state. -/
inductive Macro
  | GPR (n : Nat)
  | SET_GPR (n : Nat) (v : Word)
  | FPR_L (n : Nat)
  | SET_FPR_L (n : Nat) (v : Word)
  | HI
  | SET_HI (v : Word)
  | LO
  | SET_LO (v : Word)
  | FCC
  | SET_FCC (v : Word)
  | CPC
  | SET_NPC (v : Word)
  | READ_BYTE (addr : Addr)
  | READ_HALF (addr : Addr)
  | READ_WORD (addr : Addr)
  | WRITE_BYTE (v : BitVec 8) (addr : Addr)
  | WRITE_HALF (v : BitVec 16) (addr : Addr)
  | WRITE_WORD (v : Word) (addr : Addr)
  | SYSCALL
  | abort (why : Abort)

/-- A memory access answers with its fault. -/
def Macro.Ans : Macro → Type
  | .GPR _ | .FPR_L _ | .HI | .LO | .FCC | .CPC => Word
  | .READ_BYTE _ => BitVec 8 × Fault
  | .READ_HALF _ => BitVec 16 × Fault
  | .READ_WORD _ => Word × Fault
  | .WRITE_BYTE .. | .WRITE_HALF .. | .WRITE_WORD .. => Fault
  | .abort _ => Empty
  | _ => Unit

abbrev Code := Prog Macro Macro.Ans

/-- `<opname>_IMPL`: the fault it declares, if any. -/
abbrev Impl := Code Fault

def GPR (n : Nat) : Code Word := .perform (Macro.GPR n)
def SET_GPR (n : Nat) (v : Word) : Code Unit := .perform (Macro.SET_GPR n v)
def FPR_L (n : Nat) : Code Word := .perform (Macro.FPR_L n)
def SET_FPR_L (n : Nat) (v : Word) : Code Unit := .perform (Macro.SET_FPR_L n v)
def HI : Code Word := .perform Macro.HI
def SET_HI (v : Word) : Code Unit := .perform (Macro.SET_HI v)
def LO : Code Word := .perform Macro.LO
def SET_LO (v : Word) : Code Unit := .perform (Macro.SET_LO v)
def FCC : Code Word := .perform Macro.FCC
def SET_FCC (v : Word) : Code Unit := .perform (Macro.SET_FCC v)
def CPC : Code Word := .perform Macro.CPC
def SET_NPC (v : Word) : Code Unit := .perform (Macro.SET_NPC v)
def READ_BYTE (addr : Addr) : Code (BitVec 8 × Fault) := .perform (Macro.READ_BYTE addr)
def READ_HALF (addr : Addr) : Code (BitVec 16 × Fault) := .perform (Macro.READ_HALF addr)
def READ_WORD (addr : Addr) : Code (Word × Fault) := .perform (Macro.READ_WORD addr)
def WRITE_BYTE (v : BitVec 8) (addr : Addr) : Code Fault := .perform (Macro.WRITE_BYTE v addr)
def WRITE_HALF (v : BitVec 16) (addr : Addr) : Code Fault := .perform (Macro.WRITE_HALF v addr)
def WRITE_WORD (v : Word) (addr : Addr) : Code Fault := .perform (Macro.WRITE_WORD v addr)
def SYSCALL : Code Unit := .perform Macro.SYSCALL
def abort {α : Type} (why : Abort) : Code α := .op (Macro.abort why) Empty.elim

/-- The floating point registers are words: a single is one of them, a double a pair, low word first. -/
def FPR_F (n : Nat) : Code Word := FPR_L n
def SET_FPR_F (n : Nat) (v : Word) : Code Unit := SET_FPR_L n v

def FPR_D (n : Nat) : Code (BitVec 64) := do
  let lo ← FPR_L (2 * (n / 2))
  let hi ← FPR_L (2 * (n / 2) + 1)
  return hi ++ lo

def SET_FPR_D (n : Nat) (v : BitVec 64) : Code Unit := do
  SET_FPR_L (2 * (n / 2)) (v.setWidth 32)
  SET_FPR_L (2 * (n / 2) + 1) (v.extractLsb' 32 32)

/-! ## The host -/

/-- Floating point numbers of one format. -/
structure Fpu (w : Nat) where
  add : BitVec w → BitVec w → BitVec w
  sub : BitVec w → BitVec w → BitVec w
  mul : BitVec w → BitVec w → BitVec w
  div : BitVec w → BitVec w → BitVec w
  abs : BitVec w → BitVec w
  neg : BitVec w → BitVec w
  sqrt : BitVec w → BitVec w
  eq : BitVec w → BitVec w → Bool
  lt : BitVec w → BitVec w → Bool
  le : BitVec w → BitVec w → Bool

/-- What `pisa.def` leaves to the host and its compiler. -/
structure Host where
  single : Fpu 32
  double : Fpu 64
  cvt_s_d : BitVec 64 → Word
  cvt_s_w : Word → Word
  cvt_d_s : Word → BitVec 64
  cvt_d_w : Word → BitVec 64
  cvt_w_s : Word → Word
  cvt_w_d : BitVec 64 → Word
  FAST_SRL : Bool
  FAST_SRA : Bool
  /-- `>>` on a negative `int` copies the sign. -/
  signed_shift : Bool
  /-- sysprobe.c sets `FAST_SRA` after such a shift. -/
  fast_SRA : FAST_SRA → signed_shift

/-- `x >> n` where `x` is an `int` and `n` is in range. -/
def Host.shr (host : Host) (x : Word) (n : Nat) : Word := if host.signed_shift then x.sshiftRight n else x >>> n

/-- A shift count of 32 or more is undefined. -/
def shiftable (n : Nat) : Code Unit := if n < 32 then return () else abort .undefined

/-! ## Helpers -/

def MAXINT_VAL : Word := 0x7fffffff

def OVER (x y : Word) : Bool :=
  ((0#32).slt x && (0#32).slt y && (MAXINT_VAL - x).slt y) ||
    (x.slt 0 && y.slt 0 && y.slt (-MAXINT_VAL - x))

def UNDER (x y : Word) : Bool :=
  ((0#32).slt x && y.slt 0 && (MAXINT_VAL + y).slt x) ||
    (x.slt 0 && (0#32).slt y && x.slt (-MAXINT_VAL + y))

/-- `misc.c` -/
def extractl (word : Word) (pos num : Nat) : Word := (word >>> (pos + 1 - num)) &&& ~~~(~~~(0#32) <<< num)

/-- `md_lr_masks`; only its five entries are read. -/
def md_lr_masks : Nat → Word
  | 0 => 0xffffffff
  | 1 => 0x00ffffff
  | 2 => 0x0000ffff
  | 3 => 0x000000ff
  | _ => 0x00000000

def WL_SIZE (addr : Addr) : Nat := 4 - (addr &&& 0x03).toNat
def WL_BASE (addr : Addr) : Addr := addr &&& ~~~(0x03#32)
def WL_PROT_MASK1 (addr : Addr) : Word := md_lr_masks (WL_SIZE addr)
def WL_PROT_MASK2 (addr : Addr) : Word := md_lr_masks (4 - WL_SIZE addr)
def WR_SIZE (addr : Addr) : Nat := (addr &&& 0x03).toNat + 1
def WR_BASE (addr : Addr) : Addr := addr &&& ~~~(0x03#32)
def WR_PROT_MASK1 (addr : Addr) : Word := md_lr_masks (WR_SIZE addr)
def WR_PROT_MASK2 (addr : Addr) : Word := md_lr_masks (4 - WR_SIZE addr)

/-! ## Control -/

section Control
variable (i : MdInst)

def NOP_IMPL : Impl := return .none

/-- `(CPC & 036000000000) | (TARG << 2)` -/
def jumpTarget : Code Word := return ((← CPC) &&& (0xf0000000 : Word)) ||| (i.TARG <<< 2)

def JUMP_IMPL : Impl := do
  SET_NPC (← jumpTarget i)
  return .none

def JAL_IMPL : Impl := do
  SET_NPC (← jumpTarget i)
  SET_GPR 31 ((← CPC) + 8)
  return .none

def JR_IMPL : Impl := do
  if (← GPR i.RS) &&& 0x7 ≠ 0 then return .alignment
  SET_NPC (← GPR i.RS)
  return .none

def JALR_IMPL : Impl := do
  if (← GPR i.RS) &&& 0x7 ≠ 0 then return .alignment
  SET_GPR i.RD ((← CPC) + 8)
  SET_NPC (← GPR i.RS)
  return .none

/-- A branch that is taken when the condition holds. -/
def branch (cond : Code Bool) : Impl := do
  if ← cond then SET_NPC ((← CPC) + (8 : Word) + (i.OFS <<< 2))
  return .none

def BEQ_IMPL : Impl := branch i (return (← GPR i.RS) == (← GPR i.RT))
def BNE_IMPL : Impl := branch i (return (← GPR i.RS) != (← GPR i.RT))
def BLEZ_IMPL : Impl := branch i (return (← GPR i.RS).sle 0)
def BGTZ_IMPL : Impl := branch i (return (0#32).slt (← GPR i.RS))
def BLTZ_IMPL : Impl := branch i (return (← GPR i.RS).slt 0)
def BGEZ_IMPL : Impl := branch i (return (0#32).sle (← GPR i.RS))
def BC1F_IMPL : Impl := branch i (return (← FCC) == 0)
def BC1T_IMPL : Impl := branch i (return (← FCC) != 0)

end Control

/-! ## Loads and stores -/

section LoadStore
variable (i : MdInst)

/-- `GPR(BS) + OFS` -/
def disp : Code Addr := return (← GPR i.BS) + i.OFS
/-- `GPR(BS) + GPR(RD)` -/
def rr : Code Addr := return (← GPR i.BS) + (← GPR i.RD)
/-- The address `four` bytes behind. -/
def next (ea : Code Addr) : Code Addr := return (← ea) + 4

/-- Loads one datum, and stores it into a register. -/
def load {w : Nat} (ea : Code Addr) (read : Addr → Code (BitVec w × Fault)) (ext : BitVec w → Word)
    (set : Word → Code Unit) : Impl := do
  let (_result, _fault) ← read (← ea)
  if _fault ≠ .none then return _fault
  set (ext _result)
  return .none

/-- Loads two words into the registers `n` and `n + 1`. -/
def loadDouble (ea : Code Addr) (n : Nat) (set : Nat → Word → Code Unit) : Impl := do
  if n % 2 = 1 then return .alignment
  let (_result_hi, _fault) ← READ_WORD (← ea)
  if _fault ≠ .none then return _fault
  let (_result_lo, _fault) ← READ_WORD (← next ea)
  if _fault ≠ .none then return _fault
  set n _result_hi
  set (n + 1) _result_lo
  return .none

def LB_IMPL : Impl := load (disp i) READ_BYTE (·.signExtend 32) (SET_GPR i.RT)
def LBU_IMPL : Impl := load (disp i) READ_BYTE (·.setWidth 32) (SET_GPR i.RT)
def LH_IMPL : Impl := load (disp i) READ_HALF (·.signExtend 32) (SET_GPR i.RT)
def LHU_IMPL : Impl := load (disp i) READ_HALF (·.setWidth 32) (SET_GPR i.RT)
def LW_IMPL : Impl := load (disp i) READ_WORD id (SET_GPR i.RT)
def DLW_IMPL : Impl := loadDouble (disp i) i.RT SET_GPR
def L_S_IMPL : Impl := load (disp i) READ_WORD id (SET_FPR_L i.FT)
def L_D_IMPL : Impl := loadDouble (disp i) i.FT SET_FPR_L

def LWL_IMPL : Impl := do
  let _temp_bs ← GPR i.BS
  let (_lr_temp, _fault) ← READ_WORD (WL_BASE (_temp_bs + i.OFS))
  if _fault ≠ .none then return _fault
  SET_GPR i.RT (((← GPR i.RT) &&& WR_PROT_MASK1 (_temp_bs + i.OFS)) |||
    ((_lr_temp <<< (8 * (WL_SIZE (_temp_bs + i.OFS) - 1))) &&& ~~~WR_PROT_MASK1 (_temp_bs + i.OFS)))
  return .none

def LWR_IMPL : Impl := do
  let _temp_bs ← GPR i.BS
  let (_lr_temp, _fault) ← READ_WORD (WR_BASE (_temp_bs + i.OFS))
  if _fault ≠ .none then return _fault
  SET_GPR i.RT (((← GPR i.RT) &&& ~~~WL_PROT_MASK2 (_temp_bs + i.OFS)) |||
    ((_lr_temp >>> (8 * (WR_SIZE (_temp_bs + i.OFS) - 1))) &&& WL_PROT_MASK2 (_temp_bs + i.OFS)))
  return .none

/-- Stores one datum. -/
def store {w : Nat} (ea : Code Addr) (write : BitVec w → Addr → Code Fault) (src : Code (BitVec w)) : Impl := do
  let _src ← src
  write _src (← ea)

/-- Stores two words, the second behind the first. -/
def storeDouble (ea : Code Addr) (src src' : Code Word) : Impl := do
  let _fault ← WRITE_WORD (← src) (← ea)
  if _fault ≠ .none then return _fault
  WRITE_WORD (← src') (← next ea)

/-- Stores the registers `n` and `n + 1`. -/
def storePair (ea : Code Addr) (n : Nat) (get : Nat → Code Word) : Impl := do
  if n % 2 = 1 then return .alignment
  storeDouble ea (get n) (get (n + 1))

def SB_IMPL : Impl := store (disp i) WRITE_BYTE (return (← GPR i.RT).setWidth 8)
def SH_IMPL : Impl := store (disp i) WRITE_HALF (return (← GPR i.RT).setWidth 16)
def SW_IMPL : Impl := store (disp i) WRITE_WORD (GPR i.RT)
def DSW_IMPL : Impl := storePair (disp i) i.RT GPR
def DSZ_IMPL : Impl := storeDouble (disp i) (GPR 0) (GPR 0)
def S_S_IMPL : Impl := store (disp i) WRITE_WORD (FPR_L i.FT)
def S_D_IMPL : Impl := storePair (disp i) i.FT FPR_L

def SWL_IMPL (host : Host) : Impl := do
  let ea ← disp i
  let (_lr_temp, _fault) ← READ_WORD (WL_BASE ea)
  if _fault ≠ .none then return _fault
  let _lr_temp := (host.shr (← GPR i.RT) (8 * (4 - WR_SIZE ea)) &&& WR_PROT_MASK2 ea) |||
    (_lr_temp &&& ~~~WR_PROT_MASK2 ea)
  WRITE_WORD _lr_temp (WL_BASE ea)

def SWR_IMPL : Impl := do
  let ea ← disp i
  let (_lr_temp, _fault) ← READ_WORD (WR_BASE ea)
  if _fault ≠ .none then return _fault
  let _lr_temp := (((← GPR i.RT) <<< (8 * (4 - WL_SIZE ea))) &&& ~~~WL_PROT_MASK1 ea) |||
    (_lr_temp &&& WL_PROT_MASK1 ea)
  WRITE_WORD _lr_temp (WR_BASE ea)

def LB_RR_IMPL : Impl := load (rr i) READ_BYTE (·.signExtend 32) (SET_GPR i.RT)
def LBU_RR_IMPL : Impl := load (rr i) READ_BYTE (·.setWidth 32) (SET_GPR i.RT)
def LH_RR_IMPL : Impl := load (rr i) READ_HALF (·.signExtend 32) (SET_GPR i.RT)
def LHU_RR_IMPL : Impl := load (rr i) READ_HALF (·.setWidth 32) (SET_GPR i.RT)
def LW_RR_IMPL : Impl := load (rr i) READ_WORD id (SET_GPR i.RT)
def DLW_RR_IMPL : Impl := loadDouble (rr i) i.RT SET_GPR
def L_S_RR_IMPL : Impl := load (rr i) READ_WORD id (SET_FPR_L i.FT)
def L_D_RR_IMPL : Impl := loadDouble (rr i) i.FT SET_FPR_L
def SB_RR_IMPL : Impl := store (rr i) WRITE_BYTE (return (← GPR i.RT).setWidth 8)
def SH_RR_IMPL : Impl := store (rr i) WRITE_HALF (return (← GPR i.RT).setWidth 16)
def SW_RR_IMPL : Impl := store (rr i) WRITE_WORD (GPR i.RT)
def DSW_RR_IMPL : Impl := storePair (rr i) i.RT GPR
def DSZ_RR_IMPL : Impl := storeDouble (rr i) (GPR 0) (GPR 0)
def S_S_RR_IMPL : Impl := store (rr i) WRITE_WORD (FPR_L i.FT)
def S_D_RR_IMPL : Impl := storePair (rr i) i.FT FPR_L
def L_S_RR_R2_IMPL : Impl := load (next (rr i)) READ_WORD id (SET_FPR_L i.FT)
def S_S_RR_R2_IMPL : Impl := store (next (rr i)) WRITE_WORD (FPR_L i.FT)
def LW_RR_R2_IMPL : Impl := load (next (rr i)) READ_WORD id (SET_GPR i.RT)
def SW_RR_R2_IMPL : Impl := store (next (rr i)) WRITE_WORD (GPR i.RT)

end LoadStore

/-! ## Integer operations -/

section Integer
variable (i : MdInst)

/-- Sets a register to a function of two values. -/
def binary (rd : Nat) (x y : Code Word) (f : Word → Word → Word) : Impl := do
  SET_GPR rd (f (← x) (← y))
  return .none

/-- The same, unless the values overflow. -/
def checked (overflows : Word → Word → Bool) (rd : Nat) (x y : Code Word) (f : Word → Word → Word) : Impl := do
  if overflows (← x) (← y) then return .overflow
  binary rd x y f

def ADD_IMPL : Impl := checked OVER i.RD (GPR i.RS) (GPR i.RT) (· + ·)
def ADDI_IMPL : Impl := checked OVER i.RT (GPR i.RS) (return i.IMM) (· + ·)
def ADDU_IMPL : Impl := binary i.RD (GPR i.RS) (GPR i.RT) (· + ·)
def ADDIU_IMPL : Impl := binary i.RT (GPR i.RS) (return i.IMM) (· + ·)
def SUB_IMPL : Impl := checked UNDER i.RD (GPR i.RS) (GPR i.RT) (· - ·)
def SUBU_IMPL : Impl := binary i.RD (GPR i.RS) (GPR i.RT) (· - ·)

/-- The round of `MULT` for bit `n` of the first operand. -/
def multRound (op1 op2 : Code Word) (n : Nat) : Code Unit := do
  SET_HI ((← HI) <<< 1)
  SET_HI ((← HI) + extractl (← LO) 31 1)
  SET_LO ((← LO) <<< 1)
  if extractl (← op1) n 1 = 1 then
    if 0xffffffff - (← LO) < (← op2) then SET_HI ((← HI) + 1)
    SET_LO ((← LO) + (← op2))

/-- The rounds for the bits below `n`, the highest first. -/
def multLoop (op1 op2 : Code Word) : Nat → Code Unit
  | 0 => return ()
  | n + 1 => do
    multRound op1 op2 n
    multLoop op1 op2 n

/-- The start of `MULT` and `MULTU` and their loop. -/
def multiply (op1 op2 : Code Word) : Code Unit := do
  if (← op1) &&& 0x80000000 ≠ 0 then SET_LO (← op2)
  multLoop op1 op2 31

def MULT_IMPL : Impl := do
  SET_HI 0
  SET_LO 0
  let _op1 ← GPR i.RS
  let _op2 ← GPR i.RT
  let _sign1 := _op1 &&& 0x80000000 ≠ 0
  let _op1 := if _sign1 then ~~~_op1 + 1 else _op1
  let _sign2 := _op2 &&& 0x80000000 ≠ 0
  let _op2 := if _sign2 then ~~~_op2 + 1 else _op2
  multiply (return _op1) (return _op2)
  if xor _sign1 _sign2 then
    SET_LO (~~~(← LO))
    SET_HI (~~~(← HI))
    if (← LO) = 0xffffffff then SET_HI ((← HI) + 1)
    SET_LO ((← LO) + 1)
  return .none

def MULTU_IMPL : Impl := do
  SET_HI 0
  SET_LO 0
  multiply (GPR i.RS) (GPR i.RT)
  return .none

/-- The quotient of the least `int` and -1 is undefined. -/
def DIV_IMPL : Impl := do
  if (← GPR i.RT) = 0 then return .div0
  if (← GPR i.RS) = 0x80000000 ∧ (← GPR i.RT) = -1 then abort .undefined
  SET_LO ((← GPR i.RS).sdiv (← GPR i.RT))
  SET_HI ((← GPR i.RS).srem (← GPR i.RT))
  return .none

def DIVU_IMPL : Impl := do
  if (← GPR i.RT) = 0 then return .div0
  SET_LO ((← GPR i.RS) / (← GPR i.RT))
  SET_HI ((← GPR i.RS) % (← GPR i.RT))
  return .none

def MFHI_IMPL : Impl := do
  SET_GPR i.RD (← HI)
  return .none

def MTHI_IMPL : Impl := do
  SET_HI (← GPR i.RS)
  return .none

def MFLO_IMPL : Impl := do
  SET_GPR i.RD (← LO)
  return .none

def MTLO_IMPL : Impl := do
  SET_LO (← GPR i.RS)
  return .none

set_option linter.style.nameCheck false in
def AND__IMPL : Impl := binary i.RD (GPR i.RS) (GPR i.RT) (· &&& ·)
def ANDI_IMPL : Impl := binary i.RT (GPR i.RS) (return i.UIMM) (· &&& ·)
def OR_IMPL : Impl := binary i.RD (GPR i.RS) (GPR i.RT) (· ||| ·)
def ORI_IMPL : Impl := binary i.RT (GPR i.RS) (return i.UIMM) (· ||| ·)
def XOR_IMPL : Impl := binary i.RD (GPR i.RS) (GPR i.RT) (· ^^^ ·)
def XORI_IMPL : Impl := binary i.RT (GPR i.RS) (return i.UIMM) (· ^^^ ·)
def NOR_IMPL : Impl := binary i.RD (GPR i.RS) (GPR i.RT) fun x y => ~~~(x ||| y)

/-- `GPR(RS) & 037` -/
def shamtV : Code Nat := return ((← GPR i.RS) &&& 0x1f).toNat

def SLL_IMPL : Impl := do
  shiftable i.SHAMT
  SET_GPR i.RD ((← GPR i.RT) <<< i.SHAMT)
  return .none

def SLLV_IMPL : Impl := do
  SET_GPR i.RD ((← GPR i.RT) <<< (← shamtV i))
  return .none

/-- A logical shift, with `FAST_SRL` or by one bit and then by the rest. -/
def srl (host : Host) (_shamt : Nat) : Impl := do
  if host.FAST_SRL then
    shiftable _shamt
    SET_GPR i.RD ((← GPR i.RT) >>> _shamt)
  else if _shamt ≠ 0 then
    let _rd := ((← GPR i.RT) >>> 1) &&& ~~~(0x80000000#32)
    shiftable (_shamt - 1)
    SET_GPR i.RD (_rd >>> (_shamt - 1))
  else SET_GPR i.RD (← GPR i.RT)
  return .none

/-- One bit of an arithmetic shift, `n` times. -/
def sraLoop (host : Host) : Nat → Code Unit
  | 0 => return ()
  | n + 1 => do
    SET_GPR i.RD (host.shr (← GPR i.RD) 1 ||| 0x80000000)
    sraLoop host n

/-- An arithmetic shift, with `FAST_SRA` or bit by bit. -/
def sra (host : Host) (_shamt : Nat) : Impl := do
  if host.FAST_SRA then
    shiftable _shamt
    SET_GPR i.RD (host.shr (← GPR i.RT) _shamt)
  else if (← GPR i.RT) &&& 0x80000000 ≠ 0 then
    SET_GPR i.RD (← GPR i.RT)
    sraLoop i host _shamt
  else
    shiftable _shamt
    SET_GPR i.RD (host.shr (← GPR i.RT) _shamt)
  return .none

def SRL_IMPL (host : Host) : Impl := srl i host i.SHAMT
def SRLV_IMPL (host : Host) : Impl := do srl i host (← shamtV i)
def SRA_IMPL (host : Host) : Impl := sra i host i.SHAMT
def SRAV_IMPL (host : Host) : Impl := do sra i host (← shamtV i)

def flag (b : Bool) : Word := if b then 1 else 0

def SLT_IMPL : Impl := binary i.RD (GPR i.RS) (GPR i.RT) fun x y => flag (x.slt y)
def SLTI_IMPL : Impl := binary i.RT (GPR i.RS) (return i.IMM) fun x y => flag (x.slt y)
def SLTU_IMPL : Impl := binary i.RD (GPR i.RS) (GPR i.RT) fun x y => flag (x.ult y)
def SLTIU_IMPL : Impl := binary i.RT (GPR i.RS) (return i.IMM) fun x y => flag (x.ult y)

end Integer

/-! ## Floating point operations -/

section Floating
variable (i : MdInst)

/-- Floating point registers have even numbers. -/
def evenFPR (ns : List Nat) (body : Code Unit) : Impl := do
  if ns.any (· % 2 = 1) then return .alignment
  body
  return .none

def binaryF (f : Word → Word → Word) : Impl :=
  evenFPR [i.FD, i.FS, i.FT] do SET_FPR_F i.FD (f (← FPR_F i.FS) (← FPR_F i.FT))
def binaryD (f : BitVec 64 → BitVec 64 → BitVec 64) : Impl :=
  evenFPR [i.FD, i.FS, i.FT] do SET_FPR_D i.FD (f (← FPR_D i.FS) (← FPR_D i.FT))
def unaryF (f : Word → Word) : Impl := evenFPR [i.FD, i.FS] do SET_FPR_F i.FD (f (← FPR_F i.FS))
def unaryD (f : BitVec 64 → BitVec 64) : Impl := evenFPR [i.FD, i.FS] do SET_FPR_D i.FD (f (← FPR_D i.FS))
def compareF (f : Word → Word → Bool) : Impl :=
  evenFPR [i.FS, i.FT] do SET_FCC (flag (f (← FPR_F i.FS) (← FPR_F i.FT)))
def compareD (f : BitVec 64 → BitVec 64 → Bool) : Impl :=
  evenFPR [i.FS, i.FT] do SET_FCC (flag (f (← FPR_D i.FS) (← FPR_D i.FT)))

variable (host : Host)

def FADD_S_IMPL : Impl := binaryF i host.single.add
def FADD_D_IMPL : Impl := binaryD i host.double.add
def FSUB_S_IMPL : Impl := binaryF i host.single.sub
def FSUB_D_IMPL : Impl := binaryD i host.double.sub
def FMUL_S_IMPL : Impl := binaryF i host.single.mul
def FMUL_D_IMPL : Impl := binaryD i host.double.mul
def FDIV_S_IMPL : Impl := binaryF i host.single.div
def FDIV_D_IMPL : Impl := binaryD i host.double.div
def FABS_S_IMPL : Impl := unaryF i host.single.abs
def FABS_D_IMPL : Impl := unaryD i host.double.abs
def FMOV_S_IMPL : Impl := unaryF i id
def FMOV_D_IMPL : Impl := unaryD i id
def FNEG_S_IMPL : Impl := unaryF i host.single.neg
def FNEG_D_IMPL : Impl := unaryD i host.double.neg
def CVT_S_D_IMPL : Impl := evenFPR [i.FD, i.FS] do SET_FPR_F i.FD (host.cvt_s_d (← FPR_D i.FS))
def CVT_S_W_IMPL : Impl := evenFPR [i.FD, i.FS] do SET_FPR_F i.FD (host.cvt_s_w (← FPR_L i.FS))
def CVT_D_S_IMPL : Impl := evenFPR [i.FD, i.FS] do SET_FPR_D i.FD (host.cvt_d_s (← FPR_F i.FS))
def CVT_D_W_IMPL : Impl := evenFPR [i.FD, i.FS] do SET_FPR_D i.FD (host.cvt_d_w (← FPR_L i.FS))
def CVT_W_S_IMPL : Impl := evenFPR [i.FD, i.FS] do SET_FPR_L i.FD (host.cvt_w_s (← FPR_F i.FS))
def CVT_W_D_IMPL : Impl := evenFPR [i.FD, i.FS] do SET_FPR_L i.FD (host.cvt_w_d (← FPR_D i.FS))
def C_EQ_S_IMPL : Impl := compareF i host.single.eq
def C_EQ_D_IMPL : Impl := compareD i host.double.eq
def C_LT_S_IMPL : Impl := compareF i host.single.lt
def C_LT_D_IMPL : Impl := compareD i host.double.lt
def C_LE_S_IMPL : Impl := compareF i host.single.le
def C_LE_D_IMPL : Impl := compareD i host.double.le
def FSQRT_S_IMPL : Impl := unaryF i host.single.sqrt
def FSQRT_D_IMPL : Impl := unaryD i host.double.sqrt

end Floating

/-! ## Miscellaneous -/

section Miscellaneous
variable (i : MdInst)

def SYSCALL_IMPL : Impl := do
  SYSCALL
  return .none

def BREAK_IMPL : Impl := return .break

def LUI_IMPL : Impl := do
  SET_GPR i.RT (i.UIMM <<< 16)
  return .none

def MFC1_IMPL : Impl := do
  SET_GPR i.RT (← FPR_L i.FS)
  return .none

def DMFC1_IMPL : Impl := do
  if i.RT % 2 = 1 ∨ i.FS % 2 = 1 then return .alignment
  SET_GPR i.RT (← FPR_L i.FS)
  SET_GPR (i.RT + 1) (← FPR_L (i.FS + 1))
  return .none

def CFC1_IMPL : Impl := return .none

def MTC1_IMPL : Impl := do
  SET_FPR_L i.FS (← GPR i.RT)
  return .none

def DMTC1_IMPL : Impl := do
  if i.FS % 2 = 1 ∨ i.RT % 2 = 1 then return .alignment
  SET_FPR_L i.FS (← GPR i.RT)
  SET_FPR_L (i.FS + 1) (← GPR (i.RT + 1))
  return .none

def CTC1_IMPL : Impl := return .none

end Miscellaneous

/-- The `switch` of the simulators' loops. -/
def impl (host : Host) (i : MdInst) : Opcode → Impl
  | .NA => abort .bogus
  | .NOP => NOP_IMPL
  | .JUMP => JUMP_IMPL i
  | .JAL => JAL_IMPL i
  | .JR => JR_IMPL i
  | .JALR => JALR_IMPL i
  | .BEQ => BEQ_IMPL i
  | .BNE => BNE_IMPL i
  | .BLEZ => BLEZ_IMPL i
  | .BGTZ => BGTZ_IMPL i
  | .BLTZ => BLTZ_IMPL i
  | .BGEZ => BGEZ_IMPL i
  | .BC1F => BC1F_IMPL i
  | .BC1T => BC1T_IMPL i
  | .LB => LB_IMPL i
  | .LBU => LBU_IMPL i
  | .LH => LH_IMPL i
  | .LHU => LHU_IMPL i
  | .LW => LW_IMPL i
  | .DLW => DLW_IMPL i
  | .L_S => L_S_IMPL i
  | .L_D => L_D_IMPL i
  | .LWL => LWL_IMPL i
  | .LWR => LWR_IMPL i
  | .SB => SB_IMPL i
  | .SH => SH_IMPL i
  | .SW => SW_IMPL i
  | .DSW => DSW_IMPL i
  | .DSZ => DSZ_IMPL i
  | .S_S => S_S_IMPL i
  | .S_D => S_D_IMPL i
  | .SWL => SWL_IMPL i host
  | .SWR => SWR_IMPL i
  | .LB_RR => LB_RR_IMPL i
  | .LBU_RR => LBU_RR_IMPL i
  | .LH_RR => LH_RR_IMPL i
  | .LHU_RR => LHU_RR_IMPL i
  | .LW_RR => LW_RR_IMPL i
  | .DLW_RR => DLW_RR_IMPL i
  | .L_S_RR => L_S_RR_IMPL i
  | .L_D_RR => L_D_RR_IMPL i
  | .SB_RR => SB_RR_IMPL i
  | .SH_RR => SH_RR_IMPL i
  | .SW_RR => SW_RR_IMPL i
  | .DSW_RR => DSW_RR_IMPL i
  | .DSZ_RR => DSZ_RR_IMPL i
  | .S_S_RR => S_S_RR_IMPL i
  | .S_D_RR => S_D_RR_IMPL i
  | .L_S_RR_R2 => L_S_RR_R2_IMPL i
  | .S_S_RR_R2 => S_S_RR_R2_IMPL i
  | .LW_RR_R2 => LW_RR_R2_IMPL i
  | .SW_RR_R2 => SW_RR_R2_IMPL i
  | .ADD => ADD_IMPL i
  | .ADDI => ADDI_IMPL i
  | .ADDU => ADDU_IMPL i
  | .ADDIU => ADDIU_IMPL i
  | .SUB => SUB_IMPL i
  | .SUBU => SUBU_IMPL i
  | .MULT => MULT_IMPL i
  | .MULTU => MULTU_IMPL i
  | .DIV => DIV_IMPL i
  | .DIVU => DIVU_IMPL i
  | .MFHI => MFHI_IMPL i
  | .MTHI => MTHI_IMPL i
  | .MFLO => MFLO_IMPL i
  | .MTLO => MTLO_IMPL i
  | .AND_ => AND__IMPL i
  | .ANDI => ANDI_IMPL i
  | .OR => OR_IMPL i
  | .ORI => ORI_IMPL i
  | .XOR => XOR_IMPL i
  | .XORI => XORI_IMPL i
  | .NOR => NOR_IMPL i
  | .SLL => SLL_IMPL i
  | .SLLV => SLLV_IMPL i
  | .SRL => SRL_IMPL i host
  | .SRLV => SRLV_IMPL i host
  | .SRA => SRA_IMPL i host
  | .SRAV => SRAV_IMPL i host
  | .SLT => SLT_IMPL i
  | .SLTI => SLTI_IMPL i
  | .SLTU => SLTU_IMPL i
  | .SLTIU => SLTIU_IMPL i
  | .FADD_S => FADD_S_IMPL i host
  | .FADD_D => FADD_D_IMPL i host
  | .FSUB_S => FSUB_S_IMPL i host
  | .FSUB_D => FSUB_D_IMPL i host
  | .FMUL_S => FMUL_S_IMPL i host
  | .FMUL_D => FMUL_D_IMPL i host
  | .FDIV_S => FDIV_S_IMPL i host
  | .FDIV_D => FDIV_D_IMPL i host
  | .FABS_S => FABS_S_IMPL i host
  | .FABS_D => FABS_D_IMPL i host
  | .FMOV_S => FMOV_S_IMPL i
  | .FMOV_D => FMOV_D_IMPL i
  | .FNEG_S => FNEG_S_IMPL i host
  | .FNEG_D => FNEG_D_IMPL i host
  | .CVT_S_D => CVT_S_D_IMPL i host
  | .CVT_S_W => CVT_S_W_IMPL i host
  | .CVT_D_S => CVT_D_S_IMPL i host
  | .CVT_D_W => CVT_D_W_IMPL i host
  | .CVT_W_S => CVT_W_S_IMPL i host
  | .CVT_W_D => CVT_W_D_IMPL i host
  | .C_EQ_S => C_EQ_S_IMPL i host
  | .C_EQ_D => C_EQ_D_IMPL i host
  | .C_LT_S => C_LT_S_IMPL i host
  | .C_LT_D => C_LT_D_IMPL i host
  | .C_LE_S => C_LE_S_IMPL i host
  | .C_LE_D => C_LE_D_IMPL i host
  | .FSQRT_S => FSQRT_S_IMPL i host
  | .FSQRT_D => FSQRT_D_IMPL i host
  | .SYSCALL => SYSCALL_IMPL
  | .BREAK => BREAK_IMPL
  | .LUI => LUI_IMPL i
  | .MFC1 => MFC1_IMPL i
  | .DMFC1 => DMFC1_IMPL i
  | .CFC1 => CFC1_IMPL
  | .MTC1 => MTC1_IMPL i
  | .DMTC1 => DMTC1_IMPL i
  | .CTC1 => CTC1_IMPL

end Pisa
