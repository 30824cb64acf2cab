import CompArch.Outcome
import CompArch.Pisa.Impl
/-!
# The machine that executes instructions (`regs.h`, the accessors of the simulators)

The register accessors are the same in every functional simulator. The accessors of
the memory are its ports. They declare no fault: the simulators set `md_fault_none`
before they access the memory.
-/

namespace Pisa

open Effects Function Memory

/-- `struct regs_t` -/
structure Regs where
  R : Nat → Word
  F : Nat → Word
  hi : Word
  lo : Word
  fcc : Word
  PC : Word
  NPC : Word

def MD_NUM_IREGS : Nat := 32
def MD_NUM_FREGS : Nat := 32

def Regs.setR (r : Regs) (n : Nat) (v : Word) : Regs := { r with R := update r.R n v }
def Regs.setF (r : Regs) (n : Nat) (v : Word) : Regs := { r with F := update r.F n v }

@[simp] theorem Regs.setR_self (r : Regs) (n : Nat) (v : Word) : (r.setR n v).R n = v := update_self ..

theorem Regs.setR_ne (r : Regs) {n k : Nat} (h : k ≠ n) (v : Word) : (r.setR n v).R k = r.R k := update_of_ne h ..

@[simp] theorem Regs.setF_self (r : Regs) (n : Nat) (v : Word) : (r.setF n v).F n = v := update_self ..

theorem Regs.setF_ne (r : Regs) {n k : Nat} (h : k ≠ n) (v : Word) : (r.setF n v).F k = r.F k := update_of_ne h ..

@[simp] theorem Regs.setR_setR (r : Regs) (n : Nat) (v w : Word) : (r.setR n v).setR n w = r.setR n w := by
  simp [Regs.setR]

def regs_init : Regs := ⟨fun _ => 0, fun _ => 0, 0, 0, 0, 0, 0⟩

/-! ## System calls -/

/-- What `sys_syscall` does to the simulated program. -/
inductive SysOp
  | GPR (n : Nat)
  | SET_GPR (n : Nat) (v : Word)
  | mem_fn (cmd : Cmd) (addr : Addr) (p : Buffer) (nbytes : BitVec 32)
  | exit

def SysOp.Ans : SysOp → Type
  | .GPR _ => Word
  | .SET_GPR .. => Unit
  | .mem_fn .. => Fault × Buffer
  | .exit => Empty

/-- `sys_syscall`, where `O` is the state of the host as the calls see it. -/
abbrev Syscall (O : Type) := O → Prog SysOp SysOp.Ans O

/-! ## Accessors -/

variable {ε σ O α : Type}

/-- What the simulators define each in their own way: the access to the memory behind the macros,
the function a system call accesses it with, and what they do before one. -/
structure Ports (ε σ : Type) where
  read (n : Nat) (addr : Addr) (s : σ) : Except ε (BitVec (8 * n) × σ)
  write (n : Nat) (addr : Addr) (v : BitVec (8 * n)) (s : σ) : Except ε σ
  mem_fn : AccessFn ε σ
  sync (s : σ) : Except ε σ
  abort (why : Abort) : ε

/-- The simulated program: its registers, what is behind the ports, and the host. -/
structure Machine (σ O : Type) where
  regs : Regs
  store : σ
  os : O

namespace Ports

variable (p : Ports ε σ)

/-- Accesses outside of a register file are undefined. -/
def reg (n size : Nat) (r : α) : Except ε α := if n < size then .ok r else .error (p.abort .undefined)

def load (n : Nat) (addr : Addr) (s : Machine σ O) : Except ε ((BitVec (8 * n) × Fault) × Machine σ O) := do
  let (v, store) ← p.read n addr s.store
  return ((v, .none), { s with store })

def save (n : Nat) (v : BitVec (8 * n)) (addr : Addr) (s : Machine σ O) : Except ε (Fault × Machine σ O) := do
  let store ← p.write n addr v s.store
  return (.none, { s with store })

def sysHandler : Handler SysOp SysOp.Ans ε (Regs × σ)
  | .GPR n, s => p.reg n MD_NUM_IREGS (s.1.R n, s)
  | .SET_GPR n v, s => p.reg n MD_NUM_IREGS ((), (s.1.setR n v, s.2))
  | .mem_fn cmd addr q nbytes, s => do
    let (fault, q, store) ← p.mem_fn cmd addr q nbytes s.2
    return ((fault, q), (s.1, store))
  | .exit, _ => .error (p.abort .exit)

def syscall (sys_syscall : Syscall O) (s : Machine σ O) : Except ε (Unit × Machine σ O) := do
  let store ← p.sync s.store
  let (os, regs, store) ← (sys_syscall s.os).run p.sysHandler (s.regs, store)
  return ((), { regs, store, os })

/-- The macros. -/
def handler (sys_syscall : Syscall O) : Handler Macro Macro.Ans ε (Machine σ O)
  | .GPR n, s => p.reg n MD_NUM_IREGS (s.regs.R n, s)
  | .SET_GPR n v, s => p.reg n MD_NUM_IREGS ((), { s with regs := s.regs.setR n v })
  | .FPR_L n, s => p.reg n MD_NUM_FREGS (s.regs.F n, s)
  | .SET_FPR_L n v, s => p.reg n MD_NUM_FREGS ((), { s with regs := s.regs.setF n v })
  | .HI, s => .ok (s.regs.hi, s)
  | .SET_HI v, s => .ok ((), { s with regs.hi := v })
  | .LO, s => .ok (s.regs.lo, s)
  | .SET_LO v, s => .ok ((), { s with regs.lo := v })
  | .FCC, s => .ok (s.regs.fcc, s)
  | .SET_FCC v, s => .ok ((), { s with regs.fcc := v })
  | .CPC, s => .ok (s.regs.PC, s)
  | .SET_NPC v, s => .ok ((), { s with regs.NPC := v })
  | .READ_BYTE addr, s => p.load 1 addr s
  | .READ_HALF addr, s => p.load 2 addr s
  | .READ_WORD addr, s => p.load 4 addr s
  | .WRITE_BYTE v addr, s => p.save 1 v addr s
  | .WRITE_HALF v addr, s => p.save 2 v addr s
  | .WRITE_WORD v addr, s => p.save 4 v addr s
  | .SYSCALL, s => p.syscall sys_syscall s
  | .abort why, _ => .error (p.abort why)

end Ports

/-! ## The memory itself behind the ports -/

/-- How a run of a simulator ends. -/
inductive Stop
  | bad (b : Bad)
  | abort (why : Abort)
  /-- `fatal("fault (%d) detected @ 0x%08p", fault, regs.regs_PC)` -/
  | fault (f : Fault) (PC : Word)
  deriving DecidableEq

def Stop.of (r : Except Bad α) : Except Stop α := r.mapError .bad

/-- The macros of sim-safe.c and sim-fast.c. -/
def memPorts : Ports Stop Mem where
  read n addr m := Stop.of (m.MEM_READ n addr)
  write _ addr v m := Stop.of (m.MEM_WRITE addr v)
  mem_fn cmd addr q nbytes m := Stop.of (m.mem_access cmd addr q nbytes)
  sync := .ok
  abort := .abort

/-! ## What the macros answer -/

section Answers
variable {p : Ports ε σ} {sys : Syscall O} {s : Machine σ O} {n : Nat}

theorem reg_eq_ok {size : Nat} {r r' : α} : p.reg n size r = .ok r' ↔ n < size ∧ r = r' := by
  unfold Ports.reg
  split
  case isTrue h => simp [h]
  case isFalse h => simp [h]

theorem load_ok {addr : Addr} {r : (BitVec (8 * n) × Fault) × Machine σ O} (h : p.load n addr s = .ok r) :
    ∃ q, p.read n addr s.store = .ok q ∧ r = ((q.1, .none), { s with store := q.2 }) := by
  obtain ⟨q, hq, hr⟩ := Outcome.bind_ok.1 h
  exact ⟨q, hq, (Except.ok.inj hr).symm⟩

theorem load_of {addr : Addr} {q : BitVec (8 * n) × σ} (h : p.read n addr s.store = .ok q) :
    p.load n addr s = .ok ((q.1, .none), { s with store := q.2 }) := by
  rw [Ports.load, h]
  rfl

theorem save_ok {v : BitVec (8 * n)} {addr : Addr} {r : Fault × Machine σ O} (h : p.save n v addr s = .ok r) :
    ∃ store, p.write n addr v s.store = .ok store ∧ r = (.none, { s with store }) := by
  obtain ⟨store, hw, hr⟩ := Outcome.bind_ok.1 h
  exact ⟨store, hw, (Except.ok.inj hr).symm⟩

theorem save_of {v : BitVec (8 * n)} {addr : Addr} {store : σ} (h : p.write n addr v s.store = .ok store) :
    p.save n v addr s = .ok (.none, { s with store }) := by
  rw [Ports.save, h]
  rfl

theorem syscall_ok {r : Unit × Machine σ O} (h : p.syscall sys s = .ok r) :
    ∃ store os regs store', p.sync s.store = .ok store ∧
      (sys s.os).run p.sysHandler (s.regs, store) = .ok (os, (regs, store')) ∧ r = ((), ⟨regs, store', os⟩) := by
  obtain ⟨store, hs, h⟩ := Outcome.bind_ok.1 h
  obtain ⟨⟨os, regs, store'⟩, hr, h⟩ := Outcome.bind_ok.1 h
  exact ⟨store, os, regs, store', hs, hr, (Except.ok.inj h).symm⟩

theorem syscall_of {store store' : σ} {os : O} {regs : Regs} (hs : p.sync s.store = .ok store)
    (hr : (sys s.os).run p.sysHandler (s.regs, store) = .ok (os, (regs, store'))) :
    p.syscall sys s = .ok ((), ⟨regs, store', os⟩) := by
  rw [Ports.syscall, hs]
  show ((sys s.os).run p.sysHandler (s.regs, store) >>= _) = _
  rw [hr]
  rfl

end Answers

/-! ## Execution, macro by macro -/

section Exec
variable (p : Ports ε σ) (sys : Syscall O) (s : Machine σ O) {n : Nat} (v : Word) (k : Word → Code α)
  (k' : Unit → Code α)

theorem run_macro (o : Macro) {a : o.Ans} {s' : Machine σ O} (ho : p.handler sys o s = .ok (a, s'))
    (k : o.Ans → Code α) :
    (Prog.perform o >>= k).run (p.handler sys) s = (k a).run (p.handler sys) s' :=
  run_bind_ok _ ((run_perform _ o s).trans ho) k

theorem reg_ok {size : Nat} (hn : n < size) (r : α) : p.reg n size r = .ok r := if_pos hn

@[simp] theorem run_return (a : α) : (pure a : Code α).run (p.handler sys) s = .ok (a, s) := rfl

@[simp] theorem run_GPR (hn : n < MD_NUM_IREGS) :
    (GPR n >>= k).run (p.handler sys) s = (k (s.regs.R n)).run (p.handler sys) s :=
  run_macro p sys s (.GPR n) (reg_ok p hn _) k

@[simp] theorem run_SET_GPR (hn : n < MD_NUM_IREGS) :
    (SET_GPR n v >>= k').run (p.handler sys) s = (k' ()).run (p.handler sys) { s with regs := s.regs.setR n v } :=
  run_macro p sys s (.SET_GPR n v) (reg_ok p hn _) k'

@[simp] theorem run_FPR_L (hn : n < MD_NUM_FREGS) :
    (FPR_L n >>= k).run (p.handler sys) s = (k (s.regs.F n)).run (p.handler sys) s :=
  run_macro p sys s (.FPR_L n) (reg_ok p hn _) k

@[simp] theorem run_SET_FPR_L (hn : n < MD_NUM_FREGS) :
    (SET_FPR_L n v >>= k').run (p.handler sys) s = (k' ()).run (p.handler sys) { s with regs := s.regs.setF n v } :=
  run_macro p sys s (.SET_FPR_L n v) (reg_ok p hn _) k'

@[simp] theorem run_HI : (HI >>= k).run (p.handler sys) s = (k s.regs.hi).run (p.handler sys) s := rfl
@[simp] theorem run_LO : (LO >>= k).run (p.handler sys) s = (k s.regs.lo).run (p.handler sys) s := rfl
@[simp] theorem run_CPC : (CPC >>= k).run (p.handler sys) s = (k s.regs.PC).run (p.handler sys) s := rfl

@[simp] theorem run_SET_HI :
    (SET_HI v >>= k').run (p.handler sys) s = (k' ()).run (p.handler sys) { s with regs.hi := v } := rfl

@[simp] theorem run_SET_LO :
    (SET_LO v >>= k').run (p.handler sys) s = (k' ()).run (p.handler sys) { s with regs.lo := v } := rfl

@[simp] theorem run_SET_NPC :
    (SET_NPC v >>= k').run (p.handler sys) s = (k' ()).run (p.handler sys) { s with regs.NPC := v } := rfl

end Exec

end Pisa
