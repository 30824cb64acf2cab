import Mathlib.Data.Fintype.Basic
import Mathlib.Data.List.GetD
import CompArch.Pisa
import CompArch.Slots
import CompArch.Loop
/-!
# The Tomasulo pipeline (`tomasulo.c`)

A pointer to an instruction is its position in the trace, which is also its
`index`. What decides when an instruction moves, except for the tags, is a
`Pipeline`; `State` adds the `Q` fields and the map table. Debug output is left
out, and cycle counters are natural numbers.
-/

namespace Tomasulo

open Pisa

/-! ## Parameters -/

abbrev INSTR_QUEUE_SIZE : Nat := 16
abbrev RESERV_INT_SIZE : Nat := 5
abbrev RESERV_FP_SIZE : Nat := 3
abbrev FU_INT_SIZE : Nat := 3
abbrev FU_FP_SIZE : Nat := 1
abbrev FU_INT_LATENCY : Nat := 5
abbrev FU_FP_LATENCY : Nat := 7

/-! ## Identifying instructions -/

def IS_UNCOND_CTRL (op : Opcode) : Bool := MD_OP_FLAGS op &&& F_CALL != 0 || MD_OP_FLAGS op &&& F_UNCOND != 0
def IS_COND_CTRL (op : Opcode) : Bool := MD_OP_FLAGS op &&& F_COND != 0
def IS_FCOMP (op : Opcode) : Bool := MD_OP_FLAGS op &&& F_FCOMP != 0
def IS_ICOMP (op : Opcode) : Bool := MD_OP_FLAGS op &&& F_ICOMP != 0
def IS_LOAD (op : Opcode) : Bool := MD_OP_FLAGS op &&& F_LOAD != 0
def IS_STORE (op : Opcode) : Bool := MD_OP_FLAGS op &&& F_STORE != 0
def IS_TRAP (op : Opcode) : Bool := MD_OP_FLAGS op &&& F_TRAP != 0

def USES_INT_FU (op : Opcode) : Bool := IS_ICOMP op || IS_LOAD op || IS_STORE op
def USES_FP_FU (op : Opcode) : Bool := IS_FCOMP op
def WRITES_CDB (op : Opcode) : Bool := IS_ICOMP op || IS_LOAD op || IS_FCOMP op

/-- The two classes of reservation stations and functional units. -/
inductive Class
  | INT | FP
  deriving DecidableEq

instance : Fintype Class := ⟨{.INT, .FP}, fun c => by cases c <;> decide⟩

def Class.reservSize : Class → Nat
  | .INT => RESERV_INT_SIZE
  | .FP => RESERV_FP_SIZE

def Class.fuSize : Class → Nat
  | .INT => FU_INT_SIZE
  | .FP => FU_FP_SIZE

def Class.latency : Class → Nat
  | .INT => FU_INT_LATENCY
  | .FP => FU_FP_LATENCY

/-- The class of an opcode, from the tests of `dispatch_To_issue` in their order. -/
def unitOf (op : Opcode) : Option Class :=
  if USES_INT_FU op then some .INT else if USES_FP_FU op then some .FP else none

/-! ## The trace -/

/-- What the pipeline reads of a trace: its length and its opcodes. Behind the
last instruction the trace is zero. -/
structure Code where
  sim_num_insn : Nat
  op : Nat → Opcode
  past : ∀ i, sim_num_insn < i → op i = .NA

/-- The trace of `sim_main`, which skips entry 0. -/
abbrev Trace := List Inst

def get_instr (trace : Trace) : Nat → Inst
  | 0 => ⟨.NA, 0, 0, 0⟩
  | i + 1 => trace.getD i ⟨.NA, 0, 0, 0⟩

def Trace.code (trace : Trace) : Code where
  sim_num_insn := trace.length
  op i := (get_instr trace i).op
  past i h := by
    cases i with
    | zero => rfl
    | succ i => rw [get_instr, List.getD_eq_default _ _ (Nat.lt_succ_iff.1 h)]

/-- The loop of `fetch`: the first position behind `i` that holds no trap. `fuel`
counts the instructions left; behind the last one stands no trap. -/
def Code.skipTraps (code : Code) : Nat → Nat → Nat
  | 0, i => i + 1
  | fuel + 1, i => if IS_TRAP (code.op (i + 1)) then code.skipTraps fuel (i + 1) else i + 1

def Code.nextFetch (code : Code) (fetch_index : Nat) : Nat :=
  code.skipTraps (code.sim_num_insn - fetch_index) fetch_index

/-! ## The pipeline without its tags -/

/-- The cycles an instruction entered each stage, 0 before it does. -/
structure Stamps where
  tom_dispatch_cycle : Nat := 0
  tom_issue_cycle : Nat := 0
  tom_execute_cycle : Nat := 0
  tom_cdb_cycle : Nat := 0
  deriving DecidableEq

structure Pipeline where
  instr_queue : Slots INSTR_QUEUE_SIZE Nat := fun _ => none
  instr_queue_size : Nat := 0
  reserv : (c : Class) → Slots c.reservSize Nat := fun _ _ => none
  fu : (c : Class) → Slots c.fuSize Nat := fun _ _ => none
  commonDataBus : Option Nat := none
  fetch_index : Nat := 0
  stamps : Nat → Stamps := fun _ => {}

namespace Pipeline

variable (code : Code) (cycle : Nat) (p : Pipeline)

/-- Everything `is_simulation_done` looks at, except for the map table. -/
def Drained : Prop :=
  (∀ k, p.instr_queue k = none) ∧ (∀ c k, p.reserv c k = none) ∧ (∀ c k, p.fu c k = none) ∧ p.commonDataBus = none

instance : Decidable p.Drained := inferInstanceAs (Decidable (_ ∧ _))

/-- The bus is free again. -/
def retire : Pipeline := { p with commonDataBus := none }

/-- The instructions of a class whose latency has elapsed. -/
def finished (c : Class) : List Nat :=
  (p.fu c).entries.filter fun i => (p.stamps i).tom_execute_cycle + c.latency ≤ cycle

/-- `ready_instrs` of `execute_To_CDB`, sorted. -/
def finishedInOrder : List Nat := ExchangeSort.sort (p.finished cycle .INT ++ p.finished cycle .FP)

/-- `clear_rs_fu_instrs`: every store and the first instruction that is none. -/
def clearList : List Nat → List Nat
  | [] => []
  | i :: rest => if IS_STORE (code.op i) then i :: clearList rest else i :: rest.filter fun j => IS_STORE (code.op j)

/-- The first instruction that is no store takes the bus. -/
def takeBus (ready : List Nat) : Pipeline :=
  match ready.find? fun i => !IS_STORE (code.op i) with
  | none => p
  | some i =>
    { p with
      commonDataBus := some i
      stamps := Function.update p.stamps i { p.stamps i with tom_cdb_cycle := cycle } }

/-- An instruction leaves its station and its unit. -/
def leave (p : Pipeline) (i : Nat) : Pipeline :=
  match unitOf (code.op i) with
  | none => p
  | some c =>
    { p with
      reserv := Function.update p.reserv c ((p.reserv c).clear i)
      fu := Function.update p.fu c ((p.fu c).clear i) }

def execute_To_CDB : Pipeline :=
  let ready_instrs := p.finishedInOrder cycle
  (clearList code ready_instrs).foldl (leave code) (p.takeBus code cycle ready_instrs)

/-- `ready_instrs` of `issue_To_execute`, sorted; `ready` is the test of the `Q` fields. -/
def waitingInOrder (ready : Nat → Bool) (c : Class) : List Nat :=
  ExchangeSort.sort ((p.reserv c).entries.filter fun i => (p.stamps i).tom_execute_cycle = 0 && ready i)

/-- An instruction goes to the first free unit of its class, if there is one. -/
def start (c : Class) (p : Pipeline) (i : Nat) : Pipeline :=
  match (p.fu c).firstFree with
  | none => p
  | some k =>
    { p with
      fu := Function.update p.fu c ((p.fu c).put k i)
      stamps := Function.update p.stamps i { p.stamps i with tom_execute_cycle := cycle } }

/-- One half of `issue_To_execute`. -/
def issueClass (ready : Nat → Bool) (c : Class) : Pipeline :=
  if (p.fu c).firstFree = none then p else (p.waitingInOrder ready c).foldl (start cycle c) p

def issue_To_execute (ready : Nat → Bool) : Pipeline :=
  (p.issueClass cycle ready .INT).issueClass cycle ready .FP

/-- The instruction `dispatch_To_issue` looks at. -/
def oldest : Option Nat :=
  if p.instr_queue_size = 0 then none else p.instr_queue.get (p.instr_queue_size - 1)

/-- An instruction enters the first free station of its class; `none` is the
structural hazard. A control instruction needs no station. -/
def enter (i : Nat) : Option Pipeline :=
  match unitOf (code.op i) with
  | none => some p
  | some c =>
    match (p.reserv c).firstFree with
    | none => none
    | some k =>
      some { p with
        reserv := Function.update p.reserv c ((p.reserv c).put k i)
        stamps := Function.update p.stamps i { p.stamps i with tom_issue_cycle := cycle } }

/-- The oldest instruction leaves the queue. -/
def pop : Pipeline :=
  { p with
    instr_queue := fun k => if k.val = p.instr_queue_size - 1 then none else p.instr_queue k
    instr_queue_size := p.instr_queue_size - 1 }

def dispatch_To_issue : Pipeline :=
  match p.oldest with
  | none => p
  | some i =>
    match p.enter code cycle i with
    | none => p
    | some p' => p'.pop

/-- `fetch`, and the cycle stamp its caller writes. -/
def fetch : Pipeline :=
  let i := code.nextFetch p.fetch_index
  { p with
    instr_queue := fun k =>
      if k.val = 0 then some i
      else if k.val ≤ p.instr_queue_size then p.instr_queue.get (k.val - 1)
      else p.instr_queue k
    instr_queue_size := p.instr_queue_size + 1
    fetch_index := i
    stamps := Function.update p.stamps i { p.stamps i with tom_dispatch_cycle := cycle } }

def fetch_To_dispatch : Pipeline :=
  if code.sim_num_insn ≤ p.fetch_index then p
  else if p.instr_queue_size < INSTR_QUEUE_SIZE then p.fetch code cycle
  else p

end Pipeline

/-! ## The tags -/

structure State extends Pipeline where
  Q : Nat → Fin 3 → Option Nat := fun _ _ => none
  map_table : Reg → Option Nat := fun _ => none

namespace State

variable (trace : Trace) (cycle : Nat) (s : State)

/-- The three tests of `issue_To_execute`. -/
def ready (i : Nat) : Bool := decide (∀ k, s.Q i k = none)

/-- The tags of the stations and the map table forget the instruction on the bus. -/
def CDB_To_retire : State :=
  match s.commonDataBus with
  | none => s
  | some i =>
    { s with
      toPipeline := s.toPipeline.retire
      Q := fun x k => if (∃ c, (s.reserv c).Holds x) ∧ s.Q x k = some i then none else s.Q x k
      map_table := fun r => if s.map_table r = some i then none else s.map_table r }

def execute_To_CDB : State :=
  { s with toPipeline := s.toPipeline.execute_To_CDB trace.code cycle }

def issue_To_execute : State :=
  { s with toPipeline := s.toPipeline.issue_To_execute cycle s.ready }

/-- The registers other than `$r0`: the tests `r > 0` on an operand. -/
def register (o : Operand) : Option Reg := o.filter fun r => 0 < r.val

/-- The input tags from the map table, and then the map table for the outputs. -/
def rename (i : Nat) : State :=
  let instr := get_instr trace i
  if IS_UNCOND_CTRL instr.op || IS_COND_CTRL instr.op then s
  else
    { s with
      Q := Function.update s.Q i fun k =>
        match register (instr.r_in k) with
        | none => s.Q i k
        | some r => s.map_table r
      map_table := fun r => if ∃ j, register (instr.r_out j) = some r then some i else s.map_table r }

def dispatch_To_issue : State :=
  match s.oldest with
  | none => s
  | some i =>
    match s.toPipeline.enter trace.code cycle i with
    | none => s
    | some p => { s.rename trace i with toPipeline := p.pop }

def fetch_To_dispatch : State :=
  { s with toPipeline := s.toPipeline.fetch_To_dispatch trace.code cycle }

def is_simulation_done : Bool := decide (s.Drained ∧ ∀ r, s.map_table r = none)

/-- The body of the loop of `runTomasulo`. -/
def step : State :=
  ((((s.CDB_To_retire).execute_To_CDB trace cycle).issue_To_execute cycle).dispatch_To_issue trace cycle).fetch_To_dispatch
    trace cycle

end State

/-- `runTomasulo`, with fuel for its loop: the cycle count it returns and the state it leaves. -/
def runTomasulo (trace : Trace) (fuel : Nat) : Option (Nat × State) :=
  Loop.doWhile (State.step trace) State.is_simulation_done fuel 1 {}

end Tomasulo
