import CompArch.InOrder
import CompArch.Pisa
import Mathlib.Data.Rat.Defs
/-!
# The RAW-hazard counters of assignment 1 (`sim-safe.c`)

What `sim_main` does for the counters with each instruction it executes. The
instruction's effect, the reference count and the debugger are left out, so a
program is the list of instructions it executes.
-/

namespace Hazards

open Function Pisa

/-! ## Instructions as this simulator sees them -/

/-- In this simulator `DNA` is 0, the number of the zero register. -/
def DNA : Reg := 0

/-- `r_in[i]`. -/
def r_in (x : Inst) (i : Fin 3) : Reg := (x.r_in i).getD DNA

/-- `r_out[i]`. -/
def r_out (x : Inst) (i : Fin 2) : Reg := (x.r_out i).getD DNA

def isLoad (x : Inst) : Bool := MD_OP_FLAGS x.op &&& F_MEM != 0 && MD_OP_FLAGS x.op &&& F_LOAD != 0

def isStore (x : Inst) : Bool := MD_OP_FLAGS x.op &&& F_MEM != 0 && MD_OP_FLAGS x.op &&& F_STORE != 0

/-! ## The counters -/

/-- The table and the counters of one of the two questions. -/
structure Counts where
  reg_ready_asm1 : Reg → Nat := fun _ => 0
  sim_num_RAW_hazard_1cycle : Nat := 0
  sim_num_RAW_hazard_2cycle : Nat := 0
  sim_num_RAW_hazard : Nat := 0

/-- Counts a hazard of `d` cycles. -/
def Counts.hazard (c : Counts) (d : Nat) : Counts :=
  { c with
    sim_num_RAW_hazard_1cycle := if d = 1 then c.sim_num_RAW_hazard_1cycle + 1 else c.sim_num_RAW_hazard_1cycle
    sim_num_RAW_hazard_2cycle := if d = 2 then c.sim_num_RAW_hazard_2cycle + 1 else c.sim_num_RAW_hazard_2cycle
    sim_num_RAW_hazard := c.sim_num_RAW_hazard + 1 }

def Counts.setReady (c : Counts) (r : Reg) (t : Nat) : Counts :=
  { c with reg_ready_asm1 := update c.reg_ready_asm1 r t }

/-- `if (r != DNA) reg_ready_asm1[r] = t` -/
def Counts.output (c : Counts) (r : Reg) (t : Nat) : Counts := if r ≠ DNA then c.setReady r t else c

/-- `r_in[i] != DNA && reg_ready_asm1[r_in[i]] > sim_num_insn` -/
def Counts.waits (c : Counts) (n : Nat) (x : Inst) (i : Fin 3) : Bool :=
  r_in x i != DNA && decide (n < c.reg_ready_asm1 (r_in x i))

/-- The loop of question 1 over the input slots. -/
def q1Loop (n : Nat) (x : Inst) (c : Counts) : List (Fin 3) → Counts
  | [] => c
  | i :: is =>
    if c.waits n x i then (c.hazard (c.reg_ready_asm1 (r_in x i) - n)).setReady (r_in x i) n
    else q1Loop n x c is

/-- Question 1 for instruction `x`, the `n`-th. -/
def q1 (n : Nat) (x : Inst) (c : Counts) : Counts :=
  ((q1Loop n x c [0, 1, 2]).output (r_out x 0) (n + 3)).output (r_out x 1) (n + 3)

/-- The loop of question 2: the data of a store, in slot 0, is not waited for. -/
def q2Loop (n : Nat) (x : Inst) (c : Counts) : List (Fin 3) → Counts
  | [] => c
  | i :: is =>
    if c.waits n x i then
      if i == 0 && isStore x then q2Loop n x c is
      else c.hazard (c.reg_ready_asm1 (r_in x i) - n)
    else q2Loop n x c is

/-- Question 2 for instruction `x`, the `n`-th. -/
def q2 (n : Nat) (x : Inst) (c : Counts) : Counts :=
  let t := n + if isLoad x then 3 else 2
  ((q2Loop n x c [0, 1, 2]).output (r_out x 0) t).output (r_out x 1) t

structure State where
  sim_num_insn : Nat := 0
  q1 : Counts := {}
  q2 : Counts := {}

/-- One round of the loop of `sim_main`. -/
def State.step (s : State) (x : Inst) : State where
  sim_num_insn := s.sim_num_insn + 1
  q1 := Hazards.q1 (s.sim_num_insn + 1) x s.q1
  q2 := Hazards.q2 (s.sim_num_insn + 1) x s.q2

/-- The counters after a program has executed `is`. -/
def sim_main (is : List Inst) : State := is.foldl State.step {}

@[simp] theorem sim_main_snoc (p : List Inst) (x : Inst) : sim_main (p ++ [x]) = (sim_main p).step x := by
  simp [sim_main]

@[simp] theorem sim_num_insn_eq (p : List Inst) : (sim_main p).sim_num_insn = p.length := by
  induction p using List.reverseRecOn with
  | nil => rfl
  | append_singleton p x ih => simp [State.step, ih]

/-- `CPI_from_RAW_hazard_q1` and `CPI_from_RAW_hazard_q2` -/
def CPI_from_RAW_hazard (n : Nat) (c : Counts) : ℚ :=
  1 + (c.sim_num_RAW_hazard_1cycle / n) + (2 * c.sim_num_RAW_hazard_2cycle / n)

@[simp] theorem Counts.output_ready (c : Counts) (r r' : Reg) (t : Nat) :
    (c.output r t).reg_ready_asm1 r' = if r' = r ∧ r ≠ DNA then t else c.reg_ready_asm1 r' := by
  unfold Counts.output
  by_cases hr : r ≠ DNA
  · by_cases he : r' = r <;> simp [hr, he, Counts.setReady]
  · simp [hr]

@[simp] theorem Counts.output_1cycle (c : Counts) (r : Reg) (t : Nat) :
    (c.output r t).sim_num_RAW_hazard_1cycle = c.sim_num_RAW_hazard_1cycle := by
  unfold Counts.output
  split <;> rfl

@[simp] theorem Counts.output_2cycle (c : Counts) (r : Reg) (t : Nat) :
    (c.output r t).sim_num_RAW_hazard_2cycle = c.sim_num_RAW_hazard_2cycle := by
  unfold Counts.output
  split <;> rfl

/-! ## The pipelines they are about -/

/-- The registers an instruction reads through the input slots that `use` admits. -/
def inputs (use : Fin 3 → Bool) (x : Inst) : List Reg :=
  (([0, 1, 2].filter use).map (r_in x)).filter (· ≠ DNA)

def outputs (x : Inst) : List Reg := [r_out x 0, r_out x 1].filter (· ≠ DNA)

theorem mem_outputs {x : Inst} {r : Reg} : r ∈ outputs x ↔ (r = r_out x 0 ∨ r = r_out x 1) ∧ r ≠ DNA := by
  simp [outputs]

/-- Both outputs of an instruction become ready together. -/
theorem Counts.outputs_ready (c : Counts) (x : Inst) (r : Reg) (t : Nat) :
    ((c.output (r_out x 0) t).output (r_out x 1) t).reg_ready_asm1 r =
      if r ∈ outputs x then t else c.reg_ready_asm1 r := by
  rw [Counts.output_ready, Counts.output_ready]
  by_cases hr : r ∈ outputs x
  · obtain ⟨h, hd⟩ := mem_outputs.1 hr
    rw [if_pos hr]
    by_cases h1 : r = r_out x 1
    · rw [if_pos ⟨h1, h1 ▸ hd⟩]
    · have h0 := h.resolve_right h1
      rw [if_neg (fun h => h1 h.1), if_pos ⟨h0, h0 ▸ hd⟩]
  · have hn (i : Fin 2) (hi : i = 0 ∨ i = 1) : ¬ (r = r_out x i ∧ r_out x i ≠ DNA) := by
      rintro ⟨rfl, hd⟩
      refine hr (mem_outputs.2 ⟨?_, hd⟩)
      rcases hi with rfl | rfl
      · exact .inl rfl
      · exact .inr rfl
    rw [if_neg hr, if_neg (hn 1 (.inr rfl)), if_neg (hn 0 (.inl rfl))]

/-- The pipeline in which `x` waits for the slots `use x`, and its results can
be read `latency x` cycles after it decoded. -/
def pipeline (use : Inst → Fin 3 → Bool) (latency : Inst → Nat) : InOrder Inst Reg where
  reads x := inputs (use x) x
  writes := outputs
  latency := latency

/-- No forwarding. -/
def noForwarding : InOrder Inst Reg := pipeline (fun _ _ => true) fun _ => 3

/-- A store does not wait for its data, in slot 0. -/
def needed (x : Inst) (i : Fin 3) : Bool := !(i == 0 && isStore x)

def forwardLatency (x : Inst) : Nat := if isLoad x then 3 else 2

/-- Forwarding: a load's result comes a cycle later than the others. -/
def forwarding : InOrder Inst Reg := pipeline needed forwardLatency

end Hazards
