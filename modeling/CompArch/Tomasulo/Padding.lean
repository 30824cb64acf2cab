import CompArch.Tomasulo.Runs
/-!
# Traces that end in a trap

`fetch` steps over traps without looking where the trace ends. Over a last trap
it steps to the zero entry behind it, and from then on the pipeline runs as on
the trace that has this entry as its last instruction.
-/

namespace Tomasulo

open Pisa

/-- The trace with the entry behind a last trap. -/
def Trace.padded (trace : Trace) : Trace :=
  if IS_TRAP (get_instr trace trace.length).op then trace ++ [⟨.NA, 0, 0, 0⟩] else trace

variable {trace : Trace}

theorem get_instr_padded (i : Nat) : get_instr trace.padded i = get_instr trace i := by
  unfold Trace.padded
  split
  case isFalse => rfl
  case isTrue =>
    cases i with
    | zero => rfl
    | succ i =>
      rw [get_instr, get_instr, List.getD_eq_getElem?_getD, List.getD_eq_getElem?_getD]
      by_cases hi : i < trace.length
      · rw [List.getElem?_append_left hi]
      · rw [List.getElem?_append_right (Nat.not_lt.1 hi), List.getElem?_eq_none (l := trace) (Nat.not_lt.1 hi)]
        cases i - trace.length <;> rfl

theorem getLast_eq {n : Nat} (h : trace.length = n + 1) : trace.getLast? = some (get_instr trace trace.length) := by
  rw [List.getLast?_eq_getElem?, h, get_instr, List.getD_eq_getElem?_getD, Nat.add_sub_cancel,
    List.getElem?_eq_getElem (by omega)]
  rfl

/-- The last instruction is the one at the length of the trace. -/
theorem endsInNoTrap_iff : EndsInNoTrap trace ↔ IS_TRAP (get_instr trace trace.length).op = false := by
  cases hn : trace.length with
  | zero =>
    rw [List.length_eq_zero_iff] at hn
    subst hn
    rw [get_instr]
    exact ⟨fun _ => rfl, fun _ => nofun⟩
  | succ n =>
    rw [← hn]
    unfold EndsInNoTrap
    rw [getLast_eq hn]
    exact ⟨fun h => h _ rfl, fun h i hi => Option.some.inj hi ▸ h⟩

theorem padded_ends (trace : Trace) : EndsInNoTrap trace.padded := by
  rw [endsInNoTrap_iff, get_instr_padded]
  unfold Trace.padded
  split
  case isFalse h => exact Bool.eq_false_iff.2 h
  case isTrue =>
    rw [List.length_append, List.length_singleton, get_instr, List.getD_eq_default _ _ (le_refl _)]
    rfl

theorem padded_eq (h : EndsInNoTrap trace) : trace.padded = trace :=
  if_neg (Bool.eq_false_iff.1 (endsInNoTrap_iff.1 h))

theorem padded_length (h : ¬ EndsInNoTrap trace) : trace.padded.length = trace.length + 1 := by
  rw [endsInNoTrap_iff, Bool.not_eq_false] at h
  rw [Trace.padded, if_pos h, List.length_append, List.length_singleton]

/-! ## The stages on two traces with the same entries -/

section
variable {c c' : Code} {cycle : Nat} {p : Pipeline}

theorem execute_congr (h : c.op = c'.op) : p.execute_To_CDB c cycle = p.execute_To_CDB c' cycle := by
  obtain ⟨n, op, hp⟩ := c
  obtain ⟨n', op', hp'⟩ := c'
  obtain rfl : op = op' := h
  have hclear (l : List Nat) : Pipeline.clearList ⟨n, op, hp⟩ l = Pipeline.clearList ⟨n', op, hp'⟩ l := by
    induction l with
    | nil => rfl
    | cons i l ih => rw [Pipeline.clearList, Pipeline.clearList, ih]
  unfold Pipeline.execute_To_CDB
  dsimp only
  rw [hclear]
  rfl

theorem enter_congr (h : c.op = c'.op) (i : Nat) : p.enter c cycle i = p.enter c' cycle i := by
  rw [Pipeline.enter, Pipeline.enter, h]

/-- The first position behind `i` that holds no trap does not depend on how the trace was cut. -/
theorem nextFetch_congr (h : c.op = c'.op) (i : Nat) : c.nextFetch i = c'.nextFetch i := by
  obtain ⟨h1, h2, h3⟩ := c.nextFetch_spec i
  obtain ⟨h1', h2', h3'⟩ := c'.nextFetch_spec i
  rw [h] at h2 h3
  rcases Nat.lt_trichotomy (c.nextFetch i) (c'.nextFetch i) with hlt | heq | hgt
  · rw [h3' _ h1 hlt] at h2
    cases h2
  · exact heq
  · rw [h3 _ h1' hgt] at h2'
    cases h2'

end

/-- The state of a cycle before its last stage. -/
def State.beforeFetch (trace : Trace) (cycle : Nat) (s : State) : State :=
  (((s.CDB_To_retire).execute_To_CDB trace cycle).issue_To_execute cycle).dispatch_To_issue trace cycle

theorem op_padded : trace.padded.code.op = trace.code.op := by
  funext i
  exact congrArg Inst.op (get_instr_padded i)

theorem beforeFetch_padded (cycle : Nat) (s : State) :
    s.beforeFetch trace.padded cycle = s.beforeFetch trace cycle := by
  have hrename (i : Nat) (s : State) : s.rename trace.padded i = s.rename trace i := by
    unfold State.rename
    rw [get_instr_padded]
  unfold State.beforeFetch State.dispatch_To_issue State.execute_To_CDB
  simp only [execute_congr op_padded, enter_congr op_padded, hrename]

/-- Before the last trap the cut plays no part, and behind it both traces are fetched. -/
theorem fetch_padded {cycle : Nat} {s : State} (h : IS_TRAP (get_instr trace s.fetch_index).op = false) :
    s.fetch_To_dispatch trace.padded cycle = s.fetch_To_dispatch trace cycle := by
  by_cases he : EndsInNoTrap trace
  · rw [padded_eq he]
  · have hlen : trace.padded.code.sim_num_insn = trace.length + 1 := padded_length he
    have hne : s.fetch_index ≠ trace.length := by
      intro hs
      rw [hs] at h
      exact he (endsInNoTrap_iff.2 h)
    have hiff : trace.padded.code.sim_num_insn ≤ s.fetch_index ↔ trace.code.sim_num_insn ≤ s.fetch_index := by
      change _ ↔ trace.length ≤ s.fetch_index
      omega
    unfold State.fetch_To_dispatch Pipeline.fetch_To_dispatch Pipeline.fetch
    simp only [hiff, nextFetch_congr op_padded]

/-! ## Runs -/

namespace Pipeline

theorem foldl_fetch_index {f : Pipeline → Nat → Pipeline} (h : ∀ p i, (f p i).fetch_index = p.fetch_index)
    (l : List Nat) (p : Pipeline) : (l.foldl f p).fetch_index = p.fetch_index := by
  induction l generalizing p with
  | nil => rfl
  | cons i l ih => exact (ih _).trans (h p i)

variable (code : Code) (cycle : Nat) (p : Pipeline)

theorem execute_fetch_index : (p.execute_To_CDB code cycle).fetch_index = p.fetch_index := by
  refine (foldl_fetch_index (fun p i => ?_) _ _).trans ?_
  · unfold leave
    split <;> rfl
  · unfold takeBus
    split <;> rfl

theorem issue_fetch_index (ready : Nat → Bool) : (p.issue_To_execute cycle ready).fetch_index = p.fetch_index := by
  have hclass (c : Class) (p : Pipeline) : (p.issueClass cycle ready c).fetch_index = p.fetch_index := by
    unfold issueClass
    split
    · rfl
    · refine foldl_fetch_index (fun p i => ?_) _ _
      unfold start
      split <;> rfl
  exact (hclass .FP _).trans (hclass .INT p)

theorem enter_fetch_index {i : Nat} {p' : Pipeline} (h : p.enter code cycle i = some p') :
    p'.fetch_index = p.fetch_index := by
  unfold enter at h
  split at h
  · cases h
    rfl
  · split at h
    · cases h
    · cases h
      rfl

end Pipeline

theorem State.beforeFetch_fetch_index (trace : Trace) (cycle : Nat) (s : State) :
    (s.beforeFetch trace cycle).fetch_index = s.fetch_index := by
  have hretire : s.CDB_To_retire.fetch_index = s.fetch_index := by
    unfold State.CDB_To_retire
    split <;> rfl
  have hissue : ((s.CDB_To_retire.execute_To_CDB trace cycle).issue_To_execute cycle).fetch_index = s.fetch_index :=
    (Pipeline.issue_fetch_index _ _ _).trans ((Pipeline.execute_fetch_index _ _ _).trans hretire)
  unfold State.beforeFetch State.dispatch_To_issue
  split
  · exact hissue
  · split
    case h_1 => exact hissue
    case h_2 p he => exact (Pipeline.enter_fetch_index _ _ _ he).trans hissue

theorem State.after_succ (trace : Trace) (k : Nat) :
    State.after trace (k + 1) = (State.after trace k).step trace (k + 1) := by
  rw [State.after, Loop.rounds, Nat.add_comm 1 k]
  rfl

/-- No trap is ever fetched. -/
theorem fetch_index_no_trap (trace : Trace) (k : Nat) :
    IS_TRAP (get_instr trace (State.after trace k).fetch_index).op = false := by
  induction k with
  | zero =>
    change IS_TRAP (get_instr trace 0).op = false
    rw [get_instr]
    rfl
  | succ k ih =>
    rw [State.after_succ]
    change IS_TRAP (trace.code.op ((Pipeline.fetch_To_dispatch trace.code (k + 1)
      ((State.after trace k).beforeFetch trace (k + 1)).toPipeline).fetch_index)) = false
    have hkeep := State.beforeFetch_fetch_index trace (k + 1) (State.after trace k)
    unfold Pipeline.fetch_To_dispatch
    split
    · rw [hkeep]
      exact ih
    · split
      · exact (trace.code.nextFetch_spec _).2.1
      · rw [hkeep]
        exact ih

theorem State.step_eq (trace : Trace) (cycle : Nat) (s : State) :
    s.step trace cycle = (s.beforeFetch trace cycle).fetch_To_dispatch trace cycle := rfl

/-- The pipeline runs on every trace as it does on one that ends in no trap. -/
theorem after_padded (trace : Trace) (k : Nat) : State.after trace.padded k = State.after trace k := by
  induction k with
  | zero => rw [State.after, State.after, Loop.rounds, Loop.rounds]
  | succ k ih =>
    rw [State.after_succ, State.after_succ, ih, State.step_eq, State.step_eq, beforeFetch_padded, fetch_padded]
    rw [State.beforeFetch_fetch_index]
    exact fetch_index_no_trap trace k

end Tomasulo
