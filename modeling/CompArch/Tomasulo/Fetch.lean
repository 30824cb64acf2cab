import CompArch.Tomasulo.Chunks
import CompArch.Tomasulo.Padding
/-!
# Where `fetch` reads

The loop of `fetch` looks for the next instruction that is no trap, and only its
caller looks where the trace ends. So it reads behind the end of every trace that
ends in a trap, and of no other.
-/

namespace Tomasulo

open Pisa

/-! ## The calls of `get_instr` -/

/-- The indices the loop of `fetch` passes to `get_instr`. -/
def Code.fetchCalls (code : Code) : Nat → Nat → List Nat
  | 0, i => [i + 1]
  | fuel + 1, i => (i + 1) :: if IS_TRAP (code.op (i + 1)) then code.fetchCalls fuel (i + 1) else []

/-- The calls of `get_instr` in a cycle. -/
def State.calls (trace : Trace) (cycle : Nat) (s : State) : List Nat :=
  let s := s.beforeFetch trace cycle
  if trace.length ≤ s.fetch_index then []
  else if s.instr_queue_size < INSTR_QUEUE_SIZE then
    trace.code.fetchCalls (trace.length - s.fetch_index) s.fetch_index
  else []

/-- The loop of `runTomasulo` goes on after cycle `k`. -/
def GoesOn (trace : Trace) (k : Nat) : Prop := ∀ m, 0 < m → m ≤ k → (State.after trace m).is_simulation_done = false

structure FetchesInside (trace : Trace) : Prop where
  inside : ∀ k, GoesOn trace k → ∀ i ∈ (State.after trace k).calls trace (k + 1), 0 < i ∧ i ≤ trace.length
  /-- The assertion of `get_instr` holds, and what is read was executed. -/
  executed : ∀ k, GoesOn trace k → ∀ i ∈ (State.after trace k).calls trace (k + 1),
    ∃ instr, (trace)[i - 1]? = some instr ∧ Chunks.get_instr (Chunks.sim_main trace) i = some instr
  queue : ∀ k, GoesOn trace k → ∀ x, (State.after trace (k + 1)).instr_queue.Holds x → x ≤ trace.length

/-! ## What a fetch reads -/

section
variable {code : Code} {fuel i j : Nat}

theorem Code.mem_fetchCalls (h : j ∈ code.fetchCalls fuel i) : i < j ∧ j ≤ code.skipTraps fuel i := by
  induction fuel generalizing i with
  | zero =>
    rw [fetchCalls, List.mem_singleton] at h
    rw [skipTraps]
    omega
  | succ fuel ih =>
    unfold fetchCalls at h
    unfold skipTraps
    split at h
    case isTrue ht =>
      rw [if_pos ht]
      rcases List.mem_cons.1 h with rfl | h
      · exact ⟨Nat.lt_succ_self i, (skipTraps_le fuel (i + 1)).le⟩
      · obtain ⟨h1, h2⟩ := ih h
        exact ⟨by omega, h2⟩
    case isFalse ht =>
      rw [if_neg ht]
      obtain rfl := List.mem_singleton.1 h
      exact ⟨Nat.lt_succ_self i, le_refl _⟩
where
  skipTraps_le (fuel i : Nat) : i < code.skipTraps fuel i := by
    induction fuel generalizing i with
    | zero => exact Nat.lt_succ_self i
    | succ fuel ih =>
      unfold skipTraps
      split
      · exact (Nat.lt_succ_self i).trans (ih (i + 1))
      · exact Nat.lt_succ_self i

/-- The last call finds the instruction. -/
theorem Code.skipTraps_mem (code : Code) (fuel i : Nat) : code.skipTraps fuel i ∈ code.fetchCalls fuel i := by
  induction fuel generalizing i with
  | zero => exact List.mem_singleton_self _
  | succ fuel ih =>
    unfold skipTraps fetchCalls
    split
    case isTrue => exact List.mem_cons_of_mem _ (ih (i + 1))
    case isFalse => exact List.mem_cons_self

end

variable {trace : Trace}

theorem fetch_index_succ (trace : Trace) (k : Nat) :
    (State.after trace (k + 1)).fetch_index = (State.after trace k).fetch_index ∨
      (State.after trace (k + 1)).fetch_index ∈ (State.after trace k).calls trace (k + 1) := by
  have hkeep := State.beforeFetch_fetch_index trace (k + 1) (State.after trace k)
  have hstep : (State.after trace (k + 1)).fetch_index = (Pipeline.fetch_To_dispatch trace.code (k + 1)
      ((State.after trace k).beforeFetch trace (k + 1)).toPipeline).fetch_index := by
    rw [State.after_succ]
    rfl
  rw [hstep]
  unfold State.calls Pipeline.fetch_To_dispatch
  dsimp only
  split
  case isTrue => exact .inl hkeep
  case isFalse hlt =>
    rw [if_neg (show ¬ trace.length ≤ _ from hlt)]
    split
    case isTrue => exact .inr (trace.code.skipTraps_mem _ _)
    case isFalse => exact .inl hkeep

/-! ## Inside exactly when the last instruction is no trap -/

theorem fetchesInside_of_ends (h : EndsInNoTrap trace) : FetchesInside trace := by
  have hinside (k i) (hi : i ∈ (State.after trace k).calls trace (k + 1)) : 0 < i ∧ i ≤ trace.length := by
    unfold State.calls at hi
    dsimp only at hi
    split at hi
    case isTrue => cases hi
    case isFalse hlt =>
      split at hi
      case isTrue =>
        obtain ⟨h1, h2⟩ := Code.mem_fetchCalls hi
        exact ⟨by omega, h2.trans (Code.nextFetch_le (Nat.not_le.1 hlt) (endsInNoTrap_iff.1 h))⟩
      case isFalse => cases hi
  refine ⟨fun k _ => hinside k, fun k _ i hi => ?_, fun k _ x hx => ?_⟩
  · obtain ⟨h0, hle⟩ := hinside k i hi
    obtain ⟨m, rfl⟩ : ∃ m, i = m + 1 := ⟨i - 1, by omega⟩
    refine ⟨trace.getD m ⟨.NA, 0, 0, 0⟩, ?_, Chunks.get_instr_sim_main trace hle⟩
    rw [List.getD_eq_getElem _ _ hle]
    exact List.getElem?_eq_getElem hle
  · obtain ⟨-, d, hi, -⟩ := State.after_eq h (k + 1)
    exact (hi.queue_holds.1 hx).2.1.trans hi.fetched

/-- Over a trap at the end the loop of `fetch` runs behind the trace. -/
theorem ends_of_fetchesInside (h : FetchesInside trace) : EndsInNoTrap trace := by
  by_contra hn
  have hlen := padded_length hn
  set g := trace.padded.dataflow (padded_ends trace)
  have hg (m) : (State.after trace m).toPipeline = g.after m := by
    rw [← after_padded]
    exact (State.after_eq (padded_ends trace) m).1
  have hend : ∃ m, (State.after trace m).fetch_index = trace.length + 1 := by
    obtain ⟨-, k, -, hc⟩ := g.terminates
    refine ⟨k + 1, ?_⟩
    rw [hg, ← hlen]
    exact hc.fetched
  -- The first cycle at whose end the entry behind the trace has been fetched.
  classical
  obtain ⟨k, hk⟩ : ∃ k, Nat.find hend = k + 1 := by
    refine Nat.exists_eq_succ_of_ne_zero fun h0 => ?_
    have := Nat.find_spec hend
    rw [h0] at this
    cases this
  have hspec := Nat.find_spec hend
  have hmin {m : Nat} (hm : m ≤ k) : (State.after trace m).fetch_index ≠ trace.length + 1 :=
    Nat.find_min hend (by omega)
  rw [hk] at hspec
  have hgoes : GoesOn trace k := by
    intro m h0 hm
    by_contra hdone
    obtain ⟨hd, -⟩ : Pipeline.Drained _ ∧ _ := of_decide_eq_true (Bool.not_eq_false _ ▸ hdone)
    obtain ⟨j, rfl⟩ : ∃ j, m = j + 1 := ⟨m - 1, by omega⟩
    obtain ⟨d, hi, hf⟩ := g.start j
    refine hmin hm ?_
    change (State.after trace (j + 1)).Drained at hd
    rw [hg, Dataflow.after_succ] at hd ⊢
    rw [hi.step_fetched hf hd, ← hlen]
    rfl
  have hcall := (fetch_index_succ trace k).resolve_left fun he => hmin (le_refl k) (he ▸ hspec)
  have := (h.inside k hgoes _ hcall).2
  omega

/-- `fetch` stays inside the trace exactly when the last instruction is no trap. -/
theorem fetchesInside_iff (trace : Trace) : FetchesInside trace ↔ EndsInNoTrap trace :=
  ⟨ends_of_fetchesInside, fetchesInside_of_ends⟩

/-- `add $3, $1, $2` and a system call, where `-max:inst 2` cuts the program. -/
def addSyscall : Trace := [⟨.ADD, 1, 2, 3⟩, ⟨.SYSCALL, 0, 0, 0⟩]

/-- In its second cycle the run asks for entry 3 of a trace of 2. -/
theorem not_fetchesInside_addSyscall : ¬ FetchesInside addSyscall := by
  intro h
  have hgoes : GoesOn addSyscall 1 := by
    intro m h0 hm
    obtain rfl : m = 1 := by omega
    decide
  have hcall : 3 ∈ (State.after addSyscall 1).calls addSyscall 2 := by decide
  exact absurd (h.inside 1 hgoes 3 hcall).2 (by decide)

end Tomasulo
