import Mathlib.Tactic.FinCases
import CompArch.Tomasulo.Runs
/-!
# What `runTomasulo` guarantees

For every trace whose last instruction is not a trap: read after write is
respected, the loop ends with everything done, and the timing depends on opcodes
and producers only, not on register names.
-/

namespace Tomasulo

open Pisa

variable {trace : Trace}

/-- The loop of `runTomasulo` ends. -/
theorem returns (h : EndsInNoTrap trace) : ∃ fuel, (runTomasulo trace fuel).isSome := by
  obtain ⟨fuel, k, hr, -⟩ := (trace.dataflow h).terminates
  refine ⟨fuel, ?_⟩
  rw [← Option.isSome_map (f := Prod.map id State.toPipeline), runTomasulo_refines h, hr]
  rfl

/-- What the loop leaves behind is the state at the end of its last cycle, with
everything done. -/
theorem returned (h : EndsInNoTrap trace) {fuel cycle : Nat} {s : State}
    (hr : runTomasulo trace fuel = some (cycle, s)) :
    ∃ k, cycle = k + 2 ∧ s = State.after trace (k + 1) ∧ s.toPipeline = (trace.dataflow h).after (k + 1) ∧
      (trace.dataflow h).Complete s.toPipeline ∧ ∀ r, s.map_table r = none := by
  obtain ⟨k, rfl, rfl, hstop⟩ := Loop.doWhile_eq_some hr
  obtain ⟨hd, hmap⟩ : Pipeline.Drained _ ∧ _ := of_decide_eq_true hstop
  have he := (State.after_eq h (k + 1)).1
  refine ⟨k, by omega, rfl, he, ⟨hd, ?_⟩, hmap⟩
  obtain ⟨d, hi, hf⟩ := (trace.dataflow h).start k
  change (State.after trace (k + 1)).Drained at hd
  change (State.after trace (k + 1)).fetch_index = _
  rw [he, Dataflow.after_succ] at hd ⊢
  exact hi.step_fetched hf hd

/-! ## Read after write -/

/-- An instruction starts strictly after each of its producers was on the bus. -/
theorem raw_safety (trace : Trace) (h : EndsInNoTrap trace) :
    (∃ fuel, (runTomasulo trace fuel).isSome) ∧
      ∀ fuel cycle s, runTomasulo trace fuel = some (cycle, s) →
        ∀ j i k r, j ≤ trace.length → unitOf (get_instr trace j).op ≠ none →
          (get_instr trace j).r_in k = some r → 0 < r.val → YoungestWriter trace r j i →
            0 < (s.stamps i).tom_cdb_cycle ∧ (s.stamps i).tom_cdb_cycle < (s.stamps j).tom_execute_cycle := by
  refine ⟨returns h, fun fuel cycle s hr j i k r hj hu hk h0 hw => ?_⟩
  obtain ⟨m, -, -, he, hc, -⟩ := returned h hr
  obtain ⟨d, hi⟩ := (trace.dataflow h).finish (Nat.succ_pos m)
  rw [← he] at hi
  obtain ⟨c, hunit⟩ := Option.ne_none_iff_exists'.1 hu
  have hexec := (hc.stamps hi (hw.pos.trans hw.older) hj hunit).2.1
  obtain ⟨hret, hlt⟩ := hi.raw j hexec i (mem_rawProducers.2 ⟨k, r, hk, h0, hw⟩)
  exact ⟨Nat.pos_of_ne_zero hret.1, hlt⟩

/-- `lw $2, ($1)` and `add $3, $2, $2`. -/
def loadAdd : Trace := [⟨.LW, 1, 2, 0⟩, ⟨.ADD, 2, 2, 3⟩]

theorem loadAdd_ends : EndsInNoTrap loadAdd := by
  rintro i ⟨⟩
  rfl

theorem raw_safety_loadAdd : ∃ fuel cycle s, runTomasulo loadAdd fuel = some (cycle, s) ∧
    (s.stamps 1).tom_cdb_cycle < (s.stamps 2).tom_execute_cycle := by
  obtain ⟨⟨fuel, hf⟩, hall⟩ := raw_safety loadAdd loadAdd_ends
  obtain ⟨⟨cycle, s⟩, hr⟩ := Option.isSome_iff_exists.1 hf
  have hw : YoungestWriter loadAdd 2 2 1 :=
    ⟨Nat.one_pos, Nat.one_lt_two, by decide, fun y h1 h2 => absurd h2 (by omega)⟩
  exact ⟨fuel, cycle, s, hr, (hall fuel cycle s hr 2 1 0 2 (le_refl _) (by decide) rfl (by decide) hw).2⟩

/-! ## Termination without loss -/

/-- The loop ends, and then every instruction has been fetched once and in order,
has been through a station, a unit and, unless it is a store, once over the bus,
and nothing is left anywhere. -/
theorem terminates_without_loss (trace : Trace) (h : EndsInNoTrap trace) :
    (∃ fuel, (runTomasulo trace fuel).isSome) ∧
      ∀ fuel cycle s, runTomasulo trace fuel = some (cycle, s) →
        ∃ k, cycle = k + 1 ∧ s = State.after trace k ∧ s.fetch_index = trace.length ∧
          Dataflow.fetches (fun m => (State.after trace m).fetch_index) k =
            (List.range' 1 trace.length).filter (fun i => !IS_TRAP (get_instr trace i).op) ∧
          (∀ i c, 0 < i → i ≤ trace.length → unitOf (get_instr trace i).op = some c →
            (∃ m ≤ k, (State.after trace m).InStation c i) ∧ ∃ m ≤ k, (State.after trace m).InUnit c i) ∧
          (∀ i, 0 < i → i ≤ trace.length → WRITES_CDB (get_instr trace i).op = true →
            ∃! m, m ≤ k ∧ (State.after trace m).commonDataBus = some i) ∧
          s.Drained ∧ ∀ r, s.map_table r = none := by
  refine ⟨returns h, fun fuel cycle s hr => ?_⟩
  obtain ⟨k, rfl, hs, he, hc, hmap⟩ := returned h hr
  set g := trace.dataflow h with hg
  have hafter (m) : (State.after trace m).toPipeline = g.after m := (State.after_eq h m).1
  obtain ⟨d, hi⟩ := g.finish (Nat.succ_pos k)
  rw [← he] at hi
  have hclass {c c' m i} (hin : (g.after m).InStation c' i) (hc : unitOf (get_instr trace i).op = some c) : c' = c := by
    obtain ⟨d', hi', -⟩ := g.start m
    exact Option.some.inj ((hi'.station c' i hin).2.2.1.symm.trans hc)
  refine ⟨k + 1, rfl, hs, hc.fetched, ?_, fun i c h0 hle hu => ?_, fun i h0 hle hw => ?_, hc.drained, hmap⟩
  · simp only [hafter]
    rw [g.fetches_eq, ← he, hc.fetched]
    rfl
  · obtain ⟨hissue, hexec, -⟩ := hc.stamps hi h0 hle hu
    rw [he] at hissue hexec
    obtain ⟨m, c', hm, hin⟩ := g.issued_in hissue
    obtain ⟨m', c'', hm', hun⟩ := g.executed_in hexec
    have hst : (g.after m').InStation c'' i := by
      obtain ⟨d', hi', -⟩ := g.start m'
      exact ((hi'.unit c'' i).1 hun).1
    simp only [hafter]
    exact ⟨⟨m, hm, hclass hin hu ▸ hin⟩, m', hm', hclass hst hu ▸ hun⟩
  · obtain ⟨c, hu⟩ : ∃ c, unitOf (get_instr trace i).op = some c := by
      rw [← Option.isSome_iff_exists, unitOf_isSome, hw, Bool.true_or]
    have hcdb := (hc.stamps hi h0 hle hu).2.2 hw
    rw [he] at hcdb
    simp only [hafter]
    exact g.on_bus_once hcdb

theorem terminates_without_loss_loadAdd : ∃ k, ∃ m ≤ k, (State.after loadAdd m).InUnit .INT 2 := by
  obtain ⟨⟨fuel, hf⟩, hall⟩ := terminates_without_loss loadAdd loadAdd_ends
  obtain ⟨⟨cycle, s⟩, hr⟩ := Option.isSome_iff_exists.1 hf
  obtain ⟨k, -, -, -, -, hunit, -⟩ := hall fuel cycle s hr
  exact ⟨k, (hunit 2 .INT (by decide) (by decide) (by decide)).2⟩

/-! ## Renaming -/

theorem get_instr_op (i : Nat) : (get_instr trace (i + 1)).op = (trace.map Inst.op).getD i .NA := by
  rw [get_instr, List.getD_eq_getElem?_getD, List.getD_eq_getElem?_getD, List.getElem?_map]
  cases (trace)[i]? <;> rfl

theorem code_eq {t₁ t₂ : Trace} (hop : t₁.map Inst.op = t₂.map Inst.op) : t₁.code = t₂.code := by
  have hlen := congrArg List.length hop
  rw [List.length_map, List.length_map] at hlen
  unfold Trace.code
  congr 1
  funext i
  cases i with
  | zero => rfl
  | succ i => rw [get_instr_op, get_instr_op, hop]

/-- An instruction outside the trace reads nothing. -/
theorem rawProducers_outside {j : Nat} (h : ¬ (0 < j ∧ j ≤ trace.length)) : rawProducers trace j = ∅ := by
  have hin : get_instr trace j = ⟨.NA, 0, 0, 0⟩ := by
    cases j with
    | zero => rfl
    | succ j => rw [get_instr, List.getD_eq_default _ _ (by omega)]
  refine Finset.eq_empty_of_forall_notMem fun i hi => ?_
  obtain ⟨k, r, hk, -⟩ := mem_rawProducers.1 hi
  rw [hin] at hk
  revert hk
  fin_cases k <;> nofun

/-- Two traces with the same opcodes and the same producers run alike: register
names, and with them write-after-read and write-after-write conflicts, play no part. -/
theorem timing_of_renamed (t₁ t₂ : Trace) (h : EndsInNoTrap t₁) (hop : t₁.map Inst.op = t₂.map Inst.op)
    (hraw : ∀ j, 0 < j → j ≤ t₁.length → ∀ i, RawProducer t₁ j i ↔ RawProducer t₂ j i) :
    (∃ fuel, (runTomasulo t₁ fuel).isSome) ∧
      ∀ fuel, (runTomasulo t₁ fuel).map (fun r => (r.1, r.2.stamps)) =
        (runTomasulo t₂ fuel).map fun r => (r.1, r.2.stamps) := by
  have h₂ : EndsInNoTrap t₂ := by
    intro i hi
    have := congrArg List.getLast? hop
    rw [List.getLast?_map, List.getLast?_map, hi] at this
    obtain ⟨i', hi', he⟩ := Option.map_eq_some_iff.1 this
    exact he ▸ h i' hi'
  have hlen := congrArg List.length hop
  rw [List.length_map, List.length_map] at hlen
  have hprod : rawProducers t₁ = rawProducers t₂ := by
    funext j
    by_cases hj : 0 < j ∧ j ≤ t₁.length
    · ext i
      rw [mem_rawProducers, mem_rawProducers]
      exact hraw j hj.1 hj.2 i
    · rw [rawProducers_outside hj, rawProducers_outside (hlen ▸ hj)]
  have hg : t₁.dataflow h = t₂.dataflow h₂ := Dataflow.ext (congrArg Code.sim_num_insn (code_eq hop))
    (congrArg Code.op (code_eq hop)) hprod
  refine ⟨returns h, fun fuel => ?_⟩
  have he : (runTomasulo t₁ fuel).map (Prod.map id State.toPipeline) =
      (runTomasulo t₂ fuel).map (Prod.map id State.toPipeline) := by
    rw [runTomasulo_refines h, runTomasulo_refines h₂, hg]
  have := congrArg (Option.map fun r : Nat × Pipeline => (r.1, r.2.stamps)) he
  rwa [Option.map_map, Option.map_map] at this

/-- Two independent additions to `$3`. -/
def addTwice : Trace := [⟨.ADD, 1, 2, 3⟩, ⟨.ADD, 4, 5, 3⟩]

/-- The same with the second result in `$6`. -/
def addRenamed : Trace := [⟨.ADD, 1, 2, 3⟩, ⟨.ADD, 4, 5, 6⟩]

theorem timing_of_renamed_addTwice : (runTomasulo addTwice 20).map (·.1) = (runTomasulo addRenamed 20).map (·.1) := by
  have hraw : ∀ j, 0 < j → j ≤ addTwice.length → ∀ i, RawProducer addTwice j i ↔ RawProducer addRenamed j i := by
    intro j h0 hj i
    rw [← mem_rawProducers, ← mem_rawProducers]
    match j, h0, hj with
    | 1, _, _ => exact Iff.rfl
    | 2, _, _ => exact Iff.rfl
  have := (timing_of_renamed addTwice addRenamed (by rintro i ⟨⟩; rfl) rfl hraw).2 20
  have := congrArg (Option.map fun r : Nat × (Nat → Stamps) => r.1) this
  rwa [Option.map_map, Option.map_map] at this

end Tomasulo
