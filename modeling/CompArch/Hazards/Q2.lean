import CompArch.Hazards.Slots
/-!
# Question 2: forwarding

The counters of question 2 against the pipeline with forwarding. The table is
never reset, so a hazard with the second latest instruction is counted whether
or not the latest one waited.
-/

namespace Hazards

open Function Pisa InOrder

/-- Slot `i` of `x` waits for what the latest instruction of `h` writes. -/
abbrev q2Near : List Inst → Inst → Fin 3 → Bool := near needed

/-- Slot `i` of `x` waits for a register that the second latest instruction of
`h` loads and the latest does not write. -/
abbrev q2Far : List Inst → Inst → Fin 3 → Bool := far needed forwardLatency

abbrev Q2Stalled : List Inst → Prop := Stalled needed forwardLatency

/-- `x`, after the instructions `h`, has no far slot that is counted before a
near one for a load, or although the wait was over with the stall of the
instruction before. -/
def Q2Fits (h : List Inst) (x : Inst) : Prop :=
  ∀ i, q2Far h x i = true →
    ((∃ j, q2Near h x j = true) ∧ ((h.head?.any isLoad) = false ∨ ∃ j < i, q2Near h x j = true)) ∨
      ((∀ j, q2Near h x j = false) ∧ ¬ Q2Stalled h)

theorem forwardLatency_le (w : Inst) : 2 ≤ forwardLatency w ∧ forwardLatency w ≤ 3 := by
  unfold forwardLatency
  split <;> omega

/-! ## The table -/

theorem q2Loop_eq (n : Nat) (x : Inst) (c : Counts) (l : List (Fin 3)) : q2Loop n x c l =
    match l.find? fun i => needed x i && c.waits n x i with
    | none => c
    | some i => c.hazard (c.reg_ready_asm1 (r_in x i) - n) := by
  induction l with
  | nil => rfl
  | cons i l ih =>
    rw [q2Loop, List.find?_cons]
    unfold needed
    cases c.waits n x i with
    | true =>
      cases (i == 0 && isStore x) with
      | true => exact ih
      | false => rfl
    | false =>
      rw [Bool.and_false]
      exact ih

theorem q2_ready (n : Nat) (x : Inst) (c : Counts) (r : Reg) : (q2 n x c).reg_ready_asm1 r =
    if r ∈ outputs x then n + forwardLatency x else c.reg_ready_asm1 r := by
  rw [q2, Counts.outputs_ready, q2Loop_eq]
  cases [0, 1, 2].find? fun i => needed x i && c.waits n x i <;> rfl

/-- What the table has for a register, by its latest writer. -/
def Q2Table (p : List Inst) (c : Counts) : Prop :=
  ∀ r, match source outputs r p.reverse with
    | none => c.reg_ready_asm1 r = 0
    | some (k, w) => c.reg_ready_asm1 r + k = p.length + forwardLatency w

variable {p : List Inst} {c : Counts} {x : Inst}

theorem q2Table (p : List Inst) : Q2Table p (sim_main p).q2 := by
  induction p using List.reverseRecOn with
  | nil => exact fun _ => rfl
  | append_singleton p x ih =>
    intro r
    have hr := ih r
    rw [sim_main_snoc, State.step, sim_num_insn_eq, q2_ready, List.reverse_concat, source, List.length_append,
      List.length_singleton]
    by_cases ho : r ∈ outputs x
    · simp only [if_pos ho]
      rfl
    · simp only [if_neg ho]
      cases hs : source outputs r p.reverse with
      | none =>
        rw [hs] at hr
        exact hr
      | some s =>
        obtain ⟨k, w⟩ := s
        simp only [hs] at hr
        simp only [Option.map_some]
        omega

/-- A slot waits in the table if it is near or far. -/
theorem Q2Table.waits_iff (h : Q2Table p c) (i : Fin 3) : (needed x i && c.waits (p.length + 1) x i) = true ↔
    q2Near p.reverse x i = true ∨ (q2Far p.reverse x i = true ∧ ¬ False) := by
  rw [not_false_iff, and_true, near_iff, far_iff, Bool.and_eq_true, ← and_or_left]
  refine and_congr_right fun _ => ?_
  have hi := h (r_in x i)
  simp only [Counts.waits, Bool.and_eq_true, bne_iff_ne, decide_eq_true_eq]
  cases hs : source outputs (r_in x i) p.reverse with
  | none =>
    rw [hs] at hi
    simp only at hi
    constructor
    · rintro ⟨-, hw⟩
      omega
    · rintro (⟨w, hw⟩ | ⟨w, hw, -⟩) <;> cases hw
  | some s =>
    obtain ⟨k, w⟩ := s
    simp only [hs] at hi
    obtain ⟨h2, h3⟩ := forwardLatency_le w
    have hne : r_in x i ≠ DNA := by
      intro hd
      rw [hd, source_DNA] at hs
      cases hs
    constructor
    · rintro ⟨-, hw⟩
      obtain rfl | rfl : k = 0 ∨ k = 1 := by omega
      · exact .inl ⟨w, rfl⟩
      · exact .inr ⟨w, rfl, by omega⟩
    · rintro (⟨w', hw⟩ | ⟨w', hw, hl⟩)
      · cases hw
        exact ⟨hne, by omega⟩
      · cases hw
        exact ⟨hne, by omega⟩

/-! ## What is counted -/

/-- How long a near slot waits. -/
def nearCycles (h : List Inst) : Nat := if h.head?.any isLoad then 2 else 1

theorem nearCycles_eq {h : List Inst} {w : Inst} (hw : h.head? = some w) : nearCycles h = forwardLatency w - 1 := by
  unfold nearCycles forwardLatency
  rw [hw, Option.any_some]
  cases isLoad w <;> rfl

theorem q2_adds (h : Q2Table p c) : c.Adds (q2 (p.length + 1) x c)
    (firstSlot (nearCycles p.reverse) (fun i => needed x i && c.waits (p.length + 1) x i) (q2Near p.reverse x)) := by
  rw [firstSlot]
  cases hf : [0, 1, 2].find? fun i => needed x i && c.waits (p.length + 1) x i with
  | none => constructor <;> simp [q2, q2Loop_eq, hf]
  | some i =>
    obtain ⟨hi, -⟩ := find_slot_eq_some.1 hf
    have hr := h (r_in x i)
    have hd : c.reg_ready_asm1 (r_in x i) - (p.length + 1) =
        if q2Near p.reverse x i then nearCycles p.reverse else 1 := by
      rcases (h.waits_iff i).1 hi with hn | ⟨hfar, -⟩
      · obtain ⟨-, w, hs⟩ := near_iff.1 hn
        simp only [hs] at hr
        rw [if_pos hn, nearCycles_eq (source_zero hs)]
        omega
      · obtain ⟨-, w, hs, hw⟩ := far_iff.1 hfar
        simp only [hs] at hr
        rw [if_neg (by simp [q2Near, not_near_of_far hfar])]
        omega
    simp only [← hd]
    constructor <;> (simp only [q2, q2Loop_eq, hf, Counts.output_1cycle, Counts.output_2cycle, Counts.hazard]
                     split <;> rfl)

/-- The first slot that waits is counted with the instruction's stall exactly when it fits. -/
theorem Q2Table.counted_iff (h : Q2Table p c) :
    firstSlot (nearCycles p.reverse) (fun i => needed x i && c.waits (p.length + 1) x i) (q2Near p.reverse x) =
      (forwarding.issue (forwarding.run p) x).stall ↔ Q2Fits p.reverse x := by
  have h2 (w : Inst) := (forwardLatency_le w).1
  have h3 (w : Inst) := (forwardLatency_le w).2
  have hst := stalled_iff needed forwardLatency h2 h3 p
  have hm : nearCycles p.reverse = 1 ↔ (p.reverse.head?.any isLoad) = false := by
    unfold nearCycles
    cases p.reverse.head?.any isLoad <;> simp
  rw [firstSlot_eq_iff (q2Far p.reverse x) (fun _ => False) (Q2Stalled p.reverse) ?_
    h.waits_iff (fun i => not_near_of_far) (fun _ _ _ => not_false) (forwarding.stall_le h3 p x)]
  · simp only [Q2Fits, not_false_iff, true_imp_iff, hm]
  · rw [Q2Stalled, hst, not_not]
    exact one_le_stall h2 h3 p x
  · rw [forwarding, two_le_stall h3 p x]
    refine and_congr_right fun ⟨i, hi⟩ => ?_
    obtain ⟨-, w, hs⟩ := near_iff.1 hi
    have hw := source_zero hs
    rw [nearCycles_eq hw]
    have h2 := h2 w
    have h3 := h3 w
    simp only [slow, hw, Option.any_some, beq_iff_eq]
    omega
  · unfold nearCycles
    split
    · exact .inr rfl
    · exact .inl rfl

/-- The counters of question 2 are the pipeline's, after every instruction,
exactly for programs whose instructions all fit. -/
theorem q2_exact_iff (is : List Inst) :
    (∀ p, p <+: is → (sim_main p).q2.Exact forwarding p) ↔ ∀ p x, p ++ [x] <+: is → Q2Fits p.reverse x := by
  refine forall_prefix_iff ⟨rfl, rfl⟩ (fun p x hp _ => ?_) is
  have hm : nearCycles p.reverse ≤ 2 := by
    unfold nearCycles
    split <;> omega
  rw [sim_main_snoc, State.step, sim_num_insn_eq,
    hp.snoc_iff (fun w => (forwardLatency_le w).2) (q2_adds (q2Table p)) (firstSlot_le hm _ _)]
  exact (q2Table p).counted_iff

/-- A load whose result the next two instructions use. -/
def loadUses : List Inst :=
  [{ op := .LW, RS := 29, RT := 2 }, { op := .ADDU, RS := 2, RT := 4, RD := 3 },
    { op := .ADDU, RS := 2, RT := 5, RD := 6 }]

theorem q2_not_exact_loadUses : ¬ ∀ p, p <+: loadUses → (sim_main p).q2.Exact forwarding p := by
  intro h
  have h1 : (sim_main loadUses).q2.sim_num_RAW_hazard_1cycle = 1 := by decide
  have h2 : (forwarding.stalls loadUses).count 1 = 0 := by decide
  have := (h loadUses List.prefix_rfl).1
  rw [h1, h2] at this
  cases this

end Hazards
