import CompArch.Hazards.Slots
/-!
# Question 1: no forwarding

The counters of question 1 against the pipeline without forwarding. Resetting
the register of a counted hazard keeps a hazard from being counted again, but
only for that register, and only when it was the first slot that waited.
-/

namespace Hazards

open Function Pisa InOrder

/-- Slot `i` of `x` waits for what the latest instruction of `h` writes. -/
abbrev q1Near : List Inst → Inst → Fin 3 → Bool := near fun _ _ => true

/-- Slot `i` of `x` waits for what only the second latest instruction of `h` writes. -/
abbrev q1Far : List Inst → Inst → Fin 3 → Bool := far (fun _ _ => true) fun _ => 3

abbrev Q1Stalled : List Inst → Prop := Stalled (fun _ _ => true) fun _ => 3

/-- The register of the latest instruction's first near slot. -/
def cleared : List Inst → Option Reg
  | [] => none
  | y :: h => ([0, 1, 2].find? (q1Near h y)).map (r_in y)

/-- `x`, after the instructions `h`, has no far slot, other than one for the
cleared register, that is counted before a near one, or although the wait was
over with the stall of the instruction before. -/
def Q1Fits (h : List Inst) (x : Inst) : Prop :=
  ∀ i, q1Far h x i = true → cleared h ≠ some (r_in x i) →
    (∃ j < i, q1Near h x j = true) ∨ ((∀ j, q1Near h x j = false) ∧ ¬ Q1Stalled h)

/-! ## The table -/

/-- The register of the first slot that waits. -/
def hit (n : Nat) (x : Inst) (c : Counts) : Option Reg := ([0, 1, 2].find? (c.waits n x)).map (r_in x)

theorem q1Loop_eq (n : Nat) (x : Inst) (c : Counts) (l : List (Fin 3)) : q1Loop n x c l =
    match l.find? (c.waits n x) with
    | none => c
    | some i => (c.hazard (c.reg_ready_asm1 (r_in x i) - n)).setReady (r_in x i) n := by
  induction l with
  | nil => rfl
  | cons i l ih =>
    rw [q1Loop, List.find?_cons]
    cases c.waits n x i with
    | true => rfl
    | false => exact ih

theorem q1_ready (n : Nat) (x : Inst) (c : Counts) (r : Reg) : (q1 n x c).reg_ready_asm1 r =
    if r ∈ outputs x then n + 3 else if hit n x c = some r then n else c.reg_ready_asm1 r := by
  rw [q1, Counts.outputs_ready, q1Loop_eq, hit]
  cases [0, 1, 2].find? (c.waits n x) with
  | none => rfl
  | some i => by_cases hr : r_in x i = r <;> simp [hr, Counts.setReady, Counts.hazard, update_apply, eq_comm]

/-- What the table has for a register, by its latest writer. -/
structure Q1Table (p : List Inst) (c : Counts) : Prop where
  near : ∀ r w, source outputs r p.reverse = some (0, w) → c.reg_ready_asm1 r = p.length + 3
  far : ∀ r w, source outputs r p.reverse = some (1, w) →
    if cleared p.reverse = some r then c.reg_ready_asm1 r ≤ p.length + 1 else c.reg_ready_asm1 r = p.length + 2
  old : ∀ r, (∀ w, source outputs r p.reverse ≠ some (0, w)) → (∀ w, source outputs r p.reverse ≠ some (1, w)) →
    c.reg_ready_asm1 r ≤ p.length + 1

variable {p : List Inst} {c : Counts} {x : Inst}

/-- A slot waits in the table if it is near, or far and not cleared. -/
theorem Q1Table.waits_iff (h : Q1Table p c) (i : Fin 3) : c.waits (p.length + 1) x i = true ↔
    q1Near p.reverse x i = true ∨ (q1Far p.reverse x i = true ∧ ¬ cleared p.reverse = some (r_in x i)) := by
  have hne (s : Nat × Inst) (hs : source outputs (r_in x i) p.reverse = some s) : r_in x i ≠ DNA := by
    intro hd
    rw [hd, source_DNA] at hs
    cases hs
  simp only [Counts.waits, Bool.and_eq_true, bne_iff_ne, decide_eq_true_eq]
  constructor
  · rintro ⟨-, hr⟩
    by_contra hn
    rw [not_or, not_and_not_right] at hn
    obtain ⟨hn, hf⟩ := hn
    by_cases hs : ∃ w, source outputs (r_in x i) p.reverse = some (1, w)
    · obtain ⟨w, hs⟩ := hs
      have := h.far _ w hs
      rw [if_pos (hf (far_iff.2 ⟨rfl, w, hs, rfl⟩))] at this
      omega
    · have := h.old (r_in x i) (fun w hw => hn (near_iff.2 ⟨rfl, w, hw⟩)) (fun w hw => hs ⟨w, hw⟩)
      omega
  · rintro (hi | ⟨hi, hc⟩)
    · obtain ⟨-, w, hs⟩ := near_iff.1 hi
      have := h.near _ w hs
      exact ⟨hne _ hs, by omega⟩
    · obtain ⟨-, w, hs, -⟩ := far_iff.1 hi
      have := h.far _ w hs
      rw [if_neg hc] at this
      exact ⟨hne _ hs, by omega⟩

/-- For an instruction that fits, what the loop resets is its first near slot's register,
as far as the instruction before it wrote it. -/
theorem Q1Table.hit_iff (h : Q1Table p c) (hx : Q1Fits p.reverse x) {r : Reg} {w : Inst}
    (hs : source outputs r p.reverse = some (0, w)) :
    hit (p.length + 1) x c = some r ↔ cleared (x :: p.reverse) = some r := by
  have hn (i : Fin 3) (hi : r_in x i = r) : q1Near p.reverse x i = true := near_iff.2 ⟨rfl, w, by rw [hi]; exact hs⟩
  simp only [hit, cleared, Option.map_eq_some_iff]
  refine exists_congr fun i => and_congr_left fun hi => ?_
  rw [find_slot_eq_some, find_slot_eq_some]
  constructor
  · rintro ⟨-, hf⟩
    refine ⟨hn i hi, fun j hj => ?_⟩
    rw [Bool.eq_false_iff]
    intro hjn
    have := hf j hj
    rw [(h.waits_iff j).2 (.inl hjn)] at this
    cases this
  · rintro ⟨-, hf⟩
    refine ⟨(h.waits_iff i).2 (.inl (hn i hi)), fun j hj => ?_⟩
    rw [Bool.eq_false_iff]
    intro hjw
    rcases (h.waits_iff j).1 hjw with hjn | ⟨hjf, hjc⟩
    · rw [hf j hj] at hjn
      cases hjn
    · rcases hx j hjf hjc with ⟨k, hk, hkn⟩ | ⟨hno, -⟩
      · rw [hf k (hk.trans hj)] at hkn
        cases hkn
      · have := hno i
        rw [hn i hi] at this
        cases this

theorem Q1Table.start : Q1Table [] {} := ⟨nofun, nofun, fun _ _ _ => Nat.zero_le _⟩

theorem Q1Table.next (h : Q1Table p c) (hx : Q1Fits p.reverse x) : Q1Table (p ++ [x]) (q1 (p.length + 1) x c) := by
  have hlen : (p ++ [x]).length = p.length + 1 := by simp
  have hrev : (p ++ [x]).reverse = x :: p.reverse := by simp
  have hother (r : Reg) (hr : r ∉ outputs x) :
      source outputs r (x :: p.reverse) = (source outputs r p.reverse).map fun s => (s.1 + 1, s.2) := by
    rw [source, if_neg hr]
  constructor
  case near =>
    intro r w hs
    rw [hrev] at hs
    by_cases hr : r ∈ outputs x
    · rw [q1_ready, if_pos hr, hlen]
    · rw [hother r hr] at hs
      obtain ⟨s, -, he⟩ := Option.map_eq_some_iff.1 hs
      cases he
  case far =>
    intro r w hs
    rw [hrev] at hs
    by_cases hr : r ∈ outputs x
    · rw [source, if_pos hr] at hs
      cases hs
    · rw [hother r hr] at hs
      obtain ⟨⟨k, w'⟩, hs', he⟩ := Option.map_eq_some_iff.1 hs
      cases he
      rw [q1_ready, if_neg hr, hrev, hlen]
      by_cases hh : hit (p.length + 1) x c = some r
      · rw [if_pos hh, if_pos ((h.hit_iff hx hs').1 hh)]
        omega
      · rw [if_neg hh, if_neg fun hc => hh ((h.hit_iff hx hs').2 hc)]
        exact h.near r _ hs'
  case old =>
    intro r h0 h1
    rw [hrev] at h0 h1
    by_cases hr : r ∈ outputs x
    · exact absurd (by rw [source, if_pos hr]) (h0 x)
    · rw [q1_ready, if_neg hr, hlen]
      rw [hother r hr] at h1
      have hn (w : Inst) : source outputs r p.reverse ≠ some (0, w) := fun hs => h1 w (by rw [hs]; rfl)
      split
      · omega
      · by_cases hf : ∃ w, source outputs r p.reverse = some (1, w)
        · obtain ⟨w, hw⟩ := hf
          have := h.far r w hw
          split at this <;> omega
        · have := h.old r hn fun w hw => hf ⟨w, hw⟩
          omega

/-! ## What is counted -/

theorem q1_adds (h : Q1Table p c) :
    c.Adds (q1 (p.length + 1) x c) (firstSlot 2 (c.waits (p.length + 1) x) (q1Near p.reverse x)) := by
  rw [firstSlot]
  cases hf : [0, 1, 2].find? (c.waits (p.length + 1) x) with
  | none => constructor <;> simp [q1, q1Loop_eq, hf]
  | some i =>
    obtain ⟨hi, -⟩ := find_slot_eq_some.1 hf
    have hd : c.reg_ready_asm1 (r_in x i) - (p.length + 1) = if q1Near p.reverse x i then 2 else 1 := by
      rcases (h.waits_iff i).1 hi with hn | ⟨hfar, hc⟩
      · obtain ⟨-, w, hs⟩ := near_iff.1 hn
        rw [h.near _ w hs, if_pos hn]
        omega
      · obtain ⟨-, w, hs, -⟩ := far_iff.1 hfar
        have := h.far _ w hs
        rw [if_neg hc] at this
        rw [this, if_neg (by simp [q1Near, not_near_of_far hfar])]
        omega
    simp only [← hd]
    constructor <;> (simp only [q1, q1Loop_eq, hf, Counts.output_1cycle, Counts.output_2cycle, Counts.setReady,
      Counts.hazard]; split <;> rfl)

/-- An instruction that does not wait has no near slot. -/
theorem not_cleared {h : List Inst} (hst : ¬ Q1Stalled h) (r : Reg) : cleared h ≠ some r := by
  cases h with
  | nil => nofun
  | cons y h =>
    intro hc
    obtain ⟨i, hi, -⟩ := Option.map_eq_some_iff.1 hc
    exact hst (.inl ⟨i, (find_slot_eq_some.1 hi).1⟩)

/-- The first slot that waits is counted with the instruction's stall exactly when it fits. -/
theorem Q1Table.counted_iff (h : Q1Table p c) : firstSlot 2 (c.waits (p.length + 1) x) (q1Near p.reverse x) =
    (noForwarding.issue (noForwarding.run p) x).stall ↔ Q1Fits p.reverse x := by
  have hst := stalled_iff (fun _ _ => true) (fun _ => 3) (fun _ => by omega) (fun _ => le_rfl) p
  rw [firstSlot_eq_iff (q1Far p.reverse x) (fun i => cleared p.reverse = some (r_in x i))
    (Q1Stalled p.reverse) (.inr rfl) h.waits_iff (fun i => not_near_of_far)
    (fun hn i _ => not_cleared hn _) (noForwarding.stall_le (fun _ => le_rfl) p x)]
  · simp only [Q1Fits, Nat.succ_ne_self, false_or]
    refine forall_congr' fun i => imp_congr_right fun _ => imp_congr_right fun _ => or_congr_left ?_
    constructor
    · exact fun h => h.2
    · rintro ⟨j, hj, hn⟩
      exact ⟨⟨j, hn⟩, j, hj, hn⟩
  · rw [Q1Stalled, hst, not_not]
    exact one_le_stall (fun _ => by omega) (fun _ => le_rfl) p x
  · rw [noForwarding, two_le_stall (fun _ => le_rfl) p x]
    refine and_congr_right fun ⟨i, hi⟩ => ?_
    obtain ⟨-, w, hs⟩ := near_iff.1 hi
    simp [slow, source_zero hs]

/-- Along a program whose instructions all fit, the table is what the writers say. -/
theorem q1Table_of_fits {p : List Inst} (h : ∀ q y, q ++ [y] <+: p → Q1Fits q.reverse y) :
    Q1Table p (sim_main p).q1 := by
  induction p using List.reverseRecOn with
  | nil => exact .start
  | append_singleton p x ih =>
    rw [sim_main_snoc, State.step, sim_num_insn_eq]
    exact (ih fun q y hq => h q y (hq.trans (List.prefix_append ..))).next (h p x List.prefix_rfl)

/-- The counters of question 1 and the CPI computed from them are the pipeline's,
after every instruction, exactly for programs whose instructions all fit. -/
theorem q1_exact_iff (is : List Inst) :
    (∀ p, p <+: is → (sim_main p).q1.Exact noForwarding p ∧
      (p ≠ [] → CPI_from_RAW_hazard (sim_main p).sim_num_insn (sim_main p).q1 = (noForwarding.run p).time / p.length)) ↔
      ∀ p x, p ++ [x] <+: is → Q1Fits p.reverse x := by
  have h3 : ∀ w, noForwarding.latency w ≤ 3 := fun _ => le_rfl
  have hcpi (p : List Inst) : ((sim_main p).q1.Exact noForwarding p ∧ (p ≠ [] →
      CPI_from_RAW_hazard (sim_main p).sim_num_insn (sim_main p).q1 = (noForwarding.run p).time / p.length)) ↔
        (sim_main p).q1.Exact noForwarding p := by
    rw [sim_num_insn_eq]
    exact and_iff_left_of_imp fun hp => hp.CPI h3
  simp only [hcpi]
  refine forall_prefix_iff ⟨rfl, rfl⟩ (fun p x hp hfits => ?_) is
  have ht := q1Table_of_fits hfits
  rw [sim_main_snoc, State.step, sim_num_insn_eq, hp.snoc_iff h3 (q1_adds ht) (firstSlot_le le_rfl _ _)]
  exact ht.counted_iff

/-- A product, and both halves of it moved: the second move is counted although
the stall of the first was enough for it. -/
def moves : List Inst := [{ op := .MULT, RS := 4, RT := 5 }, { op := .MFHI, RD := 2 }, { op := .MFLO, RD := 3 }]

theorem q1_not_exact_moves : ¬ ∀ p, p <+: moves → (sim_main p).q1.Exact noForwarding p ∧
    (p ≠ [] → CPI_from_RAW_hazard (sim_main p).sim_num_insn (sim_main p).q1 =
      (noForwarding.run p).time / p.length) := by
  intro h
  have h1 : (sim_main moves).q1.sim_num_RAW_hazard_1cycle = 1 := by decide
  have h2 : (noForwarding.stalls moves).count 1 = 0 := by decide
  have := (h moves List.prefix_rfl).1.1
  rw [h1, h2] at this
  cases this

end Hazards
