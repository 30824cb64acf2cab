import CompArch.Hazards.Counters
import Mathlib.Tactic.FieldSimp
import Mathlib.Tactic.IntervalCases
/-!
# Stalls, slot by slot

An instruction of either pipeline waits for the last two instructions at most:
for a register the one before it writes (`near`), or for one that the second
before writes and the first does not (`far`). The counters are incremented by
the first slot that waits, where the pipeline waits for the slowest.
-/

namespace Hazards

open Pisa InOrder

variable (use : Inst → Fin 3 → Bool) (latency : Inst → Nat)

/-- Slot `i` of `x` reads what the latest instruction of `h` writes. Lists of
instructions called `h` start with the latest. -/
def near (h : List Inst) (x : Inst) (i : Fin 3) : Bool :=
  use x i && match source outputs (r_in x i) h with
    | some (0, _) => true
    | _ => false

/-- Slot `i` of `x` reads what the second latest instruction of `h` writes, and
is slow to give. -/
def far (h : List Inst) (x : Inst) (i : Fin 3) : Bool :=
  use x i && match source outputs (r_in x i) h with
    | some (1, w) => latency w == 3
    | _ => false

/-- The latest instruction of `h` waits: for the one before it, or for the second
before it, unless the one before it waits. -/
def Stalled : List Inst → Prop
  | [] => False
  | x :: h => (∃ i, near use h x i = true) ∨ ((∃ i, far use latency h x i = true) ∧ ¬ Stalled h)

/-- The latest instruction's results take three cycles. -/
def slow (h : List Inst) : Bool := h.head?.any fun y => latency y == 3

variable {use latency}

theorem near_iff {h : List Inst} {x : Inst} {i : Fin 3} :
    near use h x i = true ↔ use x i = true ∧ ∃ w, source outputs (r_in x i) h = some (0, w) := by
  unfold near
  rw [Bool.and_eq_true]
  refine and_congr_right fun _ => ?_
  split
  case h_1 w hs => simp [hs]
  case h_2 hs =>
    constructor
    · intro hf
      cases hf
    · rintro ⟨w, hw⟩
      exact absurd hw (hs w)

theorem far_iff {h : List Inst} {x : Inst} {i : Fin 3} : far use latency h x i = true ↔
    use x i = true ∧ ∃ w, source outputs (r_in x i) h = some (1, w) ∧ latency w = 3 := by
  unfold far
  rw [Bool.and_eq_true]
  refine and_congr_right fun _ => ?_
  split
  case h_1 w hs => simp [hs]
  case h_2 hs =>
    constructor
    · intro hf
      cases hf
    · rintro ⟨w, hw, -⟩
      exact absurd hw (hs w)

theorem not_near_of_far {h : List Inst} {x : Inst} {i : Fin 3} (hf : far use latency h x i = true) :
    near use h x i = false := by
  obtain ⟨-, w, hw, -⟩ := far_iff.1 hf
  rw [Bool.eq_false_iff]
  intro hn
  obtain ⟨-, w', hw'⟩ := near_iff.1 hn
  rw [hw] at hw'
  cases hw'

theorem source_zero {r : Reg} {h : List Inst} {w : Inst} (hs : source outputs r h = some (0, w)) :
    h.head? = some w := by
  cases h with
  | nil => cases hs
  | cons y h =>
    unfold source at hs
    split at hs
    case isTrue =>
      cases hs
      rfl
    case isFalse =>
      obtain ⟨s, -, he⟩ := Option.map_eq_some_iff.1 hs
      cases he

theorem source_DNA (h : List Inst) : source outputs DNA h = none := by
  induction h with
  | nil => rfl
  | cons y h ih => simp [source, ih, outputs]

theorem mem_inputs {u : Fin 3 → Bool} {x : Inst} {r : Reg} :
    r ∈ inputs u x ↔ ∃ i, u i = true ∧ r_in x i = r ∧ r ≠ DNA := by
  simp only [inputs, List.mem_filter, List.mem_map, decide_eq_true_eq]
  constructor
  · rintro ⟨⟨i, ⟨-, hu⟩, hi⟩, hr⟩
    exact ⟨i, hu, hi, hr⟩
  · rintro ⟨i, hu, hi, hr⟩
    refine ⟨⟨i, ⟨?_, hu⟩, hi⟩, hr⟩
    match i with
    | 0 | 1 | 2 => simp

/-! ## What the pipeline waits for -/

section
variable (h2 : ∀ w, 2 ≤ latency w) (h3 : ∀ w, latency w ≤ 3)
include h3

theorem two_le_stall (p : List Inst) (x : Inst) :
    2 ≤ ((pipeline use latency).issue ((pipeline use latency).run p) x).stall ↔
    (∃ i, near use p.reverse x i = true) ∧ slow latency p.reverse = true := by
  rw [le_stall_snoc _ h3 p x (by omega)]
  constructor
  · rintro ⟨r, hr, w, ⟨hs, hw⟩ | ⟨-, hw⟩⟩
    · obtain ⟨i, hu, rfl, -⟩ := mem_inputs.1 hr
      refine ⟨⟨i, near_iff.2 ⟨hu, w, hs⟩⟩, ?_⟩
      have hl : latency w = 3 := by have := h3 w; change 2 + 1 ≤ latency w at hw; omega
      simp [slow, source_zero hs, hl]
    · have := h3 w
      change 2 + 2 + _ ≤ latency w at hw
      omega
  · rintro ⟨⟨i, hi⟩, hl⟩
    obtain ⟨hu, w, hs⟩ := near_iff.1 hi
    simp [slow, source_zero hs] at hl
    refine ⟨r_in x i, mem_inputs.2 ⟨i, hu, rfl, ?_⟩, w, .inl ⟨hs, by change 2 + 1 ≤ latency w; omega⟩⟩
    intro hd
    rw [hd, source_DNA] at hs
    cases hs

include h2

theorem one_le_stall (p : List Inst) (x : Inst) :
    1 ≤ ((pipeline use latency).issue ((pipeline use latency).run p) x).stall ↔
    (∃ i, near use p.reverse x i = true) ∨
      ((∃ i, far use latency p.reverse x i = true) ∧ ((pipeline use latency).run p).stall = 0) := by
  rw [le_stall_snoc _ h3 p x (by omega)]
  constructor
  · rintro ⟨r, hr, w, ⟨hs, -⟩ | ⟨hs, hw⟩⟩
    · obtain ⟨i, hu, rfl, -⟩ := mem_inputs.1 hr
      exact .inl ⟨i, near_iff.2 ⟨hu, w, hs⟩⟩
    · obtain ⟨i, hu, rfl, -⟩ := mem_inputs.1 hr
      have := h3 w
      change 1 + 2 + _ ≤ latency w at hw
      exact .inr ⟨⟨i, far_iff.2 ⟨hu, w, hs, by omega⟩⟩, by omega⟩
  · have hne (i : Fin 3) (s : Nat × Inst) (hs : source outputs (r_in x i) p.reverse = some s) : r_in x i ≠ DNA := by
      intro hd
      rw [hd, source_DNA] at hs
      cases hs
    rintro (⟨i, hi⟩ | ⟨⟨i, hi⟩, h0⟩)
    · obtain ⟨hu, w, hs⟩ := near_iff.1 hi
      exact ⟨r_in x i, mem_inputs.2 ⟨i, hu, rfl, hne i _ hs⟩, w, .inl ⟨hs, h2 w⟩⟩
    · obtain ⟨hu, w, hs, hw⟩ := far_iff.1 hi
      refine ⟨r_in x i, mem_inputs.2 ⟨i, hu, rfl, hne i _ hs⟩, w, .inr ⟨hs, ?_⟩⟩
      change 1 + 2 + _ ≤ latency w
      omega

variable (use latency) in
/-- `Stalled` says which instructions wait. -/
theorem stalled_iff (p : List Inst) : Stalled use latency p.reverse ↔ ((pipeline use latency).run p).stall ≠ 0 := by
  induction p using List.reverseRecOn with
  | nil => simp [Stalled, run]
  | append_singleton p x ih =>
    rw [List.reverse_concat, Stalled, run_snoc, ← Nat.one_le_iff_ne_zero, one_le_stall h2 h3, ih, not_not]

end

/-! ## The first slot that waits -/

theorem find_slot_eq_none {p : Fin 3 → Bool} : [0, 1, 2].find? p = none ↔ ∀ i, p i = false := by
  simp [Fin.forall_fin_succ]

theorem find_slot_eq_some {p : Fin 3 → Bool} {i : Fin 3} :
    [0, 1, 2].find? p = some i ↔ p i = true ∧ ∀ j < i, p j = false := by
  match i with
  | 0 =>
    have h : ∀ j : Fin 3, ¬ j < 0 := by decide
    simp [h]
  | 1 =>
    have h : ∀ j : Fin 3, j < 1 ↔ j = 0 := by decide
    simp [h, and_comm]
  | 2 =>
    have h : ∀ j : Fin 3, j < 2 ↔ j = 0 ∨ j = 1 := by decide
    simp only [h, forall_eq_or_imp, forall_eq]
    simp [and_comm, and_assoc]

/-- What is counted when the first slot that `waits` is taken for the slowest:
`m` cycles for a near one, one cycle for another. -/
def firstSlot (m : Nat) (waits near : Fin 3 → Bool) : Nat :=
  match [0, 1, 2].find? waits with
  | none => 0
  | some i => if near i then m else 1

theorem firstSlot_le {m : Nat} (hm : m ≤ 2) (waits near : Fin 3 → Bool) : firstSlot m waits near ≤ 2 := by
  unfold firstSlot
  split
  · omega
  · split <;> omega

section
variable {m s : Nat} {waits near far : Fin 3 → Bool} {cleared : Fin 3 → Prop} {stalled : Prop}

theorem firstSlot_of_near
    (hw : ∀ i, waits i = true ↔ near i = true ∨ (far i = true ∧ ¬ cleared i))
    (hfar : ∀ i, far i = true → near i = false) (hN : ∃ i, near i = true) :
    firstSlot m waits near = m ↔ ∀ i, far i = true → ¬ cleared i → m = 1 ∨ ∃ j < i, near j = true := by
  unfold firstSlot
  cases hf : [0, 1, 2].find? waits with
  | none =>
    obtain ⟨j, hj⟩ := hN
    have := find_slot_eq_none.1 hf j
    rw [(hw j).2 (.inl hj)] at this
    cases this
  | some i0 =>
    obtain ⟨hi0, hfirst⟩ := find_slot_eq_some.1 hf
    simp only
    constructor
    · intro h i hi hci
      split at h
      case isTrue hn0 =>
        have hwi := (hw i).2 (.inr ⟨hi, hci⟩)
        refine .inr ⟨i0, ?_, hn0⟩
        rcases lt_trichotomy i i0 with hlt | rfl | hlt
        · rw [hfirst i hlt] at hwi
          cases hwi
        · rw [hfar i hi] at hn0
          cases hn0
        · exact hlt
      case isFalse => exact .inl h.symm
    · intro h
      split
      case isTrue => rfl
      case isFalse hn0 =>
        obtain ⟨hfar0, hc0⟩ := ((hw i0).1 hi0).resolve_left hn0
        rcases h i0 hfar0 hc0 with h | ⟨j, hj, hnj⟩
        · exact h.symm
        · have := hfirst j hj
          rw [(hw j).2 (.inl hnj)] at this
          cases this

variable (cleared stalled) in
theorem firstSlot_of_not_near (hw : ∀ i, waits i = true ↔ far i = true ∧ ¬ cleared i)
    (hN : ∀ i, near i = false) (hc : ¬ stalled → ∀ i, far i = true → ¬ cleared i) (hs : s ≤ 1)
    (h1 : 1 ≤ s ↔ (∃ i, far i = true) ∧ ¬ stalled) :
    firstSlot m waits near = s ↔ ∀ i, far i = true → ¬ cleared i → ¬ stalled := by
  unfold firstSlot
  cases hf : [0, 1, 2].find? waits with
  | none =>
    have hnw (i : Fin 3) (hi : far i = true) (hci : ¬ cleared i) : False := by
      have := find_slot_eq_none.1 hf i
      rw [(hw i).2 ⟨hi, hci⟩] at this
      cases this
    constructor
    · intro _ i hi hci
      exact (hnw i hi hci).elim
    · intro _
      by_contra hne
      obtain ⟨⟨i, hi⟩, hst⟩ := h1.1 (Nat.pos_of_ne_zero (Ne.symm hne))
      exact hnw i hi (hc hst i hi)
  | some i0 =>
    obtain ⟨hi0, -⟩ := find_slot_eq_some.1 hf
    obtain ⟨hfar0, hc0⟩ := (hw i0).1 hi0
    simp only [hN i0, Bool.false_eq_true, if_false]
    constructor
    · intro h i hi hci
      exact (h1.1 h.le).2
    · intro h
      have := h1.2 ⟨⟨i0, hfar0⟩, h i0 hfar0 hc0⟩
      omega

variable (far cleared stalled) in
/-- The first slot is the slowest, as long as no far slot is counted before a
slower near one, or for an instruction whose wait was over with the stall of the
instruction before it. -/
theorem firstSlot_eq_iff (hm : m = 1 ∨ m = 2)
    (hw : ∀ i, waits i = true ↔ near i = true ∨ (far i = true ∧ ¬ cleared i))
    (hfar : ∀ i, far i = true → near i = false) (hc : ¬ stalled → ∀ i, far i = true → ¬ cleared i)
    (hs : s ≤ 2) (h1 : 1 ≤ s ↔ (∃ i, near i = true) ∨ ((∃ i, far i = true) ∧ ¬ stalled))
    (h2 : 2 ≤ s ↔ (∃ i, near i = true) ∧ m = 2) :
    firstSlot m waits near = s ↔ ∀ i, far i = true → ¬ cleared i →
      ((∃ j, near j = true) ∧ (m = 1 ∨ ∃ j < i, near j = true)) ∨ ((∀ j, near j = false) ∧ ¬ stalled) := by
  by_cases hN : ∃ i, near i = true
  · have hsm : s = m := by
      have h1' := h1.2 (.inl hN)
      rcases hm with rfl | rfl
      · by_contra hne
        have := (h2.1 (by omega)).2
        omega
      · have := h2.2 ⟨hN, rfl⟩
        omega
    have hnone : ¬ ∀ j, near j = false := by
      obtain ⟨j, hj⟩ := hN
      intro h
      rw [h j] at hj
      cases hj
    rw [hsm, firstSlot_of_near hw hfar hN]
    simp only [hN, true_and, hnone, false_and, or_false]
  · have hN' (i : Fin 3) : near i = false := by
      rw [Bool.eq_false_iff]
      exact fun h => hN ⟨i, h⟩
    rw [firstSlot_of_not_near cleared stalled (fun i => by simp [hw i, hN' i]) hN' hc
      (by by_contra h; exact hN (h2.1 (by omega)).1) (by simpa [hN] using h1)]
    simp only [hN', Bool.false_eq_true, exists_false, false_and, false_or, implies_true, true_and]

end

/-! ## Counting along a program -/

/-- The counters are the numbers of instructions that wait one and two cycles. -/
def Counts.Exact (c : Counts) (P : InOrder Inst Reg) (is : List Inst) : Prop :=
  c.sim_num_RAW_hazard_1cycle = (P.stalls is).count 1 ∧ c.sim_num_RAW_hazard_2cycle = (P.stalls is).count 2

/-- A hazard of `d` cycles was counted, none when `d` is 0. -/
structure Counts.Adds (c c' : Counts) (d : Nat) : Prop where
  one : c'.sim_num_RAW_hazard_1cycle = c.sim_num_RAW_hazard_1cycle + if d = 1 then 1 else 0
  two : c'.sim_num_RAW_hazard_2cycle = c.sim_num_RAW_hazard_2cycle + if d = 2 then 1 else 0

/-- Exact counters stay exact if what is counted is the stall. -/
theorem Counts.Exact.snoc_iff {P : InOrder Inst Reg} (h3 : ∀ w, P.latency w ≤ 3) {c c' : Counts} {p : List Inst}
    {x : Inst}
    {d : Nat} (hc : c.Exact P p) (ha : c.Adds c' d) (hd : d ≤ 2) :
    c'.Exact P (p ++ [x]) ↔ d = (P.issue (P.run p) x).stall := by
  have hs := P.stall_le h3 p x
  obtain ⟨h1, h2⟩ := hc
  simp only [Exact, ha.one, ha.two, h1, h2, stalls_snoc, List.count_append, List.count_singleton, beq_iff_eq,
    Nat.add_left_cancel_iff]
  generalize (P.issue (P.run p) x).stall = s at hs
  interval_cases d <;> interval_cases s <;> simp

theorem Counts.Exact.CPI {P : InOrder Inst Reg} (h3 : ∀ w, P.latency w ≤ 3) {c : Counts} {p : List Inst}
    (hc : c.Exact P p) (hp : p ≠ []) : CPI_from_RAW_hazard p.length c = (P.run p).time / p.length := by
  have hn : (p.length : ℚ) ≠ 0 := by simpa using hp
  rw [CPI_from_RAW_hazard, P.time_eq h3, hc.1, hc.2]
  push_cast
  field_simp

/-- What holds of a program's prefixes, by what each instruction adds. -/
theorem forall_prefix_iff {α : Type} {Q : List α → Prop} {F : List α → α → Prop} (h0 : Q [])
    (hs : ∀ p x, Q p → (∀ q y, q ++ [y] <+: p → F q y) → (Q (p ++ [x]) ↔ F p x)) (is : List α) :
    (∀ p, p <+: is → Q p) ↔ ∀ p x, p ++ [x] <+: is → F p x := by
  induction is using List.reverseRecOn with
  | nil => simp [h0]
  | append_singleton is x ih =>
    constructor
    · intro h
      have his := fun q hq => h q (List.prefix_concat_iff.2 (.inr hq))
      have hF := ih.1 his
      intro p y hp
      rcases List.prefix_concat_iff.1 hp with he | hp
      · obtain ⟨rfl, rfl⟩ : p = is ∧ y = x := by simpa using he
        exact (hs p y (his p List.prefix_rfl) hF).1 (h _ List.prefix_rfl)
      · exact hF p y hp
    · intro h
      have hF := fun q y hq => h q y (List.prefix_concat_iff.2 (.inr hq))
      have hQ := ih.2 hF
      intro p hp
      rcases List.prefix_concat_iff.1 hp with rfl | hp
      · exact (hs is x (hQ is List.prefix_rfl) hF).2 (h is x List.prefix_rfl)
      · exact hQ p hp

end Hazards
