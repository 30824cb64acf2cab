import Mathlib.Data.Finset.Basic
import CompArch.Tomasulo.Stages
/-!
# Scheduling by dataflow alone

What Tomasulo's algorithm is for: an instruction starts once the producers of its
inputs have retired. The machine here knows the producers from the trace and has
neither tags nor a map table, and its invariant says where every instruction is.
-/

namespace Tomasulo

open Pisa

/-! ## The window between fetch and dispatch -/

namespace Code

variable {code : Code}

theorem skipTraps_spec {fuel i : Nat} (h : code.sim_num_insn ≤ fuel + i) :
    i < code.skipTraps fuel i ∧ IS_TRAP (code.op (code.skipTraps fuel i)) = false ∧
      ∀ y, i < y → y < code.skipTraps fuel i → IS_TRAP (code.op y) = true := by
  induction fuel generalizing i with
  | zero =>
    refine ⟨Nat.lt_succ_self i, ?_, fun y h1 h2 => ?_⟩
    · rw [skipTraps, code.past _ (by omega)]
      rfl
    · rw [skipTraps] at h2
      omega
  | succ fuel ih =>
    unfold skipTraps
    split
    case isTrue ht =>
      obtain ⟨hlt, hn, hall⟩ := ih (i := i + 1) (by omega)
      refine ⟨by omega, hn, fun y h1 h2 => ?_⟩
      by_cases hy : y = i + 1
      · exact hy ▸ ht
      · exact hall y (by omega) h2
    case isFalse ht =>
      exact ⟨Nat.lt_succ_self i, Bool.eq_false_iff.2 ht, fun y h1 h2 => absurd h2 (by omega)⟩

theorem nextFetch_spec (i : Nat) :
    i < code.nextFetch i ∧ IS_TRAP (code.op (code.nextFetch i)) = false ∧
      ∀ y, i < y → y < code.nextFetch i → IS_TRAP (code.op y) = true :=
  skipTraps_spec (by omega)

/-- A trace that does not end in a trap is never fetched beyond its end. -/
theorem nextFetch_le {i : Nat} (hi : i < code.sim_num_insn) (hlast : IS_TRAP (code.op code.sim_num_insn) = false) :
    code.nextFetch i ≤ code.sim_num_insn := by
  by_contra h
  have := (nextFetch_spec i).2.2 _ hi (Nat.not_le.1 h)
  rw [hlast] at this
  cases this

/-- The instructions that are no traps, in program order, from behind `d` up to `f`. -/
def between (code : Code) (d f : Nat) : List Nat :=
  (List.range' (d + 1) (f - d)).filter fun i => !IS_TRAP (code.op i)

theorem mem_between {d f x : Nat} : x ∈ code.between d f ↔ d < x ∧ x ≤ f ∧ IS_TRAP (code.op x) = false := by
  rw [between, List.mem_filter, List.mem_range'_1, Bool.not_eq_true']
  constructor
  · rintro ⟨⟨h1, h2⟩, ht⟩
    exact ⟨by omega, by omega, ht⟩
  · rintro ⟨h1, h2, ht⟩
    exact ⟨⟨by omega, by omega⟩, ht⟩

theorem between_append {d m f : Nat} (h1 : d ≤ m) (h2 : m ≤ f) :
    code.between d f = code.between d m ++ code.between m f := by
  have : List.range' (d + 1) (f - d) = List.range' (d + 1) (m - d) ++ List.range' (m + 1) (f - m) := by
    rw [show f - d = (m - d) + (f - m) by omega, ← List.range'_append_1, show d + 1 + (m - d) = m + 1 by omega]
  rw [between, this, List.filter_append]
  rfl

theorem between_traps {d f : Nat} (h : ∀ y, d < y → y ≤ f → IS_TRAP (code.op y) = true) : code.between d f = [] := by
  rw [between, List.filter_eq_nil_iff]
  intro x hx
  rw [List.mem_range'_1] at hx
  rw [h x (by omega) (by omega)]
  decide

theorem between_succ {d : Nat} (h : IS_TRAP (code.op (d + 1)) = false) : code.between d (d + 1) = [d + 1] := by
  rw [between, Nat.add_sub_cancel_left, List.range'_one, List.filter_cons, h]
  rfl

/-- Up to the first instruction that is no trap there is just that one. -/
theorem between_first {d i : Nat} (hlt : d < i) (hi : IS_TRAP (code.op i) = false)
    (hall : ∀ y, d < y → y < i → IS_TRAP (code.op y) = true) : code.between d i = [i] := by
  obtain ⟨m, rfl⟩ : ∃ m, i = m + 1 := ⟨i - 1, by omega⟩
  rw [between_append (m := m) (by omega) (by omega), between_succ hi,
    between_traps fun y h1 h2 => hall y h1 (by omega)]
  rfl

theorem between_fetch {d f : Nat} (h : d ≤ f) :
    code.between d (code.nextFetch f) = code.between d f ++ [code.nextFetch f] := by
  obtain ⟨hlt, hn, hall⟩ := code.nextFetch_spec f
  rw [between_append h hlt.le, between_first hlt hn hall]

/-- The oldest instruction of the window is the next in program order. -/
theorem between_cons {d f i : Nat} {q : List Nat} (h : code.between d f = i :: q) :
    d < i ∧ i ≤ f ∧ IS_TRAP (code.op i) = false ∧ (∀ y, d < y → y < i → IS_TRAP (code.op y) = true) ∧
      q = code.between i f := by
  obtain ⟨h1, h2, h3⟩ := mem_between.1 (h ▸ List.mem_cons_self : i ∈ code.between d f)
  have hsorted : (code.between d f).Pairwise (· < ·) := (List.pairwise_lt_range' 1).filter _
  have hall (y) (hd : d < y) (hy : y < i) : IS_TRAP (code.op y) = true := by
    by_contra ht
    have : y ∈ i :: q := h ▸ mem_between.2 ⟨hd, by omega, Bool.eq_false_iff.2 ht⟩
    rw [h] at hsorted
    rcases List.mem_cons.1 this with rfl | hq
    · exact lt_irrefl _ hy
    · exact lt_asymm hy ((List.pairwise_cons.1 hsorted).1 y hq)
  rw [between_append h1.le h2, between_first h1 h3 hall] at h
  exact ⟨h1, h2, h3, hall, (List.cons.inj h).2.symm⟩

end Code

/-! ## The machine -/

/-- A trace that does not end in a trap, and which earlier results each instruction needs. -/
@[ext]
structure Dataflow extends Code where
  last : 0 < sim_num_insn → IS_TRAP (op sim_num_insn) = false
  producers : Nat → Finset Nat
  older : ∀ {j i}, i ∈ producers j → 0 < i ∧ i < j
  writes : ∀ {j i}, i ∈ producers j → WRITES_CDB (op i) = true

namespace Pipeline

/-- The result of an instruction has left the bus. -/
def Retired (p : Pipeline) (i : Nat) : Prop := p.cdb i ≠ 0 ∧ p.commonDataBus ≠ some i

instance (p : Pipeline) (i : Nat) : Decidable (p.Retired i) := inferInstanceAs (Decidable (_ ∧ _))

end Pipeline

namespace Dataflow

variable (g : Dataflow) (cycle : Nat) (p : Pipeline)

def ready (j : Nat) : Bool := decide (∀ i ∈ g.producers j, p.Retired i)

def issue : Pipeline := p.issue_To_execute cycle (g.ready p)

def step : Pipeline :=
  (((g.issue cycle ((p.retire).execute_To_CDB g.toCode cycle)).dispatch_To_issue g.toCode cycle).fetch_To_dispatch
    g.toCode cycle)

end Dataflow

end Tomasulo
