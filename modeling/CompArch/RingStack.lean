import Mathlib.Data.List.TakeDrop
import Mathlib.Logic.Function.Basic
/-!
# Stacks in a ring

A stack of `n` cells whose top moves around a ring. A push beyond the last cell
overwrites the oldest entry, so the stack holds the newest `n` entries.
-/

namespace RingStack

open Function

structure Stack (α : Type*) where
  tos : Nat
  cells : Nat → α

variable {α : Type*} {n i t : Nat} {s : Stack α} {l : List α} {a : α}

namespace Stack

def push (n : Nat) (a : α) (s : Stack α) : Stack α :=
  { tos := (s.tos + 1) % n, cells := update s.cells ((s.tos + 1) % n) a }

def pop (n : Nat) (s : Stack α) : Stack α := { s with tos := (s.tos + n - 1) % n }

def top (s : Stack α) : α := s.cells s.tos

end Stack

/-! ## Going around -/

theorem succ_mod (h : t < n) : (t + 1) % n = if t + 1 = n then 0 else t + 1 := by
  split
  case isTrue he => rw [he, Nat.mod_self]
  case isFalse he => exact Nat.mod_eq_of_lt (by omega)

/-- The cell `i` places below `t`. -/
theorem sub_mod (h : t < n) (hi : i < n) : (t + n - i) % n = if i ≤ t then t - i else t + n - i := by
  split
  case isTrue he =>
    have hsub : t + n - i = t - i + n := by omega
    rw [hsub, Nat.add_mod_right]
    exact Nat.mod_eq_of_lt (by omega)
  case isFalse he => exact Nat.mod_eq_of_lt (by omega)

/-! ## What a stack holds -/

/-- The top cells hold the entries `l`, the newest first. -/
structure Holds (n : Nat) (s : Stack α) (l : List α) : Prop where
  tos : s.tos < n
  length : l.length ≤ n
  cell {i : Nat} {a : α} : l[i]? = some a → s.cells ((s.tos + n - i) % n) = a

theorem holds_nil (h : s.tos < n) : Holds n s [] := ⟨h, Nat.zero_le _, fun h => by cases h⟩

theorem Holds.top (h : Holds n s (a :: l)) : s.top = a := by
  have hcell := h.cell (i := 0) rfl
  rwa [Nat.sub_zero, Nat.add_mod_right, Nat.mod_eq_of_lt h.tos] at hcell

theorem Holds.take (h : Holds n s l) (k : Nat) : Holds n s (l.take k) := by
  refine ⟨h.tos, Nat.le_trans (List.length_take_le' ..) h.length, fun {i a} hi => h.cell ?_⟩
  rw [List.getElem?_take] at hi
  split at hi
  · exact hi
  · cases hi

/-- A push keeps the newest entries there is room for. -/
theorem Holds.push (h : Holds n s l) (a : α) : Holds n (s.push n a) ((a :: l).take n) := by
  have hn : 0 < n := Nat.zero_lt_of_lt h.tos
  have htos : (s.tos + 1) % n < n := Nat.mod_lt _ hn
  refine ⟨htos, List.length_take_le .., fun {i b} hi => ?_⟩
  rw [List.getElem?_take] at hi
  split at hi
  case isFalse => cases hi
  case isTrue hlt =>
    show update s.cells ((s.tos + 1) % n) a (((s.tos + 1) % n + n - i) % n) = b
    cases i with
    | zero =>
      rw [Nat.sub_zero, Nat.add_mod_right, Nat.mod_mod, update_self]
      exact Option.some.inj hi
    | succ i =>
      -- one place further down is what the cell was before
      have hplace : ((s.tos + 1) % n + n - (i + 1)) % n = (s.tos + n - i) % n := by
        have ht := h.tos
        rw [sub_mod htos hlt, sub_mod ht (by omega), succ_mod ht]
        split <;> split <;> split <;> omega
      have hne : (s.tos + n - i) % n ≠ (s.tos + 1) % n := by
        have ht := h.tos
        rw [sub_mod ht (by omega), succ_mod ht]
        split <;> split <;> omega
      rw [hplace, update_of_ne hne]
      exact h.cell hi

theorem Holds.pop (h : Holds n s (a :: l)) : Holds n (s.pop n) l := by
  have hn : 0 < n := Nat.zero_lt_of_lt h.tos
  refine ⟨Nat.mod_lt _ hn, Nat.le_of_succ_le h.length, fun {i b} hi => ?_⟩
  have hlt : i + 1 < n := by
    have hl := (List.getElem?_eq_some_iff.1 hi).1
    have hlen := h.length
    rw [List.length_cons] at hlen
    omega
  have hplace : ((s.tos + n - 1) % n + n - i) % n = (s.tos + n - (i + 1)) % n := by
    have ht := h.tos
    have hpop : (s.tos + n - 1) % n < n := Nat.mod_lt _ hn
    rw [sub_mod hpop (by omega), sub_mod ht hlt, sub_mod ht (by omega)]
    split <;> split <;> split <;> omega
  show s.cells (((s.tos + n - 1) % n + n - i) % n) = b
  rw [hplace]
  exact h.cell hi

end RingStack
