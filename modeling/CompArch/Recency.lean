import Mathlib.Data.List.Nodup
import Mathlib.Data.List.TakeDrop
/-!
# Recency lists

The contents of a store of bounded size that replaces what was used least
recently: a list, most recent first, to whose front a use moves or adds its element.
-/

namespace Recency

variable {α : Type*} [DecidableEq α] {k : Nat} {a b : α} {l : List α}

/-- The contents after a use of `a`, in a store of size `k`. -/
def touch (k : Nat) (a : α) (l : List α) : List α := (a :: l.erase a).take k

/-- The last use is the most recent one. -/
theorem head_touch (hk : 0 < k) : (touch k a l).head? = some a := by
  obtain ⟨k, rfl⟩ := Nat.exists_eq_add_of_lt hk
  simp [touch]

/-- A use of what is there replaces nothing. -/
theorem touch_of_mem (h : a ∈ l) (hk : l.length ≤ k) : touch k a l = a :: l.erase a := by
  apply List.take_of_length_le
  rw [List.length_cons, List.length_erase_of_mem h]
  have := List.length_pos_of_mem h
  omega

theorem touch_of_room (h : a ∉ l) (hk : l.length < k) : touch k a l = a :: l := by
  rw [touch, List.erase_of_not_mem h]
  exact List.take_of_length_le hk

/-- What was used least recently is replaced. -/
theorem touch_of_full (h : a ∉ l ++ [b]) (hk : (l ++ [b]).length = k) : touch k a (l ++ [b]) = a :: l := by
  rw [touch, List.erase_of_not_mem h, ← hk, List.length_append, List.length_singleton, List.take_succ_cons]
  simp

/-- The last element used is one of the last two after another use. -/
theorem mem_take_touch_of_head (hk : 2 ≤ k) (h : l.head? = some b) : b ∈ (touch k a l).take 2 := by
  obtain ⟨k, rfl⟩ := Nat.exists_eq_add_of_le' hk
  cases l with
  | nil => cases h
  | cons c l =>
    obtain rfl : c = b := Option.some.inj h
    by_cases hc : c = a
    · simp [touch, hc]
    · simp [touch, hc]

/-- Of two elements or more, the last two used stay. -/
theorem mem_touch_of_head (hk : 2 ≤ k) (h : l.head? = some b) : b ∈ touch k a l :=
  List.mem_of_mem_take (mem_take_touch_of_head hk h)

end Recency
