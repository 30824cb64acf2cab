import Mathlib.Data.List.FinRange
import Mathlib.Data.List.NodupEquivFin
import Mathlib.Data.List.Sort
import Mathlib.Logic.Function.Basic
/-!
# Arrays of pointers

A fixed number of slots, each NULL or holding a pointer: what the loops over such
an array do, and the exchange sort.
-/

/-- An array of `n` pointers, `none` for NULL. -/
abbrev Slots (n : Nat) (α : Type*) := Fin n → Option α

namespace Slots

variable {n : Nat} {α : Type*} {a : Slots n α} {x y : α} {k : Fin n}

/-- Some slot points to `x`. -/
def Holds (a : Slots n α) (x : α) : Prop := ∃ k, a k = some x

/-- No pointer stands in two slots. -/
def Distinct (a : Slots n α) : Prop := ∀ ⦃k k' x⦄, a k = some x → a k' = some x → k = k'

instance [DecidableEq α] : Decidable (Holds a x) := inferInstanceAs (Decidable (∃ _, _))

/-- Entry `k`, NULL outside the array. -/
def get (a : Slots n α) (k : Nat) : Option α := if h : k < n then a ⟨k, h⟩ else none

/-- The pointers in the order of their slots. -/
def entries (a : Slots n α) : List α := (List.finRange n).filterMap a

theorem mem_entries : x ∈ a.entries ↔ a.Holds x := by
  simp [entries, Holds]

theorem Distinct.nodup_entries (h : a.Distinct) : a.entries.Nodup :=
  (List.nodup_finRange n).filterMap fun _ _ _ hk hk' => h hk hk'

/-- NULL in every slot that points to `x`. -/
def clear [DecidableEq α] (a : Slots n α) (x : α) : Slots n α := fun k => if a k = some x then none else a k

section Clear

variable [DecidableEq α]

theorem clear_eq_some : a.clear x k = some y ↔ a k = some y ∧ y ≠ x := by
  unfold clear
  split
  case isTrue h => simp [h, eq_comm]
  case isFalse h =>
    constructor
    · intro hy
      exact ⟨hy, fun hx => h (hx ▸ hy)⟩
    · exact And.left

end Clear

/-! ## The first free slot -/

/-- The first slot that is NULL. -/
def firstFree (a : Slots n α) : Option (Fin n) := (List.finRange n).find? fun k => (a k).isNone

theorem firstFree_eq_some (h : a.firstFree = some k) : a k = none := by
  have := List.find?_some h
  simpa using this

theorem firstFree_eq_none : a.firstFree = none ↔ ∀ k, a k ≠ none := by
  simp [firstFree, List.find?_eq_none]

/-- The pointer stored in slot `k`. -/
def put (a : Slots n α) (k : Fin n) (x : α) : Slots n α := Function.update a k (some x)

theorem holds_put (hk : a k = none) : (a.put k x).Holds y ↔ a.Holds y ∨ y = x := by
  constructor
  · rintro ⟨k', h⟩
    by_cases hkk : k' = k
    · subst hkk
      rw [put, Function.update_self] at h
      exact .inr (Option.some.inj h).symm
    · rw [put, Function.update_of_ne hkk] at h
      exact .inl ⟨k', h⟩
  · rintro (⟨k', h⟩ | rfl)
    · have hkk : k' ≠ k := by
        rintro rfl
        rw [hk] at h
        cases h
      exact ⟨k', by rw [put, Function.update_of_ne hkk, h]⟩
    · exact ⟨k, by rw [put, Function.update_self]⟩

theorem Distinct.put (h : a.Distinct) (hx : ¬ a.Holds x) : (a.put k x).Distinct := by
  have hother {k' y} (hne : k' ≠ k) (hy : a.put k x k' = some y) : a k' = some y := by
    rwa [Slots.put, Function.update_of_ne hne] at hy
  have hself {y} (hy : a.put k x k = some y) : y = x := by
    rw [Slots.put, Function.update_self] at hy
    exact (Option.some.inj hy).symm
  intro k₁ k₂ y h₁ h₂
  by_cases e₁ : k₁ = k <;> by_cases e₂ : k₂ = k
  · rw [e₁, e₂]
  · subst e₁
    obtain rfl := hself h₁
    exact absurd ⟨k₂, hother e₂ h₂⟩ hx
  · subst e₂
    obtain rfl := hself h₂
    exact absurd ⟨k₁, hother e₁ h₁⟩ hx
  · exact h (hother e₁ h₁) (hother e₂ h₂)

end Slots

/-! ## The exchange sort

For each position, compare it with every later one and swap when it is larger. -/

namespace ExchangeSort

variable {α : Type*} [LinearOrder α]

/-- The inner loop: `x` stands at the position, the list behind it. -/
def sink (x : α) : List α → α × List α
  | [] => (x, [])
  | y :: ys =>
    if x > y then
      let (m, rest) := sink y ys
      (m, x :: rest)
    else
      let (m, rest) := sink x ys
      (m, y :: rest)

/-- The outer loop over the first `k` positions. -/
def sortN : Nat → List α → List α
  | k + 1, x :: xs => (sink x xs).1 :: sortN k (sink x xs).2
  | _, l => l

def sort (l : List α) : List α := sortN l.length l

theorem sink_perm (x : α) (l : List α) : ((sink x l).1 :: (sink x l).2).Perm (x :: l) := by
  induction l generalizing x with
  | nil => exact .refl _
  | cons y ys ih =>
    unfold sink
    split
    · exact (List.Perm.swap ..).trans (((ih y).cons x))
    · exact (List.Perm.swap ..).trans (((ih x).cons y).trans (.swap ..))

theorem sink_le (x : α) (l : List α) : (sink x l).1 ≤ x ∧ ∀ y ∈ (sink x l).2, (sink x l).1 ≤ y := by
  induction l generalizing x with
  | nil => exact ⟨le_refl x, fun _ h => absurd h List.not_mem_nil⟩
  | cons z zs ih =>
    unfold sink
    split
    case isTrue h =>
      have hz := ih z
      refine ⟨hz.1.trans h.le, fun y hy => ?_⟩
      rcases List.mem_cons.1 hy with rfl | hy
      · exact hz.1.trans h.le
      · exact hz.2 y hy
    case isFalse h =>
      have hx := ih x
      refine ⟨hx.1, fun y hy => ?_⟩
      rcases List.mem_cons.1 hy with rfl | hy
      · exact hx.1.trans (not_lt.1 h)
      · exact hx.2 y hy

theorem sortN_perm (k : Nat) (l : List α) : (sortN k l).Perm l := by
  induction k generalizing l with
  | zero => exact .refl _
  | succ k ih =>
    cases l with
    | nil => exact .refl _
    | cons x xs => exact ((ih _).cons _).trans (sink_perm x xs)

theorem sortN_sorted {k : Nat} {l : List α} (hk : l.length ≤ k) : (sortN k l).Pairwise (· ≤ ·) := by
  induction k generalizing l with
  | zero =>
    rw [List.length_eq_zero_iff.1 (Nat.le_zero.1 hk)]
    exact .nil
  | succ k ih =>
    cases l with
    | nil => exact .nil
    | cons x xs =>
      have hlen := (sink_perm x xs).length_eq
      refine .cons (fun y hy => (sink_le x xs).2 y ((sortN_perm k _).mem_iff.1 hy)) (ih ?_)
      simp only [List.length_cons] at hlen hk
      omega

theorem sort_perm (l : List α) : (sort l).Perm l := sortN_perm _ l

theorem sort_sorted (l : List α) : (sort l).Pairwise (· ≤ ·) := sortN_sorted (le_refl _)

theorem mem_sort {l : List α} {x : α} : x ∈ sort l ↔ x ∈ l := (sort_perm l).mem_iff

theorem sort_nodup {l : List α} (h : l.Nodup) : (sort l).Nodup := (sort_perm l).nodup_iff.2 h

end ExchangeSort
