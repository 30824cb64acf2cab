import Mathlib.Data.List.Basic
import Mathlib.Data.Multiset.AddSub
/-!
# Queues that several senders feed

Messages arrive one after another, each anywhere in the queue that the network
allows: behind every message it has to stay behind, but possibly in front of
others that were sent earlier.
-/

namespace Arrival

variable {α β : Type*}

/-- The messages `new`, sent in this order, have joined the queue `q`, which is
now `q'`. A message `a` stays behind the messages `x` with `behind a x`. -/
inductive Joins (behind : α → α → Prop) : List α → List α → List α → Prop
  | nil (q : List α) : Joins behind [] q q
  | cons {a : α} {new l r q' : List α} :
      (∀ x ∈ r, ¬ behind a x) → Joins behind new (l ++ a :: r) q' → Joins behind (a :: new) (l ++ r) q'

variable {behind : α → α → Prop} {new q q' : List α}

/-- Any message may join at the tail. -/
theorem Joins.tail (behind : α → α → Prop) (new q : List α) : Joins behind new q (q ++ new) := by
  induction new generalizing q with
  | nil =>
    rw [List.append_nil]
    exact .nil q
  | cons a new ih =>
    have h := ih (q ++ [a])
    rw [List.append_assoc, List.singleton_append] at h
    have := @Joins.cons _ behind a new q [] _ (fun _ hx => absurd hx List.not_mem_nil) h
    rwa [List.append_nil] at this

/-- A single message joins behind the first `k`, several at the tail. -/
def joinAt (k : Nat) : List α → List α → List α
  | [a], q => q.take k ++ a :: q.drop k
  | new, q => q ++ new

theorem joinAt_spec {k : Nat} (h : ∀ a ∈ new, ∀ x ∈ q.drop k, ¬ behind a x) : Joins behind new q (joinAt k new q) := by
  unfold joinAt
  split
  case h_1 a =>
    have := Joins.cons (h a (List.mem_singleton_self a)) (.nil (q.take k ++ a :: q.drop k))
    rwa [List.take_append_drop] at this
  case h_2 => exact .tail ..

theorem Joins.nil_iff : Joins behind [] q q' ↔ q' = q := by
  constructor
  · intro h
    cases h
    rfl
  · rintro rfl
    exact .nil q'

theorem Joins.singleton {a : α} (h : Joins behind [a] q q') :
    ∃ l r, q = l ++ r ∧ q' = l ++ a :: r ∧ ∀ x ∈ r, ¬ behind a x := by
  generalize hn : [a] = new at h
  cases h with
  | nil q => cases hn
  | @cons a' new l r _ hr h =>
    obtain ⟨rfl, rfl⟩ := List.cons.inj hn
    exact ⟨l, r, rfl, Joins.nil_iff.1 h, hr⟩

theorem Joins.perm (h : Joins behind new q q') : q'.Perm (new ++ q) := by
  induction h with
  | nil q => exact .refl _
  | @cons a new l r q' _ _ ih =>
    rw [← List.append_assoc] at ih
    refine ih.trans (List.perm_middle.trans ?_)
    rw [List.append_assoc, List.cons_append]

theorem Joins.mem_iff (h : Joins behind new q q') {x : α} : x ∈ q' ↔ x ∈ new ∨ x ∈ q := by
  rw [h.perm.mem_iff, List.mem_append]

/-- The messages that stay in order among themselves do so. -/
theorem Joins.filterMap {f : α → Option β} (hf : ∀ a x, (f a).isSome → (f x).isSome → behind a x)
    (h : Joins behind new q q') : q'.filterMap f = q.filterMap f ++ new.filterMap f := by
  induction h with
  | nil q => simp
  | @cons a new l r q' hr _ ih =>
    rw [ih]
    cases ha : f a with
    | none => simp [ha]
    | some b =>
      have hn : r.filterMap f = [] := by
        rw [List.filterMap_eq_nil_iff]
        intro x hx
        by_contra hs
        exact hr x hx (hf a x (by simp [ha]) (Option.isSome_iff_ne_none.2 hs))
      simp [ha, hn]

/-- Where the order is free, only what is in the queue counts. -/
theorem Joins.filterMap_coe (f : α → Option β) (h : Joins behind new q q') :
    (↑(q'.filterMap f) : Multiset β) = ↑(new.filterMap f) + ↑(q.filterMap f) := by
  rw [Multiset.coe_add, ← List.filterMap_append, Multiset.coe_eq_coe]
  exact h.perm.filterMap f

end Arrival
