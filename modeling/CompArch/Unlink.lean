import Mathlib.Data.List.Nodup
import Mathlib.Data.List.Perm.Basic
/-!
# Taking an element out of a list

The search loop of a singly linked list that keeps a pointer to the element before:
the first element with a property, and the list without it. Where elements have
keys and no two have the same, the order of the list does not matter to a search.
-/

namespace Unlink

variable {α κ : Type*} {p : α → Bool} {a : α} {l l' rest : List α}

/-- The first element with the property, and the others. -/
def unlink (p : α → Bool) : List α → Option (α × List α)
  | [] => none
  | a :: l => if p a then some (a, l) else (unlink p l).map fun r => (r.1, a :: r.2)

theorem unlink_eq_some (h : unlink p l = some (a, rest)) :
    p a = true ∧ ∃ before after, l = before ++ a :: after ∧ rest = before ++ after ∧ ∀ b ∈ before, p b = false := by
  induction l generalizing rest with
  | nil => cases h
  | cons b l ih =>
    unfold unlink at h
    split at h
    case isTrue hb =>
      obtain ⟨rfl, rfl⟩ := Prod.mk.inj (Option.some.inj h)
      exact ⟨hb, [], l, rfl, rfl, by simp⟩
    case isFalse hb =>
      obtain ⟨⟨c, rest'⟩, hr, hc⟩ := Option.map_eq_some_iff.1 h
      obtain ⟨rfl, rfl⟩ := Prod.mk.inj hc
      obtain ⟨hp, before, after, rfl, rfl, hbefore⟩ := ih hr
      refine ⟨hp, b :: before, after, rfl, rfl, ?_⟩
      intro x hx
      rcases List.mem_cons.1 hx with rfl | hx
      · simpa using hb
      · exact hbefore x hx

theorem unlink_perm (h : unlink p l = some (a, rest)) : (a :: rest).Perm l := by
  obtain ⟨-, before, after, rfl, rfl, -⟩ := unlink_eq_some h
  exact List.perm_middle.symm

/-- The element found is the one a plain search finds. -/
theorem find?_eq_unlink : l.find? p = (unlink p l).map (·.1) := by
  induction l with
  | nil => rfl
  | cons b l ih =>
    by_cases hb : p b = true
    · simp [unlink, hb]
    · simp [unlink, hb, ih, Option.map_map, Function.comp_def]

/-! ## Keys -/

variable [DecidableEq κ] {key : α → κ} {k : κ}

theorem find?_key (hn : (l.map key).Nodup) :
    l.find? (fun x => key x = k) = some a ↔ a ∈ l ∧ key a = k := by
  constructor
  · intro h
    exact ⟨List.mem_of_find?_eq_some h, by simpa using List.find?_some h⟩
  · rintro ⟨ha, rfl⟩
    induction l with
    | nil => cases ha
    | cons b l ih =>
      rw [List.map_cons, List.nodup_cons] at hn
      rcases List.mem_cons.1 ha with rfl | ha
      · simp
      · have hne : key b ≠ key a := fun he => hn.1 (he ▸ List.mem_map_of_mem ha)
        rw [List.find?_cons_of_neg (by simpa using hne)]
        exact ih hn.2 ha

/-- A search does not depend on the order of the list. -/
theorem find?_perm (hn : (l.map key).Nodup) (hp : l'.Perm l) :
    l'.find? (fun x => key x = k) = l.find? (fun x => key x = k) := by
  apply Option.ext
  intro a
  rw [find?_key hn, find?_key ((hp.map key).nodup_iff.2 hn), hp.mem_iff]

end Unlink
