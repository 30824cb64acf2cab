import Mathlib.Data.List.Basic
import Mathlib.Data.List.GetD
import Mathlib.Data.List.Induction
/-!
# What still stands

A log is kept oldest first. `Since P Q` says that it has a `P` with no `Q` after
it: what `P` established still stands when only `Q` takes it back.
-/

namespace Past

variable {ω : Type*} {P Q : ω → Prop}

/-- Some event is `P`, and none after it is `Q`. -/
def Since (P Q : ω → Prop) (log : List ω) : Prop :=
  ∃ before e after, log = before ++ e :: after ∧ P e ∧ ∀ e' ∈ after, ¬ Q e'

theorem not_since_nil : ¬ Since P Q [] := by
  rintro ⟨before, e, after, he, -⟩
  exact List.append_ne_nil_of_right_ne_nil before (List.cons_ne_nil e after) he.symm

/-- What is new decides it, or lets what was stand. -/
theorem since_append {log new : List ω} :
    Since P Q (log ++ new) ↔ Since P Q new ∨ Since P Q log ∧ ∀ e ∈ new, ¬ Q e := by
  constructor
  · rintro ⟨before, e, after, he, hp, hq⟩
    rcases List.append_eq_append_iff.1 he with ⟨mid, rfl, rfl⟩ | ⟨mid, rfl, hmid⟩
    · exact .inl ⟨mid, e, after, rfl, hp, hq⟩
    · cases mid with
      | nil => exact .inl ⟨[], e, after, hmid.symm, hp, hq⟩
      | cons e' mid =>
        obtain ⟨rfl, rfl⟩ := List.cons.inj hmid
        exact .inr ⟨⟨before, e, mid, rfl, hp, fun x hx => hq x (List.mem_append_left _ hx)⟩,
          fun x hx => hq x (List.mem_append_right _ hx)⟩
  · rintro (⟨before, e, after, rfl, hp, hq⟩ | ⟨⟨before, e, after, rfl, hp, hq⟩, hnew⟩)
    · exact ⟨log ++ before, e, after, (List.append_assoc ..).symm, hp, hq⟩
    · refine ⟨before, e, after ++ new, by rw [List.append_assoc, List.cons_append], hp, fun x hx => ?_⟩
      rcases List.mem_append.1 hx with hx | hx
      · exact hq x hx
      · exact hnew x hx

theorem since_cons {e : ω} {log : List ω} :
    Since P Q (e :: log) ↔ Since P Q log ∨ P e ∧ ∀ e' ∈ log, ¬ Q e' := by
  have hone : Since P Q [e] ↔ P e := by
    constructor
    · rintro ⟨before, x, after, he, hp, -⟩
      obtain ⟨-, h⟩ | ⟨-, h⟩ := List.append_eq_singleton_iff.1 he.symm
      · obtain ⟨rfl, -⟩ := List.cons.inj h
        exact hp
      · cases h
    · exact fun hp => ⟨[], e, [], rfl, hp, fun x hx => nomatch hx⟩
  rw [← List.singleton_append, since_append, hone]

instance decidableSince [DecidablePred P] [DecidablePred Q] : (log : List ω) → Decidable (Since P Q log)
  | [] => .isFalse not_since_nil
  | _ :: log =>
    have := decidableSince log
    decidable_of_iff _ since_cons.symm

/-- Where nothing is taken back, once is enough. -/
theorem since_of_mem {log : List ω} {e : ω} (he : e ∈ log) (hp : P e) (hq : ∀ e' ∈ log, ¬ Q e') : Since P Q log := by
  obtain ⟨before, after, rfl⟩ := List.append_of_mem he
  exact ⟨before, e, after, rfl, hp, fun x hx => hq x (List.mem_append_right _ (List.mem_cons_of_mem _ hx))⟩

/-- Where only a `P` is a `Q`, the last one stands. -/
theorem since_of_imp {log : List ω} (hp : ∃ e ∈ log, P e) (hq : ∀ e ∈ log, Q e → P e) : Since P Q log := by
  induction log using List.reverseRecOn with
  | nil =>
    obtain ⟨e, he, -⟩ := hp
    cases he
  | append_singleton log e ih =>
    by_cases h : P e
    · exact ⟨log, e, [], rfl, h, fun x hx => nomatch hx⟩
    · obtain ⟨e', he', hp'⟩ := hp
      have hmem : e' ∈ log := by
        rcases List.mem_append.1 he' with hm | hm
        · exact hm
        · exact absurd (List.mem_singleton.1 hm ▸ hp') h
      refine since_append.2 (.inr ⟨ih ⟨e', hmem, hp'⟩ fun x hx => hq x (List.mem_append_left _ hx), fun x hx hQ => ?_⟩)
      obtain rfl := List.mem_singleton.1 hx
      exact h (hq x (List.mem_append_right _ (List.mem_singleton_self x)) hQ)

/-! ## Entries -/

/-- A log with one event more, read with a default behind its end. -/
theorem getD_concat (log : List ω) (e d : ω) (i : Nat) :
    (log ++ [e]).getD i d = if i = log.length then e else log.getD i d := by
  rcases Nat.lt_trichotomy i log.length with h | h | h
  · rw [List.getD_append _ _ _ _ h, if_neg (Nat.ne_of_lt h)]
  · rw [List.getD_append_right _ _ _ _ (Nat.le_of_eq h.symm), h, Nat.sub_self, if_pos rfl]
    rfl
  · have hle : (log ++ [e]).length ≤ i := by
      rw [List.length_append]
      exact h
    rw [List.getD_eq_default _ _ hle, List.getD_eq_default _ _ (Nat.le_of_lt h),
      if_neg (Nat.ne_of_gt h)]

end Past
