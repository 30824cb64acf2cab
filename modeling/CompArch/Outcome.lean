import Mathlib.Logic.Basic
/-!
# What a call that can fail ensures

One condition on the result of a call and one on its error, with the rules to
establish both along a sequence of calls.
-/

namespace Outcome

universe u v

variable {ε : Type u} {α β : Type v} {x : Except ε α} {P Q : α → Prop} {R : β → Prop} {E F : ε → Prop}

/-- `P` holds of the result of `x`, or `E` of its error. -/
def Ensures (x : Except ε α) (P : α → Prop) (E : ε → Prop) : Prop :=
  match x with
  | .ok a => P a
  | .error e => E e

@[simp] theorem ensures_ok {a : α} : Ensures (.ok a) P E ↔ P a := Iff.rfl

@[simp] theorem ensures_pure {a : α} : Ensures (pure a) P E ↔ P a := Iff.rfl

@[simp] theorem ensures_error {e : ε} : Ensures (.error e) P E ↔ E e := Iff.rfl

theorem Ensures.mono (h : Ensures x P E) (hP : ∀ a, P a → Q a) (hE : ∀ e, E e → F e) : Ensures x Q F := by
  cases x with
  | error e => exact hE e h
  | ok a => exact hP a h

/-- What follows a call may rely on what the call ensures. -/
theorem Ensures.bind {f : α → Except ε β} (h : Ensures x P E) (hf : ∀ a, P a → Ensures (f a) R E) :
    Ensures (x >>= f) R E := by
  cases x with
  | error e => exact h
  | ok a => exact hf a h

/-- The result is the call's. -/
theorem Ensures.result (h : Ensures x P E) : Ensures x (fun a => x = .ok a ∧ P a) E := by
  cases x with
  | error e => exact h
  | ok a => exact ⟨rfl, h⟩

theorem Ensures.of_ok {a : α} (h : Ensures x P E) (hx : x = .ok a) : P a := by
  rw [hx] at h
  exact h

theorem bind_ok {f : α → Except ε β} {b : β} : (x >>= f) = .ok b ↔ ∃ a, x = .ok a ∧ f a = .ok b := by
  cases x with
  | error e =>
    constructor
    · intro h
      cases h
    · rintro ⟨a, h, -⟩
      cases h
  | ok a =>
    constructor
    · intro h
      exact ⟨a, rfl, h⟩
    · rintro ⟨a', h, hf⟩
      cases h
      exact hf

theorem map_ok {f : α → β} {b : β} : x.map f = .ok b ↔ ∃ a, x = .ok a ∧ f a = b := by
  cases x with
  | error e =>
    constructor
    · rintro ⟨⟩
    · rintro ⟨a, ⟨⟩, -⟩
  | ok a =>
    constructor
    · intro h
      exact ⟨a, rfl, Except.ok.inj h⟩
    · rintro ⟨a', h, rfl⟩
      cases h
      rfl

/-! ## Two results -/

section Follows
variable {ε' : Type u} {γ δ : Type v} {e : ε → Option ε'} {S : α → β → Prop} {T : γ → δ → Prop}

/-- Where the first result is a value, the second is one that is related to it. Where it is an error, `e` says
which error the second is, or nothing about the second. -/
def Follows (e : ε → Option ε') (S : α → β → Prop) (x : Except ε α) (y : Except ε' β) : Prop :=
  Ensures x (fun a => ∃ b, y = .ok b ∧ S a b) fun err => ∀ err', e err = some err' → y = .error err'

variable {y : Except ε' β}

theorem follows_ok {a : α} {b : β} (h : S a b) : Follows e S (.ok a) (.ok b) := ⟨b, rfl, h⟩

theorem follows_self {e : ε → Option ε} {S : α → α → Prop} (he : ∀ err err', e err = some err' → err = err')
    (h : ∀ a, x = .ok a → S a a) : Follows e S x x := by
  cases x with
  | error err =>
    intro err' herr
    rw [he err err' herr]
  | ok a => exact ⟨a, rfl, h a rfl⟩

theorem Follows.of_ok {a : α} (h : Follows e S x y) (hx : x = .ok a) : ∃ b, y = .ok b ∧ S a b := by
  rw [hx] at h
  exact h

theorem Follows.bind {f : α → Except ε γ} {g : β → Except ε' δ} (h : Follows e S x y)
    (hf : ∀ a b, S a b → Follows e T (f a) (g b)) : Follows e T (x >>= f) (y >>= g) := by
  cases x with
  | error err =>
    intro err' he
    rw [h err' he]
    rfl
  | ok a =>
    obtain ⟨b, rfl, hs⟩ := h
    exact hf a b hs

end Follows

end Outcome
