import Mathlib.Logic.Function.Basic
import Mathlib.Data.List.Basic
/-!
# Runs of a transition system

A step takes a state to a state and emits a list of observations. A run is a
sequence of steps from a fixed start, with everything emitted so far as its log.
-/

namespace Lts

variable {σ ω : Type*}

/-- The runs of `step` from `s₀`: the log so far and the state reached. -/
inductive Run (step : σ → List ω → σ → Prop) (s₀ : σ) : List ω → σ → Prop
  | start : Run step s₀ [] s₀
  | step {log : List ω} {s : σ} {o : List ω} {s' : σ} :
      Run step s₀ log s → step s o s' → Run step s₀ (log ++ o) s'

/-- A state some run ends in. -/
def Reachable (step : σ → List ω → σ → Prop) (s₀ s : σ) : Prop := ∃ log, Run step s₀ log s

theorem Reachable.start {step : σ → List ω → σ → Prop} {s₀ : σ} : Reachable step s₀ s₀ := ⟨[], .start⟩

theorem Reachable.next {step : σ → List ω → σ → Prop} {s₀ s s' : σ} {o : List ω}
    (h : Reachable step s₀ s) (hs : step s o s') : Reachable step s₀ s' := by
  obtain ⟨log, hr⟩ := h
  exact ⟨log ++ o, .step hr hs⟩

/-- What holds at the start and survives every step holds in every reachable state. -/
theorem Reachable.invariant {step : σ → List ω → σ → Prop} {s₀ : σ} {P : σ → Prop} (h₀ : P s₀)
    (hs : ∀ s o s', P s → step s o s' → P s') {s : σ} (h : Reachable step s₀ s) : P s := by
  obtain ⟨log, hr⟩ := h
  induction hr with
  | start => exact h₀
  | step _ hst ih => exact hs _ _ _ ih hst

/-! ## Runs on given inputs -/

section Exec
variable {ι : Type*}

/-- What a system does on the inputs `is`, when it takes them all. -/
def exec (next : σ → ι → Option (List ω × σ)) (s : σ) : List ι → Option (List ω × σ)
  | [] => some ([], s)
  | i :: is =>
    match next s i with
    | none => none
    | some (o, s') => (exec next s' is).map fun r => (o ++ r.1, r.2)

theorem Run.exec {step : σ → List ω → σ → Prop} {next : σ → ι → Option (List ω × σ)}
    (hn : ∀ s i o s', next s i = some (o, s') → step s o s') {s₀ s : σ} {log₀ : List ω} (h : Run step s₀ log₀ s)
    {is : List ι} {log : List ω} {s' : σ} (he : exec next s is = some (log, s')) : Run step s₀ (log₀ ++ log) s' := by
  induction is generalizing s log₀ log with
  | nil =>
    obtain ⟨rfl, rfl⟩ : [] = log ∧ s = s' := by simpa [Lts.exec] using he
    simpa using h
  | cons i is ih =>
    unfold Lts.exec at he
    split at he
    case h_1 => cases he
    case h_2 o s₁ hs =>
      obtain ⟨r, hr, hr'⟩ := Option.map_eq_some_iff.1 he
      obtain ⟨rfl, rfl⟩ := Prod.mk.inj hr'
      have := ih (h.step (hn _ _ _ _ hs)) hr
      rwa [List.append_assoc] at this

end Exec

/-! ## Independent copies of one system -/

section Family
variable {β : Type*} [DecidableEq β]

/-- One copy of a system for each `b`. A step of the family is a step of one
copy, and its observations name that copy. -/
inductive FamilyStep (step : σ → List ω → σ → Prop) (f : β → σ) : List (β × ω) → (β → σ) → Prop
  | at (b : β) {o : List ω} {s' : σ} :
      step (f b) o s' → FamilyStep step f (o.map (b, ·)) (Function.update f b s')

/-- The part of a family's log that is about copy `b`. -/
def logOf (b : β) (log : List (β × ω)) : List ω := log.filterMap fun e => if e.1 = b then some e.2 else none

@[simp] theorem logOf_append (b : β) (l l' : List (β × ω)) : logOf b (l ++ l') = logOf b l ++ logOf b l' := by
  simp [logOf]

@[simp] theorem logOf_cons_self (b : β) (o : ω) (log : List (β × ω)) : logOf b ((b, o) :: log) = o :: logOf b log := by
  simp [logOf]

theorem logOf_cons_other {b b' : β} (h : b' ≠ b) (o : ω) (log : List (β × ω)) :
    logOf b ((b', o) :: log) = logOf b log := by
  simp [logOf, h]

theorem logOf_self (b : β) (o : List ω) : logOf b (o.map (b, ·)) = o := by
  induction o with
  | nil => rfl
  | cons x o ih => simp only [logOf, List.map_cons, List.filterMap_cons, if_true] at ih ⊢; rw [ih]

theorem logOf_other {b b' : β} (h : b ≠ b') (o : List ω) : logOf b' (o.map (b, ·)) = [] := by
  induction o with
  | nil => rfl
  | cons x o ih => simp only [logOf, List.map_cons, List.filterMap_cons, if_neg h] at ih ⊢; exact ih

theorem mem_of_mem_logOf {b : β} {o : ω} {log : List (β × ω)} (h : o ∈ logOf b log) : (b, o) ∈ log := by
  obtain ⟨⟨b', o'⟩, hm, he⟩ := List.mem_filterMap.1 h
  split at he
  case isTrue hb =>
    obtain rfl : b' = b := hb
    obtain rfl := Option.some.inj he
    exact hm
  case isFalse => cases he

/-- What copy `b` does in a run of the family is a run of the system. -/
theorem Run.proj {step : σ → List ω → σ → Prop} {f₀ f : β → σ} {log : List (β × ω)}
    (h : Run (FamilyStep step) f₀ log f) (b : β) : Run step (f₀ b) (logOf b log) (f b) := by
  induction h with
  | start => exact .start
  | @step log f o f' _ hs ih =>
    obtain ⟨b', hst⟩ := hs
    rw [logOf_append]
    by_cases hb : b' = b
    · subst hb
      rw [logOf_self, Function.update_self]
      exact .step ih hst
    · rw [logOf_other hb, Function.update_of_ne (Ne.symm hb), List.append_nil]
      exact ih

/-- A run of the system, as the run of copy `b` while the others rest. -/
theorem Run.at {step : σ → List ω → σ → Prop} {f₀ : β → σ} {b : β} {log : List ω} {s : σ}
    (h : Run step (f₀ b) log s) : Run (FamilyStep step) f₀ (log.map (b, ·)) (Function.update f₀ b s) := by
  induction h with
  | start =>
    rw [Function.update_eq_self]
    exact .start
  | @step log s o s' _ hs ih =>
    have hst : FamilyStep step (Function.update f₀ b s) _ _ := .at b (by rwa [Function.update_self])
    rw [Function.update_idem] at hst
    rw [List.map_append]
    exact .step ih hst

end Family

end Lts
