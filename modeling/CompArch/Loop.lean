import Mathlib.Data.Prod.Basic
/-!
# A counted loop that stops when its test says so

`do { body(n); n++ } while (!stop)`, run with fuel: rules for its result, an
invariant, termination by a rank, and two loops in step with each other.
-/

namespace Loop

variable {σ τ : Type*}

/-- The loop from round `n` and state `s`: the counter and the state it stops with. -/
def doWhile (body : Nat → σ → σ) (stop : σ → Bool) : Nat → Nat → σ → Option (Nat × σ)
  | 0, _, _ => none
  | fuel + 1, n, s =>
    if stop (body n s) then some (n + 1, body n s) else doWhile body stop fuel (n + 1) (body n s)

/-- The state after `k` rounds, whatever the test says. -/
def rounds (body : Nat → σ → σ) (n : Nat) (s : σ) : Nat → σ
  | 0 => s
  | k + 1 => body (n + k) (rounds body n s k)

variable {body : Nat → σ → σ} {stop : σ → Bool} {n : Nat} {s : σ}

theorem rounds_body (k : Nat) : rounds body (n + 1) (body n s) k = rounds body n s (k + 1) := by
  induction k with
  | zero => rfl
  | succ k ih =>
    rw [rounds, ih, rounds, Nat.add_right_comm]
    rfl

/-- The loop stops after the first round whose state passes the test. -/
theorem doWhile_eq_some {fuel m : Nat} {t : σ} (h : doWhile body stop fuel n s = some (m, t)) :
    ∃ k, m = n + k + 1 ∧ t = rounds body n s (k + 1) ∧ stop t = true := by
  induction fuel generalizing n s with
  | zero => cases h
  | succ fuel ih =>
    unfold doWhile at h
    split at h
    case isTrue hs =>
      cases h
      exact ⟨0, rfl, rfl, hs⟩
    case isFalse hs =>
      obtain ⟨k, rfl, rfl, ht⟩ := ih h
      exact ⟨k + 1, by omega, rounds_body _, ht⟩

variable (body stop) in
/-- A rank that falls in every round but the last bounds the number of rounds. -/
theorem doWhile_terminates (I : Nat → σ → Prop) (rank : Nat → σ → Nat) (hI : ∀ m t, I m t → I (m + 1) (body m t))
    (hrank : ∀ m t, I m t → stop (body m t) = true ∨ rank (m + 1) (body m t) < rank m t) (h0 : I n s) :
    ∃ r, doWhile body stop (rank n s + 1) n s = some r := by
  suffices ∀ fuel n s, I n s → rank n s < fuel → ∃ r, doWhile body stop fuel n s = some r from
    this _ n s h0 (Nat.lt_succ_self _)
  intro fuel
  induction fuel with
  | zero => intro n s _ h; omega
  | succ fuel ih =>
    intro n s hs hlt
    unfold doWhile
    split
    case isTrue => exact ⟨_, rfl⟩
    case isFalse hstop =>
      have := (hrank n s hs).resolve_left hstop
      exact ih _ _ (hI _ _ hs) (by omega)

/-- Two loops whose rounds and tests agree through `f` stop together. -/
theorem doWhile_map {I : Nat → σ → Prop} {f : σ → τ} {body' : Nat → τ → τ} {stop' : τ → Bool}
    (hI : ∀ m t, I m t → I (m + 1) (body m t)) (hbody : ∀ m t, I m t → f (body m t) = body' m (f t))
    (hstop : ∀ m t, I m t → stop (body m t) = stop' (f (body m t))) (fuel : Nat) (h0 : I n s) :
    (doWhile body stop fuel n s).map (Prod.map id f) = doWhile body' stop' fuel n (f s) := by
  induction fuel generalizing n s with
  | zero => rfl
  | succ fuel ih =>
    unfold doWhile
    rw [hstop _ _ h0, ← hbody _ _ h0]
    split
    · rfl
    · exact ih (hI _ _ h0)

end Loop
