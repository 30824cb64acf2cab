import CompArch.Lts
/-!
# Clients of one shared state

Several clients ask questions of a server with one state. A client is isolated
when its answers depend on its own questions only; a view of the state that its
own questions need and the others leave alone is enough for that.
-/

namespace Shared

open Lts

variable {β σ τ α γ : Type*}

/-- A server that may refuse a question: the answer and the next state. -/
abbrev Server (σ α γ : Type*) := σ → α → Option (γ × σ)

/-- One client asks one question, and both are logged. -/
inductive Step (ask : β → Server σ α γ) (s : σ) : List (β × (α × γ)) → σ → Prop
  | ask (b : β) {a : α} {g : γ} {s' : σ} : ask b s a = some (g, s') → Step ask s [(b, (a, g))] s'

/-- A server with a single client. -/
inductive OwnStep (own : Server τ α γ) (t : τ) : List (α × γ) → τ → Prop
  | ask {a : α} {g : γ} {t' : τ} : own t a = some (g, t') → OwnStep own t [(a, g)] t'

/-- Equal questions get equal answers. -/
theorem OwnStep.deterministic {own : Server τ α γ} {t₀ t t' : τ} {log log' : List (α × γ)}
    (h : Run (OwnStep own) t₀ log t) (h' : Run (OwnStep own) t₀ log' t') (hq : log.map Prod.fst = log'.map Prod.fst) :
    log = log' ∧ t = t' := by
  induction h generalizing log' t' with
  | start =>
    cases h' with
    | start => exact ⟨rfl, rfl⟩
    | step _ hs =>
      cases hs
      simp at hq
  | @step log t o _ hr hs ih =>
    obtain ⟨ho⟩ := hs
    cases h' with
    | start => simp at hq
    | step hr' hs' =>
      obtain ⟨ho'⟩ := hs'
      simp only [List.map_append, List.map_cons, List.map_nil] at hq
      obtain ⟨hq, ha⟩ := List.append_inj' hq rfl
      obtain ⟨rfl, rfl⟩ := ih hr' hq
      obtain rfl := (List.cons.inj ha).1
      obtain ⟨rfl, rfl⟩ := Prod.mk.inj (Option.some.inj (ho.symm.trans ho'))
      exact ⟨rfl, rfl⟩

variable [DecidableEq β]

/-- The answers to client `b` depend on the questions of `b` only, whatever the
others ask in between. -/
def Isolated (ask : β → Server σ α γ) (s₀ : σ) (b : β) : Prop :=
  ∀ ⦃log log' s s'⦄, Run (Step ask) s₀ log s → Run (Step ask) s₀ log' s' →
    (logOf b log).map Prod.fst = (logOf b log').map Prod.fst → logOf b log = logOf b log'

/-- The part of a run that client `b` sees is a run of its own server. -/
theorem Run.view {ask : β → Server σ α γ} {own : Server τ α γ} {view : σ → τ} {b : β} {s₀ s : σ}
    {log : List (β × (α × γ))} (hown : ∀ s a g s', ask b s a = some (g, s') → own (view s) a = some (g, view s'))
    (hother : ∀ b' s a g s', b' ≠ b → ask b' s a = some (g, s') → view s' = view s) (h : Run (Step ask) s₀ log s) :
    Run (OwnStep own) (view s₀) (logOf b log) (view s) := by
  induction h with
  | start => exact .start
  | @step log s o s' _ hs ih =>
    obtain ⟨b', ha⟩ := hs
    rw [logOf_append]
    by_cases hb : b' = b
    · subst hb
      rw [logOf_cons_self]
      exact .step ih (.ask (hown _ _ _ _ ha))
    · rw [logOf_cons_other hb, hother _ _ _ _ _ hb ha]
      exact (List.append_nil _).symm ▸ ih

theorem isolated_of_view {ask : β → Server σ α γ} (own : Server τ α γ) (view : σ → τ) {b : β} {s₀ : σ}
    (hown : ∀ s a g s', ask b s a = some (g, s') → own (view s) a = some (g, view s'))
    (hother : ∀ b' s a g s', b' ≠ b → ask b' s a = some (g, s') → view s' = view s) : Isolated ask s₀ b :=
  fun _ _ _ _ h h' hq => (OwnStep.deterministic (Run.view hown hother h) (Run.view hown hother h') hq).1

/-- A single question of `b` that is answered differently after a question of another
client refutes isolation. -/
theorem not_isolated {ask : β → Server σ α γ} {b b' : β} {s₀ s₁ s₂ s₃ : σ} {a a' : α} {g g' g₁ : γ} (hb : b' ≠ b)
    (h : ask b s₀ a = some (g, s₁)) (h' : ask b' s₀ a' = some (g₁, s₂)) (h₂ : ask b s₂ a = some (g', s₃))
    (hg : g ≠ g') :
    ¬ Isolated ask s₀ b := by
  intro hi
  have r : Run (Step ask) s₀ [(b, (a, g))] s₁ := .step .start (.ask b h)
  have r' : Run (Step ask) s₀ ([(b', (a', g₁))] ++ [(b, (a, g'))]) s₃ :=
    .step (.step .start (.ask b' h')) (.ask b h₂)
  have hlog : logOf b ([(b', (a', g₁))] ++ [(b, (a, g'))]) = logOf b [(b, (a, g'))] := logOf_cons_other hb ..
  have := hi r r' (by rw [hlog, logOf_cons_self, logOf_cons_self]; rfl)
  rw [hlog, logOf_cons_self, logOf_cons_self] at this
  exact hg (Prod.mk.inj (List.cons.inj this).1).2

end Shared
