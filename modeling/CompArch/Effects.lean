import CompArch.Outcome
/-!
# Programs over named operations

A program performs operations and goes on with the answer to each. A handler says
what an operation answers and does to a state, so one program has a meaning for
every kind of state. What two handlers agree on for each operation they agree on
for every program.
-/

namespace Effects

open Outcome

variable {Op : Type} {Ans : Op → Type} {α β γ : Type} {ε σ τ : Type}

/-- A program that returns a value, or performs an operation and goes on with its answer. -/
inductive Prog (Op : Type) (Ans : Op → Type) (α : Type) : Type
  | ret (a : α)
  | op (o : Op) (k : Ans o → Prog Op Ans α)

namespace Prog

def bind : Prog Op Ans α → (α → Prog Op Ans β) → Prog Op Ans β
  | .ret a, f => f a
  | .op o k, f => .op o fun a => (k a).bind f

instance : Monad (Prog Op Ans) where
  pure := .ret
  bind := bind

/-- One operation. -/
def perform (o : Op) : Prog Op Ans (Ans o) := .op o .ret

@[simp] theorem pure_eq (a : α) : (pure a : Prog Op Ans α) = .ret a := rfl

@[simp] theorem ret_bind (a : α) (f : α → Prog Op Ans β) : (Prog.ret a >>= f) = f a := rfl

@[simp] theorem op_bind (o : Op) (k : Ans o → Prog Op Ans α) (f : α → Prog Op Ans β) :
    (Prog.op o k >>= f) = .op o fun a => k a >>= f := rfl

@[simp] theorem perform_bind (o : Op) (f : Ans o → Prog Op Ans β) : (perform o >>= f) = .op o f := rfl

end Prog

/-- What an operation answers and leaves, or the error it ends with. -/
abbrev Handler (Op : Type) (Ans : Op → Type) (ε σ : Type) := (o : Op) → σ → Except ε (Ans o × σ)

/-- What a program returns and leaves. -/
def Prog.run (h : Handler Op Ans ε σ) : Prog Op Ans α → σ → Except ε (α × σ)
  | .ret a, s => .ok (a, s)
  | .op o k, s => h o s >>= fun r => (k r.1).run h r.2

section Run
variable (h : Handler Op Ans ε σ)

@[simp] theorem run_ret (a : α) (s : σ) : (Prog.ret a : Prog Op Ans α).run h s = .ok (a, s) := rfl

theorem run_op (o : Op) (k : Ans o → Prog Op Ans α) (s : σ) :
    (Prog.op o k).run h s = h o s >>= fun r => (k r.1).run h r.2 := rfl

@[simp] theorem run_perform (o : Op) (s : σ) : (Prog.perform o).run h s = h o s := by
  rw [Prog.perform, run_op]
  cases h o s <;> rfl

theorem run_bind (p : Prog Op Ans α) (f : α → Prog Op Ans β) (s : σ) :
    (p >>= f).run h s = p.run h s >>= fun r => (f r.1).run h r.2 := by
  induction p generalizing s with
  | ret a => rfl
  | op o k ih =>
    rw [Prog.op_bind, run_op, run_op]
    cases h o s with
    | error e => rfl
    | ok r => exact ih r.1 r.2

/-- A program that goes on after an operation or a program that succeeds. -/
theorem run_bind_ok {p : Prog Op Ans α} {s s' : σ} {a : α} (hp : p.run h s = .ok (a, s')) (f : α → Prog Op Ans β) :
    (p >>= f).run h s = (f a).run h s' := by
  rw [run_bind, hp]
  rfl

end Run

/-! ## Which operations a program performs -/

/-- Every operation is `P`, whatever the answers are. -/
def Prog.Only (P : Op → Prop) : Prog Op Ans α → Prop
  | .ret _ => True
  | .op o k => P o ∧ ∀ a, (k a).Only P

theorem Prog.Only.bind {P : Op → Prop} {p : Prog Op Ans α} {f : α → Prog Op Ans β} (hp : p.Only P)
    (hf : ∀ a, (f a).Only P) : (p >>= f).Only P := by
  induction p with
  | ret a => exact hf a
  | op o k ih => exact ⟨hp.1, fun a => ih a (hp.2 a)⟩

theorem Prog.only_true (p : Prog Op Ans α) : p.Only fun _ => True := by
  induction p with
  | ret a => trivial
  | op o k ih => exact ⟨trivial, ih⟩

/-! ## Two handlers -/

/-- What the first handler does on an operation with `P`, the second does on every related state. -/
def Refines (P : Op → Prop) (h : Handler Op Ans ε σ) {ε' : Type} (h' : Handler Op Ans ε' τ) (R : σ → τ → Prop) :
    Prop :=
  ∀ o s t a s', P o → R s t → h o s = .ok (a, s') → ∃ t', h' o t = .ok (a, t') ∧ R s' t'

variable {ε' : Type} {P : Op → Prop} {h : Handler Op Ans ε σ} {h' : Handler Op Ans ε' τ} {R : σ → τ → Prop}

/-- A program does the same under both. -/
theorem Refines.run (hr : Refines P h h' R) {p : Prog Op Ans α} (hp : p.Only P) {s s' : σ} {t : τ} {a : α}
    (hs : R s t) (hrun : p.run h s = .ok (a, s')) : ∃ t', p.run h' t = .ok (a, t') ∧ R s' t' := by
  induction p generalizing s t with
  | ret b =>
    obtain ⟨rfl, rfl⟩ := Prod.mk.inj (Except.ok.inj hrun)
    exact ⟨t, rfl, hs⟩
  | op o k ih =>
    rw [run_op] at hrun
    cases ho : h o s with
    | error e =>
      rw [ho] at hrun
      cases hrun
    | ok r =>
      rw [ho] at hrun
      obtain ⟨t₁, ht₁, hs₁⟩ := hr o s t r.1 r.2 hp.1 hs ho
      obtain ⟨t₂, ht₂, hs₂⟩ := ih r.1 (hp.2 r.1) hs₁ hrun
      refine ⟨t₂, ?_, hs₂⟩
      rw [run_op, ht₁]
      exact ht₂

/-- A program ends with the errors of its operations only. -/
theorem run_ensures {E : ε → Prop} (hE : ∀ o s, Ensures (h o s) (fun _ => True) E) (p : Prog Op Ans α) (s : σ) :
    Ensures (p.run h s) (fun _ => True) E := by
  induction p generalizing s with
  | ret a => trivial
  | op o k ih => exact (hE o s).bind fun r _ => ih r.1 r.2

/-- What every operation keeps a program keeps. -/
theorem run_keeps {I : σ → Prop} (hI : ∀ o s a s', P o → I s → h o s = .ok (a, s') → I s') {p : Prog Op Ans α}
    (hp : p.Only P) {s s' : σ} {a : α} (hs : I s) (hrun : p.run h s = .ok (a, s')) : I s' := by
  have hr : Refines P h h fun s t => s = t ∧ I s := by
    rintro o s _ a s' ho ⟨rfl, hi⟩ hos
    exact ⟨s', hos, rfl, hI o s a s' ho hi hos⟩
  obtain ⟨-, -, -, hi⟩ := hr.run hp ⟨rfl, hs⟩ hrun
  exact hi

/-- What the first handler answers on an operation, and the errors that `e` is about, the second answers on every
related state. -/
def Mirrors (e : ε → Option ε') (h : Handler Op Ans ε σ) (h' : Handler Op Ans ε' τ) (R : σ → τ → Prop) : Prop :=
  ∀ o s t, R s t → Follows e (fun r r' => r.1 = r'.1 ∧ R r.2 r'.2) (h o s) (h' o t)

theorem Mirrors.run {e : ε → Option ε'} (hm : Mirrors e h h' R) (p : Prog Op Ans α) {s : σ} {t : τ} (hs : R s t) :
    Follows e (fun r r' => r.1 = r'.1 ∧ R r.2 r'.2) (p.run h s) (p.run h' t) := by
  induction p generalizing s t with
  | ret a => exact follows_ok ⟨rfl, hs⟩
  | op o k ih =>
    refine (hm o s t hs).bind ?_
    rintro ⟨a, s₁⟩ ⟨_, t₁⟩ ⟨rfl, hs₁⟩
    exact ih a hs₁

end Effects
