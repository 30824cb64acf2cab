import CompArch.Effects
/-!
# What programs read and write

The state of a handler consists of cells. An operation needs some cells and sets
some. A program keeps within a footprint when it needs only cells that it may read
or has set itself, and sets only cells that it may write. Programs whose footprints
do not meet can be swapped.
-/

namespace Effects

variable {Op : Type} {Ans : Op → Type} {α β : Type} {ε σ L : Type}

/-- Which cells an operation needs and which it sets. -/
structure Access (Op L : Type) where
  needs : Op → L → Prop
  sets : Op → L → Prop

/-- When two states hold the same in a cell. -/
structure Cells (σ L : Type) where
  Same : L → σ → σ → Prop
  refl (l : L) (s : σ) : Same l s s
  symm {l : L} {s t : σ} : Same l s t → Same l t s
  trans {l : L} {s t v : σ} : Same l s t → Same l t v → Same l s v

/-- A handler changes only the cells an operation sets, and does what the needed ones say. -/
structure Local (u : Access Op L) (c : Cells σ L) (h : Handler Op Ans ε σ) : Prop where
  frame {o : Op} {s s' : σ} {a : Ans o} {l : L} : h o s = .ok (a, s') → ¬ u.sets o l → c.Same l s s'
  same {o : Op} {s s' t : σ} {a : Ans o} : (∀ l, u.needs o l → c.Same l s t) → h o s = .ok (a, s') →
    ∃ t', h o t = .ok (a, t') ∧ ∀ l, u.sets o l → c.Same l s' t'

/-- The program reads cells of `R` or that it has set (`D` at the start), and writes cells of `W`. -/
def Prog.Within (u : Access Op L) (R W : L → Prop) : (D : L → Prop) → Prog Op Ans α → Prop
  | _, .ret _ => True
  | D, .op o k => (∀ l, u.needs o l → R l ∨ D l) ∧ (∀ l, u.sets o l → W l) ∧
    ∀ a, (k a).Within u R W fun l => D l ∨ u.sets o l

namespace Prog

variable {u : Access Op L} {c : Cells σ L} {R R' W D D' : L → Prop}

theorem Within.mono {p : Prog Op Ans α} (hD : ∀ l, R l ∨ D l → R' l ∨ D' l) (hp : p.Within u R W D) :
    p.Within u R' W D' := by
  induction p generalizing D D' with
  | ret a => trivial
  | op o k ih =>
    obtain ⟨hn, hs, hk⟩ := hp
    refine ⟨fun l hl => hD l (hn l hl), hs, fun a => ih a (fun l hl => ?_) (hk a)⟩
    rcases hl with hR | hd | hset
    · exact (hD l (.inl hR)).imp_right .inl
    · exact (hD l (.inr hd)).imp_right .inl
    · exact .inr (.inr hset)

theorem Within.perform {o : Op} (hn : ∀ l, u.needs o l → R l ∨ D l) (hs : ∀ l, u.sets o l → W l) :
    (Prog.perform o : Prog Op Ans (Ans o)).Within u R W D := ⟨hn, hs, fun _ => trivial⟩

theorem Within.bind {p : Prog Op Ans α} {f : α → Prog Op Ans β} (hp : p.Within u R W D)
    (hf : ∀ a, (f a).Within u R W D) : (p >>= f).Within u R W D := by
  induction p generalizing D with
  | ret a => exact hf a
  | op o k ih =>
    obtain ⟨hn, hs, hk⟩ := hp
    exact ⟨hn, hs, fun a => ih a (hk a) fun b => (hf b).mono fun l => Or.imp_right .inl⟩

variable {h : Handler Op Ans ε σ}

/-- What is not written stays. -/
theorem Within.frame (hl : Local u c h) {p : Prog Op Ans α} (hp : p.Within u R W D) {s s' : σ} {a : α}
    (hr : p.run h s = .ok (a, s')) {l : L} (hW : ¬ W l) : c.Same l s s' := by
  induction p generalizing s D with
  | ret b =>
    obtain ⟨-, rfl⟩ := Prod.mk.inj (Except.ok.inj hr)
    exact c.refl l s
  | op o k ih =>
    obtain ⟨-, hs, hk⟩ := hp
    rw [run_op] at hr
    cases ho : h o s with
    | error e =>
      rw [ho] at hr
      cases hr
    | ok r =>
      rw [ho] at hr
      exact c.trans (hl.frame ho fun hset => hW (hs l hset)) (ih r.1 (hk r.1) hr)

/-- From states that agree on what is read, a program answers the same, and changes each cell in the same way or
not at all. -/
theorem Within.same (hl : Local u c h) {p : Prog Op Ans α} (hp : p.Within u R W D) {s s' t : σ} {a : α}
    (hst : ∀ l, R l ∨ D l → c.Same l s t) (hr : p.run h s = .ok (a, s')) :
    ∃ t', p.run h t = .ok (a, t') ∧ ∀ l, c.Same l s' t' ∨ c.Same l s s' ∧ c.Same l t t' := by
  induction p generalizing s t D with
  | ret b =>
    obtain ⟨rfl, rfl⟩ := Prod.mk.inj (Except.ok.inj hr)
    exact ⟨t, rfl, fun l => .inr ⟨c.refl l _, c.refl l t⟩⟩
  | op o k ih =>
    obtain ⟨hn, hs, hk⟩ := hp
    rw [run_op] at hr
    cases ho : h o s with
    | error e =>
      rw [ho] at hr
      cases hr
    | ok r =>
      rw [ho] at hr
      obtain ⟨t₁, ht₁, hset⟩ := hl.same (fun l hl => hst l (hn l hl)) ho
      have hst₁ (l : L) (hRD : R l ∨ D l ∨ u.sets o l) : c.Same l r.2 t₁ := by
        by_cases hc : u.sets o l
        · exact hset l hc
        · have hold : R l ∨ D l := hRD.imp_right fun hd => hd.resolve_right hc
          exact c.trans (c.symm (hl.frame ho hc)) (c.trans (hst l hold) (hl.frame ht₁ hc))
      obtain ⟨t₂, ht₂, hsame⟩ := ih r.1 (hk r.1) hst₁ hr
      refine ⟨t₂, ?_, fun l => ?_⟩
      · rw [run_op, ht₁]
        exact ht₂
      · rcases hsame l with heq | ⟨hs₁, ht₁'⟩
        · exact .inl heq
        · by_cases hc : u.sets o l
          · exact .inl (c.trans (c.symm hs₁) (c.trans (hset l hc) ht₁'))
          · exact .inr ⟨c.trans (hl.frame ho hc) hs₁, c.trans (hl.frame ht₁ hc) ht₁'⟩

/-- Programs of which neither writes what the other reads can be swapped. What both may write are cells of `Z`,
which nobody reads. -/
theorem Within.swap (hl : Local u c h) {p : Prog Op Ans α} {q : Prog Op Ans β} {R' W' Z : L → Prop}
    (hp : p.Within u R W fun _ => False) (hq : q.Within u R' W' fun _ => False)
    (hW : ∀ l, W l → ¬ R' l ∧ (W' l → Z l)) (hW' : ∀ l, W' l → ¬ R l) {s s₁ s₂ : σ} {a : α} {b : β}
    (hs₁ : p.run h s = .ok (a, s₁)) (hs₂ : q.run h s₁ = .ok (b, s₂)) :
    ∃ t₁ t₂, q.run h s = .ok (b, t₁) ∧ p.run h t₁ = .ok (a, t₂) ∧ ∀ l, ¬ Z l → c.Same l s₂ t₂ := by
  obtain ⟨t₁, ht₁, hq₁⟩ :=
    hq.same hl (fun l hR => c.symm (hp.frame hl hs₁ fun hw => (hW l hw).1 (hR.resolve_right id))) hs₂
  obtain ⟨t₂, ht₂, hp₂⟩ := hp.same hl (fun l hR => hq.frame hl ht₁ fun hw => hW' l hw (hR.resolve_right id)) hs₁
  refine ⟨t₁, t₂, ht₁, ht₂, fun l hz => ?_⟩
  by_cases hw : W' l
  · have hnw : ¬ W l := fun hwl => hz ((hW l hwl).2 hw)
    have hpt := hp.frame hl ht₂ hnw
    rcases hq₁ l with heq | ⟨hsame, hst₁⟩
    · exact c.trans heq hpt
    · exact c.trans (c.symm hsame) (c.trans (c.symm (hp.frame hl hs₁ hnw)) (c.trans hst₁ hpt))
  · have hqs := hq.frame hl hs₂ hw
    rcases hp₂ l with heq | ⟨hsame, ht₁t₂⟩
    · exact c.trans (c.symm hqs) heq
    · exact c.trans (c.symm hqs) (c.trans (c.symm hsame) (c.trans (hq.frame hl ht₁ hw) ht₁t₂))

end Prog

/-! ## Sequences of programs -/

section Sequences
variable {ι : Type} {u : Access Op L} {c : Cells σ L} {h : Handler Op Ans ε σ} {code : ι → Prog Op Ans α} {a₀ : α}

/-- The programs of a list run one after the other, and all return `a₀`. -/
inductive Runs (h : Handler Op Ans ε σ) (code : ι → Prog Op Ans α) (a₀ : α) : List ι → σ → σ → Prop
  | nil (s : σ) : Runs h code a₀ [] s s
  | cons {i : ι} {l : List ι} {s s' s'' : σ} : (code i).run h s = .ok (a₀, s') → Runs h code a₀ l s' s'' →
      Runs h code a₀ (i :: l) s s''

theorem Runs.append {l l' : List ι} {s s' s'' : σ} (h₁ : Runs h code a₀ l s s') (h₂ : Runs h code a₀ l' s' s'') :
    Runs h code a₀ (l ++ l') s s'' := by
  induction h₁ with
  | nil s => exact h₂
  | cons hi _ ih => exact .cons hi (ih h₂)

theorem Runs.split {l l' : List ι} {s s'' : σ} (hr : Runs h code a₀ (l ++ l') s s'') :
    ∃ s', Runs h code a₀ l s s' ∧ Runs h code a₀ l' s' s'' := by
  induction l generalizing s with
  | nil => exact ⟨s, .nil s, hr⟩
  | cons i l ih =>
    cases hr with
    | cons hi hr =>
      obtain ⟨s', h₁, h₂⟩ := ih hr
      exact ⟨s', .cons hi h₁, h₂⟩

/-- Another order of a list, where only independent elements overtake each other. -/
inductive Reorders (Indep : ι → ι → Prop) : List ι → List ι → Prop
  | nil : Reorders Indep [] []
  | cons {i : ι} {l : List ι} (pre post : List ι) : Reorders Indep l (pre ++ post) → (∀ j ∈ pre, Indep i j) →
      Reorders Indep (i :: l) (pre ++ i :: post)

theorem Reorders.perm {Indep : ι → ι → Prop} {l l' : List ι} (hr : Reorders Indep l l') : l.Perm l' := by
  induction hr with
  | nil => exact .nil
  | cons _ _ _ _ ih => exact (ih.cons _).trans List.perm_middle.symm

variable {R W : ι → L → Prop} {Z : L → Prop}

/-- From states that agree but for `Z` a list runs to states that do. -/
theorem Runs.congr (hl : Local u c h) {l : List ι} (hcode : ∀ i ∈ l, (code i).Within u (R i) (W i) fun _ => False)
    (hZ : ∀ i ∈ l, ∀ x, R i x → ¬ Z x) {s s' t : σ} (hst : ∀ x, ¬ Z x → c.Same x s t) (hr : Runs h code a₀ l s s') :
    ∃ t', Runs h code a₀ l t t' ∧ ∀ x, ¬ Z x → c.Same x s' t' := by
  induction hr generalizing t with
  | nil s => exact ⟨t, .nil t, hst⟩
  | @cons i l s s₁ s₂ hi _ ih =>
    obtain ⟨t₁, ht₁, hsame⟩ := (hcode i List.mem_cons_self).same hl
      (fun x hx => hst x (hZ i List.mem_cons_self x (hx.resolve_right id))) hi
    have hst₁ (x : L) (hx : ¬ Z x) : c.Same x s₁ t₁ := by
      rcases hsame x with heq | ⟨hs, ht⟩
      · exact heq
      · exact c.trans (c.symm hs) (c.trans (hst x hx) ht)
    obtain ⟨t₂, ht₂, hfin⟩ := ih (fun j hj => hcode j (List.mem_cons_of_mem _ hj))
      (fun j hj => hZ j (List.mem_cons_of_mem _ hj)) hst₁
    exact ⟨t₂, .cons ht₁ ht₂, hfin⟩

/-- A program can run behind all programs it is independent of. -/
theorem Runs.overtake (hl : Local u c h) {i : ι} {pre : List ι}
    (hcode : ∀ j ∈ i :: pre, (code j).Within u (R j) (W j) fun _ => False) (hZ : ∀ j ∈ i :: pre, ∀ x, R j x → ¬ Z x)
    (hind : ∀ j ∈ pre, (∀ x, W i x → ¬ R j x ∧ (W j x → Z x)) ∧ ∀ x, W j x → ¬ R i x) {s s' : σ}
    (hr : Runs h code a₀ (i :: pre) s s') :
    ∃ t', Runs h code a₀ (pre ++ [i]) s t' ∧ ∀ x, ¬ Z x → c.Same x s' t' := by
  induction pre generalizing s s' with
  | nil => exact ⟨s', hr, fun x _ => c.refl x s'⟩
  | cons j pre ih =>
    have hi := hcode i List.mem_cons_self
    have hj := hcode j (List.mem_cons_of_mem _ List.mem_cons_self)
    have hsub {P : ι → Prop} (hall : ∀ k ∈ i :: j :: pre, P k) : ∀ k ∈ i :: pre, P k := by
      intro k hk
      rcases List.mem_cons.1 hk with rfl | hk
      · exact hall k List.mem_cons_self
      · exact hall k (List.mem_cons_of_mem _ (List.mem_cons_of_mem _ hk))
    cases hr with
    | cons h₁ hr =>
      cases hr with
      | cons h₂ hr =>
        obtain ⟨hij, hji⟩ := hind j List.mem_cons_self
        obtain ⟨t₁, t₂, ht₁, ht₂, hsame⟩ := hi.swap hl hj hij hji h₁ h₂
        obtain ⟨t₃, ht₃, hsame₃⟩ := hr.congr hl (fun k hk => hsub hcode k (List.mem_cons_of_mem _ hk))
          (fun k hk => hsub hZ k (List.mem_cons_of_mem _ hk)) hsame
        obtain ⟨t₄, ht₄, hsame₄⟩ := ih (hsub hcode) (hsub hZ) (fun k hk => hind k (List.mem_cons_of_mem _ hk))
          (.cons ht₂ ht₃)
        exact ⟨t₄, .cons ht₁ ht₄, fun x hx => c.trans (hsame₃ x hx) (hsame₄ x hx)⟩

/-- A reordering leaves what the original order does, but for `Z`. -/
theorem Reorders.runs (hl : Local u c h) {Indep : ι → ι → Prop} {l l' : List ι} (hro : Reorders Indep l l')
    (hcode : ∀ i ∈ l, (code i).Within u (R i) (W i) fun _ => False) (hZ : ∀ i ∈ l, ∀ x, R i x → ¬ Z x)
    (hind : ∀ i j, Indep i j → (∀ x, W i x → ¬ R j x ∧ (W j x → Z x)) ∧ ∀ x, W j x → ¬ R i x) {s s' : σ}
    (hr : Runs h code a₀ l s s') : ∃ t', Runs h code a₀ l' s t' ∧ ∀ x, ¬ Z x → c.Same x s' t' := by
  induction hro generalizing s s' with
  | nil => exact ⟨s', hr, fun x _ => c.refl x s'⟩
  | @cons i l pre post hro hpre ih =>
    have hmem {j : ι} (hj : j ∈ pre ++ post) : j ∈ i :: l := List.mem_cons_of_mem _ (hro.perm.mem_iff.2 hj)
    have hsub {j : ι} (hj : j ∈ i :: pre) : j ∈ i :: l := by
      rcases List.mem_cons.1 hj with rfl | hj
      · exact List.mem_cons_self
      · exact hmem (List.mem_append_left _ hj)
    cases hr with
    | cons hi hr =>
      obtain ⟨t₁, ht₁, hsame₁⟩ := ih (fun j hj => hcode j (List.mem_cons_of_mem _ hj))
        (fun j hj => hZ j (List.mem_cons_of_mem _ hj)) hr
      obtain ⟨v, hpre₁, hpost⟩ := ht₁.split
      obtain ⟨v', hover, hsame₂⟩ := Runs.overtake hl (fun j hj => hcode j (hsub hj)) (fun j hj => hZ j (hsub hj))
        (fun j hj => hind i j (hpre j hj)) (.cons hi hpre₁)
      obtain ⟨t', hpost', hsame₃⟩ := hpost.congr hl (fun j hj => hcode j (hmem (List.mem_append_right _ hj)))
        (fun j hj => hZ j (hmem (List.mem_append_right _ hj))) hsame₂
      refine ⟨t', ?_, fun x hx => c.trans (hsame₁ x hx) (hsame₃ x hx)⟩
      rw [List.append_cons]
      exact hover.append hpost'

end Sequences

end Effects
