import CompArch.Bpred.Allocation
import CompArch.Bpred.Vectors
/-!
# Where a new entry goes

The chosen bank is the highest one whose entry has the tag of the branch. A
misprediction writes that tag into banks above it, so the branch finds the new entry
first as long as the history is what it was.
-/

namespace Bpred

namespace OpenEnd

section Choice
variable (s : OpenEnd) (PC : UINT32)

/-- No bank above the chosen one has the tag. -/
theorem tag_ne_of_next_le {i : Fin 4} (h : next (s.GetPrediction_openend PC).2.X ≤ i) :
    (s.entry PC i).tag ≠ get_tag s.global_history PC := by
  have hsorted : [3, 2, 1, 0].Pairwise fun i j : Fin 4 => j < i := by decide
  have hall : ∀ i : Fin 4, i ∈ [3, 2, 1, 0] := by decide
  specialize hall i
  unfold GetPrediction_openend at h
  split at h
  case h_1 j hj =>
    obtain ⟨-, before, after, hsplit, hbefore⟩ := List.find?_eq_some_iff_append.1 hj
    rw [hsplit] at hall hsorted
    -- the banks after the chosen one are lower
    have hafter : i ∉ j :: after := by
      rintro (_ | ⟨_, hi⟩)
      · exact absurd h (by simp [next])
      · have hlt := List.rel_of_pairwise_cons (List.pairwise_append.1 hsorted).2.1 hi
        exact absurd h (by simp only [next]; omega)
    simpa using hbefore i ((List.mem_append.1 hall).resolve_right hafter)
  case h_2 hnone => simpa using List.find?_eq_none.1 hnone i hall

/-- An entry with the tag puts the choice at its bank or above. -/
theorem exists_chosen_of_tag {Y : Fin 4} (h : (s.entry PC Y).tag = get_tag s.global_history PC) :
    ∃ X, (s.GetPrediction_openend PC).2.X = some X ∧ Y ≤ X := by
  have hlt : ¬ next (s.GetPrediction_openend PC).2.X ≤ Y := fun hle => tag_ne_of_next_le s PC hle h
  cases hX : (s.GetPrediction_openend PC).2.X with
  | none => exact absurd (Nat.zero_le _) (hX ▸ hlt)
  | some X =>
    rw [hX, next] at hlt
    exact ⟨X, rfl, by omega⟩

end Choice

theorem of_mem_allocated {s : OpenEnd} {PC : UINT32} {resolveDir predDir : Bool} {rand : Nat} {Y : Fin 4}
    (h : Y ∈ s.allocated PC resolveDir predDir rand) : resolveDir ≠ predDir ∧ next s.X ≤ 3 ∧ next s.X ≤ Y := by
  have habove := mem_above_of_allocated h
  unfold allocated at h
  split at h
  case isTrue hc => exact ⟨hc.1, hc.2, of_decide_eq_true (List.mem_filter.1 habove).2⟩
  case isFalse => cases h

/-- A misprediction below bank 3 allocates. -/
theorem exists_allocated (s : OpenEnd) (PC : UINT32) {resolveDir predDir : Bool} (rand : Nat)
    (hmis : resolveDir ≠ predDir) (hX : next s.X ≤ 3) : ∃ Y, Y ∈ s.allocated PC resolveDir predDir rand := by
  refine List.exists_mem_of_ne_nil _ fun hnil => ?_
  rw [(allocated_eq_nil_iff s PC rand hmis).1 hnil] at hX
  exact absurd hX (by decide)

/-- After any run: tags change only after a misprediction below bank 3, in banks above the
chosen one at the index of the branch, where they become its tag, and one does. Every
access is in range, the provider keeps its tag, and the branch would now be predicted by a
higher bank. -/
theorem allocation_policy (past : List (CBP_TRACE_RECORD × Nat)) (r : CBP_TRACE_RECORD) (rand : Nat) :
    let s := (run past).1
    let (predDir, s₁) := s.GetPrediction_openend r.PC
    let s' := s₁.UpdatePredictor_openend r.PC r.branchTaken predDir r.branchTarget rand
    let tag := get_tag s.global_history r.PC
    Vectors.run (past ++ [(r, rand)]) = some s'.vectors ∧
    (∀ i k, (s'.banks i k).tag ≠ (s.banks i k).tag →
      (r.branchTaken ≠ predDir ∧ next s₁.X ≤ 3) ∧ next s₁.X ≤ i ∧ k = index s.global_history r.PC i ∧
        (s'.banks i k).tag = tag) ∧
    (∀ i, s₁.X = some i →
      (s'.banks i (index s.global_history r.PC i)).tag = (s.banks i (index s.global_history r.PC i)).tag) ∧
    (r.branchTaken ≠ predDir → next s₁.X ≤ 3 →
      (∃ Y : Fin 4, next s₁.X ≤ Y ∧ (s.banks Y (index s.global_history r.PC Y)).tag ≠ tag ∧
        (s'.banks Y (index s.global_history r.PC Y)).tag = tag) ∧
      ∃ X : Fin 4, ({ s' with global_history := s.global_history }.GetPrediction_openend r.PC).2.X = some X ∧
        next s₁.X ≤ X) := by
  intro s
  have hrun : Vectors.run (past ++ [(r, rand)]) = some ((s.GetPrediction_openend r.PC).2.UpdatePredictor_openend
      r.PC r.branchTaken (s.GetPrediction_openend r.PC).1 r.branchTarget rand).vectors := by
    rw [vectors_run, run_concat]
    rfl
  have hgh := GetPrediction_global_history s r.PC
  have hbanks := GetPrediction_banks s r.PC
  have hbelow (i : Fin 4) := tag_ne_of_next_le s r.PC (i := i)
  clear_value s
  generalize s.GetPrediction_openend r.PC = p at *
  obtain ⟨predDir, s₁⟩ := p
  dsimp only at *
  have htag := update_tag s₁ r.PC r.branchTaken predDir r.branchTarget rand
  rw [hgh, hbanks] at htag
  set s' := s₁.UpdatePredictor_openend r.PC r.branchTaken predDir r.branchTarget rand
  refine ⟨hrun, fun i k hne => ?_, fun i hi => ?_, fun hmis hX => ?_⟩
  · rw [htag] at hne ⊢
    by_cases ha : i ∈ s₁.allocated r.PC r.branchTaken predDir rand ∧ k = index s.global_history r.PC i
    · obtain ⟨hmis, hlast, habove⟩ := of_mem_allocated ha.1
      exact ⟨⟨hmis, hlast⟩, habove, ha.2, if_pos ha⟩
    · exact absurd (if_neg ha) hne
  · rw [htag, if_neg fun ha => not_chosen_of_allocated ha.1 hi]
  · obtain ⟨Y, hY⟩ := exists_allocated s₁ r.PC rand hmis hX
    have habove := (of_mem_allocated hY).2.2
    have hnew : (s'.banks Y (index s.global_history r.PC Y)).tag =
        get_tag s.global_history r.PC := by rw [htag, if_pos ⟨hY, rfl⟩]
    refine ⟨⟨Y, habove, hbelow Y habove, hnew⟩, ?_⟩
    obtain ⟨X, hchosen, hle⟩ :=
      exists_chosen_of_tag { s' with global_history := s.global_history } r.PC (Y := Y) hnew
    exact ⟨X, hchosen, by omega⟩

end OpenEnd

end Bpred
