import CompArch.Bpred.Entries
/-!
# How a new entry starts

A misprediction fills entries above the chosen bank. Their counters are weak, and
meant to lean towards the outcome when `m` says that the banks do better than the
base, else to where the base leans. The code asks whether the base counter is zero,
where a prediction asks whether it is at least 4.
-/

namespace Bpred

namespace OpenEnd

/-- The side a new entry is told: the outcome when `m` is set, else what the base table,
just trained, predicts. -/
def toldSide (s : OpenEnd) (PC : UINT32) (resolveDir : Bool) : Bool :=
  if (s.baseEntry PC).m then resolveDir else decide (4 ≤ ((s.train PC resolveDir).baseEntry PC).ctr)

/-- A weak counter, 3 or 4, that predicts `side`. -/
def StartsOn (side : Bool) (ctr : Nat) : Prop := (ctr = 3 ∨ ctr = 4) ∧ (4 ≤ ctr ↔ side = true)

instance (side : Bool) (ctr : Nat) : Decidable (StartsOn side ctr) := inferInstanceAs (Decidable (_ ∧ _))

theorem update_ctr_of_allocated {s : OpenEnd} {PC : UINT32} {resolveDir predDir : Bool} {rand : Nat} {Y : Fin 4}
    (h : Y ∈ s.allocated PC resolveDir predDir rand) (branchTarget : UINT32) :
    ((s.UpdatePredictor_openend PC resolveDir predDir branchTarget rand).banks Y
      (index s.global_history PC Y)).ctr =
        (s.train PC resolveDir).newCounter PC (s.baseEntry PC).m resolveDir := by
  rw [update_banks, if_neg fun hX => not_chosen_of_allocated h hX.1, if_pos ⟨h, rfl⟩]

/-- A misprediction allocates unless the last bank was chosen. -/
theorem allocated_eq_nil_iff (s : OpenEnd) (PC : UINT32) {resolveDir predDir : Bool} (rand : Nat)
    (hmis : resolveDir ≠ predDir) : s.allocated PC resolveDir predDir rand = [] ↔ s.X = some 3 := by
  have hlast : next s.X ≤ 3 ↔ s.X ≠ some 3 := by
    cases s.X with
    | none => simp [next]
    | some i =>
      rw [next, Ne, Option.some.injEq, Fin.ext_iff]
      exact ⟨fun h he => absurd (he ▸ h) (by decide), fun h => by have := i.isLt; change ¬ i.val = 3 at h; omega⟩
  unfold allocated
  by_cases hX : s.X = some 3
  · rw [dif_neg fun h => hlast.1 h.2 hX]
    exact iff_of_true rfl hX
  · rw [dif_pos ⟨hmis, hlast.2 hX⟩]
    refine iff_of_false ?_ hX
    dsimp only
    split
    · exact List.cons_ne_nil _ _
    · assumption

/-- The new entries of a misprediction all start at one counter. -/
theorem forall_allocated_iff (s : OpenEnd) (PC : UINT32) {resolveDir predDir : Bool} (branchTarget : UINT32)
    (rand : Nat) (hmis : resolveDir ≠ predDir) {P : Nat → Prop} :
    (∀ Y ∈ s.allocated PC resolveDir predDir rand,
      P ((s.UpdatePredictor_openend PC resolveDir predDir branchTarget rand).banks Y
        (index s.global_history PC Y)).ctr) ↔
    s.X = some 3 ∨ P ((s.train PC resolveDir).newCounter PC (s.baseEntry PC).m resolveDir) := by
  rw [← allocated_eq_nil_iff s PC rand hmis]
  constructor
  · intro h
    by_cases hnil : s.allocated PC resolveDir predDir rand = []
    · exact .inl hnil
    · obtain ⟨Y, hY⟩ := List.exists_mem_of_ne_nil _ hnil
      exact .inr (update_ctr_of_allocated hY branchTarget ▸ h Y hY)
  · rintro (hnil | h) Y hY
    · rw [hnil] at hY
      cases hY
    · exact update_ctr_of_allocated hY branchTarget ▸ h

/-- Where the base table was chosen, what it predicted. -/
theorem prediction_of_base (s : OpenEnd) (PC : UINT32) (h : (s.GetPrediction_openend PC).2.X = none) :
    (s.GetPrediction_openend PC).1 = decide (4 ≤ (s.baseEntry PC).ctr) := by
  unfold GetPrediction_openend at h ⊢
  split
  case h_1 hi => simp [hi] at h
  case h_2 => rfl

theorem train_baseEntry_ctr (s : OpenEnd) (PC : UINT32) (d : Bool) :
    ((s.train PC d).baseEntry PC).ctr =
      if s.X = none then count d (s.baseEntry PC).ctr else (s.baseEntry PC).ctr := by
  rw [baseEntry, train_global_history]
  unfold train
  split
  case h_1 hX => rw [setBase_base, if_pos rfl, if_pos hX]
  case h_2 hX => simp [hX, baseEntry]

/-- A base counter that was wrong has just moved, and is not zero. -/
theorem count_of_wrong {d : Bool} {c : Nat} (h : d ≠ decide (4 ≤ c)) :
    count d c = 0 ∨ 4 ≤ count d c ↔ c = 3 ∨ 5 ≤ c := by
  unfold count SatIncrement SatDecrement MAX_COUNTER_CUSTOM
  cases d
  case false =>
    have hc : 4 ≤ c := by simpa using h
    rw [if_neg Bool.false_ne_true, if_pos (by omega)]
    omega
  case true =>
    have hc : c < 4 := by simpa using h
    rw [if_pos rfl, if_pos (by omega)]
    omega

/-- The counter of a new entry is on the told side when the base counter that is read is
zero or predicts taken. -/
theorem startsOn_newCounter (s : OpenEnd) (PC : UINT32) (d : Bool) :
    StartsOn (s.toldSide PC d) ((s.train PC d).newCounter PC (s.baseEntry PC).m d) ↔
      (s.baseEntry PC).m = true ∨ ((s.train PC d).baseEntry PC).ctr = 0 ∨
        4 ≤ ((s.train PC d).baseEntry PC).ctr := by
  unfold StartsOn toldSide newCounter
  cases (s.baseEntry PC).m
  case true => cases d <;> simp
  case false =>
    simp only [Bool.false_eq_true, if_false, false_or, decide_eq_true_eq]
    split <;> omega

/-- The new entries of a misprediction start as told exactly when there are none, or `m`
is set, or the base counter, as trained, is zero or at least 4. -/
theorem starts_as_told_iff (s : OpenEnd) (PC : UINT32) (resolveDir : Bool) (branchTarget : UINT32) (rand : Nat)
    (hmis : resolveDir ≠ (s.GetPrediction_openend PC).1) :
    let (predDir, s') := s.GetPrediction_openend PC
    let ctr := (s.baseEntry PC).ctr
    (∀ Y ∈ s'.allocated PC resolveDir predDir rand,
      StartsOn (s'.toldSide PC resolveDir)
        ((s'.UpdatePredictor_openend PC resolveDir predDir branchTarget rand).banks Y
          (index s.global_history PC Y)).ctr) ↔
    s'.X = some 3 ∨ (s.baseEntry PC).m = true ∨ (s'.X = none ∧ (ctr = 3 ∨ 5 ≤ ctr)) ∨
      (s'.X ≠ none ∧ (ctr = 0 ∨ 4 ≤ ctr)) := by
  have hgh := GetPrediction_global_history s PC
  have hpred := prediction_of_base s PC
  have hbase : (s.GetPrediction_openend PC).2.baseEntry PC = s.baseEntry PC := by
    rw [baseEntry, GetPrediction_base, hgh, baseEntry]
  generalize s.GetPrediction_openend PC = p at *
  obtain ⟨predDir, s'⟩ := p
  dsimp only at *
  have hread := startsOn_newCounter s' PC resolveDir
  rw [train_baseEntry_ctr, hbase] at hread
  rw [← hgh, forall_allocated_iff s' PC branchTarget rand hmis, hbase, hread]
  by_cases hX : s'.X = none
  · rw [if_pos hX, count_of_wrong (hpred hX ▸ hmis), hX]
    simp
  · rw [if_neg hX]
    simp [hX]

/-- The first branch is mispredicted: the base counter goes to 1, and the new entries
start at 4. -/
theorem not_starts_as_told :
    ¬ ∀ (past : List (CBP_TRACE_RECORD × Nat)) (PC : UINT32) (resolveDir : Bool) (branchTarget : UINT32)
      (rand : Nat),
      let (predDir, s) := (run past).1.GetPrediction_openend PC
      resolveDir ≠ predDir → ∀ Y ∈ s.allocated PC resolveDir predDir rand,
        StartsOn (s.toldSide PC resolveDir)
          ((s.UpdatePredictor_openend PC resolveDir predDir branchTarget rand).banks Y
            (index s.global_history PC Y)).ctr := by
  intro h
  exact absurd (h [] 0x400148 true 0 0 (by decide +kernel) 0 (by decide +kernel)) (by decide +kernel)

/-- The same branch when its base counter has come to 3. -/
theorem starts_as_told_three :
    let s : OpenEnd := { base := fun _ => { ctr := 3 } }
    let (predDir, s') := s.GetPrediction_openend 0x400148
    ∀ Y ∈ s'.allocated 0x400148 true predDir 0,
      StartsOn (s'.toldSide 0x400148 true)
        ((s'.UpdatePredictor_openend 0x400148 true predDir 0 0).banks Y
          (index s.global_history 0x400148 Y)).ctr :=
  (starts_as_told_iff { base := fun _ => { ctr := 3 } } 0x400148 true 0 0 (by decide +kernel)).2 (by decide +kernel)

end OpenEnd

end Bpred
