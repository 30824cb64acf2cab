import CompArch.Bpred.Entries
/-!
# What the tag and the indices read of the history

`get_tag` and `get_index` are linear in exclusive or, so an outcome counts when it
counts on its own. The last slice of the tag is shifted by 32 where the others are
shifted by their own position, and is always empty.
-/

namespace Bpred

/-- The history with its outcome `j` flipped, 0 the most recent. -/
def flip (global_history : BitVec 64) (j : Nat) : BitVec 64 := global_history ^^^ (1#64 <<< j)

/-! ## Where an outcome is -/

namespace OpenEnd

@[simp] theorem mark_global_history (s : OpenEnd) (PC : UINT32) (c : Bool) :
    (s.mark PC c).global_history = s.global_history := by
  unfold mark
  split <;> rfl

theorem update_global_history (s : OpenEnd) (PC : UINT32) (resolveDir predDir : Bool) (branchTarget : UINT32)
    (rand : Nat) :
    (s.UpdatePredictor_openend PC resolveDir predDir branchTarget rand).global_history =
      s.global_history <<< 1 ||| if resolveDir then 1 else 0 := by
  unfold UpdatePredictor_openend
  dsimp only
  rw [allocate_eq_fill, mark_global_history, fill_global_history, train_global_history]

theorem getLsbD_shiftIn (global_history : BitVec 64) (resolveDir : Bool) (j : Nat) :
    (global_history <<< 1 ||| if resolveDir then 1 else 0).getLsbD j =
      if j = 0 then resolveDir else decide (j < 64) && global_history.getLsbD (j - 1) := by
  have hbit : (if resolveDir then 1 else 0 : BitVec 64).getLsbD j = (decide (j = 0) && resolveDir) := by
    cases resolveDir
    · simp
    · simp
  rw [BitVec.getLsbD_or, BitVec.getLsbD_shiftLeft, hbit]
  cases j with
  | zero => simp
  | succ j => simp

/-- Bit `j` of the history is the outcome of the branch with `j` branches after it, 0 before
the first. -/
theorem getLsbD_run (past : List (CBP_TRACE_RECORD × Nat)) {j : Nat} (hj : j < 64) :
    (run past).1.global_history.getLsbD j = past.reverse[j]?.elim false fun b => b.1.branchTaken := by
  induction past using List.reverseRecOn generalizing j with
  | nil => simp [run]
  | append_singleton past b ih =>
    rw [run_concat]
    simp only [branch, update_global_history, GetPrediction_global_history, getLsbD_shiftIn]
    cases j with
    | zero => simp
    | succ j =>
      rw [if_neg (Nat.succ_ne_zero j), decide_eq_true hj, Bool.true_and, Nat.add_sub_cancel, ih (by omega)]
      simp

end OpenEnd

/-! ## Folds are linear -/

section Linear
variable (global_history d : BitVec 64) (PC : UINT32)

theorem mask_xor (m : BitVec 64) : (global_history ^^^ d) &&& m = (global_history &&& m) ^^^ (d &&& m) := by
  apply BitVec.eq_of_getLsbD_eq
  intro i _
  simp only [BitVec.getLsbD_and, BitVec.getLsbD_xor, Bool.and_xor_distrib_right]

theorem get_tag_xor : get_tag (global_history ^^^ d) PC = get_tag global_history PC ^^^ get_tag d 0#32 := by
  unfold get_tag
  simp only [mask_xor, BitVec.ushiftRight_xor_distrib, BitVec.setWidth_xor, BitVec.zero_and, BitVec.setWidth_zero,
    BitVec.zero_xor]
  ac_rfl

theorem get_index_xor (bank : Fin 4) :
    get_index (global_history ^^^ d) PC (some bank) =
      get_index global_history PC (some bank) ^^^ get_index d 0#32 (some bank) := by
  unfold get_index
  simp only [mask_xor, BitVec.ushiftRight_xor_distrib, BitVec.setWidth_xor, BitVec.zero_and, BitVec.zero_ushiftRight,
    BitVec.setWidth_zero, BitVec.zero_xor]
  split
  · ac_rfl
  · split
    · ac_rfl
    · split
      · ac_rfl
      · ac_rfl

end Linear

/-! ## One outcome -/

theorem xor_ne_iff (x y : UINT32) : x ^^^ y ≠ x ↔ y ≠ 0#32 := by
  rw [Ne, Ne, not_iff_not]
  constructor
  · intro h
    rwa [← BitVec.xor_zero (x := x), BitVec.xor_assoc, BitVec.zero_xor, BitVec.xor_right_inj] at h
  · rintro rfl
    exact BitVec.xor_zero

/-- The tag reads the 24 most recent outcomes. -/
theorem get_tag_flip_ne_iff (global_history : BitVec 64) (PC : UINT32) (j : Nat) :
    get_tag (flip global_history j) PC ≠ get_tag global_history PC ↔ j < 24 := by
  have hbits : ∀ j : Fin 64, get_tag (1#64 <<< j.val) 0#32 ≠ 0#32 ↔ j.val < 24 := by decide +kernel
  rw [flip, get_tag_xor, xor_ne_iff]
  by_cases hj : j < 64
  · exact hbits ⟨j, hj⟩
  · rw [BitVec.shiftLeft_eq_zero (by omega)]
    exact iff_of_false (fun h => h (by decide)) (by omega)

/-- The index of bank `i` reads the `10 (i + 1)` most recent outcomes. -/
theorem get_index_flip_ne_iff (global_history : BitVec 64) (PC : UINT32) (bank : Fin 4) (j : Nat) :
    get_index (flip global_history j) PC (some bank) ≠ get_index global_history PC (some bank) ↔
      j < 10 * (bank + 1) := by
  have hbits : ∀ (bank : Fin 4) (j : Fin 64),
      get_index (1#64 <<< j.val) 0#32 (some bank) ≠ 0#32 ↔ j.val < 10 * (bank + 1) := by decide +kernel
  rw [flip, get_index_xor, xor_ne_iff]
  by_cases hj : j < 64
  · exact hbits bank ⟨j, hj⟩
  · rw [BitVec.shiftLeft_eq_zero (by omega)]
    exact iff_of_false (fun h => h (by revert bank; decide)) (by have := bank.isLt; omega)

/-- Flipping outcome `j` shows in the tag and in every index that is meant to read it. -/
def Counts (global_history : BitVec 64) (PC : UINT32) (j : Nat) : Prop :=
  (j < 32 → get_tag (flip global_history j) PC ≠ get_tag global_history PC) ∧
    ∀ bank : Fin 4, j < 10 * (bank + 1) →
      get_index (flip global_history j) PC (some bank) ≠ get_index global_history PC (some bank)

/-- Every outcome counts but those from 24 to 31, which the tag drops. The tag and the
indices have 8 and 10 bits. -/
theorem counts_iff (global_history : BitVec 64) (PC : UINT32) (j : Nat) :
    (Counts global_history PC j ∧ (get_tag global_history PC).toNat < 256 ∧
      ∀ bank : Fin 4, (get_index global_history PC (some bank)).toNat < 1024) ↔ j < 24 ∨ 32 ≤ j := by
  constructor
  · rintro ⟨⟨htag, -⟩, -⟩
    by_contra hj
    have := (get_tag_flip_ne_iff global_history PC j).1 (htag (by omega))
    omega
  · intro hj
    refine ⟨⟨fun h => ?_, fun bank h => ?_⟩, get_tag_lt _ _, fun bank => get_index_bank_lt _ _ bank⟩
    · exact (get_tag_flip_ne_iff global_history PC j).2 (by omega)
    · exact (get_index_flip_ne_iff global_history PC bank j).2 h

/-- The tag does not read the outcome of 25 branches ago. -/
theorem not_counts :
    ¬ ∀ (global_history : BitVec 64) (PC : UINT32) (j : Nat),
      Counts global_history PC j ∧ (get_tag global_history PC).toNat < 256 ∧
        ∀ bank : Fin 4, (get_index global_history PC (some bank)).toNat < 1024 := by
  intro h
  exact (h 0 0x400148 24).1.1 (by decide) (by decide)

end Bpred
