import CompArch.Adaptive
import CompArch.Bpred.Utils
/-!
# The two-level predictor (`predictor.cc`)

A branch history table of 512 slots and eight pattern history tables of 64
counters. A counter stands for the outcomes of the branches of its table that came
when their slot's last six outcomes were the counter's pattern.
-/

namespace Bpred

/-! ## The predictor -/

abbrev MAX_VALUE : Nat := 3

/-- `(PC & 0xFF8) >> 3` -/
def bhtIndex (PC : UINT32) : Fin 512 := ⟨((PC &&& 0xFF8#32) >>> 3).toNat, by
  rw [BitVec.toNat_ushiftRight, BitVec.toNat_and, Nat.shiftRight_eq_div_pow]
  exact Nat.lt_of_le_of_lt (Nat.div_le_div_right Nat.and_le_right) (by decide)⟩

/-- `PC & 0b111` -/
def phtTable (PC : UINT32) : Fin 8 := ⟨(PC &&& 0b111#32).toNat, by
  rw [BitVec.toNat_and]
  exact Nat.lt_of_le_of_lt Nat.and_le_right (by decide)⟩

/-- `BHT[..] & 0x3F` as an index. -/
def phtIndex (history : UINT32) : Fin 64 := ⟨(history &&& 0x3F#32).toNat, by
  rw [BitVec.toNat_and]
  exact Nat.lt_of_le_of_lt Nat.and_le_right (by decide)⟩

structure TwoLevel where
  BHT : Fin 512 → UINT32 := fun _ => 0
  PHT : Fin 8 → Fin 64 → Nat := fun _ _ => 0

namespace TwoLevel

def GetPrediction_2level (t : TwoLevel) (PC : UINT32) : Bool :=
  let history := phtIndex (t.BHT (bhtIndex PC))
  let prediction := t.PHT (phtTable PC) history
  if prediction ≤ 1 then false else true

def UpdatePredictor_2level (t : TwoLevel) (PC : UINT32) (resolveDir _predDir : Bool) (_branchTarget : UINT32) :
    TwoLevel :=
  let history := t.BHT (bhtIndex PC)
  let table := phtTable PC
  let predicted := t.PHT table (phtIndex history)
  { PHT := Function.update t.PHT table (Function.update (t.PHT table) (phtIndex history)
      (if resolveDir then SatIncrement predicted MAX_VALUE else SatDecrement predicted))
    BHT := Function.update t.BHT (bhtIndex PC) ((history &&& 0x3F#32) <<< 1 ||| if resolveDir then 1 else 0) }

/-- What `main` does with a branch. -/
def branch (t : TwoLevel) (r : CBP_TRACE_RECORD) : TwoLevel :=
  t.UpdatePredictor_2level r.PC r.branchTaken (t.GetPrediction_2level r.PC) r.branchTarget

/-- The tables after the loop of `main` over `trace`. -/
def main (trace : List CBP_TRACE_RECORD) : TwoLevel := (branches trace).foldl branch {}

end TwoLevel

/-! ## The specification -/

/-- The bits of a PC that choose a history. -/
def pcSlot (PC : UINT32) : BitVec 9 := PC.extractLsb' 3 9

/-- The bits of a PC that choose a table of counters. -/
def pcTable (PC : UINT32) : BitVec 3 := PC.extractLsb' 0 3

/-- The outcomes of the branches of a slot, oldest first. -/
def outcomes (past : List CBP_TRACE_RECORD) (slot : BitVec 9) : List Bool :=
  (past.filter fun r => pcSlot r.PC = slot).map (·.branchTaken)

/-- The last six, youngest first; not taken before the start. -/
def lastSix (past : List CBP_TRACE_RECORD) (slot : BitVec 9) : List Bool :=
  ((outcomes past slot).reverse ++ List.replicate 6 false).take 6

/-- The outcomes, oldest first, of the branches of a table that were resolved while their
own slot's last six outcomes were `six`. -/
def selected (past : List CBP_TRACE_RECORD) (table : BitVec 3) (six : List Bool) : List Bool :=
  (List.range past.length).filterMap fun n =>
    (past[n]?.filter fun r => pcTable r.PC = table ∧ lastSix (past.take n) (pcSlot r.PC) = six).map (·.branchTaken)

/-- A counter from 0 to 3, one up when taken, else one down. -/
def counter (outcomes : List Bool) : Nat := outcomes.foldl (fun c taken => if taken then min (c + 1) 3 else c - 1) 0

/-! ## The indices are the bits -/

theorem bhtIndex_val (PC : UINT32) : (bhtIndex PC).val = (pcSlot PC).toNat := by
  change ((PC &&& 0xFF8#32) >>> 3).toNat = _
  rw [pcSlot, BitVec.toNat_ushiftRight, BitVec.toNat_and, BitVec.extractLsb'_toNat, Nat.shiftRight_and_distrib]
  exact Nat.and_two_pow_sub_one_eq_mod _ 9

theorem bhtIndex_eq_iff {PC PC' : UINT32} : bhtIndex PC = bhtIndex PC' ↔ pcSlot PC = pcSlot PC' := by
  rw [Fin.ext_iff, bhtIndex_val, bhtIndex_val, BitVec.toNat_inj]

theorem phtTable_val (PC : UINT32) : (phtTable PC).val = (pcTable PC).toNat := by
  change (PC &&& 0b111#32).toNat = _
  rw [pcTable, BitVec.toNat_and, BitVec.extractLsb'_toNat]
  exact Nat.and_two_pow_sub_one_eq_mod _ 3

theorem phtTable_eq_iff {PC PC' : UINT32} : phtTable PC = phtTable PC' ↔ pcTable PC = pcTable PC' := by
  rw [Fin.ext_iff, phtTable_val, phtTable_val, BitVec.toNat_inj]

/-- The six bits of a history that are read, youngest first. -/
def sixBits (h : UINT32) : List Bool := (List.range 6).map h.getLsbD

theorem getLsbD_mask (i : Nat) : (0x3F#32).getLsbD i = decide (i < 6) := by
  by_cases h : i < 32
  · have hall : ∀ i < 32, (0x3F#32).getLsbD i = decide (i < 6) := by decide
    exact hall i h
  · rw [BitVec.getLsbD_of_ge _ _ (Nat.not_lt.1 h)]
    exact (decide_eq_false (by omega)).symm

theorem phtIndex_eq_iff {h h' : UINT32} : phtIndex h = phtIndex h' ↔ sixBits h = sixBits h' := by
  have hbits : phtIndex h = phtIndex h' ↔ ∀ i < 6, h.getLsbD i = h'.getLsbD i := by
    rw [Fin.ext_iff, phtIndex, phtIndex, BitVec.toNat_inj]
    constructor
    · intro he i hi
      have := congrArg (·.getLsbD i) he
      simpa [getLsbD_mask, hi] using this
    · intro he
      refine BitVec.eq_of_getLsbD_eq fun i _ => ?_
      rw [BitVec.getLsbD_and, BitVec.getLsbD_and, getLsbD_mask]
      by_cases hlt : i < 6
      · rw [he i hlt]
      · rw [decide_eq_false hlt, Bool.and_false, Bool.and_false]
  rw [hbits, sixBits, sixBits, List.map_inj_left]
  simp only [List.mem_range]

/-- Masked, shifted and completed, a history drops its oldest bit. -/
theorem sixBits_shift (h : UINT32) (taken : Bool) :
    sixBits ((h &&& 0x3F#32) <<< 1 ||| if taken then 1 else 0) = (taken :: sixBits h).take 6 := by
  have hlow (i : Nat) : (if taken then 1#32 else 0#32).getLsbD i = (decide (i = 0) && taken) := by
    cases taken <;> simp [BitVec.getLsbD_one, Bool.and_comm]
  refine List.ext_getElem (by simp [sixBits]) fun i hi _ => ?_
  rw [sixBits, List.length_map, List.length_range] at hi
  have hbit : ((h &&& 0x3F#32) <<< 1 ||| if taken then 1#32 else 0#32).getLsbD i =
      if i = 0 then taken else h.getLsbD (i - 1) := by
    rw [BitVec.getLsbD_or, BitVec.getLsbD_shiftLeft, BitVec.getLsbD_and, getLsbD_mask, hlow]
    cases i with
    | zero => simp
    | succ i => simp [show i < 6 by omega, show i + 1 < 32 by omega]
  simp only [sixBits, List.getElem_map, List.getElem_range, List.getElem_take]
  refine hbit.trans ?_
  cases i with
  | zero => rfl
  | succ i => simp

/-! ## The tables -/

/-- The two levels of the predictor. -/
def scheme : Adaptive.Scheme CBP_TRACE_RECORD (Fin 512) UINT32 (Fin 8 × Fin 64) Nat where
  slot r := bhtIndex r.PC
  shift r h := (h &&& 0x3F#32) <<< 1 ||| if r.branchTaken then 1 else 0
  entry r h := (phtTable r.PC, phtIndex h)
  train r c := if r.branchTaken then SatIncrement c MAX_VALUE else SatDecrement c

theorem branch_eq_step (t : TwoLevel) (r : CBP_TRACE_RECORD) :
    ((t.branch r).BHT, fun i => (t.branch r).PHT i.1 i.2) =
      scheme.step (t.BHT, fun i : Fin 8 × Fin 64 => t.PHT i.1 i.2) r := by
  refine Prod.ext rfl (funext fun i => ?_)
  obtain ⟨table, k⟩ := i
  change Function.update t.PHT (phtTable r.PC) (Function.update (t.PHT (phtTable r.PC)) _ _) table k =
    Function.update (fun i : Fin 8 × Fin 64 => t.PHT i.1 i.2) (phtTable r.PC, phtIndex (t.BHT (bhtIndex r.PC))) _ _
  by_cases ht : table = phtTable r.PC
  · subst ht
    by_cases hk : k = phtIndex (t.BHT (bhtIndex r.PC))
    · subst hk
      simp only [Function.update_self]
      rfl
    · simp [Function.update_of_ne, hk]
  · simp [Function.update_of_ne, ht]

theorem foldl_branch_eq_run (past : List CBP_TRACE_RECORD) :
    ((past.foldl TwoLevel.branch {}).BHT, fun i : Fin 8 × Fin 64 => (past.foldl TwoLevel.branch {}).PHT i.1 i.2) =
      scheme.run 0 0 past := by
  induction past using List.reverseRecOn with
  | nil => rfl
  | append_singleton past r ih =>
    rw [Adaptive.Scheme.run, List.foldl_append, List.foldl_append, ← Adaptive.Scheme.run, ← ih]
    exact branch_eq_step _ r

/-! ## The tables are the specification -/

theorem outcomes_concat (past : List CBP_TRACE_RECORD) (r : CBP_TRACE_RECORD) (slot : BitVec 9) :
    outcomes (past ++ [r]) slot =
      if pcSlot r.PC = slot then outcomes past slot ++ [r.branchTaken] else outcomes past slot := by
  by_cases h : pcSlot r.PC = slot <;> simp [outcomes, h]

theorem lastSix_concat (past : List CBP_TRACE_RECORD) (r : CBP_TRACE_RECORD) (slot : BitVec 9) :
    lastSix (past ++ [r]) slot =
      if pcSlot r.PC = slot then (r.branchTaken :: lastSix past slot).take 6 else lastSix past slot := by
  unfold lastSix
  rw [outcomes_concat]
  split
  case isTrue => simp [List.take_take]
  case isFalse => rfl

/-- What a slot holds are its last six outcomes. -/
theorem sixBits_history (past : List CBP_TRACE_RECORD) (PC : UINT32) :
    sixBits (scheme.history 0 past (bhtIndex PC)) = lastSix past (pcSlot PC) := by
  induction past using List.reverseRecOn with
  | nil =>
    change sixBits 0 = List.replicate 6 false
    decide
  | append_singleton past r ih =>
    have hslot : scheme.slot r = bhtIndex PC ↔ pcSlot r.PC = pcSlot PC := bhtIndex_eq_iff
    rw [scheme.history_concat, lastSix_concat, ← ih]
    by_cases h : pcSlot r.PC = pcSlot PC
    · rw [if_pos h, if_pos (hslot.2 h)]
      exact sixBits_shift _ _
    · rw [if_neg h, if_neg fun he => h (hslot.1 he)]

/-- The counter of a branch stands for the outcomes that came in the same pattern. -/
theorem chosen_eq_selected (past : List CBP_TRACE_RECORD) (PC : UINT32) (h : UINT32) :
    (scheme.chosen 0 past (phtTable PC, phtIndex h)).map (·.branchTaken) = selected past (pcTable PC) (sixBits h) := by
  unfold Adaptive.Scheme.chosen selected
  rw [List.map_filterMap]
  refine List.filterMap_congr fun n _ => ?_
  cases past[n]? with
  | none => rfl
  | some r =>
    have hentry : scheme.entry r (scheme.history 0 (past.take n) (scheme.slot r)) = (phtTable PC, phtIndex h) ↔
        pcTable r.PC = pcTable PC ∧ lastSix (past.take n) (pcSlot r.PC) = sixBits h := by
      rw [← phtTable_eq_iff, ← sixBits_history, ← phtIndex_eq_iff]
      exact Prod.mk.injEq .. ▸ Iff.rfl
    simp only [Option.filter_some, hentry]

/-- Between 0 and 3 the counters of the code and of the specification agree. -/
theorem foldl_train {c : Nat} (hc : c ≤ 3) (rs : List CBP_TRACE_RECORD) :
    rs.foldl (fun c r => scheme.train r c) c =
      (rs.map (·.branchTaken)).foldl (fun c taken => if taken then min (c + 1) 3 else c - 1) c := by
  induction rs generalizing c with
  | nil => rfl
  | cons r rs ih =>
    have hstep : scheme.train r c = if r.branchTaken then min (c + 1) 3 else c - 1 := by
      change (if r.branchTaken then SatIncrement c MAX_VALUE else SatDecrement c) = _
      unfold SatIncrement SatDecrement MAX_VALUE
      split
      · split <;> omega
      · split <;> omega
    rw [List.foldl_cons, List.map_cons, List.foldl_cons, hstep, ih (by split <;> omega)]

/-- The prediction is taken exactly when the outcomes seen in the same table, after the
same last six of their own slot, have brought a two-bit counter to at least 2. -/
theorem prediction_eq_history (trace : List CBP_TRACE_RECORD) (PC : UINT32) :
    (TwoLevel.main trace).GetPrediction_2level PC = true ↔
      2 ≤ counter (selected (branches trace) (pcTable PC) (lastSix (branches trace) (pcSlot PC))) := by
  have htables := foldl_branch_eq_run (branches trace)
  have hbht (k) : (TwoLevel.main trace).BHT k = scheme.history 0 (branches trace) k := by
    rw [← scheme.run_fst 0 0, ← htables]
    rfl
  have hpht (i k) : (TwoLevel.main trace).PHT i k =
      counter ((scheme.chosen 0 (branches trace) (i, k)).map (·.branchTaken)) := by
    rw [counter, ← foldl_train (Nat.zero_le 3), ← scheme.run_snd 0 0, ← htables]
    rfl
  rw [TwoLevel.GetPrediction_2level, hbht, hpht, chosen_eq_selected, sixBits_history]
  split <;> simp <;> omega

end Bpred
