import CompArch.Bpred.OpenEnd
import CompArch.Past
/-!
# What the entries of the open-ended predictor remember

A run of the predictor keeps a log: which entry provided each prediction and
whether it was right, and which entries were allocated. The tag and the `u` bit of
an entry are read against that log.
-/

namespace Bpred

open Past

/-! ## Runs -/

inductive Event
  | provided (bank : Fin 4) (k : Fin 1024) (correct : Bool)
  | allocated (bank : Fin 4) (k : Fin 1024) (tag : UINT32)
  deriving DecidableEq

/-- The event gives entry `k` of bank `i` away. -/
def IsAllocation (i : Fin 4) (k : Fin 1024) : Event → Prop
  | .provided _ _ _ => False
  | .allocated bank l _ => bank = i ∧ l = k

instance (i : Fin 4) (k : Fin 1024) : DecidablePred (IsAllocation i k)
  | .provided _ _ _ => inferInstanceAs (Decidable False)
  | .allocated _ _ _ => inferInstanceAs (Decidable (_ ∧ _))

/-- Entry `k` of bank `i` was allocated, the last time with `tag`. -/
abbrev LastAllocated (log : List Event) (i : Fin 4) (k : Fin 1024) (tag : UINT32) : Prop :=
  Since (· = .allocated i k tag) (IsAllocation i k) log

def NeverAllocated (log : List Event) (i : Fin 4) (k : Fin 1024) : Prop := ∀ e ∈ log, ¬ IsAllocation i k e

/-- Entry `k` of bank `i` provided a correct prediction since it was last allocated. -/
abbrev Credited (log : List Event) (i : Fin 4) (k : Fin 1024) : Prop :=
  Since (· = .provided i k true) (IsAllocation i k) log

namespace OpenEnd

/-- What an update shows, the chosen bank being known. -/
def events (s : OpenEnd) (PC : UINT32) (resolveDir predDir : Bool) (rand : Nat) : List Event :=
  (s.X.toList.map fun i => .provided i (index s.global_history PC i) (resolveDir == predDir)) ++
    (s.allocated PC resolveDir predDir rand).map fun Y =>
      .allocated Y (index s.global_history PC Y) (get_tag s.global_history PC)

/-- What `main` does with a branch, when `std::rand` gives `rand`. -/
def branch (st : OpenEnd × List Event) (b : CBP_TRACE_RECORD × Nat) : OpenEnd × List Event :=
  let (r, rand) := b
  let (predDir, s) := st.1.GetPrediction_openend r.PC
  (s.UpdatePredictor_openend r.PC r.branchTaken predDir r.branchTarget rand,
    st.2 ++ s.events r.PC r.branchTaken predDir rand)

/-- The predictor after the branches `bs`, with the log. -/
def run (bs : List (CBP_TRACE_RECORD × Nat)) : OpenEnd × List Event := bs.foldl branch ({}, [])

theorem run_concat (bs : List (CBP_TRACE_RECORD × Nat)) (b : CBP_TRACE_RECORD × Nat) :
    run (bs ++ [b]) = branch (run bs) b := by
  rw [run, List.foldl_append]
  rfl

/-! ## Predictions -/

section Prediction
variable (s : OpenEnd) (PC : UINT32)

@[simp] theorem GetPrediction_banks : (s.GetPrediction_openend PC).2.banks = s.banks := by
  unfold GetPrediction_openend
  split <;> rfl

@[simp] theorem GetPrediction_global_history :
    (s.GetPrediction_openend PC).2.global_history = s.global_history := by
  unfold GetPrediction_openend
  split <;> rfl

@[simp] theorem GetPrediction_base : (s.GetPrediction_openend PC).2.base = s.base := by
  unfold GetPrediction_openend
  split <;> rfl

/-- The chosen bank has the tag of the branch. -/
theorem tag_of_chosen {i : Fin 4} (h : (s.GetPrediction_openend PC).2.X = some i) :
    (s.entry PC i).tag = get_tag s.global_history PC := by
  unfold GetPrediction_openend at h
  split at h
  case h_1 j hj =>
    obtain rfl : j = i := Option.some.inj h
    simpa using List.find?_some hj
  case h_2 => cases h

end Prediction

/-! ## The log of an update -/

section Log
variable {s : OpenEnd} {PC : UINT32} {resolveDir predDir : Bool} {rand : Nat} {i : Fin 4} {k : Fin 1024}

theorem provided_mem_events {correct : Bool} :
    .provided i k correct ∈ s.events PC resolveDir predDir rand ↔
      s.X = some i ∧ k = index s.global_history PC i ∧ correct = (resolveDir == predDir) := by
  unfold events
  simp only [List.mem_append, List.mem_map, Option.mem_toList, Event.provided.injEq, reduceCtorEq, and_false,
    exists_false, or_false]
  constructor
  · rintro ⟨j, hj, rfl, rfl, rfl⟩
    exact ⟨hj, rfl, rfl⟩
  · rintro ⟨hX, rfl, rfl⟩
    exact ⟨i, hX, rfl, rfl, rfl⟩

theorem allocation_of_mem_events {e : Event} (he : e ∈ s.events PC resolveDir predDir rand)
    (ha : IsAllocation i k e) :
    i ∈ s.allocated PC resolveDir predDir rand ∧ k = index s.global_history PC i ∧
      e = .allocated i k (get_tag s.global_history PC) := by
  rcases List.mem_append.1 he with he | he
  · obtain ⟨j, -, rfl⟩ := List.mem_map.1 he
    cases ha
  · obtain ⟨Y, hY, rfl⟩ := List.mem_map.1 he
    obtain ⟨rfl, rfl⟩ := ha
    exact ⟨hY, rfl, rfl⟩

theorem allocated_mem_events (h : i ∈ s.allocated PC resolveDir predDir rand) :
    .allocated i (index s.global_history PC i) (get_tag s.global_history PC) ∈
      s.events PC resolveDir predDir rand :=
  List.mem_append_right _ (List.mem_map.2 ⟨i, h, rfl⟩)

end Log

section Step
variable (s : OpenEnd) (PC : UINT32) (resolveDir predDir : Bool) (branchTarget : UINT32) (rand : Nat) (i : Fin 4)
  (k : Fin 1024)

theorem update_tag :
    ((s.UpdatePredictor_openend PC resolveDir predDir branchTarget rand).banks i k).tag =
      if i ∈ s.allocated PC resolveDir predDir rand ∧ k = index s.global_history PC i
      then get_tag s.global_history PC else (s.banks i k).tag := by
  rw [update_banks]
  by_cases hX : s.X = some i ∧ k = index s.global_history PC i
  · rw [if_pos hX, if_neg fun h => not_chosen_of_allocated h.1 hX.1, hX.2]
    rfl
  · rw [if_neg hX]
    split <;> rfl

theorem update_u :
    ((s.UpdatePredictor_openend PC resolveDir predDir branchTarget rand).banks i k).u =
      if s.X = some i ∧ k = index s.global_history PC i then resolveDir == predDir else (s.banks i k).u := by
  rw [update_banks]
  split
  · rfl
  · split
    case isTrue h =>
      rw [h.2]
      rfl
    case isFalse => rfl

end Step

/-! ## Tags -/

/-- The tag of an entry is the tag of its last allocation, 0 before any. -/
theorem run_tag (bs : List (CBP_TRACE_RECORD × Nat)) (i : Fin 4) (k : Fin 1024) :
    LastAllocated (run bs).2 i k ((run bs).1.banks i k).tag ∨
      NeverAllocated (run bs).2 i k ∧ ((run bs).1.banks i k).tag = 0 := by
  induction bs using List.reverseRecOn with
  | nil => exact .inr ⟨fun e he => (nomatch he), rfl⟩
  | append_singleton bs b ih =>
    rw [run_concat]
    simp only [branch, update_tag, GetPrediction_banks]
    set s := ((run bs).1.GetPrediction_openend b.1.PC).2
    set predDir := ((run bs).1.GetPrediction_openend b.1.PC).1
    by_cases ha : i ∈ s.allocated b.1.PC b.1.branchTaken predDir b.2 ∧ k = index s.global_history b.1.PC i
    · rw [if_pos ha]
      obtain ⟨hmem, rfl⟩ := ha
      exact .inl (since_append.2 (.inl (since_of_imp ⟨_, allocated_mem_events hmem, rfl⟩ fun e he hq =>
        (allocation_of_mem_events he hq).2.2)))
    · rw [if_neg ha]
      have hnew : ∀ e ∈ s.events b.1.PC b.1.branchTaken predDir b.2, ¬ IsAllocation i k e := fun e he hq =>
        ha ⟨(allocation_of_mem_events he hq).1, (allocation_of_mem_events he hq).2.1⟩
      rcases ih with hlast | ⟨hnever, htag⟩
      · exact .inl (since_append.2 (.inr ⟨hlast, hnew⟩))
      · refine .inr ⟨fun e he => ?_, htag⟩
        rcases List.mem_append.1 he with he | he
        · exact hnever e he
        · exact hnew e he

/-- The entry that provides was allocated, the last time with the tag that matches, unless
it never was: then the tag is 0, the one such an entry has. -/
theorem provided_by_allocated (past : List (CBP_TRACE_RECORD × Nat)) (PC : UINT32) (i : Fin 4) :
    let s := (run past).1
    let k := index s.global_history PC i
    let tag := get_tag s.global_history PC
    ((s.GetPrediction_openend PC).2.X = some i →
      LastAllocated (run past).2 i k tag ∨ NeverAllocated (run past).2 i k ∧ tag = 0) ∧
    (NeverAllocated (run past).2 i k → ((s.entry PC i).tag = tag ↔ tag = 0)) := by
  intro s k tag
  have hentry : LastAllocated (run past).2 i k (s.entry PC i).tag ∨
      NeverAllocated (run past).2 i k ∧ (s.entry PC i).tag = 0 := run_tag past i k
  constructor
  · intro hX
    rwa [tag_of_chosen s PC hX] at hentry
  · intro hnever
    rcases hentry with ⟨before, e, after, hlog, rfl, -⟩ | ⟨-, htag⟩
    · refine absurd (hnever (.allocated i k (s.entry PC i).tag) ?_) (not_not_intro ⟨rfl, rfl⟩)
      rw [hlog]
      exact List.mem_append_right _ List.mem_cons_self
    · rw [htag]
      exact eq_comm

/-- A branch whose tag is 0 finds it in every entry from the start. -/
theorem not_provided_by_allocated :
    ¬ ∀ (past : List (CBP_TRACE_RECORD × Nat)) (PC : UINT32) (i : Fin 4),
      ((run past).1.GetPrediction_openend PC).2.X = some i →
        .allocated i (index (run past).1.global_history PC i) (get_tag (run past).1.global_history PC) ∈
          (run past).2 := by
  intro h
  exact List.not_mem_nil (h [] 0x400100 3 (by decide))

/-! ## Useful bits -/

/-- A misprediction that finds `u` set in every bank above the chosen one. -/
def Steals (s : OpenEnd) (PC : UINT32) (resolveDir predDir : Bool) : Prop :=
  resolveDir ≠ predDir ∧ next s.X ≤ 3 ∧ ∀ Y ∈ above s.X, (s.entry PC Y).u = true

theorem not_u_of_allocated {s : OpenEnd} {PC : UINT32} {resolveDir predDir : Bool} {rand : Nat} {Y : Fin 4}
    (hs : ¬ s.Steals PC resolveDir predDir) (h : Y ∈ s.allocated PC resolveDir predDir rand) :
    (s.entry PC Y).u = false := by
  unfold allocated at h
  split at h
  case isTrue hc =>
    dsimp only at h
    split at h
    case isTrue hfree =>
      refine absurd ⟨hc.1, hc.2, fun Z hZ => ?_⟩ hs
      simpa using List.filter_eq_nil_iff.1 hfree Z hZ
    case isFalse => simpa using (List.mem_filter.1 h).2
  case isFalse => cases h

/-- A stolen entry is above the chosen bank, with `u` set. -/
theorem Steals.exists_allocated {s : OpenEnd} {PC : UINT32} {resolveDir predDir : Bool}
    (h : s.Steals PC resolveDir predDir) (rand : Nat) :
    ∃ Y ∈ s.allocated PC resolveDir predDir rand, (s.entry PC Y).u = true := by
  have hnil : (above s.X).filter (fun Y => !(s.entry PC Y).u) = [] :=
    List.filter_eq_nil_iff.2 fun Y hY => by simp [h.2.2 Y hY]
  have hmem : randomBank s.X h.2.1 rand ∈ s.allocated PC resolveDir predDir rand := by
    unfold allocated
    rw [dif_pos ⟨h.1, h.2.1⟩, hnil]
    exact List.mem_singleton_self _
  exact ⟨_, hmem, h.2.2 _ (mem_above_of_allocated hmem)⟩

/-- An allocated entry keeps its `u`. -/
theorem update_u_of_allocated {s : OpenEnd} {PC : UINT32} {resolveDir predDir : Bool} {rand : Nat} {Y : Fin 4}
    (h : Y ∈ s.allocated PC resolveDir predDir rand) (branchTarget : UINT32) :
    ((s.UpdatePredictor_openend PC resolveDir predDir branchTarget rand).banks Y
      (index s.global_history PC Y)).u = (s.entry PC Y).u := by
  rw [update_u, if_neg fun hX => not_chosen_of_allocated h hX.1]
  rfl

/-- Branch `r` steals an entry after the branches `past`. -/
def StealsAfter (past : List (CBP_TRACE_RECORD × Nat)) (r : CBP_TRACE_RECORD) : Prop :=
  let (predDir, s) := (run past).1.GetPrediction_openend r.PC
  s.Steals r.PC r.branchTaken predDir

/-- The banks branch `r` allocates in after the branches `past`. -/
def allocatedAfter (past : List (CBP_TRACE_RECORD × Nat)) (r : CBP_TRACE_RECORD) (rand : Nat) : List (Fin 4) :=
  let (predDir, s) := (run past).1.GetPrediction_openend r.PC
  s.allocated r.PC r.branchTaken predDir rand

/-- Without a theft a set `u` is earned. -/
theorem credited_of_u {trace : List (CBP_TRACE_RECORD × Nat)}
    (hsteal : ∀ past r rand, past ++ [(r, rand)] <+: trace → ¬ StealsAfter past r)
    {past : List (CBP_TRACE_RECORD × Nat)} (hpast : past <+: trace) {i : Fin 4} {k : Fin 1024}
    (hu : ((run past).1.banks i k).u = true) : Credited (run past).2 i k := by
  induction past using List.reverseRecOn with
  | nil => cases hu
  | append_singleton past b ih =>
    rw [run_concat] at hu ⊢
    simp only [branch, update_u, GetPrediction_banks, GetPrediction_global_history] at hu ⊢
    have hno := hsteal past b.1 b.2 hpast
    unfold StealsAfter at hno
    dsimp only at hno
    have hgh := GetPrediction_global_history (run past).1 b.1.PC
    have hbanks := GetPrediction_banks (run past).1 b.1.PC
    set s := ((run past).1.GetPrediction_openend b.1.PC).2
    set predDir := ((run past).1.GetPrediction_openend b.1.PC).1
    split at hu
    case isTrue hX =>
      -- the entry is the one that provided, and it was right
      obtain ⟨hX, hk⟩ := hX
      refine since_append.2 (.inl (since_of_mem (provided_mem_events.2 ⟨hX, ?_, hu.symm⟩) rfl fun e he ha => ?_))
      · rw [hgh, hk]
      · exact not_chosen_of_allocated (allocation_of_mem_events he ha).1 hX
    case isFalse =>
      refine since_append.2 (.inr ⟨ih ((List.prefix_append _ _).trans hpast) hu, fun e he ha => ?_⟩)
      -- an entry given away had `u` clear
      obtain ⟨hmem, rfl, -⟩ := allocation_of_mem_events he ha
      have hclear := not_u_of_allocated hno hmem
      rw [entry, hbanks] at hclear
      exact Bool.false_ne_true (hclear.symm.trans hu)

/-- In every state of a run the `u` bits that are set are earned, and those of new entries
clear, exactly when the run steals nothing. -/
theorem useful_iff (trace : List (CBP_TRACE_RECORD × Nat)) :
    ((∀ past, past <+: trace → ∀ i k, ((run past).1.banks i k).u = true → Credited (run past).2 i k) ∧
      ∀ past r rand, past ++ [(r, rand)] <+: trace → ∀ Y ∈ allocatedAfter past r rand,
        ((run (past ++ [(r, rand)])).1.banks Y (index (run past).1.global_history r.PC Y)).u = false) ↔
    ∀ past r rand, past ++ [(r, rand)] <+: trace → ¬ StealsAfter past r := by
  have hfresh {past r rand Y} (h : Y ∈ allocatedAfter past r rand) :
      ((run (past ++ [(r, rand)])).1.banks Y (index (run past).1.global_history r.PC Y)).u =
        (((run past).1.GetPrediction_openend r.PC).2.entry r.PC Y).u := by
    rw [run_concat, ← GetPrediction_global_history (run past).1 r.PC]
    exact update_u_of_allocated h r.branchTarget
  constructor
  · rintro ⟨-, hclear⟩ past r rand htrace hsteal
    obtain ⟨Y, hY, hu⟩ := Steals.exists_allocated hsteal rand
    have := hclear past r rand htrace Y hY
    rw [hfresh hY] at this
    exact Bool.false_ne_true (this.symm.trans hu)
  · intro hsteal
    refine ⟨fun past hpast i k => credited_of_u hsteal hpast, fun past r rand htrace Y hY => ?_⟩
    rw [hfresh hY]
    exact not_u_of_allocated (hsteal past r rand htrace) hY

/-- Bank 2 mispredicts while the entry of bank 3 has `u` set: the entry is stolen and
keeps it. -/
theorem not_credited_of_u :
    ¬ ∀ (past : List (CBP_TRACE_RECORD × Nat)) (i : Fin 4) (k : Fin 1024),
      ((run past).1.banks i k).u = true → Credited (run past).2 i k := by
  intro h
  let past : List (CBP_TRACE_RECORD × Nat) :=
    [({ PC := 0x400100, opType := .OPTYPE_BRANCH_COND, branchTaken := false }, 0),
      ({ PC := 0x401104, opType := .OPTYPE_BRANCH_COND, branchTaken := true }, 0),
      ({ PC := 0x401105, opType := .OPTYPE_BRANCH_COND, branchTaken := false }, 0)]
  exact absurd (h past 3 0x100 (by decide +kernel)) (by decide +kernel)

end OpenEnd

end Bpred
