import CompArch.Bpred.Utils
import Mathlib.Data.List.FinRange
import Mathlib.Data.Nat.Bitwise
import Mathlib.Logic.Function.Basic
/-!
# The open-ended predictor (`predictor.cc`)

A base table of 4096 counters and four tagged banks of 1024 entries, bank `i` read
at the PC folded with the last `10 (i + 1)` outcomes. The highest bank whose entry
has the tag of the branch gives the prediction. A misprediction puts new entries
into the banks above it.

The last chosen bank `X` is `none` where the source has `-1`.
-/

namespace Bpred

/-! ## Tags and indices -/

/-- 8 bits. -/
def get_tag (global_history : BitVec 64) (PC : UINT32) : UINT32 :=
  ((PC &&& 0xFF#32).setWidth 64 ^^^ (global_history &&& 0xFF#64) ^^^ ((global_history &&& 0xFF00#64) >>> 8) ^^^
    ((global_history &&& 0xFF0000#64) >>> 16) ^^^ ((global_history &&& 0xFF000000#64) >>> 32)).setWidth 32

/-- 10 bits for a bank, 12 for the base. -/
def get_index (global_history : BitVec 64) (PC : UINT32) : Option (Fin 4) → UINT32
  | none => PC &&& 0xFFF#32
  | some bank =>
    let index_0 : UINT32 := (((PC &&& 0x3FF#32) ^^^ ((PC &&& 0xFFC00#32) >>> 10)).setWidth 64 ^^^
      (global_history &&& 0x3FF#64)).setWidth 32
    let index_1 : UINT32 := (index_0.setWidth 64 ^^^ ((global_history &&& 0xFFC00#64) >>> 10)).setWidth 32
    let index_2 : UINT32 := (index_1.setWidth 64 ^^^ ((global_history &&& 0x3FF00000#64) >>> 20)).setWidth 32
    let index_3 : UINT32 := (index_2.setWidth 64 ^^^ ((global_history &&& 0xFFC0000000#64) >>> 30)).setWidth 32
    if bank = 0 then index_0
    else if bank = 1 then index_1
    else if bank = 2 then index_2
    else index_3

theorem xor_lt {w n : Nat} {x y : BitVec w} (hx : x.toNat < 2 ^ n) (hy : y.toNat < 2 ^ n) :
    (x ^^^ y).toNat < 2 ^ n := by
  rw [BitVec.toNat_xor]
  exact Nat.xor_lt_two_pow hx hy

theorem setWidth_lt {v w n : Nat} {x : BitVec w} (hx : x.toNat < 2 ^ n) : (x.setWidth v).toNat < 2 ^ n := by
  rw [BitVec.toNat_setWidth]
  exact Nat.lt_of_le_of_lt (Nat.mod_le _ _) hx

theorem slice_lt {w n k : Nat} {m : BitVec w} (x : BitVec w) (hm : m.toNat >>> k < 2 ^ n) :
    ((x &&& m) >>> k).toNat < 2 ^ n := by
  rw [BitVec.toNat_ushiftRight, BitVec.toNat_and, Nat.shiftRight_eq_div_pow]
  rw [Nat.shiftRight_eq_div_pow] at hm
  exact Nat.lt_of_le_of_lt (Nat.div_le_div_right Nat.and_le_right) hm

theorem mask_lt {w n : Nat} {m : BitVec w} (x : BitVec w) (hm : m.toNat < 2 ^ n) : (x &&& m).toNat < 2 ^ n := by
  rw [BitVec.toNat_and]
  exact Nat.lt_of_le_of_lt Nat.and_le_right hm

theorem get_tag_lt (global_history : BitVec 64) (PC : UINT32) : (get_tag global_history PC).toNat < 256 := by
  refine setWidth_lt (n := 8) (xor_lt (xor_lt (xor_lt (xor_lt (setWidth_lt (mask_lt _ ?_)) (mask_lt _ ?_))
    (slice_lt _ ?_)) (slice_lt _ ?_)) (slice_lt _ ?_))
  all_goals decide

theorem get_index_base_lt (global_history : BitVec 64) (PC : UINT32) :
    (get_index global_history PC none).toNat < 4096 :=
  mask_lt (n := 12) _ (by decide)

theorem get_index_bank_lt (global_history : BitVec 64) (PC : UINT32) (bank : Fin 4) :
    (get_index global_history PC (some bank)).toNat < 1024 := by
  have hslice {k : Nat} (m : BitVec 64) (hm : m.toNat >>> k < 2 ^ 10) {x : UINT32} (hx : x.toNat < 2 ^ 10) :
      ((x.setWidth 64 ^^^ ((global_history &&& m) >>> k)).setWidth 32).toNat < 2 ^ 10 :=
    setWidth_lt (xor_lt (setWidth_lt hx) (slice_lt _ hm))
  have hPC : ((PC &&& 0x3FF#32) ^^^ ((PC &&& 0xFFC00#32) >>> 10)).toNat < 2 ^ 10 :=
    xor_lt (mask_lt PC (by decide)) (slice_lt PC (by decide))
  have h0 := setWidth_lt (v := 32) (xor_lt (setWidth_lt (v := 64) hPC)
    (mask_lt global_history (m := 0x3FF#64) (by decide)))
  have h1 := hslice (k := 10) 0xFFC00#64 (by decide) h0
  have h2 := hslice (k := 20) 0x3FF00000#64 (by decide) h1
  have h3 := hslice (k := 30) 0xFFC0000000#64 (by decide) h2
  unfold get_index
  dsimp only
  split
  · exact h0
  · split
    · exact h1
    · split
      · exact h2
      · exact h3

/-- Where a branch is in a bank. -/
def index (global_history : BitVec 64) (PC : UINT32) (bank : Fin 4) : Fin 1024 :=
  ⟨(get_index global_history PC (some bank)).toNat, get_index_bank_lt global_history PC bank⟩

/-- Where a branch is in the base table. -/
def base_index (global_history : BitVec 64) (PC : UINT32) : Fin 4096 :=
  ⟨(get_index global_history PC none).toNat, get_index_base_lt global_history PC⟩

/-! ## The tables -/

abbrev MAX_COUNTER_CUSTOM : Nat := 7

structure BaseEntry where
  ctr : Nat := 0
  m : Bool := false
  deriving DecidableEq

structure Entry where
  ctr : Nat := 0
  tag : UINT32 := 0
  u : Bool := false
  deriving DecidableEq

structure OpenEnd where
  global_history : BitVec 64 := 0
  X : Option (Fin 4) := none
  base : Fin 4096 → BaseEntry := fun _ => {}
  banks : Fin 4 → Fin 1024 → Entry := fun _ _ => {}

/-- `X + 1` -/
def next : Option (Fin 4) → Nat
  | none => 0
  | some X => X + 1

/-- The banks from `X + 1` to 3. -/
def above (X : Option (Fin 4)) : List (Fin 4) := (List.finRange 4).filter fun Y => next X ≤ Y

/-- `std::rand() % (3 - X) + (X + 1)` -/
def randomBank (X : Option (Fin 4)) (h : next X ≤ 3) (rand : Nat) : Fin 4 :=
  ⟨rand % (4 - next X) + next X, by
    have := Nat.mod_lt rand (show 4 - next X > 0 by omega)
    omega⟩

namespace OpenEnd

def setBase (s : OpenEnd) (k : Fin 4096) (b : BaseEntry) : OpenEnd := { s with base := Function.update s.base k b }

def setBank (s : OpenEnd) (i : Fin 4) (k : Fin 1024) (e : Entry) : OpenEnd :=
  { s with banks := Function.update s.banks i (Function.update (s.banks i) k e) }

/-- The entry of a branch in a bank. -/
def entry (s : OpenEnd) (PC : UINT32) (i : Fin 4) : Entry := s.banks i (index s.global_history PC i)

/-- The entry of a branch in the base table. -/
def baseEntry (s : OpenEnd) (PC : UINT32) : BaseEntry := s.base (base_index s.global_history PC)

/-! ## Prediction -/

def GetPrediction_openend (s : OpenEnd) (PC : UINT32) : Bool × OpenEnd :=
  match [3, 2, 1, 0].find? fun i => (s.entry PC i).tag = get_tag s.global_history PC with
  | some i => (decide (4 ≤ (s.entry PC i).ctr), { s with X := some i })
  | none => (decide (4 ≤ (s.baseEntry PC).ctr), { s with X := none })

/-! ## Update -/

/-- A 3 bit counter after an outcome. -/
def count (resolveDir : Bool) (ctr : Nat) : Nat :=
  if resolveDir then SatIncrement ctr MAX_COUNTER_CUSTOM else SatDecrement ctr

/-- Update 3 bit counter of X. -/
def train (s : OpenEnd) (PC : UINT32) (resolveDir : Bool) : OpenEnd :=
  match s.X with
  | none =>
    let b := s.baseEntry PC
    s.setBase (base_index s.global_history PC) { b with ctr := count resolveDir b.ctr }
  | some i =>
    let e := s.entry PC i
    s.setBank i (index s.global_history PC i) { e with ctr := count resolveDir e.ctr }

/-- The counter of a new entry. -/
def newCounter (s : OpenEnd) (PC : UINT32) (m resolveDir : Bool) : Nat :=
  if m then (if resolveDir then 4 else 3) else if (s.baseEntry PC).ctr ≠ 0 then 4 else 3

/-- Gives bank `Y` its new entry. -/
def place (s : OpenEnd) (PC : UINT32) (m resolveDir : Bool) (Y : Fin 4) : OpenEnd :=
  s.setBank Y (index s.global_history PC Y)
    { s.entry PC Y with tag := get_tag s.global_history PC, ctr := s.newCounter PC m resolveDir }

/-- One round of the loop over the banks, with its flag `any`. -/
def tryBank (PC : UINT32) (m resolveDir : Bool) (st : OpenEnd × Bool) (Y : Fin 4) : OpenEnd × Bool :=
  if (st.1.entry PC Y).u then st else (st.1.place PC m resolveDir Y, true)

/-- Allocate new entries. -/
def allocate (s : OpenEnd) (PC : UINT32) (m resolveDir : Bool) (rand : Nat) : OpenEnd :=
  if h : next s.X ≤ 3 then
    let (s', any) := (above s.X).foldl (tryBank PC m resolveDir) (s, false)
    if any then s' else s'.place PC m resolveDir (randomBank s.X h rand)
  else s

/-- Update u and m. -/
def mark (s : OpenEnd) (PC : UINT32) (correct : Bool) : OpenEnd :=
  match s.X with
  | none => s
  | some i =>
    (s.setBank i (index s.global_history PC i) { s.entry PC i with u := correct }).setBase
      (base_index s.global_history PC) { s.baseEntry PC with m := correct }

def UpdatePredictor_openend (s : OpenEnd) (PC : UINT32) (resolveDir predDir : Bool) (_branchTarget : UINT32)
    (rand : Nat) : OpenEnd :=
  let m := (s.baseEntry PC).m
  let trained := s.train PC resolveDir
  let filled := if resolveDir ≠ predDir then trained.allocate PC m resolveDir rand else trained
  let marked := filled.mark PC (resolveDir == predDir)
  { marked with global_history := marked.global_history <<< 1 ||| if resolveDir then 1 else 0 }

/-- The banks that get a new entry: those above `X` whose entry has `u` clear, or one at
random where there is none. -/
def allocated (s : OpenEnd) (PC : UINT32) (resolveDir predDir : Bool) (rand : Nat) : List (Fin 4) :=
  if h : resolveDir ≠ predDir ∧ next s.X ≤ 3 then
    let free := (above s.X).filter fun Y => !(s.entry PC Y).u
    if free = [] then [randomBank s.X h.2 rand] else free
  else []

/-! ## What an update does -/

section Frames
variable (s : OpenEnd) (PC : UINT32) (i : Fin 4) (k : Fin 1024) (e : Entry) (n : Fin 4096) (b : BaseEntry)

@[simp] theorem setBank_base : (s.setBank i k e).base = s.base := rfl

@[simp] theorem setBase_banks : (s.setBase n b).banks = s.banks := rfl

theorem setBank_banks (j : Fin 4) (l : Fin 1024) :
    (s.setBank i k e).banks j l = if j = i ∧ l = k then e else s.banks j l := by
  unfold setBank
  by_cases hj : j = i
  · subst hj
    by_cases hl : l = k
    · subst hl
      simp
    · simp [hl]
  · simp [hj]

theorem setBase_base (l : Fin 4096) : (s.setBase n b).base l = if l = n then b else s.base l :=
  Function.update_apply ..

@[simp] theorem train_X (d : Bool) : (s.train PC d).X = s.X := by
  unfold train
  split <;> rfl

@[simp] theorem train_global_history (d : Bool) : (s.train PC d).global_history = s.global_history := by
  unfold train
  split <;> rfl

theorem train_banks (d : Bool) :
    (s.train PC d).banks i k =
      if s.X = some i ∧ k = index s.global_history PC i
      then { s.entry PC i with ctr := count d (s.entry PC i).ctr } else s.banks i k := by
  unfold train
  split
  case h_1 hX => simp [hX]
  case h_2 j hX =>
    rw [setBank_banks, hX]
    by_cases hj : i = j
    · subst hj
      simp
    · simp [hj, Ne.symm hj]

theorem mark_banks (c : Bool) :
    (s.mark PC c).banks i k =
      if s.X = some i ∧ k = index s.global_history PC i then { s.entry PC i with u := c } else s.banks i k := by
  unfold mark
  split
  case h_1 hX => simp [hX]
  case h_2 j hX =>
    rw [setBase_banks, setBank_banks, hX]
    by_cases hj : i = j
    · subst hj
      simp
    · simp [hj, Ne.symm hj]

@[simp] theorem train_entry_u (d : Bool) : ((s.train PC d).entry PC i).u = (s.entry PC i).u := by
  rw [entry, train_banks, train_global_history]
  split <;> rfl

end Frames

/-- New entries in the banks `Ys`, all at once. -/
def fill (s : OpenEnd) (PC : UINT32) (m resolveDir : Bool) (Ys : List (Fin 4)) : OpenEnd :=
  { s with banks := fun i k =>
      if i ∈ Ys ∧ k = index s.global_history PC i
      then { s.entry PC i with tag := get_tag s.global_history PC, ctr := s.newCounter PC m resolveDir }
      else s.banks i k }

section Fill
variable (s : OpenEnd) (PC : UINT32) (m d : Bool) (Ys Zs : List (Fin 4))

@[simp] theorem fill_X : (s.fill PC m d Ys).X = s.X := rfl

@[simp] theorem fill_global_history : (s.fill PC m d Ys).global_history = s.global_history := rfl

@[simp] theorem fill_newCounter : (s.fill PC m d Ys).newCounter PC m d = s.newCounter PC m d := rfl

theorem fill_nil : s.fill PC m d [] = s := by
  simp [fill]

theorem fill_entry (i : Fin 4) :
    (s.fill PC m d Ys).entry PC i =
      if i ∈ Ys
      then { s.entry PC i with tag := get_tag s.global_history PC, ctr := s.newCounter PC m d } else s.entry PC i := by
  simp [fill, entry]

theorem fill_entry_u (i : Fin 4) : ((s.fill PC m d Ys).entry PC i).u = (s.entry PC i).u := by
  rw [fill_entry]
  split <;> rfl

theorem fill_fill : (s.fill PC m d Ys).fill PC m d Zs = s.fill PC m d (Ys ++ Zs) := by
  have hbanks (i : Fin 4) (k : Fin 1024) :
      ((s.fill PC m d Ys).fill PC m d Zs).banks i k = (s.fill PC m d (Ys ++ Zs)).banks i k := by
    by_cases hk : k = index s.global_history PC i
    · subst hk
      change (((s.fill PC m d Ys).fill PC m d Zs).entry PC i) = (s.fill PC m d (Ys ++ Zs)).entry PC i
      rw [fill_entry, fill_entry, fill_entry]
      by_cases hY : i ∈ Ys <;> by_cases hZ : i ∈ Zs <;> simp [hY, hZ]
    · simp [fill, hk]
  exact congrArg (fun b => { s with banks := b }) (funext fun i => funext fun k => hbanks i k)

theorem place_eq_fill (Y : Fin 4) : s.place PC m d Y = s.fill PC m d [Y] := by
  have hbanks (i : Fin 4) (k : Fin 1024) : (s.place PC m d Y).banks i k = (s.fill PC m d [Y]).banks i k := by
    rw [place, setBank_banks]
    by_cases hi : i = Y
    · subst hi
      simp [fill]
    · simp [fill, hi]
  exact congrArg (fun b => { s with banks := b }) (funext fun i => funext fun k => hbanks i k)

/-- The loop fills the banks whose entry has `u` clear. -/
theorem foldl_tryBank (any : Bool) :
    Ys.foldl (tryBank PC m d) (s, any) =
      (s.fill PC m d (Ys.filter fun Y => !(s.entry PC Y).u), any || Ys.any fun Y => !(s.entry PC Y).u) := by
  induction Ys generalizing s any with
  | nil => simp [fill_nil]
  | cons Y Ys ih =>
    rw [List.foldl_cons, tryBank]
    by_cases hu : (s.entry PC Y).u = true
    · rw [if_pos hu, ih]
      simp [hu]
    · rw [if_neg hu, place_eq_fill, ih, fill_fill]
      simp [hu, fill_entry_u]

/-- What the loop and the draw together do. -/
theorem allocate_eq_fill (resolveDir predDir : Bool) (rand : Nat) :
    (if resolveDir ≠ predDir then s.allocate PC m d rand else s) =
      s.fill PC m d (s.allocated PC resolveDir predDir rand) := by
  unfold allocate allocated
  by_cases hmis : resolveDir ≠ predDir
  · by_cases hX : next s.X ≤ 3
    · rw [if_pos hmis, dif_pos hX, dif_pos ⟨hmis, hX⟩, foldl_tryBank]
      dsimp only
      by_cases hfree : (above s.X).filter (fun Y => !(s.entry PC Y).u) = []
      · have hany : ((above s.X).any fun Y => !(s.entry PC Y).u) = false :=
          List.any_eq_false.2 fun Y hY => List.filter_eq_nil_iff.1 hfree Y hY
        rw [hany, hfree, fill_nil, if_pos rfl, place_eq_fill]
        rfl
      · have hany : ((above s.X).any fun Y => !(s.entry PC Y).u) = true := by
          obtain ⟨Y, hY⟩ := List.exists_mem_of_ne_nil _ hfree
          exact List.any_eq_true.2 ⟨Y, List.mem_filter.1 hY⟩
        rw [hany, if_neg hfree]
        rfl
    · rw [if_pos hmis, dif_neg hX, dif_neg fun h => hX h.2, fill_nil]
  · rw [if_neg hmis, dif_neg fun h => hmis h.1, fill_nil]

end Fill

theorem allocated_train (s : OpenEnd) (PC : UINT32) (d resolveDir predDir : Bool) (rand : Nat) :
    (s.train PC d).allocated PC resolveDir predDir rand = s.allocated PC resolveDir predDir rand := by
  unfold allocated
  simp

/-- New entries are above the chosen bank. -/
theorem mem_above_of_allocated {s : OpenEnd} {PC : UINT32} {resolveDir predDir : Bool} {rand : Nat} {Y : Fin 4}
    (h : Y ∈ s.allocated PC resolveDir predDir rand) : Y ∈ above s.X := by
  unfold allocated at h
  split at h
  case isTrue hc =>
    dsimp only at h
    split at h
    · obtain rfl := List.mem_singleton.1 h
      exact List.mem_filter.2 ⟨List.mem_finRange _, by simp [randomBank]⟩
    · exact (List.mem_filter.1 h).1
  case isFalse => cases h

theorem not_chosen_of_allocated {s : OpenEnd} {PC : UINT32} {resolveDir predDir : Bool} {rand : Nat} {Y : Fin 4}
    (h : Y ∈ s.allocated PC resolveDir predDir rand) : s.X ≠ some Y := by
  intro hX
  have := of_decide_eq_true (List.mem_filter.1 (mem_above_of_allocated h)).2
  exact absurd this (by simp [hX, next])

/-- An update trains and marks the entry of the chosen bank, gives the allocated banks
their new entries and leaves the others alone. -/
theorem update_banks (s : OpenEnd) (PC : UINT32) (resolveDir predDir : Bool) (branchTarget : UINT32) (rand : Nat)
    (i : Fin 4) (k : Fin 1024) :
    (s.UpdatePredictor_openend PC resolveDir predDir branchTarget rand).banks i k =
      if s.X = some i ∧ k = index s.global_history PC i then
        { s.entry PC i with ctr := count resolveDir (s.entry PC i).ctr, u := resolveDir == predDir }
      else if i ∈ s.allocated PC resolveDir predDir rand ∧ k = index s.global_history PC i then
        { s.entry PC i with
          tag := get_tag s.global_history PC
          ctr := (s.train PC resolveDir).newCounter PC (s.baseEntry PC).m resolveDir }
      else s.banks i k := by
  have hfill := (s.train PC resolveDir).allocate_eq_fill PC (s.baseEntry PC).m resolveDir resolveDir predDir rand
  rw [allocated_train] at hfill
  unfold UpdatePredictor_openend
  dsimp only
  rw [hfill, mark_banks, fill_entry, fill_X, fill_global_history, train_X, train_global_history]
  by_cases hk : k = index s.global_history PC i
  · subst hk
    by_cases hX : s.X = some i
    · have hnot : i ∉ s.allocated PC resolveDir predDir rand := fun h => not_chosen_of_allocated h hX
      rw [if_pos ⟨hX, rfl⟩, if_neg hnot, if_pos ⟨hX, rfl⟩, entry, train_banks, if_pos ⟨hX, by simp⟩]
    · rw [if_neg fun h => hX h.1, if_neg fun h => hX h.1]
      simp [fill, entry, train_banks, hX]
  · rw [if_neg fun h => hk h.2, if_neg fun h => hk h.2, if_neg fun h => hk h.2]
    simp [fill, train_banks, hk]

end OpenEnd

end Bpred
