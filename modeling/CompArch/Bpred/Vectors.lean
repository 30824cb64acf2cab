import CompArch.Bpred.Entries
/-!
# The tables as vectors

`predictor.cc` keeps its tables in vectors and the chosen bank in an `INT32`. Here a
read or a write fails when its index is past the end of the vector. On the tables of
`OpenEnd` none does.
-/

namespace Bpred

structure Vectors where
  global_history : BitVec 64 := 0
  X : Int := -1
  base : List BaseEntry := List.replicate 4096 {}
  banks : List (List Entry) := List.replicate 4 (List.replicate 1024 {})

namespace Vectors

/-! ## Reads and writes -/

def readBase (s : Vectors) (k : UINT32) : Option BaseEntry := s.base[k.toNat]?

def writeBase (s : Vectors) (k : UINT32) (b : BaseEntry) : Option Vectors :=
  if k.toNat < s.base.length then some { s with base := s.base.set k.toNat b } else none

def readBank (s : Vectors) (i : Int) (k : UINT32) : Option Entry :=
  if 0 ≤ i then s.banks[i.toNat]?.bind fun bank => bank[k.toNat]? else none

def writeBank (s : Vectors) (i : Int) (k : UINT32) (e : Entry) : Option Vectors :=
  if 0 ≤ i then s.banks[i.toNat]?.bind fun bank =>
    if k.toNat < bank.length then some { s with banks := s.banks.set i.toNat (bank.set k.toNat e) } else none
  else none

/-- The bank is a number, and any but -1, 0, 1 and 2 is read as 3. -/
def get_index (s : Vectors) (PC : UINT32) (bank : Int) : UINT32 :=
  if bank = -1 then Bpred.get_index s.global_history PC none
  else if bank = 0 then Bpred.get_index s.global_history PC (some 0)
  else if bank = 1 then Bpred.get_index s.global_history PC (some 1)
  else if bank = 2 then Bpred.get_index s.global_history PC (some 2)
  else Bpred.get_index s.global_history PC (some 3)

def get_tag (s : Vectors) (PC : UINT32) : UINT32 := Bpred.get_tag s.global_history PC

/-! ## Prediction -/

/-- The loop from bank 3 down, and what follows it. -/
def search (PC tag : UINT32) : List Int → Vectors → Option (Bool × Vectors)
  | [], s => do
    let s := { s with X := -1 }
    let b ← s.readBase (s.get_index PC (-1))
    some (decide (4 ≤ b.ctr), s)
  | i :: is, s => do
    let s := { s with X := i }
    let e ← s.readBank i (s.get_index PC i)
    if e.tag = tag then some (decide (4 ≤ e.ctr), s) else search PC tag is s

def GetPrediction_openend (s : Vectors) (PC : UINT32) : Option (Bool × Vectors) :=
  search PC (s.get_tag PC) [3, 2, 1, 0] s

/-! ## Update -/

/-- Update 3 bit counter of X. -/
def train (s : Vectors) (PC : UINT32) (resolveDir : Bool) : Option Vectors :=
  let index := s.get_index PC s.X
  if s.X = -1 then do
    let b ← s.readBase index
    s.writeBase index { b with ctr := OpenEnd.count resolveDir b.ctr }
  else do
    let e ← s.readBank s.X index
    s.writeBank s.X index { e with ctr := OpenEnd.count resolveDir e.ctr }

/-- Gives bank `Y` its new entry. -/
def place (s : Vectors) (PC : UINT32) (m resolveDir : Bool) (Y : Int) : Option Vectors := do
  let idx := s.get_index PC Y
  let e ← s.readBank Y idx
  let ctr ←
    if m then some (if resolveDir then 4 else 3)
    else (s.readBase (s.get_index PC (-1))).map fun b => if b.ctr ≠ 0 then 4 else 3
  s.writeBank Y idx { e with tag := s.get_tag PC, ctr := ctr }

/-- One round of the loop over the banks, with its flag `any`. -/
def tryBank (PC : UINT32) (m resolveDir : Bool) (st : Vectors × Bool) (Y : Int) : Option (Vectors × Bool) := do
  let e ← st.1.readBank Y (st.1.get_index PC Y)
  if e.u then some st else (st.1.place PC m resolveDir Y).map fun s => (s, true)

/-- The numbers from `X + 1` to 3. -/
def upward (X : Int) : List Int := (List.range (3 - X).toNat).map fun n => X + 1 + n

/-- Allocate new entries. -/
def allocate (s : Vectors) (PC : UINT32) (m resolveDir : Bool) (rand : Nat) : Option Vectors := do
  let (s', any) ← (upward s.X).foldlM (tryBank PC m resolveDir) (s, false)
  if any then some s' else s'.place PC m resolveDir ((rand : Int) % (3 - s.X) + (s.X + 1))

/-- Update u and m. -/
def mark (s : Vectors) (PC : UINT32) (correct : Bool) : Option Vectors :=
  if s.X = -1 then some s
  else do
    let e ← s.readBank s.X (s.get_index PC s.X)
    let s ← s.writeBank s.X (s.get_index PC s.X) { e with u := correct }
    let b ← s.readBase (s.get_index PC (-1))
    s.writeBase (s.get_index PC (-1)) { b with m := correct }

def UpdatePredictor_openend (s : Vectors) (PC : UINT32) (resolveDir predDir : Bool) (_branchTarget : UINT32)
    (rand : Nat) : Option Vectors := do
  let b ← s.readBase (s.get_index PC (-1))
  let s ← s.train PC resolveDir
  let s ← (if resolveDir ≠ predDir ∧ s.X ≤ 2 then s.allocate PC b.m resolveDir rand else some s)
  let s ← s.mark PC (resolveDir == predDir)
  some { s with global_history := s.global_history <<< 1 ||| if resolveDir then 1 else 0 }

def branch (s : Vectors) (b : CBP_TRACE_RECORD × Nat) : Option Vectors := do
  let (r, rand) := b
  let (predDir, s) ← s.GetPrediction_openend r.PC
  s.UpdatePredictor_openend r.PC r.branchTaken predDir r.branchTarget rand

def run (bs : List (CBP_TRACE_RECORD × Nat)) : Option Vectors := bs.foldlM branch {}

end Vectors

/-! ## The vectors of a predictor -/

/-- The vector of a table. It is not unfolded: an entry is read with `getElem?_vector`. -/
@[irreducible] def vector {α : Type} {n : Nat} (f : Fin n → α) : List α := List.ofFn f

section Vector
variable {α : Type} {n : Nat} (f : Fin n → α)

theorem getElem?_vector {k : Nat} (hk : k < n) : (vector f)[k]? = some (f ⟨k, hk⟩) := by
  rw [vector, List.getElem?_ofFn, dif_pos hk]

@[simp] theorem length_vector : (vector f).length = n := by
  rw [vector, List.length_ofFn]

theorem vector_const (x : α) : vector (fun _ : Fin n => x) = List.replicate n x := by
  rw [vector, List.ofFn_const]

theorem set_vector (i : Fin n) (x : α) : (vector f).set i x = vector (Function.update f i x) := by
  unfold vector
  refine List.ext_getElem (by simp) fun j hj _ => ?_
  rw [List.length_set, List.length_ofFn] at hj
  rw [List.getElem_set, List.getElem_ofFn, List.getElem_ofFn, Function.update_apply]
  by_cases h : i.val = j
  · rw [if_pos h, if_pos (Fin.ext h.symm)]
  · rw [if_neg h, if_neg fun he => h (congrArg Fin.val he).symm]

end Vector

namespace OpenEnd

def vectors (s : OpenEnd) : Vectors where
  global_history := s.global_history
  X := next s.X - 1
  base := vector s.base
  banks := vector fun i => vector (s.banks i)

theorem vectors_empty : vectors {} = {} := by
  simp only [vectors, vector_const]
  rfl

section Reads
variable (s : OpenEnd) (PC : UINT32)

@[simp] theorem vectors_get_tag : s.vectors.get_tag PC = get_tag s.global_history PC := rfl

theorem vectors_X_none (h : s.X = none) : s.vectors.X = -1 := by
  simp [vectors, h, next]

theorem vectors_X_some {i : Fin 4} (h : s.X = some i) : s.vectors.X = i := by
  simp [vectors, h, next]

@[simp] theorem vectors_get_index_base :
    s.vectors.get_index PC (-1) = get_index s.global_history PC none := rfl

@[simp] theorem vectors_get_index (i : Fin 4) :
    s.vectors.get_index PC i = get_index s.global_history PC (some i) := by
  match i with
  | 0 | 1 | 2 | 3 => rfl

theorem vectors_readBase :
    s.vectors.readBase (get_index s.global_history PC none) = some (s.baseEntry PC) :=
  getElem?_vector s.base (get_index_base_lt _ _)

theorem vectors_writeBase (b : BaseEntry) :
    s.vectors.writeBase (get_index s.global_history PC none) b =
      some (s.setBase (base_index s.global_history PC) b).vectors := by
  have hlt : (get_index s.global_history PC none).toNat < s.vectors.base.length := by
    simpa [vectors] using get_index_base_lt _ _
  rw [Vectors.writeBase, if_pos hlt]
  have hset := set_vector s.base (base_index s.global_history PC) b
  exact congrArg (fun base => some { s.vectors with base := base }) hset

theorem vectors_banks (i : Fin 4) : s.vectors.banks[i.val]? = some (vector (s.banks i)) :=
  getElem?_vector _ i.isLt

theorem vectors_readBank (i : Fin 4) :
    s.vectors.readBank i (get_index s.global_history PC (some i)) = some (s.entry PC i) := by
  rw [Vectors.readBank, if_pos (Int.natCast_nonneg _), Int.toNat_natCast, vectors_banks, Option.bind_some]
  exact getElem?_vector (s.banks i) (get_index_bank_lt _ _ i)

theorem vectors_writeBank (i : Fin 4) (e : Entry) :
    s.vectors.writeBank i (get_index s.global_history PC (some i)) e =
      some (s.setBank i (index s.global_history PC i) e).vectors := by
  have hlt : (get_index s.global_history PC (some i)).toNat < (vector (s.banks i)).length := by
    simpa using get_index_bank_lt _ _ i
  rw [Vectors.writeBank, if_pos (Int.natCast_nonneg _), Int.toNat_natCast, vectors_banks, Option.bind_some, if_pos hlt]
  have hbanks : s.vectors.banks.set i ((vector (s.banks i)).set (index s.global_history PC i) e) =
      (s.setBank i (index s.global_history PC i) e).vectors.banks := by
    simp only [vectors, set_vector, setBank]
    congr 1
    funext j
    by_cases hj : j = i
    · subst hj
      simp
    · simp [hj]
  exact congrArg (fun banks => some { s.vectors with banks := banks }) hbanks

end Reads

/-! ## Each part of the code on the vectors of a predictor -/

section Refines
variable (s : OpenEnd) (PC : UINT32)

/-- The loop leaves `X` at the bank it stops at, -1 after the last. -/
theorem vectors_search (is : List (Fin 4)) :
    Vectors.search PC (get_tag s.global_history PC) (is.map fun i => (i.val : Int)) s.vectors =
      match is.find? fun i => (s.entry PC i).tag = get_tag s.global_history PC with
      | some i => some (decide (4 ≤ (s.entry PC i).ctr), { s with X := some i }.vectors)
      | none => some (decide (4 ≤ (s.baseEntry PC).ctr), { s with X := none }.vectors) := by
  induction is generalizing s with
  | nil =>
    have hX : { s.vectors with X := -1 } = { s with X := none }.vectors := by simp [vectors, next]
    have hread := vectors_readBase { s with X := none } PC
    simp only [List.map_nil, Vectors.search, hX, vectors_get_index_base, hread, List.find?_nil]
    rfl
  | cons i is ih =>
    have hX : { s.vectors with X := (i.val : Int) } = { s with X := some i }.vectors := by simp [vectors, next]
    have hread : Vectors.readBank _ _ _ = some (s.entry PC i) := vectors_readBank { s with X := some i } PC i
    simp only [List.map_cons, Vectors.search, hX, vectors_get_index, hread, List.find?_cons]
    by_cases htag : (s.entry PC i).tag = get_tag s.global_history PC
    · simp [htag]
    · rw [Option.bind_eq_bind, Option.bind_some, if_neg htag, decide_eq_false htag]
      exact ih { s with X := some i }

theorem vectors_GetPrediction :
    s.vectors.GetPrediction_openend PC =
      some ((s.GetPrediction_openend PC).1, (s.GetPrediction_openend PC).2.vectors) := by
  refine (vectors_search s PC [3, 2, 1, 0]).trans ?_
  unfold GetPrediction_openend
  generalize List.find? _ _ = found
  cases found <;> rfl

theorem vectors_train (resolveDir : Bool) :
    s.vectors.train PC resolveDir = some (s.train PC resolveDir).vectors := by
  unfold Vectors.train train
  cases hX : s.X with
  | none =>
    have hbase := vectors_readBase s PC
    simp only [vectors_X_none s hX, if_true, vectors_get_index_base, hbase]
    exact vectors_writeBase s PC _
  | some i =>
    have hbank := vectors_readBank s PC i
    simp only [vectors_X_some s hX, vectors_get_index, hbank]
    rw [if_neg (by omega)]
    exact vectors_writeBank s PC i _

theorem vectors_place (m resolveDir : Bool) (Y : Fin 4) :
    s.vectors.place PC m resolveDir Y = some (s.place PC m resolveDir Y).vectors := by
  unfold Vectors.place place newCounter
  have hbank := vectors_readBank s PC Y
  have hbase := vectors_readBase s PC
  simp only [vectors_get_index, hbank, vectors_get_index_base, hbase, vectors_get_tag]
  cases m
  · exact vectors_writeBank s PC Y _
  · exact vectors_writeBank s PC Y _

theorem vectors_tryBanks (m resolveDir any : Bool) (Ys : List (Fin 4)) :
    (Ys.map fun Y => (Y.val : Int)).foldlM (Vectors.tryBank PC m resolveDir) (s.vectors, any) =
      some ((Ys.foldl (tryBank PC m resolveDir) (s, any)).1.vectors,
        (Ys.foldl (tryBank PC m resolveDir) (s, any)).2) := by
  induction Ys generalizing s any with
  | nil => rfl
  | cons Y Ys ih =>
    have hbank := vectors_readBank s PC Y
    have hplace := vectors_place s PC m resolveDir Y
    rw [List.map_cons, List.foldlM_cons, List.foldl_cons]
    by_cases hu : (s.entry PC Y).u = true
    · have htry : Vectors.tryBank PC m resolveDir (s.vectors, any) Y = some (s.vectors, any) := by
        simp [Vectors.tryBank, hbank, hu]
      rw [htry, tryBank, if_pos hu]
      exact ih s any
    · have htry : Vectors.tryBank PC m resolveDir (s.vectors, any) Y =
          some ((s.place PC m resolveDir Y).vectors, true) := by
        simp [Vectors.tryBank, hbank, hu, hplace]
      rw [htry, tryBank, if_neg hu]
      exact ih _ true

theorem upward_next (X : Option (Fin 4)) :
    Vectors.upward (next X - 1) = (above X).map fun Y => (Y.val : Int) := by
  match X with
  | none | some 0 | some 1 | some 2 | some 3 => decide

theorem vectors_randomBank (rand : Nat) (h : next s.X ≤ 3) :
    (rand : Int) % (3 - s.vectors.X) + (s.vectors.X + 1) = (randomBank s.X h rand).val := by
  have hX : s.vectors.X = next s.X - 1 := rfl
  have hrange : 3 - s.vectors.X = (4 - next s.X : Nat) := by omega
  rw [hrange, hX, ← Int.natCast_mod]
  change _ = ((rand % (4 - next s.X) + next s.X : Nat) : Int)
  omega

theorem vectors_allocate (m resolveDir : Bool) (rand : Nat) (h : next s.X ≤ 3) :
    s.vectors.allocate PC m resolveDir rand = some (s.allocate PC m resolveDir rand).vectors := by
  have hloop := vectors_tryBanks s PC m resolveDir false (above s.X)
  rw [← upward_next] at hloop
  unfold Vectors.allocate allocate
  rw [dif_pos h, vectors_randomBank s rand h]
  rw [show s.vectors.X = next s.X - 1 from rfl, hloop]
  generalize (above s.X).foldl _ _ = st
  obtain ⟨s', any⟩ := st
  cases any with
  | false => exact vectors_place s' PC m resolveDir _
  | true => rfl

theorem vectors_X_le_iff : s.vectors.X ≤ 2 ↔ next s.X ≤ 3 := by
  change (next s.X : Int) - 1 ≤ 2 ↔ next s.X ≤ 3
  omega

theorem vectors_fill (m resolveDir predDir : Bool) (rand : Nat) :
    (if resolveDir ≠ predDir ∧ s.vectors.X ≤ 2 then s.vectors.allocate PC m resolveDir rand else some s.vectors) =
      some (if resolveDir ≠ predDir then s.allocate PC m resolveDir rand else s).vectors := by
  have hle := vectors_X_le_iff s
  by_cases hmis : resolveDir ≠ predDir
  · rw [if_pos hmis]
    by_cases hX : next s.X ≤ 3
    · rw [if_pos ⟨hmis, hle.2 hX⟩, vectors_allocate s PC m resolveDir rand hX]
    · rw [if_neg fun h => hX (hle.1 h.2), allocate, dif_neg hX]
  · rw [if_neg hmis, if_neg fun h => hmis h.1]

theorem vectors_mark (correct : Bool) : s.vectors.mark PC correct = some (s.mark PC correct).vectors := by
  unfold Vectors.mark mark
  cases hX : s.X with
  | none => rw [if_pos (vectors_X_none s hX)]
  | some i =>
    have hbank := vectors_readBank s PC i
    have hwrite := vectors_writeBank s PC i { s.entry PC i with u := correct }
    set s' := s.setBank i (index s.global_history PC i) { s.entry PC i with u := correct }
    have hread : s'.vectors.readBase (get_index s.global_history PC none) = some (s.baseEntry PC) :=
      vectors_readBase s' PC
    rw [vectors_X_some s hX, if_neg (by omega), vectors_get_index, hbank]
    simp only [Option.bind_eq_bind, Option.bind_some, hwrite]
    rw [vectors_get_index_base]
    simp only [show s'.global_history = s.global_history from rfl, hread]
    exact vectors_writeBase s' PC _

theorem vectors_update (resolveDir predDir : Bool) (branchTarget : UINT32) (rand : Nat) :
    s.vectors.UpdatePredictor_openend PC resolveDir predDir branchTarget rand =
      some (s.UpdatePredictor_openend PC resolveDir predDir branchTarget rand).vectors := by
  unfold Vectors.UpdatePredictor_openend UpdatePredictor_openend
  simp only [vectors_get_index_base, vectors_readBase, vectors_train, Option.bind_eq_bind, Option.bind_some,
    vectors_fill, vectors_mark]
  rfl

end Refines

/-! ## Runs -/

/-- No access of a run is out of range, whatever `std::rand` gives. -/
theorem vectors_run (bs : List (CBP_TRACE_RECORD × Nat)) : Vectors.run bs = some (run bs).1.vectors := by
  induction bs using List.reverseRecOn with
  | nil => exact congrArg some vectors_empty.symm
  | append_singleton bs b ih =>
    rw [Vectors.run, List.foldlM_append]
    change (Vectors.run bs).bind _ = _
    rw [ih, run_concat]
    simp [Vectors.branch, vectors_GetPrediction, vectors_update, branch]

end OpenEnd

end Bpred
