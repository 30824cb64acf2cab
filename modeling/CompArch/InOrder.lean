import Mathlib.Data.List.Basic
import Mathlib.Data.List.Infix
import Mathlib.Tactic.IntervalCases
/-!
# In-order pipelines

Instructions decode in order, at most one a cycle. An instruction waits in
decoding until the registers it reads are ready, which is a fixed time after
their latest writer decoded. With latencies of three cycles at most, only the
last two instructions can make the next one wait.
-/

/-- What a pipeline knows of its instructions. -/
structure InOrder (ι R : Type*) where
  reads : ι → List R
  writes : ι → List R
  /-- From an instruction's decoding to the first cycle a reader of its results can decode in. -/
  latency : ι → Nat

namespace InOrder

variable {ι R : Type*} [DecidableEq R]

/-- When the latest instruction decoded, how long it waited, and from when on
each register can be read. -/
structure Board (R : Type*) where
  time : Nat := 0
  stall : Nat := 0
  ready : R → Nat := fun _ => 0

/-- The latest writer of `r`, and how many instructions came after it. The
instructions are listed from the latest on. -/
def source (writes : ι → List R) (r : R) : List ι → Option (Nat × ι)
  | [] => none
  | y :: h => if r ∈ writes y then some (0, y) else (source writes r h).map fun s => (s.1 + 1, s.2)

variable (P : InOrder ι R)

def issue (b : Board R) (x : ι) : Board R :=
  let t := max (b.time + 1) (((P.reads x).map b.ready).foldr max 0)
  { time := t, stall := t - b.time - 1, ready := fun r => if r ∈ P.writes x then t + P.latency x else b.ready r }

/-- The board after the instructions `is`, in this order. -/
def run (is : List ι) : Board R := is.foldl P.issue {}

def stallsFrom (b : Board R) : List ι → List Nat
  | [] => []
  | x :: is => (P.issue b x).stall :: stallsFrom (P.issue b x) is

/-- For each instruction, how long it waits. -/
def stalls (is : List ι) : List Nat := P.stallsFrom {} is

@[simp] theorem run_snoc (p : List ι) (x : ι) : P.run (p ++ [x]) = P.issue (P.run p) x := by
  simp [run]

theorem stallsFrom_append (b : Board R) (p q : List ι) :
    P.stallsFrom b (p ++ q) = P.stallsFrom b p ++ P.stallsFrom (p.foldl P.issue b) q := by
  induction p generalizing b with
  | nil => rfl
  | cons x p ih => simp [stallsFrom, ih]

@[simp] theorem stalls_snoc (p : List ι) (x : ι) :
    P.stalls (p ++ [x]) = P.stalls p ++ [(P.issue (P.run p) x).stall] := by
  rw [stalls, stallsFrom_append]
  rfl

/-! ## The latest writer -/

theorem issue_time (b : Board R) (x : ι) : (P.issue b x).time = b.time + 1 + (P.issue b x).stall := by
  simp only [issue]
  omega

theorem time_take (p : List ι) (k : Nat) (hk : k ≤ p.length) :
    (P.run (p.take (p.length - k))).time + k ≤ (P.run p).time := by
  induction p using List.reverseRecOn generalizing k with
  | nil =>
    obtain rfl : k = 0 := Nat.le_zero.1 hk
    simp
  | append_singleton p x ih =>
    cases k with
    | zero => simp [List.take_of_length_le]
    | succ k =>
      have hk' : k ≤ p.length := by simpa using hk
      have hlen : (p ++ [x]).length - (k + 1) = p.length - k := by simp
      rw [hlen, List.take_append_of_le_length (Nat.sub_le ..), run_snoc, issue_time]
      have := ih k hk'
      omega

omit P in
theorem source_lt {writes : ι → List R} {r : R} {h : List ι} {k : Nat} {w : ι}
    (hs : source writes r h = some (k, w)) : k < h.length := by
  induction h generalizing k with
  | nil => cases hs
  | cons y h ih =>
    unfold source at hs
    split at hs
    case isTrue =>
      cases hs
      simp
    case isFalse =>
      obtain ⟨⟨j, w'⟩, hj, he⟩ := Option.map_eq_some_iff.1 hs
      cases he
      have := ih hj
      simpa using this

/-- A register is ready the latency of its latest writer after this has decoded. -/
theorem ready_eq (p : List ι) (r : R) : (P.run p).ready r =
    match source P.writes r p.reverse with
    | none => 0
    | some (k, w) => (P.run (p.take (p.length - k))).time + P.latency w := by
  induction p using List.reverseRecOn with
  | nil => rfl
  | append_singleton p y ih =>
    rw [run_snoc, List.reverse_concat, source]
    by_cases hw : r ∈ P.writes y
    · simp [issue, hw, List.take_of_length_le]
    · have hr : (P.issue (P.run p) y).ready r = (P.run p).ready r := by simp [issue, hw]
      rw [hr, ih, if_neg hw]
      cases hs : source P.writes r p.reverse with
      | none => rfl
      | some s =>
        obtain ⟨k, w⟩ := s
        have hk : (p ++ [y]).length - (k + 1) = p.length - k := by simp
        simp only [Option.map_some, hk]
        rw [List.take_append_of_le_length (Nat.sub_le ..)]

/-! ## Which instructions wait -/

theorem le_foldr_max {c : Nat} (hc : 0 < c) (l : List Nat) : c ≤ l.foldr max 0 ↔ ∃ a ∈ l, c ≤ a := by
  induction l with
  | nil => simp; omega
  | cons a l ih => simp [ih]

theorem le_stall_iff (b : Board R) (x : ι) {c : Nat} (hc : 0 < c) :
    c ≤ (P.issue b x).stall ↔ ∃ r ∈ P.reads x, b.time + 1 + c ≤ b.ready r := by
  have h := le_foldr_max (c := b.time + 1 + c) (by omega) ((P.reads x).map b.ready)
  simp only [List.mem_map, exists_exists_and_eq_and] at h
  rw [← h]
  simp only [issue]
  omega

/-- A register holds the next instruction up for `c` cycles if one of the last
two instructions is its latest writer and slow enough. -/
theorem le_ready_iff (hlat : ∀ w, P.latency w ≤ 3) (p : List ι) (r : R) {c : Nat} (hc : 0 < c) :
    (P.run p).time + 1 + c ≤ (P.run p).ready r ↔
      ∃ w, (source P.writes r p.reverse = some (0, w) ∧ c + 1 ≤ P.latency w) ∨
        (source P.writes r p.reverse = some (1, w) ∧ c + 2 + (P.run p).stall ≤ P.latency w) := by
  rw [ready_eq]
  cases hs : source P.writes r p.reverse with
  | none => simp
  | some s =>
    obtain ⟨k, w⟩ := s
    have hk := source_lt hs
    rw [List.length_reverse] at hk
    have ht := P.time_take p k hk.le
    have hw := hlat w
    rcases k with _ | _ | k
    · simp only [Nat.sub_zero, List.take_length]
      constructor
      · intro h
        exact ⟨w, .inl ⟨rfl, by omega⟩⟩
      · rintro ⟨w', ⟨he, h⟩ | ⟨he, -⟩⟩
        · cases he
          omega
        · cases he
    · obtain rfl | ⟨q, y, rfl⟩ := List.eq_nil_or_concat p
      · cases hk
      have hq : (q ++ [y]).take ((q ++ [y]).length - (0 + 1)) = q := by simp
      simp only [List.concat_eq_append, hq, run_snoc, issue_time]
      constructor
      · intro h
        exact ⟨w, .inr ⟨rfl, by omega⟩⟩
      · rintro ⟨w', ⟨he, -⟩ | ⟨he, h⟩⟩
        · cases he
        · cases he
          omega
    · simp only
      constructor
      · intro h
        omega
      · rintro ⟨w', ⟨he, -⟩ | ⟨he, -⟩⟩ <;> cases he

/-- How long the instruction after `p` waits, by what the last two instructions write. -/
theorem le_stall_snoc (hlat : ∀ w, P.latency w ≤ 3) (p : List ι) (x : ι) {c : Nat} (hc : 0 < c) :
    c ≤ (P.issue (P.run p) x).stall ↔ ∃ r ∈ P.reads x, ∃ w,
      (source P.writes r p.reverse = some (0, w) ∧ c + 1 ≤ P.latency w) ∨
        (source P.writes r p.reverse = some (1, w) ∧ c + 2 + (P.run p).stall ≤ P.latency w) := by
  rw [le_stall_iff P _ x hc]
  exact exists_congr fun r => and_congr_right fun _ => P.le_ready_iff hlat p r hc

theorem stall_le (hlat : ∀ w, P.latency w ≤ 3) (p : List ι) (x : ι) : (P.issue (P.run p) x).stall ≤ 2 := by
  by_contra h
  obtain ⟨r, -, w, ⟨-, hw⟩ | ⟨-, hw⟩⟩ := (P.le_stall_snoc hlat p x (c := 3) (by omega)).1 (by omega)
  all_goals
    have := hlat w
    omega

/-- The time is one cycle for each instruction and the stalls. -/
theorem time_eq (hlat : ∀ w, P.latency w ≤ 3) (p : List ι) :
    (P.run p).time = p.length + (P.stalls p).count 1 + 2 * (P.stalls p).count 2 := by
  induction p using List.reverseRecOn with
  | nil => rfl
  | append_singleton p x ih =>
    have hx := P.stall_le hlat p x
    rw [run_snoc, issue_time, ih, stalls_snoc, List.length_append, List.count_append, List.count_append]
    generalize (P.issue (P.run p) x).stall = m at hx
    interval_cases m <;> simp <;> omega

end InOrder
