import Mathlib.Data.List.Basic
import Mathlib.Data.List.Induction
import Mathlib.Logic.Function.Basic
/-!
# Two levels of tables

An event shifts one cell of a first table and trains one cell of a second, which is
chosen by the event and by what its first cell held before. A cell of the second
table is then a fold over part of the past: over the events that chose it when
they came.
-/

namespace Adaptive

/-- What an event does at the two levels. -/
structure Scheme (ε κ α μ β : Type*) where
  slot : ε → κ
  shift : ε → α → α
  entry : ε → α → μ
  train : ε → β → β

namespace Scheme

variable {ε κ α μ β : Type*} [DecidableEq κ] [DecidableEq μ] (S : Scheme ε κ α μ β) (a₀ : α) (b₀ : β)

def step (t : (κ → α) × (μ → β)) (e : ε) : (κ → α) × (μ → β) :=
  let a := t.1 (S.slot e)
  let i := S.entry e a
  (Function.update t.1 (S.slot e) (S.shift e a), Function.update t.2 i (S.train e (t.2 i)))

/-- The tables after the events of `past`. -/
def run (past : List ε) : (κ → α) × (μ → β) := past.foldl S.step (fun _ => a₀, fun _ => b₀)

/-- What the events of a slot make of its cell. -/
def history (past : List ε) (k : κ) : α := (past.filter fun e => S.slot e = k).foldl (fun a e => S.shift e a) a₀

/-- The events of `past` that chose entry `i` of the second table, by what their own slot
held when they came. -/
def chosen (past : List ε) (i : μ) : List ε :=
  (List.range past.length).filterMap fun n =>
    past[n]?.filter fun e => S.entry e (S.history a₀ (past.take n) (S.slot e)) = i

omit [DecidableEq μ] in
theorem history_concat (past : List ε) (e : ε) (k : κ) :
    S.history a₀ (past ++ [e]) k =
      if S.slot e = k then S.shift e (S.history a₀ past k) else S.history a₀ past k := by
  unfold history
  rw [List.filter_append, List.foldl_append]
  by_cases h : S.slot e = k
  · rw [if_pos h, List.filter_cons_of_pos (by simpa using h)]
    rfl
  · rw [if_neg h, List.filter_cons_of_neg (by simpa using h)]
    rfl

theorem chosen_concat (past : List ε) (e : ε) (i : μ) :
    S.chosen a₀ (past ++ [e]) i =
      S.chosen a₀ past i ++ if S.entry e (S.history a₀ past (S.slot e)) = i then [e] else [] := by
  unfold chosen
  rw [List.length_append, List.length_singleton, List.range_succ, List.filterMap_append]
  congr 1
  · -- what came before does not see the new event
    refine List.filterMap_congr fun n hn => ?_
    have hlt := List.mem_range.1 hn
    rw [List.getElem?_append_left hlt, List.take_append_of_le_length (Nat.le_of_lt hlt)]
  · rw [List.filterMap_cons, List.filterMap_nil, List.getElem?_concat_length, List.take_left]
    by_cases h : S.entry e (S.history a₀ past (S.slot e)) = i <;> simp [h, Option.filter]

/-- A cell of the first table depends on the events of its slot. -/
theorem run_fst (past : List ε) (k : κ) : (S.run a₀ b₀ past).1 k = S.history a₀ past k := by
  induction past using List.reverseRecOn with
  | nil => rfl
  | append_singleton past e ih =>
    rw [run, List.foldl_append, ← run, history_concat, ← ih]
    change Function.update (S.run a₀ b₀ past).1 (S.slot e) _ k = _
    by_cases h : S.slot e = k
    · subst h
      rw [Function.update_self, if_pos rfl]
    · rw [Function.update_of_ne (Ne.symm h), if_neg h]

/-- A cell of the second table depends on the events that chose it. -/
theorem run_snd (past : List ε) (i : μ) :
    (S.run a₀ b₀ past).2 i = (S.chosen a₀ past i).foldl (fun b e => S.train e b) b₀ := by
  induction past using List.reverseRecOn with
  | nil => rfl
  | append_singleton past e ih =>
    rw [run, List.foldl_append, ← run, chosen_concat, List.foldl_append, ← ih]
    change Function.update (S.run a₀ b₀ past).2 (S.entry e ((S.run a₀ b₀ past).1 (S.slot e))) _ i = _
    rw [run_fst]
    by_cases h : S.entry e (S.history a₀ past (S.slot e)) = i
    · subst h
      rw [Function.update_self, if_pos rfl]
      rfl
    · rw [Function.update_of_ne (Ne.symm h), if_neg h]
      rfl

end Scheme

end Adaptive
