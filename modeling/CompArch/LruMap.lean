import Mathlib.Data.Finset.Card
import Mathlib.Data.List.Nodup
/-!
# Bounded maps that forget what was written least recently

The entries are a list, the most recent first. A write moves its key to the front,
and the list keeps the first `n` entries.
-/

namespace LruMap

variable {κ ν : Type*} [DecidableEq κ] {n : Nat} {k k' : κ} {v v' : ν} {l : List (κ × ν)} {ws : Finset κ}

def put (n : Nat) (k : κ) (v : ν) (l : List (κ × ν)) : List (κ × ν) := ((k, v) :: l.filter (·.1 ≠ k)).take n

/-- The value that was written last. -/
def get (l : List (κ × ν)) (k : κ) : Option ν := (l.find? (·.1 = k)).map Prod.snd

theorem get_eq_none (h : ∀ e ∈ l, e.1 ≠ k) : get l k = none := by
  rw [get, List.find?_eq_none.2 fun e he hk => h e he (of_decide_eq_true hk)]
  rfl

theorem get_of_mem (h : (k, v) ∈ l) (hu : ∀ e ∈ l, e.1 = k → e.2 = v) : get l k = some v := by
  cases hf : l.find? (·.1 = k) with
  | none => exact absurd (decide_eq_true rfl) (List.find?_eq_none.1 hf _ h)
  | some e =>
    have he := List.find?_some hf
    rw [get, hf, Option.map_some, hu e (List.mem_of_find?_eq_some hf) (of_decide_eq_true he)]

/-- Nothing but keys of `ws` is in front of the entry of `k`. -/
def Behind (ws : Finset κ) (k : κ) (v : ν) (l : List (κ × ν)) : Prop :=
  ∃ xs ys, l = xs ++ (k, v) :: ys ∧ (xs.map Prod.fst).Nodup ∧ ∀ x ∈ xs, x.1 ∈ ws ∧ x.1 ≠ k

theorem Behind.get (h : Behind ws k v l) : get l k = some v := by
  obtain ⟨xs, ys, rfl, -, hxs⟩ := h
  have hnone : xs.find? (·.1 = k) = none := by
    rw [List.find?_eq_none]
    intro x hx he
    exact (hxs x hx).2 (of_decide_eq_true he)
  rw [LruMap.get, List.find?_append, hnone, Option.none_or, List.find?_cons_of_pos (by simp)]
  rfl

theorem behind_put (hn : 0 < n) (k : κ) (v : ν) (l : List (κ × ν)) : Behind ∅ k v (put n k v l) := by
  obtain ⟨m, rfl⟩ := Nat.exists_eq_add_of_lt hn
  exact ⟨[], (l.filter (·.1 ≠ k)).take m, by simp [put], List.nodup_nil, fun x hx => (List.not_mem_nil hx).elim⟩

/-- A write of another key, while there is room. -/
theorem Behind.put (h : Behind ws k v l) (hk : k' ≠ k) (hn : (insert k' ws).card < n) (v' : ν) :
    Behind (insert k' ws) k v (put n k' v' l) := by
  obtain ⟨xs, ys, rfl, hnodup, hxs⟩ := h
  have hkeys (x : κ × ν) (hx : x ∈ xs.filter (·.1 ≠ k')) : x.1 ∈ ws ∧ x.1 ≠ k ∧ x.1 ≠ k' := by
    obtain ⟨hx, he⟩ := List.mem_filter.1 hx
    exact ⟨(hxs x hx).1, (hxs x hx).2, of_decide_eq_true he⟩
  have hnd : (k' :: (xs.filter (·.1 ≠ k')).map Prod.fst).Nodup := by
    refine List.nodup_cons.2 ⟨fun hm => ?_, hnodup.sublist (List.filter_sublist.map _)⟩
    obtain ⟨x, hx, he⟩ := List.mem_map.1 hm
    exact (hkeys x hx).2.2 he
  -- the keys in front are different keys of `ws` and `k'`
  have hlen : (xs.filter (·.1 ≠ k')).length + 1 ≤ (insert k' ws).card := by
    have hcard := List.toFinset_card_of_nodup hnd
    rw [List.length_cons, List.length_map] at hcard
    rw [← hcard]
    refine Finset.card_le_card fun a ha => ?_
    rcases List.mem_cons.1 (List.mem_toFinset.1 ha) with rfl | ha
    · exact Finset.mem_insert_self ..
    · obtain ⟨x, hx, rfl⟩ := List.mem_map.1 ha
      exact Finset.mem_insert_of_mem (hkeys x hx).1
  obtain ⟨m, hm⟩ : ∃ m, n = (xs.filter (·.1 ≠ k')).length + 1 + (m + 1) := Nat.exists_eq_add_of_lt (by omega)
  refine ⟨(k', v') :: xs.filter (·.1 ≠ k'), (ys.filter (·.1 ≠ k')).take m, ?_, hnd, ?_⟩
  · have hkeep : ((k, v) :: ys).filter (·.1 ≠ k') = (k, v) :: ys.filter (·.1 ≠ k') :=
      List.filter_cons_of_pos (by simpa using hk.symm)
    rw [LruMap.put, List.filter_append, hkeep, ← List.cons_append, List.take_append, hm, List.length_cons,
      Nat.add_sub_cancel_left, List.take_succ_cons, List.take_of_length_le (by simp)]
  · intro x hx
    rcases List.mem_cons.1 hx with rfl | hx
    · exact ⟨Finset.mem_insert_self .., hk⟩
    · exact ⟨Finset.mem_insert_of_mem (hkeys x hx).1, (hkeys x hx).2.1⟩

omit [DecidableEq κ] in
theorem Behind.mono {ws' : Finset κ} (h : Behind ws k v l) (hws : ws ⊆ ws') : Behind ws' k v l := by
  obtain ⟨xs, ys, hl, hnodup, hxs⟩ := h
  exact ⟨xs, ys, hl, hnodup, fun x hx => ⟨hws (hxs x hx).1, (hxs x hx).2⟩⟩

/-- An entry stays while fewer than `n` other keys are written, and its own writes do not change it. -/
theorem Behind.puts {ε : Type*} (key : ε → κ) (val : List (κ × ν) → ε → ν) {es : List ε} (h : Behind ws k v l)
    (hval : ∀ e ∈ es, key e = k → ∀ l, LruMap.get l k = some v → val l e = v)
    (hn : (ws ∪ ((es.map key).filter (· ≠ k)).toFinset).card < n) :
    LruMap.get (es.foldl (fun l e => LruMap.put n (key e) (val l e) l) l) k = some v := by
  induction es generalizing ws l with
  | nil => exact h.get
  | cons e es ih =>
    have hval' := fun e' he => hval e' (List.mem_cons_of_mem e he)
    by_cases hk : key e = k
    · have hput := behind_put (Nat.zero_lt_of_lt hn) k v l
      have hcons : (((e :: es).map key).filter (· ≠ k)) = (es.map key).filter (· ≠ k) := by
        rw [List.map_cons, List.filter_cons_of_neg (by simpa using hk)]
      rw [hcons] at hn
      rw [List.foldl_cons, hval e (List.mem_cons_self ..) hk l h.get, hk]
      exact ih (hput.mono (Finset.empty_subset ws)) hval' hn
    · have hunion : ws ∪ (((e :: es).map key).filter (· ≠ k)).toFinset =
          insert (key e) ws ∪ ((es.map key).filter (· ≠ k)).toFinset := by
        rw [List.map_cons, List.filter_cons_of_pos (by simpa using hk), List.toFinset_cons, Finset.union_insert,
          Finset.insert_union]
      rw [hunion] at hn
      have hcard : (insert (key e) ws).card < n := Nat.lt_of_le_of_lt (Finset.card_le_card Finset.subset_union_left) hn
      exact ih (h.put hk hcard (val l e)) hval' hn

end LruMap
