import CompArch.Branch.Predictor
import CompArch.Linked
import CompArch.LruMap
import CompArch.Outcome
/-!
# A set of the branch target buffer

A set is a map from branches to targets that forgets the branch which was entered least
recently. Address 0 marks the entries that are not used.
-/

namespace Branch

open Function Linked LruMap Outcome Pisa

variable {n : Nat} {s s' : BtbSet n} {xs : List (Fin n)} {i : Fin n} {baddr btarget : Addr}

/-! ## The list of a set -/

namespace BtbSet

def dll (s : BtbSet n) (xs : List (Fin n)) : Dll (Fin n) := ⟨xs.head?, xs.getLast?, s.next, s.prev⟩

/-- The links of a set are the list `xs`, from the entry used last to the one used least recently. -/
structure Linked (s : BtbSet n) (xs : List (Fin n)) : Prop where
  rep : (s.dll xs).Rep xs
  perm : xs.Perm (List.finRange n)

theorem Linked.mem (h : s.Linked xs) (i : Fin n) : i ∈ xs := h.perm.mem_iff.2 (List.mem_finRange i)

theorem Linked.length (h : s.Linked xs) : xs.length = n := h.perm.length_eq.trans (List.length_finRange ..)

theorem Linked.prev (h : s.Linked xs) (i : Fin n) : s.prev i = none ↔ xs.head? = some i := h.rep.prev_eq_none (h.mem i)

theorem Linked.next (h : s.Linked xs) (i : Fin n) : s.next i = none ↔ xs.getLast? = some i :=
  h.rep.next_eq_none (h.mem i)

theorem linked_created (n : Nat) : (BtbSet.created n).Linked (List.finRange n) := by
  refine ⟨Dll.Rep.of_links (List.nodup_finRange n) rfl rfl fun ys x zs hxs => ?_, .refl _⟩
  have hget (j : Nat) : (ys ++ x :: zs)[j]? = if h : j < n then some ⟨j, h⟩ else none := by
    rw [← hxs]
    split
    case isTrue h => simp [h]
    case isFalse h => simp [h]
  have hx : x.val = ys.length := by
    have hlen := hget ys.length
    rw [List.getElem?_append_right (Nat.le_refl _), Nat.sub_self] at hlen
    split at hlen
    · rw [Option.some.inj hlen]
    · cases hlen
  constructor
  · show (if 0 < x.val then some _ else none) = ys.getLast?
    rw [List.getLast?_eq_getElem?]
    split
    case isTrue hpos =>
      have hlt := x.isLt
      have hlast := hget (ys.length - 1)
      rw [List.getElem?_append_left (by omega), dif_pos (by omega)] at hlast
      rw [hlast]
      exact congrArg some (Fin.ext (congrArg (· - 1) hx))
    case isFalse hpos =>
      have hnil : ys.length = 0 := by omega
      rw [List.eq_nil_of_length_eq_zero hnil]
      rfl
  · have hhead := hget (ys.length + 1)
    rw [List.getElem?_append_right (by omega), Nat.add_sub_cancel_left, List.getElem?_cons_succ] at hhead
    rw [List.head?_eq_getElem?, hhead]
    show (if h : x.val + 1 < n then some _ else none) = _
    simp only [hx]

theorem find?_unique {α : Type} {P : α → Bool} {l : List α} {a : α} (ha : a ∈ l) (hP : P a)
    (hu : ∀ b, P b → b = a) : l.find? P = some a := by
  cases hf : l.find? P with
  | none => exact absurd hP (List.find?_eq_none.1 hf a ha)
  | some b => rw [hu b (List.find?_some hf)]

/-! ## The loop over a set -/

/-- At most one entry is for the address. -/
def Unique (s : BtbSet n) (baddr : Addr) : Prop := ∀ i j, s.addr i = baddr → s.addr j = baddr → i = j

theorem first_eq {wanted : Prop} [Decidable wanted] {found : Option (Fin n)} (h : wanted → found = none) :
    first wanted i found = .ok (found.or (if wanted then some i else none)) := by
  unfold first
  by_cases hw : wanted
  · rw [if_pos hw, if_pos hw, h hw]
    rfl
  · rw [if_neg hw, if_neg hw, Option.or_none]

theorem dassert_true {a : Prop} [Decidable a] (h : a) : dassert a = .ok () := by
  rw [decide_eq_true h]
  rfl

/-- The loop finds the entry for the address and the two ends of the list, if only one entry each matches. -/
theorem scan_eq (hu : s.Unique baddr) (hlinks : ∀ i, s.prev i ≠ s.next i)
    (hhead : ∀ i j, s.prev i = none → s.prev j = none → i = j)
    (htail : ∀ i j, s.next i = none → s.next j = none → i = j)
    {is : List (Fin n)} (hn : is.Nodup) {r : Scan n} (hr : ∀ i ∈ is, (s.addr i = baddr → r.pbtb = none) ∧
      (s.prev i = none → r.lruhead = none) ∧ (s.next i = none → r.lruitem = none)) :
    s.scan baddr is r = .ok {
      pbtb := r.pbtb.or (is.find? fun i => s.addr i = baddr)
      lruhead := r.lruhead.or (is.find? fun i => s.prev i = none)
      lruitem := r.lruitem.or (is.find? fun i => s.next i = none) } := by
  induction is generalizing r with
  | nil => simp [scan]
  | cons i is ih =>
    obtain ⟨hi, hn⟩ := List.nodup_cons.1 hn
    obtain ⟨hp, hh, ht⟩ := hr i (List.mem_cons_self ..)
    rw [scan, first_eq hp, dassert_true (hlinks i), first_eq hh, first_eq ht]
    refine (ih hn fun j hj => ?_).trans ?_
    · -- a second match would be the same entry
      obtain ⟨hpj, hhj, htj⟩ := hr j (List.mem_cons_of_mem _ hj)
      have hij : i ≠ j := fun he => hi (he ▸ hj)
      refine ⟨fun hj => ?_, fun hj => ?_, fun hj => ?_⟩
      · rw [hpj hj, if_neg fun h => hij (hu i j h hj)]
        rfl
      · rw [hhj hj, if_neg fun h => hij (hhead i j h hj)]
        rfl
      · rw [htj hj, if_neg fun h => hij (htail i j h hj)]
        rfl
    · have hfind (P : Fin n → Prop) [DecidablePred P] (found : Option (Fin n)) :
          (found.or (if P i then some i else none)).or (is.find? fun i => P i) =
            found.or ((i :: is).find? fun i => P i) := by
        rw [Option.or_assoc]
        by_cases hP : P i
        · rw [if_pos hP, List.find?_cons_of_pos (by simpa using hP)]
          rfl
        · rw [if_neg hP, List.find?_cons_of_neg (by simpa using hP)]
          rfl
      rw [hfind fun i => s.addr i = baddr, hfind fun i => s.prev i = none, hfind fun i => s.next i = none]

/-! ## The entry that is updated -/

/-- An entry that is not the first one is spliced out and put in front. -/
theorem Linked.toHead (h : s.Linked xs) {head : Fin n} (hhead : xs.head? = some head) (hi : head ≠ i) :
    (s.toHead i head).Linked (i :: xs.erase i) := by
  have hrep := h.rep.toFront (h.mem i)
  obtain ⟨y, hy⟩ : ∃ y, s.prev i = some y := by
    cases hp : s.prev i with
    | none => exact absurd (Option.some.inj (hhead.symm.trans ((h.prev i).1 hp))) hi
    | some y => exact ⟨y, rfl⟩
  have hyi : y ≠ i := by
    rintro rfl
    obtain ⟨ys, zs, hxs⟩ := List.append_of_mem (h.mem y)
    have hr := h.rep
    rw [hxs] at hr
    have hlast : ys.getLast? = some y := hr.links.1.symm.trans hy
    exact (List.nodup_append.1 hr.1).2.2 y (List.mem_of_getLast? hlast) y (List.mem_cons_self ..) rfl
  have hnext : update s.next y (s.next i) i = s.next i := update_of_ne hyi.symm ..
  have heq : (s.toHead i head).dll (i :: xs.erase i) = ((s.dll xs).unlink i).pushFront i := by
    refine (Dll.mk.injEq ..).mpr ⟨rfl, hrep.tail_eq.symm, ?_, ?_⟩
    · simp only [BtbSet.toHead, Dll.unlink, dll, hy, hnext, hhead]
      cases s.next i <;> rfl
    · simp only [BtbSet.toHead, Dll.unlink, dll, hy, hnext, hhead]
      cases s.next i <;> rfl
  exact ⟨heq ▸ hrep, (List.perm_cons_erase (h.mem i)).symm.trans h.perm⟩

theorem Unique.find_eq (hu : s.Unique baddr) (ha : s.addr i = baddr) : s.find baddr = some i :=
  find?_unique (List.mem_finRange i) (decide_eq_true ha) fun j hj => hu j i (of_decide_eq_true hj) ha

theorem find_eq_none : s.find baddr = none ↔ ∀ i, s.addr i ≠ baddr := by
  simp [BtbSet.find]

theorem addr_of_find (h : s.find baddr = some i) : s.addr i = baddr := by
  have ht := List.find?_some h
  exact of_decide_eq_true ht

theorem toHead_fields (s : BtbSet n) (i head : Fin n) :
    (s.toHead i head).addr = s.addr ∧ (s.toHead i head).target = s.target := by
  unfold BtbSet.toHead
  dsimp only
  split <;> split <;> exact ⟨rfl, rfl⟩

/-- What `select` returns: the entry for the address, or else the one used least recently, which is now the first. -/
structure Selected (s : BtbSet n) (xs : List (Fin n)) (baddr : Addr) (i : Fin n) (s' : BtbSet n) : Prop where
  found : (s.find baddr).or xs.getLast? = some i
  linked : s'.Linked (i :: xs.erase i)
  addr : s'.addr = s.addr
  target : s'.target = s.target

/-- The two ends of an entry's links are different, if there is more than one entry. -/
theorem Linked.prev_ne_next (h : s.Linked xs) (hn : 1 < n) (i : Fin n) : s.prev i ≠ s.next i := by
  obtain ⟨ys, zs, rfl⟩ := List.append_of_mem (h.mem i)
  obtain ⟨hprev, hnext⟩ := h.rep.links
  have hp : s.prev i = ys.getLast? := hprev
  have hx : s.next i = zs.head? := hnext
  rw [hp, hx]
  intro he
  cases hy : ys.getLast? with
  | none =>
    have hz := he.symm.trans hy
    rw [List.getLast?_eq_none_iff] at hy
    rw [List.head?_eq_none_iff] at hz
    have hlen := h.length
    rw [hy, hz] at hlen
    exact Nat.ne_of_lt hn hlen
  | some y =>
    have hdisjoint := (List.nodup_append.1 h.rep.1).2.2
    have hz := List.mem_of_head? (he.symm.trans hy)
    exact hdisjoint y (List.mem_of_getLast? hy) y (List.mem_cons_of_mem i hz) rfl

theorem Linked.exists_ends (h : s.Linked xs) (hn : 0 < n) :
    ∃ head last, xs.head? = some head ∧ xs.getLast? = some last := by
  have hne : xs ≠ [] := by
    rintro rfl
    exact Nat.ne_of_lt hn h.length
  exact ⟨xs.head hne, xs.getLast hne, List.head?_eq_some_head hne, List.getLast?_eq_some_getLast hne⟩

/-- No assertion fails while an entry is selected. -/
theorem Linked.select (h : s.Linked xs) (hn : 0 < n) (hu : s.Unique baddr) :
    ∃ i s', s.select baddr = .ok (i, s') ∧ Selected s xs baddr i s' := by
  obtain ⟨head, last, hhead, hlast⟩ := h.exists_ends hn
  obtain ⟨i, hi⟩ : ∃ i, (s.find baddr).or xs.getLast? = some i := by
    rw [hlast]
    cases s.find baddr with
    | none => exact ⟨last, rfl⟩
    | some i => exact ⟨i, rfl⟩
  by_cases hone : 1 < n
  · have hfirst (j : Fin n) (hj : s.prev j = none) : j = head :=
      Option.some.inj (((h.prev j).1 hj).symm.trans hhead)
    have hfinal (j : Fin n) (hj : s.next j = none) : j = last :=
      Option.some.inj (((h.next j).1 hj).symm.trans hlast)
    have hprev : (List.finRange n).find? (fun i => s.prev i = none) = some head :=
      find?_unique (List.mem_finRange head) (decide_eq_true ((h.prev head).2 hhead)) fun j hj =>
        hfirst j (of_decide_eq_true hj)
    have hnext : (List.finRange n).find? (fun i => s.next i = none) = some last :=
      find?_unique (List.mem_finRange last) (decide_eq_true ((h.next last).2 hlast)) fun j hj =>
        hfinal j (of_decide_eq_true hj)
    have hscan := scan_eq (r := {}) hu (h.prev_ne_next hone) (fun i j hi hj => (hfirst i hi).trans (hfirst j hj).symm)
      (fun i j hi hj => (hfinal i hi).trans (hfinal j hj).symm) (List.nodup_finRange n)
      fun _ _ => ⟨fun _ => rfl, fun _ => rfl, fun _ => rfl⟩
    rw [hprev, hnext] at hscan
    have hentry : notNull ((s.find baddr).or (some last)) = .ok i := by
      rw [← hlast, hi]
      rfl
    unfold BtbSet.select
    rw [if_pos hone, hscan]
    by_cases hfirst : head = i
    · refine ⟨i, s, ?_, hi, ?_, rfl, rfl⟩
      · show (notNull ((s.find baddr).or (some last)) >>= _) = _
        rw [hentry]
        exact if_pos (congrArg some hfirst)
      · obtain ⟨tl, rfl⟩ : ∃ tl, xs = i :: tl := by
          cases xs with
          | nil => cases hhead
          | cons x tl => exact ⟨tl, by rw [← hfirst, Option.some.inj hhead]⟩
        rw [List.erase_cons_head]
        exact h
    · obtain ⟨haddr, htarget⟩ := toHead_fields s i head
      have hlinked := h.toHead hhead hfirst
      have hne := hlinked.prev_ne_next hone i
      have hsome : (s.toHead i head).prev i ≠ none ∨ (s.toHead i head).next i ≠ none := by
        by_contra hnone
        rw [not_or, not_not, not_not] at hnone
        exact hne (hnone.1.trans hnone.2.symm)
      refine ⟨i, s.toHead i head, ?_, hi, hlinked, haddr, htarget⟩
      show (notNull ((s.find baddr).or (some last)) >>= _) = _
      rw [hentry]
      refine (if_neg fun he => hfirst (Option.some.inj he)).trans ?_
      show (dassert _ >>= _) = _
      rw [dassert_true hsome]
      show (dassert _ >>= _) = _
      rw [dassert_true hne]
      rfl
  · -- a set of one entry has no list
    have hn1 : n = 1 := by omega
    subst hn1
    obtain rfl : i = 0 := Subsingleton.elim ..
    unfold BtbSet.select
    rw [if_neg hone]
    refine ⟨0, s, rfl, hi, ?_, rfl, rfl⟩
    obtain ⟨x, rfl⟩ := List.length_eq_one_iff.1 h.length
    obtain rfl : x = 0 := Subsingleton.elim ..
    exact h

/-! ## The set as a map -/

/-- The entry as a pair, if it is used. -/
def entry (s : BtbSet n) (i : Fin n) : Option (Addr × Addr) :=
  if s.addr i = 0 then none else some (s.addr i, s.target i)

/-- The list from the entry used last. -/
def order (s : BtbSet n) : List (Fin n) :=
  (collect s.next n ((List.finRange n).find? fun i => s.prev i = none)).getD []

def contents (s : BtbSet n) : List (Addr × Addr) := s.order.filterMap s.entry

theorem Linked.order (h : s.Linked xs) : s.order = xs := by
  have hhead : (List.finRange n).find? (fun i => s.prev i = none) = xs.head? := by
    cases hx : xs.head? with
    | none =>
      rw [List.find?_eq_none]
      intro i _ hp
      rw [(h.prev i).1 (of_decide_eq_true hp)] at hx
      cases hx
    | some x =>
      exact find?_unique (List.mem_finRange x) (decide_eq_true ((h.prev x).2 hx)) fun j hj =>
        Option.some.inj (((h.prev j).1 (of_decide_eq_true hj)).symm.trans hx)
  rw [BtbSet.order, hhead]
  have hcollect := collect_eq h.rep.2.forward (Nat.le_of_eq h.length)
  exact congrArg (·.getD []) hcollect

/-- A set in order: no two entries are for one branch, and those that are not used come last. -/
structure Ordered (s : BtbSet n) (xs : List (Fin n)) : Prop extends s.Linked xs where
  unique (i j : Fin n) : s.addr i = s.addr j → s.addr i ≠ 0 → i = j
  packed : xs.Pairwise fun i j => s.addr j ≠ 0 → s.addr i ≠ 0

theorem Ordered.uniq (h : s.Ordered xs) (hb : baddr ≠ 0) : s.Unique baddr := fun i j hi hj =>
  h.unique i j (hi.trans hj.symm) (hi ▸ hb)

theorem ordered_created (n : Nat) : (BtbSet.created n).Ordered (List.finRange n) where
  toLinked := linked_created n
  unique _ _ _ h := absurd rfl h
  packed := List.pairwise_of_forall fun _ _ h => h

theorem mem_entries {e : Addr × Addr} : e ∈ xs.filterMap s.entry ↔
    ∃ i ∈ xs, s.addr i ≠ 0 ∧ e = (s.addr i, s.target i) := by
  rw [List.mem_filterMap]
  refine exists_congr fun i => and_congr_right fun _ => ?_
  unfold entry
  split
  case isTrue h => simp [h]
  case isFalse h =>
    rw [Option.some_inj, eq_comm]
    exact (and_iff_right h).symm

/-- A lookup in the set is one in the map. -/
theorem Ordered.get (h : s.Ordered xs) (hb : baddr ≠ 0) : get s.contents baddr = (s.find baddr).map s.target := by
  rw [contents, h.order]
  cases hf : s.find baddr with
  | none =>
    refine get_eq_none fun e he => ?_
    obtain ⟨i, -, -, rfl⟩ := mem_entries.1 he
    exact find_eq_none.1 hf i
  | some i =>
    have ha := addr_of_find hf
    refine get_of_mem (mem_entries.2 ⟨i, h.mem i, ha ▸ hb, by rw [ha]⟩) fun e he hk => ?_
    obtain ⟨j, -, -, rfl⟩ := mem_entries.1 he
    rw [h.uniq hb j i hk ha]

/-! ## The update as a write -/

/-- The target after an update. -/
def newTarget (l : List (Addr × Addr)) (baddr btarget : Addr) (correct : Bool) : Addr :=
  if correct then (LruMap.get l baddr).getD btarget else btarget

theorem write_eq (s : BtbSet n) (i : Fin n) (baddr btarget : Addr) (correct : Bool) :
    s.write i baddr btarget correct =
      { s with
        addr := update s.addr i baddr
        target := update s.target i (if s.addr i = baddr ∧ correct then s.target i else btarget) } := by
  unfold write
  by_cases ha : s.addr i = baddr
  · rw [if_pos ha, ← ha, update_eq_self]
    cases correct with
    | true => simp
    | false => simp
  · rw [if_neg ha, if_neg fun h => ha h.1]

theorem filter_entries_of_ne (hne : ∀ i ∈ xs, s.addr i ≠ baddr) :
    (xs.filterMap s.entry).filter (·.1 ≠ baddr) = xs.filterMap s.entry := by
  rw [List.filter_eq_self]
  intro e he
  obtain ⟨i, hi, -, rfl⟩ := mem_entries.1 he
  exact decide_eq_true (hne i hi)

/-- A hit is for an entry that matches; a miss takes the last entry of the list. -/
theorem Selected.cases (h : Selected s xs baddr i s') :
    s.addr i = baddr ∨ (∀ j, s.addr j ≠ baddr) ∧ ∃ ys, xs = ys ++ [i] := by
  have hentry := h.found
  cases hf : s.find baddr with
  | some j =>
    rw [hf] at hentry
    exact .inl (Option.some.inj hentry ▸ addr_of_find hf)
  | none =>
    rw [hf] at hentry
    exact .inr ⟨find_eq_none.1 hf, List.getLast?_eq_some_iff.1 hentry⟩

theorem Selected.only (h : Selected s xs baddr i s') (hu : s.Unique baddr) {j : Fin n} (hj : s.addr j = baddr) :
    j = i := by
  rcases h.cases with hi | ⟨hnone, -⟩
  · exact hu j i hj hi
  · exact absurd hj (hnone j)

theorem take_entries (e : Addr × Addr) (h : xs.length < n) :
    (e :: xs.filterMap s.entry).take n = e :: xs.filterMap s.entry := by
  apply List.take_of_length_le
  have hlen := List.length_filterMap_le s.entry xs
  rw [List.length_cons]
  omega

/-- The other entries, after the write. -/
theorem Selected.rest (h : s.Ordered xs) (hb : baddr ≠ 0) (hsel : Selected s xs baddr i s') (v : Addr) :
    put n baddr v (xs.filterMap s.entry) = (baddr, v) :: (xs.erase i).filterMap s.entry := by
  have hlen := h.length
  have hnodup := h.rep.1
  have hpos : xs.length = (xs.erase i).length + 1 := by
    rw [List.length_erase_of_mem (h.mem i)]
    have := List.length_pos_of_mem (h.mem i)
    omega
  have hother : ∀ j ∈ xs.erase i, s.addr j ≠ baddr := fun j hj ha =>
    (hnodup.mem_erase_iff.1 hj).1 (hsel.only (h.uniq hb) ha)
  rw [put]
  rcases hsel.cases with hi | ⟨hnone, ys, rfl⟩
  · -- a hit: the entry itself is filtered out
    have hdrop : (xs.filterMap s.entry).filter (·.1 ≠ baddr) = (xs.erase i).filterMap s.entry := by
      obtain ⟨ys, zs, hys, rfl, herase⟩ := List.exists_erase_eq (h.mem i)
      have hentry : s.entry i = some (baddr, s.target i) := by
        rw [entry, if_neg (hi ▸ hb), hi]
      rw [herase] at hother ⊢
      rw [List.filterMap_append, List.filterMap_cons_some hentry, List.filter_append,
        List.filter_cons_of_neg (by simp), ← List.filter_append, ← List.filterMap_append, filter_entries_of_ne hother]
    rw [hdrop, take_entries _ (by omega)]
  · -- a miss: the last entry of the list makes room
    have herase : (ys ++ [i]).erase i = ys := by
      rw [List.erase_append_right _ fun hm => (List.nodup_append.1 hnodup).2.2 i hm i (List.mem_singleton_self i) rfl]
      simp
    rw [filter_entries_of_ne fun j _ => hnone j, herase]
    rw [herase] at hpos
    by_cases hi : s.addr i = 0
    · have hentry : s.entry i = none := if_pos hi
      rw [List.filterMap_append, List.filterMap_cons_none hentry, List.filterMap_nil, List.append_nil]
      exact take_entries _ (by omega)
    · have hused : ∀ j ∈ ys, s.addr j ≠ 0 := fun j hj =>
        (List.pairwise_append.1 h.packed).2.2 j hj i (List.mem_singleton_self i) hi
      have hfull : (ys.filterMap s.entry).length = ys.length := by
        rw [List.length_filterMap_eq_countP, List.countP_eq_length]
        intro j hj
        rw [entry, if_neg (hused j hj)]
        rfl
      rw [List.filterMap_append, ← List.cons_append]
      apply List.take_left'
      rw [List.length_cons, hfull]
      omega

/-- What an update of the BTB leaves: the map with the branch written. -/
theorem Selected.write (h : s.Ordered xs) (hb : baddr ≠ 0) (hsel : Selected s xs baddr i s') (btarget : Addr)
    (correct : Bool) :
    (s'.write i baddr btarget correct).Ordered (i :: xs.erase i) ∧
      (s'.write i baddr btarget correct).contents =
        put n baddr (newTarget s.contents baddr btarget correct) s.contents := by
  have hmem {j : Fin n} (hj : j ∈ xs.erase i) : j ≠ i := (h.rep.1.mem_erase_iff.1 hj).1
  have hv : (if s.addr i = baddr ∧ correct then s.target i else btarget) =
      newTarget s.contents baddr btarget correct := by
    rw [newTarget, h.get hb]
    rcases hsel.cases with hi | ⟨hnone, -⟩
    · rw [(h.uniq hb).find_eq hi]
      simp [hi]
    · rw [find_eq_none.2 hnone, if_neg fun hi => hnone i hi.1]
      simp
  obtain ⟨t, ht, haddr, htarget, hlinked⟩ : ∃ t, s'.write i baddr btarget correct = t ∧
      t.addr = update s.addr i baddr ∧
      t.target = update s.target i (newTarget s.contents baddr btarget correct) ∧ t.Linked (i :: xs.erase i) := by
    rw [write_eq, hsel.addr, hsel.target, hv]
    exact ⟨_, rfl, rfl, rfl, hsel.linked.rep, hsel.linked.perm⟩
  rw [ht]
  have hself : t.addr i = baddr := by rw [haddr, update_self]
  have hother {j : Fin n} (hj : j ≠ i) : t.addr j = s.addr j := by rw [haddr, update_of_ne hj]
  have hord : t.Ordered (i :: xs.erase i) := by
    refine ⟨hlinked, fun j k hjk hj => ?_, ?_⟩
    · by_cases hji : j = i <;> by_cases hki : k = i
      · rw [hji, hki]
      · rw [hji, hself, hother hki] at hjk
        rw [hji, hsel.only (h.uniq hb) hjk.symm]
      · rw [hki, hself, hother hji] at hjk
        rw [hki, hsel.only (h.uniq hb) hjk]
      · rw [hother hji] at hjk hj
        rw [hother hki] at hjk
        exact h.unique j k hjk hj
    · refine List.pairwise_cons.2 ⟨fun j _ _ => hself ▸ hb, ?_⟩
      refine (h.packed.sublist List.erase_sublist).imp_of_mem fun hj hk hjk => ?_
      rw [hother (hmem hj), hother (hmem hk)]
      exact hjk
  refine ⟨hord, ?_⟩
  have hentries : (xs.erase i).filterMap t.entry = (xs.erase i).filterMap s.entry := by
    refine List.filterMap_congr fun j hj => ?_
    rw [entry, entry, hother (hmem hj), htarget, update_of_ne (hmem hj)]
  have hentry : t.entry i = some (baddr, newTarget s.contents baddr btarget correct) := by
    rw [entry, hself, if_neg hb, htarget, update_self]
  have hwritten : t.contents = (baddr, newTarget s.contents baddr btarget correct) ::
      (xs.erase i).filterMap s.entry := by
    rw [contents, hord.order, List.filterMap_cons_some hentry, hentries]
  have hbefore : s.contents = xs.filterMap s.entry := by
    rw [contents, h.order]
  rw [hwritten, ← hsel.rest h hb, ← hbefore]

end BtbSet

end Branch
