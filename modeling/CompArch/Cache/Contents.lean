import CompArch.Cache.Sets
import CompArch.Recency
/-!
# What a set holds

The blocks of a set in replacement order, and the tags of the valid ones, most
recent first. Under LRU and FIFO the valid blocks come before the others, so
that the block replaced holds nothing as long as there is room.
-/

namespace Cache

open Function Linked Recency

/-- The blocks of a set, in the order a loop over the way list visits them. -/
def CacheSet.order {n : Nat} (cs : CacheSet n) : List (Fin n) := (collect cs.way_next n cs.way_head).getD []

/-- The tags of the blocks `xs` that are valid. -/
def tagsOf {n : Nat} (cs : CacheSet n) (xs : List (Fin n)) : List Addr := (xs.filter cs.valid).map cs.tag

/-- The tags a set holds, in replacement order. -/
def CacheSet.contents {n : Nat} (cs : CacheSet n) : List Addr := tagsOf cs cs.order

variable {g : Geometry}

/-- A set between two calls. -/
structure CacheSet.Sound (cs : CacheSet g.assoc) : Prop where
  ok : SetOk cs cs.order
  packed : g.policy ≠ .Random → cs.order.Pairwise fun a b => cs.valid b = true → cs.valid a = true

theorem holds_iff {n : Nat} {cs : CacheSet n} {tag : Addr} {b : Fin n} :
    cs.holds tag b = true ↔ cs.tag b = tag ∧ cs.valid b = true := by
  simp [CacheSet.holds]

section
variable {cs : CacheSet g.assoc} {xs ys zs : List g.Way} {b : g.Way} {tag : Addr}

theorem SetOk.order_eq (h : SetOk cs xs) : cs.order = xs := by
  have hc : collect cs.way_next g.assoc cs.way_head = some xs := collect_eq h.ways.2.forward (length_le h.ways.1)
  rw [CacheSet.order, hc]
  rfl

theorem SetOk.contents_eq (h : SetOk cs xs) : cs.contents = tagsOf cs xs := by
  rw [CacheSet.contents, h.order_eq]

theorem SetOk.sound (h : SetOk cs xs)
    (hp : g.policy ≠ .Random → xs.Pairwise fun a b => cs.valid b = true → cs.valid a = true) : cs.Sound := by
  have ho := h.order_eq
  constructor
  · rwa [ho]
  · rwa [ho]

/-- The list has all the blocks, each once. -/
theorem SetOk.perm (h : SetOk cs xs) : xs.Perm (List.finRange g.assoc) := by
  rw [List.perm_ext_iff_of_nodup h.ways.1 (List.nodup_finRange _)]
  intro a
  simp [h.all a]

theorem SetOk.length_eq (h : SetOk cs xs) : xs.length = g.assoc := by
  rw [h.perm.length_eq, List.length_finRange]

theorem SetOk.nodup_tagsOf (h : SetOk cs xs) : (tagsOf cs xs).Nodup := by
  refine List.Nodup.map_on ?_ (h.ways.1.filter _)
  intro a ha b hb
  exact h.unique a b (List.mem_filter.1 ha).2 (List.mem_filter.1 hb).2

theorem SetOk.mem_tagsOf (h : SetOk cs xs) : tag ∈ tagsOf cs xs ↔ ∃ b, cs.holds tag b = true := by
  simp only [tagsOf, List.mem_map, List.mem_filter, holds_iff]
  constructor
  · rintro ⟨b, ⟨-, hv⟩, ht⟩
    exact ⟨b, ht, hv⟩
  · rintro ⟨b, ht, hv⟩
    exact ⟨b, ⟨h.all b, hv⟩, ht⟩

theorem SetOk.length_tagsOf_le (h : SetOk cs xs) : (tagsOf cs xs).length ≤ g.assoc := by
  rw [tagsOf, List.length_map]
  exact Nat.le_trans (List.length_filter_le ..) (Nat.le_of_eq h.length_eq)

/-- The search of the code tells whether the set holds the tag. -/
theorem SetOk.find_isSome (h : SetOk cs xs) (tag : Addr) :
    ∃ r, cs.find tag = .ok r ∧ (r.isSome = true ↔ tag ∈ cs.contents) := by
  obtain ⟨r, hr, hb⟩ := h.find_ok tag
  refine ⟨r, hr, ?_⟩
  rw [h.contents_eq, h.mem_tagsOf, Option.isSome_iff_exists]
  exact exists_congr hb

theorem tagsOf_cons : tagsOf cs (b :: xs) = if cs.valid b = true then cs.tag b :: tagsOf cs xs else tagsOf cs xs := by
  by_cases hv : cs.valid b = true <;> simp [tagsOf, hv]

theorem tagsOf_append : tagsOf cs (xs ++ ys) = tagsOf cs xs ++ tagsOf cs ys := by simp [tagsOf]

/-- The tags depend on the listed blocks alone. -/
theorem tagsOf_congr {n : Nat} {cs cs' : CacheSet n} {xs : List (Fin n)} (hv : ∀ a ∈ xs, cs'.valid a = cs.valid a)
    (ht : ∀ a ∈ xs, cs'.tag a = cs.tag a) : tagsOf cs' xs = tagsOf cs xs := by
  have hf : xs.filter cs'.valid = xs.filter cs.valid := List.filter_congr hv
  rw [tagsOf, tagsOf, hf]
  exact List.map_congr_left fun a ha => ht a (List.mem_of_mem_filter ha)

/-- Where the valid blocks come first, the first tags are those of the first blocks. -/
theorem take_tagsOf (hp : xs.Pairwise fun a b => cs.valid b = true → cs.valid a = true) (n : Nat) :
    (tagsOf cs xs).take n = tagsOf cs (xs.take n) := by
  induction xs generalizing n with
  | nil => simp [tagsOf]
  | cons b xs ih =>
    obtain ⟨hb, hxs⟩ := List.pairwise_cons.1 hp
    cases n with
    | zero => simp [tagsOf]
    | succ n =>
      rw [List.take_succ_cons, tagsOf_cons, tagsOf_cons]
      by_cases hv : cs.valid b = true
      · rw [if_pos hv, if_pos hv, List.take_succ_cons, ih hxs]
      · have hnone : tagsOf cs xs = [] := by
          rw [tagsOf, List.filter_eq_nil_iff.2 fun a ha hva => hv (hb a ha hva), List.map_nil]
        rw [if_neg hv, if_neg hv, ← ih hxs, hnone, List.take_nil, List.take_nil]

/-! ## Moving a block to the head -/

/-- A block with a held tag is moved to the head: its tag was used. -/
theorem SetOk.tagsOf_front (h : SetOk cs xs) (hb : cs.holds tag b = true) :
    tagsOf cs (moved .Head b xs) = touch g.assoc tag (tagsOf cs xs) := by
  have hmem : tag ∈ tagsOf cs xs := h.mem_tagsOf.2 ⟨b, hb⟩
  obtain ⟨ht, hv⟩ := holds_iff.1 hb
  rw [touch_of_mem hmem h.length_tagsOf_le]
  obtain ⟨ys, zs, rfl⟩ := List.append_of_mem (h.all b)
  have hmid : tagsOf cs (ys ++ b :: zs) = tagsOf cs ys ++ tag :: tagsOf cs zs := by
    rw [tagsOf_append, tagsOf_cons, if_pos hv, ht]
  have hnd := h.nodup_tagsOf
  rw [hmid] at hnd ⊢
  rw [moved, erase_mid h.ways.1, erase_mid hnd, tagsOf_cons, if_pos hv, ht, tagsOf_append]

/-- The valid blocks stay before the others. -/
theorem packed_front (hp : xs.Pairwise fun a b => cs.valid b = true → cs.valid a = true) (hv : cs.valid b = true) :
    (moved .Head b xs).Pairwise fun a b => cs.valid b = true → cs.valid a = true :=
  List.pairwise_cons.2 ⟨fun _ _ _ => hv, hp.sublist List.erase_sublist⟩

/-! ## Filling the last block -/

/-- The last block is valid only if all are. -/
theorem valid_of_last (hp : (ys ++ [b]).Pairwise fun a b => cs.valid b = true → cs.valid a = true)
    (hv : cs.valid b = true) : ∀ a ∈ ys, cs.valid a = true := by
  intro a ha
  exact (List.pairwise_append.1 hp).2.2 a ha b (List.mem_singleton_self b) hv

/-- The last block is moved to the head and gets a tag the set does not hold: the
tag was used, and if there was no room the one used least recently is gone. -/
theorem SetOk.tagsOf_fill (h : SetOk cs (ys ++ [b]))
    (hp : (ys ++ [b]).Pairwise fun a b => cs.valid b = true → cs.valid a = true) (hno : ∀ a, cs.holds tag a = false)
    {cs' : CacheSet g.assoc} (htag : cs'.tag = update cs.tag b tag) (hvalid : cs'.valid = update cs.valid b true) :
    tagsOf cs' (b :: ys) = touch g.assoc tag (tagsOf cs (ys ++ [b])) := by
  have hb : b ∉ ys := fun hm => (List.nodup_append.1 h.ways.1).2.2 b hm b (List.mem_singleton_self b) rfl
  have hnot : tag ∉ tagsOf cs (ys ++ [b]) := by
    rw [h.mem_tagsOf]
    rintro ⟨a, ha⟩
    rw [hno a] at ha
    cases ha
  have hlen : ys.length + 1 = g.assoc := by simpa using h.length_eq
  have hne (a : g.Way) (ha : a ∈ ys) : a ≠ b := fun he => hb (he ▸ ha)
  have hys : tagsOf cs' ys = tagsOf cs ys := by
    apply tagsOf_congr
    · intro a ha
      rw [hvalid, update_of_ne (hne a ha)]
    · intro a ha
      rw [htag, update_of_ne (hne a ha)]
  rw [tagsOf_cons, hvalid, htag, update_self, update_self, if_pos rfl, hys]
  by_cases hv : cs.valid b = true
  · have hall : (tagsOf cs ys).length = ys.length := by
      rw [tagsOf, List.length_map, List.filter_eq_self.2 (valid_of_last hp hv)]
    have hlast : tagsOf cs (ys ++ [b]) = tagsOf cs ys ++ [cs.tag b] := by simp [tagsOf, hv]
    rw [hlast] at hnot ⊢
    refine (touch_of_full hnot ?_).symm
    rw [List.length_append, hall, List.length_singleton, hlen]
  · have hlast : tagsOf cs (ys ++ [b]) = tagsOf cs ys := by simp [tagsOf, hv]
    rw [hlast] at hnot ⊢
    have hle : (tagsOf cs ys).length ≤ ys.length := by
      rw [tagsOf, List.length_map]
      exact List.length_filter_le ..
    exact (touch_of_room hnot (by omega)).symm

end

end Cache
