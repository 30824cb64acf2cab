import CompArch.Cache.Store
import Mathlib.Data.Fintype.Card
/-!
# What the links of a set stand for

A set's way list is a doubly linked list of all its blocks, in replacement
order, and its hash chains are the buckets of the blocks' tags. The operations
of `cache.c` on a set are those of linked lists, so they succeed and keep that.
-/

namespace Cache

open Function Linked

/-! ## Representation -/

/-- The way list of a set. -/
def CacheSet.ways {n : Nat} (cs : CacheSet n) : Dll (Fin n) where
  head := cs.way_head
  tail := cs.way_tail
  next := cs.way_next
  prev := cs.way_prev

/-- The set with another way list. -/
def CacheSet.setWays {n : Nat} (cs : CacheSet n) (d : Dll (Fin n)) : CacheSet n :=
  { cs with way_head := d.head, way_tail := d.tail, way_next := d.next, way_prev := d.prev }

variable {g : Geometry}

/-- The chain each block belongs on. -/
def CacheSet.bucket (cs : CacheSet g.assoc) (b : g.Way) : Option Nat := some (CACHE_HASH g (cs.tag b))

/-- A set whose way list is `xs`. -/
structure SetOk (cs : CacheSet g.assoc) (xs : List g.Way) : Prop where
  ways : cs.ways.Rep xs
  all : ∀ b, b ∈ xs
  chains : g.hsize ≠ 0 → Buckets cs.hash_next cs.hash cs.bucket
  unique : ∀ a b, cs.valid a = true → cs.valid b = true → cs.tag a = cs.tag b → a = b

theorem length_le {n : Nat} {xs : List (Fin n)} (h : xs.Nodup) : xs.length ≤ n := by
  simpa using h.length_le_card

/-! ## Way lists -/

section
variable {n : Nat} {cs : CacheSet n} {b : Fin n} {xs ys zs : List (Fin n)}

/-- Where `update_way_list` puts a block. -/
def moved (loc : ListLoc) (b : Fin n) (xs : List (Fin n)) : List (Fin n) :=
  match loc with
  | .Head => b :: xs.erase b
  | .Tail => xs.erase b ++ [b]

theorem mem_moved {loc : ListLoc} {a : Fin n} (hb : b ∈ xs) : a ∈ moved loc b xs ↔ a ∈ xs := by
  have hp : (b :: xs.erase b).Perm xs := (List.perm_cons_erase hb).symm
  cases loc with
  | Head => exact hp.mem_iff
  | Tail => exact (List.perm_append_singleton b (xs.erase b)).mem_iff.trans hp.mem_iff

theorem erase_mid {α : Type*} [DecidableEq α] {b : α} {ys zs : List α} (hn : (ys ++ b :: zs).Nodup) :
    (ys ++ b :: zs).erase b = ys ++ zs := by
  have hb : b ∉ ys := fun hm => (List.nodup_append.1 hn).2.2 b hm b (List.mem_cons_self ..) rfl
  rw [List.erase_append_right _ hb, List.erase_cons_head]

/-- A block linked to the front or the back of `xs`. -/
def linked (loc : ListLoc) (b : Fin n) (xs : List (Fin n)) : List (Fin n) :=
  match loc with
  | .Head => b :: xs
  | .Tail => xs ++ [b]

theorem linkWay_ok (h : cs.ways.Rep xs) (hne : xs ≠ []) (hb : b ∉ xs) (loc : ListLoc) :
    ∃ d : Dll (Fin n), cs.linkWay b loc = .ok (cs.setWays d) ∧ d.Rep (linked loc b xs) := by
  obtain ⟨y, hy⟩ : ∃ y, cs.way_head = some y := by
    have := h.head_eq
    cases xs with
    | nil => exact absurd rfl hne
    | cons y xs => exact ⟨y, this⟩
  obtain ⟨z, hz⟩ : ∃ z, cs.way_tail = some z := by
    have := h.tail_eq
    rw [List.getLast?_eq_some_getLast hne] at this
    exact ⟨_, this⟩
  cases loc with
  | Head =>
    refine ⟨cs.ways.pushFront b, ?_, h.pushFront hb⟩
    simp [CacheSet.linkWay, hy, hz, notNull, CacheSet.setWays, CacheSet.ways, Dll.pushFront]
  | Tail =>
    refine ⟨cs.ways.pushBack b, ?_, h.pushBack hb⟩
    simp [CacheSet.linkWay, hy, hz, notNull, CacheSet.setWays, CacheSet.ways, Dll.pushBack]

/-- `update_way_list` moves a block of the list and changes nothing else. -/
theorem update_way_list_ok (h : cs.ways.Rep xs) (hb : b ∈ xs) (loc : ListLoc) :
    ∃ d : Dll (Fin n), cs.update_way_list b loc = .ok (cs.setWays d) ∧ d.Rep (moved loc b xs) := by
  obtain ⟨ys, zs, rfl⟩ := List.append_of_mem hb
  obtain ⟨hprev, hnext⟩ := h.links
  have hhead := h.head_eq
  have htail := h.tail_eq
  have hn := h.1
  obtain ⟨hbys, hbzs⟩ : b ∉ ys ∧ b ∉ zs := by
    have := (List.nodup_cons.1 (List.nodup_middle.1 hn)).1
    simpa using this
  have hmoved : moved loc b (ys ++ b :: zs) = linked loc b (ys ++ zs) := by
    cases loc <;> simp only [moved, linked, erase_mid hn]
  -- whenever the code unlinks the block, what is left is `ys ++ zs`
  have hrest : (cs.setWays (cs.ways.unlink b)).ways.Rep (ys ++ zs) := h.unlink
  have hbnot : b ∉ ys ++ zs := by simp [hbys, hbzs]
  have hlink (hne : ys ++ zs ≠ []) := linkWay_ok hrest hne hbnot loc
  change cs.way_prev b = _ at hprev
  change cs.way_next b = _ at hnext
  change cs.way_head = _ at hhead
  change cs.way_tail = _ at htail
  rw [hmoved]
  unfold CacheSet.update_way_list
  rcases List.eq_nil_or_concat ys with rfl | ⟨ys, y, rfl⟩
  · have hp : cs.way_prev b = none := hprev
    have hh : cs.way_head = some b := hhead
    cases zs with
    | nil =>
      have ht : cs.way_tail = some b := htail
      have hx : cs.way_next b = none := hnext
      refine ⟨cs.ways, ?_, by cases loc <;> exact h⟩
      simp only [hp, hx, assert, hh, ht, and_self, decide_true]
      rfl
    | cons z zs =>
      have hx : cs.way_next b = some z := hnext
      have ht : cs.way_tail ≠ some b := by
        rw [htail]
        intro he
        exact hbzs (List.mem_of_getLast? (by simpa [List.getLast?_cons] using he))
      have hrec : { cs with way_head := some z, way_prev := update cs.way_prev z none } =
          cs.setWays (cs.ways.unlink b) := by
        simp [CacheSet.setWays, CacheSet.ways, Dll.unlink, hp, hx]
      simp only [hp, hx, hrec, assert, hh, ht, ne_eq, not_false_eq_true, and_self, decide_true]
      cases loc with
      | Head => exact ⟨cs.ways, rfl, h⟩
      | Tail => exact hlink (by simp)
  · rw [List.concat_eq_append] at *
    have hp : cs.way_prev b = some y := by simpa using hprev
    have hh : cs.way_head ≠ some b := by
      rw [hhead]
      intro he
      have : b ∈ ys ++ [y] := by
        cases ys with
        | nil =>
          cases he
          simp
        | cons y' ys =>
          cases he
          simp
      exact hbys this
    cases zs with
    | nil =>
      have hx : cs.way_next b = none := hnext
      have ht : cs.way_tail = some b := by simpa using htail
      have hrec : { cs with way_tail := some y, way_next := update cs.way_next y none } =
          cs.setWays (cs.ways.unlink b) := by
        simp [CacheSet.setWays, CacheSet.ways, Dll.unlink, hp, hx]
      simp only [hp, hx, hrec, assert, hh, ht, ne_eq, not_false_eq_true, and_self, decide_true]
      cases loc with
      | Head => exact hlink (by simp)
      | Tail => exact ⟨cs.ways, rfl, by simpa [linked] using h⟩
    | cons z zs =>
      have hx : cs.way_next b = some z := hnext
      have ht : cs.way_tail ≠ some b := by
        rw [htail]
        intro he
        exact hbzs (List.mem_of_getLast? (by simpa [List.getLast?_cons] using he))
      have hrec : { cs with way_next := update cs.way_next y (some z), way_prev := update cs.way_prev z (some y) } =
          cs.setWays (cs.ways.unlink b) := by
        simp [CacheSet.setWays, CacheSet.ways, Dll.unlink, hp, hx]
      simp only [hp, hx, hrec, assert, hh, ht, ne_eq, not_false_eq_true, and_self, decide_true]
      exact hlink (by simp)

end

/-! ## Hash chains -/

section
variable {cs : CacheSet g.assoc} {xs : List g.Way}

theorem unlink_htab_ent_ok (h : Buckets cs.hash_next cs.hash cs.bucket) (b : g.Way) :
    ∃ next heads, cs.unlink_htab_ent b = .ok { cs with hash := heads, hash_next := next } ∧
      Buckets next heads (update cs.bucket b none) := by
  obtain ⟨l, hs, hn, hm⟩ := h (CACHE_HASH g (cs.tag b))
  obtain ⟨ys, zs, rfl⟩ := List.append_of_mem ((hm b).2 rfl)
  have hb : b ∉ ys := fun hmem => (List.nodup_append.1 hn).2.2 b hmem b (List.mem_cons_self ..) rfl
  have hlen : ys.length < g.assoc := by
    have := length_le hn
    simp only [List.length_append, List.length_cons] at this
    omega
  refine ⟨_, _, ?_, h.unlink hs hn hm⟩
  have hfind := (findPrev_eq hs hb hlen : findPrev cs.hash_next b g.assoc none _ = _)
  simp only [CacheSet.unlink_htab_ent, hfind]
  cases ys.getLast? <;> rfl

theorem link_htab_ent_ok {b : g.Way} (h : Buckets cs.hash_next cs.hash (update cs.bucket b none)) :
    Buckets (cs.link_htab_ent b).hash_next (cs.link_htab_ent b).hash (cs.link_htab_ent b).bucket := by
  have hl := h.link (update_self ..) (CACHE_HASH g (cs.tag b))
  rw [update_idem] at hl
  rwa [show update cs.bucket b (some (CACHE_HASH g (cs.tag b))) = cs.bucket from update_eq_self ..] at hl

/-! ## What the operations do to a set -/

/-- The search finds the block with the tag, and there is only one. -/
theorem SetOk.find_ok (h : SetOk cs xs) (tag : Addr) :
    ∃ r, cs.find tag = .ok r ∧ ∀ b, r = some b ↔ cs.holds tag b = true := by
  have hfound (l : List g.Way) (hl : ∀ b, cs.holds tag b = true → b ∈ l) (b : g.Way) :
      l.find? (cs.holds tag) = some b ↔ cs.holds tag b = true := by
    constructor
    · exact List.find?_some
    · intro hb
      cases hf : l.find? (cs.holds tag) with
      | none => exact absurd hb (by simpa using List.find?_eq_none.1 hf b (hl b hb))
      | some a =>
        have ha := List.find?_some hf
        simp only [CacheSet.holds, Bool.and_eq_true, beq_iff_eq] at ha hb
        rw [h.unique a b ha.2 hb.2 (ha.1.trans hb.1.symm)]
  unfold CacheSet.find
  by_cases hh : g.hsize = 0
  · rw [if_neg (by simp [hh])]
    exact ⟨_, congrArg ends (walk_eq h.ways.2.forward _ (length_le h.ways.1)), hfound xs fun b _ => h.all b⟩
  · rw [if_pos hh]
    obtain ⟨l, hs, hn, hm⟩ := h.chains hh (CACHE_HASH g tag)
    refine ⟨_, congrArg ends (walk_eq hs _ (length_le hn)), hfound l fun b hb => ?_⟩
    simp only [CacheSet.holds, Bool.and_eq_true, beq_iff_eq] at hb
    rw [hm, CacheSet.bucket, hb.1]

theorem SetOk.setWays (h : SetOk cs xs) {d : Dll g.Way} {ys : List g.Way} (hd : d.Rep ys) (hm : ∀ b, b ∈ ys) :
    SetOk (cs.setWays d) ys := ⟨hd, hm, h.chains, h.unique⟩

theorem SetOk.update_way_list (h : SetOk cs xs) (b : g.Way) (loc : ListLoc) :
    ∃ d : Dll g.Way, cs.update_way_list b loc = .ok (cs.setWays d) ∧ SetOk (cs.setWays d) (moved loc b xs) := by
  obtain ⟨d, hd, hrep⟩ := update_way_list_ok h.ways (h.all b) loc
  exact ⟨d, hd, h.setWays hrep fun a => (mem_moved (h.all b)).2 (h.all a)⟩

/-- Taking a block off its chain, if there are chains. -/
theorem SetOk.unlink (h : SetOk cs xs) (b : g.Way) :
    ∃ next heads, cs.unlinkHash b = .ok { cs with hash := heads, hash_next := next } ∧
      (g.hsize ≠ 0 → Buckets next heads (update cs.bucket b none)) := by
  unfold CacheSet.unlinkHash
  by_cases hh : g.hsize ≠ 0
  · obtain ⟨next, heads, hu, hB⟩ := unlink_htab_ent_ok (h.chains hh) b
    exact ⟨next, heads, by rw [if_pos hh]; exact hu, fun _ => hB⟩
  · exact ⟨cs.hash_next, cs.hash, by rw [if_neg hh], fun hh' => absurd hh' hh⟩

/-- Linking a block into its chain changes nothing but chains. -/
theorem linkHash_same (cs : CacheSet g.assoc) (b : g.Way) : (cs.linkHash b).ways = cs.ways ∧
    (cs.linkHash b).tag = cs.tag ∧ (cs.linkHash b).valid = cs.valid := by
  unfold CacheSet.linkHash
  split <;> exact ⟨rfl, rfl, rfl⟩

/-- Filling a block that is off its chain, for a tag that no block has. -/
theorem SetOk.fill (h : SetOk cs xs) {b : g.Way} {next : g.Way → Option g.Way} {heads : Nat → Option g.Way}
    (hB : g.hsize ≠ 0 → Buckets next heads (update cs.bucket b none)) {tag : Addr}
    (hno : ∀ a, cs.holds tag a = false) {cs' : CacheSet g.assoc} (hways : cs'.ways = cs.ways)
    (hhash : cs'.hash = heads) (hnext : cs'.hash_next = next) (htag : cs'.tag = update cs.tag b tag)
    (hvalid : cs'.valid = update cs.valid b true) :
    SetOk (cs'.linkHash b) xs := by
  have hunique (a c : g.Way) (ha : cs'.valid a = true) (hc : cs'.valid c = true) (ht : cs'.tag a = cs'.tag c) :
      a = c := by
    have hother (a : g.Way) (hv : cs.valid a = true) (ht : cs.tag a = tag) : False := by
      have := hno a
      simp [CacheSet.holds, hv, ht] at this
    rw [hvalid] at ha hc
    rw [htag] at ht
    by_cases hab : a = b <;> by_cases hcb : c = b
    · rw [hab, hcb]
    · rw [hab, update_self, update_of_ne hcb] at ht
      rw [update_of_ne hcb] at hc
      exact (hother c hc ht.symm).elim
    · rw [hcb, update_self, update_of_ne hab] at ht
      rw [update_of_ne hab] at ha
      exact (hother a ha ht).elim
    · rw [update_of_ne hab] at ha ht
      rw [update_of_ne hcb] at hc ht
      exact h.unique a c ha hc ht
  have hbucket : update cs'.bucket b none = update cs.bucket b none := by
    funext a
    by_cases hab : a = b
    · rw [hab, update_self, update_self]
    · rw [update_of_ne hab, update_of_ne hab, CacheSet.bucket, CacheSet.bucket, htag, update_of_ne hab]
  unfold CacheSet.linkHash
  by_cases hh : g.hsize ≠ 0
  · rw [if_pos hh]
    refine ⟨by have := h.ways; rwa [← hways] at this, h.all, fun _ => link_htab_ent_ok ?_, hunique⟩
    rw [hnext, hhash, hbucket]
    exact hB hh
  · rw [if_neg hh]
    exact ⟨by have := h.ways; rwa [← hways] at this, h.all, fun hh' => absurd hh' hh, hunique⟩

/-- Fewer valid blocks, or other dirty bits. -/
theorem SetOk.of_valid (h : SetOk cs xs) {valid dirty : g.Way → Bool} (hv : ∀ a, valid a = true → cs.valid a = true) :
    SetOk { cs with valid, dirty } xs :=
  ⟨h.ways, h.all, h.chains, fun a b ha hb ht => h.unique a b (hv a ha) (hv b hb) ht⟩

/-! ## The sets of a new cache -/

theorem insert_ways (cs : CacheSet g.assoc) (b : g.Way) : (cs.insert b).ways = cs.ways.pushFront b := by
  obtain ⟨hw, -, -⟩ := linkHash_same cs b
  rw [← hw]
  unfold CacheSet.insert
  generalize cs.linkHash b = cs
  cases hhead : cs.way_head <;> cases htail : cs.way_tail <;> simp [CacheSet.ways, Dll.pushFront, hhead, htail]

/-- A set after the blocks `bs` were linked into it, in this order. -/
theorem foldl_insert_ok {bs : List g.Way} (hn : bs.Nodup) :
    (bs.foldl CacheSet.insert ({} : CacheSet g.assoc)).ways.Rep bs.reverse ∧
      (g.hsize ≠ 0 → Buckets (bs.foldl CacheSet.insert ({} : CacheSet g.assoc)).hash_next
        (bs.foldl CacheSet.insert ({} : CacheSet g.assoc)).hash
        fun b => if b ∈ bs then some (CACHE_HASH g 0) else none) ∧
      (bs.foldl CacheSet.insert ({} : CacheSet g.assoc)).tag = (fun _ => 0) ∧
      (bs.foldl CacheSet.insert ({} : CacheSet g.assoc)).valid = fun _ => false := by
  induction bs using List.reverseRecOn with
  | nil =>
    refine ⟨⟨List.nodup_nil, rfl, rfl⟩, fun _ b => ⟨[], rfl, List.nodup_nil, fun x => ?_⟩, rfl, rfl⟩
    simp
  | append_singleton bs b ih =>
    obtain ⟨hnb, -, hdisj⟩ := List.nodup_append.1 hn
    have hb : b ∉ bs := fun hm => hdisj b hm b (List.mem_singleton_self b) rfl
    obtain ⟨hways, hchains, htag, hvalid⟩ := ih hnb
    simp only [List.foldl_append, List.foldl_cons, List.foldl_nil]
    generalize bs.foldl CacheSet.insert ({} : CacheSet g.assoc) = cs at *
    refine ⟨?_, fun hh => ?_, ?_, ?_⟩
    · rw [insert_ways, List.reverse_concat]
      exact hways.pushFront (by simpa using hb)
    · have hl := (hchains hh).link (x := b) (by simp [hb]) (CACHE_HASH g 0)
      have hset : (cs.insert b).hash_next = update cs.hash_next b (cs.hash (CACHE_HASH g 0)) ∧
          (cs.insert b).hash = update cs.hash (CACHE_HASH g 0) (some b) := by
        simp [CacheSet.insert, CacheSet.linkHash, hh, CacheSet.link_htab_ent, htag]
      rw [hset.1, hset.2]
      convert hl using 1
      funext a
      by_cases ha : a = b <;> simp [ha, hb]
    · exact (linkHash_same cs b).2.1.trans htag
    · exact (linkHash_same cs b).2.2.trans hvalid

theorem setOk_create : SetOk ((List.finRange g.assoc).foldl CacheSet.insert ({} : CacheSet g.assoc))
    (List.finRange g.assoc).reverse := by
  obtain ⟨hways, hchains, htag, hvalid⟩ := foldl_insert_ok (List.nodup_finRange g.assoc)
  refine ⟨hways, fun b => by simp, fun hh => ?_, fun a b ha => ?_⟩
  · convert hchains hh using 1
    funext b
    rw [CacheSet.bucket, htag, if_pos (List.mem_finRange b)]
  · rw [hvalid] at ha
    cases ha

end

end Cache
