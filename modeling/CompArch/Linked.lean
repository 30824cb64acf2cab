import Mathlib.Data.List.Basic
import Mathlib.Data.List.Nodup
import Mathlib.Logic.Function.Basic
/-!
# Linked lists of indices

Nodes are indices and a link is a function from nodes to nodes or none, so a
list is what following the links visits. Singly linked chains that share one
link field, the buckets of a hash table, and doubly linked lists, with what
unlinking and linking a node does to them.
-/

namespace Linked

open Function

variable {ι β : Type*}

/-- Following `next` from `p` visits `xs` and arrives at `q`. -/
def Seg (next : ι → Option ι) : Option ι → List ι → Option ι → Prop
  | p, [], q => p = q
  | p, x :: xs, q => p = some x ∧ Seg next (next x) xs q

section Seg
variable {next : ι → Option ι} {p q r : Option ι} {x : ι} {xs ys : List ι}

theorem seg_append : Seg next p (xs ++ ys) r ↔ ∃ q, Seg next p xs q ∧ Seg next q ys r := by
  induction xs generalizing p with
  | nil => simp [Seg]
  | cons x xs ih => simp [Seg, ih, and_assoc]

theorem Seg.head (h : Seg next p xs none) : p = xs.head? := by
  cases xs with
  | nil => exact h
  | cons x xs => exact h.1

variable [DecidableEq ι]

/-- A link of a node that is not visited can be anything. -/
theorem seg_update (hx : x ∉ xs) (v : Option ι) : Seg (update next x v) p xs q ↔ Seg next p xs q := by
  induction xs generalizing p with
  | nil => rfl
  | cons y xs ih =>
    have hy : y ≠ x := fun h => hx (h ▸ List.mem_cons_self ..)
    rw [Seg, Seg, update_of_ne hy, ih fun h => hx (List.mem_cons_of_mem _ h)]

/-- The last node's link can be redirected. -/
theorem Seg.redirect (h : Seg next p (xs ++ [x]) q) (hx : x ∉ xs) (r : Option ι) :
    Seg (update next x r) p (xs ++ [x]) r := by
  obtain ⟨m, h1, rfl, -⟩ := seg_append.1 h
  exact seg_append.2 ⟨_, (seg_update hx r).2 h1, rfl, update_self ..⟩

end Seg

/-! ## Loops over a list -/

/-- The first node that passes `test`, within `n` nodes: `none` when the end is not reached. -/
def walk (next : ι → Option ι) (test : ι → Bool) : Nat → Option ι → Option (Option ι)
  | _, none => some none
  | 0, some _ => none
  | n + 1, some x => if test x then some (some x) else walk next test n (next x)

theorem walk_eq {next : ι → Option ι} {p : Option ι} {xs : List ι} (h : Seg next p xs none) (test : ι → Bool) {n : Nat}
    (hn : xs.length ≤ n) : walk next test n p = some (xs.find? test) := by
  induction xs generalizing p n with
  | nil =>
    obtain rfl : p = none := h
    cases n <;> rfl
  | cons x xs ih =>
    obtain ⟨rfl, h⟩ := h
    cases n with
    | zero => simp at hn
    | succ n =>
      rw [walk, List.find?_cons, ih h (by simpa using hn)]
      cases test x <;> rfl

/-- The nodes visited, within `n` nodes. -/
def collect (next : ι → Option ι) : Nat → Option ι → Option (List ι)
  | _, none => some []
  | 0, some _ => none
  | n + 1, some x => (collect next n (next x)).map (x :: ·)

theorem collect_eq {next : ι → Option ι} {p : Option ι} {xs : List ι} (h : Seg next p xs none) {n : Nat}
    (hn : xs.length ≤ n) : collect next n p = some xs := by
  induction xs generalizing p n with
  | nil =>
    obtain rfl : p = none := h
    cases n <;> rfl
  | cons x xs ih =>
    obtain ⟨rfl, h⟩ := h
    cases n with
    | zero => simp at hn
    | succ n => rw [collect, ih h (by simpa using hn)]; rfl

section Unlink
variable [DecidableEq ι]

/-- `for (prev=NULL,ent=p; ent; prev=ent,ent=ent->next) if (ent == x) break;` -/
def findPrev (next : ι → Option ι) (x : ι) : Nat → Option ι → Option ι → Option (Option ι × Option ι)
  | _, prev, none => some (prev, none)
  | 0, _, some _ => none
  | n + 1, prev, some e => if e = x then some (prev, some e) else findPrev next x n (some e) (next e)

theorem findPrev_eq {next : ι → Option ι} {x : ι} {p prev : Option ι} {ys zs : List ι}
    (h : Seg next p (ys ++ x :: zs) none) (hx : x ∉ ys) {n : Nat} (hn : ys.length < n) :
    findPrev next x n prev p = some (ys.getLast?.or prev, some x) := by
  induction ys generalizing p prev n with
  | nil =>
    obtain ⟨rfl, -⟩ := h
    cases n with
    | zero => simp at hn
    | succ n => simp [findPrev]
  | cons y ys ih =>
    obtain ⟨rfl, h⟩ := h
    have hy : y ≠ x := fun h => hx (h ▸ List.mem_cons_self ..)
    cases n with
    | zero => simp at hn
    | succ n =>
      rw [findPrev, if_neg hy, ih h (fun h => hx (List.mem_cons_of_mem _ h)) (by simpa using hn)]
      cases ys <;> simp [List.getLast?_cons]

end Unlink

/-! ## Buckets -/

/-- Every bucket is a chain of its nodes. -/
def Buckets (next : ι → Option ι) (heads : β → Option ι) (bucket : ι → Option β) : Prop :=
  ∀ b, ∃ ys, Seg next (heads b) ys none ∧ ys.Nodup ∧ ∀ x, x ∈ ys ↔ bucket x = some b

section Buckets
variable [DecidableEq ι] [DecidableEq β] {next : ι → Option ι} {heads : β → Option ι} {bucket : ι → Option β}
  {x : ι} {b : β}

/-- A node is put at the front of a bucket. -/
theorem Buckets.link (h : Buckets next heads bucket) (hx : bucket x = none) (b : β) :
    Buckets (update next x (heads b)) (update heads b (some x)) (update bucket x (some b)) := by
  intro b'
  obtain ⟨ys, hs, hn, hm⟩ := h b'
  have hxy : x ∉ ys := by
    rw [hm, hx]
    nofun
  by_cases hb : b' = b
  · subst hb
    refine ⟨x :: ys, ⟨update_self .., ?_⟩, List.nodup_cons.2 ⟨hxy, hn⟩, fun y => ?_⟩
    · rw [update_self]
      exact (seg_update hxy _).2 hs
    · by_cases hy : y = x <;> simp [hy, hm]
  · refine ⟨ys, ?_, hn, fun y => ?_⟩
    · rw [update_of_ne hb]
      exact (seg_update hxy _).2 hs
    · by_cases hy : y = x
      · subst hy
        simp [hxy, Ne.symm hb]
      · simp [hy, hm]

/-- A node is taken out of its bucket, after `ys`. -/
theorem Buckets.unlink (h : Buckets next heads bucket) {ys zs : List ι} (hs : Seg next (heads b) (ys ++ x :: zs) none)
    (hn : (ys ++ x :: zs).Nodup) (hm : ∀ y, y ∈ ys ++ x :: zs ↔ bucket y = some b) :
    Buckets (update (match ys.getLast? with | none => next | some p => update next p (next x)) x none)
      (match ys.getLast? with | none => update heads b (next x) | some _ => heads) (update bucket x none) := by
  have hx : bucket x = some b := (hm x).1 (by simp)
  have hxys : x ∉ ys ∧ x ∉ zs := by
    rw [List.nodup_append, List.nodup_cons] at hn
    exact ⟨fun h => hn.2.2 x h x (List.mem_cons_self ..) rfl, hn.2.1.1⟩
  obtain ⟨m, hys, rfl, hzs⟩ := seg_append.1 hs
  intro b'
  by_cases hb : b' = b
  · subst hb
    refine ⟨ys ++ zs, ?_, ?_, fun y => ?_⟩
    · rw [seg_update (by simpa using hxys)]
      rcases List.eq_nil_or_concat ys with rfl | ⟨ys, p, rfl⟩
      · simpa using hzs
      · rw [List.concat_eq_append] at hys hn hxys ⊢
        have hp : p ∉ ys ∧ p ∉ zs := by
          simp only [List.nodup_append, List.nodup_cons, List.append_assoc, List.cons_append, List.nil_append] at hn
          exact ⟨fun h => hn.2.2 p h p (List.mem_cons_self ..) rfl,
            fun h => hn.2.1.1 (List.mem_cons_of_mem _ h)⟩
        rw [List.getLast?_concat]
        exact seg_append.2 ⟨_, hys.redirect hp.1 _, (seg_update hp.2 _).2 hzs⟩
    · exact hn.sublist ((List.sublist_cons_self x zs).append_left ys)
    · by_cases hy : y = x
      · subst hy
        simp [hxys]
      · have := hm y
        simp only [List.mem_append, List.mem_cons, hy, false_or] at this
        simp [hy, this]
  · obtain ⟨ws, hws, hwn, hwm⟩ := h b'
    have hother (y : ι) (hy : bucket y = some b) : y ∉ ws := by
      rw [hwm, hy]
      exact fun h => hb (Option.some.inj h).symm
    refine ⟨ws, ?_, hwn, fun y => ?_⟩
    · rw [seg_update (hother x hx)]
      cases hl : ys.getLast? with
      | none => simpa [hb] using hws
      | some p =>
        have hp := hother p ((hm p).1 (List.mem_append_left _ (List.mem_of_getLast? hl)))
        exact (seg_update hp _).2 hws
    · by_cases hy : y = x
      · subst hy
        simp [hwm, hx, Ne.symm hb]
      · simp [hy, hwm]

end Buckets

/-! ## Doubly linked lists -/

/-- Following `next` from `p` visits `xs` and arrives at `q`; the `prev` links lead
back to `b`, and `l` is the last node, or `b` if there is none. -/
def DSeg (next prev : ι → Option ι) : Option ι → Option ι → List ι → Option ι → Option ι → Prop
  | b, p, [], q, l => p = q ∧ l = b
  | b, p, x :: xs, q, l => p = some x ∧ prev x = b ∧ DSeg next prev (some x) (next x) xs q l

section DSeg
variable {next prev : ι → Option ι} {b p q l : Option ι} {x : ι} {xs ys : List ι}

theorem dseg_append : DSeg next prev b p (xs ++ ys) q l ↔
    ∃ m k, DSeg next prev b p xs m k ∧ DSeg next prev k m ys q l := by
  induction xs generalizing b p with
  | nil =>
    constructor
    · intro h
      exact ⟨p, b, ⟨rfl, rfl⟩, h⟩
    · rintro ⟨m, k, ⟨rfl, rfl⟩, h⟩
      exact h
  | cons x xs ih => simp [DSeg, ih, and_assoc]

/-- A list between two ends is a list of its next links. -/
theorem DSeg.forward (h : DSeg next prev b p xs q l) : Seg next p xs q := by
  induction xs generalizing b p with
  | nil => exact h.1
  | cons x xs ih => exact ⟨h.1, ih h.2.2⟩

/-- Backwards it is a list of its previous links. -/
theorem DSeg.backward (h : DSeg next prev b p xs q l) : Seg prev l xs.reverse b := by
  induction xs generalizing b p with
  | nil => exact h.2
  | cons x xs ih =>
    rw [List.reverse_cons]
    exact seg_append.2 ⟨some x, ih h.2.2, rfl, h.2.1⟩

theorem DSeg.last (h : DSeg next prev b p (xs ++ [x]) q l) : l = some x ∧ next x = q := by
  obtain ⟨m, k, -, -, -, hq, hl⟩ := dseg_append.1 h
  exact ⟨hl, hq⟩

variable [DecidableEq ι]

theorem dseg_update_next (hx : x ∉ xs) (v : Option ι) :
    DSeg (update next x v) prev b p xs q l ↔ DSeg next prev b p xs q l := by
  induction xs generalizing b p with
  | nil => rfl
  | cons y xs ih =>
    have hy : y ≠ x := fun h => hx (h ▸ List.mem_cons_self ..)
    rw [DSeg, DSeg, update_of_ne hy, ih fun h => hx (List.mem_cons_of_mem _ h)]

theorem dseg_update_prev (hx : x ∉ xs) (v : Option ι) :
    DSeg next (update prev x v) b p xs q l ↔ DSeg next prev b p xs q l := by
  induction xs generalizing b p with
  | nil => rfl
  | cons y xs ih =>
    have hy : y ≠ x := fun h => hx (h ▸ List.mem_cons_self ..)
    rw [DSeg, DSeg, update_of_ne hy, ih fun h => hx (List.mem_cons_of_mem _ h)]

/-- The last node's next link can be redirected. -/
theorem DSeg.redirect_last (h : DSeg next prev b p (xs ++ [x]) q l) (hx : x ∉ xs) (r : Option ι) :
    DSeg (update next x r) prev b p (xs ++ [x]) r l := by
  obtain ⟨m, k, h1, rfl, hk, -, rfl⟩ := dseg_append.1 h
  exact dseg_append.2 ⟨_, k, (dseg_update_next hx r).2 h1, rfl, hk, update_self .., rfl⟩

/-- The first node's previous link can be redirected. -/
theorem DSeg.redirect_first (h : DSeg next prev b p (x :: xs) q l) (hx : x ∉ xs) (r : Option ι) :
    DSeg next (update prev x r) r p (x :: xs) q l :=
  ⟨h.1, update_self .., (dseg_update_prev hx r).2 h.2.2⟩

end DSeg

/-- A doubly linked list: its ends and its links. -/
structure Dll (ι : Type*) where
  head : Option ι
  tail : Option ι
  next : ι → Option ι
  prev : ι → Option ι

namespace Dll
variable [DecidableEq ι] {d : Dll ι} {x : ι} {xs ys zs : List ι}

/-- The list is `xs`. -/
def Rep (d : Dll ι) (xs : List ι) : Prop := xs.Nodup ∧ DSeg d.next d.prev none d.head xs none d.tail

/-- Takes a node out; its own links stay. -/
def unlink (d : Dll ι) (x : ι) : Dll ι where
  head := match d.prev x with
    | none => d.next x
    | some _ => d.head
  tail := match d.next x with
    | none => d.prev x
    | some _ => d.tail
  next := match d.prev x with
    | none => d.next
    | some y => update d.next y (d.next x)
  prev := match d.next x with
    | none => d.prev
    | some y => update d.prev y (d.prev x)

/-- Puts a node before the first one. -/
def pushFront (d : Dll ι) (x : ι) : Dll ι where
  head := some x
  tail := d.tail.or (some x)
  next := update d.next x d.head
  prev := match d.head with
    | none => update d.prev x none
    | some y => update (update d.prev x none) y (some x)

/-- Puts a node behind the last one. -/
def pushBack (d : Dll ι) (x : ι) : Dll ι where
  head := d.head.or (some x)
  tail := some x
  next := match d.tail with
    | none => update d.next x none
    | some y => update (update d.next x none) y (some x)
  prev := update d.prev x d.tail

omit [DecidableEq ι] in
theorem Rep.head_eq (h : d.Rep xs) : d.head = xs.head? := h.2.forward.head

omit [DecidableEq ι] in
theorem Rep.tail_eq (h : d.Rep xs) : d.tail = xs.getLast? := by
  rw [h.2.backward.head, List.head?_reverse]

omit [DecidableEq ι] in
/-- The links of a node in the list. -/
theorem Rep.links (h : d.Rep (ys ++ x :: zs)) : d.prev x = ys.getLast? ∧ d.next x = zs.head? := by
  obtain ⟨m, k, hys, rfl, hk, hzs⟩ := dseg_append.1 h.2
  refine ⟨?_, hzs.forward.head⟩
  rw [hk]
  rcases List.eq_nil_or_concat ys with rfl | ⟨ys, y, rfl⟩
  · exact hys.2
  · rw [List.concat_eq_append] at hys ⊢
    rw [hys.last.1, List.getLast?_concat]

omit [DecidableEq ι] in
/-- Among the nodes of a list the two links are inverse to each other. -/
theorem Rep.inverse {y : ι} (h : d.Rep xs) (hx : x ∈ xs) (hy : y ∈ xs) : d.next x = some y ↔ d.prev y = some x := by
  constructor
  · intro hn
    obtain ⟨ys, zs, rfl⟩ := List.append_of_mem hx
    rw [h.links.2] at hn
    cases zs with
    | nil => cases hn
    | cons z zs =>
      cases hn
      rw [List.append_cons] at h
      rw [h.links.1, List.getLast?_concat]
  · intro hp
    obtain ⟨ys, zs, rfl⟩ := List.append_of_mem hy
    rw [h.links.1] at hp
    rcases List.eq_nil_or_concat ys with rfl | ⟨ys, z, rfl⟩
    · cases hp
    · rw [List.concat_eq_append] at h hp
      rw [List.getLast?_concat] at hp
      cases hp
      rw [List.append_assoc] at h
      exact h.links.2

omit [DecidableEq ι] in
/-- The links of its nodes make a list. -/
theorem Rep.of_links (hn : xs.Nodup) (hhead : d.head = xs.head?) (htail : d.tail = xs.getLast?)
    (h : ∀ ys x zs, xs = ys ++ x :: zs → d.prev x = ys.getLast? ∧ d.next x = zs.head?) : d.Rep xs := by
  -- what is left of the list, after `ws`
  have hrest (xs ws : List ι) (h : ∀ ys x zs, ws ++ xs = ys ++ x :: zs → d.prev x = ys.getLast? ∧ d.next x = zs.head?) :
      DSeg d.next d.prev ws.getLast? xs.head? xs none (ws ++ xs).getLast? := by
    induction xs generalizing ws with
    | nil => exact ⟨rfl, by rw [List.append_nil]⟩
    | cons x xs ih =>
      obtain ⟨hprev, hnext⟩ := h ws x xs rfl
      have happ : ws ++ x :: xs = ws ++ [x] ++ xs := List.append_cons ..
      have hseg := ih (ws ++ [x]) (happ ▸ h)
      rw [List.getLast?_concat, ← happ, ← hnext] at hseg
      exact ⟨rfl, hprev, hseg⟩
  refine ⟨hn, ?_⟩
  rw [hhead, htail]
  exact hrest xs [] h

omit [DecidableEq ι] in
theorem Rep.prev_eq_none (h : d.Rep xs) (hx : x ∈ xs) : d.prev x = none ↔ xs.head? = some x := by
  obtain ⟨ys, zs, rfl⟩ := List.append_of_mem hx
  rw [h.links.1]
  cases ys with
  | nil => simp
  | cons y ys =>
    have hne : y ≠ x := by
      intro he
      have hn := h.1
      rw [he] at hn
      exact (List.nodup_cons.1 hn).1 (by simp)
    simp [List.getLast?_cons, hne]

omit [DecidableEq ι] in
theorem Rep.next_eq_none (h : d.Rep xs) (hx : x ∈ xs) : d.next x = none ↔ xs.getLast? = some x := by
  obtain ⟨ys, zs, rfl⟩ := List.append_of_mem hx
  rw [h.links.2]
  cases zs with
  | nil => simp
  | cons z zs =>
    have hx : x ∉ z :: zs := (List.nodup_cons.1 (List.nodup_append.1 h.1).2.1).1
    constructor
    · rintro ⟨⟩
    · intro hl
      rw [List.append_cons, List.getLast?_append] at hl
      cases hlast : (z :: zs).getLast? with
      | none => simp at hlast
      | some w =>
        rw [hlast] at hl
        obtain rfl : w = x := Option.some.inj hl
        exact (hx (List.mem_of_getLast? hlast)).elim

theorem Rep.unlink (h : d.Rep (ys ++ x :: zs)) : (d.unlink x).Rep (ys ++ zs) := by
  obtain ⟨hprev, hnext⟩ := h.links
  obtain ⟨hn, hd⟩ := h
  refine ⟨hn.sublist ((List.sublist_cons_self x zs).append_left ys), ?_⟩
  obtain ⟨m, k, hys, rfl, hk, hzs⟩ := dseg_append.1 hd
  rw [List.nodup_append, List.nodup_cons] at hn
  obtain ⟨hny, ⟨-, hnz⟩, hyz⟩ := hn
  -- the nodes after `x` now lead back to `k`
  have hzs' : DSeg d.next (d.unlink x).prev k (d.next x) zs none (d.unlink x).tail := by
    cases zs with
    | nil =>
      obtain ⟨hq, hl⟩ := hzs
      simp [DSeg, Dll.unlink, hq, hk]
    | cons z zs =>
      have hz : d.next x = some z := by simpa using hnext
      rw [hz] at hzs
      simp only [Dll.unlink, hz, hk]
      exact hzs.redirect_first (List.nodup_cons.1 hnz).1 k
  have hdisj (y : ι) (hy : y ∈ ys) : y ∉ zs := fun hz => hyz y hy y (List.mem_cons_of_mem _ hz) rfl
  have hys' : DSeg d.next (d.unlink x).prev none d.head ys (some x) k := by
    simp only [Dll.unlink]
    split
    · exact hys
    · next y hy =>
      refine (dseg_update_prev ?_ _).2 hys
      intro hm
      rw [hnext] at hy
      exact hdisj y hm (List.mem_of_mem_head? hy)
  rcases List.eq_nil_or_concat ys with rfl | ⟨ys, y, rfl⟩
  · obtain ⟨hp, rfl⟩ := hys
    have hnil : d.prev x = none := hk
    simp only [Dll.unlink, hnil] at hzs' ⊢
    simpa using hzs'
  · rw [List.concat_eq_append] at hys' hny hdisj hprev ⊢
    have hy : d.prev x = some y := by simpa using hprev
    have hky : k = some y := hk.symm.trans hy
    have hyn : y ∉ ys := by
      have := List.nodup_append.1 hny
      exact fun hm => this.2.2 y hm y (List.mem_singleton_self y) rfl
    refine dseg_append.2 ⟨d.next x, k, ?_, ?_⟩
    · simp only [Dll.unlink, hy] at hys' ⊢
      exact hys'.redirect_last hyn _
    · simp only [Dll.unlink, hy] at hzs' ⊢
      exact (dseg_update_next (hdisj y (by simp)) _).2 hzs'

theorem Rep.pushFront (h : d.Rep xs) (hx : x ∉ xs) : (d.pushFront x).Rep (x :: xs) := by
  obtain ⟨hn, hd⟩ := h
  refine ⟨List.nodup_cons.2 ⟨hx, hn⟩, rfl, ?_, ?_⟩
  · cases hh : d.head with
    | none => simp [Dll.pushFront, hh]
    | some y =>
      have hy : y ∈ xs := by
        have := hd.forward.head
        rw [hh] at this
        exact List.mem_of_mem_head? this.symm
      have hne : x ≠ y := fun h => hx (h ▸ hy)
      simp [Dll.pushFront, hh, hne]
  · rw [show (d.pushFront x).next x = d.head from update_self ..]
    refine (dseg_update_next hx _).2 ?_
    cases xs with
    | nil =>
      obtain ⟨hp, hl⟩ := hd
      simp [DSeg, Dll.pushFront, hp, hl]
    | cons y xs =>
      have hy : d.head = some y := hd.1
      have hl : d.tail.or (some x) = d.tail := by
        rw [Rep.tail_eq ⟨hn, hd⟩, List.getLast?_cons]
        rfl
      simp only [Dll.pushFront, hy, hl]
      rw [hy] at hd
      exact ((dseg_update_prev hx none).2 hd).redirect_first (List.nodup_cons.1 hn).1 _

/-- A node is moved to the front. -/
theorem Rep.toFront (h : d.Rep xs) (hx : x ∈ xs) : ((d.unlink x).pushFront x).Rep (x :: xs.erase x) := by
  obtain ⟨ys, zs, rfl⟩ := List.append_of_mem hx
  have hn := h.1
  rw [List.nodup_append, List.nodup_cons] at hn
  have hys : x ∉ ys := fun hm => hn.2.2 x hm x (List.mem_cons_self ..) rfl
  have herase : (ys ++ x :: zs).erase x = ys ++ zs := by
    rw [List.erase_append_right _ hys, List.erase_cons_head]
  rw [herase]
  exact h.unlink.pushFront (by simp [hys, hn.2.1.1])

theorem Rep.pushBack (h : d.Rep xs) (hx : x ∉ xs) : (d.pushBack x).Rep (xs ++ [x]) := by
  obtain ⟨hn, hd⟩ := h
  refine ⟨List.nodup_append.2 ⟨hn, by simp, by simpa using fun y hy (h : y = x) => hx (h ▸ hy)⟩, ?_⟩
  rcases List.eq_nil_or_concat xs with rfl | ⟨xs, y, rfl⟩
  · obtain ⟨hp, hl⟩ := hd
    simp [DSeg, Dll.pushBack, hp, hl]
  · rw [List.concat_eq_append] at hd hx hn ⊢
    have hl : d.tail = some y := hd.last.1
    have hh : d.head.or (some x) = d.head := by
      rw [Rep.head_eq ⟨hn, hd⟩]
      cases xs <;> rfl
    have hyn : y ∉ xs := fun hm => (List.nodup_append.1 hn).2.2 y hm y (List.mem_singleton_self y) rfl
    have hne : x ≠ y := fun h => hx (by simp [h])
    simp only [Dll.pushBack, hl, hh]
    refine dseg_append.2 ⟨some x, some y, ?_, rfl, update_self .., ?_, rfl⟩
    · have := ((dseg_update_prev hx (some y)).2 ((dseg_update_next hx none).2 hd)).redirect_last hyn (some x)
      rwa [this.last.1] at this
    · rw [update_of_ne hne, update_self]

end Dll

end Linked
