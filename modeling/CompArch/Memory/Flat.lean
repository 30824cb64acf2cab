import CompArch.Memory.Pages
import Mathlib.Data.List.Dedup
/-!
# The paged memory as a map from addresses to bytes

Whatever pages there are and in whatever order their translations stand, the memory
holds one byte at every address, and zero where nothing was written.
-/

namespace Memory

open Function Unlink

/-! ## Numbers and their bytes -/

section Bytes
variable {n i : Nat} {f g : Nat → Byte}

theorem number_congr (h : ∀ i < n, f i = g i) : number f n = number g n := by
  induction n generalizing f g with
  | zero => rfl
  | succ n ih =>
    unfold number
    rw [h 0 (Nat.succ_pos n), ih fun i hi => h (i + 1) (Nat.succ_lt_succ hi)]

/-- A byte of a number is the one it was made of. -/
theorem byteOf_number (hi : i < n) : byteOf (number f n) i = f i := by
  induction n generalizing f i with
  | zero => cases hi
  | succ n ih =>
    unfold number byteOf
    cases i with
    | zero =>
      apply BitVec.eq_of_getLsbD_eq
      intro j hj
      simp [BitVec.getLsbD_append, hj]
    | succ i =>
      have hb := ih (f := fun i => f (i + 1)) (Nat.lt_of_succ_lt_succ hi)
      rw [← hb]
      apply BitVec.eq_of_getLsbD_eq
      intro j hj
      have hge : ¬ 8 * (i + 1) + j < 8 := by omega
      have hsub : 8 * (i + 1) + j - 8 = 8 * i + j := by omega
      simp [byteOf, BitVec.getLsbD_append, hj, hge, hsub]

theorem getLsbD_byteOf {v : BitVec (8 * n)} {j : Nat} (hj : j < 8) :
    (byteOf v i).getLsbD j = v.getLsbD (8 * i + j) := by
  simp [byteOf, hj]

/-- A number is made of its bytes. -/
theorem number_byteOf (v : BitVec (8 * n)) : number (byteOf v) n = v := by
  apply BitVec.eq_of_getLsbD_eq
  intro j hj
  have hb := byteOf_number (f := byteOf v) (i := j / 8) (n := n) (by omega)
  have hj' : 8 * (j / 8) + j % 8 = j := by omega
  have h1 := getLsbD_byteOf (v := number (byteOf v) n) (i := j / 8) (j := j % 8) (by omega)
  have h2 := getLsbD_byteOf (v := v) (i := j / 8) (j := j % 8) (by omega)
  rw [hj'] at h1 h2
  rw [← h1, ← h2, hb]

end Bytes

/-! ## Addresses -/

section Addresses
variable {a b : Addr}

/-- The number of the virtual page of an address. -/
def pageOf (a : Addr) : Addr := a >>> MD_LOG_PAGE_SIZE

theorem MEM_OFFSET_eq (a : Addr) : MEM_OFFSET a = a.toNat % 4096 := by
  have h : (BitVec.ofNat 32 (MD_PAGE_SIZE - 1)).toNat = 2 ^ 12 - 1 := rfl
  rw [MEM_OFFSET, BitVec.toNat_and, h, Nat.and_two_pow_sub_one_eq_mod]

theorem MEM_OFFSET_lt (a : Addr) : MEM_OFFSET a < MD_PAGE_SIZE := by
  rw [MEM_OFFSET_eq]
  exact Nat.mod_lt _ (by decide)

theorem toNat_pageOf (a : Addr) : (pageOf a).toNat = a.toNat / 4096 := by
  rw [pageOf, BitVec.toNat_ushiftRight, Nat.shiftRight_eq_div_pow]
  rfl

theorem toNat_set (a : Addr) : (MEM_PTAB_SET a).toNat = a.toNat / 4096 % 32768 := by
  have h : (BitVec.ofNat 32 (MEM_PTAB_SIZE - 1)).toNat = 2 ^ 15 - 1 := rfl
  rw [MEM_PTAB_SET, BitVec.toNat_and, h, Nat.and_two_pow_sub_one_eq_mod, ← toNat_pageOf]
  rfl

theorem toNat_tag (a : Addr) : (MEM_PTAB_TAG a).toNat = a.toNat / 4096 / 32768 := by
  rw [MEM_PTAB_TAG, BitVec.toNat_ushiftRight, Nat.shiftRight_eq_div_pow, Nat.div_div_eq_div_mul]
  rfl

/-- The bucket and the tag are the page. -/
theorem pageOf_eq_iff : pageOf a = pageOf b ↔ MEM_PTAB_SET a = MEM_PTAB_SET b ∧ MEM_PTAB_TAG a = MEM_PTAB_TAG b := by
  rw [← BitVec.toNat_inj, ← BitVec.toNat_inj, ← BitVec.toNat_inj, toNat_pageOf, toNat_pageOf, toNat_set, toNat_set,
    toNat_tag, toNat_tag]
  omega

/-- The addresses of an access that does not run past the end of its page. -/
theorem page_offset_add {i : Nat} (h : MEM_OFFSET a + i < MD_PAGE_SIZE) :
    pageOf (a + BitVec.ofNat 32 i) = pageOf a ∧ MEM_OFFSET (a + BitVec.ofNat 32 i) = MEM_OFFSET a + i := by
  have hsize : MD_PAGE_SIZE = 4096 := rfl
  have ha := a.isLt
  rw [← BitVec.toNat_inj, toNat_pageOf, toNat_pageOf, MEM_OFFSET_eq, MEM_OFFSET_eq, BitVec.toNat_add,
    BitVec.toNat_ofNat]
  rw [MEM_OFFSET_eq] at h
  omega

theorem sub_lt_iff {n : Nat} (h : MEM_OFFSET a + n ≤ MD_PAGE_SIZE) :
    (b - a).toNat < n ↔ pageOf b = pageOf a ∧ MEM_OFFSET a ≤ MEM_OFFSET b ∧ MEM_OFFSET b < MEM_OFFSET a + n := by
  have hsize : MD_PAGE_SIZE = 4096 := rfl
  have ha := a.isLt
  have hb := b.isLt
  rw [← BitVec.toNat_inj, toNat_pageOf, toNat_pageOf, MEM_OFFSET_eq, MEM_OFFSET_eq, BitVec.toNat_sub]
  rw [MEM_OFFSET_eq] at h
  omega

theorem toNat_sub_of_page (hp : pageOf b = pageOf a) (ho : MEM_OFFSET a ≤ MEM_OFFSET b) :
    (b - a).toNat = MEM_OFFSET b - MEM_OFFSET a := by
  have ha := a.isLt
  have hb := b.isLt
  rw [← BitVec.toNat_inj, toNat_pageOf, toNat_pageOf] at hp
  rw [MEM_OFFSET_eq, MEM_OFFSET_eq] at ho ⊢
  rw [BitVec.toNat_sub]
  omega

end Addresses

/-! ## A byte at every address -/

/-- A memory without pages. -/
abbrev Flat := Addr → Byte

namespace Flat

def read (f : Flat) (a : Addr) (n : Nat) : BitVec (8 * n) := number (fun i => f (a + BitVec.ofNat 32 i)) n

/-- Puts `n` bytes at `a`. -/
def put (f : Flat) (a : Addr) (p : Nat → Byte) (n : Nat) : Flat := fun b =>
  if (b - a).toNat < n then p (b - a).toNat else f b

def write {n : Nat} (f : Flat) (a : Addr) (v : BitVec (8 * n)) : Flat := f.put a (byteOf v) n

end Flat

namespace Mem

variable {m m' : Mem} {a b : Addr}

/-- The host page of an address. -/
def page? (m : Mem) (a : Addr) : Option Core :=
  ((m.ptab (MEM_PTAB_SET a)).find? fun pte => pte.tag = MEM_PTAB_TAG a).map Pte.page

def flat (m : Mem) : Flat := fun a =>
  match m.page? a with
  | none => 0
  | some p => m.core p (MEM_OFFSET a)

/-- `page_count` is the number of pages that are there. -/
def Counted (m : Mem) : Prop :=
  ∃ pages : List Addr, pages.Nodup ∧ pages.length = m.page_count ∧
    ∀ q, q ∈ pages ↔ ∃ a, pageOf a = q ∧ (m.page? a).isSome

/-- No page is translated twice, and no host page serves two. -/
structure Ok (m : Mem) : Prop where
  tags (set : Addr) : ((m.ptab set).map Pte.tag).Nodup
  pages {set set' : Addr} {pte pte' : Pte} : pte ∈ m.ptab set → pte' ∈ m.ptab set' → pte.page = pte'.page →
    set = set' ∧ pte.tag = pte'.tag
  below {set : Addr} {pte : Pte} : pte ∈ m.ptab set → pte.page < m.allocated
  counted : m.Counted

theorem ok_init : mem_init.Ok where
  tags _ := List.nodup_nil
  pages h := (List.not_mem_nil h).elim
  below h := (List.not_mem_nil h).elim
  counted := ⟨[], List.nodup_nil, rfl, fun q => by simp [page?, mem_init]⟩

theorem flat_init : mem_init.flat = fun _ => 0 := rfl

theorem Ok.page?_eq (h : m.Ok) {p : Core} :
    m.page? a = some p ↔ ∃ pte ∈ m.ptab (MEM_PTAB_SET a), pte.tag = MEM_PTAB_TAG a ∧ pte.page = p := by
  rw [page?, Option.map_eq_some_iff]
  simp only [find?_key (h.tags _), and_assoc]

theorem page?_eq_none : m.page? a = none ↔ ∀ pte ∈ m.ptab (MEM_PTAB_SET a), pte.tag ≠ MEM_PTAB_TAG a := by
  simp [page?]

/-- Addresses of one page share their host page. -/
theorem page?_congr (h : pageOf a = pageOf b) : m.page? a = m.page? b := by
  obtain ⟨hs, ht⟩ := pageOf_eq_iff.1 h
  rw [page?, page?, hs, ht]

/-- Two pages do not share a host page. -/
theorem Ok.page_inj (h : m.Ok) {p : Core} (ha : m.page? a = some p) (hb : m.page? b = some p) :
    pageOf a = pageOf b := by
  obtain ⟨pte, hm, ht, hp⟩ := h.page?_eq.1 ha
  obtain ⟨pte', hm', ht', hp'⟩ := h.page?_eq.1 hb
  obtain ⟨hs, htag⟩ := h.pages hm hm' (hp.trans hp'.symm)
  exact pageOf_eq_iff.2 ⟨hs, by rw [← ht, ← ht', htag]⟩

/-! ## Lookups -/

/-- The same pages, perhaps found in another order. -/
structure Moved (m m' : Mem) : Prop where
  perm (set : Addr) : (m'.ptab set).Perm (m.ptab set)
  core : m'.core = m.core
  allocated : m'.allocated = m.allocated
  page_count : m'.page_count = m.page_count

theorem Moved.refl : Moved m m := ⟨fun _ => .refl _, rfl, rfl, rfl⟩

theorem Moved.trans {m'' : Mem} (h : Moved m m') (h' : Moved m' m'') : Moved m m'' :=
  ⟨fun set => (h'.perm set).trans (h.perm set), h'.core.trans h.core, h'.allocated.trans h.allocated,
    h'.page_count.trans h.page_count⟩

theorem Moved.page? (hm : Moved m m') (h : m.Ok) (a : Addr) : m'.page? a = m.page? a := by
  rw [Mem.page?, Mem.page?, find?_perm (h.tags _) (hm.perm _)]

theorem Moved.ok (hm : Moved m m') (h : m.Ok) : m'.Ok where
  tags set := (((hm.perm set).map Pte.tag).nodup_iff).2 (h.tags set)
  pages hp hp' he := h.pages ((hm.perm _).subset hp) ((hm.perm _).subset hp') he
  below hp := hm.allocated ▸ h.below ((hm.perm _).subset hp)
  counted := by
    obtain ⟨pages, hn, hl, hp⟩ := h.counted
    exact ⟨pages, hn, hl.trans hm.page_count.symm, fun q => by simp only [hp, hm.page? h]⟩

theorem Moved.flat (hm : Moved m m') (h : m.Ok) : m'.flat = m.flat := by
  funext a
  rw [Mem.flat, Mem.flat, hm.page? h, hm.core]

theorem mem_translate_spec (m : Mem) (a : Addr) :
    (m.mem_translate a).1 = m.page? a ∧ Moved m (m.mem_translate a).2 := by
  unfold mem_translate
  dsimp only
  cases hu : unlink (fun pte => pte.tag = MEM_PTAB_TAG a) (m.ptab (MEM_PTAB_SET a)) with
  | none => exact ⟨by simp [page?, find?_eq_unlink, hu], ⟨fun _ => .refl _, rfl, rfl, rfl⟩⟩
  | some r =>
    obtain ⟨pte, rest⟩ := r
    refine ⟨by simp [page?, find?_eq_unlink, hu], ⟨fun set => ?_, rfl, rfl, rfl⟩⟩
    show (update m.ptab (MEM_PTAB_SET a) (pte :: rest) set).Perm (m.ptab set)
    by_cases hs : set = MEM_PTAB_SET a
    · rw [hs, update_self]
      exact unlink_perm hu
    · rw [update_of_ne hs]

/-- A lookup finds the page of the address and changes no more than the order of a bucket. -/
theorem MEM_PAGE_spec (m : Mem) (a : Addr) : (m.MEM_PAGE a).1 = m.page? a ∧ Moved m (m.MEM_PAGE a).2 := by
  unfold MEM_PAGE
  split
  case h_1 => exact mem_translate_spec m a
  case h_2 pte rest hb =>
    by_cases ht : pte.tag = MEM_PTAB_TAG a
    · rw [if_pos ht]
      exact ⟨by simp [page?, hb, ht], ⟨fun _ => .refl _, rfl, rfl, rfl⟩⟩
    · rw [if_neg ht]
      exact mem_translate_spec m a

/-! ## New pages -/

theorem mem_newpage_page? (m : Mem) (a b : Addr) :
    (m.mem_newpage a).page? b = if pageOf b = pageOf a then some m.allocated else m.page? b := by
  have hset : (m.mem_newpage a).ptab =
      update m.ptab (MEM_PTAB_SET a) (⟨MEM_PTAB_TAG a, m.allocated⟩ :: m.ptab (MEM_PTAB_SET a)) := rfl
  by_cases hs : MEM_PTAB_SET b = MEM_PTAB_SET a
  · by_cases ht : MEM_PTAB_TAG b = MEM_PTAB_TAG a
    · rw [if_pos (pageOf_eq_iff.2 ⟨hs, ht⟩), page?, hset, hs, update_self, ht, List.find?_cons_of_pos (by simp)]
      rfl
    · rw [if_neg fun hp => ht (pageOf_eq_iff.1 hp).2, page?, hset, hs, update_self,
        List.find?_cons_of_neg (by simpa using Ne.symm ht), page?, hs]
  · rw [if_neg fun hp => hs (pageOf_eq_iff.1 hp).1, page?, hset, update_of_ne hs, page?]

theorem mem_newpage_ok (h : m.Ok) (hn : m.page? a = none) : (m.mem_newpage a).Ok := by
  have hmem {set : Addr} {pte : Pte} (hp : pte ∈ (m.mem_newpage a).ptab set) :
      pte ∈ m.ptab set ∨ set = MEM_PTAB_SET a ∧ pte = ⟨MEM_PTAB_TAG a, m.allocated⟩ := by
    change pte ∈ update m.ptab (MEM_PTAB_SET a) (⟨MEM_PTAB_TAG a, m.allocated⟩ :: m.ptab (MEM_PTAB_SET a)) set at hp
    by_cases hs : set = MEM_PTAB_SET a
    · rw [hs, update_self, List.mem_cons] at hp
      rcases hp with hp | hp
      · exact .inr ⟨hs, hp⟩
      · exact .inl (hs ▸ hp)
    · rw [update_of_ne hs] at hp
      exact .inl hp
  refine ⟨fun set => ?_, fun {set set' pte pte'} hp hp' he => ?_, fun hp => ?_, ?_⟩
  · show ((update m.ptab (MEM_PTAB_SET a) (⟨MEM_PTAB_TAG a, m.allocated⟩ :: m.ptab (MEM_PTAB_SET a)) set).map
      Pte.tag).Nodup
    by_cases hs : set = MEM_PTAB_SET a
    · rw [hs, update_self, List.map_cons, List.nodup_cons]
      refine ⟨?_, h.tags _⟩
      intro ht
      obtain ⟨pte, hp, htag⟩ := List.mem_map.1 ht
      exact page?_eq_none.1 hn pte hp htag
    · rw [update_of_ne hs]
      exact h.tags set
  · rcases hmem hp with hp | ⟨hs, rfl⟩ <;> rcases hmem hp' with hp' | ⟨hs', rfl⟩
    · exact h.pages hp hp' he
    · have := h.below hp
      exact absurd he (Nat.ne_of_lt this)
    · have := h.below hp'
      exact absurd he.symm (Nat.ne_of_lt this)
    · exact ⟨hs.trans hs'.symm, rfl⟩
  · show _ < m.allocated + 1
    rcases hmem hp with hp | ⟨-, rfl⟩
    · exact Nat.lt_succ_of_lt (h.below hp)
    · exact Nat.lt_succ_self _
  · obtain ⟨pages, hnodup, hl, hp⟩ := h.counted
    refine ⟨pageOf a :: pages, List.nodup_cons.2 ⟨fun ha => ?_, hnodup⟩, congrArg (· + 1) hl, fun q => ?_⟩
    · obtain ⟨b, hb, hs⟩ := (hp _).1 ha
      rw [page?_congr hb, hn] at hs
      cases hs
    · simp only [mem_newpage_page?, List.mem_cons, hp]
      constructor
      · rintro (rfl | ⟨b, rfl, hb⟩)
        · exact ⟨a, rfl, by simp⟩
        · refine ⟨b, rfl, ?_⟩
          split
          · rfl
          · exact hb
      · rintro ⟨b, rfl, hb⟩
        by_cases hab : pageOf b = pageOf a
        · exact .inl hab
        · rw [if_neg hab] at hb
          exact .inr ⟨b, rfl, hb⟩

theorem Ok.page_lt (h : m.Ok) {p : Core} (hp : m.page? a = some p) : p < m.allocated := by
  obtain ⟨pte, hm, -, rfl⟩ := h.page?_eq.1 hp
  exact h.below hm

/-- A new page holds what was there before: nothing. -/
theorem mem_newpage_flat (h : m.Ok) (hn : m.page? a = none) : (m.mem_newpage a).flat = m.flat := by
  have hcore : (m.mem_newpage a).core = update m.core m.allocated fun _ => 0 := rfl
  funext b
  rw [flat, mem_newpage_page?]
  by_cases hp : pageOf b = pageOf a
  · rw [if_pos hp, flat, page?_congr hp, hn]
    simp only [hcore, update_self]
  · rw [if_neg hp, flat]
    cases hb : m.page? b with
    | none => rfl
    | some p => simp only [hcore, update_of_ne (Nat.ne_of_lt (h.page_lt hb))]

/-- The pages of the addresses `W` are added. -/
def Grows (m m' : Mem) (W : Addr → Prop) : Prop :=
  ∀ b, (m'.page? b).isSome ↔ (m.page? b).isSome ∨ ∃ a, W a ∧ pageOf a = pageOf b

theorem Moved.grows (hm : Moved m m') (h : m.Ok) {W : Addr → Prop} (hW : ∀ a, ¬ W a) : Grows m m' W := by
  intro b
  rw [hm.page? h]
  simp [hW]

theorem Grows.trans {m'' : Mem} {W W' W'' : Addr → Prop} (h : Grows m m' W) (h' : Grows m' m'' W')
    (hW : ∀ a, W'' a ↔ W a ∨ W' a) : Grows m m'' W'' := by
  intro b
  rw [h', h]
  simp only [hW, or_and_right, exists_or, or_assoc]

/-- `MEM_TICKLE` adds the page of the address, if it is not there. -/
theorem MEM_TICKLE_spec (h : m.Ok) (a : Addr) :
    (m.MEM_TICKLE a).Ok ∧ (m.MEM_TICKLE a).flat = m.flat ∧ Grows m (m.MEM_TICKLE a) (· = a) := by
  obtain ⟨hp, hm⟩ := MEM_PAGE_spec m a
  unfold MEM_TICKLE
  cases hr : m.MEM_PAGE a with
  | mk r m' =>
    rw [hr] at hp hm
    dsimp only at hp hm
    cases r with
    | none =>
      have hn : m'.page? a = none := (hm.page? h a).trans hp.symm
      refine ⟨mem_newpage_ok (hm.ok h) hn, (mem_newpage_flat (hm.ok h) hn).trans (hm.flat h), fun b => ?_⟩
      show ((m'.mem_newpage a).page? b).isSome ↔ _
      rw [mem_newpage_page?, hm.page? h]
      by_cases hb : pageOf b = pageOf a
      · simp [hb]
      · simp [hb, Ne.symm hb]
    | some p =>
      refine ⟨hm.ok h, hm.flat h, fun b => ?_⟩
      show (m'.page? b).isSome ↔ _
      rw [hm.page? h]
      constructor
      · exact .inl
      · rintro (hb | ⟨c, rfl, hb⟩)
        · exact hb
        · rw [← page?_congr hb, ← hp]
          rfl

/-! ## Accesses that stay in their page -/

variable {n : Nat}

theorem flat_add (hn : MEM_OFFSET a + n ≤ MD_PAGE_SIZE) {i : Nat} (hi : i < n) :
    m.flat (a + BitVec.ofNat 32 i) =
      match m.page? a with
      | none => 0
      | some p => m.core p (MEM_OFFSET a + i) := by
  obtain ⟨hp, ho⟩ := page_offset_add (a := a) (i := i) (by omega)
  rw [flat, page?_congr hp, ho]

/-- A read gives what is there, and leaves it there. -/
theorem MEM_READ_spec (h : m.Ok) (hn : MEM_OFFSET a + n ≤ MD_PAGE_SIZE) :
    ∃ m', m.MEM_READ n a = .ok (m.flat.read a n, m') ∧ Moved m m' := by
  obtain ⟨hp, hm⟩ := MEM_PAGE_spec m a
  unfold MEM_READ
  cases hr : m.MEM_PAGE a with
  | mk r m₁ =>
    rw [hr] at hp hm
    dsimp only at hp hm
    cases r with
    | none =>
      refine ⟨m₁, ?_, hm⟩
      have hz : m.flat.read a n = 0 := by
        rw [Flat.read, number_congr (g := byteOf (0 : BitVec (8 * n))), number_byteOf]
        intro i hi
        rw [flat_add hn hi, ← hp]
        simp [byteOf]
      rw [hz]
    | some p =>
      obtain ⟨hp₁, hm₁⟩ := MEM_PAGE_spec m₁ a
      rw [hm.page? h, ← hp] at hp₁
      dsimp only
      cases hr₁ : m₁.MEM_PAGE a with
      | mk r₁ m₂ =>
        rw [hr₁] at hp₁ hm₁
        dsimp only at hp₁ hm₁ ⊢
        subst hp₁
        have hv : (m₂.core p).load (MEM_OFFSET a) n = m.flat.read a n := by
          apply number_congr
          intro i hi
          rw [flat_add hn hi, ← hp, hm₁.core, hm.core]
        refine ⟨m₂, ?_, hm.trans hm₁⟩
        rw [← hv]
        exact if_pos hn

/-- Whatever it gives: a read behind the end of a page that is not there gives zeros. -/
theorem MEM_READ_moved {v : BitVec (8 * n)} (hr : m.MEM_READ n a = .ok (v, m')) : Moved m m' := by
  obtain ⟨-, hm⟩ := MEM_PAGE_spec m a
  unfold MEM_READ at hr
  cases hp : m.MEM_PAGE a with
  | mk r m₁ =>
    rw [hp] at hm hr
    cases r with
    | none =>
      obtain ⟨-, rfl⟩ := Prod.mk.inj (Except.ok.inj hr)
      exact hm
    | some p =>
      obtain ⟨-, hm₁⟩ := MEM_PAGE_spec m₁ a
      dsimp only at hr
      cases hp₁ : m₁.MEM_PAGE a with
      | mk r₁ m₂ =>
        rw [hp₁] at hm₁ hr
        cases r₁ with
        | none => cases hr
        | some p₁ =>
          dsimp only at hr
          split at hr
          case isTrue =>
            obtain ⟨-, rfl⟩ := Prod.mk.inj (Except.ok.inj hr)
            exact hm.trans hm₁
          case isFalse => cases hr

/-- A write changes the bytes of the number it writes. -/
theorem MEM_WRITE_spec (h : m.Ok) (hn : MEM_OFFSET a + n ≤ MD_PAGE_SIZE) (v : BitVec (8 * n)) :
    ∃ m', m.MEM_WRITE a v = .ok m' ∧ m'.Ok ∧ m'.flat = m.flat.write a v ∧ Grows m m' (· = a) := by
  obtain ⟨hok, hflat, hgrows⟩ := MEM_TICKLE_spec h a
  obtain ⟨p, hp⟩ := Option.isSome_iff_exists.1 ((hgrows a).2 (.inr ⟨a, rfl, rfl⟩))
  obtain ⟨hr, hm⟩ := MEM_PAGE_spec (m.MEM_TICKLE a) a
  unfold MEM_WRITE
  cases hpage : (m.MEM_TICKLE a).MEM_PAGE a with
  | mk r m₁ =>
    rw [hpage] at hr hm
    dsimp only at hr hm ⊢
    rw [hp] at hr
    subst hr
    have hok₁ := hm.ok hok
    have hp₁ : m₁.page? a = some p := (hm.page? hok a).trans hp
    refine ⟨{ m₁ with core := update m₁.core p ((m₁.core p).store (MEM_OFFSET a) v) }, if_pos hn,
      ⟨hok₁.tags, hok₁.pages, hok₁.below, hok₁.counted⟩, ?_, fun b => ?_⟩
    swap
    · show (m₁.page? b).isSome ↔ _
      rw [hm.page? hok]
      exact hgrows b
    rw [← hflat, ← hm.flat hok]
    funext b
    rw [Flat.write, Flat.put]
    show (match m₁.page? b with
      | none => 0
      | some q => update m₁.core p ((m₁.core p).store (MEM_OFFSET a) v) q (MEM_OFFSET b)) = _
    by_cases hab : pageOf b = pageOf a
    · rw [page?_congr hab, hp₁, if_congr (sub_lt_iff hn) rfl rfl]
      simp only [update_self, Page.store, hab, true_and]
      by_cases ho : MEM_OFFSET a ≤ MEM_OFFSET b ∧ MEM_OFFSET b < MEM_OFFSET a + n
      · rw [if_pos ho, if_pos ho, toNat_sub_of_page hab ho.1]
      · rw [if_neg ho, if_neg ho, flat, page?_congr hab, hp₁]
    · rw [if_neg fun hlt => hab ((sub_lt_iff hn).1 hlt).1, flat]
      cases hb : m₁.page? b with
      | none => rfl
      | some q =>
        have hq : q ≠ p := fun he => hab (hok₁.page_inj (he ▸ hb) hp₁)
        simp only [update_of_ne hq]

theorem MEM_WRITE_in_page {v : BitVec (8 * n)} (hw : m.MEM_WRITE a v = .ok m') : MEM_OFFSET a + n ≤ MD_PAGE_SIZE := by
  unfold MEM_WRITE at hw
  split at hw
  case h_1 => cases hw
  case h_2 =>
    split at hw
    case isTrue hn => exact hn
    case isFalse => cases hw

end Mem

end Memory
