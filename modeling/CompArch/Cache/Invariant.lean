import CompArch.Cache.Address
import CompArch.Cache.Contents
/-!
# A cache between two calls

Every set is sound, and `last_blk` is the block of `last_tagset` or none, at the
head of its way list under LRU. Then a lookup that passes the checks of
`cache_access` finds the block of its address or tells that it is not there,
with one exception: block 0 while there is no last block.
-/

namespace Cache

open Function

variable {g : Geometry} {σ : Type}

namespace Store

/-- The pointer `p` is to the valid block of an address. -/
def Holds (st : Store g) (addr : Addr) (p : g.SetIdx × g.Way) : Prop :=
  p.1 = CACHE_SET g addr ∧ (st.sets p.1).holds (CACHE_TAG g addr) p.2 = true

/-- The block of an address is in the cache. -/
def Resident (st : Store g) (addr : Addr) : Prop := CACHE_TAG g addr ∈ (st.sets (CACHE_SET g addr)).contents

/-- A cache between two calls. -/
structure Ok (st : Store g) : Prop where
  sets : ∀ i, (st.sets i).Sound
  last : ∀ p, st.last_blk = some p → ∃ addr, CACHE_TAGSET g.toParams addr = st.last_tagset ∧ st.Holds addr p ∧
    (g.policy = .LRU → (st.sets p.1).order.head? = some p.2)
  unset : st.last_blk = none → st.last_tagset = 0

variable {st st' : Store g} {addr addr' nbytes : Addr} {p : g.SetIdx × g.Way}

/-! ## Blocks and residence -/

theorem Holds.congr (ha : CACHE_TAGSET g.toParams addr = CACHE_TAGSET g.toParams addr') (h : st.Holds addr p) :
    st.Holds addr' p := by
  obtain ⟨hs, ht⟩ := (same_block_iff g addr addr').1 ha
  unfold Holds at h ⊢
  rwa [← hs, ← ht]

theorem Resident.congr (ha : CACHE_TAGSET g.toParams addr = CACHE_TAGSET g.toParams addr') (h : st.Resident addr) :
    st.Resident addr' := by
  obtain ⟨hs, ht⟩ := (same_block_iff g addr addr').1 ha
  unfold Resident at h ⊢
  rwa [← hs, ← ht]

theorem Ok.resident_iff (h : st.Ok) : st.Resident addr ↔ ∃ p, st.Holds addr p := by
  have hok := (h.sets (CACHE_SET g addr)).ok
  rw [Resident, hok.contents_eq, hok.mem_tagsOf]
  constructor
  · rintro ⟨b, hb⟩
    exact ⟨(CACHE_SET g addr, b), rfl, hb⟩
  · rintro ⟨⟨i, b⟩, rfl, hb⟩
    exact ⟨b, hb⟩

/-- `cache_probe` tells whether a block is in the cache. -/
theorem Ok.probe (h : st.Ok) (addr : Addr) : ∃ r, st.cache_probe addr = .ok r ∧ (r = true ↔ st.Resident addr) := by
  obtain ⟨r, hr, hm⟩ := (h.sets (CACHE_SET g addr)).ok.find_isSome (CACHE_TAG g addr)
  refine ⟨r.isSome, ?_, hm⟩
  rw [cache_probe, hr]
  rfl

theorem Ok.probe_iff (h : st.Ok) : st.cache_probe addr = .ok true ↔ st.Resident addr := by
  obtain ⟨r, hr, hres⟩ := h.probe addr
  rw [hr, ← hres, Except.ok.injEq]

theorem Ok.resident_eq (h : st.Ok) (addr : Addr) : st.resident addr = true ↔ st.Resident addr := by
  obtain ⟨r, hr, hm⟩ := h.probe addr
  rw [← hm, resident, hr]

theorem ok_create : (cache_create g).Ok where
  sets _ := setOk_create.sound fun _ => by
    apply List.pairwise_of_forall
    intro a b hb
    have hv : (cache_create g).sets = fun _ => (List.finRange g.assoc).foldl CacheSet.insert {} := rfl
    rw [(foldl_insert_ok (List.nodup_finRange g.assoc)).2.2.2] at hb
    cases hb
  last _ hp := by cases hp
  unset _ := rfl

/-! ## The lookup -/

/-- The two checks of `cache_access` pass. -/
def Passes (cp : Params) (addr nbytes : Addr) : Prop :=
  ¬ (nbytes &&& (nbytes - 1) ≠ 0 ∨ addr &&& (nbytes - 1) ≠ 0) ∧ ¬ Spans cp addr nbytes

/-- What a lookup can find. -/
inductive Looked (st : Store g) (addr : Addr) : Exit × Option (g.SetIdx × g.Way) → Prop
  | miss : ¬ st.Resident addr → Looked st addr (.miss, none)
  | slow (p : g.SetIdx × g.Way) : st.Holds addr p → Looked st addr (.cache_hit, some p)
  | fast (p : g.SetIdx × g.Way) : st.Holds addr p → (g.policy = .LRU → (st.sets p.1).order.head? = some p.2) →
      Looked st addr (.cache_fast_hit, some p)
  /-- The shortcut is taken with no last block. -/
  | null : st.last_blk = none → CACHE_TAGSET g.toParams addr = 0 → st.last_tagset = 0 →
      Looked st addr (.cache_fast_hit, none)

theorem lookup_fatal (st : Store g) (h : ¬ Passes g.toParams addr nbytes) :
    ∃ text, st.lookup addr nbytes = .error (.fatal text addr) := by
  unfold lookup
  by_cases hs : nbytes &&& (nbytes - 1) ≠ 0 ∨ addr &&& (nbytes - 1) ≠ 0
  · exact ⟨_, if_pos hs⟩
  · have hsp : Spans g.toParams addr nbytes := by
      by_contra hsp
      exact h ⟨hs, hsp⟩
    rw [if_neg hs]
    exact ⟨_, if_pos hsp⟩

theorem Ok.lookup (h : st.Ok) (hp : Passes g.toParams addr nbytes) :
    ∃ r, st.lookup addr nbytes = .ok r ∧ Looked st addr r := by
  have hin : ¬ (addr &&& ~~~g.blk_mask) + g.bsize < addr + nbytes := hp.2
  unfold Store.lookup
  rw [if_neg hp.1, if_neg hin]
  by_cases hl : CACHE_TAGSET g.toParams addr = st.last_tagset
  · rw [if_pos hl]
    refine ⟨_, rfl, ?_⟩
    cases hb : st.last_blk with
    | none =>
      have h0 := h.unset hb
      exact .null hb (hl.trans h0) h0
    | some p =>
      obtain ⟨addr', ht, hh, hhead⟩ := h.last p hb
      exact .fast p (hh.congr (ht.trans hl.symm)) hhead
  · rw [if_neg hl]
    obtain ⟨r, hr, hf⟩ := (h.sets (CACHE_SET g addr)).ok.find_ok (CACHE_TAG g addr)
    simp only [hr]
    cases r with
    | some b => exact ⟨_, rfl, .slow _ ⟨rfl, (hf b).1 rfl⟩⟩
    | none =>
      refine ⟨_, rfl, .miss ?_⟩
      rw [h.resident_iff]
      rintro ⟨⟨i, b⟩, rfl, hb⟩
      cases (hf b).2 hb

end Store

end Cache
