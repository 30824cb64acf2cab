import CompArch.Cache.Calls
/-!
# Where the lookups agree

`cache_access` finds a block through the last block, the hash chains or the way
list, and `cache_probe` through the latter two. They agree on an access within a
block but for two defects: `last_tagset` is 0 when there is no last block, which
is also the tag and set of block 0, and the check that an access stays in its
block overflows in the last block of the address space.
-/

namespace Cache

open Function Outcome

variable {g : Geometry} {σ : Type} {env : Env σ} {st : Store g} {addr nbytes : Addr}

/-- The states an access can find the cache in: between two calls, and in a demand
access that is at its prefetches. -/
inductive Visited (env : Env σ) : Store g → Prop
  | between {s : Store g × World σ} : Reached env s → Visited env s.1
  | inside {st st₁ st₂ : Store g} {w w₁ w₂ : World σ} {cmd : Cmd} {addr nbytes pc : Addr} {exit : Exit}
      {blk : Option (g.SetIdx × g.Way)} {pf rest : List Addr} {s : Statics} :
      Reached env (st, w) → st.access env cmd addr nbytes false w = .ok (exit, blk, st₁, w₁) →
      generate_prefetch g.toParams w₁.statics { addr, pc, resident := st₁.resident } = some (pf ++ rest, s) →
      st₁.fetch env { w₁ with statics := s } pf = .ok (st₂, w₂) → Visited env st₂

theorem Visited.ok (h : Visited env st) : st.Ok := by
  cases h with
  | between hr => exact hr.ok
  | inside hr ha hg hf =>
    have h₁ := ((Store.access_ok hr.ok env.keeps_true trivial).of_ok ha).1.ok hr.ok
    exact ((Store.fetch_ok h₁ env.keeps_true trivial _).of_ok hf).1.ok h₁

namespace Store

/-- `cache_access` takes a hit exit exactly when `cache_probe` finds the block, and
then uses the valid block of the address's set with its tag. -/
structure Agrees (st : Store g) (addr nbytes : Addr) : Prop where
  exit : (∃ exit blk, st.lookup addr nbytes = .ok (exit, blk) ∧ exit ≠ .miss) ↔ st.cache_probe addr = .ok true
  block : ∀ exit blk, st.lookup addr nbytes = .ok (exit, blk) → exit ≠ .miss →
    ∃ b, blk = some (CACHE_SET g addr, b) ∧ (st.sets (CACHE_SET g addr)).holds (CACHE_TAG g addr) b = true

/-- The access is in the last block of the address space and ends before it does. -/
def InLastBlock (cp : Params) (addr nbytes : Addr) : Prop :=
  2 ^ 32 ≤ addr.toNat + 2 ^ cp.set_shift ∧ addr.toNat + nbytes.toNat ≠ 2 ^ 32

theorem passes_iff (hb : InBlock g.toParams addr nbytes) :
    Passes g.toParams addr nbytes ↔ ¬ InLastBlock g.toParams addr nbytes := by
  rw [InLastBlock, ← hb.spans_iff]
  exact and_iff_right hb.size

theorem Ok.not_resident_iff (h : st.Ok) :
    ¬ st.Resident addr ↔ ∀ b, (st.sets (CACHE_SET g addr)).holds (CACHE_TAG g addr) b = false := by
  rw [h.resident_iff]
  constructor
  · intro hno b
    by_contra hb
    exact hno ⟨(CACHE_SET g addr, b), rfl, by simpa using hb⟩
  · rintro hno ⟨⟨i, b⟩, rfl, hb⟩
    cases (hno b).symm.trans hb

/-- Where the checks pass, all lookups agree but for the shortcut without a last block. -/
theorem Ok.agrees_iff_of_passes (h : st.Ok) (hp : Passes g.toParams addr nbytes) :
    st.Agrees addr nbytes ↔ CACHE_TAGSET g.toParams addr ≠ 0 ∨ st.last_blk ≠ none := by
  constructor
  · intro ha
    by_contra hnull
    rw [not_or, not_not, not_not] at hnull
    have hl : st.lookup addr nbytes = .ok (.cache_fast_hit, none) := by
      have hin : ¬ (addr &&& ~~~g.blk_mask) + g.bsize < addr + nbytes := hp.2
      rw [Store.lookup, if_neg hp.1, if_neg hin, if_pos (hnull.1.trans (h.unset hnull.2).symm), hnull.2]
    obtain ⟨b, hb, -⟩ := ha.block _ _ hl nofun
    cases hb
  · intro hnull
    obtain ⟨r, hr, hlooked⟩ := h.lookup hp
    have hfound (exit : Exit) (p : g.SetIdx × g.Way) (he : exit ≠ .miss) (hh : st.Holds addr p)
        (hr : st.lookup addr nbytes = .ok (exit, some p)) : st.Agrees addr nbytes := by
      refine ⟨⟨fun _ => h.probe_iff.2 (h.resident_iff.2 ⟨p, hh⟩), fun _ => ⟨exit, _, hr, he⟩⟩,
        fun exit' blk hr' _ => ?_⟩
      cases hr.symm.trans hr'
      obtain ⟨i, b⟩ := p
      obtain ⟨rfl, hb⟩ := hh
      exact ⟨b, rfl, hb⟩
    cases hlooked with
    | miss hno =>
      refine ⟨⟨?_, fun hpr => absurd (h.probe_iff.1 hpr) hno⟩, fun exit blk hr' he => ?_⟩
      · rintro ⟨exit, blk, hr', he⟩
        cases hr.symm.trans hr'
        exact absurd rfl he
      · cases hr.symm.trans hr'
        exact absurd rfl he
    | slow p hh => exact hfound .cache_hit p nofun hh hr
    | fast p hh => exact hfound .cache_fast_hit p nofun hh hr
    | null hb ht =>
      rcases hnull with h0 | hl
      · exact absurd ht h0
      · exact absurd hb hl

/-- Where the checks fail, no exit is taken. -/
theorem Ok.agrees_iff_of_not_passes (h : st.Ok) (hp : ¬ Passes g.toParams addr nbytes) :
    st.Agrees addr nbytes ↔ ¬ st.Resident addr := by
  obtain ⟨text, ht⟩ := lookup_fatal st hp
  constructor
  · intro ha hres
    obtain ⟨exit, blk, hl, -⟩ := ha.exit.2 (h.probe_iff.2 hres)
    cases ht.symm.trans hl
  · intro hno
    refine ⟨⟨?_, fun hpr => absurd (h.probe_iff.1 hpr) hno⟩, fun exit blk hl _ => ?_⟩
    · rintro ⟨exit, blk, hl, -⟩
      cases ht.symm.trans hl
    · cases ht.symm.trans hl

end Store

/-- The last block of the address space is not block 0. -/
theorem tagset_ne_zero_of_last (cp : Params) (h : 2 ^ 32 ≤ addr.toNat + 2 ^ cp.set_shift) :
    CACHE_TAGSET cp addr ≠ 0 := by
  intro h0
  have hle := cp.bsize_le
  have hlt : 2 ^ cp.set_shift ≤ 2 ^ 30 := Nat.pow_le_pow_right (by omega) hle
  have h0' : CACHE_TAGSET cp addr = CACHE_TAGSET cp 0 := by
    rw [h0, CACHE_TAGSET]
    exact BitVec.zero_and.symm
  rw [CACHE_TAGSET_eq_iff] at h0'
  have hz : (0 : Addr).toNat / 2 ^ cp.set_shift = 0 := Nat.zero_div _
  rw [hz, Nat.div_eq_zero_iff] at h0'
  omega

/-- On an access within a block the lookups agree unless there is no last block and
the access is to block 0, or the access is in the last block, short of its end,
and the block is in the cache. -/
theorem lookups_agree_iff (h : Visited env st) (hb : InBlock g.toParams addr nbytes) :
    st.Agrees addr nbytes ↔ (CACHE_TAGSET g.toParams addr ≠ 0 ∨ st.last_blk ≠ none) ∧
      (¬ Store.InLastBlock g.toParams addr nbytes ∨
        ∀ b, (st.sets (CACHE_SET g addr)).holds (CACHE_TAG g addr) b = false) := by
  rw [← h.ok.not_resident_iff]
  by_cases hp : Store.Passes g.toParams addr nbytes
  · rw [h.ok.agrees_iff_of_passes hp]
    exact (and_iff_left (.inl ((Store.passes_iff hb).1 hp))).symm
  · rw [h.ok.agrees_iff_of_not_passes hp]
    have hlast := not_not.1 (mt (Store.passes_iff hb).2 hp)
    rw [and_iff_right (.inl (tagset_ne_zero_of_last _ hlast.1)), or_iff_right (not_not.2 hlast)]

/-- In a cache that was filled and flushed in part, of a block that is there and of one that is not. -/
theorem lookups_agree_fill : ∃ log s, performAll idle wide { rest := () } fill = some (log, s) ∧
    s.1.resident 288 = true ∧ s.1.resident 352 = false ∧ s.1.Agrees 288 4 ∧ s.1.Agrees 352 4 := by
  have hfill : (performAll idle wide { rest := () } fill).map (fun r => (r.2.1.resident 288, r.2.1.resident 352)) =
      some (true, false) := by
    decide +kernel
  obtain ⟨⟨log, s⟩, hs, hres⟩ := Option.map_eq_some_iff.1 hfill
  obtain ⟨hthere, hgone⟩ := Prod.mk.inj hres
  have hv : Visited idle s.1 := .between (reached_performAll hs)
  have agrees (addr : Addr) (hb : InBlock wide.toParams addr 4) (hz : CACHE_TAGSET wide.toParams addr ≠ 0)
      (hl : ¬ Store.InLastBlock wide.toParams addr 4) : s.1.Agrees addr 4 :=
    (lookups_agree_iff hv hb).2 ⟨.inl hz, .inl hl⟩
  refine ⟨log, s, hs, hthere, hgone, agrees 288 ⟨⟨2, rfl, by decide⟩, by decide⟩ (by decide) ?_,
    agrees 352 ⟨⟨2, rfl, by decide⟩, by decide⟩ (by decide) ?_⟩
  · exact fun h => absurd h.1 (by decide)
  · exact fun h => absurd h.1 (by decide)

/-- A load of block 0 in a new cache takes the shortcut without a block, and a load
of the last block fails although a prefetch has brought it in. -/
theorem lookups_disagree :
    (Visited idle (cache_create small) ∧ InBlock small.toParams 0 4 ∧ ¬ (cache_create small).Agrees 0 4) ∧
      ∃ st : Store small, Visited idle st ∧ InBlock small.toParams 0xFFFFFFE0 4 ∧ ¬ st.Agrees 0xFFFFFFE0 4 := by
  constructor
  · refine ⟨.between ⟨{ rest := () }, Lts.Reachable.start⟩, ⟨⟨2, rfl, by decide⟩, by decide⟩, fun ha => ?_⟩
    obtain ⟨b, hb, -⟩ := ha.block .cache_fast_hit none rfl nofun
    cases hb
  · obtain ⟨r, hr⟩ : ∃ r, (cache_create small).prefetchAccess idle .Read 0xFFFFFFE0 32 { rest := () } = .ok r :=
      ⟨_, rfl⟩
    obtain ⟨⟨p, hu⟩, -⟩ := (Store.prefetchAccess_ok Store.ok_create idle.keeps_true trivial).of_ok hr
    have hcall : (Call.access .Read 0xFFFFFFE0 32 true 0).perform idle (cache_create small) { rest := () } = .ok r.2 :=
      bind_ok.2 ⟨r, hr, rfl⟩
    have hin : InBlock small.toParams 0xFFFFFFE0 4 := ⟨⟨2, rfl, by decide⟩, by decide⟩
    refine ⟨r.2.1, .between ⟨{ rest := () }, Lts.Reachable.start.next (.call _ hcall)⟩, hin, fun ha => ?_⟩
    refine (hu.ok.agrees_iff_of_not_passes ?_).1 ha hu.mem
    rw [Store.passes_iff hin]
    exact not_not.2 ⟨by decide, by decide⟩

end Cache
