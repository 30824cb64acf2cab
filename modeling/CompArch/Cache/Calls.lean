import CompArch.Lts
import CompArch.Cache.Access
/-!
# Sequences of calls

A cache is created, accessed and flushed, in any order and with anything else
happening in between. After every call that completes each of its sets is what
its links are meant to be.
-/

namespace Cache

open Function Linked Outcome Lts

variable {g : Geometry} {σ : Type} {env : Env σ} {I : World σ → Prop} {w : World σ}

namespace Store

variable {st st' : Store g}

/-! ## Flushes -/

/-- An invalidated block: in the sets nothing but its valid bit changes. -/
theorem invalidate_ok (hI : env.Keeps I) (hw : I w) (set : g.SetIdx) (b : g.Way) :
    Ensures (st.invalidate env set b w) (fun r =>
      r.1.sets = update st.sets set { st.sets set with valid := update (st.sets set).valid b false } ∧
      r.1.last_tagset = st.last_tagset ∧ r.1.last_blk = st.last_blk ∧ I r.2) (· = .handler) := by
  unfold invalidate
  by_cases hd : (st.sets set).dirty b = true
  · simp only [if_pos hd]
    exact (hI.call hw _ _ _).bind fun w' hw' => ⟨rfl, rfl, rfl, hw'⟩
  · simp only [if_neg hd]
    exact ⟨rfl, rfl, rfl, hw⟩

/-- Blocks of a set are invalidated one after the other. -/
theorem flushBlocks_ok (hI : env.Keeps I) (hw : I w) (set : g.SetIdx) (bs : List g.Way) :
    Ensures (st.flushBlocks env set w bs) (fun r =>
      (∃ valid, (∀ a, valid a = true → (st.sets set).valid a = true ∧ a ∉ bs) ∧
        r.1.sets = update st.sets set { st.sets set with valid }) ∧
      r.1.last_tagset = st.last_tagset ∧ r.1.last_blk = st.last_blk ∧ I r.2) (· = .handler) := by
  induction bs generalizing st w with
  | nil => exact ⟨⟨(st.sets set).valid, fun a ha => ⟨ha, List.not_mem_nil⟩, (update_eq_self ..).symm⟩, rfl, rfl, hw⟩
  | cons b bs ih =>
    unfold flushBlocks
    by_cases hv : (st.sets set).valid b = true
    · rw [if_pos hv]
      refine (invalidate_ok hI hw set b).bind ?_
      rintro ⟨st₁, w₁⟩ ⟨hs, ht, hb, hw₁⟩
      refine (ih hw₁).mono ?_ fun _ he => he
      rintro ⟨st₂, w₂⟩ ⟨⟨valid, hvalid, hs₂⟩, ht₂, hb₂, hw₂⟩
      refine ⟨⟨valid, fun a ha => ?_, ?_⟩, ht₂.trans ht, hb₂.trans hb, hw₂⟩
      · obtain ⟨hva, hbs⟩ := hvalid a ha
        dsimp only at hs
        rw [hs, update_self] at hva
        change update (st.sets set).valid b false a = true at hva
        by_cases hab : a = b
        · subst hab
          rw [update_self] at hva
          cases hva
        · rw [update_of_ne hab] at hva
          exact ⟨hva, by simp [hab, hbs]⟩
      · dsimp only at hs hs₂ ⊢
        rw [hs₂, hs, update_idem, update_self]
    · rw [if_neg hv]
      refine (ih hw).mono ?_ fun _ he => he
      rintro ⟨st₂, w₂⟩ ⟨⟨valid, hvalid, hs₂⟩, hrest⟩
      refine ⟨⟨valid, fun a ha => ?_, hs₂⟩, hrest⟩
      obtain ⟨hva, hbs⟩ := hvalid a ha
      refine ⟨hva, ?_⟩
      rw [List.mem_cons, not_or]
      exact ⟨fun he => hv (he ▸ hva), hbs⟩

/-- A set with no valid block. -/
theorem sound_empty {cs : CacheSet g.assoc} (h : cs.Sound) {valid : g.Way → Bool}
    (hv : ∀ a, valid a = true → a ∉ cs.order) :
    CacheSet.Sound { cs with valid } := by
  have hnone (a : g.Way) : valid a ≠ true := fun ha => hv a ha (h.ok.all a)
  refine ⟨h.ok.of_valid fun a ha => absurd ha (hnone a), fun _ => List.pairwise_of_forall ?_⟩
  intro a b hb
  exact absurd hb (hnone b)

theorem flushSets_ok (h : st.Ok) (hb : st.last_blk = none) (hI : env.Keeps I) (hw : I w) (is : List g.SetIdx) :
    Ensures (st.flushSets env w is) (fun r => r.1.Ok ∧ r.1.last_blk = none ∧ I r.2) (· = .handler) := by
  induction is generalizing st w with
  | nil => exact ⟨h, hb, hw⟩
  | cons set is ih =>
    have hsound := h.sets set
    have hcollect : collect (st.sets set).way_next g.assoc (st.sets set).way_head = some (st.sets set).order :=
      collect_eq hsound.ok.ways.2.forward (length_le hsound.ok.ways.1)
    unfold flushSets
    rw [hcollect]
    refine (flushBlocks_ok hI hw set _).bind ?_
    rintro ⟨st₁, w₁⟩ ⟨⟨valid, hvalid, hs⟩, ht₁, hb₁, hw₁⟩
    dsimp only at hs ht₁ hb₁ hw₁
    refine ih ⟨fun i => ?_, fun p hp => ?_, fun _ => ?_⟩ (hb₁.trans hb) hw₁
    · rw [hs]
      by_cases hi : i = set
      · rw [hi, update_self]
        exact sound_empty hsound fun a ha => (hvalid a ha).2
      · rw [update_of_ne hi]
        exact h.sets i
    · rw [hb₁, hb] at hp
      cases hp
    · rw [ht₁]
      exact h.unset hb

/-- `last_blk` may always be forgotten. -/
theorem Ok.forget (h : st.Ok) : Ok { st with last_tagset := 0, last_blk := none } :=
  ⟨h.sets, fun _ hp => (by cases hp), fun _ => rfl⟩

theorem cache_flush_ok (h : st.Ok) (hI : env.Keeps I) (hw : I w) :
    Ensures (st.cache_flush env w) (fun r => r.1.Ok ∧ I r.2) (· = .handler) :=
  (flushSets_ok h.forget rfl hI hw _).mono (fun _ hr => ⟨hr.1, hr.2.2⟩) fun _ he => he

/-- A block is invalidated and moved behind all others. -/
theorem packed_back {n : Nat} {cs : CacheSet n} {xs : List (Fin n)} {b : Fin n}
    (hp : xs.Pairwise fun a b => cs.valid b = true → cs.valid a = true) (hn : xs.Nodup) :
    (moved .Tail b xs).Pairwise fun a c => update cs.valid b false c = true → update cs.valid b false a = true := by
  refine List.pairwise_append.2 ⟨?_, List.pairwise_singleton .., ?_⟩
  · refine (hp.sublist List.erase_sublist).imp_of_mem fun {a c} ha hc hac => ?_
    have hne (a : Fin n) (ha : a ∈ xs.erase b) : a ≠ b := fun he => hn.not_mem_erase (he ▸ ha)
    rw [update_of_ne (hne a ha), update_of_ne (hne c hc)]
    exact hac
  · intro a _ c hc hv
    rw [List.mem_singleton.1 hc, update_self] at hv
    cases hv

theorem cache_flush_addr_ok (h : st.Ok) (hI : env.Keeps I) (hw : I w) (addr : Addr) :
    Ensures (st.cache_flush_addr env addr w) (fun r => r.1.Ok ∧ I r.2) (· = .handler) := by
  have hsound := h.sets (CACHE_SET g addr)
  obtain ⟨r, hr, -⟩ := hsound.ok.find_ok (CACHE_TAG g addr)
  unfold cache_flush_addr
  simp only [hr]
  cases r with
  | none => exact ⟨h, hw⟩
  | some b =>
    refine (invalidate_ok hI hw _ b).bind ?_
    rintro ⟨st₁, w₁⟩ ⟨hs, ht, hb, hw₁⟩
    dsimp only at hs ht hb hw₁ ⊢
    have hvalid : SetOk { st.sets (CACHE_SET g addr) with valid := update (st.sets (CACHE_SET g addr)).valid b false }
        (st.sets (CACHE_SET g addr)).order := by
      refine hsound.ok.of_valid fun a ha => ?_
      by_cases hab : a = b
      · rw [hab, update_self] at ha
        cases ha
      · rwa [update_of_ne hab] at ha
    obtain ⟨d, hd, hset⟩ := hvalid.update_way_list b .Tail
    rw [hs, update_self, hd]
    refine ⟨⟨fun i => ?_, fun p hp => ?_, fun _ => ht⟩, hw₁⟩
    · show (update st₁.sets _ _ i).Sound
      by_cases hi : i = CACHE_SET g addr
      · rw [hi, update_self]
        exact hset.sound fun hp => packed_back (hsound.packed hp) hsound.ok.ways.1
      · rw [update_of_ne hi, hs, update_of_ne hi]
        exact h.sets i
    · have hnone : st₁.last_blk = none := hb
      cases hnone.symm.trans hp

end Store

/-! ## Runs -/

/-- A call of the module on the cache. -/
inductive Call
  | access (cmd : Cmd) (addr nbytes : Addr) (prefetch : Bool) (pc : Addr)
  | flush
  | flush_addr (addr : Addr)
  deriving DecidableEq

def Call.perform (env : Env σ) (c : Call) (st : Store g) (w : World σ) : Except Stop (Store g × World σ) :=
  match c with
  | .access cmd addr nbytes prefetch pc => do
    let (_, st, w) ← st.cache_access env cmd addr nbytes prefetch pc w
    return (st, w)
  | .flush => st.cache_flush env w
  | .flush_addr addr => st.cache_flush_addr env addr w

/-- A call that completes, or anything that happens elsewhere in the simulation. -/
inductive Step (env : Env σ) : Store g × World σ → List Call → Store g × World σ → Prop
  | call (c : Call) {st st' : Store g} {w w' : World σ} : c.perform env st w = .ok (st', w') →
      Step env (st, w) [c] (st', w')
  | elsewhere (st : Store g) (w w' : World σ) : Step env (st, w) [] (st, w')

theorem Call.perform_ok (c : Call) {st : Store g} (h : st.Ok) :
    Ensures (c.perform env st w) (fun r => r.1.Ok) fun _ => True := by
  cases c with
  | access cmd addr nbytes prefetch pc =>
    have hacc : Ensures (st.cache_access env cmd addr nbytes prefetch pc w) (fun r => r.2.1.Ok) fun _ => True := by
      unfold Store.cache_access
      cases prefetch with
      | true =>
        refine (Store.prefetchAccess_ok h env.keeps_true trivial).mono ?_ fun _ _ => trivial
        rintro r ⟨⟨p, hu⟩, -⟩
        exact hu.ok
      | false =>
        refine (Store.demandAccess_ok h (fun _ => env.keeps_true) fun _ => trivial).mono ?_ fun _ _ => trivial
        rintro r ⟨p, st₁, w₁, pf, s, hd⟩
        exact hd.ok
    exact hacc.bind fun r hr => hr
  | flush => exact (Store.cache_flush_ok h env.keeps_true trivial).mono (fun _ hr => hr.1) fun _ _ => trivial
  | flush_addr addr =>
    exact (Store.cache_flush_addr_ok h env.keeps_true trivial addr).mono (fun _ hr => hr.1) fun _ _ => trivial

theorem Step.ok {s s' : Store g × World σ} {log : List Call} (hs : Step env s log s') (h : s.1.Ok) : s'.1.Ok := by
  cases hs with
  | call c hc => exact (c.perform_ok h).of_ok hc
  | elsewhere => exact h

/-- A state between two calls. -/
def Reached (env : Env σ) (s : Store g × World σ) : Prop := ∃ w₀, Reachable (Step env) (cache_create g, w₀) s

theorem Reached.ok {s : Store g × World σ} (h : Reached env s) : s.1.Ok := by
  obtain ⟨w₀, hr⟩ := h
  exact hr.invariant (P := fun s => s.1.Ok) Store.ok_create fun _ _ _ h hs => hs.ok h

/-! ## The representation of a set -/

/-- What the links of a set mean. -/
structure CacheSet.Represents (cs : CacheSet g.assoc) : Prop where
  /-- The way list visits every block once, and the previous links invert the next ones. -/
  ways : ∃ xs : List g.Way, Seg cs.way_next cs.way_head xs none ∧ xs.Perm (List.finRange g.assoc) ∧
    cs.way_tail = xs.getLast? ∧ ∀ a b, cs.way_next a = some b ↔ cs.way_prev b = some a
  /-- Every block is once on the chain of its tag, which is in the table, and on no other chain. -/
  chains : g.hsize ≠ 0 → ∃ chain : Nat → List g.Way,
    (∀ index, Seg cs.hash_next (cs.hash index) (chain index) none ∧ (chain index).Nodup) ∧
    ∀ b, CACHE_HASH g (cs.tag b) < g.hsize ∧ ∀ index, b ∈ chain index ↔ index = CACHE_HASH g (cs.tag b)
  unique : ∀ a b, cs.valid a = true → cs.valid b = true → cs.tag a = cs.tag b → a = b

theorem CACHE_HASH_lt (hh : g.hsize ≠ 0) (key : Addr) : CACHE_HASH g key < g.hsize := by
  have hle : CACHE_HASH g key ≤ (BitVec.ofNat 32 g.hsize - 1).toNat := by
    rw [CACHE_HASH, BitVec.toNat_and]
    exact Nat.and_le_right
  rw [BitVec.toNat_sub, BitVec.toNat_ofNat] at hle
  have hone : (1 : Addr).toNat = 1 := rfl
  omega

theorem SetOk.represents {cs : CacheSet g.assoc} {xs : List g.Way} (h : SetOk cs xs) : cs.Represents := by
  refine ⟨⟨xs, h.ways.2.forward, h.perm, h.ways.tail_eq, fun a b => h.ways.inverse (h.all a) (h.all b)⟩, fun hh => ?_,
    h.unique⟩
  choose chain hs hn hm using h.chains hh
  refine ⟨chain, fun index => ⟨hs index, hn index⟩, fun b => ⟨CACHE_HASH_lt hh _, fun index => ?_⟩⟩
  rw [hm, CacheSet.bucket, Option.some_inj, eq_comm]

/-- After every sequence of calls that complete, in every set. -/
theorem sets_represent {s : Store g × World σ} (h : Reached env s) (i : g.SetIdx) : (s.1.sets i).Represents :=
  (h.ok.sets i).ok.represents

/-! ## Runs on given calls -/

def Call.next (env : Env σ) (s : Store g × World σ) (c : Call) : Option (List Call × Store g × World σ) :=
  match c.perform env s.1 s.2 with
  | .error _ => none
  | .ok s' => some ([c], s')

theorem Call.next_step (s : Store g × World σ) (c : Call) (log : List Call) (s' : Store g × World σ)
    (h : c.next env s = some (log, s')) : Step env s log s' := by
  unfold Call.next at h
  split at h
  · cases h
  · next hc =>
    cases h
    exact .call c hc

/-- Performs the calls in turn, on a new cache. -/
def performAll (env : Env σ) (g : Geometry) (w : World σ) (cs : List Call) :
    Option (List Call × Store g × World σ) :=
  exec (Call.next env) (cache_create g, w) cs

theorem reached_performAll {w : World σ} {cs log : List Call} {s : Store g × World σ}
    (h : performAll env g w cs = some (log, s)) : Reached env s :=
  ⟨w, _, Run.start.exec Call.next_step h⟩

/-- Two sets of two blocks of 32 bytes, with the next line prefetcher. -/
def small : Geometry where
  set_shift := 5
  prefetch_type := 1
  set_bits := 1
  way_bits := 1
  policy := .LRU

/-- One set of eight blocks of 32 bytes, with a hash table. -/
def wide : Geometry where
  set_shift := 5
  prefetch_type := 1
  set_bits := 0
  way_bits := 3
  policy := .LRU

/-- Nothing happens below the cache. -/
def idle : Env Unit where
  blk_access_fn _ _ _ w := some w
  myrand r := (0, r)

/-- More blocks than there are, of which two are flushed and one comes back. -/
def fill : List Call :=
  (List.range 10).map (fun i => .access .Read (BitVec.ofNat 32 (64 + 32 * i)) 4 false 0) ++
    [.flush_addr 352, .flush_addr 320, .access .Read 320 32 true 0]

theorem sets_represent_fill : ∃ log s, performAll idle wide { rest := () } fill = some (log, s) ∧
    s.1.stats.replacements = 3 ∧ s.1.stats.invalidations = 2 ∧ wide.hsize = 2 ∧ ∀ i, (s.1.sets i).Represents := by
  have hfill : (performAll idle wide { rest := () } fill).map (fun r =>
      (r.2.1.stats.replacements, r.2.1.stats.invalidations)) = some (3, 2) := by
    decide +kernel
  obtain ⟨⟨log, s⟩, hs, hstats⟩ := Option.map_eq_some_iff.1 hfill
  obtain ⟨hrepl, hinv⟩ := Prod.mk.inj hstats
  exact ⟨log, s, hs, hrepl, hinv, rfl, fun i => sets_represent (reached_performAll hs) i⟩

end Cache
