import CompArch.Cache.Invariant
import CompArch.Outcome
/-!
# One access

An access keeps what holds of a cache between two calls, and what it does to the
contents of the cache is one use of its block. It fails only where its checks
do, in the miss handler, or at a shortcut with no block.
-/

namespace Cache

open Function Linked Recency Outcome

variable {g : Geometry} {σ : Type} {env : Env σ} {I : World σ → Prop} {cmd : Cmd} {prefetch : Bool} {w : World σ}

/-- What the rest of the simulation keeps while this cache is accessed. -/
structure Env.Keeps (env : Env σ) (I : World σ → Prop) : Prop where
  handler : ∀ cmd baddr prefetch w w', I w → env.blk_access_fn cmd baddr prefetch w = some w' → I w'
  rest : ∀ w rest, I w → I { w with rest }

theorem Env.keeps_true (env : Env σ) : env.Keeps fun _ => True := ⟨fun _ _ _ _ _ _ _ => trivial, fun _ _ _ => trivial⟩

theorem Env.Keeps.call (hI : env.Keeps I) (hw : I w) (cmd : Cmd) (baddr : Addr) (prefetch : Bool) :
    Ensures (env.call cmd baddr prefetch w) I (· = .handler) := by
  unfold Env.call
  cases hc : env.blk_access_fn cmd baddr prefetch w with
  | none => exact rfl
  | some w' => exact hI.handler _ _ _ _ _ hw hc

/-- The counters after a valid block was replaced, or not. -/
def Stats.replaced (s : Stats) (valid dirty : Bool) : Stats :=
  { s with
    replacements := if valid then s.replacements + 1 else s.replacements
    writebacks := if valid ∧ dirty then s.writebacks + 1 else s.writebacks }

namespace Store

variable {st st' : Store g} {addr nbytes : Addr} {p : g.SetIdx × g.Way} {exit : Exit}

/-- An access used the block `p` of its address. -/
structure Used (cmd : Cmd) (prefetch : Bool) (st : Store g) (addr : Addr) (exit : Exit) (p : g.SetIdx × g.Way)
    (st' : Store g) : Prop where
  ok : st'.Ok
  holds : st'.Holds addr p
  others : ∀ i, i ≠ CACHE_SET g addr → st'.sets i = st.sets i
  missed : exit = .miss ↔ ¬ st.Resident addr
  recency : g.policy = .LRU → (st'.sets (CACHE_SET g addr)).contents =
    touch g.assoc (CACHE_TAG g addr) (st.sets (CACHE_SET g addr)).contents
  stats : if exit = .miss then ∃ valid dirty, st'.stats = (st.stats.countMiss cmd prefetch).replaced valid dirty
    else st'.stats = st.stats.countHit cmd prefetch

/-- An access changes its own set and the last block. -/
theorem Ok.used (h : st.Ok) {b : g.Way} {cs : CacheSet g.assoc}
    (hsets : st'.sets = update st.sets (CACHE_SET g addr) cs)
    (hcs : cs.Sound) (hb : cs.holds (CACHE_TAG g addr) b = true)
    (hlast : st'.last_blk = none ∧ st'.last_tagset = 0 ∨ st'.last_blk = some (CACHE_SET g addr, b) ∧
      st'.last_tagset = CACHE_TAGSET g.toParams addr ∧ (g.policy = .LRU → cs.order.head? = some b))
    (hmiss : exit = .miss ↔ ¬ st.Resident addr)
    (hrec : g.policy = .LRU → cs.contents = touch g.assoc (CACHE_TAG g addr) (st.sets (CACHE_SET g addr)).contents)
    (hstats : if exit = .miss then ∃ valid dirty, st'.stats = (st.stats.countMiss cmd prefetch).replaced valid dirty
      else st'.stats = st.stats.countHit cmd prefetch) :
    Used cmd prefetch st addr exit (CACHE_SET g addr, b) st' := by
  have hown : st'.sets (CACHE_SET g addr) = cs := by rw [hsets, update_self]
  have hothers (i : g.SetIdx) (hi : i ≠ CACHE_SET g addr) : st'.sets i = st.sets i := by rw [hsets, update_of_ne hi]
  have hholds : st'.Holds addr (CACHE_SET g addr, b) := ⟨rfl, by rw [hown]; exact hb⟩
  have hrec' (hl : g.policy = .LRU) : (st'.sets (CACHE_SET g addr)).contents =
      touch g.assoc (CACHE_TAG g addr) (st.sets (CACHE_SET g addr)).contents := by
    rw [hown]
    exact hrec hl
  refine ⟨⟨fun i => ?_, fun p hp => ?_, fun hn => ?_⟩, hholds, hothers, hmiss, hrec', hstats⟩
  · by_cases hi : i = CACHE_SET g addr
    · rw [hi, hown]
      exact hcs
    · rw [hothers i hi]
      exact h.sets i
  · rcases hlast with ⟨hl, -⟩ | ⟨hl, ht, hhead⟩
    · rw [hl] at hp
      cases hp
    · obtain rfl := Option.some.inj (hl.symm.trans hp)
      exact ⟨addr, ht.symm, hholds, fun hlru => by rw [hown]; exact hhead hlru⟩
  · rcases hlast with ⟨-, ht⟩ | ⟨hl, -⟩
    · exact ht
    · rw [hl] at hn
      cases hn

/-! ## Misses -/

/-- What the choice of a block to replace leaves behind: under LRU and FIFO it was the last one. -/
structure Selected (cs : CacheSet g.assoc) (r : g.Way × CacheSet g.assoc × World σ) (d : Dll g.Way) (xs : List g.Way) :
    Prop where
  same : r.2.1 = cs.setWays d
  ok : SetOk (cs.setWays d) xs
  last : g.policy ≠ .Random → ∃ ys, cs.order = ys ++ [r.1] ∧ xs = r.1 :: ys

theorem select_ok {cs : CacheSet g.assoc} (h : cs.Sound) (hI : env.Keeps I) (hw : I w) :
    Ensures (select env cs w) (fun r => (∃ d xs, Selected cs r d xs) ∧ I r.2.2) fun _ => False := by
  by_cases hp : g.policy = .Random
  · simp only [select, hp]
    exact ⟨⟨cs.ways, cs.order, rfl, h.ok, fun hr => absurd hp hr⟩, hI.rest _ _ hw⟩
  rcases List.eq_nil_or_concat cs.order with hnil | ⟨ys, b, hys⟩
  · have := h.ok.length_eq
    rw [hnil] at this
    exact absurd this.symm (Nat.ne_of_gt g.assoc_pos)
  rw [List.concat_eq_append] at hys
  have htail : cs.way_tail = some b := by
    have := h.ok.ways.tail_eq
    rw [hys, List.getLast?_concat] at this
    exact this
  obtain ⟨d, hd, hset⟩ := h.ok.update_way_list b .Head
  have hmoved : moved .Head b cs.order = b :: ys := by
    have hnd := h.ok.ways.1
    rw [hys] at hnd ⊢
    rw [moved, erase_mid hnd, List.append_nil]
  rw [hmoved] at hset
  have hsel : select env cs w = .ok (b, cs.setWays d, w) := by
    unfold select
    rw [htail]
    split
    case h_3 hr => exact absurd hr hp
    all_goals exact bind_ok.2 ⟨b, rfl, bind_ok.2 ⟨_, hd, rfl⟩⟩
  rw [hsel]
  exact ⟨⟨d, b :: ys, rfl, hset, fun _ => ⟨ys, hys, rfl⟩⟩, hw⟩

theorem writeBack_ok (hI : env.Keeps I) (hw : I w) (cs : CacheSet g.assoc) (set : g.SetIdx) (repl : g.Way)
    (stats : Stats) :
    Ensures (writeBack env cs set repl stats w)
      (fun r => r.1 = stats.replaced (cs.valid repl) (cs.dirty repl) ∧ I r.2) (· = .handler) := by
  unfold writeBack
  by_cases hv : cs.valid repl = true
  · rw [if_pos hv]
    by_cases hd : cs.dirty repl = true
    · rw [if_pos hd]
      refine (hI.call hw _ _ _).bind fun w' hw' => ?_
      exact ⟨by simp [Stats.replaced, hv, hd], hw'⟩
    · rw [if_neg hd]
      exact ⟨by simp [Stats.replaced, hv, hd], hw⟩
  · rw [if_neg hv]
    exact ⟨by simp [Stats.replaced, hv], hw⟩

/-- The set after a miss: the block `b` was filled. -/
structure Filled (cs : CacheSet g.assoc) (tag : Addr) (b : g.Way) (cs' : CacheSet g.assoc) : Prop where
  sound : cs'.Sound
  holds : cs'.holds tag b = true
  recency : g.policy = .LRU → cs'.contents = touch g.assoc tag cs.contents

/-- The block that was selected is taken off its chain, filled, and linked again. -/
theorem Selected.filled {cs : CacheSet g.assoc} {r : g.Way × CacheSet g.assoc × World σ} {d : Dll g.Way}
    {xs : List g.Way}
    {tag : Addr} (hs : Selected cs r d xs) (h : cs.Sound) (hno : ∀ a, cs.holds tag a = false)
    {next : g.Way → Option g.Way} {heads : Nat → Option g.Way}
    (hB : g.hsize ≠ 0 → Buckets next heads (update (cs.setWays d).bucket r.1 none)) (cs' : CacheSet g.assoc)
    (hways : cs'.ways = d) (hhash : cs'.hash = heads) (hnext : cs'.hash_next = next)
    (htag : cs'.tag = update cs.tag r.1 tag) (hvalid : cs'.valid = update cs.valid r.1 true) :
    Filled cs tag r.1 (cs'.linkHash r.1) := by
  have hset : SetOk (cs'.linkHash r.1) xs := hs.ok.fill hB hno hways hhash hnext htag hvalid
  obtain ⟨-, htag', hvalid'⟩ := linkHash_same cs' r.1
  rw [htag] at htag'
  rw [hvalid] at hvalid'
  have hholds : (cs'.linkHash r.1).holds tag r.1 = true := by
    rw [holds_iff, htag', hvalid', update_self, update_self]
    exact ⟨rfl, rfl⟩
  have hpacked (hp : g.policy ≠ .Random) :
      xs.Pairwise fun a b => (cs'.linkHash r.1).valid b = true → (cs'.linkHash r.1).valid a = true := by
    obtain ⟨ys, hys, rfl⟩ := hs.last hp
    have hold := h.packed hp
    have hnd := h.ok.ways.1
    rw [hys, List.pairwise_append] at hold
    rw [hys, List.nodup_append] at hnd
    have hne (a : g.Way) (ha : a ∈ ys) : a ≠ r.1 := hnd.2.2 a ha r.1 (List.mem_singleton_self _)
    refine List.pairwise_cons.2 ⟨fun a _ _ => (holds_iff.1 hholds).2, hold.1.imp_of_mem fun {a b} ha hb hab => ?_⟩
    rw [hvalid', update_of_ne (hne a ha), update_of_ne (hne b hb)]
    exact hab
  refine ⟨hset.sound hpacked, hholds, fun hl => ?_⟩
  have hp : g.policy ≠ .Random := by
    rw [hl]
    nofun
  obtain ⟨ys, hys, rfl⟩ := hs.last hp
  have hok := h.ok
  have hold := h.packed hp
  rw [hset.contents_eq, hok.contents_eq]
  rw [hys] at hok hold ⊢
  exact hok.tagsOf_fill hold hno htag' hvalid'

theorem miss_ok (h : st.Ok) (hI : env.Keeps I) (hw : I w) (hno : ¬ st.Resident addr) :
    Ensures (st.miss env cmd addr prefetch w)
      (fun r => Used cmd prefetch st addr .miss (CACHE_SET g addr, r.1) r.2.1 ∧ I r.2.2) (· = .handler) := by
  have hsound := h.sets (CACHE_SET g addr)
  have hnot (a : g.Way) : (st.sets (CACHE_SET g addr)).holds (CACHE_TAG g addr) a = false := by
    rw [h.resident_iff] at hno
    by_contra ha
    exact hno ⟨(CACHE_SET g addr, a), rfl, by simpa using ha⟩
  unfold miss
  refine ((select_ok hsound hI hw).mono (fun _ hr => hr) (fun _ hr => hr.elim)).bind ?_
  rintro ⟨repl, cs, w₁⟩ ⟨⟨d, xs, hs⟩, hw₁⟩
  obtain rfl : cs = (st.sets (CACHE_SET g addr)).setWays d := hs.same
  obtain ⟨next, heads, hunlink, hB⟩ := hs.ok.unlink repl
  simp only [hunlink]
  refine (writeBack_ok hI hw₁ _ _ _ _).bind ?_
  rintro ⟨stats, w₂⟩ ⟨hstats, hw₂⟩
  refine (hI.call hw₂ _ _ _).bind fun w₃ hw₃ => ?_
  refine ⟨?_, hw₃⟩
  dsimp only at hstats ⊢
  generalize hcs : (if cmd = Cmd.Write then _ else _ : CacheSet g.assoc) = cs'
  have hfilled := hs.filled hsound hnot hB cs'
    (by rw [← hcs]; split <;> rfl) (by rw [← hcs]; split <;> rfl) (by rw [← hcs]; split <;> rfl)
    (by rw [← hcs]; split <;> rfl) (by rw [← hcs]; split <;> rfl)
  refine h.used rfl hfilled.sound hfilled.holds (.inl ⟨rfl, rfl⟩) ⟨fun _ => hno, fun _ => rfl⟩ hfilled.recency ?_
  rw [if_pos rfl]
  exact ⟨_, _, hstats⟩

/-! ## Hits -/

/-- A hit's set: the block `b` was used. -/
structure Reordered (cs : CacheSet g.assoc) (b : g.Way) (cs' : CacheSet g.assoc) : Prop where
  sound : cs'.Sound
  tag : cs'.tag = cs.tag
  valid : cs'.valid = cs.valid
  head : g.policy = .LRU → cs'.order.head? = some b
  recency : g.policy = .LRU → cs'.contents = touch g.assoc (cs.tag b) cs.contents

/-- The first block of a way list has no previous one. -/
theorem way_prev_eq_none_iff {cs : CacheSet g.assoc} (h : cs.Sound) {b : g.Way} :
    cs.way_prev b = none ↔ ∃ zs, cs.order = b :: zs := by
  have hrep := h.ok.ways
  constructor
  · intro hp
    obtain ⟨ys, zs, hys⟩ := List.append_of_mem (h.ok.all b)
    rw [hys] at hrep
    have hlast : ys.getLast? = none := hrep.links.1.symm.trans hp
    rw [List.getLast?_eq_none_iff.1 hlast] at hys
    exact ⟨zs, hys⟩
  · rintro ⟨zs, hzs⟩
    rw [hzs] at hrep
    exact (show cs.ways.Rep ([] ++ b :: zs) from hrep).links.1

/-- A valid block at the head is used where it is. -/
theorem reordered_head {cs : CacheSet g.assoc} (h : cs.Sound) {b : g.Way} (hv : cs.valid b = true)
    (hhead : g.policy = .LRU → cs.order.head? = some b) : Reordered cs b cs := by
  refine ⟨h, rfl, rfl, hhead, fun hl => ?_⟩
  obtain ⟨zs, hzs⟩ : ∃ zs, cs.order = b :: zs := by
    have := hhead hl
    cases ho : cs.order with
    | nil =>
      rw [ho] at this
      cases this
    | cons a zs =>
      rw [ho] at this
      cases this
      exact ⟨zs, rfl⟩
  have hfront := h.ok.tagsOf_front (holds_iff.2 ⟨rfl, hv⟩)
  rw [hzs, moved, List.erase_cons_head] at hfront
  rwa [CacheSet.contents, hzs]

/-- A hit may set the block's dirty bit. -/
theorem Reordered.dirty {cs cs' : CacheSet g.assoc} {b : g.Way} {dirty : g.Way → Bool}
    (h : Reordered { cs with dirty } b cs') : Reordered cs b cs' := ⟨h.sound, h.tag, h.valid, h.head, h.recency⟩

theorem sound_dirty {cs : CacheSet g.assoc} (h : cs.Sound) (dirty : g.Way → Bool) :
    CacheSet.Sound { cs with dirty } := ⟨h.ok.of_valid fun _ ha => ha, h.packed⟩

theorem setSet_self (st : Store g) (i : g.SetIdx) (cs : CacheSet g.assoc) : (st.setSet i cs).sets i = cs :=
  update_self ..

theorem setSet_setSet (st : Store g) (i : g.SetIdx) (cs cs' : CacheSet g.assoc) :
    (st.setSet i cs).setSet i cs' = st.setSet i cs' := by simp only [setSet, update_idem]

theorem markDirty_ok : Ensures (markDirty cmd (some p) st)
    (fun st' => ∃ dirty, st' = st.setSet p.1 { st.sets p.1 with dirty }) fun _ => False := by
  unfold markDirty
  by_cases hc : cmd = .Write
  · rw [if_pos hc]
    exact ⟨_, rfl⟩
  · rw [if_neg hc]
    refine ⟨(st.sets p.1).dirty, ?_⟩
    rw [setSet, update_eq_self]

theorem reorder_ok (h : (st.sets p.1).Sound) (hv : (st.sets p.1).valid p.2 = true) :
    Ensures (reorder p.1 p.2 st) (fun st' => ∃ cs', Reordered (st.sets p.1) p.2 cs' ∧ st' = st.setSet p.1 cs')
      fun _ => False := by
  unfold reorder
  by_cases hc : (st.sets p.1).way_prev p.2 ≠ none ∧ g.policy = .LRU
  · rw [if_pos hc]
    obtain ⟨d, hd, hset⟩ := h.ok.update_way_list p.2 .Head
    have hpacked := packed_front (h.packed (by rw [hc.2]; nofun)) hv
    have hsound := hset.sound fun _ => hpacked
    simp only [hd]
    refine ⟨_, ⟨hsound, rfl, rfl, fun _ => ?_, fun _ => ?_⟩, rfl⟩
    · rw [hset.order_eq]
      rfl
    · rw [hset.contents_eq, h.ok.contents_eq]
      exact h.ok.tagsOf_front (holds_iff.2 ⟨rfl, hv⟩)
  · rw [if_neg hc]
    refine ⟨_, reordered_head h hv fun hl => ?_, (by rw [setSet, update_eq_self])⟩
    have hp : (st.sets p.1).way_prev p.2 = none := by
      by_contra hp
      exact hc ⟨hp, hl⟩
    obtain ⟨zs, hzs⟩ := (way_prev_eq_none_iff h).1 hp
    rw [hzs]
    rfl

theorem hit_ok (h : st.Ok) (hp : st.Holds addr p) (hexit : exit ≠ .miss)
    (hfast : exit = .cache_fast_hit → g.policy = .LRU → (st.sets p.1).order.head? = some p.2) :
    Ensures (st.hit exit cmd addr prefetch (some p)) (Used cmd prefetch st addr exit p) fun _ => False := by
  obtain ⟨i, b⟩ := p
  obtain ⟨rfl, hb⟩ := hp
  obtain ⟨ht, hv⟩ := holds_iff.1 hb
  have hsound := h.sets (CACHE_SET g addr)
  have hres : st.Resident addr := h.resident_iff.2 ⟨_, rfl, hb⟩
  unfold hit
  refine markDirty_ok.bind ?_
  rintro _ ⟨dirty, rfl⟩
  have hdirty := sound_dirty hsound dirty
  -- both hits leave a reordered set behind
  have hused (cs' : CacheSet g.assoc) (hr : Reordered { st.sets (CACHE_SET g addr) with dirty } b cs') :
      Used cmd prefetch st addr exit (CACHE_SET g addr, b)
        { st with
          sets := update st.sets (CACHE_SET g addr) cs'
          stats := st.stats.countHit cmd prefetch
          last_tagset := CACHE_TAGSET g.toParams addr
          last_blk := some (CACHE_SET g addr, b) } := by
    refine h.used rfl hr.sound ?_ (.inr ⟨rfl, rfl, hr.head⟩) ?_ ?_ ?_
    · rw [holds_iff, hr.tag, hr.valid]
      exact ⟨ht, hv⟩
    · exact ⟨fun he => absurd he hexit, fun hno => absurd hres hno⟩
    · intro hl
      rw [← ht]
      exact hr.dirty.recency hl
    · rw [if_neg hexit]
  cases exit with
  | miss => exact absurd rfl hexit
  | cache_hit =>
    rw [← setSet_self { st with stats := st.stats.countHit cmd prefetch } (CACHE_SET g addr)
      { st.sets (CACHE_SET g addr) with dirty }] at hdirty
    refine (reorder_ok (p := (CACHE_SET g addr, b)) hdirty (by rw [setSet_self]; exact hv)).bind ?_
    rintro _ ⟨cs', hr, rfl⟩
    rw [setSet_self] at hr
    rw [setSet_setSet]
    exact hused cs' hr
  | cache_fast_hit => exact hused _ (reordered_head hdirty hv fun hl => hfast rfl hl)

/-! ## Accesses -/

/-- How an access can end early. -/
inductive Stopped (st : Store g) (addr nbytes : Addr) : Stop → Prop
  | handler : Stopped st addr nbytes .handler
  | fatal (text : String) : ¬ Passes g.toParams addr nbytes → Stopped st addr nbytes (.fatal text addr)
  | null : st.last_blk = none → CACHE_TAGSET g.toParams addr = 0 → Stopped st addr nbytes .null

/-- What an access leaves behind before its prefetch. Without a last block an
access of block 0 takes the shortcut, and no set changes. -/
def Accessed (cmd : Cmd) (prefetch : Bool) (st : Store g) (addr : Addr) (exit : Exit)
    (blk : Option (g.SetIdx × g.Way)) (st' : Store g) : Prop :=
  match blk with
  | some p => Used cmd prefetch st addr exit p st'
  | none => exit = .cache_fast_hit ∧ st.last_blk = none ∧ CACHE_TAGSET g.toParams addr = 0 ∧
      st' = { st with stats := st.stats.countHit cmd prefetch }

theorem Ok.of_stats (h : st.Ok) (stats : Stats) : Ok { st with stats } := ⟨h.sets, h.last, h.unset⟩

theorem Accessed.ok {blk : Option (g.SetIdx × g.Way)} (h : st.Ok) (ha : Accessed cmd prefetch st addr exit blk st') :
    st'.Ok := by
  cases blk with
  | some p => exact Used.ok ha
  | none =>
    obtain ⟨-, -, -, rfl⟩ := ha
    exact h.of_stats _

theorem hit_null (hb : st.last_blk = none) (hl : st.last_tagset = 0) (ht : CACHE_TAGSET g.toParams addr = 0) :
    Ensures (st.hit .cache_fast_hit cmd addr prefetch none)
      (· = { st with stats := st.stats.countHit cmd prefetch }) (· = .null) := by
  unfold hit markDirty
  by_cases hc : cmd = .Write
  · rw [if_pos hc]
    exact rfl
  · rw [if_neg hc]
    show { st with stats := _, last_tagset := CACHE_TAGSET g.toParams addr, last_blk := none } = _
    rw [ht, ← hb, ← hl]

theorem access_ok (h : st.Ok) (hI : env.Keeps I) (hw : I w) : Ensures (st.access env cmd addr nbytes prefetch w)
    (fun r => Accessed cmd prefetch st addr r.1 r.2.1 r.2.2.1 ∧ I r.2.2.2) (Stopped st addr nbytes) := by
  by_cases hp : Passes g.toParams addr nbytes
  · obtain ⟨r, hr, hlooked⟩ := h.lookup hp
    have hhandler (e : Stop) (he : e = .handler) : Stopped st addr nbytes e := by
      rw [he]
      exact .handler
    have hhit {exit : Exit} {p : g.SetIdx × g.Way} (hh : st.Holds addr p) (hexit : exit ≠ .miss)
        (hfast : exit = .cache_fast_hit → g.policy = .LRU → (st.sets p.1).order.head? = some p.2) :
        Ensures (do return (exit, some p, ← st.hit exit cmd addr prefetch (some p), w))
          (fun r => Accessed cmd prefetch st addr r.1 r.2.1 r.2.2.1 ∧ I r.2.2.2) (Stopped st addr nbytes) :=
      ((hit_ok h hh hexit hfast).mono (fun _ hr => hr) (fun _ he => he.elim)).bind fun st' hu => ⟨hu, hw⟩
    unfold access
    rw [hr]
    cases hlooked with
    | miss hno => exact ((miss_ok h hI hw hno).mono (fun _ hr => hr) hhandler).bind fun r hr => hr
    | slow p hh => exact hhit hh nofun nofun
    | fast p hh hhead => exact hhit hh nofun fun _ => hhead
    | null hb ht hl =>
      refine ((hit_null hb hl ht).mono (fun _ hr => hr) fun e he => ?_).bind fun st' hst => ?_
      · rw [he]
        exact .null hb ht
      · exact ⟨⟨rfl, hb, ht, hst⟩, hw⟩
  · obtain ⟨text, ht⟩ := lookup_fatal st hp
    unfold access
    rw [ht]
    exact .fatal text hp

/-- An access of block 0 without a last block ends at its last step. -/
theorem finish_ok {blk : Option (g.SetIdx × g.Way)} (nbytes : Addr)
    (ha : Accessed cmd prefetch st addr exit blk st') (hw : I w)
    {st'' : Store g} : Ensures (finish exit blk st'' w)
      (fun r => r.1 = exit ∧ r.2.1 = st'' ∧ I r.2.2 ∧ ∃ p, blk = some p) (Stopped st addr nbytes) := by
  cases blk with
  | some p =>
    rw [finish, if_neg (by simp)]
    exact ⟨rfl, rfl, hw, p, rfl⟩
  | none =>
    obtain ⟨rfl, hb, ht, -⟩ := ha
    exact .null hb ht

theorem prefetchAccess_ok (h : st.Ok) (hI : env.Keeps I) (hw : I w) :
    Ensures (st.prefetchAccess env cmd addr nbytes w) (fun r => (∃ p, Used cmd true st addr r.1 p r.2.1) ∧ I r.2.2)
      (Stopped st addr nbytes) := by
  refine (access_ok h hI hw).bind ?_
  rintro ⟨exit, blk, st₁, w₁⟩ ⟨ha, hw₁⟩
  refine (finish_ok nbytes ha hw₁).mono ?_ fun _ he => he
  rintro ⟨_, _, w₂⟩ ⟨rfl, rfl, hw₂, p, rfl⟩
  exact ⟨⟨p, ha⟩, hw₂⟩

/-! ## Prefetches -/

/-- What one address of a prefetcher leaves behind. -/
inductive Fetched (st : Store g) (pf : Addr) : Store g → Prop
  | resident : st.Resident pf → Fetched st pf st
  | fetched (p : g.SetIdx × g.Way) (st' : Store g) : ¬ st.Resident pf → Used .Read true st pf .miss p st' →
      Fetched st pf st'

theorem Fetched.ok {pf : Addr} (hf : Fetched st pf st') (h : st.Ok) : st'.Ok := by
  cases hf with
  | resident => exact h
  | fetched p st' hno hu => exact hu.ok

/-- What a list of addresses leaves behind, one after the other. -/
inductive FetchedAll : Store g → List Addr → Store g → Prop
  | nil (st : Store g) : FetchedAll st [] st
  | cons {st st₁ st₂ : Store g} {pf : Addr} {rest : List Addr} : Fetched st pf st₁ → FetchedAll st₁ rest st₂ →
      FetchedAll st (pf :: rest) st₂

/-- Where a list of addresses can end early. -/
inductive FetchStopped : Store g → List Addr → Stop → Prop
  | here {st : Store g} {pf : Addr} {rest : List Addr} {e : Stop} : ¬ st.Resident pf → Stopped st pf g.bsize e →
      FetchStopped st (pf :: rest) e
  | later {st st₁ : Store g} {pf : Addr} {rest : List Addr} {e : Stop} : Fetched st pf st₁ → FetchStopped st₁ rest e →
      FetchStopped st (pf :: rest) e

theorem fetch_ok (h : st.Ok) (hI : env.Keeps I) (hw : I w) (pf : List Addr) :
    Ensures (st.fetch env w pf) (fun r => FetchedAll st pf r.1 ∧ I r.2) (FetchStopped st pf) := by
  induction pf generalizing st w with
  | nil => exact ⟨.nil st, hw⟩
  | cons pf rest ih =>
    -- the rest of the list runs on what the first address leaves behind
    have hrest {st₁ : Store g} {w₁ : World σ} (hf : Fetched st pf st₁) (hw₁ : I w₁) :
        Ensures (st₁.fetch env w₁ rest) (fun r => FetchedAll st (pf :: rest) r.1 ∧ I r.2)
          (FetchStopped st (pf :: rest)) :=
      (ih (hf.ok h) hw₁).mono (fun _ hr => ⟨.cons hf hr.1, hr.2⟩) fun _ he => .later hf he
    obtain ⟨r, hr, hres⟩ := h.probe pf
    rw [fetch, hr]
    cases r with
    | true => exact hrest (.resident (hres.1 rfl)) hw
    | false =>
      have hno : ¬ st.Resident pf := by
        intro hm
        cases hres.2 hm
      refine ((prefetchAccess_ok h hI hw).mono (fun _ hr => hr) fun _ he => .here hno he).bind ?_
      rintro ⟨exit, st₁, w₁⟩ ⟨⟨p, hu⟩, hw₁⟩
      obtain rfl := hu.missed.2 hno
      exact hrest (.fetched p st₁ hno hu) hw₁

theorem FetchedAll.ok {pf : List Addr} (hf : FetchedAll st pf st') (h : st.Ok) : st'.Ok := by
  induction hf with
  | nil => exact h
  | cons hf _ ih => exact ih (hf.ok h)

/-- The address is in the cache afterwards. -/
theorem Fetched.mem {pf : Addr} (hf : Fetched st pf st') : st'.Resident pf := by
  cases hf with
  | resident hr => exact hr
  | fetched p st' hno hu => exact hu.ok.resident_iff.2 ⟨p, hu.holds⟩

theorem Used.mem (hu : Used cmd prefetch st addr exit p st') : st'.Resident addr := hu.ok.resident_iff.2 ⟨p, hu.holds⟩

/-! ## Demand accesses -/

section Demand
variable {J : World σ → World σ → Prop} {pc : Addr}

/-- What a demand access leaves behind: `st₁` and `w₁` after its body, and then
what fetching the addresses `pf` of its prefetcher made of them. `J` is what the
rest of the simulation keeps meanwhile. -/
structure Demanded (J : World σ → World σ → Prop) (cmd : Cmd) (addr pc : Addr) (st : Store g) (w : World σ)
    (p : g.SetIdx × g.Way) (st₁ : Store g) (w₁ : World σ) (pf : List Addr) (s : Statics)
    (r : Exit × Store g × World σ) : Prop where
  used : Used cmd false st addr r.1 p st₁
  body : J w w₁
  prefetch : generate_prefetch g.toParams w₁.statics { addr, pc, resident := st₁.resident } = some (pf, s)
  fetched : FetchedAll st₁ pf r.2.1
  after : J { w₁ with statics := s } r.2.2

/-- How a demand access can end early. -/
inductive DemandStopped (env : Env σ) (J : World σ → World σ → Prop) (cmd : Cmd) (addr nbytes pc : Addr) (st : Store g)
    (w : World σ) : Stop → Prop
  | body {e : Stop} : Stopped st addr nbytes e → DemandStopped env J cmd addr nbytes pc st w e
  | bounds {exit : Exit} {blk : Option (g.SetIdx × g.Way)} {st₁ : Store g} {w₁ : World σ} :
      st.access env cmd addr nbytes false w = .ok (exit, blk, st₁, w₁) → J w w₁ →
      generate_prefetch g.toParams w₁.statics { addr, pc, resident := st₁.resident } = none →
      DemandStopped env J cmd addr nbytes pc st w .bounds
  | prefetch {exit : Exit} {blk : Option (g.SetIdx × g.Way)} {st₁ : Store g} {w₁ : World σ} {pf : List Addr}
      {s : Statics} {e : Stop} : st.access env cmd addr nbytes false w = .ok (exit, blk, st₁, w₁) → J w w₁ →
      generate_prefetch g.toParams w₁.statics { addr, pc, resident := st₁.resident } = some (pf, s) →
      FetchStopped st₁ pf e → DemandStopped env J cmd addr nbytes pc st w e

theorem demandAccess_ok (h : st.Ok) (hJ : ∀ w, env.Keeps (J w)) (hrefl : ∀ w, J w w) :
    Ensures (st.demandAccess env cmd addr nbytes pc w)
      (fun r => ∃ p st₁ w₁ pf s, Demanded J cmd addr pc st w p st₁ w₁ pf s r)
      (DemandStopped env J cmd addr nbytes pc st w) := by
  refine ((access_ok h (hJ w) (hrefl w)).result.mono (fun _ hr => hr) fun _ he => .body he).bind ?_
  rintro ⟨exit, blk, st₁, w₁⟩ ⟨hacc, ha, hw₁⟩
  dsimp only at ha hw₁ ⊢
  unfold Store.prefetch
  cases hg : generate_prefetch g.toParams w₁.statics { addr, pc, resident := st₁.resident } with
  | none => exact .bounds hacc hw₁ hg
  | some r =>
    obtain ⟨pf, s⟩ := r
    refine ((fetch_ok (ha.ok h) (hJ { w₁ with statics := s }) (hrefl _) pf).mono (fun _ hr => hr)
      fun _ he => .prefetch hacc hw₁ hg he).bind ?_
    rintro ⟨st₂, w₂⟩ ⟨hf, hw₂⟩
    refine (finish_ok nbytes ha hw₂).mono ?_ fun _ he => .body he
    rintro ⟨_, _, w₃⟩ ⟨rfl, rfl, hw₃, p, rfl⟩
    exact ⟨p, st₁, w₁, pf, s, ha, hw₁, hg, hf, hw₃⟩

theorem Demanded.ok {p : g.SetIdx × g.Way} {st₁ : Store g} {w₁ : World σ} {pf : List Addr} {s : Statics}
    {r : Exit × Store g × World σ} (hd : Demanded J cmd addr pc st w p st₁ w₁ pf s r) : r.2.1.Ok :=
  hd.fetched.ok hd.used.ok

end Demand

end Store

end Cache
