import CompArch.Cache.Calls
import Mathlib.Data.Fintype.Prod
/-!
# What a call counts

A call that completes is a sequence of hits, misses and invalidations. Each of
them changes the counters, the number of valid blocks and the traffic to the
miss handler in its own way, and nothing else does.
-/

namespace Cache

open Function Outcome

variable {g : Geometry} {σ : Type} {env : Env σ}

/-! ## Events -/

inductive Event
  | hit (cmd : Cmd) (prefetch : Bool)
  /-- The block that was replaced was valid, and dirty. -/
  | miss (cmd : Cmd) (prefetch valid dirty : Bool)
  | invalidate (dirty : Bool)
  deriving DecidableEq

/-- The counters after an event. -/
def Stats.count (s : Stats) : Event → Stats
  | .hit cmd prefetch => s.countHit cmd prefetch
  | .miss cmd prefetch valid dirty => (s.countMiss cmd prefetch).replaced valid dirty
  | .invalidate dirty =>
    { s with
      invalidations := s.invalidations + 1
      writebacks := if dirty then s.writebacks + 1 else s.writebacks }

/-- A counter that grows with each event sums these up. -/
theorem sum_foldl {f : Stats → Nat} {n : Event → Nat} (hf : ∀ s e, f (s.count e) = f s + n e) (es : List Event)
    (s : Stats) : f (es.foldl Stats.count s) = f s + (es.map n).sum := by
  induction es generalizing s with
  | nil => rfl
  | cons e es ih => rw [List.foldl_cons, ih, hf, List.map_cons, List.sum_cons, Nat.add_assoc]

/-- A counter that some events increment counts these. -/
theorem count_foldl {f : Stats → Nat} {P : Event → Bool} (hf : ∀ s e, f (s.count e) = f s + (P e).toNat)
    (es : List Event) (s : Stats) : f (es.foldl Stats.count s) = f s + es.countP P := by
  rw [sum_foldl hf]
  congr 1
  induction es with
  | nil => rfl
  | cons e es ih =>
    rw [List.map_cons, List.sum_cons, List.countP_cons, ih, Nat.add_comm]
    cases P e <;> rfl

/-- The prefetch flags of the calls of the miss handler. -/
def Event.calls : Event → List Bool
  | .hit _ _ => []
  | .miss _ prefetch valid dirty => (if valid ∧ dirty then [false] else []) ++ [prefetch]
  | .invalidate dirty => if dirty then [false] else []

/-- The miss handler is called with these flags, whatever the tables of the prefetchers hold,
and between the calls random numbers are drawn. -/
inductive Below (env : Env σ) : σ → List Bool → σ → Prop
  | nil (r : σ) : Below env r [] r
  | call {cmd : Cmd} {baddr : Addr} {prefetch : Bool} {statics : Statics} {r r' : σ} {w : World σ} {l : List Bool} :
      env.blk_access_fn cmd baddr prefetch { statics, rest := r } = some w → Below env w.rest l r' →
      Below env r (prefetch :: l) r'
  | rand {r r' : σ} {l : List Bool} : Below env (env.myrand r).2 l r' → Below env r l r'

theorem Below.trans {r r₁ r' : σ} {l l' : List Bool} (h : Below env r l r₁) (h' : Below env r₁ l' r') :
    Below env r (l ++ l') r' := by
  induction h with
  | nil => exact h'
  | call hc _ ih => exact .call hc (ih h')
  | rand _ ih => exact .rand (ih h')

theorem Below.of_call {cmd : Cmd} {baddr : Addr} {prefetch : Bool} {w w' : World σ}
    (h : env.call cmd baddr prefetch w = .ok w') : Below env w.rest [prefetch] w'.rest := by
  unfold Env.call at h
  split at h
  case h_1 => cases h
  case h_2 w₁ hc =>
    cases h
    exact .call hc (.nil _)

namespace Store

variable {st st' : Store g} {w w' : World σ}

def validBlocks (st : Store g) : Finset (g.SetIdx × g.Way) :=
  Finset.univ.filter fun p => (st.sets p.1).valid p.2 = true

/-- By how much the valid blocks exceed what was filled and not replaced or invalidated. -/
def surplus (st : Store g) : Int :=
  st.validBlocks.card + st.stats.replacements + st.stats.invalidations - st.stats.misses - st.stats.prefetch_misses

/-- What the events `es` do to a cache and the world below. -/
structure Did (env : Env σ) (s : Store g × World σ) (es : List Event) (s' : Store g × World σ) : Prop where
  stats : s'.1.stats = es.foldl Stats.count s.1.stats
  surplus : s'.1.surplus = s.1.surplus
  below : Below env s.2.rest (es.flatMap Event.calls) s'.2.rest

theorem Did.nil (s : Store g × World σ) : Did env s [] s := ⟨rfl, rfl, .nil _⟩

theorem Did.one {s s' : Store g × World σ} {e : Event} (hstats : s'.1.stats = s.1.stats.count e)
    (hsurplus : s'.1.surplus = s.1.surplus) (hbelow : Below env s.2.rest e.calls s'.2.rest) : Did env s [e] s' := by
  refine ⟨hstats, hsurplus, ?_⟩
  rw [List.flatMap_singleton]
  exact hbelow

theorem Did.trans {s s₁ s' : Store g × World σ} {es es' : List Event} (h : Did env s es s₁) (h' : Did env s₁ es' s') :
    Did env s (es ++ es') s' := by
  refine ⟨?_, h'.surplus.trans h.surplus, ?_⟩
  · rw [List.foldl_append, ← h.stats, h'.stats]
  · rw [List.flatMap_append]
    exact h.below.trans h'.below

/-! ## Valid blocks -/

/-- One block becomes valid or invalid. -/
theorem card_validBlocks {p : g.SetIdx × g.Way} {v : Bool}
    (h : ∀ q, (st'.sets q.1).valid q.2 = if q = p then v else (st.sets q.1).valid q.2) :
    st'.validBlocks.card + (if (st.sets p.1).valid p.2 then 1 else 0) = st.validBlocks.card + if v then 1 else 0 := by
  have hcard (st : Store g) :
      st.validBlocks.card = (st.validBlocks.erase p).card + if (st.sets p.1).valid p.2 then 1 else 0 := by
    have hmem : p ∈ st.validBlocks ↔ (st.sets p.1).valid p.2 = true := by simp [validBlocks]
    by_cases hv : (st.sets p.1).valid p.2 = true
    · rw [if_pos hv, Finset.card_erase_add_one (hmem.2 hv)]
    · rw [if_neg hv, Finset.erase_eq_of_notMem fun hp => hv (hmem.1 hp), Nat.add_zero]
  have herase : st'.validBlocks.erase p = st.validBlocks.erase p := by
    ext q
    simp only [validBlocks, Finset.mem_erase, Finset.mem_filter, Finset.mem_univ, true_and]
    refine and_congr_right fun hq => ?_
    rw [h, if_neg hq]
  rw [hcard st, hcard st', herase, h p, if_pos rfl]
  omega

end Store

/-! ## What does not touch the blocks -/

/-- The blocks of two sets hold the same. -/
structure SameBlocks {n : Nat} (cs cs' : CacheSet n) : Prop where
  tag : cs'.tag = cs.tag
  valid : cs'.valid = cs.valid
  dirty : cs'.dirty = cs.dirty

section Frames
variable {n : Nat} {cs cs' : CacheSet n} {b : Fin n} {loc : ListLoc}

theorem linkWay_same (h : cs.linkWay b loc = .ok cs') : SameBlocks cs cs' := by
  cases loc with
  | Head =>
    obtain ⟨head, -, h⟩ := bind_ok.1 h
    cases h
    exact ⟨rfl, rfl, rfl⟩
  | Tail =>
    obtain ⟨tail, -, h⟩ := bind_ok.1 h
    cases h
    exact ⟨rfl, rfl, rfl⟩

theorem update_way_list_same (h : cs.update_way_list b loc = .ok cs') : SameBlocks cs cs' := by
  unfold CacheSet.update_way_list at h
  split at h
  case h_1 =>
    obtain ⟨-, -, h⟩ := bind_ok.1 h
    cases h
    exact ⟨rfl, rfl, rfl⟩
  case h_2 =>
    obtain ⟨-, -, h⟩ := bind_ok.1 h
    split at h
    · cases h
      exact ⟨rfl, rfl, rfl⟩
    · have hs := linkWay_same h
      exact ⟨hs.tag, hs.valid, hs.dirty⟩
  case h_3 =>
    obtain ⟨-, -, h⟩ := bind_ok.1 h
    split at h
    · cases h
      exact ⟨rfl, rfl, rfl⟩
    · have hs := linkWay_same h
      exact ⟨hs.tag, hs.valid, hs.dirty⟩
  case h_4 =>
    obtain ⟨-, -, h⟩ := bind_ok.1 h
    have hs := linkWay_same h
    exact ⟨hs.tag, hs.valid, hs.dirty⟩

end Frames

section Frames
variable {cs cs' : CacheSet g.assoc} {b : g.Way}

theorem unlinkHash_same (h : cs.unlinkHash b = .ok cs') : SameBlocks cs cs' := by
  unfold CacheSet.unlinkHash at h
  split at h
  · unfold CacheSet.unlink_htab_ent at h
    obtain ⟨⟨prev, ent⟩, -, h⟩ := bind_ok.1 h
    cases ent with
    | none => cases h
    | some ent =>
      cases h
      exact ⟨rfl, rfl, rfl⟩
  · cases h
    exact ⟨rfl, rfl, rfl⟩

theorem linkHash_blocks (cs : CacheSet g.assoc) (b : g.Way) : SameBlocks cs (cs.linkHash b) := by
  unfold CacheSet.linkHash
  split <;> exact ⟨rfl, rfl, rfl⟩

theorem select_same {r : g.Way} {w w' : World σ} (h : Store.select env cs w = .ok (r, cs', w')) :
    SameBlocks cs cs' ∧ Below env w.rest [] w'.rest := by
  unfold Store.select at h
  split at h
  case h_3 =>
    cases h
    exact ⟨⟨rfl, rfl, rfl⟩, .rand (.nil _)⟩
  all_goals
    obtain ⟨tail, -, h⟩ := bind_ok.1 h
    obtain ⟨cs₁, hw, h⟩ := bind_ok.1 h
    cases h
    exact ⟨update_way_list_same hw, .nil _⟩

end Frames

/-! ## Misses and hits -/

namespace Store

variable {st st' : Store g} {w w' : World σ} {cmd : Cmd} {addr nbytes : Addr} {prefetch : Bool}

theorem writeBack_did {cs : CacheSet g.assoc} {set : g.SetIdx} {b : g.Way} {stats stats' : Stats}
    (h : writeBack env cs set b stats w = .ok (stats', w')) :
    stats' = stats.replaced (cs.valid b) (cs.dirty b) ∧
      Below env w.rest (if cs.valid b ∧ cs.dirty b then [false] else []) w'.rest := by
  unfold writeBack at h
  by_cases hv : cs.valid b = true
  · rw [if_pos hv] at h
    by_cases hd : cs.dirty b = true
    · rw [if_pos hd] at h
      obtain ⟨w₁, hc, h⟩ := bind_ok.1 h
      cases h
      rw [if_pos ⟨hv, hd⟩]
      exact ⟨by simp [Stats.replaced, hv, hd], .of_call hc⟩
    · rw [if_neg hd] at h
      cases h
      rw [if_neg fun hvd => hd hvd.2]
      exact ⟨by simp [Stats.replaced, hv, hd], .nil _⟩
  · rw [if_neg hv] at h
    cases h
    rw [if_neg fun hvd => hv hvd.1]
    exact ⟨by simp [Stats.replaced, hv], .nil _⟩

theorem valid_of_sets {set : g.SetIdx} {b : g.Way} {v : Bool} {cs : CacheSet g.assoc}
    (hsets : st'.sets = update st.sets set cs) (hv : cs.valid = update (st.sets set).valid b v) (q : g.SetIdx × g.Way) :
    (st'.sets q.1).valid q.2 = if q = (set, b) then v else (st.sets q.1).valid q.2 := by
  obtain ⟨i, a⟩ := q
  rw [hsets]
  by_cases hi : i = set
  · subst hi
    rw [update_self, hv, update_apply]
    simp
  · rw [update_of_ne hi, if_neg fun he => hi (congrArg Prod.fst he)]

theorem surplus_miss {p : g.SetIdx × g.Way} {dirty : Bool}
    (hs : st'.stats = st.stats.count (.miss cmd prefetch ((st.sets p.1).valid p.2) dirty))
    (hv : ∀ q, (st'.sets q.1).valid q.2 = if q = p then true else (st.sets q.1).valid q.2) :
    st'.surplus = st.surplus := by
  have hcard := card_validBlocks hv
  unfold surplus
  rw [hs]
  cases prefetch <;> by_cases hp : (st.sets p.1).valid p.2 = true <;>
    simp [hp, Stats.count, Stats.replaced, Stats.countMiss] at hcard ⊢ <;> omega

theorem surplus_invalidate {p : g.SetIdx × g.Way} {dirty : Bool} (hs : st'.stats = st.stats.count (.invalidate dirty))
    (hp : (st.sets p.1).valid p.2 = true)
    (hv : ∀ q, (st'.sets q.1).valid q.2 = if q = p then false else (st.sets q.1).valid q.2) :
    st'.surplus = st.surplus := by
  have hcard := card_validBlocks hv
  unfold surplus
  rw [hs]
  simp [hp, Stats.count] at hcard ⊢
  omega

theorem miss_did {b : g.Way} (h : st.miss env cmd addr prefetch w = .ok (b, st', w')) :
    ∃ valid dirty, Did env (st, w) [.miss cmd prefetch valid dirty] (st', w') := by
  unfold miss at h
  obtain ⟨⟨repl, cs, w₁⟩, hsel, h⟩ := bind_ok.1 h
  obtain ⟨cs₁, hunlink, h⟩ := bind_ok.1 h
  obtain ⟨⟨stats, w₂⟩, hwb, h⟩ := bind_ok.1 h
  obtain ⟨w₃, hcall, h⟩ := bind_ok.1 h
  cases h
  obtain ⟨hsame, hw₁⟩ := select_same hsel
  have hunlink := unlinkHash_same hunlink
  obtain ⟨rfl, hw₂⟩ := writeBack_did hwb
  have hvalid : cs₁.valid = (st.sets (CACHE_SET g addr)).valid := hunlink.valid.trans hsame.valid
  refine ⟨cs₁.valid b, cs₁.dirty b, .one rfl ?_ ?_⟩
  · refine surplus_miss (p := (CACHE_SET g addr, b)) (by rw [← hvalid]; rfl) (valid_of_sets rfl ?_)
    rw [(linkHash_blocks _ b).valid, ← hvalid]
    split <;> rfl
  · exact hw₁.trans (hw₂.trans (.of_call hcall))

theorem invalidate_did {set : g.SetIdx} {b : g.Way} (hv : (st.sets set).valid b = true)
    (h : st.invalidate env set b w = .ok (st', w')) : ∃ dirty, Did env (st, w) [.invalidate dirty] (st', w') := by
  have hsurplus {st' : Store g} (dirty : Bool) (hs : st'.stats = st.stats.count (.invalidate dirty))
      (hsets : st'.sets = update st.sets set { st.sets set with valid := update (st.sets set).valid b false }) :
      st'.surplus = st.surplus :=
    surplus_invalidate (p := (set, b)) hs hv (valid_of_sets hsets rfl)
  unfold invalidate at h
  by_cases hd : (st.sets set).dirty b = true
  · simp only [if_pos hd] at h
    obtain ⟨w₁, hc, h⟩ := bind_ok.1 h
    cases h
    exact ⟨true, .one rfl (hsurplus true rfl rfl) (.of_call hc)⟩
  · simp only [if_neg hd] at h
    cases h
    exact ⟨false, .one rfl (hsurplus false rfl rfl) (.nil _)⟩

/-- The blocks stay, but for dirty bits and their order. -/
structure KeepsValid (st st' : Store g) : Prop where
  stats : st'.stats = st.stats
  valid : ∀ i, (st'.sets i).valid = (st.sets i).valid

theorem KeepsValid.setSet {set : g.SetIdx} {cs : CacheSet g.assoc} (hv : cs.valid = (st.sets set).valid) :
    KeepsValid st (st.setSet set cs) := by
  refine ⟨rfl, fun i => ?_⟩
  by_cases hi : i = set
  · subst hi
    rw [setSet_self, hv]
  · change (update st.sets set cs i).valid = _
    rw [update_of_ne hi]

theorem KeepsValid.trans {st₁ : Store g} (h : KeepsValid st st₁) (h' : KeepsValid st₁ st') : KeepsValid st st' :=
  ⟨h'.stats.trans h.stats, fun i => (h'.valid i).trans (h.valid i)⟩

theorem KeepsValid.surplus (h : KeepsValid st st') : st'.surplus = st.surplus := by
  unfold Store.surplus validBlocks
  simp only [h.stats, h.valid]

theorem KeepsValid.did (h : KeepsValid st st') (w : World σ) : Did env (st, w) [] (st', w) :=
  ⟨h.stats, h.surplus, .nil _⟩

theorem markDirty_keeps {blk : Option (g.SetIdx × g.Way)} (h : markDirty cmd blk st = .ok st') : KeepsValid st st' := by
  unfold markDirty at h
  split at h
  · obtain ⟨⟨set, b⟩, -, h⟩ := bind_ok.1 h
    cases h
    exact .setSet rfl
  · cases h
    exact ⟨rfl, fun _ => rfl⟩

theorem reorder_keeps {set : g.SetIdx} {b : g.Way} (h : reorder set b st = .ok st') : KeepsValid st st' := by
  unfold reorder at h
  split at h
  · obtain ⟨cs, hcs, h⟩ := bind_ok.1 h
    cases h
    exact .setSet (update_way_list_same hcs).valid
  · cases h
    exact ⟨rfl, fun _ => rfl⟩

theorem hit_did {exit : Exit} {blk : Option (g.SetIdx × g.Way)} (h : st.hit exit cmd addr prefetch blk = .ok st')
    (w : World σ) : Did env (st, w) [.hit cmd prefetch] (st', w) := by
  unfold hit at h
  obtain ⟨st₁, hmark, h⟩ := bind_ok.1 h
  have hkeeps : KeepsValid { st with stats := st.stats.countHit cmd prefetch } st' := by
    refine (markDirty_keeps hmark).trans ?_
    split at h
    · obtain ⟨st₂, horder, h⟩ := bind_ok.1 h
      cases h
      exact (reorder_keeps horder).trans ⟨rfl, fun _ => rfl⟩
    · cases h
      exact ⟨rfl, fun _ => rfl⟩
  refine .one hkeeps.stats (hkeeps.surplus.trans ?_) (.nil _)
  cases prefetch <;> rfl

/-! ## Accesses -/

/-- The one event of the body of an access. -/
inductive IsAccess (cmd : Cmd) (prefetch : Bool) : Exit → Event → Prop
  | miss (valid dirty : Bool) : IsAccess cmd prefetch .miss (.miss cmd prefetch valid dirty)
  | hit {exit : Exit} : exit ≠ .miss → IsAccess cmd prefetch exit (.hit cmd prefetch)

/-- The body of an access is a miss or a hit. -/
theorem access_cases {exit : Exit} {blk : Option (g.SetIdx × g.Way)}
    (h : st.access env cmd addr nbytes prefetch w = .ok (exit, blk, st', w')) :
    (exit = .miss ∧ ∃ b, st.miss env cmd addr prefetch w = .ok (b, st', w')) ∨
      exit ≠ .miss ∧ st.hit exit cmd addr prefetch blk = .ok st' ∧ w' = w := by
  unfold access at h
  obtain ⟨⟨exit₁, blk₁⟩, -, h⟩ := bind_ok.1 h
  split at h
  case h_1 =>
    obtain ⟨⟨b, st₁, w₁⟩, hmiss, h⟩ := bind_ok.1 h
    cases h
    exact .inl ⟨rfl, b, hmiss⟩
  case h_2 hne _ =>
    obtain ⟨st₁, hhit, h⟩ := bind_ok.1 h
    cases h
    exact .inr ⟨hne, hhit, rfl⟩

theorem access_did {exit : Exit} {blk : Option (g.SetIdx × g.Way)}
    (h : st.access env cmd addr nbytes prefetch w = .ok (exit, blk, st', w')) :
    ∃ e, IsAccess cmd prefetch exit e ∧ Did env (st, w) [e] (st', w') := by
  obtain ⟨rfl, b, hmiss⟩ | ⟨hne, hhit, rfl⟩ := access_cases h
  · obtain ⟨valid, dirty, hd⟩ := miss_did hmiss
    exact ⟨_, .miss valid dirty, hd⟩
  · exact ⟨_, .hit hne, hit_did hhit w'⟩

/-- The last step of an access passes on what it is given. -/
theorem finish_eq {exit : Exit} {blk : Option (g.SetIdx × g.Way)} {r : Exit × Store g × World σ}
    (h : finish exit blk st w = .ok r) : r = (exit, st, w) := by
  unfold finish at h
  by_cases hnull : exit ≠ .miss ∧ blk = none
  · rw [if_pos hnull] at h
    cases h
  · rw [if_neg hnull] at h
    cases h
    rfl

theorem prefetchAccess_did {exit : Exit} (h : st.prefetchAccess env cmd addr nbytes w = .ok (exit, st', w')) :
    ∃ e, IsAccess cmd true exit e ∧ Did env (st, w) [e] (st', w') := by
  unfold prefetchAccess at h
  obtain ⟨⟨exit₁, blk, st₁, w₁⟩, hacc, h⟩ := bind_ok.1 h
  cases finish_eq h
  exact access_did hacc

/-- The body of an access leaves the rest of the simulation to the handler and the random numbers. -/
theorem access_keeps {I : World σ → Prop} (hI : env.Keeps I) (hw : I w) {exit : Exit}
    {blk : Option (g.SetIdx × g.Way)} (h : st.access env cmd addr nbytes prefetch w = .ok (exit, blk, st', w')) :
    I w' := by
  obtain ⟨-, b, hmiss⟩ | ⟨-, -, rfl⟩ := access_cases h
  · unfold miss at hmiss
    obtain ⟨⟨repl, cs, w₁⟩, hsel, hmiss⟩ := bind_ok.1 hmiss
    obtain ⟨cs₁, -, hmiss⟩ := bind_ok.1 hmiss
    obtain ⟨⟨stats, w₂⟩, hwb, hmiss⟩ := bind_ok.1 hmiss
    obtain ⟨w₃, hcall, hmiss⟩ := bind_ok.1 hmiss
    cases hmiss
    have hw₁ : I w₁ := by
      unfold select at hsel
      split at hsel
      case h_3 =>
        cases hsel
        exact hI.rest _ _ hw
      all_goals
        obtain ⟨tail, -, hsel⟩ := bind_ok.1 hsel
        obtain ⟨cs₂, -, hsel⟩ := bind_ok.1 hsel
        cases hsel
        exact hw
    have hw₂ : I w₂ := ((writeBack_ok hI hw₁ _ _ _ _).of_ok hwb).2
    exact (hI.call hw₂ _ _ _).of_ok hcall
  · exact hw

/-! ## The prefetches a cache issues itself -/

variable (env) in
/-- The addresses `fetch` accesses. -/
def fetchIssues (st : Store g) (w : World σ) : List Addr → List Addr
  | [] => []
  | pf :: rest =>
    match st.cache_probe pf with
    | .error _ => []
    | .ok true => st.fetchIssues w rest
    | .ok false =>
      pf :: match st.prefetchAccess env .Read pf g.bsize w with
        | .error _ => []
        | .ok (_, st, w) => st.fetchIssues w rest

variable (env) in
/-- The addresses `generate_prefetch` accesses. -/
def prefetchIssues (addr pc : Addr) (st : Store g) (w : World σ) : List Addr :=
  match generate_prefetch g.toParams w.statics { addr, pc, resident := st.resident } with
  | none => []
  | some (pf, statics) => st.fetchIssues env { w with statics } pf

variable (env) in
/-- The addresses `cache_access` accesses with its own prefetcher. -/
def accessIssues (cmd : Cmd) (addr nbytes : Addr) (prefetch : Bool) (pc : Addr) (st : Store g) (w : World σ) :
    List Addr :=
  if prefetch then []
  else
    match st.access env cmd addr nbytes false w with
    | .error _ => []
    | .ok (_, _, st, w) => st.prefetchIssues env addr pc w

/-- A prefetch that missed. -/
def IsFill : Event → Prop
  | .miss .Read true _ _ => True
  | _ => False

/-- Each address that is issued misses. -/
theorem fetch_did (h : st.Ok) {pf : List Addr} (hf : st.fetch env w pf = .ok (st', w')) :
    ∃ es, Did env (st, w) es (st', w') ∧ es.length = (st.fetchIssues env w pf).length ∧ ∀ e ∈ es, IsFill e := by
  induction pf generalizing st w with
  | nil =>
    cases hf
    exact ⟨[], .nil _, rfl, nofun⟩
  | cons pf rest ih =>
    obtain ⟨r, hr, hres⟩ := h.probe pf
    rw [fetch, hr] at hf
    rw [fetchIssues, hr]
    cases r with
    | true => exact ih h hf
    | false =>
      change (st.prefetchAccess env .Read pf g.bsize w >>= fun r => r.2.1.fetch env r.2.2 rest) = _ at hf
      obtain ⟨⟨exit, st₁, w₁⟩, hacc, hf⟩ := bind_ok.1 hf
      obtain ⟨⟨p, hu⟩, -⟩ := (prefetchAccess_ok h env.keeps_true trivial).of_ok hacc
      obtain rfl : exit = .miss := hu.missed.2 fun hm => Bool.false_ne_true (hres.2 hm)
      obtain ⟨e, he, hd⟩ := prefetchAccess_did hacc
      obtain ⟨es, hds, hlen, hes⟩ := ih hu.ok hf
      simp only [hacc]
      refine ⟨e :: es, hd.trans hds, by rw [List.length_cons, List.length_cons, hlen], ?_⟩
      rintro e' (_ | ⟨_, he'⟩)
      · cases he with
        | miss => trivial
        | hit hne => exact absurd rfl hne
      · exact hes e' he'

/-- A call of `cache_access` is one event and those of the prefetches it issues. -/
theorem cache_access_did (h : st.Ok) {pc : Addr} {exit : Exit}
    (ha : st.cache_access env cmd addr nbytes prefetch pc w = .ok (exit, st', w')) :
    ∃ e es, IsAccess cmd prefetch exit e ∧ Did env (st, w) (e :: es) (st', w') ∧
      es.length = (st.accessIssues env cmd addr nbytes prefetch pc w).length ∧ ∀ e ∈ es, IsFill e := by
  unfold cache_access at ha
  cases prefetch with
  | true =>
    obtain ⟨e, he, hd⟩ := prefetchAccess_did ha
    exact ⟨e, [], he, hd, rfl, nofun⟩
  | false =>
    change st.demandAccess env cmd addr nbytes pc w = _ at ha
    unfold demandAccess at ha
    obtain ⟨⟨exit₁, blk, st₁, w₁⟩, hacc, ha⟩ := bind_ok.1 ha
    obtain ⟨⟨st₂, w₂⟩, hpre, ha⟩ := bind_ok.1 ha
    cases finish_eq ha
    have hok : st₁.Ok := ((access_ok h env.keeps_true trivial).of_ok hacc).1.ok h
    obtain ⟨e, he, hd⟩ := access_did hacc
    unfold Store.prefetch at hpre
    have hissues : st.accessIssues env cmd addr nbytes false pc w = st₁.prefetchIssues env addr pc w₁ := by
      simp [accessIssues, hacc]
    rw [hissues, prefetchIssues]
    cases hg : generate_prefetch g.toParams w₁.statics { addr, pc, resident := st₁.resident } with
    | none =>
      rw [hg] at hpre
      cases hpre
    | some r =>
      obtain ⟨pf, statics⟩ := r
      rw [hg] at hpre
      obtain ⟨es, hds, hlen, hes⟩ := fetch_did hok hpre
      have htables : Did env (st₁, w₁) [] (st₁, { w₁ with statics }) := ⟨rfl, rfl, .nil _⟩
      exact ⟨e, es, he, hd.trans (htables.trans hds), hlen, hes⟩

/-! ## Flushes -/

def IsInvalidate : Event → Prop
  | .invalidate _ => True
  | _ => False

theorem flushBlocks_did {set : g.SetIdx} {bs : List g.Way} (h : st.flushBlocks env set w bs = .ok (st', w')) :
    ∃ es, Did env (st, w) es (st', w') ∧ ∀ e ∈ es, IsInvalidate e := by
  induction bs generalizing st w with
  | nil =>
    cases h
    exact ⟨[], .nil _, nofun⟩
  | cons b bs ih =>
    unfold flushBlocks at h
    by_cases hv : (st.sets set).valid b = true
    · rw [if_pos hv] at h
      obtain ⟨⟨st₁, w₁⟩, hinv, h⟩ := bind_ok.1 h
      obtain ⟨dirty, hd⟩ := invalidate_did hv hinv
      obtain ⟨es, hds, hes⟩ := ih h
      refine ⟨_ :: es, hd.trans hds, ?_⟩
      rintro e (_ | ⟨_, he⟩)
      · trivial
      · exact hes e he
    · rw [if_neg hv] at h
      exact ih h

theorem flushSets_did {is : List g.SetIdx} (h : st.flushSets env w is = .ok (st', w')) :
    ∃ es, Did env (st, w) es (st', w') ∧ ∀ e ∈ es, IsInvalidate e := by
  induction is generalizing st w with
  | nil =>
    cases h
    exact ⟨[], .nil _, nofun⟩
  | cons set is ih =>
    unfold flushSets at h
    obtain ⟨bs, -, h⟩ := bind_ok.1 h
    obtain ⟨⟨st₁, w₁⟩, hset, h⟩ := bind_ok.1 h
    obtain ⟨es, hd, hes⟩ := flushBlocks_did hset
    obtain ⟨es', hds, hes'⟩ := ih h
    refine ⟨es ++ es', hd.trans hds, fun e he => ?_⟩
    rcases List.mem_append.1 he with he | he
    · exact hes e he
    · exact hes' e he

theorem cache_flush_did (h : st.cache_flush env w = .ok (st', w')) :
    ∃ es, Did env (st, w) es (st', w') ∧ ∀ e ∈ es, IsInvalidate e := by
  obtain ⟨es, hd, hes⟩ := flushSets_did h
  exact ⟨es, ⟨hd.stats, hd.surplus, hd.below⟩, hes⟩

theorem cache_flush_addr_did (hok : st.Ok) (h : st.cache_flush_addr env addr w = .ok (st', w')) :
    ∃ es, Did env (st, w) es (st', w') ∧ ∀ e ∈ es, IsInvalidate e := by
  obtain ⟨r, hr, hfound⟩ := (hok.sets (CACHE_SET g addr)).ok.find_ok (CACHE_TAG g addr)
  unfold cache_flush_addr at h
  obtain ⟨r', hr', h⟩ := bind_ok.1 h
  obtain rfl : r = r' := Except.ok.inj (hr.symm.trans hr')
  cases r with
  | none =>
    cases h
    exact ⟨[], .nil _, nofun⟩
  | some b =>
    have hv : (st.sets (CACHE_SET g addr)).valid b = true := (holds_iff.1 ((hfound b).1 rfl)).2
    obtain ⟨⟨st₁, w₁⟩, hinv, h⟩ := bind_ok.1 h
    obtain ⟨cs, hcs, h⟩ := bind_ok.1 h
    cases h
    obtain ⟨dirty, hd⟩ := invalidate_did (by exact hv) hinv
    have hmoved : KeepsValid st₁ (st₁.setSet (CACHE_SET g addr) cs) := .setSet (update_way_list_same hcs).valid
    have hforget : Did env (st, w) [.invalidate dirty] (st₁, w') := ⟨hd.stats, hd.surplus, hd.below⟩
    refine ⟨[.invalidate dirty], hforget.trans (hmoved.did w'), ?_⟩
    rintro e (_ | ⟨_, he⟩)
    · trivial
    · cases he

end Store

end Cache
