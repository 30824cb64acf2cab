import Mathlib.Tactic.IntervalCases
import CompArch.Shared
import CompArch.Cache.Prefetcher
/-!
# Prefetchers of different caches

The tables of the prefetchers are static variables of the file, one set for all
caches. The caches are isolated from each other exactly when no two of them use
the same kind of table.
-/

namespace Cache

open Shared Lts

variable {C : Type*} [DecidableEq C]

/-- Every cache's prefetcher computes its addresses from that cache's own accesses alone. -/
def PrefetchersIsolated (cfg : C → Params) : Prop :=
  ∀ c, Isolated (fun c => generate_prefetch (cfg c)) {} c

/-- A cache with the stride prefetcher: the default case of `generate_prefetch`. -/
def UsesStride (cp : Params) : Prop := 3 ≤ cp.prefetch_type

def UsesOpenEnded (cp : Params) : Prop := cp.prefetch_type = 2

/-! ## The prefetcher of each type -/

theorem generate_prefetch_openEnded {cp : Params} (h : UsesOpenEnded cp) (s : Statics) (a : Access) :
    generate_prefetch cp s a = some ((open_ended_prefetcher cp s.open_ended a).1,
      { s with open_ended := some (open_ended_prefetcher cp s.open_ended a).2 }) := by
  unfold UsesOpenEnded at h
  simp only [generate_prefetch, h]

theorem generate_prefetch_stride {cp : Params} (h : UsesStride cp) (s : Statics) (a : Access) :
    generate_prefetch cp s a =
      (stride_prefetcher cp s.rpt a).map fun r => (r.1, { s with rpt := some r.2 }) := by
  obtain ⟨n, hn⟩ := Nat.exists_eq_add_of_le' h
  simp only [generate_prefetch, hn]

/-- The other types have no table. -/
theorem generate_prefetch_stateless {cp : Params} (h₁ : ¬ UsesStride cp) (h₂ : ¬ UsesOpenEnded cp) (a : Access) :
    ∃ pf, ∀ s, generate_prefetch cp s a = some (pf, s) := by
  unfold UsesStride at h₁
  unfold UsesOpenEnded at h₂
  obtain h | h : cp.prefetch_type = 0 ∨ cp.prefetch_type = 1 := by omega
  · exact ⟨[], fun s => by simp only [generate_prefetch, h]⟩
  · exact ⟨next_line_prefetcher cp a.addr, fun s => by simp only [generate_prefetch, h]⟩

theorem UsesStride.not_openEnded {cp : Params} (h : UsesStride cp) : ¬ UsesOpenEnded cp := by
  unfold UsesStride at h
  unfold UsesOpenEnded
  omega

instance (cp : Params) : Decidable (UsesStride cp) := inferInstanceAs (Decidable (_ ≤ _))
instance (cp : Params) : Decidable (UsesOpenEnded cp) := inferInstanceAs (Decidable (_ = _))

/-! ## Own tables -/

/-- The statics the prefetcher of `cp` uses. -/
def own (cp : Params) (s : Statics) : Statics where
  open_ended := if UsesOpenEnded cp then s.open_ended else none
  rpt := if UsesStride cp then s.rpt else none

/-- A prefetcher reads and writes the statics of its own kind only. -/
theorem generate_prefetch_own {cp : Params} {s s' : Statics} {a : Access} {pf : List Addr}
    (h : generate_prefetch cp s a = some (pf, s')) : generate_prefetch cp (own cp s) a = some (pf, own cp s') := by
  by_cases hs : UsesStride cp
  · rw [generate_prefetch_stride hs] at h ⊢
    obtain ⟨r, hr, he⟩ := Option.map_eq_some_iff.1 h
    cases he
    have : (own cp s).rpt = s.rpt := if_pos hs
    rw [this, hr]
    simp [own, hs, hs.not_openEnded]
  · by_cases ho : UsesOpenEnded cp
    · rw [generate_prefetch_openEnded ho] at h ⊢
      cases h
      have : (own cp s).open_ended = s.open_ended := if_pos ho
      rw [this]
      simp [own, ho, hs]
    · obtain ⟨pf', hpf⟩ := generate_prefetch_stateless hs ho a
      rw [hpf] at h ⊢
      cases h
      rfl

/-- The access of a cache leaves another cache's statics alone when they use different kinds. -/
theorem generate_prefetch_other {cp cp' : Params} {s s' : Statics} {a : Access} {pf : List Addr}
    (h : generate_prefetch cp' s a = some (pf, s')) (hs : ¬ (UsesStride cp ∧ UsesStride cp'))
    (ho : ¬ (UsesOpenEnded cp ∧ UsesOpenEnded cp')) : own cp s' = own cp s := by
  by_cases hs' : UsesStride cp'
  · rw [generate_prefetch_stride hs'] at h
    obtain ⟨r, -, he⟩ := Option.map_eq_some_iff.1 h
    cases he
    have : ¬ UsesStride cp := fun hc => hs ⟨hc, hs'⟩
    simp [own, this]
  · by_cases ho' : UsesOpenEnded cp'
    · rw [generate_prefetch_openEnded ho'] at h
      cases h
      have : ¬ UsesOpenEnded cp := fun hc => ho ⟨hc, ho'⟩
      simp [own, this]
    · obtain ⟨pf', hpf⟩ := generate_prefetch_stateless hs' ho' a
      rw [hpf] at h
      cases h
      rfl

/-! ## Shared tables -/

/-- Two accesses of one instruction, a quarter of the address space apart. -/
def low : Access := { addr := 0x40000000, pc := 8, resident := fun _ => false }
def high : Access := { low with addr := 0x80000000 }

/-- The block of the next address at their distance is another one, for all block sizes. -/
theorem CACHE_TAGSET_ne (cp : Params) :
    CACHE_TAGSET cp (high.addr + (high.addr - low.addr)) ≠ CACHE_TAGSET cp high.addr := by
  obtain ⟨k, t, hge, hle⟩ := cp
  simp only [CACHE_TAGSET, Params.tagset_mask, Params.blk_mask, Params.bsize]
  interval_cases k <;> decide

/-- The entry of `low` and `high` is in every table. -/
theorem rpt_index_low {cp : Params} (h : UsesStride cp) : (low.pc >>> zero_bits).toNat % cp.prefetch_type = 1 := by
  have hlow : (low.pc >>> zero_bits).toNat = 1 := by decide
  have h1 : 1 < cp.prefetch_type := Nat.lt_of_succ_lt h
  rw [hlow, Nat.mod_eq_of_lt h1]

/-- The stride prefetcher on an entry that its update leaves predicting. -/
theorem stride_prefetcher_eq {cp : Params} {rpt : List RptEntry} {a : Access} {i : Nat} {entry entry' : RptEntry}
    (hi : (a.pc >>> zero_bits).toNat % cp.prefetch_type = i) (he : rpt[i]? = some entry)
    (hu : update_entry entry a.addr a.pc = entry') (hs : entry'.state ≠ .NO_PREDICTION) :
    stride_prefetcher cp (some rpt) a = some ([CACHE_TAGSET cp (a.addr + entry'.stride)], rpt.set i entry') := by
  subst hi hu
  simp only [stride_prefetcher, Option.getD_some, he, if_pos hs]

theorem stride_prefetcher_none (cp : Params) (a : Access) :
    stride_prefetcher cp none a = stride_prefetcher cp (some (List.replicate cp.prefetch_type {})) a := rfl

/-- In a fresh table the entry has no stride yet. -/
theorem stride_prefetcher_fresh {cp : Params} (h : UsesStride cp) {a : Access} (ha : a.pc = low.pc) :
    stride_prefetcher cp none a = some ([CACHE_TAGSET cp a.addr],
      (List.replicate cp.prefetch_type {}).set 1 { tag := low.pc, prev_addr := a.addr }) := by
  have hi : (a.pc >>> zero_bits).toNat % cp.prefetch_type = 1 := by rw [ha, rpt_index_low h]
  have he : (List.replicate cp.prefetch_type ({} : RptEntry))[1]? = some ({} : RptEntry) :=
    List.getElem?_replicate_of_lt (Nat.lt_of_succ_lt h)
  have hu : update_entry {} a.addr a.pc = { tag := low.pc, prev_addr := a.addr } := by rw [ha]; rfl
  have hs : PredState.INIT ≠ .NO_PREDICTION := by decide
  have hz : a.addr + 0 = a.addr := BitVec.add_zero a.addr
  rw [stride_prefetcher_none, stride_prefetcher_eq hi he hu hs, hz]

/-- After an access to `low`, of whatever cache, `high` finds a stride. -/
theorem stride_prefetcher_high {cp : Params} (h : UsesStride cp) {n : Nat} (hn : 1 < n) :
    ∃ rpt, stride_prefetcher cp (some ((List.replicate n {}).set 1 { tag := low.pc, prev_addr := low.addr })) high =
      some ([CACHE_TAGSET cp (high.addr + (high.addr - low.addr))], rpt) := by
  have he : ((List.replicate n ({} : RptEntry)).set 1 { tag := low.pc, prev_addr := low.addr })[1]? =
      some { tag := low.pc, prev_addr := low.addr } := List.getElem?_set_self (by simpa using hn)
  have hpc : high.pc = low.pc := rfl
  have hne : ¬ high.addr - low.addr = 0#32 := by decide
  have hu : update_entry { tag := low.pc, prev_addr := low.addr } high.addr high.pc =
      { tag := low.pc, prev_addr := high.addr, stride := high.addr - low.addr, state := .TRANSIENT } := by
    simp only [update_entry, hpc, ne_eq, not_true_eq_false, if_false, BitVec.ofNat_eq_ofNat, hne]
  have hi : (high.pc >>> zero_bits).toNat % cp.prefetch_type = 1 := rpt_index_low h
  have hs : PredState.TRANSIENT ≠ .NO_PREDICTION := by decide
  rw [stride_prefetcher_eq hi he hu hs]
  exact ⟨_, rfl⟩

theorem not_isolated_stride {cfg : C → Params} {c c' : C} (hc : UsesStride (cfg c)) (hc' : UsesStride (cfg c'))
    (h : c' ≠ c) : ¬ PrefetchersIsolated cfg := by
  obtain ⟨rpt, hrpt⟩ := stride_prefetcher_high hc (Nat.lt_of_succ_lt hc')
  have h₁ := (generate_prefetch_stride hc {} high).trans (congrArg _ (stride_prefetcher_fresh hc rfl))
  have h₂ := (generate_prefetch_stride hc' {} low).trans (congrArg _ (stride_prefetcher_fresh hc' rfl))
  have h₃ := (generate_prefetch_stride hc { rpt := some _ } high).trans (congrArg _ hrpt)
  refine fun hi => not_isolated h h₁ h₂ h₃ (fun he => ?_) (hi c)
  exact CACHE_TAGSET_ne _ (List.cons.inj he).1.symm

/-- The first access of a fresh history finds nothing to fetch. -/
theorem open_ended_prefetcher_fresh (cp : Params) : (open_ended_prefetcher cp none low).1 = [] := by
  rfl

/-- A steady entry alone decides what the open-ended prefetcher fetches. -/
theorem open_ended_prefetcher_steady {cp : Params} {t : OpenTables} {a : Access} {entry : RptEntry}
    (hu : update_entry (t.rpt_open (Fin.ofNat _ (a.pc >>> zero_bits).toNat)) a.addr a.pc = entry)
    (hs : entry.state = .STEADY) :
    (open_ended_prefetcher cp (some t) a).1 = [CACHE_TAGSET cp (a.addr + entry.stride)] := by
  subst hu
  simp only [open_ended_prefetcher, Option.getD_some, OpenTables.record, if_pos hs]

/-- The second access of one instruction to one address has a steady stride, of any cache. -/
theorem open_ended_prefetcher_again (cp cp' : Params) :
    (open_ended_prefetcher cp (some (open_ended_prefetcher cp' none low).2) low).1 = [CACHE_TAGSET cp low.addr] := by
  have he : (open_ended_prefetcher cp' none low).2.rpt_open (Fin.ofNat _ (low.pc >>> zero_bits).toNat) =
      { tag := low.pc, prev_addr := low.addr } := rfl
  have hu : update_entry { tag := low.pc, prev_addr := low.addr } low.addr low.pc =
      { tag := low.pc, prev_addr := low.addr, state := .STEADY } := rfl
  rw [open_ended_prefetcher_steady ((congrArg (update_entry · low.addr low.pc) he).trans hu) rfl]
  exact congrArg (fun x => [CACHE_TAGSET cp x]) (BitVec.add_zero low.addr)

theorem not_isolated_openEnded {cfg : C → Params} {c c' : C} (hc : UsesOpenEnded (cfg c))
    (hc' : UsesOpenEnded (cfg c')) (h : c' ≠ c) : ¬ PrefetchersIsolated cfg := by
  refine fun hi => not_isolated h (generate_prefetch_openEnded hc {} low) (generate_prefetch_openEnded hc' {} low)
    (generate_prefetch_openEnded hc _ low) (fun he => ?_) (hi c)
  rw [open_ended_prefetcher_fresh, open_ended_prefetcher_again] at he
  cases he

/-! ## Isolation -/

/-- The caches are isolated from each other exactly when at most one has the stride
prefetcher and at most one the open-ended one. -/
theorem isolated_iff (cfg : C → Params) :
    PrefetchersIsolated cfg ↔
      (∀ c c', UsesStride (cfg c) → UsesStride (cfg c') → c = c') ∧
      (∀ c c', UsesOpenEnded (cfg c) → UsesOpenEnded (cfg c') → c = c') := by
  refine ⟨fun h => ⟨fun c c' hc hc' => ?_, fun c c' hc hc' => ?_⟩, fun ⟨hs, ho⟩ c => ?_⟩
  · by_contra hne
    exact not_isolated_stride hc hc' (Ne.symm hne) h
  · by_contra hne
    exact not_isolated_openEnded hc hc' (Ne.symm hne) h
  · refine isolated_of_view (generate_prefetch (cfg c)) (own (cfg c)) (fun _ _ _ _ => generate_prefetch_own) ?_
    intro c' s a pf s' hne h
    exact generate_prefetch_other h (fun ⟨h₁, h₂⟩ => hne (hs c c' h₁ h₂).symm)
      (fun ⟨h₁, h₂⟩ => hne (ho c c' h₁ h₂).symm)

inductive L1
  | il1 | dl1
  deriving DecidableEq

/-- Blocks of 32 bytes are within the bounds. -/
theorem bsize_ge_32 : 3 ≤ 5 := by decide
theorem bsize_le_32 : 5 ≤ 30 := by decide

/-- Both level 1 caches have 32-byte blocks and 16 entries. -/
def il1dl1 (_ : L1) : Params where
  set_shift := 5
  prefetch_type := 16
  bsize_ge := bsize_ge_32
  bsize_le := bsize_le_32

/-- The instruction at `0x400140` is fetched. -/
def fetch : Access := { addr := 0x400140, pc := 0x400140, resident := fun _ => false }

/-- It loads from `0x10000000`. -/
def load : Access := { addr := 0x10000000, pc := 0x400140, resident := fun _ => false }

/-- With its fetch in the table the load has a stride. -/
theorem not_isolated_il1dl1 : ¬ PrefetchersIsolated il1dl1 := by
  intro hi
  have h₁ : ∃ s, generate_prefetch (il1dl1 .dl1) {} load = some ([0x10000000#32], s) := ⟨_, rfl⟩
  have h₂ : ∃ s, generate_prefetch (il1dl1 .il1) {} fetch = some ([0x400140#32], s) ∧
      ∃ s', generate_prefetch (il1dl1 .dl1) s load = some ([0x1FBFFEC0#32], s') := ⟨_, rfl, _, rfl⟩
  obtain ⟨s₁, h₁⟩ := h₁
  obtain ⟨s₂, h₂, s₃, h₃⟩ := h₂
  exact not_isolated (by decide : L1.il1 ≠ L1.dl1) h₁ h₂ h₃ (by decide) (hi .dl1)

end Cache
