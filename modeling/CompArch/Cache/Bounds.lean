import CompArch.Cache.Isolation
/-!
# The size of the reference prediction table

The first cache with the stride prefetcher that is accessed allocates the table,
with its own number of entries, and every cache reduces its index modulo its own
number. That is in bounds in every order of accesses exactly when no cache has
fewer entries than another, unless no program counter reaches that far.
-/

namespace Cache

open Shared Lts

variable {C : Type*}

/-- `rpt_index` in `stride_prefetcher`. -/
def rpt_index (cp : Params) (pc : Addr) : Nat := (pc >>> zero_bits).toNat % cp.prefetch_type

/-- The entries of the table that an access of `cp` uses: without one it allocates its own. -/
def rptEntries (cp : Params) (s : Statics) : Nat := (s.rpt.getD (List.replicate cp.prefetch_type {})).length

/-- Whatever the caches did before, the next access to a table is within it. -/
def RptInBounds (cfg : C → Params) : Prop :=
  ∀ ⦃log s⦄, Run (Shared.Step fun c => generate_prefetch (cfg c)) {} log s →
    ∀ c pc, UsesStride (cfg c) → rpt_index (cfg c) pc < rptEntries (cfg c) s

/-- An access is refused exactly when its index is behind the end of the table. -/
theorem generate_prefetch_eq_none {cp : Params} (h : UsesStride cp) (s : Statics) (a : Access) :
    generate_prefetch cp s a = none ↔ rptEntries cp s ≤ rpt_index cp a.pc := by
  rw [generate_prefetch_stride h, Option.map_eq_none_iff, stride_prefetcher]
  dsimp only
  split
  case h_1 hn => exact iff_of_true rfl (List.getElem?_eq_none_iff.1 hn)
  case h_2 entry hs => exact iff_of_false (Option.some_ne_none _) (Nat.not_le.2 (List.getElem?_eq_some_iff.1 hs).1)

theorem rpt_index_lt_type {cp : Params} (h : UsesStride cp) (pc : Addr) : rpt_index cp pc < cp.prefetch_type :=
  Nat.mod_lt _ (Nat.lt_of_lt_of_le (by decide) h)

/-- A program counter has 29 bits above the lowest three. -/
theorem rpt_index_lt (cp : Params) (pc : Addr) : rpt_index cp pc < 2 ^ 29 := by
  refine Nat.lt_of_le_of_lt (Nat.mod_le ..) ?_
  have hpc := pc.isLt
  rw [BitVec.toNat_ushiftRight, Nat.shiftRight_eq_div_pow, zero_bits]
  omega

/-! ## Who allocated the table -/

/-- The table is as long as one of the caches with the stride prefetcher made it. -/
def Allocated (cfg : C → Params) (s : Statics) : Prop :=
  ∀ rpt, s.rpt = some rpt → ∃ c, UsesStride (cfg c) ∧ rpt.length = (cfg c).prefetch_type

theorem stride_prefetcher_length {cp : Params} {rpt : Option (List RptEntry)} {a : Access}
    {r : List Addr × List RptEntry} (h : stride_prefetcher cp rpt a = some r) :
    r.2.length = (rpt.getD (List.replicate cp.prefetch_type {})).length := by
  unfold stride_prefetcher at h
  dsimp only at h
  split at h
  case h_1 => cases h
  case h_2 =>
    cases h
    exact List.length_set

/-- An access allocates the table or leaves its length alone. -/
theorem Allocated.step {cfg : C → Params} {s s' : Statics} {o : List (C × (Access × List Addr))} (h : Allocated cfg s)
    (hs : Shared.Step (fun c => generate_prefetch (cfg c)) s o s') : Allocated cfg s' := by
  obtain @⟨c, a, pf, _, hask⟩ := hs
  by_cases hc : UsesStride (cfg c)
  · rw [generate_prefetch_stride hc] at hask
    obtain ⟨r, hr, he⟩ := Option.map_eq_some_iff.1 hask
    cases he
    intro rpt hrpt
    obtain rfl : r.2 = rpt := Option.some.inj hrpt
    rw [stride_prefetcher_length hr]
    cases ht : s.rpt with
    | none => exact ⟨c, hc, List.length_replicate⟩
    | some rpt => exact h rpt ht
  · have hown : s'.rpt = s.rpt := by
      by_cases ho : UsesOpenEnded (cfg c)
      · rw [generate_prefetch_openEnded ho] at hask
        cases hask
        rfl
      · obtain ⟨pf', hpf⟩ := generate_prefetch_stateless hc ho a
        rw [hpf] at hask
        cases hask
        rfl
    intro rpt hrpt
    exact h rpt (hown.symm.trans hrpt)

theorem Allocated.run {cfg : C → Params} {s : Statics} {log : List (C × (Access × List Addr))}
    (h : Run (Shared.Step fun c => generate_prefetch (cfg c)) {} log s) : Allocated cfg s := by
  induction h with
  | start => exact fun rpt hrpt => by cases hrpt
  | step _ hs ih => exact ih.step hs

/-! ## Where the indices are in bounds -/

/-- In every order of accesses the index is in bounds exactly when no cache with the
stride prefetcher has fewer entries than another, or no index is that large. -/
theorem rptInBounds_iff (cfg : C → Params) :
    RptInBounds cfg ↔ ∀ c c', UsesStride (cfg c) → UsesStride (cfg c') →
      (cfg c').prefetch_type ≤ (cfg c).prefetch_type ∨ 2 ^ 29 ≤ (cfg c).prefetch_type := by
  constructor
  · intro h c c' hc hc'
    by_contra hlt
    rw [not_or, Nat.not_le, Nat.not_le] at hlt
    -- `c` allocates the table, and `c'` computes the first index behind its end
    have hask := (generate_prefetch_stride hc {} low).trans (congrArg _ (stride_prefetcher_fresh hc rfl))
    have hidx := h (.step .start (.ask c hask)) c' (BitVec.ofNat 32 (8 * (cfg c).prefetch_type)) hc'
    have hsize : rptEntries (cfg c')
        { rpt := some ((List.replicate (cfg c).prefetch_type {}).set 1 { tag := low.pc, prev_addr := low.addr }) } =
        (cfg c).prefetch_type := by
      simp [rptEntries]
    have hpc : rpt_index (cfg c') (BitVec.ofNat 32 (8 * (cfg c).prefetch_type)) = (cfg c).prefetch_type := by
      rw [rpt_index, BitVec.toNat_ushiftRight, BitVec.toNat_ofNat, Nat.shiftRight_eq_div_pow, zero_bits,
        Nat.mod_eq_of_lt (a := 8 * _) (by omega), Nat.mul_div_cancel_left _ (by decide), Nat.mod_eq_of_lt hlt.1]
    exact absurd hidx (by rw [hpc, hsize]; exact Nat.lt_irrefl _)
  · intro h log s hrun c pc hc
    unfold rptEntries
    cases hs : s.rpt with
    | none =>
      rw [Option.getD_none, List.length_replicate]
      exact rpt_index_lt_type hc pc
    | some rpt =>
      obtain ⟨c₀, hc₀, hlen⟩ := Allocated.run hrun rpt hs
      rw [Option.getD_some, hlen]
      rcases h c₀ c hc₀ hc with hle | hbig
      · exact Nat.lt_of_lt_of_le (rpt_index_lt_type hc pc) hle
      · exact Nat.lt_of_lt_of_le (rpt_index_lt _ pc) hbig

/-- The instruction cache has three entries, the data cache sixteen. -/
def threeSixteen (c : L1) : Params where
  set_shift := 5
  prefetch_type := if c = .il1 then 3 else 16
  bsize_ge := bsize_ge_32
  bsize_le := bsize_le_32

/-- The fetch of the load allocates three entries, and the load uses entry 8. -/
theorem not_rptInBounds_threeSixteen : ¬ RptInBounds threeSixteen := by
  intro h
  obtain ⟨s, hs, hlen⟩ : ∃ s, generate_prefetch (threeSixteen .il1) {} fetch = some ([0x400140#32], s) ∧
      rptEntries (threeSixteen .dl1) s = 3 := ⟨_, rfl, rfl⟩
  have hidx := h (Run.start.step (.ask .il1 hs)) .dl1 load.pc (by decide)
  rw [hlen] at hidx
  exact absurd hidx (by decide)

end Cache
