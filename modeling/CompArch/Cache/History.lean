import CompArch.Cache.Events
import CompArch.Cache.Isolation
import CompArch.Past
/-!
# The global history buffer

The buffer of the open-ended prefetcher fills slot by slot, and from then on every
address moves the others down by one. Its counter stops at the last slot when that
is still empty, so the first full buffer is not moved.
-/

namespace Cache

open Function Lts Outcome Past

/-- The last 16 of the addresses, oldest first. -/
def window (addrs : List Addr) : List Addr := addrs.drop (addrs.length - GHB_SIZE)

/-- The buffer holds the last addresses, and what is behind them is as allocated. -/
structure OpenTables.Holds (t : OpenTables) (addrs : List Addr) : Prop where
  count : t.count.val = min addrs.length 15
  ghb : ∀ i : Fin GHB_SIZE, t.ghb i = (window addrs).getD i 0

/-! ## Filling and shifting -/

theorem getD_window (addrs : List Addr) (i : Nat) :
    (window addrs).getD i 0 = addrs.getD (addrs.length - GHB_SIZE + i) 0 := by
  rw [window, List.getD_eq_getElem?_getD, List.getD_eq_getElem?_getD, List.getElem?_drop]

theorem holds_empty : ({} : OpenTables).Holds [] := ⟨rfl, fun _ => rfl⟩

theorem val_succ {i : Fin GHB_SIZE} (h : i < 15) : (i + 1).val = i.val + 1 := Fin.val_add_one_of_lt h

theorem OpenTables.Holds.slot {t : OpenTables} {addrs : List Addr} (h : t.Holds addrs) (i : Fin GHB_SIZE) :
    t.ghb i = addrs.getD (addrs.length - GHB_SIZE + i) 0 := (h.ghb i).trans (getD_window addrs i)

/-- The last slot is taken once 16 addresses are there. -/
theorem OpenTables.Holds.last_iff {t : OpenTables} {addrs : List Addr} (h : t.Holds addrs)
    (hne : ∀ a ∈ addrs, a ≠ 0) : t.ghb 15 ≠ 0 ↔ 16 ≤ addrs.length := by
  rw [h.slot 15]
  constructor
  · intro hlast
    by_contra hlen
    apply hlast
    have hout : addrs.length ≤ addrs.length - GHB_SIZE + (15 : Fin GHB_SIZE).val := by
      change addrs.length ≤ addrs.length - 16 + 15
      omega
    exact List.getD_eq_default _ _ hout
  · intro hlen
    have hlt : addrs.length - GHB_SIZE + (15 : Fin GHB_SIZE).val < addrs.length := by
      change addrs.length - 16 + 15 < addrs.length
      omega
    rw [List.getD_eq_getElem _ _ hlt]
    exact hne _ (List.getElem_mem hlt)

section Record
variable {t : OpenTables} {addrs : List Addr}

/-- The buffer is shifted from the 17th address on. -/
theorem OpenTables.Holds.shifts_iff (h : t.Holds addrs) (hne : ∀ a ∈ addrs, a ≠ 0) :
    t.count = 15 ∧ t.ghb t.count ≠ 0 ↔ 16 ≤ addrs.length := by
  constructor
  · rintro ⟨hc, ht⟩
    rw [hc] at ht
    exact (h.last_iff hne).1 ht
  · intro hfull
    have hc : t.count = 15 := Fin.ext (by rw [h.count]; exact Nat.min_eq_right (by omega))
    rw [hc]
    exact ⟨rfl, (h.last_iff hne).2 hfull⟩

theorem OpenTables.Holds.record_count (h : t.Holds addrs) (addr : Addr) :
    (t.record addr).count.val = min (addrs.length + 1) 15 := by
  have hcount := h.count
  change (if t.count < 15 then t.count + 1 else t.count).val = _
  by_cases hc : t.count < 15
  · have hc' : t.count.val < 15 := hc
    rw [if_pos hc, val_succ hc]
    omega
  · have hc' : ¬ t.count.val < 15 := hc
    rw [if_neg hc]
    omega

/-- The address goes into the first slot behind the others, or into the last one. -/
theorem OpenTables.Holds.record_ghb (h : t.Holds addrs) (hne : ∀ a ∈ addrs, a ≠ 0) (addr : Addr) (i : Fin GHB_SIZE) :
    (t.record addr).ghb i = if i.val = min addrs.length 15 then addr
      else if 16 ≤ addrs.length ∧ i < 15 then t.ghb (i + 1) else t.ghb i := by
  have hpos : i = t.count ↔ i.val = min addrs.length 15 := by rw [Fin.ext_iff, h.count]
  change update (if t.count = 15 ∧ t.ghb t.count ≠ 0 then fun i => if i < 15 then t.ghb (i + 1) else t.ghb i
    else t.ghb) t.count addr i = _
  simp only [update_apply, hpos, h.shifts_iff hne]
  by_cases hfull : 16 ≤ addrs.length
  · simp only [hfull, if_true, true_and]
  · simp only [hfull, if_false, false_and]

/-- An address more, before the buffer is full and from then on. -/
theorem OpenTables.Holds.record (h : t.Holds addrs) (hne : ∀ a ∈ addrs, a ≠ 0) (addr : Addr) :
    (t.record addr).Holds (addrs ++ [addr]) := by
  have hlen : (addrs ++ [addr]).length = addrs.length + 1 := List.length_append
  refine ⟨by rw [hlen, h.record_count], fun i => ?_⟩
  have hi : i.val < 16 := i.isLt
  rw [getD_window, getD_concat, hlen, h.record_ghb hne]
  by_cases hfull : 16 ≤ addrs.length
  · -- every address moves down, and the new one takes the last slot
    obtain ⟨k, hk⟩ : ∃ k, addrs.length = 16 + k := Nat.exists_eq_add_of_le hfull
    have hoff : addrs.length + 1 - GHB_SIZE = k + 1 := by
      change addrs.length + 1 - 16 = k + 1
      omega
    have hmin : min addrs.length 15 = 15 := by omega
    rw [hoff, hmin]
    by_cases hlast : i.val = 15
    · rw [if_pos hlast, if_pos (by omega)]
    · have hlt : i < 15 := by
        change i.val < 15
        omega
      have hslot : addrs.length - GHB_SIZE + (i + 1).val = k + 1 + i.val := by
        rw [val_succ hlt]
        change addrs.length - 16 + (i.val + 1) = k + 1 + i.val
        omega
      rw [if_neg hlast, if_pos ⟨hfull, hlt⟩, if_neg (by omega), h.slot, hslot]
  · -- the buffer fills
    have hmin : min addrs.length 15 = addrs.length := by omega
    have hoff : addrs.length - GHB_SIZE = 0 ∧ addrs.length + 1 - GHB_SIZE = 0 := by
      change addrs.length - 16 = 0 ∧ addrs.length + 1 - 16 = 0
      omega
    rw [hmin, hoff.2, Nat.zero_add]
    by_cases hlast : i.val = addrs.length
    · rw [if_pos hlast, if_pos hlast]
    · rw [if_neg hlast, if_neg hlast, if_neg fun hs => hfull hs.1, h.slot, hoff.1, Nat.zero_add]

end Record

/-! ## The blocks that followed -/

/-- The adjacent pairs of a list. -/
def pairs (l : List Addr) : List (Addr × Addr) := l.zip l.tail

theorem pairs_cons_cons (a b : Addr) (l : List Addr) : pairs (a :: b :: l) = (a, b) :: pairs (b :: l) := rfl

/-- What the loop of the prefetcher takes from the slots `i` and `i + 1` of a buffer that holds `l`. -/
def follower (cp : Params) (addr : Addr) (l : List Addr) (i : Nat) : Option Addr :=
  if l.getD i 0 = addr ∧ l.getD (i + 1) 0 ≠ 0 then some (CACHE_TAGSET cp (l.getD (i + 1) 0)) else none

theorem follower_last (cp : Params) (addr : Addr) {l : List Addr} {i : Nat} (h : l.length ≤ i + 1) :
    follower cp addr l i = none := by
  have hnext : l.getD (i + 1) 0 = 0 := List.getD_eq_default _ _ h
  rw [follower, if_neg fun hf => hf.2 hnext]

/-- The slots in order are the pairs in order. -/
theorem followers_range (cp : Params) (addr : Addr) {l : List Addr} (hne : ∀ a ∈ l, a ≠ 0) {k : Nat}
    (hk : l.length ≤ k + 1) : (List.range k).filterMap (follower cp addr l) =
      ((pairs l).filter fun p => p.1 = addr).map fun p => CACHE_TAGSET cp p.2 := by
  induction l generalizing k with
  | nil => exact List.filterMap_eq_nil_iff.2 fun i _ => follower_last cp addr (Nat.zero_le _)
  | cons a l ih =>
    cases l with
    | nil => exact List.filterMap_eq_nil_iff.2 fun i _ => follower_last cp addr (Nat.le_add_left 1 i)
    | cons b l =>
      obtain ⟨k, rfl⟩ : ∃ n, k = n + 1 := Nat.exists_eq_add_of_le' (by simp at hk; omega)
      have hshift : follower cp addr (a :: b :: l) ∘ Nat.succ = follower cp addr (b :: l) := rfl
      have hb : b ≠ 0 := hne b (by simp)
      have hfirst : follower cp addr (a :: b :: l) 0 = if a = addr then some (CACHE_TAGSET cp b) else none := by
        change (if a = addr ∧ b ≠ 0 then some (CACHE_TAGSET cp b) else none) = _
        simp only [and_iff_left hb]
      rw [List.range_succ_eq_map, List.filterMap_cons, List.filterMap_map, hshift, hfirst, pairs_cons_cons,
        ih (fun x hx => hne x (List.mem_cons_of_mem a hx)) (Nat.le_of_succ_le_succ hk)]
      by_cases ha : a = addr
      · simp [ha]
      · simp [ha]

theorem length_window (addrs : List Addr) : (window addrs).length = min addrs.length 16 := by
  rw [window, List.length_drop]
  change addrs.length - (addrs.length - 16) = _
  omega

theorem window_ne {addrs : List Addr} (hne : ∀ a ∈ addrs, a ≠ 0) : ∀ a ∈ window addrs, a ≠ 0 :=
  fun a ha => hne a (List.mem_of_mem_drop ha)

/-- The loop sees no slot behind the last address, and does not reach the turn of the buffer. -/
theorem OpenTables.Holds.follower {t : OpenTables} {addrs : List Addr} (h : t.Holds addrs) (cp : Params) (addr : Addr)
    (i : Fin GHB_SIZE) : (if i < t.count then if t.ghb i = addr ∧ t.ghb (i + 1) ≠ 0 then
      some (CACHE_TAGSET cp (t.ghb (i + 1))) else none else none) = Cache.follower cp addr (window addrs) i := by
  have hcount := h.count
  have hlen := length_window addrs
  by_cases hi : i < t.count
  · have hlt : i.val < t.count.val := hi
    have hlast : i < 15 := by
      change i.val < 15
      omega
    rw [if_pos hi, h.ghb, h.ghb, val_succ hlast]
    rfl
  · have hlt : ¬ i.val < t.count.val := hi
    rw [if_neg hi, follower_last cp addr (by omega)]

theorem OpenTables.Holds.followers {t : OpenTables} {addrs : List Addr} (h : t.Holds addrs)
    (hne : ∀ a ∈ addrs, a ≠ 0) (cp : Params) (addr : Addr) : t.followers cp addr =
      ((pairs (window addrs)).filter fun p => p.1 = addr).map fun p => CACHE_TAGSET cp p.2 := by
  have hlen : (window addrs).length ≤ GHB_SIZE + 1 := by
    rw [length_window]
    change min addrs.length 16 ≤ 16 + 1
    omega
  rw [← followers_range cp addr (window_ne hne) hlen, ← List.map_coe_finRange_eq_range, List.filterMap_map]
  unfold OpenTables.followers
  rw [List.filterMap_filter]
  congr 1
  funext i
  rw [Function.comp_apply, ← h.follower cp addr i]
  simp only [decide_eq_true_eq]

/-! ## What is fetched -/

variable {g : Geometry} {σ : Type} {env : Env σ}

theorem Store.Ok.resident_block {st : Store g} (h : st.Ok) (addr : Addr) :
    st.resident (CACHE_TAGSET g.toParams addr) = st.resident addr := by
  rw [Bool.eq_iff_iff, h.resident_eq, h.resident_eq]
  have hidem := CACHE_TAGSET_idem g.toParams addr
  exact ⟨Store.Resident.congr hidem, Store.Resident.congr hidem.symm⟩

/-- The first follower that is not there. -/
theorem Store.Ok.find_follower {st : Store g} (h : st.Ok) {t : OpenTables} {addrs : List Addr} (ht : t.Holds addrs)
    (hne : ∀ a ∈ addrs, a ≠ 0) (addr : Addr) :
    (t.followers g.toParams addr).find? (fun a => st.resident a = false) =
      ((pairs (window addrs)).find? fun p => p.1 = addr ∧ st.resident p.2 = false).map fun p =>
        CACHE_TAGSET g.toParams p.2 := by
  rw [ht.followers hne, List.find?_map, List.find?_filter]
  congr 2
  funext p
  rw [Function.comp_apply, h.resident_block]
  simp only [decide_eq_true_eq]

/-- Of addresses that are probed until a miss the last one is accessed, and no other. -/
theorem Store.Ok.fetch_probeUntilMiss {st : Store g} (h : st.Ok) (w : World σ) (l : List Addr) :
    st.fetch env w (probeUntilMiss st.resident l) =
      match l.find? fun a => st.resident a = false with
      | none => .ok (st, w)
      | some a => (st.prefetchAccess env .Read a g.bsize w).map fun r => (r.2.1, r.2.2) := by
  induction l with
  | nil => rfl
  | cons a l ih =>
    obtain ⟨r, hr, -⟩ := h.probe a
    have hres : st.resident a = r := by
      unfold Store.resident
      rw [hr]
    rw [probeUntilMiss, hres]
    cases r with
    | true =>
      rw [if_pos rfl, Store.fetch, hr, List.find?_cons_of_neg (by simp [hres])]
      exact ih
    | false =>
      rw [if_neg Bool.false_ne_true, Store.fetch, hr, List.find?_cons_of_pos (by simp [hres])]
      change (st.prefetchAccess env .Read a g.bsize w >>= fun r => .ok (r.2.1, r.2.2)) =
        (st.prefetchAccess env .Read a g.bsize w).map fun r => (r.2.1, r.2.2)
      cases st.prefetchAccess env .Read a g.bsize w <;> rfl

/-! ## One call -/

/-- The entry of the instruction at `pc` in the open-ended prefetcher's table. -/
def OpenTables.entryOf (t : OpenTables) (pc : Addr) : RptEntry :=
  t.rpt_open ⟨(pc >>> zero_bits).toNat % RPT_SIZE, Nat.mod_lt _ (by decide)⟩

section Prefetcher
variable (cp : Params) (tables : Option OpenTables) (a : Access)

/-- Its history is what was recorded. -/
theorem open_ended_prefetcher_table : (open_ended_prefetcher cp tables a).2 =
    { (tables.getD {}).record a.addr with
      rpt_open := update (tables.getD {}).rpt_open (Fin.ofNat _ (a.pc >>> zero_bits).toNat)
        (update_entry ((tables.getD {}).entryOf a.pc) a.addr a.pc) } := by
  unfold open_ended_prefetcher
  dsimp only
  split <;> rfl

theorem open_ended_prefetcher_entry : (open_ended_prefetcher cp tables a).2.entryOf a.pc =
    update_entry ((tables.getD {}).entryOf a.pc) a.addr a.pc := by
  rw [open_ended_prefetcher_table]
  exact update_self ..

theorem open_ended_prefetcher_unsteady (h : ((open_ended_prefetcher cp tables a).2.entryOf a.pc).state ≠ .STEADY) :
    (open_ended_prefetcher cp tables a).1 =
      probeUntilMiss a.resident ((open_ended_prefetcher cp tables a).2.followers cp a.addr) := by
  rw [open_ended_prefetcher_entry] at h
  rw [open_ended_prefetcher_table]
  unfold open_ended_prefetcher
  exact congrArg Prod.fst (if_neg h)

theorem OpenTables.Holds.prefetcher {addrs : List Addr} (h : (tables.getD {}).Holds addrs)
    (hne : ∀ a ∈ addrs, a ≠ 0) : (open_ended_prefetcher cp tables a).2.Holds (addrs ++ [a.addr]) := by
  rw [open_ended_prefetcher_table]
  have hrecord := h.record hne a.addr
  exact ⟨hrecord.count, hrecord.ghb⟩

end Prefetcher

/-! ## Runs -/

/-- The miss handler leaves the history alone: no cache below uses it. -/
def Env.KeepsHistory (env : Env σ) : Prop :=
  ∀ cmd baddr prefetch w w', env.blk_access_fn cmd baddr prefetch w = some w' →
    w'.statics.open_ended = w.statics.open_ended

/-- The history stays the same but for the prefetcher's own update. -/
def SameHistory (w w' : World σ) : Prop := w'.statics.open_ended = w.statics.open_ended

theorem Env.KeepsHistory.keeps (h : env.KeepsHistory) (w : World σ) : env.Keeps (SameHistory w) where
  handler cmd baddr prefetch w₁ w₂ hw hc := (h cmd baddr prefetch w₁ w₂ hc).trans hw
  rest _ _ hw := hw

/-- The address of a call that is a demand access. -/
def Call.demanded : Call → List Addr
  | .access _ addr _ false _ => [addr]
  | _ => []

/-- A call that completes, or what happens elsewhere: no other cache uses the history. -/
inductive DrivenStep (env : Env σ) : Store g × World σ → List Addr → Store g × World σ → Prop
  | call (c : Call) {st st' : Store g} {w w' : World σ} : c.perform env st w = .ok (st', w') →
      DrivenStep env (st, w) c.demanded (st', w')
  | elsewhere (st : Store g) {w w' : World σ} : SameHistory w w' → DrivenStep env (st, w) [] (st, w')

/-- The state after the demand accesses `addrs`. -/
structure Remembers (addrs : List Addr) (s : Store g × World σ) : Prop where
  ok : s.1.Ok
  holds : (s.2.statics.open_ended.getD {}).Holds addrs

theorem Remembers.same {addrs : List Addr} {st st' : Store g} {w w' : World σ} (h : Remembers addrs (st, w))
    (hok : st'.Ok) (hw : SameHistory w w') : Remembers addrs (st', w') := by
  refine ⟨hok, ?_⟩
  rw [hw]
  exact h.holds

theorem Remembers.call (ho : UsesOpenEnded g.toParams) (hkeep : env.KeepsHistory) {addrs : List Addr}
    {st st' : Store g} {w w' : World σ} (h : Remembers addrs (st, w)) (hne : ∀ a ∈ addrs, a ≠ 0) (c : Call)
    (hc : c.perform env st w = .ok (st', w')) : Remembers (addrs ++ c.demanded) (st', w') := by
  cases c with
  | access cmd addr nbytes prefetch pc =>
    obtain ⟨⟨exit, st₁, w₁⟩, hacc, hc⟩ := bind_ok.1 hc
    cases hc
    unfold Store.cache_access at hacc
    cases prefetch with
    | true =>
      obtain ⟨⟨p, hu⟩, hw⟩ := (Store.prefetchAccess_ok h.ok (hkeep.keeps w) rfl).of_ok hacc
      change Remembers (addrs ++ []) (st', w')
      rw [List.append_nil]
      exact h.same hu.ok hw
    | false =>
      obtain ⟨p, st₂, w₂, pf, s, hd⟩ := (Store.demandAccess_ok h.ok hkeep.keeps fun _ => rfl).of_ok hacc
      have hg := hd.prefetch
      rw [generate_prefetch_openEnded ho, show w₂.statics.open_ended = w.statics.open_ended from hd.body] at hg
      cases hg
      refine ⟨hd.ok, ?_⟩
      rw [show w'.statics.open_ended = some _ from hd.after]
      exact h.holds.prefetcher _ _ { addr, pc, resident := st₂.resident } hne
  | flush =>
    obtain ⟨hok, hw⟩ := (Store.cache_flush_ok h.ok (hkeep.keeps w) rfl).of_ok hc
    change Remembers (addrs ++ []) (st', w')
    rw [List.append_nil]
    exact h.same hok hw
  | flush_addr addr =>
    obtain ⟨hok, hw⟩ := (Store.cache_flush_addr_ok h.ok (hkeep.keeps w) rfl addr).of_ok hc
    change Remembers (addrs ++ []) (st', w')
    rw [List.append_nil]
    exact h.same hok hw

theorem Remembers.run (ho : UsesOpenEnded g.toParams) (hkeep : env.KeepsHistory) {w₀ : World σ}
    (h₀ : w₀.statics.open_ended = none) {addrs : List Addr} {s : Store g × World σ}
    (hrun : Run (DrivenStep env) (cache_create g, w₀) addrs s) (hne : ∀ a ∈ addrs, a ≠ 0) : Remembers addrs s := by
  induction hrun with
  | start =>
    refine ⟨Store.ok_create, ?_⟩
    rw [h₀]
    exact holds_empty
  | @step addrs s o s' _ hstep ih =>
    have h := ih fun a ha => hne a (List.mem_append_left o ha)
    cases hstep with
    | call c hc => exact h.call ho hkeep (fun a ha => hne a (List.mem_append_left _ ha)) c hc
    | elsewhere st hw =>
      rw [List.append_nil]
      exact h.same h.ok hw

/-! ## The last addresses -/

theorem OpenTables.Holds.take_eq {t : OpenTables} {addrs : List Addr} (h : t.Holds addrs) :
    (List.ofFn t.ghb).take (min addrs.length GHB_SIZE) = window addrs := by
  have hlen : (window addrs).length = min addrs.length GHB_SIZE := length_window addrs
  apply List.ext_getElem
  · rw [List.length_take, List.length_ofFn, hlen]
    omega
  · intro i h₁ h₂
    rw [List.getElem_take, List.getElem_ofFn, h.ghb, List.getD_eq_getElem _ _ h₂]

/-- The statics after a call of the prefetcher. -/
def World.remember (w : World σ) (t : OpenTables) : World σ :=
  { w with statics := { w.statics with open_ended := some t } }

/-- After the demand accesses `addrs`, the last of them to `addr`: the buffer is their window,
and the prefetcher's call makes one access, to the block that first followed `addr` in it and
is not there, or none. -/
structure LastAddresses (env : Env σ) (addrs : List Addr) (addr pc : Addr) (st : Store g) (w : World σ)
    (t : OpenTables) : Prop where
  ghb : (List.ofFn t.ghb).take (min addrs.length GHB_SIZE) = addrs.drop (addrs.length - GHB_SIZE)
  fetched : (t.entryOf pc).state ≠ .STEADY → st.prefetch env addr pc w =
    match (pairs (window addrs)).find? fun p => p.1 = addr ∧ st.resident p.2 = false with
    | none => .ok (st, w.remember t)
    | some (_, x) =>
      (st.prefetchAccess env .Read (CACHE_TAGSET g.toParams x) g.bsize (w.remember t)).map fun r => (r.2.1, r.2.2)

theorem last_addresses (ho : UsesOpenEnded g.toParams) (hkeep : env.KeepsHistory) {w₀ : World σ}
    (h₀ : w₀.statics.open_ended = none) {addrs : List Addr} {s : Store g × World σ}
    (hrun : Run (DrivenStep env) (cache_create g, w₀) addrs s) {cmd : Cmd} {addr nbytes : Addr} {exit : Exit}
    {blk : Option (g.SetIdx × g.Way)} {st : Store g} {w : World σ}
    (hacc : s.1.access env cmd addr nbytes false s.2 = .ok (exit, blk, st, w))
    (hclear : ∀ a ∈ addrs ++ [addr], CACHE_TAGSET g.toParams a ≠ 0) (pc : Addr) :
    LastAddresses env (addrs ++ [addr]) addr pc st w
      (open_ended_prefetcher g.toParams w.statics.open_ended { addr, pc, resident := st.resident }).2 := by
  have hne (a : Addr) (ha : a ∈ addrs ++ [addr]) : a ≠ 0 := by
    rintro rfl
    exact hclear 0 ha BitVec.zero_and
  have hmem := Remembers.run ho hkeep h₀ hrun fun a ha => hne a (List.mem_append_left _ ha)
  obtain ⟨haccessed, hw⟩ := (Store.access_ok hmem.ok (hkeep.keeps s.2) rfl).of_ok hacc
  have hok : st.Ok := haccessed.ok hmem.ok
  have hholds := hmem.holds
  rw [← show w.statics.open_ended = s.2.statics.open_ended from hw] at hholds
  have ht := hholds.prefetcher g.toParams w.statics.open_ended { addr, pc, resident := st.resident }
    fun a ha => hne a (List.mem_append_left _ ha)
  refine ⟨ht.take_eq, fun hstate => ?_⟩
  rw [Store.prefetch, generate_prefetch_openEnded ho]
  change st.fetch env (w.remember _) (open_ended_prefetcher g.toParams w.statics.open_ended _).1 = _
  rw [open_ended_prefetcher_unsteady _ _ _ hstate, hok.fetch_probeUntilMiss, hok.find_follower ht hne]
  cases (pairs (window (addrs ++ [addr]))).find? fun p => p.1 = addr ∧ st.resident p.2 = false <;> rfl

/-- Two sets of two blocks of 16 bytes, with the open-ended prefetcher. -/
def historic : Geometry where
  set_shift := 4
  prefetch_type := 2
  set_bits := 1
  way_bits := 1
  policy := .LRU

/-- The block that followed was flushed, and is fetched when its forerunner is accessed again. -/
theorem last_addresses_again : ∃ (st st' : Store historic) (w w' : World Unit) (t : OpenTables),
    LastAddresses idle [64, 128, 64] 64 24 st w t ∧ (List.ofFn t.ghb).take 3 = [64, 128, 64] ∧
      (t.entryOf 24).state ≠ .STEADY ∧ st.resident 128 = false ∧ st.prefetch idle 64 24 w = .ok (st', w') ∧
      st'.resident 128 = true ∧ st'.stats.prefetch_misses = st.stats.prefetch_misses + 1 := by
  obtain ⟨s₁, h₁⟩ : ∃ s, (Call.access .Read 64 4 false 8).perform idle (cache_create historic) { rest := () } = .ok s :=
    ⟨_, rfl⟩
  obtain ⟨s₂, h₂⟩ : ∃ s, (Call.access .Read 128 4 false 16).perform idle s₁.1 s₁.2 = .ok s := by
    cases h₁
    exact ⟨_, rfl⟩
  obtain ⟨s₃, h₃⟩ : ∃ s, (Call.flush_addr 128).perform idle s₂.1 s₂.2 = .ok s := by
    cases h₁
    cases h₂
    exact ⟨_, rfl⟩
  obtain ⟨exit, blk, st, w, hacc, hgone, hunsteady⟩ : ∃ exit blk st w,
      s₃.1.access idle .Read 64 4 false s₃.2 = .ok (exit, blk, st, w) ∧ st.resident 128 = false ∧
        ((open_ended_prefetcher historic.toParams w.statics.open_ended
          { addr := 64, pc := 24, resident := st.resident }).2.entryOf 24).state ≠ .STEADY := by
    cases h₁
    cases h₂
    cases h₃
    exact ⟨_, _, _, _, rfl, rfl, by decide⟩
  obtain ⟨st', w', hpre, hthere, hmisses⟩ : ∃ st' w', st.prefetch idle 64 24 w = .ok (st', w') ∧
      st'.resident 128 = true ∧ st'.stats.prefetch_misses = st.stats.prefetch_misses + 1 := by
    cases h₁
    cases h₂
    cases h₃
    cases hacc
    exact ⟨_, _, rfl, rfl, rfl⟩
  have hrun := ((Run.start.step (DrivenStep.call _ h₁)).step (.call _ h₂)).step (.call _ h₃)
  have hkeep : idle.KeepsHistory := by
    intro cmd baddr prefetch w w' hc
    cases hc
    rfl
  have h₀ : (World.mk {} () : World Unit).statics.open_ended = none := rfl
  have hclear : ∀ a ∈ [64, 128, 64], CACHE_TAGSET historic.toParams a ≠ 0 := by
    simp only [List.forall_mem_cons]
    exact ⟨by decide, by decide, by decide, nofun⟩
  have hlast := last_addresses (g := historic) rfl hkeep h₀ hrun hacc hclear 24
  exact ⟨st, st', w, w', _, hlast, hlast.ghb, hunsteady, hgone, hpre, hthere, hmisses⟩

end Cache
