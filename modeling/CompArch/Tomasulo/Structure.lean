import CompArch.Tomasulo.Padding
/-!
# What the pointers of the pipeline look like

At the end of every cycle, for every trace: the queue, the stations and units,
the tags and the map table fit together.
-/

namespace Tomasulo

open Pisa

namespace State

/-- The instruction has been fetched and has left the queue. -/
def Dispatched (trace : Trace) (s : State) (i : Nat) : Prop :=
  0 < i ∧ i ≤ s.fetch_index ∧ IS_TRAP (get_instr trace i).op = false ∧ ¬ s.instr_queue.Holds i

/-- The youngest dispatched instruction that writes `r`. -/
structure YoungestDispatched (trace : Trace) (s : State) (r : Reg) (i : Nat) : Prop where
  dispatched : s.Dispatched trace i
  writes : Writes trace i r
  last : ∀ y, i < y → s.Dispatched trace y → ¬ Writes trace y r

end State

structure Structural (trace : Trace) (s : State) : Prop where
  fits : s.instr_queue_size ≤ INSTR_QUEUE_SIZE
  queue : ∀ k, s.instr_queue k ≠ none ↔ k.val < s.instr_queue_size
  youngest_first : ∀ j k x y, j < k → s.instr_queue j = some x → s.instr_queue k = some y → y < x
  one_station : ∀ x c k c' k', s.reserv c k = some x → s.reserv c' k' = some x → c = c' ∧ k.val = k'.val
  one_unit : ∀ x c k c' k', s.fu c k = some x → s.fu c' k' = some x → c = c' ∧ k.val = k'.val
  unit : ∀ c x, s.InUnit c x ↔ s.InStation c x ∧ (s.stamps x).tom_execute_cycle ≠ 0
  unit_ready : ∀ c x, s.InUnit c x → ∀ k, s.Q x k = none
  tag : ∀ c x k y, s.InStation c x → s.Q x k = some y → y < x ∧ ((∃ c', s.InStation c' y) ∨ s.commonDataBus = some y)
  map : ∀ r : Reg, 0 < r.val → ∀ i, s.map_table r = some i ↔ s.YoungestDispatched trace r i ∧ ¬ s.Retired i

/-! ## From the invariants -/

section
variable {trace : Trace} {g : Dataflow} {cycle d : Nat} {s : State}

theorem Inv.dispatched_iff (hi : Inv g cycle d s.toPipeline) (hcode : g.toCode = trace.code) {i : Nat} :
    s.Dispatched trace i ↔ 0 < i ∧ i ≤ d ∧ IS_TRAP (get_instr trace i).op = false := by
  have hop : g.op i = (get_instr trace i).op := by rw [hcode]; rfl
  have hq : s.instr_queue.Holds i ↔ _ := hi.queue_holds (x := i)
  rw [hop] at hq
  have hle := hi.order
  unfold State.Dispatched
  rw [hq]
  constructor
  · rintro ⟨h0, hf, ht, hn⟩
    exact ⟨h0, Nat.not_lt.1 fun hd => hn ⟨hd, hf, ht⟩, ht⟩
  · rintro ⟨h0, hd, ht⟩
    exact ⟨h0, hd.trans hle, ht, fun h => absurd h.1 (Nat.not_lt.2 hd)⟩

/-- The youngest dispatched writer is the youngest writer up to `d`. -/
theorem Inv.youngestDispatched_iff (hi : Inv g cycle d s.toPipeline) (hcode : g.toCode = trace.code) {r : Reg}
    {i : Nat} : s.YoungestDispatched trace r i ↔ lastWriter trace r d = some i := by
  rw [lastWriter_eq_some]
  constructor
  · intro h
    obtain ⟨h0, hd, -⟩ := (hi.dispatched_iff hcode).1 h.dispatched
    refine ⟨h0, Nat.lt_succ_of_le hd, h.writes, fun y h1 h2 hw => h.last y h1 ?_ hw⟩
    exact (hi.dispatched_iff hcode).2 ⟨by omega, Nat.le_of_lt_succ h2, hw.1⟩
  · intro h
    refine ⟨(hi.dispatched_iff hcode).2 ⟨h.pos, Nat.le_of_lt_succ h.older, h.writes.1⟩, h.writes, fun y h1 hy => ?_⟩
    exact h.last y h1 (Nat.lt_succ_of_le ((hi.dispatched_iff hcode).1 hy).2.1)

/-- A producer that is still waited for is in a station or on the bus. -/
theorem Inv.in_flight (hi : Inv g cycle d s.toPipeline) {x y : Nat} (hx : x ≤ d) (hy : y ∈ g.producers x)
    (hr : ¬ s.Retired y) : (∃ c, s.InStation c y) ∨ s.commonDataBus = some y := by
  by_cases hb : s.commonDataBus = some y
  · exact .inr hb
  · obtain ⟨h0, hlt⟩ := g.older hy
    have hw := g.writes hy
    obtain ⟨c, hc⟩ : ∃ c, unitOf (g.op y) = some c := by
      rw [← Option.isSome_iff_exists, unitOf_isSome, hw, Bool.true_or]
    have hz : s.cdb y = 0 := by
      by_contra hz
      exact hr ⟨hz, hb⟩
    exact .inl ⟨c, hi.stays c y h0 (hlt.le.trans hx) hc (.inr ⟨hw, hz⟩)⟩

theorem Inv.structural (hi : Inv g cycle d s.toPipeline) (ht : Tags trace d s) (hcode : g.toCode = trace.code)
    (hprod : g.producers = rawProducers trace) : Structural trace s := by
  have hproducer {c x k y} (hx : s.InStation c x) (hq : s.Q x k = some y) :
      y ∈ g.producers x ∧ ¬ s.Retired y := by
    rw [ht.tag c x k hx, Option.filter_eq_some_iff] at hq
    rw [hprod, rawProducers, List.mem_toFinset, List.mem_filterMap]
    exact ⟨⟨k, List.mem_finRange k, hq.1⟩, of_decide_eq_true hq.2⟩
  constructor
  case fits => exact hi.queue.size ▸ hi.queue.fits
  case queue =>
    intro k
    rw [hi.queue.slot k, hi.queue.size, Ne, List.getElem?_eq_none_iff, Nat.not_le]
  case youngest_first =>
    intro j k x y hjk hj hk
    have hs : (g.between d s.fetch_index).reverse.Pairwise (· > ·) := by
      rw [List.pairwise_reverse]
      exact (List.pairwise_lt_range' 1).filter _
    rw [hi.queue.slot] at hj hk
    obtain ⟨hj', rfl⟩ := List.getElem?_eq_some_iff.1 hj
    obtain ⟨hk', rfl⟩ := List.getElem?_eq_some_iff.1 hk
    exact List.pairwise_iff_getElem.1 hs _ _ hj' hk' hjk
  case one_station =>
    intro x c k c' k' h h'
    obtain rfl : c = c' := Option.some.inj
      ((hi.station c x ⟨k, h⟩).2.2.1.symm.trans (hi.station c' x ⟨k', h'⟩).2.2.1)
    exact ⟨rfl, congrArg Fin.val (hi.reserv c h h')⟩
  case one_unit =>
    intro x c k c' k' h h'
    obtain rfl : c = c' := Option.some.inj ((hi.unit_class ⟨k, h⟩).symm.trans (hi.unit_class ⟨k', h'⟩))
    exact ⟨rfl, congrArg Fin.val (hi.fu c h h')⟩
  case unit => exact hi.unit
  case unit_ready =>
    intro c x hx k
    obtain ⟨hst, hexec⟩ := (hi.unit c x).1 hx
    cases hq : s.Q x k with
    | none => rfl
    | some y =>
      obtain ⟨hy, hr⟩ := hproducer hst hq
      exact absurd (hi.raw x hexec y hy).1 hr
  case tag =>
    intro c x k y hx hq
    obtain ⟨hy, hr⟩ := hproducer hx hq
    exact ⟨(g.older hy).2, hi.in_flight (hi.station c x hx).2.1 hy hr⟩
  case map =>
    intro r h0 i
    rw [ht.map r, if_pos h0, Option.filter_eq_some_iff, hi.youngestDispatched_iff hcode]
    exact and_congr_right fun _ => decide_eq_true_iff

end

/-- At the end of every cycle the structural invariant holds, traps anywhere in the trace. -/
theorem structural_invariant (trace : Trace) (k : Nat) : Structural trace (State.after trace k) := by
  obtain ⟨-, d, hi, ht⟩ := State.after_eq (padded_ends trace) k
  rw [after_padded] at hi ht
  obtain ⟨h1, h2, h3, h4, h5, h6, h7, h8, hmap⟩ := hi.structural ht rfl rfl
  refine ⟨h1, h2, h3, h4, h5, h6, h7, h8, fun r h0 i => ?_⟩
  have hw (y) : Writes trace.padded y r ↔ Writes trace y r := by
    unfold Writes
    rw [get_instr_padded]
  have hd (y) : (State.after trace k).Dispatched trace.padded y ↔ (State.after trace k).Dispatched trace y := by
    unfold State.Dispatched
    rw [get_instr_padded]
  rw [hmap r h0 i]
  refine and_congr_left fun _ => ⟨fun h => ?_, fun h => ?_⟩
  · exact ⟨(hd i).1 h.dispatched, (hw i).1 h.writes, fun y hy hdy hwy => h.last y hy ((hd y).2 hdy) ((hw y).2 hwy)⟩
  · exact ⟨(hd i).2 h.dispatched, (hw i).2 h.writes, fun y hy hdy hwy => h.last y hy ((hd y).1 hdy) ((hw y).1 hwy)⟩

end Tomasulo
