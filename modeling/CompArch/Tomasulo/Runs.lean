import CompArch.Tomasulo.Progress
import CompArch.Tomasulo.Rename
/-!
# Whole runs

The dataflow machine always empties its pipeline, every stamp is the cycle in
which the instruction was where the stamp says, and `runTomasulo` runs in step
with the machine.
-/

namespace Tomasulo

open Pisa

/-! ## Stamps are written once -/

/-- In a cycle a stamp stays or, if it was 0, takes the cycle. -/
def Stamped (cycle a b : Nat) : Prop := b = a ∨ a = 0 ∧ b = cycle

section Stamped

variable {f : Nat → Nat} (hs : ∀ k, Stamped (k + 1) (f k) (f (k + 1)))

include hs

theorem stamped_at (h0 : f 0 = 0) {k : Nat} (hk : f k ≠ 0) : 0 < f k ∧ f k ≤ k ∧ f (f k) = f k := by
  induction k with
  | zero => exact absurd h0 hk
  | succ k ih =>
    rcases hs k with h | ⟨-, h⟩
    · rw [h] at hk ⊢
      obtain ⟨h1, h2, h3⟩ := ih hk
      exact ⟨h1, h2.trans (Nat.le_succ k), h3⟩
    · rw [h, h]
      exact ⟨Nat.succ_pos k, le_refl _, rfl⟩

theorem stamped_stays {m k : Nat} (hle : m ≤ k) (hm : f m ≠ 0) : f k = f m := by
  induction k, hle using Nat.le_induction with
  | base => rfl
  | succ k _ ih =>
    rcases hs k with h | ⟨h, -⟩
    · exact h.trans ih
    · exact absurd (ih.symm.trans h) hm

end Stamped

/-- What a whole cycle does to the stamps, the bus and the fetch index. -/
structure StepFrame (g : Dataflow) (cycle : Nat) (p p' : Pipeline) : Prop where
  issue : ∀ x, Stamped cycle (p.issue x) (p'.issue x)
  exec : ∀ x, Stamped cycle (p.exec x) (p'.exec x)
  cdb : ∀ x, Stamped cycle (p.cdb x) (p'.cdb x)
  bus : ∀ x, p'.commonDataBus = some x → p'.cdb x = cycle
  fetch : p'.fetch_index = p.fetch_index ∨ p'.fetch_index = g.nextFetch p.fetch_index

namespace Inv

variable {g : Dataflow} {cycle d : Nat} {p : Pipeline}

/-- What `dispatch_To_issue` leaves alone, and the one stamp it writes. -/
structure DispatchFrame (cycle : Nat) (p p' : Pipeline) : Prop where
  fetch_index : p'.fetch_index = p.fetch_index
  bus : p'.commonDataBus = p.commonDataBus
  exec : ∀ x, p'.exec x = p.exec x
  cdb : ∀ x, p'.cdb x = p.cdb x
  issue : ∀ x, Stamped cycle (p.issue x) (p'.issue x)

theorem dispatch_frame (h : Inv g cycle d p) : DispatchFrame cycle p (p.dispatch_To_issue g.toCode cycle) := by
  have hrest : DispatchFrame cycle p p := ⟨rfl, rfl, fun _ => rfl, fun _ => rfl, fun _ => .inl rfl⟩
  rcases h.oldest_cases with ⟨hold, -⟩ | ⟨i, hold, hn⟩
  · rwa [Pipeline.dispatch_of_oldest_none hold]
  · generalize hp : p.dispatch_To_issue g.toCode cycle = p'
    cases hp ▸ Pipeline.dispatched g.toCode cycle hold with
    | hazard c hc hfull => exact hrest
    | control hc => exact ⟨rfl, rfl, fun _ => rfl, fun _ => rfl, fun _ => .inl rfl⟩
    | enters c p' hc e =>
      refine ⟨e.fetch_index, e.bus, e.exec, e.cdb, fun x => ?_⟩
      rw [Stamped, show p'.pop.issue x = _ from e.issue x]
      split
      case isTrue hx => exact .inr ⟨hx ▸ (h.future i hn.lt).1, rfl⟩
      case isFalse => exact .inl rfl

theorem step_frame (h : Inv g cycle d p) (hf : Fresh cycle p) : StepFrame g cycle p (g.step cycle p) := by
  have hpos : 0 < cycle := (Nat.zero_le _).trans_lt (hf 0).1
  have h₁ := h.retire hf
  have h₂ := h₁.execute rfl hf
  have hissue₂ := h₁.execute_issue_lt rfl hf
  have h₃ := h₂.issue hpos hissue₂
  have e₂ : p.retire.Executed g.toCode cycle (p.retire.execute_To_CDB g.toCode cycle) :=
    Pipeline.executed _ _ rfl (fun c x hx => (h₁.station c x hx).2.2.1) fun _ _ => h₁.unit_class
  have e₃ := h₂.issue_frame hpos hissue₂
  have e₄ := h₃.dispatch_frame
  change StepFrame g cycle p (Pipeline.fetch_To_dispatch g.toCode cycle _)
  generalize Pipeline.dispatch_To_issue g.toCode cycle _ = p₄ at e₄ ⊢
  generalize g.issue cycle _ = p₃ at e₃ e₄
  generalize Pipeline.execute_To_CDB g.toCode cycle _ = p₂ at e₂ e₃
  have hfetch : p₄.fetch_index = p.fetch_index := e₄.fetch_index.trans (e₃.fetch_index.trans e₂.fetch_index)
  have hexec (x) : Stamped cycle (p.exec x) (p₄.exec x) := by
    rw [e₄.exec, ← show p₂.exec x = p.exec x from e₂.exec x]
    exact e₃.exec x
  have hissue (x) : Stamped cycle (p.issue x) (p₄.issue x) := by
    have := e₄.issue x
    rwa [e₃.issue, e₂.issue] at this
  have hbus : p₄.commonDataBus = p₂.commonDataBus := e₄.bus.trans e₃.bus
  have hcdb (x) : p₄.cdb x = if p₂.commonDataBus = some x then cycle else p.cdb x := by
    rw [e₄.cdb, e₃.cdb, e₂.cdb]
    rfl
  have hstamp (x) : Stamped cycle (p.cdb x) (p₄.cdb x) := by
    rw [hcdb]
    split
    case isTrue hb =>
      obtain ⟨c, hst, -⟩ := h₁.finished_station (e₂.bus x hb).1
      exact .inr ⟨(h₁.station c x hst).2.2.2, rfl⟩
    case isFalse => exact .inl rfl
  have hb (x) (hx : p₄.commonDataBus = some x) : p₄.cdb x = cycle := by
    rw [hcdb, if_pos (hbus ▸ hx)]
  unfold Pipeline.fetch_To_dispatch
  split
  · exact ⟨hissue, hexec, hstamp, hb, .inl hfetch⟩
  · split
    · have hs (x) := Pipeline.fetch_stamps g.toCode cycle p₄ x
      refine ⟨fun x => ?_, fun x => ?_, fun x => ?_, fun x hx => ?_, .inr (congrArg g.nextFetch hfetch)⟩
      · rw [(hs x).1]
        exact hissue x
      · rw [(hs x).2.1]
        exact hexec x
      · rw [(hs x).2.2]
        exact hstamp x
      · rw [(hs x).2.2]
        exact hb x hx
    · exact ⟨hissue, hexec, hstamp, hb, .inl hfetch⟩

end Inv

/-! ## Runs of the dataflow machine -/

namespace Dataflow

variable (g : Dataflow)

/-- The pipeline at the end of cycle `k`. -/
def after (k : Nat) : Pipeline := Loop.rounds g.step 1 {} k

theorem after_succ (k : Nat) : g.after (k + 1) = g.step (k + 1) (g.after k) := by
  rw [after, Loop.rounds, Nat.add_comm 1 k]
  rfl

theorem start (k : Nat) : ∃ d, Inv g (k + 1) d (g.after k) ∧ Fresh (k + 1) (g.after k) := by
  induction k with
  | zero => exact ⟨0, .init, Inv.fresh_init⟩
  | succ k ih =>
    obtain ⟨d, h, hf⟩ := ih
    obtain ⟨d', h'⟩ := h.step hf
    rw [after_succ]
    exact ⟨d', h'.tick, h'.fresh⟩

theorem frame (k : Nat) : StepFrame g (k + 1) (g.after k) (g.after (k + 1)) := by
  obtain ⟨d, h, hf⟩ := g.start k
  rw [after_succ]
  exact h.step_frame hf

/-- The invariant at the end of a cycle, with the stamps of that cycle. -/
theorem finish {k : Nat} (hk : 0 < k) : ∃ d, Inv g k d (g.after k) := by
  obtain ⟨m, rfl⟩ : ∃ m, k = m + 1 := ⟨k - 1, by omega⟩
  obtain ⟨d, h, hf⟩ := g.start m
  rw [after_succ]
  exact h.step hf

/-- An issue stamp is a cycle in which the instruction sat in a station. -/
theorem issued_in {k x : Nat} (h : (g.after k).issue x ≠ 0) : ∃ m c, m ≤ k ∧ (g.after m).InStation c x := by
  obtain ⟨h0, hle, heq⟩ := stamped_at (f := fun k => (g.after k).issue x) (fun k => (g.frame k).issue x) rfl h
  obtain ⟨d, hi⟩ := g.finish h0
  obtain ⟨c, hc⟩ := (hi.issue_now x).2 heq
  exact ⟨_, c, hle, hc⟩

/-- An execute stamp is a cycle in which the instruction sat in a unit. -/
theorem executed_in {k x : Nat} (h : (g.after k).exec x ≠ 0) : ∃ m c, m ≤ k ∧ (g.after m).InUnit c x := by
  obtain ⟨h0, hle, heq⟩ := stamped_at (f := fun k => (g.after k).exec x) (fun k => (g.frame k).exec x) rfl h
  obtain ⟨d, hi⟩ := g.finish h0
  obtain ⟨c, hc⟩ := (hi.exec_now x).2 heq
  exact ⟨_, c, hle, hc⟩

/-- A bus stamp is the one cycle in which the instruction was on the bus. -/
theorem on_bus_once {k x : Nat} (h : (g.after k).cdb x ≠ 0) :
    ∃! m, m ≤ k ∧ (g.after m).commonDataBus = some x := by
  have hs (k) := (g.frame k).cdb x
  obtain ⟨h0, hle, heq⟩ := stamped_at (f := fun k => (g.after k).cdb x) hs rfl h
  obtain ⟨d, hi⟩ := g.finish h0
  refine ⟨_, ⟨hle, (hi.cdb_now x).2 heq⟩, fun m ⟨hm, hb⟩ => ?_⟩
  cases m with
  | zero => cases hb
  | succ m =>
    have hc := (g.frame m).bus x hb
    exact hc.symm.trans (stamped_stays (f := fun k => (g.after k).cdb x) hs hm
      (show (g.after (m + 1)).cdb x ≠ 0 by omega)).symm

/-- The positions a fetch index takes in the first `k` cycles. -/
def fetches (f : Nat → Nat) (k : Nat) : List Nat :=
  (List.range k).filterMap fun m => if f (m + 1) = f m then none else some (f (m + 1))

theorem fetches_succ (f : Nat → Nat) (k : Nat) :
    fetches f (k + 1) = fetches f k ++ if f (k + 1) = f k then [] else [f (k + 1)] := by
  rw [fetches, List.range_succ, List.filterMap_append, ← fetches]
  by_cases h : f (k + 1) = f k
  · simp [h]
  · simp [h]

theorem fetches_eq (k : Nat) :
    fetches (fun m => (g.after m).fetch_index) k = g.between 0 (g.after k).fetch_index := by
  induction k with
  | zero => rfl
  | succ k ih =>
    rw [fetches_succ, ih]
    rcases (g.frame k).fetch with h | h
    · rw [if_pos h, List.append_nil, h]
    · have hne := (g.toCode.nextFetch_spec (g.after k).fetch_index).1.ne'
      rw [h, if_neg hne, Code.between_fetch (Nat.zero_le _)]

/-! ## The end of a run -/

/-- Everything done: the pipeline is empty and the trace is fetched. -/
structure Complete (p : Pipeline) : Prop where
  drained : p.Drained
  fetched : p.fetch_index = g.sim_num_insn

variable {g} in
theorem Complete.dispatched {cycle d x : Nat} {p : Pipeline} (h : g.Complete p) (hi : Inv g cycle d p)
    (hx : x ≤ g.sim_num_insn) (ht : IS_TRAP (g.op x) = false) : x ≤ d := by
  by_contra hd
  obtain ⟨k, hk⟩ := hi.queue_holds.2 ⟨Nat.not_le.1 hd, h.fetched ▸ hx, ht⟩
  rw [h.drained.1] at hk
  cases hk

variable {g} in
/-- At the end every instruction that uses a unit has its stamps. -/
theorem Complete.stamps {cycle d x : Nat} {c : Class} {p : Pipeline} (h : g.Complete p) (hi : Inv g cycle d p)
    (h0 : 0 < x) (hx : x ≤ g.sim_num_insn) (hc : unitOf (g.op x) = some c) :
    p.issue x ≠ 0 ∧ p.exec x ≠ 0 ∧ (WRITES_CDB (g.op x) = true → p.cdb x ≠ 0) := by
  have hd := h.dispatched hi hx (Inv.not_trap hc)
  have hout : ¬ p.InStation c x := by
    rintro ⟨k, hk⟩
    rw [h.drained.2.1] at hk
    cases hk
  exact ⟨hi.issued c x h0 hd hc, fun he => hout (hi.stays c x h0 hd hc (.inl he)),
    fun hw hz => hout (hi.stays c x h0 hd hc (.inr ⟨hw, hz⟩))⟩

/-- The pipeline is empty after finitely many cycles, and only when all is done. -/
theorem terminates : ∃ fuel k,
    Loop.doWhile g.step (fun p => decide p.Drained) fuel 1 {} = some (k + 2, g.after (k + 1)) ∧
    g.Complete (g.after (k + 1)) := by
  obtain ⟨⟨m, p⟩, hr⟩ := Loop.doWhile_terminates g.step (fun p => decide p.Drained)
    (fun cycle p => ∃ d, Inv g cycle d p ∧ Fresh cycle p) (fun cycle p => p.work g.toCode cycle)
    (fun cycle p ⟨d, h, hf⟩ => (h.step hf).imp fun d' h' => ⟨h'.tick, h'.fresh⟩)
    (fun cycle p ⟨d, h, hf⟩ => (h.progress hf).imp_left fun h => decide_eq_true h)
    ⟨0, .init, Inv.fresh_init⟩
  obtain ⟨k, rfl, rfl, hstop⟩ := Loop.doWhile_eq_some hr
  have hd : (g.after (k + 1)).Drained := of_decide_eq_true hstop
  refine ⟨({} : Pipeline).work g.toCode 1 + 1, k, ?_, hd, ?_⟩
  · rw [hr, Nat.add_comm 1 k]
    rfl
  · obtain ⟨d, h, hf⟩ := g.start k
    rw [after_succ] at hd ⊢
    exact h.step_fetched hf hd

end Dataflow

/-! ## Runs of `runTomasulo` -/

/-- The state of `runTomasulo` at the end of cycle `k`. -/
def State.after (trace : Trace) (k : Nat) : State := Loop.rounds (State.step trace) 1 {} k

/-- The tags and the map table only decide what the dataflow machine decides. -/
theorem State.after_eq {trace : Trace} (h : EndsInNoTrap trace) (k : Nat) :
    (State.after trace k).toPipeline = (trace.dataflow h).after k ∧
      ∃ d, Inv (trace.dataflow h) (k + 1) d (State.after trace k).toPipeline ∧ Tags trace d (State.after trace k) := by
  induction k with
  | zero => exact ⟨rfl, 0, .init, .init⟩
  | succ k ih =>
    obtain ⟨he, d, hi, ht⟩ := ih
    obtain ⟨-, -, hf⟩ := (trace.dataflow h).start k
    rw [← he] at hf
    obtain ⟨hs, d', hi', ht'⟩ := ht.step hi hf rfl rfl
    have hafter : State.after trace (k + 1) = (State.after trace k).step trace (k + 1) := by
      rw [State.after, Loop.rounds, Nat.add_comm 1 k]
      rfl
    rw [hafter, hs, he, ← Dataflow.after_succ]
    refine ⟨rfl, d', ?_, ht'⟩
    rw [hs, he, ← Dataflow.after_succ] at hi'
    exact hi'.tick

/-- `runTomasulo` and the dataflow machine stop together. -/
theorem runTomasulo_refines {trace : Trace} (h : EndsInNoTrap trace) (fuel : Nat) :
    (runTomasulo trace fuel).map (Prod.map id State.toPipeline) =
      Loop.doWhile (trace.dataflow h).step (fun p => decide p.Drained) fuel 1 {} := by
  let I cycle (s : State) := ∃ d, Inv (trace.dataflow h) cycle d s.toPipeline ∧ Fresh cycle s.toPipeline ∧
      Tags trace d s
  have hstep {cycle} {s : State} (hI : I cycle s) : (s.step trace cycle).toPipeline =
      (trace.dataflow h).step cycle s.toPipeline ∧
        ∃ d', Inv (trace.dataflow h) cycle d' (s.step trace cycle).toPipeline ∧
        Tags trace d' (s.step trace cycle) := by
    obtain ⟨d, hi, hf, ht⟩ := hI
    exact ht.step hi hf rfl rfl
  refine Loop.doWhile_map (I := I) (f := State.toPipeline) (fun cycle s hI => ?_) (fun cycle s hI => (hstep hI).1)
    (fun cycle s hI => ?_) fuel ⟨0, .init, Inv.fresh_init, .init⟩
  · obtain ⟨-, d', hi', ht'⟩ := hstep hI
    exact ⟨d', hi'.tick, hi'.fresh, ht'⟩
  · obtain ⟨-, d', hi', ht'⟩ := hstep hI
    exact decide_eq_decide.2 ⟨And.left, fun hd => ⟨hd, ht'.map_empty hi' rfl hd⟩⟩

end Tomasulo
