import CompArch.Tomasulo.Structure
/-!
# Oldest first

Who gets the bus and who starts is decided by age, in every cycle and whatever the
slots the candidates sit in: among the finished instructions that are no stores the
oldest takes the bus, and a ready instruction waits only for a full set of units,
all of which older ones were given first.
-/

namespace Tomasulo

open Pisa

namespace Pipeline

variable {code : Code} {cycle : Nat} {p p' : Pipeline} {ready : Nat → Bool} {c : Class}

/-! ## The units -/

/-- Of the instructions of class `c` that may start, the oldest do, as long as a unit is free. -/
structure OldestStart (ready : Nat → Bool) (c : Class) (p p' : Pipeline) : Prop where
  older : ∀ x y, ¬ p.InUnit c x → p'.InUnit c x → y < x → p.Startable ready c y → p'.InUnit c y
  full : ∀ y, p.Startable ready c y → ¬ p'.InUnit c y → ∀ k, p'.fu c k ≠ none

theorem Started.oldestStart {started : List Nat} (e : Started cycle ready c p p' started) :
    OldestStart ready c p p' where
  older x y hx hx' hlt hy := by
    by_contra hy'
    have hns : y ∉ started := fun hs => hy' ((e.unit y).2 (.inr hs))
    have hxs : x ∈ started := ((e.unit x).1 hx').resolve_left hx
    exact absurd ((e.first y hy hns).2 x hxs) (Nat.not_le.2 hlt)
  full y hy hy' := (e.first y hy fun hs => hy' ((e.unit y).2 (.inr hs))).1

/-- What other stages leave of the class alone. -/
theorem OldestStart.congr {q q' : Pipeline} (h : OldestStart ready c p p')
    (hs : ∀ x, q.Startable ready c x → p.Startable ready c x) (hp : q.fu c = p.fu c) (hp' : q'.fu c = p'.fu c) :
    OldestStart ready c q q' where
  older x y hx hx' hlt hy := by
    rw [InUnit, hp'] at hx' ⊢
    exact h.older x y (by rwa [InUnit, ← hp]) hx' hlt (hs y hy)
  full y hy hy' k := by
    rw [hp']
    exact h.full y (hs y hy) (by rwa [InUnit, ← hp']) k

end Pipeline

section
variable {g : Dataflow} {cycle d : Nat} {p p' : Pipeline}

/-- Both halves of `issue_To_execute` start the oldest. -/
theorem Inv.oldestStart (h : Inv g cycle d p) (hpos : 0 < cycle) (ready : Nat → Bool) (c : Class) :
    p.OldestStart ready c (p.issue_To_execute cycle ready) := by
  obtain ⟨s₁, e₁⟩ := h.starts ready .INT
  obtain ⟨s₂, e₂⟩ := Pipeline.issueClass_started cycle ready (c := .FP) (p := p.issueClass cycle ready .INT)
    (by rw [e₁.reserv]; exact h.reserv .FP) (by rw [e₁.other .FP (by rintro ⟨⟩)]; exact h.fu .FP) fun x hx => by
      rw [Pipeline.InUnit, e₁.other .FP (by rintro ⟨⟩)] at hx
      rw [e₁.exec]
      split
      case isTrue => exact hpos.ne'
      case isFalse => exact ((h.unit .FP x).1 hx).2
  change p.OldestStart ready c ((p.issueClass cycle ready .INT).issueClass cycle ready .FP)
  cases c with
  | INT => exact e₁.oldestStart.congr (fun _ hx => hx) rfl (e₂.other .INT (by rintro ⟨⟩))
  | FP =>
    refine e₂.oldestStart.congr (fun x hx => ⟨(e₁.station .FP x).2 hx.1, ?_, hx.2.2⟩)
      (e₁.other .FP (by rintro ⟨⟩)).symm rfl
    -- an instruction sits in stations of one class only
    have hns : x ∉ s₁ := fun hs => by
      have h1 := (h.station .FP x hx.1).2.2.1
      have h2 := (h.station .INT x (e₁.startable x hs).1).2.2.1
      rw [h1] at h2
      cases h2
    rw [e₁.exec, if_neg hns]
    exact hx.2.1

/-! ## The bus -/

/-- The oldest finished instruction that is no store takes the bus, and finished stores leave. -/
structure Pipeline.OldestBus (code : Code) (cycle : Nat) (p p' : Pipeline) : Prop where
  finished : ∀ x, p'.commonDataBus = some x → p.Finished cycle x ∧ IS_STORE (code.op x) = false
  older : ∀ x y, p'.commonDataBus = some x → p.Finished cycle y → IS_STORE (code.op y) = false → y ≠ x → x < y
  used : ∀ y, p.Finished cycle y → IS_STORE (code.op y) = false → ∃ x, p'.commonDataBus = some x
  stores : ∀ c y, p.Finished cycle y → IS_STORE (code.op y) = true → ¬ p'.InStation c y ∧ ¬ p'.InUnit c y

theorem Pipeline.Executed.oldestBus {code : Code} (e : p.Executed code cycle p') : p.OldestBus code cycle p' where
  finished := e.bus
  older x y hx hy hs hne := by
    obtain ⟨x', hx', hle⟩ := e.first y hy hs
    obtain rfl : x = x' := Option.some.inj (hx.symm.trans hx')
    exact lt_of_le_of_ne hle (Ne.symm hne)
  used y hy hs := by
    obtain ⟨x, hx, -⟩ := e.first y hy hs
    exact ⟨x, hx⟩
  stores c y hy hs := ⟨fun h => ((e.station c y).1 h).2.1 ⟨hy, hs⟩, fun h => ((e.unit c y).1 h).2.1 ⟨hy, hs⟩⟩

/-- Who has left its station does not come back. -/
theorem Inv.stays_out (h : Inv g cycle d p) {x : Nat} (hx : x ≤ d) (hout : ∀ c, ¬ p.InStation c x) (c : Class) :
    ¬ ((p.dispatch_To_issue g.toCode cycle).fetch_To_dispatch g.toCode cycle).InStation c x := by
  have hdisp : ¬ (p.dispatch_To_issue g.toCode cycle).InStation c x := by
    rcases h.oldest_cases with ⟨hold, -⟩ | ⟨i, hold, hn⟩
    · rw [Pipeline.dispatch_of_oldest_none hold]
      exact hout c
    · generalize hp : p.dispatch_To_issue g.toCode cycle = p'
      cases hp ▸ Pipeline.dispatched g.toCode cycle hold with
      | hazard c' hc hfull => exact hout c
      | control hc => exact hout c
      | enters c' p' hc e =>
        intro hin
        rcases (e.station c x).1 hin with hin | ⟨-, rfl⟩
        · exact hout c hin
        · exact absurd hn.lt (Nat.not_lt.2 hx)
  unfold Pipeline.fetch_To_dispatch
  split
  · exact hdisp
  · split <;> exact hdisp

end

/-! ## Every cycle of a run -/

namespace State

variable (trace : Trace) (k : Nat)

/-- The state of cycle `k + 1` after `CDB_To_retire`. -/
def retired : State := (State.after trace k).CDB_To_retire

/-- After `execute_To_CDB`. -/
def executed : State := (retired trace k).execute_To_CDB trace (k + 1)

/-- After `issue_To_execute`. -/
def started : State := (executed trace k).issue_To_execute (k + 1)

theorem after_started : State.after trace (k + 1) =
    ((started trace k).dispatch_To_issue trace (k + 1)).fetch_To_dispatch trace (k + 1) :=
  State.after_succ trace k

end State

section
variable (trace : Trace) (k : Nat)

theorem retired_padded : State.retired trace.padded k = State.retired trace k := by
  rw [State.retired, after_padded, State.retired]

theorem executed_padded : State.executed trace.padded k = State.executed trace k := by
  unfold State.executed State.execute_To_CDB
  rw [retired_padded, execute_congr op_padded]

theorem started_padded : State.started trace.padded k = State.started trace k := by
  rw [State.started, executed_padded, State.started]

end

/-- What holds between the stages of cycle `k + 1`, with `d` the youngest instruction
dispatched before it. -/
structure State.Within {trace : Trace} (h : EndsInNoTrap trace) (k d : Nat) : Prop where
  retired : Inv (trace.dataflow h) (k + 1) d (State.retired trace k).toPipeline
  executes : (State.retired trace k).Executed trace.code (k + 1) (State.executed trace k).toPipeline
  executed : Inv (trace.dataflow h) (k + 1) d (State.executed trace k).toPipeline
  reserv : (State.started trace k).reserv = (State.executed trace k).reserv
  started : Inv (trace.dataflow h) (k + 1) d (State.started trace k).toPipeline
  dispatch : ((State.started trace k).dispatch_To_issue trace (k + 1)).toPipeline =
    (State.started trace k).toPipeline.dispatch_To_issue (trace.dataflow h).toCode (k + 1)

theorem State.within {trace : Trace} (h : EndsInNoTrap trace) (k : Nat) : ∃ d, State.Within h k d := by
  have hpos := Nat.succ_pos k
  obtain ⟨he, d, hi, ht⟩ := State.after_eq h k
  obtain ⟨-, -, hf⟩ := (trace.dataflow h).start k
  rw [← he] at hf
  obtain ⟨t₁, e₁⟩ := ht.retire hi
  have hi₁ : Inv (trace.dataflow h) (k + 1) d (State.retired trace k).toPipeline := e₁ ▸ hi.retire hf
  have hf₁ : Fresh (k + 1) (State.retired trace k).toPipeline := e₁ ▸ hf
  have hb₁ : (State.retired trace k).commonDataBus = none := by rw [State.retired, e₁]; rfl
  have hi₂ : Inv (trace.dataflow h) (k + 1) d (State.executed trace k).toPipeline := hi₁.execute hb₁ hf₁
  have hissue₂ := hi₁.execute_issue_lt hb₁ hf₁
  obtain ⟨t₃, e₃⟩ := (t₁.execute hi₁ hb₁ rfl).issue hi₂ hpos hissue₂ rfl
  have hi₃ : Inv (trace.dataflow h) (k + 1) d (State.started trace k).toPipeline := e₃ ▸ hi₂.issue hpos hissue₂
  exact ⟨d, hi₁, Pipeline.executed _ _ hb₁ (fun c x hx => (hi₁.station c x hx).2.2.1) fun _ _ => hi₁.unit_class, hi₂,
    (congrArg Pipeline.reserv e₃).trans (hi₂.issue_frame hpos hissue₂).reserv, hi₃, (t₃.dispatch hi₃ hpos rfl).1⟩

/-- A finished store is in no station and in no unit when the cycle ends. -/
theorem State.Within.store_left {trace : Trace} {h : EndsInNoTrap trace} {k d : Nat} (w : State.Within h k d) {y : Nat}
    (hy : (State.retired trace k).Finished (k + 1) y) (hs : IS_STORE (trace.code.op y) = true) (c : Class) :
    ¬ (State.after trace (k + 1)).InStation c y ∧ ¬ (State.after trace (k + 1)).InUnit c y := by
  have hout (c) : ¬ (State.started trace k).InStation c y := by
    rw [Pipeline.InStation, w.reserv]
    exact (w.executes.oldestBus.stores c y hy hs).1
  obtain ⟨c', hst, -⟩ := w.retired.finished_station hy
  have hend (c) : ¬ (State.after trace (k + 1)).InStation c y := by
    have hstays := w.started.stays_out (w.retired.station c' y hst).2.1 hout c
    rw [← w.dispatch] at hstays
    rw [State.after_started]
    exact hstays
  obtain ⟨-, d', hi', -⟩ := State.after_eq h (k + 1)
  exact ⟨hend c, fun hin => hend c ((hi'.unit c y).1 hin).1⟩

/-- One cycle on a trace that does not end in a trap. -/
theorem oldest_first_of_ends {trace : Trace} (h : EndsInNoTrap trace) (k : Nat) :
    (State.retired trace k).OldestBus trace.code (k + 1) (State.executed trace k).toPipeline ∧
      (∀ c y, (State.retired trace k).Finished (k + 1) y → IS_STORE (trace.code.op y) = true →
        ¬ (State.after trace (k + 1)).InStation c y ∧ ¬ (State.after trace (k + 1)).InUnit c y) ∧
      ∀ c, (State.executed trace k).OldestStart (State.executed trace k).ready c
        (State.started trace k).toPipeline := by
  obtain ⟨d, w⟩ := State.within h k
  exact ⟨w.executes.oldestBus, fun c y hy hs => w.store_left hy hs c, w.executed.oldestStart (Nat.succ_pos k) _⟩

/-- In every cycle of a run, traps anywhere in the trace, the oldest goes first. -/
theorem oldest_first (trace : Trace) (k : Nat) :
    (State.retired trace k).OldestBus trace.code (k + 1) (State.executed trace k).toPipeline ∧
      (∀ c y, (State.retired trace k).Finished (k + 1) y → IS_STORE (trace.code.op y) = true →
        ¬ (State.after trace (k + 1)).InStation c y ∧ ¬ (State.after trace (k + 1)).InUnit c y) ∧
      ∀ c, (State.executed trace k).OldestStart (State.executed trace k).ready c
        (State.started trace k).toPipeline := by
  obtain ⟨⟨hfin, holder, hused, hstores⟩, hleft, hstart⟩ := oldest_first_of_ends (padded_ends trace) k
  rw [retired_padded, executed_padded, op_padded] at hfin holder hused hstores
  rw [retired_padded, after_padded, op_padded] at hleft
  rw [executed_padded, started_padded] at hstart
  exact ⟨⟨hfin, holder, hused, hstores⟩, hleft, hstart⟩

end Tomasulo
