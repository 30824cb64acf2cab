import Mathlib.Algebra.Order.BigOperators.Group.Finset
import Mathlib.Order.Interval.Finset.Nat
import CompArch.Tomasulo.Invariant
/-!
# Every cycle does some work

Each instruction has a rank, the work it still needs; the units' remaining
latencies are part of it. No stage raises a rank, and a cycle that lowers none
leaves the pipeline empty and the trace fetched.
-/

namespace Tomasulo

open Pisa

namespace Pipeline

/-! ## Ranks -/

/-- The work an instruction still needs at the start of `cycle`. -/
def rank (code : Code) (cycle : Nat) (p : Pipeline) (x : Nat) : Nat :=
  if IS_TRAP (code.op x) then 0
  else if p.fetch_index < x then 13
  else if p.instr_queue.Holds x then 12
  else match unitOf (code.op x) with
    | none => 0
    | some c =>
      if p.InStation c x then if p.exec x = 0 then 11 else 2 + (p.exec x + c.latency - cycle)
      else if p.commonDataBus = some x then 1 else 0

/-- The work left for the whole trace. -/
def work (code : Code) (cycle : Nat) (p : Pipeline) : Nat :=
  ∑ x ∈ Finset.Icc 1 code.sim_num_insn, p.rank code cycle x

variable {code : Code} {cycle cycle' : Nat} {p p' : Pipeline}

theorem work_le (h : ∀ x, 0 < x → p'.rank code cycle' x ≤ p.rank code cycle x) :
    p'.work code cycle' ≤ p.work code cycle :=
  Finset.sum_le_sum fun x hx => h x (Finset.mem_Icc.1 hx).1

theorem work_lt (h : ∀ x, 0 < x → p'.rank code cycle' x ≤ p.rank code cycle x) {x : Nat} (h0 : 0 < x)
    (hn : x ≤ code.sim_num_insn) (hlt : p'.rank code cycle' x < p.rank code cycle x) :
    p'.work code cycle' < p.work code cycle :=
  Finset.sum_lt_sum (fun y hy => h y (Finset.mem_Icc.1 hy).1) ⟨x, Finset.mem_Icc.2 ⟨h0, hn⟩, hlt⟩

theorem Queued.holds {q : List Nat} {x : Nat} (h : p.Queued q) : p.instr_queue.Holds x ↔ x ∈ q := by
  rw [List.mem_iff_getElem?]
  constructor
  · rintro ⟨k, hk⟩
    exact ⟨k, h.slot k ▸ hk⟩
  · rintro ⟨k, hk⟩
    have : k < INSTR_QUEUE_SIZE := (List.getElem?_eq_some_iff.1 hk).1.trans_le h.fits
    exact ⟨⟨k, this⟩, (h.slot ⟨k, this⟩).trans hk⟩

end Pipeline

namespace Inv

open Pipeline

variable {g : Dataflow} {cycle d : Nat} {p : Pipeline} {x : Nat} {c : Class}

theorem queue_holds (h : Inv g cycle d p) :
    p.instr_queue.Holds x ↔ d < x ∧ x ≤ p.fetch_index ∧ IS_TRAP (g.op x) = false := by
  rw [h.queue.holds, List.mem_reverse, Code.mem_between]

theorem station_le (h : Inv g cycle d p) (hx : p.InStation c x) : x ≤ g.sim_num_insn :=
  (h.station c x hx).2.1.trans (h.order.trans h.fetched)

theorem not_trap (hc : unitOf (g.op x) = some c) : IS_TRAP (g.op x) = false := by
  cases ht : IS_TRAP (g.op x) with
  | false => rfl
  | true =>
    rw [unitOf_trap ht] at hc
    cases hc

theorem rank_trap (ht : IS_TRAP (g.op x) = true) : p.rank g.toCode cycle x = 0 := if_pos ht

theorem rank_unfetched (ht : IS_TRAP (g.op x) = false) (hx : p.fetch_index < x) : p.rank g.toCode cycle x = 13 := by
  rw [rank, if_neg (Bool.eq_false_iff.1 ht), if_pos hx]

theorem rank_queued (h : Inv g cycle d p) (ht : IS_TRAP (g.op x) = false) (hd : d < x) (hx : x ≤ p.fetch_index) :
    p.rank g.toCode cycle x = 12 := by
  rw [rank, if_neg (Bool.eq_false_iff.1 ht), if_neg (Nat.not_lt.2 hx), if_pos (h.queue_holds.2 ⟨hd, hx, ht⟩)]

/-- The rank of a dispatched instruction is decided by its unit. -/
theorem rank_dispatched (h : Inv g cycle d p) (hc : unitOf (g.op x) = some c) (hx : x ≤ d) :
    p.rank g.toCode cycle x =
      if p.InStation c x then if p.exec x = 0 then 11 else 2 + (p.exec x + c.latency - cycle)
      else if p.commonDataBus = some x then 1 else 0 := by
  rw [rank, if_neg (Bool.eq_false_iff.1 (not_trap hc)), if_neg (Nat.not_lt.2 (hx.trans h.order)),
    if_neg fun hq => absurd (h.queue_holds.1 hq).1 (Nat.not_lt.2 hx), hc]

theorem rank_control (h : Inv g cycle d p) (hc : unitOf (g.op x) = none) (hx : x ≤ d) :
    p.rank g.toCode cycle x = 0 := by
  cases ht : IS_TRAP (g.op x) with
  | true => exact rank_trap ht
  | false =>
    rw [rank, if_neg (Bool.eq_false_iff.1 ht), if_neg (Nat.not_lt.2 (hx.trans h.order)),
      if_neg fun hq => absurd (h.queue_holds.1 hq).1 (Nat.not_lt.2 hx), hc]

/-- While the front of the pipeline rests, only dispatched instructions that use a
unit can change their rank. -/
theorem rank_le {cycle' : Nat} {p' : Pipeline} (h : Inv g cycle d p) (h' : Inv g cycle' d p')
    (hq : p'.fetch_index = p.fetch_index)
    (hle : ∀ c x, 0 < x → x ≤ d → unitOf (g.op x) = some c →
      p'.rank g.toCode cycle' x ≤ p.rank g.toCode cycle x) (x : Nat) (h0 : 0 < x) :
    p'.rank g.toCode cycle' x ≤ p.rank g.toCode cycle x := by
  cases ht : IS_TRAP (g.op x) with
  | true => rw [rank_trap ht]; exact Nat.zero_le _
  | false =>
    by_cases hf : p.fetch_index < x
    · rw [rank_unfetched ht hf, rank_unfetched ht (hq ▸ hf)]
    · by_cases hd : d < x
      · rw [rank, rank, if_neg (Bool.eq_false_iff.1 ht), if_neg (hq ▸ hf), if_neg (Bool.eq_false_iff.1 ht), if_neg hf,
          if_pos (h'.queue_holds.2 ⟨hd, by omega, ht⟩), if_pos (h.queue_holds.2 ⟨hd, by omega, ht⟩)]
      · cases hc : unitOf (g.op x) with
        | some c => exact hle c x h0 (by omega) hc
        | none =>
          rw [rank, if_neg (Bool.eq_false_iff.1 ht), if_neg (hq ▸ hf),
            if_neg fun hq => hd (h'.queue_holds.1 hq).1, hc]
          exact Nat.zero_le _

/-! ## No stage raises a rank -/

theorem rank_retire (h : Inv g cycle d p) (hf : Fresh cycle p) (x : Nat) (h0 : 0 < x) :
    p.retire.rank g.toCode cycle x ≤ p.rank g.toCode cycle x := by
  refine h.rank_le (h.retire hf) rfl (fun c x _ hd hc => ?_) x h0
  rw [h.rank_dispatched hc hd, (h.retire hf).rank_dispatched hc hd]
  by_cases hs : p.InStation c x
  · rw [if_pos hs, if_pos (show p.retire.InStation c x from hs)]
    exact le_refl _
  · rw [if_neg (show ¬ p.retire.InStation c x from hs), if_neg (show ¬ p.retire.commonDataBus = some x from nofun)]
    exact Nat.zero_le _

theorem rank_tick (h : Inv g cycle d p) (x : Nat) (h0 : 0 < x) :
    p.rank g.toCode (cycle + 1) x ≤ p.rank g.toCode cycle x := by
  refine h.rank_le h.tick rfl (fun c x _ hd hc => ?_) x h0
  rw [h.rank_dispatched hc hd, h.tick.rank_dispatched hc hd]
  split
  · split <;> omega
  · exact le_refl _

/-- Time counts for an instruction that has not finished. -/
theorem rank_tick_lt (h : Inv g cycle d p) (hx : p.InStation c x) (he : p.exec x ≠ 0)
    (hlt : cycle < p.exec x + c.latency) : p.rank g.toCode (cycle + 1) x < p.rank g.toCode cycle x := by
  obtain ⟨-, hd, hc, -⟩ := h.station c x hx
  rw [h.rank_dispatched hc hd, h.tick.rank_dispatched hc hd, if_pos hx, if_neg he, if_pos hx, if_neg he]
  omega

theorem finished_station (h : Inv g cycle d p) (hx : p.Finished cycle x) : ∃ c, p.InStation c x ∧ p.exec x ≠ 0 := by
  obtain ⟨c, hin, -⟩ := hx
  exact ⟨c, (h.unit c x).1 hin⟩

section Execute

variable {p' : Pipeline} (h : Inv g cycle d p) (h' : Inv g cycle d p') (e : p.Executed g.toCode cycle p')

include h h' e

omit e in
/-- Who leaves its station has had a rank of at least 2. -/
theorem rank_leave (hx : p.Finished cycle x) (hout : ∀ c, ¬ p'.InStation c x) :
    p'.rank g.toCode cycle x < p.rank g.toCode cycle x := by
  obtain ⟨c, hst, he⟩ := h.finished_station hx
  obtain ⟨-, hd, hc, -⟩ := h.station c x hst
  rw [h.rank_dispatched hc hd, h'.rank_dispatched hc hd, if_pos hst, if_neg he, if_neg (hout c)]
  split <;> omega

theorem rank_execute (x : Nat) (h0 : 0 < x) : p'.rank g.toCode cycle x ≤ p.rank g.toCode cycle x := by
  refine h.rank_le h' e.fetch_index (fun c x _ hd hc => ?_) x h0
  by_cases hst : p.InStation c x
  · by_cases hst' : p'.InStation c x
    · rw [h.rank_dispatched hc hd, h'.rank_dispatched hc hd, if_pos hst, if_pos hst', e.exec]
    · have hfin : p.Finished cycle x := by
        by_contra hn
        exact hst' ((e.station c x).2 ⟨hst, fun hs => hn hs.1, fun hb => hn (e.bus x hb).1⟩)
      refine (rank_leave h h' hfin fun c' hs => hst' ?_).le
      rwa [← Option.some.inj ((h'.station c' x hs).2.2.1.symm.trans hc)]
  · rw [h'.rank_dispatched hc hd, if_neg fun hs => hst ((e.station c x).1 hs).1, if_neg fun hb => hst ?_]
    · exact Nat.zero_le _
    · obtain ⟨c', hs, -⟩ := h.finished_station (e.bus x hb).1
      rwa [← Option.some.inj ((h.station c' x hs).2.2.1.symm.trans hc)]

/-- A finished instruction makes some instruction leave. -/
theorem rank_execute_lt (hx : p.Finished cycle x) :
    ∃ y c, p.InStation c y ∧ p'.rank g.toCode cycle y < p.rank g.toCode cycle y := by
  cases hs : IS_STORE (g.op x) with
  | true =>
    obtain ⟨c, hst, -⟩ := h.finished_station hx
    exact ⟨x, c, hst, rank_leave h h' hx fun c hin => ((e.station c x).1 hin).2.1 ⟨hx, hs⟩⟩
  | false =>
    obtain ⟨y, hy, -⟩ := e.first x hx hs
    have hfin := (e.bus y hy).1
    obtain ⟨c, hst, -⟩ := h.finished_station hfin
    exact ⟨y, c, hst, rank_leave h h' hfin fun c hin => ((e.station c y).1 hin).2.2 hy⟩

end Execute

section Start

variable {p' : Pipeline} {ready : Nat → Bool} {started : List Nat} (h : Inv g cycle d p) (h' : Inv g cycle d p')
  (e : p.Started cycle ready c p' started)

include h h' e

theorem rank_started (hpos : 0 < cycle) (hx : x ∈ started) : p'.rank g.toCode cycle x < p.rank g.toCode cycle x := by
  obtain ⟨hst, he, -⟩ := e.startable x hx
  obtain ⟨-, hd, hc, -⟩ := h.station c x hst
  rw [h.rank_dispatched hc hd, h'.rank_dispatched hc hd, if_pos hst, if_pos he, if_pos ((e.station c x).2 hst), e.exec,
    if_pos hx, if_neg hpos.ne']
  have : c.latency ≤ 7 := by cases c <;> decide
  omega

theorem rank_start (hpos : 0 < cycle) (x : Nat) (h0 : 0 < x) : p'.rank g.toCode cycle x ≤ p.rank g.toCode cycle x := by
  refine h.rank_le h' e.fetch_index (fun c' x _ hd hc => ?_) x h0
  by_cases hx : x ∈ started
  · exact (rank_started h h' e hpos hx).le
  · rw [h.rank_dispatched hc hd, h'.rank_dispatched hc hd, e.exec, if_neg hx, e.bus]
    simp only [e.station]
    exact le_refl _

end Start

section Dispatch

variable {i : Nat} (h : Inv g cycle d p) (hn : Next g d p i)

include h hn

/-- When the next instruction leaves the queue, its own rank falls and the others stay. -/
theorem rank_next {p' : Pipeline} (h' : Inv g cycle i p') (hq : p'.fetch_index = p.fetch_index)
    (hother : ∀ c x, 0 < x → x ≤ d → unitOf (g.op x) = some c →
      p'.rank g.toCode cycle x = p.rank g.toCode cycle x) :
    p'.rank g.toCode cycle i < p.rank g.toCode cycle i ∧
      ∀ x, 0 < x → p'.rank g.toCode cycle x ≤ p.rank g.toCode cycle x := by
  have hlt : p'.rank g.toCode cycle i < p.rank g.toCode cycle i := by
    rw [h.rank_queued hn.not_trap hn.lt hn.le]
    cases hc : unitOf (g.op i) with
    | none =>
      rw [h'.rank_control hc (le_refl _)]
      omega
    | some c =>
      rw [h'.rank_dispatched hc (le_refl _)]
      split
      case isTrue hst =>
        split
        case isTrue => omega
        case isFalse he =>
          have : c.latency ≤ 7 := by cases c <;> decide
          have := (h'.exec_now i).1
          omega
      case isFalse => split <;> omega
  refine ⟨hlt, fun x h0 => ?_⟩
  cases ht : IS_TRAP (g.op x) with
  | true => rw [rank_trap ht]; exact Nat.zero_le _
  | false =>
    rcases Nat.lt_trichotomy x i with hx | rfl | hx
    · cases hc : unitOf (g.op x) with
      | none =>
        rw [h'.rank_control hc hx.le]
        exact Nat.zero_le _
      | some c => exact (hother c x h0 ((hn.le_or_eq hx.le hc).resolve_right hx.ne) hc).le
    · exact hlt.le
    · by_cases hf : p.fetch_index < x
      · rw [rank_unfetched ht hf, rank_unfetched ht (hq ▸ hf)]
      · rw [h.rank_queued ht (hn.lt.trans hx) (by omega), h'.rank_queued ht hx (by omega)]

theorem rank_control_lt (hc : unitOf (g.op i) = none) :
    p.pop.rank g.toCode cycle i < p.rank g.toCode cycle i ∧
      ∀ x, 0 < x → p.pop.rank g.toCode cycle x ≤ p.rank g.toCode cycle x := by
  refine h.rank_next hn (h.control hn hc) rfl fun c x _ hd hc' => ?_
  rw [h.rank_dispatched hc' hd, (h.control hn hc).rank_dispatched hc' (hd.trans hn.lt.le)]
  rfl

theorem rank_enter_lt {p' : Pipeline} (hpos : 0 < cycle) (hc : unitOf (g.op i) = some c) (e : p.Entered cycle i c p') :
    p'.pop.rank g.toCode cycle i < p.rank g.toCode cycle i ∧
      ∀ x, 0 < x → p'.pop.rank g.toCode cycle x ≤ p.rank g.toCode cycle x := by
  have h' := h.enter hpos hn hc e
  refine h.rank_next hn h' e.fetch_index fun c' x _ hd hc' => ?_
  have hne : x ≠ i := (hd.trans_lt hn.lt).ne
  have hst : p'.pop.InStation c' x ↔ p.InStation c' x :=
    (e.station c' x).trans ⟨fun hx => hx.resolve_right fun hx => hne hx.2, .inl⟩
  rw [h.rank_dispatched hc' hd, h'.rank_dispatched hc' (hd.trans hn.lt.le), show p'.pop.exec x = p.exec x from e.exec x,
    show p'.pop.commonDataBus = p.commonDataBus from e.bus]
  simp only [hst]

end Dispatch

theorem rank_dispatch (h : Inv g cycle d p) (hpos : 0 < cycle) (x : Nat) (h0 : 0 < x) :
    (p.dispatch_To_issue g.toCode cycle).rank g.toCode cycle x ≤ p.rank g.toCode cycle x := by
  rcases h.oldest_cases with ⟨hold, -⟩ | ⟨i, hold, hn⟩
  · rw [dispatch_of_oldest_none hold]
  · generalize hp : p.dispatch_To_issue g.toCode cycle = p'
    cases hp ▸ dispatched g.toCode cycle hold with
    | hazard c hc hfull => exact le_refl _
    | control hc => exact (h.rank_control_lt hn hc).2 x h0
    | enters c p' hc e => exact (h.rank_enter_lt hn hpos hc e).2 x h0

/-- With every station free, the next instruction is dispatched. -/
theorem rank_dispatch_lt {i : Nat} (h : Inv g cycle d p) (hpos : 0 < cycle) (hfree : ∀ c k, p.reserv c k = none)
    (hold : p.oldest = some i) (hn : Next g d p i) :
    (p.dispatch_To_issue g.toCode cycle).rank g.toCode cycle i < p.rank g.toCode cycle i := by
  generalize hp : p.dispatch_To_issue g.toCode cycle = p'
  cases hp ▸ dispatched g.toCode cycle hold with
  | hazard c hc hfull =>
    have h0 : 0 < c.reservSize := by cases c <;> decide
    exact absurd (hfree c ⟨0, h0⟩) (hfull _)
  | control hc => exact (h.rank_control_lt hn hc).1
  | enters c p' hc e => exact (h.rank_enter_lt hn hpos hc e).1

/-- A fetch moves one instruction from the trace to the queue. -/
theorem rank_fetch (h : Inv g cycle d p) (h' : Inv g cycle d (p.fetch g.toCode cycle)) :
    (p.fetch g.toCode cycle).rank g.toCode cycle (g.nextFetch p.fetch_index) <
        p.rank g.toCode cycle (g.nextFetch p.fetch_index) ∧
      ∀ x, 0 < x → (p.fetch g.toCode cycle).rank g.toCode cycle x ≤ p.rank g.toCode cycle x := by
  obtain ⟨hlt, hnt, htraps⟩ := g.toCode.nextFetch_spec p.fetch_index
  set i := g.nextFetch p.fetch_index
  have hi : (p.fetch g.toCode cycle).rank g.toCode cycle i < p.rank g.toCode cycle i := by
    rw [rank_unfetched hnt hlt, h'.rank_queued hnt (h.order.trans_lt hlt) (le_refl _)]
    omega
  refine ⟨hi, fun x h0 => ?_⟩
  cases ht : IS_TRAP (g.op x) with
  | true => rw [rank_trap ht]; exact Nat.zero_le _
  | false =>
    rcases Nat.lt_trichotomy x i with hx | rfl | hx
    · by_cases hf : p.fetch_index < x
      · rw [htraps x hf hx] at ht
        cases ht
      · by_cases hd : d < x
        · rw [h.rank_queued ht hd (by omega), h'.rank_queued ht hd hx.le]
        · cases hc : unitOf (g.op x) with
          | none =>
            rw [h'.rank_control hc (by omega)]
            exact Nat.zero_le _
          | some c =>
            rw [h.rank_dispatched hc (by omega), h'.rank_dispatched hc (by omega), (fetch_stamps _ _ _ x).2.1]
            exact le_refl _
    · exact hi.le
    · rw [rank_unfetched ht (hlt.trans hx), rank_unfetched ht hx]

theorem rank_fetch_le (h : Inv g cycle d p) (x : Nat) (h0 : 0 < x) :
    (p.fetch_To_dispatch g.toCode cycle).rank g.toCode cycle x ≤ p.rank g.toCode cycle x := by
  have h' := h.fetch
  unfold fetch_To_dispatch at h' ⊢
  split
  case isTrue => exact le_refl _
  case isFalse hlt =>
    rw [if_neg hlt] at h'
    split
    case isTrue hsize => exact (h.rank_fetch (by rwa [if_pos hsize] at h')).2 x h0
    case isFalse => exact le_refl _

/-! ## An instruction in a unit stays there until it has finished -/

/-- An instruction sits in a station of class `c` and started in cycle `e`. -/
def Running (p : Pipeline) (c : Class) (x e : Nat) : Prop := p.InStation c x ∧ p.exec x = e

theorem running_issue (h : Inv g cycle d p) (hpos : 0 < cycle) (hf : ∀ x, p.issue x < cycle) {e : Nat} (he : e ≠ 0)
    (hx : Running p c x e) : Running (g.issue cycle p) c x e := by
  have e₃ := h.issue_frame hpos hf
  refine ⟨by rw [InStation, e₃.reserv]; exact hx.1, ?_⟩
  rcases e₃.exec x with h₁ | ⟨h₀, -⟩
  · exact h₁.trans hx.2
  · exact absurd (hx.2.symm.trans h₀) he

variable (g cycle) in
theorem running_dispatch {e : Nat} (hx : Running p c x e) :
    Running (p.dispatch_To_issue g.toCode cycle) c x e := by
  cases hold : p.oldest with
  | none => rwa [dispatch_of_oldest_none hold]
  | some i =>
    generalize hp : p.dispatch_To_issue g.toCode cycle = p'
    cases hp ▸ dispatched g.toCode cycle hold with
    | hazard c hc hfull => exact hx
    | control hc => exact hx
    | enters c' p' hc ent => exact ⟨(ent.station c x).2 (.inl hx.1), (ent.exec x).trans hx.2⟩

variable (g cycle) in
theorem running_fetch {e : Nat} (hx : Running p c x e) : Running (p.fetch_To_dispatch g.toCode cycle) c x e := by
  unfold fetch_To_dispatch
  split
  · exact hx
  · split
    · exact ⟨hx.1, (fetch_stamps _ _ _ x).2.1.trans hx.2⟩
    · exact hx

/-! ## Some rank falls -/

/-- The oldest instruction in a station is ready, so if none may start there is none. -/
theorem station_empty (h : Inv g cycle d p) (hbus : p.commonDataBus = none) (hfu : ∀ c x, ¬ p.InUnit c x)
    (hs : ∀ c x, ¬ p.Startable (g.ready p) c x) (c : Class) (x : Nat) : ¬ p.InStation c x := by
  induction x using Nat.strong_induction_on generalizing c with
  | _ x ih =>
    intro hx
    obtain ⟨-, hd, hc, -⟩ := h.station c x hx
    have hexec : p.exec x = 0 := by
      by_contra he
      exact hfu c x ((h.unit c x).2 ⟨hx, he⟩)
    refine hs c x ⟨hx, hexec, decide_eq_true fun i hi => ⟨fun hz => ?_, by rw [hbus]; nofun⟩⟩
    -- A producer that has not been on the bus would be an older instruction in a station.
    obtain ⟨h0, hlt⟩ := g.older hi
    have hw := g.writes hi
    obtain ⟨c', hc'⟩ : ∃ c', unitOf (g.op i) = some c' := by
      rw [← Option.isSome_iff_exists, unitOf_isSome, hw, Bool.true_or]
    exact ih i hlt c' (h.stays c' i h0 (hlt.le.trans hd) hc' (.inr ⟨hw, hz⟩))

theorem rank_issue (h : Inv g cycle d p) (hpos : 0 < cycle) (hf : ∀ x, p.issue x < cycle) (x : Nat) (h0 : 0 < x) :
    (g.issue cycle p).rank g.toCode cycle x ≤ p.rank g.toCode cycle x := by
  have hclass {q : Pipeline} {c : Class} (hq : Inv g cycle d q)
      (hq' : Inv g cycle d (q.issueClass cycle (g.ready p) c)) :
      (q.issueClass cycle (g.ready p) c).rank g.toCode cycle x ≤ q.rank g.toCode cycle x := by
    obtain ⟨started, st⟩ := hq.starts (g.ready p) c
    exact rank_start hq hq' st hpos x h0
  have h' := h.issueClass (c := .INT) hpos hf fun _ => h.ready_lt
  exact (hclass h' (h.issue hpos hf)).trans (hclass h h')

/-- With every unit free, a ready instruction starts. -/
theorem rank_issue_lt (h : Inv g cycle d p) (hpos : 0 < cycle) (hf : ∀ x, p.issue x < cycle)
    (hfu : ∀ c x, ¬ p.InUnit c x) (hx : p.Startable (g.ready p) c x) :
    ∃ y c, p.InStation c y ∧ (g.issue cycle p).rank g.toCode cycle y < p.rank g.toCode cycle y := by
  have h' := h.issueClass (c := .INT) hpos hf fun _ => h.ready_lt
  have hall := h.issue hpos hf
  obtain ⟨s₁, e₁⟩ := h.starts (g.ready p) .INT
  obtain ⟨s₂, e₂⟩ := h'.starts (g.ready p) .FP
  by_cases h₁ : s₁ = []
  · by_cases h₂ : s₂ = []
    · -- Nothing started although every unit was free.
      have hidle (y) : ¬ (p.issueClass cycle (g.ready p) .INT).InUnit .FP y := by
        rw [e₁.units]
        exact fun hy => hy.elim (hfu .FP y) fun hy => by rw [h₁] at hy; cases hy.2
      cases c with
      | INT =>
        have hfull := (e₁.first x hx (by rw [h₁]; nofun)).1 ⟨0, by decide⟩
        obtain ⟨y, hy⟩ := Option.ne_none_iff_exists'.1 hfull
        rcases (e₁.unit y).1 ⟨_, hy⟩ with hy | hy
        · exact absurd hy (hfu .INT y)
        · rw [h₁] at hy
          cases hy
      | FP =>
        have hx' : (p.issueClass cycle (g.ready p) .INT).Startable (g.ready p) .FP x := by
          refine ⟨(e₁.station .FP x).2 hx.1, ?_, hx.2.2⟩
          rw [e₁.exec, if_neg (by rw [h₁]; nofun)]
          exact hx.2.1
        have hfull := (e₂.first x hx' (by rw [h₂]; nofun)).1 ⟨0, by decide⟩
        obtain ⟨y, hy⟩ := Option.ne_none_iff_exists'.1 hfull
        rcases (e₂.unit y).1 ⟨_, hy⟩ with hy | hy
        · exact absurd hy (hidle y)
        · rw [h₂] at hy
          cases hy
    · obtain ⟨y, hy⟩ := List.exists_mem_of_ne_nil _ h₂
      have hst := (e₁.station .FP y).1 (e₂.startable y hy).1
      have h0 := (h.station .FP y hst).1
      exact ⟨y, .FP, hst, (rank_started h' hall e₂ hpos hy).trans_le (rank_start h h' e₁ hpos y h0)⟩
  · obtain ⟨y, hy⟩ := List.exists_mem_of_ne_nil _ h₁
    have hst := (e₁.startable y hy).1
    have h0 := (h.station .INT y hst).1
    exact ⟨y, .INT, hst, (rank_start h' hall e₂ hpos y h0).trans_lt (rank_started h h' e₁ hpos hy)⟩

/-- A cycle that does no work for any instruction leaves the pipeline empty. -/
theorem progress (h : Inv g cycle d p) (hf : Fresh cycle p) :
    (g.step cycle p).Drained ∨ (g.step cycle p).work g.toCode (cycle + 1) < p.work g.toCode cycle := by
  have hpos : 0 < cycle := (Nat.zero_le _).trans_lt (hf 0).1
  have h₁ := h.retire hf
  have h₂ := h₁.execute rfl hf
  have hissue₂ := h₁.execute_issue_lt rfl hf
  have h₃ := h₂.issue hpos hissue₂
  obtain ⟨d', h₄⟩ := h₃.dispatch hpos
  have h₅ := h₄.fetch
  have e : p.retire.Executed g.toCode cycle (p.retire.execute_To_CDB g.toCode cycle) :=
    executed _ _ rfl (fun c x hx => (h₁.station c x hx).2.2.1) fun _ _ => h₁.unit_class
  set p₂ := p.retire.execute_To_CDB g.toCode cycle
  set p₃ := g.issue cycle p₂
  set p₄ := p₃.dispatch_To_issue g.toCode cycle
  have w₁ := work_le (h.rank_retire hf)
  have w₂ := work_le (rank_execute h₁ h₂ e)
  have w₃ : p₃.work g.toCode cycle ≤ p₂.work g.toCode cycle := work_le (h₂.rank_issue hpos hissue₂)
  have w₄ : p₄.work g.toCode cycle ≤ p₃.work g.toCode cycle := work_le (h₃.rank_dispatch hpos)
  have w₅ := work_le h₄.rank_fetch_le
  have w₆ := work_le h₅.rank_tick
  rw [or_iff_not_imp_right]
  intro hsame
  change ¬ (p₄.fetch_To_dispatch g.toCode cycle).work g.toCode (cycle + 1) < _ at hsame
  -- No stage did any work, so nothing had finished, ...
  have hfin (x) : ¬ p.retire.Finished cycle x := by
    intro hx
    obtain ⟨y, c, hy, hlt⟩ := rank_execute_lt h₁ h₂ e hx
    have := work_lt (rank_execute h₁ h₂ e) (h₁.station c y hy).1 (h₁.station_le hy) hlt
    omega
  have hbus : p₂.commonDataBus = none := by
    cases hb : p₂.commonDataBus with
    | none => rfl
    | some x => exact absurd (e.bus x hb).1 (hfin x)
  -- ... the units were empty, for time alone is work for who sits there, ...
  have hfu (c x) : ¬ p₂.InUnit c x := by
    intro hx
    obtain ⟨hst, he⟩ := (h₂.unit c x).1 hx
    have hlt : cycle < p₂.exec x + c.latency := by
      by_contra hle
      exact hfin x ⟨c, ((e.unit c x).1 hx).1, by rw [← e.exec]; omega⟩
    obtain ⟨hst', he'⟩ := running_fetch g cycle (running_dispatch g cycle
      (running_issue h₂ hpos hissue₂ he ⟨hst, rfl⟩))
    have := work_lt h₅.rank_tick (h₅.station c x hst').1 (h₅.station_le hst')
      (h₅.rank_tick_lt hst' (by rwa [he']) (by rwa [he']))
    omega
  -- ... so were the stations, whose oldest instruction would have started, ...
  have hready (c x) : ¬ p₂.Startable (g.ready p₂) c x := by
    intro hx
    obtain ⟨y, c', hy, hlt⟩ := h₂.rank_issue_lt hpos hissue₂ hfu hx
    have : p₃.work g.toCode cycle < p₂.work g.toCode cycle :=
      work_lt (h₂.rank_issue hpos hissue₂) (h₂.station c' y hy).1 (h₂.station_le hy) hlt
    omega
  have hst₂ := h₂.station_empty hbus hfu hready
  have e₃ := h₂.issue_frame hpos hissue₂
  have hst₃ (c k) : p₃.reserv c k = none := by
    rw [e₃.reserv]
    exact Option.eq_none_iff_forall_ne_some.2 fun x hx => hst₂ c x ⟨k, hx⟩
  have hfu₃ (c k) : p₃.fu c k = none := by
    refine Option.eq_none_iff_forall_ne_some.2 fun x hx => ?_
    obtain ⟨k', hk'⟩ := ((h₃.unit c x).1 ⟨k, hx⟩).1
    rw [hst₃] at hk'
    cases hk'
  -- ... the queue, whose oldest instruction would have found a station, ...
  rcases h₃.oldest_cases with ⟨hold, hqueue⟩ | ⟨i, hold, hn⟩
  · have hp₄ : p₄ = p₃ := dispatch_of_oldest_none hold
    have hsize := h₃.queue.size_of_empty hqueue
    -- ... and the trace.
    have hend : g.sim_num_insn ≤ p₄.fetch_index := by
      by_contra hlt
      have hfetch : p₄.fetch_To_dispatch g.toCode cycle = p₄.fetch g.toCode cycle := by
        rw [fetch_To_dispatch, if_neg hlt, if_pos (by rw [hp₄, hsize]; decide)]
      have hr := h₄.rank_fetch (hfetch ▸ h₅)
      have hle := Code.nextFetch_le (Nat.not_le.1 hlt) (g.last (by omega))
      have hnext := (g.toCode.nextFetch_spec p₄.fetch_index).1
      rw [hfetch] at w₅ w₆ hsame
      have := work_lt hr.2 ((Nat.zero_le _).trans_lt hnext) hle hr.1
      omega
    have hp₅ : g.step cycle p = p₃ := by
      change p₄.fetch_To_dispatch g.toCode cycle = p₃
      rw [fetch_To_dispatch, if_pos hend, hp₄]
    rw [hp₅]
    exact ⟨hqueue, hst₃, hfu₃, e₃.bus.trans hbus⟩
  · have hlt := h₃.rank_dispatch_lt hpos hst₃ hold hn
    have : p₄.work g.toCode cycle < p₃.work g.toCode cycle :=
      work_lt (h₃.rank_dispatch hpos) ((Nat.zero_le d).trans_lt hn.lt) (hn.le.trans h₃.fetched) hlt
    omega

/-- A pipeline that is empty after a cycle has fetched the whole trace: what is left
of it would be in the queue. -/
theorem step_fetched (h : Inv g cycle d p) (hf : Fresh cycle p) (he : (g.step cycle p).Drained) :
    (g.step cycle p).fetch_index = g.sim_num_insn := by
  have hpos : 0 < cycle := (Nat.zero_le _).trans_lt (hf 0).1
  have h₁ := h.retire hf
  obtain ⟨d', h₄⟩ := ((h₁.execute rfl hf).issue hpos (h₁.execute_issue_lt rfl hf)).dispatch hpos
  obtain ⟨hqueue, -⟩ := he
  change ∀ k, (fetch_To_dispatch g.toCode cycle _).instr_queue k = none at hqueue
  change (fetch_To_dispatch g.toCode cycle _).fetch_index = _
  generalize dispatch_To_issue g.toCode cycle _ = p₄ at h₄ hqueue ⊢
  unfold fetch_To_dispatch at hqueue ⊢
  split
  case isTrue hle => exact le_antisymm h₄.fetched hle
  case isFalse hlt =>
    rw [if_neg hlt] at hqueue
    split at hqueue
    case isTrue => exact nomatch hqueue ⟨0, by decide⟩
    case isFalse hfull =>
      rw [h₄.queue.size_of_empty hqueue] at hfull
      exact absurd (by decide) hfull

end Inv

end Tomasulo
