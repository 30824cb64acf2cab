import CompArch.Tomasulo.Correctness
/-!
# The order of the stage stamps

Dispatch and issue follow program order, one instruction a cycle. From dispatch
to the bus an instruction's own stamps grow, by its unit's latency at the end,
and a cycle has the bus for one instruction only.
-/

namespace Tomasulo

open Pisa

namespace Pipeline

variable {code : Code} {cycle : Nat} {p p' : Pipeline}

abbrev disp (p : Pipeline) (x : Nat) : Nat := (p.stamps x).tom_dispatch_cycle

theorem Executed.disp (h : Executed code cycle p p') (x : Nat) : p'.disp x = p.disp x := by
  rw [Pipeline.disp, h.stamps]
  split <;> rfl

theorem Started.disp {ready : Nat → Bool} {c : Class} {started : List Nat} (h : Started cycle ready c p p' started)
    (x : Nat) : p'.disp x = p.disp x := by
  rw [Pipeline.disp, h.stamps]
  split <;> rfl

theorem Entered.disp {i : Nat} {c : Class} (h : Entered cycle i c p p') (x : Nat) : p'.disp x = p.disp x := by
  rw [Pipeline.disp, h.stamps, Function.update_apply]
  split
  case isTrue hx => rw [hx]
  case isFalse => rfl

variable (code cycle p) in
theorem fetch_disp (x : Nat) :
    (p.fetch code cycle).disp x = if x = code.nextFetch p.fetch_index then cycle else p.disp x := by
  simp only [Pipeline.disp, fetch, Function.update_apply]
  split <;> rfl

end Pipeline

/-! ## Dispatch and issue -/

/-- The dispatch stamps of what has been fetched and the issue stamps follow program order. -/
structure Ordered (g : Dataflow) (p : Pipeline) : Prop where
  dispatched : ∀ x, 0 < x → x ≤ p.fetch_index → IS_TRAP (g.op x) = false → 0 < p.disp x
  dispatch : ∀ i j, i < j → j ≤ p.fetch_index → 0 < i → IS_TRAP (g.op i) = false → IS_TRAP (g.op j) = false →
    p.disp i < p.disp j
  dispatch_issue : ∀ x, p.issue x ≠ 0 → p.disp x < p.issue x
  issue : ∀ i j, i < j → p.issue j ≠ 0 → p.issue i < p.issue j

namespace Ordered

variable {g : Dataflow} {cycle d : Nat} {p p' : Pipeline}

theorem init : Ordered g {} where
  dispatched _ h0 hx := absurd hx (Nat.not_le.2 h0)
  dispatch _ _ hij hj h0 := absurd hj (Nat.not_le.2 (h0.trans hij))
  dispatch_issue _ h := absurd rfl h
  issue _ _ _ h := absurd rfl h

/-- Stages that write other stamps keep the order. -/
theorem of_same (h : Ordered g p) (hd : ∀ x, p'.disp x = p.disp x) (hi : ∀ x, p'.issue x = p.issue x)
    (hf : p'.fetch_index = p.fetch_index) : Ordered g p' where
  dispatched x h0 hx ht := by
    rw [hd]
    exact h.dispatched x h0 (hf ▸ hx) ht
  dispatch i j hij hj h0 hti htj := by
    rw [hd, hd]
    exact h.dispatch i j hij (hf ▸ hj) h0 hti htj
  dispatch_issue x hx := by
    rw [hi] at hx ⊢
    rw [hd]
    exact h.dispatch_issue x hx
  issue i j hij hj := by
    rw [hi] at hj ⊢
    rw [hi]
    exact h.issue i j hij hj

/-- The instruction that enters a station was dispatched in an earlier cycle, and all
that have entered one are older. -/
theorem enter {i : Nat} {c : Class} (h : Ordered g p) (hi : Inv g cycle d p) (hn : Next g d p i)
    (hd : ∀ x, p.disp x < cycle) (hf : ∀ x, p.issue x < cycle) (e : p.Entered cycle i c p') : Ordered g p'.pop := by
  have hdisp (x) : p'.pop.disp x = p.disp x := e.disp x
  have hissue (x) : p'.pop.issue x = if x = i then cycle else p.issue x := e.issue x
  have hfetch : p'.pop.fetch_index = p.fetch_index := e.fetch_index
  -- what has been issued before is not younger than `d`
  have hold {x} (hx : p.issue x ≠ 0) : x < i := by
    by_contra hge
    exact hx (hi.future x (hn.lt.trans_le (Nat.not_lt.1 hge))).1
  constructor
  case dispatched =>
    intro x h0 hx ht
    rw [hdisp]
    exact h.dispatched x h0 (hfetch ▸ hx) ht
  case dispatch =>
    intro a b hab hb h0 hta htb
    rw [hdisp, hdisp]
    exact h.dispatch a b hab (hfetch ▸ hb) h0 hta htb
  case dispatch_issue =>
    intro x hx
    rw [hissue] at hx ⊢
    rw [hdisp]
    split
    case isTrue => exact hd x
    case isFalse hne =>
      rw [if_neg hne] at hx
      exact h.dispatch_issue x hx
  case issue =>
    intro a b hab hb
    rw [hissue] at hb ⊢
    rw [hissue]
    by_cases hbi : b = i
    · subst hbi
      rw [if_neg hab.ne, if_pos rfl]
      exact hf a
    · rw [if_neg hbi] at hb ⊢
      rw [if_neg (hab.trans (hold hb)).ne]
      exact h.issue a b hab hb

theorem dispatch_To_issue (h : Ordered g p) (hi : Inv g cycle d p) (hd : ∀ x, p.disp x < cycle)
    (hf : ∀ x, p.issue x < cycle) : Ordered g (p.dispatch_To_issue g.toCode cycle) ∧
      ∀ x, (p.dispatch_To_issue g.toCode cycle).disp x < cycle := by
  rcases hi.oldest_cases with ⟨hold, -⟩ | ⟨i, hold, hn⟩
  · rw [Pipeline.dispatch_of_oldest_none hold]
    exact ⟨h, hd⟩
  · generalize hp : p.dispatch_To_issue g.toCode cycle = p'
    cases hp ▸ Pipeline.dispatched g.toCode cycle hold with
    | hazard c hc hfull => exact ⟨h, hd⟩
    | control hc => exact ⟨h.of_same (fun _ => rfl) (fun _ => rfl) rfl, hd⟩
    | enters c p' hc e => exact ⟨h.enter hi hn hd hf e, fun x => (e.disp x).symm ▸ hd x⟩

/-- The instruction fetched is the next in program order. -/
theorem fetch_To_dispatch (h : Ordered g p) (hi : Inv g cycle d p) (hpos : 0 < cycle) (hd : ∀ x, p.disp x < cycle) :
    Ordered g (p.fetch_To_dispatch g.toCode cycle) ∧ ∀ x, (p.fetch_To_dispatch g.toCode cycle).disp x ≤ cycle := by
  unfold Pipeline.fetch_To_dispatch
  split
  case isTrue => exact ⟨h, fun x => (hd x).le⟩
  case isFalse =>
    split
    case isFalse => exact ⟨h, fun x => (hd x).le⟩
    case isTrue =>
      obtain ⟨hlt, -, htraps⟩ := g.toCode.nextFetch_spec p.fetch_index
      have hdisp := Pipeline.fetch_disp g.toCode cycle p
      have hissue (x) := (Pipeline.fetch_stamps g.toCode cycle p x).1
      have hfetch : (p.fetch g.toCode cycle).fetch_index = g.nextFetch p.fetch_index := rfl
      generalize p.fetch g.toCode cycle = p' at hdisp hissue hfetch ⊢
      generalize g.nextFetch p.fetch_index = f at hlt htraps hdisp hfetch
      -- up to the new instruction, what is no trap has been fetched before
      have hold {x} (hx : x ≤ f) (hne : x ≠ f) (ht : IS_TRAP (g.op x) = false) : x ≤ p.fetch_index := by
        by_contra hgt
        rw [htraps x (Nat.not_le.1 hgt) (lt_of_le_of_ne hx hne)] at ht
        cases ht
      refine ⟨⟨?dispatched, ?dispatch, ?dispatch_issue, ?issue⟩, fun x => ?now⟩
      case dispatched =>
        intro x h0 hx ht
        rw [hdisp]
        split
        case isTrue => exact hpos
        case isFalse hne => exact h.dispatched x h0 (hold (hfetch ▸ hx) hne ht) ht
      case dispatch =>
        intro a b hab hb h0 hta htb
        rw [hfetch] at hb
        rw [hdisp, hdisp, if_neg (hab.trans_le hb).ne]
        split
        case isTrue => exact hd a
        case isFalse hne => exact h.dispatch a b hab (hold hb hne htb) h0 hta htb
      case dispatch_issue =>
        intro x hx
        rw [hissue] at hx ⊢
        have hne : x ≠ f := by
          rintro rfl
          exact hx (hi.future x (hi.order.trans_lt hlt)).1
        rw [hdisp, if_neg hne]
        exact h.dispatch_issue x hx
      case issue =>
        intro a b hab hb
        rw [hissue] at hb ⊢
        rw [hissue]
        exact h.issue a b hab hb
      case now =>
        rw [hdisp]
        split
        case isTrue => exact le_refl _
        case isFalse => exact (hd x).le

/-- One class of `issue_To_execute`. -/
theorem issueClass (h : Ordered g p) (hi : Inv g cycle d p) (ready : Nat → Bool) (c : Class)
    (hd : ∀ x, p.disp x < cycle) : Ordered g (p.issueClass cycle ready c) ∧
      ∀ x, (p.issueClass cycle ready c).disp x < cycle := by
  obtain ⟨started, e⟩ := hi.starts ready c
  exact ⟨h.of_same e.disp e.issue e.fetch_index, fun x => (e.disp x).symm ▸ hd x⟩

/-- A whole cycle. -/
theorem step (h : Ordered g p) (hi : Inv g cycle d p) (hf : Fresh cycle p) (hd : ∀ x, p.disp x < cycle) :
    Ordered g (g.step cycle p) ∧ ∀ x, (g.step cycle p).disp x ≤ cycle := by
  have hpos : 0 < cycle := (Nat.zero_le _).trans_lt (hf 0).1
  have i₁ := hi.retire hf
  have hissue₂ := i₁.execute_issue_lt rfl hf
  have i₂ := i₁.execute rfl hf
  have i₃ := i₂.issueClass (c := .INT) hpos hissue₂ fun _ => i₂.ready_lt
  have i₄ := i₂.issue hpos hissue₂
  obtain ⟨d', i₅⟩ := i₄.dispatch hpos
  have e : p.retire.Executed g.toCode cycle (p.retire.execute_To_CDB g.toCode cycle) :=
    Pipeline.executed _ _ rfl (fun c x hx => (i₁.station c x hx).2.2.1) fun _ _ => i₁.unit_class
  have h₂ : Ordered g (p.retire.execute_To_CDB g.toCode cycle) := h.of_same e.disp e.issue e.fetch_index
  have hd₂ (x) : (p.retire.execute_To_CDB g.toCode cycle).disp x < cycle := (e.disp x).symm ▸ hd x
  obtain ⟨h₃, hd₃⟩ := h₂.issueClass i₂ (g.ready (p.retire.execute_To_CDB g.toCode cycle)) .INT hd₂
  obtain ⟨h₄, hd₄⟩ := h₃.issueClass i₃ (g.ready (p.retire.execute_To_CDB g.toCode cycle)) .FP hd₃
  have hissue₄ (x) : (g.issue cycle (p.retire.execute_To_CDB g.toCode cycle)).issue x < cycle := by
    rw [(i₂.issue_frame hpos hissue₂).issue]
    exact hissue₂ x
  obtain ⟨h₅, hd₅⟩ := h₄.dispatch_To_issue i₄ hd₄ hissue₄
  exact h₅.fetch_To_dispatch i₅ hpos hd₅

end Ordered

/-! ## Runs of the dataflow machine -/

namespace Dataflow

variable (g : Dataflow)

theorem ordered (k : Nat) : Ordered g (g.after k) ∧ ∀ x, (g.after k).disp x < k + 1 := by
  induction k with
  | zero => exact ⟨.init, fun _ => Nat.one_pos⟩
  | succ k ih =>
    obtain ⟨h, hd⟩ := ih
    obtain ⟨d, hi, hf⟩ := g.start k
    rw [after_succ]
    obtain ⟨h', hd'⟩ := h.step hi hf hd
    exact ⟨h', fun x => Nat.lt_succ_of_le (hd' x)⟩

/-- A bus stamp is a cycle in which the instruction was on the bus. -/
theorem on_bus {k x : Nat} (h : (g.after k).cdb x ≠ 0) :
    0 < (g.after k).cdb x ∧ (g.after ((g.after k).cdb x)).commonDataBus = some x := by
  obtain ⟨h0, -, heq⟩ := stamped_at (f := fun k => (g.after k).cdb x) (fun k => (g.frame k).cdb x) rfl h
  obtain ⟨d, hi⟩ := g.finish h0
  exact ⟨h0, (hi.cdb_now x).2 heq⟩

/-- Only what writes the bus has a bus stamp. -/
theorem writes_of_cdb {k x : Nat} (h : (g.after k).cdb x ≠ 0) : WRITES_CDB (g.op x) = true := by
  obtain ⟨h0, hb⟩ := g.on_bus h
  obtain ⟨d, hi⟩ := g.finish h0
  exact (hi.bus x hb).2.2.1

/-- No two instructions are on the bus in one cycle. -/
theorem cdb_unique {k x y : Nat} (hx : (g.after k).cdb x ≠ 0) (he : (g.after k).cdb x = (g.after k).cdb y) : x = y := by
  have hbx := (g.on_bus hx).2
  have hby := (g.on_bus (he ▸ hx)).2
  rw [← he, hbx] at hby
  exact Option.some.inj hby

end Dataflow

/-! ## Runs of `runTomasulo` -/

/-- The stamps of a run over `trace` that is done. -/
structure StageStamps (trace : Trace) (stamps : Nat → Stamps) : Prop where
  dispatched : ∀ i, 0 < i → i ≤ trace.length → IS_TRAP (get_instr trace i).op = false →
    0 < (stamps i).tom_dispatch_cycle
  dispatch_order : ∀ i j, 0 < i → i < j → j ≤ trace.length → IS_TRAP (get_instr trace i).op = false →
    IS_TRAP (get_instr trace j).op = false → (stamps i).tom_dispatch_cycle < (stamps j).tom_dispatch_cycle
  issue_order : ∀ i j, 0 < i → i < j → j ≤ trace.length → unitOf (get_instr trace i).op ≠ none →
    unitOf (get_instr trace j).op ≠ none → (stamps i).tom_issue_cycle < (stamps j).tom_issue_cycle
  stage_order : ∀ i, 0 < i → i ≤ trace.length → unitOf (get_instr trace i).op ≠ none →
    (stamps i).tom_dispatch_cycle < (stamps i).tom_issue_cycle ∧
      (stamps i).tom_issue_cycle < (stamps i).tom_execute_cycle
  latency : ∀ i c, 0 < i → i ≤ trace.length → unitOf (get_instr trace i).op = some c →
    WRITES_CDB (get_instr trace i).op = true → (stamps i).tom_execute_cycle + c.latency ≤ (stamps i).tom_cdb_cycle
  bus : ∀ i j, i ≠ j → (stamps i).tom_cdb_cycle ≠ 0 → (stamps i).tom_cdb_cycle ≠ (stamps j).tom_cdb_cycle
  no_bus : ∀ i, (IS_STORE (get_instr trace i).op || IS_UNCOND_CTRL (get_instr trace i).op ||
    IS_COND_CTRL (get_instr trace i).op) = true → (stamps i).tom_cdb_cycle = 0

/-- Stores and control instructions do not write the bus. -/
theorem not_writes {op : Opcode} (h : (IS_STORE op || IS_UNCOND_CTRL op || IS_COND_CTRL op) = true) :
    WRITES_CDB op = false := by
  revert h
  cases op <;> decide

/-- The loop ends with the stamps in order, and no control instruction was ever in a station or unit. -/
theorem stage_stamps (trace : Trace) (h : EndsInNoTrap trace) :
    (∃ fuel, (runTomasulo trace fuel).isSome) ∧
      (∀ fuel cycle s, runTomasulo trace fuel = some (cycle, s) → StageStamps trace s.stamps) ∧
        ∀ k c i, (IS_UNCOND_CTRL (get_instr trace i).op || IS_COND_CTRL (get_instr trace i).op) = true →
          ¬ (State.after trace k).InStation c i ∧ ¬ (State.after trace k).InUnit c i := by
  refine ⟨returns h, fun fuel cycle s hr => ?_, fun k c i hctrl => ?_⟩
  · obtain ⟨m, -, -, he, hc, -⟩ := returned h hr
    obtain ⟨ho, -⟩ := (trace.dataflow h).ordered (m + 1)
    obtain ⟨d, hi⟩ := (trace.dataflow h).finish (Nat.succ_pos m)
    have hbus {i} := (trace.dataflow h).writes_of_cdb (k := m + 1) (x := i)
    have huniq {i j} := (trace.dataflow h).cdb_unique (k := m + 1) (x := i) (y := j)
    rw [← he] at ho hi hbus huniq
    have hstamps {i} (h0 : 0 < i) (hi' : i ≤ trace.length) (hu : unitOf (get_instr trace i).op ≠ none) :
        s.issue i ≠ 0 ∧ s.exec i ≠ 0 ∧ (WRITES_CDB (get_instr trace i).op = true → s.cdb i ≠ 0) := by
      obtain ⟨c, hunit⟩ := Option.ne_none_iff_exists'.1 hu
      exact hc.stamps hi h0 hi' hunit
    have hfetched {i} (hi' : i ≤ trace.length) : i ≤ s.fetch_index := hc.fetched ▸ hi'
    constructor
    case dispatched => exact fun i h0 hi' ht => ho.dispatched i h0 (hfetched hi') ht
    case dispatch_order => exact fun i j h0 hij hj hti htj => ho.dispatch i j hij (hfetched hj) h0 hti htj
    case issue_order => exact fun i j h0 hij hj _ huj => ho.issue i j hij (hstamps (h0.trans hij) hj huj).1
    case stage_order =>
      intro i h0 hi' hu
      obtain ⟨hissue, hexec, -⟩ := hstamps h0 hi' hu
      exact ⟨ho.dispatch_issue i hissue, hi.started i hexec⟩
    case latency =>
      intro i c h0 hi' hu hw
      obtain ⟨c', hu', -, hlat⟩ := hi.done i ((hstamps h0 hi' (by rw [hu]; nofun)).2.2 hw)
      obtain rfl : c = c' := Option.some.inj (hu.symm.trans hu')
      exact hlat
    case bus => exact fun i j hij h0 heq => hij (huniq h0 heq)
    case no_bus =>
      intro i hn
      by_contra h0
      have hw : WRITES_CDB (get_instr trace i).op = true := hbus h0
      rw [not_writes hn] at hw
      cases hw
  · have hst (c) : ¬ (State.after trace k).InStation c i := by
      intro hin
      obtain ⟨-, d, hi, -⟩ := State.after_eq h k
      have hu := (hi.station c i hin).2.2.1
      change unitOf (get_instr trace i).op = some c at hu
      rw [unitOf_control hctrl] at hu
      cases hu
    refine ⟨hst c, fun hin => ?_⟩
    obtain ⟨-, d, hi, -⟩ := State.after_eq h k
    exact hst c ((hi.unit c i).1 hin).1

theorem stage_stamps_loadAdd : ∃ fuel cycle s, runTomasulo loadAdd fuel = some (cycle, s) ∧
    (s.stamps 1).tom_issue_cycle < (s.stamps 2).tom_issue_cycle := by
  obtain ⟨⟨fuel, hf⟩, hall, -⟩ := stage_stamps loadAdd loadAdd_ends
  obtain ⟨⟨cycle, s⟩, hr⟩ := Option.isSome_iff_exists.1 hf
  exact ⟨fuel, cycle, s, hr,
    (hall fuel cycle s hr).issue_order 1 2 Nat.one_pos Nat.one_lt_two (le_refl _) (by decide) (by decide)⟩

end Tomasulo
