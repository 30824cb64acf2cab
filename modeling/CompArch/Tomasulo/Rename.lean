import Mathlib.Data.Finset.Dedup
import CompArch.Tomasulo.Invariant
/-!
# Tags are the producers that have not retired

The map table holds the youngest dispatched writer of each register until it has
left the bus, and the tags of a station are the producers of its instruction that
have not. So the pipeline of `tomasulo.c` moves as the dataflow machine does.
-/

namespace Tomasulo

open Pisa

/-! ## Producers -/

/-- An instruction whose result goes to register `r`: no control instruction and no trap. -/
def Writes (trace : Trace) (i : Nat) (r : Reg) : Prop :=
  IS_TRAP (get_instr trace i).op = false ∧
    (IS_UNCOND_CTRL (get_instr trace i).op || IS_COND_CTRL (get_instr trace i).op) = false ∧
    ∃ l, (get_instr trace i).r_out l = some r

instance (trace : Trace) (i : Nat) (r : Reg) : Decidable (Writes trace i r) := inferInstanceAs (Decidable (_ ∧ _))

/-- The youngest instruction before `j` that writes `r`. -/
structure YoungestWriter (trace : Trace) (r : Reg) (j i : Nat) : Prop where
  pos : 0 < i
  older : i < j
  writes : Writes trace i r
  last : ∀ y, i < y → y < j → ¬ Writes trace y r

/-- `j` reads what `i` wrote: `i` is the youngest writer of one of its input registers. -/
def RawProducer (trace : Trace) (j i : Nat) : Prop :=
  ∃ k r, (get_instr trace j).r_in k = some r ∧ 0 < r.val ∧ YoungestWriter trace r j i

/-- The youngest writer of `r` up to `d`. -/
def lastWriter (trace : Trace) (r : Reg) : Nat → Option Nat
  | 0 => none
  | d + 1 => if Writes trace (d + 1) r then some (d + 1) else lastWriter trace r d

/-- The writer of input `k` of instruction `j`. -/
def producer (trace : Trace) (j : Nat) (k : Fin 3) : Option Nat :=
  (State.register ((get_instr trace j).r_in k)).bind fun r => lastWriter trace r (j - 1)

def rawProducers (trace : Trace) (j : Nat) : Finset Nat := ((List.finRange 3).filterMap (producer trace j)).toFinset

theorem register_eq_some {o : Operand} {r : Reg} : State.register o = some r ↔ o = some r ∧ 0 < r.val := by
  simp [State.register, Option.filter_eq_some_iff]

variable {trace : Trace}

theorem lastWriter_eq_some {r : Reg} {d i : Nat} :
    lastWriter trace r d = some i ↔ YoungestWriter trace r (d + 1) i := by
  induction d with
  | zero =>
    constructor
    · nofun
    · intro h
      have := h.pos
      have := h.older
      omega
  | succ d ih =>
    unfold lastWriter
    split
    case isTrue hw =>
      constructor
      · rintro h
        obtain rfl := Option.some.inj h
        exact ⟨Nat.succ_pos d, Nat.lt_succ_self _, hw, fun y h1 h2 => absurd h2 (by omega)⟩
      · intro h
        have := h.older
        by_contra hne
        exact h.last (d + 1) (lt_of_le_of_ne (by omega) fun he => hne (congrArg some he.symm)) (Nat.lt_succ_self _) hw
    case isFalse hw =>
      rw [ih]
      constructor
      · intro h
        refine ⟨h.pos, h.older.trans (Nat.lt_succ_self _), h.writes, fun y h1 h2 => ?_⟩
        by_cases hy : y = d + 1
        · exact hy ▸ hw
        · exact h.last y h1 (by omega)
      · intro h
        have := h.older
        have hne : i ≠ d + 1 := fun he => hw (he ▸ h.writes)
        exact ⟨h.pos, by omega, h.writes, fun y h1 h2 => h.last y h1 (by omega)⟩

theorem mem_rawProducers {j i : Nat} : i ∈ rawProducers trace j ↔ RawProducer trace j i := by
  rw [rawProducers, List.mem_toFinset, List.mem_filterMap]
  constructor
  · rintro ⟨k, -, hk⟩
    obtain ⟨r, hr, hi⟩ := Option.bind_eq_some_iff.1 hk
    obtain ⟨hin, h0⟩ := register_eq_some.1 hr
    have hw := lastWriter_eq_some.1 hi
    have := hw.pos
    have := hw.older
    exact ⟨k, r, hin, h0, (show j - 1 + 1 = j by omega) ▸ hw⟩
  · rintro ⟨k, r, hin, h0, hw⟩
    have := hw.pos
    have := hw.older
    refine ⟨k, List.mem_finRange k, Option.bind_eq_some_iff.2 ⟨r, register_eq_some.2 ⟨hin, h0⟩, ?_⟩⟩
    rw [lastWriter_eq_some, show j - 1 + 1 = j by omega]
    exact hw

/-- Over traps alone the youngest writer stays. -/
theorem lastWriter_traps {r : Reg} {d m : Nat} (hle : d ≤ m)
    (h : ∀ y, d < y → y ≤ m → IS_TRAP (get_instr trace y).op = true) : lastWriter trace r m = lastWriter trace r d := by
  induction m, hle using Nat.le_induction with
  | base => rfl
  | succ m hdm ih =>
    rw [lastWriter, if_neg, ih fun y h1 h2 => h y h1 (by omega)]
    intro hw
    have := h (m + 1) (by omega) (le_refl _)
    rw [hw.1] at this
    cases this

/-- What neither writes the bus nor is a control instruction has no output register. -/
theorem no_outputs {i : Inst} (hw : WRITES_CDB i.op = false)
    (hc : (IS_UNCOND_CTRL i.op || IS_COND_CTRL i.op) = false) : i.deps.O1 = none ∧ i.deps.O2 = none := by
  obtain ⟨op, RS, RT, RD⟩ := i
  dsimp only at hw hc
  cases op <;> first
    | exact ⟨rfl, rfl⟩
    | exact absurd hw (by decide)
    | exact absurd hc (by decide)

theorem Writes.writes_cdb {i : Nat} {r : Reg} (h : Writes trace i r) : WRITES_CDB (get_instr trace i).op = true := by
  obtain ⟨-, hc, l, hl⟩ := h
  by_contra hw
  obtain ⟨h1, h2⟩ := no_outputs (Bool.eq_false_iff.2 hw) hc
  match l with
  | 0 => exact nomatch h1.symm.trans hl
  | 1 => exact nomatch h2.symm.trans hl

/-- The last instruction is not a trap. -/
def EndsInNoTrap (trace : Trace) : Prop := ∀ i, trace.getLast? = some i → IS_TRAP i.op = false

/-- The dataflow machine of a trace. -/
def Trace.dataflow (trace : Trace) (h : EndsInNoTrap trace) : Dataflow where
  toCode := trace.code
  last h0 := by
    change IS_TRAP (get_instr trace trace.length).op = false
    obtain ⟨n, hn⟩ : ∃ n, trace.length = n + 1 := ⟨trace.length - 1, by have : 0 < trace.length := h0; omega⟩
    rw [hn, get_instr, List.getD_eq_getElem?_getD]
    have := List.getLast?_eq_getElem? (l := trace)
    rw [hn, Nat.add_sub_cancel] at this
    rw [← this]
    cases hl : trace.getLast? with
    | none => rfl
    | some i => exact h i hl
  producers := rawProducers trace
  older hi := by
    obtain ⟨k, r, -, -, hw⟩ := mem_rawProducers.1 hi
    exact ⟨hw.pos, hw.older⟩
  writes hi := by
    obtain ⟨k, r, -, -, hw⟩ := mem_rawProducers.1 hi
    exact hw.writes.writes_cdb

/-! ## The tags -/

/-- The result is still waited for. -/
def Pipeline.unretired (p : Pipeline) (i : Nat) : Bool := decide (¬ p.Retired i)

/-- The map table and the tags, when instructions up to `d` have been dispatched. -/
structure Tags (trace : Trace) (d : Nat) (s : State) : Prop where
  map : ∀ r, s.map_table r = if 0 < r.val then (lastWriter trace r d).filter s.unretired else none
  tag : ∀ c x k, s.InStation c x → s.Q x k = (producer trace x k).filter s.unretired
  untouched : ∀ x k, d < x → s.Q x k = none

namespace Tags

variable {g : Dataflow} {cycle d : Nat} {s : State}

theorem init : Tags trace 0 {} where
  map r := by
    change none = _
    split <;> rfl
  tag _ _ _ h := nomatch h
  untouched _ _ _ := rfl

/-- A tag that names the retiring instruction is cleared, and no other. -/
theorem clear_filter {u u' : Nat → Bool} {i : Nat} (hu : ∀ y, u' y = (u y && y != i)) (o : Option Nat) :
    (if o.filter u = some i then none else o.filter u) = o.filter u' := by
  cases o with
  | none => rfl
  | some y =>
    simp only [Option.filter_some, hu]
    by_cases hy : y = i
    · subst hy
      cases u y <;> simp
    · have : (y != i) = true := by simpa using hy
      rw [this, Bool.and_true]
      split
      · rw [if_neg fun h => hy (Option.some.inj h)]
      · rfl

theorem retire (h : Tags trace d s) (hi : Inv g cycle d s.toPipeline) :
    Tags trace d s.CDB_To_retire ∧ s.CDB_To_retire.toPipeline = s.retire := by
  unfold State.CDB_To_retire
  split
  case h_1 hb => exact ⟨h, by rw [Pipeline.retire, ← hb]⟩
  case h_2 i hb =>
    have hu (y) : s.retire.unretired y = (s.unretired y && y != i) := by
      have hz := (hi.bus i hb).2.2.2
      by_cases hy : y = i
      · subst hy
        simp [Pipeline.unretired, Pipeline.Retired, Pipeline.retire, Pipeline.cdb, hz]
      · have hne : i ≠ y := fun he => hy he.symm
        simp [Pipeline.unretired, Pipeline.Retired, Pipeline.retire, Pipeline.cdb, hb, hy, hne]
    refine ⟨⟨fun r => ?_, fun c x k hx => ?_, fun x k hx => ?_⟩, rfl⟩
    · simp only [h.map r]
      split
      · exact clear_filter hu _
      · rfl
    · have hst : ∃ c, (s.reserv c).Holds x := ⟨c, hx⟩
      simp only [hst, true_and, h.tag c x k hx]
      exact clear_filter hu _
    · simp only [h.untouched x k hx, reduceCtorEq, and_false, if_false]

/-- Stages that move no instruction into a station and retire none keep the tags. -/
theorem of_same {p' : Pipeline} (h : Tags trace d s) (hu : ∀ y, p'.unretired y = s.unretired y)
    (hst : ∀ c x, p'.InStation c x → s.InStation c x) : Tags trace d { s with toPipeline := p' } := by
  have hu : p'.unretired = s.unretired := funext hu
  refine ⟨fun r => ?_, fun c x k hx => ?_, h.untouched⟩
  · exact (h.map r).trans (by rw [hu])
  · exact (h.tag c x k (hst c x hx)).trans (by rw [hu])

theorem unretired_congr {p p' : Pipeline} {y : Nat} (h : p'.Retired y ↔ p.Retired y) :
    p'.unretired y = p.unretired y := by
  unfold Pipeline.unretired
  exact decide_eq_decide.2 (not_congr h)

theorem execute (h : Tags trace d s) (hi : Inv g cycle d s.toPipeline) (hbus : s.commonDataBus = none)
    (hcode : g.toCode = trace.code) : Tags trace d (s.execute_To_CDB trace cycle) := by
  have e : s.Executed g.toCode cycle (s.toPipeline.execute_To_CDB g.toCode cycle) :=
    Pipeline.executed _ _ hbus (fun c x hx => (hi.station c x hx).2.2.1) fun _ _ => hi.unit_class
  rw [hcode] at e
  refine h.of_same (fun y => unretired_congr ?_) fun c x hx => ((e.station c x).1 hx).1
  rw [Pipeline.Retired, Pipeline.Retired, e.cdb, hbus]
  by_cases hb : (s.toPipeline.execute_To_CDB trace.code cycle).commonDataBus = some y
  · obtain ⟨⟨c, hin, -⟩, -⟩ := e.bus y hb
    have hz := (hi.station c y ((hi.unit c y).1 hin).1).2.2.2
    simp [hb, hz]
  · simp [hb]

/-- The tests of the `Q` fields see exactly the retired producers. -/
theorem ready_iff (h : Tags trace d s) (hg : g.producers = rawProducers trace) {c : Class} {x : Nat}
    (hx : s.InStation c x) : s.ready x = g.ready s.toPipeline x := by
  unfold State.ready Dataflow.ready
  refine decide_eq_decide.2 ?_
  simp only [h.tag c x _ hx, Option.filter_eq_none_iff, hg, rawProducers, List.mem_toFinset, List.mem_filterMap,
    List.mem_finRange, true_and, forall_exists_index, Pipeline.unretired, decide_eq_true_eq, not_not]
  exact forall_comm

theorem issue (h : Tags trace d s) (hi : Inv g cycle d s.toPipeline) (hpos : 0 < cycle)
    (hf : ∀ x, s.issue x < cycle) (hg : g.producers = rawProducers trace) :
    Tags trace d (s.issue_To_execute cycle) ∧ (s.issue_To_execute cycle).toPipeline = g.issue cycle s.toPipeline := by
  obtain ⟨started, e₁⟩ := hi.starts (g.ready s.toPipeline) .INT
  have heq : s.toPipeline.issue_To_execute cycle s.ready = g.issue cycle s.toPipeline := by
    unfold Dataflow.issue Pipeline.issue_To_execute
    rw [Pipeline.issueClass_congr (c := .INT) fun x hx => h.ready_iff hg hx,
      Pipeline.issueClass_congr (c := .FP) fun x hx => h.ready_iff hg ((e₁.station .FP x).1 hx)]
  have e := hi.issue_frame hpos hf
  refine ⟨?_, heq⟩
  unfold State.issue_To_execute
  rw [heq]
  refine h.of_same (fun y => unretired_congr ?_) fun c x hx => ?_
  · rw [Pipeline.Retired, Pipeline.Retired, e.cdb, e.bus]
  · rwa [Pipeline.InStation, e.reserv] at hx

theorem fetch (h : Tags trace d s) : Tags trace d (s.fetch_To_dispatch trace cycle) := by
  unfold State.fetch_To_dispatch Pipeline.fetch_To_dispatch
  split
  · exact h
  · split
    · refine h.of_same (fun y => unretired_congr ?_) fun c x hx => hx
      rw [Pipeline.Retired, (Pipeline.fetch_stamps _ _ _ y).2.2]
      exact Iff.rfl
    · exact h

/-! ### Dispatch -/

variable (trace) in
/-- Before the next instruction, the youngest writer is the youngest dispatched one. -/
theorem lastWriter_next (r : Reg) {i : Nat} (hlt : d < i)
    (ht : ∀ y, d < y → y < i → IS_TRAP (get_instr trace y).op = true) :
    lastWriter trace r (i - 1) = lastWriter trace r d ∧
      lastWriter trace r i = if Writes trace i r then some i else lastWriter trace r d := by
  have hprev : lastWriter trace r (i - 1) = lastWriter trace r d :=
    lastWriter_traps (by omega) fun y h1 h2 => ht y h1 (by omega)
  refine ⟨hprev, ?_⟩
  obtain ⟨m, rfl⟩ : ∃ m, i = m + 1 := ⟨i - 1, by omega⟩
  rw [lastWriter]
  exact congrArg _ hprev

/-- Renaming the next instruction keeps the tags, when it moves to pipeline `p'`. -/
theorem rename {i : Nat} {p' : Pipeline} (h : Tags trace d s) (hi : Inv g cycle d s.toPipeline)
    (hn : Next g d s.toPipeline i) (hcode : g.toCode = trace.code)
    (hret : ∀ y, p'.Retired y ↔ s.Retired y)
    (hst : ∀ c x, p'.InStation c x → s.InStation c x ∨ unitOf (get_instr trace i).op = some c ∧ x = i) :
    Tags trace i { s.rename trace i with toPipeline := p' } := by
  have hop (y) : g.op y = (get_instr trace y).op := by rw [hcode]; rfl
  have hnt : IS_TRAP (get_instr trace i).op = false := hop i ▸ hn.not_trap
  have hu : p'.unretired = s.unretired := funext fun y => unretired_congr (hret y)
  have hw (r) := lastWriter_next trace r hn.lt fun y h1 h2 => hop y ▸ hn.traps y h1 h2
  have hui : s.unretired i = true := decide_eq_true fun hr => hr.1 (hi.future i hn.lt).2.2
  unfold State.rename
  dsimp only
  cases hctrl : IS_UNCOND_CTRL (get_instr trace i).op || IS_COND_CTRL (get_instr trace i).op with
  | true =>
    refine ⟨fun r => ?_, fun c x k hx => ?_, fun x k hx => h.untouched x k (hn.lt.trans hx)⟩
    · have hnw : ¬ Writes trace i r := fun hw => nomatch hctrl.symm.trans hw.2.1
      rw [(hw r).2, if_neg hnw, hu]
      exact h.map r
    · rcases hst c x hx with hx | ⟨hc, -⟩
      · exact (h.tag c x k hx).trans (by rw [hu])
      · rw [unitOf_control hctrl] at hc
        cases hc
  | false =>
    simp only [Bool.false_eq_true, if_false]
    refine ⟨fun r => ?_, fun c x k hx => ?_, fun x k hx => ?_⟩
    · have hiff : (∃ j, State.register ((get_instr trace i).r_out j) = some r) ↔ 0 < r.val ∧ Writes trace i r := by
        simp only [register_eq_some, exists_and_right, Writes, hnt, hctrl, true_and]
        exact and_comm
      simp only [hiff, hu]
      by_cases h0 : 0 < r.val
      · rw [if_pos h0, (hw r).2]
        by_cases hwr : Writes trace i r
        · rw [if_pos ⟨h0, hwr⟩, if_pos hwr, Option.filter_some, if_pos hui]
        · rw [if_neg fun h => hwr h.2, if_neg hwr, h.map r, if_pos h0]
      · rw [if_neg h0, if_neg fun h => h0 h.1, h.map r, if_neg h0]
    · dsimp only
      rw [hu]
      by_cases hxi : x = i
      · subst hxi
        rw [Function.update_self, producer]
        cases hr : State.register ((get_instr trace x).r_in k) with
        | none => exact h.untouched x k hn.lt
        | some r =>
          have h0 := (register_eq_some.1 hr).2
          rw [Option.bind_some, (hw r).1]
          exact (h.map r).trans (if_pos h0)
      · rw [Function.update_of_ne hxi]
        exact h.tag c x k ((hst c x hx).resolve_right fun h => hxi h.2)
    · dsimp only
      rw [Function.update_of_ne hx.ne']
      exact h.untouched x k (hn.lt.trans hx)

theorem dispatch (h : Tags trace d s) (hi : Inv g cycle d s.toPipeline) (hpos : 0 < cycle)
    (hcode : g.toCode = trace.code) :
    (s.dispatch_To_issue trace cycle).toPipeline = s.toPipeline.dispatch_To_issue g.toCode cycle ∧
      ∃ d', Inv g cycle d' (s.dispatch_To_issue trace cycle).toPipeline ∧
        Tags trace d' (s.dispatch_To_issue trace cycle) := by
  unfold State.dispatch_To_issue Pipeline.dispatch_To_issue
  rw [← hcode]
  have hop (y) : g.op y = (get_instr trace y).op := by rw [hcode]; rfl
  rcases hi.oldest_cases with ⟨hold, -⟩ | ⟨i, hold, hn⟩
  · rw [hold]
    exact ⟨rfl, d, hi, h⟩
  · rw [hold]
    dsimp only
    cases he : s.toPipeline.enter g.toCode cycle i with
    | none => exact ⟨rfl, d, hi, h⟩
    | some p' =>
      refine ⟨rfl, i, ?_⟩
      rcases Pipeline.enter_eq_some he with ⟨hc, rfl⟩ | ⟨c, hc, e⟩
      · exact ⟨hi.control hn hc, h.rename hi hn hcode (fun _ => Iff.rfl) fun c x hx => .inl hx⟩
      · refine ⟨hi.enter hpos hn hc e, h.rename hi hn hcode (fun y => ?_) fun c' x hx => ?_⟩
        · rw [Pipeline.Retired, Pipeline.Retired, show p'.pop.cdb y = s.cdb y from e.cdb y,
            show p'.pop.commonDataBus = s.commonDataBus from e.bus]
        · exact ((e.station c' x).1 hx).imp_right fun hx => ⟨by rw [hx.1, ← hop]; exact hc, hx.2⟩

/-! ## A cycle of `runTomasulo` is a cycle of the dataflow machine -/

/-- Once the pipeline is empty, no register waits for a result. -/
theorem map_empty (h : Tags trace d s) (hi : Inv g cycle d s.toPipeline) (hcode : g.toCode = trace.code)
    (he : s.Drained) (r : Reg) : s.map_table r = none := by
  obtain ⟨-, hst, -, hbus⟩ := he
  rw [h.map r]
  split
  case isFalse => rfl
  case isTrue =>
    rw [Option.filter_eq_none_iff]
    intro i hiw
    have hw := lastWriter_eq_some.1 hiw
    have hcdb : WRITES_CDB (g.op i) = true := by
      rw [hcode]
      exact hw.writes.writes_cdb
    obtain ⟨c, hc⟩ : ∃ c, unitOf (g.op i) = some c := by
      rw [← Option.isSome_iff_exists, unitOf_isSome, hcdb, Bool.true_or]
    -- A writer that has not been on the bus would still sit in a station.
    have hz : s.cdb i ≠ 0 := fun hz => by
      obtain ⟨k, hk⟩ := hi.stays c i hw.pos (Nat.lt_succ_iff.1 hw.older) hc (.inr ⟨hcdb, hz⟩)
      rw [hst] at hk
      cases hk
    simp [Pipeline.unretired, Pipeline.Retired, hz, hbus]

theorem step (h : Tags trace d s) (hi : Inv g cycle d s.toPipeline) (hf : Fresh cycle s.toPipeline)
    (hcode : g.toCode = trace.code) (hg : g.producers = rawProducers trace) :
    (s.step trace cycle).toPipeline = g.step cycle s.toPipeline ∧
      ∃ d', Inv g cycle d' (s.step trace cycle).toPipeline ∧ Tags trace d' (s.step trace cycle) := by
  have hpos : 0 < cycle := (Nat.zero_le _).trans_lt (hf 0).1
  obtain ⟨t₁, e₁⟩ := h.retire hi
  have hi₁ := e₁ ▸ hi.retire hf
  have hf₁ : Fresh cycle s.CDB_To_retire.toPipeline := e₁ ▸ hf
  have hb₁ : s.CDB_To_retire.commonDataBus = none := by rw [e₁]; rfl
  have t₂ := t₁.execute hi₁ hb₁ hcode
  have hi₂ := hi₁.execute hb₁ hf₁
  have hissue := hi₁.execute_issue_lt hb₁ hf₁
  rw [hcode] at hi₂ hissue
  obtain ⟨t₃, e₃⟩ := t₂.issue hi₂ hpos hissue hg
  have hi₃ := e₃ ▸ hi₂.issue hpos hissue
  obtain ⟨e₄, d', hi₄, t₄⟩ := t₃.dispatch hi₃ hpos hcode
  refine ⟨?_, d', ?_, t₄.fetch⟩
  · unfold State.step State.fetch_To_dispatch Dataflow.step
    dsimp only
    rw [e₄, e₃, ← hcode, ← e₁]
    unfold State.execute_To_CDB
    dsimp only
    rw [hcode]
  · have := hi₄.fetch
    rwa [hcode] at this

end Tags

end Tomasulo
