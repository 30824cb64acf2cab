import CompArch.Tomasulo.Dataflow
/-!
# Where every instruction is

One invariant for any moment of a cycle, kept by each stage of the dataflow
machine. Instructions up to `d` have been dispatched; the queue holds what was
fetched behind it.
-/

namespace Tomasulo

open Pisa

structure Inv (g : Dataflow) (cycle d : Nat) (p : Pipeline) : Prop where
  queue : p.Queued (g.between d p.fetch_index).reverse
  order : d ≤ p.fetch_index
  fetched : p.fetch_index ≤ g.sim_num_insn
  reserv : ∀ c, (p.reserv c).Distinct
  fu : ∀ c, (p.fu c).Distinct
  station : ∀ c x, p.InStation c x → 0 < x ∧ x ≤ d ∧ unitOf (g.op x) = some c ∧ p.cdb x = 0
  unit : ∀ c x, p.InUnit c x ↔ p.InStation c x ∧ p.exec x ≠ 0
  /-- A dispatched instruction stays in its station until it is done. -/
  stays : ∀ c x, 0 < x → x ≤ d → unitOf (g.op x) = some c →
    (p.exec x = 0 ∨ WRITES_CDB (g.op x) = true ∧ p.cdb x = 0) → p.InStation c x
  bus : ∀ x, p.commonDataBus = some x → 0 < x ∧ x ≤ d ∧ WRITES_CDB (g.op x) = true ∧ p.cdb x ≠ 0
  issued : ∀ c x, 0 < x → x ≤ d → unitOf (g.op x) = some c → p.issue x ≠ 0
  future : ∀ x, d < x → p.issue x = 0 ∧ p.exec x = 0 ∧ p.cdb x = 0
  started : ∀ x, p.exec x ≠ 0 → p.issue x < p.exec x
  done : ∀ x, p.cdb x ≠ 0 → ∃ c, unitOf (g.op x) = some c ∧ p.exec x ≠ 0 ∧ p.exec x + c.latency ≤ p.cdb x
  /-- Nothing starts before the cycle after its producers were on the bus. -/
  raw : ∀ x, p.exec x ≠ 0 → ∀ i ∈ g.producers x, p.Retired i ∧ p.cdb i < p.exec x
  /-- What was stamped in this cycle is still where the stamp says. -/
  issue_now : ∀ x, p.issue x ≤ cycle ∧ (p.issue x = cycle → ∃ c, p.InStation c x)
  exec_now : ∀ x, p.exec x ≤ cycle ∧ (p.exec x = cycle → ∃ c, p.InUnit c x)
  cdb_now : ∀ x, p.cdb x ≤ cycle ∧ (p.cdb x = cycle → p.commonDataBus = some x)

/-- No stamp of this cycle yet. -/
def Fresh (cycle : Nat) (p : Pipeline) : Prop := ∀ x, p.issue x < cycle ∧ p.exec x < cycle ∧ p.cdb x < cycle

namespace Inv

variable {g : Dataflow} {cycle d : Nat} {p : Pipeline}

theorem init : Inv g 1 0 {} where
  queue := by
    refine ⟨?_, ?_, fun k => ?_⟩ <;> simp [Code.between]
  order := le_refl _
  fetched := Nat.zero_le _
  reserv _ _ _ _ h := nomatch h
  fu _ _ _ _ h := nomatch h
  station _ _ h := nomatch h
  unit _ _ := ⟨fun h => (nomatch h), fun h => (nomatch h.1)⟩
  stays _ x h0 hd := absurd hd (by omega)
  bus _ h := nomatch h
  issued _ x h0 hd := absurd hd (by omega)
  future _ _ := ⟨rfl, rfl, rfl⟩
  started _ h := absurd rfl h
  done _ h := absurd rfl h
  raw _ h := absurd rfl h
  issue_now _ := ⟨Nat.zero_le _, nofun⟩
  exec_now _ := ⟨Nat.zero_le _, nofun⟩
  cdb_now _ := ⟨Nat.zero_le _, nofun⟩

theorem fresh_init : Fresh 1 {} := fun _ => ⟨Nat.one_pos, Nat.one_pos, Nat.one_pos⟩

/-- At the end of a cycle all stamps are older than the next. -/
theorem fresh (h : Inv g cycle d p) : Fresh (cycle + 1) p := fun x =>
  ⟨Nat.lt_succ_of_le (h.issue_now x).1, Nat.lt_succ_of_le (h.exec_now x).1, Nat.lt_succ_of_le (h.cdb_now x).1⟩

theorem tick (h : Inv g cycle d p) : Inv g (cycle + 1) d p where
  queue := h.queue
  order := h.order
  fetched := h.fetched
  reserv := h.reserv
  fu := h.fu
  station := h.station
  unit := h.unit
  stays := h.stays
  bus := h.bus
  issued := h.issued
  future := h.future
  started := h.started
  done := h.done
  raw := h.raw
  issue_now x := ⟨(h.fresh x).1.le, fun he => absurd he (h.fresh x).1.ne⟩
  exec_now x := ⟨(h.fresh x).2.1.le, fun he => absurd he (h.fresh x).2.1.ne⟩
  cdb_now x := ⟨(h.fresh x).2.2.le, fun he => absurd he (h.fresh x).2.2.ne⟩

/-- The class of an instruction is where it sits. -/
theorem unit_class (h : Inv g cycle d p) {c : Class} {x : Nat} (hx : p.InUnit c x) : unitOf (g.op x) = some c :=
  (h.station c x ((h.unit c x).1 hx).1).2.2.1

/-! ## The stages -/

theorem retire (h : Inv g cycle d p) (hf : Fresh cycle p) : Inv g cycle d p.retire where
  queue := ⟨h.queue.size, h.queue.fits, h.queue.slot⟩
  order := h.order
  fetched := h.fetched
  reserv := h.reserv
  fu := h.fu
  station := h.station
  unit := h.unit
  stays := h.stays
  bus _ hx := nomatch hx
  issued := h.issued
  future := h.future
  started := h.started
  done := h.done
  raw x hx i hi := ⟨⟨(h.raw x hx i hi).1.1, nofun⟩, (h.raw x hx i hi).2⟩
  issue_now := h.issue_now
  exec_now := h.exec_now
  cdb_now x := ⟨(h.cdb_now x).1, fun he => absurd he (hf x).2.2.ne⟩

theorem execute (h : Inv g cycle d p) (hbus : p.commonDataBus = none) (hf : Fresh cycle p) :
    Inv g cycle d (p.execute_To_CDB g.toCode cycle) := by
  have e : p.Executed g.toCode cycle (p.execute_To_CDB g.toCode cycle) :=
    Pipeline.executed _ _ hbus (fun c x hx => (h.station c x hx).2.2.1) fun _ _ => h.unit_class
  generalize p.execute_To_CDB g.toCode cycle = p' at e ⊢
  have hpos : 0 < cycle := (Nat.zero_le _).trans_lt (hf 0).1
  have hfin {x} (hx : p.Finished cycle x) : p.exec x ≠ 0 ∧ ∃ c, 0 < x ∧ x ≤ d ∧ unitOf (g.op x) = some c ∧
      p.cdb x = 0 ∧ p.exec x + c.latency ≤ cycle := by
    obtain ⟨c, hin, hlat⟩ := hx
    obtain ⟨hst, he0⟩ := (h.unit c x).1 hin
    obtain ⟨h0, hxd, hc, hcdb⟩ := h.station c x hst
    exact ⟨he0, c, h0, hxd, hc, hcdb, hlat⟩
  -- What was on the bus before keeps its stamp.
  have hold {x} (hx : p.cdb x ≠ 0) : p'.commonDataBus ≠ some x := by
    intro hb
    obtain ⟨-, c, -, -, -, hz, -⟩ := hfin (e.bus x hb).1
    exact hx hz
  constructor
  case queue => exact e.fetch_index ▸ e.queued h.queue
  case order => exact e.fetch_index ▸ h.order
  case fetched => exact e.fetch_index ▸ h.fetched
  case reserv => exact fun c k k' x hk hk' => h.reserv c ((e.reserv c k x).1 hk).1 ((e.reserv c k' x).1 hk').1
  case fu => exact fun c k k' x hk hk' => h.fu c ((e.fu c k x).1 hk).1 ((e.fu c k' x).1 hk').1
  case station =>
    intro c x hx
    obtain ⟨hst, -, hnb⟩ := (e.station c x).1 hx
    obtain ⟨h0, hd, hc, hz⟩ := h.station c x hst
    exact ⟨h0, hd, hc, by rw [e.cdb, if_neg hnb, hz]⟩
  case unit =>
    intro c x
    rw [e.unit, e.station, e.exec, h.unit]
    exact and_right_comm
  case stays =>
    intro c x h0 hd hc hx
    rw [e.exec, e.cdb] at hx
    have hnb : p'.commonDataBus ≠ some x := by
      intro hb
      rw [if_pos hb] at hx
      rcases hx with hx | ⟨-, hx⟩
      · exact (hfin (e.bus x hb).1).1 hx
      · exact hpos.ne' hx
    rw [if_neg hnb] at hx
    refine (e.station c x).2 ⟨h.stays c x h0 hd hc hx, ?_, hnb⟩
    rintro ⟨hfx, hs⟩
    rcases hx with hx | ⟨hw, -⟩
    · exact (hfin hfx).1 hx
    · rw [not_store_of_writes hw] at hs
      cases hs
  case bus =>
    intro x hx
    obtain ⟨hfx, hs⟩ := e.bus x hx
    obtain ⟨-, c, h0, hd, hc, -, -⟩ := hfin hfx
    exact ⟨h0, hd, writes_of_not_store hc hs, by rw [e.cdb, if_pos hx]; exact hpos.ne'⟩
  case issued =>
    intro c x h0 hd hc
    rw [e.issue]
    exact h.issued c x h0 hd hc
  case future =>
    intro x hx
    obtain ⟨h1, h2, h3⟩ := h.future x hx
    rw [e.issue, e.exec, e.cdb, if_neg fun hb => (hfin (e.bus x hb).1).1 h2]
    exact ⟨h1, h2, h3⟩
  case started =>
    intro x
    rw [e.exec, e.issue]
    exact h.started x
  case done =>
    intro x
    rw [e.cdb, e.exec]
    split
    case isTrue hb =>
      obtain ⟨he0, c, -, -, hc, -, hlat⟩ := hfin (e.bus x hb).1
      exact fun _ => ⟨c, hc, he0, hlat⟩
    case isFalse => exact h.done x
  case raw =>
    intro x hx i hi
    rw [e.exec] at hx ⊢
    obtain ⟨⟨hz, -⟩, hlt⟩ := h.raw x hx i hi
    rw [Pipeline.Retired, e.cdb, if_neg (hold hz)]
    exact ⟨⟨hz, hold hz⟩, hlt⟩
  case issue_now =>
    intro x
    rw [e.issue]
    exact ⟨(h.issue_now x).1, fun hx => absurd hx (hf x).1.ne⟩
  case exec_now =>
    intro x
    rw [e.exec]
    exact ⟨(h.exec_now x).1, fun hx => absurd hx (hf x).2.1.ne⟩
  case cdb_now =>
    intro x
    rw [e.cdb]
    split
    case isTrue hb => exact ⟨le_refl _, fun _ => hb⟩
    case isFalse => exact ⟨(h.cdb_now x).1, fun hx => absurd hx (hf x).2.2.ne⟩

/-- What one class starts. -/
theorem starts (h : Inv g cycle d p) (ready : Nat → Bool) (c : Class) :
    ∃ started, Pipeline.Started cycle ready c p (p.issueClass cycle ready c) started :=
  Pipeline.issueClass_started cycle ready (h.reserv c) (h.fu c) fun x hx => ((h.unit c x).1 hx).2

/-- One class starts the ready instructions of its stations. -/
theorem issueClass {c : Class} (h : Inv g cycle d p) (hpos : 0 < cycle) (hf : ∀ x, p.issue x < cycle)
    {ready : Nat → Bool} (hready : ∀ x, ready x = true → ∀ i ∈ g.producers x, p.Retired i ∧ p.cdb i < cycle) :
    Inv g cycle d (p.issueClass cycle ready c) := by
  obtain ⟨started, e⟩ := h.starts ready c
  generalize p.issueClass cycle ready c = p' at e ⊢
  have hzero {x} (hx : p'.exec x = 0) : x ∉ started ∧ p.exec x = 0 := by
    rw [e.exec] at hx
    split at hx
    case isTrue => omega
    case isFalse hs => exact ⟨hs, hx⟩
  have hst {x} (hx : x ∈ started) : p.InStation c x ∧ p.exec x = 0 ∧ ready x = true := e.startable x hx
  constructor
  case queue => exact e.fetch_index ▸ e.queued h.queue
  case order => exact e.fetch_index ▸ h.order
  case fetched => exact e.fetch_index ▸ h.fetched
  case reserv => exact e.reserv ▸ h.reserv
  case fu =>
    intro c'
    by_cases hc : c' = c
    · exact hc ▸ e.distinct
    · exact e.other c' hc ▸ h.fu c'
  case station =>
    intro c' x
    rw [e.station, e.cdb]
    exact h.station c' x
  case unit =>
    intro c' x
    rw [e.units, e.station, h.unit, e.exec]
    constructor
    · rintro (⟨hin, he⟩ | ⟨rfl, hx⟩)
      · exact ⟨hin, by split <;> omega⟩
      · exact ⟨(hst hx).1, by rw [if_pos hx]; omega⟩
    · rintro ⟨hin, he⟩
      by_cases hx : x ∈ started
      · have h1 := (h.station c' x hin).2.2.1
        have h2 := (h.station c x (hst hx).1).2.2.1
        exact .inr ⟨Option.some.inj (h1.symm.trans h2), hx⟩
      · rw [if_neg hx] at he
        exact .inl ⟨hin, he⟩
  case stays =>
    intro c' x h0 hd hc hx
    rw [e.station]
    exact h.stays c' x h0 hd hc (hx.imp (fun hx => (hzero hx).2) fun hx => ⟨hx.1, e.cdb x ▸ hx.2⟩)
  case bus =>
    intro x
    rw [e.bus, e.cdb]
    exact h.bus x
  case issued =>
    intro c' x
    rw [e.issue]
    exact h.issued c' x
  case future =>
    intro x hx
    rw [e.issue, e.exec, e.cdb, if_neg fun hs => absurd (h.station c x (hst hs).1).2.1 (Nat.not_le.2 hx)]
    exact h.future x hx
  case started =>
    intro x
    rw [e.exec, e.issue]
    split
    case isTrue => exact fun _ => hf x
    case isFalse => exact h.started x
  case done =>
    intro x hx
    rw [e.cdb] at hx ⊢
    obtain ⟨c', hc, he, hlat⟩ := h.done x hx
    rw [e.exec, if_neg fun hs => he (hst hs).2.1]
    exact ⟨c', hc, he, hlat⟩
  case raw =>
    intro x hx i hi
    rw [Pipeline.Retired, e.bus, e.cdb, e.exec]
    split
    case isTrue hs => exact hready x (hst hs).2.2 i hi
    case isFalse hs =>
      rw [e.exec, if_neg hs] at hx
      exact h.raw x hx i hi
  case issue_now =>
    intro x
    rw [e.issue]
    exact ⟨(h.issue_now x).1, fun hx => absurd hx (hf x).ne⟩
  case exec_now =>
    intro x
    rw [e.exec]
    split
    case isTrue hs => exact ⟨le_refl _, fun _ => ⟨c, (e.unit x).2 (.inr hs)⟩⟩
    case isFalse =>
      refine ⟨(h.exec_now x).1, fun hx => ?_⟩
      obtain ⟨c', hin⟩ := (h.exec_now x).2 hx
      exact ⟨c', (e.units c' x).2 (.inl hin)⟩
  case cdb_now =>
    intro x
    rw [e.cdb, e.bus]
    exact h.cdb_now x

end Inv

/-- Instruction `i` is the next to be dispatched: behind `d` come only traps before it. -/
structure Next (g : Dataflow) (d : Nat) (p : Pipeline) (i : Nat) : Prop where
  lt : d < i
  le : i ≤ p.fetch_index
  not_trap : IS_TRAP (g.op i) = false
  traps : ∀ y, d < y → y < i → IS_TRAP (g.op y) = true
  queue : p.Queued ((g.between i p.fetch_index).reverse ++ [i])

/-- What uses a unit and is not younger than `i` is `i` or has been dispatched. -/
theorem Next.le_or_eq {g : Dataflow} {d i : Nat} {p : Pipeline} (h : Next g d p i) {x : Nat} {c : Class} (hx : x ≤ i)
    (hc : unitOf (g.op x) = some c) : x ≤ d ∨ x = i := by
  by_contra hn
  rw [unitOf_trap (h.traps x (by omega) (by omega))] at hc
  cases hc

namespace Inv

variable {g : Dataflow} {cycle d i : Nat} {p : Pipeline}

theorem oldest_cases (h : Inv g cycle d p) :
    (p.oldest = none ∧ ∀ k, p.instr_queue k = none) ∨ ∃ i, p.oldest = some i ∧ Next g d p i := by
  have hold : p.oldest = (g.between d p.fetch_index).head? := by
    rw [h.queue.oldest, List.getLast?_reverse]
  have hqueue := h.queue
  cases hq : g.between d p.fetch_index with
  | nil =>
    rw [hq] at hold hqueue
    exact .inl ⟨hold, hqueue.slot⟩
  | cons i q =>
    rw [hq] at hold hqueue
    obtain ⟨hdi, hif, ht, htraps, rfl⟩ := Code.between_cons hq
    rw [List.reverse_cons] at hqueue
    exact .inr ⟨i, hold, hdi, hif, ht, htraps, hqueue⟩

/-- A control instruction leaves the queue and is done. -/
theorem control (h : Inv g cycle d p) (hn : Next g d p i) (hc : unitOf (g.op i) = none) : Inv g cycle i p.pop where
  queue := hn.queue.pop
  order := hn.le
  fetched := h.fetched
  reserv := h.reserv
  fu := h.fu
  station c x hx := by
    obtain ⟨h0, hd, hc, hz⟩ := h.station c x hx
    exact ⟨h0, hd.trans hn.lt.le, hc, hz⟩
  unit := h.unit
  stays c x h0 hx hcx := by
    rcases hn.le_or_eq hx hcx with hx | rfl
    · exact h.stays c x h0 hx hcx
    · rw [hc] at hcx
      cases hcx
  bus x hx := by
    obtain ⟨h0, hd, hw⟩ := h.bus x hx
    exact ⟨h0, hd.trans hn.lt.le, hw⟩
  issued c x h0 hx hcx := by
    rcases hn.le_or_eq hx hcx with hx | rfl
    · exact h.issued c x h0 hx hcx
    · rw [hc] at hcx
      cases hcx
  future x hx := h.future x (hn.lt.trans hx)
  started := h.started
  done := h.done
  raw := h.raw
  issue_now := h.issue_now
  exec_now := h.exec_now
  cdb_now := h.cdb_now

/-- The next instruction enters a station. -/
theorem enter {c : Class} {p' : Pipeline} (h : Inv g cycle d p) (hpos : 0 < cycle) (hn : Next g d p i)
    (hc : unitOf (g.op i) = some c) (e : p.Entered cycle i c p') : Inv g cycle i p'.pop := by
  have hi := h.future i hn.lt
  have hout : ¬ p.InStation c i := fun hin => absurd (h.station c i hin).2.1 (Nat.not_le.2 hn.lt)
  have hstation (c' x) : p'.pop.InStation c' x ↔ p.InStation c' x ∨ c' = c ∧ x = i := e.station c' x
  have hunit (c' x) : p'.pop.InUnit c' x ↔ p.InUnit c' x := by
    change p'.InUnit c' x ↔ _
    rw [Pipeline.InUnit, e.fu]
  have hissue (x) : p'.pop.issue x = if x = i then cycle else p.issue x := e.issue x
  have hexec (x) : p'.pop.exec x = p.exec x := e.exec x
  have hcdb (x) : p'.pop.cdb x = p.cdb x := e.cdb x
  have hbus : p'.pop.commonDataBus = p.commonDataBus := e.bus
  have hfetch : p'.pop.fetch_index = p.fetch_index := e.fetch_index
  constructor
  case queue => exact hfetch ▸ (e.queued hn.queue).pop
  case order => exact hfetch ▸ hn.le
  case fetched => exact hfetch ▸ h.fetched
  case reserv => exact e.distinct h.reserv hout
  case fu => exact e.fu.symm ▸ h.fu
  case station =>
    intro c' x hx
    rw [hcdb]
    rcases (hstation c' x).1 hx with hx | ⟨rfl, rfl⟩
    · obtain ⟨h0, hd, hc, hz⟩ := h.station c' x hx
      exact ⟨h0, hd.trans hn.lt.le, hc, hz⟩
    · exact ⟨(Nat.zero_le d).trans_lt hn.lt, le_refl _, hc, hi.2.2⟩
  case unit =>
    intro c' x
    rw [hunit, h.unit, hstation, hexec]
    constructor
    · exact fun hx => ⟨.inl hx.1, hx.2⟩
    · rintro ⟨hx | ⟨-, rfl⟩, he⟩
      · exact ⟨hx, he⟩
      · exact absurd hi.2.1 he
  case stays =>
    intro c' x h0 hx hc' hs
    rw [hexec, hcdb] at hs
    rw [hstation]
    rcases hn.le_or_eq hx hc' with hx | rfl
    · exact .inl (h.stays c' x h0 hx hc' hs)
    · exact .inr ⟨Option.some.inj (hc'.symm.trans hc), rfl⟩
  case bus =>
    intro x hx
    rw [hbus] at hx
    rw [hcdb]
    obtain ⟨h0, hd, hw⟩ := h.bus x hx
    exact ⟨h0, hd.trans hn.lt.le, hw⟩
  case issued =>
    intro c' x h0 hx hc'
    rw [hissue]
    split
    case isTrue => exact hpos.ne'
    case isFalse hne => exact h.issued c' x h0 ((hn.le_or_eq hx hc').resolve_right hne) hc'
  case future =>
    intro x hx
    rw [hissue, hexec, hcdb, if_neg hx.ne']
    exact h.future x (hn.lt.trans hx)
  case started =>
    intro x hx
    rw [hexec] at hx ⊢
    rw [hissue, if_neg (by rintro rfl; exact hx hi.2.1)]
    exact h.started x hx
  case done =>
    intro x
    rw [hcdb, hexec]
    exact h.done x
  case raw =>
    intro x
    simp only [Pipeline.Retired, hexec, hcdb, hbus]
    exact h.raw x
  case issue_now =>
    intro x
    rw [hissue]
    split
    case isTrue hx => exact ⟨le_refl _, fun _ => ⟨c, (hstation c x).2 (.inr ⟨rfl, hx⟩)⟩⟩
    case isFalse =>
      refine ⟨(h.issue_now x).1, fun hx => ?_⟩
      obtain ⟨c', hin⟩ := (h.issue_now x).2 hx
      exact ⟨c', (hstation c' x).2 (.inl hin)⟩
  case exec_now =>
    intro x
    simp only [hexec, hunit]
    exact h.exec_now x
  case cdb_now =>
    intro x
    rw [hcdb, hbus]
    exact h.cdb_now x

/-- After the stage every instruction up to `d'` has been dispatched: the next one, if
it found a station. -/
theorem dispatch (h : Inv g cycle d p) (hpos : 0 < cycle) :
    ∃ d', Inv g cycle d' (p.dispatch_To_issue g.toCode cycle) := by
  rcases h.oldest_cases with ⟨hold, -⟩ | ⟨i, hold, hn⟩
  · rw [Pipeline.dispatch_of_oldest_none hold]
    exact ⟨d, h⟩
  · generalize hp : p.dispatch_To_issue g.toCode cycle = p'
    cases hp ▸ Pipeline.dispatched g.toCode cycle hold with
    | hazard c hc hfull => exact ⟨d, h⟩
    | control hc => exact ⟨i, h.control hn hc⟩
    | enters c p' hc e => exact ⟨i, h.enter hpos hn hc e⟩

theorem fetch (h : Inv g cycle d p) : Inv g cycle d (p.fetch_To_dispatch g.toCode cycle) := by
  unfold Pipeline.fetch_To_dispatch
  split
  case isTrue => exact h
  case isFalse hlt =>
    split
    case isFalse => exact h
    case isTrue hsize =>
      have hlt := Nat.not_le.1 hlt
      have hle := Code.nextFetch_le hlt (g.last (by omega))
      have hnext := (g.toCode.nextFetch_spec p.fetch_index).1
      have hs (x) := Pipeline.fetch_stamps g.toCode cycle p x
      have hqueue := h.queue.fetch g.toCode cycle hsize
      rw [← List.reverse_concat, ← Code.between_fetch h.order] at hqueue
      constructor
      case queue => exact hqueue
      case order => exact h.order.trans hnext.le
      case fetched => exact hle
      case reserv => exact h.reserv
      case fu => exact h.fu
      all_goals simp only [Pipeline.Retired, hs]
      case station => exact h.station
      case unit => exact h.unit
      case stays => exact h.stays
      case bus => exact h.bus
      case issued => exact h.issued
      case future => exact h.future
      case started => exact h.started
      case done => exact h.done
      case raw => exact h.raw
      case issue_now => exact h.issue_now
      case exec_now => exact h.exec_now
      case cdb_now => exact h.cdb_now

/-! ## A whole cycle -/

theorem execute_issue_lt (h : Inv g cycle d p) (hbus : p.commonDataBus = none) (hf : Fresh cycle p) (x : Nat) :
    (p.execute_To_CDB g.toCode cycle).issue x < cycle := by
  have e := Pipeline.executed g.toCode cycle hbus (fun c x hx => (h.station c x hx).2.2.1)
    fun _ _ => h.unit_class
  rw [e.issue]
  exact (hf x).1

/-- A retired producer was on the bus in an earlier cycle. -/
theorem ready_lt (h : Inv g cycle d p) {x : Nat} (hx : g.ready p x = true) :
    ∀ i ∈ g.producers x, p.Retired i ∧ p.cdb i < cycle := by
  intro i hi
  have hret : p.Retired i := of_decide_eq_true hx i hi
  exact ⟨hret, lt_of_le_of_ne (h.cdb_now i).1 fun he => hret.2 ((h.cdb_now i).2 he)⟩

theorem issue (h : Inv g cycle d p) (hpos : 0 < cycle) (hf : ∀ x, p.issue x < cycle) :
    Inv g cycle d (g.issue cycle p) := by
  obtain ⟨started, e⟩ := h.starts (g.ready p) .INT
  refine issueClass (h.issueClass hpos hf fun x => h.ready_lt) hpos (fun x => e.issue x ▸ hf x) fun x hx i hi => ?_
  rw [Pipeline.Retired, e.bus, e.cdb]
  exact h.ready_lt hx i hi

/-- What `issue_To_execute` leaves alone, and the one stamp it writes. -/
structure IssueFrame (cycle : Nat) (p p' : Pipeline) : Prop extends Pipeline.SameQueue p p' where
  reserv : p'.reserv = p.reserv
  bus : p'.commonDataBus = p.commonDataBus
  issue : ∀ x, p'.issue x = p.issue x
  cdb : ∀ x, p'.cdb x = p.cdb x
  exec : ∀ x, p'.exec x = p.exec x ∨ p.exec x = 0 ∧ p'.exec x = cycle

theorem issue_frame (h : Inv g cycle d p) (hpos : 0 < cycle) (hf : ∀ x, p.issue x < cycle) :
    IssueFrame cycle p (g.issue cycle p) := by
  have hclass {c : Class} {q : Pipeline} (hq : Inv g cycle d q) :
      IssueFrame cycle q (q.issueClass cycle (g.ready p) c) := by
    obtain ⟨started, e⟩ := hq.starts (g.ready p) c
    refine ⟨e.toSameQueue, e.reserv, e.bus, e.issue, e.cdb, fun x => ?_⟩
    rw [e.exec]
    split
    case isTrue hx => exact .inr ⟨(e.startable x hx).2.1, rfl⟩
    case isFalse => exact .inl rfl
  have e₁ := hclass (c := .INT) h
  have e₂ := hclass (c := .FP) (h.issueClass (c := .INT) hpos hf fun _ => h.ready_lt)
  refine ⟨⟨e₂.instr_queue.trans e₁.instr_queue, e₂.instr_queue_size.trans e₁.instr_queue_size,
    e₂.fetch_index.trans e₁.fetch_index⟩, e₂.reserv.trans e₁.reserv, e₂.bus.trans e₁.bus,
    fun x => (e₂.issue x).trans (e₁.issue x), fun x => (e₂.cdb x).trans (e₁.cdb x), fun x => ?_⟩
  rcases e₁.exec x with h₁ | ⟨h₀, h₁⟩ <;> rcases e₂.exec x with h₂ | ⟨h₀', h₂⟩
  · exact .inl (h₂.trans h₁)
  · exact .inr ⟨h₁.symm.trans h₀', h₂⟩
  · exact .inr ⟨h₀, h₂.trans h₁⟩
  · exact .inr ⟨h₀, h₂⟩

theorem step (h : Inv g cycle d p) (hf : Fresh cycle p) : ∃ d', Inv g cycle d' (g.step cycle p) := by
  have hpos : 0 < cycle := (Nat.zero_le _).trans_lt (hf 0).1
  have h₁ := h.retire hf
  obtain ⟨d', h₄⟩ := ((h₁.execute rfl hf).issue hpos (h₁.execute_issue_lt rfl hf)).dispatch hpos
  exact ⟨d', h₄.fetch⟩

end Inv

end Tomasulo
