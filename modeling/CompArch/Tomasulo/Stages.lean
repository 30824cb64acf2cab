import CompArch.Tomasulo.Machine
/-!
# What each stage does

One lemma a stage: which instructions move, which stamps are written, and that
nothing else changes.
-/

namespace Tomasulo

open Pisa

/-! ## Opcodes -/

theorem unitOf_isSome (op : Opcode) : (unitOf op).isSome = (WRITES_CDB op || IS_STORE op) := by
  cases op <;> rfl

theorem not_store_of_writes {op : Opcode} (h : WRITES_CDB op = true) : IS_STORE op = false := by
  revert h
  cases op <;> decide

theorem unitOf_trap {op : Opcode} (h : IS_TRAP op = true) : unitOf op = none := by
  revert h
  cases op <;> decide

theorem unitOf_control {op : Opcode} (h : (IS_UNCOND_CTRL op || IS_COND_CTRL op) = true) : unitOf op = none := by
  revert h
  cases op <;> decide

/-- What uses a unit and is no store writes the bus. -/
theorem writes_of_not_store {op : Opcode} {c : Class} (h : unitOf op = some c) (hs : IS_STORE op = false) :
    WRITES_CDB op = true := by
  have := unitOf_isSome op
  rw [h, hs] at this
  simpa using this

namespace Pipeline

variable {code : Code} {cycle : Nat} {p : Pipeline}

abbrev issue (p : Pipeline) (x : Nat) : Nat := (p.stamps x).tom_issue_cycle
abbrev exec (p : Pipeline) (x : Nat) : Nat := (p.stamps x).tom_execute_cycle
abbrev cdb (p : Pipeline) (x : Nat) : Nat := (p.stamps x).tom_cdb_cycle

/-- An instruction sits in a station of class `c`. -/
abbrev InStation (p : Pipeline) (c : Class) (x : Nat) : Prop := (p.reserv c).Holds x

/-- An instruction sits in a unit of class `c`. -/
abbrev InUnit (p : Pipeline) (c : Class) (x : Nat) : Prop := (p.fu c).Holds x

/-! ## `execute_To_CDB` -/

theorem mem_finished {c : Class} {x : Nat} : x ∈ p.finished cycle c ↔ p.InUnit c x ∧ p.exec x + c.latency ≤ cycle := by
  simp [finished, Slots.mem_entries]

/-- The latency of an instruction in a unit has elapsed. -/
def Finished (p : Pipeline) (cycle x : Nat) : Prop := ∃ c, p.InUnit c x ∧ p.exec x + c.latency ≤ cycle

theorem mem_finishedInOrder {x : Nat} : x ∈ p.finishedInOrder cycle ↔ p.Finished cycle x := by
  rw [finishedInOrder, ExchangeSort.mem_sort, List.mem_append, mem_finished, mem_finished]
  constructor
  · rintro (h | h)
    · exact ⟨.INT, h⟩
    · exact ⟨.FP, h⟩
  · rintro ⟨c, h⟩
    cases c with
    | INT => exact .inl h
    | FP => exact .inr h

theorem mem_clearList {l : List Nat} {x : Nat} :
    x ∈ clearList code l ↔
      x ∈ l ∧ IS_STORE (code.op x) = true ∨ l.find? (fun i => !IS_STORE (code.op i)) = some x := by
  induction l with
  | nil => simp [clearList]
  | cons i l ih =>
    unfold clearList
    cases hi : IS_STORE (code.op i) with
    | true =>
      simp only [if_true, List.mem_cons, ih, List.find?_cons, hi, Bool.not_true]
      constructor
      · rintro (rfl | ⟨h, hx⟩ | h)
        · exact .inl ⟨.inl rfl, hi⟩
        · exact .inl ⟨.inr h, hx⟩
        · exact .inr h
      · rintro (⟨rfl | h, hx⟩ | h)
        · exact .inl rfl
        · exact .inr (.inl ⟨h, hx⟩)
        · exact .inr (.inr h)
    | false =>
      simp only [Bool.false_eq_true, if_false, List.mem_cons, List.mem_filter, List.find?_cons, hi, Bool.not_false,
        Option.some.injEq]
      constructor
      · rintro (rfl | ⟨h, hx⟩)
        · exact .inr rfl
        · exact .inl ⟨.inr h, hx⟩
      · rintro (⟨rfl | h, hx⟩ | rfl)
        · rw [hi] at hx
          cases hx
        · exact .inr ⟨h, hx⟩
        · exact .inl rfl

variable (code) in
/-- Instructions leave the stations and units of their class, and nothing else changes. -/
theorem foldl_leave (l : List Nat) (p : Pipeline) :
    ∃ reserv fu, l.foldl (leave code) p = { p with reserv := reserv, fu := fu } ∧
      (∀ c k x, reserv c k = some x ↔ p.reserv c k = some x ∧ ¬ (x ∈ l ∧ unitOf (code.op x) = some c)) ∧
      ∀ c k x, fu c k = some x ↔ p.fu c k = some x ∧ ¬ (x ∈ l ∧ unitOf (code.op x) = some c) := by
  induction l generalizing p with
  | nil => exact ⟨p.reserv, p.fu, rfl, by simp, by simp⟩
  | cons i l ih =>
    obtain ⟨reserv, fu, he, hr, hf⟩ := ih (leave code p i)
    rw [List.foldl_cons, he]
    cases hi : unitOf (code.op i) with
    | none =>
      have hp : leave code p i = p := by rw [leave, hi]
      rw [hp] at hr hf ⊢
      have hx (x c) : (x ∈ i :: l ∧ unitOf (code.op x) = some c) ↔ (x ∈ l ∧ unitOf (code.op x) = some c) := by
        rw [List.mem_cons]
        constructor
        · rintro ⟨rfl | h, hc⟩
          · rw [hi] at hc
            cases hc
          · exact ⟨h, hc⟩
        · exact fun h => ⟨.inr h.1, h.2⟩
      exact ⟨reserv, fu, rfl, by simpa only [hx] using hr, by simpa only [hx] using hf⟩
    | some d =>
      have hp : leave code p i = { p with
          reserv := Function.update p.reserv d ((p.reserv d).clear i)
          fu := Function.update p.fu d ((p.fu d).clear i) } := by rw [leave, hi]
      rw [hp] at hr hf ⊢
      -- An entry is gone after the head left, or after the rest did.
      have hstep {n : Class → Nat} (a : (c : Class) → Slots (n c) Nat) (c k x) :
          (Function.update a d ((a d).clear i) c k = some x ∧ ¬ (x ∈ l ∧ unitOf (code.op x) = some c)) ↔
            (a c k = some x ∧ ¬ (x ∈ i :: l ∧ unitOf (code.op x) = some c)) := by
        by_cases hc : c = d
        · subst hc
          rw [Function.update_self, Slots.clear_eq_some, List.mem_cons]
          by_cases hxi : x = i
          · subst hxi
            simp [hi]
          · simp [hxi]
        · rw [Function.update_of_ne hc, List.mem_cons]
          by_cases hxi : x = i
          · subst hxi
            have : ¬ unitOf (code.op x) = some c := by
              rw [hi]
              exact fun h => hc (Option.some.inj h).symm
            simp [this]
          · simp [hxi]
      exact ⟨reserv, fu, rfl, fun c k x => (hr c k x).trans (hstep p.reserv c k x),
        fun c k x => (hf c k x).trans (hstep p.fu c k x)⟩

/-- The stages move nothing in or out of the queue. -/
structure SameQueue (p p' : Pipeline) : Prop where
  instr_queue : p'.instr_queue = p.instr_queue
  instr_queue_size : p'.instr_queue_size = p.instr_queue_size
  fetch_index : p'.fetch_index = p.fetch_index

/-- Every finished store and the oldest other finished instruction leave, and
that one takes the bus. -/
structure Executed (code : Code) (cycle : Nat) (p p' : Pipeline) : Prop extends SameQueue p p' where
  reserv : ∀ c k x, p'.reserv c k = some x ↔
    p.reserv c k = some x ∧ ¬ (p.Finished cycle x ∧ IS_STORE (code.op x) = true) ∧ p'.commonDataBus ≠ some x
  fu : ∀ c k x, p'.fu c k = some x ↔
    p.fu c k = some x ∧ ¬ (p.Finished cycle x ∧ IS_STORE (code.op x) = true) ∧ p'.commonDataBus ≠ some x
  bus : ∀ x, p'.commonDataBus = some x → p.Finished cycle x ∧ IS_STORE (code.op x) = false
  first : ∀ x, p.Finished cycle x → IS_STORE (code.op x) = false → ∃ y, p'.commonDataBus = some y ∧ y ≤ x
  stamps : ∀ x, p'.stamps x =
    if p'.commonDataBus = some x then { p.stamps x with tom_cdb_cycle := cycle } else p.stamps x

theorem takeBus_eq (l : List Nat) (hbus : p.commonDataBus = none) :
    p.takeBus code cycle l = { p with
      commonDataBus := l.find? fun i => !IS_STORE (code.op i)
      stamps := fun x =>
        if l.find? (fun i => !IS_STORE (code.op i)) = some x then { p.stamps x with tom_cdb_cycle := cycle }
        else p.stamps x } := by
  unfold takeBus
  cases l.find? fun i => !IS_STORE (code.op i) with
  | none =>
    simp only [reduceCtorEq, if_false]
    rw [← hbus]
  | some i =>
    have : Function.update p.stamps i { p.stamps i with tom_cdb_cycle := cycle } = fun x =>
        if some i = some x then { p.stamps x with tom_cdb_cycle := cycle } else p.stamps x := by
      funext x
      by_cases hx : x = i
      · subst hx
        rw [Function.update_self, if_pos rfl]
      · rw [Function.update_of_ne hx, if_neg fun h => hx (Option.some.inj h).symm]
    rw [← this]

variable (code cycle) in
theorem executed (hbus : p.commonDataBus = none) (hr : ∀ c x, p.InStation c x → unitOf (code.op x) = some c)
    (hu : ∀ c x, p.InUnit c x → unitOf (code.op x) = some c) :
    Executed code cycle p (p.execute_To_CDB code cycle) := by
  set l := p.finishedInOrder cycle with hl
  obtain ⟨reserv, fu, he, hreserv, hfu⟩ := foldl_leave code (clearList code l) (p.takeBus code cycle l)
  change p.execute_To_CDB code cycle = _ at he
  rw [takeBus_eq l hbus] at he hreserv hfu
  have hgone (x) (c : Class) (hx : unitOf (code.op x) = some c) :
      ¬ (x ∈ clearList code l ∧ unitOf (code.op x) = some c) ↔ ¬ (p.Finished cycle x ∧ IS_STORE (code.op x) = true) ∧
        l.find? (fun i => !IS_STORE (code.op i)) ≠ some x := by
    rw [mem_clearList, hl, mem_finishedInOrder, ← not_or]
    exact not_congr ⟨And.left, fun h => ⟨h, hx⟩⟩
  constructor <;> rw [he]
  case toSameQueue => exact ⟨rfl, rfl, rfl⟩
  case reserv =>
    intro c k x
    rw [hreserv]
    exact and_congr_right fun hx => hgone x c (hr c x ⟨k, hx⟩)
  case fu =>
    intro c k x
    rw [hfu]
    exact and_congr_right fun hx => hgone x c (hu c x ⟨k, hx⟩)
  case bus =>
    intro x hx
    have hs : IS_STORE (code.op x) = false := by
      have := List.find?_some hx
      simpa using this
    exact ⟨mem_finishedInOrder.1 (List.mem_of_find?_eq_some hx), hs⟩
  case first =>
    intro x hx hs
    have hx' : x ∈ l := mem_finishedInOrder.2 hx
    obtain ⟨y, hy⟩ : ∃ y, l.find? (fun i => !IS_STORE (code.op i)) = some y := by
      rw [← Option.isSome_iff_exists, List.find?_isSome]
      exact ⟨x, hx', by rw [hs]; rfl⟩
    refine ⟨y, hy, ?_⟩
    obtain ⟨-, as, bs, habs, has⟩ := List.find?_eq_some_iff_append.1 hy
    have hsorted : l.Pairwise (· ≤ ·) := ExchangeSort.sort_sorted _
    rw [habs] at hx' hsorted
    rcases List.mem_append.1 hx' with h | h
    · have := has x h
      rw [hs] at this
      cases this
    · rcases List.mem_cons.1 h with rfl | h
      · exact le_refl _
      · exact (List.pairwise_cons.1 (List.pairwise_append.1 hsorted).2.1).1 x h
  case stamps => exact fun x => rfl

namespace Executed

variable {p' : Pipeline}

theorem cdb (h : Executed code cycle p p') (x : Nat) :
    p'.cdb x = if p'.commonDataBus = some x then cycle else p.cdb x := by
  rw [Pipeline.cdb, h.stamps]
  split <;> rfl

theorem exec (h : Executed code cycle p p') (x : Nat) : p'.exec x = p.exec x := by
  rw [Pipeline.exec, h.stamps]
  split <;> rfl

theorem issue (h : Executed code cycle p p') (x : Nat) : p'.issue x = p.issue x := by
  rw [Pipeline.issue, h.stamps]
  split <;> rfl

theorem station (h : Executed code cycle p p') (c : Class) (x : Nat) : p'.InStation c x ↔
    p.InStation c x ∧ ¬ (p.Finished cycle x ∧ IS_STORE (code.op x) = true) ∧ p'.commonDataBus ≠ some x := by
  simp only [InStation, Slots.Holds, h.reserv, exists_and_right]

theorem unit (h : Executed code cycle p p') (c : Class) (x : Nat) : p'.InUnit c x ↔
    p.InUnit c x ∧ ¬ (p.Finished cycle x ∧ IS_STORE (code.op x) = true) ∧ p'.commonDataBus ≠ some x := by
  simp only [InUnit, Slots.Holds, h.fu, exists_and_right]

end Executed

/-! ## `issue_To_execute` -/

/-- An instruction that `issue_To_execute` may start. -/
def Startable (p : Pipeline) (ready : Nat → Bool) (c : Class) (x : Nat) : Prop :=
  p.InStation c x ∧ p.exec x = 0 ∧ ready x = true

theorem mem_waitingInOrder {ready : Nat → Bool} {c : Class} {x : Nat} :
    x ∈ p.waitingInOrder ready c ↔ p.Startable ready c x := by
  simp [waitingInOrder, Startable, ExchangeSort.mem_sort, Slots.mem_entries]

variable (cycle) in
/-- The instructions of a list take the free units in order, until none is free. -/
theorem foldl_start {c : Class} {l : List Nat} (hl : l.Nodup) (hd : (p.fu c).Distinct)
    (hn : ∀ x ∈ l, ¬ p.InUnit c x) :
    ∃ (fu : Slots c.fuSize Nat) (started rest : List Nat), l.foldl (start cycle c) p = { p with
        fu := Function.update p.fu c fu
        stamps := fun x => if x ∈ started then { p.stamps x with tom_execute_cycle := cycle } else p.stamps x } ∧
      l = started ++ rest ∧ fu.Distinct ∧ (∀ x, fu.Holds x ↔ p.InUnit c x ∨ x ∈ started) ∧
      (rest ≠ [] → ∀ k, fu k ≠ none) := by
  induction l generalizing p with
  | nil => exact ⟨p.fu c, [], [], by simp, rfl, hd, by simp, nofun⟩
  | cons i l ih =>
    rw [List.foldl_cons]
    cases hf : (p.fu c).firstFree with
    | none =>
      have hp : start cycle c p i = p := by rw [start, hf]
      have hfull := Slots.firstFree_eq_none.1 hf
      rw [hp]
      obtain ⟨fu, started, rest, he, hsplit, -, hfu, -⟩ := ih (List.nodup_cons.1 hl).2 hd
        fun x hx => hn x (List.mem_cons_of_mem _ hx)
      -- No unit was free for the head, so nothing behind it starts either.
      have hstay (l : List Nat) : l.foldl (start cycle c) p = p := by
        induction l with
        | nil => rfl
        | cons j l ihl => rw [List.foldl_cons, start, hf, ihl]
      refine ⟨p.fu c, [], i :: l, ?_, rfl, hd, by simp, fun _ => hfull⟩
      rw [hstay]
      simp
    | some k =>
      have hp : start cycle c p i = { p with
          fu := Function.update p.fu c ((p.fu c).put k i)
          stamps := Function.update p.stamps i { p.stamps i with tom_execute_cycle := cycle } } := by rw [start, hf]
      have hput : (start cycle c p i).fu c = (p.fu c).put k i := by
        rw [hp]
        exact Function.update_self ..
      have hk := Slots.firstFree_eq_some hf
      obtain ⟨hil, hl⟩ := List.nodup_cons.1 hl
      obtain ⟨fu, started, rest, he, rfl, hdist, hfu, hrest⟩ := ih (p := start cycle c p i) hl
        (hput ▸ hd.put (hn i List.mem_cons_self))
        (fun x hx => by
          rw [InUnit, hput, Slots.holds_put hk]
          rintro (h | rfl)
          · exact hn x (List.mem_cons_of_mem _ hx) h
          · exact hil hx)
      refine ⟨fu, i :: started, rest, ?_, rfl, hdist, fun x => ?_, hrest⟩
      · rw [he, hp]
        have : (fun x => if x ∈ i :: started then { p.stamps x with tom_execute_cycle := cycle } else p.stamps x) =
            fun x => if x ∈ started then
              { Function.update p.stamps i { p.stamps i with tom_execute_cycle := cycle } x with
                tom_execute_cycle := cycle }
              else Function.update p.stamps i { p.stamps i with tom_execute_cycle := cycle } x := by
          funext x
          by_cases hx : x = i
          · subst hx
            simp
          · simp [hx]
        rw [this, Function.update_idem]
      · rw [hfu, InUnit, hput, Slots.holds_put hk, List.mem_cons, or_assoc]

/-- The oldest startable instructions of class `c` start, one for each free unit. -/
structure Started (cycle : Nat) (ready : Nat → Bool) (c : Class) (p p' : Pipeline) (started : List Nat) : Prop
    extends SameQueue p p' where
  reserv : p'.reserv = p.reserv
  bus : p'.commonDataBus = p.commonDataBus
  other : ∀ c', c' ≠ c → p'.fu c' = p.fu c'
  distinct : (p'.fu c).Distinct
  unit : ∀ x, p'.InUnit c x ↔ p.InUnit c x ∨ x ∈ started
  startable : ∀ x ∈ started, p.Startable ready c x
  first : ∀ x, p.Startable ready c x → x ∉ started → (∀ k, p'.fu c k ≠ none) ∧ ∀ y ∈ started, y ≤ x
  stamps : ∀ x, p'.stamps x = if x ∈ started then { p.stamps x with tom_execute_cycle := cycle } else p.stamps x

variable (cycle) in
theorem issueClass_started (ready : Nat → Bool) {c : Class} (hr : (p.reserv c).Distinct) (hf : (p.fu c).Distinct)
    (hexec : ∀ x, p.InUnit c x → p.exec x ≠ 0) :
    ∃ started, Started cycle ready c p (p.issueClass cycle ready c) started := by
  unfold issueClass
  split
  case isTrue hfull =>
    have hfull := Slots.firstFree_eq_none.1 hfull
    exact ⟨[], ⟨rfl, rfl, rfl⟩, rfl, rfl, fun _ _ => rfl, hf, by simp, nofun, fun _ _ _ => ⟨hfull, nofun⟩, fun _ => rfl⟩
  case isFalse =>
    have hnodup : (p.waitingInOrder ready c).Nodup := ExchangeSort.sort_nodup (hr.nodup_entries.filter _)
    have hsorted : (p.waitingInOrder ready c).Pairwise (· ≤ ·) := ExchangeSort.sort_sorted _
    obtain ⟨fu, started, rest, he, hsplit, hdist, hfu, hrest⟩ := foldl_start cycle hnodup hf
      fun x hx hin => hexec x hin (mem_waitingInOrder.1 hx).2.1
    refine ⟨started, ?_⟩
    rw [hsplit] at hsorted
    rw [he]
    constructor
    case toSameQueue => exact ⟨rfl, rfl, rfl⟩
    case reserv | bus => rfl
    case stamps => exact fun _ => rfl
    case other => exact fun c' hc => Function.update_of_ne hc ..
    case distinct => simpa only [Function.update_self] using hdist
    case unit => simpa only [InUnit, Function.update_self] using hfu
    case startable =>
      intro x hx
      rw [← mem_waitingInOrder, hsplit]
      exact List.mem_append_left _ hx
    case first =>
      intro x hx hns
      rw [← mem_waitingInOrder, hsplit, List.mem_append] at hx
      have hx := hx.resolve_left hns
      simp only [Function.update_self]
      exact ⟨hrest (List.ne_nil_of_mem hx), fun y hy => (List.pairwise_append.1 hsorted).2.2 y hy x hx⟩

namespace Started

variable {ready : Nat → Bool} {c : Class} {p' : Pipeline} {started : List Nat}

theorem exec (h : Started cycle ready c p p' started) (x : Nat) :
    p'.exec x = if x ∈ started then cycle else p.exec x := by
  rw [Pipeline.exec, h.stamps]
  split <;> rfl

theorem issue (h : Started cycle ready c p p' started) (x : Nat) : p'.issue x = p.issue x := by
  rw [Pipeline.issue, h.stamps]
  split <;> rfl

theorem cdb (h : Started cycle ready c p p' started) (x : Nat) : p'.cdb x = p.cdb x := by
  rw [Pipeline.cdb, h.stamps]
  split <;> rfl

theorem station (h : Started cycle ready c p p' started) (c' : Class) (x : Nat) :
    p'.InStation c' x ↔ p.InStation c' x := by
  rw [InStation, h.reserv]

theorem units (h : Started cycle ready c p p' started) (c' : Class) (x : Nat) :
    p'.InUnit c' x ↔ p.InUnit c' x ∨ c' = c ∧ x ∈ started := by
  by_cases hc : c' = c
  · subst hc
    simp [h.unit]
  · simp [InUnit, h.other c' hc, hc]

end Started

/-- Two tests that agree on the stations start the same instructions. -/
theorem issueClass_congr {ready ready' : Nat → Bool} {c : Class} (h : ∀ x, p.InStation c x → ready x = ready' x) :
    p.issueClass cycle ready c = p.issueClass cycle ready' c := by
  have : p.waitingInOrder ready c = p.waitingInOrder ready' c := by
    unfold waitingInOrder
    congr 1
    refine List.filter_congr fun x hx => ?_
    rw [h x (Slots.mem_entries.1 hx)]
  rw [issueClass, issueClass, this]

/-! ## `dispatch_To_issue` and `fetch_To_dispatch` -/

/-- Instruction `i` has entered a station of class `c`. -/
structure Entered (cycle i : Nat) (c : Class) (p p' : Pipeline) : Prop extends SameQueue p p' where
  fu : p'.fu = p.fu
  bus : p'.commonDataBus = p.commonDataBus
  station : ∀ c' x, p'.InStation c' x ↔ p.InStation c' x ∨ c' = c ∧ x = i
  distinct : (∀ c', (p.reserv c').Distinct) → ¬ p.InStation c i → ∀ c', (p'.reserv c').Distinct
  stamps : p'.stamps = Function.update p.stamps i { p.stamps i with tom_issue_cycle := cycle }

theorem enter_eq_some {i : Nat} {p' : Pipeline} (h : p.enter code cycle i = some p') :
    (unitOf (code.op i) = none ∧ p' = p) ∨ ∃ c, unitOf (code.op i) = some c ∧ Entered cycle i c p p' := by
  unfold enter at h
  split at h
  case h_1 hc => exact .inl ⟨hc, (Option.some.inj h).symm⟩
  case h_2 c hc =>
    split at h
    case h_1 => cases h
    case h_2 k hk =>
      obtain rfl := Option.some.inj h
      have hk := Slots.firstFree_eq_some hk
      refine .inr ⟨c, hc, ⟨rfl, rfl, rfl⟩, rfl, rfl, fun c' x => ?_, fun hd hi c' => ?_, rfl⟩
      · by_cases hc' : c' = c
        · subst hc'
          simp only [InStation, Function.update_self, Slots.holds_put hk, true_and]
        · simp [InStation, hc']
      · by_cases hc' : c' = c
        · subst hc'
          simpa only [Function.update_self] using (hd c').put hi
        · simpa only [Function.update_of_ne hc'] using hd c'

/-- A structural hazard: every station of the class is taken. -/
theorem enter_eq_none {i : Nat} (h : p.enter code cycle i = none) :
    ∃ c, unitOf (code.op i) = some c ∧ ∀ k, p.reserv c k ≠ none := by
  unfold enter at h
  split at h
  case h_1 => cases h
  case h_2 c hc =>
    split at h
    case h_1 hk => exact ⟨c, hc, Slots.firstFree_eq_none.1 hk⟩
    case h_2 => cases h

namespace Entered

variable {i : Nat} {c : Class} {p' : Pipeline}

theorem issue (h : Entered cycle i c p p') (x : Nat) : p'.issue x = if x = i then cycle else p.issue x := by
  rw [Pipeline.issue, h.stamps, Function.update_apply]
  split <;> rfl

theorem exec (h : Entered cycle i c p p') (x : Nat) : p'.exec x = p.exec x := by
  rw [Pipeline.exec, h.stamps, Function.update_apply]
  split
  case isTrue hx => rw [hx]
  case isFalse => rfl

theorem cdb (h : Entered cycle i c p p') (x : Nat) : p'.cdb x = p.cdb x := by
  rw [Pipeline.cdb, h.stamps, Function.update_apply]
  split
  case isTrue hx => rw [hx]
  case isFalse => rfl

end Entered

/-- What happens to the oldest instruction of the queue: it waits for a station,
leaves as a control instruction, or enters a station. -/
inductive Dispatched (code : Code) (cycle i : Nat) (p : Pipeline) : Pipeline → Prop
  | hazard (c : Class) : unitOf (code.op i) = some c → (∀ k, p.reserv c k ≠ none) → Dispatched code cycle i p p
  | control : unitOf (code.op i) = none → Dispatched code cycle i p p.pop
  | enters (c : Class) (p' : Pipeline) :
      unitOf (code.op i) = some c → Entered cycle i c p p' → Dispatched code cycle i p p'.pop

theorem dispatch_of_oldest_none (h : p.oldest = none) : p.dispatch_To_issue code cycle = p := by
  rw [dispatch_To_issue, h]

variable (code cycle) in
theorem dispatched {i : Nat} (h : p.oldest = some i) : Dispatched code cycle i p (p.dispatch_To_issue code cycle) := by
  rw [dispatch_To_issue, h]
  dsimp only
  cases he : p.enter code cycle i with
  | none =>
    obtain ⟨c, hc, hfull⟩ := enter_eq_none he
    exact .hazard c hc hfull
  | some p' =>
    rcases enter_eq_some he with ⟨hc, rfl⟩ | ⟨c, hc, hent⟩
    · exact .control hc
    · exact .enters c p' hc hent

variable (code cycle p) in
/-- A fetch touches no stamp but its own. -/
theorem fetch_stamps (x : Nat) : (p.fetch code cycle).issue x = p.issue x ∧
    (p.fetch code cycle).exec x = p.exec x ∧ (p.fetch code cycle).cdb x = p.cdb x := by
  simp only [Pipeline.issue, Pipeline.exec, Pipeline.cdb, fetch, Function.update_apply]
  split
  case isTrue hx => exact hx ▸ ⟨rfl, rfl, rfl⟩
  case isFalse => exact ⟨rfl, rfl, rfl⟩

/-- The queue holds the instructions `q`, youngest first. -/
structure Queued (p : Pipeline) (q : List Nat) : Prop where
  size : p.instr_queue_size = q.length
  fits : q.length ≤ INSTR_QUEUE_SIZE
  slot : ∀ k : Fin INSTR_QUEUE_SIZE, p.instr_queue k = q[k.val]?

theorem SameQueue.queued {p' : Pipeline} {q : List Nat} (h : SameQueue p p') (hq : p.Queued q) : p'.Queued q :=
  ⟨h.instr_queue_size ▸ hq.size, hq.fits, h.instr_queue ▸ hq.slot⟩

namespace Queued

variable {q : List Nat}

theorem get (h : p.Queued q) (k : Nat) : p.instr_queue.get k = q[k]? := by
  unfold Slots.get
  split
  case isTrue hk => exact h.slot ⟨k, hk⟩
  case isFalse hk => exact (List.getElem?_eq_none (h.fits.trans (Nat.not_lt.1 hk))).symm

theorem oldest (h : p.Queued q) : p.oldest = q.getLast? := by
  unfold Pipeline.oldest
  rw [h.size, h.get, List.getLast?_eq_getElem?]
  split
  case isTrue h0 => rw [List.length_eq_zero_iff.1 h0]; rfl
  case isFalse => rfl

theorem size_of_empty (h : p.Queued q) (he : ∀ k, p.instr_queue k = none) : p.instr_queue_size = 0 := by
  have h0 := h.slot ⟨0, by decide⟩
  rw [he] at h0
  cases q with
  | nil => exact h.size
  | cons => cases h0

theorem pop {i : Nat} (h : p.Queued (q ++ [i])) : p.pop.Queued q where
  size := by
    have := h.size
    rw [List.length_append, List.length_singleton] at this
    simp [Pipeline.pop, this]
  fits := by
    have := h.fits
    rw [List.length_append, List.length_singleton] at this
    omega
  slot k := by
    have hs := h.size
    rw [List.length_append, List.length_singleton] at hs
    simp only [Pipeline.pop, hs, Nat.add_sub_cancel]
    split
    case isTrue hk => rw [hk, List.getElem?_eq_none (le_refl _)]
    case isFalse hk =>
      rw [h.slot k]
      rcases Nat.lt_or_gt_of_ne hk with hlt | hgt
      · rw [List.getElem?_append_left hlt]
      · rw [List.getElem?_eq_none (by simp; omega), List.getElem?_eq_none (by omega)]

variable (code cycle) in
theorem fetch (h : p.Queued q) (hlt : p.instr_queue_size < INSTR_QUEUE_SIZE) :
    (p.fetch code cycle).Queued (code.nextFetch p.fetch_index :: q) where
  size := by simp [Pipeline.fetch, h.size]
  fits := by
    rw [h.size] at hlt
    exact hlt
  slot k := by
    simp only [Pipeline.fetch, h.size]
    obtain ⟨k, hk⟩ := k
    cases k with
    | zero => rfl
    | succ k =>
      simp only [Nat.add_one_ne_zero, if_false, Nat.add_sub_cancel, List.getElem?_cons_succ]
      split
      case isTrue => exact h.get k
      case isFalse hgt =>
        have hslot := h.slot ⟨k + 1, hk⟩
        rw [List.getElem?_eq_none (by simp only; omega)] at hslot
        rw [hslot, List.getElem?_eq_none (by omega)]

end Queued

end Pipeline

end Tomasulo
