import CompArch.Adaptive
import CompArch.Branch.Btb
/-!
# Directions

What `sim-bpred` makes of a predictor: its histories and its counters are those of the
branches executed so far.
-/

namespace Branch

open Function Outcome Pisa

variable {p : Params} {pred pred' : Bpred p}

/-! ## The loop of `sim-bpred` -/

/-- A control instruction that is executed: the arguments of the lookup, what the record for the update held before,
and the next program counter. -/
structure Executed where
  q : Query
  update_rec : Update
  stack_idx : Nat
  npc : Addr

namespace Executed

variable (e : Executed)

def taken : Bool := e.npc ≠ e.q.baddr + 8

def isBranch : Bool := isCtrl e.q.op ∧ ¬ isJump e.q.op

/-- The arguments of the update, after a prediction. -/
def resolved (pred_PC : Addr) : Resolved where
  baddr := e.q.baddr
  btarget := e.npc
  taken := e.taken
  pred_taken := pred_PC ≠ e.q.baddr + 8
  correct := pred_PC = e.npc
  op := e.q.op

end Executed

namespace Bpred

def execute (pred : Bpred p) (e : Executed) : Except Stop (Bpred p) :=
  if isCtrl e.q.op then do
    let (pred_PC, pred, update_rec, _) ← pred.bpred_lookup e.q e.update_rec e.stack_idx
    -- no predicted taken target: the next instruction
    let pred_PC := if pred_PC = 0 then e.q.baddr + 8 else pred_PC
    pred.bpred_update (e.resolved pred_PC) update_rec
  else .ok pred

def executeAll (pred : Bpred p) : List Executed → Except Stop (Bpred p)
  | [] => .ok pred
  | e :: es => do (← pred.execute e).executeAll es

end Bpred

/-! ## The past of a counter -/

/-- The entry of the second level. -/
def Params.l2entry (p : Params) (baddr : Addr) (history : Word) : Word :=
  let high := (baddr >>> MD_BR_SHIFT) <<< p.shift_width.toNat
  let index :=
    if p.xor then ((history ^^^ (baddr >>> MD_BR_SHIFT)) &&& p.historyMask) ||| high else history ||| high
  index &&& (p.l2size - 1)

def Params.twolevScheme (p : Params) : Adaptive.Scheme Executed Word Word Word (List Bool) where
  slot e := p.l1index e.q.baddr
  shift e history := ((history <<< 1) ||| (if e.taken then 1 else 0)) &&& p.historyMask
  entry e history := p.l2entry e.q.baddr history
  train e outcomes := outcomes ++ [e.taken]

/-- The outcomes of the branches that chose counter `i` of the second level. -/
def Params.twolevOutcomes (p : Params) (past : List Executed) (i : Word) : List Bool :=
  (p.twolevScheme.chosen 0 past i).map Executed.taken

/-- The outcomes of the branches with counter `i` of the bimodal table. -/
def Params.bimodOutcomes (p : Params) (past : List Executed) (i : Word) : List Bool :=
  (past.filter fun e => BIMOD_HASH p.bimod_size e.q.baddr = i).map Executed.taken

/-- What outcomes make of counter `i`. -/
def counterAfter (i : Word) (outcomes : List Bool) : Nat :=
  outcomes.foldl (fun c taken => bump taken c) (flipflop i.toNat)

theorem counterAfter_concat (i : Word) (outcomes : List Bool) (taken : Bool) :
    counterAfter i (outcomes ++ [taken]) = bump taken (counterAfter i outcomes) :=
  List.foldl_concat ..

theorem twolevOutcomes_concat (past : List Executed) (e : Executed) (i : Word) :
    p.twolevOutcomes (past ++ [e]) i = p.twolevOutcomes past i ++
      if p.l2entry e.q.baddr (p.twolevScheme.history 0 past (p.l1index e.q.baddr)) = i then [e.taken] else [] := by
  rw [Params.twolevOutcomes, Adaptive.Scheme.chosen_concat, List.map_append, apply_ite (List.map Executed.taken)]
  rfl

theorem bimodOutcomes_concat (past : List Executed) (e : Executed) (i : Word) :
    p.bimodOutcomes (past ++ [e]) i = p.bimodOutcomes past i ++
      if BIMOD_HASH p.bimod_size e.q.baddr = i then [e.taken] else [] := by
  rw [Params.bimodOutcomes, List.filter_append, List.map_append]
  by_cases h : BIMOD_HASH p.bimod_size e.q.baddr = i
  · rw [if_pos h, List.filter_cons_of_pos (by simpa using h)]
    rfl
  · rw [if_neg h, List.filter_cons_of_neg (by simpa using h)]
    rfl

/-- Histories and counters are what the branches of `past` made of them. -/
structure Bpred.Trained (pred : Bpred p) (past : List Executed) : Prop where
  history : p.kind ≠ .BPred2bit → ∀ k, pred.shiftregs k = p.twolevScheme.history 0 past k
  twolev : p.kind ≠ .BPred2bit → ∀ i, pred.table .twolev i = counterAfter i (p.twolevOutcomes past i)
  bimod : p.kind ≠ .BPred2Level → ∀ i, pred.table .bimod i = counterAfter i (p.bimodOutcomes past i)

theorem trained_created (p : Params) : (Bpred.created p).Trained [] where
  history _ _ := rfl
  twolev _ _ := rfl
  bimod _ _ := rfl

/-! ## One instruction -/

/-- The record of a lookup, before the pointers. -/
def Update.cleared (u : Update) : Update := { u with ras := false, pdir1 := none, pdir2 := none, pmeta := none }

/-- What a lookup of a control instruction leaves of the tables, and of the pointers. -/
structure LookedUp (pred : Bpred p) (q : Query) (u : Update) (pred' : Bpred p) (u' : Update) : Prop where
  table : pred'.table = pred.table
  shiftregs : pred'.shiftregs = pred.shiftregs
  record : ∃ ras, u' = { (if isJump q.op then u.cleared else pred.pointers q.baddr u.cleared) with ras }

theorem bpred_lookup_record (hk : p.kind.Stateful) {q : Query} (hc : isCtrl q.op) {u : Update} {i : Nat}
    {r : Addr × Bpred p × Update × Nat} (h : pred.bpred_lookup q u i = .ok r) : LookedUp pred q u r.2.1 r.2.2.1 := by
  rw [bpred_lookup_stateful hk hc] at h
  unfold Bpred.lookupStateful at h
  dsimp only at h
  obtain ⟨stack, tos, stats, hpush, -⟩ := Bpred.push_frame
    { pred with stats := { pred.stats with lookups := pred.stats.lookups + 1 } } (q.is_call ∧ p.size ≠ 0) q.baddr
  rw [hpush] at h
  by_cases hret : q.is_return ∧ p.size ≠ 0
  · rw [if_pos hret] at h
    by_cases htos : pred.tos < p.size
    · rw [if_pos htos] at h
      cases h
      exact ⟨rfl, rfl, true, rfl⟩
    · rw [if_neg htos] at h
      cases h
  · rw [if_neg hret] at h
    obtain ⟨target, -, h⟩ := bind_ok.1 h
    by_cases hj : isJump q.op
    · rw [if_pos hj, if_pos hj] at h
      cases h
      exact ⟨rfl, rfl, false, by rw [if_pos hj]; rfl⟩
    · rw [if_neg hj, if_neg hj] at h
      obtain ⟨pdir1, -, h⟩ := bind_ok.1 h
      cases h
      exact ⟨rfl, rfl, _, by rw [if_neg hj]; rfl⟩

/-- Without pointers nothing is trained. -/
theorem train_none (taken : Bool) {u : Update} (h₁ : u.pdir1 = none) (h₂ : u.pdir2 = none) (h₃ : u.pmeta = none) :
    pred.train taken u = pred := by
  unfold Bpred.train
  rw [h₁, h₂, h₃]
  dsimp only [Bpred.adjust]
  split <;> rfl

/-- The tables of a class. -/
def BpredClass.Has (k : BpredClass) : Dir → Prop
  | .bimod => k ≠ .BPred2Level
  | .twolev => k ≠ .BPred2bit
  | .metapred => False

theorem Bpred.adjust_self (pred : Bpred p) (up : Bool) (a : Ptr) :
    (pred.adjust up (some a)).table a.dir =
      update (pred.table a.dir) a.index (bump up (pred.table a.dir a.index)) :=
  update_self ..

theorem adjust_other (up : Bool) {a : Option Ptr} {d : Dir} (ha : ∀ b ∈ a, b.dir ≠ d) :
    (pred.adjust up a).table d = pred.table d := by
  cases a with
  | none => rfl
  | some a => exact update_of_ne (ha a rfl).symm ..

/-- The third pointer is about another table. -/
theorem train_eq (taken : Bool) {u : Update} {d : Dir} (hm : ∀ a ∈ u.pmeta, a.dir ≠ d) :
    (pred.train taken u).table d = ((pred.adjust taken u.pdir1).adjust taken u.pdir2).table d := by
  unfold Bpred.train
  dsimp only
  split
  · exact adjust_other _ hm
  · rfl

/-- Training moves the counter of the branch, in each table of the class. -/
theorem train_table (hk : p.kind.Stateful) {d : Dir} (hd : p.kind.Has d) (trained : Bpred p) (baddr : Addr)
    (u : Update) (taken ras : Bool) :
    (trained.train taken { pred.pointers baddr u.cleared with ras }).table d =
      update (trained.table d) (pred.bpred_dir_lookup baddr d).index
        (bump taken (trained.table d (pred.bpred_dir_lookup baddr d).index)) := by
  have hdir : (pred.bpred_dir_lookup baddr d).dir = d := by cases d <;> rfl
  have hself (t : Bpred p) : (t.adjust taken (some (pred.bpred_dir_lookup baddr d))).table d =
      update (t.table d) (pred.bpred_dir_lookup baddr d).index
        (bump taken (t.table d (pred.bpred_dir_lookup baddr d).index)) := by
    have h := t.adjust_self taken (pred.bpred_dir_lookup baddr d)
    rwa [hdir] at h
  have hother (t : Bpred p) {d' : Dir} (hne : d' ≠ d) :
      (t.adjust taken (some (pred.bpred_dir_lookup baddr d'))).table d = t.table d := by
    refine adjust_other taken ?_
    rintro b ⟨⟩
    cases d' <;> exact hne
  unfold Bpred.pointers
  cases hkind : p.kind with
  | BPred2Level =>
    cases d with
    | twolev => exact (train_eq taken (by rintro a ⟨⟩)).trans (hself trained)
    | bimod => exact absurd hkind hd
    | metapred => exact hd.elim
  | BPred2bit =>
    cases d with
    | bimod => exact (train_eq taken (by rintro a ⟨⟩)).trans (hself trained)
    | twolev => exact absurd hkind hd
    | metapred => exact hd.elim
  | BPredComb =>
    -- the two pointers are to the two tables, in one order or the other
    have hmeta : Dir.metapred ≠ d := by
      rintro rfl
      exact hd
    refine (train_eq taken ?_).trans ?_
    · rintro a ⟨⟩
      exact hmeta
    · dsimp only
      by_cases hc : 2 ≤ pred.counter (pred.bpred_dir_lookup baddr .metapred)
      · rw [if_pos hc, if_pos hc]
        cases d with
        | bimod => rw [hself, hother _ (by rintro ⟨⟩)]
        | twolev => rw [hother _ (by rintro ⟨⟩), hself]
        | metapred => exact hd.elim
      · rw [if_neg hc, if_neg hc]
        cases d with
        | bimod => rw [hother _ (by rintro ⟨⟩), hself]
        | twolev => rw [hself, hother _ (by rintro ⟨⟩)]
        | metapred => exact hd.elim
  | BPredTaken => exact absurd hkind hk.1
  | BPredNotTaken => exact absurd hkind hk.2

/-- What `learn` makes of the histories and the counters. -/
theorem learn_tables {o : Resolved} {u : Update} (h : pred.learn o u = .ok pred') :
    pred'.table = ((if ¬ isJump o.op ∧ (p.kind = .BPred2Level ∨ p.kind = .BPredComb) then pred.shift o.baddr o.taken
        else pred).train o.taken u).table ∧
      pred'.shiftregs = (if ¬ isJump o.op ∧ (p.kind = .BPred2Level ∨ p.kind = .BPredComb) then
        pred.shift o.baddr o.taken else pred).shiftregs := by
  unfold Bpred.learn at h
  dsimp only at h
  obtain ⟨table, htrain⟩ := (if ¬ isJump o.op ∧ (p.kind = .BPred2Level ∨ p.kind = .BPredComb) then
    pred.shift o.baddr o.taken else pred).train_tables o.taken u
  rw [htrain] at h ⊢
  obtain ⟨pbtb, -, h⟩ := bind_ok.1 h
  cases pbtb with
  | none =>
    cases h
    exact ⟨rfl, rfl⟩
  | some r =>
    obtain ⟨_, -, h⟩ := bind_ok.1 h
    cases h
    exact ⟨rfl, rfl⟩

theorem bpred_update_jump (hk : p.kind.Stateful) {o : Resolved} (hj : isJump o.op) {u : Update} (h₁ : u.pdir1 = none)
    (h₂ : u.pdir2 = none) (h₃ : u.pmeta = none) (h : pred.bpred_update o u = .ok pred') :
    pred'.table = pred.table ∧ pred'.shiftregs = pred.shiftregs := by
  unfold Bpred.bpred_update at h
  rw [if_neg (not_not_intro (isCtrl_of_isJump hj))] at h
  dsimp only at h
  by_cases hras : MD_IS_INDIR o.op ∧ u.ras
  · rw [if_pos hras] at h
    cases h
    exact ⟨rfl, rfl⟩
  · rw [if_neg hras, if_neg (not_or.2 ⟨hk.2, hk.1⟩)] at h
    have hlearn := learn_tables h
    rw [if_neg fun hshift => hshift.1 hj, train_none o.taken h₁ h₂ h₃] at hlearn
    exact hlearn

theorem isJump_of_indir {op : Opcode} (h : MD_IS_INDIR op) : isJump op := by
  rw [of_decide_eq_true h]
  rfl

/-- The update of a conditional branch shifts its history, then trains its counters. -/
theorem bpred_update_branch (hk : p.kind.Stateful) {o : Resolved} (hc : isCtrl o.op) (hj : ¬ isJump o.op) {u : Update}
    (h : pred.bpred_update o u = .ok pred') :
    ∃ trained : Bpred p, trained.table = pred.table ∧ pred'.table = (trained.train o.taken u).table ∧
      (p.kind ≠ .BPred2bit → pred'.shiftregs = (pred.shift o.baddr o.taken).shiftregs) := by
  unfold Bpred.bpred_update at h
  rw [if_neg (not_not_intro hc)] at h
  dsimp only at h
  rw [if_neg fun hras => hj (isJump_of_indir hras.1), if_neg (not_or.2 ⟨hk.2, hk.1⟩)] at h
  obtain ⟨htable, hregs⟩ := learn_tables h
  refine ⟨_, ?_, htable, fun hbit => ?_⟩
  · split <;> rfl
  · have hshift : ¬ isJump o.op ∧ (p.kind = .BPred2Level ∨ p.kind = .BPredComb) := by
      refine ⟨hj, ?_⟩
      cases hkind : p.kind with
      | BPredComb => exact .inr rfl
      | BPred2Level => exact .inl rfl
      | BPred2bit => exact absurd hkind hbit
      | BPredTaken => exact absurd hkind hk.1
      | BPredNotTaken => exact absurd hkind hk.2
    rw [hregs, if_pos hshift]
    rfl

theorem Bpred.Trained.of_tables {past : List Executed} (h : pred.Trained past) (ht : pred'.table = pred.table)
    (hs : pred'.shiftregs = pred.shiftregs) : pred'.Trained past := by
  refine ⟨fun hk => ?_, fun hk => ?_, fun hk => ?_⟩
  · rw [hs]
    exact h.history hk
  · rw [ht]
    exact h.twolev hk
  · rw [ht]
    exact h.bimod hk

/-- One instruction adds itself to the past if it is a conditional branch. -/
theorem Bpred.Trained.execute (hk : p.kind.Stateful) {past : List Executed} {e : Executed} (h : pred.Trained past)
    (hr : pred.execute e = .ok pred') : pred'.Trained (past ++ [e].filter Executed.isBranch) := by
  unfold Bpred.execute at hr
  by_cases hc : isCtrl e.q.op
  · rw [if_pos hc] at hr
    obtain ⟨⟨pred_PC, looked, update_rec, i⟩, hl, hu⟩ := bind_ok.1 hr
    obtain ⟨htable, hregs, ras, hrec⟩ := bpred_lookup_record hk hc hl
    dsimp only at htable hregs hrec hu
    by_cases hj : isJump e.q.op
    · rw [if_pos hj] at hrec
      subst hrec
      obtain ⟨ht, hs⟩ := bpred_update_jump hk hj rfl rfl rfl hu
      have hnone : [e].filter Executed.isBranch = [] := by simp [Executed.isBranch, hj]
      rw [hnone, List.append_nil]
      exact h.of_tables (ht.trans htable) (hs.trans hregs)
    · rw [if_neg hj] at hrec
      subst hrec
      obtain ⟨trained, ht, ht', hs⟩ := bpred_update_branch hk hc hj hu
      have hone : [e].filter Executed.isBranch = [e] := by simp [Executed.isBranch, hc, hj]
      rw [hone]
      refine ⟨fun hbit k => ?_, fun hbit i => ?_, fun hlev i => ?_⟩
      · rw [hs hbit, Adaptive.Scheme.history_concat, ← h.history hbit, ← hregs]
        by_cases hslot : p.twolevScheme.slot e = k
        · subst hslot
          rw [if_pos rfl]
          exact update_self ..
        · rw [if_neg hslot]
          exact update_of_ne (Ne.symm hslot) ..
      · have hd : p.kind.Has .twolev := hbit
        rw [ht', train_table hk hd, ht, htable, twolevOutcomes_concat, ← h.history hbit]
        by_cases hi : p.l2entry e.q.baddr (pred.shiftregs (p.l1index e.q.baddr)) = i
        · subst hi
          rw [if_pos rfl, counterAfter_concat, ← h.twolev hbit]
          exact update_self ..
        · rw [if_neg hi, List.append_nil, ← h.twolev hbit]
          exact update_of_ne (Ne.symm hi) ..
      · have hd : p.kind.Has .bimod := hlev
        rw [ht', train_table hk hd, ht, htable, bimodOutcomes_concat]
        by_cases hi : BIMOD_HASH p.bimod_size e.q.baddr = i
        · subst hi
          rw [if_pos rfl, counterAfter_concat, ← h.bimod hlev]
          exact update_self ..
        · rw [if_neg hi, List.append_nil, ← h.bimod hlev]
          exact update_of_ne (Ne.symm hi) ..
  · rw [if_neg hc] at hr
    cases hr
    have hnone : [e].filter Executed.isBranch = [] := by simp [Executed.isBranch, hc]
    rw [hnone, List.append_nil]
    exact h

/-! ## Runs -/

theorem written_update {o o' : Resolved} {u : Update} (h : o' ∈ (Op.update o u).written) : o' = o ∧ o.taken := by
  rw [Op.written] at h
  split at h
  case isTrue hw => exact ⟨(Option.some.inj h).symm, hw.2.2⟩
  case isFalse => cases h

/-- An instruction that enters no branch at address 0 does not stop. -/
theorem execute_runs (hk : p.kind.Stateful) (hz : p.Sized) {m : Word → List (Addr × Addr)} (h : pred.Remembers m)
    {e : Executed} (hb : e.taken → e.q.baddr ≠ 0) : ∃ pred' m', pred.execute e = .ok pred' ∧ pred'.Remembers m' := by
  unfold Bpred.execute
  by_cases hc : isCtrl e.q.op
  · obtain ⟨⟨pred_PC, looked, update_rec, i⟩, hl, hlooked⟩ := h.lookup hk hz e.q e.update_rec e.stack_idx
    have hop : (Op.update (e.resolved (if pred_PC = 0 then e.q.baddr + 8 else pred_PC)) update_rec).Sound p := by
      refine ⟨fun o ho => ?_, fun _ hi => ?_⟩
      · obtain ⟨rfl, ht⟩ := written_update ho
        exact hb ht
      · cases hi
    obtain ⟨pred', hu, hpred⟩ := hlooked.step hk hz hop
    rw [if_pos hc, hl]
    exact ⟨pred', _, hu, hpred⟩
  · rw [if_neg hc]
    exact ⟨pred, m, rfl, h⟩

theorem executeAll_runs (hk : p.kind.Stateful) (hz : p.Sized) {m : Word → List (Addr × Addr)} (h : pred.Remembers m)
    {past es : List Executed} (ht : pred.Trained past) (hb : ∀ e ∈ es, e.taken → e.q.baddr ≠ 0) :
    ∃ pred', pred.executeAll es = .ok pred' ∧ pred'.Trained (past ++ es.filter Executed.isBranch) := by
  induction es generalizing pred m past with
  | nil => exact ⟨pred, rfl, by rwa [List.filter_nil, List.append_nil]⟩
  | cons e es ih =>
    obtain ⟨next, m', hnext, hrem⟩ := execute_runs hk hz h (hb e (List.mem_cons_self ..))
    obtain ⟨pred', hrun, hpred⟩ := ih hrem (ht.execute hk hnext) fun e' he => hb e' (List.mem_cons_of_mem _ he)
    refine ⟨pred', ?_, ?_⟩
    · rw [Bpred.executeAll, hnext]
      exact hrun
    · rwa [List.append_assoc, ← List.filter_append] at hpred

/-- The counter that decides a direction: `chooser` is the one of the third table. -/
def Params.decider (p : Params) (past : List Executed) (chooser : Nat) (baddr : Addr) : Nat :=
  let l2 := p.l2entry baddr (p.twolevScheme.history 0 past (p.l1index baddr))
  let twolev := counterAfter l2 (p.twolevOutcomes past l2)
  let index := BIMOD_HASH p.bimod_size baddr
  let bimod := counterAfter index (p.bimodOutcomes past index)
  match p.kind with
  | .BPredComb => if 2 ≤ chooser then twolev else bimod
  | .BPred2Level => twolev
  | _ => bimod

theorem Bpred.Trained.decider (hk : p.kind.Stateful) {past : List Executed} (h : pred.Trained past) (baddr : Addr)
    (u : Update) :
    ∃ a, (pred.pointers baddr u).pdir1 = some a ∧
      pred.counter a = p.decider past (pred.counter (pred.bpred_dir_lookup baddr .metapred)) baddr := by
  have htwolev (hbit : p.kind ≠ .BPred2bit) : pred.counter (pred.bpred_dir_lookup baddr .twolev) =
      counterAfter (p.l2entry baddr (p.twolevScheme.history 0 past (p.l1index baddr)))
        (p.twolevOutcomes past (p.l2entry baddr (p.twolevScheme.history 0 past (p.l1index baddr)))) := by
    rw [← h.twolev hbit, ← h.history hbit]
    rfl
  have hbimod (hlev : p.kind ≠ .BPred2Level) : pred.counter (pred.bpred_dir_lookup baddr .bimod) =
      counterAfter (BIMOD_HASH p.bimod_size baddr) (p.bimodOutcomes past (BIMOD_HASH p.bimod_size baddr)) :=
    h.bimod hlev _
  unfold Bpred.pointers Params.decider
  cases hkind : p.kind with
  | BPred2Level =>
    rw [hkind] at htwolev
    exact ⟨_, rfl, htwolev (by rintro ⟨⟩)⟩
  | BPred2bit =>
    rw [hkind] at hbimod
    exact ⟨_, rfl, hbimod (by rintro ⟨⟩)⟩
  | BPredComb =>
    rw [hkind] at htwolev hbimod
    refine ⟨_, rfl, ?_⟩
    dsimp only
    by_cases hc : 2 ≤ pred.counter (pred.bpred_dir_lookup baddr .metapred)
    · rw [if_pos hc, if_pos hc, htwolev (by rintro ⟨⟩)]
    · rw [if_neg hc, if_neg hc, hbimod (by rintro ⟨⟩)]
  | BPredTaken => exact absurd hkind hk.1
  | BPredNotTaken => exact absurd hkind hk.2

/-- The predicted address of a conditional branch: the target in the BTB if the deciding counter says so. -/
theorem bpred_lookup_branch (hk : p.kind.Stateful) {past : List Executed} (h : pred.Trained past) {q : Query}
    (hc : isCtrl q.op) (hj : ¬ isJump q.op) (hret : ¬ (q.is_return ∧ p.size ≠ 0)) (u : Update) (i : Nat)
    {target : Option Addr} (ht : pred.btbTarget q.baddr = .ok target) :
    ∃ r, pred.bpred_lookup q u i = .ok r ∧
      r.1 = if 2 ≤ p.decider past (pred.counter (pred.bpred_dir_lookup q.baddr .metapred)) q.baddr then
        target.getD 1 else 0 := by
  have hcounted : Bpred.Trained { pred with stats := { pred.stats with lookups := pred.stats.lookups + 1 } } past :=
    h.of_tables rfl rfl
  obtain ⟨a, ha, hcounter⟩ := hcounted.decider hk q.baddr u.cleared
  obtain ⟨stack, tos, stats, hpush, -⟩ := Bpred.push_frame
    { pred with stats := { pred.stats with lookups := pred.stats.lookups + 1 } } (q.is_call ∧ p.size ≠ 0) q.baddr
  have hsame : Bpred.btbTarget { pred with stack, tos, stats } q.baddr = .ok target := ht
  have hdecider : pred.counter a =
      p.decider past (pred.counter (pred.bpred_dir_lookup q.baddr .metapred)) q.baddr := hcounter
  dsimp only [Update.cleared] at ha
  rw [bpred_lookup_stateful hk hc]
  unfold Bpred.lookupStateful
  dsimp only
  rw [if_neg hret, hpush, hsame, if_neg hj, ha, ← hdecider]
  exact ⟨_, if_neg hj, rfl⟩

/-- In every run of `sim-bpred` that takes no branch at address 0, the predictor predicts each conditional branch by the
outcomes so far: by a two-bit counter that has seen the outcomes of the branches that chose the same counter, each by
the history of its own slot when it came. -/
theorem directions_follow_outcomes (hk : p.kind.Stateful) (hf : p.Fits) (hc : bpred_create p = .ok pred)
    {es : List Executed} (hb : ∀ e ∈ es, e.taken → e.q.baddr ≠ 0) :
    ∃ pred', pred.executeAll es = .ok pred' ∧
      ∀ (q : Query) (u : Update) (i : Nat), isCtrl q.op → ¬ isJump q.op → ¬ (q.is_return ∧ p.size ≠ 0) →
        ∃ target r, pred'.btbTarget q.baddr = .ok target ∧ pred'.bpred_lookup q u i = .ok r ∧
          r.1 = if 2 ≤ p.decider (es.filter Executed.isBranch)
              (pred'.counter (pred'.bpred_dir_lookup q.baddr .metapred)) q.baddr then target.getD 1 else 0 := by
  obtain ⟨rfl, hz⟩ := create_ok hk hf hc
  obtain ⟨pred', hrun, hpred⟩ := executeAll_runs hk hz (remembers_created p) (trained_created p) hb
  refine ⟨pred', hrun, fun q u i hctrl hj hret => ?_⟩
  have htarget := hz.btbTarget pred' q.baddr
  obtain ⟨r, hr, ha⟩ := bpred_lookup_branch hk hpred hctrl hj hret u i htarget
  exact ⟨_, r, htarget, hr, ha⟩

/-- A branch that is taken. -/
def takenBranch : Executed := ⟨⟨0x400000, 0x400100, .BEQ, false, false⟩, .blank, 0, 0x400100⟩

theorem directions_follow_outcomes_taken : ∃ pred pred' target r, bpred_create bimodal = .ok pred ∧
    pred.executeAll [takenBranch] = .ok pred' ∧ pred'.btbTarget 0x400000 = .ok target ∧
      pred'.bpred_lookup takenBranch.q .blank 0 = .ok r ∧ r.1 = target.getD 1 := by
  have hb : ∀ e ∈ [takenBranch], e.taken → e.q.baddr ≠ 0 := by decide
  obtain ⟨pred', hrun, hbranch⟩ := directions_follow_outcomes bimodal_stateful bimodal_fits rfl hb
  obtain ⟨target, r, ht, hr, ha⟩ := hbranch takenBranch.q .blank 0 rfl (by decide) (by decide)
  refine ⟨_, pred', target, r, rfl, hrun, ht, hr, ?_⟩
  rw [ha]
  exact if_pos (Nat.le_refl 2)

end Branch
