import CompArch.Branch.Sets
import CompArch.Branch.Stack
/-!
# The branch target buffer

Over whole runs: what the calls of the predictor do to the maps of the sets, and which
jumps are predicted for it.
-/

namespace Branch

open Function LruMap Outcome Pisa

variable {p : Params} {pred pred' : Bpred p} {m : Word → List (Addr × Addr)} {ops : List Op}

/-! ## Sizes -/

/-- The sizes fit in an `int`, and so does the number of entries of the BTB. -/
structure Params.Fits (p : Params) : Prop where
  l1size : p.l1size.toNat < 2 ^ 31
  l2size : p.l2size.toNat < 2 ^ 31
  retstack : p.size < 2 ^ 31
  btb : p.btb_sets.toNat * p.assoc < 2 ^ 31

/-- Sizes with a BTB that is not empty. -/
structure Params.Sized (p : Params) : Prop extends p.Fits where
  sets : 0 < p.btb_sets.toNat
  assoc : 0 < p.assoc

theorem Params.btbIndex_lt (h : 0 < p.btb_sets.toNat) (baddr : Addr) : (p.btbIndex baddr).toNat < p.btb_sets.toNat := by
  have hle : (p.btbIndex baddr).toNat ≤ (p.btb_sets - 1).toNat := by
    rw [Params.btbIndex, BitVec.toNat_and]
    exact Nat.and_le_right
  bv_omega

/-- Every set is in the BTB. -/
theorem Params.Sized.btbSet (h : p.Sized) (pred : Bpred p) (baddr : Addr) :
    pred.btbSet baddr = .ok (pred.btb_data (p.btbIndex baddr)) := by
  have hentries : p.entries.toNat = p.btb_sets.toNat * p.assoc := by
    rw [Params.entries, BitVec.toNat_mul]
    exact Nat.mod_eq_of_lt (Nat.lt_of_lt_of_le h.btb (by decide))
  refine if_pos ?_
  rw [hentries, ← Nat.succ_mul]
  exact Nat.mul_le_mul_right p.assoc (p.btbIndex_lt h.sets baddr)

theorem Params.Sized.btbTarget (h : p.Sized) (pred : Bpred p) (baddr : Addr) : pred.btbTarget baddr =
    .ok (((pred.btb_data (p.btbIndex baddr)).find baddr).map (pred.btb_data (p.btbIndex baddr)).target) := by
  rw [Bpred.btbTarget, h.btbSet]
  rfl

/-- Sizes with a product of `2 ^ 32` leave no entry. -/
example : (Bpred.created { bimodal with btb_sets := 65536, btb_assoc := 65536 }).btbTarget 0x400000 = .error .bounds :=
  rfl

theorem check_ok {fails : Bool} {text : String} (h : check fails text = .ok ()) : fails = false := by
  cases fails with
  | false => rfl
  | true => cases h

theorem pos_of_check {x : Word} {text : String} (h : check (bad x) text = .ok ()) : 0 < x.toNat := by
  refine Nat.pos_of_ne_zero fun hz => ?_
  have hbad : bad x = true := decide_eq_true (.inl (BitVec.eq_of_toNat_eq hz))
  cases hbad.symm.trans (check_ok h)

theorem sized_of_check (hf : p.Fits) (h : checkStateful p = .ok ()) : p.Sized := by
  obtain ⟨_, hsets, h⟩ := bind_ok.1 h
  obtain ⟨_, hassoc, -⟩ := bind_ok.1 h
  exact { toFits := hf, sets := pos_of_check hsets, assoc := pos_of_check hassoc }

/-- What is created has a BTB that is not empty. -/
theorem create_ok (hk : p.kind.Stateful) (hf : p.Fits) (h : bpred_create p = .ok pred) :
    pred = .created p ∧ p.Sized := by
  unfold bpred_create at h
  generalize hkind : p.kind = k at h
  cases k with
  | BPredComb =>
    obtain ⟨-, -, h⟩ := bind_ok.1 h
    obtain ⟨-, -, h⟩ := bind_ok.1 h
    obtain ⟨-, -, h⟩ := bind_ok.1 h
    obtain ⟨_, hs, h⟩ := bind_ok.1 h
    exact ⟨(Except.ok.inj h).symm, sized_of_check hf hs⟩
  | BPred2Level | BPred2bit =>
    obtain ⟨-, -, h⟩ := bind_ok.1 h
    obtain ⟨_, hs, h⟩ := bind_ok.1 h
    exact ⟨(Except.ok.inj h).symm, sized_of_check hf hs⟩
  | BPredTaken => exact absurd hkind hk.1
  | BPredNotTaken => exact absurd hkind hk.2

/-! ## One call -/

/-- The branch that a call enters into the BTB. -/
def Op.written : Op → Option Resolved
  | .update o u => if isCtrl o.op ∧ ¬ (MD_IS_INDIR o.op ∧ u.ras) ∧ o.taken then some o else none
  | _ => none

/-- The entry of the stack that a call goes back to. -/
def Op.recovered : Op → Option Nat
  | .recover i => some i
  | _ => none

/-- A call that enters no branch at address 0, and goes back to an entry of the stack only. -/
def Op.Sound (p : Params) (op : Op) : Prop :=
  (∀ o ∈ op.written, o.baddr ≠ 0) ∧ ∀ i ∈ op.recovered, p.size ≠ 0 → i < p.size

instance (p : Params) : DecidablePred (Op.Sound p) := fun _ => inferInstanceAs (Decidable (_ ∧ _))

/-- A branch enters its set. -/
def remember (n : Nat) (l : List (Addr × Addr)) (o : Resolved) : List (Addr × Addr) :=
  put n o.baddr (BtbSet.newTarget l o.baddr o.btarget o.correct) l

/-- The maps of all sets, after a branch. -/
def Params.enter (p : Params) (m : Word → List (Addr × Addr)) (o : Resolved) : Word → List (Addr × Addr) :=
  update m (p.btbIndex o.baddr) (remember p.assoc (m (p.btbIndex o.baddr)) o)

/-- The sets of the BTB are in order and hold the maps `m`, and the top of the stack is in the stack. -/
structure Bpred.Remembers (pred : Bpred p) (m : Word → List (Addr × Addr)) : Prop where
  sets (set : Word) : (∃ xs, (pred.btb_data set).Ordered xs) ∧ (pred.btb_data set).contents = m set
  tos : p.size ≠ 0 → pred.tos < p.size

theorem remembers_created (p : Params) : (Bpred.created p).Remembers fun _ => [] := by
  refine ⟨fun set => ?_, fun hs => Nat.sub_lt (Nat.pos_of_ne_zero hs) Nat.one_pos⟩
  have hord := BtbSet.ordered_created p.assoc
  refine ⟨⟨_, hord⟩, ?_⟩
  show (BtbSet.created p.assoc).contents = []
  rw [BtbSet.contents, hord.order]
  exact List.filterMap_eq_nil_iff.2 fun _ _ => if_pos rfl

theorem Bpred.Remembers.of_data (h : pred.Remembers m) (hd : pred'.btb_data = pred.btb_data)
    (ht : p.size ≠ 0 → pred'.tos < p.size) : pred'.Remembers m := by
  refine ⟨fun set => ?_, ht⟩
  rw [hd]
  exact h.sets set

theorem Bpred.Remembers.btbTarget (h : pred.Remembers m) (hz : p.Sized) {baddr : Addr} (hb : baddr ≠ 0) :
    pred.btbTarget baddr = .ok (get (m (p.btbIndex baddr)) baddr) := by
  obtain ⟨⟨xs, hord⟩, hm⟩ := h.sets (p.btbIndex baddr)
  rw [hz.btbTarget, ← hm, hord.get hb]

/-- A lookup of a predictor with state does not stop, and leaves the BTB alone. -/
theorem Bpred.Remembers.lookup (hk : p.kind.Stateful) (hz : p.Sized) (h : pred.Remembers m) (q : Query) (u : Update)
    (i : Nat) : ∃ r, pred.bpred_lookup q u i = .ok r ∧ r.2.1.Remembers m := by
  by_cases hc : isCtrl q.op
  · rw [bpred_lookup_stateful hk hc]
    unfold Bpred.lookupStateful
    dsimp only
    by_cases hret : q.is_return ∧ p.size ≠ 0
    · rw [if_pos hret, if_pos (h.tos hret.2)]
      exact ⟨_, rfl, h.of_data rfl fun hs => Nat.mod_lt _ (Nat.pos_of_ne_zero hs)⟩
    · obtain ⟨stack, tos, stats, hpush, htos⟩ := Bpred.push_frame
        { pred with stats := { pred.stats with lookups := pred.stats.lookups + 1 } } (q.is_call ∧ p.size ≠ 0) q.baddr
      have hpushed : Bpred.Remembers { pred with stack, tos, stats } m := h.of_data rfl fun hs => htos (h.tos hs)
      rw [if_neg hret, hpush, hz.btbTarget]
      by_cases hj : isJump q.op
      · rw [if_pos hj]
        exact ⟨_, if_pos hj, hpushed⟩
      · -- a conditional branch has a first pointer in each class
        obtain ⟨a, ha⟩ : ∃ a, (Bpred.pointers
            { pred with stats := { pred.stats with lookups := pred.stats.lookups + 1 } : Bpred p } q.baddr
            { u with ras := false, pdir1 := none, pdir2 := none, pmeta := none }).pdir1 = some a := by
          unfold Bpred.pointers
          cases hkind : p.kind with
          | BPredComb | BPred2Level | BPred2bit => exact ⟨_, rfl⟩
          | BPredTaken => exact absurd hkind hk.1
          | BPredNotTaken => exact absurd hkind hk.2
        rw [if_neg hj, ha]
        exact ⟨_, if_neg hj, hpushed⟩
  · unfold Bpred.bpred_lookup
    rw [if_pos hc]
    exact ⟨_, rfl, h⟩

theorem Bpred.Remembers.learn (hz : p.Sized) (h : pred.Remembers m) {o : Resolved} (hb : o.taken → o.baddr ≠ 0)
    (u : Update) :
    ∃ pred', pred.learn o u = .ok pred' ∧ pred'.Remembers (if o.taken then p.enter m o else m) := by
  obtain ⟨regs, hshift⟩ :=
    pred.shift_regs (¬ isJump o.op ∧ (p.kind = .BPred2Level ∨ p.kind = .BPredComb)) o.baddr o.taken
  obtain ⟨table, htrain⟩ := Bpred.train_tables { pred with shiftregs := regs } o.taken u
  unfold Bpred.learn
  dsimp only
  rw [hshift, htrain]
  by_cases ht : o.taken
  · obtain ⟨⟨xs, hord⟩, hm⟩ := h.sets (p.btbIndex o.baddr)
    obtain ⟨i, s, hselect, hsel⟩ := hord.select hz.assoc (hord.uniq (hb ht))
    obtain ⟨hord', hwritten⟩ := hsel.write hord (hb ht) o.btarget o.correct
    have hentry : Bpred.btbEntry { pred with shiftregs := regs } o.baddr o.taken = .ok (some (i, s)) := by
      rw [Bpred.btbEntry, if_pos ht, hz.btbSet]
      show (BtbSet.select (pred.btb_data (p.btbIndex o.baddr)) o.baddr >>= _) = _
      rw [hselect]
      rfl
    rw [hentry, if_pos ht]
    refine ⟨_, bind_ok.2 ⟨_, rfl, bind_ok.2 ⟨(), by rw [ht]; rfl, rfl⟩⟩, fun set => ?_, h.tos⟩
    dsimp only
    rw [Params.enter]
    by_cases hset : set = p.btbIndex o.baddr
    · subst hset
      rw [update_self, update_self]
      exact ⟨⟨_, hord'⟩, by rw [hwritten, hm, remember]⟩
    · rw [update_of_ne hset, update_of_ne hset]
      exact h.sets set
  · rw [Bpred.btbEntry, if_neg ht, if_neg ht]
    exact ⟨_, rfl, h.of_data rfl h.tos⟩

/-- One call does not stop, and does to the BTB what it does to the maps. -/
theorem Bpred.Remembers.step (hk : p.kind.Stateful) (hz : p.Sized) (h : pred.Remembers m) {op : Op}
    (hop : op.Sound p) :
    ∃ pred', pred.step op = .ok pred' ∧ pred'.Remembers (op.written.toList.foldl p.enter m) := by
  cases op with
  | lookup q u i =>
    obtain ⟨r, hr, hpred⟩ := h.lookup hk hz q u i
    refine ⟨r.2.1, ?_, hpred⟩
    rw [Bpred.step, hr]
    rfl
  | recover i => exact ⟨_, rfl, h.of_data rfl (hop.2 i rfl)⟩
  | update o u =>
    show ∃ pred', pred.bpred_update o u = .ok pred' ∧ _
    unfold Bpred.bpred_update
    by_cases hc : isCtrl o.op
    · rw [if_neg (not_not_intro hc)]
      dsimp only
      by_cases hras : MD_IS_INDIR o.op ∧ u.ras
      · rw [if_pos hras]
        refine ⟨_, rfl, ?_⟩
        rw [Op.written, if_neg fun hw => hw.2.1 hras]
        exact h.of_data rfl h.tos
      · rw [if_neg hras, if_neg (not_or.2 ⟨hk.2, hk.1⟩)]
        have hb : o.taken → o.baddr ≠ 0 := fun ht => hop.1 o (by rw [Op.written, if_pos ⟨hc, hras, ht⟩]; rfl)
        have hcounted : Bpred.Remembers { pred with stats := Bpred.count o u pred.stats } m := h.of_data rfl h.tos
        obtain ⟨pred', hlearn, hr⟩ := hcounted.learn hz hb u
        refine ⟨pred', hlearn, ?_⟩
        by_cases ht : o.taken
        · rw [Op.written, if_pos ⟨hc, hras, ht⟩]
          rwa [if_pos ht] at hr
        · rw [Op.written, if_neg fun hw => ht hw.2.2]
          rwa [if_neg ht] at hr
    · rw [if_pos hc]
      refine ⟨_, rfl, ?_⟩
      rw [Op.written, if_neg fun hw => hc hw.1]
      exact h

/-! ## Runs -/

/-- The maps of the sets after a run. -/
def Params.entered (p : Params) (ops : List Op) : Word → List (Addr × Addr) :=
  (ops.filterMap Op.written).foldl p.enter fun _ => []

theorem Bpred.Remembers.run (hk : p.kind.Stateful) (hz : p.Sized) (h : pred.Remembers m)
    (hops : ∀ op ∈ ops, op.Sound p) :
    ∃ pred', pred.run ops = .ok pred' ∧ pred'.Remembers ((ops.filterMap Op.written).foldl p.enter m) := by
  induction ops generalizing pred m with
  | nil => exact ⟨pred, rfl, h⟩
  | cons op ops ih =>
    have hcons : (op :: ops).filterMap Op.written = op.written.toList ++ ops.filterMap Op.written := by
      rw [List.filterMap_cons]
      cases op.written <;> rfl
    obtain ⟨next, hstep, hnext⟩ := h.step hk hz (hops op (List.mem_cons_self ..))
    obtain ⟨pred', hrun, hpred⟩ := ih hnext fun op' hop => hops op' (List.mem_cons_of_mem op hop)
    refine ⟨pred', ?_, ?_⟩
    · rw [Bpred.run, hstep]
      exact hrun
    · rw [hcons, List.foldl_append]
      exact hpred

theorem isCtrl_of_isJump {op : Opcode} (h : isJump op) : isCtrl op := by
  cases op <;> first | rfl | exact h

/-- The predicted address of a jump is the target in the BTB. -/
theorem bpred_lookup_jump (hk : p.kind.Stateful) {q : Query} (hj : isJump q.op) (hret : ¬ (q.is_return ∧ p.size ≠ 0))
    (u : Update) (i : Nat) {target : Option Addr} (ht : pred.btbTarget q.baddr = .ok target) :
    ∃ r, pred.bpred_lookup q u i = .ok r ∧ r.1 = target.getD 1 := by
  obtain ⟨stack, tos, stats, hpush, -⟩ := Bpred.push_frame
    { pred with stats := { pred.stats with lookups := pred.stats.lookups + 1 } } (q.is_call ∧ p.size ≠ 0) q.baddr
  have hsame : Bpred.btbTarget { pred with stack, tos, stats } q.baddr = .ok target := ht
  rw [bpred_lookup_stateful hk (isCtrl_of_isJump hj)]
  unfold Bpred.lookupStateful
  dsimp only
  rw [if_neg hret, hpush, hsame]
  exact ⟨_, if_pos hj, rfl⟩

theorem foldl_enter (os : List Resolved) (m : Word → List (Addr × Addr)) (set : Word) :
    os.foldl p.enter m set = (os.filter fun o => p.btbIndex o.baddr = set).foldl (remember p.assoc) (m set) := by
  induction os generalizing m with
  | nil => rfl
  | cons o os ih =>
    rw [List.foldl_cons, ih, Params.enter]
    by_cases hset : p.btbIndex o.baddr = set
    · rw [List.filter_cons_of_pos (by simpa using hset), List.foldl_cons, hset, update_self]
    · rw [List.filter_cons_of_neg (by simpa using hset), update_of_ne (Ne.symm hset)]

theorem created_run (hk : p.kind.Stateful) (hf : p.Fits) (hc : bpred_create p = .ok pred)
    (hops : ∀ op ∈ ops, op.Sound p) :
    ∃ pred', pred.run ops = .ok pred' ∧ pred'.Remembers (p.entered ops) ∧ p.Sized := by
  obtain ⟨rfl, hz⟩ := create_ok hk hf hc
  obtain ⟨pred', hrun, hpred⟩ := (remembers_created p).run hk hz hops
  exact ⟨pred', hrun, hpred, hz⟩

/-- In every run that enters no branch at address 0 and goes back to entries of the stack only, no assertion fails, no
null pointer is met and no entry outside the BTB or the stack is used, and the BTB is in each set a map of bounded size
that forgets the branch entered least recently. -/
theorem btb_is_a_map (hk : p.kind.Stateful) (hf : p.Fits) (hc : bpred_create p = .ok pred)
    (hops : ∀ op ∈ ops, op.Sound p) :
    ∃ pred', pred.run ops = .ok pred' ∧
      ∀ baddr, baddr ≠ 0 → pred'.btbTarget baddr = .ok (get (p.entered ops (p.btbIndex baddr)) baddr) := by
  obtain ⟨pred', hrun, hpred, hz⟩ := created_run hk hf hc hops
  exact ⟨pred', hrun, fun baddr hb => hpred.btbTarget hz hb⟩

/-- Two jumps of one set. -/
def firstJump : Resolved := ⟨0x400000, 0x400800, true, true, false, .JUMP⟩

def secondJump : Resolved := ⟨0x400010, 0x400900, true, true, false, .JUMP⟩

theorem bimodal_fits : bimodal.Fits := ⟨by decide, by decide, by decide, by decide⟩

theorem btb_is_a_map_jumps : ∃ pred pred', bpred_create bimodal = .ok pred ∧
    pred.run [.update firstJump .blank, .recover 1, .update secondJump .blank] = .ok pred' ∧
      pred'.btbTarget 0x400000 = .ok (some 0x400800) := by
  have hops : ∀ op ∈ [Op.update firstJump .blank, .recover 1, .update secondJump .blank], op.Sound bimodal := by decide
  obtain ⟨pred', hrun, hmap⟩ := btb_is_a_map bimodal_stateful bimodal_fits rfl hops
  refine ⟨_, pred', rfl, hrun, ?_⟩
  rw [hmap 0x400000 (by decide)]
  rfl

/-- A branch at address 0 matches the entries that are not used. -/
example : (Bpred.created bimodal).run [.update { firstJump with baddr := 0 } .blank] = .error .assertion := rfl

/-- The other branches of the set that are entered. -/
def Params.rivals (p : Params) (baddr : Addr) (ops : List Op) : Finset Addr :=
  ((((ops.filterMap Op.written).filter fun o => p.btbIndex o.baddr = p.btbIndex baddr).map (·.baddr)).filter
    (· ≠ baddr)).toFinset

/-- A jump whose target was corrected is predicted to go there until it is corrected again, while fewer other branches
of its set are entered than the set has entries, in every run that enters no branch at address 0 and goes back to
entries of the stack only. -/
theorem corrected_jumps_stay {o : Resolved} {u : Update} {ops' : List Op} (hk : p.kind.Stateful) (hf : p.Fits)
    (hc : bpred_create p = .ok pred) (hw : (Op.update o u).written = some o) (hnew : ¬ o.correct)
    (hops : ∀ op ∈ ops ++ .update o u :: ops', op.Sound p)
    (hsame : ∀ o' ∈ ops'.filterMap Op.written, o'.baddr = o.baddr → o'.correct)
    (hn : (p.rivals o.baddr ops').card < p.assoc) :
    ∃ pred', pred.run (ops ++ .update o u :: ops') = .ok pred' ∧
      ∀ (q : Query) (u' : Update) (i : Nat), q.baddr = o.baddr → isJump q.op → ¬ (q.is_return ∧ p.size ≠ 0) →
        ∃ r, pred'.bpred_lookup q u' i = .ok r ∧ r.1 = o.btarget := by
  obtain ⟨pred', hrun, hpred, hz⟩ := created_run hk hf hc hops
  refine ⟨pred', hrun, fun q u' i hq hj hret => ?_⟩
  have hb : o.baddr ≠ 0 := (hops _ (List.mem_append_right ops (List.mem_cons_self ..))).1 o hw
  have htarget : get (p.entered (ops ++ .update o u :: ops') (p.btbIndex o.baddr)) o.baddr = some o.btarget := by
    rw [Params.entered, List.filterMap_append, List.filterMap_cons_some hw, List.foldl_append, List.foldl_cons,
      foldl_enter, Params.enter, update_self, remember, BtbSet.newTarget, if_neg hnew]
    have hfirst := behind_put (Nat.zero_lt_of_lt hn) o.baddr o.btarget
      ((ops.filterMap Op.written).foldl p.enter (fun _ => []) (p.btbIndex o.baddr))
    refine hfirst.puts Resolved.baddr (fun l o => BtbSet.newTarget l o.baddr o.btarget o.correct) ?_ ?_
    · intro o' ho' hbaddr l hl
      rw [BtbSet.newTarget, if_pos (hsame o' (List.mem_of_mem_filter ho') hbaddr), hbaddr, hl]
      rfl
    · rw [Finset.empty_union]
      exact hn
  have hbtb := hpred.btbTarget hz hb
  rw [htarget, ← hq] at hbtb
  obtain ⟨r, hr, ha⟩ := bpred_lookup_jump hk hj hret u' i hbtb
  exact ⟨r, hr, ha⟩

theorem corrected_jumps_stay_pair : ∃ pred pred' r, bpred_create bimodal = .ok pred ∧
    pred.run [.recover 0, .update firstJump .blank, .update secondJump .blank] = .ok pred' ∧
      pred'.bpred_lookup ⟨0x400000, 0x400800, .JUMP, false, false⟩ .blank 0 = .ok r ∧ r.1 = 0x400800 := by
  have hops : ∀ op ∈ [Op.recover 0] ++ Op.update firstJump .blank :: [.update secondJump .blank], op.Sound bimodal := by
    decide
  obtain ⟨pred', hrun, hstays⟩ := corrected_jumps_stay bimodal_stateful bimodal_fits rfl rfl (by decide) hops
    (by decide) (by decide)
  obtain ⟨r, hr, ha⟩ := hstays ⟨0x400000, 0x400800, .JUMP, false, false⟩ .blank 0 rfl rfl (by decide)
  exact ⟨_, pred', r, rfl, hrun, hr, ha⟩

end Branch
