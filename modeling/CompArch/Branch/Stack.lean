import CompArch.Branch.Predictor
import CompArch.Outcome
import CompArch.RingStack
/-!
# The return-address stack

Whatever else is looked up and updated in between, the stack holds the addresses to
return to, the newest first, and forgets the oldest when it is full.
-/

namespace Branch

open Function Outcome Pisa RingStack

variable {p : Params} {pred pred' : Bpred p} {l : List Addr}

/-- The classes with a BTB and a stack. -/
def BpredClass.Stateful (k : BpredClass) : Prop := k ≠ .BPredTaken ∧ k ≠ .BPredNotTaken

def Bpred.ring (pred : Bpred p) : RingStack.Stack Addr := ⟨pred.tos, pred.stack⟩

/-! ## One call -/

/-- A lookup of a branch by a predictor with state. -/
theorem bpred_lookup_stateful (hk : p.kind.Stateful) {q : Query} (hc : isCtrl q.op) (u : Update) (i : Nat) :
    pred.bpred_lookup q u i =
      { pred with stats := { pred.stats with lookups := pred.stats.lookups + 1 } : Bpred p }.lookupStateful q
        { u with ras := false, pdir1 := none, pdir2 := none, pmeta := none } := by
  unfold Bpred.bpred_lookup
  rw [if_neg (not_not_intro hc)]
  cases hkind : p.kind with
  | BPredComb | BPred2Level | BPred2bit => rfl
  | BPredTaken => exact absurd hkind hk.1
  | BPredNotTaken => exact absurd hkind hk.2

/-- What the push of a call moves. -/
theorem Bpred.push_frame (pred : Bpred p) (c : Prop) [Decidable c] (baddr : Addr) :
    ∃ stack tos stats, (if c then pred.push baddr else pred) = { pred with stack, tos, stats } ∧
      (pred.tos < p.size → tos < p.size) := by
  split
  · exact ⟨_, _, _, rfl, fun h => Nat.mod_lt _ (Nat.zero_lt_of_lt h)⟩
  · exact ⟨pred.stack, pred.tos, pred.stats, rfl, id⟩

section Stateful
variable {q : Query} {u u' : Update} {i : Nat} {a : Addr}

theorem lookupStateful_return (hs : p.size ≠ 0) (hr : q.is_return)
    (h : pred.lookupStateful q u = .ok (a, pred', u', i)) : a = pred.ring.top ∧ pred'.ring = pred.ring.pop p.size := by
  unfold Bpred.lookupStateful at h
  dsimp only at h
  rw [if_pos ⟨hr, hs⟩] at h
  by_cases ht : pred.tos < p.size
  · rw [if_pos ht] at h
    cases h
    exact ⟨rfl, rfl⟩
  · rw [if_neg ht] at h
    cases h

theorem lookupStateful_push (hr : ¬ q.is_return) (h : pred.lookupStateful q u = .ok (a, pred', u', i)) :
    pred' = if q.is_call ∧ p.size ≠ 0 then pred.push q.baddr else pred := by
  unfold Bpred.lookupStateful at h
  dsimp only at h
  rw [if_neg fun hret => hr hret.1] at h
  obtain ⟨target, -, h⟩ := bind_ok.1 h
  by_cases hj : isJump q.op
  · rw [if_pos hj] at h
    exact (Prod.mk.inj (Prod.mk.inj (Except.ok.inj h)).2).1.symm
  · rw [if_neg hj] at h
    obtain ⟨pdir1, -, h⟩ := bind_ok.1 h
    exact (Prod.mk.inj (Prod.mk.inj (Except.ok.inj h)).2).1.symm

end Stateful

theorem bpred_lookup_plain {q : Query} {u u' : Update} {i i' : Nat} {a : Addr}
    (hq : isCtrl q.op → ¬ q.is_return ∧ ¬ q.is_call) (hk : p.kind.Stateful)
    (h : pred.bpred_lookup q u i = .ok (a, pred', u', i')) : pred'.ring = pred.ring := by
  by_cases hc : isCtrl q.op
  · rw [bpred_lookup_stateful hk hc] at h
    rw [lookupStateful_push (hq hc).1 h, if_neg fun hcall => (hq hc).2 hcall.1]
    rfl
  · unfold Bpred.bpred_lookup at h
    rw [if_pos hc] at h
    cases h
    rfl

/-- Training moves counters only. -/
theorem Bpred.adjust_tables (pred : Bpred p) (up : Bool) (a : Option Ptr) :
    ∃ table, pred.adjust up a = { pred with table } := by
  cases a with
  | none => exact ⟨pred.table, rfl⟩
  | some a => exact ⟨_, rfl⟩

theorem Bpred.train_tables (pred : Bpred p) (taken : Bool) (u : Update) :
    ∃ table, pred.train taken u = { pred with table } := by
  obtain ⟨table₁, h₁⟩ := pred.adjust_tables taken u.pdir1
  obtain ⟨table₂, h₂⟩ := (pred.adjust taken u.pdir1).adjust_tables taken u.pdir2
  rw [h₁] at h₂
  unfold Bpred.train
  dsimp only
  rw [h₁, h₂]
  split
  · obtain ⟨table₃, h₃⟩ := Bpred.adjust_tables { pred with table := table₂ } (u.twolev = taken) u.pmeta
    exact ⟨table₃, h₃⟩
  · exact ⟨table₂, rfl⟩

theorem Bpred.shift_regs (pred : Bpred p) (c : Prop) [Decidable c] (baddr : Addr) (taken : Bool) :
    ∃ shiftregs, (if c then pred.shift baddr taken else pred) = { pred with shiftregs } := by
  split
  · exact ⟨_, rfl⟩
  · exact ⟨pred.shiftregs, rfl⟩

theorem train_ring (taken : Bool) (u : Update) : (pred.train taken u).ring = pred.ring := by
  obtain ⟨table, h⟩ := pred.train_tables taken u
  rw [h]
  rfl

theorem learn_ring {o : Resolved} {u : Update} (h : pred.learn o u = .ok pred') : pred'.ring = pred.ring := by
  unfold Bpred.learn at h
  dsimp only at h
  obtain ⟨regs, hshift⟩ :=
    pred.shift_regs (¬ isJump o.op ∧ (p.kind = .BPred2Level ∨ p.kind = .BPredComb)) o.baddr o.taken
  rw [hshift] at h
  obtain ⟨pbtb, -, h⟩ := bind_ok.1 h
  cases pbtb with
  | none =>
    cases h
    exact train_ring o.taken u
  | some r =>
    obtain ⟨_, -, h⟩ := bind_ok.1 h
    cases h
    exact train_ring o.taken u

/-- An update leaves the stack alone. -/
theorem bpred_update_ring {o : Resolved} {u : Update} (h : pred.bpred_update o u = .ok pred') :
    pred'.ring = pred.ring := by
  unfold Bpred.bpred_update at h
  dsimp only at h
  split at h
  · cases h
    rfl
  · split at h
    · cases h
      rfl
    · split at h
      · cases h
        rfl
      · have hlearn := learn_ring h
        exact hlearn

/-! ## Runs -/

/-- Calls of the predictor that are about no call and no return of the program. -/
def Op.Plain : Op → Prop
  | .lookup q _ _ => isCtrl q.op → ¬ q.is_return ∧ ¬ q.is_call
  | .update _ _ => True
  | .recover _ => False

/-- The calls and returns of a program, no deeper than `d`, with anything else in between, and for each return the
instruction after its call. -/
inductive Nested : Nat → List Op → List Addr → Prop
  | nil (d : Nat) : Nested d [] []
  | plain {d : Nat} {op : Op} {ops : List Op} {as : List Addr} : op.Plain → Nested d ops as → Nested d (op :: ops) as
  | call {d : Nat} {q r : Query} {u u' : Update} {i i' : Nat} {body rest : List Op} {as as' : List Addr} :
      isCtrl q.op → q.is_call → ¬ q.is_return → isCtrl r.op → r.is_return → Nested d body as →
      Nested (d + 1) rest as' →
      Nested (d + 1) (.lookup q u i :: body ++ .lookup r u' i' :: rest) (as ++ (q.baddr + 8) :: as')

/-- A call of the predictor, and the address it predicts for a return. -/
def Bpred.answer (pred : Bpred p) : Op → Except Stop (List Addr × Bpred p)
  | .lookup q u i =>
    (pred.bpred_lookup q u i).map fun r => (if isCtrl q.op ∧ q.is_return then [r.1] else [], r.2.1)
  | op => (pred.step op).map ([], ·)

/-- The addresses predicted for the returns. -/
def Bpred.returns (pred : Bpred p) : List Op → Except Stop (List Addr × Bpred p)
  | [] => .ok ([], pred)
  | op :: ops => do
    let (predicted, pred) ← pred.answer op
    let (as, pred) ← pred.returns ops
    return (predicted ++ as, pred)

theorem returns_cons {op : Op} {ops : List Op} {r : List Addr × Bpred p} (h : pred.returns (op :: ops) = .ok r) :
    ∃ r₁ r₂, pred.answer op = .ok r₁ ∧ r₁.2.returns ops = .ok r₂ ∧ r = (r₁.1 ++ r₂.1, r₂.2) := by
  obtain ⟨r₁, h₁, h⟩ := bind_ok.1 h
  obtain ⟨r₂, h₂, h⟩ := bind_ok.1 h
  exact ⟨r₁, r₂, h₁, h₂, (Except.ok.inj h).symm⟩

theorem returns_append {ops ops' : List Op} {r : List Addr × Bpred p} (h : pred.returns (ops ++ ops') = .ok r) :
    ∃ r₁ r₂, pred.returns ops = .ok r₁ ∧ r₁.2.returns ops' = .ok r₂ ∧ r = (r₁.1 ++ r₂.1, r₂.2) := by
  induction ops generalizing pred r with
  | nil => exact ⟨([], pred), r, rfl, h, rfl⟩
  | cons op ops ih =>
    obtain ⟨r₁, r₂, h₁, h₂, rfl⟩ := returns_cons h
    obtain ⟨r₃, r₄, h₃, h₄, rfl⟩ := ih h₂
    refine ⟨(r₁.1 ++ r₃.1, r₃.2), r₄, ?_, h₄, ?_⟩
    · show (pred.answer op >>= _) = _
      rw [h₁]
      show (r₁.2.returns ops >>= _) = _
      rw [h₃]
      rfl
    · rw [List.append_assoc]

theorem answer_plain (hk : p.kind.Stateful) {op : Op} (ho : op.Plain) {r : List Addr × Bpred p}
    (h : pred.answer op = .ok r) : r.1 = [] ∧ r.2.ring = pred.ring := by
  cases op with
  | lookup q u i =>
    obtain ⟨⟨a, pred', u', i'⟩, hl, rfl⟩ := map_ok.1 h
    exact ⟨if_neg fun hr => (ho hr.1).1 hr.2, bpred_lookup_plain ho hk hl⟩
  | update o u =>
    obtain ⟨pred', hu, rfl⟩ := map_ok.1 h
    exact ⟨rfl, bpred_update_ring hu⟩
  | recover i => exact ho.elim

theorem answer_call (hk : p.kind.Stateful) (hs : p.size ≠ 0) {q : Query} {u : Update} {i : Nat} (hc : isCtrl q.op)
    (hcall : q.is_call) (hret : ¬ q.is_return) {r : List Addr × Bpred p} (h : pred.answer (.lookup q u i) = .ok r) :
    r.1 = [] ∧ r.2.ring = pred.ring.push p.size (q.baddr + 8) := by
  obtain ⟨⟨a, pred', u', i'⟩, hl, rfl⟩ := map_ok.1 h
  rw [bpred_lookup_stateful hk hc] at hl
  refine ⟨if_neg fun hr => hret hr.2, ?_⟩
  show pred'.ring = _
  rw [lookupStateful_push hret hl, if_pos ⟨hcall, hs⟩]
  rfl

theorem answer_return (hk : p.kind.Stateful) (hs : p.size ≠ 0) {q : Query} {u : Update} {i : Nat} (hc : isCtrl q.op)
    (hret : q.is_return) {r : List Addr × Bpred p} (h : pred.answer (.lookup q u i) = .ok r) :
    r.1 = [pred.ring.top] ∧ r.2.ring = pred.ring.pop p.size := by
  obtain ⟨⟨a, pred', u', i'⟩, hl, rfl⟩ := map_ok.1 h
  rw [bpred_lookup_stateful hk hc] at hl
  obtain ⟨rfl, hpop⟩ := lookupStateful_return hs hret hl
  exact ⟨if_pos ⟨hc, hret⟩, hpop⟩

/-- Calls no deeper than the stack leave the entries that they do not push out. -/
theorem Nested.holds (hk : p.kind.Stateful) {d : Nat} {ops : List Op} {as : List Addr} (hn : Nested d ops as)
    (hd : d ≤ p.size) {r : List Addr × Bpred p} (h : Holds p.size pred.ring l) (hr : pred.returns ops = .ok r) :
    r.1 = as ∧ Holds p.size r.2.ring (l.take (p.size - d)) := by
  induction hn generalizing pred l r with
  | nil d =>
    cases hr
    exact ⟨rfl, h.take _⟩
  | plain ho _ ih =>
    obtain ⟨r₁, r₂, h₁, h₂, rfl⟩ := returns_cons hr
    obtain ⟨has, hring⟩ := answer_plain hk ho h₁
    rw [← hring] at h
    obtain ⟨has₂, hh⟩ := ih hd h h₂
    exact ⟨by rw [has, has₂, List.nil_append], hh⟩
  | @call d q r' u u' i i' body rest as as' hc hcall hret hc' hret' _ _ ihb ihr =>
    have hs : p.size ≠ 0 := by omega
    obtain ⟨s₁, t₁, h₁, hr₁, rfl⟩ := returns_cons hr
    obtain ⟨s₂, t₂, h₂, hr₂, rfl⟩ := returns_append hr₁
    obtain ⟨s₃, s₄, h₃, h₄, rfl⟩ := returns_cons hr₂
    obtain ⟨has₁, hring₁⟩ := answer_call hk hs hc hcall hret h₁
    obtain ⟨has₃, hring₃⟩ := answer_return hk hs hc' hret' h₃
    have hpush := h.push (q.baddr + 8)
    rw [← hring₁] at hpush
    obtain ⟨has₂, hbody⟩ := ihb (by omega) hpush h₂
    -- the address pushed is still the newest entry
    have htop : (((q.baddr + 8) :: l).take p.size).take (p.size - d) = (q.baddr + 8) :: l.take (p.size - (d + 1)) := by
      obtain ⟨k, hk⟩ : ∃ k, p.size - d = k + 1 := ⟨p.size - (d + 1), by omega⟩
      have hk' : p.size - (d + 1) = k := by omega
      rw [List.take_take, Nat.min_eq_left (by omega), hk, hk', List.take_succ_cons]
    rw [htop] at hbody
    have hpop := hbody.pop
    rw [← hring₃] at hpop
    obtain ⟨has₄, hrest⟩ := ihr hd hpop h₄
    rw [List.take_take, Nat.min_self] at hrest
    refine ⟨?_, hrest⟩
    rw [has₁, has₂, has₃, has₄, hbody.top]
    rfl

/-- In every program whose calls are no deeper than the stack, every return is predicted to go to the instruction
after its call, whatever is looked up and updated in between and whatever the predictor held before. -/
theorem returns_are_predicted (hk : p.kind.Stateful) (htos : pred.tos < p.size) {d : Nat} {ops : List Op}
    {as : List Addr} (hn : Nested d ops as) (hd : d ≤ p.size) {r : List Addr × Bpred p}
    (hr : pred.returns ops = .ok r) : r.1 = as :=
  (hn.holds hk hd (holds_nil htos) hr).1

/-- A bimodal predictor with a stack of two entries. -/
def bimodal : Params where
  kind := .BPred2bit
  bimod_size := 4
  l1size := 0
  l2size := 0
  meta_size := 0
  shift_width := 0
  xor := false
  btb_sets := 2
  btb_assoc := 2
  retstack_size := 2

theorem bimodal_stateful : bimodal.kind.Stateful := by
  constructor
  · intro h
    cases h
  · intro h
    cases h

def Update.blank : Update := ⟨.none, .none, .none, false, false, false, false⟩

/-- A call, and the return from it. -/
theorem returns_are_predicted_call : ∃ pred r, bpred_create bimodal = .ok pred ∧
    pred.returns [.lookup ⟨0x400000, 0x400100, .JAL, true, false⟩ .blank 0,
      .lookup ⟨0x400100, 0, .JR, false, true⟩ .blank 0] = .ok r ∧ r.1 = [0x400008] := by
  have hn : Nested 1 [.lookup ⟨0x400000, 0x400100, .JAL, true, false⟩ .blank 0,
      .lookup ⟨0x400100, 0, .JR, false, true⟩ .blank 0] [0x400008] :=
    .call rfl rfl (by decide) rfl rfl (.nil 0) (.nil 1)
  obtain ⟨r, hr⟩ : ∃ r, (Bpred.created bimodal).returns [.lookup ⟨0x400000, 0x400100, .JAL, true, false⟩ .blank 0,
      .lookup ⟨0x400100, 0, .JR, false, true⟩ .blank 0] = .ok r := ⟨_, rfl⟩
  exact ⟨.created bimodal, r, rfl, hr, returns_are_predicted bimodal_stateful (by decide) hn (by decide) hr⟩

end Branch
