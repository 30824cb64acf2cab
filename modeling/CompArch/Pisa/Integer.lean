import Mathlib.Algebra.Ring.Int.Defs
import CompArch.Pisa.Multiply
/-!
# Overflow and shifts

`ADD`, `ADDI` and `SUB` compare before they add, and the shifts have a fast and a
slow build. What they compute is stated here without either.
-/

namespace Pisa

open Effects Function Memory

/-! ## Overflow -/

section Overflow
variable (x y : Word)

/-- A sum or difference that is in range is the exact one. -/
theorem bmod_word {z : Int} (h : -2 ^ 31 ≤ z) (h' : z < 2 ^ 31) : z.bmod (2 ^ 32) = z :=
  Int.bmod_eq_of_le (by omega) (by omega)

/-- The least `int` counts as an overflow, unless an operand is zero. -/
theorem OVER_iff : OVER x y = true ↔
    2 ^ 31 ≤ x.toInt + y.toInt ∨ x.toInt + y.toInt ≤ -2 ^ 31 ∧ x.toInt ≠ 0 ∧ y.toInt ≠ 0 := by
  have hx : -2 ^ 31 ≤ x.toInt := BitVec.le_toInt x
  have hx' : x.toInt < 2 ^ 31 := BitVec.toInt_lt
  have hy : -2 ^ 31 ≤ y.toInt := BitVec.le_toInt y
  have hy' : y.toInt < 2 ^ 31 := BitVec.toInt_lt
  have h0 : (0 : Word).toInt = 0 := rfl
  have hm : MAXINT_VAL.toInt = 2 ^ 31 - 1 := rfl
  have hm' : (-MAXINT_VAL).toInt = -(2 ^ 31 - 1) := rfl
  have hpos (h : 0 < x.toInt) := bmod_word (z := 2 ^ 31 - 1 - x.toInt) (by omega) (by omega)
  have hneg (h : x.toInt < 0) := bmod_word (z := -(2 ^ 31 - 1) - x.toInt) (by omega) (by omega)
  simp only [OVER, Bool.or_eq_true, Bool.and_eq_true, BitVec.slt_iff_toInt_lt, BitVec.toInt_sub, BitVec.toInt_zero, h0,
    hm, hm']
  generalize (2 ^ 31 - 1 - x.toInt).bmod (2 ^ 32) = u at hpos ⊢
  generalize (-(2 ^ 31 - 1) - x.toInt).bmod (2 ^ 32) = v at hneg ⊢
  omega

/-- The same for differences, where the least `int` from zero is missed. -/
theorem UNDER_iff : UNDER x y = true ↔
    2 ^ 31 ≤ x.toInt - y.toInt ∧ x.toInt ≠ 0 ∨ x.toInt - y.toInt ≤ -2 ^ 31 ∧ y.toInt ≠ 0 := by
  have hx : -2 ^ 31 ≤ x.toInt := BitVec.le_toInt x
  have hx' : x.toInt < 2 ^ 31 := BitVec.toInt_lt
  have hy : -2 ^ 31 ≤ y.toInt := BitVec.le_toInt y
  have hy' : y.toInt < 2 ^ 31 := BitVec.toInt_lt
  have h0 : (0 : Word).toInt = 0 := rfl
  have hm : MAXINT_VAL.toInt = 2 ^ 31 - 1 := rfl
  have hm' : (-MAXINT_VAL).toInt = -(2 ^ 31 - 1) := rfl
  have hneg (h : y.toInt < 0) := bmod_word (z := 2 ^ 31 - 1 + y.toInt) (by omega) (by omega)
  have hpos (h : 0 < y.toInt) := bmod_word (z := -(2 ^ 31 - 1) + y.toInt) (by omega) (by omega)
  simp only [UNDER, Bool.or_eq_true, Bool.and_eq_true, BitVec.slt_iff_toInt_lt, BitVec.toInt_add, BitVec.toInt_zero, h0,
    hm, hm']
  generalize (2 ^ 31 - 1 + y.toInt).bmod (2 ^ 32) = u at hneg ⊢
  generalize (-(2 ^ 31 - 1) + y.toInt).bmod (2 ^ 32) = v at hpos ⊢
  omega

end Overflow

section Checked
variable {ε σ O : Type} {p : Ports ε σ} {sys : Syscall O} {s : Machine σ O} {i : MdInst}

/-- The program puts the exact value into the register, or declares the overflow and changes nothing. -/
def Exact (p : Ports ε σ) (sys : Syscall O) (s : Machine σ O) (prog : Impl) (rd : Nat) (value : Int)
    (overflows : Prop) : Prop :=
  (overflows → prog.run (p.handler sys) s = .ok (.overflow, s)) ∧
    (¬ overflows → ∃ v : Word, v.toInt = value ∧
      prog.run (p.handler sys) s = .ok (.none, { s with regs := s.regs.setR rd v }))

/-- Code that answers with one value and changes nothing. -/
def Reads (p : Ports ε σ) (sys : Syscall O) (s : Machine σ O) (op : Code Word) (x : Word) : Prop :=
  op.run (p.handler sys) s = .ok (x, s)

theorem reads_return (x : Word) : Reads p sys s (return x) x := rfl

theorem reads_GPR {n : Nat} (hn : n < MD_NUM_IREGS) : Reads p sys s (GPR n) (s.regs.R n) :=
  (run_perform _ (Macro.GPR n) s).trans (reg_ok p hn _)

theorem checked_run {x y : Word} {rd : Nat} {cx cy : Code Word} (hrd : rd < MD_NUM_IREGS) (hx : Reads p sys s cx x)
    (hy : Reads p sys s cy y) (overflows : Word → Word → Bool) (f : Word → Word → Word) :
    (checked overflows rd cx cy f).run (p.handler sys) s =
      if overflows x y then .ok (.overflow, s) else .ok (.none, { s with regs := s.regs.setR rd (f x y) }) := by
  unfold checked binary
  rw [run_bind_ok _ hx, run_bind_ok _ hy]
  split
  case isTrue => rfl
  case isFalse => rw [run_bind_ok _ hx, run_bind_ok _ hy, run_SET_GPR _ _ _ _ _ hrd, run_return]

theorem add_exact {x y : Word} {rd : Nat} {cx cy : Code Word} (hrd : rd < MD_NUM_IREGS) (hx : Reads p sys s cx x)
    (hy : Reads p sys s cy y) :
    Exact p sys s (checked OVER rd cx cy (· + ·)) rd (x.toInt + y.toInt)
      (2 ^ 31 ≤ x.toInt + y.toInt ∨ x.toInt + y.toInt ≤ -2 ^ 31 ∧ x.toInt ≠ 0 ∧ y.toInt ≠ 0) := by
  have hx' : -2 ^ 31 ≤ x.toInt := BitVec.le_toInt x
  have hy' : -2 ^ 31 ≤ y.toInt := BitVec.le_toInt y
  unfold Exact
  rw [checked_run hrd hx hy, ← OVER_iff]
  refine ⟨fun ho => if_pos ho, fun ho => ⟨x + y, ?_, if_neg ho⟩⟩
  rw [OVER_iff] at ho
  rw [BitVec.toInt_add, bmod_word (by omega) (by omega)]

/-- `ADD` and `ADDI` declare an overflow for each sum that is no `int`, and beyond that only where two values
other than zero add up to the least `int`. -/
theorem ADD_exact (p : Ports ε σ) (sys : Syscall O) (s : Machine σ O) (i : MdInst) (hs : i.RS < MD_NUM_IREGS)
    (ht : i.RT < MD_NUM_IREGS) :
    (i.RD < MD_NUM_IREGS →
     let x := (s.regs.R i.RS).toInt
     let y := (s.regs.R i.RT).toInt
     Exact p sys s (ADD_IMPL i) i.RD (x + y) (2 ^ 31 ≤ x + y ∨ x + y ≤ -2 ^ 31 ∧ x ≠ 0 ∧ y ≠ 0)) ∧
    (let x := (s.regs.R i.RS).toInt
     let y := i.IMM.toInt
     Exact p sys s (ADDI_IMPL i) i.RT (x + y) (2 ^ 31 ≤ x + y ∨ x + y ≤ -2 ^ 31 ∧ x ≠ 0 ∧ y ≠ 0)) :=
  ⟨fun hd => add_exact hd (reads_GPR hs) (reads_GPR ht), add_exact ht (reads_GPR hs) (reads_return _)⟩

theorem ADD_exact_least :
    (ADDI_IMPL ⟨0x42, 0x0102ffff⟩).run (memPorts.handler fun os : Unit => .ret os)
      ⟨regs_init.setR 1 0x80000001, mem_init, ()⟩ = .ok (.overflow, ⟨regs_init.setR 1 0x80000001, mem_init, ()⟩) :=
  (ADD_exact memPorts (fun os : Unit => .ret os) ⟨regs_init.setR 1 0x80000001, mem_init, ()⟩ ⟨0x42, 0x0102ffff⟩
    (by decide) (by decide)).2.1 (by decide)

/-- `SUB` does so for differences, but misses the least `int` from zero. -/
theorem SUB_exact (p : Ports ε σ) (sys : Syscall O) (s : Machine σ O) (i : MdInst) (hs : i.RS < MD_NUM_IREGS)
    (ht : i.RT < MD_NUM_IREGS) (hd : i.RD < MD_NUM_IREGS) :
    let x := (s.regs.R i.RS).toInt
    let y := (s.regs.R i.RT).toInt
    if x = 0 ∧ y = -2 ^ 31 then
      (SUB_IMPL i).run (p.handler sys) s = .ok (.none, { s with regs := s.regs.setR i.RD 0x80000000 })
    else Exact p sys s (SUB_IMPL i) i.RD (x - y) (2 ^ 31 ≤ x - y ∨ x - y ≤ -2 ^ 31 ∧ y ≠ 0) := by
  dsimp only
  generalize hx : s.regs.R i.RS = x
  generalize hy : s.regs.R i.RT = y
  have hlx : -2 ^ 31 ≤ x.toInt := BitVec.le_toInt x
  have hlx' : x.toInt < 2 ^ 31 := BitVec.toInt_lt
  have hly : -2 ^ 31 ≤ y.toInt := BitVec.le_toInt y
  have hrx : Reads p sys s (GPR i.RS) x := hx ▸ reads_GPR hs
  have hry : Reads p sys s (GPR i.RT) y := hy ▸ reads_GPR ht
  have hrun : (SUB_IMPL i).run (p.handler sys) s = _ := checked_run hd hrx hry UNDER (· - ·)
  split
  case isTrue hmiss =>
    obtain rfl : x = 0 := BitVec.toInt_inj.1 hmiss.1
    obtain rfl : y = 0x80000000 := BitVec.toInt_inj.1 hmiss.2
    exact hrun.trans (if_neg (by decide))
  case isFalse hmiss =>
    have hiff : UNDER x y = true ↔ 2 ^ 31 ≤ x.toInt - y.toInt ∨ x.toInt - y.toInt ≤ -2 ^ 31 ∧ y.toInt ≠ 0 := by
      rw [UNDER_iff]
      omega
    unfold Exact
    rw [hrun, ← hiff]
    refine ⟨fun hu => if_pos hu, fun hu => ⟨x - y, ?_, if_neg hu⟩⟩
    rw [hiff] at hu
    rw [BitVec.toInt_sub, bmod_word (by omega) (by omega)]

theorem SUB_exact_missed :
    (SUB_IMPL ⟨0x45, 0x00010200⟩).run (memPorts.handler fun os : Unit => .ret os)
      ⟨regs_init.setR 1 0x80000000, mem_init, ()⟩ =
        .ok (.none, ⟨(regs_init.setR 1 0x80000000).setR 2 0x80000000, mem_init, ()⟩) :=
  SUB_exact memPorts (fun os : Unit => .ret os) ⟨regs_init.setR 1 0x80000000, mem_init, ()⟩ ⟨0x45, 0x00010200⟩
    (by decide) (by decide) (by decide)

end Checked

/-! ## Shifts -/

section Bits
variable {x : Word} {n : Nat} (host : Host)

/-- The first bit of the slow logical shift is shifted in as zero, so its mask changes nothing. -/
theorem srl_step : (x >>> 1 &&& ~~~(0x80000000#32)) >>> n = x >>> (n + 1) := by
  have hx := x.isLt
  have hm : (~~~(0x80000000#32)).toNat = 2 ^ 31 - 1 := rfl
  have hmask : x >>> 1 &&& ~~~(0x80000000#32) = x >>> 1 := by
    rw [← BitVec.toNat_inj, BitVec.toNat_and, hm, Nat.and_two_pow_sub_one_eq_mod, BitVec.toNat_ushiftRight,
      Nat.shiftRight_eq_div_pow]
    omega
  rw [hmask, Nat.add_comm, BitVec.shiftRight_add]

/-- One round of the slow arithmetic shift. -/
theorem shr_one_or (hx : x.msb = true) : host.shr x 1 ||| 0x80000000 = x.sshiftRight 1 := by
  have h2 : (0x80000000 : Word) = BitVec.twoPow 32 31 := rfl
  apply BitVec.eq_of_getLsbD_eq
  intro i hi
  rw [Host.shr, BitVec.getLsbD_or, h2, BitVec.getLsbD_twoPow]
  by_cases hi31 : i = 31
  · subst hi31
    simp [BitVec.getLsbD_sshiftRight, hx]
  · have hlt : 1 + i < 32 := by omega
    split
    · simp [Ne.symm hi31]
    · simp [BitVec.getElem_sshiftRight, Ne.symm hi31, hlt, hi]

theorem shr_of_nonneg (hx : x.msb = false) : host.shr x n = x.sshiftRight n := by
  rw [Host.shr, BitVec.sshiftRight_eq_of_msb_false hx, ite_self]

theorem shr_fast (h : host.FAST_SRA = true) : host.shr x n = x.sshiftRight n := if_pos (host.fast_SRA h)

end Bits

section Shifts
variable {ε σ O : Type} {p : Ports ε σ} {sys : Syscall O} {s : Machine σ O} {i : MdInst} {host : Host} {n : Nat}

theorem run_shiftable {α : Type} (hn : n < 32) (k : Unit → Code α) :
    (shiftable n >>= k).run (p.handler sys) s = (k ()).run (p.handler sys) s := by
  rw [shiftable, if_pos hn]
  rfl

theorem srl_run (ht : i.RT < MD_NUM_IREGS) (hd : i.RD < MD_NUM_IREGS) (hn : n < 32) :
    (srl i host n).run (p.handler sys) s = .ok (.none, { s with regs := s.regs.setR i.RD (s.regs.R i.RT >>> n) }) := by
  unfold srl
  split
  case isTrue => rw [run_shiftable hn, run_GPR _ _ _ _ ht, run_SET_GPR _ _ _ _ _ hd, run_return]
  case isFalse =>
    cases n with
    | zero => rw [if_neg (by simp), run_GPR _ _ _ _ ht, run_SET_GPR _ _ _ _ _ hd, run_return, BitVec.ushiftRight_zero]
    | succ n =>
      rw [if_pos (Nat.succ_ne_zero n), run_GPR _ _ _ _ ht]
      dsimp only
      rw [Nat.add_sub_cancel, run_shiftable (Nat.lt_of_succ_lt hn), run_SET_GPR _ _ _ _ _ hd, run_return, srl_step]

/-- The rounds of a negative number, which stays negative. -/
theorem sraLoop_run (hd : i.RD < MD_NUM_IREGS) (n : Nat) {x : Word} (hx : x.msb = true) :
    (sraLoop i host n).run (p.handler sys) { s with regs := s.regs.setR i.RD x } =
      .ok ((), { s with regs := s.regs.setR i.RD (x.sshiftRight n) }) := by
  induction n generalizing x with
  | zero => rw [BitVec.sshiftRight_zero]; rfl
  | succ n ih =>
    rw [sraLoop, run_GPR _ _ _ _ hd, run_SET_GPR _ _ _ _ _ hd, Regs.setR_self, Regs.setR_setR, shr_one_or host hx,
      ih (BitVec.msb_sshiftRight.trans hx), ← BitVec.sshiftRight_add, Nat.add_comm]

theorem sra_run (ht : i.RT < MD_NUM_IREGS) (hd : i.RD < MD_NUM_IREGS) (hn : n < 32) :
    (sra i host n).run (p.handler sys) s =
      .ok (.none, { s with regs := s.regs.setR i.RD ((s.regs.R i.RT).sshiftRight n) }) := by
  have hmsb : s.regs.R i.RT &&& 0x80000000 ≠ 0 ↔ (s.regs.R i.RT).msb = true := by
    rw [sign_iff, BitVec.msb_eq_decide, decide_eq_true_iff]
  unfold sra
  split
  case isTrue hf => rw [run_shiftable hn, run_GPR _ _ _ _ ht, run_SET_GPR _ _ _ _ _ hd, run_return, shr_fast host hf]
  case isFalse =>
    rw [run_GPR _ _ _ _ ht]
    split
    case isTrue hneg =>
      rw [run_GPR _ _ _ _ ht, run_SET_GPR _ _ _ _ _ hd, run_bind_ok _ (sraLoop_run hd n (hmsb.1 hneg))]
      rfl
    case isFalse hpos =>
      rw [run_shiftable hn, run_GPR _ _ _ _ ht, run_SET_GPR _ _ _ _ _ hd, run_return,
        shr_of_nonneg host (Bool.eq_false_iff.2 (mt hmsb.2 hpos))]

/-- Whatever the host's shifts are, and with the fast and the slow build: `SRL` and `SRLV` shift in zeros, `SRA` and
`SRAV` copies of the sign, by amounts below 32. -/
theorem shifts_run (p : Ports ε σ) (sys : Syscall O) (s : Machine σ O) (i : MdInst) (host : Host)
    (hs : i.RS < MD_NUM_IREGS) (ht : i.RT < MD_NUM_IREGS) (hd : i.RD < MD_NUM_IREGS) :
    let x := s.regs.R i.RT
    let n := (s.regs.R i.RS).toNat % 32
    let result (v : Word) : Except ε (Fault × Machine σ O) := .ok (.none, { s with regs := s.regs.setR i.RD v })
    (i.SHAMT < 32 → (SRL_IMPL i host).run (p.handler sys) s = result (x >>> i.SHAMT)) ∧
      (SRLV_IMPL i host).run (p.handler sys) s = result (x >>> n) ∧
      (i.SHAMT < 32 → (SRA_IMPL i host).run (p.handler sys) s = result (x.sshiftRight i.SHAMT)) ∧
      (SRAV_IMPL i host).run (p.handler sys) s = result (x.sshiftRight n) := by
  dsimp only
  have hand : (s.regs.R i.RS &&& 0x1f).toNat = (s.regs.R i.RS).toNat % 32 := by
    have hm : (0x1f : Word).toNat = 2 ^ 5 - 1 := rfl
    rw [BitVec.toNat_and, hm, Nat.and_two_pow_sub_one_eq_mod]
  have hshamt {k : Nat → Impl} : (shamtV i >>= k).run (p.handler sys) s =
      (k ((s.regs.R i.RS).toNat % 32)).run (p.handler sys) s := by
    refine run_bind_ok _ ?_ k
    rw [shamtV, run_GPR _ _ _ _ hs, run_return, hand]
  have hlt : (s.regs.R i.RS).toNat % 32 < 32 := Nat.mod_lt _ (by decide)
  exact ⟨fun hn => srl_run ht hd hn, hshamt.trans (srl_run ht hd hlt), fun hn => sra_run ht hd hn,
    hshamt.trans (sra_run ht hd hlt)⟩

/-- A host without floating point, without fast shifts, whose `>>` shifts in zeros. -/
def slowHost : Host where
  single := ⟨fun _ _ => 0, fun _ _ => 0, fun _ _ => 0, fun _ _ => 0, id, id, id, fun _ _ => false, fun _ _ => false,
    fun _ _ => false⟩
  double := ⟨fun _ _ => 0, fun _ _ => 0, fun _ _ => 0, fun _ _ => 0, id, id, id, fun _ _ => false, fun _ _ => false,
    fun _ _ => false⟩
  cvt_s_d _ := 0
  cvt_s_w _ := 0
  cvt_d_s _ := 0
  cvt_d_w _ := 0
  cvt_w_s _ := 0
  cvt_w_d _ := 0
  FAST_SRL := false
  FAST_SRA := false
  signed_shift := false
  fast_SRA h := h

theorem shifts_run_slow :
    (SRA_IMPL ⟨0x59, 0x00010204⟩ slowHost).run (memPorts.handler fun os : Unit => .ret os)
      ⟨regs_init.setR 1 0x80000000, mem_init, ()⟩ =
        .ok (.none, ⟨(regs_init.setR 1 0x80000000).setR 2 0xf8000000, mem_init, ()⟩) :=
  (shifts_run memPorts (fun os : Unit => .ret os) ⟨regs_init.setR 1 0x80000000, mem_init, ()⟩ ⟨0x59, 0x00010204⟩
    slowHost (by decide) (by decide) (by decide)).2.2.1 (by decide)

end Shifts

end Pisa
