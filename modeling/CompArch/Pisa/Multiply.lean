import CompArch.Pisa.Machine
/-!
# `MULT` and `MULTU` multiply

Both add up the product in `HI` and `LO`, one bit of the first operand a round.
Before the round of bit `n` the two registers hold the product of the second
operand with the bits from `n + 1` on.
-/

namespace Pisa

open Effects Memory

/-! ## The pair of registers -/

section Pair
variable (hi lo y : Word) (n : Nat)

theorem toNat_pair : (hi ++ lo).toNat = hi.toNat * 2 ^ 32 + lo.toNat := by
  rw [BitVec.toNat_append, ← Nat.shiftLeft_add_eq_or_of_lt lo.isLt, Nat.shiftLeft_eq]

theorem toNat_extractl_bit : (extractl y n 1).toNat = y.toNat / 2 ^ n % 2 := by
  have hm : (~~~(~~~(0#32) <<< 1)).toNat = 2 ^ 1 - 1 := rfl
  rw [extractl, BitVec.toNat_and, hm, Nat.and_two_pow_sub_one_eq_mod, BitVec.toNat_ushiftRight,
    Nat.shiftRight_eq_div_pow,
    Nat.add_sub_cancel, Nat.pow_one]

theorem extractl_eq_one_iff : extractl y n 1 = 1 ↔ y.toNat / 2 ^ n % 2 = 1 := by
  rw [← BitVec.toNat_inj, toNat_extractl_bit]
  rfl

theorem sign_iff : y &&& 0x80000000 ≠ 0 ↔ 2 ^ 31 ≤ y.toNat := by
  have h2 : (0x80000000 : Word) = BitVec.twoPow 32 31 := rfl
  have hmsb : y.getLsbD 31 = decide (2 ^ 31 ≤ y.toNat) := BitVec.msb_eq_decide y
  rw [h2, BitVec.and_twoPow, hmsb]
  simp

/-- The start of a round. -/
theorem pair_double (h : (hi ++ lo).toNat < 2 ^ 63) :
    ((hi <<< 1 + extractl lo 31 1) ++ lo <<< 1).toNat = 2 * (hi ++ lo).toNat := by
  have hlo := lo.isLt
  rw [toNat_pair] at h ⊢
  rw [toNat_pair, BitVec.toNat_add, toNat_extractl_bit, BitVec.toNat_shiftLeft, BitVec.toNat_shiftLeft,
    Nat.shiftLeft_eq, Nat.shiftLeft_eq]
  omega

/-- The rest of it, when the bit is set: the carry of the low sum goes to `HI`. -/
theorem pair_add (h : (hi ++ lo).toNat + y.toNat < 2 ^ 64) :
    ((if 0xffffffff - lo < y then hi + 1 else hi) ++ (lo + y)).toNat = (hi ++ lo).toNat + y.toNat := by
  have hlo := lo.isLt
  have hy := y.isLt
  have hc : 0xffffffff - lo < y ↔ 2 ^ 32 ≤ lo.toNat + y.toNat := by
    have hm : (0xffffffff : Word).toNat = 2 ^ 32 - 1 := rfl
    rw [BitVec.lt_def, BitVec.toNat_sub, hm]
    omega
  rw [toNat_pair] at h ⊢
  rw [toNat_pair, BitVec.toNat_add]
  split
  case isTrue hlt =>
    have hover := hc.1 hlt
    have h1 : (1 : Word).toNat = 1 := rfl
    rw [BitVec.toNat_add, h1]
    omega
  case isFalse hlt =>
    have hover : ¬ 2 ^ 32 ≤ lo.toNat + y.toNat := fun ho => hlt (hc.2 ho)
    omega

/-- The end of `MULT` for operands of different signs. -/
theorem pair_neg : (if ~~~lo = 0xffffffff then ~~~hi + 1 else ~~~hi) ++ (~~~lo + 1) = -(hi ++ lo) := by
  have hlo := lo.isLt
  have hhi := hi.isLt
  have hm : (0xffffffff : Word).toNat = 2 ^ 32 - 1 := rfl
  have h1 : (1 : Word).toNat = 1 := rfl
  have hc : ~~~lo = 0xffffffff ↔ lo.toNat = 0 := by
    rw [← BitVec.toNat_inj, BitVec.toNat_not, hm]
    omega
  rw [← BitVec.toNat_inj, toNat_pair, BitVec.toNat_neg, toNat_pair, BitVec.toNat_add, BitVec.toNat_not, h1]
  split
  case isTrue h0 =>
    have hz := hc.1 h0
    rw [BitVec.toNat_add, BitVec.toNat_not, h1]
    omega
  case isFalse h0 =>
    have hz : ¬ lo.toNat = 0 := fun hz => h0 (hc.2 hz)
    rw [BitVec.toNat_not]
    omega

/-- The value `MULT` goes on with. -/
def magnitude : Word := if y &&& 0x80000000 ≠ 0 then ~~~y + 1 else y

theorem toInt_eq_magnitude :
    y.toInt = if y &&& 0x80000000 ≠ 0 then -((magnitude y).toNat : Int) else (magnitude y).toNat := by
  have hy := y.isLt
  have h1 : (1 : Word).toNat = 1 := rfl
  rw [magnitude, BitVec.toInt_eq_toNat_cond]
  by_cases hs : y &&& 0x80000000 ≠ 0
  · have hle := (sign_iff y).1 hs
    rw [if_pos hs, if_pos hs, BitVec.toNat_add, BitVec.toNat_not, h1]
    split <;> omega
  · have hle := mt (sign_iff y).2 hs
    rw [if_neg hs, if_neg hs]
    split <;> omega

theorem magnitude_le : (magnitude y).toNat ≤ 2 ^ 31 := by
  have hy := y.isLt
  have h1 : (1 : Word).toNat = 1 := rfl
  rw [magnitude]
  split
  case isTrue hs =>
    have hle := (sign_iff y).1 hs
    rw [BitVec.toNat_add, BitVec.toNat_not, h1]
    omega
  case isFalse hs =>
    have hle := mt (sign_iff y).2 hs
    omega

/-- A product of two magnitudes is below the sign bit of the pair. -/
theorem toInt_pair (h : (hi ++ lo).toNat ≤ 2 ^ 31 * 2 ^ 31) :
    (hi ++ lo).toInt = ((hi ++ lo).toNat : Int) ∧ (-(hi ++ lo)).toInt = -((hi ++ lo).toNat : Int) := by
  rw [BitVec.toInt_eq_toNat_cond, BitVec.toInt_eq_toNat_cond, BitVec.toNat_neg]
  constructor
  · split <;> omega
  · split <;> omega

end Pair

/-! ## The loop -/

variable {ε σ O : Type} {p : Ports ε σ} {sys : Syscall O} {op1 op2 : Code Word} {x y : Word} {s : Machine σ O} {n : Nat}

/-- Sets the pair of registers. -/
def Machine.setPair (s : Machine σ O) (hi lo : Word) : Machine σ O := { s with regs.hi := hi, regs.lo := lo }

section SetPair
variable (p : Ports ε σ) (sys : Syscall O) (s : Machine σ O) (hi lo v : Word) {α : Type} (k : Word → Code α)
  (k' : Unit → Code α)

theorem run_HI_pair : (HI >>= k).run (p.handler sys) (s.setPair hi lo) = (k hi).run (p.handler sys) (s.setPair hi lo) :=
  rfl
theorem run_LO_pair : (LO >>= k).run (p.handler sys) (s.setPair hi lo) = (k lo).run (p.handler sys) (s.setPair hi lo) :=
  rfl

theorem run_SET_HI_pair :
    (SET_HI v >>= k').run (p.handler sys) (s.setPair hi lo) = (k' ()).run (p.handler sys) (s.setPair v lo) := rfl

theorem run_SET_LO_pair :
    (SET_LO v >>= k').run (p.handler sys) (s.setPair hi lo) = (k' ()).run (p.handler sys) (s.setPair hi v) := rfl

theorem run_SET_LO_last : (SET_LO v).run (p.handler sys) (s.setPair hi lo) = .ok ((), s.setPair hi v) := rfl

end SetPair

/-- Code that answers with one value whatever `HI` and `LO` hold. -/
def Yields (p : Ports ε σ) (sys : Syscall O) (s : Machine σ O) (op : Code Word) (x : Word) : Prop :=
  ∀ hi lo, op.run (p.handler sys) (s.setPair hi lo) = .ok (x, s.setPair hi lo)

theorem yields_return (x : Word) : Yields p sys s (return x) x := fun _ _ => rfl

theorem yields_GPR (hn : n < MD_NUM_IREGS) : Yields p sys s (GPR n) (s.regs.R n) := fun _ _ =>
  (run_perform _ (Macro.GPR n) _).trans (reg_ok p hn _)

theorem Yields.run {α : Type} (h : Yields p sys s op1 x) (hi lo : Word) (k : Word → Code α) :
    (op1 >>= k).run (p.handler sys) (s.setPair hi lo) = (k x).run (p.handler sys) (s.setPair hi lo) :=
  run_bind_ok _ (h hi lo) k

theorem multRound_spec (h1 : Yields p sys s op1 x) (h2 : Yields p sys s op2 y) {hi lo : Word}
    (hlt : 2 * (hi ++ lo).toNat + x.toNat / 2 ^ n % 2 * y.toNat < 2 ^ 64) :
    ∃ hi' lo', (multRound op1 op2 n).run (p.handler sys) (s.setPair hi lo) = .ok ((), s.setPair hi' lo') ∧
      (hi' ++ lo').toNat = 2 * (hi ++ lo).toNat + x.toNat / 2 ^ n % 2 * y.toNat := by
  have hd := pair_double hi lo (by omega)
  rw [← hd] at hlt ⊢
  generalize hhi : hi <<< 1 + extractl lo 31 1 = hi₁ at hd hlt
  generalize hlo : lo <<< 1 = lo₁ at hd hlt
  simp only [multRound, run_HI_pair, run_SET_HI_pair, run_LO_pair, run_SET_LO_pair, h1.run, hhi, hlo]
  split
  case isTrue hbit =>
    rw [(extractl_eq_one_iff x n).1 hbit, Nat.one_mul] at hlt ⊢
    have hadd := pair_add hi₁ lo₁ y hlt
    rw [run_LO_pair, h2.run]
    split
    case isTrue hc =>
      rw [if_pos hc] at hadd
      exact ⟨hi₁ + 1, lo₁ + y, by
        simp only [run_HI_pair, run_SET_HI_pair, run_LO_pair, run_SET_LO_last, h2.run], hadd⟩
    case isFalse hc =>
      rw [if_neg hc] at hadd
      exact ⟨hi₁, lo₁ + y, by simp only [run_LO_pair, run_SET_LO_last, h2.run], hadd⟩
  case isFalse hbit =>
    have h0 : x.toNat / 2 ^ n % 2 = 0 := by
      have hne := mt (extractl_eq_one_iff x n).2 hbit
      omega
    exact ⟨hi₁, lo₁, rfl, by simp [h0]⟩

/-- The rounds of the bits below `n`, when the pair holds the product with the bits from `n` on. -/
theorem multLoop_spec (h1 : Yields p sys s op1 x) (h2 : Yields p sys s op2 y) (n : Nat) {hi lo : Word}
    (hinv : (hi ++ lo).toNat = x.toNat / 2 ^ n * y.toNat) :
    ∃ hi' lo', (multLoop op1 op2 n).run (p.handler sys) (s.setPair hi lo) = .ok ((), s.setPair hi' lo') ∧
      (hi' ++ lo').toNat = x.toNat * y.toNat := by
  induction n generalizing hi lo with
  | zero => exact ⟨hi, lo, rfl, by rw [hinv, Nat.pow_zero, Nat.div_one]⟩
  | succ n ih =>
    have hstep : 2 * (hi ++ lo).toNat + x.toNat / 2 ^ n % 2 * y.toNat = x.toNat / 2 ^ n * y.toNat := by
      rw [hinv, ← Nat.mul_assoc, ← Nat.add_mul, Nat.pow_succ, ← Nat.div_div_eq_div_mul, Nat.div_add_mod]
    have hxy : x.toNat * y.toNat < 2 ^ 32 * 2 ^ 32 := Nat.mul_lt_mul'' x.isLt y.isLt
    have hle : x.toNat / 2 ^ n * y.toNat < 2 ^ 64 :=
      Nat.lt_of_le_of_lt (Nat.mul_le_mul_right _ (Nat.div_le_self _ _)) hxy
    obtain ⟨hi₁, lo₁, hr, hp⟩ := multRound_spec (n := n) h1 h2 (hstep ▸ hle)
    obtain ⟨hi₂, lo₂, hr₂, hp₂⟩ := ih (hp.trans hstep)
    exact ⟨hi₂, lo₂, by rw [multLoop, run_bind_ok _ hr, hr₂], hp₂⟩

/-- The highest bit has no round: before the others it puts the second operand into `LO`. -/
theorem multiply_spec (h1 : Yields p sys s op1 x) (h2 : Yields p sys s op2 y) :
    ∃ hi lo, (multiply op1 op2).run (p.handler sys) (s.setPair 0 0) = .ok ((), s.setPair hi lo) ∧
      (hi ++ lo).toNat = x.toNat * y.toNat := by
  have hx := x.isLt
  have h0 : (0 : Word).toNat = 0 := rfl
  unfold multiply
  rw [h1.run]
  split
  case isTrue hset =>
    have hbit : x.toNat / 2 ^ 31 = 1 := by
      have hle := (sign_iff x).1 hset
      omega
    rw [h2.run, run_SET_LO_pair]
    exact multLoop_spec h1 h2 31 (by rw [toNat_pair, hbit, h0, Nat.zero_mul, Nat.zero_add, Nat.one_mul])
  case isFalse hclear =>
    have hbit : x.toNat / 2 ^ 31 = 0 := by
      have hle := mt (sign_iff x).2 hclear
      omega
    exact multLoop_spec h1 h2 31 (by rw [toNat_pair, hbit, h0, Nat.zero_mul, Nat.zero_mul])

/-! ## The instructions -/

section Instructions
variable {i : MdInst}

/-- The unsigned product, and nothing but `HI` and `LO` changes. -/
theorem MULTU_product (hs : i.RS < MD_NUM_IREGS) (ht : i.RT < MD_NUM_IREGS) :
    ∃ hi lo, (MULTU_IMPL i).run (p.handler sys) s = .ok (.none, s.setPair hi lo) ∧
      (hi ++ lo).toNat = (s.regs.R i.RS).toNat * (s.regs.R i.RT).toNat := by
  obtain ⟨hi, lo, hr, hp⟩ := multiply_spec (s := s) (p := p) (yields_GPR hs) (yields_GPR ht)
  refine ⟨hi, lo, ?_, hp⟩
  unfold MULTU_IMPL
  rw [run_SET_HI, run_SET_LO]
  exact run_bind_ok _ hr _

theorem MULTU_product_max : ∃ hi lo,
    (MULTU_IMPL ⟨0x47, 0x01010000⟩).run (memPorts.handler fun os : Unit => .ret os)
      ⟨regs_init.setR 1 0xffffffff, mem_init, ()⟩ =
        .ok (.none, Machine.setPair ⟨regs_init.setR 1 0xffffffff, mem_init, ()⟩ hi lo) ∧
      (hi ++ lo).toNat = 0xffffffff * 0xffffffff :=
  MULTU_product (by decide) (by decide)

/-- The signed product. -/
theorem MULT_product (hs : i.RS < MD_NUM_IREGS) (ht : i.RT < MD_NUM_IREGS) :
    ∃ hi lo, (MULT_IMPL i).run (p.handler sys) s = .ok (.none, s.setPair hi lo) ∧
      (hi ++ lo).toInt = (s.regs.R i.RS).toInt * (s.regs.R i.RT).toInt := by
  obtain ⟨hi, lo, hr, hp⟩ := multiply_spec (s := s) (p := p) (yields_return (magnitude (s.regs.R i.RS)))
    (yields_return (magnitude (s.regs.R i.RT)))
  obtain ⟨hpos, hneg⟩ := toInt_pair hi lo (hp ▸ Nat.mul_le_mul (magnitude_le _) (magnitude_le _))
  rw [hp, Int.natCast_mul] at hpos hneg
  rw [toInt_eq_magnitude (s.regs.R i.RS), toInt_eq_magnitude (s.regs.R i.RT)]
  unfold MULT_IMPL
  rw [run_SET_HI, run_SET_LO, run_GPR _ _ _ _ hs, run_GPR _ _ _ _ ht]
  show ∃ hi lo, Prog.run (p.handler sys)
    (multiply (return magnitude (s.regs.R i.RS)) (return magnitude (s.regs.R i.RT)) >>= _) (s.setPair 0 0) = _ ∧ _
  rw [run_bind_ok _ hr]
  have hflip : Prog.run (p.handler sys) (do
      SET_LO (~~~(← LO))
      SET_HI (~~~(← HI))
      if (← LO) = 0xffffffff then SET_HI ((← HI) + 1)
      SET_LO ((← LO) + 1)
      return Fault.none) (s.setPair hi lo) =
        .ok (.none, s.setPair (if ~~~lo = 0xffffffff then ~~~hi + 1 else ~~~hi) (~~~lo + 1)) := by
    rw [run_LO_pair, run_SET_LO_pair, run_HI_pair, run_SET_HI_pair, run_LO_pair]
    split
    case isTrue => rw [run_HI_pair, run_SET_HI_pair, run_LO_pair, run_SET_LO_pair, run_return]
    case isFalse => rw [run_LO_pair, run_SET_LO_pair, run_return]
  split
  case isTrue hne =>
    refine ⟨_, _, hflip, ?_⟩
    rw [pair_neg, hneg]
    by_cases hsx : s.regs.R i.RS &&& 0x80000000 ≠ 0
    · rw [decide_eq_true hsx, Bool.true_xor] at hne
      rw [if_pos hsx, if_neg (by simpa using hne), Int.neg_mul]
    · rw [decide_eq_false hsx, Bool.false_xor] at hne
      rw [if_neg hsx, if_pos (by simpa using hne), Int.mul_neg]
  case isFalse heq =>
    refine ⟨hi, lo, rfl, ?_⟩
    rw [hpos]
    by_cases hsx : s.regs.R i.RS &&& 0x80000000 ≠ 0
    · rw [decide_eq_true hsx, Bool.true_xor] at heq
      rw [if_pos hsx, if_pos (by simpa using heq), Int.neg_mul_neg]
    · rw [decide_eq_false hsx, Bool.false_xor] at heq
      rw [if_neg hsx, if_neg (by simpa using heq)]

theorem MULT_product_least : ∃ hi lo,
    (MULT_IMPL ⟨0x46, 0x01010000⟩).run (memPorts.handler fun os : Unit => .ret os)
      ⟨regs_init.setR 1 0x80000000, mem_init, ()⟩ =
        .ok (.none, Machine.setPair ⟨regs_init.setR 1 0x80000000, mem_init, ()⟩ hi lo) ∧
      (hi ++ lo).toInt = -2147483648 * -2147483648 :=
  MULT_product (by decide) (by decide)

end Instructions

end Pisa
