import CompArch.Memory.Flat
import CompArch.Pisa.Integer
/-!
# Unaligned words

`LWL` and `LWR`, and `SWL` and `SWR`, access the two aligned words that an unaligned
word lies in. Each of them moves the bytes of the unaligned word that are in its own
aligned word.
-/

namespace Pisa

open Effects Function Memory

/-! ## Bytes of words -/

section Bytes
variable {v w : Word} {k n : Nat}

/-- Byte `k` of a word, the lowest of them first. -/
def byte (v : Word) (k : Nat) : Byte := byteOf (n := 4) v k

theorem byte_eq (v : Word) (k : Nat) : byte v k = v.extractLsb' (8 * k) 8 := rfl

theorem byte_ext (h : ∀ k < 4, byte v k = byte w k) : v = w :=
  (number_byteOf (n := 4) v).symm.trans ((number_congr h).trans (number_byteOf (n := 4) w))

theorem byte_and : byte (v &&& w) k = byte v k &&& byte w k := BitVec.extractLsb'_and

theorem byte_or : byte (v ||| w) k = byte v k ||| byte w k := BitVec.extractLsb'_or

theorem byte_not (hk : k < 4) : byte (~~~v) k = ~~~byte v k := by
  apply BitVec.eq_of_getLsbD_eq
  intro i hi
  have h : 8 * k + i < 32 := by omega
  simp [byte_eq, hi, h]

theorem byte_shiftLeft (hk : k < 4) : byte (v <<< (8 * n)) k = if k < n then 0 else byte v (k - n) := by
  apply BitVec.eq_of_getLsbD_eq
  intro i hi
  have h : 8 * k + i < 32 := by omega
  split
  case isTrue hkn =>
    have hlt : 8 * k + i < 8 * n := by omega
    simp [byte_eq, hi, h, hlt]
  case isFalse hkn =>
    have hge : ¬ 8 * k + i < 8 * n := by omega
    have heq : 8 * k + i - 8 * n = 8 * (k - n) + i := by omega
    have hlt : 8 * (k - n) + i < 32 := by omega
    simp [byte_eq, hi, h, hge, heq, hlt]

theorem byte_ushiftRight : byte (v >>> (8 * n)) k = byte v (k + n) := by
  apply BitVec.eq_of_getLsbD_eq
  intro i hi
  have heq : 8 * n + (8 * k + i) = 8 * (k + n) + i := by omega
  simp [byte_eq, hi, heq]

theorem byte_shr (host : Host) (hk : k + n < 4) : byte (host.shr v (8 * n)) k = byte v (k + n) := by
  unfold Host.shr
  split
  case isTrue =>
    apply BitVec.eq_of_getLsbD_eq
    intro i hi
    have h : 8 * k + i < 32 := by omega
    have heq : 8 * n + (8 * k + i) = 8 * (k + n) + i := by omega
    have hlt : 8 * (k + n) + i < 32 := by omega
    simp [byte_eq, BitVec.getElem_sshiftRight, hi, h, heq, hlt]
  case isFalse => exact byte_ushiftRight

theorem byte_md_lr_masks : ∀ j < 5, ∀ k < 4, byte (md_lr_masks j) k = if k + j < 4 then 0xff else 0 := by
  decide

/-- A word made of the bytes of two words that a mask selects. -/
theorem byte_merge {j : Nat} (hj : j < 5) (hk : k < 4) :
    byte ((v &&& md_lr_masks j) ||| (w &&& ~~~md_lr_masks j)) k = if k + j < 4 then byte v k else byte w k := by
  have h0 : (0 : Byte) = 0#8 := rfl
  have h1 : (0xff : Byte) = BitVec.allOnes 8 := rfl
  rw [byte_or, byte_and, byte_and, byte_not hk, byte_md_lr_masks j hj k hk]
  split
  · rw [h1, BitVec.and_allOnes, BitVec.not_allOnes, BitVec.and_zero, BitVec.or_zero]
  · rw [h0, BitVec.and_zero, BitVec.not_zero, BitVec.and_allOnes, BitVec.zero_or]

end Bytes

/-! ## Words of the memory -/

section Words
variable (a b : Addr) {k : Nat}

theorem toNat_offset : (a &&& 0x03).toNat = a.toNat % 4 := by
  have hm : (0x03 : Addr).toNat = 2 ^ 2 - 1 := rfl
  rw [BitVec.toNat_and, hm, Nat.and_two_pow_sub_one_eq_mod]

theorem toNat_base : (WL_BASE a).toNat = a.toNat / 4 * 4 := by
  have hshift : WL_BASE a = a >>> 2 <<< 2 := by
    apply BitVec.eq_of_getLsbD_eq
    intro i hi
    have hm (j : Nat) : (0x03#32).getLsbD j = decide (j < 2) := by
      have h3 : (0x03#32) = BitVec.setWidth 32 (BitVec.allOnes 2) := rfl
      rw [h3, BitVec.getLsbD_setWidth, BitVec.getLsbD_allOnes]
      by_cases hj : j < 2
      · simp [hj, Nat.lt_trans hj (by decide : 2 < 32)]
      · simp [hj]
    rw [WL_BASE, BitVec.getLsbD_and, BitVec.getLsbD_not, hm, BitVec.getLsbD_shiftLeft, BitVec.getLsbD_ushiftRight]
    by_cases h2 : i < 2
    · simp [h2]
    · have hadd : 2 + (i - 2) = i := by omega
      simp [h2, hi, hadd]
  have ha := a.isLt
  rw [hshift, BitVec.toNat_shiftLeft, BitVec.toNat_ushiftRight, Nat.shiftLeft_eq, Nat.shiftRight_eq_div_pow]
  omega

theorem base_add {j c : Nat} (h : j + c = k + a.toNat % 4) :
    WL_BASE a + BitVec.ofNat 32 j = a - BitVec.ofNat 32 c + BitVec.ofNat 32 k := by
  have ha := a.isLt
  rw [← BitVec.toNat_inj, BitVec.toNat_add, BitVec.toNat_add, BitVec.toNat_sub, toNat_base, BitVec.toNat_ofNat,
    BitVec.toNat_ofNat, BitVec.toNat_ofNat]
  omega

theorem sub_base_lt : (b - WL_BASE a).toNat < 4 ↔ WL_BASE b = WL_BASE a := by
  have ha := a.isLt
  have hb := b.isLt
  rw [← BitVec.toNat_inj, BitVec.toNat_sub, toNat_base, toNat_base]
  omega

theorem base_add_sub : WL_BASE a + BitVec.ofNat 32 (b - WL_BASE a).toNat = b := by
  have hb := b.isLt
  rw [← BitVec.toNat_inj, BitVec.toNat_add, BitVec.toNat_ofNat, BitVec.toNat_sub, toNat_base]
  omega

/-- Behind the first byte of the unaligned word whose last byte is at `a`. -/
theorem sub_first (h : WL_BASE b = WL_BASE a) :
    (b - (a - 3)).toNat = (b - WL_BASE a).toNat + (4 - (a.toNat % 4 + 1)) := by
  have hb := b.isLt
  have h3 : (3 : Addr).toNat = 3 := rfl
  rw [← BitVec.toNat_inj, toNat_base, toNat_base] at h
  rw [BitVec.toNat_sub, BitVec.toNat_sub, BitVec.toNat_sub, toNat_base, h3]
  omega

theorem sub_self_lt (h : WL_BASE b = WL_BASE a) : (b - a).toNat < 4 ↔ a.toNat % 4 ≤ (b - WL_BASE a).toNat := by
  have hb := b.isLt
  rw [← BitVec.toNat_inj, toNat_base, toNat_base] at h
  rw [BitVec.toNat_sub, BitVec.toNat_sub, toNat_base]
  omega

theorem sub_self (h : WL_BASE b = WL_BASE a) (hle : a.toNat % 4 ≤ (b - WL_BASE a).toNat) :
    (b - a).toNat = (b - WL_BASE a).toNat - a.toNat % 4 := by
  have hb := b.isLt
  rw [← BitVec.toNat_inj, toNat_base, toNat_base] at h
  rw [BitVec.toNat_sub, toNat_base] at hle
  rw [BitVec.toNat_sub, BitVec.toNat_sub, toNat_base]
  omega

/-- An unaligned word lies in the aligned words of its first and its last byte. -/
theorem base_or (h : (b - a).toNat < 4) : WL_BASE b = WL_BASE a ∨ WL_BASE b = WL_BASE (a + 3) := by
  have ha := a.isLt
  have hb := b.isLt
  have h3 : (3 : Addr).toNat = 3 := rfl
  rw [BitVec.toNat_sub] at h
  rw [← BitVec.toNat_inj, ← BitVec.toNat_inj, toNat_base, toNat_base, toNat_base, BitVec.toNat_add, h3]
  omega

theorem base_fits : MEM_OFFSET (WL_BASE a) + 4 ≤ MD_PAGE_SIZE := by
  have hsize : MD_PAGE_SIZE = 4096 := rfl
  rw [MEM_OFFSET_eq, toNat_base]
  omega

theorem byte_read (f : Flat) (hk : k < 4) : byte (f.read a 4) k = f (a + BitVec.ofNat 32 k) :=
  byteOf_number (n := 4) hk

/-- A word whose bytes are written in two steps. -/
theorem write_two_steps {a : Addr} (f : Flat) (v : Word) {P Q : Addr → Prop} [DecidablePred P] [DecidablePred Q]
    (h : ∀ b, (b - a).toNat < 4 → P b ∨ Q b) :
    (fun b => if (b - a).toNat < 4 ∧ P b then byte v (b - a).toNat
      else if (b - a).toNat < 4 ∧ Q b then byte v (b - a).toNat else f b) = f.write (n := 4) a v := by
  funext b
  show _ = if (b - a).toNat < 4 then byte v (b - a).toNat else f b
  split
  case isTrue hp => rw [if_pos hp.1]
  case isFalse hp =>
    by_cases hd : (b - a).toNat < 4
    · rw [if_pos hd, if_pos ⟨hd, (h b hd).resolve_left fun hb => hp ⟨hd, hb⟩⟩]
    · rw [if_neg hd, if_neg fun hq => hd hq.1]

end Words

/-! ## The instructions -/

variable {O : Type} {sys : Syscall O} {s : Machine Mem O} {m' : Mem} {i : MdInst} {α : Type} {a : Addr} {v : Word}

theorem run_READ_WORD (h : s.store.MEM_READ 4 a = .ok (v, m')) (k : Word × Fault → Code α) :
    (READ_WORD a >>= k).run (memPorts.handler sys) s =
      (k (v, .none)).run (memPorts.handler sys) { s with store := m' } := by
  have hr : memPorts.read 4 a s.store = .ok (v, m') := congrArg Stop.of h
  exact run_macro memPorts sys s (.READ_WORD a) (load_of hr) k

theorem run_WRITE_WORD (h : s.store.MEM_WRITE (n := 4) a v = .ok m') :
    (WRITE_WORD v a).run (memPorts.handler sys) s = .ok (.none, { s with store := m' }) := by
  have hw : memPorts.write 4 a v s.store = .ok m' := congrArg Stop.of h
  exact (run_perform _ (Macro.WRITE_WORD v a) s).trans (save_of hw)

section Loads
variable (sys) (hm : s.store.Ok) (hs : i.RS < MD_NUM_IREGS) (ht : i.RT < MD_NUM_IREGS)
include hm hs ht

theorem LWL_run : ∃ v m', (LWL_IMPL i).run (memPorts.handler sys) s =
      .ok (.none, { s with regs := s.regs.setR i.RT v, store := m' }) ∧ Mem.Moved s.store m' ∧
    ∀ k < 4, byte v k = if k + ((s.regs.R i.RS + i.OFS).toNat % 4 + 1) < 4 then byte (s.regs.R i.RT) k
      else s.store.flat (s.regs.R i.RS + i.OFS - 3 + BitVec.ofNat 32 k) := by
  generalize hea : s.regs.R i.RS + i.OFS = ea
  obtain ⟨m', hr, hmv⟩ := Mem.MEM_READ_spec hm (base_fits ea)
  unfold LWL_IMPL
  rw [MdInst.BS, run_GPR _ _ _ _ hs, hea, run_READ_WORD hr]
  dsimp only
  rw [if_neg (by simp), run_GPR _ _ _ _ ht, run_SET_GPR _ _ _ _ _ ht, run_return]
  refine ⟨_, m', rfl, hmv, fun k hk => ?_⟩
  have hlt : ea.toNat % 4 < 4 := Nat.mod_lt _ (by decide)
  rw [WR_PROT_MASK1, WR_SIZE, toNat_offset, byte_merge (by omega) hk, WL_SIZE, toNat_offset, byte_shiftLeft hk]
  by_cases hold : k + (ea.toNat % 4 + 1) < 4
  · rw [if_pos hold, if_pos hold]
  · rw [if_neg hold, if_neg hold, if_neg (by omega), byte_read _ _ (by omega),
      base_add ea (k := k) (c := 3) (by omega)]
    rfl

theorem LWR_run : ∃ v m', (LWR_IMPL i).run (memPorts.handler sys) s =
      .ok (.none, { s with regs := s.regs.setR i.RT v, store := m' }) ∧ Mem.Moved s.store m' ∧
    ∀ k < 4, byte v k = if k + (s.regs.R i.RS + i.OFS).toNat % 4 < 4 then
      s.store.flat (s.regs.R i.RS + i.OFS + BitVec.ofNat 32 k) else byte (s.regs.R i.RT) k := by
  generalize hea : s.regs.R i.RS + i.OFS = ea
  obtain ⟨m', hr, hmv⟩ := Mem.MEM_READ_spec hm (base_fits ea)
  unfold LWR_IMPL
  rw [MdInst.BS, run_GPR _ _ _ _ hs, hea, WR_BASE, ← WL_BASE, run_READ_WORD hr]
  dsimp only
  rw [if_neg (by simp), run_GPR _ _ _ _ ht, run_SET_GPR _ _ _ _ _ ht, run_return]
  refine ⟨_, m', rfl, hmv, fun k hk => ?_⟩
  have hlt : ea.toNat % 4 < 4 := Nat.mod_lt _ (by decide)
  have hsub : 4 - (4 - ea.toNat % 4) = ea.toNat % 4 := by omega
  rw [BitVec.or_comm, WL_PROT_MASK2, WR_SIZE, WL_SIZE, toNat_offset, hsub, byte_merge (by omega) hk,
    Nat.add_sub_cancel, byte_ushiftRight]
  by_cases hnew : k + ea.toNat % 4 < 4
  · rw [if_pos hnew, if_pos hnew, byte_read _ _ hnew, base_add ea (j := k + ea.toNat % 4) (c := 0) rfl]
    simp
  · rw [if_neg hnew, if_neg hnew]

end Loads

section Stores
variable (sys) (hm : s.store.Ok) (hs : i.RS < MD_NUM_IREGS) (ht : i.RT < MD_NUM_IREGS)
include hm

/-- A store that reads the aligned word of `ea` first, and puts another word there. -/
theorem store_base {ea : Addr} (merge : Word → Word) :
    ∃ m₁ m₂, s.store.MEM_READ 4 (WL_BASE ea) = .ok (s.store.flat.read (WL_BASE ea) 4, m₁) ∧
      m₁.MEM_WRITE (n := 4) (WL_BASE ea) (merge (s.store.flat.read (WL_BASE ea) 4)) = .ok m₂ ∧ m₂.Ok ∧
      ∀ b, m₂.flat b = if WL_BASE b = WL_BASE ea then
        byte (merge (s.store.flat.read (WL_BASE ea) 4)) (b - WL_BASE ea).toNat else s.store.flat b := by
  obtain ⟨m₁, hr, hmv⟩ := Mem.MEM_READ_spec hm (base_fits ea)
  obtain ⟨m₂, hw, hok, hf, -⟩ := Mem.MEM_WRITE_spec (hmv.ok hm) (base_fits ea)
    (merge (s.store.flat.read (WL_BASE ea) 4) : BitVec (8 * 4))
  refine ⟨m₁, m₂, hr, hw, hok, fun b => ?_⟩
  rw [hf, hmv.flat hm]
  show (if (b - WL_BASE ea).toNat < 4 then _ else _) = _
  simp only [sub_base_lt]
  rfl

include hs ht

theorem SWL_run (host : Host) : ∃ m',
    (SWL_IMPL i host).run (memPorts.handler sys) s = .ok (.none, { s with store := m' }) ∧ m'.Ok ∧ ∀ b, m'.flat b =
      if (b - (s.regs.R i.RS + i.OFS - 3)).toNat < 4 ∧ WL_BASE b = WL_BASE (s.regs.R i.RS + i.OFS) then
        byte (s.regs.R i.RT) (b - (s.regs.R i.RS + i.OFS - 3)).toNat else s.store.flat b := by
  generalize hea : s.regs.R i.RS + i.OFS = ea
  obtain ⟨m₁, m₂, hr, hw, hok, hf⟩ := store_base hm fun w =>
    (host.shr (s.regs.R i.RT) (8 * (4 - WR_SIZE ea)) &&& WR_PROT_MASK2 ea) ||| (w &&& ~~~WR_PROT_MASK2 ea)
  have hdisp : (disp i).run (memPorts.handler sys) s = .ok (ea, s) := by
    rw [disp, MdInst.BS, run_GPR _ _ _ _ hs, hea, run_return]
  refine ⟨m₂, ?_, hok, fun b => ?_⟩
  · unfold SWL_IMPL
    rw [run_bind_ok _ hdisp, run_READ_WORD hr]
    dsimp only
    rw [if_neg (by simp), run_GPR _ _ _ _ ht]
    exact run_WRITE_WORD hw
  · have hlt : ea.toNat % 4 < 4 := Nat.mod_lt _ (by decide)
    rw [hf]
    by_cases hb : WL_BASE b = WL_BASE ea
    · have hk := (sub_base_lt ea b).2 hb
      rw [if_pos hb, WR_PROT_MASK2, WR_SIZE, toNat_offset, byte_merge (by omega) hk, sub_first ea b hb]
      by_cases hnew : (b - WL_BASE ea).toNat + (4 - (ea.toNat % 4 + 1)) < 4
      · rw [if_pos hnew, if_pos ⟨hnew, hb⟩, byte_shr host hnew]
      · rw [if_neg hnew, if_neg fun h => hnew h.1, byte_read _ _ hk, base_add_sub]
    · rw [if_neg hb, if_neg fun h => hb h.2]

theorem SWR_run : ∃ m', (SWR_IMPL i).run (memPorts.handler sys) s = .ok (.none, { s with store := m' }) ∧
    m'.Ok ∧ ∀ b, m'.flat b =
      if (b - (s.regs.R i.RS + i.OFS)).toNat < 4 ∧ WL_BASE b = WL_BASE (s.regs.R i.RS + i.OFS) then
        byte (s.regs.R i.RT) (b - (s.regs.R i.RS + i.OFS)).toNat else s.store.flat b := by
  generalize hea : s.regs.R i.RS + i.OFS = ea
  obtain ⟨m₁, m₂, hr, hw, hok, hf⟩ := store_base hm fun w =>
    ((s.regs.R i.RT <<< (8 * (4 - WL_SIZE ea))) &&& ~~~WL_PROT_MASK1 ea) ||| (w &&& WL_PROT_MASK1 ea)
  have hdisp : (disp i).run (memPorts.handler sys) s = .ok (ea, s) := by
    rw [disp, MdInst.BS, run_GPR _ _ _ _ hs, hea, run_return]
  refine ⟨m₂, ?_, hok, fun b => ?_⟩
  · unfold SWR_IMPL
    rw [run_bind_ok _ hdisp, WR_BASE, ← WL_BASE, run_READ_WORD hr]
    dsimp only
    rw [if_neg (by simp), run_GPR _ _ _ _ ht]
    exact run_WRITE_WORD hw
  · have hlt : ea.toNat % 4 < 4 := Nat.mod_lt _ (by decide)
    rw [hf]
    by_cases hb : WL_BASE b = WL_BASE ea
    · have hk := (sub_base_lt ea b).2 hb
      have hsub : 4 - (4 - ea.toNat % 4) = ea.toNat % 4 := by omega
      rw [if_pos hb, BitVec.or_comm, WL_PROT_MASK1, WL_SIZE, toNat_offset, byte_merge (by omega) hk, hsub,
        byte_shiftLeft hk]
      by_cases hnew : ea.toNat % 4 ≤ (b - WL_BASE ea).toNat
      · rw [if_neg (by omega), if_neg (by omega), if_pos ⟨(sub_self_lt ea b hb).2 hnew, hb⟩,
          sub_self ea b hb hnew]
      · rw [if_pos (by omega), if_neg fun h => hnew ((sub_self_lt ea b hb).1 h.1), byte_read _ _ hk, base_add_sub]
    · rw [if_neg hb, if_neg fun h => hb h.2]

end Stores

/-! ## The pairs -/

/-- The fields of a pair that accesses the unaligned word at `OFS` of the second one. -/
structure Pair (i j : MdInst) : Prop where
  base : i.RS = j.RS
  reg : i.RT = j.RT
  last : i.OFS = j.OFS + 3
  base_lt : j.RS < MD_NUM_IREGS
  reg_lt : j.RT < MD_NUM_IREGS

section Pairs
variable (sys) {j : MdInst}

theorem Pair.ea (h : Pair i j) : s.regs.R i.RS + i.OFS = s.regs.R j.RS + j.OFS + 3 := by
  rw [h.base, h.last, BitVec.add_assoc]

theorem Pair.first (h : Pair i j) : s.regs.R i.RS + i.OFS - 3 = s.regs.R j.RS + j.OFS := by
  rw [h.ea, BitVec.add_sub_cancel]

theorem Pair.offset (h : Pair i j) : (s.regs.R i.RS + i.OFS).toNat % 4 = ((s.regs.R j.RS + j.OFS).toNat + 3) % 4 := by
  have h3 : (3 : Addr).toNat = 3 := rfl
  rw [h.ea, BitVec.toNat_add _ 3, h3]
  omega

/-- In either order the pair of loads loads the unaligned word, when they do not overwrite its address. -/
theorem load_unaligned (h : Pair i j) (hm : s.store.Ok) (hne : j.RS ≠ j.RT) :
    let loaded (s' : Machine Mem O) : Prop := ∃ m', m'.flat = s.store.flat ∧
      s' = { s with regs := s.regs.setR j.RT (s.store.flat.read (s.regs.R j.RS + j.OFS) 4), store := m' }
    (∃ s₁ s₂, (LWL_IMPL i).run (memPorts.handler sys) s = .ok (.none, s₁) ∧
      (LWR_IMPL j).run (memPorts.handler sys) s₁ = .ok (.none, s₂) ∧ loaded s₂) ∧
    (∃ s₁ s₂, (LWR_IMPL j).run (memPorts.handler sys) s = .ok (.none, s₁) ∧
      (LWL_IMPL i).run (memPorts.handler sys) s₁ = .ok (.none, s₂) ∧ loaded s₂) := by
  have hbase : i.RS < MD_NUM_IREGS := h.base ▸ h.base_lt
  have hreg : i.RT < MD_NUM_IREGS := h.reg ▸ h.reg_lt
  dsimp only
  constructor
  · obtain ⟨v, m₁, hr, hmv, hv⟩ := LWL_run sys hm hbase hreg
    obtain ⟨w, m₂, hr₂, hmv₂, hw⟩ := LWR_run sys
      (s := { s with regs := s.regs.setR i.RT v, store := m₁ }) (hmv.ok hm) h.base_lt h.reg_lt
    refine ⟨_, _, hr, hr₂, m₂, (hmv₂.flat (hmv.ok hm)).trans (hmv.flat hm), ?_⟩
    have hwv : w = s.store.flat.read (s.regs.R j.RS + j.OFS) 4 := by
      apply byte_ext
      intro k hk
      have hmod := h.offset (s := s)
      rw [hw k hk, byte_read _ _ hk, hmv.flat hm, h.reg, Regs.setR_ne _ hne, Regs.setR_self, hv k hk, h.first]
      split
      case isTrue => rfl
      case isFalse hold => rw [if_neg (by omega)]
    rw [hwv, h.reg, Regs.setR_setR]
  · obtain ⟨v, m₁, hr, hmv, hv⟩ := LWR_run sys hm h.base_lt h.reg_lt
    obtain ⟨w, m₂, hr₂, hmv₂, hw⟩ := LWL_run sys
      (s := { s with regs := s.regs.setR j.RT v, store := m₁ }) (hmv.ok hm) hbase hreg
    refine ⟨_, _, hr, hr₂, m₂, (hmv₂.flat (hmv.ok hm)).trans (hmv.flat hm), ?_⟩
    have hwv : w = s.store.flat.read (s.regs.R j.RS + j.OFS) 4 := by
      apply byte_ext
      intro k hk
      have hmod := h.offset (s := s)
      rw [hw k hk, byte_read _ _ hk, hmv.flat hm, h.reg, Regs.setR_self, Regs.setR_ne _ (h.base ▸ hne), hv k hk,
        h.first]
      split
      case isTrue hold => rw [if_pos (by omega)]
      case isFalse => rfl
    rw [hwv, h.reg, Regs.setR_setR]

/-- A word that starts at the end of one page and ends in the next one. -/
theorem load_unaligned_across : ∃ m₁ m s₁ s₂, mem_init.MEM_WRITE_WORD 0x1ffc 0x44332211 = .ok m₁ ∧
    m₁.MEM_WRITE_WORD 0x2000 0x88776655 = .ok m ∧
    (LWL_IMPL ⟨0x2c, 0x01020004⟩).run (memPorts.handler fun os : Unit => .ret os)
        ⟨(regs_init.setR 1 0x1ffd).setR 2 0xffffffff, m, ()⟩ = .ok (.none, s₁) ∧
      (LWR_IMPL ⟨0x2d, 0x01020001⟩).run (memPorts.handler fun os : Unit => .ret os) s₁ = .ok (.none, s₂) ∧
      s₂.regs.R 2 = 0x66554433 := by
  obtain ⟨m₁, h₁, hok₁, hf₁, -⟩ := Mem.MEM_WRITE_spec (n := 4) (a := 0x1ffc) Mem.ok_init (by decide) 0x44332211
  obtain ⟨m, hm, hok, hf, -⟩ := Mem.MEM_WRITE_spec (n := 4) (a := 0x2000) hok₁ (by decide) 0x88776655
  obtain ⟨⟨s₁, s₂, hl, hr, m', -, rfl⟩, -⟩ := load_unaligned (fun os : Unit => .ret os)
    (s := ⟨(regs_init.setR 1 0x1ffd).setR 2 0xffffffff, m, ()⟩) (i := ⟨0x2c, 0x01020004⟩)
    (j := ⟨0x2d, 0x01020001⟩) ⟨rfl, rfl, rfl, by decide, by decide⟩ hok (by decide)
  refine ⟨m₁, m, _, _, h₁, hm, hl, hr, ?_⟩
  have hread : m.flat.read (n := 4) 0x1ffe = 0x66554433 := by
    rw [hf, hf₁]
    decide
  exact hread

/-- The pair of stores stores the word at the unaligned address, and changes no other byte. -/
theorem store_unaligned (h : Pair i j) (hm : s.store.Ok) (host : Host) :
    let stored (s' : Machine Mem O) : Prop := ∃ m', m'.Ok ∧ s' = { s with store := m' } ∧
      m'.flat = s.store.flat.write (n := 4) (s.regs.R j.RS + j.OFS) (s.regs.R j.RT)
    (∃ s₁ s₂, (SWL_IMPL i host).run (memPorts.handler sys) s = .ok (.none, s₁) ∧
      (SWR_IMPL j).run (memPorts.handler sys) s₁ = .ok (.none, s₂) ∧ stored s₂) ∧
    (∃ s₁ s₂, (SWR_IMPL j).run (memPorts.handler sys) s = .ok (.none, s₁) ∧
      (SWL_IMPL i host).run (memPorts.handler sys) s₁ = .ok (.none, s₂) ∧ stored s₂) := by
  have hbase : i.RS < MD_NUM_IREGS := h.base ▸ h.base_lt
  have hreg : i.RT < MD_NUM_IREGS := h.reg ▸ h.reg_lt
  dsimp only
  constructor
  · obtain ⟨m₁, hr, hok, hf⟩ := SWL_run sys hm hbase hreg host
    obtain ⟨m₂, hr₂, hok₂, hf₂⟩ := SWR_run sys (s := { s with store := m₁ }) hok h.base_lt h.reg_lt
    refine ⟨_, _, hr, hr₂, m₂, hok₂, rfl, ?_⟩
    rw [← write_two_steps _ _ (base_or (s.regs.R j.RS + j.OFS))]
    funext b
    rw [hf₂, hf, h.first, h.ea, h.reg]
  · obtain ⟨m₁, hr, hok, hf⟩ := SWR_run sys hm h.base_lt h.reg_lt
    obtain ⟨m₂, hr₂, hok₂, hf₂⟩ := SWL_run sys (s := { s with store := m₁ }) hok hbase hreg host
    refine ⟨_, _, hr, hr₂, m₂, hok₂, rfl, ?_⟩
    rw [← write_two_steps _ _ fun b hd => (base_or (s.regs.R j.RS + j.OFS) b hd).symm]
    funext b
    rw [hf₂, hf, h.first, h.ea, h.reg]

theorem store_unaligned_across : ∃ s₁ s₂,
    (SWL_IMPL ⟨0x36, 0x01020004⟩ slowHost).run (memPorts.handler fun os : Unit => .ret os)
        ⟨(regs_init.setR 1 0x1ffd).setR 2 0x01020304, mem_init, ()⟩ = .ok (.none, s₁) ∧
      (SWR_IMPL ⟨0x37, 0x01020001⟩).run (memPorts.handler fun os : Unit => .ret os) s₁ = .ok (.none, s₂) ∧
      s₂.store.flat 0x1ffe = 4 ∧ s₂.store.flat 0x2001 = 1 ∧ s₂.store.flat 0x2002 = 0 := by
  obtain ⟨⟨s₁, s₂, h₁, h₂, m', -, rfl, hf⟩, -⟩ := store_unaligned (fun os : Unit => .ret os)
    (s := ⟨(regs_init.setR 1 0x1ffd).setR 2 0x01020304, mem_init, ()⟩) (i := ⟨0x36, 0x01020004⟩)
    (j := ⟨0x37, 0x01020001⟩) ⟨rfl, rfl, rfl, by decide, by decide⟩ Mem.ok_init slowHost
  refine ⟨_, _, h₁, h₂, ?_⟩
  dsimp only
  rw [hf]
  exact ⟨rfl, rfl, rfl⟩

end Pairs

end Pisa
