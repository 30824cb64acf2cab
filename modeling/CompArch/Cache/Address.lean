import CompArch.Cache.Store
import Mathlib.Tactic.Ring
/-!
# Addresses and blocks

The address macros in terms of block numbers: the part of an address above the
block offset. Set and tag of an address decide its block, and the check that an
access stays in its block fails where the block's end is the end of the address space.
-/

namespace Cache

variable (g : Geometry)

theorem bsize_toNat (cp : Params) : cp.bsize.toNat = 2 ^ cp.set_shift := by
  have h := cp.bsize_le
  have hlt : 2 ^ cp.set_shift < 2 ^ 32 := Nat.pow_lt_pow_right (by omega) (by omega)
  rw [Params.bsize, BitVec.toNat_shiftLeft, Nat.shiftLeft_eq]
  exact (congrArg (· % 2 ^ 32) (Nat.one_mul _)).trans (Nat.mod_eq_of_lt hlt)

theorem blk_mask_toNat (cp : Params) : cp.blk_mask.toNat = 2 ^ cp.set_shift - 1 := by
  have hpos := Nat.two_pow_pos cp.set_shift
  have hb := bsize_toNat cp
  rw [Params.blk_mask, BitVec.toNat_sub_of_le, hb]
  · rfl
  · rw [BitVec.le_def, hb]
    exact hpos

/-- Masking the block offset away. -/
theorem and_not_blk_mask (cp : Params) (addr : Addr) :
    addr &&& ~~~cp.blk_mask = (addr >>> cp.set_shift) <<< cp.set_shift := by
  have hm (i : Nat) : cp.blk_mask.getLsbD i = decide (i < cp.set_shift) := by
    rw [BitVec.getLsbD, blk_mask_toNat, Nat.testBit_two_pow_sub_one]
  apply BitVec.eq_of_getLsbD_eq
  intro i hi
  rw [BitVec.getLsbD_and, BitVec.getLsbD_not, BitVec.getLsbD_shiftLeft, BitVec.getLsbD_ushiftRight, hm]
  by_cases h : i < cp.set_shift
  · simp [h]
  · simp [h, hi, Nat.add_sub_cancel' (Nat.le_of_not_lt h)]

/-- The first address of an address's block. -/
theorem blockStart_toNat (cp : Params) (addr : Addr) :
    (addr &&& ~~~cp.blk_mask).toNat = addr.toNat / 2 ^ cp.set_shift * 2 ^ cp.set_shift := by
  have hlt : addr.toNat / 2 ^ cp.set_shift * 2 ^ cp.set_shift < 2 ^ 32 :=
    Nat.lt_of_le_of_lt (Nat.div_mul_le_self ..) addr.isLt
  rw [and_not_blk_mask, BitVec.toNat_shiftLeft, BitVec.toNat_ushiftRight, Nat.shiftLeft_eq, Nat.shiftRight_eq_div_pow,
    Nat.mod_eq_of_lt hlt]

theorem CACHE_TAGSET_eq_iff (cp : Params) (a b : Addr) : CACHE_TAGSET cp a = CACHE_TAGSET cp b ↔
    a.toNat / 2 ^ cp.set_shift = b.toNat / 2 ^ cp.set_shift := by
  rw [← BitVec.toNat_inj, CACHE_TAGSET, CACHE_TAGSET, Params.tagset_mask, blockStart_toNat, blockStart_toNat]
  exact Nat.mul_left_inj (Nat.two_pow_pos _).ne'

theorem CACHE_TAGSET_idem (cp : Params) (a : Addr) : CACHE_TAGSET cp (CACHE_TAGSET cp a) = CACHE_TAGSET cp a := by
  rw [CACHE_TAGSET, CACHE_TAGSET, BitVec.and_assoc, BitVec.and_self]

theorem CACHE_SET_val (addr : Addr) : (CACHE_SET g addr).val = addr.toNat / 2 ^ g.set_shift % 2 ^ g.set_bits := by
  have hlt : g.nsets - 1 < 2 ^ 32 := by
    have h := g.tag_shift_lt
    have : g.nsets ≤ 2 ^ 32 := Nat.pow_le_pow_right (by omega) (by omega)
    omega
  show ((addr >>> g.set_shift) &&& g.set_mask).toNat = _
  rw [BitVec.toNat_and, BitVec.toNat_ushiftRight, Nat.shiftRight_eq_div_pow, Geometry.set_mask, BitVec.toNat_ofNat,
    Nat.mod_eq_of_lt hlt, Geometry.nsets, Nat.and_two_pow_sub_one_eq_mod]

theorem CACHE_TAG_toNat (addr : Addr) : (CACHE_TAG g addr).toNat = addr.toNat / 2 ^ g.set_shift / 2 ^ g.set_bits := by
  rw [CACHE_TAG, BitVec.toNat_ushiftRight, Nat.shiftRight_eq_div_pow, Geometry.tag_shift, Nat.pow_add,
    Nat.div_div_eq_div_mul]

/-- Two addresses are in one block exactly when they have the same set and tag. -/
theorem same_block_iff (a b : Addr) : CACHE_TAGSET g.toParams a = CACHE_TAGSET g.toParams b ↔
    CACHE_SET g a = CACHE_SET g b ∧ CACHE_TAG g a = CACHE_TAG g b := by
  rw [CACHE_TAGSET_eq_iff, Fin.ext_iff, CACHE_SET_val, CACHE_SET_val, ← BitVec.toNat_inj, CACHE_TAG_toNat,
    CACHE_TAG_toNat]
  constructor
  · intro h
    rw [h]
    exact ⟨rfl, rfl⟩
  · rintro ⟨hs, ht⟩
    rw [← Nat.div_add_mod (a.toNat / 2 ^ g.set_shift) (2 ^ g.set_bits), hs, ht, Nat.div_add_mod]

/-! ## Accesses within a block -/

/-- An access of `nbytes` bytes at a multiple of `nbytes`, a power of two, that fits in a block. -/
structure InBlock (cp : Params) (addr nbytes : Addr) : Prop where
  pow : ∃ j, nbytes.toNat = 2 ^ j ∧ j ≤ cp.set_shift
  aligned : nbytes.toNat ∣ addr.toNat

variable {cp : Params} {addr nbytes : Addr}

theorem and_sub_one_eq_zero {n : Addr} {j : Nat} (hn : n.toNat = 2 ^ j) :
    addr &&& (n - 1) = 0 ↔ n.toNat ∣ addr.toNat := by
  have hpos := Nat.two_pow_pos j
  have h1 : (n - 1).toNat = 2 ^ j - 1 := by
    rw [BitVec.toNat_sub_of_le, hn]
    · rfl
    · rw [BitVec.le_def, hn]
      exact hpos
  rw [← BitVec.toNat_inj, BitVec.toNat_and, h1, Nat.and_two_pow_sub_one_eq_mod, hn]
  exact Nat.dvd_iff_mod_eq_zero.symm

/-- The alignment check passes. -/
theorem InBlock.size (h : InBlock cp addr nbytes) : ¬ (nbytes &&& (nbytes - 1) ≠ 0 ∨ addr &&& (nbytes - 1) ≠ 0) := by
  obtain ⟨j, hj, -⟩ := h.pow
  rw [not_or, not_not, not_not, and_sub_one_eq_zero hj, and_sub_one_eq_zero hj]
  exact ⟨Nat.dvd_refl _, h.aligned⟩

/-- The access's last byte is in the block of its first. -/
theorem InBlock.end_le (h : InBlock cp addr nbytes) :
    addr.toNat + nbytes.toNat ≤ addr.toNat / 2 ^ cp.set_shift * 2 ^ cp.set_shift + 2 ^ cp.set_shift := by
  obtain ⟨j, hj, hle⟩ := h.pow
  obtain ⟨q, hq⟩ := h.aligned
  have hdvd : 2 ^ j ∣ 2 ^ cp.set_shift := Nat.pow_dvd_pow 2 hle
  obtain ⟨m, hm⟩ := hdvd
  rw [hj] at hq ⊢
  have hpos := Nat.two_pow_pos j
  have hmpos : 0 < m := by
    have := Nat.two_pow_pos cp.set_shift
    rw [hm] at this
    exact Nat.pos_of_mul_pos_left this
  rw [hm, hq, Nat.mul_div_mul_left _ _ hpos]
  have hlt : q % m + 1 ≤ m := Nat.mod_lt q hmpos
  have hq' : 2 ^ j * q + 2 ^ j ≤ 2 ^ j * (q / m * m + m) := by
    rw [← Nat.mul_succ]
    apply Nat.mul_le_mul_left
    have := Nat.div_add_mod q m
    rw [Nat.mul_comm] at this
    omega
  calc 2 ^ j * q + 2 ^ j ≤ 2 ^ j * (q / m * m + m) := hq'
    _ = q / m * (2 ^ j * m) + 2 ^ j * m := by ring

/-- The check of `cache_access` that the access stays in its block. -/
def Spans (cp : Params) (addr nbytes : Addr) : Prop := (addr &&& ~~~cp.blk_mask) + cp.bsize < addr + nbytes

/-- The check fails on an access within a block where it overflows: in the last
block of the address space, short of its end. -/
theorem InBlock.spans_iff (h : InBlock cp addr nbytes) : Spans cp addr nbytes ↔
    2 ^ 32 ≤ addr.toNat + 2 ^ cp.set_shift ∧ addr.toNat + nbytes.toNat ≠ 2 ^ 32 := by
  have hend := h.end_le
  have hle := cp.bsize_le
  have hk : 2 ^ cp.set_shift * 2 ^ (32 - cp.set_shift) = 2 ^ 32 := by
    rw [← Nat.pow_add]
    congr 1
    omega
  have hpos := Nat.two_pow_pos cp.set_shift
  have hlt := addr.isLt
  have hn : 0 < nbytes.toNat := by
    obtain ⟨j, hj, -⟩ := h.pow
    rw [hj]
    exact Nat.two_pow_pos j
  have hq : addr.toNat / 2 ^ cp.set_shift < 2 ^ (32 - cp.set_shift) := by
    rw [Nat.div_lt_iff_lt_mul hpos, Nat.mul_comm, hk]
    exact hlt
  -- the block ends at the end of the address space, or another one follows
  have hcase : addr.toNat / 2 ^ cp.set_shift * 2 ^ cp.set_shift + 2 ^ cp.set_shift = 2 ^ 32 ∨
      addr.toNat / 2 ^ cp.set_shift * 2 ^ cp.set_shift + 2 ^ cp.set_shift + 2 ^ cp.set_shift ≤ 2 ^ 32 := by
    rcases Nat.eq_or_lt_of_le (Nat.succ_le_of_lt hq) with he | hl
    · left
      rw [← hk, ← he, Nat.mul_comm (2 ^ cp.set_shift), Nat.succ_mul]
    · right
      rw [← hk, Nat.mul_comm (2 ^ cp.set_shift) (2 ^ (32 - cp.set_shift)), ← Nat.succ_mul, ← Nat.succ_mul]
      exact Nat.mul_le_mul_right _ hl
  have hdm := Nat.div_add_mod addr.toNat (2 ^ cp.set_shift)
  have hmod := Nat.mod_lt addr.toNat hpos
  rw [Spans, BitVec.lt_def, BitVec.toNat_add, BitVec.toNat_add, blockStart_toNat, bsize_toNat]
  rw [Nat.mul_comm] at hdm
  generalize addr.toNat / 2 ^ cp.set_shift * 2 ^ cp.set_shift = b at *
  rcases hcase with ht | ht
  · rw [ht, Nat.mod_self]
    by_cases he : addr.toNat + nbytes.toNat = 2 ^ 32
    · rw [he, Nat.mod_self]
      omega
    · have hlt' : addr.toNat + nbytes.toNat < 2 ^ 32 := by omega
      rw [Nat.mod_eq_of_lt hlt']
      omega
  · rw [Nat.mod_eq_of_lt (by omega), Nat.mod_eq_of_lt (by omega)]
    omega

/-- The whole block is within its block. -/
theorem inBlock_block (cp : Params) (addr : Addr) : InBlock cp (CACHE_TAGSET cp addr) cp.bsize := by
  refine ⟨⟨cp.set_shift, bsize_toNat cp, Nat.le_refl _⟩, ?_⟩
  rw [bsize_toNat, CACHE_TAGSET, Params.tagset_mask, blockStart_toNat]
  exact Nat.dvd_mul_left ..

/-- A prefetch of a whole block passes the check. -/
theorem not_spans_block (cp : Params) (addr : Addr) : ¬ Spans cp (CACHE_TAGSET cp addr) cp.bsize := by
  rw [Spans, CACHE_TAGSET, Params.tagset_mask, BitVec.and_assoc, BitVec.and_self, BitVec.not_lt]
  exact BitVec.le_refl _

end Cache
