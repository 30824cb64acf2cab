import CompArch.Memory.Flat
import CompArch.Outcome
import Mathlib.Data.List.Dedup
/-!
# Copies and runs of accesses

`mem_access` and the copies built on it move bytes between a host buffer and the
flat memory. Every sequence of calls gives the answers the flat memory would give.
-/

namespace Memory

open Function

/-! ## Buffers -/

section Buffers
variable {p q r : Buffer} {i j : Nat}

theorem Buffer.put_zero : p.put 0 q = q := by
  funext k
  simp [Buffer.put]

theorem Buffer.put_at : p.put i (p.at i) = p := by
  funext k
  by_cases h : i ≤ k
  · simp [Buffer.put, Buffer.at, h, Nat.add_sub_cancel' h]
  · simp [Buffer.put, h]

theorem Buffer.at_put : (p.put i q).at (i + j) = q.at j := by
  funext k
  have hle : i ≤ i + j + k := by omega
  have hsub : i + j + k - i = j + k := by omega
  simp [Buffer.put, Buffer.at, hle, hsub]

theorem Buffer.put_put : (p.put i q).put (i + j) r = p.put i (q.put j r) := by
  funext k
  unfold Buffer.put
  by_cases h : i + j ≤ k
  · have hi : i ≤ k := by omega
    have hj : j ≤ k - i := by omega
    simp [h, hi, hj, Nat.sub_sub]
  · by_cases hi : i ≤ k
    · have hj : ¬ j ≤ k - i := by omega
      simp [h, hi, hj]
    · simp [h, hi]

theorem Buffer.at_add : (p.at i).at j = p.at (i + j) := by
  funext k
  simp [Buffer.at, Nat.add_assoc]

end Buffers

/-! ## Copies between a buffer and a flat memory -/

namespace Flat

variable {f : Flat} {a b : Addr} {p : Buffer} {n s t : Nat}

/-- What a copy of `n` bytes leaves in the buffer and in the memory. -/
def copy (f : Flat) (cmd : Cmd) (a : Addr) (p : Buffer) (n : Nat) : Buffer × Flat :=
  match cmd with
  | .Read => (fun i => if i < n then f (a + BitVec.ofNat 32 i) else p i, f)
  | .Write => (p, f.put a p n)

/-- A piece is put in two. -/
theorem put_add (h : s + t ≤ 2 ^ 32) :
    f.put a p (s + t) = (f.put a p s).put (a + BitVec.ofNat 32 s) (p.at s) t := by
  funext b
  have hd := (b - a).isLt
  have hsub : (b - (a + BitVec.ofNat 32 s)).toNat = (2 ^ 32 - s % 2 ^ 32 + (b - a).toNat) % 2 ^ 32 := by
    rw [← BitVec.sub_sub, BitVec.toNat_sub, BitVec.toNat_ofNat]
  unfold put
  rw [hsub]
  generalize (b - a).toNat = d at hd ⊢
  by_cases hs : d < s
  · have hmod : ¬ (2 ^ 32 - s % 2 ^ 32 + d) % 2 ^ 32 < t := by omega
    have hlt : d < s + t := by omega
    simp only [hmod, hlt, hs, if_true, if_false]
  · by_cases ht : d < s + t
    · have hmod : (2 ^ 32 - s % 2 ^ 32 + d) % 2 ^ 32 = d - s := by omega
      have hlt : d - s < t := by omega
      have hadd : s + (d - s) = d := by omega
      simp only [hmod, hlt, ht, if_true, Buffer.at, hadd]
    · have hmod : ¬ (2 ^ 32 - s % 2 ^ 32 + d) % 2 ^ 32 < t := by omega
      simp only [hmod, ht, hs, if_false]

/-- A copy is made in two steps. -/
theorem copy_add (cmd : Cmd) (h : s + t ≤ 2 ^ 32) :
    f.copy cmd a p (s + t) =
      let (q, f₁) := f.copy cmd a p s
      let (r, f₂) := f₁.copy cmd (a + BitVec.ofNat 32 s) (q.at s) t
      (q.put s r, f₂) := by
  cases cmd with
  | Write =>
    simp only [copy, Buffer.put_at]
    rw [put_add h]
  | Read =>
    simp only [copy]
    congr 1
    funext i
    simp only [Buffer.put, Buffer.at]
    by_cases hi : s ≤ i
    · rw [if_pos hi]
      by_cases ht : i < s + t
      · have hlt : i - s < t := by omega
        have hadd : a + BitVec.ofNat 32 s + BitVec.ofNat 32 (i - s) = a + BitVec.ofNat 32 i := by
          rw [BitVec.add_assoc, ← BitVec.ofNat_add, Nat.add_sub_cancel' hi]
        rw [if_pos ht, if_pos hlt, hadd]
      · have hlt : ¬ i - s < t := by omega
        have hs : ¬ i < s := by omega
        rw [if_neg ht, if_neg hlt, Nat.add_sub_cancel' hi, if_neg hs]
    · have hs : i < s := by omega
      have ht : i < s + t := by omega
      rw [if_neg hi, if_pos hs, if_pos ht]

theorem copy_zero (cmd : Cmd) : f.copy cmd a p 0 = (p, f) := by
  cases cmd <;> rfl

/-- The bytes behind the piece that is put are what they were. -/
theorem put_of_le (h : n ≤ (b - a).toNat) : f.put a p n b = f b := if_neg (Nat.not_lt.2 h)

theorem put_of_ne (h : ∀ i < n, b ≠ a + BitVec.ofNat 32 i) : f.put a p n b = f b := by
  refine put_of_le (Nat.not_lt.1 fun hlt => h _ hlt ?_)
  rw [BitVec.ofNat_toNat, BitVec.setWidth_eq, BitVec.add_comm, BitVec.sub_add_cancel]

/-- Each byte that was put is there. -/
theorem put_add_ofNat {i : Nat} (hn : n ≤ 2 ^ 32) (hi : i < n) : f.put a p n (a + BitVec.ofNat 32 i) = p i := by
  have hd : (a + BitVec.ofNat 32 i - a).toNat = i := by
    rw [BitVec.add_comm, BitVec.add_sub_cancel, BitVec.toNat_ofNat]
    omega
  rw [put, hd, if_pos hi]

end Flat

/-- One byte is put. -/
theorem put_one_congr {f : Flat} {a : Addr} {p q : Nat → Byte} (h : p 0 = q 0) : f.put a p 1 = f.put a q 1 := by
  funext b
  unfold Flat.put
  by_cases hb : (b - a).toNat < 1
  · have hz : (b - a).toNat = 0 := by omega
    rw [if_pos hb, if_pos hb, hz, h]
  · rw [if_neg hb, if_neg hb]

/-- One byte is read. -/
theorem put_read_one {f : Flat} {a : Addr} {p : Buffer} {i : Nat} :
    p.put i (f.copy .Read a (p.at i) 1).1 = update p i (f a) := by
  funext k
  by_cases hk : k = i
  · subst hk
    simp [Buffer.put, Flat.copy]
  · rw [update_of_ne hk]
    by_cases hi : i ≤ k
    · have hne : k - i ≠ 0 := by omega
      simp [Buffer.put, Flat.copy, Buffer.at, hi, hne, Nat.add_sub_cancel' hi]
    · simp [Buffer.put, hi]

/-! ## Accesses -/

namespace Mem

variable {m m' : Mem} {a : Addr} {p : Buffer} {n i : Nat}

/-- The addresses a copy of `n` bytes writes. -/
def Target (cmd : Cmd) (a : Addr) (n : Nat) (b : Addr) : Prop := cmd = .Write ∧ (b - a).toNat < n

theorem target_zero {cmd : Cmd} (b : Addr) : ¬ Target cmd a 0 b := fun h => Nat.not_lt_zero _ h.2

theorem target_add {cmd : Cmd} {s t : Nat} (h : s + t ≤ 2 ^ 32) (b : Addr) :
    Target cmd a (s + t) b ↔ Target cmd a s b ∨ Target cmd (a + BitVec.ofNat 32 s) t b := by
  have hd := (b - a).isLt
  have hsub : (b - (a + BitVec.ofNat 32 s)).toNat = (2 ^ 32 - s % 2 ^ 32 + (b - a).toNat) % 2 ^ 32 := by
    rw [← BitVec.sub_sub, BitVec.toNat_sub, BitVec.toNat_ofNat]
  unfold Target
  rw [hsub, ← and_or_left]
  refine and_congr_right fun _ => ?_
  omega

theorem target_one (b : Addr) : Target .Write a 1 b ↔ b = a := by
  unfold Target
  constructor
  · rintro ⟨-, h⟩
    have h0 : b - a = 0 := BitVec.eq_of_toNat_eq (by simpa using h)
    rw [← BitVec.sub_add_cancel b a, h0]
    exact BitVec.zero_add a
  · rintro rfl
    exact ⟨rfl, by simp⟩

/-- A result of a call that moved `n` bytes as the flat memory does. -/
def Copied (m : Mem) (cmd : Cmd) (a : Addr) (p : Buffer) (n : Nat) (x : Except Bad (Fault × Buffer × Mem)) : Prop :=
  ∃ m', x = .ok (.none, (m.flat.copy cmd a p n).1, m') ∧ m'.Ok ∧ m'.flat = (m.flat.copy cmd a p n).2 ∧
    Grows m m' (Target cmd a n)

theorem flat_read_one (f : Flat) (a : Addr) : f.read a 1 = f a := by
  have h0 : a + BitVec.ofNat 32 0 = a := BitVec.add_zero a
  show number (fun i => f (a + BitVec.ofNat 32 (i + 1))) 0 ++ f (a + BitVec.ofNat 32 0) = f a
  rw [h0]
  apply BitVec.eq_of_getLsbD_eq
  intro j hj
  have hj8 : j < 8 := hj
  rw [BitVec.getLsbD_append, if_pos hj8]

theorem byte_in_page (a : Addr) : MEM_OFFSET a + 1 ≤ MD_PAGE_SIZE := MEM_OFFSET_lt a

theorem MEM_READ_BYTE_spec (h : m.Ok) (a : Addr) : ∃ m', m.MEM_READ_BYTE a = .ok (m.flat a, m') ∧ Moved m m' := by
  obtain ⟨m', hr, hm⟩ := MEM_READ_spec h (byte_in_page a)
  rw [flat_read_one] at hr
  exact ⟨m', hr, hm⟩

theorem MEM_WRITE_BYTE_spec (h : m.Ok) (a : Addr) (v : Byte) :
    ∃ m', m.MEM_WRITE_BYTE a v = .ok m' ∧ m'.Ok ∧ m'.flat = m.flat.put a (fun _ => v) 1 ∧ Grows m m' (· = a) := by
  obtain ⟨m', hw, hok, hf, hg⟩ := MEM_WRITE_spec h (byte_in_page a) (n := 1) v
  exact ⟨m', hw, hok, hf.trans (put_one_congr (by simp [byteOf])), hg⟩

theorem readLoop_spec (h : m.Ok) (hn : n ≤ 2 ^ 32) :
    ∃ m', readLoop a p i n m = .ok (p.put i (m.flat.copy .Read a (p.at i) n).1, m') ∧ Moved m m' := by
  induction n generalizing m a p i with
  | zero => exact ⟨m, by rw [Flat.copy_zero, Buffer.put_at]; rfl, .refl⟩
  | succ n ih =>
    obtain ⟨m₁, hr, hm⟩ := MEM_READ_BYTE_spec h a
    obtain ⟨m₂, hr₂, hm₂⟩ := ih (hm.ok h) (a := a + 1) (p := update p i (m.flat a)) (i := i + 1) (by omega)
    refine ⟨m₂, ?_, hm.trans hm₂⟩
    unfold readLoop
    rw [hr]
    refine hr₂.trans ?_
    rw [Nat.add_comm n 1, Flat.copy_add .Read (by omega), ← put_read_one (f := m.flat), Buffer.at_put, Buffer.put_put,
      hm.flat h]
    rfl

theorem writeLoop_spec (h : m.Ok) (hn : n ≤ 2 ^ 32) :
    ∃ m', writeLoop a p i n m = .ok m' ∧ m'.Ok ∧ m'.flat = m.flat.put a (p.at i) n ∧
      Grows m m' (Target .Write a n) := by
  induction n generalizing m a i with
  | zero => exact ⟨m, rfl, h, rfl, Moved.refl.grows h target_zero⟩
  | succ n ih =>
    obtain ⟨m₁, hw, hok, hf, hg⟩ := MEM_WRITE_BYTE_spec h a (p i)
    obtain ⟨m₂, hw₂, hok₂, hf₂, hg₂⟩ := ih hok (a := a + 1) (i := i + 1) (by omega)
    refine ⟨m₂, ?_, hok₂, ?_, ?_⟩
    · unfold writeLoop
      rw [hw]
      exact hw₂
    · have hone : m.flat.put a (fun _ => p i) 1 = m.flat.put a (p.at i) 1 := put_one_congr rfl
      rw [hf₂, hf, hone, Nat.add_comm n 1, Flat.put_add (by omega), Buffer.at_add]
      rfl
    · refine hg.trans hg₂ fun b => ?_
      rw [Nat.add_comm n 1, target_add (by omega), target_one]
      rfl

/-- An access whose checks pass. -/
theorem mem_access_copied (h : m.Ok) (cmd : Cmd) (nbytes : BitVec 32) (hs : nbytes &&& (nbytes - 1) = 0)
    (hmax : nbytes.toInt ≤ MD_PAGE_SIZE) (ha : a &&& (nbytes - 1) = 0) :
    Copied m cmd a p nbytes.toInt.toNat (mem_access cmd a p nbytes m) := by
  have hn : nbytes.toInt.toNat ≤ 2 ^ 32 := by
    have hsize : (MD_PAGE_SIZE : Int) = 4096 := rfl
    omega
  have hc : ¬ (nbytes &&& (nbytes - 1) ≠ 0 ∨ (MD_PAGE_SIZE : Int) < nbytes.toInt) := by
    rw [not_or]
    exact ⟨fun hne => hne hs, Int.not_lt.2 hmax⟩
  unfold mem_access
  rw [if_neg hc, if_neg fun hne => hne ha]
  cases cmd with
  | Read =>
    obtain ⟨m', hr, hm⟩ := readLoop_spec (a := a) (p := p) (i := 0) h hn
    refine ⟨m', ?_, hm.ok h, hm.flat h, hm.grows h fun b hb => (by cases hb.1)⟩
    have h0 : p.at 0 = p := by
      funext k
      simp [Buffer.at]
    rw [Buffer.put_zero, h0] at hr
    dsimp only
    rw [hr]
    rfl
  | Write =>
    obtain ⟨m', hw, hok, hf, hg⟩ := writeLoop_spec (a := a) (p := p) (i := 0) h hn
    refine ⟨m', ?_, hok, ?_, hg⟩
    · dsimp only
      rw [hw]
      rfl
    · have h0 : p.at 0 = p := by
        funext k
        simp [Buffer.at]
      rw [hf, h0]
      rfl

end Mem

/-! ## Copies -/

section Copies
variable {m : Mem} {cmd : Cmd} {a : Addr} {p : Buffer} {size n i : Nat} {nbytes : BitVec 32}

/-- A copy is one piece when every access of it is a piece. -/
theorem copyLoop_copied (Aligned : Addr → Prop) (cmd : Cmd) (size : Nat) (p : Buffer) (i : Nat)
    (hnext : ∀ a, Aligned a → Aligned (a + BitVec.ofNat 32 size))
    (hacc : ∀ {m : Mem} {a : Addr} {p : Buffer}, m.Ok → Aligned a →
      Mem.Copied m cmd a p size (Mem.mem_access cmd a p (BitVec.ofNat 32 size) m))
    (h : m.Ok) (ha : Aligned a) (hn : n * size ≤ 2 ^ 32) :
    ∃ m', copyLoop Mem.mem_access size cmd n a p i m =
        .ok (.none, p.put i (m.flat.copy cmd a (p.at i) (n * size)).1, m') ∧
      m'.Ok ∧ m'.flat = (m.flat.copy cmd a (p.at i) (n * size)).2 ∧
      Mem.Grows m m' (Mem.Target cmd a (n * size)) := by
  induction n generalizing m a p i with
  | zero =>
    rw [Nat.zero_mul, Flat.copy_zero, Buffer.put_at]
    exact ⟨m, rfl, h, rfl, Mem.Moved.refl.grows h Mem.target_zero⟩
  | succ n ih =>
    have hsum : size + n * size = (n + 1) * size := by rw [Nat.succ_mul, Nat.add_comm]
    obtain ⟨m₁, hr, hok, hf, hg⟩ := hacc (p := p.at i) h ha
    obtain ⟨m₂, hr₂, hok₂, hf₂, hg₂⟩ := ih (p.put i (m.flat.copy cmd a (p.at i) size).1) (i + size) hok
      (hnext a ha) (by omega)
    rw [← hsum, Flat.copy_add cmd (by omega)]
    rw [Buffer.at_put, Buffer.put_put, hf] at hr₂
    rw [Buffer.at_put, hf] at hf₂
    refine ⟨m₂, ?_, hok₂, hf₂, hg.trans hg₂ (Mem.target_add (by omega))⟩
    unfold copyLoop
    rw [hr]
    exact hr₂

theorem at_zero (p : Buffer) : p.at 0 = p := by
  funext k
  simp [Buffer.at]

/-- Byte by byte, from any address. -/
theorem mem_bcopy_copied (h : m.Ok) (cmd : Cmd) (a : Addr) (p : Buffer) (nbytes : BitVec 32) :
    Mem.Copied m cmd a p nbytes.toInt.toNat (mem_bcopy Mem.mem_access cmd a p nbytes m) := by
  have hlt := nbytes.isLt
  have hle : nbytes.toInt.toNat * 1 ≤ 2 ^ 32 := by
    rw [BitVec.toInt_eq_toNat_cond]
    split <;> omega
  have hc := copyLoop_copied (fun _ => True) cmd 1 p 0 (fun _ _ => trivial)
    (fun {m a p} hm _ => Mem.mem_access_copied hm cmd 1 rfl (by decide) BitVec.and_zero) h trivial hle (a := a)
  rw [at_zero, Buffer.put_zero, Nat.mul_one] at hc
  exact hc

theorem mem_bzero_copied (h : m.Ok) :
    Mem.Copied m .Write a (fun _ => 0) nbytes.toInt.toNat (mem_bzero Mem.mem_access a nbytes m) :=
  mem_bcopy_copied h .Write a (fun _ => 0) nbytes

/-- The words of a copy. -/
theorem words_le (nbytes : BitVec 32) : (nbytes.sshiftRight 2).toInt.toNat * 4 ≤ nbytes.toInt.toNat := by
  rw [BitVec.toInt_sshiftRight, Int.shiftRight_eq_div_pow]
  omega

theorem aligned_add_four {a : Addr} (ha : a &&& 3 = 0) : (a + 4) &&& 3 = 0 := by
  have hand (x : Addr) : (x &&& 3).toNat = x.toNat % 4 := by
    rw [BitVec.toNat_and]
    exact Nat.and_two_pow_sub_one_eq_mod x.toNat 2
  have h := congrArg BitVec.toNat ha
  rw [hand] at h
  rw [← BitVec.toNat_inj, hand, BitVec.toNat_add]
  have h4 : (4 : Addr).toNat = 4 := rfl
  have h0 : (0 : Addr).toNat = 0 := rfl
  rw [h4, h0]
  rw [h0] at h
  omega

/-- Word by word, from the address of a word. -/
theorem mem_bcopy4_copied (h : m.Ok) (ha : a &&& 3 = 0) (cmd : Cmd) (p : Buffer) (nbytes : BitVec 32) :
    Mem.Copied m cmd a p ((nbytes.sshiftRight 2).toInt.toNat * 4)
      (mem_bcopy4 Mem.mem_access cmd a p nbytes m) := by
  have hlt := nbytes.isLt
  have hw := words_le nbytes
  have hle : (nbytes.sshiftRight 2).toInt.toNat * 4 ≤ 2 ^ 32 := by
    refine Nat.le_trans hw ?_
    rw [BitVec.toInt_eq_toNat_cond]
    split <;> omega
  have hc := copyLoop_copied (fun a => a &&& 3 = 0) cmd 4 p 0 (fun _ => aligned_add_four)
    (fun {m a p} hm ha => Mem.mem_access_copied hm cmd 4 rfl (by decide) ha) h ha hle
  rw [at_zero, Buffer.put_zero] at hc
  exact hc

/-- From any other address the first access faults. -/
theorem mem_bcopy4_fault (ha : a &&& 3 ≠ 0) (hw : (nbytes.sshiftRight 2).toInt.toNat ≠ 0) :
    mem_bcopy4 Mem.mem_access cmd a p nbytes m = .ok (.alignment, p, m) := by
  obtain ⟨n, hn⟩ := Nat.exists_eq_succ_of_ne_zero hw
  have hacc : Mem.mem_access cmd a (p.at 0) (BitVec.ofNat 32 4) m = .ok (.alignment, p.at 0, m) := by
    unfold Mem.mem_access
    rw [if_neg (by decide)]
    exact if_pos ha
  unfold mem_bcopy4
  rw [hn]
  unfold copyLoop
  rw [hacc]
  show Except.ok (Fault.alignment, p.put 0 (p.at 0), m) = _
  rw [Buffer.put_at]

section Strings
variable {s : Buffer} {len fuel : Nat}

/-- One character, as `mem_strcpy` accesses it. -/
theorem mem_access_char (h : m.Ok) (cmd : Cmd) (a : Addr) (p : Buffer) :
    Mem.Copied m cmd a p 1 (Mem.mem_access cmd a p 1 m) :=
  Mem.mem_access_copied h cmd 1 rfl (by decide) BitVec.and_zero

theorem ofNat_succ_add (a : Addr) (j : Nat) : a + 1 + BitVec.ofNat 32 j = a + BitVec.ofNat 32 (j + 1) := by
  rw [BitVec.add_assoc, Nat.add_comm j 1, BitVec.ofNat_add]
  rfl

/-- A string is copied to the memory with its terminator. -/
theorem strcpyWrite_spec (h : m.Ok) (hz : s (i + len) = 0) (hnz : ∀ j < len, s (i + j) ≠ 0) (hlen : len < 2 ^ 32)
    (hfuel : len < fuel) :
    ∃ m', strcpyWrite Mem.mem_access fuel a s i m = .ok (some (.none, s, m')) ∧ m'.Ok ∧
      m'.flat = m.flat.put a (s.at i) (len + 1) := by
  induction len generalizing m a i fuel with
  | zero =>
    obtain ⟨fuel, rfl⟩ := Nat.exists_eq_add_of_lt hfuel
    obtain ⟨m₁, hr, hok, hf, -⟩ := mem_access_char h .Write a fun _ => s i
    refine ⟨m₁, ?_, hok, ?_⟩
    · rw [Nat.zero_add]
      unfold strcpyWrite
      rw [hr]
      exact if_pos hz
    · rw [hf]
      exact put_one_congr (p := fun _ => s i) (q := s.at i) rfl
  | succ len ih =>
    obtain ⟨fuel, rfl⟩ := Nat.exists_eq_add_of_lt hfuel
    obtain ⟨m₁, hr, hok, hf, -⟩ := mem_access_char h .Write a fun _ => s i
    have hlt : len < len + 1 + fuel := by omega
    obtain ⟨m₂, hr₂, hok₂, hf₂⟩ := ih (m := m₁) (a := a + 1) (i := i + 1) hok (by rwa [Nat.add_assoc, Nat.add_comm 1])
      (fun j hj => by
        rw [Nat.add_assoc, Nat.add_comm 1]
        exact hnz (j + 1) (Nat.succ_lt_succ hj))
      (Nat.lt_of_succ_lt hlen) hlt
    refine ⟨m₂, ?_, hok₂, ?_⟩
    · unfold strcpyWrite
      rw [hr]
      exact (if_neg (hnz 0 (Nat.succ_pos len))).trans hr₂
    · have hput : m.flat.put a (s.at i) (1 + (len + 1)) =
          (m.flat.put a (s.at i) 1).put (a + 1) ((s.at i).at 1) (len + 1) := Flat.put_add (by omega)
      rw [Nat.add_comm (len + 1) 1, hput, Buffer.at_add, hf₂, hf]
      congr 1
      exact put_one_congr (p := fun _ => s i) (q := s.at i) rfl

/-- A string is copied from the memory up to its terminator. -/
theorem strcpyRead_spec (h : m.Ok) (hz : m.flat (a + BitVec.ofNat 32 len) = 0)
    (hnz : ∀ j < len, m.flat (a + BitVec.ofNat 32 j) ≠ 0) (hlen : len < 2 ^ 32) (hfuel : len < fuel) :
    ∃ m', strcpyRead Mem.mem_access fuel a s i m =
        .ok (some (.none, s.put i (m.flat.copy .Read a (s.at i) (len + 1)).1, m')) ∧ m'.Ok ∧ m'.flat = m.flat := by
  induction len generalizing m a s i fuel with
  | zero =>
    obtain ⟨fuel, rfl⟩ := Nat.exists_eq_add_of_lt hfuel
    obtain ⟨m₁, hr, hok, hf, -⟩ := mem_access_char h .Read a fun _ => 0
    have hc : (m.flat.copy .Read a (fun _ => 0) 1).1 0 = m.flat a := congrArg m.flat (BitVec.add_zero a)
    have hz' : m.flat a = 0 := (congrArg m.flat (BitVec.add_zero a)).symm.trans hz
    refine ⟨m₁, ?_, hok, hf⟩
    rw [Nat.zero_add]
    unfold strcpyRead
    rw [hr, put_read_one]
    show (if (m.flat.copy .Read a (fun _ => 0) 1).1 0 = 0 then _ else _) = _
    rw [hc, if_pos hz']
    rfl
  | succ len ih =>
    obtain ⟨fuel, rfl⟩ := Nat.exists_eq_add_of_lt hfuel
    obtain ⟨m₁, hr, hok, hf, -⟩ := mem_access_char h .Read a fun _ => 0
    have hc : (m.flat.copy .Read a (fun _ => 0) 1).1 0 = m.flat a := congrArg m.flat (BitVec.add_zero a)
    have hf₁ : m₁.flat = m.flat := hf
    have hnz' : m.flat a ≠ 0 := by
      have h0 := hnz 0 (Nat.succ_pos len)
      rwa [show a + BitVec.ofNat 32 0 = a from BitVec.add_zero a] at h0
    have hlt : len < len + 1 + fuel := by omega
    obtain ⟨m₂, hr₂, hok₂, hf₂⟩ := ih (m := m₁) (a := a + 1) (s := update s i (m.flat a)) (i := i + 1) hok
      (by rw [hf₁, ofNat_succ_add]; exact hz)
      (fun j hj => by
        rw [hf₁, ofNat_succ_add]
        exact hnz (j + 1) (Nat.succ_lt_succ hj))
      (Nat.lt_of_succ_lt hlen) hlt
    refine ⟨m₂, ?_, hok₂, hf₂.trans hf₁⟩
    unfold strcpyRead
    rw [hr]
    show (if (m.flat.copy .Read a (fun _ => 0) 1).1 0 = 0 then _ else _) = _
    rw [hc, if_neg hnz']
    refine hr₂.trans ?_
    have hcopy := Flat.copy_add (f := m.flat) (a := a) (p := s.at i) (s := 1) (t := len + 1) .Read (by omega)
    rw [Nat.add_comm (len + 1) 1, hcopy, ← put_read_one (f := m.flat), Buffer.at_put, Buffer.put_put, hf₁]
    rfl

end Strings

end Copies

end Memory
