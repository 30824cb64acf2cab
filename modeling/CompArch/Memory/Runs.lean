import CompArch.Memory.Copy
/-!
# Sequences of calls on the memory

Every sequence of accesses and copies gives the answers of a flat memory, allocates
the pages it writes and no others, and leaves alone what it does not write.
-/

namespace Memory

open Function

/-! ## Calls -/

/-- A use of the memory by a simulator. -/
inductive Call
  | read (n : Nat) (a : Addr)
  | write (n : Nat) (a : Addr) (v : BitVec (8 * n))
  | access (cmd : Cmd) (a : Addr) (p : Buffer) (nbytes : BitVec 32)
  | bcopy (cmd : Cmd) (a : Addr) (p : Buffer) (nbytes : BitVec 32)
  | bcopy4 (cmd : Cmd) (a : Addr) (p : Buffer) (nbytes : BitVec 32)
  | bzero (a : Addr) (nbytes : BitVec 32)

inductive Answer
  | value (n : Nat) (v : BitVec (8 * n))
  | written
  | copied (fault : Fault) (p : Buffer)

namespace Call

/-- An access of the macros does not check its address: it must stay in its page. -/
def InPage : Call → Prop
  | .read n a | .write n a _ => 0 < n ∧ MEM_OFFSET a + n ≤ MD_PAGE_SIZE
  | _ => True

def copyAnswer (r : Fault × Buffer × Mem) : Answer × Mem := (.copied r.1 r.2.1, r.2.2)

def perform (c : Call) (m : Mem) : Except Bad (Answer × Mem) :=
  match c with
  | .read n a => (m.MEM_READ n a).map fun r => (.value n r.1, r.2)
  | .write _ a v => (m.MEM_WRITE a v).map fun m => (.written, m)
  | .access cmd a p nbytes => (Mem.mem_access cmd a p nbytes m).map copyAnswer
  | .bcopy cmd a p nbytes => (mem_bcopy Mem.mem_access cmd a p nbytes m).map copyAnswer
  | .bcopy4 cmd a p nbytes => (mem_bcopy4 Mem.mem_access cmd a p nbytes m).map copyAnswer
  | .bzero a nbytes => (mem_bzero Mem.mem_access a nbytes m).map copyAnswer

def run : List Call → Mem → Except Bad (List Answer × Mem)
  | [], m => .ok ([], m)
  | c :: cs, m => do
    let (r, m) ← c.perform m
    let (rs, m) ← run cs m
    return (r :: rs, m)

/-! ## What the calls mean -/

/-- The fault of the checks of `mem_access`. -/
def accessFault (a : Addr) (nbytes : BitVec 32) : Fault :=
  if nbytes &&& (nbytes - 1) ≠ 0 ∨ (MD_PAGE_SIZE : Int) < nbytes.toInt then .access
  else if a &&& (nbytes - 1) ≠ 0 then .alignment
  else .none

/-- A copy of whole words faults at its first access or not at all. -/
def wordsFault (a : Addr) (nbytes : BitVec 32) : Fault :=
  if (nbytes.sshiftRight 2).toInt.toNat ≠ 0 ∧ a &&& 3 ≠ 0 then .alignment else .none

/-- The bytes a call moves if it does not fault: the command, the address, the buffer and how many. -/
def extent : Call → Cmd × Addr × Buffer × Nat
  | .read n a => (.Read, a, fun _ => 0, n)
  | .write n a v => (.Write, a, byteOf v, n)
  | .access cmd a p nbytes | .bcopy cmd a p nbytes => (cmd, a, p, nbytes.toInt.toNat)
  | .bcopy4 cmd a p nbytes => (cmd, a, p, (nbytes.sshiftRight 2).toInt.toNat * 4)
  | .bzero a nbytes => (.Write, a, fun _ => 0, nbytes.toInt.toNat)

def fault : Call → Fault
  | .access _ a _ nbytes => accessFault a nbytes
  | .bcopy4 _ a _ nbytes => wordsFault a nbytes
  | _ => .none

/-- What a call does to a flat memory: all of its bytes move, or it faults and none does. -/
def plain (c : Call) (f : Flat) : Buffer × Flat :=
  let (cmd, a, p, n) := c.extent
  if c.fault = .none then f.copy cmd a p n else (p, f)

/-- The answer that goes with the bytes moved. -/
def answer (c : Call) (f : Flat) : Answer :=
  match c with
  | .read n a => .value n (f.read a n)
  | .write .. => .written
  | c => .copied c.fault (c.plain f).1

/-- The answers of a flat memory, and what it holds afterwards. -/
def plainRun : List Call → Flat → List Answer × Flat
  | [], f => ([], f)
  | c :: cs, f => (c.answer f :: (plainRun cs (c.plain f).2).1, (plainRun cs (c.plain f).2).2)

/-- The bytes a call writes. -/
def Writes (c : Call) (b : Addr) : Prop :=
  c.fault = .none ∧ Mem.Target c.extent.1 c.extent.2.1 c.extent.2.2.2 b

/-- What a call does not write it leaves alone. -/
theorem plain_of_not_writes {c : Call} {b : Addr} (hb : ¬ c.Writes b) (f : Flat) : (c.plain f).2 b = f b := by
  unfold plain
  dsimp only
  by_cases hf : c.fault = .none
  · rw [if_pos hf]
    cases hc : c.extent.1 with
    | Read => rfl
    | Write => exact Flat.put_of_le (Nat.le_of_not_lt fun hlt => hb ⟨hf, hc, hlt⟩)
  · rw [if_neg hf]

end Call

/-! ## One call -/

section Perform
variable {m : Mem} {c : Call}

/-- A call gives the flat memory's answer and has its effect. -/
structure Faithful (m : Mem) (c : Call) (m' : Mem) : Prop where
  perform : c.perform m = .ok (c.answer m.flat, m')
  ok : m'.Ok
  flat : m'.flat = (c.plain m.flat).2
  grows : Mem.Grows m m' c.Writes

/-- A copy that does not fault. -/
theorem faithful_copied {x : Except Bad (Fault × Buffer × Mem)} (hf : c.fault = .none)
    (hp : c.perform m = x.map Call.copyAnswer) (ha : c.answer m.flat = .copied c.fault (c.plain m.flat).1)
    (hx : Mem.Copied m c.extent.1 c.extent.2.1 c.extent.2.2.1 c.extent.2.2.2 x) : ∃ m', Faithful m c m' := by
  obtain ⟨m', rfl, hok, hflat, hg⟩ := hx
  have hplain : c.plain m.flat = m.flat.copy c.extent.1 c.extent.2.1 c.extent.2.2.1 c.extent.2.2.2 := if_pos hf
  refine ⟨m', ?_, hok, by rw [hplain, hflat], fun b => ?_⟩
  · rw [hp, ha, hf, hplain]
    rfl
  · rw [hg b]
    simp only [Call.Writes, hf, true_and]

/-- A copy that faults at once. -/
theorem faithful_fault (h : m.Ok) (hf : c.fault ≠ .none)
    (hp : c.perform m = .ok (.copied c.fault c.extent.2.2.1, m))
    (ha : c.answer m.flat = .copied c.fault (c.plain m.flat).1) : ∃ m', Faithful m c m' := by
  have hplain : c.plain m.flat = (c.extent.2.2.1, m.flat) := if_neg hf
  refine ⟨m, ?_, h, by rw [hplain], Mem.Moved.refl.grows h fun _ hw => hf hw.1⟩
  rw [hp, ha, hplain]

theorem mem_access_eq (cmd : Cmd) (a : Addr) (p : Buffer) (nbytes : BitVec 32) (m : Mem) :
    Call.accessFault a nbytes ≠ .none →
      Mem.mem_access cmd a p nbytes m = .ok (Call.accessFault a nbytes, p, m) := by
  intro hf
  unfold Mem.mem_access
  unfold Call.accessFault at hf ⊢
  by_cases hs : nbytes &&& (nbytes - 1) ≠ 0 ∨ (MD_PAGE_SIZE : Int) < nbytes.toInt
  · rw [if_pos hs, if_pos hs]
  · by_cases ha : a &&& (nbytes - 1) ≠ 0
    · rw [if_neg hs, if_neg hs, if_pos ha, if_pos ha]
    · rw [if_neg hs, if_neg ha] at hf
      exact absurd rfl hf

theorem accessFault_none {a : Addr} {nbytes : BitVec 32} (h : Call.accessFault a nbytes = .none) :
    nbytes &&& (nbytes - 1) = 0 ∧ nbytes.toInt ≤ MD_PAGE_SIZE ∧ a &&& (nbytes - 1) = 0 := by
  unfold Call.accessFault at h
  split at h
  case isTrue => cases h
  case isFalse hs =>
    split at h
    case isTrue => cases h
    case isFalse ha =>
      rw [not_or, Decidable.not_not, Int.not_lt] at hs
      exact ⟨hs.1, hs.2, Decidable.not_not.1 ha⟩

theorem Call.faithful (h : m.Ok) (hc : c.InPage) : ∃ m', Faithful m c m' := by
  cases c with
  | read n a =>
    obtain ⟨m', hr, hm⟩ := Mem.MEM_READ_spec h hc.2
    refine ⟨m', ?_, hm.ok h, hm.flat h, hm.grows h fun b hw => (by cases hw.2.1)⟩
    show (m.MEM_READ n a).map _ = _
    rw [hr]
    rfl
  | write n a v =>
    obtain ⟨m', hw, hok, hf, hg⟩ := Mem.MEM_WRITE_spec h hc.2 v
    refine ⟨m', ?_, hok, hf, fun b => ?_⟩
    · show (m.MEM_WRITE a v).map _ = _
      rw [hw]
      rfl
    · rw [hg b]
      refine or_congr_right ⟨?_, ?_⟩
      · rintro ⟨c, rfl, hb⟩
        exact ⟨c, ⟨rfl, rfl, by simpa [extent] using hc.1⟩, hb⟩
      · rintro ⟨d, ⟨-, -, hd⟩, hb⟩
        exact ⟨a, rfl, ((sub_lt_iff hc.2).1 hd).1.symm.trans hb⟩
  | access cmd a p nbytes =>
    by_cases hf : accessFault a nbytes = .none
    · obtain ⟨hs, hmax, ha⟩ := accessFault_none hf
      exact faithful_copied hf rfl rfl (Mem.mem_access_copied h cmd _ hs hmax ha)
    · refine faithful_fault h hf ?_ rfl
      show (Mem.mem_access cmd a p nbytes m).map copyAnswer = _
      rw [mem_access_eq cmd a p nbytes m hf]
      rfl
  | bcopy cmd a p nbytes => exact faithful_copied rfl rfl rfl (mem_bcopy_copied h _ _ _ _)
  | bcopy4 cmd a p nbytes =>
    by_cases hw : (nbytes.sshiftRight 2).toInt.toNat = 0
    · have hf : (Call.bcopy4 cmd a p nbytes).fault = .none := if_neg fun hn => hn.1 hw
      refine faithful_copied hf rfl rfl ?_
      show Mem.Copied m cmd a p ((nbytes.sshiftRight 2).toInt.toNat * 4) (mem_bcopy4 Mem.mem_access cmd a p nbytes m)
      unfold mem_bcopy4
      rw [hw, Nat.zero_mul]
      exact ⟨m, by rw [Flat.copy_zero]; rfl, h, by rw [Flat.copy_zero], Mem.Moved.refl.grows h Mem.target_zero⟩
    · by_cases ha : a &&& 3 = 0
      · exact faithful_copied (if_neg fun hn => hn.2 ha) rfl rfl (mem_bcopy4_copied h ha _ _ _)
      · have hf : (Call.bcopy4 cmd a p nbytes).fault = .alignment := if_pos ⟨hw, ha⟩
        refine faithful_fault h (by rw [hf]; decide) ?_ rfl
        show (mem_bcopy4 Mem.mem_access cmd a p nbytes m).map copyAnswer = _
        rw [mem_bcopy4_fault ha hw, hf]
        rfl
  | bzero a nbytes => exact faithful_copied rfl rfl rfl (mem_bzero_copied h)

end Perform

/-! ## Runs -/

section Runs
variable {m : Mem} {calls : List Call}

/-- A run of calls gives the flat memory's answers and has its effect. -/
theorem run_flat (h : m.Ok) (hc : ∀ c ∈ calls, c.InPage) :
    ∃ m', Call.run calls m = .ok ((Call.plainRun calls m.flat).1, m') ∧ m'.Ok ∧
      m'.flat = (Call.plainRun calls m.flat).2 ∧ Mem.Grows m m' fun b => ∃ c ∈ calls, c.Writes b := by
  induction calls generalizing m with
  | nil => exact ⟨m, rfl, h, rfl, Mem.Moved.refl.grows h fun b hb => (by simp at hb)⟩
  | cons c cs ih =>
    obtain ⟨m₁, hp, hok, hf, hg⟩ := Call.faithful h (hc c List.mem_cons_self)
    obtain ⟨m₂, hr, hok₂, hf₂, hg₂⟩ := ih hok fun d hd => hc d (List.mem_cons_of_mem _ hd)
    rw [hf] at hr hf₂
    refine ⟨m₂, ?_, hok₂, hf₂, hg.trans hg₂ fun b => ?_⟩
    · unfold Call.run
      rw [hp]
      show (Call.run cs m₁ >>= _) = _
      rw [hr]
      rfl
    · simp

/-- Bytes that no call of a run writes are what they were. -/
theorem plainRun_of_not_writes {f : Flat} {b : Addr} (hb : ∀ c ∈ calls, ¬ c.Writes b) :
    (Call.plainRun calls f).2 b = f b := by
  induction calls generalizing f with
  | nil => rfl
  | cons c cs ih =>
    show (Call.plainRun cs (c.plain f).2).2 b = f b
    rw [ih fun d hd => hb d (List.mem_cons_of_mem _ hd), Call.plain_of_not_writes (hb c List.mem_cons_self)]

/-- From the empty memory, the answers are those of a memory of zeros. -/
theorem memory_is_flat (hc : ∀ c ∈ calls, c.InPage) :
    ∃ m, Call.run calls mem_init = .ok ((Call.plainRun calls fun _ => 0).1, m) ∧
      m.flat = (Call.plainRun calls fun _ => 0).2 := by
  obtain ⟨m, hr, -, hf, -⟩ := run_flat Mem.ok_init hc
  exact ⟨m, hr, hf⟩

theorem memory_is_flat_word : ∃ m,
    Call.run [.write 4 0x7fffc000 0x01020304#32, .read 1 0x7fffc001] mem_init =
      .ok ([.written, .value 1 3#8], m) ∧ m.flat 0x7fffc003 = 1#8 := by
  have hc : ∀ c ∈ [Call.write 4 0x7fffc000 0x01020304#32, .read 1 0x7fffc001], c.InPage := by
    simp [Call.InPage, MEM_OFFSET, MD_PAGE_SIZE]
  obtain ⟨m, hr, hf⟩ := memory_is_flat hc
  exact ⟨m, hr, by rw [hf]; rfl⟩

/-- `page_count` is the number of different pages a run has written to. -/
theorem page_count_run {answers : List Answer} (hc : ∀ c ∈ calls, c.InPage)
    (hr : Call.run calls mem_init = .ok (answers, m)) :
    ∃ pages : List Addr, pages.Nodup ∧ pages.length = m.page_count ∧
      ∀ q, q ∈ pages ↔ ∃ c ∈ calls, ∃ a, c.Writes a ∧ pageOf a = q := by
  obtain ⟨m', hr', hok, -, hg⟩ := run_flat Mem.ok_init hc
  obtain ⟨-, rfl⟩ := Prod.mk.inj (Except.ok.inj (hr.symm.trans hr'))
  obtain ⟨pages, hn, hl, hp⟩ := hok.counted
  refine ⟨pages, hn, hl, fun q => ?_⟩
  have hnone (b : Addr) : (mem_init.page? b).isSome = false := rfl
  simp only [hp, hg _, hnone, Bool.false_eq_true, false_or]
  constructor
  · rintro ⟨b, rfl, a, ⟨c, hcs, hw⟩, hab⟩
    exact ⟨c, hcs, a, hw, hab⟩
  · rintro ⟨c, hcs, a, hw, rfl⟩
    exact ⟨a, rfl, a, ⟨c, hcs, hw⟩, rfl⟩

theorem page_count_run_two : ∃ (m : Mem) (pages : List Addr),
    (Call.run [.write 4 0x1000 7#32, .bzero 0x1fff 2] mem_init).map (fun r => r.2.page_count) = .ok m.page_count ∧
      pages.Nodup ∧ pages.length = m.page_count ∧ (1#32 ∈ pages ∧ 2#32 ∈ pages) := by
  obtain ⟨⟨answers, m⟩, hr⟩ : ∃ r, Call.run [.write 4 0x1000 7#32, .bzero 0x1fff 2] mem_init = .ok r := ⟨_, rfl⟩
  obtain ⟨pages, hn, hl, hp⟩ := page_count_run (by simp [Call.InPage, MEM_OFFSET, MD_PAGE_SIZE]) hr
  refine ⟨m, pages, by rw [hr]; rfl, hn, hl, (hp _).2 ⟨_, List.mem_cons_self, 0x1000, ?_, rfl⟩,
    (hp _).2 ⟨_, List.mem_cons_of_mem _ List.mem_cons_self, 0x2000, ?_, rfl⟩⟩
  · exact ⟨rfl, rfl, by decide⟩
  · exact ⟨rfl, rfl, by decide⟩

/-! ## What was copied is read back -/

/-- A block that was copied into the memory is copied out again, whatever else is written in between. -/
theorem mem_bcopy_round_trip (h : m.Ok) (a : Addr) (p q : Buffer) (nbytes : BitVec 32) (hc : ∀ c ∈ calls, c.InPage)
    (hw : ∀ c ∈ calls, ∀ i < nbytes.toInt.toNat, ¬ c.Writes (a + BitVec.ofNat 32 i)) :
    ∃ m₁ answers m₂ r m₃, mem_bcopy Mem.mem_access .Write a p nbytes m = .ok (.none, p, m₁) ∧
      Call.run calls m₁ = .ok (answers, m₂) ∧
      mem_bcopy Mem.mem_access .Read a q nbytes m₂ = .ok (.none, r, m₃) ∧
      ∀ i, r i = if i < nbytes.toInt.toNat then p i else q i := by
  have hlt := nbytes.isLt
  have hn : nbytes.toInt.toNat ≤ 2 ^ 32 := by
    rw [BitVec.toInt_eq_toNat_cond]
    split <;> omega
  obtain ⟨m₁, h₁, hok₁, hf₁, -⟩ := mem_bcopy_copied h .Write a p nbytes
  obtain ⟨m₂, h₂, hok₂, hf₂, -⟩ := run_flat hok₁ hc
  obtain ⟨m₃, h₃, -, -, -⟩ := mem_bcopy_copied hok₂ .Read a q nbytes
  refine ⟨m₁, _, m₂, _, m₃, h₁, h₂, h₃, fun i => ?_⟩
  show (if i < nbytes.toInt.toNat then m₂.flat (a + BitVec.ofNat 32 i) else q i) = _
  by_cases hi : i < nbytes.toInt.toNat
  · rw [if_pos hi, if_pos hi, hf₂, plainRun_of_not_writes fun c hcs => hw c hcs i hi, hf₁]
    exact Flat.put_add_ofNat hn hi
  · rw [if_neg hi, if_neg hi]

theorem mem_bcopy_round_trip_hello : ∃ m₁ answers m₂ r m₃,
    mem_bcopy Mem.mem_access .Write 0x0fff (fun i => BitVec.ofNat 8 i) 3 mem_init =
        .ok (.none, (BitVec.ofNat 8 ·), m₁) ∧
      Call.run [.write 1 0x1002 9#8] m₁ = .ok (answers, m₂) ∧
      mem_bcopy Mem.mem_access .Read 0x0fff (fun _ => 5) 3 m₂ = .ok (.none, r, m₃) ∧
      ∀ i, r i = if i < 3 then BitVec.ofNat 8 i else 5 :=
  mem_bcopy_round_trip Mem.ok_init 0x0fff (fun i => BitVec.ofNat 8 i) (fun _ => 5) 3
    (by simp [Call.InPage, MEM_OFFSET, MD_PAGE_SIZE]) (by
      intro c hc i hi
      obtain rfl := List.mem_singleton.1 hc
      have hi3 : i < 3 := hi
      rintro ⟨-, -, hlt⟩
      obtain rfl | rfl | rfl : i = 0 ∨ i = 1 ∨ i = 2 := by omega
      all_goals exact absurd hlt (by decide))

/-- The same for a string, which ends with its terminator; no other byte of the memory changes. -/
theorem mem_strcpy_round_trip (h : m.Ok) (a : Addr) (s t : Buffer) (len fuel : Nat) (hz : s len = 0)
    (hnz : ∀ i < len, s i ≠ 0) (hlen : len < 2 ^ 32) (hfuel : len < fuel) (hc : ∀ c ∈ calls, c.InPage)
    (hw : ∀ c ∈ calls, ∀ i ≤ len, ¬ c.Writes (a + BitVec.ofNat 32 i)) :
    ∃ m₁ answers m₂ r m₃, mem_strcpy Mem.mem_access fuel .Write a s m = .ok (some (.none, s, m₁)) ∧
      (∀ b, (∀ i ≤ len, b ≠ a + BitVec.ofNat 32 i) → m₁.flat b = m.flat b) ∧
      Call.run calls m₁ = .ok (answers, m₂) ∧
      mem_strcpy Mem.mem_access fuel .Read a t m₂ = .ok (some (.none, r, m₃)) ∧
      ∀ i, r i = if i ≤ len then s i else t i := by
  obtain ⟨m₁, h₁, hok₁, hf₁⟩ := strcpyWrite_spec (a := a) (s := s) (i := 0) h (by rwa [Nat.zero_add])
    (by simpa using hnz) hlen hfuel
  obtain ⟨m₂, h₂, hok₂, hf₂, -⟩ := run_flat hok₁ hc
  have hs (i : Nat) (hi : i ≤ len) : m₂.flat (a + BitVec.ofNat 32 i) = s i := by
    rw [hf₂, plainRun_of_not_writes fun c hcs => hw c hcs i hi, hf₁, at_zero]
    exact Flat.put_add_ofNat hlen (Nat.lt_succ_of_le hi)
  obtain ⟨m₃, h₃, -, -⟩ := strcpyRead_spec (a := a) (s := t) (i := 0) hok₂
    ((hs len (Nat.le_refl _)).trans hz)
    (fun j hj => by
      rw [hs j (Nat.le_of_lt hj)]
      exact hnz j hj) hlen hfuel
  rw [at_zero, Buffer.put_zero] at h₃
  refine ⟨m₁, _, m₂, _, m₃, h₁, fun b hb => ?_, h₂, h₃, fun i => ?_⟩
  · rw [hf₁]
    exact Flat.put_of_ne fun i hi => hb i (Nat.le_of_lt_succ hi)
  show (if i < len + 1 then m₂.flat (a + BitVec.ofNat 32 i) else t i) = _
  by_cases hi : i ≤ len
  · rw [if_pos hi, if_pos (Nat.lt_succ_of_le hi), hs i hi]
  · rw [if_neg hi, if_neg fun hlt => hi (Nat.le_of_lt_succ hlt)]

/-- A letter at the end of the address space and its terminator at the start, with the byte behind it
written in between. -/
theorem mem_strcpy_round_trip_char : ∃ m₁ answers m₂ r m₃,
    mem_strcpy Mem.mem_access 2 .Write 0xffffffff (fun i => if i = 0 then 65 else 0) mem_init =
        .ok (some (.none, (fun i => if i = 0 then 65 else 0), m₁)) ∧
      m₁.flat 0x1000 = 0 ∧ Call.run [.write 1 1 9#8, .read 4 0xfffffffc] m₁ = .ok (answers, m₂) ∧
      mem_strcpy Mem.mem_access 2 .Read 0xffffffff (fun _ => 5) m₂ = .ok (some (.none, r, m₃)) ∧
      ∀ i, r i = if i ≤ 1 then (if i = 0 then 65 else 0) else 5 := by
  have hc : ∀ c ∈ [Call.write 1 1 9#8, .read 4 0xfffffffc], c.InPage := by
    simp [Call.InPage, MEM_OFFSET, MD_PAGE_SIZE]
  have hw : ∀ c ∈ [Call.write 1 1 9#8, .read 4 0xfffffffc], ∀ i ≤ 1, ¬ c.Writes (0xffffffff + BitVec.ofNat 32 i) := by
    intro c hc i hi
    obtain rfl | rfl : c = .write 1 1 9#8 ∨ c = .read 4 0xfffffffc := by simpa using hc
    · obtain rfl | rfl : i = 0 ∨ i = 1 := by omega
      all_goals exact fun hw => absurd hw.2.2 (by decide)
    · exact fun hw => absurd hw.2.1 (by decide)
  have hnz : ∀ i < 1, (fun i => if i = 0 then 65 else 0 : Buffer) i ≠ 0 := by
    intro i hi
    obtain rfl : i = 0 := by omega
    decide
  obtain ⟨m₁, answers, m₂, r, m₃, hput, hframe, hrun, hget, hr⟩ :=
    mem_strcpy_round_trip Mem.ok_init 0xffffffff _ (fun _ => 5) 1 2 rfl hnz (by decide) (by decide) hc hw
  refine ⟨m₁, answers, m₂, r, m₃, hput, (hframe 0x1000 fun i hi => ?_).trans rfl, hrun, hget, hr⟩
  obtain rfl | rfl : i = 0 ∨ i = 1 := by omega
  all_goals decide

/-! ## The fast copy -/

end Runs

end Memory
