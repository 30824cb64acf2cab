import CompArch.Msi.Safety
/-!
# The values loads return

Blocks are independent of one another, so a run of the memory system is an
interleaving of one run for each block. In it a load returns what the last
store to its block wrote, and what was written last is always somewhere.
-/

namespace Msi

open Function Slicc Lts

variable {C : Type} {n : Nat}

/-! ## What the log says about one load -/

theorem LoadsOk.read {d : DataBlock n} {pre post : List (C × Callback n)} {c : C} {mach : GenericMachineType}
    {v : DataBlock n} (h : LoadsOk d (pre ++ (c, .readCallback mach v) :: post)) : v = lastValue d pre := by
  rw [loadsOk_append] at h
  exact h.2.1

/-! ## Where the last value is -/

/-- `v` is in a place from which it can still reach a load or another copy. -/
inductive Sys.Has (s : Sys C n) (v : DataBlock n) : Prop
  /-- A cache can read it, or waits only for acknowledgements. -/
  | entry (c : C) (e : L1Cache.Entry n) : (s.node c).cache.entry = some e →
      (s.node c).cache.getState.readable = true ∨ (s.node c).cache.getState = .IM_A → e.dataBlk = v → Has s v
  | tbe (c : C) (t : L1Cache.TBE n) : (s.node c).cache.tbe = some t → t.tbeState = .MI_A → t.dataBlk = v → Has s v
  | toCache (c : C) (m : ResponseMsg C n) : m ∈ (s.node c).responseToCache → m.type ≠ .ACK → m.dataBlk = v → Has s v
  | toDir (m : ResponseMsg C n) : m ∈ s.responseToDir → m.dataBlk = v → Has s v
  | memory (m : MemoryMsg C n) : m ∈ s.memBuffer → m.type = .MEMORY_READ → m.dataBlk = v → Has s v
  | directory : s.dir.getState ≠ .M → s.dir.getState ≠ .IM_D → s.dir.getState ≠ .MS_D →
      s.dir.entry.dataBlk = v → Has s v

/-- Who holds the block has its value, or it is on its way to him. -/
theorem Phase.of_holds {p : Phase C} (h : p.holds = true) :
    p.copy = true ∨ p.supplies = true ∨ p.data.isSome = true ∨ p.atMemory = some .GETM := by
  cases p with
  | excl g x => cases g <;> simp [holds, copy, reads, supplies, data, atMemory] at h ⊢
  | evictMAck x => cases x <;> simp [holds, supplies] at h ⊢
  | evictM x => simp [supplies]
  | _ => simp [holds] at h

theorem Phase.state_of_copy {p : Phase C} (h : p.copy = true) : p.state.readable = true ∨ p.state = .IM_A := by
  cases p with
  | excl g x => cases g <;> simp [copy, reads, state, L1Cache.State.readable] at h ⊢
  | _ => simp [copy, reads, state, L1Cache.State.readable] at h ⊢

theorem Phase.state_of_supplies {p : Phase C} (h : p.supplies = true) : p.state = .MI_A := by
  cases p with
  | evictMAck x => cases x <;> simp [supplies, state] at h ⊢
  | _ => simp [supplies, state] at h ⊢

/-- The holder of the block has its value. -/
theorem Repr.has_of_holds {s : Sys C n} {a : Abs C} {cur : DataBlock n} (hR : Repr s a cur) {c : C}
    (hc : (a.ph c).holds = true) (hm : (a.ph c).atMemory ≠ some .GETM) : s.Has cur := by
  have hn := hR.node c
  have hst := hR.getState c
  obtain ⟨d, d', hb, hcopy, hsupp⟩ := hn.cache
  rcases Phase.of_holds hc with h | h | h | h
  · have hs := Phase.state_of_copy h
    rw [← hst] at hs
    obtain ⟨e, he, hd⟩ : ∃ e, (s.node c).cache.entry = some e ∧ e.dataBlk = d := by
      rw [hst] at hs
      rw [hb]
      cases hp : (a.ph c).state <;> simp [hp, L1Cache.blockOf, L1Cache.State.readable] at hs ⊢
    exact .entry c e he hs (hd.trans (hcopy h))
  · have hs := Phase.state_of_supplies h
    rw [hs] at hb
    exact .tbe c ⟨.MI_A, d', a.pending c⟩ (by rw [hb]; rfl) rfl (hsupp h)
  · obtain ⟨m, hm, hne, hd⟩ := hn.mem_of_data h
    exact .toCache c m hm hne hd
  · exact absurd h hm

section
variable [Fintype C] [DecidableEq C]

/-- The last value stored is never lost. -/
theorem Repr.has {s : Sys C n} {a : Abs C} {cur : DataBlock n} (hI : a.Inv) (hR : Repr s a cur) : s.Has cur := by
  have held (hg : (∃ o, a.dir = .M o) ∨ ∃ e, a.dir = .MS_D e) : s.Has cur := by
    obtain ⟨c, hc⟩ := hI.held hg
    refine hR.has_of_holds hc ?_
    rw [Ne, hI.fetch_own c]
    rcases hg with ⟨o, ho⟩ | ⟨e, he⟩ <;> simp [*]
  have current (hg : a.dir.current = true) : s.Has cur := by
    obtain ⟨hst, -, hdata⟩ := hR.home.getState
    refine .directory ?_ ?_ ?_ (hdata hg) <;>
      (rw [hst]; cases hp : a.dir <;> simp [hp, DirPhase.state, DirPhase.current] at hg ⊢)
  cases hdir : a.dir with
  | M o => exact held (.inl ⟨o, hdir⟩)
  | MS_D e => exact held (.inr ⟨e, hdir⟩)
  | IM_D c =>
    obtain ⟨m, hm, ht, hd⟩ := hR.home.mem_of_access (g := a.dir) (c := c) (by rw [hdir]; rfl)
    exact .memory m hm ht hd
  | MS_D_data e =>
    have hm : (CoherenceResponseType.DATA, MachineID.L1Cache e) ∈ s.responseToDir.map fun m => (m.type, m.sender) := by
      simp [hR.home.data, hdir, DirPhase.reply]
    obtain ⟨m, hm, -⟩ := Multiset.mem_map.1 hm
    exact .toDir m hm (hR.home.written m hm)
  | I | S | IS_D _ | MI_A _ | MS_A _ => exact current (by rw [hdir]; rfl)

/-! ## Runs over all blocks -/

/-- Every load of a block returns what the last store to it before wrote, or
the directory's initial data, and that value is never lost. -/
theorem loads_return_last_store [Directory.Memory C n] {B : Type} [DecidableEq B] (d : B → DataBlock n)
    {log : List (B × C × Callback n)} {f : B → Sys C n}
    (h : Run (FamilyStep Sys.Step) (fun b => Sys.init (d b)) log f) :
    (∀ pre post b c mach v, log = pre ++ (b, c, .readCallback mach v) :: post → v = lastValue (d b) (logOf b pre)) ∧
      ∀ b, (f b).Has (lastValue (d b) (logOf b log)) := by
  refine ⟨fun pre post b c mach v hl => ?_, fun b => ?_⟩
  · obtain ⟨-, hok⟩ := Good.run (h.proj b)
    rw [hl, logOf_append, logOf_cons_self] at hok
    exact hok.read
  · obtain ⟨⟨a, hI, hR⟩, -⟩ := Good.run (h.proj b)
    exact hR.has hI

end

/-- Cache 0 stores 7, then cache 1 loads: the owner hands the value on. -/
def storeThenLoad : List (DataBlock 1 × Input (Fin 2) 1) :=
  storeMiss ++ [(byte 7, .mandatory 1 .LD), (byte 7, .request 1), (byte 7, .forward 0),
    (byte 7, .response 1 ⟨.DATA_FROM_OWNER, .L1Cache 0, byte 7, 0⟩)]

theorem loads_return_last_store_storeThenLoad :
    ∃ pre post, ((Sys.init (byte 0)).follow storeThenLoad).map (fun r => r.1.map ((), ·)) =
        some (pre ++ ((), (1 : Fin 2), .readCallback .L1Cache_wCC (byte 7)) :: post) ∧
      byte 7 = lastValue (byte 0) (logOf () pre) := by
  obtain ⟨r, hr⟩ := Option.isSome_iff_exists.1 (show ((Sys.init (byte 0)).follow storeThenLoad).isSome by decide)
  have hl : ((Sys.init (byte 0)).follow storeThenLoad).map (fun r => r.1.map ((), ·)) =
      some ([((), 0, .popMandatory .ST), ((), 0, .writeCallback .Directory (byte 7)), ((), 1, .popMandatory .LD)] ++
        ((), (1 : Fin 2), .readCallback .L1Cache_wCC (byte 7)) :: []) := by decide
  refine ⟨_, _, hl, ?_⟩
  rw [hr] at hl
  have hrun : Run (FamilyStep Sys.Step) (fun _ : Unit => Sys.init (byte 0)) _ _ := (Sys.run_follow hr).at (b := ())
  exact (loads_return_last_store (fun _ => byte 0) hrun).1 _ _ _ _ _ _ (Option.some.inj hl)

end Msi
