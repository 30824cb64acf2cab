import CompArch.Msi.CacheSteps
import CompArch.Msi.DirSteps
/-!
# Safety of the protocol

Every state of a run is a good one: some phases fit it, and the block's value
is the one last stored. What the controllers promise follows from that.
-/

namespace Msi

open Function Slicc Lts

variable {C : Type} {n : Nat} [Fintype C] [DecidableEq C]

/-! ## Every state of a run is good -/

theorem Good.init (d : DataBlock n) : Good (Sys.init (C := C) d) d := by
  refine ⟨Abs.init, Abs.Inv.init, fun c => ?_, ?_, fun m => ?_⟩
  · exact ⟨⟨d, d, rfl, nofun, nofun⟩, rfl, nofun, rfl, rfl, by simp [Sys.init]⟩
  · exact ⟨⟨d, d, rfl, fun _ => rfl⟩, rfl, by simp [Sys.init], rfl, by simp [Sys.init]⟩
  · simp [Sys.init, Abs.init, Phase.sharer]

variable [Directory.Memory C n]

/-- Whatever is delivered stalls or leads to a good state. -/
theorem Good.deliver {s : Sys C n} {cur : DataBlock n} (h : Good s cur) (stored : DataBlock n) (i : Input C n)
    {r : Except Stop (List (C × Callback n) × Sys C n)} (hr : s.deliver stored i = some r) : Safe cur r := by
  obtain ⟨a, hI, hR⟩ := h
  cases i with
  | mandatory c t =>
    obtain rfl := Option.some.inj hr
    exact hR.mandatory hI stored t
  | replacement c =>
    obtain ⟨hv, rfl⟩ : (s.node c).cache.entry.isSome = true ∧ _ = r := by simpa [Sys.deliver] using hr
    exact hR.replacement hI hv
  | forward c =>
    obtain ⟨m, hm, rfl⟩ := Option.map_eq_some_iff.1 hr
    exact hR.forward hI hm
  | response c m =>
    obtain ⟨hm, rfl⟩ : m ∈ (s.node c).responseToCache ∧ _ = r := by simpa [Sys.deliver] using hr
    exact hR.response hI hm stored
  | request c =>
    obtain ⟨m, hm, rfl⟩ := Option.map_eq_some_iff.1 hr
    exact hR.request hI hm
  | data m =>
    obtain ⟨hm, rfl⟩ : m ∈ s.responseToDir ∧ _ = r := by simpa [Sys.deliver] using hr
    exact hR.data hI hm
  | memory m =>
    obtain ⟨hm, rfl⟩ : m ∈ s.memBuffer ∧ _ = r := by simpa [Sys.deliver] using hr
    exact hR.memory hI hm

theorem Good.step {s s' : Sys C n} {cur : DataBlock n} {o : List (C × Callback n)} (h : Good s cur)
    (hs : Sys.Step s o s') : Good s' (lastValue cur o) ∧ LoadsOk cur o := by
  obtain ⟨hd⟩ := hs
  exact h.deliver _ _ hd

theorem Good.run {d : DataBlock n} {log : List (C × Callback n)} {s : Sys C n}
    (h : Run Sys.Step (Sys.init d) log s) : Good s (lastValue d log) ∧ LoadsOk d log := by
  induction h with
  | start => exact ⟨.init d, trivial⟩
  | step _ hs ih =>
    obtain ⟨h1, h2⟩ := ih.1.step hs
    rw [lastValue_append, loadsOk_append]
    exact ⟨h1, ih.2, h2⟩

theorem Good.reachable {d : DataBlock n} {s : Sys C n} (h : Reachable Sys.Step (Sys.init d) s) :
    ∃ v, Good s v := by
  obtain ⟨log, hr⟩ := h
  exact ⟨_, (Good.run hr).1⟩

/-! ## One writer or many readers -/

omit [Fintype C] [DecidableEq C] [Directory.Memory C n] in
theorem Repr.getState {s : Sys C n} {a : Abs C} {cur : DataBlock n} (h : Repr s a cur) (c : C) :
    (s.node c).cache.getState = (a.ph c).state := by
  obtain ⟨d, d', hb, -⟩ := (h.node c).cache
  rw [hb]
  cases (a.ph c).state <;> rfl

/-- A load of the block would hit. -/
def L1Cache.State.readable : L1Cache.State → Bool
  | .S | .SM_AD | .SM_A | .M => true
  | .I | .IS_D | .IM_AD | .IM_A | .MI_A | .SI_A | .II_A => false

omit [Fintype C] [DecidableEq C] in
theorem Phase.readable_state (p : Phase C) : p.state.readable = p.reads := by
  cases p with
  | excl g x => cases g <;> rfl
  | _ => rfl

omit [Fintype C] [DecidableEq C] in
theorem Phase.state_eq_M {p : Phase C} (h : p.state = .M) : ∃ x, p = .excl .done x := by
  cases p with
  | excl g x => cases g <;> first | exact ⟨x, rfl⟩ | cases h
  | _ => cases h

omit [Directory.Memory C n] in
/-- Once one cache can store, no other can load. -/
theorem Repr.not_readable {s : Sys C n} {a : Abs C} {cur : DataBlock n} (hI : a.Inv) (hR : Repr s a cur) {c c' : C}
    (hc : (s.node c).cache.getState = .M) (hne : c' ≠ c) : (s.node c').cache.getState.readable = false := by
  rw [hR.getState] at hc ⊢
  obtain ⟨x, hx⟩ := Phase.state_eq_M hc
  have hq := hI.quiet hx hne
  rw [Phase.readable_state, Bool.eq_false_iff]
  intro hr
  simp [Phase.fresh, Phase.copy_of_reads hr] at hq

/-- While one cache can complete a store, no other can complete a load. -/
theorem single_writer (d : DataBlock n) {s : Sys C n} (h : Reachable Sys.Step (Sys.init d) s) {c c' : C}
    (hc : (s.node c).cache.getState = .M) (hne : c' ≠ c) :
    (s.node c').cache.getState ≠ .S ∧ (s.node c').cache.getState ≠ .SM_AD ∧ (s.node c').cache.getState ≠ .SM_A ∧
      (s.node c').cache.getState ≠ .M := by
  obtain ⟨v, a, hI, hR⟩ := Good.reachable h
  have hr := hR.not_readable hI hc hne
  cases hst : (s.node c').cache.getState <;> simp [hst, L1Cache.State.readable] at hr ⊢

/-- A block of one byte. -/
def byte (x : UInt8) : DataBlock 1 := fun _ => x

/-- Cache 0 stores 7 to a block nobody has. -/
def storeMiss : List (DataBlock 1 × Input (Fin 2) 1) :=
  [(byte 7, .mandatory 0 .ST), (byte 7, .request 0), (byte 7, .memory ⟨.MEMORY_READ, .L1Cache 0, byte 0⟩),
    (byte 7, .response 0 ⟨.DATA_FROM_DIR, .Directory, byte 0, 0⟩)]

theorem single_writer_storeMiss : ∃ s : Sys (Fin 2) 1, (s.node 0).cache.getState = .M ∧
    (s.node 1).cache.getState ≠ .S ∧ (s.node 1).cache.getState ≠ .SM_AD ∧ (s.node 1).cache.getState ≠ .SM_A ∧
      (s.node 1).cache.getState ≠ .M := by
  obtain ⟨r, hr⟩ := Option.isSome_iff_exists.1 (show ((Sys.init (byte 0)).follow storeMiss).isSome by decide)
  have hM : (((Sys.init (byte 0)).follow storeMiss).map fun r => (r.2.node 0).cache.getState) = some .M := by decide
  rw [hr] at hM
  have hM' : (r.2.node 0).cache.getState = .M := Option.some.inj hM
  exact ⟨r.2, hM', single_writer (byte 0) ⟨r.1, Sys.run_follow hr⟩ hM' (by decide)⟩

/-! ## No protocol error -/

/-- Whatever is delivered in a reachable state stalls or completes: there is a
transition for it, no `error` is called and no assertion fails. -/
theorem no_protocol_error (d : DataBlock n) {s : Sys C n} (h : Reachable Sys.Step (Sys.init d) s)
    (stored : DataBlock n) (i : Input C n) {e : Stop} (he : s.deliver stored i = some (.error e)) : e = .stall := by
  obtain ⟨v, hg⟩ := Good.reachable h
  exact hg.deliver _ _ he

/-- Cache 0 asks for the block twice: the second request stalls. -/
theorem no_protocol_error_secondStore : ∃ e, ((Sys.init (byte 0)).follow (storeMiss.take 1)).bind
    (fun r => r.2.deliver (byte 7) (.mandatory 0 .ST)) = some (.error e) ∧ e = Stop.stall := by
  obtain ⟨r, hr⟩ := Option.isSome_iff_exists.1
    (show ((Sys.init (byte 0)).follow (storeMiss.take 1)).isSome by decide)
  have he : r.2.deliver (byte 7) (.mandatory 0 .ST) = some (.error .stall) := by
    obtain ⟨o, s⟩ := r
    obtain ⟨rfl, rfl⟩ := Prod.mk.inj (Option.some.inj hr)
    rfl
  exact ⟨.stall, by rw [hr]; exact he, no_protocol_error (byte 0) ⟨r.1, Sys.run_follow hr⟩ (byte 7) _ he⟩

end Msi
