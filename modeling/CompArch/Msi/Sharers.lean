import CompArch.Msi.Ports
import CompArch.Msi.Values
/-!
# Shared entries without sharers

The directory goes back to `I` when the last sharer leaves through `PUTS_Last`
in `S`. A PUTM has no such event, and neither has any PUT while the directory
still waits for the old owner's data or for memory: then the entry ends up in
`S` with no sharer. In a run in which no last sharer leaves that way, every
entry in `S` has one.
-/

namespace Msi

open Function Slicc Lts

variable {C : Type} {n : Nat}

namespace Directory

/-- The states that become `S` without another request, and `S` itself. -/
def State.sharing : State → Bool
  | .S | .IS_D | .MS_D | .MS_A => true
  | .I | .M | .IM_D | .MI_A => false

/-- A PUT that takes its requestor from the sharers and leaves the entry shared. -/
def State.drops : State → CoherenceRequestType → Bool
  | .S, .PUTM | .MS_D, .PUTS | .MS_D, .PUTM | .MS_A, .PUTS | .MS_A, .PUTM => true
  | _, _ => false

section
variable [DecidableEq C]

/-- What a transition does to the sharers of an entry that is shared after it: one
joins, all stay, or the requestor of a PUT leaves. -/
inductive Sharing (st : State) (event : Event) (request : Option (RequestMsg C n)) (sh : Finset (MachineID C)) :
    Finset (MachineID C) → Prop
  | joins (m : RequestMsg C n) (sh' : Finset (MachineID C)) : m.requestor ∈ sh' → Sharing st event request sh sh'
  | stays : st.sharing = true → Sharing st event request sh sh
  | leaves (m : RequestMsg C n) : st.sharing = true → request = some m → st ≠ .IS_D →
      (st = .S → event = .PUTS_NotLast ∨ event = .PUTM_NotOwner) →
      (event = .PUTS_NotLast ∨ event = .PUTS_Last ∨ event = .PUTM_NotOwner) →
      Sharing st event request sh (sh.erase m.requestor)

omit [DecidableEq C] in
/-- Where its assertions hold, storing the state does nothing else. -/
theorem Block.setState_ok [Memory C n] {b b' : Block C n} {st : State} (h : b.setState st = .ok b') :
    b'.getState = st ∧ b'.entry.sharers = b.entry.sharers := by
  have hb : b' = { entry := { b.entry with directoryState := st }, tbe := b.tbe.map ({ · with tbeState := st }) } := by
    unfold Block.setState assert at h
    cases st <;> simp only [reduceCtorEq, if_true, if_false] at h
    case I => split at h <;> split at h <;> cases h; rw [Memory.keeps]
    case M => split at h <;> split at h <;> cases h; rfl
    all_goals
      cases h
      rfl
  subst hb
  obtain ⟨e, t⟩ := b
  cases t <;> exact ⟨rfl, rfl⟩

theorem trigger_sharing [Memory C n] {st : State} {d d' : DataBlock n} {sh ow : Finset (MachineID C)} {event : Event}
    {x x' : Ctx C n} (hb : x.block = blockOf st d d' sh ow) (h : trigger event x = .ok x')
    (hs : x'.block.getState.sharing = true) : Sharing st event x.request sh x'.block.entry.sharers := by
  obtain ⟨row, y, b', hrow, hy, hset, rfl⟩ := trigger_ok h
  obtain ⟨hnext, hsh⟩ := Block.setState_ok hset
  dsimp only at hs ⊢
  rw [hnext] at hs
  rw [hsh]
  clear hset hnext hsh h
  obtain ⟨b, req, resp, mem, fs, rs, ms, pq, pr, pm⟩ := x
  obtain rfl : b = blockOf st d d' sh ow := hb
  cases st <;> cases event <;> cases hrow <;> cases hs <;> try cases hy
  -- what is left completes, if the message it looks at is there
  all_goals first
    | exact .stays rfl
    | (cases req <;> cases hy; first
      | exact .leaves _ rfl rfl nofun (fun _ => .inl rfl) (.inl rfl)
      | exact .leaves _ rfl rfl nofun (fun _ => .inr rfl) (.inr (.inr rfl))
      | exact .leaves _ rfl rfl nofun nofun (.inl rfl)
      | exact .leaves _ rfl rfl nofun nofun (.inr (.inl rfl))
      | exact .joins _ _ (Finset.mem_union_left _ (Finset.mem_insert_self ..))
      | exact .joins _ _ (Finset.mem_insert_self ..)
      | exact .stays rfl)
    | (cases resp <;> cases hy; exact .stays rfl)
    | (cases mem <;> cases hy; exact .stays rfl)

/-- With one sharer left, its PUTS is its last. -/
theorem requestQueue_in_leaves {e : Entry C n} {m : RequestMsg C n} {event : Event} {st : State}
    (h : requestQueue_in e m = .ok event) (hsh : e.sharers = {m.requestor}) (hst : st.sharing = true) (hne : st ≠ .IS_D)
    (hS : st = .S → event = .PUTS_NotLast ∨ event = .PUTM_NotOwner)
    (hev : event = .PUTS_NotLast ∨ event = .PUTS_Last ∨ event = .PUTM_NotOwner) : st.drops m.type = true := by
  obtain ⟨t, r, b⟩ := m
  cases t <;> simp only [requestQueue_in, hsh] at h
  case PUTS =>
    rw [if_pos (by simp)] at h
    cases h
    cases st <;> cases hst <;> first | rfl | (rcases hS rfl with hS | hS <;> cases hS) | exact absurd rfl hne
  case PUTM => cases st <;> cases hst <;> first | rfl | exact absurd rfl hne
  case GETS | GETM =>
    cases h
    rcases hev with hev | hev | hev <;> cases hev
  case INV | WB_ACK => cases h

end

end Directory

/-! ## Runs in which the last sharer leaves as it should -/

section
variable [DecidableEq C]

/-- The directory takes a PUT of the last sharer and leaves the entry shared. -/
def Sys.DropsLast (s : Sys C n) : Input C n → Prop
  | .request c =>
    match (s.node c).requestFromCache.head? with
    | some m => s.dir.entry.sharers = {m.requestor} ∧ s.dir.getState.drops m.type = true
    | none => False
  | _ => False

instance (s : Sys C n) (i : Input C n) : Decidable (s.DropsLast i) := by
  unfold Sys.DropsLast
  repeat' split
  all_goals infer_instance

inductive Sys.KeepingStep [Directory.Memory C n] (s : Sys C n) : List (C × Callback n) → Sys C n → Prop
  | deliver {stored : DataBlock n} {i : Input C n} {o : List (C × Callback n)} {s' : Sys C n} :
      ¬ s.DropsLast i → s.deliver stored i = some (.ok (o, s')) → KeepingStep s o s'

theorem Sys.KeepingStep.step [Directory.Memory C n] {s s' : Sys C n} {o : List (C × Callback n)}
    (h : s.KeepingStep o s') : s.Step o s' := by
  obtain ⟨-, hd⟩ := h
  exact .deliver hd

/-- An entry that is shared, or about to be, has a sharer. -/
def Directory.Block.Kept (b : Directory.Block C n) : Prop := b.getState.sharing = true → b.entry.sharers.Nonempty

/-- A cache's transition leaves the directory alone. -/
theorem Sys.dir_afterCache (s : Sys C n) (c : C) (x : L1Cache.Ctx C n) : (s.afterCache c x).dir = s.dir :=
  (home_foldl_respond x.responses _).1

variable [Fintype C] [Directory.Memory C n]

theorem Good.keeping_step {s s' : Sys C n} {cur : DataBlock n} {o : List (C × Callback n)} (hg : Good s cur)
    (hs : s.KeepingStep o s') (hk : s.dir.Kept) : s'.dir.Kept := by
  obtain ⟨a, hI, hR⟩ := hg
  obtain ⟨hkeep, hd⟩ := hs
  obtain ⟨d, d', hb, -⟩ := hR.home.dir
  obtain ⟨hst, -, -⟩ := hR.home.getState
  -- a transition for no request only lets the sharers stay
  have hnone {event : Directory.Event} {x x' : Directory.Ctx C n} (hx : x.block = s.dir) (hreq : x.request = none)
      (h : Directory.trigger event x = .ok x') : x'.block.Kept := by
    intro hsh
    have hsharing := Directory.trigger_sharing (hx.trans hb) h hsh
    rw [hreq] at hsharing
    generalize x'.block.entry.sharers = sh' at hsharing
    cases hsharing with
    | joins m _ hm => exact ⟨_, hm⟩
    | stays ht => exact hk (by rwa [hst])
    | leaves m _ he => cases he
  cases Sys.acted hd with
  | mandatory c r x _ => rwa [Sys.dir_afterCache]
  | replacement c x _ _ => rwa [Sys.dir_afterCache]
  | forward c m x _ _ => rwa [Sys.dir_afterCache]
  | response c m x _ _ => rwa [Sys.dir_afterCache]
  | request c m x hm hx =>
    rw [(home_afterDir s (some c) x).1]
    obtain ⟨event, he, hx⟩ := Directory.onRequest_ok hx
    intro hsh
    have hsharing := Directory.trigger_sharing hb hx hsh
    dsimp only at hsharing
    generalize x.block.entry.sharers = sh' at hsharing
    cases hsharing with
    | joins m _ hm => exact ⟨_, hm⟩
    | stays ht => exact hk (by rwa [hst])
    | leaves m' ht hreq hne hS hev =>
      cases hreq
      by_contra hempty
      -- the requestor was the only sharer
      have hlast : s.dir.entry.sharers = {m.requestor} := by
        rw [Finset.not_nonempty_iff_eq_empty, Finset.erase_eq_empty_iff] at hempty
        rcases hempty with h0 | h1
        · exact absurd h0 (hk (by rwa [hst])).ne_empty
        · exact h1
      refine hkeep ?_
      rw [Sys.DropsLast, hm]
      refine ⟨hlast, ?_⟩
      rw [hst]
      exact Directory.requestQueue_in_leaves he hlast ht hne hS hev
  | data m x _ hx =>
    rw [(home_afterDir s none x).1]
    obtain ⟨event, he, hx⟩ := Directory.onResponse_ok hx
    exact hnone rfl rfl hx
  | memory m x _ hx =>
    rw [(home_afterDir s none x).1]
    obtain ⟨event, he, hx⟩ := Directory.onMemory_ok hx
    exact hnone rfl rfl hx

theorem kept_of_run {d : DataBlock n} {log : List (C × Callback n)} {s : Sys C n}
    (h : Run Sys.KeepingStep (Sys.init d) log s) : (∃ v, Good s v) ∧ s.dir.Kept := by
  induction h with
  | start => exact ⟨⟨d, .init d⟩, nofun⟩
  | step _ hs ih =>
    obtain ⟨⟨v, hg⟩, hk⟩ := ih
    exact ⟨⟨_, (hg.step hs.step).1⟩, hg.keeping_step hs hk⟩

/-- In a run in which the directory never takes a PUT of the last sharer and leaves
the entry shared, an entry in `S` has a sharer. -/
theorem shared_has_sharer (d : DataBlock n) {s : Sys C n} (h : Reachable Sys.KeepingStep (Sys.init d) s)
    (hs : s.dir.getState = .S) : s.dir.entry.sharers.Nonempty := by
  obtain ⟨log, hr⟩ := h
  exact (kept_of_run hr).2 (by rw [hs]; rfl)

end

/-! ## Runs on given inputs -/

/-- Delivers the inputs in turn, as long as no last sharer is dropped. -/
def Sys.followKeeping [DecidableEq C] [Directory.Memory C n] (s : Sys C n) (is : List (DataBlock n × Input C n)) :
    Option (List (C × Callback n) × Sys C n) :=
  exec (fun s x => if s.DropsLast x.2 then none else s.next x) s is

theorem Sys.run_followKeeping [DecidableEq C] [Directory.Memory C n] {s s' : Sys C n}
    {is : List (DataBlock n × Input C n)} {log : List (C × Callback n)} (h : s.followKeeping is = some (log, s')) :
    Run Sys.KeepingStep s log s' := by
  refine Run.start.exec (fun s x o s' hn => ?_) h
  split at hn
  case isTrue => cases hn
  case isFalse ht => exact .deliver ht (deliver_of_next hn)

/-- Cache 0's block goes to cache 1 while cache 0 evicts it. -/
def sharedByEviction : List (DataBlock 1 × Input (Fin 2) 1) :=
  storeMiss ++ [(byte 7, .mandatory 1 .LD), (byte 7, .request 1), (byte 7, .replacement 0), (byte 7, .forward 0),
    (byte 7, .response 1 ⟨.DATA_FROM_OWNER, .L1Cache 0, byte 7, 0⟩)]

/-- The old owner's data reaches memory. -/
def writtenBack : List (DataBlock 1 × Input (Fin 2) 1) :=
  [(byte 7, .data ⟨.DATA, .L1Cache 0, byte 7, 0⟩), (byte 7, .memory ⟨.MEMORY_WB, .L1Cache 0, byte 7⟩)]

/-- Cache 1 evicts the block as well, and its PUTS arrives before cache 0's PUTM. -/
def bothPuts : List (DataBlock 1 × Input (Fin 2) 1) :=
  [(byte 7, .replacement 1), (byte 7, .request 1), (byte 7, .request 0)]

theorem shared_has_sharer_eviction : ∃ s : Sys (Fin 2) 1, Reachable Sys.KeepingStep (Sys.init (byte 0)) s ∧
    s.dir.getState = .S ∧ s.dir.entry.sharers.Nonempty := by
  obtain ⟨r, hr⟩ := Option.isSome_iff_exists.1
    (show ((Sys.init (byte 0)).followKeeping (sharedByEviction ++ writtenBack)).isSome by decide)
  have hS : (((Sys.init (byte 0)).followKeeping (sharedByEviction ++ writtenBack)).map fun r => r.2.dir.getState) =
      some .S := by decide
  rw [hr] at hS
  have hreach : Reachable Sys.KeepingStep (Sys.init (byte 0)) r.2 := ⟨r.1, Sys.run_followKeeping hr⟩
  exact ⟨r.2, hreach, Option.some.inj hS, shared_has_sharer _ hreach (Option.some.inj hS)⟩

/-- Two runs into `S` without sharers: in the first the directory takes the PUTM of
the last sharer in `S`, in the second both PUTs while it waits for the data. -/
theorem not_shared_has_sharer :
    (∃ s : Sys (Fin 2) 1, Reachable Sys.Step (Sys.init (byte 0)) s ∧ s.dir.getState = .S ∧
      s.dir.entry.sharers = ∅) ∧
    ∃ s : Sys (Fin 2) 1, Reachable Sys.Step (Sys.init (byte 0)) s ∧ s.dir.getState = .S ∧ s.dir.entry.sharers = ∅ := by
  have hrun (is : List (DataBlock 1 × Input (Fin 2) 1))
      (h : (((Sys.init (byte 0)).follow is).map fun r => (r.2.dir.getState, r.2.dir.entry.sharers)) = some (.S, ∅)) :
      ∃ s : Sys (Fin 2) 1, Reachable Sys.Step (Sys.init (byte 0)) s ∧ s.dir.getState = .S ∧
        s.dir.entry.sharers = ∅ := by
    obtain ⟨r, hr, he⟩ := Option.map_eq_some_iff.1 h
    obtain ⟨hst, hsh⟩ := Prod.mk.inj he
    exact ⟨r.2, ⟨r.1, Sys.run_follow hr⟩, hst, hsh⟩
  exact ⟨hrun (sharedByEviction ++ writtenBack ++ bothPuts) (by decide),
    hrun (sharedByEviction ++ bothPuts ++ writtenBack) (by decide)⟩

end Msi
