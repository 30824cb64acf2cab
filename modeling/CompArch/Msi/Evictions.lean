import CompArch.Msi.Safety
/-!
# What the core is told when a copy goes

`forward_eviction_to_cpu` runs where the cache entry is deallocated. That is
late for an eviction, which is reported when the directory acknowledges it,
and it never happens when an invalidation meets an upgrade. In a run without
the two, a core that loaded the block is told before any other core stores to it.
-/

namespace Msi

open Function Slicc Lts

variable {C : Type} {n : Nat}

namespace L1Cache

/-! ## What a transition reports -/

/-- The cache has no copy that its core could still rely on. -/
def State.lost : State → Bool
  | .I | .IS_D | .IM_AD | .IM_A => true
  | .S | .M | .SM_AD | .SM_A | .MI_A | .SI_A | .II_A => false

/-- The cache has given its copy up and waits for the directory before it tells the core. -/
def State.evicting : State → Bool
  | .MI_A | .SI_A | .II_A => true
  | .I | .S | .M | .IS_D | .IM_AD | .IM_A | .SM_AD | .SM_A => false

/-- `event` completes a store. -/
def State.writes : State → Event → Bool
  | .M, .Store => true
  | .IM_AD, .Data_from_Dir_No_Acks | .IM_AD, .Data_from_Owner | .IM_AD, .Data_from_Dir_Ack_Cnt_Last => true
  | .SM_AD, .Data_from_Dir_No_Acks | .SM_AD, .Data_from_Dir_Ack_Cnt_Last => true
  | .IM_A, .Inv_Ack_all | .SM_A, .Inv_Ack_all => true
  | _, _ => false

/-- `event` takes the copy and the core is never told. -/
def State.silent : State → Event → Bool
  | .SM_AD, .Inv => true
  | _, _ => false

/-- What a transition from `st` to `st'` tells the core. -/
inductive Reports (st : State) (event : Event) (st' : State) : List (Callback n) → Prop
  | quiet (rs : List RubyRequestType) : (!st'.lost || st.lost || st.silent event) = true →
      Reports st event st' (rs.map .popMandatory)
  | load (mach : GenericMachineType) (v : DataBlock n) (rs : List RubyRequestType) : st'.lost = false →
      Reports st event st' (.readCallback mach v :: rs.map .popMandatory)
  | store (mach : GenericMachineType) (v : DataBlock n) (rs : List RubyRequestType) : st.writes event = true →
      st' = .M → Reports st event st' (.writeCallback mach v :: rs.map .popMandatory)
  | evict : Reports st event st' [.evictionCallback]

theorem trigger_reports {st : State} {k : Int} {d d' : DataBlock n} {event : Event} {x x' : Ctx C n}
    (hb : x.block = blockOf st k d d') (hx : x.callbacks = [] ∧ x.send_evictions = true)
    (h : trigger event x = .ok x') : Reports st event x'.block.getState x'.callbacks := by
  obtain ⟨c, b, mand, fwd, resp, stored, ev, reqs, resps, calls, pf, pr⟩ := x
  obtain ⟨rfl, rfl⟩ : calls = [] ∧ ev = true := hx
  obtain rfl : b = blockOf st k d d' := hb
  cases st <;> cases event <;> try cases h
  -- what is left completes, if the message it looks at is there
  all_goals first
    | exact .quiet [] rfl
    | exact .evict
    | (cases mand <;> cases h; first
      | exact .quiet [_] rfl | exact .load _ _ [_] rfl | exact .store _ _ [_] rfl rfl)
    | (cases fwd <;> cases h; first | exact .quiet [] rfl | exact .evict)
    | (cases resp <;> cases h; first
      | exact .quiet [] rfl | exact .load _ _ [] rfl | exact .store _ _ [] rfl rfl)

end L1Cache

/-! ## Steps that tell the core in time -/

section
variable [DecidableEq C]

/-- The cache an input is for, and the event its port computes. -/
def Sys.event (s : Sys C n) : Input C n → Option (C × L1Cache.Event)
  | .mandatory c r => some (c, L1Cache.mandatory_request_type_to_event r)
  | .replacement c => some (c, .Replacement)
  | .forward c => do
    let m ← (s.node c).forwardToCache.head?
    let event ← (L1Cache.forwardRequestNetwork_in m).toOption
    return (c, event)
  | .response c m => (L1Cache.responseNetwork_in (s.node c).cache.tbe m).toOption.map (c, ·)
  | .request _ | .data _ | .memory _ => none

/-- No copy goes silently, and no store completes while another cache has yet
to tell its core of an eviction. -/
def Sys.Tells (s : Sys C n) (i : Input C n) : Prop :=
  match s.event i with
  | none => True
  | some (c, event) =>
    (s.node c).cache.getState.silent event = false ∧
      ((s.node c).cache.getState.writes event = true → ∀ c', c' ≠ c → (s.node c').cache.getState.evicting = false)

instance [Fintype C] (s : Sys C n) (i : Input C n) : Decidable (s.Tells i) := by
  unfold Sys.Tells
  split <;> infer_instance

omit [DecidableEq C] in
theorem Sys.Tells.of_event {s : Sys C n} {i : Input C n} (h : s.Tells i) {c : C} {event : L1Cache.Event}
    (hi : s.event i = some (c, event)) : (s.node c).cache.getState.silent event = false ∧
      ((s.node c).cache.getState.writes event = true → ∀ c', c' ≠ c → (s.node c').cache.getState.evicting = false) := by
  simpa [Sys.Tells, hi] using h

theorem Sys.cache_afterCache (s : Sys C n) (c c' : C) (x : L1Cache.Ctx C n) :
    ((s.afterCache c x).node c').cache = if c' = c then x.block else (s.node c').cache := by
  rw [Sys.afterCache, node_foldl_respond]
  by_cases hc : c' = c
  · subst hc
    simp [Node.after]
  · simp [hc]

/-- What an input that completes did: the directory moved, or one cache ran a transition. -/
inductive Sys.Delivered (s : Sys C n) (i : Input C n) (o : List (C × Callback n)) (s' : Sys C n) : Prop
  | home : o = [] → (∀ c, (s'.node c).cache = (s.node c).cache) → Delivered s i o s'
  | cache (c : C) (event : L1Cache.Event) (x x' : L1Cache.Ctx C n) : s.event i = some (c, event) →
      x.block = (s.node c).cache → x.callbacks = [] ∧ x.send_evictions = true →
      (∀ r, x.mandatory = some r → L1Cache.mandatory_request_type_to_event r = event) →
      L1Cache.trigger event x = .ok x' → o = x'.callbacks.map (c, ·) → (s'.node c).cache = x'.block →
      (∀ c' ≠ c, (s'.node c').cache = (s.node c').cache) → Delivered s i o s'

theorem Sys.delivered_afterDir (s : Sys C n) (i : Input C n) (src : Option C) (x : Directory.Ctx C n) :
    s.Delivered i [] (s.afterDir src x) := .home rfl fun c => by rw [node_afterDir]

theorem Sys.delivered_afterCache {s : Sys C n} {i : Input C n} {c : C} {event : L1Cache.Event}
    (hi : s.event i = some (c, event)) {x x' : L1Cache.Ctx C n} (hb : x.block = (s.node c).cache)
    (hx : x.callbacks = [] ∧ x.send_evictions = true)
    (hm : ∀ r, x.mandatory = some r → L1Cache.mandatory_request_type_to_event r = event)
    (h : L1Cache.trigger event x = .ok x') : s.Delivered i (x'.callbacks.map (c, ·)) (s.afterCache c x') :=
  .cache c event x x' hi hb hx hm h rfl (by rw [Sys.cache_afterCache, if_pos rfl])
    fun c' hc => by rw [Sys.cache_afterCache, if_neg hc]

inductive Sys.TellingStep [Directory.Memory C n] (s : Sys C n) : List (C × Callback n) → Sys C n → Prop
  | deliver {stored : DataBlock n} {i : Input C n} {o : List (C × Callback n)} {s' : Sys C n} :
      s.Tells i → s.deliver stored i = some (.ok (o, s')) → TellingStep s o s'

theorem Sys.TellingStep.step [Directory.Memory C n] {s s' : Sys C n} {o : List (C × Callback n)}
    (h : s.TellingStep o s') : s.Step o s' := by
  obtain ⟨-, hd⟩ := h
  exact .deliver hd

theorem Sys.delivered [Directory.Memory C n] {s s' : Sys C n} {stored : DataBlock n} {i : Input C n}
    {o : List (C × Callback n)} (h : s.deliver stored i = some (.ok (o, s'))) : s.Delivered i o s' := by
  cases Sys.acted h with
  | mandatory c r x hx =>
    exact Sys.delivered_afterCache rfl rfl ⟨rfl, rfl⟩ (fun _ hr => by rw [Option.some.inj hr]) hx
  | replacement c x _ hx => exact Sys.delivered_afterCache rfl rfl ⟨rfl, rfl⟩ (by intro _ hr; cases hr) hx
  | forward c m x hm hx =>
    obtain ⟨event, he, hx⟩ := L1Cache.onForward_ok hx
    exact Sys.delivered_afterCache (by simp [Sys.event, hm, he, Except.toOption]) rfl ⟨rfl, rfl⟩
      (by intro _ hr; cases hr) hx
  | response c m x _ hx =>
    obtain ⟨event, he, hx⟩ := L1Cache.onResponse_ok hx
    exact Sys.delivered_afterCache (by simp [Sys.event, he, Except.toOption]) rfl ⟨rfl, rfl⟩
      (by intro _ hr; cases hr) hx
  | request c m x => exact s.delivered_afterDir ..
  | data m x => exact s.delivered_afterDir ..
  | memory m x => exact s.delivered_afterDir ..

/-- What a step is to the caches: one of them reports something, or all stay as they are. -/
def Sys.Reported (s : Sys C n) (i : Input C n) (o : List (C × Callback n)) (s' : Sys C n) : Prop :=
  (o = [] ∧ ∀ c, (s'.node c).cache = (s.node c).cache) ∨
    ∃ c event ks, s.event i = some (c, event) ∧ o = ks.map (c, ·) ∧
      L1Cache.Reports (s.node c).cache.getState event (s'.node c).cache.getState ks ∧
        ∀ c' ≠ c, (s'.node c').cache = (s.node c').cache

theorem Repr.reported [Directory.Memory C n] {s s' : Sys C n} {a : Abs C} {cur stored : DataBlock n}
    (hR : Repr s a cur) {i : Input C n} {o : List (C × Callback n)} (h : s.deliver stored i = some (.ok (o, s'))) :
    s.Reported i o s' := by
  cases Sys.delivered h with
  | home ho hc => exact .inl ⟨ho, hc⟩
  | cache c event x x' hi hb hx _ he ho hc hother =>
    obtain ⟨d, d', hd, -⟩ := (hR.node c).cache
    refine .inr ⟨c, event, x'.callbacks, hi, ho, ?_, hother⟩
    rw [hR.getState, hc]
    exact L1Cache.trigger_reports (hb.trans hd) hx he

/-! ## Along a run -/

/-- The cores that have loaded the block since they were last told of an eviction. -/
def loaded (r : C → Bool) : List (C × Callback n) → C → Bool
  | [] => r
  | (c, .readCallback _ _) :: log => loaded (update r c true) log
  | (c, .evictionCallback) :: log => loaded (update r c false) log
  | (_, .popMandatory _) :: log | (_, .writeCallback _ _) :: log => loaded r log

/-- At every store no other core has loaded the block without being told. -/
def Warned (r : C → Bool) : List (C × Callback n) → Prop
  | [] => True
  | (c, .readCallback _ _) :: log => Warned (update r c true) log
  | (c, .evictionCallback) :: log => Warned (update r c false) log
  | (c, .writeCallback _ _) :: log => (∀ c' ≠ c, r c' = false) ∧ Warned r log
  | (_, .popMandatory _) :: log => Warned r log

theorem loaded_append (r : C → Bool) (l l' : List (C × Callback n)) : loaded r (l ++ l') = loaded (loaded r l) l' := by
  fun_induction loaded r l <;> simp_all [loaded]

theorem warned_append (r : C → Bool) (l l' : List (C × Callback n)) :
    Warned r (l ++ l') ↔ Warned r l ∧ Warned (loaded r l) l' := by
  fun_induction Warned r l <;> simp_all [Warned, loaded, and_assoc]

theorem loaded_pops (r : C → Bool) (c : C) (rs : List RubyRequestType) :
    loaded r ((rs.map (Callback.popMandatory (n := n))).map (c, ·)) = r := by
  induction rs with
  | nil => rfl
  | cons t rs ih => exact ih

theorem warned_pops (r : C → Bool) (c : C) (rs : List RubyRequestType) :
    Warned r ((rs.map (Callback.popMandatory (n := n))).map (c, ·)) := by
  induction rs with
  | nil => exact trivial
  | cons t rs ih => exact ih

theorem loaded_of_not_mem {r : C → Bool} {c : C} {log : List (C × Callback n)} (hr : r c = true)
    (h : (c, .evictionCallback) ∉ log) : loaded r log c = true := by
  fun_induction loaded r log with
  | case1 r => exact hr
  | case2 r c' mach v log ih =>
    refine ih ?_ fun hm => h (List.mem_cons_of_mem _ hm)
    by_cases hc : c = c' <;> simp [hc, hr]
  | case3 r c' log ih =>
    have hc : c ≠ c' := by
      rintro rfl
      exact h (List.mem_cons_self ..)
    exact ih (by rw [update_of_ne hc, hr]) fun hm => h (List.mem_cons_of_mem _ hm)
  | case4 r c' t log ih => exact ih hr fun hm => h (List.mem_cons_of_mem _ hm)
  | case5 r c' mach v log ih => exact ih hr fun hm => h (List.mem_cons_of_mem _ hm)

/-- In a warned run a core that loaded is told before another stores. -/
theorem Warned.mem {r : C → Bool} {pre mid post : List (C × Callback n)} {c c' : C} {mach mach' : GenericMachineType}
    {v v' : DataBlock n} (hne : c ≠ c')
    (h : Warned r (pre ++ (c, .readCallback mach v) :: (mid ++ (c', .writeCallback mach' v') :: post))) :
    (c, .evictionCallback) ∈ mid := by
  rw [warned_append] at h
  obtain ⟨-, h⟩ := h
  simp only [Warned, warned_append] at h
  by_contra hm
  have hl := loaded_of_not_mem (r := update (loaded r pre) c true) (update_self ..) hm
  rw [h.2.1 c hne] at hl
  cases hl

/-- A state is readable, evicting, or has no copy. -/
theorem L1Cache.State.lost_of {st : L1Cache.State} (hr : st.readable = false) (he : st.evicting = false) :
    st.lost = true := by
  cases st <;> first | rfl | exact absurd hr (by decide) | exact absurd he (by decide)

variable [Fintype C] [Directory.Memory C n]

/-- A core that has not been told still has a copy. -/
theorem Good.telling_step {s s' : Sys C n} {cur : DataBlock n} {o : List (C × Callback n)} {r : C → Bool}
    (hg : Good s cur)
    (hs : s.TellingStep o s') (hr : ∀ c, r c = true → (s.node c).cache.getState.lost = false) :
    (∀ c, loaded r o c = true → (s'.node c).cache.getState.lost = false) ∧ Warned r o := by
  obtain ⟨hg', -⟩ := hg.step hs.step
  obtain ⟨a, hI, hR⟩ := hg
  obtain ⟨ht, hd⟩ := hs
  rcases hR.reported hd with ⟨rfl, hc⟩ | ⟨c, event, ks, hi, rfl, hk, hother⟩
  · exact ⟨fun c h => by rw [hc c]; exact hr c h, trivial⟩
  have hkeep (c' : C) (hc : c' ≠ c) (h : r c' = true) : (s'.node c').cache.getState.lost = false := by
    rw [hother c' hc]
    exact hr c' h
  generalize hst' : (s'.node c).cache.getState = st' at hk
  cases hk with
  | quiet rs hq =>
    rw [loaded_pops]
    refine ⟨fun c' h => ?_, warned_pops ..⟩
    by_cases hc : c' = c
    · subst hc
      rw [(ht.of_event hi).1, hr c' h] at hq
      rw [hst']
      simpa using hq
    · exact hkeep c' hc h
  | load mach v rs hl =>
    refine ⟨fun c' h => ?_, warned_pops ..⟩
    simp only [List.map_cons, loaded, loaded_pops] at h
    by_cases hc : c' = c
    · rw [hc, hst', hl]
    · exact hkeep c' hc (by rwa [update_of_ne hc] at h)
  | store mach v rs hw hM =>
    refine ⟨fun c' h => ?_, fun c' hc => ?_, warned_pops ..⟩
    · simp only [List.map_cons, loaded, loaded_pops] at h
      by_cases hc : c' = c
      · rw [hc, hst', hM]
        rfl
      · exact hkeep c' hc h
    · obtain ⟨a', hI', hR'⟩ := hg'
      have hread := hR'.not_readable hI' (hst'.trans hM) hc
      rw [hother c' hc] at hread
      have hlost := L1Cache.State.lost_of hread ((ht.of_event hi).2 hw c' hc)
      rw [Bool.eq_false_iff]
      intro h
      rw [hr c' h] at hlost
      cases hlost
  | evict =>
    refine ⟨fun c' h => ?_, trivial⟩
    simp only [List.map_cons, List.map_nil, loaded] at h
    by_cases hc : c' = c
    · rw [hc, update_self] at h
      cases h
    · exact hkeep c' hc (by rwa [update_of_ne hc] at h)

theorem warned_of_run {d : DataBlock n} {log : List (C × Callback n)} {s : Sys C n}
    (h : Run Sys.TellingStep (Sys.init d) log s) :
    (∃ v, Good s v) ∧ (∀ c, loaded (fun _ => false) log c = true → (s.node c).cache.getState.lost = false) ∧
      Warned (fun _ => false) log := by
  induction h with
  | start => exact ⟨⟨d, .init d⟩, nofun, trivial⟩
  | step _ hs ih =>
    obtain ⟨⟨v, hg⟩, hl, hw⟩ := ih
    obtain ⟨hl', hw'⟩ := hg.telling_step hs hl
    rw [loaded_append, warned_append]
    exact ⟨⟨_, (hg.step hs.step).1⟩, hl', hw, hw'⟩

/-- For every block, a core that loaded it is told of its loss before another core stores to it. -/
def ToldBeforeStore {B : Type} (log : List (B × C × Callback n)) : Prop :=
  ∀ pre mid post b c c' mach mach' v v', c ≠ c' →
    log = pre ++ (b, c, .readCallback mach v) :: (mid ++ (b, c', .writeCallback mach' v') :: post) →
      (b, c, .evictionCallback) ∈ mid

/-! ## Runs on given inputs -/

/-- Delivers the inputs in turn, as long as each tells the core in time. -/
def Sys.followTelling (s : Sys C n) (is : List (DataBlock n × Input C n)) :
    Option (List (C × Callback n) × Sys C n) :=
  exec (fun s x => if s.Tells x.2 then s.next x else none) s is

theorem Sys.run_followTelling {s s' : Sys C n} {is : List (DataBlock n × Input C n)} {log : List (C × Callback n)}
    (h : s.followTelling is = some (log, s')) : Run Sys.TellingStep s log s' := by
  refine Run.start.exec (fun s x o s' hn => ?_) h
  split at hn
  case isTrue ht => exact .deliver ht (deliver_of_next hn)
  case isFalse => cases hn

/-- Cache 0 loads a block nobody has. -/
def loadMiss : List (DataBlock 1 × Input (Fin 2) 1) :=
  [(byte 7, .mandatory 0 .LD), (byte 7, .request 0), (byte 7, .memory ⟨.MEMORY_READ, .L1Cache 0, byte 0⟩),
    (byte 7, .response 0 ⟨.DATA_FROM_DIR, .Directory, byte 0, 0⟩)]

/-- Cache 1 stores to it, which invalidates cache 0. -/
def remoteStore : List (DataBlock 1 × Input (Fin 2) 1) :=
  [(byte 7, .mandatory 1 .ST), (byte 7, .request 1), (byte 7, .forward 0),
    (byte 7, .response 1 ⟨.DATA_FROM_DIR, .Directory, byte 0, -1⟩), (byte 7, .response 1 ⟨.ACK, .L1Cache 0, byte 0, 1⟩)]

/-! ## The core is told before another stores -/

/-- In a run whose steps all tell the core in time, every log is as it should be. -/
theorem told_before_store {B : Type} [DecidableEq B] (d : B → DataBlock n) {log : List (B × C × Callback n)}
    {f : B → Sys C n} (h : Run (FamilyStep Sys.TellingStep) (fun b => Sys.init (d b)) log f) : ToldBeforeStore log := by
  intro pre mid post b c c' mach mach' v v' hne hl
  have hw := (warned_of_run (h.proj b)).2.2
  rw [hl] at hw
  simp only [logOf_append, logOf_cons_self] at hw
  exact mem_of_mem_logOf (hw.mem hne)

theorem told_before_store_sharedCopy :
    ∃ r, (Sys.init (byte 0)).followTelling (loadMiss ++ remoteStore) = some r ∧
      ToldBeforeStore (r.1.map ((), ·)) := by
  obtain ⟨r, hr⟩ := Option.isSome_iff_exists.1
    (show ((Sys.init (byte 0)).followTelling (loadMiss ++ remoteStore)).isSome by decide)
  have hrun : Run (FamilyStep Sys.TellingStep) (fun _ : Unit => Sys.init (byte 0)) _ _ :=
    (Sys.run_followTelling hr).at (b := ())
  exact ⟨r, hr, told_before_store (fun _ => byte 0) hrun⟩

/-- Two runs of one block: in the first the invalidation finds cache 0
upgrading its copy, in the second it finds it evicting the copy. -/
theorem told_before_store_fails :
    (∃ log f, ((Sys.init (byte 0)).follow (loadMiss ++ (byte 7, .mandatory 0 .ST) :: remoteStore)).map (·.1) =
        some log ∧
      Run (FamilyStep Sys.Step) (fun _ : Unit => Sys.init (byte 0)) (log.map ((), ·)) f ∧
        ¬ ToldBeforeStore (log.map ((), ·))) ∧
    ∃ log f, ((Sys.init (byte 0)).follow (loadMiss ++ (byte 7, .replacement 0) :: remoteStore)).map (·.1) = some log ∧
      Run (FamilyStep Sys.Step) (fun _ : Unit => Sys.init (byte 0)) (log.map ((), ·)) f ∧
        ¬ ToldBeforeStore (log.map ((), ·)) := by
  constructor
  · have hl : ((Sys.init (byte 0)).follow (loadMiss ++ (byte 7, .mandatory 0 .ST) :: remoteStore)).map (·.1) =
        some ((0, .popMandatory .LD) :: (0, .readCallback .Directory (byte 0)) ::
          [(0, .popMandatory .ST), (1, .popMandatory .ST), (1, .writeCallback .L1Cache_wCC (byte 7))]) := by
      decide
    obtain ⟨r, hr, hlog⟩ := Option.map_eq_some_iff.1 hl
    refine ⟨r.1, _, by rw [hr]; rfl, (Sys.run_follow hr).at (b := ()), ?_⟩
    intro h
    have := h [((), 0, .popMandatory .LD)] [((), 0, .popMandatory .ST), ((), 1, .popMandatory .ST)] [] () 0 1 _ _ _ _
      (by decide) (by rw [hlog]; rfl)
    exact absurd this (by decide)
  · have hl : ((Sys.init (byte 0)).follow (loadMiss ++ (byte 7, .replacement 0) :: remoteStore)).map (·.1) =
        some ((0, .popMandatory .LD) :: (0, .readCallback .Directory (byte 0)) ::
          [(1, .popMandatory .ST), (1, .writeCallback .L1Cache_wCC (byte 7))]) := by
      decide
    obtain ⟨r, hr, hlog⟩ := Option.map_eq_some_iff.1 hl
    refine ⟨r.1, _, by rw [hr]; rfl, (Sys.run_follow hr).at (b := ()), ?_⟩
    intro h
    have := h [((), 0, .popMandatory .LD)] [((), 1, .popMandatory .ST)] [] () 0 1 _ _ _ _ (by decide)
      (by rw [hlog]; rfl)
    exact absurd this (by decide)

end

end Msi
