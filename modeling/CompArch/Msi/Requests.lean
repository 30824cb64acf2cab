import CompArch.Msi.Evictions
import CompArch.Msi.Values
/-!
# Every request is answered once

What a core sees of its cache, block by block: it has at most one request
outstanding, a hit is answered by the transition that takes the request, and a
miss by one later callback of the request's own kind. `Request.Step` is that
machine, and a cache's log is always one of its logs.
-/

namespace Msi

open Function Slicc Lts

variable {C : Type} {n : Nat}

namespace Request

inductive Kind
  | load
  | store
  deriving DecidableEq

/-- What a request of the core is answered by: `readCallback` or `writeCallback`. -/
def kind : RubyRequestType → Kind
  | .LD | .IFETCH => .load
  | .ST | .ATOMIC => .store

/-- A transition, for a core whose outstanding miss is `p`. `r_load_hit` and
`s_store_hit` name the cache itself, `rx_load_hit` and `sx_store_hit` another machine. -/
inductive Step (p : Option Kind) : List (Callback n) → Option Kind → Prop
  | quiet : Step p [] p
  | evict : Step p [.evictionCallback] p
  | loadHit (r : RubyRequestType) (v : DataBlock n) : kind r = .load →
      Step p [.readCallback .L1Cache v, .popMandatory r] p
  | storeHit (r : RubyRequestType) (v : DataBlock n) : kind r = .store →
      Step p [.writeCallback .L1Cache v, .popMandatory r] p
  | miss (r : RubyRequestType) : p = none → Step p [.popMandatory r] (some (kind r))
  | load (mach : GenericMachineType) (v : DataBlock n) : p = some .load → mach ≠ .L1Cache →
      Step p [.readCallback mach v] none
  | store (mach : GenericMachineType) (v : DataBlock n) : p = some .store → mach ≠ .L1Cache →
      Step p [.writeCallback mach v] none

/-! ## Counting -/

/-- The callback of a hit; its request is popped right after it. -/
def isHit : Callback n → Bool
  | .readCallback .L1Cache _ | .writeCallback .L1Cache _ => true
  | .readCallback .L1Cache_wCC _ | .readCallback .Directory _
  | .writeCallback .L1Cache_wCC _ | .writeCallback .Directory _ | .popMandatory _ | .evictionCallback => false

/-- A call of `rx_load_hit` or `sx_store_hit`. -/
def isCompletion : Callback n → Bool
  | .readCallback .L1Cache_wCC _ | .readCallback .Directory _
  | .writeCallback .L1Cache_wCC _ | .writeCallback .Directory _ => true
  | .readCallback .L1Cache _ | .writeCallback .L1Cache _ | .popMandatory _ | .evictionCallback => false

/-- The requests popped that missed: no hit's callback stands before them.
`hit` says whether one stands before the list. -/
def misses (hit : Bool) : List (Callback n) → Nat
  | [] => 0
  | .popMandatory _ :: log => (if hit then 0 else 1) + misses false log
  | k :: log => misses (isHit k) log

/-- Whether `log` ends with a hit's callback. -/
def endsHit (hit : Bool) (log : List (Callback n)) : Bool := (log.getLast?.map isHit).getD hit

theorem misses_append (hit : Bool) (l l' : List (Callback n)) :
    misses hit (l ++ l') = misses hit l + misses (endsHit hit l) l' := by
  induction l generalizing hit with
  | nil => simp [misses, endsHit]
  | cons k l ih =>
    have hlast : ∀ b, endsHit (isHit k) l = endsHit b (k :: l) := by
      intro b
      cases l <;> simp [endsHit, List.getLast?_cons]
    cases k with
    | popMandatory r =>
      simp only [List.cons_append, misses, ih, Nat.add_assoc]
      rw [← hlast hit]
      rfl
    | _ =>
      simp only [List.cons_append, misses, ih]
      rw [hlast hit]

/-- In a log of the machine one miss is unanswered, or none. -/
theorem count_of_run {log : List (Callback n)} {p : Option Kind} (h : Run Step none log p) :
    misses false log = log.countP isCompletion + (if p.isSome then 1 else 0) ∧ endsHit false log = false := by
  induction h with
  | start => simp [misses, endsHit]
  | @step log p o p' _ hs ih =>
    obtain ⟨ih, hend⟩ := ih
    rw [misses_append, hend, List.countP_append]
    cases hs with
    | quiet => simpa [misses, endsHit] using ⟨ih, hend⟩
    | evict => simpa [misses, endsHit, isHit, isCompletion] using ih
    | loadHit r v hk => simpa [misses, endsHit, isHit, isCompletion] using ih
    | storeHit r v hk => simpa [misses, endsHit, isHit, isCompletion] using ih
    | miss r hp =>
      subst hp
      simpa [misses, endsHit, isHit, isCompletion] using ih
    | load mach v hp hm =>
      subst hp
      cases mach <;> simp [misses, endsHit, isHit, isCompletion] at hm ih ⊢ <;> exact ih
    | store mach v hp hm =>
      subst hp
      cases mach <;> simp [misses, endsHit, isHit, isCompletion] at hm ih ⊢ <;> exact ih

end Request

open Request

namespace L1Cache

/-- The miss a cache in this state has outstanding. -/
def State.pending : State → Option Kind
  | .IS_D => some .load
  | .IM_AD | .IM_A | .SM_AD | .SM_A => some .store
  | .I | .S | .M | .MI_A | .SI_A | .II_A => none

theorem getNondirectHitMachType_ne (m : MachineID C) : getNondirectHitMachType m ≠ .L1Cache := by
  cases m <;> nofun

/-- What one transition is to the core. -/
theorem trigger_step {st : State} {k : Int} {d d' : DataBlock n} {event : Event} {x x' : Ctx C n}
    (hb : x.block = blockOf st k d d') (hx : x.callbacks = [] ∧ x.send_evictions = true)
    (hm : ∀ r, x.mandatory = some r → mandatory_request_type_to_event r = event)
    (h : trigger event x = .ok x') : Request.Step st.pending x'.callbacks x'.block.getState.pending := by
  obtain ⟨c, b, mand, fwd, resp, stored, ev, reqs, resps, calls, pf, pr⟩ := x
  obtain ⟨rfl, rfl⟩ : calls = [] ∧ ev = true := hx
  obtain rfl : b = blockOf st k d d' := hb
  cases st <;> cases event <;> try cases h
  all_goals first
    | exact .quiet
    | exact .evict
    | (cases mand with
      | none => cases h
      | some r =>
        have hr := hm r rfl
        cases r <;> cases hr <;> cases h <;> first
          | exact .miss _ rfl | exact .loadHit _ _ rfl | exact .storeHit _ _ rfl)
    | (cases fwd <;> cases h; first | exact .quiet | exact .evict)
    | (cases resp <;> cases h; first
      | exact .quiet
      | exact .load _ _ rfl (getNondirectHitMachType_ne _)
      | exact .store _ _ rfl (getNondirectHitMachType_ne _))

end L1Cache

section
variable [DecidableEq C] [Fintype C] [Directory.Memory C n]

/-- What one step of the system is to the core of cache `c`. -/
theorem Good.request_step {s s' : Sys C n} {cur : DataBlock n} {o : List (C × Callback n)} (hg : Good s cur)
    (hs : s.Step o s') (c : C) :
    Request.Step (s.node c).cache.getState.pending (logOf c o) (s'.node c).cache.getState.pending := by
  obtain ⟨a, -, hR⟩ := hg
  obtain ⟨hd⟩ := hs
  cases Sys.delivered hd with
  | home ho hc =>
    rw [ho, hc c]
    exact .quiet
  | cache c' event x x' hi hb hx hm he ho hc hother =>
    rw [ho]
    by_cases hcc : c' = c
    · subst hcc
      obtain ⟨d, d', hblock, -⟩ := (hR.node c').cache
      rw [logOf_self, hc, hR.getState]
      exact L1Cache.trigger_step (hb.trans hblock) hx hm he
    · rw [logOf_other hcc, hother c (Ne.symm hcc)]
      exact .quiet

/-- In every run the log of a cache is a log of its core's machine. -/
theorem request_run {d : DataBlock n} {log : List (C × Callback n)} {s : Sys C n}
    (h : Run Sys.Step (Sys.init d) log s) (c : C) :
    Run Request.Step none (logOf c log) (s.node c).cache.getState.pending := by
  induction h with
  | start => exact .start
  | step hr hs ih =>
    rw [logOf_append]
    exact .step ih ((Good.run hr).1.request_step hs c)

/-- Every request a cache takes is answered by one callback of its kind, and a
miss is unanswered exactly while the cache is in a state that waits for it. -/
theorem answered_once {B : Type} [DecidableEq B] (d : B → DataBlock n) {log : List (B × C × Callback n)}
    {f : B → Sys C n} (h : Run (FamilyStep Sys.Step) (fun b => Sys.init (d b)) log f) (b : B) (c : C) :
    Run Request.Step none (logOf c (logOf b log)) ((f b).node c).cache.getState.pending ∧
      (misses false (logOf c (logOf b log)) : Int) - (logOf c (logOf b log)).countP isCompletion =
        if ((f b).node c).cache.getState ∈ [.IS_D, .IM_AD, .IM_A, .SM_AD, .SM_A] then 1 else 0 := by
  have hr := request_run (h.proj b) c
  refine ⟨hr, ?_⟩
  rw [(count_of_run hr).1]
  cases ((f b).node c).cache.getState <;> simp [L1Cache.State.pending]

end

/-- Cache 1's load of what cache 0 stored, answered by cache 0. -/
theorem answered_once_storeThenLoad :
    ∃ log : List (Fin 2 × Callback 1),
      ((Sys.init (byte 0)).follow storeThenLoad).map (·.1) = some log ∧
        Run Request.Step none (logOf 1 (logOf () (log.map ((), ·)))) none ∧
        (misses false (logOf 1 (logOf () (log.map ((), ·)))) : Int) -
          (logOf 1 (logOf () (log.map ((), ·)))).countP isCompletion = 0 := by
  obtain ⟨r, hr⟩ := Option.isSome_iff_exists.1 (show ((Sys.init (byte 0)).follow storeThenLoad).isSome by decide)
  have hS : (((Sys.init (byte 0)).follow storeThenLoad).map fun r => (r.2.node 1).cache.getState) = some .S := by decide
  rw [hr] at hS
  have hrun : Run (FamilyStep Sys.Step) (fun _ : Unit => Sys.init (byte 0)) _ _ := (Sys.run_follow hr).at (b := ())
  have h := answered_once (fun _ => byte 0) hrun () 1
  have hS' : (r.2.node 1).cache.getState = .S := Option.some.inj hS
  rw [update_self, hS'] at h
  exact ⟨r.1, by rw [hr]; rfl, h⟩

end Msi
