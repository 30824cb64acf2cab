import CompArch.Msi.Moves
import Mathlib.Data.Finset.Card
/-!
# The invariant of the phases

One lemma for each thing that can happen to the phases. A cache that only
moves on with its own transaction keeps every link (`Inv.move`); what is left
are the steps of the directory and a forward being served.
-/

namespace Msi
open Function

attribute [grind =] Function.update_apply

variable {C : Type}

namespace Abs
variable [Fintype C] [DecidableEq C]

/-- The state before any request. -/
def init : Abs C := ⟨fun _ => .idle, .I, fun _ => 0, fun _ => 0⟩

theorem Inv.init : (Abs.init : Abs C).Inv := by
  constructor
  case acks => intro d; simp [Abs.init, outstanding, acksOk, Phase.inv]
  all_goals
    simp [Abs.init, Phase.next, Phase.readFrom, Phase.writeFrom, Phase.atMemory, Phase.downgrades, Phase.owner,
      Phase.sharer, Phase.holds]

/-! ## Counting acknowledgements -/

theorem outstanding_congr {a b : Abs C} {d : C} (hi : ∀ x, (b.ph x).inv = some d ↔ (a.ph x).inv = some d)
    (hf : b.inFlight d = a.inFlight d) : b.outstanding d = a.outstanding d := by
  simp only [outstanding, hf]
  congr 2
  exact Finset.filter_congr fun x _ => hi x

/-- A consumed invalidation. -/
theorem outstanding_consume {a : Abs C} {c d : C} {p : Phase C} (hc : (a.ph c).inv = some d) (hp : p.inv = none)
    (dir : DirPhase C) (k : C → Int) (d' : C) :
    outstanding ⟨update a.ph c p, dir, update a.inFlight d (a.inFlight d + 1), k⟩ d' = a.outstanding d' := by
  by_cases hd : d' = d
  · subst hd
    have he : (Finset.univ.filter fun x => (update a.ph c p x).inv = some d') =
        (Finset.univ.filter fun x => (a.ph x).inv = some d').erase c := by
      ext x
      simp only [Finset.mem_filter, Finset.mem_univ, true_and, Finset.mem_erase]
      grind
    have hm : c ∈ Finset.univ.filter fun x => (a.ph x).inv = some d' := by simpa using hc
    have := Finset.card_erase_add_one hm
    simp only [outstanding, he, update_self]
    omega
  · exact outstanding_congr (fun x => by grind) (by simp [hd])

/-- While an invalidation for `d` is pending, `d` waits for acknowledgements. -/
theorem waits_of_inv {a : Abs C} {c d : C} (hc : (a.ph c).inv = some d) :
    0 < a.outstanding d := by
  have hm : c ∈ Finset.univ.filter fun x => (a.ph x).inv = some d := by simpa using hc
  have := Finset.card_pos.2 ⟨c, hm⟩
  simp only [outstanding]
  omega

/-- A cache that waits for acknowledgements will hold the block. -/
theorem Inv.holds_of_waits {a : Abs C} (h : a.Inv) {d : C} (hd : 0 < a.outstanding d) :
    (a.ph d).holds = true ∧ (a.ph d).state ≠ .M ∧ (a.ph d).state ≠ .MI_A ∧ (a.ph d).inv = none := by
  have hk := h.acks d
  cases hp : a.ph d with
  | excl g x => cases g <;> simp [hp, acksOk, Phase.holds, Phase.state, Phase.inv] at hk ⊢ <;> omega
  | _ => simp [hp, acksOk] at hk; omega

/-! ## One cache moves on -/

theorem Inv.move {a : Abs C} (h : a.Inv) {c : C} {p : Phase C} (hm : (a.ph c).Moves p) {f : C → Nat} {k : C → Int}
    (hk : ∀ d, acksOk (outstanding ⟨update a.ph c p, a.dir, f, k⟩ d) (k d) (update a.ph c p d)) :
    Inv ⟨update a.ph c p, a.dir, f, k⟩ := by
  obtain ⟨hn, hg, hr, hw, ha, ho, hs, hh⟩ := hm
  constructor
  case next_getS => have := h.next_getS; grind
  case next_getM => have := h.next_getM; grind
  case fetch_shared => have := h.fetch_shared; grind
  case fetch_own => have := h.fetch_own; grind
  case writeback => have := h.writeback; grind
  case downgrade => have := h.downgrade; grind
  case owner => have := h.owner; grind
  case sharer => have := h.sharer; grind
  case downgrade_sharer => have := h.downgrade_sharer; grind
  case holder => have := h.holder; grind
  case holder_unique => have := h.holder_unique; grind
  case held =>
    intro hg
    obtain ⟨e, he⟩ := h.held hg
    exact ⟨e, by grind⟩
  case acks => exact hk

/-- A move that touches no invalidation and no acknowledgement. -/
theorem Inv.move_own {a : Abs C} (h : a.Inv) {c : C} {p : Phase C} (hm : (a.ph c).Moves p)
    (hi : p.inv = (a.ph c).inv) {k : Int} (hk : acksOk (a.outstanding c) k p) :
    Inv ⟨update a.ph c p, a.dir, a.inFlight, update a.pending c k⟩ := by
  refine h.move hm fun d => ?_
  have ho : outstanding ⟨update a.ph c p, a.dir, a.inFlight, update a.pending c k⟩ d = a.outstanding d :=
    outstanding_congr (fun x => by grind) rfl
  have := h.acks d
  grind

/-- The same, with `pendingAcks` untouched. -/
theorem Inv.move_keep {a : Abs C} (h : a.Inv) {c : C} {p : Phase C} (hm : (a.ph c).Moves p)
    (hi : p.inv = (a.ph c).inv) (hk : acksOk (a.outstanding c) (a.pending c) p) :
    Inv ⟨update a.ph c p, a.dir, a.inFlight, a.pending⟩ := by
  have := h.move_own hm hi hk
  rwa [update_eq_self] at this

/-- A cache answers an invalidation. -/
theorem Inv.move_inv {a : Abs C} (h : a.Inv) {c d : C} {p : Phase C} (hm : (a.ph c).Moves p)
    (hc : (a.ph c).inv = some d) (hp : p.inv = none) (hk : acksOk (a.outstanding c) (a.pending c) p) :
    Inv ⟨update a.ph c p, a.dir, update a.inFlight d (a.inFlight d + 1), a.pending⟩ := by
  refine h.move hm fun e => ?_
  rw [outstanding_consume hc hp]
  have := h.acks e
  grind

/-- A cache takes an acknowledgement. -/
theorem Inv.move_ack {a : Abs C} (h : a.Inv) {c : C} {p : Phase C} (hm : (a.ph c).Moves p)
    (hi : p.inv = (a.ph c).inv) {m : Nat} (hf : a.inFlight c = m + 1) {k : Int}
    (hk : acksOk (a.outstanding c - 1) k p) :
    Inv ⟨update a.ph c p, a.dir, update a.inFlight c m, update a.pending c k⟩ := by
  refine h.move hm fun d => ?_
  by_cases hd : d = c
  · subst hd
    have ho : outstanding ⟨update a.ph d p, a.dir, a.inFlight, a.pending⟩ d = a.outstanding d :=
      outstanding_congr (fun x => by grind) rfl
    have ho' : outstanding ⟨update a.ph d p, a.dir, update a.inFlight d m, update a.pending d k⟩ d =
        a.outstanding d - 1 := by
      simp only [outstanding, update_self, hf] at ho ⊢
      omega
    rw [ho', update_self, update_self]
    exact hk
  · have ho : outstanding ⟨update a.ph c p, a.dir, update a.inFlight c m, update a.pending c k⟩ d =
        a.outstanding d := outstanding_congr (fun x => by grind) (by simp [hd])
    have := h.acks d
    grind

/-! ## A forward is served -/

theorem Inv.serveS {a : Abs C} (h : a.Inv) {c r : C} {p : Phase C} (hx : (a.ph c).next = some (.getS r))
    (hp : (a.ph c).Serves p) (hk : acksOk (a.outstanding c) (a.pending c) p) :
    a.dir = .MS_D c ∧ a.ph r = .getSFwd c ∧ r ≠ c ∧
      Inv ⟨update (update a.ph c p) r (.getSData false none), .MS_D_data c, a.inFlight, a.pending⟩ := by
  obtain ⟨hn, hg, hr, hw, ha, ho, hh, hi, hs, hq⟩ := hp
  have hr' : (a.ph r).readFrom = some c := (h.next_getS c r).1 hx
  have hrp : a.ph r = .getSFwd c := by
    cases e : a.ph r <;> simp [e, Phase.readFrom] at hr'
    rw [hr']
  have hne : r ≠ c := by grind
  have hd : a.dir = .MS_D c := (h.downgrade c).1 (by cases e : a.ph c <;> grind)
  refine ⟨hd, hrp, hne, ?_⟩
  have hou : ∀ d, outstanding ⟨update (update a.ph c p) r (.getSData false none), .MS_D_data c, a.inFlight,
      a.pending⟩ d = a.outstanding d := fun d => outstanding_congr (fun x => by grind) rfl
  constructor
  case next_getS => have := h.next_getS; have := h.next_getS c; grind
  case next_getM => have := h.next_getM; grind
  case fetch_shared => have := h.fetch_shared; grind
  case fetch_own => have := h.fetch_own; grind
  case writeback => have := h.writeback; grind
  case downgrade => have := h.downgrade; grind
  case owner => have := h.owner; grind
  case sharer => have := h.sharer; grind
  case downgrade_sharer => have := h.downgrade_sharer; grind
  case holder => have := h.holder; have := h.holder_unique; grind
  case holder_unique => have := h.holder_unique; grind
  case held => grind
  case acks => intro d; have := h.acks d; grind

/-- A requestor of a forwarded GETM has no old copy any more when the owner answers. -/
theorem Inv.forwarded_of_writeFrom {a : Abs C} (h : a.Inv) {c r : C} (hr : (a.ph r).writeFrom = some c)
    (hc : (a.ph c).holds = true) (ho : a.outstanding c = 0) : ∃ x, a.ph r = .excl (.forwarded c) x := by
  cases e : a.ph r with
  | excl g x =>
    cases g with
    | forwarded e' =>
      simp only [e, Phase.writeFrom, Option.some.injEq] at hr
      exact ⟨x, by rw [hr]⟩
    | forwardedS e' d =>
      -- the invalidation would be for the holder, which waits for nothing
      have hw := waits_of_inv (a := a) (c := r) (d := d) (by rw [e]; rfl)
      have : d = c := h.holder_unique d c (h.holds_of_waits hw).1 hc
      grind
    | _ => simp [e, Phase.writeFrom] at hr
  | _ => simp [e, Phase.writeFrom] at hr

theorem Inv.serveM {a : Abs C} (h : a.Inv) {c r : C} {p : Phase C} (hx : (a.ph c).next = some (.getM r))
    (hp : (a.ph c).Serves p) (hk : acksOk (a.outstanding c) (a.pending c) p) (hz : a.outstanding c = 0) :
    ∃ x, a.ph r = .excl (.forwarded c) x ∧ r ≠ c ∧
      Inv ⟨update (update a.ph c p) r (.excl .fromOwner x), a.dir, a.inFlight, a.pending⟩ := by
  obtain ⟨hn, hg, hr, hw, ha, ho, hh, hi, hs, hq⟩ := hp
  obtain ⟨x, hrp⟩ := h.forwarded_of_writeFrom ((h.next_getM c r).1 hx) hq.2.2.2.1 hz
  have hne : r ≠ c := by grind
  refine ⟨x, hrp, hne, ?_⟩
  have hou : ∀ d, outstanding ⟨update (update a.ph c p) r (.excl .fromOwner x), a.dir, a.inFlight, a.pending⟩ d =
      a.outstanding d := fun d => outstanding_congr (fun x => by grind) rfl
  obtain ⟨hgc, hoc, hsc⟩ := Phase.links_of_next_getM hx
  obtain ⟨hgr, hor, hsr⟩ := Phase.links_excl (.forwarded c) .fromOwner x
  constructor
  case next_getS =>
    intro e d
    have := h.next_getS e d
    have := h.next_getS c d
    have := h.next_getS e r
    have := h.next_getS r d
    grind
  case next_getM =>
    intro e d
    have := h.next_getM e d
    have := h.next_getM c d
    have := h.next_getM e r
    have := h.next_getM r d
    grind
  case fetch_shared => have := h.fetch_shared; grind
  case fetch_own => have := h.fetch_own; grind
  case writeback => have := h.writeback; grind
  case downgrade => have := h.downgrade; grind
  case owner => have := h.owner; grind
  case sharer => have := h.sharer; grind
  case downgrade_sharer => have := h.downgrade_sharer; have := h.downgrade; have := h.owner; grind
  case holder => have := h.holder; have := h.holder_unique; have := h.downgrade; have := h.owner; grind
  case holder_unique => have := h.holder_unique; grind
  case held => exact fun _ => ⟨r, by grind⟩
  case acks => intro d; have := h.acks d; grind

/-! ## The directory turns to one cache -/

theorem Inv.turn {a : Abs C} (h : a.Inv) {c : C} {p : Phase C} {g' : DirPhase C}
    (ht : Turns c (a.ph c) p a.dir g') (hk : acksOk (a.outstanding c) (a.pending c) p) :
    Inv ⟨update a.ph c p, g', a.inFlight, a.pending⟩ := by
  obtain ⟨hn, hg, hr, hw, hi, ho, hd, h1, h2, h3, h4, h5, h6, h7, h8, h9⟩ := ht
  have hou : ∀ d, outstanding ⟨update a.ph c p, g', a.inFlight, a.pending⟩ d = a.outstanding d :=
    fun d => outstanding_congr (fun x => by grind) rfl
  constructor
  case next_getS => have := h.next_getS; grind
  case next_getM => have := h.next_getM; grind
  case fetch_shared => have := h.fetch_shared; grind
  case fetch_own => have := h.fetch_own; grind
  case writeback => have := h.writeback; grind
  case downgrade => have := h.downgrade; grind
  case owner => have := h.owner; grind
  case sharer =>
    intro d _
    have := h.sharer d
    have := DirPhase.shares_iff (g := a.dir)
    have := DirPhase.shares_iff (g := g')
    grind
  case downgrade_sharer => have := h.downgrade_sharer; grind
  case holder => have := h.holder; have := h.holder_unique; grind
  case holder_unique => have := h.holder_unique; have := h.holder; grind
  case held => exact fun hg => ⟨c, by grind⟩
  case acks => intro d; have := h.acks d; grind

/-- The directory moves on by itself: the old owner's data arrives, memory has it. -/
theorem Inv.settle {a : Abs C} (h : a.Inv) {e : C} {g : DirPhase C}
    (hg : a.dir = .MS_D_data e ∧ g = .MS_A e ∨ a.dir = .MS_A e ∧ g = .S) :
    Inv ⟨a.ph, g, a.inFlight, a.pending⟩ := by
  constructor
  case next_getS => exact h.next_getS
  case next_getM => exact h.next_getM
  case fetch_shared => have := h.fetch_shared; grind
  case fetch_own => have := h.fetch_own; grind
  case writeback => have := h.writeback; grind
  case downgrade => have := h.downgrade; grind
  case owner => have := h.owner; grind
  case sharer => have := h.sharer; grind
  case downgrade_sharer => grind
  case holder => have := h.holder; grind
  case holder_unique => exact h.holder_unique
  case held => grind
  case acks => exact h.acks

/-- The last sharer leaves. -/
theorem Inv.lastShared {a : Abs C} (h : a.Inv) {c : C} (hd : a.dir = .S) {m : Bool} (hc : a.ph c = .evictS m none)
    (hl : ∀ x, (a.ph x).sharer = true → x = c) :
    Inv ⟨update a.ph c (.evictSAck none), .I, a.inFlight, a.pending⟩ := by
  have hou : ∀ d, outstanding ⟨update a.ph c (.evictSAck none), .I, a.inFlight, a.pending⟩ d = a.outstanding d :=
    fun d => outstanding_congr (fun x => by grind) rfl
  constructor
  case next_getS => have := h.next_getS; grind
  case next_getM => have := h.next_getM; grind
  case fetch_shared => have := h.fetch_shared; grind
  case fetch_own => have := h.fetch_own; grind
  case writeback => have := h.writeback; grind
  case downgrade => have := h.downgrade; grind
  case owner => have := h.owner; grind
  case sharer => grind
  case downgrade_sharer => grind
  case holder => have := h.holder; grind
  case holder_unique => have := h.holder_unique; grind
  case held => grind
  case acks => intro d; have := h.acks d; grind

/-- A PUT that the directory only acknowledges. -/
theorem Inv.put {a : Abs C} (h : a.Inv) {c : C} {p : Phase C} (hp : (a.ph c).Acked p) :
    Inv ⟨update a.ph c p, a.dir, a.inFlight, a.pending⟩ := by
  have hk := h.acks c
  rcases hp with ⟨x, hc, rfl⟩ | ⟨m, i, hc, rfl⟩ | ⟨m, hc, rfl⟩ <;> rw [hc] at hk
  · exact h.move_keep (by rw [hc]; cases x <;> exact {}) (by rw [hc]; rfl) hk
  · exact h.move_keep (by rw [hc]; exact {}) (by rw [hc]; rfl) hk
  · exact h.move_keep (by rw [hc]; exact {}) (by rw [hc]; rfl) hk

/-! ## The directory forwards to the owner -/

/-- What the owner is doing while the directory is in `M`. -/
theorem Inv.owner_phase {a : Abs C} (h : a.Inv) {o : C} (hd : a.dir = .M o) :
    (∃ g, g ≠ .memory ∧ a.ph o = .excl g none) ∨ a.ph o = .evictM none := by
  have ho := (h.owner o).2 (.inl hd)
  have hm : (a.ph o).atMemory ≠ some .GETM := by rw [Ne, h.fetch_own o, hd]; simp
  cases hp : a.ph o with
  | excl g x =>
    cases x with
    | none => exact .inl ⟨g, by rintro rfl; simp [hp, Phase.atMemory] at hm, rfl⟩
    | some y => simp [hp, Phase.owner] at ho
  | evictM x =>
    cases x with
    | none => exact .inr rfl
    | some y => simp [hp, Phase.owner] at ho
  | _ => simp [hp, Phase.owner] at ho

theorem Inv.asked {a : Abs C} (h : a.Inv) {o : C} (hd : a.dir = .M o) (y : Next C) :
    (a.ph o).Asked y ((a.ph o).withNext y) := by
  rcases h.owner_phase hd with ⟨g, hg, hp⟩ | hp
  · rw [hp]
    cases g <;> first | exact absurd rfl hg | exact {}
  · rw [hp]
    exact {}

theorem Inv.forwardS {a : Abs C} (h : a.Inv) {c o : C} (hd : a.dir = .M o) (hc : a.ph c = .getS) :
    Inv ⟨update (update a.ph o ((a.ph o).withNext (.getS c))) c (.getSFwd o), .MS_D o, a.inFlight, a.pending⟩ := by
  obtain ⟨hn, hr, hw, ha, ho, hg, hs, hh, hi, hk⟩ := h.asked hd (.getS c)
  generalize (a.ph o).withNext (.getS c) = p at *
  have hne : c ≠ o := by grind
  have hou : ∀ d, outstanding ⟨update (update a.ph o p) c (.getSFwd o), .MS_D o, a.inFlight, a.pending⟩ d =
      a.outstanding d := fun d => outstanding_congr (fun x => by grind) rfl
  constructor
  case next_getS =>
    intro e d
    have := h.next_getS e d
    have := h.next_getS c d
    have := h.next_getS e c
    have := h.next_getS o d
    grind
  case next_getM =>
    intro e d
    have := h.next_getM e d
    have := h.next_getM c d
    have := h.next_getM e c
    have := h.next_getM o d
    grind
  case fetch_shared => have := h.fetch_shared; grind
  case fetch_own => have := h.fetch_own; grind
  case writeback => have := h.writeback; grind
  case downgrade => have := h.downgrade; grind
  case owner => have := h.owner; grind
  case sharer => have := h.sharer; grind
  case downgrade_sharer => have := h.downgrade_sharer; have := h.sharer; grind
  case holder => have := h.holder; have := h.holder_unique; grind
  case holder_unique => have := h.holder_unique; have := h.holder; grind
  case held =>
    intro _
    obtain ⟨e, he⟩ := h.held (.inl ⟨o, hd⟩)
    exact ⟨e, by grind⟩
  case acks => intro d; have := h.acks d; grind

theorem Inv.forwardM {a : Abs C} (h : a.Inv) {c o : C} (hd : a.dir = .M o) {q : Phase C}
    (hc : (a.ph c).Sent o q) :
    Inv ⟨update (update a.ph o ((a.ph o).withNext (.getM c))) c q, .M c, a.inFlight, a.pending⟩ := by
  obtain ⟨hn, hr, hw, ha, ho, hg, hs, hh, hi, hk⟩ := h.asked hd (.getM c)
  obtain ⟨hn', hr', hw', ha', ho', hg', hs', hh', hi', hk'⟩ := hc
  generalize (a.ph o).withNext (.getM c) = p at *
  have hne : c ≠ o := by grind
  have hou : ∀ d, outstanding ⟨update (update a.ph o p) c q, .M c, a.inFlight, a.pending⟩ d =
      a.outstanding d := fun d => outstanding_congr (fun x => by grind) rfl
  constructor
  case next_getS =>
    intro e d
    have := h.next_getS e d
    have := h.next_getS c d
    have := h.next_getS e c
    have := h.next_getS o d
    grind
  case next_getM =>
    intro e d
    have := h.next_getM e d
    have := h.next_getM c d
    have := h.next_getM e c
    have := h.next_getM o d
    grind
  case fetch_shared => have := h.fetch_shared; grind
  case fetch_own => have := h.fetch_own; grind
  case writeback => have := h.writeback; grind
  case downgrade => have := h.downgrade; grind
  case owner => have := h.owner; grind
  case sharer => have := h.sharer; grind
  case downgrade_sharer => have := h.downgrade_sharer; have := h.sharer; grind
  case holder => have := h.holder; have := h.holder_unique; grind
  case holder_unique => have := h.holder_unique; have := h.holder; grind
  case held =>
    intro _
    obtain ⟨e, he⟩ := h.held (.inl ⟨o, hd⟩)
    exact ⟨e, by grind⟩
  case acks => intro d; have := h.acks d; grind

/-! ## The directory invalidates the sharers -/

/-- While the directory is in `S` no invalidation is pending. -/
theorem Inv.inv_none {a : Abs C} (h : a.Inv) (hd : a.dir = .S) (x : C) : (a.ph x).inv = none := by
  cases hi : (a.ph x).inv with
  | none => rfl
  | some d =>
    have := (h.holds_of_waits (waits_of_inv hi)).1
    have := h.holder d this
    simp [hd] at this

/-- What a sharer is doing while the directory is in `S`. -/
theorem Inv.sharer_phase {a : Abs C} (h : a.Inv) (hd : a.dir = .S) {x : C} (hx : (a.ph x).sharer = true) :
    (∃ b, a.ph x = .getSData b none) ∨ a.ph x = .shared none ∨ a.ph x = .upgrade none ∨
      ∃ b, a.ph x = .evictS b none := by
  have hg : (a.ph x).downgrades = false := by have := h.downgrade x; grind
  have hm : (a.ph x).atMemory ≠ some .GETS := by rw [Ne, h.fetch_shared x, hd]; simp
  have hr : (a.ph x).readFrom = none := by
    cases hr : (a.ph x).readFrom with
    | none => rfl
    | some e =>
      have := (h.next_getS e x).2 hr
      have := h.downgrade e
      cases hp : a.ph e <;> grind
  cases hp : a.ph x <;> simp [hp, Phase.atMemory, Phase.readFrom] at hm hr <;> rw [hp] at hx hg
  case getSData b i => cases i <;> simp [Phase.sharer] at hx ⊢
  case shared i => cases i <;> simp [Phase.sharer] at hx ⊢
  case upgrade i => cases i <;> simp [Phase.sharer] at hx ⊢
  case evictS b i => cases i <;> simp [Phase.sharer] at hx ⊢
  case excl g y => rcases y with _ | _ | _ <;> simp [Phase.sharer, Phase.downgrades] at hx hg
  case evictM y => rcases y with _ | _ | _ <;> simp [Phase.sharer, Phase.downgrades] at hx hg
  all_goals simp [Phase.sharer] at hx

theorem Inv.invalidated {a : Abs C} (h : a.Inv) (hd : a.dir = .S) (c : C) {x : C} (hx : (a.ph x).sharer = true) :
    (a.ph x).SameLinks ((a.ph x).invalidate c) ∧ ((a.ph x).invalidate c).sharer = false ∧
      ((a.ph x).invalidate c).inv = some c := by
  rcases h.sharer_phase hd hx with ⟨b, hp⟩ | hp | hp | ⟨b, hp⟩ <;> rw [hp] <;> exact ⟨{}, rfl, rfl⟩

/-- The sharers a GETM of `c` invalidates. -/
def others (a : Abs C) (c : C) : Finset C := Finset.univ.filter fun x => x ≠ c ∧ (a.ph x).sharer = true

theorem Inv.grant {a : Abs C} (h : a.Inv) {c : C} (hd : a.dir = .S) {p : Phase C}
    (hc : (a.ph c).Granted (a.others c).card p) :
    Inv ⟨update (fun x => if (a.ph x).sharer then (a.ph x).invalidate c else a.ph x) c p, .M c, a.inFlight,
      a.pending⟩ := by
  obtain ⟨hn', hr', hw', ha', ho', hg', hs', hh', hi', hk'⟩ := hc
  obtain ⟨ph, hph⟩ : ∃ ph, ph = fun x => if (a.ph x).sharer then (a.ph x).invalidate c else a.ph x := ⟨_, rfl⟩
  rw [← hph]
  have hl : ∀ x, (a.ph x).SameLinks (ph x) ∧ (ph x).sharer = false ∧
      (ph x).inv = if (a.ph x).sharer then some c else none := by
    intro x
    simp only [hph]
    split
    case isTrue hx => exact h.invalidated hd c hx
    case isFalse hx => exact ⟨{}, by simpa using hx, h.inv_none hd x⟩
  have hlinks := fun x => (hl x).1
  have hshare := fun x => (hl x).2.1
  have hinv := fun x => (hl x).2.2
  have hnext := fun x => (hlinks x).next
  have hdown := fun x => (hlinks x).downgrades
  have hread := fun x => (hlinks x).readFrom
  have hwrite := fun x => (hlinks x).writeFrom
  have hmem := fun x => (hlinks x).atMemory
  have hown := fun x => (hlinks x).owner
  have hhold := fun x => (hlinks x).holds
  have hacks := fun x => (hlinks x).acks
  have hnone := h.inv_none hd
  have hc0 := hk' _ _ (h.acks c)
  have hou : ∀ d ≠ c, outstanding ⟨update ph c p, .M c, a.inFlight, a.pending⟩ d = a.outstanding d :=
    fun d hd => outstanding_congr (fun x => by grind) rfl
  have hoc : outstanding ⟨update ph c p, .M c, a.inFlight, a.pending⟩ c = (a.others c).card := by
    have hf : a.inFlight c = 0 := by
      have := hc0.1
      simp only [outstanding] at this
      omega
    simp only [outstanding, hf, Nat.add_zero, others]
    congr 1
    exact Finset.filter_congr fun x _ => by grind
  clear hph hl hlinks
  constructor
  case next_getS => have := h.next_getS; grind
  case next_getM => have := h.next_getM; grind
  case fetch_shared => have := h.fetch_shared; grind
  case fetch_own => have := h.fetch_own; grind
  case writeback => have := h.writeback; grind
  case downgrade => have := h.downgrade; grind
  case owner => have := h.owner; grind
  case sharer => have := h.sharer; grind
  case downgrade_sharer => have := h.downgrade_sharer; have := h.sharer; grind
  case holder => have := h.holder; have := h.holder_unique; grind
  case holder_unique => have := h.holder_unique; have := h.holder; grind
  case held => exact fun _ => ⟨c, by grind⟩
  case acks => intro d; have := h.acks d; grind

end Abs
end Msi
