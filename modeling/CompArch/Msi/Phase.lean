import CompArch.Msi.Cache
import CompArch.Msi.Directory
import Mathlib.Data.Fintype.Card
/-!
# Where a block's transactions are

The protocol seen from above. Every cache has at most one transaction on a
block, and a `Phase` says where it is and what still waits in the cache's
forward queue: first an invalidation, then a forward to serve, then the
acknowledgement of an eviction. Phases have no data and no messages, so a
state that the channels cannot be in has no phase.
-/

namespace Msi

/-- A forward a cache has to serve once it has the block: read or write
access goes on to `r`. -/
inductive Next (C : Type)
  | getS (r : C)
  | getM (r : C)
  deriving DecidableEq

/-- Where the block is on its way to a cache whose GETM the directory took. -/
inductive Grant (C : Type)
  | memory
  /-- Forwarded to `e`, which has not answered yet. -/
  | forwarded (e : C)
  /-- The same, with an invalidation for `d` of the old shared copy pending. -/
  | forwardedS (e d : C)
  | fromOwner
  /-- The directory's data, with `n` acknowledgements to collect. -/
  | fromDir (n : Nat)
  | fromDirS (n : Nat)
  /-- Only acknowledgements are missing. -/
  | acks
  | acksS
  | done
  deriving DecidableEq

inductive Phase (C : Type)
  | idle
  | getS
  | getSMem
  | getSFwd (e : C)
  | getSData (fromDir : Bool) (inv : Option C)
  | shared (inv : Option C)
  | getM
  /-- A sharer whose GETM is on its way. -/
  | upgrade (inv : Option C)
  | excl (g : Grant C) (next : Option (Next C))
  | evictM (next : Option (Next C))
  | evictMem
  | evictMAck (next : Option (Next C))
  /-- The PUT is a PUTM when the block was modified at the replacement. -/
  | evictS (modified : Bool) (inv : Option C)
  | evictSAck (inv : Option C)
  | evictI (modified : Bool)
  | evictIAck
  deriving DecidableEq

/-- The directory, with its owner and the cache its memory request or its
forward is for. `MS_D` is split by whether the old owner has answered. -/
inductive DirPhase (C : Type)
  | I | S
  | M (o : C)
  | IS_D (c : C)
  | IM_D (c : C)
  | MI_A (c : C)
  | MS_D (e : C)
  | MS_D_data (e : C)
  | MS_A (e : C)
  deriving DecidableEq

namespace Phase
variable {C : Type}

@[grind =] def state : Phase C → L1Cache.State
  | idle => .I
  | getS | getSMem | getSFwd _ | getSData _ _ => .IS_D
  | shared _ => .S
  | getM | excl .memory _ | excl (.forwarded _) _ | excl .fromOwner _ | excl (.fromDir _) _ => .IM_AD
  | upgrade _ | excl (.forwardedS _ _) _ | excl (.fromDirS _) _ => .SM_AD
  | excl .acks _ => .IM_A
  | excl .acksS _ => .SM_A
  | excl .done _ => .M
  | evictM _ | evictMem | evictMAck _ => .MI_A
  | evictS _ _ | evictSAck _ => .SI_A
  | evictI _ | evictIAck => .II_A

/-- The cache a pending invalidation is to be acknowledged to. -/
@[grind =] def inv : Phase C → Option C
  | getSData _ i | shared i | upgrade i | evictS _ i | evictSAck i => i
  | excl (.forwardedS _ d) _ => some d
  | idle | getS | getSMem | getSFwd _ | getM | evictM _ | evictMem | evictMAck _ | evictI _ | evictIAck
  | excl .memory _ | excl (.forwarded _) _ | excl .fromOwner _ | excl (.fromDir _) _ | excl (.fromDirS _) _
  | excl .acks _ | excl .acksS _ | excl .done _ => none

@[grind =] def next : Phase C → Option (Next C)
  | excl _ x | evictM x | evictMAck x => x
  | idle | getS | getSMem | getSFwd _ | getSData _ _ | shared _ | getM | upgrade _ | evictMem | evictS _ _
  | evictSAck _ | evictI _ | evictIAck => none

/-- The cache has a forwarded GETS to serve. -/
@[grind =] def downgrades : Phase C → Bool
  | excl _ (some (.getS _)) | evictM (some (.getS _)) | evictMAck (some (.getS _)) => true
  | excl _ none | excl _ (some (.getM _)) | evictM none | evictM (some (.getM _))
  | evictMAck none | evictMAck (some (.getM _))
  | idle | getS | getSMem | getSFwd _ | getSData _ _ | shared _ | getM | upgrade _ | evictMem | evictS _ _
  | evictSAck _ | evictI _ | evictIAck => false

/-- The cache that has to answer this one's forwarded GETS. -/
@[grind =] def readFrom : Phase C → Option C
  | getSFwd e => some e
  | idle | getS | getSMem | getSData _ _ | shared _ | getM | upgrade _ | excl _ _ | evictM _ | evictMem
  | evictMAck _ | evictS _ _ | evictSAck _ | evictI _ | evictIAck => none

/-- The cache that has to answer this one's forwarded GETM. -/
@[grind =] def writeFrom : Phase C → Option C
  | excl (.forwarded e) _ | excl (.forwardedS e _) _ => some e
  | idle | getS | getSMem | getSFwd _ | getSData _ _ | shared _ | getM | upgrade _ | evictM _ | evictMem
  | evictMAck _ | evictS _ _ | evictSAck _ | evictI _ | evictIAck
  | excl .memory _ | excl .fromOwner _ | excl (.fromDir _) _ | excl (.fromDirS _) _
  | excl .acks _ | excl .acksS _ | excl .done _ => none

/-- The request whose memory access is in progress. -/
@[grind =] def atMemory : Phase C → Option CoherenceRequestType
  | getSMem => some .GETS
  | excl .memory _ => some .GETM
  | evictMem => some .PUTM
  | idle | getS | getSFwd _ | getSData _ _ | shared _ | getM | upgrade _ | evictM _
  | evictMAck _ | evictS _ _ | evictSAck _ | evictI _ | evictIAck
  | excl (.forwarded _) _ | excl (.forwardedS _ _) _ | excl .fromOwner _ | excl (.fromDir _) _
  | excl (.fromDirS _) _ | excl .acks _ | excl .acksS _ | excl .done _ => none

/-- The directory lists the cache in `Sharers`. -/
@[grind =] def sharer : Phase C → Bool
  | getSMem | getSFwd _ | getSData _ none | shared none | upgrade none | evictS _ none => true
  | excl _ (some (.getS _)) | evictM (some (.getS _)) => true
  | idle | getS | getM | getSData _ (some _) | shared (some _) | upgrade (some _) | evictS _ (some _)
  | excl _ none | excl _ (some (.getM _)) | evictM none | evictM (some (.getM _))
  | evictMem | evictMAck _ | evictSAck _ | evictI _ | evictIAck => false

/-- The directory has the cache as `Owner`. -/
@[grind =] def owner : Phase C → Bool
  | excl _ none | evictM none => true
  | excl _ (some _) | evictM (some _)
  | idle | getS | getSMem | getSFwd _ | getSData _ _ | shared _ | getM | upgrade _ | evictMem | evictMAck _
  | evictS _ _ | evictSAck _ | evictI _ | evictIAck => false

/-- The cache has the block for writing, or is the next to get it. -/
@[grind =] def holds : Phase C → Bool
  | excl .memory _ | excl .fromOwner _ | excl (.fromDir _) _ | excl (.fromDirS _) _
  | excl .acks _ | excl .acksS _ | excl .done _ | evictM _ | evictMAck (some _) => true
  | excl (.forwarded _) _ | excl (.forwardedS _ _) _ | evictMAck none
  | idle | getS | getSMem | getSFwd _ | getSData _ _ | shared _ | getM | upgrade _ | evictMem
  | evictS _ _ | evictSAck _ | evictI _ | evictIAck => false

/-- A forward for the owner joins what the cache has. -/
@[grind =] def withNext (y : Next C) : Phase C → Phase C
  | excl g none => excl g (some y)
  | evictM none => evictM (some y)
  | excl g (some x) => excl g (some x)
  | evictM (some x) => evictM (some x)
  | idle => idle
  | getS => getS
  | getSMem => getSMem
  | getSFwd e => getSFwd e
  | getSData b i => getSData b i
  | shared i => shared i
  | getM => getM
  | upgrade i => upgrade i
  | evictMem => evictMem
  | evictMAck x => evictMAck x
  | evictS b i => evictS b i
  | evictSAck i => evictSAck i
  | evictI b => evictI b
  | evictIAck => evictIAck

/-- A pending invalidation for `d` joins what the cache has. -/
@[grind =] def invalidate (d : C) : Phase C → Phase C
  | getSData b none => getSData b (some d)
  | shared none => shared (some d)
  | upgrade none => upgrade (some d)
  | evictS b none => evictS b (some d)
  | idle => idle
  | getS => getS
  | getSMem => getSMem
  | getSFwd e => getSFwd e
  | getSData b (some c) => getSData b (some c)
  | shared (some c) => shared (some c)
  | getM => getM
  | upgrade (some c) => upgrade (some c)
  | excl g x => excl g x
  | evictM x => evictM x
  | evictMem => evictMem
  | evictMAck x => evictMAck x
  | evictS b (some c) => evictS b (some c)
  | evictSAck i => evictSAck i
  | evictI b => evictI b
  | evictIAck => evictIAck

/-- What a cache is doing whose request is at memory. -/
theorem of_atMemory {p : Phase C} {t : CoherenceRequestType} (h : p.atMemory = some t) :
    t = .GETS ∧ p = .getSMem ∨ (t = .GETM ∧ ∃ z, p = .excl .memory z) ∨ t = .PUTM ∧ p = .evictMem := by
  cases p with
  | getSMem =>
    cases h
    exact .inl ⟨rfl, rfl⟩
  | evictMem =>
    cases h
    exact .inr (.inr ⟨rfl, rfl⟩)
  | excl g z =>
    cases g with
    | memory =>
      cases h
      exact .inr (.inl ⟨rfl, z, rfl⟩)
    | _ => cases h
  | _ => cases h

end Phase

/-- Phases of all caches and of the directory, and for each cache the
acknowledgements in flight to it and its TBE's `pendingAcks`. -/
structure Abs (C : Type) where
  ph : C → Phase C
  dir : DirPhase C
  inFlight : C → Nat
  pending : C → Int

namespace Abs
variable {C : Type} [Fintype C] [DecidableEq C]

/-- Invalidations and acknowledgements that `d`'s GETM still has in flight. -/
def outstanding (a : Abs C) (d : C) : Nat :=
  (Finset.univ.filter fun c => (a.ph c).inv = some d).card + a.inFlight d

/-- The acknowledgements a cache still expects are those in flight. -/
@[grind =] def acksOk (total : Nat) (pending : Int) : Phase C → Prop
  | .excl (.fromDir n) _ | .excl (.fromDirS n) _ => (total : Int) = n + pending ∧ pending ≤ 0
  | .excl .acks _ | .excl .acksS _ => (total : Int) = pending ∧ 0 < pending
  | .getM | .upgrade _ | .excl .memory _ | .excl (.forwarded _) _ | .excl (.forwardedS _ _) _
  | .excl .fromOwner _ => total = 0 ∧ pending = 0
  | .idle | .getS | .getSMem | .getSFwd _ | .getSData _ _ | .shared _ | .excl .done _ | .evictM _ | .evictMem
  | .evictMAck _ | .evictS _ _ | .evictSAck _ | .evictI _ | .evictIAck => total = 0

/-- What the phases have to do with each other and with the directory. -/
structure Inv (a : Abs C) : Prop where
  next_getS : ∀ e r, (a.ph e).next = some (.getS r) ↔ (a.ph r).readFrom = some e
  next_getM : ∀ e r, (a.ph e).next = some (.getM r) ↔ (a.ph r).writeFrom = some e
  fetch_shared : ∀ c, (a.ph c).atMemory = some .GETS ↔ a.dir = .IS_D c
  fetch_own : ∀ c, (a.ph c).atMemory = some .GETM ↔ a.dir = .IM_D c
  writeback : ∀ c, (a.ph c).atMemory = some .PUTM ↔ a.dir = .MI_A c
  downgrade : ∀ e, (a.ph e).downgrades = true ↔ a.dir = .MS_D e
  owner : ∀ c, (a.ph c).owner = true ↔ a.dir = .M c ∨ a.dir = .IM_D c
  /-- A sharer is recorded only while the directory can hand out copies. -/
  sharer : ∀ c, (a.ph c).sharer = true →
    a.dir = .S ∨ a.dir = .IS_D c ∨ ∃ e, a.dir = .MS_D e ∨ a.dir = .MS_D_data e ∨ a.dir = .MS_A e
  downgrade_sharer : ∀ c e, a.dir = .MS_D e → (a.ph c).sharer = true → c = e ∨ (a.ph c).readFrom = some e
  holder : ∀ c, (a.ph c).holds = true → (∃ o, a.dir = .M o) ∨ a.dir = .IM_D c ∨ ∃ e, a.dir = .MS_D e
  holder_unique : ∀ c d, (a.ph c).holds = true → (a.ph d).holds = true → c = d
  held : (∃ o, a.dir = .M o) ∨ (∃ e, a.dir = .MS_D e) → ∃ c, (a.ph c).holds = true
  acks : ∀ d, acksOk (a.outstanding d) (a.pending d) (a.ph d)

end Abs

end Msi
