import CompArch.Lts
import CompArch.Msi.Cache
import CompArch.Msi.Directory
import Mathlib.Data.Multiset.AddSub
/-!
# One block in the whole system

The caches, the home directory, the memory controller and the network, as far
as one block is concerned. Requests and forwards are FIFO between a cache and
the directory, responses arrive in any order, and memory answers each request
once, with the data it was sent.
-/

namespace Msi

open Function Slicc

/-- A cache and the messages between it and the rest of the system. -/
structure Node (C : Type) (n : Nat) where
  cache : L1Cache.Block n := {}
  requestFromCache : List (RequestMsg C n) := []
  forwardToCache : List (RequestMsg C n) := []
  responseToCache : Multiset (ResponseMsg C n) := 0

/-- A cache's own side of a transition: what it popped and what it queued. -/
def Node.after {C : Type} {n : Nat} [DecidableEq C] (y : Node C n) (x : L1Cache.Ctx C n) : Node C n where
  cache := x.block
  requestFromCache := y.requestFromCache ++ x.requests
  forwardToCache := if x.poppedForward then y.forwardToCache.tail else y.forwardToCache
  responseToCache :=
    if x.poppedResponse then x.response.elim y.responseToCache y.responseToCache.erase else y.responseToCache

structure Sys (C : Type) (n : Nat) where
  node : C → Node C n
  dir : Directory.Block C n
  responseToDir : Multiset (ResponseMsg C n)
  /-- Requests to memory, with the answers they will get. -/
  memBuffer : Multiset (MemoryMsg C n)

/-- An event or a message for one controller. Of a queue only the head is
named; where the order is free, the message is. -/
inductive Input (C : Type) (n : Nat)
  | mandatory (c : C) (type : RubyRequestType)
  | replacement (c : C)
  | forward (c : C)
  | response (c : C) (m : ResponseMsg C n)
  | request (c : C)
  | data (m : ResponseMsg C n)
  | memory (m : MemoryMsg C n)

namespace Sys
variable {C : Type} {n : Nat} [DecidableEq C]

/-- No cache has the block, and the directory's copy is `d`. -/
def init (d : DataBlock n) : Sys C n where
  node _ := {}
  dir := { entry := { dataBlk := d } }
  responseToDir := 0
  memBuffer := 0

/-! ## Sending and popping -/

def respond (s : Sys C n) : MachineID C × ResponseMsg C n → Sys C n
  | (.L1Cache c, m) =>
    { s with node := update s.node c { s.node c with responseToCache := m ::ₘ (s.node c).responseToCache } }
  | (.Directory, m) => { s with responseToDir := m ::ₘ s.responseToDir }

/-- The directory's forward joins the queue of every cache it is for. -/
def forward (s : Sys C n) (f : Finset (MachineID C) × RequestMsg C n) : Sys C n :=
  { s with node := fun c =>
      if .L1Cache c ∈ f.1 then { s.node c with forwardToCache := (s.node c).forwardToCache ++ [f.2] } else s.node c }

/-- What a transition of cache `c` leaves behind. -/
def afterCache (s : Sys C n) (c : C) (x : L1Cache.Ctx C n) : Sys C n :=
  x.responses.foldl respond { s with node := update s.node c ((s.node c).after x) }

/-- What a transition of the directory leaves behind; a popped request is `src`'s. -/
def afterDir (s : Sys C n) (src : Option C) (x : Directory.Ctx C n) : Sys C n :=
  let node := fun c => { s.node c with
    requestFromCache := if x.poppedRequest ∧ src = some c then (s.node c).requestFromCache.tail
      else (s.node c).requestFromCache }
  let responseToDir :=
    if x.poppedResponse then x.response.elim s.responseToDir s.responseToDir.erase else s.responseToDir
  let memBuffer := if x.poppedMemory then x.memory.elim s.memBuffer s.memBuffer.erase else s.memBuffer
  x.forwards.foldl forward
    (x.responses.foldl respond ⟨node, x.block, responseToDir, ↑x.memoryRequests + memBuffer⟩)

/-- What the caches tell their cores and the state after `c`'s transition. -/
def fromCache (s : Sys C n) (c : C) (e : Except Stop (L1Cache.Ctx C n)) :
    Except Stop (List (C × Callback n) × Sys C n) := do
  let x ← e
  return (x.callbacks.map (c, ·), s.afterCache c x)

/-- The directory tells the cores nothing. -/
def fromDir (s : Sys C n) (src : Option C) (e : Except Stop (Directory.Ctx C n)) :
    Except Stop (List (C × Callback n) × Sys C n) := do
  let x ← e
  return ([], s.afterDir src x)

theorem fromCache_ok {s s' : Sys C n} {c : C} {e : Except Stop (L1Cache.Ctx C n)} {o : List (C × Callback n)}
    (h : s.fromCache c e = .ok (o, s')) : ∃ x, e = .ok x ∧ o = x.callbacks.map (c, ·) ∧ s' = s.afterCache c x := by
  cases e with
  | error e => cases h
  | ok x =>
    cases h
    exact ⟨x, rfl, rfl, rfl⟩

theorem fromDir_ok {s s' : Sys C n} {src : Option C} {e : Except Stop (Directory.Ctx C n)} {o : List (C × Callback n)}
    (h : s.fromDir src e = .ok (o, s')) : ∃ x, e = .ok x ∧ o = [] ∧ s' = s.afterDir src x := by
  cases e with
  | error e => cases h
  | ok x =>
    cases h
    exact ⟨x, rfl, rfl, rfl⟩

variable [Directory.Memory C n]

/-- Delivers an input, if it is there. `stored` is what a completing store writes. -/
def deliver (s : Sys C n) (stored : DataBlock n) : Input C n → Option (Except Stop (List (C × Callback n) × Sys C n))
  | .mandatory c r => some (s.fromCache c (L1Cache.onMandatory c (s.node c).cache stored r))
  | .replacement c =>
    if (s.node c).cache.entry.isSome then some (s.fromCache c (L1Cache.onReplacement c (s.node c).cache)) else none
  | .forward c =>
    (s.node c).forwardToCache.head?.map fun m => s.fromCache c (L1Cache.onForward c (s.node c).cache m)
  | .response c m =>
    if m ∈ (s.node c).responseToCache then some (s.fromCache c (L1Cache.onResponse c (s.node c).cache stored m))
    else none
  | .request c => (s.node c).requestFromCache.head?.map fun m => s.fromDir (some c) (Directory.onRequest s.dir m)
  | .data m => if m ∈ s.responseToDir then some (s.fromDir none (Directory.onResponse s.dir m)) else none
  | .memory m => if m ∈ s.memBuffer then some (s.fromDir none (Directory.onMemory s.dir m)) else none

/-- Some input is delivered and its transition completes. -/
inductive Step (s : Sys C n) : List (C × Callback n) → Sys C n → Prop
  | deliver {stored : DataBlock n} {i : Input C n} {o : List (C × Callback n)} {s' : Sys C n} :
      s.deliver stored i = some (.ok (o, s')) → Step s o s'

/-- The transitions behind an input that completes. -/
inductive Acted (s : Sys C n) (stored : DataBlock n) : Input C n → List (C × Callback n) → Sys C n → Prop
  | mandatory (c : C) (r : RubyRequestType) (x : L1Cache.Ctx C n) :
      L1Cache.onMandatory c (s.node c).cache stored r = .ok x →
      Acted s stored (.mandatory c r) (x.callbacks.map (c, ·)) (s.afterCache c x)
  | replacement (c : C) (x : L1Cache.Ctx C n) : (s.node c).cache.entry.isSome = true →
      L1Cache.onReplacement c (s.node c).cache = .ok x →
      Acted s stored (.replacement c) (x.callbacks.map (c, ·)) (s.afterCache c x)
  | forward (c : C) (m : RequestMsg C n) (x : L1Cache.Ctx C n) : (s.node c).forwardToCache.head? = some m →
      L1Cache.onForward c (s.node c).cache m = .ok x →
      Acted s stored (.forward c) (x.callbacks.map (c, ·)) (s.afterCache c x)
  | response (c : C) (m : ResponseMsg C n) (x : L1Cache.Ctx C n) : m ∈ (s.node c).responseToCache →
      L1Cache.onResponse c (s.node c).cache stored m = .ok x →
      Acted s stored (.response c m) (x.callbacks.map (c, ·)) (s.afterCache c x)
  | request (c : C) (m : RequestMsg C n) (x : Directory.Ctx C n) : (s.node c).requestFromCache.head? = some m →
      Directory.onRequest s.dir m = .ok x → Acted s stored (.request c) [] (s.afterDir (some c) x)
  | data (m : ResponseMsg C n) (x : Directory.Ctx C n) : m ∈ s.responseToDir → Directory.onResponse s.dir m = .ok x →
      Acted s stored (.data m) [] (s.afterDir none x)
  | memory (m : MemoryMsg C n) (x : Directory.Ctx C n) : m ∈ s.memBuffer → Directory.onMemory s.dir m = .ok x →
      Acted s stored (.memory m) [] (s.afterDir none x)

theorem acted {s s' : Sys C n} {stored : DataBlock n} {i : Input C n} {o : List (C × Callback n)}
    (h : s.deliver stored i = some (.ok (o, s'))) : s.Acted stored i o s' := by
  cases i with
  | mandatory c r =>
    obtain ⟨x, hx, rfl, rfl⟩ := fromCache_ok (Option.some.inj h)
    exact .mandatory c r x hx
  | replacement c =>
    obtain ⟨hv, h⟩ : (s.node c).cache.entry.isSome = true ∧ _ = Except.ok (o, s') := by simpa [deliver] using h
    obtain ⟨x, hx, rfl, rfl⟩ := fromCache_ok h
    exact .replacement c x hv hx
  | forward c =>
    obtain ⟨m, hm, h⟩ := Option.map_eq_some_iff.1 h
    obtain ⟨x, hx, rfl, rfl⟩ := fromCache_ok h
    exact .forward c m x hm hx
  | response c m =>
    obtain ⟨hm, h⟩ : m ∈ (s.node c).responseToCache ∧ _ = Except.ok (o, s') := by simpa [deliver] using h
    obtain ⟨x, hx, rfl, rfl⟩ := fromCache_ok h
    exact .response c m x hm hx
  | request c =>
    obtain ⟨m, hm, h⟩ := Option.map_eq_some_iff.1 h
    obtain ⟨x, hx, rfl, rfl⟩ := fromDir_ok h
    exact .request c m x hm hx
  | data m =>
    obtain ⟨hm, h⟩ : m ∈ s.responseToDir ∧ _ = Except.ok (o, s') := by simpa [deliver] using h
    obtain ⟨x, hx, rfl, rfl⟩ := fromDir_ok h
    exact .data m x hm hx
  | memory m =>
    obtain ⟨hm, h⟩ : m ∈ s.memBuffer ∧ _ = Except.ok (o, s') := by simpa [deliver] using h
    obtain ⟨x, hx, rfl, rfl⟩ := fromDir_ok h
    exact .memory m x hm hx

/-! ## Runs on given inputs -/

/-- The outcome of an input that completes, with what a completing store writes. -/
def next (s : Sys C n) (x : DataBlock n × Input C n) : Option (List (C × Callback n) × Sys C n) :=
  match s.deliver x.1 x.2 with
  | some (.ok r) => some r
  | _ => none

theorem deliver_of_next {s s' : Sys C n} {x : DataBlock n × Input C n} {o : List (C × Callback n)}
    (h : s.next x = some (o, s')) : s.deliver x.1 x.2 = some (.ok (o, s')) := by
  unfold next at h
  split at h
  case h_1 r hr => rw [hr, Option.some.inj h]
  case h_2 => cases h

/-- Delivers the inputs in turn. -/
def follow (s : Sys C n) (is : List (DataBlock n × Input C n)) : Option (List (C × Callback n) × Sys C n) :=
  Lts.exec next s is

theorem run_follow {s s' : Sys C n} {is : List (DataBlock n × Input C n)} {log : List (C × Callback n)}
    (h : s.follow is = some (log, s')) : Lts.Run Step s log s' :=
  Lts.Run.start.exec (fun _ _ _ _ hn => .deliver (deliver_of_next hn)) h

end Sys

end Msi
