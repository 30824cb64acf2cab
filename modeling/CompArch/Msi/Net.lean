import CompArch.Arrival
import CompArch.Msi.Ports
import CompArch.Msi.Safety
/-!
# All blocks, and the queues they share

Every controller has one queue for each input port, and only the head of a
queue is looked at. A message that stalls stays at the head, in front of
messages about other blocks. A block's requests go to its home directory.
-/

namespace Msi

open Function Slicc Arrival

/-- The messages about block `b`. -/
def about {B α : Type} [DecidableEq B] (b : B) (e : B × α) : Option α := if e.1 = b then some e.2 else none

/-- The requests of cache `c` about block `b`. -/
def requestAbout {B C α : Type} [DecidableEq B] [DecidableEq C] (c : C) (b : B) (e : C × B × α) : Option α :=
  if e.1 = c then about b e.2 else none

/-- Messages from different senders arrive in any order, and so do responses. -/
def anyOrder {α : Type} (_ _ : α) : Prop := False

/-- Requests of one cache arrive in the order they were sent. -/
def sameCache {B C α : Type} (e e' : C × B × α) : Prop := e.1 = e'.1

structure Net (B C D : Type) (n : Nat) where
  cache : C → B → L1Cache.Block n
  dir : B → Directory.Block C n
  /-- Requests to a directory, with the caches they are from. -/
  requestToDir : D → List (C × B × RequestMsg C n)
  forwardToCache : C → List (B × RequestMsg C n)
  responseToCache : C → List (B × ResponseMsg C n)
  responseToDir : D → List (B × ResponseMsg C n)
  memBuffer : D → List (B × MemoryMsg C n)

/-- An input port with a queue. -/
inductive Port (C D : Type)
  | forward (c : C)
  | response (c : C)
  | request (δ : D)
  | data (δ : D)
  | memory (δ : D)
  deriving DecidableEq

namespace Net
variable {B C D : Type} {n : Nat}

inductive Input (B C D : Type)
  | mandatory (c : C) (b : B) (type : RubyRequestType)
  | replacement (c : C) (b : B)
  | head (p : Port C D)

/-- No cache has a block, and `d` is what the directories have. -/
def init (d : B → DataBlock n) : Net B C D n where
  cache _ _ := {}
  dir b := { entry := { dataBlk := d b } }
  requestToDir _ := []
  forwardToCache _ := []
  responseToCache _ := []
  responseToDir _ := []
  memBuffer _ := []

/-! ## What an input does at its controller -/

/-- The cache and the block an input is for, and the cache's transition. -/
def atCache (N : Net B C D n) (stored : DataBlock n) : Input B C D → Option (C × B × Except Stop (L1Cache.Ctx C n))
  | .mandatory c b r => some (c, b, L1Cache.onMandatory c (N.cache c b) stored r)
  | .replacement c b =>
    if (N.cache c b).entry.isSome then some (c, b, L1Cache.onReplacement c (N.cache c b)) else none
  | .head (.forward c) => (N.forwardToCache c).head?.map fun e => (c, e.1, L1Cache.onForward c (N.cache c e.1) e.2)
  | .head (.response c) =>
    (N.responseToCache c).head?.map fun e => (c, e.1, L1Cache.onResponse c (N.cache c e.1) stored e.2)
  | .head (.request _) | .head (.data _) | .head (.memory _) => none

section
variable [DecidableEq C] [Directory.Memory C n]

/-- The directory and the block an input is for, and the directory's transition. -/
def atDir (N : Net B C D n) : Input B C D → Option (D × B × Except Stop (Directory.Ctx C n))
  | .head (.request δ) =>
    (N.requestToDir δ).head?.map fun e => (δ, e.2.1, Directory.onRequest (N.dir e.2.1) e.2.2)
  | .head (.data δ) => (N.responseToDir δ).head?.map fun e => (δ, e.1, Directory.onResponse (N.dir e.1) e.2)
  | .head (.memory δ) => (N.memBuffer δ).head?.map fun e => (δ, e.1, Directory.onMemory (N.dir e.1) e.2)
  | .mandatory _ _ _ | .replacement _ _ | .head (.forward _) | .head (.response _) => none

/-! ## What it leaves behind -/

variable [DecidableEq B] [DecidableEq D]

/-- After cache `c`'s transition `x` on block `b`. -/
structure AfterCache (home : B → D) (N : Net B C D n) (c : C) (b : B) (x : L1Cache.Ctx C n) (N' : Net B C D n) :
    Prop where
  cache : N'.cache = update N.cache c (update (N.cache c) b x.block)
  dir : N'.dir = N.dir
  request : ∀ δ, Joins sameCache (if δ = home b then x.requests.map (c, b, ·) else [])
    (N.requestToDir δ) (N'.requestToDir δ)
  forward : ∀ c', N'.forwardToCache c' =
    if c' = c ∧ x.poppedForward then (N.forwardToCache c').tail else N.forwardToCache c'
  response : ∀ c', Joins anyOrder ((x.responses.filter fun r => r.1 = .L1Cache c').map (b, ·.2))
    (if c' = c ∧ x.poppedResponse then (N.responseToCache c').tail else N.responseToCache c') (N'.responseToCache c')
  data : ∀ δ, Joins anyOrder
    (if δ = home b then (x.responses.filter fun r => r.1 = .Directory).map (b, ·.2) else [])
    (N.responseToDir δ) (N'.responseToDir δ)
  memory : N'.memBuffer = N.memBuffer

/-- After directory `δ`'s transition `x` on block `b`. A forward stays behind
the waiting forwards that `behind` relates it to. -/
structure AfterDir (behind : B × RequestMsg C n → B × RequestMsg C n → Prop) (N : Net B C D n) (δ : D) (b : B)
    (x : Directory.Ctx C n) (N' : Net B C D n) : Prop where
  cache : N'.cache = N.cache
  dir : N'.dir = update N.dir b x.block
  request : ∀ δ', N'.requestToDir δ' =
    if δ' = δ ∧ x.poppedRequest then (N.requestToDir δ').tail else N.requestToDir δ'
  forward : ∀ c, Joins behind ((x.forwards.filter fun f => .L1Cache c ∈ f.1).map (b, ·.2))
    (N.forwardToCache c) (N'.forwardToCache c)
  response : ∀ c, Joins anyOrder ((x.responses.filter fun r => r.1 = .L1Cache c).map (b, ·.2))
    (N.responseToCache c) (N'.responseToCache c)
  data : ∀ δ', Joins anyOrder
    (if δ' = δ then (x.responses.filter fun r => r.1 = .Directory).map (b, ·.2) else [])
    (if δ' = δ ∧ x.poppedResponse then (N.responseToDir δ').tail else N.responseToDir δ') (N'.responseToDir δ')
  memory : ∀ δ', Joins anyOrder (if δ' = δ then x.memoryRequests.map (b, ·) else [])
    (if δ' = δ ∧ x.poppedMemory then (N.memBuffer δ').tail else N.memBuffer δ') (N'.memBuffer δ')

/-- Some input is handled and its transition completes. -/
inductive Step (home : B → D) (behind : B × RequestMsg C n → B × RequestMsg C n → Prop) (N : Net B C D n) :
    List (B × C × Callback n) → Net B C D n → Prop
  | cache {stored : DataBlock n} {i : Input B C D} {c : C} {b : B} {x : L1Cache.Ctx C n} {N' : Net B C D n} :
      N.atCache stored i = some (c, b, .ok x) → N.AfterCache home c b x N' →
        Step home behind N (x.callbacks.map (b, c, ·)) N'
  | dir {i : Input B C D} {δ : D} {b : B} {x : Directory.Ctx C n} {N' : Net B C D n} :
      N.atDir i = some (δ, b, .ok x) → N.AfterDir behind δ b x N' → Step home behind N [] N'

/-! ## One block of it -/

/-- What concerns block `b`. -/
def block (home : B → D) (N : Net B C D n) (b : B) : Sys C n where
  node c :=
    { cache := N.cache c b
      requestFromCache := (N.requestToDir (home b)).filterMap (requestAbout c b)
      forwardToCache := (N.forwardToCache c).filterMap (about b)
      responseToCache := ↑((N.responseToCache c).filterMap (about b)) }
  dir := N.dir b
  responseToDir := ↑((N.responseToDir (home b)).filterMap (about b))
  memBuffer := ↑((N.memBuffer (home b)).filterMap (about b))

end

end Net

/-! ## Runs on given inputs -/

namespace Net
variable {B C D : Type} {n : Nat} [DecidableEq B] [DecidableEq C] [DecidableEq D]

/-- Cache `c`'s transition, with everything it sends joining at the tail. -/
def afterCache (home : B → D) (N : Net B C D n) (c : C) (b : B) (x : L1Cache.Ctx C n) : Net B C D n where
  cache := update N.cache c (update (N.cache c) b x.block)
  dir := N.dir
  requestToDir δ := N.requestToDir δ ++ if δ = home b then x.requests.map (c, b, ·) else []
  forwardToCache c' := if c' = c ∧ x.poppedForward then (N.forwardToCache c').tail else N.forwardToCache c'
  responseToCache c' :=
    (if c' = c ∧ x.poppedResponse then (N.responseToCache c').tail else N.responseToCache c') ++
      (x.responses.filter fun r => r.1 = .L1Cache c').map (b, ·.2)
  responseToDir δ := N.responseToDir δ ++
    if δ = home b then (x.responses.filter fun r => r.1 = .Directory).map (b, ·.2) else []
  memBuffer := N.memBuffer

theorem afterCache_spec (home : B → D) (N : Net B C D n) (c : C) (b : B) (x : L1Cache.Ctx C n) :
    N.AfterCache home c b x (N.afterCache home c b x) :=
  ⟨rfl, rfl, fun _ => .tail .., fun _ => rfl, fun _ => .tail .., fun _ => .tail .., rfl⟩

/-- Directory `δ`'s transition, with a forward joining each queue behind the
first `k` messages and everything else at the tail. -/
def afterDir (N : Net B C D n) (δ : D) (b : B) (x : Directory.Ctx C n) (k : Nat) : Net B C D n where
  cache := N.cache
  dir := update N.dir b x.block
  requestToDir δ' := if δ' = δ ∧ x.poppedRequest then (N.requestToDir δ').tail else N.requestToDir δ'
  forwardToCache c := joinAt k ((x.forwards.filter fun f => .L1Cache c ∈ f.1).map (b, ·.2)) (N.forwardToCache c)
  responseToCache c := N.responseToCache c ++ (x.responses.filter fun r => r.1 = .L1Cache c).map (b, ·.2)
  responseToDir δ' :=
    (if δ' = δ ∧ x.poppedResponse then (N.responseToDir δ').tail else N.responseToDir δ') ++
      if δ' = δ then (x.responses.filter fun r => r.1 = .Directory).map (b, ·.2) else []
  memBuffer δ' :=
    (if δ' = δ ∧ x.poppedMemory then (N.memBuffer δ').tail else N.memBuffer δ') ++
      if δ' = δ then x.memoryRequests.map (b, ·) else []

theorem afterDir_spec {behind : B × RequestMsg C n → B × RequestMsg C n → Prop} (N : Net B C D n) (δ : D) (b : B)
    (x : Directory.Ctx C n) {k : Nat}
    (h : ∀ c, ∀ f ∈ x.forwards, .L1Cache c ∈ f.1 → ∀ e ∈ (N.forwardToCache c).drop k, ¬ behind (b, f.2) e) :
    N.AfterDir behind δ b x (N.afterDir δ b x k) := by
  refine ⟨rfl, rfl, fun _ => rfl, fun c => joinAt_spec fun a ha => ?_, fun _ => .tail .., fun _ => .tail ..,
    fun _ => .tail ..⟩
  obtain ⟨f, hf, rfl⟩ := List.mem_map.1 ha
  obtain ⟨hf, hc⟩ := List.mem_filter.1 hf
  exact h c f hf (by simpa using hc)

/-- An input, what a completing store writes, and how many messages a forward stays behind. -/
structure Act (B C D : Type) (n : Nat) where
  stored : DataBlock n
  input : Input B C D
  place : Nat

variable [Fintype C] [Directory.Memory C n] (home : B → D)
  (behind : B × RequestMsg C n → B × RequestMsg C n → Prop)

/-- The outcome of an input that completes, when the network may deliver so. -/
def next [DecidableRel behind] (N : Net B C D n) (a : Act B C D n) :
    Option (List (B × C × Callback n) × Net B C D n) :=
  match N.atCache a.stored a.input, N.atDir a.input with
  | some (c, b, .ok x), _ => some (x.callbacks.map (b, c, ·), N.afterCache home c b x)
  | none, some (δ, b, .ok x) =>
    if ∀ c, ∀ f ∈ x.forwards, .L1Cache c ∈ f.1 → ∀ e ∈ (N.forwardToCache c).drop a.place, ¬ behind (b, f.2) e then
      some ([], N.afterDir δ b x a.place)
    else none
  | _, _ => none

theorem step_of_next [DecidableRel behind] {N N' : Net B C D n} {a : Act B C D n} {o : List (B × C × Callback n)}
    (h : N.next home behind a = some (o, N')) : N.Step home behind o N' := by
  unfold next at h
  split at h
  next hx =>
    cases h
    exact .cache hx (afterCache_spec ..)
  next hx =>
    split at h
    case isTrue hk =>
      cases h
      exact .dir hx (afterDir_spec _ _ _ _ hk)
    case isFalse => cases h
  next => cases h

/-- Handles the inputs in turn. -/
def follow [DecidableRel behind] (N : Net B C D n) (as : List (Act B C D n)) :
    Option (List (B × C × Callback n) × Net B C D n) :=
  Lts.exec (next home behind) N as

theorem reachable_follow [DecidableRel behind] {N N' : Net B C D n} {as : List (Act B C D n)}
    {log : List (B × C × Callback n)} (h : N.follow home behind as = some (log, N')) :
    Lts.Reachable (Step home behind) N N' := by
  have hn (N : Net B C D n) (a : Act B C D n) o N' : next home behind N a = some (o, N') → Step home behind N o N' :=
    step_of_next home behind
  exact ⟨[] ++ log, Lts.Run.start.exec hn h⟩

end Net

/-! ## Messages about a block -/

section
variable {B C α : Type} [DecidableEq B] [DecidableEq C]

@[simp] theorem about_self (b : B) (x : α) : about b (b, x) = some x := if_pos rfl

theorem about_of_ne {b b' : B} (h : b' ≠ b) (x : α) : about b (b', x) = none := if_neg h

theorem fst_of_about {b : B} {e : B × α} (h : (about b e).isSome = true) : e.1 = b := by
  by_contra hb
  simp [about, hb] at h

theorem filterMap_about {γ : Type} (b b' : B) (f : γ → α) (l : List γ) :
    (l.map fun x => (b', f x)).filterMap (about b) = if b = b' then l.map f else [] := by
  induction l with
  | nil => simp
  | cons x l ih =>
    by_cases hb : b = b'
    · simp_all
    · simp_all [about_of_ne (Ne.symm hb)]

/-- Popping the head pops the block it is about. -/
theorem filterMap_about_tail {b' : B} {m : α} {q : List (B × α)} (h : q.head? = some (b', m)) (b : B) :
    q.tail.filterMap (about b) = if b' = b then (q.filterMap (about b)).tail else q.filterMap (about b) := by
  cases q with
  | nil => cases h
  | cons e q =>
    obtain rfl : e = (b', m) := by simpa using h
    by_cases hb : b' = b
    · subst hb
      simp
    · simp [hb, about_of_ne hb]

theorem head_of_about {b : B} {m : α} {q : List (B × α)} (h : q.head? = some (b, m)) :
    (q.filterMap (about b)).head? = some m := by
  cases q with
  | nil => cases h
  | cons e q =>
    obtain rfl : e = (b, m) := by simpa using h
    simp

end

/-! ## A step is a step of one block -/

section
variable {B C D : Type} {n : Nat} [DecidableEq B] [DecidableEq C] [DecidableEq D] {home : B → D}
  {behind : B × RequestMsg C n → B × RequestMsg C n → Prop} {N N' : Net B C D n}

omit [DecidableEq C] in
theorem Sys.ext_node {s s' : Sys C n} (hn : ∀ c, s.node c = s'.node c) (hd : s.dir = s'.dir)
    (hr : s.responseToDir = s'.responseToDir) (hm : s.memBuffer = s'.memBuffer) : s = s' := by
  obtain ⟨node, d, r, m⟩ := s
  obtain ⟨node', d', r', m'⟩ := s'
  obtain rfl : node = node' := funext hn
  obtain rfl : d = d' := hd
  obtain rfl : r = r' := hr
  obtain rfl : m = m' := hm
  rfl

theorem requestAbout_sameCache {c' : C} {b' : B} (e e' : C × B × RequestMsg C n) (h : (requestAbout c' b' e).isSome)
    (h' : (requestAbout c' b' e').isSome) : sameCache e e' := by
  have he : e.1 = c' := by by_contra hn; simp [requestAbout, hn] at h
  have he' : e'.1 = c' := by by_contra hn; simp [requestAbout, hn] at h'
  exact he.trans he'.symm

theorem filterMap_requestAbout (c c' : C) (b b' : B) (l : List (RequestMsg C n)) :
    (l.map (c, b, ·)).filterMap (requestAbout c' b') = if c' = c ∧ b' = b then l else [] := by
  induction l with
  | nil => simp
  | cons m l ih =>
    rw [List.map_cons, List.filterMap_cons, ih]
    by_cases hc : c = c' <;> by_cases hb : b = b'
    · simp [requestAbout, about, hc, hb]
    · simp [requestAbout, about, hb, Ne.symm hb]
    · simp [requestAbout, hc, Ne.symm hc]
    · simp [requestAbout, hc, Ne.symm hc]

/-- The effect of popping a response on the responses about block `b'`. -/
theorem filterMap_about_popped {α : Type} [DecidableEq α] {b : B} {q : List (B × α)} {popped : Bool} {r : Option α}
    (h : popped = true → ∃ m, r = some m ∧ q.head? = some (b, m)) (b' : B) :
    (↑((if popped then q.tail else q).filterMap (about b')) : Multiset α) =
      if b' = b ∧ popped then r.elim ↑(q.filterMap (about b')) (Multiset.erase ↑(q.filterMap (about b')))
      else ↑(q.filterMap (about b')) := by
  cases popped with
  | false => simp
  | true =>
    obtain ⟨m, rfl, hq⟩ := h rfl
    rw [if_pos rfl, filterMap_about_tail hq]
    by_cases hb : b = b'
    · subst hb
      have hm := head_of_about hq
      obtain ⟨l, hl⟩ : ∃ l, q.filterMap (about b) = m :: l := by
        cases hl : q.filterMap (about b) with
        | nil => simp [hl] at hm
        | cons m' l => exact ⟨l, by simpa [hl] using hm⟩
      simp [hl]
    · simp [hb, Ne.symm hb]

/-- A cache's transition on block `b`, seen from block `b'`. -/
theorem Net.AfterCache.block {c : C} {b : B} {x : L1Cache.Ctx C n} (h : N.AfterCache home c b x N')
    (hf : x.poppedForward = true → ∃ m, (N.forwardToCache c).head? = some (b, m))
    (hr : x.poppedResponse = true → ∃ m, x.response = some m ∧ (N.responseToCache c).head? = some (b, m)) (b' : B) :
    N'.block home b' = if b' = b then (N.block home b).afterCache c x else N.block home b' := by
  have hreq (c' : C) : (N'.requestToDir (home b')).filterMap (requestAbout c' b') =
      (N.requestToDir (home b')).filterMap (requestAbout c' b') ++ if c' = c ∧ b' = b then x.requests else [] := by
    rw [(h.request _).filterMap requestAbout_sameCache]
    congr 1
    split
    case isTrue => exact filterMap_requestAbout ..
    case isFalse hh =>
      have hb : b' ≠ b := fun hb => hh (by rw [hb])
      simp [hb]
  have hfwd (c' : C) : (N'.forwardToCache c').filterMap (about b') =
      if b' = b ∧ c' = c ∧ x.poppedForward then ((N.forwardToCache c').filterMap (about b')).tail
      else (N.forwardToCache c').filterMap (about b') := by
    rw [h.forward]
    by_cases hc : c' = c ∧ x.poppedForward = true
    · obtain ⟨rfl, hp⟩ := hc
      obtain ⟨m, hm⟩ := hf hp
      simp [hp, filterMap_about_tail hm, eq_comm]
    · rw [if_neg hc, if_neg fun hn => hc hn.2]
  have hresp (c' : C) : (↑((N'.responseToCache c').filterMap (about b')) : Multiset (ResponseMsg C n)) =
      ↑(if b' = b then (x.responses.filter fun r => r.1 = .L1Cache c').map (·.2) else []) +
        if b' = b ∧ c' = c ∧ x.poppedResponse then
          x.response.elim ↑((N.responseToCache c').filterMap (about b'))
            (Multiset.erase ↑((N.responseToCache c').filterMap (about b')))
        else ↑((N.responseToCache c').filterMap (about b')) := by
    rw [(h.response c').filterMap_coe]
    congr 1
    · rw [filterMap_about]
    · by_cases hc : c' = c
      · subst hc
        simpa using filterMap_about_popped hr b'
      · simp [hc]
  have hdata : (↑((N'.responseToDir (home b')).filterMap (about b')) : Multiset (ResponseMsg C n)) =
      ↑(if b' = b then (x.responses.filter fun r => r.1 = .Directory).map (·.2) else []) +
        ↑((N.responseToDir (home b')).filterMap (about b')) := by
    rw [(h.data _).filterMap_coe]
    congr 2
    split
    case isTrue => rw [filterMap_about]
    case isFalse hh =>
      have hb : b' ≠ b := fun hb => hh (by rw [hb])
      simp [hb]
  by_cases hb : b' = b
  · subst hb
    rw [if_pos rfl]
    obtain ⟨h1, h2, h3⟩ := home_foldl_respond x.responses
      { N.block home b' with node := update (N.block home b').node c (((N.block home b').node c).after x) }
    refine Sys.ext_node (fun c' => ?_) ?_ ?_ ?_
    · rw [Sys.afterCache, node_foldl_respond]
      by_cases hc : c' = c
      · subst hc
        simp [Net.block, Node.after, h.cache, hreq, hfwd, hresp]
      · simp [Net.block, h.cache, hreq, hfwd, hresp, hc]
    · rw [Sys.afterCache, h1]
      simp [Net.block, h.dir]
    · rw [Sys.afterCache, h2]
      simp [Net.block, hdata]
    · rw [Sys.afterCache, h3]
      simp [Net.block, h.memory]
  · rw [if_neg hb]
    refine Sys.ext_node (fun c' => ?_) ?_ ?_ ?_
    · by_cases hc : c' = c
      · subst hc
        simp [Net.block, h.cache, hreq, hfwd, hresp, hb]
      · simp [Net.block, h.cache, hreq, hfwd, hresp, hb, hc]
    · simp [Net.block, h.dir]
    · simp [Net.block, hdata, hb]
    · simp [Net.block, h.memory]

theorem head_requestAbout {c : C} {b : B} {m : RequestMsg C n} {q : List (C × B × RequestMsg C n)}
    (h : q.head? = some (c, b, m)) : (q.filterMap (requestAbout c b)).head? = some m := by
  cases q with
  | nil => cases h
  | cons e q =>
    obtain rfl : e = (c, b, m) := by simpa using h
    simp [requestAbout]

/-- Popping a request pops it from its cache's requests about its block. -/
theorem filterMap_requestAbout_tail {c : C} {b : B} {m : RequestMsg C n} {q : List (C × B × RequestMsg C n)}
    (h : q.head? = some (c, b, m)) (c' : C) (b' : B) : q.tail.filterMap (requestAbout c' b') =
      if c' = c ∧ b' = b then (q.filterMap (requestAbout c' b')).tail else q.filterMap (requestAbout c' b') := by
  cases q with
  | nil => cases h
  | cons e q =>
    obtain rfl : e = (c, b, m) := by simpa using h
    by_cases hc : c' = c ∧ b' = b
    · obtain ⟨rfl, rfl⟩ := hc
      simp [requestAbout]
    · have hn : requestAbout c' b' (c, b, m) = none := by
        simp only [requestAbout, about]
        grind
      rw [if_neg hc, List.filterMap_cons, hn, List.tail_cons]

/-- The directory's transition on block `b`, seen from block `b'`. -/
theorem Net.AfterDir.block (hb : ∀ a a' : B × RequestMsg C n, home a.1 = home a'.1 → behind a a') {b : B}
    {x : Directory.Ctx C n} {src : Option C} (h : N.AfterDir behind (home b) b x N')
    (hq : x.poppedRequest = true → ∃ c m, src = some c ∧ (N.requestToDir (home b)).head? = some (c, b, m))
    (hr : x.poppedResponse = true → ∃ m, x.response = some m ∧ (N.responseToDir (home b)).head? = some (b, m))
    (hm : x.poppedMemory = true → ∃ m, x.memory = some m ∧ (N.memBuffer (home b)).head? = some (b, m)) (b' : B) :
    N'.block home b' = if b' = b then (N.block home b).afterDir src x else N.block home b' := by
  have hreq (c : C) : (N'.requestToDir (home b')).filterMap (requestAbout c b') =
      if b' = b ∧ x.poppedRequest ∧ src = some c then ((N.requestToDir (home b')).filterMap (requestAbout c b')).tail
      else (N.requestToDir (home b')).filterMap (requestAbout c b') := by
    rw [h.request]
    by_cases hp : home b' = home b ∧ x.poppedRequest = true
    · obtain ⟨c', m, rfl, hm⟩ := hq hp.2
      rw [if_pos hp, hp.1, filterMap_requestAbout_tail hm]
      simp [hp.2, and_comm, eq_comm]
    · rw [if_neg hp, if_neg fun hn => hp ⟨by rw [hn.1], hn.2.1⟩]
  have hfwd (c : C) : (N'.forwardToCache c).filterMap (about b') = (N.forwardToCache c).filterMap (about b') ++
      if b' = b then (x.forwards.filter fun f => .L1Cache c ∈ f.1).map (·.2) else [] := by
    rw [(h.forward c).filterMap fun a a' ha ha' => hb _ _ (by rw [fst_of_about ha, fst_of_about ha']), filterMap_about]
  have hresp (c : C) : (↑((N'.responseToCache c).filterMap (about b')) : Multiset (ResponseMsg C n)) =
      ↑(if b' = b then (x.responses.filter fun r => r.1 = .L1Cache c).map (·.2) else []) +
        ↑((N.responseToCache c).filterMap (about b')) := by
    rw [(h.response c).filterMap_coe, filterMap_about]
  have hdata : (↑((N'.responseToDir (home b')).filterMap (about b')) : Multiset (ResponseMsg C n)) =
      ↑(if b' = b then (x.responses.filter fun r => r.1 = .Directory).map (·.2) else []) +
        if b' = b ∧ x.poppedResponse then
          x.response.elim ↑((N.responseToDir (home b')).filterMap (about b'))
            (Multiset.erase ↑((N.responseToDir (home b')).filterMap (about b')))
        else ↑((N.responseToDir (home b')).filterMap (about b')) := by
    rw [(h.data _).filterMap_coe]
    by_cases hh : home b' = home b
    · congr 1
      · rw [if_pos hh, filterMap_about]
      · simpa [hh] using filterMap_about_popped hr b'
    · have hne : b' ≠ b := fun hb => hh (by rw [hb])
      simp [hh, hne]
  have hmem : (↑((N'.memBuffer (home b')).filterMap (about b')) : Multiset (MemoryMsg C n)) =
      ↑(if b' = b then x.memoryRequests else []) +
        if b' = b ∧ x.poppedMemory then
          x.memory.elim ↑((N.memBuffer (home b')).filterMap (about b'))
            (Multiset.erase ↑((N.memBuffer (home b')).filterMap (about b')))
        else ↑((N.memBuffer (home b')).filterMap (about b')) := by
    rw [(h.memory _).filterMap_coe]
    by_cases hh : home b' = home b
    · congr 1
      · rw [if_pos hh, filterMap_about, List.map_id']
      · simpa [hh] using filterMap_about_popped hm b'
    · have hne : b' ≠ b := fun hb => hh (by rw [hb])
      simp [hh, hne]
  by_cases hbb : b' = b
  · subst hbb
    rw [if_pos rfl]
    obtain ⟨h1, h2, h3⟩ := home_afterDir (N.block home b') src x
    refine Sys.ext_node (fun c => ?_) ?_ ?_ ?_
    · rw [node_afterDir]
      simp [Net.block, h.cache, hreq, hfwd, hresp]
    · rw [h1]
      simp [Net.block, h.dir]
    · rw [h2]
      simp [Net.block, hdata]
    · rw [h3]
      simp [Net.block, hmem]
  · rw [if_neg hbb]
    refine Sys.ext_node (fun c => ?_) ?_ ?_ ?_
    · simp [Net.block, h.cache, hreq, hfwd, hresp, hbb]
    · simp [Net.block, h.dir, hbb]
    · simp [Net.block, hdata, hbb]
    · simp [Net.block, hmem, hbb]

omit [DecidableEq D] in
/-- A cache's transition is a step of the block it is about. -/
theorem Net.cache_step [Fintype C] [Directory.Memory C n] {stored : DataBlock n} {i : Input B C D} {c : C} {b : B}
    {x : L1Cache.Ctx C n} {v : DataBlock n} (hi : N.atCache stored i = some (c, b, .ok x))
    (hg : Good (N.block home b) v) :
    (N.block home b).Step (x.callbacks.map (c, ·)) ((N.block home b).afterCache c x) ∧
      (x.poppedForward = true → ∃ m, (N.forwardToCache c).head? = some (b, m)) ∧
        (x.poppedResponse = true → ∃ m, x.response = some m ∧ (N.responseToCache c).head? = some (b, m)) := by
  obtain ⟨a, -, hR⟩ := hg
  obtain ⟨d, d', hc, -⟩ := (hR.node c).cache
  replace hc : N.cache c b = _ := hc
  cases i with
  | mandatory c' b' r =>
    obtain ⟨rfl, rfl, hx⟩ : c' = c ∧ b' = b ∧ _ = Except.ok x := by simpa [atCache] using hi
    have hp := L1Cache.onMandatory_pops (hc ▸ hx)
    refine ⟨.deliver (i := .mandatory c' r) (?_ : (N.block home b').deliver stored _ = _), by simp [hp], by simp [hp]⟩
    simp only [Sys.deliver, Sys.fromCache, Net.block, hx]
    rfl
  | replacement c' b' =>
    obtain ⟨he, rfl, rfl, hx⟩ : (N.cache c' b').entry.isSome = true ∧ c' = c ∧ b' = b ∧ _ = Except.ok x := by
      simpa [atCache] using hi
    have hp := L1Cache.onReplacement_pops (hc ▸ hx)
    refine ⟨.deliver (i := .replacement c') (?_ : (N.block home b').deliver stored _ = _), by simp [hp], by simp [hp]⟩
    simp only [Sys.deliver, Sys.fromCache, Net.block, he, hx]
    rfl
  | head p =>
    cases p with
    | forward c' =>
      obtain ⟨⟨b', m⟩, hm, he⟩ := Option.map_eq_some_iff.1 hi
      obtain ⟨rfl, rfl, hx⟩ : c' = c ∧ b' = b ∧ _ = Except.ok x := by simpa using he
      have hp := L1Cache.onForward_pops (hc ▸ hx)
      refine ⟨.deliver (i := .forward c') (?_ : (N.block home b').deliver stored _ = _), fun _ => ⟨m, hm⟩, by simp [hp]⟩
      simp only [Sys.deliver, Sys.fromCache, Net.block, head_of_about hm, Option.map_some, hx]
      rfl
    | response c' =>
      obtain ⟨⟨b', m⟩, hm, he⟩ := Option.map_eq_some_iff.1 hi
      obtain ⟨rfl, rfl, hx⟩ : c' = c ∧ b' = b ∧ _ = Except.ok x := by simpa using he
      have hp := L1Cache.onResponse_pops (hc ▸ hx)
      have hmem : m ∈ (N.responseToCache c').filterMap (about b') := List.mem_of_mem_head? (head_of_about hm)
      refine ⟨.deliver (i := .response c' m) (?_ : (N.block home b').deliver stored _ = _), by simp [hp],
        fun _ => ⟨m, hp.2.2, hm⟩⟩
      simp only [Sys.deliver, Sys.fromCache, Net.block, Multiset.mem_coe, if_pos hmem, hx]
      rfl
    | request δ => cases hi
    | data δ => cases hi
    | memory δ => cases hi

/-- The messages a directory has are about its own blocks. -/
structure Net.Routed (home : B → D) (N : Net B C D n) : Prop where
  request : ∀ δ, ∀ e ∈ N.requestToDir δ, home e.2.1 = δ
  data : ∀ δ, ∀ e ∈ N.responseToDir δ, home e.1 = δ
  memory : ∀ δ, ∀ e ∈ N.memBuffer δ, home e.1 = δ

omit [DecidableEq D] in
/-- In a good state the entry and the TBE of a block are those of one of the directory's states. -/
theorem Net.dir_of_good [Fintype C] {b : B} {v : DataBlock n} (hg : Good (N.block home b) v) :
    ∃ st d d' sharers owner, N.dir b = Directory.blockOf st d d' sharers owner := by
  obtain ⟨a, -, hR⟩ := hg
  obtain ⟨d, d', hd, -⟩ := hR.home.dir
  exact ⟨_, d, d', _, _, hd⟩

omit [DecidableEq D] in
/-- So is a directory's, and the block is one of its own. -/
theorem Net.dir_step [Fintype C] [Directory.Memory C n] {i : Input B C D} {δ : D} {b : B} {x : Directory.Ctx C n}
    {v : DataBlock n} (hr : N.Routed home) (hi : N.atDir i = some (δ, b, .ok x)) (hg : Good (N.block home b) v) :
    home b = δ ∧ ∃ src, (N.block home b).Step [] ((N.block home b).afterDir src x) ∧
      (x.poppedRequest = true → ∃ c m, src = some c ∧ (N.requestToDir δ).head? = some (c, b, m)) ∧
        (x.poppedResponse = true → ∃ m, x.response = some m ∧ (N.responseToDir δ).head? = some (b, m)) ∧
          (x.poppedMemory = true → ∃ m, x.memory = some m ∧ (N.memBuffer δ).head? = some (b, m)) := by
  obtain ⟨st, d, d', sharers, owner, hd⟩ := N.dir_of_good hg
  cases i with
  | mandatory c' b' r => cases hi
  | replacement c' b' => cases hi
  | head p =>
    cases p with
    | forward c => cases hi
    | response c => cases hi
    | request δ' =>
      obtain ⟨⟨c, b', m⟩, hm, he⟩ := Option.map_eq_some_iff.1 hi
      obtain ⟨rfl, rfl, hx⟩ : δ' = δ ∧ b' = b ∧ _ = Except.ok x := by simpa using he
      obtain rfl : home b' = δ' := hr.request _ _ (List.mem_of_mem_head? hm)
      have hp := Directory.onRequest_pops (hd ▸ hx)
      refine ⟨rfl, some c, .deliver (i := .request c) (?_ : (N.block home b').deliver d _ = _),
        fun _ => ⟨c, m, rfl, hm⟩, by simp [hp],
        by simp [hp]⟩
      simp only [Sys.deliver, Sys.fromDir, Net.block, head_requestAbout hm, Option.map_some, hx]
      rfl
    | data δ' =>
      obtain ⟨⟨b', m⟩, hm, he⟩ := Option.map_eq_some_iff.1 hi
      obtain ⟨rfl, rfl, hx⟩ : δ' = δ ∧ b' = b ∧ _ = Except.ok x := by simpa using he
      obtain rfl : home b' = δ' := hr.data _ _ (List.mem_of_mem_head? hm)
      have hp := Directory.onResponse_pops (hd ▸ hx)
      have hmem : m ∈ (N.responseToDir (home b')).filterMap (about b') := List.mem_of_mem_head? (head_of_about hm)
      refine ⟨rfl, none, .deliver (i := .data m) (?_ : (N.block home b').deliver d _ = _), by simp [hp],
        fun _ => ⟨m, hp.2.2.2, hm⟩, by simp [hp]⟩
      simp only [Sys.deliver, Sys.fromDir, Net.block, Multiset.mem_coe, if_pos hmem, hx]
      rfl
    | memory δ' =>
      obtain ⟨⟨b', m⟩, hm, he⟩ := Option.map_eq_some_iff.1 hi
      obtain ⟨rfl, rfl, hx⟩ : δ' = δ ∧ b' = b ∧ _ = Except.ok x := by simpa using he
      obtain rfl : home b' = δ' := hr.memory _ _ (List.mem_of_mem_head? hm)
      have hp := Directory.onMemory_pops (hd ▸ hx)
      have hmem : m ∈ (N.memBuffer (home b')).filterMap (about b') := List.mem_of_mem_head? (head_of_about hm)
      refine ⟨rfl, none, .deliver (i := .memory m) (?_ : (N.block home b').deliver d _ = _), by simp [hp],
        by simp [hp], fun _ => ⟨m, hp.2.2.2, hm⟩⟩
      simp only [Sys.deliver, Sys.fromDir, Net.block, Multiset.mem_coe, if_pos hmem, hx]
      rfl

omit [DecidableEq B] in
/-- What is sent about a block goes to its home. -/
theorem home_of_new {α β : Type} (block : β → B) {f : α → β} {ms : List α} {δ : D} {b : B} {e : β}
    (h : e ∈ if δ = home b then ms.map f else []) (hf : ∀ m, block (f m) = b) : home (block e) = δ := by
  split at h
  case isTrue hδ =>
    obtain ⟨m, -, rfl⟩ := List.mem_map.1 h
    rw [hf, hδ]
  case isFalse => cases h

theorem Net.AfterCache.routed {c : C} {b : B} {x : L1Cache.Ctx C n} (h : N.AfterCache home c b x N')
    (hr : N.Routed home) : N'.Routed home := by
  refine ⟨fun δ e he => ?_, fun δ e he => ?_, fun δ e he => hr.memory δ e (by rwa [h.memory] at he)⟩
  · rcases (h.request δ).mem_iff.1 he with hn | ho
    · exact home_of_new (·.2.1) hn fun _ => rfl
    · exact hr.request δ e ho
  · rcases (h.data δ).mem_iff.1 he with hn | ho
    · exact home_of_new (·.1) hn fun _ => rfl
    · exact hr.data δ e ho

theorem mem_of_popped {α : Type} {p : Prop} [Decidable p] {q : List α} {e : α} (h : e ∈ if p then q.tail else q) :
    e ∈ q := by
  split at h
  · exact List.mem_of_mem_tail h
  · exact h

theorem Net.AfterDir.routed {b : B} {x : Directory.Ctx C n} (h : N.AfterDir behind (home b) b x N')
    (hr : N.Routed home) : N'.Routed home := by
  refine ⟨fun δ e he => ?_, fun δ e he => ?_, fun δ e he => ?_⟩
  · rw [h.request] at he
    exact hr.request δ e (mem_of_popped he)
  · rcases (h.data δ).mem_iff.1 he with hn | ho
    · exact home_of_new (·.1) hn fun _ => rfl
    · exact hr.data δ e (mem_of_popped ho)
  · rcases (h.memory δ).mem_iff.1 he with hn | ho
    · exact home_of_new (·.1) hn fun _ => rfl
    · exact hr.memory δ e (mem_of_popped ho)

/-- Every block is in a good state, and the messages are where they belong. -/
structure Net.Ok [Fintype C] (home : B → D) (N : Net B C D n) : Prop where
  good : ∀ b, ∃ v, Good (N.block home b) v
  routed : N.Routed home

omit [DecidableEq D] in
theorem Net.Ok.init [Fintype C] (d : B → DataBlock n) : (Net.init d : Net B C D n).Ok home :=
  ⟨fun b => ⟨d b, .init (d b)⟩, nofun, nofun, nofun⟩

theorem Net.Ok.step [Fintype C] [Directory.Memory C n]
    (hb : ∀ a a' : B × RequestMsg C n, home a.1 = home a'.1 → behind a a') (h : N.Ok home)
    {o : List (B × C × Callback n)} (hs : N.Step home behind o N') : N'.Ok home := by
  cases hs with
  | @cache stored i c b x _ hi ha =>
    obtain ⟨v, hg⟩ := h.good b
    obtain ⟨hst, hf, hr⟩ := cache_step hi hg
    refine ⟨fun b' => ?_, ha.routed h.routed⟩
    rw [ha.block hf hr b']
    split
    · exact ⟨_, (hg.step hst).1⟩
    · exact h.good b'
  | @dir i δ b x _ hi ha =>
    obtain ⟨v, hg⟩ := h.good b
    obtain ⟨rfl, src, hst, hq, hr, hm⟩ := dir_step h.routed hi hg
    refine ⟨fun b' => ?_, ha.routed h.routed⟩
    rw [ha.block hb hq hr hm b']
    split
    · exact ⟨_, (hg.step hst).1⟩
    · exact h.good b'

end

end Msi
