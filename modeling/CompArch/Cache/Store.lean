import CompArch.Cache.Prefetcher
import CompArch.Linked
import Mathlib.Algebra.Group.Nat.Defs
/-!
# The cache module (`cache.c`)

`cache_create`, `cache_access`, `cache_probe` and the two flushes on one cache.
The fields of a set's blocks are functions of the block's number in the set, and
a pointer to a block is that number or none. Latencies, the bus, the blocks'
data and user data are left out: nothing else depends on them.
-/

namespace Cache

open Function Linked

/-! ## Parameters -/

/-- `enum cache_policy` -/
inductive Policy
  | LRU | Random | FIFO
  deriving DecidableEq

/-- `enum mem_cmd` -/
inductive Cmd
  | Read | Write
  deriving DecidableEq

/-- The parameters `cache_create` accepts: `2 ^ set_bits` sets of `2 ^ way_bits`
blocks, with a tag of at least one bit. -/
structure Geometry extends Params where
  set_bits : Nat
  way_bits : Nat
  policy : Policy
  tag_shift_lt : set_shift + set_bits < 32 := by decide

namespace Geometry

variable (g : Geometry)

def nsets : Nat := 2 ^ g.set_bits
def assoc : Nat := 2 ^ g.way_bits
/-- Only caches of more than four ways have hash tables. -/
def hsize : Nat := if g.assoc > 4 then g.assoc >>> 2 else 0
def set_mask : Addr := BitVec.ofNat 32 (g.nsets - 1)
def tag_shift : Nat := g.set_shift + g.set_bits

/-- The number of a set. -/
abbrev SetIdx : Type := Fin g.nsets
/-- The number of a block in its set. -/
abbrev Way : Type := Fin g.assoc

theorem nsets_pos : 0 < g.nsets := Nat.two_pow_pos _
theorem assoc_pos : 0 < g.assoc := Nat.two_pow_pos _

end Geometry

variable (g : Geometry)

def CACHE_TAG (addr : Addr) : Addr := addr >>> g.tag_shift

theorem set_index_lt (addr : Addr) : ((addr >>> g.set_shift) &&& g.set_mask).toNat < g.nsets := by
  rw [BitVec.toNat_and]
  refine Nat.lt_of_le_of_lt Nat.and_le_right (Nat.lt_of_le_of_lt ?_ (Nat.sub_one_lt g.nsets_pos.ne'))
  exact Nat.le_trans (Nat.le_of_eq (BitVec.toNat_ofNat ..)) (Nat.mod_le ..)

def CACHE_SET (addr : Addr) : g.SetIdx := ⟨((addr >>> g.set_shift) &&& g.set_mask).toNat, set_index_lt g addr⟩

def CACHE_BADDR (addr : Addr) : Addr := addr &&& ~~~g.blk_mask

def CACHE_MK_BADDR (tag : Addr) (set : g.SetIdx) : Addr :=
  (tag <<< g.tag_shift) ||| (BitVec.ofNat 32 set <<< g.set_shift)

def CACHE_HASH (key : Addr) : Nat :=
  (((key >>> 24) ^^^ (key >>> 16) ^^^ (key >>> 8) ^^^ key) &&& (BitVec.ofNat 32 g.hsize - 1)).toNat

/-! ## How a call can end early -/

inductive Stop
  /-- A call of `fatal`, with the address it reports. -/
  | fatal (text : String) (addr : Addr)
  /-- A null pointer is dereferenced. -/
  | null
  /-- A failed `assert`. -/
  | assertion
  /-- A table is read behind its end. -/
  | bounds
  /-- A list loop does not end. -/
  | loop
  /-- The simulation ends in the miss handler. -/
  | handler
  deriving DecidableEq

def notNull {α : Type} : Option α → Except Stop α
  | none => .error .null
  | some a => .ok a

def assert (p : Bool) : Except Stop Unit := if p then .ok () else .error .assertion

/-- A list loop's result: more rounds than there are blocks are no end. -/
def ends {α : Type} : Option α → Except Stop α
  | none => .error .loop
  | some a => .ok a

/-! ## Sets -/

/-- `struct cache_set_t` and the fields of its `n` blocks. -/
structure CacheSet (n : Nat) where
  way_head : Option (Fin n) := none
  way_tail : Option (Fin n) := none
  way_next : Fin n → Option (Fin n) := fun _ => none
  way_prev : Fin n → Option (Fin n) := fun _ => none
  hash : Nat → Option (Fin n) := fun _ => none
  hash_next : Fin n → Option (Fin n) := fun _ => none
  tag : Fin n → Addr := fun _ => 0
  /-- `status & CACHE_BLK_VALID` -/
  valid : Fin n → Bool := fun _ => false
  /-- `status & CACHE_BLK_DIRTY` -/
  dirty : Fin n → Bool := fun _ => false

/-- `enum list_loc_t` -/
inductive ListLoc
  | Head | Tail
  deriving DecidableEq

namespace CacheSet

variable {n : Nat}

/-- The second half of `update_way_list`: links `blk` back into the list. -/
def linkWay (cs : CacheSet n) (blk : Fin n) : ListLoc → Except Stop (CacheSet n)
  | .Head => do
    let head ← notNull cs.way_head
    return { cs with
      way_next := update cs.way_next blk (some head)
      way_prev := update (update cs.way_prev blk none) head (some blk)
      way_head := some blk }
  | .Tail => do
    let tail ← notNull cs.way_tail
    return { cs with
      way_prev := update cs.way_prev blk (some tail)
      way_next := update (update cs.way_next blk none) tail (some blk)
      way_tail := some blk }

def update_way_list (cs : CacheSet n) (blk : Fin n) (loc : ListLoc) : Except Stop (CacheSet n) :=
  match cs.way_prev blk, cs.way_next blk with
  | none, none => do
    assert (cs.way_head = some blk ∧ cs.way_tail = some blk)
    return cs
  | none, some next => do
    assert (cs.way_head = some blk ∧ cs.way_tail ≠ some blk)
    if loc = .Head then return cs
    else linkWay { cs with way_head := some next, way_prev := update cs.way_prev next none } blk loc
  | some prev, none => do
    assert (cs.way_head ≠ some blk ∧ cs.way_tail = some blk)
    if loc = .Tail then return cs
    else linkWay { cs with way_tail := some prev, way_next := update cs.way_next prev none } blk loc
  | some prev, some next => do
    assert (cs.way_head ≠ some blk ∧ cs.way_tail ≠ some blk)
    linkWay { cs with
      way_next := update cs.way_next prev (some next)
      way_prev := update cs.way_prev next (some prev) } blk loc

variable {g}

def unlink_htab_ent (cs : CacheSet g.assoc) (blk : g.Way) : Except Stop (CacheSet g.assoc) := do
  let index := CACHE_HASH g (cs.tag blk)
  let (prev, ent) ← ends (findPrev cs.hash_next blk g.assoc none (cs.hash index))
  match ent with
  | none => .error .assertion
  | some ent =>
    return { cs with
      hash := match prev with
        | none => update cs.hash index (cs.hash_next ent)
        | some _ => cs.hash
      hash_next := update
        (match prev with
        | none => cs.hash_next
        | some p => update cs.hash_next p (cs.hash_next ent)) ent none }

def link_htab_ent (cs : CacheSet g.assoc) (blk : g.Way) : CacheSet g.assoc :=
  let index := CACHE_HASH g (cs.tag blk)
  { cs with
    hash_next := update cs.hash_next blk (cs.hash index)
    hash := update cs.hash index (some blk) }

/-- `if (cp->hsize) unlink_htab_ent(cp, set, blk);` -/
def unlinkHash (cs : CacheSet g.assoc) (blk : g.Way) : Except Stop (CacheSet g.assoc) :=
  if g.hsize ≠ 0 then cs.unlink_htab_ent blk else .ok cs

/-- `if (cp->hsize) link_htab_ent(cp, set, blk);` -/
def linkHash (cs : CacheSet g.assoc) (blk : g.Way) : CacheSet g.assoc :=
  if g.hsize ≠ 0 then cs.link_htab_ent blk else cs

/-- `blk->tag == tag && (blk->status & CACHE_BLK_VALID)` -/
def holds (cs : CacheSet n) (tag : Addr) (blk : Fin n) : Bool := cs.tag blk == tag && cs.valid blk

/-- The search for a block: `cache_access`, `cache_probe` and `cache_flush_addr`
each have a copy of its two loops. -/
def find (cs : CacheSet g.assoc) (tag : Addr) : Except Stop (Option g.Way) :=
  if g.hsize ≠ 0 then ends (walk cs.hash_next (cs.holds tag) g.assoc (cs.hash (CACHE_HASH g tag)))
  else ends (walk cs.way_next (cs.holds tag) g.assoc cs.way_head)

/-- What `cache_create` does with one block of a set. -/
def insert (cs : CacheSet g.assoc) (blk : g.Way) : CacheSet g.assoc :=
  let cs := cs.linkHash blk
  { cs with
    way_next := update cs.way_next blk cs.way_head
    way_prev := match cs.way_head with
      | none => update cs.way_prev blk none
      | some head => update (update cs.way_prev blk none) head (some blk)
    way_head := some blk
    way_tail := if cs.way_tail = none then some blk else cs.way_tail }

end CacheSet

/-! ## Caches -/

/-- The counters of a `cache_t`. -/
structure Stats where
  hits : Nat := 0
  misses : Nat := 0
  replacements : Nat := 0
  writebacks : Nat := 0
  invalidations : Nat := 0
  read_hits : Nat := 0
  read_misses : Nat := 0
  prefetch_hits : Nat := 0
  prefetch_misses : Nat := 0
  deriving DecidableEq

def Stats.countMiss (s : Stats) (cmd : Cmd) (prefetch : Bool) : Stats :=
  if prefetch then { s with prefetch_misses := s.prefetch_misses + 1 }
  else { s with
    misses := s.misses + 1
    read_misses := if cmd = .Read then s.read_misses + 1 else s.read_misses }

def Stats.countHit (s : Stats) (cmd : Cmd) (prefetch : Bool) : Stats :=
  if prefetch then { s with prefetch_hits := s.prefetch_hits + 1 }
  else { s with
    hits := s.hits + 1
    read_hits := if cmd = .Read then s.read_hits + 1 else s.read_hits }

/-- The demand accesses a cache has counted. -/
def Stats.demands (s : Stats) : Nat := s.hits + s.misses

/-- The prefetch accesses it has counted. -/
def Stats.prefetches (s : Stats) : Nat := s.prefetch_hits + s.prefetch_misses

/-- A `cache_t`: a pointer to a block is its set and its number there. -/
structure Store where
  sets : g.SetIdx → CacheSet g.assoc
  last_tagset : Addr := 0
  last_blk : Option (g.SetIdx × g.Way) := none
  stats : Stats := {}

def cache_create : Store g where
  sets _ := (List.finRange g.assoc).foldl CacheSet.insert {}

/-- What a cache shares with the rest of the simulation: the statics of `cache.c`,
and everything else, the lower caches and the random numbers among it. -/
structure World (σ : Type) where
  statics : Statics := {}
  rest : σ

/-- The miss handler, which gets the command, the block address and whether the
access is a prefetch, and the source of random numbers. The handler can do
anything but access this cache, or end the simulation. -/
structure Env (σ : Type) where
  blk_access_fn : Cmd → Addr → Bool → World σ → Option (World σ)
  myrand : σ → Nat × σ

variable {g} {σ : Type} (env : Env σ)

def Env.call (cmd : Cmd) (baddr : Addr) (prefetch : Bool) (w : World σ) : Except Stop (World σ) :=
  match env.blk_access_fn cmd baddr prefetch w with
  | none => .error .handler
  | some w => .ok w

/-- The exits of `cache_access`. -/
inductive Exit
  | miss | cache_hit | cache_fast_hit
  deriving DecidableEq

namespace Store

def setSet (st : Store g) (set : g.SetIdx) (cs : CacheSet g.assoc) : Store g :=
  { st with sets := update st.sets set cs }

/-- Which exit `cache_access` takes, and the block it uses there. -/
def lookup (st : Store g) (addr nbytes : Addr) : Except Stop (Exit × Option (g.SetIdx × g.Way)) :=
  if nbytes &&& (nbytes - 1) ≠ 0 ∨ addr &&& (nbytes - 1) ≠ 0 then
    .error (.fatal "cache: access error: bad size or alignment, addr 0x%08x" addr)
  else if (addr &&& ~~~g.blk_mask) + g.bsize < addr + nbytes then
    .error (.fatal "cache: access error: access spans block, addr 0x%08x" addr)
  else if CACHE_TAGSET g.toParams addr = st.last_tagset then .ok (.cache_fast_hit, st.last_blk)
  else do
    let set := CACHE_SET g addr
    match ← (st.sets set).find (CACHE_TAG g addr) with
    | some blk => return (.cache_hit, some (set, blk))
    | none => return (.miss, none)

/-- The block to replace, moved to the head of its way list unless it is chosen at random. -/
def select (cs : CacheSet g.assoc) (w : World σ) : Except Stop (g.Way × CacheSet g.assoc × World σ) :=
  match g.policy with
  | .LRU | .FIFO => do
    let repl ← notNull cs.way_tail
    return (repl, ← cs.update_way_list repl .Head, w)
  | .Random =>
    let (r, rest) := env.myrand w.rest
    return (⟨r &&& (g.assoc - 1), Nat.lt_of_le_of_lt Nat.and_le_right (Nat.sub_one_lt g.assoc_pos.ne')⟩, cs,
      { w with rest })

/-- Writes the replaced block back if there is need. -/
def writeBack (cs : CacheSet g.assoc) (set : g.SetIdx) (repl : g.Way) (stats : Stats) (w : World σ) :
    Except Stop (Stats × World σ) :=
  if cs.valid repl then
    let stats := { stats with replacements := stats.replacements + 1 }
    if cs.dirty repl then do
      let w ← env.call .Write (CACHE_MK_BADDR g (cs.tag repl) set) false w
      return ({ stats with writebacks := stats.writebacks + 1 }, w)
    else return (stats, w)
  else return (stats, w)

/-- The miss path, up to the prefetch, and the block that was filled. -/
def miss (cmd : Cmd) (addr : Addr) (prefetch : Bool) (st : Store g) (w : World σ) :
    Except Stop (g.Way × Store g × World σ) := do
  let set := CACHE_SET g addr
  let (repl, cs, w) ← select env (st.sets set) w
  let cs ← cs.unlinkHash repl
  let (stats, w) ← writeBack env cs set repl (st.stats.countMiss cmd prefetch) w
  let cs := { cs with tag := update cs.tag repl (CACHE_TAG g addr), valid := update cs.valid repl true,
                      dirty := update cs.dirty repl false }
  let w ← env.call .Read (CACHE_BADDR g addr) prefetch w
  let cs := if cmd = .Write then { cs with dirty := update cs.dirty repl true } else cs
  let cs := cs.linkHash repl
  return (repl, { st.setSet set cs with last_tagset := 0, last_blk := none, stats }, w)

/-- `if (cmd == Write) blk->status |= CACHE_BLK_DIRTY` -/
def markDirty (cmd : Cmd) (blk : Option (g.SetIdx × g.Way)) (st : Store g) : Except Stop (Store g) :=
  if cmd = .Write then do
    let (set, b) ← notNull blk
    return st.setSet set { st.sets set with dirty := update (st.sets set).dirty b true }
  else return st

/-- The slow hit moves its block to the head of the way list of an LRU cache. -/
def reorder (set : g.SetIdx) (b : g.Way) (st : Store g) : Except Stop (Store g) :=
  if (st.sets set).way_prev b ≠ none ∧ g.policy = .LRU then do
    return st.setSet set (← (st.sets set).update_way_list b .Head)
  else return st

/-- Both hit paths, up to the prefetch. -/
def hit (exit : Exit) (cmd : Cmd) (addr : Addr) (prefetch : Bool) (blk : Option (g.SetIdx × g.Way)) (st : Store g) :
    Except Stop (Store g) := do
  let st ← markDirty cmd blk { st with stats := st.stats.countHit cmd prefetch }
  let st ← match exit, blk with
    | .cache_hit, some (set, b) => reorder set b st
    | _, _ => .ok st
  return { st with last_tagset := CACHE_TAGSET g.toParams addr, last_blk := blk }

/-- `cache_access` up to the prefetch: the exit, the block used there, and what is left behind. -/
def access (cmd : Cmd) (addr nbytes : Addr) (prefetch : Bool) (st : Store g) (w : World σ) :
    Except Stop (Exit × Option (g.SetIdx × g.Way) × Store g × World σ) := do
  match ← st.lookup addr nbytes with
  | (.miss, _) =>
    let (repl, st, w) ← st.miss env cmd addr prefetch w
    return (.miss, some (CACHE_SET g addr, repl), st, w)
  | (exit, blk) => return (exit, blk, ← st.hit exit cmd addr prefetch blk, w)

/-- The last step of an access: a hit reads `blk->ready`. -/
def finish (exit : Exit) (blk : Option (g.SetIdx × g.Way)) (st : Store g) (w : World σ) :
    Except Stop (Exit × Store g × World σ) :=
  if exit ≠ .miss ∧ blk = none then .error .null else .ok (exit, st, w)

def cache_probe (st : Store g) (addr : Addr) : Except Stop Bool :=
  ((st.sets (CACHE_SET g addr)).find (CACHE_TAG g addr)).map Option.isSome

/-- A prefetch access, of this cache's prefetcher or of a cache above. -/
def prefetchAccess (cmd : Cmd) (addr nbytes : Addr) (st : Store g) (w : World σ) :
    Except Stop (Exit × Store g × World σ) := do
  let (exit, blk, st, w) ← st.access env cmd addr nbytes true w
  finish exit blk st w

/-- Accesses the addresses a prefetcher computed that are not resident. -/
def fetch (st : Store g) (w : World σ) : List Addr → Except Stop (Store g × World σ)
  | [] => .ok (st, w)
  | pf :: rest => do
    if ← st.cache_probe pf then st.fetch w rest
    else
      let (_, st, w) ← st.prefetchAccess env .Read pf g.bsize w
      st.fetch w rest

/-- What `cache_probe` answers, for the prefetchers. -/
def resident (st : Store g) (addr : Addr) : Bool :=
  match st.cache_probe addr with
  | .ok b => b
  | .error _ => false

/-- The demand access's call of `generate_prefetch`. -/
def prefetch (addr pc : Addr) (st : Store g) (w : World σ) : Except Stop (Store g × World σ) :=
  match generate_prefetch g.toParams w.statics { addr, pc, resident := st.resident } with
  | none => .error .bounds
  | some (pf, statics) => st.fetch env { w with statics } pf

/-- A demand access by the instruction at `pc`. -/
def demandAccess (cmd : Cmd) (addr nbytes pc : Addr) (st : Store g) (w : World σ) :
    Except Stop (Exit × Store g × World σ) := do
  let (exit, blk, st, w) ← st.access env cmd addr nbytes false w
  let (st, w) ← st.prefetch env addr pc w
  finish exit blk st w

def cache_access (cmd : Cmd) (addr nbytes : Addr) (prefetch : Bool) (pc : Addr) (st : Store g) (w : World σ) :
    Except Stop (Exit × Store g × World σ) :=
  if prefetch then st.prefetchAccess env cmd addr nbytes w else st.demandAccess env cmd addr nbytes pc w

/-- Invalidates one block, and writes it back if it is dirty. -/
def invalidate (set : g.SetIdx) (b : g.Way) (st : Store g) (w : World σ) : Except Stop (Store g × World σ) :=
  let cs := st.sets set
  let st := { st.setSet set { cs with valid := update cs.valid b false } with
    stats := { st.stats with invalidations := st.stats.invalidations + 1 } }
  if cs.dirty b then do
    let w ← env.call .Write (CACHE_MK_BADDR g (cs.tag b) set) false w
    return ({ st with stats := { st.stats with writebacks := st.stats.writebacks + 1 } }, w)
  else return (st, w)

/-- `cache_flush` on the blocks `bs` of a set. -/
def flushBlocks (set : g.SetIdx) (st : Store g) (w : World σ) : List g.Way → Except Stop (Store g × World σ)
  | [] => .ok (st, w)
  | b :: bs =>
    if (st.sets set).valid b then do
      let (st, w) ← st.invalidate env set b w
      st.flushBlocks set w bs
    else st.flushBlocks set w bs

/-- `cache_flush` on the sets `is`. No way list changes. -/
def flushSets (st : Store g) (w : World σ) : List g.SetIdx → Except Stop (Store g × World σ)
  | [] => .ok (st, w)
  | set :: is => do
    let bs ← ends (collect (st.sets set).way_next g.assoc (st.sets set).way_head)
    let (st, w) ← st.flushBlocks env set w bs
    st.flushSets w is

def cache_flush (st : Store g) (w : World σ) : Except Stop (Store g × World σ) :=
  { st with last_tagset := 0, last_blk := none }.flushSets env w (List.finRange g.nsets)

def cache_flush_addr (addr : Addr) (st : Store g) (w : World σ) : Except Stop (Store g × World σ) := do
  let set := CACHE_SET g addr
  match ← (st.sets set).find (CACHE_TAG g addr) with
  | none => return (st, w)
  | some b =>
    let (st, w) ← { st with last_tagset := 0, last_blk := none }.invalidate env set b w
    return (st.setSet set (← (st.sets set).update_way_list b .Tail), w)

end Store

end Cache
