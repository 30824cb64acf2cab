import Mathlib.Data.List.FinRange
import Mathlib.Logic.Function.Basic
/-!
# The prefetchers (`cache.c`)

What each prefetcher computes on a demand access: the addresses it probes, in
order, which it fetches when they are not resident. The contents of the cache
enter as what `cache_probe` answers at that moment. The tables are the file's
static variables.
-/

namespace Cache

/-- `md_addr_t`. -/
abbrev Addr := BitVec 32

/-! ## The cache parameters -/

/-- What the prefetchers read of a `cache_t`. The block size is `2 ^ set_shift`,
at least 8 bytes and within an `int`. -/
structure Params where
  set_shift : Nat
  prefetch_type : Nat
  bsize_ge : 3 ≤ set_shift := by decide
  bsize_le : set_shift ≤ 30 := by decide

namespace Params

variable (cp : Params)

def bsize : Addr := 1#32 <<< cp.set_shift
def blk_mask : Addr := cp.bsize - 1
def tagset_mask : Addr := ~~~cp.blk_mask

end Params

def CACHE_TAGSET (cp : Params) (addr : Addr) : Addr := addr &&& cp.tagset_mask

/-- A demand access: its address, the program counter, and which blocks the cache holds then. -/
structure Access where
  addr : Addr
  pc : Addr
  resident : Addr → Bool

/-! ## Reference prediction table entries -/

inductive PredState
  | INIT | TRANSIENT | STEADY | NO_PREDICTION
  deriving DecidableEq

/-- `rpt_entry`, as `calloc` leaves it. -/
structure RptEntry where
  tag : Addr := 0
  prev_addr : Addr := 0
  stride : BitVec 32 := 0
  state : PredState := .INIT
  deriving DecidableEq

def update_entry (entry : RptEntry) (addr pc : Addr) : RptEntry :=
  let entry' : RptEntry :=
    if entry.tag ≠ pc then { entry with stride := 0, state := .INIT }
    else
      let new_stride := addr - entry.prev_addr
      let stride_cond := new_stride = entry.stride
      match entry.state with
      | .INIT =>
        if stride_cond then { entry with state := .STEADY }
        else { entry with state := .TRANSIENT, stride := new_stride }
      | .TRANSIENT =>
        if stride_cond then { entry with state := .STEADY }
        else { entry with state := .NO_PREDICTION, stride := new_stride }
      | .STEADY =>
        if stride_cond then { entry with state := .STEADY } else { entry with state := .INIT }
      | .NO_PREDICTION =>
        if stride_cond then { entry with state := .TRANSIENT }
        else { entry with state := .NO_PREDICTION, stride := new_stride }
  { entry' with prev_addr := addr, tag := pc }

/-- `log_base2(sizeof(byte_t) * 8)`. -/
def zero_bits : Nat := 3

/-! ## The prefetchers -/

def next_line_prefetcher (cp : Params) (addr : Addr) : List Addr := [CACHE_TAGSET cp (addr + cp.bsize)]

abbrev GHB_SIZE : Nat := 16
abbrev RPT_SIZE : Nat := 16

/-- The statics of the open-ended prefetcher, as they are allocated. -/
structure OpenTables where
  count : Fin GHB_SIZE := 0
  ghb : Fin GHB_SIZE → Addr := fun _ => 0
  rpt_open : Fin RPT_SIZE → RptEntry := fun _ => {}

/-- The update of the global history buffer. -/
def OpenTables.record (t : OpenTables) (addr : Addr) : OpenTables :=
  let ghb := if t.count = 15 ∧ t.ghb t.count ≠ 0 then fun i => if i < 15 then t.ghb (i + 1) else t.ghb i else t.ghb
  { t with
    ghb := Function.update ghb t.count addr
    count := if t.count < 15 then t.count + 1 else t.count }

/-- The addresses a loop probes that stops at the first one that is not resident. -/
def probeUntilMiss (resident : Addr → Bool) : List Addr → List Addr
  | [] => []
  | a :: rest => if resident a then a :: probeUntilMiss resident rest else [a]

/-- The blocks that followed `addr` in the history. -/
def OpenTables.followers (t : OpenTables) (cp : Params) (addr : Addr) : List Addr :=
  ((List.finRange GHB_SIZE).filter (· < t.count)).filterMap fun i =>
    if t.ghb i = addr ∧ t.ghb (i + 1) ≠ 0 then some (CACHE_TAGSET cp (t.ghb (i + 1))) else none

def open_ended_prefetcher (cp : Params) (tables : Option OpenTables) (a : Access) : List Addr × OpenTables :=
  let t := (tables.getD {}).record a.addr
  let rpt_index : Fin RPT_SIZE := Fin.ofNat _ (a.pc >>> zero_bits).toNat
  let entry := update_entry (t.rpt_open rpt_index) a.addr a.pc
  let t := { t with rpt_open := Function.update t.rpt_open rpt_index entry }
  if entry.state = .STEADY then ([CACHE_TAGSET cp (a.addr + entry.stride)], t)
  else (probeUntilMiss a.resident (t.followers cp a.addr), t)

/-- The table has the size of the cache that allocated it; `none` is an access
behind its end. -/
def stride_prefetcher (cp : Params) (rpt : Option (List RptEntry)) (a : Access) :
    Option (List Addr × List RptEntry) :=
  let rpt := rpt.getD (List.replicate cp.prefetch_type {})
  let rpt_index := (a.pc >>> zero_bits).toNat % cp.prefetch_type
  match rpt[rpt_index]? with
  | none => none
  | some entry =>
    let entry := update_entry entry a.addr a.pc
    some (if entry.state ≠ .NO_PREDICTION then [CACHE_TAGSET cp (a.addr + entry.stride)] else [],
      rpt.set rpt_index entry)

/-- The static variables of the file, NULL at first. -/
structure Statics where
  open_ended : Option OpenTables := none
  rpt : Option (List RptEntry) := none

/-- The addresses the prefetcher of cache `cp` computes on a demand access. -/
def generate_prefetch (cp : Params) (s : Statics) (a : Access) : Option (List Addr × Statics) :=
  match cp.prefetch_type with
  | 0 => some ([], s)
  | 1 => some (next_line_prefetcher cp a.addr, s)
  | 2 =>
    let (pf, t) := open_ended_prefetcher cp s.open_ended a
    some (pf, { s with open_ended := some t })
  | _ => (stride_prefetcher cp s.rpt a).map fun r => (r.1, { s with rpt := some r.2 })

end Cache
