import CompArch.Pisa
import Mathlib.Data.List.FinRange
import Mathlib.Logic.Function.Basic
/-!
# The branch predictors (`bpred.c`)

`bpred_create`, `bpred_lookup`, `bpred_update` and `bpred_recover`. A pointer to a
counter is the table and the index there, and the entries of the BTB are numbered in
their sets. What an entry remembers of its opcode is left out: nothing reads it.
-/

namespace Branch

open Function Pisa

abbrev Addr := BitVec 32
abbrev Word := BitVec 32

/-! ## Parameters -/

/-- `enum bpred_class` -/
inductive BpredClass
  | BPredComb | BPred2Level | BPred2bit | BPredTaken | BPredNotTaken
  deriving DecidableEq

/-- The arguments of `bpred_create`. -/
structure Params where
  kind : BpredClass
  bimod_size : Word
  l1size : Word
  l2size : Word
  meta_size : Word
  shift_width : Word
  xor : Bool
  btb_sets : Word
  btb_assoc : Word
  retstack_size : Word

/-- The number of entries in a set of the BTB. -/
abbrev Params.assoc (p : Params) : Nat := p.btb_assoc.toNat

/-- The number of entries that are allocated for the BTB, a product of 32 bits. -/
def Params.entries (p : Params) : Word := p.btb_sets * p.btb_assoc

/-- The size of the return-address stack. -/
def Params.size (p : Params) : Nat := p.retstack_size.toNat

/-- `!x || (x & (x-1)) != 0` -/
def bad (x : Word) : Bool := x = 0 ∨ x &&& (x - 1) ≠ 0

/-! ## State -/

/-- The direction predictors. -/
inductive Dir
  | bimod | twolev | metapred
  deriving DecidableEq

/-- A pointer to a counter. -/
structure Ptr where
  dir : Dir
  index : Word
  deriving DecidableEq

/-- A set of the BTB: the fields of its `n` entries. -/
structure BtbSet (n : Nat) where
  addr : Fin n → Addr := fun _ => 0
  target : Fin n → Addr := fun _ => 0
  prev : Fin n → Option (Fin n) := fun _ => none
  next : Fin n → Option (Fin n) := fun _ => none

structure Stats where
  addr_hits : Nat := 0
  dir_hits : Nat := 0
  used_ras : Nat := 0
  used_bimod : Nat := 0
  used_2lev : Nat := 0
  jr_hits : Nat := 0
  jr_seen : Nat := 0
  jr_non_ras_hits : Nat := 0
  jr_non_ras_seen : Nat := 0
  misses : Nat := 0
  lookups : Nat := 0
  retstack_pops : Nat := 0
  retstack_pushes : Nat := 0
  ras_hits : Nat := 0

/-- `struct bpred_t`. The class tells which of the tables there are. -/
structure Bpred (p : Params) where
  table : Dir → Word → Nat
  shiftregs : Word → Word := fun _ => 0
  btb_data : Word → BtbSet p.assoc
  stack : Nat → Addr := fun _ => 0
  tos : Nat
  stats : Stats := {}

/-- `struct bpred_update_t` -/
structure Update where
  pdir1 : Option Ptr
  pdir2 : Option Ptr
  pmeta : Option Ptr
  ras : Bool
  bimod : Bool
  twolev : Bool
  meta_ : Bool

inductive Stop
  | assertion
  /-- A null pointer is dereferenced. -/
  | null
  /-- An entry outside the BTB or the stack is used. -/
  | bounds
  deriving DecidableEq

def assert (a : Bool) : Except Stop Unit := if a then .ok () else .error .assertion

def dassert (a : Bool) : Except Stop Unit := assert a

def notNull {α : Type} : Option α → Except Stop α
  | none => .error .null
  | some a => .ok a

/-! ## `bpred_create` -/

/-- The counters are weakly this or that. -/
def flipflop : Nat → Nat
  | 0 => 1
  | n + 1 => 3 - flipflop n

def check (fails : Bool) (text : String) : Except String Unit := if fails then .error text else .ok ()

def bpred_dir_create (p : Params) : Dir → Except String Unit
  | .bimod => check (bad p.bimod_size)
      ("2bit table size, `" ++ toString p.bimod_size.toInt ++ "', must be non-zero and a power of two")
  | .metapred => check (bad p.meta_size)
      ("2bit table size, `" ++ toString p.meta_size.toInt ++ "', must be non-zero and a power of two")
  | .twolev => do
    check (bad p.l1size) ("level-1 size, `" ++ toString p.l1size.toInt ++ "', must be non-zero and a power of two")
    check (bad p.l2size) ("level-2 size, `" ++ toString p.l2size.toInt ++ "', must be non-zero and a power of two")
    check (p.shift_width = 0 ∨ 30 < p.shift_width)
      ("shift register width, `" ++ toString p.shift_width.toInt ++ "', must be non-zero and positive")

/-- The links of a new set: one list from the first entry to the last. -/
def BtbSet.created (n : Nat) : BtbSet n where
  next i := if h : i + 1 < n then some ⟨i + 1, h⟩ else none
  prev i := if 0 < i.val then some ⟨i - 1, Nat.lt_of_le_of_lt (Nat.sub_le ..) i.isLt⟩ else none

def Bpred.created (p : Params) : Bpred p where
  table _ i := flipflop i.toNat
  btb_data _ := .created p.assoc
  tos := p.size - 1

/-- The BTB and the stack of a predictor that has them. -/
def checkStateful (p : Params) : Except String Unit := do
  check (bad p.btb_sets) "number of BTB sets must be non-zero and a power of two"
  check (bad p.btb_assoc) "BTB associativity must be non-zero and a power of two"
  check (p.retstack_size &&& (p.retstack_size - 1) ≠ 0)
    "Return-address-stack size must be zero or a power of two"

def bpred_create (p : Params) : Except String (Bpred p) := do
  match p.kind with
  | .BPredComb => do
    bpred_dir_create p .bimod
    bpred_dir_create p .twolev
    bpred_dir_create p .metapred
    checkStateful p
  | .BPred2Level => do
    bpred_dir_create p .twolev
    checkStateful p
  | .BPred2bit => do
    bpred_dir_create p .bimod
    checkStateful p
  | .BPredTaken | .BPredNotTaken => .ok ()
  return .created p

/-! ## Lookups -/

variable {p : Params}

def MD_BR_SHIFT : Nat := 3

def MD_IS_INDIR (op : Opcode) : Bool := op = .JR

def isCtrl (op : Opcode) : Bool := MD_OP_FLAGS op &&& F_CTRL ≠ 0

/-- `(MD_OP_FLAGS(op) & (F_CTRL|F_UNCOND)) == (F_CTRL|F_UNCOND)` -/
def isJump (op : Opcode) : Bool := MD_OP_FLAGS op &&& (F_CTRL ||| F_UNCOND) = F_CTRL ||| F_UNCOND

/-- `(MD_OP_FLAGS(op) & (F_CTRL|F_COND)) == (F_CTRL|F_COND)` -/
def isCond (op : Opcode) : Bool := MD_OP_FLAGS op &&& (F_CTRL ||| F_COND) = F_CTRL ||| F_COND

def BIMOD_HASH (size baddr : Word) : Word := ((baddr >>> 19) ^^^ (baddr >>> MD_BR_SHIFT)) &&& (size - 1)

def Params.l1index (p : Params) (baddr : Addr) : Word := (baddr >>> MD_BR_SHIFT) &&& (p.l1size - 1)

def Params.btbIndex (p : Params) (baddr : Addr) : Word := (baddr >>> MD_BR_SHIFT) &&& (p.btb_sets - 1)

/-- `(1 << shift_width) - 1` -/
def Params.historyMask (p : Params) : Word := (1 <<< p.shift_width.toNat) - 1

namespace Bpred

variable (pred : Bpred p)

def l2index (baddr : Addr) : Word :=
  let history := pred.shiftregs (p.l1index baddr)
  let high := (baddr >>> MD_BR_SHIFT) <<< p.shift_width.toNat
  let index :=
    if p.xor then ((history ^^^ (baddr >>> MD_BR_SHIFT)) &&& p.historyMask) ||| high else history ||| high
  index &&& (p.l2size - 1)

def bpred_dir_lookup (baddr : Addr) : Dir → Ptr
  | .bimod => ⟨.bimod, BIMOD_HASH p.bimod_size baddr⟩
  | .metapred => ⟨.metapred, BIMOD_HASH p.meta_size baddr⟩
  | .twolev => ⟨.twolev, pred.l2index baddr⟩

/-- The counter that a pointer points to. -/
def counter (a : Ptr) : Nat := pred.table a.dir a.index

/-- The pointers that `bpred_lookup` leaves for the update, unless for a jump. -/
def pointers (baddr : Addr) (u : Update) : Update :=
  match p.kind with
  | .BPredComb =>
    let bimod := pred.bpred_dir_lookup baddr .bimod
    let twolev := pred.bpred_dir_lookup baddr .twolev
    let meta_ := pred.bpred_dir_lookup baddr .metapred
    { u with
      pmeta := some meta_
      meta_ := 2 ≤ pred.counter meta_
      bimod := 2 ≤ pred.counter bimod
      twolev := 2 ≤ pred.counter twolev
      pdir1 := some (if 2 ≤ pred.counter meta_ then twolev else bimod)
      pdir2 := some (if 2 ≤ pred.counter meta_ then bimod else twolev) }
  | .BPred2Level => { u with pdir1 := some (pred.bpred_dir_lookup baddr .twolev) }
  | .BPred2bit => { u with pdir1 := some (pred.bpred_dir_lookup baddr .bimod) }
  | .BPredTaken | .BPredNotTaken => u

def pop : Bpred p :=
  { pred with
    tos := (pred.tos + p.size - 1) % p.size
    stats := { pred.stats with retstack_pops := pred.stats.retstack_pops + 1 } }

def push (baddr : Addr) : Bpred p :=
  let tos := (pred.tos + 1) % p.size
  { pred with
    tos
    stack := update pred.stack tos (baddr + 8)
    stats := { pred.stats with retstack_pushes := pred.stats.retstack_pushes + 1 } }

end Bpred

/-- The first entry for an address. -/
def BtbSet.find {n : Nat} (s : BtbSet n) (baddr : Addr) : Option (Fin n) :=
  (List.finRange n).find? fun i => s.addr i = baddr

/-- The set of an address, unless it is outside the BTB. -/
def Bpred.btbSet (pred : Bpred p) (baddr : Addr) : Except Stop (BtbSet p.assoc) :=
  if (p.btbIndex baddr).toNat * p.assoc + p.assoc ≤ p.entries.toNat then .ok (pred.btb_data (p.btbIndex baddr))
  else .error .bounds

/-- The target in the BTB. -/
def Bpred.btbTarget (pred : Bpred p) (baddr : Addr) : Except Stop (Option Addr) := do
  let s ← pred.btbSet baddr
  return (s.find baddr).map s.target

/-- The arguments of `bpred_lookup` about the branch. -/
structure Query where
  baddr : Addr
  btarget : Addr
  op : Opcode
  is_call : Bool
  is_return : Bool

/-- The part of `bpred_lookup` from the stack on. -/
def Bpred.lookupStateful (pred : Bpred p) (q : Query) (u : Update) : Except Stop (Addr × Bpred p × Update × Nat) :=
  let u := if isJump q.op then u else pred.pointers q.baddr u
  let stack_recover_idx := if p.size ≠ 0 then pred.tos else 0
  if q.is_return ∧ p.size ≠ 0 then
    if pred.tos < p.size then .ok (pred.stack pred.tos, pred.pop, { u with ras := true }, stack_recover_idx)
    else .error .bounds
  else do
    let pred := if q.is_call ∧ p.size ≠ 0 then pred.push q.baddr else pred
    let target ← pred.btbTarget q.baddr
    if isJump q.op then return (target.getD 1, pred, u, stack_recover_idx)
    else
      let pdir1 ← notNull u.pdir1
      return (if 2 ≤ pred.counter pdir1 then target.getD 1 else 0, pred, u, stack_recover_idx)

/-- The predicted address, what is left behind, and the new contents of the two pointers the caller passes. -/
def Bpred.bpred_lookup (pred : Bpred p) (q : Query) (u : Update) (stack_recover_idx : Nat) :
    Except Stop (Addr × Bpred p × Update × Nat) :=
  if ¬ isCtrl q.op then .ok (0, pred, u, stack_recover_idx)
  else
    let pred := { pred with stats := { pred.stats with lookups := pred.stats.lookups + 1 } }
    let u := { u with ras := false, pdir1 := none, pdir2 := none, pmeta := none }
    match p.kind with
    | .BPredTaken => .ok (q.btarget, pred, u, stack_recover_idx)
    | .BPredNotTaken => .ok (if isJump q.op then q.btarget else q.baddr + 8, pred, u, stack_recover_idx)
    | .BPredComb | .BPred2Level | .BPred2bit => pred.lookupStateful q u

def Bpred.bpred_recover (pred : Bpred p) (stack_recover_idx : Nat) : Bpred p := { pred with tos := stack_recover_idx }

/-! ## Updates -/

namespace BtbSet

variable {n : Nat} (s : BtbSet n)

/-- What the loop over a set has found. -/
structure Scan (n : Nat) where
  pbtb : Option (Fin n) := none
  lruhead : Option (Fin n) := none
  lruitem : Option (Fin n) := none

/-- Takes an entry that is wanted, and asserts that there was none before. -/
def first (wanted : Prop) [Decidable wanted] (i : Fin n) (found : Option (Fin n)) : Except Stop (Option (Fin n)) :=
  if wanted then do
    assert (found = none)
    return some i
  else .ok found

def scan (baddr : Addr) : List (Fin n) → Scan n → Except Stop (Scan n)
  | [], r => .ok r
  | i :: is, r => do
    let pbtb ← first (s.addr i = baddr) i r.pbtb
    dassert (s.prev i ≠ s.next i)
    let lruhead ← first (s.prev i = none) i r.lruhead
    let lruitem ← first (s.next i = none) i r.lruitem
    scan baddr is { pbtb, lruhead, lruitem }

/-- Splices the entry out and puts it at the head of the list. -/
def toHead (i head : Fin n) : BtbSet n :=
  let s := match s.prev i with
    | none => s
    | some y => { s with next := update s.next y (s.next i) }
  let s := match s.next i with
    | none => s
    | some y => { s with prev := update s.prev y (s.prev i) }
  { s with
    next := update s.next i (some head)
    prev := update (update s.prev i none) head (some i) }

/-- The entry to update, and the set with that entry most recent. -/
def select (baddr : Addr) : Except Stop (Fin n × BtbSet n) :=
  if 1 < n then do
    let r ← s.scan baddr (List.finRange n) {}
    dassert (r.lruhead ≠ none ∧ r.lruitem ≠ none)
    let i ← notNull (r.pbtb.or r.lruitem)
    if r.lruhead = some i then return (i, s)
    else
      let s := s.toHead i (← notNull r.lruhead)
      dassert (s.prev i ≠ none ∨ s.next i ≠ none)
      dassert (s.prev i ≠ s.next i)
      return (i, s)
  else do
    let i ← notNull (List.finRange n).head?
    return (i, s)

/-- Enters the branch, or corrects its target. -/
def write (i : Fin n) (baddr btarget : Addr) (correct : Bool) : BtbSet n :=
  if s.addr i = baddr then
    if correct then s else { s with target := update s.target i btarget }
  else { s with addr := update s.addr i baddr, target := update s.target i btarget }

end BtbSet

/-- The arguments of `bpred_update` about the branch. -/
structure Resolved where
  baddr : Addr
  btarget : Addr
  taken : Bool
  pred_taken : Bool
  correct : Bool
  op : Opcode

/-- A saturating counter after an outcome. -/
def bump (up : Bool) (c : Nat) : Nat :=
  if up then if c < 3 then c + 1 else c
  else if 0 < c then c - 1 else c

namespace Bpred

variable (pred : Bpred p)

def count (o : Resolved) (u : Update) (s : Stats) : Stats :=
  let s := if o.correct then { s with addr_hits := s.addr_hits + 1 } else s
  let s := if o.pred_taken = o.taken then { s with dir_hits := s.dir_hits + 1 } else { s with misses := s.misses + 1 }
  let s :=
    if u.ras then
      { s with used_ras := s.used_ras + 1, ras_hits := if o.correct then s.ras_hits + 1 else s.ras_hits }
    else if isCond o.op then
      if u.meta_ then { s with used_2lev := s.used_2lev + 1 } else { s with used_bimod := s.used_bimod + 1 }
    else s
  if MD_IS_INDIR o.op then
    let s := { s with jr_seen := s.jr_seen + 1, jr_hits := if o.correct then s.jr_hits + 1 else s.jr_hits }
    if u.ras then s
    else
      { s with
        jr_non_ras_seen := s.jr_non_ras_seen + 1
        jr_non_ras_hits := if o.correct then s.jr_non_ras_hits + 1 else s.jr_non_ras_hits }
  else s

/-- The L1 table after a conditional branch. -/
def shift (baddr : Addr) (taken : Bool) : Bpred p :=
  let l1index := p.l1index baddr
  let shift_reg := (pred.shiftregs l1index <<< 1) ||| (if taken then 1 else 0)
  { pred with shiftregs := update pred.shiftregs l1index (shift_reg &&& p.historyMask) }

/-- Moves the counter behind a pointer, unless it is null. -/
def adjust (up : Bool) (a : Option Ptr) : Bpred p :=
  match a with
  | none => pred
  | some a =>
    { pred with table := update pred.table a.dir (update (pred.table a.dir) a.index (bump up (pred.counter a))) }

/-- The counters of an update. -/
def train (taken : Bool) (u : Update) : Bpred p :=
  let pred := (pred.adjust taken u.pdir1).adjust taken u.pdir2
  if u.bimod ≠ u.twolev then pred.adjust (u.twolev = taken) u.pmeta else pred

/-- The entry of the BTB that is updated: none unless the branch is taken. -/
def btbEntry (baddr : Addr) (taken : Bool) : Except Stop (Option (Fin p.assoc × BtbSet p.assoc)) :=
  if taken then do
    let s ← pred.btbSet baddr
    return some (← s.select baddr)
  else .ok none

/-- An update of a stateful predictor, from the L1 table on. -/
def learn (o : Resolved) (u : Update) : Except Stop (Bpred p) := do
  let pred :=
    if ¬ isJump o.op ∧ (p.kind = .BPred2Level ∨ p.kind = .BPredComb) then pred.shift o.baddr o.taken else pred
  let pbtb ← pred.btbEntry o.baddr o.taken
  let pred := pred.train o.taken u
  match pbtb with
  | none => return pred
  | some (i, s) =>
    dassert o.taken
    return { pred with btb_data := update pred.btb_data (p.btbIndex o.baddr) (s.write i o.baddr o.btarget o.correct) }

def bpred_update (o : Resolved) (u : Update) : Except Stop (Bpred p) :=
  if ¬ isCtrl o.op then .ok pred
  else
    let pred := { pred with stats := count o u pred.stats }
    -- a return that used the stack
    if MD_IS_INDIR o.op ∧ u.ras then .ok pred
    else if p.kind = .BPredNotTaken ∨ p.kind = .BPredTaken then .ok pred
    else pred.learn o u

end Bpred

/-! ## Runs -/

/-- The calls on a predictor. -/
inductive Op
  | lookup (q : Query) (u : Update) (stack_recover_idx : Nat)
  | update (o : Resolved) (u : Update)
  | recover (stack_recover_idx : Nat)

namespace Bpred

def step (pred : Bpred p) : Op → Except Stop (Bpred p)
  | .lookup q u idx => (pred.bpred_lookup q u idx).map fun r => r.2.1
  | .update o u => pred.bpred_update o u
  | .recover idx => .ok (pred.bpred_recover idx)

def run (pred : Bpred p) : List Op → Except Stop (Bpred p)
  | [] => .ok pred
  | op :: ops => do (← pred.step op).run ops

end Bpred

end Branch
