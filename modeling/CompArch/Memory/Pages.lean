import CompArch.Unlink
import Mathlib.Algebra.GroupWithZero.Nat
import Mathlib.Logic.Function.Basic
/-!
# The simulated memory (`memory.c`, `memory.h`)

Pages of the target are host pages, found through a hash table of translations
whose buckets are kept in the order of their last use. A bucket is the list of its
entries, and a pointer to a host page is the number of the `getcore` call that
returned it. `getcore` does not fail here. The target and the host are little
endian, so `MD_SWAPH` and its like change nothing.
-/

namespace Memory

open Function Unlink

abbrev Addr := BitVec 32
abbrev Byte := BitVec 8

def MD_LOG_PAGE_SIZE : Nat := 12
def MD_PAGE_SIZE : Nat := 4096
def MEM_LOG_PTAB_SIZE : Nat := 15
def MEM_PTAB_SIZE : Nat := 32 * 1024

/-- A host page: only the first `MD_PAGE_SIZE` bytes are there. -/
abbrev Page := Nat → Byte

/-- A pointer to a host page. -/
abbrev Core := Nat

/-- `struct mem_pte_t` -/
structure Pte where
  tag : Addr
  page : Core
  deriving DecidableEq

/-- `struct mem_t`. `core` and `allocated` are the host's: the pages `getcore` returned, and
how many they are. -/
structure Mem where
  ptab : Addr → List Pte
  core : Core → Page
  allocated : Nat
  page_count : Nat
  ptab_misses : Nat
  ptab_accesses : Nat

/-- How the C program can go wrong here. -/
inductive Bad
  /-- A null pointer is dereferenced. -/
  | null
  /-- The bytes behind the end of a host page are accessed. -/
  | bounds
  deriving DecidableEq

/-! ## Bytes of a page -/

/-- The number of `n` bytes, the lowest of them first. -/
def number (f : Nat → Byte) : (n : Nat) → BitVec (8 * n)
  | 0 => 0#0
  | n + 1 => number (fun i => f (i + 1)) n ++ f 0

def Page.load (pg : Page) (off n : Nat) : BitVec (8 * n) := number (fun i => pg (off + i)) n

/-- Byte `i` of a number of `n` bytes. -/
def byteOf {n : Nat} (v : BitVec (8 * n)) (i : Nat) : Byte := v.extractLsb' (8 * i) 8

def Page.store (pg : Page) (off : Nat) {n : Nat} (v : BitVec (8 * n)) : Page := fun i =>
  if off ≤ i ∧ i < off + n then byteOf v (i - off) else pg i

/-! ## Translation -/

def MEM_PTAB_SET (addr : Addr) : Addr := (addr >>> MD_LOG_PAGE_SIZE) &&& BitVec.ofNat 32 (MEM_PTAB_SIZE - 1)
def MEM_PTAB_TAG (addr : Addr) : Addr := addr >>> (MD_LOG_PAGE_SIZE + MEM_LOG_PTAB_SIZE)
def MEM_OFFSET (addr : Addr) : Nat := (addr &&& BitVec.ofNat 32 (MD_PAGE_SIZE - 1)).toNat

def mem_init : Mem where
  ptab _ := []
  core _ _ := 0
  allocated := 0
  page_count := 0
  ptab_misses := 0
  ptab_accesses := 0

namespace Mem

variable (m : Mem)

def setBucket (set : Addr) (ptes : List Pte) : Mem := { m with ptab := update m.ptab set ptes }

/-- The entry found becomes the first of its bucket. -/
def mem_translate (addr : Addr) : Option Core × Mem :=
  let m := { m with ptab_misses := m.ptab_misses + 1, ptab_accesses := m.ptab_accesses + 1 }
  match unlink (fun pte => pte.tag = MEM_PTAB_TAG addr) (m.ptab (MEM_PTAB_SET addr)) with
  | none => (none, m)
  | some (pte, rest) => (some pte.page, m.setBucket (MEM_PTAB_SET addr) (pte :: rest))

/-- `getcore` returns the page cleared. -/
def mem_newpage (addr : Addr) : Mem :=
  { m.setBucket (MEM_PTAB_SET addr) (⟨MEM_PTAB_TAG addr, m.allocated⟩ :: m.ptab (MEM_PTAB_SET addr)) with
    core := update m.core m.allocated fun _ => 0
    allocated := m.allocated + 1
    page_count := m.page_count + 1 }

/-- The first entry of the bucket is tried before the others. -/
def MEM_PAGE (addr : Addr) : Option Core × Mem :=
  match m.ptab (MEM_PTAB_SET addr) with
  | [] => m.mem_translate addr
  | pte :: _ =>
    if pte.tag = MEM_PTAB_TAG addr then (some pte.page, { m with ptab_accesses := m.ptab_accesses + 1 })
    else m.mem_translate addr

def MEM_TICKLE (addr : Addr) : Mem :=
  match m.MEM_PAGE addr with
  | (none, m) => m.mem_newpage addr
  | (some _, m) => m

/-! ## Accessors -/

/-- A read of a number of `n` bytes. The page is looked up for the test, and again for the read. -/
def MEM_READ (n : Nat) (addr : Addr) : Except Bad (BitVec (8 * n) × Mem) :=
  match m.MEM_PAGE addr with
  | (none, m) => .ok (0, m)
  | (some _, m) =>
    match m.MEM_PAGE addr with
    | (none, _) => .error .null
    | (some page, m) =>
      if MEM_OFFSET addr + n ≤ MD_PAGE_SIZE then .ok ((m.core page).load (MEM_OFFSET addr) n, m)
      else .error .bounds

def MEM_WRITE {n : Nat} (addr : Addr) (val : BitVec (8 * n)) : Except Bad Mem :=
  match (m.MEM_TICKLE addr).MEM_PAGE addr with
  | (none, _) => .error .null
  | (some page, m) =>
    if MEM_OFFSET addr + n ≤ MD_PAGE_SIZE then
      .ok { m with core := update m.core page ((m.core page).store (MEM_OFFSET addr) val) }
    else .error .bounds

def MEM_READ_BYTE (addr : Addr) : Except Bad (Byte × Mem) := m.MEM_READ 1 addr
def MEM_READ_HALF (addr : Addr) : Except Bad (BitVec 16 × Mem) := m.MEM_READ 2 addr
def MEM_READ_WORD (addr : Addr) : Except Bad (BitVec 32 × Mem) := m.MEM_READ 4 addr
def MEM_WRITE_BYTE (addr : Addr) (val : Byte) : Except Bad Mem := m.MEM_WRITE (n := 1) addr val
def MEM_WRITE_HALF (addr : Addr) (val : BitVec 16) : Except Bad Mem := m.MEM_WRITE (n := 2) addr val
def MEM_WRITE_WORD (addr : Addr) (val : BitVec 32) : Except Bad Mem := m.MEM_WRITE (n := 4) addr val

end Mem

/-! ## Checked accesses -/

/-- `enum md_fault_type` -/
inductive Fault
  | none | access | alignment | overflow | div0 | break | unimpl | internal
  deriving DecidableEq

/-- `enum mem_cmd` -/
inductive Cmd
  | Read | Write
  deriving DecidableEq

/-- The host memory behind a pointer. -/
abbrev Buffer := Nat → Byte

namespace Mem

/-- The read loop of `mem_access`: `n` bytes from `addr` on, the first of them to `p[i]`. -/
def readLoop (addr : Addr) (p : Buffer) (i : Nat) : (n : Nat) → Mem → Except Bad (Buffer × Mem)
  | 0, m => .ok (p, m)
  | n + 1, m => do
    let (b, m) ← m.MEM_READ_BYTE addr
    readLoop (addr + 1) (update p i b) (i + 1) n m

/-- The write loop of `mem_access`. -/
def writeLoop (addr : Addr) (p : Buffer) (i : Nat) : (n : Nat) → Mem → Except Bad Mem
  | 0, m => .ok m
  | n + 1, m => do
    let m ← m.MEM_WRITE_BYTE addr (p i)
    writeLoop (addr + 1) p (i + 1) n m

/-- The fault, the buffer and the memory an access leaves. `nbytes` is an `int`. -/
def mem_access (cmd : Cmd) (addr : Addr) (p : Buffer) (nbytes : BitVec 32) (m : Mem) :
    Except Bad (Fault × Buffer × Mem) :=
  if nbytes &&& (nbytes - 1) ≠ 0 ∨ (MD_PAGE_SIZE : Int) < nbytes.toInt then .ok (.access, p, m)
  else if addr &&& (nbytes - 1) ≠ 0 then .ok (.alignment, p, m)
  else
    match cmd with
    | .Read => do
      let (p, m) ← readLoop addr p 0 nbytes.toInt.toNat m
      return (.none, p, m)
    | .Write => do
      let m ← writeLoop addr p 0 nbytes.toInt.toNat m
      return (.none, p, m)

end Mem

/-! ## Copies -/

/-- `mem_access_fn`, the function a copy accesses the memory with. -/
abbrev AccessFn (ε σ : Type) := Cmd → Addr → Buffer → BitVec 32 → σ → Except ε (Fault × Buffer × σ)

/-- The memory behind `p + i`. -/
def Buffer.at (p : Buffer) (i : Nat) : Buffer := fun j => p (i + j)

/-- What `p` points to when `q` is behind `p + i`. -/
def Buffer.put (p : Buffer) (i : Nat) (q : Buffer) : Buffer := fun j => if i ≤ j then q (j - i) else p j

section Copy
variable {ε σ : Type} (mem_fn : AccessFn ε σ)

/-- The loops of `mem_bcopy` and `mem_bcopy4`: `n` accesses of `size` bytes, up to the first fault. -/
def copyLoop (size : Nat) (cmd : Cmd) : (n : Nat) → Addr → (p : Buffer) → (i : Nat) → σ →
    Except ε (Fault × Buffer × σ)
  | 0, _, p, _, s => .ok (.none, p, s)
  | n + 1, addr, p, i, s => do
    let (fault, q, s) ← mem_fn cmd addr (p.at i) (BitVec.ofNat 32 size) s
    if fault ≠ .none then return (fault, p.put i q, s)
    else copyLoop size cmd n (addr + BitVec.ofNat 32 size) (p.put i q) (i + size) s

def mem_bcopy (cmd : Cmd) (addr : Addr) (vp : Buffer) (nbytes : BitVec 32) (s : σ) :
    Except ε (Fault × Buffer × σ) :=
  copyLoop mem_fn 1 cmd nbytes.toInt.toNat addr vp 0 s

def mem_bcopy4 (cmd : Cmd) (addr : Addr) (vp : Buffer) (nbytes : BitVec 32) (s : σ) :
    Except ε (Fault × Buffer × σ) :=
  copyLoop mem_fn 4 cmd (nbytes.sshiftRight 2).toInt.toNat addr vp 0 s

def mem_bzero (addr : Addr) (nbytes : BitVec 32) (s : σ) : Except ε (Fault × Buffer × σ) :=
  copyLoop mem_fn 1 .Write nbytes.toInt.toNat addr (fun _ => 0) 0 s

/-- The read loop of `mem_strcpy`, with the number of rounds it may take. -/
def strcpyRead : (fuel : Nat) → Addr → (s : Buffer) → (i : Nat) → σ → Except ε (Option (Fault × Buffer × σ))
  | 0, _, _, _, _ => .ok none
  | fuel + 1, addr, s, i, t => do
    let (fault, c, t) ← mem_fn .Read addr (fun _ => 0) 1 t
    if fault ≠ .none then return some (fault, s, t)
    else if c 0 = 0 then return some (.none, update s i (c 0), t)
    else strcpyRead fuel (addr + 1) (update s i (c 0)) (i + 1) t

/-- The write loop of `mem_strcpy`. -/
def strcpyWrite : (fuel : Nat) → Addr → (s : Buffer) → (i : Nat) → σ → Except ε (Option (Fault × Buffer × σ))
  | 0, _, _, _, _ => .ok none
  | fuel + 1, addr, s, i, t => do
    let (fault, _, t) ← mem_fn .Write addr (fun _ => s i) 1 t
    if fault ≠ .none then return some (fault, s, t)
    else if s i = 0 then return some (.none, s, t)
    else strcpyWrite fuel (addr + 1) s (i + 1) t

/-- `none` when the copy takes more than `fuel` rounds. -/
def mem_strcpy (fuel : Nat) (cmd : Cmd) (addr : Addr) (s : Buffer) (t : σ) :
    Except ε (Option (Fault × Buffer × σ)) :=
  match cmd with
  | .Read => strcpyRead mem_fn fuel addr s 0 t
  | .Write => strcpyWrite mem_fn fuel addr s 0 t

end Copy

end Memory
