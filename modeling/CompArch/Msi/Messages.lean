import Mathlib.Algebra.GroupWithZero.Nat
import Mathlib.Data.Finset.Card
import Mathlib.Data.Fintype.Pi
/-!
# What the controllers exchange

`MSI-msg.sm` is not in the repository; a message has the fields the two
controllers set and read. A message is about one block, so its address is not
a field, and neither is its destination, which says where it is queued.
-/

namespace Msi

/-- Two or three caches are numbered with literals, which all use these instances. -/
scoped instance neZero_two : NeZero 2 := ⟨by decide⟩
scoped instance neZero_three : NeZero 3 := ⟨by decide⟩

/-- The bytes of a block of `n` bytes. -/
def DataBlock (n : Nat) : Type := Fin n → UInt8

namespace DataBlock
variable {n : Nat}

instance : DecidableEq (DataBlock n) := inferInstanceAs (DecidableEq (Fin n → UInt8))

/-- A new block is all zero. -/
instance : Inhabited (DataBlock n) := ⟨fun _ => 0⟩

/-- `dst.copyPartial(src, offset, len)` overwrites `len` bytes from `offset` on. -/
def copyPartial (dst src : DataBlock n) (offset len : Nat) : DataBlock n :=
  fun i => if offset ≤ i.val ∧ i.val < offset + len then src i else dst i

@[simp] theorem copyPartial_zero (dst src : DataBlock n) (offset : Nat) : copyPartial dst src offset 0 = dst := by
  funext i
  simp only [copyPartial, Nat.add_zero]
  exact if_neg (by omega)

end DataBlock

/-- A controller: one of the L1 caches, or the block's home directory
(`map_Address_to_Directory(address)`). -/
inductive MachineID (C : Type)
  | L1Cache (c : C)
  | Directory
  deriving DecidableEq

inductive CoherenceRequestType
  | GETS | GETM | PUTS | PUTM | INV | WB_ACK
  deriving DecidableEq

inductive CoherenceResponseType
  | DATA | DATA_FROM_DIR | DATA_FROM_OWNER | ACK
  deriving DecidableEq

inductive MemoryRequestType
  | MEMORY_READ | MEMORY_WB
  deriving DecidableEq

inductive RubyRequestType
  | LD | IFETCH | ST | ATOMIC
  deriving DecidableEq

/-- Who served a callback, as the sequencer is told. -/
inductive GenericMachineType
  | L1Cache | L1Cache_wCC | Directory
  deriving DecidableEq

inductive AccessPermission
  | Read_Only | Read_Write | Invalid | NotPresent | Busy
  deriving DecidableEq

/-- A request, or a request the directory forwards. -/
structure RequestMsg (C : Type) (n : Nat) where
  type : CoherenceRequestType
  requestor : MachineID C
  dataBlk : DataBlock n := default
  deriving DecidableEq

structure ResponseMsg (C : Type) (n : Nat) where
  type : CoherenceResponseType
  sender : MachineID C
  dataBlk : DataBlock n := default
  ackCount : Int := 0
  deriving DecidableEq

structure MemoryMsg (C : Type) (n : Nat) where
  type : MemoryRequestType
  originalRequestorMachId : MachineID C
  dataBlk : DataBlock n
  deriving DecidableEq

/-- What a cache tells its core's sequencer, and the requests it takes from it. -/
inductive Callback (n : Nat)
  /-- `m_popMandatoryQueue` took a request of this type. -/
  | popMandatory (type : RubyRequestType)
  | readCallback (mach : GenericMachineType) (data : DataBlock n)
  /-- The store of `data` completed. -/
  | writeCallback (mach : GenericMachineType) (data : DataBlock n)
  | evictionCallback
  deriving DecidableEq

end Msi
