import Mathlib.Algebra.GroupWithZero.Nat
/-!
# What the predictors share (`utils.h`, `tracer.h`)

A saturating counter is a natural number: it never gets near the bound of its
type. `TAKEN` and `NOT_TAKEN` are `true` and `false`.
-/

namespace Bpred

abbrev UINT32 := BitVec 32

/-- The banks are numbered with literals, which all use this instance. -/
scoped instance neZero_banks : NeZero 4 := ⟨by decide⟩

inductive OpType
  | OPTYPE_LOAD | OPTYPE_STORE | OPTYPE_OP | OPTYPE_CALL_DIRECT | OPTYPE_RET
  | OPTYPE_BRANCH_UNCOND | OPTYPE_BRANCH_COND | OPTYPE_INDIRECT_BR_CALL | OPTYPE_MAX
  deriving DecidableEq

structure CBP_TRACE_RECORD where
  PC : UINT32 := 0
  opType : OpType := .OPTYPE_MAX
  branchTaken : Bool := false
  branchTarget : UINT32 := 0
  deriving DecidableEq

/-- The records `main` shows to the predictors. -/
def branches (trace : List CBP_TRACE_RECORD) : List CBP_TRACE_RECORD :=
  trace.filter fun r => r.opType = .OPTYPE_BRANCH_COND

def SatIncrement (x max : Nat) : Nat := if x < max then x + 1 else x

def SatDecrement (x : Nat) : Nat := if 0 < x then x - 1 else x

end Bpred
