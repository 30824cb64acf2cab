/-!
# SLICC controllers

A controller file lists, for a state and an event, the actions to run and the
state to go to. Actions run in order on a context (the tracked entries, the
message being peeked at, what has been sent so far); then the new state is
stored. An action can stop the transition: `z_stall` leaves the message where
it is, a failed assertion or an `error` ends the simulation.
-/

namespace Slicc

/-- Why a transition did not complete. -/
inductive Stop
  /-- `z_stall`: the message stays at the head of its queue. -/
  | stall
  /-- No transition for this state and event. -/
  | undefined
  /-- A failed `assert`, or a field of an absent entry. -/
  | assertion
  /-- A call of `error`. -/
  | error (text : String)
  deriving DecidableEq

variable {σ ε χ : Type}

/-- One transition: its actions and the state it goes to. -/
structure Row (σ χ : Type) where
  actions : List (χ → Except Stop χ)
  next : σ

def runActions : List (χ → Except Stop χ) → χ → Except Stop χ
  | [], x => .ok x
  | a :: as, x => (a x).bind (runActions as)

/-- The transition of `table` for the current state and `event`. -/
def doTransition (table : σ → ε → Option (Row σ χ)) (getState : χ → σ) (setState : σ → χ → Except Stop χ)
    (event : ε) (x : χ) : Except Stop χ :=
  match table (getState x) event with
  | none => .error .undefined
  | some row => (runActions row.actions x).bind (setState row.next)

section
variable {table : σ → ε → Option (Row σ χ)} {getState : χ → σ} {setState : σ → χ → Except Stop χ} {event : ε} {x x' : χ}

/-- What a transition that completes has done. -/
theorem doTransition_ok (h : doTransition table getState setState event x = .ok x') :
    ∃ row y, table (getState x) event = some row ∧ runActions row.actions x = .ok y ∧ setState row.next y = .ok x' := by
  unfold doTransition at h
  split at h
  case h_1 => cases h
  case h_2 row hrow =>
    cases hy : runActions row.actions x with
    | error e => rw [hy] at h; cases h
    | ok y => exact ⟨row, y, hrow, hy, by rwa [hy] at h⟩

/-- A transition stalls in one of its actions, unless storing the state can stall. -/
theorem doTransition_stall (hs : ∀ st y, setState st y ≠ .error .stall)
    (h : doTransition table getState setState event x = .error .stall) :
    ∃ row, table (getState x) event = some row ∧ runActions row.actions x = .error .stall := by
  unfold doTransition at h
  split at h
  case h_1 => cases h
  case h_2 row hrow =>
    cases hy : runActions row.actions x with
    | error e =>
      rw [hy] at h
      exact ⟨row, hrow, hy.trans h⟩
    | ok y =>
      rw [hy] at h
      exact absurd h (hs _ _)

end

/-- `assert(is_valid(..))`, with the entry it guards. -/
def valid {α : Type} : Option α → Except Stop α
  | none => .error .assertion
  | some a => .ok a

/-- `assert(p)` -/
def assert (p : Bool) : Except Stop Unit := if p then .ok () else .error .assertion

end Slicc
