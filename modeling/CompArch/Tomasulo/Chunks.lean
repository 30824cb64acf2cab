import CompArch.Past
import CompArch.Tomasulo.Machine
/-!
# The trace in memory (`instr.c`)

The trace is a linked list of chunks, filled one after the other. `sim_main`
skips the first entry of the first chunk.
-/

namespace Tomasulo

open Pisa Past

def INSTR_TRACE_SIZE : Nat := 1000000

/-- `instruction_trace_t` without its `next`. -/
structure Chunk where
  table : Nat → Inst
  size : Nat

namespace Chunk

/-- A chunk after `memset`. -/
def zero : Chunk := { table := fun _ => ⟨.NA, 0, 0, 0⟩, size := 0 }

def put (t : Chunk) (instr : Inst) : Chunk := { table := Function.update t.table t.size instr, size := t.size + 1 }

end Chunk

namespace Chunks

/-- Fills the first chunk with room, or a new one behind the last. -/
def put_instr : List Chunk → Inst → List Chunk
  | [], _ => []
  | [t], instr => if t.size = INSTR_TRACE_SIZE then [t, Chunk.zero.put instr] else [t.put instr]
  | t :: t' :: next, instr =>
    if t.size = INSTR_TRACE_SIZE then t :: put_instr (t' :: next) instr else t.put instr :: t' :: next

/-- `none` is the failed assertion. -/
def get_instr : List Chunk → Nat → Option Inst
  | [], _ => none
  | t :: next, index =>
    if INSTR_TRACE_SIZE ≤ index then get_instr next (index - INSTR_TRACE_SIZE)
    else some (t.table index)

/-- What `sim_main` builds: the first entry is skipped, and every executed instruction is put. -/
def sim_main (trace : Trace) : List Chunk := trace.foldl put_instr [{ Chunk.zero with size := 1 }]

/-! ## The entries of a chain of chunks -/

/-- The chunks hold the entries `l`: all but the last are full, and behind the entries all is zero. -/
def Entries : List Chunk → List Inst → Prop
  | [], _ => False
  | [t], l => t.size = l.length ∧ l.length ≤ INSTR_TRACE_SIZE ∧ ∀ i, t.table i = l.getD i ⟨.NA, 0, 0, 0⟩
  | t :: t' :: next, l => t.size = INSTR_TRACE_SIZE ∧ INSTR_TRACE_SIZE < l.length ∧
      (∀ i < INSTR_TRACE_SIZE, t.table i = l.getD i ⟨.NA, 0, 0, 0⟩) ∧ Entries (t' :: next) (l.drop INSTR_TRACE_SIZE)

theorem Entries.put {cs : List Chunk} {l : List Inst} (h : Entries cs l) (x : Inst) :
    Entries (put_instr cs x) (l ++ [x]) := by
  induction cs generalizing l with
  | nil => exact h.elim
  | cons t next ih =>
    cases next with
    | nil =>
      obtain ⟨hs, hle, ht⟩ := h
      unfold put_instr
      split
      case isTrue hfull =>
        refine ⟨hfull, ?_, fun i hi => ?_, ?_⟩
        · rw [List.length_append, List.length_singleton]
          omega
        · rw [getD_concat, if_neg (by omega), ht]
        · rw [show INSTR_TRACE_SIZE = l.length by omega, List.drop_left]
          refine ⟨rfl, Nat.le_of_ble_eq_true rfl, fun i => ?_⟩
          cases i <;> rfl
      case isFalse hfull =>
        refine ⟨?_, ?_, fun i => ?_⟩
        · rw [List.length_append, List.length_singleton, ← hs]
          rfl
        · rw [List.length_append, List.length_singleton]
          omega
        · rw [getD_concat, ← hs]
          change Function.update t.table t.size x i = _
          rw [Function.update_apply, ht]
    | cons t' next =>
      obtain ⟨hs, hlt, ht, hnext⟩ := h
      unfold put_instr
      rw [if_pos hs]
      have hput := ih hnext
      have hne : put_instr (t' :: next) x ≠ [] := by
        intro he
        rw [he] at hput
        exact hput
      obtain ⟨u, v, huv⟩ := List.exists_cons_of_ne_nil hne
      rw [huv] at hput ⊢
      refine ⟨hs, ?_, fun i hi => ?_, ?_⟩
      · rw [List.length_append]
        omega
      · rw [getD_concat, if_neg (by omega), ht i hi]
      · rw [List.drop_append_of_le_length hlt.le]
        exact hput

theorem Entries.get {cs : List Chunk} {l : List Inst} (h : Entries cs l) {i : Nat} (hi : i < l.length) :
    get_instr cs i = some (l.getD i ⟨.NA, 0, 0, 0⟩) := by
  induction cs generalizing l i with
  | nil => exact h.elim
  | cons t next ih =>
    cases next with
    | nil =>
      obtain ⟨-, hle, ht⟩ := h
      rw [get_instr, if_neg (by omega), ht]
    | cons t' next =>
      obtain ⟨-, hlt, ht, hnext⟩ := h
      unfold get_instr
      split
      case isTrue hge =>
        rw [ih hnext (by rw [List.length_drop]; omega), List.getD_eq_getElem?_getD, List.getElem?_drop,
          Nat.add_sub_cancel' hge, ← List.getD_eq_getElem?_getD]
      case isFalse hge => rw [ht i (Nat.not_le.1 hge)]

theorem entries_sim_main (trace : Trace) : Entries (sim_main trace) (⟨.NA, 0, 0, 0⟩ :: trace) := by
  induction trace using List.reverseRecOn with
  | nil =>
    refine ⟨rfl, Nat.le_of_ble_eq_true rfl, fun i => ?_⟩
    cases i <;> rfl
  | append_singleton trace x ih =>
    rw [sim_main, List.foldl_append]
    exact ih.put x

/-- The chunks give back what was put, at its position. -/
theorem get_instr_sim_main (trace : Trace) {i : Nat} (hi : i ≤ trace.length) :
    get_instr (sim_main trace) i = some (Tomasulo.get_instr trace i) := by
  rw [(entries_sim_main trace).get (Nat.lt_succ_of_le hi)]
  cases i <;> rfl

/-! ## Printing the trace -/

/-- The loop of `print_all_instr` from entry `index` of the first chunk: what it prints. -/
def printFrom (sim_num_insn : Nat) : List Chunk → Fin INSTR_TRACE_SIZE → Nat → List Inst
  | [], _, _ => []
  | t :: next, index, printed_count =>
    t.table index ::
      if printed_count + 1 = sim_num_insn then []
      else if h : index + 1 = INSTR_TRACE_SIZE then
        printFrom sim_num_insn next ⟨0, Nat.le_of_ble_eq_true rfl⟩ (printed_count + 1)
      else printFrom sim_num_insn (t :: next) ⟨index + 1, by omega⟩ (printed_count + 1)
termination_by cs index => (cs.length, INSTR_TRACE_SIZE - index)

def print_all_instr (cs : List Chunk) (sim_num_insn : Nat) : List Inst :=
  printFrom sim_num_insn cs ⟨1, Nat.le_of_ble_eq_true rfl⟩ 0

theorem Entries.table {t : Chunk} {next : List Chunk} {l : List Inst} (h : Entries (t :: next) l) {i : Nat}
    (hi : i < INSTR_TRACE_SIZE) : t.table i = l.getD i ⟨.NA, 0, 0, 0⟩ := by
  cases next with
  | nil => exact h.2.2 i
  | cons t' next => exact h.2.2.1 i hi

/-- Entries past the first chunk are in the chunks behind it. -/
theorem Entries.tail {t : Chunk} {next : List Chunk} {l : List Inst} (h : Entries (t :: next) l)
    (hl : INSTR_TRACE_SIZE < l.length) : Entries next (l.drop INSTR_TRACE_SIZE) := by
  cases next with
  | nil => exact absurd h.2.1 (Nat.not_le.2 hl)
  | cons t' next => exact h.2.2.2

/-- As many instructions as there are entries left: the loop prints these. -/
theorem Entries.printFrom {cs : List Chunk} {l : List Inst} (h : Entries cs l) {index : Fin INSTR_TRACE_SIZE}
    {printed_count sim_num_insn : Nat} (hi : index < l.length)
    (hn : sim_num_insn = printed_count + (l.length - index)) :
    printFrom sim_num_insn cs index printed_count = l.drop index := by
  induction cs, index, printed_count using printFrom.induct generalizing l with
  | case1 => exact h.elim
  | case2 t next index printed_count ihNext ih =>
    rw [Chunks.printFrom, h.table index.isLt, List.getD_eq_getElem _ _ hi, List.drop_eq_getElem_cons hi]
    congr 1
    by_cases hlast : printed_count + 1 = sim_num_insn
    · rw [if_pos hlast, List.drop_eq_nil_of_le (by omega)]
    · rw [if_neg hlast]
      by_cases hend : index + 1 = INSTR_TRACE_SIZE
      · -- an entry is left, so there is a chunk behind this one
        have hnext := ihNext (h.tail (by omega)) (by rw [List.length_drop]; change 0 < _; omega)
          (by rw [List.length_drop]; change _ = _ + (_ - 0); omega)
        rw [dif_pos hend, hnext, List.drop_drop, hend]
        rfl
      · rw [dif_neg hend]
        exact ih hend h (by change index.val + 1 < _; omega) (by change _ = _ + (_ - (index.val + 1)); omega)

/-- What was put comes back in order, from the random reader and from the printer. -/
theorem chunks_faithful (instrs : Trace) :
    (∀ i (h : i < instrs.length), get_instr (sim_main instrs) (i + 1) = some instrs[i]) ∧
      (1 ≤ instrs.length → print_all_instr (sim_main instrs) instrs.length = instrs) := by
  constructor
  · intro i hi
    rw [get_instr_sim_main instrs (Nat.succ_le_of_lt hi), Tomasulo.get_instr, List.getD_eq_getElem _ _ hi]
  · intro hn
    exact (entries_sim_main instrs).printFrom (Nat.lt_succ_of_le hn) (by simp)

end Chunks

end Tomasulo
