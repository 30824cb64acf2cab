import CompArch.Footprint
import CompArch.Pisa.Machine
/-!
# The parts of the machine that the macros access

The register files consist of single registers, and the memory is one cell with the
host behind it. A macro does what the cells it needs say, and changes only the cells
it sets.
-/

namespace Pisa

open Effects Function Memory

/-- A part of the machine. -/
inductive Cell
  | GPR (n : Fin 32)
  | FPR (n : Fin 32)
  | HI | LO | FCC | PC | NPC | mem
  deriving DecidableEq

variable {ε σ O α : Type}

/-- Two machines hold the same there. -/
def Cell.Same : Cell → Machine σ O → Machine σ O → Prop
  | .GPR n, s, t => s.regs.R n = t.regs.R n
  | .FPR n, s, t => s.regs.F n = t.regs.F n
  | .HI, s, t => s.regs.hi = t.regs.hi
  | .LO, s, t => s.regs.lo = t.regs.lo
  | .FCC, s, t => s.regs.fcc = t.regs.fcc
  | .PC, s, t => s.regs.PC = t.regs.PC
  | .NPC, s, t => s.regs.NPC = t.regs.NPC
  | .mem, s, t => s.store = t.store ∧ s.os = t.os

/-- The cells that decide what a macro does. -/
def Macro.needs : Macro → Cell → Prop
  | .GPR n, c => ∃ m : Fin 32, m = n ∧ c = .GPR m
  | .FPR_L n, c => ∃ m : Fin 32, m = n ∧ c = .FPR m
  | .HI, c => c = .HI
  | .LO, c => c = .LO
  | .FCC, c => c = .FCC
  | .CPC, c => c = .PC
  | .READ_BYTE _, c | .READ_HALF _, c | .READ_WORD _, c => c = .mem
  | .WRITE_BYTE .., c | .WRITE_HALF .., c | .WRITE_WORD .., c => c = .mem
  | .SYSCALL, c => c = .mem ∨ ∃ m, c = .GPR m
  | _, _ => False

/-- The cells a macro changes. A read reorders the translations of the memory. -/
def Macro.sets : Macro → Cell → Prop
  | .SET_GPR n _, c => ∃ m : Fin 32, m = n ∧ c = .GPR m
  | .SET_FPR_L n _, c => ∃ m : Fin 32, m = n ∧ c = .FPR m
  | .SET_HI _, c => c = .HI
  | .SET_LO _, c => c = .LO
  | .SET_FCC _, c => c = .FCC
  | .SET_NPC _, c => c = .NPC
  | .READ_BYTE _, c | .READ_HALF _, c | .READ_WORD _, c => c = .mem
  | .WRITE_BYTE .., c | .WRITE_HALF .., c | .WRITE_WORD .., c => c = .mem
  | .SYSCALL, c => c = .mem ∨ ∃ m, c = .GPR m
  | _, _ => False

def access : Access Macro Cell := ⟨Macro.needs, Macro.sets⟩

def cells : Cells (Machine σ O) Cell where
  Same := Cell.Same
  refl c s := by cases c <;> simp [Cell.Same]
  symm {c s t} h := by cases c <;> simp_all [Cell.Same]
  trans {c s t u} h h' := by cases c <;> simp_all [Cell.Same]

/-! ## The macros are local -/

section Local
variable {p : Ports ε σ} {sys : Syscall O} {s s' t : Machine σ O}

/-- A system call changes no other registers than the general ones. -/
theorem sysHandler_keeps {prog : Prog SysOp SysOp.Ans α} {r r' : Regs} {m m' : σ} {a : α}
    (hr : prog.run p.sysHandler (r, m) = .ok (a, (r', m'))) : r' = { r with R := r'.R } := by
  refine run_keeps (P := fun _ => True) (I := fun x => x.1 = { r with R := x.1.R }) ?_ prog.only_true
    (s := (r, m)) rfl hr
  rintro (k | ⟨k, v⟩ | ⟨cmd, addr, q, nbytes⟩ | _) x a x' - hx ho
  · obtain ⟨-, he⟩ := reg_eq_ok.1 ho
    obtain ⟨-, rfl⟩ := Prod.mk.inj he
    exact hx
  · obtain ⟨-, he⟩ := reg_eq_ok.1 ho
    obtain ⟨-, rfl⟩ := Prod.mk.inj he
    rw [Regs.setR, hx]
  · obtain ⟨y, -, he⟩ := Outcome.bind_ok.1 ho
    obtain ⟨-, rfl⟩ := Prod.mk.inj (Except.ok.inj he)
    exact hx
  · cases ho

/-- It depends on no others. -/
theorem sysHandler_same {prog : Prog SysOp SysOp.Ans α} {r r' u : Regs} {m m' : σ} {a : α}
    (hru : ∀ n < 32, r.R n = u.R n) (hr : prog.run p.sysHandler (r, m) = .ok (a, (r', m'))) :
    ∃ u', prog.run p.sysHandler (u, m) = .ok (a, (u', m')) ∧ ∀ n < 32, r'.R n = u'.R n := by
  have href : Refines (fun _ => True) p.sysHandler p.sysHandler
      fun x y => (∀ n < 32, x.1.R n = y.1.R n) ∧ x.2 = y.2 := by
    rintro (k | ⟨k, v⟩ | ⟨cmd, addr, q, nbytes⟩ | _) ⟨r₁, x⟩ ⟨r₂, y⟩ b s' - ⟨hR, rfl⟩ ho
    · obtain ⟨hk, he⟩ := reg_eq_ok.1 ho
      obtain ⟨rfl, rfl⟩ := Prod.mk.inj he
      exact ⟨(r₂, x), (reg_ok p hk _).trans (by rw [hR k hk]), hR, rfl⟩
    · obtain ⟨hk, he⟩ := reg_eq_ok.1 ho
      obtain ⟨rfl, rfl⟩ := Prod.mk.inj he
      refine ⟨(r₂.setR k v, x), reg_ok p hk _, fun n hn => ?_, rfl⟩
      by_cases hnk : n = k
      · subst hnk
        rw [Regs.setR_self, Regs.setR_self]
      · rw [Regs.setR_ne _ hnk, Regs.setR_ne _ hnk, hR n hn]
    · obtain ⟨z, hz, he⟩ := Outcome.bind_ok.1 ho
      obtain ⟨rfl, rfl⟩ := Prod.mk.inj (Except.ok.inj he)
      refine ⟨(r₂, z.2.2), ?_, hR, rfl⟩
      show (p.mem_fn cmd addr q nbytes x >>= _) = _
      rw [hz]
      rfl
    · cases ho
  obtain ⟨⟨u', _⟩, hu, hR, rfl⟩ := href.run prog.only_true (s := (r, m)) (t := (u, m)) ⟨hru, rfl⟩ hr
  exact ⟨u', hu, hR⟩

theorem handler_frame {o : Macro} {a : o.Ans} {c : Cell} (ho : p.handler sys o s = .ok (a, s')) (hc : ¬ o.sets c) :
    c.Same s s' := by
  have hrefl : c.Same s s := cells.refl c s
  cases o with
  | GPR n | FPR_L n =>
    obtain ⟨-, he⟩ := reg_eq_ok.1 ho
    obtain ⟨-, rfl⟩ := Prod.mk.inj he
    exact hrefl
  | SET_GPR n v =>
    obtain ⟨hn, he⟩ := reg_eq_ok.1 ho
    obtain ⟨-, rfl⟩ := Prod.mk.inj he
    cases c with
    | GPR m => exact (Regs.setR_ne _ (fun hm => hc ⟨m, hm, rfl⟩) v).symm
    | _ => exact hrefl
  | SET_FPR_L n v =>
    obtain ⟨hn, he⟩ := reg_eq_ok.1 ho
    obtain ⟨-, rfl⟩ := Prod.mk.inj he
    cases c with
    | FPR m => exact (Regs.setF_ne _ (fun hm => hc ⟨m, hm, rfl⟩) v).symm
    | _ => exact hrefl
  | HI | LO | FCC | CPC =>
    obtain ⟨-, rfl⟩ := Prod.mk.inj (Except.ok.inj ho)
    exact hrefl
  | SET_HI v | SET_LO v | SET_FCC v | SET_NPC v =>
    obtain ⟨-, rfl⟩ := Prod.mk.inj (Except.ok.inj ho)
    cases c with
    | HI | LO | FCC | NPC => first | exact hrefl | exact (hc rfl).elim
    | _ => exact hrefl
  | READ_BYTE addr | READ_HALF addr | READ_WORD addr =>
    obtain ⟨q, -, he⟩ := load_ok ho
    obtain ⟨-, rfl⟩ := Prod.mk.inj he
    cases c with
    | mem => exact (hc rfl).elim
    | _ => exact hrefl
  | WRITE_BYTE v addr | WRITE_HALF v addr | WRITE_WORD v addr =>
    obtain ⟨store, -, he⟩ := save_ok ho
    obtain ⟨-, rfl⟩ := Prod.mk.inj he
    cases c with
    | mem => exact (hc rfl).elim
    | _ => exact hrefl
  | SYSCALL =>
    obtain ⟨store, os, regs, store', -, hr, he⟩ := syscall_ok ho
    obtain ⟨-, rfl⟩ := Prod.mk.inj he
    have hk := sysHandler_keeps hr
    cases c with
    | mem => exact (hc (.inl rfl)).elim
    | GPR n => exact (hc (.inr ⟨n, rfl⟩)).elim
    | _ =>
      rw [hk]
      exact hrefl
  | abort why => cases ho

theorem handler_same {o : Macro} {a : o.Ans} (hst : ∀ c, o.needs c → c.Same s t)
    (ho : p.handler sys o s = .ok (a, s')) :
    ∃ t', p.handler sys o t = .ok (a, t') ∧ ∀ c, o.sets c → c.Same s' t' := by
  cases o with
  | GPR n =>
    obtain ⟨hn, he⟩ := reg_eq_ok.1 ho
    obtain ⟨rfl, rfl⟩ := Prod.mk.inj he
    have heq : s.regs.R n = t.regs.R n := hst (.GPR ⟨n, hn⟩) ⟨⟨n, hn⟩, rfl, rfl⟩
    exact ⟨t, (reg_ok p hn _).trans (by rw [heq]), fun c hc => hc.elim⟩
  | FPR_L n =>
    obtain ⟨hn, he⟩ := reg_eq_ok.1 ho
    obtain ⟨rfl, rfl⟩ := Prod.mk.inj he
    have heq : s.regs.F n = t.regs.F n := hst (.FPR ⟨n, hn⟩) ⟨⟨n, hn⟩, rfl, rfl⟩
    exact ⟨t, (reg_ok p hn _).trans (by rw [heq]), fun c hc => hc.elim⟩
  | SET_GPR n v =>
    obtain ⟨hn, he⟩ := reg_eq_ok.1 ho
    obtain ⟨-, rfl⟩ := Prod.mk.inj he
    refine ⟨_, reg_ok p hn _, ?_⟩
    rintro _ ⟨m, rfl, rfl⟩
    exact (Regs.setR_self ..).trans (Regs.setR_self ..).symm
  | SET_FPR_L n v =>
    obtain ⟨hn, he⟩ := reg_eq_ok.1 ho
    obtain ⟨-, rfl⟩ := Prod.mk.inj he
    refine ⟨_, reg_ok p hn _, ?_⟩
    rintro _ ⟨m, rfl, rfl⟩
    exact (Regs.setF_self ..).trans (Regs.setF_self ..).symm
  | HI | LO | FCC | CPC =>
    obtain ⟨rfl, rfl⟩ := Prod.mk.inj (Except.ok.inj ho)
    exact ⟨t, congrArg Except.ok (Prod.ext (hst _ rfl).symm rfl), fun c hc => hc.elim⟩
  | SET_HI v | SET_LO v | SET_FCC v | SET_NPC v =>
    obtain ⟨-, rfl⟩ := Prod.mk.inj (Except.ok.inj ho)
    refine ⟨_, rfl, ?_⟩
    rintro _ rfl
    rfl
  | READ_BYTE addr | READ_HALF addr | READ_WORD addr =>
    obtain ⟨q, hq, he⟩ := load_ok ho
    obtain ⟨rfl, rfl⟩ := Prod.mk.inj he
    obtain ⟨hstore, hos⟩ := hst .mem rfl
    refine ⟨{ t with store := q.2 }, load_of (hstore ▸ hq), ?_⟩
    rintro _ rfl
    exact ⟨rfl, hos⟩
  | WRITE_BYTE v addr | WRITE_HALF v addr | WRITE_WORD v addr =>
    obtain ⟨store, hq, he⟩ := save_ok ho
    obtain ⟨rfl, rfl⟩ := Prod.mk.inj he
    obtain ⟨hstore, hos⟩ := hst .mem rfl
    refine ⟨{ t with store }, save_of (hstore ▸ hq), ?_⟩
    rintro _ rfl
    exact ⟨rfl, hos⟩
  | SYSCALL =>
    obtain ⟨store, os, regs, store', hy, hr, he⟩ := syscall_ok ho
    obtain ⟨-, rfl⟩ := Prod.mk.inj he
    obtain ⟨hstore, hos⟩ := hst .mem (.inl rfl)
    obtain ⟨u', hu, hR⟩ := sysHandler_same (fun n hn => hst (.GPR ⟨n, hn⟩) (.inr ⟨_, rfl⟩)) hr
    refine ⟨⟨u', store', os⟩, syscall_of (hstore ▸ hy) (hos ▸ hu), ?_⟩
    rintro _ (rfl | ⟨m, rfl⟩)
    · exact ⟨rfl, rfl⟩
    · exact hR m m.isLt
  | abort why => cases ho

theorem handler_local : Local access cells (p.handler sys) := ⟨handler_frame, handler_same⟩

end Local

end Pisa
