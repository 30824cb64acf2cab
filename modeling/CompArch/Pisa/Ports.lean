import CompArch.Pisa.Machine
/-!
# Two simulators' ports

What the ports of two simulators agree on, their machines agree on after every
program. So does what the ports of one simulator keep.
-/

namespace Pisa

open Effects Memory Outcome

variable {ε ε' σ τ O α : Type}

/-- Two machines with the same registers and the same host, and with related memories. -/
structure Machine.Alike (R : σ → τ → Prop) (s : Machine σ O) (t : Machine τ O) : Prop where
  regs : s.regs = t.regs
  store : R s.store t.store
  os : s.os = t.os

/-- Where the first ports go on, the second ones answer the same, and where the first end with an error that `e`
is about, the second do so. -/
structure Ports.Mirrors (p : Ports ε σ) (q : Ports ε' τ) (e : ε → Option ε') (R : σ → τ → Prop) : Prop where
  read {n : Nat} {addr : Addr} {s : σ} {t : τ} : R s t →
    Follows e (fun a b => a.1 = b.1 ∧ R a.2 b.2) (p.read n addr s) (q.read n addr t)
  write {n : Nat} {addr : Addr} {v : BitVec (8 * n)} {s : σ} {t : τ} : R s t →
    Follows e R (p.write n addr v s) (q.write n addr v t)
  mem_fn {cmd : Cmd} {addr : Addr} {buf : Buffer} {nbytes : BitVec 32} {s : σ} {t : τ} : R s t →
    Follows e (fun a b => a.1 = b.1 ∧ a.2.1 = b.2.1 ∧ R a.2.2 b.2.2) (p.mem_fn cmd addr buf nbytes s)
      (q.mem_fn cmd addr buf nbytes t)
  sync {s : σ} {t : τ} : R s t → Follows e R (p.sync s) (q.sync t)
  abort (why : Abort) (err : ε') : e (p.abort why) = some err → q.abort why = err

section Mirrors
variable {p : Ports ε σ} {q : Ports ε' τ} {e : ε → Option ε'} {R : σ → τ → Prop} {sys : Syscall O}
  {s : Machine σ O} {t : Machine τ O}

theorem Ports.Mirrors.reg (hm : p.Mirrors q e R) {β : Type} {Q : α → β → Prop} {n size : Nat} {a : α} {b : β}
    (h : Q a b) : Follows e Q (p.reg n size a) (q.reg n size b) := by
  unfold Ports.reg
  split
  · exact follows_ok h
  · intro err he
    rw [hm.abort .undefined err he]

theorem Ports.Mirrors.load (hm : p.Mirrors q e R) (h : s.Alike R t) (n : Nat) (addr : Addr) :
    Follows e (fun a b => a.1 = b.1 ∧ a.2.Alike R b.2) (p.load n addr s) (q.load n addr t) :=
  (hm.read h.store).bind fun _ _ hr => follows_ok ⟨by rw [hr.1], h.regs, hr.2, h.os⟩

theorem Ports.Mirrors.save (hm : p.Mirrors q e R) (h : s.Alike R t) (n : Nat) (v : BitVec (8 * n)) (addr : Addr) :
    Follows e (fun a b => a.1 = b.1 ∧ a.2.Alike R b.2) (p.save n v addr s) (q.save n v addr t) :=
  (hm.write h.store).bind fun _ _ hr => follows_ok ⟨rfl, h.regs, hr, h.os⟩

theorem Ports.Mirrors.sysHandler (hm : p.Mirrors q e R) :
    Effects.Mirrors e p.sysHandler q.sysHandler fun x y => x.1 = y.1 ∧ R x.2 y.2 := by
  rintro o ⟨r, s⟩ ⟨_, t⟩ ⟨rfl, hs⟩
  cases o with
  | GPR n => exact hm.reg ⟨rfl, rfl, hs⟩
  | SET_GPR n v => exact hm.reg ⟨rfl, rfl, hs⟩
  | mem_fn cmd addr buf nbytes =>
    refine (hm.mem_fn hs).bind ?_
    rintro ⟨f, b, s'⟩ ⟨_, _, t'⟩ ⟨rfl, rfl, hs'⟩
    exact follows_ok ⟨rfl, rfl, hs'⟩
  | exit =>
    intro err he
    exact congrArg Except.error (hm.abort .exit err he)

theorem Ports.Mirrors.handler (hm : p.Mirrors q e R) :
    Effects.Mirrors e (p.handler sys) (q.handler sys) (Machine.Alike R) := by
  rintro o ⟨r, s, os⟩ ⟨_, t, _⟩ ⟨rfl, hs, rfl⟩
  have h : Machine.Alike R ⟨r, s, os⟩ ⟨r, t, os⟩ := ⟨rfl, hs, rfl⟩
  cases o with
  | GPR n | SET_GPR n v | FPR_L n | SET_FPR_L n v => exact hm.reg ⟨rfl, rfl, hs, rfl⟩
  | HI | SET_HI v | LO | SET_LO v | FCC | SET_FCC v | CPC | SET_NPC v => exact follows_ok ⟨rfl, rfl, hs, rfl⟩
  | READ_BYTE addr => exact hm.load h 1 addr
  | READ_HALF addr => exact hm.load h 2 addr
  | READ_WORD addr => exact hm.load h 4 addr
  | WRITE_BYTE v addr => exact hm.save h 1 v addr
  | WRITE_HALF v addr => exact hm.save h 2 v addr
  | WRITE_WORD v addr => exact hm.save h 4 v addr
  | SYSCALL =>
    refine (hm.sync hs).bind fun s' t' hs' => ?_
    refine (hm.sysHandler.run (sys os) (s := (r, s')) (t := (r, t')) ⟨rfl, hs'⟩).bind ?_
    rintro ⟨os', r', s''⟩ ⟨_, _, t''⟩ ⟨rfl, rfl, hs''⟩
    exact follows_ok ⟨rfl, rfl, hs'', rfl⟩
  | abort why =>
    intro err he
    exact congrArg Except.error (hm.abort why err he)

/-- Every program does the same on both machines. -/
theorem Ports.Mirrors.run (hm : p.Mirrors q e R) (h : s.Alike R t) (code : Code α) :
    Follows e (fun a b => a.1 = b.1 ∧ a.2.Alike R b.2) (code.run (p.handler sys) s) (code.run (q.handler sys) t) :=
  hm.handler.run code h

end Mirrors

end Pisa
