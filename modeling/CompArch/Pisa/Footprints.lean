import CompArch.Pisa.Cells
/-!
# What the expressions of instructions read and write

One lemma for each family of expressions: it keeps within a footprint when its
registers are in it.
-/

namespace Pisa

open Effects Function Memory

variable {ε σ O α β : Type}

section Macros
variable {R W D : Cell → Prop} {n : Nat} {v : Word} {addr : Addr}

/-- The cell of register `n`, if there is one, is in `P`. -/
def May (P : Cell → Prop) (file : Fin 32 → Cell) (n : Nat) : Prop := ∀ m : Fin 32, m = n → P (file m)

theorem within_return (a : α) : (return a : Code α).Within access R W D := trivial

theorem within_GPR (h : May (fun c => R c ∨ D c) .GPR n) : (GPR n).Within access R W D :=
  .perform (fun _ ⟨m, hm, hc⟩ => hc ▸ h m hm) fun _ => False.elim

theorem within_SET_GPR (h : May W .GPR n) : (SET_GPR n v).Within access R W D :=
  .perform (fun _ => False.elim) fun _ ⟨m, hm, hc⟩ => hc ▸ h m hm

theorem within_FPR_L (h : May R .FPR n) : (FPR_L n).Within access R W D :=
  .perform (fun _ ⟨m, hm, hc⟩ => hc ▸ .inl (h m hm)) fun _ => False.elim

theorem within_SET_FPR_L (h : May W .FPR n) : (SET_FPR_L n v).Within access R W D :=
  .perform (fun _ => False.elim) fun _ ⟨m, hm, hc⟩ => hc ▸ h m hm

theorem within_HI (h : R .HI ∨ D .HI) : HI.Within access R W D := .perform (fun _ hc => hc ▸ h) fun _ => False.elim
theorem within_LO (h : R .LO ∨ D .LO) : LO.Within access R W D := .perform (fun _ hc => hc ▸ h) fun _ => False.elim
theorem within_FCC (h : R .FCC) : FCC.Within access R W D := .perform (fun _ hc => hc ▸ .inl h) fun _ => False.elim
theorem within_CPC (h : R .PC) : CPC.Within access R W D := .perform (fun _ hc => hc ▸ .inl h) fun _ => False.elim

theorem within_SET_HI (h : W .HI) : (SET_HI v).Within access R W D := .perform (fun _ => False.elim) fun _ hc => hc ▸ h
theorem within_SET_LO (h : W .LO) : (SET_LO v).Within access R W D := .perform (fun _ => False.elim) fun _ hc => hc ▸ h
theorem within_SET_FCC (h : W .FCC) : (SET_FCC v).Within access R W D :=
  .perform (fun _ => False.elim) fun _ hc => hc ▸ h
theorem within_SET_NPC (h : W .NPC) : (SET_NPC v).Within access R W D :=
  .perform (fun _ => False.elim) fun _ hc => hc ▸ h

section Accesses
variable (hr : R .mem) (hw : W .mem)
include hr hw

theorem within_READ_BYTE : (READ_BYTE addr).Within access R W D :=
  .perform (fun _ hc => hc ▸ .inl hr) fun _ hc => hc ▸ hw
theorem within_READ_HALF : (READ_HALF addr).Within access R W D :=
  .perform (fun _ hc => hc ▸ .inl hr) fun _ hc => hc ▸ hw
theorem within_READ_WORD : (READ_WORD addr).Within access R W D :=
  .perform (fun _ hc => hc ▸ .inl hr) fun _ hc => hc ▸ hw

theorem within_WRITE_BYTE {b : BitVec 8} : (WRITE_BYTE b addr).Within access R W D :=
  .perform (fun _ hc => hc ▸ .inl hr) fun _ hc => hc ▸ hw

theorem within_WRITE_HALF {b : BitVec 16} : (WRITE_HALF b addr).Within access R W D :=
  .perform (fun _ hc => hc ▸ .inl hr) fun _ hc => hc ▸ hw

theorem within_WRITE_WORD : (WRITE_WORD v addr).Within access R W D :=
  .perform (fun _ hc => hc ▸ .inl hr) fun _ hc => hc ▸ hw

end Accesses

theorem within_abort {why : Abort} : (abort why : Code α).Within access R W D :=
  ⟨fun _ => False.elim, fun _ => False.elim, fun e => e.elim⟩

end Macros

section Families
variable {R W D : Cell → Prop} {i : MdInst} {host : Host} {n rd : Nat} {w : Nat}

theorem within_branch {cond : Code Bool} (hc : cond.Within access R W D) (hpc : R .PC) (hnpc : W .NPC) :
    (branch i cond).Within access R W D := by
  refine hc.bind fun b => ?_
  cases b with
  | true => exact (within_CPC hpc).bind fun pc => (within_SET_NPC hnpc).bind fun _ => trivial
  | false => trivial

theorem within_jumpTarget (hpc : R .PC) : (jumpTarget i).Within access R W D := (within_CPC hpc).bind fun _ => trivial

theorem May.left {P Q : Cell → Prop} {file : Fin 32 → Cell} (h : May P file n) : May (fun c => P c ∨ Q c) file n :=
  fun m hm => .inl (h m hm)

theorem within_disp (hs : May R .GPR i.RS) : (disp i).Within access R W D := (within_GPR hs.left).bind fun _ => trivial

theorem within_rr (hs : May R .GPR i.RS) (hd : May R .GPR i.RD) : (rr i).Within access R W D :=
  (within_GPR hs.left).bind fun _ => (within_GPR hd.left).bind fun _ => trivial

theorem within_next {ea : Code Addr} (hea : ea.Within access R W D) : (next ea).Within access R W D :=
  hea.bind fun _ => trivial

theorem within_load {ea : Code Addr} {read : Addr → Code (BitVec w × Fault)} {ext : BitVec w → Word}
    {set : Word → Code Unit} (hea : ea.Within access R W D) (hread : ∀ a, (read a).Within access R W D)
    (hset : ∀ v, (set v).Within access R W D) : (load ea read ext set).Within access R W D := by
  refine hea.bind fun a => (hread a).bind fun r => ?_
  dsimp only
  split
  · trivial
  · exact (hset _).bind fun _ => trivial

theorem within_loadDouble {ea : Code Addr} {set : Nat → Word → Code Unit} (hr : R .mem) (hw : W .mem)
    (hea : ea.Within access R W D) (hset : ∀ v, (set n v).Within access R W D)
    (hset' : n % 2 = 0 → ∀ v, (set (n + 1) v).Within access R W D) : (loadDouble ea n set).Within access R W D := by
  unfold loadDouble
  split
  · trivial
  case isFalse heven =>
    refine hea.bind fun a => (within_READ_WORD hr hw).bind fun r => ?_
    dsimp only
    split
    · trivial
    · refine (within_next hea).bind fun a => (within_READ_WORD hr hw).bind fun r' => ?_
      split
      · trivial
      · exact (hset _).bind fun _ => (hset' (by omega) _).bind fun _ => trivial

theorem within_store {ea : Code Addr} {write : BitVec w → Addr → Code Fault} {src : Code (BitVec w)}
    (hea : ea.Within access R W D) (hwrite : ∀ v a, (write v a).Within access R W D) (hsrc : src.Within access R W D) :
    (store ea write src).Within access R W D :=
  hsrc.bind fun v => hea.bind fun a => hwrite v a

theorem within_storeDouble {ea : Code Addr} {src src' : Code Word} (hr : R .mem) (hw : W .mem)
    (hea : ea.Within access R W D) (hsrc : src.Within access R W D) (hsrc' : src'.Within access R W D) :
    (storeDouble ea src src').Within access R W D := by
  refine hsrc.bind fun v => hea.bind fun a => (within_WRITE_WORD hr hw).bind fun f => ?_
  split
  · trivial
  · exact hsrc'.bind fun v => (within_next hea).bind fun a => within_WRITE_WORD hr hw

theorem within_storePair {ea : Code Addr} {get : Nat → Code Word} (hr : R .mem) (hw : W .mem)
    (hea : ea.Within access R W D) (hget : (get n).Within access R W D)
    (hget' : n % 2 = 0 → (get (n + 1)).Within access R W D) : (storePair ea n get).Within access R W D := by
  unfold storePair
  split
  · trivial
  case isFalse heven => exact within_storeDouble hr hw hea hget (hget' (by omega))

theorem within_SWL (hr : R .mem) (hw : W .mem) (hs : May R .GPR i.RS) (ht : May R .GPR i.RT) :
    (SWL_IMPL i host).Within access R W D := by
  refine (within_disp hs).bind fun ea => (within_READ_WORD hr hw).bind fun r => ?_
  dsimp only
  split
  · trivial
  · exact (within_GPR ht.left).bind fun _ => within_WRITE_WORD hr hw

theorem within_SWR (hr : R .mem) (hw : W .mem) (hs : May R .GPR i.RS) (ht : May R .GPR i.RT) :
    (SWR_IMPL i).Within access R W D := by
  refine (within_disp hs).bind fun ea => (within_READ_WORD hr hw).bind fun r => ?_
  dsimp only
  split
  · trivial
  · exact (within_GPR ht.left).bind fun _ => within_WRITE_WORD hr hw

theorem within_binary {x y : Code Word} {f : Word → Word → Word} (hrd : May W .GPR rd) (hx : x.Within access R W D)
    (hy : y.Within access R W D) : (binary rd x y f).Within access R W D :=
  hx.bind fun _ => hy.bind fun _ => (within_SET_GPR hrd).bind fun _ => trivial

theorem within_checked {overflows : Word → Word → Bool} {x y : Code Word} {f : Word → Word → Word} (hrd : May W .GPR rd)
    (hx : x.Within access R W D) (hy : y.Within access R W D) : (checked overflows rd x y f).Within access R W D := by
  refine hx.bind fun _ => hy.bind fun _ => ?_
  split
  · trivial
  · exact within_binary hrd hx hy

theorem within_multRound {op1 op2 : Code Word} (h1 : op1.Within access R W D) (h2 : op2.Within access R W D)
    (hhi : W .HI) (hlo : W .LO) (dhi : D .HI) (dlo : D .LO) : (multRound op1 op2 n).Within access R W D := by
  refine (within_HI (.inr dhi)).bind fun _ => (within_SET_HI hhi).bind fun _ => (within_HI (.inr dhi)).bind fun _ =>
    (within_LO (.inr dlo)).bind fun _ => (within_SET_HI hhi).bind fun _ => (within_LO (.inr dlo)).bind fun _ =>
    (within_SET_LO hlo).bind fun _ => h1.bind fun _ => ?_
  split
  · refine (within_LO (.inr dlo)).bind fun _ => h2.bind fun _ => ?_
    have hlast : (do SET_LO ((← LO) + (← op2)) : Code Unit).Within access R W D :=
      (within_LO (.inr dlo)).bind fun _ => h2.bind fun _ => within_SET_LO hlo
    split
    · exact (within_HI (.inr dhi)).bind fun _ => (within_SET_HI hhi).bind fun _ => hlast
    · exact hlast
  · trivial

theorem within_multLoop {op1 op2 : Code Word} (h1 : op1.Within access R W D) (h2 : op2.Within access R W D)
    (hhi : W .HI) (hlo : W .LO) (dhi : D .HI) (dlo : D .LO) (n : Nat) : (multLoop op1 op2 n).Within access R W D := by
  induction n with
  | zero => trivial
  | succ n ih => exact (within_multRound h1 h2 hhi hlo dhi dlo).bind fun _ => ih

theorem within_multiply {op1 op2 : Code Word} (h1 : op1.Within access R W D) (h2 : op2.Within access R W D)
    (hhi : W .HI) (hlo : W .LO) (dhi : D .HI) (dlo : D .LO) : (multiply op1 op2).Within access R W D := by
  refine h1.bind fun _ => ?_
  have hloop := within_multLoop h1 h2 hhi hlo dhi dlo 31
  split
  · exact h2.bind fun _ => (within_SET_LO hlo).bind fun _ => hloop
  · exact hloop

/-- `HI` and `LO` may be read once they are set. -/
theorem within_product {k : Code α} (hhi : W .HI) (hlo : W .LO)
    (hk : k.Within access R W fun c => D c ∨ c = .HI ∨ c = .LO) :
    (do SET_HI 0; SET_LO 0; k).Within access R W D := by
  refine ⟨fun _ => False.elim, fun c hc => hc ▸ hhi, fun _ => ⟨fun _ => False.elim, fun c hc => hc ▸ hlo, fun _ => ?_⟩⟩
  refine hk.mono fun c hc => hc.imp_right fun hd => ?_
  rcases hd with hd | rfl | rfl
  · exact .inl (.inl hd)
  · exact .inl (.inr rfl)
  · exact .inr rfl

theorem within_MULTU (hs : May R .GPR i.RS) (ht : May R .GPR i.RT) (hhi : W .HI) (hlo : W .LO) :
    (MULTU_IMPL i).Within access R W D := by
  unfold MULTU_IMPL
  apply within_product hhi hlo
  exact (within_multiply (within_GPR hs.left) (within_GPR ht.left) hhi hlo (.inr (.inl rfl)) (.inr (.inr rfl))).bind
    fun _ => within_return _

theorem within_MULT (hs : May R .GPR i.RS) (ht : May R .GPR i.RT) (hhi : W .HI) (hlo : W .LO) :
    (MULT_IMPL i).Within access R W D := by
  unfold MULT_IMPL
  apply within_product hhi hlo
  refine (within_GPR hs.left).bind fun _ => (within_GPR ht.left).bind fun _ =>
    (within_multiply (within_return _) (within_return _) hhi hlo (.inr (.inl rfl)) (.inr (.inr rfl))).bind fun _ => ?_
  have rhi : HI.Within access R W fun c => D c ∨ c = .HI ∨ c = .LO := within_HI (.inr (.inr (.inl rfl)))
  have rlo : LO.Within access R W fun c => D c ∨ c = .HI ∨ c = .LO := within_LO (.inr (.inr (.inr rfl)))
  split
  · refine rlo.bind fun _ => (within_SET_LO hlo).bind fun _ => rhi.bind fun _ => (within_SET_HI hhi).bind fun _ =>
      rlo.bind fun _ => ?_
    split
    · exact rhi.bind fun _ => (within_SET_HI hhi).bind fun _ => rlo.bind fun _ => (within_SET_LO hlo).bind fun _ =>
        within_return _
    · exact rlo.bind fun _ => (within_SET_LO hlo).bind fun _ => within_return _
  · exact within_return _

theorem within_DIVU (hs : May R .GPR i.RS) (ht : May R .GPR i.RT) (hhi : W .HI) (hlo : W .LO) :
    (DIVU_IMPL i).Within access R W D := by
  have rs : (GPR i.RS).Within access R W D := within_GPR hs.left
  have rt : (GPR i.RT).Within access R W D := within_GPR ht.left
  refine rt.bind fun _ => ?_
  split
  · exact within_return _
  · exact rs.bind fun _ => rt.bind fun _ => (within_SET_LO hlo).bind fun _ => rs.bind fun _ => rt.bind fun _ =>
      (within_SET_HI hhi).bind fun _ => within_return _

theorem within_DIV (hs : May R .GPR i.RS) (ht : May R .GPR i.RT) (hhi : W .HI) (hlo : W .LO) :
    (DIV_IMPL i).Within access R W D := by
  have rs : (GPR i.RS).Within access R W D := within_GPR hs.left
  have rt : (GPR i.RT).Within access R W D := within_GPR ht.left
  have hdiv : (do
      SET_LO ((← GPR i.RS).sdiv (← GPR i.RT))
      SET_HI ((← GPR i.RS).srem (← GPR i.RT))
      return Fault.none : Impl).Within access R W D :=
    rs.bind fun _ => rt.bind fun _ => (within_SET_LO hlo).bind fun _ => rs.bind fun _ => rt.bind fun _ =>
      (within_SET_HI hhi).bind fun _ => within_return _
  refine rt.bind fun _ => ?_
  split
  · exact within_return _
  · refine rs.bind fun _ => rt.bind fun _ => ?_
    split
    · exact within_abort.bind fun _ => hdiv
    · exact hdiv

theorem within_shiftable : (shiftable n).Within access R W D := by
  unfold shiftable
  split
  · exact within_return _
  · exact within_abort

theorem within_shamtV (hs : May R .GPR i.RS) : (shamtV i).Within access R W D :=
  (within_GPR hs.left).bind fun _ => within_return _

theorem within_srl (ht : May R .GPR i.RT) (hd : May W .GPR i.RD) : (srl i host n).Within access R W D := by
  have rt : (GPR i.RT).Within access R W D := within_GPR ht.left
  unfold srl
  split
  · exact within_shiftable.bind fun _ => rt.bind fun _ => (within_SET_GPR hd).bind fun _ => within_return _
  · split
    · exact rt.bind fun _ => within_shiftable.bind fun _ => (within_SET_GPR hd).bind fun _ => within_return _
    · exact rt.bind fun _ => (within_SET_GPR hd).bind fun _ => within_return _

/-- The rounds read the register that was set before. -/
theorem within_sraLoop (hd : May W .GPR i.RD) (hD : May D .GPR i.RD) (n : Nat) :
    (sraLoop i host n).Within access R W D := by
  induction n with
  | zero => exact within_return _
  | succ n ih => exact (within_GPR fun m hm => .inr (hD m hm)).bind fun _ => (within_SET_GPR hd).bind fun _ => ih

theorem within_sra (ht : May R .GPR i.RT) (hd : May W .GPR i.RD) : (sra i host n).Within access R W D := by
  have rt : (GPR i.RT).Within access R W D := within_GPR ht.left
  unfold sra
  split
  · exact within_shiftable.bind fun _ => rt.bind fun _ => (within_SET_GPR hd).bind fun _ => within_return _
  · refine rt.bind fun _ => ?_
    split
    · refine rt.bind fun v => ?_
      refine ⟨fun _ => False.elim, fun c ⟨m, hm, hc⟩ => hc ▸ hd m hm, fun _ => ?_⟩
      exact (within_sraLoop hd (fun m hm => .inr ⟨m, hm, rfl⟩) n).bind fun _ => within_return _
    · exact within_shiftable.bind fun _ => rt.bind fun _ => (within_SET_GPR hd).bind fun _ => within_return _

theorem within_evenFPR {ns : List Nat} {body : Code Unit} (hb : body.Within access R W D) :
    (evenFPR ns body).Within access R W D := by
  unfold evenFPR
  split
  · exact within_return _
  · exact hb.bind fun _ => within_return _

/-- Both registers of the pair that `n` belongs to. -/
def Both (P : Cell → Prop) (n : Nat) : Prop := ∀ m : Fin 32, m.val / 2 = n / 2 → P (.FPR m)

theorem Both.may {P : Cell → Prop} (h : Both P n) : May P .FPR n := fun m hm => h m (by rw [hm])

theorem Both.next {P : Cell → Prop} (h : Both P n) (heven : n % 2 = 0) : May P .FPR (n + 1) :=
  fun m hm => h m (by omega)

theorem Both.pair {P : Cell → Prop} (h : Both P n) : May P .FPR (2 * (n / 2)) ∧ May P .FPR (2 * (n / 2) + 1) :=
  ⟨fun m hm => h m (by omega), fun m hm => h m (by omega)⟩

theorem within_FPR_D (h : Both R n) : (FPR_D n).Within access R W D :=
  (within_FPR_L h.pair.1).bind fun _ => (within_FPR_L h.pair.2).bind fun _ => within_return _

theorem within_SET_FPR_D {v : BitVec 64} (h : Both W n) : (SET_FPR_D n v).Within access R W D :=
  (within_SET_FPR_L h.pair.1).bind fun _ => within_SET_FPR_L h.pair.2

end Families

end Pisa
