import CompArch.Msi.Phase
/-!
# How a phase changes

What a step of the protocol may do to the phase of one cache: which of its
links to the directory and to other caches it keeps, and which it gives up.
`q` is the phase before the step and `p` the one after it.
-/

namespace Msi

variable {C : Type}

/-- `p` has the links of `q`: only its acknowledgements, its copy or its
eviction have moved on. -/
structure Phase.Moves (q p : Phase C) : Prop where
  next : p.next = q.next := by rfl
  downgrades : p.downgrades = q.downgrades := by rfl
  readFrom : p.readFrom = q.readFrom := by rfl
  writeFrom : p.writeFrom = q.writeFrom := by rfl
  atMemory : p.atMemory = q.atMemory := by rfl
  owner : p.owner = q.owner := by rfl
  sharer : p.sharer = true → q.sharer = true := by first | exact id | simp [Phase.sharer]
  holds : p.holds = q.holds := by rfl

/-- `q` serves its forward and becomes `p`, which has nothing left to do for others. -/
structure Phase.Serves (q p : Phase C) : Prop where
  next : p.next = none := by rfl
  downgrades : p.downgrades = false := by rfl
  readFrom : p.readFrom = none := by rfl
  writeFrom : p.writeFrom = none := by rfl
  atMemory : p.atMemory = none := by rfl
  owner : p.owner = false := by rfl
  holds : p.holds = false := by rfl
  inv : p.inv = none := by rfl
  sharer : p.sharer = true → q.sharer = true := by first | exact id | simp [Phase.sharer]
  served : q.atMemory = none ∧ q.readFrom = none ∧ q.writeFrom = none ∧ q.holds = true ∧ q.inv = none := by
    exact ⟨rfl, rfl, rfl, rfl, rfl⟩

/-- Only a read leaves a shared copy behind. -/
@[grind =] def Next.reads : Next C → Bool
  | .getS _ => true
  | .getM _ => false

/-- The owner `q` is asked to serve `y`, and becomes `p`. -/
structure Phase.Asked (y : Next C) (q p : Phase C) : Prop where
  next : q.next = none ∧ p.next = some y := by exact ⟨rfl, rfl⟩
  readFrom : q.readFrom = none ∧ p.readFrom = none := by exact ⟨rfl, rfl⟩
  writeFrom : p.writeFrom = q.writeFrom := by rfl
  atMemory : q.atMemory = none ∧ p.atMemory = none := by exact ⟨rfl, rfl⟩
  owner : q.owner = true ∧ p.owner = false := by exact ⟨rfl, rfl⟩
  downgrades : q.downgrades = false ∧ p.downgrades = y.reads := by cases y <;> exact ⟨rfl, rfl⟩
  sharer : q.sharer = false ∧ p.sharer = y.reads := by cases y <;> exact ⟨rfl, rfl⟩
  holds : p.holds = q.holds := by rfl
  inv : p.inv = q.inv := by rfl
  acks : ∀ total k, Abs.acksOk total k p ↔ Abs.acksOk total k q := by exact fun _ _ => .rfl

/-- `q` has a GETM on its way, and becomes `p` when `o` is asked to serve it. -/
structure Phase.Sent (o : C) (q p : Phase C) : Prop where
  next : q.next = none ∧ p.next = none := by exact ⟨rfl, rfl⟩
  readFrom : q.readFrom = none ∧ p.readFrom = none := by exact ⟨rfl, rfl⟩
  writeFrom : q.writeFrom = none ∧ p.writeFrom = some o := by exact ⟨rfl, rfl⟩
  atMemory : q.atMemory = none ∧ p.atMemory = none := by exact ⟨rfl, rfl⟩
  owner : q.owner = false ∧ p.owner = true := by exact ⟨rfl, rfl⟩
  downgrades : q.downgrades = false ∧ p.downgrades = false := by exact ⟨rfl, rfl⟩
  sharer : p.sharer = false := by rfl
  holds : q.holds = false ∧ p.holds = false := by exact ⟨rfl, rfl⟩
  inv : p.inv = q.inv := by rfl
  acks : ∀ total k, Abs.acksOk total k p ↔ Abs.acksOk total k q := by exact fun _ _ => .rfl

/-- `p` has exactly the links of `q`, apart from being a sharer. -/
structure Phase.SameLinks (q p : Phase C) : Prop where
  next : p.next = q.next := by rfl
  downgrades : p.downgrades = q.downgrades := by rfl
  readFrom : p.readFrom = q.readFrom := by rfl
  writeFrom : p.writeFrom = q.writeFrom := by rfl
  atMemory : p.atMemory = q.atMemory := by rfl
  owner : p.owner = q.owner := by rfl
  holds : p.holds = q.holds := by rfl
  acks : ∀ total k, Abs.acksOk total k p ↔ Abs.acksOk total k q := by exact fun _ _ => .rfl

/-- `q` has a GETM on its way that the directory grants with `n`
acknowledgements to collect. -/
structure Phase.Granted (n : Nat) (q p : Phase C) : Prop where
  next : q.next = none ∧ p.next = none := by exact ⟨rfl, rfl⟩
  readFrom : q.readFrom = none ∧ p.readFrom = none := by exact ⟨rfl, rfl⟩
  writeFrom : q.writeFrom = none ∧ p.writeFrom = none := by exact ⟨rfl, rfl⟩
  atMemory : q.atMemory = none ∧ p.atMemory = none := by exact ⟨rfl, rfl⟩
  owner : q.owner = false ∧ p.owner = true := by exact ⟨rfl, rfl⟩
  downgrades : q.downgrades = false ∧ p.downgrades = false := by exact ⟨rfl, rfl⟩
  sharer : p.sharer = false := by rfl
  holds : q.holds = false ∧ p.holds = true := by exact ⟨rfl, rfl⟩
  inv : q.inv = none ∧ p.inv = none := by exact ⟨rfl, rfl⟩
  acks : ∀ total k, Abs.acksOk total k q → total = 0 ∧ Abs.acksOk n k p := by grind

/-- No cache but `c` has a part in what the directory is doing. -/
@[grind =] def DirPhase.only (c : C) : DirPhase C → Prop
  | .I | .S => True
  | .M o | .IS_D o | .IM_D o | .MI_A o | .MS_D o | .MS_D_data o | .MS_A o => o = c

/-- The directory can have any number of sharers. -/
@[grind =] def DirPhase.shares : DirPhase C → Bool
  | .S | .MS_D _ | .MS_D_data _ | .MS_A _ => true
  | .I | .M _ | .IS_D _ | .IM_D _ | .MI_A _ => false

theorem DirPhase.shares_iff {g : DirPhase C} :
    g.shares = true ↔ g = .S ∨ ∃ e, g = .MS_D e ∨ g = .MS_D_data e ∨ g = .MS_A e := by
  cases g <;> simp [shares]

/-- The directory goes from `g` to `g'` and takes cache `c` from `q` to `p`;
no forward is involved. -/
structure Turns (c : C) (q p : Phase C) (g g' : DirPhase C) : Prop where
  next : q.next = none ∧ p.next = none := by exact ⟨rfl, rfl⟩
  downgrades : q.downgrades = false ∧ p.downgrades = false := by exact ⟨rfl, rfl⟩
  readFrom : q.readFrom = none ∧ p.readFrom = none := by exact ⟨rfl, rfl⟩
  writeFrom : q.writeFrom = none ∧ p.writeFrom = none := by exact ⟨rfl, rfl⟩
  inv : p.inv = q.inv := by rfl
  only : g.only c ∧ g'.only c := by simp [DirPhase.only]
  calm : ∀ e, g ≠ .MS_D e ∧ g' ≠ .MS_D e := by simp
  fetch_shared : p.atMemory = some .GETS ↔ g' = .IS_D c := by simp [Phase.atMemory]
  fetch_own : p.atMemory = some .GETM ↔ g' = .IM_D c := by simp [Phase.atMemory]
  writeback : p.atMemory = some .PUTM ↔ g' = .MI_A c := by simp [Phase.atMemory]
  owner : p.owner = true ↔ g' = .M c ∨ g' = .IM_D c := by simp [Phase.owner]
  sharer : p.sharer = true → g'.shares = true ∨ g' = .IS_D c := by simp [Phase.sharer, DirPhase.shares]
  shares : g.shares = true → g'.shares = true := by simp [DirPhase.shares]
  holds : p.holds = true → q.holds = true ∧ g' = .M c ∨ g' = .IM_D c := by simp [Phase.holds]
  held : (∃ o, g' = .M o) ∨ (∀ o, g ≠ .M o) ∨ q.holds = true := by simp [Phase.holds]
  grants : (∃ o, g' = .M o) → p.holds = true := by simp [Phase.holds]

/-- `q` evicts a block it does not own any more, and becomes `p` once the
directory acknowledges it. -/
def Phase.Acked (q p : Phase C) : Prop :=
  (∃ x, q = .evictM (some x) ∧ p = .evictMAck (some x)) ∨ (∃ m i, q = .evictS m i ∧ p = .evictSAck i) ∨
    ∃ m, q = .evictI m ∧ p = .evictIAck

/-! ## Facts about single phases -/

theorem Phase.links_of_next_getM {p : Phase C} {r : C} (h : p.next = some (.getM r)) :
    p.downgrades = false ∧ p.owner = false ∧ p.sharer = false := by
  cases p <;> simp [Phase.next] at h <;> subst h <;> exact ⟨rfl, rfl, rfl⟩

/-- How the block comes has no bearing on the forwards behind it. -/
theorem Phase.links_excl (g g' : Grant C) (x : Option (Next C)) :
    (excl g x).downgrades = (excl g' x).downgrades ∧ (excl g x).owner = (excl g' x).owner ∧
      (excl g x).sharer = (excl g' x).sharer := by
  rcases x with _ | _ | _ <;> exact ⟨rfl, rfl, rfl⟩

/-- The block is on its way to the cache or has come. -/
@[grind =] def Grant.coming : Grant C → Bool
  | .fromOwner | .fromDir _ | .fromDirS _ | .acks | .acksS | .done => true
  | .memory | .forwarded _ | .forwardedS _ _ => false

/-- From then on only the cache itself is concerned. -/
theorem Phase.moves_coming {g g' : Grant C} (hg : g.coming = true) (hg' : g'.coming = true) (x : Option (Next C)) :
    (excl g x).Moves (excl g' x) ∧ (excl g x).inv = none ∧ (excl g' x).inv = none := by
  cases g <;> cases hg <;> cases g' <;> cases hg' <;> rcases x with _ | _ | _ <;> exact ⟨{}, rfl, rfl⟩

end Msi
