import TYThread.Pool.Steps

/-!
# States that are reached

The entries of a mediator that has just been made are all free, and whatever is called after that,
`Mediator.Tracked` holds. `Mediator.Ok` adds that the layers have the sizes that belong to their
numbers, which is so as long as the sizes fit into an `int`.
-/

namespace TYThread

/-- The highest layer of every pool has a size that fits into an `int`. -/
def Mediator.SizesFit (σ : Mediator) : Prop :=
  ∀ i < (σ.pools i).config.numOfThread,
    (σ.pools i).config.layerSize (σ.pools i).currentLayer < 2 ^ 31

/-- A step after which the sizes fit. -/
def FitStep (L : EntryLayout) (indexFirst : Bool) (σ : Mediator) (l : PoolLabel) (σ' : Mediator) :
    Prop :=
  PoolStep L indexFirst σ l σ' ∧ σ'.SizesFit

/-- `place` is where the entries are. -/
structure Mediator.Ok (L : EntryLayout) (cfg : ObjectPoolConfig) (σ : Mediator)
    (place : Ptr → EntryPlace) : Prop extends PoolsOk L cfg σ.mem σ.pools place where
  live : ∀ ptr, σ.live ptr ↔ ∃ i k, EntryOf L σ.pools i k ptr ∧ place ptr = .live
  returning : ∀ ptr i, σ.returning ptr = some i → σ.live ptr ∧ ∃ k, EntryOf L σ.pools i k ptr
  total : ∀ q, σ.cleaning q = none → (σ.pools q).totalCached = 0 →
    ∀ i j, (σ.pools q).caches i j = {}
  cursor : ∀ q i j, σ.cleaning q = some (i, j) → ∀ i' j', i' < i ∨ i' = i ∧ j' < j →
    (σ.pools q).caches i' j' = {}
  busy : ∀ q, σ.cleaning q ≠ none → q < cfg.numOfThread

/-- A pool that is not cleaning up has nothing in its caches. -/
def Mediator.Settled (σ : Mediator) (q : ℕ) : Prop :=
  σ.cleaning q = none → (σ.pools q).totalCached = 0

variable {L : EntryLayout} {cfg : ObjectPoolConfig} {indexFirst : Bool} {σ σ₀ σ' : Mediator}
  {place place' : Ptr → EntryPlace} {l : PoolLabel} {i id k : ℕ} {ptr : Ptr} {arena : ℕ → ℕ}

/-! ## Steps after which the sizes fit -/

theorem Mediator.Ok.tracked (h : σ.Ok L cfg place) (hcfg : cfg.Ok) : σ.Tracked L cfg place :=
  ⟨h.toPoolsOk.tracked hcfg, h.live, h.returning, h.total, h.cursor, h.busy⟩

theorem Mediator.Tracked.ok (h : σ.Tracked L cfg place) (hstacks : Stacks cfg σ.pools) :
    σ.Ok L cfg place :=
  ⟨⟨hstacks, h.core⟩, h.live, h.returning, h.total, h.cursor, h.busy⟩

theorem Mediator.Ok.place_live (h : σ.Ok L cfg place) (hl : σ.live ptr) :
    ∃ i k, EntryOf L σ.pools i k ptr ∧ place ptr = .live := (h.live ptr).mp hl

/-- **Every step keeps the pools in order**, as long as the sizes fit. -/
theorem Mediator.Ok.step (h : σ.Ok L cfg place) (hcfg : cfg.Ok)
    (hstep : FitStep L indexFirst σ l σ') :
    ∃ place', σ'.Ok L cfg place' ∧ StepMove L cfg l σ place σ' place' := by
  obtain ⟨hstep, hfits⟩ := hstep
  obtain ⟨place', hmove⟩ := (h.tracked hcfg).step hcfg.ids hstep
  have hshapes := hmove.tracked.toShapes
  refine ⟨place', hmove.tracked.ok (h.toStacks.move hcfg.rate hshapes hmove.layers fun i hi ↦ ?_),
    hmove⟩
  have hfits' := hfits i
  rw [hshapes.config i] at hfits'
  exact hfits' hi

/-! ## The initial state -/

/-- The first layer of pool `i`. -/
def firstLayer (L : EntryLayout) (cfg : ObjectPoolConfig) (arena : ℕ → ℕ) (i : ℕ) : ObjectLayer :=
  ⟨arena i, some (L.entry (arena i) 0), cfg.poolInitSize, 0⟩

theorem setLayer_setLayer (p : ObjectPool) (k : ℕ) (ly ly' : Option ObjectLayer) :
    (p.setLayer k ly).setLayer k ly' = p.setLayer k ly' := by
  simp only [ObjectPool.setLayer, Function.update_idem]

theorem Mediator.build_spec (hpos : 0 < cfg.numOfThread → 0 < cfg.poolInitSize)
    (harena : ∀ i < cfg.numOfThread, ∀ i' < cfg.numOfThread, arena i = arena i' → i = i') (c : ℕ)
    (hc : c ≤ cfg.numOfThread) :
    ∃ m pools, Mediator.build L cfg arena c = some (m, pools) ∧
      Core L cfg.numOfThread m pools (fun _ ↦ .free) ∧
      ∀ i, pools i = ObjectPool.setLayer { id := i, config := cfg } 0
        (if i < c then some (firstLayer L cfg arena i) else none) := by
  induction c with
  | zero =>
    have hnone : ∀ i, ObjectPool.setLayer { id := i, config := cfg } 0 none =
        { id := i, config := cfg } := fun i ↦ by
      rw [ObjectPool.setLayer]
      congr 1
      exact Function.update_eq_self ..
    refine ⟨_, _, rfl, ⟨?_, ?_, ?_, fun q i j ↦ ⟨[], Or.inl ⟨rfl, rfl⟩, List.nodup_nil, ?_⟩,
      ?_, ?_⟩, fun i ↦ ?_⟩
    · intro i k ly i' k' ly' hly
      cases hly
    · rintro i k ptr ⟨ly, hly, -⟩
      cases hly
    · intro i k ly hly
      cases hly
    · intro ptr
      refine iff_of_false List.not_mem_nil ?_
      rintro ⟨⟨ly, hly, -⟩, -⟩
      cases hly
    · rintro i k ptr q ⟨ly, hly, -⟩
      cases hly
    · rintro i k ptr ⟨ly, hly, -⟩
      cases hly
    · rw [if_neg (Nat.not_lt_zero i), hnone]
  | succ c ih =>
    obtain ⟨m, pools, hbuild, hcore, hpools⟩ := ih (by omega)
    have hlayer : ∀ i k ly, (pools i).layers k = some ly → i < c ∧ ly.arena = arena i := by
      intro i k ly hly
      rw [hpools] at hly
      by_cases hk : k = 0
      · rw [hk, setLayer_layers_self] at hly
        by_cases hi : i < c
        · rw [if_pos hi, Option.some.injEq] at hly
          exact ⟨hi, by rw [← hly]; rfl⟩
        · rw [if_neg hi] at hly
          cases hly
      · rw [setLayer_layers_of_ne _ hk] at hly
        cases hly
    have habsent : (pools c).layers 0 = none := by
      rw [hpools, setLayer_layers_self, if_neg (Nat.lt_irrefl c)]
    obtain ⟨m', hnew, hcore', -⟩ := hcore.grow habsent (b := arena c)
      (fun i k ly hly heq ↦ by
        obtain ⟨hi, harena'⟩ := hlayer i k ly hly
        have := harena i (by omega) c (by omega) (by rw [← harena', heq])
        omega) (hpos (by omega))
    have hplace : allocated (fun _ ↦ EntryPlace.free) (arena c) = fun _ ↦ .free := by
      funext x
      exact ite_self _
    rw [hplace] at hcore'
    refine ⟨m', _, ?_, hcore', fun i ↦ ?_⟩
    · rw [Mediator.build, hbuild]
      simp only [Option.bind_eq_bind, Option.bind_some, hnew, Option.pure_def]
    · by_cases hi : i = c
      · rw [hi, Function.update_self, if_pos (Nat.lt_succ_self c), hpools, setLayer_setLayer]
        exact congrArg (fun ly ↦ ObjectPool.setLayer _ 0 (some ly)) rfl
      · rw [Function.update_of_ne hi, hpools]
        by_cases hlt : i < c
        · rw [if_pos hlt, if_pos (Nat.lt_succ_of_lt hlt)]
        · rw [if_neg hlt, if_neg (by omega)]

theorem Mediator.pos_of_initial (hinit : Mediator.initial L cfg arena = some σ₀)
    (hn : 0 < cfg.numOfThread) : 0 < cfg.poolInitSize := by
  obtain ⟨c, hc⟩ : ∃ c, cfg.numOfThread = c + 1 := ⟨_, (Nat.succ_pred_eq_of_pos hn).symm⟩
  rw [Mediator.initial, hc, Mediator.build] at hinit
  simp only [Option.bind_eq_bind, Option.bind_eq_some_iff] at hinit
  obtain ⟨_, ⟨_, -, _, hnew, -⟩, -⟩ := hinit
  exact ObjectLayer.new_pos hnew

/-- **A mediator can be made**, and the entries of its pools are all free. -/
theorem Mediator.initial_tracked (hpos : 0 < cfg.numOfThread → 0 < cfg.poolInitSize)
    (hsize : cfg.poolInitSize < sizeRange)
    (harena : ∀ i < cfg.numOfThread, ∀ i' < cfg.numOfThread, arena i = arena i' → i = i') :
    ∃ σ, Mediator.initial L cfg arena = some σ ∧ σ.Tracked L cfg (fun _ ↦ .free) ∧
      (∀ q, σ.cleaning q = none) ∧
      ∀ i, σ.pools i = ObjectPool.setLayer { id := i, config := cfg } 0
        (if i < cfg.numOfThread then some (firstLayer L cfg arena i) else none) := by
  obtain ⟨m, pools, hbuild, hcore, hpools⟩ :=
    Mediator.build_spec (L := L) hpos harena cfg.numOfThread (Nat.le_refl _)
  refine ⟨_, by rw [Mediator.initial, hbuild]; rfl, ⟨⟨⟨fun i hi ↦ ?_, fun i hi k ↦ ?_, fun i ↦ ?_⟩,
    hcore⟩, fun ptr ↦ ?_, fun ptr i hret ↦ ?_, fun q _ _ i j ↦ ?_, fun q i j hq ↦ ?_,
    fun q hq ↦ absurd rfl hq⟩, fun q ↦ rfl, hpools⟩
  · change StackShape cfg i (pools i)
    rw [hpools, if_pos hi]
    refine ⟨rfl, rfl, fun k hk ↦ ?_, fun k hk ↦ ?_, Nat.zero_lt_succ _, fun k ly hly ↦ ?_⟩
    · obtain rfl : k = 0 := Nat.le_zero.mp hk
      exact ⟨_, setLayer_layers_self ..⟩
    · have hk' : 0 < k := hk
      rw [setLayer_layers_of_ne _ (Nat.ne_of_gt hk')]
    · by_cases hk : k = 0
      · rw [hk, setLayer_layers_self, Option.some.injEq] at hly
        rw [← hly]
        exact hsize
      · rw [setLayer_layers_of_ne _ hk] at hly
        cases hly
  · change (pools i).layers k = none
    rw [hpools, if_neg (Nat.not_lt.mpr hi)]
    by_cases hk : k = 0
    · rw [hk, setLayer_layers_self]
    · rw [setLayer_layers_of_ne _ hk]
  · change (pools i).config = cfg
    rw [hpools]
    rfl
  · refine iff_of_false (fun h ↦ h) ?_
    rintro ⟨_, _, _, h⟩
    cases h
  · cases hret
  · change (pools q).caches i j = {}
    rw [hpools]
    rfl
  · cases hq

theorem Mediator.initial_spec (hcfg : cfg.Ok) (hsize : cfg.poolInitSize < 2 ^ 31)
    (harena : ∀ i < cfg.numOfThread, ∀ i' < cfg.numOfThread, arena i = arena i' → i = i') :
    ∃ σ, Mediator.initial L cfg arena = some σ ∧ σ.Ok L cfg (fun _ ↦ .free) := by
  obtain ⟨σ, hinit, htracked, -, hpools⟩ := Mediator.initial_tracked (L := L) (fun _ ↦ hcfg.size)
    (Nat.lt_trans hsize (by decide)) harena
  have hzero : cfg.layerSize 0 = cfg.poolInitSize := by
    rw [ObjectPoolConfig.layerSize, Nat.pow_zero, Nat.mul_one]
  refine ⟨σ, hinit, htracked.ok ⟨fun i hi ↦ (htracked.shape i hi).stack (fun k ly hly ↦ ?_) ?_ ?_,
    fun i _ ↦ ?_, htracked.outside, htracked.config⟩⟩
  · rw [hpools, if_pos hi] at hly
    by_cases hk : k = 0
    · rw [hk, setLayer_layers_self, Option.some.injEq] at hly
      rw [← hly, hk, hzero]
      rfl
    · rw [setLayer_layers_of_ne _ hk] at hly
      cases hly
  · rw [hpools]
    simp only [ObjectPool.setLayer]
    rw [intOfSize_of_lt hsize, hzero]
  · rw [hpools]
    simp only [ObjectPool.setLayer]
    rwa [hzero]
  · rw [hpools]
    exact Or.inl rfl

/-! ## Runs -/

/-- **In every state that is reached** it is known where the entries are. -/
theorem reachable_tracked (hids : cfg.numOfThread ≤ 2 ^ 16) (hsize : cfg.poolInitSize < sizeRange)
    (harena : ∀ i < cfg.numOfThread, ∀ i' < cfg.numOfThread, arena i = arena i' → i = i')
    (hinit : Mediator.initial L cfg arena = some σ₀)
    (hreach : Transition.Reachable (PoolStep L indexFirst) σ₀ σ) :
    ∃ place, σ.Tracked L cfg place := by
  refine hreach.invariant (I := fun σ ↦ ∃ place, σ.Tracked L cfg place) ?_ fun τ l υ hτ hstep ↦ ?_
  · obtain ⟨σ₁, hinit₁, htracked, -⟩ :=
      Mediator.initial_tracked (L := L) (Mediator.pos_of_initial hinit) hsize harena
    rw [hinit, Option.some.injEq] at hinit₁
    rw [hinit₁]
    exact ⟨_, htracked⟩
  · obtain ⟨place, htracked⟩ := hτ
    obtain ⟨place', hmove⟩ := htracked.step hids hstep
    exact ⟨place', hmove.tracked⟩

/-- **Every state that is reached is in order**, as long as the sizes fit. -/
theorem reachable_ok (hcfg : cfg.Ok) (hsize : cfg.poolInitSize < 2 ^ 31)
    (harena : ∀ i < cfg.numOfThread, ∀ i' < cfg.numOfThread, arena i = arena i' → i = i')
    (hinit : Mediator.initial L cfg arena = some σ₀)
    (hreach : Transition.Reachable (FitStep L indexFirst) σ₀ σ) : ∃ place, σ.Ok L cfg place := by
  refine hreach.invariant (I := fun σ ↦ ∃ place, σ.Ok L cfg place) ?_ fun τ l υ hτ hstep ↦ ?_
  · obtain ⟨σ₁, hinit₁, hok⟩ := Mediator.initial_spec (L := L) hcfg hsize harena
    rw [hinit, Option.some.injEq] at hinit₁
    rw [hinit₁]
    exact ⟨_, hok⟩
  · obtain ⟨place, hok⟩ := hτ
    obtain ⟨place', hok', -⟩ := hok.step hcfg hstep
    exact ⟨place', hok'⟩

end TYThread
