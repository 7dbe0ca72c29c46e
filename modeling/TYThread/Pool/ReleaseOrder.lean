import TYThread.Pool.Growth

/-!
# The order of the releases does not matter

A pool that is in order, with nothing in the caches, is determined by its arenas and by the entries
that are live: `used` counts them, and the layer on top is the highest one that has some. Two runs
that release the same entries, and allocate nothing, lead to states with the same live entries, and
to the same pools once every pool has cleaned up after the last release.
-/

namespace TYThread

variable {L : EntryLayout} {cfg : ObjectPoolConfig} {indexFirst : Bool} {σ σ₀ σ₁ σ₂ τ υ : Mediator}
  {place place₁ place₂ : Ptr → EntryPlace} {l : PoolLabel} {ls ms : List PoolLabel} {i j k q : ℕ}
  {ptr x : Ptr} {S : Set Ptr}

/-- The entry is live, and no release of it has begun. -/
def Mediator.Held (σ : Mediator) (ptr : Ptr) : Prop := σ.live ptr ∧ σ.returning ptr = none

/-- The entries `S` are released, in some order and through any pools, with no allocation. After the
last release `do_period_cleanup` is called on every pool, and at the end no call is going on. -/
def Releases (L : EntryLayout) (cfg : ObjectPoolConfig) (indexFirst : Bool) (σ : Mediator)
    (S : Set Ptr) (τ : Mediator) : Prop :=
  ∃ ls ms ρ, Transition.Run (PoolStep L indexFirst) σ ls ρ ∧
    Transition.Run (PoolStep L indexFirst) ρ ms τ ∧
    (∀ id ptr, .alloc id ptr ∉ ls ∧ .alloc id ptr ∉ ms ∧ .release id ptr ∉ ms) ∧
    (∀ ptr, ptr ∈ S ↔ ∃ id, .release id ptr ∈ ls) ∧
    (∀ id < cfg.numOfThread, .period id ∈ ms) ∧
    (∀ ptr, τ.returning ptr = none) ∧ ∀ id, τ.cleaning id = none

/-! ## One run -/

/-- A round of a cleanup concerns nothing but the entries that are cached. -/
theorem Mediator.cleanNext_frame (hrun : σ.cleanNext L q i j = some τ) :
    τ.live = σ.live ∧ τ.returning = σ.returning ∧ ∀ q' ≠ q, τ.cleaning q' = σ.cleaning q' := by
  have hcleaning : ∀ {ρ : Mediator} {c : Option (ℕ × ℕ)} {q' : ℕ}, q' ≠ q →
      (ρ.setCleaning q c).cleaning q' = ρ.cleaning q' := fun hne ↦ Function.update_of_ne hne ..
  cases Mediator.cleanNext_cases hrun with
  | last le eq =>
    rw [eq]
    exact ⟨rfl, rfl, fun q' hne ↦ hcleaning hne⟩
  | skip lt own eq =>
    rw [eq]
    exact ⟨rfl, rfl, fun q' hne ↦ hcleaning hne⟩
  | empty lt ne lt' zero eq =>
    rw [eq]
    exact ⟨rfl, rfl, fun q' hne ↦ hcleaning hne⟩
  | back lt ne lt' pos back eq =>
    simp only [Mediator.handBack, Option.bind_eq_bind, Option.bind_eq_some_iff, Option.pure_def,
      Option.some.injEq] at back
    obtain ⟨_, -, rfl⟩ := back
    rw [eq]
    exact ⟨rfl, rfl, fun q' hne ↦ hcleaning hne⟩

/-- What a step without an allocation does to the entries that are held. -/
theorem PoolStep.held (hstep : PoolStep L indexFirst σ l τ) (hne : ∀ id ptr, l ≠ .alloc id ptr) :
    τ.Held x ↔ σ.Held x ∧ ∀ id, l ≠ .release id x := by
  cases hstep with
  | alloc lt unused run => exact absurd rfl (hne _ _)
  | use live kept read => simp [Mediator.Held]
  | period lt free => simp [Mediator.Held, Mediator.setCleaning]
  | @releaseOwn id ptr e lt live once free read own =>
    change (σ.live x ∧ Function.update σ.returning ptr (some id) x = none) ↔ _
    by_cases hx : x = ptr
    · simp [hx]
    · simp [Mediator.Held, Function.update_of_ne hx, Ne.symm hx]
  | @returned id ptr m p here run =>
    change ((x ≠ ptr ∧ σ.live x) ∧ Function.update σ.returning ptr none x = none) ↔ _
    by_cases hx : x = ptr
    · simp [hx, Mediator.Held, here]
    · simp [hx, Mediator.Held]
  | @releaseForeign id ptr e m p lt live once free read foreign run =>
    change ((x ≠ ptr ∧ σ.live x) ∧ σ.returning x = none) ↔ _
    by_cases hx : x = ptr
    · simp [hx]
    · simp [hx, Mediator.Held, Ne.symm hx]
  | @clean id i j _ here run =>
    obtain ⟨hlive, hreturning, -⟩ := Mediator.cleanNext_frame run
    simp [Mediator.Held, hlive, hreturning]

/-- The pools of `τ` come from those of `σ` by taking layers away. -/
def OldLayers (σ τ : Mediator) : Prop :=
  ∀ i k ly', (τ.pools i).layers k = some ly' →
    ∃ ly, (σ.pools i).layers k = some ly ∧ ly'.extent = ly.extent

/-- **A run without allocations.** -/
theorem Mediator.Ok.run (h : σ.Ok L cfg place) (hcfg : cfg.Ok)
    (hrun : Transition.Run (PoolStep L indexFirst) σ ls τ) (hne : ∀ id ptr, .alloc id ptr ∉ ls) :
    (∃ place', τ.Ok L cfg place') ∧ OldLayers σ τ ∧
      ∀ x, τ.Held x ↔ σ.Held x ∧ ∀ id, .release id x ∉ ls := by
  induction hrun with
  | refl => exact ⟨⟨place, h⟩, fun i k ly hly ↦ ⟨ly, hly, rfl⟩, fun x ↦ by simp⟩
  | @snoc ls τ υ l _ last ih =>
    simp only [List.mem_append, List.mem_singleton, not_or] at hne ⊢
    obtain ⟨⟨place', hok⟩, hold, hheld⟩ := ih fun id ptr ↦ (hne id ptr).1
    have hnot : ∀ id ptr, l ≠ .alloc id ptr := fun id ptr heq ↦ (hne id ptr).2 heq.symm
    obtain ⟨place'', hok', hmove⟩ := hok.step hcfg (hok.fitStep hcfg last
      fun id ptr heq ↦ absurd heq (hnot id ptr))
    refine ⟨⟨place'', hok'⟩, fun i k ly'' hly'' ↦ ?_, fun x ↦ ?_⟩
    · obtain ⟨ly', hly', hext'⟩ := (hmove.shrunk hnot).old i k ly'' hly''
      obtain ⟨ly, hly, hext⟩ := hold i k ly' hly'
      exact ⟨ly, hly, hext'.trans hext⟩
    · rw [last.held hnot, hheld, and_assoc, ← forall_and]
      refine and_congr_right fun _ ↦ forall_congr' fun id ↦ and_congr_right fun _ ↦ ?_
      exact ne_comm

theorem settled_of_cleanNext (hrun : σ.cleanNext L q i j = some τ) : τ.Settled q := by
  intro hnone
  have hself : ∀ {ρ : Mediator} {c : Option (ℕ × ℕ)}, (ρ.setCleaning q c).cleaning q = c :=
    Function.update_self ..
  cases Mediator.cleanNext_cases hrun with
  | last le eq =>
    rw [eq]
    change (Function.update σ.pools q _ q).totalCached = 0
    rw [Function.update_self]
  | skip lt own eq =>
    rw [eq, hself] at hnone
    cases hnone
  | empty lt ne lt' zero eq =>
    rw [eq, hself] at hnone
    cases hnone
  | back lt ne lt' pos back eq =>
    rw [eq, hself] at hnone
    cases hnone

/-- A step without releases leaves a pool settled, and `do_period_cleanup` makes it so. -/
theorem StepMove.settled (h : StepMove L cfg l σ place τ place₁)
    (hrelease : ∀ id ptr, l ≠ .release id ptr) (hq : σ.Settled q ∨ l = .period q) :
    τ.Settled q := by
  intro hnone
  cases h.caches q with
  | rest label hcaches htotal hcleaning =>
    rw [hcleaning] at hnone
    rw [htotal]
    exact hq.resolve_right label hnone
  | put label => exact absurd label (hrelease _ _)
  | period label idle hcaches htotal hcleaning =>
    rw [htotal]
    by_contra hsome
    rw [hcleaning, if_pos hsome] at hnone
    cases hnone
  | round here run => exact settled_of_cleanNext run hnone

/-- A run without releases that calls `do_period_cleanup` on pool `q` leaves the pool settled. -/
theorem Mediator.Ok.run_settled (h : σ.Ok L cfg place) (hcfg : cfg.Ok)
    (hrun : Transition.Run (PoolStep L indexFirst) σ ls τ)
    (hne : ∀ id ptr, .alloc id ptr ∉ ls ∧ .release id ptr ∉ ls) (hperiod : .period q ∈ ls) :
    τ.Settled q := by
  induction hrun with
  | refl => cases hperiod
  | @snoc ls τ υ l hprev last ih =>
    simp only [List.mem_append, List.mem_singleton, not_or] at hne hperiod
    obtain ⟨⟨place', hok⟩, -⟩ := h.run hcfg hprev fun id ptr ↦ (hne id ptr).1.1
    obtain ⟨_, hmove⟩ := (hok.tracked hcfg).step hcfg.ids last
    refine hmove.settled (fun id ptr heq ↦ (hne id ptr).2.2 heq.symm) ?_
    rcases hperiod with hmem | heq
    · exact Or.inl (ih (fun id ptr ↦ ⟨(hne id ptr).1.1, (hne id ptr).2.1⟩) hmem)
    · exact Or.inr heq.symm

/-! ## Two runs -/

/-- The state has come from `σ` without allocations, nothing is cached, and no call is going on. -/
structure Mediator.Quiet (L : EntryLayout) (cfg : ObjectPoolConfig) (σ τ : Mediator)
    (place : Ptr → EntryPlace) : Prop where
  ok : τ.Ok L cfg place
  old : OldLayers σ τ
  live : ∀ i k ptr, EntryOf L τ.pools i k ptr → (place ptr ≠ .free ↔ τ.Held ptr)

theorem Mediator.Quiet.of_settled (hok : τ.Ok L cfg place) (hold : OldLayers σ τ)
    (hreturning : ∀ ptr, τ.returning ptr = none) (hcleaning : ∀ id, τ.cleaning id = none)
    (hsettled : ∀ id < cfg.numOfThread, τ.Settled id) : Quiet L cfg σ τ place := by
  refine ⟨hok, hold, fun i k ptr hentry ↦ ⟨fun hplace ↦ ?_, fun hheld hfree ↦ ?_⟩⟩
  · cases hpl : place ptr with
    | live => exact ⟨(hok.live ptr).mpr ⟨i, k, hentry, hpl⟩, hreturning ptr⟩
    | free => exact absurd hpl hplace
    | cached q =>
      -- The cache of a settled pool is empty.
      have hq := (hok.core.foreign i k ptr q hentry hpl).2
      have hempty := hok.total q (hcleaning q) (hsettled q hq (hcleaning q)) i k
      obtain ⟨xs, hxs, hmem⟩ := hok.core.mem_cacheEntries.mpr ⟨hentry, hpl⟩
      rw [hempty] at hxs
      rcases hxs with ⟨rfl, -⟩ | ⟨ys, t, -, -, htail, -⟩
      · cases hmem
      · cases htail
  · obtain ⟨-, -, -, hlive⟩ := hok.place_live hheld.1
    rw [hfree] at hlive
    cases hlive

theorem Releases.quiet (hok : σ.Ok L cfg place) (hcfg : cfg.Ok)
    (h : Releases L cfg indexFirst σ S τ) :
    (∃ place', Mediator.Quiet L cfg σ τ place') ∧ ∀ x, τ.Held x ↔ σ.Held x ∧ x ∉ S := by
  obtain ⟨ls, ms, ρ, hls, hms, hne, hS, hperiod, hreturning, hcleaning⟩ := h
  have hwhole := hls.trans hms
  obtain ⟨⟨place₁, hok₁⟩, -⟩ := hok.run hcfg hls fun id ptr ↦ (hne id ptr).1
  obtain ⟨⟨place', hok'⟩, hold, hheld⟩ := hok.run hcfg hwhole fun id ptr hmem ↦
    (List.mem_append.mp hmem).elim (hne id ptr).1 (hne id ptr).2.1
  refine ⟨⟨place', .of_settled hok' hold hreturning hcleaning fun id hid ↦
    hok₁.run_settled hcfg hms (fun id ptr ↦ (hne id ptr).2) (hperiod id hid)⟩, fun x ↦ ?_⟩
  rw [hheld, hS]
  refine and_congr_right fun _ ↦ ?_
  rw [not_exists]
  refine forall_congr' fun id ↦ not_congr ?_
  rw [List.mem_append, or_iff_left (hne id x).2.2]

section

variable (h₁ : Mediator.Quiet L cfg σ σ₁ place₁) (h₂ : Mediator.Quiet L cfg σ σ₂ place₂)
  (hcore : ∀ i k i' k' ptr, EntryOf L σ.pools i k ptr → EntryOf L σ.pools i' k' ptr → i = i' ∧
    k = k')
  (hheld : ∀ x, σ₁.Held x ↔ σ₂.Held x)

include h₁ in
theorem Mediator.Quiet.entryOf (hentry : EntryOf L σ₁.pools i k ptr) :
    EntryOf L σ.pools i k ptr := by
  obtain ⟨ly', hly', hhas⟩ := hentry
  obtain ⟨ly, hly, hext⟩ := h₁.old i k ly' hly'
  rw [ObjectLayer.extent, ObjectLayer.extent, Prod.mk.injEq] at hext
  exact ⟨ly, hly, hhas.congr hext.1.symm hext.2.symm⟩

include h₁ h₂ hcore hheld in
theorem Mediator.Quiet.currentLayer_le (hi : i < cfg.numOfThread) :
    (σ₁.pools i).currentLayer ≤ (σ₂.pools i).currentLayer := by
  rcases h₁.ok.top i hi with hzero | ⟨ly, hly, hused⟩
  · rw [hzero]
    exact Nat.zero_le _
  · -- An entry of that layer is held, so the layer is there in the other state as well.
    rw [h₁.ok.core.used_eq hly,
      Set.ncard_pos (ly.finite_entries.subset fun ptr h ↦ h.1)] at hused
    obtain ⟨x, hhas, hplace⟩ := hused
    have hentry : EntryOf L σ₁.pools i (σ₁.pools i).currentLayer x := ⟨ly, hly, hhas⟩
    have hheld₂ := (hheld x).mp ((h₁.live _ _ x hentry).mp hplace)
    obtain ⟨i', k', hentry', -⟩ := h₂.ok.place_live hheld₂.1
    obtain ⟨rfl, hk⟩ := hcore _ _ _ _ x (h₁.entryOf hentry) (h₂.entryOf hentry')
    rw [hk]
    obtain ⟨ly', hly', -⟩ := hentry'
    exact (h₂.ok.stack i hi).le_of_layer hly'

include h₁ h₂ hheld in
/-- **A quiet pool is determined** by the entries that are held. -/
theorem Mediator.Quiet.layers_eq {ly₁ ly₂ : ObjectLayer}
    (hly₁ : (σ₁.pools i).layers k = some ly₁) (hly₂ : (σ₂.pools i).layers k = some ly₂) :
    ly₁.arena = ly₂.arena ∧ ly₁.arenaCap = ly₂.arenaCap ∧ ly₁.used = ly₂.used ∧
      ly₁.freeEntries σ₁.mem = ly₂.freeEntries σ₂.mem := by
  obtain ⟨ly, hly, hext₁⟩ := h₁.old i k ly₁ hly₁
  obtain ⟨ly', hly', hext₂⟩ := h₂.old i k ly₂ hly₂
  rw [hly, Option.some.injEq] at hly'
  rw [← hly', ← hext₁, ObjectLayer.extent, ObjectLayer.extent, Prod.mk.injEq] at hext₂
  obtain ⟨harena, hcap⟩ := hext₂
  have hhas : ∀ ptr, ly₁.Has L ptr ↔ ly₂.Has L ptr := fun ptr ↦
    ⟨fun h ↦ h.congr harena hcap, fun h ↦ h.congr harena.symm hcap.symm⟩
  have hplace : ∀ ptr, ly₁.Has L ptr → (place₁ ptr ≠ .free ↔ place₂ ptr ≠ .free) := fun ptr h ↦ by
    rw [h₁.live i k ptr ⟨ly₁, hly₁, h⟩, h₂.live i k ptr ⟨ly₂, hly₂, (hhas ptr).mp h⟩, hheld]
  refine ⟨harena.symm, hcap.symm, ?_, ?_⟩
  · rw [h₁.ok.core.used_eq hly₁, h₂.ok.core.used_eq hly₂]
    congr 1
    ext ptr
    rw [Set.mem_ofPred_eq, Set.mem_ofPred_eq, ← hhas]
    exact and_congr_right (hplace ptr)
  · ext ptr
    rw [h₁.ok.core.mem_freeEntries hly₁, h₂.ok.core.mem_freeEntries hly₂, ← hhas]
    exact and_congr_right fun h ↦ not_iff_not.mp (hplace ptr h)

end

/-- **The order of the releases, and their routes, do not matter.** In a state that has been
reached, the same live entries are released in two ways, with no allocation, and every pool cleans
up after the last release. Then both ways leave every pool with the same layers, counters and free
entries. If nothing is live any more, each pool has layer `0` only, and all its entries are free. -/
theorem release_order_irrelevant {arena : ℕ → ℕ} (ids : cfg.numOfThread ≤ 2 ^ 16)
    (size : 1 ≤ cfg.poolInitSize) (rate : 1 ≤ cfg.enlargeRate)
    (sizeFits : cfg.poolInitSize < 2 ^ 31)
    (arenas : ∀ i < cfg.numOfThread, ∀ i' < cfg.numOfThread, arena i = arena i' → i = i')
    (hinit : Mediator.initial L cfg arena = some σ₀)
    (hrun : Transition.Run (FitStep L indexFirst) σ₀ ls σ)
    (h₁ : Releases L cfg indexFirst σ S σ₁) (h₂ : Releases L cfg indexFirst σ S σ₂) :
    (∀ i < cfg.numOfThread,
      (σ₁.pools i).currentLayer = (σ₂.pools i).currentLayer ∧
      (σ₁.pools i).currentSize = (σ₂.pools i).currentSize ∧
      (∀ k, (∃ ly, (σ₁.pools i).layers k = some ly) ↔ ∃ ly, (σ₂.pools i).layers k = some ly) ∧
      ∀ k ly₁ ly₂, (σ₁.pools i).layers k = some ly₁ → (σ₂.pools i).layers k = some ly₂ →
        ly₁.arena = ly₂.arena ∧ ly₁.arenaCap = ly₂.arenaCap ∧ ly₁.used = ly₂.used ∧
        ly₁.freeEntries σ₁.mem = ly₂.freeEntries σ₂.mem) ∧
    ((∀ ptr, σ.Held ptr → ptr ∈ S) → ∀ i < cfg.numOfThread,
      (σ₁.pools i).currentLayer = 0 ∧ (σ₁.pools i).currentSize = cfg.poolInitSize ∧
      (∀ k ≠ 0, (σ₁.pools i).layers k = none) ∧
      ∃ ly, (σ₁.pools i).layers 0 = some ly ∧ ly.arenaCap = cfg.poolInitSize ∧ ly.used = 0 ∧
        ly.freeEntries σ₁.mem = {ptr | ly.Has L ptr}) := by
  have hcfg : cfg.Ok := ⟨ids, size, rate⟩
  obtain ⟨place, hok⟩ := reachable_ok hcfg sizeFits arenas hinit ⟨ls, hrun⟩
  obtain ⟨⟨place₁, hquiet₁⟩, hheld₁⟩ := h₁.quiet hok hcfg
  obtain ⟨⟨place₂, hquiet₂⟩, hheld₂⟩ := h₂.quiet hok hcfg
  have hcore : ∀ i k i' k' ptr, EntryOf L σ.pools i k ptr → EntryOf L σ.pools i' k' ptr →
      i = i' ∧ k = k' := fun _ _ _ _ _ h h' ↦ hok.core.entry_unique h h'
  have hheld : ∀ x, σ₁.Held x ↔ σ₂.Held x := fun x ↦ by rw [hheld₁, hheld₂]
  refine ⟨fun i hi ↦ ?_, fun hall i hi ↦ ?_⟩
  · have hstack₁ := hquiet₁.ok.stack i hi
    have hstack₂ := hquiet₂.ok.stack i hi
    have hcl : (σ₁.pools i).currentLayer = (σ₂.pools i).currentLayer := Nat.le_antisymm
      (hquiet₁.currentLayer_le hquiet₂ hcore hheld hi)
      (hquiet₂.currentLayer_le hquiet₁ hcore (fun x ↦ (hheld x).symm) hi)
    refine ⟨hcl, by rw [hstack₁.size, hstack₂.size, hcl], fun k ↦ ⟨?_, ?_⟩,
      fun k ly₁ ly₂ hly₁ hly₂ ↦ hquiet₁.layers_eq hquiet₂ hheld hly₁ hly₂⟩
    · rintro ⟨ly, hly⟩
      exact hstack₂.present k (hcl ▸ hstack₁.le_of_layer hly)
    · rintro ⟨ly, hly⟩
      exact hstack₁.present k (hcl ▸ hstack₂.le_of_layer hly)
  · -- Every entry of every layer is free.
    have hstack := hquiet₁.ok.stack i hi
    have hfree : ∀ k ptr, EntryOf L σ₁.pools i k ptr → place₁ ptr = .free := fun k ptr hentry ↦ by
      by_contra hplace
      obtain ⟨hheld', hnot⟩ := (hheld₁ ptr).mp ((hquiet₁.live i k ptr hentry).mp hplace)
      exact hnot (hall ptr hheld')
    have hunused : ∀ k ly, (σ₁.pools i).layers k = some ly → ly.used = 0 := fun k ly hly ↦ by
      rw [hquiet₁.ok.core.used_eq hly]
      have hempty : {ptr | ly.Has L ptr ∧ place₁ ptr ≠ .free} = ∅ :=
        Set.eq_empty_of_forall_notMem fun ptr hptr ↦ hptr.2 (hfree k ptr ⟨ly, hly, hptr.1⟩)
      rw [hempty, Set.ncard_empty]
    have hcl : (σ₁.pools i).currentLayer = 0 := by
      rcases hquiet₁.ok.top i hi with hzero | ⟨ly, hly, hused⟩
      · exact hzero
      · rw [hunused _ ly hly] at hused
        exact absurd hused (Nat.lt_irrefl 0)
    have hzero : cfg.layerSize 0 = cfg.poolInitSize := by
      rw [ObjectPoolConfig.layerSize, Nat.pow_zero, Nat.mul_one]
    obtain ⟨ly, hly⟩ := hstack.present 0 (Nat.zero_le _)
    refine ⟨hcl, by rw [hstack.size, hcl, hzero], fun k hk ↦ hstack.absent k (by omega), ly, hly,
      by rw [hstack.cap 0 ly hly, hzero], hunused 0 ly hly, ?_⟩
    ext ptr
    rw [hquiet₁.ok.core.mem_freeEntries hly]
    exact ⟨fun h ↦ h.1, fun h ↦ ⟨h, hfree 0 ptr ⟨ly, hly, h⟩⟩⟩

theorem Mediator.Tracked.exists_cleaned (h : σ.Tracked L cfg place) (indexFirst : Bool) (q : ℕ) :
    ∃ ls τ, Transition.Run (PoolStep L indexFirst) σ ls τ ∧ (∀ l ∈ ls, l = .other) ∧
      τ.returning = σ.returning ∧ τ.cleaning q = none ∧
      ∀ q' ≠ q, τ.cleaning q' = σ.cleaning q' := by
  let I : Mediator → Prop := fun τ ↦ (∃ place, τ.Tracked L cfg place) ∧ τ.returning = σ.returning ∧
    ∀ q' ≠ q, τ.cleaning q' = σ.cleaning q'
  let f : Mediator → ℕ := fun τ ↦ (τ.cleaning q).elim 0 fun c ↦ roundsLeft cfg.numOfThread c + 1
  have hround : ∀ τ, I τ → τ.cleaning q = none ∨
      ∃ l υ, (PoolStep L indexFirst τ l υ ∧ l = .other) ∧ I υ ∧ f υ < f τ := by
    rintro τ ⟨⟨place', hτ⟩, hreturning, hrest⟩
    cases hat : τ.cleaning q with
    | none => exact Or.inl rfl
    | some c =>
      obtain ⟨υ, hrun⟩ := hτ.cleanNext_defined hat
      obtain ⟨xs, hxs⟩ := hτ.core.cached q c.1 c.2
      have hmoved := hτ.round hat hrun hxs.holds
      obtain ⟨place'', hmove⟩ := hτ.clean hat hrun
      obtain ⟨-, hreturning', hrest'⟩ := Mediator.cleanNext_frame hrun
      refine Or.inr ⟨.other, υ, ⟨.clean hat hrun, rfl⟩, ⟨⟨place'', hmove.tracked⟩,
        hreturning'.trans hreturning, fun q' hq' ↦ (hrest' q' hq').trans (hrest q' hq')⟩, ?_⟩
      simp only [f, hat]
      cases hat' : υ.cleaning q with
      | none => exact Nat.succ_pos _
      | some c' => exact Nat.succ_lt_succ (hmoved.less c' hat')
  obtain ⟨τ, ⟨ls, hrun⟩, ⟨-, hreturning, hrest⟩, hnone⟩ :=
    Transition.Reachable.exists_final ⟨⟨place, h⟩, rfl, fun _ _ ↦ rfl⟩ hround
  have hsteps := (hrun.mono (I := fun _ ↦ True) trivial fun _ _ _ _ hstep ↦ ⟨hstep.1, trivial⟩).1
  exact ⟨ls, τ, hsteps, hrun.forall_label fun _ _ _ hstep ↦ hstep.2, hreturning, hnone, hrest⟩

theorem update_none_none {f : Ptr → Option ℕ} (hf : ∀ x, f x = none) {y : Ptr} {v : Option ℕ} :
    ∀ x, Function.update (Function.update f y v) y none x = none := by
  intro x
  rw [Function.update_idem]
  by_cases hx : x = y
  · rw [hx, Function.update_self]
  · rw [Function.update_of_ne hx, hf]

/-- Two entries of the layer on top are released through their own pool, or through pool `1`, which
hands them back together. Either way the layer is deleted. -/
theorem release_order_irrelevant_routes :
    ∃ σ₀ σ σ₁ σ₂, Mediator.initial wordLayout twoPools (fun i ↦ i) = some σ₀ ∧
      Transition.Run (FitStep wordLayout false) σ₀
        [.alloc 0 ⟨0, 0⟩, .alloc 0 ⟨2, 0⟩, .alloc 0 ⟨2, 16⟩] σ ∧ (σ.pools 0).currentLayer = 1 ∧
      Releases wordLayout twoPools false σ {⟨2, 0⟩, ⟨2, 16⟩} σ₁ ∧ (σ₁.pools 0).currentLayer = 0 ∧
      Releases wordLayout twoPools false σ {⟨2, 0⟩, ⟨2, 16⟩} σ₂ ∧
      (σ₂.pools 0).currentLayer = 0 := by
  obtain ⟨σ₀, τ₁, τ₂, σ, υ₁, υ₂, υ₃, υ₄, υ₅, σ₁, ρ₁, ρ₂, ρ₃, ρ₄, hinit, h₁, h₂, h₃, f₁, f₂, f₃, hcl,
      r₁, r₂, r₃, r₄, r₅, r₆, hcl₁, hret₁, hclean₁, s₁, s₂, s₃, s₄, hret₂, hclean₂⟩ :
      ∃ σ₀ τ₁ τ₂ σ υ₁ υ₂ υ₃ υ₄ υ₅ σ₁ ρ₁ ρ₂ ρ₃ ρ₄,
        Mediator.initial wordLayout twoPools (fun i ↦ i) = some σ₀ ∧
        PoolStep wordLayout false σ₀ (.alloc 0 ⟨0, 0⟩) τ₁ ∧
        PoolStep wordLayout false τ₁ (.alloc 0 ⟨2, 0⟩) τ₂ ∧
        PoolStep wordLayout false τ₂ (.alloc 0 ⟨2, 16⟩) σ ∧
        τ₁.SizesFit ∧ τ₂.SizesFit ∧ σ.SizesFit ∧ (σ.pools 0).currentLayer = 1 ∧
        PoolStep wordLayout false σ (.release 0 ⟨2, 0⟩) υ₁ ∧
        PoolStep wordLayout false υ₁ .other υ₂ ∧
        PoolStep wordLayout false υ₂ (.release 0 ⟨2, 16⟩) υ₃ ∧
        PoolStep wordLayout false υ₃ .other υ₄ ∧
        PoolStep wordLayout false υ₄ (.period 0) υ₅ ∧ PoolStep wordLayout false υ₅ (.period 1) σ₁ ∧
        (σ₁.pools 0).currentLayer = 0 ∧ (∀ ptr, σ₁.returning ptr = none) ∧
        (∀ q, σ₁.cleaning q = none) ∧
        PoolStep wordLayout false σ (.release 1 ⟨2, 16⟩) ρ₁ ∧
        PoolStep wordLayout false ρ₁ (.release 1 ⟨2, 0⟩) ρ₂ ∧
        PoolStep wordLayout false ρ₂ (.period 0) ρ₃ ∧ PoolStep wordLayout false ρ₃ (.period 1) ρ₄ ∧
        (∀ ptr, ρ₄.returning ptr = none) ∧ ∀ q ≠ 1, ρ₄.cleaning q = none := by
    refine ⟨_, _, _, _, _, _, _, _, _, _, _, _, _, _, rfl,
      @PoolStep.of_myAlloc wordLayout false _ _ 0 none _ (Option.some_get (by decide)).symm
        (by decide) (by decide) (fun _ h ↦ by cases h),
      @PoolStep.of_myAlloc wordLayout false _ _ 0 (some 2) _ (Option.some_get (by decide)).symm
        (by decide) (by decide) (fun a ha i k ly hly heq ↦ ?_),
      @PoolStep.of_myAlloc wordLayout false _ _ 0 none _ (Option.some_get (by decide)).symm
        (by decide) (by decide) (fun _ h ↦ by cases h),
      .of_two (by decide) (by decide) fun _ ↦ rfl, .of_two (by decide) (by decide) fun _ ↦ rfl,
      .of_two (by decide) (by decide) fun _ ↦ rfl, by decide,
      @PoolStep.releaseOwn wordLayout false _ 0 _ _ (by decide) (Or.inr (Or.inl rfl)) (by decide)
        (by decide) (Option.some_get (by decide)).symm (by decide),
      @PoolStep.returned wordLayout false _ 0 ⟨2, 0⟩ _ _ (by decide)
      (Option.some_get (by decide)).symm,
      @PoolStep.releaseOwn wordLayout false _ 0 _ _ (by decide) ⟨by decide, Or.inl rfl⟩ (by decide)
        (by decide) (Option.some_get (by decide)).symm (by decide),
      @PoolStep.returned wordLayout false _ 0 ⟨2, 16⟩ _ _ (by decide)
      (Option.some_get (by decide)).symm,
      @PoolStep.period wordLayout false _ 0 (by decide) (by decide),
      @PoolStep.period wordLayout false _ 1 (by decide) (by decide), by decide,
      update_none_none (update_none_none fun _ ↦ rfl), fun q ↦ ?_,
      @PoolStep.releaseForeign wordLayout false _ 1 _ _ _ _ (by decide) (Or.inl rfl)
        (by decide) (by decide) (Option.some_get (by decide)).symm (by decide)
        (Option.some_get (by decide)).symm,
      @PoolStep.releaseForeign wordLayout false _ 1 _ _ _ _ (by decide)
        ⟨by decide, Or.inr (Or.inl rfl)⟩ (by decide) (by decide) (Option.some_get (by decide)).symm
        (by decide) (Option.some_get (by decide)).symm,
      @PoolStep.period wordLayout false _ 0 (by decide) (by decide),
      @PoolStep.period wordLayout false _ 1 (by decide) (by decide), fun ptr ↦ rfl, fun q hq ↦ ?_⟩
    · cases ha
      rcases i with _ | _ | i <;> rcases k with _ | k <;> cases hly <;> cases heq
    · rcases q with _ | _ | q <;> rfl
    · rcases q with _ | _ | q
      · rfl
      · exact absurd rfl hq
      · rfl
  have hstart : Transition.Run (FitStep wordLayout false) σ₀ [] σ₀ := .refl
  have hrun := ((hstart.snoc ⟨h₁, f₁⟩).snoc ⟨h₂, f₂⟩).snoc ⟨h₃, f₃⟩
  have hway₁ : Releases wordLayout twoPools false σ {⟨2, 0⟩, ⟨2, 16⟩} σ₁ := by
    refine ⟨_, _, _, (((Transition.Run.refl.snoc r₁).snoc r₂).snoc r₃).snoc r₄,
      (Transition.Run.refl.snoc r₅).snoc r₆, fun id ptr ↦ by simp, fun ptr ↦ by simp [exists_or],
      fun id hid ↦ ?_, hret₁, hclean₁⟩
    have hcases : id = 0 ∨ id = 1 := Nat.le_one_iff_eq_zero_or_eq_one.mp (Nat.le_of_lt_succ hid)
    rcases hcases with rfl | rfl <;> simp
  have hruns := (((((Transition.Run.refl.snoc h₁).snoc h₂).snoc h₃).snoc s₁).snoc s₂).snoc s₃
    |>.snoc s₄
  obtain ⟨place, htracked⟩ := reachable_tracked (by decide) (by decide) (fun i _ i' _ h ↦ h) hinit
    ⟨_, hruns⟩
  obtain ⟨ls, σ₂, hls, hother, hret, hdone, hrest⟩ := htracked.exists_cleaned false 1
  have hway₂ : Releases wordLayout twoPools false σ {⟨2, 0⟩, ⟨2, 16⟩} σ₂ := by
    refine ⟨_, [.period 0, .period 1] ++ ls, _, (Transition.Run.refl.snoc s₁).snoc s₂,
      ((Transition.Run.refl.snoc s₃).snoc s₄).trans hls, fun id ptr ↦ ?_,
      fun ptr ↦ by simp [exists_or, or_comm], fun id hid ↦ ?_, fun ptr ↦ by rw [hret, hret₂],
      fun q ↦ ?_⟩
    · have hnot : ∀ l : PoolLabel, l ≠ .other → l ∉ ls := fun l hne hl ↦ hne (hother l hl)
      simp [hnot]
    · have hcases : id = 0 ∨ id = 1 := Nat.le_one_iff_eq_zero_or_eq_one.mp (Nat.le_of_lt_succ hid)
      rcases hcases with rfl | rfl <;> simp
    · by_cases hq : q = 1
      · rw [hq, hdone]
      · rw [hrest q hq, hclean₂ q hq]
  have hsame := ((release_order_irrelevant (by decide) (by decide) (by decide) (by decide)
    (fun i _ i' _ h ↦ h) hinit hrun hway₁ hway₂).1 0 (by decide)).1
  exact ⟨σ₀, σ, σ₁, σ₂, hinit, hrun, hcl, hway₁, hcl₁, hway₂, hsame.symm.trans hcl₁⟩

/-- After a growth that has failed, a pool does not come back to its first state. And where there
are more pools than an entry can tell apart, a pool does not get its own entry back. -/
theorem release_order_irrelevant_needs_memory_and_ids :
    (∀ indexFirst, ∃ σ₀ σ τ, Mediator.initial wordLayout twoPools (fun i ↦ i) = some σ₀ ∧
      Transition.Run (ThrowingStep wordLayout indexFirst) σ₀ [some (.alloc 0 ⟨0, 0⟩), none] σ ∧
      σ.SizesFit ∧ (∀ ptr, σ.Held ptr → ptr = ⟨0, 0⟩) ∧
      Releases wordLayout twoPools indexFirst σ {⟨0, 0⟩} τ ∧
      ¬((τ.pools 0).currentLayer = 0 ∧ (τ.pools 0).currentSize = twoPools.poolInitSize)) ∧
    ∃ σ₀ σ τ ptr, Mediator.initial wordLayout manyPools (fun i ↦ i) = some σ₀ ∧
      FitStep wordLayout false σ₀ (.alloc (2 ^ 16) ptr) σ ∧ (∀ x, σ.Held x → x = ptr) ∧
      Releases wordLayout manyPools false σ {ptr} τ ∧
      ∃ ly, (τ.pools (2 ^ 16)).layers 0 = some ly ∧ ly.used = 1 := by
  constructor
  · intro indexFirst
    obtain ⟨σ₀, σ₁, σ, τ₁, τ₂, τ₃, τ, hinit, halloc, hthrow, hfits, hheld, r₁, r₂, r₃, r₄, hret,
        hclean,
        hnot⟩ : ∃ σ₀ σ₁ σ τ₁ τ₂ τ₃ τ, Mediator.initial wordLayout twoPools (fun i ↦ i) = some σ₀ ∧
        PoolStep wordLayout indexFirst σ₀ (.alloc 0 ⟨0, 0⟩) σ₁ ∧
        ThrowingStep wordLayout indexFirst σ₁ none σ ∧ σ.SizesFit ∧
        (∀ ptr, σ.Held ptr → ptr = ⟨0, 0⟩) ∧
        PoolStep wordLayout indexFirst σ (.release 0 ⟨0, 0⟩) τ₁ ∧
        PoolStep wordLayout indexFirst τ₁ .other τ₂ ∧
        PoolStep wordLayout indexFirst τ₂ (.period 0) τ₃ ∧
        PoolStep wordLayout indexFirst τ₃ (.period 1) τ ∧ (∀ ptr, τ.returning ptr = none) ∧
        (∀ q, τ.cleaning q = none) ∧
        ¬((τ.pools 0).currentLayer = 0 ∧ (τ.pools 0).currentSize = twoPools.poolInitSize) := by
      cases indexFirst
      all_goals
        refine ⟨_, _, _, _, _, _, _, rfl, @PoolStep.of_myAlloc wordLayout _ _ _ 0 none _
          (Option.some_get (by decide)).symm (by decide) (by decide) (fun _ h ↦ by cases h),
          @ThrowingStep.of_myAlloc wordLayout _ _ 0 none _ (Option.some_get (by decide)).symm
            (by decide) (by decide), .of_two (by decide) (by decide) fun _ ↦ rfl,
          fun ptr h ↦ h.1.elim (fun heq ↦ heq) False.elim,
          @PoolStep.releaseOwn wordLayout _ _ 0 _ _ (by decide) (Or.inl rfl) (by decide)
            (by decide) (Option.some_get (by decide)).symm (by decide),
          @PoolStep.returned wordLayout _ _ 0 ⟨0, 0⟩ _ _ (by decide)
            (Option.some_get (by decide)).symm,
          @PoolStep.period wordLayout _ _ 0 (by decide) (by decide),
          @PoolStep.period wordLayout _ _ 1 (by decide) (by decide), update_none_none fun _ ↦ rfl,
          fun q ↦ ?_, by decide⟩
        rcases q with _ | _ | q <;> rfl
    refine ⟨σ₀, σ, τ, hinit, (Transition.Run.refl.snoc (.step halloc)).snoc hthrow, hfits, hheld,
      ⟨_, _, _, (Transition.Run.refl.snoc r₁).snoc r₂, (Transition.Run.refl.snoc r₃).snoc r₄,
        fun id ptr ↦ by simp, fun ptr ↦ by simp, fun id hid ↦ ?_, hret, hclean⟩, hnot⟩
    have hcases : id = 0 ∨ id = 1 := Nat.le_one_iff_eq_zero_or_eq_one.mp (Nat.le_of_lt_succ hid)
    rcases hcases with rfl | rfl <;> simp
  · obtain ⟨σ₀, σ₁, σ₂, ptr, hinit, halloc, hlive, hrelease, hmisfiled⟩ :=
      own_entry_misfiled wordLayout
      manyPools false (fun i ↦ i) (by decide) (by decide) (by decide) (by decide) fun i _ i' _ h ↦ h
    obtain ⟨σ₃, σ₄, hperiod, hback, -, hgiven⟩ := hmisfiled.givenAway false (by decide) (by decide)
    obtain ⟨n, τ, hrest, hret, hclean, howner⟩ := hgiven.finished false
    refine ⟨σ₀, σ₁, τ, ptr, hinit, halloc, fun x h ↦ (hlive x).mp h.1, ⟨_, _, _,
      Transition.Run.refl.snoc hrelease.1, ((Transition.Run.refl.snoc hperiod).snoc hback).trans
      hrest,
      fun id x ↦ by simp, fun x ↦ by simp, fun id hid ↦ ?_, hret, hclean⟩, howner⟩
    simp only [List.mem_append, List.mem_map, List.mem_range]
    exact Or.inr (Or.inr ⟨id, hid, rfl⟩)

end TYThread
