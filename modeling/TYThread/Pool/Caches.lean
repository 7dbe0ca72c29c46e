import TYThread.Pool.Ownership

/-!
# The caches of a pool

An entry that is released through another pool is put into one of the caches of that pool, which has
one for each owner and layer. It stays there until `cleanup_all_cache` hands the cache back. The
counters agree with the chains whenever the pool is not cleaning up, and they never exceed
`max_total_cached` by more than one, so an `int` holds them unless that maximum is the largest one.

A cleanup goes through the caches one after the other. It holds `my_release_mut_` of its pool, so no
entry is put into a cache meanwhile, but other pools go on, and entries of other layers move.
`Cleanup` is such a cleanup with whatever happens in between, and records what each cache held when
its turn came.
-/

namespace TYThread

open LinkedList Transition

/-- The sum of all `num_cached`. -/
def ObjectPool.sumCached (p : ObjectPool) : ℕ :=
  ∑ i ∈ Finset.range p.config.numOfThread, ∑ j ∈ Finset.range ObjectPool.NLayers,
    (p.caches i j).numCached

/-- The counters of pool `q` are right. While it is cleaning up, the total is the one of the
beginning. -/
structure Mediator.Counted (cfg : ObjectPoolConfig) (σ : Mediator) (q : ℕ) : Prop where
  sum : σ.cleaning q = none → (σ.pools q).totalCached = (σ.pools q).sumCached
  idle : σ.cleaning q = none → ((σ.pools q).totalCached : ℤ) ≤ cfg.maxTotalCached
  le : ((σ.pools q).totalCached : ℤ) ≤ cfg.maxTotalCached + 1

/-- The cleanup has come to `caches[id][layer]`, which held `entries`. -/
structure CacheVisit where
  before : Mediator
  id : ℕ
  layer : ℕ
  entries : List Ptr
  after : Mediator

/-- `cleanup_all_cache` of pool `id`, from `σ` on, has come to `τ`, by way of the caches `vs`. -/
inductive Cleanup (L : EntryLayout) (indexFirst : Bool) (id : ℕ) (σ : Mediator) :
    List CacheVisit → Mediator → Prop
  | start : Cleanup L indexFirst id σ [] σ
  /-- Another call goes on. -/
  | wait {vs : List CacheVisit} {τ υ : Mediator} {l : PoolLabel}
      (prev : Cleanup L indexFirst id σ vs τ) (last : PoolStep L indexFirst τ l υ)
      (busy : τ.cleaning id ≠ none) (same : υ.cleaning id = τ.cleaning id) :
      Cleanup L indexFirst id σ vs υ
  | round {vs : List CacheVisit} {τ υ : Mediator} {i j : ℕ} {xs : List Ptr}
      (prev : Cleanup L indexFirst id σ vs τ) (here : τ.cleaning id = some (i, j))
      (run : τ.cleanNext L id i j = some υ)
      (holds : CacheHolds τ.mem ((τ.pools id).caches i j) xs) :
      Cleanup L indexFirst id σ (vs ++ [⟨τ, i, j, xs, υ⟩]) υ

/-- The entries that have been handed back to layer `j` of pool `i`. -/
def returnedTo (vs : List CacheVisit) (i j : ℕ) : List Ptr :=
  vs.flatMap fun v ↦ if v.id = i ∧ v.layer = j then v.entries else []

/-- What is left of the loops of `cleanup_all_cache` when they have come to `caches[c.1][c.2]`. -/
def roundsLeft (n : ℕ) (c : ℕ × ℕ) : ℕ :=
  (n - c.1) * (ObjectPool.NLayers + 1) + (ObjectPool.NLayers - c.2)

/-- What a round of a cleanup of pool `id` does, at `caches[i][j]`, which holds `xs`. -/
structure RoundMove (L : EntryLayout) (cfg : ObjectPoolConfig) (σ : Mediator) (id i j : ℕ)
    (xs : List Ptr) (σ' : Mediator) : Prop where
  caches : (σ'.pools id).caches = ((σ.pools id).setCache i j {}).caches
  holds : ∀ i' j' zs, ¬(i' = i ∧ j' = j) → CacheHolds σ.mem ((σ.pools id).caches i' j') zs →
    CacheHolds σ'.mem ((σ.pools id).caches i' j') zs
  back : xs ≠ [] →
    HandedBack L σ.mem (σ.pools i) j ((σ.pools id).caches i j) xs σ'.mem (σ'.pools i)
  total : σ'.cleaning id ≠ none → (σ'.pools id).totalCached = (σ.pools id).totalCached
  done : σ'.cleaning id = none →
    (σ'.pools id).totalCached = 0 ∧ ∀ i' j', (σ'.pools id).caches i' j' = {}
  less : ∀ c, σ'.cleaning id = some c →
    roundsLeft cfg.numOfThread c < roundsLeft cfg.numOfThread (i, j)

variable {L : EntryLayout} {cfg : ObjectPoolConfig} {indexFirst : Bool} {σ σ₀ σ' τ υ : Mediator}
  {place place' : Ptr → EntryPlace} {l : PoolLabel} {ls : List PoolLabel} {id i j q : ℕ} {m : Mem}
  {p p' : ObjectPool} {c : PerLayerCache} {xs : List Ptr} {vs : List CacheVisit}

/-! ## Counters -/

theorem ObjectPool.sumCached_congr (hconfig : p'.config = p.config)
    (hcaches : p'.caches = p.caches) : p'.sumCached = p.sumCached := by
  rw [sumCached, hconfig, hcaches, sumCached]

theorem ObjectPool.sumCached_empty (h : ∀ i j, p.caches i j = {}) : p.sumCached = 0 :=
  Finset.sum_eq_zero fun i _ ↦ Finset.sum_eq_zero fun j _ ↦ by rw [h]

theorem ObjectPool.sumCached_put (hconfig : p'.config = p.config)
    (hcaches : p'.caches = (p.setCache i j c).caches) (hi : i < p.config.numOfThread)
    (hj : j < ObjectPool.NLayers) (hnum : c.numCached = (p.caches i j).numCached + 1) :
    p'.sumCached = p.sumCached + 1 := by
  have hrow := Counting.sum_update (p.caches i) PerLayerCache.numCached (Finset.mem_range.mpr hj) c
  have hall := Counting.sum_update p.caches
    (fun row ↦ ∑ j ∈ Finset.range ObjectPool.NLayers, (row j).numCached) (Finset.mem_range.mpr hi)
    (Function.update (p.caches i) j c)
  rw [sumCached, hconfig, hcaches, sumCached]
  change ∑ i' ∈ Finset.range p.config.numOfThread, ∑ j' ∈ Finset.range ObjectPool.NLayers,
    (Function.update p.caches i (Function.update (p.caches i) j c) i' j').numCached = _
  omega

/-! ## One round -/

theorem CacheHolds.eq_nil (h : CacheHolds m {} xs) : xs = [] := by
  rcases h with ⟨hnil, -⟩ | ⟨ys, t, -, -, htail, -⟩
  · exact hnil
  · cases htail

theorem setCache_of_empty (h : p.caches i j = {}) : (p.setCache i j {}).caches = p.caches := by
  rw [ObjectPool.setCache, ← h, Function.update_eq_self, Function.update_eq_self]

theorem setCleaning_self (σ : Mediator) (id : ℕ) (c : Option (ℕ × ℕ)) :
    (σ.setCleaning id c).cleaning id = c := Function.update_self ..

theorem roundsLeft_column {n : ℕ} (hj : j < ObjectPool.NLayers) :
    roundsLeft n (i, j + 1) < roundsLeft n (i, j) := by
  simp only [roundsLeft]
  omega

theorem roundsLeft_row {n : ℕ} (hi : i < n) : roundsLeft n (i + 1, 0) < roundsLeft n (i, j) := by
  obtain ⟨d, rfl⟩ : ∃ d, n = i + 1 + d := ⟨_, (Nat.add_sub_cancel' hi).symm⟩
  have hrow : i + 1 + d - i = d + 1 := by omega
  simp only [roundsLeft, hrow, Nat.add_sub_cancel_left, Nat.add_mul]
  omega

/-- **One round** of a cleanup. -/
theorem Mediator.Tracked.round (h : σ.Tracked L cfg place) (hhere : σ.cleaning id = some (i, j))
    (hrun : σ.cleanNext L id i j = some σ') (hxs : CacheHolds σ.mem ((σ.pools id).caches i j) xs) :
    RoundMove L cfg σ id i j xs σ' := by
  have hconfig := h.config id
  -- Nothing is handed back from an empty cache.
  have hempty : (σ.pools id).caches i j = {} → xs = [] := fun hcache ↦ (hcache ▸ hxs).eq_nil
  have hnext : ∀ {ρ : Mediator} {c₀ : ℕ × ℕ}, ρ.pools id = σ.pools id → ρ.mem = σ.mem →
      (σ.pools id).caches i j = {} → ρ.cleaning id = some c₀ →
      roundsLeft cfg.numOfThread c₀ < roundsLeft cfg.numOfThread (i, j) →
      RoundMove L cfg σ id i j xs ρ := by
    intro ρ c₀ hpool hmem hcache hcleaning hless
    refine ⟨by rw [hpool, setCache_of_empty hcache], fun i' j' zs _ hzs ↦ by rwa [hmem],
      fun hne ↦ absurd (hempty hcache) hne, fun _ ↦ by rw [hpool], fun hnone ↦ ?_, fun c hc ↦ ?_⟩
    · rw [hcleaning] at hnone
      cases hnone
    · rw [hcleaning, Option.some.injEq] at hc
      rwa [← hc]
  cases Mediator.cleanNext_cases hrun with
  | last le eq =>
    rw [hconfig] at le
    have hall := h.caches_empty hhere le
    have hpool : σ'.pools id = { σ.pools id with totalCached := 0 } := by
      rw [eq]
      exact Function.update_self ..
    have hmem : σ'.mem = σ.mem := by rw [eq]; rfl
    have hnone : σ'.cleaning id = none := by rw [eq, setCleaning_self]
    refine ⟨by rw [hpool, setCache_of_empty (hall i j)], fun i' j' zs _ hzs ↦ by rwa [hmem],
      fun hne ↦ absurd (hempty (hall i j)) hne, fun hbusy ↦ absurd hnone hbusy,
      fun _ ↦ by rw [hpool]; exact ⟨rfl, hall⟩, fun c hc ↦ ?_⟩
    rw [hnone] at hc
    cases hc
  | skip lt own eq =>
    rw [hconfig] at lt
    rw [eq]
    refine hnext rfl rfl ?_ (setCleaning_self ..) (roundsLeft_row lt)
    rcases own with rfl | hle
    · exact h.core.own_cache_empty i j
    · exact h.outer_cache_empty id (Or.inr hle)
  | empty lt ne lt' zero eq =>
    rw [eq]
    exact hnext rfl rfl (h.core.cache_eq_of_numCached zero) (setCleaning_self ..)
      (roundsLeft_column lt')
  | @back σ₁ lt ne lt' pos run eq =>
    obtain ⟨ys, hys⟩ := h.core.cached id i j
    obtain rfl := hxs.unique hys.holds
    obtain ⟨σ₂, hback, -, -, hret⟩ := h.handBack hhere pos hys
    rw [run, Option.some.injEq] at hback
    subst hback
    rw [eq]
    refine ⟨hret.caches, fun i' j' zs hne ↦ hret.holds id i' j' zs fun heq ↦ hne heq.2,
      fun _ ↦ hret.back, fun _ ↦ hret.totalCached id, fun hnone ↦ ?_, fun c hc ↦ ?_⟩
    · rw [setCleaning_self] at hnone
      cases hnone
    · rw [setCleaning_self, Option.some.injEq] at hc
      rw [← hc]
      exact roundsLeft_column lt'

/-! ## All steps -/

/-- **The counters stay right.** -/
theorem Mediator.Counted.move (h : σ.Counted cfg q) (hmax : 0 ≤ cfg.maxTotalCached)
    (hσ : σ.Tracked L cfg place) (hmove : StepMove L cfg l σ place σ' place') :
    σ'.Counted cfg q := by
  have hconfig : (σ'.pools q).config = (σ.pools q).config := by rw [hmove.tracked.config, hσ.config]
  cases hmove.caches q with
  | rest label hcaches htotal hcleaning =>
    refine ⟨fun hnone ↦ ?_, fun hnone ↦ ?_, by rw [htotal]; exact h.le⟩
    · rw [hcleaning] at hnone
      rw [htotal, ObjectPool.sumCached_congr hconfig hcaches, h.sum hnone]
    · rw [hcleaning] at hnone
      rw [htotal]
      exact h.idle hnone
  | put label idle lt lt' num hcaches htotal hcleaning =>
    have hidle := h.idle idle
    refine ⟨fun _ ↦ ?_, fun hnone ↦ ?_, ?_⟩
    · rw [htotal, h.sum idle, ObjectPool.sumCached_put hconfig hcaches (by rwa [hσ.config]) lt' num]
    · -- There is no cleanup, so the caches are not full.
      by_contra hlarge
      rw [hcleaning, if_pos (Int.lt_of_not_ge hlarge)] at hnone
      cases hnone
    · rw [htotal]
      omega
  | period label idle hcaches htotal hcleaning =>
    refine ⟨fun _ ↦ ?_, fun _ ↦ ?_, by rw [htotal]; exact h.le⟩
    · rw [htotal, ObjectPool.sumCached_congr hconfig hcaches, h.sum idle]
    · rw [htotal]
      exact h.idle idle
  | @round i j here run =>
    obtain ⟨xs, hxs⟩ := hσ.core.cached q i j
    have hround := hσ.round here run hxs.holds
    by_cases hnone : σ'.cleaning q = none
    · obtain ⟨hzero, hempty⟩ := hround.done hnone
      exact ⟨fun _ ↦ by rw [hzero, ObjectPool.sumCached_empty hempty],
        fun _ ↦ by rw [hzero]; exact hmax, by rw [hzero]; omega⟩
    · exact ⟨fun h ↦ absurd h hnone, fun h ↦ absurd h hnone, by rw [hround.total hnone]; exact h.le⟩

theorem reachable_counted {arena : ℕ → ℕ} (hids : cfg.numOfThread ≤ 2 ^ 16)
    (hsize : cfg.poolInitSize < sizeRange) (hmax : 0 ≤ cfg.maxTotalCached)
    (harena : ∀ i < cfg.numOfThread, ∀ i' < cfg.numOfThread, arena i = arena i' → i = i')
    (hinit : Mediator.initial L cfg arena = some σ₀) (hrun : Run (PoolStep L indexFirst) σ₀ ls σ)
    (q : ℕ) : σ.Counted cfg q := by
  induction hrun with
  | refl =>
    obtain ⟨σ₁, hinit₁, -, -, hpools⟩ :=
      Mediator.initial_tracked (L := L) (Mediator.pos_of_initial hinit) hsize harena
    rw [hinit, Option.some.injEq] at hinit₁
    subst hinit₁
    have htotal : (σ₀.pools q).totalCached = 0 := by rw [hpools]; rfl
    have hempty : ∀ i j, (σ₀.pools q).caches i j = {} := fun i j ↦ by rw [hpools]; rfl
    exact ⟨fun _ ↦ by rw [htotal, ObjectPool.sumCached_empty hempty],
      fun _ ↦ by rw [htotal]; exact hmax, by rw [htotal]; omega⟩
  | @snoc ls τ υ l prev last ih =>
    obtain ⟨place, htracked⟩ := reachable_tracked hids hsize harena hinit ⟨ls, prev⟩
    obtain ⟨place', hmove⟩ := htracked.step hids last
    exact ih.move hmax htracked hmove

/-! ## A whole cleanup -/

theorem returnedTo_snoc (vs : List CacheVisit) (v : CacheVisit) (i j : ℕ) :
    returnedTo (vs ++ [v]) i j =
      returnedTo vs i j ++ if v.id = i ∧ v.layer = j then v.entries else [] := by
  rw [returnedTo, List.flatMap_append, List.flatMap_singleton, returnedTo]

/-- A step that leaves the cleanup of pool `id` where it is leaves the caches alone. -/
theorem CacheMove.of_same (h : CacheMove L cfg l σ id σ') (hσ : σ.Tracked L cfg place)
    (hbusy : σ.cleaning id ≠ none) (hsame : σ'.cleaning id = σ.cleaning id) :
    (σ'.pools id).caches = (σ.pools id).caches ∧
      ∀ i j xs, CacheHolds σ.mem ((σ.pools id).caches i j) xs →
        CacheHolds σ'.mem ((σ.pools id).caches i j) xs := by
  cases h with
  | rest label hcaches htotal hcleaning hholds => exact ⟨hcaches, hholds⟩
  | put label idle => exact absurd idle hbusy
  | period label idle => exact absurd idle hbusy
  | @round i j here run =>
    -- A round moves on.
    obtain ⟨xs, hxs⟩ := hσ.core.cached id i j
    exact absurd ((hσ.round here run hxs.holds).less (i, j) (hsame.trans here)) (Nat.lt_irrefl _)

/-- What has been handed back from each cache, followed by what is left in it, is what it held. -/
theorem Cleanup.returned (h : Cleanup L indexFirst id σ vs τ) (hids : cfg.numOfThread ≤ 2 ^ 16)
    (hσ : σ.Tracked L cfg place) (hbusy : σ.cleaning id ≠ none) :
    (∃ place', τ.Tracked L cfg place') ∧
      (τ.cleaning id = none →
        (τ.pools id).totalCached = 0 ∧ ∀ i j, (τ.pools id).caches i j = {}) ∧
      (∀ i j xs, CacheHolds σ.mem ((σ.pools id).caches i j) xs →
        ∃ ys, CacheHolds τ.mem ((τ.pools id).caches i j) ys ∧ returnedTo vs i j ++ ys = xs) ∧
      ∀ v ∈ vs, v.entries ≠ [] → HandedBack L v.before.mem (v.before.pools v.id) v.layer
        ((v.before.pools id).caches v.id v.layer) v.entries v.after.mem (v.after.pools v.id) := by
  induction h with
  | start =>
    exact ⟨⟨place, hσ⟩, fun hnone ↦ absurd hnone hbusy, fun i j xs hxs ↦ ⟨xs, hxs, rfl⟩,
      fun v hv ↦ absurd hv List.not_mem_nil⟩
  | @wait vs τ υ l prev last going same ih =>
    obtain ⟨⟨place₁, hτ⟩, -, hleft, hback⟩ := ih
    obtain ⟨place₂, hmove⟩ := hτ.step hids last
    obtain ⟨hcaches, hholds⟩ := (hmove.caches id).of_same hτ going same
    refine ⟨⟨place₂, hmove.tracked⟩, fun hnone ↦ absurd (same.symm.trans hnone) going,
      fun i j xs hxs ↦ ?_, hback⟩
    obtain ⟨ys, hys, heq⟩ := hleft i j xs hxs
    exact ⟨ys, by rw [hcaches]; exact hholds i j ys hys, heq⟩
  | @round vs τ υ i j zs prev here run holds ih =>
    obtain ⟨⟨place₁, hτ⟩, -, hleft, hback⟩ := ih
    have hround := hτ.round here run holds
    obtain ⟨place₂, hmove⟩ := hτ.clean here run
    refine ⟨⟨place₂, hmove.tracked⟩, hround.done, fun i' j' xs hxs ↦ ?_, fun v hv hne ↦ ?_⟩
    · obtain ⟨ys, hys, heq⟩ := hleft i' j' xs hxs
      rw [returnedTo_snoc, hround.caches]
      by_cases hhere : i' = i ∧ j' = j
      · -- The cache has been emptied.
        obtain ⟨rfl, rfl⟩ := hhere
        obtain rfl := hys.unique holds
        refine ⟨[], ?_, by rw [if_pos ⟨rfl, rfl⟩, List.append_nil, heq]⟩
        rw [setCache_caches_self]
        exact Or.inl ⟨rfl, rfl⟩
      · refine ⟨ys, ?_, by rw [if_neg fun h ↦ hhere ⟨h.1.symm, h.2.symm⟩, List.append_nil, heq]⟩
        rw [setCache_caches_of_ne _ hhere]
        exact hround.holds i' j' ys hhere hys
    · rcases List.mem_append.mp hv with hv | hv
      · exact hback v hv hne
      · obtain rfl := List.mem_singleton.mp hv
        exact hround.back hne

/-- **A cleanup ends.** -/
theorem Cleanup.ends (h : Cleanup L indexFirst id σ vs τ) (hτ : τ.Tracked L cfg place) :
    ∃ ws υ, Cleanup L indexFirst id σ ws υ ∧ υ.cleaning id = none := by
  cases hat : τ.cleaning id with
  | none => exact ⟨vs, τ, h, hat⟩
  | some c =>
    -- Every round leaves fewer of them.
    induction hn : roundsLeft cfg.numOfThread c using Nat.strong_induction_on
      generalizing c vs τ place with
    | _ n ih =>
      obtain ⟨i, j⟩ := c
      obtain ⟨υ, hrun⟩ := hτ.cleanNext_defined hat
      obtain ⟨xs, hxs⟩ := hτ.core.cached id i j
      obtain ⟨place', hmove⟩ := hτ.clean hat hrun
      have hround := hτ.round hat hrun hxs.holds
      have hnext := h.round hat hrun hxs.holds
      cases hat' : υ.cleaning id with
      | none => exact ⟨_, υ, hnext, hat'⟩
      | some c' => exact ih _ (hn ▸ hround.less c' hat') hnext hmove.tracked c' hat' rfl

/-- **The caches of foreign entries.** The pools call `my_alloc`, `my_release` and
`do_period_cleanup` in any order, and there are no more of them than an entry can tell apart. Each
cache is empty, or a chain from `head` to `tail` of as many different entries as it counts, all of
them of its layer, and a pool has no cache for its own entries. Unless the pool is cleaning up,
`total_cached` is the sum of the counters, and at most the maximum. A cleanup can always go on, and
it ends. Then the caches are empty, and the entries of each have been put before the free entries of
their layer, once. -/
theorem foreign_entries_cached {arena : ℕ → ℕ} (ids : cfg.numOfThread ≤ 2 ^ 16)
    (size : cfg.poolInitSize < sizeRange) (max : 0 ≤ cfg.maxTotalCached)
    (arenas : ∀ i < cfg.numOfThread, ∀ i' < cfg.numOfThread, arena i = arena i' → i = i')
    (hinit : Mediator.initial L cfg arena = some σ₀) (hrun : Run (PoolStep L indexFirst) σ₀ ls σ) :
    (∀ id i j, ∃ xs, CacheHolds σ.mem ((σ.pools id).caches i j) xs ∧ xs.Nodup ∧
      ∀ ptr ∈ xs, EntryOf L σ.pools i j ptr) ∧
    (∀ id j, (σ.pools id).caches id j = {}) ∧
    (∀ id, ((σ.pools id).totalCached : ℤ) ≤ cfg.maxTotalCached + 1 ∧ (σ.cleaning id = none →
      (σ.pools id).totalCached = (σ.pools id).sumCached ∧
        ((σ.pools id).totalCached : ℤ) ≤ cfg.maxTotalCached)) ∧
    (∀ id i j, σ.cleaning id = some (i, j) → ∃ σ', σ.cleanNext L id i j = some σ') ∧
    ∀ id, σ.cleaning id ≠ none →
      (∃ vs τ, Cleanup L indexFirst id σ vs τ ∧ τ.cleaning id = none) ∧
      ∀ vs τ, Cleanup L indexFirst id σ vs τ → τ.cleaning id = none →
        (τ.pools id).totalCached = 0 ∧ (∀ i j, (τ.pools id).caches i j = {}) ∧
        (∀ i j xs, CacheHolds σ.mem ((σ.pools id).caches i j) xs → returnedTo vs i j = xs) ∧
        ∀ v ∈ vs, v.entries ≠ [] → HandedBack L v.before.mem (v.before.pools v.id) v.layer
          ((v.before.pools id).caches v.id v.layer) v.entries v.after.mem (v.after.pools v.id) := by
  obtain ⟨place, htracked⟩ := reachable_tracked ids size arenas hinit ⟨ls, hrun⟩
  have hcounted := reachable_counted ids size max arenas hinit hrun
  refine ⟨fun id i j ↦ ?_, fun id j ↦ htracked.core.own_cache_empty id j,
    fun id ↦ ⟨(hcounted id).le, fun hnone ↦ ⟨(hcounted id).sum hnone, (hcounted id).idle hnone⟩⟩,
    fun id i j ↦ htracked.cleanNext_defined,
    fun id hbusy ↦ ⟨Cleanup.start.ends htracked, fun vs τ hcleanup hnone ↦ ?_⟩⟩
  · obtain ⟨xs, hxs⟩ := htracked.core.cached id i j
    exact ⟨xs, hxs.holds, hxs.nodup, fun ptr hptr ↦ ((hxs.mem ptr).mp hptr).1⟩
  · obtain ⟨-, hdone, hreturned, hback⟩ := hcleanup.returned ids htracked hbusy
    obtain ⟨hzero, hempty⟩ := hdone hnone
    refine ⟨hzero, hempty, fun i j xs hxs ↦ ?_, hback⟩
    obtain ⟨ys, hys, heq⟩ := hreturned i j xs hxs
    rw [hempty] at hys
    rw [← heq, hys.eq_nil, List.append_nil]

/-- Two entries of one layer are released through pool `1`, which then cleans up. -/
theorem foreign_entries_cached_returned :
    ∃ σ₀ σ, Mediator.initial wordLayout twoPools (fun i ↦ i) = some σ₀ ∧
      Run (PoolStep wordLayout false) σ₀ [.alloc 0 ⟨0, 0⟩, .alloc 0 ⟨2, 0⟩, .alloc 0 ⟨2, 16⟩,
        .release 1 ⟨2, 0⟩, .release 1 ⟨2, 16⟩, .period 1] σ ∧
      (σ.pools 1).caches 0 1 = ⟨some ⟨2, 16⟩, some ⟨2, 0⟩, 2⟩ ∧
      ∃ vs τ, Cleanup wordLayout false 1 σ vs τ ∧ τ.cleaning 1 = none ∧
        returnedTo vs 0 1 = [⟨2, 16⟩, ⟨2, 0⟩] ∧ ∀ i j, (τ.pools 1).caches i j = {} := by
  obtain ⟨σ₀, σ₁, σ₂, σ₃, σ₄, σ₅, σ, hinit, h₁, h₂, h₃, h₄, h₅, h, hbusy, hcache, hlink⟩ :
      ∃ σ₀ σ₁ σ₂ σ₃ σ₄ σ₅ σ, Mediator.initial wordLayout twoPools (fun i ↦ i) = some σ₀ ∧
        PoolStep wordLayout false σ₀ (.alloc 0 ⟨0, 0⟩) σ₁ ∧
        PoolStep wordLayout false σ₁ (.alloc 0 ⟨2, 0⟩) σ₂ ∧
        PoolStep wordLayout false σ₂ (.alloc 0 ⟨2, 16⟩) σ₃ ∧
        PoolStep wordLayout false σ₃ (.release 1 ⟨2, 0⟩) σ₄ ∧
        PoolStep wordLayout false σ₄ (.release 1 ⟨2, 16⟩) σ₅ ∧
        PoolStep wordLayout false σ₅ (.period 1) σ ∧ σ.cleaning 1 ≠ none ∧
        (σ.pools 1).caches 0 1 = ⟨some ⟨2, 16⟩, some ⟨2, 0⟩, 2⟩ ∧
        σ.mem.nextOf ⟨2, 16⟩ = some (some ⟨2, 0⟩) := by
    refine ⟨_, _, _, _, _, _, _, rfl,
      @PoolStep.of_myAlloc wordLayout false _ _ 0 none _ (Option.some_get (by decide)).symm
        (by decide) (by decide) (fun _ h ↦ by cases h),
      @PoolStep.of_myAlloc wordLayout false _ _ 0 (some 2) _ (Option.some_get (by decide)).symm
        (by decide) (by decide) (fun a ha i k ly hly heq ↦ ?_),
      @PoolStep.of_myAlloc wordLayout false _ _ 0 none _ (Option.some_get (by decide)).symm
        (by decide) (by decide) (fun _ h ↦ by cases h),
      @PoolStep.releaseForeign wordLayout false _ 1 _ _ _ _ (by decide) (Or.inr (Or.inl rfl))
        (by decide) (by decide) (Option.some_get (by decide)).symm (by decide)
        (Option.some_get (by decide)).symm,
      @PoolStep.releaseForeign wordLayout false _ 1 _ _ _ _ (by decide) ⟨by decide, Or.inl rfl⟩
        (by decide) (by decide) (Option.some_get (by decide)).symm (by decide)
        (Option.some_get (by decide)).symm,
      @PoolStep.period wordLayout false _ 1 (by decide) (by decide), by decide, by decide,
      by decide⟩
    cases ha
    rcases i with _ | _ | i <;> rcases k with _ | k <;> cases hly <;> cases heq
  have hrun := (((((Run.refl.snoc h₁).snoc h₂).snoc h₃).snoc h₄).snoc h₅).snoc h
  have hholds : CacheHolds σ.mem ((σ.pools 1).caches 0 1) [⟨2, 16⟩, ⟨2, 0⟩] := by
    rw [hcache]
    exact Or.inr ⟨[⟨2, 16⟩], ⟨2, 0⟩, rfl, ⟨rfl, _, hlink, rfl⟩, rfl, rfl⟩
  obtain ⟨-, -, -, -, hcleanup⟩ := foreign_entries_cached (by decide) (by decide) (by decide)
    (fun i _ i' _ h ↦ h) hinit hrun
  obtain ⟨⟨vs, τ, hends, hnone⟩, hall⟩ := hcleanup 1 hbusy
  obtain ⟨-, hempty, hreturned, -⟩ := hall vs τ hends hnone
  exact ⟨σ₀, σ, hinit, hrun, hcache, vs, τ, hends, hnone, hreturned 0 1 _ hholds, hempty⟩

end TYThread
