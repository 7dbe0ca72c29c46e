import TYThread.Pool.Ids

/-!
# Growing and shrinking

A pool grows when no entry is free, by a layer on top, and shrinks when the layer on top is free as
a whole. Its layers are then always those from `0` to `current_layer`, each of the size that belongs
to its number.

The sizes are computed as a `size_t` and kept in an `int`. They are exact as long as the highest
layer fits into an `int`, and a growth beyond that makes a layer of another size. A growth that
fails, because there is no memory, leaves the pool with the size of the layer that it has not got,
or with its number.
-/

namespace TYThread

variable {L : EntryLayout} {cfg : ObjectPoolConfig} {indexFirst : Bool} {arena : Option ℕ}
  {σ σ₀ σ' : Mediator} {place place' : Ptr → EntryPlace} {m m' : Mem} {p p' : ObjectPool}
  {ly : ObjectLayer} {i id k : ℕ} {ptr : Ptr} {l : PoolLabel}

/-- No layer of the pool has a free entry. -/
def ObjectPool.Full (p : ObjectPool) : Prop := ∀ k ly, p.layers k = some ly → ly.head = none

/-! ## Layers that are added -/

theorem ObjectLayer.new_cap {b sz : ℕ} (hnew : ObjectLayer.new L m b sz = some (m', ly)) :
    ly.arenaCap = sz := by
  obtain ⟨m₁, hnew₁, -⟩ := ObjectLayer.new_spec (L := L) m (b := b) (ObjectLayer.new_pos hnew)
  rw [hnew, Option.some.injEq, Prod.mk.injEq] at hnew₁
  rw [hnew₁.2]

theorem ObjectLayer.myAlloc_extent {ly' : ObjectLayer} {res : Option Ptr}
    (hrun : ly.myAlloc m = some (ly', res)) : ly'.extent = ly.extent := by
  rw [ObjectLayer.myAlloc] at hrun
  split at hrun
  · rw [Option.some.injEq, Prod.mk.injEq] at hrun
    rw [← hrun.1]
  · simp only [Option.bind_eq_bind, Option.bind_eq_some_iff, Option.pure_def, Option.some.injEq,
      Prod.mk.injEq] at hrun
    obtain ⟨_, -, rfl, -⟩ := hrun
    rfl

/-- `my_alloc` finds an entry, or adds a layer of the size that it has computed. -/
theorem myAlloc_cases (hrun : p.myAlloc L indexFirst arena m = some (m', p', some ptr)) :
    (p'.currentLayer = p.currentLayer ∧ ∃ k ly x,
        ObjectPool.scan m p.layers (p.currentLayer + 1) = some (some (k, ly, x))) ∨
      ObjectPool.scan m p.layers (p.currentLayer + 1) = some none ∧
        p'.currentLayer = p.currentLayer + 1 ∧
        (∃ b, grant L arena (sizeOfInt (enlarge p.currentSize p.config.enlargeRate)) = some b) ∧
        ∃ ly, p'.layers (p.currentLayer + 1) = some ly ∧
          ly.arenaCap = sizeOfInt (enlarge p.currentSize p.config.enlargeRate) := by
  cases hscan : ObjectPool.scan m p.layers (p.currentLayer + 1) with
  | none =>
    rw [ObjectPool.myAlloc, hscan] at hrun
    cases hrun
  | some found =>
    cases found with
    | none =>
      obtain ⟨p₁, hmyAlloc, -, -, -, hcl, hsize, -⟩ :=
        myAlloc_of_scan (L := L) indexFirst arena hscan
      rw [hmyAlloc] at hrun
      obtain ⟨-, b, m₁, ly₁, ly, hgrant, hnew, halloc, -, rfl⟩ := addLayer_inv hrun
      rw [hsize] at hgrant hnew
      refine Or.inr ⟨rfl, congrArg Nat.succ hcl, ⟨b, hgrant⟩, ly, ?_, ?_⟩
      · rw [← hcl]
        exact setLayer_layers_self ..
      · rw [← ObjectLayer.new_cap hnew]
        exact (Prod.mk.injEq .. ▸ ObjectLayer.myAlloc_extent halloc).2
    | some found =>
      obtain ⟨k, ly, x⟩ := found
      rw [ObjectPool.myAlloc, hscan] at hrun
      simp only [Option.bind_eq_bind, Option.bind_some, Option.bind_eq_some_iff, Option.pure_def,
        Option.some.injEq, Prod.mk.injEq] at hrun
      obtain ⟨_, -, -, rfl, -⟩ := hrun
      exact Or.inl ⟨rfl, k, ly, x, rfl⟩

theorem PoolsTracked.full {pools : ℕ → ObjectPool} (h : PoolsTracked L cfg m pools place)
    (hi : i < cfg.numOfThread)
    (hscan : ObjectPool.scan m (pools i).layers ((pools i).currentLayer + 1) = some none) :
    (pools i).Full := by
  rcases h.scan hi with ⟨-, hnone⟩ | ⟨k, ly, ly', x, -, -, -, hscan'⟩
  · intro k ly hly
    exact (h.core.head_eq_none_iff hly).mpr fun x hhas ↦ hnone k x ⟨ly, hly, hhas⟩
  · rw [hscan] at hscan'
    cases hscan'

theorem StepMove.currentLayer_le (h : StepMove L cfg l σ place σ' place')
    (hshapes : Shapes cfg σ.pools) (hne : ∀ id ptr, l ≠ .alloc id ptr) (hi : i < cfg.numOfThread) :
    (σ'.pools i).currentLayer ≤ (σ.pools i).currentLayer := by
  cases h.layers i with
  | rest hlayers hcl => exact Nat.le_of_eq hcl
  | taken hly hext hused hp =>
    rw [hp]
    exact Nat.le_refl _
  | @grown ly hcl hlayers =>
    obtain ⟨ly', hly', -⟩ := (h.shrunk hne).old i ((σ.pools i).currentLayer + 1) ly (by
      rw [hlayers, Function.update_self])
    exact absurd ((hshapes.shape i hi).le_of_layer hly') (Nat.not_succ_le_self _)
  | released hly hext hdrop => exact hdrop.le

/-- Where the layer that is added fits, the sizes fit after the step. -/
theorem Mediator.Ok.fitStep (h : σ.Ok L cfg place) (hcfg : cfg.Ok)
    (hstep : PoolStep L indexFirst σ l σ')
    (hroom : ∀ id ptr, l = .alloc id ptr → (σ.pools id).Full →
      (σ.pools id).config.layerSize ((σ.pools id).currentLayer + 1) < 2 ^ 31) :
    FitStep L indexFirst σ l σ' := by
  have htracked := h.tracked hcfg
  obtain ⟨place', hmove⟩ := htracked.step hcfg.ids hstep
  refine ⟨hstep, fun i hi ↦ ?_⟩
  rw [hmove.tracked.config i] at hi ⊢
  have hfits := (h.stack i hi).fits
  by_cases halloc : ∃ id ptr, l = .alloc id ptr
  · obtain ⟨id, ptr, rfl⟩ := halloc
    cases hstep with
    | @alloc _ a m p _ lt unused run =>
      change cfg.layerSize (Function.update σ.pools id p i).currentLayer < 2 ^ 31
      by_cases hid : i = id
      · subst hid
        rw [Function.update_self]
        rcases myAlloc_cases run with ⟨hcl, -⟩ | ⟨hscan, hcl, -⟩
        · rwa [hcl]
        · have hlarge := hroom i ptr rfl (htracked.toPoolsTracked.full hi hscan)
          rwa [hcl, ← h.config i]
      · rwa [Function.update_of_ne hid]
  · have hle := hmove.currentLayer_le htracked.toShapes (fun id ptr heq ↦ halloc ⟨id, ptr, heq⟩) hi
    exact Nat.lt_of_le_of_lt (cfg.layerSize_mono hcfg.rate hle) hfits

/-! ## The stack of layers -/

theorem Mediator.Ok.not_free_iff (h : σ.Ok L cfg place) (hentry : EntryOf L σ.pools i k ptr) :
    place ptr ≠ .free ↔ σ.At ptr .live ∨ ∃ q, σ.At ptr (.cached q i k) := by
  simp only [h.at_iff hentry]
  cases place ptr <;> simp [EntryPlace.location]

/-- **The stack of layers.** The layers of a pool are those from `0` to `current_layer`, the one on
top is in use unless it is layer `0`, and their sizes and `current_size` are the powers of the rate.
A step that allocates adds a layer if and only if no entry of the pool is free, and otherwise it
hands out a free entry, of which there is then always one to be had. Where none is free, and there
is room for a layer and memory for its arena, there is such a step, too. -/
theorem layers_stacked {arena : ℕ → ℕ} {ls : List PoolLabel} (ids : cfg.numOfThread ≤ 2 ^ 16)
    (size : 1 ≤ cfg.poolInitSize) (rate : 1 ≤ cfg.enlargeRate)
    (sizeFits : cfg.poolInitSize < 2 ^ 31)
    (arenas : ∀ i < cfg.numOfThread, ∀ i' < cfg.numOfThread, arena i = arena i' → i = i')
    (hinit : Mediator.initial L cfg arena = some σ₀)
    (hrun : Transition.Run (FitStep L indexFirst) σ₀ ls σ) :
    (∀ i < cfg.numOfThread,
      (∀ k, (∃ ly, (σ.pools i).layers k = some ly) ↔ k ≤ (σ.pools i).currentLayer) ∧
      ((σ.pools i).currentLayer = 0 ∨
        ∃ ly, (σ.pools i).layers (σ.pools i).currentLayer = some ly ∧ 0 < ly.used) ∧
      (∀ k ly, (σ.pools i).layers k = some ly →
        ly.arenaCap = cfg.poolInitSize * cfg.enlargeRate ^ k) ∧
      (σ.pools i).currentSize =
        (cfg.poolInitSize * cfg.enlargeRate ^ (σ.pools i).currentLayer : ℕ)) ∧
    (∀ id ptr σ', FitStep L indexFirst σ (.alloc id ptr) σ' →
      ((∃ k, (σ.pools id).layers k = none ∧ (σ'.pools id).layers k ≠ none) ↔
        ∀ k x, EntryOf L σ.pools id k x → σ.At x .live ∨ ∃ q, σ.At x (.cached q id k)) ∧
      ((∀ k, (σ'.pools id).layers k ≠ none → (σ.pools id).layers k ≠ none) →
        ∃ k, EntryOf L σ.pools id k ptr ∧ σ.At ptr (.free id k))) ∧
    ∀ id < cfg.numOfThread,
      ((∃ k x, EntryOf L σ.pools id k x ∧ ¬σ.At x .live ∧ ∀ q, ¬σ.At x (.cached q id k)) →
        ∃ ptr σ', FitStep L indexFirst σ (.alloc id ptr) σ') ∧
      ∀ b, (∀ k x, EntryOf L σ.pools id k x → σ.At x .live ∨ ∃ q, σ.At x (.cached q id k)) →
        (σ.pools id).currentLayer + 1 < ObjectPool.NLayers →
        cfg.poolInitSize * cfg.enlargeRate ^ ((σ.pools id).currentLayer + 1) < 2 ^ 31 →
        grant L (some b) (cfg.poolInitSize * cfg.enlargeRate ^ ((σ.pools id).currentLayer + 1)) =
          some b → σ.Unused b →
        ∃ ptr σ', FitStep L indexFirst σ (.alloc id ptr) σ' ∧
          (σ'.pools id).layers ((σ.pools id).currentLayer + 1) ≠ none := by
  have hcfg : cfg.Ok := ⟨ids, size, rate⟩
  obtain ⟨place, hok⟩ := reachable_ok hcfg sizeFits arenas hinit ⟨ls, hrun⟩
  refine ⟨fun i hi ↦ ?_, fun id ptr σ' hstep ↦ ?_, fun id hid ↦ ⟨fun hfree ↦ ?_,
    fun b hall hroom hfits hgrant hunused ↦ ?_⟩⟩
  · have hstack := hok.stack i hi
    exact ⟨fun k ↦ ⟨fun ⟨ly, hly⟩ ↦ hstack.le_of_layer hly, hstack.present k⟩, hok.top i hi,
      hstack.cap, hstack.size⟩
  · obtain ⟨hstep, hfits⟩ := hstep
    cases hstep with
    | @alloc _ a m p _ lt unused run =>
      have hid : id < cfg.numOfThread := by rwa [hok.config id] at lt
      have hpool :
          (Mediator.setPool { σ with mem := m, live := fun q ↦ q = ptr ∨ σ.live q } id p).pools
          id = p := Function.update_self ..
      rw [hpool]
      obtain ⟨place', hmove, -⟩ := (hok.tracked hcfg).toPoolsTracked.myAlloc hcfg.ids hid
        (fun b hb ↦ unused b hb) run
      cases hmove with
      | @taken k ly ly' hly hhas hplace hext hused hp =>
        -- An entry was free, and the layers stay.
        subst hp
        have hentry : EntryOf L σ.pools id k ptr := ⟨ly, hly, hhas⟩
        refine ⟨iff_of_false ?_ fun hall ↦ (hok.not_free_iff hentry).mpr (hall k ptr hentry) hplace,
          fun _ ↦ ⟨k, hentry, (hok.at_iff hentry _).mpr (by rw [hplace]; rfl)⟩⟩
        rintro ⟨k', hnone, hsome⟩
        by_cases hk : k' = k
        · rw [hk, hly] at hnone
          cases hnone
        · rw [setLayer_layers_of_ne _ hk] at hsome
          exact hsome hnone
      | grown hfull hunused harena hhas hused hcap hcl hsize hlayers =>
        -- None was, and there is a layer more.
        have habsent := (hok.stack id hid).absent _ (Nat.lt_succ_self _)
        have hnew : p.layers ((σ.pools id).currentLayer + 1) ≠ none := by
          rw [hlayers, Function.update_self]
          simp
        exact ⟨iff_of_true ⟨_, habsent, hnew⟩ fun k x hentry ↦
          (hok.not_free_iff hentry).mp (hfull k x hentry),
          fun hsame ↦ absurd habsent (hsame _ hnew)⟩
  · obtain ⟨k, x, hentry, hlive, hcached⟩ := hfree
    obtain ⟨ly₀, hly₀, hhas⟩ := hentry
    have hentry : EntryOf L σ.pools id k x := ⟨ly₀, hly₀, hhas⟩
    have hplace : place x = .free := by
      by_contra hne
      rcases (hok.not_free_iff hentry).mp hne with h | ⟨q, h⟩
      · exact hlive h
      · exact hcached q h
    obtain ⟨m', k', ly, ly', ptr, hrun', -, hly, -⟩ :=
      (hok.tracked hcfg).toPoolsTracked.myAlloc_free
      hcfg.ids hid ⟨k, x, hentry, hplace⟩ indexFirst none
    have hstep : PoolStep L indexFirst σ (.alloc id ptr) _ :=
      .alloc (by rwa [hok.config id]) (fun _ h ↦ by cases h) hrun'
    -- The layers stay, so there is no question of their sizes.
    refine ⟨ptr, _, hok.fitStep hcfg hstep fun id' ptr' heq hfull ↦ ?_⟩
    rw [PoolLabel.alloc.injEq] at heq
    rw [← heq.1] at hfull
    exact absurd hplace ((hok.core.head_eq_none_iff hly₀).mp (hfull k _ hly₀) x hhas)
  · have hplace : ∀ k x, EntryOf L σ.pools id k x → place x ≠ .free := fun k x hentry ↦
      (hok.not_free_iff hentry).mpr (hall k x hentry)
    have htracked := hok.tracked hcfg
    have hsize : sizeOfInt (enlarge (σ.pools id).currentSize (σ.pools id).config.enlargeRate) =
        cfg.layerSize ((σ.pools id).currentLayer + 1) := by
      rw [(hok.stack id hid).enlarge hfits]
      exact sizeOfInt_natCast hfits
    obtain ⟨m', p', ptr, hrun'⟩ := htracked.toPoolsTracked.myAlloc_grows hcfg.ids hid hplace hroom
      hunused (by rw [hsize]; exact Nat.mul_pos size (Nat.pow_pos rate))
      (by rw [hsize]; exact hgrant)
      indexFirst
    have hstep : PoolStep L indexFirst σ (.alloc id ptr) _ :=
      .alloc (by rwa [hok.config id]) (fun a ha ↦ by cases ha; exact hunused) hrun'
    obtain ⟨_, hmove, -⟩ := htracked.toPoolsTracked.myAlloc_full hcfg.ids hid hplace
      (fun a ha ↦ by cases ha; exact hunused) hrun'
    refine ⟨ptr, _, hok.fitStep hcfg hstep fun id' ptr' heq _ ↦ ?_, ?_⟩
    · rw [PoolLabel.alloc.injEq] at heq
      rw [← heq.1, hok.config]
      exact hfits
    · change (Function.update σ.pools id p' id).layers _ ≠ none
      rw [Function.update_self]
      cases hmove with
      | taken hly hhas hfree => exact absurd hfree (hplace _ _ ⟨_, hly, hhas⟩)
      | grown hfull hunused' harena hhas hused hcap hcl hsize' hlayers =>
        rw [hlayers, Function.update_self]
        simp

/-- A pool of one entry hands it out, and then grows by a layer of two. -/
theorem grown_pool :
    ∃ σ₀ σ₁ σ, Mediator.initial wordLayout twoPools (fun i ↦ i) = some σ₀ ∧
      PoolStep wordLayout false σ₀ (.alloc 0 ⟨0, 0⟩) σ₁ ∧
      PoolStep wordLayout false σ₁ (.alloc 0 ⟨2, 0⟩) σ ∧ σ₁.SizesFit ∧ σ.SizesFit ∧ σ₁.Unused 2 ∧
      (∀ τ ∈ [σ₀, σ₁], (τ.pools 0).config = twoPools ∧ (τ.pools 0).currentLayer = 0) ∧
      (∀ k ly, (σ₁.pools 0).layers k = some ly → ly.extent = (0, 1)) ∧ σ₁.live ⟨0, 0⟩ ∧
      (σ.pools 0).currentLayer = 1 := by
  refine ⟨_, _, _, rfl,
    @PoolStep.of_myAlloc wordLayout false _ _ 0 none _ (Option.some_get (by decide)).symm
      (by decide) (by decide) (fun _ h ↦ by cases h),
    @PoolStep.of_myAlloc wordLayout false _ _ 0 (some 2) _ (Option.some_get (by decide)).symm
      (by decide) (by decide) (fun a ha i k ly hly heq ↦ ?_),
    .of_two (by decide) (by decide) fun _ ↦ rfl, .of_two (by decide) (by decide) fun _ ↦ rfl,
    fun i k ly hly heq ↦ ?_, fun τ hτ ↦ ?_, fun k ly hly ↦ ?_, Or.inl rfl, by decide⟩
  · cases ha
    rcases i with _ | _ | i <;> rcases k with _ | k <;> cases hly <;> cases heq
  · rcases i with _ | _ | i <;> rcases k with _ | k <;> cases hly <;> cases heq
  · rcases List.mem_pair.mp hτ with rfl | rfl <;> exact ⟨rfl, rfl⟩
  · rcases k with _ | k <;> cases hly
    rfl
/-- The layers of the pool that has grown. -/
theorem layers_stacked_grown :
    ∃ σ₀ σ₁ σ, Mediator.initial wordLayout twoPools (fun i ↦ i) = some σ₀ ∧
      Transition.Run (FitStep wordLayout false) σ₀ [.alloc 0 ⟨0, 0⟩] σ₁ ∧
      FitStep wordLayout false σ₁ (.alloc 0 ⟨2, 0⟩) σ ∧ (σ.pools 0).currentLayer = 1 ∧
      (∀ i < 2, ∀ k ly, (σ.pools i).layers k = some ly → ly.arenaCap = 1 * 2 ^ k) ∧
      ∃ ptr σ', FitStep wordLayout false σ₁ (.alloc 0 ptr) σ' ∧ (σ'.pools 0).layers 1 ≠ none := by
  obtain ⟨σ₀, σ₁, σ, hinit, hfirst, hsecond, hfits₁, hfits, hunused, hpools, hextent, hlive,
      hlayer⟩ :=
    grown_pool
  have hstart : Transition.Run (FitStep wordLayout false) σ₀ [] σ₀ := .refl
  have hrun₁ := hstart.snoc ⟨hfirst, hfits₁⟩
  have hrun := hrun₁.snoc ⟨hsecond, hfits⟩
  have hcl : (σ₁.pools 0).currentLayer = 0 := (hpools σ₁ (by simp)).2
  -- The only entry of pool `0` is live.
  have hall : ∀ k x, EntryOf wordLayout σ₁.pools 0 k x → σ₁.At x .live := by
    rintro k x ⟨ly, hly, y, hy, rfl⟩
    have hext := hextent k ly hly
    rw [ObjectLayer.extent, Prod.mk.injEq] at hext
    rw [hext.2] at hy
    obtain rfl : y = 0 := by omega
    rw [hext.1]
    exact hlive
  have hgrows := ((layers_stacked (by decide) (by decide) (by decide) (by decide)
    (fun i _ i' _ h ↦ h) hinit hrun₁).2.2 0 (by decide)).2 2 (fun k x h ↦ Or.inl (hall k x h))
    (by rw [hcl]; decide) (by rw [hcl]; decide) (by rw [hcl]; decide) hunused
  rw [hcl] at hgrows
  exact ⟨σ₀, σ₁, σ, hinit, hrun₁, ⟨hsecond, hfits⟩, hlayer, fun i hi ↦ ((layers_stacked (by decide)
    (by decide) (by decide) (by decide) (fun i _ i' _ h ↦ h) hinit hrun).1 i hi).2.2.1, hgrows⟩

/-- After a growth that has failed, the layers and `current_size` do not fit together any more. And
where there are more pools than an entry can tell apart, pool `0` hands out an entry that is in none
of its layers. -/
theorem layers_stacked_needs_memory_and_ids :
    (∀ indexFirst, ∃ σ₀ σ, Mediator.initial wordLayout twoPools (fun i ↦ i) = some σ₀ ∧
      Transition.Run (ThrowingStep wordLayout indexFirst) σ₀ [some (.alloc 0 ⟨0, 0⟩), none] σ ∧
      σ.SizesFit ∧ ¬((∀ k, (∃ ly, (σ.pools 0).layers k = some ly) ↔ k ≤ (σ.pools 0).currentLayer) ∧
        (σ.pools 0).currentSize = (1 * 2 ^ (σ.pools 0).currentLayer : ℕ))) ∧
    ∃ σ₀ σ σ' ptr, Mediator.initial wordLayout manyPools (fun i ↦ i) = some σ₀ ∧
      Transition.Run (FitStep wordLayout false) σ₀ [.alloc (2 ^ 16) ptr, .release (2 ^ 16) ptr,
        .period (2 ^ 16), .other] σ ∧ FitStep wordLayout false σ (.alloc 0 ptr) σ' ∧
      (∀ k, (σ'.pools 0).layers k ≠ none → (σ.pools 0).layers k ≠ none) ∧
      ∀ k, ¬EntryOf wordLayout σ.pools 0 k ptr := by
  constructor
  · intro indexFirst
    obtain ⟨σ₀, σ₁, σ, hinit, halloc, hthrow, hrest⟩ : ∃ σ₀ σ₁ σ,
        Mediator.initial wordLayout twoPools (fun i ↦ i) = some σ₀ ∧
        PoolStep wordLayout indexFirst σ₀ (.alloc 0 ⟨0, 0⟩) σ₁ ∧
        ThrowingStep wordLayout indexFirst σ₁ none σ ∧ σ.SizesFit ∧
        ¬((∀ k, (∃ ly, (σ.pools 0).layers k = some ly) ↔ k ≤ (σ.pools 0).currentLayer) ∧
          (σ.pools 0).currentSize = (1 * 2 ^ (σ.pools 0).currentLayer : ℕ)) := by
      cases indexFirst with
      | false =>
        exact ⟨_, _, _, rfl, @PoolStep.of_myAlloc wordLayout false _ _ 0 none _
          (Option.some_get (by decide)).symm (by decide) (by decide) (fun _ h ↦ by cases h),
          @ThrowingStep.of_myAlloc wordLayout false _ 0 none _ (Option.some_get (by decide)).symm
            (by decide) (by decide),
          .of_two (by decide) (by decide) fun _ ↦ rfl, fun h ↦ absurd h.2 (by decide)⟩
      | true =>
        refine ⟨_, _, _, rfl, @PoolStep.of_myAlloc wordLayout true _ _ 0 none _
          (Option.some_get (by decide)).symm (by decide) (by decide) (fun _ h ↦ by cases h),
          @ThrowingStep.of_myAlloc wordLayout true _ 0 none _ (Option.some_get (by decide)).symm
            (by decide) (by decide),
          .of_two (by decide) (by decide) fun _ ↦ rfl, fun h ↦ ?_⟩
        -- There is no layer `1`.
        obtain ⟨ly, hly⟩ := (h.1 1).mpr (by decide)
        cases hly
    exact ⟨σ₀, σ, hinit, (Transition.Run.refl.snoc (.step halloc)).snoc hthrow, hrest⟩
  · obtain ⟨σ₀, σ₁, σ₂, ptr, hinit, halloc, -, hrelease, hmisfiled⟩ := own_entry_misfiled wordLayout
      manyPools false (fun i ↦ i) (by decide) (by decide) (by decide) (by decide) fun i _ i' _ h ↦ h
    obtain ⟨σ₃, σ₄, hperiod, hback, hpools, hgiven⟩ :=
      hmisfiled.givenAway false (by decide) (by decide)
    obtain ⟨σ', halloc', hfits', hsame⟩ := hgiven.alloc false (by decide) (by decide)
    have hfits : σ₃.SizesFit := by
      rw [Mediator.SizesFit, hpools]
      exact hmisfiled.sizesFit (by decide)
    refine ⟨σ₀, σ₄, σ', ptr, hinit, ?_, ⟨halloc', hfits'⟩, hsame, hgiven.strange⟩
    exact (((Transition.Run.refl.snoc halloc).snoc hrelease).snoc ⟨hperiod, hfits⟩).snoc
      ⟨hback, hgiven.sizesFit (by decide)⟩

/-! ## A growth that fails -/

theorem sizeOfInt_cast (size : ℤ) : ((sizeOfInt size : ℕ) : ℤ) = size % sizeRange :=
  Int.toNat_of_nonneg (Int.emod_nonneg _ (by rw [sizeRange]; omega))

theorem dvd_sizeOfInt_mul (size : ℤ) (rate : ℕ) :
    (2 ^ 32 : ℤ) ∣ ((sizeOfInt size * rate % sizeRange : ℕ) : ℤ) - size * rate := by
  have hdvd : (2 ^ 32 : ℤ) ∣ sizeRange := by
    rw [sizeRange]
    omega
  refine Int.dvd_trans hdvd ?_
  rw [Int.natCast_emod, Int.natCast_mul, sizeOfInt_cast, Int.mul_emod,
    Int.emod_emod_of_dvd _ (Int.dvd_refl _), ← Int.mul_emod]
  exact Int.dvd_emod_sub_self

/-- The multiplication changes nothing when what it adds is a multiple of `2 ^ 32`. -/
theorem enlarge_eq_self_iff {size : ℤ} {rate : ℕ} (hlow : -2 ^ 31 ≤ size) (hhigh : size < 2 ^ 31) :
    enlarge size rate = size ↔ (2 ^ 32 : ℤ) ∣ size * (rate - 1) := by
  have hnarrow := dvd_sizeOfInt_mul size rate
  have hbmod : ∀ y : ℕ, intOfSize y = size ↔
      -((2 ^ 32 : ℕ) / 2) ≤ size ∧ size < ((2 ^ 32 : ℕ) + 1) / 2 ∧ ((2 ^ 32 : ℕ) : ℤ) ∣ size - y :=
    fun y ↦ Int.bmod_eq_iff (by decide)
  rw [Int.mul_sub, Int.mul_one]
  refine (hbmod _).trans ?_
  omega

/-- While the sizes fit, only the rate `1` changes nothing. -/
theorem dvd_enlarge_iff {size : ℤ} {rate : ℕ} (hpos : 0 < size) (hfits : size * rate < 2 ^ 31)
    (hhigh : size < 2 ^ 31) : (2 ^ 32 : ℤ) ∣ size * (rate - 1) ↔ rate = 1 := by
  have hnonneg : 0 ≤ size * (rate : ℤ) := Int.mul_nonneg (by omega) (by omega)
  constructor
  · intro hdvd
    rw [Int.mul_sub, Int.mul_one] at hdvd
    have hsame : size * (rate : ℤ) = size * 1 := by omega
    exact Int.natCast_inj.mp (Int.eq_of_mul_eq_mul_left (by omega) hsame)
  · rintro rfl
    simp
/-- `my_alloc` throws, and the pool and the memory are as they were before the call. -/
def ObjectPool.KeptByFailure (L : EntryLayout) (p : ObjectPool) (indexFirst : Bool)
    (arena : Option ℕ) (m : Mem) : Prop :=
  p.myAlloc L indexFirst arena m = some (m, p, none)

/-- **A growth that fails.** No entry is free, and the construction of the new layer throws. The
pool is as it was before if and only if the layer is made before `layers[++current_layer]` is
evaluated, and what the multiplication adds to `current_size` is a multiple of `2 ^ 32`. While the
sizes fit into an `int`, that is so for no rate but `1`. -/
theorem failed_growth_iff (indexFirst : Bool) (arena : Option ℕ) (m : Mem) (p : ObjectPool)
    (hscan : ObjectPool.scan m p.layers (p.currentLayer + 1) = some none)
    (hint : -2 ^ 31 ≤ p.currentSize ∧ p.currentSize < 2 ^ 31)
    (hthrow : grant L arena (sizeOfInt (enlarge p.currentSize p.config.enlargeRate)) = none) :
    (p.KeptByFailure L indexFirst arena m ↔
      indexFirst = false ∧ (2 ^ 32 : ℤ) ∣ p.currentSize * (p.config.enlargeRate - 1)) ∧
    (0 < p.currentSize → p.currentSize * p.config.enlargeRate < 2 ^ 31 →
      (p.KeptByFailure L indexFirst arena m ↔ indexFirst = false ∧ p.config.enlargeRate = 1)) := by
  obtain ⟨p₁, hmyAlloc, hid, hconfig, hlayers, hcl, hsize, hcaches, htotal⟩ :=
    myAlloc_of_scan (L := L) indexFirst arena hscan
  rw [← hsize] at hthrow
  have hkept : p.KeptByFailure L indexFirst arena m ↔
      indexFirst = false ∧ enlarge p.currentSize p.config.enlargeRate = p.currentSize := by
    rw [ObjectPool.KeptByFailure, hmyAlloc, addLayer_of_throw hthrow, ← hsize]
    cases indexFirst with
    | true =>
      refine iff_of_false (fun heq ↦ ?_) (by simp)
      rw [if_pos rfl] at heq
      split at heq
      · have hnext : p₁.currentLayer + 1 = p.currentLayer :=
          congrArg ObjectPool.currentLayer (Prod.mk.inj (Prod.mk.inj (Option.some.inj heq)).2).1
        omega
      · cases heq
    | false =>
      rw [if_neg (by simp)]
      constructor
      · intro heq
        rw [Option.some.injEq, Prod.mk.injEq, Prod.mk.injEq] at heq
        exact ⟨rfl, by rw [heq.2.1]⟩
      · rintro ⟨-, hsame⟩
        obtain rfl : p₁ = p := by
          cases p₁
          cases p
          simp_all only
        rfl
  constructor
  · rw [hkept, enlarge_eq_self_iff hint.1 hint.2]
  · intro hpos hfits
    rw [hkept, enlarge_eq_self_iff hint.1 hint.2, dvd_enlarge_iff hpos hfits hint.2]

/-- One pool of one entry, whose layers all have the same size. -/
def evenPool : ObjectPoolConfig where
  numOfThread := 1
  poolInitSize := 1
  enlargeRate := 1

/-- A pool whose layers all have the same size survives a failure, when the layer is made first. -/
theorem failed_growth_iff_rate_one :
    ∃ σ₀ σ, Mediator.initial wordLayout evenPool (fun i ↦ i) = some σ₀ ∧
      Transition.Run (PoolStep wordLayout false) σ₀ [.alloc 0 ⟨0, 0⟩] σ ∧
      (σ.pools 0).KeptByFailure wordLayout false none σ.mem := by
  obtain ⟨σ₀, σ, hinit, hstep, hscan, hsize, hrate⟩ :
      ∃ σ₀ σ, Mediator.initial wordLayout evenPool (fun i ↦ i) = some σ₀ ∧
        PoolStep wordLayout false σ₀ (.alloc 0 ⟨0, 0⟩) σ ∧
        ObjectPool.scan σ.mem (σ.pools 0).layers ((σ.pools 0).currentLayer + 1) = some none ∧
        (σ.pools 0).currentSize = 1 ∧ (σ.pools 0).config.enlargeRate = 1 :=
    ⟨_, _, rfl, @PoolStep.alloc wordLayout false _ 0 none _ _ _ (by decide)
      (fun _ h ↦ by cases h) rfl, by rfl, by decide, by decide⟩
  refine ⟨σ₀, σ, hinit, Transition.Run.refl.snoc hstep, ?_⟩
  exact ((failed_growth_iff false none _ _ hscan (by rw [hsize]; decide) (ite_self _)).2
    (by rw [hsize]; decide) (by rw [hsize, hrate]; decide)).mpr ⟨rfl, hrate⟩

/-- A pool whose only entry is in use runs out of memory when it grows. Whichever is evaluated
first, it is not as it was before. -/
theorem failed_growth_changes_pool :
    ∃ σ₀ σ, Mediator.initial wordLayout twoPools (fun i ↦ i) = some σ₀ ∧
      Transition.Run (FitStep wordLayout false) σ₀ [.alloc 0 ⟨0, 0⟩] σ ∧
      Transition.Run (FitStep wordLayout true) σ₀ [.alloc 0 ⟨0, 0⟩] σ ∧
      ObjectPool.scan σ.mem (σ.pools 0).layers ((σ.pools 0).currentLayer + 1) = some none ∧
      ¬(σ.pools 0).KeptByFailure wordLayout false none σ.mem ∧
      ¬(σ.pools 0).KeptByFailure wordLayout true none σ.mem := by
  obtain ⟨σ₀, σ, hinit, hfalse, htrue, hfits, hscan, hsize, hlayer⟩ :
      ∃ σ₀ σ, Mediator.initial wordLayout twoPools (fun i ↦ i) = some σ₀ ∧
        PoolStep wordLayout false σ₀ (.alloc 0 ⟨0, 0⟩) σ ∧
        PoolStep wordLayout true σ₀ (.alloc 0 ⟨0, 0⟩) σ ∧ σ.SizesFit ∧
        ObjectPool.scan σ.mem (σ.pools 0).layers ((σ.pools 0).currentLayer + 1) = some none ∧
        ((σ.pools 0).myAlloc wordLayout false none σ.mem).map (fun x ↦ x.2.1.currentSize) =
          some ((σ.pools 0).currentSize + 1) ∧
        ((σ.pools 0).myAlloc wordLayout true none σ.mem).map (fun x ↦ x.2.1.currentLayer) =
          some ((σ.pools 0).currentLayer + 1) := by
    refine ⟨_, _, rfl,
      @PoolStep.alloc wordLayout false _ 0 none _ _ _ (by decide) (fun _ h ↦ by cases h) rfl,
      @PoolStep.alloc wordLayout true _ 0 none _ _ _ (by decide) (fun _ h ↦ by cases h) rfl,
      fun i hi ↦ ?_, by rfl, by decide, by rfl⟩
    rcases i with _ | _ | i
    · decide
    · decide
    · have hlt : i + 2 < 2 := hi
      omega
  have hstep : FitStep wordLayout false σ₀ (.alloc 0 ⟨0, 0⟩) σ := ⟨hfalse, hfits⟩
  have hstep' : FitStep wordLayout true σ₀ (.alloc 0 ⟨0, 0⟩) σ := ⟨htrue, hfits⟩
  refine ⟨σ₀, σ, hinit, Transition.Run.refl.snoc hstep, Transition.Run.refl.snoc hstep', hscan,
    ?_, ?_⟩
  · intro hkept
    rw [ObjectPool.KeptByFailure] at hkept
    rw [hkept, Option.map_some] at hsize
    have heq : (σ.pools 0).currentSize = (σ.pools 0).currentSize + 1 := Option.some.inj hsize
    omega
  · intro hkept
    rw [ObjectPool.KeptByFailure] at hkept
    rw [hkept, Option.map_some] at hlayer
    have heq : (σ.pools 0).currentLayer = (σ.pools 0).currentLayer + 1 := Option.some.inj hlayer
    omega

/-! ## The sizes of the layers -/

/-- A step in which no allocation throws, and no layer is added whose size does not fit into an
`int`. -/
def RoomStep (L : EntryLayout) (indexFirst : Bool) (σ : Mediator) (l : Option PoolLabel)
    (σ' : Mediator) : Prop :=
  ThrowingStep L indexFirst σ l σ' ∧ l ≠ none ∧ ∀ id ptr, l = some (.alloc id ptr) →
    (σ.pools id).Full → (σ.pools id).config.layerSize ((σ.pools id).currentLayer + 1) < 2 ^ 31

/-- A size that has been narrowed is small, or so large that it cannot be allocated. -/
theorem sizeOfInt_intOfSize_lt {c : ℕ} (hlt : sizeOfInt (intOfSize c) < 2 ^ 63) :
    sizeOfInt (intOfSize c) < 2 ^ 31 := by
  have hlow : -2 ^ 31 ≤ intOfSize c := Int.le_bmod (by decide)
  have hhigh : intOfSize c < 2 ^ 31 := Int.bmod_lt (by decide)
  rw [sizeOfInt, sizeRange] at hlt ⊢
  omega

/-- **The sizes of the layers** are exact, and division gives the size of the layer below back, in
every run in which no allocation throws and no layer is added that is too large for an `int`. The
next layer that is added has its exact size if and only if that fits, too. -/
theorem growth_exact {arena : ℕ → ℕ} {ls : List (Option PoolLabel)} (ids : cfg.numOfThread ≤ 2 ^ 16)
    (size : 1 ≤ cfg.poolInitSize) (rate : 1 ≤ cfg.enlargeRate)
    (sizeFits : cfg.poolInitSize < 2 ^ 31)
    (arenas : ∀ i < cfg.numOfThread, ∀ i' < cfg.numOfThread, arena i = arena i' → i = i')
    (hinit : Mediator.initial L cfg arena = some σ₀)
    (hrun : Transition.Run (RoomStep L indexFirst) σ₀ ls σ) :
    (∀ i < cfg.numOfThread,
      (∀ k ly, (σ.pools i).layers k = some ly →
        ly.arenaCap = cfg.poolInitSize * cfg.enlargeRate ^ k) ∧
      (σ.pools i).currentSize =
        (cfg.poolInitSize * cfg.enlargeRate ^ (σ.pools i).currentLayer : ℕ) ∧
      ∀ c, (σ.pools i).currentLayer = c + 1 →
        shrink (σ.pools i).currentSize cfg.enlargeRate =
        (cfg.poolInitSize * cfg.enlargeRate ^ c : ℕ)) ∧
    ∀ id ptr σ', PoolStep L indexFirst σ (.alloc id ptr) σ' →
      (σ'.pools id).currentLayer = (σ.pools id).currentLayer + 1 →
      ((∃ ly, (σ'.pools id).layers ((σ.pools id).currentLayer + 1) = some ly ∧
          ly.arenaCap = cfg.poolInitSize * cfg.enlargeRate ^ ((σ.pools id).currentLayer + 1)) ↔
        cfg.poolInitSize * cfg.enlargeRate ^ ((σ.pools id).currentLayer + 1) < 2 ^ 31) := by
  have hcfg : cfg.Ok := ⟨ids, size, rate⟩
  obtain ⟨place, hok⟩ : ∃ place, σ.Ok L cfg place := by
    refine hrun.invariant (I := fun σ ↦ ∃ place, σ.Ok L cfg place) ?_ fun τ l υ hτ hstep ↦ ?_
    · exact reachable_ok hcfg sizeFits arenas hinit (.refl (FitStep L indexFirst) σ₀)
    · obtain ⟨place, hok⟩ := hτ
      obtain ⟨hstep, hreturns, hroom⟩ := hstep
      cases hstep with
      | throws => exact absurd rfl hreturns
      | step hstep =>
        obtain ⟨place', hok', -⟩ := hok.step hcfg (hok.fitStep hcfg hstep fun id ptr heq ↦
          hroom id ptr (congrArg some heq))
        exact ⟨place', hok'⟩
  refine ⟨fun i hi ↦ ?_, fun id ptr σ' hstep hgrown ↦ ?_⟩
  · have hstack := hok.stack i hi
    refine ⟨hstack.cap, hstack.size, fun c hc ↦ ?_⟩
    have hfits := hstack.fits
    rw [hc, cfg.layerSize_succ] at hfits
    rw [hstack.size, hc, cfg.layerSize_succ, shrink_exact rate hfits]
    rfl
  · cases hstep with
    | @alloc _ a m p _ lt unused run =>
      have hpool :
          (Mediator.setPool { σ with mem := m, live := fun q ↦ q = ptr ∨ σ.live q } id p).pools
          id = p := Function.update_self ..
      rw [hpool] at hgrown ⊢
      rw [hok.config id] at lt
      have hstack := hok.stack id lt
      rcases myAlloc_cases run with ⟨hcl, -⟩ | ⟨-, -, ⟨b, hgrant⟩, ly, hly, hcap⟩
      · rw [hgrown] at hcl
        exact absurd hcl (Nat.succ_ne_self _)
      · constructor
        · rintro ⟨ly', hly', hexact⟩
          rw [hly, Option.some.injEq] at hly'
          rw [← hexact, ← hly', hcap]
          refine sizeOfInt_intOfSize_lt ?_
          -- The array has been allocated, so it is not larger than any object can be.
          have hsmall := lt_of_grant hgrant
          exact Nat.lt_of_le_of_lt (Nat.le_mul_of_pos_right _ L.size_pos) hsmall
        · intro hfits
          refine ⟨ly, hly, ?_⟩
          rw [hcap, hstack.enlarge hfits]
          exact sizeOfInt_natCast hfits

/-- The size of the pool that has grown. -/
theorem growth_exact_grown :
    ∃ σ₀ σ, Mediator.initial wordLayout twoPools (fun i ↦ i) = some σ₀ ∧
      Transition.Run (RoomStep wordLayout false) σ₀
        [some (.alloc 0 ⟨0, 0⟩), some (.alloc 0 ⟨2, 0⟩)] σ ∧
      (σ.pools 0).currentSize = (1 * 2 ^ 1 : ℕ) := by
  obtain ⟨σ₀, σ₁, σ, hinit, hfirst, hsecond, -, -, -, hpools, -, -, hlayer⟩ := grown_pool
  have hroom : ∀ τ ∈ [σ₀, σ₁], ∀ {a id ptr}, PoolLabel.alloc 0 a = .alloc id ptr →
      (τ.pools id).config.layerSize ((τ.pools id).currentLayer + 1) < 2 ^ 31 := by
    intro τ hτ a id ptr heq
    obtain ⟨hconfig, hcl⟩ := hpools τ hτ
    rw [PoolLabel.alloc.injEq] at heq
    rw [← heq.1, hconfig, hcl]
    decide
  have hstep : RoomStep wordLayout false σ₀ (some (.alloc 0 ⟨0, 0⟩)) σ₁ :=
    ⟨.step hfirst, by simp, fun id ptr heq _ ↦ hroom σ₀ (by simp) (Option.some.inj heq)⟩
  have hstep' : RoomStep wordLayout false σ₁ (some (.alloc 0 ⟨2, 0⟩)) σ :=
    ⟨.step hsecond, by simp, fun id ptr heq _ ↦ hroom σ₁ (by simp) (Option.some.inj heq)⟩
  have hrun := (Transition.Run.refl.snoc hstep).snoc hstep'
  refine ⟨σ₀, σ, hinit, hrun, ?_⟩
  rw [((growth_exact (by decide) (by decide) (by decide) (by decide)
    (fun i _ i' _ h ↦ h) hinit hrun).1 0 (by decide)).2.1, hlayer]
  rfl

/-- One pool with a rate that does not fit into 32 bits. -/
def wideRate : ObjectPoolConfig where
  numOfThread := 1
  poolInitSize := 1
  enlargeRate := 2 ^ 32 + 3

/-- The first layer that is added has three entries, and shrinking does not lead back to one. -/
theorem added_layer_too_small :
    ∃ σ₀ σ ly, Mediator.initial wordLayout wideRate (fun i ↦ i) = some σ₀ ∧
      Transition.Run (PoolStep wordLayout false) σ₀ [.alloc 0 ⟨0, 0⟩, .alloc 0 ⟨1, 0⟩] σ ∧
      (σ.pools 0).layers 1 = some ly ∧ ly.arenaCap ≠ 1 * (2 ^ 32 + 3) ^ 1 ∧
      shrink (σ.pools 0).currentSize (2 ^ 32 + 3) ≠ (1 * (2 ^ 32 + 3) ^ 0 : ℕ) := by
  obtain ⟨σ₀, σ₁, hinit, hfirst, hlt, hunused, hgrow⟩ :
      ∃ σ₀ σ₁, Mediator.initial wordLayout wideRate (fun i ↦ i) = some σ₀ ∧
        PoolStep wordLayout false σ₀ (.alloc 0 ⟨0, 0⟩) σ₁ ∧
        0 < (σ₁.pools 0).config.numOfThread ∧ σ₁.Unused 1 ∧
        ((σ₁.pools 0).myAlloc wordLayout false (some 1) σ₁.mem).map
          (fun x ↦ (x.2.2, (x.2.1.layers 1).map ObjectLayer.arenaCap, x.2.1.currentSize)) =
            some (some ⟨1, 0⟩, some 3, 3) := by
    refine ⟨_, _, rfl,
      @PoolStep.alloc wordLayout false _ 0 none _ _ _ (by decide) (fun _ h ↦ by cases h) rfl,
      by decide, fun i k ly hly heq ↦ ?_, by decide⟩
    rcases i with _ | i <;> rcases k with _ | k <;> cases hly
    cases heq
  obtain ⟨⟨m, p, res⟩, hrun, hres⟩ := Option.map_eq_some_iff.mp hgrow
  rw [Prod.mk.injEq, Prod.mk.injEq, Option.map_eq_some_iff] at hres
  obtain ⟨rfl, ⟨ly, hly, hcap⟩, hsize⟩ := hres
  have hsecond : PoolStep wordLayout false σ₁ (.alloc 0 ⟨1, 0⟩) _ :=
    .alloc hlt (fun a ha ↦ by cases ha; exact hunused) hrun
  refine ⟨σ₀, _, ly, hinit, (Transition.Run.refl.snoc hfirst).snoc hsecond, ?_, ?_, ?_⟩
  · change (Function.update σ₁.pools 0 p 0).layers 1 = some ly
    rw [Function.update_self, hly]
  · rw [hcap]
    decide
  · change shrink (Function.update σ₁.pools 0 p 0).currentSize _ ≠ _
    rw [Function.update_self, hsize]
    decide

end TYThread
