import TYThread.Pool.Caches

/-!
# Entries that carry the number of another pool

An entry has sixteen bits for the number of its pool, so the entries of pool `2 ^ 16` carry the
number `0`. When such an entry is released through its own pool, it is taken for an entry of pool
`0`. It is put into a cache, and the cleanup gives it to pool `0`, which hands it out as one of its
own. Its own pool never gets it back.
-/

namespace TYThread

open LinkedList Transition

/-- Only layer `0` of pool `id` is in use, and its entry `ptr` is not where it belongs. -/
structure Mediator.Astray (L : EntryLayout) (cfg : ObjectPoolConfig) (σ : Mediator) (id : ℕ)
    (ptr : Ptr) : Prop where
  config : ∀ q, (σ.pools q).config = cfg
  currentLayer : ∀ q, (σ.pools q).currentLayer = 0
  live : ∀ x, ¬σ.live x
  returning : ∀ x, σ.returning x = none
  read : ∃ e, σ.mem ptr = some e
  owner : ∃ ly, (σ.pools id).layers 0 = some ly ∧ ly.Has L ptr ∧ ly.used = 1
  strange : ∀ k, ¬EntryOf L σ.pools 0 k ptr

/-- Pool `id` has cached its own entry `ptr` for pool `0`. -/
structure Mediator.Misfiled (L : EntryLayout) (cfg : ObjectPoolConfig) (σ : Mediator) (id : ℕ)
    (ptr : Ptr) : Prop extends σ.Astray L cfg id ptr where
  cleaning : ∀ q, σ.cleaning q = none
  cached : (σ.pools id).caches 0 0 = ⟨some ptr, some ptr, 1⟩
  caches : ∀ q i j, ¬(q = id ∧ i = 0 ∧ j = 0) → (σ.pools q).caches i j = {}
  total : ∀ q, (σ.pools q).totalCached = if q = id then 1 else 0
  layer : ∃ ly, (σ.pools 0).layers 0 = some ly

/-- The entry has been given to pool `0`, and pool `id` goes on with its cleanup. -/
structure Mediator.GivenAway (L : EntryLayout) (cfg : ObjectPoolConfig) (σ : Mediator) (id : ℕ)
    (ptr : Ptr) : Prop extends σ.Astray L cfg id ptr where
  cleaning : ∀ q, σ.cleaning q = if q = id then some (0, 1) else none
  caches : ∀ q i j, (σ.pools q).caches i j = {}
  total : ∀ q ≠ id, (σ.pools q).totalCached = 0
  head : ∃ ly, (σ.pools 0).layers 0 = some ly ∧ ly.head = some ptr

variable {L : EntryLayout} {cfg : ObjectPoolConfig} {indexFirst : Bool} {σ σ₀ σ' : Mediator}
  {place : Ptr → EntryPlace} {id : ℕ} {ptr : Ptr} {arena : ℕ → ℕ}

theorem Mediator.Astray.sizesFit (h : σ.Astray L cfg id ptr) (hsize : cfg.poolInitSize < 2 ^ 31) :
    σ.SizesFit := by
  intro i _
  rw [h.config, h.currentLayer, ObjectPoolConfig.layerSize, Nat.pow_zero, Nat.mul_one]
  exact hsize

theorem CacheHolds.eq_of_singleton {m : Mem} {c : PerLayerCache} (h : CacheHolds m c [ptr]) :
    c = ⟨some ptr, some ptr, 1⟩ := by
  obtain ⟨head, tail, numCached⟩ := c
  rcases h with ⟨hnil, -⟩ | ⟨ys, t, hxs, hpath, htail, hnum⟩
  · cases hnil
  · cases ys with
    | nil =>
      obtain rfl : ptr = t := (List.cons.inj hxs).1
      obtain rfl : head = some ptr := hpath
      obtain rfl : tail = some ptr := htail
      obtain rfl : numCached = 1 := hnum
      rfl
    | cons y ys => simp at hxs

theorem Mediator.Tracked.myAlloc_first (h : σ.Tracked L cfg place)
    (indexFirst : Bool) (hpool : σ.pools id =
      ObjectPool.setLayer { id, config := cfg } 0 (some (firstLayer L cfg arena id))) :
    ∃ e ly, (σ.pools id).myAlloc L indexFirst none σ.mem =
        some (Function.update σ.mem (L.entry (arena id) 0) (some (L.setIdAndLayer e id 0)),
          (σ.pools id).setLayer 0 (some ly), some (L.entry (arena id) 0)) ∧
      ly.extent = (arena id, cfg.poolInitSize) ∧ ly.used = 1 := by
  have hly : (σ.pools id).layers 0 = some (firstLayer L cfg arena id) := by
    rw [hpool, setLayer_layers_self]
  have hcurrent : (σ.pools id).currentLayer = 0 := by rw [hpool]; rfl
  have hid : (σ.pools id).id = id := by rw [hpool]; rfl
  obtain ⟨e, he⟩ := h.core.read_head hly rfl
  obtain ⟨ly, hscan, hext, hused⟩ : ∃ ly, ObjectPool.scan σ.mem (σ.pools id).layers
      ((σ.pools id).currentLayer + 1) = some (some (0, ly, L.entry (arena id) 0)) ∧
      ly.extent = (arena id, cfg.poolInitSize) ∧ ly.used = 1 := by
    rw [hcurrent, ObjectPool.scan, hly]
    simp only [Option.bind_eq_bind, Option.bind_some, ObjectLayer.myAlloc, firstLayer, he,
      Option.pure_def]
    exact ⟨_, rfl, rfl, rfl⟩
  refine ⟨e, ly, ?_, hext, hused⟩
  rw [ObjectPool.myAlloc, hscan]
  simp only [Option.bind_eq_bind, Option.bind_some, Mem.setIdAndLayer, he, hid, Option.pure_def]

/-- **An entry is misfiled.** The number of pool `2 ^ 16` does not fit into an entry, so its entries
are taken for entries of pool `0`: when it gets one of its own back, it caches it for pool `0`. -/
theorem own_entry_misfiled (L : EntryLayout) (cfg : ObjectPoolConfig) (indexFirst : Bool)
    (arena : ℕ → ℕ) (hpos : 0 < cfg.poolInitSize) (hsize : cfg.poolInitSize < 2 ^ 31)
    (hmax : 1 ≤ cfg.maxTotalCached) (hlarge : 2 ^ 16 < cfg.numOfThread)
    (harena : ∀ i < cfg.numOfThread, ∀ i' < cfg.numOfThread, arena i = arena i' → i = i') :
    ∃ σ₀ σ₁ σ ptr, Mediator.initial L cfg arena = some σ₀ ∧
      FitStep L indexFirst σ₀ (.alloc (2 ^ 16) ptr) σ₁ ∧ (∀ x, σ₁.live x ↔ x = ptr) ∧
      FitStep L indexFirst σ₁ (.release (2 ^ 16) ptr) σ ∧ σ.Misfiled L cfg (2 ^ 16) ptr := by
  obtain ⟨σ₀, hinit, htracked, hcleaning, hpools⟩ :=
    Mediator.initial_tracked (L := L) (fun _ ↦ hpos) (Nat.lt_trans hsize (by decide)) harena
  generalize hid : (2 : ℕ) ^ 16 = id at hlarge ⊢
  have hne : 0 ≠ id := by
    rw [← hid]
    decide
  have hpool := hpools id
  rw [if_pos hlarge] at hpool
  obtain ⟨e, ly, halloc, hext, hused⟩ := htracked.myAlloc_first indexFirst hpool
  rw [ObjectLayer.extent, Prod.mk.injEq] at hext
  let ptr := L.entry (arena id) 0
  let e₁ := L.setIdAndLayer e id 0
  let m₁ := Function.update σ₀.mem ptr (some e₁)
  let p₁ := (σ₀.pools id).setLayer 0 (some ly)
  let σ₁ := Mediator.setPool { σ₀ with mem := m₁, live := fun q ↦ q = ptr ∨ σ₀.live q } id p₁
  have hlive : ∀ x, ¬σ₀.live x := by
    intro x hx
    obtain ⟨-, -, -, hplace⟩ := htracked.place_live hx
    cases hplace
  have honce : ∀ x, σ₀.returning x = none := by
    intro x
    by_contra hret
    obtain ⟨i, hi⟩ := Option.ne_none_iff_exists'.mp hret
    exact hlive x (htracked.returning x i hi).1
  have hfirst : PoolStep L indexFirst σ₀ (.alloc id ptr) σ₁ :=
    @PoolStep.alloc L indexFirst σ₀ id none m₁ p₁ ptr (by rwa [htracked.config])
      (fun a ha ↦ by cases ha) halloc
  have hpool₁ : σ₁.pools id = p₁ := Function.update_self ..
  have hmem₁ : m₁ ptr = some e₁ := Function.update_self ..
  have hconfig : p₁.config = cfg := htracked.config id
  -- The upper bits of the number are lost.
  have hread : e₁.readId = 0 ∧ e₁.readLayer = 0 := by
    simp only [FakeEntry.readId, FakeEntry.readLayer, e₁, EntryLayout.setIdAndLayer, ← hid]
    decide
  have hcaches : ∀ i j, p₁.caches i j = {} := by
    intro i j
    change (σ₀.pools id).caches i j = {}
    rw [hpool]
    rfl
  have htotal : p₁.totalCached = 0 := by
    change (σ₀.pools id).totalCached = 0
    rw [hpool]
    rfl
  obtain ⟨c, e₂, hcached, hholds, -⟩ := cachePtr_spec (L := L) hmem₁
    (by rw [hread.1, hconfig]; exact Nat.zero_lt_of_lt hlarge) (by rw [hread.2]; decide)
    (Or.inl ⟨rfl, hcaches _ _⟩) List.not_mem_nil
  rw [hread.1, hread.2] at hcached
  let p₂ : ObjectPool := { p₁.setCache 0 0 c with totalCached := p₁.totalCached + 1 }
  let σ₂ := ((Mediator.setPool { σ₁ with
    mem := Function.update m₁ ptr (some e₂)
    live := fun q ↦ q ≠ ptr ∧ σ₁.live q } id p₂).setCleaning id
      (if p₂.config.maxTotalCached < p₂.totalCached then some (0, 0) else none))
  have hsecond : PoolStep L indexFirst σ₁ (.release id ptr) σ₂ :=
    @PoolStep.releaseForeign L indexFirst σ₁ id ptr e₁ _ p₂ (by rw [hpool₁, hconfig]; exact hlarge)
      (Or.inl rfl) (honce ptr) (hcleaning id) hmem₁ (by rw [hread.1]; exact hne)
      (by rw [hpool₁]; exact hcached)
  -- The pools of the three states.
  have hself : σ₂.pools id = p₂ := Function.update_self ..
  have hrest : ∀ q ≠ id, σ₂.pools q = σ₀.pools q := fun q hq ↦
    (Function.update_of_ne hq ..).trans (Function.update_of_ne hq ..)
  have hrest₁ : ∀ q ≠ id, σ₁.pools q = σ₀.pools q := fun q hq ↦ Function.update_of_ne hq ..
  have hcurrent : ∀ q, (σ₀.pools q).currentLayer = 0 := fun q ↦ by rw [hpools]; rfl
  have hlayer : (σ₀.pools 0).layers 0 = some (firstLayer L cfg arena 0) := by
    rw [hpools, setLayer_layers_self, if_pos (Nat.zero_lt_of_lt hlarge)]
  have hmisfiled : σ₂.Misfiled L cfg id ptr := by
    refine ⟨⟨fun q ↦ ?_, fun q ↦ ?_, fun x hx ↦ ?_, honce, ⟨e₂, Function.update_self ..⟩, ?_,
      fun k hk ↦ ?_⟩, fun q ↦ ?_, ?_, fun q i j hother ↦ ?_, fun q ↦ ?_, ?_⟩
    · by_cases hq : q = id
      · rw [hq, hself]
        exact hconfig
      · rw [hrest q hq, htracked.config]
    · by_cases hq : q = id
      · rw [hq, hself]
        exact hcurrent id
      · rw [hrest q hq, hcurrent]
    · exact hx.2.elim hx.1 (hlive x)
    · exact ⟨ly, by rw [hself]; exact setLayer_layers_self (σ₀.pools id) 0 _,
        ⟨0, by rwa [hext.2], by rw [hext.1]⟩, hused⟩
    · -- The entry is one of pool `id`, and the arenas are different.
      obtain ⟨ly₀, hly₀, hhas₀⟩ := hk
      rw [hrest 0 hne] at hly₀
      exact hne (htracked.core.entry_unique ⟨ly₀, hly₀, hhas₀⟩
        ⟨firstLayer L cfg arena id, by rw [hpool, setLayer_layers_self], 0, hpos, rfl⟩).1
    · by_cases hq : q = id
      · rw [hq]
        refine (setCleaning_self ..).trans (if_neg ?_)
        change ¬p₁.config.maxTotalCached < ((p₁.totalCached + 1 : ℕ) : ℤ)
        rw [hconfig, htotal]
        exact Int.not_lt.mpr hmax
      · exact (Function.update_of_ne hq ..).trans (hcleaning q)
    · rw [hself]
      change (p₁.setCache 0 0 c).caches 0 0 = _
      rw [setCache_caches_self, hholds.eq_of_singleton]
    · by_cases hq : q = id
      · rw [hq, hself]
        change (p₁.setCache 0 0 c).caches i j = {}
        rw [setCache_caches_of_ne _ fun hij ↦ hother ⟨hq, hij⟩, hcaches]
      · rw [hrest q hq, hpools]
        rfl
    · by_cases hq : q = id
      · rw [hq, hself, if_pos rfl]
        change p₁.totalCached + 1 = 1
        rw [htotal]
      · rw [hrest q hq, hpools, if_neg hq]
        rfl
    · rw [hrest 0 hne]
      exact ⟨_, hlayer⟩
  refine ⟨σ₀, σ₁, σ₂, ptr, hinit, ⟨hfirst, fun i _ ↦ ?_⟩, fun x ↦ or_iff_left (hlive x),
    ⟨hsecond, hmisfiled.sizesFit hsize⟩, hmisfiled⟩
  have hconfig₁ : (σ₁.pools i).config = cfg ∧ (σ₁.pools i).currentLayer = 0 := by
    by_cases hi : i = id
    · rw [hi, hpool₁]
      exact ⟨hconfig, hcurrent id⟩
    · rw [hrest₁ i hi]
      exact ⟨htracked.config i, hcurrent i⟩
  rw [hconfig₁.1, hconfig₁.2, ObjectPoolConfig.layerSize, Nat.pow_zero, Nat.mul_one]
  exact hsize

/-- The cleanup gives the entry to pool `0`, which puts it before its own. -/
theorem Mediator.Misfiled.givenAway (h : σ.Misfiled L cfg id ptr) (indexFirst : Bool) (hid : 0 < id)
    (hlt : id < cfg.numOfThread) :
    ∃ τ υ, PoolStep L indexFirst σ (.period id) τ ∧ PoolStep L indexFirst τ .other υ ∧
      τ.pools = σ.pools ∧ υ.GivenAway L cfg id ptr := by
  obtain ⟨e, he⟩ := h.read
  obtain ⟨ly, hly⟩ := h.layer
  have hne : id ≠ 0 := Nat.ne_of_gt hid
  let τ := σ.setCleaning id (if (σ.pools id).totalCached ≠ 0 then some (0, 0) else none)
  have hperiod : PoolStep L indexFirst σ (.period id) τ :=
    .period (by rwa [h.config]) (h.cleaning id)
  have hbusy : τ.cleaning id = some (0, 0) := by
    refine (setCleaning_self ..).trans (if_pos ?_)
    rw [h.total, if_pos rfl]
    exact Nat.one_ne_zero
  obtain ⟨m, ly', hback, hext, hhead, hread⟩ : ∃ m ly',
      ly.myReleaseCache L σ.mem ((σ.pools id).caches 0 0) = some (m, ly', ly'.stateAfter) ∧
      ly'.extent = ly.extent ∧ ly'.head = some ptr ∧ ∃ e, m ptr = some e := by
    rw [h.cached, ObjectLayer.myReleaseCache]
    simp only [Mem.setNext, he, Option.bind_eq_bind, Option.bind_some, Option.pure_def]
    exact ⟨_, _, rfl, rfl, rfl, _, Function.update_self ..⟩
  rw [ObjectLayer.extent, ObjectLayer.extent, Prod.mk.injEq] at hext
  let p := (σ.pools 0).setLayer 0 (some ly')
  have hrun : (σ.pools 0).myReleaseCache L σ.mem 0 ((σ.pools id).caches 0 0) = some (m, p) := by
    rw [ObjectPool.myReleaseCache, hly]
    simp only [hback, Option.bind_eq_bind, Option.bind_some]
    exact if_neg fun hdrop ↦ absurd hdrop.2.1 (Nat.lt_irrefl 0)
  let q := (σ.pools id).setCache 0 0 {}
  let υ := (((Mediator.setPool { τ with mem := m } 0 p).setPool id q)).setCleaning id (some (0, 1))
  have hround : τ.cleanNext L id 0 0 = some υ := by
    have hback :
        τ.handBack L id 0 0 = some ((Mediator.setPool { τ with mem := m } 0 p).setPool id q) := by
      rw [Mediator.handBack]
      change ((σ.pools 0).myReleaseCache L σ.mem 0 ((σ.pools id).caches 0 0)).bind _ = _
      rw [hrun, Option.bind_some]
      change some ((Mediator.setPool { τ with mem := m } 0 p).setPool id
        ((Function.update τ.pools 0 p id).setCache 0 0 {})) = _
      rw [Function.update_of_ne hne]
      rfl
    rw [Mediator.cleanNext, if_neg, if_neg, if_pos, hback]
    · rfl
    · change 0 < ((σ.pools id).caches 0 0).numCached
      rw [h.cached]
      exact Nat.one_pos
    · exact fun hskip ↦ hskip.elim (Ne.symm hne) (by decide)
    · change ¬(σ.pools id).config.numOfThread ≤ 0
      rw [h.config]
      omega
  have hself : υ.pools id = q := Function.update_self ..
  have hzero : υ.pools 0 = p := by
    refine (Function.update_of_ne (Ne.symm hne) ..).trans ?_
    change Function.update τ.pools 0 p 0 = p
    exact Function.update_self ..
  have hrest : ∀ i, i ≠ id → i ≠ 0 → υ.pools i = σ.pools i := fun i hi hi' ↦
    (Function.update_of_ne hi ..).trans (Function.update_of_ne hi' ..)
  have hsame : ∀ i, (υ.pools i).config = (σ.pools i).config ∧
      (υ.pools i).currentLayer = (σ.pools i).currentLayer ∧
      (υ.pools i).totalCached = (σ.pools i).totalCached := by
    intro i
    by_cases hi : i = id
    · rw [hi, hself]
      exact ⟨rfl, rfl, rfl⟩
    · by_cases hi' : i = 0
      · rw [hi', hzero]
        exact ⟨rfl, rfl, rfl⟩
      · rw [hrest i hi hi']
        exact ⟨rfl, rfl, rfl⟩
  refine ⟨τ, υ, hperiod, .clean hbusy hround, rfl, ⟨fun i ↦ (hsame i).1.trans (h.config i),
    fun i ↦ (hsame i).2.1.trans (h.currentLayer i), h.live, h.returning,
    hread, ?_, fun k hk ↦ ?_⟩, fun i ↦ ?_, fun i a b ↦ ?_, fun i hi ↦ ?_, ⟨ly', ?_, hhead⟩⟩
  · rw [hself]
    exact h.owner
  · obtain ⟨ly₁, hly₁, hhas⟩ := hk
    rw [hzero] at hly₁
    by_cases hk : k = 0
    · rw [hk, setLayer_layers_self, Option.some.injEq] at hly₁
      exact h.strange 0 ⟨ly, hly, hhas.congr (by rw [← hly₁, hext.1]) (by rw [← hly₁, hext.2])⟩
    · rw [setLayer_layers_of_ne _ hk] at hly₁
      exact h.strange k ⟨ly₁, hly₁, hhas⟩
  · by_cases hi : i = id
    · rw [hi, if_pos rfl]
      exact setCleaning_self ..
    · rw [if_neg hi]
      exact (Function.update_of_ne hi ..).trans ((Function.update_of_ne hi ..).trans (h.cleaning i))
  · by_cases hi : i = id
    · rw [hi, hself]
      by_cases hab : a = 0 ∧ b = 0
      · rw [hab.1, hab.2]
        exact setCache_caches_self ..
      · change ((σ.pools id).setCache 0 0 {}).caches a b = {}
        rw [setCache_caches_of_ne _ hab]
        exact h.caches id a b fun heq ↦ hab heq.2
    · have hcaches : (υ.pools i).caches = (σ.pools i).caches := by
        by_cases hi' : i = 0
        · rw [hi', hzero]
          rfl
        · rw [hrest i hi hi']
      rw [hcaches]
      exact h.caches i a b fun heq ↦ hi heq.1
  · rw [(hsame i).2.2, h.total, if_neg hi]
  · rw [hzero]
    exact setLayer_layers_self ..

theorem Mediator.GivenAway.alloc (h : σ.GivenAway L cfg id ptr) (indexFirst : Bool)
    (hlt : 0 < cfg.numOfThread) (hsize : cfg.poolInitSize < 2 ^ 31) :
    ∃ σ', PoolStep L indexFirst σ (.alloc 0 ptr) σ' ∧ σ'.SizesFit ∧
      ∀ k, (σ'.pools 0).layers k ≠ none → (σ.pools 0).layers k ≠ none := by
  obtain ⟨e, he⟩ := h.read
  obtain ⟨ly, hly, hhead⟩ := h.head
  have hscan : ObjectPool.scan σ.mem (σ.pools 0).layers ((σ.pools 0).currentLayer + 1) =
      some (some (0, { ly with head := e.next, used := (ly.used + 1) % sizeRange }, ptr)) := by
    rw [h.currentLayer, ObjectPool.scan, hly]
    simp only [Option.bind_eq_bind, Option.bind_some, ObjectLayer.myAlloc, hhead, he,
      Option.pure_def]
  generalize { ly with head := e.next, used := (ly.used + 1) % sizeRange } = ly' at hscan
  have hrun : (σ.pools 0).myAlloc L indexFirst none σ.mem = some (Function.update σ.mem ptr
      (some (L.setIdAndLayer e (σ.pools 0).id 0)), (σ.pools 0).setLayer 0 (some ly'),
      some ptr) := by
    rw [ObjectPool.myAlloc, hscan]
    simp only [Option.bind_eq_bind, Option.bind_some, Mem.setIdAndLayer, he, Option.pure_def]
  have hlayer :
      ∀ q, (Function.update σ.pools 0 ((σ.pools 0).setLayer 0 (some ly')) q).currentLayer =
      (σ.pools q).currentLayer := Counting.apply_update_eq ObjectPool.currentLayer rfl
  have hconfig : ∀ q, (Function.update σ.pools 0 ((σ.pools 0).setLayer 0 (some ly')) q).config =
      (σ.pools q).config := Counting.apply_update_eq ObjectPool.config rfl
  refine ⟨_, .alloc (by rwa [h.config]) (fun a ha ↦ by cases ha) hrun, fun i _ ↦ ?_, fun k hk ↦ ?_⟩
  · change (Function.update σ.pools 0 _ i).config.layerSize
      (Function.update σ.pools 0 _ i).currentLayer < 2 ^ 31
    rw [hconfig, hlayer, h.config, h.currentLayer, ObjectPoolConfig.layerSize, Nat.pow_zero,
      Nat.mul_one]
    exact hsize
  · by_cases hk0 : k = 0
    · rw [hk0, hly]
      simp
    · change (Function.update σ.pools 0 ((σ.pools 0).setLayer 0 (some ly')) 0).layers k ≠ none at hk
      rwa [Function.update_self, setLayer_layers_of_ne _ hk0] at hk

theorem Mediator.finish_empty (indexFirst : Bool) {c : ℕ × ℕ} (hat : σ.cleaning id = some c)
    (hempty : ∀ i j, (σ.pools id).caches i j = {}) :
    ∃ n, Run (PoolStep L indexFirst) σ (List.replicate n .other)
      ((σ.setPool id { σ.pools id with totalCached := 0 }).setCleaning id none) := by
  induction hn : roundsLeft (σ.pools id).config.numOfThread c using Nat.strong_induction_on
    generalizing c σ with
  | _ n ih =>
    obtain ⟨i, j⟩ := c
    by_cases hend : (σ.pools id).config.numOfThread ≤ i
    · exact ⟨1, Run.refl.snoc (.clean hat (if_pos hend))⟩
    · obtain ⟨c', hrun, hless⟩ : ∃ c', σ.cleanNext L id i j = some (σ.setCleaning id (some c')) ∧
          roundsLeft (σ.pools id).config.numOfThread c' < n := by
        rw [Mediator.cleanNext, if_neg hend, ← hn]
        by_cases hskip : i = id ∨ ObjectPool.NLayers ≤ j
        · exact ⟨_, if_pos hskip, roundsLeft_row (Nat.lt_of_not_le hend)⟩
        · rw [if_neg hskip, if_neg (by rw [hempty]; exact Nat.lt_irrefl 0)]
          rw [not_or] at hskip
          exact ⟨_, rfl, roundsLeft_column (Nat.lt_of_not_le hskip.2)⟩
      obtain ⟨d, hrest⟩ := ih _ hless (setCleaning_self ..) hempty rfl
      refine ⟨1 + d, ?_⟩
      rw [List.replicate_add]
      have hsame : ((σ.setCleaning id (some c')).setPool id
          { (σ.setCleaning id (some c')).pools id with totalCached := 0 }).setCleaning id none =
          (σ.setPool id { σ.pools id with totalCached := 0 }).setCleaning id none := by
        simp only [Mediator.setCleaning, Mediator.setPool, Function.update_idem]
      rw [hsame] at hrest
      exact (Run.refl.snoc (.clean hat hrun)).trans hrest

theorem Mediator.period_all (indexFirst : Bool) (hcleaning : ∀ q, σ.cleaning q = none)
    (htotal : ∀ q, (σ.pools q).totalCached = 0) (c : ℕ)
    (hc : ∀ q < c, q < (σ.pools q).config.numOfThread) :
    Run (PoolStep L indexFirst) σ ((List.range c).map .period) σ := by
  induction c with
  | zero => exact .refl
  | succ c ih =>
    rw [List.range_succ, List.map_append]
    have hstep : PoolStep L indexFirst σ (.period c)
        (σ.setCleaning c (if (σ.pools c).totalCached ≠ 0 then some (0, 0) else none)) :=
      .period (hc c (Nat.lt_succ_self c)) (hcleaning c)
    have hsame : σ.setCleaning c (if (σ.pools c).totalCached ≠ 0 then some (0, 0) else none) =
        σ := by
      rw [if_neg (not_not.mpr (htotal c)), Mediator.setCleaning, ← hcleaning c,
        Function.update_eq_self]
    rw [hsame] at hstep
    exact (ih fun q hq ↦ hc q (Nat.lt_succ_of_lt hq)).snoc hstep

/-- When all pools have cleaned up, pool `id` has not got its entry back. -/
theorem Mediator.GivenAway.finished (h : σ.GivenAway L cfg id ptr) (indexFirst : Bool) :
    ∃ n τ, Run (PoolStep L indexFirst) σ
        (List.replicate n .other ++ (List.range cfg.numOfThread).map .period) τ ∧
      (∀ x, τ.returning x = none) ∧ (∀ q, τ.cleaning q = none) ∧
      ∃ ly, (τ.pools id).layers 0 = some ly ∧ ly.used = 1 := by
  obtain ⟨n, hrun⟩ := Mediator.finish_empty (L := L) indexFirst (by rw [h.cleaning, if_pos rfl])
    (h.caches id)
  have hcleaning : ∀ q, Function.update σ.cleaning id none q = none := by
    intro q
    by_cases hq : q = id
    · rw [hq, Function.update_self]
    · rw [Function.update_of_ne hq, h.cleaning, if_neg hq]
  have htotal :
      ∀ q, (Function.update σ.pools id { σ.pools id with totalCached := 0 } q).totalCached = 0 := by
    intro q
    by_cases hq : q = id
    · rw [hq, Function.update_self]
    · rw [Function.update_of_ne hq, h.total q hq]
  have hconfig : ∀ q, (Function.update σ.pools id { σ.pools id with totalCached := 0 } q).config =
      (σ.pools q).config := Counting.apply_update_eq ObjectPool.config rfl
  obtain ⟨ly, hly, -, hused⟩ := h.owner
  refine ⟨n, _, hrun.trans (Mediator.period_all indexFirst hcleaning htotal cfg.numOfThread
    fun q hq ↦ ?_), h.returning, hcleaning, ly, ?_, hused⟩
  · change q < (Function.update σ.pools id _ q).config.numOfThread
    rwa [hconfig, h.config]
  · change (Function.update σ.pools id _ id).layers 0 = some ly
    rw [Function.update_self]
    exact hly

/-- One pool more than an entry can tell apart. -/
def manyPools : ObjectPoolConfig where
  numOfThread := 2 ^ 16 + 1
  poolInitSize := 1
  enlargeRate := 2

/-- The last of the pools caches an entry that is not one of pool `0` for pool `0`. -/
theorem foreign_entries_cached_needs_ids :
    ∃ σ₀ σ ptr, Mediator.initial wordLayout manyPools (fun i ↦ i) = some σ₀ ∧
      Run (PoolStep wordLayout false) σ₀ [.alloc (2 ^ 16) ptr, .release (2 ^ 16) ptr] σ ∧
      0 ≤ manyPools.maxTotalCached ∧
      ¬∃ xs, CacheHolds σ.mem ((σ.pools (2 ^ 16)).caches 0 0) xs ∧ xs.Nodup ∧
        ∀ x ∈ xs, EntryOf wordLayout σ.pools 0 0 x := by
  obtain ⟨σ₀, σ₁, σ, ptr, hinit, halloc, -, hrelease, hmisfiled⟩ := own_entry_misfiled wordLayout
    manyPools false (fun i ↦ i) (by decide) (by decide) (by decide) (by decide) fun i _ i' _ h ↦ h
  refine ⟨σ₀, σ, ptr, hinit, (Run.refl.snoc halloc.1).snoc hrelease.1, by decide, ?_⟩
  rintro ⟨xs, hxs, -, hentries⟩
  rw [hmisfiled.cached] at hxs
  obtain rfl := hxs.unique (Or.inr ⟨[], ptr, rfl, rfl, rfl, rfl⟩)
  exact hmisfiled.strange 0 (hentries ptr (List.mem_singleton_self ptr))

end TYThread
