import TYThread.Pool.Stack

/-!
# What the functions of the pools do

`PoolsTracked` is what holds of all pools between two calls, or between two blocks of a call that
hold a lock. For each of these blocks there is one lemma: it has a result, the entries are moved as
they should be, and `PoolsTracked` holds again. `PoolsOk` adds the sizes of the layers, which
`LayersMove` keeps exact as long as they fit.
-/

namespace TYThread

open LinkedList

/-- The layers of the pools of a mediator. -/
structure Stacks (cfg : ObjectPoolConfig) (pools : ℕ → ObjectPool) : Prop where
  stack : ∀ i < cfg.numOfThread, Stack cfg i (pools i)
  top : ∀ i < cfg.numOfThread, (pools i).TopUsed
  outside : ∀ i, cfg.numOfThread ≤ i → ∀ k, (pools i).layers k = none
  config : ∀ i, (pools i).config = cfg

/-- The pools of a mediator, with the places of their entries. -/
structure PoolsOk (L : EntryLayout) (cfg : ObjectPoolConfig) (m : Mem) (pools : ℕ → ObjectPool)
    (place : Ptr → EntryPlace) : Prop extends Stacks cfg pools where
  core : Core L cfg.numOfThread m pools place

/-- The layers of the pools of a mediator, whatever their sizes are. -/
structure Shapes (cfg : ObjectPoolConfig) (pools : ℕ → ObjectPool) : Prop where
  shape : ∀ i < cfg.numOfThread, StackShape cfg i (pools i)
  outside : ∀ i, cfg.numOfThread ≤ i → ∀ k, (pools i).layers k = none
  config : ∀ i, (pools i).config = cfg

/-- The pools of a mediator, with the places of their entries, whatever the sizes of the layers
are. -/
structure PoolsTracked (L : EntryLayout) (cfg : ObjectPoolConfig) (m : Mem) (pools : ℕ → ObjectPool)
    (place : Ptr → EntryPlace) : Prop extends Shapes cfg pools where
  core : Core L cfg.numOfThread m pools place

/-- What is assumed of a configuration. -/
structure ObjectPoolConfig.Ok (cfg : ObjectPoolConfig) : Prop where
  /-- An entry can tell the pools apart. -/
  ids : cfg.numOfThread ≤ 2 ^ 16
  size : 1 ≤ cfg.poolInitSize
  rate : 1 ≤ cfg.enlargeRate

variable {L : EntryLayout} {cfg : ObjectPoolConfig} {m m' : Mem} {pools pools' : ℕ → ObjectPool}
  {place place' : Ptr → EntryPlace} {i j k q : ℕ} {p p' : ObjectPool} {ly : ObjectLayer} {ptr : Ptr}
  {xs : List Ptr}

theorem Stacks.shapes (h : Stacks cfg pools) (hrate : 0 < cfg.enlargeRate) : Shapes cfg pools :=
  ⟨fun i hi ↦ (h.stack i hi).shape hrate, h.outside, h.config⟩

theorem PoolsOk.tracked (h : PoolsOk L cfg m pools place) (hcfg : cfg.Ok) :
    PoolsTracked L cfg m pools place :=
  ⟨h.toStacks.shapes hcfg.rate, h.core⟩

theorem Stacks.move (h : Stacks cfg pools) (hrate : 0 < cfg.enlargeRate)
    (hshapes : Shapes cfg pools') (hmove : ∀ i, LayersMove (pools i) (pools' i))
    (hfits : ∀ i < cfg.numOfThread, cfg.layerSize (pools' i).currentLayer < 2 ^ 31) :
    Stacks cfg pools' :=
  ⟨fun i hi ↦ (h.stack i hi).move hrate (hshapes.shape i hi) (hmove i) (hfits i hi),
    fun i hi ↦ (hmove i).topUsed (h.top i hi), hshapes.outside, hshapes.config⟩

theorem PoolsTracked.lt_of_layer (h : PoolsTracked L cfg m pools place)
    (hly : (pools i).layers k = some ly) : i < cfg.numOfThread := by
  by_contra hle
  rw [h.outside i (Nat.le_of_not_lt hle)] at hly
  cases hly

theorem PoolsTracked.lt_of_entry (h : PoolsTracked L cfg m pools place)
    (hentry : EntryOf L pools i k ptr) :
    i < cfg.numOfThread ∧ k ≤ (pools i).currentLayer ∧ k < ObjectPool.NLayers := by
  obtain ⟨ly, hly, -⟩ := hentry
  have hi := h.lt_of_layer hly
  have hk := (h.shape i hi).le_of_layer hly
  exact ⟨hi, hk, Nat.lt_of_le_of_lt hk (h.shape i hi).bound⟩

theorem Shapes.update (h : Shapes cfg pools) (hi : i < cfg.numOfThread)
    (hshape : StackShape cfg i p') : Shapes cfg (Function.update pools i p') := by
  refine ⟨fun i' hi' ↦ ?_, fun i' hi' k ↦ ?_, fun i' ↦ ?_⟩
  · by_cases hii : i' = i
    · rwa [hii, Function.update_self]
    · rw [Function.update_of_ne hii]
      exact h.shape i' hi'
  · have hii : i' ≠ i := by
      rintro rfl
      exact absurd hi (Nat.not_lt.mpr hi')
    rw [Function.update_of_ne hii]
    exact h.outside i' hi' k
  · by_cases hii : i' = i
    · rw [hii, Function.update_self, hshape.config]
    · rw [Function.update_of_ne hii, h.config i']

theorem StackShape.caches (h : StackShape cfg i p) (c : ℕ → ℕ → PerLayerCache) (t : ℕ) :
    StackShape cfg i { p with caches := c, totalCached := t } :=
  ⟨h.id, h.config, h.present, h.absent, h.bound, h.cap⟩

/-! ## `my_release` -/

/-- The cached entries have not been written to. -/
def CachedKept (L : EntryLayout) (pools : ℕ → ObjectPool) (place : Ptr → EntryPlace) (m m' : Mem) :
    Prop :=
  ∀ i k x q, EntryOf L pools i k x → place x = .cached q → m' x = m x

/-- **`my_release` by the owner.** -/
theorem PoolsTracked.myRelease (h : PoolsTracked L cfg m pools place)
    (hentry : EntryOf L pools i k ptr) (hlive : place ptr = .live) :
    ∃ m' p', (pools i).myRelease L m ptr = some (m', p') ∧
      PoolsTracked L cfg m' (Function.update pools i p') (Function.update place ptr .free) ∧
      Shrunk L pools (Function.update pools i p') (Function.update place ptr .free) ∧
      LayersMove (pools i) p' ∧ p'.caches = (pools i).caches ∧
      p'.totalCached = (pools i).totalCached ∧ CachedKept L pools place m m' := by
  obtain ⟨e, he, -, hlayer⟩ := h.core.info i k ptr hentry hlive
  have hi := (h.lt_of_entry hentry).1
  have hshape := h.shape i hi
  obtain ⟨ly, hly, hhas⟩ := hentry
  obtain ⟨ly', m₁, hrun, hcore, hext, -, hframe₁⟩ :=
    h.core.give hly hhas hlive (hshape.cap k ly hly)
  have hself : Function.update pools i ((pools i).setLayer k (some ly')) i =
      (pools i).setLayer k (some ly') := Function.update_self ..
  have hlayer' : (Function.update pools i ((pools i).setLayer k (some ly')) i).layers k =
      some ly' := by
    rw [hself, setLayer_layers_self]
  obtain ⟨m', p', hremove, hcore', hshape', hdrop, hframe⟩ := removeLayer_spec hcore
    (by rw [hself]; exact hshape.setLayer hly hext) hlayer'
  have hshrunk := ((sameArenas_update hly hext).shrunk _).trans
    (hcore.shrunk hdrop.toTrimmed hshape')
  rw [hself] at hremove hdrop
  rw [Function.update_idem] at hcore' hshrunk hframe
  refine ⟨m', p', ?_, ⟨h.toShapes.update hi hshape', hcore'⟩, hshrunk, .released hly hext hdrop,
    hdrop.caches, hdrop.totalCached, fun i' k' x q hx hplace ↦ ?_⟩
  · rw [ObjectPool.myRelease, he]
    simp only [Option.bind_eq_bind, Option.bind_some, hlayer, hly, hrun]
    exact hremove
  · have hne : x ≠ ptr := by
      rintro rfl
      rw [hlive] at hplace
      cases hplace
    rw [hframe i' k' x (hshrunk.kept i' k' x hx (by rw [Function.update_of_ne hne, hplace]; simp)),
      hframe₁ x hne]

/-- **`my_release` by another pool.** -/
theorem PoolsTracked.cachePtr (h : PoolsTracked L cfg m pools place) (hq : q < cfg.numOfThread)
    (hentry : EntryOf L pools i k ptr) (hlive : place ptr = .live) (hqi : q ≠ i) :
    ∃ m' c, (pools q).cachePtr L m ptr = some (m',
        { (pools q).setCache i k c with totalCached := (pools q).totalCached + 1 }) ∧
      PoolsTracked L cfg m' (Function.update pools q
        { (pools q).setCache i k c with totalCached := (pools q).totalCached + 1 })
        (Function.update place ptr (.cached q)) ∧
      c.numCached = ((pools q).caches i k).numCached + 1 ∧ CachedKept L pools place m m' := by
  obtain ⟨hi, -, hk⟩ := h.lt_of_entry hentry
  obtain ⟨c, m', hrun, hcore, hnum, hframe⟩ :=
    h.core.cache hentry hlive hqi hq (by rwa [h.config q]) hk
  refine ⟨m', c, hrun, ⟨h.toShapes.update hq ((h.shape q hq).caches ..), hcore⟩, hnum,
    fun i' k' x q' _ hplace ↦ hframe x ?_⟩
  rintro rfl
  rw [hlive] at hplace
  cases hplace

/-- A cache that holds `xs` is handed back to layer `j`: its entries come before those that are free
already. After that the layer is still there, or it is not in use and has been deleted. -/
def HandedBack (L : EntryLayout) (m : Mem) (p : ObjectPool) (j : ℕ) (cache : PerLayerCache)
    (xs : List Ptr) (m' : Mem) (p' : ObjectPool) : Prop :=
  ∃ ly fs m₁ ly₁, p.layers j = some ly ∧ Spliced L m ly cache xs fs m₁ ly₁ ∧
    (p'.layers j = some ly₁ ∧ Chain m'.nextOf ly₁.head (xs ++ fs) ∨
      p'.layers j = none ∧ ly₁.used = 0)

/-- **A cache is handed back** to the pool of its entries. -/
theorem PoolsTracked.myReleaseCache (h : PoolsTracked L cfg m pools place)
    (hxs : CacheList L m pools place q i j xs) (hpos : 0 < ((pools q).caches i j).numCached) :
    ∃ m' p', (pools i).myReleaseCache L m j ((pools q).caches i j) = some (m', p') ∧
      PoolsTracked L cfg m'
        (Function.update (Function.update pools i p') q ((pools q).setCache i j {}))
        (freed place xs) ∧
      Shrunk L pools (Function.update (Function.update pools i p') q ((pools q).setCache i j {}))
        (freed place xs) ∧
      q ≠ i ∧ LayersMove (pools i) p' ∧ p'.caches = (pools i).caches ∧
      p'.totalCached = (pools i).totalCached ∧
      HandedBack L m (pools i) j ((pools q).caches i j) xs m' p' ∧
      ∀ i' k x q', EntryOf L pools i' k x → place x = .cached q' → x ∉ xs → m' x = m x := by
  -- A cache that counts an entry holds one, so there is such a layer.
  obtain ⟨t, ht⟩ : ∃ t, t ∈ xs := by
    rcases hxs.holds with ⟨-, hcache⟩ | ⟨ys, t, rfl, -⟩
    · rw [hcache] at hpos
      exact absurd hpos (Nat.lt_irrefl 0)
    · exact ⟨t, List.mem_append_right _ (List.mem_singleton_self t)⟩
  obtain ⟨hentry, hplace⟩ := (hxs.mem t).mp ht
  have hi := (h.lt_of_entry hentry).1
  obtain ⟨hqi, hq⟩ := h.core.foreign i j t q hentry hplace
  have hshape := h.shape i hi
  obtain ⟨ly, hly, -⟩ := hentry
  obtain ⟨ly', m₁, fs, hspliced, hcore, hext, hframe₁⟩ :=
    h.core.splice hly hxs hpos (hshape.cap j ly hly)
  have hself : Function.update (Function.update pools i ((pools i).setLayer j (some ly'))) q
      ((pools q).setCache i j {}) i = (pools i).setLayer j (some ly') := by
    rw [Function.update_of_ne hqi.symm, Function.update_self]
  have hlayer' : (Function.update (Function.update pools i ((pools i).setLayer j (some ly'))) q
      ((pools q).setCache i j {}) i).layers j = some ly' := by
    rw [hself, setLayer_layers_self]
  obtain ⟨m', p', hremove, hcore', hshape', hdrop, hframe⟩ := removeLayer_spec hcore
    (by rw [hself]; exact hshape.setLayer hly hext) hlayer'
  have hsame : SameArenas pools (Function.update (Function.update pools i
      ((pools i).setLayer j (some ly'))) q ((pools q).setCache i j {})) := by
    refine (sameArenas_update hly hext).trans fun i' k' ↦ ?_
    by_cases hiq : i' = q
    · rw [hiq, Function.update_self, Function.update_of_ne hqi]
      rfl
    · rw [Function.update_of_ne hiq]
  obtain ⟨gs, hgs⟩ := hcore.free i j ly' hlayer'
  have hshrunk := (hsame.shrunk _).trans (hcore.shrunk hdrop.toTrimmed hshape')
  rw [hself] at hremove hdrop
  rw [Function.update_comm hqi.symm, Function.update_idem, Function.update_comm hqi]
    at hcore' hshrunk hframe
  have hshapes := (h.toShapes.update hi hshape').update hq
    ((h.shape q hq).caches ((pools q).setCache i j {}).caches (pools q).totalCached)
  have hp' : Function.update (Function.update pools i p') q ((pools q).setCache i j {}) i = p' := by
    rw [Function.update_of_ne hqi.symm, Function.update_self]
  refine ⟨m', p', ?_, ⟨hshapes, hcore'⟩, hshrunk, hqi, .released hly hext hdrop, hdrop.caches,
    hdrop.totalCached, ⟨ly, fs, m₁, ly', hly, hspliced, ?_⟩, fun i' k x q' hx hplace hnot ↦ ?_⟩
  · rw [ObjectPool.myReleaseCache, hly]
    simp only [Option.bind_eq_bind, Option.bind_some, hspliced.run]
    exact hremove
  · by_cases hj : j ≤ p'.currentLayer
    · -- The layer is there, and its free entries have not been written to.
      have hkept : p'.layers j = some ly' := by rw [hdrop.layers j hj, setLayer_layers_self]
      refine Or.inl ⟨hkept, hspliced.after.congr fun x hx ↦ ?_⟩
      rw [← hgs.chain.unique hspliced.after] at hx
      rw [Mem.nextOf, hframe i j x ⟨ly', by rw [hp', hkept], ((hgs.mem x).mp hx).1⟩, Mem.nextOf]
    · have hlt := Nat.lt_of_not_le hj
      exact Or.inr ⟨hdrop.absent j hlt, hdrop.unused j ly' hlt (setLayer_layers_self ..)⟩
  · rw [hframe i' k x (hshrunk.kept i' k x hx (by rw [freed, if_neg hnot, hplace]; simp)),
      hframe₁ x hnot]

/-! ## `my_alloc` -/

/-- The scan finds an entry, or all free lists are empty. -/
theorem scan_spec {layers : ℕ → Option ObjectLayer} {c : ℕ}
    (hlayers : ∀ k < c, ∃ ly, layers k = some ly)
    (hread : ∀ k ly ptr, layers k = some ly → ly.head = some ptr → ∃ e, m ptr = some e) :
    (ObjectPool.scan m layers c = some none ∧ ∀ k < c, ∀ ly, layers k = some ly → ly.head = none) ∨
      ∃ k ly ly' ptr, k < c ∧ layers k = some ly ∧ ly.head = some ptr ∧
        ly.myAlloc m = some (ly', some ptr) ∧
        ObjectPool.scan m layers c = some (some (k, ly', ptr)) := by
  induction c with
  | zero => exact Or.inl ⟨rfl, fun k hk ↦ absurd hk (Nat.not_lt_zero k)⟩
  | succ c ih =>
    obtain ⟨ly, hly⟩ := hlayers c (Nat.lt_succ_self c)
    cases hhead : ly.head with
    | none =>
      have hrun : ly.myAlloc m = some (ly, none) := by rw [ObjectLayer.myAlloc, hhead]
      have hscan : ObjectPool.scan m layers (c + 1) = ObjectPool.scan m layers c := by
        rw [ObjectPool.scan, hly]
        simp only [Option.bind_eq_bind, Option.bind_some, hrun]
      rw [hscan]
      rcases ih fun k hk ↦ hlayers k (Nat.lt_succ_of_lt hk) with ⟨hnone, hempty⟩ | hfound
      · refine Or.inl ⟨hnone, fun k hk ly' hly' ↦ ?_⟩
        rcases Nat.lt_succ_iff_lt_or_eq.mp hk with hlt | rfl
        · exact hempty k hlt ly' hly'
        · rw [hly, Option.some.injEq] at hly'
          rw [← hly', hhead]
      · obtain ⟨k, ly', ly'', ptr, hk, hrest⟩ := hfound
        exact Or.inr ⟨k, ly', ly'', ptr, Nat.lt_succ_of_lt hk, hrest⟩
    | some ptr =>
      obtain ⟨e, he⟩ := hread c ly ptr hly hhead
      have hrun : ly.myAlloc m =
          some ({ ly with head := e.next, used := (ly.used + 1) % sizeRange }, some ptr) := by
        rw [ObjectLayer.myAlloc, hhead]
        simp only [he, Option.bind_eq_bind, Option.bind_some, Option.pure_def]
      refine Or.inr ⟨c, ly, _, ptr, Nat.lt_succ_self c, hly, hhead, hrun, ?_⟩
      rw [ObjectPool.scan, hly]
      simp only [Option.bind_eq_bind, Option.bind_some, hrun]

theorem Core.head_eq_none_iff {n : ℕ} (h : Core L n m pools place)
    (hly : (pools i).layers k = some ly) :
    ly.head = none ↔ ∀ ptr, ly.Has L ptr → place ptr ≠ .free := by
  obtain ⟨xs, hxs⟩ := h.free i k ly hly
  have hchain := hxs.chain
  constructor
  · intro hhead ptr hhas hfree
    rw [hhead] at hchain
    have hmem := (hxs.mem ptr).mpr ⟨hhas, hfree⟩
    cases xs with
    | nil => exact List.not_mem_nil hmem
    | cons x xs => cases hchain.1
  · intro hnone
    cases xs with
    | nil => exact hchain
    | cons x xs =>
      obtain ⟨hhas, hfree⟩ := (hxs.mem x).mp List.mem_cons_self
      exact absurd hfree (hnone x hhas)

theorem Core.read_head {n : ℕ} (h : Core L n m pools place) (hly : (pools i).layers k = some ly)
    (hhead : ly.head = some ptr) : ∃ e, m ptr = some e := by
  obtain ⟨xs, hxs⟩ := h.free i k ly hly
  have hchain := hxs.chain
  cases xs with
  | nil =>
    rw [hhead] at hchain
    cases hchain
  | cons x xs =>
    obtain ⟨hx, -⟩ := hchain
    rw [hhead, Option.some.injEq] at hx
    subst hx
    exact h.readable i k ptr ⟨ly, hly, ((hxs.mem ptr).mp List.mem_cons_self).1⟩

theorem PoolsTracked.scan (h : PoolsTracked L cfg m pools place) (hi : i < cfg.numOfThread) :
    (ObjectPool.scan m (pools i).layers ((pools i).currentLayer + 1) = some none ∧
        ∀ k ptr, EntryOf L pools i k ptr → place ptr ≠ .free) ∨
      ∃ k ly ly' ptr, (pools i).layers k = some ly ∧ ly.head = some ptr ∧
        ly.myAlloc m = some (ly', some ptr) ∧
        ObjectPool.scan m (pools i).layers ((pools i).currentLayer + 1) =
        some (some (k, ly', ptr)) := by
  have hshape := h.shape i hi
  rcases scan_spec (m := m) (c := (pools i).currentLayer + 1)
    (fun k hk ↦ hshape.present k (Nat.le_of_lt_succ hk))
    (fun k ly ptr hly hhead ↦ h.core.read_head hly hhead) with ⟨hscan, hempty⟩ | hfound
  · refine Or.inl ⟨hscan, fun k ptr ⟨ly, hly, hhas⟩ ↦ ?_⟩
    have hhead := hempty k (Nat.lt_succ_of_le (hshape.le_of_layer hly)) ly hly
    exact (h.core.head_eq_none_iff hly).mp hhead ptr hhas
  · obtain ⟨k, ly, ly', ptr, -, hrest⟩ := hfound
    exact Or.inr ⟨k, ly, ly', ptr, hrest⟩

/-- **`my_alloc` when an entry is free**: one of them is handed out, and the layers stay. -/
theorem PoolsTracked.myAlloc_free (h : PoolsTracked L cfg m pools place)
    (hids : cfg.numOfThread ≤ 2 ^ 16) (hi : i < cfg.numOfThread)
    (hfree : ∃ k ptr, EntryOf L pools i k ptr ∧ place ptr = .free) (indexFirst : Bool)
    (arena : Option ℕ) :
    ∃ m' k ly ly' ptr, (pools i).myAlloc L indexFirst arena m =
        some (m', (pools i).setLayer k (some ly'), some ptr) ∧
      PoolsTracked L cfg m' (Function.update pools i ((pools i).setLayer k (some ly')))
        (Function.update place ptr .live) ∧
      (pools i).layers k = some ly ∧ ly.Has L ptr ∧ place ptr = .free ∧ ly'.extent = ly.extent ∧
      ly'.used = ly.used + 1 ∧ ∀ x ≠ ptr, m' x = m x := by
  have hshape := h.shape i hi
  rcases h.scan hi with ⟨-, hnone⟩ | ⟨k, ly, ly', ptr, hly, hhead, hrun, hscan⟩
  · obtain ⟨k, ptr, hentry, hplace⟩ := hfree
    exact absurd hplace (hnone k ptr hentry)
  · have hk := Nat.lt_of_le_of_lt (hshape.le_of_layer hly) hshape.bound
    obtain ⟨ly₁, m', hrun₁, hset, hcore, hhas, hplace, hext, hused, hframe⟩ :=
      h.core.take hly hhead (hshape.cap k ly hly) (Nat.lt_of_lt_of_le hi hids)
        (Nat.lt_trans hk (by decide))
    rw [hrun, Option.some.injEq, Prod.mk.injEq] at hrun₁
    obtain ⟨rfl, -⟩ := hrun₁
    refine ⟨m', k, ly, ly', ptr, ?_, ⟨h.toShapes.update hi (hshape.setLayer hly hext), hcore⟩, hly,
      hhas, hplace, hext, hused, hframe⟩
    rw [ObjectPool.myAlloc, hscan]
    simp only [Option.bind_eq_bind, Option.bind_some, hshape.id, hset, Option.pure_def]

/-- `my_alloc` of a pool whose layers are full goes on to add a layer to `p'`, which is the pool
with the new size. -/
theorem myAlloc_of_scan (indexFirst : Bool) (arena : Option ℕ)
    (hscan : ObjectPool.scan m p.layers (p.currentLayer + 1) = some none) :
    ∃ p' : ObjectPool, p.myAlloc L indexFirst arena m = p'.addLayer L indexFirst arena m ∧
      p'.id = p.id ∧ p'.config = p.config ∧ p'.layers = p.layers ∧
      p'.currentLayer = p.currentLayer ∧
      p'.currentSize = enlarge p.currentSize p.config.enlargeRate ∧ p'.caches = p.caches ∧
      p'.totalCached = p.totalCached := by
  refine ⟨{ p with currentSize := enlarge p.currentSize p.config.enlargeRate }, ?_, rfl, rfl, rfl,
    rfl, by simp only, rfl, rfl⟩
  rw [ObjectPool.myAlloc, hscan]
  exact Option.bind_some ..

theorem eq_of_grant {arena : Option ℕ} {sz b : ℕ} (h : grant L arena sz = some b) :
    arena = some b := by
  rw [grant] at h
  split at h
  · exact h
  · cases h

theorem lt_of_grant {arena : Option ℕ} {sz b : ℕ} (h : grant L arena sz = some b) :
    sz * L.size < 2 ^ 63 := by
  rw [grant] at h
  split at h
  · assumption
  · cases h

theorem addLayer_inv {indexFirst : Bool} {arena : Option ℕ}
    (hrun : p.addLayer L indexFirst arena m = some (m', p', some ptr)) :
    p.currentLayer + 1 < ObjectPool.NLayers ∧ ∃ b m₁ ly₁ ly,
      grant L arena (sizeOfInt p.currentSize) = some b ∧
      ObjectLayer.new L m b (sizeOfInt p.currentSize) = some (m₁, ly₁) ∧
      ly₁.myAlloc m₁ = some (ly, some ptr) ∧
      m₁.setIdAndLayer L ptr p.id (p.currentLayer + 1) = some m' ∧
      p' = { p with currentLayer := p.currentLayer + 1 }.setLayer (p.currentLayer + 1)
      (some ly) := by
  have hnone : ∀ {q : ObjectPool}, some (m, q, none) ≠ some (m', p', some ptr) := by
    intro q heq
    rw [Option.some.injEq, Prod.mk.injEq, Prod.mk.injEq] at heq
    cases heq.2.2
  rw [ObjectPool.addLayer] at hrun
  generalize grant L arena (sizeOfInt p.currentSize) = g at hrun ⊢
  by_cases hbound : p.currentLayer + 1 < ObjectPool.NLayers
  · cases g with
    | none =>
      by_cases hfirst : indexFirst = true
      · simp only [if_pos hfirst, if_pos hbound] at hrun
        exact absurd hrun hnone
      · simp only [if_neg hfirst] at hrun
        exact absurd hrun hnone
    | some b =>
      simp only [if_pos hbound, Option.bind_eq_bind, Option.bind_eq_some_iff, Option.pure_def,
        Option.some.injEq, Prod.mk.injEq] at hrun
      obtain ⟨⟨m₁, ly₁⟩, hnew, ⟨ly, res⟩, halloc, x, hres, m₂, hset, rfl, rfl, rfl⟩ := hrun
      obtain rfl : res = some x := hres
      exact ⟨hbound, b, m₁, ly₁, ly, rfl, hnew, halloc, hset, rfl⟩
  · cases g with
    | none =>
      by_cases hfirst : indexFirst = true
      · simp only [if_pos hfirst, if_neg hbound] at hrun
        cases hrun
      · simp only [if_neg hfirst] at hrun
        exact absurd hrun hnone
    | some b =>
      simp only [if_neg hbound] at hrun
      cases hrun

/-- What comes of the pool when the construction of the layer throws. -/
theorem addLayer_of_throw {indexFirst : Bool} {arena : Option ℕ}
    (hthrow : grant L arena (sizeOfInt p.currentSize) = none) :
    p.addLayer L indexFirst arena m =
      if indexFirst then
        if p.currentLayer + 1 < ObjectPool.NLayers then
          some (m, { p with currentLayer := p.currentLayer + 1 }, none)
        else none
      else some (m, p, none) := by
  rw [ObjectPool.addLayer, hthrow]

theorem ObjectLayer.new_pos {b sz : ℕ} {l : Mem × ObjectLayer}
    (hnew : ObjectLayer.new L m b sz = some l) : 0 < sz := by
  rw [Nat.pos_iff_ne_zero]
  rintro rfl
  cases hnew

/-- Pool `i` hands out `ptr`, which is a free entry, or the first one of a new layer. -/
inductive AllocMove (L : EntryLayout) (m : Mem) (pools : ℕ → ObjectPool) (place : Ptr → EntryPlace)
    (i : ℕ) (ptr : Ptr) (m' : Mem) (p' : ObjectPool) (place' : Ptr → EntryPlace) : Prop
  | taken {k : ℕ} {ly ly' : ObjectLayer} (layer : (pools i).layers k = some ly) (has : ly.Has L ptr)
      (free : place ptr = .free) (extent : ly'.extent = ly.extent) (used : ly'.used = ly.used + 1)
      (pool : p' = (pools i).setLayer k (some ly')) (mem : ∀ x ≠ ptr, m' x = m x)
      (moved : place' = Function.update place ptr .live)
  | grown {b : ℕ} {ly : ObjectLayer} (full : ∀ k x, EntryOf L pools i k x → place x ≠ .free)
      (unused : ∀ i k ly, (pools i).layers k = some ly → ly.arena ≠ b) (arena : ly.arena = b)
      (has : ly.Has L ptr) (used : ly.used = 1) (cap : ly.arenaCap = sizeOfInt p'.currentSize)
      (currentLayer : p'.currentLayer = (pools i).currentLayer + 1)
      (currentSize : p'.currentSize = enlarge (pools i).currentSize (pools i).config.enlargeRate)
      (layers : p'.layers = Function.update (pools i).layers ((pools i).currentLayer + 1) (some ly))
      (caches : p'.caches = (pools i).caches) (totalCached : p'.totalCached = (pools i).totalCached)
      (mem : ∀ x : Ptr, x.arena ≠ b → m' x = m x)
      (moved : place' = Function.update (allocated place b) ptr .live)

theorem PoolsTracked.scan_full (h : PoolsTracked L cfg m pools place) (hi : i < cfg.numOfThread)
    (hfull : ∀ k ptr, EntryOf L pools i k ptr → place ptr ≠ .free) :
    ObjectPool.scan m (pools i).layers ((pools i).currentLayer + 1) = some none := by
  rcases h.scan hi with ⟨hscan, -⟩ | ⟨k, ly, ly', ptr, hly, hhead, -⟩
  · exact hscan
  · have hempty := (h.core.head_eq_none_iff hly).mpr fun ptr hhas ↦ hfull k ptr ⟨ly, hly, hhas⟩
    rw [hhead] at hempty
    cases hempty

/-- **`my_alloc` when no entry is free**: a layer is added, and its first entry is handed out. -/
theorem PoolsTracked.myAlloc_full (h : PoolsTracked L cfg m pools place)
    (hids : cfg.numOfThread ≤ 2 ^ 16) (hi : i < cfg.numOfThread)
    (hfull : ∀ k ptr, EntryOf L pools i k ptr → place ptr ≠ .free) {indexFirst : Bool}
    {arena : Option ℕ}
    (hunused : ∀ b, arena = some b → ∀ i k ly, (pools i).layers k = some ly → ly.arena ≠ b)
    (hrun : (pools i).myAlloc L indexFirst arena m = some (m', p', some ptr)) :
    ∃ place', AllocMove L m pools place i ptr m' p' place' ∧
      PoolsTracked L cfg m' (Function.update pools i p') place' := by
  have hshape := h.shape i hi
  have hscan := h.scan_full hi hfull
  obtain ⟨p₁, hmyAlloc, hid₁, hcfg₁, hlayers₁, hcl₁, hsize₁, hcaches₁, htotal₁⟩ :=
    myAlloc_of_scan (L := L) indexFirst arena hscan
  rw [hmyAlloc] at hrun
  obtain ⟨hbound, b, m₁, ly₁, ly, hgrant, hnew, halloc, hset, hp'⟩ := addLayer_inv hrun
  rw [hcl₁, hid₁, hshape.id] at hset
  rw [hcl₁] at hbound
  have hunused' := hunused b (eq_of_grant hgrant)
  have hlarge := lt_of_grant hgrant
  generalize hsz : sizeOfInt p₁.currentSize = sz at hnew hlarge
  -- The layer is made, and its first entry is taken.
  obtain ⟨m₂, hnew₂, hcore₁, hframe₁⟩ := h.core.grow (i := i)
    (hshape.absent _ (Nat.lt_succ_self _)) hunused' (ObjectLayer.new_pos hnew)
  rw [hnew, Option.some.injEq, Prod.mk.injEq] at hnew₂
  obtain ⟨rfl, rfl⟩ := hnew₂
  have hcap₁ : sz < sizeRange := by
    rw [sizeRange]
    exact Nat.lt_trans (Nat.lt_of_le_of_lt (Nat.le_mul_of_pos_right sz L.size_pos) hlarge)
      (by omega)
  obtain ⟨ly₂, m₂, halloc₂, hset₂, hcore, hhas, -, hext, hused, hframe⟩ := hcore₁.take (i := i)
    (k := (pools i).currentLayer + 1) (by rw [Function.update_self, setLayer_layers_self]) rfl hcap₁
    (Nat.lt_of_lt_of_le hi hids) (Nat.lt_trans hbound (by decide))
  rw [halloc, Option.some.injEq, Prod.mk.injEq, Option.some.injEq] at halloc₂
  obtain ⟨rfl, rfl⟩ := halloc₂
  rw [hset, Option.some.injEq] at hset₂
  subst hset₂
  rw [Function.update_self, Function.update_idem] at hcore
  have hcap : ly.arenaCap = sz := (Prod.mk.injEq .. ▸ hext).2
  have harena : ly.arena = b := (Prod.mk.injEq .. ▸ hext).1
  have hcl : p'.currentLayer = (pools i).currentLayer + 1 := by
    rw [hp', ← hcl₁]
    rfl
  have hlayers : p'.layers = Function.update (pools i).layers ((pools i).currentLayer + 1)
      (some ly) := by
    rw [hp', ← hcl₁, ← hlayers₁]
    rfl
  have hsize : p'.currentSize = p₁.currentSize := by
    rw [hp']
    rfl
  have hcaches : p'.caches = (pools i).caches := by
    rw [hp', ← hcaches₁]
    rfl
  have hid : p'.id = (pools i).id := by
    rw [hp', ← hid₁]
    rfl
  have hconfig : p'.config = (pools i).config := by
    rw [hp', ← hcfg₁]
    rfl
  have htotal : p'.totalCached = (pools i).totalCached := by
    rw [hp', ← htotal₁]
    rfl
  have hhas' := hhas.congr harena hcap
  have hshape' := hshape.grow hid hconfig hcl hlayers hbound (by rwa [hcap])
  refine ⟨_, .grown hfull hunused' harena hhas' hused (by rw [hcap, hsize, hsz]) hcl
    (by rw [hsize, hsize₁]) hlayers hcaches htotal (fun x hx ↦ ?_) rfl,
    h.toShapes.update hi hshape', hcore.congr_update ?_ hcaches⟩
  · rw [hframe x ?_, hframe₁ x hx]
    rintro rfl
    exact hx rfl
  · rw [hlayers]
    exact (Function.update_idem ..).symm

/-- **`my_alloc`**, when it returns an entry. -/
theorem PoolsTracked.myAlloc (h : PoolsTracked L cfg m pools place)
    (hids : cfg.numOfThread ≤ 2 ^ 16)
    (hi : i < cfg.numOfThread) {indexFirst : Bool} {arena : Option ℕ}
    (hunused : ∀ b, arena = some b → ∀ i k ly, (pools i).layers k = some ly → ly.arena ≠ b)
    (hrun : (pools i).myAlloc L indexFirst arena m = some (m', p', some ptr)) :
    ∃ place', AllocMove L m pools place i ptr m' p' place' ∧
      PoolsTracked L cfg m' (Function.update pools i p') place' := by
  by_cases hfree : ∃ k ptr, EntryOf L pools i k ptr ∧ place ptr = .free
  · obtain ⟨m₁, k, ly, ly', ptr₁, hrun₁, htracked, hly, hhas, hplace, hext, hused, hframe⟩ :=
      h.myAlloc_free hids hi hfree indexFirst arena
    rw [hrun, Option.some.injEq, Prod.mk.injEq, Prod.mk.injEq, Option.some.injEq] at hrun₁
    obtain ⟨rfl, rfl, rfl⟩ := hrun₁
    exact ⟨_, .taken hly hhas hplace hext hused rfl hframe rfl, htracked⟩
  · exact h.myAlloc_full hids hi (fun k ptr hentry hplace ↦ hfree ⟨k, ptr, hentry, hplace⟩)
      hunused hrun

/-- When no entry is free, and there is room for a layer and memory for its arena, `my_alloc`
returns an entry. -/
theorem PoolsTracked.myAlloc_grows (h : PoolsTracked L cfg m pools place)
    (hids : cfg.numOfThread ≤ 2 ^ 16) (hi : i < cfg.numOfThread)
    (hfull : ∀ k ptr, EntryOf L pools i k ptr → place ptr ≠ .free)
    (hroom : (pools i).currentLayer + 1 < ObjectPool.NLayers) {b : ℕ} {arena : Option ℕ}
    (hunused : ∀ i k ly, (pools i).layers k = some ly → ly.arena ≠ b)
    (hpos : 0 < sizeOfInt (enlarge (pools i).currentSize (pools i).config.enlargeRate))
    (hgrant : grant L arena (sizeOfInt (enlarge (pools i).currentSize
      (pools i).config.enlargeRate)) = some b) (indexFirst : Bool) :
    ∃ m' p' ptr, (pools i).myAlloc L indexFirst arena m = some (m', p', some ptr) := by
  have hshape := h.shape i hi
  obtain ⟨p₁, hmyAlloc, hid₁, -, -, hcl₁, hsize₁, -⟩ :=
    myAlloc_of_scan (L := L) indexFirst arena (h.scan_full hi hfull)
  have hlarge := lt_of_grant hgrant
  rw [← hsize₁] at hpos hgrant hlarge
  generalize hsz : sizeOfInt p₁.currentSize = sz at hpos hgrant hlarge
  obtain ⟨m₁, hnew, hcore₁, -⟩ := h.core.grow (i := i)
    (hshape.absent _ (Nat.lt_succ_self _)) hunused hpos
  have hcap : sz < sizeRange := by
    rw [sizeRange]
    exact Nat.lt_trans (Nat.lt_of_le_of_lt (Nat.le_mul_of_pos_right sz L.size_pos) hlarge)
      (by omega)
  obtain ⟨ly, m₂, halloc, hset, -⟩ := hcore₁.take (i := i)
    (k := (pools i).currentLayer + 1) (by rw [Function.update_self, setLayer_layers_self]) rfl hcap
    (Nat.lt_of_lt_of_le hi hids) (Nat.lt_trans hroom (by decide))
  refine ⟨m₂, { p₁ with currentLayer := p₁.currentLayer + 1 }.setLayer (p₁.currentLayer + 1)
    (some ly), L.entry b 0, ?_⟩
  rw [hmyAlloc, ObjectPool.addLayer, hsz, hgrant]
  simp only [hcl₁, if_pos hroom, hnew, Option.bind_eq_bind, Option.bind_some, halloc, hid₁,
    hshape.id, hset, Option.pure_def]

end TYThread
