import Mathlib.Data.Set.Card
import TYThread.Pool.Reachable

/-!
# Who owns an entry

Seen from the memory alone, an entry can be in three kinds of locations: it is live, or it is met on
the way along the free list of a layer, or along a cache. In every state that is reached, each entry
of each layer is at exactly one of them.
-/

namespace TYThread

open LinkedList

/-- The entries that are met along the free list. -/
def ObjectLayer.freeEntries (ly : ObjectLayer) (m : Mem) : Set Ptr :=
  {ptr | ∃ xs, Chain m.nextOf ly.head xs ∧ ptr ∈ xs}

/-- The entries that are met along the cache. -/
def PerLayerCache.entries (cache : PerLayerCache) (m : Mem) : Set Ptr :=
  {ptr | ∃ xs, CacheHolds m cache xs ∧ ptr ∈ xs}

inductive Location
  | live
  /-- In the free list of layer `k` of pool `i`. -/
  | free (i k : ℕ)
  /-- In `caches[i][j]` of pool `q`. -/
  | cached (q i j : ℕ)
deriving DecidableEq

/-- The entry is at the location. -/
def Mediator.At (σ : Mediator) (ptr : Ptr) : Location → Prop
  | .live => σ.live ptr
  | .free i k => ∃ ly, (σ.pools i).layers k = some ly ∧ ptr ∈ ly.freeEntries σ.mem
  | .cached q i j => ptr ∈ ((σ.pools q).caches i j).entries σ.mem

/-- The location of an entry of layer `k` of pool `i`. -/
def EntryPlace.location (i k : ℕ) : EntryPlace → Location
  | .live => .live
  | .free => .free i k
  | .cached q => .cached q i k

variable {L : EntryLayout} {cfg : ObjectPoolConfig} {indexFirst : Bool} {σ σ₀ σ' : Mediator}
  {place : Ptr → EntryPlace} {i j k q : ℕ} {ptr : Ptr} {ly : ObjectLayer} {m : Mem}
  {xs ys : List Ptr}

theorem Core.mem_freeEntries {n : ℕ} {pools : ℕ → ObjectPool} (h : Core L n m pools place)
    (hly : (pools i).layers k = some ly) :
    ptr ∈ ly.freeEntries m ↔ ly.Has L ptr ∧ place ptr = .free := by
  obtain ⟨xs, hxs⟩ := h.free i k ly hly
  rw [← hxs.mem]
  constructor
  · rintro ⟨ys, hys, hmem⟩
    rwa [hxs.chain.unique hys]
  · intro hmem
    exact ⟨xs, hxs.chain, hmem⟩

theorem Core.mem_cacheEntries {n : ℕ} {pools : ℕ → ObjectPool} (h : Core L n m pools place) :
    ptr ∈ ((pools q).caches i j).entries m ↔ EntryOf L pools i j ptr ∧ place ptr = .cached q := by
  obtain ⟨xs, hxs⟩ := h.cached q i j
  rw [← hxs.mem]
  constructor
  · rintro ⟨ys, hys, hmem⟩
    rwa [hxs.holds.unique hys]
  · intro hmem
    exact ⟨xs, hxs.holds, hmem⟩

theorem Mediator.Ok.at_iff (h : σ.Ok L cfg place) (hentry : EntryOf L σ.pools i k ptr)
    (l : Location) : σ.At ptr l ↔ l = (place ptr).location i k := by
  cases l with
  | live =>
    rw [Mediator.At, h.live]
    constructor
    · rintro ⟨-, -, -, hlive⟩
      rw [hlive]
      rfl
    · intro heq
      refine ⟨i, k, hentry, ?_⟩
      cases hplace : place ptr with
      | live => rfl
      | free => rw [hplace] at heq; cases heq
      | cached q => rw [hplace] at heq; cases heq
  | free i' k' =>
    rw [Mediator.At]
    constructor
    · rintro ⟨ly, hly, hmem⟩
      obtain ⟨hhas, hfree⟩ := (h.core.mem_freeEntries hly).mp hmem
      obtain ⟨rfl, rfl⟩ := h.core.entry_unique hentry ⟨ly, hly, hhas⟩
      rw [hfree]
      rfl
    · intro heq
      cases hplace : place ptr with
      | live => rw [hplace] at heq; cases heq
      | free =>
        rw [hplace] at heq
        cases heq
        obtain ⟨ly, hly, hhas⟩ := hentry
        exact ⟨ly, hly, (h.core.mem_freeEntries hly).mpr ⟨hhas, hplace⟩⟩
      | cached q => rw [hplace] at heq; cases heq
  | cached q i' j =>
    rw [Mediator.At, h.core.mem_cacheEntries]
    constructor
    · rintro ⟨hentry', hcached⟩
      obtain ⟨rfl, rfl⟩ := h.core.entry_unique hentry hentry'
      rw [hcached]
      rfl
    · intro heq
      cases hplace : place ptr with
      | live => rw [hplace] at heq; cases heq
      | free => rw [hplace] at heq; cases heq
      | cached q =>
        rw [hplace] at heq
        cases heq
        exact ⟨hentry, rfl⟩

theorem Mediator.Ok.not_free (h : σ.Ok L cfg place)
    (hat : σ.At ptr .live ∨ ∃ q i j, σ.At ptr (.cached q i j)) :
    (∃ i k, EntryOf L σ.pools i k ptr) ∧ place ptr ≠ .free := by
  rcases hat with hlive | ⟨q, i, j, hcached⟩
  · obtain ⟨i, k, hentry, hplace⟩ := h.place_live hlive
    exact ⟨⟨i, k, hentry⟩, by rw [hplace]; simp⟩
  · obtain ⟨hentry, hplace⟩ := h.core.mem_cacheEntries.mp hcached
    exact ⟨⟨i, j, hentry⟩, by rw [hplace]; simp⟩

theorem ObjectLayer.ncard_entries (ly : ObjectLayer) :
    Set.ncard {ptr | ly.Has L ptr} = ly.arenaCap := by
  have hset : {ptr | ly.Has L ptr} = (L.entry ly.arena) '' (Finset.range ly.arenaCap : Set ℕ) := by
    ext ptr
    simp only [Set.mem_ofPred_eq, Set.mem_image, Finset.coe_range, Set.mem_Iio, ObjectLayer.Has,
      eq_comm]
  rw [hset, Set.ncard_image_of_injective _ fun x y heq ↦ (EntryLayout.entry_inj.mp heq).2,
    Set.ncard_coe_finset, Finset.card_range]

theorem ObjectLayer.finite_entries (ly : ObjectLayer) : Set.Finite {ptr | ly.Has L ptr} := by
  refine ((Finset.range ly.arenaCap).finite_toSet.image (L.entry ly.arena)).subset ?_
  rintro ptr ⟨x, hx, rfl⟩
  exact ⟨x, Finset.mem_coe.mpr (Finset.mem_range.mpr hx), rfl⟩

/-- `used` counts the entries of the layer that are not free. -/
theorem Core.used_eq {n : ℕ} {pools : ℕ → ObjectPool} (h : Core L n m pools place)
    (hly : (pools i).layers k = some ly) :
    ly.used = Set.ncard {ptr | ly.Has L ptr ∧ place ptr ≠ .free} := by
  obtain ⟨xs, hxs⟩ := h.free i k ly hly
  have hfree : Set.ncard {ptr | ly.Has L ptr ∧ place ptr = .free} = xs.length := by
    rw [← List.toFinset_card_of_nodup hxs.nodup, ← Set.ncard_coe_finset]
    congr 1
    ext ptr
    simp only [Set.mem_ofPred_eq, List.coe_toFinset, hxs.mem]
  have hsplit : {ptr | ly.Has L ptr} =
      {ptr | ly.Has L ptr ∧ place ptr ≠ .free} ∪ {ptr | ly.Has L ptr ∧ place ptr = .free} := by
    ext ptr
    simp only [Set.mem_ofPred_eq, Set.mem_union]
    tauto
  have hcard := ly.ncard_entries (L := L)
  rw [hsplit, Set.ncard_union_eq (Set.disjoint_left.mpr fun ptr h h' ↦ h.2 h'.2)
    (ly.finite_entries.subset fun ptr h ↦ h.1) (ly.finite_entries.subset fun ptr h ↦ h.1), hfree]
    at hcard
  have hcount := hxs.count
  omega

theorem Mediator.Tracked.cleanNext_defined (h : σ.Tracked L cfg place)
    (hhere : σ.cleaning q = some (i, j)) : ∃ σ', σ.cleanNext L q i j = some σ' := by
  rw [Mediator.cleanNext]
  by_cases hend : (σ.pools q).config.numOfThread ≤ i
  · exact ⟨_, if_pos hend⟩
  · rw [if_neg hend]
    by_cases hskip : i = q ∨ ObjectPool.NLayers ≤ j
    · exact ⟨_, if_pos hskip⟩
    · rw [if_neg hskip]
      by_cases hpos : ((σ.pools q).caches i j).numCached > 0
      · obtain ⟨xs, hxs⟩ := h.core.cached q i j
        obtain ⟨σ', hback, -⟩ := h.handBack hhere hpos hxs
        rw [if_pos hpos, hback]
        exact ⟨_, rfl⟩
      · exact ⟨_, if_neg hpos⟩

/-- **The calls stay within defined behaviour.** `my_release` of a live entry has a result in every
pool that is not cleaning up, and so have its second half and each round of a cleanup. -/
theorem Mediator.Tracked.defined (h : σ.Tracked L cfg place) :
    (∀ id ptr, id < cfg.numOfThread → σ.live ptr → σ.returning ptr = none → σ.cleaning id = none →
      ∃ σ', PoolStep L indexFirst σ (.release id ptr) σ') ∧
    (∀ id ptr, σ.returning ptr = some id →
      ∃ m p, (σ.pools id).myRelease L σ.mem ptr = some (m, p)) ∧
    ∀ id i j, σ.cleaning id = some (i, j) → ∃ σ', σ.cleanNext L id i j = some σ' := by
  refine ⟨fun id ptr hid hlive honce hfree ↦ ?_, fun id ptr hret ↦ ?_,
    fun id i j ↦ h.cleanNext_defined⟩
  · obtain ⟨i, k, hentry, hplace⟩ := h.place_live hlive
    obtain ⟨e, he, hread, -⟩ := h.core.info i k ptr hentry hplace
    have hid' : id < (σ.pools id).config.numOfThread := by rwa [h.config id]
    by_cases hown : id = i
    · exact ⟨_, .releaseOwn hid' hlive honce hfree he (hread.trans hown.symm)⟩
    · obtain ⟨m, c, hrun, -⟩ := h.toPoolsTracked.cachePtr hid hentry hplace hown
      exact ⟨_, .releaseForeign hid' hlive honce hfree he (by rwa [hread, ne_comm]) hrun⟩
  · obtain ⟨hlive, k, hentry⟩ := h.returning ptr id hret
    obtain ⟨i', k', hentry', hplace⟩ := h.place_live hlive
    obtain ⟨m, p, hrun, -⟩ := h.toPoolsTracked.myRelease hentry hplace
    exact ⟨m, p, hrun⟩

/-- **Ownership of the entries.** Pools that share nothing but their mediator call `my_alloc`,
`my_release` and `do_period_cleanup` in any order, as long as the sizes fit into an `int`. Then each
entry of each layer is live, or in the free list of its layer, or in the cache of one other pool,
and nowhere else; `used` counts those that are live or cached; an entry that is handed out was
neither; and when a layer is deleted, none of its entries is, and no pool has anything cached for
it. -/
theorem entries_have_one_owner {arena : ℕ → ℕ} {ls : List PoolLabel}
    (ids : cfg.numOfThread ≤ 2 ^ 16)
    (size : 1 ≤ cfg.poolInitSize) (rate : 1 ≤ cfg.enlargeRate)
    (sizeFits : cfg.poolInitSize < 2 ^ 31)
    (arenas : ∀ i < cfg.numOfThread, ∀ i' < cfg.numOfThread, arena i = arena i' → i = i')
    (hinit : Mediator.initial L cfg arena = some σ₀)
    (hrun : Transition.Run (FitStep L indexFirst) σ₀ ls σ) :
    (∀ i k ptr, EntryOf L σ.pools i k ptr → ∃ l, σ.At ptr l ∧ (∀ l', σ.At ptr l' → l' = l) ∧
      (l = .live ∨ l = .free i k ∨ ∃ q, q ≠ i ∧ q < cfg.numOfThread ∧ l = .cached q i k)) ∧
    (∀ i k ly, (σ.pools i).layers k = some ly → ly.used =
      Set.ncard {ptr | ly.Has L ptr ∧ σ.At ptr .live} +
        Set.ncard {ptr | ly.Has L ptr ∧ ∃ q, σ.At ptr (.cached q i k)}) ∧
    (∀ id ptr σ', FitStep L indexFirst σ (.alloc id ptr) σ' →
      ¬σ.At ptr .live ∧ ∀ q i j, ¬σ.At ptr (.cached q i j)) ∧
    ∀ l σ' i k ly, FitStep L indexFirst σ l σ' → (σ.pools i).layers k = some ly →
      (∀ ly', (σ'.pools i).layers k = some ly' → ly'.arena ≠ ly.arena) →
      (∀ ptr, ly.Has L ptr → ¬σ'.At ptr .live ∧ ∀ q i j, ¬σ'.At ptr (.cached q i j)) ∧
        ∀ q, (σ'.pools q).caches i k = {} := by
  have hcfg : cfg.Ok := ⟨ids, size, rate⟩
  obtain ⟨place, hok⟩ := reachable_ok hcfg sizeFits arenas hinit ⟨ls, hrun⟩
  refine ⟨fun i k ptr hentry ↦ ?_, fun i k ly hly ↦ ?_, fun id ptr σ' hstep ↦ ?_,
    fun l σ' i k ly hstep hly hgone ↦ ?_⟩
  · refine ⟨(place ptr).location i k, (hok.at_iff hentry _).mpr rfl,
      fun l' ↦ (hok.at_iff hentry l').mp, ?_⟩
    cases hplace : place ptr with
    | live => exact Or.inl rfl
    | free => exact Or.inr (Or.inl rfl)
    | cached q =>
      obtain ⟨hne, hlt⟩ := hok.core.foreign i k ptr q hentry hplace
      exact Or.inr (Or.inr ⟨q, hne, hlt, rfl⟩)
  · -- An entry that is not free is live or cached, and not both.
    have hsplit : {ptr | ly.Has L ptr ∧ place ptr ≠ .free} =
        {ptr | ly.Has L ptr ∧ σ.At ptr .live} ∪
          {ptr | ly.Has L ptr ∧ ∃ q, σ.At ptr (.cached q i k)} := by
      ext ptr
      simp only [Set.mem_ofPred_eq, Set.mem_union, ← and_or_left]
      refine and_congr_right fun hhas ↦ ?_
      have hat := hok.at_iff ⟨ly, hly, hhas⟩
      simp only [hat]
      cases place ptr <;> simp [EntryPlace.location]
    have hdisjoint : Disjoint {ptr | ly.Has L ptr ∧ σ.At ptr .live}
        {ptr | ly.Has L ptr ∧ ∃ q, σ.At ptr (.cached q i k)} := by
      refine Set.disjoint_left.mpr ?_
      rintro ptr ⟨hhas, hlive⟩ ⟨-, q, hcached⟩
      rw [hok.at_iff ⟨ly, hly, hhas⟩] at hlive hcached
      rw [← hlive] at hcached
      cases hcached
    rw [hok.core.used_eq hly, hsplit, Set.ncard_union_eq hdisjoint
      (ly.finite_entries.subset fun ptr h ↦ h.1) (ly.finite_entries.subset fun ptr h ↦ h.1)]
  · obtain ⟨_, -, hmove⟩ := hok.step hcfg hstep
    refine ⟨fun hlive ↦ ?_, fun q i j hcached ↦ ?_⟩
    · obtain ⟨⟨i, k, hentry⟩, hplace⟩ := hok.not_free (Or.inl hlive)
      exact hplace (hmove.wasFree id ptr rfl i k hentry)
    · obtain ⟨⟨i, k, hentry⟩, hplace⟩ := hok.not_free (Or.inr ⟨q, i, j, hcached⟩)
      exact hplace (hmove.wasFree id ptr rfl i k hentry)
  · obtain ⟨place', hok', hmove⟩ := hok.step hcfg hstep
    refine ⟨fun ptr hhas ↦ ?_, fun q ↦ hok'.core.cache_empty fun x hentry _ ↦ ?_⟩
    · have hfree : place' ptr = .free := by
        by_contra hplace
        obtain ⟨ly', hly', hhas'⟩ := hmove.kept i k ptr ⟨ly, hly, hhas⟩ hplace
        exact hgone ly' hly' (hhas'.arena.symm.trans hhas.arena)
      exact ⟨fun hlive ↦ (hok'.not_free (Or.inl hlive)).2 hfree,
        fun q i j hcached ↦ (hok'.not_free (Or.inr ⟨q, i, j, hcached⟩)).2 hfree⟩
    · -- The layer has not come back in the same step.
      obtain ⟨ly', hly', -⟩ := hentry
      have hi := (hok.tracked hcfg).lt_of_layer hly
      have hext := (hmove.layers i).extent_eq
        ((hok.stack i hi).absent _ (Nat.lt_succ_self _)) hly hly'
      exact absurd (Prod.mk.injEq .. ▸ hext).1 (hgone ly' hly')

/-- Objects of eight bytes. -/
def wordLayout : EntryLayout where
  sizeofT := 8
  infoOf _ := 0
  nextOf _ q := q
  fresh := ⟨none, 0⟩

/-- Two pools that begin with one entry each, and whose layers double. -/
def twoPools : ObjectPoolConfig where
  numOfThread := 2
  poolInitSize := 1
  enlargeRate := 2

theorem PoolStep.of_myAlloc {id : ℕ} {arena : Option ℕ} {x : Mem × ObjectPool × Option Ptr}
    (run : (σ.pools id).myAlloc L indexFirst arena σ.mem = some x) (res : x.2.2 = some ptr)
    (lt : id < (σ.pools id).config.numOfThread) (unused : ∀ a, arena = some a → σ.Unused a) :
    PoolStep L indexFirst σ (.alloc id ptr)
      (Mediator.setPool { σ with mem := x.1, live := fun q ↦ q = ptr ∨ σ.live q } id x.2.1) :=
  .alloc lt unused (by rw [run, ← res])

theorem ThrowingStep.of_myAlloc {id : ℕ} {arena : Option ℕ} {x : Mem × ObjectPool × Option Ptr}
    (run : (σ.pools id).myAlloc L indexFirst arena σ.mem = some x) (res : x.2.2 = none)
    (lt : id < (σ.pools id).config.numOfThread) :
    ThrowingStep L indexFirst σ none (Mediator.setPool { σ with mem := x.1 } id x.2.1) :=
  @ThrowingStep.throws L indexFirst σ id arena x.1 x.2.1 lt (by rw [run, ← res])

/-- The sizes fit when those of two pools do, and there are no more. -/
theorem Mediator.SizesFit.of_two
    (first : (σ.pools 0).config.layerSize (σ.pools 0).currentLayer < 2 ^ 31)
    (second : (σ.pools 1).config.layerSize (σ.pools 1).currentLayer < 2 ^ 31)
    (rest : ∀ i, (σ.pools (i + 2)).config.numOfThread = 2) : σ.SizesFit := by
  intro i hi
  match i with
  | 0 => exact first
  | 1 => exact second
  | i + 2 =>
    rw [rest] at hi
    omega

/-- Pool `0` grows by a layer of two entries. They are handed out and released, through pool `0` and
through pool `1`. The layer is deleted when pool `1` cleans up. -/
theorem entries_have_one_owner_returned :
    ∃ σ₀ σ σ', Mediator.initial wordLayout twoPools (fun i ↦ i) = some σ₀ ∧
      Transition.Run (FitStep wordLayout false) σ₀ [.alloc 0 ⟨0, 0⟩, .alloc 0 ⟨2, 0⟩,
        .alloc 0 ⟨2, 16⟩, .release 0 ⟨2, 0⟩, .other, .release 1 ⟨2, 16⟩, .period 1, .other] σ ∧
      σ.At ⟨2, 16⟩ (.cached 1 0 1) ∧ FitStep wordLayout false σ .other σ' ∧
      (∃ ly, (σ.pools 0).layers 1 = some ly ∧ ly.Has wordLayout ⟨2, 16⟩ ∧
        (σ'.pools 0).layers 1 = none) ∧
      ¬σ'.At ⟨2, 16⟩ .live ∧ ∀ q, (σ'.pools q).caches 0 1 = {} := by
  obtain ⟨σ₀, σ₁, σ₂, σ₃, σ₄, σ₅, σ₆, σ₇, σ, σ', hinit, h₁, h₂, h₃, h₄, h₅, h₆, h₇, h, h', f₁, f₂,
      f₃, f₄, f₅, f₆, f₇, f, f', hcached, hly, hnone⟩ :
      ∃ σ₀ σ₁ σ₂ σ₃ σ₄ σ₅ σ₆ σ₇ σ σ', Mediator.initial wordLayout twoPools (fun i ↦ i) = some σ₀ ∧
        PoolStep wordLayout false σ₀ (.alloc 0 ⟨0, 0⟩) σ₁ ∧
        PoolStep wordLayout false σ₁ (.alloc 0 ⟨2, 0⟩) σ₂ ∧
        PoolStep wordLayout false σ₂ (.alloc 0 ⟨2, 16⟩) σ₃ ∧
        PoolStep wordLayout false σ₃ (.release 0 ⟨2, 0⟩) σ₄ ∧
        PoolStep wordLayout false σ₄ .other σ₅ ∧
        PoolStep wordLayout false σ₅ (.release 1 ⟨2, 16⟩) σ₆ ∧
        PoolStep wordLayout false σ₆ (.period 1) σ₇ ∧ PoolStep wordLayout false σ₇ .other σ ∧
        PoolStep wordLayout false σ .other σ' ∧
        σ₁.SizesFit ∧ σ₂.SizesFit ∧ σ₃.SizesFit ∧ σ₄.SizesFit ∧ σ₅.SizesFit ∧ σ₆.SizesFit ∧
        σ₇.SizesFit ∧ σ.SizesFit ∧ σ'.SizesFit ∧
        (σ.pools 1).caches 0 1 = ⟨some ⟨2, 16⟩, some ⟨2, 16⟩, 1⟩ ∧
        ((σ.pools 0).layers 1).map ObjectLayer.extent = some (2, 2) ∧
        (σ'.pools 0).layers 1 = none := by
    refine ⟨_, _, _, _, _, _, _, _, _, _, rfl,
      @PoolStep.of_myAlloc wordLayout false _ _ 0 none _ (Option.some_get (by decide)).symm
        (by decide) (by decide) (fun _ h ↦ by cases h),
      @PoolStep.of_myAlloc wordLayout false _ _ 0 (some 2) _ (Option.some_get (by decide)).symm
        (by decide) (by decide) (fun a ha i k ly hly heq ↦ ?_),
      @PoolStep.of_myAlloc wordLayout false _ _ 0 none _ (Option.some_get (by decide)).symm
        (by decide) (by decide) (fun _ h ↦ by cases h),
      @PoolStep.releaseOwn wordLayout false _ 0 _ _ (by decide) (Or.inr (Or.inl rfl)) (by decide)
        (by decide) (Option.some_get (by decide)).symm (by decide),
      @PoolStep.returned wordLayout false _ 0 ⟨2, 0⟩ _ _ (by decide)
      (Option.some_get (by decide)).symm,
      @PoolStep.releaseForeign wordLayout false _ 1 _ _ _ _ (by decide) ⟨by decide, Or.inl rfl⟩
        (by decide) (by decide) (Option.some_get (by decide)).symm (by decide)
        (Option.some_get (by decide)).symm,
      @PoolStep.period wordLayout false _ 1 (by decide) (by decide),
      @PoolStep.clean wordLayout false _ 1 0 0 _ (by decide) (Option.some_get (by decide)).symm,
      @PoolStep.clean wordLayout false _ 1 0 1 _ (by decide) (Option.some_get (by decide)).symm,
      .of_two (by decide) (by decide) fun _ ↦ rfl, .of_two (by decide) (by decide) fun _ ↦ rfl,
      .of_two (by decide) (by decide) fun _ ↦ rfl, .of_two (by decide) (by decide) fun _ ↦ rfl,
      .of_two (by decide) (by decide) fun _ ↦ rfl, .of_two (by decide) (by decide) fun _ ↦ rfl,
      .of_two (by decide) (by decide) fun _ ↦ rfl, .of_two (by decide) (by decide) fun _ ↦ rfl,
      .of_two (by decide) (by decide) fun _ ↦ rfl,
      by decide, by decide, Option.isNone_iff_eq_none.mp (by decide)⟩
    cases ha
    rcases i with _ | _ | i <;> rcases k with _ | k <;> cases hly <;> cases heq
  obtain ⟨ly, hly, hext⟩ := Option.map_eq_some_iff.mp hly
  rw [ObjectLayer.extent, Prod.mk.injEq] at hext
  have hhas : ly.Has wordLayout ⟨2, 16⟩ := ⟨1, by rw [hext.2]; decide, by rw [hext.1]; rfl⟩
  have hstart : Transition.Run (FitStep wordLayout false) σ₀ [] σ₀ := .refl
  have hrun := (((((((hstart.snoc ⟨h₁, f₁⟩).snoc ⟨h₂, f₂⟩).snoc ⟨h₃, f₃⟩).snoc ⟨h₄, f₄⟩).snoc
    ⟨h₅, f₅⟩).snoc ⟨h₆, f₆⟩).snoc ⟨h₇, f₇⟩).snoc ⟨h, f⟩
  obtain ⟨hentries, hcaches⟩ := (entries_have_one_owner (by decide) (by decide) (by decide)
    (by decide)
    (fun i _ i' _ h ↦ h) hinit hrun).2.2.2 .other σ' 0 1 ly ⟨h', f'⟩ hly fun ly' hly' ↦ by
      rw [hnone] at hly'
      cases hly'
  refine ⟨σ₀, σ, σ', hinit, hrun, ⟨[⟨2, 16⟩], ?_, List.mem_singleton_self _⟩, ⟨h', f'⟩,
    ⟨ly, hly, hhas, hnone⟩, (hentries _ hhas).1, hcaches⟩
  rw [hcached]
  exact Or.inr ⟨[], ⟨2, 16⟩, rfl, rfl, rfl, rfl⟩
end TYThread
