import TYThread.Library.Counting
import TYThread.Library.Transition
import TYThread.Pool.Calls

/-!
# Steps of a mediator

`Mediator.Tracked` adds to `PoolsTracked` what holds of the calls that are going on: which entries
are live, what is known of an entry between the two locks of `my_release`, and how far
`cleanup_all_cache` has got. Every step preserves it, and `StepMove` says what else a step does: to
the layers of each pool, to its caches, and to the entries. A step that allocates nothing only takes
layers away whose entries are all free.
-/

namespace TYThread

open LinkedList

/-- `place` is where the entries are, whatever the sizes of the layers are. -/
structure Mediator.Tracked (L : EntryLayout) (cfg : ObjectPoolConfig) (σ : Mediator)
    (place : Ptr → EntryPlace) : Prop extends PoolsTracked L cfg σ.mem σ.pools place where
  live : ∀ ptr, σ.live ptr ↔ ∃ i k, EntryOf L σ.pools i k ptr ∧ place ptr = .live
  returning : ∀ ptr i, σ.returning ptr = some i → σ.live ptr ∧ ∃ k, EntryOf L σ.pools i k ptr
  total : ∀ q, σ.cleaning q = none → (σ.pools q).totalCached = 0 →
    ∀ i j, (σ.pools q).caches i j = {}
  cursor : ∀ q i j, σ.cleaning q = some (i, j) → ∀ i' j', i' < i ∨ i' = i ∧ j' < j →
    (σ.pools q).caches i' j' = {}
  busy : ∀ q, σ.cleaning q ≠ none → q < cfg.numOfThread

/-- What a step does to the caches of pool `q`: nothing, or an entry is put into one of them, a
cleanup begins, or it goes on by a round. -/
inductive CacheMove (L : EntryLayout) (cfg : ObjectPoolConfig) (l : PoolLabel) (σ : Mediator)
    (q : ℕ) (σ' : Mediator) : Prop
  | rest (label : l ≠ .period q) (caches : (σ'.pools q).caches = (σ.pools q).caches)
      (totalCached : (σ'.pools q).totalCached = (σ.pools q).totalCached)
      (cleaning : σ'.cleaning q = σ.cleaning q)
      (holds : ∀ i j xs, CacheHolds σ.mem ((σ.pools q).caches i j) xs →
        CacheHolds σ'.mem ((σ.pools q).caches i j) xs)
  | put {i j : ℕ} {c : PerLayerCache} {ptr : Ptr} (label : l = .release q ptr)
      (idle : σ.cleaning q = none) (lt : i < cfg.numOfThread) (lt' : j < ObjectPool.NLayers)
      (numCached : c.numCached = ((σ.pools q).caches i j).numCached + 1)
      (caches : (σ'.pools q).caches = ((σ.pools q).setCache i j c).caches)
      (totalCached : (σ'.pools q).totalCached = (σ.pools q).totalCached + 1)
      (cleaning : σ'.cleaning q =
        if cfg.maxTotalCached < (σ'.pools q).totalCached then some (0, 0) else none)
  | period (label : l = .period q) (idle : σ.cleaning q = none)
      (caches : (σ'.pools q).caches = (σ.pools q).caches)
      (totalCached : (σ'.pools q).totalCached = (σ.pools q).totalCached)
      (cleaning : σ'.cleaning q = if (σ.pools q).totalCached ≠ 0 then some (0, 0) else none)
  | round {i j : ℕ} (here : σ.cleaning q = some (i, j)) (run : σ.cleanNext L q i j = some σ')

/-- What a step does, seen from the pools and their entries. -/
structure StepMove (L : EntryLayout) (cfg : ObjectPoolConfig) (l : PoolLabel) (σ : Mediator)
    (place : Ptr → EntryPlace) (σ' : Mediator) (place' : Ptr → EntryPlace) : Prop where
  tracked : σ'.Tracked L cfg place'
  layers : ∀ i, LayersMove (σ.pools i) (σ'.pools i)
  caches : ∀ q, CacheMove L cfg l σ q σ'
  kept : ∀ i k ptr, EntryOf L σ.pools i k ptr → place' ptr ≠ .free → EntryOf L σ'.pools i k ptr
  shrunk : (∀ id ptr, l ≠ .alloc id ptr) → Shrunk L σ.pools σ'.pools place'
  wasFree : ∀ id ptr, l = .alloc id ptr → ∀ i k, EntryOf L σ.pools i k ptr → place ptr = .free

variable {L : EntryLayout} {cfg : ObjectPoolConfig} {indexFirst : Bool} {σ σ' : Mediator}
  {place place' : Ptr → EntryPlace} {l : PoolLabel} {id i j k q : ℕ} {ptr x : Ptr} {xs : List Ptr}
  {m m' : Mem} {pools : ℕ → ObjectPool} {p p' : ObjectPool}

/-! ## Caches -/

theorem Core.cache_empty {n : ℕ} (h : Core L n m pools place)
    (hnone : ∀ ptr, EntryOf L pools i j ptr → place ptr ≠ .cached q) :
    (pools q).caches i j = {} := by
  obtain ⟨xs, hxs⟩ := h.cached q i j
  rcases hxs.holds with ⟨-, hcache⟩ | ⟨ys, t, rfl, -⟩
  · exact hcache
  · obtain ⟨hentry, hplace⟩ :=
      (hxs.mem t).mp (List.mem_append_right ys (List.mem_singleton_self t))
    exact absurd hplace (hnone t hentry)

theorem Core.own_cache_empty {n : ℕ} (h : Core L n m pools place) (i j : ℕ) :
    (pools i).caches i j = {} :=
  h.cache_empty fun ptr hentry hplace ↦ (h.foreign i j ptr i hentry hplace).1 rfl

theorem PoolsTracked.outer_cache_empty (h : PoolsTracked L cfg m pools place) (q : ℕ)
    (hout : cfg.numOfThread ≤ i ∨ ObjectPool.NLayers ≤ j) : (pools q).caches i j = {} := by
  refine h.core.cache_empty fun ptr hentry _ ↦ ?_
  obtain ⟨hi, -, hj⟩ := h.lt_of_entry hentry
  rcases hout with hle | hle
  · exact absurd hi (Nat.not_lt.mpr hle)
  · exact absurd hj (Nat.not_lt.mpr hle)

theorem Core.cache_eq_of_numCached {n : ℕ} (h : Core L n m pools place)
    (hzero : ((pools q).caches i j).numCached = 0) : (pools q).caches i j = {} := by
  obtain ⟨xs, hxs⟩ := h.cached q i j
  rcases hxs.holds with ⟨-, hcache⟩ | ⟨ys, t, rfl, -, -, hnum⟩
  · exact hcache
  · rw [hnum, List.length_append, List.length_singleton] at hzero
    exact absurd hzero (Nat.succ_ne_zero _)

/-- A cache whose entries have not been written to holds what it held before. -/
theorem Core.holds_of_kept {n : ℕ} (h : Core L n m pools place)
    (hxs : CacheHolds m ((pools q).caches i j) xs)
    (hkept : ∀ x ∈ xs, EntryOf L pools i j x → place x = .cached q → m' x = m x) :
    CacheHolds m' ((pools q).caches i j) xs := by
  obtain ⟨ys, hys⟩ := h.cached q i j
  obtain rfl := hxs.unique hys.holds
  refine hxs.congr fun x hx ↦ ?_
  obtain ⟨hentry, hplace⟩ := (hys.mem x).mp hx
  rw [Mem.nextOf, hkept x hx hentry hplace, Mem.nextOf]

/-- Pool `q` keeps its caches, and no cached entry has been written to. -/
theorem CacheMove.of_kept {n : ℕ} (h : Core L n σ.mem σ.pools place) (hlabel : l ≠ .period q)
    (hcaches : (σ'.pools q).caches = (σ.pools q).caches)
    (htotal : (σ'.pools q).totalCached = (σ.pools q).totalCached)
    (hcleaning : σ'.cleaning q = σ.cleaning q) (hkept : CachedKept L σ.pools place σ.mem σ'.mem) :
    CacheMove L cfg l σ q σ' :=
  .rest hlabel hcaches htotal hcleaning fun i j _ hxs ↦
    h.holds_of_kept hxs fun x _ hentry hplace ↦ hkept i j x q hentry hplace

/-! ## Layers -/

theorem LayersMove.refl (p : ObjectPool) : LayersMove p p := .rest rfl rfl rfl

theorem LayersMove.update (h : LayersMove (pools id) p) (i : ℕ) :
    LayersMove (pools i) (Function.update pools id p i) := by
  by_cases hi : i = id
  · rw [hi, Function.update_self]
    exact h
  · rw [Function.update_of_ne hi]
    exact .refl _

theorem StepMove.of_shrunk (hne : ∀ id ptr, l ≠ .alloc id ptr) (htracked : σ'.Tracked L cfg place')
    (hlayers : ∀ i, LayersMove (σ.pools i) (σ'.pools i)) (hcaches : ∀ q, CacheMove L cfg l σ q σ')
    (hshrunk : Shrunk L σ.pools σ'.pools place') : StepMove L cfg l σ place σ' place' :=
  ⟨htracked, hlayers, hcaches, hshrunk.kept, fun _ ↦ hshrunk,
    fun id ptr heq ↦ absurd heq (hne id ptr)⟩

/-! ## What `my_alloc` does to the entries -/

section

variable (h : AllocMove L m pools place id ptr m' p' place')

include h

theorem AllocMove.caches_eq : p'.caches = (pools id).caches := by
  cases h with
  | taken layer has free extent used pool => rw [pool]; rfl
  | grown full unused arena has used cap currentLayer currentSize layers caches => exact caches

theorem AllocMove.totalCached_eq : p'.totalCached = (pools id).totalCached := by
  cases h with
  | taken layer has free extent used pool => rw [pool]; rfl
  | grown full unused arena has used cap currentLayer currentSize layers caches totalCached =>
    exact totalCached

theorem AllocMove.layersMove : LayersMove (pools id) p' := by
  cases h with
  | taken layer has free extent used pool =>
    exact .taken layer extent (by rw [used]; exact Nat.succ_pos _) pool
  | grown full unused arena has used cap currentLayer currentSize layers =>
    exact .grown currentLayer layers currentSize cap (by rw [used]; exact Nat.succ_pos _)

theorem AllocMove.wasFree (hentry : EntryOf L pools i k ptr) : place ptr = .free := by
  cases h with
  | taken layer has free => exact free
  | grown full unused arena has =>
    obtain ⟨ly, hly, hhas⟩ := hentry
    exact absurd (by rw [← hhas.arena, has.arena, arena]) (unused i k ly hly)

theorem AllocMove.of_ne (hentry : EntryOf L pools i k x) (hx : x ≠ ptr) :
    place' x = place x ∧ m' x = m x := by
  cases h with
  | taken layer has free extent used pool mem moved =>
    rw [moved, Function.update_of_ne hx]
    exact ⟨rfl, mem x hx⟩
  | @grown b ly full unused arena has used cap currentLayer currentSize layers caches
      totalCached mem moved =>
    obtain ⟨ly₁, hly₁, hhas₁⟩ := hentry
    have hne : x.arena ≠ b := by rw [hhas₁.arena]; exact unused i k ly₁ hly₁
    rw [moved, Function.update_of_ne hx]
    exact ⟨if_neg hne, mem x hne⟩

theorem AllocMove.entryOf (hshape : StackShape cfg id (pools id)) (hentry : EntryOf L pools i k x) :
    EntryOf L (Function.update pools id p') i k x := by
  cases h with
  | taken layer has free extent used pool =>
    rw [pool]
    exact (sameArenas_update layer extent).entryOf.mpr hentry
  | grown full unused arena has used cap currentLayer currentSize layers =>
    obtain ⟨ly₁, hly₁, hhas₁⟩ := hentry
    refine ⟨ly₁, ?_, hhas₁⟩
    by_cases hi : i = id
    · subst hi
      have hk := hshape.le_of_layer hly₁
      rw [Function.update_self, layers, Function.update_of_ne (by omega), hly₁]
    · rwa [Function.update_of_ne hi]

theorem AllocMove.live_self :
    place' ptr = .live ∧ ∃ k, EntryOf L (Function.update pools id p') id k ptr := by
  cases h with
  | @taken k ly ly' layer has free extent used pool mem moved =>
    rw [moved, pool, Function.update_self]
    exact ⟨rfl, k, (sameArenas_update layer extent).entryOf.mpr ⟨ly, layer, has⟩⟩
  | @grown b ly full unused arena has used cap currentLayer currentSize layers caches
      totalCached mem moved =>
    rw [moved, Function.update_self]
    refine ⟨rfl, (pools id).currentLayer + 1, ly, ?_, has⟩
    rw [Function.update_self, layers, Function.update_self]

theorem AllocMove.live_of_ne (hx : x ≠ ptr) (hlive : place' x = .live)
    (hentry : EntryOf L (Function.update pools id p') i k x) :
    EntryOf L pools i k x ∧ place x = .live := by
  cases h with
  | taken layer has free extent used pool mem moved =>
    rw [moved, Function.update_of_ne hx] at hlive
    rw [pool] at hentry
    exact ⟨(sameArenas_update layer extent).entryOf.mp hentry, hlive⟩
  | @grown b ly full unused arena has used cap currentLayer currentSize layers caches
      totalCached mem moved =>
    have hne : x.arena ≠ b := by
      intro harena
      rw [moved, Function.update_of_ne hx, allocated, if_pos harena] at hlive
      cases hlive
    rw [moved, Function.update_of_ne hx, allocated, if_neg hne] at hlive
    refine ⟨?_, hlive⟩
    obtain ⟨ly₁, hly₁, hhas₁⟩ := hentry
    refine ⟨ly₁, ?_, hhas₁⟩
    by_cases hi : i = id
    · subst hi
      rw [Function.update_self, layers] at hly₁
      by_cases hk : k = (pools i).currentLayer + 1
      · rw [hk, Function.update_self, Option.some.injEq] at hly₁
        subst hly₁
        exact absurd (hhas₁.arena.trans arena) hne
      · rwa [Function.update_of_ne hk] at hly₁
    · rwa [Function.update_of_ne hi] at hly₁

theorem AllocMove.cachedKept : CachedKept L pools place m m' := by
  intro i k x q hentry hplace
  refine (h.of_ne hentry ?_).2
  rintro rfl
  rw [h.wasFree hentry] at hplace
  cases hplace

end

/-! ## Steps -/

/-- The pools have changed, but not their caches, and no call has entered or left. -/
theorem Mediator.Tracked.congr (h : σ.Tracked L cfg place)
    (hpools : PoolsTracked L cfg σ'.mem σ'.pools place')
    (hlive : ∀ ptr, σ'.live ptr ↔ ∃ i k, EntryOf L σ'.pools i k ptr ∧ place' ptr = .live)
    (hreturning : ∀ ptr i, σ'.returning ptr = some i →
      σ.returning ptr = some i ∧ σ'.live ptr ∧ place' ptr ≠ .free)
    (hkept : ∀ i k ptr, EntryOf L σ.pools i k ptr → place' ptr ≠ .free → EntryOf L σ'.pools i k ptr)
    (hcleaning : σ'.cleaning = σ.cleaning)
    (hcaches : ∀ q, (σ'.pools q).caches = (σ.pools q).caches)
    (htotal : ∀ q, (σ'.pools q).totalCached = (σ.pools q).totalCached) :
    σ'.Tracked L cfg place' := by
  refine ⟨hpools, hlive, fun ptr i hret ↦ ?_, fun q hq hzero ↦ ?_, fun q i j hq ↦ ?_,
    by rw [hcleaning]; exact h.busy⟩
  · obtain ⟨hret', hl, hplace⟩ := hreturning ptr i hret
    obtain ⟨-, k, hentry⟩ := h.returning ptr i hret'
    exact ⟨hl, k, hkept i k ptr hentry hplace⟩
  · rw [hcleaning] at hq
    rw [htotal] at hzero
    rw [hcaches]
    exact h.total q hq hzero
  · rw [hcleaning] at hq
    rw [hcaches]
    exact h.cursor q i j hq

theorem Mediator.Tracked.place_live (h : σ.Tracked L cfg place) (hl : σ.live ptr) :
    ∃ i k, EntryOf L σ.pools i k ptr ∧ place ptr = .live := (h.live ptr).mp hl

theorem Mediator.Tracked.alloc (h : σ.Tracked L cfg place) (hids : cfg.numOfThread ≤ 2 ^ 16)
    {arena : Option ℕ} (hlt : id < cfg.numOfThread) (hunused : ∀ a, arena = some a → σ.Unused a)
    (hrun : (σ.pools id).myAlloc L indexFirst arena σ.mem = some (m, p, some ptr)) :
    ∃ place', StepMove L cfg (.alloc id ptr) σ place
      (Mediator.setPool { σ with mem := m, live := fun q ↦ q = ptr ∨ σ.live q } id p) place' := by
  obtain ⟨place', hmove, hpools⟩ :=
    h.toPoolsTracked.myAlloc hids hlt (fun b hb ↦ hunused b hb) hrun
  have hcaches := Counting.apply_update_eq (f := σ.pools) ObjectPool.caches hmove.caches_eq
  have htotal := Counting.apply_update_eq (f := σ.pools) ObjectPool.totalCached hmove.totalCached_eq
  have hentry : ∀ i k x, EntryOf L σ.pools i k x → EntryOf L (Function.update σ.pools id p) i k x :=
    fun i k x ↦ hmove.entryOf (h.shape id hlt)
  refine ⟨place', h.congr hpools (fun x ↦ ?_) (fun x i hret ↦ ?_)
    (fun i k x hx _ ↦ hentry i k x hx) rfl hcaches htotal, hmove.layersMove.update,
    fun q ↦ .of_kept h.core (by simp) (hcaches q) (htotal q) rfl hmove.cachedKept,
    fun i k x hx _ ↦ hentry i k x hx, fun hne ↦ absurd rfl (hne id ptr),
      fun id' ptr' heq i k hx ↦ ?_⟩
  · change (x = ptr ∨ σ.live x) ↔ _
    by_cases hx : x = ptr
    · obtain ⟨hlive, k, hself⟩ := hmove.live_self
      rw [hx]
      exact iff_of_true (Or.inl rfl) ⟨id, k, hself, hlive⟩
    · rw [or_iff_right hx, h.live]
      constructor
      · rintro ⟨i, k, hold, hlive⟩
        exact ⟨i, k, hentry i k x hold, by rw [(hmove.of_ne hold hx).1, hlive]⟩
      · rintro ⟨i, k, hnew, hlive⟩
        exact ⟨i, k, hmove.live_of_ne hx hlive hnew⟩
  · have hl := (h.returning x i hret).1
    refine ⟨hret, Or.inr hl, ?_⟩
    obtain ⟨i', k', hold, hlive⟩ := h.place_live hl
    by_cases hx : x = ptr
    · rw [hx, hmove.live_self.1]
      simp
    · rw [(hmove.of_ne hold hx).1, hlive]
      simp
  · rw [PoolLabel.alloc.injEq] at heq
    rw [← heq.2] at hx ⊢
    exact hmove.wasFree hx

theorem Mediator.Tracked.use (h : σ.Tracked L cfg place) (hl : σ.live ptr) {e : FakeEntry}
    (hread : σ.mem ptr = some e) (q : Option Ptr) :
    StepMove L cfg .other σ place
      { σ with mem := Function.update σ.mem ptr (some { e with next := q }) } place := by
  obtain ⟨i, k, hentry, hplace⟩ := h.place_live hl
  have htracked : Mediator.Tracked L cfg
      { σ with mem := Function.update σ.mem ptr (some { e with next := q }) } place := by
    refine h.congr ⟨h.toShapes, h.core.use hentry hplace hread q⟩ h.live (fun x i' hret ↦ ?_)
      (fun _ _ _ hentry _ ↦ hentry) rfl (fun _ ↦ rfl) fun _ ↦ rfl
    obtain ⟨hl', -⟩ := h.returning x i' hret
    obtain ⟨-, -, -, hplace'⟩ := h.place_live hl'
    refine ⟨hret, hl', ?_⟩
    rw [hplace']
    simp
  refine .of_shrunk (by simp) htracked (fun _ ↦ .refl _)
    (fun q' ↦ .of_kept h.core (by simp) rfl rfl rfl
    fun i' k' x q₁ _ hcached ↦ Function.update_of_ne ?_ ..)
    ((sameArenas_of_layers fun _ ↦ rfl).shrunk place)
  rintro rfl
  rw [hplace] at hcached
  cases hcached

theorem Mediator.Tracked.releaseOwn (h : σ.Tracked L cfg place) (hl : σ.live ptr) {e : FakeEntry}
    (hread : σ.mem ptr = some e) (hown : e.readId = id) :
    StepMove L cfg (.release id ptr) σ place
      { σ with returning := Function.update σ.returning ptr (some id) } place := by
  refine .of_shrunk (by simp) ⟨h.toPoolsTracked, h.live, fun x i hret ↦ ?_, h.total, h.cursor,
    h.busy⟩ (fun _ ↦ .refl _) (fun q ↦ .of_kept h.core (by simp) rfl rfl rfl fun _ _ _ _ _ _ ↦ rfl)
    ((sameArenas_of_layers fun _ ↦ rfl).shrunk place)
  change Function.update σ.returning ptr (some id) x = some i at hret
  change σ.live x ∧ ∃ k, EntryOf L σ.pools i k x
  by_cases hx : x = ptr
  · rw [hx, Function.update_self, Option.some.injEq] at hret
    obtain ⟨i', k, hentry, hplace⟩ := h.place_live hl
    obtain ⟨e', he', hid, -⟩ := h.core.info i' k ptr hentry hplace
    rw [hread, Option.some.injEq] at he'
    rw [← he', hown, hret] at hid
    rw [hx, hid]
    exact ⟨hl, k, hentry⟩
  · rw [Function.update_of_ne hx] at hret
    exact h.returning x i hret

theorem Mediator.Tracked.returned (h : σ.Tracked L cfg place) (hhere : σ.returning ptr = some id)
    (hrun : (σ.pools id).myRelease L σ.mem ptr = some (m, p)) :
    ∃ place', StepMove L cfg .other σ place (Mediator.setPool { σ with
        mem := m
        live := fun q ↦ q ≠ ptr ∧ σ.live q
        returning := Function.update σ.returning ptr none } id p) place' := by
  obtain ⟨hl, k, hentry⟩ := h.returning ptr id hhere
  obtain ⟨i', k', hentry', hplace⟩ := h.place_live hl
  obtain ⟨m₁, p₁, hrun₁, hpools, hshrunk, hmove, hcaches, htotal, hkept⟩ :=
    h.toPoolsTracked.myRelease hentry hplace
  rw [hrun, Option.some.injEq, Prod.mk.injEq] at hrun₁
  obtain ⟨rfl, rfl⟩ := hrun₁
  have hcaches' := Counting.apply_update_eq (f := σ.pools) ObjectPool.caches hcaches
  have htotal' := Counting.apply_update_eq (f := σ.pools) ObjectPool.totalCached htotal
  refine ⟨_, .of_shrunk (by simp) (h.congr hpools (fun x ↦ ?_) (fun x i hret ↦ ?_) hshrunk.kept rfl
    hcaches' htotal') hmove.update
    (fun q ↦ .of_kept h.core (by simp) (hcaches' q) (htotal' q) rfl hkept) hshrunk⟩
  · change (x ≠ ptr ∧ σ.live x) ↔ _
    by_cases hx : x = ptr
    · rw [hx, Function.update_self]
      refine iff_of_false (fun h ↦ h.1 rfl) ?_
      rintro ⟨_, _, _, h⟩
      cases h
    · rw [and_iff_right hx, h.live, Function.update_of_ne hx]
      refine exists_congr fun i ↦ exists_congr fun k ↦ and_congr_left fun hpl ↦
        ⟨fun hentry ↦ hshrunk.kept i k x hentry ?_, hshrunk.entryOf⟩
      rw [Function.update_of_ne hx, hpl]
      simp
  · change Function.update σ.returning ptr none x = some i at hret
    by_cases hx : x = ptr
    · rw [hx, Function.update_self] at hret
      cases hret
    · rw [Function.update_of_ne hx] at hret
      have hl' := (h.returning x i hret).1
      obtain ⟨-, -, -, hplace'⟩ := h.place_live hl'
      refine ⟨hret, ⟨hx, hl'⟩, ?_⟩
      rw [Function.update_of_ne hx, hplace']
      simp

theorem Mediator.Tracked.setCleaning (h : σ.Tracked L cfg place) (hlt : id < cfg.numOfThread)
    {c : Option (ℕ × ℕ)}
    (htotal : c = none → (σ.pools id).totalCached = 0 → ∀ i j, (σ.pools id).caches i j = {})
    (hcursor : ∀ i j, c = some (i, j) → ∀ i' j', i' < i ∨ i' = i ∧ j' < j →
      (σ.pools id).caches i' j' = {}) : Mediator.Tracked L cfg (σ.setCleaning id c) place := by
  refine ⟨h.toPoolsTracked, h.live, h.returning, fun q hq hzero ↦ ?_, fun q i j hq ↦ ?_,
    fun q hq ↦ ?_⟩
  · change Function.update σ.cleaning id c q = none at hq
    by_cases hqid : q = id
    · subst hqid
      rw [Function.update_self] at hq
      exact htotal hq hzero
    · rw [Function.update_of_ne hqid] at hq
      exact h.total q hq hzero
  · change Function.update σ.cleaning id c q = some (i, j) at hq
    by_cases hqid : q = id
    · subst hqid
      rw [Function.update_self] at hq
      exact hcursor i j hq
    · rw [Function.update_of_ne hqid] at hq
      exact h.cursor q i j hq
  · change Function.update σ.cleaning id c q ≠ none at hq
    by_cases hqid : q = id
    · rwa [hqid]
    · rw [Function.update_of_ne hqid] at hq
      exact h.busy q hq

theorem not_before_first {P : Prop} [Decidable P] {i' j' : ℕ}
    (h : (if P then some ((0 : ℕ), (0 : ℕ)) else none) = some (i, j)) :
    ¬(i' < i ∨ i' = i ∧ j' < j) := by
  split at h
  · rw [Option.some.injEq, Prod.mk.injEq] at h
    omega
  · cases h

theorem Mediator.Tracked.releaseForeign (h : σ.Tracked L cfg place) {e : FakeEntry}
    (hlt : id < cfg.numOfThread) (hl : σ.live ptr) (honce : σ.returning ptr = none)
    (hfree : σ.cleaning id = none) (hread : σ.mem ptr = some e) (hforeign : e.readId ≠ id)
    (hrun : (σ.pools id).cachePtr L σ.mem ptr = some (m, p)) :
    ∃ place', StepMove L cfg (.release id ptr) σ place
      ((Mediator.setPool { σ with mem := m, live := fun q ↦ q ≠ ptr ∧ σ.live q } id p).setCleaning
        id (if p.config.maxTotalCached < p.totalCached then some (0, 0) else none)) place' := by
  obtain ⟨i, k, hentry, hplace⟩ := h.place_live hl
  have hqi : id ≠ i := by
    obtain ⟨e', he', hid, -⟩ := h.core.info i k ptr hentry hplace
    rw [hread, Option.some.injEq] at he'
    rw [← hid, ← he']
    exact hforeign.symm
  obtain ⟨hi, -, hk⟩ := h.lt_of_entry hentry
  obtain ⟨m₁, c, hrun₁, hpools, hnum, hkept⟩ := h.toPoolsTracked.cachePtr hlt hentry hplace hqi
  rw [hrun, Option.some.injEq, Prod.mk.injEq] at hrun₁
  obtain ⟨rfl, rfl⟩ := hrun₁
  have hsame : SameArenas σ.pools (Function.update σ.pools id
      { (σ.pools id).setCache i k c with totalCached := (σ.pools id).totalCached + 1 }) :=
    sameArenas_of_layers (Counting.apply_update_eq ObjectPool.layers rfl)
  -- What is to be shown before it is tested whether the caches are full.
  have htracked : Mediator.Tracked L cfg
      (Mediator.setPool { σ with mem := m, live := fun q ↦ q ≠ ptr ∧ σ.live q } id
        { (σ.pools id).setCache i k c with totalCached := (σ.pools id).totalCached + 1 })
      (Function.update place ptr (.cached id)) := by
    refine ⟨hpools, fun x ↦ ?_, fun x i' hret ↦ ?_, fun q hq hzero ↦ ?_, fun q i' j' hq ↦ ?_,
      h.busy⟩
    · change (x ≠ ptr ∧ σ.live x) ↔ _
      by_cases hx : x = ptr
      · rw [hx, Function.update_self]
        refine iff_of_false (fun h ↦ h.1 rfl) ?_
        rintro ⟨_, _, _, h⟩
        cases h
      · rw [and_iff_right hx, h.live, Function.update_of_ne hx]
        exact exists_congr fun i ↦ exists_congr fun k ↦ and_congr_left fun _ ↦ hsame.entryOf.symm
    · have hx : x ≠ ptr := by
        rintro rfl
        rw [show σ.returning x = some i' from hret] at honce
        cases honce
      obtain ⟨hl', k', hentry'⟩ := h.returning x i' hret
      exact ⟨⟨hx, hl'⟩, k', hsame.entryOf.mpr hentry'⟩
    · change (Function.update σ.pools id _ q).totalCached = 0 at hzero
      change ∀ i j, (Function.update σ.pools id _ q).caches i j = {}
      by_cases hqid : q = id
      · rw [hqid, Function.update_self] at hzero
        exact absurd hzero (Nat.succ_ne_zero _)
      · rw [Function.update_of_ne hqid] at hzero ⊢
        exact h.total q hq hzero
    · have hqid : q ≠ id := by
        rintro rfl
        rw [show σ.cleaning q = some (i', j') from hq] at hfree
        cases hfree
      change ∀ i j, _ → (Function.update σ.pools id _ q).caches i j = {}
      rw [Function.update_of_ne hqid]
      exact h.cursor q i' j' hq
  refine ⟨_, .of_shrunk (by simp) (htracked.setCleaning hlt (fun _ ↦ htracked.total id hfree)
    fun i j hat i' j' hbefore ↦ absurd hbefore (not_before_first hat))
    (LayersMove.update (.rest rfl rfl rfl)) (fun q ↦ ?_) (hsame.shrunk _)⟩
  by_cases hqid : q = id
  · subst hqid
    refine .put rfl hfree hi hk hnum ?_ ?_ ?_
    · change (Function.update σ.pools q _ q).caches = _
      rw [Function.update_self]
    · change (Function.update σ.pools q _ q).totalCached = _
      rw [Function.update_self]
    · change Function.update σ.cleaning q _ q =
        if _ < ((Function.update σ.pools q _ q).totalCached : ℤ) then _ else _
      rw [Function.update_self, Function.update_self, ← h.config q]
      rfl
  · exact .of_kept h.core (by simp) (congrArg ObjectPool.caches (Function.update_of_ne hqid ..))
      (congrArg ObjectPool.totalCached (Function.update_of_ne hqid ..))
      (Function.update_of_ne hqid ..) hkept

theorem Mediator.Tracked.period (h : σ.Tracked L cfg place) (hlt : id < cfg.numOfThread)
    (hfree : σ.cleaning id = none) :
    StepMove L cfg (.period id) σ place
      (σ.setCleaning id (if (σ.pools id).totalCached ≠ 0 then some (0, 0) else none)) place := by
  refine .of_shrunk (by simp) (h.setCleaning hlt (fun _ ↦ h.total id hfree)
    fun i j hat i' j' hbefore ↦ absurd hbefore (not_before_first hat)) (fun _ ↦ .refl _)
      (fun q ↦ ?_)
    ((sameArenas_of_layers fun _ ↦ rfl).shrunk place)
  by_cases hqid : q = id
  · subst hqid
    exact .period rfl hfree rfl rfl (Function.update_self ..)
  · refine .of_kept h.core ?_ rfl rfl (Function.update_of_ne hqid ..) fun _ _ _ _ _ _ ↦ rfl
    rw [ne_eq, PoolLabel.period.injEq]
    exact fun heq ↦ hqid heq.symm

/-! ## Cleanups -/

/-- What a round of the loops of `cleanup_all_cache` of pool `id` comes to, at `caches[i][j]`. -/
inductive CleanRound (L : EntryLayout) (σ : Mediator) (id i j : ℕ) (σ' : Mediator) : Prop
  | last (le : (σ.pools id).config.numOfThread ≤ i)
      (eq : σ' = (σ.setPool id { σ.pools id with totalCached := 0 }).setCleaning id none)
  | skip (lt : i < (σ.pools id).config.numOfThread) (own : i = id ∨ ObjectPool.NLayers ≤ j)
      (eq : σ' = σ.setCleaning id (some (i + 1, 0)))
  | empty (lt : i < (σ.pools id).config.numOfThread) (ne : i ≠ id) (lt' : j < ObjectPool.NLayers)
      (zero : ((σ.pools id).caches i j).numCached = 0)
      (eq : σ' = σ.setCleaning id (some (i, j + 1)))
  | back {σ₁ : Mediator} (lt : i < (σ.pools id).config.numOfThread) (ne : i ≠ id)
      (lt' : j < ObjectPool.NLayers) (pos : 0 < ((σ.pools id).caches i j).numCached)
      (run : σ.handBack L id i j = some σ₁) (eq : σ' = σ₁.setCleaning id (some (i, j + 1)))

theorem Mediator.cleanNext_cases (hrun : σ.cleanNext L id i j = some σ') :
    CleanRound L σ id i j σ' := by
  rw [Mediator.cleanNext] at hrun
  by_cases hend : (σ.pools id).config.numOfThread ≤ i
  · rw [if_pos hend, Option.some.injEq] at hrun
    exact .last hend hrun.symm
  · rw [if_neg hend] at hrun
    have hlt := Nat.lt_of_not_le hend
    by_cases hskip : i = id ∨ ObjectPool.NLayers ≤ j
    · rw [if_pos hskip, Option.some.injEq] at hrun
      exact .skip hlt hskip hrun.symm
    · rw [if_neg hskip] at hrun
      rw [not_or, Nat.not_le] at hskip
      by_cases hpos : ((σ.pools id).caches i j).numCached > 0
      · rw [if_pos hpos] at hrun
        simp only [Option.bind_eq_bind, Option.bind_eq_some_iff, Option.pure_def,
          Option.some.injEq] at hrun
        obtain ⟨σ₁, hback, hσ'⟩ := hrun
        exact .back hlt hskip.1 hskip.2 hpos hback hσ'.symm
      · rw [if_neg hpos, Option.some.injEq] at hrun
        exact .empty hlt hskip.1 hskip.2 (Nat.eq_zero_of_not_pos hpos) hrun.symm

/-- The cleanup of pool `id` goes on to the next cache, the ones before it being empty. -/
theorem Mediator.Tracked.advance (h : σ.Tracked L cfg place) (hlt : id < cfg.numOfThread)
    {i' j' : ℕ} (hempty : ∀ i₁ j₁, i₁ < i' ∨ i₁ = i' ∧ j₁ < j' → (σ.pools id).caches i₁ j₁ = {}) :
    Mediator.Tracked L cfg (σ.setCleaning id (some (i', j'))) place := by
  refine h.setCleaning hlt (fun hnone ↦ ?_) fun i₁ j₁ heq ↦ ?_
  · cases hnone
  · rw [Option.some.injEq, Prod.mk.injEq] at heq
    obtain ⟨rfl, rfl⟩ := heq
    exact hempty

theorem Mediator.Tracked.caches_empty (h : σ.Tracked L cfg place)
    (hhere : σ.cleaning id = some (i, j)) (hend : cfg.numOfThread ≤ i) (i' j' : ℕ) :
    (σ.pools id).caches i' j' = {} := by
  by_cases hlt : i' < i
  · exact h.cursor id i j hhere i' j' (Or.inl hlt)
  · exact h.outer_cache_empty id (Or.inl (Nat.le_trans hend (Nat.le_of_not_lt hlt)))

theorem Mediator.Tracked.cleaned (h : σ.Tracked L cfg place) (hhere : σ.cleaning id = some (i, j))
    (hend : cfg.numOfThread ≤ i) :
    Mediator.Tracked L cfg
      ((σ.setPool id { σ.pools id with totalCached := 0 }).setCleaning id none) place := by
  have hempty := h.caches_empty hhere hend
  have hid : id < cfg.numOfThread := h.busy id (by rw [hhere]; simp)
  have hlayers : ∀ q, (Function.update σ.pools id { σ.pools id with totalCached := 0 } q).layers =
      (σ.pools q).layers := Counting.apply_update_eq ObjectPool.layers rfl
  have hcaches : ∀ q, (Function.update σ.pools id { σ.pools id with totalCached := 0 } q).caches =
      (σ.pools q).caches := Counting.apply_update_eq ObjectPool.caches rfl
  have hsame := sameArenas_of_layers hlayers
  have hshapes := h.toShapes.update hid ((h.shape id hid).caches (σ.pools id).caches 0)
  have htracked :
      Mediator.Tracked L cfg (σ.setPool id { σ.pools id with totalCached := 0 }) place := by
    refine ⟨⟨hshapes, h.core.congr_pools hlayers hcaches⟩, fun x ↦ ?_, fun x i' hret ↦ ?_,
      fun q hq hzero ↦ ?_, fun q i₁ j₁ hq ↦ ?_, h.busy⟩
    · change σ.live x ↔ _
      rw [h.live]
      exact exists_congr fun i ↦ exists_congr fun k ↦ and_congr_left fun _ ↦ hsame.entryOf.symm
    · obtain ⟨hl, k, hentry⟩ := h.returning x i' hret
      exact ⟨hl, k, hsame.entryOf.mpr hentry⟩
    · have hqid : q ≠ id := by
        rintro rfl
        rw [show σ.cleaning q = none from hq] at hhere
        cases hhere
      change (Function.update σ.pools id _ q).totalCached = 0 at hzero
      change ∀ i j, (Function.update σ.pools id _ q).caches i j = {}
      rw [Function.update_of_ne hqid] at hzero
      rw [hcaches]
      exact h.total q hq hzero
    · change ∀ i j, _ → (Function.update σ.pools id _ q).caches i j = {}
      rw [hcaches]
      exact h.cursor q i₁ j₁ hq
  refine htracked.setCleaning hid (fun _ _ i' j' ↦ ?_) fun i₁ j₁ hat ↦ ?_
  · change (Function.update σ.pools id _ id).caches i' j' = {}
    rw [hcaches, hempty]
  · cases hat

/-- `caches[i][j]` of pool `id`, which held `xs`, has been handed back, and the other caches are as
before. -/
structure CacheReturned (L : EntryLayout) (σ : Mediator) (id i j : ℕ) (xs : List Ptr)
    (σ' : Mediator) : Prop where
  live : σ'.live = σ.live
  returning : σ'.returning = σ.returning
  cleaning : σ'.cleaning = σ.cleaning
  layers : ∀ q, LayersMove (σ.pools q) (σ'.pools q)
  caches : (σ'.pools id).caches = ((σ.pools id).setCache i j {}).caches
  others : ∀ q ≠ id, (σ'.pools q).caches = (σ.pools q).caches
  totalCached : ∀ q, (σ'.pools q).totalCached = (σ.pools q).totalCached
  back : HandedBack L σ.mem (σ.pools i) j ((σ.pools id).caches i j) xs σ'.mem (σ'.pools i)
  holds : ∀ q i' j' zs, ¬(q = id ∧ i' = i ∧ j' = j) →
    CacheHolds σ.mem ((σ.pools q).caches i' j') zs → CacheHolds σ'.mem ((σ.pools q).caches i' j') zs

theorem Mediator.Tracked.handBack (h : σ.Tracked L cfg place) (hhere : σ.cleaning id = some (i, j))
    (hpos : 0 < ((σ.pools id).caches i j).numCached)
    (hxs : CacheList L σ.mem σ.pools place id i j xs) :
    ∃ σ', σ.handBack L id i j = some σ' ∧ σ'.Tracked L cfg (freed place xs) ∧
      Shrunk L σ.pools σ'.pools (freed place xs) ∧ CacheReturned L σ id i j xs σ' := by
  obtain ⟨m, p, hrelease, hpools, hshrunk, hne, hmove, hcaches, htotal, hback, hkept⟩ :=
    h.toPoolsTracked.myReleaseCache hxs hpos
  let σ' : Mediator := { σ with
    mem := m
    pools := Function.update (Function.update σ.pools i p) id ((σ.pools id).setCache i j {}) }
  have hself : Function.update σ.pools i p id = σ.pools id := Function.update_of_ne hne ..
  have hrun : σ.handBack L id i j = some σ' := by
    rw [Mediator.handBack, hrelease]
    simp only [Option.bind_eq_bind, Option.bind_some, Mediator.setPool, hself, Option.pure_def]
    rfl
  have hid' : σ'.pools id = (σ.pools id).setCache i j {} := Function.update_self ..
  have hne' : ∀ q, q ≠ id → σ'.pools q = Function.update σ.pools i p q :=
    fun q hq ↦ Function.update_of_ne hq ..
  have hothers : ∀ q, q ≠ id → (σ'.pools q).caches = (σ.pools q).caches := fun q hq ↦ by
    rw [hne' q hq, Counting.apply_update_eq ObjectPool.caches hcaches]
  have htotals : ∀ q, (σ'.pools q).totalCached = (σ.pools q).totalCached := fun q ↦ by
    by_cases hq : q = id
    · rw [hq, hid']
      rfl
    · rw [hne' q hq, Counting.apply_update_eq ObjectPool.totalCached htotal]
  have hlive : ∀ {x}, σ.live x → freed place xs x = .live := fun hl ↦ by
    obtain ⟨i', k', hentry, hplace⟩ := h.place_live hl
    rw [freed, if_neg, hplace]
    intro hmem
    rw [((hxs.mem _).mp hmem).2] at hplace
    cases hplace
  refine ⟨σ', hrun, ⟨hpools, fun x ↦ ?_, fun x i' hret ↦ ?_, fun q hq hzero ↦ ?_,
    fun q i₁ j₁ hq ↦ ?_, h.busy⟩, hshrunk, ⟨rfl, rfl, rfl, fun q ↦ ?_, congrArg _ hid', hothers,
      htotals,
    ?_, fun q i' j' zs hnot hzs ↦ ?_⟩⟩
  · change σ.live x ↔ _
    constructor
    · intro hl
      obtain ⟨i', k', hentry, -⟩ := h.place_live hl
      exact ⟨i', k', hshrunk.kept i' k' x hentry (by rw [hlive hl]; simp), hlive hl⟩
    · rintro ⟨i', k', hentry, hplace⟩
      refine (h.live x).mpr ⟨i', k', hshrunk.entryOf hentry, ?_⟩
      by_cases hmem : x ∈ xs
      · rw [freed, if_pos hmem] at hplace
        cases hplace
      · rwa [freed, if_neg hmem] at hplace
  · obtain ⟨hl, k, hentry⟩ := h.returning x i' hret
    exact ⟨hl, k, hshrunk.kept i' k x hentry (by rw [hlive hl]; simp)⟩
  · have hq' : q ≠ id := by
      rintro rfl
      rw [show σ.cleaning q = none from hq] at hhere
      cases hhere
    rw [htotals] at hzero
    rw [hothers q hq']
    exact h.total q hq hzero
  · by_cases hq' : q = id
    · subst hq'
      rw [hid']
      intro i' j' hbefore
      rw [show σ'.cleaning q = some (i, j) from hhere, Option.some.injEq, Prod.mk.injEq] at hq
      obtain ⟨rfl, rfl⟩ := hq
      rw [setCache_caches_of_ne]
      · exact h.cursor q i j hhere i' j' hbefore
      · rintro ⟨rfl, rfl⟩
        rcases hbefore with hlt | ⟨-, hlt⟩ <;> exact absurd hlt (Nat.lt_irrefl _)
    · rw [hothers q hq']
      exact h.cursor q i₁ j₁ hq
  · by_cases hq : q = id
    · rw [hq, hid']
      exact .rest rfl rfl rfl
    · rw [hne' q hq]
      exact hmove.update q
  · rw [hne' i hne.symm, Function.update_self]
    exact hback
  · -- What is in another cache is not in `xs`.
    refine h.core.holds_of_kept hzs fun x _ hentry hplace ↦ hkept i' j' x q hentry hplace
      fun hmem ↦ ?_
    obtain ⟨hentry', hplace'⟩ := (hxs.mem x).mp hmem
    rw [hplace', EntryPlace.cached.injEq] at hplace
    exact hnot ⟨hplace.symm, h.core.entry_unique hentry hentry'⟩

theorem Mediator.Tracked.clean (h : σ.Tracked L cfg place) (hhere : σ.cleaning id = some (i, j))
    (hrun : σ.cleanNext L id i j = some σ') :
    ∃ place', StepMove L cfg .other σ place σ' place' := by
  have hid : id < cfg.numOfThread := h.busy id (by rw [hhere]; simp)
  have hconfig := h.config id
  have hcleaning : ∀ {c : Option (ℕ × ℕ)} {q : ℕ}, q ≠ id →
      Function.update σ.cleaning id c q = σ.cleaning q := fun hq ↦ Function.update_of_ne hq ..
  -- The caches of another pool stay, when nothing is handed back.
  have hrest : ∀ {τ : Mediator} {q : ℕ}, τ.mem = σ.mem → q ≠ id → τ.pools q = σ.pools q →
      τ.cleaning q = σ.cleaning q → CacheMove L cfg .other σ q τ := fun hmem hq hpool hcl ↦
    .of_kept h.core (by simp) (by rw [hpool]) (by rw [hpool]) hcl fun _ _ _ _ _ _ ↦ by rw [hmem]
  have hmove : ∀ {τ : Mediator}, σ.cleanNext L id i j = some τ →
      (∀ q ≠ id, CacheMove L cfg .other σ q τ) → ∀ q, CacheMove L cfg .other σ q τ :=
    fun hrun hne q ↦ by
      by_cases hq : q = id
      · rw [hq]
        exact .round hhere hrun
      · exact hne q hq
  cases Mediator.cleanNext_cases hrun with
  | last le eq =>
    rw [hconfig] at le
    subst eq
    have hlayers : ∀ q, (Function.update σ.pools id { σ.pools id with totalCached := 0 } q).layers =
        (σ.pools q).layers := Counting.apply_update_eq ObjectPool.layers rfl
    exact ⟨place, .of_shrunk (by simp) (h.cleaned hhere le) (LayersMove.update (.rest rfl rfl rfl))
      (hmove hrun fun q hq ↦ hrest rfl hq (Function.update_of_ne hq ..) (hcleaning hq))
      ((sameArenas_of_layers hlayers).shrunk place)⟩
  | skip lt own eq =>
    subst eq
    refine ⟨place, .of_shrunk (by simp) (h.advance hid fun i' j' hbefore ↦ ?_) (fun _ ↦ .refl _)
      (hmove hrun fun q hq ↦ hrest rfl hq rfl (hcleaning hq))
      ((sameArenas_of_layers fun _ ↦ rfl).shrunk place)⟩
    by_cases hbefore' : i' < i ∨ i' = i ∧ j' < j
    · exact h.cursor id i j hhere i' j' hbefore'
    · -- The caches from `j` on, for the pool itself or for layers that there are not.
      obtain rfl : i' = i := by omega
      rcases own with rfl | hle
      · exact h.core.own_cache_empty i' j'
      · exact h.outer_cache_empty id (Or.inr (by omega))
  | empty lt ne lt' zero eq =>
    subst eq
    refine ⟨place, .of_shrunk (by simp) (h.advance hid fun i' j' hbefore ↦ ?_) (fun _ ↦ .refl _)
      (hmove hrun fun q hq ↦ hrest rfl hq rfl (hcleaning hq))
      ((sameArenas_of_layers fun _ ↦ rfl).shrunk place)⟩
    by_cases heq : i' = i ∧ j' = j
    · obtain ⟨rfl, rfl⟩ := heq
      exact h.core.cache_eq_of_numCached zero
    · exact h.cursor id i j hhere i' j' (by omega)
  | @back σ₁ lt ne lt' pos run eq =>
    obtain ⟨xs, hxs⟩ := h.core.cached id i j
    obtain ⟨σ₂, hback, htracked, hshrunk, hret⟩ := h.handBack hhere pos hxs
    rw [run, Option.some.injEq] at hback
    subst hback
    subst eq
    refine ⟨_, .of_shrunk (by simp) (htracked.advance hid fun i' j' hbefore ↦ ?_) hret.layers
      (hmove hrun fun q hq ↦ ?_) hshrunk⟩
    · rw [hret.caches]
      by_cases heq : i' = i ∧ j' = j
      · obtain ⟨rfl, rfl⟩ := heq
        exact setCache_caches_self ..
      · rw [setCache_caches_of_ne _ heq]
        exact h.cursor id i j hhere i' j' (by omega)
    · refine .rest (by simp) (hret.others q hq) (hret.totalCached q) ?_ fun i' j' zs ↦
        hret.holds q i' j' zs fun heq ↦ hq heq.1
      change Function.update σ₁.cleaning id _ q = σ.cleaning q
      rw [Function.update_of_ne hq, hret.cleaning]

/-! ## All steps -/

/-- **Every step keeps track of the entries.** -/
theorem Mediator.Tracked.step (h : σ.Tracked L cfg place) (hids : cfg.numOfThread ≤ 2 ^ 16)
    (hstep : PoolStep L indexFirst σ l σ') : ∃ place', StepMove L cfg l σ place σ' place' := by
  have hlt : ∀ {id}, id < (σ.pools id).config.numOfThread → id < cfg.numOfThread :=
    fun lt ↦ by rwa [h.config] at lt
  cases hstep with
  | alloc lt unused run => exact h.alloc hids (hlt lt) unused run
  | use live kept read => exact ⟨place, h.use live read _⟩
  | releaseOwn lt live once free read own => exact ⟨place, h.releaseOwn live read own⟩
  | returned here run => exact h.returned here run
  | releaseForeign lt live once free read foreign run =>
    exact h.releaseForeign (hlt lt) live once free read foreign run
  | period lt free => exact ⟨place, h.period (hlt lt) free⟩
  | clean here run => exact h.clean here run

end TYThread
