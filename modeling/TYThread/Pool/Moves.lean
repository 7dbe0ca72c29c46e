import Mathlib.Data.Finset.Card
import TYThread.Pool.Invariant

/-!
# What moves the entries

One lemma for each action on a layer or a cache: the entry at the head of a free list is taken, an
entry is given back to its free list or put into a cache, a whole cache is spliced into a free list,
a layer is made, and a layer that is not in use is deleted. Each says that the action has a result
and that the entries are where they should be afterwards.
-/

namespace TYThread

open LinkedList

variable {L : EntryLayout} {n : ℕ} {m : Mem} {pools pools' : ℕ → ObjectPool}
  {place : Ptr → EntryPlace} {i j k q : ℕ} {ly : ObjectLayer} {ptr : Ptr} {xs : List Ptr}

/-! ## Counting entries -/

theorem ObjectLayer.length_le (hnodup : xs.Nodup) (hxs : ∀ x ∈ xs, ly.Has L x) :
    xs.length ≤ ly.arenaCap := by
  have hsub : xs.toFinset ⊆ (Finset.range ly.arenaCap).image (L.entry ly.arena) := fun x hx ↦ by
    obtain ⟨y, hy, rfl⟩ := hxs x (List.mem_toFinset.mp hx)
    exact Finset.mem_image_of_mem _ (Finset.mem_range.mpr hy)
  calc xs.length = xs.toFinset.card := (List.toFinset_card_of_nodup hnodup).symm
    _ ≤ ((Finset.range ly.arenaCap).image (L.entry ly.arena)).card := Finset.card_le_card hsub
    _ ≤ (Finset.range ly.arenaCap).card := Finset.card_image_le
    _ = ly.arenaCap := Finset.card_range _

theorem ObjectLayer.mem_of_length (hnodup : xs.Nodup) (hxs : ∀ x ∈ xs, ly.Has L x)
    (hlen : ly.arenaCap ≤ xs.length) (hptr : ly.Has L ptr) : ptr ∈ xs := by
  by_contra hnot
  have hall : ∀ x ∈ ptr :: xs, ly.Has L x := by
    intro x hx
    rcases List.mem_cons.mp hx with rfl | hx
    · exact hptr
    · exact hxs x hx
  have hle := length_le (List.nodup_cons.mpr ⟨hnot, hnodup⟩) hall
  rw [List.length_cons] at hle
  omega

theorem FreeList.length_le (h : FreeList L m place ly xs) {ys : List Ptr} (hnodup : ys.Nodup)
    (hys : ∀ y ∈ ys, ly.Has L y ∧ place y ≠ .free) : ys.length ≤ ly.used := by
  have hall : ∀ x ∈ ys ++ xs, ly.Has L x := by
    intro x hx
    rcases List.mem_append.mp hx with hx | hx
    · exact (hys x hx).1
    · exact ((h.mem x).mp hx).1
  have hle := ObjectLayer.length_le (List.nodup_append.mpr ⟨hnodup, h.nodup, fun y hy x hx heq ↦
    (hys y hy).2 (heq ▸ ((h.mem x).mp hx).2)⟩) hall
  have hcount := h.count
  rw [List.length_append] at hle
  omega

theorem FreeList.all_free (h : FreeList L m place ly xs) (hused : ly.used = 0)
    (hptr : ly.Has L ptr) : place ptr = .free := by
  have hcount := h.count
  exact ((h.mem ptr).mp (ObjectLayer.mem_of_length h.nodup (fun x hx ↦ ((h.mem x).mp hx).1)
    (by omega) hptr)).2

theorem sizeSub_of_le {u c : ℕ} (hle : c ≤ u) (hlt : u < sizeRange) : sizeSub u c = u - c := by
  rw [sizeSub, Nat.mod_eq_of_lt (Nat.lt_of_le_of_lt hle hlt),
    show u + (sizeRange - c) = u - c + sizeRange from by omega, Nat.add_mod_right,
    Nat.mod_eq_of_lt (by omega)]

/-! ## Frames -/

/-- Only the layers and the caches of the pools matter. -/
theorem Core.congr_pools (h : Core L n m pools place)
    (hlayers : ∀ i, (pools' i).layers = (pools i).layers)
    (hcaches : ∀ i, (pools' i).caches = (pools i).caches) : Core L n m pools' place := by
  have hentry : ∀ i k ptr, EntryOf L pools' i k ptr ↔ EntryOf L pools i k ptr := fun i k ptr ↦ by
    rw [EntryOf, hlayers, EntryOf]
  refine ⟨fun i k ly i' k' ly' hly hly' ↦ ?_, fun i k ptr hptr ↦ ?_, fun i k ly hly ↦ ?_,
    fun q i j ↦ ?_, fun i k ptr q hptr ↦ ?_, fun i k ptr hptr ↦ ?_⟩
  · rw [hlayers] at hly hly'
    exact h.apart i k ly i' k' ly' hly hly'
  · exact h.readable i k ptr ((hentry i k ptr).mp hptr)
  · rw [hlayers] at hly
    exact h.free i k ly hly
  · obtain ⟨xs, hxs⟩ := h.cached q i j
    exact ⟨xs, hxs.congr (by rw [hcaches]) (fun ptr ↦ by rw [hentry]) fun _ _ _ ↦ rfl⟩
  · exact h.foreign i k ptr q ((hentry i k ptr).mp hptr)
  · exact h.info i k ptr ((hentry i k ptr).mp hptr)

/-- So one pool may be taken for another one with the same layers and caches. -/
theorem Core.congr_update {p p' : ObjectPool} (h : Core L n m (Function.update pools i p) place)
    (hlayers : p'.layers = p.layers) (hcaches : p'.caches = p.caches) :
    Core L n m (Function.update pools i p') place := by
  refine h.congr_pools (fun i' ↦ ?_) fun i' ↦ ?_
  · by_cases hi : i' = i
    · rw [hi, Function.update_self, Function.update_self, hlayers]
    · rw [Function.update_of_ne hi, Function.update_of_ne hi]
  · by_cases hi : i' = i
    · rw [hi, Function.update_self, Function.update_self, hcaches]
    · rw [Function.update_of_ne hi, Function.update_of_ne hi]

theorem setLayer_layers_self (p : ObjectPool) (k : ℕ) (ly : Option ObjectLayer) :
    (p.setLayer k ly).layers k = ly := Function.update_self ..

theorem setLayer_layers_of_ne (p : ObjectPool) {k k' : ℕ} (hk : k' ≠ k) (ly : Option ObjectLayer) :
    (p.setLayer k ly).layers k' = p.layers k' := Function.update_of_ne hk ..

theorem setCache_caches_self (p : ObjectPool) (i j : ℕ) (c : PerLayerCache) :
    (p.setCache i j c).caches i j = c := by
  simp [ObjectPool.setCache]

theorem setCache_caches_of_ne (p : ObjectPool) {i j i' j' : ℕ} (hne : ¬(i' = i ∧ j' = j))
    (c : PerLayerCache) : (p.setCache i j c).caches i' j' = p.caches i' j' := by
  by_cases hi : i' = i
  · subst hi
    have hj : j' ≠ j := fun hj ↦ hne ⟨rfl, hj⟩
    simp [ObjectPool.setCache, hj]
  · simp [ObjectPool.setCache, hi]

theorem update_layers (p : ObjectPool) (hp : p.layers = ((pools i).setLayer k (some ly)).layers)
    (i' k' : ℕ) :
    (Function.update pools i p i').layers k' =
      if i' = i ∧ k' = k then some ly else (pools i').layers k' := by
  by_cases hi : i' = i
  · subst hi
    rw [Function.update_self, hp]
    by_cases hk : k' = k
    · rw [hk, setLayer_layers_self, if_pos ⟨rfl, rfl⟩]
    · rw [setLayer_layers_of_ne _ hk, if_neg fun h ↦ hk h.2]
  · rw [Function.update_of_ne hi, if_neg fun h ↦ hi h.1]

theorem sameArenas_update {ly' : ObjectLayer} (hly : (pools i).layers k = some ly)
    (hext : ly'.extent = ly.extent) :
    SameArenas pools (Function.update pools i ((pools i).setLayer k (some ly'))) := by
  intro i' k'
  rw [update_layers _ rfl]
  by_cases h : i' = i ∧ k' = k
  · obtain ⟨rfl, rfl⟩ := h
    rw [if_pos ⟨rfl, rfl⟩, hly, Option.map_some, Option.map_some, hext]
  · rw [if_neg h]

/-! ## One free list -/

theorem FreeList.take (h : FreeList L m place ly (ptr :: xs)) {e e' : FakeEntry}
    (he : m ptr = some e) {u : ℕ} (hused : u = ly.used + 1) :
    FreeList L (Function.update m ptr (some e')) (Function.update place ptr .live)
      { ly with head := e.next, used := u } xs := by
  obtain ⟨-, q, hq, hrest⟩ := h.chain
  have hnext : m.nextOf ptr = some e.next := by rw [Mem.nextOf, he, Option.map_some]
  rw [hnext, Option.some.injEq] at hq
  subst hq
  have hnodup := List.nodup_cons.mp h.nodup
  have hcount := h.count
  rw [List.length_cons] at hcount
  have hne : ∀ x ∈ xs, x ≠ ptr := fun x hx heq ↦ hnodup.1 (heq ▸ hx)
  refine ⟨hrest.congr fun x hx ↦ ?_, hnodup.2, fun x ↦ ?_, ?_⟩
  · rw [Mem.nextOf, Function.update_of_ne (hne x hx), Mem.nextOf]
  · by_cases hx : x = ptr
    · subst hx
      rw [Function.update_self]
      exact iff_of_false hnodup.1 fun h ↦ by cases h.2
    · rw [Function.update_of_ne hx]
      have hmem := h.mem x
      rw [List.mem_cons, or_iff_right hx] at hmem
      exact hmem
  · change u + xs.length = ly.arenaCap
    omega

theorem FreeList.give (h : FreeList L m place ly xs) (hhas : ly.Has L ptr)
    (hplace : place ptr ≠ .free) {e : FakeEntry} (hnext : e.next = ly.head) {u : ℕ}
    (hused : u + 1 = ly.used) :
    FreeList L (Function.update m ptr (some e)) (Function.update place ptr .free)
      { ly with head := some ptr, used := u } (ptr :: xs) := by
  have hnot : ptr ∉ xs := fun hmem ↦ hplace ((h.mem ptr).mp hmem).2
  have hne : ∀ x ∈ xs, x ≠ ptr := fun x hx heq ↦ hnot (heq ▸ hx)
  have hcount := h.count
  refine ⟨⟨rfl, ly.head, ?_, h.chain.congr fun x hx ↦ ?_⟩, List.nodup_cons.mpr ⟨hnot, h.nodup⟩,
    fun x ↦ ?_, ?_⟩
  · rw [Mem.nextOf, Function.update_self, Option.map_some, hnext]
  · rw [Mem.nextOf, Function.update_of_ne (hne x hx), Mem.nextOf]
  · rw [List.mem_cons]
    by_cases hx : x = ptr
    · subst hx
      rw [Function.update_self]
      exact iff_of_true (Or.inl rfl) ⟨hhas, rfl⟩
    · rw [Function.update_of_ne hx, or_iff_right hx]
      exact h.mem x
  · rw [List.length_cons]
    change u + (xs.length + 1) = ly.arenaCap
    omega

/-- The places after the entries `xs` have been freed. -/
def freed (place : Ptr → EntryPlace) (xs : List Ptr) (ptr : Ptr) : EntryPlace :=
  if ptr ∈ xs then .free else place ptr

theorem place_of_freed {v : EntryPlace} (h : freed place xs ptr = v) (hv : v ≠ .free) :
    ptr ∉ xs ∧ place ptr = v := by
  by_cases hmem : ptr ∈ xs
  · rw [freed, if_pos hmem] at h
    exact absurd h.symm hv
  · rw [freed, if_neg hmem] at h
    exact ⟨hmem, h⟩

/-- A chain of entries, the last of which links to the head, is put before it. -/
theorem FreeList.splice {fs ys : List Ptr} {p : Option Ptr} {t : Ptr} {e : FakeEntry} {u : ℕ}
    (h : FreeList L m place ly fs) (hpath : Path m.nextOf p ys (some t))
    (hnodup : (ys ++ [t]).Nodup) (hhas : ∀ x ∈ ys ++ [t], ly.Has L x ∧ place x ≠ .free)
    (hnext : e.next = ly.head) (hused : u + (ys ++ [t]).length = ly.used) :
    FreeList L (Function.update m t (some e)) (freed place (ys ++ [t]))
      { ly with head := p, used := u } (ys ++ [t] ++ fs) := by
  have ht : t ∈ ys ++ [t] := List.mem_append_right _ (List.mem_singleton_self t)
  have hother : ∀ x, x ≠ t → Mem.nextOf (Function.update m t (some e)) x = m.nextOf x :=
    fun x hx ↦ congrArg (Option.map FakeEntry.next) (Function.update_of_ne hx ..)
  have hnotLast : ∀ x ∈ ys, x ≠ t := fun x hx ↦
    (List.nodup_append.mp hnodup).2.2 x hx t (List.mem_singleton_self t)
  have hlast : Mem.nextOf (Function.update m t (some e)) t = some ly.head := by
    rw [Mem.nextOf, Function.update_self, Option.map_some, hnext]
  have hcount := h.count
  refine ⟨?_, ?_, fun x ↦ ?_, ?_⟩
  · refine ((hpath.congr fun x hx ↦ hother x (hnotLast x hx)).snoc hlast).chain
      (h.chain.congr fun x hx ↦ hother x ?_)
    rintro rfl
    exact (hhas x ht).2 ((h.mem x).mp hx).2
  · refine List.nodup_append.mpr ⟨hnodup, h.nodup, fun x hx y hy heq ↦ ?_⟩
    subst heq
    exact (hhas x hx).2 ((h.mem x).mp hy).2
  · rw [List.mem_append, h.mem, freed]
    by_cases hx : x ∈ ys ++ [t]
    · rw [if_pos hx]
      exact iff_of_true (Or.inl hx) ⟨(hhas x hx).1, rfl⟩
    · rw [if_neg hx, or_iff_right hx]
      exact Iff.rfl
  · rw [List.length_append]
    change u + ((ys ++ [t]).length + fs.length) = ly.arenaCap
    omega

theorem freeList_new {b sz : ℕ} (hsz : 0 < sz)
    (hlinks : ∀ y < sz, m.nextOf (L.entry b y)
      = some (if y + 1 < sz then some (L.entry b (y + 1)) else none))
    (hplace : ∀ x : Ptr, x.arena = b → place x = .free) :
    ∃ xs, FreeList L m place ⟨b, some (L.entry b 0), sz, 0⟩ xs := by
  -- The entries, numbered from `0` to `sz - 1`.
  let cell : ℤ → Ptr := fun z ↦ L.entry b z.toNat
  have hsegment : Segment m.nextOf cell 0 sz := by
    intro z hz hz'
    rw [hlinks z.toNat (by omega), firstCell]
    by_cases hlt : z + 1 < sz
    · rw [if_pos hlt, if_pos (by omega)]
      simp only [cell, show (z + 1).toNat = z.toNat + 1 from by omega]
    · rw [if_neg hlt, if_neg (by omega)]
  have hdistinct : DistinctCells cell 0 sz := fun z w hz _ hw _ heq ↦ by
    have := (EntryLayout.entry_inj.mp heq).2
    omega
  have hhead : firstCell cell 0 sz = some (L.entry b 0) :=
    firstCell_of_lt (Int.ofNat_lt.mpr hsz)
  refine ⟨cells cell 0 sz, ?_, hdistinct.nodup, fun x ↦ ?_, ?_⟩
  · rw [← hhead]
    exact hsegment.chain
  · rw [mem_cells]
    constructor
    · rintro ⟨z, hz, hz', rfl⟩
      refine ⟨⟨z.toNat, ?_, rfl⟩, hplace _ rfl⟩
      change z.toNat < sz
      omega
    · rintro ⟨⟨y, hy, rfl⟩, -⟩
      refine ⟨y, by omega, Int.ofNat_lt.mpr hy, ?_⟩
      simp only [cell, Int.toNat_natCast]
  · rw [length_cells]
    change 0 + ((sz : ℤ) - 0).toNat = sz
    omega

/-! ## One entry -/

/-- **An entry is handed out**: the one at the head of the free list of layer `k` of pool `i`. -/
theorem Core.take (h : Core L n m pools place) (hly : (pools i).layers k = some ly)
    (hhead : ly.head = some ptr) (hcap : ly.arenaCap < sizeRange) (hi : i < 2 ^ 16)
    (hk : k < 2 ^ 16) :
    ∃ ly' m', ly.myAlloc m = some (ly', some ptr) ∧ m.setIdAndLayer L ptr i k = some m' ∧
      Core L n m' (Function.update pools i ((pools i).setLayer k (some ly')))
        (Function.update place ptr .live) ∧
      ly.Has L ptr ∧ place ptr = .free ∧ ly'.extent = ly.extent ∧ ly'.used = ly.used + 1 ∧
      ∀ x ≠ ptr, m' x = m x := by
  obtain ⟨xs, hxs⟩ := h.free i k ly hly
  have hchain := hxs.chain
  cases xs with
  | nil =>
    rw [hhead] at hchain
    cases hchain
  | cons x rest =>
    obtain rfl : ptr = x := Option.some.inj (hhead.symm.trans hchain.1)
    obtain ⟨hhas, hfree⟩ := (hxs.mem ptr).mp List.mem_cons_self
    obtain ⟨e, he⟩ := h.readable i k ptr ⟨ly, hly, hhas⟩
    have hcount := hxs.count
    rw [List.length_cons] at hcount
    let ly' : ObjectLayer := { ly with head := e.next, used := (ly.used + 1) % sizeRange }
    have hused : ly'.used = ly.used + 1 := Nat.mod_eq_of_lt (by omega)
    have hread := EntryLayout.setIdAndLayer_spec (L := L) e hi hk
    refine ⟨ly', Function.update m ptr (some (L.setIdAndLayer e i k)), ?_, ?_,
      h.update ⟨ly, hly, hhas⟩ rfl (sameArenas_update hly rfl) (fun i' k' ly₁ hly₁ ↦ ?_)
        (fun q i' j' ↦ Or.inl ⟨?_, ?_⟩) (fun q hq ↦ by cases hq) (fun _ ↦ hread), hhas, hfree, rfl,
      hused, fun x hx ↦ Function.update_of_ne hx ..⟩
    · rw [ObjectLayer.myAlloc, hhead]
      simp only [he, Option.bind_eq_bind, Option.bind_some, Option.pure_def]
      rfl
    · rw [Mem.setIdAndLayer, he]
      rfl
    · rw [update_layers _ rfl] at hly₁
      by_cases hhere : i' = i ∧ k' = k
      · rw [if_pos hhere, Option.some.injEq] at hly₁
        subst hly₁
        exact Or.inr ⟨rest, hxs.take he hused⟩
      · rw [if_neg hhere] at hly₁
        exact Or.inl ⟨hly₁, fun _ ↦ hhere⟩
    · by_cases hqi : q = i
      · rw [hqi, Function.update_self]
        rfl
      · rw [Function.update_of_ne hqi]
    · rw [hfree]
      rintro (h | h) <;> cases h

/-- **An entry is given back** to the free list of its layer. -/
theorem Core.give (h : Core L n m pools place) (hly : (pools i).layers k = some ly)
    (hhas : ly.Has L ptr) (hlive : place ptr = .live) (hcap : ly.arenaCap < sizeRange) :
    ∃ ly' m', ly.myRelease L m (some ptr) = some (m', ly', ly'.stateAfter) ∧
      Core L n m' (Function.update pools i ((pools i).setLayer k (some ly')))
        (Function.update place ptr .free) ∧
      ly'.extent = ly.extent ∧ ly'.used + 1 = ly.used ∧ ∀ x ≠ ptr, m' x = m x := by
  obtain ⟨xs, hxs⟩ := h.free i k ly hly
  obtain ⟨e, he⟩ := h.readable i k ptr ⟨ly, hly, hhas⟩
  have hplace : place ptr ≠ .free := by
    rw [hlive]
    simp
  have hpos : [ptr].length ≤ ly.used := hxs.length_le (List.nodup_singleton ptr) fun y hy ↦ by
    rw [List.mem_singleton.mp hy]
    exact ⟨hhas, hplace⟩
  rw [List.length_singleton] at hpos
  have hcount := hxs.count
  let ly' : ObjectLayer := { ly with head := some ptr, used := sizeSub ly.used 1 }
  have hused : ly'.used + 1 = ly.used := by
    rw [show ly'.used = ly.used - 1 from sizeSub_of_le hpos (by omega)]
    omega
  refine ⟨ly', Function.update m ptr (some (L.setNext e ly.head)), ?_,
    h.update ⟨ly, hly, hhas⟩ rfl (sameArenas_update hly rfl) (fun i' k' ly₁ hly₁ ↦ ?_)
      (fun q i' j' ↦ Or.inl ⟨?_, ?_⟩) (fun q hq ↦ by cases hq) (fun hv ↦ by cases hv), rfl, hused,
    fun x hx ↦ Function.update_of_ne hx ..⟩
  · rw [ObjectLayer.myRelease, if_neg hhas.check.1, if_neg (not_not.mpr hhas.check.2), Mem.setNext,
      he]
    rfl
  · rw [update_layers _ rfl] at hly₁
    by_cases hhere : i' = i ∧ k' = k
    · rw [if_pos hhere, Option.some.injEq] at hly₁
      subst hly₁
      exact Or.inr ⟨ptr :: xs, hxs.give hhas hplace rfl hused⟩
    · rw [if_neg hhere] at hly₁
      exact Or.inl ⟨hly₁, fun _ ↦ hhere⟩
  · by_cases hqi : q = i
    · rw [hqi, Function.update_self]
      rfl
    · rw [Function.update_of_ne hqi]
  · rw [hlive]
    rintro (h | h) <;> cases h

theorem Core.use (h : Core L n m pools place) (hentry : EntryOf L pools i k ptr)
    (hlive : place ptr = .live) {e : FakeEntry} (he : m ptr = some e) (p : Option Ptr) :
    Core L n (Function.update m ptr (some { e with next := p })) pools place := by
  obtain ⟨e', he', hid, hlayer⟩ := h.info i k ptr hentry hlive
  rw [he, Option.some.injEq] at he'
  subst he'
  have hupdate := h.update (v := .live) hentry (e := { e with next := p }) rfl (fun _ _ ↦ rfl)
    (fun i' k' ly' hly' ↦ Or.inl ⟨hly', by rw [hlive]; rintro (h | h) <;> cases h⟩)
    (fun q i' j' ↦ Or.inl ⟨rfl, by rw [hlive]; rintro (h | h) <;> cases h⟩)
    (fun q hq ↦ by cases hq) fun _ ↦ ⟨hid, hlayer⟩
  rwa [← hlive, Function.update_eq_self] at hupdate

/-- The first half of `my_release`: the entry is put before those that the cache holds. -/
theorem cachePtr_spec {p : ObjectPool} {e : FakeEntry} {xs : List Ptr} (he : m ptr = some e)
    (hi : e.readId < p.config.numOfThread) (hk : e.readLayer < ObjectPool.NLayers)
    (hxs : CacheHolds m (p.caches e.readId e.readLayer) xs) (hnot : ptr ∉ xs) :
    ∃ c e', p.cachePtr L m ptr = some (Function.update m ptr (some e'),
        { p.setCache e.readId e.readLayer c with totalCached := p.totalCached + 1 }) ∧
      CacheHolds (Function.update m ptr (some e')) c (ptr :: xs) ∧
      c.numCached = (p.caches e.readId e.readLayer).numCached + 1 := by
  have hne : ∀ x ∈ xs, x ≠ ptr := fun x hx heq ↦ hnot (heq ▸ hx)
  rw [ObjectPool.cachePtr, he]
  simp only [Option.bind_eq_bind, Option.bind_some, if_pos (And.intro hi hk)]
  rcases hxs with ⟨rfl, hcache⟩ | ⟨ys, t, rfl, hpath, htail, hnum⟩
  · -- The link of the first entry is left as it is.
    refine ⟨⟨some ptr, some ptr, 1⟩, e, ?_, Or.inr ⟨[], ptr, rfl, rfl, rfl, rfl⟩, ?_⟩
    · have hself : Function.update m ptr (some e) = m := by rw [← he, Function.update_eq_self]
      rw [hcache, hself]
      rfl
    · rw [hcache]
  · refine ⟨⟨some ptr, some t, (p.caches e.readId e.readLayer).numCached + 1⟩,
      L.setNext e (p.caches e.readId e.readLayer).head, ?_,
      Or.inr ⟨ptr :: ys, t, rfl, ⟨rfl, _, ?_, hpath.congr fun x hx ↦ ?_⟩, rfl, ?_⟩, rfl⟩
    · have hsome : (p.caches e.readId e.readLayer).tail ≠ none := by rw [htail]; simp
      rw [if_pos hsome, Mem.setNext, he, ← htail]
      rfl
    · rw [Mem.nextOf, Function.update_self]
      rfl
    · rw [Mem.nextOf, Function.update_of_ne (hne x (List.mem_append_left _ hx)), Mem.nextOf]
    · rw [hnum, List.length_cons]

/-- **An entry is put into a cache** of another pool `q`. -/
theorem Core.cache (h : Core L n m pools place) (hentry : EntryOf L pools i k ptr)
    (hlive : place ptr = .live) (hqi : q ≠ i) (hqn : q < n)
    (hi : i < (pools q).config.numOfThread) (hk : k < ObjectPool.NLayers) :
    ∃ c m', (pools q).cachePtr L m ptr = some (m',
        { (pools q).setCache i k c with totalCached := (pools q).totalCached + 1 }) ∧
      Core L n m' (Function.update pools q
        { (pools q).setCache i k c with totalCached := (pools q).totalCached + 1 })
        (Function.update place ptr (.cached q)) ∧
      c.numCached = ((pools q).caches i k).numCached + 1 ∧ ∀ x ≠ ptr, m' x = m x := by
  obtain ⟨e, he, hid, hlayer⟩ := h.info i k ptr hentry hlive
  obtain ⟨xs, hxs⟩ := h.cached q i k
  have hnot : ptr ∉ xs := fun hmem ↦ by
    have := ((hxs.mem ptr).mp hmem).2
    rw [hlive] at this
    cases this
  obtain ⟨c, e', hrun, hholds, hcount⟩ : ∃ c e',
      (pools q).cachePtr L m ptr = some (Function.update m ptr (some e'),
        { (pools q).setCache i k c with totalCached := (pools q).totalCached + 1 }) ∧
      CacheHolds (Function.update m ptr (some e')) c (ptr :: xs) ∧
      c.numCached = ((pools q).caches i k).numCached + 1 := by
    obtain rfl := hid
    obtain rfl := hlayer
    exact cachePtr_spec he hi hk hxs.holds hnot
  refine ⟨c, _, hrun, ?_, hcount, fun x hx ↦ Function.update_of_ne hx ..⟩
  have hsame : SameArenas pools (Function.update pools q
      { (pools q).setCache i k c with totalCached := (pools q).totalCached + 1 }) := fun i' k' ↦ by
    by_cases hi' : i' = q
    · rw [hi', Function.update_self]
      rfl
    · rw [Function.update_of_ne hi']
  refine h.update hentry rfl hsame (fun i' k' ly hly ↦ Or.inl ⟨?_, ?_⟩)
    (fun q' i' j' ↦ ?_) (fun q' hq' ↦ ?_) fun hv ↦ by cases hv
  · by_cases hi' : i' = q
    · subst hi'
      rw [Function.update_self] at hly
      exact hly
    · rw [Function.update_of_ne hi'] at hly
      exact hly
  · rw [hlive]
    rintro (h | h) <;> cases h
  · by_cases hhere : q' = q ∧ i' = i ∧ j' = k
    · obtain ⟨rfl, rfl, rfl⟩ := hhere
      refine Or.inr ⟨ptr :: xs, ?_, List.nodup_cons.mpr ⟨hnot, hxs.nodup⟩, fun x ↦ ?_⟩
      · rw [Function.update_self]
        exact (setCache_caches_self _ _ _ c).symm ▸ hholds
      · rw [hsame.entryOf, List.mem_cons]
        by_cases hx : x = ptr
        · subst hx
          rw [Function.update_self]
          exact iff_of_true (Or.inl rfl) ⟨hentry, rfl⟩
        · rw [Function.update_of_ne hx, or_iff_right hx]
          exact hxs.mem x
    · refine Or.inl ⟨?_, ?_⟩
      · by_cases hq' : q' = q
        · subst hq'
          rw [Function.update_self]
          exact setCache_caches_of_ne _ (fun h ↦ hhere ⟨rfl, h⟩) c
        · rw [Function.update_of_ne hq']
      · rw [hlive]
        rintro (h | h)
        · cases h
        · obtain rfl := EntryPlace.cached.inj h
          exact fun h ↦ hhere ⟨rfl, h⟩
  · obtain rfl := EntryPlace.cached.inj hq'
    exact ⟨hqi, hqn⟩

/-! ## Many entries -/

/-- The entries `xs` of a cache are put before the entries `fs` of the free list of a layer. -/
structure Spliced (L : EntryLayout) (m : Mem) (ly : ObjectLayer) (cache : PerLayerCache)
    (xs fs : List Ptr) (m' : Mem) (ly' : ObjectLayer) : Prop where
  run : ly.myReleaseCache L m cache = some (m', ly', ly'.stateAfter)
  before : Chain m.nextOf ly.head fs
  after : Chain m'.nextOf ly'.head (xs ++ fs)
  nodup : (xs ++ fs).Nodup
  used : ly'.used + cache.numCached = ly.used

/-- **A cache is spliced** into the free list of its layer. -/
theorem Core.splice (h : Core L n m pools place) (hly : (pools i).layers j = some ly)
    (hxs : CacheList L m pools place q i j xs) (hpos : 0 < ((pools q).caches i j).numCached)
    (hcap : ly.arenaCap < sizeRange) :
    ∃ ly' m' fs, Spliced L m ly ((pools q).caches i j) xs fs m' ly' ∧
      Core L n m' (Function.update (Function.update pools i ((pools i).setLayer j (some ly'))) q
        ((pools q).setCache i j {})) (freed place xs) ∧
      ly'.extent = ly.extent ∧ ∀ x ∉ xs, m' x = m x := by
  obtain ⟨ys, t, hys, hpath, htail, hnum⟩ : ∃ ys t, xs = ys ++ [t] ∧
      Path m.nextOf ((pools q).caches i j).head ys (some t) ∧
      ((pools q).caches i j).tail = some t ∧ ((pools q).caches i j).numCached = xs.length := by
    rcases hxs.holds with ⟨-, hcache⟩ | hsome
    · rw [hcache] at hpos
      exact absurd hpos (Nat.lt_irrefl 0)
    · exact hsome
  have ht : t ∈ xs := by rw [hys]; exact List.mem_append_right _ (List.mem_singleton_self t)
  obtain ⟨htentry, htplace⟩ := (hxs.mem t).mp ht
  have hqi : q ≠ i := (h.foreign i j t q htentry htplace).1
  obtain ⟨e, he⟩ := h.readable i j t htentry
  obtain ⟨fs, hfs⟩ := h.free i j ly hly
  have hhas : ∀ x ∈ xs, ly.Has L x ∧ place x ≠ .free := fun x hx ↦ by
    obtain ⟨⟨ly₁, hly₁, hhas⟩, hplace⟩ := (hxs.mem x).mp hx
    rw [hly, Option.some.injEq] at hly₁
    rw [hly₁, hplace]
    exact ⟨hhas, by simp⟩
  have hle := hfs.length_le hxs.nodup hhas
  have hcount := hfs.count
  let ly' : ObjectLayer :=
    { ly with head := ((pools q).caches i j).head, used := sizeSub ly.used xs.length }
  let m' : Mem := Function.update m t (some (L.setNext e ly.head))
  let pools' := Function.update (Function.update pools i ((pools i).setLayer j (some ly'))) q
    ((pools q).setCache i j {})
  have hused : ly'.used + xs.length = ly.used := by
    rw [show ly'.used = ly.used - xs.length from sizeSub_of_le hle (by omega)]
    omega
  have hother : ∀ x, x ≠ t → m'.nextOf x = m.nextOf x := fun x hx ↦
    congrArg (Option.map FakeEntry.next) (Function.update_of_ne hx ..)
  have hlayers : ∀ i' k', (pools' i').layers k' =
      if i' = i ∧ k' = j then some ly' else (pools i').layers k' := fun i' k' ↦ by
    by_cases hi' : i' = q
    · subst hi'
      rw [if_neg fun h ↦ hqi h.1, show pools' i' = (pools i').setCache i j {} from
        Function.update_self ..]
      rfl
    · rw [← update_layers _ rfl, show pools' i' = _ from Function.update_of_ne hi' ..]
  have hsame : SameArenas pools pools' := fun i' k' ↦ by
    rw [hlayers]
    by_cases hhere : i' = i ∧ k' = j
    · obtain ⟨rfl, rfl⟩ := hhere
      rw [if_pos ⟨rfl, rfl⟩, hly]
      rfl
    · rw [if_neg hhere]
  have hfreed : ∀ x, x ∉ xs → freed place xs x = place x := fun x hx ↦ if_neg hx
  -- The entries of another layer are not those of the cache.
  have hnotMem : ∀ {i' k' : ℕ} {x : Ptr}, EntryOf L pools i' k' x → ¬(i' = i ∧ k' = j) → x ∉ xs :=
    fun hx hne hmem ↦ hne (h.entry_unique hx ((hxs.mem _).mp hmem).1)
  have hspliced : FreeList L m' (freed place xs) ly' (xs ++ fs) := by
    have hnodup := hxs.nodup
    subst hys
    exact hfs.splice hpath hnodup hhas rfl hused
  have hframe : ∀ x ∉ xs, m' x = m x := fun x hx ↦ Function.update_of_ne (by
    rintro rfl
    exact hx ht) ..
  refine ⟨ly', m', fs, ⟨?_, hfs.chain, hspliced.chain, hspliced.nodup, by rw [hnum, hused]⟩,
    ?_, rfl, hframe⟩
  · rw [ObjectLayer.myReleaseCache, htail, hnum]
    simp only [Option.bind_eq_bind, Option.bind_some, Mem.setNext, he, Option.pure_def]
    rfl
  constructor
  case apart => exact h.apart_of_same hsame
  case readable =>
    intro i' k' x hx
    by_cases hxt : x = t
    · exact ⟨_, by rw [hxt]; exact Function.update_self ..⟩
    · obtain ⟨e', he'⟩ := h.readable i' k' x (hsame.entryOf.mp hx)
      exact ⟨e', by rw [← he']; exact Function.update_of_ne hxt ..⟩
  case free =>
    intro i' k' ly₁ hly₁
    rw [hlayers] at hly₁
    by_cases hhere : i' = i ∧ k' = j
    · rw [if_pos hhere, Option.some.injEq] at hly₁
      subst hly₁
      exact ⟨xs ++ fs, hspliced⟩
    · rw [if_neg hhere] at hly₁
      obtain ⟨gs, hgs⟩ := h.free i' k' ly₁ hly₁
      refine ⟨gs, hgs.congr (fun x hx ↦ ?_) fun x hx _ ↦ hother x ?_⟩
      · rw [hfreed x (hnotMem ⟨ly₁, hly₁, hx⟩ hhere)]
      · rintro rfl
        exact hnotMem ⟨ly₁, hly₁, hx⟩ hhere ht
  case cached =>
    intro q' i' j'
    obtain ⟨zs, hzs⟩ := h.cached q' i' j'
    by_cases hhere : q' = q ∧ i' = i ∧ j' = j
    · obtain ⟨rfl, rfl, rfl⟩ := hhere
      refine ⟨[], Or.inl ⟨rfl, ?_⟩, List.nodup_nil, fun x ↦ ?_⟩
      · rw [Function.update_self, setCache_caches_self]
      · refine iff_of_false List.not_mem_nil ?_
        rintro ⟨hx, hplace⟩
        obtain ⟨hmem, hplace⟩ := place_of_freed hplace (by simp)
        exact hmem ((hxs.mem x).mpr ⟨hsame.entryOf.mp hx, hplace⟩)
    · -- The entries of the cache are cached nowhere else.
      have hnot : ∀ x, EntryOf L pools i' j' x → place x = .cached q' → x ∉ xs := by
        intro x hx hplace hmem
        obtain ⟨hx', hplace'⟩ := (hxs.mem x).mp hmem
        rw [hplace'] at hplace
        exact hhere ⟨(EntryPlace.cached.inj hplace).symm, h.entry_unique hx hx'⟩
      refine ⟨zs, hzs.congr ?_ (fun x ↦ ?_) fun x hx hplace ↦ hother x ?_⟩
      · by_cases hq' : q' = q
        · subst hq'
          rw [Function.update_self]
          exact setCache_caches_of_ne _ (fun h ↦ hhere ⟨rfl, h⟩) _
        · rw [Function.update_of_ne hq']
          by_cases hi' : q' = i
          · subst hi'
            rw [Function.update_self]
            rfl
          · rw [Function.update_of_ne hi']
      · rw [hsame.entryOf]
        refine and_congr_right fun hx ↦ ?_
        by_cases hmem : x ∈ xs
        · rw [freed, if_pos hmem]
          exact iff_of_false (fun h ↦ by cases h) fun hplace ↦ hnot x hx hplace hmem
        · rw [hfreed x hmem]
      · rintro rfl
        exact hnot x hx hplace ht
  case foreign =>
    intro i' k' x q' hx hplace
    exact h.foreign i' k' x q' (hsame.entryOf.mp hx) (place_of_freed hplace (by simp)).2
  case info =>
    intro i' k' x hx hplace
    obtain ⟨hmem, hplace⟩ := place_of_freed hplace (by simp)
    obtain ⟨e', he', hinfo⟩ := h.info i' k' x (hsame.entryOf.mp hx) hplace
    refine ⟨e', ?_, hinfo⟩
    rw [← he']
    refine Function.update_of_ne ?_ ..
    rintro rfl
    exact hmem ht

/-! ## Layers -/

/-- **A layer is deleted** when it is not in use. -/
theorem Core.drop (h : Core L n m pools place) (hly : (pools i).layers k = some ly)
    (hused : ly.used = 0) :
    Core L n (m.deleteArena ly.arena) (Function.update pools i ((pools i).setLayer k none))
      place := by
  obtain ⟨fs, hfs⟩ := h.free i k ly hly
  have hlayers : ∀ i' k', ((Function.update pools i ((pools i).setLayer k none)) i').layers k' =
      if i' = i ∧ k' = k then none else (pools i').layers k' := fun i' k' ↦ by
    by_cases hi' : i' = i
    · subst hi'
      rw [Function.update_self]
      by_cases hk' : k' = k
      · rw [hk', setLayer_layers_self, if_pos ⟨rfl, rfl⟩]
      · rw [setLayer_layers_of_ne _ hk', if_neg fun h ↦ hk' h.2]
    · rw [Function.update_of_ne hi', if_neg fun h ↦ hi' h.1]
  have hlayer : ∀ {i' k' : ℕ} {ly' : ObjectLayer},
      ((Function.update pools i ((pools i).setLayer k none)) i').layers k' = some ly' →
      (pools i').layers k' = some ly' ∧ ¬(i' = i ∧ k' = k) := by
    intro i' k' ly' hly'
    rw [hlayers] at hly'
    by_cases hhere : i' = i ∧ k' = k
    · rw [if_pos hhere] at hly'
      cases hly'
    · rw [if_neg hhere] at hly'
      exact ⟨hly', hhere⟩
  have hentry : ∀ {i' k' : ℕ} {x : Ptr},
      EntryOf L (Function.update pools i ((pools i).setLayer k none)) i' k' x →
      EntryOf L pools i' k' x ∧ m.deleteArena ly.arena x = m x := by
    rintro i' k' x ⟨ly', hly', hhas⟩
    obtain ⟨hly'', hne⟩ := hlayer hly'
    refine ⟨⟨ly', hly'', hhas⟩, if_neg fun harena ↦ hne ?_⟩
    exact h.apart _ _ _ _ _ _ hly'' hly (hhas.arena.symm.trans harena)
  refine ⟨fun i₁ k₁ ly₁ i₂ k₂ ly₂ h₁ h₂ ↦
      h.apart _ _ _ _ _ _ (hlayer h₁).1 (hlayer h₂).1, fun i' k' x hx ↦ ?_,
    fun i' k' ly' hly' ↦ ?_, fun q i' j' ↦ ?_, fun i' k' x q hx ↦ ?_, fun i' k' x hx hplace ↦ ?_⟩
  · rw [(hentry hx).2]
    exact h.readable i' k' x (hentry hx).1
  · obtain ⟨gs, hgs⟩ := h.free i' k' ly' (hlayer hly').1
    refine ⟨gs, hgs.congr (fun _ _ ↦ Iff.rfl) fun x hx _ ↦ ?_⟩
    rw [Mem.nextOf, (hentry ⟨ly', hly', hx⟩).2, Mem.nextOf]
  · obtain ⟨zs, hzs⟩ := h.cached q i' j'
    have hback : ∀ x, EntryOf L pools i' j' x → place x = .cached q →
        EntryOf L (Function.update pools i ((pools i).setLayer k none)) i' j' x := by
      rintro x ⟨ly', hly', hhas⟩ hplace
      refine ⟨ly', ?_, hhas⟩
      rw [hlayers, if_neg, hly']
      rintro ⟨rfl, rfl⟩
      rw [hly, Option.some.injEq] at hly'
      rw [hfs.all_free hused (hly' ▸ hhas)] at hplace
      cases hplace
    refine ⟨zs, hzs.congr ?_ (fun x ↦ ⟨fun hx ↦ ⟨(hentry hx.1).1, hx.2⟩,
      fun hx ↦ ⟨hback x hx.1 hx.2, hx.2⟩⟩) fun x hx hplace ↦ ?_⟩
    · by_cases hq : q = i
      · rw [hq, Function.update_self]
        rfl
      · rw [Function.update_of_ne hq]
    · rw [Mem.nextOf, (hentry (hback x hx hplace)).2, Mem.nextOf]
  · exact h.foreign i' k' x q (hentry hx).1
  · rw [(hentry hx).2]
    exact h.info i' k' x (hentry hx).1 hplace

theorem linkEntries_spec {b c : ℕ} (hread : ∀ y < c, ∃ e, m (L.entry b y) = some e) :
    ∃ m', Mem.linkEntries L b c m = some m' ∧
      (∀ y < c, m'.nextOf (L.entry b y) = some (some (L.entry b (y + 1)))) ∧
      ∀ x, (∀ y < c, x ≠ L.entry b y) → m' x = m x := by
  induction c with
  | zero => exact ⟨m, rfl, fun y hy ↦ absurd hy (Nat.not_lt_zero y), fun _ _ ↦ rfl⟩
  | succ c ih =>
    obtain ⟨m₁, hrun, hlinks, hsame⟩ := ih fun y hy ↦ hread y (Nat.lt_succ_of_lt hy)
    have hne : ∀ y < c, L.entry b c ≠ L.entry b y := fun y hy heq ↦
      absurd (EntryLayout.entry_inj.mp heq).2 (Nat.ne_of_gt hy)
    obtain ⟨e, he⟩ := hread c (Nat.lt_succ_self c)
    have he₁ : m₁ (L.entry b c) = some e := by rw [hsame _ hne, he]
    refine ⟨Function.update m₁ (L.entry b c) (some (L.setNext e (some (L.entry b (c + 1))))), ?_,
      fun y hy ↦ ?_, fun x hx ↦ ?_⟩
    · rw [Mem.linkEntries, hrun]
      simp only [Option.bind_eq_bind, Option.bind_some, Mem.setNext, he₁, Option.pure_def]
    · rcases Nat.lt_succ_iff_lt_or_eq.mp hy with hlt | rfl
      · rw [Mem.nextOf, Function.update_of_ne (hne y hlt).symm]
        exact hlinks y hlt
      · rw [Mem.nextOf, Function.update_self]
        rfl
    · rw [Function.update_of_ne (hx c (Nat.lt_succ_self c))]
      exact hsame x fun y hy ↦ hx y (Nat.lt_succ_of_lt hy)

/-- A new layer is free as a whole, from the first entry to the last. -/
theorem ObjectLayer.new_spec (m : Mem) {b sz : ℕ} (hsz : 0 < sz) :
    ∃ m', ObjectLayer.new L m b sz = some (m', ⟨b, some (L.entry b 0), sz, 0⟩) ∧
      (∀ x, x.arena ≠ b → m' x = m x) ∧
      ∀ y < sz, m'.nextOf (L.entry b y)
        = some (if y + 1 < sz then some (L.entry b (y + 1)) else none) := by
  have hread : ∀ y < sz, m.newArena L b sz (L.entry b y) = some L.fresh := fun y hy ↦ by
    have hentry : (L.entry b y).offset % L.size = 0 ∧ (L.entry b y).offset / L.size < sz :=
      ⟨Nat.mul_mod_left y L.size, by rwa [EntryLayout.entry, Nat.mul_div_cancel y L.size_pos]⟩
    rw [Mem.newArena]
    exact (if_pos rfl).trans (if_pos hentry)
  obtain ⟨m₁, hrun, hlinks, hsame⟩ := linkEntries_spec (c := sz - 1)
    fun y hy ↦ ⟨_, hread y (by omega)⟩
  have hlast : m₁ (L.entry b (sz - 1)) = some L.fresh := by
    rw [hsame _ fun y hy heq ↦ absurd (EntryLayout.entry_inj.mp heq).2 (Nat.ne_of_gt hy)]
    exact hread _ (by omega)
  refine ⟨Function.update m₁ (L.entry b (sz - 1)) (some (L.setNext L.fresh none)), ?_,
    fun x hx ↦ ?_, fun y hy ↦ ?_⟩
  · rw [ObjectLayer.new, if_neg (Nat.ne_of_gt hsz), hrun]
    simp only [Option.bind_eq_bind, Option.bind_some, Mem.setNext, hlast, Option.pure_def]
  · have hne : ∀ y, x ≠ L.entry b y := fun y heq ↦ hx (by rw [heq]; rfl)
    rw [Function.update_of_ne (hne _), hsame x fun y _ ↦ hne y, Mem.newArena, if_neg hx]
  · by_cases hy' : y = sz - 1
    · rw [Mem.nextOf, hy', Function.update_self, if_neg (by omega)]
      rfl
    · have hne : L.entry b y ≠ L.entry b (sz - 1) := fun heq ↦ hy' (EntryLayout.entry_inj.mp heq).2
      rw [Mem.nextOf, Function.update_of_ne hne, if_pos (by omega)]
      exact hlinks y (by omega)

/-- The places after the arena `b` has been allocated. -/
def allocated (place : Ptr → EntryPlace) (b : ℕ) (ptr : Ptr) : EntryPlace :=
  if ptr.arena = b then .free else place ptr

/-- **A layer is made**, at an arena that is not in use. -/
theorem Core.grow (h : Core L n m pools place) (hnone : (pools i).layers k = none) {b sz : ℕ}
    (hunused : ∀ i k ly, (pools i).layers k = some ly → ly.arena ≠ b) (hsz : 0 < sz) :
    ∃ m', ObjectLayer.new L m b sz = some (m', ⟨b, some (L.entry b 0), sz, 0⟩) ∧
      Core L n m' (Function.update pools i ((pools i).setLayer k
        (some ⟨b, some (L.entry b 0), sz, 0⟩))) (allocated place b) ∧
      ∀ x : Ptr, x.arena ≠ b → m' x = m x := by
  obtain ⟨m', hnew, hsame, hlinks⟩ := ObjectLayer.new_spec (L := L) m (b := b) hsz
  refine ⟨m', hnew, ?_, hsame⟩
  let ly₀ : ObjectLayer := ⟨b, some (L.entry b 0), sz, 0⟩
  have hlayers : ∀ i' k',
      (Function.update pools i ((pools i).setLayer k (some ly₀)) i').layers k' =
        if i' = i ∧ k' = k then some ly₀ else (pools i').layers k' := update_layers _ rfl
  have hold : ∀ {i' k' : ℕ} {x : Ptr}, EntryOf L pools i' k' x →
      x.arena ≠ b ∧ ¬(i' = i ∧ k' = k) := by
    rintro i' k' x ⟨ly, hly, hhas⟩
    refine ⟨by rw [hhas.arena]; exact hunused i' k' ly hly, ?_⟩
    rintro ⟨rfl, rfl⟩
    rw [hnone] at hly
    cases hly
  have hentry : ∀ {i' k' : ℕ} {x : Ptr},
      EntryOf L (Function.update pools i ((pools i).setLayer k (some ly₀))) i' k' x ↔
        EntryOf L pools i' k' x ∨ (i' = i ∧ k' = k) ∧ ly₀.Has L x := by
    intro i' k' x
    rw [EntryOf, hlayers]
    by_cases hhere : i' = i ∧ k' = k
    · rw [if_pos hhere]
      constructor
      · rintro ⟨ly, hly, hhas⟩
        rw [Option.some.injEq] at hly
        exact Or.inr ⟨hhere, hly ▸ hhas⟩
      · intro hx
        exact ⟨ly₀, rfl, (hx.resolve_left fun hx ↦ (hold hx).2 hhere).2⟩
    · rw [if_neg hhere]
      exact ⟨Or.inl, fun hx ↦ hx.resolve_right fun hx ↦ hhere hx.1⟩
  have hnewPlace : ∀ {x : Ptr}, ly₀.Has L x → allocated place b x = .free :=
    fun hx ↦ if_pos hx.arena
  have holdPlace : ∀ {i' k' : ℕ} {x : Ptr}, EntryOf L pools i' k' x →
      allocated place b x = place x := fun hx ↦ if_neg (hold hx).1
  have holdMem : ∀ {i' k' : ℕ} {x : Ptr}, EntryOf L pools i' k' x → m' x = m x :=
    fun hx ↦ hsame _ (hold hx).1
  constructor
  case apart =>
    intro i₁ k₁ ly₁ i₂ k₂ ly₂ h₁ h₂ heq
    rw [hlayers] at h₁ h₂
    by_cases hhere₁ : i₁ = i ∧ k₁ = k <;> by_cases hhere₂ : i₂ = i ∧ k₂ = k
    · exact ⟨hhere₁.1.trans hhere₂.1.symm, hhere₁.2.trans hhere₂.2.symm⟩
    · rw [if_pos hhere₁, Option.some.injEq] at h₁
      rw [if_neg hhere₂] at h₂
      exact absurd (by rw [← heq, ← h₁]) (hunused i₂ k₂ ly₂ h₂)
    · rw [if_neg hhere₁] at h₁
      rw [if_pos hhere₂, Option.some.injEq] at h₂
      exact absurd (by rw [heq, ← h₂]) (hunused i₁ k₁ ly₁ h₁)
    · rw [if_neg hhere₁] at h₁
      rw [if_neg hhere₂] at h₂
      exact h.apart _ _ _ _ _ _ h₁ h₂ heq
  case readable =>
    intro i' k' x hx
    rcases hentry.mp hx with hx | ⟨-, y, hy, rfl⟩
    · rw [holdMem hx]
      exact h.readable i' k' x hx
    · have hlink := hlinks y hy
      rw [Mem.nextOf, Option.map_eq_some_iff] at hlink
      obtain ⟨e, he, -⟩ := hlink
      exact ⟨e, he⟩
  case free =>
    intro i' k' ly hly
    rw [hlayers] at hly
    by_cases hhere : i' = i ∧ k' = k
    · rw [if_pos hhere, Option.some.injEq] at hly
      subst hly
      exact freeList_new hsz hlinks fun x hx ↦ if_pos hx
    · rw [if_neg hhere] at hly
      obtain ⟨fs, hfs⟩ := h.free i' k' ly hly
      refine ⟨fs, hfs.congr (fun x hx ↦ ?_) fun x hx _ ↦ ?_⟩
      · rw [holdPlace ⟨ly, hly, hx⟩]
      · rw [Mem.nextOf, holdMem ⟨ly, hly, hx⟩, Mem.nextOf]
  case cached =>
    intro q i' j'
    obtain ⟨zs, hzs⟩ := h.cached q i' j'
    refine ⟨zs, hzs.congr ?_ (fun x ↦ ?_) fun x hx _ ↦ ?_⟩
    · by_cases hq : q = i
      · rw [hq, Function.update_self]
        rfl
      · rw [Function.update_of_ne hq]
    · rw [hentry]
      constructor
      · rintro ⟨hx | ⟨-, hx⟩, hplace⟩
        · exact ⟨hx, by rwa [holdPlace hx] at hplace⟩
        · rw [hnewPlace hx] at hplace
          cases hplace
      · rintro ⟨hx, hplace⟩
        exact ⟨Or.inl hx, by rwa [holdPlace hx]⟩
    · rw [Mem.nextOf, holdMem hx, Mem.nextOf]
  case foreign =>
    intro i' k' x q hx hplace
    rcases hentry.mp hx with hx | ⟨-, hx⟩
    · rw [holdPlace hx] at hplace
      exact h.foreign i' k' x q hx hplace
    · rw [hnewPlace hx] at hplace
      cases hplace
  case info =>
    intro i' k' x hx hplace
    rcases hentry.mp hx with hx | ⟨-, hx⟩
    · rw [holdPlace hx] at hplace
      rw [holdMem hx]
      exact h.info i' k' x hx hplace
    · rw [hnewPlace hx] at hplace
      cases hplace

end TYThread
