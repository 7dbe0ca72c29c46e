import Mathlib.Data.List.Nodup
import TYThread.Library.LinkedList
import TYThread.Pool.Model

/-!
# Where the entries of the pools are

`place` says for each entry of each layer whether it is live, free, or cached, and by which pool.
That it is a function makes these cases exclude one another. `Core` ties it to the memory: the free
list of a layer runs through its free entries, each cache through the entries cached there, and the
counter of a layer is the number of its entries that are not free.

A step moves one entry, or the entries of one cache, from one place to another. `Core.update` is the
frame rule for the first kind: it leaves only the lists to be checked that the entry leaves or
joins.
-/

namespace TYThread

open LinkedList

inductive EntryPlace
  | live
  | free
  /-- In a cache of pool `q`. -/
  | cached (q : ℕ)
deriving DecidableEq

variable (L : EntryLayout)

/-- The pointer is an entry of the layer. -/
def ObjectLayer.Has (ly : ObjectLayer) (ptr : Ptr) : Prop :=
  ∃ x < ly.arenaCap, ptr = L.entry ly.arena x

/-- The pointer is an entry of layer `k` of pool `i`. -/
def EntryOf (pools : ℕ → ObjectPool) (i k : ℕ) (ptr : Ptr) : Prop :=
  ∃ ly, (pools i).layers k = some ly ∧ ly.Has L ptr

/-- The free list of a layer is `xs`. -/
structure FreeList (m : Mem) (place : Ptr → EntryPlace) (ly : ObjectLayer) (xs : List Ptr) :
    Prop where
  chain : Chain m.nextOf ly.head xs
  nodup : xs.Nodup
  mem : ∀ ptr, ptr ∈ xs ↔ ly.Has L ptr ∧ place ptr = .free
  count : ly.used + xs.length = ly.arenaCap

/-- A cache is empty, or a chain `xs` whose last entry is `tail`. The link of that entry is not
set. -/
def CacheHolds (m : Mem) (cache : PerLayerCache) (xs : List Ptr) : Prop :=
  (xs = [] ∧ cache = {}) ∨ ∃ ys t, xs = ys ++ [t] ∧ Path m.nextOf cache.head ys (some t) ∧
    cache.tail = some t ∧ cache.numCached = xs.length

/-- `caches[i][j]` of pool `q` holds `xs`. -/
structure CacheList (m : Mem) (pools : ℕ → ObjectPool) (place : Ptr → EntryPlace) (q i j : ℕ)
    (xs : List Ptr) : Prop where
  holds : CacheHolds m ((pools q).caches i j) xs
  nodup : xs.Nodup
  mem : ∀ ptr, ptr ∈ xs ↔ EntryOf L pools i j ptr ∧ place ptr = .cached q

/-- The places of the entries of `n` pools. -/
structure Core (n : ℕ) (m : Mem) (pools : ℕ → ObjectPool) (place : Ptr → EntryPlace) : Prop where
  apart : ∀ i k ly i' k' ly', (pools i).layers k = some ly → (pools i').layers k' = some ly' →
    ly.arena = ly'.arena → i = i' ∧ k = k'
  readable : ∀ i k ptr, EntryOf L pools i k ptr → ∃ e, m ptr = some e
  free : ∀ i k ly, (pools i).layers k = some ly → ∃ xs, FreeList L m place ly xs
  cached : ∀ q i j, ∃ xs, CacheList L m pools place q i j xs
  foreign : ∀ i k ptr q, EntryOf L pools i k ptr → place ptr = .cached q → q ≠ i ∧ q < n
  info : ∀ i k ptr, EntryOf L pools i k ptr → place ptr = .live →
    ∃ e, m ptr = some e ∧ e.readId = i ∧ e.readLayer = k

variable {L}

/-! ## Entries -/

theorem EntryLayout.size_pos (L : EntryLayout) : 0 < L.size := by
  rw [EntryLayout.size]
  omega

theorem EntryLayout.entry_inj {b x c y : ℕ} : L.entry b x = L.entry c y ↔ b = c ∧ x = y := by
  rw [EntryLayout.entry, EntryLayout.entry, Ptr.mk.injEq,
    Nat.mul_left_inj (Nat.ne_of_gt L.size_pos)]

theorem ObjectLayer.Has.arena {ly : ObjectLayer} {ptr : Ptr} (h : ly.Has L ptr) :
    ptr.arena = ly.arena := by
  obtain ⟨x, -, rfl⟩ := h
  rfl

theorem ObjectLayer.Has.check {ly : ObjectLayer} {ptr : Ptr} (h : ly.Has L ptr) :
    ¬(ptr.arena ≠ ly.arena ∨ ly.arenaCap * L.size ≤ ptr.offset) ∧ ptr.offset % L.size = 0 := by
  obtain ⟨x, hx, rfl⟩ := h
  refine ⟨?_, Nat.mul_mod_left x L.size⟩
  rintro (hne | hle)
  · exact hne rfl
  · exact absurd (Nat.le_of_mul_le_mul_right hle L.size_pos) (Nat.not_le.mpr hx)

theorem ObjectLayer.Has.congr {ly ly' : ObjectLayer} {ptr : Ptr} (h : ly.Has L ptr)
    (harena : ly'.arena = ly.arena) (hcap : ly'.arenaCap = ly.arenaCap) : ly'.Has L ptr := by
  obtain ⟨x, hx, rfl⟩ := h
  exact ⟨x, by rwa [hcap], by rw [harena]⟩

/-- What `read_id` and `read_layer` find is what `set_id_and_layer` has put there. -/
theorem EntryLayout.setIdAndLayer_spec (e : FakeEntry) {id layer : ℕ} (hid : id < 2 ^ 16)
    (hlayer : layer < 2 ^ 16) :
    (L.setIdAndLayer e id layer).readId = id ∧ (L.setIdAndLayer e id layer).readLayer = layer := by
  have hinfo : (L.setIdAndLayer e id layer).combinedInfo = id * 2 ^ 16 + layer := by
    have hmod : id * 2 ^ 16 % 2 ^ 32 = id * 2 ^ 16 := Nat.mod_eq_of_lt (by omega)
    rw [EntryLayout.setIdAndLayer, hmod, Nat.mul_comm, Nat.two_pow_add_eq_or_of_lt hlayer]
  constructor
  · rw [FakeEntry.readId, hinfo, Nat.shiftRight_eq_div_pow]
    omega
  · rw [FakeEntry.readLayer, hinfo, show (0xFFFF : ℕ) = 2 ^ 16 - 1 from rfl,
      Nat.and_two_pow_sub_one_eq_mod]
    omega

section

variable {n : ℕ} {m m' : Mem} {pools pools' : ℕ → ObjectPool} {place place' : Ptr → EntryPlace}
  {i j k q : ℕ} {ly ly' : ObjectLayer} {ptr : Ptr} {xs : List Ptr}

theorem Core.entry_unique (h : Core L n m pools place) {i' k' : ℕ} (hi : EntryOf L pools i k ptr)
    (hi' : EntryOf L pools i' k' ptr) : i = i' ∧ k = k' := by
  obtain ⟨ly, hly, hhas⟩ := hi
  obtain ⟨ly', hly', hhas'⟩ := hi'
  exact h.apart _ _ _ _ _ _ hly hly' (hhas.arena.symm.trans hhas'.arena)

theorem FreeList.congr (h : FreeList L m place ly xs)
    (hplace : ∀ ptr, ly.Has L ptr → (place' ptr = .free ↔ place ptr = .free))
    (hnext : ∀ ptr, ly.Has L ptr → place ptr = .free → m'.nextOf ptr = m.nextOf ptr) :
    FreeList L m' place' ly xs := by
  refine ⟨h.chain.congr fun x hx ↦ ?_, h.nodup, fun ptr ↦ ?_, h.count⟩
  · obtain ⟨hhas, hfree⟩ := (h.mem x).mp hx
    exact hnext x hhas hfree
  · rw [h.mem]
    exact and_congr_right fun hhas ↦ (hplace ptr hhas).symm

theorem CacheHolds.congr {cache : PerLayerCache} (h : CacheHolds m cache xs)
    (hnext : ∀ x ∈ xs, m'.nextOf x = m.nextOf x) : CacheHolds m' cache xs := by
  rcases h with ⟨hnil, hcache⟩ | ⟨ys, t, rfl, hpath, htail, hcount⟩
  · exact Or.inl ⟨hnil, hcache⟩
  · exact Or.inr ⟨ys, t, rfl, hpath.congr fun x hx ↦ hnext x (List.mem_append_left _ hx), htail,
      hcount⟩

theorem CacheHolds.unique {cache : PerLayerCache} {ys : List Ptr} (hx : CacheHolds m cache xs)
    (hy : CacheHolds m cache ys) : xs = ys := by
  rcases hx with ⟨rfl, hcache⟩ | ⟨xs, t, rfl, hpath, htail, hnum⟩
  · rcases hy with ⟨rfl, -⟩ | ⟨ys, u, rfl, -, htail', -⟩
    · rfl
    · rw [hcache] at htail'
      cases htail'
  · rcases hy with ⟨rfl, hcache⟩ | ⟨ys, u, rfl, hpath', htail', hnum'⟩
    · rw [hcache] at htail
      cases htail
    · rw [htail, Option.some.injEq] at htail'
      rw [hnum, List.length_append, List.length_append, List.length_singleton,
        List.length_singleton, Nat.add_left_inj] at hnum'
      rw [htail', hpath.unique hpath' hnum']

theorem CacheList.congr (h : CacheList L m pools place q i j xs)
    (hcache : (pools' q).caches i j = (pools q).caches i j)
    (hmem : ∀ ptr, (EntryOf L pools' i j ptr ∧ place' ptr = .cached q) ↔
      (EntryOf L pools i j ptr ∧ place ptr = .cached q))
    (hnext : ∀ ptr, EntryOf L pools i j ptr → place ptr = .cached q →
      m'.nextOf ptr = m.nextOf ptr) :
    CacheList L m' pools' place' q i j xs := by
  refine ⟨?_, h.nodup, fun ptr ↦ by rw [h.mem, hmem]⟩
  rw [hcache]
  refine h.holds.congr fun x hx ↦ ?_
  obtain ⟨hentry, hplace⟩ := (h.mem x).mp hx
  exact hnext x hentry hplace

/-- The arena of a layer and its size. -/
def ObjectLayer.extent (ly : ObjectLayer) : ℕ × ℕ := (ly.arena, ly.arenaCap)

/-- The pools have the same layers, as far as the arenas go. -/
def SameArenas (pools pools' : ℕ → ObjectPool) : Prop :=
  ∀ i k, ((pools' i).layers k).map ObjectLayer.extent = ((pools i).layers k).map ObjectLayer.extent

theorem SameArenas.layer (h : SameArenas pools pools') (hly : (pools' i).layers k = some ly') :
    ∃ ly, (pools i).layers k = some ly ∧ ly'.arena = ly.arena ∧ ly'.arenaCap = ly.arenaCap := by
  have hext := h i k
  rw [hly, Option.map_some, eq_comm, Option.map_eq_some_iff] at hext
  obtain ⟨ly, hly, heq⟩ := hext
  rw [ObjectLayer.extent, ObjectLayer.extent, Prod.mk.injEq] at heq
  exact ⟨ly, hly, heq.1.symm, heq.2.symm⟩

theorem sameArenas_of_layers (h : ∀ i, (pools' i).layers = (pools i).layers) :
    SameArenas pools pools' :=
  fun i k ↦ by rw [h]

theorem SameArenas.symm (h : SameArenas pools pools') : SameArenas pools' pools :=
  fun i k ↦ (h i k).symm

theorem SameArenas.trans {pools'' : ℕ → ObjectPool} (h : SameArenas pools pools')
    (h' : SameArenas pools' pools'') : SameArenas pools pools'' :=
  fun i k ↦ (h' i k).trans (h i k)

theorem SameArenas.entryOf (h : SameArenas pools pools') :
    EntryOf L pools' i k ptr ↔ EntryOf L pools i k ptr := by
  constructor
  · rintro ⟨ly', hly', hhas⟩
    obtain ⟨ly, hly, harena, hcap⟩ := h.layer hly'
    exact ⟨ly, hly, hhas.congr harena.symm hcap.symm⟩
  · rintro ⟨ly, hly, hhas⟩
    obtain ⟨ly', hly', harena, hcap⟩ := h.symm.layer hly
    exact ⟨ly', hly', hhas.congr harena.symm hcap.symm⟩

theorem Core.apart_of_same (h : Core L n m pools place) (hsame : SameArenas pools pools')
    (i k : ℕ) (ly : ObjectLayer) (i' k' : ℕ) (ly' : ObjectLayer)
    (hly : (pools' i).layers k = some ly) (hly' : (pools' i').layers k' = some ly')
    (harena : ly.arena = ly'.arena) : i = i' ∧ k = k' := by
  obtain ⟨ly₁, h₁, harena₁, -⟩ := hsame.layer hly
  obtain ⟨ly₂, h₂, harena₂, -⟩ := hsame.layer hly'
  exact h.apart _ _ _ _ _ _ h₁ h₂ (by rw [← harena₁, harena, harena₂])

/-- **The frame rule.** The entry `ptr` of layer `k` of pool `i` comes to be at `v`, and the memory
changes there only. What is left to check are the lists that have changed. -/
theorem Core.update (h : Core L n m pools place) (hentry : EntryOf L pools i k ptr) {e : FakeEntry}
    {v : EntryPlace} (hmem : m' = Function.update m ptr (some e)) (hsame : SameArenas pools pools')
    (hfree : ∀ i' k' ly', (pools' i').layers k' = some ly' →
      ((pools i').layers k' = some ly' ∧
        ((place ptr = .free ∨ v = .free) → ¬(i' = i ∧ k' = k))) ∨
      ∃ xs, FreeList L m' (Function.update place ptr v) ly' xs)
    (hcached : ∀ q i' j', ((pools' q).caches i' j' = (pools q).caches i' j' ∧
        ((place ptr = .cached q ∨ v = .cached q) → ¬(i' = i ∧ j' = k))) ∨
      ∃ xs, CacheList L m' pools' (Function.update place ptr v) q i' j' xs)
    (hforeign : ∀ q, v = .cached q → q ≠ i ∧ q < n)
    (hinfo : v = .live → e.readId = i ∧ e.readLayer = k) :
    Core L n m' pools' (Function.update place ptr v) := by
  have hother : ∀ x, x ≠ ptr → m'.nextOf x = m.nextOf x :=
    fun x hx ↦ by rw [Mem.nextOf, hmem, Function.update_of_ne hx, Mem.nextOf]
  constructor
  case apart => exact h.apart_of_same hsame
  case readable =>
    intro i' k' x hx
    by_cases hxp : x = ptr
    · exact ⟨e, by rw [hmem, hxp, Function.update_self]⟩
    · rw [hmem, Function.update_of_ne hxp]
      exact h.readable i' k' x (hsame.entryOf.mp hx)
  case free =>
    intro i' k' ly' hly'
    rcases hfree i' k' ly' hly' with ⟨hly, hnot⟩ | hnew
    · obtain ⟨xs, hxs⟩ := h.free i' k' ly' hly
      refine ⟨xs, hxs.congr (fun x hx ↦ ?_) fun x hx hxfree ↦ hother x ?_⟩
      · by_cases hxp : x = ptr
        · subst hxp
          have hhere := h.entry_unique ⟨ly', hly, hx⟩ hentry
          rw [Function.update_self]
          exact iff_of_false (fun hv ↦ hnot (Or.inr hv) hhere) fun hp ↦ hnot (Or.inl hp) hhere
        · rw [Function.update_of_ne hxp]
      · rintro rfl
        exact hnot (Or.inl hxfree) (h.entry_unique ⟨ly', hly, hx⟩ hentry)
    · exact hnew
  case cached =>
    intro q i' j'
    rcases hcached q i' j' with ⟨hcache, hnot⟩ | hnew
    · obtain ⟨xs, hxs⟩ := h.cached q i' j'
      refine ⟨xs, hxs.congr hcache (fun x ↦ ?_) fun x hx hxcached ↦ hother x ?_⟩
      · rw [hsame.entryOf]
        refine and_congr_right fun hx ↦ ?_
        by_cases hxp : x = ptr
        · subst hxp
          have hhere := h.entry_unique hx hentry
          rw [Function.update_self]
          exact iff_of_false (fun hv ↦ hnot (Or.inr hv) hhere) fun hp ↦ hnot (Or.inl hp) hhere
        · rw [Function.update_of_ne hxp]
      · rintro rfl
        exact hnot (Or.inl hxcached) (h.entry_unique hx hentry)
    · exact hnew
  case foreign =>
    intro i' k' x q hx hplace
    have hx' := hsame.entryOf.mp hx
    by_cases hxp : x = ptr
    · subst hxp
      obtain ⟨rfl, rfl⟩ := h.entry_unique hx' hentry
      rw [Function.update_self] at hplace
      exact hforeign q hplace
    · rw [Function.update_of_ne hxp] at hplace
      exact h.foreign i' k' x q hx' hplace
  case info =>
    intro i' k' x hx hplace
    have hx' := hsame.entryOf.mp hx
    by_cases hxp : x = ptr
    · subst hxp
      obtain ⟨rfl, rfl⟩ := h.entry_unique hx' hentry
      rw [Function.update_self] at hplace
      exact ⟨e, by rw [hmem, Function.update_self], hinfo hplace⟩
    · rw [Function.update_of_ne hxp] at hplace
      rw [hmem, Function.update_of_ne hxp]
      exact h.info i' k' x hx' hplace

end

end TYThread
