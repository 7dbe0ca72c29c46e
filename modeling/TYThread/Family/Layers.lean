import Mathlib.Data.Int.ConditionallyCompleteOrder
import TYThread.Family.Refinement

/-!
# The layers of every list of a run

The representation invariant, read without the internals of its proof. The cells of a level get the
positions from `headOff` to `tailOff - 1`. Then the nodes of a layer are one for each block of the
level below: `64` consecutive positions that start at a multiple of `64`, all of them filled, the
first one still there. The candidate of a level is the first item of the block that is being filled.
And whatever a list refers to is an element or a node of its own.
-/

namespace TYThread

open LinkedList Transition

/-- The link of a live skip node. -/
def Heap.nextNodeOf (h : Heap) (a : Addr) : Option (Option Addr) := (h.node a).map SkipNode.nextNode

namespace Layer

/-- The block of `64` positions from `c` on is complete, and its first item is still present. -/
def Block (L : Layer) (c : ℤ) : Prop := c % 64 = 0 ∧ L.headOff ≤ c ∧ c + 64 ≤ L.tailOff

/-- The first position of the aligned block at the tail. -/
def lastStart (L : Layer) : ℤ := L.tailOff / 64 * 64

/-- The cells of the level, first to last, when `cell p` is the one at position `p`. -/
def items (L : Layer) (cell : ℤ → Addr) : List Addr := cells cell L.headOff L.tailOff

end Layer

/-- The nodes of `hi` stand for the blocks of `lo`, in order: the one at position `p` for the block
that starts at `start p`. -/
structure StandsFor (h : Heap) (lo hi : Layer) (cell cell' : ℤ → Addr) (start : ℤ → ℤ) : Prop where
  mono : StrictMono start
  block_iff : ∀ c, lo.Block c ↔ ∃ p, hi.Has p ∧ start p = c
  node : ∀ p, hi.Has p → ∃ nd, h.node (cell' p) = some nd ∧ nd.downNode = some (cell (start p)) ∧
    nd.lastDownNode = some (cell (start p + 63))

/-- The list `s` with its levels: `cell k p` is the cell at position `p` of level `k`, the base list
being level `0` and `layers[i]` being level `i + 1`. -/
structure Layered (h : Heap) (s : Skiplist) (cell : ℕ → ℤ → Addr) : Prop where
  elems : Chain h.nextOf s.head (s.base.items (cell 0))
  nodes : ∀ i < NLayers,
    Chain h.nextNodeOf (s.layers i).headNode ((s.layers i).items (cell (i + 1)))
  offsets : ∀ k ≤ NLayers, 0 ≤ (s.level k).headOff ∧ (s.level k).headOff ≤ (s.level k).tailOff
  tail : ∀ k ≤ NLayers, (s.level k).headOff < (s.level k).tailOff →
    (s.level k).tailNode = some (cell k ((s.level k).tailOff - 1))
  distinct : ∀ k ≤ NLayers, ((s.level k).items (cell k)).Nodup
  standsFor : ∀ i < NLayers, ∃ start,
    StandsFor h (s.level i) (s.layers i) (cell i) (cell (i + 1)) start
  candidate : ∀ k < NLayers, (s.level k).candidate =
    if (s.level k).tailOff % 64 ≠ 0 ∧ (s.level k).headOff ≤ (s.level k).lastStart
    then some (cell k (s.level k).lastStart) else none

/-- A pointer of the list that is in use refers to the cell `a` of level `k`. A tail pointer is in
use while its level is not empty. -/
inductive Skiplist.Refers (h : Heap) (s : Skiplist) (cell : ℕ → ℤ → Addr) : ℕ → Addr → Prop
  | head {k : ℕ} {a : Addr} (ptr : (s.level k).headNode = some a) : Refers h s cell k a
  | tail {k : ℕ} {a : Addr} (used : (s.level k).headNode ≠ none)
      (ptr : (s.level k).tailNode = some a) : Refers h s cell k a
  | candidate {k : ℕ} {a : Addr} (ptr : (s.level k).candidate = some a) : Refers h s cell k a
  | next {e a : Addr} (elem : e ∈ s.base.items (cell 0)) (ptr : h.nextOf e = some (some a)) :
      Refers h s cell 0 a
  | nextNode {i : ℕ} {n a : Addr} {nd : SkipNode} (layer : i < NLayers)
      (node : n ∈ (s.layers i).items (cell (i + 1))) (read : h.node n = some nd)
      (ptr : nd.nextNode = some a) : Refers h s cell (i + 1) a
  | downNode {i : ℕ} {n a : Addr} {nd : SkipNode} (layer : i < NLayers)
      (node : n ∈ (s.layers i).items (cell (i + 1))) (read : h.node n = some nd)
      (ptr : nd.downNode = some a) : Refers h s cell i a
  | lastDownNode {i : ℕ} {n a : Addr} {nd : SkipNode} (layer : i < NLayers)
      (node : n ∈ (s.layers i).items (cell (i + 1))) (read : h.node n = some nd)
      (ptr : nd.lastDownNode = some a) : Refers h s cell i a

/-! ## One list -/

section

variable {h : Heap} {s : Skiplist} {Λ : Layout} {lo hi : Layer} {cell : ℤ → Addr} {δ : ℤ}

/-- The nodes of the upper level are exactly those of the complete blocks. -/
theorem Joint.block_iff (hj : Joint lo hi cell δ) (c : ℤ) :
    lo.Block c ↔ ∃ p, hi.Has p ∧ 64 * p + δ = c := by
  obtain ⟨⟨hdvd, hle, hlt, hfull⟩, hrest, -⟩ := hj
  constructor
  · rintro ⟨hc, hhead, htail⟩
    exact ⟨(c - δ) / 64, ⟨by omega, by omega⟩, by omega⟩
  · rintro ⟨p, ⟨hp, hp'⟩, rfl⟩
    exact ⟨by omega, by omega, by omega⟩

/-- The candidate is the first item of the incomplete block, if it is still there. -/
theorem Joint.candidate_eq (hj : Joint lo hi cell δ) (hhi : hi.headOff ≤ hi.tailOff) :
    lo.candidate = if lo.tailOff % 64 ≠ 0 ∧ lo.headOff ≤ lo.lastStart
      then some (cell lo.lastStart) else none := by
  obtain ⟨⟨hdvd, hle, hlt, hfull⟩, hrest, hcand⟩ := hj
  rw [hcand, Layer.lastStart]
  by_cases hc : 64 * hi.tailOff + δ < lo.tailOff
  · have hstart : lo.tailOff / 64 * 64 = 64 * hi.tailOff + δ := by omega
    rw [firstCell_of_lt hc, hstart, if_pos ⟨by omega, by omega⟩]
  · rw [firstCell_of_le (by omega), if_neg]
    rintro ⟨hrem, hhead⟩
    omega

theorem Rep.nodeSegment (hr : Rep h s.level Λ) {i : ℕ} (hi : i < NLayers) :
    Segment h.nextNodeOf (Λ.cell (i + 1)) (s.layers i).headOff (s.layers i).tailOff := by
  intro p hp hp'
  rw [Heap.nextNodeOf, hr.nodes.node i hi p ⟨hp, hp'⟩]
  rfl

theorem Rep.layered (hr : Rep h s.level Λ) : Layered h s Λ.cell := by
  have hlevel := hr.nodes.level
  refine ⟨?_, fun i hi ↦ ?_, fun k hk ↦ ⟨(hlevel k hk).nonneg, (hlevel k hk).le⟩,
    fun k hk ↦ (hlevel k hk).tail, fun k hk ↦ (hlevel k hk).distinct.nodup, fun i hi ↦ ?_,
    fun k hk ↦ (hr.joints k hk).candidate_eq (hlevel (k + 1) hk).le⟩
  · have hhead : s.head = firstCell (Λ.cell 0) s.headOff s.tailOff :=
      (hlevel 0 (Nat.zero_le _)).head
    rw [hhead]
    exact Segment.chain hr.elems
  · have hhead : (s.layers i).headNode
        = firstCell (Λ.cell (i + 1)) (s.layers i).headOff (s.layers i).tailOff :=
      (hlevel (i + 1) hi).head
    rw [hhead]
    exact (hr.nodeSegment hi).chain
  · refine ⟨fun p ↦ 64 * p + Λ.shift i, fun p q hpq ↦ ?_, (hr.joints i hi).block_iff, fun p hp ↦ ?_⟩
    · change 64 * p + Λ.shift i < 64 * q + Λ.shift i
      omega
    · exact ⟨_, hr.nodes.node i hi p hp, rfl, rfl⟩

theorem mem_items {L : Layer} {a : Addr} : a ∈ L.items cell ↔ ∃ p, L.Has p ∧ cell p = a := by
  rw [Layer.items, mem_cells]
  simp only [Layer.Has, and_assoc]

theorem mem_items_of_firstCell {L : Layer} {p : ℤ} {a : Addr} (hp : L.headOff ≤ p)
    (h : firstCell cell p L.tailOff = some a) : a ∈ L.items cell := by
  rw [firstCell] at h
  split at h
  · rename_i hlt
    exact mem_items.mpr ⟨p, ⟨hp, hlt⟩, Option.some.inj h⟩
  · simp at h

/-- **Every pointer in use** of a list refers to an item of its own. -/
theorem Rep.own (hr : Rep h s.level Λ) {k : ℕ} (hk : k ≤ NLayers) {a : Addr}
    (ha : s.Refers h Λ.cell k a) : a ∈ (s.level k).items (Λ.cell k) := by
  have hlevel := hr.nodes.level
  cases ha with
  | head ptr =>
    rw [(hlevel k hk).head] at ptr
    exact mem_items_of_firstCell (le_refl _) ptr
  | tail used ptr =>
    have hlt : (s.level k).headOff < (s.level k).tailOff := by
      by_contra hge
      exact used (by rw [(hlevel k hk).head, firstCell_of_le (by omega)])
    rw [(hlevel k hk).tail hlt, Option.some.injEq] at ptr
    exact mem_items.mpr ⟨_, ⟨by omega, by omega⟩, ptr⟩
  | candidate ptr =>
    rcases Nat.lt_or_eq_of_le hk with hlt | rfl
    · have hj := hr.joints k hlt
      have hnext := (hlevel (k + 1) hlt).le
      rw [hj.cand] at ptr
      refine mem_items_of_firstCell ?_ ptr
      have := hj.le_start
      omega
    · rcases hr.top with hnone | ⟨c, -, hc, hc', -, hsome⟩
      · rw [hnone] at ptr
        simp at ptr
      · rw [hsome, Option.some.injEq] at ptr
        exact mem_items.mpr ⟨c, ⟨hc, hc'⟩, ptr⟩
  | next elem ptr =>
    obtain ⟨p, hp, rfl⟩ := mem_items.mp elem
    have hnext := hr.elems p hp.1 hp.2
    rw [ptr, Option.some.injEq] at hnext
    exact mem_items_of_firstCell (le_trans hp.1 (by omega)) hnext.symm
  | @nextNode i n _ nd layer node read ptr =>
    obtain ⟨p, hp, rfl⟩ := mem_items.mp node
    rw [hr.nodes.node i layer p hp, Option.some.injEq] at read
    rw [← read] at ptr
    exact mem_items_of_firstCell (le_trans hp.1 (by omega)) ptr
  | @downNode _ n _ nd layer node read ptr =>
    obtain ⟨p, hp, rfl⟩ := mem_items.mp node
    rw [hr.nodes.node k layer p hp, Option.some.injEq] at read
    rw [← read, Layout.nodeAt, Option.some.injEq] at ptr
    obtain ⟨-, hhead, htail⟩ := ((hr.joints k layer).block_iff _).mpr ⟨p, hp, rfl⟩
    exact mem_items.mpr ⟨_, ⟨hhead, by omega⟩, ptr⟩
  | @lastDownNode _ n _ nd layer node read ptr =>
    obtain ⟨p, hp, rfl⟩ := mem_items.mp node
    rw [hr.nodes.node k layer p hp, Option.some.injEq] at read
    rw [← read, Layout.nodeAt, Option.some.injEq] at ptr
    obtain ⟨-, hhead, htail⟩ := ((hr.joints k layer).block_iff _).mpr ⟨p, hp, rfl⟩
    exact mem_items.mpr ⟨_, ⟨by omega, by omega⟩, ptr⟩

end

theorem Layered.has_node {h : Heap} {s : Skiplist} {cell : ℕ → ℤ → Addr} (hs : Layered h s cell)
    {i : ℕ} (hi : i < NLayers) {c : ℤ} (hc : (s.level i).Block c) :
    ∃ p nd, (s.layers i).Has p ∧ h.node (cell (i + 1) p) = some nd ∧ nd.downNode = some (cell i c) ∧
      nd.lastDownNode = some (cell i (c + 63)) := by
  obtain ⟨start, hstart⟩ := hs.standsFor i hi
  obtain ⟨p, hp, rfl⟩ := (hstart.block_iff c).mp hc
  obtain ⟨nd, hnd⟩ := hstart.node p hp
  exact ⟨p, nd, hp, hnd⟩

/-! ## All lists of a world -/

/-- The items of two lists are apart: no element of one is an element of the other, and no node of
one is a node of the other. -/
def ItemsApart (s t : Skiplist) (cell cell' : ℕ → ℤ → Addr) : Prop :=
  ∀ j ≤ NLayers, ∀ k ≤ NLayers, (j = 0 ↔ k = 0) →
    ∀ a ∈ (s.level j).items (cell j), a ∉ (t.level k).items (cell' k)

/-- **The representation invariant of every reachable list.** After any run, all lists are layered
as described, and a pointer in use of one list refers to an item of this list, which is no item of
any other list. -/
theorem lists_layered {ids : Finset ℕ} {ops : List Op} {w : World}
    (hrun : Run (World.Step id) (World.initial ids) ops w) :
    ∃ cell : ℕ → ℕ → ℤ → Addr, ∀ l s, w.lists l = some s →
      Layered w.heap s (cell l) ∧
      (∀ k ≤ NLayers, ∀ a, s.Refers w.heap (cell l) k a → a ∈ (s.level k).items (cell l k)) ∧
      ∀ m t, w.lists m = some t → l ≠ m → ItemsApart s t (cell l) (cell m) := by
  obtain ⟨xs, hok⟩ := World.ok_of_run hrun
  obtain ⟨S, hlists⟩ := hok.lists
  have hlayout : ∀ l, ∃ Λ : Layout, ∀ s, w.lists l = some s →
      Rep w.heap s.level Λ ∧ elemCells s.level Λ = xs l ∧ nodeCells s.level Λ = S l := fun l ↦ by
    cases hl : w.lists l with
    | none => exact ⟨⟨fun _ _ ↦ 0, fun _ ↦ 0⟩, fun s hs ↦ by simp at hs⟩
    | some s =>
      obtain ⟨Λ, hΛ⟩ := hlists.holds l s hl
      exact ⟨Λ, fun t ht ↦ by rwa [← Option.some.inj ht]⟩
  choose Λ hΛ using hlayout
  refine ⟨fun l ↦ (Λ l).cell, fun l s hl ↦ ?_⟩
  obtain ⟨hr, helems, hnodes⟩ := hΛ l s hl
  refine ⟨hr.layered, fun k hk a ↦ hr.own hk, fun m t hm hlm j hj k hk hjk a ha ha' ↦ ?_⟩
  obtain ⟨-, helems', hnodes'⟩ := hΛ m t hm
  cases j with
  | zero =>
    obtain rfl := hjk.mp rfl
    have hal : a ∈ xs l := by
      rw [← helems]
      exact ha
    have ham : a ∈ xs m := by
      rw [← helems']
      exact ha'
    exact hlm (hlists.elems l m a hal ham)
  | succ j =>
    obtain ⟨k, rfl⟩ := Nat.exists_eq_succ_of_ne_zero fun hk0 ↦ Nat.succ_ne_zero j (hjk.mpr hk0)
    have hal : a ∈ S l := by
      rw [← hnodes]
      obtain ⟨p, hp, rfl⟩ := mem_items.mp ha
      exact ⟨j, hj, p, hp, rfl⟩
    have ham : a ∈ S m := by
      rw [← hnodes']
      obtain ⟨p, hp, rfl⟩ := mem_items.mp ha'
      exact ⟨k, hk, p, hp, rfl⟩
    exact hlm (hlists.nodes l m a hal ham)

/-- Both halves of a list of `200` elements: the rest has the node of the elements from `128` on and
a candidate, and the part that was given away has lost one of its two nodes. -/
theorem lists_layered_stealOps :
    ∃ (w : World) (s t : Skiplist) (cell : ℕ → ℕ → ℤ → Addr),
      Run (World.Step id) (World.initial {0, 2}) (stealOps 200) w ∧
      w.lists 0 = some s ∧ w.lists 2 = some t ∧ Layered w.heap s (cell 0) ∧
      Layered w.heap t (cell 2) ∧
      ItemsApart s t (cell 0) (cell 2) ∧ s.candidate = some (cell 0 0 192) ∧
      (∃ p nd, (s.layers 0).Has p ∧ w.heap.node (cell 0 1 p) = some nd ∧
        nd.downNode = some (cell 0 0 128) ∧ nd.lastDownNode = some (cell 0 0 191)) ∧
      ∃ p nd, (t.layers 0).Has p ∧ w.heap.node (cell 2 1 p) = some nd ∧
        nd.downNode = some (cell 2 0 64) ∧ nd.lastDownNode = some (cell 2 0 127) := by
  obtain ⟨w, s, t, hrun, hstolen⟩ := stealOps_run (n := 200) (by decide) (by decide)
  obtain ⟨cell, hcell⟩ := lists_layered hrun
  obtain ⟨hs, -, hapart⟩ := hcell 0 s hstolen.rest
  obtain ⟨ht, -, -⟩ := hcell 2 t hstolen.given
  have hheadₛ : s.headOff = 128 := hstolen.rest_headOff
  have htailₛ : s.tailOff = 200 := hstolen.rest_tailOff
  have hheadₜ : t.headOff = 1 := hstolen.given_headOff
  have htailₜ : t.tailOff = 128 := hstolen.given_tailOff
  refine ⟨w, s, t, cell, hrun, hstolen.rest, hstolen.given, hs, ht,
    hapart 2 t hstolen.given (by decide), ?_, hs.has_node (i := 0) (c := 128) (by decide) ?_,
    ht.has_node (i := 0) (c := 64) (by decide) ?_⟩
  · have hcandidate := hs.candidate 0 (by decide)
    simp only [Layer.lastStart, Skiplist.level_zero, Skiplist.base, hheadₛ, htailₛ] at hcandidate
    exact hcandidate
  · simp [Layer.Block, Skiplist.base, hheadₛ, htailₛ]
  · simp [Layer.Block, Skiplist.base, hheadₜ, htailₜ]

end TYThread
