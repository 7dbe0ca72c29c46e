import Mathlib.Algebra.BigOperators.Ring.Finset
import Mathlib.Order.Interval.Finset.Nat
import TYThread.Library.Counting
import TYThread.Skiplist.Contents

/-!
# How many skip nodes an operation makes and frees

The layers of a list count their nodes: there are as many as the offsets say. Every operation makes
as many nodes as its lists have more of them afterwards, and frees as many as they have less. This
can be read off the operations one by one, without the invariant of the lists. Only where
`dequeue_half` dissolves the last node of a layer, the invariant has to say that it is the last one.
-/

namespace TYThread

open Counting

/-! ## The live nodes -/

namespace Heap

/-- The number of live skip nodes. -/
noncomputable def nodeCount (h : Heap) : ℕ := holders (fun a ↦ (h.node a).isSome) true

/-- Only addresses that have been given out hold nodes. -/
def NodesBelow (h : Heap) : Prop := ∀ a, h.brk ≤ a → h.node a = none

/-- There are `d` more nodes in `h'` than in `h`. -/
def Gains (h h' : Heap) (d : ℤ) : Prop :=
  h.NodesBelow → h'.NodesBelow ∧ (h'.nodeCount : ℤ) = h.nodeCount + d

variable {h h' h'' : Heap} {a : Addr} {d e : ℤ}

theorem NodesBelow.finite (hb : h.NodesBelow) : Set.Finite {a | (h.node a).isSome = true} := by
  refine (Set.finite_Iio h.brk).subset fun a ha ↦ ?_
  by_contra hle
  have hsome : (h.node a).isSome = true := ha
  rw [hb a (not_lt.mp hle)] at hsome
  cases hsome

theorem Gains.refl (h : Heap) : Gains h h 0 := fun hb ↦ ⟨hb, (Int.add_zero _).symm⟩

theorem Gains.trans (h₁ : Gains h h' d) (h₂ : Gains h' h'' e) : Gains h h'' (d + e) := by
  intro hb
  obtain ⟨hb', hcount⟩ := h₁ hb
  obtain ⟨hb'', hcount'⟩ := h₂ hb'
  exact ⟨hb'', by rw [hcount', hcount, Int.add_assoc]⟩

theorem Gains.congr (hg : Gains h h' d) (hde : e = d) : Gains h h' e := hde ▸ hg

theorem Gains.of_node (hnode : h'.node = h.node) (hbrk : h'.brk = h.brk) : Gains h h' 0 := by
  intro hb
  refine ⟨fun a ha ↦ ?_, ?_⟩
  · rw [hnode]
    exact hb a (hbrk ▸ ha)
  · rw [nodeCount, hnode, nodeCount, Int.add_zero]

theorem nodeCount_setNode (hb : h.NodesBelow) (a : Addr) (nd : Option SkipNode) :
    (h.setNode a nd).nodeCount + (if (h.node a).isSome = true then 1 else 0)
      = h.nodeCount + (if nd.isSome = true then 1 else 0) := by
  have hupdate : (fun x ↦ ((h.setNode a nd).node x).isSome)
      = Function.update (fun x ↦ (h.node x).isSome) a nd.isSome :=
    Function.comp_update Option.isSome h.node a nd
  rw [nodeCount, hupdate]
  exact holders_update _ a _ true hb.finite

theorem NodesBelow.setNode (hb : h.NodesBelow) {nd : Option SkipNode} (hlive : h.node a ≠ none) :
    (h.setNode a nd).NodesBelow := by
  intro x hx
  have hxa : x ≠ a := by
    rintro rfl
    exact hlive (hb x hx)
  rw [setNode_node, Function.update_of_ne hxa]
  exact hb x hx

theorem Gains.write (hlive : h.node a ≠ none) (nd : SkipNode) :
    Gains h (h.setNode a (some nd)) 0 := by
  intro hb
  have hcount := nodeCount_setNode hb a (some nd)
  rw [if_pos (Option.isSome_iff_ne_none.mpr hlive), if_pos Option.isSome_some] at hcount
  exact ⟨hb.setNode hlive, by omega⟩

theorem Gains.free (hlive : h.node a ≠ none) : Gains h (h.setNode a none) (-1) := by
  intro hb
  have hcount := nodeCount_setNode hb a none
  rw [if_pos (Option.isSome_iff_ne_none.mpr hlive), if_neg (by simp)] at hcount
  exact ⟨hb.setNode hlive, by omega⟩

theorem Gains.newNode (h : Heap) : Gains h h.newNode.1 1 := by
  intro hb
  have hcount := nodeCount_setNode hb h.brk (some {})
  rw [hb h.brk (Nat.le_refl _), if_neg (by simp), if_pos Option.isSome_some] at hcount
  refine ⟨fun a ha ↦ ?_, ?_⟩
  · have hlt : h.brk < a := ha
    exact (Function.update_of_ne hlt.ne' _ _).trans (hb a hlt.le)
  · have hnode : h.newNode.1.nodeCount = (h.setNode h.brk (some {})).nodeCount := rfl
    omega

theorem Gains.setNextNode {p q : Option Addr} (hrun : h.setNextNode p q = some h') :
    Gains h h' 0 := by
  simp only [Heap.setNextNode, Option.bind_eq_bind, Option.bind_eq_some_iff] at hrun
  obtain ⟨a, -, nd, hnd, hrun⟩ := hrun
  rw [← Option.some.inj hrun]
  exact .write (by rw [hnd]; exact Option.some_ne_none nd) _

theorem live_setNextNode {p q : Option Addr} (hrun : h.setNextNode p q = some h')
    (hlive : h.node a ≠ none) : h'.node a ≠ none := by
  simp only [Heap.setNextNode, Option.bind_eq_bind, Option.bind_eq_some_iff] at hrun
  obtain ⟨x, -, nd, -, hrun⟩ := hrun
  rw [← Option.some.inj hrun, setNode_node]
  by_cases hax : a = x
  · rw [hax, Function.update_self]
    exact Option.some_ne_none _
  · rwa [Function.update_of_ne hax]

theorem Gains.setNext {p q : Option Addr} (hrun : h.setNext p q = some h') : Gains h h' 0 := by
  simp only [Heap.setNext, Option.bind_eq_bind, Option.bind_eq_some_iff] at hrun
  obtain ⟨a, -, o, -, hrun⟩ := hrun
  rw [← Option.some.inj hrun]
  exact .of_node rfl rfl

theorem Gains.increase {p : Option Addr} (hrun : TYThread.increase h p = some h') :
    Gains h h' 0 := by
  cases p with
  | none =>
    rw [← Option.some.inj hrun]
    exact .refl h
  | some a =>
    simp only [TYThread.increase, Option.bind_eq_bind, Option.bind_eq_some_iff] at hrun
    obtain ⟨o, -, hrun⟩ := hrun
    rw [← Option.some.inj hrun]
    exact .of_node rfl rfl

theorem Gains.decrease {p : Option Addr} (hrun : TYThread.decrease h p = some h') :
    Gains h h' 0 := by
  cases p with
  | none =>
    rw [← Option.some.inj hrun]
    exact .refl h
  | some a =>
    simp only [TYThread.decrease, Option.bind_eq_bind, Option.bind_eq_some_iff] at hrun
    obtain ⟨o, -, hrun⟩ := hrun
    split at hrun
    all_goals
      rw [← Option.some.inj hrun]
      exact .of_node rfl rfl

end Heap

/-! ## The nodes of a list -/

/-- The number of nodes of the layer. -/
def Layer.count (L : Layer) : ℤ := L.tailOff - L.headOff

/-- The number of nodes of all layers. -/
def layersCount (layers : ℕ → Layer) : ℤ := ∑ k ∈ Finset.range NLayers, (layers k).count

def Skiplist.nodeCount (s : Skiplist) : ℤ := layersCount s.layers

/-- The number of nodes of the list that there may be. -/
def nodesOf (o : Option Skiplist) : ℤ := o.elim 0 Skiplist.nodeCount

theorem layersCount_update {i : ℕ} (hi : i < NLayers) (layers : ℕ → Layer) (L : Layer) :
    layersCount (Function.update layers i L) = layersCount layers +
    (L.count - (layers i).count) := by
  have hsum := sum_update layers Layer.count (Finset.mem_range.mpr hi) L
  rw [layersCount, layersCount]
  omega

theorem Skiplist.nodeCount_setLayer {i : ℕ} (hi : i < NLayers) (s : Skiplist) (L : Layer) :
    (s.setLayer i L).nodeCount = s.nodeCount + (L.count - (s.layers i).count) :=
  layersCount_update hi s.layers L

theorem Skiplist.layers_setLayer_of_ne {i k : ℕ} (hk : k ≠ i) (s : Skiplist) (L : Layer) :
    (s.setLayer i L).layers k = s.layers k := Function.update_of_ne hk _ _

theorem Skiplist.layers_setLayer_self {i : ℕ} (s : Skiplist) (L : Layer) :
    (s.setLayer i L).layers i = L := Function.update_self ..

theorem Skiplist.nodeCount_new : ({} : Skiplist).nodeCount = 0 := by
  rw [Skiplist.nodeCount, layersCount]
  exact Finset.sum_eq_zero fun _ _ ↦ rfl

/-! ## Enqueue -/

section

open Heap

variable {h h' : Heap} {s s' r r' : Skiplist} {L L' : Layer} {layers layers' : ℕ → Layer}
  {cur last p : Option Addr} {n i : ℕ}

theorem appendNode_gains {new : Addr}
    (hrun : Skiplist.appendNode id h L cur last = some (h', L', new)) :
    Gains h h' 1 ∧ L'.count = L.count + 1 := by
  have hnew : h.newNode.1.node h.newNode.2 ≠ none := by
    simp [Heap.newNode]
  rw [Skiplist.appendNode] at hrun
  by_cases hhead : L.headNode = none
  · simp only [if_pos hhead, Option.bind_eq_bind, Option.bind_some, Option.some.injEq,
      Prod.mk.injEq] at hrun
    obtain ⟨rfl, rfl, -⟩ := hrun
    refine ⟨((Gains.newNode h).trans (.write hnew _)).congr rfl, ?_⟩
    simp only [Layer.count, id_eq]
    omega
  · simp only [if_neg hhead, Option.bind_eq_bind, Option.bind_some, Option.bind_eq_some_iff,
      Option.some.injEq, Prod.mk.injEq] at hrun
    obtain ⟨h₁, hset, rfl, rfl, -⟩ := hrun
    have hlive := Heap.live_setNextNode hset hnew
    refine ⟨(((Gains.newNode h).trans (.setNextNode hset)).trans (.write hlive _)).congr rfl, ?_⟩
    simp only [Layer.count, id_eq]
    omega

theorem addNodes_gains (hrun : Skiplist.addNodes id n i h layers cur last = some (h', layers'))
    (hi : i + n = NLayers) : Gains h h' (layersCount layers' - layersCount layers) := by
  induction n generalizing i h layers cur last with
  | zero =>
    simp only [Skiplist.addNodes, Option.some.injEq, Prod.mk.injEq] at hrun
    obtain ⟨rfl, rfl⟩ := hrun
    exact (Gains.refl h).congr (Int.sub_self _)
  | succ n ih =>
    rw [Skiplist.addNodes, Option.bind_eq_bind, Option.bind_eq_some_iff] at hrun
    obtain ⟨⟨h₁, L', new⟩, happend, hrun⟩ := hrun
    obtain ⟨hgains, hcount⟩ := appendNode_gains happend
    dsimp only at hrun
    -- One node more in this layer, whatever its candidate becomes.
    have hlayer : ∀ c, layersCount (Function.update layers i { L' with candidate := c })
        = layersCount layers + 1 := by
      intro c
      have hsame : ({ L' with candidate := c } : Layer).count = L'.count := rfl
      rw [layersCount_update (by omega), hsame, hcount]
      omega
    split at hrun
    · have hrest := ih hrun (by omega)
      rw [hlayer] at hrest
      exact (hgains.trans hrest).congr (by omega)
    · split at hrun
      all_goals
        simp only [Option.some.injEq, Prod.mk.injEq] at hrun
        obtain ⟨rfl, rfl⟩ := hrun
        refine hgains.congr ?_
        rw [hlayer]
        omega

theorem updateAfterEnque_gains (hrun : Skiplist.updateAfterEnque id h s = some (h', s')) :
    Gains h h' (s'.nodeCount - s.nodeCount) := by
  simp only [Skiplist.updateAfterEnque, id_eq] at hrun
  split at hrun
  · rw [Option.bind_eq_bind, Option.bind_eq_some_iff] at hrun
    obtain ⟨⟨h₁, layers⟩, hadd, hrun⟩ := hrun
    simp only [Option.some.injEq, Prod.mk.injEq] at hrun
    obtain ⟨rfl, rfl⟩ := hrun
    exact addNodes_gains hadd rfl
  · split at hrun
    all_goals
      simp only [Option.some.injEq, Prod.mk.injEq] at hrun
      obtain ⟨rfl, rfl⟩ := hrun
      exact (Gains.refl h).congr (Int.sub_self _)

theorem linkTail_gains (hrun : Skiplist.linkTail h s p = some (h', s')) :
    Gains h h' 0 ∧ s'.layers = s.layers := by
  rw [Skiplist.linkTail] at hrun
  split at hrun
  · simp only [Option.bind_eq_bind, Option.bind_eq_some_iff, Option.some.injEq,
      Prod.mk.injEq] at hrun
    obtain ⟨h₁, hfirst, h₂, hsecond, rfl, rfl⟩ := hrun
    exact ⟨(Gains.setNext hfirst).trans (.setNext hsecond), rfl⟩
  · simp only [Option.bind_eq_bind, Option.bind_eq_some_iff, Option.some.injEq,
      Prod.mk.injEq] at hrun
    obtain ⟨h₁, hfirst, rfl, rfl⟩ := hrun
    exact ⟨.setNext hfirst, rfl⟩

theorem enqueueMove_gains (hrun : Skiplist.enqueueMove id h s p = some (h', s')) :
    Gains h h' (s'.nodeCount - s.nodeCount) := by
  rw [Skiplist.enqueueMove, Option.bind_eq_bind, Option.bind_eq_some_iff] at hrun
  obtain ⟨⟨h₁, s₁⟩, hlink, hrun⟩ := hrun
  obtain ⟨hgains, hlayers⟩ := linkTail_gains hlink
  have hrest := updateAfterEnque_gains hrun
  rw [Skiplist.nodeCount, Skiplist.nodeCount, hlayers] at hrest
  exact (hgains.trans hrest).congr (Int.zero_add _).symm

theorem enqueueCopy_gains (hrun : Skiplist.enqueueCopy id h s p = some (h', s')) :
    Gains h h' (s'.nodeCount - s.nodeCount) := by
  simp only [Skiplist.enqueueCopy, Option.bind_eq_bind, Option.bind_eq_some_iff] at hrun
  obtain ⟨⟨h₁, s₁⟩, hlink, h₂, hincrease, hrun⟩ := hrun
  obtain ⟨hgains, hlayers⟩ := linkTail_gains hlink
  have hrest := updateAfterEnque_gains hrun
  rw [Skiplist.nodeCount, Skiplist.nodeCount, hlayers] at hrest
  exact ((hgains.trans (.increase hincrease)).trans hrest).congr (Int.zero_add _).symm

/-! ## Dequeue -/

theorem dropHead_gains (hrun : Skiplist.dropHead id h L = some (h', L')) :
    Gains h h' (-1) ∧ L'.count = L.count - 1 := by
  simp only [Skiplist.dropHead, Option.bind_eq_bind, Option.bind_eq_some_iff, Option.some.injEq,
    Prod.mk.injEq] at hrun
  obtain ⟨a, -, nd, hnd, rfl, rfl⟩ := hrun
  refine ⟨.free (by rw [hnd]; exact Option.some_ne_none nd), ?_⟩
  simp only [Layer.count, id_eq]
  omega

theorem dropHeads_gains (hrun : Skiplist.dropHeads id n i h layers = some (h', layers'))
    (hi : i + n ≤ NLayers) : Gains h h' (layersCount layers' - layersCount layers) := by
  induction n generalizing i h layers with
  | zero =>
    simp only [Skiplist.dropHeads, Option.some.injEq, Prod.mk.injEq] at hrun
    obtain ⟨rfl, rfl⟩ := hrun
    exact (Gains.refl h).congr (Int.sub_self _)
  | succ n ih =>
    rw [Skiplist.dropHeads, Option.bind_eq_bind, Option.bind_eq_some_iff] at hrun
    obtain ⟨⟨h₁, L'⟩, hdrop, hrun⟩ := hrun
    obtain ⟨hgains, hcount⟩ := dropHead_gains hdrop
    have hlayer : layersCount (Function.update layers i L') = layersCount layers - 1 := by
      rw [layersCount_update (by omega), hcount]
      omega
    dsimp only at hrun
    split at hrun
    · have hrest := ih hrun (by omega)
      rw [hlayer] at hrest
      exact (hgains.trans hrest).congr (by omega)
    · simp only [Option.some.injEq, Prod.mk.injEq] at hrun
      obtain ⟨rfl, rfl⟩ := hrun
      refine hgains.congr ?_
      rw [hlayer]
      omega

theorem dequeue_gains {t : Option Addr} (hrun : Skiplist.dequeue_ id h s = some (h', s', t)) :
    Gains h h' (s'.nodeCount - s.nodeCount) := by
  rw [Skiplist.dequeue_] at hrun
  cases hhead : s.head with
  | none =>
    simp only [hhead, Option.some.injEq, Prod.mk.injEq] at hrun
    obtain ⟨rfl, rfl, -⟩ := hrun
    exact (Gains.refl h).congr (Int.sub_self _)
  | some e =>
    simp only [hhead, Option.bind_eq_bind, Option.bind_eq_some_iff] at hrun
    obtain ⟨next, -, h₁, hset, hrun⟩ := hrun
    have hgains := Gains.setNext hset
    split at hrun
    · rw [Option.bind_eq_some_iff] at hrun
      obtain ⟨⟨h₂, layers⟩, hdrop, hrun⟩ := hrun
      simp only [Option.some.injEq, Prod.mk.injEq] at hrun
      obtain ⟨rfl, rfl, -⟩ := hrun
      exact (hgains.trans (dropHeads_gains hdrop (Nat.zero_add _).le)).congr (Int.zero_add _).symm
    · simp only [Option.some.injEq, Prod.mk.injEq] at hrun
      obtain ⟨rfl, rfl, -⟩ := hrun
      exact hgains.congr (Int.sub_self _)

theorem giveAway_gains (hrun : Skiplist.giveAway id n h s r = some (h', s', r')) :
    Gains h h' (s'.nodeCount + r'.nodeCount - (s.nodeCount + r.nodeCount)) := by
  induction n generalizing h s r with
  | zero =>
    simp only [Skiplist.giveAway, Option.some.injEq, Prod.mk.injEq] at hrun
    obtain ⟨rfl, rfl, rfl⟩ := hrun
    exact (Gains.refl h).congr (Int.sub_self _)
  | succ n ih =>
    simp only [Skiplist.giveAway, Option.bind_eq_bind, Option.bind_eq_some_iff] at hrun
    obtain ⟨⟨h₁, s₁, t⟩, hdequeue, ⟨h₂, r₁⟩, henqueue, hrun⟩ := hrun
    have hgains := ((dequeue_gains hdequeue).trans (enqueueMove_gains henqueue)).trans (ih hrun)
    refine hgains.congr ?_
    dsimp only
    omega

/-! ## `dequeue_half` -/

/-- Cutting makes and frees nothing, and the nodes of a layer go to one list or the other. -/
theorem cutLayers_gains {g : ℤ} (hrun : Skiplist.cutLayers id n h s r cur g = some (h', s', r'))
    (hn : n ≤ NLayers) (hnew : ∀ k < n, (r.layers k).count = 0) :
    Gains h h' 0 ∧ s'.nodeCount + r'.nodeCount = s.nodeCount + r.nodeCount := by
  induction n generalizing h s r cur g with
  | zero =>
    simp only [Skiplist.cutLayers, Skiplist.cutBase, Option.bind_eq_bind, Option.bind_eq_some_iff,
      Option.some.injEq, Prod.mk.injEq] at hrun
    obtain ⟨next, -, h₁, hset, rfl, rfl, rfl⟩ := hrun
    exact ⟨.setNext hset, rfl⟩
  | succ i ih =>
    simp only [Skiplist.cutLayers, Option.bind_eq_bind, Option.bind_eq_some_iff] at hrun
    obtain ⟨nd, -, h₁, hset, hrun⟩ := hrun
    obtain ⟨hgains, hcount⟩ := ih hrun (by omega) fun k hk ↦ by
      rw [Skiplist.layers_setLayer_of_ne (by omega)]
      exact hnew k (by omega)
    refine ⟨((Gains.setNextNode hset).trans hgains).congr rfl, ?_⟩
    have hzero := hnew i (Nat.lt_succ_self i)
    rw [hcount, Skiplist.nodeCount_setLayer hn, Skiplist.nodeCount_setLayer hn, hzero]
    simp only [Layer.count, id_eq]
    omega

theorem FoundLevel.gains {Λ : Layout} {m : ℕ} {z : Skiplist.Scan} (hr : Rep h s.level Λ)
    (hfound : FoundLevel h s Λ m z) :
    Gains h z.heap (z.self.nodeCount + (z.res.getD {}).nodeCount - s.nodeCount) ∧
      ∀ k < m, ((z.res.getD {}).layers k).count = 0 := by
  cases hfound with
  | normal above two =>
    refine ⟨(Gains.refl h).congr ?_, fun k _ ↦ rfl⟩
    rw [Option.getD_none, Skiplist.nodeCount_new, Int.add_zero, Int.sub_self]
  | preserved lt above one first count =>
    refine ⟨(Gains.refl h).congr ?_, fun k hk ↦ ?_⟩
    · have hmoved : (s.layers m).movedFrom.count = 0 := Int.sub_self _
      have hlayer : (({} : Skiplist).layers m).count = 0 := rfl
      rw [Option.getD_some, Skiplist.nodeCount_setLayer lt, Skiplist.nodeCount_setLayer lt, hmoved,
        hlayer, Skiplist.nodeCount_new]
      omega
    · rw [Option.getD_some, Skiplist.layers_setLayer_of_ne (Nat.ne_of_lt hk)]
      rfl
  | cleanuped lt above one other =>
    have hnode := hr.nodes.node m lt (s.level (m + 1)).headOff ⟨le_refl _, by omega⟩
    refine ⟨(Gains.free (by rw [hnode]; exact Option.some_ne_none _)).congr ?_, fun k _ ↦ rfl⟩
    have hclean : (s.layers m).cleanup.count = 0 := Int.sub_self _
    have hone : (s.layers m).count = 1 := by
      rw [Layer.count]
      simp only [Skiplist.level_succ] at one
      omega
    rw [Option.getD_none, Skiplist.nodeCount_setLayer lt, hclean, hone, Skiplist.nodeCount_new]
    omega

theorem giveAwayHalf_gains {res : Option Skiplist}
    (hrun : Skiplist.dequeueHalf_ id h s = some (h', s', res)) :
    Gains h h' (s'.nodeCount + nodesOf res - s.nodeCount) := by
  rw [Skiplist.dequeueHalf_] at hrun
  split at hrun
  · simp only [Option.some.injEq, Prod.mk.injEq] at hrun
    obtain ⟨rfl, rfl, rfl⟩ := hrun
    refine (Gains.refl h).congr ?_
    rw [nodesOf, Option.elim_none, Int.add_zero, Int.sub_self]
  · simp only [Option.bind_eq_bind, Option.bind_eq_some_iff, Option.some.injEq,
      Prod.mk.injEq] at hrun
    obtain ⟨⟨h₁, s₁, r₁⟩, hgive, rfl, rfl, rfl⟩ := hrun
    refine (giveAway_gains hgive).congr ?_
    rw [Skiplist.nodeCount_new, Int.add_zero, nodesOf, Option.elim_some]

theorem dequeueHalf_gains {Λ : Layout} {res : Option Skiplist} (hr : Rep h s.level Λ)
    (hrun : Skiplist.dequeueHalf id h s = some (h', s', res)) :
    Gains h h' (s'.nodeCount + nodesOf res - s.nodeCount) := by
  obtain ⟨m, z, hm, hz, hfound⟩ := findLayer_spec hr (Nat.le_refl NLayers)
    fun k hk hkN ↦ absurd hk (by omega)
  obtain ⟨hgains, hnew⟩ := hfound.gains hr
  rw [Skiplist.dequeueHalf, Option.bind_eq_bind, hz, Option.bind_some] at hrun
  cases m with
  | zero =>
    simp only at hrun
    split at hrun
    · rename_i hzero
      simp only [Option.some.injEq, Prod.mk.injEq] at hrun
      obtain ⟨rfl, rfl, rfl⟩ := hrun
      -- There is nothing to give away, so no node has been kept for that.
      have hres : (z.res.getD {}).nodeCount = 0 := by
        cases hfound with
        | normal | cleanuped => exact Skiplist.nodeCount_new
        | preserved lt above one first count =>
          exfalso
          have hsize : s.tailOff = s.headOff + 127 := count
          have hgive : (s.tailOff - s.headOff + 1).tdiv 2 = 0 := hzero
          have hcells : s.tailOff - s.headOff + 1 = 128 := by omega
          rw [hcells] at hgive
          exact absurd hgive (by decide)
      rw [hres, Int.add_zero] at hgains
      exact hgains.congr (by rw [nodesOf, Option.elim_none, Int.add_zero])
    · simp only [Option.bind_eq_bind, Option.bind_eq_some_iff, Option.some.injEq, Prod.mk.injEq]
        at hrun
      obtain ⟨last, -, ⟨h₁, s₁, r₁⟩, hcut, rfl, rfl, rfl⟩ := hrun
      obtain ⟨hcutGains, hcount⟩ := cutLayers_gains (n := 0) hcut (Nat.zero_le _)
        fun k hk ↦ by omega
      refine (hgains.trans hcutGains).congr ?_
      have hkept : s₁.nodeCount + r₁.nodeCount = z.self.nodeCount + (z.res.getD {}).nodeCount :=
        hcount
      simp only [nodesOf, Option.elim_some]
      omega
  | succ i =>
    simp only [Option.bind_eq_bind, Option.bind_eq_some_iff, Option.some.injEq, Prod.mk.injEq]
      at hrun
    obtain ⟨cur, -, ⟨h₁, s₁, r₁⟩, hcut, rfl, rfl, rfl⟩ := hrun
    obtain ⟨hcutGains, hcount⟩ := cutLayers_gains hcut hm fun k hk ↦ by
      by_cases hki : k = i
      · rw [hki, Skiplist.layers_setLayer_self]
        exact hnew i (Nat.lt_succ_self i)
      · rw [Skiplist.layers_setLayer_of_ne hki]
        exact hnew k hk
    -- The candidate makes no difference.
    have hcandidate : ∀ (t : Skiplist) (c : Option Addr),
        (t.setLayer i { t.layers i with candidate := c }).nodeCount = t.nodeCount := by
      intro t c
      rw [Skiplist.nodeCount_setLayer hm]
      simp only [Layer.count]
      omega
    refine (hgains.trans hcutGains).congr ?_
    rw [hcandidate, hcandidate] at hcount
    simp only [nodesOf, Option.elim_some]
    omega

end

/-! ## The nodes of a consistent list -/

section

open LinkedList

variable {h : Heap} {s : Skiplist} {Λ : Layout} {xs : List Addr} {S : Set Addr}

theorem mem_nodeCells {lv : ℕ → Layer} {a : Addr} :
    a ∈ nodeCells lv Λ ↔ ∃ k ∈ Finset.range NLayers,
      a ∈ cells (Λ.cell (k + 1)) (lv (k + 1)).headOff (lv (k + 1)).tailOff := by
  simp only [nodeCells, Layer.Has, Set.mem_ofPred_eq, Finset.mem_range, mem_cells, and_assoc]

theorem Rep.ncard_nodeCells (hr : Rep h s.level Λ) :
    ((nodeCells s.level Λ).ncard : ℤ) = s.nodeCount := by
  have hlevel := hr.nodes.level
  have hset : nodeCells s.level Λ = {a | ∃ k ∈ Finset.range NLayers,
      a ∈ {a | a ∈ cells (Λ.cell (k + 1)) (s.layers k).headOff (s.layers k).tailOff}} := by
    ext a
    exact mem_nodeCells
  have happart : ∀ j ∈ Finset.range NLayers, ∀ k ∈ Finset.range NLayers, ∀ a,
      a ∈ cells (Λ.cell (j + 1)) (s.layers j).headOff (s.layers j).tailOff →
      a ∈ cells (Λ.cell (k + 1)) (s.layers k).headOff (s.layers k).tailOff → j = k := by
    intro j hj k hk a ha ha'
    obtain ⟨p, hp, hp', rfl⟩ := mem_cells.mp ha
    obtain ⟨q, hq, hq', hqp⟩ := mem_cells.mp ha'
    exact hr.nodes.disjoint j (Finset.mem_range.mp hj) k (Finset.mem_range.mp hk) p q ⟨hp, hp'⟩
      ⟨hq, hq'⟩ hqp.symm
  rw [hset, ncard_iUnion (fun k _ ↦ List.finite_toSet _) happart, Skiplist.nodeCount, layersCount,
    Nat.cast_sum]
  refine Finset.sum_congr rfl fun k hk ↦ ?_
  have hL := hlevel (k + 1) (Finset.mem_range.mp hk)
  have hle : (s.layers k).headOff ≤ (s.layers k).tailOff := hL.le
  have hnodup : (cells (Λ.cell (k + 1)) (s.layers k).headOff (s.layers k).tailOff).Nodup :=
    hL.distinct.nodup
  rw [ncard_mem hnodup, length_cells, Layer.count]
  omega

theorem Joint.count_le {lo hi : Layer} {cell : ℤ → Addr} {δ : ℤ} (hj : Joint lo hi cell δ)
    (hlo : lo.headOff ≤ lo.tailOff) : 64 * hi.count ≤ lo.count := by
  obtain ⟨-, hstart, -, hfull⟩ := hj.toAligned
  rw [Layer.count, Layer.count]
  omega

/-- There is at most one node for `63` elements, all layers taken together. -/
theorem Rep.nodeCount_le (hr : Rep h s.level Λ) : 63 * s.nodeCount ≤ s.size := by
  have hlevel := hr.nodes.level
  -- What is above a level is paid for by the levels below.
  have hbelow : ∀ n ≤ NLayers,
      63 * (∑ k ∈ Finset.range n, (s.layers k).count) + (s.level n).count ≤ s.size := by
    intro n hn
    induction n with
    | zero =>
      rw [Finset.sum_range_zero, Int.mul_zero, Int.zero_add]
      exact le_refl _
    | succ n ih =>
      have hlower := ih (by omega)
      have hcount := (hr.joints n hn).count_le (hlevel n (by omega)).le
      rw [Finset.sum_range_succ]
      simp only [Skiplist.level_succ] at *
      omega
  have htop := hbelow NLayers (le_refl _)
  have hle := (hlevel NLayers (le_refl _)).le
  rw [Layer.count] at htop
  rw [Skiplist.nodeCount, layersCount]
  omega

theorem Holds.ncard_nodes (hs : Holds h s xs S) : (S.ncard : ℤ) = s.nodeCount := by
  obtain ⟨Λ, hr, -, rfl⟩ := hs
  exact hr.ncard_nodeCells

theorem Holds.finite_nodes (hs : Holds h s xs S) : S.Finite :=
  (Set.finite_Iio h.brk).subset fun _ ha ↦ hs.lt_brk ha

theorem Holds.live (hs : Holds h s xs S) {a : Addr} (ha : a ∈ S) : h.node a ≠ none := by
  obtain ⟨Λ, hr, -, rfl⟩ := hs
  obtain ⟨k, hk, p, hp, rfl⟩ := ha
  rw [hr.nodes.node k hk p hp]
  exact Option.some_ne_none _

theorem Holds.nodeCount_le (hs : Holds h s xs S) : 63 * s.nodeCount ≤ xs.length := by
  rw [← hs.size]
  obtain ⟨Λ, hr, -, -⟩ := hs
  exact hr.nodeCount_le

theorem Holds.nodeCount_nil (hs : Holds h s [] S) : s.nodeCount = 0 := by
  have hcount := hs.ncard_nodes
  have hle := hs.nodeCount_le
  rw [List.length_nil] at hle
  omega

end

end TYThread
