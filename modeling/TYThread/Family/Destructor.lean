import Mathlib.Data.Finset.Card
import TYThread.Family.Layers

/-!
# Destroying a list that still has elements

The loop of `~Skiplist` drops the reference to an element and then reads the link stored in it. The
list may have been the last owner. Then the element is gone, and there is no link to be read any
more. So the destructor does what it is for exactly when each element has another owner.
-/

namespace TYThread

open LinkedList Transition Counting

/-- One reference of each of the objects is dropped, first to last. -/
def decreaseAll : Heap → List Addr → Option Heap
  | h, [] => some h
  | h, a :: as => do
    let h ← decrease h (some a)
    decreaseAll h as

/-- What the destructor of a list is for, when `ys` are its elements and `own a` is the number of
owners of `a`: it reads live memory only, drops one reference of each element, in order, deletes
those that have no other owner, and touches nothing else but its skip nodes. -/
def DestroysSafely (h : Heap) (s : Skiplist) (ys : List Addr) (own : Addr → ℕ) : Prop :=
  ∃ fuel h₁ h', s.destructor fuel h = some h' ∧
    decreaseAll h ys = some h₁ ∧ Skiplist.freeLayers NLayers h₁ s.layers = some h' ∧
    (∀ a ∈ ys, h'.counterOf a = if own a = 1 then none else some (own a - 1)) ∧
    (∀ a, a ∉ ys → h'.counterOf a = h.counterOf a) ∧
    h'.deleted = (ys.filter fun a ↦ own a = 1).reverse ++ h.deleted

/-! ## The skip nodes -/

section

variable {h h' : Heap} {s : Skiplist} {Λ : Layout}

/-- Freeing a chain of nodes changes the nodes in it and nothing else. -/
theorem Heap.freeChain_spec {p : Option Addr} {ns : List Addr} {fuel : ℕ}
    (hchain : Chain h.nextNodeOf p ns) (hnodup : ns.Nodup) (hlen : ns.length ≤ fuel) :
    ∃ h', freeChain fuel h p = some h' ∧ (∀ a, a ∉ ns → h'.node a = h.node a) ∧
      h'.obj = h.obj ∧ h'.brk = h.brk ∧ h'.deleted = h.deleted := by
  induction ns generalizing h p fuel with
  | nil =>
    obtain rfl : p = none := hchain
    exact ⟨h, freeChain_none fuel h, fun _ _ ↦ rfl, rfl, rfl, rfl⟩
  | cons n ns ih =>
    obtain ⟨rfl, q, hq, hrest⟩ := hchain
    rw [List.nodup_cons] at hnodup
    obtain ⟨nd, hnd, rfl⟩ : ∃ nd, h.node n = some nd ∧ nd.nextNode = q := by
      simpa [nextNodeOf] using hq
    cases fuel with
    | zero => exact absurd hlen (Nat.not_succ_le_zero _)
    | succ fuel =>
      have hother : ∀ a, a ≠ n → (h.setNode n none).node a = h.node a := fun a ha ↦ by
        rw [setNode_node, Function.update_of_ne ha]
      obtain ⟨h', hrun, hnode, hobj, hbrk, hdel⟩ := ih (h := h.setNode n none)
        (hrest.congr fun a ha ↦ by
          rw [nextNodeOf, hother a fun heq ↦ hnodup.1 (heq ▸ ha), nextNodeOf])
        hnodup.2 (Nat.le_of_succ_le_succ hlen)
      refine ⟨h', ?_, fun a ha ↦ ?_, hobj, hbrk, hdel⟩
      · rw [freeChain, hnd]
        exact hrun
      · rw [List.mem_cons, not_or] at ha
        rw [hnode a ha.2, hother a ha.1]

theorem Rep.length_le_brk (hr : Rep h s.level Λ) {i : ℕ} (hi : i < NLayers) :
    ((s.layers i).items (Λ.cell (i + 1))).length ≤ h.brk := by
  have hnodup : ((s.layers i).items (Λ.cell (i + 1))).Nodup :=
    (hr.nodes.level (i + 1) hi).distinct.nodup
  rw [← List.toFinset_card_of_nodup hnodup, ← Finset.card_range h.brk]
  refine Finset.card_le_card fun a ha ↦ ?_
  rw [List.mem_toFinset, Layer.items, mem_cells] at ha
  obtain ⟨p, hp, hp', rfl⟩ := ha
  exact Finset.mem_range.mpr (hr.nodes.lt_brk i hi p ⟨hp, hp'⟩)

/-- The layers below `n` can be freed, whatever has happened to the others. -/
theorem Rep.freeLayers (hr : Rep h s.level Λ) {n : ℕ} (hn : n ≤ NLayers)
    (hnode : ∀ k < n, ∀ p, (s.layers k).Has p →
      h'.node (Λ.cell (k + 1) p) = h.node (Λ.cell (k + 1) p))
    (hbrk : h'.brk = h.brk) :
    ∃ h'', Skiplist.freeLayers n h' s.layers = some h'' ∧ h''.obj = h'.obj ∧
      h''.deleted = h'.deleted := by
  induction n generalizing h' with
  | zero => exact ⟨h', rfl, rfl, rfl⟩
  | succ i ih =>
    have hi : i < NLayers := hn
    have hchain : Chain h'.nextNodeOf (s.layers i).headNode
        ((s.layers i).items (Λ.cell (i + 1))) := by
      refine (hr.layered.nodes i hi).congr fun a ha ↦ ?_
      rw [Layer.items, mem_cells] at ha
      obtain ⟨p, hp, hp', rfl⟩ := ha
      rw [Heap.nextNodeOf, hnode i (Nat.lt_succ_self i) p ⟨hp, hp'⟩, Heap.nextNodeOf]
    have hlen : ((s.layers i).items (Λ.cell (i + 1))).length ≤ h'.brk := by
      rw [hbrk]
      exact hr.length_le_brk hi
    obtain ⟨h₂, hrun, hsame, hobj, hbrk₂, hdel⟩ := Heap.freeChain_spec hchain
      (hr.nodes.level (i + 1) hi).distinct.nodup hlen
    obtain ⟨h₃, hrun₃, hobj₃, hdel₃⟩ := ih (Nat.le_of_succ_le hn)
      (fun k hk p hp ↦ by
        -- The nodes of another layer are other nodes.
        rw [hsame, hnode k (Nat.lt_succ_of_lt hk) p hp]
        intro hmem
        rw [Layer.items, mem_cells] at hmem
        obtain ⟨q, hq, hq', heq⟩ := hmem
        exact absurd (hr.nodes.disjoint i hi k (Nat.lt_trans hk hi) q p ⟨hq, hq'⟩ hp heq)
          (Nat.ne_of_gt hk))
      (hbrk₂.trans hbrk)
    refine ⟨h₃, ?_, hobj₃.trans hobj, hdel₃.trans hdel⟩
    rw [Skiplist.freeLayers, hrun]
    exact hrun₃

end

/-! ## The elements -/

section

variable {h : Heap} {own : Addr → ℕ} {p : Option Addr} {ys : List Addr}

theorem Counted.counterOf_eq {h' : Heap} {own' : Addr → ℕ} {a : Addr} (hc : Counted h own)
    (hc' : Counted h' own') (hown : own' a = own a)
    (hlive : h'.counterOf a = none ↔ h.counterOf a = none) : h'.counterOf a = h.counterOf a := by
  cases hb : h'.counterOf a with
  | none => rw [hlive.mp hb]
  | some c =>
    cases ha : h.counterOf a with
    | none => rw [hlive.mpr ha] at hb; cases hb
    | some b => rw [hc'.counter a c hb, hc.counter a b ha, hown]

theorem exists_rest {x : Addr} (hx : own x ≠ 0) :
    ∃ rest : Addr → ℕ, rest x = own x - 1 ∧ (∀ a, a ≠ x → rest a = own a) ∧
      ∀ a, own a = rest a + pointsTo (some x) a := by
  refine ⟨Function.update own x (own x - 1), Function.update_self .., fun a ha ↦
    Function.update_of_ne ha .., fun a ↦ ?_⟩
  by_cases ha : a = x
  · rw [ha, Function.update_self, pointsTo_self]
    omega
  · rw [Function.update_of_ne ha, pointsTo_of_ne ha, Nat.add_zero]

theorem dropElems_spec (hc : Counted h own) (hchain : Chain h.nextOf p ys) (hnodup : ys.Nodup)
    (hown : ∀ a ∈ ys, 1 < own a ∧ own a ≤ unsignedRange) :
    ∃ h', (∀ fuel, ys.length ≤ fuel → Skiplist.dropElems fuel h p = some h') ∧
      decreaseAll h ys = some h' ∧ h'.node = h.node ∧ h'.brk = h.brk ∧ h'.deleted = h.deleted ∧
      (∀ a ∈ ys, h'.counterOf a = some (own a - 1)) ∧
      ∀ a, a ∉ ys → h'.counterOf a = h.counterOf a := by
  induction ys generalizing h own p with
  | nil =>
    obtain rfl : p = none := hchain
    exact ⟨h, fun fuel _ ↦ by cases fuel <;> rfl, rfl, rfl, rfl, rfl,
      fun a ha ↦ absurd ha List.not_mem_nil, fun _ _ ↦ rfl⟩
  | cons x xs ih =>
    obtain ⟨rfl, q, hq, hrest⟩ := hchain
    rw [List.nodup_cons] at hnodup
    obtain ⟨hone, hlt⟩ := hown x List.mem_cons_self
    obtain ⟨rest, hrestx, hrest_ne, hsum⟩ := exists_rest (show own x ≠ 0 by omega)
    obtain ⟨h₁, hdec, hnode, hbrk, hnext, hc₁, hdel, hlive⟩ :=
      decrease_counted hc (p := some x) hsum fun a ha ↦ by
        obtain rfl := Option.some.inj ha
        rw [hrestx]
        omega
    have hkept : rest x ≠ 0 := by
      rw [hrestx]
      omega
    have hdel₁ : h₁.deleted = h.deleted := by rw [hdel, deletedAfter, if_neg hkept]
    have hne : ∀ a ∈ xs, a ≠ x := fun a ha heq ↦ hnodup.1 (heq ▸ ha)
    obtain ⟨h', hrun, hall, hnode', hbrk', hdel', hcount, hsame⟩ := ih hc₁
      (hrest.congr fun a ha ↦ hnext a (by
        rw [hrest_ne a (hne a ha)]
        have := hown a (List.mem_cons_of_mem x ha)
        omega))
      hnodup.2 fun a ha ↦ by
        rw [hrest_ne a (hne a ha)]
        exact hown a (List.mem_cons_of_mem x ha)
    have hlivex : h₁.counterOf x ≠ none := hc₁.live x hkept
    refine ⟨h', fun fuel hfuel ↦ ?_, ?_, hnode'.trans hnode, hbrk'.trans hbrk, hdel'.trans hdel₁,
      fun a ha ↦ ?_, fun a ha ↦ ?_⟩
    · cases fuel with
      | zero => exact absurd hfuel (Nat.not_succ_le_zero _)
      | succ fuel =>
        rw [Skiplist.dropElems, hdec]
        simp only [Option.bind_eq_bind, Option.bind_some]
        rw [Heap.next_eq, hnext x hkept, hq]
        exact hrun fuel (Nat.le_of_succ_le_succ hfuel)
    · rw [decreaseAll, hdec]
      exact hall
    · by_cases hax : a = x
      · subst hax
        obtain ⟨c, hca⟩ := Option.ne_none_iff_exists'.mp hlivex
        rw [hsame a hnodup.1, hca, hc₁.counter a c hca, hrestx,
          Nat.mod_eq_of_lt (by omega)]
      · rw [hcount a ((List.mem_cons.mp ha).resolve_left hax), hrest_ne a hax]
    · rw [List.mem_cons, not_or] at ha
      rw [hsame a ha.2]
      refine hc.counterOf_eq hc₁ (hrest_ne a ha.1) ?_
      rw [hlive]
      exact or_iff_left fun h ↦ ha.1 (Option.some.inj h.1).symm

/-- The loop, when the list is the last owner of some element: it reads the link of that one after
its deletion, however much fuel there is. -/
theorem dropElems_last (hc : Counted h own) (hchain : Chain h.nextOf p ys) (hnodup : ys.Nodup)
    (hlt : ∀ a ∈ ys, own a ≤ unsignedRange) (hpos : ∀ a ∈ ys, own a ≠ 0)
    (hlast : ∃ a ∈ ys, own a = 1) (fuel : ℕ) : Skiplist.dropElems fuel h p = none := by
  induction ys generalizing h own p fuel with
  | nil =>
    obtain ⟨a, ha, -⟩ := hlast
    exact absurd ha List.not_mem_nil
  | cons x xs ih =>
    obtain ⟨rfl, q, hq, hrest⟩ := hchain
    rw [List.nodup_cons] at hnodup
    cases fuel with
    | zero => rfl
    | succ fuel =>
      obtain ⟨rest, hrestx, hrest_ne, hsum⟩ := exists_rest (hpos x List.mem_cons_self)
      have hltx := hlt x List.mem_cons_self
      have hposx := hpos x List.mem_cons_self
      obtain ⟨h₁, hdec, -, -, hnext, hc₁, -, hlive⟩ := decrease_counted hc (p := some x) hsum
        fun a ha ↦ by
          obtain rfl := Option.some.inj ha
          rw [hrestx]
          omega
      rw [Skiplist.dropElems, hdec]
      simp only [Option.bind_eq_bind, Option.bind_some]
      rw [Heap.next_eq]
      by_cases hone : own x = 1
      · -- The element has just been deleted.
        have hdead : h₁.counterOf x = none := (hlive x).mpr (Or.inr ⟨rfl, by rw [hrestx, hone]⟩)
        have hnone : h₁.nextOf x = none := by
          by_contra hne
          exact Heap.live_iff.mpr (Option.ne_none_iff_exists'.mp hne) hdead
        rw [hnone]
        rfl
      · rw [hnext x (by rw [hrestx]; omega), hq]
        have hne : ∀ a ∈ xs, a ≠ x := fun a ha heq ↦ hnodup.1 (heq ▸ ha)
        have hsame : ∀ a ∈ xs, rest a = own a := fun a ha ↦ hrest_ne a (hne a ha)
        refine ih hc₁ (hrest.congr fun a ha ↦ hnext a ?_) hnodup.2 (fun a ha ↦ ?_)
          (fun a ha ↦ ?_) ?_ fuel
        · rw [hsame a ha]
          exact hpos a (List.mem_cons_of_mem x ha)
        · rw [hsame a ha]
          exact hlt a (List.mem_cons_of_mem x ha)
        · rw [hsame a ha]
          exact hpos a (List.mem_cons_of_mem x ha)
        · obtain ⟨a, ha, hone'⟩ := hlast
          have ha' : a ∈ xs := (List.mem_cons.mp ha).resolve_left fun heq ↦ hone (heq ▸ hone')
          exact ⟨a, ha', (hsame a ha').trans hone'⟩

end

/-! ## The destructor -/

/-- **When the destructor of a list is safe**: exactly when each of its elements is also held by a
handle. -/
theorem destructor_safe_iff {ids : Finset ℕ} {ops : List Op} {w : World}
    (hrun : Run (World.Step id) (World.initial ids) ops w) {l : ℕ} {s : Skiplist} {ys : List Addr}
    (hs : w.lists l = some s) (hys : w.Contents l ys)
    (hlt : ∀ a ∈ ys, w.owners a < unsignedRange) :
    DestroysSafely w.heap s ys w.owners ↔ ∀ a ∈ ys, ∃ g, w.handles g = some (some a) := by
  obtain ⟨xs, hok⟩ := World.ok_of_run hrun
  obtain ⟨S, hlists⟩ := hok.lists
  obtain ⟨-, rfl⟩ := hok.contents_iff.mp hys
  obtain ⟨Λ, hr, -, -⟩ := hlists.holds l s hs
  have hnodup := (hlists.holds l s hs).nodup
  have hchain := (hlists.holds l s hs).chain
  have hc := hok.counted
  rw [← hok.owners_eq] at hc
  -- An element has one owner more than there are handles to it.
  have hother : ∀ a ∈ xs l, (∃ g, w.handles g = some (some a)) ↔ 1 < w.owners a := fun a ha ↦ by
    rw [← holders_pos_iff (hok.finite a), hok.owners_eq, ownersOf, indicator_of_true ⟨l, ha⟩]
    omega
  have hpos : ∀ a ∈ xs l, w.owners a ≠ 0 := fun a ha ↦ by
    rw [hok.owners_eq]
    exact World.Ok.owners_ne_zero ⟨l, ha⟩ _
  constructor
  · rintro ⟨fuel, h₁, h', hdestr, -⟩ a ha
    rw [hother a ha]
    by_contra hle
    have hone : w.owners a = 1 := by
      have := hpos a ha
      omega
    rw [Skiplist.destructor, dropElems_last hc hchain hnodup (fun b hb ↦ Nat.le_of_lt (hlt b hb))
      hpos ⟨a, ha, hone⟩ fuel] at hdestr
    cases hdestr
  · intro hhandles
    have hmany : ∀ a ∈ xs l, 1 < w.owners a := fun a ha ↦ (hother a ha).mp (hhandles a ha)
    obtain ⟨h₁, hdrop, hall, hnode, hbrk, hdel, hcount, hsame⟩ := dropElems_spec hc hchain hnodup
      fun a ha ↦ ⟨hmany a ha, Nat.le_of_lt (hlt a ha)⟩
    obtain ⟨h', hfree, hobj, hdel'⟩ := hr.freeLayers (Nat.le_refl NLayers)
      (fun k _ p _ ↦ by rw [hnode]) hbrk
    have hcounter := Heap.counterOf_congr hobj
    refine ⟨(xs l).length, h₁, h', ?_, hall, hfree, fun a ha ↦ ?_, fun a ha ↦ ?_, ?_⟩
    · rw [Skiplist.destructor, hdrop _ (Nat.le_refl _)]
      exact hfree
    · rw [hcounter, hcount a ha, if_neg (Nat.ne_of_gt (hmany a ha))]
    · rw [hcounter, hsame a ha]
    · have hnone : (xs l).filter (fun a ↦ w.owners a = 1) = [] := by
        rw [List.filter_eq_nil_iff]
        intro a ha
        rw [decide_eq_true_eq]
        exact Nat.ne_of_gt (hmany a ha)
      rw [hdel', hdel, hnone]
      rfl

theorem moved_run :
    ∃ w s, Run (World.Step id) (World.initial {0}) [.makeRefPtr 0 7, .enqueueMove 0 0] w ∧
      w.lists 0 = some s ∧ w.Contents 0 [7] ∧ ∀ fuel, s.destructor fuel w.heap = none := by
  refine ⟨_, _, .snoc (.snoc .refl ⟨⟨rfl, rfl⟩, rfl⟩) ⟨⟨⟨_, rfl⟩, 7, rfl,
    World.not_linked_initial (by rfl) 7⟩, rfl⟩, rfl,
    ⟨_, rfl, rfl, none, rfl, rfl⟩, fun fuel ↦ ?_⟩
  cases fuel with
  | zero => rfl
  | succ fuel => rfl

/-- The destructor reads the link of an element that it has just deleted. -/
theorem destructor_reads_deleted :
    ∃ w s, Run (World.Step id) (World.initial {0}) [.makeRefPtr 0 7, .enqueueMove 0 0] w ∧
      w.lists 0 = some s ∧ w.Contents 0 [7] ∧ ¬DestroysSafely w.heap s [7] w.owners := by
  obtain ⟨w, s, hrun, hs, hys, hnone⟩ := moved_run
  refine ⟨w, s, hrun, hs, hys, ?_⟩
  rintro ⟨fuel, h₁, h', hdestr, -⟩
  rw [hnone fuel] at hdestr
  cases hdestr

/-- An object is made and copied into the list, and the handle keeps it alive. -/
theorem destructor_safe_iff_copied :
    ∃ w s, Run (World.Step id) (World.initial {0}) [.makeRefPtr 0 7, .enqueueCopy 0 0] w ∧
      w.lists 0 = some s ∧ DestroysSafely w.heap s [7] w.owners := by
  obtain ⟨w, s, hrun, hs, hys, hhandles⟩ : ∃ w s, Run (World.Step id) (World.initial {0})
      [.makeRefPtr 0 7, .enqueueCopy 0 0] w ∧ w.lists 0 = some s ∧ w.Contents 0 [7] ∧
        ∀ g, w.handles g = if g = 0 then some (some 7) else none :=
    ⟨_, _, .snoc (.snoc .refl ⟨⟨rfl, rfl⟩, rfl⟩) ⟨⟨⟨_, rfl⟩, 7, rfl,
      World.not_linked_initial (by rfl) 7⟩, rfl⟩, rfl,
      ⟨_, rfl, rfl, none, rfl, rfl⟩, fun g ↦ Function.update_apply _ 0 _ g⟩
  have hset : {i | w.handles i = some (some 7)} = {0} := by
    ext i
    simp [hhandles]
  have howners : w.owners 7 < unsignedRange := by
    have hle : indicator (w.Linked 7) ≤ 1 := by
      unfold indicator
      split <;> omega
    rw [World.owners, holders, hset, Set.ncard_singleton, unsignedRange]
    omega
  have hmem : ∀ a ∈ [7], a = 7 := fun a ha ↦ List.mem_singleton.mp ha
  refine ⟨w, s, hrun, hs, (destructor_safe_iff hrun hs hys fun a ha ↦ ?_).mpr fun a ha ↦ ⟨0, ?_⟩⟩
  · rw [hmem a ha]
    exact howners
  · rw [hmem a ha, hhandles, if_pos rfl]

end TYThread
