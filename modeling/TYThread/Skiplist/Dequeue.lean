import TYThread.Skiplist.Enqueue

/-!
# `dequeue`

When the first item of a block goes, the block is no longer complete and its node is deleted. That
node may itself be the first item of a block of the next layer, and so on upwards. During the loop
one joint is broken: below layer `i` the first item has gone and its node is still there.
-/

namespace TYThread

open LinkedList

/-! ## Removing the first cell of one level -/

theorem LevelOk.pop {L L' : Layer} {cell : ℤ → Addr} (h : LevelOk L cell)
    (hne : L.headOff < L.tailOff) (hhead : L'.headOff = L.headOff + 1)
    (htail : L'.tailOff = L.tailOff)
    (hheadNode : L'.headNode = firstCell cell (L.headOff + 1) L.tailOff)
    (htailNode : L'.tailNode = L.tailNode) : LevelOk L' cell := by
  obtain ⟨hnonneg, hle, hfirst, hlast, hdist⟩ := h
  refine ⟨by omega, by omega, by rw [hheadNode, hhead, htail], fun _ ↦ ?_, ?_⟩
  · rw [htailNode, htail, hlast hne]
  · intro p q hp hp' hq hq'
    exact hdist p q (by omega) (by omega) (by omega) (by omega)

theorem TopCandidate.pop {L L' : Layer} {cell : ℤ → Addr} (ht : TopCandidate L cell)
    (hL : LevelOk L cell) (hne : L.headOff < L.tailOff) (hhead : L'.headOff = L.headOff + 1)
    (htail : L'.tailOff = L.tailOff) (hcand : L'.candidate = L.candidateAfterPop) :
    TopCandidate L' cell := by
  rcases ht with hnone | ⟨c, hdvd, hle, hlt, hrest, hsome⟩
  · refine Or.inl ?_
    rw [hcand, Layer.candidateAfterPop, hnone, ite_self]
  · by_cases hc : L.headOff = c
    · refine Or.inl ?_
      rw [hcand, Layer.candidateAfterPop, hsome, hL.head, firstCell_of_lt hne, hc, if_pos rfl]
    · refine Or.inr ⟨c, hdvd, by omega, by omega, by omega, ?_⟩
      rw [hcand, Layer.candidateAfterPop, hsome, hL.head, firstCell_of_lt hne, if_neg]
      exact fun heq ↦ hc (hL.distinct _ _ (by omega) hne hle hlt (Option.some.inj heq))

/-! ## One node -/

section

variable {h : Heap} {lv : ℕ → Layer} {Λ : Layout} {i : ℕ}

/-- `lv` after the head node of level `i + 1` has been deleted. -/
def popped (lv : ℕ → Layer) (Λ : Layout) (i : ℕ) : ℕ → Layer :=
  Function.update lv (i + 1)
    { lv (i + 1) with
      candidate := (lv (i + 1)).candidateAfterPop
      headNode := firstCell (Λ.cell (i + 1)) ((lv (i + 1)).headOff + 1) (lv (i + 1)).tailOff
      headOff := (lv (i + 1)).headOff + 1 }

theorem popped_self (lv : ℕ → Layer) (Λ : Layout) (i : ℕ) : popped lv Λ i (i + 1) =
    { lv (i + 1) with
      candidate := (lv (i + 1)).candidateAfterPop
      headNode := firstCell (Λ.cell (i + 1)) ((lv (i + 1)).headOff + 1) (lv (i + 1)).tailOff
      headOff := (lv (i + 1)).headOff + 1 } := Function.update_self ..

@[simp] theorem popped_headOff (lv : ℕ → Layer) (Λ : Layout) (i : ℕ) :
    (popped lv Λ i (i + 1)).headOff = (lv (i + 1)).headOff + 1 := by rw [popped_self]

@[simp] theorem popped_tailOff (lv : ℕ → Layer) (Λ : Layout) (i : ℕ) :
    (popped lv Λ i (i + 1)).tailOff = (lv (i + 1)).tailOff := by rw [popped_self]

@[simp] theorem popped_candidate (lv : ℕ → Layer) (Λ : Layout) (i : ℕ) :
    (popped lv Λ i (i + 1)).candidate = (lv (i + 1)).candidateAfterPop := by rw [popped_self]

theorem popped_of_ne (lv : ℕ → Layer) (Λ : Layout) {i k : ℕ} (hk : k ≠ i + 1) :
    popped lv Λ i k = lv k :=
  Function.update_of_ne hk ..

/-- The positions of the shortened list are positions of the old one. -/
theorem has_of_popped_has {k : ℕ} {p : ℤ} (hp : (popped lv Λ i k).Has p) : (lv k).Has p := by
  by_cases hk : k = i + 1
  · subst hk
    obtain ⟨hp, hp'⟩ := hp
    rw [popped_headOff] at hp
    rw [popped_tailOff] at hp'
    exact ⟨by omega, hp'⟩
  · rwa [popped_of_ne lv Λ hk] at hp

theorem dropHead_spec (hs : NodesOk h lv Λ) (hi : i < NLayers)
    (hne : (lv (i + 1)).headOff < (lv (i + 1)).tailOff) :
    Skiplist.dropHead id h (lv (i + 1)) = some
      (h.setNode (Λ.cell (i + 1) (lv (i + 1)).headOff) none, popped lv Λ i (i + 1)) := by
  have hL := hs.level (i + 1) hi
  have hnode := hs.node i hi _ ⟨le_refl _, hne⟩
  have hhead : (lv (i + 1)).headNode = some (Λ.cell (i + 1) (lv (i + 1)).headOff) := by
    rw [hL.head, firstCell_of_lt hne]
  simp only [Skiplist.dropHead, hhead, hnode, Option.bind_eq_bind, Option.bind_some, popped_self,
    Layer.candidateAfterPop, Layout.nodeAt, id_eq]

theorem NodesOk.pop (hs : NodesOk h lv Λ) (hi : i < NLayers)
    (hne : (lv (i + 1)).headOff < (lv (i + 1)).tailOff) :
    NodesOk (h.setNode (Λ.cell (i + 1) (lv (i + 1)).headOff) none) (popped lv Λ i) Λ := by
  have hL := hs.level (i + 1) hi
  refine ⟨fun k hk ↦ ?_, fun k hk p hp ↦ ?_, fun j hj k hk p q hp hq ↦ ?_, fun k hk p hp ↦ ?_⟩
  · by_cases hki : k = i + 1
    · subst hki
      exact hL.pop hne (by simp) (by simp) (by rw [popped_self]) (by rw [popped_self])
    · rw [popped_of_ne lv Λ hki]
      exact hs.level k hk
  · have hp' := has_of_popped_has hp
    -- The deleted node is at another position or at another level.
    have hne' : Λ.cell (k + 1) p ≠ Λ.cell (i + 1) (lv (i + 1)).headOff := by
      intro heq
      obtain rfl := hs.disjoint k hk i hi p _ hp' ⟨le_refl _, hne⟩ heq
      have hpa := hL.distinct p _ hp'.1 hp'.2 (le_refl _) hne heq
      have := hp.1
      rw [popped_headOff] at this
      omega
    rw [Heap.setNode_node, Function.update_of_ne hne', hs.node k hk p hp', Layout.nodeAt,
      Layout.nodeAt]
    by_cases hki : k = i
    · subst hki
      rw [popped_tailOff]
    · rw [popped_of_ne lv Λ (by omega)]
  · exact hs.disjoint j hj k hk p q (has_of_popped_has hp) (has_of_popped_has hq)
  · exact hs.lt_brk k hk p (has_of_popped_has hp)

theorem NodeFrame.pop (hi : i < NLayers) (hne : (lv (i + 1)).headOff < (lv (i + 1)).tailOff) :
    NodeFrame h (h.setNode (Λ.cell (i + 1) (lv (i + 1)).headOff) none) (nodeCells lv Λ)
      (nodeCells (popped lv Λ i) Λ) := by
  refine ⟨Nat.le_refl _, fun a _ hmem ↦ ?_, ?_⟩
  · rw [Heap.setNode_node, Function.update_of_ne]
    rintro rfl
    exact hmem ⟨i, hi, _, ⟨le_refl _, hne⟩, rfl⟩
  · rintro a ⟨k, hk, p, hp, rfl⟩
    exact Or.inl ⟨k, hk, p, has_of_popped_has hp, rfl⟩

/-- The layout with another shift between levels `k` and `k + 1`. -/
def Layout.setShift (Λ : Layout) (k : ℕ) (δ : ℤ) : Layout :=
  { Λ with shift := Function.update Λ.shift k δ }

@[simp] theorem Layout.setShift_cell (Λ : Layout) (k : ℕ) (δ : ℤ) :
    (Λ.setShift k δ).cell = Λ.cell := rfl

@[simp] theorem Layout.setShift_shift (Λ : Layout) (k : ℕ) (δ : ℤ) :
    (Λ.setShift k δ).shift = Function.update Λ.shift k δ := rfl

theorem nodeCells_setShift (lv : ℕ → Layer) (Λ : Layout) (k : ℕ) (δ : ℤ) :
    nodeCells lv (Λ.setShift k δ) = nodeCells lv Λ := rfl

theorem NodesOk.setShift (hs : NodesOk h lv Λ) {k : ℕ}
    (hempty : (lv (k + 1)).headOff = (lv (k + 1)).tailOff) (δ : ℤ) :
    NodesOk h lv (Λ.setShift k δ) := by
  refine ⟨hs.level, fun j hj p hp ↦ ?_, hs.disjoint, hs.lt_brk⟩
  by_cases hjk : j = k
  · subst hjk
    obtain ⟨hp, hp'⟩ := hp
    omega
  · rw [Layout.setShift_cell, hs.node j hj p hp, Layout.nodeAt, Layout.nodeAt,
      Layout.setShift_shift, Function.update_of_ne hjk]
    rfl

theorem JointsExcept.setShift (hj : JointsExcept lv Λ i) {δ : ℤ}
    (h : Joint (lv i) (lv (i + 1)) (Λ.cell i) δ) : Joints lv (Λ.setShift i δ) := by
  intro k hk
  by_cases hki : k = i
  · subst hki
    rw [Layout.setShift_shift, Function.update_self]
    exact h
  · rw [Layout.setShift_shift, Function.update_of_ne hki]
    exact hj k hk hki

theorem joints_pop (hj : JointsExcept lv Λ i)
    (hp : Joint (lv i) { lv (i + 1) with headOff := (lv (i + 1)).headOff + 1 } (Λ.cell i)
      (Λ.shift i)) : JointsExcept (popped lv Λ i) Λ (i + 1) := by
  intro k hk hki
  by_cases hk' : k = i
  · subst hk'
    rw [popped_of_ne lv Λ (by omega)]
    exact hp.congr_hi (by simp) (by simp)
  · rw [popped_of_ne lv Λ hki, popped_of_ne lv Λ (by omega)]
    exact hj k hk hk'

theorem update_upper_popped (lv : ℕ → Layer) (Λ : Layout) (i : ℕ) :
    Function.update (upper lv) i (popped lv Λ i (i + 1)) = upper (popped lv Λ i) := by
  rw [update_upper, popped_self, popped]

end

/-! ## The loop -/

/-- **The loop of `dequeue_`.** It starts with the first item below layer `i` gone and the head node
of layer `i` still there. -/
theorem dropHeads_spec {n i : ℕ} (hn : n + i = NLayers) (hi : i < NLayers) {h : Heap}
    {lv : ℕ → Layer} {Λ : Layout} (hs : NodesOk h lv Λ) (hj : JointsExcept lv Λ i)
    (hne : (lv (i + 1)).headOff < (lv (i + 1)).tailOff)
    (hp : Joint (lv i) { lv (i + 1) with headOff := (lv (i + 1)).headOff + 1 } (Λ.cell i)
      (Λ.shift i))
    (ht : TopCandidate (lv NLayers) (Λ.cell NLayers)) :
    ∃ h' lv' Λ', Skiplist.dropHeads id n i h (upper lv) = some (h', upper lv') ∧
      LayersUpdated h h' lv lv' Λ Λ' := by
  induction n generalizing i h lv Λ with
  | zero => omega
  | succ n ih =>
    have hL := hs.level (i + 1) hi
    have hrun := dropHead_spec hs hi hne
    have hs₁ := hs.pop hi hne
    have hj₁ := joints_pop hj hp
    have hf₁ := NodeFrame.pop (h := h) (Λ := Λ) hi hne
    have hbase₁ : popped lv Λ i 0 = lv 0 := popped_of_ne lv Λ (by omega)
    have hrem : remGap ((lv (i + 1)).headOff + 1) = ((lv (i + 1)).headOff + 1) % 64 :=
      remGap_of_nonneg (by have := hL.nonneg; omega)
    have hobj : (h.setNode (Λ.cell (i + 1) (lv (i + 1)).headOff) none).obj = h.obj := rfl
    set h₁ := h.setNode (Λ.cell (i + 1) (lv (i + 1)).headOff) none with hh₁
    have hupper : upper (popped lv Λ i) (i + 1) = lv (i + 1 + 1) :=
      popped_of_ne lv Λ (by omega)
    have hunfold : Skiplist.dropHeads id (n + 1) i h (upper lv) =
        if ((lv (i + 1)).headOff + 1) % 64 = 1 ∧ 1 ≤ n ∧ (lv (i + 1 + 1)).headNode ≠ none then
          Skiplist.dropHeads id n (i + 1) h₁ (upper (popped lv Λ i))
        else some (h₁, upper (popped lv Λ i)) := by
      rw [Skiplist.dropHeads, upper_apply, hrun]
      simp only [Option.bind_eq_bind, Option.bind_some]
      rw [update_upper_popped, popped_headOff, hrem, hupper]
    rw [hunfold]
    by_cases hiN : i + 1 < NLayers
    · have hj' := hj (i + 1) hiN (by omega)
      have hhi := hs.level (i + 1 + 1) hiN
      have hle := hhi.le
      have htop : TopCandidate (popped lv Λ i NLayers) (Λ.cell NLayers) := by
        rw [popped_of_ne lv Λ (by omega)]
        exact ht
      have hstep : popped lv Λ i (i + 1 + 1) = lv (i + 1 + 1) := popped_of_ne lv Λ (by omega)
      by_cases hcont : ((lv (i + 1)).headOff + 1) % 64 = 1
      · by_cases hempty : (lv (i + 1 + 1)).headOff < (lv (i + 1 + 1)).tailOff
        · have hnode : (lv (i + 1 + 1)).headNode ≠ none := by
            rw [hhi.head, firstCell_of_lt hempty]
            simp
          rw [if_pos ⟨hcont, by omega, hnode⟩]
          have hp' : Joint (popped lv Λ i (i + 1))
              { popped lv Λ i (i + 1 + 1) with
                headOff := (popped lv Λ i (i + 1 + 1)).headOff + 1 }
              (Λ.cell (i + 1)) (Λ.shift (i + 1)) := by
            rw [hstep]
            exact hj'.pop_node hL hne hcont hempty (by simp) (by simp) (by simp) rfl rfl
          obtain ⟨h', lv', Λ', hrun', hres⟩ := ih (by omega) hiN hs₁ hj₁ (by rwa [hstep]) hp' htop
          exact ⟨h', lv', Λ', hrun', hres.trans hbase₁ rfl hobj rfl hf₁⟩
        · have hnode : (lv (i + 1 + 1)).headNode = none := by
            rw [hhi.head, firstCell_of_le (by omega)]
          rw [if_neg fun hc ↦ hc.2.2 hnode]
          have hjoint : Joint (popped lv Λ i (i + 1)) (popped lv Λ i (i + 1 + 1))
              (Λ.cell (i + 1)) (Λ.shift (i + 1) + 64) := by
            rw [hstep]
            exact hj'.pop_first hL hne hcont (by omega) (by simp) (by simp) (by simp)
          exact ⟨h₁, _, Λ.setShift (i + 1) (Λ.shift (i + 1) + 64), rfl, hbase₁, rfl,
            hs₁.setShift (by rw [hstep]; omega) _, hj₁.setShift hjoint, htop, rfl, rfl, hf₁⟩
      · rw [if_neg fun hc ↦ hcont hc.1]
        refine ⟨h₁, _, Λ, rfl, hbase₁, rfl, hs₁, hj₁.joints fun _ ↦ ?_, htop, rfl, rfl, hf₁⟩
        rw [hstep]
        exact hj'.pop_inside hL hle hne hcont (by simp) (by simp) (by simp)
    · -- The top layer: there is no joint to repair.
      have hiN' : NLayers = i + 1 := by omega
      rw [if_neg fun hc ↦ by omega]
      refine ⟨h₁, _, Λ, rfl, hbase₁, rfl, hs₁, hj₁.joints fun hlt ↦ absurd hlt hiN, ?_, rfl, rfl,
        hf₁⟩
      rw [hiN'] at ht ⊢
      exact ht.pop hL hne (by simp) (by simp) (by simp)

/-! ## The base level -/

theorem NodesOk.withBase {h : Heap} {s : Skiplist} {Λ : Layout} (hs : NodesOk h s.level Λ)
    {L : Layer} (hL : LevelOk L (Λ.cell 0)) : NodesOk h (s.withBase L) Λ := by
  refine ⟨fun k hk ↦ ?_, fun k hk p hp ↦ ?_, fun j hj k hk p q hp hq ↦ ?_, fun k hk p hp ↦ ?_⟩
  · cases k with
    | zero =>
      rw [Skiplist.withBase_zero]
      exact hL
    | succ k =>
      rw [Skiplist.withBase_succ]
      exact hs.level (k + 1) hk
  · rw [Skiplist.withBase_succ] at hp
    rw [hs.node k hk p hp, Layout.nodeAt, Layout.nodeAt, Skiplist.withBase_succ,
      Skiplist.level_succ]
  · rw [Skiplist.withBase_succ] at hp hq
    exact hs.disjoint j hj k hk p q hp hq
  · rw [Skiplist.withBase_succ] at hp
    exact hs.lt_brk k hk p hp

theorem Joints.withBase {s : Skiplist} {Λ : Layout} (hj : Joints s.level Λ) (L : Layer) :
    JointsExcept (s.withBase L) Λ 0 := by
  intro k hk hk0
  obtain ⟨k, rfl⟩ : ∃ j, k = j + 1 := ⟨k - 1, by omega⟩
  rw [Skiplist.withBase_succ, Skiplist.withBase_succ]
  exact hj (k + 1) hk

/-- What `dequeue_` does to a list whose first element is `t`. -/
structure DequeueDone (h h' : Heap) (s s' : Skiplist) (Λ Λ' : Layout) (t : Addr) : Prop where
  rep : Rep h' s'.level Λ'
  headOff : s'.headOff = s.headOff + 1
  tailOff : s'.tailOff = s.tailOff
  cell : Λ'.cell 0 = Λ.cell 0
  first : t = Λ.cell 0 s.headOff
  next : h'.nextOf = Function.update h.nextOf t (some none)
  counter : h'.counterOf = h.counterOf
  deleted : h'.deleted = h.deleted
  frame : NodeFrame h h' (nodeCells s.level Λ) (nodeCells s'.level Λ')

theorem dequeue_of_empty {h : Heap} {s : Skiplist} {Λ : Layout} (hL : LevelOk s.base (Λ.cell 0))
    (hempty : s.tailOff ≤ s.headOff) : Skiplist.dequeue_ id h s = some (h, s, none) := by
  have hhead : s.head = none := hL.head.trans (firstCell_of_le hempty)
  rw [Skiplist.dequeue_, hhead]

/-- The lines of `dequeue_` behind the unlinking of the element `t`: `s₁` is the list `s` with the
base level already moved. -/
theorem dequeue_rest {h h₁ : Heap} {s s₁ : Skiplist} {Λ : Layout} {t : Addr} (hr : Rep h s.level Λ)
    (hne : s.headOff < s.tailOff) (ht : t = Λ.cell 0 s.headOff) (hn : Heap.SameNodes h h₁)
    (hcount : h₁.counterOf = h.counterOf)
    (hnext : h₁.nextOf = Function.update h.nextOf t (some none))
    (hs₁ : s₁ = { s with
      head := firstCell (Λ.cell 0) (s.headOff + 1) s.tailOff
      candidate := s.base.candidateAfterPop
      headOff := s.headOff + 1 }) :
    ∃ h' s' Λ', (if remGap (s.headOff + 1) = 1 ∧ (s.layers 0).headNode ≠ none then
          (Skiplist.dropHeads id NLayers 0 h₁ s.layers).bind fun r ↦
            some (r.1, { s₁ with layers := r.2 }, some t)
        else some (h₁, s₁, some t)) = some (h', s', some t) ∧
      DequeueDone h h' s s' Λ Λ' t := by
  have hN : 0 < NLayers := by decide
  have hL := hr.nodes.level 0 (Nat.zero_le _)
  have hhi := hr.nodes.level 1 hN
  have hj0 := hr.joints 0 hN
  rw [Skiplist.level_zero] at hL hj0
  -- The base level without its first element.
  let base : Layer :=
    { s.base with
      headNode := firstCell (Λ.cell 0) (s.headOff + 1) s.tailOff
      candidate := s.base.candidateAfterPop
      headOff := s.headOff + 1 }
  have hbase : LevelOk base (Λ.cell 0) := hL.pop hne rfl rfl rfl rfl
  have hlevel : s₁.level = s.withBase base :=
    Skiplist.level_eq (by simp [Skiplist.base, base, hs₁]) (by simp [hs₁])
  have hnodes : NodesOk h₁ (s.withBase base) Λ := (hr.nodes.congr_heap hn).withBase hbase
  have hj := hr.joints.withBase base
  have hcells : nodeCells (s.withBase base) Λ = nodeCells s.level Λ :=
    nodeCells_withBase s base fun _ ↦ rfl
  have hrem : remGap (s.headOff + 1) = (s.headOff + 1) % 64 := remGap_of_nonneg (by
    have hnonneg : 0 ≤ s.headOff := hL.nonneg
    omega)
  have helems : Segment h₁.nextOf (Λ.cell 0) (s.headOff + 1) s.tailOff := by
    have hdrop : Segment h.nextOf (Λ.cell 0) (s.headOff + 1) s.tailOff :=
      Segment.drop hr.elems (by simp only [Skiplist.level_zero, Skiplist.base]; omega)
    refine hdrop.congr fun p hp hp' ↦ ?_
    have hpt : Λ.cell 0 p ≠ t := by
      rw [ht]
      intro heq
      have hpa := hL.distinct p s.headOff (by simp only [Skiplist.base]; omega) hp' (le_refl _) hne
        heq
      omega
    rw [hnext, Function.update_of_ne hpt]
  have hframe₁ : NodeFrame h h₁ (nodeCells s.level Λ) (nodeCells s.level Λ) :=
    ⟨Nat.le_of_eq hn.brk.symm, fun a _ _ ↦ by rw [hn.node], fun a ha ↦ Or.inl ha⟩
  -- Without a node to delete only the joint with `layers[0]` is left to be checked.
  have hdone : ∀ δ, Joint base (s.layers 0) (Λ.cell 0) δ →
      NodesOk h₁ (s.withBase base) (Λ.setShift 0 δ) →
      ∃ h' s' Λ', (some (h₁, s₁, some t) : Option (Heap × Skiplist × Option Addr))
          = some (h', s', some t) ∧ DequeueDone h h' s s' Λ Λ' t := by
    intro δ hjδ hnδ
    refine ⟨h₁, s₁, Λ.setShift 0 δ, rfl, ⟨?_, ?_, ?_, ?_⟩, by simp [hs₁], by simp [hs₁], rfl, ht,
      hnext, hcount, hn.deleted, ?_⟩
    · rw [hlevel]
      exact hnδ
    · rw [hlevel, ElemsOk, Skiplist.withBase_zero]
      exact helems
    · rw [hlevel]
      exact hj.setShift (by rw [Skiplist.withBase_zero, Skiplist.withBase_succ]; exact hjδ)
    · rw [hlevel]
      exact hr.top
    · rw [hlevel, nodeCells_setShift, hcells]
      exact hframe₁
  have hsame : Λ.setShift 0 (Λ.shift 0) = Λ := by
    simp [Layout.setShift]
  by_cases hgap : (s.headOff + 1) % 64 = 1
  · by_cases hnode : (s.layers 0).headOff < (s.layers 0).tailOff
    · have hhead : (s.layers 0).headNode ≠ none := by
        have hfirst := hhi.head
        rw [Skiplist.level_succ, firstCell_of_lt hnode] at hfirst
        rw [hfirst]
        simp
      rw [if_pos ⟨by rw [hrem, hgap], hhead⟩]
      obtain ⟨h', lv', Λ', hrun, hres⟩ := dropHeads_spec (n := NLayers) (i := 0) rfl hN hnodes hj
        (by rwa [Skiplist.withBase_succ]) (by
          rw [Skiplist.withBase_zero, Skiplist.withBase_succ]
          exact hj0.pop_node hL hne hgap hnode rfl rfl rfl rfl rfl) hr.top
      rw [Skiplist.upper_withBase] at hrun
      have hbase' : lv' 0 = base := by rw [hres.base, Skiplist.withBase_zero]
      have hlv : ({ s₁ with layers := upper lv' } : Skiplist).level = lv' :=
        Skiplist.level_eq (by rw [hbase', hs₁]; rfl) rfl
      have hobj := Heap.nextOf_congr hres.obj
      have hctr := Heap.counterOf_congr hres.obj
      refine ⟨h', _, Λ', by rw [hrun]; rfl, ⟨?_, ?_, ?_, ?_⟩, by simp [hs₁], by simp [hs₁],
        hres.cell, ht, by rw [hobj, hnext], by rw [hctr, hcount], by rw [hres.deleted, hn.deleted],
        ?_⟩
      · rw [hlv]
        exact hres.nodes
      · rw [hlv, ElemsOk, hbase', hres.cell, hobj]
        exact helems
      · rw [hlv]
        exact hres.joints
      · rw [hlv]
        exact hres.top
      · rw [hlv]
        refine hframe₁.trans ?_
        rw [← hcells]
        exact hres.frame
    · have hhead : (s.layers 0).headNode = none := by
        have hfirst := hhi.head
        rwa [Skiplist.level_succ, firstCell_of_le (by omega)] at hfirst
      rw [if_neg fun hc ↦ hc.2 hhead]
      have hle : (s.layers 0).headOff ≤ (s.layers 0).tailOff := hhi.le
      have hempty : (s.layers 0).headOff = (s.layers 0).tailOff := by omega
      exact hdone _ (hj0.pop_first hL hne hgap hempty rfl rfl rfl)
        (hnodes.setShift (by rw [Skiplist.withBase_succ]; exact hempty) _)
  · rw [if_neg fun hc ↦ hgap (by rw [← hrem]; exact hc.1)]
    exact hdone _ (hj0.pop_inside hL hhi.le hne hgap rfl rfl rfl) (by rwa [hsame])

/-- **`dequeue_`** of a non-empty list removes and returns its first element. -/
theorem dequeue_spec {h : Heap} {s : Skiplist} {Λ : Layout} (hr : Rep h s.level Λ)
    (hne : s.headOff < s.tailOff) :
    ∃ h' s' Λ' t, Skiplist.dequeue_ id h s = some (h', s', some t) ∧
      DequeueDone h h' s s' Λ Λ' t := by
  have hL := hr.nodes.level 0 (Nat.zero_le _)
  have hhead : s.head = some (Λ.cell 0 s.headOff) := hL.head.trans (firstCell_of_lt hne)
  have hlive : h.nextOf (Λ.cell 0 s.headOff)
      = some (firstCell (Λ.cell 0) (s.headOff + 1) s.tailOff) := hr.elems _ (le_refl _) hne
  obtain ⟨h₁, hset, hn, hcount, hnext⟩ := Heap.setNext_spec hlive none
  have hcand : (if s.candidate = some (Λ.cell 0 s.headOff) then none else s.candidate)
      = s.base.candidateAfterPop := by
    rw [Layer.candidateAfterPop]
    simp only [Skiplist.base, hhead, eq_comm]
  obtain ⟨h', s', Λ', hrun, hdone⟩ := dequeue_rest hr hne rfl hn hcount hnext rfl
  refine ⟨h', s', Λ', _, ?_, hdone⟩
  rw [← hrun, Skiplist.dequeue_, hhead]
  simp only [Heap.next_eq, hlive, Option.bind_eq_bind, Option.bind_some, hset, hcand, id_eq]

end TYThread
