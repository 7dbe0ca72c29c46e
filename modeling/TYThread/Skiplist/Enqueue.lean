import TYThread.Skiplist.Joint

/-!
# `enqueue`

`_update_after_enque` adds a node to each layer as long as the node completes a block of the layer
below. During the loop exactly one joint is broken: the block below layer `i` is complete and its
node is missing (`Pending`). Adding the node repairs this joint and may break the next one.
-/

namespace TYThread

open LinkedList

/-! ## Adding a cell to one level -/

theorem LevelOk.push {L L' : Layer} {cell : ℤ → Addr} (h : LevelOk L cell) {x : Addr}
    (hx : ∀ p, L.Has p → cell p ≠ x) (hhead : L'.headOff = L.headOff)
    (htail : L'.tailOff = L.tailOff + 1)
    (hheadNode : L'.headNode = if L.headNode = none then some x else L.headNode)
    (htailNode : L'.tailNode = some x) :
    LevelOk L' (Function.update cell L.tailOff x) := by
  obtain ⟨hnonneg, hle, hfirst, -, hdist⟩ := h
  have hold : ∀ p, p < L.tailOff → Function.update cell L.tailOff x p = cell p := fun p hp ↦
    Function.update_of_ne (by omega) _ _
  refine ⟨by omega, by omega, ?_, fun _ ↦ ?_, ?_⟩
  · rw [hheadNode, hfirst, hhead, htail, firstCell_of_lt (by omega : L.headOff < L.tailOff + 1)]
    by_cases hempty : L.headOff < L.tailOff
    · rw [firstCell_of_lt hempty, if_neg (by simp), hold _ hempty]
    · have heq : L.headOff = L.tailOff := by omega
      rw [firstCell_of_le (by omega), if_pos rfl, heq, Function.update_self]
  · have heq : L.tailOff + 1 - 1 = L.tailOff := by omega
    rw [htailNode, htail, heq, Function.update_self]
  · intro p q hp hp' hq hq' hpq
    rw [hhead] at hp hq
    rw [htail] at hp' hq'
    by_cases hpb : p = L.tailOff <;> by_cases hqb : q = L.tailOff
    · omega
    · rw [hpb, Function.update_self, hold q (by omega)] at hpq
      exact absurd hpq.symm (hx q ⟨hq, by omega⟩)
    · rw [hqb, Function.update_self, hold p (by omega)] at hpq
      exact absurd hpq (hx p ⟨hp, by omega⟩)
    · rw [hold p (by omega), hold q (by omega)] at hpq
      exact hdist p q hp (by omega) hq (by omega) hpq

/-- The layout with the cell `x` at position `p` of level `k`. -/
def Layout.setCell (Λ : Layout) (k : ℕ) (p : ℤ) (x : Addr) : Layout :=
  { Λ with cell := Function.update Λ.cell k (Function.update (Λ.cell k) p x) }

@[simp] theorem Layout.setCell_shift (Λ : Layout) (k : ℕ) (p : ℤ) (x : Addr) :
    (Λ.setCell k p x).shift = Λ.shift := rfl

@[simp] theorem Layout.setCell_cell_self (Λ : Layout) (k : ℕ) (p : ℤ) (x : Addr) :
    (Λ.setCell k p x).cell k = Function.update (Λ.cell k) p x := by
  simp [setCell]

theorem Layout.setCell_cell_of_ne (Λ : Layout) {j k : ℕ} (hjk : j ≠ k) (p : ℤ) (x : Addr) :
    (Λ.setCell k p x).cell j = Λ.cell j := by
  simp [setCell, hjk]

/-! ## Frames -/

/-- What an operation does to the skip nodes: it touches none but the list's own, and the list owns
afterwards what it owned before and newly allocated nodes. -/
structure NodeFrame (h h' : Heap) (S S' : Set Addr) : Prop where
  brk_le : h.brk ≤ h'.brk
  same : ∀ a < h.brk, a ∉ S → h'.node a = h.node a
  owned : ∀ a ∈ S', a ∈ S ∨ h.brk ≤ a

theorem NodeFrame.refl (h : Heap) (S : Set Addr) : NodeFrame h h S S :=
  ⟨Nat.le_refl _, fun _ _ _ ↦ rfl, fun _ ha ↦ Or.inl ha⟩

theorem NodeFrame.trans {h₁ h₂ h₃ : Heap} {S₁ S₂ S₃ : Set Addr} (h₁₂ : NodeFrame h₁ h₂ S₁ S₂)
    (h₂₃ : NodeFrame h₂ h₃ S₂ S₃) : NodeFrame h₁ h₃ S₁ S₃ := by
  refine ⟨Nat.le_trans h₁₂.brk_le h₂₃.brk_le, fun a ha hS ↦ ?_, fun a ha ↦ ?_⟩
  · have hS₂ : a ∉ S₂ := fun hmem ↦ by
      rcases h₁₂.owned a hmem with h | h
      · exact hS h
      · exact absurd ha (Nat.not_lt.mpr h)
    rw [h₂₃.same a (Nat.lt_of_lt_of_le ha h₁₂.brk_le) hS₂, h₁₂.same a ha hS]
  · rcases h₂₃.owned a ha with h | h
    · exact h₁₂.owned a h
    · exact Or.inr (Nat.le_trans h₁₂.brk_le h)

/-! ## One node -/

section AppendNode

variable {h : Heap} {L : Layer} {cur last : Option Addr}

/-- The heap after `appendNode`, where `h` has been changed to `node` in the old tail. -/
def addedNode (h : Heap) (node : Addr → Option SkipNode) (cur last : Option Addr) : Heap :=
  { h with
    node := Function.update node h.brk (some { downNode := cur, lastDownNode := last })
    brk := h.brk + 1 }

theorem addedNode_node (node : Addr → Option SkipNode) : (addedNode h node cur last).node
    = Function.update node h.brk (some { downNode := cur, lastDownNode := last }) := rfl

theorem appendNode_of_empty (hL : L.headNode = none) :
    Skiplist.appendNode id h L cur last = some (addedNode h h.node cur last,
      { L with headNode := some h.brk, tailNode := some h.brk, tailOff := L.tailOff + 1 },
      h.brk) := by
  simp [Skiplist.appendNode, hL, Heap.newNode, addedNode, Heap.setNode]

theorem appendNode_of_nonempty (hL : L.headNode ≠ none) {t : Addr} (ht : L.tailNode = some t)
    {nd : SkipNode} (hnd : h.node t = some nd) (hlt : t < h.brk) :
    Skiplist.appendNode id h L cur last = some
      (addedNode h (Function.update h.node t (some { nd with nextNode := some h.brk })) cur last,
        { L with tailNode := some h.brk, tailOff := L.tailOff + 1 }, h.brk) := by
  have hne : t ≠ h.brk := Nat.ne_of_lt hlt
  simp only [Skiplist.appendNode, Heap.newNode, if_neg hL, Heap.setNextNode, ht,
    Function.update_of_ne hne, hnd, Option.bind_eq_bind, Option.bind_some, Heap.setNode, addedNode,
    Option.pure_def, id_eq, Option.some.injEq, Prod.mk.injEq, and_true]
  rw [Function.update_comm hne.symm, Function.update_idem]

end AppendNode

section Push

variable {h : Heap} {lv : ℕ → Layer} {Λ : Layout} {i : ℕ}

/-- The node cells are below `brk`, so a newly allocated address is not among them. -/
theorem NodesOk.ne_brk (hs : NodesOk h lv Λ) {k : ℕ} (hk : k < NLayers) {p : ℤ}
    (hp : (lv (k + 1)).Has p) : Λ.cell (k + 1) p ≠ h.brk :=
  Nat.ne_of_lt (hs.lt_brk k hk p hp)

/-- The first and the last item of a block whose node exists are in the lower level. -/
theorem Aligned.has_block {lo hi : Layer} {δ : ℤ} (ha : Aligned lo hi δ) {p : ℤ} (hp : hi.Has p)
    {r : ℤ} (hr : 0 ≤ r) (hr' : r < 64) : lo.Has (64 * p + δ + r) := by
  obtain ⟨hdvd, hle, hlt, hfull⟩ := ha
  obtain ⟨hp, hp'⟩ := hp
  exact ⟨by omega, by omega⟩

/-- `lv` after a node has been added to level `i + 1`. -/
def pushed (lv : ℕ → Layer) (i : ℕ) (new : Addr) (candidate : Option Addr) : ℕ → Layer :=
  Function.update lv (i + 1)
    { lv (i + 1) with
      headNode := if (lv (i + 1)).headNode = none then some new else (lv (i + 1)).headNode
      tailNode := some new
      tailOff := (lv (i + 1)).tailOff + 1
      candidate }

/-- The layout after a node has been added to level `i + 1`. -/
def Layout.pushed (Λ : Layout) (lv : ℕ → Layer) (i : ℕ) (new : Addr) : Layout :=
  Λ.setCell (i + 1) (lv (i + 1)).tailOff new

/-- The heap `h'` is `h` with a new node behind the tail of level `i + 1`. -/
structure AddedNode (h h' : Heap) (lv : ℕ → Layer) (Λ : Layout) (i : ℕ) (cur last : Option Addr) :
    Prop where
  obj : h'.obj = h.obj
  deleted : h'.deleted = h.deleted
  brk : h'.brk = h.brk + 1
  new : h'.node h.brk = some { downNode := cur, lastDownNode := last }
  tail : (lv (i + 1)).headOff < (lv (i + 1)).tailOff →
    h'.node (Λ.cell (i + 1) ((lv (i + 1)).tailOff - 1))
      = some { Λ.nodeAt lv i ((lv (i + 1)).tailOff - 1) with nextNode := some h.brk }
  same : ∀ a, a ≠ h.brk → ((lv (i + 1)).headOff < (lv (i + 1)).tailOff →
    a ≠ Λ.cell (i + 1) ((lv (i + 1)).tailOff - 1)) → h'.node a = h.node a

theorem appendNode_spec (hs : NodesOk h lv Λ) (hi : i < NLayers) (cur last : Option Addr) :
    ∃ h', Skiplist.appendNode id h (lv (i + 1)) cur last
        = some (h', pushed lv i h.brk (lv (i + 1)).candidate (i + 1), h.brk) ∧
      AddedNode h h' lv Λ i cur last := by
  have hL := hs.level (i + 1) hi
  simp only [pushed, Function.update_self]
  by_cases hne : (lv (i + 1)).headOff < (lv (i + 1)).tailOff
  · have hhead : (lv (i + 1)).headNode ≠ none := by rw [hL.head, firstCell_of_lt hne]; simp
    have hlast : (lv (i + 1)).Has ((lv (i + 1)).tailOff - 1) := ⟨by omega, by omega⟩
    have htne := hs.ne_brk hi hlast
    let node := Function.update h.node (Λ.cell (i + 1) ((lv (i + 1)).tailOff - 1))
      (some { Λ.nodeAt lv i ((lv (i + 1)).tailOff - 1) with nextNode := some h.brk })
    refine ⟨addedNode h node cur last, ?_, rfl, rfl, rfl, Function.update_self .., fun _ ↦ ?_,
      fun a ha ha' ↦ ?_⟩
    · rw [appendNode_of_nonempty hhead (hL.tail hne) (hs.node i hi _ hlast)
        (hs.lt_brk i hi _ hlast), if_neg hhead]
    · rw [addedNode_node, Function.update_of_ne htne]
      exact Function.update_self ..
    · rw [addedNode_node, Function.update_of_ne ha]
      exact Function.update_of_ne (ha' hne) ..
  · have hhead : (lv (i + 1)).headNode = none := by rw [hL.head, firstCell_of_le (by omega)]
    refine ⟨addedNode h h.node cur last, ?_, rfl, rfl, rfl, Function.update_self ..,
      fun h ↦ absurd h hne, fun a ha _ ↦ ?_⟩
    · rw [appendNode_of_empty hhead, if_pos hhead]
    · rw [addedNode_node, Function.update_of_ne ha]

theorem pushed_self (lv : ℕ → Layer) (i : ℕ) (new : Addr) (candidate : Option Addr) :
    pushed lv i new candidate (i + 1) =
      { lv (i + 1) with
        headNode := if (lv (i + 1)).headNode = none then some new else (lv (i + 1)).headNode
        tailNode := some new
        tailOff := (lv (i + 1)).tailOff + 1
        candidate } := Function.update_self ..

@[simp] theorem pushed_headOff (lv : ℕ → Layer) (i : ℕ) (new : Addr) (candidate : Option Addr) :
    (pushed lv i new candidate (i + 1)).headOff = (lv (i + 1)).headOff := by
  rw [pushed_self]

@[simp] theorem pushed_candidate (lv : ℕ → Layer) (i : ℕ) (new : Addr)
    (candidate : Option Addr) : (pushed lv i new candidate (i + 1)).candidate = candidate := by
  rw [pushed_self]

@[simp] theorem pushed_tailOff (lv : ℕ → Layer) (i : ℕ) (new : Addr) (candidate : Option Addr) :
    (pushed lv i new candidate (i + 1)).tailOff = (lv (i + 1)).tailOff + 1 := by
  rw [pushed_self]

theorem pushed_of_ne (lv : ℕ → Layer) {i k : ℕ} (hk : k ≠ i + 1) (new : Addr)
    (candidate : Option Addr) : pushed lv i new candidate k = lv k :=
  Function.update_of_ne hk ..

theorem update_upper_pushed (lv : ℕ → Layer) (i : ℕ) (new : Addr) {c₀ : Option Addr} {L : Layer}
    (hL : L = pushed lv i new c₀ (i + 1)) (c : Option Addr) :
    Function.update (upper lv) i { L with candidate := c } = upper (pushed lv i new c) := by
  subst hL
  rw [update_upper, pushed_self, pushed]

theorem Layout.pushed_cell_of_ne (Λ : Layout) (lv : ℕ → Layer) {i k : ℕ} (hk : k ≠ i + 1)
    (new : Addr) : (Λ.pushed lv i new).cell k = Λ.cell k :=
  Λ.setCell_cell_of_ne hk ..

theorem Layout.pushed_cell_old (Λ : Layout) {lv : ℕ → Layer} {i : ℕ} (new : Addr) {p : ℤ}
    (hp : p < (lv (i + 1)).tailOff) : (Λ.pushed lv i new).cell (i + 1) p = Λ.cell (i + 1) p := by
  rw [pushed, setCell_cell_self, Function.update_of_ne (by omega)]

@[simp] theorem Layout.pushed_cell_new (Λ : Layout) (lv : ℕ → Layer) (i : ℕ) (new : Addr) :
    (Λ.pushed lv i new).cell (i + 1) (lv (i + 1)).tailOff = new := by
  rw [pushed, setCell_cell_self, Function.update_self]

/-- A node of the grown list is the new one or an old one at its old place. -/
theorem pushed_cell_cases {new : Addr} {candidate : Option Addr} {k : ℕ}
    {p : ℤ} (hp : (pushed lv i new candidate (k + 1)).Has p) :
    (k = i ∧ p = (lv (i + 1)).tailOff ∧ (Λ.pushed lv i new).cell (k + 1) p = new) ∨
      ((lv (k + 1)).Has p ∧ (Λ.pushed lv i new).cell (k + 1) p = Λ.cell (k + 1) p) := by
  by_cases hki : k = i
  · subst hki
    obtain ⟨hp, hp'⟩ := hp
    rw [pushed_headOff] at hp
    rw [pushed_tailOff] at hp'
    by_cases hpb : p = (lv (k + 1)).tailOff
    · exact Or.inl ⟨rfl, hpb, by rw [hpb, Layout.pushed_cell_new]⟩
    · exact Or.inr ⟨⟨hp, by omega⟩, Λ.pushed_cell_old new (by omega)⟩
  · have hki' : k + 1 ≠ i + 1 := by omega
    rw [pushed_of_ne lv hki'] at hp
    exact Or.inr ⟨hp, by rw [Λ.pushed_cell_of_ne lv hki']⟩

theorem NodesOk.push_node (hs : NodesOk h lv Λ) (hj : JointsExcept lv Λ i) (hi : i < NLayers)
    {cur last : Option Addr}
    (hp : Pending (lv i) (lv (i + 1)) (Λ.cell i) (Λ.shift i) cur last) {h' : Heap}
    (ha : AddedNode h h' lv Λ i cur last) (candidate : Option Addr) {k : ℕ} (hk : k < NLayers)
    {p : ℤ} (hkp : (pushed lv i h.brk candidate (k + 1)).Has p) :
    h'.node ((Λ.pushed lv i h.brk).cell (k + 1) p)
      = some ((Λ.pushed lv i h.brk).nodeAt (pushed lv i h.brk candidate) k p) := by
  have hL := hs.level (i + 1) hi
  rcases pushed_cell_cases (Λ := Λ) hkp with ⟨rfl, rfl, hcell⟩ | ⟨hold, hcell⟩
  · -- the new node
    rw [hcell, ha.new, Layout.nodeAt, Λ.pushed_cell_of_ne lv (by omega), hp.cur, hp.last,
      pushed_tailOff, firstCell_of_le (by omega)]
    rfl
  · rw [hcell]
    by_cases hki : k = i
    · subst hki
      obtain ⟨hap, hpb⟩ := hold
      have hnext : firstCell ((Λ.pushed lv k h.brk).cell (k + 1)) (p + 1)
          (pushed lv k h.brk candidate (k + 1)).tailOff
            = some ((Λ.pushed lv k h.brk).cell (k + 1) (p + 1)) := by
        rw [pushed_tailOff, firstCell_of_lt (by omega)]
      by_cases hlast : p = (lv (k + 1)).tailOff - 1
      · -- the old tail, which now links to the new node
        subst hlast
        have hnew : (lv (k + 1)).tailOff - 1 + 1 = (lv (k + 1)).tailOff := by omega
        rw [ha.tail (by omega), Layout.nodeAt, Layout.nodeAt, Λ.pushed_cell_of_ne lv (by omega),
          hnext, hnew, Layout.pushed_cell_new]
        rfl
      · have hne : Λ.cell (k + 1) p ≠ Λ.cell (k + 1) ((lv (k + 1)).tailOff - 1) := fun heq ↦
          hlast (hL.distinct p _ hap hpb (by omega) (by omega) heq)
        rw [ha.same _ (hs.ne_brk hk ⟨hap, hpb⟩) fun _ ↦ hne, hs.node k hk p ⟨hap, hpb⟩,
          Layout.nodeAt, Layout.nodeAt, Λ.pushed_cell_of_ne lv (by omega), hnext,
          firstCell_of_lt (by omega), Λ.pushed_cell_old h.brk (by omega)]
        rfl
    · have hki' : k + 1 ≠ i + 1 := by omega
      have hne : ∀ q, (lv (i + 1)).Has q → Λ.cell (k + 1) p ≠ Λ.cell (i + 1) q := fun q hq heq ↦
        hki (hs.disjoint k hk i hi p q hold hq heq)
      rw [ha.same _ (hs.ne_brk hk hold) fun hlt ↦ hne _ ⟨by omega, by omega⟩, hs.node k hk p hold,
        Layout.nodeAt, Layout.nodeAt, Λ.pushed_cell_of_ne lv hki', pushed_of_ne lv hki']
      by_cases hki1 : k = i + 1
      · -- the block of the node lies below the new position
        subst hki1
        have hal := (hj (i + 1) hk (by omega)).toAligned
        have hfirst := (hal.has_block hold (r := 0) (by omega) (by omega)).2
        have hlast := (hal.has_block hold (r := 63) (by omega) (by omega)).2
        rw [Λ.pushed_cell_old h.brk (by simp only [Layout.pushed, Layout.setCell_shift]; omega),
          Λ.pushed_cell_old h.brk (by simp only [Layout.pushed, Layout.setCell_shift]; omega)]
        rfl
      · rw [Λ.pushed_cell_of_ne lv hki1]
        rfl

/-- Adding a node completes the level it is added to, whatever the candidate becomes. -/
theorem NodesOk.push (hs : NodesOk h lv Λ) (hj : JointsExcept lv Λ i) (hi : i < NLayers)
    {cur last : Option Addr}
    (hp : Pending (lv i) (lv (i + 1)) (Λ.cell i) (Λ.shift i) cur last) {h' : Heap}
    (ha : AddedNode h h' lv Λ i cur last) (candidate : Option Addr) :
    NodesOk h' (pushed lv i h.brk candidate) (Λ.pushed lv i h.brk) := by
  refine ⟨fun k hk ↦ ?_, fun k hk p hkp ↦ hs.push_node hj hi hp ha candidate hk hkp,
    fun j hj' k hk p q hp hq hpq ↦ ?_, fun k hk p hkp ↦ ?_⟩
  · by_cases hki : k = i + 1
    · subst hki
      rw [Layout.pushed, Layout.setCell_cell_self, pushed_self]
      exact (hs.level (i + 1) hi).push (fun p hp ↦ hs.ne_brk hi hp) rfl rfl rfl rfl
    · rw [pushed_of_ne lv hki, Λ.pushed_cell_of_ne lv hki]
      exact hs.level k hk
  · rcases pushed_cell_cases hp with ⟨hji, -, hjp⟩ | ⟨hp', hjp⟩ <;>
      rcases pushed_cell_cases hq with ⟨hki, -, hkq⟩ | ⟨hq', hkq⟩
    · omega
    · rw [hjp, hkq] at hpq
      exact absurd hpq.symm (hs.ne_brk hk hq')
    · rw [hjp, hkq] at hpq
      exact absurd hpq (hs.ne_brk hj' hp')
    · rw [hjp, hkq] at hpq
      exact hs.disjoint j hj' k hk p q hp' hq' hpq
  · rw [ha.brk]
    rcases pushed_cell_cases hkp with ⟨-, -, hcell⟩ | ⟨hp', hcell⟩
    · rw [hcell]
      exact Nat.lt_succ_self _
    · rw [hcell]
      exact Nat.lt_succ_of_lt (hs.lt_brk k hk p hp')

theorem NodeFrame.push (hi : i < NLayers) {cur last : Option Addr}
    {h' : Heap} (ha : AddedNode h h' lv Λ i cur last) (candidate : Option Addr) :
    NodeFrame h h' (nodeCells lv Λ)
      (nodeCells (pushed lv i h.brk candidate) (Λ.pushed lv i h.brk)) := by
  refine ⟨by rw [ha.brk]; exact Nat.le_succ _, fun a hlt hmem ↦ ?_, ?_⟩
  · refine ha.same a (Nat.ne_of_lt hlt) fun hne heq ↦ hmem ?_
    exact ⟨i, hi, _, ⟨by omega, by omega⟩, heq.symm⟩
  · rintro a ⟨k, hk, p, hp, rfl⟩
    rcases pushed_cell_cases hp with ⟨-, -, heq⟩ | ⟨hp', heq⟩
    · exact Or.inr (Nat.le_of_eq heq.symm)
    · exact Or.inl ⟨k, hk, p, hp', heq.symm⟩

/-- The joints away from the level that grows stay, and the broken one is repaired. -/
theorem joints_push (hj : JointsExcept lv Λ i) {cur last : Option Addr}
    (hp : Pending (lv i) (lv (i + 1)) (Λ.cell i) (Λ.shift i) cur last) (new : Addr)
    (candidate : Option Addr) :
    JointsExcept (pushed lv i new candidate) (Λ.pushed lv i new) (i + 1) := by
  intro k hk hki
  by_cases hk' : k = i
  · subst hk'
    have hcell : (Λ.pushed lv k new).cell k = Λ.cell k := Λ.setCell_cell_of_ne (by omega) ..
    rw [pushed_of_ne lv (by omega), hcell]
    exact hp.joint (by simp) (by simp)
  · have hcell : (Λ.pushed lv i new).cell k = Λ.cell k := Λ.setCell_cell_of_ne hki ..
    rw [pushed_of_ne lv hki, pushed_of_ne lv (by omega), hcell]
    exact hj k hk hk'

theorem JointsExcept.joints (hj : JointsExcept lv Λ i)
    (h : i < NLayers → Joint (lv i) (lv (i + 1)) (Λ.cell i) (Λ.shift i)) : Joints lv Λ := by
  intro k hk
  by_cases hki : k = i
  · subst hki
    exact h hk
  · exact hj k hk hki

theorem TopCandidate.push {L L' : Layer} {cell : ℤ → Addr} (ht : TopCandidate L cell)
    (hle : L.headOff ≤ L.tailOff) (x : Addr) (hhead : L'.headOff = L.headOff)
    (htail : L'.tailOff = L.tailOff + 1)
    (hcand : (L.candidate ≠ none ∧ (L.tailOff + 1) % 64 = 0 ∧ L'.candidate = none) ∨
      ((L.tailOff + 1) % 64 = 1 ∧ L'.candidate = some x) ∨
      (¬(L.candidate ≠ none ∧ (L.tailOff + 1) % 64 = 0) ∧ L'.candidate = L.candidate)) :
    TopCandidate L' (Function.update cell L.tailOff x) := by
  rcases hcand with ⟨-, -, hc⟩ | ⟨hrem, hc⟩ | ⟨hrem, hc⟩
  · exact Or.inl hc
  · exact Or.inr ⟨L.tailOff, by omega, by omega, by omega, by omega,
      by rw [hc, Function.update_self]⟩
  · rcases ht with hnone | ⟨c, hdvd, hle', hlt, hrest, hsome⟩
    · exact Or.inl (by rw [hc, hnone])
    · have hne : (L.tailOff + 1) % 64 ≠ 0 := fun h0 ↦ hrem ⟨by simp [hsome], h0⟩
      refine Or.inr ⟨c, hdvd, by omega, by omega, by omega, ?_⟩
      rw [hc, hsome, Function.update_of_ne (by omega)]

end Push

/-! ## The loop -/

/-- What a loop over the layers leaves: a consistent list over the same elements. -/
structure LayersUpdated (h h' : Heap) (lv lv' : ℕ → Layer) (Λ Λ' : Layout) : Prop where
  base : lv' 0 = lv 0
  cell : Λ'.cell 0 = Λ.cell 0
  nodes : NodesOk h' lv' Λ'
  joints : Joints lv' Λ'
  top : TopCandidate (lv' NLayers) (Λ'.cell NLayers)
  obj : h'.obj = h.obj
  deleted : h'.deleted = h.deleted
  frame : NodeFrame h h' (nodeCells lv Λ) (nodeCells lv' Λ')

theorem LayersUpdated.trans {h₁ h₂ h₃ : Heap} {lv₁ lv₂ lv₃ : ℕ → Layer} {Λ₁ Λ₂ Λ₃ : Layout}
    (hbase : lv₂ 0 = lv₁ 0) (hcell : Λ₂.cell 0 = Λ₁.cell 0) (hobj : h₂.obj = h₁.obj)
    (hdel : h₂.deleted = h₁.deleted)
    (hframe : NodeFrame h₁ h₂ (nodeCells lv₁ Λ₁) (nodeCells lv₂ Λ₂))
    (h : LayersUpdated h₂ h₃ lv₂ lv₃ Λ₂ Λ₃) : LayersUpdated h₁ h₃ lv₁ lv₃ Λ₁ Λ₃ where
  base := h.base.trans hbase
  cell := h.cell.trans hcell
  nodes := h.nodes
  joints := h.joints
  top := h.top
  obj := h.obj.trans hobj
  deleted := h.deleted.trans hdel
  frame := hframe.trans h.frame

/-- **The loop of `_update_after_enque`.** It starts with the joint below layer `i` broken and
repairs all. -/
theorem addNodes_spec {n i : ℕ} (hn : n + i = NLayers) {h : Heap} {lv : ℕ → Layer} {Λ : Layout}
    {cur last : Option Addr} (hs : NodesOk h lv Λ) (hj : JointsExcept lv Λ i)
    (hp : i < NLayers → Pending (lv i) (lv (i + 1)) (Λ.cell i) (Λ.shift i) cur last)
    (ht : TopCandidate (lv NLayers) (Λ.cell NLayers)) :
    ∃ h' lv' Λ', Skiplist.addNodes id n i h (upper lv) cur last = some (h', upper lv') ∧
      LayersUpdated h h' lv lv' Λ Λ' := by
  induction n generalizing i h lv Λ cur last with
  | zero =>
    have hjoints : Joints lv Λ := hj.joints fun hlt ↦ by omega
    exact ⟨h, lv, Λ, rfl, rfl, rfl, hs, hjoints, ht, rfl, rfl, NodeFrame.refl h _⟩
  | succ n ih =>
    have hi : i < NLayers := by omega
    have hL := hs.level (i + 1) hi
    obtain ⟨h₁, happ, hadd⟩ := appendNode_spec hs hi cur last
    have hpend := hp hi
    -- What holds after the node has been added, whatever the candidate becomes.
    have hs₁ := fun c ↦ hs.push hj hi hpend hadd c
    have hj₁ := fun c ↦ joints_push hj hpend h.brk c
    have hf₁ := fun c ↦ NodeFrame.push hi hadd c
    have hbase₁ : ∀ c, pushed lv i h.brk c 0 = lv 0 := fun c ↦ pushed_of_ne lv (by omega) ..
    have hcell₁ : (Λ.pushed lv i h.brk).cell 0 = Λ.cell 0 := Λ.setCell_cell_of_ne (by omega) ..
    have hcelli : (Λ.pushed lv i h.brk).cell (i + 1)
        = Function.update (Λ.cell (i + 1)) (lv (i + 1)).tailOff h.brk := Λ.setCell_cell_self ..
    have hrem : remGap ((lv (i + 1)).tailOff + 1) = ((lv (i + 1)).tailOff + 1) % 64 :=
      remGap_of_nonneg (by have := hL.nonneg; have := hL.le; omega)
    have hlayers := fun c ↦ update_upper_pushed lv i h.brk
      (rfl : pushed lv i h.brk (lv (i + 1)).candidate (i + 1) = _) c
    have hunfold : Skiplist.addNodes id (n + 1) i h (upper lv) cur last =
        if (lv (i + 1)).candidate ≠ none ∧ ((lv (i + 1)).tailOff + 1) % 64 = 0 then
          Skiplist.addNodes id n (i + 1) h₁ (upper (pushed lv i h.brk none))
            (lv (i + 1)).candidate (some h.brk)
        else if ((lv (i + 1)).tailOff + 1) % 64 = 1 then
          some (h₁, upper (pushed lv i h.brk (some h.brk)))
        else some (h₁, upper (pushed lv i h.brk (lv (i + 1)).candidate)) := by
      have hsame : Function.update (upper lv) i (pushed lv i h.brk (lv (i + 1)).candidate (i + 1))
          = upper (pushed lv i h.brk (lv (i + 1)).candidate) := by
        rw [update_upper, pushed_self, pushed]
      rw [Skiplist.addNodes, upper_apply, happ]
      simp only [Option.bind_eq_bind, Option.bind_some]
      rw [hlayers, hlayers, hsame, pushed_candidate, pushed_tailOff, hrem]
    -- Where the candidate goes decides what becomes of the next joint and of the top candidate.
    have hnext : ∀ c, (i + 1 < NLayers → Joint (pushed lv i h.brk c (i + 1))
          (pushed lv i h.brk c (i + 1 + 1)) ((Λ.pushed lv i h.brk).cell (i + 1))
          (Λ.shift (i + 1))) →
        TopCandidate (pushed lv i h.brk c NLayers) ((Λ.pushed lv i h.brk).cell NLayers) →
        LayersUpdated h h₁ lv (pushed lv i h.brk c) Λ (Λ.pushed lv i h.brk) := fun c hjc htc ↦
      ⟨hbase₁ c, hcell₁, hs₁ c, (hj₁ c).joints hjc, htc, hadd.obj, hadd.deleted, hf₁ c⟩
    have hlo : ∀ c, i + 1 < NLayers → pushed lv i h.brk c (i + 1 + 1) = lv (i + 1 + 1) :=
      fun c _ ↦ pushed_of_ne lv (by omega) ..
    have htop : ∀ c, (((lv (i + 1)).candidate ≠ none ∧ ((lv (i + 1)).tailOff + 1) % 64 = 0 ∧
          c = none) ∨ (((lv (i + 1)).tailOff + 1) % 64 = 1 ∧ c = some h.brk) ∨
          (¬((lv (i + 1)).candidate ≠ none ∧ ((lv (i + 1)).tailOff + 1) % 64 = 0) ∧
            c = (lv (i + 1)).candidate)) →
        TopCandidate (pushed lv i h.brk c NLayers) ((Λ.pushed lv i h.brk).cell NLayers) := by
      intro c hc
      by_cases hiN : NLayers = i + 1
      · rw [hiN] at ht ⊢
        rw [hcelli]
        exact ht.push hL.le h.brk (by simp) (by simp) (by simpa using hc)
      · rw [pushed_of_ne lv hiN, Λ.pushed_cell_of_ne lv hiN]
        exact ht
    rw [hunfold]
    by_cases hcomplete : (lv (i + 1)).candidate ≠ none ∧ ((lv (i + 1)).tailOff + 1) % 64 = 0
    · -- to upper layer
      rw [if_pos hcomplete]
      have hpend' : i + 1 < NLayers → Pending (pushed lv i h.brk none (i + 1))
          (pushed lv i h.brk none (i + 1 + 1)) ((Λ.pushed lv i h.brk).cell (i + 1))
          ((Λ.pushed lv i h.brk).shift (i + 1)) (lv (i + 1)).candidate (some h.brk) := by
        intro hlt
        rw [hlo none hlt, hcelli]
        exact (hj (i + 1) hlt (by omega)).push_complete h.brk (by simp) (by simp) hcomplete.1
          hcomplete.2 (by simp)
      obtain ⟨h', lv', Λ', hrun, hres⟩ := ih (by omega) (hs₁ none) (hj₁ none) hpend'
        (htop none (Or.inl ⟨hcomplete.1, hcomplete.2, rfl⟩))
      exact ⟨h', lv', Λ', hrun,
        hres.trans (hbase₁ none) hcell₁ hadd.obj hadd.deleted (hf₁ none)⟩
    · rw [if_neg hcomplete]
      by_cases hfirst : ((lv (i + 1)).tailOff + 1) % 64 = 1
      · rw [if_pos hfirst]
        refine ⟨h₁, _, _, rfl, hnext _ (fun hlt ↦ ?_) (htop _ (Or.inr (Or.inl ⟨hfirst, rfl⟩)))⟩
        rw [hlo _ hlt, hcelli]
        exact (hj (i + 1) hlt (by omega)).push_first hL.le h.brk (by simp) (by simp) hfirst
          (by simp)
      · rw [if_neg hfirst]
        refine ⟨h₁, _, _, rfl, hnext _ (fun hlt ↦ ?_)
          (htop _ (Or.inr (Or.inr ⟨hcomplete, rfl⟩)))⟩
        rw [hlo _ hlt, hcelli]
        exact (hj (i + 1) hlt (by omega)).push_inside h.brk (by simp) (by simp) hcomplete hfirst
          (by simp)

/-! ## The base level -/

theorem NodesOk.congr_heap {h h' : Heap} {lv : ℕ → Layer} {Λ : Layout} (hs : NodesOk h lv Λ)
    (hn : Heap.SameNodes h h') : NodesOk h' lv Λ :=
  ⟨hs.level, fun k hk p hp ↦ by rw [hn.node, hs.node k hk p hp], hs.disjoint,
    fun k hk p hp ↦ by rw [hn.brk]; exact hs.lt_brk k hk p hp⟩

theorem Skiplist.level_eq {s : Skiplist} {lv : ℕ → Layer} (hbase : s.base = lv 0)
    (hlayers : s.layers = upper lv) : s.level = lv := by
  funext k
  cases k with
  | zero => exact hbase
  | succ k => rw [level_succ, hlayers, upper_apply]

/-- The layers of a list and the base level of another one. -/
def Skiplist.withBase (s : Skiplist) (L : Layer) : ℕ → Layer := Function.update s.level 0 L

@[simp] theorem Skiplist.withBase_zero (s : Skiplist) (L : Layer) : s.withBase L 0 = L :=
  Function.update_self ..

@[simp] theorem Skiplist.withBase_succ (s : Skiplist) (L : Layer) (k : ℕ) :
    s.withBase L (k + 1) = s.layers k :=
  Function.update_of_ne (by omega) ..

@[simp] theorem Skiplist.upper_withBase (s : Skiplist) (L : Layer) :
    upper (s.withBase L) = s.layers := by
  funext k
  rw [upper_apply, withBase_succ]

theorem nodeCells_withBase (s : Skiplist) (L : Layer) {Λ Λ' : Layout}
    (hcell : ∀ k, Λ'.cell (k + 1) = Λ.cell (k + 1)) :
    nodeCells (s.withBase L) Λ' = nodeCells s.level Λ := by
  ext a
  simp only [nodeCells, Set.mem_ofPred_eq, Skiplist.withBase_succ, Skiplist.level_succ, hcell]

theorem NodesOk.push_base {h : Heap} {s : Skiplist} {Λ : Layout} (hs : NodesOk h s.level Λ)
    (hj : Joints s.level Λ) {e : Addr} {L : Layer}
    (hL : LevelOk L (Function.update (Λ.cell 0) s.tailOff e)) :
    NodesOk h (s.withBase L) (Λ.setCell 0 s.tailOff e) := by
  have hcell : ∀ k, (Λ.setCell 0 s.tailOff e).cell (k + 1) = Λ.cell (k + 1) := fun k ↦
    Λ.setCell_cell_of_ne (by omega) ..
  refine ⟨fun k hk ↦ ?_, fun k hk p hp ↦ ?_, fun j hj k hk p q hp hq hpq ↦ ?_, fun k hk p hp ↦ ?_⟩
  · cases k with
    | zero =>
      rw [Skiplist.withBase_zero, Layout.setCell_cell_self]
      exact hL
    | succ k =>
      rw [Skiplist.withBase_succ, hcell]
      exact hs.level (k + 1) hk
  · rw [Skiplist.withBase_succ] at hp
    rw [hcell, hs.node k hk p hp, Layout.nodeAt, Layout.nodeAt, hcell, Skiplist.withBase_succ,
      Skiplist.level_succ]
    cases k with
    | zero =>
      -- The block of the node lies below the new position.
      have hal := (hj 0 hk).toAligned
      have hfirst := (hal.has_block hp (r := 0) (by omega) (by omega)).2
      have hlast := (hal.has_block hp (r := 63) (by omega) (by omega)).2
      simp only [Skiplist.level_zero, Skiplist.base] at hfirst hlast
      rw [Layout.setCell_cell_self, Layout.setCell_shift, Function.update_of_ne (by omega),
        Function.update_of_ne (by omega)]
    | succ k =>
      rw [hcell]
      rfl
  · rw [Skiplist.withBase_succ] at hp hq
    rw [hcell, hcell] at hpq
    exact hs.disjoint j hj k hk p q hp hq hpq
  · rw [Skiplist.withBase_succ] at hp
    rw [hcell]
    exact hs.lt_brk k hk p hp

theorem Joints.push_base {s : Skiplist} {Λ : Layout} (hj : Joints s.level Λ) (e : Addr)
    (L : Layer) : JointsExcept (s.withBase L) (Λ.setCell 0 s.tailOff e) 0 := by
  intro k hk hk0
  obtain ⟨k, rfl⟩ : ∃ j, k = j + 1 := ⟨k - 1, by omega⟩
  rw [Skiplist.withBase_succ, Skiplist.withBase_succ, Λ.setCell_cell_of_ne (by omega)]
  exact hj (k + 1) hk

/-- What an enqueue of `e` does to the levels. -/
structure Enqueued (h h' : Heap) (s s' : Skiplist) (Λ Λ' : Layout) (e : Addr) : Prop where
  headOff : s'.headOff = s.headOff
  tailOff : s'.tailOff = s.tailOff + 1
  cell : Λ'.cell 0 = Function.update (Λ.cell 0) s.tailOff e
  nodes : NodesOk h' s'.level Λ'
  joints : Joints s'.level Λ'
  top : TopCandidate (s'.level NLayers) (Λ'.cell NLayers)
  obj : h'.obj = h.obj
  deleted : h'.deleted = h.deleted
  frame : NodeFrame h h' (nodeCells s.level Λ) (nodeCells s'.level Λ')

/-- `_update_after_enque`, once the new element has been linked: `s₁` is the list `s` with the
pointers of the base level already moved. -/
theorem updateAfterEnque_spec {h : Heap} {s s₁ : Skiplist} {Λ : Layout} {e : Addr}
    (hs : NodesOk h s.level Λ) (hj : Joints s.level Λ)
    (ht : TopCandidate (s.level NLayers) (Λ.cell NLayers))
    (hnew : ∀ p, s.base.Has p → Λ.cell 0 p ≠ e)
    (hs₁ : s₁ = { s with head := if s.head = none then some e else s.head, tail := some e }) :
    ∃ h' s' Λ', Skiplist.updateAfterEnque id h s₁ = some (h', s') ∧
      Enqueued h h' s s' Λ Λ' e := by
  have hL := hs.level 0 (Nat.zero_le _)
  have hN : 0 < NLayers := by decide
  have hj0 := hj 0 hN
  rw [Skiplist.level_zero] at hL hj0
  -- The base level with the new element and the candidate `c`.
  let base (c : Option Addr) : Layer :=
    { headOff := s.headOff, tailOff := s.tailOff + 1, headNode := s₁.head, tailNode := some e,
      candidate := c }
  have hbase : ∀ c, LevelOk (base c) (Function.update (Λ.cell 0) s.tailOff e) := fun c ↦
    hL.push hnew rfl rfl (by simp only [base, hs₁]; rfl) rfl
  have hs' := fun c ↦ hs.push_base hj (hbase c)
  have hj' := fun c ↦ hj.push_base e (base c)
  have hcell : ∀ k, (Λ.setCell 0 s.tailOff e).cell (k + 1) = Λ.cell (k + 1) := fun k ↦
    Λ.setCell_cell_of_ne (by omega) ..
  have ht' : ∀ c, TopCandidate (s.withBase (base c) NLayers)
      ((Λ.setCell 0 s.tailOff e).cell NLayers) := fun c ↦ ht
  have hrem : remGap (s.tailOff + 1) = (s.tailOff + 1) % 64 := remGap_of_nonneg (by
    have hnonneg : 0 ≤ s.headOff := hL.nonneg
    have hle : s.headOff ≤ s.tailOff := hL.le
    omega)
  have hframe : ∀ c, nodeCells (s.withBase (base c)) (Λ.setCell 0 s.tailOff e)
      = nodeCells s.level Λ := fun c ↦ nodeCells_withBase s (base c) hcell
  have hlevel : ∀ c, ({ s₁ with tailOff := s.tailOff + 1, candidate := c } : Skiplist).level
      = s.withBase (base c) := fun c ↦
    Skiplist.level_eq (by simp [Skiplist.base, base, hs₁]) (by simp [hs₁])
  have hdone : ∀ c, Joint (base c) (s.layers 0) (Function.update (Λ.cell 0) s.tailOff e)
      (Λ.shift 0) → Enqueued h h s { s₁ with tailOff := s.tailOff + 1, candidate := c } Λ
        (Λ.setCell 0 s.tailOff e) e := by
    intro c hjc
    refine ⟨by simp [hs₁], rfl, Layout.setCell_cell_self .., ?_, ?_, ?_, rfl, rfl, ?_⟩
    · rw [hlevel]
      exact hs' c
    · rw [hlevel]
      refine (hj' c).joints fun _ ↦ ?_
      rw [Skiplist.withBase_zero, Skiplist.withBase_succ, Layout.setCell_cell_self]
      exact hjc
    · rw [hlevel]
      exact ht' c
    · rw [hlevel, hframe]
      exact NodeFrame.refl h _
  have hunfold : Skiplist.updateAfterEnque id h s₁ =
      if s.candidate ≠ none ∧ (s.tailOff + 1) % 64 = 0 then
        (Skiplist.addNodes id NLayers 0 h s.layers s.candidate (some e)).bind fun r ↦
          some (r.1, { s₁ with tailOff := s.tailOff + 1, candidate := none, layers := r.2 })
      else if (s.tailOff + 1) % 64 = 1 then
        some (h, { s₁ with tailOff := s.tailOff + 1, candidate := some e })
      else some (h, { s₁ with tailOff := s.tailOff + 1, candidate := s.candidate }) := by
    subst hs₁
    simp only [Skiplist.updateAfterEnque, id_eq, hrem]
    rfl
  rw [hunfold]
  by_cases hcomplete : s.candidate ≠ none ∧ (s.tailOff + 1) % 64 = 0
  · rw [if_pos hcomplete]
    have hpend : 0 < NLayers → Pending (s.withBase (base none) 0) (s.withBase (base none) (0 + 1))
        ((Λ.setCell 0 s.tailOff e).cell 0) ((Λ.setCell 0 s.tailOff e).shift 0) s.candidate
        (some e) := by
      intro _
      rw [Skiplist.withBase_zero, Skiplist.withBase_succ, Layout.setCell_cell_self]
      exact hj0.push_complete e rfl rfl hcomplete.1 hcomplete.2 rfl
    obtain ⟨h', lv', Λ', hrun, hres⟩ :=
      addNodes_spec (n := NLayers) (i := 0) rfl (hs' none) (hj' none) hpend (ht' none)
    rw [Skiplist.upper_withBase] at hrun
    have hlv : ({ s₁ with
        tailOff := s.tailOff + 1
        candidate := none
        layers := upper lv' } : Skiplist).level = lv' :=
      Skiplist.level_eq (by rw [hres.base, Skiplist.withBase_zero]; simp [Skiplist.base, base, hs₁])
        rfl
    refine ⟨h', _, Λ', by rw [hrun]; rfl, ?_⟩
    refine ⟨by simp [hs₁], rfl, ?_, ?_, ?_, ?_, hres.obj, hres.deleted, ?_⟩
    · rw [hres.cell, Layout.setCell_cell_self]
    · rw [hlv]
      exact hres.nodes
    · rw [hlv]
      exact hres.joints
    · rw [hlv]
      exact hres.top
    · rw [hlv, ← hframe none]
      exact hres.frame
  · rw [if_neg hcomplete]
    by_cases hfirst : (s.tailOff + 1) % 64 = 1
    · rw [if_pos hfirst]
      exact ⟨h, _, _, rfl, hdone _ (hj0.push_first hL.le e rfl rfl hfirst rfl)⟩
    · rw [if_neg hfirst]
      exact ⟨h, _, _, rfl, hdone _ (hj0.push_inside e rfl rfl hcomplete hfirst rfl)⟩

/-! ## The two overloads -/

theorem linkTail_spec {h : Heap} {s : Skiplist} {Λ : Layout} {e : Addr} {q : Option Addr}
    (hL : LevelOk s.base (Λ.cell 0)) (he : ElemsOk h s.base (Λ.cell 0))
    (hlive : h.nextOf e = some q) (hnew : ∀ p, s.base.Has p → Λ.cell 0 p ≠ e) :
    ∃ h', Skiplist.linkTail h s (some e)
        = some (h', { s with head := if s.head = none then some e else s.head, tail := some e }) ∧
      Heap.SameNodes h h' ∧ h'.counterOf = h.counterOf ∧
      (∀ a, a ≠ e → a ∉ elemCells s.level Λ → h'.nextOf a = h.nextOf a) ∧
      Segment h'.nextOf (Function.update (Λ.cell 0) s.tailOff e) s.headOff (s.tailOff + 1) := by
  have hhead : s.head = firstCell (Λ.cell 0) s.headOff s.tailOff := hL.head
  by_cases hne : s.headOff < s.tailOff
  · have hhead' : s.head ≠ none := by rw [hhead, firstCell_of_lt hne]; simp
    have htail : s.tail = some (Λ.cell 0 (s.tailOff - 1)) := hL.tail hne
    have hlast := he (s.tailOff - 1) (by simp only [Skiplist.base]; omega)
      (by simp only [Skiplist.base]; omega)
    have hte : Λ.cell 0 (s.tailOff - 1) ≠ e := hnew _ ⟨by simp only [Skiplist.base]; omega,
      by simp only [Skiplist.base]; omega⟩
    obtain ⟨h₁, hrun₁, hn₁, hc₁, hx₁⟩ := Heap.setNext_spec hlast (some e)
    have hlive₁ : h₁.nextOf e = some q := by rw [hx₁, Function.update_of_ne hte.symm, hlive]
    obtain ⟨h₂, hrun₂, hn₂, hc₂, hx₂⟩ := Heap.setNext_spec hlive₁ none
    refine ⟨h₂, ?_, hn₁.trans hn₂, hc₂.trans hc₁, fun a hae hmem ↦ ?_, ?_⟩
    · simp only [Skiplist.linkTail, if_pos hhead', if_neg hhead', htail, hrun₁, hrun₂,
        Option.bind_eq_bind, Option.bind_some]
    · have hat : a ≠ Λ.cell 0 (s.tailOff - 1) := fun heq ↦ hmem (by
        rw [elemCells, mem_cells]
        exact ⟨s.tailOff - 1, by simp only [Skiplist.level_zero, Skiplist.base]; omega,
          by simp only [Skiplist.level_zero, Skiplist.base]; omega, heq.symm⟩)
      rw [hx₂, Function.update_of_ne hae, hx₁, Function.update_of_ne hat]
    · refine he.push hL.distinct (fun p hp hp' ↦ hnew p ⟨hp, hp'⟩) ?_ (fun _ ↦ ?_)
        fun y hye hyt ↦ ?_
      · rw [hx₂, Function.update_self]
      · rw [hx₂]
        exact (Function.update_of_ne hte ..).trans (by rw [hx₁]; exact Function.update_self ..)
      · rw [hx₂, Function.update_of_ne hye, hx₁]
        exact Function.update_of_ne (hyt hne) ..
  · have hhead' : s.head = none := by rw [hhead, firstCell_of_le (by omega)]
    obtain ⟨h₁, hrun₁, hn₁, hc₁, hx₁⟩ := Heap.setNext_spec hlive none
    refine ⟨h₁, ?_, hn₁, hc₁, fun a hae _ ↦ by rw [hx₁, Function.update_of_ne hae], ?_⟩
    · simp only [Skiplist.linkTail, hhead', hrun₁, ne_eq, not_true_eq_false, if_false, if_true,
        Option.bind_eq_bind, Option.bind_some]
    · refine he.push hL.distinct (fun p hp hp' ↦ hnew p ⟨hp, hp'⟩) ?_ (fun hlt ↦ absurd hlt hne)
        fun y hye _ ↦ ?_
      · rw [hx₁, Function.update_self]
      · rw [hx₁, Function.update_of_ne hye]

/-- What both overloads of `enqueue` do, apart from the counter of `e`. -/
structure EnqueueDone (h h' : Heap) (s s' : Skiplist) (Λ Λ' : Layout) (e : Addr) : Prop where
  rep : Rep h' s'.level Λ'
  headOff : s'.headOff = s.headOff
  tailOff : s'.tailOff = s.tailOff + 1
  cell : Λ'.cell 0 = Function.update (Λ.cell 0) s.tailOff e
  next : ∀ a, a ≠ e → a ∉ elemCells s.level Λ → h'.nextOf a = h.nextOf a
  deleted : h'.deleted = h.deleted
  frame : NodeFrame h h' (nodeCells s.level Λ) (nodeCells s'.level Λ')

/-- `_update_after_enque` behind `linkTail` and, perhaps, `increase`. -/
theorem enqueue_rest {h h₁ : Heap} {s : Skiplist} {Λ : Layout} {e : Addr} (hr : Rep h s.level Λ)
    (hnew : ∀ p, s.base.Has p → Λ.cell 0 p ≠ e) (hn : Heap.SameNodes h h₁)
    (hnext : ∀ a, a ≠ e → a ∉ elemCells s.level Λ → h₁.nextOf a = h.nextOf a)
    (hseg : Segment h₁.nextOf (Function.update (Λ.cell 0) s.tailOff e) s.headOff (s.tailOff + 1)) :
    ∃ h' s' Λ', Skiplist.updateAfterEnque id h₁
        { s with head := if s.head = none then some e else s.head, tail := some e }
          = some (h', s') ∧
      EnqueueDone h h' s s' Λ Λ' e ∧ h'.counterOf = h₁.counterOf := by
  obtain ⟨h', s', Λ', hrun, hres⟩ := updateAfterEnque_spec (hr.nodes.congr_heap hn) hr.joints hr.top
    hnew rfl
  have hobj := Heap.nextOf_congr hres.obj
  refine ⟨h', s', Λ', hrun, ⟨⟨hres.nodes, ?_, hres.joints, hres.top⟩, hres.headOff, hres.tailOff,
    hres.cell, fun a ha hmem ↦ by rw [hobj, hnext a ha hmem], hres.deleted.trans hn.deleted,
    ?_⟩, ?_⟩
  · simp only [ElemsOk, Skiplist.level_zero, Skiplist.base, hres.headOff, hres.tailOff, hres.cell,
      hobj]
    exact hseg
  · obtain ⟨h1, h2, h3⟩ := hres.frame
    exact ⟨by rwa [hn.brk] at h1, fun a ha hmem ↦ by rw [h2 a (by rwa [hn.brk]) hmem, hn.node],
      fun a ha ↦ by rw [← hn.brk]; exact h3 a ha⟩
  · exact Heap.counterOf_congr hres.obj

section

variable {h : Heap} {s : Skiplist} {Λ : Layout} {e : Addr}

theorem ne_of_notMem_elemCells (hmem : e ∉ elemCells s.level Λ) (p : ℤ) (hp : s.base.Has p) :
    Λ.cell 0 p ≠ e := fun heq ↦ hmem (by rw [elemCells, mem_cells]; exact ⟨p, hp.1, hp.2, heq⟩)

/-- **`enqueue(DerivedRefPtr<T> &&)`** appends the element. -/
theorem enqueueMove_spec (hr : Rep h s.level Λ) {q : Option Addr} (hlive : h.nextOf e = some q)
    (hmem : e ∉ elemCells s.level Λ) :
    ∃ h' s' Λ', Skiplist.enqueueMove id h s (some e) = some (h', s') ∧
      EnqueueDone h h' s s' Λ Λ' e ∧ h'.counterOf = h.counterOf := by
  have hnew := ne_of_notMem_elemCells hmem
  obtain ⟨h₁, hrun₁, hn, hc, hnext, hseg⟩ := linkTail_spec (hr.nodes.level 0 (Nat.zero_le _))
    hr.elems hlive hnew
  obtain ⟨h', s', Λ', hrun, hdone, hc'⟩ := enqueue_rest hr hnew hn hnext hseg
  refine ⟨h', s', Λ', ?_, hdone, hc'.trans hc⟩
  rw [Skiplist.enqueueMove, hrun₁]
  exact hrun

/-- **`enqueue(DerivedRefPtr<T> const &)`** appends the element and takes a reference to it. -/
theorem enqueueCopy_spec (hr : Rep h s.level Λ) {q : Option Addr} (hlive : h.nextOf e = some q)
    {c : ℕ} (hcount : h.counterOf e = some c) (hmem : e ∉ elemCells s.level Λ) :
    ∃ h' s' Λ', Skiplist.enqueueCopy id h s (some e) = some (h', s') ∧
      EnqueueDone h h' s s' Λ Λ' e ∧
      h'.counterOf = Function.update h.counterOf e (some ((c + 1) % unsignedRange)) := by
  have hnew := ne_of_notMem_elemCells hmem
  obtain ⟨h₁, hrun₁, hn₁, hc₁, hnext₁, hseg₁⟩ := linkTail_spec (hr.nodes.level 0 (Nat.zero_le _))
    hr.elems hlive hnew
  have hcount₁ : h₁.counterOf e = some c := by rw [hc₁, hcount]
  obtain ⟨h₂, hrun₂, hn₂, hx₂, hc₂⟩ := increase_spec hcount₁
  obtain ⟨h', s', Λ', hrun, hdone, hc'⟩ := enqueue_rest hr hnew (hn₁.trans hn₂)
    (by rwa [hx₂]) (by rwa [hx₂])
  refine ⟨h', s', Λ', ?_, hdone, by rw [hc', hc₂, hc₁]⟩
  rw [Skiplist.enqueueCopy, hrun₁]
  simp only [Option.bind_eq_bind, Option.bind_some, hrun₂]
  exact hrun

end

end TYThread
