import TYThread.Skiplist.Dequeue

/-!
# `dequeue_half`

A split cuts every level below the layer it starts from at the start of a block. So it is described
by one position for each level, each of them `64` times the position above plus the shift, and the
formula for `toGiveAwayNextLayer` computes these positions.

The layers above the cut have at most one node in total, which `dequeue_half` first takes out of the
way: the node is dissolved and its first item becomes the candidate of the part that is given away,
or the whole block of the node is given away and the node with it. In the second case the node's
layer is cut too, behind its only node. In either case all levels above the highest cut are empty
on both sides, and what has to be checked there is `Joint.of_empty`.
-/

namespace TYThread

open LinkedList

/-! ## Cutting one level -/

/-- The part of a level from position `x` on. -/
def Layer.cutRight (L : Layer) (cell : ℤ → Addr) (x : ℤ) : Layer :=
  { L with headNode := firstCell cell x L.tailOff, headOff := x }

/-- The part of a level before position `x`. -/
def Layer.cutLeft (L : Layer) (cell : ℤ → Addr) (x : ℤ) (candidate : Option Addr) : Layer where
  headOff := L.headOff
  tailOff := x
  headNode := L.headNode
  tailNode := some (cell (x - 1))
  candidate := candidate

/-- `L'` is the part of `L` from position `x` on, up to its candidate and, when nothing is left, the
dangling tail. -/
structure IsCutRight (L L' : Layer) (cell : ℤ → Addr) (x : ℤ) : Prop where
  headOff : L'.headOff = x
  tailOff : L'.tailOff = L.tailOff
  headNode : L'.headNode = firstCell cell x L.tailOff
  tailNode : x < L.tailOff → L'.tailNode = L.tailNode

theorem isCutRight_cutRight (L : Layer) (cell : ℤ → Addr) (x : ℤ) :
    IsCutRight L (L.cutRight cell x) cell x :=
  ⟨rfl, rfl, rfl, fun _ ↦ rfl⟩

theorem LevelOk.cutRight {L L' : Layer} {cell : ℤ → Addr} (h : LevelOk L cell) {x : ℤ}
    (hx : L.headOff ≤ x) (hx' : x ≤ L.tailOff) (hcut : IsCutRight L L' cell x) :
    LevelOk L' cell := by
  obtain ⟨hnonneg, hle, hfirst, hlast, hdist⟩ := h
  obtain ⟨hhead, htail, hheadNode, htailNode⟩ := hcut
  refine ⟨by omega, by omega, by rw [hheadNode, hhead, htail], fun hlt ↦ ?_,
    fun p q hp hp' hq hq' ↦ ?_⟩
  · rw [htailNode (by omega), htail, hlast (by omega)]
  · exact hdist p q (by omega) (by omega) (by omega) (by omega)

theorem LevelOk.cutLeft {L : Layer} {cell : ℤ → Addr} (h : LevelOk L cell) {x : ℤ}
    (hx : L.headOff < x) (hx' : x ≤ L.tailOff) (candidate : Option Addr) :
    LevelOk (L.cutLeft cell x candidate) cell := by
  obtain ⟨hnonneg, hle, hfirst, hlast, hdist⟩ := h
  refine ⟨hnonneg, by simp only [Layer.cutLeft]; omega, ?_, fun _ ↦ rfl, fun p q hp hp' hq hq' ↦ ?_⟩
  · simp only [Layer.cutLeft]
    rw [hfirst, firstCell_of_lt (by omega), firstCell_of_lt hx]
  · simp only [Layer.cutLeft] at hp hp' hq hq'
    exact hdist p q hp (by omega) hq (by omega)

/-- Cutting a linked interval of elements behind its position `x - 1`. -/
theorem elemsOk_cut {h h' : Heap} {L : Layer} {cell : ℤ → Addr} (hL : LevelOk L cell)
    (he : ElemsOk h L cell) {x : ℤ} (hx : L.headOff < x) (hx' : x ≤ L.tailOff)
    (hnext : h'.nextOf = Function.update h.nextOf (cell (x - 1)) (some none))
    (candidate : Option Addr) :
    ElemsOk h' (L.cutRight cell x) cell ∧ ElemsOk h' (L.cutLeft cell x candidate) cell := by
  have hsame : ∀ p, L.headOff ≤ p → p < L.tailOff → p ≠ x - 1 →
      h'.nextOf (cell p) = h.nextOf (cell p) := fun p hp hp' hpx ↦ by
    rw [hnext, Function.update_of_ne]
    exact fun heq ↦ hpx (hL.distinct p (x - 1) hp hp' (by omega) (by omega) heq)
  constructor
  · refine (Segment.drop he (by omega : L.headOff ≤ x)).congr fun p hp hp' ↦ ?_
    exact hsame p (by omega) hp' (by omega)
  · change Segment h'.nextOf cell L.headOff x
    refine Segment.take he hx' (fun _ ↦ ?_) fun p hp hp' ↦ hsame p hp (by omega) (by omega)
    rw [hnext, Function.update_self]

/-! ## The positions of a cut -/

/-- `cut k` is the position at which level `k` is cut, for the levels up to `n`. -/
structure Cut (lv : ℕ → Layer) (Λ : Layout) (n : ℕ) (cut : ℕ → ℤ) : Prop where
  down : ∀ k < n, cut k = 64 * cut (k + 1) + Λ.shift k
  head_lt : ∀ k ≤ n, (lv k).headOff < cut k
  le_tail : ∀ k ≤ n, cut k ≤ (lv k).tailOff

theorem Cut.mono {lv : ℕ → Layer} {Λ : Layout} {m n : ℕ} {cut : ℕ → ℤ} (hc : Cut lv Λ n cut)
    (hmn : m ≤ n) : Cut lv Λ m cut :=
  ⟨fun k hk ↦ hc.down k (by omega), fun k hk ↦ hc.head_lt k (by omega),
    fun k hk ↦ hc.le_tail k (by omega)⟩

theorem Cut.has {lv : ℕ → Layer} {Λ : Layout} {n : ℕ} {cut : ℕ → ℤ} (hc : Cut lv Λ n cut) {k : ℕ}
    (hk : k ≤ n) : (lv k).Has (cut k - 1) := by
  have := hc.head_lt k hk
  have := hc.le_tail k hk
  exact ⟨by omega, by omega⟩

/-- The positions of the cut, level by level downwards from position `x` of level `n`. -/
def cutFrom (Λ : Layout) (x : ℤ) : ℕ → ℕ → ℤ
  | 0, _ => x
  | m + 1, k => 64 * cutFrom Λ x m (k + 1) + Λ.shift k

/-- A cut of level `n` determines the cuts below, and they lie inside the levels. -/
theorem Cut.exists {lv : ℕ → Layer} {Λ : Layout} {n : ℕ} (hn : n ≤ NLayers) (hj : Joints lv Λ)
    {x : ℤ} (hx : (lv n).headOff < x) (hx' : x ≤ (lv n).tailOff) :
    ∃ cut, Cut lv Λ n cut ∧ cut n = x := by
  induction n generalizing x with
  | zero =>
    exact ⟨fun _ ↦ x, ⟨fun k hk ↦ by omega, fun k hk ↦ by rwa [Nat.le_zero.mp hk],
      fun k hk ↦ by rwa [Nat.le_zero.mp hk]⟩, rfl⟩
  | succ n ih =>
    obtain ⟨⟨hdvd, hle, hlt, hfull⟩, hrest, -⟩ := hj n hn
    obtain ⟨cut, hcut, hcutn⟩ := ih (x := 64 * x + Λ.shift n) (by omega) (by omega) (by omega)
    refine ⟨Function.update cut (n + 1) x, ⟨fun k hk ↦ ?_, fun k hk ↦ ?_, fun k hk ↦ ?_⟩,
      Function.update_self ..⟩
    · by_cases hkn : k = n
      · rw [hkn, Function.update_of_ne (by omega), Function.update_self, hcutn]
      · rw [Function.update_of_ne (by omega), Function.update_of_ne (by omega)]
        exact hcut.down k (by omega)
    · by_cases hkn : k = n + 1
      · rw [hkn, Function.update_self]
        exact hx
      · rw [Function.update_of_ne hkn]
        exact hcut.head_lt k (by omega)
    · by_cases hkn : k = n + 1
      · rw [hkn, Function.update_self]
        exact hx'
      · rw [Function.update_of_ne hkn]
        exact hcut.le_tail k (by omega)

/-! ## The loop that cuts -/

@[simp] theorem Skiplist.level_setLayer (s : Skiplist) (i : ℕ) (L : Layer) :
    (s.setLayer i L).level = Function.update s.level (i + 1) L := by
  refine level_eq ?_ ?_
  · rw [Function.update_of_ne (by omega)]
    rfl
  · rw [← update_upper, upper_level]
    rfl

/-- The heap after the cut: the links behind the cut are gone. -/
structure CutHeap (h h' : Heap) (lv : ℕ → Layer) (Λ : Layout) (n : ℕ) (cut : ℕ → ℤ) : Prop where
  node : ∀ k < n, h'.node (Λ.cell (k + 1) (cut (k + 1) - 1))
    = some { Λ.nodeAt lv k (cut (k + 1) - 1) with nextNode := none }
  same : ∀ a, (∀ k < n, a ≠ Λ.cell (k + 1) (cut (k + 1) - 1)) → h'.node a = h.node a
  next : h'.nextOf = Function.update h.nextOf (Λ.cell 0 (cut 0 - 1)) (some none)
  counter : h'.counterOf = h.counterOf
  brk : h'.brk = h.brk
  deleted : h'.deleted = h.deleted

/-- The two lists after the cut of the levels up to `n`. -/
structure CutLists (s s' res res' : Skiplist) (lv : ℕ → Layer) (Λ : Layout) (n : ℕ) (cut : ℕ → ℤ) :
    Prop where
  rest : ∀ k ≤ n, s'.level k = { (lv k).cutRight (Λ.cell k) (cut k) with
    candidate := (s.level k).candidate }
  given : ∀ k ≤ n, res'.level k = (lv k).cutLeft (Λ.cell k) (cut k) (res.level k).candidate
  rest_above : ∀ k > n, s'.level k = s.level k
  given_above : ∀ k > n, res'.level k = res.level k

section

variable {lv : ℕ → Layer} {Λ : Layout} {cut : ℕ → ℤ} {h : Heap} {s r : Skiplist}

/-- The levels agree up to their candidates, which are not part of the cut. -/
structure SameLevel (L L' : Layer) : Prop where
  headOff : L'.headOff = L.headOff
  tailOff : L'.tailOff = L.tailOff
  headNode : L'.headNode = L.headNode
  tailNode : L'.tailNode = L.tailNode

theorem SameLevel.refl (L : Layer) : SameLevel L L := ⟨rfl, rfl, rfl, rfl⟩

theorem cutBase_spec (hc : Cut lv Λ 0 cut) (hs : SameLevel (lv 0) s.base)
    (he : ElemsOk h (lv 0) (Λ.cell 0)) {g : ℤ} (hg : (lv 0).headOff + g = cut 0) :
    ∃ h' s' r', Skiplist.cutBase id h s r (some (Λ.cell 0 (cut 0 - 1))) g
        = some (h', s', r') ∧
      CutHeap h h' lv Λ 0 cut ∧ CutLists s s' r r' lv Λ 0 cut := by
  have hlast := hc.has (Nat.le_refl 0)
  have hlink := he _ hlast.1 hlast.2
  have hsucc : cut 0 - 1 + 1 = cut 0 := by omega
  rw [hsucc] at hlink
  have hhead : s.head = (lv 0).headNode := hs.headNode
  have htail : s.tail = (lv 0).tailNode := hs.tailNode
  have hoff : s.headOff = (lv 0).headOff := hs.headOff
  have htoff : s.tailOff = (lv 0).tailOff := hs.tailOff
  obtain ⟨h', hset, hn, hcount, hnext⟩ := Heap.setNext_spec hlink none
  refine ⟨h', { s with head := firstCell (Λ.cell 0) (cut 0) (lv 0).tailOff, headOff := cut 0 },
    { r with head := s.head, tail := some (Λ.cell 0 (cut 0 - 1)), headOff := s.headOff,
               tailOff := cut 0 }, ?_, ⟨fun k hk ↦ by omega, fun a _ ↦ by rw [hn.node], hnext,
    hcount, hn.brk, hn.deleted⟩, ⟨fun k hk ↦ ?_, fun k hk ↦ ?_, fun k hk ↦ ?_, fun k hk ↦ ?_⟩⟩
  · rw [Skiplist.cutBase, Heap.next_eq, hlink]
    simp only [Option.bind_eq_bind, Option.bind_some, hset, id_eq, hoff, hg]
  · obtain rfl := Nat.le_zero.mp hk
    simp [Layer.cutRight, Skiplist.base, htail, htoff]
  · obtain rfl := Nat.le_zero.mp hk
    simp [Layer.cutLeft, Skiplist.base, hhead, hoff]
  · obtain ⟨k, rfl⟩ : ∃ j, k = j + 1 := ⟨k - 1, by omega⟩
    rfl
  · obtain ⟨k, rfl⟩ : ∃ j, k = j + 1 := ⟨k - 1, by omega⟩
    rfl

/-- **The loop that cuts**, started at level `n` with the last cell to give away. -/
theorem cutLayers_spec {n : ℕ} (hn : n ≤ NLayers) (hlv : ∀ k ≤ n, LevelOk (lv k) (Λ.cell k))
    (hal : ∀ k < n, Aligned (lv k) (lv (k + 1)) (Λ.shift k))
    (hdisj : ∀ j < n, ∀ k < n, ∀ p q, (lv (j + 1)).Has p → (lv (k + 1)).Has q →
      Λ.cell (j + 1) p = Λ.cell (k + 1) q → j = k)
    (hc : Cut lv Λ n cut) (hs : ∀ k ≤ n, SameLevel (lv k) (s.level k))
    (hnode : ∀ k < n, ∀ p, (lv (k + 1)).Has p →
      h.node (Λ.cell (k + 1) p) = some (Λ.nodeAt lv k p))
    (he : ElemsOk h (lv 0) (Λ.cell 0)) :
    ∃ h' s' r', Skiplist.cutLayers id n h s r (some (Λ.cell n (cut n - 1)))
        (cut n - (lv n).headOff) = some (h', s', r') ∧
      CutHeap h h' lv Λ n cut ∧ CutLists s s' r r' lv Λ n cut := by
  induction n generalizing h s r with
  | zero => exact cutBase_spec hc (hs 0 (Nat.le_refl 0)) he (by omega)
  | succ i ih =>
    have hlast := hc.has (Nat.le_refl (i + 1))
    have hnd := hnode i (by omega) _ hlast
    have hsucc : cut (i + 1) - 1 + 1 = cut (i + 1) := by omega
    obtain ⟨hoff, htoff, hhead, htail⟩ := hs (i + 1) (Nat.le_refl _)
    rw [Skiplist.level_succ] at hoff htoff hhead htail
    have hcut : (lv (i + 1)).headOff + (cut (i + 1) - (lv (i + 1)).headOff) = cut (i + 1) := by
      omega
    -- `tmpHeadOff` and `toGiveAwayNextLayer`
    have htmp : (if i ≠ 0 then (s.layers (i - 1)).headOff else s.headOff) = (lv i).headOff := by
      have := (hs i (by omega)).headOff
      cases i with
      | zero => simpa [Skiplist.base] using this
      | succ i => simpa using this
    have hdown := hc.down i (by omega)
    have hgive : (1 + (cut (i + 1) - (lv (i + 1)).headOff)) * SkipGap
        - remGap ((lv i).headOff + SkipGap - 1) - 1 = cut i - (lv i).headOff := by
      have hitems := (hal i (by omega)).items_before (hlv i (by omega)).nonneg
        (cut (i + 1) - (lv (i + 1)).headOff)
      rw [hcut, ← hdown] at hitems
      omega
    have hlastDown : 64 * (cut (i + 1) - 1) + Λ.shift i + 63 = cut i - 1 := by omega
    -- The state at the next layer.
    let nd : SkipNode :=
      { downNode := some (Λ.cell i (64 * (cut (i + 1) - 1) + Λ.shift i))
        lastDownNode := some (Λ.cell i (cut i - 1)) }
    let h₁ := h.setNode (Λ.cell (i + 1) (cut (i + 1) - 1)) (some nd)
    let s₁ := s.setLayer i { s.layers i with
      headNode := firstCell (Λ.cell (i + 1)) (cut (i + 1)) (lv (i + 1)).tailOff
      headOff := cut (i + 1) }
    let r₁ := r.setLayer i { r.layers i with
      headNode := (lv (i + 1)).headNode
      tailNode := some (Λ.cell (i + 1) (cut (i + 1) - 1))
      headOff := (lv (i + 1)).headOff
      tailOff := cut (i + 1) }
    have hs₁ : ∀ k, k ≠ i + 1 → s₁.level k = s.level k := fun k hk ↦ by
      rw [Skiplist.level_setLayer, Function.update_of_ne hk]
    have hres₁ : ∀ k, k ≠ i + 1 → r₁.level k = r.level k := fun k hk ↦ by
      rw [Skiplist.level_setLayer, Function.update_of_ne hk]
    have hne : ∀ k < i, ∀ p, (lv (k + 1)).Has p →
        Λ.cell (k + 1) p ≠ Λ.cell (i + 1) (cut (i + 1) - 1) := by
      intro k hk p hp heq
      have := hdisj k (by omega) i (by omega) p _ hp hlast heq
      omega
    obtain ⟨h', s', r', hrun, hheap, hlists⟩ := ih (h := h₁) (s := s₁) (r := r₁) (by omega)
      (fun k hk ↦ hlv k (by omega)) (fun k hk ↦ hal k (by omega))
      (fun j hj k hk ↦ hdisj j (by omega) k (by omega)) (hc.mono (by omega))
      (fun k hk ↦ by rw [hs₁ k (by omega)]; exact hs k (by omega))
      (fun k hk p hp ↦ by
        rw [Heap.setNode_node, Function.update_of_ne (hne k hk p hp)]
        exact hnode k (by omega) p hp) he
    refine ⟨h', s', r', ?_, ⟨fun k hk ↦ ?_, fun a ha ↦ ?_, hheap.next, hheap.counter, hheap.brk,
      hheap.deleted⟩, ⟨fun k hk ↦ ?_, fun k hk ↦ ?_, fun k hk ↦ ?_, fun k hk ↦ ?_⟩⟩
    · rw [Skiplist.cutLayers]
      simp only [Heap.readNode, Heap.setNextNode, hnd, Option.bind_eq_bind, Option.bind_some,
        Option.pure_def, id_eq, htmp, hgive, hoff, hcut, Layout.nodeAt, hsucc, hlastDown, hhead]
      exact hrun
    · by_cases hki : k = i
      · rw [hki, hheap.same _ fun j hj heq ↦ hne j hj _ (hc.has (by omega)) heq.symm,
          Layout.nodeAt, hlastDown]
        exact Function.update_self ..
      · exact hheap.node k (by omega)
    · rw [hheap.same a fun k hk ↦ ha k (by omega), Heap.setNode_node,
        Function.update_of_ne (ha i (by omega))]
    · by_cases hki : k = i + 1
      · subst hki
        rw [hlists.rest_above _ (by omega), Skiplist.level_setLayer, Function.update_self]
        simp [Layer.cutRight, htail, htoff]
      · rw [hlists.rest k (by omega), hs₁ k hki]
    · by_cases hki : k = i + 1
      · subst hki
        rw [hlists.given_above _ (by omega), Skiplist.level_setLayer, Function.update_self]
        rfl
      · rw [hlists.given k (by omega), hres₁ k hki]
    · rw [hlists.rest_above k (by omega), hs₁ k (by omega)]
    · rw [hlists.given_above k (by omega), hres₁ k (by omega)]

end

/-! ## Both parts are lists again -/

/-- A layer without nodes. -/
structure Layer.Empty (L : Layer) : Prop where
  nonneg : 0 ≤ L.headOff
  off : L.headOff = L.tailOff
  headNode : L.headNode = none
  candidate : L.candidate = none

theorem le_blockStart (n : ℤ) : n ≤ blockStart n := by
  rw [blockStart]
  omega

theorem Layer.Empty.levelOk {L : Layer} (h : L.Empty) (cell : ℤ → Addr) : LevelOk L cell := by
  obtain ⟨hnonneg, hoff, hhead, -⟩ := h
  exact ⟨hnonneg, by omega, by rw [hhead, firstCell_of_le (by omega)], fun hlt ↦ by omega,
    fun p q hp hp' ↦ by omega⟩

theorem Layer.Empty.joint {lo hi : Layer} (hlo : lo.Empty) (hhi : hi.Empty) (cell : ℤ → Addr) :
    Joint lo hi cell (blockStart lo.headOff - 64 * hi.headOff) := by
  have hle := le_blockStart lo.headOff
  have hoff := hlo.off
  refine Joint.of_empty hhi.off (by omega) ?_
  rw [hlo.candidate, firstCell_of_le (by omega)]

/-- The layout of a part of a list whose levels above `n` are empty. -/
def Layout.below (Λ : Layout) (n : ℕ) (lv : ℕ → Layer) : Layout :=
  { Λ with shift := fun k ↦
      if k < n then Λ.shift k else blockStart (lv k).headOff - 64 * (lv (k + 1)).headOff }

@[simp] theorem Layout.below_cell (Λ : Layout) (n : ℕ) (lv : ℕ → Layer) :
    (Λ.below n lv).cell = Λ.cell := rfl

theorem Layout.below_shift_of_lt (Λ : Layout) {n k : ℕ} (hk : k < n) (lv : ℕ → Layer) :
    (Λ.below n lv).shift k = Λ.shift k := if_pos hk

theorem Layout.below_shift_of_le (Λ : Layout) {n k : ℕ} (hk : n ≤ k) (lv : ℕ → Layer) :
    (Λ.below n lv).shift k = blockStart (lv k).headOff - 64 * (lv (k + 1)).headOff :=
  if_neg (by omega)

/-- The skip nodes after the cut, as far as the cut levels are concerned. -/
structure CutNodes (h h' : Heap) (lv : ℕ → Layer) (Λ : Layout) (n : ℕ) (cut : ℕ → ℤ) : Prop where
  node : ∀ k < n, h'.node (Λ.cell (k + 1) (cut (k + 1) - 1))
    = some { Λ.nodeAt lv k (cut (k + 1) - 1) with nextNode := none }
  same : ∀ k < n, ∀ p, (lv (k + 1)).Has p → p ≠ cut (k + 1) - 1 →
    h'.node (Λ.cell (k + 1) p) = h.node (Λ.cell (k + 1) p)
  next : h'.nextOf = Function.update h.nextOf (Λ.cell 0 (cut 0 - 1)) (some none)
  brk : h'.brk = h.brk

section

variable {h h' : Heap} {lv lv' : ℕ → Layer} {Λ : Layout} {n : ℕ} {cut : ℕ → ℤ}
  {candidate : Option Addr}

/-- The levels of the part behind the cut. -/
structure RestLevels (lv lv' : ℕ → Layer) (Λ : Layout) (n : ℕ) (cut : ℕ → ℤ)
    (candidate : Option Addr) : Prop where
  below : ∀ k < n, lv' k = (lv k).cutRight (Λ.cell k) (cut k)
  last : IsCutRight (lv n) (lv' n) (Λ.cell n) (cut n)
  candidate : (lv' n).candidate = candidate
  above : ∀ k, n < k → k ≤ NLayers → (lv' k).Empty

/-- The levels of the part before the cut. -/
structure GivenLevels (lv lv' : ℕ → Layer) (Λ : Layout) (n : ℕ) (cut : ℕ → ℤ)
    (candidate : Option Addr) : Prop where
  below : ∀ k < n, lv' k = (lv k).cutLeft (Λ.cell k) (cut k) none
  last : lv' n = (lv n).cutLeft (Λ.cell n) (cut n) candidate
  above : ∀ k, n < k → k ≤ NLayers → (lv' k).Empty

/-- A list whose levels above `n` are empty is consistent if it is up to level `n`. -/
theorem Rep.of_below (hn : n ≤ NLayers) (hlv : ∀ k ≤ n, LevelOk (lv' k) (Λ.cell k))
    (habove : ∀ k, n < k → k ≤ NLayers → (lv' k).Empty)
    (hsub : ∀ k ≤ n, ∀ p, (lv' k).Has p → (lv k).Has p) (hs : NodesOk h lv Λ)
    (hnode : ∀ k < n, ∀ p, (lv' (k + 1)).Has p →
      h'.node (Λ.cell (k + 1) p) = some (Λ.nodeAt lv' k p))
    (hbrk : h'.brk = h.brk) (he : ElemsOk h' (lv' 0) (Λ.cell 0))
    (hj : ∀ k < n, Joint (lv' k) (lv' (k + 1)) (Λ.cell k) (Λ.shift k))
    (hjn : n < NLayers → (lv' n).tailOff < blockStart (lv' n).headOff + 64 ∧
      (lv' n).candidate = firstCell (Λ.cell n) (blockStart (lv' n).headOff) (lv' n).tailOff)
    (ht : n = NLayers → TopCandidate (lv' n) (Λ.cell n)) : Rep h' lv' (Λ.below n lv') := by
  have hno : ∀ k, n ≤ k → k < NLayers → ∀ p, ¬(lv' (k + 1)).Has p := fun k hk hk' p hp ↦ by
    have := (habove (k + 1) (by omega) hk').off
    obtain ⟨hp, hp'⟩ := hp
    omega
  have hlt : ∀ k < NLayers, ∀ p, (lv' (k + 1)).Has p → k < n := fun k hk p hp ↦ by
    by_contra hkn
    exact hno k (by omega) hk p hp
  refine ⟨⟨fun k hk ↦ ?_, fun k hk p hp ↦ ?_, fun j hj' k hk p q hp hq hpq ↦ ?_,
    fun k hk p hp ↦ ?_⟩, he, fun k hk ↦ ?_, ?_⟩
  · by_cases hkn : k ≤ n
    · exact hlv k hkn
    · exact (habove k (by omega) hk).levelOk _
  · have hkn := hlt k hk p hp
    rw [Layout.below_cell, hnode k hkn p hp, Layout.nodeAt, Layout.nodeAt,
      Λ.below_shift_of_lt hkn, Layout.below_cell]
  · exact hs.disjoint j hj' k hk p q (hsub _ (hlt j hj' p hp) p hp) (hsub _ (hlt k hk q hq) q hq)
      hpq
  · rw [hbrk]
    exact hs.lt_brk k hk p (hsub _ (hlt k hk p hp) p hp)
  · by_cases hkn : k < n
    · rw [Λ.below_shift_of_lt hkn]
      exact hj k hkn
    · rw [Λ.below_shift_of_le (by omega)]
      have hhi := habove (k + 1) (by omega) hk
      by_cases hkn' : k = n
      · subst hkn'
        obtain ⟨hrest, hcand⟩ := hjn hk
        exact Joint.of_empty hhi.off hrest hcand
      · exact (habove k (by omega) (by omega)).joint hhi _
  · by_cases hN : n = NLayers
    · have htop := ht hN
      rwa [hN] at htop
    · exact Or.inl (habove NLayers (by omega) (Nat.le_refl _)).candidate

theorem RestLevels.isCutRight (hlv : RestLevels lv lv' Λ n cut candidate) {k : ℕ} (hk : k ≤ n) :
    IsCutRight (lv k) (lv' k) (Λ.cell k) (cut k) := by
  rcases Nat.lt_or_eq_of_le hk with hlt | rfl
  · rw [hlv.below k hlt]
    exact isCutRight_cutRight ..
  · exact hlv.last

theorem RestLevels.has (hlv : RestLevels lv lv' Λ n cut candidate) (hc : Cut lv Λ n cut) {k : ℕ}
    (hk : k ≤ NLayers) {p : ℤ} (hp : (lv' k).Has p) : k ≤ n ∧ cut k ≤ p ∧ (lv k).Has p := by
  obtain ⟨hp, hp'⟩ := hp
  by_cases hkn : k ≤ n
  · obtain ⟨hhead, htail, -, -⟩ := hlv.isCutRight hkn
    have := hc.head_lt k hkn
    exact ⟨hkn, by omega, by omega, by omega⟩
  · have := (hlv.above k (by omega) hk).off
    omega

theorem Rep.rest (hr : Rep h lv Λ) (hn : n ≤ NLayers) (hc : Cut lv Λ n cut)
    (hh : CutNodes h h' lv Λ n cut) (hlv : RestLevels lv lv' Λ n cut candidate)
    (hcand : n < NLayers → (lv n).tailOff < blockStart (cut n) + 64 ∧
      candidate = firstCell (Λ.cell n) (blockStart (cut n)) (lv n).tailOff)
    (ht : n = NLayers → TopCandidate (lv' n) (Λ.cell n)) : Rep h' lv' (Λ.below n lv') := by
  have hsub : ∀ k ≤ n, ∀ p, (lv' k).Has p → (lv k).Has p := fun k hk p hp ↦
    (hlv.has hc (by omega) hp).2.2
  refine Rep.of_below hn (fun k hk ↦ ?_) hlv.above hsub hr.nodes (fun k hk p hp ↦ ?_) hh.brk ?_
    (fun k hk ↦ ?_) (fun hlt ↦ ?_) ht
  · exact (hr.nodes.level k (by omega)).cutRight (by have := hc.head_lt k hk; omega)
      (hc.le_tail k hk) (hlv.isCutRight hk)
  · obtain ⟨-, hcp, hp'⟩ := hlv.has hc (by omega) hp
    rw [hh.same k hk p hp' (by omega), hr.nodes.node k (by omega) p hp', Layout.nodeAt,
      Layout.nodeAt, (hlv.isCutRight hk).tailOff]
  · have helems := (elemsOk_cut (hr.nodes.level 0 (Nat.zero_le _)) hr.elems
      (hc.head_lt 0 (Nat.zero_le _)) (hc.le_tail 0 (Nat.zero_le _)) hh.next none).1
    obtain ⟨hhead, htail, -, -⟩ := hlv.isCutRight (Nat.zero_le n)
    rw [ElemsOk, hhead, htail]
    exact helems
  · obtain ⟨hhead, htail, -, -⟩ := hlv.isCutRight hk
    rw [hlv.below k hk]
    exact (hr.joints k (by omega)).cut_right (hc.head_lt (k + 1) hk) (hc.le_tail (k + 1) hk)
      (hc.down k hk) rfl rfl hhead htail
  · obtain ⟨hhead, htail, -, -⟩ := hlv.last
    obtain ⟨hrest, hfirst⟩ := hcand hlt
    rw [hhead, htail, hlv.candidate]
    exact ⟨hrest, hfirst⟩

theorem GivenLevels.eq_cutLeft (hlv : GivenLevels lv lv' Λ n cut candidate) {k : ℕ} (hk : k ≤ n) :
    ∃ c, lv' k = (lv k).cutLeft (Λ.cell k) (cut k) c := by
  rcases Nat.lt_or_eq_of_le hk with hlt | rfl
  · exact ⟨_, hlv.below k hlt⟩
  · exact ⟨_, hlv.last⟩

theorem GivenLevels.headOff (hlv : GivenLevels lv lv' Λ n cut candidate) {k : ℕ} (hk : k ≤ n) :
    (lv' k).headOff = (lv k).headOff := by
  obtain ⟨c, hc⟩ := hlv.eq_cutLeft hk
  rw [hc, Layer.cutLeft]

theorem GivenLevels.tailOff (hlv : GivenLevels lv lv' Λ n cut candidate) {k : ℕ} (hk : k ≤ n) :
    (lv' k).tailOff = cut k := by
  obtain ⟨c, hc⟩ := hlv.eq_cutLeft hk
  rw [hc, Layer.cutLeft]

theorem GivenLevels.has (hlv : GivenLevels lv lv' Λ n cut candidate) (hc : Cut lv Λ n cut) {k : ℕ}
    (hk : k ≤ NLayers) {p : ℤ} (hp : (lv' k).Has p) : k ≤ n ∧ p < cut k ∧ (lv k).Has p := by
  obtain ⟨hp, hp'⟩ := hp
  by_cases hkn : k ≤ n
  · rw [hlv.headOff hkn] at hp
    rw [hlv.tailOff hkn] at hp'
    have := hc.le_tail k hkn
    exact ⟨hkn, hp', hp, by omega⟩
  · have := (hlv.above k (by omega) hk).off
    omega

theorem Rep.given (hr : Rep h lv Λ) (hn : n ≤ NLayers) (hc : Cut lv Λ n cut)
    (hh : CutNodes h h' lv Λ n cut) (hlv : GivenLevels lv lv' Λ n cut candidate)
    (hcand : n < NLayers → cut n < blockStart (lv n).headOff + 64 ∧
      candidate = firstCell (Λ.cell n) (blockStart (lv n).headOff) (cut n))
    (ht : n = NLayers → TopCandidate (lv' n) (Λ.cell n)) : Rep h' lv' (Λ.below n lv') := by
  have hsub : ∀ k ≤ n, ∀ p, (lv' k).Has p → (lv k).Has p := fun k hk p hp ↦
    (hlv.has hc (by omega) hp).2.2
  refine Rep.of_below hn (fun k hk ↦ ?_) hlv.above hsub hr.nodes (fun k hk p hp ↦ ?_) hh.brk ?_
    (fun k hk ↦ ?_) (fun hlt ↦ ?_) ht
  · obtain ⟨c, hlv'⟩ := hlv.eq_cutLeft hk
    rw [hlv']
    exact (hr.nodes.level k (by omega)).cutLeft (hc.head_lt k hk) (hc.le_tail k hk) c
  · obtain ⟨-, hcp, hp'⟩ := hlv.has (k := k + 1) hc (by omega) hp
    have hsucc : cut (k + 1) - 1 + 1 = cut (k + 1) := by omega
    by_cases hpc : p = cut (k + 1) - 1
    · rw [hpc, hh.node k hk, Layout.nodeAt, Layout.nodeAt, hlv.tailOff hk, hsucc,
        firstCell_of_le (le_refl (cut (k + 1)))]
    · have hle := hc.le_tail (k + 1) hk
      rw [hh.same k hk p hp' hpc, hr.nodes.node k (by omega) p hp', Layout.nodeAt, Layout.nodeAt,
        hlv.tailOff (k := k + 1) hk, firstCell_of_lt (by omega), firstCell_of_lt (by omega)]
  · have helems := (elemsOk_cut (hr.nodes.level 0 (Nat.zero_le _)) hr.elems
      (hc.head_lt 0 (Nat.zero_le _)) (hc.le_tail 0 (Nat.zero_le _)) hh.next none).2
    rw [ElemsOk, hlv.headOff (Nat.zero_le n), hlv.tailOff (Nat.zero_le n)]
    exact helems
  · rw [hlv.below k hk]
    exact (hr.joints k (by omega)).cut_left rfl (hc.down k hk) rfl (hlv.headOff hk)
      (hlv.tailOff hk)
  · obtain ⟨hrest, hfirst⟩ := hcand hlt
    rw [hlv.headOff (Nat.le_refl n), hlv.tailOff (Nat.le_refl n)]
    exact ⟨hrest, by rw [hlv.last, Layer.cutLeft, hfirst]⟩

end

/-! ## The search for the layer to split -/

theorem Rep.empty {h : Heap} {lv : ℕ → Layer} {Λ : Layout} (hr : Rep h lv Λ) {k : ℕ}
    (hk : k ≤ NLayers) (hoff : (lv k).headOff = (lv k).tailOff) : (lv k).Empty := by
  have hL := hr.nodes.level k hk
  refine ⟨hL.nonneg, hoff, by rw [hL.head, firstCell_of_le (by omega)], ?_⟩
  by_cases hkN : k < NLayers
  · obtain ⟨⟨hdvd, hle, hlt, hfull⟩, hrest, hcand⟩ := hr.joints k hkN
    have := (hr.nodes.level (k + 1) hkN).le
    rw [hcand, firstCell_of_le (by omega)]
  · obtain rfl : k = NLayers := by omega
    rcases hr.top with hnone | ⟨c, -, hle, hlt, -⟩
    · exact hnone
    · omega

theorem Heap.freeChain_single {h : Heap} {a : Addr} {nd : SkipNode} (ha : h.node a = some nd)
    (hnext : nd.nextNode = none) (hlt : a < h.brk) :
    h.freeChain h.brk (some a) = some (h.setNode a none) := by
  obtain ⟨fuel, hfuel⟩ : ∃ fuel, h.brk = fuel + 1 :=
    ⟨h.brk - 1, (Nat.succ_pred_eq_of_pos (Nat.lt_of_le_of_lt (Nat.zero_le a) hlt)).symm⟩
  rw [hfuel, freeChain, ha]
  simp [hnext]

/-- The levels above `m` are empty. -/
def EmptyAbove (lv : ℕ → Layer) (m : ℕ) : Prop :=
  ∀ k, m < k → k ≤ NLayers → (lv k).headOff = (lv k).tailOff

/-- The level `m` that the search finds and the state it leaves: there was no node above, or the
only one was kept for the part to be given away, or it was dissolved. -/
inductive FoundLevel (h : Heap) (s : Skiplist) (Λ : Layout) : ℕ → Skiplist.Scan → Prop
  | normal {m : ℕ} (above : EmptyAbove s.level m)
      (two : m = 0 ∨ (s.level m).headOff + 1 < (s.level m).tailOff) :
      FoundLevel h s Λ m { heap := h, self := s }
  | preserved {m : ℕ} (lt : m < NLayers) (above : EmptyAbove s.level (m + 1))
      (one : (s.level (m + 1)).tailOff = (s.level (m + 1)).headOff + 1)
      (first : 64 * (s.level (m + 1)).headOff + Λ.shift m = (s.level m).headOff)
      (count : (s.level m).tailOff = (s.level m).headOff + 127) :
      FoundLevel h s Λ m
        { heap := h
          self := s.setLayer m (s.layers m).movedFrom
          res := some (({} : Skiplist).setLayer m (s.layers m))
          upperState := .singleNodePreserved }
  | cleanuped {m : ℕ} (lt : m < NLayers) (above : EmptyAbove s.level (m + 1))
      (one : (s.level (m + 1)).tailOff = (s.level (m + 1)).headOff + 1)
      (other : ¬(64 * (s.level (m + 1)).headOff + Λ.shift m = (s.level m).headOff ∧
        (s.level m).tailOff = (s.level m).headOff + 127)) :
      FoundLevel h s Λ m
        { heap := h.setNode (Λ.cell (m + 1) (s.level (m + 1)).headOff) none
          self := s.setLayer m (s.layers m).cleanup
          upperState := .upperCleanuped
          thatDownNode := some (Λ.cell m (64 * (s.level (m + 1)).headOff + Λ.shift m)) }

theorem findLayer_stop {m : ℕ} {z : Skiplist.Scan}
    (hm : m = 0 ∨ (z.self.level m).headOff + 1 < (z.self.level m).tailOff) :
    Skiplist.findLayer id m z = some (m, z) := by
  cases m with
  | zero => rfl
  | succ i =>
    rw [Skiplist.level_succ] at hm
    simp only [Skiplist.findLayer, id_eq]
    rw [if_pos (by omega)]

section

variable {h : Heap} {s : Skiplist} {Λ : Layout}

/-- A layer with one node stands on a level with at least `64` cells. -/
theorem Rep.has_block (hr : Rep h s.level Λ) {m : ℕ} (hm : m < NLayers)
    (hone : (s.level (m + 1)).tailOff = (s.level (m + 1)).headOff + 1) :
    (s.level m).headOff ≤ 64 * (s.level (m + 1)).headOff + Λ.shift m ∧
      64 * (s.level (m + 1)).headOff + Λ.shift m < (s.level m).headOff + 64 ∧
      64 * (s.level (m + 1)).headOff + Λ.shift m + 64 ≤ (s.level m).tailOff ∧
      (s.level m).tailOff < 64 * (s.level (m + 1)).headOff + Λ.shift m + 128 := by
  obtain ⟨⟨hdvd, hle, hlt, hfull⟩, hrest, -⟩ := hr.joints m hm
  exact ⟨hle, hlt, by omega, by omega⟩

theorem findLayer_one (hr : Rep h s.level Λ) {m : ℕ} (hm : m < NLayers)
    (habove : EmptyAbove s.level (m + 1))
    (hone : (s.level (m + 1)).tailOff = (s.level (m + 1)).headOff + 1) :
    ∃ z, Skiplist.findLayer id (m + 1) { heap := h, self := s } = some (m, z) ∧
      FoundLevel h s Λ m z := by
  obtain ⟨hle, hlt, hblock, hrest⟩ := hr.has_block hm hone
  have hL := hr.nodes.level m (by omega)
  have hhi := hr.nodes.level (m + 1) hm
  have hhas : (s.level (m + 1)).Has (s.level (m + 1)).headOff := ⟨le_refl _, by omega⟩
  have hnode := hr.nodes.node m hm _ hhas
  have hhead : (s.layers m).headNode = some (Λ.cell (m + 1) (s.level (m + 1)).headOff) :=
    hhi.head.trans (firstCell_of_lt (by omega))
  have hsz : (s.layers m).tailOff - (s.layers m).headOff = 1 := by
    rw [Skiplist.level_succ] at hone
    omega
  -- `downHead` and `nextCount`
  have hdown : (if m = 0 then (s.head, s.tailOff - s.headOff)
      else ((s.layers (m - 1)).headNode, (s.layers (m - 1)).tailOff - (s.layers (m - 1)).headOff))
        = (some (Λ.cell m (s.level m).headOff), (s.level m).tailOff - (s.level m).headOff) := by
    have hfirst := hL.head
    rw [firstCell_of_lt (by omega)] at hfirst
    cases m with
    | zero => simpa [Skiplist.base] using hfirst
    | succ i => simpa using hfirst
  have hread : h.readNode (s.layers m).headNode
      = some (Λ.nodeAt s.level m (s.level (m + 1)).headOff) := by
    rw [hhead]
    exact hnode
  have hnext : (Λ.nodeAt s.level m (s.level (m + 1)).headOff).nextNode = none := by
    rw [Layout.nodeAt, firstCell_of_le (by omega)]
  have hfree : h.freeChain h.brk (s.layers m).headNode
      = some (h.setNode (Λ.cell (m + 1) (s.level (m + 1)).headOff) none) := by
    rw [hhead]
    exact Heap.freeChain_single hnode hnext (hr.nodes.lt_brk m hm _ hhas)
  have hfirst : (Λ.nodeAt s.level m (s.level (m + 1)).headOff).downNode
      = some (Λ.cell m (s.level m).headOff)
        ↔ 64 * (s.level (m + 1)).headOff + Λ.shift m = (s.level m).headOff := by
    rw [Layout.nodeAt]
    refine ⟨fun heq ↦ ?_, fun heq ↦ by rw [heq]⟩
    exact hL.distinct _ _ hle (by omega) (le_refl _) (by omega) (Option.some.inj heq)
  have hcount : (s.level m).tailOff - (s.level m).headOff = 2 * SkipGap - 1
      ↔ (s.level m).tailOff = (s.level m).headOff + 127 := by
    simp only [SkipGap]
    omega
  have hunfold : Skiplist.findLayer id (m + 1) { heap := h, self := s } =
      if 64 * (s.level (m + 1)).headOff + Λ.shift m = (s.level m).headOff ∧
          (s.level m).tailOff = (s.level m).headOff + 127 then
        Skiplist.findLayer id m
          { heap := h
            self := s.setLayer m (s.layers m).movedFrom
            res := some (({} : Skiplist).setLayer m (s.layers m))
            upperState := .singleNodePreserved }
      else
        Skiplist.findLayer id m
          { heap := h.setNode (Λ.cell (m + 1) (s.level (m + 1)).headOff) none
            self := s.setLayer m (s.layers m).cleanup
            upperState := .upperCleanuped
            thatDownNode := some (Λ.cell m (64 * (s.level (m + 1)).headOff + Λ.shift m)) } := by
    simp only [Skiplist.findLayer, id_eq, hsz, hdown, hread, hfree, hfirst, hcount,
      Option.bind_eq_bind, Option.bind_some]
    rfl
  have htwo : (s.level m).headOff + 1 < (s.level m).tailOff := by omega
  rw [hunfold]
  by_cases hcase : 64 * (s.level (m + 1)).headOff + Λ.shift m = (s.level m).headOff ∧
      (s.level m).tailOff = (s.level m).headOff + 127
  · rw [if_pos hcase]
    refine ⟨_, findLayer_stop (Or.inr ?_), .preserved hm habove hone hcase.1 hcase.2⟩
    simp only [Skiplist.level_setLayer]
    rwa [Function.update_of_ne (by omega)]
  · rw [if_neg hcase]
    refine ⟨_, findLayer_stop (Or.inr ?_), .cleanuped hm habove hone hcase⟩
    simp only [Skiplist.level_setLayer]
    rwa [Function.update_of_ne (by omega)]

/-- **The loop that looks for the layer to split.** -/
theorem findLayer_spec (hr : Rep h s.level Λ) {n : ℕ} (hn : n ≤ NLayers)
    (habove : EmptyAbove s.level n) :
    ∃ m z, m ≤ NLayers ∧ Skiplist.findLayer id n { heap := h, self := s } = some (m, z) ∧
      FoundLevel h s Λ m z := by
  induction n with
  | zero => exact ⟨0, _, Nat.zero_le _, rfl, .normal habove (Or.inl rfl)⟩
  | succ i ih =>
    have hle := (hr.nodes.level (i + 1) hn).le
    by_cases htwo : (s.level (i + 1)).headOff + 1 < (s.level (i + 1)).tailOff
    · exact ⟨i + 1, _, hn, findLayer_stop (Or.inr htwo), .normal habove (Or.inr htwo)⟩
    · by_cases hone : (s.level (i + 1)).tailOff = (s.level (i + 1)).headOff + 1
      · obtain ⟨z, hz, hfound⟩ := findLayer_one hr hn habove hone
        exact ⟨i, z, by omega, hz, hfound⟩
      · have hempty : (s.level (i + 1)).headOff = (s.level (i + 1)).tailOff := by omega
        have hskip : Skiplist.findLayer id (i + 1) { heap := h, self := s }
            = Skiplist.findLayer id i { heap := h, self := s } := by
          rw [Skiplist.level_succ] at hempty
          rw [Skiplist.findLayer]
          simp only [id_eq]
          rw [if_neg (by omega), if_neg (by omega)]
        rw [hskip]
        refine ih (by omega) fun k hk hkN ↦ ?_
        by_cases hki : k = i + 1
        · rw [hki]
          exact hempty
        · exact habove k (by omega) hkN

end

end TYThread
