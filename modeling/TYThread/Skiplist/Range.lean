import Mathlib.Algebra.Group.Int.Defs
import TYThread.Skiplist.Contents

/-!
# Offsets as `int`s

The offsets are declared `int`, and the results so far are about unbounded integers. Here an `int`
is whatever holds the numbers up to `intMax` faithfully. As long as the numbers that occur are in
range, an operation on the declared type is the operation on integers. For a dequeue and a split
they are whenever the list itself is in range; an enqueue counts up and needs room.
-/

namespace TYThread

open LinkedList

/-- The greatest `int`. -/
abbrev intMax : ℤ := 2147483647

/-- `int x` is `x` as far as it can be represented, and is never greater than `intMax`. -/
structure IntType (int : ℤ → ℤ) : Prop where
  exact : ∀ x, 0 ≤ x → x ≤ intMax → int x = x
  le_max : ∀ x, int x ≤ intMax

theorem intType_exact {int : ℤ → ℤ} (hint : IntType int) {x : ℤ} (h : 0 ≤ x) (h' : x ≤ 2147483647) :
    int x = x := hint.exact x h h'

namespace Skiplist

/-- No level has run out of the range of an `int`. -/
structure InRange (s : Skiplist) : Prop where
  base : s.tailOff ≤ intMax
  layer : ∀ i, (s.layers i).tailOff ≤ intMax

/-- The next enqueue adds a cell to level `k`: it completes a block at every level below. -/
def Grows (s : Skiplist) (k : ℕ) : Prop :=
  ∀ j < k, (s.level j).candidate ≠ none ∧ remGap ((s.level j).tailOff + 1) = 0

/-- There is room for one more cell at every level that the next enqueue adds one to. -/
def Fits (s : Skiplist) : Prop := ∀ k ≤ NLayers, s.Grows k → (s.level k).tailOff < intMax

theorem inRange_new : ({} : Skiplist).InRange :=
  ⟨by decide, fun _ ↦ (by decide : (0 : ℤ) ≤ intMax)⟩

theorem InRange.level {s : Skiplist} (hs : s.InRange) (k : ℕ) : (s.level k).tailOff ≤ intMax := by
  cases k with
  | zero => exact hs.base
  | succ k => exact hs.layer k

theorem InRange.setLayer {s : Skiplist} (hs : s.InRange) (i : ℕ) {L : Layer}
    (hL : L.tailOff ≤ intMax) : (s.setLayer i L).InRange := by
  refine ⟨hs.base, fun j ↦ ?_⟩
  change (Function.update s.layers i L j).tailOff ≤ intMax
  by_cases hji : j = i
  · rw [hji, Function.update_self]
    exact hL
  · rw [Function.update_of_ne hji]
    exact hs.layer j

end Skiplist

section

variable {int : ℤ → ℤ}

/-! ## Enqueue -/

theorem appendNode_int {h : Heap} {L : Layer} {cur last : Option Addr}
    (hfit : int (L.tailOff + 1) = L.tailOff + 1) :
    Skiplist.appendNode int h L cur last = Skiplist.appendNode id h L cur last := by
  simp only [Skiplist.appendNode, Option.bind_eq_bind, id_eq]
  by_cases hhead : L.headNode = none
  · simp only [if_pos hhead, Option.bind_some, hfit]
  · simp only [if_neg hhead, Option.bind_some, hfit]

theorem appendNode_layer {h h' : Heap} {L L' : Layer} {cur last : Option Addr} {new : Addr}
    (hrun : Skiplist.appendNode int h L cur last = some (h', L', new)) :
    L'.candidate = L.candidate ∧ L'.tailOff = int (L.tailOff + 1) := by
  rw [Skiplist.appendNode] at hrun
  by_cases hhead : L.headNode = none
  · simp only [if_pos hhead, Option.bind_eq_bind, Option.bind_some, Option.some.injEq,
      Prod.mk.injEq] at hrun
    rw [← hrun.2.1]
    exact ⟨rfl, rfl⟩
  · simp only [if_neg hhead, Option.bind_eq_bind, Option.bind_some, Option.bind_eq_some_iff,
      Option.some.injEq, Prod.mk.injEq] at hrun
    obtain ⟨_, _, _, rfl, _⟩ := hrun
    exact ⟨rfl, rfl⟩

/-- The loop of `_update_after_enque`, when every layer that gets a node has room. -/
theorem addNodes_int {n i : ℕ} {h : Heap} {layers : ℕ → Layer} {cur last : Option Addr}
    (hfit : ∀ k, i ≤ k → k < i + n →
      (∀ j, i ≤ j → j < k → (layers j).candidate ≠ none ∧ remGap ((layers j).tailOff + 1) = 0) →
      int ((layers k).tailOff + 1) = (layers k).tailOff + 1) :
    Skiplist.addNodes int n i h layers cur last = Skiplist.addNodes id n i h layers cur last := by
  induction n generalizing i h layers cur last with
  | zero => rfl
  | succ n ih =>
    have hi := hfit i (Nat.le_refl i) (by omega) fun j hj hj' ↦ by omega
    rw [Skiplist.addNodes, Skiplist.addNodes, appendNode_int hi]
    cases happend : Skiplist.appendNode id h (layers i) cur last with
    | none => rfl
    | some r =>
      obtain ⟨h', L', new⟩ := r
      obtain ⟨hcand, htail⟩ := appendNode_layer happend
      rw [id_eq] at htail
      simp only [Option.bind_eq_bind, Option.bind_some]
      by_cases hup : L'.candidate ≠ none ∧ remGap L'.tailOff = 0
      · rw [if_pos hup, if_pos hup]
        refine ih fun k hk hk' hgrow ↦ ?_
        rw [Function.update_of_ne (by omega)]
        refine hfit k (by omega) (by omega) fun j hj hj' ↦ ?_
        by_cases hji : j = i
        · rw [hji, ← hcand, ← htail]
          exact hup
        · have := hgrow j (by omega) hj'
          rwa [Function.update_of_ne hji] at this
      · rw [if_neg hup, if_neg hup]

theorem linkTail_level {h h' : Heap} {s s' : Skiplist} {p : Option Addr}
    (hrun : Skiplist.linkTail h s p = some (h', s')) :
    s'.layers = s.layers ∧ s'.candidate = s.candidate ∧ s'.tailOff = s.tailOff := by
  rw [Skiplist.linkTail] at hrun
  by_cases hhead : s.head ≠ none
  · simp only [if_pos hhead, Option.bind_eq_bind, Option.bind_eq_some_iff, Option.some.injEq,
      Prod.mk.injEq] at hrun
    obtain ⟨_, _, _, _, _, rfl⟩ := hrun
    exact ⟨rfl, rfl, rfl⟩
  · simp only [if_neg hhead, Option.bind_eq_bind, Option.bind_eq_some_iff, Option.some.injEq,
      Prod.mk.injEq] at hrun
    obtain ⟨_, _, _, rfl⟩ := hrun
    exact ⟨rfl, rfl, rfl⟩

theorem updateAfterEnque_int (hint : IntType int) {h : Heap} {s : Skiplist}
    (hnonneg : ∀ k ≤ NLayers, 0 ≤ (s.level k).tailOff) (hfit : s.Fits) :
    Skiplist.updateAfterEnque int h s = Skiplist.updateAfterEnque id h s := by
  have hroom : ∀ k ≤ NLayers, s.Grows k →
      int ((s.level k).tailOff + 1) = (s.level k).tailOff + 1 := fun k hk hgrow ↦ by
    have hlt := hfit k hk hgrow
    have hle := hnonneg k hk
    exact intType_exact hint (by omega) (by simp only [intMax] at hlt; omega)
  have hbase : int (s.tailOff + 1) = s.tailOff + 1 :=
    hroom 0 (Nat.zero_le _) fun j hj ↦ by omega
  simp only [Skiplist.updateAfterEnque, hbase, id_eq]
  by_cases hup : s.candidate ≠ none ∧ remGap (s.tailOff + 1) = 0
  · rw [if_pos hup, if_pos hup, addNodes_int]
    intro k _ hk hgrow
    refine hroom (k + 1) (by omega) fun j hj ↦ ?_
    cases j with
    | zero => exact hup
    | succ j => exact hgrow j (Nat.zero_le j) (by omega)
  · rw [if_neg hup, if_neg hup]

theorem linkTail_tailOff {h h' : Heap} {s s' : Skiplist} {p : Option Addr}
    (hrun : Skiplist.linkTail h s p = some (h', s')) (k : ℕ) :
    (s'.level k).tailOff = (s.level k).tailOff := by
  obtain ⟨hlayers, -, htail⟩ := linkTail_level hrun
  cases k with
  | zero => exact htail
  | succ k => rw [Skiplist.level_succ, hlayers, Skiplist.level_succ]

theorem linkTail_grows {h h' : Heap} {s s' : Skiplist} {p : Option Addr}
    (hrun : Skiplist.linkTail h s p = some (h', s')) (k : ℕ) : s'.Grows k ↔ s.Grows k := by
  obtain ⟨hlayers, hcand, -⟩ := linkTail_level hrun
  have hcand' : ∀ k, (s'.level k).candidate = (s.level k).candidate := fun k ↦ by
    cases k with
    | zero => exact hcand
    | succ k => rw [Skiplist.level_succ, hlayers, Skiplist.level_succ]
  simp only [Skiplist.Grows, linkTail_tailOff hrun, hcand']

theorem linkTail_fits {h h' : Heap} {s s' : Skiplist} {p : Option Addr}
    (hrun : Skiplist.linkTail h s p = some (h', s'))
    (hnonneg : ∀ k ≤ NLayers, 0 ≤ (s.level k).tailOff)
    (hfit : s.Fits) : (∀ k ≤ NLayers, 0 ≤ (s'.level k).tailOff) ∧ s'.Fits := by
  simp only [Skiplist.Fits, linkTail_tailOff hrun, linkTail_grows hrun]
  exact ⟨hnonneg, hfit⟩

theorem enqueueMove_int (hint : IntType int) {h : Heap} {s : Skiplist} {p : Option Addr}
    (hnonneg : ∀ k ≤ NLayers, 0 ≤ (s.level k).tailOff) (hfit : s.Fits) :
    Skiplist.enqueueMove int h s p = Skiplist.enqueueMove id h s p := by
  rw [Skiplist.enqueueMove, Skiplist.enqueueMove]
  cases hlink : Skiplist.linkTail h s p with
  | none => rfl
  | some r =>
    obtain ⟨h₁, s₁⟩ := r
    obtain ⟨hnonneg', hfit'⟩ := linkTail_fits hlink hnonneg hfit
    exact updateAfterEnque_int hint hnonneg' hfit'

theorem enqueueCopy_int (hint : IntType int) {h : Heap} {s : Skiplist} {p : Option Addr}
    (hnonneg : ∀ k ≤ NLayers, 0 ≤ (s.level k).tailOff) (hfit : s.Fits) :
    Skiplist.enqueueCopy int h s p = Skiplist.enqueueCopy id h s p := by
  rw [Skiplist.enqueueCopy, Skiplist.enqueueCopy]
  cases hlink : Skiplist.linkTail h s p with
  | none => rfl
  | some r =>
    obtain ⟨h₁, s₁⟩ := r
    obtain ⟨hnonneg', hfit'⟩ := linkTail_fits hlink hnonneg hfit
    simp only [Option.bind_eq_bind, Option.bind_some]
    congr 1
    funext h'
    exact updateAfterEnque_int hint hnonneg' hfit'

/-- The loop adds a node to every layer whose turn it is, and leaves the layers below alone. -/
theorem addNodes_grows {n i : ℕ} {h h' : Heap} {layers layers' : ℕ → Layer} {cur last : Option Addr}
    (hrun : Skiplist.addNodes id n i h layers cur last = some (h', layers')) :
    (∀ k < i, layers' k = layers k) ∧
    (∀ k, (layers' k).tailOff ≤ (layers k).tailOff + 1) ∧
    ∀ k, i ≤ k → k < i + n →
      (∀ j, i ≤ j → j < k → (layers j).candidate ≠ none ∧ remGap ((layers j).tailOff + 1) = 0) →
      (layers' k).tailOff = (layers k).tailOff + 1 := by
  induction n generalizing i h layers cur last with
  | zero =>
    simp only [Skiplist.addNodes, Option.some.injEq, Prod.mk.injEq] at hrun
    rw [hrun.2]
    exact ⟨fun k _ ↦ rfl, fun k ↦ by omega, fun k hk hk' ↦ by omega⟩
  | succ n ih =>
    rw [Skiplist.addNodes, Option.bind_eq_bind, Option.bind_eq_some_iff] at hrun
    obtain ⟨⟨h₁, L', new⟩, happend, hrun⟩ := hrun
    obtain ⟨hcand, htail⟩ := appendNode_layer happend
    rw [id_eq] at htail
    dsimp only at hrun
    by_cases hup : L'.candidate ≠ none ∧ remGap L'.tailOff = 0
    · rw [if_pos hup] at hrun
      obtain ⟨hbelow, hle, habove⟩ := ih hrun
      refine ⟨fun k hk ↦ by rw [hbelow k (by omega), Function.update_of_ne (by omega)], fun k ↦ ?_,
        fun k hk hk' hgrow ↦ ?_⟩
      · by_cases hki : k = i
        · rw [hki, hbelow i (by omega), Function.update_self, htail]
        · have hlek := hle k
          rwa [Function.update_of_ne hki] at hlek
      · by_cases hki : k = i
        · rw [hki, hbelow i (by omega), Function.update_self, htail]
        · rw [habove k (by omega) (by omega) fun j hj hj' ↦ ?_, Function.update_of_ne hki]
          rw [Function.update_of_ne (by omega)]
          exact hgrow j (by omega) hj'
    · -- The loop ends here, so no layer above is in turn.
      have hend : ∃ c, layers' = Function.update layers i { L' with candidate := c } := by
        rw [if_neg hup] at hrun
        split at hrun
        all_goals
          simp only [Option.some.injEq, Prod.mk.injEq] at hrun
          exact ⟨_, hrun.2.symm⟩
      obtain ⟨c, rfl⟩ := hend
      refine ⟨fun k hk ↦ Function.update_of_ne (by omega) .., fun k ↦ ?_, fun k hk hk' hgrow ↦ ?_⟩
      · by_cases hki : k = i
        · rw [hki, Function.update_self, htail]
        · rw [Function.update_of_ne hki]
          omega
      · by_cases hki : k = i
        · rw [hki, Function.update_self, htail]
        · refine absurd (hgrow i (Nat.le_refl i) (by omega)) ?_
          rw [← hcand, ← htail]
          exact hup

theorem updateAfterEnque_grows {h h' : Heap} {s s' : Skiplist}
    (hrun : Skiplist.updateAfterEnque id h s = some (h', s')) :
    (∀ k, (s'.level k).tailOff ≤ (s.level k).tailOff + 1) ∧
    ∀ k ≤ NLayers, s.Grows k → (s'.level k).tailOff = (s.level k).tailOff + 1 := by
  simp only [Skiplist.updateAfterEnque, id_eq] at hrun
  by_cases hup : s.candidate ≠ none ∧ remGap (s.tailOff + 1) = 0
  · rw [if_pos hup, Option.bind_eq_bind, Option.bind_eq_some_iff] at hrun
    obtain ⟨⟨h₁, layers⟩, hadd, hrun⟩ := hrun
    simp only [Option.some.injEq, Prod.mk.injEq] at hrun
    obtain ⟨-, hle, hgrows⟩ := addNodes_grows hadd
    rw [← hrun.2]
    refine ⟨fun k ↦ ?_, fun k hk hgrow ↦ ?_⟩
    · cases k with
      | zero => exact le_refl _
      | succ k => exact hle k
    · cases k with
      | zero => rfl
      | succ k => exact hgrows k (Nat.zero_le k) (by omega) fun j _ hj ↦ hgrow (j + 1) (by omega)
  · have hend : ∃ c, s' = { s with tailOff := s.tailOff + 1, candidate := c } := by
      rw [if_neg hup] at hrun
      split at hrun
      all_goals
        simp only [Option.some.injEq, Prod.mk.injEq] at hrun
        exact ⟨_, hrun.2.symm⟩
    obtain ⟨c, rfl⟩ := hend
    refine ⟨fun k ↦ ?_, fun k hk hgrow ↦ ?_⟩
    · cases k with
      | zero => exact le_refl _
      | succ k =>
        change (s.layers k).tailOff ≤ (s.layers k).tailOff + 1
        omega
    · cases k with
      | zero => rfl
      | succ k => exact absurd (hgrow 0 (Nat.succ_pos k)) hup

theorem enqueueMove_grows {h h' : Heap} {s s' : Skiplist} {p : Option Addr}
    (hrun : Skiplist.enqueueMove id h s p = some (h', s')) :
    (∀ k, (s'.level k).tailOff ≤ (s.level k).tailOff + 1) ∧
    ∀ k ≤ NLayers, s.Grows k → (s'.level k).tailOff = (s.level k).tailOff + 1 := by
  rw [Skiplist.enqueueMove, Option.bind_eq_bind, Option.bind_eq_some_iff] at hrun
  obtain ⟨⟨h₁, s₁⟩, hlink, hrun⟩ := hrun
  have hgrows := updateAfterEnque_grows hrun
  simpa only [linkTail_tailOff hlink, linkTail_grows hlink] using hgrows

theorem enqueueCopy_grows {h h' : Heap} {s s' : Skiplist} {p : Option Addr}
    (hrun : Skiplist.enqueueCopy id h s p = some (h', s')) :
    (∀ k, (s'.level k).tailOff ≤ (s.level k).tailOff + 1) ∧
    ∀ k ≤ NLayers, s.Grows k → (s'.level k).tailOff = (s.level k).tailOff + 1 := by
  simp only [Skiplist.enqueueCopy, Option.bind_eq_bind, Option.bind_eq_some_iff] at hrun
  obtain ⟨⟨h₁, s₁⟩, hlink, h₂, -, hrun⟩ := hrun
  have hgrows := updateAfterEnque_grows hrun
  simpa only [linkTail_tailOff hlink, linkTail_grows hlink] using hgrows

/-! ## Dequeue -/

theorem dropHead_int {h : Heap} {L : Layer} (hfit : int (L.headOff + 1) = L.headOff + 1) :
    Skiplist.dropHead int h L = Skiplist.dropHead id h L := by
  simp only [Skiplist.dropHead, hfit, id_eq]

theorem dropHeads_int {n i : ℕ} {h : Heap} {layers : ℕ → Layer} (hi : (layers i).headNode ≠ none)
    (hfit : ∀ k, i ≤ k → k < i + n → (layers k).headNode ≠ none →
      int ((layers k).headOff + 1) = (layers k).headOff + 1) :
    Skiplist.dropHeads int n i h layers = Skiplist.dropHeads id n i h layers := by
  induction n generalizing i h layers with
  | zero => rfl
  | succ n ih =>
    rw [Skiplist.dropHeads, Skiplist.dropHeads, dropHead_int (hfit i (Nat.le_refl i) (by omega) hi)]
    cases hdrop : Skiplist.dropHead id h (layers i) with
    | none => rfl
    | some r =>
      simp only [Option.bind_eq_bind, Option.bind_some]
      by_cases hup : remGap r.2.headOff = 1 ∧ 1 ≤ n ∧
          (Function.update layers i r.2 (i + 1)).headNode ≠ none
      · rw [if_pos hup, if_pos hup]
        refine ih hup.2.2 fun k hk hk' hne ↦ ?_
        rw [Function.update_of_ne (by omega)] at hne ⊢
        exact hfit k (by omega) (by omega) hne
      · rw [if_neg hup, if_neg hup]

variable {h : Heap} {s : Skiplist} {Λ : Layout}

theorem Rep.headOff_int (hint : IntType int) (hr : Rep h s.level Λ) (hrange : s.InRange) {k : ℕ}
    (hk : k ≤ NLayers) (hne : (s.level k).headNode ≠ none) :
    int ((s.level k).headOff + 1) = (s.level k).headOff + 1 := by
  have hL := hr.nodes.level k hk
  have hlt : (s.level k).headOff < (s.level k).tailOff := by
    by_contra hge
    exact hne (by rw [hL.head, firstCell_of_le (by omega)])
  have hmax := hrange.level k
  have hnonneg := hL.nonneg
  exact intType_exact hint (by omega) (by simp only [intMax] at hmax; omega)

theorem dequeue_int (hint : IntType int) (hr : Rep h s.level Λ) (hrange : s.InRange) :
    Skiplist.dequeue_ int h s = Skiplist.dequeue_ id h s := by
  rw [Skiplist.dequeue_, Skiplist.dequeue_]
  cases hhead : s.head with
  | none => rfl
  | some t =>
    have hbase : int (s.headOff + 1) = s.headOff + 1 :=
      hr.headOff_int hint hrange (Nat.zero_le _) (by simp [Skiplist.base, hhead])
    simp only [Option.bind_eq_bind, hbase, id_eq]
    congr 1
    funext next
    congr 1
    funext h'
    by_cases hup : remGap (s.headOff + 1) = 1 ∧ (s.layers 0).headNode ≠ none
    · rw [if_pos hup, if_pos hup, dropHeads_int hup.2 fun k _ hk hne ↦
        hr.headOff_int (k := k + 1) hint hrange (by omega) hne]
    · rw [if_neg hup, if_neg hup]

/-! ## Split -/

theorem Rep.count_le (hr : Rep h s.level Λ) {k : ℕ} (hk : k ≤ NLayers) :
    (s.level k).tailOff - (s.level k).headOff ≤ s.tailOff - s.headOff := by
  induction k with
  | zero => exact le_refl _
  | succ k ih =>
    have hlo := (hr.nodes.level k (by omega)).le
    have hhi := (hr.nodes.level (k + 1) hk).le
    obtain ⟨⟨hdvd, hle, hlt, hfull⟩, -, -⟩ := hr.joints k hk
    have := ih (by omega)
    omega

/-- The search for the layer to split computes with the sizes of the levels. -/
theorem findLayer_int {n : ℕ} {z : Skiplist.Scan}
    (hsize : ∀ k ≤ n, int ((z.self.level k).tailOff - (z.self.level k).headOff)
      = (z.self.level k).tailOff - (z.self.level k).headOff) :
    Skiplist.findLayer int n z = Skiplist.findLayer id n z := by
  induction n generalizing z with
  | zero => rfl
  | succ i ih =>
    have hi : int ((z.self.layers i).tailOff - (z.self.layers i).headOff)
        = (z.self.layers i).tailOff - (z.self.layers i).headOff := hsize (i + 1) (Nat.le_refl _)
    have hnext : (if i = 0 then (z.self.head, int (z.self.tailOff - z.self.headOff))
        else ((z.self.layers (i - 1)).headNode,
          int ((z.self.layers (i - 1)).tailOff - (z.self.layers (i - 1)).headOff)))
        = if i = 0 then (z.self.head, z.self.tailOff - z.self.headOff)
        else ((z.self.layers (i - 1)).headNode,
          (z.self.layers (i - 1)).tailOff - (z.self.layers (i - 1)).headOff) := by
      have hsize' := hsize i (by omega)
      cases i with
      | zero => rw [if_pos rfl, if_pos rfl]; congr 1
      | succ i => rw [if_neg (by omega), if_neg (by omega)]; congr 1
    have hbelow : ∀ (L : Layer), ∀ k ≤ i, ((z.self.setLayer i L).level k) = z.self.level k :=
      fun L k hk ↦ by rw [Skiplist.level_setLayer, Function.update_of_ne (by omega)]
    simp only [Skiplist.findLayer, hi, hnext, id_eq]
    generalize (if i = 0 then (z.self.head, z.self.tailOff - z.self.headOff)
      else ((z.self.layers (i - 1)).headNode,
        (z.self.layers (i - 1)).tailOff - (z.self.layers (i - 1)).headOff)) = next
    by_cases hmany : (z.self.layers i).tailOff - (z.self.layers i).headOff > 1
    · rw [if_pos hmany, if_pos hmany]
    · rw [if_neg hmany, if_neg hmany]
      by_cases hone : (z.self.layers i).tailOff - (z.self.layers i).headOff = 1
      · rw [if_pos hone, if_pos hone]
        congr 1
        funext nd
        by_cases htest : nd.downNode = next.1 ∧ next.2 = 2 * SkipGap - 1
        · rw [if_pos htest, if_pos htest]
          exact ih fun k hk ↦ by simp only [hbelow _ k hk]; exact hsize k (by omega)
        · rw [if_neg htest, if_neg htest]
          congr 1
          funext heap
          exact ih fun k hk ↦ by simp only [hbelow _ k hk]; exact hsize k (by omega)
      · rw [if_neg hone, if_neg hone]
        exact ih fun k hk ↦ hsize k (by omega)

theorem cutLayers_int (hint : IntType int) {lv : ℕ → Layer} {cut : ℕ → ℤ} {n : ℕ}
    (hc : Cut lv Λ n cut) (hal : ∀ k < n, Aligned (lv k) (lv (k + 1)) (Λ.shift k))
    (hnonneg : ∀ k ≤ n, 0 ≤ (lv k).headOff)
    (hmax : ∀ k ≤ n, (lv k).tailOff ≤ intMax)
    (hcount : ∀ k ≤ n, (lv k).tailOff - (lv k).headOff ≤ 2 ^ 20) {r : Skiplist} {cur : Option Addr}
    (hs : ∀ k ≤ n, (s.level k).headOff = (lv k).headOff) :
    Skiplist.cutLayers int n h s r cur (cut n - (lv n).headOff)
      = Skiplist.cutLayers id n h s r cur (cut n - (lv n).headOff) := by
  induction n generalizing h s r cur with
  | zero =>
    have hhead := hc.head_lt 0 (Nat.le_refl 0)
    have htail := hc.le_tail 0 (Nat.le_refl 0)
    have hmax₀ := hmax 0 (Nat.le_refl 0)
    have hle := hnonneg 0 (Nat.le_refl 0)
    have hoff : s.headOff = (lv 0).headOff := hs 0 (Nat.le_refl 0)
    have hcut : int (s.headOff + (cut 0 - (lv 0).headOff)) = s.headOff + (cut 0 - (lv 0).headOff) :=
      intType_exact hint (by omega) (by simp only [intMax] at hmax₀; omega)
    simp only [Skiplist.cutLayers, Skiplist.cutBase, hcut, id_eq]
  | succ i ih =>
    have hoff : (s.layers i).headOff = (lv (i + 1)).headOff := hs (i + 1) (Nat.le_refl _)
    have htmp : (if i ≠ 0 then (s.layers (i - 1)).headOff else s.headOff) = (lv i).headOff := by
      have := hs i (by omega)
      cases i with
      | zero => simpa [Skiplist.base] using this
      | succ i => simpa using this
    have hdown := hc.down i (by omega)
    have hhead := hc.head_lt (i + 1) (Nat.le_refl _)
    have htail := hc.le_tail (i + 1) (Nat.le_refl _)
    have htail' := hc.le_tail i (by omega)
    have hle := hnonneg (i + 1) (Nat.le_refl _)
    have hle' := hnonneg i (by omega)
    have hmax₁ := hmax (i + 1) (Nat.le_refl _)
    have hmax₀ := hmax i (by omega)
    have hcount₀ := hcount i (by omega)
    have hstart := (hal i (by omega)).le_start
    simp only [intMax] at hmax₀ hmax₁
    -- `toGiveAwayNextLayer` and the numbers on the way to it
    have hitems := (hal i (by omega)).items_before hle' (cut (i + 1) - (lv (i + 1)).headOff)
    have hrem : 0 ≤ remGap ((lv i).headOff + SkipGap - 1) ∧
        remGap ((lv i).headOff + SkipGap - 1) < 64 := by
      rw [remGap_of_nonneg (by simp only [SkipGap]; omega)]
      omega
    have hstep : (1 + (cut (i + 1) - (lv (i + 1)).headOff)) * SkipGap
        - remGap ((lv i).headOff + SkipGap - 1) - 1 = cut i - (lv i).headOff := by omega
    have hprod : int ((1 + (cut (i + 1) - (lv (i + 1)).headOff)) * SkipGap)
        = (1 + (cut (i + 1) - (lv (i + 1)).headOff)) * SkipGap :=
      intType_exact hint (by simp only [SkipGap]; omega) (by omega)
    have hsum : int ((lv i).headOff + SkipGap - 1) = (lv i).headOff + SkipGap - 1 := by
      refine intType_exact hint ?_ ?_ <;> (simp only [SkipGap]; omega)
    have hgive : int (cut i - (lv i).headOff) = cut i - (lv i).headOff :=
      intType_exact hint (by omega) (by omega)
    have hcut : int ((lv (i + 1)).headOff + (cut (i + 1) - (lv (i + 1)).headOff))
        = (lv (i + 1)).headOff + (cut (i + 1) - (lv (i + 1)).headOff) :=
      intType_exact hint (by omega) (by omega)
    simp only [Skiplist.cutLayers, htmp, hoff, hprod, hsum, hstep, hgive, hcut, id_eq]
    congr 1
    funext nd
    congr 1
    funext h'
    exact ih (hc.mono (by omega)) (fun k hk ↦ hal k (by omega)) (fun k hk ↦ hnonneg k (by omega))
      (fun k hk ↦ hmax k (by omega)) (fun k hk ↦ hcount k (by omega)) fun k hk ↦ by
        rw [Skiplist.level_setLayer, Function.update_of_ne (by omega)]
        exact hs k (by omega)

theorem FoundLevel.level_eq {m : ℕ} {z : Skiplist.Scan} (hfound : FoundLevel h s Λ m z) {k : ℕ}
    (hk : k ≤ m) : z.self.level k = s.level k := by
  cases hfound with
  | normal => rfl
  | preserved => rw [Skiplist.level_setLayer, Function.update_of_ne (by omega)]
  | cleanuped => rw [Skiplist.level_setLayer, Function.update_of_ne (by omega)]

theorem FoundLevel.lt {i : ℕ} {z : Skiplist.Scan} (hr : Rep h s.level Λ)
    (hfound : FoundLevel h s Λ (i + 1) z) :
    (s.level (i + 1)).headOff < (s.level (i + 1)).tailOff := by
  cases hfound with
  | normal _ two => omega
  | preserved _ _ _ _ count => omega
  | cleanuped lt _ one _ =>
    have := hr.has_block lt one
    omega

/-- **A split** of a list in range computes with numbers in range. -/
theorem dequeueHalf_int (hint : IntType int) (hr : Rep h s.level Λ) (hrange : s.InRange)
    (hcount : s.tailOff - s.headOff ≤ 2 ^ 20) :
    Skiplist.dequeueHalf int h s = Skiplist.dequeueHalf id h s := by
  have hsize : ∀ k ≤ NLayers, int ((s.level k).tailOff - (s.level k).headOff)
      = (s.level k).tailOff - (s.level k).headOff := fun k hk ↦ by
    have := (hr.nodes.level k hk).le
    have := hr.count_le hk
    exact intType_exact hint (by omega) (by omega)
  have hgive : ∀ k ≤ NLayers, int ((s.level k).tailOff - (s.level k).headOff + 1)
      = (s.level k).tailOff - (s.level k).headOff + 1 := fun k hk ↦ by
    have := (hr.nodes.level k hk).le
    have := hr.count_le hk
    exact intType_exact hint (by omega) (by omega)
  have hfind : Skiplist.findLayer int NLayers { heap := h, self := s }
      = Skiplist.findLayer id NLayers { heap := h, self := s } := findLayer_int hsize
  obtain ⟨m, z, hm, hz, hfound⟩ := findLayer_spec hr (Nat.le_refl NLayers) fun k hk hk' ↦ by omega
  have hself := fun k hk ↦ hfound.level_eq (k := k) hk
  simp only [Skiplist.dequeueHalf, hfind, hz, Option.bind_eq_bind, Option.bind_some]
  cases m with
  | zero =>
    have hlevel := hr.nodes.level 0 (Nat.zero_le _)
    have hle := toGiveAway_le hlevel.le
    have hmax := hrange.level 0
    have hbase := hself 0 (Nat.le_refl 0)
    have hgive₀ := hgive 0 (Nat.zero_le _)
    rw [← hbase] at hle hmax hgive₀ hlevel
    simp only [intMax] at hmax
    simp only [Skiplist.level_zero, Skiplist.base, toGiveAway] at hle hmax hgive₀ hlevel
    have hpos := hlevel.nonneg
    have hnonneg : 0 ≤ (z.self.tailOff - z.self.headOff + 1).tdiv 2 :=
      Int.tdiv_nonneg (by have := hlevel.le; simp only at this; omega) (by omega)
    have hcut : int (z.self.headOff + (z.self.tailOff - z.self.headOff + 1).tdiv 2)
        = z.self.headOff + (z.self.tailOff - z.self.headOff + 1).tdiv 2 :=
      intType_exact hint (by simp only at hpos; omega) (by omega)
    simp only [hgive₀, id_eq]
    by_cases hzero : (z.self.tailOff - z.self.headOff + 1).tdiv 2 = 0
    · rw [if_pos hzero, if_pos hzero]
    · rw [if_neg hzero, if_neg hzero]
      congr 1
      funext last
      simp only [Skiplist.cutBase, hcut, id_eq]
  | succ i =>
    have hlt := hfound.lt hr
    have hlevel := hself (i + 1) (Nat.le_refl _)
    obtain ⟨cut, hc, hcm⟩ := Cut.exists (x := (s.level (i + 1)).headOff
      + toGiveAway (s.level (i + 1))) hm hr.joints
      (by have := toGiveAway_pos hlt; omega) (toGiveAway_le (by omega))
    have hgive₁ := hgive (i + 1) hm
    rw [← hlevel, Skiplist.level_succ] at hgive₁
    have hcount₁ : ((z.self.layers i).tailOff - (z.self.layers i).headOff + 1).tdiv 2
        = cut (i + 1) - (s.level (i + 1)).headOff := by
      rw [hcm, ← hlevel, Skiplist.level_succ, toGiveAway]
      omega
    simp only [hgive₁, hcount₁, id_eq]
    congr 1
    funext cur
    rw [cutLayers_int hint hc (fun k hk ↦ (hr.joints k (by omega)).toAligned)
      (fun k hk ↦ (hr.nodes.level k (by omega)).nonneg) (fun k hk ↦ hrange.level k)
      (fun k hk ↦ le_trans (hr.count_le (by omega)) hcount)]
    intro k hk
    by_cases hki : k = i + 1
    · subst hki
      rw [Skiplist.level_setLayer, Function.update_self, ← hlevel, Skiplist.level_succ]
    · rw [Skiplist.level_setLayer, Function.update_of_ne hki, hself k hk]

/-! ## Staying in range

An offset that is written is an `int`, and every other one is one that was there before. -/

section

variable {h' : Heap} {s' r r' : Skiplist}

theorem addNodes_le (hint : IntType int) {n i : ℕ} {h : Heap} {layers layers' : ℕ → Layer}
    {cur last : Option Addr}
    (hrun : Skiplist.addNodes int n i h layers cur last = some (h', layers'))
    (hle : ∀ k, (layers k).tailOff ≤ intMax) (k : ℕ) : (layers' k).tailOff ≤ intMax := by
  induction n generalizing i h layers cur last with
  | zero =>
    simp only [Skiplist.addNodes, Option.some.injEq, Prod.mk.injEq] at hrun
    rw [← hrun.2]
    exact hle k
  | succ n ih =>
    rw [Skiplist.addNodes, Option.bind_eq_bind, Option.bind_eq_some_iff] at hrun
    obtain ⟨⟨h₁, L', new⟩, happend, hrun⟩ := hrun
    obtain ⟨-, htail⟩ := appendNode_layer happend
    have hupdate : ∀ c j, (Function.update layers i { L' with candidate := c } j).tailOff ≤
        intMax :=
      fun c j ↦ by
        by_cases hji : j = i
        · rw [hji, Function.update_self, htail]
          exact hint.le_max _
        · rw [Function.update_of_ne hji]
          exact hle j
    dsimp only at hrun
    split at hrun
    · exact ih hrun (hupdate none)
    · split at hrun
      · simp only [Option.some.injEq, Prod.mk.injEq] at hrun
        rw [← hrun.2]
        exact hupdate _ k
      · simp only [Option.some.injEq, Prod.mk.injEq] at hrun
        rw [← hrun.2]
        exact hupdate L'.candidate k

theorem updateAfterEnque_inRange (hint : IntType int)
    (hrun : Skiplist.updateAfterEnque int h s = some (h', s')) (hs : s.InRange) : s'.InRange := by
  simp only [Skiplist.updateAfterEnque] at hrun
  split at hrun
  · rw [Option.bind_eq_bind, Option.bind_eq_some_iff] at hrun
    obtain ⟨⟨h₁, layers⟩, hadd, hrun⟩ := hrun
    simp only [Option.some.injEq, Prod.mk.injEq] at hrun
    rw [← hrun.2]
    exact ⟨hint.le_max _, addNodes_le hint hadd hs.layer⟩
  · split at hrun
    all_goals
      simp only [Option.some.injEq, Prod.mk.injEq] at hrun
      rw [← hrun.2]
      exact ⟨hint.le_max _, hs.layer⟩

theorem linkTail_inRange {p : Option Addr} (hrun : Skiplist.linkTail h s p = some (h', s'))
    (hs : s.InRange) : s'.InRange := by
  obtain ⟨hlayers, -, htail⟩ := linkTail_level hrun
  exact ⟨by rw [htail]; exact hs.base, by rw [hlayers]; exact hs.layer⟩

theorem enqueueMove_inRange (hint : IntType int) {p : Option Addr}
    (hrun : Skiplist.enqueueMove int h s p = some (h', s')) (hs : s.InRange) : s'.InRange := by
  rw [Skiplist.enqueueMove, Option.bind_eq_bind, Option.bind_eq_some_iff] at hrun
  obtain ⟨⟨h₁, s₁⟩, hlink, hrun⟩ := hrun
  exact updateAfterEnque_inRange hint hrun (linkTail_inRange hlink hs)

theorem enqueueCopy_inRange (hint : IntType int) {p : Option Addr}
    (hrun : Skiplist.enqueueCopy int h s p = some (h', s')) (hs : s.InRange) : s'.InRange := by
  simp only [Skiplist.enqueueCopy, Option.bind_eq_bind, Option.bind_eq_some_iff] at hrun
  obtain ⟨⟨h₁, s₁⟩, hlink, h₂, -, hrun⟩ := hrun
  exact updateAfterEnque_inRange hint hrun (linkTail_inRange hlink hs)

theorem dropHeads_tailOff {n i : ℕ} {h : Heap} {layers layers' : ℕ → Layer}
    (hrun : Skiplist.dropHeads int n i h layers = some (h', layers')) (k : ℕ) :
    (layers' k).tailOff = (layers k).tailOff := by
  induction n generalizing i h layers with
  | zero =>
    simp only [Skiplist.dropHeads, Option.some.injEq, Prod.mk.injEq] at hrun
    rw [hrun.2]
  | succ n ih =>
    rw [Skiplist.dropHeads, Option.bind_eq_bind, Option.bind_eq_some_iff] at hrun
    obtain ⟨⟨h₁, L'⟩, hdrop, hrun⟩ := hrun
    have htail : L'.tailOff = (layers i).tailOff := by
      simp only [Skiplist.dropHead, Option.bind_eq_bind, Option.bind_eq_some_iff,
        Option.some.injEq, Prod.mk.injEq] at hdrop
      obtain ⟨_, _, _, _, _, rfl⟩ := hdrop
      rfl
    have hupdate : (Function.update layers i L' k).tailOff = (layers k).tailOff := by
      by_cases hki : k = i
      · rw [hki, Function.update_self, htail]
      · rw [Function.update_of_ne hki]
    dsimp only at hrun
    split at hrun
    · rw [ih hrun, hupdate]
    · simp only [Option.some.injEq, Prod.mk.injEq] at hrun
      rw [← hrun.2, hupdate]

theorem dequeue_tailOff {t : Option Addr}
    (hrun : Skiplist.dequeue_ int h s = some (h', s', t)) (k : ℕ) :
    (s'.level k).tailOff = (s.level k).tailOff := by
  rw [Skiplist.dequeue_] at hrun
  cases hhead : s.head with
  | none =>
    simp only [hhead, Option.some.injEq, Prod.mk.injEq] at hrun
    rw [← hrun.2.1]
  | some e =>
    simp only [hhead, Option.bind_eq_bind, Option.bind_eq_some_iff] at hrun
    obtain ⟨next, -, h₁, -, hrun⟩ := hrun
    split at hrun
    · rw [Option.bind_eq_some_iff] at hrun
      obtain ⟨⟨h₂, layers⟩, hdrop, hrun⟩ := hrun
      simp only [Option.some.injEq, Prod.mk.injEq] at hrun
      rw [← hrun.2.1]
      cases k with
      | zero => rfl
      | succ k => exact dropHeads_tailOff hdrop k
    · simp only [Option.some.injEq, Prod.mk.injEq] at hrun
      rw [← hrun.2.1]
      cases k <;> rfl

theorem dequeue_inRange {t : Option Addr}
    (hrun : Skiplist.dequeue_ int h s = some (h', s', t)) (hs : s.InRange) : s'.InRange := by
  have htail := dequeue_tailOff hrun
  exact ⟨(htail 0).trans_le hs.base, fun i ↦ (htail (i + 1)).trans_le (hs.layer i)⟩

theorem findLayer_inRange {n m : ℕ} {z z' : Skiplist.Scan}
    (hrun : Skiplist.findLayer int n z = some (m, z')) (hself : z.self.InRange)
    (hres : (z.res.getD {}).InRange) : z'.self.InRange ∧ (z'.res.getD {}).InRange := by
  induction n generalizing z with
  | zero =>
    simp only [Skiplist.findLayer, Option.some.injEq, Prod.mk.injEq] at hrun
    rw [← hrun.2]
    exact ⟨hself, hres⟩
  | succ i ih =>
    have hlayer := hself.layer i
    simp only [Skiplist.findLayer] at hrun
    split at hrun
    · simp only [Option.some.injEq, Prod.mk.injEq] at hrun
      rw [← hrun.2]
      exact ⟨hself, hres⟩
    · split at hrun
      · simp only [Option.bind_eq_bind, Option.bind_eq_some_iff] at hrun
        obtain ⟨nd, -, hrun⟩ := hrun
        generalize (if i = 0 then (z.self.head, int (z.self.tailOff - z.self.headOff))
          else ((z.self.layers (i - 1)).headNode,
            int ((z.self.layers (i - 1)).tailOff - (z.self.layers (i - 1)).headOff))) = next
          at hrun
        split at hrun
        · exact ih hrun (hself.setLayer i hlayer) (Skiplist.inRange_new.setLayer i hlayer)
        · rw [Option.bind_eq_some_iff] at hrun
          obtain ⟨heap, -, hrun⟩ := hrun
          exact ih hrun (hself.setLayer i hlayer) hres
      · exact ih hrun hself hres

theorem cutLayers_inRange (hint : IntType int) {n : ℕ} {h : Heap} {s r : Skiplist}
    {cur : Option Addr} {g : ℤ} (hrun : Skiplist.cutLayers int n h s r cur g = some (h', s', r'))
    (hs : s.InRange) (hr : r.InRange) : s'.InRange ∧ r'.InRange := by
  induction n generalizing h s r cur g with
  | zero =>
    simp only [Skiplist.cutLayers, Skiplist.cutBase, Option.bind_eq_bind, Option.bind_eq_some_iff,
      Option.some.injEq, Prod.mk.injEq] at hrun
    obtain ⟨next, -, h₁, -, -, rfl, rfl⟩ := hrun
    exact ⟨⟨hs.base, hs.layer⟩, ⟨hint.le_max _, hr.layer⟩⟩
  | succ i ih =>
    simp only [Skiplist.cutLayers, Option.bind_eq_bind, Option.bind_eq_some_iff] at hrun
    obtain ⟨nd, -, h₁, -, hrun⟩ := hrun
    exact ih hrun (hs.setLayer i (hs.layer i)) (hr.setLayer i (hint.le_max _))

/-- A cut keeps the upper ends of the list. The part in front of the cut ends where the rest
begins. -/
theorem cutLayers_tailOff {n : ℕ} {h : Heap} {s r : Skiplist} {cur : Option Addr} {g : ℤ}
    (hrun : Skiplist.cutLayers int n h s r cur g = some (h', s', r')) :
    (∀ k, (s'.level k).tailOff = (s.level k).tailOff) ∧
    (∀ k ≤ n, (r'.level k).tailOff = (s'.level k).headOff) ∧
    ∀ k, n < k → r'.level k = r.level k ∧ s'.level k = s.level k := by
  induction n generalizing h s r cur g with
  | zero =>
    simp only [Skiplist.cutLayers, Skiplist.cutBase, Option.bind_eq_bind, Option.bind_eq_some_iff,
      Option.some.injEq, Prod.mk.injEq] at hrun
    obtain ⟨next, -, h₁, -, -, rfl, rfl⟩ := hrun
    refine ⟨fun k ↦ by cases k <;> rfl, fun k hk ↦ ?_, fun k hk ↦ ?_⟩
    · rw [Nat.le_zero.mp hk]
      rfl
    · obtain ⟨k, rfl⟩ := Nat.exists_eq_add_one.mpr hk
      exact ⟨rfl, rfl⟩
  | succ i ih =>
    simp only [Skiplist.cutLayers, Option.bind_eq_bind, Option.bind_eq_some_iff] at hrun
    obtain ⟨nd, -, h₁, -, hrun⟩ := hrun
    obtain ⟨htail, hcut, habove⟩ := ih hrun
    simp only [Skiplist.level_setLayer] at htail habove
    refine ⟨fun k ↦ ?_, fun k hk ↦ ?_, fun k hk ↦ ?_⟩
    · rw [htail]
      by_cases hki : k = i + 1
      · rw [hki, Function.update_self]
        rfl
      · rw [Function.update_of_ne hki]
    · rcases Nat.lt_or_eq_of_le hk with hlt | rfl
      · exact hcut k (by omega)
      · obtain ⟨hr, hs⟩ := habove (i + 1) (Nat.lt_succ_self i)
        rw [hr, hs, Function.update_self, Function.update_self]
    · obtain ⟨hr, hs⟩ := habove k (by omega)
      rw [hr, hs, Function.update_of_ne (by omega), Function.update_of_ne (by omega)]
      exact ⟨rfl, rfl⟩

theorem FoundLevel.tailOff {m : ℕ} {z : Skiplist.Scan} (hfound : FoundLevel h s Λ m z) (k : ℕ) :
    (z.self.level k).tailOff = (s.level k).tailOff ∧
      (((z.res.getD {}).level k).tailOff = 0 ∨
        ((z.res.getD {}).level k).tailOff = (z.self.level k).headOff) := by
  cases hfound with
  | normal => exact ⟨rfl, Or.inl (by cases k <;> rfl)⟩
  | preserved =>
    simp only [Skiplist.level_setLayer, Option.getD_some]
    by_cases hk : k = m + 1
    · rw [hk, Function.update_self, Function.update_self]
      exact ⟨rfl, Or.inr rfl⟩
    · rw [Function.update_of_ne hk, Function.update_of_ne hk]
      exact ⟨rfl, Or.inl (by cases k <;> rfl)⟩
  | cleanuped =>
    simp only [Skiplist.level_setLayer]
    by_cases hk : k = m + 1
    · rw [hk, Function.update_self]
      exact ⟨rfl, Or.inl rfl⟩
    · rw [Function.update_of_ne hk]
      exact ⟨rfl, Or.inl (by cases k <;> rfl)⟩

/-- The levels of both lists are at the same positions. -/
def Skiplist.SameOffs (s t : Skiplist) : Prop :=
  ∀ k, (s.level k).tailOff = (t.level k).tailOff ∧ (s.level k).headOff = (t.level k).headOff

theorem Skiplist.SameOffs.setLayer {s : Skiplist} {i : ℕ} {L : Layer}
    (htail : L.tailOff = (s.layers i).tailOff) (hhead : L.headOff = (s.layers i).headOff) :
    (s.setLayer i L).SameOffs s := by
  intro k
  rw [Skiplist.level_setLayer]
  by_cases hk : k = i + 1
  · rw [hk, Function.update_self]
    exact ⟨htail, hhead⟩
  · rw [Function.update_of_ne hk]
    exact ⟨rfl, rfl⟩

/-- The end of `dequeue_half`: what it has done to candidates before does not matter. -/
theorem FoundLevel.cutLayers_tailOff {m n : ℕ} {z : Skiplist.Scan} (hfound : FoundLevel h s Λ m z)
    {h₁ : Heap} {s₁ r₁ : Skiplist} {cur : Option Addr} {g : ℤ}
    (hrun : Skiplist.cutLayers id n h₁ s₁ r₁ cur g = some (h', s', r')) (hself : s₁.SameOffs z.self)
    (hres : r₁.SameOffs (z.res.getD {})) (k : ℕ) :
    (s'.level k).tailOff = (s.level k).tailOff ∧
      ((r'.level k).tailOff = 0 ∨ (r'.level k).tailOff = (s'.level k).headOff) := by
  obtain ⟨hsame, hcut, habove⟩ := TYThread.cutLayers_tailOff hrun
  obtain ⟨htail, hend⟩ := hfound.tailOff k
  refine ⟨by rw [hsame, (hself k).1, htail], ?_⟩
  by_cases hk : k ≤ n
  · exact Or.inr (hcut k hk)
  · obtain ⟨hr, hs⟩ := habove k (by omega)
    rwa [hr, hs, (hres k).1, (hself k).2]

/-- **The upper ends after a split.** Those of the list stay, and what is given away ends where the
rest begins, if it has any cells. -/
theorem dequeueHalf_tailOff (hr : Rep h s.level Λ) {res : Option Skiplist}
    (hrun : Skiplist.dequeueHalf id h s = some (h', s', res)) (k : ℕ) :
    (s'.level k).tailOff = (s.level k).tailOff ∧
      ∀ t, res = some t → (t.level k).tailOff = 0 ∨ (t.level k).tailOff = (s'.level k).headOff := by
  obtain ⟨m, z, -, hz, hfound⟩ := findLayer_spec hr (Nat.le_refl NLayers) fun k hk hk' ↦ by omega
  simp only [Skiplist.dequeueHalf, hz, Option.bind_eq_bind, Option.bind_some] at hrun
  cases m with
  | zero =>
    simp only at hrun
    split at hrun
    · simp only [Option.some.injEq, Prod.mk.injEq] at hrun
      obtain ⟨-, rfl, rfl⟩ := hrun
      exact ⟨(hfound.tailOff k).1, fun t ht ↦ by simp at ht⟩
    · simp only [Option.bind_eq_some_iff, Option.some.injEq, Prod.mk.injEq] at hrun
      obtain ⟨last, -, ⟨h₁, s₁, r₁⟩, hcut, -, rfl, rfl⟩ := hrun
      obtain ⟨hself, hgiven⟩ := hfound.cutLayers_tailOff (n := 0) hcut
        (fun k ↦ by cases k <;> exact ⟨rfl, rfl⟩) (fun k ↦ by cases k <;> exact ⟨rfl, rfl⟩) k
      exact ⟨hself, fun t ht ↦ by rwa [← Option.some.inj ht]⟩
  | succ i =>
    simp only [Option.bind_eq_some_iff, Option.some.injEq, Prod.mk.injEq] at hrun
    obtain ⟨cur, -, ⟨h₁, s₁, r₁⟩, hcut, -, rfl, rfl⟩ := hrun
    obtain ⟨hself, hgiven⟩ := hfound.cutLayers_tailOff hcut (.setLayer rfl rfl)
      (.setLayer rfl rfl) k
    exact ⟨hself, fun t ht ↦ by rwa [← Option.some.inj ht]⟩

theorem dequeueHalf_inRange (hint : IntType int) {res : Option Skiplist}
    (hrun : Skiplist.dequeueHalf int h s = some (h', s', res)) (hs : s.InRange) :
    s'.InRange ∧ ∀ t, res = some t → t.InRange := by
  rw [Skiplist.dequeueHalf, Option.bind_eq_bind, Option.bind_eq_some_iff] at hrun
  obtain ⟨⟨n, z⟩, hfind, hrun⟩ := hrun
  obtain ⟨hself, hres⟩ := findLayer_inRange hfind hs Skiplist.inRange_new
  cases n with
  | zero =>
    simp only at hrun
    split at hrun
    · simp only [Option.some.injEq, Prod.mk.injEq] at hrun
      obtain ⟨-, rfl, rfl⟩ := hrun
      exact ⟨hself, fun t ht ↦ by simp at ht⟩
    · simp only [Option.bind_eq_bind, Option.bind_eq_some_iff, Option.some.injEq, Prod.mk.injEq]
        at hrun
      obtain ⟨last, -, ⟨h₁, s₁, r₁⟩, hcut, -, rfl, rfl⟩ := hrun
      obtain ⟨hs', hr'⟩ := cutLayers_inRange (n := 0) hint hcut ⟨hself.base, hself.layer⟩
        ⟨hres.base, hres.layer⟩
      exact ⟨hs', fun t ht ↦ by rwa [← Option.some.inj ht]⟩
  | succ i =>
    simp only [Option.bind_eq_bind, Option.bind_eq_some_iff, Option.some.injEq, Prod.mk.injEq]
      at hrun
    obtain ⟨cur, -, ⟨h₁, s₁, r₁⟩, hcut, -, rfl, rfl⟩ := hrun
    obtain ⟨hs', hr'⟩ := cutLayers_inRange hint hcut (hself.setLayer i (hself.layer i))
      (hres.setLayer i (hres.layer i))
    exact ⟨hs', fun t ht ↦ by rwa [← Option.some.inj ht]⟩

theorem moveLayers_inRange {n : ℕ} {p p' : Skiplist}
    (hrun : Skiplist.moveLayers n h s p = some (h', s', p')) (hs : s.InRange) (hp : p.InRange) :
    s'.InRange ∧ p'.InRange := by
  induction n generalizing h' s' p' with
  | zero =>
    simp only [Skiplist.moveLayers, Option.some.injEq, Prod.mk.injEq] at hrun
    obtain ⟨-, rfl, rfl⟩ := hrun
    exact ⟨hs, hp⟩
  | succ i ih =>
    simp only [Skiplist.moveLayers, Option.bind_eq_bind, Option.bind_eq_some_iff,
      Option.some.injEq, Prod.mk.injEq] at hrun
    obtain ⟨⟨h₁, s₁, p₁⟩, hmove, h₂, -, -, rfl, rfl⟩ := hrun
    obtain ⟨hs₁, hp₁⟩ := ih hmove
    exact ⟨hs₁.setLayer i (hp₁.layer i), hp₁.setLayer i (hp₁.layer i)⟩

theorem replace_inRange {p p' : Skiplist}
    (hrun : Skiplist.replace h s p = some (h', s', p')) (hs : s.InRange) (hp : p.InRange) :
    s'.InRange ∧ p'.InRange := by
  simp only [Skiplist.replace, Option.bind_eq_bind, Option.bind_eq_some_iff, Option.some.injEq,
    Prod.mk.injEq] at hrun
  obtain ⟨⟨h₁, s₁, p₁⟩, hmove, -, rfl, rfl⟩ := hrun
  obtain ⟨hs₁, hp₁⟩ := moveLayers_inRange hmove hs hp
  exact ⟨⟨hp₁.base, hs₁.layer⟩, ⟨(by decide : (0 : ℤ) ≤ intMax), hp₁.layer⟩⟩

end

end

end TYThread
