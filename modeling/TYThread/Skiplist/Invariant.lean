import Mathlib.Data.Set.Basic
import TYThread.Library.LinkedList
import TYThread.Skiplist.Model

/-!
# The representation invariant of the skip list

The elements of a list and the layers above them form `NLayers + 1` levels of the same shape. Level
`0` is the base list and level `i + 1` is `layers[i]`. A `Layout` gives every cell of every level
the position at which it was added, and positions never change: an enqueue raises the upper end of a
level, a dequeue its lower end, and a split cuts the intervals.

## What ties two levels together

Write `lo` and `hi` for two consecutive levels. The node at position `p` of `hi` stands for the
block of the `64` positions of `lo` from `64 * p + δ` on, for a constant `δ` divisible by `64`. So
`64 * hi.headOff + δ` is the first block start that is still in `lo`, and `64 * hi.tailOff + δ` is
the start of the next block to be completed. `Joint` says that and that the candidate of `lo` is the
first item of that incomplete block. In this form the invariant is linear in the offsets, and each
operation changes a few of them by one.
-/

namespace TYThread

open LinkedList

theorem remGap_of_nonneg {n : ℤ} (h : 0 ≤ n) : remGap n = n % 64 :=
  Int.tmod_eq_emod_of_nonneg h

/-! ## Levels -/

/-- The levels of a list with base level `base`. -/
def levels (base : Layer) (layers : ℕ → Layer) : ℕ → Layer
  | 0 => base
  | i + 1 => layers i

/-- The layers above the base level. -/
def upper (lv : ℕ → Layer) : ℕ → Layer := fun i ↦ lv (i + 1)

@[simp] theorem upper_apply (lv : ℕ → Layer) (i : ℕ) : upper lv i = lv (i + 1) := rfl

theorem update_upper (lv : ℕ → Layer) (i : ℕ) (L : Layer) :
    Function.update (upper lv) i L = upper (Function.update lv (i + 1) L) := by
  funext j
  by_cases hj : j = i
  · subst hj
    simp
  · simp [hj]

/-- The base list seen as a layer. -/
def Skiplist.base (s : Skiplist) : Layer where
  headOff := s.headOff
  tailOff := s.tailOff
  headNode := s.head
  tailNode := s.tail
  candidate := s.candidate

def Skiplist.level (s : Skiplist) : ℕ → Layer := levels s.base s.layers

@[simp] theorem Skiplist.level_zero (s : Skiplist) : s.level 0 = s.base := rfl
@[simp] theorem Skiplist.level_succ (s : Skiplist) (i : ℕ) : s.level (i + 1) = s.layers i := rfl
@[simp] theorem Skiplist.upper_level (s : Skiplist) : upper s.level = s.layers := rfl

/-- `p` is a position of the level. -/
def Layer.Has (L : Layer) (p : ℤ) : Prop := L.headOff ≤ p ∧ p < L.tailOff

/-- The pointers and offsets of one level: `headNode` and `tailNode` are its first and last cell. -/
structure LevelOk (L : Layer) (cell : ℤ → Addr) : Prop where
  nonneg : 0 ≤ L.headOff
  le : L.headOff ≤ L.tailOff
  head : L.headNode = firstCell cell L.headOff L.tailOff
  tail : L.headOff < L.tailOff → L.tailNode = some (cell (L.tailOff - 1))
  distinct : DistinctCells cell L.headOff L.tailOff

/-! ## Two consecutive levels -/

/-- The positions of the nodes of `hi` against those of the items of `lo`. -/
structure Aligned (lo hi : Layer) (δ : ℤ) : Prop where
  dvd : δ % 64 = 0
  le_start : lo.headOff ≤ 64 * hi.headOff + δ
  start_lt : 64 * hi.headOff + δ < lo.headOff + 64
  full : hi.headOff = hi.tailOff ∨ 64 * hi.tailOff + δ ≤ lo.tailOff

/-- Every complete block of `lo` has its node in `hi`, and the candidate is the first item of the
incomplete block. -/
structure Joint (lo hi : Layer) (cell : ℤ → Addr) (δ : ℤ) : Prop extends Aligned lo hi δ where
  rest : lo.tailOff < 64 * hi.tailOff + δ + 64
  cand : lo.candidate = firstCell cell (64 * hi.tailOff + δ) lo.tailOff

/-- The last block of `lo` has just been completed and `hi` still lacks its node. -/
structure Pending (lo hi : Layer) (cell : ℤ → Addr) (δ : ℤ) (cur last : Option Addr) : Prop
    extends Aligned lo hi δ where
  complete : lo.tailOff = 64 * hi.tailOff + δ + 64
  cand : lo.candidate = none
  cur : cur = some (cell (64 * hi.tailOff + δ))
  last : last = some (cell (64 * hi.tailOff + δ + 63))

/-- The candidate of the top level, which no level is built on: if there is one, it is the first
item of the incomplete block. -/
def TopCandidate (L : Layer) (cell : ℤ → Addr) : Prop :=
  L.candidate = none ∨
    ∃ c, c % 64 = 0 ∧ L.headOff ≤ c ∧ c < L.tailOff ∧ L.tailOff < c + 64 ∧
      L.candidate = some (cell c)

/-! ## The whole list -/

/-- Where the cells of a list are: `cell k p` is the cell at position `p` of level `k`, and the node
at position `p` of level `k + 1` stands for the block of level `k` that starts at
`64 * p + shift k`. -/
structure Layout where
  cell : ℕ → ℤ → Addr
  shift : ℕ → ℤ

/-- The contents of the node at position `p` of level `k + 1`. -/
def Layout.nodeAt (Λ : Layout) (lv : ℕ → Layer) (k : ℕ) (p : ℤ) : SkipNode where
  downNode := some (Λ.cell k (64 * p + Λ.shift k))
  lastDownNode := some (Λ.cell k (64 * p + Λ.shift k + 63))
  nextNode := firstCell (Λ.cell (k + 1)) (p + 1) (lv (k + 1)).tailOff

/-- The skip nodes of a list: they hold what the layout says, and all are different. -/
structure NodesOk (h : Heap) (lv : ℕ → Layer) (Λ : Layout) : Prop where
  level : ∀ k ≤ NLayers, LevelOk (lv k) (Λ.cell k)
  node : ∀ k < NLayers, ∀ p, (lv (k + 1)).Has p →
    h.node (Λ.cell (k + 1) p) = some (Λ.nodeAt lv k p)
  disjoint : ∀ j < NLayers, ∀ k < NLayers, ∀ p q, (lv (j + 1)).Has p → (lv (k + 1)).Has q →
    Λ.cell (j + 1) p = Λ.cell (k + 1) q → j = k
  lt_brk : ∀ k < NLayers, ∀ p, (lv (k + 1)).Has p → Λ.cell (k + 1) p < h.brk

/-- The links of the elements of a list. -/
def ElemsOk (h : Heap) (base : Layer) (cell : ℤ → Addr) : Prop :=
  Segment h.nextOf cell base.headOff base.tailOff

/-- The levels below the top one are joined to the next one, except for the one given. -/
def JointsExcept (lv : ℕ → Layer) (Λ : Layout) (i : ℕ) : Prop :=
  ∀ k < NLayers, k ≠ i → Joint (lv k) (lv (k + 1)) (Λ.cell k) (Λ.shift k)

def Joints (lv : ℕ → Layer) (Λ : Layout) : Prop :=
  ∀ k < NLayers, Joint (lv k) (lv (k + 1)) (Λ.cell k) (Λ.shift k)

/-- **The representation invariant**: the heap `h` holds the list with levels `lv`, laid out
as `Λ`. -/
structure Rep (h : Heap) (lv : ℕ → Layer) (Λ : Layout) : Prop where
  nodes : NodesOk h lv Λ
  elems : ElemsOk h (lv 0) (Λ.cell 0)
  joints : Joints lv Λ
  top : TopCandidate (lv NLayers) (Λ.cell NLayers)

/-- The skip nodes of a list. -/
def nodeCells (lv : ℕ → Layer) (Λ : Layout) : Set Addr :=
  {a | ∃ k < NLayers, ∃ p, (lv (k + 1)).Has p ∧ Λ.cell (k + 1) p = a}

/-- The elements of a list, first to last. -/
def elemCells (lv : ℕ → Layer) (Λ : Layout) : List Addr :=
  cells (Λ.cell 0) (lv 0).headOff (lv 0).tailOff

end TYThread
