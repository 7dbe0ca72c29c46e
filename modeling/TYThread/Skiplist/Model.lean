import TYThread.Memory

/-!
# The skip list of `Skiplist.hh`

A `Skiplist` is an intrusive queue of elements with `NLayers` layers of skip nodes above it. A node
of `layers[0]` stands for `SkipGap` consecutive elements, a node of `layers[i + 1]` for `SkipGap`
consecutive nodes of `layers[i]`. The layers exist for one operation only, `dequeue_half`: it
finds the middle of the queue by walking the highest layer with two nodes and then follows
`lastDownNode` links to the ground.

Every function below is the body of the method of the same name with its lock taken. The parameter
`int` says what an `int` variable holds after an assignment: the identity when offsets are taken as
unbounded integers, reduction to 32 bits for the declared type.

`layers` is the `std::array<Layer, NLayers>`; only the indices below `NLayers` are ever used. A loop
over the layers is a recursion on the number of layers that are left.
-/

namespace TYThread

/-- The template argument `SkipGap`. -/
abbrev SkipGap : ℤ := 64

/-- The template argument `NLayers`. -/
def NLayers : ℕ := 4

/-- `n % SkipGap` on `int`s, which truncates towards zero. -/
def remGap (n : ℤ) : ℤ := n.tmod SkipGap

structure Layer where
  headOff : ℤ := 0
  tailOff : ℤ := 0
  headNode : Option Addr := none
  tailNode : Option Addr := none
  candidate : Option Addr := none
deriving DecidableEq, Repr

namespace Layer

/-- `cleanup`, apart from the destruction of the nodes. -/
def cleanup (L : Layer) : Layer :=
  { L with headOff := L.tailOff, headNode := none, tailNode := none, candidate := none }

/-- What `_handleMove` leaves in the layer it moved from. The layer it moves to becomes a copy of
the source, after its own nodes have been destroyed. -/
def movedFrom (L : Layer) : Layer :=
  { L with headOff := L.tailOff, headNode := none, tailNode := none, candidate := none }

end Layer

structure Skiplist where
  layers : ℕ → Layer := fun _ ↦ {}
  head : Option Addr := none
  tail : Option Addr := none
  candidate : Option Addr := none
  headOff : ℤ := 0
  tailOff : ℤ := 0

/-- `ROUND_DOWN_IF_NOT_MULLIPLE(n, SkipGap)`. -/
def roundDownIfNotMultiple (n : ℤ) : ℤ := if remGap n = 0 then -1 else n - remGap n

namespace Skiplist

variable (int : ℤ → ℤ)

def setLayer (s : Skiplist) (i : ℕ) (L : Layer) : Skiplist :=
  { s with layers := Function.update s.layers i L }

/-! ## `enqueue` -/

/-- The start of the loop body of `_update_after_enque`: a new node over the items from `cur` to
`last` is added behind the tail of the layer. The result holds the address of the node. -/
def appendNode (h : Heap) (L : Layer) (cur last : Option Addr) : Option (Heap × Layer × Addr) := do
  let (h, new) := h.newNode
  let (h, L) ←
    if L.headNode = none then
      some (h, { L with headNode := some new, tailNode := some new })
    else do
      let h ← h.setNextNode L.tailNode (some new)
      some (h, { L with tailNode := some new })
  let h := h.setNode new (some { downNode := cur, lastDownNode := last })
  some (h, { L with tailOff := int (L.tailOff + 1) }, new)

/-- The loop of `_update_after_enque` from layer `i` on, with `n` layers left: a new node is going
to be added at this layer. -/
def addNodes : ℕ → ℕ → Heap → (ℕ → Layer) → Option Addr → Option Addr →
    Option (Heap × (ℕ → Layer))
  | 0, _, h, layers, _, _ => some (h, layers)
  | n + 1, i, h, layers, cur, last => do
    let (h, thisLayer, new) ← appendNode int h (layers i) cur last
    if thisLayer.candidate ≠ none ∧ remGap thisLayer.tailOff = 0 then
      -- to upper layer
      addNodes n (i + 1) h (Function.update layers i { thisLayer with candidate := none })
        thisLayer.candidate (some new)
    else if remGap thisLayer.tailOff = 1 then
      some (h, Function.update layers i { thisLayer with candidate := some new })
    else
      some (h, Function.update layers i thisLayer)

/-- `_update_after_enque`. -/
def updateAfterEnque (h : Heap) (s : Skiplist) : Option (Heap × Skiplist) := do
  let s := { s with tailOff := int (s.tailOff + 1) }
  if s.candidate ≠ none ∧ remGap s.tailOff = 0 then
    let (h, layers) ← addNodes int NLayers 0 h s.layers s.candidate s.tail
    some (h, { s with candidate := none, layers })
  else if remGap s.tailOff = 1 then
    some (h, { s with candidate := s.tail })
  else
    some (h, s)

/-- The lines both overloads of `enqueue` begin with: link `ptr` behind the tail. -/
def linkTail (h : Heap) (s : Skiplist) (ptr : Option Addr) : Option (Heap × Skiplist) := do
  if s.head ≠ none then
    let h ← h.setNext s.tail ptr
    let h ← h.setNext ptr none
    some (h, { s with tail := ptr })
  else
    let h ← h.setNext ptr none
    some (h, { s with head := ptr, tail := ptr })

/-- `enqueue(DerivedRefPtr<T> const &ptr)`, given `ptr.get()`. -/
def enqueueCopy (h : Heap) (s : Skiplist) (ptr : Option Addr) : Option (Heap × Skiplist) := do
  let (h, s) ← linkTail h s ptr
  let h ← increase h s.tail
  updateAfterEnque int h s

/-- `enqueue(DerivedRefPtr<T> &&ptr)`, given `ptr.get()`. The caller's handle is null afterwards. -/
def enqueueMove (h : Heap) (s : Skiplist) (ptr : Option Addr) : Option (Heap × Skiplist) := do
  let (h, s) ← linkTail h s ptr
  updateAfterEnque int h s

/-! ## `dequeue` -/

/-- The start of the loop body of `dequeue_`: delete the head node of the layer. -/
def dropHead (h : Heap) (L : Layer) : Option (Heap × Layer) := do
  let candidate := if L.headNode = L.candidate then none else L.candidate
  let oldHead ← L.headNode
  let nd ← h.node oldHead
  some (h.setNode oldHead none,
    { L with candidate, headNode := nd.nextNode, headOff := int (L.headOff + 1) })

/-- The loop of `dequeue_` from layer `i` on, with `n` layers left: delete the head node at this
layer. -/
def dropHeads : ℕ → ℕ → Heap → (ℕ → Layer) → Option (Heap × (ℕ → Layer))
  | 0, _, h, layers => some (h, layers)
  | n + 1, i, h, layers => do
    let (h, thisLayer) ← dropHead int h (layers i)
    let layers := Function.update layers i thisLayer
    if remGap thisLayer.headOff = 1 ∧ 1 ≤ n ∧ (layers (i + 1)).headNode ≠ none then
      dropHeads n (i + 1) h layers
    else
      some (h, layers)

/-- `dequeue_`: the heap and the list afterwards, and the pointer in the returned handle. -/
def dequeue_ (h : Heap) (s : Skiplist) : Option (Heap × Skiplist × Option Addr) := do
  match s.head with
  | none => some (h, s, none)
  | some t =>
    let next ← h.next (some t)
    let h ← h.setNext (some t) none
    let candidate := if s.candidate = some t then none else s.candidate
    let s := { s with head := next, candidate, headOff := int (s.headOff + 1) }
    if remGap s.headOff = 1 ∧ (s.layers 0).headNode ≠ none then
      let (h, layers) ← dropHeads int NLayers 0 h s.layers
      some (h, { s with layers }, some t)
    else
      some (h, s, some t)

/-! ## `dequeue_half_` -/

/-- `for ( int i = 0; i < toGiveAway; ++i ) res->enqueue(dequeue_())`. -/
def giveAway : ℕ → Heap → Skiplist → Skiplist → Option (Heap × Skiplist × Skiplist)
  | 0, h, s, res => some (h, s, res)
  | n + 1, h, s, res => do
    let (h, s, t) ← dequeue_ int h s
    let (h, res) ← enqueueMove int h res t
    giveAway n h s res

/-- `dequeue_half_`: the list afterwards and the result, `none` being `nullptr`. -/
def dequeueHalf_ (h : Heap) (s : Skiplist) : Option (Heap × Skiplist × Option Skiplist) := do
  if s.head = none then
    some (h, s, none)
  else
    let toGiveAway := (int (s.tailOff - s.headOff + 1)).tdiv 2
    let (h, s, res) ← giveAway int toGiveAway.toNat h s {}
    some (h, s, some res)

/-! ## `dequeue_half` -/

inductive UpperState
  | upperCleanuped
  | singleNodePreserved
  | normal
deriving DecidableEq, Repr

/-- The local variables of the first loop of `dequeue_half`. -/
structure Scan where
  heap : Heap
  self : Skiplist
  res : Option Skiplist := none
  upperState : UpperState := .normal
  thatDownNode : Option Addr := none

/-- The loop that looks for the layer to split, with `n` layers still to look at. The result `n` is
`layerToSplit + 1`. -/
def findLayer : ℕ → Scan → Option (ℕ × Scan)
  | 0, z => some (0, z)
  | i + 1, z => do
    let L := z.self.layers i
    let sz := int (L.tailOff - L.headOff)
    if sz > 1 then
      some (i + 1, z)
    else if sz = 1 then
      let (downHead, nextCount) :=
        if i = 0 then (z.self.head, int (z.self.tailOff - z.self.headOff))
        else ((z.self.layers (i - 1)).headNode,
          int ((z.self.layers (i - 1)).tailOff - (z.self.layers (i - 1)).headOff))
      let nd ← z.heap.readNode L.headNode
      if nd.downNode = downHead ∧ nextCount = 2 * SkipGap - 1 then
        findLayer i { z with
          res := some (({} : Skiplist).setLayer i L)
          self := z.self.setLayer i L.movedFrom
          upperState := .singleNodePreserved }
      else
        let heap ← z.heap.freeChain z.heap.brk L.headNode
        findLayer i { z with
          heap
          thatDownNode := nd.downNode
          self := z.self.setLayer i L.cleanup
          upperState := .upperCleanuped }
    else
      findLayer i z

/-- `for ( int i = 0; i < n; i++ ) p = p->nextNode.get()`. -/
def walkNodes (h : Heap) : ℕ → Option Addr → Option (Option Addr)
  | 0, p => some p
  | n + 1, p => do
    let nd ← h.readNode p
    walkNodes h n nd.nextNode

/-- `for ( int i = 0; i < n; i++ ) p = p->next`. -/
def walkElems (h : Heap) : ℕ → Option Addr → Option (Option Addr)
  | 0, p => some p
  | n + 1, p => do
    let p ← h.next p
    walkElems h n p

/-- Cut the elements behind `last`: the common end of both branches of `dequeue_half`. -/
def cutBase (h : Heap) (s res : Skiplist) (last : Option Addr) (toGiveAway : ℤ) :
    Option (Heap × Skiplist × Skiplist) := do
  let next ← h.next last
  let h ← h.setNext last none
  let cut := int (s.headOff + toGiveAway)
  some (h, { s with head := next, headOff := cut },
    { res with head := s.head, tail := last, headOff := s.headOff, tailOff := cut })

/-- The loop that cuts the layers from layer `n - 1` down and then the elements. `cur` is the last
node to give away at this layer and `toGiveAwayCurLayer` the number of its nodes to give away. -/
def cutLayers : ℕ → Heap → Skiplist → Skiplist → Option Addr → ℤ →
    Option (Heap × Skiplist × Skiplist)
  | 0, h, s, res, cur, toGiveAwayCurLayer => cutBase int h s res cur toGiveAwayCurLayer
  | i + 1, h, s, res, cur, toGiveAwayCurLayer => do
    let nd ← h.readNode cur
    let h ← h.setNextNode cur none
    let tmpHeadOff := if i ≠ 0 then (s.layers (i - 1)).headOff else s.headOff
    let toGiveAwayNextLayer :=
      int (int ((1 + toGiveAwayCurLayer) * SkipGap) - remGap (int (tmpHeadOff + SkipGap - 1)) - 1)
    let L := s.layers i
    let cut := int (L.headOff + toGiveAwayCurLayer)
    let res := res.setLayer i { res.layers i with
      headNode := L.headNode, tailNode := cur, headOff := L.headOff, tailOff := cut }
    let s := s.setLayer i { L with headNode := nd.nextNode, headOff := cut }
    cutLayers i h s res nd.lastDownNode toGiveAwayNextLayer

/-- What `dequeue_half` does with the candidate of the level it splits: it is given away when it
stands for the upper node that was dissolved, and when it lies before the cut. -/
def stealCandidate (upperState : UpperState) (thatDownNode candidate : Option Addr)
    (headOff tailOff toGiveAway : ℤ) : Option Addr × Option Addr :=
  match upperState with
  | .upperCleanuped => (candidate, thatDownNode)
  | .normal =>
    let candpos := roundDownIfNotMultiple tailOff
    if candpos ≠ -1 ∧ headOff ≤ candpos ∧ headOff + toGiveAway > candpos then (none, candidate)
    else (candidate, none)
  | .singleNodePreserved => (candidate, none)

/-- `dequeue_half`: the list afterwards and the result, `none` being `nullptr`. -/
def dequeueHalf (h : Heap) (s : Skiplist) : Option (Heap × Skiplist × Option Skiplist) := do
  let (n, z) ← findLayer int NLayers { heap := h, self := s }
  match n with
  | i + 1 =>
    let s := z.self
    let res := z.res.getD {}
    let L := s.layers i
    let toGiveAway := (int (L.tailOff - L.headOff + 1)).tdiv 2
    let (candidate, stolen) := stealCandidate z.upperState z.thatDownNode L.candidate
      L.headOff L.tailOff toGiveAway
    let s := s.setLayer i { L with candidate }
    let res := res.setLayer i { res.layers i with candidate := stolen }
    let cur ← walkNodes z.heap (toGiveAway - 1).toNat L.headNode
    let (h, s, res) ← cutLayers int (i + 1) z.heap s res cur toGiveAway
    some (h, s, some res)
  | 0 =>
    let s := z.self
    let toGiveAway := (int (s.tailOff - s.headOff + 1)).tdiv 2
    if toGiveAway = 0 then
      some (z.heap, s, none)
    else
      let res := z.res.getD {}
      let (candidate, stolen) := stealCandidate z.upperState z.thatDownNode s.candidate
        s.headOff s.tailOff toGiveAway
      let s := { s with candidate }
      let res := { res with candidate := stolen }
      let last ← walkElems z.heap (toGiveAway - 1).toNat s.head
      let (h, s, res) ← cutBase int z.heap s res last toGiveAway
      some (h, s, some res)

/-! ## `replace`, `size` -/

/-- `layers = std::move(ptr->layers)`: element by element, the nodes of the old layers being
destroyed. -/
def moveLayers : ℕ → Heap → Skiplist → Skiplist → Option (Heap × Skiplist × Skiplist)
  | 0, h, s, p => some (h, s, p)
  | i + 1, h, s, p => do
    let (h, s, p) ← moveLayers i h s p
    let h ← h.freeChain h.brk (s.layers i).headNode
    some (h, s.setLayer i (p.layers i), p.setLayer i (p.layers i).movedFrom)

/-- `replace`: the list afterwards, and the list it was replaced by, now empty. -/
def replace (h : Heap) (s p : Skiplist) : Option (Heap × Skiplist × Skiplist) := do
  let (h, s, p) ← moveLayers NLayers h s p
  some (h,
    { s with head := p.head, tail := p.tail, candidate := p.candidate,
             headOff := p.headOff, tailOff := p.tailOff },
    { p with head := none, tail := none, candidate := none, headOff := 0, tailOff := 0 })

/-- `size`. -/
def size (s : Skiplist) : ℤ := s.tailOff - s.headOff

/-! ## The destructor -/

/-- The loop of `~Skiplist`: drop the reference to the element, and then read its link. The fuel
bounds the number of elements. -/
def dropElems : ℕ → Heap → Option Addr → Option Heap
  | _, h, none => some h
  | 0, _, some _ => none
  | fuel + 1, h, some a => do
    let h ← decrease h (some a)
    let next ← h.next (some a)
    dropElems fuel h next

/-- The destructor of the array `layers`: the last layer goes first. -/
def freeLayers : ℕ → Heap → (ℕ → Layer) → Option Heap
  | 0, h, _ => some h
  | i + 1, h, layers => do
    let h ← h.freeChain h.brk (layers i).headNode
    freeLayers i h layers

/-- `~Skiplist`, and what the members do after its body. The `decrease(head)` behind the loop is one
of a null pointer. -/
def destructor (fuel : ℕ) (h : Heap) (s : Skiplist) : Option Heap := do
  let h ← dropElems fuel h s.head
  freeLayers NLayers h s.layers

end Skiplist

end TYThread
