import Mathlib.Algebra.Group.Nat.Defs
import Mathlib.Data.Int.Notation
import Mathlib.Data.Nat.Notation
import Mathlib.Logic.Function.Basic

/-!
# Memory: reference-counted objects and skip nodes

The queue is intrusive. An element carries its own link (`Linkable`) and its own reference counter
(`RefCounted`), while the skip nodes above the elements are separate allocations owned by
`unique_ptr`s. Both live in one `Heap`.

## Undefined behaviour

A pointer is an `Option Addr`, with `none` for `nullptr`. Reading or writing through a null pointer,
through a deleted object or through a freed node has no result: every function that follows a
pointer returns an `Option`, and `none` means that the program has left defined behaviour. A theorem
that gives the result of an operation therefore also says that it dereferences only live memory.

## Allocation

`make_unique<SkipNode>` returns an address no node has had before (`brk` counts up). Objects are
allocated by the client, at any address that holds no live object.
-/

namespace TYThread

/-- The address of an object or of a skip node. Objects and nodes have different types and are
never confused with one another, so each has an address space of its own. -/
abbrev Addr := ℕ

/-- What the queue and the reference pointers use of a `T`: the counter of `RefCounted` and the link
of `Linkable`. -/
structure Obj where
  /-- `counter__`, an `atomic<unsigned int>`. -/
  counter : ℕ
  next : Option Addr
deriving DecidableEq, Repr

structure SkipNode where
  downNode : Option Addr := none
  lastDownNode : Option Addr := none
  nextNode : Option Addr := none
deriving DecidableEq, Repr

structure Heap where
  /-- The live objects. -/
  obj : Addr → Option Obj
  /-- The live skip nodes. -/
  node : Addr → Option SkipNode
  /-- Every node address from here on is still unused. -/
  brk : Addr
  /-- The calls of `delete` so far, the last one first. -/
  deleted : List Addr

namespace Heap

/-- A heap with nothing in it. -/
def empty : Heap where
  obj := fun _ ↦ none
  node := fun _ ↦ none
  brk := 0
  deleted := []

def setObj (h : Heap) (a : Addr) (o : Option Obj) : Heap :=
  { h with obj := Function.update h.obj a o }

def setNode (h : Heap) (a : Addr) (nd : Option SkipNode) : Heap :=
  { h with node := Function.update h.node a nd }

section
variable (h : Heap) (a : Addr) (o : Option Obj) (nd : Option SkipNode)

@[simp] theorem setObj_obj : (h.setObj a o).obj = Function.update h.obj a o := rfl
@[simp] theorem setObj_node : (h.setObj a o).node = h.node := rfl
@[simp] theorem setObj_brk : (h.setObj a o).brk = h.brk := rfl
@[simp] theorem setObj_deleted : (h.setObj a o).deleted = h.deleted := rfl
@[simp] theorem setNode_obj : (h.setNode a nd).obj = h.obj := rfl
@[simp] theorem setNode_node : (h.setNode a nd).node = Function.update h.node a nd := rfl
@[simp] theorem setNode_brk : (h.setNode a nd).brk = h.brk := rfl
@[simp] theorem setNode_deleted : (h.setNode a nd).deleted = h.deleted := rfl

end

/-- The link of a live object. -/
def nextOf (h : Heap) (a : Addr) : Option (Option Addr) := (h.obj a).map Obj.next

/-- The counter of a live object. -/
def counterOf (h : Heap) (a : Addr) : Option ℕ := (h.obj a).map Obj.counter

theorem nextOf_congr {h h' : Heap} (hobj : h'.obj = h.obj) : h'.nextOf = h.nextOf := by
  funext a
  rw [nextOf, nextOf, hobj]

theorem counterOf_congr {h h' : Heap} (hobj : h'.obj = h.obj) : h'.counterOf = h.counterOf := by
  funext a
  rw [counterOf, counterOf, hobj]

/-- The heaps hold the same skip nodes, and nothing has been deleted. -/
structure SameNodes (h h' : Heap) : Prop where
  node : h'.node = h.node
  brk : h'.brk = h.brk
  deleted : h'.deleted = h.deleted

theorem SameNodes.trans {h₁ h₂ h₃ : Heap} (h₁₂ : SameNodes h₁ h₂) (h₂₃ : SameNodes h₂ h₃) :
    SameNodes h₁ h₃ :=
  ⟨h₂₃.node.trans h₁₂.node, h₂₃.brk.trans h₁₂.brk, h₂₃.deleted.trans h₁₂.deleted⟩

/-- `p->next`. -/
def next (h : Heap) (p : Option Addr) : Option (Option Addr) := do
  let a ← p
  let o ← h.obj a
  return o.next

/-- `p->next = q`. -/
def setNext (h : Heap) (p q : Option Addr) : Option Heap := do
  let a ← p
  let o ← h.obj a
  return h.setObj a (some { o with next := q })

theorem next_eq (h : Heap) (a : Addr) : h.next (some a) = h.nextOf a := by
  cases ho : h.obj a <;> simp [next, nextOf, ho]

/-- Writing the link of a live object changes this link and nothing else. -/
theorem setNext_spec {h : Heap} {a : Addr} {q₀ : Option Addr} (hlive : h.nextOf a = some q₀)
    (q : Option Addr) : ∃ h', h.setNext (some a) q = some h' ∧ SameNodes h h' ∧
      h'.counterOf = h.counterOf ∧ h'.nextOf = Function.update h.nextOf a (some q) := by
  cases ho : h.obj a with
  | none => simp [nextOf, ho] at hlive
  | some o =>
    refine ⟨h.setObj a (some { o with next := q }), by simp [setNext, ho], ⟨rfl, rfl, rfl⟩, ?_, ?_⟩
    all_goals
      funext x
      by_cases hx : x = a
      · subst hx
        simp [nextOf, counterOf, ho]
      · simp [nextOf, counterOf, hx]

/-- `*p` for a skip node. -/
def readNode (h : Heap) (p : Option Addr) : Option SkipNode := do
  let a ← p
  h.node a

/-- `p->nextNode = q`, where `p->nextNode` was null. -/
def setNextNode (h : Heap) (p q : Option Addr) : Option Heap := do
  let a ← p
  let nd ← h.node a
  return h.setNode a (some { nd with nextNode := q })

/-- `make_unique<SkipNode>()`: the heap with the new node, and its address. -/
def newNode (h : Heap) : Heap × Addr :=
  ({ h with node := Function.update h.node h.brk (some {}), brk := h.brk + 1 }, h.brk)

/-- The destructor of a `unique_ptr<SkipNode>`: it frees the node and, through `nextNode`, the
nodes behind it. A chain has fewer nodes than have ever been allocated, which bounds the recursion
when the caller passes `h.brk`. -/
def freeChain : ℕ → Heap → Option Addr → Option Heap
  | _, h, none => some h
  | 0, _, some _ => none
  | fuel + 1, h, some a => do
    let nd ← h.node a
    freeChain fuel (h.setNode a none) nd.nextNode

@[simp] theorem freeChain_none (fuel : ℕ) (h : Heap) : freeChain fuel h none = some h := by
  cases fuel <;> rfl

end Heap

/-! ## `DerivedRefPtr::increase` and `DerivedRefPtr::decrease` -/

/-- The number of values of an `unsigned int`. -/
def unsignedRange : ℕ := 2 ^ 32

/-- `if ( ptr ) ++ptr->counter__`. -/
def increase (h : Heap) : Option Addr → Option Heap
  | none => some h
  | some a => do
    let o ← h.obj a
    return h.setObj a (some { o with counter := (o.counter + 1) % unsignedRange })

theorem increase_spec {h : Heap} {a : Addr} {c : ℕ} (hlive : h.counterOf a = some c) :
    ∃ h', increase h (some a) = some h' ∧ Heap.SameNodes h h' ∧ h'.nextOf = h.nextOf ∧
      h'.counterOf = Function.update h.counterOf a (some ((c + 1) % unsignedRange)) := by
  cases ho : h.obj a with
  | none => simp [Heap.counterOf, ho] at hlive
  | some o =>
    obtain rfl : o.counter = c := by simpa [Heap.counterOf, ho] using hlive
    refine ⟨h.setObj a (some { o with counter := (o.counter + 1) % unsignedRange }),
      by simp [increase, ho], ⟨rfl, rfl, rfl⟩, ?_, ?_⟩
    all_goals
      funext x
      by_cases hx : x = a
      · subst hx
        simp [Heap.nextOf, Heap.counterOf, ho]
      · simp [Heap.nextOf, Heap.counterOf, hx]

/-- `delete ptr`. -/
def deleteObj (h : Heap) (a : Addr) : Heap :=
  { h with obj := Function.update h.obj a none, deleted := a :: h.deleted }

@[simp] theorem deleteObj_obj (h : Heap) (a : Addr) :
    (deleteObj h a).obj = Function.update h.obj a none := rfl

/-- `--n` on `unsigned int`. -/
def unsignedPred (n : ℕ) : ℕ := if n = 0 then unsignedRange - 1 else n - 1

theorem unsignedPred_succ {n : ℕ} (hn : n < unsignedRange) :
    unsignedPred ((n + 1) % unsignedRange) = n := by
  rw [unsignedPred]
  rcases Nat.lt_or_eq_of_le (Nat.succ_le_of_lt hn) with hlt | heq
  · rw [Nat.mod_eq_of_lt hlt, if_neg (Nat.succ_ne_zero n), Nat.succ_sub_one]
  · rw [← Nat.succ_eq_add_one, heq, Nat.mod_self, if_pos rfl, ← heq, Nat.succ_sub_one]

/-- `if ( ptr && --ptr->counter__ == 0 ) delete ptr`. -/
def decrease (h : Heap) : Option Addr → Option Heap
  | none => some h
  | some a => do
    let o ← h.obj a
    let counter := unsignedPred o.counter
    if counter = 0 then return deleteObj h a
    else return h.setObj a (some { o with counter })

end TYThread
