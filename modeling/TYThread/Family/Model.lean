import Mathlib.Data.Finset.Defs
import Mathlib.Logic.Function.Basic
import TYThread.Skiplist.Model

/-!
# Lists and handles over one heap

The state of a program that uses `Skiplist`s and `DerivedRefPtr`s: any number of lists and of
handles over one heap. An operation is a call of one of their methods. `Op.exec` is the body of that
method; like the methods themselves it has no result when the call dereferences memory that is not
live.

Lists and handles are named by numbers. A name without a value is not in use.
-/

namespace TYThread

structure World where
  heap : Heap
  lists : ℕ → Option Skiplist
  handles : ℕ → Option (Option Addr)

/-- The lists `ids` are there, all empty. -/
def World.initial (ids : Finset ℕ) : World where
  heap := Heap.empty
  lists := fun l ↦ if l ∈ ids then some {} else none
  handles := fun _ ↦ none

inductive Op
  /-- `new T(...)`, at an address where no object lives. -/
  | newObject (a : Addr)
  /-- `DerivedRefPtr h(ptr)`, for a raw pointer to the object at `a`. -/
  | construct (h : ℕ) (a : Addr)
  /-- `DerivedRefPtr h = makeRefPtr<T>(...)`. -/
  | makeRefPtr (h : ℕ) (a : Addr)
  /-- `DerivedRefPtr h(g)`. -/
  | copyConstruct (h g : ℕ)
  /-- `DerivedRefPtr h(std::move(g))`. -/
  | moveConstruct (h g : ℕ)
  /-- `h = g`. -/
  | copyAssign (h g : ℕ)
  /-- `h = std::move(g)`. -/
  | moveAssign (h g : ℕ)
  /-- `h = nullptr`. -/
  | nullAssign (h : ℕ)
  /-- The destructor of `h`. -/
  | destroy (h : ℕ)
  /-- `l.enqueue(h)`. -/
  | enqueueCopy (l h : ℕ)
  /-- `l.enqueue(std::move(h))`. -/
  | enqueueMove (l h : ℕ)
  /-- `DerivedRefPtr h = l.dequeue()`. -/
  | dequeue (l h : ℕ)
  /-- `r = l.dequeue_half()`. -/
  | dequeueHalf (l r : ℕ)
  /-- `r = l.dequeue_half_()`. -/
  | dequeueHalf_ (l r : ℕ)
  /-- `l.replace(r)`. -/
  | replace (l r : ℕ)
deriving DecidableEq, Repr

namespace World

variable (w : World)

def setHandle (h : ℕ) (p : Option (Option Addr)) : World :=
  { w with handles := Function.update w.handles h p }

def setList (l : ℕ) (s : Option Skiplist) : World :=
  { w with lists := Function.update w.lists l s }

@[simp] theorem setHandle_heap (h : ℕ) (p : Option (Option Addr)) :
    (w.setHandle h p).heap = w.heap := rfl
@[simp] theorem setHandle_lists (h : ℕ) (p : Option (Option Addr)) :
    (w.setHandle h p).lists = w.lists := rfl
@[simp] theorem setHandle_handles (h : ℕ) (p : Option (Option Addr)) :
    (w.setHandle h p).handles = Function.update w.handles h p := rfl
@[simp] theorem setList_heap (l : ℕ) (s : Option Skiplist) : (w.setList l s).heap = w.heap := rfl
@[simp] theorem setList_lists (l : ℕ) (s : Option Skiplist) :
    (w.setList l s).lists = Function.update w.lists l s := rfl
@[simp] theorem setList_handles (l : ℕ) (s : Option Skiplist) :
    (w.setList l s).handles = w.handles := rfl

/-! ## The methods of `DerivedRefPtr` -/

def construct (h : ℕ) (a : Addr) : Option World := do
  let heap ← increase w.heap (some a)
  return { w with heap }.setHandle h (some (some a))

/-- A new object has counter `0` and no link. -/
def newObject (a : Addr) : World :=
  { w with heap := w.heap.setObj a (some { counter := 0, next := none }) }

/-- Moving the new handle out of the function touches no counter. -/
def makeRefPtr (h : ℕ) (a : Addr) : Option World := (w.newObject a).construct h a

def copyConstruct (h g : ℕ) : Option World := do
  let p ← w.handles g
  let heap ← increase w.heap p
  return { w with heap }.setHandle h (some p)

def moveConstruct (h g : ℕ) : Option World := do
  let p ← w.handles g
  return (w.setHandle h (some p)).setHandle g (some none)

def copyAssign (h g : ℕ) : Option World := do
  let q ← w.handles g
  let heap ← increase w.heap q
  let p ← w.handles h
  let heap ← decrease heap p
  return { w with heap }.setHandle h (some q)

def moveAssign (h g : ℕ) : Option World := do
  let p ← w.handles h
  let heap ← decrease w.heap p
  let q ← w.handles g
  return ({ w with heap }.setHandle h (some q)).setHandle g (some none)

def nullAssign (h : ℕ) : Option World := do
  let p ← w.handles h
  let heap ← decrease w.heap p
  return { w with heap }.setHandle h (some none)

def destroy (h : ℕ) : Option World := do
  let p ← w.handles h
  let heap ← decrease w.heap p
  return { w with heap }.setHandle h none

/-! ## The methods of `Skiplist` -/

variable (int : ℤ → ℤ)

def enqueueCopy (l h : ℕ) : Option World := do
  let s ← w.lists l
  let p ← w.handles h
  let (heap, s) ← s.enqueueCopy int w.heap p
  return { w with heap }.setList l (some s)

def enqueueMove (l h : ℕ) : Option World := do
  let s ← w.lists l
  let p ← w.handles h
  let (heap, s) ← s.enqueueMove int w.heap p
  return ({ w with heap }.setList l (some s)).setHandle h (some none)

def dequeue (l h : ℕ) : Option World := do
  let s ← w.lists l
  let (heap, s, t) ← s.dequeue_ int w.heap
  return ({ w with heap }.setList l (some s)).setHandle h (some t)

def dequeueHalf (l r : ℕ) : Option World := do
  let s ← w.lists l
  let (heap, s, res) ← s.dequeueHalf int w.heap
  return ({ w with heap }.setList l (some s)).setList r res

def dequeueHalf_ (l r : ℕ) : Option World := do
  let s ← w.lists l
  let (heap, s, res) ← s.dequeueHalf_ int w.heap
  return ({ w with heap }.setList l (some s)).setList r res

def replace (l r : ℕ) : Option World := do
  let s ← w.lists l
  let p ← w.lists r
  let (heap, s, p) ← s.replace w.heap p
  return ({ w with heap }.setList l (some s)).setList r (some p)

end World

/-- The call of one method. -/
def Op.exec (int : ℤ → ℤ) (w : World) : Op → Option World
  | newObject a => some (w.newObject a)
  | construct h a => w.construct h a
  | makeRefPtr h a => w.makeRefPtr h a
  | copyConstruct h g => w.copyConstruct h g
  | moveConstruct h g => w.moveConstruct h g
  | copyAssign h g => w.copyAssign h g
  | moveAssign h g => w.moveAssign h g
  | nullAssign h => w.nullAssign h
  | destroy h => w.destroy h
  | enqueueCopy l h => w.enqueueCopy int l h
  | enqueueMove l h => w.enqueueMove int l h
  | dequeue l h => w.dequeue int l h
  | dequeueHalf l r => w.dequeueHalf int l r
  | dequeueHalf_ l r => w.dequeueHalf_ int l r
  | replace l r => w.replace l r

theorem Skiplist.dequeue_result {int : ℤ → ℤ} {h h' : Heap} {s s' : Skiplist} {t : Option Addr}
    (hrun : Skiplist.dequeue_ int h s = some (h', s', t)) : t = s.head := by
  rw [Skiplist.dequeue_] at hrun
  cases hhead : s.head with
  | none =>
    simp only [hhead, Option.some.injEq, Prod.mk.injEq] at hrun
    exact hrun.2.2.symm
  | some e =>
    simp only [hhead, Option.bind_eq_bind, Option.bind_eq_some_iff] at hrun
    obtain ⟨next, -, h₁, -, hrun⟩ := hrun
    split at hrun
    · rw [Option.bind_eq_some_iff] at hrun
      obtain ⟨z, -, hrun⟩ := hrun
      simp only [Option.some.injEq, Prod.mk.injEq] at hrun
      exact hrun.2.2.symm
    · simp only [Option.some.injEq, Prod.mk.injEq] at hrun
      exact hrun.2.2.symm

/-! ## The call of each method -/

namespace Op

section

variable (int : ℤ → ℤ) (w : World) (h g l r : ℕ) (a : Addr)

theorem exec_construct : exec int w (.construct h a) = w.construct h a := rfl
theorem exec_makeRefPtr : exec int w (.makeRefPtr h a) = w.makeRefPtr h a := rfl
theorem exec_copyConstruct : exec int w (.copyConstruct h g) = w.copyConstruct h g := rfl
theorem exec_moveConstruct : exec int w (.moveConstruct h g) = w.moveConstruct h g := rfl
theorem exec_copyAssign : exec int w (.copyAssign h g) = w.copyAssign h g := rfl
theorem exec_moveAssign : exec int w (.moveAssign h g) = w.moveAssign h g := rfl
theorem exec_nullAssign : exec int w (.nullAssign h) = w.nullAssign h := rfl
theorem exec_destroy : exec int w (.destroy h) = w.destroy h := rfl
theorem exec_enqueueCopy : exec int w (.enqueueCopy l h) = w.enqueueCopy int l h := rfl
theorem exec_enqueueMove : exec int w (.enqueueMove l h) = w.enqueueMove int l h := rfl
theorem exec_dequeue : exec int w (.dequeue l h) = w.dequeue int l h := rfl
theorem exec_dequeueHalf : exec int w (.dequeueHalf l r) = w.dequeueHalf int l r := rfl
theorem exec_dequeueHalf_ : exec int w (.dequeueHalf_ l r) = w.dequeueHalf_ int l r := rfl
theorem exec_replace : exec int w (.replace l r) = w.replace l r := rfl

end

/-! ## The handles -/

/-- What becomes of the handles in a call. A handle that is made from another one or gets its value
holds the same object, a handle that was moved from is null, and `dequeue` returns the head of the
list. -/
def handlesAfter (w : World) : Op → ℕ → Option (Option Addr)
  | newObject _ => w.handles
  | construct h a | makeRefPtr h a => Function.update w.handles h (some (some a))
  | copyConstruct h g | copyAssign h g => Function.update w.handles h (w.handles g)
  | moveConstruct h g | moveAssign h g =>
    Function.update (Function.update w.handles h (w.handles g)) g (some none)
  | nullAssign h => Function.update w.handles h (some none)
  | destroy h => Function.update w.handles h none
  | enqueueCopy _ _ => w.handles
  | enqueueMove _ h => Function.update w.handles h (some none)
  | dequeue l h => Function.update w.handles h (some ((w.lists l).bind Skiplist.head))
  | dequeueHalf _ _ | dequeueHalf_ _ _ | replace _ _ => w.handles

/-- **The handles after a call.** -/
theorem exec_handles {int : ℤ → ℤ} {w w' : World} {op : Op} (hrun : op.exec int w = some w') :
    w'.handles = op.handlesAfter w := by
  cases op with
  | newObject a =>
    rw [← Option.some.inj hrun]
    rfl
  | construct h a | makeRefPtr h a =>
    simp only [exec_construct, exec_makeRefPtr, World.makeRefPtr, World.construct,
      Option.bind_eq_bind, Option.bind_eq_some_iff, Option.pure_def, Option.some.injEq] at hrun
    obtain ⟨heap, -, rfl⟩ := hrun
    rfl
  | nullAssign h | destroy h =>
    simp only [exec_nullAssign, exec_destroy, World.nullAssign, World.destroy, Option.bind_eq_bind,
      Option.bind_eq_some_iff, Option.pure_def, Option.some.injEq] at hrun
    obtain ⟨p, -, heap, -, rfl⟩ := hrun
    rfl
  | copyConstruct h g =>
    simp only [exec_copyConstruct, World.copyConstruct, Option.bind_eq_bind,
      Option.bind_eq_some_iff, Option.pure_def, Option.some.injEq] at hrun
    obtain ⟨p, hp, heap, -, rfl⟩ := hrun
    rw [handlesAfter, hp]
    rfl
  | moveConstruct h g =>
    simp only [exec_moveConstruct, World.moveConstruct, Option.bind_eq_bind,
      Option.bind_eq_some_iff, Option.pure_def, Option.some.injEq] at hrun
    obtain ⟨p, hp, rfl⟩ := hrun
    rw [handlesAfter, hp]
    rfl
  | copyAssign h g =>
    simp only [exec_copyAssign, World.copyAssign, Option.bind_eq_bind, Option.bind_eq_some_iff,
      Option.pure_def, Option.some.injEq] at hrun
    obtain ⟨q, hq, heap₁, -, p, -, heap, -, rfl⟩ := hrun
    rw [handlesAfter, hq]
    rfl
  | moveAssign h g =>
    simp only [exec_moveAssign, World.moveAssign, Option.bind_eq_bind, Option.bind_eq_some_iff,
      Option.pure_def, Option.some.injEq] at hrun
    obtain ⟨p, -, heap, -, q, hq, rfl⟩ := hrun
    rw [handlesAfter, hq]
    rfl
  | enqueueCopy l h | enqueueMove l h =>
    simp only [exec_enqueueCopy, exec_enqueueMove, World.enqueueCopy, World.enqueueMove,
      Option.bind_eq_bind, Option.bind_eq_some_iff, Option.pure_def, Option.some.injEq] at hrun
    obtain ⟨s, -, p, -, z, -, rfl⟩ := hrun
    rfl
  | dequeue l h =>
    simp only [exec_dequeue, World.dequeue, Option.bind_eq_bind, Option.bind_eq_some_iff,
      Option.pure_def, Option.some.injEq] at hrun
    obtain ⟨s, hs, ⟨heap, s', t⟩, hdequeue, rfl⟩ := hrun
    rw [handlesAfter, hs, Option.bind_some, ← Skiplist.dequeue_result hdequeue]
    rfl
  | dequeueHalf l r | dequeueHalf_ l r =>
    simp only [exec_dequeueHalf, exec_dequeueHalf_, World.dequeueHalf, World.dequeueHalf_,
      Option.bind_eq_bind, Option.bind_eq_some_iff, Option.pure_def, Option.some.injEq] at hrun
    obtain ⟨s, -, z, -, rfl⟩ := hrun
    rfl
  | replace l r =>
    simp only [exec_replace, World.replace, Option.bind_eq_bind, Option.bind_eq_some_iff,
      Option.pure_def, Option.some.injEq] at hrun
    obtain ⟨s, -, p, -, z, -, rfl⟩ := hrun
    rfl

/-! ## The lists -/

/-- A call on handles, which leaves the lists alone. -/
def OnHandles : Op → Prop
  | enqueueCopy _ _ | enqueueMove _ _ | dequeue _ _ | dequeueHalf _ _ | dequeueHalf_ _ _
  | replace _ _ =>
    False
  | _ => True

theorem exec_lists {int : ℤ → ℤ} {w w' : World} {op : Op}
    (hrun : op.exec int w = some w') (hop : op.OnHandles) : w'.lists = w.lists := by
  cases op with
  | newObject a =>
    rw [← Option.some.inj hrun]
    rfl
  | construct h a | makeRefPtr h a =>
    simp only [exec_construct, exec_makeRefPtr, World.makeRefPtr, World.construct,
      Option.bind_eq_bind, Option.bind_eq_some_iff, Option.pure_def, Option.some.injEq] at hrun
    obtain ⟨heap, -, rfl⟩ := hrun
    rfl
  | copyConstruct h g | nullAssign h | destroy h =>
    simp only [exec_copyConstruct, exec_nullAssign, exec_destroy, World.copyConstruct,
      World.nullAssign, World.destroy, Option.bind_eq_bind, Option.bind_eq_some_iff,
      Option.pure_def, Option.some.injEq] at hrun
    obtain ⟨p, -, heap, -, rfl⟩ := hrun
    rfl
  | moveConstruct h g =>
    simp only [exec_moveConstruct, World.moveConstruct, Option.bind_eq_bind,
      Option.bind_eq_some_iff, Option.pure_def, Option.some.injEq] at hrun
    obtain ⟨p, -, rfl⟩ := hrun
    rfl
  | copyAssign h g =>
    simp only [exec_copyAssign, World.copyAssign, Option.bind_eq_bind, Option.bind_eq_some_iff,
      Option.pure_def, Option.some.injEq] at hrun
    obtain ⟨q, -, heap₁, -, p, -, heap, -, rfl⟩ := hrun
    rfl
  | moveAssign h g =>
    simp only [exec_moveAssign, World.moveAssign, Option.bind_eq_bind, Option.bind_eq_some_iff,
      Option.pure_def, Option.some.injEq] at hrun
    obtain ⟨p, -, heap, -, q, -, rfl⟩ := hrun
    rfl
  | enqueueCopy | enqueueMove | dequeue | dequeueHalf | dequeueHalf_ | replace => exact hop.elim

end Op

end TYThread
