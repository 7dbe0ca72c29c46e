import TYThread.Runtime.Model

/-!
# What the calls leave behind

Which handles an operation sets, and what it does to the queues when it has the result that the
runtime goes by. The rest of the world is the business of `World.Ok`.
-/

namespace TYThread

open Counting LinkedList

section

variable {w w' : World} {xs : ℕ → List Addr} {h g l r : ℕ} {a : Addr} {f : ℕ → Option (Option Addr)}

/-! ## Handles -/

theorem Op.handles_makeRefPtr (call : (Op.makeRefPtr h a).exec id w = some w') :
    w'.handles = Function.update w.handles h (some (some a)) := exec_handles call

theorem Op.handles_copyConstruct (call : (Op.copyConstruct h g).exec id w = some w') :
    w'.handles = Function.update w.handles h (w.handles g) := exec_handles call

theorem Op.handles_copyAssign (call : (Op.copyAssign h g).exec id w = some w') :
    w'.handles = Function.update w.handles h (w.handles g) := exec_handles call

theorem Op.handles_moveAssign (call : (Op.moveAssign h g).exec id w = some w') :
    w'.handles = Function.update (Function.update w.handles h (w.handles g)) g (some none) :=
  exec_handles call

theorem Op.handles_destroy (call : (Op.destroy h).exec id w = some w') :
    w'.handles = Function.update w.handles h none := exec_handles call

theorem Op.handles_enqueueCopy (call : (Op.enqueueCopy l h).exec id w = some w') :
    w'.handles = w.handles := exec_handles call

theorem Op.handles_dequeue (call : (Op.dequeue l h).exec id w = some w') :
    w'.handles = Function.update w.handles h (w'.handles h) := by
  have hhandles : w'.handles = Function.update w.handles h
      (some ((w.lists l).bind Skiplist.head)) :=
    exec_handles call
  rw [hhandles, Function.update_self]

theorem Op.handles_dequeueHalf (call : (Op.dequeueHalf l r).exec id w = some w') :
    w'.handles = w.handles := exec_handles call

theorem Op.handles_replace (call : (Op.replace l r).exec id w = some w') :
    w'.handles = w.handles := exec_handles call

theorem Op.pre_destroy (hroomy : ∀ a, w.owners a < unsignedRange)
    (call : (Op.destroy h).exec id w = some w') : (Op.destroy h).Pre w := by
  simp only [exec_destroy, World.destroy, Option.bind_eq_bind, Option.bind_eq_some_iff] at call
  obtain ⟨p, hp, -⟩ := call
  exact ⟨p, hp, fun a _ ↦ hroomy a⟩

/-- The handles that the scheduler relies on are left alone. -/
theorem Op.Foreign.handles {op : Op} (hop : op.Foreign) (call : op.exec id w = some w') {x : Holder}
    (hx : ∀ n, x ≠ .other n) : w'.handles x = w.handles x := by
  have hname : ∀ n, x.name ≠ (Holder.other n).name := fun n heq ↦ hx n (Holder.name_injective heq)
  rw [exec_handles call]
  cases hop with
  | construct n a | copyConstruct n g | copyAssign n g | nullAssign n | destroy n =>
    exact Function.update_of_ne (hname n) _ _
  | moveConstruct n m | moveAssign n m =>
    rw [handlesAfter, Function.update_of_ne (hname m), Function.update_of_ne (hname n)]

theorem Op.Foreign.label {op : Op} (hop : op.Foreign) (w w' : World) : op.label w w' = .other := by
  cases hop <;> rfl

/-! ## The two operations of the runtime -/

theorem World.Ok.setHandles (hok : w.Ok xs)
    (hsame : ∀ a i, f i = some (some a) ↔ w.handles i = some (some a)) :
    ({ w with handles := f } : World).Ok xs := by
  have hset : ∀ a, {i | f i = some (some a)} = {i | w.handles i = some (some a)} := fun a ↦
    Set.ext (hsame a)
  refine ⟨hok.lists, hok.counted.congr rfl fun a ↦ ?_, fun a ↦ ?_⟩
  · rw [ownersOf, ownersOf, holders, holders]
    simp only [hset]
  · simp only [hset]
    exact hok.finite a

theorem World.Ok.nullConstruct (hok : w.Ok xs) (hh : w.handles h = none) :
    (w.nullConstruct h).Ok xs := by
  refine hok.setHandles fun a i ↦ ?_
  by_cases hi : i = h
  · rw [hi, hh, Function.update_self]
    simp
  · rw [Function.update_of_ne hi]

theorem Skiplist.freeLayers_of_none {heap : Heap} {layers : ℕ → Layer} {n : ℕ}
    (h : ∀ k < n, (layers k).headNode = none) : freeLayers n heap layers = some heap := by
  induction n with
  | zero => rfl
  | succ i ih =>
    rw [freeLayers, h i (Nat.lt_succ_self i), Heap.freeChain_none]
    exact ih fun k hk ↦ h k (Nat.lt_succ_of_lt hk)

theorem World.Ok.destroyList (hok : w.Ok xs) {s : Skiplist} (hs : w.lists l = some s)
    (hxs : xs l = []) :
    w.destroyList l = some (w.setList l none) ∧ (w.setList l none).Ok xs := by
  obtain ⟨S, hlists⟩ := hok.lists
  have hholds := hlists.holds l s hs
  rw [hxs] at hholds
  have hoff := hholds.off_eq
  obtain ⟨Λ, hr, -, hnodes⟩ := hholds
  have hlevel : ∀ k < NLayers, (s.layers k).headOff = (s.layers k).tailOff := fun k hk ↦
    hr.off_eq_of_empty hoff (Nat.succ_le_of_lt hk)
  have hhead : s.head = none := by
    rw [show s.head = firstCell (Λ.cell 0) s.headOff s.tailOff from
      (hr.nodes.level 0 (Nat.zero_le _)).head, firstCell_of_le hoff.ge]
  have hempty : S l = ∅ := by
    rw [← hnodes]
    refine Set.eq_empty_of_forall_notMem fun a ⟨k, hk, p, ⟨hp, hp'⟩, _⟩ ↦ ?_
    have hsame := hlevel k hk
    rw [Skiplist.level_succ] at hp hp'
    omega
  refine ⟨?_, ⟨S, fun m t hm ↦ ?_, fun m hm ↦ ?_, hlists.elems, hlists.nodes⟩, hok.counted,
    hok.finite⟩
  · have hfree : Skiplist.freeLayers NLayers w.heap s.layers = some w.heap :=
      Skiplist.freeLayers_of_none fun k hk ↦ by
        have hnode := (hr.nodes.level (k + 1) (Nat.succ_le_of_lt hk)).head
        rw [Skiplist.level_succ, hlevel k hk, firstCell_of_le le_rfl] at hnode
        exact hnode
    simp [World.destroyList, hs, Skiplist.destructor, hhead, Skiplist.dropElems, hfree]
  · have hml : m ≠ l := by
      rintro rfl
      simp at hm
    rw [setList_lists, Function.update_of_ne hml] at hm
    exact hlists.holds m t hm
  · by_cases hml : m = l
    · rw [hml]
      exact ⟨hxs, hempty⟩
    · rw [setList_lists, Function.update_of_ne hml] at hm
      exact hlists.absent m hm

end

end TYThread
