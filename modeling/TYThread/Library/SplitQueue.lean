import Mathlib.Data.List.Nodup
import Mathlib.Logic.Function.Basic
import TYThread.Library.Transition

/-!
# Families of queues that can be split

The purpose of a work-stealing queue, without any representation: a family of first-in first-out
queues, where a queue can also be cut in two, the front part becoming a queue of its own, and an
empty queue can take over the contents of another one. No element is lost or duplicated by any of
this.
-/

namespace SplitQueue

variable {ι α : Type*}

/-- The queues that exist, with their contents first to last. -/
abbrev State (ι α : Type*) := ι → Option (List α)

/-- The operations with their results. `other` is anything that does not concern the queues. -/
inductive Label (ι α : Type*)
  | enqueue (i : ι) (x : α)
  | dequeue (i : ι) (result : Option α)
  | split (i j : ι) (result : Bool)
  | replace (i j : ι)
  | other

variable [DecidableEq ι]

/-- The steps. An element is enqueued only while it is in no queue. -/
inductive Step : State ι α → Label ι α → State ι α → Prop
  | enqueue {q : State ι α} {i : ι} {x : α} {xs : List α} (queue : q i = some xs)
      (fresh : ∀ j ys, q j = some ys → x ∉ ys) :
      Step q (.enqueue i x) (Function.update q i (some (xs ++ [x])))
  | dequeueNone {q : State ι α} {i : ι} (queue : q i = some []) : Step q (.dequeue i none) q
  | dequeueSome {q : State ι α} {i : ι} {x : α} {xs : List α} (queue : q i = some (x :: xs)) :
      Step q (.dequeue i (some x)) (Function.update q i (some xs))
  | splitNone {q : State ι α} {i j : ι} (queue : q i = some []) : Step q (.split i j false) q
  | splitSome {q : State ι α} {i j : ι} {xs ys : List α} (queue : q i = some (xs ++ ys))
      (ne_nil : xs ≠ []) (new : q j = none) :
      Step q (.split i j true) (Function.update (Function.update q i (some ys)) j (some xs))
  | replace {q : State ι α} {i j : ι} {xs : List α} (empty : q i = some []) (queue : q j = some xs)
      (ne : i ≠ j) :
      Step q (.replace i j) (Function.update (Function.update q i (some xs)) j (some []))
  | other {q : State ι α} : Step q .other q

/-! ## What a step has done -/

section

variable {q q' : State ι α} {i j : ι} {x : α}

theorem Step.of_other (h : Step q .other q') : q' = q := by
  cases h
  rfl

theorem Step.of_enqueue (h : Step q (.enqueue i x) q') {xs : List α} (hq : q i = some xs) :
    q' = Function.update q i (some (xs ++ [x])) := by
  cases h with
  | enqueue queue => rw [Option.some.inj (queue.symm.trans hq)]

theorem Step.of_dequeue_nil {r : Option α} (h : Step q (.dequeue i r) q') (hq : q i = some []) :
    r = none ∧ q' = q := by
  cases h with
  | dequeueNone => exact ⟨rfl, rfl⟩
  | dequeueSome queue => cases queue.symm.trans hq

theorem Step.of_dequeue_cons {r : Option α} (h : Step q (.dequeue i r) q') {xs : List α}
    (hq : q i = some (x :: xs)) : r = some x ∧ q' = Function.update q i (some xs) := by
  cases h with
  | dequeueNone queue => cases queue.symm.trans hq
  | dequeueSome queue =>
    obtain ⟨rfl, rfl⟩ := List.cons.inj (Option.some.inj (queue.symm.trans hq))
    exact ⟨rfl, rfl⟩

theorem Step.of_split_nil {b : Bool} (h : Step q (.split i j b) q') (hq : q i = some []) :
    b = false ∧ q' = q := by
  cases h with
  | splitNone => exact ⟨rfl, rfl⟩
  | splitSome queue ne_nil =>
    have hnil := List.append_eq_nil_iff.mp (Option.some.inj (queue.symm.trans hq))
    exact absurd hnil.1 ne_nil

theorem Step.of_split_cons {b : Bool} (h : Step q (.split i j b) q') {zs : List α}
    (hq : q i = some zs) (hne : zs ≠ []) : ∃ xs ys, b = true ∧ zs = xs ++ ys ∧ xs ≠ [] ∧
      q' = Function.update (Function.update q i (some ys)) j (some xs) := by
  cases h with
  | splitNone queue => exact absurd (Option.some.inj (queue.symm.trans hq)).symm hne
  | splitSome queue ne_nil =>
    exact ⟨_, _, rfl, (Option.some.inj (queue.symm.trans hq)).symm, ne_nil, rfl⟩

theorem Step.of_replace (h : Step q (.replace i j) q') {xs : List α} (hq : q j = some xs) :
    q' = Function.update (Function.update q i (some xs)) j (some []) := by
  cases h with
  | replace empty queue => rw [Option.some.inj (queue.symm.trans hq)]

end

omit [DecidableEq ι] in
/-- No element is in two queues or twice in one queue. -/
structure Distinct (q : State ι α) : Prop where
  nodup : ∀ i xs, q i = some xs → xs.Nodup
  disjoint : ∀ i j xs ys x, q i = some xs → q j = some ys → x ∈ xs → x ∈ ys → i = j

omit [DecidableEq ι] in
/-- `x` is in some queue. -/
def Mem (q : State ι α) (x : α) : Prop := ∃ i xs, q i = some xs ∧ x ∈ xs

/-- Replacing the contents of one queue keeps the elements distinct, if what is new there is nowhere
else. -/
theorem Distinct.update {q : State ι α} (h : Distinct q) {i : ι} {xs : List α} (hxs : xs.Nodup)
    (hnew : ∀ j ys x, j ≠ i → q j = some ys → x ∈ xs → x ∉ ys) :
    Distinct (Function.update q i (some xs)) := by
  constructor
  · intro j ys hj
    by_cases hji : j = i
    · subst hji
      rw [Function.update_self, Option.some.injEq] at hj
      rwa [← hj]
    · rw [Function.update_of_ne hji] at hj
      exact h.nodup j ys hj
  · intro j k ys zs x hj hk hy hz
    by_cases hji : j = i <;> by_cases hki : k = i
    · rw [hji, hki]
    · subst hji
      rw [Function.update_self, Option.some.injEq] at hj
      rw [Function.update_of_ne hki] at hk
      exact absurd hz (hnew k zs x hki hk (by rwa [hj]))
    · subst hki
      rw [Function.update_self, Option.some.injEq] at hk
      rw [Function.update_of_ne hji] at hj
      exact absurd hy (hnew j ys x hji hj (by rwa [hk]))
    · rw [Function.update_of_ne hji] at hj
      rw [Function.update_of_ne hki] at hk
      exact h.disjoint j k ys zs x hj hk hy hz

/-- **One step** neither duplicates an element nor puts it into a second queue. -/
theorem Step.distinct {q q' : State ι α} {l : Label ι α} (h : Step q l q') (hq : Distinct q) :
    Distinct q' := by
  cases h with
  | enqueue queue fresh =>
    refine hq.update ?_ fun j ys y hj hys hy hy' ↦ ?_
    · rw [List.nodup_append]
      refine ⟨hq.nodup _ _ queue, List.nodup_singleton _, fun y hy z hz hyz ↦ ?_⟩
      rw [List.mem_singleton] at hz
      exact fresh _ _ queue (by rwa [← hz, ← hyz])
    · rw [List.mem_append, List.mem_singleton] at hy
      rcases hy with hy | rfl
      · exact hj (hq.disjoint _ _ _ _ y hys queue hy' hy)
      · exact fresh j ys hys hy'
  | dequeueNone => exact hq
  | dequeueSome queue =>
    have hnodup := hq.nodup _ _ queue
    refine hq.update hnodup.of_cons fun j ys y hj hys hy hy' ↦ ?_
    exact hj (hq.disjoint _ _ _ _ y hys queue hy' (List.mem_cons_of_mem _ hy))
  | splitNone => exact hq
  | @splitSome i j xs ys queue ne_nil new =>
    have hnodup := hq.nodup _ _ queue
    rw [List.nodup_append] at hnodup
    obtain ⟨hxs, hys, hdisj⟩ := hnodup
    have hrest : Distinct (Function.update q i (some ys)) :=
      hq.update hys fun k zs y hk hzs hy hy' ↦
        hk (hq.disjoint _ _ _ _ y hzs queue hy' (List.mem_append_right _ hy))
    refine hrest.update hxs fun k zs y hk hzs hy hy' ↦ ?_
    by_cases hki : k = i
    · rw [hki, Function.update_self, Option.some.injEq] at hzs
      exact hdisj y hy y (by rwa [hzs]) rfl
    · rw [Function.update_of_ne hki] at hzs
      exact hki (hq.disjoint _ _ _ _ y hzs queue hy' (List.mem_append_left _ hy))
  | @replace i j xs empty queue ne =>
    have hclear : Distinct (Function.update q j (some [])) :=
      hq.update List.nodup_nil fun _ _ _ _ _ hy ↦ absurd hy List.not_mem_nil
    rw [Function.update_comm ne]
    refine hclear.update (hq.nodup _ _ queue) fun k zs y hk hzs hy hy' ↦ ?_
    by_cases hkj : k = j
    · rw [hkj, Function.update_self, Option.some.injEq] at hzs
      rw [← hzs] at hy'
      exact List.not_mem_nil hy'
    · rw [Function.update_of_ne hkj] at hzs
      exact hkj (hq.disjoint _ _ _ _ y hzs queue hy' hy)
  | other => exact hq

/-- **A whole run** neither. -/
theorem run_distinct {q q' : State ι α} {ls : List (Label ι α)}
    (h : Transition.Run Step q ls q') (hq : Distinct q) : Distinct q' :=
  h.invariant hq fun _ _ _ hI hstep ↦ hstep.distinct hI

omit [DecidableEq ι] in
theorem distinct_of_empty {q : State ι α} (h : ∀ i xs, q i = some xs → xs = []) : Distinct q :=
  ⟨fun i xs hi ↦ by rw [h i xs hi]; exact List.nodup_nil,
    fun i _ xs _ x hi _ hx _ ↦ by rw [h i xs hi] at hx; exact absurd hx List.not_mem_nil⟩

end SplitQueue
