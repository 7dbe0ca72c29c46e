import TYThread.Scheduler.Steps

/-!
# The invariant of the task groups

Each group belongs to one task, its owner, which alone registers tasks in the group and waits on it.
Then `blocking_count` is the number of the registrations that have not been counted down: those of
the tasks that have not terminated, and those that a running `terminate` has still to inform. The
lock of a group is held by the thread that is between `lock` and `unlock`. A parked owner has
something to wait for, or a thread is about to take it. And an owner that has something to wait for,
and is not parked, has not been looked at by `resumeIfNothingToWait`.
-/

namespace TYThread

open Counting

namespace Pc

/-- The registrations of the task in hand that are to be counted down. -/
def pending : Pc → List ℕ
  | .task _ _ (.terminating rest) => rest
  | .task _ _ (.inform g rest .decrement) => g :: rest
  | .task _ _ (.inform _ rest _) => rest
  | _ => []

/-- The group whose lock the thread holds. -/
def holding : Pc → Option ℕ
  | .task _ _ (.inform g _ _) => some g
  | .task _ _ (.resume _ .lock) => none
  | .task _ _ (.resume g _) => some g
  | _ => none

/-- The group from which the thread is about to take the blocked task. -/
def taking : Pc → Option ℕ
  | .task _ _ (.inform g _ .take) => some g
  | _ => none

/-- The task that has yielded and may yet be parked. -/
def deciding : Pc → Option ℕ
  | .task t _ .switched => some t
  | .task t _ (.resume _ .lock) => some t
  | .task t _ (.resume _ .test) => some t
  | _ => none

theorem holding_of_taking {pc : Pc} {g : ℕ} (h : pc.taking = some g) : pc.holding = some g := by
  unfold taking at h
  split at h
  · exact h
  · exact absurd h (by simp)

variable {p : Option ℕ}

@[simp] theorem pending_afterTask : (afterTask p).pending = [] := by cases p <;> rfl
@[simp] theorem holding_afterTask : (afterTask p).holding = none := by cases p <;> rfl
@[simp] theorem taking_afterTask : (afterTask p).taking = none := by cases p <;> rfl

end Pc

/-- The registrations of a task in the group `g` that its `terminate` will have to count down. -/
def Task.owed (a : Task) (g : ℕ) : ℕ := if a.state = .terminated then 0 else a.groups.count g

/-- Only the owner of a group registers tasks in it and waits on it. -/
def Label.Owned (owner : ℕ → ℕ) : Label → Prop
  | .registe c _ g => c = owner g
  | .wait c g _ => c = owner g
  | _ => True

namespace Sched

/-- Where the threads are. -/
def pcs (σ : Sched) (i : ℕ) : Pc := (σ.thread i).pc

def owed (σ : Sched) (g : ℕ) : ℕ := ∑ t ∈ Finset.range σ.next, (σ.task t).owed g

def pending (σ : Sched) (N g : ℕ) : ℕ :=
  ∑ i ∈ Finset.range N, (σ.pcs i).pending.count g

structure Grouped (N : ℕ) (owner : ℕ → ℕ) (σ : Sched) : Prop where
  ok : σ.Ok N
  count : ∀ g, (σ.group g).blockingCount = σ.owed g + σ.pending N g
  owned : ∀ t g, (σ.task t).waiting = some g → t = owner g
  holder : ∀ g i, (σ.group g).lock = some i ↔ i < N ∧ (σ.pcs i).holding = some g
  parked : ∀ g, (σ.group g).blockedTask ≠ none → (σ.group g).blockingCount = 0 →
    ∃ i < N, (σ.pcs i).taking = some g
  taken : ∀ g, (σ.group g).blockedTask ≠ none → ∀ i < N, (σ.pcs i).taking = some g →
    (σ.group g).blockingCount = 0
  decided : ∀ t g, (σ.task t).waiting = some g → (σ.group g).blockingCount ≠ 0 →
    (σ.group g).blockedTask = some t ∨ ∃ i < N, (σ.pcs i).deciding = some t

theorem Grouped.initial (N : ℕ) (owner : ℕ → ℕ) : Sched.initial.Grouped N owner := by
  have hpc : ∀ i, (Sched.initial.pcs i).pending = [] ∧
      (Sched.initial.pcs i).holding = none := fun i ↦ by
    by_cases hi : i = 0 <;> simp [Sched.pcs, Sched.initial, hi, Pc.pending, Pc.holding]
  refine ⟨.initial N, fun g ↦ ?_, fun t g h ↦ ?_, fun g i ↦ ?_, fun g h ↦ absurd rfl h,
    fun g h ↦ absurd rfl h, fun t g h ↦ ?_⟩
  · have hsum : Sched.initial.pending N g = 0 :=
      Finset.sum_eq_zero fun i _ ↦ by rw [(hpc i).1]; rfl
    rw [hsum]
    rfl
  · cases h
  · rw [(hpc i).2]
    simp [Sched.initial]
  · cases h

end Sched

end TYThread
