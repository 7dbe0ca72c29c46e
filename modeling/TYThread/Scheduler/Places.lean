import TYThread.Library.Counting
import TYThread.Scheduler.Model

/-!
# Where the tasks are

The places that can hold a task, and how often a place holds it. A thread accounts for its runnable
queue, the list it has stolen, the task in its hands, the task it is about to enqueue in
`informDone`, and its `mpi_blocked_queue` without the entry that is being polled. A group accounts
for its `blockedTask`.

`Sched.occ` sums this up over the threads. The one place that is not in a thread is counted through
the task: it is in the `blockedTask` of the group that it waits for, or in none.
-/

namespace TYThread

open Counting

namespace Pc

/-- The tasks that have been stolen and not installed. -/
def stolen : Pc → List ℕ
  | .install xs => xs
  | _ => []

/-- The task that the thread runs, or has got back and not routed. `resumeIfNothingToWait` has
routed the task when it is about to return `false`. -/
def running : Pc → List ℕ
  | .task _ _ (.resume _ (.unlock false)) => []
  | .task t _ _ => [t]
  | _ => []

/-- The task that `informDone` has taken and not enqueued. -/
def informing : Pc → List ℕ
  | .task _ _ (.inform _ _ (.enqueue w)) => [w]
  | _ => []

/-- The entry of `mpi_blocked_queue` that is being polled. -/
def polled : Pc → Option ℕ
  | .task _ p _ => p
  | .erase k => some k
  | _ => none

variable {t : ℕ} {p : Option ℕ} {act : Activity}

@[simp] theorem stolen_task : (task t p act).stolen = [] := rfl
@[simp] theorem polled_task : (task t p act).polled = p := rfl
@[simp] theorem stolen_afterTask : (afterTask p).stolen = [] := by cases p <;> rfl
@[simp] theorem running_afterTask : (afterTask p).running = [] := by cases p <;> rfl
@[simp] theorem informing_afterTask : (afterTask p).informing = [] := by cases p <;> rfl
@[simp] theorem polled_afterTask : (afterTask p).polled = p := by cases p <;> rfl

end Pc

/-- `mpi_blocked_queue` without the entry that is being polled. -/
def PerThreadMgr.parked (m : PerThreadMgr) : List ℕ :=
  m.pc.polled.elim m.mpiBlockedQueue m.mpiBlockedQueue.eraseIdx

/-- How often the thread accounts for the task `t`. -/
def PerThreadMgr.count (m : PerThreadMgr) (t : ℕ) : ℕ :=
  m.runnableQueue.count t + m.parked.count t + m.pc.stolen.count t + m.pc.running.count t
    + m.pc.informing.count t

theorem PerThreadMgr.count_goOn {m : PerThreadMgr} {c t : ℕ} {p : Option ℕ} {act act' : Activity}
    (here : m.pc = .task c p act) (hrun : (Pc.task c p act').running = (Pc.task c p act).running)
    (hinform : (Pc.task c p act').informing = (Pc.task c p act).informing) :
    PerThreadMgr.count { m with pc := .task c p act' } t = m.count t := by
  rw [count, count, hrun, hinform, parked, parked, here]
  rfl

theorem PerThreadMgr.count_afterTask {m : PerThreadMgr} {t : ℕ} {p : Option ℕ}
    (here : m.pc = afterTask p) : m.count t
      = m.runnableQueue.count t + (p.elim m.mpiBlockedQueue m.mpiBlockedQueue.eraseIdx).count
      t := by
  rw [count, parked, here]
  simp

/-- What a thread has that can hold a task. -/
inductive Part
  | runnable
  | mpiBlocked
  | stolen
  | running
  | informing
deriving DecidableEq, Repr

def PerThreadMgr.part (m : PerThreadMgr) : Part → List ℕ
  | .runnable => m.runnableQueue
  | .mpiBlocked => m.parked
  | .stolen => m.pc.stolen
  | .running => m.pc.running
  | .informing => m.pc.informing

/-- What can hold a task. -/
inductive Place
  | thread (i : ℕ) (part : Part)
  | blocked (g : ℕ)
deriving DecidableEq, Repr

namespace Sched

/-- How often `t` is in a place. -/
def times (σ : Sched) (t : ℕ) : Place → ℕ
  | .thread i part => ((σ.thread i).part part).count t
  | .blocked g => if (σ.group g).blockedTask = some t then 1 else 0

/-- `1` when `t` is in the `blockedTask` of the group that it waits for. -/
def slot (σ : Sched) (t : ℕ) : ℕ :=
  match (σ.task t).waiting with
  | none => 0
  | some g => if (σ.group g).blockedTask = some t then 1 else 0

/-- How often `t` is in the places that the threads account for and in its slot. -/
def occ (σ : Sched) (N t : ℕ) : ℕ := ∑ i ∈ Finset.range N, (σ.thread i).count t + σ.slot t

section

variable {σ σ' : Sched} {N i t g : ℕ} {m : PerThreadMgr}

theorem slot_of_not_waiting (h : (σ.task t).waiting = none) : σ.slot t = 0 := by
  rw [slot, h]

theorem slot_of_not_blocked (h : ∀ g, (σ.group g).blockedTask ≠ some t) : σ.slot t = 0 := by
  unfold slot
  split
  · rfl
  · rw [if_neg (h _)]

theorem slot_of_blocked (hw : (σ.task t).waiting = some g)
    (hb : (σ.group g).blockedTask = some t) : σ.slot t = 1 := by
  rw [slot, hw]
  exact if_pos hb

theorem slot_congr_iff (hw : (σ'.task t).waiting = (σ.task t).waiting)
    (hb : ∀ g, (σ'.group g).blockedTask = some t ↔ (σ.group g).blockedTask = some t) :
    σ'.slot t = σ.slot t := by
  simp only [slot, hw, hb]

/-- The slot of a task depends on the task's `waiting` and on the groups' `blockedTask`. -/
theorem slot_congr (hw : (σ'.task t).waiting = (σ.task t).waiting)
    (hb : ∀ g, (σ'.group g).blockedTask = (σ.group g).blockedTask) : σ'.slot t = σ.slot t :=
  slot_congr_iff hw fun g ↦ by rw [hb]

theorem occ_update (hi : i < N) (hthread : σ'.thread = Function.update σ.thread i m) :
    σ'.occ N t + (σ.thread i).count t + σ.slot t = σ.occ N t + m.count t + σ'.slot t := by
  have hsum := sum_update σ.thread (fun m ↦ m.count t) (Finset.mem_range.mpr hi) m
  rw [occ, occ, hthread]
  omega

theorem occ_eq_of_update_two {v : ℕ} {m' : PerThreadMgr} (hi : i < N) (hv : v < N) (hne : i ≠ v)
    (hthread : σ'.thread = Function.update (Function.update σ.thread v m') i m)
    (hcount : m'.count t + m.count t = (σ.thread v).count t + (σ.thread i).count t)
    (hslot : σ'.slot t = σ.slot t) : σ'.occ N t = σ.occ N t := by
  have hsum := sum_update σ.thread (fun m ↦ m.count t) (Finset.mem_range.mpr hv) m'
  have hsum' := sum_update (Function.update σ.thread v m') (fun m ↦ m.count t)
    (Finset.mem_range.mpr hi) m
  rw [Function.update_of_ne hne] at hsum'
  rw [occ, occ, hthread, hslot]
  omega

section

variable (hi : i < N) (hthread : σ'.thread = Function.update σ.thread i m)

include hi hthread

theorem occ_eq_of_update (h : m.count t + σ'.slot t = (σ.thread i).count t + σ.slot t) :
    σ'.occ N t = σ.occ N t := by
  have := occ_update (t := t) hi hthread
  omega

theorem occ_succ_of_update (h : m.count t + σ'.slot t = (σ.thread i).count t + σ.slot t + 1) :
    σ'.occ N t = σ.occ N t + 1 := by
  have := occ_update (t := t) hi hthread
  omega

theorem occ_pred_of_update (h : m.count t + σ'.slot t + 1 = (σ.thread i).count t + σ.slot t) :
    σ'.occ N t + 1 = σ.occ N t := by
  have := occ_update (t := t) hi hthread
  omega

end

theorem count_le_occ (hi : i < N) : (σ.thread i).count t ≤ σ.occ N t := by
  have := Finset.single_le_sum (f := fun j ↦ (σ.thread j).count t) (fun _ _ ↦ Nat.zero_le _)
    (Finset.mem_range.mpr hi)
  rw [occ]
  omega

end

end Sched

end TYThread
