import Mathlib.Data.Int.Notation
import Mathlib.Data.Nat.Notation

/-!
# Tasks and task groups

What `Task.cc` and `TaskGroup.cc` compute while they hold a lock. Tasks, groups and threads are
named by numbers. Of the continuation of a task only one thing matters to anybody else, the call of
`wait` it will come back from.
-/

namespace TYThread

inductive TaskState
  | initial
  | runnable
  | mpiBlocked
  | groupWait
  | terminated
deriving DecidableEq, Repr

structure Task where
  state : TaskState := .initial
  isPure : Bool := false
  blockedBy : Option ℕ := none
  /-- `groups[0]` to `groups[cur_groups - 1]`. -/
  groups : List ℕ := []
  /-- `mut_`, which is held while `terminate` runs. -/
  locked : Bool := false
  /-- The group that `task_continuation` is in the `wait` of. -/
  waiting : Option ℕ := none
  /-- The task has been handed to `addRunnable`. -/
  spawned : Bool := false
  /-- How often the task has been put into a queue since its last `wait` began. -/
  wakes : ℕ := 0
deriving DecidableEq, Repr

structure TaskGroup where
  blockingCount : ℤ := 0
  blockedTask : Option ℕ := none
  /-- `mut_`, with the thread that holds it. -/
  lock : Option ℕ := none
  /-- The group has not been destroyed. -/
  alive : Bool := true
  /-- `wait` has been called, and nothing has been registered since. -/
  waited : Bool := false
deriving DecidableEq, Repr

/-- The size of the array `groups`. -/
def maxGroups : ℕ := 5

def Task.isFini (a : Task) : Bool := a.state == .terminated

namespace TaskGroup

variable (g : TaskGroup)

/-- `--blocking_count`. -/
def decrement : TaskGroup := { g with blockingCount := g.blockingCount - 1 }

/-- What `std::move(blockedTask)` leaves. -/
def take : TaskGroup := { g with blockedTask := none }

/-- `informDone` as a whole: the group afterwards, and the task that can run now. -/
def informDone : TaskGroup × Option ℕ :=
  if g.decrement.blockingCount = 0 then (g.decrement.take, g.decrement.blockedTask)
  else (g.decrement, none)

/-- `resumeIfNothingToWait` as a whole: the group afterwards, and whether the task can go on. -/
def resumeIfNothingToWait (t : ℕ) : TaskGroup × Bool :=
  if g.blockingCount = 0 then (g, true) else ({ g with blockedTask := some t }, false)

end TaskGroup

/-- `addToGroup`: the task `a` and the group `gp` afterwards, and whether the task was accepted. -/
def Task.addToGroup (a : Task) (name : ℕ) (gp : TaskGroup) : Task × TaskGroup × Bool :=
  if a.isFini then (a, gp, false)
  else ({ a with groups := a.groups ++ [name] },
    { gp with blockingCount := gp.blockingCount + 1 }, true)

theorem Task.addToGroup_of_live {a : Task} (h : a.isFini = false) (name : ℕ) (gp : TaskGroup) :
    a.addToGroup name gp = ({ a with groups := a.groups ++ [name] },
      { gp with blockingCount := gp.blockingCount + 1 }, true) := by
  rw [addToGroup, h]
  rfl

end TYThread
