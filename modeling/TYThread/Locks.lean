import Mathlib.Order.Lattice
import TYThread.Library.LockOrder
import TYThread.Pool.Model

/-!
# The locks that the calls take

Every task, every group, every run queue and every object pool has its `Spinlock`, and a pool has a
second one. The functions below have the names of the functions of the source, and each is the list
of the locks that it takes and releases, the calls that it makes under a lock included.

What a call does may depend on what it finds: whether a waiter was there to be woken, which caches
hold something, which references were the last ones. All of this is an argument, and a thread may
start a call with any arguments, so whatever the real call finds on its way is among the runs.

A task is deleted with its last reference. With `ENABLE_OBJECT_POOL` its memory goes back to a pool,
and so a reference that is dropped under a lock may take the locks of pools.
-/

namespace TYThread.Locks

open LockOrder

inductive Lock
  /-- `Task::mut_`. -/
  | task (t : ℕ)
  /-- `TaskGroup::mut_`. -/
  | group (g : ℕ)
  /-- `Skiplist::mut_`. -/
  | skiplist (q : ℕ)
  /-- `ObjectPool::my_release_mut_`. -/
  | release (id : ℕ)
  /-- `ObjectPool::mut_`. -/
  | pool (id : ℕ)
deriving DecidableEq

/-! ## `Skiplist` -/

/-- The list is locked for the whole call. -/
def listCall (q : ℕ) : List (Action Lock) := guarded (.skiplist q) []

def enqueue (q : ℕ) : List (Action Lock) := listCall q

def dequeue (q : ℕ) : List (Action Lock) := listCall q

def dequeueHalf (q : ℕ) : List (Action Lock) := listCall q

def replace (q : ℕ) : List (Action Lock) := listCall q

def size (q : ℕ) : List (Action Lock) := listCall q

/-! ## `ObjectPool` -/

def myAlloc (id : ℕ) : List (Action Lock) := guarded (.pool id) []

/-- The `my_release` that takes a whole cache. -/
def myReleaseCache (id : ℕ) : List (Action Lock) := guarded (.pool id) []

/-- The caches with `cached i j` are not empty. -/
def cleanupAllCache (numOfThread id : ℕ) (cached : ℕ → ℕ → Bool) : List (Action Lock) :=
  (List.range numOfThread).flatMap fun i ↦
    if i = id then []
    else (List.range ObjectPool.NLayers).flatMap fun j ↦
      if cached i j then myReleaseCache i else []

/-- Whether the caches are cleaned up, and if so, which of them are not empty. -/
def cleanup (numOfThread id : ℕ) : Option (ℕ → ℕ → Bool) → List (Action Lock)
  | none => []
  | some cached => cleanupAllCache numOfThread id cached

/-- An entry that is released is one of this pool, or it goes to a cache. -/
inductive Released
  | own
  | foreign (cleaned : Option (ℕ → ℕ → Bool))

def myRelease (numOfThread id : ℕ) : Released → List (Action Lock)
  | .own => guarded (.release id) [] ++ guarded (.pool id) []
  | .foreign cleaned => guarded (.release id) (cleanup numOfThread id cleaned)

def doPeriodCleanup (numOfThread id : ℕ) (cleaned : Option (ℕ → ℕ → Bool)) : List (Action Lock) :=
  guarded (.release id) (cleanup numOfThread id cleaned)

/-- Tasks that are deleted, one after the other, with the pool of the thread that deletes them. -/
def drop (numOfThread : ℕ) (deleted : List (ℕ × Released)) : List (Action Lock) :=
  deleted.flatMap fun d ↦ myRelease numOfThread d.1 d.2

/-! ## `TaskGroup` and `Task` -/

/-- The run queue of this thread gets the task that is woken. -/
def addRunnable : Option ℕ → List (Action Lock)
  | none => []
  | some q => enqueue q

/-- What `terminate` does for one of the groups that the task is registered in. -/
structure Inform where
  group : ℕ
  /-- The queue that the waiter of the group is put in, if this is the last task it waits for. -/
  woken : Option ℕ
  /-- The references `nowCanRun` and `ptr` of `addRunnable`. -/
  dropped : List (ℕ × Released)
  /-- The argument of `informDone`. -/
  droppedAfter : List (ℕ × Released)

def informDone (numOfThread : ℕ) (i : Inform) : List (Action Lock) :=
  guarded (.group i.group) (addRunnable i.woken ++ drop numOfThread i.dropped)

/-- `blockedTask` is overwritten. -/
def resumeIfNothingToWait (numOfThread g : ℕ) (dropped : List (ℕ × Released)) :
    List (Action Lock) :=
  guarded (.group g) (drop numOfThread dropped)

def addToGroup (t : ℕ) : List (Action Lock) := guarded (.task t) []

def terminate (numOfThread t : ℕ) (groups : List Inform) : List (Action Lock) :=
  guarded (.task t)
    (groups.flatMap fun i ↦ informDone numOfThread i ++ drop numOfThread i.droppedAfter)

/-- The calls that a thread may make while it holds no lock. -/
inductive Call (numOfThread : ℕ) : List (Action Lock) → Prop
  | enqueue (q : ℕ) : Call numOfThread (enqueue q)
  | dequeue (q : ℕ) : Call numOfThread (dequeue q)
  | dequeueHalf (q : ℕ) : Call numOfThread (dequeueHalf q)
  | replace (q : ℕ) : Call numOfThread (replace q)
  | size (q : ℕ) : Call numOfThread (size q)
  | myAlloc (id : ℕ) : Call numOfThread (myAlloc id)
  | myReleaseCache (id : ℕ) : Call numOfThread (myReleaseCache id)
  | myRelease (id : ℕ) (r : Released) : Call numOfThread (myRelease numOfThread id r)
  | doPeriodCleanup (id : ℕ) (cleaned : Option (ℕ → ℕ → Bool)) :
      Call numOfThread (doPeriodCleanup numOfThread id cleaned)
  | resumeIfNothingToWait (g : ℕ) (dropped : List (ℕ × Released)) :
      Call numOfThread (resumeIfNothingToWait numOfThread g dropped)
  | addToGroup (t : ℕ) : Call numOfThread (addToGroup t)
  | terminate (t : ℕ) (groups : List Inform) :
      Call numOfThread (terminate numOfThread t groups)

/-! ## The order of the locks -/

/-- A task before its groups, these before the queues, and all of them before the pools. A pool is
released to under the lock for releases of another one. -/
def Lock.rank : Lock → ℕ
  | .task _ => 0
  | .group _ => 1
  | .skiplist _ => 2
  | .release _ => 3
  | .pool _ => 4

variable {n id : ℕ}

theorem block_guarded_nil {l : Lock} {b : ℕ} (h : b ≤ l.rank) :
    Block Lock.rank b (guarded l []) :=
  Block.guarded Block.nil h (Nat.lt_succ_self l.rank)

theorem block_cleanup (cleaned : Option (ℕ → ℕ → Bool)) :
    Block Lock.rank 4 (cleanup n id cleaned) := by
  cases cleaned with
  | none => exact Block.nil
  | some cached =>
    refine Block.flatMap fun i _ ↦ ?_
    split
    · exact Block.nil
    · refine Block.flatMap fun j _ ↦ ?_
      split
      · exact block_guarded_nil (Nat.le_refl 4)
      · exact Block.nil

/-- Another pool is locked while this one is locked for a release, never the other way round. -/
theorem block_guarded_cleanup (cleaned : Option (ℕ → ℕ → Bool)) :
    Block Lock.rank 3 (guarded (.release id) (cleanup n id cleaned)) :=
  Block.guarded (block_cleanup cleaned) (Nat.le_refl 3) (Nat.lt_succ_self 3)

theorem block_myRelease (r : Released) : Block Lock.rank 3 (myRelease n id r) := by
  cases r with
  | own =>
    exact (block_guarded_nil (Nat.le_refl 3)).append (block_guarded_nil (Nat.le_succ 3))
  | foreign cleaned => exact block_guarded_cleanup cleaned

theorem block_drop (deleted : List (ℕ × Released)) : Block Lock.rank 3 (drop n deleted) :=
  Block.flatMap fun d _ ↦ block_myRelease d.2

theorem block_addRunnable (woken : Option ℕ) : Block Lock.rank 2 (addRunnable woken) := by
  cases woken with
  | none => exact Block.nil
  | some q => exact block_guarded_nil (Nat.le_refl 2)

theorem block_informDone (i : Inform) : Block Lock.rank 1 (informDone n i) := by
  have hbody : Block Lock.rank 2 (addRunnable i.woken ++ drop n i.dropped) :=
    (block_addRunnable i.woken).append ((block_drop i.dropped).mono (Nat.le_succ 2))
  exact Block.guarded hbody (Nat.le_refl 1) (Nat.lt_succ_self 1)

theorem block_terminate (t : ℕ) (groups : List Inform) :
    Block Lock.rank 0 (terminate n t groups) := by
  have hbody : Block Lock.rank 1
      (groups.flatMap fun i ↦ informDone n i ++ drop n i.droppedAfter) := by
    refine Block.flatMap fun i _ ↦ ?_
    exact (block_informDone i).append ((block_drop i.droppedAfter).mono (by omega))
  exact Block.guarded hbody (Nat.le_refl 0) (Nat.lt_succ_self 0)

/-- Every call takes its locks in the order of their ranks. -/
theorem Call.block {as : List (Action Lock)} (h : Call n as) : Block Lock.rank 0 as := by
  cases h with
  | enqueue | dequeue | dequeueHalf | replace | size | myAlloc | myReleaseCache | addToGroup =>
    exact block_guarded_nil (Nat.zero_le _)
  | myRelease id r => exact (block_myRelease r).mono (Nat.zero_le 3)
  | doPeriodCleanup id cleaned => exact (block_guarded_cleanup cleaned).mono (Nat.zero_le 3)
  | resumeIfNothingToWait g dropped =>
    exact Block.guarded (block_drop dropped) (Nat.zero_le 1) (by simp [Lock.rank])
  | terminate t groups => exact block_terminate t groups

variable {Thread : Type*} [DecidableEq Thread]

theorem reachable_inv {σ : State Thread Lock}
    (hσ : Transition.Reachable (Step (Call n)) State.initial σ) :
    ∃ held, Inv Lock.rank σ held := by
  refine hσ.invariant (I := fun σ ↦ ∃ held, Inv Lock.rank σ held) ⟨_, Inv.initial⟩ ?_
  rintro σ t σ' ⟨held, hinv⟩ hstep
  exact hstep.inv (fun as has ↦ (Call.block has).ordered) hinv

/-- **No deadlock among the locks.** No thread waits for a lock that it holds itself, and no threads
wait for one another in a cycle. -/
theorem no_deadlock {numOfThread : ℕ} {σ : State Thread Lock}
    (hσ : Transition.Reachable (Step (Call numOfThread)) State.initial σ) (t : Thread) :
    ¬σ.Waits t t ∧ ¬Relation.TransGen σ.Waits t t := by
  obtain ⟨held, hinv⟩ := reachable_inv hσ
  exact ⟨fun h ↦ hinv.not_cyclic t (.single h), hinv.not_cyclic t⟩

/-- Pool `0` cleans up towards pool `1` and the daemon waits to clean it up. -/
theorem no_deadlock_daemon_waits : ∃ σ : State ℕ Lock,
    Transition.Reachable (Step (Call 2)) State.initial σ ∧ σ.Waits 1 0 ∧
      ¬σ.Waits 0 0 ∧ ¬Relation.TransGen σ.Waits 0 0 := by
  have hrun : ∃ σ : State ℕ Lock,
      Transition.Reachable (Step (Call 2)) State.initial σ ∧ σ.Waits 1 0 :=
    ⟨_, (((Transition.Reachable.refl _ _).snoc
        (.call (t := 0) rfl (.myRelease 0 (.foreign (some fun _ j ↦ j == 0))))).snoc
        (.acquire (t := 0) rfl rfl)).snoc
        (.call (t := 1) rfl (.doPeriodCleanup 0 none)),
      .release 0, _, rfl, rfl⟩
  obtain ⟨σ, hσ, hwaits⟩ := hrun
  exact ⟨σ, hσ, hwaits, no_deadlock hσ 0⟩

end TYThread.Locks
