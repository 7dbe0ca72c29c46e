import Mathlib.Logic.Function.Basic
import TYThread.Group.Model

/-!
# The scheduler

Any number of threads, each in its loop `run`, with the tasks they run. A step is one action that
other threads can see: an operation on one queue, a locked read or write of a task or of a group,
one of the actions inside `informDone` and `resumeIfNothingToWait`, or the unlocked read in `wait`.
All else a thread does is its own, and is part of the step before. Steps of different threads come
in any order.

What a task does is up to the program: it may make tasks and hand them to `addRunnable`, register
tasks, wait, yield, finish or throw, in any order.

The queues are abstract: a list of tasks, on which `enqueue`, `dequeue`, `dequeue_half` and
`replace` do what the refinement of `Skiplist` says.
-/

namespace TYThread

/-! ## Where a thread is -/

/-- The next action of `informDone`. -/
inductive InformPhase
  | decrement
  | take
  /-- `nowCanRun` holds `w`, which is to be enqueued. -/
  | enqueue (w : ℕ)
  | unlock
deriving DecidableEq, Repr

/-- The next action of `resumeIfNothingToWait`. -/
inductive ResumePhase
  | lock
  | test
  | unlock (result : Bool)
deriving DecidableEq, Repr

/-- What a thread does with the task it has taken up. -/
inductive Activity
  /-- The callback runs. -/
  | user
  /-- `terminate` is about to inform the groups `rest`. -/
  | terminating (rest : List ℕ)
  /-- `terminate` is in `informDone` of the group `g`, with the groups `rest` to follow. -/
  | inform (g : ℕ) (rest : List ℕ) (phase : InformPhase)
  /-- Control is back from the task, and its state has not been looked at yet. -/
  | switched
  /-- `handle_after_continuationOut` is in `resumeIfNothingToWait` of the group `g`. -/
  | resume (g : ℕ) (phase : ResumePhase)
  /-- `resumeIfNothingToWait` has returned `true`. -/
  | requeue
deriving DecidableEq, Repr

/-- Where a thread is in `run`. -/
inductive Pc
  /-- The main thread before it calls `run`. -/
  | main
  /-- At the start of `run_once`. -/
  | loop
  /-- About to steal from thread `v`. -/
  | steal (v : ℕ)
  /-- About to call `replace` with the stolen tasks `xs`. -/
  | install (xs : List ℕ)
  /-- Nothing was stolen. -/
  | checkMpi
  /-- In the loop of `run_mpi_blocked`, at entry `k`. -/
  | poll (k : ℕ)
  /-- With the task `t`, which is entry `k` of `mpi_blocked_queue` when `polled` is `some k`. -/
  | task (t : ℕ) (polled : Option ℕ) (act : Activity)
  /-- About to erase entry `k` of `mpi_blocked_queue`. -/
  | erase (k : ℕ)
  /-- `run_once` has returned `false`. -/
  | idle
  /-- The main thread is about to join thread `c`. -/
  | join (c : ℕ)
  /-- `run` has returned. -/
  | exited
deriving DecidableEq, Repr

structure PerThreadMgr where
  runnableQueue : List ℕ := []
  mpiBlockedQueue : List ℕ := []
  pc : Pc := .loop
deriving DecidableEq, Repr

structure Sched where
  thread : ℕ → PerThreadMgr
  task : ℕ → Task
  group : ℕ → TaskGroup
  /-- The tasks made so far are those below `next`. -/
  next : ℕ
  terminatable : Bool

namespace Sched

/-- The main thread is in the program's own code and the others have started `run`. -/
def initial : Sched where
  thread := fun i ↦ if i = 0 then { pc := .main } else {}
  task := fun _ ↦ {}
  group := fun _ ↦ {}
  next := 0
  terminatable := false

variable (σ : Sched)

def setThread (i : ℕ) (m : PerThreadMgr) : Sched :=
  { σ with thread := Function.update σ.thread i m }

def setTask (t : ℕ) (a : Task) : Sched := { σ with task := Function.update σ.task t a }

def setGroup (g : ℕ) (gp : TaskGroup) : Sched := { σ with group := Function.update σ.group g gp }

/-- Thread `i` goes on to `pc`. -/
def goto (i : ℕ) (pc : Pc) : Sched := σ.setThread i { σ.thread i with pc }

/-- Thread `i` enqueues `t` and goes on to `pc`. -/
def enqueue (i t : ℕ) (pc : Pc) : Sched :=
  σ.setThread i { σ.thread i with runnableQueue := (σ.thread i).runnableQueue ++ [t], pc }

section
variable (i t g : ℕ) (m : PerThreadMgr) (a : Task) (gp : TaskGroup)

@[simp] theorem setThread_thread : (σ.setThread i m).thread = Function.update σ.thread i m := rfl
@[simp] theorem setThread_task : (σ.setThread i m).task = σ.task := rfl
@[simp] theorem setThread_group : (σ.setThread i m).group = σ.group := rfl
@[simp] theorem setThread_next : (σ.setThread i m).next = σ.next := rfl
@[simp] theorem setTask_thread : (σ.setTask t a).thread = σ.thread := rfl
@[simp] theorem setTask_task : (σ.setTask t a).task = Function.update σ.task t a := rfl
@[simp] theorem setTask_group : (σ.setTask t a).group = σ.group := rfl
@[simp] theorem setTask_next : (σ.setTask t a).next = σ.next := rfl
@[simp] theorem setGroup_thread : (σ.setGroup g gp).thread = σ.thread := rfl
@[simp] theorem setGroup_task : (σ.setGroup g gp).task = σ.task := rfl
@[simp] theorem setGroup_group : (σ.setGroup g gp).group = Function.update σ.group g gp := rfl
@[simp] theorem setGroup_next : (σ.setGroup g gp).next = σ.next := rfl

end

end Sched

/-! ## Steps -/

/-- What a thread may do on its way through `run` without touching a task, when there are `N`
threads. -/
inductive Control (N : ℕ) (σ : Sched) (i : ℕ) : Pc → Pc → Prop
  | start : Control N σ i .main .loop
  /-- `dequeue` has returned null. -/
  | empty (queue : (σ.thread i).runnableQueue = []) : Control N σ i .loop (.steal 0)
  | self : Control N σ i (.steal i) (.steal (i + 1))
  /-- `dequeue_half` has returned null. -/
  | nothing {v : ℕ} (lt : v < N) (other : v ≠ i) (queue : (σ.thread v).runnableQueue = []) :
      Control N σ i (.steal v) (.steal (v + 1))
  | unsuccessful {v : ℕ} (le : N ≤ v) : Control N σ i (.steal v) .checkMpi
  | noMpi (queue : (σ.thread i).mpiBlockedQueue = []) : Control N σ i .checkMpi .idle
  | someMpi (queue : (σ.thread i).mpiBlockedQueue ≠ []) : Control N σ i .checkMpi (.poll 0)
  | polled {k : ℕ} (le : (σ.thread i).mpiBlockedQueue.length ≤ k) : Control N σ i (.poll k) .loop
  /-- `wait_task`. -/
  | sleep (go : σ.terminatable = false) : Control N σ i .idle .loop
  | leave (stop : σ.terminatable = true) (child : i ≠ 0) : Control N σ i .idle .exited
  | sweep (stop : σ.terminatable = true) (root : i = 0) : Control N σ i .idle (.join 1)
  | joined {c : ℕ} (lt : c < N) (child : (σ.thread c).pc = .exited) :
      Control N σ i (.join c) (.join (c + 1))
  | swept {c : ℕ} (le : N ≤ c) : Control N σ i (.join c) .exited

/-- `continuationIn`, and what little of it there is in `runInStack`: a task that was in a `wait`
comes back from it. -/
def Task.continuationIn (a : Task) : Task :=
  { a with
    state := if a.state = .initial ∧ a.isPure = false then .runnable else a.state
    waiting := none }

/-- Where a thread goes when it is done with a task. -/
def afterTask : Option ℕ → Pc
  | none => .loop
  | some k => .erase k

/-- The program may act: in the main thread before `run`, and in a task. -/
def Pc.Client : Pc → Prop
  | .main => True
  | .task _ _ .user => True
  | _ => False

/-- What a step is for those who set rules for the program. -/
inductive Label
  /-- A task gets control, or gets it back. -/
  | back (t : ℕ)
  /-- The task `c` registers the task `t` in the group `g`. -/
  | registe (c t g : ℕ)
  /-- The task `c` calls `wait`, which returns at once or not. -/
  | wait (c g : ℕ) (returned : Bool)
  /-- The task `c` destroys the group `g`. -/
  | destroy (c g : ℕ)
  | other
deriving DecidableEq, Repr

/-- One step of the thread `i`, one of `N`. -/
inductive Step (N : ℕ) (σ : Sched) : Label → Sched → Prop
  -- The program outside of tasks and threads.
  | terminateGracefully : Step N σ .other { σ with terminatable := true }
  /-- `makeRefPtr<Task>(callback)`, and `setPure(isPure)`. -/
  | newTask {i : ℕ} (isPure : Bool) (lt : i < N) (client : (σ.thread i).pc.Client) :
      Step N σ .other { σ.setTask σ.next { isPure } with next := σ.next + 1 }
  /-- `addRunnable`, once for each task. -/
  | addRunnable {i t : ℕ} (lt : i < N) (client : (σ.thread i).pc.Client) (made : t < σ.next)
      (once : (σ.task t).spawned = false) :
      Step N σ .other
        ((σ.setTask t { σ.task t with spawned := true }).enqueue i t (σ.thread i).pc)
  -- The loop of a thread.
  | control {i : ℕ} {pc pc' : Pc} (lt : i < N) (here : (σ.thread i).pc = pc)
      (move : Control N σ i pc pc') : Step N σ .other (σ.goto i pc')
  | dequeue {i t : ℕ} {ts : List ℕ} (lt : i < N) (here : (σ.thread i).pc = .loop)
      (queue : (σ.thread i).runnableQueue = t :: ts) :
      Step N σ (.back t) ((σ.setTask t (σ.task t).continuationIn).setThread i
        { σ.thread i with runnableQueue := ts, pc := .task t none .user })
  | steal {i v : ℕ} {xs ys : List ℕ} (lt : i < N) (here : (σ.thread i).pc = .steal v)
      (victim : v < N) (ne : v ≠ i) (queue : (σ.thread v).runnableQueue = xs ++ ys)
      (nonempty : xs ≠ []) :
      Step N σ .other ((σ.setThread v { σ.thread v with runnableQueue := ys }).goto i (.install xs))
  | install {i : ℕ} {xs : List ℕ} (lt : i < N) (here : (σ.thread i).pc = .install xs) :
      Step N σ .other (σ.setThread i { σ.thread i with runnableQueue := xs, pc := .loop })
  | pollTask {i k t : ℕ} (lt : i < N) (here : (σ.thread i).pc = .poll k)
      (entry : (σ.thread i).mpiBlockedQueue[k]? = some t) :
      Step N σ (.back t) ((σ.setTask t (σ.task t).continuationIn).goto i (.task t (some k) .user))
  -- A running task.
  | registe {i c t g : ℕ} {p : Option ℕ} (lt : i < N) (here : (σ.thread i).pc = .task c p .user)
      (made : t < σ.next) (unlocked : (σ.task t).locked = false)
      (room : (σ.task t).groups.length < maxGroups) (alive : (σ.group g).alive = true)
      (accepted : (σ.task t).isFini = false) :
      Step N σ (.registe c t g) ((σ.setTask t ((σ.task t).addToGroup g (σ.group g)).1).setGroup g
        { ((σ.task t).addToGroup g (σ.group g)).2.1 with waited := false })
  | registeFini {i c t g : ℕ} {p : Option ℕ} (lt : i < N)
      (here : (σ.thread i).pc = .task c p .user) (made : t < σ.next)
      (unlocked : (σ.task t).locked = false) (alive : (σ.group g).alive = true)
      (rejected : (σ.task t).isFini = true) :
      Step N σ (.registe c t g) ((σ.setTask t ((σ.task t).addToGroup g (σ.group g)).1).setGroup g
        ((σ.task t).addToGroup g (σ.group g)).2.1)
  | waitDone {i c g : ℕ} {p : Option ℕ} (lt : i < N) (here : (σ.thread i).pc = .task c p .user)
      (alive : (σ.group g).alive = true) (zero : (σ.group g).blockingCount = 0) :
      Step N σ (.wait c g true) (σ.setGroup g { σ.group g with waited := true })
  | waitYield {i c g : ℕ} {p : Option ℕ} (lt : i < N) (here : (σ.thread i).pc = .task c p .user)
      (alive : (σ.group g).alive = true) (blocking : (σ.group g).blockingCount ≠ 0)
      (impure : (σ.task c).isPure = false) :
      Step N σ (.wait c g false) (((σ.setTask c { σ.task c with
        state := .groupWait, blockedBy := some g, waiting := some g, wakes := 0 }).setGroup g
          { σ.group g with waited := true }).goto i (.task c p .switched))
  /-- `co_yield`, with the state `Runnable` or `MPIBlocked`. -/
  | yield {i c : ℕ} {p : Option ℕ} {state : TaskState} (lt : i < N)
      (here : (σ.thread i).pc = .task c p .user) (impure : (σ.task c).isPure = false)
      (as : state = .runnable ∨ state = .mpiBlocked) :
      Step N σ .other ((σ.setTask c { σ.task c with state }).goto i (.task c p .switched))
  | destroy {i c g : ℕ} {p : Option ℕ} (lt : i < N) (here : (σ.thread i).pc = .task c p .user)
      (alive : (σ.group g).alive = true) :
      Step N σ (.destroy c g) (σ.setGroup g { σ.group g with alive := false })
  -- `terminate`, after the callback has returned or thrown a `std::exception`.
  | terminate {i c : ℕ} {p : Option ℕ} (lt : i < N) (here : (σ.thread i).pc = .task c p .user)
      (unlocked : (σ.task c).locked = false) :
      Step N σ .other ((σ.setTask c { σ.task c with state := .terminated, locked := true }).goto i
        (.task c p (.terminating (σ.task c).groups)))
  | informLock {i c g : ℕ} {p : Option ℕ} {rest : List ℕ} (lt : i < N)
      (here : (σ.thread i).pc = .task c p (.terminating (g :: rest)))
      (free : (σ.group g).lock = none) :
      Step N σ .other ((σ.setGroup g { σ.group g with lock := some i }).goto i
        (.task c p (.inform g rest .decrement)))
  | informDecrement {i c g : ℕ} {p : Option ℕ} {rest : List ℕ} (lt : i < N)
      (here : (σ.thread i).pc = .task c p (.inform g rest .decrement)) :
      Step N σ .other ((σ.setGroup g (σ.group g).decrement).goto i
        (.task c p (.inform g rest
          (if (σ.group g).decrement.blockingCount = 0 then .take else .unlock))))
  | informTake {i c g w : ℕ} {p : Option ℕ} {rest : List ℕ} (lt : i < N)
      (here : (σ.thread i).pc = .task c p (.inform g rest .take))
      (blocked : (σ.group g).blockedTask = some w) :
      Step N σ .other ((σ.setGroup g (σ.group g).take).goto i
        (.task c p (.inform g rest (.enqueue w))))
  | informNobody {i c g : ℕ} {p : Option ℕ} {rest : List ℕ} (lt : i < N)
      (here : (σ.thread i).pc = .task c p (.inform g rest .take))
      (nobody : (σ.group g).blockedTask = none) :
      Step N σ .other (σ.goto i (.task c p (.inform g rest .unlock)))
  | informEnqueue {i c g w : ℕ} {p : Option ℕ} {rest : List ℕ} (lt : i < N)
      (here : (σ.thread i).pc = .task c p (.inform g rest (.enqueue w))) :
      Step N σ .other ((σ.setTask w { σ.task w with
        state := .runnable, wakes := (σ.task w).wakes + 1 }).enqueue i w
          (.task c p (.inform g rest .unlock)))
  | informUnlock {i c g : ℕ} {p : Option ℕ} {rest : List ℕ} (lt : i < N)
      (here : (σ.thread i).pc = .task c p (.inform g rest .unlock)) :
      Step N σ .other ((σ.setGroup g { σ.group g with lock := none }).goto i
        (.task c p (.terminating rest)))
  | terminated {i c : ℕ} {p : Option ℕ} (lt : i < N)
      (here : (σ.thread i).pc = .task c p (.terminating [])) :
      Step N σ .other ((σ.setTask c { σ.task c with locked := false }).goto i
        (.task c p .switched))
  -- Back in the thread: `run_mpi_blocked` and `handle_after_continuationOut`.
  | handleRunnable {i t : ℕ} {p : Option ℕ} (lt : i < N)
      (here : (σ.thread i).pc = .task t p .switched) (state : (σ.task t).state = .runnable) :
      Step N σ .other (σ.enqueue i t (afterTask p))
  | handleMpi {i t : ℕ} (lt : i < N) (here : (σ.thread i).pc = .task t none .switched)
      (state : (σ.task t).state = .mpiBlocked) :
      Step N σ .other (σ.setThread i { σ.thread i with
        mpiBlockedQueue := (σ.thread i).mpiBlockedQueue ++ [t], pc := .loop })
  | stillMpi {i t k : ℕ} (lt : i < N) (here : (σ.thread i).pc = .task t (some k) .switched)
      (state : (σ.task t).state = .mpiBlocked) : Step N σ .other (σ.goto i (.poll (k + 1)))
  | handleWait {i t g : ℕ} {p : Option ℕ} (lt : i < N)
      (here : (σ.thread i).pc = .task t p .switched) (state : (σ.task t).state = .groupWait)
      (blockedBy : (σ.task t).blockedBy = some g) :
      Step N σ .other (σ.goto i (.task t p (.resume g .lock)))
  | handleOther {i t : ℕ} {p : Option ℕ} (lt : i < N)
      (here : (σ.thread i).pc = .task t p .switched)
      (state : (σ.task t).state = .terminated ∨ (σ.task t).state = .initial) :
      Step N σ .other (σ.goto i (afterTask p))
  | resumeLock {i t g : ℕ} {p : Option ℕ} (lt : i < N)
      (here : (σ.thread i).pc = .task t p (.resume g .lock)) (free : (σ.group g).lock = none) :
      Step N σ .other ((σ.setGroup g { σ.group g with lock := some i }).goto i
        (.task t p (.resume g .test)))
  | resumeZero {i t g : ℕ} {p : Option ℕ} (lt : i < N)
      (here : (σ.thread i).pc = .task t p (.resume g .test))
      (zero : (σ.group g).blockingCount = 0) :
      Step N σ .other ((σ.setTask t { σ.task t with state := .runnable }).goto i
        (.task t p (.resume g (.unlock true))))
  | resumeBlock {i t g : ℕ} {p : Option ℕ} (lt : i < N)
      (here : (σ.thread i).pc = .task t p (.resume g .test))
      (blocking : (σ.group g).blockingCount ≠ 0) :
      Step N σ .other ((σ.setGroup g { σ.group g with blockedTask := some t }).goto i
        (.task t p (.resume g (.unlock false))))
  | resumeUnlock {i t g : ℕ} {p : Option ℕ} {result : Bool} (lt : i < N)
      (here : (σ.thread i).pc = .task t p (.resume g (.unlock result))) :
      Step N σ .other ((σ.setGroup g { σ.group g with lock := none }).goto i
        (if result then .task t p .requeue else afterTask p))
  | requeue {i t : ℕ} {p : Option ℕ} (lt : i < N) (here : (σ.thread i).pc = .task t p .requeue) :
      Step N σ .other ((σ.setTask t { σ.task t with wakes := (σ.task t).wakes + 1 }).enqueue i t
        (afterTask p))
  /-- `erase(find(ptr))` for the entry `k`. -/
  | erase {i k t : ℕ} (lt : i < N) (here : (σ.thread i).pc = .erase k)
      (entry : (σ.thread i).mpiBlockedQueue[k]? = some t) :
      Step N σ .other (σ.setThread i { σ.thread i with
        mpiBlockedQueue := (σ.thread i).mpiBlockedQueue.erase t, pc := .loop })

end TYThread
