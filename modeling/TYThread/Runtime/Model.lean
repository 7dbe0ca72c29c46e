import Mathlib.Data.Nat.Pairing
import TYThread.Family.Refinement
import TYThread.Group.Destroy

/-!
# The runtime

The scheduler on top of the lists and the reference-counted handles. Where the scheduler takes a
task from a queue or puts one into it, the thread calls a method of `Skiplist`, and the tasks that
the threads and the groups hold are held by `TaskPtr`s. A step of the runtime is a step of the
scheduler together with the one call that it makes, or it is the birth, the death or the assignment
of a handle.

## Handles

The scheduler relies on four kinds of handles, and each has a name of its own: `ptr` in
`run_runnable`, the entries of `mpi_blocked_queue`, `blockedTask`, and `nowCanRun` in `informDone`.
All other handles are alike: those of the program, `currentTask__` and the parameters of functions.
They come and go, and are assigned, between any two steps.

## Addresses

The allocator may give the address of a deleted task to a new one. So a handle holds an address, and
it refers to the task that was made there last.
-/

namespace TYThread

open Transition

/-! ## Names -/

/-- The handles that the scheduler relies on, and all others. -/
inductive Holder
  /-- `ptr` in `run_runnable` of the thread `i`. -/
  | ptr (i : ℕ)
  /-- The entry of `mpi_blocked_queue` of the thread `i` for the task `t`. -/
  | entry (i t : ℕ)
  | blockedTask (g : ℕ)
  /-- `nowCanRun` in `informDone`, called by the thread `i`. -/
  | nowCanRun (i : ℕ)
  | other (n : ℕ)
deriving DecidableEq, Repr

def Holder.name : Holder → ℕ
  | ptr i => 5 * i
  | entry i t => 5 * Nat.pair i t + 1
  | blockedTask g => 5 * g + 2
  | nowCanRun i => 5 * i + 3
  | other n => 5 * n + 4

instance : Coe Holder ℕ := ⟨Holder.name⟩

/-- The parameter `ptr` of `handle_after_continuationOut`. -/
def Holder.inHand (i t : ℕ) : Option ℕ → Holder
  | none => ptr i
  | some _ => entry i t

inductive ListName
  | runnableQueue (i : ℕ)
  /-- `skiplistptr` in `run_once` of the thread `i`. -/
  | skiplistptr (i : ℕ)
deriving DecidableEq, Repr

def ListName.name : ListName → ℕ
  | runnableQueue i => 2 * i
  | skiplistptr i => 2 * i + 1

instance : Coe ListName ℕ := ⟨ListName.name⟩

theorem Holder.name_injective : Function.Injective Holder.name := by
  intro x y h
  cases x with
  | entry i t =>
    cases y with
    | entry j u =>
      have hpair : Nat.pair i t = Nat.pair j u := by
        simp only [name] at h
        omega
      obtain ⟨rfl, rfl⟩ := Nat.pair_eq_pair.mp hpair
      rfl
    | _ =>
      simp only [name] at h
      omega
  | _ =>
    cases y <;> simp only [name] at h <;> first | omega | (congr 1; omega)

theorem ListName.name_injective : Function.Injective ListName.name := by
  intro x y h
  cases x <;> cases y <;> simp only [name] at h <;> first | omega | (congr 1; omega)

/-! ## Two more operations on handles and lists -/

namespace World

/-- `DerivedRefPtr h = nullptr`. -/
def nullConstruct (w : World) (h : ℕ) : World := w.setHandle h (some none)

/-- The destructor of a `unique_ptr` to the list `l`, which has no elements. -/
def destroyList (w : World) (l : ℕ) : Option World := do
  let s ← w.lists l
  let heap ← s.destructor 0 w.heap
  return { w with heap }.setList l none

end World

/-! ## The state -/

structure Runtime where
  sched : Sched
  world : World
  /-- Where each task was made. -/
  addr : ℕ → Addr

namespace Runtime

/-- Every thread has an empty `runnable_queue`, and in every group `blockedTask` is null. -/
def initial (N : ℕ) : Runtime where
  sched := Sched.initial
  world := { World.initial ((Finset.range N).image fun i ↦ (ListName.runnableQueue i).name) with
    handles := fun h ↦ if h % 5 = 2 then some none else none }
  addr := fun _ ↦ 0

variable (ρ : Runtime)

/-- No task has been made since where `t` was made. -/
def Current (t : ℕ) : Prop := t < ρ.sched.next ∧ ∀ u < ρ.sched.next, ρ.addr u = ρ.addr t → u ≤ t

/-- The handle `h` refers to the task `t`. -/
def Refers (h t : ℕ) : Prop := ρ.world.handles h = some (some (ρ.addr t)) ∧ ρ.Current t

instance (t : ℕ) : Decidable (ρ.Current t) :=
  inferInstanceAs (Decidable (t < ρ.sched.next ∧ ∀ u < ρ.sched.next, ρ.addr u = ρ.addr t → u ≤ t))

instance (h t : ℕ) : Decidable (ρ.Refers h t) :=
  inferInstanceAs (Decidable (ρ.world.handles h = some (some (ρ.addr t)) ∧ ρ.Current t))

/-- No task has `2 ^ 32` owners. -/
def Roomy : Prop := ∀ a, ρ.world.owners a < unsignedRange

end Runtime

/-! ## Steps without a call -/

/-- The task that `ptr` in `run_runnable` holds. -/
def Pc.ptr : Pc → Option ℕ
  | .task t none _ => some t
  | _ => none

/-- What `nowCanRun` holds in a phase of `informDone`. -/
def InformPhase.Holds (addr : ℕ → Addr) (v : Option (Option Addr)) : InformPhase → Prop
  | .decrement => v = some none
  | .take => v = some none
  | .enqueue w => v = some (some (addr w))
  | .unlock => v ≠ none

/-- What `nowCanRun` holds, if it is there. -/
def Pc.NowCanRun (addr : ℕ → Addr) (v : Option (Option Addr)) : Pc → Prop
  | .task _ _ (.inform _ _ phase) => phase.Holds addr v
  | _ => v = none

/-- The list that has been stolen and not installed. -/
def Pc.installing : Pc → Option (List ℕ)
  | .install xs => some xs
  | _ => none

/-- At `pc'` the thread has the list that it has at `pc`, and relies on no other handles. -/
structure Pc.Keeps (pc pc' : Pc) : Prop where
  installing : pc'.installing = pc.installing
  ptr : ∀ t, pc'.ptr = some t → pc.ptr = some t
  nowCanRun : ∀ addr v, pc.NowCanRun addr v → pc'.NowCanRun addr v

/-- The thread `i` goes from `pc` to `pc'` without a call of `dequeue` or `dequeue_half`, and
without a move of `blockedTask`. -/
structure Pc.Quiet (N i : ℕ) (pc pc' : Pc) : Prop extends Pc.Keeps pc pc' where
  dequeue : pc ≠ .loop
  dequeueHalf : ∀ v, pc = .steal v → v < N → v = i
  informTake : ∀ c p g rest, pc ≠ .task c p (.inform g rest .take)

/-- The step calls nothing. -/
structure Sched.Quiet (N : ℕ) (σ σ' : Sched) : Prop where
  next : σ'.next = σ.next
  queue : ∀ i, (σ'.thread i).runnableQueue = (σ.thread i).runnableQueue
  mpi : ∀ i, (σ'.thread i).mpiBlockedQueue = (σ.thread i).mpiBlockedQueue
  pc : ∀ i, (σ'.thread i).pc = (σ.thread i).pc ∨ (σ.thread i).pc.Quiet N i (σ'.thread i).pc
  blockedTask : ∀ g, (σ'.group g).blockedTask = (σ.group g).blockedTask
  alive : ∀ g, (σ'.group g).alive = (σ.group g).alive

/-- The operation makes, assigns and destroys only handles that the scheduler does not rely on. -/
inductive Op.Foreign : Op → Prop
  | construct (n : ℕ) (a : Addr) : Foreign (.construct (Holder.other n) a)
  | copyConstruct (n g : ℕ) : Foreign (.copyConstruct (Holder.other n) g)
  | moveConstruct (n m : ℕ) : Foreign (.moveConstruct (Holder.other n) (Holder.other m))
  | copyAssign (n g : ℕ) : Foreign (.copyAssign (Holder.other n) g)
  | moveAssign (n m : ℕ) : Foreign (.moveAssign (Holder.other n) (Holder.other m))
  | nullAssign (n : ℕ) : Foreign (.nullAssign (Holder.other n))
  | destroy (n : ℕ) : Foreign (.destroy (Holder.other n))

/-! ## Steps -/

/-- A step of the scheduler with the call that it makes, or one of a handle. -/
inductive RuntimeStep (N : ℕ) (ρ : Runtime) : Label → Runtime → Prop
  /-- Who registers a task has a handle to it. -/
  | own {l : Label} {σ' : Sched} (step : Step N ρ.sched l σ') (quiet : ρ.sched.Quiet N σ')
      (has : ∀ c t g, l = .registe c t g → ∃ h, ρ.Refers h t) :
      RuntimeStep N ρ l { ρ with sched := σ' }
  | handle {op : Op} {w' : World} (foreign : op.Foreign) (call : World.Step id ρ.world op w') :
      RuntimeStep N ρ .other { ρ with world := w' }
  /-- The end of `run_runnable`. -/
  | dispose {i : ℕ} {w' : World} (lt : i < N) (here : (ρ.sched.thread i).pc.ptr = none)
      (call : (Op.destroy (Holder.ptr i)).exec id ρ.world = some w') :
      RuntimeStep N ρ .other { ρ with world := w' }
  -- The program.
  | newTask {i n : ℕ} {a : Addr} {w' : World} (isPure : Bool) (lt : i < N)
      (client : (ρ.sched.thread i).pc.Client)
      (call : World.Step id ρ.world (.makeRefPtr (Holder.other n) a) w') :
      RuntimeStep N ρ .other {
        sched := { ρ.sched.setTask ρ.sched.next { isPure } with next := ρ.sched.next + 1 }
        world := w'
        addr := Function.update ρ.addr ρ.sched.next a }
  | addRunnable {i t h : ℕ} {w' : World} (lt : i < N) (client : (ρ.sched.thread i).pc.Client)
      (once : (ρ.sched.task t).spawned = false) (has : ρ.Refers h t)
      (call : (Op.enqueueCopy (ListName.runnableQueue i) h).exec id ρ.world = some w') :
      RuntimeStep N ρ .other { ρ with
        sched := (ρ.sched.setTask t { ρ.sched.task t with spawned := true }).enqueue i t
          (ρ.sched.thread i).pc
        world := w' }
  | destroy {i c g : ℕ} {p : Option ℕ} {w' : World} (lt : i < N)
      (here : (ρ.sched.thread i).pc = .task c p .user) (alive : (ρ.sched.group g).alive = true)
      (call : (Op.destroy (Holder.blockedTask g)).exec id ρ.world = some w') :
      RuntimeStep N ρ (.destroy c g) { ρ with
        sched := ρ.sched.setGroup g { ρ.sched.group g with alive := false }
        world := w' }
  -- The loop of a thread.
  | empty {i : ℕ} {w' : World} (lt : i < N) (here : (ρ.sched.thread i).pc = .loop)
      (queue : (ρ.sched.thread i).runnableQueue = [])
      (gone : ρ.world.handles (Holder.ptr i) = none)
      (call : (Op.dequeue (ListName.runnableQueue i) (Holder.ptr i)).exec id ρ.world = some w')
      (result : w'.handles (Holder.ptr i) = some none) :
      RuntimeStep N ρ .other { ρ with sched := ρ.sched.goto i (.steal 0), world := w' }
  | dequeue {i t : ℕ} {ts : List ℕ} {w' : World} (lt : i < N)
      (here : (ρ.sched.thread i).pc = .loop) (queue : (ρ.sched.thread i).runnableQueue = t :: ts)
      (gone : ρ.world.handles (Holder.ptr i) = none)
      (call : (Op.dequeue (ListName.runnableQueue i) (Holder.ptr i)).exec id ρ.world = some w')
      (result : w'.handles (Holder.ptr i) = some (some (ρ.addr t))) :
      RuntimeStep N ρ (.back t) { ρ with
        sched := (ρ.sched.setTask t (ρ.sched.task t).continuationIn).setThread i
          { ρ.sched.thread i with runnableQueue := ts, pc := .task t none .user }
        world := w' }
  | nothing {i v : ℕ} {w' : World} (lt : i < N) (here : (ρ.sched.thread i).pc = .steal v)
      (victim : v < N) (ne : v ≠ i) (queue : (ρ.sched.thread v).runnableQueue = [])
      (call : (Op.dequeueHalf (ListName.runnableQueue v) (ListName.skiplistptr i)).exec id ρ.world
        = some w')
      (result : w'.lists (ListName.skiplistptr i) = none) :
      RuntimeStep N ρ .other { ρ with sched := ρ.sched.goto i (.steal (v + 1)), world := w' }
  | steal {i v : ℕ} {xs ys : List ℕ} {w' : World} (lt : i < N)
      (here : (ρ.sched.thread i).pc = .steal v) (victim : v < N) (ne : v ≠ i)
      (queue : (ρ.sched.thread v).runnableQueue = xs ++ ys) (nonempty : xs ≠ [])
      (call : (Op.dequeueHalf (ListName.runnableQueue v) (ListName.skiplistptr i)).exec id ρ.world
        = some w')
      (result : w'.Contents (ListName.skiplistptr i) (xs.map ρ.addr)) :
      RuntimeStep N ρ .other { ρ with
        sched := (ρ.sched.setThread v { ρ.sched.thread v with runnableQueue := ys }).goto i
          (.install xs)
        world := w' }
  | install {i : ℕ} {xs : List ℕ} {w' w'' : World} (lt : i < N)
      (here : (ρ.sched.thread i).pc = .install xs)
      (call : (Op.replace (ListName.runnableQueue i) (ListName.skiplistptr i)).exec id ρ.world
        = some w')
      (dispose : w'.destroyList (ListName.skiplistptr i) = some w'') :
      RuntimeStep N ρ .other { ρ with
        sched := ρ.sched.setThread i
          { ρ.sched.thread i with runnableQueue := xs, pc := .loop }
        world := w'' }
  -- `handle_after_continuationOut`.
  | handleRunnable {i t : ℕ} {p : Option ℕ} {w' : World} (lt : i < N)
      (here : (ρ.sched.thread i).pc = .task t p .switched)
      (state : (ρ.sched.task t).state = .runnable)
      (call : (Op.enqueueCopy (ListName.runnableQueue i) (Holder.inHand i t p)).exec id ρ.world
        = some w') :
      RuntimeStep N ρ .other { ρ with sched := ρ.sched.enqueue i t (afterTask p), world := w' }
  | handleMpi {i t : ℕ} {w' : World} (lt : i < N)
      (here : (ρ.sched.thread i).pc = .task t none .switched)
      (state : (ρ.sched.task t).state = .mpiBlocked)
      (call : (Op.copyConstruct (Holder.entry i t) (Holder.ptr i)).exec id ρ.world = some w') :
      RuntimeStep N ρ .other { ρ with
        sched := ρ.sched.setThread i { ρ.sched.thread i with
          mpiBlockedQueue := (ρ.sched.thread i).mpiBlockedQueue ++ [t], pc := .loop }
        world := w' }
  | resumeBlock {i t g : ℕ} {p : Option ℕ} {w' : World} (lt : i < N)
      (here : (ρ.sched.thread i).pc = .task t p (.resume g .test))
      (blocking : (ρ.sched.group g).blockingCount ≠ 0)
      (call : (Op.copyAssign (Holder.blockedTask g) (Holder.inHand i t p)).exec id ρ.world
        = some w') :
      RuntimeStep N ρ .other { ρ with
        sched := (ρ.sched.setGroup g { ρ.sched.group g with blockedTask := some t }).goto i
          (.task t p (.resume g (.unlock false)))
        world := w' }
  | requeue {i t : ℕ} {p : Option ℕ} {w' : World} (lt : i < N)
      (here : (ρ.sched.thread i).pc = .task t p .requeue)
      (call : (Op.enqueueCopy (ListName.runnableQueue i) (Holder.inHand i t p)).exec id ρ.world
        = some w') :
      RuntimeStep N ρ .other { ρ with
        sched := (ρ.sched.setTask t
          { ρ.sched.task t with wakes := (ρ.sched.task t).wakes + 1 }).enqueue i t (afterTask p)
        world := w' }
  | erase {i k t : ℕ} {w' : World} (lt : i < N) (here : (ρ.sched.thread i).pc = .erase k)
      (entry : (ρ.sched.thread i).mpiBlockedQueue[k]? = some t)
      (call : (Op.destroy (Holder.entry i t)).exec id ρ.world = some w') :
      RuntimeStep N ρ .other { ρ with
        sched := ρ.sched.setThread i { ρ.sched.thread i with
          mpiBlockedQueue := (ρ.sched.thread i).mpiBlockedQueue.erase t, pc := .loop }
        world := w' }
  -- `informDone`.
  | informLock {i c g : ℕ} {p : Option ℕ} {rest : List ℕ} (lt : i < N)
      (here : (ρ.sched.thread i).pc = .task c p (.terminating (g :: rest)))
      (free : (ρ.sched.group g).lock = none) :
      RuntimeStep N ρ .other { ρ with
        sched := (ρ.sched.setGroup g { ρ.sched.group g with lock := some i }).goto i
          (.task c p (.inform g rest .decrement))
        world := ρ.world.nullConstruct (Holder.nowCanRun i) }
  | informTake {i c g w : ℕ} {p : Option ℕ} {rest : List ℕ} {w' : World} (lt : i < N)
      (here : (ρ.sched.thread i).pc = .task c p (.inform g rest .take))
      (blocked : (ρ.sched.group g).blockedTask = some w)
      (call : (Op.moveAssign (Holder.nowCanRun i) (Holder.blockedTask g)).exec id ρ.world = some w')
      (result : w'.handles (Holder.nowCanRun i) = some (some (ρ.addr w))) :
      RuntimeStep N ρ .other { ρ with
        sched := (ρ.sched.setGroup g (ρ.sched.group g).take).goto i
          (.task c p (.inform g rest (.enqueue w)))
        world := w' }
  | informNobody {i c g : ℕ} {p : Option ℕ} {rest : List ℕ} {w' : World} (lt : i < N)
      (here : (ρ.sched.thread i).pc = .task c p (.inform g rest .take))
      (nobody : (ρ.sched.group g).blockedTask = none)
      (call : (Op.moveAssign (Holder.nowCanRun i) (Holder.blockedTask g)).exec id ρ.world = some w')
      (result : w'.handles (Holder.nowCanRun i) = some none) :
      RuntimeStep N ρ .other { ρ with
        sched := ρ.sched.goto i (.task c p (.inform g rest .unlock))
        world := w' }
  /-- `addRunnable` of a copy of `nowCanRun`. -/
  | informEnqueue {i c g w h : ℕ} {p : Option ℕ} {rest : List ℕ} {w' : World} (lt : i < N)
      (here : (ρ.sched.thread i).pc = .task c p (.inform g rest (.enqueue w)))
      (copy : ρ.Refers h w)
      (call : (Op.enqueueCopy (ListName.runnableQueue i) h).exec id ρ.world = some w') :
      RuntimeStep N ρ .other { ρ with
        sched := (ρ.sched.setTask w { ρ.sched.task w with
          state := .runnable, wakes := (ρ.sched.task w).wakes + 1 }).enqueue i w
            (.task c p (.inform g rest .unlock))
        world := w' }
  /-- `nowCanRun` goes before the lock does. -/
  | informUnlock {i c g : ℕ} {p : Option ℕ} {rest : List ℕ} {w' : World} (lt : i < N)
      (here : (ρ.sched.thread i).pc = .task c p (.inform g rest .unlock))
      (call : (Op.destroy (Holder.nowCanRun i)).exec id ρ.world = some w') :
      RuntimeStep N ρ .other { ρ with
        sched := (ρ.sched.setGroup g { ρ.sched.group g with lock := none }).goto i
          (.task c p (.terminating rest))
        world := w' }

/-- The next call of the thread `i`. -/
inductive Runtime.NextCall (N : ℕ) (ρ : Runtime) (i : ℕ) : Op → Prop
  /-- The end of the last `run_runnable`. -/
  | dispose (here : (ρ.sched.thread i).pc = .loop) (there : ρ.world.handles (Holder.ptr i) ≠ none) :
      NextCall N ρ i (.destroy (Holder.ptr i))
  | dequeue (here : (ρ.sched.thread i).pc = .loop) (gone : ρ.world.handles (Holder.ptr i) = none) :
      NextCall N ρ i (.dequeue (ListName.runnableQueue i) (Holder.ptr i))
  | dequeueHalf {v : ℕ} (here : (ρ.sched.thread i).pc = .steal v) (victim : v < N) (ne : v ≠ i) :
      NextCall N ρ i (.dequeueHalf (ListName.runnableQueue v) (ListName.skiplistptr i))
  | replace {xs : List ℕ} (here : (ρ.sched.thread i).pc = .install xs) :
      NextCall N ρ i (.replace (ListName.runnableQueue i) (ListName.skiplistptr i))
  | handleRunnable {t : ℕ} {p : Option ℕ} (here : (ρ.sched.thread i).pc = .task t p .switched)
      (state : (ρ.sched.task t).state = .runnable) :
      NextCall N ρ i (.enqueueCopy (ListName.runnableQueue i) (Holder.inHand i t p))
  | handleMpi {t : ℕ} (here : (ρ.sched.thread i).pc = .task t none .switched)
      (state : (ρ.sched.task t).state = .mpiBlocked) :
      NextCall N ρ i (.copyConstruct (Holder.entry i t) (Holder.ptr i))
  | resumeBlock {t g : ℕ} {p : Option ℕ}
      (here : (ρ.sched.thread i).pc = .task t p (.resume g .test))
      (blocking : (ρ.sched.group g).blockingCount ≠ 0) :
      NextCall N ρ i (.copyAssign (Holder.blockedTask g) (Holder.inHand i t p))
  | requeue {t : ℕ} {p : Option ℕ} (here : (ρ.sched.thread i).pc = .task t p .requeue) :
      NextCall N ρ i (.enqueueCopy (ListName.runnableQueue i) (Holder.inHand i t p))
  | erase {k t : ℕ} (here : (ρ.sched.thread i).pc = .erase k)
      (entry : (ρ.sched.thread i).mpiBlockedQueue[k]? = some t) :
      NextCall N ρ i (.destroy (Holder.entry i t))
  | informTake {c g : ℕ} {p : Option ℕ} {rest : List ℕ}
      (here : (ρ.sched.thread i).pc = .task c p (.inform g rest .take)) :
      NextCall N ρ i (.moveAssign (Holder.nowCanRun i) (Holder.blockedTask g))
  | informEnqueue {c g w : ℕ} {p : Option ℕ} {rest : List ℕ}
      (here : (ρ.sched.thread i).pc = .task c p (.inform g rest (.enqueue w))) :
      NextCall N ρ i (.enqueueCopy (ListName.runnableQueue i) (Holder.nowCanRun i))
  | informUnlock {c g : ℕ} {p : Option ℕ} {rest : List ℕ}
      (here : (ρ.sched.thread i).pc = .task c p (.inform g rest .unlock)) :
      NextCall N ρ i (.destroy (Holder.nowCanRun i))

/-- A step of a program that keeps to the rules for groups, while no task has `2 ^ 32` owners. -/
structure CarefulRuntimeStep (N : ℕ) (owner : ℕ → ℕ) (ρ : Runtime) (l : Label) (ρ' : Runtime) :
    Prop where
  step : RuntimeStep N ρ l ρ'
  owned : l.Owned owner
  destroys : ρ.sched.Destroys owner l
  unlocked : ρ.sched.Unlocked l
  roomy : ρ.Roomy

variable {N : ℕ} {owner : ℕ → ℕ} {ρ ρ' : Runtime} {l : Label}

/-- **The runtime refines the scheduler.** A step of the runtime is one of the scheduler, unless it
is one of a handle. -/
theorem RuntimeStep.sched (h : RuntimeStep N ρ l ρ') :
    Step N ρ.sched l ρ'.sched ∨ l = .other ∧ ρ'.sched = ρ.sched := by
  cases h with
  | own step => exact Or.inl step
  | handle | dispose => exact Or.inr ⟨rfl, rfl⟩
  | newTask isPure lt client => exact Or.inl (.newTask isPure lt client)
  | addRunnable lt client once has => exact Or.inl (.addRunnable lt client has.2.1 once)
  | destroy lt here alive => exact Or.inl (.destroy lt here alive)
  | empty lt here queue => exact Or.inl (.control lt here (.empty queue))
  | dequeue lt here queue => exact Or.inl (.dequeue lt here queue)
  | nothing lt here victim ne queue => exact Or.inl (.control lt here (.nothing victim ne queue))
  | steal lt here victim ne queue nonempty =>
    exact Or.inl (.steal lt here victim ne queue nonempty)
  | install lt here => exact Or.inl (.install lt here)
  | handleRunnable lt here state => exact Or.inl (.handleRunnable lt here state)
  | handleMpi lt here state => exact Or.inl (.handleMpi lt here state)
  | resumeBlock lt here blocking => exact Or.inl (.resumeBlock lt here blocking)
  | requeue lt here => exact Or.inl (.requeue lt here)
  | erase lt here entry => exact Or.inl (.erase lt here entry)
  | informLock lt here free => exact Or.inl (.informLock lt here free)
  | informTake lt here blocked => exact Or.inl (.informTake lt here blocked)
  | informNobody lt here nobody => exact Or.inl (.informNobody lt here nobody)
  | informEnqueue lt here => exact Or.inl (.informEnqueue lt here)
  | informUnlock lt here => exact Or.inl (.informUnlock lt here)

end TYThread
