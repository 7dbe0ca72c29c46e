import TYThread.Scheduler.Model

/-!
# The MPI hooks

`MPI_Send_Hook` and `MPI_Recv_Hook` start a non-blocking operation, test it once, and if it is not
complete yet they poll it, yielding as `MPIBlocked` between two tests.

MPI is an oracle: any call may return any code, and the calls of `MPI_Test` may store any flag and
any status, the `n`-th call what `test n` says. A hook may poll forever, so it is run with fuel, one
unit for each round of its loop. A hook that has returned does not care how much was left.

## What the hooks do not do

The loop leaves through `RETURN_IF_NOT_SUCCESS` without giving the task its state back, and the
first test does not pass the caller's status on. `hooks_restore_state` and `recv_paths_agree` say
exactly when this matters.
-/

namespace TYThread

/-- `MPI_SUCCESS`. -/
def mpiSuccess : ℤ := 0

/-- What one call of `MPI_Test` does. -/
structure TestResult (Status : Type*) where
  /-- The code that is returned. -/
  code : ℤ
  /-- What is stored in `flag`. -/
  flag : ℤ
  /-- What is stored in the status argument, unless that is `MPI_STATUS_IGNORE`. With `none` the
  argument is left alone. -/
  status : Option Status

/-- What a hook reads and writes: the task it runs in, and the caller's status object. -/
structure HookFrame (Status : Type*) where
  /-- `co_currentTask->state`. -/
  state : TaskState
  /-- The states in which the task has yielded so far, the last one first. -/
  yields : List TaskState := []
  /-- `*status`, or `none` for `MPI_STATUS_IGNORE`. -/
  status : Option Status := none

variable {Status : Type*}

namespace HookFrame

variable (c : HookFrame Status)

/-- `co_yield`. Nobody else changes the state of a task that has yielded in it. -/
def yield : HookFrame Status := { c with yields := c.state :: c.yields }

/-- `MPI_Test` stores `written` in the status object. -/
def writeStatus (written : Option Status) : HookFrame Status :=
  { c with status := c.status.map written.getD }

end HookFrame

/-- The loop of both hooks, from the `n`-th test on: the code returned and the frame then. -/
def pollLoop (test : ℕ → TestResult Status) :
    ℕ → ℕ → HookFrame Status → Option (ℤ × HookFrame Status)
  | 0, _, _ => none
  | fuel + 1, n, c =>
    let c := c.writeStatus (test n).status
    if (test n).code ≠ mpiSuccess then some ((test n).code, c)
    else if (test n).flag ≠ 0 then some ((test n).code, { c with state := .runnable })
    else pollLoop test fuel (n + 1) c.yield

/-- The body of both hooks, given the code that `MPI_Isend` or `MPI_Irecv` returns. The first test
is called with `MPI_STATUS_IGNORE`, the following ones with the status object of the frame. -/
def mpiHook (start : ℤ) (test : ℕ → TestResult Status) (fuel : ℕ) (c : HookFrame Status) :
    Option (ℤ × HookFrame Status) :=
  if start ≠ mpiSuccess then some (start, c)
  else if (test 0).code ≠ mpiSuccess then some ((test 0).code, c)
  else if (test 0).flag ≠ 0 then some ((test 0).code, c)
  else pollLoop test fuel 1 { c with state := .mpiBlocked }.yield

/-- `MPI_Send_Hook`, in a task with the given state. It has no status argument, and all its tests
are called with `MPI_STATUS_IGNORE`. -/
def mpiSendHook (isend : ℤ) (test : ℕ → TestResult Status) (fuel : ℕ) (state : TaskState) :
    Option (ℤ × HookFrame Status) :=
  mpiHook isend test fuel { state }

/-- `MPI_Recv_Hook`, in a task with the given state. -/
def mpiRecvHook (irecv : ℤ) (test : ℕ → TestResult Status) (fuel : ℕ) (state : TaskState)
    (status : Option Status) : Option (ℤ × HookFrame Status) :=
  mpiHook irecv test fuel { state, status }

/-! ## The state of the task -/

/-- The `n`-th test fails, and is reached by the calls from `first` on: they neither fail nor report
completion before it. -/
def FailsAfter (test : ℕ → TestResult Status) (first n : ℕ) : Prop :=
  first ≤ n ∧ (test n).code ≠ mpiSuccess ∧
    ∀ m, first ≤ m → m < n → (test m).code = mpiSuccess ∧ (test m).flag = 0

/-- MPI reports an error while the hook is polling: the operation could be started and was not
complete at the first test, and a later test is the first to say anything else, and fails. -/
def FailsWhilePolling (start : ℤ) (test : ℕ → TestResult Status) : Prop :=
  start = mpiSuccess ∧ ∃ n, 1 ≤ n ∧ FailsAfter test 0 n

section

variable {start : ℤ} {test : ℕ → TestResult Status} {fuel n : ℕ} {c c' : HookFrame Status} {r : ℤ}

/-- The loop, entered in a blocked task, leaves the task blocked exactly when a test fails. -/
theorem pollLoop_state (hrun : pollLoop test fuel n c = some (r, c'))
    (hblocked : c.state = .mpiBlocked) :
    c'.state = .runnable ↔ ¬∃ k, FailsAfter test n k := by
  induction fuel generalizing n c with
  | zero => cases hrun
  | succ fuel ih =>
    rw [pollLoop] at hrun
    by_cases hcode : (test n).code = mpiSuccess
    · rw [if_neg (not_not.mpr hcode)] at hrun
      by_cases hflag : (test n).flag = 0
      · rw [if_neg (not_not.mpr hflag)] at hrun
        rw [ih hrun hblocked]
        -- The `n`-th test decides nothing.
        refine not_congr (exists_congr fun k ↦ ⟨?_, ?_⟩)
        · rintro ⟨hle, hfail, hbefore⟩
          refine ⟨by omega, hfail, fun m hm hmk ↦ ?_⟩
          rcases Nat.eq_or_lt_of_le hm with rfl | hlt
          · exact ⟨hcode, hflag⟩
          · exact hbefore m hlt hmk
        · rintro ⟨hle, hfail, hbefore⟩
          have hne : k ≠ n := fun heq ↦ hfail (heq ▸ hcode)
          exact ⟨by omega, hfail, fun m hm hmk ↦ hbefore m (by omega) hmk⟩
      · rw [if_pos hflag, Option.some.injEq, Prod.mk.injEq] at hrun
        obtain ⟨-, rfl⟩ := hrun
        refine iff_of_true rfl ?_
        rintro ⟨k, hle, hfail, hbefore⟩
        rcases Nat.eq_or_lt_of_le hle with rfl | hlt
        · exact hfail hcode
        · exact hflag (hbefore n (Nat.le_refl n) hlt).2
    · rw [if_pos hcode, Option.some.injEq, Prod.mk.injEq] at hrun
      obtain ⟨-, rfl⟩ := hrun
      refine iff_of_false (fun h ↦ ?_) (not_not.mpr
        ⟨n, Nat.le_refl n, hcode, fun m hm hmn ↦ absurd hmn (by omega)⟩)
      rw [show (c.writeStatus (test n).status).state = c.state from rfl, hblocked] at h
      cases h

theorem mpiHook_state (hrun : mpiHook start test fuel c = some (r, c'))
    (hentry : c.state = .runnable) :
    c'.state = .runnable ↔ ¬FailsWhilePolling start test := by
  rw [mpiHook] at hrun
  by_cases hstart : start = mpiSuccess
  · rw [if_neg (not_not.mpr hstart)] at hrun
    by_cases hcode : (test 0).code = mpiSuccess
    · rw [if_neg (not_not.mpr hcode)] at hrun
      by_cases hflag : (test 0).flag = 0
      · rw [if_neg (not_not.mpr hflag)] at hrun
        rw [pollLoop_state hrun rfl]
        refine not_congr ⟨?_, ?_⟩
        · rintro ⟨k, hle, hfail, hbefore⟩
          refine ⟨hstart, k, hle, Nat.zero_le k, hfail, fun m _ hmk ↦ ?_⟩
          rcases Nat.eq_zero_or_pos m with rfl | hm
          · exact ⟨hcode, hflag⟩
          · exact hbefore m hm hmk
        · rintro ⟨-, k, hle, -, hfail, hbefore⟩
          exact ⟨k, hle, hfail, fun m _ hmk ↦ hbefore m (Nat.zero_le m) hmk⟩
      · rw [if_pos hflag, Option.some.injEq, Prod.mk.injEq] at hrun
        obtain ⟨-, rfl⟩ := hrun
        refine iff_of_true hentry ?_
        rintro ⟨-, k, hle, -, -, hbefore⟩
        exact hflag (hbefore 0 (Nat.le_refl 0) hle).2
    · rw [if_pos hcode, Option.some.injEq, Prod.mk.injEq] at hrun
      obtain ⟨-, rfl⟩ := hrun
      refine iff_of_true hentry ?_
      rintro ⟨-, k, hle, -, -, hbefore⟩
      exact hcode (hbefore 0 (Nat.le_refl 0) hle).1
  · rw [if_pos hstart, Option.some.injEq, Prod.mk.injEq] at hrun
    obtain ⟨-, rfl⟩ := hrun
    exact iff_of_true hentry fun h ↦ hstart h.1

end

/-- A task that yields in this state is put into the runnable queue of the thread it was on, and not
into its `mpi_blocked_queue`. -/
def TaskState.RoutedToRunnable (state : TaskState) : Prop :=
  ∀ {N : ℕ} {σ σ' : Sched} {l : Label} {i t : ℕ} {p : Option ℕ}, Step N σ l σ' →
    (σ.thread i).pc = .task t p .switched → (σ.task t).state = state →
    (σ'.thread i).pc ≠ (σ.thread i).pc →
    (σ'.thread i).runnableQueue = (σ.thread i).runnableQueue ++ [t] ∧
      (σ'.thread i).mpiBlockedQueue = (σ.thread i).mpiBlockedQueue

theorem routedToRunnable_runnable : TaskState.RoutedToRunnable .runnable := by
  intro N σ σ' l j t p hstep hpc hstate hmoved
  -- A thread that is elsewhere acts.
  have hother : ∀ {i : ℕ} {pc : Pc} {m : PerThreadMgr}, (σ.thread i).pc = pc →
      pc ≠ .task t p .switched → σ'.thread = Function.update σ.thread i m →
      (σ'.thread j).runnableQueue = (σ.thread j).runnableQueue ++ [t] ∧
        (σ'.thread j).mpiBlockedQueue = (σ.thread j).mpiBlockedQueue := by
    intro i pc m here hne hthread
    by_cases hji : j = i
    · subst hji
      exact absurd (here.symm.trans hpc) hne
    · exact absurd (by rw [hthread, Function.update_of_ne hji]) hmoved
  -- The task is in another state.
  have hswitched : ∀ {i t' : ℕ} {p' : Option ℕ} {m : PerThreadMgr},
      (σ.thread i).pc = .task t' p' .switched → (σ.task t').state ≠ .runnable →
      σ'.thread = Function.update σ.thread i m →
      (σ'.thread j).runnableQueue = (σ.thread j).runnableQueue ++ [t] ∧
        (σ'.thread j).mpiBlockedQueue = (σ.thread j).mpiBlockedQueue := by
    intro i t' p' m here hne hthread
    refine hother here (fun heq ↦ ?_) hthread
    obtain ⟨rfl, -, -⟩ := Pc.task.inj heq
    exact hne hstate
  cases hstep with
  | terminateGracefully | newTask | registe | registeFini | waitDone | destroy =>
    exact absurd rfl hmoved
  | @addRunnable i t' lt client =>
    by_cases hji : j = i
    · subst hji
      exact absurd (by simp [Sched.enqueue]) hmoved
    · exact absurd (congrArg _ (Function.update_of_ne hji _ _)) hmoved
  | @control i pc pc' lt here move =>
    refine hother here (fun heq ↦ ?_) rfl
    rw [heq] at move
    cases move
  | @steal i v xs ys lt here victim ne =>
    by_cases hji : j = i
    · subst hji
      rw [here] at hpc
      cases hpc
    · refine absurd ?_ hmoved
      rw [Sched.goto, Sched.setThread_thread, Function.update_of_ne hji, Sched.setThread_thread]
      by_cases hjv : j = v
      · rw [hjv, Function.update_self]
      · rw [Function.update_of_ne hjv]
  | erase lt here | dequeue lt here | install lt here | pollTask lt here | waitYield lt here
  | yield lt here | terminate lt here | informLock lt here | informDecrement lt here
  | informTake lt here | informNobody lt here | informEnqueue lt here | informUnlock lt here
  | terminated lt here | resumeLock lt here | resumeZero lt here | resumeBlock lt here
  | requeue lt here | resumeUnlock lt here =>
    exact hother here (by simp) rfl
  | handleMpi lt here state | stillMpi lt here state | handleWait lt here state =>
    exact hswitched here (by rw [state]; simp) rfl
  | handleOther lt here state =>
    exact hswitched here (by rcases state with h | h <;> rw [h] <;> simp) rfl
  | @handleRunnable i t' p' lt here state =>
    by_cases hji : j = i
    · subst hji
      obtain ⟨rfl, -, -⟩ := Pc.task.inj (here.symm.trans hpc)
      exact ⟨by simp [Sched.enqueue], by simp [Sched.enqueue]⟩
    · exact absurd (congrArg _ (Function.update_of_ne hji _ _)) hmoved

/-- **When the hooks give the task back in the state they took it in**: a hook that returns to a
task that was `Runnable` leaves it `Runnable`, and so routed to the runnable queue when it yields,
exactly when MPI did not report an error while the hook was polling. -/
theorem hooks_restore_state (start : ℤ) (test : ℕ → TestResult Status) (fuel : ℕ) (r : ℤ)
    (c : HookFrame Status) :
    (mpiSendHook start test fuel .runnable = some (r, c) →
      ((c.state = .runnable ∧ c.state.RoutedToRunnable) ↔ ¬FailsWhilePolling start test)) ∧
    ∀ status, mpiRecvHook start test fuel .runnable status = some (r, c) →
      ((c.state = .runnable ∧ c.state.RoutedToRunnable) ↔ ¬FailsWhilePolling start test) := by
  have hrouted : (c.state = .runnable ∧ c.state.RoutedToRunnable) ↔ c.state = .runnable :=
    ⟨And.left, fun h ↦ ⟨h, h ▸ routedToRunnable_runnable⟩⟩
  constructor
  · intro hrun
    rw [hrouted]
    exact mpiHook_state hrun rfl
  · intro status hrun
    rw [hrouted]
    exact mpiHook_state hrun rfl

/-- MPI is busy at the first test and reports an error at the second one. -/
def errorAtSecondTest (n : ℕ) : TestResult ℕ :=
  if n = 0 then { code := mpiSuccess, flag := 0, status := none }
  else { code := 15, flag := 0, status := none }

/-- `MPI_Send_Hook` returns an error to a task that it leaves `MPIBlocked`. -/
theorem send_hook_leaves_task_blocked :
    ∃ r c, mpiSendHook mpiSuccess errorAtSecondTest 1 .runnable = some (r, c) ∧
      ¬(c.state = .runnable ∧ c.state.RoutedToRunnable) := by
  refine ⟨15, { state := .mpiBlocked, yields := [.mpiBlocked] }, rfl, ?_⟩
  rintro ⟨hstate, -⟩
  cases hstate

/-- The send of `send_hook_leaves_task_blocked`: MPI fails while the hook polls. -/
theorem hooks_restore_state_error :
    ¬(TaskState.mpiBlocked = .runnable ∧ TaskState.mpiBlocked.RoutedToRunnable) ∧
      FailsWhilePolling mpiSuccess errorAtSecondTest := by
  have hiff := (hooks_restore_state mpiSuccess errorAtSecondTest 1 15
    { state := .mpiBlocked, yields := [.mpiBlocked] }).1 rfl
  have hfails : FailsWhilePolling mpiSuccess errorAtSecondTest := by
    refine ⟨rfl, 1, Nat.le_refl 1, Nat.zero_le 1, by decide, fun m _ hm ↦ ?_⟩
    obtain rfl : m = 0 := by omega
    exact ⟨rfl, rfl⟩
  exact ⟨fun h ↦ hiff.mp h hfails, hfails⟩

/-! ## The status of the message -/

/-- MPI is busy at the first `k` tests and reports completion with the status `s` at the next. -/
structure CompletesAt (test : ℕ → TestResult Status) (k : ℕ) (s : Status) : Prop where
  busy : ∀ n < k, (test n).code = mpiSuccess ∧ (test n).flag = 0
  code : (test k).code = mpiSuccess
  flag : (test k).flag ≠ 0
  status : (test k).status = some s

/-- Polling from the `n`-th test on yields once for each test that finds MPI busy, and stores the
status. -/
theorem pollLoop_completes {test : ℕ → TestResult Status} {k : ℕ} {s : Status}
    (h : CompletesAt test k s) {n : ℕ} (hn : n ≤ k) {c : HookFrame Status} {v : Status}
    (hv : c.status = some v) :
    ∃ c', (∀ fuel, k - n < fuel → pollLoop test fuel n c = some (mpiSuccess, c')) ∧
      c'.yields.length = c.yields.length + (k - n) ∧ c'.status = some s := by
  induction hd : k - n generalizing n c v with
  | zero =>
    obtain rfl : n = k := by omega
    refine ⟨{ c.writeStatus (test n).status with state := .runnable }, fun fuel hfuel ↦ ?_, rfl, ?_⟩
    · cases fuel with
      | zero => exact absurd hfuel (Nat.not_lt_zero 0)
      | succ fuel => rw [pollLoop, if_neg (not_not.mpr h.code), if_pos h.flag, h.code]
    · simp only [HookFrame.writeStatus, hv, h.status, Option.map_some, Option.getD_some]
  | succ d ih =>
    obtain ⟨hcode, hflag⟩ := h.busy n (by omega)
    have hwrite : ((c.writeStatus (test n).status).yield).status
        = some ((test n).status.getD v) := by
      simp only [HookFrame.yield, HookFrame.writeStatus, hv, Option.map_some]
    obtain ⟨c', hrun, hyields, hstatus⟩ := ih (n := n + 1) (by omega) hwrite (by omega)
    refine ⟨c', fun fuel hfuel ↦ ?_, ?_, hstatus⟩
    · cases fuel with
      | zero => exact absurd hfuel (Nat.not_lt_zero _)
      | succ fuel =>
        rw [pollLoop, if_neg (not_not.mpr hcode), if_neg (not_not.mpr hflag)]
        exact hrun fuel (by omega)
    · have hcount : (c.writeStatus (test n).status).yield.yields.length = c.yields.length + 1 := rfl
      rw [hyields, hcount]
      omega

/-- **When the two paths of `MPI_Recv_Hook` agree**: it returns with success after as many yields as
there were tests that found MPI busy, and the caller's status object, which held `v`, holds the
status of the message exactly when there was such a test, or when `v` was that status to begin
with. -/
theorem recv_paths_agree (test : ℕ → TestResult Status) (k : ℕ) (s v : Status) (state : TaskState)
    (h : CompletesAt test k s) :
    ∃ c, (∀ fuel, k ≤ fuel → mpiRecvHook mpiSuccess test fuel state (some v) =
      some (mpiSuccess, c)) ∧ c.yields.length = k ∧ (c.status = some s ↔ 1 ≤ k ∨ v = s) := by
  cases k with
  | zero =>
    refine ⟨{ state, status := some v }, fun fuel _ ↦ ?_, rfl, by simp⟩
    rw [mpiRecvHook, mpiHook, if_neg (not_not.mpr rfl), if_neg (not_not.mpr h.code), if_pos h.flag,
      h.code]
  | succ k =>
    obtain ⟨hcode, hflag⟩ := h.busy 0 (Nat.zero_lt_succ k)
    obtain ⟨c, hrun, hyields, hstatus⟩ := pollLoop_completes h (n := 1) (Nat.le_add_left 1 k)
      (c := { state := .mpiBlocked, yields := [.mpiBlocked], status := some v }) rfl
    refine ⟨c, fun fuel hfuel ↦ ?_, ?_, iff_of_true hstatus (Or.inl (Nat.le_add_left 1 k))⟩
    · rw [mpiRecvHook, mpiHook, if_neg (not_not.mpr rfl), if_neg (not_not.mpr hcode),
        if_neg (not_not.mpr hflag)]
      exact hrun fuel (by omega)
    · rw [hyields, List.length_singleton]
      omega

/-- The message has arrived before the first test, and its status is `7`. -/
def arrivedEarly (_ : ℕ) : TestResult ℕ := { code := mpiSuccess, flag := 1, status := some 7 }

theorem completesAt_arrivedEarly : CompletesAt arrivedEarly 0 7 :=
  ⟨fun _ hn ↦ absurd hn (Nat.not_lt_zero _), rfl, by decide, rfl⟩

/-- The caller's status object still holds what it held before the call. -/
theorem recv_hook_ignores_status :
    CompletesAt arrivedEarly 0 7 ∧
      ¬∃ fuel c, mpiRecvHook mpiSuccess arrivedEarly fuel .runnable (some 0) =
        some (mpiSuccess, c) ∧ c.yields.length = 0 ∧ c.status = some 7 := by
  refine ⟨completesAt_arrivedEarly, ?_⟩
  rintro ⟨fuel, c, hrun, -, hstatus⟩
  obtain rfl : ({ state := .runnable, status := some 0 } : HookFrame ℕ) = c := by
    simpa [mpiRecvHook, mpiHook, arrivedEarly] using hrun
  cases hstatus

/-- MPI is busy at the first test, and the message has arrived before the second one. -/
def arrivedLate (n : ℕ) : TestResult ℕ :=
  { code := mpiSuccess, flag := if n = 0 then 0 else 1, status := some 7 }

theorem recv_paths_agree_arrivedLate :
    ∃ c, (∀ fuel, 1 ≤ fuel →
        mpiRecvHook mpiSuccess arrivedLate fuel .runnable (some 0) = some (mpiSuccess, c)) ∧
      c.yields.length = 1 ∧ (c.status = some 7 ↔ 1 ≤ 1 ∨ 0 = 7) :=
  recv_paths_agree arrivedLate 1 7 0 .runnable
    ⟨fun n hn ↦ by obtain rfl : n = 0 := Nat.lt_one_iff.mp hn; exact ⟨rfl, rfl⟩, rfl,
      by decide, rfl⟩

end TYThread
