import TYThread.Group.Wait

/-!
# How much there is left to do

The shutdown has been asked for, and tasks do no more than return from their callbacks. Then every
task has a number of steps before it: those of its `terminate`, and those of the thread that gets it
back. A thread that has no task goes through `run_once`, and this takes it a number of steps, too.
Each step is one of these, so together they bound all runs.

Only a theft is not paid for. It brings a task from one queue into another, and the thief is back at
the start of `run_once`.
-/

namespace TYThread

open Counting Transition

/-- A step in which a thread goes on. Tasks do not `wait` or yield, and make nothing. -/
def FinishingStep (N : ℕ) (σ : Sched) (theft : Bool) (σ' : Sched) : Prop :=
  (∃ l, Step N σ l σ') ∧ (∃ i, σ'.pcs i ≠ σ.pcs i) ∧
    (∀ i c p, σ.pcs i = .task c p .user → σ'.pcs i ≠ .task c p .switched) ∧
    (theft = true ↔ ∃ i v xs, σ.pcs i = .steal v ∧ σ'.pcs i = .install xs)

/-! ## The steps of a task -/

/-- How many steps there are, at most, until the thread is done with the task. -/
def Activity.toDo : Activity → ℕ
  | .user => 0
  | .terminating rest => 5 * rest.length + 7
  | .inform _ rest .decrement => 5 * rest.length + 11
  | .inform _ rest .take => 5 * rest.length + 10
  | .inform _ rest (.enqueue _) => 5 * rest.length + 9
  | .inform _ rest .unlock => 5 * rest.length + 8
  | .switched => 6
  | .resume _ .lock => 5
  | .resume _ .test => 4
  | .resume _ (.unlock _) => 3
  | .requeue => 2

def Pc.toDo : Pc → ℕ
  | .task _ _ act => act.toDo
  | .install _ => 1
  | .erase _ => 1
  | _ => 0

/-- How many steps a task takes, at most, after its callback. -/
def Task.toDo (a : Task) : ℕ := if a.state = .terminated then 0 else 5 * a.groups.length + 8

theorem Pc.toDo_afterTask (p : Option ℕ) : (afterTask p).toDo ≤ 1 := by
  cases p with
  | none => exact Nat.zero_le 1
  | some k => exact le_rfl

theorem Task.toDo_congr {a b : Task} (hstate : a.state = .terminated ↔ b.state = .terminated)
    (hgroups : a.groups = b.groups) : a.toDo = b.toDo := by
  rw [toDo, toDo, hgroups]
  simp only [hstate]

theorem Task.toDo_continuationIn (a : Task) : a.continuationIn.toDo = a.toDo :=
  toDo_congr a.continuationIn_terminated rfl

theorem Task.toDo_of_live {a b : Task} (ha : a.state ≠ .terminated) (hb : b.state ≠ .terminated)
    (hgroups : a.groups = b.groups) : a.toDo = b.toDo :=
  toDo_congr (iff_of_false ha hb) hgroups

/-! ## The way through `run_once` -/

/-- How many steps a thread takes, at most, until it has a task or has left `run`, if it steals
nothing. -/
def PerThreadMgr.search (N : ℕ) (m : PerThreadMgr) : ℕ :=
  match m.pc with
  | .main => 2 * N + 7
  | .poll k => if k < m.mpiBlockedQueue.length then 1 else 2 * N + 6
  | .loop => 2 * N + 5
  | .steal v => N - v + N + 4
  | .checkMpi => N + 3
  | .idle => N + 2
  | .join c => N - c + 1
  | .task _ _ _ | .install _ | .erase _ | .exited => 0

theorem PerThreadMgr.search_le (N : ℕ) (m : PerThreadMgr) : m.search N ≤ 2 * N + 7 := by
  unfold search
  split <;> first | omega | split_ifs <;> omega

variable {N i : ℕ} {owner : ℕ → ℕ} {σ σ' : Sched} {l : Label} {theft : Bool}

/-- **On its way** through `run_once` a thread comes nearer to a task, or to the end. -/
theorem Control.search {pc pc' : Pc} (h : Control N σ i pc pc') (lt : i < N)
    (here : (σ.thread i).pc = pc) (hstop : σ.terminatable = true) :
    pc.toDo = 0 ∧ pc'.toDo = 0 ∧
      PerThreadMgr.search N { σ.thread i with pc := pc' } + 1 ≤ (σ.thread i).search N := by
  rw [PerThreadMgr.search, PerThreadMgr.search, here]
  cases h with
  | sleep go =>
    rw [hstop] at go
    cases go
  | someMpi queue =>
    have hpos := List.length_pos_of_ne_nil queue
    refine ⟨rfl, rfl, ?_⟩
    simp only [hpos, if_true]
    omega
  | @polled k le =>
    refine ⟨rfl, rfl, ?_⟩
    simp only [not_lt.mpr le, if_false]
    omega
  | start | empty | self | nothing | unsuccessful | noMpi | leave | sweep | joined | swept =>
    refine ⟨rfl, rfl, ?_⟩
    dsimp only
    omega

/-! ## All tasks and all threads -/

namespace Sched

/-- What there is to do for the tasks and for the threads that have one. -/
def work (N : ℕ) (σ : Sched) : ℕ :=
  ∑ t ∈ Finset.range σ.next, (σ.task t).toDo + ∑ i ∈ Finset.range N, (σ.thread i).pc.toDo

def search (N : ℕ) (σ : Sched) : ℕ := ∑ i ∈ Finset.range N, (σ.thread i).search N

/-- More steps than all threads take for their search. -/
def round (N : ℕ) : ℕ := N * (2 * N + 7) + 1

/-- A bound for the number of steps. Each step of the work may send all threads on a new search. -/
def toDo (N : ℕ) (σ : Sched) : ℕ := σ.work N * round N + σ.search N

theorem search_lt_round (N : ℕ) (σ : Sched) : σ.search N < round N := by
  apply Nat.lt_succ_of_le
  calc σ.search N ≤ ∑ _ ∈ Finset.range N, (2 * N + 7) :=
        Finset.sum_le_sum fun i _ ↦ (σ.thread i).search_le N
    _ = N * (2 * N + 7) := by rw [Finset.sum_const_nat fun _ _ ↦ rfl, Finset.card_range]

section

variable {m : PerThreadMgr} {c : ℕ} {a : Task} (hi : i < N)
  (hthread : σ'.thread = Function.update σ.thread i m) (hnext : σ'.next = σ.next)

include hi hthread

theorem search_update : σ'.search N + (σ.thread i).search N = σ.search N + m.search N := by
  rw [search, search, hthread]
  exact sum_update σ.thread (PerThreadMgr.search N) (Finset.mem_range.mpr hi) m

include hnext

theorem work_update (hc : c < σ.next) (htask : σ'.task = Function.update σ.task c a) :
    σ'.work N + (σ.task c).toDo + (σ.thread i).pc.toDo = σ.work N + a.toDo + m.pc.toDo := by
  have hthreads := sum_update σ.thread (fun m ↦ m.pc.toDo) (Finset.mem_range.mpr hi) m
  have htasks := sum_update σ.task Task.toDo (Finset.mem_range.mpr hc) a
  rw [work, work, hnext, hthread, htask]
  omega

/-- A step of the thread `i` after which all tasks have as much before them as before. -/
theorem work_goOn (htask : ∀ t, (σ'.task t).toDo = (σ.task t).toDo) :
    σ'.work N + (σ.thread i).pc.toDo = σ.work N + m.pc.toDo := by
  have hthreads := sum_update σ.thread (fun m ↦ m.pc.toDo) (Finset.mem_range.mpr hi) m
  rw [work, work, hnext, hthread, Finset.sum_congr rfl fun t _ ↦ htask t]
  omega

end

/-- The thread `i` goes on, and the thread `v` only has other tasks in its queue. -/
theorem work_steal {v : ℕ} {m m' : PerThreadMgr} (hi : i < N) (hv : v < N) (hne : v ≠ i)
    (hthread : σ'.thread = Function.update (Function.update σ.thread v m') i m)
    (hnext : σ'.next = σ.next) (htask : σ'.task = σ.task) (hm : m'.pc = (σ.thread v).pc) :
    σ'.work N + (σ.thread i).pc.toDo = σ.work N + m.pc.toDo := by
  have hvictim := sum_update σ.thread (fun m ↦ m.pc.toDo) (Finset.mem_range.mpr hv) m'
  have hthief := sum_update (Function.update σ.thread v m') (fun m ↦ m.pc.toDo)
    (Finset.mem_range.mpr hi) m
  rw [Function.update_of_ne hne.symm] at hthief
  rw [hm] at hvictim
  rw [work, work, hnext, hthread, htask]
  omega

/-- What a step does to what there is left to do. -/
inductive Progress (N : ℕ) (σ σ' : Sched) (theft : Bool) : Prop
  | work (less : σ'.work N + 1 ≤ σ.work N)
  | search (same : σ'.work N = σ.work N) (less : σ'.search N + 1 ≤ σ.search N)
  | theft (thief : theft = true) (more : σ'.work N ≤ σ.work N + 1)

/-- Whatever the step did, the bound for the number of steps takes it into account. -/
theorem Progress.toDo (h : Progress N σ σ' theft) :
    σ'.toDo N + 1 ≤ σ.toDo N + if theft = true then 2 * round N else 0 := by
  have hround := search_lt_round N σ'
  rw [Sched.toDo, Sched.toDo]
  cases h with
  | work less =>
    have hmul := Nat.mul_le_mul_right (round N) less
    rw [Nat.add_mul, Nat.one_mul] at hmul
    omega
  | search same less =>
    rw [same]
    omega
  | theft thief more =>
    have hmul := Nat.mul_le_mul_right (round N) more
    rw [Nat.add_mul, Nat.one_mul] at hmul
    rw [if_pos thief]
    omega

end Sched

/-! ## Steps -/

/-- The steps in which a task gets control, and those that are nothing to the rules for programs. -/
def Label.Finishing : Label → Prop
  | .back _ => True
  | .other => True
  | _ => False

theorem FinishingStep.exists_step (h : FinishingStep N σ theft σ') : ∃ l, l.Finishing ∧
    Step N σ l σ' := by
  obtain ⟨⟨l, hstep⟩, ⟨i, hne⟩, huser, -⟩ := h
  refine ⟨l, ?_, hstep⟩
  cases hstep with
  | registe | registeFini | waitDone | destroy => exact absurd rfl hne
  | @waitYield j c g p lt here =>
    refine absurd ?_ (huser j c p here)
    simp [Sched.pcs, Sched.goto]
  | _ => trivial

/-- **What a step does** to what there is left to do. -/
theorem FinishingStep.progress (h : FinishingStep N σ theft σ') (hσ : σ.Ok N)
    (hstop : σ.terminatable = true) : σ.Progress N σ' theft := by
  obtain ⟨⟨l, hstep⟩, ⟨j, hne⟩, huser, htheft⟩ := h
  -- The thread `i` goes on, and the tasks have as much before them as before.
  have hgoOn : ∀ {i : ℕ} {pc : Pc} {m : PerThreadMgr}, i < N → (σ.thread i).pc = pc →
      σ'.thread = Function.update σ.thread i m → σ'.next = σ.next →
      (∀ t, (σ'.task t).toDo = (σ.task t).toDo) → m.pc.toDo + 1 ≤ pc.toDo →
      σ.Progress N σ' theft := by
    intro i pc m hi here hthread hnext htask hless
    have hwork := Sched.work_goOn hi hthread hnext htask
    rw [here] at hwork
    exact .work (by omega)
  -- The thread `i` gets on with its search.
  have hsearch : ∀ {i : ℕ} {pc : Pc} {m : PerThreadMgr}, i < N → (σ.thread i).pc = pc →
      σ'.thread = Function.update σ.thread i m → σ'.next = σ.next →
      (∀ t, (σ'.task t).toDo = (σ.task t).toDo) → pc.toDo = 0 → m.pc.toDo = 0 →
      m.search N + 1 ≤ (σ.thread i).search N → σ.Progress N σ' theft := by
    intro i pc m hi here hthread hnext htask hpc hm hless
    have hwork := Sched.work_goOn hi hthread hnext htask
    have hsum := Sched.search_update hi hthread
    rw [here, hpc, hm] at hwork
    exact .search hwork (by omega)
  -- A task changes in nothing that matters here.
  have hsame : ∀ {c : ℕ} {a : Task}, a.toDo = (σ.task c).toDo →
      ∀ t, (Function.update σ.task c a t).toDo = (σ.task t).toDo :=
        fun ha t ↦ apply_update_eq _ ha t
  have hlive : ∀ {c g : ℕ} {a : Task}, (σ.task c).Waits g → a.state ≠ .terminated →
      a.groups = (σ.task c).groups → a.toDo = (σ.task c).toDo := by
    intro c g a hwaits ha hgroups
    refine Task.toDo_of_live ha ((hσ.task c).live ?_) hgroups
    rw [hwaits.waiting]
    exact Option.some_ne_none g
  -- The callback of the task `c` returns.
  have hreturn : ∀ {i c : ℕ} {p : Option ℕ} {a : Task} {m : PerThreadMgr}, i < N →
      (σ.thread i).pc = .task c p .user → σ'.thread = Function.update σ.thread i m →
      σ'.next = σ.next → σ'.task = Function.update σ.task c a → a.toDo = 0 →
      m.pc.toDo = 5 * (σ.task c).groups.length + 7 → σ.Progress N σ' theft := by
    intro i c p a m hi here hthread hnext htask ha hm
    have hlt : c < σ.next := by
      apply hσ.lt_next
      refine hσ.spawned_of_count hi (PerThreadMgr.count_pos_of_running ?_)
      rw [here]
      exact List.mem_singleton_self c
    have hc : (σ.task c).state ≠ .terminated := (hσ.hand_at hi here).1
    have hwork := Sched.work_update hi hthread hnext hlt htask
    rw [here, ha, hm, Task.toDo, if_neg hc] at hwork
    exact .work (by simp only [Pc.toDo, Activity.toDo] at hwork; omega)
  -- The thread `i` steals from the thread `v`.
  have hsteal : ∀ {i v : ℕ} {xs : List ℕ} {m m' : PerThreadMgr}, i < N → v < N → v ≠ i →
      (σ.thread i).pc = .steal v →
      σ'.thread = Function.update (Function.update σ.thread v m') i m → m.pc = .install xs →
      m'.pc = (σ.thread v).pc → σ'.next = σ.next → σ'.task = σ.task → σ.Progress N σ' theft := by
    intro i v xs m m' hi hv hvi here hthread hm hm' hnext htask
    have hwork := Sched.work_steal hi hv hvi hthread hnext htask hm'
    rw [here, hm] at hwork
    refine .theft (htheft.mpr ⟨i, v, xs, here, ?_⟩) (le_of_eq hwork)
    rw [Sched.pcs, hthread, Function.update_self, hm]
  cases hstep with
  | terminateGracefully | newTask | registe | registeFini | waitDone | destroy =>
    exact absurd rfl hne
  | @addRunnable i t lt client =>
    refine absurd ?_ hne
    exact apply_update_eq (f := σ.thread) (i := i) PerThreadMgr.pc (by rfl) j
  | @waitYield i c g p lt here =>
    refine absurd ?_ (huser i c p here)
    simp [Sched.pcs, Sched.goto]
  | @yield i c p state lt here =>
    refine absurd ?_ (huser i c p here)
    simp [Sched.pcs, Sched.goto]
  | control lt here move =>
    obtain ⟨hpc, hpc', hless⟩ := move.search lt here hstop
    exact hsearch lt here rfl rfl (fun _ ↦ rfl) hpc hpc' hless
  | @dequeue i t ts lt here =>
    refine hsearch lt here rfl rfl (hsame (Task.toDo_continuationIn _)) rfl rfl ?_
    rw [PerThreadMgr.search, PerThreadMgr.search, here]
    dsimp only
    omega
  | @pollTask i k t lt here entry =>
    refine hsearch lt here rfl rfl (hsame (Task.toDo_continuationIn _)) rfl rfl ?_
    have hk := (List.getElem?_eq_some_iff.mp entry).1
    rw [PerThreadMgr.search, PerThreadMgr.search, here]
    simp [hk]
  | steal lt here victim ne => exact hsteal lt victim ne here rfl rfl rfl rfl rfl
  | terminate lt here => exact hreturn lt here rfl rfl rfl rfl rfl
  | install lt here => exact hgoOn lt here rfl rfl (fun _ ↦ rfl) le_rfl
  | informLock lt here =>
    refine hgoOn lt here rfl rfl (fun _ ↦ rfl) ?_
    simp only [Pc.toDo, Activity.toDo, List.length_cons]
    omega
  | informDecrement lt here =>
    refine hgoOn lt here rfl rfl (fun _ ↦ rfl) ?_
    dsimp only
    split_ifs
    · exact le_rfl
    · simp only [Pc.toDo, Activity.toDo]
      omega
  | informTake lt here | informUnlock lt here | handleWait lt here | resumeLock lt here
  | resumeBlock lt here | erase lt here =>
    exact hgoOn lt here rfl rfl (fun _ ↦ rfl) le_rfl
  | informNobody lt here => exact hgoOn lt here rfl rfl (fun _ ↦ rfl) (Nat.le_succ _)
  | @informEnqueue i c g w p rest lt here =>
    have hwaits : (σ.task w).Waits g := (hσ.hand_at lt here).2
    exact hgoOn lt here rfl rfl (hsame (hlive hwaits (by simp) rfl)) le_rfl
  | terminated lt here => exact hgoOn lt here rfl rfl (hsame rfl) le_rfl
  | handleRunnable lt here | handleOther lt here =>
    refine hgoOn lt here rfl rfl (fun _ ↦ rfl) ?_
    exact (Nat.succ_le_succ (Pc.toDo_afterTask _)).trans (Nat.le_add_left 2 4)
  | handleMpi lt here | stillMpi lt here =>
    exact hgoOn lt here rfl rfl (fun _ ↦ rfl) (Nat.succ_le_succ (Nat.zero_le 5))
  | @resumeZero i t g p lt here =>
    have hwaits : (σ.task t).Waits g := hσ.hand_at lt here
    exact hgoOn lt here rfl rfl (hsame (hlive hwaits (by simp) rfl)) le_rfl
  | @resumeUnlock i t g p result lt here =>
    refine hgoOn lt here rfl rfl (fun _ ↦ rfl) ?_
    cases result with
    | true => exact le_rfl
    | false => exact Nat.succ_le_succ ((Pc.toDo_afterTask p).trans (Nat.le_succ 1))
  | requeue lt here =>
    refine hgoOn lt here rfl rfl (hsame rfl) ?_
    exact Nat.succ_le_succ (Pc.toDo_afterTask _)

end TYThread
