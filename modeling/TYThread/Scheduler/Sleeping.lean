import TYThread.Library.CondVar
import TYThread.Scheduler.Shutdown

/-!
# Threads that sleep

For the scheduler, `wait_task` is one step. Here it is what the source does: the thread sleeps at
`globalWaitCond_`, with `sleep_count` as the count of the sleepers, for some time at most.
`addRunnable` reads the count when it has enqueued the task and then may notify one thread, and the
main thread notifies all of them before it joins the children.

A thread goes on in `run` or in its task only when it is in none of these calls. Its step of the
scheduler is the one in which it decides to call `wait_task`, or enqueues the task in `addRunnable`.
-/

namespace TYThread

open CondVar Counting Transition

/-! ## The state -/

structure GlobalMediator where
  sched : Sched
  /-- `globalWaitCond_`, `globalWaitMut_` and `sleep_count`. -/
  cond : CondVar.State ℕ

def GlobalMediator.initial : GlobalMediator where
  sched := Sched.initial
  cond := .initial

inductive MediatorLabel
  | sched (l : Label)
  | cond (l : CondVar.Label ℕ)
deriving DecidableEq, Repr

/-- The label of the step of the scheduler. -/
def MediatorLabel.schedLabel : MediatorLabel → Option Label
  | sched l => some l
  | cond _ => none

/-! ## Steps -/

/-- The task that the label names is the one that the thread has. -/
def Label.By (pc : Pc) : Label → Prop
  | .registe c _ _ => ∃ p, pc = .task c p .user
  | .wait c _ _ => ∃ p, pc = .task c p .user
  | .destroy c _ => ∃ p, pc = .task c p .user
  | _ => True

/-- The thread `i` makes the step. It calls neither `addRunnable` nor `wait_task`, and notifies
nobody. -/
structure Sched.Own (σ : Sched) (i : ℕ) (l : Label) (σ' : Sched) : Prop where
  others : ∀ j, j ≠ i → (σ'.thread j).pc = (σ.thread j).pc
  moves : (σ'.thread i).pc ≠ (σ.thread i).pc ∨ (σ.thread i).pc.Client ∧ σ'.thread = σ.thread
  label : l.By (σ.thread i).pc
  idle : (σ.thread i).pc = .idle → (σ'.thread i).pc = .exited
  inform : ∀ c p g rest w, (σ.thread i).pc ≠ .task c p (.inform g rest (.enqueue w))

inductive MediatorStep (N : ℕ) (μ : GlobalMediator) : MediatorLabel → GlobalMediator → Prop
  | terminateGracefully :
      MediatorStep N μ (.sched .other) { μ with sched := { μ.sched with terminatable := true } }
  | own {i : ℕ} {l : Label} {σ' : Sched} (lt : i < N) (out : μ.cond.phase i = .out)
      (step : Step N μ.sched l σ') (own : μ.sched.Own i l σ') :
      MediatorStep N μ (.sched l) { μ with sched := σ' }
  | addRunnable {i t : ℕ} (lt : i < N) (out : μ.cond.phase i = .out)
      (client : (μ.sched.thread i).pc.Client) (made : t < μ.sched.next)
      (once : (μ.sched.task t).spawned = false) :
      MediatorStep N μ (.sched .other) {
        sched := (μ.sched.setTask t { μ.sched.task t with spawned := true }).enqueue i t
          (μ.sched.thread i).pc
        cond := μ.cond.goto i .test }
  /-- `addRunnable`, called by `informDone`. -/
  | informEnqueue {i c g w : ℕ} {p : Option ℕ} {rest : List ℕ} (lt : i < N)
      (out : μ.cond.phase i = .out)
      (here : (μ.sched.thread i).pc = .task c p (.inform g rest (.enqueue w))) :
      MediatorStep N μ (.sched .other) {
        sched := (μ.sched.setTask w { μ.sched.task w with
          state := .runnable, wakes := (μ.sched.task w).wakes + 1 }).enqueue i w
            (.task c p (.inform g rest .unlock))
        cond := μ.cond.goto i .test }
  | waitTask {i : ℕ} (lt : i < N) (out : μ.cond.phase i = .out)
      (here : (μ.sched.thread i).pc = .idle) (go : μ.sched.terminatable = false) :
      MediatorStep N μ (.sched .other) {
        sched := μ.sched.goto i .loop
        cond := μ.cond.goto i .lock }
  | sweep {i : ℕ} (lt : i < N) (out : μ.cond.phase i = .out) (here : (μ.sched.thread i).pc = .idle)
      (stop : μ.sched.terminatable = true) (root : i = 0) :
      MediatorStep N μ (.sched .other) {
        sched := μ.sched.goto i (.join 1)
        cond := μ.cond.goto i .notifyAll }
  | cond {l : CondVar.Label ℕ} {c' : CondVar.State ℕ} (step : CondVar.Step μ.cond l c') :
      MediatorStep N μ (.cond l) { μ with cond := c' }

/-! ## Sleeping changes nothing but time -/

section

variable {N i : ℕ} {σ σ' : Sched} {l : Label} {μ μ' : GlobalMediator}

theorem MediatorStep.sched {m : MediatorLabel} (h : MediatorStep N μ m μ') :
    (∃ l, m = .sched l ∧ Step N μ.sched l μ'.sched) ∨
      ∃ l, m = .cond l ∧ CondVar.Step μ.cond l μ'.cond ∧ μ'.sched = μ.sched := by
  cases h with
  | terminateGracefully => exact Or.inl ⟨_, rfl, .terminateGracefully⟩
  | own lt out step => exact Or.inl ⟨_, rfl, step⟩
  | addRunnable lt out client made once => exact Or.inl ⟨_, rfl, .addRunnable lt client made once⟩
  | informEnqueue lt out here => exact Or.inl ⟨_, rfl, .informEnqueue lt here⟩
  | waitTask lt out here go => exact Or.inl ⟨_, rfl, .control lt here (.sleep go)⟩
  | sweep lt out here stop root => exact Or.inl ⟨_, rfl, .control lt here (.sweep stop root)⟩
  | cond step => exact Or.inr ⟨_, rfl, step, rfl⟩

theorem MediatorStep.cond_cases {m : MediatorLabel} (h : MediatorStep N μ m μ') :
    (∃ l, m = .cond l ∧ CondVar.Step μ.cond l μ'.cond) ∨ μ'.cond = μ.cond ∨
      ∃ i p, i < N ∧ μ.cond.phase i = .out ∧ (p = .test ∨ p = .lock ∨ p = .notifyAll) ∧
        μ'.cond = μ.cond.goto i p := by
  cases h with
  | terminateGracefully => exact Or.inr (Or.inl rfl)
  | own => exact Or.inr (Or.inl rfl)
  | addRunnable lt out => exact Or.inr (Or.inr ⟨_, _, lt, out, Or.inl rfl, rfl⟩)
  | informEnqueue lt out => exact Or.inr (Or.inr ⟨_, _, lt, out, Or.inl rfl, rfl⟩)
  | waitTask lt out => exact Or.inr (Or.inr ⟨_, _, lt, out, Or.inr (Or.inl rfl), rfl⟩)
  | sweep lt out => exact Or.inr (Or.inr ⟨_, _, lt, out, Or.inr (Or.inr rfl), rfl⟩)
  | cond step => exact Or.inl ⟨_, rfl, step⟩

theorem MediatorStep.inv {m : MediatorLabel} (h : MediatorStep N μ m μ')
    (hμ : CondVar.Inv (Finset.range N) μ.cond) : CondVar.Inv (Finset.range N) μ'.cond := by
  rcases h.cond_cases with ⟨l, -, hstep⟩ | hsame | ⟨i, p, hi, hout, hp, hcond⟩
  · exact hμ.step hstep
  · rwa [hsame]
  · rw [hcond]
    rcases hp with rfl | rfl | rfl <;> exact hμ.enter (Finset.mem_range.mpr hi) hout id rfl

theorem GlobalMediator.inv_of_reachable (h : Reachable (MediatorStep N) GlobalMediator.initial μ) :
    CondVar.Inv (Finset.range N) μ.cond :=
  h.invariant (CondVar.Inv.initial _) fun _ _ _ hμ hstep ↦ hstep.inv hμ

theorem Sched.Own.of_update {pc : Pc} {m : PerThreadMgr} (here : (σ.thread i).pc = pc)
    (hthread : σ'.thread = Function.update σ.thread i m) (hmoves : m.pc ≠ pc) (hlabel : l.By pc)
    (hidle : pc = .idle → m.pc = .exited)
    (hinform : ∀ c p g rest w, pc ≠ .task c p (.inform g rest (.enqueue w))) : σ.Own i l σ' := by
  subst here
  have hself : σ'.thread i = m := by rw [hthread, Function.update_self]
  constructor
  · intro j hj
    rw [hthread, Function.update_of_ne hj]
  · left
    rwa [hself]
  · exact hlabel
  · rwa [hself]
  · exact hinform

/-- Every step of the scheduler can be made when nobody is in a call. -/
theorem Step.mediated (h : Step N σ l σ') {c : CondVar.State ℕ} (hout : ∀ i, c.phase i = .out) :
    ∃ c', MediatorStep N ⟨σ, c⟩ (.sched l) ⟨σ', c'⟩ := by
  -- The program acts, and the threads stay where they are.
  have hclient : ∀ {i : ℕ}, i < N → (σ.thread i).pc.Client → l.By (σ.thread i).pc →
      σ'.thread = σ.thread → ∃ c', MediatorStep N ⟨σ, c⟩ (.sched l) ⟨σ', c'⟩ := by
    intro i lt client hlabel hthread
    refine ⟨c, .own lt (hout i) h ⟨fun j _ ↦ by rw [hthread], Or.inr ⟨client, hthread⟩, hlabel,
      ?_, ?_⟩⟩
    · intro hidle
      rw [hidle] at client
      exact client.elim
    · intro c p g rest w hinform
      rw [hinform] at client
      exact client.elim
  -- The thread `i` goes on.
  have hupdate : ∀ {i : ℕ} {pc : Pc} {m : PerThreadMgr}, i < N → (σ.thread i).pc = pc →
      σ'.thread = Function.update σ.thread i m → m.pc ≠ pc → l.By pc →
      (pc = .idle → m.pc = .exited) →
      (∀ c p g rest w, pc ≠ .task c p (.inform g rest (.enqueue w))) →
      ∃ c', MediatorStep N ⟨σ, c⟩ (.sched l) ⟨σ', c'⟩ :=
    fun lt here hthread hmoves hlabel hidle hinform ↦
      ⟨c, .own lt (hout _) h (.of_update here hthread hmoves hlabel hidle hinform)⟩
  cases h with
  | terminateGracefully => exact ⟨c, .terminateGracefully⟩
  | newTask isPure lt client => exact hclient lt client trivial rfl
  | addRunnable lt client made once => exact ⟨_, .addRunnable lt (hout _) client made once⟩
  | registe lt here | registeFini lt here | waitDone lt here | destroy lt here =>
    exact hclient lt (here ▸ trivial) ⟨_, here⟩ rfl
  | control lt here move =>
    cases move with
    | sleep go => exact ⟨_, .waitTask lt (hout _) here go⟩
    | sweep stop root => exact ⟨_, .sweep lt (hout _) here stop root⟩
    | leave => exact hupdate lt here rfl (by simp) trivial (fun _ ↦ rfl) (by simp)
    | _ => exact hupdate lt here rfl (by simp) trivial (by simp) (by simp)
  | @steal i v xs ys lt here victim ne queue nonempty =>
    refine ⟨c, .own lt (hout i) (.steal lt here victim ne queue nonempty)
      ⟨fun j hj ↦ ?_, Or.inl ?_, trivial, ?_, ?_⟩⟩
    · rw [Sched.goto, Sched.setThread_thread, Function.update_of_ne hj]
      exact apply_update_eq (f := σ.thread) (i := v) (b := { σ.thread v with runnableQueue := ys })
        PerThreadMgr.pc rfl j
    · rw [Sched.goto, Sched.setThread_thread, Function.update_self, here]
      simp
    · rw [here]
      simp
    · rw [here]
      simp
  | informEnqueue lt here => exact ⟨_, .informEnqueue lt (hout _) here⟩
  | waitYield lt here => exact hupdate lt here rfl (by simp) ⟨_, rfl⟩ (by simp) (by simp)
  | dequeue lt here | install lt here | pollTask lt here | erase lt here | yield lt here
  | terminate lt here | informLock lt here | informTake lt here | informNobody lt here
  | informUnlock lt here | terminated lt here | handleMpi lt here | stillMpi lt here
  | handleWait lt here | resumeLock lt here | resumeZero lt here | resumeBlock lt here =>
    exact hupdate lt here rfl (by simp) trivial (by simp) (by simp)
  | informDecrement lt here =>
    refine hupdate lt here rfl ?_ trivial (by simp) (by simp)
    dsimp only
    split_ifs <;> simp
  | @handleRunnable i t p lt here | @handleOther i t p lt here | @requeue i t p lt here =>
    exact hupdate lt here rfl (by cases p <;> simp [afterTask]) trivial (by simp) (by simp)
  | @resumeUnlock i t g p result lt here =>
    refine hupdate lt here rfl ?_ trivial (by simp) (by simp)
    cases result <;> cases p <;> simp [afterTask]

theorem GlobalMediator.reachable_cond {c : CondVar.State ℕ} (h : Reachable CondVar.Step μ.cond c) :
    Reachable (MediatorStep N) μ ⟨μ.sched, c⟩ := by
  obtain ⟨ls, hrun⟩ := h
  induction hrun with
  | refl => exact .refl _ _
  | snoc _ last ih => exact ih.snoc (.cond last)

theorem MediatorStep.run_cond {ms : List MediatorLabel} (h : Run (MediatorStep N) μ ms μ')
    (hms : ∀ m ∈ ms, m.schedLabel = none) :
    ∃ ls, ls.length = ms.length ∧ Run CondVar.Step μ.cond ls μ'.cond := by
  induction h with
  | refl => exact ⟨[], rfl, .refl⟩
  | @snoc ms μ₁ μ₂ m _ last ih =>
    obtain ⟨ls, hlen, hrun⟩ := ih fun m hm ↦ hms m (List.mem_append_left _ hm)
    rcases last.sched with ⟨l, rfl, -⟩ | ⟨l, rfl, hstep, -⟩
    · exact absurd (hms _ (List.mem_append_right _ (List.mem_singleton_self _)))
        (Option.some_ne_none l)
    · refine ⟨ls ++ [l], ?_, hrun.snoc hstep⟩
      rw [List.length_append, List.length_append, hlen]
      rfl

/-- **Sleeping changes nothing but time.** A run of the threads with all that they do to sleep and
to wake each other is a run of the scheduler. Every step of the scheduler can still be made, when
the calls have come to their ends. And they do: they go on for at most seven steps of each thread,
and when they cannot go on, nobody is in a call. -/
theorem sleeping_refines_scheduler {ms : List MediatorLabel}
    (h : Run (MediatorStep N) GlobalMediator.initial ms μ) :
    Run (Step N) Sched.initial (ms.filterMap MediatorLabel.schedLabel) μ.sched ∧
      (∀ l σ', Step N μ.sched l σ' → ∃ c c', Reachable (MediatorStep N) μ ⟨μ.sched, c⟩ ∧
        MediatorStep N ⟨μ.sched, c⟩ (.sched l) ⟨σ', c'⟩) ∧
      ∀ ms' μ', Run (MediatorStep N) μ ms' μ' → (∀ m ∈ ms', m.schedLabel = none) →
        ms'.length ≤ 7 * N ∧
          ((∀ m μ'', MediatorStep N μ' m μ'' → m.schedLabel ≠ none) →
            ∀ i, μ'.cond.phase i = .out) := by
  have hinv := GlobalMediator.inv_of_reachable ⟨ms, h⟩
  refine ⟨?_, fun l σ' hstep ↦ ?_, fun ms' μ' hrun hms' ↦ ?_⟩
  · clear hinv
    induction h with
    | refl => exact .refl
    | snoc _ last ih =>
      rcases last.sched with ⟨l, rfl, hstep⟩ | ⟨l, rfl, -, hsame⟩
      · rw [List.filterMap_append]
        exact ih.snoc hstep
      · rw [List.filterMap_append, hsame, List.filterMap_cons_none rfl, List.filterMap_nil,
          List.append_nil]
        exact ih
  · obtain ⟨c, hreach, -, hout⟩ := hinv.exists_out
    obtain ⟨c', hstep'⟩ := hstep.mediated hout
    exact ⟨c, c', GlobalMediator.reachable_cond hreach, hstep'⟩
  · obtain ⟨ls, hlen, hrun'⟩ := MediatorStep.run_cond hrun hms'
    have hle := hinv.length_le hrun'
    rw [hlen, Finset.card_range] at hle
    refine ⟨hle, fun hstuck i ↦ ?_⟩
    -- A thread in a call could go on.
    by_contra hcall
    have hinv' := GlobalMediator.inv_of_reachable ⟨ms ++ ms', h.trans hrun⟩
    obtain ⟨l, c, hstep⟩ := hinv'.exists_step hcall
    exact hstuck _ _ (.cond hstep) rfl

/-! ## Notifications -/

/-- While somebody sleeps, a call of `addRunnable` goes on to notify, and then wakes a thread. -/
theorem MediatorStep.notifies {m : MediatorLabel} {j : ℕ} (h : MediatorStep N μ m μ')
    (hinv : CondVar.Inv (Finset.range N) μ.cond) (asleep : μ.cond.phase j = .asleep)
    (hcall : μ.cond.phase i = .test ∨ μ.cond.phase i = .notify) :
    (μ'.cond.phase i = .test ∨ μ'.cond.phase i = .notify) ∨
      m = .cond (.act i) ∧ ∃ k, μ.cond.phase k = .asleep ∧ μ'.cond.phase k = .relock := by
  rcases h.cond_cases with ⟨l, rfl, hstep⟩ | hsame | ⟨t, p, -, hout, -, hcond⟩
  · rcases hinv.notifies hstep asleep hcall with hcall' | ⟨rfl, hwoken⟩
    · exact Or.inl hcall'
    · exact Or.inr ⟨rfl, hwoken⟩
  · exact Or.inl (hsame ▸ hcall)
  · have hit : i ≠ t := by
      rintro rfl
      rw [hout] at hcall
      exact absurd hcall (by decide)
    left
    rw [hcond]
    simpa only [CondVar.State.goto, Function.update_of_ne hit] using hcall

/-- **No notification is lost.** In the run `μ 0`, `μ 1`, …, `μ m` the thread `i` has enqueued a
task in `addRunnable` and is about to read `sleep_count`, and the thread `j` sleeps until that call
is over. Then at some step of this run the call wakes another sleeper. -/
theorem addRunnable_wakes {μ : ℕ → GlobalMediator} {l : ℕ → MediatorLabel} {m i j : ℕ}
    (h : Reachable (MediatorStep N) GlobalMediator.initial (μ 0))
    (step : ∀ n < m, MediatorStep N (μ n) (l n) (μ (n + 1))) (test : (μ 0).cond.phase i = .test)
    (asleep : ∀ n ≤ m, (μ n).cond.phase j = .asleep) (back : (μ m).cond.phase i = .out) :
    ∃ n < m, (∀ n' ≤ n, (μ n').cond.phase i = .test ∨ (μ n').cond.phase i = .notify) ∧
      l n = .cond (.act i) ∧ ∃ k ≠ j, (μ n).cond.phase k = .asleep ∧
      (μ (n + 1)).cond.phase k = .relock := by
  by_contra hnone
  -- Then the call still goes on.
  have hcall : ∀ m' ≤ m, ∀ n ≤ m', (μ n).cond.phase i = .test ∨ (μ n).cond.phase i = .notify := by
    intro m' hm'
    induction m' with
    | zero =>
      intro n hn
      rw [Nat.le_zero.mp hn]
      exact Or.inl test
    | succ n ih =>
      have hbefore := ih (Nat.le_of_succ_le hm')
      have hstep := step n hm'
      have hreach : Reachable (MediatorStep N) (μ 0) (μ n) :=
        .of_path fun n' hn' ↦ step n' (by omega)
      have hinv := GlobalMediator.inv_of_reachable (h.trans hreach)
      intro n' hn'
      rcases Nat.lt_succ_iff_lt_or_eq.mp (Nat.lt_succ_of_le hn') with hlt | rfl
      · exact hbefore n' (Nat.le_of_lt_succ hlt)
      · rcases hstep.notifies hinv (asleep n (by omega)) (hbefore n le_rfl) with hstill
          | ⟨hl, k, hk, hk'⟩
        · exact hstill
        · have hkj : k ≠ j := by
            rintro rfl
            rw [asleep (n + 1) hm'] at hk'
            cases hk'
          exact absurd ⟨n, hm', hbefore, hl, k, hkj, hk, hk'⟩ hnone
  have hend := hcall m le_rfl m le_rfl
  rw [back] at hend
  exact absurd hend (by decide)

end

/-! ## The time limit -/

section

variable {N i : ℕ} {σ : Sched} {c : CondVar.State ℕ}

theorem Sched.goto_goto (pc pc' : Pc) : (σ.goto i pc).goto i pc' = σ.goto i pc' := by
  simp [goto, setThread]

theorem Sched.goto_self {pc : Pc} (here : (σ.thread i).pc = pc) : σ.goto i pc = σ := by
  subst here
  rw [goto, setThread, Function.update_eq_self]

/-- A thread with nothing to do comes to the end of `run_once`, if there is nothing to steal. -/
theorem GlobalMediator.exists_idle (lt : i < N) (out : c.phase i = .out)
    (loop : (σ.thread i).pc = .loop)
    (queue : ∀ v, (σ.thread v).runnableQueue = []) (mpi : (σ.thread i).mpiBlockedQueue = []) :
    Reachable (MediatorStep N) ⟨σ, c⟩ ⟨σ.goto i .idle, c⟩ := by
  have hgoto : ∀ {pc pc' : Pc}, Control N (σ.goto i pc) i pc pc' → pc' ≠ pc → pc ≠ .idle →
      (∀ t p act, pc ≠ .task t p act) →
      Reachable (MediatorStep N) ⟨σ.goto i pc, c⟩ ⟨σ.goto i pc', c⟩ := by
    intro pc pc' move hmoves hidle htask
    have here : ((σ.goto i pc).thread i).pc = pc := by simp [Sched.goto]
    have hstep : MediatorStep N ⟨σ.goto i pc, c⟩ (.sched .other) ⟨(σ.goto i pc).goto i pc', c⟩ :=
      .own lt out (.control lt here move) (.of_update here rfl hmoves trivial
        (fun he ↦ absurd he hidle) fun t p g rest w ↦ htask _ _ _)
    rw [Sched.goto_goto] at hstep
    exact (Reachable.refl _ _).snoc hstep
  have hqueue : ∀ pc v, ((σ.goto i pc).thread v).runnableQueue = [] := fun pc v ↦ by
    by_cases hvi : v = i
    · rw [hvi]
      simpa [Sched.goto] using queue i
    · rw [Sched.goto, Sched.setThread_thread, Function.update_of_ne hvi]
      exact queue v
  have hsteal : ∀ v ≤ N, Reachable (MediatorStep N) ⟨σ, c⟩ ⟨σ.goto i (.steal v), c⟩ := by
    intro v
    induction v with
    | zero =>
      intro _
      have hfirst := hgoto (.empty (hqueue .loop i)) (by simp) (by simp) (by simp)
      rwa [Sched.goto_self loop] at hfirst
    | succ v ih =>
      intro hv
      refine (ih (by omega)).trans (hgoto ?_ (by simp) (by simp) (by simp))
      by_cases hvi : v = i
      · subst hvi
        exact .self
      · exact .nothing (by omega) hvi (hqueue _ v)
  have hmpi : ((σ.goto i .checkMpi).thread i).mpiBlockedQueue = [] := by
    simpa [Sched.goto] using mpi
  exact ((hsteal N (Nat.le_refl N)).trans
    (hgoto (.unsuccessful (Nat.le_refl N)) (by simp) (by simp) (by simp))).trans
    (hgoto (.noMpi hmpi) (by simp) (by simp) (by simp))

/-- Such a thread decides to sleep and takes the mutex and counts itself. -/
theorem GlobalMediator.exists_counted (lt : i < N) (out : c.phase i = .out)
    (loop : (σ.thread i).pc = .loop) (queue : ∀ v, (σ.thread v).runnableQueue = [])
    (mpi : (σ.thread i).mpiBlockedQueue = []) (go : σ.terminatable = false)
    (free : c.owner = none) :
    Reachable (MediatorStep N) ⟨σ, c⟩
      ⟨σ, ⟨Function.update c.phase i .wait, some i, c.count + 1⟩⟩ := by
  have hidle := exists_idle lt out loop queue mpi
  have here : ((σ.goto i .idle).thread i).pc = .idle := by simp [Sched.goto]
  have hwait : MediatorStep N ⟨σ.goto i .idle, c⟩ (.sched .other)
      ⟨(σ.goto i .idle).goto i .loop, c.goto i .lock⟩ := .waitTask lt out here go
  rw [Sched.goto_goto, Sched.goto_self loop] at hwait
  have hlock : CondVar.Step (c.goto i .lock) (.act i)
      { (c.goto i .lock).goto i .count with owner := some i } :=
    .lock (Function.update_self ..) free
  have hcount := CondVar.Step.count (t := i)
    (σ := { (c.goto i .lock).goto i .count with owner := some i }) (Function.update_self ..)
  have hlast := ((hidle.snoc hwait).snoc (.cond hlock)).snoc (.cond hcount)
  simpa [CondVar.State.goto] using hlast

/-- Then it falls asleep. -/
theorem GlobalMediator.exists_asleep (lt : i < N) (out : c.phase i = .out)
    (loop : (σ.thread i).pc = .loop) (queue : ∀ v, (σ.thread v).runnableQueue = [])
    (mpi : (σ.thread i).mpiBlockedQueue = []) (go : σ.terminatable = false)
    (free : c.owner = none) :
    Reachable (MediatorStep N) ⟨σ, c⟩
      ⟨σ, ⟨Function.update c.phase i .asleep, none, c.count + 1⟩⟩ := by
  have hwait := CondVar.Step.wait (t := i) (σ := ⟨Function.update c.phase i .wait, some i,
    c.count + 1⟩) (Function.update_self ..)
  have hlast := (exists_counted lt out loop queue mpi go free).snoc (.cond hwait)
  simpa [CondVar.State.goto] using hlast

theorem Sched.initial_empty (i : ℕ) : (Sched.initial.thread i).runnableQueue = [] ∧
    (Sched.initial.thread i).mpiBlockedQueue = [] := by
  by_cases hi : i = 0 <;> simp [Sched.initial, hi]

/-- The main thread joins the first child, which sleeps, and the children up to `n` have left
`run`. -/
structure GlobalMediator.Missed (μ : GlobalMediator) (n : ℕ) : Prop where
  stop : μ.sched.terminatable = true
  root : (μ.sched.thread 0).pc = .join 1
  sleeper : (μ.sched.thread 1).pc = .loop
  left : ∀ i, 2 ≤ i → i < n → (μ.sched.thread i).pc = .exited
  rest : ∀ i, n ≤ i → (μ.sched.thread i).pc = .loop
  queue : ∀ i, (μ.sched.thread i).runnableQueue = []
  mpi : ∀ i, (μ.sched.thread i).mpiBlockedQueue = []
  asleep : μ.cond.phase 1 = .asleep
  out : ∀ i, i ≠ 1 → μ.cond.phase i = .out

/-- The first child decides to sleep, then the main thread ends the program and notifies all
threads, and then the child falls asleep. -/
theorem GlobalMediator.exists_missed (hN : 2 ≤ N) :
    ∃ μ, Reachable (MediatorStep N) GlobalMediator.initial μ ∧ μ.Missed 2 := by
  have hchild := exists_counted (N := N) (i := 1) (σ := Sched.initial) (c := .initial)
    (by omega) rfl rfl (fun v ↦ (Sched.initial_empty v).1) (Sched.initial_empty 1).2 rfl rfl
  obtain ⟨c, hc⟩ : ∃ c : CondVar.State ℕ, c = ⟨Function.update (fun _ ↦ .out) 1 .wait, some 1, 1⟩ :=
    ⟨_, rfl⟩
  have hroot : c.phase 0 = .out := by rw [hc]; rfl
  -- The main thread finds nothing to do.
  obtain ⟨σ, hσ⟩ : ∃ σ : Sched,
      σ = ({ Sched.initial with terminatable := true } : Sched).goto 0 .loop := ⟨_, rfl⟩
  have hstart : Reachable (MediatorStep N) GlobalMediator.initial ⟨σ, c⟩ := by
    have here : (({ Sched.initial with terminatable := true } : Sched).thread 0).pc = .main := rfl
    rw [hσ, hc]
    exact (hchild.snoc .terminateGracefully).snoc (.own (by omega) rfl
      (.control (by omega) here .start) (.of_update here rfl (by simp) trivial (by simp) (by simp)))
  have hthread : ∀ i, (σ.thread i).pc = .loop ∧ (σ.thread i).runnableQueue = [] ∧
      (σ.thread i).mpiBlockedQueue = [] := fun i ↦ by
    by_cases hi : i = 0 <;> simp [hσ, Sched.initial, Sched.goto, hi]
  have hidle := exists_idle (N := N) (by omega) hroot (hthread 0).1 (fun v ↦ (hthread v).2.1)
    (hthread 0).2.2
  have hsweep : MediatorStep N ⟨σ.goto 0 .idle, c⟩ (.sched .other)
      ⟨(σ.goto 0 .idle).goto 0 (.join 1), c.goto 0 .notifyAll⟩ :=
    .sweep (by omega) hroot (by simp [Sched.goto]) (by rw [hσ]; rfl) rfl
  rw [Sched.goto_goto] at hsweep
  have hnotify : CondVar.Step (c.goto 0 .notifyAll) (.act 0)
      { c with phase := Function.update (fun u ↦ ((c.goto 0 .notifyAll).phase u).wake) 0 .out } :=
    .notifyAll (by simp [CondVar.State.goto])
  have hsleep := CondVar.Step.wait (t := 1)
    (σ := { c with phase := Function.update (fun u ↦ ((c.goto 0 .notifyAll).phase u).wake) 0 .out })
    (by rw [hc]; rfl)
  refine ⟨_, ((((hstart.trans hidle).snoc hsweep).snoc (.cond hnotify)).snoc (.cond hsleep)), ?_⟩
  constructor
  case stop => rw [hσ]; rfl
  case root => simp [Sched.goto]
  case sleeper => simpa [Sched.goto] using (hthread 1).1
  case left => omega
  case rest =>
    intro i hi
    simpa [Sched.goto, show i ≠ 0 by omega] using (hthread i).1
  case queue =>
    intro i
    by_cases hi : i = 0
    · simpa [Sched.goto, hi] using (hthread 0).2.1
    · simpa [Sched.goto, hi] using (hthread i).2.1
  case mpi =>
    intro i
    by_cases hi : i = 0
    · simpa [Sched.goto, hi] using (hthread 0).2.2
    · simpa [Sched.goto, hi] using (hthread i).2.2
  case asleep => simp [CondVar.State.goto]
  case out =>
    intro i hi
    by_cases hi' : i = 0 <;> simp [CondVar.State.goto, hc, hi, hi', Phase.wake]

theorem GlobalMediator.Missed.leave {μ : GlobalMediator} {n : ℕ} (h : μ.Missed n) (h2 : 2 ≤ n)
    (hn : n < N) : ∃ μ', Reachable (MediatorStep N) μ μ' ∧ μ'.Missed (n + 1) := by
  have hout := h.out n (by omega)
  have hidle := exists_idle hn hout (h.rest n (Nat.le_refl n)) h.queue (h.mpi n)
  have here : ((μ.sched.goto n .idle).thread n).pc = .idle := by simp [Sched.goto]
  have hleave : MediatorStep N ⟨μ.sched.goto n .idle, μ.cond⟩ (.sched .other)
      ⟨(μ.sched.goto n .idle).goto n .exited, μ.cond⟩ :=
    .own hn hout (.control hn here (.leave h.stop (by omega)))
      (.of_update here rfl (by simp) trivial (fun _ ↦ rfl) (by simp))
  rw [Sched.goto_goto] at hleave
  refine ⟨_, hidle.snoc hleave, ?_⟩
  have hother : ∀ i, i ≠ n → (μ.sched.goto n .exited).thread i = μ.sched.thread i := fun i hi ↦
    Function.update_of_ne hi _ _
  have hqueues : ∀ {F : PerThreadMgr → List ℕ} (i : ℕ), F { μ.sched.thread n with pc := .exited } =
      F (μ.sched.thread n) → F ((μ.sched.goto n .exited).thread i) = F (μ.sched.thread i) :=
    fun i hF ↦ apply_update_eq _ hF i
  constructor
  case stop => exact h.stop
  case root => rw [hother 0 (by omega), h.root]
  case sleeper => rw [hother 1 (by omega), h.sleeper]
  case left =>
    intro i hi hin
    by_cases hi' : i = n
    · simp [Sched.goto, hi']
    · rw [hother i hi']
      exact h.left i hi (by omega)
  case rest =>
    intro i hi
    rw [hother i (by omega)]
    exact h.rest i (by omega)
  case queue => exact fun i ↦ (hqueues i rfl).trans (h.queue i)
  case mpi => exact fun i ↦ (hqueues i rfl).trans (h.mpi i)
  case asleep => exact h.asleep
  case out => exact h.out

theorem GlobalMediator.Missed.exists_left {μ : GlobalMediator} {n : ℕ} (h : μ.Missed n) (h2 : 2 ≤ n)
    (hn : n ≤ N) : ∃ μ', Reachable (MediatorStep N) μ μ' ∧ μ'.Missed N := by
  induction hd : N - n generalizing n μ with
  | zero =>
    obtain rfl : n = N := by omega
    exact ⟨μ, .refl _ _, h⟩
  | succ d ih =>
    obtain ⟨μ₁, hreach, hμ₁⟩ := h.leave h2 (by omega : n < N)
    obtain ⟨μ', hreach', hμ'⟩ := ih hμ₁ (by omega) (by omega) (by omega)
    exact ⟨μ', hreach.trans hreach', hμ'⟩

theorem GlobalMediator.Missed.stuck (hN : 2 ≤ N) {μ μ' : GlobalMediator} {m : MediatorLabel}
    (h : μ.Missed N) (hstep : MediatorStep N μ m μ') : μ' = μ ∨ m = .cond (.timeout 1) := by
  -- A thread that is in no call joins the first child or has left.
  have hpc : ∀ i < N, μ.cond.phase i = .out →
      (μ.sched.thread i).pc = .join 1 ∨ (μ.sched.thread i).pc = .exited := by
    intro i hi hout
    rcases Nat.lt_or_ge i 2 with hi2 | hi2
    · have hi01 : i = 0 ∨ i = 1 := by omega
      rcases hi01 with rfl | rfl
      · exact Or.inl h.root
      · rw [h.asleep] at hout
        cases hout
    · exact Or.inr (h.left i hi2 hi)
  -- Somebody in a call sleeps, and there is one only.
  have hphase : ∀ {t : ℕ} {p : Phase}, μ.cond.phase t = p → p ≠ .out → t = 1 ∧ p = .asleep := by
    intro t p here hp
    by_cases ht : t = 1
    · subst ht
      exact ⟨rfl, here.symm.trans h.asleep⟩
    · exact absurd (here.symm.trans (h.out t ht)) hp
  cases hstep with
  | terminateGracefully =>
    left
    have hsame : { μ.sched with terminatable := true } = μ.sched := by rw [← h.stop]
    rw [hsame]
  | @own i l σ' lt out step own =>
    have hstuck : ¬(μ.sched.thread i).pc.Client ∧ (μ.sched.thread i).pc.Leaving ∧
        ∀ pc', ¬Control N μ.sched i (μ.sched.thread i).pc pc' := by
      rcases hpc i lt out with here | here
      · rw [here]
        refine ⟨id, trivial, fun pc' move ↦ ?_⟩
        cases move with
        | joined _ child =>
          rw [h.sleeper] at child
          cases child
        | swept le => omega
      · rw [here]
        refine ⟨id, trivial, fun pc' move ↦ ?_⟩
        cases move
    obtain ⟨hclient, hleaving, hcontrol⟩ := hstuck
    rcases own.moves with hmoves | ⟨client, -⟩
    · rcases step.pc_cases i with hsame | hmove | ⟨hnot, -⟩
      · exact absurd hsame hmoves
      · exact absurd hmove (hcontrol _)
      · exact absurd hleaving hnot
    · exact absurd client hclient
  | @addRunnable i t lt out client =>
    rcases hpc i lt out with here | here <;> rw [here] at client <;> exact client.elim
  | @informEnqueue i c g w p rest lt out here =>
    rcases hpc i lt out with here' | here' <;> rw [here'] at here <;> cases here
  | @waitTask i lt out here =>
    rcases hpc i lt out with here' | here' <;> rw [here'] at here <;> cases here
  | @sweep i lt out here =>
    rcases hpc i lt out with here' | here' <;> rw [here'] at here <;> cases here
  | cond step =>
    cases step with
    | timeout here =>
      obtain ⟨rfl, -⟩ := hphase here (by decide)
      exact Or.inr rfl
    | lock here | count here | wait here | relock here | discount here | unlock here | testZero here
    | test here | notify here | notifyNobody here | notifyAll here =>
      exact absurd (hphase here (by decide)).2 (by decide)

/-- **Only the time limit ends the sleep.** With two threads or more, the first child may decide to
sleep before the program ends and fall asleep after the main thread has notified all threads. Then
the main thread waits for it, the other children have left, and nothing can happen until its time is
over. -/
theorem time_limit_needed (hN : 2 ≤ N) :
    ∃ μ, Reachable (MediatorStep N) GlobalMediator.initial μ ∧ (μ.sched.thread 0).pc = .join 1 ∧
      μ.cond.phase 1 = .asleep ∧
      ∀ m μ', MediatorStep N μ m μ' → μ' = μ ∨ m = .cond (.timeout 1) := by
  obtain ⟨μ₀, hreach, hmissed⟩ := GlobalMediator.exists_missed hN
  obtain ⟨μ, hreach', h⟩ := hmissed.exists_left (Nat.le_refl 2) hN
  exact ⟨μ, hreach.trans hreach', h.root, h.asleep, fun m μ' hstep ↦ h.stuck hN hstep⟩

end

/-- With two threads nothing else is left. -/
theorem time_limit_needed_two :
    ∃ μ, Reachable (MediatorStep 2) GlobalMediator.initial μ ∧ (μ.sched.thread 0).pc = .join 1 ∧
      μ.cond.phase 1 = .asleep ∧ ∀ m μ', MediatorStep 2 μ m μ' → μ' = μ ∨ m = .cond (.timeout 1) :=
  time_limit_needed (Nat.le_refl 2)

/-- The child sleeps. -/
theorem sleeping_refines_scheduler_asleep :
    ∃ ms μ, Run (MediatorStep 2) GlobalMediator.initial ms μ ∧ μ.cond.phase 1 = .asleep ∧
      Run (Step 2) Sched.initial (ms.filterMap MediatorLabel.schedLabel) μ.sched := by
  obtain ⟨μ, ⟨ms, hrun⟩, h⟩ := GlobalMediator.exists_missed (Nat.le_refl 2)
  exact ⟨ms, μ, hrun, h.asleep, (sleeping_refines_scheduler hrun).1⟩

/-- Two children sleep, and the main thread enqueues a task. It wakes the second child. -/
theorem addRunnable_wakes_second : ∃ (μ : ℕ → GlobalMediator) (l : ℕ → MediatorLabel),
    Reachable (MediatorStep 3) GlobalMediator.initial (μ 0) ∧
      (∀ n < 2, MediatorStep 3 (μ n) (l n) (μ (n + 1))) ∧
      (μ 0).cond.phase 1 = .asleep ∧ (μ 0).cond.phase 2 = .asleep ∧
      ∃ n < 2, (∀ n' ≤ n, (μ n').cond.phase 0 = .test ∨ (μ n').cond.phase 0 = .notify) ∧
        l n = .cond (.act 0) ∧ ∃ k ≠ 1, (μ n).cond.phase k = .asleep ∧
        (μ (n + 1)).cond.phase k = .relock := by
  have hfirst := GlobalMediator.exists_asleep (N := 3) (i := 1) (σ := Sched.initial) (c := .initial)
    (by decide) rfl rfl (fun v ↦ (Sched.initial_empty v).1) rfl rfl rfl
  have hsecond := GlobalMediator.exists_asleep (N := 3) (i := 2) (σ := Sched.initial)
    (c := ⟨Function.update (fun _ ↦ .out) 1 .asleep, none, 1⟩)
    (by decide) rfl rfl (fun v ↦ (Sched.initial_empty v).1) rfl rfl rfl
  obtain ⟨c, hc⟩ : ∃ c : CondVar.State ℕ, c =
      ⟨Function.update (Function.update (fun _ ↦ .out) 1 .asleep) 2 .asleep, none, 2⟩ := ⟨_, rfl⟩
  have hasleep : Reachable (MediatorStep 3) GlobalMediator.initial ⟨Sched.initial, c⟩ := by
    rw [hc]
    exact hfirst.trans hsecond
  have hroot : c.phase 0 = .out := by rw [hc]; rfl
  have hown : Sched.initial.Own 0 .other { Sched.initial.setTask 0 {} with next := 1 } :=
    ⟨fun _ _ ↦ rfl, Or.inr ⟨trivial, rfl⟩, trivial, by simp [Sched.initial],
      by simp [Sched.initial]⟩
  have hmade : Reachable (MediatorStep 3) GlobalMediator.initial
      ⟨{ Sched.initial.setTask 0 {} with next := 1 }, c⟩ :=
    hasleep.snoc (.own (by decide) hroot (.newTask (i := 0) false (by decide) trivial) hown)
  have hrun := hmade.snoc
    (.addRunnable (i := 0) (t := 0) (by decide) hroot trivial (Nat.lt_succ_self 0) rfl)
  have htest : (c.goto 0 .test).phase 0 = .test := by simp [CondVar.State.goto]
  have hread : CondVar.Step (c.goto 0 .test) (.act 0) ((c.goto 0 .test).goto 0 .notify) :=
    .test htest (by rw [hc]; decide)
  have hnotify : CondVar.Step ((c.goto 0 .test).goto 0 .notify) (.act 0)
      ((((c.goto 0 .test).goto 0 .notify).goto 2 .relock).goto 0 .out) :=
    .notify (by simp [CondVar.State.goto]) (by simp [CondVar.State.goto, hc])
  obtain ⟨σ, hrun⟩ : ∃ σ, Reachable (MediatorStep 3) GlobalMediator.initial ⟨σ, c.goto 0 .test⟩ :=
    ⟨_, hrun⟩
  let μ : ℕ → GlobalMediator := fun n ↦ if n = 0 then ⟨σ, c.goto 0 .test⟩
    else if n = 1 then ⟨σ, (c.goto 0 .test).goto 0 .notify⟩
    else ⟨σ, (((c.goto 0 .test).goto 0 .notify).goto 2 .relock).goto 0 .out⟩
  have hstep : ∀ n < 2, MediatorStep 3 (μ n) (.cond (.act 0)) (μ (n + 1)) := by
    intro n hn
    rcases n with _ | _ | n
    · exact .cond hread
    · exact .cond hnotify
    · omega
  have hsleeps : ∀ n ≤ 2, (μ n).cond.phase 1 = .asleep := by
    intro n _
    dsimp only [μ]
    split
    · simp [CondVar.State.goto, hc]
    · split <;> simp [CondVar.State.goto, hc]
  refine ⟨μ, fun _ ↦ .cond (.act 0), hrun, hstep, hsleeps 0 (by decide), ?_,
    addRunnable_wakes (m := 2) hrun hstep htest hsleeps ?_⟩
  · simp [μ, CondVar.State.goto, hc]
  · simp [μ, CondVar.State.goto]

end TYThread
