import TYThread.Scheduler.OnePlace

/-!
# Shutting down

A thread leaves `run` only with empty queues, and nobody else puts a task into them. The main thread
leaves last. So when it has left, there is no task in any thread.
-/

namespace TYThread

open Transition

/-- The thread has left the loop of `run`. -/
def Pc.Leaving : Pc → Prop
  | .join _ => True
  | .exited => True
  | _ => False

/-- A thread comes to leave, or to have left, only on its way through `run`. -/
theorem Step.pc_cases {N : ℕ} {σ σ' : Sched} {l : Label} (h : Step N σ l σ') (j : ℕ) :
    (σ'.thread j).pc = (σ.thread j).pc ∨ Control N σ j (σ.thread j).pc (σ'.thread j).pc ∨
      (¬(σ.thread j).pc.Leaving ∧ ¬(σ'.thread j).pc.Leaving) := by
  have hafter : ∀ p, ¬(afterTask p).Leaving := fun p ↦ by cases p <;> exact id
  -- The thread `i` acts.
  have hupdate : ∀ {i : ℕ} {pc pc' : Pc} {m : PerThreadMgr}, (σ.thread i).pc = pc → m.pc = pc' →
      ¬pc.Leaving → ¬pc'.Leaving → σ'.thread = Function.update σ.thread i m →
      (σ'.thread j).pc = (σ.thread j).pc ∨ Control N σ j (σ.thread j).pc (σ'.thread j).pc ∨
        (¬(σ.thread j).pc.Leaving ∧ ¬(σ'.thread j).pc.Leaving) := by
    intro i pc pc' m here hm hpc hpc' hthread
    by_cases hji : j = i
    · rw [hthread, hji, Function.update_self, here, hm]
      exact Or.inr (Or.inr ⟨hpc, hpc'⟩)
    · rw [hthread, Function.update_of_ne hji]
      exact Or.inl rfl
  cases h with
  | terminateGracefully | newTask | registe | registeFini | waitDone | destroy => exact Or.inl rfl
  | @addRunnable i t lt client =>
    by_cases hji : j = i
    · subst hji
      exact Or.inl (by simp [Sched.enqueue])
    · exact Or.inl (congrArg _ (Function.update_of_ne hji _ _))
  | @control i pc pc' lt here move =>
    by_cases hji : j = i
    · subst hji
      rw [here]
      exact Or.inr (Or.inl (by simpa [Sched.goto] using move))
    · exact Or.inl (congrArg _ (Function.update_of_ne hji _ _))
  | @steal i v xs ys lt here victim ne =>
    by_cases hji : j = i
    · subst hji
      rw [here]
      exact Or.inr (Or.inr ⟨id, by simp [Sched.goto, Pc.Leaving]⟩)
    · refine Or.inl ?_
      rw [Sched.goto, Sched.setThread_thread, Function.update_of_ne hji, Sched.setThread_thread]
      by_cases hjv : j = v
      · rw [hjv, Function.update_self]
      · rw [Function.update_of_ne hjv]
  | erase lt here | dequeue lt here | install lt here | pollTask lt here | waitYield lt here
  | yield lt here | terminate lt here | informLock lt here | informDecrement lt here
  | informTake lt here | informNobody lt here | informEnqueue lt here | informUnlock lt here
  | terminated lt here | handleMpi lt here | stillMpi lt here | handleWait lt here
  | resumeLock lt here | resumeZero lt here | resumeBlock lt here =>
    exact hupdate here rfl id id rfl
  | handleRunnable lt here | handleOther lt here | requeue lt here =>
    exact hupdate here rfl id (hafter _) rfl
  | @resumeUnlock i t g p result lt here =>
    refine hupdate here rfl id ?_ rfl
    cases result with
    | true => exact id
    | false => exact hafter p

/-- A thread that has left `run` has left it for good. -/
theorem Step.exited {N : ℕ} {σ σ' : Sched} {l : Label} (h : Step N σ l σ') {j : ℕ}
    (hj : (σ.thread j).pc = .exited) : (σ'.thread j).pc = .exited := by
  rcases h.pc_cases j with hsame | hmove | ⟨hleave, -⟩
  · rw [hsame, hj]
  · rw [hj] at hmove
    cases hmove
  · rw [hj] at hleave
    exact absurd trivial hleave

/-- The children that the main thread has joined have left `run`. -/
structure Sched.Swept (N : ℕ) (σ : Sched) : Prop where
  join : ∀ c, (σ.thread 0).pc = .join c →
    ∀ d, 0 < d → d < c → d < N → (σ.thread d).pc = .exited
  exited : (σ.thread 0).pc = .exited → ∀ d < N, (σ.thread d).pc = .exited

theorem Step.swept {N : ℕ} {σ σ' : Sched} {l : Label} (h : Step N σ l σ') (hσ : σ.Swept N) :
    σ'.Swept N := by
  constructor
  case join =>
    intro c hc d hpos hd hN
    rcases h.pc_cases 0 with hsame | hmove | ⟨-, hleave⟩
    · exact h.exited (hσ.join c (hsame.symm.trans hc) d hpos hd hN)
    · rw [hc] at hmove
      generalize hpc : (σ.thread 0).pc = pc at hmove
      cases hmove with
      | sweep => omega
      | @joined c lt child =>
        by_cases hdc : d = c
        · rw [hdc]
          exact h.exited child
        · exact h.exited (hσ.join c hpc d hpos (by omega) hN)
    · rw [hc] at hleave
      exact absurd trivial hleave
  case exited =>
    intro hexited d hN
    rcases h.pc_cases 0 with hsame | hmove | ⟨-, hleave⟩
    · exact h.exited (hσ.exited (hsame.symm.trans hexited) d hN)
    · rw [hexited] at hmove
      generalize hpc : (σ.thread 0).pc = pc at hmove
      cases hmove with
      | leave stop child => exact absurd rfl child
      | @swept c le =>
        by_cases hd : d = 0
        · rw [hd]
          exact hexited
        · exact h.exited (hσ.join c hpc d (by omega) (by omega) hN)
    · rw [hexited] at hleave
      exact absurd trivial hleave

theorem Sched.Swept.of_reachable {N : ℕ} {σ : Sched}
    (h : Reachable (OneWaiterStep N) Sched.initial σ) : σ.Swept N := by
  refine h.invariant ⟨fun c hc ↦ ?_, fun h ↦ ?_⟩ fun _ _ _ hσ hstep ↦ hstep.1.swept hσ
  · exact absurd hc (by simp [Sched.initial])
  · exact absurd h (by simp [Sched.initial])

theorem Sched.Ok.part_of_exited {N i : ℕ} {σ : Sched} (hσ : σ.Ok N)
    (h : (σ.thread i).pc = .exited) (part : Part) : (σ.thread i).part part = [] := by
  have hi : i < N := by
    by_contra hle
    rw [hσ.outside i (not_lt.mp hle), Sched.initial] at h
    by_cases hi : i = 0 <;> simp [hi] at h
  have hshape := (hσ.thread i hi).shape
  rw [PerThreadMgr.Shape, h] at hshape
  cases part with
  | runnable => exact hshape.1
  | mpiBlocked => rw [PerThreadMgr.part, PerThreadMgr.parked, h]; exact hshape.2
  | stolen | running | informing => rw [PerThreadMgr.part, h]; rfl

/-- **Graceful shutdown drops no runnable work.** A thread that has left `run` never has a task in
its queues, nor anywhere else. When the main thread has left `run`, so have all others, and every
task that was ever spawned has terminated or is in the `blockedTask` of a group. -/
theorem shutdown_drops_nothing {N : ℕ} {σ : Sched}
    (hrun : Reachable (OneWaiterStep N) Sched.initial σ) :
    (∀ i, (σ.thread i).pc = .exited → ∀ part, (σ.thread i).part part = []) ∧
    ((σ.thread 0).pc = .exited →
      (∀ i < N, (σ.thread i).pc = .exited ∧ ∀ part, (σ.thread i).part part = []) ∧
      ∀ t, (σ.task t).spawned = true →
        (σ.task t).state = .terminated ∨ ∃ g, (σ.group g).blockedTask = some t) := by
  have hσ := Sched.Ok.of_reachable hrun
  have hempty := fun i h ↦ hσ.part_of_exited (i := i) h
  refine ⟨hempty, fun hmain ↦ ?_⟩
  have hall := (Sched.Swept.of_reachable hrun).exited hmain
  refine ⟨fun i hi ↦ ⟨hall i hi, hempty i (hall i hi)⟩, fun t hspawned ↦ ?_⟩
  by_cases hlive : (σ.task t).state = .terminated
  · exact Or.inl hlive
  · obtain ⟨p, hp, -⟩ := hσ.exists_onlyIn hspawned hlive
    cases p with
    | thread i part =>
      have hpos : 0 < ((σ.thread i).part part).count t := Nat.lt_of_lt_of_eq Nat.one_pos hp.symm
      rw [hempty i (hall i (hσ.lt_of_part hpos))] at hpos
      exact absurd hpos (lt_irrefl 0)
    | blocked g =>
      refine Or.inr ⟨g, ?_⟩
      by_contra hne
      rw [Sched.times, if_neg hne] at hp
      exact absurd hp (by simp)

/-- The thread `1` steals a task from the main thread and runs it to its end. Both threads leave. -/
theorem shutdown_drops_nothing_finished :
    ∃ σ, Reachable (OneWaiterStep 2) Sched.initial σ ∧ (σ.thread 0).pc = .exited ∧
      (σ.task 0).spawned = true ∧ (σ.thread 1).pc = .exited ∧
      ((σ.task 0).state = .terminated ∨ ∃ g, (σ.group g).blockedTask = some 0) := by
  have hstolen : Reachable (OneWaiterStep 2) Sched.initial _ :=
    (((((Reachable.refl _ _).snoc
      ⟨Step.newTask (i := 0) false (by decide) trivial, trivial⟩).snoc
      ⟨Step.addRunnable (i := 0) (t := 0) (by decide) (by trivial) (by decide) rfl, trivial⟩).snoc
      ⟨Step.control (i := 1) (by decide) rfl (.empty rfl), trivial⟩).snoc
      ⟨Step.steal (i := 1) (v := 0) (by decide) rfl (by decide) (by decide)
        (show _ = [0] ++ [] from rfl) (by decide), trivial⟩).snoc
      ⟨Step.install (i := 1) (by decide) rfl, trivial⟩
  have htask := ((((hstolen.snoc
      ⟨Step.dequeue (i := 1) (t := 0) (by decide) rfl rfl, trivial⟩).snoc
      ⟨Step.terminate (i := 1) (c := 0) (by decide) rfl rfl, trivial⟩).snoc
      ⟨Step.terminated (i := 1) (c := 0) (by decide) rfl, trivial⟩).snoc
      ⟨Step.handleOther (i := 1) (t := 0) (by decide) rfl (Or.inl rfl), trivial⟩).snoc
      ⟨Step.terminateGracefully, trivial⟩
  have hchild := (((((htask.snoc
      ⟨Step.control (i := 1) (by decide) rfl (.empty rfl), trivial⟩).snoc
      ⟨Step.control (i := 1) (by decide) rfl (.nothing (by decide) (by decide) rfl), trivial⟩).snoc
      ⟨Step.control (i := 1) (by decide) rfl .self, trivial⟩).snoc
      ⟨Step.control (i := 1) (by decide) rfl (.unsuccessful (by decide)), trivial⟩).snoc
      ⟨Step.control (i := 1) (by decide) rfl (.noMpi rfl), trivial⟩).snoc
      ⟨Step.control (i := 1) (by decide) rfl (.leave rfl (by decide)), trivial⟩
  have hexit := ((((((((hchild.snoc
      ⟨Step.control (i := 0) (by decide) rfl .start, trivial⟩).snoc
      ⟨Step.control (i := 0) (by decide) rfl (.empty rfl), trivial⟩).snoc
      ⟨Step.control (i := 0) (by decide) rfl .self, trivial⟩).snoc
      ⟨Step.control (i := 0) (by decide) rfl (.nothing (by decide) (by decide) rfl), trivial⟩).snoc
      ⟨Step.control (i := 0) (by decide) rfl (.unsuccessful (by decide)), trivial⟩).snoc
      ⟨Step.control (i := 0) (by decide) rfl (.noMpi rfl), trivial⟩).snoc
      ⟨Step.control (i := 0) (by decide) rfl (.sweep rfl rfl), trivial⟩).snoc
      ⟨Step.control (i := 0) (by decide) rfl (.joined (by decide) rfl), trivial⟩).snoc
      ⟨Step.control (i := 0) (by decide) rfl (.swept (by decide)), trivial⟩
  obtain ⟨hall, hspawned⟩ := (shutdown_drops_nothing hexit).2 rfl
  exact ⟨_, hexit, rfl, rfl, (hall 1 (by decide)).1, hspawned 0 rfl⟩

end TYThread
