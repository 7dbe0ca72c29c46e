import TYThread.Scheduler.Lines

/-!
# Every task is served, or stolen again and again

Infinite runs, in which every thread that does not leave `run` comes back to the start of `run_once`
again and again: the operating system lets it run, and its tasks give control back. There a task
that waits in a line moves up each time the thread of this line begins `run_once`, and so it gets
control, unless it is stolen. A task that is stolen keeps its rank. So only thefts of this one task,
without end, can keep it from being served.
-/

namespace TYThread

open Transition

/-- The task `t` goes from one line to another. -/
def Sched.Stolen (σ σ' : Sched) (t : ℕ) : Prop :=
  ∃ v i, v ≠ i ∧ t ∈ (σ.thread v).line ∧ t ∈ (σ'.thread i).line

/-- Every thread that does not leave `run` begins `run_once` again and again. -/
def Sched.TakesTurns (N : ℕ) (σ : ℕ → Sched) : Prop :=
  ∀ i < N, ∀ n, ∃ m ≥ n, ((σ m).thread i).pc = .exited ∨
    ((σ m).thread i).pc = .loop ∧ ((σ (m + 1)).thread i).pc ≠ .loop

section

variable {N t i n : ℕ} {σ σ' : Sched} {l : Label}

/-- A thread that begins `run_once` takes the first task of its queue. -/
theorem Step.turn (h : Step N σ l σ') (hloop : (σ.thread i).pc = .loop)
    (hmoved : (σ'.thread i).pc ≠ .loop) :
    (σ.thread i).runnableQueue = [] ∨ ∃ u, l = .back u ∧ σ.WaitsAt u i 0 := by
  -- A thread that is elsewhere acts.
  have hother : ∀ {j : ℕ} {pc : Pc} {m : PerThreadMgr} {P : Prop}, (σ.thread j).pc = pc →
      pc ≠ .loop → σ'.thread = Function.update σ.thread j m → P := by
    intro j pc m P here hpc hthread
    by_cases hji : i = j
    · subst hji
      exact absurd (here.symm.trans hloop) hpc
    · rw [hthread, Function.update_of_ne hji] at hmoved
      exact absurd hloop hmoved
  cases h with
  | terminateGracefully | newTask | registe | registeFini | waitDone | destroy =>
    exact absurd hloop hmoved
  | @addRunnable j u lt client =>
    refine hother rfl (fun hpc ↦ ?_) rfl
    rw [hpc] at client
    exact client
  | @control j pc pc' lt here move =>
    by_cases hji : i = j
    · subst hji
      obtain rfl : pc = .loop := here.symm.trans hloop
      cases move with
      | empty queue => exact Or.inl queue
    · refine absurd hloop ?_
      rwa [Sched.goto, Sched.setThread_thread, Function.update_of_ne hji] at hmoved
  | @dequeue j u ts lt here queue =>
    by_cases hji : i = j
    · subst hji
      refine Or.inr ⟨u, rfl, ?_⟩
      rw [Sched.WaitsAt, PerThreadMgr.line, here, queue]
      rfl
    · refine absurd hloop ?_
      rwa [Sched.setThread_thread, Function.update_of_ne hji] at hmoved
  | @steal j v xs ys lt here victim ne =>
    have hij : i ≠ j := by
      rintro rfl
      rw [here] at hloop
      cases hloop
    rw [Sched.goto, Sched.setThread_thread, Function.update_of_ne hij,
      Sched.setThread_thread] at hmoved
    by_cases hiv : i = v
    · rw [hiv, Function.update_self] at hmoved
      rw [hiv] at hloop
      exact absurd hloop hmoved
    · rw [Function.update_of_ne hiv] at hmoved
      exact absurd hloop hmoved
  | erase lt here | install lt here | pollTask lt here | waitYield lt here | yield lt here
  | terminate lt here | informLock lt here | informDecrement lt here | informTake lt here
  | informNobody lt here | informEnqueue lt here | informUnlock lt here | terminated lt here
  | handleRunnable lt here | handleMpi lt here | stillMpi lt here | handleWait lt here
  | handleOther lt here | resumeLock lt here | resumeZero lt here | resumeBlock lt here
  | resumeUnlock lt here | requeue lt here =>
    exact hother here (by rintro ⟨⟩) rfl

end

section

variable {N t n : ℕ} {σ : ℕ → Sched} {l : ℕ → Label}

/-- A task that waits gets control, or it is stolen. -/
theorem Sched.TakesTurns.exists_moved (turns : Sched.TakesTurns N σ) (hok : ∀ n, (σ n).Ok N)
    (step : ∀ n, OneWaiterStep N (σ n) (l n) (σ (n + 1))) {i k : ℕ} (waits : (σ n).WaitsAt t i k) :
    ∃ m ≥ n, l m = .back t ∨ (σ m).Stolen (σ (m + 1)) t := by
  have hi : i < N := (hok n).lt_of_line (List.mem_of_getElem? waits)
  -- In the line of one thread its rank never goes up, and goes down when this thread has its turn.
  refine exists_of_turns (P := fun n k ↦ (σ n).WaitsAt t i k)
    (T := fun n ↦ ((σ n).thread i).pc = .exited ∨
      ((σ n).thread i).pc = .loop ∧ ((σ (n + 1)).thread i).pc ≠ .loop)
    (fun n k hwaits ↦ ?_) (fun n k hwaits hturn ↦ ?_) (fun n _ _ ↦ turns i hi n) waits
  · by_cases hback : l n = .back t
    · exact Or.inl (Or.inl hback)
    · obtain ⟨j, k', hwaits', hle⟩ := ((step n).1.lines (hok n)).waitsAt hwaits hback
      by_cases hji : j = i
      · exact Or.inr ⟨k', hle, hji ▸ hwaits'⟩
      · exact Or.inl (Or.inr ⟨i, j, Ne.symm hji, List.mem_of_getElem? hwaits,
          List.mem_of_getElem? hwaits'⟩)
  · have hline := List.mem_of_getElem? hwaits
    rw [PerThreadMgr.line] at hline
    rcases hturn with hexited | ⟨hloop, hmoved⟩
    · have hshape := ((hok n).thread i hi).shape
      rw [PerThreadMgr.Shape, hexited] at hshape
      rw [hexited, hshape.1] at hline
      exact absurd hline List.not_mem_nil
    · rcases (step n).1.turn hloop hmoved with hempty | ⟨u, hu, hfirst⟩
      · rw [hloop, hempty] at hline
        exact absurd hline List.not_mem_nil
      · by_cases hut : u = t
        · exact Or.inl (Or.inl (hut ▸ hu))
        · have hmove := (step n).1.lines (hok n)
          rw [hu] at hmove
          obtain ⟨k', hwaits', hk⟩ := hmove.waitsAt_taken (hok n) hwaits hfirst hut
          exact Or.inr ⟨k', by omega, hwaits'⟩

/-- **Served, or stolen for ever.** In an infinite run in which every thread that does not leave
`run` begins `run_once` again and again, a task that waits in a line gets control, or it is stolen
again and again without end. -/
theorem served_or_stolen (start : Reachable (OneWaiterStep N) Sched.initial (σ 0))
    (step : ∀ n, OneWaiterStep N (σ n) (l n) (σ (n + 1))) (turns : Sched.TakesTurns N σ) {i : ℕ}
    (waits : t ∈ ((σ n).thread i).line) :
    (∃ m ≥ n, l m = .back t) ∨ ∀ n', ∃ m ≥ n', (σ m).Stolen (σ (m + 1)) t := by
  have hok : ∀ n, (σ n).Ok N := fun n ↦
    .of_reachable (start.trans (.of_path fun m (_ : m < n) ↦ step m))
  by_cases hserved : ∃ m ≥ n, l m = .back t
  · exact Or.inl hserved
  · right
    intro n'
    have hwaiting : ∀ d, ∃ i k, (σ (n + d)).WaitsAt t i k := by
      intro d
      induction d with
      | zero =>
        obtain ⟨k, hk⟩ := List.mem_iff_getElem?.mp waits
        exact ⟨i, k, hk⟩
      | succ d ih =>
        obtain ⟨i, k, hwaits⟩ := ih
        have hnot : l (n + d) ≠ .back t := fun hback ↦ hserved ⟨n + d, Nat.le_add_right n d, hback⟩
        obtain ⟨j, k', hwaits', -⟩ := ((step (n + d)).1.lines (hok (n + d))).waitsAt hwaits hnot
        exact ⟨j, k', hwaits'⟩
    obtain ⟨j, k, hwaits⟩ := hwaiting n'
    obtain ⟨m, hm, hback | hstolen⟩ := turns.exists_moved hok step hwaits
    · exact absurd ⟨m, by omega, hback⟩ hserved
    · exact ⟨m, by omega, hstolen⟩

end

/-- One thread has one task, which yields each time it gets control. The scheduler goes round. -/
theorem exists_cycle : ∃ σ₀ σ₁ σ₂, Reachable (OneWaiterStep 1) Sched.initial σ₀ ∧
    OneWaiterStep 1 σ₀ (.back 0) σ₁ ∧ OneWaiterStep 1 σ₁ .other σ₂ ∧ OneWaiterStep 1 σ₂ .other σ₀ ∧
    (σ₀.thread 0).pc = .loop ∧ (σ₁.thread 0).pc ≠ .loop ∧ 0 ∈ (σ₀.thread 0).line := by
  have hrun : Reachable (OneWaiterStep 1) Sched.initial _ :=
    ((((((Reachable.refl _ _).snoc
      ⟨Step.newTask (i := 0) false (by decide) trivial, trivial⟩).snoc
      ⟨Step.addRunnable (i := 0) (t := 0) (by decide) trivial (by decide) rfl, trivial⟩).snoc
      ⟨Step.control (i := 0) (by decide) rfl .start, trivial⟩).snoc
      ⟨Step.dequeue (i := 0) (t := 0) (by decide) rfl rfl, trivial⟩).snoc
      ⟨Step.yield (i := 0) (c := 0) (by decide) rfl rfl (Or.inl rfl), trivial⟩).snoc
      ⟨Step.handleRunnable (i := 0) (t := 0) (by decide) rfl rfl, trivial⟩
  obtain ⟨σ, hrun, hthread, htask⟩ : ∃ σ, Reachable (OneWaiterStep 1) Sched.initial σ ∧
      σ.thread 0 = { runnableQueue := [0], pc := .loop } ∧
      σ.task 0 = { state := .runnable, spawned := true } := ⟨_, hrun, rfl, rfl⟩
  -- The record of the task is what it was when it got control, and when it yields.
  have hself : σ.setTask 0 { state := .runnable, spawned := true } = σ := by
    rw [Sched.setTask, ← htask, Function.update_eq_self]
  have hdequeue : Step 1 σ (.back 0) (σ.setThread 0 { pc := .task 0 none .user }) := by
    have hqueue : (σ.thread 0).runnableQueue = [0] := by rw [hthread]
    have hstep := Step.dequeue (N := 1) (by decide) (by rw [hthread]) hqueue
    have hsame : Task.continuationIn { state := .runnable, spawned := true } =
        { state := .runnable, spawned := true } := rfl
    rwa [htask, hsame, hself, hthread] at hstep
  have hyield : Step 1 (σ.setThread 0 { pc := .task 0 none .user }) .other
      (σ.setThread 0 { pc := .task 0 none .switched }) := by
    have hstep := Step.yield (N := 1) (σ := σ.setThread 0 { pc := .task 0 none .user }) (i := 0)
      (c := 0) (p := none) (by decide) rfl (by simp [htask]) (Or.inl rfl)
    have hsame : ((σ.setThread 0 { pc := .task 0 none .user }).setTask 0
        { (σ.setThread 0 { pc := .task 0 none .user }).task 0 with state := .runnable }).goto 0
          (.task 0 none .switched) = (σ.setTask 0 { state := .runnable, spawned := true }).setThread
            0 { pc := .task 0 none .switched } := by
      simp [Sched.goto, Sched.setThread, Sched.setTask, htask]
    rwa [hsame, hself] at hstep
  have hback : Step 1 (σ.setThread 0 { pc := .task 0 none .switched }) .other σ := by
    have hstep := Step.handleRunnable (N := 1) (σ := σ.setThread 0 { pc := .task 0 none .switched })
      (i := 0) (t := 0) (p := none) (by decide) rfl (by simp [htask])
    have hsame : (σ.setThread 0 { pc := .task 0 none .switched }).enqueue 0 0 (afterTask none) =
        σ.setThread 0 (σ.thread 0) := by
      simp [Sched.enqueue, Sched.setThread, hthread, afterTask]
    have hkept : σ.setThread 0 (σ.thread 0) = σ := by
      rw [Sched.setThread, Function.update_eq_self]
    rwa [hsame, hkept] at hstep
  refine ⟨σ, _, _, hrun, ⟨hdequeue, trivial⟩, ⟨hyield, trivial⟩, ⟨hback, trivial⟩, by rw [hthread],
    by simp, ?_⟩
  rw [PerThreadMgr.line, hthread]
  exact List.mem_singleton_self 0

/-- The task that yields for ever is served. -/
theorem served_or_stolen_yields : ∃ (σ : ℕ → Sched) (l : ℕ → Label),
    Reachable (OneWaiterStep 1) Sched.initial (σ 0) ∧
      (∀ n, OneWaiterStep 1 (σ n) (l n) (σ (n + 1))) ∧ Sched.TakesTurns 1 σ ∧
      ((∃ m ≥ 0, l m = .back 0) ∨ ∀ n', ∃ m ≥ n', (σ m).Stolen (σ (m + 1)) 0) := by
  obtain ⟨σ₀, σ₁, σ₂, hrun, h₀₁, h₁₂, h₂₀, hloop, hmoved, hwaits⟩ := exists_cycle
  let σ : ℕ → Sched := fun n ↦ if n % 3 = 0 then σ₀ else if n % 3 = 1 then σ₁ else σ₂
  let l : ℕ → Label := fun n ↦ if n % 3 = 0 then .back 0 else .other
  have h₀ : ∀ n, n % 3 = 0 → σ n = σ₀ := fun n hn ↦ if_pos hn
  have h₁ : ∀ n, n % 3 = 1 → σ n = σ₁ := fun n hn ↦ by simp [σ, hn]
  have h₂ : ∀ n, n % 3 = 2 → σ n = σ₂ := fun n hn ↦ by simp [σ, hn]
  have hstep : ∀ n, OneWaiterStep 1 (σ n) (l n) (σ (n + 1)) := by
    intro n
    have hthree : n % 3 = 0 ∨ n % 3 = 1 ∨ n % 3 = 2 := by omega
    rcases hthree with hn | hn | hn
    · rw [h₀ n hn, h₁ (n + 1) (by omega), show l n = .back 0 from if_pos hn]
      exact h₀₁
    · rw [h₁ n hn, h₂ (n + 1) (by omega), show l n = .other from if_neg (by omega)]
      exact h₁₂
    · rw [h₂ n hn, h₀ (n + 1) (by omega), show l n = .other from if_neg (by omega)]
      exact h₂₀
  have hturns : Sched.TakesTurns 1 σ := by
    intro i hi n
    obtain rfl : i = 0 := by omega
    refine ⟨3 * n, by omega, Or.inr ?_⟩
    rw [h₀ (3 * n) (by omega), h₁ (3 * n + 1) (by omega)]
    exact ⟨hloop, hmoved⟩
  exact ⟨σ, l, hrun, hstep, hturns, served_or_stolen hrun hstep hturns (n := 0) hwaits⟩

end TYThread
