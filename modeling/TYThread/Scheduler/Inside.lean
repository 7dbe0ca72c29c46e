import TYThread.Scheduler.Lines

/-!
# Callbacks

A task is inside its callback while a thread has it in its hands and the callback, or the
`terminate` that follows it, runs. It gets in when a thread gives it control, and out when it
yields, waits or is through with `terminate`. The thread then stands at `switched`.

A task that is in its first state and not inside its callback is fresh: its callback has not been
called.
-/

namespace TYThread

open Counting Transition

/-- The task whose callback runs. -/
def Pc.inside : Pc → Option ℕ
  | .task t _ .user => some t
  | .task t _ (.terminating _) => some t
  | .task t _ (.inform _ _ _) => some t
  | _ => none

/-- The callback of `t` runs, in some thread. -/
def Sched.Inside (σ : Sched) (t : ℕ) : Prop := ∃ i, (σ.thread i).pc.inside = some t

/-- The callback of `t` has not been called. -/
def Sched.Fresh (σ : Sched) (t : ℕ) : Prop := (σ.task t).state = .initial ∧ ¬σ.Inside t

/-- Who gets into its callback, or out of it. -/
inductive InsideMove (σ σ' : Sched) : Label → Prop
  | enter {i t : ℕ} (before : (σ.thread i).pc.inside = none)
      (after : (σ'.thread i).pc = .task t (σ'.thread i).pc.polled .user)
      (others : ∀ j, j ≠ i → (σ'.thread j).pc = (σ.thread j).pc) : InsideMove σ σ' (.back t)
  /-- It yields or waits. -/
  | out {l : Label} {i c : ℕ} {p : Option ℕ} (forth : ∀ t, l ≠ .back t)
      (here : (σ.thread i).pc = .task c p .user) (after : (σ'.thread i).pc = .task c p .switched)
      (others : ∀ j, j ≠ i → (σ'.thread j).pc = (σ.thread j).pc)
      (impure : (σ.task c).isPure = false)
      (live : (σ'.task c).state ≠ .terminated) : InsideMove σ σ' l
  /-- `terminate` has returned. -/
  | finish {l : Label} {i c : ℕ} {p : Option ℕ} (forth : ∀ t, l ≠ .back t)
      (here : (σ.thread i).pc = .task c p (.terminating []))
      (after : (σ'.thread i).pc = .task c p .switched)
      (others : ∀ j, j ≠ i → (σ'.thread j).pc = (σ.thread j).pc) : InsideMove σ σ' l
  | stay {l : Label} (forth : ∀ t, l ≠ .back t)
      (same : ∀ j, (σ'.thread j).pc.inside = (σ.thread j).pc.inside)
      (switched : ∀ j c p, (σ'.thread j).pc = .task c p .switched →
        (σ.thread j).pc = .task c p .switched) : InsideMove σ σ' l

/-- A run from the start in which the callback of `t` is called `n` times. -/
inductive Called (N t : ℕ) : ℕ → Sched → Prop
  | start : Called N t 0 Sched.initial
  | call {n : ℕ} {σ σ' : Sched} (prev : Called N t n σ) (first : (σ.task t).state = .initial)
      (last : OneWaiterStep N σ (.back t) σ') : Called N t (n + 1) σ'
  | other {n : ℕ} {l : Label} {σ σ' : Sched} (prev : Called N t n σ)
      (last : OneWaiterStep N σ l σ') (later : l = .back t → (σ.task t).state ≠ .initial) :
      Called N t n σ'

variable {N t u c i j n : ℕ} {σ σ' : Sched} {l : Label} {m : PerThreadMgr} {pc : Pc}

/-! ## One step -/

@[simp] theorem inside_afterTask {p : Option ℕ} : (afterTask p).inside = none := by cases p <;> rfl

theorem running_of_inside (h : pc.inside = some t) : pc.running = [t] := by
  unfold Pc.inside at h
  split at h
  · exact congrArg (fun u ↦ [u]) (Option.some.inj h)
  · exact congrArg (fun u ↦ [u]) (Option.some.inj h)
  · exact congrArg (fun u ↦ [u]) (Option.some.inj h)
  · cases h

theorem Control.inside {pc pc' : Pc} (h : Control N σ i pc pc') :
    pc.inside = none ∧ pc'.inside = none ∧ ∀ c p, pc' ≠ .task c p .switched := by
  cases h <;> exact ⟨rfl, rfl, fun c p ↦ by simp⟩

theorem InsideMove.of_update (hforth : ∀ t, l ≠ .back t)
    (hthread : σ'.thread = Function.update σ.thread i m)
    (hinside : m.pc.inside = (σ.thread i).pc.inside) (hpc : ∀ c p, m.pc ≠ .task c p .switched) :
    InsideMove σ σ' l := by
  refine .stay hforth (fun j ↦ ?_) fun j c p hj ↦ ?_
  · by_cases hji : j = i
    · rw [hthread, hji, Function.update_self, hinside]
    · rw [hthread, Function.update_of_ne hji]
  · by_cases hji : j = i
    · rw [hthread, hji, Function.update_self] at hj
      exact absurd hj (hpc c p)
    · rwa [hthread, Function.update_of_ne hji] at hj

/-- **One step** takes a task into its callback, or out of it, or does neither. -/
theorem Step.inside (h : Step N σ l σ') : InsideMove σ σ' l := by
  have hafter : ∀ {p : Option ℕ} c q, afterTask p ≠ .task c q .switched := by
    rintro (_ | _) c q <;> exact fun h ↦ by cases h
  have hother : ∀ t, Label.other ≠ .back t := fun t h ↦ by cases h
  cases h with
  | terminateGracefully | newTask => exact .stay hother (fun _ ↦ rfl) fun _ _ _ ↦ id
  | registe | registeFini | waitDone | destroy =>
    exact .stay (fun t h ↦ by cases h) (fun _ ↦ rfl) fun _ _ _ ↦ id
  | @addRunnable i t lt client made once =>
    refine .of_update hother rfl rfl fun c p h ↦ ?_
    replace h : (σ.thread i).pc = .task c p .switched := h
    rw [h] at client
    exact client
  | @control i pc pc' lt here move =>
    obtain ⟨hpc, hpc', hswitched⟩ := move.inside
    exact .of_update (i := i) hother rfl (by rw [here, hpc]; exact hpc') hswitched
  | @dequeue i t ts lt here queue =>
    refine .enter (i := i) (by rw [here]; rfl) ?_
      fun j hj ↦ congrArg _ (Function.update_of_ne hj _ _)
    rw [Sched.setThread_thread, Function.update_self]
    rfl
  | @pollTask i k t lt here entry =>
    refine .enter (i := i) (by rw [here]; rfl) ?_
      fun j hj ↦ congrArg _ (Function.update_of_ne hj _ _)
    rw [Sched.goto, Sched.setThread_thread, Function.update_self]
    rfl
  | @steal i v xs ys lt here victim ne queue nonempty =>
    have hpc : ∀ j, j ≠ i → ((Function.update (Function.update σ.thread v
        { σ.thread v with runnableQueue := ys }) i
        { Function.update σ.thread v { σ.thread v with runnableQueue := ys } i with
          pc := .install xs }) j).pc = (σ.thread j).pc := fun j hji ↦ by
      rw [Function.update_of_ne hji]
      by_cases hjv : j = v
      · rw [hjv, Function.update_self]
      · rw [Function.update_of_ne hjv]
    refine .stay hother (fun j ↦ ?_) fun j c p hj ↦ ?_
    · by_cases hji : j = i
      · rw [hji, here, Sched.goto, Sched.setThread_thread, Function.update_self]
        rfl
      · exact congrArg _ (hpc j hji)
    · by_cases hji : j = i
      · rw [hji, Sched.goto, Sched.setThread_thread, Function.update_self] at hj
        cases hj
      · exact (hpc j hji).symm.trans hj
  | @waitYield i c g p lt here alive blocking impure =>
    refine .out (i := i) (fun t h ↦ by cases h) here ?_
      (fun j hj ↦ congrArg _ (Function.update_of_ne hj _ _)) impure ?_
    · rw [Sched.goto, Sched.setThread_thread, Function.update_self]
    · rw [Sched.goto, Sched.setThread_task, Sched.setGroup_task, Sched.setTask_task,
        Function.update_self]
      exact fun h ↦ by cases h
  | @yield i c p state lt here impure as =>
    refine .out (i := i) hother here ?_ (fun j hj ↦ congrArg _ (Function.update_of_ne hj _ _))
      impure ?_
    · rw [Sched.goto, Sched.setThread_thread, Function.update_self]
    · rw [Sched.goto, Sched.setThread_task, Sched.setTask_task, Function.update_self]
      rcases as with rfl | rfl <;> exact fun h ↦ by cases h
  | @terminated i c p lt here =>
    refine .finish (i := i) hother here ?_ fun j hj ↦ congrArg _ (Function.update_of_ne hj _ _)
    rw [Sched.goto, Sched.setThread_thread, Function.update_self]
  | @terminate i c p lt here | @informLock i c g p rest lt here
  | @informTake i c g w p rest lt here | @informNobody i c g p rest lt here
  | @informEnqueue i c g w p rest lt here | @informUnlock i c g p rest lt here
  | @informDecrement i c g p rest lt here =>
    refine .of_update (i := i) hother rfl (by rw [here]; rfl) fun c p h ↦ by cases h
  | @install i xs lt here | @handleMpi i t lt here | @stillMpi i t k lt here
  | @handleWait i t g p lt here | @resumeLock i t g p lt here | @resumeZero i t g p lt here
  | @resumeBlock i t g p lt here | @erase i k t lt here =>
    refine .of_update (i := i) hother rfl (by rw [here]; rfl) fun c p h ↦ by cases h
  | @handleRunnable i t p lt here | @handleOther i t p lt here | @requeue i t p lt here =>
    exact .of_update (i := i) hother rfl (by rw [here]; exact inside_afterTask) hafter
  | @resumeUnlock i t g p result lt here =>
    cases result with
    | true => exact .of_update (i := i) hother rfl (by rw [here]; rfl) fun c p h ↦ by cases h
    | false => exact .of_update (i := i) hother rfl (by rw [here]; exact inside_afterTask) hafter

/-! ## Fresh tasks -/

theorem Sched.Ok.lt_of_inside (hσ : σ.Ok N) (h : (σ.thread i).pc.inside = some t) : i < N := by
  by_contra hi
  rw [hσ.outside i (not_lt.mp hi), Sched.initial] at h
  by_cases h0 : i = 0 <;> simp [h0, Pc.inside] at h

theorem Sched.Ok.count_pos_of_inside (h : (σ.thread i).pc.inside = some t) :
    0 < (σ.thread i).count t := by
  refine PerThreadMgr.count_pos_of_running ?_
  rw [running_of_inside h]
  exact List.mem_singleton_self t

theorem Sched.Ok.not_stored_of_inside (hσ : σ.Ok N) (h : (σ.thread j).pc.inside = some t)
    (hi : i < N) (ht : t ∈ (σ.thread i).stored) : False := by
  obtain rfl := hσ.eq_of_count hi (hσ.lt_of_inside h) (PerThreadMgr.count_pos_of_stored ht)
    (count_pos_of_inside h)
  refine hσ.ne_of_stored hi (Or.inl ?_) ht rfl
  rw [running_of_inside h]
  exact List.mem_singleton_self t

/-- A task gets control only when its callback does not run. -/
theorem Step.not_inside_of_back (h : Step N σ (.back t) σ') (hσ : σ.Ok N) : ¬σ.Inside t := by
  rintro ⟨j, hj⟩
  cases h with
  | dequeue lt here queue =>
    exact hσ.not_stored_of_inside hj lt (PerThreadMgr.mem_stored_head queue)
  | pollTask lt here entry =>
    exact hσ.not_stored_of_inside hj lt (PerThreadMgr.mem_stored_polled (by rw [here]; rfl) entry)

/-- Then its callback runs. -/
theorem Step.inside_of_back (h : Step N σ (.back t) σ') : σ'.Inside t := by
  cases h.inside with
  | @enter i t before after others => exact ⟨i, by rw [after]; rfl⟩
  | out forth | finish forth | stay forth => exact absurd rfl (forth t)

theorem Life.initial {a a' : Task} (h : Life c a l a') (ha : a'.state = .initial) :
    a.state = .initial := by
  cases h with
  | idle | spawn | registe | unlock | requeue => exact ha
  | make isPure new => rw [new]
  | back =>
    rw [Task.continuationIn] at ha
    dsimp only at ha
    split at ha
    · cases ha
    · exact ha
  | yield spawned live as =>
    rcases as with rfl | rfl <;> cases ha
  | wait | terminate | wake | resume => cases ha

theorem Step.initial (h : Step N σ l σ') (hσ : σ.Ok N) (ht : (σ'.task t).state = .initial) :
    (σ.task t).state = .initial := by
  obtain ⟨c, hother, hlife⟩ := h.life hσ
  by_cases hc : t = c
  · subst hc
    exact hlife.initial ht
  · rwa [← hother t hc]

/-- **No task becomes fresh again.** -/
theorem Step.fresh (h : Step N σ l σ') (hσ : σ.Ok N) (hσ' : σ'.Ok N) (ht : σ'.Fresh t) :
    σ.Fresh t := by
  refine ⟨h.initial hσ ht.1, fun ⟨j, hj⟩ ↦ ?_⟩
  cases h.inside with
  | @enter i u before after others =>
    have hji : j ≠ i := by
      rintro rfl
      rw [before] at hj
      cases hj
    exact ht.2 ⟨j, by rw [others j hji, hj]⟩
  | @out _ i c p forth here after others | @finish _ i c p forth here after others =>
    by_cases hji : j = i
    · -- A task that is out of its callback is not in its first state.
      subst hji
      have hc : c = t := by
        rw [here] at hj
        exact Option.some.inj hj
      subst hc
      exact (hσ'.hand_at (hσ.lt_of_inside hj) after).1 ht.1
    · exact ht.2 ⟨j, by rw [others j hji, hj]⟩
  | stay forth same => exact ht.2 ⟨j, by rw [same, hj]⟩

theorem Step.spawns (h : Step N σ l σ') (hσ : σ.Ok N) (hnew : (σ.task t).spawned = false)
    (hspawned : (σ'.task t).spawned = true) : ∃ i, t ∈ (σ'.thread i).line := by
  have hsame : (∀ u, (σ'.task u).spawned = (σ.task u).spawned) → ∃ i, t ∈ (σ'.thread i).line :=
    fun h ↦ absurd ((h t).symm.trans hspawned) (by rw [hnew]; decide)
  cases h with
  | @addRunnable i u lt client made once =>
    by_cases hu : t = u
    · refine ⟨i, ?_⟩
      rw [hu, Sched.enqueue, Sched.setThread_thread, Function.update_self, PerThreadMgr.line]
      exact List.mem_append_right _ (List.mem_append_right _ (List.mem_singleton_self u))
    · refine absurd ((congrArg Task.spawned (Function.update_of_ne hu _ _)).symm.trans hspawned) ?_
      rw [hnew]
      decide
  | newTask isPure lt client =>
    exact hsame (apply_update_eq Task.spawned (by rw [hσ.made _ le_rfl]))
  | registe lt here made unlocked room alive accepted =>
    exact hsame (apply_update_eq Task.spawned (by rw [Task.addToGroup, accepted]; rfl))
  | registeFini lt here made unlocked alive rejected =>
    exact hsame (apply_update_eq Task.spawned (by rw [Task.addToGroup, rejected]; rfl))
  | terminateGracefully | control | steal | install | waitDone | destroy | informLock
  | informDecrement | informTake | informNobody | informUnlock | handleRunnable | handleMpi
  | stillMpi | handleWait | handleOther | resumeLock | resumeBlock | resumeUnlock | erase =>
    exact hsame fun _ ↦ rfl
  | dequeue | pollTask | waitYield | yield | terminate | informEnqueue | terminated | resumeZero
  | requeue => exact hsame (apply_update_eq Task.spawned (by rfl))

/-- A task that is in no thread's hands, and does not get there, stays in its state. -/
theorem Step.state_eq (h : Step N σ l σ') (hσ : σ.Ok N) (hne : l ≠ .back t)
    (hrun : ∀ i, t ∉ (σ.thread i).pc.running) (hinform : ∀ i, t ∉ (σ.thread i).pc.informing) :
    (σ'.task t).state = (σ.task t).state := by
  have hhand : ∀ {i c : ℕ} {p : Option ℕ} {act : Activity} {a : Task},
      (σ.thread i).pc = .task c p act →
      c ∈ (Pc.task c p act).running → (Function.update σ.task c a t).state = (σ.task t).state := by
    intro i c p act a here hc
    refine congrArg Task.state (Function.update_of_ne ?_ _ _)
    rintro rfl
    exact hrun i (by rwa [here])
  cases h with
  | terminateGracefully | control | steal | install | waitDone | destroy | informLock
  | informDecrement | informTake | informNobody | informUnlock | handleRunnable | handleMpi
  | stillMpi | handleWait | handleOther | resumeLock | resumeBlock | resumeUnlock | erase => rfl
  | newTask isPure lt client => exact apply_update_eq Task.state (by rw [hσ.made _ le_rfl]) t
  | registe lt here made unlocked room alive accepted =>
    exact apply_update_eq Task.state (by rw [Task.addToGroup, accepted]; rfl) t
  | registeFini lt here made unlocked alive rejected =>
    exact apply_update_eq Task.state (by rw [Task.addToGroup, rejected]; rfl) t
  | addRunnable | terminated | requeue => exact apply_update_eq Task.state (by rfl) t
  | @dequeue i u ts | @pollTask i k u =>
    exact congrArg Task.state (Function.update_of_ne (fun h ↦ hne (congrArg _ h.symm)) _ _)
  | waitYield lt here | yield lt here | terminate lt here | resumeZero lt here =>
    exact hhand here (List.mem_singleton_self _)
  | @informEnqueue i c g w p rest lt here =>
    refine congrArg Task.state (Function.update_of_ne ?_ _ _)
    rintro rfl
    exact hinform i (by rw [here]; exact List.mem_singleton_self t)

/-- **A fresh task stays fresh** until its callback is called. -/
theorem Step.fresh_stays (h : Step N σ l σ') (hσ : σ.Ok N)
    (hline : (σ.task t).spawned = true → ∃ i, t ∈ (σ.thread i).line) (ht : σ.Fresh t)
    (hne : l ≠ .back t) : σ'.Fresh t := by
  -- The task is in a line, or has not been spawned.
  have hheld : ∀ i, ¬(t ∈ (σ.thread i).pc.running ∨ t ∈ (σ.thread i).pc.informing) := by
    intro i hi
    have hcount : 0 < (σ.thread i).count t := hi.elim PerThreadMgr.count_pos_of_running
      PerThreadMgr.count_pos_of_informing
    have hlt : i < N := by
      by_contra hle
      rw [hσ.outside i (not_lt.mp hle), Sched.initial] at hi
      by_cases h0 : i = 0 <;> simp [h0, Pc.running, Pc.informing] at hi
    obtain ⟨j, hj⟩ := hline (hσ.spawned_of_count hlt hcount)
    obtain rfl := hσ.eq_of_count (hσ.lt_of_line hj) hlt (Sched.Ok.count_pos_of_line hj) hcount
    refine hσ.ne_of_stored hlt hi ?_ rfl
    rw [PerThreadMgr.line, List.mem_append] at hj
    exact PerThreadMgr.mem_stored.mpr (hj.symm.imp_right Or.inr)
  refine ⟨(h.state_eq hσ hne (fun i hi ↦ hheld i (Or.inl hi)) fun i hi ↦ hheld i (Or.inr hi)).trans
    ht.1, fun hinside ↦ ?_⟩
  obtain ⟨j, hj⟩ := hinside
  cases h.inside with
  | @enter i u before after others =>
    by_cases hji : j = i
    · rw [hji, after] at hj
      exact hne (congrArg _ (Option.some.inj hj))
    · exact ht.2 ⟨j, by rw [← others j hji, hj]⟩
  | @out _ i c p forth here after others | @finish _ i c p forth here after others =>
    by_cases hji : j = i
    · rw [hji, after] at hj
      cases hj
    · exact ht.2 ⟨j, by rw [← others j hji, hj]⟩
  | stay forth same => exact ht.2 ⟨j, by rw [← same, hj]⟩

/-- **A fresh task waits in a line** from the time that it is spawned. -/
theorem Step.fresh_line (h : Step N σ l σ') (hσ : σ.Ok N) (hσ' : σ'.Ok N)
    (hline : σ.Fresh t → (σ.task t).spawned = true → ∃ i, t ∈ (σ.thread i).line)
    (ht : σ'.Fresh t) (hspawned : (σ'.task t).spawned = true) : ∃ i, t ∈ (σ'.thread i).line := by
  cases hold : (σ.task t).spawned with
  | false => exact h.spawns hσ hold hspawned
  | true =>
    obtain ⟨i, hi⟩ := hline (h.fresh hσ hσ' ht) hold
    obtain ⟨k, hk⟩ := List.mem_iff_getElem?.mp hi
    obtain ⟨j, k', hwaits, -⟩ := (h.lines hσ).waitsAt hk (by
      rintro rfl
      exact ht.2 h.inside_of_back)
    exact ⟨j, List.mem_of_getElem? hwaits⟩

/-! ## A whole run -/

/-- What is known of a task whose callback has been called `n` times. -/
theorem Called.fresh (h : Called N t n σ) : σ.Ok N ∧ n ≤ 1 ∧ (n = 0 ↔ σ.Fresh t) ∧
    (σ.Fresh t → (σ.task t).spawned = true → ∃ i, t ∈ (σ.thread i).line) := by
  induction h with
  | start =>
    refine ⟨.initial N, Nat.zero_le 1, iff_of_true rfl ⟨rfl, fun ⟨i, hi⟩ ↦ ?_⟩, fun _ h ↦ ?_⟩
    · by_cases h0 : i = 0 <;> simp [Sched.initial, h0, Pc.inside] at hi
    · simp [Sched.initial] at h
  | @call n σ σ' prev first last ih =>
    obtain ⟨hσ, -, hzero, hline⟩ := ih
    have hσ' := last.1.ok hσ last.2
    obtain rfl := hzero.mpr ⟨first, last.1.not_inside_of_back hσ⟩
    exact ⟨hσ', le_rfl, iff_of_false Nat.one_ne_zero fun h ↦ h.2 last.1.inside_of_back,
      last.1.fresh_line hσ hσ' hline⟩
  | @other n l σ σ' prev last later ih =>
    obtain ⟨hσ, hle, hzero, hline⟩ := ih
    have hσ' := last.1.ok hσ last.2
    refine ⟨hσ', hle, ⟨fun hn ↦ ?_, fun h ↦ hzero.mpr (last.1.fresh hσ hσ' h)⟩,
      last.1.fresh_line hσ hσ' hline⟩
    have hfresh := hzero.mp hn
    exact last.1.fresh_stays hσ (hline hfresh) hfresh fun h ↦ later h hfresh.1

/-- Every state that is reached is reached with some number of calls. -/
theorem exists_called (hrun : Reachable (OneWaiterStep N) Sched.initial σ) (t : ℕ) :
    ∃ n, Called N t n σ := by
  refine hrun.invariant (I := fun σ ↦ ∃ n, Called N t n σ) ⟨0, .start⟩ fun σ l σ' ⟨n, hn⟩ hstep ↦ ?_
  by_cases hcall : l = .back t ∧ (σ.task t).state = .initial
  · obtain ⟨rfl, hfirst⟩ := hcall
    exact ⟨n + 1, hn.call hfirst hstep⟩
  · exact ⟨n, hn.other hstep fun hl hfirst ↦ hcall ⟨hl, hfirst⟩⟩

/-- **A callback is called once.** Every state is reached with some number of calls of the callback
of `t`. That number is at most one, and it is one exactly when the task has left its first state or
is inside its callback, so also while it is yielded, parked or blocked. Until then a task that has
been spawned waits in a line, so it can be called. -/
theorem callback_called_once (hrun : Reachable (OneWaiterStep N) Sched.initial σ) (t : ℕ) :
    (∃ n, Called N t n σ) ∧ ∀ n, Called N t n σ →
      n ≤ 1 ∧ (n = 1 ↔ (σ.task t).state ≠ .initial ∨ σ.Inside t) ∧
        (n = 0 → (σ.task t).spawned = true → ∃ i k, σ.WaitsAt t i k) := by
  refine ⟨exists_called hrun t, fun n called ↦ ?_⟩
  obtain ⟨-, hle, hzero, hline⟩ := called.fresh
  refine ⟨hle, ?_, fun hn hspawned ↦ ?_⟩
  · have hone : n = 1 ↔ ¬n = 0 := by omega
    rw [hone, hzero, Sched.Fresh, not_and_or, not_not]
  · obtain ⟨i, hi⟩ := hline (hzero.mp hn) hspawned
    obtain ⟨k, hk⟩ := List.mem_iff_getElem?.mp hi
    exact ⟨i, k, hk⟩

/-- A task that has yielded waits in a line. When it gets control again, its callback is not
called. -/
theorem callback_called_once_yields : ∃ σ σ', Reachable (OneWaiterStep 1) Sched.initial σ ∧
    σ.WaitsAt 0 0 0 ∧ OneWaiterStep 1 σ (.back 0) σ' ∧ Called 1 0 1 σ ∧ Called 1 0 1 σ' := by
  have hrun : Reachable (OneWaiterStep 1) Sched.initial _ :=
    ((((((Reachable.refl _ _).snoc
      ⟨Step.newTask (i := 0) false (by decide) trivial, trivial⟩).snoc
      ⟨Step.addRunnable (i := 0) (t := 0) (by decide) trivial (by decide) rfl, trivial⟩).snoc
      ⟨Step.control (i := 0) (by decide) rfl .start, trivial⟩).snoc
      ⟨Step.dequeue (i := 0) (t := 0) (by decide) rfl rfl, trivial⟩).snoc
      ⟨Step.yield (i := 0) (c := 0) (by decide) rfl rfl (Or.inl rfl), trivial⟩).snoc
      ⟨Step.handleRunnable (i := 0) (t := 0) (by decide) rfl rfl, trivial⟩
  obtain ⟨σ, hrun, here, hqueue, hstate⟩ : ∃ σ, Reachable (OneWaiterStep 1) Sched.initial σ ∧
      (σ.thread 0).pc = .loop ∧ (σ.thread 0).runnableQueue = [0] ∧ (σ.task 0).state = .runnable :=
    ⟨_, hrun, rfl, rfl, rfl⟩
  have hagain : OneWaiterStep 1 σ (.back 0) _ := ⟨.dequeue (by decide) here hqueue, trivial⟩
  obtain ⟨⟨n, hn⟩, hcalled⟩ := callback_called_once hrun 0
  obtain ⟨⟨n', hn'⟩, hcalled'⟩ := callback_called_once (hrun.snoc hagain) 0
  obtain rfl := (hcalled n hn).2.1.mpr (Or.inl (by rw [hstate]; decide))
  obtain rfl := (hcalled' n' hn').2.1.mpr (Or.inr hagain.1.inside_of_back)
  refine ⟨σ, _, hrun, ?_, hagain, hn, hn'⟩
  rw [Sched.WaitsAt, PerThreadMgr.line, hqueue, here]
  rfl

end TYThread
