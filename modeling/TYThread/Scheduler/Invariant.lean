import TYThread.Scheduler.Places

/-!
# The invariant of the scheduler

What holds between any two steps, as long as only one task at a time waits on a group. It comes in
three parts. A task is in at most one place, and in one if it has been spawned and not terminated. A
thread knows something about the task in its hands, from where it stands. A group's `blockedTask` is
waiting for it.

To a task a step is one of a few events. These are `Life`.
-/

namespace TYThread

/-! ## The life of a task -/

/-- What the step `l` does to the task `c`. -/
inductive Life (c : ℕ) (a : Task) : Label → Task → Prop
  | idle (l : Label) : Life c a l a
  | make (isPure : Bool) (new : a = {}) : Life c a .other { isPure }
  | spawn (new : a.spawned = false) : Life c a .other { a with spawned := true }
  | back (spawned : a.spawned = true) (live : a.state ≠ .terminated) :
      Life c a (.back c) a.continuationIn
  | registe {b g : ℕ} (accepted : a.isFini = false) :
      Life c a (.registe b c g) { a with groups := a.groups ++ [g] }
  | wait {g : ℕ} (spawned : a.spawned = true) (live : a.state ≠ .terminated) :
      Life c a (.wait c g false)
        { a with state := .groupWait, blockedBy := some g, waiting := some g, wakes := 0 }
  | yield {state : TaskState} (spawned : a.spawned = true) (live : a.state ≠ .terminated)
      (as : state = .runnable ∨ state = .mpiBlocked) : Life c a .other { a with state }
  | terminate (spawned : a.spawned = true) (live : a.state ≠ .terminated)
      (free : a.waiting = none) : Life c a .other { a with state := .terminated, locked := true }
  | unlock (spawned : a.spawned = true) : Life c a .other { a with locked := false }
  | wake (spawned : a.spawned = true) (waiting : a.waiting ≠ none) (first : a.wakes = 0) :
      Life c a .other { a with state := .runnable, wakes := a.wakes + 1 }
  | resume (spawned : a.spawned = true) (waiting : a.waiting ≠ none) :
      Life c a .other { a with state := .runnable }
  | requeue (spawned : a.spawned = true) (waiting : a.waiting ≠ none) (first : a.wakes = 0) :
      Life c a .other { a with wakes := a.wakes + 1 }

/-- What holds of a task, wherever it is. -/
structure Task.Ok (a : Task) : Prop where
  live : a.waiting ≠ none → a.state ≠ .terminated
  wakes : a.wakes ≤ 1
  fresh : a.spawned = false → a.state = .initial ∧ a.waiting = none

theorem Task.Ok.default {isPure : Bool} : Task.Ok { isPure } where
  live h := absurd rfl h
  wakes := Nat.zero_le 1
  fresh _ := ⟨rfl, rfl⟩

namespace Life

variable {c : ℕ} {a a' : Task} {l : Label}

/-- **One event** keeps what holds of a task. -/
theorem ok (h : Life c a l a') (ha : a.Ok) : a'.Ok := by
  cases h with
  | idle => exact ha
  | make isPure => exact .default
  | spawn => exact ⟨ha.live, ha.wakes, fun h ↦ absurd h (by simp)⟩
  | back spawned live =>
    refine ⟨fun h ↦ absurd rfl h, ha.wakes, fun h ↦ ?_⟩
    rw [Task.continuationIn, spawned] at h
    exact absurd h (by decide)
  | registe => exact ⟨ha.live, ha.wakes, ha.fresh⟩
  | wait spawned =>
    refine ⟨fun _ ↦ by simp, Nat.zero_le 1, fun h ↦ ?_⟩
    exact absurd (spawned.symm.trans h) (by decide)
  | yield spawned live as =>
    refine ⟨fun _ ↦ ?_, ha.wakes, fun h ↦ absurd (spawned.symm.trans h) (by decide)⟩
    rcases as with rfl | rfl <;> simp
  | terminate spawned live free =>
    exact ⟨fun h ↦ absurd free h, ha.wakes, fun h ↦ absurd (spawned.symm.trans h) (by decide)⟩
  | unlock spawned =>
    exact ⟨ha.live, ha.wakes, fun h ↦ absurd (spawned.symm.trans h) (by decide)⟩
  | wake spawned waiting first =>
    exact ⟨fun _ ↦ by simp, by simp [first], fun h ↦ absurd (spawned.symm.trans h) (by decide)⟩
  | resume spawned =>
    exact ⟨fun _ ↦ by simp, ha.wakes, fun h ↦ absurd (spawned.symm.trans h) (by decide)⟩
  | requeue spawned waiting first =>
    exact ⟨ha.live, by simp [first], fun h ↦ absurd (spawned.symm.trans h) (by decide)⟩

theorem terminated (h : Life c a l a') (ha : a.Ok) (hterm : a.state = .terminated) :
    a'.state = .terminated := by
  cases h with
  | make isPure new =>
    rw [new] at hterm
    exact absurd hterm (by decide)
  | idle | spawn | registe | terminate | unlock | requeue => first | exact hterm | rfl
  | back spawned live | wait spawned live | yield spawned live => exact absurd hterm live
  | wake spawned waiting | resume spawned waiting => exact absurd hterm (ha.live waiting)

theorem waiting (h : Life c a l a') {g : ℕ} (hg : a'.waiting = some g) :
    a.waiting = some g ∨ l = .wait c g false := by
  cases h with
  | wait => exact Or.inr (by rw [Option.some.inj hg])
  | make isPure new => cases hg
  | back => cases hg
  | _ => exact Or.inl hg

end Life

/-! ## What a thread knows -/

/-- The record `b` of a task has become `a`, and what the thread that has the task in its hands goes
by is as it was. The task may have been registered in more groups. -/
structure Task.Same (a b : Task) : Prop where
  state : a.state = b.state
  blockedBy : a.blockedBy = b.blockedBy
  locked : a.locked = b.locked
  waiting : a.waiting = b.waiting
  wakes : a.wakes = b.wakes
  groups : b.groups ⊆ a.groups

/-- The task waits for the group `g` and has not been put into a queue since. -/
structure Task.Waits (a : Task) (g : ℕ) : Prop where
  waiting : a.waiting = some g
  wakes : a.wakes = 0

/-- `terminate` runs, and the groups `gs` are among those it has to inform. -/
structure Task.Dying (a : Task) (gs : List ℕ) : Prop where
  state : a.state = .terminated
  waiting : a.waiting = none
  locked : a.locked = true
  groups : gs ⊆ a.groups

/-- What is known of the task `t`, and of the task that `informDone` is about to enqueue. -/
def Activity.Ok (task : ℕ → Task) (t : ℕ) : Activity → Prop
  | .user => (task t).state ≠ .terminated ∧ (task t).waiting = none
  | .terminating rest => (task t).Dying rest
  | .inform g rest (.enqueue w) => (task t).Dying (g :: rest) ∧ (task w).Waits g
  | .inform g rest _ => (task t).Dying (g :: rest)
  | .switched => (task t).state ≠ .initial ∧
    ((task t).state = .groupWait → ∃ g, (task t).blockedBy = some g ∧ (task t).Waits g) ∧
    ((task t).state ≠ .groupWait → (task t).waiting = none)
  | .resume _ (.unlock false) => True
  | .resume g _ => (task t).Waits g
  | .requeue => ∃ g, (task t).Waits g

/-- What a thread's position says about the thread itself. -/
def PerThreadMgr.Shape (m : PerThreadMgr) : Prop :=
  match m.pc with
  | .steal _ | .install _ | .checkMpi => m.runnableQueue = []
  | .task t p _ => ∀ k, p = some k → m.mpiBlockedQueue[k]? = some t
  | .idle | .join _ | .exited => m.runnableQueue = [] ∧ m.mpiBlockedQueue = []
  | _ => True

/-- The tasks that wait to be run. -/
def PerThreadMgr.stored (m : PerThreadMgr) : List ℕ := m.runnableQueue ++ m.parked ++ m.pc.stolen

def Pc.Ok (task : ℕ → Task) : Pc → Prop
  | .task t _ act => act.Ok task t
  | _ => True

structure PerThreadMgr.Ok (task : ℕ → Task) (m : PerThreadMgr) : Prop where
  shape : m.Shape
  stored : ∀ t ∈ m.stored, (task t).state ≠ .terminated
  hand : m.pc.Ok task

section

variable {task task' : ℕ → Task} {m : PerThreadMgr} {t : ℕ} {p : Option ℕ} {act : Activity}

theorem PerThreadMgr.count_pos_of_stored (h : t ∈ m.stored) : 0 < m.count t := by
  rw [PerThreadMgr.stored, List.mem_append, List.mem_append] at h
  rw [PerThreadMgr.count]
  rcases h with (h | h) | h <;>
    · have := List.count_pos_iff.mpr h
      omega

theorem PerThreadMgr.count_pos_of_running (h : t ∈ m.pc.running) : 0 < m.count t := by
  have := List.count_pos_iff.mpr h
  rw [PerThreadMgr.count]
  omega

theorem PerThreadMgr.count_pos_of_informing (h : t ∈ m.pc.informing) : 0 < m.count t := by
  have := List.count_pos_iff.mpr h
  rw [PerThreadMgr.count]
  omega

theorem Task.Waits.same {a b : Task} {g : ℕ} (h : a.Waits g) (hab : b.Same a) : b.Waits g :=
  ⟨hab.waiting.trans h.waiting, hab.wakes.trans h.wakes⟩

theorem Task.Dying.same {a b : Task} {gs : List ℕ} (h : a.Dying gs) (hab : b.Same a) : b.Dying gs :=
  ⟨hab.state.trans h.state, hab.waiting.trans h.waiting, hab.locked.trans h.locked,
    fun _ hg ↦ hab.groups (h.groups hg)⟩

theorem Activity.Ok.frame (h : act.Ok task t)
    (hrun : ∀ u ∈ (Pc.task t p act).running, (task' u).Same (task u))
    (hinform : ∀ u ∈ (Pc.task t p act).informing, (task' u).Same (task u)) : act.Ok task' t := by
  cases act with
  | user =>
    have ht := hrun t (List.mem_singleton_self t)
    exact ⟨by rw [ht.state]; exact h.1, ht.waiting.trans h.2⟩
  | terminating rest => exact Task.Dying.same h (hrun t (List.mem_singleton_self t))
  | inform g rest phase =>
    have ht := hrun t (List.mem_singleton_self t)
    cases phase with
    | enqueue w => exact ⟨h.1.same ht, h.2.same (hinform w (List.mem_singleton_self w))⟩
    | decrement | take | unlock => exact Task.Dying.same h ht
  | switched =>
    have ht := hrun t (List.mem_singleton_self t)
    obtain ⟨hinit, hwait, hother⟩ := h
    refine ⟨by rwa [ht.state], fun hs ↦ ?_, fun hs ↦ ?_⟩
    · obtain ⟨g, hblocked, hg⟩ := hwait (ht.state.symm.trans hs)
      exact ⟨g, ht.blockedBy.trans hblocked, hg.same ht⟩
    · exact ht.waiting.trans (hother (by rwa [← ht.state]))
  | resume g phase =>
    cases phase with
    | lock | test => exact Task.Waits.same h (hrun t (List.mem_singleton_self t))
    | unlock result =>
      cases result with
      | false => trivial
      | true => exact Task.Waits.same h (hrun t (List.mem_singleton_self t))
  | requeue =>
    obtain ⟨g, hg⟩ := h
    exact ⟨g, hg.same (hrun t (List.mem_singleton_self t))⟩

theorem PerThreadMgr.Ok.frame (h : m.Ok task)
    (hsame : ∀ u, 0 < m.count u → (task' u).Same (task u)) : m.Ok task' := by
  refine ⟨h.shape, fun t ht ↦ ?_, ?_⟩
  · rw [(hsame t (count_pos_of_stored ht)).state]
    exact h.stored t ht
  · have hhand := h.hand
    have hrun := fun u hu ↦ hsame u (count_pos_of_running hu)
    have hinform := fun u hu ↦ hsame u (count_pos_of_informing hu)
    revert hhand hrun hinform
    cases m.pc with
    | task t p act => exact fun h hrun hinform ↦ Activity.Ok.frame h hrun hinform
    | _ => exact fun _ _ _ ↦ trivial

end

/-! ## The scheduler -/

/-- Nobody else is waiting on the group on which a task calls `wait`. -/
def Sched.OneWaiter (σ : Sched) : Label → Prop
  | .wait c g _ => ∀ t, (σ.task t).waiting = some g → t = c
  | _ => True

structure Sched.Ok (N : ℕ) (σ : Sched) : Prop where
  once : ∀ t, σ.occ N t ≤ 1
  kept : ∀ t, (σ.task t).spawned = true → (σ.task t).state ≠ .terminated → 0 < σ.occ N t
  spawned : ∀ t, 0 < σ.occ N t → (σ.task t).spawned = true
  task : ∀ t, (σ.task t).Ok
  made : ∀ t, σ.next ≤ t → σ.task t = {}
  thread : ∀ i < N, (σ.thread i).Ok σ.task
  outside : ∀ i, N ≤ i → σ.thread i = Sched.initial.thread i
  blocked : ∀ g t, (σ.group g).blockedTask = some t → (σ.task t).Waits g
  waiter : ∀ g t u, (σ.task t).waiting = some g → (σ.task u).waiting = some g → t = u

theorem Sched.Ok.initial (N : ℕ) : Sched.initial.Ok N := by
  have hcount : ∀ i t, (Sched.initial.thread i).count t = 0 := fun i t ↦ by
    by_cases hi : i = 0
    · rw [hi]
      rfl
    · simp only [Sched.initial, if_neg hi]
      rfl
  have hocc : ∀ t, Sched.initial.occ N t = 0 := fun t ↦ by
    rw [Sched.occ, Finset.sum_eq_zero fun i _ ↦ hcount i t]
    rfl
  refine ⟨fun t ↦ by rw [hocc]; exact Nat.zero_le 1, fun t h ↦ ?_, fun t h ↦ ?_,
    fun t ↦ .default, fun t _ ↦ rfl, fun i _ ↦ ?_, fun i _ ↦ rfl, fun g t h ↦ ?_, fun g t u h ↦ ?_⟩
  · exact absurd h (by simp [Sched.initial])
  · rw [hocc] at h
    exact absurd h (lt_irrefl 0)
  · by_cases hi : i = 0 <;>
      exact ⟨by simp [Sched.initial, hi, PerThreadMgr.Shape],
        fun t ht ↦ absurd ht (by simp [Sched.initial, hi, PerThreadMgr.stored,
          PerThreadMgr.parked, Pc.polled, Pc.stolen]), by simp [Sched.initial, hi, Pc.Ok]⟩
  · exact absurd h (by simp [Sched.initial])
  · exact absurd h (by simp [Sched.initial])

namespace Sched.Ok

variable {N : ℕ} {σ : Sched} {i j t g : ℕ}

/-- A task is accounted for by one thread only. -/
theorem eq_of_count (hσ : σ.Ok N) (hi : i < N) (hj : j < N) (h : 0 < (σ.thread i).count t)
    (h' : 0 < (σ.thread j).count t) : i = j := by
  by_contra hne
  have hsub : ({i, j} : Finset ℕ) ⊆ Finset.range N := by
    intro k hk
    rw [Finset.mem_insert, Finset.mem_singleton] at hk
    rw [Finset.mem_range]
    rcases hk with rfl | rfl <;> assumption
  have hsum := Finset.sum_le_sum_of_subset (f := fun k ↦ (σ.thread k).count t) hsub
  rw [Finset.sum_pair hne] at hsum
  have honce := hσ.once t
  rw [Sched.occ] at honce
  omega

/-- A thread accounts for a task at most once. -/
theorem count_le_one (hσ : σ.Ok N) (hi : i < N) : (σ.thread i).count t ≤ 1 :=
  (Sched.count_le_occ hi).trans (hσ.once t)

theorem slot_eq_zero (hσ : σ.Ok N) (hi : i < N) (h : 0 < (σ.thread i).count t) :
    σ.slot t = 0 := by
  have hsum := Finset.single_le_sum (f := fun j ↦ (σ.thread j).count t) (fun _ _ ↦ Nat.zero_le _)
    (Finset.mem_range.mpr hi)
  have honce := hσ.once t
  rw [Sched.occ] at honce
  omega

theorem not_blocked (hσ : σ.Ok N) (hi : i < N) (h : 0 < (σ.thread i).count t) :
    (σ.group g).blockedTask ≠ some t := by
  intro hb
  have := hσ.slot_eq_zero hi h
  rw [Sched.slot_of_blocked (hσ.blocked g t hb).waiting hb] at this
  omega

theorem spawned_of_count (hσ : σ.Ok N) (hi : i < N) (h : 0 < (σ.thread i).count t) :
    (σ.task t).spawned = true :=
  hσ.spawned t (h.trans_le (Sched.count_le_occ hi))

theorem lt_next (hσ : σ.Ok N) (h : (σ.task t).spawned = true) : t < σ.next := by
  by_contra hle
  rw [hσ.made t (not_lt.mp hle)] at h
  exact absurd h (by simp)

end Sched.Ok

end TYThread
