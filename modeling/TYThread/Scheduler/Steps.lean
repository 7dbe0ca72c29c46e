import TYThread.Library.Transition
import TYThread.Scheduler.Invariant

/-!
# One step of the scheduler

The invariant is preserved by every step. Each part of it has a lemma of its own: what happens to a
task, to the number of places a task is in, to what a thread knows, and to a `blockedTask`.
-/

namespace TYThread

open Counting

/-! ## What a thread knows -/

theorem Task.Same.refl (a : Task) : a.Same a := ⟨rfl, rfl, rfl, rfl, rfl, fun _ ↦ id⟩

theorem Task.same_update {task : ℕ → Task} {c : ℕ} {a : Task} (h : a.Same (task c)) (u : ℕ) :
    (Function.update task c a u).Same (task u) := by
  by_cases hu : u = c
  · rw [hu, Function.update_self]
    exact h
  · rw [Function.update_of_ne hu]
    exact .refl _

namespace PerThreadMgr

variable {task task' : ℕ → Task} {m : PerThreadMgr} {t u : ℕ} {p : Option ℕ} {act act' : Activity}
  {pc : Pc}

theorem mem_stored : u ∈ m.stored ↔ u ∈ m.runnableQueue ∨ u ∈ m.parked ∨ u ∈ m.pc.stolen := by
  rw [stored, List.mem_append, List.mem_append, or_assoc]

theorem mem_stored_head {ts : List ℕ} (queue : m.runnableQueue = t :: ts) : t ∈ m.stored := by
  rw [mem_stored, queue]
  exact Or.inl List.mem_cons_self

theorem mem_stored_polled {k : ℕ} (here : m.pc.polled = none)
    (entry : m.mpiBlockedQueue[k]? = some t) : t ∈ m.stored := by
  rw [mem_stored, parked, here]
  exact Or.inr (Or.inl (List.mem_of_getElem? entry))

theorem Ok.goOn (h : m.Ok task) (here : m.pc = .task t p act)
    (hstored : ∀ u ∈ m.stored, (task' u).state ≠ .terminated) (hact : act'.Ok task' t) :
    PerThreadMgr.Ok task' { m with pc := .task t p act' } := by
  refine ⟨?_, fun u hu ↦ hstored u ?_, hact⟩
  · have hshape := h.shape
    rw [Shape, here] at hshape
    exact hshape
  · rw [mem_stored] at hu ⊢
    rw [parked, here]
    simpa [parked] using hu

theorem Ok.enqueue (hstored : ∀ u ∈ m.stored, (task' u).state ≠ .terminated)
    (ht : (task' t).state ≠ .terminated) (hpolled : pc.polled = m.pc.polled)
    (hstolen : pc.stolen = [])
    (hshape : PerThreadMgr.Shape { m with runnableQueue := m.runnableQueue ++ [t], pc })
    (hhand : pc.Ok task') :
    PerThreadMgr.Ok task' { m with runnableQueue := m.runnableQueue ++ [t], pc } := by
  refine ⟨hshape, fun u hu ↦ ?_, hhand⟩
  rw [mem_stored, parked] at hu
  simp only [hstolen, hpolled, List.mem_append, List.mem_singleton, List.not_mem_nil,
    or_false] at hu
  rcases hu with (hu | rfl) | hu
  · exact hstored u (mem_stored.mpr (Or.inl hu))
  · exact ht
  · exact hstored u (mem_stored.mpr (Or.inr (Or.inl hu)))

theorem shape_afterTask (h : m.pc = afterTask p) : m.Shape := by
  rw [Shape, h]
  cases p <;> trivial

theorem ok_afterTask : (afterTask p).Ok task := by
  cases p <;> trivial

theorem Ok.afterTask (h : m.Ok task) (here : m.pc = .task t p act) :
    PerThreadMgr.Ok task { m with pc := afterTask p } := by
  refine ⟨shape_afterTask rfl, fun u hu ↦ h.stored u ?_, ok_afterTask⟩
  rw [mem_stored, parked] at hu ⊢
  rw [here]
  simpa using hu

end PerThreadMgr

theorem Task.continuationIn_live {a : Task} (h : a.state ≠ .terminated) :
    a.continuationIn.state ≠ .terminated := by
  rw [Task.continuationIn]
  dsimp only
  split
  · simp
  · exact h

theorem Control.ok {N i : ℕ} {σ : Sched} {pc pc' : Pc} (h : Control N σ i pc pc')
    (here : (σ.thread i).pc = pc) (hm : (σ.thread i).Ok σ.task) :
    PerThreadMgr.Ok σ.task { σ.thread i with pc := pc' } := by
  have hshape := hm.shape
  have hstored := hm.stored
  rw [PerThreadMgr.Shape, here] at hshape
  simp only [PerThreadMgr.mem_stored, PerThreadMgr.parked, here] at hstored
  refine ⟨?_, fun u hu ↦ hstored u ?_, ?_⟩
  · cases h <;> simp_all [PerThreadMgr.Shape]
  · rw [PerThreadMgr.mem_stored, PerThreadMgr.parked] at hu
    cases h <;> simpa [Pc.polled, Pc.stolen] using hu
  · cases h <;> trivial

namespace Sched.Ok

variable {N i c t : ℕ} {σ σ' : Sched} {l : Label} {a : Task}

theorem hand_at (hσ : σ.Ok N) (hi : i < N) {pc : Pc} (here : (σ.thread i).pc = pc) :
    pc.Ok σ.task := by
  rw [← here]
  exact (hσ.thread i hi).hand

/-- A task in the hands of a thread is not waiting to be run. -/
theorem ne_of_stored (hσ : σ.Ok N) (hi : i < N)
    (hc : c ∈ (σ.thread i).pc.running ∨ c ∈ (σ.thread i).pc.informing)
    (ht : t ∈ (σ.thread i).stored) : t ≠ c := by
  rintro rfl
  have hle := hσ.count_le_one (t := t) hi
  rw [PerThreadMgr.mem_stored] at ht
  rw [PerThreadMgr.count] at hle
  rcases hc with hc | hc <;> rcases ht with ht | ht | ht <;>
    · have := List.count_pos_iff.mpr hc
      have := List.count_pos_iff.mpr ht
      omega

/-- So the tasks that wait to be run stay as they are when that task changes. -/
theorem stored_update (hσ : σ.Ok N) (hi : i < N)
    (hc : c ∈ (σ.thread i).pc.running ∨ c ∈ (σ.thread i).pc.informing) :
    ∀ u ∈ (σ.thread i).stored, (Function.update σ.task c a u).state ≠ .terminated := by
  intro u hu
  rw [Function.update_of_ne (hσ.ne_of_stored hi hc hu)]
  exact (hσ.thread i hi).stored u hu

/-- The threads other than `i` know what they knew, when only tasks that `i` accounts for change. -/
theorem thread_frame (hσ : σ.Ok N) (hi : i < N) (hthread : ∀ j, j ≠ i → σ'.thread j = σ.thread j)
    (htask : ∀ u, (σ'.task u).Same (σ.task u) ∨ 0 < (σ.thread i).count u)
    (hself : (σ'.thread i).Ok σ'.task) : ∀ j < N, (σ'.thread j).Ok σ'.task := by
  intro j hj
  by_cases hji : j = i
  · rwa [hji]
  · rw [hthread j hji]
    refine (hσ.thread j hj).frame fun u hu ↦ ?_
    rcases htask u with h | h
    · exact h
    · exact absurd (hσ.eq_of_count hj hi hu h) hji

theorem thread_own (hσ : σ.Ok N) (hi : i < N) {m : PerThreadMgr}
    (hthread : σ'.thread = Function.update σ.thread i m) (htask : σ'.task = σ.task)
    (hm : m.Ok σ.task) : ∀ j < N, (σ'.thread j).Ok σ'.task := by
  refine hσ.thread_frame hi (fun j hj ↦ ?_) (fun u ↦ Or.inl ?_) ?_
  · rw [hthread, Function.update_of_ne hj]
  · rw [htask]
    exact .refl _
  · rwa [hthread, htask, Function.update_self]

/-- The thread `i` goes on with the task in its hands, and no task changes. -/
theorem thread_goOn (hσ : σ.Ok N) (hi : i < N) {p : Option ℕ} {act act' : Activity}
    (here : (σ.thread i).pc = .task t p act)
    (hthread : σ'.thread = Function.update σ.thread i { σ.thread i with pc := .task t p act' })
    (htask : σ'.task = σ.task) (hact : act'.Ok σ.task t) :
    ∀ j < N, (σ'.thread j).Ok σ'.task :=
  hσ.thread_own hi hthread htask ((hσ.thread i hi).goOn here (hσ.thread i hi).stored hact)

/-- The thread `i` goes on with the task in its hands, which changes. -/
theorem thread_goOn_update (hσ : σ.Ok N) (hi : i < N) {p : Option ℕ} {act act' : Activity}
    (here : (σ.thread i).pc = .task t p act) (hrun : t ∈ (σ.thread i).pc.running)
    (hthread : σ'.thread = Function.update σ.thread i { σ.thread i with pc := .task t p act' })
    (htask : σ'.task = Function.update σ.task t a) (hact : act'.Ok (Function.update σ.task t a) t) :
    ∀ j < N, (σ'.thread j).Ok σ'.task := by
  refine hσ.thread_frame hi (fun j hj ↦ ?_) (fun u ↦ ?_) ?_
  · rw [hthread, Function.update_of_ne hj]
  · by_cases hu : u = t
    · rw [hu]
      exact Or.inr (PerThreadMgr.count_pos_of_running hrun)
    · rw [htask, Function.update_of_ne hu]
      exact Or.inl (.refl _)
  · rw [hthread, htask, Function.update_self]
    exact (hσ.thread i hi).goOn here (hσ.stored_update hi (Or.inl hrun)) hact

/-- The thread `i` gives control to the task `t`, which was waiting to be run. -/
theorem thread_back (hσ : σ.Ok N) (hi : i < N) {p : Option ℕ} {m : PerThreadMgr}
    (ht : (σ.task t).state ≠ .terminated) (hcount : 0 < (σ.thread i).count t)
    (hthread : σ'.thread = Function.update σ.thread i m)
    (htask : σ'.task = Function.update σ.task t (σ.task t).continuationIn)
    (hpc : m.pc = .task t p .user) (hpolled : ∀ k, p = some k → m.mpiBlockedQueue[k]? = some t)
    (hstored : ∀ u ∈ m.stored, u ∈ (σ.thread i).stored) : ∀ j < N, (σ'.thread j).Ok σ'.task := by
  refine hσ.thread_frame hi (fun j hj ↦ ?_) (fun u ↦ ?_) ?_
  · rw [hthread, Function.update_of_ne hj]
  · by_cases hu : u = t
    · exact Or.inr (by rwa [hu])
    · rw [htask, Function.update_of_ne hu]
      exact Or.inl (.refl _)
  · rw [hthread, htask, Function.update_self]
    refine ⟨?_, fun u hu ↦ ?_, ?_⟩
    · rw [PerThreadMgr.Shape, hpc]
      exact hpolled
    · by_cases hut : u = t
      · rw [hut, Function.update_self]
        exact Task.continuationIn_live ht
      · rw [Function.update_of_ne hut]
        exact (hσ.thread i hi).stored u (hstored u hu)
    · rw [hpc, Pc.Ok, Activity.Ok, Function.update_self]
      exact ⟨Task.continuationIn_live ht, rfl⟩

theorem thread_enqueue (hσ : σ.Ok N) (hi : i < N) {pc : Pc}
    (hthread : σ'.thread = Function.update σ.thread i
      { σ.thread i with runnableQueue := (σ.thread i).runnableQueue ++ [t], pc })
    (htask : σ'.task = Function.update σ.task t a)
    (hheld : a.Same (σ.task t) ∨ t ∈ (σ.thread i).pc.running ∨ t ∈ (σ.thread i).pc.informing)
    (ht : a.state ≠ .terminated) (hpolled : pc.polled = (σ.thread i).pc.polled)
    (hstolen : pc.stolen = []) (hhand : pc.Ok (Function.update σ.task t a))
    (hshape : PerThreadMgr.Shape
      { σ.thread i with runnableQueue := (σ.thread i).runnableQueue ++ [t], pc }) :
    ∀ j < N, (σ'.thread j).Ok σ'.task := by
  refine hσ.thread_frame hi (fun j hj ↦ ?_) (fun u ↦ ?_) ?_
  · rw [hthread, Function.update_of_ne hj]
  · rw [htask]
    rcases hheld with hsame | hrun | hinform
    · exact Or.inl (Task.same_update hsame u)
    all_goals
      by_cases hu : u = t
      · rw [hu]
        first
          | exact Or.inr (PerThreadMgr.count_pos_of_running hrun)
          | exact Or.inr (PerThreadMgr.count_pos_of_informing hinform)
      · rw [Function.update_of_ne hu]
        exact Or.inl (.refl _)
  · rw [hthread, htask, Function.update_self]
    refine .enqueue ?_ ?_ hpolled hstolen hshape hhand
    · rcases hheld with hsame | hheld
      · intro u hu
        rw [(Task.same_update hsame u).state]
        exact (hσ.thread i hi).stored u hu
      · exact hσ.stored_update hi hheld
    · rwa [Function.update_self]

end Sched.Ok

theorem Step.thread {N : ℕ} {σ σ' : Sched} {l : Label} (h : Step N σ l σ') (hσ : σ.Ok N) :
    ∀ j < N, (σ'.thread j).Ok σ'.task := by
  cases h with
  | terminateGracefully => exact hσ.thread
  | newTask isPure lt client =>
    have hnew : σ.task σ.next = {} := hσ.made _ le_rfl
    exact fun j hj ↦ (hσ.thread j hj).frame fun u _ ↦
      Task.same_update (by rw [hnew]; exact ⟨rfl, rfl, rfl, rfl, rfl, fun _ ↦ id⟩) u
  | @addRunnable i t lt client made once =>
    have hm := hσ.thread i lt
    refine hσ.thread_enqueue lt rfl rfl (Or.inl ⟨rfl, rfl, rfl, rfl, rfl, fun _ ↦ id⟩) ?_ rfl
      ?_ ?_ ?_
    · rw [((hσ.task t).fresh once).1]
      decide
    · revert client
      cases (σ.thread i).pc <;> simp [Pc.Client, Pc.stolen]
    · exact (hm.frame fun u _ ↦ Task.same_update
        (by exact ⟨rfl, rfl, rfl, rfl, rfl, fun _ ↦ id⟩) u).hand
    · have hshape := hm.shape
      revert client hshape
      unfold PerThreadMgr.Shape
      cases (σ.thread i).pc <;> simp [Pc.Client]
  | control lt here move =>
    exact hσ.thread_own lt rfl rfl (move.ok here (hσ.thread _ lt))
  | @dequeue i t ts lt here queue =>
    have hm := hσ.thread i lt
    have hstored := PerThreadMgr.mem_stored_head queue
    refine hσ.thread_back lt (hm.stored t hstored)
      (PerThreadMgr.count_pos_of_stored hstored) rfl rfl rfl (fun k h ↦ absurd h (by simp)) ?_
    intro u hu
    rw [PerThreadMgr.mem_stored] at hu ⊢
    rw [PerThreadMgr.parked, here, queue]
    rcases hu with hu | hu
    · exact Or.inl (List.mem_cons_of_mem t hu)
    · exact Or.inr hu
  | @steal i v xs ys lt here victim ne queue nonempty =>
    have hm := hσ.thread i lt
    have hv := hσ.thread v victim
    have hshape := hm.shape
    rw [PerThreadMgr.Shape, here] at hshape
    intro j hj
    rw [Sched.goto, Sched.setThread_thread, Sched.setThread_thread,
      Function.update_of_ne (Ne.symm ne)]
    by_cases hji : j = i
    · rw [hji, Function.update_self]
      refine ⟨hshape, fun u hu ↦ ?_, trivial⟩
      rw [PerThreadMgr.mem_stored] at hu
      rcases hu with hu | hu | hu
      · exact hm.stored u (PerThreadMgr.mem_stored.mpr (Or.inl hu))
      · refine hm.stored u (PerThreadMgr.mem_stored.mpr (Or.inr (Or.inl ?_)))
        rw [PerThreadMgr.parked, here]
        exact hu
      · refine hv.stored u (PerThreadMgr.mem_stored.mpr (Or.inl ?_))
        rw [queue]
        exact List.mem_append_left ys hu
    rw [Function.update_of_ne hji, Sched.setThread_thread]
    by_cases hjv : j = v
    · rw [hjv, Function.update_self]
      refine ⟨?_, fun u hu ↦ ?_, hv.hand⟩
      · have hshape := hv.shape
        revert hshape
        unfold PerThreadMgr.Shape
        rw [queue]
        cases (σ.thread v).pc <;> simp_all
      · rw [PerThreadMgr.mem_stored] at hu
        refine hv.stored u (PerThreadMgr.mem_stored.mpr ?_)
        rw [queue]
        rcases hu with hu | hu
        · exact Or.inl (List.mem_append_right xs hu)
        · exact Or.inr hu
    · rw [Function.update_of_ne hjv]
      exact hσ.thread j hj
  | @install i xs lt here =>
    have hm := hσ.thread i lt
    refine hσ.thread_own lt rfl rfl ?_
    refine ⟨trivial, fun u hu ↦ hm.stored u ?_, trivial⟩
    rw [PerThreadMgr.mem_stored] at hu ⊢
    rw [PerThreadMgr.parked, here]
    rcases hu with hu | hu | hu
    · exact Or.inr (Or.inr hu)
    · exact Or.inr (Or.inl hu)
    · exact absurd hu List.not_mem_nil
  | @pollTask i k t lt here entry =>
    have hm := hσ.thread i lt
    have hstored := PerThreadMgr.mem_stored_polled (by rw [here]; rfl) entry
    refine hσ.thread_back lt (hm.stored t hstored)
      (PerThreadMgr.count_pos_of_stored hstored) rfl rfl rfl ?_ ?_
    · intro k' hk'
      rwa [← Option.some.inj hk']
    · intro u hu
      rw [PerThreadMgr.mem_stored] at hu ⊢
      rw [PerThreadMgr.parked, here]
      rcases hu with hu | hu | hu
      · exact Or.inl hu
      · exact Or.inr (Or.inl (List.mem_of_mem_eraseIdx hu))
      · exact Or.inr (Or.inr hu)
  | registe lt here made unlocked room alive accepted =>
    exact fun j hj ↦ (hσ.thread j hj).frame fun u _ ↦ Task.same_update (by
      rw [Task.addToGroup, accepted]
      exact ⟨rfl, rfl, rfl, rfl, rfl, List.subset_append_left _ _⟩) u
  | registeFini lt here made unlocked alive rejected =>
    exact fun j hj ↦ (hσ.thread j hj).frame fun u _ ↦ Task.same_update (by
      rw [Task.addToGroup, rejected]
      exact ⟨rfl, rfl, rfl, rfl, rfl, fun _ ↦ id⟩) u
  | waitDone | destroy => exact hσ.thread
  | @waitYield i c g p lt here alive blocking impure =>
    refine hσ.thread_goOn_update lt here (by rw [here]; exact List.mem_singleton_self c) rfl rfl ?_
    rw [Activity.Ok, Function.update_self]
    exact ⟨by simp, fun _ ↦ ⟨g, rfl, rfl, rfl⟩, fun h ↦ absurd rfl h⟩
  | @yield i c p state lt here impure as =>
    have hhand := hσ.hand_at lt here
    refine hσ.thread_goOn_update lt here (by rw [here]; exact List.mem_singleton_self c) rfl rfl ?_
    rw [Activity.Ok, Function.update_self]
    refine ⟨?_, fun h ↦ ?_, fun _ ↦ hhand.2⟩
    · rcases as with rfl | rfl <;> simp
    · rcases as with rfl | rfl <;> simp at h
  | @terminate i c p lt here unlocked =>
    have hhand := hσ.hand_at lt here
    refine hσ.thread_goOn_update lt here (by rw [here]; exact List.mem_singleton_self c) rfl rfl ?_
    rw [Activity.Ok, Function.update_self]
    exact ⟨rfl, hhand.2, rfl, fun _ ↦ id⟩
  | @informLock i c g p rest lt here free =>
    have hhand := hσ.hand_at lt here
    exact hσ.thread_goOn lt here rfl rfl hhand
  | @informDecrement i c g p rest lt here =>
    have hhand := hσ.hand_at lt here
    refine hσ.thread_goOn lt here rfl rfl ?_
    split <;> exact hhand
  | @informTake i c g w p rest lt here blocked =>
    have hhand := hσ.hand_at lt here
    exact hσ.thread_goOn lt here rfl rfl ⟨hhand, hσ.blocked g w blocked⟩
  | @informNobody i c g p rest lt here nobody =>
    have hhand := hσ.hand_at lt here
    exact hσ.thread_goOn lt here rfl rfl hhand
  | @informEnqueue i c g w p rest lt here =>
    have hm := hσ.thread i lt
    have hhand := hm.hand
    have hshape := hm.shape
    rw [here] at hhand
    rw [PerThreadMgr.Shape, here] at hshape
    have hne : c ≠ w := fun h ↦ by
      have := hhand.1.waiting
      rw [h, hhand.2.waiting] at this
      exact absurd this (by simp)
    refine hσ.thread_enqueue lt rfl rfl (Or.inr (Or.inr ?_)) (by simp) (by rw [here]; rfl) rfl ?_
      hshape
    · rw [here]
      exact List.mem_singleton_self w
    · rw [Pc.Ok, Activity.Ok, Function.update_of_ne hne]
      · exact hhand.1
      · simp
  | @informUnlock i c g p rest lt here =>
    have hhand := hσ.hand_at lt here
    exact hσ.thread_goOn lt here rfl rfl
      ⟨hhand.state, hhand.waiting, hhand.locked,
        fun _ hg ↦ hhand.groups (List.mem_cons_of_mem g hg)⟩
  | @terminated i c p lt here =>
    have hhand := hσ.hand_at lt here
    refine hσ.thread_goOn_update lt here (by rw [here]; exact List.mem_singleton_self c) rfl rfl ?_
    rw [Activity.Ok, Function.update_self]
    exact ⟨by simp [hhand.state], fun h ↦ absurd (hhand.state.symm.trans h) (by simp),
      fun _ ↦ hhand.waiting⟩
  | @handleRunnable i t p lt here state =>
    refine hσ.thread_enqueue lt rfl (Function.update_eq_self t σ.task).symm
      (Or.inl (.refl _)) (by rw [state]; simp) (by rw [here]; simp) (by simp)
      PerThreadMgr.ok_afterTask (PerThreadMgr.shape_afterTask rfl)
  | @handleMpi i t lt here state =>
    refine hσ.thread_own lt rfl rfl ?_
    refine ⟨trivial, fun u hu ↦ ?_, trivial⟩
    have hstored := (hσ.thread i lt).stored u
    rw [PerThreadMgr.mem_stored, PerThreadMgr.parked, here] at hstored
    rw [PerThreadMgr.mem_stored, PerThreadMgr.parked] at hu
    simp only [Pc.polled, Option.elim, List.mem_append, List.mem_singleton] at hu
    rcases hu with hu | (hu | rfl) | hu
    · exact hstored (Or.inl hu)
    · exact hstored (Or.inr (Or.inl hu))
    · exact fun h ↦ absurd (state.symm.trans h) (by simp)
    · exact absurd hu List.not_mem_nil
  | @stillMpi i t k lt here state =>
    refine hσ.thread_own lt rfl rfl ?_
    refine ⟨trivial, fun u hu ↦ ?_, trivial⟩
    have hstored := (hσ.thread i lt).stored u
    have hshape := (hσ.thread i lt).shape
    rw [PerThreadMgr.Shape, here] at hshape
    rw [PerThreadMgr.mem_stored, PerThreadMgr.parked, here] at hstored
    rw [PerThreadMgr.mem_stored, PerThreadMgr.parked] at hu
    rcases hu with hu | hu | hu
    · exact hstored (Or.inl hu)
    · rcases List.mem_cons.mp ((perm_eraseIdx (hshape k rfl)).mem_iff.mpr hu) with rfl | hu
      · exact fun h ↦ absurd (state.symm.trans h) (by simp)
      · exact hstored (Or.inr (Or.inl hu))
    · exact absurd hu List.not_mem_nil
  | @handleWait i t g p lt here state blockedBy =>
    have hhand := hσ.hand_at lt here
    obtain ⟨g', hblocked, hwaits⟩ := hhand.2.1 state
    obtain rfl : g = g' := Option.some.inj (blockedBy.symm.trans hblocked)
    exact hσ.thread_goOn lt here rfl rfl hwaits
  | @handleOther i t p lt here state =>
    exact hσ.thread_own lt rfl rfl ((hσ.thread i lt).afterTask here)
  | @resumeLock i t g p lt here free =>
    have hhand := hσ.hand_at lt here
    exact hσ.thread_goOn lt here rfl rfl hhand
  | @resumeZero i t g p lt here zero =>
    have hhand := hσ.hand_at lt here
    refine hσ.thread_goOn_update lt here (by rw [here]; exact List.mem_singleton_self t) rfl rfl ?_
    rw [Activity.Ok, Function.update_self]
    · exact ⟨hhand.waiting, hhand.wakes⟩
    · simp
  | resumeBlock lt here blocking => exact hσ.thread_goOn lt here rfl rfl trivial
  | @resumeUnlock i t g p result lt here =>
    cases result with
    | true =>
      have hhand := hσ.hand_at lt here
      exact hσ.thread_goOn lt here rfl rfl ⟨g, hhand⟩
    | false =>
      exact hσ.thread_own lt rfl rfl ((hσ.thread i lt).afterTask here)
  | @requeue i t p lt here =>
    have hhand := hσ.hand_at lt here
    obtain ⟨g, hwaits⟩ := hhand
    refine hσ.thread_enqueue lt rfl rfl (Or.inr (Or.inl ?_)) ?_ (by rw [here]; simp) (by simp)
      PerThreadMgr.ok_afterTask (PerThreadMgr.shape_afterTask rfl)
    · rw [here]
      exact List.mem_singleton_self t
    · exact (hσ.task t).live (by rw [hwaits.waiting]; simp)
  | @erase i k t lt here entry =>
    refine hσ.thread_own lt rfl rfl ?_
    refine ⟨trivial, fun u hu ↦ ?_, trivial⟩
    have hstored := (hσ.thread i lt).stored u
    rw [PerThreadMgr.mem_stored, PerThreadMgr.parked, here] at hstored
    rw [PerThreadMgr.mem_stored, PerThreadMgr.parked] at hu
    rcases hu with hu | hu | hu
    · exact hstored (Or.inl hu)
    · exact hstored (Or.inr (Or.inl ((erase_perm_eraseIdx entry).mem_iff.mp hu)))
    · exact absurd hu List.not_mem_nil

/-! ## What happens to a task -/

theorem Step.life {N : ℕ} {σ σ' : Sched} {l : Label} (h : Step N σ l σ') (hσ : σ.Ok N) :
    ∃ c, (∀ t, t ≠ c → σ'.task t = σ.task t) ∧ Life c (σ.task c) l (σ'.task c) := by
  have hsame : σ'.task = σ.task → ∃ c, (∀ t, t ≠ c → σ'.task t = σ.task t) ∧
      Life c (σ.task c) l (σ'.task c) := fun h ↦ by
    rw [h]
    exact ⟨0, fun _ _ ↦ rfl, .idle l⟩
  have hupdate : ∀ c a, σ'.task = Function.update σ.task c a → Life c (σ.task c) l a →
      ∃ c, (∀ t, t ≠ c → σ'.task t = σ.task t) ∧ Life c (σ.task c) l (σ'.task c) := by
    intro c a hc hlife
    rw [hc]
    exact ⟨c, fun t ht ↦ Function.update_of_ne ht _ _, by rwa [Function.update_self]⟩
  have hspawned : ∀ {i c p act}, i < N → (σ.thread i).pc = .task c p act →
      c ∈ (Pc.task c p act).running → (σ.task c).spawned = true := fun hi here hc ↦
    hσ.spawned_of_count hi (PerThreadMgr.count_pos_of_running (by rwa [here]))
  cases h with
  | terminateGracefully => exact hsame rfl
  | newTask isPure lt client => exact hupdate _ _ rfl (.make isPure (hσ.made _ le_rfl))
  | addRunnable lt client made once => exact hupdate _ _ rfl (.spawn once)
  | control | steal | install | waitDone | destroy | informLock | informDecrement | informTake
  | informNobody | informUnlock | handleRunnable | handleMpi | stillMpi | handleWait | handleOther
  | resumeLock | resumeBlock | resumeUnlock | erase => exact hsame rfl
  | @dequeue i t ts lt here queue =>
    have hstored := PerThreadMgr.mem_stored_head queue
    exact hupdate _ _ rfl (.back (hσ.spawned_of_count lt (PerThreadMgr.count_pos_of_stored hstored))
      ((hσ.thread i lt).stored t hstored))
  | @pollTask i k t lt here entry =>
    have hstored := PerThreadMgr.mem_stored_polled (by rw [here]; rfl) entry
    exact hupdate _ _ rfl (.back (hσ.spawned_of_count lt (PerThreadMgr.count_pos_of_stored hstored))
      ((hσ.thread i lt).stored t hstored))
  | registe lt here made unlocked room alive accepted =>
    refine hupdate _ _ rfl ?_
    rw [Task.addToGroup, accepted]
    exact .registe accepted
  | registeFini lt here made unlocked alive rejected =>
    refine hupdate _ _ rfl ?_
    rw [Task.addToGroup, rejected]
    exact .idle _
  | @waitYield i c g p lt here alive blocking impure =>
    have hhand := hσ.hand_at lt here
    exact hupdate _ _ rfl (.wait (hspawned lt here (List.mem_singleton_self c)) hhand.1)
  | @yield i c p state lt here impure as =>
    have hhand := hσ.hand_at lt here
    exact hupdate _ _ rfl (.yield (hspawned lt here (List.mem_singleton_self c)) hhand.1 as)
  | @terminate i c p lt here unlocked =>
    have hhand := hσ.hand_at lt here
    exact hupdate _ _ rfl
      (.terminate (hspawned lt here (List.mem_singleton_self c)) hhand.1 hhand.2)
  | @informEnqueue i c g w p rest lt here =>
    have hhand := hσ.hand_at lt here
    have hspawned : (σ.task w).spawned = true :=
      hσ.spawned_of_count lt (PerThreadMgr.count_pos_of_informing (by
        rw [here]
        exact List.mem_singleton_self w))
    exact hupdate _ _ rfl (.wake hspawned (by rw [hhand.2.waiting]; simp) hhand.2.wakes)
  | @terminated i c p lt here =>
    exact hupdate _ _ rfl (.unlock (hspawned lt here (List.mem_singleton_self c)))
  | @resumeZero i t g p lt here zero =>
    have hhand := hσ.hand_at lt here
    exact hupdate _ _ rfl (.resume (hspawned lt here (List.mem_singleton_self t))
      (by rw [hhand.waiting]; simp))
  | @requeue i t p lt here =>
    have hhand := hσ.hand_at lt here
    obtain ⟨g, hwaits⟩ := hhand
    exact hupdate _ _ rfl (.requeue (hspawned lt here (List.mem_singleton_self t))
      (by rw [hwaits.waiting]; simp) hwaits.wakes)

/-! ## The number of places -/

/-- What a step does to the number of places that the task `t` is in. -/
inductive Flow (N : ℕ) (σ σ' : Sched) (t : ℕ) : Prop
  | stay (occ : σ'.occ N t = σ.occ N t) (spawned : (σ'.task t).spawned = (σ.task t).spawned)
  | enter (occ : σ'.occ N t = σ.occ N t + 1) (new : (σ.task t).spawned = false)
      (spawned : (σ'.task t).spawned = true)
  | leave (occ : σ'.occ N t + 1 = σ.occ N t) (terminated : (σ.task t).state = .terminated)
      (spawned : (σ'.task t).spawned = (σ.task t).spawned)

/-- The thread `i` keeps its tasks, and no group and no task changes in what a slot depends on. -/
theorem Flow.keep {N i t : ℕ} {σ σ' : Sched} {m : PerThreadMgr} (hi : i < N)
    (hthread : σ'.thread = Function.update σ.thread i m)
    (hcount : m.count t = (σ.thread i).count t)
    (hwaiting : ∀ u, (σ'.task u).waiting = (σ.task u).waiting)
    (hspawned : ∀ u, (σ'.task u).spawned = (σ.task u).spawned)
    (hblocked : ∀ g, (σ'.group g).blockedTask = (σ.group g).blockedTask) : Flow N σ σ' t :=
  .stay (Sched.occ_eq_of_update hi hthread (by rw [hcount, Sched.slot_congr (hwaiting t) hblocked]))
    (hspawned t)

theorem Step.flow {N : ℕ} {σ σ' : Sched} {l : Label} (h : Step N σ l σ') (hσ : σ.Ok N) (u : ℕ) :
    Flow N σ σ' u := by
  cases h with
  | terminateGracefully => exact .stay rfl rfl
  | newTask isPure lt client =>
    have hnew : σ.task σ.next = {} := hσ.made _ le_rfl
    exact .keep lt (Function.update_eq_self _ _).symm rfl
      (apply_update_eq Task.waiting (by rw [hnew])) (apply_update_eq Task.spawned (by rw [hnew]))
      fun _ ↦ rfl
  | @addRunnable i t lt client made once =>
    have hslot : Sched.slot ((σ.setTask t { σ.task t with spawned := true }).enqueue i t
        (σ.thread i).pc) u = σ.slot u :=
      Sched.slot_congr (apply_update_eq Task.waiting (by rfl) u) fun _ ↦ rfl
    by_cases hu : u = t
    · subst hu
      refine .enter (Sched.occ_succ_of_update lt rfl ?_) once ?_
      · rw [hslot]
        simp [PerThreadMgr.count, PerThreadMgr.parked]
        omega
      · simp [Sched.enqueue]
    · refine .stay (Sched.occ_eq_of_update lt rfl ?_) (congrArg _ (Function.update_of_ne hu _ _))
      rw [hslot]
      simp [PerThreadMgr.count, PerThreadMgr.parked, Ne.symm hu]
  | @control i pc pc' lt here move =>
    refine .keep lt rfl ?_ (fun _ ↦ rfl) (fun _ ↦ rfl) fun _ ↦ rfl
    cases move <;> simp [PerThreadMgr.count, PerThreadMgr.parked, here, Pc.polled, Pc.stolen,
      Pc.running, Pc.informing]
  | @dequeue i t ts lt here queue =>
    have hcount : 0 < (σ.thread i).count t := by
      simp [PerThreadMgr.count, queue]
    refine .stay (Sched.occ_eq_of_update lt rfl (congrArg₂ _ ?_ ?_))
      (apply_update_eq Task.spawned (by rfl) u)
    · simp [PerThreadMgr.count, PerThreadMgr.parked, here, queue, Pc.polled, Pc.stolen,
        Pc.running, Pc.informing, List.count_cons]
      omega
    · by_cases hu : u = t
      · rw [hu, hσ.slot_eq_zero lt hcount]
        refine Sched.slot_of_not_waiting ?_
        simp [Task.continuationIn]
      · refine Sched.slot_congr ?_ fun _ ↦ rfl
        exact congrArg _ (Function.update_of_ne hu _ _)
  | @steal i v xs ys lt here victim ne queue nonempty =>
    refine .stay (Sched.occ_eq_of_update_two lt victim (Ne.symm ne) rfl ?_
      (Sched.slot_congr rfl fun _ ↦ rfl)) rfl
    simp [PerThreadMgr.count, PerThreadMgr.parked, queue, here, Function.update_of_ne (Ne.symm ne),
      Pc.polled, Pc.stolen, Pc.running, Pc.informing]
    omega
  | @install i xs lt here =>
    have hshape := (hσ.thread i lt).shape
    rw [PerThreadMgr.Shape, here] at hshape
    refine .keep lt rfl ?_ (fun _ ↦ rfl) (fun _ ↦ rfl) fun _ ↦ rfl
    simp [PerThreadMgr.count, PerThreadMgr.parked, here, hshape, Pc.polled, Pc.stolen,
      Pc.running, Pc.informing]
    omega
  | @pollTask i k t lt here entry =>
    have hperm := (perm_eraseIdx entry).count_eq
    have hcount : 0 < (σ.thread i).count t := by
      have := hperm t
      rw [List.count_cons_self] at this
      simp only [PerThreadMgr.count, PerThreadMgr.parked, here, Pc.polled, Option.elim]
      omega
    refine .stay (Sched.occ_eq_of_update lt rfl (congrArg₂ _ ?_ ?_))
      (apply_update_eq Task.spawned (by rfl) u)
    · have := hperm u
      simp [PerThreadMgr.count, PerThreadMgr.parked, here, Pc.polled, Pc.stolen, Pc.running,
        Pc.informing, List.count_cons] at this ⊢
      omega
    · by_cases hu : u = t
      · rw [hu, hσ.slot_eq_zero lt hcount]
        refine Sched.slot_of_not_waiting ?_
        simp [Sched.goto, Task.continuationIn]
      · refine Sched.slot_congr ?_ fun _ ↦ rfl
        exact congrArg _ (Function.update_of_ne hu _ _)
  | registe lt here made unlocked room alive accepted =>
    rw [Task.addToGroup, accepted]
    exact .keep lt (Function.update_eq_self _ _).symm rfl
      (apply_update_eq Task.waiting (by rfl)) (apply_update_eq Task.spawned (by rfl))
      (apply_update_eq TaskGroup.blockedTask (by rfl))
  | registeFini lt here made unlocked alive rejected =>
    rw [Task.addToGroup, rejected]
    exact .keep lt (Function.update_eq_self _ _).symm rfl
      (apply_update_eq Task.waiting (by rfl)) (apply_update_eq Task.spawned (by rfl))
      (apply_update_eq TaskGroup.blockedTask (by rfl))
  | waitDone lt | destroy lt =>
    exact .keep lt (Function.update_eq_self _ _).symm rfl (fun _ ↦ rfl) (fun _ ↦ rfl)
      (apply_update_eq TaskGroup.blockedTask (by rfl))
  | @waitYield i c g p lt here alive blocking impure =>
    have hcount : 0 < (σ.thread i).count c :=
      PerThreadMgr.count_pos_of_running (by rw [here]; exact List.mem_singleton_self c)
    refine .stay (Sched.occ_eq_of_update lt rfl (congrArg₂ _ ?_ ?_))
      (apply_update_eq Task.spawned (by rfl) u)
    · exact PerThreadMgr.count_goOn here rfl rfl
    · have hblocked : ∀ g', ((σ.setGroup g { σ.group g with waited := true }).group g').blockedTask
          = (σ.group g').blockedTask := apply_update_eq TaskGroup.blockedTask (by rfl)
      by_cases hu : u = c
      · rw [hu, hσ.slot_eq_zero lt hcount]
        refine Sched.slot_of_not_blocked fun g' ↦ ?_
        exact fun h ↦ hσ.not_blocked lt hcount ((hblocked g').symm.trans h)
      · exact Sched.slot_congr (congrArg _ (Function.update_of_ne hu _ _)) hblocked
  | yield lt here impure as =>
    exact .keep lt rfl (PerThreadMgr.count_goOn here rfl rfl)
      (apply_update_eq Task.waiting (by rfl)) (apply_update_eq Task.spawned (by rfl)) fun _ ↦ rfl
  | terminate lt here unlocked =>
    exact .keep lt rfl (PerThreadMgr.count_goOn here rfl rfl)
      (apply_update_eq Task.waiting (by rfl)) (apply_update_eq Task.spawned (by rfl)) fun _ ↦ rfl
  | informLock lt here free =>
    exact .keep lt rfl (PerThreadMgr.count_goOn here rfl rfl) (fun _ ↦ rfl) (fun _ ↦ rfl)
      (apply_update_eq TaskGroup.blockedTask (by rfl))
  | informDecrement lt here =>
    refine .keep lt rfl (PerThreadMgr.count_goOn here ?_ ?_) (fun _ ↦ rfl) (fun _ ↦ rfl)
      (apply_update_eq TaskGroup.blockedTask (by rfl)) <;>
    · split <;> rfl
  | @informTake i c g w p rest lt here blocked =>
    have hw := hσ.blocked g w blocked
    let σ' := (σ.setGroup g (σ.group g).take).goto i (.task c p (.inform g rest (.enqueue w)))
    have hgroup : ∀ g', g' ≠ g → σ'.group g' = σ.group g' := fun g' hg' ↦
      Function.update_of_ne hg' _ _
    have htake : (σ'.group g).blockedTask = none := by
      simp [σ', Sched.goto, TaskGroup.take]
    refine .stay (Sched.occ_eq_of_update lt (show σ'.thread = _ from rfl) ?_) rfl
    by_cases hu : u = w
    · subst hu
      have hslot : σ'.slot u = 0 := by
        refine Sched.slot_of_not_blocked fun g' h ↦ ?_
        by_cases hg' : g' = g
        · rw [hg', htake] at h
          exact absurd h (by simp)
        · rw [hgroup g' hg'] at h
          exact hg' (Option.some.inj ((hσ.blocked g' u h).waiting.symm.trans hw.waiting))
      rw [Sched.slot_of_blocked hw.waiting blocked, hslot]
      simp [PerThreadMgr.count, PerThreadMgr.parked, here, Pc.running, Pc.informing]
    · have hslot : σ'.slot u = σ.slot u := by
        refine Sched.slot_congr_iff rfl fun g' ↦ ?_
        by_cases hg' : g' = g
        · rw [hg', htake, blocked]
          simp [Ne.symm hu]
        · rw [hgroup g' hg']
      rw [hslot]
      simp [PerThreadMgr.count, PerThreadMgr.parked, here, Pc.running, Pc.informing, Ne.symm hu]
  | informNobody lt here nobody =>
    exact .keep lt rfl (PerThreadMgr.count_goOn here rfl rfl) (fun _ ↦ rfl) (fun _ ↦ rfl)
      fun _ ↦ rfl
  | @informEnqueue i c g w p rest lt here =>
    refine .keep lt rfl ?_ (apply_update_eq Task.waiting (by rfl))
      (apply_update_eq Task.spawned (by rfl)) fun _ ↦ rfl
    simp [PerThreadMgr.count, PerThreadMgr.parked, here, Pc.running, Pc.informing]
    omega
  | informUnlock lt here =>
    exact .keep lt rfl (PerThreadMgr.count_goOn here rfl rfl) (fun _ ↦ rfl) (fun _ ↦ rfl)
      (apply_update_eq TaskGroup.blockedTask (by rfl))
  | terminated lt here =>
    exact .keep lt rfl (PerThreadMgr.count_goOn here rfl rfl)
      (apply_update_eq Task.waiting (by rfl)) (apply_update_eq Task.spawned (by rfl)) fun _ ↦ rfl
  | @handleRunnable i t p lt here state =>
    refine .keep lt rfl ?_ (fun _ ↦ rfl) (fun _ ↦ rfl) fun _ ↦ rfl
    rw [PerThreadMgr.count_afterTask rfl]
    simp [PerThreadMgr.count, PerThreadMgr.parked, here, Pc.running, Pc.informing]
    omega
  | @handleMpi i t lt here state =>
    refine .keep lt rfl ?_ (fun _ ↦ rfl) (fun _ ↦ rfl) fun _ ↦ rfl
    simp [PerThreadMgr.count, PerThreadMgr.parked, here, Pc.polled, Pc.stolen, Pc.running,
      Pc.informing]
    omega
  | @stillMpi i t k lt here state =>
    have hshape := (hσ.thread i lt).shape
    rw [PerThreadMgr.Shape, here] at hshape
    have hperm := (perm_eraseIdx (hshape k rfl)).count_eq u
    refine .keep lt rfl ?_ (fun _ ↦ rfl) (fun _ ↦ rfl) fun _ ↦ rfl
    simp [PerThreadMgr.count, PerThreadMgr.parked, here, Pc.polled, Pc.stolen, Pc.running,
      Pc.informing, List.count_cons] at hperm ⊢
    omega
  | handleWait lt here state blockedBy =>
    exact .keep lt rfl (PerThreadMgr.count_goOn here rfl rfl) (fun _ ↦ rfl) (fun _ ↦ rfl)
      fun _ ↦ rfl
  | @handleOther i t p lt here state =>
    have hhand := hσ.hand_at lt here
    have hterm : (σ.task t).state = .terminated := state.resolve_right hhand.1
    have hslot : (σ.goto i (afterTask p)).slot u = σ.slot u := Sched.slot_congr rfl fun _ ↦ rfl
    by_cases hu : u = t
    · subst hu
      refine .leave (Sched.occ_pred_of_update lt rfl ?_) hterm rfl
      rw [hslot, PerThreadMgr.count_afterTask rfl]
      simp [PerThreadMgr.count, PerThreadMgr.parked, here, Pc.running, Pc.informing]
      omega
    · refine .stay (Sched.occ_eq_of_update lt rfl ?_) rfl
      rw [hslot, PerThreadMgr.count_afterTask rfl]
      simp [PerThreadMgr.count, PerThreadMgr.parked, here, Pc.running, Pc.informing, Ne.symm hu]
  | resumeLock lt here free =>
    exact .keep lt rfl (PerThreadMgr.count_goOn here rfl rfl) (fun _ ↦ rfl) (fun _ ↦ rfl)
      (apply_update_eq TaskGroup.blockedTask (by rfl))
  | resumeZero lt here zero =>
    exact .keep lt rfl (PerThreadMgr.count_goOn here rfl rfl)
      (apply_update_eq Task.waiting (by rfl)) (apply_update_eq Task.spawned (by rfl)) fun _ ↦ rfl
  | @resumeBlock i t g p lt here blocking =>
    have hhand := hσ.hand_at lt here
    have hcount : 0 < (σ.thread i).count t :=
      PerThreadMgr.count_pos_of_running (by rw [here]; exact List.mem_singleton_self t)
    let σ' := (σ.setGroup g { σ.group g with blockedTask := some t }).goto i
      (.task t p (.resume g (.unlock false)))
    have hgroup : ∀ g', g' ≠ g → σ'.group g' = σ.group g' := fun g' hg' ↦
      Function.update_of_ne hg' _ _
    have hblock : (σ'.group g).blockedTask = some t := by
      simp [σ', Sched.goto]
    refine .stay (Sched.occ_eq_of_update lt (show σ'.thread = _ from rfl) ?_) rfl
    by_cases hu : u = t
    · subst hu
      have hslot : σ'.slot u = 1 := Sched.slot_of_blocked hhand.waiting hblock
      rw [hslot, hσ.slot_eq_zero lt hcount]
      simp [PerThreadMgr.count, PerThreadMgr.parked, here, Pc.running, Pc.informing]
    · have hslot : σ'.slot u = σ.slot u := by
        refine Sched.slot_congr_iff rfl fun g' ↦ ?_
        by_cases hg' : g' = g
        · -- Another task in `blockedTask` would wait for the group too.
          have hne : (σ.group g).blockedTask ≠ some u := fun h ↦
            hu (hσ.waiter g u t (hσ.blocked g u h).waiting hhand.waiting)
          rw [hg', hblock]
          simp [hne, Ne.symm hu]
        · rw [hgroup g' hg']
      rw [hslot]
      simp [PerThreadMgr.count, PerThreadMgr.parked, here, Pc.running, Pc.informing, Ne.symm hu]
  | @resumeUnlock i t g p result lt here =>
    refine .keep lt rfl ?_ (fun _ ↦ rfl) (fun _ ↦ rfl)
      (apply_update_eq TaskGroup.blockedTask (by rfl))
    cases result with
    | true => exact PerThreadMgr.count_goOn here rfl rfl
    | false =>
      rw [if_neg (by simp), PerThreadMgr.count_afterTask rfl]
      simp [PerThreadMgr.count, PerThreadMgr.parked, here, Pc.running, Pc.informing]
  | @requeue i t p lt here =>
    refine .keep lt rfl ?_ (apply_update_eq Task.waiting (by rfl))
      (apply_update_eq Task.spawned (by rfl)) fun _ ↦ rfl
    rw [PerThreadMgr.count_afterTask rfl]
    simp [PerThreadMgr.count, PerThreadMgr.parked, here, Pc.running, Pc.informing]
    omega
  | @erase i k t lt here entry =>
    have hperm := (erase_perm_eraseIdx entry).count_eq u
    refine .keep lt rfl ?_ (fun _ ↦ rfl) (fun _ ↦ rfl) fun _ ↦ rfl
    simp [PerThreadMgr.count, PerThreadMgr.parked, here, Pc.polled, Pc.stolen, Pc.running,
      Pc.informing, hperm]

/-! ## What a group holds -/

theorem Step.same_or_held {N : ℕ} {σ σ' : Sched} {l : Label} (h : Step N σ l σ') (hσ : σ.Ok N)
    (u : ℕ) : (σ'.task u).Same (σ.task u) ∨ ∃ i < N, 0 < (σ.thread i).count u := by
  have hupdate : ∀ {i c : ℕ} {a : Task}, i < N → 0 < (σ.thread i).count c →
      σ'.task = Function.update σ.task c a →
      (σ'.task u).Same (σ.task u) ∨ ∃ i < N, 0 < (σ.thread i).count u := by
    intro i c a hi hc htask
    by_cases hu : u = c
    · exact Or.inr ⟨i, hi, by rwa [hu]⟩
    · rw [htask, Function.update_of_ne hu]
      exact Or.inl (.refl _)
  have hhand : ∀ {i c : ℕ} {p : Option ℕ} {act : Activity}, (σ.thread i).pc = .task c p act →
      c ∈ (Pc.task c p act).running → 0 < (σ.thread i).count c := fun here hc ↦
    PerThreadMgr.count_pos_of_running (by rwa [here])
  cases h with
  | terminateGracefully | control | steal | install | waitDone | destroy | informLock
  | informDecrement | informTake | informNobody | informUnlock | handleRunnable | handleMpi
  | stillMpi | handleWait | handleOther | resumeLock | resumeBlock | resumeUnlock | erase =>
    exact Or.inl (.refl _)
  | newTask isPure lt client =>
    have hnew : σ.task σ.next = {} := hσ.made _ le_rfl
    exact Or.inl (Task.same_update (by rw [hnew]; exact ⟨rfl, rfl, rfl, rfl, rfl, fun _ ↦ id⟩) u)
  | addRunnable lt client made once =>
    exact Or.inl (Task.same_update (by exact ⟨rfl, rfl, rfl, rfl, rfl, fun _ ↦ id⟩) u)
  | registe lt here made unlocked room alive accepted =>
    refine Or.inl (Task.same_update ?_ u)
    rw [Task.addToGroup, accepted]
    exact ⟨rfl, rfl, rfl, rfl, rfl, List.subset_append_left _ _⟩
  | registeFini lt here made unlocked alive rejected =>
    refine Or.inl (Task.same_update ?_ u)
    rw [Task.addToGroup, rejected]
    exact ⟨rfl, rfl, rfl, rfl, rfl, fun _ ↦ id⟩
  | dequeue lt here queue =>
    refine hupdate lt (PerThreadMgr.count_pos_of_stored ?_) rfl
    rw [PerThreadMgr.mem_stored, queue]
    exact Or.inl List.mem_cons_self
  | pollTask lt here entry =>
    refine hupdate lt (PerThreadMgr.count_pos_of_stored ?_) rfl
    rw [PerThreadMgr.mem_stored, PerThreadMgr.parked, here]
    exact Or.inr (Or.inl (List.mem_of_getElem? entry))
  | @informEnqueue i c g w p rest lt here =>
    refine hupdate lt (PerThreadMgr.count_pos_of_informing ?_) rfl
    rw [here]
    exact List.mem_singleton_self w
  | waitYield lt here | yield lt here | terminate lt here | terminated lt here | resumeZero lt here
  | requeue lt here => exact hupdate lt (hhand here (List.mem_singleton_self _)) rfl

theorem Step.blockedTask {N : ℕ} {σ σ' : Sched} {l : Label} (h : Step N σ l σ') (hσ : σ.Ok N)
    {g t : ℕ} (hb : (σ'.group g).blockedTask = some t) :
    (σ.group g).blockedTask = some t ∨ (σ'.task t).Waits g := by
  cases h with
  | terminateGracefully | newTask | addRunnable | control | dequeue | steal | install | pollTask
  | yield | terminate | informNobody | informEnqueue | terminated | handleRunnable | handleMpi
  | stillMpi | handleWait | handleOther | resumeZero | requeue | erase => exact Or.inl hb
  | registe lt here made unlocked room alive accepted =>
    rw [Task.addToGroup, accepted] at hb
    exact Or.inl ((apply_update_eq TaskGroup.blockedTask (by rfl) g).symm.trans hb)
  | registeFini lt here made unlocked alive rejected =>
    rw [Task.addToGroup, rejected] at hb
    exact Or.inl ((apply_update_eq TaskGroup.blockedTask (by rfl) g).symm.trans hb)
  | waitDone | waitYield | destroy | informLock | informDecrement | informUnlock | resumeLock
  | resumeUnlock =>
    exact Or.inl ((apply_update_eq TaskGroup.blockedTask (by rfl) g).symm.trans hb)
  | @informTake i c g' w p rest lt here blocked =>
    by_cases hg : g = g'
    · subst hg
      simp [Sched.goto, TaskGroup.take] at hb
    · exact Or.inl ((congrArg _ (Function.update_of_ne hg _ _)).symm.trans hb)
  | @resumeBlock i t' g' p lt here blocking =>
    have hhand := hσ.hand_at lt here
    by_cases hg : g = g'
    · subst hg
      simp only [Sched.goto, Sched.setThread_group, Sched.setGroup_group, Function.update_self,
        Option.some.injEq] at hb
      subst hb
      exact Or.inr hhand
    · exact Or.inl ((congrArg _ (Function.update_of_ne hg _ _)).symm.trans hb)

/-! ## The invariant -/

theorem Step.outside {N : ℕ} {σ σ' : Sched} {l : Label} (h : Step N σ l σ') {j : ℕ} (hj : N ≤ j) :
    σ'.thread j = σ.thread j := by
  have hne : ∀ {i : ℕ}, i < N → j ≠ i := fun hi h ↦ by omega
  cases h with
  | terminateGracefully | newTask | registe | registeFini | waitDone | destroy => rfl
  | steal lt here victim =>
    rw [Sched.goto, Sched.setThread_thread, Function.update_of_ne (hne lt), Sched.setThread_thread,
      Function.update_of_ne (hne victim)]
  | addRunnable lt | control lt | dequeue lt | install lt | pollTask lt | waitYield lt | yield lt
  | terminate lt | informLock lt | informDecrement lt | informTake lt | informNobody lt
  | informEnqueue lt | informUnlock lt | terminated lt | handleRunnable lt | handleMpi lt
  | stillMpi lt | handleWait lt | handleOther lt | resumeLock lt | resumeZero lt | resumeBlock lt
  | resumeUnlock lt | requeue lt | erase lt => exact Function.update_of_ne (hne lt) _ _

theorem Step.made {N : ℕ} {σ σ' : Sched} {l : Label} (h : Step N σ l σ') (hσ : σ.Ok N) {t : ℕ}
    (ht : σ'.next ≤ t) : σ'.task t = {} := by
  have hupdate : ∀ {c : ℕ} {a : Task}, c < σ.next → σ.next ≤ t →
      Function.update σ.task c a t = {} := fun hc ht ↦ by
    rw [Function.update_of_ne (by omega)]
    exact hσ.made t ht
  have hheld : ∀ {i c : ℕ} {a : Task}, i < N → 0 < (σ.thread i).count c → σ.next ≤ t →
      Function.update σ.task c a t = {} := fun hi hc ht ↦
    hupdate (hσ.lt_next (hσ.spawned_of_count hi hc)) ht
  have hhand : ∀ {i c : ℕ} {p : Option ℕ} {act : Activity}, (σ.thread i).pc = .task c p act →
      c ∈ (Pc.task c p act).running → 0 < (σ.thread i).count c := fun here hc ↦
    PerThreadMgr.count_pos_of_running (by rwa [here])
  cases h with
  | terminateGracefully | control | steal | install | waitDone | destroy | informLock
  | informDecrement | informTake | informNobody | informUnlock | handleRunnable | handleMpi
  | stillMpi | handleWait | handleOther | resumeLock | resumeBlock | resumeUnlock | erase =>
    exact hσ.made t ht
  | newTask isPure lt client =>
    have hlt : σ.next + 1 ≤ t := ht
    exact (Function.update_of_ne (by omega) _ _).trans (hσ.made t (by omega))
  | addRunnable lt client made once => exact hupdate made ht
  | registe lt here made unlocked room alive accepted => exact hupdate made ht
  | registeFini lt here made unlocked alive rejected => exact hupdate made ht
  | dequeue lt here queue =>
    refine hheld lt (PerThreadMgr.count_pos_of_stored ?_) ht
    rw [PerThreadMgr.mem_stored, queue]
    exact Or.inl List.mem_cons_self
  | pollTask lt here entry =>
    refine hheld lt (PerThreadMgr.count_pos_of_stored ?_) ht
    rw [PerThreadMgr.mem_stored, PerThreadMgr.parked, here]
    exact Or.inr (Or.inl (List.mem_of_getElem? entry))
  | @informEnqueue i c g w p rest lt here =>
    refine hheld lt (PerThreadMgr.count_pos_of_informing ?_) ht
    rw [here]
    exact List.mem_singleton_self w
  | waitYield lt here | yield lt here | terminate lt here | terminated lt here | resumeZero lt here
  | requeue lt here => exact hheld lt (hhand here (List.mem_singleton_self _)) ht

/-- **One step** keeps the invariant, if nobody else waits on a group that a task waits on. -/
theorem Step.ok {N : ℕ} {σ σ' : Sched} {l : Label} (h : Step N σ l σ') (hσ : σ.Ok N)
    (hl : σ.OneWaiter l) : σ'.Ok N := by
  obtain ⟨c, hother, hlife⟩ := h.life hσ
  have hflow := h.flow hσ
  have hterm : ∀ t, (σ.task t).state = .terminated → (σ'.task t).state = .terminated := by
    intro t ht
    by_cases htc : t = c
    · subst htc
      exact hlife.terminated (hσ.task t) ht
    · rwa [hother t htc]
  have hwaiting : ∀ g t, (σ'.task t).waiting = some g →
      (σ.task t).waiting = some g ∨ l = .wait t g false := by
    intro g t ht
    by_cases htc : t = c
    · subst htc
      exact hlife.waiting ht
    · exact Or.inl (by rwa [← hother t htc])
  constructor
  case once =>
    intro t
    have := hσ.once t
    have hpos := hσ.spawned t
    cases hflow t with
    | stay hocc => omega
    | enter hocc hnew =>
      have : ¬0 < σ.occ N t := fun h ↦ absurd ((hpos h).symm.trans hnew) (by simp)
      omega
    | leave hocc => omega
  case kept =>
    intro t hspawned hlive
    have hlive' : (σ.task t).state ≠ .terminated := fun h ↦ hlive (hterm t h)
    cases hflow t with
    | stay hocc hs =>
      rw [hocc]
      exact hσ.kept t (hs.symm.trans hspawned) hlive'
    | enter hocc => omega
    | leave hocc ht => exact absurd ht hlive'
  case spawned =>
    intro t hpos
    cases hflow t with
    | stay hocc hs =>
      rw [hs]
      exact hσ.spawned t (by omega)
    | enter _ _ hs => exact hs
    | leave hocc _ hs =>
      rw [hs]
      exact hσ.spawned t (by omega)
  case task =>
    intro t
    by_cases htc : t = c
    · subst htc
      exact hlife.ok (hσ.task t)
    · rw [hother t htc]
      exact hσ.task t
  case made => exact fun t ht ↦ h.made hσ ht
  case thread => exact h.thread hσ
  case outside => exact fun i hi ↦ (h.outside hi).trans (hσ.outside i hi)
  case blocked =>
    intro g t hb
    rcases h.blockedTask hσ hb with hold | hnew
    · rcases h.same_or_held hσ t with hsame | ⟨i, hi, hcount⟩
      · exact (hσ.blocked g t hold).same hsame
      · exact absurd hold (hσ.not_blocked hi hcount)
    · exact hnew
  case waiter =>
    intro g t u ht hu
    rcases hwaiting g t ht with ht | rfl <;> rcases hwaiting g u hu with hu | hu
    · exact hσ.waiter g t u ht hu
    · subst hu
      exact hl t ht
    · exact (hl u hu).symm
    · exact (Label.wait.inj hu).1

/-- A step of a program in which only one task at a time waits on a group. -/
def OneWaiterStep (N : ℕ) (σ : Sched) (l : Label) (σ' : Sched) : Prop :=
  Step N σ l σ' ∧ σ.OneWaiter l

/-- **A whole run** keeps the invariant. -/
theorem Sched.Ok.of_reachable {N : ℕ} {σ : Sched}
    (h : Transition.Reachable (OneWaiterStep N) Sched.initial σ) : σ.Ok N :=
  h.invariant (.initial N) fun _ _ _ hσ hstep ↦ hstep.1.ok hσ hstep.2

end TYThread
