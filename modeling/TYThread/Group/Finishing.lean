import Mathlib.Data.List.ReduceOption
import TYThread.Group.Join
import TYThread.Group.Workload

/-!
# The shutdown comes to an end

The shutdown has been asked for, and tasks do no more than return from their callbacks. Then some
thread can always go on without stealing, until all have left `run`: who waits for a lock waits for
a thread that is inside `informDone` or `resumeIfNothingToWait` and goes on there, and the main
thread waits for threads that have not left. Since there is a bound for the steps between two
thefts, only endless thefts can keep the threads from leaving. And they can: two threads may steal a
task from each other for ever, and it never gets control.
-/

namespace TYThread

open Counting Transition

/-! ## What the threads find -/

/-- What lets the threads go on. -/
structure Sched.Going (σ : Sched) : Prop where
  erase : ∀ i k, (σ.thread i).pc = .erase k → k < (σ.thread i).mpiBlockedQueue.length
  join : ∀ i c, (σ.thread i).pc = .join c → i = 0 ∧ 0 < c
  locked : ∀ t, (σ.task t).locked = true → (σ.task t).state = .terminated

variable {N i j c g k : ℕ} {owner : ℕ → ℕ} {r : ℕ → ℕ → Prop} {σ σ' : Sched} {l : Label}

/-- A thread comes to erase an entry from the task that it has got back, and nobody else changes its
`mpi_blocked_queue`. -/
theorem Step.erasing (h : Step N σ l σ') (hpc : (σ'.thread j).pc = .erase k) :
    (σ'.thread j).mpiBlockedQueue = (σ.thread j).mpiBlockedQueue ∧
      ((σ.thread j).pc = .erase k ∨ ∃ t act, (σ.thread j).pc = .task t (some k) act) := by
  -- The thread `i` acts.
  have hupdate : ∀ {i : ℕ} {m : PerThreadMgr}, σ'.thread = Function.update σ.thread i m →
      (m.pc = .erase k → m.mpiBlockedQueue = (σ.thread i).mpiBlockedQueue ∧
        ((σ.thread i).pc = .erase k ∨ ∃ t act, (σ.thread i).pc = .task t (some k) act)) →
      (σ'.thread j).mpiBlockedQueue = (σ.thread j).mpiBlockedQueue ∧
        ((σ.thread j).pc = .erase k ∨ ∃ t act, (σ.thread j).pc = .task t (some k) act) := by
    intro i m hthread hm
    rw [hthread] at hpc ⊢
    by_cases hji : j = i
    · rw [hji, Function.update_self] at hpc ⊢
      exact hm hpc
    · rw [Function.update_of_ne hji] at hpc ⊢
      exact ⟨rfl, Or.inl hpc⟩
  -- The thread `i` is done with the task `t`.
  have hdone : ∀ {i t : ℕ} {p : Option ℕ} {act : Activity} {m : PerThreadMgr},
      (σ.thread i).pc = .task t p act → σ'.thread = Function.update σ.thread i m →
      m.mpiBlockedQueue = (σ.thread i).mpiBlockedQueue → m.pc = afterTask p →
      (σ'.thread j).mpiBlockedQueue = (σ.thread j).mpiBlockedQueue ∧
        ((σ.thread j).pc = .erase k ∨ ∃ t act, (σ.thread j).pc = .task t (some k) act) := by
    intro i t p act m here hthread hqueue hm
    refine hupdate hthread fun hk ↦ ⟨hqueue, Or.inr ⟨t, act, ?_⟩⟩
    rw [here]
    cases p with
    | none =>
      rw [hm] at hk
      cases hk
    | some k' =>
      rw [hm] at hk
      rw [Pc.erase.inj hk]
  cases h with
  | terminateGracefully | newTask | registe | registeFini | waitDone | destroy =>
    exact ⟨rfl, Or.inl hpc⟩
  | addRunnable lt client => exact hupdate rfl fun hk ↦ ⟨rfl, Or.inl hk⟩
  | control lt here move =>
    refine hupdate rfl fun hk ↦ ?_
    cases move <;> cases hk
  | @steal i v xs ys lt here victim ne =>
    by_cases hji : j = i
    · rw [hji] at hpc
      simp [Sched.goto] at hpc
    · rw [Sched.goto, Sched.setThread_thread, Function.update_of_ne hji] at hpc ⊢
      have hv : ∀ {α : Type} (F : PerThreadMgr → α), F { σ.thread v with runnableQueue := ys } =
          F (σ.thread v) → F ((σ.setThread v { σ.thread v with runnableQueue := ys }).thread j) =
            F (σ.thread j) := fun F hF ↦ apply_update_eq F hF j
      exact ⟨hv PerThreadMgr.mpiBlockedQueue rfl, Or.inl ((hv PerThreadMgr.pc rfl).symm.trans hpc)⟩
  | erase lt here | dequeue lt here | install lt here | pollTask lt here | waitYield lt here
  | yield lt here | terminate lt here | informLock lt here | informDecrement lt here
  | informTake lt here | informNobody lt here | informEnqueue lt here | informUnlock lt here
  | terminated lt here | handleMpi lt here | stillMpi lt here | handleWait lt here
  | resumeLock lt here | resumeZero lt here | resumeBlock lt here =>
    exact hupdate rfl (by rintro ⟨⟩)
  | handleRunnable lt here | handleOther lt here | requeue lt here => exact hdone here rfl rfl rfl
  | @resumeUnlock i t g p result lt here =>
    cases result with
    | true => exact hupdate rfl (by rintro ⟨⟩)
    | false => exact hdone here rfl rfl rfl

theorem Life.locked {a a' : Task} (h : Life c a l a') (ha : a.Ok)
    (hlocked : a.locked = true → a.state = .terminated) (h' : a'.locked = true) :
    a'.state = .terminated := by
  cases h with
  | idle | spawn | registe | requeue => exact hlocked h'
  | make | unlock => cases h'
  | terminate => rfl
  | back spawned live | wait spawned live | yield spawned live => exact absurd (hlocked h') live
  | wake spawned waiting | resume spawned waiting => exact absurd (hlocked h') (ha.live waiting)

namespace Sched.Going

theorem initial : Sched.initial.Going := by
  have hpc : ∀ i, (Sched.initial.thread i).pc = .main ∨ (Sched.initial.thread i).pc = .loop :=
    fun i ↦ by by_cases hi : i = 0 <;> simp [Sched.initial, hi]
  constructor
  · intro i k h
    rcases hpc i with hi | hi <;> rw [hi] at h <;> cases h
  · intro i c h
    rcases hpc i with hi | hi <;> rw [hi] at h <;> cases h
  · intro t h
    cases h

theorem of_step (hσ : σ.Going) (hok : σ.Ok N) (h : Step N σ l σ') : σ'.Going := by
  constructor
  case erase =>
    intro j k hpc
    obtain ⟨hqueue, hk | ⟨t, act, here⟩⟩ := h.erasing hpc
    · rw [hqueue]
      exact hσ.erase j k hk
    · have hj : j < N := by
        by_contra hle
        rw [hok.outside j (not_lt.mp hle), Sched.initial] at here
        by_cases hj : j = 0 <;> simp [hj] at here
      have hshape := (hok.thread j hj).shape
      rw [PerThreadMgr.Shape, here] at hshape
      rw [hqueue]
      exact (List.getElem?_eq_some_iff.mp (hshape k rfl)).1
  case join =>
    intro j c hpc
    rcases h.pc_cases j with hsame | hmove | ⟨-, hleave⟩
    · exact hσ.join j c (hsame.symm.trans hpc)
    · rw [hpc] at hmove
      generalize here : (σ.thread j).pc = pc at hmove
      cases hmove with
      | sweep stop root => exact ⟨root, Nat.one_pos⟩
      | @joined c lt child => exact ⟨(hσ.join j c here).1, Nat.succ_pos c⟩
    · rw [hpc] at hleave
      exact absurd trivial hleave
  case locked =>
    intro t ht
    obtain ⟨c, hother, hlife⟩ := h.life hok
    by_cases htc : t = c
    · subst htc
      exact hlife.locked (hok.task t) (hσ.locked t) ht
    · rw [hother t htc] at ht ⊢
      exact hσ.locked t ht

end Sched.Going

/-! ## Some thread can go on -/

/-- A thread that goes from `pc` to `pc'` gets on, does not yield and steals nothing. -/
def Pc.Forth (pc pc' : Pc) : Prop :=
  pc' ≠ pc ∧ (∀ c p, pc = .task c p .user → pc' ≠ .task c p .switched) ∧ ∀ xs, pc' ≠ .install xs

theorem Pc.forth_afterTask (t : ℕ) (p : Option ℕ) (act : Activity) :
    Pc.Forth (.task t p act) (afterTask p) := by
  cases p <;> simp [Forth, afterTask]

/-- The group whose lock the thread is about to take. -/
def Pc.wanting : Pc → Option ℕ
  | .task _ _ (.terminating (g :: _)) => some g
  | .task _ _ (.resume g .lock) => some g
  | _ => none

theorem Pc.task_of_holding {pc : Pc} (h : pc.holding = some g) :
    (∃ t p act, pc = .task t p act) ∧ pc.wanting = none := by
  cases pc with
  | task t p act =>
    refine ⟨⟨t, p, act, rfl⟩, ?_⟩
    cases act with
    | inform => rfl
    | resume g' phase =>
      cases phase with
      | lock => cases h
      | test | unlock => rfl
    | user | terminating | switched | requeue => cases h
  | _ => cases h

theorem FinishingStep.of_update {pc : Pc} {m : PerThreadMgr} (h : Step N σ l σ')
    (here : (σ.thread i).pc = pc) (hthread : σ'.thread = Function.update σ.thread i m)
    (hforth : pc.Forth m.pc) : FinishingStep N σ false σ' := by
  obtain ⟨hne, huser, hinstall⟩ := hforth
  have hself : σ'.pcs i = m.pc := by rw [Sched.pcs, hthread, Function.update_self]
  have hother : ∀ j ≠ i, σ'.pcs j = σ.pcs j := fun j hj ↦ by
    rw [Sched.pcs, hthread, Function.update_of_ne hj, Sched.pcs]
  refine ⟨⟨l, h⟩, ⟨i, ?_⟩, fun j c p hj ↦ ?_, by simp, ?_⟩
  · rwa [hself, Sched.pcs, here]
  · by_cases hji : j = i
    · rw [hji, hself]
      rw [hji, Sched.pcs, here] at hj
      exact huser c p hj
    · rw [hother j hji, hj]
      simp
  · rintro ⟨j, v, xs, hv, hxs⟩
    by_cases hji : j = i
    · rw [hji, hself] at hxs
      exact absurd hxs (hinstall xs)
    · rw [hother j hji, hv] at hxs
      cases hxs

namespace Sched.Going

/-- A thread that has a task can go on, unless it has to wait for a lock. -/
theorem exists_task_step (hσ : σ.Going) (hok : σ.Ok N) (hi : i < N) {t : ℕ} {p : Option ℕ}
    {act : Activity} (here : (σ.thread i).pc = .task t p act)
    (hfree : ∀ g, (Pc.task t p act).wanting = some g → (σ.group g).lock = none) :
    ∃ σ', FinishingStep N σ false σ' := by
  have hhand := hok.hand_at hi here
  cases act with
  | user =>
    have hunlocked : (σ.task t).locked = false := by
      by_contra hlocked
      exact hhand.1 (hσ.locked t (Bool.not_eq_false _ ▸ hlocked))
    exact ⟨_, .of_update (.terminate hi here hunlocked) here rfl (by simp [Pc.Forth])⟩
  | terminating rest =>
    cases rest with
    | nil => exact ⟨_, .of_update (.terminated hi here) here rfl (by simp [Pc.Forth])⟩
    | cons g rest =>
      exact ⟨_, .of_update (.informLock hi here (hfree g rfl)) here rfl (by simp [Pc.Forth])⟩
  | inform g rest phase =>
    cases phase with
    | decrement =>
      refine ⟨_, .of_update (.informDecrement hi here) here rfl ?_⟩
      dsimp only
      split_ifs <;> simp [Pc.Forth]
    | take =>
      cases hblocked : (σ.group g).blockedTask with
      | none => exact ⟨_, .of_update (.informNobody hi here hblocked) here rfl (by simp [Pc.Forth])⟩
      | some w => exact ⟨_, .of_update (.informTake hi here hblocked) here rfl (by simp [Pc.Forth])⟩
    | enqueue w => exact ⟨_, .of_update (.informEnqueue hi here) here rfl (by simp [Pc.Forth])⟩
    | unlock => exact ⟨_, .of_update (.informUnlock hi here) here rfl (by simp [Pc.Forth])⟩
  | switched =>
    cases hstate : (σ.task t).state with
    | runnable =>
      exact ⟨_, .of_update (.handleRunnable hi here hstate) here rfl (Pc.forth_afterTask ..)⟩
    | mpiBlocked =>
      cases p with
      | none => exact ⟨_, .of_update (.handleMpi hi here hstate) here rfl (by simp [Pc.Forth])⟩
      | some k => exact ⟨_, .of_update (.stillMpi hi here hstate) here rfl (by simp [Pc.Forth])⟩
    | groupWait =>
      obtain ⟨g, hblockedBy, -⟩ := hhand.2.1 hstate
      exact ⟨_, .of_update (.handleWait hi here hstate hblockedBy) here rfl (by simp [Pc.Forth])⟩
    | terminated =>
      exact ⟨_, .of_update (.handleOther hi here (Or.inl hstate)) here rfl (Pc.forth_afterTask ..)⟩
    | initial =>
      exact ⟨_, .of_update (.handleOther hi here (Or.inr hstate)) here rfl (Pc.forth_afterTask ..)⟩
  | resume g phase =>
    cases phase with
    | lock =>
      exact ⟨_, .of_update (.resumeLock hi here (hfree g rfl)) here rfl (by simp [Pc.Forth])⟩
    | test =>
      by_cases hzero : (σ.group g).blockingCount = 0
      · exact ⟨_, .of_update (.resumeZero hi here hzero) here rfl (by simp [Pc.Forth])⟩
      · exact ⟨_, .of_update (.resumeBlock hi here hzero) here rfl (by simp [Pc.Forth])⟩
    | unlock result =>
      refine ⟨_, .of_update (.resumeUnlock hi here) here rfl ?_⟩
      cases result with
      | true => simp [Pc.Forth]
      | false => exact Pc.forth_afterTask ..
  | requeue => exact ⟨_, .of_update (.requeue hi here) here rfl (Pc.forth_afterTask ..)⟩

/-- While a thread has a task, some thread can go on: this one, or the one that holds the lock it
waits for. -/
theorem exists_step_of_task (hσ : σ.Going) (hgrouped : σ.Grouped N owner) (hi : i < N) {t : ℕ}
    {p : Option ℕ} {act : Activity} (here : (σ.thread i).pc = .task t p act) :
    ∃ σ', FinishingStep N σ false σ' := by
  by_cases hfree : ∀ g, (Pc.task t p act).wanting = some g → (σ.group g).lock = none
  · exact hσ.exists_task_step hgrouped.ok hi here hfree
  · push Not at hfree
    obtain ⟨g, -, hlock⟩ := hfree
    obtain ⟨j, hj⟩ := Option.ne_none_iff_exists'.mp hlock
    obtain ⟨hjN, hholding⟩ := (hgrouped.holder g j).mp hj
    obtain ⟨⟨u, q, act', hpc⟩, hwanting⟩ := Pc.task_of_holding hholding
    refine hσ.exists_task_step hgrouped.ok hjN hpc fun g' hg' ↦ ?_
    rw [← hpc, hwanting] at hg'
    cases hg'

/-- A thread can go on, or another one can, unless it waits for a child. -/
theorem exists_step_of_thread (hσ : σ.Going) (hgrouped : σ.Grouped N owner)
    (hstop : σ.terminatable = true) (hi : i < N) (hexited : (σ.thread i).pc ≠ .exited)
    (hjoin : ∀ c, (σ.thread i).pc ≠ .join c)
    (hsteal : ∀ v, (σ.thread i).pc = .steal v → v < N → v ≠ i → (σ.thread v).runnableQueue = []) :
    ∃ σ', FinishingStep N σ false σ' := by
  have hcontrol : ∀ {pc pc' : Pc}, (σ.thread i).pc = pc → Control N σ i pc pc' → pc.Forth pc' →
      ∃ σ', FinishingStep N σ false σ' := fun here move hforth ↦
    ⟨_, .of_update (.control hi here move) here rfl hforth⟩
  cases here : (σ.thread i).pc with
  | main => exact hcontrol here .start (by simp [Pc.Forth])
  | loop =>
    cases hqueue : (σ.thread i).runnableQueue with
    | nil => exact hcontrol here (.empty hqueue) (by simp [Pc.Forth])
    | cons t ts => exact ⟨_, .of_update (.dequeue hi here hqueue) here rfl (by simp [Pc.Forth])⟩
  | steal v =>
    by_cases hv : N ≤ v
    · exact hcontrol here (.unsuccessful hv) (by simp [Pc.Forth])
    · by_cases hvi : v = i
      · subst hvi
        exact hcontrol here .self (by simp [Pc.Forth])
      · have hnothing := hsteal v here (not_le.mp hv) hvi
        exact hcontrol here (.nothing (not_le.mp hv) hvi hnothing) (by simp [Pc.Forth])
  | install xs => exact ⟨_, .of_update (.install hi here) here rfl (by simp [Pc.Forth])⟩
  | checkMpi =>
    by_cases hqueue : (σ.thread i).mpiBlockedQueue = []
    · exact hcontrol here (.noMpi hqueue) (by simp [Pc.Forth])
    · exact hcontrol here (.someMpi hqueue) (by simp [Pc.Forth])
  | poll k =>
    by_cases hk : (σ.thread i).mpiBlockedQueue.length ≤ k
    · exact hcontrol here (.polled hk) (by simp [Pc.Forth])
    · have hentry := List.getElem?_eq_getElem (not_le.mp hk)
      exact ⟨_, .of_update (.pollTask hi here hentry) here rfl (by simp [Pc.Forth])⟩
  | task t p act => exact hσ.exists_step_of_task hgrouped hi here
  | erase k =>
    have hentry := List.getElem?_eq_getElem (hσ.erase i k here)
    exact ⟨_, .of_update (.erase hi here hentry) here rfl (by simp [Pc.Forth])⟩
  | idle =>
    by_cases hroot : i = 0
    · exact hcontrol here (.sweep hstop hroot) (by simp [Pc.Forth])
    · exact hcontrol here (.leave hstop hroot) (by simp [Pc.Forth])
  | join c => exact absurd here (hjoin c)
  | exited => exact absurd here hexited

/-- **Never stuck.** While a thread has not left `run`, some thread can go on without stealing. -/
theorem exists_step (hσ : σ.Going) (hgrouped : σ.Grouped N owner) (hstop : σ.terminatable = true)
    (hi : i < N) (hexited : (σ.thread i).pc ≠ .exited) : ∃ σ', FinishingStep N σ false σ' := by
  -- A thread that steals finds nothing, or comes upon a thread that has something to do.
  have hthread : ∀ j < N, (σ.thread j).pc ≠ .exited → (∀ c, (σ.thread j).pc ≠ .join c) →
      ∃ σ', FinishingStep N σ false σ' := by
    intro j hj hpc hjoin
    by_cases hsteal : ∀ v, (σ.thread j).pc = .steal v → v < N → v ≠ j →
      (σ.thread v).runnableQueue = []
    · exact hσ.exists_step_of_thread hgrouped hstop hj hpc hjoin hsteal
    · push Not at hsteal
      obtain ⟨v, -, hv, -, hqueue⟩ := hsteal
      have hshape := (hgrouped.ok.thread v hv).shape
      rw [PerThreadMgr.Shape] at hshape
      refine hσ.exists_step_of_thread hgrouped hstop hv (fun hpc ↦ ?_) (fun c hpc ↦ ?_)
        fun u hpc _ _ ↦ ?_
      · rw [hpc] at hshape
        exact hqueue hshape.1
      · rw [hpc] at hshape
        exact hqueue hshape.1
      · rw [hpc] at hshape
        exact absurd hshape hqueue
  by_cases hjoin : ∀ c, (σ.thread i).pc ≠ .join c
  · exact hthread i hi hexited hjoin
  · push Not at hjoin
    obtain ⟨c, here⟩ := hjoin
    by_cases hc : N ≤ c
    · exact ⟨_, .of_update (.control hi here (.swept hc)) here rfl (by simp [Pc.Forth])⟩
    · by_cases hchild : (σ.thread c).pc = .exited
      · exact ⟨_, .of_update (.control hi here (.joined (not_le.mp hc) hchild)) here rfl
          (by simp [Pc.Forth])⟩
      · -- Only the main thread joins.
        refine hthread c (not_le.mp hc) hchild fun d hd ↦ ?_
        have hpos := (hσ.join i c here).2
        have hzero := (hσ.join c d hd).1
        omega

end Sched.Going

/-- Where all threads have left `run`, a task that has not terminated is parked. -/
theorem Sched.Ok.terminated_or_blocked (hσ : σ.Ok N) (hexited : ∀ i < N, (σ.thread i).pc = .exited)
    {t : ℕ} (hspawned : (σ.task t).spawned = true) :
    (σ.task t).state = .terminated ∨ ∃ g, (σ.group g).blockedTask = some t := by
  by_cases hlive : (σ.task t).state = .terminated
  · exact Or.inl hlive
  · obtain ⟨p, hp⟩ := exists_place (hσ.kept t hspawned hlive)
    cases p with
    | thread i part =>
      rw [Sched.times, hσ.part_of_exited (hexited i (hσ.lt_of_part hp)) part] at hp
      exact absurd hp (lt_irrefl 0)
    | blocked g =>
      refine Or.inr ⟨g, ?_⟩
      by_contra hne
      rw [Sched.times, if_neg hne] at hp
      exact lt_irrefl 0 hp

/-! ## Runs -/

theorem Sched.Going.of_reachable (h : Reachable (OwnedStep N owner) Sched.initial σ) : σ.Going := by
  refine (h.invariant (I := fun σ ↦ σ.Grouped N owner ∧ σ.Going) ⟨.initial N owner, .initial⟩ ?_).2
  intro σ l σ' hσ hstep
  exact ⟨hσ.1.of_step hstep.1 hstep.2, hσ.2.of_step hσ.1.ok hstep.1⟩

theorem Step.terminatable (h : Step N σ l σ') (hstop : σ.terminatable = true) :
    σ'.terminatable = true := by
  cases h with
  | terminateGracefully => rfl
  | _ => exact hstop

theorem Label.Finishing.owned (h : l.Finishing) : l.Owned owner := by
  cases l with
  | back | other => trivial
  | registe | wait | destroy => exact absurd h id

theorem Label.Finishing.joinStep (h : l.Finishing) (hstep : Step N σ l σ') :
    JoinStep N owner r σ l σ' := by
  refine ⟨⟨hstep, h.owned⟩, ?_⟩
  rintro c t g rfl
  exact absurd h id

namespace Sched

theorem finishing {R : Sched → Label → Sched → Prop} {σ₀ : Sched}
    (hR : ∀ σ l σ', l.Finishing → Step N σ l σ' → R σ l σ') (hrun : Reachable R σ₀ σ)
    (h : Reachable (FinishingStep N) σ σ') : Reachable R σ₀ σ' := by
  refine h.invariant (I := Reachable R σ₀) hrun ?_
  intro τ theft τ' hτ hstep
  obtain ⟨l, hl, hlast⟩ := hstep.exists_step
  exact hτ.snoc (hR _ _ _ hl hlast)

/-- What holds while the program finishes. -/
structure Finishes (N : ℕ) (owner : ℕ → ℕ) (σ : Sched) : Prop where
  grouped : σ.Grouped N owner
  going : σ.Going
  stop : σ.terminatable = true

namespace Finishes

theorem of_reachable (h : Reachable (OwnedStep N owner) Sched.initial σ)
    (hstop : σ.terminatable = true) : σ.Finishes N owner :=
  ⟨.of_reachable h, .of_reachable h, hstop⟩

theorem of_step {theft : Bool} (hσ : σ.Finishes N owner) (h : FinishingStep N σ theft σ') :
    σ'.Finishes N owner := by
  obtain ⟨l, hl, hstep⟩ := h.exists_step
  exact ⟨hσ.grouped.of_step hstep hl.owned, hσ.going.of_step hσ.grouped.ok hstep,
    hstep.terminatable hσ.stop⟩

theorem of_run (hσ : σ.Finishes N owner) (h : Reachable (FinishingStep N) σ σ') :
    σ'.Finishes N owner :=
  h.invariant hσ fun _ _ _ hσ hstep ↦ hσ.of_step hstep

/-- **Never stuck**, and never without getting on. -/
theorem exists_step (hσ : σ.Finishes N owner) (h : ∃ i < N, (σ.thread i).pc ≠ .exited) :
    ∃ σ', FinishingStep N σ false σ' ∧ σ'.toDo N < σ.toDo N := by
  obtain ⟨i, hi, hpc⟩ := h
  obtain ⟨σ', hstep⟩ := hσ.going.exists_step hσ.grouped hσ.stop hi hpc
  exact ⟨σ', hstep, (hstep.progress hσ.grouped.ok hσ.stop).toDo⟩

theorem exists_exited (hσ : σ.Finishes N owner) :
    ∃ σ', Reachable (FinishingStep N) σ σ' ∧ ∀ i < N, (σ'.thread i).pc = .exited := by
  have hend : ∀ σ' : Sched, σ'.Finishes N owner → (∀ i < N, (σ'.thread i).pc = .exited) ∨
      ∃ theft σ'', FinishingStep N σ' theft σ'' ∧ σ''.Finishes N owner ∧
        σ''.toDo N < σ'.toDo N := by
    intro σ' hσ'
    by_cases hexited : ∀ i < N, (σ'.thread i).pc = .exited
    · exact Or.inl hexited
    · push Not at hexited
      obtain ⟨σ'', hstep, hless⟩ := hσ'.exists_step hexited
      exact Or.inr ⟨false, σ'', hstep, hσ'.of_step hstep, hless⟩
  obtain ⟨σ', h, -, hexited⟩ := Reachable.exists_final hσ hend
  exact ⟨σ', h, hexited⟩

end Finishes

end Sched

/-- **Only thefts delay the shutdown.** The shutdown has been asked for, and from now on tasks do no
more than return from their callbacks. Then there is a bound for the steps that all threads together
take between two thefts. While a thread has not left `run`, a step that is no theft is possible. So
all threads can leave `run`, and where they have, every task that was ever handed to `addRunnable`
has terminated or is in the `blockedTask` of a group. -/
theorem only_thefts_delay (hrun : Reachable (OwnedStep N owner) Sched.initial σ)
    (hstop : σ.terminatable = true) :
    (∃ bound, ∀ thefts σ', Run (FinishingStep N) σ thefts σ' →
      thefts.length ≤ bound * (thefts.count true + 1)) ∧
    (∀ σ', Reachable (FinishingStep N) σ σ' → (∃ i < N, (σ'.thread i).pc ≠ .exited) →
      ∃ σ'', FinishingStep N σ' false σ'') ∧
    ∃ σ', Reachable (FinishingStep N) σ σ' ∧ (∀ i < N, (σ'.thread i).pc = .exited) ∧
      ∀ t, (σ'.task t).spawned = true →
        (σ'.task t).state = .terminated ∨ ∃ g, (σ'.group g).blockedTask = some t := by
  have hσ := Sched.Finishes.of_reachable hrun hstop
  refine ⟨⟨σ.toDo N + 2 * Sched.round N, fun thefts σ' h ↦ ?_⟩, fun σ' h hpc ↦ ?_, ?_⟩
  · have hle := (h.length_le hσ fun τ theft τ' hτ hstep ↦
      ⟨hτ.of_step hstep, (hstep.progress hτ.grouped.ok hτ.stop).toDo⟩).2
    calc thefts.length ≤ σ.toDo N + 2 * Sched.round N * thefts.count true := by omega
      _ ≤ (σ.toDo N + 2 * Sched.round N) * (thefts.count true + 1) := by
        rw [Nat.add_mul, Nat.mul_succ, Nat.mul_succ]
        omega
  · obtain ⟨σ'', hstep, -⟩ := (hσ.of_run h).exists_step hpc
    exact ⟨σ'', hstep⟩
  · obtain ⟨σ', h, hexited⟩ := hσ.exists_exited
    exact ⟨σ', h, hexited, fun t ↦ (hσ.of_run h).grouped.ok.terminated_or_blocked hexited⟩

/-- **A program that joins its tasks can always be brought to its end**, from whatever it has come
to, by asking for the shutdown and having its tasks return. And once the shutdown has been asked
for, threads that cannot go on while tasks do no more than return have all left `run`, nobody is
parked, and every task that was ever handed to `addRunnable` has terminated. -/
theorem joins_finish [IsStrictOrder ℕ r] (hrun : Reachable (JoinStep N owner r) Sched.initial σ) :
    (∃ σ', Reachable (JoinStep N owner r) σ σ' ∧ (∀ i < N, (σ'.thread i).pc = .exited) ∧
      ∀ t, (σ'.task t).spawned = true → (σ'.task t).state = .terminated) ∧
    (σ.terminatable = true → ∀ σ', Reachable (FinishingStep N) σ σ' →
      (∀ σ'', ¬FinishingStep N σ' false σ'') →
      (∀ i < N, (σ'.thread i).pc = .exited) ∧ (∀ g, (σ'.group g).blockedTask = none) ∧
        ∀ t, (σ'.task t).spawned = true → (σ'.task t).state = .terminated) := by
  have hjoin : ∀ σ l σ', l.Finishing → Step N σ l σ' → JoinStep N owner r σ l σ' :=
    fun _ _ _ hl hstep ↦ hl.joinStep hstep
  have hfinishes : ∀ {τ : Sched}, Reachable (JoinStep N owner r) Sched.initial τ →
      τ.terminatable = true → τ.Finishes N owner := fun ⟨ls, hτ⟩ hstop ↦
    .of_reachable ⟨ls, (hτ.mono (I := fun _ ↦ True) trivial fun _ _ _ _ h ↦ ⟨h.1, trivial⟩).1⟩ hstop
  constructor
  · have hstop : Reachable (JoinStep N owner r) σ { σ with terminatable := true } :=
      (Reachable.refl _ σ).snoc (hjoin σ .other _ trivial .terminateGracefully)
    obtain ⟨σ', h, hexited⟩ := (hfinishes (hrun.trans hstop) rfl).exists_exited
    have hrun' := Sched.finishing hjoin hstop h
    exact ⟨σ', hrun', hexited, ((Sched.Joined.of_reachable (hrun.trans hrun')).finished hexited).2⟩
  · intro hstop σ' h hstuck
    have hexited : ∀ i < N, (σ'.thread i).pc = .exited := by
      by_contra hnot
      push Not at hnot
      obtain ⟨σ'', hstep, -⟩ := ((hfinishes hrun hstop).of_run h).exists_step hnot
      exact hstuck σ'' hstep
    exact ⟨hexited, (Sched.Joined.of_reachable (Sched.finishing hjoin hrun h)).finished hexited⟩

/-- A thread has stolen a task, and has not installed it, when the shutdown is asked for. -/
theorem only_thefts_delay_stolen :
    ∃ σ, Reachable (OwnedStep 2 fun _ ↦ 0) Sched.initial σ ∧ (σ.thread 1).pc = .install [0] ∧
      ∃ σ', Reachable (FinishingStep 2) σ σ' ∧ ∀ i < 2, (σ'.thread i).pc = .exited := by
  have hrun : Reachable (OwnedStep 2 fun _ ↦ 0) Sched.initial _ :=
    (((((Reachable.refl _ _).snoc
      ⟨Step.newTask (i := 0) false (by decide) trivial, trivial⟩).snoc
      ⟨Step.addRunnable (i := 0) (t := 0) (by decide) trivial (by decide) rfl, trivial⟩).snoc
      ⟨Step.control (i := 1) (by decide) rfl (.empty rfl), trivial⟩).snoc
      ⟨Step.steal (i := 1) (v := 0) (by decide) rfl (by decide) (by decide)
        (show _ = [0] ++ [] from rfl) (by decide), trivial⟩).snoc
      ⟨Step.terminateGracefully, trivial⟩
  obtain ⟨-, -, σ', hfinish, hexited, -⟩ := only_thefts_delay hrun rfl
  exact ⟨_, hrun, rfl, σ', hfinish, hexited⟩

/-- One task is parked until the other, which is in the queue, has terminated. -/
theorem joins_finish_parked :
    ∃ σ σ', Reachable (JoinStep 1 (fun _ ↦ 0) (· > ·)) Sched.initial σ ∧
      (σ.group 0).blockedTask = some 0 ∧ (σ.thread 0).runnableQueue = [1] ∧
      Reachable (JoinStep 1 (fun _ ↦ 0) (· > ·)) σ σ' ∧ (∀ i < 1, (σ'.thread i).pc = .exited) ∧
      ∀ t, (σ'.task t).spawned = true → (σ'.task t).state = .terminated := by
  obtain ⟨σ, hrun, hparked, hqueue⟩ := Sched.exists_joining
  obtain ⟨⟨σ', hfinish, hexited, hended⟩, -⟩ := joins_finish hrun
  exact ⟨σ, σ', hrun, hparked, hqueue, hfinish, hexited, hended⟩

/-! ## A task that is stolen for ever -/

/-- The thread `i` is about to take its only task, `t`, which the thread `j` is about to steal. -/
structure Sched.Chase (N i j t : ℕ) (σ : Sched) : Prop where
  victim : i < N
  thief : j < N
  ne : i ≠ j
  loop : (σ.thread i).pc = .loop
  only : (σ.thread i).runnableQueue = [t]
  steal : (σ.thread j).pc = .steal i
  nothing : ∀ v < N, v ≠ i → (σ.thread v).runnableQueue = []

/-- A step that does not give control to `t`. With `some (i, v)` the thread `i` steals `t` from the
thread `v`, with `none` nothing is stolen. -/
structure ChaseStep (N t : ℕ) (σ : Sched) (theft : Option (ℕ × ℕ)) (σ' : Sched) : Prop where
  finishing : FinishingStep N σ theft.isSome σ'
  waits : ∃ l, l ≠ .back t ∧ Step N σ l σ'
  steals : ∀ i v, theft = some (i, v) → v ≠ i ∧ (σ.thread i).pc = .steal v ∧
    t ∈ (σ.thread v).runnableQueue ∧ (σ'.thread i).pc = .install [t]

theorem FinishingStep.of_steal {v : ℕ} {xs ys : List ℕ} (hi : i < N) (hv : v < N) (hne : v ≠ i)
    (here : (σ.thread i).pc = .steal v) (hqueue : (σ.thread v).runnableQueue = xs ++ ys)
    (hxs : xs ≠ []) :
    FinishingStep N σ true
      ((σ.setThread v { σ.thread v with runnableQueue := ys }).goto i (.install xs)) := by
  have hself :
      ((σ.setThread v { σ.thread v with runnableQueue := ys }).goto i (.install xs)).pcs i =
      .install xs := by simp [Sched.pcs, Sched.goto]
  have hother : ∀ j ≠ i,
      ((σ.setThread v { σ.thread v with runnableQueue := ys }).goto i (.install xs)).pcs j =
      σ.pcs j := by
    intro j hj
    rw [Sched.pcs, Sched.goto, Sched.setThread_thread, Function.update_of_ne hj]
    exact apply_update_eq (f := σ.thread) (i := v) PerThreadMgr.pc (by rfl) j
  refine ⟨⟨_, .steal hi here hv hne hqueue hxs⟩, ⟨i, ?_⟩, fun j c p hj ↦ ?_, ?_⟩
  · rw [hself, Sched.pcs, here]
    simp
  · by_cases hji : j = i
    · rw [hji, hself]
      simp
    · rw [hother j hji, hj]
      simp
  · exact iff_of_true rfl ⟨i, v, xs, here, hself⟩

theorem ChaseStep.of_update {t : ℕ} {pc : Pc} {m : PerThreadMgr} (h : Step N σ l σ')
    (hl : l ≠ .back t)
    (here : (σ.thread i).pc = pc) (hthread : σ'.thread = Function.update σ.thread i m)
    (hforth : pc.Forth m.pc) : ChaseStep N t σ none σ' :=
  ⟨.of_update h here hthread hforth, ⟨l, hl, h⟩, fun _ _ hnone ↦ by cases hnone⟩

/-- A thread with nothing to do comes to the thread `v` if it finds nothing on its way. -/
theorem Sched.exists_search (t : ℕ) (hi : i < N) (hloop : (σ.thread i).pc = .loop)
    (hqueue : (σ.thread i).runnableQueue = []) {v : ℕ} (hv : v ≤ N)
    (hnothing : ∀ u < v, (σ.thread u).runnableQueue = []) :
    ∃ thefts, Run (ChaseStep N t) σ thefts (σ.goto i (.steal v)) ∧ thefts.reduceOption = [] := by
  induction v with
  | zero =>
    have hfirst : ChaseStep N t σ none (σ.goto i (.steal 0)) :=
      .of_update (.control hi hloop (.empty hqueue)) (by simp) hloop rfl (by simp [Pc.Forth])
    exact ⟨_, Run.refl.snoc hfirst, rfl⟩
  | succ v ih =>
    obtain ⟨thefts, hrun, hnone⟩ := ih (by omega) fun u hu ↦ hnothing u (by omega)
    have here : ((σ.goto i (.steal v)).thread i).pc = .steal v := by simp [Sched.goto]
    have hmove : Control N (σ.goto i (.steal v)) i (.steal v) (.steal (v + 1)) := by
      by_cases hvi : v = i
      · subst hvi
        exact .self
      · refine .nothing (by omega) hvi ?_
        rw [Sched.goto, Sched.setThread_thread, Function.update_of_ne hvi]
        exact hnothing v (Nat.lt_succ_self v)
    have hnext : (σ.goto i (.steal v)).goto i (.steal (v + 1)) = σ.goto i (.steal (v + 1)) := by
      simp [Sched.goto, Sched.setThread]
    have hlast : ChaseStep N t (σ.goto i (.steal v)) none (σ.goto i (.steal (v + 1))) := by
      rw [← hnext]
      exact .of_update (.control hi here hmove) (by simp) here rfl (by simp [Pc.Forth])
    refine ⟨_, hrun.snoc hlast, ?_⟩
    rw [List.reduceOption_append, hnone]
    rfl

/-- **One theft**, after which the thread that has lost its task is about to steal it back. -/
theorem Sched.Chase.turn {t : ℕ} (h : σ.Chase N i j t) :
    ∃ thefts σ', Run (ChaseStep N t) σ thefts σ' ∧ thefts.reduceOption = [(j, i)] ∧
      σ'.task = σ.task ∧ σ'.Chase N j i t := by
  have hqueue : (σ.thread i).runnableQueue = [t] ++ [] := by rw [h.only, List.append_nil]
  obtain ⟨σ₁, hσ₁⟩ : ∃ σ₁, σ₁ = (σ.setThread i { σ.thread i with runnableQueue := [] }).goto j
      (.install [t]) := ⟨_, rfl⟩
  have hinstall : (σ₁.thread j).pc = .install [t] := by simp [hσ₁, goto]
  have hsteal : ChaseStep N t σ (some (j, i)) σ₁ := by
    refine ⟨?_, ⟨.other, by simp, ?_⟩, fun j' i' heq ↦ ?_⟩
    · rw [hσ₁]
      exact .of_steal h.thief h.victim h.ne h.steal hqueue (List.cons_ne_nil t [])
    · rw [hσ₁]
      exact .steal h.thief h.steal h.victim h.ne hqueue (List.cons_ne_nil t [])
    · cases heq
      exact ⟨h.ne, h.steal, by rw [h.only]; exact List.mem_singleton_self t, hinstall⟩
  obtain ⟨σ₂, hσ₂⟩ : ∃ σ₂, σ₂ = σ₁.setThread j
      { σ₁.thread j with runnableQueue := [t], pc := .loop } :=
    ⟨_, rfl⟩
  have hback : ChaseStep N t σ₁ none σ₂ := by
    rw [hσ₂]
    exact .of_update (.install h.thief hinstall) (by simp) hinstall rfl (by simp [Pc.Forth])
  -- The thief has the task, and the other threads have nothing.
  have hthief : (σ₂.thread j).pc = .loop ∧ (σ₂.thread j).runnableQueue = [t] := by simp [hσ₂]
  have hvictim : σ₂.thread i = { σ.thread i with runnableQueue := [] } := by
    simp [hσ₂, hσ₁, goto, h.ne]
  have hnothing : ∀ v < N, v ≠ j → (σ₂.thread v).runnableQueue = [] := by
    intro v hv hvj
    by_cases hvi : v = i
    · rw [hvi, hvictim]
    · simpa [hσ₂, hσ₁, goto, hvi, hvj] using h.nothing v hv hvi
  obtain ⟨thefts, hsearch, hnone⟩ := exists_search t (v := j) h.victim
    (by rw [hvictim]; exact h.loop)
    (by rw [hvictim]) h.thief.le fun u hu ↦ hnothing u (hu.trans h.thief) hu.ne
  refine ⟨_, _, ((Run.refl.snoc hsteal).snoc hback).trans hsearch, ?_, ?_, ?_⟩
  · rw [List.reduceOption_append, hnone]
    rfl
  · rw [hσ₂, hσ₁]
    rfl
  · have hother : ∀ v ≠ i, (σ₂.goto i (.steal j)).thread v = σ₂.thread v := fun v hv ↦
      Function.update_of_ne hv _ _
    have hself : (σ₂.goto i (.steal j)).thread i = { σ₂.thread i with pc := .steal j } :=
      Function.update_self ..
    refine ⟨h.thief, h.victim, h.ne.symm, ?_, ?_, by rw [hself], fun v hv hvj ↦ ?_⟩
    · rw [hother j h.ne.symm]
      exact hthief.1
    · rw [hother j h.ne.symm]
      exact hthief.2
    · by_cases hvi : v = i
      · rw [hvi, hself]
        exact hnothing i h.victim h.ne
      · rw [hother v hvi]
        exact hnothing v hv hvj

/-- **Thefts may go on for ever.** The thread `j` is about to steal the only task of the thread `i`,
which is about to take it. Then for every `n` there is a run with `n` thefts in which `j` and `i`
take turns: `j` steals the task from `i`, then `i` from `j`, and so on. No step gives control to the
task, and at the end the next theft is due. -/
theorem thefts_for_ever {t : ℕ} (h : σ.Chase N i j t) (n : ℕ) :
    ∃ thefts σ', Run (ChaseStep N t) σ thefts σ' ∧
      thefts.reduceOption = (List.range n).map (fun k ↦ if k % 2 = 0 then (j, i) else (i, j)) ∧
      σ'.task = σ.task ∧ if n % 2 = 0 then σ'.Chase N i j t else σ'.Chase N j i t := by
  induction n with
  | zero => exact ⟨[], σ, .refl, rfl, rfl, h⟩
  | succ n ih =>
    obtain ⟨thefts, τ, hrun, hthefts, htask, hchase⟩ := ih
    rw [List.range_succ, List.map_append, ← hthefts, List.map_singleton]
    rcases Nat.mod_two_eq_zero_or_one n with hn | hn
    · rw [if_pos hn] at hchase ⊢
      obtain ⟨more, σ', hrun', hone, htask', hσ'⟩ := hchase.turn
      refine ⟨thefts ++ more, σ', hrun.trans hrun', ?_, htask'.trans htask, ?_⟩
      · rw [List.reduceOption_append, hone]
      · rwa [if_neg (by omega)]
    · rw [if_neg (by omega)] at hchase ⊢
      obtain ⟨more, σ', hrun', hone, htask', hσ'⟩ := hchase.turn
      refine ⟨thefts ++ more, σ', hrun.trans hrun', ?_, htask'.trans htask, ?_⟩
      · rw [List.reduceOption_append, hone]
      · rwa [if_pos (by omega)]

/-- The main thread has one task, and the other thread is about to steal it. -/
theorem thefts_for_ever_two : ∃ σ, Reachable (OwnedStep 2 fun _ ↦ 0) Sched.initial σ ∧
    σ.terminatable = true ∧ ∃ thefts σ', Run (ChaseStep 2 0) σ thefts σ' ∧
      thefts.reduceOption.length = 100 ∧ (σ'.task 0).state = .initial := by
  have hrun : Reachable (OwnedStep 2 fun _ ↦ 0) Sched.initial _ :=
    (((((Reachable.refl _ _).snoc
      ⟨Step.newTask (i := 0) false (by decide) trivial, trivial⟩).snoc
      ⟨Step.addRunnable (i := 0) (t := 0) (by decide) trivial (by decide) rfl, trivial⟩).snoc
      ⟨Step.control (i := 0) (by decide) rfl .start, trivial⟩).snoc
      ⟨Step.control (i := 1) (by decide) rfl (.empty rfl), trivial⟩).snoc
      ⟨Step.terminateGracefully, trivial⟩
  obtain ⟨σ, hreach, hstop, hchase, hinitial⟩ : ∃ σ,
      Reachable (OwnedStep 2 fun _ ↦ 0) Sched.initial σ ∧
      σ.terminatable = true ∧ σ.Chase 2 0 1 0 ∧ (σ.task 0).state = .initial :=
    ⟨_, hrun, rfl, ⟨by decide, by decide, by decide, rfl, rfl, rfl, by decide⟩, rfl⟩
  obtain ⟨thefts, σ', hchased, hthefts, htask, -⟩ := thefts_for_ever hchase 100
  exact ⟨σ, hreach, hstop, thefts, σ', hchased, by rw [hthefts, List.length_map, List.length_range],
    by rw [htask, hinitial]⟩

end TYThread
