import TYThread.Group.Wait

/-!
# When a group may be destroyed

A `TaskBundle` or a group on the stack of a task is destroyed when its `wait` has returned. But
`wait` reads `blocking_count` without the lock, and a task that `informDone` has enqueued may be run
by another thread before `informDone` unlocks. In both cases the group is destroyed while a thread
is between `lock` and `unlock`, and this thread goes on with the destroyed group.

That is all that can go wrong. When the lock is free at the time of the destruction, then nobody
uses the group afterwards.
-/

namespace TYThread

open Transition

/-- The group whose fields or lock the thread uses next, in `informDone` or in
`resumeIfNothingToWait`. -/
def Pc.uses : Pc → Option ℕ
  | .task _ _ (.terminating (g :: _)) => some g
  | .task _ _ (.inform _ _ (.enqueue _)) => none
  | .task _ _ (.inform g _ _) => some g
  | .task _ _ (.resume g _) => some g
  | _ => none

/-- Whatever group a thread uses next, it has not been destroyed. -/
def Sched.OnlyAliveUsed (N : ℕ) (σ : Sched) : Prop :=
  ∀ i < N, ∀ g, (σ.pcs i).uses = some g → (σ.group g).alive = true

/-- A task destroys only groups of its own, after `wait`, and with nothing registered since. -/
def Sched.Destroys (σ : Sched) (owner : ℕ → ℕ) : Label → Prop
  | .destroy c g => c = owner g ∧ (σ.group g).waited = true
  | _ => True

/-- A step of a program in which each group belongs to one task, which waits before it destroys. -/
def DestroyingStep (N : ℕ) (owner : ℕ → ℕ) (σ : Sched) (l : Label) (σ' : Sched) : Prop :=
  OwnedStep N owner σ l σ' ∧ σ.Destroys owner l

/-- If the step destroys a group, the lock of the group is free. -/
def Sched.Unlocked (σ : Sched) : Label → Prop
  | .destroy _ g => (σ.group g).lock = none
  | _ => True

/-- A step that does not destroy a locked group. -/
def CarefulStep (N : ℕ) (owner : ℕ → ℕ) (σ : Sched) (l : Label) (σ' : Sched) : Prop :=
  DestroyingStep N owner σ l σ' ∧ σ.Unlocked l

/-! ## What happens to a group -/

/-- What the step `l` does to the group `g`, which is `gp` afterwards. -/
inductive Event (N : ℕ) (σ : Sched) (g : ℕ) : Label → TaskGroup → Prop
  | idle (l : Label) (fresh : ∀ c, l ≠ .wait c g false) : Event N σ g l (σ.group g)
  | registe {c t : ℕ} (alive : (σ.group g).alive = true) :
      Event N σ g (.registe c t g)
        { σ.group g with blockingCount := (σ.group g).blockingCount + 1, waited := false }
  | waitDone {c : ℕ} (alive : (σ.group g).alive = true) (zero : (σ.group g).blockingCount = 0) :
      Event N σ g (.wait c g true) { σ.group g with waited := true }
  | waitYield {c : ℕ} (alive : (σ.group g).alive = true) :
      Event N σ g (.wait c g false) { σ.group g with waited := true }
  | destroy {c : ℕ} : Event N σ g (.destroy c g) { σ.group g with alive := false }
  | lock {i : ℕ} (used : (∃ j < N, g ∈ (σ.pcs j).pending) ∨ ∃ t, (σ.task t).waiting = some g) :
      Event N σ g .other { σ.group g with lock := some i }
  | decrement (used : ∃ j < N, g ∈ (σ.pcs j).pending) : Event N σ g .other (σ.group g).decrement
  | park {b : Option ℕ} : Event N σ g .other { σ.group g with blockedTask := b }
  | unlock : Event N σ g .other { σ.group g with lock := none }

theorem Step.event {N : ℕ} {σ σ' : Sched} {l : Label} (h : Step N σ l σ') (hσ : σ.Ok N) (g : ℕ) :
    Event N σ g l (σ'.group g) := by
  -- The step changes no group but `g'`.
  have hupdate : ∀ {g' : ℕ} {gp : TaskGroup}, σ'.group = Function.update σ.group g' gp →
      (∀ c, g ≠ g' → l ≠ .wait c g false) → Event N σ g' l gp → Event N σ g l (σ'.group g) := by
    intro g' gp hgroup hfresh hevent
    by_cases hg : g = g'
    · rw [hgroup, hg, Function.update_self]
      exact hevent
    · rw [hgroup, Function.update_of_ne hg]
      exact .idle l fun c ↦ hfresh c hg
  have hother : l = .other → ∀ c, l ≠ .wait c g false := by
    rintro rfl c h
    cases h
  have hidle : σ'.group = σ.group → (∀ c, l ≠ .wait c g false) → Event N σ g l (σ'.group g) := by
    intro hgroup hfresh
    rw [hgroup]
    exact .idle l hfresh
  cases h with
  | terminateGracefully | newTask | addRunnable | control | steal | install | yield | terminate
  | informNobody | informEnqueue | terminated | handleRunnable | handleMpi | stillMpi | handleWait
  | handleOther | resumeZero | requeue | erase => exact hidle rfl (hother rfl)
  | dequeue | pollTask => exact hidle rfl fun c h ↦ by cases h
  | registe lt here made unlocked room alive accepted =>
    refine hupdate rfl (fun c _ h ↦ by cases h) ?_
    rw [Task.addToGroup, accepted]
    exact .registe alive
  | registeFini lt here made unlocked alive rejected =>
    refine hupdate rfl (fun c _ h ↦ by cases h) ?_
    rw [Task.addToGroup, if_pos rejected]
    exact .idle _ fun c h ↦ by cases h
  | waitDone lt here alive zero => exact hupdate rfl (fun c _ h ↦ by cases h) (.waitDone alive zero)
  | waitYield lt here alive =>
    refine hupdate rfl (fun c hne h ↦ hne ?_) (.waitYield alive)
    cases h
    rfl
  | destroy => exact hupdate rfl (fun c _ h ↦ by cases h) .destroy
  | @informLock i c g' p rest lt here free =>
    refine hupdate rfl (fun c _ h ↦ by cases h) (.lock (Or.inl ⟨i, lt, ?_⟩))
    rw [Sched.pcs, here]
    exact List.mem_cons_self
  | @informDecrement i c g' p rest lt here =>
    refine hupdate rfl (fun c _ h ↦ by cases h) (.decrement ⟨i, lt, ?_⟩)
    rw [Sched.pcs, here]
    exact List.mem_cons_self
  | informTake => exact hupdate rfl (fun c _ h ↦ by cases h) .park
  | resumeBlock => exact hupdate rfl (fun c _ h ↦ by cases h) .park
  | informUnlock => exact hupdate rfl (fun c _ h ↦ by cases h) .unlock
  | resumeUnlock => exact hupdate rfl (fun c _ h ↦ by cases h) .unlock
  | @resumeLock i t g' p lt here free =>
    refine hupdate rfl (fun c _ h ↦ by cases h) (.lock (Or.inr ⟨t, ?_⟩))
    have hhand := hσ.hand_at lt here
    exact hhand.waiting

theorem Life.waiting_kept {c g : ℕ} {a a' : Task} {l : Label} (h : Life c a l a')
    (hg : a.waiting = some g) :
    a'.waiting = some g ∨ l = .back c ∨ ∃ g', l = .wait c g' false := by
  cases h with
  | make isPure new =>
    rw [new] at hg
    cases hg
  | back => exact Or.inr (Or.inl rfl)
  | wait => exact Or.inr (Or.inr ⟨_, rfl⟩)
  | _ => exact Or.inl hg

namespace Pc

variable {pc : Pc} {g : ℕ}

theorem uses_cases (h : pc.uses = some g) :
    g ∈ pc.pending ∨ pc.holding = some g ∨ ∃ t p, pc = .task t p (.resume g .lock) := by
  cases pc with
  | task t p act =>
    cases act with
    | terminating rest =>
      cases rest with
      | nil => cases h
      | cons g' rest =>
        rw [← Option.some.inj h]
        exact Or.inl List.mem_cons_self
    | inform g' rest phase =>
      cases phase with
      | enqueue w => cases h
      | decrement | take | unlock => exact Or.inr (Or.inl h)
    | resume g' phase =>
      cases phase with
      | lock => exact Or.inr (Or.inr ⟨t, p, by rw [← Option.some.inj h]⟩)
      | test | unlock => exact Or.inr (Or.inl h)
    | user | switched | requeue => cases h
  | _ => cases h

/-- A thread that holds the lock uses the group next, except for the call of `addRunnable`. -/
theorem enqueue_of_holding (h : pc.holding = some g) (huses : pc.uses ≠ some g) :
    ∃ c p rest w, pc = .task c p (.inform g rest (.enqueue w)) := by
  cases pc with
  | task t p act =>
    cases act with
    | inform g' rest phase =>
      cases phase with
      | enqueue w => exact ⟨t, p, rest, w, by rw [← Option.some.inj h]⟩
      | decrement | take | unlock => exact absurd h huses
    | resume g' phase =>
      cases phase with
      | lock => cases h
      | test | unlock => exact absurd h huses
    | terminating | user | switched | requeue => cases h
  | _ => cases h

end Pc

/-! ## The invariant -/

/-- A group that has been waited for is empty, or its owner still waits. A group that has been
destroyed is empty and unlocked, and nobody waits for it. -/
structure Sched.Tidy (N : ℕ) (owner : ℕ → ℕ) (σ : Sched) : Prop where
  grouped : σ.Grouped N owner
  waited : ∀ g, (σ.group g).waited = true → (σ.group g).blockingCount ≠ 0 →
    (σ.task (owner g)).waiting = some g
  dead : ∀ g, (σ.group g).alive = false → (σ.group g).blockingCount = 0 ∧
    (σ.group g).lock = none ∧ ∀ t, (σ.task t).waiting ≠ some g

namespace Sched

variable {N : ℕ} {owner : ℕ → ℕ} {σ σ' : Sched} {l : Label} {g i : ℕ}

/-- While a thread has something to count down, `blocking_count` is not zero. -/
theorem Grouped.ne_zero_of_pending (hσ : σ.Grouped N owner) (h : ∃ j < N, g ∈ (σ.pcs j).pending) :
    (σ.group g).blockingCount ≠ 0 := by
  obtain ⟨j, hj, hg⟩ := h
  have hone : 0 < (σ.pcs j).pending.count g := List.count_pos_iff.mpr hg
  have hle : (σ.pcs j).pending.count g ≤ σ.pending N g :=
    Finset.single_le_sum (f := fun j ↦ (σ.pcs j).pending.count g) (fun _ _ ↦ Nat.zero_le _)
      (Finset.mem_range.mpr hj)
  have hcount := hσ.count g
  omega

/-- While there is something to wait for, a task that waits goes on waiting. -/
theorem Grouped.still_waiting (hσ : σ.Grouped N owner) (h : Step N σ l σ') {t : ℕ}
    (hwaiting : (σ.task t).waiting = some g) (hne : (σ.group g).blockingCount ≠ 0) :
    (σ'.task t).waiting = some g := by
  obtain ⟨c, hother, hlife⟩ := h.life hσ.ok
  by_cases htc : t = c
  · subst htc
    rcases hlife.waiting_kept hwaiting with hkept | hback | ⟨g', hwait⟩
    · exact hkept
    · exact absurd (hσ.zero_of_comesBack h (Or.inr ⟨hback, hwaiting⟩)) hne
    · subst hwait
      cases h with
      | @waitYield i _ _ p lt here =>
        have hhand := hσ.ok.hand_at lt here
        rw [hhand.2] at hwaiting
        cases hwaiting
  · rw [hother t htc]
    exact hwaiting

theorem Tidy.initial (N : ℕ) (owner : ℕ → ℕ) : Sched.initial.Tidy N owner :=
  ⟨.initial N owner, fun g h ↦ absurd h (by simp [Sched.initial]),
    fun g h ↦ absurd h (by simp [Sched.initial])⟩

/-- **One step** that does not destroy a locked group. -/
theorem Tidy.of_step (hσ : σ.Tidy N owner) (h : CarefulStep N owner σ l σ') : σ'.Tidy N owner := by
  obtain ⟨⟨⟨hstep, howned⟩, hdestroys⟩, hunlocked⟩ := h
  have hgrouped := hσ.grouped
  -- A wait begins with the label `wait`.
  have hnew : ∀ t g, (σ'.task t).waiting = some g →
      (σ.task t).waiting = some g ∨ l = .wait t g false := by
    intro t g ht
    obtain ⟨c, hother, hlife⟩ := hstep.life hgrouped.ok
    by_cases htc : t = c
    · subst htc
      exact hlife.waiting ht
    · exact Or.inl (by rwa [← hother t htc])
  refine ⟨hgrouped.of_step hstep howned, fun g ↦ ?_, fun g ↦ ?_⟩
  · have hkept : (σ.group g).waited = true → (σ.group g).blockingCount ≠ 0 →
        (σ'.task (owner g)).waiting = some g := fun hwaited hne ↦
      hgrouped.still_waiting hstep (hσ.waited g hwaited hne) hne
    intro hwaited hne
    have hevent := hstep.event hgrouped.ok g
    revert hevent hwaited hne
    generalize σ'.group g = gp
    intro hwaited hne hevent
    cases hevent with
    | idle | destroy | lock | park | unlock => exact hkept hwaited hne
    | registe => cases hwaited
    | waitDone alive zero => exact absurd zero hne
    | @waitYield c alive =>
      have hc : c = owner g := howned
      cases hstep with
      | waitYield => simp [Sched.goto, ← hc]
    | decrement used => exact hkept hwaited (hgrouped.ne_zero_of_pending used)
  · intro hdead
    have hevent := hstep.event hgrouped.ok g
    revert hevent hdead
    generalize σ'.group g = gp
    intro hdead hevent
    cases hevent with
    | idle _ fresh =>
      obtain ⟨hzero, hlock, hnobody⟩ := hσ.dead g hdead
      exact ⟨hzero, hlock, fun t ht ↦ (hnew t g ht).elim (hnobody t) (fresh t)⟩
    | registe alive | waitDone alive | waitYield alive =>
      rw [hdead] at alive
      cases alive
    | destroy =>
      obtain ⟨hc, hwaited⟩ := hdestroys
      cases hstep with
      | destroy lt here alive =>
        have hnobody := hgrouped.not_waiting lt here hc
        refine ⟨?_, hunlocked, hnobody⟩
        by_contra hne
        exact hnobody _ (hσ.waited g hwaited hne)
    | lock used =>
      obtain ⟨hzero, -, hnobody⟩ := hσ.dead g hdead
      rcases used with hpending | ⟨t, ht⟩
      · exact absurd hzero (hgrouped.ne_zero_of_pending hpending)
      · exact absurd ht (hnobody t)
    | decrement used =>
      exact absurd (hσ.dead g hdead).1 (hgrouped.ne_zero_of_pending used)
    | park | unlock =>
      obtain ⟨hzero, hlock, hnobody⟩ := hσ.dead g hdead
      exact ⟨hzero, by first | exact hlock | rfl,
        fun t ht ↦ (hnew t g ht).elim (hnobody t) fun h ↦ by cases h⟩

theorem Tidy.of_reachable (h : Reachable (CarefulStep N owner) Sched.initial σ) :
    σ.Tidy N owner :=
  h.invariant (.initial N owner) fun _ _ _ hσ hstep ↦ hσ.of_step hstep

/-- While the groups are tidy, nobody uses a destroyed one. -/
theorem Tidy.onlyAliveUsed (hσ : σ.Tidy N owner) : σ.OnlyAliveUsed N := by
  intro i hi g huses
  by_contra halive
  obtain ⟨hzero, hlock, hnobody⟩ := hσ.dead g (Bool.not_eq_true _ ▸ halive)
  rcases Pc.uses_cases huses with hpending | hholding | ⟨t, p, hpc⟩
  · exact hσ.grouped.ne_zero_of_pending ⟨i, hi, hpending⟩ hzero
  · rw [(hσ.grouped.holder g i).mpr ⟨hi, hholding⟩] at hlock
    cases hlock
  · have hhand := (hσ.grouped.ok.thread i hi).hand
    rw [show (σ.thread i).pc = .task t p (.resume g .lock) from hpc] at hhand
    exact hnobody t hhand.waiting

/-- A thread that holds the lock of a destroyed group is about to use it, or is one step before. -/
theorem used_of_holding (hi : i < N) (hholding : (σ.pcs i).holding = some g)
    (hdead : (σ.group g).alive = false) :
    ∃ σ', Reachable (CarefulStep N owner) σ σ' ∧ ¬σ'.OnlyAliveUsed N := by
  by_cases huses : (σ.pcs i).uses = some g
  · refine ⟨σ, Reachable.refl _ _, fun h ↦ ?_⟩
    rw [h i hi g huses] at hdead
    cases hdead
  · obtain ⟨c, p, rest, w, hpc⟩ := Pc.enqueue_of_holding hholding huses
    have hstep := Step.informEnqueue (N := N) hi hpc
    refine ⟨_, (Reachable.refl _ σ).snoc ⟨⟨⟨hstep, trivial⟩, trivial⟩, trivial⟩, fun h ↦ ?_⟩
    have halive := h i hi g (by simp [pcs, Sched.enqueue, Pc.uses])
    rw [Sched.enqueue, setThread_group, setTask_group, hdead] at halive
    cases halive

end Sched

/-- **When a group may be destroyed.** In a run in which every group is unlocked when it is
destroyed, no thread ever uses a destroyed group. After such a run, the destruction of one more
group keeps it that way exactly if this group is unlocked. -/
theorem destroyed_unused_iff {N : ℕ} {owner : ℕ → ℕ} {σ : Sched}
    (hrun : Reachable (CarefulStep N owner) Sched.initial σ) :
    σ.OnlyAliveUsed N ∧
    ∀ c g σ', DestroyingStep N owner σ (.destroy c g) σ' →
      ((∀ σ'', Reachable (CarefulStep N owner) σ' σ'' → σ''.OnlyAliveUsed N) ↔
        (σ.group g).lock = none) := by
  have hσ := Sched.Tidy.of_reachable hrun
  refine ⟨hσ.onlyAliveUsed, fun c g σ' hstep ↦ ⟨fun hafter ↦ ?_, fun hlock σ'' hrun' ↦ ?_⟩⟩
  · by_contra hlocked
    obtain ⟨i, hlock⟩ := Option.ne_none_iff_exists'.mp hlocked
    obtain ⟨hi, hholding⟩ := (hσ.grouped.holder g i).mp hlock
    obtain ⟨⟨hstep, -⟩, -⟩ := hstep
    cases hstep with
    | destroy lt here alive =>
      obtain ⟨σ'', hrun', hused⟩ : ∃ σ'', Reachable (CarefulStep N owner)
          (σ.setGroup g { σ.group g with alive := false }) σ'' ∧ ¬σ''.OnlyAliveUsed N :=
        Sched.used_of_holding hi hholding (by simp)
      exact hused (hafter σ'' hrun')
  · exact (Sched.Tidy.of_reachable ((hrun.snoc ⟨hstep, hlock⟩).trans hrun')).onlyAliveUsed

/-- The task `1`, which the task `0` waits for, terminates on the same thread. Then the task `0`
comes back, waits, and destroys the group. -/
theorem destroyed_unused_iff_finished :
    ∃ σ σ', Reachable (CarefulStep 1 fun _ ↦ 0) Sched.initial σ ∧
      DestroyingStep 1 (fun _ ↦ 0) σ (.destroy 0 0) σ' ∧
      ∀ σ'', Reachable (CarefulStep 1 fun _ ↦ 0) σ' σ'' → σ''.OnlyAliveUsed 1 := by
  have hregistered : Reachable (CarefulStep 1 fun _ ↦ 0) Sched.initial _ :=
    ((((((((Reachable.refl _ _).snoc
      ⟨⟨⟨Step.newTask (i := 0) false (by decide) trivial, trivial⟩, trivial⟩, trivial⟩).snoc
      ⟨⟨⟨Step.newTask (i := 0) false (by decide) trivial, trivial⟩, trivial⟩, trivial⟩).snoc
      ⟨⟨⟨Step.addRunnable (i := 0) (t := 0) (by decide) trivial (by decide) rfl, trivial⟩,
        trivial⟩, trivial⟩).snoc
      ⟨⟨⟨Step.addRunnable (i := 0) (t := 1) (by decide) trivial (by decide) rfl, trivial⟩,
        trivial⟩, trivial⟩).snoc
      ⟨⟨⟨Step.control (i := 0) (by decide) rfl .start, trivial⟩, trivial⟩, trivial⟩).snoc
      ⟨⟨⟨Step.dequeue (i := 0) (t := 0) (by decide) rfl rfl, trivial⟩, trivial⟩, trivial⟩).snoc
      ⟨⟨⟨Step.registe (i := 0) (c := 0) (t := 1) (g := 0) (by decide) rfl (by decide) rfl
        (by decide) rfl rfl, rfl⟩, trivial⟩, trivial⟩).snoc
      ⟨⟨⟨Step.yield (i := 0) (c := 0) (by decide) rfl rfl (Or.inl rfl), trivial⟩, trivial⟩,
        trivial⟩
  have hterminated := ((((((((hregistered.snoc
      ⟨⟨⟨Step.handleRunnable (i := 0) (t := 0) (by decide) rfl rfl, trivial⟩, trivial⟩,
        trivial⟩).snoc
      ⟨⟨⟨Step.dequeue (i := 0) (t := 1) (by decide) rfl rfl, trivial⟩, trivial⟩, trivial⟩).snoc
      ⟨⟨⟨Step.terminate (i := 0) (c := 1) (by decide) rfl rfl, trivial⟩, trivial⟩, trivial⟩).snoc
      ⟨⟨⟨Step.informLock (i := 0) (by decide) rfl rfl, trivial⟩, trivial⟩, trivial⟩).snoc
      ⟨⟨⟨Step.informDecrement (i := 0) (by decide) rfl, trivial⟩, trivial⟩, trivial⟩).snoc
      ⟨⟨⟨Step.informNobody (i := 0) (by decide) rfl rfl, trivial⟩, trivial⟩, trivial⟩).snoc
      ⟨⟨⟨Step.informUnlock (i := 0) (by decide) rfl, trivial⟩, trivial⟩, trivial⟩).snoc
      ⟨⟨⟨Step.terminated (i := 0) (by decide) rfl, trivial⟩, trivial⟩, trivial⟩).snoc
      ⟨⟨⟨Step.handleOther (i := 0) (t := 1) (by decide) rfl (Or.inl rfl), trivial⟩, trivial⟩,
        trivial⟩
  have hwaited := (hterminated.snoc
      ⟨⟨⟨Step.dequeue (i := 0) (t := 0) (by decide) rfl rfl, trivial⟩, trivial⟩, trivial⟩).snoc
      ⟨⟨⟨Step.waitDone (i := 0) (c := 0) (g := 0) (by decide) rfl rfl rfl, rfl⟩, trivial⟩,
        trivial⟩
  obtain ⟨σ, σ', hrun, hstep, hlock⟩ : ∃ σ σ',
      Reachable (CarefulStep 1 fun _ ↦ 0) Sched.initial σ ∧
        DestroyingStep 1 (fun _ ↦ 0) σ (.destroy 0 0) σ' ∧ (σ.group 0).lock = none :=
    ⟨_, _, hwaited,
      ⟨⟨Step.destroy (i := 0) (c := 0) (g := 0) (by decide) rfl rfl, trivial⟩, rfl, rfl⟩, rfl⟩
  exact ⟨σ, σ', hrun, hstep, ((destroyed_unused_iff hrun).2 0 0 σ' hstep).mpr hlock⟩

/-- The task `0` runs on thread `1`. It finds `blocking_count` zero and destroys the group while the
task `1`, on thread `0`, is inside `informDone`. -/
theorem destroyed_group_used :
    ∃ σ, Reachable (DestroyingStep 2 fun _ ↦ 0) Sched.initial σ ∧ ¬σ.OnlyAliveUsed 2 := by
  have hregistered : Reachable (DestroyingStep 2 fun _ ↦ 0) Sched.initial _ :=
    (((((((((Reachable.refl _ _).snoc
      ⟨⟨Step.newTask (i := 0) false (by decide) trivial, trivial⟩, trivial⟩).snoc
      ⟨⟨Step.newTask (i := 0) false (by decide) trivial, trivial⟩, trivial⟩).snoc
      ⟨⟨Step.addRunnable (i := 0) (t := 0) (by decide) trivial (by decide) rfl, trivial⟩,
        trivial⟩).snoc
      ⟨⟨Step.addRunnable (i := 0) (t := 1) (by decide) trivial (by decide) rfl, trivial⟩,
        trivial⟩).snoc
      ⟨⟨Step.control (i := 1) (by decide) rfl (.empty rfl), trivial⟩, trivial⟩).snoc
      ⟨⟨Step.steal (i := 1) (v := 0) (by decide) rfl (by decide) (by decide)
        (show _ = [0] ++ [1] from rfl) (by decide), trivial⟩, trivial⟩).snoc
      ⟨⟨Step.install (i := 1) (by decide) rfl, trivial⟩, trivial⟩).snoc
      ⟨⟨Step.dequeue (i := 1) (t := 0) (by decide) rfl rfl, trivial⟩, trivial⟩).snoc
      ⟨⟨Step.registe (i := 1) (c := 0) (t := 1) (g := 0) (by decide) rfl (by decide) rfl
        (by decide) rfl rfl, rfl⟩, trivial⟩
  have hdestroyed := ((((((hregistered.snoc
      ⟨⟨Step.control (i := 0) (by decide) rfl .start, trivial⟩, trivial⟩).snoc
      ⟨⟨Step.dequeue (i := 0) (t := 1) (by decide) rfl rfl, trivial⟩, trivial⟩).snoc
      ⟨⟨Step.terminate (i := 0) (c := 1) (by decide) rfl rfl, trivial⟩, trivial⟩).snoc
      ⟨⟨Step.informLock (i := 0) (by decide) rfl rfl, trivial⟩, trivial⟩).snoc
      ⟨⟨Step.informDecrement (i := 0) (by decide) rfl, trivial⟩, trivial⟩).snoc
      ⟨⟨Step.waitDone (i := 1) (c := 0) (g := 0) (by decide) rfl rfl rfl, rfl⟩, trivial⟩).snoc
      ⟨⟨Step.destroy (i := 1) (c := 0) (g := 0) (by decide) rfl rfl, trivial⟩, rfl, rfl⟩
  exact ⟨_, hdestroyed, fun h ↦ absurd (h 0 (by decide) 0 rfl) (by decide)⟩

end TYThread
