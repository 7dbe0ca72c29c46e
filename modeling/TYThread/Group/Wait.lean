import TYThread.Group.Steps

/-!
# What `wait` does

A wait comes back in one of two ways. Either `wait` finds `blocking_count` zero and returns at once,
or the task yields, and comes back when it is taken from a queue. In both cases every task whose
registration in the group was accepted has terminated.

Nothing is lost either: when all of these have left `terminate`, the owner is not parked. And
whoever makes the owner runnable, it is put into a queue once for each `wait`.
-/

namespace TYThread

open Transition

/-- A step of a program in which each group belongs to one task. -/
def OwnedStep (N : ℕ) (owner : ℕ → ℕ) (σ : Sched) (l : Label) (σ' : Sched) : Prop :=
  Step N σ l σ' ∧ l.Owned owner

/-- In the step `l` the task `c` comes back from its `wait` on the group `g`. -/
def Sched.ComesBack (σ : Sched) (c g : ℕ) (l : Label) : Prop :=
  l = .wait c g true ∨ l = .back c ∧ (σ.task c).waiting = some g

/-- The group is one of those that the task was registered in, that is, the task has accepted. -/
def Task.Accepted (a : Task) (g : ℕ) : Prop := g ∈ a.groups

/-- The task has terminated, and `terminate` has returned. -/
def Task.Finished (a : Task) : Prop := a.state = .terminated ∧ a.locked = false

namespace Pc

variable {task : ℕ → Task} {pc : Pc} {g t : ℕ}

theorem running_of_deciding (h : pc.deciding = some t) : pc.running = [t] := by
  unfold deciding at h
  split at h
  · exact congrArg (fun u ↦ [u]) (Option.some.inj h)
  · exact congrArg (fun u ↦ [u]) (Option.some.inj h)
  · exact congrArg (fun u ↦ [u]) (Option.some.inj h)
  · cases h

theorem Ok.exists_dying (hok : pc.Ok task) (h : g ∈ pc.pending ∨ pc.taking = some g) :
    ∃ t gs, (task t).Dying gs ∧ g ∈ gs := by
  cases pc with
  | task t p act =>
    cases act with
    | terminating rest => exact ⟨t, rest, hok, h.resolve_right (by simp [taking])⟩
    | inform g' rest phase =>
      cases phase with
      | decrement => exact ⟨t, g' :: rest, hok, h.resolve_right (by simp [taking])⟩
      | take =>
        refine ⟨t, g' :: rest, hok, ?_⟩
        rcases h with h | h
        · exact List.mem_cons_of_mem g' h
        · rw [Option.some.inj h]
          exact List.mem_cons_self
      | enqueue w =>
        exact ⟨t, g' :: rest, hok.1,
          List.mem_cons_of_mem g' (h.resolve_right (by simp [taking]))⟩
      | unlock =>
        exact ⟨t, g' :: rest, hok, List.mem_cons_of_mem g' (h.resolve_right (by simp [taking]))⟩
    | user | switched | resume | requeue => simp [pending, taking] at h
  | _ => simp [pending, taking] at h

end Pc

namespace Sched.Grouped

variable {N : ℕ} {owner : ℕ → ℕ} {σ σ' : Sched} {l : Label} {c g t : ℕ}

theorem of_reachable (h : Reachable (OwnedStep N owner) Sched.initial σ) : σ.Grouped N owner :=
  h.invariant (.initial N owner) fun _ _ _ hσ hstep ↦ hσ.of_step hstep.1 hstep.2

/-- Nothing is owed exactly when the accepted tasks have terminated. -/
theorem owed_eq_zero_iff (hσ : σ.Grouped N owner) :
    σ.owed g = 0 ↔ ∀ t, (σ.task t).Accepted g → (σ.task t).state = .terminated := by
  rw [owed, Finset.sum_eq_zero_iff]
  constructor
  · intro h t ht
    by_contra hlive
    have hmade : t < σ.next := by
      by_contra hle
      rw [hσ.ok.made t (not_lt.mp hle)] at ht
      exact absurd ht List.not_mem_nil
    have hzero := h t (Finset.mem_range.mpr hmade)
    rw [Task.owed, if_neg hlive] at hzero
    exact List.count_eq_zero.mp hzero ht
  · intro h t _
    rw [Task.owed]
    split
    · rfl
    · rename_i hlive
      exact List.count_eq_zero.mpr fun ht ↦ hlive (h t ht)

theorem terminated_of_zero (hσ : σ.Grouped N owner) (hzero : (σ.group g).blockingCount = 0)
    (ht : (σ.task t).Accepted g) : (σ.task t).state = .terminated := by
  have hcount := hσ.count g
  exact hσ.owed_eq_zero_iff.mp (by omega) t ht

/-- What a thread is still to count down, or to take, belongs to a task that is in `terminate`. -/
theorem exists_dying (hσ : σ.Grouped N owner) {i : ℕ} (hi : i < N)
    (h : g ∈ (σ.pcs i).pending ∨ (σ.pcs i).taking = some g) :
    ∃ t, (σ.task t).Accepted g ∧ (σ.task t).locked = true := by
  obtain ⟨t, gs, hdying, hg⟩ := (hσ.ok.thread i hi).hand.exists_dying h
  exact ⟨t, hdying.groups hg, hdying.locked⟩

/-- A task that is in a queue has been decided on: `blocking_count` was zero. -/
theorem zero_of_queued (hσ : σ.Grouped N owner) (hwaiting : (σ.task c).waiting = some g) {i : ℕ}
    (hi : i < N) (hcount : 0 < (σ.thread i).count c) (hpc : (σ.pcs i).deciding = none) :
    (σ.group g).blockingCount = 0 := by
  by_contra hne
  rcases hσ.decided c g hwaiting hne with hparked | ⟨j, hj, hdec⟩
  · exact hσ.ok.not_blocked hi hcount hparked
  · have hcount' : 0 < (σ.thread j).count c := by
      refine PerThreadMgr.count_pos_of_running ?_
      rw [show (σ.thread j).pc.running = [c] from Pc.running_of_deciding hdec]
      exact List.mem_singleton_self c
    obtain rfl := hσ.ok.eq_of_count hi hj hcount hcount'
    rw [hpc] at hdec
    cases hdec

theorem zero_of_comesBack (hσ : σ.Grouped N owner) (h : Step N σ l σ') (hback : σ.ComesBack c g l) :
    (σ.group g).blockingCount = 0 := by
  rcases hback with rfl | ⟨rfl, hwaiting⟩
  · cases h with
    | waitDone lt here alive zero => exact zero
  · cases h with
    | @dequeue i _ ts lt here queue =>
      refine hσ.zero_of_queued hwaiting lt (PerThreadMgr.count_pos_of_stored ?_) ?_
      · rw [PerThreadMgr.stored, queue]
        simp
      · rw [pcs, here]
        rfl
    | @pollTask i k _ lt here entry =>
      refine hσ.zero_of_queued hwaiting lt (PerThreadMgr.count_pos_of_stored ?_) ?_
      · rw [PerThreadMgr.stored, PerThreadMgr.parked, here]
        simp [Pc.polled, List.mem_of_getElem? entry]
      · rw [pcs, here]
        rfl

/-- **Coming back.** When control comes back from a `wait`, the accepted tasks have terminated. -/
theorem terminated_of_comesBack (hσ : σ.Grouped N owner) (h : Step N σ l σ')
    (hback : σ.ComesBack c g l) (ht : (σ.task t).Accepted g) :
    (σ.task t).state = .terminated :=
  hσ.terminated_of_zero (hσ.zero_of_comesBack h hback) ht

/-- **Nobody is forgotten.** When the accepted tasks have left `terminate`, nobody is parked. -/
theorem not_parked_of_finished (hσ : σ.Grouped N owner)
    (hfinished : ∀ t, (σ.task t).Accepted g → (σ.task t).Finished) :
    (σ.group g).blockedTask = none := by
  have hnobody : ∀ i < N, ¬(g ∈ (σ.pcs i).pending ∨ (σ.pcs i).taking = some g) := fun i hi h ↦ by
    obtain ⟨t, ht, hlocked⟩ := hσ.exists_dying hi h
    rw [(hfinished t ht).2] at hlocked
    cases hlocked
  have howed : σ.owed g = 0 := hσ.owed_eq_zero_iff.mpr fun t ht ↦ (hfinished t ht).1
  have hpending : σ.pending N g = 0 := Finset.sum_eq_zero fun i hi ↦
    List.count_eq_zero.mpr fun h ↦ hnobody i (Finset.mem_range.mp hi) (Or.inl h)
  have hcount := hσ.count g
  by_contra hparked
  obtain ⟨i, hi, htaking⟩ := hσ.parked g hparked (by omega)
  exact hnobody i hi (Or.inr htaking)

end Sched.Grouped

theorem Task.groups_addToGroup (a : Task) (g : ℕ) (gp : TaskGroup) :
    (a.addToGroup g gp).1.groups = a.groups ++ if (a.addToGroup g gp).2.2 then [g] else [] := by
  rw [addToGroup]
  split
  · exact (List.append_nil _).symm
  · rfl

theorem Life.groups {c : ℕ} {a a' : Task} {l : Label} (h : Life c a l a')
    (hl : ∀ b g, l ≠ .registe b c g) : a'.groups = a.groups := by
  cases h with
  | make isPure new => rw [new]
  | registe => exact absurd rfl (hl _ _)
  | _ => rfl

/-- **Accepted.** A task is accepted in a group when `registe` returns `true`, and it stays so. -/
theorem Step.accepted_iff {N t g : ℕ} {σ σ' : Sched} {l : Label} (h : Step N σ l σ') (hσ : σ.Ok N) :
    (σ'.task t).Accepted g ↔ (σ.task t).Accepted g ∨
      ∃ c, l = .registe c t g ∧ ((σ.task t).addToGroup g (σ.group g)).2.2 = true := by
  rw [Task.Accepted, Task.Accepted]
  by_cases hl : ∃ c u g', l = .registe c u g'
  · obtain ⟨c, u, g', rfl⟩ := hl
    have htask : σ'.task = Function.update σ.task u ((σ.task u).addToGroup g' (σ.group g')).1 := by
      cases h <;> rfl
    rw [htask]
    by_cases htu : t = u
    · subst htu
      rw [Function.update_self, Task.groups_addToGroup, List.mem_append]
      refine or_congr_right ⟨fun hg ↦ ?_, fun ⟨b, heq, haccepted⟩ ↦ ?_⟩
      · split at hg
        next haccepted =>
          obtain rfl := List.mem_singleton.mp hg
          exact ⟨c, rfl, haccepted⟩
        next => cases hg
      · cases heq
        rw [if_pos haccepted]
        exact List.mem_singleton_self g
    · rw [Function.update_of_ne htu]
      exact (or_iff_left fun ⟨b, heq, _⟩ ↦ htu (Label.registe.inj heq).2.1.symm).symm
  · obtain ⟨c, hother, hlife⟩ := h.life hσ
    have hgroups : (σ'.task t).groups = (σ.task t).groups := by
      by_cases htc : t = c
      · subst htc
        exact hlife.groups fun b g heq ↦ hl ⟨b, t, g, heq⟩
      · rw [hother t htc]
    rw [hgroups]
    exact (or_iff_left fun ⟨b, heq, _⟩ ↦ hl ⟨b, t, g, heq⟩).symm

theorem Step.registe_terminated {N c t g : ℕ} {σ σ' : Sched} (h : Step N σ (.registe c t g) σ')
    (hterm : (σ.task t).state = .terminated) : σ' = σ := by
  cases h with
  | registe lt here made unlocked room alive accepted =>
    rw [Task.isFini, hterm] at accepted
    cases accepted
  | registeFini lt here made unlocked alive rejected =>
    rw [Task.addToGroup, if_pos rejected, Sched.setGroup, Sched.setTask,
      Function.update_eq_self, Function.update_eq_self]

/-- **The wait protocol.** In every run of a program in which each group belongs to one task:
control comes back from a `wait` only when every accepted task has terminated; when all of them have
left `terminate`, nobody is parked; since its last `wait` began a task has been put into a queue at
most once; and `registe` of a task that has terminated changes nothing. -/
theorem wait_protocol {N : ℕ} {owner : ℕ → ℕ} {σ : Sched}
    (hrun : Reachable (OwnedStep N owner) Sched.initial σ) (g : ℕ) :
    (∀ c l σ', OwnedStep N owner σ l σ' → σ.ComesBack c g l →
      ∀ t, (σ.task t).Accepted g → (σ.task t).state = .terminated) ∧
    ((∀ t, (σ.task t).Accepted g → (σ.task t).Finished) → (σ.group g).blockedTask = none) ∧
    (∀ t, (σ.task t).wakes ≤ 1) ∧
    ∀ c t σ', OwnedStep N owner σ (.registe c t g) σ' → (σ.task t).state = .terminated →
      σ' = σ := by
  have hσ := Sched.Grouped.of_reachable hrun
  exact ⟨fun c l σ' hstep hback t ↦ hσ.terminated_of_comesBack hstep.1 hback,
    hσ.not_parked_of_finished, fun t ↦ (hσ.ok.task t).wakes,
    fun c t σ' hstep ↦ hstep.1.registe_terminated⟩

/-- The task `0` registers the task `1` in the group `0`, waits, and is parked. The task `1`
terminates and has the task `0` put into the queue. -/
theorem wait_protocol_woken :
    ∃ σ σ', Reachable (OwnedStep 1 fun _ ↦ 0) Sched.initial σ ∧
      OwnedStep 1 (fun _ ↦ 0) σ (.back 0) σ' ∧ (σ.task 0).waiting = some 0 ∧
      (σ.task 1).Accepted 0 ∧ (σ.task 1).state = .terminated := by
  have hwait : Reachable (OwnedStep 1 fun _ ↦ 0) Sched.initial _ :=
    ((((((((Reachable.refl _ _).snoc
      ⟨Step.newTask (i := 0) false (by decide) trivial, trivial⟩).snoc
      ⟨Step.newTask (i := 0) false (by decide) trivial, trivial⟩).snoc
      ⟨Step.addRunnable (i := 0) (t := 0) (by decide) trivial (by decide) rfl, trivial⟩).snoc
      ⟨Step.addRunnable (i := 0) (t := 1) (by decide) trivial (by decide) rfl, trivial⟩).snoc
      ⟨Step.control (i := 0) (by decide) rfl .start, trivial⟩).snoc
      ⟨Step.dequeue (i := 0) (t := 0) (by decide) rfl rfl, trivial⟩).snoc
      ⟨Step.registe (i := 0) (c := 0) (t := 1) (g := 0) (by decide) rfl (by decide) rfl
        (by decide) rfl rfl, rfl⟩).snoc
      ⟨Step.waitYield (i := 0) (c := 0) (g := 0) (by decide) rfl rfl (by decide) rfl, rfl⟩
  have hparked := (((hwait.snoc
      ⟨Step.handleWait (i := 0) (t := 0) (by decide) rfl rfl rfl, trivial⟩).snoc
      ⟨Step.resumeLock (i := 0) (by decide) rfl rfl, trivial⟩).snoc
      ⟨Step.resumeBlock (i := 0) (by decide) rfl (by decide), trivial⟩).snoc
      ⟨Step.resumeUnlock (i := 0) (by decide) rfl, trivial⟩
  have hwoken := ((((((((hparked.snoc
      ⟨Step.dequeue (i := 0) (t := 1) (by decide) rfl rfl, trivial⟩).snoc
      ⟨Step.terminate (i := 0) (c := 1) (by decide) rfl rfl, trivial⟩).snoc
      ⟨Step.informLock (i := 0) (by decide) rfl rfl, trivial⟩).snoc
      ⟨Step.informDecrement (i := 0) (by decide) rfl, trivial⟩).snoc
      ⟨Step.informTake (i := 0) (by decide) rfl rfl, trivial⟩).snoc
      ⟨Step.informEnqueue (i := 0) (by decide) rfl, trivial⟩).snoc
      ⟨Step.informUnlock (i := 0) (by decide) rfl, trivial⟩).snoc
      ⟨Step.terminated (i := 0) (by decide) rfl, trivial⟩).snoc
      ⟨Step.handleOther (i := 0) (t := 1) (by decide) rfl (Or.inl rfl), trivial⟩
  obtain ⟨σ, σ', hrun, hstep, hwaiting, haccepted⟩ : ∃ σ σ',
      Reachable (OwnedStep 1 fun _ ↦ 0) Sched.initial σ ∧
        OwnedStep 1 (fun _ ↦ 0) σ (.back 0) σ' ∧ (σ.task 0).waiting = some 0 ∧
        (σ.task 1).Accepted 0 :=
    ⟨_, _, hwoken, ⟨.dequeue (i := 0) (t := 0) (by decide) rfl rfl, trivial⟩, rfl,
      List.mem_singleton_self 0⟩
  exact ⟨σ, σ', hrun, hstep, hwaiting, haccepted,
    (wait_protocol hrun 0).1 0 _ σ' hstep (Or.inr ⟨rfl, hwaiting⟩) 1 haccepted⟩

end TYThread
