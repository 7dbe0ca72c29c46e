import Mathlib.Order.WellFoundedSet
import TYThread.Group.Wait
import TYThread.Scheduler.Shutdown

/-!
# Programs that join their tasks

A task that is parked waits for others, which may be parked themselves. When tasks wait only for
tasks that are below them in some order, and only for tasks that have been handed to `addRunnable`,
then this does not go round in a circle. Fork and join is of this kind: a task waits for tasks that
it has made. There the last task of such a chain is in the hands of a thread, and at the shutdown
nobody is parked.

The order is a parameter. A task that is registered with `go` has always been handed to
`addRunnable`.
-/

namespace TYThread

open Transition

/-- A step of a program in which a task waits only for tasks that are below it. -/
def JoinStep (N : ℕ) (owner : ℕ → ℕ) (r : ℕ → ℕ → Prop) (σ : Sched) (l : Label) (σ' : Sched) :
    Prop :=
  OwnedStep N owner σ l σ' ∧ ∀ c t g, l = .registe c t g → r t c ∧ (σ.task t).spawned = true

/-- Whoever a group waits for is below its owner. -/
structure Sched.Joined (N : ℕ) (owner : ℕ → ℕ) (r : ℕ → ℕ → Prop) (σ : Sched) : Prop where
  grouped : σ.Grouped N owner
  below : ∀ t g, (σ.task t).Accepted g → r t (owner g) ∧ (σ.task t).spawned = true

/-- A thread has a task somewhere. -/
def PerThreadMgr.AtWork (m : PerThreadMgr) : Prop := ∃ part, m.part part ≠ []

/-- A thread that is counting down has a task in its hands. -/
theorem PerThreadMgr.atWork_of_pending {m : PerThreadMgr} {g : ℕ}
    (h : g ∈ m.pc.pending ∨ m.pc.taking = some g) : m.AtWork := by
  refine ⟨.running, ?_⟩
  rw [part]
  revert h
  cases m.pc with
  | task t p act =>
    cases act with
    | terminating | inform => exact fun _ ↦ List.cons_ne_nil _ _
    | user | switched | resume | requeue => exact fun h ↦ by simp [Pc.pending, Pc.taking] at h
  | _ => exact fun h ↦ by simp [Pc.pending, Pc.taking] at h

theorem Life.spawned {c : ℕ} {a a' : Task} {l : Label} (h : Life c a l a')
    (hs : a.spawned = true) : a'.spawned = true := by
  cases h with
  | make isPure new =>
    rw [new] at hs
    cases hs
  | spawn => rfl
  | _ => exact hs

section

variable {N : ℕ} {owner : ℕ → ℕ} {r : ℕ → ℕ → Prop} {σ σ' : Sched} {l : Label}

namespace Sched.Joined

theorem of_step (hσ : σ.Joined N owner r) (h : JoinStep N owner r σ l σ') :
    σ'.Joined N owner r := by
  obtain ⟨⟨hstep, howned⟩, horder⟩ := h
  obtain ⟨c, hother, hlife⟩ := hstep.life hσ.grouped.ok
  have hspawned : ∀ t, (σ.task t).spawned = true → (σ'.task t).spawned = true := fun t ht ↦ by
    by_cases htc : t = c
    · subst htc
      exact hlife.spawned ht
    · rwa [hother t htc]
  refine ⟨hσ.grouped.of_step hstep howned, fun t g ht ↦ ?_⟩
  rcases (hstep.accepted_iff hσ.grouped.ok).mp ht with hold | ⟨b, rfl, -⟩
  · exact (hσ.below t g hold).imp_right (hspawned t)
  · have hnew := horder b t g rfl
    rw [show b = owner g from howned] at hnew
    exact hnew.imp_right (hspawned t)

theorem of_reachable (h : Reachable (JoinStep N owner r) Sched.initial σ) : σ.Joined N owner r :=
  h.invariant ⟨.initial N owner, fun _ _ ht ↦ absurd ht List.not_mem_nil⟩
    fun _ _ _ hσ hstep ↦ hσ.of_step hstep

theorem swept_of_reachable (h : Reachable (JoinStep N owner r) Sched.initial σ) : σ.Swept N := by
  have hstart : Sched.initial.Swept N :=
    ⟨fun c hc ↦ absurd hc (by simp [Sched.initial]),
      fun hexit ↦ absurd hexit (by simp [Sched.initial])⟩
  exact h.invariant hstart fun _ _ _ hσ hstep ↦ hstep.1.1.swept hσ

/-- While a task is parked, a thread is at work, by induction on the order in which tasks wait. -/
theorem exists_atWork [IsStrictOrder ℕ r] (hσ : σ.Joined N owner r) {g t : ℕ}
    (h : (σ.group g).blockedTask = some t) : ∃ i < N, (σ.thread i).AtWork := by
  have hok := hσ.grouped.ok
  have hfinite : {t | ∃ g, (σ.group g).blockedTask = some t}.Finite := by
    refine (Set.finite_lt_nat σ.next).subset fun u ⟨g, hg⟩ ↦ hok.lt_next ?_
    by_contra hnot
    have hwaiting := (hok.blocked g u hg).waiting
    rw [((hok.task u).fresh (Bool.not_eq_true _ ▸ hnot)).2] at hwaiting
    cases hwaiting
  refine (hfinite.wellFoundedOn (r := r)).induction (P := fun _ ↦ ∃ i < N, (σ.thread i).AtWork)
    ⟨g, h⟩ fun u ⟨g, hg⟩ ih ↦ ?_
  by_cases hpending : ∃ i < N, g ∈ (σ.pcs i).pending
  · obtain ⟨i, hi, hmem⟩ := hpending
    exact ⟨i, hi, PerThreadMgr.atWork_of_pending (Or.inl hmem)⟩
  by_cases howed : σ.owed g = 0
  · -- Nothing is left to wait for, so a thread is about to take the task.
    have hzero : σ.pending N g = 0 := Finset.sum_eq_zero fun i hi ↦
      List.count_eq_zero.mpr fun hmem ↦ hpending ⟨i, Finset.mem_range.mp hi, hmem⟩
    have hcount := hσ.grouped.count g
    obtain ⟨i, hi, htaking⟩ := hσ.grouped.parked g (by rw [hg]; exact Option.some_ne_none u)
      (by omega)
    exact ⟨i, hi, PerThreadMgr.atWork_of_pending (Or.inr htaking)⟩
  · rw [hσ.grouped.owed_eq_zero_iff] at howed
    push Not at howed
    obtain ⟨v, haccepted, hlive⟩ := howed
    obtain ⟨hbelow, hspawned⟩ := hσ.below v g haccepted
    rw [← hσ.grouped.owned u g (hok.blocked g u hg).waiting] at hbelow
    obtain ⟨p, hp⟩ := Sched.Ok.exists_place (hok.kept v hspawned hlive)
    cases p with
    | thread i part =>
      exact ⟨i, hok.lt_of_part hp, part, List.ne_nil_of_mem (List.count_pos_iff.mp hp)⟩
    | blocked g' =>
      refine ih v ⟨g', ?_⟩ hbelow
      by_contra hne
      rw [Sched.times, if_neg hne] at hp
      exact lt_irrefl 0 hp

/-- When all threads have left, nobody is parked. -/
theorem finished [IsStrictOrder ℕ r] (hσ : σ.Joined N owner r)
    (hexited : ∀ i < N, (σ.thread i).pc = .exited) : (∀ g, (σ.group g).blockedTask = none) ∧
      ∀ t, (σ.task t).spawned = true → (σ.task t).state = .terminated := by
  have hok := hσ.grouped.ok
  have hidle : ∀ i < N, ∀ part, (σ.thread i).part part = [] := fun i hi ↦
    hok.part_of_exited (hexited i hi)
  have hnobody : ∀ g, (σ.group g).blockedTask = none := fun g ↦ by
    by_contra hne
    obtain ⟨t, ht⟩ := Option.ne_none_iff_exists'.mp hne
    obtain ⟨i, hi, part, hpart⟩ := hσ.exists_atWork ht
    exact hpart (hidle i hi part)
  refine ⟨hnobody, fun t hspawned ↦ ?_⟩
  by_contra hlive
  obtain ⟨p, hp⟩ := Sched.Ok.exists_place (hok.kept t hspawned hlive)
  cases p with
  | thread i part =>
    rw [Sched.times, hidle i (hok.lt_of_part hp) part] at hp
    exact lt_irrefl 0 hp
  | blocked g =>
    rw [Sched.times, hnobody g] at hp
    exact lt_irrefl 0 hp

end Sched.Joined

/-- **Nobody waits in a circle.** In a program that joins its tasks, a thread is at work while a
task is parked. So when the main thread has left `run`, nobody is parked, and every task that was
ever handed to `addRunnable` has terminated. -/
theorem joins_come_back [IsStrictOrder ℕ r]
    (hrun : Reachable (JoinStep N owner r) Sched.initial σ) :
    (∀ g t, (σ.group g).blockedTask = some t → ∃ i < N, (σ.thread i).AtWork) ∧
    ((σ.thread 0).pc = .exited → (∀ g, (σ.group g).blockedTask = none) ∧
      ∀ t, (σ.task t).spawned = true → (σ.task t).state = .terminated) := by
  have hσ := Sched.Joined.of_reachable hrun
  exact ⟨fun g t h ↦ hσ.exists_atWork h,
    fun hexit ↦ hσ.finished ((Sched.Joined.swept_of_reachable hrun).exited hexit)⟩

end

/-- The task `0` waits for the task `1`, which it has made, and is parked. The task `1` is in the
queue. -/
theorem Sched.exists_joining :
    ∃ σ, Reachable (JoinStep 1 (fun _ ↦ 0) (· > ·)) Sched.initial σ ∧
      (σ.group 0).blockedTask = some 0 ∧ (σ.thread 0).runnableQueue = [1] := by
  have hforked : Reachable (JoinStep 1 (fun _ ↦ 0) (· > ·)) Sched.initial _ :=
    ((((((Reachable.refl _ _).snoc
      ⟨⟨Step.newTask (i := 0) false (by decide) (by trivial), trivial⟩, nofun⟩).snoc
      ⟨⟨Step.addRunnable (i := 0) (t := 0) (by decide) (by trivial) (by decide) rfl, trivial⟩,
        nofun⟩).snoc
      ⟨⟨Step.control (i := 0) (by decide) rfl .start, trivial⟩, nofun⟩).snoc
      ⟨⟨Step.dequeue (i := 0) (t := 0) (by decide) rfl rfl, trivial⟩, nofun⟩).snoc
      ⟨⟨Step.newTask (i := 0) false (by decide) (by trivial), trivial⟩, nofun⟩).snoc
      ⟨⟨Step.addRunnable (i := 0) (t := 1) (by decide) (by trivial) (by decide) rfl, trivial⟩,
        nofun⟩
  have hparked := (((((hforked.snoc
      ⟨⟨Step.registe (i := 0) (c := 0) (t := 1) (g := 0) (by decide) rfl (by decide) rfl
        (by decide) rfl rfl, rfl⟩, fun c t g h ↦ by
          obtain ⟨rfl, rfl, rfl⟩ := Label.registe.inj h
          exact ⟨Nat.one_pos, rfl⟩⟩).snoc
      ⟨⟨Step.waitYield (i := 0) (c := 0) (g := 0) (by decide) rfl rfl (by decide) rfl, rfl⟩,
        nofun⟩).snoc
      ⟨⟨Step.handleWait (i := 0) (t := 0) (by decide) rfl rfl rfl, trivial⟩, nofun⟩).snoc
      ⟨⟨Step.resumeLock (i := 0) (by decide) rfl rfl, trivial⟩, nofun⟩).snoc
      ⟨⟨Step.resumeBlock (i := 0) (by decide) rfl (by decide), trivial⟩, nofun⟩).snoc
      ⟨⟨Step.resumeUnlock (i := 0) (by decide) rfl, trivial⟩, nofun⟩
  exact ⟨_, hparked, rfl, rfl⟩

/-- There is a thread that will run the other task. -/
theorem joins_come_back_parked :
    ∃ σ, Reachable (JoinStep 1 (fun _ ↦ 0) (· > ·)) Sched.initial σ ∧
      (σ.group 0).blockedTask = some 0 ∧ ∃ i < 1, (σ.thread i).AtWork := by
  obtain ⟨σ, hrun, hparked, -⟩ := Sched.exists_joining
  exact ⟨σ, hrun, hparked, (joins_come_back hrun).1 0 0 hparked⟩

end TYThread
