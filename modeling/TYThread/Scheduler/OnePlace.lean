import TYThread.Scheduler.Steps

/-!
# No task is lost or duplicated

In every reachable state a task is in at most one place, once, and a task that has been spawned and
has not terminated is in one. So no task is run by two threads, and none is linked into two queues.
-/

namespace TYThread

open Transition

/-- `t` is in the place `p`, once, and nowhere else. -/
def Sched.OnlyIn (σ : Sched) (t : ℕ) (p : Place) : Prop :=
  σ.times t p = 1 ∧ ∀ q, q ≠ p → σ.times t q = 0

theorem PerThreadMgr.part_le_count (m : PerThreadMgr) (t : ℕ) (part : Part) :
    (m.part part).count t ≤ m.count t := by
  cases part <;>
    · simp only [PerThreadMgr.part, PerThreadMgr.count]
      omega

theorem PerThreadMgr.part_add_le_count (m : PerThreadMgr) (t : ℕ) {part part' : Part}
    (h : part ≠ part') : (m.part part).count t + (m.part part').count t ≤ m.count t := by
  cases part <;> cases part' <;>
    first
    | exact absurd rfl h
    | simp only [PerThreadMgr.part, PerThreadMgr.count]
      omega

theorem PerThreadMgr.exists_part {m : PerThreadMgr} {t : ℕ} (h : 0 < m.count t) :
    ∃ part, 0 < (m.part part).count t := by
  by_contra hnone
  have hzero : ∀ part, (m.part part).count t = 0 := fun part ↦
    Nat.eq_zero_of_not_pos fun hpos ↦ hnone ⟨part, hpos⟩
  have h₁ := hzero .runnable
  have h₂ := hzero .mpiBlocked
  have h₃ := hzero .stolen
  have h₄ := hzero .running
  have h₅ := hzero .informing
  simp only [PerThreadMgr.part] at h₁ h₂ h₃ h₄ h₅
  rw [PerThreadMgr.count] at h
  omega

namespace Sched.Ok

variable {N : ℕ} {σ : Sched} {t : ℕ} {p q : Place}

theorem lt_of_part (hσ : σ.Ok N) {i : ℕ} {part : Part}
    (h : 0 < ((σ.thread i).part part).count t) : i < N := by
  by_contra hle
  rw [hσ.outside i (not_lt.mp hle)] at h
  have hempty : (Sched.initial.thread i).part part = [] := by
    by_cases hi : i = 0
    · rw [hi]
      cases part <;> rfl
    · simp only [Sched.initial, if_neg hi]
      cases part <;> rfl
  rw [hempty] at h
  exact absurd h (lt_irrefl 0)

theorem times_le_one (hσ : σ.Ok N) (t : ℕ) (p : Place) : σ.times t p ≤ 1 := by
  cases p with
  | thread i part =>
    rw [Sched.times]
    rcases Nat.eq_zero_or_pos (((σ.thread i).part part).count t) with hzero | hpos
    · rw [hzero]
      exact Nat.zero_le 1
    · exact ((σ.thread i).part_le_count t part).trans (hσ.count_le_one (hσ.lt_of_part hpos))
  | blocked g =>
    rw [Sched.times]
    split <;> omega

theorem place_unique (hσ : σ.Ok N) (hp : 0 < σ.times t p) (hq : 0 < σ.times t q) : p = q := by
  have hcount : ∀ {i : ℕ} {part : Part}, 0 < σ.times t (.thread i part) →
      i < N ∧ 0 < (σ.thread i).count t := fun {i part} h ↦
    ⟨hσ.lt_of_part h, h.trans_le ((σ.thread i).part_le_count t part)⟩
  have hblocked : ∀ {g : ℕ}, 0 < σ.times t (.blocked g) → (σ.group g).blockedTask = some t := by
    intro g h
    by_contra hne
    rw [Sched.times, if_neg hne] at h
    exact absurd h (lt_irrefl 0)
  cases p with
  | thread i part =>
    obtain ⟨hi, hti⟩ := hcount hp
    cases q with
    | thread j part' =>
      obtain ⟨hj, htj⟩ := hcount hq
      obtain rfl := hσ.eq_of_count hi hj hti htj
      by_contra hne
      have hadd := (σ.thread i).part_add_le_count t (fun h ↦ hne (congrArg _ h) : part ≠ part')
      have hone := hσ.count_le_one (t := t) hi
      rw [Sched.times] at hp hq
      omega
    | blocked g => exact absurd (hblocked hq) (hσ.not_blocked hi hti)
  | blocked g =>
    cases q with
    | thread j part' =>
      obtain ⟨hj, htj⟩ := hcount hq
      exact absurd (hblocked hp) (hσ.not_blocked hj htj)
    | blocked g' =>
      have hg := (hσ.blocked g t (hblocked hp)).waiting
      have hg' := (hσ.blocked g' t (hblocked hq)).waiting
      rw [Option.some.inj (hg.symm.trans hg')]

theorem exists_place (h : 0 < σ.occ N t) : ∃ p, 0 < σ.times t p := by
  by_cases hslot : 0 < σ.slot t
  · unfold Sched.slot at hslot
    split at hslot
    · exact absurd hslot (lt_irrefl 0)
    · exact ⟨.blocked _, hslot⟩
  · have hsum : ∑ i ∈ Finset.range N, (σ.thread i).count t ≠ 0 := by
      rw [Sched.occ] at h
      omega
    obtain ⟨i, -, hi⟩ := Finset.exists_ne_zero_of_sum_ne_zero hsum
    obtain ⟨part, hpart⟩ := PerThreadMgr.exists_part (Nat.pos_of_ne_zero hi)
    exact ⟨.thread i part, hpart⟩

/-- A task that has been spawned and has not terminated is in exactly one place. -/
theorem exists_onlyIn (hσ : σ.Ok N) (hspawned : (σ.task t).spawned = true)
    (hlive : (σ.task t).state ≠ .terminated) : ∃ p, σ.OnlyIn t p := by
  obtain ⟨p, hp⟩ := exists_place (hσ.kept t hspawned hlive)
  refine ⟨p, ?_, fun q hq ↦ ?_⟩
  · have := hσ.times_le_one t p
    omega
  · by_contra hne
    exact hq (hσ.place_unique (Nat.pos_of_ne_zero hne) hp)

end Sched.Ok

/-- **No task is lost, duplicated or run twice at once.** Whatever the threads and the program do,
as long as one task at a time waits on a group: a task that has been spawned and has not terminated
is in exactly one place, once, and a task that has terminated is in at most one. -/
theorem tasks_in_one_place {N : ℕ} {σ : Sched}
    (hrun : Reachable (OneWaiterStep N) Sched.initial σ) (t : ℕ) :
    ((σ.task t).spawned = true → (σ.task t).state ≠ .terminated → ∃ p, σ.OnlyIn t p) ∧
    (∀ p, σ.times t p ≤ 1) ∧ ∀ p q, 0 < σ.times t p → 0 < σ.times t q → p = q :=
  have hσ := Sched.Ok.of_reachable hrun
  ⟨hσ.exists_onlyIn, hσ.times_le_one t, fun _ _ ↦ hσ.place_unique⟩

/-- A task that thread `1` has stolen from thread `0` and not installed. -/
theorem tasks_in_one_place_stolen :
    ∃ σ, Reachable (OneWaiterStep 2) Sched.initial σ ∧ 0 < σ.times 0 (.thread 1 .stolen) ∧
      ∀ p, 0 < σ.times 0 p → p = .thread 1 .stolen := by
  have hrun : Reachable (OneWaiterStep 2) Sched.initial _ :=
    ((((Reachable.refl _ _).snoc
      ⟨Step.newTask (i := 0) false (by decide) trivial, trivial⟩).snoc
      ⟨Step.addRunnable (i := 0) (t := 0) (by decide) trivial (by decide) rfl, trivial⟩).snoc
      ⟨Step.control (i := 1) (by decide) rfl (.empty rfl), trivial⟩).snoc
      ⟨Step.steal (i := 1) (v := 0) (by decide) rfl (by decide) (by decide)
        (show _ = [0] ++ [] from rfl) (by decide), trivial⟩
  exact ⟨_, hrun, Nat.one_pos, fun p hp ↦ (tasks_in_one_place hrun 0).2.2 p _ hp Nat.one_pos⟩

end TYThread
