import TYThread.Group.Invariant

/-!
# One step and the task groups

The invariant of the groups is preserved by every step of a program in which each group belongs to
one task. Most steps neither touch a group nor bring a thread closer to one, and for these one lemma
does.
-/

namespace TYThread

open Counting

theorem Task.continuationIn_terminated (a : Task) :
    a.continuationIn.state = .terminated ↔ a.state = .terminated := by
  rw [Task.continuationIn]
  dsimp only
  split
  · rename_i h
    simp [h.1]
  · exact Iff.rfl

theorem Task.owed_congr {a b : Task} {g : ℕ} (hstate : a.state = .terminated ↔
    b.state = .terminated) (hgroups : a.groups = b.groups) : a.owed g = b.owed g := by
  simp only [Task.owed, hstate, hgroups]

theorem Pc.absurd_deciding {pc : Pc} {P : Prop} {t : ℕ} (ht : pc.deciding = some t)
    (h : pc.deciding = none) : P :=
  absurd (h.symm.trans ht) (by simp)

/-- A thread at `pc'` is to the groups what it is at `pc`. -/
structure Pc.Alike (pc' pc : Pc) : Prop where
  pending : pc'.pending = pc.pending
  holding : pc'.holding = pc.holding
  taking : pc'.taking = pc.taking

theorem alike_afterTask {t : ℕ} {p : Option ℕ} {act : Activity}
    (hpending : (Pc.task t p act).pending = [] := by rfl)
    (hholding : (Pc.task t p act).holding = none := by rfl)
    (htaking : (Pc.task t p act).taking = none := by rfl) :
    (afterTask p).Alike (.task t p act) := by
  constructor
  · rw [Pc.pending_afterTask, hpending]
  · rw [Pc.holding_afterTask, hholding]
  · rw [Pc.taking_afterTask, htaking]

theorem Control.alike {N i : ℕ} {σ : Sched} {pc pc' : Pc} (h : Control N σ i pc pc') :
    pc'.Alike pc := by
  cases h <;> exact ⟨rfl, rfl, rfl⟩

theorem Control.not_deciding {N i : ℕ} {σ : Sched} {pc pc' : Pc} (h : Control N σ i pc pc') :
    pc.deciding = none := by
  cases h <;> rfl

namespace Sched

variable {N : ℕ} {owner : ℕ → ℕ} {σ σ' : Sched} {i g : ℕ} {pc : Pc} {gp : TaskGroup}

theorem owed_congr (hnext : σ'.next = σ.next)
    (h : ∀ t, (σ'.task t).owed g = (σ.task t).owed g) : σ'.owed g = σ.owed g := by
  rw [owed, owed, hnext]
  exact Finset.sum_congr rfl fun t _ ↦ h t

theorem pcs_update {m : PerThreadMgr} (hthread : σ'.thread = Function.update σ.thread i m) :
    σ'.pcs = Function.update σ.pcs i m.pc := by
  funext j
  rw [pcs, hthread]
  by_cases hj : j = i
  · subst hj
    rw [Function.update_self, Function.update_self]
  · rw [Function.update_of_ne hj, Function.update_of_ne hj, pcs]

theorem pending_update (hi : i < N) (hpcs : σ'.pcs = Function.update σ.pcs i pc) :
    σ'.pending N g + (σ.pcs i).pending.count g = σ.pending N g + pc.pending.count g := by
  change ∑ j ∈ Finset.range N, (σ'.pcs j).pending.count g + _ = _
  rw [hpcs]
  exact sum_update σ.pcs (fun pc ↦ pc.pending.count g) (Finset.mem_range.mpr hi) pc

theorem total_same (hi : i < N) (hpcs : σ'.pcs = Function.update σ.pcs i pc)
    (h : ∀ g', σ'.owed g' + pc.pending.count g' = σ.owed g' + (σ.pcs i).pending.count g')
    (g' : ℕ) : σ'.owed g' + σ'.pending N g' = σ.owed g' + σ.pending N g' := by
  have hsum := pending_update (g := g') hi hpcs
  have := h g'
  omega

namespace Grouped

/-- A task waits for a group only if it did, or if it is the owner and has just yielded. -/
theorem waiting_of_step {l : Label} (hσ : σ.Grouped N owner) (h : Step N σ l σ')
    (hl : l.Owned owner) {t g : ℕ} (ht : (σ'.task t).waiting = some g) :
    (σ.task t).waiting = some g ∨
      (t = owner g ∧ ∃ i < N, (σ'.pcs i).deciding = some t) := by
  obtain ⟨c, hother, hlife⟩ := h.life hσ.ok
  by_cases htc : t = c
  · subst htc
    rcases hlife.waiting ht with hold | rfl
    · exact Or.inl hold
    · refine Or.inr ⟨hl, ?_⟩
      cases h with
      | @waitYield i c g p lt => exact ⟨i, lt, by simp [pcs, Sched.goto, Pc.deciding]⟩
  · exact Or.inl (by rwa [← hother t htc])

theorem oneWaiter (hσ : σ.Grouped N owner) {l : Label} (hl : l.Owned owner) : σ.OneWaiter l := by
  cases l with
  | wait c g returned => exact fun t ht ↦ (hσ.owned t g ht).trans hl.symm
  | _ => trivial

/-- A task that is running does not wait, so nobody waits for a group whose owner is running. -/
theorem not_waiting (hσ : σ.Grouped N owner) (hi : i < N) {c : ℕ} {p : Option ℕ}
    (here : (σ.thread i).pc = .task c p .user) (hc : c = owner g) (t : ℕ) :
    (σ.task t).waiting ≠ some g := by
  intro ht
  have hhand := hσ.ok.hand_at hi here
  have htc : t = c := (hσ.owned t g ht).trans hc.symm
  rw [htc] at ht
  exact absurd (ht.symm.trans hhand.2) (by simp)

theorem not_parked (hσ : σ.Grouped N owner) (h : ∀ t, (σ.task t).waiting ≠ some g) :
    (σ.group g).blockedTask = none := by
  by_contra hne
  obtain ⟨t, ht⟩ := Option.ne_none_iff_exists'.mp hne
  exact h t (hσ.ok.blocked g t ht).waiting

theorem count_same (hσ : σ.Grouped N owner) (hgroup : σ'.group = Function.update σ.group g gp)
    (hcount : gp.blockingCount = (σ.group g).blockingCount)
    (htotal : ∀ g', σ'.owed g' + σ'.pending N g' = σ.owed g' + σ.pending N g') (g' : ℕ) :
    (σ'.group g').blockingCount = σ'.owed g' + σ'.pending N g' := by
  rw [hgroup, apply_update_eq TaskGroup.blockingCount hcount, hσ.count]
  exact_mod_cast (htotal g').symm

section

variable (hσ : σ.Grouped N owner) (hpcs : σ'.pcs = Function.update σ.pcs i pc)
  (hgroup : σ'.group = Function.update σ.group g gp)

include hσ hpcs hgroup

theorem holder_same (hholding : pc.holding = (σ.pcs i).holding)
    (hlock : gp.lock = (σ.group g).lock) (g' j : ℕ) :
    (σ'.group g').lock = some j ↔ j < N ∧ (σ'.pcs j).holding = some g' := by
  have hpc : (σ'.pcs j).holding = (σ.pcs j).holding := by
    rw [hpcs, apply_update_eq Pc.holding hholding]
  rw [hgroup, apply_update_eq TaskGroup.lock hlock]
  rw [hpc]
  exact hσ.holder g' j

theorem holder_lock (hi : i < N) (free : (σ.group g).lock = none) (hnone : (σ.pcs i).holding = none)
    (hholding : pc.holding = some g) (hlock : gp.lock = some i) (g' j : ℕ) :
    (σ'.group g').lock = some j ↔ j < N ∧ (σ'.pcs j).holding = some g' := by
  have hold := hσ.holder g' j
  rw [hgroup, hpcs]
  by_cases hg : g' = g <;> by_cases hj : j = i
  · subst hg hj
    rw [Function.update_self, Function.update_self, hlock, hholding]
    simp [hi]
  · subst hg
    rw [free] at hold
    rw [Function.update_self, Function.update_of_ne hj, hlock, ← hold]
    simp [Ne.symm hj]
  · subst hj
    rw [hnone] at hold
    rw [Function.update_of_ne hg, Function.update_self, hold, hholding]
    simp [Ne.symm hg]
  · rw [Function.update_of_ne hg, Function.update_of_ne hj]
    exact hold

theorem holder_unlock (hi : i < N) (hheld : (σ.pcs i).holding = some g)
    (hholding : pc.holding = none) (hlock : gp.lock = none) (g' j : ℕ) :
    (σ'.group g').lock = some j ↔ j < N ∧ (σ'.pcs j).holding = some g' := by
  have hold := hσ.holder g' j
  have hheld' := (hσ.holder g i).mpr ⟨hi, hheld⟩
  rw [hgroup, hpcs]
  by_cases hg : g' = g <;> by_cases hj : j = i
  · subst hg hj
    rw [Function.update_self, Function.update_self, hlock, hholding]
    simp
  · subst hg
    rw [hheld'] at hold
    rw [Function.update_self, Function.update_of_ne hj, hlock, ← hold]
    simp [Ne.symm hj]
  · subst hj
    rw [hheld] at hold
    rw [Function.update_of_ne hg, Function.update_self, hold, hholding]
    simp [Ne.symm hg]
  · rw [Function.update_of_ne hg, Function.update_of_ne hj]
    exact hold

omit hgroup

theorem parked_at {g' : ℕ}
    (htaking : (σ.pcs i).taking = some g' → pc.taking = some g')
    (hblocked : (σ'.group g').blockedTask = (σ.group g').blockedTask)
    (hcount : (σ'.group g').blockingCount = (σ.group g').blockingCount)
    (hne : (σ'.group g').blockedTask ≠ none) (hzero : (σ'.group g').blockingCount = 0) :
    ∃ j < N, (σ'.pcs j).taking = some g' := by
  rw [hblocked] at hne
  rw [hcount] at hzero
  obtain ⟨j, hj, htake⟩ := hσ.parked g' hne hzero
  refine ⟨j, hj, ?_⟩
  by_cases hji : j = i
  · subst hji
    rw [hpcs, Function.update_self]
    exact htaking htake
  · rwa [hpcs, Function.update_of_ne hji]

theorem taken_at {g' : ℕ}
    (htaking : pc.taking = some g' → (σ.pcs i).taking = some g')
    (hblocked : (σ'.group g').blockedTask = (σ.group g').blockedTask)
    (hcount : (σ'.group g').blockingCount = (σ.group g').blockingCount)
    (hne : (σ'.group g').blockedTask ≠ none) (j : ℕ) (hj : j < N)
    (htake : (σ'.pcs j).taking = some g') : (σ'.group g').blockingCount = 0 := by
  rw [hblocked] at hne
  rw [hcount]
  refine hσ.taken g' hne j hj ?_
  by_cases hji : j = i
  · subst hji
    rw [hpcs, Function.update_self] at htake
    exact htaking htake
  · rwa [hpcs, Function.update_of_ne hji] at htake

theorem decided_at {t g' : ℕ} (hwaiting : (σ'.task t).waiting = some g' →
      (σ.task t).waiting = some g' ∨
        (t = owner g' ∧ ∃ j < N, (σ'.pcs j).deciding = some t))
    (hdeciding : (σ.pcs i).deciding = some t → pc.deciding = some t)
    (hblocked : (σ'.group g').blockedTask = (σ.group g').blockedTask)
    (hcount : (σ'.group g').blockingCount = (σ.group g').blockingCount)
    (ht : (σ'.task t).waiting = some g') (hne : (σ'.group g').blockingCount ≠ 0) :
    (σ'.group g').blockedTask = some t ∨ ∃ j < N, (σ'.pcs j).deciding = some t := by
  rcases hwaiting ht with hold | ⟨-, hnew⟩
  · rw [hcount] at hne
    rw [hblocked]
    refine (hσ.decided t g' hold hne).imp_right fun ⟨j, hj, hdec⟩ ↦ ⟨j, hj, ?_⟩
    by_cases hji : j = i
    · subst hji
      rw [hpcs, Function.update_self]
      exact hdeciding hdec
    · rwa [hpcs, Function.update_of_ne hji]
  · exact Or.inr hnew

include hgroup

theorem keep (hok : σ'.Ok N) (hwaiting : ∀ t g', (σ'.task t).waiting = some g' →
      (σ.task t).waiting = some g' ∨
        (t = owner g' ∧ ∃ j < N, (σ'.pcs j).deciding = some t))
    (hholder : ∀ g' j, (σ'.group g').lock = some j ↔ j < N ∧ (σ'.pcs j).holding = some g')
    (htotal : ∀ g', σ'.owed g' + σ'.pending N g' = σ.owed g' + σ.pending N g')
    (htaking : pc.taking = (σ.pcs i).taking)
    (hdeciding : ∀ t g', (σ'.task t).waiting = some g' → (σ'.group g').blockingCount ≠ 0 →
      (σ.pcs i).deciding = some t → pc.deciding = some t)
    (hcount : gp.blockingCount = (σ.group g).blockingCount)
    (hblocked : gp.blockedTask = (σ.group g).blockedTask) : σ'.Grouped N owner := by
  have hcount' : ∀ g', (σ'.group g').blockingCount = (σ.group g').blockingCount := by
    rw [hgroup]
    exact apply_update_eq TaskGroup.blockingCount hcount
  have hblocked' : ∀ g', (σ'.group g').blockedTask = (σ.group g').blockedTask := by
    rw [hgroup]
    exact apply_update_eq TaskGroup.blockedTask hblocked
  constructor
  case ok => exact hok
  case count => exact hσ.count_same hgroup hcount htotal
  case owned => exact fun t g' ht ↦ (hwaiting t g' ht).elim (hσ.owned t g') And.left
  case holder => exact hholder
  case parked =>
    exact fun g' ↦ hσ.parked_at hpcs (by rw [htaking]; exact id) (hblocked' g') (hcount' g')
  case taken =>
    exact fun g' ↦ hσ.taken_at hpcs (by rw [htaking]; exact id) (hblocked' g') (hcount' g')
  case decided =>
    exact fun t g' ht hne ↦
      hσ.decided_at hpcs (hwaiting t g') (hdeciding t g' ht hne) (hblocked' g') (hcount' g') ht hne

/-- A step that neither touches a group nor brings a thread closer to one. -/
theorem quiet (hi : i < N) (hok : σ'.Ok N) (hwaiting : ∀ t g', (σ'.task t).waiting = some g' →
      (σ.task t).waiting = some g' ∨
        (t = owner g' ∧ ∃ j < N, (σ'.pcs j).deciding = some t))
    (halike : pc.Alike (σ.pcs i))
    (hdeciding : ∀ t, (σ.pcs i).deciding = some t →
      pc.deciding = some t ∨ (σ'.task t).waiting = none)
    (hcount : gp.blockingCount = (σ.group g).blockingCount)
    (hblocked : gp.blockedTask = (σ.group g).blockedTask) (hlock : gp.lock = (σ.group g).lock)
    (howed : ∀ g', σ'.owed g' = σ.owed g') : σ'.Grouped N owner :=
  hσ.keep hpcs hgroup hok hwaiting (hσ.holder_same hpcs hgroup halike.holding hlock)
    (total_same hi hpcs fun g' ↦ by rw [howed, halike.pending]) halike.taking
    (fun t _ ht _ hdec ↦ (hdeciding t hdec).resolve_right (by rw [ht]; simp)) hcount hblocked

theorem decrement (hi : i < N) (hok : σ'.Ok N) (hwaiting : ∀ t g', (σ'.task t).waiting = some g' →
      (σ.task t).waiting = some g' ∨
        (t = owner g' ∧ ∃ j < N, (σ'.pcs j).deciding = some t))
    (hold : (σ.pcs i).pending = g :: pc.pending) (hholding : (σ.pcs i).holding = some g)
    (hnew : pc.holding = some g) (hnone : (σ.pcs i).taking = none)
    (htaking : pc.taking = if gp.blockingCount = 0 then some g else none)
    (hdeciding : (σ.pcs i).deciding = none)
    (hcount : gp.blockingCount = (σ.group g).blockingCount - 1)
    (hblocked : gp.blockedTask = (σ.group g).blockedTask) (hlock : gp.lock = (σ.group g).lock)
    (howed : ∀ g', σ'.owed g' = σ.owed g') : σ'.Grouped N owner := by
  have hself : σ'.group g = gp := by rw [hgroup, Function.update_self]
  have hother : ∀ g', g' ≠ g → σ'.group g' = σ.group g' := fun g' hg ↦ by
    rw [hgroup, Function.update_of_ne hg]
  have hsum := fun g' ↦ pending_update (g := g') hi hpcs
  have hcount_g := hσ.count g
  have hpos : 0 < (σ.group g).blockingCount := by
    have := hsum g
    rw [hold, List.count_cons_self] at this
    omega
  constructor
  case ok => exact hok
  case count =>
    intro g'
    have hsum := hsum g'
    rw [hold] at hsum
    by_cases hg : g' = g
    · subst hg
      rw [List.count_cons_self] at hsum
      rw [hself, hcount, howed]
      omega
    · rw [List.count_cons_of_ne (Ne.symm hg)] at hsum
      rw [hother g' hg, howed, hσ.count]
      omega
  case owned => exact fun t g' ht ↦ (hwaiting t g' ht).elim (hσ.owned t g') And.left
  case holder => exact hσ.holder_same hpcs hgroup (hnew.trans hholding.symm) hlock
  case parked =>
    intro g' hne hzero
    by_cases hg : g' = g
    · subst hg
      refine ⟨i, hi, ?_⟩
      rw [hpcs, Function.update_self, htaking, if_pos (by rwa [← hself])]
    · exact hσ.parked_at hpcs (by rw [hnone]; nofun) (by rw [hother g' hg]) (by rw [hother g' hg])
        hne hzero
  case taken =>
    intro g' hne j hj htake
    by_cases hg : g' = g
    · subst hg
      rw [hself]
      by_contra hnonzero
      rw [if_neg hnonzero] at htaking
      -- Another thread that takes from the group would hold its lock.
      have hji : j ≠ i := fun h ↦ by
        rw [h, hpcs, Function.update_self, htaking] at htake
        exact absurd htake (by simp)
      rw [hpcs, Function.update_of_ne hji] at htake
      have hj' := (hσ.holder g' j).mpr ⟨hj, Pc.holding_of_taking htake⟩
      have hi' := (hσ.holder g' i).mpr ⟨hi, hholding⟩
      exact hji (Option.some.inj (hj'.symm.trans hi'))
    · refine hσ.taken_at hpcs (fun h ↦ ?_) (by rw [hother g' hg]) (by rw [hother g' hg]) hne j hj
        htake
      rw [htaking] at h
      split at h
      · exact absurd (Option.some.inj h).symm hg
      · exact absurd h (by simp)
  case decided =>
    intro t g' ht hne
    by_cases hg : g' = g
    · subst hg
      rcases hwaiting t g' ht with hold | ⟨-, hnew⟩
      · rw [hself, hblocked]
        refine (hσ.decided t g' hold (by omega)).imp_right fun ⟨j, hj, hdec⟩ ↦ ⟨j, hj, ?_⟩
        have hji : j ≠ i := fun h ↦ by
          rw [h, hdeciding] at hdec
          exact absurd hdec (by simp)
        rwa [hpcs, Function.update_of_ne hji]
      · exact Or.inr hnew
    · exact hσ.decided_at hpcs (hwaiting t g') (by rw [hdeciding]; nofun) (by rw [hother g' hg])
        (by rw [hother g' hg]) ht hne

theorem unpark (hi : i < N) (hok : σ'.Ok N) (hwaiting : ∀ t g', (σ'.task t).waiting = some g' →
      (σ.task t).waiting = some g' ∨
        (t = owner g' ∧ ∃ j < N, (σ'.pcs j).deciding = some t))
    (hpending : pc.pending = (σ.pcs i).pending) (hholding : pc.holding = (σ.pcs i).holding)
    (htake : (σ.pcs i).taking = some g) (hnone : pc.taking = none)
    (hdeciding : (σ.pcs i).deciding = none)
    (hcount : gp.blockingCount = (σ.group g).blockingCount) (hblocked : gp.blockedTask = none)
    (hlock : gp.lock = (σ.group g).lock) (howed : ∀ g', σ'.owed g' = σ.owed g') :
    σ'.Grouped N owner := by
  have hself : σ'.group g = gp := by rw [hgroup, Function.update_self]
  have hother : ∀ g', g' ≠ g → σ'.group g' = σ.group g' := fun g' hg ↦ by
    rw [hgroup, Function.update_of_ne hg]
  constructor
  case ok => exact hok
  case count =>
    exact hσ.count_same hgroup hcount (total_same hi hpcs fun g' ↦ by rw [howed, hpending])
  case owned => exact fun t g' ht ↦ (hwaiting t g' ht).elim (hσ.owned t g') And.left
  case holder => exact hσ.holder_same hpcs hgroup hholding hlock
  case parked =>
    intro g' hne
    by_cases hg : g' = g
    · rw [hg, hself] at hne
      exact absurd hblocked hne
    · exact hσ.parked_at hpcs (by rw [htake]; exact fun h ↦ absurd (Option.some.inj h).symm hg)
        (by rw [hother g' hg]) (by rw [hother g' hg]) hne
  case taken =>
    intro g' hne
    by_cases hg : g' = g
    · rw [hg, hself] at hne
      exact absurd hblocked hne
    · exact hσ.taken_at hpcs (by rw [hnone]; nofun) (by rw [hother g' hg])
        (by rw [hother g' hg]) hne
  case decided =>
    intro t g' ht hne
    by_cases hg : g' = g
    · subst hg
      rw [hself, hcount] at hne
      rcases hwaiting t g' ht with hold | ⟨-, hnew⟩
      · rcases hσ.decided t g' hold hne with hpark | ⟨j, hj, hdec⟩
        · -- Nobody is taken from a group that has something to wait for.
          exact absurd (hσ.taken g' (by rw [hpark]; simp) i hi htake) hne
        · refine Or.inr ⟨j, hj, ?_⟩
          have hji : j ≠ i := fun h ↦ by
            rw [h, hdeciding] at hdec
            exact absurd hdec (by simp)
          rwa [hpcs, Function.update_of_ne hji]
      · exact Or.inr hnew
    · exact hσ.decided_at hpcs (hwaiting t g') (by rw [hdeciding]; nofun) (by rw [hother g' hg])
        (by rw [hother g' hg]) ht hne

theorem park {t : ℕ} (hi : i < N) (hok : σ'.Ok N)
    (hwaiting : ∀ t g', (σ'.task t).waiting = some g' →
      (σ.task t).waiting = some g' ∨
        (t = owner g' ∧ ∃ j < N, (σ'.pcs j).deciding = some t))
    (hpending : pc.pending = (σ.pcs i).pending) (hholding : pc.holding = (σ.pcs i).holding)
    (hheld : (σ.pcs i).holding = some g) (hnone : (σ.pcs i).taking = none)
    (hnone' : pc.taking = none) (hdeciding : (σ.pcs i).deciding = some t)
    (ht : (σ.task t).waiting = some g) (htask : σ'.task = σ.task)
    (hcount : gp.blockingCount = (σ.group g).blockingCount)
    (hne : (σ.group g).blockingCount ≠ 0) (hblocked : gp.blockedTask = some t)
    (hlock : gp.lock = (σ.group g).lock) (howed : ∀ g', σ'.owed g' = σ.owed g') :
    σ'.Grouped N owner := by
  have hself : σ'.group g = gp := by rw [hgroup, Function.update_self]
  have hother : ∀ g', g' ≠ g → σ'.group g' = σ.group g' := fun g' hg ↦ by
    rw [hgroup, Function.update_of_ne hg]
  constructor
  case ok => exact hok
  case count =>
    exact hσ.count_same hgroup hcount (total_same hi hpcs fun g' ↦ by rw [howed, hpending])
  case owned => exact fun u g' hu ↦ (hwaiting u g' hu).elim (hσ.owned u g') And.left
  case holder => exact hσ.holder_same hpcs hgroup hholding hlock
  case parked =>
    intro g' hpark hzero
    by_cases hg : g' = g
    · rw [hg, hself, hcount] at hzero
      exact absurd hzero hne
    · exact hσ.parked_at hpcs (by rw [hnone]; nofun) (by rw [hother g' hg]) (by rw [hother g' hg])
        hpark hzero
  case taken =>
    intro g' hpark j hj htake
    by_cases hg : g' = g
    · subst hg
      have hji : j ≠ i := fun h ↦ by
        rw [h, hpcs, Function.update_self, hnone'] at htake
        exact absurd htake (by simp)
      rw [hpcs, Function.update_of_ne hji] at htake
      have hj' := (hσ.holder g' j).mpr ⟨hj, Pc.holding_of_taking htake⟩
      have hi' := (hσ.holder g' i).mpr ⟨hi, hheld⟩
      exact absurd (Option.some.inj (hj'.symm.trans hi')) hji
    · exact hσ.taken_at hpcs (by rw [hnone']; nofun) (by rw [hother g' hg]) (by rw [hother g' hg])
        hpark j hj htake
  case decided =>
    intro u g' hu hnonzero
    by_cases hg : g' = g
    · subst hg
      refine Or.inl ?_
      rw [htask] at hu
      rw [hself, hblocked, hσ.ok.waiter g' t u ht hu]
    · refine hσ.decided_at hpcs (hwaiting u g') (fun h ↦ ?_) (by rw [hother g' hg])
        (by rw [hother g' hg]) hu hnonzero
      rw [htask, ← Option.some.inj (hdeciding.symm.trans h), ht] at hu
      exact absurd (Option.some.inj hu).symm hg

theorem register (hok : σ'.Ok N) (htask : ∀ t, (σ'.task t).waiting = (σ.task t).waiting)
    (hsame : pc = σ.pcs i) (hfree : ∀ t, (σ.task t).waiting ≠ some g)
    (hcount : gp.blockingCount = (σ.group g).blockingCount + 1)
    (hblocked : gp.blockedTask = (σ.group g).blockedTask) (hlock : gp.lock = (σ.group g).lock)
    (howed : ∀ g', σ'.owed g' = σ.owed g' + if g' = g then 1 else 0) : σ'.Grouped N owner := by
  have hself : σ'.group g = gp := by rw [hgroup, Function.update_self]
  have hother : ∀ g', g' ≠ g → σ'.group g' = σ.group g' := fun g' hg ↦ by
    rw [hgroup, Function.update_of_ne hg]
  have hnone : (σ'.group g).blockedTask = none := by
    rw [hself, hblocked, hσ.not_parked hfree]
  have hpcs' : σ'.pcs = σ.pcs := by rw [hpcs, hsame, Function.update_eq_self]
  constructor
  case ok => exact hok
  case count =>
    intro g'
    have hpending : σ'.pending N g' = σ.pending N g' := by rw [pending, hpcs', pending]
    have hcount_g := hσ.count g'
    rw [howed, hpending]
    by_cases hg : g' = g
    · subst hg
      rw [hself, hcount, if_pos rfl]
      omega
    · rw [hother g' hg, if_neg hg]
      omega
  case owned =>
    intro t g' ht
    rw [htask] at ht
    exact hσ.owned t g' ht
  case holder => exact hσ.holder_same hpcs hgroup (by rw [hsame]) hlock
  case parked =>
    intro g' hpark
    by_cases hg : g' = g
    · rw [hg] at hpark
      exact absurd hnone hpark
    · exact hσ.parked_at hpcs (by rw [hsame]; exact id) (by rw [hother g' hg])
        (by rw [hother g' hg]) hpark
  case taken =>
    intro g' hpark
    by_cases hg : g' = g
    · rw [hg] at hpark
      exact absurd hnone hpark
    · exact hσ.taken_at hpcs (by rw [hsame]; exact id) (by rw [hother g' hg])
        (by rw [hother g' hg]) hpark
  case decided =>
    intro t g' ht hne
    have ht' := ht
    rw [htask] at ht'
    have hg : g' ≠ g := fun h ↦ hfree t (by rw [← h]; exact ht')
    exact hσ.decided_at hpcs (fun _ ↦ Or.inl ht') (by rw [hsame]; exact id)
      (by rw [hother g' hg]) (by rw [hother g' hg]) ht hne

end

/-- A task that has yielded as anything but `GroupWait` does not wait for a group. -/
theorem not_waiting_of_switched (hσ : σ.Grouped N owner) (hi : i < N) {t : ℕ} {p : Option ℕ}
    (here : (σ.thread i).pc = .task t p .switched) (hstate : (σ.task t).state ≠ .groupWait) (u : ℕ)
    (hu : (σ.pcs i).deciding = some u) : (σ.task u).waiting = none := by
  have hhand := (hσ.ok.thread i hi).hand
  rw [pcs, here] at hu
  rw [here] at hhand
  rw [← Option.some.inj hu]
  exact hhand.2.2 hstate

/-- **One step** of a program in which each group belongs to one task. -/
theorem of_step {l : Label} (hσ : σ.Grouped N owner) (h : Step N σ l σ') (hl : l.Owned owner) :
    σ'.Grouped N owner := by
  have hok : σ'.Ok N := h.ok hσ.ok (hσ.oneWaiter hl)
  have hwaiting := fun t g (ht : (σ'.task t).waiting = some g) ↦ hσ.waiting_of_step h hl ht
  -- Most steps change no group.
  have hgroup : ∀ {g : ℕ}, σ.group = Function.update σ.group g (σ.group g) :=
    fun {g} ↦ (Function.update_eq_self g σ.group).symm
  cases h with
  | terminateGracefully => exact ⟨hok, hσ.2, hσ.3, hσ.4, hσ.5, hσ.6, hσ.7⟩
  | @newTask i isPure lt client =>
    refine hσ.quiet (Function.update_eq_self i σ.pcs).symm (hgroup (g := 0)) lt hok hwaiting
      ⟨rfl, rfl, rfl⟩ (fun t ht ↦ Or.inl ht) rfl rfl rfl fun g ↦ ?_
    have hnew : (Function.update σ.task σ.next { isPure } σ.next).owed g = 0 := by
      rw [Function.update_self]
      rfl
    rw [owed, owed, Finset.sum_range_succ]
    refine (congrArg _ hnew).trans ((Nat.add_zero _).trans <| Finset.sum_congr rfl fun t ht ↦ ?_)
    have hold : Function.update σ.task σ.next { isPure } t = σ.task t :=
      Function.update_of_ne (Finset.mem_range.mp ht).ne _ _
    exact congrArg (fun a : Task ↦ a.owed g) hold
  | addRunnable lt client made once =>
    refine hσ.quiet (pcs_update rfl) (hgroup (g := 0)) lt hok hwaiting ⟨rfl, rfl, rfl⟩
      (fun t ht ↦ Or.inl ht) rfl rfl rfl fun g ↦ owed_congr rfl ?_
    exact apply_update_eq (fun a : Task ↦ a.owed g) (Task.owed_congr Iff.rfl rfl)
  | control lt here move =>
    exact hσ.quiet (pcs_update rfl) (hgroup (g := 0)) lt hok hwaiting
      (by rw [pcs, here]; exact move.alike)
      (by rw [pcs, here]; exact fun _ ht ↦ Pc.absurd_deciding ht move.not_deciding) rfl rfl rfl
      fun g ↦ rfl
  | dequeue lt here | pollTask lt here =>
    refine hσ.quiet (pcs_update rfl) (hgroup (g := 0)) lt hok hwaiting
      (by rw [pcs, here]; exact ⟨rfl, rfl, rfl⟩)
      (by rw [pcs, here]; exact fun _ ht ↦ Pc.absurd_deciding ht rfl) rfl rfl rfl
      fun g ↦ owed_congr rfl ?_
    exact apply_update_eq (fun a : Task ↦ a.owed g)
      (Task.owed_congr (Task.continuationIn_terminated _) rfl)
  | @steal i v xs ys lt here victim ne queue nonempty =>
    let σ₁ := σ.setThread v { σ.thread v with runnableQueue := ys }
    have hv : σ₁.pcs = σ.pcs :=
      (pcs_update (m := { σ.thread v with runnableQueue := ys }) rfl).trans
        (Function.update_eq_self v σ.pcs)
    have hi : (σ₁.goto i (.install xs)).pcs = Function.update σ.pcs i (.install xs) :=
      (pcs_update (m := { σ₁.thread i with pc := .install xs }) rfl).trans (by rw [hv])
    exact hσ.quiet hi (hgroup (g := 0)) lt hok hwaiting (by rw [pcs, here]; exact ⟨rfl, rfl, rfl⟩)
      (by rw [pcs, here]; exact fun _ ht ↦ Pc.absurd_deciding ht rfl) rfl rfl rfl fun g ↦ rfl
  | install lt here | erase lt here =>
    exact hσ.quiet (pcs_update rfl) (hgroup (g := 0)) lt hok hwaiting
      (by rw [pcs, here]; exact ⟨rfl, rfl, rfl⟩)
      (by rw [pcs, here]; exact fun _ ht ↦ Pc.absurd_deciding ht rfl) rfl rfl rfl fun g ↦ rfl
  | @registe i c t g p lt here made unlocked room alive accepted =>
    have hlive : (σ.task t).state ≠ .terminated := fun h ↦ by simp [Task.isFini, h] at accepted
    rw [Task.addToGroup, accepted] at hok hwaiting ⊢
    refine hσ.register (Function.update_eq_self i σ.pcs).symm rfl hok
      (apply_update_eq Task.waiting (by rfl)) rfl (hσ.not_waiting lt here hl) rfl rfl rfl
      fun g' ↦ ?_
    have hsum := sum_update σ.task (fun a ↦ a.owed g') (Finset.mem_range.mpr made)
      { σ.task t with groups := (σ.task t).groups ++ [g] }
    have hone : Task.owed { σ.task t with groups := (σ.task t).groups ++ [g] } g'
        = (σ.task t).owed g' + if g' = g then 1 else 0 := by
      simp only [Task.owed, if_neg hlive, List.count_append, List.count_singleton, beq_iff_eq,
        @eq_comm _ g g']
    rw [hone, ← Nat.add_assoc, Nat.add_right_comm] at hsum
    exact Nat.add_right_cancel hsum
  | @registeFini i c t g p lt here made unlocked alive rejected =>
    rw [Task.addToGroup, rejected] at hok hwaiting ⊢
    refine hσ.quiet (Function.update_eq_self i σ.pcs).symm rfl lt hok hwaiting ⟨rfl, rfl, rfl⟩
      (fun t ht ↦ Or.inl ht) rfl rfl rfl fun g ↦ owed_congr rfl ?_
    exact apply_update_eq (fun a : Task ↦ a.owed g) (Task.owed_congr Iff.rfl rfl)
  | waitDone lt | destroy lt =>
    exact hσ.quiet (Function.update_eq_self _ σ.pcs).symm rfl lt hok hwaiting ⟨rfl, rfl, rfl⟩
      (fun t ht ↦ Or.inl ht) rfl rfl rfl fun g ↦ rfl
  | @waitYield i c g p lt here alive blocking impure =>
    have hhand := hσ.ok.hand_at lt here
    refine hσ.quiet (pcs_update rfl) rfl lt hok hwaiting (by rw [pcs, here]; exact ⟨rfl, rfl, rfl⟩)
      (by rw [pcs, here]; exact fun _ ht ↦ Pc.absurd_deciding ht rfl) rfl rfl rfl
      fun g ↦ owed_congr rfl ?_
    exact apply_update_eq (fun a : Task ↦ a.owed g)
      (Task.owed_congr (iff_of_false (by simp) hhand.1) rfl)
  | @yield i c p state lt here impure as =>
    have hhand := hσ.ok.hand_at lt here
    refine hσ.quiet (pcs_update rfl) (hgroup (g := 0)) lt hok hwaiting
      (by rw [pcs, here]; exact ⟨rfl, rfl, rfl⟩)
      (by rw [pcs, here]; exact fun _ ht ↦ Pc.absurd_deciding ht rfl) rfl rfl rfl
      fun g ↦ owed_congr rfl ?_
    refine apply_update_eq (fun a : Task ↦ a.owed g) (Task.owed_congr (iff_of_false ?_ hhand.1) rfl)
    rcases as with rfl | rfl <;> simp
  | @terminate i c p lt here unlocked =>
    have hhand := hσ.ok.hand_at lt here
    have hmade : c < σ.next := hσ.ok.lt_next (hσ.ok.spawned_of_count lt
      (PerThreadMgr.count_pos_of_running (by rw [here]; exact List.mem_singleton_self c)))
    refine hσ.keep (pcs_update rfl) (hgroup (g := 0)) hok hwaiting
      (hσ.holder_same (pcs_update rfl) (hgroup (g := 0)) (by rw [pcs, here]; rfl) rfl)
      (total_same lt (pcs_update rfl) fun g' ↦ ?_) (by rw [pcs, here]; rfl)
      (by rw [pcs, here]; exact fun _ _ _ _ ht ↦ Pc.absurd_deciding ht rfl) rfl rfl
    -- What the task owed becomes pending.
    have hsum := sum_update σ.task (fun a ↦ a.owed g') (Finset.mem_range.mpr hmade)
      { σ.task c with state := .terminated, locked := true }
    have hzero : Task.owed { σ.task c with state := .terminated, locked := true } g' = 0 :=
      if_pos rfl
    have hcount : (σ.task c).owed g' = (σ.task c).groups.count g' := if_neg hhand.1
    rw [hzero, hcount] at hsum
    rw [pcs, here]
    exact hsum
  | @informLock i c g p rest lt here free =>
    refine hσ.keep (pcs_update rfl) rfl hok hwaiting
      (hσ.holder_lock (pcs_update rfl) rfl lt free ?_ rfl rfl)
      (total_same lt (pcs_update rfl) fun g' ↦ ?_) ?_ ?_ rfl rfl <;>
    · rw [pcs, here]
      first | rfl | exact fun _ _ _ _ ht ↦ Pc.absurd_deciding ht rfl
  | @informDecrement i c g p rest lt here =>
    refine hσ.decrement (pcs_update rfl) rfl lt hok hwaiting ?_ (by rw [pcs, here]; rfl) rfl
      (by rw [pcs, here]; rfl) ?_ (by rw [pcs, here]; rfl) rfl rfl rfl fun _ ↦ rfl
    · rw [pcs, here]
      by_cases hzero : (σ.group g).decrement.blockingCount = 0 <;> simp [hzero, Pc.pending]
    · by_cases hzero : (σ.group g).decrement.blockingCount = 0 <;> simp [hzero, Pc.taking]
  | @informTake i c g w p rest lt here blocked =>
    exact hσ.unpark (pcs_update rfl) rfl lt hok hwaiting (by rw [pcs, here]; rfl)
      (by rw [pcs, here]; rfl) (by rw [pcs, here]; rfl) rfl (by rw [pcs, here]; rfl) rfl rfl rfl
      fun _ ↦ rfl
  | @informNobody i c g p rest lt here nobody =>
    exact hσ.unpark (pcs_update rfl) (hgroup (g := g)) lt hok hwaiting (by rw [pcs, here]; rfl)
      (by rw [pcs, here]; rfl) (by rw [pcs, here]; rfl) rfl (by rw [pcs, here]; rfl) rfl nobody rfl
      fun _ ↦ rfl
  | @informEnqueue i c g w p rest lt here =>
    have hhand := hσ.ok.hand_at lt here
    refine hσ.quiet (pcs_update rfl) (hgroup (g := 0)) lt hok hwaiting
      (by rw [pcs, here]; exact ⟨rfl, rfl, rfl⟩)
      (by rw [pcs, here]; exact fun _ ht ↦ Pc.absurd_deciding ht rfl) rfl rfl rfl
      fun g ↦ owed_congr rfl ?_
    refine apply_update_eq (fun a : Task ↦ a.owed g)
      (Task.owed_congr (iff_of_false (by simp) ?_) rfl)
    exact (hσ.ok.task w).live (by rw [hhand.2.waiting]; simp)
  | @informUnlock i c g p rest lt here =>
    refine hσ.keep (pcs_update rfl) rfl hok hwaiting
      (hσ.holder_unlock (pcs_update rfl) rfl lt ?_ rfl rfl)
      (total_same lt (pcs_update rfl) fun g' ↦ ?_) ?_ ?_ rfl rfl <;>
    · rw [pcs, here]
      first | rfl | exact fun _ _ _ _ ht ↦ Pc.absurd_deciding ht rfl
  | @terminated i c p lt here =>
    refine hσ.quiet (pcs_update rfl) (hgroup (g := 0)) lt hok hwaiting
      (by rw [pcs, here]; exact ⟨rfl, rfl, rfl⟩)
      (by rw [pcs, here]; exact fun _ ht ↦ Pc.absurd_deciding ht rfl) rfl rfl rfl
      fun g ↦ owed_congr rfl ?_
    exact apply_update_eq (fun a : Task ↦ a.owed g) (Task.owed_congr Iff.rfl rfl)
  | @handleRunnable i t p lt here state =>
    have hfree := hσ.not_waiting_of_switched lt here (by rw [state]; simp)
    exact hσ.quiet (pcs_update rfl) (hgroup (g := 0)) lt hok hwaiting
      (by rw [pcs, here]; exact alike_afterTask)
      (fun u hu ↦ Or.inr (hfree u hu)) rfl rfl rfl fun g ↦ rfl
  | handleMpi lt here state | stillMpi lt here state =>
    have hfree := hσ.not_waiting_of_switched lt here (by rw [state]; simp)
    exact hσ.quiet (pcs_update rfl) (hgroup (g := 0)) lt hok hwaiting
      (by rw [pcs, here]; exact ⟨rfl, rfl, rfl⟩)
      (fun u hu ↦ Or.inr (hfree u hu)) rfl rfl rfl fun g ↦ rfl
  | handleWait lt here state blockedBy =>
    exact hσ.quiet (pcs_update rfl) (hgroup (g := 0)) lt hok hwaiting
      (by rw [pcs, here]; exact ⟨rfl, rfl, rfl⟩)
      (by rw [pcs, here]; exact fun t ht ↦ Or.inl ht) rfl rfl rfl fun g ↦ rfl
  | @handleOther i t p lt here state =>
    have hfree := hσ.not_waiting_of_switched lt here (by rcases state with h | h <;> simp [h])
    exact hσ.quiet (pcs_update rfl) (hgroup (g := 0)) lt hok hwaiting
      (by rw [pcs, here]; exact alike_afterTask)
      (fun u hu ↦ Or.inr (hfree u hu)) rfl rfl rfl fun g ↦ rfl
  | @resumeLock i t g p lt here free =>
    refine hσ.keep (pcs_update rfl) rfl hok hwaiting
      (hσ.holder_lock (pcs_update rfl) rfl lt free ?_ rfl rfl)
      (total_same lt (pcs_update rfl) fun g' ↦ ?_) ?_ ?_ rfl rfl <;>
    · rw [pcs, here]
      first | rfl | exact fun _ _ _ _ h ↦ h
  | @resumeZero i t g p lt here zero =>
    have hhand := hσ.ok.hand_at lt here
    have howed : ∀ g', ((σ.setTask t { σ.task t with state := .runnable }).goto i
        (.task t p (.resume g (.unlock true)))).owed g' = σ.owed g' := fun g' ↦
      owed_congr rfl (apply_update_eq (fun a : Task ↦ a.owed g') (Task.owed_congr
        (iff_of_false (by simp) ((hσ.ok.task t).live (by rw [hhand.waiting]; simp))) rfl))
    refine hσ.keep (pcs_update rfl) (hgroup (g := g)) hok hwaiting
      (hσ.holder_same (pcs_update rfl) (hgroup (g := g)) (by rw [pcs, here]; rfl) rfl)
      (total_same lt (pcs_update rfl) fun g' ↦ by rw [howed, pcs, here]; rfl)
      (by rw [pcs, here]; rfl) (fun u g' hu hne hdec ↦ ?_) rfl rfl
    -- The task that may go on waits for `g`, which has nothing to wait for.
    rw [pcs, here] at hdec
    obtain rfl : t = u := Option.some.inj hdec
    have hg := (apply_update_eq Task.waiting (by rfl) t).symm.trans hu
    rw [Option.some.inj (hg.symm.trans hhand.waiting)] at hne
    exact absurd zero hne
  | @resumeBlock i t g p lt here blocking =>
    have hhand := hσ.ok.hand_at lt here
    exact hσ.park (pcs_update rfl) rfl lt hok hwaiting (by rw [pcs, here]; rfl)
      (by rw [pcs, here]; rfl) (by rw [pcs, here]; rfl) (by rw [pcs, here]; rfl) rfl
      (by rw [pcs, here]; rfl) hhand.waiting rfl rfl blocking rfl rfl fun _ ↦ rfl
  | @resumeUnlock i t g p result lt here =>
    refine hσ.keep (pcs_update rfl) rfl hok hwaiting
      (hσ.holder_unlock (pcs_update rfl) rfl lt (by rw [pcs, here]; rfl) ?_ rfl)
      (total_same lt (pcs_update rfl) fun g' ↦ congrArg _ (congrArg _ ?_)) ?_
      (by rw [pcs, here]; exact fun _ _ _ _ ht ↦ Pc.absurd_deciding ht rfl) rfl rfl
    · cases result with
      | true => rfl
      | false => exact Pc.holding_afterTask
    · rw [pcs, here]
      cases result with
      | true => rfl
      | false => exact Pc.pending_afterTask
    · rw [pcs, here]
      cases result with
      | true => rfl
      | false => exact Pc.taking_afterTask
  | @requeue i t p lt here =>
    refine hσ.quiet (pcs_update rfl) (hgroup (g := 0)) lt hok hwaiting
      (by rw [pcs, here]; exact alike_afterTask)
      (by rw [pcs, here]; exact fun _ ht ↦ Pc.absurd_deciding ht rfl) rfl rfl rfl
      fun g ↦ owed_congr rfl ?_
    exact apply_update_eq (fun a : Task ↦ a.owed g) (Task.owed_congr Iff.rfl rfl)

end Grouped

end Sched

end TYThread
