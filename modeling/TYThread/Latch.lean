import TYThread.Group.Model
import TYThread.Library.Counting
import TYThread.Library.Transition

/-!
# `CountDownLatch`

The latch of `co_user.hh` is built from a task that never runs and a group. The last `down` marks
the task as terminated and tells the group, as `terminate` would, but without the lock of the task,
and whether the task was registered in the group or not. `wait` registers it and waits.

## Order

If the last `down` has marked the task before `wait` registers it, the registration is refused, and
then `informDone` takes `blocking_count` from `0` to `-1`. A `wait` that reads the counter in
between returns. A `wait` that reads `-1` takes it for something to wait for, and nobody will ever
wake the task.

A step is an access that other threads can see: the decrement of `counter__`, the write of the
state, a region of `addToGroup`, `informDone` or `resumeIfNothingToWait` as a whole, or the read in
`wait`.
-/

namespace TYThread

open Transition

structure CountDownLatch where
  counter : ℤ := 0
  /-- Made with the argument `isPure`, which the constructor of `Task` does not store. -/
  fakeTask : Task := { isPure := false }
  fakeGroup : TaskGroup := {}

/-- What a call of `down` does next. -/
inductive Down
  /-- `--counter__`. -/
  | decrement
  /-- `fakeTask__->state = Task::Terminated`. -/
  | terminate
  /-- `fakeGroup__.informDone(fakeTask__)`. -/
  | inform
  | returned
deriving DecidableEq, Repr

/-- Where the call of `wait` is. -/
inductive Wait
  /-- About to call `registe`. -/
  | registe
  /-- About to read `blocking_count`. -/
  | read
  /-- The task has yielded with the state `GroupWait`. -/
  | switched
  /-- `resumeIfNothingToWait` has returned `false`. -/
  | parked
  /-- The task is in a queue. -/
  | runnable
  | returned
deriving DecidableEq, Repr

structure LatchState where
  latch : CountDownLatch
  /-- The calls of `down`. -/
  down : ℕ → Down
  wait : Wait

inductive LatchAction
  | decrement (k : ℕ)
  | terminate (k : ℕ)
  | inform (k : ℕ)
  | registe
  | read
  | resume
  | back
deriving DecidableEq, Repr

namespace LatchState

/-- After `add(n)`, before the first of the `n` calls of `down` and before the call of `wait`. -/
def initial (n : ℕ) : LatchState where
  latch := { counter := n }
  down := fun _ ↦ .decrement
  wait := .registe

/-- One step of one of the `n` calls of `down`, or of the call of `wait`, which is made by the task
`0`. The group is the group `0`. -/
inductive Step (n : ℕ) (σ : LatchState) : LatchAction → LatchState → Prop
  | decrement {k : ℕ} (lt : k < n) (here : σ.down k = .decrement) :
      Step n σ (.decrement k)
        { σ with
          latch := { σ.latch with counter := σ.latch.counter - 1 }
          down := Function.update σ.down k
            (if σ.latch.counter - 1 = 0 then .terminate else .returned) }
  | terminate {k : ℕ} (lt : k < n) (here : σ.down k = .terminate) :
      Step n σ (.terminate k)
        { σ with
          latch := { σ.latch with fakeTask := { σ.latch.fakeTask with state := .terminated } }
          down := Function.update σ.down k .inform }
  | inform {k : ℕ} (lt : k < n) (here : σ.down k = .inform) :
      Step n σ (.inform k)
        { latch := { σ.latch with fakeGroup := σ.latch.fakeGroup.informDone.1 }
          down := Function.update σ.down k .returned
          wait := if σ.latch.fakeGroup.informDone.2 = none then σ.wait else .runnable }
  | registe (here : σ.wait = .registe) :
      Step n σ .registe
        { σ with
          latch := { σ.latch with
            fakeTask := (σ.latch.fakeTask.addToGroup 0 σ.latch.fakeGroup).1
            fakeGroup := (σ.latch.fakeTask.addToGroup 0 σ.latch.fakeGroup).2.1 }
          wait := .read }
  | read (here : σ.wait = .read) :
      Step n σ .read
        { σ with wait := if σ.latch.fakeGroup.blockingCount = 0 then .returned else .switched }
  | resume (here : σ.wait = .switched) :
      Step n σ .resume
        { σ with
          latch := { σ.latch with fakeGroup := (σ.latch.fakeGroup.resumeIfNothingToWait 0).1 }
          wait := if (σ.latch.fakeGroup.resumeIfNothingToWait 0).2 then .runnable else .parked }
  | back (here : σ.wait = .runnable) : Step n σ .back { σ with wait := .returned }

/-- All calls of `down` have returned, and the task that waits is parked. -/
def Hangs (n : ℕ) (σ : LatchState) : Prop :=
  (∀ k < n, σ.down k = .returned) ∧ σ.wait = .parked ∧ σ.latch.fakeGroup.blockedTask = some 0

/-- All calls of `down` have made their decrement. -/
def Counted (n : ℕ) (σ : LatchState) : Prop := ∀ k < n, σ.down k ≠ .decrement

/-- A step in which `wait` does not read `-1`. -/
def CarefulStep (n : ℕ) (σ : LatchState) (l : LatchAction) (σ' : LatchState) : Prop :=
  Step n σ l σ' ∧ (l = .read → σ.latch.fakeGroup.blockingCount ≠ -1)

/-! ## The calls of `down` -/

/-- How far the calls of `down` have come, taken together. -/
inductive Stage
  | counting
  /-- The last one is about to mark the task. -/
  | terminating
  /-- The last one is about to inform the group. -/
  | informing
  | finished
deriving DecidableEq, Repr

/-- The number of calls of `down` that have not made their decrement. -/
def remaining (n : ℕ) (down : ℕ → Down) : ℕ :=
  ∑ k ∈ Finset.range n, if down k = .decrement then 1 else 0

inductive AtStage (n : ℕ) (σ : LatchState) : Stage → Prop
  | counting (pos : 0 < σ.latch.counter) (count : σ.latch.counter = remaining n σ.down)
      (calls : ∀ k < n, σ.down k = .decrement ∨ σ.down k = .returned)
      (live : σ.latch.fakeTask.isFini = false) : AtStage n σ .counting
  | terminating {k : ℕ} (lt : k < n) (here : σ.down k = .terminate)
      (others : ∀ j < n, j ≠ k → σ.down j = .returned)
      (live : σ.latch.fakeTask.isFini = false) : AtStage n σ .terminating
  | informing {k : ℕ} (lt : k < n) (here : σ.down k = .inform)
      (others : ∀ j < n, j ≠ k → σ.down j = .returned)
      (fini : σ.latch.fakeTask.isFini = true) : AtStage n σ .informing
  | finished (all : ∀ k < n, σ.down k = .returned) (fini : σ.latch.fakeTask.isFini = true) :
      AtStage n σ .finished

/-- The task has been marked. -/
def Stage.Late (st : Stage) : Prop := st = .informing ∨ st = .finished

/-! ## The call of `wait` -/

/-- Where the call of `wait` can be, by the number of registrations and by what is in
`blockedTask`. -/
inductive WaitOk : ℕ → Option ℕ → Stage → Wait → Prop
  | registe (st : Stage) : WaitOk 0 none st .registe
  | read (st : Stage) : WaitOk 1 none st .read
  /-- The registration was refused. -/
  | refused {st : Stage} (late : st.Late) : WaitOk 0 none st .read
  | switched (st : Stage) : WaitOk 1 none st .switched
  | parked {st : Stage} (early : st ≠ .finished) : WaitOk 1 (some 0) st .parked
  /-- The registration was refused, and `wait` has read `-1`. -/
  | lost : WaitOk 0 none .finished .switched
  | hung : WaitOk 0 (some 0) .finished .parked
  | runnable (r : ℕ) : WaitOk r none .finished .runnable
  | returned (r : ℕ) {st : Stage} (late : st.Late) : WaitOk r none st .returned

/-- `blocking_count` for `r` registrations. -/
def blocking (r : ℕ) (st : Stage) : ℤ := if st = .finished then r - 1 else r

structure Ok (n : ℕ) (σ : LatchState) (r : ℕ) (st : Stage) : Prop where
  stage : AtStage n σ st
  registered : σ.latch.fakeTask.groups.length = r
  count : σ.latch.fakeGroup.blockingCount = blocking r st
  wait : WaitOk r σ.latch.fakeGroup.blockedTask st σ.wait

variable {n r : ℕ} {σ σ' : LatchState} {st : Stage} {l : LatchAction}

theorem Ok.initial (hn : 0 < n) : (LatchState.initial n).Ok n 0 .counting := by
  refine ⟨.counting (Int.natCast_pos.mpr hn) ?_ (fun k _ ↦ Or.inl rfl) rfl, rfl, rfl, .registe _⟩
  simp [LatchState.initial, remaining]

/-! ## One step -/

theorem AtStage.congr (h : AtStage n σ st) (hcounter : σ'.latch.counter = σ.latch.counter)
    (hdown : σ'.down = σ.down)
    (hfini : σ'.latch.fakeTask.isFini = σ.latch.fakeTask.isFini) : AtStage n σ' st := by
  cases h with
  | counting pos count calls live =>
    exact .counting (by rwa [hcounter]) (by rwa [hcounter, hdown]) (by rwa [hdown])
      (hfini.trans live)
  | terminating lt here others live =>
    exact .terminating lt (by rwa [hdown]) (by rwa [hdown]) (hfini.trans live)
  | informing lt here others fini =>
    exact .informing lt (by rwa [hdown]) (by rwa [hdown]) (hfini.trans fini)
  | finished all fini => exact .finished (by rwa [hdown]) (hfini.trans fini)

theorem AtStage.late_iff (h : AtStage n σ st) : σ.latch.fakeTask.isFini = true ↔ st.Late := by
  cases h with
  | counting _ _ _ live | terminating _ _ _ live => simp [live, Stage.Late]
  | informing _ _ _ fini | finished _ fini => simp [fini, Stage.Late]

/-- What a call of `down` that has not returned does next. -/
def Stage.next : Stage → Option Down
  | .counting => some .decrement
  | .terminating => some .terminate
  | .informing => some .inform
  | .finished => none

theorem AtStage.next (h : AtStage n σ st) {k : ℕ} (lt : k < n) :
    σ.down k = .returned ∨ st.next = some (σ.down k) := by
  cases h with
  | counting _ _ calls =>
    rcases calls k lt with hk | hk
    · exact Or.inr (by rw [hk]; rfl)
    · exact Or.inl hk
  | @terminating k' _ here others | @informing k' _ here others =>
    by_cases hk : k = k'
    · exact Or.inr (by rw [hk, here]; rfl)
    · exact Or.inl (others k lt hk)
  | finished all => exact Or.inl (all k lt)

theorem AtStage.eq_of_next (h : AtStage n σ st) {k : ℕ} (lt : k < n) {st' : Stage}
    (hnext : st'.next = some (σ.down k)) : st = st' := by
  rcases h.next lt with hreturned | hnext'
  · rw [hreturned] at hnext
    cases st' <;> cases hnext
  · rw [← hnext'] at hnext
    cases st <;> cases st' <;> first | rfl | cases hnext

theorem remaining_update {down : ℕ → Down} {k : ℕ} (lt : k < n) (here : down k = .decrement)
    {d : Down} (hd : d ≠ .decrement) :
    remaining n (Function.update down k d) + 1 = remaining n down := by
  have hsum := Counting.sum_update down (fun d ↦ if d = .decrement then 1 else 0)
    (Finset.mem_range.mpr lt) d
  rw [if_pos here, if_neg hd] at hsum
  exact hsum

theorem remaining_eq_zero_iff {down : ℕ → Down} :
    remaining n down = 0 ↔ ∀ k < n, down k ≠ .decrement := by
  simp [remaining]

/-- Marking the task and the decrements do not matter to the call of `wait`. -/
theorem WaitOk.advance {b : Option ℕ} {w : Wait} {st' : Stage} (h : WaitOk r b st w)
    (hst : st ≠ .finished) (hst' : st' ≠ .finished) (hlate : st.Late → st'.Late) :
    WaitOk r b st' w := by
  cases h with
  | registe => exact .registe st'
  | read => exact .read st'
  | refused late => exact .refused (hlate late)
  | switched => exact .switched st'
  | parked => exact .parked hst'
  | lost | hung | runnable => exact absurd rfl hst
  | returned _ late => exact .returned r (hlate late)

/-- `informDone` wakes the task if it is parked, and if it was registered. -/
theorem WaitOk.informDone {gp : TaskGroup} {w : Wait} (hcount : gp.blockingCount = r)
    (h : WaitOk r gp.blockedTask .informing w) :
    gp.informDone.1.blockingCount = r - 1 ∧ WaitOk r gp.informDone.1.blockedTask .finished
      (if gp.informDone.2 = none then w else .runnable) := by
  have hlate : Stage.Late .finished := Or.inr rfl
  have hr : (r : ℤ) - 1 = 0 ↔ r = 1 := by omega
  rw [TaskGroup.informDone, TaskGroup.decrement, hcount]
  simp only [hr]
  generalize gp.blockedTask = b at h
  cases h with
  | registe => exact ⟨rfl, .registe _⟩
  | read => exact ⟨rfl, .read _⟩
  | refused => exact ⟨rfl, .refused hlate⟩
  | switched => exact ⟨rfl, .switched _⟩
  | parked early => exact ⟨rfl, .runnable 1⟩
  | returned r late =>
    by_cases hone : r = 1
    · rw [if_pos hone]
      exact ⟨rfl, .returned r hlate⟩
    · rw [if_neg hone]
      exact ⟨rfl, .returned r hlate⟩

theorem Ok.decrement (h : σ.Ok n r st) {k : ℕ} (hstep : Step n σ (.decrement k) σ') :
    ∃ st', σ'.Ok n r st' := by
  obtain ⟨hstage, hregistered, hcount, hwait⟩ := h
  cases hstep with
  | decrement lt here =>
    obtain rfl := hstage.eq_of_next lt (here ▸ rfl : Stage.counting.next = some (σ.down k))
    cases hstage with
    | counting pos count calls live =>
      by_cases hlast : σ.latch.counter - 1 = 0
      · have hremaining := remaining_update lt here (d := .terminate) (by decide)
        have hzero : remaining n (Function.update σ.down k .terminate) = 0 := by omega
        rw [if_pos hlast]
        refine ⟨.terminating, .terminating lt (Function.update_self ..) (fun j hj hjk ↦ ?_) live,
          hregistered, hcount, hwait.advance (by decide) (by decide) (by simp [Stage.Late])⟩
        have hother : Function.update σ.down k .terminate j = σ.down j :=
          Function.update_of_ne hjk ..
        have hdone := remaining_eq_zero_iff.mp hzero j hj
        rw [hother] at hdone
        exact hother.trans ((calls j hj).resolve_left hdone)
      · have hremaining := remaining_update lt here (d := .returned) (by decide)
        rw [if_neg hlast]
        refine ⟨.counting, .counting ?_ ?_ (fun j hj ↦ ?_) live, hregistered, hcount, hwait⟩
        · change 0 < σ.latch.counter - 1
          omega
        · change σ.latch.counter - 1 = (remaining n (Function.update σ.down k .returned) : ℤ)
          omega
        · by_cases hjk : j = k
          · rw [hjk]
            exact Or.inr (Function.update_self ..)
          · have hother : Function.update σ.down k .returned j = σ.down j :=
              Function.update_of_ne hjk ..
            exact (calls j hj).imp hother.trans hother.trans

theorem Ok.terminate (h : σ.Ok n r st) {k : ℕ} (hstep : Step n σ (.terminate k) σ') :
    ∃ st', σ'.Ok n r st' := by
  obtain ⟨hstage, hregistered, hcount, hwait⟩ := h
  cases hstep with
  | terminate lt here =>
    obtain rfl := hstage.eq_of_next lt (here ▸ rfl : Stage.terminating.next = some (σ.down k))
    cases hstage with
    | @terminating k' lt' here' others =>
      obtain rfl : k = k' := by
        by_contra hk
        rw [others k lt hk] at here
        cases here
      refine ⟨.informing, .informing lt (Function.update_self ..) (fun j hj hjk ↦ ?_) rfl,
        hregistered, hcount, hwait.advance (by decide) (by decide) (by simp [Stage.Late])⟩
      exact (Function.update_of_ne hjk ..).trans (others j hj hjk)

theorem Ok.inform (h : σ.Ok n r st) {k : ℕ} (hstep : Step n σ (.inform k) σ') :
    ∃ st', σ'.Ok n r st' := by
  obtain ⟨hstage, hregistered, hcount, hwait⟩ := h
  cases hstep with
  | inform lt here =>
    obtain rfl := hstage.eq_of_next lt (here ▸ rfl : Stage.informing.next = some (σ.down k))
    cases hstage with
    | @informing k' lt' here' others fini =>
      obtain rfl : k = k' := by
        by_contra hk
        rw [others k lt hk] at here
        cases here
      obtain ⟨hcount', hwait'⟩ := WaitOk.informDone hcount hwait
      refine ⟨.finished, .finished (fun j hj ↦ ?_) fini, hregistered, hcount', hwait'⟩
      by_cases hjk : j = k
      · rw [hjk]
        exact Function.update_self ..
      · exact (Function.update_of_ne hjk ..).trans (others j hj hjk)

theorem Ok.registe (h : σ.Ok n r st) (hstep : Step n σ .registe σ') : ∃ r', σ'.Ok n r' st := by
  obtain ⟨hstage, hregistered, hcount, hwait⟩ := h
  cases hstep with
  | registe here =>
    have hlate := hstage.late_iff
    rw [here] at hwait
    generalize hb : σ.latch.fakeGroup.blockedTask = b at hwait
    cases hwait with
    | registe =>
      by_cases hfini : σ.latch.fakeTask.isFini = true
      · refine ⟨0, hstage.congr rfl rfl ?_, ?_, ?_, ?_⟩ <;>
          simp only [Task.addToGroup, if_pos hfini]
        · exact hregistered
        · exact hcount
        · rw [hb]
          exact .refused (hlate.mp hfini)
      · have hst : st ≠ .finished := fun hst ↦ hfini (hlate.mpr (Or.inr hst))
        refine ⟨1, hstage.congr rfl rfl ?_, ?_, ?_, ?_⟩ <;>
          simp only [Task.addToGroup, if_neg hfini]
        · rfl
        · rw [List.length_append, hregistered]
          rfl
        · rw [hcount, blocking, blocking, if_neg hst, if_neg hst]
          rfl
        · rw [hb]
          exact .read st

theorem Ok.read (h : σ.Ok n r st) (hstep : Step n σ .read σ') : σ'.Ok n r st := by
  obtain ⟨hstage, hregistered, hcount, hwait⟩ := h
  cases hstep with
  | read here =>
    rw [here] at hwait
    refine ⟨hstage.congr rfl rfl rfl, hregistered, hcount, ?_⟩
    change WaitOk r σ.latch.fakeGroup.blockedTask st _
    rw [hcount]
    generalize σ.latch.fakeGroup.blockedTask = b at hwait
    cases hwait with
    | read =>
      by_cases hst : st = .finished
      · rw [hst]
        exact .returned 1 (Or.inr rfl)
      · rw [blocking, if_neg hst]
        exact .switched st
    | refused late =>
      rcases late with rfl | rfl
      · exact .returned 0 (Or.inl rfl)
      · exact .lost

theorem Ok.resume (h : σ.Ok n r st) (hstep : Step n σ .resume σ') : σ'.Ok n r st := by
  obtain ⟨hstage, hregistered, hcount, hwait⟩ := h
  cases hstep with
  | resume here =>
    rw [here] at hwait
    refine ⟨hstage.congr rfl rfl rfl, hregistered, ?_, ?_⟩
    · rw [← hcount, TaskGroup.resumeIfNothingToWait]
      split <;> rfl
    · simp only [TaskGroup.resumeIfNothingToWait, hcount]
      generalize hb : σ.latch.fakeGroup.blockedTask = b at hwait
      cases hwait with
      | switched =>
        by_cases hst : st = .finished
        · rw [hst, if_pos (by rfl), hb]
          exact .runnable 1
        · rw [blocking, if_neg hst]
          exact .parked hst
      | lost => exact .hung

theorem Ok.back (h : σ.Ok n r st) (hstep : Step n σ .back σ') : σ'.Ok n r st := by
  obtain ⟨hstage, hregistered, hcount, hwait⟩ := h
  cases hstep with
  | back here =>
    rw [here] at hwait
    refine ⟨hstage.congr rfl rfl rfl, hregistered, hcount, ?_⟩
    change WaitOk r σ.latch.fakeGroup.blockedTask st .returned
    generalize σ.latch.fakeGroup.blockedTask = b at hwait
    cases hwait with
    | runnable => exact .returned r (Or.inr rfl)

theorem Ok.of_step (h : σ.Ok n r st) (hstep : Step n σ l σ') : ∃ r' st', σ'.Ok n r' st' := by
  cases l with
  | decrement k => exact ⟨r, h.decrement hstep⟩
  | terminate k => exact ⟨r, h.terminate hstep⟩
  | inform k => exact ⟨r, h.inform hstep⟩
  | registe =>
    obtain ⟨r', h'⟩ := h.registe hstep
    exact ⟨r', st, h'⟩
  | read => exact ⟨r, st, h.read hstep⟩
  | resume => exact ⟨r, st, h.resume hstep⟩
  | back => exact ⟨r, st, h.back hstep⟩

theorem Ok.of_reachable (hn : 0 < n) (h : Reachable (Step n) (LatchState.initial n) σ) :
    ∃ r st, σ.Ok n r st := by
  refine h.invariant (I := fun σ ↦ ∃ r st, σ.Ok n r st) ⟨0, .counting, .initial hn⟩ ?_
  rintro σ l σ' ⟨r, st, hσ⟩ hstep
  exact hσ.of_step hstep

/-! ## Not hanging -/

/-- If the task has yielded, it had registered the task of the latch. -/
def Kept (σ : LatchState) : Prop :=
  σ.wait = .switched ∨ σ.wait = .parked → σ.latch.fakeTask.groups ≠ []

/-- `wait` has read `blocking_count`. -/
def Past (σ : LatchState) : Prop := σ.wait ≠ .registe ∧ σ.wait ≠ .read

theorem Kept.of_step (h : σ.Kept) (hok : σ.Ok n r st) (hstep : Step n σ l σ')
    (hread : l = .read → σ.latch.fakeGroup.blockingCount ≠ -1) : σ'.Kept := by
  cases hstep with
  | decrement | terminate => exact h
  | inform lt here =>
    intro hwait
    change (if _ then σ.wait else .runnable) = _ ∨ (if _ then σ.wait else .runnable) = _ at hwait
    split at hwait
    · exact h hwait
    · rcases hwait with hwait | hwait <;> cases hwait
  | registe here =>
    rintro (hwait | hwait) <;> cases hwait
  | read here =>
    intro hwait hgroups
    have hwaitOk := hok.wait
    have hcount := hok.count
    have hr : r = 0 := by rw [← hok.registered, hgroups]; rfl
    rw [here, hr] at hwaitOk
    rw [hr] at hcount
    change (if _ then Wait.returned else .switched) = _ ∨
      (if _ then Wait.returned else .switched) = _ at hwait
    generalize σ.latch.fakeGroup.blockedTask = b at hwaitOk
    cases hwaitOk with
    | refused late =>
      rcases late with rfl | rfl
      · have hzero : σ.latch.fakeGroup.blockingCount = 0 := hcount
        rw [if_pos hzero] at hwait
        rcases hwait with hwait | hwait <;> cases hwait
      · exact hread rfl hcount
  | resume here => exact fun _ ↦ h (Or.inl here)
  | back here =>
    rintro (hwait | hwait) <;> cases hwait

theorem Past.of_step (h : σ.Past) (hstep : Step n σ l σ') : σ'.Past := by
  cases hstep with
  | decrement | terminate => exact h
  | inform lt here =>
    change (if _ then σ.wait else .runnable) ≠ _ ∧ (if _ then σ.wait else .runnable) ≠ _
    split
    · exact h
    · exact ⟨by decide, by decide⟩
  | registe here => exact absurd here h.1
  | read here => exact absurd here h.2
  | resume here =>
    change (if _ then Wait.runnable else .parked) ≠ _ ∧ (if _ then Wait.runnable else .parked) ≠ _
    split <;> exact ⟨by decide, by decide⟩
  | back here =>
    change Wait.returned ≠ .registe ∧ Wait.returned ≠ .read
    exact ⟨by decide, by decide⟩

theorem AtStage.eq_finished (h : AtStage n σ st) (hall : ∀ k < n, σ.down k = .returned) :
    st = .finished := by
  cases h with
  | counting pos count =>
    have hzero : remaining n σ.down = 0 := remaining_eq_zero_iff.mpr fun k hk ↦ by
      rw [hall k hk]
      decide
    omega
  | terminating lt here | informing lt here =>
    rw [hall _ lt] at here
    cases here
  | finished => rfl

theorem Ok.not_hangs (h : σ.Ok n r st) (hkept : σ.Kept) : ¬σ.Hangs n := by
  rintro ⟨hall, hwait, hblocked⟩
  have hwaitOk := h.wait
  have hgroups := List.length_pos_iff.mpr (hkept (Or.inr hwait))
  rw [h.registered] at hgroups
  rw [hwait, hblocked, h.stage.eq_finished hall] at hwaitOk
  cases hwaitOk with
  | parked early => exact early rfl
  | hung => exact absurd hgroups (lt_irrefl 0)

/-- A `wait` that has returned was not early. -/
theorem Ok.counted (h : σ.Ok n r st) (hreturned : σ.wait = .returned) : σ.Counted n := by
  have hwait := h.wait
  rw [hreturned] at hwait
  generalize σ.latch.fakeGroup.blockedTask = b at hwait
  intro k hk hdecrement
  cases hwait with
  | returned _ late =>
    rcases h.stage.next hk with hdown | hnext
    · rw [hdown] at hdecrement
      cases hdecrement
    · rw [hdecrement] at hnext
      rcases late with rfl | rfl <;> cases hnext

/-- A `wait` that reads `-1` hangs as soon as the scheduler has parked the task. -/
theorem Ok.hangs_of_read (h : σ.Ok n r st) (hstep : Step n σ .read σ')
    (hread : σ.latch.fakeGroup.blockingCount = -1) :
    ∃ σ'', Reachable (Step n) σ' σ'' ∧ σ''.Hangs n := by
  have hcount := h.count
  rw [hread, blocking] at hcount
  have hst : st = .finished := by
    by_contra hst
    rw [if_neg hst] at hcount
    omega
  obtain ⟨hstage, -, -, -⟩ := h
  cases hst
  cases hstage with
  | finished all =>
    cases hstep with
    | read here =>
      have hne : σ.latch.fakeGroup.blockingCount ≠ 0 := by omega
      rw [if_neg hne]
      have hresume : σ.latch.fakeGroup.resumeIfNothingToWait 0
          = ({ σ.latch.fakeGroup with blockedTask := some 0 }, false) := if_neg hne
      refine ⟨_, (Reachable.refl _ _).snoc (.resume rfl), all, ?_, ?_⟩ <;>
        simp only [hresume]
      rfl

end LatchState

open LatchState

/-- **The latch.** In every run with at least one call of `down`, `wait` returns only after the last
decrement. A run in which `wait` does not read `-1` never ends with the task parked after all calls
of `down` have returned. And once `wait` has read `blocking_count`, whether that can still happen
depends on this alone: it can if the value was `-1`. -/
theorem latch_releases_iff {n : ℕ} (hn : 0 < n) {σ : LatchState}
    (hrun : Reachable (LatchState.Step n) (LatchState.initial n) σ) :
    (σ.wait = .returned → σ.Counted n) ∧
    (Reachable (CarefulStep n) (LatchState.initial n) σ → ¬σ.Hangs n) ∧
    ∀ σ', LatchState.Step n σ .read σ' →
      ((∀ σ'', Reachable (LatchState.Step n) σ' σ'' → ¬σ''.Hangs n) ↔
        σ.latch.fakeGroup.blockingCount ≠ -1) := by
  obtain ⟨r, st, hσ⟩ := Ok.of_reachable hn hrun
  refine ⟨hσ.counted, fun hcareful ↦ ?_, fun σ' hstep ↦ ⟨fun hafter hread ↦ ?_, fun hread ↦ ?_⟩⟩
  · obtain ⟨-, hkept⟩ : (∃ r st, σ.Ok n r st) ∧ σ.Kept := by
      refine hcareful.invariant (I := fun σ ↦ (∃ r st, σ.Ok n r st) ∧ σ.Kept)
        ⟨⟨0, .counting, .initial hn⟩, ?_⟩ ?_
      · rintro (hwait | hwait) <;> cases hwait
      · rintro σ l σ' ⟨⟨r, st, hσ⟩, hkept⟩ ⟨hstep, hread⟩
        exact ⟨hσ.of_step hstep, hkept.of_step hσ hstep hread⟩
    exact hσ.not_hangs hkept
  · obtain ⟨σ'', hrun', hhangs⟩ := hσ.hangs_of_read hstep hread
    exact hafter σ'' hrun' hhangs
  · intro σ'' hrun'
    obtain ⟨⟨r', st', hσ''⟩, hkept, -⟩ : (∃ r st, σ''.Ok n r st) ∧ σ''.Kept ∧ σ''.Past := by
      refine hrun'.invariant (I := fun σ ↦ (∃ r st, σ.Ok n r st) ∧ σ.Kept ∧ σ.Past)
        ⟨hσ.of_step hstep, ?_, ?_⟩ ?_
      · refine Kept.of_step ?_ hσ hstep fun _ ↦ hread
        cases hstep with
        | read here =>
          rw [Kept, here]
          rintro (hwait | hwait) <;> cases hwait
      · cases hstep with
        | read here =>
          change (if _ then Wait.returned else .switched) ≠ _ ∧
            (if _ then Wait.returned else .switched) ≠ _
          split <;> exact ⟨by decide, by decide⟩
      · rintro σ l σ' ⟨⟨r, st, hσ⟩, hkept, hpast⟩ hstep
        refine ⟨hσ.of_step hstep, hkept.of_step hσ hstep ?_, hpast.of_step hstep⟩
        rintro rfl
        cases hstep with
        | read here => exact absurd here hpast.2
    exact hσ''.not_hangs hkept

/-- The last of two calls of `down` has marked the task when `wait` registers it. -/
theorem latch_releases_iff_refused :
    ∃ σ σ', Reachable (LatchState.Step 2) (LatchState.initial 2) σ ∧
      LatchState.Step 2 σ .read σ' ∧
      ∀ σ'', Reachable (LatchState.Step 2) σ' σ'' → ¬σ''.Hangs 2 := by
  obtain ⟨σ, σ', hrun, hstep, hcount⟩ : ∃ σ σ',
      Reachable (LatchState.Step 2) (LatchState.initial 2) σ ∧ LatchState.Step 2 σ .read σ' ∧
        σ.latch.fakeGroup.blockingCount = 0 :=
    ⟨_, _, ((((Reachable.refl _ _).snoc
      (.decrement (k := 0) (by decide) rfl)).snoc
      (.decrement (k := 1) (by decide) rfl)).snoc
      (.terminate (k := 1) (by decide) rfl)).snoc
      (.registe rfl), .read rfl, rfl⟩
  exact ⟨σ, σ', hrun, hstep, ((latch_releases_iff (by decide) hrun).2.2 σ' hstep).mpr (by omega)⟩

/-- The only call of `down` returns before `wait` is called. -/
theorem latch_hangs :
    ∃ σ, Reachable (LatchState.Step 1) (LatchState.initial 1) σ ∧ σ.Hangs 1 :=
  ⟨_, ((((((Reachable.refl _ _).snoc
    (.decrement (k := 0) (by decide) rfl)).snoc
    (.terminate (k := 0) (by decide) rfl)).snoc
    (.inform (k := 0) (by decide) rfl)).snoc
    (.registe rfl)).snoc
    (.read rfl)).snoc
    (.resume rfl), fun k hk ↦ by
      obtain rfl := Nat.lt_one_iff.mp hk
      rfl, rfl, rfl⟩

end TYThread
