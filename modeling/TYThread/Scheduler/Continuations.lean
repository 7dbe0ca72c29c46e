import TYThread.Scheduler.Inside

/-!
# Continuations

A task that is not pure has two continuations. `saved_continuation` leads out of its callback, to
the thread that runs it, and `task_continuation` leads back into it. A continuation can be resumed
once, which leaves it empty, and resuming an empty one is undefined. `MUST_TRUE` checks this in the
code where it is not compiled out.

A step of the scheduler does one of three things with them. `callcc` calls the callback and sets
`saved_continuation`. `resume` empties one of the two, and sets the other where control arrives. And
the end of a callback returns `saved_continuation`, so that both are empty then.
-/

namespace TYThread

open Counting Transition

/-- Which continuations of which tasks are not empty. -/
structure Continuations where
  saved : ℕ → Bool := fun _ ↦ false
  task : ℕ → Bool := fun _ ↦ false

namespace Continuations

variable (κ : Continuations) (t : ℕ)

/-- `callcc`. -/
def callcc : Continuations := { κ with saved := Function.update κ.saved t true }

/-- `task_continuation = task_continuation.resume()`, up to where the callback goes on. -/
def resumeTask : Continuations where
  saved := Function.update κ.saved t true
  task := Function.update κ.task t false

/-- `saved_continuation = saved_continuation.resume()`, up to where the thread goes on. -/
def resumeSaved : Continuations where
  saved := Function.update κ.saved t false
  task := Function.update κ.task t true

/-- The callback returns `saved_continuation`. -/
def finish : Continuations where
  saved := Function.update κ.saved t false
  task := Function.update κ.task t false

theorem resumeTask_task : (κ.resumeTask t).task t = false := Function.update_self ..

theorem resumeSaved_saved : (κ.resumeSaved t).saved t = false := Function.update_self ..

theorem finish_saved : (κ.finish t).saved t = false := Function.update_self ..

theorem finish_task : (κ.finish t).task t = false := Function.update_self ..

end Continuations

/-- A step of the scheduler, with what it does to the continuations. There is none where the code
would resume an empty one. -/
inductive ContinuationStep (N : ℕ) (σ : Sched) (κ : Continuations) :
    Label → Sched → Continuations → Prop
  /-- `runInStack`. -/
  | inStack {t : ℕ} {σ' : Sched} (step : Step N σ (.back t) σ') (pure : (σ.task t).isPure = true) :
      ContinuationStep N σ κ (.back t) σ' κ
  | call {t : ℕ} {σ' : Sched} (step : Step N σ (.back t) σ') (impure : (σ.task t).isPure = false)
      (first : (σ.task t).state = .initial) : ContinuationStep N σ κ (.back t) σ' (κ.callcc t)
  | resume {t : ℕ} {σ' : Sched} (step : Step N σ (.back t) σ') (impure : (σ.task t).isPure = false)
      (later : (σ.task t).state ≠ .initial) (valid : κ.task t = true) :
      ContinuationStep N σ κ (.back t) σ' (κ.resumeTask t)
  /-- `continuationOut`. -/
  | out {l : Label} {i c : ℕ} {p : Option ℕ} {σ' : Sched} (step : Step N σ l σ')
      (here : (σ.thread i).pc = .task c p .user) (after : (σ'.thread i).pc = .task c p .switched)
      (valid : κ.saved c = true) : ContinuationStep N σ κ l σ' (κ.resumeSaved c)
  | finish {l : Label} {i c : ℕ} {p : Option ℕ} {σ' : Sched} (step : Step N σ l σ')
      (here : (σ.thread i).pc = .task c p (.terminating []))
      (after : (σ'.thread i).pc = .task c p .switched) (impure : (σ.task c).isPure = false)
      (valid : κ.saved c = true) : ContinuationStep N σ κ l σ' (κ.finish c)
  | finishInStack {l : Label} {i c : ℕ} {p : Option ℕ} {σ' : Sched} (step : Step N σ l σ')
      (here : (σ.thread i).pc = .task c p (.terminating []))
      (after : (σ'.thread i).pc = .task c p .switched) (pure : (σ.task c).isPure = true) :
      ContinuationStep N σ κ l σ' κ
  /-- No task gets control, and none gives it back. -/
  | other {l : Label} {σ' : Sched} (step : Step N σ l σ') (forth : ∀ t, l ≠ .back t)
      (switched : ∀ i c p, (σ'.thread i).pc = .task c p .switched →
        (σ.thread i).pc = .task c p .switched) : ContinuationStep N σ κ l σ' κ

/-- The task has left its callback and is to come back. -/
structure Sched.Suspended (σ : Sched) (t : ℕ) : Prop where
  impure : (σ.task t).isPure = false
  called : (σ.task t).state ≠ .initial
  live : (σ.task t).state ≠ .terminated
  outside : ¬σ.Inside t

/-- The continuations that lead out are those of the callbacks that run, and those that lead in are
those of the suspended tasks. -/
structure Continuations.Ok (σ : Sched) (κ : Continuations) : Prop where
  saved : ∀ t, κ.saved t = true ↔ (σ.task t).isPure = false ∧ σ.Inside t
  task : ∀ t, κ.task t = true ↔ σ.Suspended t

variable {N t u c i j n : ℕ} {σ σ' : Sched} {κ κ' : Continuations} {l : Label}

/-! ## Tasks -/

theorem ContinuationStep.step (h : ContinuationStep N σ κ l σ' κ') : Step N σ l σ' := by
  cases h <;> assumption

theorem Step.task_of_back (h : Step N σ (.back t) σ') :
    σ'.task = Function.update σ.task t (σ.task t).continuationIn := by
  cases h <;> rfl

theorem Step.live_of_back (h : Step N σ (.back t) σ') (hσ : σ.Ok N) :
    (σ.task t).state ≠ .terminated := by
  cases h with
  | dequeue lt here queue => exact (hσ.thread _ lt).stored t (PerThreadMgr.mem_stored_head queue)
  | pollTask lt here entry =>
    exact (hσ.thread _ lt).stored t (PerThreadMgr.mem_stored_polled (by rw [here]; rfl) entry)

theorem Step.isPure_eq (h : Step N σ l σ') (hσ : σ.Ok N) :
    (σ'.task t).isPure = (σ.task t).isPure ∨ σ.task t = {} ∧ (σ'.task t).state = .initial := by
  obtain ⟨c, hother, hlife⟩ := h.life hσ
  by_cases hc : t = c
  · subst hc
    generalize σ'.task t = a' at hlife ⊢
    cases hlife with
    | make isPure new => exact Or.inr ⟨new, rfl⟩
    | _ => exact Or.inl rfl
  · rw [hother t hc]
    exact Or.inl rfl

theorem Step.live (h : Step N σ l σ') (hσ : σ.Ok N) (hlive : (σ.task t).state ≠ .terminated)
    (hinside : ¬σ.Inside t) : (σ'.task t).state ≠ .terminated := by
  have hupdate : ∀ {c : ℕ} {a : Task}, a.state ≠ .terminated →
      (Function.update σ.task c a t).state ≠ .terminated := by
    intro c a ha
    by_cases hc : t = c
    · rwa [hc, Function.update_self]
    · rwa [Function.update_of_ne hc]
  have hkeep : (∀ u, (σ'.task u).state = (σ.task u).state) → (σ'.task t).state ≠ .terminated :=
    fun h ↦ by rwa [h]
  cases h with
  | terminateGracefully | control | steal | install | waitDone | destroy | informLock
  | informDecrement | informTake | informNobody | informUnlock | handleRunnable | handleMpi
  | stillMpi | handleWait | handleOther | resumeLock | resumeBlock | resumeUnlock | erase =>
    exact hlive
  | newTask | waitYield | informEnqueue | resumeZero => exact hupdate (fun h ↦ by cases h)
  | yield lt here impure as =>
    refine hupdate fun h ↦ ?_
    rcases as with rfl | rfl <;> cases h
  | registe lt here made unlocked room alive accepted =>
    exact hkeep (apply_update_eq Task.state (by rw [Task.addToGroup, accepted]; rfl))
  | registeFini lt here made unlocked alive rejected =>
    exact hkeep (apply_update_eq Task.state (by rw [Task.addToGroup, rejected]; rfl))
  | addRunnable | terminated | requeue => exact hkeep (apply_update_eq Task.state (by rfl))
  | dequeue lt here queue =>
    exact hupdate (Task.continuationIn_live ((Step.dequeue lt here queue).live_of_back hσ))
  | pollTask lt here entry =>
    exact hupdate (Task.continuationIn_live ((Step.pollTask lt here entry).live_of_back hσ))
  | @terminate i c p lt here =>
    have hc : t ≠ c := by
      rintro rfl
      exact hinside ⟨i, by rw [here]; rfl⟩
    rwa [Sched.goto, Sched.setThread_task, Sched.setTask_task, Function.update_of_ne hc]

theorem Step.terminated_forever (h : Step N σ l σ') (hσ : σ.Ok N)
    (ht : (σ.task t).state = .terminated) : (σ'.task t).state = .terminated := by
  obtain ⟨c, hother, hlife⟩ := h.life hσ
  by_cases hc : t = c
  · subst hc
    exact hlife.terminated (hσ.task t) ht
  · rwa [hother t hc]

/-- **Suspended tasks** stay so, unless they get control. -/
theorem Step.suspended_iff (h : Step N σ l σ') (hσ : σ.Ok N)
    (hline : σ.Fresh t → (σ.task t).spawned = true → ∃ i, t ∈ (σ.thread i).line)
    (hne : l ≠ .back t) (hbefore : ¬σ.Inside t) (hafter : ¬σ'.Inside t) :
    σ'.Suspended t ↔ σ.Suspended t := by
  have hinitial : (σ'.task t).state = .initial ↔ (σ.task t).state = .initial :=
    ⟨h.initial hσ, fun ht ↦ (h.fresh_stays hσ (hline ⟨ht, hbefore⟩) ⟨ht, hbefore⟩ hne).1⟩
  have hpure : (σ.task t).state ≠ .initial → (σ'.task t).isPure = (σ.task t).isPure := fun ht ↦
    (h.isPure_eq hσ).resolve_right fun hnew ↦ ht (by rw [hnew.1])
  constructor
  · intro hs
    have hcalled : (σ.task t).state ≠ .initial := fun h ↦ hs.called (hinitial.mpr h)
    exact ⟨(hpure hcalled).symm.trans hs.impure, hcalled,
      fun hterm ↦ hs.live (h.terminated_forever hσ hterm), hbefore⟩
  · intro hs
    exact ⟨(hpure hs.called).trans hs.impure, fun ht ↦ hs.called (hinitial.mp ht),
      h.live hσ hs.live hbefore, hafter⟩

/-- Whether a callback can be resumed from the thread does not change while it runs, or does not. -/
theorem Step.saved_iff (h : Step N σ l σ') (hσ : σ.Ok N)
    (hinside : σ'.Inside t ↔ σ.Inside t) :
    (σ'.task t).isPure = false ∧ σ'.Inside t ↔ (σ.task t).isPure = false ∧ σ.Inside t := by
  rw [hinside]
  refine and_congr_left fun hin ↦ ?_
  rcases h.isPure_eq hσ with heq | ⟨hnew, -⟩
  · rw [heq]
  · -- A task that is made is nowhere.
    obtain ⟨i, hi⟩ := hin
    have hspawned := hσ.spawned_of_count (hσ.lt_of_inside hi) (Sched.Ok.count_pos_of_inside hi)
    rw [hnew] at hspawned
    cases hspawned

theorem Sched.Ok.inside_unique (hσ : σ.Ok N) (hi : (σ.thread i).pc.inside = some t)
    (hj : (σ.thread j).pc.inside = some t) : i = j :=
  hσ.eq_of_count (hσ.lt_of_inside hi) (hσ.lt_of_inside hj) (Sched.Ok.count_pos_of_inside hi)
    (Sched.Ok.count_pos_of_inside hj)

/-! ## Continuations -/

namespace Continuations.Ok

theorem update (h : κ.Ok σ) (hstep : Step N σ l σ') (hσ : σ.Ok N)
    (hline : ∀ t, σ.Fresh t → (σ.task t).spawned = true → ∃ i, t ∈ (σ.thread i).line) (c : ℕ)
    (hback : ∀ t, t ≠ c → l ≠ .back t) (hinside : ∀ t, t ≠ c → (σ'.Inside t ↔ σ.Inside t))
    (hsaved : ∀ t, t ≠ c → κ'.saved t = κ.saved t) (htask : ∀ t, t ≠ c → κ'.task t = κ.task t)
    (hc : κ'.saved c = true ↔ (σ'.task c).isPure = false ∧ σ'.Inside c)
    (hc' : κ'.task c = true ↔ σ'.Suspended c) : κ'.Ok σ' := by
  constructor
  · intro t
    by_cases ht : t = c
    · rwa [ht]
    · rw [hsaved t ht, h.saved, hstep.saved_iff hσ (hinside t ht)]
  · intro t
    by_cases ht : t = c
    · rwa [ht]
    · rw [htask t ht, h.task]
      by_cases hin : σ.Inside t
      · exact iff_of_false (fun hs ↦ hs.outside hin) fun hs ↦ hs.outside ((hinside t ht).mpr hin)
      · exact (hstep.suspended_iff hσ (hline t) (hback t ht) hin
          fun h ↦ hin ((hinside t ht).mp h)).symm

end Continuations.Ok

theorem Step.inside_iff_of_back (h : Step N σ (.back c) σ') (hne : t ≠ c) :
    σ'.Inside t ↔ σ.Inside t := by
  cases h.inside with
  | @enter i c before after others =>
    constructor
    · rintro ⟨j, hj⟩
      by_cases hji : j = i
      · rw [hji, after] at hj
        exact absurd (Option.some.inj hj).symm hne
      · exact ⟨j, by rw [← others j hji, hj]⟩
    · rintro ⟨j, hj⟩
      have hji : j ≠ i := by
        rintro rfl
        rw [before] at hj
        cases hj
      exact ⟨j, by rw [others j hji, hj]⟩
  | out forth | finish forth | stay forth => exact absurd rfl (forth c)

theorem Sched.Ok.inside_iff_of_leave (hσ : σ.Ok N) (here : (σ.thread i).pc.inside = some c)
    (hafter : (σ'.thread i).pc.inside = none)
    (hothers : ∀ j, j ≠ i → (σ'.thread j).pc = (σ.thread j).pc) :
    ¬σ'.Inside c ∧ ∀ t, t ≠ c → (σ'.Inside t ↔ σ.Inside t) := by
  constructor
  · rintro ⟨j, hj⟩
    have hji : j ≠ i := by
      rintro rfl
      rw [hafter] at hj
      cases hj
    rw [hothers j hji] at hj
    exact hji (hσ.inside_unique hj here)
  · intro t ht
    constructor
    · rintro ⟨j, hj⟩
      have hji : j ≠ i := by
        rintro rfl
        rw [hafter] at hj
        cases hj
      exact ⟨j, by rw [← hothers j hji, hj]⟩
    · rintro ⟨j, hj⟩
      have hji : j ≠ i := by
        rintro rfl
        rw [here] at hj
        exact ht (Option.some.inj hj).symm
      exact ⟨j, by rw [hothers j hji, hj]⟩

theorem InsideMove.of_switched {p : Option ℕ} {act : Activity} (h : InsideMove σ σ' l)
    (here : (σ.thread i).pc = .task c p act) (hact : act ≠ .switched)
    (after : (σ'.thread i).pc = .task c p .switched) :
    (∀ t, l ≠ .back t) ∧ (∀ j, j ≠ i → (σ'.thread j).pc = (σ.thread j).pc) ∧
      (act = .user → (σ.task c).isPure = false ∧ (σ'.task c).state ≠ .terminated) := by
  have hsame : (σ'.thread i).pc ≠ (σ.thread i).pc := by
    rw [here, after]
    exact fun h ↦ hact (Pc.task.inj h).2.2.symm
  cases h with
  | @enter i' t before after' others =>
    by_cases hi : i = i'
    · rw [← hi, after] at after'
      cases after'
    · exact absurd (others i hi) hsame
  | @out _ i' c' p' forth here' after' others impure live =>
    by_cases hi : i = i'
    · subst hi
      obtain ⟨rfl, rfl, rfl⟩ := Pc.task.inj (here.symm.trans here')
      exact ⟨forth, others, fun _ ↦ ⟨impure, live⟩⟩
    · exact absurd (others i hi) hsame
  | @finish _ i' c' p' forth here' after' others =>
    by_cases hi : i = i'
    · subst hi
      obtain ⟨rfl, rfl, rfl⟩ := Pc.task.inj (here.symm.trans here')
      exact ⟨forth, others, fun h ↦ by cases h⟩
    · exact absurd (others i hi) hsame
  | stay forth same switched =>
    exact absurd (after.trans (switched i c p after).symm) hsame

/-- What is known before a step: the invariant, and where the fresh tasks are. -/
structure Sched.Started (N : ℕ) (σ : Sched) : Prop where
  ok : σ.Ok N
  line : ∀ t, σ.Fresh t → (σ.task t).spawned = true → ∃ i, t ∈ (σ.thread i).line

/-- **One step** keeps the continuations in order. -/
theorem ContinuationStep.ok (h : ContinuationStep N σ κ l σ' κ') (hσ : σ.Started N) (hσ' : σ'.Ok N)
    (hκ : κ.Ok σ) : κ'.Ok σ' := by
  have hback : ∀ {c : ℕ} {σ' : Sched}, Step N σ (.back c) σ' →
      (σ'.task c).isPure = (σ.task c).isPure := fun h ↦ by
    rw [h.task_of_back, Function.update_self]
    rfl
  cases h with
  | @inStack c σ' step pure =>
    refine hκ.update step hσ.ok hσ.line c (fun t ht h ↦ ht (Label.back.inj h).symm)
      (fun t ht ↦ step.inside_iff_of_back ht) (fun _ _ ↦ rfl) (fun _ _ ↦ rfl) ?_ ?_
    · rw [hκ.saved, hback step, pure]
      exact iff_of_false (fun h ↦ by cases h.1) fun h ↦ by cases h.1
    · rw [hκ.task]
      exact iff_of_false (fun h ↦ by rw [h.impure] at pure; cases pure) fun h ↦
        h.outside step.inside_of_back
  | @call c σ' step impure first =>
    refine hκ.update step hσ.ok hσ.line c (fun t ht h ↦ ht (Label.back.inj h).symm)
      (fun t ht ↦ step.inside_iff_of_back ht) (fun t ht ↦ Function.update_of_ne ht _ _)
      (fun _ _ ↦ rfl) ?_ ?_
    · refine iff_of_true (Function.update_self ..) ⟨(hback step).trans impure, step.inside_of_back⟩
    · rw [Continuations.callcc, hκ.task]
      exact iff_of_false (fun h ↦ h.called first) fun h ↦ h.outside step.inside_of_back
  | @resume c σ' step impure later valid =>
    refine hκ.update step hσ.ok hσ.line c (fun t ht h ↦ ht (Label.back.inj h).symm)
      (fun t ht ↦ step.inside_iff_of_back ht) (fun t ht ↦ Function.update_of_ne ht _ _)
      (fun t ht ↦ Function.update_of_ne ht _ _) ?_ ?_
    · refine iff_of_true (Function.update_self ..) ⟨(hback step).trans impure, step.inside_of_back⟩
    · rw [Continuations.resumeTask_task]
      exact iff_of_false (by decide) fun h ↦ h.outside step.inside_of_back
  | @out _ i c p σ' step here after valid =>
    obtain ⟨forth, others, huser⟩ := step.inside.of_switched here (by decide) after
    obtain ⟨impure, live⟩ := huser rfl
    obtain ⟨hleft, hinside⟩ := hσ.ok.inside_iff_of_leave (by rw [here]; rfl)
      (by rw [after]; rfl) others
    have hlt : i < N := hσ.ok.lt_of_inside (t := c) (by rw [here]; rfl)
    refine hκ.update step hσ.ok hσ.line c (fun t _ ↦ forth t) hinside
      (fun t ht ↦ Function.update_of_ne ht _ _) (fun t ht ↦ Function.update_of_ne ht _ _) ?_ ?_
    · rw [Continuations.resumeSaved_saved]
      exact iff_of_false (by decide) fun h ↦ hleft h.2
    · have hcalled : (σ'.task c).state ≠ .initial := (hσ'.hand_at hlt after).1
      refine iff_of_true (Function.update_self ..) ⟨?_, hcalled, live, hleft⟩
      rcases step.isPure_eq hσ.ok (t := c) with heq | ⟨-, hinit⟩
      · rw [heq, impure]
      · exact absurd hinit hcalled
  | @finish _ i c p σ' step here after impure valid =>
    obtain ⟨forth, others, -⟩ := step.inside.of_switched here (by decide) after
    obtain ⟨hleft, hinside⟩ := hσ.ok.inside_iff_of_leave (by rw [here]; rfl)
      (by rw [after]; rfl) others
    refine hκ.update step hσ.ok hσ.line c (fun t _ ↦ forth t) hinside
      (fun t ht ↦ Function.update_of_ne ht _ _) (fun t ht ↦ Function.update_of_ne ht _ _) ?_ ?_
    · rw [Continuations.finish_saved]
      exact iff_of_false (by decide) fun h ↦ hleft h.2
    · have hdying := hσ.ok.hand_at (hσ.ok.lt_of_inside (t := c) (by rw [here]; rfl)) here
      rw [Continuations.finish_task]
      exact iff_of_false (by decide) fun h ↦ h.live (step.terminated_forever hσ.ok hdying.state)
  | @finishInStack _ i c p σ' step here after pure =>
    obtain ⟨forth, others, -⟩ := step.inside.of_switched here (by decide) after
    obtain ⟨hleft, hinside⟩ := hσ.ok.inside_iff_of_leave (by rw [here]; rfl)
      (by rw [after]; rfl) others
    refine hκ.update step hσ.ok hσ.line c (fun t _ ↦ forth t) hinside (fun _ _ ↦ rfl)
      (fun _ _ ↦ rfl) ?_ ?_
    · rw [hκ.saved, pure]
      exact iff_of_false (fun h ↦ by cases h.1) fun h ↦ hleft h.2
    · have hdying := hσ.ok.hand_at (hσ.ok.lt_of_inside (t := c) (by rw [here]; rfl)) here
      rw [hκ.task]
      exact iff_of_false (fun h ↦ by rw [h.impure] at pure; cases pure) fun h ↦
        h.live (step.terminated_forever hσ.ok hdying.state)
  | other step forth switched =>
    have hinside : ∀ t, σ'.Inside t ↔ σ.Inside t := by
      cases step.inside with
      | enter => exact absurd rfl (forth _)
      | @out _ i c p _ here after | @finish _ i c p _ here after =>
        have hold := switched i c p after
        rw [here] at hold
        cases hold
      | stay _ same => exact fun t ↦ by rw [Sched.Inside, Sched.Inside]; simp only [same]
    refine ⟨fun t ↦ ?_, fun t ↦ ?_⟩
    · rw [hκ.saved, step.saved_iff hσ.ok (hinside t)]
    · rw [hκ.task]
      by_cases hin : σ.Inside t
      · exact iff_of_false (fun h ↦ h.outside hin) fun h ↦ h.outside ((hinside t).mpr hin)
      · exact (step.suspended_iff hσ.ok (hσ.line t) (forth t) hin
          fun h ↦ hin ((hinside t).mp h)).symm

/-- **No step gets stuck** on an empty continuation. -/
theorem Continuations.Ok.receptive (hκ : κ.Ok σ) (hσ : σ.Ok N) (h : Step N σ l σ') :
    ∃ κ', ContinuationStep N σ κ l σ' κ' := by
  have hinside := h.inside
  cases hinside with
  | @enter i t before after others =>
    cases hpure : (σ.task t).isPure with
    | true => exact ⟨_, .inStack h hpure⟩
    | false =>
      by_cases hfirst : (σ.task t).state = .initial
      · exact ⟨_, .call h hpure hfirst⟩
      · exact ⟨_, .resume h hpure hfirst ((hκ.task t).mpr ⟨hpure, hfirst, h.live_of_back hσ,
          h.not_inside_of_back hσ⟩)⟩
  | @out _ i c p forth here after others impure live =>
    exact ⟨_, .out h here after ((hκ.saved c).mpr ⟨impure, i, by rw [here]; rfl⟩)⟩
  | @finish _ i c p forth here after others =>
    cases hpure : (σ.task c).isPure with
    | true => exact ⟨_, .finishInStack h here after hpure⟩
    | false =>
      exact ⟨_, .finish h here after hpure ((hκ.saved c).mpr ⟨hpure, i, by rw [here]; rfl⟩)⟩
  | stay forth same switched => exact ⟨_, .other h forth switched⟩

/-! ## Runs -/

/-- The scheduler with its continuations. -/
def Continued (N : ℕ) (ρ : Sched × Continuations) (l : Label) (ρ' : Sched × Continuations) : Prop :=
  ContinuationStep N ρ.1 ρ.2 l ρ'.1 ρ'.2 ∧ ρ.1.OneWaiter l

theorem Continuations.Ok.initial (N : ℕ) :
    Sched.initial.Started N ∧ Continuations.Ok Sched.initial {} := by
  have hinside : ∀ t, ¬Sched.initial.Inside t := fun t ⟨i, hi⟩ ↦ by
    by_cases h0 : i = 0 <;> simp [Sched.initial, h0, Pc.inside] at hi
  refine ⟨⟨.initial N, fun t _ h ↦ ?_⟩, fun t ↦ iff_of_false Bool.false_ne_true
    fun h ↦ hinside t h.2, fun t ↦ iff_of_false Bool.false_ne_true fun h ↦ h.called rfl⟩
  simp [Sched.initial] at h

theorem Continuations.Ok.of_reachable {ρ : Sched × Continuations}
    (h : Reachable (Continued N) (Sched.initial, {}) ρ) : ρ.1.Started N ∧ ρ.2.Ok ρ.1 := by
  refine h.invariant (I := fun ρ ↦ ρ.1.Started N ∧ ρ.2.Ok ρ.1)
    (Continuations.Ok.initial N) fun ρ l ρ' ⟨hσ, hκ⟩ ⟨hstep, hone⟩ ↦ ?_
  have hok := hstep.step.ok hσ.ok hone
  exact ⟨⟨hok, fun t ↦ hstep.step.fresh_line hσ.ok hok (hσ.line t)⟩, hstep.ok hσ hok hκ⟩

theorem exists_continued (hrun : Reachable (OneWaiterStep N) Sched.initial σ) :
    ∃ κ, Reachable (Continued N) (Sched.initial, {}) (σ, κ) := by
  refine hrun.invariant (I := fun σ ↦ ∃ κ, Reachable (Continued N) (Sched.initial, {}) (σ, κ))
    ⟨{}, .refl _ _⟩ fun σ l σ' ⟨κ, hκ⟩ hstep ↦ ?_
  obtain ⟨hσ, hok⟩ := Continuations.Ok.of_reachable hκ
  obtain ⟨κ', hnext⟩ := hok.receptive hσ.ok hstep.1
  exact ⟨κ', hκ.snoc (l := l) ⟨hnext, hstep.2⟩⟩

/-- **The checks of the scheduler never fail.** In every state that is reached, whatever the
scheduler does next, no empty continuation is resumed or returned: `saved_continuation` is set while
the callback of a task that is not pure runs, and `task_continuation` from the time that the task
has left it until it comes back. And a thread has nothing in its queue when it installs a list that
it has stolen. -/
theorem continuations_valid {ρ : Sched × Continuations}
    (hrun : Reachable (Continued N) (Sched.initial, {}) ρ) :
    (∀ l σ', OneWaiterStep N ρ.1 l σ' → ∃ κ', Continued N ρ l (σ', κ')) ∧
    (∀ t, ρ.2.saved t = true ↔ (ρ.1.task t).isPure = false ∧ ρ.1.Inside t) ∧
    (∀ t, ρ.2.task t = true ↔ ρ.1.Suspended t) ∧
    ∀ i < N, ∀ xs, (ρ.1.thread i).pc = .install xs → (ρ.1.thread i).runnableQueue = [] := by
  obtain ⟨hσ, hκ⟩ := Continuations.Ok.of_reachable hrun
  refine ⟨fun l σ' hstep ↦ ?_, hκ.saved, hκ.task, fun i hi xs hpc ↦ ?_⟩
  · obtain ⟨κ', hnext⟩ := hκ.receptive hσ.ok hstep.1
    exact ⟨κ', hnext, hstep.2⟩
  · have hshape := (hσ.ok.thread i hi).shape
    rwa [PerThreadMgr.Shape, hpc] at hshape

/-- A task has yielded in its callback, and gets control back. -/
theorem continuations_valid_yielded : ∃ ρ : Sched × Continuations,
    Reachable (Continued 1) (Sched.initial, {}) ρ ∧ ρ.2.task 0 = true ∧
      ∃ σ' κ', Continued 1 ρ (.back 0) (σ', κ') := by
  obtain ⟨σ, σ', hrun, hsuspended, hstep⟩ : ∃ σ σ', Reachable (OneWaiterStep 1) Sched.initial σ ∧
      ((σ.task 0).state = .runnable ∧ (σ.task 0).isPure = false ∧ (σ.thread 0).pc = .loop ∧
        ∀ i, i ≠ 0 → (σ.thread i).pc = .loop) ∧ OneWaiterStep 1 σ (.back 0) σ' :=
    ⟨_, _, ((((((Reachable.refl _ _).snoc
      ⟨Step.newTask (i := 0) false (by decide) trivial, trivial⟩).snoc
      ⟨Step.addRunnable (i := 0) (t := 0) (by decide) trivial (by decide) rfl, trivial⟩).snoc
      ⟨Step.control (i := 0) (by decide) rfl .start, trivial⟩).snoc
      ⟨Step.dequeue (i := 0) (t := 0) (by decide) rfl rfl, trivial⟩).snoc
      ⟨Step.yield (i := 0) (c := 0) (by decide) rfl rfl (Or.inl rfl), trivial⟩).snoc
      ⟨Step.handleRunnable (i := 0) (t := 0) (by decide) rfl rfl, trivial⟩,
      ⟨rfl, rfl, rfl, fun i hi ↦ by
        simp [Sched.initial, Sched.enqueue, Sched.goto, hi]⟩,
      Step.dequeue (i := 0) (t := 0) (by decide) rfl rfl, trivial⟩
  obtain ⟨κ, hκ⟩ := exists_continued hrun
  obtain ⟨hreceptive, -, htask, -⟩ := continuations_valid hκ
  obtain ⟨hstate, hpure, hmain, hother⟩ := hsuspended
  refine ⟨(σ, κ), hκ, (htask 0).mpr ⟨hpure, ?_, ?_, fun hinside ↦ ?_⟩, σ', hreceptive _ σ' hstep⟩
  · exact fun h ↦ by cases hstate.symm.trans h
  · exact fun h ↦ by cases hstate.symm.trans h
  · obtain ⟨i, hi⟩ := hinside
    by_cases h0 : i = 0
    · rw [h0, hmain] at hi
      cases hi
    · rw [hother i h0] at hi
      cases hi

end TYThread
