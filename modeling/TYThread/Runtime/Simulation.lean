import TYThread.Runtime.Refinement

/-!
# The runtime can make every step of the scheduler

The other half of the refinement. No step of the scheduler is lost when its queues are lists and its
tasks are behind handles: the runtime can make it, after the end of the last `run_runnable` where it
is about to call `dequeue`. Only the lists decide how much a thief gets. What the program has to
bring is a handle to each task that it hands over or registers, and room for each task that it
makes.
-/

namespace TYThread

open Counting Transition

variable {N : ℕ} {owner : ℕ → ℕ} {ρ : Runtime} {σ σ' σ'' : Sched} {i t : ℕ} {l : Label}

/-- The thread `i` takes `xs` from the queue of the thread `v`, and leaves `ys`. -/
def Sched.rob (σ : Sched) (i v : ℕ) (xs ys : List ℕ) : Sched :=
  (σ.setThread v { σ.thread v with runnableQueue := ys }).goto i (.install xs)

/-- The steps from `σ` to `σ'` and to `σ''` are the same, or are thefts from the same thread. -/
inductive Sched.UpToTheft (σ : Sched) : Sched → Sched → Prop
  | same (σ' : Sched) : UpToTheft σ σ' σ'
  | theft {i v : ℕ} {xs ys xs' ys' : List ℕ} (queue : xs ++ ys = xs' ++ ys') (nonempty : xs' ≠ []) :
      UpToTheft σ (σ.rob i v xs ys) (σ.rob i v xs' ys')

/-- What the step to `σ'` needs from the program. -/
structure Runtime.Provides (ρ : Runtime) (l : Label) (σ' : Sched) : Prop where
  new : σ'.next ≠ ρ.sched.next →
    ∃ n a, ρ.world.handles (Holder.other n) = none ∧ ρ.world.heap.obj a = none
  spawn : ∀ t, (σ'.task t).spawned ≠ (ρ.sched.task t).spawned → ∃ h, ρ.Refers h t
  registe : ∀ c t g, l = .registe c t g → ∃ h, ρ.Refers h t

/-! ## Steps without a call -/

namespace Pc

variable {pc pc' : Pc} {p : Option ℕ} {act act' : Activity}

theorem quiet_goOn (htake : ∀ g rest, act ≠ .inform g rest .take)
    (h : ∀ addr v, (task t p act).NowCanRun addr v → (task t p act').NowCanRun addr v) :
    (task t p act).Quiet N i (task t p act') :=
  ⟨keeps_goOn h, fun h ↦ (nomatch h), fun _ h ↦ (nomatch h),
    fun _ _ g rest h ↦ htake g rest (Pc.task.inj h).2.2⟩

theorem quiet_poll {k : ℕ} : (poll k).Quiet N i (task t (some k) .user) :=
  ⟨⟨rfl, nofun, fun _ _ hv ↦ hv⟩, nofun, nofun, nofun⟩

theorem quiet_stillMpi {k : ℕ} : (task t (some k) .switched).Quiet N i (poll (k + 1)) :=
  ⟨⟨rfl, nofun, fun _ _ hv ↦ hv⟩, nofun, nofun, nofun⟩

theorem quiet_afterTask (htake : ∀ g rest, act ≠ .inform g rest .take)
    (h : ∀ addr v, (task t p act).NowCanRun addr v → v = none) :
    (task t p act).Quiet N i (afterTask p) :=
  ⟨keeps_afterTask h, fun h ↦ (nomatch h), fun _ h ↦ (nomatch h),
    fun _ _ g rest h ↦ htake g rest (Pc.task.inj h).2.2⟩

end Pc

/-- On its way through `run` a thread calls `dequeue` and `dequeue_half`, and nothing else. -/
theorem Control.quiet {pc pc' : Pc} (h : Control N σ i pc pc') (hloop : pc ≠ .loop)
    (hsteal : ∀ v, pc = .steal v → v < N → v = i) : pc.Quiet N i pc' := by
  refine ⟨?_, hloop, hsteal, fun c p g rest hpc ↦ ?_⟩
  · cases h <;> exact ⟨rfl, fun _ ht ↦ (nomatch ht), fun _ _ hv ↦ hv⟩
  · rw [hpc] at h
    cases h

theorem Sched.slots_update {g : ℕ} {gp : TaskGroup}
    (hgroup : σ'.group = Function.update σ.group g gp)
    (hblocked : gp.blockedTask = (σ.group g).blockedTask) (halive : gp.alive = (σ.group g).alive)
    (g' : ℕ) : (σ'.group g').blockedTask = (σ.group g').blockedTask ∧
      (σ'.group g').alive = (σ.group g').alive := by
  rw [hgroup]
  exact ⟨apply_update_eq TaskGroup.blockedTask hblocked g',
    apply_update_eq TaskGroup.alive halive g'⟩

theorem Sched.Quiet.of_update {m : PerThreadMgr}
    (hthread : σ'.thread = Function.update σ.thread i m)
    (hqueue : m.runnableQueue = (σ.thread i).runnableQueue)
    (hmpi : m.mpiBlockedQueue = (σ.thread i).mpiBlockedQueue)
    (hpc : (σ.thread i).pc.Quiet N i m.pc) (hnext : σ'.next = σ.next)
    (hgroup : ∀ g, (σ'.group g).blockedTask = (σ.group g).blockedTask ∧
      (σ'.group g).alive = (σ.group g).alive) : σ.Quiet N σ' where
  next := hnext
  queue j := by
    rw [hthread]
    exact apply_update_eq PerThreadMgr.runnableQueue hqueue j
  mpi j := by
    rw [hthread]
    exact apply_update_eq PerThreadMgr.mpiBlockedQueue hmpi j
  pc j := by
    rw [hthread]
    by_cases hj : j = i
    · rw [hj, Function.update_self]
      exact Or.inr hpc
    · rw [Function.update_of_ne hj]
      exact Or.inl rfl
  blockedTask g := (hgroup g).1
  alive g := (hgroup g).2

theorem Sched.Quiet.of_goto {pc pc' : Pc} (here : (σ.thread i).pc = pc)
    (hthread : σ'.thread = Function.update σ.thread i { σ.thread i with pc := pc' })
    (hpc : pc.Quiet N i pc') (hnext : σ'.next = σ.next)
    (hgroup : ∀ g, (σ'.group g).blockedTask = (σ.group g).blockedTask ∧
      (σ'.group g).alive = (σ.group g).alive) : σ.Quiet N σ' :=
  .of_update hthread rfl rfl (here.symm ▸ hpc) hnext hgroup

theorem Sched.Quiet.of_thread (hthread : σ'.thread = σ.thread) (hnext : σ'.next = σ.next)
    (hgroup : ∀ g, (σ'.group g).blockedTask = (σ.group g).blockedTask ∧
      (σ'.group g).alive = (σ.group g).alive) : σ.Quiet N σ' where
  next := hnext
  queue j := by rw [hthread]
  mpi j := by rw [hthread]
  pc j := Or.inl (by rw [hthread])
  blockedTask g := (hgroup g).1
  alive g := (hgroup g).2

theorem RuntimeStep.control {pc pc' : Pc} (hi : i < N) (here : (ρ.sched.thread i).pc = pc)
    (move : Control N ρ.sched i pc pc') (hloop : pc ≠ .loop)
    (hsteal : ∀ v, pc = .steal v → v < N → v = i) :
    RuntimeStep N ρ .other { ρ with sched := ρ.sched.goto i pc' } :=
  .own (.control hi here move) (.of_update rfl rfl rfl (by rw [here]; exact move.quiet hloop hsteal)
    rfl fun g ↦ ⟨rfl, rfl⟩) nofun

/-! ## The end of `run_runnable` -/

/-- The thread `i` can end its last `run_runnable` before it calls `dequeue`. -/
theorem Runtime.Ok.exists_disposed (hρ : ρ.Ok N owner) (hroomy : ρ.Roomy) (hi : i < N)
    (here : (ρ.sched.thread i).pc = .loop) :
    ∃ w', Reachable (CarefulRuntimeStep N owner) ρ { ρ with world := w' } ∧
      w'.handles (Holder.ptr i) = none ∧ ({ ρ with world := w' } : Runtime).Roomy := by
  cases hp : ρ.world.handles (Holder.ptr i) with
  | none => exact ⟨ρ.world, .refl _ _, hp, hroomy⟩
  | some p =>
    obtain ⟨xs, hok, -⟩ := hρ.world
    obtain ⟨w', call, hstep⟩ := hok.destroy hp fun a _ ↦ hok.owners_eq ▸ hroomy a
    have hhandles := Op.handles_destroy call
    have hdispose : RuntimeStep N ρ .other { ρ with world := w' } :=
      .dispose hi (by rw [here]; rfl) call
    refine ⟨w', (Reachable.refl _ _).snoc ⟨hdispose, trivial, trivial, trivial, hroomy⟩,
      by rw [hhandles, Function.update_self], fun a ↦ ?_⟩
    -- One owner less.
    have hupdate := ownersOf_update xs (hok.finite a) (Holder.ptr i) none
    change w'.owners a < unsignedRange
    have hbefore := hroomy a
    rw [hok.owners_eq] at hbefore
    rw [hstep.ok.owners_eq, hhandles]
    rw [Option.join_none, pointsTo_none] at hupdate
    omega

theorem Runtime.exists_dequeue
    (hrun : Reachable (CarefulRuntimeStep N owner) (Runtime.initial N) ρ) (hroomy : ρ.Roomy)
    (hi : i < N)
    (here : (ρ.sched.thread i).pc = .loop) :
    ∃ w w', Reachable (CarefulRuntimeStep N owner) ρ { ρ with world := w } ∧
      ({ ρ with world := w } : Runtime).Roomy ∧ w.handles (Holder.ptr i) = none ∧
      (Op.dequeue (ListName.runnableQueue i) (Holder.ptr i)).exec id w = some w' ∧
      w'.handles (Holder.ptr i) = some ((ρ.sched.thread i).runnableQueue.head?.map ρ.addr) := by
  obtain ⟨w, hreach, hgone, hroomy'⟩ := (Runtime.Ok.of_reachable hrun).exists_disposed hroomy
    hi here
  have hρ := Runtime.Ok.of_reachable (hrun.trans hreach)
  have hpre := hρ.pre hroomy' hi (.dequeue here hgone)
  obtain ⟨w', call⟩ := hρ.exists_call hpre
  exact ⟨w, w', hreach, hroomy', hgone, call, hρ.dequeue_result hi hpre call⟩

/-! ## The steps -/

/-- **The runtime can make every step of the scheduler**, if the program provides what the step
needs. A thread may have to end its last `run_runnable` first. A thief takes what the list gives
him. -/
theorem scheduler_step_possible
    (hrun : Reachable (CarefulRuntimeStep N owner) (Runtime.initial N) ρ) (hroomy : ρ.Roomy)
    (hstep : CarefulStep N owner ρ.sched l σ') (hprovides : ρ.Provides l σ') :
    ∃ ρ₁ ρ₂, Reachable (CarefulRuntimeStep N owner) ρ ρ₁ ∧ ρ₁.sched = ρ.sched ∧
      CarefulRuntimeStep N owner ρ₁ l ρ₂ ∧ ρ.sched.UpToTheft σ' ρ₂.sched := by
  have hρ := Runtime.Ok.of_reachable hrun
  obtain ⟨⟨⟨step, howned⟩, hdestroys⟩, hunlocked⟩ := hstep
  -- The step itself is one of the runtime.
  have hatonce : ∀ {ρ₂ : Runtime}, RuntimeStep N ρ l ρ₂ → ρ.sched.UpToTheft σ' ρ₂.sched →
      ∃ ρ₁ ρ₂, Reachable (CarefulRuntimeStep N owner) ρ ρ₁ ∧ ρ₁.sched = ρ.sched ∧
        CarefulRuntimeStep N owner ρ₁ l ρ₂ ∧ ρ.sched.UpToTheft σ' ρ₂.sched := fun hstep htheft ↦
    ⟨ρ, _, .refl _ _, rfl, ⟨hstep, howned, hdestroys, hunlocked, hroomy⟩, htheft⟩
  -- The step calls nothing.
  have hown : ρ.sched.Quiet N σ' →
      ∃ ρ₁ ρ₂, Reachable (CarefulRuntimeStep N owner) ρ ρ₁ ∧ ρ₁.sched = ρ.sched ∧
        CarefulRuntimeStep N owner ρ₁ l ρ₂ ∧ ρ.sched.UpToTheft σ' ρ₂.sched := fun hquiet ↦
    hatonce (.own step hquiet hprovides.registe) (.same _)
  cases step with
  | terminateGracefully => exact hown (.of_thread rfl rfl fun g ↦ ⟨rfl, rfl⟩)
  | newTask isPure lt client =>
    obtain ⟨n, a, hname, hobj⟩ := hprovides.new (Nat.succ_ne_self _)
    have hpre : (Op.makeRefPtr (Holder.other n) a).Pre ρ.world := ⟨hname, hobj⟩
    obtain ⟨w', call⟩ := hρ.exists_call hpre
    exact hatonce (.newTask isPure lt client ⟨hpre, call⟩) (.same _)
  | @addRunnable i t lt client made once =>
    obtain ⟨h, has⟩ := hprovides.spawn t (by simp [Sched.enqueue, once])
    obtain ⟨w', call⟩ := hρ.exists_call
      (hρ.pre_enqueue lt has (hρ.sched.notMem_line_of_fresh once))
    exact hatonce (.addRunnable lt client once has call) (.same _)
  | @control i pc pc' lt here move =>
    by_cases hloop : pc = .loop
    · subst hloop
      cases move with
      | empty queue =>
        obtain ⟨w, w', hreach, hroomy', hgone, call, hresult⟩ :=
          Runtime.exists_dequeue hrun hroomy lt here
        rw [queue] at hresult
        exact ⟨_, _, hreach, rfl, ⟨.empty lt here queue hgone call hresult, howned, hdestroys,
          hunlocked, hroomy'⟩, .same _⟩
    · by_cases hsteal : ∀ v, pc = .steal v → v < N → v = i
      · exact hatonce (.control lt here move hloop hsteal) (.same _)
      · obtain ⟨v, rfl, victim, ne⟩ : ∃ v, pc = .steal v ∧ v < N ∧ v ≠ i := by
          simpa using hsteal
        cases move with
        | self => exact absurd rfl ne
        | unsuccessful le => exact absurd victim (Nat.not_lt.mpr le)
        | nothing _ _ queue =>
          have hpre := hρ.pre hroomy lt (.dequeueHalf here victim ne)
          obtain ⟨w', call⟩ := hρ.exists_call hpre
          rcases hρ.dequeueHalf_result victim hpre call with ⟨-, hresult⟩ | ⟨xs, ys, hqueue, hne, -⟩
          · exact hatonce (.nothing lt here victim ne queue call hresult) (.same _)
          · exact absurd (List.append_eq_nil_iff.mp (hqueue.symm.trans queue)).1 hne
  | @dequeue i t ts lt here queue =>
    obtain ⟨w, w', hreach, hroomy', hgone, call, hresult⟩ :=
      Runtime.exists_dequeue hrun hroomy lt here
    rw [queue] at hresult
    exact ⟨_, _, hreach, rfl, ⟨.dequeue lt here queue hgone call hresult, howned, hdestroys,
      hunlocked, hroomy'⟩, .same _⟩
  | @steal i v xs ys lt here victim ne queue nonempty =>
    have hpre := hρ.pre hroomy lt (.dequeueHalf here victim ne)
    obtain ⟨w', call⟩ := hρ.exists_call hpre
    rcases hρ.dequeueHalf_result victim hpre call with ⟨hempty, -⟩
      | ⟨xs', ys', hqueue, hne, hresult⟩
    · exact absurd (List.append_eq_nil_iff.mp (queue.symm.trans hempty)).1 nonempty
    · exact hatonce (.steal lt here victim ne hqueue hne call hresult)
        (.theft (queue.symm.trans hqueue) hne)
  | install lt here =>
    have hpre := hρ.pre hroomy lt (.replace here)
    obtain ⟨w', call⟩ := hρ.exists_call hpre
    exact hatonce (.install lt here call (hρ.replaced lt here hpre call).1) (.same _)
  | pollTask lt here entry =>
    exact hown (.of_goto here rfl Pc.quiet_poll rfl fun g ↦ ⟨rfl, rfl⟩)
  | registe lt here made unlocked room alive accepted =>
    exact hown (.of_thread rfl rfl (Sched.slots_update rfl (by simp [Task.addToGroup, accepted])
      (by simp [Task.addToGroup, accepted])))
  | registeFini lt here made unlocked alive rejected =>
    exact hown (.of_thread rfl rfl (Sched.slots_update rfl (by simp [Task.addToGroup, rejected])
      (by simp [Task.addToGroup, rejected])))
  | waitDone lt here alive zero =>
    exact hown (.of_thread rfl rfl (Sched.slots_update rfl rfl rfl))
  | waitYield lt here alive blocking impure =>
    exact hown (.of_goto here rfl (Pc.quiet_goOn (by rintro _ _ ⟨⟩) fun _ _ hv ↦ hv) rfl
      (Sched.slots_update rfl rfl rfl))
  | yield lt here impure as =>
    exact hown (.of_goto here rfl (Pc.quiet_goOn (by rintro _ _ ⟨⟩) fun _ _ hv ↦ hv) rfl
      fun g ↦ ⟨rfl, rfl⟩)
  | @destroy i c g p lt here alive =>
    have hblocked := hρ.handles (.blockedTask g)
    rw [Runtime.Held, if_pos alive] at hblocked
    have hpre : (Op.destroy (Holder.blockedTask g)).Pre ρ.world := ⟨_, hblocked, fun a _ ↦ hroomy a⟩
    obtain ⟨w', call⟩ := hρ.exists_call hpre
    exact hatonce (.destroy lt here alive call) (.same _)
  | terminate lt here unlocked =>
    exact hown (.of_goto here rfl (Pc.quiet_goOn (by rintro _ _ ⟨⟩) fun _ _ hv ↦ hv) rfl
      fun g ↦ ⟨rfl, rfl⟩)
  | informLock lt here free => exact hatonce (.informLock lt here free) (.same _)
  | informDecrement lt here =>
    refine hown (.of_goto here rfl (Pc.quiet_goOn (by rintro _ _ ⟨⟩) fun addr v hv ↦ ?_) rfl
      (Sched.slots_update rfl rfl rfl))
    split
    · exact hv
    · rw [show v = some none from hv]
      exact Option.some_ne_none _
  | @informTake i c g w p rest lt here blocked =>
    obtain ⟨w', call⟩ := hρ.exists_call (hρ.pre hroomy lt (.informTake here))
    have hresult := hρ.informTake_result lt here call
    rw [blocked] at hresult
    exact hatonce (.informTake lt here blocked call hresult) (.same _)
  | informNobody lt here nobody =>
    obtain ⟨w', call⟩ := hρ.exists_call (hρ.pre hroomy lt (.informTake here))
    have hresult := hρ.informTake_result lt here call
    rw [nobody] at hresult
    exact hatonce (.informNobody lt here nobody call hresult) (.same _)
  | informEnqueue lt here =>
    obtain ⟨w', call⟩ := hρ.exists_call (hρ.pre hroomy lt (.informEnqueue here))
    exact hatonce (.informEnqueue lt here (hρ.refers_nowCanRun here) call) (.same _)
  | informUnlock lt here =>
    obtain ⟨w', call⟩ := hρ.exists_call (hρ.pre hroomy lt (.informUnlock here))
    exact hatonce (.informUnlock lt here call) (.same _)
  | terminated lt here =>
    exact hown (.of_goto here rfl (Pc.quiet_goOn (by rintro _ _ ⟨⟩) fun _ _ hv ↦ hv) rfl
      fun g ↦ ⟨rfl, rfl⟩)
  | handleRunnable lt here state =>
    obtain ⟨w', call⟩ := hρ.exists_call (hρ.pre hroomy lt (.handleRunnable here state))
    exact hatonce (.handleRunnable lt here state call) (.same _)
  | handleMpi lt here state =>
    obtain ⟨w', call⟩ := hρ.exists_call (hρ.pre hroomy lt (.handleMpi here state))
    exact hatonce (.handleMpi lt here state call) (.same _)
  | stillMpi lt here state =>
    exact hown (.of_goto here rfl Pc.quiet_stillMpi rfl fun g ↦ ⟨rfl, rfl⟩)
  | handleWait lt here state blockedBy =>
    exact hown (.of_goto here rfl (Pc.quiet_goOn (by rintro _ _ ⟨⟩) fun _ _ hv ↦ hv) rfl
      fun g ↦ ⟨rfl, rfl⟩)
  | handleOther lt here state =>
    exact hown (.of_goto here rfl (Pc.quiet_afterTask (by rintro _ _ ⟨⟩) fun _ _ hv ↦ hv) rfl
      fun g ↦ ⟨rfl, rfl⟩)
  | resumeLock lt here free =>
    exact hown (.of_goto here rfl (Pc.quiet_goOn (by rintro _ _ ⟨⟩) fun _ _ hv ↦ hv) rfl
      (Sched.slots_update rfl rfl rfl))
  | resumeZero lt here zero =>
    exact hown (.of_goto here rfl (Pc.quiet_goOn (by rintro _ _ ⟨⟩) fun _ _ hv ↦ hv) rfl
      fun g ↦ ⟨rfl, rfl⟩)
  | resumeBlock lt here blocking =>
    obtain ⟨w', call⟩ := hρ.exists_call (hρ.pre hroomy lt (.resumeBlock here blocking))
    exact hatonce (.resumeBlock lt here blocking call) (.same _)
  | @resumeUnlock i t g p result lt here =>
    refine hown (.of_goto here rfl ?_ rfl (Sched.slots_update rfl rfl rfl))
    cases result with
    | true => exact Pc.quiet_goOn (by rintro _ _ ⟨⟩) fun _ _ hv ↦ hv
    | false => exact Pc.quiet_afterTask (by rintro _ _ ⟨⟩) fun _ _ hv ↦ hv
  | requeue lt here =>
    obtain ⟨w', call⟩ := hρ.exists_call (hρ.pre hroomy lt (.requeue here))
    exact hatonce (.requeue lt here call) (.same _)
  | erase lt here entry =>
    obtain ⟨w', call⟩ := hρ.exists_call (hρ.pre hroomy lt (.erase here entry))
    exact hatonce (.erase lt here entry call) (.same _)

/-- The theft of the only task. -/
theorem scheduler_step_possible_stealing :
    ∃ ρ ρ₁ ρ₂, Reachable (CarefulRuntimeStep 2 fun _ ↦ 0) (Runtime.initial 2) ρ ∧
      Reachable (CarefulRuntimeStep 2 fun _ ↦ 0) ρ ρ₁ ∧
      CarefulRuntimeStep 2 (fun _ ↦ 0) ρ₁ .other ρ₂ ∧
      ρ.sched.UpToTheft (ρ.sched.rob 1 0 [0] []) ρ₂.sched := by
  obtain ⟨ρ, hrun, hroomy, here, hqueue⟩ := runtime_stealing
  have hsteal : CarefulStep 2 (fun _ ↦ 0) ρ.sched .other (ρ.sched.rob 1 0 [0] []) :=
    ⟨⟨⟨.steal (by decide) here (by decide) (by decide) hqueue (by decide), trivial⟩, trivial⟩,
      trivial⟩
  obtain ⟨ρ₁, ρ₂, hreach, -, hstep, htheft⟩ := scheduler_step_possible hrun hroomy hsteal
    ⟨fun h ↦ absurd rfl h, fun t h ↦ absurd rfl h, by rintro _ _ _ ⟨⟩⟩
  exact ⟨ρ, ρ₁, ρ₂, hrun, hreach, hstep, htheft⟩

end TYThread
