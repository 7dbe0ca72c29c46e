import TYThread.Runtime.Steps

/-!
# The runtime makes the steps of the scheduler

The scheduler is stated with queues that are lists of tasks, and it forgets that its calls are
calls. Here is why it may. In every run of the runtime the lists hold the scheduler's queues, and
whatever a thread is about to call, the call touches only live memory, has a result, and the result
is the one that a step of the scheduler goes by.

## What is assumed

That no task gets `2 ^ 32` owners, and that the program keeps to the rules for groups: one task uses
a group, and waits before it destroys it, while nobody has its lock.
-/

namespace TYThread

open Counting Transition

variable {N : ℕ} {owner : ℕ → ℕ} {ρ ρ' : Runtime} {w' : World} {i : ℕ} {l : Label}

/-! ## Runs -/

theorem CarefulRuntimeStep.sched (h : CarefulRuntimeStep N owner ρ l ρ') :
    CarefulStep N owner ρ.sched l ρ'.sched ∨ ρ'.sched = ρ.sched := by
  rcases h.step.sched with hstep | ⟨-, hsame⟩
  · exact Or.inl ⟨⟨⟨hstep, h.owned⟩, h.destroys⟩, h.unlocked⟩
  · exact Or.inr hsame

namespace Runtime

theorem Ok.initial (N : ℕ) (owner : ℕ → ℕ) : (Runtime.initial N).Ok N owner := by
  have hthread : ∀ i, (Sched.initial.thread i).runnableQueue = [] ∧
      (Sched.initial.thread i).mpiBlockedQueue = [] ∧
      ((Sched.initial.thread i).pc = .main ∨ (Sched.initial.thread i).pc = .loop) := fun i ↦ by
    by_cases hi : i = 0 <;> simp [Sched.initial, hi]
  refine ⟨.initial N owner, ⟨fun _ ↦ [], (World.Ok.initial _).setHandles fun a h ↦ ?_, ?_⟩,
    fun x ↦ ?_, fun i ↦ (hthread i).2.1.symm ▸ List.nodup_nil, fun t ht ↦ ?_⟩
  · split <;> simp [World.initial]
  · refine (World.queues_initial _).trans (eq_queues fun x ↦ ?_)
    cases x with
    | runnableQueue i =>
      rw [queues_runnableQueue]
      change _ = if i < N then some ((Sched.initial.thread i).runnableQueue.map _) else none
      rw [(hthread i).1]
      simp [emptyQueues]
    | skiplistptr i =>
      rw [queues_skiplistptr]
      change _ = if i < N then (Sched.initial.thread i).pc.installing.map _ else none
      rcases (hthread i).2.2 with hpc | hpc <;> simp [emptyQueues, hpc, Pc.installing]
  · cases x with
    | ptr i =>
      intro t ht
      change (Sched.initial.thread i).pc.ptr = some t at ht
      rcases (hthread i).2.2 with hpc | hpc <;> rw [hpc] at ht <;> cases ht
    | entry i t =>
      change _ = if t ∈ (Sched.initial.thread i).mpiBlockedQueue then _ else _
      rw [(hthread i).2.1, if_neg List.not_mem_nil]
      simp [Runtime.initial, Holder.name]
    | blockedTask g => simp [Held, Runtime.initial, Holder.name, Sched.initial]
    | nowCanRun i =>
      change (Sched.initial.thread i).pc.NowCanRun _ _
      have hnone : (Runtime.initial N).world.handles (Holder.nowCanRun i) = none := by
        simp [Runtime.initial, Holder.name]
      rw [hnone]
      rcases (hthread i).2.2 with hpc | hpc <;> rw [hpc] <;> rfl
    | other n => exact trivial
  · rcases ht with ⟨i, hi⟩ | ⟨g, hg⟩
    · obtain ⟨hrun, hmpi, hpc⟩ := hthread i
      change (Sched.initial.thread i).Uses t at hi
      rw [PerThreadMgr.Uses, hrun, hmpi] at hi
      rcases hpc with hpc | hpc <;> rw [hpc] at hi <;> simp [Pc.stolen, Pc.ptr, Pc.informing] at hi
    · cases hg

theorem Ok.of_step (hρ : ρ.Ok N owner) (h : CarefulRuntimeStep N owner ρ l ρ') : ρ'.Ok N owner := by
  refine h.step.ok hρ h.roomy ?_
  rcases h.sched with hstep | hsame
  · exact hρ.tidy.of_step hstep
  · rw [hsame]
    exact hρ.tidy

/-- **Every run** keeps the invariant. -/
theorem Ok.of_reachable (h : Reachable (CarefulRuntimeStep N owner) (Runtime.initial N) ρ) :
    ρ.Ok N owner :=
  h.invariant (.initial N owner) fun _ _ _ hρ hstep ↦ hρ.of_step hstep

theorem reachable_sched (h : Reachable (CarefulRuntimeStep N owner) (Runtime.initial N) ρ) :
    Reachable (CarefulStep N owner) Sched.initial ρ.sched := by
  refine h.invariant (I := fun ρ ↦ Reachable (CarefulStep N owner) Sched.initial ρ.sched)
    (.refl _ _) fun ρ l ρ' hρ hstep ↦ ?_
  rcases hstep.sched with hsched | hsame
  · exact hρ.snoc hsched
  · rwa [hsame]

end Runtime

/-! ## Results of calls -/

theorem Op.handles_dequeue_ne {l h : ℕ} {w w' : World}
    (call : (Op.dequeue l h).exec id w = some w') : ∃ p, w'.handles h = some p := by
  simp only [exec_dequeue, World.dequeue, Option.bind_eq_bind, Option.bind_eq_some_iff,
    Option.pure_def, Option.some.injEq] at call
  obtain ⟨s, -, z, -, rfl⟩ := call
  exact ⟨z.2.2, by simp⟩

/-- What `run_once` does with the list that it has emptied. -/
def Op.disposed (w : World) : Op → Option World
  | replace _ r => w.destroyList r
  | _ => some w

namespace Runtime.Ok

variable (hρ : ρ.Ok N owner)

include hρ

theorem exists_call {op : Op} (hpre : op.Pre ρ.world) : ∃ w', op.exec id ρ.world = some w' := by
  obtain ⟨xs, hok, -⟩ := hρ.world
  obtain ⟨w', -, call, -⟩ := hok.step hpre
  exact ⟨w', call⟩

theorem dequeue_result (hi : i < N)
    (hpre : (Op.dequeue (ListName.runnableQueue i) (Holder.ptr i)).Pre ρ.world)
    (call : (Op.dequeue (ListName.runnableQueue i) (Holder.ptr i)).exec id ρ.world = some w') :
    w'.handles (Holder.ptr i) = some ((ρ.sched.thread i).runnableQueue.head?.map ρ.addr) := by
  obtain ⟨xs, -, hstep⟩ := hρ.call hpre call
  obtain ⟨p, hp⟩ := Op.handles_dequeue_ne call
  have hqueue : ρ.queues N (ListName.runnableQueue i)
      = some ((ρ.sched.thread i).runnableQueue.map ρ.addr) := by
    rw [queues_runnableQueue, if_pos hi]
  rw [Op.label_dequeue, hp, Option.join_some] at hstep
  rw [hp]
  cases hq : (ρ.sched.thread i).runnableQueue with
  | nil =>
    rw [hq] at hqueue
    exact congrArg some (hstep.of_dequeue_nil hqueue).1
  | cons t ts =>
    rw [hq] at hqueue
    exact congrArg some (hstep.of_dequeue_cons hqueue).1

/-- `dequeue_half` of an empty queue returns null, and otherwise a part at the front. -/
theorem dequeueHalf_result {v : ℕ} (hv : v < N)
    (hpre : (Op.dequeueHalf (ListName.runnableQueue v) (ListName.skiplistptr i)).Pre ρ.world)
    (call : (Op.dequeueHalf (ListName.runnableQueue v) (ListName.skiplistptr i)).exec id ρ.world
      = some w') :
    ((ρ.sched.thread v).runnableQueue = [] ∧ w'.lists (ListName.skiplistptr i) = none) ∨
      ∃ xs ys, (ρ.sched.thread v).runnableQueue = xs ++ ys ∧ xs ≠ [] ∧
        w'.Contents (ListName.skiplistptr i) (xs.map ρ.addr) := by
  obtain ⟨zs, hok, hstep⟩ := hρ.call hpre call
  have hqueue : ρ.queues N (ListName.runnableQueue v)
      = some ((ρ.sched.thread v).runnableQueue.map ρ.addr) := by
    rw [queues_runnableQueue, if_pos hv]
  by_cases hempty : (ρ.sched.thread v).runnableQueue = []
  · rw [hempty] at hqueue
    exact Or.inl ⟨hempty, by simpa using (hstep.of_split_nil hqueue).1⟩
  · obtain ⟨as, bs, -, hsplit, hne, hqueues⟩ := hstep.of_split_cons hqueue (by simpa using hempty)
    obtain ⟨xs, ys, hxs, rfl, rfl⟩ := List.map_eq_append_iff.mp hsplit
    obtain ⟨hs, hcontents⟩ := World.queues_eq_some
      ((congrFun hqueues _).trans (Function.update_self _ _ _))
    exact Or.inr ⟨xs, ys, hxs, fun h ↦ hne (by rw [h]; rfl),
      hok.contents_iff.mpr ⟨hs, hcontents.symm⟩⟩

/-- `std::move(blockedTask)` gives what the scheduler thinks is in it. -/
theorem informTake_result (hi : i < N) {c g : ℕ} {p : Option ℕ} {rest : List ℕ}
    (here : (ρ.sched.thread i).pc = .task c p (.inform g rest .take))
    (call : (Op.moveAssign (Holder.nowCanRun i) (Holder.blockedTask g)).exec id ρ.world = some w') :
    w'.handles (Holder.nowCanRun i) = some ((ρ.sched.group g).blockedTask.map ρ.addr) := by
  have halive : (ρ.sched.group g).alive = true := hρ.tidy.onlyAliveUsed i hi g (by
    rw [Sched.pcs, here]
    rfl)
  have hblocked := hρ.handles (.blockedTask g)
  rw [Held, if_pos halive] at hblocked
  rw [Op.handles_moveAssign call, Function.update_of_ne (by simp), Function.update_self, hblocked]

theorem refers_nowCanRun {c g w : ℕ} {p : Option ℕ} {rest : List ℕ}
    (here : (ρ.sched.thread i).pc = .task c p (.inform g rest (.enqueue w))) :
    ρ.Refers (Holder.nowCanRun i) w := by
  have hnow := hρ.handles (.nowCanRun i)
  rw [Held, here] at hnow
  refine ⟨hnow, hρ.current w (Or.inl ⟨i, Or.inr (Or.inr (Or.inr (Or.inr ?_)))⟩)⟩
  rw [here]
  exact List.mem_singleton_self w

/-- **Whatever a thread is about to call**, it gets a result, and goes on with it. -/
theorem next (hroomy : ρ.Roomy) (hi : i < N) {op : Op} (h : ρ.NextCall N i op) :
    ∃ w' l ρ', op.exec id ρ.world = some w' ∧ CarefulRuntimeStep N owner ρ l ρ' ∧
      op.disposed w' = some ρ'.world ∧
      (op ≠ .destroy (Holder.ptr i) → (ρ'.sched.thread i).pc ≠ (ρ.sched.thread i).pc) := by
  have hpre := hρ.pre hroomy hi h
  obtain ⟨w', call⟩ := hρ.exists_call hpre
  refine ⟨w', ?_⟩
  cases h with
  | dispose here there =>
    exact ⟨_, _, call, ⟨.dispose hi (by rw [here]; rfl) call, trivial, trivial, trivial, hroomy⟩,
      rfl, fun h ↦ absurd rfl h⟩
  | dequeue here gone =>
    have hresult := hρ.dequeue_result hi hpre call
    cases hq : (ρ.sched.thread i).runnableQueue with
    | nil =>
      rw [hq] at hresult
      exact ⟨_, _, call, ⟨.empty hi here hq gone call hresult, trivial, trivial, trivial, hroomy⟩,
        rfl, fun _ ↦ by simp [Sched.goto, here]⟩
    | cons t ts =>
      rw [hq] at hresult
      exact ⟨_, _, call, ⟨.dequeue hi here hq gone call hresult, trivial, trivial, trivial, hroomy⟩,
        rfl, fun _ ↦ by simp [here]⟩
  | dequeueHalf here victim ne =>
    rcases hρ.dequeueHalf_result victim hpre call with
      ⟨hempty, hresult⟩ | ⟨xs, ys, hqueue, hne, hresult⟩
    · exact ⟨_, _, call, ⟨.nothing hi here victim ne hempty call hresult, trivial, trivial, trivial,
        hroomy⟩, rfl, fun _ ↦ by simp [Sched.goto, here]⟩
    · exact ⟨_, _, call, ⟨.steal hi here victim ne hqueue hne call hresult, trivial, trivial,
        trivial, hroomy⟩, rfl, fun _ ↦ by simp [Sched.goto, here]⟩
  | replace here =>
    obtain ⟨hdestroy, -⟩ := hρ.replaced hi here hpre call
    exact ⟨_, _, call, ⟨.install hi here call hdestroy, trivial, trivial, trivial, hroomy⟩,
      hdestroy, fun _ ↦ by simp [here]⟩
  | @handleRunnable t p here state =>
    exact ⟨_, _, call, ⟨.handleRunnable hi here state call, trivial, trivial, trivial, hroomy⟩, rfl,
      fun _ ↦ by cases p <;> simp [Sched.enqueue, here, afterTask]⟩
  | handleMpi here state =>
    exact ⟨_, _, call, ⟨.handleMpi hi here state call, trivial, trivial, trivial, hroomy⟩, rfl,
      fun _ ↦ by simp [here]⟩
  | resumeBlock here blocking =>
    exact ⟨_, _, call, ⟨.resumeBlock hi here blocking call, trivial, trivial, trivial, hroomy⟩, rfl,
      fun _ ↦ by simp [Sched.goto, here]⟩
  | @requeue t p here =>
    exact ⟨_, _, call, ⟨.requeue hi here call, trivial, trivial, trivial, hroomy⟩, rfl,
      fun _ ↦ by cases p <;> simp [Sched.enqueue, here, afterTask]⟩
  | erase here entry =>
    exact ⟨_, _, call, ⟨.erase hi here entry call, trivial, trivial, trivial, hroomy⟩, rfl,
      fun _ ↦ by simp [here]⟩
  | @informTake c g p rest here =>
    have hresult := hρ.informTake_result hi here call
    cases hb : (ρ.sched.group g).blockedTask with
    | none =>
      rw [hb] at hresult
      exact ⟨_, _, call, ⟨.informNobody hi here hb call hresult, trivial, trivial, trivial, hroomy⟩,
        rfl, fun _ ↦ by simp [Sched.goto, here]⟩
    | some w =>
      rw [hb] at hresult
      exact ⟨_, _, call, ⟨.informTake hi here hb call hresult, trivial, trivial, trivial, hroomy⟩,
        rfl, fun _ ↦ by simp [Sched.goto, here]⟩
  | informEnqueue here =>
    exact ⟨_, _, call, ⟨.informEnqueue hi here (hρ.refers_nowCanRun here) call, trivial, trivial,
      trivial, hroomy⟩, rfl, fun _ ↦ by simp [Sched.enqueue, here]⟩
  | informUnlock here =>
    exact ⟨_, _, call, ⟨.informUnlock hi here call, trivial, trivial, trivial, hroomy⟩, rfl,
      fun _ ↦ by simp [Sched.goto, here]⟩

end Runtime.Ok

/-- **The runtime refines the scheduler.** A run of the runtime is a run of the scheduler, and the
lists hold what the scheduler's queues and its thieves have. Whatever a thread is about to call has
a result, and with this result the thread goes on. -/
theorem runtime_refines_scheduler
    (hrun : Reachable (CarefulRuntimeStep N owner) (Runtime.initial N) ρ) :
    Reachable (CarefulStep N owner) Sched.initial ρ.sched ∧
    (∀ i < N, ρ.world.Contents (ListName.runnableQueue i)
      ((ρ.sched.thread i).runnableQueue.map ρ.addr)) ∧
    (∀ i < N, ∀ xs, (ρ.sched.thread i).pc = .install xs →
      ρ.world.Contents (ListName.skiplistptr i) (xs.map ρ.addr)) ∧
    (ρ.Roomy → ∀ i < N, ∀ op, ρ.NextCall N i op → ∃ w' l ρ', op.exec id ρ.world = some w' ∧
      CarefulRuntimeStep N owner ρ l ρ' ∧ op.disposed w' = some ρ'.world ∧
      (op ≠ .destroy (Holder.ptr i) → (ρ'.sched.thread i).pc ≠ (ρ.sched.thread i).pc)) := by
  have hρ := Runtime.Ok.of_reachable hrun
  exact ⟨Runtime.reachable_sched hrun, fun i hi ↦ hρ.contents_runnableQueue hi,
    fun i hi xs here ↦ hρ.contents_skiplistptr hi here, fun hroomy i hi op h ↦ hρ.next hroomy hi h⟩

/-! ## A run -/

/-- Only the handles in `s` hold a task. -/
def FewHandles (s : Finset ℕ) (f : ℕ → Option (Option Addr)) : Prop := ∀ n ∉ s, (f n).join = none

namespace FewHandles

variable {s : Finset ℕ}

theorem initial (s : Finset ℕ) (N : ℕ) : FewHandles s (Runtime.initial N).world.handles := by
  intro n _
  simp only [Runtime.initial]
  split <;> rfl

theorem update {f f' : ℕ → Option (Option Addr)} (hf : FewHandles s f) {h : ℕ}
    {v : Option (Option Addr)} (heq : f' = Function.update f h v) (hh : h ∈ s) :
    FewHandles s f' := by
  intro n hn
  have hne : n ≠ h := by
    rintro rfl
    exact hn hh
  rw [heq, Function.update_of_ne hne]
  exact hf n hn

theorem roomy (hf : FewHandles s ρ.world.handles) (hs : s.card + 1 < unsignedRange) : ρ.Roomy := by
  intro a
  have hsub : {n | ρ.world.handles n = some (some a)} ⊆ (s : Set ℕ) := fun n hn ↦ by
    by_contra hns
    have hnone := hf n hns
    rw [show ρ.world.handles n = some (some a) from hn] at hnone
    cases hnone
  have hle := Set.ncard_le_ncard hsub s.finite_toSet
  rw [Set.ncard_coe_finset] at hle
  have hlinked : indicator (ρ.world.Linked a) ≤ 1 := by
    by_cases hl : ρ.world.Linked a
    · rw [indicator_of_true hl]
    · rw [indicator_of_false hl]
      exact Nat.zero_le 1
  rw [World.owners, holders]
  omega

end FewHandles

/-- The thread `1` is about to steal the one task that the main thread has made. -/
theorem runtime_stealing : ∃ ρ, Reachable (CarefulRuntimeStep 2 fun _ ↦ 0) (Runtime.initial 2) ρ ∧
    ρ.Roomy ∧ (ρ.sched.thread 1).pc = .steal 0 ∧ (ρ.sched.thread 0).runnableQueue = [0] := by
  have few₀ := FewHandles.initial {(Holder.other 0).name, (Holder.ptr 1).name} 2
  have call₁ : (Op.makeRefPtr (Holder.other 0) 7).exec id (Runtime.initial 2).world = some _ := rfl
  have few₁ := few₀.update (Op.handles_makeRefPtr call₁) (by decide)
  have hmade := (Reachable.refl (CarefulRuntimeStep 2 fun _ ↦ 0) (Runtime.initial 2)).snoc
    ⟨.newTask (i := 0) false (by decide) trivial ⟨⟨rfl, rfl⟩, call₁⟩, trivial, trivial, trivial,
      few₀.roomy (by decide)⟩
  have hspawned := hmade.snoc
    ⟨.addRunnable (i := 0) (t := 0) (h := Holder.other 0) (by decide) trivial rfl
      ⟨rfl, by decide, fun u hu _ ↦ Nat.le_of_lt_succ hu⟩ rfl, trivial, trivial, trivial,
      few₁.roomy (by decide)⟩
  have hempty := hspawned.snoc
    ⟨.empty (i := 1) (by decide) rfl rfl rfl rfl rfl, trivial, trivial, trivial,
      few₁.roomy (by decide)⟩
  exact ⟨_, hempty, (few₁.update (h := Holder.ptr 1) rfl (by decide)).roomy (by decide), rfl, rfl⟩

/-- The theft has a result. -/
theorem runtime_refines_scheduler_stealing :
    ∃ ρ w' l ρ', Reachable (CarefulRuntimeStep 2 fun _ ↦ 0) (Runtime.initial 2) ρ ∧
      (Op.dequeueHalf (ListName.runnableQueue 0) (ListName.skiplistptr 1)).exec id ρ.world
        = some w' ∧
      CarefulRuntimeStep 2 (fun _ ↦ 0) ρ l ρ' := by
  obtain ⟨ρ, hrun, hroomy, here, -⟩ := runtime_stealing
  obtain ⟨w', l, ρ', call, hstep, -⟩ := (runtime_refines_scheduler hrun).2.2.2 hroomy 1
    (by decide) _ (.dequeueHalf here (by decide) (by decide))
  exact ⟨ρ, w', l, ρ', hrun, call, hstep⟩

end TYThread
