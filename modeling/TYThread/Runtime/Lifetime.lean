import Mathlib.Data.Nat.Count
import TYThread.Family.Counters
import TYThread.Group.Join
import TYThread.Runtime.Simulation

/-!
# The life of a task object

A task is made by `makeRefPtr` and deleted by the handle or the list that gives it up last. Here is
what this comes to in the runtime. An object is there exactly as long as it has an owner, each one
is deleted once, and nobody is without an object that he is going to use. After the shutdown only
those tasks are left that are parked in a group, and those that the program still has a handle to.
-/

namespace TYThread

open Counting Transition

variable {N : ℕ} {owner : ℕ → ℕ} {ρ ρ' : Runtime} {i j t : ℕ} {l : Label}

/-! ## What a step does to the objects -/

/-- Nothing, or what a call does. -/
inductive Runtime.Effect (ρ ρ' : Runtime) : Prop
  | none (heap : ρ'.world.heap = ρ.world.heap) (owners : ρ'.world.owners = ρ.world.owners)
      (next : ρ'.sched.next = ρ.sched.next) (addr : ρ'.addr = ρ.addr)
  | call {op : Op} {w' : World} (step : World.Step id ρ.world op w')
      (created : op.created = Option.none)
      (heap : ρ'.world.heap = w'.heap) (owners : ρ'.world.owners = w'.owners)
      (next : ρ'.sched.next = ρ.sched.next) (addr : ρ'.addr = ρ.addr)
  | made {n : ℕ} {a : Addr} (step : World.Step id ρ.world (.makeRefPtr (Holder.other n) a) ρ'.world)
      (next : ρ'.sched.next = ρ.sched.next + 1)
      (addr : ρ'.addr = Function.update ρ.addr ρ.sched.next a)

theorem Op.Foreign.created {op : Op} (hop : op.Foreign) : op.created = none := by
  cases hop <;> rfl

theorem RuntimeStep.effect (h : RuntimeStep N ρ l ρ') (hρ : ρ.Ok N owner) (hroomy : ρ.Roomy) :
    ρ.Effect ρ' := by
  have hσ := hρ.sched
  cases h with
  | own step quiet => exact .none rfl rfl quiet.next rfl
  | handle foreign call => exact .call call foreign.created rfl rfl rfl rfl
  | dispose lt here call => exact .call ⟨Op.pre_destroy hroomy call, call⟩ rfl rfl rfl rfl rfl
  | newTask isPure lt client call => exact .made call rfl rfl
  | addRunnable lt client once has call =>
    exact .call ⟨hρ.pre_enqueue lt has (hσ.notMem_line_of_fresh once), call⟩ rfl rfl rfl rfl rfl
  | destroy lt here alive call =>
    exact .call ⟨Op.pre_destroy hroomy call, call⟩ rfl rfl rfl rfl rfl
  | empty lt here queue gone call | dequeue lt here queue gone call =>
    exact .call ⟨hρ.pre hroomy lt (.dequeue here gone), call⟩ rfl rfl rfl rfl rfl
  | nothing lt here victim ne queue call | steal lt here victim ne queue nonempty call =>
    exact .call ⟨hρ.pre hroomy lt (.dequeueHalf here victim ne), call⟩ rfl rfl rfl rfl rfl
  | @install i xs w' w'' lt here call dispose =>
    have hpre := hρ.pre hroomy lt (.replace here)
    obtain ⟨hdestroy, zs, hok, hok', -⟩ := hρ.replaced lt here hpre call
    obtain rfl := Option.some.inj (hdestroy.symm.trans dispose)
    exact .call ⟨hpre, call⟩ rfl rfl (hok'.owners_eq.trans hok.owners_eq.symm) rfl rfl
  | handleRunnable lt here state call =>
    exact .call ⟨hρ.pre hroomy lt (.handleRunnable here state), call⟩ rfl rfl rfl rfl rfl
  | handleMpi lt here state call =>
    exact .call ⟨hρ.pre hroomy lt (.handleMpi here state), call⟩ rfl rfl rfl rfl rfl
  | resumeBlock lt here blocking call =>
    exact .call ⟨hρ.pre hroomy lt (.resumeBlock here blocking), call⟩ rfl rfl rfl rfl rfl
  | requeue lt here call => exact .call ⟨hρ.pre hroomy lt (.requeue here), call⟩ rfl rfl rfl rfl rfl
  | erase lt here entry call =>
    exact .call ⟨hρ.pre hroomy lt (.erase here entry), call⟩ rfl rfl rfl rfl rfl
  | @informLock i c g p rest lt here free =>
    obtain ⟨xs, hok, -⟩ := hρ.world
    have hgone : ρ.world.handles (Holder.nowCanRun i) = none := by
      have hnow := hρ.handles (.nowCanRun i)
      rwa [Runtime.Held, here] at hnow
    refine .none rfl ?_ rfl rfl
    rw [(hok.nullConstruct hgone).owners_eq, hok.owners_eq]
    funext a
    have hupdate := ownersOf_update xs (hok.finite a) (Holder.nowCanRun i) (some none)
    rwa [hgone, Option.join_none, Option.join_some, pointsTo_none] at hupdate
  | informTake lt here blocked call | informNobody lt here nobody call =>
    exact .call ⟨hρ.pre hroomy lt (.informTake here), call⟩ rfl rfl rfl rfl rfl
  | @informEnqueue i c g w h p rest w' lt here copy call =>
    have hmem : w ∈ (ρ.sched.thread i).pc.informing := by
      rw [here]
      exact List.mem_singleton_self w
    exact .call ⟨hρ.pre_enqueue lt copy (hσ.notMem_line lt (Or.inr hmem)), call⟩ rfl rfl rfl rfl rfl
  | informUnlock lt here call =>
    exact .call ⟨Op.pre_destroy hroomy call, call⟩ rfl rfl rfl rfl rfl

/-! ## The ledger -/

/-- How many tasks have been made at the address `a`. -/
def Runtime.madeAt (ρ : Runtime) (a : Addr) : ℕ := Nat.count (fun t ↦ ρ.addr t = a) ρ.sched.next

theorem StepOk.owned {w w' : World} {xs xs' : ℕ → List Addr} {op : Op}
    (hstep : StepOk w w' xs xs' op)
    (howned : ∀ a, w.heap.counterOf a ≠ none → ownersOf w.handles xs a ≠ 0)
    (hcreated : ∀ a, op.created = some a → ownersOf w'.handles xs' a ≠ 0) (a : Addr)
    (hlive : w'.heap.counterOf a ≠ none) : ownersOf w'.handles xs' a ≠ 0 := by
  intro hzero
  refine hlive ((hstep.deletes.live a).mpr ?_)
  by_cases hbefore : ownersOf w.handles xs a = 0
  · refine Or.inl ⟨?_, fun h ↦ hcreated a h hzero⟩
    by_contra hne
    exact howned a hne hbefore
  · exact Or.inr ⟨hstep.deletes.last a hbefore hzero, hzero⟩

namespace Runtime

/-- Every task that has been made is live or has been deleted, and what is live has an owner. -/
structure Ledger (ρ : Runtime) : Prop where
  balance : ∀ a, ρ.madeAt a = ρ.world.heap.deleted.count a + ρ.world.heap.alive a
  owned : ∀ a, ρ.world.heap.counterOf a ≠ none → ρ.world.owners a ≠ 0

theorem Ledger.initial (N : ℕ) : (Runtime.initial N).Ledger :=
  ⟨fun _ ↦ rfl, fun _ h ↦ absurd rfl h⟩

theorem madeAt_congr (hnext : ρ'.sched.next = ρ.sched.next) (haddr : ρ'.addr = ρ.addr) :
    ρ'.madeAt = ρ.madeAt := by
  funext a
  rw [madeAt, madeAt, hnext, haddr]

theorem madeAt_succ {a : Addr} (hnext : ρ'.sched.next = ρ.sched.next + 1)
    (haddr : ρ'.addr = Function.update ρ.addr ρ.sched.next a) (b : Addr) :
    ρ'.madeAt b = ρ.madeAt b + if a = b then 1 else 0 := by
  rw [madeAt, hnext, Nat.count_succ, haddr, Function.update_self, madeAt,
    Nat.count_eq_card_filter_range, Nat.count_eq_card_filter_range]
  congr 2
  refine Finset.filter_congr fun t ht ↦ ?_
  rw [Function.update_of_ne (Nat.ne_of_lt (Finset.mem_range.mp ht))]

/-- **One step** keeps the ledger. -/
theorem Ledger.of_effect (hledger : ρ.Ledger) (hρ : ρ.Ok N owner) (h : ρ.Effect ρ') :
    ρ'.Ledger := by
  obtain ⟨xs, hok, -⟩ := hρ.world
  have howned := hledger.owned
  rw [hok.owners_eq] at howned
  cases h with
  | none heap owners next addr =>
    refine ⟨fun a ↦ ?_, fun a ↦ ?_⟩
    · rw [madeAt_congr next addr, heap]
      exact hledger.balance a
    · rw [heap, owners]
      exact hledger.owned a
  | @call op w' step created heap owners next addr =>
    obtain ⟨xs', hstep⟩ := hok.of_step step
    refine ⟨fun a ↦ ?_, ?_⟩
    · have hbalance := hstep.balance (a := a) hok step.1
      rw [created, if_neg (by simp), Nat.add_zero] at hbalance
      rw [madeAt_congr next addr, heap, hbalance]
      exact hledger.balance a
    · rw [heap, owners, hstep.ok.owners_eq]
      exact hstep.owned howned fun a ha ↦ by rw [created] at ha; cases ha
  | @made n a step next addr =>
    obtain ⟨xs', hstep⟩ := hok.of_step step
    refine ⟨fun b ↦ ?_, ?_⟩
    · have hbalance := hstep.balance (a := b) hok step.1
      rw [madeAt_succ next addr, hbalance, hledger.balance b]
      simp [Op.created]
    · rw [hstep.ok.owners_eq]
      refine hstep.owned howned fun b hb ↦ ?_
      obtain rfl : a = b := Option.some.inj hb
      have hheld : ρ'.world.handles (Holder.other n) = some (some a) := by
        rw [Op.handles_makeRefPtr step.2, Function.update_self]
      have hle := pointsTo_le_ownersOf xs' (hstep.ok.finite a) (Holder.other n)
      rw [hheld, Option.join_some, pointsTo_self] at hle
      omega

theorem Ledger.of_reachable
    (h : Reachable (CarefulRuntimeStep N owner) (Runtime.initial N) ρ) : ρ.Ledger := by
  have hboth : ρ.Ok N owner ∧ ρ.Ledger :=
    h.invariant (I := fun ρ ↦ ρ.Ok N owner ∧ ρ.Ledger) ⟨.initial N owner, .initial N⟩
      fun _ _ _ ⟨hρ, hledger⟩ hstep ↦
        ⟨hρ.of_step hstep, hledger.of_effect hρ (hstep.step.effect hρ hstep.roomy)⟩
  exact hboth.2

end Runtime

/-! ## What is used -/

theorem Pc.mem_running {pc : Pc} (h : t ∈ pc.running) : ∃ p act, pc = .task t p act := by
  unfold running at h
  split at h
  · exact absurd h List.not_mem_nil
  · rename_i u p act hne
    rw [List.mem_singleton.mp h]
    exact ⟨p, act, rfl⟩
  · exact absurd h List.not_mem_nil

theorem Sched.Ok.used {σ : Sched} (hσ : σ.Ok N) (hspawned : (σ.task t).spawned = true)
    (hlive : (σ.task t).state ≠ .terminated) : σ.Used t := by
  obtain ⟨p, hp⟩ := exists_place (hσ.kept t hspawned hlive)
  cases p with
  | blocked g =>
    refine Or.inr ⟨g, ?_⟩
    by_contra hne
    rw [times, if_neg hne] at hp
    exact lt_irrefl 0 hp
  | thread i part =>
    have hmem := List.count_pos_iff.mp hp
    refine Or.inl ⟨i, ?_⟩
    cases part with
    | runnable => exact Or.inl hmem
    | mpiBlocked =>
      refine Or.inr (Or.inr (Or.inl ?_))
      rw [PerThreadMgr.part, PerThreadMgr.parked] at hmem
      cases hpolled : (σ.thread i).pc.polled with
      | none => rwa [hpolled] at hmem
      | some k =>
        rw [hpolled] at hmem
        exact List.mem_of_mem_eraseIdx hmem
    | stolen => exact Or.inr (Or.inl hmem)
    | running =>
      obtain ⟨p, act, here⟩ := Pc.mem_running hmem
      cases p with
      | none => exact Or.inr (Or.inr (Or.inr (Or.inl (by rw [here]; rfl))))
      | some k =>
        have hshape := (hσ.thread i (hσ.lt_of_part hp)).shape
        rw [PerThreadMgr.Shape, here] at hshape
        exact Or.inr (Or.inr (Or.inl (List.mem_of_getElem? (hshape k rfl))))
    | informing => exact Or.inr (Or.inr (Or.inr (Or.inr hmem)))

/-- **Every task object is deleted once, and not before its time.** In every run, of the tasks that
were made at an address each but the last has been deleted, and the last one has been deleted or is
live. It is live exactly as long as a handle points to it or a list has it. And what a thread or a
group has in a queue or in its hands is live, and is the last task made at its address. This goes
for every task that has been spawned and has not terminated. -/
theorem tasks_deleted_once
    (hrun : Reachable (CarefulRuntimeStep N owner) (Runtime.initial N) ρ) :
    (∀ a, ρ.madeAt a = ρ.world.heap.deleted.count a + ρ.world.heap.alive a) ∧
    (∀ a, ρ.world.heap.counterOf a ≠ none ↔ ρ.world.owners a ≠ 0) ∧
    (∀ t, ρ.sched.Used t → ρ.world.heap.counterOf (ρ.addr t) ≠ none ∧ ρ.Current t) ∧
    ∀ t, (ρ.sched.task t).spawned = true → (ρ.sched.task t).state ≠ .terminated →
      ρ.sched.Used t := by
  have hρ := Runtime.Ok.of_reachable hrun
  have hledger := Runtime.Ledger.of_reachable hrun
  refine ⟨hledger.balance, fun a ↦ ⟨hledger.owned a, ?_⟩,
    fun t ht ↦ ⟨hρ.live ht, hρ.current t ht⟩, fun t ↦ hρ.sched.used⟩
  obtain ⟨xs, hok, -⟩ := hρ.world
  rw [hok.owners_eq]
  exact hok.counted.live a

/-! ## After the last task -/

/-- From the `dequeue` that returned null to the end. -/
def Pc.Searching : Pc → Prop
  | .steal _ => True
  | .checkMpi => True
  | .idle => True
  | .join _ => True
  | .exited => True
  | _ => False

theorem Step.searching {σ σ' : Sched} (h : Step N σ l σ') (hpc : (σ'.thread j).pc.Searching) :
    (σ'.thread j).pc = (σ.thread j).pc ∨ Control N σ j (σ.thread j).pc (σ'.thread j).pc := by
  have hafter : ∀ p, ¬(afterTask p).Searching := fun p ↦ by cases p <;> exact id
  -- The thread `i` acts.
  have hupdate : ∀ {i : ℕ} {m : PerThreadMgr}, ¬m.pc.Searching →
      σ'.thread = Function.update σ.thread i m → (σ'.thread j).pc = (σ.thread j).pc ∨
        Control N σ j (σ.thread j).pc (σ'.thread j).pc := by
    intro i m hm hthread
    rw [hthread] at hpc ⊢
    by_cases hji : j = i
    · rw [hji, Function.update_self] at hpc
      exact absurd hpc hm
    · rw [Function.update_of_ne hji]
      exact Or.inl rfl
  cases h with
  | terminateGracefully | newTask | registe | registeFini | waitDone | destroy => exact Or.inl rfl
  | @addRunnable i t lt client =>
    by_cases hji : j = i
    · subst hji
      exact Or.inl (by simp [Sched.enqueue])
    · exact Or.inl (congrArg _ (Function.update_of_ne hji _ _))
  | @control i pc pc' lt here move =>
    by_cases hji : j = i
    · subst hji
      rw [here]
      exact Or.inr (by simpa [Sched.goto] using move)
    · exact Or.inl (congrArg _ (Function.update_of_ne hji _ _))
  | @steal i v xs ys lt here victim ne =>
    by_cases hji : j = i
    · subst hji
      exact absurd hpc (by simp [Sched.goto, Pc.Searching])
    · refine Or.inl ?_
      rw [Sched.goto, Sched.setThread_thread, Function.update_of_ne hji]
      exact apply_update_eq (f := σ.thread) (b := { σ.thread v with runnableQueue := ys })
        PerThreadMgr.pc rfl j
  | erase lt here | dequeue lt here | install lt here | pollTask lt here | waitYield lt here
  | yield lt here | terminate lt here | informLock lt here | informDecrement lt here
  | informTake lt here | informNobody lt here | informEnqueue lt here | informUnlock lt here
  | terminated lt here | handleMpi lt here | stillMpi lt here | handleWait lt here
  | resumeLock lt here | resumeZero lt here | resumeBlock lt here =>
    exact hupdate id rfl
  | handleRunnable lt here | handleOther lt here | requeue lt here =>
    exact hupdate (hafter _) rfl
  | @resumeUnlock i t g p result lt here =>
    refine hupdate ?_ rfl
    cases result with
    | true => exact id
    | false => exact hafter p

theorem Control.searching {σ : Sched} {pc pc' : Pc} (h : Control N σ i pc pc') (hne : pc ≠ .loop)
    (hpc : pc'.Searching) : pc.Searching := by
  cases h with
  | empty => exact absurd rfl hne
  | start | someMpi | polled | sleep => exact absurd hpc id
  | _ => trivial

theorem World.handles_destroyList {w w' : World} {l : ℕ} (h : w.destroyList l = some w') :
    w'.handles = w.handles := by
  simp only [destroyList, Option.bind_eq_bind, Option.bind_eq_some_iff, Option.pure_def,
    Option.some.injEq] at h
  obtain ⟨s, -, heap, -, rfl⟩ := h
  rfl

/-- A thread that searches has no task in `ptr`, nor has one that is not there. -/
def Runtime.NullPtr (N : ℕ) (ρ : Runtime) : Prop :=
  ∀ i, N ≤ i ∨ (ρ.sched.thread i).pc.Searching → (ρ.world.handles (Holder.ptr i)).join = none

/-- `ptr` is null, or `dequeue` has set it, or the step has left it alone and is no `dequeue`. -/
theorem RuntimeStep.ptr_cases (h : RuntimeStep N ρ l ρ') (j : ℕ) :
    (ρ'.world.handles (Holder.ptr j)).join = none ∨ (j < N ∧ ¬(ρ'.sched.thread j).pc.Searching) ∨
      (ρ'.world.handles (Holder.ptr j) = ρ.world.handles (Holder.ptr j) ∧
        ((ρ'.sched.thread j).pc.Searching → (ρ.sched.thread j).pc.Searching)) := by
  have hafter : ∀ p, ¬(afterTask p).Searching := fun p ↦ by cases p <;> exact id
  -- The thread `i` acts, and leaves `ptr` alone.
  have hupdate : ∀ {i : ℕ} {m : PerThreadMgr}, (m.pc.Searching → (ρ.sched.thread i).pc.Searching) →
      ρ'.sched.thread = Function.update ρ.sched.thread i m →
      ρ'.world.handles (Holder.ptr j) = ρ.world.handles (Holder.ptr j) →
      (ρ'.world.handles (Holder.ptr j)).join = none ∨
        (j < N ∧ ¬(ρ'.sched.thread j).pc.Searching) ∨
        (ρ'.world.handles (Holder.ptr j) = ρ.world.handles (Holder.ptr j) ∧
          ((ρ'.sched.thread j).pc.Searching → (ρ.sched.thread j).pc.Searching)) := by
    intro i m hm hthread hhandle
    refine Or.inr (Or.inr ⟨hhandle, fun hpc ↦ ?_⟩)
    rw [hthread] at hpc
    by_cases hji : j = i
    · rw [hji, Function.update_self] at hpc
      rw [hji]
      exact hm hpc
    · rwa [Function.update_of_ne hji] at hpc
  cases h with
  | own step quiet =>
    refine Or.inr (Or.inr ⟨rfl, fun hpc ↦ ?_⟩)
    rcases quiet.pc j with hsame | hquiet
    · rwa [← hsame]
    · rcases step.searching hpc with hsame | hcontrol
      · rwa [← hsame]
      · exact hcontrol.searching hquiet.dequeue hpc
  | handle foreign call => exact Or.inr (Or.inr ⟨foreign.handles call.2 (by simp), id⟩)
  | @dispose i w' lt here call =>
    by_cases hji : j = i
    · left
      simp [Op.handles_destroy call, hji]
    · exact Or.inr (Or.inr ⟨by simp [Op.handles_destroy call, Function.update_of_ne, hji], id⟩)
  | newTask isPure lt client call =>
    exact Or.inr (Or.inr ⟨by simp [Op.handles_makeRefPtr call.2, Function.update_of_ne], id⟩)
  | @addRunnable i t h w' lt client once has call =>
    exact hupdate (m := { ρ.sched.thread i with
      runnableQueue := (ρ.sched.thread i).runnableQueue ++ [t] }) id rfl
      (by rw [Op.handles_enqueueCopy call])
  | destroy lt here alive call =>
    exact Or.inr (Or.inr ⟨by simp [Op.handles_destroy call, Function.update_of_ne], id⟩)
  | @empty i w' lt here queue gone call result =>
    by_cases hji : j = i
    · left
      change (w'.handles (Holder.ptr j)).join = none
      rw [hji, result]
      rfl
    · refine Or.inr (Or.inr ⟨?_, fun hpc ↦ ?_⟩)
      · change w'.handles (Holder.ptr j) = _
        rw [Op.handles_dequeue call, Function.update_of_ne (by simp [hji])]
      · simpa [Sched.goto, Function.update_of_ne hji] using hpc
  | @dequeue i t ts w' lt here queue gone call result =>
    by_cases hji : j = i
    · exact Or.inr (Or.inl ⟨hji ▸ lt, by simp [hji, Pc.Searching]⟩)
    · refine Or.inr (Or.inr ⟨?_, fun hpc ↦ ?_⟩)
      · change w'.handles (Holder.ptr j) = _
        rw [Op.handles_dequeue call, Function.update_of_ne (by simp [hji])]
      · simpa [Function.update_of_ne hji] using hpc
  | nothing lt here victim ne queue call =>
    exact hupdate (fun _ ↦ by rw [here]; trivial) rfl (by rw [Op.handles_dequeueHalf call])
  | @steal i v xs ys w' lt here victim ne queue nonempty call result =>
    refine Or.inr (Or.inr ⟨by rw [Op.handles_dequeueHalf call], fun hpc ↦ ?_⟩)
    by_cases hji : j = i
    · rw [hji, here]
      trivial
    · rw [Sched.goto, Sched.setThread_thread, Function.update_of_ne hji, Sched.setThread_thread,
        apply_update_eq (f := ρ.sched.thread) (b := { ρ.sched.thread v with runnableQueue := ys })
          PerThreadMgr.pc rfl j] at hpc
      exact hpc
  | install lt here call dispose =>
    exact hupdate (fun h ↦ absurd h id) rfl
      (by rw [World.handles_destroyList dispose, Op.handles_replace call])
  | handleRunnable lt here state call | requeue lt here call =>
    exact hupdate (fun h ↦ absurd h (hafter _)) rfl (by rw [Op.handles_enqueueCopy call])
  | handleMpi lt here state call =>
    exact hupdate (fun h ↦ absurd h id) rfl
      (by simp [Op.handles_copyConstruct call, Function.update_of_ne])
  | resumeBlock lt here blocking call =>
    exact hupdate (fun h ↦ absurd h id) rfl
      (by simp [Op.handles_copyAssign call, Function.update_of_ne])
  | erase lt here entry call | informUnlock lt here call =>
    exact hupdate (fun h ↦ absurd h id) rfl
      (by simp [Op.handles_destroy call, Function.update_of_ne])
  | informLock lt here free =>
    exact hupdate (fun h ↦ absurd h id) rfl (Function.update_of_ne (by simp) _ _)
  | informTake lt here blocked call | informNobody lt here nobody call =>
    exact hupdate (fun h ↦ absurd h id) rfl
      (by simp [Op.handles_moveAssign call, Function.update_of_ne])
  | informEnqueue lt here copy call =>
    exact hupdate (fun h ↦ absurd h id) rfl (by rw [Op.handles_enqueueCopy call])

theorem Runtime.swept_of_reachable
    (h : Reachable (CarefulRuntimeStep N owner) (Runtime.initial N) ρ) : ρ.sched.Swept N := by
  have hstart : (Runtime.initial N).sched.Swept N :=
    ⟨fun c hc ↦ absurd hc (by simp [Runtime.initial, Sched.initial]),
      fun hexit ↦ absurd hexit (by simp [Runtime.initial, Sched.initial])⟩
  refine h.invariant (I := fun ρ ↦ ρ.sched.Swept N) hstart fun ρ l ρ' hρ hstep ↦ ?_
  rcases hstep.step.sched with hsched | ⟨-, hsame⟩
  · exact hsched.swept hρ
  · rwa [hsame]

theorem Runtime.NullPtr.of_reachable
    (h : Reachable (CarefulRuntimeStep N owner) (Runtime.initial N) ρ) : ρ.NullPtr N := by
  refine h.invariant (I := Runtime.NullPtr N) (fun i _ ↦ ?_) fun ρ l ρ' hnull hstep j hj ↦ ?_
  · simp [Runtime.initial, Holder.name]
  · rcases hstep.step.ptr_cases j with hnone | ⟨hlt, hnot⟩ | ⟨hsame, hback⟩
    · exact hnone
    · exact absurd hj (not_or.mpr ⟨Nat.not_le.mpr hlt, hnot⟩)
    · rw [hsame]
      exact hnull j (hj.imp_right hback)

theorem Holder.exists_name (h : ℕ) : ∃ x : Holder, x.name = h := by
  have hpair := Nat.pair_unpair (h / 5)
  obtain hr | hr | hr | hr | hr : h % 5 = 0 ∨ h % 5 = 1 ∨ h % 5 = 2 ∨ h % 5 = 3 ∨ h % 5 = 4 := by
    omega
  · exact ⟨.ptr (h / 5), by rw [name]; omega⟩
  · exact ⟨.entry (h / 5).unpair.1 (h / 5).unpair.2, by rw [name, hpair]; omega⟩
  · exact ⟨.blockedTask (h / 5), by rw [name]; omega⟩
  · exact ⟨.nowCanRun (h / 5), by rw [name]; omega⟩
  · exact ⟨.other (h / 5), by rw [name]; omega⟩

theorem Runtime.Ok.linked_or_pointed (hρ : ρ.Ok N owner) {a : Addr} (h : ρ.world.owners a ≠ 0) :
    ρ.world.Linked a ∨ ∃ x : Holder, ρ.world.handles x = some (some a) := by
  obtain ⟨xs, hok, -⟩ := hρ.world
  by_cases hlinked : ρ.world.Linked a
  · exact Or.inl hlinked
  · rw [World.owners, indicator_of_false hlinked, Nat.add_zero] at h
    obtain ⟨n, hn⟩ := (holders_pos_iff (hok.finite a)).mp (Nat.pos_of_ne_zero h)
    obtain ⟨x, rfl⟩ := Holder.exists_name n
    exact Or.inr ⟨x, hn⟩

/-- A thread that has left `run`, or that is not there, has nothing. -/
theorem Sched.Ok.nothing_of_exited {σ : Sched} (hσ : σ.Ok N)
    (h : ∀ i < N, (σ.thread i).pc = .exited) (i : ℕ) :
    (σ.thread i).line = [] ∧ (σ.thread i).mpiBlockedQueue = [] ∧
      ∀ addr v, (σ.thread i).pc.NowCanRun addr v → v = none := by
  by_cases hi : i < N
  · have hshape := (hσ.thread i hi).shape
    rw [PerThreadMgr.Shape, h i hi] at hshape
    rw [PerThreadMgr.line, hshape.1, h i hi]
    exact ⟨rfl, hshape.2, fun _ _ hv ↦ hv⟩
  · rw [hσ.outside i (not_lt.mp hi)]
    by_cases hzero : i = 0
    · rw [hzero]
      exact ⟨rfl, rfl, fun _ _ hv ↦ hv⟩
    · rw [show Sched.initial.thread i = {} from if_neg hzero]
      exact ⟨rfl, rfl, fun _ _ hv ↦ hv⟩

/-- What is left when all threads have left. -/
theorem Runtime.Ok.live_iff (hρ : ρ.Ok N owner) (hledger : ρ.Ledger) (hnull : ρ.NullPtr N)
    (hexited : ∀ i < N, (ρ.sched.thread i).pc = .exited)
    (hgone : ∀ n a, ρ.world.handles (Holder.other n) ≠ some (some a)) (a : Addr) :
    ρ.world.heap.counterOf a ≠ none ↔
      ∃ g t, (ρ.sched.group g).blockedTask = some t ∧ ρ.addr t = a := by
  have hnothing := hρ.sched.nothing_of_exited hexited
  refine ⟨fun ha ↦ ?_, ?_⟩
  · rcases hρ.linked_or_pointed (hledger.owned a ha) with hlinked | ⟨x, hx⟩
    · obtain ⟨i, u, hu, -⟩ := hρ.exists_of_linked hlinked
      rw [(hnothing i).1] at hu
      exact absurd hu List.not_mem_nil
    · have hheld := hρ.handles x
      rw [hx] at hheld
      cases x with
      | ptr i =>
        have hptr := hnull i ((Nat.lt_or_ge i N).symm.imp_right fun hi ↦ by
          rw [hexited i hi]
          trivial)
        rw [hx] at hptr
        cases hptr
      | entry i t =>
        rw [Runtime.Held, (hnothing i).2.1, if_neg List.not_mem_nil] at hheld
        cases hheld
      | blockedTask g =>
        obtain ⟨-, hblocked⟩ := Option.ite_none_right_eq_some.mp (Eq.symm hheld)
        obtain ⟨t, ht, haddr⟩ := Option.map_eq_some_iff.mp (Option.some.inj hblocked)
        exact ⟨g, t, ht, haddr⟩
      | nowCanRun i => cases (hnothing i).2.2 _ _ hheld
      | other n => exact absurd hx (hgone n a)
  · rintro ⟨g, t, ht, rfl⟩
    exact hρ.live (Or.inr ⟨g, ht⟩)

/-- **What is left at the end.** When the main thread has left `run`, and the program has given up
its handles, the live task objects are those of the tasks that are parked in a group. -/
theorem left_at_shutdown (hrun : Reachable (CarefulRuntimeStep N owner) (Runtime.initial N) ρ)
    (hexit : (ρ.sched.thread 0).pc = .exited)
    (hgone : ∀ n a, ρ.world.handles (Holder.other n) ≠ some (some a)) (a : Addr) :
    ρ.world.heap.counterOf a ≠ none ↔
      ∃ g t, (ρ.sched.group g).blockedTask = some t ∧ ρ.addr t = a :=
  (Runtime.Ok.of_reachable hrun).live_iff (.of_reachable hrun) (.of_reachable hrun)
    ((Runtime.swept_of_reachable hrun).exited hexit) hgone a

/-! ## Programs that join their tasks -/

/-- A step of a program in which a task waits only for tasks that are below it. -/
def JoinRuntimeStep (N : ℕ) (owner : ℕ → ℕ) (r : ℕ → ℕ → Prop) (ρ : Runtime) (l : Label)
    (ρ' : Runtime) : Prop :=
  CarefulRuntimeStep N owner ρ l ρ' ∧
    ∀ c t g, l = .registe c t g → r t c ∧ (ρ.sched.task t).spawned = true

section

variable {r : ℕ → ℕ → Prop}

theorem JoinRuntimeStep.careful (h : Reachable (JoinRuntimeStep N owner r) (Runtime.initial N) ρ) :
    Reachable (CarefulRuntimeStep N owner) (Runtime.initial N) ρ := by
  obtain ⟨ls, hrun⟩ := h
  exact ⟨ls, (hrun.mono (I := fun _ ↦ True) trivial fun _ _ _ _ hstep ↦ ⟨hstep.1, trivial⟩).1⟩

theorem Sched.Joined.of_runtime (h : Reachable (JoinRuntimeStep N owner r) (Runtime.initial N) ρ) :
    ρ.sched.Joined N owner r := by
  refine h.invariant (I := fun ρ ↦ ρ.sched.Joined N owner r)
    ⟨.initial N owner, fun _ _ ht ↦ absurd ht List.not_mem_nil⟩ fun ρ l ρ' hρ hstep ↦ ?_
  rcases hstep.1.step.sched with hsched | ⟨-, hsame⟩
  · exact hρ.of_step ⟨⟨hsched, hstep.1.owned⟩, hstep.2⟩
  · rwa [hsame]

/-- Nobody is parked after the shutdown, so no task is live. -/
theorem Runtime.nothing_live [IsStrictOrder ℕ r]
    (hrun : Reachable (JoinRuntimeStep N owner r) (Runtime.initial N) ρ)
    (hexit : (ρ.sched.thread 0).pc = .exited)
    (hgone : ∀ n a, ρ.world.handles (Holder.other n) ≠ some (some a)) (a : Addr) :
    ρ.world.heap.counterOf a = none := by
  have hcareful := JoinRuntimeStep.careful hrun
  have hexited := (Runtime.swept_of_reachable hcareful).exited hexit
  have hnobody := ((Sched.Joined.of_runtime hrun).finished hexited).1
  by_contra hlive
  obtain ⟨g, t, ht, -⟩ := ((Runtime.Ok.of_reachable hcareful).live_iff (.of_reachable hcareful)
    (.of_reachable hcareful) hexited hgone a).mp hlive
  rw [hnobody g] at ht
  cases ht

/-- **Nothing leaks.** When the main thread of a program that joins its tasks has left `run`, and
the program has given up its handles, every task object that was ever made has been deleted,
once. -/
theorem nothing_leaks [IsStrictOrder ℕ r]
    (hrun : Reachable (JoinRuntimeStep N owner r) (Runtime.initial N) ρ)
    (hexit : (ρ.sched.thread 0).pc = .exited)
    (hgone : ∀ n a, ρ.world.handles (Holder.other n) ≠ some (some a)) (a : Addr) :
    ρ.world.heap.counterOf a = none ∧ ρ.world.heap.deleted.count a = ρ.madeAt a := by
  have hdead := Runtime.nothing_live hrun hexit hgone a
  have hbalance := (Runtime.Ledger.of_reachable (JoinRuntimeStep.careful hrun)).balance a
  rw [Heap.alive, if_pos hdead, Nat.add_zero] at hbalance
  exact ⟨hdead, hbalance.symm⟩

end

/-! ## Runs of two threads -/

/-- The handles that get a value in a call. -/
def Op.named : Op → List ℕ
  | newObject _ | nullAssign _ | destroy _ | enqueueCopy _ _ | enqueueMove _ _ | dequeueHalf _ _
  | dequeueHalf_ _ _ | replace _ _ => []
  | construct h _ | makeRefPtr h _ | copyConstruct h _ | moveConstruct h _ | copyAssign h _
  | moveAssign h _ | dequeue _ h => [h]

theorem FewHandles.exec {s : Finset ℕ} {w w' : World} {op : Op} (hf : FewHandles s w.handles)
    (call : op.exec id w = some w') (hop : ∀ h ∈ op.named, h ∈ s) : FewHandles s w'.handles := by
  have hset : ∀ {f : ℕ → Option (Option Addr)} {h : ℕ} {v : Option (Option Addr)}, FewHandles s f →
      v.join = none → FewHandles s (Function.update f h v) := by
    intro f h v hf hv n hn
    by_cases hnh : n = h
    · rw [hnh, Function.update_self, hv]
    · rw [Function.update_of_ne hnh]
      exact hf n hn
  rw [Op.exec_handles call]
  cases op with
  | newObject | enqueueCopy | dequeueHalf | dequeueHalf_ | replace => exact hf
  | nullAssign | destroy | enqueueMove => exact hset hf rfl
  | construct | makeRefPtr | copyConstruct | copyAssign | dequeue =>
    exact hf.update rfl (hop _ (List.mem_singleton_self _))
  | moveConstruct | moveAssign => exact hset (hf.update rfl (hop _ (List.mem_singleton_self _))) rfl

/-- A call that has a result. -/
theorem Op.exec_get {op : Op} {w : World} (h : (op.exec id w).isSome := by decide +kernel) :
    op.exec id w = some ((op.exec id w).get h) :=
  (Option.some_get h).symm

/-- What the kernel finds true. -/
theorem evaluated {P : Prop} [Decidable P] (h : decide P = true := by decide +kernel) : P :=
  of_decide_eq_true h

theorem Pc.steal_own (i : ℕ) : ∀ v, Pc.steal i = .steal v → v < N → v = i :=
  fun _ h _ ↦ (Pc.steal.inj h).symm

theorem Pc.steal_none {v : ℕ} (hv : N ≤ v) : ∀ u, Pc.steal v = .steal u → u < N → u = i := by
  intro u h hu
  rw [← Pc.steal.inj h] at hu
  exact absurd hu (Nat.not_lt.mpr hv)

theorem Pc.Client.of_user {pc : Pc} {t : ℕ} {p : Option ℕ} (h : pc = .task t p .user) :
    pc.Client := by
  rw [h]
  trivial

theorem Pc.quiet_decrement {c g : ℕ} {p : Option ℕ} {rest : List ℕ} {P : Prop} [Decidable P] :
    (Pc.task c p (.inform g rest .decrement)).Quiet N i
      (.task c p (.inform g rest (if P then .take else .unlock))) := by
  refine quiet_goOn (by rintro _ _ ⟨⟩) fun addr v hv ↦ ?_
  split
  · exact hv
  · rw [show v = some none from hv]
    exact Option.some_ne_none _

/-- The handles that two threads need for a task that waits in the group `0`. -/
def joinHandles : Finset ℕ := {(Holder.other 0).name, (Holder.ptr 0).name, (Holder.ptr 1).name,
  (Holder.blockedTask 0).name, (Holder.nowCanRun 1).name}

/-- Two threads have come to `ρ₀` and from there to `ρ`, where few handles are in use. -/
structure JoinRun (r : ℕ → ℕ → Prop) (ρ₀ ρ : Runtime) : Prop where
  start : Reachable (JoinRuntimeStep 2 (fun _ ↦ 0) r) (Runtime.initial 2) ρ₀
  run : Reachable (JoinRuntimeStep 2 (fun _ ↦ 0) r) ρ₀ ρ
  few : FewHandles joinHandles ρ.world.handles

namespace JoinRun

variable {r : ℕ → ℕ → Prop} {ρ₀ : Runtime} {w' w'' : World}

theorem initial : JoinRun r (Runtime.initial 2) (Runtime.initial 2) :=
  ⟨.refl _ _, .refl _ _, .initial _ 2⟩

theorem restart (h : JoinRun r ρ₀ ρ) : JoinRun r ρ ρ := ⟨h.start.trans h.run, .refl _ _, h.few⟩

theorem roomy (h : JoinRun r ρ₀ ρ) : ρ.Roomy := h.few.roomy (by decide)

theorem joins (h : JoinRun r ρ₀ ρ) (hl : l = .other ∨ ∃ t, l = .back t)
    (hstep : RuntimeStep 2 ρ l ρ') : JoinRuntimeStep 2 (fun _ ↦ 0) r ρ l ρ' := by
  rcases hl with rfl | ⟨t, rfl⟩ <;> exact ⟨⟨hstep, trivial, trivial, trivial, h.roomy⟩, nofun⟩

theorem step (h : JoinRun r ρ₀ ρ) (hl : l = .other ∨ ∃ t, l = .back t)
    (hstep : RuntimeStep 2 ρ l ρ')
    (hfew : FewHandles joinHandles ρ'.world.handles) : JoinRun r ρ₀ ρ' :=
  ⟨h.start, h.run.snoc (h.joins hl hstep), hfew⟩

theorem gone (h : JoinRun r ρ₀ ρ) (hgone : ρ.world.handles (Holder.other 0) = none) (n : ℕ)
    (a : Addr) : ρ.world.handles (Holder.other n) ≠ some (some a) := by
  intro hn
  by_cases hzero : n = 0
  · rw [hzero, hgone] at hn
    cases hn
  · cases (h.few (Holder.other n) (by simp [joinHandles, Holder.name, hzero]; omega)).symm.trans
      (congrArg Option.join hn)

theorem call (h : JoinRun r ρ₀ ρ) (op : Op)
    (hstep : RuntimeStep 2 ρ .other ρ') (hcall : op.exec id ρ.world = some ρ'.world)
    (hop : ∀ h ∈ op.named, h ∈ joinHandles) : JoinRun r ρ₀ ρ' :=
  h.step (Or.inl rfl) hstep (h.few.exec hcall hop)

theorem back (h : JoinRun r ρ₀ ρ) (op : Op)
    (hstep : RuntimeStep 2 ρ (.back t) ρ') (hcall : op.exec id ρ.world = some ρ'.world)
    (hop : ∀ h ∈ op.named, h ∈ joinHandles) : JoinRun r ρ₀ ρ' :=
  h.step (Or.inr ⟨t, rfl⟩) hstep (h.few.exec hcall hop)

theorem goOn (h : JoinRun r ρ₀ ρ) (hstep : RuntimeStep 2 ρ .other ρ')
    (hsame : ρ'.world.handles = ρ.world.handles) : JoinRun r ρ₀ ρ' :=
  h.step (Or.inl rfl) hstep (hsame ▸ h.few)

theorem own {pc' : Pc} (h : JoinRun r ρ₀ ρ) (pc : Pc)
    (step : Step 2 ρ.sched .other (ρ.sched.goto i pc'))
    (here : (ρ.sched.thread i).pc = pc) (hpc : pc.Quiet 2 i pc') :
    JoinRun r ρ₀ { ρ with sched := ρ.sched.goto i pc' } :=
  h.goOn (.own step (.of_goto here rfl hpc rfl fun _ ↦ ⟨rfl, rfl⟩) nofun) rfl

theorem ownTask {a : Task} {pc' : Pc} (h : JoinRun r ρ₀ ρ) (pc : Pc)
    (step : Step 2 ρ.sched .other ((ρ.sched.setTask t a).goto i pc'))
    (here : (ρ.sched.thread i).pc = pc) (hpc : pc.Quiet 2 i pc') :
    JoinRun r ρ₀ { ρ with sched := (ρ.sched.setTask t a).goto i pc' } :=
  h.goOn (.own step (.of_goto here rfl hpc rfl fun _ ↦ ⟨rfl, rfl⟩) nofun) rfl

theorem ownGroup {g : ℕ} {gp : TaskGroup} {pc' : Pc} (h : JoinRun r ρ₀ ρ) (pc : Pc)
    (step : Step 2 ρ.sched .other ((ρ.sched.setGroup g gp).goto i pc'))
    (here : (ρ.sched.thread i).pc = pc) (hpc : pc.Quiet 2 i pc')
    (hgroup : gp.blockedTask = (ρ.sched.group g).blockedTask ∧ gp.alive = (ρ.sched.group g).alive) :
    JoinRun r ρ₀ { ρ with sched := (ρ.sched.setGroup g gp).goto i pc' } :=
  h.goOn (.own step (.of_goto here rfl hpc rfl (Sched.slots_update rfl hgroup.1 hgroup.2)) nofun)
  rfl

theorem terminateGracefully (h : JoinRun r ρ₀ ρ) :
    JoinRun r ρ₀ { ρ with sched := { ρ.sched with terminatable := true } } :=
  h.goOn (.own .terminateGracefully (.of_thread rfl rfl fun _ ↦ ⟨rfl, rfl⟩) nofun) rfl

theorem registe {n : ℕ} (h : JoinRun r ρ₀ ρ) (hr : r t 0)
    (here : (ρ.sched.thread 0).pc = .task 0 none .user) (has : ρ.Refers n t)
    (spawned : (ρ.sched.task t).spawned = true) (unlocked : (ρ.sched.task t).locked = false)
    (first : (ρ.sched.task t).groups = []) (live : (ρ.sched.task t).isFini = false)
    (alive : (ρ.sched.group 0).alive = true) :
    JoinRun r ρ₀ { ρ with
      sched := ((ρ.sched.setTask t ((ρ.sched.task t).addToGroup 0 (ρ.sched.group 0)).1).setGroup 0
        { ((ρ.sched.task t).addToGroup 0 (ρ.sched.group 0)).2.1 with waited := false }) } := by
  have hstep : RuntimeStep 2 ρ (.registe 0 t 0) _ := .own
    (.registe (i := 0) (by decide) here has.2.1 unlocked (by rw [first]; decide) alive live)
    (.of_thread rfl rfl (Sched.slots_update rfl (by simp [Task.addToGroup, live])
      (by simp [Task.addToGroup, live])))
    fun c u g heq ↦ by
      obtain ⟨rfl, rfl, rfl⟩ := Label.registe.inj heq
      exact ⟨n, has⟩
  refine ⟨h.start, h.run.snoc (l := .registe 0 t 0) ⟨⟨hstep, rfl, trivial, trivial, h.roomy⟩,
    fun c u g heq ↦ ?_⟩, h.few⟩
  obtain ⟨rfl, rfl, rfl⟩ := Label.registe.inj heq
  exact ⟨hr, spawned⟩

theorem waitYield (h : JoinRun r ρ₀ ρ) (here : (ρ.sched.thread 0).pc = .task 0 none .user)
    (alive : (ρ.sched.group 0).alive = true) (blocking : (ρ.sched.group 0).blockingCount ≠ 0)
    (impure : (ρ.sched.task 0).isPure = false) :
    JoinRun r ρ₀ { ρ with
      sched := (((ρ.sched.setTask 0 { ρ.sched.task 0 with
        state := .groupWait, blockedBy := some 0, waiting := some 0, wakes := 0 }).setGroup 0
          { ρ.sched.group 0 with waited := true }).goto 0 (.task 0 none .switched)) } := by
  have hstep : RuntimeStep 2 ρ (.wait 0 0 false) _ := .own
    (.waitYield (i := 0) (c := 0) (g := 0) (by decide) here alive blocking impure)
    (.of_goto here rfl (Pc.quiet_goOn nofun fun _ _ hv ↦ hv) rfl (Sched.slots_update rfl rfl rfl))
    nofun
  exact ⟨h.start, h.run.snoc (l := .wait 0 0 false)
    ⟨⟨hstep, rfl, trivial, trivial, h.roomy⟩, nofun⟩, h.few⟩

theorem steal {v : ℕ} (h : JoinRun r ρ₀ ρ) (lt : i < 2) (victim : v < 2) (ne : v ≠ i)
    (here : (ρ.sched.thread i).pc = .steal v) (queue : (ρ.sched.thread v).runnableQueue = [t])
    (call : (Op.dequeueHalf (ListName.runnableQueue v) (ListName.skiplistptr i)).exec id ρ.world
      = some w') :
    JoinRun r ρ₀ { ρ with
      sched := (ρ.sched.setThread v { ρ.sched.thread v with runnableQueue := [] }).goto i
        (.install [t])
      world := w' } := by
  have hρ := Runtime.Ok.of_reachable (JoinRuntimeStep.careful (h.start.trans h.run))
  have hpre := hρ.pre h.roomy lt (.dequeueHalf here victim ne)
  rcases hρ.dequeueHalf_result victim hpre call with ⟨hempty, -⟩ | ⟨xs, ys, hqueue, hne, hresult⟩
  · rw [queue] at hempty
    cases hempty
  · obtain ⟨rfl, rfl⟩ : xs = [t] ∧ ys = [] := by
      rcases xs with _ | ⟨x, xs⟩
      · exact absurd rfl hne
      · rw [queue, List.cons_append, List.cons.injEq] at hqueue
        obtain ⟨rfl, rfl⟩ := List.append_eq_nil_iff.mp hqueue.2.symm
        exact ⟨by rw [hqueue.1], rfl⟩
    exact h.goOn (.steal lt here victim ne hqueue hne call hresult) (Op.exec_handles call)

theorem install {xs : List ℕ} (h : JoinRun r ρ₀ ρ) (lt : i < 2)
    (here : (ρ.sched.thread i).pc = .install xs)
    (call : (Op.replace (ListName.runnableQueue i) (ListName.skiplistptr i)).exec id ρ.world =
      some w')
    (dispose : w'.destroyList (ListName.skiplistptr i) = some w'') :
    JoinRun r ρ₀ { ρ with
      sched := ρ.sched.setThread i { ρ.sched.thread i with runnableQueue := xs, pc := .loop }
      world := w'' } :=
  h.goOn (.install lt here call dispose)
    ((World.handles_destroyList dispose).trans (Op.exec_handles call))

end JoinRun

/-- The task `0`, made at the address `7`, makes the task `1` at the address `13` and waits for it.
The thread `1` steals the task `1` and runs it to its end, which wakes the task `0` there. When both
have terminated and been deleted, the threads leave. -/
theorem exists_joined : ∃ ρ₁ ρ₂ ρ₃ ρ₄ ρ₅ ρ,
    JoinRuntimeStep 2 (fun _ ↦ 0) (· > ·) (Runtime.initial 2) .other ρ₁ ∧
    ρ₁.sched.next = 1 ∧ ρ₁.addr 0 = 7 ∧
    Reachable (JoinRuntimeStep 2 (fun _ ↦ 0) (· > ·)) ρ₁ ρ₂ ∧ ρ₂.sched.next = 1 ∧
    JoinRuntimeStep 2 (fun _ ↦ 0) (· > ·) ρ₂ .other ρ₃ ∧ ρ₃.sched.next = 2 ∧ ρ₃.addr 1 = 13 ∧
    ρ₃.world.heap.counterOf 7 ≠ none ∧
    Reachable (JoinRuntimeStep 2 (fun _ ↦ 0) (· > ·)) ρ₃ ρ₄ ∧
    ρ₄.sched.next = 2 ∧ ρ₄.world.heap.counterOf 13 = none ∧
    ((ρ₄.sched.thread 1).runnableQueue = [0] ∧ ρ₄.addr 0 = 7 ∧ ρ₄.addr 1 = 13) ∧
    Reachable (JoinRuntimeStep 2 (fun _ ↦ 0) (· > ·)) ρ₄ ρ₅ ∧
    ρ₅.sched.next = 2 ∧ ρ₅.world.heap.counterOf 7 = none ∧ ρ₅.world.heap.counterOf 13 = none ∧
    Reachable (JoinRuntimeStep 2 (fun _ ↦ 0) (· > ·)) ρ₅ ρ ∧
    ρ.sched.next = 2 ∧ ρ.addr 0 = 7 ∧ ρ.addr 1 = 13 ∧ (ρ.sched.thread 0).pc = .exited ∧
    ∀ n a, ρ.world.handles (Holder.other n) ≠ some (some a) := by
  have hdecrement : ∀ gp : TaskGroup, gp.decrement.blockedTask = gp.blockedTask ∧
      gp.decrement.alive = gp.alive := fun _ ↦ ⟨rfl, rfl⟩
  have h₀ : JoinRun (· > ·) (Runtime.initial 2) (Runtime.initial 2) := .initial
  have hmade₁ := h₀.joins (Or.inl rfl) (.newTask (i := 0) (n := 0) (a := 7) false
    (by decide) trivial ⟨⟨evaluated, evaluated⟩, Op.exec_get⟩)
  have h₁ := h₀.call (.makeRefPtr (Holder.other 0) 7) hmade₁.1.step Op.exec_get (by decide)
  have h₂ := h₁.restart.call (.enqueueCopy (ListName.runnableQueue 0) (Holder.other 0))
    (.addRunnable
    (i := 0) (t := 0) (h := Holder.other 0) (by decide) trivial evaluated evaluated Op.exec_get)
    Op.exec_get (by decide)
  have h₃ := h₂.call (.destroy (Holder.other 0))
    (.handle (.destroy 0) ⟨⟨some 7, evaluated, fun a _ ↦
    h₂.roomy a⟩, Op.exec_get⟩) Op.exec_get (by decide)
  have h₄ := h₃.goOn (.control (i := 0) (by decide) evaluated .start nofun nofun) rfl
  have h₅ := h₄.back (.dequeue (ListName.runnableQueue 0) (Holder.ptr 0))
    (.dequeue (i := 0) (by decide)
    evaluated (show _ = [0] from evaluated) evaluated Op.exec_get evaluated) Op.exec_get (by decide)
  have hmade₂ := h₅.joins (Or.inl rfl) (.newTask (i := 0) (n := 0) (a := 13) false (by decide)
    (.of_user (t := 0) (p := none) evaluated) ⟨⟨evaluated, evaluated⟩, Op.exec_get⟩)
  have h₆ := h₅.call (.makeRefPtr (Holder.other 0) 13) hmade₂.1.step Op.exec_get (by decide)
  have h₇ := h₆.restart.call (.enqueueCopy (ListName.runnableQueue 0) (Holder.other 0))
    (.addRunnable
    (i := 0) (t := 1) (h := Holder.other 0) (by decide) (.of_user (t := 0) (p := none) evaluated)
    evaluated evaluated Op.exec_get) Op.exec_get (by decide)
  -- The task `0` waits.
  have h₈ := h₇.registe (t := 1) (n := Holder.other 0) (by decide) evaluated evaluated evaluated
    evaluated evaluated evaluated evaluated
  have h₉ := h₈.call (.destroy (Holder.other 0))
    (.handle (.destroy 0) ⟨⟨some 13, evaluated, fun a _ ↦
    h₈.roomy a⟩, Op.exec_get⟩) Op.exec_get (by decide)
  have h₁₀ := h₉.waitYield evaluated evaluated evaluated evaluated
  have h₁₁ := h₁₀.own (.task 0 none .switched) (.handleWait (i := 0) (t := 0) (g := 0) (p := none)
    (by decide) evaluated evaluated evaluated) evaluated (Pc.quiet_goOn nofun fun _ _ hv ↦ hv)
  have h₁₂ := h₁₁.ownGroup (.task 0 none (.resume 0 .lock)) (.resumeLock (i := 0) (t := 0) (g := 0)
    (p := none) (by decide) evaluated evaluated) evaluated (Pc.quiet_goOn nofun fun _ _ hv ↦ hv)
    ⟨rfl, rfl⟩
  have h₁₃ := h₁₂.call (.copyAssign (Holder.blockedTask 0) (Holder.ptr 0)) (.resumeBlock (i := 0)
    (t := 0) (g := 0) (p := none) (by decide) evaluated evaluated Op.exec_get) Op.exec_get
    (by decide)
  have h₁₄ := h₁₃.ownGroup (.task 0 none (.resume 0 (.unlock false)))
    (.resumeUnlock (i := 0) (by decide)
    (show _ = Pc.task 0 none (.resume 0 (.unlock false)) from evaluated)) evaluated
    (Pc.quiet_afterTask (p := none) nofun fun _ _ hv ↦ hv) ⟨rfl, rfl⟩
  have h₁₅ := h₁₄.call (.destroy (Holder.ptr 0))
    (.dispose (i := 0) (by decide) evaluated Op.exec_get) Op.exec_get (by decide)
  -- The thread `1` steals the task `1`.
  have h₁₆ := h₁₅.call (.dequeue (ListName.runnableQueue 1) (Holder.ptr 1)) (.empty (i := 1)
    (by decide) evaluated evaluated evaluated Op.exec_get evaluated) Op.exec_get (by decide)
  have h₁₇ := h₁₆.steal (i := 1) (v := 0) (t := 1) (by decide) (by decide) (by decide) evaluated
    evaluated Op.exec_get
  have h₁₈ := h₁₇.install (i := 1) (by decide) (show _ = Pc.install [1] from evaluated) Op.exec_get
    (Option.some_get evaluated).symm
  have h₁₉ := h₁₈.call (.destroy (Holder.ptr 1))
    (.dispose (i := 1) (by decide) evaluated Op.exec_get) Op.exec_get (by decide)
  have h₂₀ := h₁₉.back (.dequeue (ListName.runnableQueue 1) (Holder.ptr 1)) (.dequeue (i := 1)
    (by decide) evaluated (show _ = [1] from evaluated) evaluated Op.exec_get evaluated) Op.exec_get
    (by decide)
  -- It terminates, and the task `0` is woken.
  have h₂₁ := h₂₀.ownTask (.task 1 none .user) (.terminate (i := 1) (c := 1) (p := none) (by decide)
    evaluated evaluated) evaluated (Pc.quiet_goOn nofun fun _ _ hv ↦ hv)
  have h₂₂ := h₂₁.step (Or.inl rfl) (.informLock (i := 1) (by decide)
    (show _ = Pc.task 1 none (.terminating [0]) from evaluated) evaluated)
    (h₂₁.few.update (h := Holder.nowCanRun 1) rfl (by decide))
  have h₂₃ := h₂₂.ownGroup (.task 1 none (.inform 0 [] .decrement)) (.informDecrement (i := 1)
    (by decide) (show _ = Pc.task 1 none (.inform 0 [] .decrement) from evaluated)) evaluated
    Pc.quiet_decrement (hdecrement _)
  have h₂₄ := h₂₃.call (.moveAssign (Holder.nowCanRun 1) (Holder.blockedTask 0))
    (.informTake (i := 1)
    (w := 0) (by decide) (show _ = Pc.task 1 none (.inform 0 [] .take) from evaluated) evaluated
    Op.exec_get evaluated) Op.exec_get (by decide)
  have h₂₅ := h₂₄.call (.enqueueCopy (ListName.runnableQueue 1) (Holder.nowCanRun 1))
    (.informEnqueue (i := 1) (h := Holder.nowCanRun 1) (by decide)
    (show _ = Pc.task 1 none (.inform 0 [] (.enqueue 0)) from evaluated) evaluated Op.exec_get)
    Op.exec_get (by decide)
  have h₂₆ := h₂₅.call (.destroy (Holder.nowCanRun 1)) (.informUnlock (i := 1) (by decide)
    (show _ = Pc.task 1 none (.inform 0 [] .unlock) from evaluated) Op.exec_get) Op.exec_get
    (by decide)
  have h₂₇ := h₂₆.ownTask (.task 1 none (.terminating []))
    (.terminated (i := 1) (c := 1) (p := none)
    (by decide) evaluated) evaluated (Pc.quiet_goOn nofun fun _ _ hv ↦ hv)
  have h₂₈ := h₂₇.own (.task 1 none .switched)
    (.handleOther (i := 1) (t := 1) (p := none) (by decide)
    evaluated (Or.inl evaluated)) evaluated (Pc.quiet_afterTask (p := none) nofun fun _ _ hv ↦ hv)
  have h₂₉ := h₂₈.call (.destroy (Holder.ptr 1))
    (.dispose (i := 1) (by decide) evaluated Op.exec_get) Op.exec_get (by decide)
  -- The task `0` comes back and terminates.
  have h₃₀ := h₂₉.restart.back (.dequeue (ListName.runnableQueue 1) (Holder.ptr 1))
    (.dequeue (i := 1)
    (by decide) evaluated (show _ = [0] from evaluated) evaluated Op.exec_get evaluated) Op.exec_get
    (by decide)
  have h₃₁ := h₃₀.ownTask (.task 0 none .user) (.terminate (i := 1) (c := 0) (p := none) (by decide)
    evaluated evaluated) evaluated (Pc.quiet_goOn nofun fun _ _ hv ↦ hv)
  have h₃₂ := h₃₁.ownTask (.task 0 none (.terminating []))
    (.terminated (i := 1) (c := 0) (p := none)
    (by decide) evaluated) evaluated (Pc.quiet_goOn nofun fun _ _ hv ↦ hv)
  have h₃₃ := h₃₂.own (.task 0 none .switched)
    (.handleOther (i := 1) (t := 0) (p := none) (by decide)
    evaluated (Or.inl evaluated)) evaluated (Pc.quiet_afterTask (p := none) nofun fun _ _ hv ↦ hv)
  have h₃₄ := h₃₃.call (.destroy (Holder.ptr 1))
    (.dispose (i := 1) (by decide) evaluated Op.exec_get) Op.exec_get (by decide)
  -- The threads leave.
  have h₃₅ := h₃₄.restart.terminateGracefully
  have h₃₆ := h₃₅.call (.dequeue (ListName.runnableQueue 1) (Holder.ptr 1)) (.empty (i := 1)
    (by decide) evaluated evaluated evaluated Op.exec_get evaluated) Op.exec_get (by decide)
  have h₃₇ := h₃₆.call (.dequeueHalf (ListName.runnableQueue 0) (ListName.skiplistptr 1)) (.nothing
    (i := 1) (v := 0) (by decide) evaluated (by decide) (by decide) evaluated Op.exec_get evaluated)
    Op.exec_get (by decide)
  have h₃₈ := h₃₇.goOn (.control (i := 1) (by decide) evaluated .self nofun (Pc.steal_own 1)) rfl
  have h₃₉ := h₃₈.goOn (.control (i := 1) (by decide) evaluated (.unsuccessful (v := 2) (by decide))
    nofun (Pc.steal_none (by decide))) rfl
  have h₄₀ := h₃₉.goOn (.control (i := 1) (by decide) evaluated (.noMpi evaluated) nofun nofun) rfl
  have h₄₁ := h₄₀.goOn (.control (i := 1) (by decide) evaluated (.leave evaluated (by decide))
    nofun nofun) rfl
  have h₄₂ := h₄₁.call (.dequeue (ListName.runnableQueue 0) (Holder.ptr 0)) (.empty (i := 0)
    (by decide) evaluated evaluated evaluated Op.exec_get evaluated) Op.exec_get (by decide)
  have h₄₃ := h₄₂.goOn (.control (i := 0) (by decide) evaluated .self nofun (Pc.steal_own 0)) rfl
  have h₄₄ := h₄₃.call (.dequeueHalf (ListName.runnableQueue 1) (ListName.skiplistptr 0)) (.nothing
    (i := 0) (v := 1) (by decide) evaluated (by decide) (by decide) evaluated Op.exec_get evaluated)
    Op.exec_get (by decide)
  have h₄₅ := h₄₄.goOn (.control (i := 0) (by decide) evaluated (.unsuccessful (v := 2) (by decide))
    nofun (Pc.steal_none (by decide))) rfl
  have h₄₆ := h₄₅.goOn (.control (i := 0) (by decide) evaluated (.noMpi evaluated) nofun nofun) rfl
  have h₄₇ := h₄₆.goOn (.control (i := 0) (by decide) evaluated
    (.sweep evaluated rfl) nofun nofun) rfl
  have h₄₈ := h₄₇.goOn (.control (i := 0) (by decide) evaluated (.joined (c := 1) (by decide)
    evaluated) nofun nofun) rfl
  have h₄₉ := h₄₈.goOn (.control (i := 0) (by decide) evaluated (.swept (c := 2) (by decide))
    nofun nofun) rfl
  exact ⟨_, _, _, _, _, _, hmade₁, evaluated, evaluated, h₅.run, evaluated, hmade₂, evaluated,
    evaluated,
    evaluated, h₂₉.run, evaluated, evaluated, evaluated, h₃₄.run, evaluated, evaluated, evaluated,
    h₄₉.run, evaluated, evaluated, evaluated, evaluated, h₄₉.gone evaluated⟩

/-- The task `0`, made at the address `7`, waits for itself. The threads leave without it. -/
theorem exists_parked : ∃ ρ,
    Reachable (JoinRuntimeStep 2 (fun _ ↦ 0) fun _ _ ↦ True) (Runtime.initial 2) ρ ∧
    (ρ.sched.group 0).blockedTask = some 0 ∧ ρ.addr 0 = 7 ∧ (ρ.sched.thread 0).pc = .exited ∧
    ∀ n a, ρ.world.handles (Holder.other n) ≠ some (some a) := by
  have h₀ : JoinRun (fun _ _ ↦ True) (Runtime.initial 2) (Runtime.initial 2) := .initial
  have hmade₁ := h₀.joins (Or.inl rfl) (.newTask (i := 0) (n := 0) (a := 7) false
    (by decide) trivial ⟨⟨evaluated, evaluated⟩, Op.exec_get⟩)
  have h₁ := h₀.call (.makeRefPtr (Holder.other 0) 7) hmade₁.1.step Op.exec_get (by decide)
  have h₂ := h₁.restart.call (.enqueueCopy (ListName.runnableQueue 0) (Holder.other 0))
    (.addRunnable
    (i := 0) (t := 0) (h := Holder.other 0) (by decide) trivial evaluated evaluated Op.exec_get)
    Op.exec_get (by decide)
  have h₃ := h₂.call (.destroy (Holder.other 0))
    (.handle (.destroy 0) ⟨⟨some 7, evaluated, fun a _ ↦
    h₂.roomy a⟩, Op.exec_get⟩) Op.exec_get (by decide)
  have h₄ := h₃.goOn (.control (i := 0) (by decide) evaluated .start nofun nofun) rfl
  have h₅ := h₄.back (.dequeue (ListName.runnableQueue 0) (Holder.ptr 0))
    (.dequeue (i := 0) (by decide)
    evaluated (show _ = [0] from evaluated) evaluated Op.exec_get evaluated) Op.exec_get (by decide)
  -- It waits for itself.
  have h₆ := h₅.registe (t := 0) (n := Holder.ptr 0) trivial evaluated evaluated evaluated evaluated
    evaluated evaluated evaluated
  have h₇ := h₆.waitYield evaluated evaluated evaluated evaluated
  have h₈ := h₇.own (.task 0 none .switched) (.handleWait (i := 0) (t := 0) (g := 0) (p := none)
    (by decide) evaluated evaluated evaluated) evaluated (Pc.quiet_goOn nofun fun _ _ hv ↦ hv)
  have h₉ := h₈.ownGroup (.task 0 none (.resume 0 .lock)) (.resumeLock (i := 0) (t := 0) (g := 0)
    (p := none) (by decide) evaluated evaluated) evaluated (Pc.quiet_goOn nofun fun _ _ hv ↦ hv)
    ⟨rfl, rfl⟩
  have h₁₀ := h₉.call (.copyAssign (Holder.blockedTask 0) (Holder.ptr 0)) (.resumeBlock (i := 0)
    (t := 0) (g := 0) (p := none) (by decide) evaluated evaluated Op.exec_get) Op.exec_get
    (by decide)
  have h₁₁ := h₁₀.ownGroup (.task 0 none (.resume 0 (.unlock false)))
    (.resumeUnlock (i := 0) (by decide)
    (show _ = Pc.task 0 none (.resume 0 (.unlock false)) from evaluated)) evaluated
    (Pc.quiet_afterTask (p := none) nofun fun _ _ hv ↦ hv) ⟨rfl, rfl⟩
  have h₁₂ := h₁₁.call (.destroy (Holder.ptr 0))
    (.dispose (i := 0) (by decide) evaluated Op.exec_get) Op.exec_get (by decide)
  -- The threads leave.
  have h₁₃ := h₁₂.restart.terminateGracefully
  have h₁₄ := h₁₃.call (.dequeue (ListName.runnableQueue 1) (Holder.ptr 1)) (.empty (i := 1)
    (by decide) evaluated evaluated evaluated Op.exec_get evaluated) Op.exec_get (by decide)
  have h₁₅ := h₁₄.call (.dequeueHalf (ListName.runnableQueue 0) (ListName.skiplistptr 1)) (.nothing
    (i := 1) (v := 0) (by decide) evaluated (by decide) (by decide) evaluated Op.exec_get evaluated)
    Op.exec_get (by decide)
  have h₁₆ := h₁₅.goOn (.control (i := 1) (by decide) evaluated .self nofun (Pc.steal_own 1)) rfl
  have h₁₇ := h₁₆.goOn (.control (i := 1) (by decide) evaluated (.unsuccessful (v := 2) (by decide))
    nofun (Pc.steal_none (by decide))) rfl
  have h₁₈ := h₁₇.goOn (.control (i := 1) (by decide) evaluated (.noMpi evaluated) nofun nofun) rfl
  have h₁₉ := h₁₈.goOn (.control (i := 1) (by decide) evaluated (.leave evaluated (by decide))
    nofun nofun) rfl
  have h₂₀ := h₁₉.call (.dequeue (ListName.runnableQueue 0) (Holder.ptr 0)) (.empty (i := 0)
    (by decide) evaluated evaluated evaluated Op.exec_get evaluated) Op.exec_get (by decide)
  have h₂₁ := h₂₀.goOn (.control (i := 0) (by decide) evaluated .self nofun (Pc.steal_own 0)) rfl
  have h₂₂ := h₂₁.call (.dequeueHalf (ListName.runnableQueue 1) (ListName.skiplistptr 0)) (.nothing
    (i := 0) (v := 1) (by decide) evaluated (by decide) (by decide) evaluated Op.exec_get evaluated)
    Op.exec_get (by decide)
  have h₂₃ := h₂₂.goOn (.control (i := 0) (by decide) evaluated (.unsuccessful (v := 2) (by decide))
    nofun (Pc.steal_none (by decide))) rfl
  have h₂₄ := h₂₃.goOn (.control (i := 0) (by decide) evaluated (.noMpi evaluated) nofun nofun) rfl
  have h₂₅ := h₂₄.goOn (.control (i := 0) (by decide) evaluated
    (.sweep evaluated rfl) nofun nofun) rfl
  have h₂₆ := h₂₅.goOn (.control (i := 0) (by decide) evaluated (.joined (c := 1) (by decide)
    evaluated) nofun nofun) rfl
  have h₂₇ := h₂₆.goOn (.control (i := 0) (by decide) evaluated (.swept (c := 2) (by decide))
    nofun nofun) rfl
  exact ⟨_, h₂₇.start.trans h₂₇.run, evaluated, evaluated, evaluated, h₂₇.gone evaluated⟩

/-- The whole run. -/
theorem runtime_finished :
    ∃ ρ, Reachable (JoinRuntimeStep 2 (fun _ ↦ 0) (· > ·)) (Runtime.initial 2) ρ ∧
    (ρ.sched.thread 0).pc = .exited ∧ (∀ n a, ρ.world.handles (Holder.other n) ≠ some (some a)) ∧
    ρ.madeAt 7 = 1 ∧ ρ.madeAt 13 = 1 := by
  obtain ⟨_, _, _, _, _, ρ, hmade₁, -, -, hwaits, -, hmade₂, -, -, -, hjoined, -, -, -, hback,
    -, -, -, hleft, hnext, haddr₀, haddr₁, hpc, hgone⟩ := exists_joined
  refine ⟨ρ, ((((Reachable.refl _ _).snoc hmade₁).trans hwaits).snoc hmade₂).trans
    ((hjoined.trans hback).trans hleft), hpc, hgone, ?_, ?_⟩ <;>
  simp [Runtime.madeAt, hnext, Nat.count_succ, haddr₀, haddr₁]

/-- The task `1` has been deleted. The task `0`, which waited for it, is in a queue. -/
theorem tasks_deleted_once_joined :
    ∃ ρ, Reachable (CarefulRuntimeStep 2 fun _ ↦ 0) (Runtime.initial 2) ρ ∧
      ρ.world.heap.deleted.count 13 + ρ.world.heap.alive 13 = 1 ∧ ρ.world.heap.counterOf 13 = none ∧
      (ρ.sched.thread 1).runnableQueue = [0] ∧ ρ.world.heap.counterOf 7 ≠ none := by
  obtain ⟨_, _, _, ρ, _, _, hmade₁, -, -, hwaits, -, hmade₂, -, -, -, hjoined, hnext, hdead,
    ⟨hqueue, haddr₀, haddr₁⟩, -⟩ := exists_joined
  have hcareful := JoinRuntimeStep.careful
    (((((Reachable.refl _ _).snoc hmade₁).trans hwaits).snoc hmade₂).trans hjoined)
  obtain ⟨hmade, -, hused, -⟩ := tasks_deleted_once hcareful
  refine ⟨ρ, hcareful, ?_, hdead, hqueue, ?_⟩
  · rw [← hmade, Runtime.madeAt, hnext]
    simp [Nat.count_succ, haddr₀, haddr₁]
  · rw [← haddr₀]
    exact (hused 0 (Or.inl ⟨1, Or.inl (by rw [hqueue]; exact List.mem_singleton_self 0)⟩)).1

/-- The task that waits for itself is what is left. -/
theorem left_at_shutdown_parked :
    ∃ ρ, Reachable (CarefulRuntimeStep 2 fun _ ↦ 0) (Runtime.initial 2) ρ ∧
      (ρ.sched.thread 0).pc = .exited ∧ ρ.world.heap.counterOf 7 ≠ none := by
  obtain ⟨ρ, hrun, hparked, haddr, hexit, hgone⟩ := exists_parked
  have hcareful := JoinRuntimeStep.careful hrun
  exact ⟨ρ, hcareful, hexit, (left_at_shutdown hcareful hexit hgone 7).mpr ⟨0, 0, hparked, haddr⟩⟩

/-- Both tasks have been deleted, the one that waited and the one that it waited for. -/
theorem nothing_leaks_joined :
    ∃ ρ, Reachable (JoinRuntimeStep 2 (fun _ ↦ 0) (· > ·)) (Runtime.initial 2) ρ ∧
      ρ.world.heap.counterOf 7 = none ∧ ρ.world.heap.deleted.count 7 = 1 ∧
      ρ.world.heap.counterOf 13 = none ∧ ρ.world.heap.deleted.count 13 = 1 := by
  obtain ⟨ρ, hrun, hexit, hgone, hmade₀, hmade₁⟩ := runtime_finished
  obtain ⟨hdead₀, hcount₀⟩ := nothing_leaks hrun hexit hgone 7
  obtain ⟨hdead₁, hcount₁⟩ := nothing_leaks hrun hexit hgone 13
  exact ⟨ρ, hrun, hdead₀, hcount₀.trans hmade₀, hdead₁, hcount₁.trans hmade₁⟩

end TYThread
