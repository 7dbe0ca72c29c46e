import TYThread.Pool.Caches
import TYThread.Pool.ReleaseOrder
import TYThread.Runtime.Lifetime

/-!
# Task objects in the object pool

With `ENABLE_OBJECT_POOL`, `Task::operator new` takes an entry from the pool of the thread, the task
is made in it, and when its last owner has gone, `Task::operator delete` gives the entry back
through the pool of the thread that deletes it. Here the runtime and the pools run side by side.

The runtime alone supposes that a new task is made where no task is. This is now for the pool to see
to. The pool in turn supposes that an entry is given back once, after it has been handed out, and
this the reference counts see to.

Between `operator new` and the constructor, and between the destructor and `operator delete`, any
other thread may act, and here so may the same one.
-/

namespace TYThread

open Transition

/-- What an entry is used for that the pool has handed out. -/
inductive EntryUse
  /-- `operator new` has returned it. -/
  | fresh
  /-- There is a task in it. -/
  | object
  /-- The destructor has run. -/
  | dead
deriving DecidableEq, Repr

/-- The runtime and its `TaskPool`. -/
structure Pooled where
  runtime : Runtime
  pool : Mediator
  /-- The entries with `none` belong to the pool. -/
  use : Ptr → Option EntryUse

namespace Pooled

def initial (N : ℕ) (σ₀ : Mediator) : Pooled where
  runtime := Runtime.initial N
  pool := σ₀
  use := fun _ ↦ none

/-- The runtime goes on to `ρ'`. The tasks that are not live any more have been destroyed. -/
def goOn (π : Pooled) (name : Ptr → Addr) (ρ' : Runtime) : Pooled where
  runtime := ρ'
  pool := π.pool
  use := fun ptr ↦
    if π.use ptr = some .object ∧ ρ'.world.heap.counterOf (name ptr) = none then some .dead
    else π.use ptr

end Pooled

/-- A step of the runtime, one of the steps `R`, or one of a pool. The entry `ptr` has the address
`name ptr`. -/
inductive PooledStep (R : Runtime → Label → Runtime → Prop) (L : EntryLayout) (indexFirst : Bool)
    (name : Ptr → Addr) (π : Pooled) : Label ⊕ PoolLabel → Pooled → Prop
  /-- `Task::operator new` in the thread `i`. -/
  | operatorNew {i : ℕ} {ptr : Ptr} {μ : Mediator}
      (alloc : FitStep L indexFirst π.pool (.alloc i ptr) μ) :
      PooledStep R L indexFirst name π (.inr (.alloc i ptr))
        { π with pool := μ, use := Function.update π.use ptr (some .fresh) }
  /-- The constructor, and the handle that `makeRefPtr` returns. -/
  | makeTask {l : Label} {ptr : Ptr} {ρ' : Runtime} (fresh : π.use ptr = some .fresh)
      (step : R π.runtime l ρ') (made : ρ'.sched.next ≠ π.runtime.sched.next)
      (here : ρ'.addr π.runtime.sched.next = name ptr) :
      PooledStep R L indexFirst name π (.inl l)
        { π with runtime := ρ', use := Function.update π.use ptr (some .object) }
  /-- All else that the runtime does. -/
  | run {l : Label} {ρ' : Runtime} (step : R π.runtime l ρ')
      (made : ρ'.sched.next = π.runtime.sched.next) :
      PooledStep R L indexFirst name π (.inl l) (π.goOn name ρ')
  /-- `Task::operator delete` in the thread `i`. -/
  | operatorDelete {i : ℕ} {ptr : Ptr} {μ : Mediator} (dead : π.use ptr = some .dead)
      (release : FitStep L indexFirst π.pool (.release i ptr) μ) :
      PooledStep R L indexFirst name π (.inr (.release i ptr))
        { π with pool := μ, use := Function.update π.use ptr none }
  /-- The task writes to its members, or a call of the pool goes on, or the daemon begins one. -/
  | pool {l : PoolLabel} {μ : Mediator} (step : FitStep L indexFirst π.pool l μ)
      (other : ∀ i ptr, l ≠ .alloc i ptr ∧ l ≠ .release i ptr) :
      PooledStep R L indexFirst name π (.inr l) { π with pool := μ }

/-- The pool has handed out the entries that are in use, and the live tasks are in entries. -/
structure Pooled.Ok (N : ℕ) (owner : ℕ → ℕ) (L : EntryLayout) (cfg : ObjectPoolConfig)
    (name : Ptr → Addr) (π : Pooled) : Prop where
  runtime : π.runtime.Ok N owner
  pool : ∃ place, π.pool.Ok L cfg place
  held : ∀ ptr, π.pool.Held ptr ↔ π.use ptr ≠ none
  object : ∀ ptr, π.use ptr = some .object ↔ π.runtime.world.heap.counterOf (name ptr) ≠ none
  entry : ∀ a, π.runtime.world.heap.counterOf a ≠ none → ∃ ptr, name ptr = a

variable {N : ℕ} {owner : ℕ → ℕ} {R R' : Runtime → Label → Runtime → Prop} {L : EntryLayout}
  {cfg : ObjectPoolConfig} {indexFirst : Bool} {name : Ptr → Addr} {π π' : Pooled} {ρ ρ' : Runtime}
  {σ σ₀ μ : Mediator} {place : Ptr → EntryPlace} {ptr x : Ptr} {a : Addr} {i k : ℕ}

/-! ## What the pool does -/

theorem Mediator.Ok.held_alloc (h : σ.Ok L cfg place) (hcfg : cfg.Ok)
    (hstep : FitStep L indexFirst σ (.alloc i ptr) μ) :
    ¬σ.Held ptr ∧ (μ.Held x ↔ x = ptr ∨ σ.Held x) := by
  obtain ⟨_, -, hmove⟩ := h.step hcfg hstep
  have hdead : ¬σ.live ptr := fun hlive ↦ by
    obtain ⟨j, k, hentry, hplace⟩ := h.place_live hlive
    rw [hmove.wasFree i ptr rfl j k hentry] at hplace
    cases hplace
  have hkept : σ.returning ptr = none := by
    by_contra hne
    obtain ⟨j, hj⟩ := Option.ne_none_iff_exists'.mp hne
    exact hdead (h.returning ptr j hj).1
  refine ⟨fun hheld ↦ hdead hheld.1, ?_⟩
  cases hstep.1 with
  | alloc lt unused run =>
    change ((x = ptr ∨ σ.live x) ∧ σ.returning x = none) ↔ _
    by_cases hx : x = ptr
    · subst hx
      simp [hkept]
    · simp [hx, Mediator.Held]

/-- An entry that has been handed out can be given back through any pool that is not cleaning up. -/
theorem Mediator.Ok.exists_release (h : σ.Ok L cfg place) (hcfg : cfg.Ok) (hi : i < cfg.numOfThread)
    (hheld : σ.Held ptr) (hfree : σ.cleaning i = none) :
    ∃ μ, FitStep L indexFirst σ (.release i ptr) μ := by
  have hdefined : ∃ μ, PoolStep L indexFirst σ (.release i ptr) μ :=
    (h.tracked hcfg).defined.1 i ptr hi hheld.1 hheld.2 hfree
  obtain ⟨μ, hstep⟩ := hdefined
  exact ⟨μ, h.fitStep hcfg hstep fun _ _ heq ↦ by cases heq⟩

/-! ## What the runtime does -/

theorem Runtime.Ok.live_of_live (hρ : ρ.Ok N owner) (h : ρ.Effect ρ')
    (hmade : ρ'.sched.next = ρ.sched.next) (hlive : ρ'.world.heap.counterOf a ≠ none) :
    ρ.world.heap.counterOf a ≠ none := by
  cases h with
  | none heap => rwa [heap] at hlive
  | call step created heap =>
    obtain ⟨xs, hok, -⟩ := hρ.world
    obtain ⟨xs', hstep⟩ := hok.of_step step
    rw [heap] at hlive
    exact fun hnone ↦ hlive ((hstep.deletes.live a).mpr (Or.inl ⟨hnone, by simp [created]⟩))
  | made step next => exact absurd (next.symm.trans hmade) (Nat.succ_ne_self _)

theorem World.makeRefPtr_live {w w' : World} {h : ℕ} {b : Addr}
    (call : World.Step id w (.makeRefPtr h b) w') :
    w'.heap.counterOf a ≠ none ↔ a = b ∨ w.heap.counterOf a ≠ none := by
  have hrun : (w.newObject b).construct h b = some w' := call.2
  have hnew : (w.newObject b).heap.counterOf b = some 0 := by simp [World.newObject, Heap.counterOf]
  obtain ⟨heap, hincrease, -, -, hcounter⟩ := increase_spec hnew
  simp only [World.construct, hincrease, Option.bind_eq_bind, Option.bind_some, Option.pure_def,
    Option.some.injEq] at hrun
  subst hrun
  rw [World.setHandle_heap, hcounter]
  by_cases ha : a = b
  · simp [ha]
  · simp [ha, World.newObject, Heap.counterOf]

theorem Runtime.live_iff_of_made (h : ρ.Effect ρ') (hmade : ρ'.sched.next ≠ ρ.sched.next) :
    ρ'.world.heap.counterOf a ≠ none ↔
      a = ρ'.addr ρ.sched.next ∨ ρ.world.heap.counterOf a ≠ none := by
  cases h with
  | none _ _ next => exact absurd next hmade
  | call _ _ _ _ next => exact absurd next hmade
  | made step next addr =>
    rw [addr, Function.update_self]
    exact World.makeRefPtr_live step

/-! ## Steps -/

theorem Pooled.Ok.initial (hσ : σ₀.Ok L cfg place) (hnothing : ∀ ptr, ¬σ₀.Held ptr) :
    (Pooled.initial N σ₀).Ok N owner L cfg name where
  runtime := .initial N owner
  pool := ⟨place, hσ⟩
  held ptr := iff_of_false (hnothing ptr) fun h ↦ h rfl
  object ptr := iff_of_false (fun h ↦ by cases h) fun h ↦ h rfl
  entry a h := absurd rfl h

/-- **One step** of the runtime or of a pool. -/
theorem Pooled.Ok.step (h : π.Ok N owner L cfg name) (hcfg : cfg.Ok)
    (hname : Function.Injective name) {l : Label ⊕ PoolLabel}
    (hstep : PooledStep (CarefulRuntimeStep N owner) L indexFirst name π l π') :
    π'.Ok N owner L cfg name := by
  obtain ⟨place, hpool⟩ := h.pool
  cases hstep with
  | @operatorNew i ptr μ alloc =>
    obtain ⟨place', hpool', -⟩ := hpool.step hcfg alloc
    obtain ⟨hnew, -⟩ := hpool.held_alloc (x := ptr) hcfg alloc
    have hnobody : π.use ptr = none := not_not.mp ((h.held ptr).not.mp hnew)
    refine ⟨h.runtime, ⟨place', hpool'⟩, fun x ↦ ?_, fun x ↦ ?_, h.entry⟩
    · rw [(hpool.held_alloc hcfg alloc).2, h.held]
      by_cases hx : x = ptr <;> simp [hx]
    · by_cases hx : x = ptr
      · subst hx
        have hno := (h.object x).not.mp (by simp [hnobody])
        simpa using hno
      · simpa [hx] using h.object x
  | @makeTask l ptr ρ' fresh step made here =>
    have heffect := step.step.effect h.runtime step.roomy
    refine ⟨h.runtime.of_step step, h.pool, fun x ↦ ?_, fun x ↦ ?_, fun a ha ↦ ?_⟩
    · rw [h.held]
      by_cases hx : x = ptr <;> simp [hx, fresh]
    · change _ ↔ ρ'.world.heap.counterOf (name x) ≠ none
      rw [Runtime.live_iff_of_made heffect made, here, hname.eq_iff, ← h.object]
      by_cases hx : x = ptr <;> simp [hx]
    · rcases (Runtime.live_iff_of_made heffect made).mp ha with hnew | hlive
      · exact ⟨ptr, here.symm.trans hnew.symm⟩
      · exact h.entry a hlive
  | @run l ρ' step made =>
    have heffect := step.step.effect h.runtime step.roomy
    refine ⟨h.runtime.of_step step, h.pool, fun x ↦ ?_, fun x ↦ ?_, fun a ha ↦ ?_⟩
    · refine (h.held x).trans ?_
      rw [Pooled.goOn]
      dsimp only
      split
      next hdead => simp [hdead.1]
      next => rfl
    · rw [Pooled.goOn]
      dsimp only
      split
      next hdead => simp [hdead.2]
      next hkept =>
        refine ⟨fun hobject hnone ↦ hkept ⟨hobject, hnone⟩, fun hlive ↦ ?_⟩
        exact (h.object x).mpr (h.runtime.live_of_live heffect made hlive)
    · exact h.entry a (h.runtime.live_of_live heffect made ha)
  | @operatorDelete i ptr μ dead release =>
    obtain ⟨place', hpool', -⟩ := hpool.step hcfg release
    refine ⟨h.runtime, ⟨place', hpool'⟩, fun x ↦ ?_, fun x ↦ ?_, h.entry⟩
    · rw [release.1.held (fun _ _ heq ↦ by cases heq), h.held]
      by_cases hx : x = ptr
      · subst hx
        simp
      · simp [hx, Ne.symm hx]
    · by_cases hx : x = ptr
      · subst hx
        have hno := (h.object x).not.mp (by simp [dead])
        simpa using hno
      · simpa [hx] using h.object x
  | @pool l μ step other =>
    obtain ⟨place', hpool', -⟩ := hpool.step hcfg step
    refine ⟨h.runtime, ⟨place', hpool'⟩, fun x ↦ ?_, h.object, h.entry⟩
    rw [step.1.held (fun i ptr ↦ (other i ptr).1), h.held]
    exact and_iff_left fun i ↦ (other i x).2

/-! ## Runs -/

theorem Pooled.Ok.of_initial {arena : ℕ → ℕ} (hcfg : cfg.Ok) (hsize : cfg.poolInitSize < 2 ^ 31)
    (harena : ∀ i < cfg.numOfThread, ∀ i' < cfg.numOfThread, arena i = arena i' → i = i')
    (hinit : Mediator.initial L cfg arena = some σ₀) :
    (Pooled.initial N σ₀).Ok N owner L cfg name := by
  obtain ⟨σ₁, hinit₁, hok⟩ := Mediator.initial_spec (L := L) hcfg hsize harena
  obtain rfl := Option.some.inj (hinit₁.symm.trans hinit)
  refine .initial hok fun ptr hheld ↦ ?_
  obtain ⟨-, -, -, hplace⟩ := hok.place_live hheld.1
  cases hplace

theorem PooledStep.mono {l : Label ⊕ PoolLabel} (hR : ∀ ρ l ρ', R ρ l ρ' → R' ρ l ρ')
    (h : PooledStep R L indexFirst name π l π') : PooledStep R' L indexFirst name π l π' := by
  cases h with
  | operatorNew alloc => exact .operatorNew alloc
  | makeTask fresh step made here => exact .makeTask fresh (hR _ _ _ step) made here
  | run step made => exact .run (hR _ _ _ step) made
  | operatorDelete dead release => exact .operatorDelete dead release
  | pool step other => exact .pool step other

theorem Pooled.reachable_parts
    (hrun : Reachable (PooledStep R L indexFirst name) (Pooled.initial N σ₀) π) :
    Reachable R (Runtime.initial N) π.runtime ∧ Reachable (FitStep L indexFirst) σ₀ π.pool := by
  refine hrun.invariant
    (I := fun π ↦ Reachable R (Runtime.initial N) π.runtime ∧
      Reachable (FitStep L indexFirst) σ₀ π.pool)
    ⟨.refl _ _, .refl _ _⟩ fun π l π' hπ hstep ↦ ?_
  cases hstep with
  | operatorNew alloc => exact ⟨hπ.1, hπ.2.snoc alloc⟩
  | makeTask fresh step => exact ⟨hπ.1.snoc step, hπ.2⟩
  | run step => exact ⟨hπ.1.snoc step, hπ.2⟩
  | operatorDelete dead release => exact ⟨hπ.1, hπ.2.snoc release⟩
  | pool step => exact ⟨hπ.1, hπ.2.snoc step⟩

/-- **Every state that is reached** is in order. -/
theorem Pooled.Ok.of_reachable {arena : ℕ → ℕ} (hcfg : cfg.Ok) (hsize : cfg.poolInitSize < 2 ^ 31)
    (harena : ∀ i < cfg.numOfThread, ∀ i' < cfg.numOfThread, arena i = arena i' → i = i')
    (hinit : Mediator.initial L cfg arena = some σ₀) (hname : Function.Injective name)
    (hR : ∀ ρ l ρ', R ρ l ρ' → CarefulRuntimeStep N owner ρ l ρ')
    (hrun : Reachable (PooledStep R L indexFirst name) (Pooled.initial N σ₀) π) :
    π.Ok N owner L cfg name :=
  hrun.invariant (.of_initial hcfg hsize harena hinit) fun _ _ _ hπ hstep ↦
    hπ.step hcfg hname (hstep.mono hR)

/-- A task can be made in an entry that `operator new` has returned. -/
theorem Pooled.Ok.exists_task (h : π.Ok N owner L cfg name) (isPure : Bool) {n : ℕ} (hi : i < N)
    (hclient : (π.runtime.sched.thread i).pc.Client) (hfresh : π.use ptr = some .fresh)
    (hhandle : π.runtime.world.handles (Holder.other n) = none) (hroomy : π.runtime.Roomy) :
    ∃ π', PooledStep (CarefulRuntimeStep N owner) L indexFirst name π (.inl .other) π' ∧
      π'.use ptr = some .object ∧ (π'.runtime.sched.task π.runtime.sched.next).isPure = isPure := by
  have hnothing : π.runtime.world.heap.counterOf (name ptr) = none := by
    have hno := (h.object ptr).not.mp (by simp [hfresh])
    simpa using hno
  have hobj : π.runtime.world.heap.obj (name ptr) = none := by
    simpa [Heap.counterOf] using hnothing
  have hpre : (Op.makeRefPtr (Holder.other n) (name ptr)).Pre π.runtime.world := ⟨hhandle, hobj⟩
  obtain ⟨w', call⟩ := h.runtime.exists_call hpre
  refine ⟨_, .makeTask hfresh ⟨.newTask isPure hi hclient ⟨hpre, call⟩, trivial, trivial, trivial,
    hroomy⟩ (Nat.succ_ne_self _) (Function.update_self ..), Function.update_self .., ?_⟩
  change (Function.update π.runtime.sched.task π.runtime.sched.next _ _).isPure = isPure
  rw [Function.update_self]

/-- **The pool and the reference counts serve each other.** The runtime and its pools run side by
side. The entries that the pools have handed out are those in use: `operator new` has just returned
them, or they hold a task, or `operator delete` is about to be called. The live tasks are each in an
entry of their own, and whatever a thread or a group has is there. What `my_alloc` returns nobody
uses, and a task can be made there. What holds no task any more can be given back through every pool
that is not cleaning up. -/
theorem pool_serves_tasks {arena : ℕ → ℕ} (ids : cfg.numOfThread ≤ 2 ^ 16)
    (size : 1 ≤ cfg.poolInitSize) (rate : 1 ≤ cfg.enlargeRate)
    (sizeFits : cfg.poolInitSize < 2 ^ 31)
    (arenas : ∀ i < cfg.numOfThread, ∀ i' < cfg.numOfThread, arena i = arena i' → i = i')
    (addresses : Function.Injective name) (hinit : Mediator.initial L cfg arena = some σ₀)
    (hrun : Reachable (PooledStep (CarefulRuntimeStep N owner) L indexFirst name)
      (Pooled.initial N σ₀) π) :
    (∀ ptr, π.pool.Held ptr ↔ π.use ptr ≠ none) ∧
    (∀ a, π.runtime.world.heap.counterOf a ≠ none ↔ ∃ ptr, name ptr = a ∧
      π.use ptr = some .object) ∧
    (∀ t, π.runtime.sched.Used t → ∃ ptr, name ptr = π.runtime.addr t ∧ π.use ptr = some .object) ∧
    (∀ i ptr μ, FitStep L indexFirst π.pool (.alloc i ptr) μ → π.use ptr = none) ∧
    (∀ isPure i n ptr, i < N → (π.runtime.sched.thread i).pc.Client → π.use ptr = some .fresh →
      π.runtime.world.handles (Holder.other n) = none → π.runtime.Roomy →
      ∃ π', PooledStep (CarefulRuntimeStep N owner) L indexFirst name π (.inl .other) π' ∧
        π'.use ptr = some .object ∧ (π'.runtime.sched.task π.runtime.sched.next).isPure = isPure) ∧
    ∀ i ptr, i < cfg.numOfThread → π.use ptr = some .dead → π.pool.cleaning i = none →
      ∃ π', PooledStep (CarefulRuntimeStep N owner) L indexFirst name π (.inr (.release i ptr)) π' ∧
        π'.use ptr = none := by
  have hcfg : cfg.Ok := ⟨ids, size, rate⟩
  have hπ : π.Ok N owner L cfg name := .of_reachable hcfg sizeFits arenas hinit addresses
    (fun _ _ _ h ↦ h) hrun
  obtain ⟨place, hpool⟩ := hπ.pool
  have hlive : ∀ a, π.runtime.world.heap.counterOf a ≠ none →
      ∃ ptr, name ptr = a ∧ π.use ptr = some .object := fun a ha ↦ by
    obtain ⟨ptr, rfl⟩ := hπ.entry a ha
    exact ⟨ptr, rfl, (hπ.object ptr).mpr ha⟩
  refine ⟨hπ.held, fun a ↦ ⟨hlive a, ?_⟩, fun t ht ↦ hlive _ (hπ.runtime.live ht),
    fun i ptr μ halloc ↦ ?_,
    fun isPure i n ptr hi hclient hfresh ↦ hπ.exists_task isPure hi hclient hfresh,
    fun i ptr hi hdead hfree ↦ ?_⟩
  · rintro ⟨ptr, rfl, hobject⟩
    exact (hπ.object ptr).mp hobject
  · exact not_not.mp ((hπ.held ptr).not.mp (hpool.held_alloc (x := ptr) hcfg halloc).1)
  · obtain ⟨μ, hrelease⟩ := hpool.exists_release hcfg hi ((hπ.held ptr).mpr (by simp [hdead])) hfree
    exact ⟨_, .operatorDelete hdead hrelease, Function.update_self ..⟩

/-! ## The end -/

/-- A pool from which nothing is live and nothing is cached is down to its first layer. -/
theorem Mediator.Ok.all_free (h : σ.Ok L cfg place) (hlive : ∀ ptr, ¬σ.live ptr)
    (hcleaned : ∀ q < cfg.numOfThread, σ.cleaning q = none ∧ (σ.pools q).totalCached = 0)
    (hi : i < cfg.numOfThread) :
    (σ.pools i).currentLayer = 0 ∧ (∀ k ≠ 0, (σ.pools i).layers k = none) ∧
      ∃ ly, (σ.pools i).layers 0 = some ly ∧ ly.arenaCap = cfg.poolInitSize ∧ ly.used = 0 ∧
        ly.freeEntries σ.mem = {ptr | ly.Has L ptr} := by
  have hstack := h.stack i hi
  have hfree : ∀ k ptr, EntryOf L σ.pools i k ptr → place ptr = .free := fun k ptr hentry ↦ by
    cases hplace : place ptr with
    | free => rfl
    | live => exact absurd ((h.live ptr).mpr ⟨i, k, hentry, hplace⟩) (hlive ptr)
    | cached q =>
      obtain ⟨hq, hzero⟩ := hcleaned q (h.core.foreign i k ptr q hentry hplace).2
      have hempty := h.total q hq hzero i k
      obtain ⟨xs, hxs, hmem⟩ := h.core.mem_cacheEntries.mpr ⟨hentry, hplace⟩
      rw [hempty] at hxs
      rw [CacheHolds.eq_nil hxs] at hmem
      cases hmem
  have hunused : ∀ k ly, (σ.pools i).layers k = some ly → ly.used = 0 := fun k ly hly ↦ by
    have hempty : {ptr | ly.Has L ptr ∧ place ptr ≠ .free} = ∅ :=
      Set.eq_empty_of_forall_notMem fun ptr hptr ↦ hptr.2 (hfree k ptr ⟨ly, hly, hptr.1⟩)
    rw [h.core.used_eq hly, hempty, Set.ncard_empty]
  have hfirst : (σ.pools i).currentLayer = 0 := by
    rcases h.top i hi with hzero | ⟨ly, hly, hused⟩
    · exact hzero
    · rw [hunused _ ly hly] at hused
      exact absurd hused (Nat.lt_irrefl 0)
  obtain ⟨ly, hly⟩ := hstack.present 0 (Nat.zero_le _)
  refine ⟨hfirst, fun k hk ↦ hstack.absent k (by omega), ly, hly, ?_, hunused 0 ly hly, ?_⟩
  · rw [hstack.cap 0 ly hly, ObjectPoolConfig.layerSize, Nat.pow_zero, Nat.mul_one]
  · ext ptr
    rw [h.core.mem_freeEntries hly]
    exact ⟨fun h ↦ h.1, fun h ↦ ⟨h, hfree 0 ptr ⟨ly, hly, h⟩⟩⟩

/-- **The pools get everything back.** The main thread of a program that joins its tasks has left
`run`, the program has given up its handles, and no `new`, `delete` or `my_release` is going on.
Then nothing is live in the pools, and once they have cleaned up, each is down to its first layer
and has all its entries. -/
theorem entries_come_back {r : ℕ → ℕ → Prop} [IsStrictOrder ℕ r] {arena : ℕ → ℕ}
    (ids : cfg.numOfThread ≤ 2 ^ 16) (size : 1 ≤ cfg.poolInitSize) (rate : 1 ≤ cfg.enlargeRate)
    (sizeFits : cfg.poolInitSize < 2 ^ 31)
    (arenas : ∀ i < cfg.numOfThread, ∀ i' < cfg.numOfThread, arena i = arena i' → i = i')
    (addresses : Function.Injective name) (hinit : Mediator.initial L cfg arena = some σ₀)
    (hrun : Reachable (PooledStep (JoinRuntimeStep N owner r) L indexFirst name)
      (Pooled.initial N σ₀) π)
    (hexit : (π.runtime.sched.thread 0).pc = .exited)
    (hgone : ∀ n a, π.runtime.world.handles (Holder.other n) ≠ some (some a))
    (hnew : ∀ ptr, π.use ptr ≠ some .fresh) (hdelete : ∀ ptr, π.use ptr ≠ some .dead)
    (hreturned : ∀ ptr, π.pool.returning ptr = none) :
    (∀ ptr, ¬π.pool.live ptr) ∧
    ((∀ q < cfg.numOfThread, π.pool.cleaning q = none ∧ (π.pool.pools q).totalCached = 0) →
      ∀ i < cfg.numOfThread, (π.pool.pools i).currentLayer = 0 ∧
        (∀ k ≠ 0, (π.pool.pools i).layers k = none) ∧
        ∃ ly, (π.pool.pools i).layers 0 = some ly ∧ ly.arenaCap = cfg.poolInitSize ∧ ly.used = 0 ∧
          ly.freeEntries π.pool.mem = {ptr | ly.Has L ptr}) := by
  have hπ : π.Ok N owner L cfg name :=
    .of_reachable ⟨ids, size, rate⟩ sizeFits arenas hinit addresses (fun _ _ _ h ↦ h.1) hrun
  obtain ⟨place, hpool⟩ := hπ.pool
  have hnothing := Runtime.nothing_live (Pooled.reachable_parts hrun).1 hexit hgone
  have hlive : ∀ ptr, ¬π.pool.live ptr := fun ptr hptr ↦ by
    have huse := (hπ.held ptr).mp ⟨hptr, hreturned ptr⟩
    cases hcase : π.use ptr with
    | none => exact huse hcase
    | some u =>
      cases u with
      | fresh => exact hnew ptr hcase
      | object => exact (hπ.object ptr).mp hcase (hnothing _)
      | dead => exact hdelete ptr hcase
  exact ⟨hlive, fun hcleaned i hi ↦ hpool.all_free hlive hcleaned hi⟩

/-! ## A run -/

theorem Step.next_le {σ σ' : Sched} {l : Label} (h : Step N σ l σ') : σ.next ≤ σ'.next := by
  cases h <;> first | exact Nat.le_refl _ | exact Nat.le_succ _

theorem RuntimeStep.next_le {l : Label} (h : RuntimeStep N ρ l ρ') :
    ρ.sched.next ≤ ρ'.sched.next := by
  rcases h.sched with hsched | ⟨-, hsame⟩
  · exact hsched.next_le
  · rw [hsame]

variable (L indexFirst name) in
/-- The runtime may go on for a while in which no task is made. -/
theorem Pooled.exists_run (hR : ∀ ρ l ρ', R ρ l ρ' → RuntimeStep N ρ l ρ') {ls : List Label}
    (hrun : Run R π.runtime ls ρ) (hnext : ρ.sched.next = π.runtime.sched.next) :
    ∃ π', Reachable (PooledStep R L indexFirst name) π π' ∧ π'.runtime = ρ ∧ π'.pool = π.pool ∧
      ∀ ptr, π'.use ptr = π.use ptr ∨ π.use ptr = some .object ∧ π'.use ptr = some .dead := by
  induction hrun with
  | refl => exact ⟨π, .refl _ _, rfl, rfl, fun _ ↦ Or.inl rfl⟩
  | @snoc ls τ υ l prev last ih =>
    have hfirst : π.runtime.sched.next ≤ τ.sched.next :=
      prev.invariant (I := fun τ ↦ π.runtime.sched.next ≤ τ.sched.next) (Nat.le_refl _)
        fun _ _ _ hle hstep ↦ hle.trans (hR _ _ _ hstep).next_le
    have hlast := (hR _ _ _ last).next_le
    obtain ⟨π', hreach, rfl, hpool, huse⟩ := ih (by omega)
    refine ⟨π'.goOn name υ, hreach.snoc (.run last (by omega)), rfl, hpool, fun ptr ↦ ?_⟩
    rw [Pooled.goOn]
    dsimp only
    split
    next hdead =>
      refine Or.inr ⟨?_, rfl⟩
      rcases huse ptr with hsame | ⟨hobject, -⟩
      · exact hsame.symm.trans hdead.1
      · exact hobject
    next => exact huse ptr

variable (name) in
theorem Pooled.exists_made {l : Label} (halloc : FitStep L indexFirst π.pool (.alloc i ptr) μ)
    (hmade : R π.runtime l ρ) (hnext : ρ.sched.next ≠ π.runtime.sched.next)
    (haddr : ρ.addr π.runtime.sched.next = name ptr) :
    ∃ π', Reachable (PooledStep R L indexFirst name) π π' ∧ π'.runtime = ρ ∧ π'.pool = μ ∧
      π'.use = Function.update π.use ptr (some .object) := by
  have hnew := (Reachable.refl (PooledStep R L indexFirst name) π).snoc (.operatorNew halloc)
  exact ⟨_, hnew.snoc (.makeTask (Function.update_self ..) hmade hnext haddr), rfl, rfl,
    Function.update_idem ..⟩

variable (L indexFirst name) in
/-- The pools may go on for a while in which nothing is handed out or given back. -/
theorem Pooled.exists_poolRun {ls : List PoolLabel} (hrun : Run (FitStep L indexFirst) π.pool ls μ)
    (hother : ∀ i ptr, .alloc i ptr ∉ ls ∧ .release i ptr ∉ ls) :
    Reachable (PooledStep R L indexFirst name) π { π with pool := μ } := by
  induction hrun with
  | refl => exact .refl _ _
  | snoc _ last ih =>
    simp only [List.mem_append, List.mem_singleton, not_or] at hother
    exact (ih fun i ptr ↦ ⟨(hother i ptr).1.1, (hother i ptr).2.1⟩).snoc (.pool last fun i ptr ↦
      ⟨Ne.symm (hother i ptr).1.2, Ne.symm (hother i ptr).2.2⟩)

theorem Mediator.Ok.fitRun (h : σ.Ok L cfg place) (hcfg : cfg.Ok) {ls : List PoolLabel}
    (hrun : Run (PoolStep L indexFirst) σ ls μ) (hne : ∀ i ptr, .alloc i ptr ∉ ls) :
    Run (FitStep L indexFirst) σ ls μ := by
  induction hrun with
  | refl => exact .refl
  | @snoc ls τ υ l prev last ih =>
    simp only [List.mem_append, List.mem_singleton, not_or] at hne
    obtain ⟨⟨place', hok⟩, -⟩ := h.run hcfg prev fun i ptr ↦ (hne i ptr).1
    exact (ih fun i ptr ↦ (hne i ptr).1).snoc (hok.fitStep hcfg last fun i ptr heq ↦
      absurd heq.symm (hne i ptr).2)

/-- Two entries of pool `0` are handed out and released through pool `1`, and the pools clean up. -/
theorem twoPools_served : ∃ σ₀ μ₁ μ₂ μ₃ μ₄ ls μ,
    Mediator.initial wordLayout twoPools (fun i ↦ i) = some σ₀ ∧
    FitStep wordLayout false σ₀ (.alloc 0 ⟨0, 0⟩) μ₁ ∧
    FitStep wordLayout false μ₁ (.alloc 0 ⟨2, 0⟩) μ₂ ∧
    FitStep wordLayout false μ₂ (.release 1 ⟨2, 0⟩) μ₃ ∧
    FitStep wordLayout false μ₃ (.release 1 ⟨0, 0⟩) μ₄ ∧ (μ₄.pools 0).currentLayer = 1 ∧
    Run (FitStep wordLayout false) μ₄ ls μ ∧ (∀ i ptr, .alloc i ptr ∉ ls ∧ .release i ptr ∉ ls) ∧
    (∀ ptr, μ.returning ptr = none) ∧ ∀ q < 2, μ.cleaning q = none ∧
    (μ.pools q).totalCached = 0 := by
  obtain ⟨σ₀, μ₁, μ₂, μ₃, μ₄, μ₅, μ₆, hinit, h₁, h₂, h₃, h₄, h₅, h₆, f₁, f₂, hlayer, hreturning,
      hcleaning⟩ : ∃ σ₀ μ₁ μ₂ μ₃ μ₄ μ₅ μ₆,
      Mediator.initial wordLayout twoPools (fun i ↦ i) = some σ₀ ∧
      PoolStep wordLayout false σ₀ (.alloc 0 ⟨0, 0⟩) μ₁ ∧
      PoolStep wordLayout false μ₁ (.alloc 0 ⟨2, 0⟩) μ₂ ∧
      PoolStep wordLayout false μ₂ (.release 1 ⟨2, 0⟩) μ₃ ∧
      PoolStep wordLayout false μ₃ (.release 1 ⟨0, 0⟩) μ₄ ∧
      PoolStep wordLayout false μ₄ (.period 0) μ₅ ∧ PoolStep wordLayout false μ₅ (.period 1) μ₆ ∧
      μ₁.SizesFit ∧ μ₂.SizesFit ∧ (μ₄.pools 0).currentLayer = 1 ∧
      (∀ ptr, μ₆.returning ptr = none) ∧ μ₆.cleaning 0 = none := by
    refine ⟨_, _, _, _, _, _, _, rfl,
      @PoolStep.of_myAlloc wordLayout false _ _ 0 none _ (Option.some_get (by decide)).symm
        (by decide) (by decide) (fun _ h ↦ by cases h),
      @PoolStep.of_myAlloc wordLayout false _ _ 0 (some 2) _ (Option.some_get (by decide)).symm
        (by decide) (by decide) (fun a ha i k ly hly heq ↦ ?_),
      @PoolStep.releaseForeign wordLayout false _ 1 _ _ _ _ (by decide) (Or.inl rfl)
        (by decide) (by decide) (Option.some_get (by decide)).symm (by decide)
        (Option.some_get (by decide)).symm,
      @PoolStep.releaseForeign wordLayout false _ 1 _ _ _ _ (by decide)
        ⟨by decide, Or.inr (Or.inl rfl)⟩ (by decide) (by decide) (Option.some_get (by decide)).symm
        (by decide) (Option.some_get (by decide)).symm,
      @PoolStep.period wordLayout false _ 0 (by decide) (by decide),
      @PoolStep.period wordLayout false _ 1 (by decide) (by decide),
      .of_two (by decide) (by decide) fun _ ↦ rfl, .of_two (by decide) (by decide) fun _ ↦ rfl,
      by decide, fun _ ↦ rfl, by decide⟩
    cases ha
    rcases i with _ | _ | i <;> rcases k with _ | k <;> cases hly <;> cases heq
  have hcfg : twoPools.Ok := ⟨by decide, by decide, by decide⟩
  have harenas : ∀ i < twoPools.numOfThread, ∀ j < twoPools.numOfThread, i = j → i = j :=
    fun i _ j _ h ↦ h
  obtain ⟨place₂, hok₂⟩ := reachable_ok hcfg (by decide) harenas hinit
    (((Reachable.refl _ _).snoc ⟨h₁, f₁⟩).snoc ⟨h₂, f₂⟩)
  have g₃ := hok₂.fitStep hcfg h₃ fun _ _ heq ↦ by cases heq
  obtain ⟨place₃, hok₃, -⟩ := hok₂.step hcfg g₃
  have g₄ := hok₃.fitStep hcfg h₄ fun _ _ heq ↦ by cases heq
  obtain ⟨place₄, hok₄, -⟩ := hok₃.step hcfg g₄
  have hperiods : Run (PoolStep wordLayout false) μ₄ _ μ₆ := (Run.refl.snoc h₅).snoc h₆
  obtain ⟨⟨place₆, hok₆⟩, -⟩ := hok₄.run hcfg hperiods fun _ _ ↦ by simp
  -- The cleanup of pool `1` goes on to its end.
  obtain ⟨ls, μ, hls, hother, hreturned, hdone, hrest⟩ :=
    (hok₆.tracked hcfg).exists_cleaned false 1
  have hnot : ∀ l : PoolLabel, l ≠ .other → l ∉ ls := fun l hne hl ↦ hne (hother l hl)
  have hne : ∀ i ptr, .alloc i ptr ∉ [] ++ [PoolLabel.period 0] ++ [.period 1] ++ ls ∧
      .release i ptr ∉ [] ++ [PoolLabel.period 0] ++ [.period 1] ++ ls := fun i ptr ↦ by simp [hnot]
  have hruns := hperiods.trans hls
  refine ⟨σ₀, μ₁, μ₂, μ₃, μ₄, _, μ, hinit, ⟨h₁, f₁⟩, ⟨h₂, f₂⟩, g₃, g₄, hlayer,
    hok₄.fitRun hcfg hruns fun i ptr ↦ (hne i ptr).1, hne, fun ptr ↦ by rw [hreturned, hreturning],
    fun q hq ↦ ?_⟩
  have hnone : μ.cleaning q = none := by
    by_cases hone : q = 1
    · rw [hone, hdone]
    · rw [hrest q hone, show q = 0 by omega, hcleaning]
  refine ⟨hnone, hok₄.run_settled hcfg hruns hne ?_ hnone⟩
  have hcases : q = 0 ∨ q = 1 := by omega
  rcases hcases with rfl | rfl <;> simp

/-- The addresses of the entries. -/
def entryAddr (ptr : Ptr) : Addr := Nat.pair ptr.arena ptr.offset + 7

theorem entryAddr_injective : Function.Injective entryAddr := fun p q h ↦ by
  have hpair : Nat.pair p.arena p.offset = Nat.pair q.arena q.offset :=
    Nat.succ_injective.iterate 7 h
  obtain ⟨harena, hoffset⟩ := Nat.pair_eq_pair.mp hpair
  cases p
  cases q
  congr

/-- The task `0` is made in the first entry of pool `0`, and the task `1`, for which it waits, in an
entry of the next layer. The thread `1` deletes both, and its pool hands the entries back. The
threads leave. -/
theorem pooled_finished : ∃ σ₀ π₁ π, Mediator.initial wordLayout twoPools (fun i ↦ i) = some σ₀ ∧
    Reachable (PooledStep (JoinRuntimeStep 2 (fun _ ↦ 0) (· > ·)) wordLayout false entryAddr)
      (Pooled.initial 2 σ₀) π₁ ∧ π₁.use ⟨0, 0⟩ = some .object ∧ π₁.use ⟨2, 0⟩ = some .object ∧
    Reachable (PooledStep (JoinRuntimeStep 2 (fun _ ↦ 0) (· > ·)) wordLayout false entryAddr)
      π₁ π ∧ (π.runtime.sched.thread 0).pc = .exited ∧
    (∀ n a, π.runtime.world.handles (Holder.other n) ≠ some (some a)) ∧ (∀ ptr, π.use ptr = none) ∧
    (∀ ptr, π.pool.returning ptr = none) ∧
    ∀ q < 2, π.pool.cleaning q = none ∧ (π.pool.pools q).totalCached = 0 := by
  obtain ⟨σ₀, μ₁, μ₂, μ₃, μ₄, ls, μ, hinit, halloc₁, halloc₂, hrelease₂, hrelease₁, -, hcleanup,
    hother, hreturning, hcleaned⟩ := twoPools_served
  obtain ⟨ρ₁, ρ₂, ρ₃, ρ₄, ρ₅, ρ, hmade₁, hnext₁, haddr₁, ⟨_, hwaits⟩, hnext₂, hmade₂, hnext₃,
    haddr₂, hlive,
    ⟨_, hjoined⟩, -, -, -, ⟨_, hback⟩, hnext₅, hdead₁, hdead₂, ⟨_, hleft⟩, hnext, -, -, hpc,
    hgone⟩ :=
    exists_joined
  have hstep : ∀ ρ l ρ', JoinRuntimeStep 2 (fun _ ↦ 0) (· > ·) ρ l ρ' → RuntimeStep 2 ρ l ρ' :=
    fun _ _ _ h ↦ h.1.step
  have hok : ∀ {π : Pooled},
      Reachable (PooledStep (JoinRuntimeStep 2 (fun _ ↦ 0) (· > ·)) wordLayout false entryAddr)
        (Pooled.initial 2 σ₀) π →
      π.Ok 2 (fun _ ↦ 0) wordLayout twoPools entryAddr :=
    fun hrun ↦ .of_reachable ⟨by decide, by decide, by decide⟩ (by decide)
      (fun _ _ _ _ h ↦ h) hinit entryAddr_injective (fun _ _ _ h ↦ h.1) hrun
  have hne : (⟨2, 0⟩ : Ptr) ≠ ⟨0, 0⟩ := by decide
  -- The two tasks are made.
  obtain ⟨π₁, hrun₁, rfl, rfl, huse₁⟩ := Pooled.exists_made entryAddr (π := .initial 2 σ₀)
    halloc₁ hmade₁ (hnext₁.trans_ne Nat.one_ne_zero) haddr₁
  obtain ⟨π₂, hrun₂, rfl, hpool₂, huse₂⟩ := Pooled.exists_run wordLayout false entryAddr hstep
    hwaits (hnext₂.trans hnext₁.symm)
  rw [← hpool₂] at halloc₂
  obtain ⟨π₃, hrun₃, rfl, rfl, huse₃⟩ := Pooled.exists_made entryAddr halloc₂ hmade₂
    (by rw [hnext₃, hnext₂]; decide) (by rw [hnext₂, haddr₂]; decide)
  replace hrun₃ := (hrun₁.trans hrun₂).trans hrun₃
  have hsecond : π₃.use ⟨2, 0⟩ = some .object := by rw [huse₃, Function.update_self]
  have hobject : π₃.use ⟨0, 0⟩ = some .object := ((hok hrun₃).object ⟨0, 0⟩).mpr hlive
  have hnone₃ : ∀ ptr, ptr ≠ ⟨0, 0⟩ → ptr ≠ ⟨2, 0⟩ → π₃.use ptr = none := fun ptr h₁ h₂ ↦ by
    have hnone₁ : π₁.use ptr = none := by
      rw [huse₁, Function.update_of_ne h₁]
      rfl
    rw [huse₃, Function.update_of_ne h₂]
    rcases huse₂ ptr with hsame | ⟨hobj, -⟩
    · exact hsame.trans hnone₁
    · cases hnone₁.symm.trans hobj
  -- Both have been destroyed, and the entries are given back.
  obtain ⟨π₅, hrun₅, rfl, hpool₅, huse₅⟩ := Pooled.exists_run wordLayout false entryAddr hstep
    (hjoined.trans hback) (hnext₅.trans hnext₃.symm)
  have hdestroyed : ∀ ptr, π₃.use ptr = some .object →
      π₅.runtime.world.heap.counterOf (entryAddr ptr) = none → π₅.use ptr = some .dead := by
    intro ptr hptr hdead
    rcases huse₅ ptr with hsame | ⟨-, hdestroyed⟩
    · exact absurd hdead (((hok (hrun₃.trans hrun₅)).object ptr).mp (hsame.trans hptr))
    · exact hdestroyed
  rw [← hpool₅] at hrelease₂
  have hfirst : Function.update π₅.use ⟨2, 0⟩ none ⟨0, 0⟩ = some .dead := by
    rw [Function.update_of_ne hne.symm, hdestroyed _ hobject hdead₁]
  have hgiven := ((Reachable.refl
    (PooledStep (JoinRuntimeStep 2 (fun _ ↦ 0) (· > ·)) wordLayout false entryAddr) π₅).snoc
      (.operatorDelete (hdestroyed _ hsecond hdead₂) hrelease₂)).snoc
      (.operatorDelete hfirst hrelease₁)
  have hrun₆ := hgiven.trans (Pooled.exists_poolRun wordLayout false entryAddr hcleanup hother)
  have huse₆ : ∀ ptr, Function.update (Function.update π₅.use ⟨2, 0⟩ none) ⟨0, 0⟩ none ptr =
      none := by
    intro ptr
    by_cases h₁ : ptr = ⟨0, 0⟩
    · rw [h₁, Function.update_self]
    · rw [Function.update_of_ne h₁]
      by_cases h₂ : ptr = ⟨2, 0⟩
      · rw [h₂, Function.update_self]
      · rw [Function.update_of_ne h₂]
        rcases huse₅ ptr with hsame | ⟨hobj, -⟩
        · exact hsame.trans (hnone₃ ptr h₁ h₂)
        · cases (hnone₃ ptr h₁ h₂).symm.trans hobj
  -- The threads leave.
  obtain ⟨π, hrun, rfl, hpool, huse⟩ := Pooled.exists_run wordLayout false entryAddr hstep
    (π := ⟨π₅.runtime, μ, _⟩) hleft (hnext.trans hnext₅.symm)
  refine ⟨σ₀, π₃, π, hinit, hrun₃, hobject, hsecond, (hrun₅.trans hrun₆).trans hrun, hpc, hgone,
    fun ptr ↦ ?_, ?_, ?_⟩
  · rcases huse ptr with hsame | ⟨hobj, -⟩
    · exact hsame.trans (huse₆ ptr)
    · cases (huse₆ ptr).symm.trans hobj
  · rwa [hpool]
  · rwa [hpool]

/-- Both tasks are in entries. -/
theorem pool_serves_tasks_joined :
    ∃ σ₀ π, Mediator.initial wordLayout twoPools (fun i ↦ i) = some σ₀ ∧
    Reachable (PooledStep (CarefulRuntimeStep 2 fun _ ↦ 0) wordLayout false entryAddr)
      (Pooled.initial 2 σ₀) π ∧ π.pool.Held ⟨0, 0⟩ ∧ π.runtime.world.heap.counterOf 7 ≠ none ∧
      π.pool.Held ⟨2, 0⟩ ∧ π.runtime.world.heap.counterOf 13 ≠ none := by
  obtain ⟨σ₀, π, -, hinit, ⟨ls, hrun⟩, huse₁, huse₂, -⟩ := pooled_finished
  have hcareful : Reachable (PooledStep (CarefulRuntimeStep 2 fun _ ↦ 0) wordLayout false entryAddr)
      (Pooled.initial 2 σ₀) π :=
    ⟨ls, (hrun.mono (I := fun _ ↦ True) trivial
      fun _ _ _ _ h ↦ ⟨h.mono fun _ _ _ h ↦ h.1, trivial⟩).1⟩
  obtain ⟨hheld, hlive, -⟩ := pool_serves_tasks (by decide) (by decide) (by decide) (by decide)
    (fun i _ j _ h ↦ h) entryAddr_injective hinit hcareful
  exact ⟨σ₀, π, hinit, hcareful, (hheld _).mpr (by simp [huse₁]),
    (hlive 7).mpr ⟨⟨0, 0⟩, rfl, huse₁⟩,
    (hheld _).mpr (by simp [huse₂]), (hlive 13).mpr ⟨⟨2, 0⟩, by decide, huse₂⟩⟩

/-- Both entries are back, and the second layer of pool `0` is gone. -/
theorem entries_come_back_joined :
    ∃ σ₀ π, Mediator.initial wordLayout twoPools (fun i ↦ i) = some σ₀ ∧
    Reachable (PooledStep (JoinRuntimeStep 2 (fun _ ↦ 0) (· > ·)) wordLayout false entryAddr)
      (Pooled.initial 2 σ₀) π ∧ (∀ ptr, ¬π.pool.live ptr) ∧ (π.pool.pools 0).currentLayer = 0 := by
  obtain ⟨σ₀, π₁, π, hinit, hrun₁, -, -, hrun, hexit, hgone, huse, hreturned, hcleaned⟩ :=
    pooled_finished
  obtain ⟨hlive, hfirst⟩ := entries_come_back (by decide) (by decide) (by decide) (by decide)
    (fun i _ j _ h ↦ h) entryAddr_injective hinit (hrun₁.trans hrun) hexit hgone
    (fun ptr ↦ by simp [huse]) (fun ptr ↦ by simp [huse]) hreturned
  exact ⟨σ₀, π, hinit, hrun₁.trans hrun, hlive, (hfirst hcleaned 0 (by decide)).1⟩

end TYThread
