import TYThread.Runtime.Invariant

/-!
# Every step of the runtime keeps the invariant

A step changes one thread, apart from a theft, which also takes tasks from the queue of its victim.
A call sets at most two of the handles that the scheduler relies on, and they belong to this thread
or to the group that it has locked.
-/

namespace TYThread

open Counting Transition

/-- The thread that a handle belongs to. -/
def Holder.thread : Holder → Option ℕ
  | ptr i => some i
  | entry i _ => some i
  | nowCanRun i => some i
  | blockedTask _ => none
  | other _ => none

/-- The scheduler and the world have changed. -/
def Runtime.after (ρ : Runtime) (σ' : Sched) (w' : World) : Runtime :=
  { ρ with sched := σ', world := w' }

@[simp] theorem Runtime.after_sched (ρ : Runtime) (σ' : Sched) (w' : World) :
    (ρ.after σ' w').sched = σ' := rfl
@[simp] theorem Runtime.after_addr (ρ : Runtime) (σ' : Sched) (w' : World) :
    (ρ.after σ' w').addr = ρ.addr := rfl

variable {N : ℕ} {owner : ℕ → ℕ} {ρ ρ' : Runtime} {σ' : Sched} {w' : World} {i j g t u : ℕ}
  {l : Label} {m : PerThreadMgr}

namespace Pc

variable {pc pc' : Pc} {p : Option ℕ}

@[simp] theorem ptr_afterTask : (afterTask p).ptr = none := by cases p <;> rfl
@[simp] theorem installing_afterTask : (afterTask p).installing = none := by cases p <;> rfl

theorem nowCanRun_afterTask {addr : ℕ → Addr} {v : Option (Option Addr)} :
    (afterTask p).NowCanRun addr v ↔ v = none := by cases p <;> rfl

theorem mem_stolen : t ∈ pc.stolen ↔ ∃ xs, pc.installing = some xs ∧ t ∈ xs := by
  cases pc <;> simp [stolen, installing]

theorem mem_informing {w : ℕ} : w ∈ pc.informing ↔
    ∃ c p g rest, pc = .task c p (.inform g rest (.enqueue w)) := by
  constructor
  · intro h
    cases pc with
    | task c p act =>
      cases act with
      | inform g rest phase =>
        cases phase with
        | enqueue w' => exact ⟨c, p, g, rest, by rw [List.mem_singleton.mp h]⟩
        | _ => exact absurd h List.not_mem_nil
      | _ => exact absurd h List.not_mem_nil
    | _ => exact absurd h List.not_mem_nil
  · rintro ⟨c, p, g, rest, rfl⟩
    exact List.mem_singleton_self w

theorem exists_nowCanRun (pc : Pc) :
    (∃ w ∈ pc.informing, ∀ addr, pc.NowCanRun addr (some (some (addr w)))) ∨
      (pc.informing = [] ∧ ∃ v : Option (Option Addr), v.join = none ∧
        ∀ addr, pc.NowCanRun addr v) := by
  cases pc with
  | task c p act =>
    cases act with
    | inform g rest phase =>
      cases phase with
      | enqueue w => exact Or.inl ⟨w, List.mem_singleton_self w, fun _ ↦ rfl⟩
      | decrement | take => exact Or.inr ⟨rfl, some none, rfl, fun _ ↦ rfl⟩
      | unlock => exact Or.inr ⟨rfl, some none, rfl, fun _ ↦ Option.some_ne_none _⟩
    | _ => exact Or.inr ⟨rfl, none, rfl, fun _ ↦ rfl⟩
  | _ => exact Or.inr ⟨rfl, none, rfl, fun _ ↦ rfl⟩

theorem Keeps.informing (h : pc.Keeps pc') {w : ℕ} (hw : w ∈ pc'.informing) : w ∈ pc.informing := by
  obtain ⟨c, p, g, rest, rfl⟩ := mem_informing.mp hw
  rcases exists_nowCanRun pc with ⟨w', hw', hv⟩ | ⟨-, v, hjoin, hv⟩
  · have heq : some (some w') = some (some w) := h.nowCanRun id _ (hv id)
    rwa [← Option.some.inj (Option.some.inj heq)]
  · have heq : v = some (some w) := h.nowCanRun id _ (hv id)
    rw [heq] at hjoin
    cases hjoin

end Pc

namespace Runtime

/-! ## Queues -/

theorem Ok.call (hρ : ρ.Ok N owner) {op : Op} (hpre : op.Pre ρ.world)
    (call : op.exec id ρ.world = some w') :
    ∃ xs, w'.Ok xs ∧ SplitQueue.Step (ρ.queues N) (op.label ρ.world w') (w'.queues xs) := by
  obtain ⟨xs, hok, hqueues⟩ := hρ.world
  obtain ⟨xs', hstep⟩ := hok.of_step ⟨hpre, call⟩
  exact ⟨xs', hstep.ok, hqueues ▸ hstep.queue⟩

theorem Ok.call_other (hρ : ρ.Ok N owner) {op : Op} (hpre : op.Pre ρ.world)
    (call : op.exec id ρ.world = some w') (hlabel : op.label ρ.world w' = .other) :
    ∃ xs, w'.Ok xs ∧ w'.queues xs = ρ.queues N := by
  obtain ⟨xs, hok, hstep⟩ := hρ.call hpre call
  rw [hlabel] at hstep
  exact ⟨xs, hok, hstep.of_other⟩

theorem queues_congr
    (hqueue : ∀ j, (σ'.thread j).runnableQueue = (ρ.sched.thread j).runnableQueue)
    (hinst : ∀ j, (σ'.thread j).pc.installing = (ρ.sched.thread j).pc.installing) :
    ρ.queues N = (ρ.after σ' w').queues N := by
  funext l
  simp only [queues, after_sched, after_addr, hqueue, hinst]

theorem queues_same (hthread : σ'.thread = Function.update ρ.sched.thread i m)
    (hqueue : m.runnableQueue = (ρ.sched.thread i).runnableQueue)
    (hinst : m.pc.installing = (ρ.sched.thread i).pc.installing) :
    ρ.queues N = (ρ.after σ' w').queues N := by
  refine queues_congr (fun j ↦ ?_) fun j ↦ ?_ <;> rw [hthread]
  · exact apply_update_eq PerThreadMgr.runnableQueue hqueue j
  · exact apply_update_eq (fun m : PerThreadMgr ↦ m.pc.installing) hinst j

theorem queues_update (hthread : σ'.thread = Function.update ρ.sched.thread i m) (hi : i < N)
    (hinst : m.pc.installing = (ρ.sched.thread i).pc.installing) :
    Function.update (ρ.queues N) (ListName.runnableQueue i) (some (m.runnableQueue.map ρ.addr))
      = (ρ.after σ' w').queues N := by
  refine eq_queues fun x ↦ ?_
  simp only [Function.update_apply, ListName.name_inj]
  cases x with
  | runnableQueue j =>
    by_cases hj : j = i
    · simp [hj, hi, hthread]
    · simp [hj, hthread]
  | skiplistptr j =>
    have hsame := apply_update_eq (fun m : PerThreadMgr ↦ m.pc.installing) hinst j
    simp [hthread, hsame]

/-! ## Handles -/

theorem Ok.of_update (hρ : ρ.Ok N owner) (htidy : σ'.Tidy N owner) (hnext : σ'.next = ρ.sched.next)
    (hthread : σ'.thread = Function.update ρ.sched.thread i m)
    (hworld : ∃ xs, w'.Ok xs ∧ w'.queues xs = (ρ.after σ' w').queues N)
    (hother : ∀ (x : Holder) (j : ℕ), x.thread = some j → j ≠ i → w'.handles x = ρ.world.handles x)
    (hptr : ∀ t, m.pc.ptr = some t → w'.handles (Holder.ptr i) = some (some (ρ.addr t)))
    (hentry : ∀ t, w'.handles (Holder.entry i t)
      = if t ∈ m.mpiBlockedQueue then some (some (ρ.addr t)) else none)
    (hnow : m.pc.NowCanRun ρ.addr (w'.handles (Holder.nowCanRun i)))
    (hgroup : ∀ g, (ρ.after σ' w').Held (w'.handles (Holder.blockedTask g)) (.blockedTask g))
    (hnodup : m.mpiBlockedQueue.Nodup) (huses : ∀ t, m.Uses t → ρ.Current t)
    (hblocked : ∀ g t, (σ'.group g).blockedTask = some t → ρ.Current t) :
    (ρ.after σ' w').Ok N owner := by
  have hsame : ∀ j, j ≠ i → σ'.thread j = ρ.sched.thread j := fun j hj ↦ by
    rw [hthread, Function.update_of_ne hj]
  have hown : σ'.thread i = m := by rw [hthread, Function.update_self]
  refine ⟨htidy, hworld, fun x ↦ ?_, fun j ↦ ?_, fun t ht ↦ ?_⟩
  · change (ρ.after σ' w').Held (w'.handles x) x
    cases x with
    | ptr j =>
      by_cases hj : j = i
      · subst hj
        intro t ht
        exact hptr t (by rwa [after_sched, hown] at ht)
      · rw [hother _ j rfl hj, Held, after_sched, hsame j hj]
        exact hρ.handles (.ptr j)
    | entry j t =>
      by_cases hj : j = i
      · subst hj
        rw [Held, after_sched, hown]
        exact hentry t
      · rw [hother _ j rfl hj, Held, after_sched, hsame j hj]
        exact hρ.handles (.entry j t)
    | blockedTask g => exact hgroup g
    | nowCanRun j =>
      by_cases hj : j = i
      · subst hj
        rw [Held, after_sched, hown]
        exact hnow
      · rw [hother _ j rfl hj, Held, after_sched, hsame j hj]
        exact hρ.handles (.nowCanRun j)
    | other => exact trivial
  · rw [after_sched]
    by_cases hj : j = i
    · rwa [hj, hown]
    · rw [hsame j hj]
      exact hρ.nodup j
  · have hcurrent : ρ.Current t := by
      rcases ht with ⟨j, hj⟩ | ⟨g, hg⟩
      · by_cases hji : j = i
        · exact huses t (by rwa [hji, after_sched, hown] at hj)
        · exact hρ.current t (Or.inl ⟨j, by rwa [after_sched, hsame j hji] at hj⟩)
      · exact hblocked g t hg
    rwa [Current, after_sched, hnext]

theorem Ok.groups (hρ : ρ.Ok N owner)
    (hgroup : ∀ g, (σ'.group g).blockedTask = (ρ.sched.group g).blockedTask ∧
      (σ'.group g).alive = (ρ.sched.group g).alive)
    (hsame : ∀ g, w'.handles (Holder.blockedTask g) = ρ.world.handles (Holder.blockedTask g)) :
    (∀ g, (ρ.after σ' w').Held (w'.handles (Holder.blockedTask g)) (.blockedTask g)) ∧
      ∀ g t, (σ'.group g).blockedTask = some t → ρ.Current t := by
  refine ⟨fun g ↦ ?_, fun g t ht ↦ hρ.current t (Or.inr ⟨g, by rwa [(hgroup g).1] at ht⟩)⟩
  rw [Held, after_sched, (hgroup g).1, (hgroup g).2, hsame]
  exact hρ.handles (.blockedTask g)

/-! ## What is used is owned -/

/-- What a thread or a group has is linked or held by a handle. -/
theorem Ok.linked_or_held (hρ : ρ.Ok N owner) (h : ρ.sched.Used t) :
    ρ.world.Linked (ρ.addr t) ∨ ∃ x : Holder, ρ.world.handles x = some (some (ρ.addr t)) := by
  have hσ := hρ.sched
  rcases h with ⟨i, hrun | hstolen | hmpi | hptr | hinform⟩ | ⟨g, hg⟩
  · have hi := hσ.lt_of_line (i := i) (t := t) (List.mem_append_right _ hrun)
    exact Or.inl ⟨_, _, hρ.contents_runnableQueue hi, List.mem_map_of_mem hrun⟩
  · have hi := hσ.lt_of_line (i := i) (t := t) (List.mem_append_left _ hstolen)
    obtain ⟨xs, hinst, ht⟩ := Pc.mem_stolen.mp hstolen
    have here : (ρ.sched.thread i).pc = .install xs := by
      revert hinst
      cases (ρ.sched.thread i).pc with
      | install ys => exact fun h ↦ by rw [← Option.some.inj h]
      | _ => exact fun h ↦ by cases h
    exact Or.inl ⟨_, _, hρ.contents_skiplistptr hi here, List.mem_map_of_mem ht⟩
  · have hentry := hρ.handles (.entry i t)
    rw [Held, if_pos hmpi] at hentry
    exact Or.inr ⟨_, hentry⟩
  · exact Or.inr ⟨_, hρ.handles (.ptr i) t hptr⟩
  · obtain ⟨c, p, g, rest, here⟩ := Pc.mem_informing.mp hinform
    have hnow := hρ.handles (.nowCanRun i)
    rw [Held, here] at hnow
    exact Or.inr ⟨.nowCanRun i, hnow⟩
  · have hblocked := hρ.handles (.blockedTask g)
    have halive : (ρ.sched.group g).alive = true := by
      by_contra hdead
      exact (hρ.tidy.dead g (Bool.not_eq_true _ ▸ hdead)).2.2 t (hσ.blocked g t hg).waiting
    rw [Held, if_pos halive, hg] at hblocked
    exact Or.inr ⟨_, hblocked⟩

/-- **What a thread or a group has is alive.** -/
theorem Ok.live (hρ : ρ.Ok N owner) (h : ρ.sched.Used t) :
    ρ.world.heap.counterOf (ρ.addr t) ≠ none := by
  obtain ⟨xs, hok, -⟩ := hρ.world
  refine hok.counted.live _ ?_
  rcases hρ.linked_or_held h with hlinked | ⟨x, hx⟩
  · exact World.Ok.owners_ne_zero (hok.linked_iff.mp hlinked) _
  · have hle := pointsTo_le_ownersOf xs (hok.finite (ρ.addr t)) x.name
    rw [hx, Option.join_some, pointsTo_self] at hle
    omega

/-! ## One step -/

/-- A call that sets handles only, and none that the scheduler relies on. -/
theorem Ok.of_handles (hρ : ρ.Ok N owner)
    (hworld : ∃ xs, w'.Ok xs ∧ w'.queues xs = ρ.queues N)
    (hheld : ∀ x : Holder, ρ.Held (w'.handles x) x) : Ok N owner { ρ with world := w' } :=
  ⟨hρ.tidy, hworld, hheld, hρ.nodup, hρ.current⟩

/-- What a handle has to hold depends on where the tasks are that anybody has. -/
theorem Held.congr {v : Option (Option Addr)} {x : Holder} (h : ρ.Held v x)
    (hthread : ρ'.sched.thread = ρ.sched.thread) (hgroup : ρ'.sched.group = ρ.sched.group)
    (haddr : ∀ t, ρ.sched.Used t → ρ'.addr t = ρ.addr t) : ρ'.Held v x := by
  cases x with
  | ptr i =>
    intro t ht
    rw [hthread] at ht
    rw [h t ht, haddr t (Or.inl ⟨i, Or.inr (Or.inr (Or.inr (Or.inl ht)))⟩)]
  | entry i t =>
    rw [Held] at h ⊢
    rw [h, hthread]
    by_cases ht : t ∈ (ρ.sched.thread i).mpiBlockedQueue
    · rw [if_pos ht, if_pos ht, haddr t (Or.inl ⟨i, Or.inr (Or.inr (Or.inl ht))⟩)]
    · rw [if_neg ht, if_neg ht]
  | blockedTask g =>
    rw [Held] at h ⊢
    rw [h, hgroup]
    cases hg : (ρ.sched.group g).blockedTask with
    | none => rfl
    | some t => rw [Option.map_some, Option.map_some, haddr t (Or.inr ⟨g, hg⟩)]
  | nowCanRun i =>
    rw [Held] at h ⊢
    rw [hthread]
    have hinform : ∀ w, w ∈ (ρ.sched.thread i).pc.informing → ρ'.addr w = ρ.addr w := fun w hw ↦
      haddr w (Or.inl ⟨i, Or.inr (Or.inr (Or.inr (Or.inr hw)))⟩)
    revert h hinform
    cases (ρ.sched.thread i).pc with
    | task c p act =>
      cases act with
      | inform g rest phase =>
        cases phase with
        | enqueue w =>
          intro h hinform
          rw [Pc.NowCanRun, InformPhase.Holds] at h ⊢
          rw [h, hinform w (List.mem_singleton_self w)]
        | _ => exact fun h _ ↦ h
      | _ => exact fun h _ ↦ h
    | _ => exact fun h _ ↦ h
  | other => exact trivial

theorem Ok.newTask (hρ : ρ.Ok N owner) {n : ℕ} {a : Addr} {isPure : Bool} {σ' : Sched}
    (hσ' : σ' = { ρ.sched.setTask ρ.sched.next { isPure } with next := ρ.sched.next + 1 })
    (htidy : σ'.Tidy N owner)
    (call : World.Step id ρ.world (.makeRefPtr (Holder.other n) a) w') :
    Ok N owner ⟨σ', w', Function.update ρ.addr ρ.sched.next a⟩ := by
  subst hσ'
  obtain ⟨xs, hok, hqueues⟩ := hρ.call_other call.1 call.2 rfl
  -- The tasks that anybody has are where they were, and not at `a`.
  have hlt : ∀ t, ρ.sched.Used t → t ≠ ρ.sched.next := fun t ht ↦
    Nat.ne_of_lt (hρ.current t ht).1
  have haddr : ∀ t, ρ.sched.Used t → Function.update ρ.addr ρ.sched.next a t = ρ.addr t :=
    fun t ht ↦ Function.update_of_ne (hlt t ht) _ _
  have hne : ∀ t, ρ.sched.Used t → ρ.addr t ≠ a := fun t ht heq ↦
    hρ.live ht (by rw [heq, Heap.counterOf, call.1.2]; rfl)
  have hmap : ∀ zs : List ℕ, (∀ t ∈ zs, ρ.sched.Used t) →
      zs.map ρ.addr = zs.map (Function.update ρ.addr ρ.sched.next a) := fun zs hzs ↦
    List.map_congr_left fun t ht ↦ (haddr t (hzs t ht)).symm
  refine ⟨htidy, ⟨xs, hok, hqueues.trans (eq_queues fun x ↦ ?_)⟩, fun x ↦ ?_, hρ.nodup,
    fun t ht ↦ ?_⟩
  · cases x with
    | runnableQueue i =>
      rw [queues_runnableQueue, queues_runnableQueue]
      exact if_congr Iff.rfl (congrArg some (hmap _ fun t ht ↦ Or.inl ⟨i, Or.inl ht⟩)) rfl
    | skiplistptr i =>
      rw [queues_skiplistptr, queues_skiplistptr]
      refine if_congr Iff.rfl ?_ rfl
      change _ = (ρ.sched.thread i).pc.installing.map _
      cases hpc : (ρ.sched.thread i).pc with
      | install ys =>
        refine congrArg some (hmap ys fun t ht ↦ Or.inl ⟨i, Or.inr (Or.inl ?_)⟩)
        rwa [hpc]
      | _ => rfl
  · have hheld : ρ.Held (w'.handles x) x := by
      by_cases hx : ∃ k, x = .other k
      · obtain ⟨k, rfl⟩ := hx
        exact trivial
      · rw [Op.handles_makeRefPtr call.2,
          Function.update_of_ne fun h ↦ hx ⟨n, Holder.name_injective h⟩]
        exact hρ.handles x
    exact hheld.congr rfl rfl haddr
  · obtain ⟨hmade, hlast⟩ := hρ.current t ht
    refine ⟨Nat.lt_succ_of_lt hmade, fun u hu heq ↦ ?_⟩
    replace heq : Function.update ρ.addr ρ.sched.next a u = ρ.addr t := heq.trans (haddr t ht)
    by_cases hunext : u = ρ.sched.next
    · rw [hunext, Function.update_self] at heq
      exact absurd heq.symm (hne t ht)
    · rw [Function.update_of_ne hunext] at heq
      exact hlast u (Nat.lt_of_le_of_ne (Nat.le_of_lt_succ hu) hunext) heq

theorem Ok.of_keeps (hρ : ρ.Ok N owner) (htidy : σ'.Tidy N owner) (hnext : σ'.next = ρ.sched.next)
    (hthread : σ'.thread = Function.update ρ.sched.thread i m)
    (hkeeps : (ρ.sched.thread i).pc.Keeps m.pc)
    (hworld : ∃ xs, w'.Ok xs ∧ w'.queues xs = (ρ.after σ' w').queues N)
    (hother : ∀ x : Holder, x.thread ≠ none → (∀ t, x ≠ .entry i t) →
      w'.handles x = ρ.world.handles x)
    (hentry : ∀ t, w'.handles (Holder.entry i t)
      = if t ∈ m.mpiBlockedQueue then some (some (ρ.addr t)) else none)
    (hgroup : (∀ g, (ρ.after σ' w').Held (w'.handles (Holder.blockedTask g)) (.blockedTask g)) ∧
      ∀ g t, (σ'.group g).blockedTask = some t → ρ.Current t)
    (hnodup : m.mpiBlockedQueue.Nodup)
    (huses : ∀ t, t ∈ m.runnableQueue ∨ t ∈ m.mpiBlockedQueue → ρ.Current t) :
    (ρ.after σ' w').Ok N owner := by
  refine hρ.of_update htidy hnext hthread hworld (fun x j hx hj ↦ hother x ?_ fun t ht ↦ ?_)
    (fun t ht ↦ ?_) hentry ?_ hgroup.1 hnodup (fun t ht ↦ ?_) hgroup.2
  · rw [hx]
    exact Option.some_ne_none j
  · rw [ht] at hx
    exact hj (Option.some.inj hx).symm
  · rw [hother (.ptr i) (Option.some_ne_none i) fun _ h ↦ by cases h]
    exact hρ.handles (.ptr i) t (hkeeps.ptr t ht)
  · rw [hother (.nowCanRun i) (Option.some_ne_none i) fun _ h ↦ by cases h]
    exact hkeeps.nowCanRun _ _ (hρ.handles (.nowCanRun i))
  · rcases ht with hrun | hstolen | hmpi | hptr | hinform
    · exact huses t (Or.inl hrun)
    · rw [Pc.mem_stolen, hkeeps.installing, ← Pc.mem_stolen] at hstolen
      exact hρ.current t (Or.inl ⟨i, Or.inr (Or.inl hstolen)⟩)
    · exact huses t (Or.inr hmpi)
    · exact hρ.current t (Or.inl ⟨i, Or.inr (Or.inr (Or.inr (Or.inl (hkeeps.ptr t hptr))))⟩)
    · exact hρ.current t (Or.inl ⟨i, Or.inr (Or.inr (Or.inr (Or.inr (hkeeps.informing hinform))))⟩)

theorem Ok.of_enqueue (hρ : ρ.Ok N owner) (htidy : σ'.Tidy N owner) (hi : i < N) {h : ℕ} {pc : Pc}
    (hnext : σ'.next = ρ.sched.next) (hgroup : σ'.group = ρ.sched.group)
    (hthread : σ'.thread = Function.update ρ.sched.thread i { ρ.sched.thread i with
      runnableQueue := (ρ.sched.thread i).runnableQueue ++ [t], pc })
    (hkeeps : (ρ.sched.thread i).pc.Keeps pc) (hrefers : ρ.Refers h t)
    (hpre : (Op.enqueueCopy (ListName.runnableQueue i) h).Pre ρ.world)
    (call : (Op.enqueueCopy (ListName.runnableQueue i) h).exec id ρ.world = some w') :
    (ρ.after σ' w').Ok N owner := by
  obtain ⟨xs, hok, hstep⟩ := hρ.call hpre call
  rw [Op.label_enqueueCopy _ _ hrefers.1] at hstep
  have hqueues := hstep.of_enqueue (queues_runnableQueue.trans (if_pos hi))
  have hhandles := Op.handles_enqueueCopy call
  refine hρ.of_keeps htidy hnext hthread hkeeps ⟨xs, hok, ?_⟩ (fun x _ _ ↦ by rw [hhandles])
    (fun u ↦ ?_) (hρ.groups (fun g ↦ by rw [hgroup]; exact ⟨rfl, rfl⟩) fun g ↦ by rw [hhandles])
    (hρ.nodup i) fun u hu ↦ ?_
  · rw [hqueues, ← queues_update hthread hi hkeeps.installing, List.map_append]
    rfl
  · rw [hhandles]
    exact hρ.handles (.entry i u)
  · rw [List.mem_append, List.mem_singleton] at hu
    rcases hu with (hu | rfl) | hu
    · exact hρ.current u (Or.inl ⟨i, Or.inl hu⟩)
    · exact hrefers.2
    · exact hρ.current u (Or.inl ⟨i, Or.inr (Or.inr (Or.inl hu))⟩)

/-- The thread `i` has called `dequeue`, which leaves `m.runnableQueue`. -/
theorem Ok.of_dequeue (hρ : ρ.Ok N owner) (htidy : σ'.Tidy N owner) (hi : i < N)
    (here : (ρ.sched.thread i).pc = .loop) (hnext : σ'.next = ρ.sched.next)
    (hgroup : σ'.group = ρ.sched.group)
    (hthread : σ'.thread = Function.update ρ.sched.thread i m)
    (hptr : ∀ t, m.pc.ptr = some t → w'.handles (Holder.ptr i) = some (some (ρ.addr t)))
    (hmpi : m.mpiBlockedQueue = (ρ.sched.thread i).mpiBlockedQueue)
    (hinst : m.pc.installing = none)
    (hpre : (Op.dequeue (ListName.runnableQueue i) (Holder.ptr i)).Pre ρ.world)
    (call : (Op.dequeue (ListName.runnableQueue i) (Holder.ptr i)).exec id ρ.world = some w')
    (hnow : m.pc.NowCanRun ρ.addr none) (huses : ∀ t, m.Uses t → ρ.sched.Used t)
    (hqueue : ∀ q r, SplitQueue.Step (ρ.queues N) (.dequeue (ListName.runnableQueue i) r) q →
      q = Function.update (ρ.queues N) (ListName.runnableQueue i)
        (some (m.runnableQueue.map ρ.addr))) :
    (ρ.after σ' w').Ok N owner := by
  obtain ⟨xs, hok, hstep⟩ := hρ.call hpre call
  have hother : ∀ x : Holder, x ≠ .ptr i → w'.handles x = ρ.world.handles x := fun x hx ↦ by
    rw [Op.handles_dequeue call, Function.update_of_ne fun h ↦ hx (Holder.name_injective h)]
  have hsame : ∀ g, (σ'.group g).blockedTask = (ρ.sched.group g).blockedTask ∧
      (σ'.group g).alive = (ρ.sched.group g).alive := fun g ↦ by
    rw [hgroup]
    exact ⟨rfl, rfl⟩
  have hgroups := hρ.groups hsame fun g ↦ hother (.blockedTask g) (by simp)
  refine hρ.of_update htidy hnext hthread ⟨xs, hok, ?_⟩ (fun x j hx hj ↦ hother x ?_) hptr
    (fun t ↦ ?_) ?_ hgroups.1 (hmpi ▸ hρ.nodup i) (fun t ht ↦ hρ.current t (huses t ht)) hgroups.2
  · rw [hqueue _ _ hstep, queues_update hthread hi (by rw [here]; exact hinst)]
  · rintro rfl
    exact hj (Option.some.inj hx).symm
  · rw [hother (.entry i t) (by simp), hmpi]
    exact hρ.handles (.entry i t)
  · have hold := hρ.handles (.nowCanRun i)
    rw [Held, here] at hold
    rw [hother (.nowCanRun i) (by simp), show ρ.world.handles (Holder.nowCanRun i) = none from hold]
    exact hnow

/-- The thread `i` goes on with `terminate`, and sets `nowCanRun` or a `blockedTask`. -/
theorem Ok.of_inform (hρ : ρ.Ok N owner) {c : ℕ} {p : Option ℕ} {act act' : Activity}
    (htidy : σ'.Tidy N owner) (here : (ρ.sched.thread i).pc = .task c p act)
    (hnext : σ'.next = ρ.sched.next)
    (hthread : σ'.thread = Function.update ρ.sched.thread i
      { ρ.sched.thread i with pc := .task c p act' })
    (hinform : ∀ w ∈ (Pc.task c p act').informing, ρ.sched.Used w)
    (hworld : ∃ xs, w'.Ok xs ∧ w'.queues xs = ρ.queues N)
    (hother : ∀ x : Holder, x ≠ .nowCanRun i → (∀ g, x ≠ .blockedTask g) →
      w'.handles x = ρ.world.handles x)
    (hnow : (Pc.task c p act').NowCanRun ρ.addr (w'.handles (Holder.nowCanRun i)))
    (hgroup : (∀ g, (ρ.after σ' w').Held (w'.handles (Holder.blockedTask g)) (.blockedTask g)) ∧
      ∀ g t, (σ'.group g).blockedTask = some t → ρ.Current t) :
    (ρ.after σ' w').Ok N owner := by
  have hptr : ∀ t, (Pc.task c p act').ptr = some t → (ρ.sched.thread i).pc.ptr = some t :=
    fun t ht ↦ by
      rw [here]
      cases p <;> exact ht
  obtain ⟨xs, hok, hqueues⟩ := hworld
  refine hρ.of_update htidy hnext hthread
    ⟨xs, hok, hqueues.trans (queues_same hthread rfl (by rw [here]; rfl))⟩
    (fun x j hx hj ↦ hother x ?_ fun g ↦ ?_) (fun t ht ↦ ?_) (fun t ↦ ?_) hnow hgroup.1 (hρ.nodup i)
    (fun t ht ↦ hρ.current t ?_) hgroup.2
  · rintro rfl
    exact hj (Option.some.inj hx).symm
  · rintro rfl
    cases hx
  · rw [hother (.ptr i) (by simp) (by simp)]
    exact hρ.handles (.ptr i) t (hptr t ht)
  · rw [hother (.entry i t) (by simp) (by simp)]
    exact hρ.handles (.entry i t)
  · rcases ht with ht | ht | ht | ht | ht
    · exact Or.inl ⟨i, Or.inl ht⟩
    · exact absurd ht List.not_mem_nil
    · exact Or.inl ⟨i, Or.inr (Or.inr (Or.inl ht))⟩
    · exact Or.inl ⟨i, Or.inr (Or.inr (Or.inr (Or.inl (hptr t ht))))⟩
    · exact hinform t ht

theorem Ok.of_steal (hρ : ρ.Ok N owner) {v : ℕ} {xs ys : List ℕ}
    (htidy : ((ρ.sched.setThread v { ρ.sched.thread v with runnableQueue := ys }).goto i
      (.install xs)).Tidy N owner)
    (hi : i < N) (here : (ρ.sched.thread i).pc = .steal v) (hv : v < N) (hne : v ≠ i)
    (hqueue : (ρ.sched.thread v).runnableQueue = xs ++ ys) (hnonempty : xs ≠ [])
    (hpre : (Op.dequeueHalf (ListName.runnableQueue v) (ListName.skiplistptr i)).Pre ρ.world)
    (call : (Op.dequeueHalf (ListName.runnableQueue v) (ListName.skiplistptr i)).exec id ρ.world
      = some w')
    (hresult : w'.Contents (ListName.skiplistptr i) (xs.map ρ.addr)) :
    (ρ.after ((ρ.sched.setThread v { ρ.sched.thread v with runnableQueue := ys }).goto i
      (.install xs)) w').Ok N owner := by
  obtain ⟨zs, hok, hstep⟩ := hρ.call hpre call
  have hhandles := Op.handles_dequeueHalf call
  have hthread : ∀ j, (((ρ.sched.setThread v { ρ.sched.thread v with runnableQueue := ys }).goto i
      (.install xs)).thread j) = if j = i then { ρ.sched.thread i with pc := .install xs }
        else if j = v then { ρ.sched.thread v with runnableQueue := ys } else ρ.sched.thread j :=
    fun j ↦ by simp [Sched.goto, Function.update_apply, hne.symm]
  have hgroup : ((ρ.sched.setThread v { ρ.sched.thread v with runnableQueue := ys }).goto i
      (.install xs)).group = ρ.sched.group := rfl
  have hnext : ((ρ.sched.setThread v { ρ.sched.thread v with runnableQueue := ys }).goto i
      (.install xs)).next = ρ.sched.next := rfl
  generalize (ρ.sched.setThread v { ρ.sched.thread v with runnableQueue := ys }).goto i
    (.install xs) = σ' at htidy hthread hgroup hnext ⊢
  have hpc : ∀ j, j ≠ i → (σ'.thread j).pc = (ρ.sched.thread j).pc := fun j hj ↦ by
    rw [hthread, if_neg hj]
    split
    · rename_i hjv
      rw [hjv]
    · rfl
  have hown : (σ'.thread i).pc = .install xs := by rw [hthread, if_pos rfl]
  have hmpi : ∀ j, (σ'.thread j).mpiBlockedQueue = (ρ.sched.thread j).mpiBlockedQueue := fun j ↦ by
    rw [hthread]
    split_ifs with hj hjv
    · rw [hj]
    · rw [hjv]
    · rfl
  have hrun : ∀ j, (σ'.thread j).runnableQueue
      = if j = v then ys else (ρ.sched.thread j).runnableQueue := fun j ↦ by
    rw [hthread]
    split_ifs with hj hjv hjv
    · exact absurd (hjv.symm.trans hj) hne
    · rw [hj]
    · rfl
    · rfl
  have hold := hρ.handles (.nowCanRun i)
  rw [Held, here] at hold
  refine ⟨htidy, ⟨zs, hok, ?_⟩, fun x ↦ ?_, fun j ↦ (hmpi j).symm ▸ hρ.nodup j, fun t ht ↦ ?_⟩
  · have hvictim : ρ.queues N (ListName.runnableQueue v) =
        some (xs.map ρ.addr ++ ys.map ρ.addr) := by
      rw [queues_runnableQueue, if_pos hv, hqueue, List.map_append]
    obtain ⟨as, bs, -, hsplit, -, hqueues⟩ := hstep.of_split_cons hvictim (by simp [hnonempty])
    -- The list says which part has been stolen.
    obtain ⟨⟨s, hs⟩, hxs⟩ := hok.contents_iff.mp hresult
    have hfront : w'.queues zs _ = some (zs _) := World.queues_of_some hs
    rw [hqueues, Function.update_self, ← hxs] at hfront
    obtain rfl := Option.some.inj hfront
    obtain rfl := List.append_cancel_left hsplit
    refine hqueues.trans (eq_queues fun x ↦ ?_)
    simp only [Function.update_apply, ListName.name_inj]
    cases x with
    | runnableQueue j =>
      by_cases hj : j = v
      · simp [hj, hv, hrun]
      · simp [hj, hrun]
    | skiplistptr j =>
      by_cases hj : j = i
      · simp [hj, hi, hown, Pc.installing]
      · simp [hj, hpc]
  · change (ρ.after σ' w').Held (w'.handles x) x
    rw [hhandles]
    have hheld := hρ.handles x
    cases x with
    | ptr j =>
      by_cases hj : j = i
      · intro t ht
        rw [after_sched, hj, hown] at ht
        cases ht
      · rw [Held, after_sched, hpc j hj]
        exact hheld
    | entry j t =>
      rw [Held, after_sched, hmpi]
      exact hheld
    | blockedTask g =>
      rw [Held, after_sched, hgroup]
      exact hheld
    | nowCanRun j =>
      by_cases hj : j = i
      · rw [Held, after_sched, hj, hown]
        exact hold
      · rw [Held, after_sched, hpc j hj]
        exact hheld
    | other => exact trivial
  · have hused : ρ.sched.Used t := by
      rcases ht with ⟨j, hj⟩ | ⟨g, hg⟩
      · rw [PerThreadMgr.Uses, after_sched, hrun, hmpi] at hj
        by_cases hji : j = i
        · subst hji
          rw [hown, if_neg hne.symm] at hj
          rcases hj with hj | hj | hj | hj | hj
          · exact Or.inl ⟨j, Or.inl hj⟩
          · exact Or.inl ⟨v, Or.inl (by rw [hqueue]; exact List.mem_append_left _ hj)⟩
          · exact Or.inl ⟨j, Or.inr (Or.inr (Or.inl hj))⟩
          · cases hj
          · exact absurd hj List.not_mem_nil
        · rw [hpc j hji] at hj
          refine Or.inl ⟨j, hj.imp_left fun hj ↦ ?_⟩
          split_ifs at hj with hjv
          · rw [hjv, hqueue]
            exact List.mem_append_right _ hj
          · exact hj
      · exact Or.inr ⟨g, by rwa [after_sched, hgroup] at hg⟩
    have hcurrent := hρ.current t hused
    rwa [Current, after_sched, hnext]

/-- After `replace`, what is left in the other list is nothing, and its destructor leaves the rest
alone. -/
theorem Ok.replaced (hρ : ρ.Ok N owner) {xs : List ℕ} (hi : i < N)
    (here : (ρ.sched.thread i).pc = .install xs)
    (hpre : (Op.replace (ListName.runnableQueue i) (ListName.skiplistptr i)).Pre ρ.world)
    (call : (Op.replace (ListName.runnableQueue i) (ListName.skiplistptr i)).exec id ρ.world
      = some w') :
    w'.destroyList (ListName.skiplistptr i) = some (w'.setList (ListName.skiplistptr i) none) ∧
      ∃ zs, w'.Ok zs ∧ (w'.setList (ListName.skiplistptr i) none).Ok zs ∧
        w'.queues zs = Function.update (Function.update (ρ.queues N) (ListName.runnableQueue i)
          (some (xs.map ρ.addr))) (ListName.skiplistptr i) (some []) := by
  obtain ⟨zs, hok, hstep⟩ := hρ.call hpre call
  have hstolen : ρ.queues N (ListName.skiplistptr i) = some (xs.map ρ.addr) := by
    rw [queues_skiplistptr, if_pos hi, here]
    rfl
  have hqueues := hstep.of_replace hstolen
  obtain ⟨⟨s, hs⟩, hnil⟩ := World.queues_eq_some
    ((congrFun hqueues _).trans (Function.update_self _ _ _))
  obtain ⟨hdestroy, hok'⟩ := hok.destroyList hs hnil
  exact ⟨hdestroy, zs, hok, hok', hqueues⟩

/-- The thread `i` has replaced its list by the one that it has stolen, and destroyed this one. -/
theorem Ok.of_install (hρ : ρ.Ok N owner) {xs : List ℕ} {w'' : World}
    (htidy : (ρ.sched.setThread i
      { ρ.sched.thread i with runnableQueue := xs, pc := .loop }).Tidy N owner)
    (hi : i < N) (here : (ρ.sched.thread i).pc = .install xs)
    (hpre : (Op.replace (ListName.runnableQueue i) (ListName.skiplistptr i)).Pre ρ.world)
    (call : (Op.replace (ListName.runnableQueue i) (ListName.skiplistptr i)).exec id ρ.world
      = some w')
    (dispose : w'.destroyList (ListName.skiplistptr i) = some w'') :
    (ρ.after (ρ.sched.setThread i { ρ.sched.thread i with runnableQueue := xs, pc := .loop })
      w'').Ok N owner := by
  obtain ⟨hdestroy, zs, -, hok', hqueues⟩ := hρ.replaced hi here hpre call
  obtain rfl := Option.some.inj (hdestroy.symm.trans dispose)
  have hhandles : (w'.setList (ListName.skiplistptr i) none).handles = ρ.world.handles :=
    (World.setList_handles _ _ _).trans (Op.handles_replace call)
  have hold := hρ.handles (.nowCanRun i)
  rw [Held, here] at hold
  refine hρ.of_update htidy rfl rfl ⟨zs, hok', eq_queues fun x ↦ ?_⟩
    (fun x _ _ _ ↦ by rw [hhandles]) (fun t ht ↦ by cases ht) (fun t ↦ ?_)
    (by rw [hhandles]; exact hold)
    ?_ (hρ.nodup i) (fun t ht ↦ hρ.current t ?_) fun g t ht ↦ hρ.current t (Or.inr ⟨g, ht⟩)
  · have hlists : (w'.setList (ListName.skiplistptr i) none).queues zs x
        = Function.update (w'.queues zs) (ListName.skiplistptr i) none x := by
      by_cases hx : x = .skiplistptr i
      · rw [hx, Function.update_self]
        exact World.queues_of_none (Function.update_self _ _ _)
      · rw [Function.update_of_ne fun h ↦ hx (ListName.name_injective h), World.queues,
          World.setList_lists, Function.update_of_ne fun h ↦ hx (ListName.name_injective h),
          World.queues]
    rw [hlists, hqueues]
    simp only [Function.update_apply, ListName.name_inj]
    cases x with
    | runnableQueue j =>
      by_cases hj : j = i
      · simp [hj, hi]
      · simp [hj]
    | skiplistptr j =>
      by_cases hj : j = i
      · simp [hj, Pc.installing]
      · simp [hj]
  · rw [hhandles]
    exact hρ.handles (.entry i t)
  · exact (hρ.groups (fun g ↦ ⟨rfl, rfl⟩) fun g ↦ by rw [hhandles]).1
  · rcases ht with ht | ht | ht | ht | ht
    · exact Or.inl ⟨i, Or.inr (Or.inl (by rw [here]; exact ht))⟩
    · exact absurd ht List.not_mem_nil
    · exact Or.inl ⟨i, Or.inr (Or.inr (Or.inl ht))⟩
    · cases ht
    · exact absurd ht List.not_mem_nil

end Runtime

namespace Pc

variable {pc : Pc} {p : Option ℕ} {act act' : Activity}

theorem Keeps.refl (pc : Pc) : pc.Keeps pc := ⟨rfl, fun _ ht ↦ ht, fun _ _ hv ↦ hv⟩

theorem keeps_goOn (h : ∀ addr v, (task t p act).NowCanRun addr v →
    (task t p act').NowCanRun addr v) : (task t p act).Keeps (task t p act') :=
  ⟨rfl, fun u hu ↦ by cases p <;> exact hu, h⟩

theorem keeps_afterTask (h : ∀ addr v, (task t p act).NowCanRun addr v → v = none) :
    (task t p act).Keeps (afterTask p) where
  installing := installing_afterTask
  ptr u hu := by
    rw [ptr_afterTask] at hu
    cases hu
  nowCanRun addr v hv := nowCanRun_afterTask.mpr (h addr v hv)

theorem keeps_erase {k : ℕ} : (erase k).Keeps loop :=
  ⟨rfl, fun _ ht ↦ (nomatch ht), fun _ _ hv ↦ hv⟩

end Pc

/-- **Every step keeps the invariant.** -/
theorem RuntimeStep.ok (h : RuntimeStep N ρ l ρ') (hρ : ρ.Ok N owner) (hroomy : ρ.Roomy)
    (htidy : ρ'.sched.Tidy N owner) : ρ'.Ok N owner := by
  have hσ := hρ.sched
  cases h with
  | @own l σ' step quiet has =>
    have hkeeps : ∀ i, (ρ.sched.thread i).pc.Keeps (σ'.thread i).pc := fun i ↦ by
      rcases quiet.pc i with hsame | hquiet
      · rw [hsame]
        exact .refl _
      · exact hquiet.toKeeps
    obtain ⟨xs, hok, hqueues⟩ := hρ.world
    refine ⟨htidy, ⟨xs, hok, hqueues.trans (Runtime.queues_congr quiet.queue fun i ↦
      (hkeeps i).installing)⟩, fun x ↦ ?_, fun i ↦ ?_, fun t ht ↦ ?_⟩
    · have hheld := hρ.handles x
      cases x with
      | ptr i => exact fun t ht ↦ hheld t ((hkeeps i).ptr t ht)
      | entry i t =>
        rw [Runtime.Held, quiet.mpi]
        exact hheld
      | blockedTask g =>
        rw [Runtime.Held, quiet.blockedTask, quiet.alive]
        exact hheld
      | nowCanRun i => exact (hkeeps i).nowCanRun _ _ hheld
      | other => exact trivial
    · rw [quiet.mpi]
      exact hρ.nodup i
    · have hused : ρ.sched.Used t := by
        rcases ht with ⟨i, hrun | hstolen | hmpi | hptr | hinform⟩ | ⟨g, hg⟩
        · exact Or.inl ⟨i, Or.inl (by rwa [quiet.queue] at hrun)⟩
        · rw [Pc.mem_stolen, (hkeeps i).installing, ← Pc.mem_stolen] at hstolen
          exact Or.inl ⟨i, Or.inr (Or.inl hstolen)⟩
        · exact Or.inl ⟨i, Or.inr (Or.inr (Or.inl (by rwa [quiet.mpi] at hmpi)))⟩
        · exact Or.inl ⟨i, Or.inr (Or.inr (Or.inr (Or.inl ((hkeeps i).ptr t hptr))))⟩
        · exact Or.inl ⟨i, Or.inr (Or.inr (Or.inr (Or.inr ((hkeeps i).informing hinform))))⟩
        · exact Or.inr ⟨g, by rwa [quiet.blockedTask] at hg⟩
      obtain ⟨hmade, hlast⟩ := hρ.current t hused
      exact ⟨quiet.next ▸ hmade, fun u hu heq ↦ hlast u (quiet.next ▸ hu) heq⟩
  | @handle op w' foreign call =>
    refine hρ.of_handles (hρ.call_other call.1 call.2 (foreign.label _ _)) fun x ↦ ?_
    by_cases hx : ∃ n, x = .other n
    · obtain ⟨n, rfl⟩ := hx
      exact trivial
    · rw [foreign.handles call.2 fun n hn ↦ hx ⟨n, hn⟩]
      exact hρ.handles x
  | @dispose i w' lt here call =>
    refine hρ.of_handles (hρ.call_other (Op.pre_destroy hroomy call) call rfl) fun x ↦ ?_
    by_cases hx : x = .ptr i
    · subst hx
      intro t ht
      rw [here] at ht
      cases ht
    · rw [Op.handles_destroy call, Function.update_of_ne fun h ↦ hx (Holder.name_injective h)]
      exact hρ.handles x
  | newTask isPure lt client call => exact hρ.newTask rfl htidy call
  | @addRunnable i t h w' lt client once has call =>
    exact hρ.of_enqueue htidy lt rfl rfl rfl (.refl (ρ.sched.thread i).pc) has
      (hρ.pre_enqueue lt has (hσ.notMem_line_of_fresh once)) call
  | @destroy i c g p w' lt here alive call =>
    obtain ⟨xs, hok, hqueues⟩ := hρ.call_other (Op.pre_destroy hroomy call) call rfl
    have hhandles := Op.handles_destroy call
    have hother : ∀ x : Holder, x ≠ .blockedTask g → w'.handles x = ρ.world.handles x :=
      fun x hx ↦ by
        rw [hhandles, Function.update_of_ne fun h ↦ hx (Holder.name_injective h)]
    refine hρ.of_keeps (i := i) htidy rfl (Function.update_eq_self _ _).symm (.refl _)
      ⟨xs, hok, hqueues.trans (Runtime.queues_congr (fun _ ↦ rfl) fun _ ↦ rfl)⟩
      (fun x hx _ ↦ hother x fun h ↦ hx (by rw [h]; rfl))
      (fun t ↦ (hother _ fun h ↦ by cases h).trans (hρ.handles (.entry i t)))
      ⟨fun g' ↦ ?_, fun g' t ht ↦ hρ.current t (Or.inr ⟨g', ?_⟩)⟩ (hρ.nodup i)
      fun t ht ↦ hρ.current t (Or.inl ⟨i, ht.imp_right fun h ↦ Or.inr (Or.inl h)⟩)
    · by_cases hg : g' = g
      · subst hg
        simp [Runtime.Held, hhandles]
      · rw [hother _ fun h ↦ hg (by cases h; rfl)]
        have hheld := hρ.handles (.blockedTask g')
        simpa [Runtime.Held, Function.update_of_ne hg] using hheld
    · by_cases hg : g' = g
      · subst hg
        simpa using ht
      · simpa [Function.update_of_ne hg] using ht
  | @empty i w' lt here queue gone call result =>
    have hpre := hρ.pre hroomy lt (.dequeue here gone)
    have hempty : ρ.queues N (ListName.runnableQueue i) = some [] := by
      rw [Runtime.queues_runnableQueue, if_pos lt, queue]
      rfl
    refine hρ.of_dequeue htidy lt here rfl rfl rfl (fun u hu ↦ by cases hu) rfl rfl hpre call rfl
      (fun u hu ↦ Or.inl ⟨i, ?_⟩) fun q r hstep ↦ ?_
    · rcases hu with hu | hu | hu | hu | hu
      · exact Or.inl hu
      · exact absurd hu List.not_mem_nil
      · exact Or.inr (Or.inr (Or.inl hu))
      · cases hu
      · exact absurd hu List.not_mem_nil
    · rw [(hstep.of_dequeue_nil hempty).2, queue]
      exact (Function.update_eq_self_iff.mpr hempty.symm).symm
  | @dequeue i t ts w' lt here queue gone call result =>
    have hpre := hρ.pre hroomy lt (.dequeue here gone)
    have hcons : ρ.queues N (ListName.runnableQueue i)
        = some (ρ.addr t :: ts.map ρ.addr) := by
      rw [Runtime.queues_runnableQueue, if_pos lt, queue]
      rfl
    refine hρ.of_dequeue htidy lt here rfl rfl rfl (fun u hu ↦ ?_) rfl rfl hpre call rfl
      (fun u hu ↦ Or.inl ⟨i, ?_⟩) fun q r hstep ↦ (hstep.of_dequeue_cons hcons).2
    · rw [← Option.some.inj hu]
      exact result
    · rcases hu with hu | hu | hu | hu | hu
      · exact Or.inl (by rw [queue]; exact List.mem_cons_of_mem t hu)
      · exact absurd hu List.not_mem_nil
      · exact Or.inr (Or.inr (Or.inl hu))
      · exact Or.inl (by rw [queue, ← Option.some.inj hu]; exact List.mem_cons_self)
      · exact absurd hu List.not_mem_nil
  | @nothing i v w' lt here victim ne queue call result =>
    have hempty : ρ.queues N (ListName.runnableQueue v) = some [] := by
      rw [Runtime.queues_runnableQueue, if_pos victim, queue]
      rfl
    obtain ⟨xs, hok, hstep⟩ := hρ.call (hρ.pre hroomy lt (.dequeueHalf here victim ne)) call
    have hhandles := Op.handles_dequeueHalf call
    refine hρ.of_keeps (m := { ρ.sched.thread i with pc := .steal (v + 1) }) htidy rfl rfl ?_
      ⟨xs, hok, ?_⟩ (fun x _ _ ↦ by rw [hhandles]) (fun u ↦ ?_)
      (hρ.groups (fun g ↦ ⟨rfl, rfl⟩) fun g ↦ by rw [hhandles]) (hρ.nodup i)
      fun u hu ↦ hρ.current u (Or.inl ⟨i, hu.imp_right fun h ↦ Or.inr (Or.inl h)⟩)
    · rw [here]
      exact ⟨rfl, fun _ ht ↦ ht, fun _ _ hv ↦ hv⟩
    · rw [(hstep.of_split_nil hempty).2]
      exact Runtime.queues_same rfl rfl (by rw [here]; rfl)
    · rw [hhandles]
      exact hρ.handles (.entry i u)
  | @steal i v xs ys w' lt here victim ne queue nonempty call result =>
    exact hρ.of_steal htidy lt here victim ne queue nonempty
      (hρ.pre hroomy lt (.dequeueHalf here victim ne)) call result
  | @install i xs w' w'' lt here call dispose =>
    exact hρ.of_install htidy lt here (hρ.pre hroomy lt (.replace here)) call dispose
  | @handleRunnable i t p w' lt here state call =>
    refine hρ.of_enqueue htidy lt rfl rfl rfl ?_
      (hρ.refers_inHand lt here)
      (hρ.pre hroomy lt (.handleRunnable here state)) call
    rw [here]
    exact Pc.keeps_afterTask fun _ _ hv ↦ hv
  | @handleMpi i t w' lt here state call =>
    obtain ⟨xs, hok, hqueues⟩ := hρ.call_other (hρ.pre hroomy lt (.handleMpi here state)) call rfl
    have hhandles := Op.handles_copyConstruct call
    rw [show ρ.world.handles (Holder.ptr i) = _ from hρ.handle_inHand lt here] at hhandles
    have hother : ∀ x : Holder, x ≠ .entry i t → w'.handles x = ρ.world.handles x := fun x hx ↦ by
      rw [hhandles, Function.update_of_ne fun h ↦ hx (Holder.name_injective h)]
    have hnew : t ∉ (ρ.sched.thread i).mpiBlockedQueue :=
      hσ.notMem_mpi lt here (by rw [here]; exact List.mem_singleton_self t)
    refine hρ.of_keeps htidy rfl rfl (by rw [here]; exact Pc.keeps_afterTask fun _ _ hv ↦ hv)
      ⟨xs, hok, hqueues.trans (Runtime.queues_same rfl rfl (by rw [here]; rfl))⟩
      (fun x _ hx ↦ hother x (hx t)) (fun u ↦ ?_)
      (hρ.groups (fun g ↦ ⟨rfl, rfl⟩) fun g ↦ hother (.blockedTask g) (by simp)) ?_ fun u hu ↦ ?_
    · by_cases hu : u = t
      · subst hu
        simp [hhandles]
      · rw [hother _ (by simp [hu])]
        have hentry := hρ.handles (.entry i u)
        simpa [Runtime.Held, hu] using hentry
    · exact List.nodup_append_comm.mp (List.nodup_cons.mpr ⟨hnew, hρ.nodup i⟩)
    · refine hu.elim (fun hu ↦ hρ.current u (Or.inl ⟨i, Or.inl hu⟩)) fun hu ↦ ?_
      rw [List.mem_append, List.mem_singleton] at hu
      rcases hu with hu | rfl
      · exact hρ.current u (Or.inl ⟨i, Or.inr (Or.inr (Or.inl hu))⟩)
      · exact hρ.current u (hρ.used_of_task lt here)
  | @resumeBlock i t g p w' lt here blocking call =>
    obtain ⟨xs, hok, hqueues⟩ :=
      hρ.call_other (hρ.pre hroomy lt (.resumeBlock here blocking)) call rfl
    have hhandles := Op.handles_copyAssign call
    rw [hρ.handle_inHand lt here] at hhandles
    have hother : ∀ x : Holder, x ≠ .blockedTask g → w'.handles x = ρ.world.handles x :=
      fun x hx ↦ by
        rw [hhandles, Function.update_of_ne fun h ↦ hx (Holder.name_injective h)]
    have halive : (ρ.sched.group g).alive = true := hρ.tidy.onlyAliveUsed i lt g (by
      rw [Sched.pcs, here]
      rfl)
    refine hρ.of_keeps htidy rfl rfl (by rw [here]; exact Pc.keeps_goOn fun _ _ hv ↦ hv)
      ⟨xs, hok, hqueues.trans (Runtime.queues_same rfl rfl (by rw [here]; rfl))⟩
      (fun x hx _ ↦ hother x fun h ↦ hx (by rw [h]; rfl))
      (fun u ↦ (hother _ (by simp)).trans (hρ.handles (.entry i u)))
      ⟨fun g' ↦ ?_, fun g' u hu ↦ ?_⟩ (hρ.nodup i)
      fun u hu ↦ hρ.current u (Or.inl ⟨i, hu.imp_right fun h ↦ Or.inr (Or.inl h)⟩)
    · by_cases hg : g' = g
      · subst hg
        simp [Runtime.Held, Sched.goto, hhandles, halive]
      · rw [hother _ (by simp [hg])]
        have hheld := hρ.handles (.blockedTask g')
        simpa [Runtime.Held, Sched.goto, Function.update_of_ne hg] using hheld
    · by_cases hg : g' = g
      · subst hg
        have htu : t = u := by simpa [Sched.goto] using hu
        rw [← htu]
        exact hρ.current t (hρ.used_of_task lt here)
      · exact hρ.current u (Or.inr ⟨g', by simpa [Sched.goto, Function.update_of_ne hg] using hu⟩)
  | @requeue i t p w' lt here call =>
    refine hρ.of_enqueue htidy lt rfl rfl rfl ?_
      (hρ.refers_inHand lt here)
      (hρ.pre hroomy lt (.requeue here)) call
    rw [here]
    exact Pc.keeps_afterTask fun _ _ hv ↦ hv
  | @erase i k t w' lt here entry call =>
    obtain ⟨xs, hok, hqueues⟩ := hρ.call_other (Op.pre_destroy hroomy call) call rfl
    have hhandles := Op.handles_destroy call
    have hother : ∀ x : Holder, x ≠ .entry i t → w'.handles x = ρ.world.handles x := fun x hx ↦ by
      rw [hhandles, Function.update_of_ne fun h ↦ hx (Holder.name_injective h)]
    refine hρ.of_keeps htidy rfl rfl (by rw [here]; exact Pc.keeps_erase)
      ⟨xs, hok, hqueues.trans (Runtime.queues_same rfl rfl (by rw [here]; rfl))⟩
      (fun x _ hx ↦ hother x (hx t)) (fun u ↦ ?_)
      (hρ.groups (fun g ↦ ⟨rfl, rfl⟩) fun g ↦ hother (.blockedTask g) (by simp))
      ((hρ.nodup i).erase t) fun u hu ↦ hρ.current u (Or.inl ⟨i, ?_⟩)
    · by_cases hu : u = t
      · subst hu
        simp [hhandles, (hρ.nodup i).not_mem_erase]
      · rw [hother _ (by simp [hu])]
        have hentry := hρ.handles (.entry i u)
        simpa [Runtime.Held, List.mem_erase_of_ne hu] using hentry
    · exact hu.imp_right fun h ↦ Or.inr (Or.inl (List.mem_of_mem_erase h))
  | @informLock i c g p rest lt here free =>
    have hnone : ρ.world.handles (Holder.nowCanRun i) = none := by
      have hold := hρ.handles (.nowCanRun i)
      rwa [Runtime.Held, here] at hold
    obtain ⟨xs, hok, hqueues⟩ := hρ.world
    refine hρ.of_inform htidy here rfl rfl (fun _ h ↦ absurd h List.not_mem_nil)
      ⟨xs, hok.nullConstruct hnone, hqueues⟩
      (fun x hx _ ↦ Function.update_of_ne (fun h ↦ hx (Holder.name_injective h)) _ _)
      (Function.update_self _ _ _)
      (hρ.groups (fun g' ↦ ?_) fun g' ↦ Function.update_of_ne (by simp) _ _)
    by_cases hg : g' = g
    · subst hg
      simp [Sched.goto]
    · simp [Sched.goto, Function.update_of_ne hg]
  | @informTake i c g w p rest w' lt here blocked call result =>
    obtain ⟨xs, hok, hqueues⟩ := hρ.call_other (hρ.pre hroomy lt (.informTake here)) call rfl
    have hhandles := Op.handles_moveAssign call
    have hother : ∀ x : Holder, x ≠ .nowCanRun i → x ≠ .blockedTask g →
        w'.handles x = ρ.world.handles x := fun x hx hx' ↦ by
      rw [hhandles, Function.update_of_ne fun h ↦ hx' (Holder.name_injective h),
        Function.update_of_ne fun h ↦ hx (Holder.name_injective h)]
    have halive : (ρ.sched.group g).alive = true := hρ.tidy.onlyAliveUsed i lt g (by
      rw [Sched.pcs, here]
      rfl)
    refine hρ.of_inform htidy here rfl rfl (fun u hu ↦ Or.inr ⟨g, ?_⟩) ⟨xs, hok, hqueues⟩
      (fun x hx hx' ↦ hother x hx (hx' g)) result ⟨fun g' ↦ ?_, fun g' u hu ↦ ?_⟩
    · rw [List.mem_singleton.mp hu]
      exact blocked
    · by_cases hg : g' = g
      · subst hg
        simp [Runtime.Held, Sched.goto, TaskGroup.take, hhandles, halive]
      · rw [hother (.blockedTask g') (by simp) (by simp [hg])]
        have hheld := hρ.handles (.blockedTask g')
        simpa [Runtime.Held, Sched.goto, Function.update_of_ne hg] using hheld
    · by_cases hg : g' = g
      · subst hg
        simp [Sched.goto, TaskGroup.take] at hu
      · exact hρ.current u (Or.inr ⟨g', by simpa [Sched.goto, Function.update_of_ne hg] using hu⟩)
  | @informNobody i c g p rest w' lt here nobody call result =>
    obtain ⟨xs, hok, hqueues⟩ := hρ.call_other (hρ.pre hroomy lt (.informTake here)) call rfl
    have hhandles := Op.handles_moveAssign call
    have hother : ∀ x : Holder, x ≠ .nowCanRun i → x ≠ .blockedTask g →
        w'.handles x = ρ.world.handles x := fun x hx hx' ↦ by
      rw [hhandles, Function.update_of_ne fun h ↦ hx' (Holder.name_injective h),
        Function.update_of_ne fun h ↦ hx (Holder.name_injective h)]
    have halive : (ρ.sched.group g).alive = true := hρ.tidy.onlyAliveUsed i lt g (by
      rw [Sched.pcs, here]
      rfl)
    refine hρ.of_inform htidy here rfl rfl (fun u hu ↦ absurd hu List.not_mem_nil)
      ⟨xs, hok, hqueues⟩ (fun x hx hx' ↦ hother x hx (hx' g))
      (by rw [result]; exact Option.some_ne_none _)
      ⟨fun g' ↦ ?_, fun g' u hu ↦ hρ.current u (Or.inr ⟨g', hu⟩)⟩
    by_cases hg : g' = g
    · subst hg
      simp [Runtime.Held, Sched.goto, hhandles, halive, nobody]
    · rw [hother (.blockedTask g') (by simp) (by simp [hg])]
      exact hρ.handles (.blockedTask g')
  | @informEnqueue i c g w h p rest w' lt here copy call =>
    have hmem : w ∈ (ρ.sched.thread i).pc.informing := by
      rw [here]
      exact List.mem_singleton_self w
    refine hρ.of_enqueue htidy lt rfl rfl rfl ?_ copy
      (hρ.pre_enqueue lt copy (hσ.notMem_line lt (Or.inr hmem))) call
    rw [here]
    refine Pc.keeps_goOn fun addr v hv ↦ ?_
    rw [show v = some (some (addr w)) from hv]
    exact Option.some_ne_none _
  | @informUnlock i c g p rest w' lt here call =>
    obtain ⟨xs, hok, hqueues⟩ := hρ.call_other (Op.pre_destroy hroomy call) call rfl
    have hhandles := Op.handles_destroy call
    have hother : ∀ x : Holder, x ≠ .nowCanRun i → w'.handles x = ρ.world.handles x := fun x hx ↦ by
      rw [hhandles, Function.update_of_ne fun h ↦ hx (Holder.name_injective h)]
    refine hρ.of_inform htidy here rfl rfl (fun u hu ↦ absurd hu List.not_mem_nil)
      ⟨xs, hok, hqueues⟩ (fun x hx _ ↦ hother x hx)
      (by rw [hhandles]; exact Function.update_self _ _ _)
      (hρ.groups (fun g' ↦ ?_) fun g' ↦ hother (.blockedTask g') (by simp))
    by_cases hg : g' = g
    · subst hg
      simp [Sched.goto]
    · simp [Sched.goto, Function.update_of_ne hg]

end TYThread
