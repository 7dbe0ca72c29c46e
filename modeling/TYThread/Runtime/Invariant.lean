import TYThread.Runtime.Calls
import TYThread.Scheduler.Lines

/-!
# The invariant of the runtime

The lists hold the tasks of the scheduler's queues, and the handles that the scheduler relies on
hold what the scheduler thinks they do. A task that the scheduler has anywhere is the last one made
at its address. So what the threads and the groups have is alive, and no two of these tasks share an
address.
-/

namespace TYThread

open Counting Transition

/-- The thread has the task `t` in a queue, in a list or in a handle. -/
def PerThreadMgr.Uses (m : PerThreadMgr) (t : ℕ) : Prop :=
  t ∈ m.runnableQueue ∨ t ∈ m.pc.stolen ∨ t ∈ m.mpiBlockedQueue ∨ m.pc.ptr = some t ∨
    t ∈ m.pc.informing

def Sched.Used (σ : Sched) (t : ℕ) : Prop :=
  (∃ i, (σ.thread i).Uses t) ∨ ∃ g, (σ.group g).blockedTask = some t

namespace Runtime

variable (ρ : Runtime)

/-- The queues of the scheduler, by address. -/
def queues (N : ℕ) : SplitQueue.State ℕ Addr := fun l ↦
  if l / 2 < N then
    if l % 2 = 0 then some ((ρ.sched.thread (l / 2)).runnableQueue.map ρ.addr)
    else (ρ.sched.thread (l / 2)).pc.installing.map (List.map ρ.addr)
  else none

/-- `v` is what the scheduler relies on the handle to hold. -/
def Held (v : Option (Option Addr)) : Holder → Prop
  | .ptr i => ∀ t, (ρ.sched.thread i).pc.ptr = some t → v = some (some (ρ.addr t))
  | .entry i t =>
    v = if t ∈ (ρ.sched.thread i).mpiBlockedQueue then some (some (ρ.addr t)) else none
  | .blockedTask g =>
    v = if (ρ.sched.group g).alive = true then some ((ρ.sched.group g).blockedTask.map ρ.addr)
      else none
  | .nowCanRun i => (ρ.sched.thread i).pc.NowCanRun ρ.addr v
  | .other _ => True

structure Ok (N : ℕ) (owner : ℕ → ℕ) (ρ : Runtime) : Prop where
  tidy : ρ.sched.Tidy N owner
  world : ∃ xs, ρ.world.Ok xs ∧ ρ.world.queues xs = ρ.queues N
  handles : ∀ x : Holder, ρ.Held (ρ.world.handles x) x
  nodup : ∀ i, (ρ.sched.thread i).mpiBlockedQueue.Nodup
  current : ∀ t, ρ.sched.Used t → ρ.Current t

end Runtime

variable {N : ℕ} {owner : ℕ → ℕ} {ρ ρ' : Runtime} {i j g t u : ℕ} {l : Label}

/-! ## Names -/

@[simp] theorem Holder.name_inj {x y : Holder} : x.name = y.name ↔ x = y :=
  Holder.name_injective.eq_iff

@[simp] theorem ListName.name_inj {x y : ListName} : x.name = y.name ↔ x = y :=
  ListName.name_injective.eq_iff

theorem ListName.exists_name (l : ℕ) : ∃ x : ListName, x.name = l := by
  rcases Nat.even_or_odd' l with ⟨i, rfl | rfl⟩
  · exact ⟨.runnableQueue i, rfl⟩
  · exact ⟨.skiplistptr i, rfl⟩

theorem Sched.used_of_line {σ : Sched} (h : u ∈ (σ.thread i).line) : σ.Used u := by
  rw [PerThreadMgr.line, List.mem_append] at h
  exact Or.inl ⟨i, h.symm.elim Or.inl fun h ↦ Or.inr (Or.inl h)⟩

namespace Runtime

@[simp] theorem queues_runnableQueue :
    ρ.queues N (ListName.runnableQueue i)
      = if i < N then some ((ρ.sched.thread i).runnableQueue.map ρ.addr) else none := by
  rw [queues, ListName.name, Nat.mul_div_cancel_left i two_pos, Nat.mul_mod_right]
  simp

@[simp] theorem queues_skiplistptr :
    ρ.queues N (ListName.skiplistptr i)
      = if i < N then (ρ.sched.thread i).pc.installing.map (List.map ρ.addr) else none := by
  have hdiv : (2 * i + 1) / 2 = i := by omega
  have hmod : (2 * i + 1) % 2 = 1 := by omega
  rw [queues, ListName.name, hdiv, hmod]
  simp

theorem eq_queues {q : SplitQueue.State ℕ Addr}
    (h : ∀ x : ListName, q x = ρ.queues N x) : q = ρ.queues N := by
  funext l
  obtain ⟨x, rfl⟩ := ListName.exists_name l
  exact h x

theorem Current.eq (ht : ρ.Current t) (hu : ρ.Current u) (h : ρ.addr t = ρ.addr u) : t = u :=
  Nat.le_antisymm (hu.2 t ht.1 h) (ht.2 u hu.1 h.symm)

namespace Ok

variable (hρ : ρ.Ok N owner)

include hρ

theorem sched : ρ.sched.Ok N := hρ.tidy.grouped.ok

theorem contents {q : ℕ} {as : List Addr} (h : ρ.queues N q = some as) : ρ.world.Contents q as := by
  obtain ⟨xs, hok, hqueues⟩ := hρ.world
  obtain ⟨hs, hxs⟩ := World.queues_eq_some ((congrFun hqueues q).trans h)
  exact hok.contents_iff.mpr ⟨hs, hxs.symm⟩

theorem contents_runnableQueue (hi : i < N) : ρ.world.Contents (ListName.runnableQueue i)
    ((ρ.sched.thread i).runnableQueue.map ρ.addr) :=
  hρ.contents (queues_runnableQueue.trans (if_pos hi))

theorem contents_skiplistptr (hi : i < N) {xs : List ℕ}
    (here : (ρ.sched.thread i).pc = .install xs) :
    ρ.world.Contents (ListName.skiplistptr i) (xs.map ρ.addr) :=
  hρ.contents (by rw [queues_skiplistptr, if_pos hi, here]; rfl)

theorem list_runnableQueue (hi : i < N) :
    ∃ s, ρ.world.lists (ListName.runnableQueue i) = some s :=
  (hρ.contents_runnableQueue hi).imp fun _ hs ↦ hs.1

theorem exists_of_linked {a : Addr} (h : ρ.world.Linked a) :
    ∃ i u, u ∈ (ρ.sched.thread i).line ∧ ρ.addr u = a := by
  obtain ⟨xs, hok, hqueues⟩ := hρ.world
  obtain ⟨l, ys, hys, ha⟩ := h
  obtain ⟨⟨s, hs⟩, rfl⟩ := hok.contents_iff.mp hys
  have hqueue : ρ.world.queues xs l = some (xs l) := World.queues_of_some hs
  obtain ⟨x, rfl⟩ := ListName.exists_name l
  rw [hqueues] at hqueue
  cases x with
  | runnableQueue i =>
    rw [queues_runnableQueue] at hqueue
    obtain ⟨-, hqueue⟩ := Option.ite_none_right_eq_some.mp hqueue
    rw [← Option.some.inj hqueue] at ha
    obtain ⟨u, hu, rfl⟩ := List.mem_map.mp ha
    exact ⟨i, u, List.mem_append_right _ hu, rfl⟩
  | skiplistptr i =>
    rw [queues_skiplistptr] at hqueue
    obtain ⟨-, hqueue⟩ := Option.ite_none_right_eq_some.mp hqueue
    obtain ⟨zs, hzs, hmap⟩ := Option.map_eq_some_iff.mp hqueue
    rw [← hmap] at ha
    obtain ⟨u, hu, rfl⟩ := List.mem_map.mp ha
    refine ⟨i, u, List.mem_append_left _ ?_, rfl⟩
    revert hzs
    cases (ρ.sched.thread i).pc with
    | install =>
      intro hzs
      rwa [Pc.stolen, Option.some.inj hzs]
    | _ =>
      intro hzs
      cases hzs

theorem not_linked (ht : ρ.Current t) (h : ∀ j, t ∉ (ρ.sched.thread j).line) :
    ¬ρ.world.Linked (ρ.addr t) := by
  intro hlinked
  obtain ⟨j, u, hu, haddr⟩ := hρ.exists_of_linked hlinked
  exact h j (((hρ.current u (Sched.used_of_line hu)).eq ht haddr) ▸ hu)

end Ok

end Runtime

/-! ## What is called for -/

namespace Sched.Ok

variable {σ : Sched} {p : Option ℕ} {act : Activity}

theorem notMem_line (hσ : σ.Ok N) (hi : i < N)
    (h : t ∈ (σ.thread i).pc.running ∨ t ∈ (σ.thread i).pc.informing) (j : ℕ) :
    t ∉ (σ.thread j).line := by
  intro hline
  have hpos : 0 < (σ.thread i).pc.running.count t + (σ.thread i).pc.informing.count t := by
    rcases h with h | h <;>
      · have := List.count_pos_iff.mpr h
        omega
  have hcount : 0 < (σ.thread i).count t := by
    rw [PerThreadMgr.count]
    omega
  obtain rfl := hσ.eq_of_count hi (hσ.lt_of_line hline) hcount (count_pos_of_line hline)
  have hone := hσ.count_le_one (t := t) hi
  have htwo := List.count_pos_iff.mpr hline
  rw [PerThreadMgr.line, List.count_append] at htwo
  rw [PerThreadMgr.count] at hone
  omega

theorem notMem_line_of_fresh (hσ : σ.Ok N) (h : (σ.task t).spawned = false) (j : ℕ) :
    t ∉ (σ.thread j).line := by
  intro hline
  rw [hσ.spawned_of_count (hσ.lt_of_line hline) (count_pos_of_line hline)] at h
  cases h

/-- A task in `ptr` that has not been routed is not in `mpi_blocked_queue` of the thread. -/
theorem notMem_mpi (hσ : σ.Ok N) (hi : i < N) (here : (σ.thread i).pc = .task t none act)
    (hrun : t ∈ (σ.thread i).pc.running) : t ∉ (σ.thread i).mpiBlockedQueue := by
  intro hmem
  have hone := hσ.count_le_one (t := t) hi
  have hpos := List.count_pos_iff.mpr hrun
  have hparked : (σ.thread i).parked = (σ.thread i).mpiBlockedQueue := by
    rw [PerThreadMgr.parked, here]
    rfl
  have hmpi := List.count_pos_iff.mpr hmem
  rw [PerThreadMgr.count, hparked] at hone
  omega

end Sched.Ok

namespace Runtime.Ok

variable (hρ : ρ.Ok N owner) {p : Option ℕ} {act : Activity}

include hρ

/-- The task that a thread has in its hands is held by `ptr` or by the entry. -/
theorem handle_inHand (hi : i < N) (here : (ρ.sched.thread i).pc = .task t p act) :
    ρ.world.handles (Holder.inHand i t p) = some (some (ρ.addr t)) := by
  cases p with
  | none => exact hρ.handles (.ptr i) t (by rw [here]; rfl)
  | some k =>
    have hshape := (hρ.sched.thread i hi).shape
    rw [PerThreadMgr.Shape, here] at hshape
    have hentry := hρ.handles (.entry i t)
    rwa [Held, if_pos (List.mem_of_getElem? (hshape k rfl))] at hentry

theorem used_of_task (hi : i < N) (here : (ρ.sched.thread i).pc = .task t p act) :
    ρ.sched.Used t := by
  refine Or.inl ⟨i, ?_⟩
  cases p with
  | none => exact Or.inr (Or.inr (Or.inr (Or.inl (by rw [here]; rfl))))
  | some k =>
    have hshape := (hρ.sched.thread i hi).shape
    rw [PerThreadMgr.Shape, here] at hshape
    exact Or.inr (Or.inr (Or.inl (List.mem_of_getElem? (hshape k rfl))))

theorem pre_enqueue (hi : i < N) {h : ℕ} (hrefers : ρ.Refers h t)
    (hline : ∀ j, t ∉ (ρ.sched.thread j).line) :
    (Op.enqueueCopy (ListName.runnableQueue i) h).Pre ρ.world :=
  ⟨hρ.list_runnableQueue hi, _, hrefers.1, hρ.not_linked hrefers.2 hline⟩

theorem refers_inHand (hi : i < N) (here : (ρ.sched.thread i).pc = .task t p act) :
    ρ.Refers (Holder.inHand i t p) t :=
  ⟨hρ.handle_inHand hi here, hρ.current t (hρ.used_of_task hi here)⟩

/-- **What a thread calls next is called as it should be.** -/
theorem pre (hroomy : ρ.Roomy) (hi : i < N) {op : Op} (h : ρ.NextCall N i op) :
    op.Pre ρ.world := by
  have hσ := hρ.sched
  have hbound : ∀ p : Option Addr, ∀ a, p = some a → ρ.world.owners a < unsignedRange :=
    fun _ a _ ↦ hroomy a
  have hexists : ∀ {h : ℕ}, ρ.world.handles h ≠ none → (Op.destroy h).Pre ρ.world := by
    intro h hne
    obtain ⟨p, hp⟩ := Option.ne_none_iff_exists'.mp hne
    exact ⟨p, hp, hbound p⟩
  cases h with
  | dispose here there => exact hexists there
  | dequeue here gone => exact ⟨hρ.list_runnableQueue hi, gone⟩
  | @dequeueHalf v here victim ne =>
    refine ⟨hρ.list_runnableQueue victim, ?_⟩
    obtain ⟨xs, -, hqueues⟩ := hρ.world
    have hqueue := congrFun hqueues (ListName.skiplistptr i)
    rw [queues_skiplistptr, if_pos hi, here] at hqueue
    exact Option.map_eq_none_iff.mp hqueue
  | @replace zs here =>
    have hshape := (hσ.thread i hi).shape
    rw [PerThreadMgr.Shape, here] at hshape
    have hown := hρ.contents_runnableQueue hi
    rw [show (ρ.sched.thread i).runnableQueue = [] from hshape] at hown
    exact ⟨fun h ↦ by simp at h, hown, (hρ.contents_skiplistptr hi here).imp fun _ hs ↦ hs.1⟩
  | @handleRunnable t p here state =>
    refine hρ.pre_enqueue hi (hρ.refers_inHand hi here) (hσ.notMem_line hi (Or.inl ?_))
    rw [here]
    exact List.mem_singleton_self t
  | @requeue t p here =>
    refine hρ.pre_enqueue hi (hρ.refers_inHand hi here) (hσ.notMem_line hi (Or.inl ?_))
    rw [here]
    exact List.mem_singleton_self t
  | @handleMpi t here state =>
    refine ⟨?_, _, hρ.handle_inHand hi here⟩
    have hentry := hρ.handles (.entry i t)
    rwa [Held, if_neg (hσ.notMem_mpi hi here (by rw [here]; exact List.mem_singleton_self t))]
      at hentry
  | @resumeBlock t g p here blocking =>
    have halive : (ρ.sched.group g).alive = true := hρ.tidy.onlyAliveUsed i hi g (by
      rw [Sched.pcs, here]
      rfl)
    have hblocked := hρ.handles (.blockedTask g)
    rw [Held, if_pos halive] at hblocked
    exact ⟨⟨_, hρ.handle_inHand hi here⟩, _, hblocked, hbound _⟩
  | @erase k t here entry =>
    refine hexists ?_
    have hentry := hρ.handles (.entry i t)
    rw [Held, if_pos (List.mem_of_getElem? entry)] at hentry
    rw [hentry]
    exact Option.some_ne_none _
  | @informTake c g p rest here =>
    have halive : (ρ.sched.group g).alive = true := hρ.tidy.onlyAliveUsed i hi g (by
      rw [Sched.pcs, here]
      rfl)
    have hblocked := hρ.handles (.blockedTask g)
    rw [Held, if_pos halive] at hblocked
    have hnow := hρ.handles (.nowCanRun i)
    rw [Held, here] at hnow
    exact ⟨⟨_, hblocked⟩, _, hnow, hbound _⟩
  | @informEnqueue c g w p rest here =>
    have hnow := hρ.handles (.nowCanRun i)
    rw [Held, here] at hnow
    have hmem : w ∈ (ρ.sched.thread i).pc.informing := by
      rw [here]
      exact List.mem_singleton_self w
    exact hρ.pre_enqueue hi
      ⟨hnow, hρ.current w (Or.inl ⟨i, Or.inr (Or.inr (Or.inr (Or.inr hmem)))⟩)⟩
      (hσ.notMem_line hi (Or.inr hmem))
  | informUnlock here =>
    have hnow := hρ.handles (.nowCanRun i)
    rw [Held, here] at hnow
    exact hexists hnow

end Runtime.Ok

end TYThread
