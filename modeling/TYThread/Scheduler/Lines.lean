import TYThread.Scheduler.Steps

/-!
# The lines of tasks

The tasks that wait for a thread stand in a line: the list that it has stolen and not installed yet,
then its runnable queue. A step does one of four things to the lines. Seen from a task that waits,
the tasks before it in its line only get fewer: others join at the end, and a thief takes the front
of the line in its order. So a task waits for no more dequeues of its line than there are tasks
before it.
-/

namespace TYThread

open Transition

/-- The tasks that wait for the thread, the next one first. -/
def PerThreadMgr.line (m : PerThreadMgr) : List ℕ := m.pc.stolen ++ m.runnableQueue

/-- `t` waits in the line of thread `i`, behind `k` other tasks. -/
def Sched.WaitsAt (σ : Sched) (t i k : ℕ) : Prop := (σ.thread i).line[k]? = some t

/-- What a step does to the lines. -/
inductive LineMove (σ σ' : Sched) : Label → Prop
  /-- A task that gets control back has not been in a line. -/
  | stay (l : Label) (lines : ∀ j, (σ'.thread j).line = (σ.thread j).line)
      (absent : ∀ u, l = .back u → ∀ j, u ∉ (σ.thread j).line) : LineMove σ σ' l
  | join {i t : ℕ} (line : (σ'.thread i).line = (σ.thread i).line ++ [t])
      (others : ∀ j, j ≠ i → (σ'.thread j).line = (σ.thread j).line) : LineMove σ σ' .other
  | leave {i t : ℕ} (line : (σ.thread i).line = t :: (σ'.thread i).line)
      (others : ∀ j, j ≠ i → (σ'.thread j).line = (σ.thread j).line) : LineMove σ σ' (.back t)
  /-- Thread `i` takes the front of the line of thread `v`. -/
  | split {i v : ℕ} (ne : i ≠ v) (empty : (σ.thread i).line = [])
      (line : (σ.thread v).line = (σ'.thread i).line ++ (σ'.thread v).line)
      (others : ∀ j, j ≠ i → j ≠ v → (σ'.thread j).line = (σ.thread j).line) : LineMove σ σ' .other

/-- A run from `σ` on in which `t` does not get control. It is given to `n` tasks that are the first
in the line in which `t` waits. -/
inductive KeptWaiting (N t : ℕ) (σ : Sched) : ℕ → Sched → Prop
  | start : KeptWaiting N t σ 0 σ
  | taken {n i k u : ℕ} {τ υ : Sched} (prev : KeptWaiting N t σ n τ) (waits : τ.WaitsAt t i k)
      (first : τ.WaitsAt u i 0) (ne : u ≠ t) (last : OneWaiterStep N τ (.back u) υ) :
      KeptWaiting N t σ (n + 1) υ
  | other {n : ℕ} {l : Label} {τ υ : Sched} (prev : KeptWaiting N t σ n τ)
      (last : OneWaiterStep N τ l υ) (ne : l ≠ .back t) : KeptWaiting N t σ n υ

variable {N t u i j k k' n : ℕ} {σ σ' τ : Sched} {l : Label} {m : PerThreadMgr}

/-! ## Lines -/

theorem PerThreadMgr.count_line_le (m : PerThreadMgr) (t : ℕ) : m.line.count t ≤ m.count t := by
  rw [line, List.count_append, count]
  omega

theorem Control.stolen {pc pc' : Pc} (h : Control N σ i pc pc') : pc.stolen = [] ∧
    pc'.stolen = [] := by
  cases h <;> exact ⟨rfl, rfl⟩

namespace Sched.Ok

theorem lt_of_line (hσ : σ.Ok N) (h : t ∈ (σ.thread i).line) : i < N := by
  by_contra hi
  rw [hσ.outside i (not_lt.mp hi), Sched.initial] at h
  by_cases h0 : i = 0 <;> simp [h0, PerThreadMgr.line, Pc.stolen] at h

theorem count_pos_of_line (h : t ∈ (σ.thread i).line) : 0 < (σ.thread i).count t :=
  (List.count_pos_iff.mpr h).trans_le ((σ.thread i).count_line_le t)

theorem waitsAt_unique (hσ : σ.Ok N) (h : σ.WaitsAt t i k) (h' : σ.WaitsAt t j k') :
    i = j ∧ k = k' := by
  have hi := List.mem_of_getElem? h
  have hj := List.mem_of_getElem? h'
  obtain rfl := hσ.eq_of_count (hσ.lt_of_line hi) (hσ.lt_of_line hj) (count_pos_of_line hi)
    (count_pos_of_line hj)
  have hnodup : (σ.thread i).line.Nodup := List.nodup_iff_count_le_one.mpr fun u ↦
    ((σ.thread i).count_line_le u).trans (hσ.count_le_one (hσ.lt_of_line hi))
  obtain ⟨hk, -⟩ := List.getElem?_eq_some_iff.mp h
  exact ⟨rfl, (List.getElem?_inj hk hnodup).mp (h.trans h'.symm)⟩

end Sched.Ok

/-! ## One step -/

theorem LineMove.of_update (hthread : σ'.thread = Function.update σ.thread i m)
    (hline : m.line = (σ.thread i).line) (habsent : ∀ u, l = .back u → ∀ j, u ∉ (σ.thread j).line) :
    LineMove σ σ' l := by
  refine .stay l (fun j ↦ ?_) habsent
  by_cases hj : j = i
  · rw [hthread, hj, Function.update_self, hline]
  · rw [hthread, Function.update_of_ne hj]

/-- **One step** moves the lines in one of these ways. -/
theorem Step.lines (h : Step N σ l σ') (hσ : σ.Ok N) : LineMove σ σ' l := by
  have hother : ∀ u, Label.other = .back u → ∀ j, u ∉ (σ.thread j).line := fun u h ↦ by cases h
  -- The thread `j` goes on to `pc`, and may enqueue `u`.
  have hgoto : ∀ {j : ℕ} {pc : Pc} {l : Label}, (σ.thread j).pc.stolen = [] → pc.stolen = [] →
      σ'.thread = Function.update σ.thread j { σ.thread j with pc } →
      (∀ u, l = .back u → ∀ j, u ∉ (σ.thread j).line) → LineMove σ σ' l := by
    intro j pc l hold hnew hthread habsent
    refine .of_update hthread ?_ habsent
    rw [PerThreadMgr.line, PerThreadMgr.line, hold, hnew]
  have henqueue : ∀ {j u : ℕ} {pc : Pc}, (σ.thread j).pc.stolen = [] → pc.stolen = [] →
      σ'.thread = Function.update σ.thread j
        { σ.thread j with runnableQueue := (σ.thread j).runnableQueue ++ [u], pc } →
      LineMove σ σ' .other := by
    intro j u pc hold hnew hthread
    refine .join (i := j) (t := u) ?_ fun j' hj ↦ by rw [hthread, Function.update_of_ne hj]
    rw [hthread, Function.update_self, PerThreadMgr.line, PerThreadMgr.line, hold, hnew]
    rfl
  cases h with
  | terminateGracefully | newTask => exact .stay _ (fun _ ↦ rfl) hother
  | registe | registeFini | waitDone | destroy =>
    exact .stay _ (fun _ ↦ rfl) fun u h ↦ by cases h
  | @addRunnable i t lt client made once =>
    have hstolen : (σ.thread i).pc.stolen = [] := by
      revert client
      cases (σ.thread i).pc <;> simp [Pc.Client, Pc.stolen]
    exact henqueue hstolen hstolen rfl
  | control lt here move => exact hgoto (by rw [here]; exact move.stolen.1) move.stolen.2 rfl hother
  | @dequeue i t ts lt here queue =>
    refine .leave (i := i) ?_ fun j hj ↦ congrArg _ (Function.update_of_ne hj _ _)
    rw [PerThreadMgr.line, here, queue, Sched.setThread_thread, Function.update_self]
    rfl
  | @steal i v xs ys lt here victim ne queue nonempty =>
    have hshape := (hσ.thread i lt).shape
    rw [PerThreadMgr.Shape, here] at hshape
    replace hshape : (σ.thread i).runnableQueue = [] := hshape
    have hstolen : (σ.thread v).pc.stolen = [] := by
      have hvictim := (hσ.thread v victim).shape
      rw [PerThreadMgr.Shape, queue] at hvictim
      revert hvictim
      cases (σ.thread v).pc <;> simp [Pc.stolen, nonempty]
    refine .split (i := i) (v := v) ne.symm ?_ ?_ fun j hji hjv ↦ ?_
    · rw [PerThreadMgr.line, here, hshape]
      rfl
    · rw [PerThreadMgr.line, hstolen, queue, Sched.goto, Sched.setThread_thread,
        Sched.setThread_thread, Function.update_self, Function.update_of_ne ne.symm,
        Function.update_of_ne ne, Function.update_self, PerThreadMgr.line, PerThreadMgr.line,
        hstolen,
        hshape, List.append_nil]
      rfl
    · rw [Sched.goto, Sched.setThread_thread, Function.update_of_ne hji, Sched.setThread_thread,
        Function.update_of_ne hjv]
  | @install i xs lt here =>
    have hshape := (hσ.thread i lt).shape
    rw [PerThreadMgr.Shape, here] at hshape
    replace hshape : (σ.thread i).runnableQueue = [] := hshape
    refine .of_update (i := i) rfl ?_ hother
    rw [PerThreadMgr.line, PerThreadMgr.line, here, hshape]
    exact (List.append_nil xs).symm
  | @erase i k t lt here entry =>
    exact .of_update (i := i) rfl (by rw [PerThreadMgr.line, PerThreadMgr.line, here]; rfl) hother
  | @handleMpi i t lt here state =>
    exact .of_update (i := i) rfl (by rw [PerThreadMgr.line, PerThreadMgr.line, here]; rfl) hother
  | @pollTask i k t lt here entry =>
    refine hgoto (by rw [here]; rfl) rfl rfl fun u hu j hmem ↦ ?_
    obtain rfl := Label.back.inj hu
    -- A task is not in a line and in `mpi_blocked_queue`.
    have hparked : 0 < (σ.thread i).parked.count t := by
      rw [PerThreadMgr.parked, here]
      exact List.count_pos_iff.mpr (List.mem_of_getElem? entry)
    have hline := List.count_pos_iff.mpr hmem
    obtain rfl := hσ.eq_of_count lt (hσ.lt_of_line hmem) (t := t)
      (by rw [PerThreadMgr.count]; omega) (Sched.Ok.count_pos_of_line hmem)
    have hle := hσ.count_le_one (t := t) lt
    rw [PerThreadMgr.line, List.count_append] at hline
    rw [PerThreadMgr.count] at hle
    omega
  | waitYield lt here => exact hgoto (by rw [here]; rfl) rfl rfl fun u h ↦ by cases h
  | yield lt here | terminate lt here | informLock lt here | informDecrement lt here
  | informTake lt here | informNobody lt here | informUnlock lt here | terminated lt here
  | stillMpi lt here | handleWait lt here | resumeLock lt here | resumeZero lt here
  | resumeBlock lt here => exact hgoto (by rw [here]; rfl) rfl rfl hother
  | handleOther lt here => exact hgoto (by rw [here]; rfl) Pc.stolen_afterTask rfl hother
  | @resumeUnlock i t g p result lt here =>
    refine hgoto (by rw [here]; rfl) ?_ rfl hother
    cases result with
    | true => rfl
    | false => exact Pc.stolen_afterTask
  | informEnqueue lt here => exact henqueue (by rw [here]; rfl) rfl rfl
  | handleRunnable lt here | requeue lt here =>
    exact henqueue (by rw [here]; rfl) Pc.stolen_afterTask rfl

/-- **One step** puts nobody before a task that waits. -/
theorem LineMove.waitsAt (h : LineMove σ σ' l) (hwaits : σ.WaitsAt t i k) (hne : l ≠ .back t) :
    ∃ j k', σ'.WaitsAt t j k' ∧ k' ≤ k := by
  obtain ⟨hlt, -⟩ := List.getElem?_eq_some_iff.mp hwaits
  cases h with
  | stay l lines => exact ⟨i, k, by rwa [Sched.WaitsAt, lines], le_rfl⟩
  | @join i' u line others =>
    refine ⟨i, k, ?_, le_rfl⟩
    by_cases hi : i = i'
    · subst hi
      rwa [Sched.WaitsAt, line, List.getElem?_append_left hlt]
    · rwa [Sched.WaitsAt, others i hi]
  | @leave i' u line others =>
    by_cases hi : i = i'
    · subst hi
      rw [Sched.WaitsAt, line] at hwaits
      cases k with
      | zero => exact absurd (congrArg Label.back (Option.some.inj hwaits)) hne
      | succ k => exact ⟨i, k, hwaits, Nat.le_succ k⟩
    · exact ⟨i, k, by rwa [Sched.WaitsAt, others i hi], le_rfl⟩
  | @split i' v ne empty line others =>
    by_cases hv : i = v
    · subst hv
      rw [Sched.WaitsAt, line] at hwaits
      by_cases hk : k < (σ'.thread i').line.length
      · -- The thief takes the task, and what is before it.
        exact ⟨i', k, by rwa [List.getElem?_append_left hk] at hwaits, le_rfl⟩
      · exact ⟨i, _, by rwa [List.getElem?_append_right (not_lt.mp hk)] at hwaits, Nat.sub_le _ _⟩
    · have hi : i ≠ i' := by
        rintro rfl
        rw [Sched.WaitsAt, empty] at hwaits
        cases hwaits
      exact ⟨i, k, by rwa [Sched.WaitsAt, others i hi hv], le_rfl⟩

/-- The first task of a line gets control, and all others of the line move up. -/
theorem LineMove.waitsAt_taken (h : LineMove σ σ' (.back u)) (hσ : σ.Ok N)
    (hwaits : σ.WaitsAt t i k)
    (hfirst : σ.WaitsAt u i 0) (hne : u ≠ t) : ∃ k', σ'.WaitsAt t i k' ∧ k' + 1 = k := by
  cases h with
  | stay _ lines absent => exact absurd (List.mem_of_getElem? hfirst) (absent u rfl i)
  | @leave i' u line others =>
    have hleaves : σ.WaitsAt u i' 0 := by rw [Sched.WaitsAt, line]; rfl
    obtain ⟨rfl, -⟩ := hσ.waitsAt_unique hfirst hleaves
    rw [Sched.WaitsAt, line] at hwaits
    cases k with
    | zero => exact absurd (Option.some.inj hwaits) hne
    | succ k => exact ⟨k, hwaits, rfl⟩

/-! ## A whole run -/

/-- **Nobody overtakes a task in its line.** Let `k` tasks be before a task in its line. In every
run in which the task does not get control it keeps waiting in some line. There are never more than
`k` tasks before it, and one less for each time that the first task of its line gets control. So
this happens at most `k` times. -/
theorem not_overtaken (hrun : Reachable (OneWaiterStep N) Sched.initial σ)
    (waits : σ.WaitsAt t i k) (kept : KeptWaiting N t σ n τ) :
    ∃ j k', τ.WaitsAt t j k' ∧ k' + n ≤ k := by
  have hσ := Sched.Ok.of_reachable hrun
  suffices h : τ.Ok N ∧ ∃ j k', τ.WaitsAt t j k' ∧ k' + n ≤ k from h.2
  induction kept with
  | start => exact ⟨hσ, i, k, waits, le_rfl⟩
  | taken prev here first ne last ih =>
    obtain ⟨hτ, j, k', hwaits, hle⟩ := ih
    obtain ⟨rfl, rfl⟩ := hτ.waitsAt_unique here hwaits
    obtain ⟨k'', hwaits', hk⟩ := (last.1.lines hτ).waitsAt_taken hτ here first ne
    exact ⟨last.1.ok hτ last.2, _, k'', hwaits', by omega⟩
  | other prev last ne ih =>
    obtain ⟨hτ, j, k', hwaits, hle⟩ := ih
    obtain ⟨j', k'', hwaits', hk⟩ := (last.1.lines hτ).waitsAt hwaits ne
    exact ⟨last.1.ok hτ last.2, j', k'', hwaits', by omega⟩

/-- Of two tasks in the line of thread `0` the first one gets control, then thread `1` steals the
second. -/
theorem not_overtaken_stolen :
    ∃ σ τ, Reachable (OneWaiterStep 2) Sched.initial σ ∧ σ.WaitsAt 1 0 1 ∧ KeptWaiting 2 1 σ 1 τ ∧
      ∃ j k', τ.WaitsAt 1 j k' ∧ k' + 1 ≤ 1 := by
  have hrun : Reachable (OneWaiterStep 2) Sched.initial _ :=
    (((((Reachable.refl _ _).snoc
      ⟨Step.newTask (i := 0) false (by decide) trivial, trivial⟩).snoc
      ⟨Step.newTask (i := 0) false (by decide) trivial, trivial⟩).snoc
      ⟨Step.addRunnable (i := 0) (t := 0) (by decide) trivial (by decide) rfl, trivial⟩).snoc
      ⟨Step.addRunnable (i := 0) (t := 1) (by decide) trivial (by decide) rfl, trivial⟩).snoc
      ⟨Step.control (i := 0) (by decide) rfl .start, trivial⟩
  obtain ⟨σ, τ, hrun, hwaits, hkept⟩ : ∃ σ τ, Reachable (OneWaiterStep 2) Sched.initial σ ∧
      σ.WaitsAt 1 0 1 ∧ KeptWaiting 2 1 σ 1 τ :=
    ⟨_, _, hrun, rfl, ((KeptWaiting.start.taken (i := 0) (k := 1) (u := 0) (by rfl) (by rfl)
      (by decide) ⟨Step.dequeue (i := 0) (by decide) rfl rfl, trivial⟩).other
      ⟨Step.control (i := 1) (by decide) rfl (.empty rfl), trivial⟩ (by decide)).other
      ⟨Step.steal (i := 1) (v := 0) (by decide) rfl (by decide) (by decide)
        (show _ = [1] ++ [] from rfl) (by decide), trivial⟩ (by decide)⟩
  exact ⟨σ, τ, hrun, hwaits, hkept, not_overtaken hrun hwaits hkept⟩

end TYThread
