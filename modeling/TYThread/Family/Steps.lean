import TYThread.Family.Invariant

/-!
# Every operation keeps the invariant

Each operation, called as it should be, has a result; the world is in order again; on the queues it
is a step of the abstract family of queues; and it deletes the objects that lose their last owner.
The operations on handles leave the queues alone, and those on queues leave the number of owners of
every object alone, apart from the enqueue that takes a new reference.
-/

namespace TYThread

open LinkedList Counting

/-- The contents as abstract queues. -/
def World.queues (w : World) (xs : ℕ → List Addr) : SplitQueue.State ℕ Addr :=
  fun l ↦ (w.lists l).map fun _ ↦ xs l

/-- What an operation does to the abstract queues, with its results. -/
def Op.label (w w' : World) : Op → SplitQueue.Label ℕ Addr
  | enqueueCopy l h | enqueueMove l h =>
    match w.handles h with
    | some (some a) => .enqueue l a
    | _ => .other
  | dequeue l h => .dequeue l (w'.handles h).join
  | dequeueHalf l r | dequeueHalf_ l r => .split l r (w'.lists r).isSome
  | replace l r => .replace l r
  | _ => .other

theorem Op.label_enqueueCopy {w : World} (w' : World) (l : ℕ) {h : ℕ} {a : Addr}
    (hh : w.handles h = some (some a)) : label w w' (.enqueueCopy l h) = .enqueue l a := by
  unfold label
  simp only [hh]

theorem Op.label_enqueueMove {w : World} (w' : World) (l : ℕ) {h : ℕ} {a : Addr}
    (hh : w.handles h = some (some a)) : label w w' (.enqueueMove l h) = .enqueue l a :=
  label_enqueueCopy w' l hh

theorem Op.label_dequeue (w w' : World) (l h : ℕ) :
    label w w' (.dequeue l h) = .dequeue l (w'.handles h).join := rfl

/-- The object that an operation makes. -/
def Op.created : Op → Option Addr
  | newObject a | makeRefPtr _ a => some a
  | _ => none

structure StepOk (w w' : World) (xs xs' : ℕ → List Addr) (op : Op) : Prop where
  ok : w'.Ok xs'
  queue : SplitQueue.Step (w.queues xs) (op.label w w') (w'.queues xs')
  deletes : Deletes w.heap w'.heap op.created (ownersOf w.handles xs) (ownersOf w'.handles xs')

theorem World.queues_of_some {w : World} {xs : ℕ → List Addr} {l : ℕ} {s : Skiplist}
    (h : w.lists l = some s) : w.queues xs l = some (xs l) := by
  rw [queues, h]
  rfl

theorem World.queues_of_none {w : World} {xs : ℕ → List Addr} {l : ℕ} (h : w.lists l = none) :
    w.queues xs l = none := by
  rw [queues, h]
  rfl

theorem World.queues_eq_some {w : World} {xs : ℕ → List Addr} {l : ℕ} {ys : List Addr}
    (h : w.queues xs l = some ys) : (∃ s, w.lists l = some s) ∧ xs l = ys := by
  rw [queues, Option.map_eq_some_iff] at h
  obtain ⟨s, hs, rfl⟩ := h
  exact ⟨⟨s, hs⟩, rfl⟩

theorem World.queues_update {w w' : World} {xs : ℕ → List Addr} {l : ℕ} {s : Skiplist}
    {ys : List Addr} (h : w'.lists = Function.update w.lists l (some s)) :
    w'.queues (Function.update xs l ys) = Function.update (w.queues xs) l (some ys) := by
  funext m
  rw [queues, h]
  by_cases hml : m = l
  · subst hml
    simp only [Function.update_self, Option.map_some]
  · simp only [Function.update_of_ne hml, queues]

section

variable {w : World} {xs : ℕ → List Addr}

/-! ## Handles -/

/-- An operation that changes no list and no link of an object with an owner. -/
theorem World.Ok.handleStep (hok : w.Ok xs) {w' : World} {op : Op} (hlists : w'.lists = w.lists)
    (hnode : w'.heap.node = w.heap.node) (hbrk : w'.heap.brk = w.heap.brk)
    (hnext : ∀ a, ownersOf w'.handles xs a ≠ 0 → w'.heap.nextOf a = w.heap.nextOf a)
    (hcounted : Counted w'.heap (ownersOf w'.handles xs))
    (hfin : ∀ a, Set.Finite {i | w'.handles i = some (some a)})
    (hdel : Deletes w.heap w'.heap op.created (ownersOf w.handles xs) (ownersOf w'.handles xs))
    (hlabel : op.label w w' = .other) : StepOk w w' xs xs op := by
  obtain ⟨S, hl⟩ := hok.lists
  refine ⟨⟨⟨S, ?_⟩, hcounted, hfin⟩, ?_, hdel⟩
  · rw [hlists]
    exact hl.congr hnode hbrk fun l a ha ↦ hnext a (World.Ok.owners_ne_zero ⟨l, ha⟩ _)
  · have hqueues : w'.queues xs = w.queues xs := by
      funext l
      rw [queues, hlists, queues]
    rw [hlabel, hqueues]
    exact .other

/-- One handle is set, and the object it now points to has got an owner more. -/
theorem World.Ok.gain (hok : w.Ok xs) {h : ℕ} (hh : w.handles h = none) {p : Option Addr}
    (hlive : ∀ a, p = some a → w.heap.counterOf a ≠ none) (op : Op)
    (hlabel : ∀ w', op.label w w' = .other) (hcreated : op.created = none) :
    ∃ heap, increase w.heap p = some heap ∧
      StepOk w (({ w with heap } : World).setHandle h (some p)) xs xs op := by
  have hown : ∀ a, ownersOf (Function.update w.handles h (some p)) xs a
      = ownersOf w.handles xs a + pointsTo p a := fun a ↦ by
    have := ownersOf_update xs (hok.finite a) h (some p)
    rw [hh, Option.join_none, pointsTo_none] at this
    exact this
  obtain ⟨heap, hrun, hn, hnext, hc, hcount⟩ := increase_counted hok.counted hlive hown
  refine ⟨heap, hrun, hok.handleStep rfl hn.node hn.brk (fun a _ ↦ by rw [← hnext]; rfl) hc
    (fun a ↦ finite_update (hok.finite a) h _) ?_ (hlabel _)⟩
  rw [hcreated]
  refine Deletes.none hn.deleted hcount fun a ↦ ?_
  change _ ≤ ownersOf (Function.update w.handles h (some p)) xs a
  rw [hown]
  exact Nat.le_add_right _ _

theorem World.Ok.lose (hok : w.Ok xs) {f : ℕ → Option (Option Addr)} {p : Option Addr}
    (hown : ∀ a, ownersOf w.handles xs a = ownersOf f xs a + pointsTo p a)
    (hbound : ∀ a, p = some a → ownersOf w.handles xs a < unsignedRange)
    (hfin : ∀ a, Set.Finite {i | f i = some (some a)}) (op : Op)
    (hlabel : ∀ w', op.label w w' = .other) (hcreated : op.created = none) :
    ∃ heap, decrease w.heap p = some heap ∧
      StepOk w { w with heap, handles := f } xs xs op := by
  have hbound' : ∀ a, p = some a → ownersOf f xs a < unsignedRange := fun a ha ↦ by
    have := hbound a ha
    have := hown a
    omega
  obtain ⟨heap, hrun, hnode, hbrk, hnext, hc, hdel, hcount⟩ :=
    decrease_counted hok.counted hown hbound'
  refine ⟨heap, hrun, hok.handleStep rfl hnode hbrk hnext hc hfin ?_ (hlabel _)⟩
  rw [hcreated]
  refine Deletes.decrease (q := none) (fun a ↦ by rw [hown, pointsTo_none, Nat.add_zero])
    (fun a ↦ ?_) hdel hcount
  rw [hown]
  exact Nat.le_add_left _ _

theorem World.Ok.newObject (hok : w.Ok xs) {a : Addr} (ha : w.heap.obj a = none) :
    StepOk w (w.newObject a) xs xs (.newObject a) := by
  have hzero : ownersOf w.handles xs a = 0 := by
    by_contra hne
    exact hok.counted.live a hne (by rw [Heap.counterOf, ha]; rfl)
  refine hok.handleStep rfl rfl rfl (fun b hb ↦ ?_) ⟨fun b c hc ↦ ?_, fun b hb ↦ ?_⟩ hok.finite
    ⟨fun b ↦ ?_, fun b hb hb' ↦ absurd hb' hb, fun b ↦ ?_⟩ rfl
  · have hba : b ≠ a := fun heq ↦ hb (by rw [heq]; exact hzero)
    rw [Heap.nextOf, World.newObject, Heap.setObj_obj, Function.update_of_ne hba, Heap.nextOf]
  · rw [Heap.counterOf, World.newObject, Heap.setObj_obj] at hc
    by_cases hba : b = a
    · subst hba
      rw [Function.update_self, Option.map_some, Option.some.injEq] at hc
      change c = ownersOf w.handles xs b % unsignedRange
      rw [hzero, ← hc, Nat.zero_mod]
    · rw [Function.update_of_ne hba] at hc
      exact hok.counted.counter b c hc
  · have hba : b ≠ a := fun heq ↦ hb (by rw [heq]; exact hzero)
    rw [Heap.counterOf, World.newObject, Heap.setObj_obj, Function.update_of_ne hba]
    exact hok.counted.live b hb
  · have hsame : ¬(ownersOf w.handles xs b = 1 ∧ ownersOf w.handles xs b = 0) := by omega
    change w.heap.deleted.count b = w.heap.deleted.count b
      + if ownersOf w.handles xs b = 1 ∧ ownersOf w.handles xs b = 0 then 1 else 0
    rw [if_neg hsame, Nat.add_zero]
  · have hsame : ¬(ownersOf w.handles xs b = 1 ∧ ownersOf w.handles xs b = 0) := by omega
    change _ ↔ _ ∨ (ownersOf w.handles xs b = 1 ∧ ownersOf w.handles xs b = 0)
    rw [Heap.counterOf, World.newObject, Heap.setObj_obj]
    by_cases hba : b = a
    · simp [hba, Op.created, hzero]
    · rw [Function.update_of_ne hba, Heap.counterOf]
      simp [Op.created, Ne.symm hba, hsame]

theorem World.Ok.construct (hok : w.Ok xs) {h : ℕ} {a : Addr} (hh : w.handles h = none)
    (ha : w.heap.counterOf a ≠ none) :
    ∃ w', w.construct h a = some w' ∧ StepOk w w' xs xs (.construct h a) := by
  obtain ⟨heap, hrun, hstep⟩ := hok.gain hh (p := some a)
    (fun b hb ↦ by rwa [← Option.some.inj hb]) (.construct h a) (fun _ ↦ rfl) rfl
  exact ⟨_, by rw [World.construct, hrun]; rfl, hstep⟩

theorem World.Ok.makeRefPtr (hok : w.Ok xs) {h : ℕ} {a : Addr} (hh : w.handles h = none)
    (ha : w.heap.obj a = none) :
    ∃ w', w.makeRefPtr h a = some w' ∧ StepOk w w' xs xs (.makeRefPtr h a) := by
  have hnew := hok.newObject ha
  have hlive : (w.newObject a).heap.counterOf a ≠ none := by
    rw [Heap.counterOf, World.newObject, Heap.setObj_obj, Function.update_self]
    simp
  obtain ⟨w', hrun, hstep⟩ := hnew.ok.construct (h := h) (a := a) hh hlive
  refine ⟨w', hrun, hstep.ok, hstep.queue, hstep.deletes.count, hstep.deletes.last, fun b ↦ ?_⟩
  rw [hstep.deletes.live b, hnew.deletes.live b]
  have hsame : ¬(ownersOf w.handles xs b = 1 ∧ ownersOf w.handles xs b = 0) := by omega
  simp [World.newObject, Op.created, hsame]

theorem World.Ok.copyConstruct (hok : w.Ok xs) {h g : ℕ} {p : Option Addr}
    (hh : w.handles h = none) (hg : w.handles g = some p) :
    ∃ w', w.copyConstruct h g = some w' ∧ StepOk w w' xs xs (.copyConstruct h g) := by
  have hlive : ∀ a, p = some a → w.heap.counterOf a ≠ none := fun a hpa ↦ by
    refine hok.counted.live a ?_
    have hle := pointsTo_le_ownersOf xs (hok.finite a) g
    rw [hg, hpa, Option.join_some, pointsTo_self] at hle
    omega
  obtain ⟨heap, hrun, hstep⟩ := hok.gain hh hlive (.copyConstruct h g) (fun _ ↦ rfl) rfl
  refine ⟨_, ?_, hstep⟩
  rw [World.copyConstruct, hg]
  simp only [Option.bind_eq_bind, Option.bind_some, hrun, Option.pure_def]

theorem World.Ok.moveConstruct (hok : w.Ok xs) {h g : ℕ} {p : Option Addr}
    (hh : w.handles h = none) (hg : w.handles g = some p) :
    ∃ w', w.moveConstruct h g = some w' ∧ StepOk w w' xs xs (.moveConstruct h g) := by
  have hgh : g ≠ h := by
    rintro rfl
    rw [hh] at hg
    simp at hg
  have hfin := fun a ↦ finite_update (hok.finite a) h (some p)
  have hown : ∀ a, ownersOf (Function.update (Function.update w.handles h (some p)) g (some none))
      xs a = ownersOf w.handles xs a := fun a ↦ by
    have h₁ := ownersOf_update xs (hok.finite a) h (some p)
    have h₂ := ownersOf_update xs (hfin a) g (some none)
    rw [hh, Option.join_none, pointsTo_none] at h₁
    rw [Function.update_of_ne hgh, hg, Option.join_some, Option.join_some, pointsTo_none] at h₂
    rw [Option.join_some] at h₁
    omega
  refine ⟨(w.setHandle h (some p)).setHandle g (some none), by rw [World.moveConstruct, hg]; rfl,
    hok.handleStep rfl rfl rfl (fun _ _ ↦ rfl) (hok.counted.congr rfl hown)
    (fun a ↦ finite_update (hfin a) g _)
    (Deletes.none rfl (fun _ ↦ Iff.rfl) fun a ↦ (hown a).ge) rfl⟩

theorem World.Ok.copyAssign (hok : w.Ok xs) {h g : ℕ} {p q : Option Addr}
    (hh : w.handles h = some p) (hg : w.handles g = some q)
    (hbound : ∀ a, p = some a → ownersOf w.handles xs a < unsignedRange) :
    ∃ w', w.copyAssign h g = some w' ∧ StepOk w w' xs xs (.copyAssign h g) := by
  have hown : ∀ a, ownersOf (Function.update w.handles h (some q)) xs a + pointsTo p a
      = ownersOf w.handles xs a + pointsTo q a := fun a ↦ by
    have := ownersOf_update xs (hok.finite a) h (some q)
    rwa [hh] at this
  have hp : ∀ a, pointsTo p a ≤ ownersOf w.handles xs a := fun a ↦ by
    have := pointsTo_le_ownersOf xs (hok.finite a) h
    rwa [hh] at this
  have hlive : ∀ a, q = some a → w.heap.counterOf a ≠ none := fun a hqa ↦ by
    refine hok.counted.live a ?_
    have hle := pointsTo_le_ownersOf xs (hok.finite a) g
    rw [hg, hqa, Option.join_some, pointsTo_self] at hle
    omega
  have hlt : ∀ a, p = some a →
      ownersOf (Function.update w.handles h (some q)) xs a < unsignedRange := by
    intro a hpa
    have ha := hown a
    have hb := hbound a hpa
    have hone : pointsTo p a = 1 := by rw [hpa, pointsTo_self]
    have hle : pointsTo q a ≤ 1 := by
      rw [pointsTo]
      split <;> omega
    omega
  obtain ⟨heap₁, hrun₁, hn₁, hnext₁, hc₁, hcount₁⟩ :=
    increase_counted hok.counted hlive fun a ↦ hown a
  obtain ⟨heap₂, hrun₂, hnode₂, hbrk₂, hnext₂, hc₂, hdel₂, hcount₂⟩ :=
    decrease_counted hc₁ (fun a ↦ rfl) hlt
  have hnext : ∀ a, ownersOf (Function.update w.handles h (some q)) xs a ≠ 0 →
      heap₂.nextOf a = w.heap.nextOf a := fun a ha ↦ by rw [hnext₂ a ha, hnext₁]
  have hdel : Deletes w.heap heap₂ none (ownersOf w.handles xs)
      (ownersOf (Function.update w.handles h (some q)) xs) := by
    refine Deletes.decrease hown hp ?_ fun a ↦ by rw [hcount₂, hcount₁]
    rw [hdel₂]
    cases p with
    | none => exact hn₁.deleted
    | some a => rw [deletedAfter, deletedAfter, hn₁.deleted]
  refine ⟨({ w with heap := heap₂ } : World).setHandle h (some q), ?_, hok.handleStep rfl
    (hnode₂.trans hn₁.node) (hbrk₂.trans hn₁.brk) hnext hc₂
    (fun a ↦ finite_update (hok.finite a) h _) hdel rfl⟩
  rw [World.copyAssign, hg]
  simp only [Option.bind_eq_bind, Option.bind_some, hrun₁, hh, hrun₂, Option.pure_def]

theorem World.Ok.moveAssign (hok : w.Ok xs) {h g : ℕ} {p q : Option Addr}
    (hh : w.handles h = some p) (hg : w.handles g = some q)
    (hbound : ∀ a, p = some a → ownersOf w.handles xs a < unsignedRange) :
    ∃ w', w.moveAssign h g = some w' ∧ StepOk w w' xs xs (.moveAssign h g) := by
  have hfin := fun a ↦ finite_update (hok.finite a) h (some q)
  have hown : ∀ a, ownersOf w.handles xs a
      = ownersOf (Function.update (Function.update w.handles h (some q)) g (some none)) xs a
        + pointsTo p a := fun a ↦ by
    have h₁ := ownersOf_update xs (hok.finite a) h (some q)
    have h₂ := ownersOf_update xs (hfin a) g (some none)
    rw [hh, Option.join_some, Option.join_some] at h₁
    rw [Option.join_some, pointsTo_none] at h₂
    -- Either way the handle `g` holds `q` by now.
    have hgq : Function.update w.handles h (some q) g = some q := by
      by_cases hgh : g = h
      · rw [hgh, Function.update_self]
      · rw [Function.update_of_ne hgh, hg]
    rw [hgq, Option.join_some] at h₂
    omega
  obtain ⟨heap, hrun, hstep⟩ := hok.lose hown hbound (fun a ↦ finite_update (hfin a) g _)
    (.moveAssign h g) (fun _ ↦ rfl) rfl
  refine ⟨_, ?_, hstep⟩
  rw [World.moveAssign, hh]
  simp only [Option.bind_eq_bind, Option.bind_some, hrun, hg, Option.pure_def, World.setHandle]

theorem World.Ok.reset (hok : w.Ok xs) {h : ℕ} {p : Option Addr} (hh : w.handles h = some p)
    (hbound : ∀ a, p = some a → ownersOf w.handles xs a < unsignedRange)
    {v : Option (Option Addr)} (hv : v.join = none) (op : Op)
    (hlabel : ∀ w', op.label w w' = .other) (hcreated : op.created = none) :
    ∃ heap, decrease w.heap p = some heap ∧
      StepOk w (({ w with heap } : World).setHandle h v) xs xs op :=
  hok.lose (fun a ↦ by
    have := ownersOf_update xs (hok.finite a) h v
    rw [hh, hv, Option.join_some, pointsTo_none] at this
    omega) hbound (fun a ↦ finite_update (hok.finite a) h v) op hlabel hcreated

theorem World.Ok.nullAssign (hok : w.Ok xs) {h : ℕ} {p : Option Addr}
    (hh : w.handles h = some p)
    (hbound : ∀ a, p = some a → ownersOf w.handles xs a < unsignedRange) :
    ∃ w', w.nullAssign h = some w' ∧ StepOk w w' xs xs (.nullAssign h) := by
  obtain ⟨heap, hrun, hstep⟩ := hok.reset hh hbound (v := some none) rfl (.nullAssign h)
    (fun _ ↦ rfl) rfl
  refine ⟨_, ?_, hstep⟩
  rw [World.nullAssign, hh]
  simp only [Option.bind_eq_bind, Option.bind_some, hrun, Option.pure_def]

theorem World.Ok.destroy (hok : w.Ok xs) {h : ℕ} {p : Option Addr} (hh : w.handles h = some p)
    (hbound : ∀ a, p = some a → ownersOf w.handles xs a < unsignedRange) :
    ∃ w', w.destroy h = some w' ∧ StepOk w w' xs xs (.destroy h) := by
  obtain ⟨heap, hrun, hstep⟩ := hok.reset hh hbound (v := none) rfl (.destroy h) (fun _ ↦ rfl) rfl
  refine ⟨_, ?_, hstep⟩
  rw [World.destroy, hh]
  simp only [Option.bind_eq_bind, Option.bind_some, hrun, Option.pure_def]

/-! ## Queues -/

theorem StepOk.enqueued (w' : World) {l : ℕ} {s s' : Skiplist} {S : ℕ → Set Addr}
    (hl : w.lists l = some s) (hlists : ListsOk w.heap w.lists xs S) {e : Addr} {heap : Heap}
    {T : Set Addr} (hnew : ∀ m, e ∉ xs m) (he : Enqueues w.heap heap s s' (xs l) (S l) T e)
    (hheap : w'.heap = heap) (hw : w'.lists = Function.update w.lists l (some s'))
    (hown : ∀ a, ownersOf w.handles xs a ≤ ownersOf w'.handles
      (Function.update xs l (xs l ++ [e])) a)
    (hcounted : Counted heap (ownersOf w'.handles (Function.update xs l (xs l ++ [e]))))
    (hfin : ∀ a, Set.Finite {i | w'.handles i = some (some a)})
    (hcount : ∀ a, heap.counterOf a = none ↔ w.heap.counterOf a = none)
    {op : Op} (hlabel : op.label w w' = .enqueue l e) (hcreated : op.created = none) :
    StepOk w w' xs (Function.update xs l (xs l ++ [e])) op := by
  subst hheap
  refine ⟨⟨⟨Function.update S l T, ?_⟩, hcounted, hfin⟩, ?_, ?_⟩
  · rw [hw]
    refine hlists.update he.holds he.frame (fun m hm a ha ↦ he.next a fun hmem ↦ ?_)
      fun m hm a ha ha' ↦ ?_
    · rw [List.mem_append, List.mem_singleton] at hmem
      rcases hmem with hal | rfl
      · exact hm (hlists.eq_of_mem ha hal)
      · exact hnew m ha
    · rw [List.mem_append, List.mem_singleton] at ha
      rcases ha with hal | rfl
      · exact hm (hlists.eq_of_mem ha' hal)
      · exact hnew m ha'
  · rw [hlabel, World.queues_update hw]
    refine .enqueue (World.queues_of_some hl) fun m ys hm hmem ↦ ?_
    rw [World.queues, Option.map_eq_some_iff] at hm
    obtain ⟨t, -, rfl⟩ := hm
    exact hnew m hmem
  · rw [hcreated]
    exact Deletes.none he.deleted hcount hown

theorem mem_enqueue {l : ℕ} {e : Addr} (a : Addr) :
    (∃ m, a ∈ Function.update xs l (xs l ++ [e]) m) ↔ (∃ m, a ∈ xs m) ∨ a = e := by
  constructor
  · rintro ⟨m, hm⟩
    by_cases hml : m = l
    · subst hml
      rw [Function.update_self, List.mem_append, List.mem_singleton] at hm
      exact hm.imp_left fun h ↦ ⟨m, h⟩
    · rw [Function.update_of_ne hml] at hm
      exact Or.inl ⟨m, hm⟩
  · rintro (⟨m, hm⟩ | rfl)
    · by_cases hml : m = l
      · subst hml
        exact ⟨m, by rw [Function.update_self]; exact List.mem_append_left _ hm⟩
      · exact ⟨m, by rwa [Function.update_of_ne hml]⟩
    · refine ⟨l, ?_⟩
      rw [Function.update_self]
      exact List.mem_append_right _ (List.mem_singleton_self a)

theorem World.Ok.enqueueCopy (hok : w.Ok xs) {l h : ℕ} {s : Skiplist} {e : Addr}
    (hl : w.lists l = some s) (hh : w.handles h = some (some e)) (hnew : ∀ m, e ∉ xs m) :
    ∃ w', w.enqueueCopy id l h = some w' ∧
      StepOk w w' xs (Function.update xs l (xs l ++ [e])) (.enqueueCopy l h) := by
  obtain ⟨S, hlists⟩ := hok.lists
  have hlive : w.heap.counterOf e ≠ none := by
    refine hok.counted.live e ?_
    have hle := pointsTo_le_ownersOf xs (hok.finite e) h
    rw [hh, Option.join_some, pointsTo_self] at hle
    omega
  obtain ⟨q, hq⟩ := Heap.live_iff.mp hlive
  obtain ⟨c, hc⟩ := Option.ne_none_iff_exists'.mp hlive
  obtain ⟨heap, s', T, hrun, he, hcount⟩ :=
    (hlists.holds l s hl).enqueueCopy hq hc (hnew l)
  have hown := ownersOf_link (f := w.handles) hnew (mem_enqueue (l := l) (e := e))
  have hcounted : Counted heap (ownersOf w.handles (Function.update xs l (xs l ++ [e]))) := by
    refine ⟨fun a d hd ↦ ?_, fun a ha ↦ ?_⟩
    · rw [hcount] at hd
      rw [hown]
      by_cases hae : a = e
      · subst hae
        rw [Function.update_self, Option.some.injEq] at hd
        rw [pointsTo_self, ← hd, hok.counted.counter a c hc, Nat.mod_add_mod]
      · rw [Function.update_of_ne hae] at hd
        rw [pointsTo_of_ne hae, Nat.add_zero]
        exact hok.counted.counter a d hd
    · rw [hcount]
      rw [hown] at ha
      by_cases hae : a = e
      · rw [hae, Function.update_self]
        simp
      · rw [Function.update_of_ne hae]
        rw [pointsTo_of_ne hae, Nat.add_zero] at ha
        exact hok.counted.live a ha
  let w' := ({ w with heap } : World).setList l (some s')
  refine ⟨w', ?_, ?_⟩
  · rw [World.enqueueCopy, hl, hh]
    simp only [Option.bind_eq_bind, Option.bind_some, hrun, Option.pure_def]
    rfl
  refine StepOk.enqueued w' hl hlists hnew he rfl rfl (fun a ↦ ?_) hcounted hok.finite (fun a ↦ ?_)
    (Op.label_enqueueCopy w' l hh) rfl
  · rw [World.setList_handles, hown]
    exact Nat.le_add_right _ _
  · rw [hcount]
    by_cases hae : a = e
    · rw [hae, Function.update_self, hc]
      simp
    · rw [Function.update_of_ne hae]

theorem World.Ok.enqueueMove (hok : w.Ok xs) {l h : ℕ} {s : Skiplist} {e : Addr}
    (hl : w.lists l = some s) (hh : w.handles h = some (some e)) (hnew : ∀ m, e ∉ xs m) :
    ∃ w', w.enqueueMove id l h = some w' ∧
      StepOk w w' xs (Function.update xs l (xs l ++ [e])) (.enqueueMove l h) := by
  obtain ⟨S, hlists⟩ := hok.lists
  have hlive : w.heap.counterOf e ≠ none := by
    refine hok.counted.live e ?_
    have hle := pointsTo_le_ownersOf xs (hok.finite e) h
    rw [hh, Option.join_some, pointsTo_self] at hle
    omega
  obtain ⟨q, hq⟩ := Heap.live_iff.mp hlive
  obtain ⟨heap, s', T, hrun, he, hcount⟩ := (hlists.holds l s hl).enqueueMove hq (hnew l)
  -- The list takes over the reference of the handle.
  have hown : ∀ a, ownersOf (Function.update w.handles h (some none))
      (Function.update xs l (xs l ++ [e])) a = ownersOf w.handles xs a := fun a ↦ by
    have hlink := ownersOf_link (f := w.handles) hnew (mem_enqueue (l := l) (e := e)) a
    have hset := ownersOf_update (Function.update xs l (xs l ++ [e])) (hok.finite a) h
      (some none)
    rw [hh, Option.join_some, Option.join_some, pointsTo_none] at hset
    omega
  let w' := (({ w with heap } : World).setList l (some s')).setHandle h (some none)
  refine ⟨w', ?_, ?_⟩
  · rw [World.enqueueMove, hl, hh]
    simp only [Option.bind_eq_bind, Option.bind_some, hrun, Option.pure_def]
    rfl
  refine StepOk.enqueued w' hl hlists hnew he rfl rfl (fun a ↦ ?_) (hok.counted.congr hcount hown)
    (fun a ↦ finite_update (hok.finite a) h _) (fun a ↦ by rw [hcount])
    (Op.label_enqueueMove w' l hh) rfl
  rw [World.setHandle_handles, World.setList_handles, hown]

theorem mem_dequeue {l : ℕ} {t : Addr} {rest : List Addr} (hxs : xs l = t :: rest) (a : Addr) :
    (∃ m, a ∈ xs m) ↔ (∃ m, a ∈ Function.update xs l rest m) ∨ a = t := by
  constructor
  · rintro ⟨m, hm⟩
    by_cases hml : m = l
    · subst hml
      rw [hxs, List.mem_cons] at hm
      exact hm.symm.imp_left fun h ↦ ⟨m, by rwa [Function.update_self]⟩
    · exact Or.inl ⟨m, by rwa [Function.update_of_ne hml]⟩
  · rintro (⟨m, hm⟩ | rfl)
    · by_cases hml : m = l
      · subst hml
        rw [Function.update_self] at hm
        exact ⟨m, by rw [hxs]; exact List.mem_cons_of_mem t hm⟩
      · rw [Function.update_of_ne hml] at hm
        exact ⟨m, hm⟩
    · exact ⟨l, by rw [hxs]; exact List.mem_cons_self⟩

theorem World.Ok.dequeue_nil (hok : w.Ok xs) {l h : ℕ} {s : Skiplist} (hl : w.lists l = some s)
    (hh : w.handles h = none) (hxs : xs l = []) :
    ∃ w', w.dequeue id l h = some w' ∧ StepOk w w' xs xs (.dequeue l h) := by
  obtain ⟨S, hlists⟩ := hok.lists
  have hs := hlists.holds l s hl
  rw [hxs] at hs
  have hsame : (w.setList l (some s)).lists = w.lists := by
    rw [World.setList_lists, ← hl, Function.update_eq_self]
  have hown : ∀ a, ownersOf (Function.update w.handles h (some none)) xs a
      = ownersOf w.handles xs a := fun a ↦ by
    have := ownersOf_update xs (hok.finite a) h (some none)
    rwa [hh, Option.join_none, Option.join_some] at this
  have hq : ((w.setList l (some s)).setHandle h (some none)).queues xs = w.queues xs := by
    funext m
    rw [World.queues, World.setHandle_lists, hsame, World.queues]
  refine ⟨(w.setList l (some s)).setHandle h (some none), ?_, ⟨⟨S, ?_⟩,
    hok.counted.congr rfl hown, fun a ↦ finite_update (hok.finite a) h _⟩, ?_,
    Deletes.none rfl (fun _ ↦ Iff.rfl) fun a ↦ (hown a).ge⟩
  · rw [World.dequeue, hl]
    simp only [Option.bind_eq_bind, Option.bind_some, hs.dequeue_nil, Option.pure_def]
  · rw [World.setHandle_lists, hsame]
    exact hlists
  · rw [hq, Op.label_dequeue, World.setHandle_handles, Function.update_self, Option.join_some]
    exact .dequeueNone (by rw [World.queues_of_some hl, hxs])

theorem World.Ok.dequeue_cons (hok : w.Ok xs) {l h : ℕ} {s : Skiplist} (hl : w.lists l = some s)
    (hh : w.handles h = none) {t : Addr} {rest : List Addr} (hxs : xs l = t :: rest) :
    ∃ w', w.dequeue id l h = some w' ∧
      StepOk w w' xs (Function.update xs l rest) (.dequeue l h) := by
  obtain ⟨S, hlists⟩ := hok.lists
  have hs := hlists.holds l s hl
  have htl : t ∈ xs l := by rw [hxs]; exact List.mem_cons_self
  rw [hxs] at hs
  obtain ⟨heap, s', T, hrun, hd⟩ := hs.dequeue_cons
  have hnodup := hs.nodup
  rw [List.nodup_cons] at hnodup
  have hnew : ∀ m, t ∉ Function.update xs l rest m := fun m hm ↦ by
    by_cases hml : m = l
    · rw [hml, Function.update_self] at hm
      exact hnodup.1 hm
    · rw [Function.update_of_ne hml] at hm
      exact hml (hlists.eq_of_mem hm htl)
  -- The handle takes over the reference of the list.
  have hown : ∀ a, ownersOf (Function.update w.handles h (some (some t)))
      (Function.update xs l rest) a = ownersOf w.handles xs a := fun a ↦ by
    have hlink := ownersOf_link (f := w.handles) hnew (mem_dequeue hxs) a
    have hset := ownersOf_update (Function.update xs l rest) (hok.finite a) h
      (some (some t))
    rw [hh, Option.join_none, pointsTo_none, Option.join_some] at hset
    omega
  have hlists' : ListsOk heap (Function.update w.lists l (some s')) (Function.update xs l rest)
      (Function.update S l T) := by
    refine hlists.update hd.holds hd.frame (fun m hm a ha ↦ ?_) fun m hm a ha ha' ↦ ?_
    · rw [hd.next, Function.update_of_ne]
      rintro rfl
      exact hm (hlists.eq_of_mem ha htl)
    · exact hm (hlists.eq_of_mem ha' (by rw [hxs]; exact List.mem_cons_of_mem t ha))
  have hdel : Deletes w.heap heap none (ownersOf w.handles xs)
      (ownersOf (Function.update w.handles h (some (some t))) (Function.update xs l rest)) :=
    Deletes.none hd.deleted (fun a ↦ by rw [hd.counter]) fun a ↦ (hown a).ge
  have hq : ((({ w with heap } : World).setList l (some s')).setHandle h
      (some (some t))).queues (Function.update xs l rest)
        = Function.update (w.queues xs) l (some rest) := World.queues_update rfl
  refine ⟨(({ w with heap } : World).setList l (some s')).setHandle h (some (some t)), ?_,
    ⟨⟨_, hlists'⟩, hok.counted.congr hd.counter hown,
      fun a ↦ finite_update (hok.finite a) h _⟩, ?_, hdel⟩
  · rw [World.dequeue, hl]
    simp only [Option.bind_eq_bind, Option.bind_some, hrun, Option.pure_def]
  · rw [hq, Op.label_dequeue, World.setHandle_handles, Function.update_self, Option.join_some]
    exact .dequeueSome (by rw [World.queues_of_some hl, hxs])

/-- The elements that are linked stay linked when the contents of `l` go to `l` and `r`. -/
theorem mem_split {l r : ℕ} {ys zs : List Addr} (hlr : l ≠ r) (hxs : xs l = ys ++ zs)
    (hr : xs r = []) (a : Addr) :
    (∃ m, a ∈ Function.update (Function.update xs l zs) r ys m) ↔ ∃ m, a ∈ xs m := by
  constructor
  · rintro ⟨m, hm⟩
    by_cases hmr : m = r
    · subst hmr
      rw [Function.update_self] at hm
      exact ⟨l, by rw [hxs]; exact List.mem_append_left _ hm⟩
    · rw [Function.update_of_ne hmr] at hm
      by_cases hml : m = l
      · subst hml
        rw [Function.update_self] at hm
        exact ⟨m, by rw [hxs]; exact List.mem_append_right _ hm⟩
      · rw [Function.update_of_ne hml] at hm
        exact ⟨m, hm⟩
  · rintro ⟨m, hm⟩
    by_cases hml : m = l
    · subst hml
      rw [hxs, List.mem_append] at hm
      rcases hm with hy | hz
      · exact ⟨r, by rwa [Function.update_self]⟩
      · exact ⟨m, by rwa [Function.update_of_ne hlr, Function.update_self]⟩
    · have hmr : m ≠ r := by
        rintro rfl
        rw [hr] at hm
        exact List.not_mem_nil hm
      exact ⟨m, by rwa [Function.update_of_ne hmr, Function.update_of_ne hml]⟩

theorem World.Ok.split (hok : w.Ok xs) {l r : ℕ} {s s' res : Skiplist} {S : ℕ → Set Addr}
    (hlists : ListsOk w.heap w.lists xs S) (hl : w.lists l = some s) (hr : w.lists r = none)
    {heap : Heap} {ys zs : List Addr} {T U : Set Addr} (hxs : xs l = ys ++ zs)
    (hsplit : Splits w.heap heap s s' res ys zs (S l) T U) {op : Op}
    (hlabel : ∀ w' : World, op.label w w' = .split l r (w'.lists r).isSome)
    (hcreated : op.created = none) :
    StepOk w ((({ w with heap } : World).setList l (some s')).setList r (some res)) xs
      (Function.update (Function.update xs l zs) r ys) op := by
  have hlr : l ≠ r := by
    rintro rfl
    rw [hl] at hr
    simp at hr
  have hown : ∀ a, ownersOf w.handles (Function.update (Function.update xs l zs) r ys) a
      = ownersOf w.handles xs a :=
    ownersOf_congr (mem_split hlr hxs (hlists.absent r hr).1)
  have hnodup := (hlists.holds l s hl).nodup
  rw [hxs, List.nodup_append] at hnodup
  have hsub : ∀ a, a ∈ ys ∨ a ∈ zs → a ∈ xs l := fun a ha ↦ by
    rw [hxs, List.mem_append]
    exact ha
  have hlists' := hlists.update₂ (r := r) hsplit.rest hsplit.given hsplit.disjoint
    (fun a hz hy ↦ hnodup.2.2 a hy a hz rfl) hsplit.frame (fun m hm a ha ↦ hsplit.next a fun hmem ↦
      hm (hlists.eq_of_mem ha (by rwa [hxs]))) hsub
  refine ⟨⟨⟨_, hlists'⟩, hok.counted.congr hsplit.counter hown, hok.finite⟩, ?_, ?_⟩
  · have hq : ((({ w with heap } : World).setList l (some s')).setList r (some res)).queues
        (Function.update (Function.update xs l zs) r ys)
          = Function.update (Function.update (w.queues xs) l (some zs)) r (some ys) := by
      have hq₁ : (({ w with heap } : World).setList l (some s')).queues (Function.update xs l zs)
          = Function.update (w.queues xs) l (some zs) := World.queues_update rfl
      rw [← hq₁]
      exact World.queues_update rfl
    rw [hq, hlabel, World.setList_lists, Function.update_self, Option.isSome_some]
    exact .splitSome (by rw [World.queues_of_some hl, hxs]) hsplit.ne_nil
      (World.queues_of_none hr)
  · rw [hcreated]
    refine Deletes.none hsplit.deleted (fun a ↦ by rw [← hsplit.counter]; rfl) fun a ↦ ?_
    rw [World.setList_handles, World.setList_handles, hown]

theorem World.Ok.split_nil (hok : w.Ok xs) {l r : ℕ} {s : Skiplist} (hl : w.lists l = some s)
    (hr : w.lists r = none) (hxs : xs l = []) {op : Op}
    (hlabel : ∀ w' : World, op.label w w' = .split l r (w'.lists r).isSome)
    (hcreated : op.created = none) :
    StepOk w ((w.setList l (some s)).setList r none) xs xs op := by
  have hsame : Function.update (Function.update w.lists l (some s)) r none = w.lists := by
    rw [← hl, Function.update_eq_self, ← hr, Function.update_eq_self]
  obtain ⟨S, hlists⟩ := hok.lists
  refine ⟨⟨⟨S, ?_⟩, hok.counted, hok.finite⟩, ?_,
    hcreated ▸ Deletes.none rfl (fun _ ↦ Iff.rfl) fun a ↦ Nat.le_refl _⟩
  · rw [World.setList_lists, World.setList_lists, hsame]
    exact hlists
  · have hq : ((w.setList l (some s)).setList r none).queues xs = w.queues xs := by
      funext m
      rw [World.queues, World.setList_lists, World.setList_lists, hsame, World.queues]
    rw [hq, hlabel, World.setList_lists, Function.update_self, Option.isSome_none]
    exact .splitNone (by rw [World.queues_of_some hl, hxs])

theorem World.Ok.dequeueHalf (hok : w.Ok xs) {l r : ℕ} {s : Skiplist} (hl : w.lists l = some s)
    (hr : w.lists r = none) :
    ∃ w' xs', w.dequeueHalf id l r = some w' ∧ StepOk w w' xs xs' (.dequeueHalf l r) := by
  obtain ⟨S, hlists⟩ := hok.lists
  have hs := hlists.holds l s hl
  by_cases hxs : xs l = []
  · rw [hxs] at hs
    refine ⟨_, xs, ?_, hok.split_nil hl hr hxs (fun _ ↦ rfl) rfl⟩
    rw [World.dequeueHalf, hl]
    simp only [Option.bind_eq_bind, Option.bind_some, hs.dequeueHalf_nil, Option.pure_def]
  · obtain ⟨heap, s', res, ys, zs, T, U, hrun, hyz, hsplit⟩ := hs.dequeueHalf hxs
    refine ⟨_, _, ?_, hok.split hlists hl hr hyz hsplit (fun _ ↦ rfl) rfl⟩
    rw [World.dequeueHalf, hl]
    simp only [Option.bind_eq_bind, Option.bind_some, hrun, Option.pure_def]

theorem World.Ok.dequeueHalf_ (hok : w.Ok xs) {l r : ℕ} {s : Skiplist} (hl : w.lists l = some s)
    (hr : w.lists r = none) :
    ∃ w' xs', w.dequeueHalf_ id l r = some w' ∧ StepOk w w' xs xs' (.dequeueHalf_ l r) := by
  obtain ⟨S, hlists⟩ := hok.lists
  have hs := hlists.holds l s hl
  by_cases hxs : xs l = []
  · rw [hxs] at hs
    refine ⟨_, xs, ?_, hok.split_nil hl hr hxs (fun _ ↦ rfl) rfl⟩
    rw [World.dequeueHalf_, hl]
    simp only [Option.bind_eq_bind, Option.bind_some, hs.nil_dequeueHalf_, Option.pure_def]
  · obtain ⟨heap, s', res, ys, zs, T, U, hrun, hyz, hsplit⟩ := hs.dequeueHalf_ hxs
    refine ⟨_, _, ?_, hok.split hlists hl hr hyz hsplit (fun _ ↦ rfl) rfl⟩
    rw [World.dequeueHalf_, hl]
    simp only [Option.bind_eq_bind, Option.bind_some, hrun, Option.pure_def]

theorem World.Ok.replace (hok : w.Ok xs) {l r : ℕ} {s p : Skiplist} (hlr : l ≠ r)
    (hl : w.lists l = some s) (hxs : xs l = []) (hr : w.lists r = some p) :
    ∃ w', w.replace l r = some w' ∧
      StepOk w w' xs (Function.update (Function.update xs l (xs r)) r []) (.replace l r) := by
  obtain ⟨S, hlists⟩ := hok.lists
  have hs := hlists.holds l s hl
  rw [hxs] at hs
  obtain ⟨s', p', hrun, hs', hp', -⟩ := hs.replace (hlists.holds r p hr)
  -- Seen from `r`, the contents of `r` are dealt out to `r` and `l`.
  have hmem : ∀ a, (∃ m, a ∈ Function.update (Function.update xs l (xs r)) r [] m)
      ↔ ∃ m, a ∈ xs m := by
    rw [Function.update_comm hlr]
    exact mem_split (Ne.symm hlr) (by rw [List.append_nil]) hxs
  have hown : ∀ a, ownersOf w.handles (Function.update (Function.update xs l (xs r)) r []) a
      = ownersOf w.handles xs a := ownersOf_congr hmem
  have hlists' : ListsOk w.heap (Function.update (Function.update w.lists l (some s')) r (some p'))
      (Function.update (Function.update xs l (xs r)) r [])
      (Function.update (Function.update S l (S r)) r ∅) := by
    rw [Function.update_comm hlr, Function.update_comm hlr, Function.update_comm hlr]
    refine hlists.update₂ hp' hs' (fun a ha ↦ absurd ha (Set.notMem_empty a))
      (fun a ha ↦ absurd ha List.not_mem_nil) ?_ (fun _ _ _ _ ↦ rfl) fun a ha ↦ ?_
    · rw [Set.empty_union]
      exact NodeFrame.refl w.heap _
    · exact ha.resolve_right List.not_mem_nil
  refine ⟨(({ w with heap := w.heap } : World).setList l (some s')).setList r (some p'), ?_,
    ⟨⟨_, hlists'⟩, hok.counted.congr rfl hown, hok.finite⟩, ?_,
    Deletes.none rfl (fun _ ↦ Iff.rfl) fun a ↦ (hown a).ge⟩
  · rw [World.replace, hl, hr]
    simp only [Option.bind_eq_bind, Option.bind_some, hrun, Option.pure_def]
  · have hq : ((w.setList l (some s')).setList r (some p')).queues
        (Function.update (Function.update xs l (xs r)) r [])
          = Function.update (Function.update (w.queues xs) l (some (xs r))) r (some []) := by
      have hq₁ : (w.setList l (some s')).queues (Function.update xs l (xs r))
          = Function.update (w.queues xs) l (some (xs r)) := World.queues_update rfl
      rw [← hq₁]
      exact World.queues_update rfl
    exact hq ▸ .replace (by rw [World.queues_of_some hl, hxs]) (World.queues_of_some hr) hlr

/-! ## Any operation -/

/-- **Every operation that is called as it should be** has a result and keeps the invariant. -/
theorem World.Ok.step (hok : w.Ok xs) {op : Op} (hpre : op.Pre w) :
    ∃ w' xs', op.exec id w = some w' ∧ StepOk w w' xs xs' op := by
  cases op with
  | newObject a => exact ⟨_, xs, rfl, hok.newObject hpre⟩
  | construct h a =>
    obtain ⟨w', hrun, hstep⟩ := hok.construct hpre.1 hpre.2
    exact ⟨w', xs, hrun, hstep⟩
  | makeRefPtr h a =>
    obtain ⟨w', hrun, hstep⟩ := hok.makeRefPtr hpre.1 hpre.2
    exact ⟨w', xs, hrun, hstep⟩
  | copyConstruct h g =>
    obtain ⟨hh, p, hg⟩ := hpre
    obtain ⟨w', hrun, hstep⟩ := hok.copyConstruct hh hg
    exact ⟨w', xs, hrun, hstep⟩
  | moveConstruct h g =>
    obtain ⟨hh, p, hg⟩ := hpre
    obtain ⟨w', hrun, hstep⟩ := hok.moveConstruct hh hg
    exact ⟨w', xs, hrun, hstep⟩
  | copyAssign h g =>
    obtain ⟨⟨q, hg⟩, p, hh, hbound⟩ := hpre
    rw [hok.owners_eq] at hbound
    obtain ⟨w', hrun, hstep⟩ := hok.copyAssign hh hg hbound
    exact ⟨w', xs, hrun, hstep⟩
  | moveAssign h g =>
    obtain ⟨⟨q, hg⟩, p, hh, hbound⟩ := hpre
    rw [hok.owners_eq] at hbound
    obtain ⟨w', hrun, hstep⟩ := hok.moveAssign hh hg hbound
    exact ⟨w', xs, hrun, hstep⟩
  | nullAssign h =>
    obtain ⟨p, hh, hbound⟩ := hpre
    rw [hok.owners_eq] at hbound
    obtain ⟨w', hrun, hstep⟩ := hok.nullAssign hh hbound
    exact ⟨w', xs, hrun, hstep⟩
  | destroy h =>
    obtain ⟨p, hh, hbound⟩ := hpre
    rw [hok.owners_eq] at hbound
    obtain ⟨w', hrun, hstep⟩ := hok.destroy hh hbound
    exact ⟨w', xs, hrun, hstep⟩
  | enqueueCopy l h =>
    obtain ⟨⟨s, hl⟩, e, hh, hnew⟩ := hpre
    rw [hok.linked_iff, not_exists] at hnew
    obtain ⟨w', hrun, hstep⟩ := hok.enqueueCopy hl hh hnew
    exact ⟨w', _, hrun, hstep⟩
  | enqueueMove l h =>
    obtain ⟨⟨s, hl⟩, e, hh, hnew⟩ := hpre
    rw [hok.linked_iff, not_exists] at hnew
    obtain ⟨w', hrun, hstep⟩ := hok.enqueueMove hl hh hnew
    exact ⟨w', _, hrun, hstep⟩
  | dequeue l h =>
    obtain ⟨⟨s, hl⟩, hh⟩ := hpre
    cases hxs : xs l with
    | nil =>
      obtain ⟨w', hrun, hstep⟩ := hok.dequeue_nil hl hh hxs
      exact ⟨w', xs, hrun, hstep⟩
    | cons t rest =>
      obtain ⟨w', hrun, hstep⟩ := hok.dequeue_cons hl hh hxs
      exact ⟨w', _, hrun, hstep⟩
  | dequeueHalf l r =>
    obtain ⟨⟨s, hl⟩, hr⟩ := hpre
    exact hok.dequeueHalf hl hr
  | dequeueHalf_ l r =>
    obtain ⟨⟨s, hl⟩, hr⟩ := hpre
    exact hok.dequeueHalf_ hl hr
  | replace l r =>
    obtain ⟨hlr, hempty, p, hr⟩ := hpre
    obtain ⟨⟨s, hl⟩, hxs⟩ := hok.contents_iff.mp hempty
    obtain ⟨w', hrun, hstep⟩ := hok.replace hlr hl hxs.symm hr
    exact ⟨w', _, hrun, hstep⟩

theorem World.Ok.of_step (hok : w.Ok xs) {op : Op} {w' : World} (hstep : World.Step id w op w') :
    ∃ xs', StepOk w w' xs xs' op := by
  obtain ⟨hpre, hrun⟩ := hstep
  obtain ⟨v, xs', hrun', hv⟩ := hok.step hpre
  obtain rfl : v = w' := Option.some.inj (hrun'.symm.trans hrun)
  exact ⟨xs', hv⟩

end

theorem World.Ok.initial (ids : Finset ℕ) : (World.initial ids).Ok fun _ ↦ [] := by
  have hzero : ∀ a, ownersOf (fun _ ↦ none) (fun _ ↦ []) a = 0 := fun a ↦ by
    have hset : {i : ℕ | (none : Option (Option Addr)) = some (some a)} = ∅ := by
      ext i
      simp
    rw [ownersOf, holders, hset, Set.ncard_empty, indicator_of_false (by simp)]
  refine ⟨⟨fun _ ↦ ∅, ?_⟩, ⟨fun a c hc ↦ ?_, fun a ha ↦ absurd (hzero a) ha⟩, fun a ↦ ?_⟩
  · refine ⟨fun l s hs ↦ ?_, fun l _ ↦ ⟨rfl, rfl⟩, fun l m a ha ↦ absurd ha List.not_mem_nil,
      fun l m a ha ↦ absurd ha (Set.notMem_empty a)⟩
    simp only [World.initial] at hs
    split at hs
    · rw [← Option.some.inj hs]
      exact Holds.new _
    · simp at hs
  · simp [World.initial, Heap.empty, Heap.counterOf] at hc
  · simp [World.initial]

/-- **Every run** keeps the invariant. -/
theorem World.ok_of_run {ids : Finset ℕ} {ops : List Op} {w : World}
    (hrun : Transition.Run (World.Step id) (World.initial ids) ops w) : ∃ xs, w.Ok xs := by
  refine hrun.invariant (I := fun w ↦ ∃ xs, w.Ok xs) ⟨_, World.Ok.initial ids⟩ ?_
  rintro w op w' ⟨xs, hok⟩ hstep
  obtain ⟨xs', hstep'⟩ := hok.of_step hstep
  exact ⟨xs', hstep'.ok⟩

end TYThread
