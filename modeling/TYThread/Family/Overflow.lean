import TYThread.Family.Refinement
import TYThread.Skiplist.Range

/-!
# Runs with offsets of 32 bits

The offsets count all the elements that ever passed through a list, not those in it, and they are
`int`s. A comment in the source takes four layers of `64` for practically enough, which bounds the
elements queued at once and not the offsets. So the declared type is enough as long as fewer than
`2 ^ 31` elements have been enqueued in a list and in the lists that it comes from, which the calls
alone decide.
-/

namespace TYThread

open LinkedList Transition

/-- The value of an `int` after the assignment of `n`: the residue in `[-2 ^ 31, 2 ^ 31)`. -/
def wrap32 (n : ℤ) : ℤ := (n + 2147483648) % 4294967296 - 2147483648

theorem intType_wrap32 : IntType wrap32 := by
  refine ⟨fun x hx hx' ↦ ?_, fun x ↦ ?_⟩
  · simp only [intMax] at hx'
    rw [wrap32]
    omega
  · simp only [intMax]
    rw [wrap32]
    omega

/-- An enqueue finds every offset that it counts up below the greatest `int`. -/
def Op.HasRoom (w : World) : Op → Prop
  | enqueueCopy l _ | enqueueMove l _ => ∀ s, w.lists l = some s → s.Fits
  | _ => True

/-- At most `2 ^ 20` elements are queued. The split that counts is `dequeue_half`. -/
structure Op.Bounded (w : World) (op : Op) : Prop where
  contents : ∀ l ys, w.Contents l ys → ys.length ≤ 2 ^ 20
  half : ∀ l r, op ≠ .dequeueHalf_ l r

/-- A step with offsets of type `int` that respects these bounds. -/
def World.BoundedStep (int : ℤ → ℤ) (w : World) (op : Op) (w' : World) : Prop :=
  World.Step int w op w' ∧ op.Bounded w

/-- No list has run out of range. -/
def World.InRange (w : World) : Prop := ∀ l s, w.lists l = some s → s.InRange

section

variable {int : ℤ → ℤ} {w w' : World} {xs : ℕ → List Addr} {op : Op}

theorem World.Ok.rep (hok : w.Ok xs) {l : ℕ} {s : Skiplist} (hl : w.lists l = some s) :
    ∃ Λ, Rep w.heap s.level Λ ∧ (∀ k ≤ NLayers, 0 ≤ (s.level k).tailOff) ∧
      w.Contents l (xs l) ∧ s.tailOff - s.headOff = (xs l).length := by
  obtain ⟨S, hlists⟩ := hok.lists
  have hs := hlists.holds l s hl
  obtain ⟨Λ, hr, -, -⟩ := hlists.holds l s hl
  refine ⟨Λ, hr, fun k hk ↦ ?_, hok.contents_iff.mpr ⟨⟨s, hl⟩, rfl⟩, hs.size⟩
  exact le_trans (hr.nodes.level k hk).nonneg (hr.nodes.level k hk).le

/-- **A step in range** is the step on integers. -/
theorem World.Ok.exec_int (hok : w.Ok xs) (hint : IntType int) (hrange : w.InRange)
    (hbound : op.Bounded w) (hroom : op.HasRoom w) : op.exec int w = op.exec id w := by
  cases op with
  | enqueueCopy l h =>
    change w.enqueueCopy int l h = w.enqueueCopy id l h
    rw [World.enqueueCopy, World.enqueueCopy]
    cases hl : w.lists l with
    | none => rfl
    | some s =>
      obtain ⟨Λ, -, hnonneg, -⟩ := hok.rep hl
      simp only [Option.bind_eq_bind, Option.bind_some, enqueueCopy_int hint hnonneg (hroom s hl)]
  | enqueueMove l h =>
    change w.enqueueMove int l h = w.enqueueMove id l h
    rw [World.enqueueMove, World.enqueueMove]
    cases hl : w.lists l with
    | none => rfl
    | some s =>
      obtain ⟨Λ, -, hnonneg, -⟩ := hok.rep hl
      simp only [Option.bind_eq_bind, Option.bind_some, enqueueMove_int hint hnonneg (hroom s hl)]
  | dequeue l h =>
    change w.dequeue int l h = w.dequeue id l h
    rw [World.dequeue, World.dequeue]
    cases hl : w.lists l with
    | none => rfl
    | some s =>
      obtain ⟨Λ, hr, -⟩ := hok.rep hl
      simp only [Option.bind_eq_bind, Option.bind_some, dequeue_int hint hr (hrange l s hl)]
  | dequeueHalf l r =>
    change w.dequeueHalf int l r = w.dequeueHalf id l r
    rw [World.dequeueHalf, World.dequeueHalf]
    cases hl : w.lists l with
    | none => rfl
    | some s =>
      obtain ⟨Λ, hr, -, hcontents, hsize⟩ := hok.rep hl
      have hcount := hbound.contents l (xs l) hcontents
      simp only [Option.bind_eq_bind, Option.bind_some,
        dequeueHalf_int hint hr (hrange l s hl) (by omega)]
  | dequeueHalf_ l r => exact absurd rfl (hbound.half l r)
  | _ => rfl

theorem World.InRange.setList (hw : w.InRange) (l : ℕ) {o : Option Skiplist}
    (ho : ∀ s, o = some s → s.InRange) : (w.setList l o).InRange := by
  intro m s hm
  rw [World.setList_lists] at hm
  by_cases hml : m = l
  · rw [hml, Function.update_self] at hm
    exact ho s hm
  · rw [Function.update_of_ne hml] at hm
    exact hw m s hm

theorem World.InRange.setSome (hw : w.InRange) (l : ℕ) {s : Skiplist} (hs : s.InRange) :
    (w.setList l (some s)).InRange :=
  hw.setList l fun t ht ↦ by rwa [← Option.some.inj ht]

/-- What is written to an offset is in range. -/
theorem World.InRange.exec (hw : w.InRange) (hint : IntType int)
    (hhalf : ∀ l r, op ≠ .dequeueHalf_ l r) (hrun : op.exec int w = some w') : w'.InRange := by
  cases op with
  | newObject | construct | makeRefPtr | copyConstruct | moveConstruct | copyAssign | moveAssign
  | nullAssign | destroy =>
    intro l s hl
    rw [Op.exec_lists hrun trivial] at hl
    exact hw l s hl
  | enqueueCopy l h =>
    simp only [Op.exec_enqueueCopy, World.enqueueCopy, Option.bind_eq_bind, Option.bind_eq_some_iff,
      Option.pure_def, Option.some.injEq] at hrun
    obtain ⟨s, hs, p, -, ⟨heap, s'⟩, hrun, rfl⟩ := hrun
    exact World.InRange.setSome (w := { w with heap }) hw l
      (enqueueCopy_inRange hint hrun (hw l s hs))
  | enqueueMove l h =>
    simp only [Op.exec_enqueueMove, World.enqueueMove, Option.bind_eq_bind, Option.bind_eq_some_iff,
      Option.pure_def, Option.some.injEq] at hrun
    obtain ⟨s, hs, p, -, ⟨heap, s'⟩, hrun, rfl⟩ := hrun
    exact World.InRange.setSome (w := { w with heap }) hw l
      (enqueueMove_inRange hint hrun (hw l s hs))
  | dequeue l h =>
    simp only [Op.exec_dequeue, World.dequeue, Option.bind_eq_bind, Option.bind_eq_some_iff,
      Option.pure_def, Option.some.injEq] at hrun
    obtain ⟨s, hs, ⟨heap, s', t⟩, hrun, rfl⟩ := hrun
    exact World.InRange.setSome (w := { w with heap }) hw l
      (dequeue_inRange hrun (hw l s hs))
  | dequeueHalf l r =>
    simp only [Op.exec_dequeueHalf, World.dequeueHalf, Option.bind_eq_bind, Option.bind_eq_some_iff,
      Option.pure_def, Option.some.injEq] at hrun
    obtain ⟨s, hs, ⟨heap, s', res⟩, hrun, rfl⟩ := hrun
    obtain ⟨hs', hres⟩ := dequeueHalf_inRange hint hrun (hw l s hs)
    exact (World.InRange.setSome (w := { w with heap }) hw l hs').setList r hres
  | dequeueHalf_ l r => exact absurd rfl (hhalf l r)
  | replace l r =>
    simp only [Op.exec_replace, World.replace, Option.bind_eq_bind, Option.bind_eq_some_iff,
      Option.pure_def, Option.some.injEq] at hrun
    obtain ⟨s, hs, p, hp, ⟨heap, s', p'⟩, hrun, rfl⟩ := hrun
    obtain ⟨hs', hp'⟩ := replace_inRange hrun (hw l s hs) (hw r p hp)
    exact (World.InRange.setSome (w := { w with heap }) hw l hs').setSome r hp'

/-- The enqueue of an element without room for it runs out of range. -/
theorem World.hasRoom_of_exec (hrun : op.exec id w = some w')
    (hrange : w'.InRange) : op.HasRoom w := by
  cases op with
  | enqueueCopy l h =>
    intro s hs k hk hgrow
    simp only [Op.exec_enqueueCopy, World.enqueueCopy, hs, Option.bind_eq_bind, Option.bind_some,
      Option.bind_eq_some_iff, Option.pure_def, Option.some.injEq] at hrun
    obtain ⟨p, -, ⟨heap, s'⟩, hrun, rfl⟩ := hrun
    have hgrown := (enqueueCopy_grows hrun).2 k hk hgrow
    have hmax := (hrange l s' (by rw [World.setList_lists, Function.update_self])).level k
    omega
  | enqueueMove l h =>
    intro s hs k hk hgrow
    simp only [Op.exec_enqueueMove, World.enqueueMove, hs, Option.bind_eq_bind, Option.bind_some,
      Option.bind_eq_some_iff, Option.pure_def, Option.some.injEq] at hrun
    obtain ⟨p, -, ⟨heap, s'⟩, hrun, rfl⟩ := hrun
    have hgrown := (enqueueMove_grows hrun).2 k hk hgrow
    have hmax := (hrange l s' (by
      rw [World.setHandle_lists, World.setList_lists, Function.update_self])).level k
    omega
  | _ => trivial

/-- **The exact condition for a step**: with room, and only then, it is the step on integers. -/
theorem World.Ok.exec_int_iff (hok : w.Ok xs) (hint : IntType int) (hrange : w.InRange)
    (hbound : op.Bounded w) (hpre : op.Pre w) : op.exec int w = op.exec id w ↔ op.HasRoom w := by
  refine ⟨fun heq ↦ ?_, hok.exec_int hint hrange hbound⟩
  obtain ⟨w', -, hrun, -⟩ := hok.step hpre
  exact World.hasRoom_of_exec hrun (hrange.exec hint hbound.half (heq.trans hrun))

end

/-! ## A run without room

One object is enqueued and dequeued again and again. Never more than one element is queued, but both
offsets of the list go up by one each time.
-/

/-- An object is made and passed through the list `n` times. -/
def passOps : ℕ → List Op
  | 0 => [.makeRefPtr 0 7]
  | n + 1 => passOps n ++ [.enqueueMove 0 0] ++ [.destroy 0] ++ [.dequeue 0 0]

/-- The only list is `s`, whose layer `0` has no node. -/
structure OnlyList (w : World) (s : Skiplist) : Prop where
  lists : w.lists = Function.update (fun _ ↦ none) 0 (some s)
  layer : (s.layers 0).headNode = none

/-- The list is empty at position `n` and a handle holds the object. -/
structure Passed (w : World) (s : Skiplist) (n : ℤ) : Prop extends OnlyList w s where
  head : s.head = none
  candidate : s.candidate = none
  headOff : s.headOff = n
  tailOff : s.tailOff = n
  handle : w.handles 0 = some (some 7)
  live : ∃ o, w.heap.obj 7 = some o

section

variable {int : ℤ → ℤ} {w : World} {s : Skiplist}

theorem OnlyList.contents (h : OnlyList w s) {l : ℕ} {ys : List Addr} (hys : w.Contents l ys) :
    Chain w.heap.nextOf s.head ys := by
  obtain ⟨t, ht, hchain⟩ := hys
  rw [h.lists] at ht
  by_cases hl : l = 0
  · rw [hl, Function.update_self, Option.some.injEq] at ht
    rwa [ht]
  · rw [Function.update_of_ne hl] at ht
    simp at ht

/-- An empty list, or one with the object in it, respects the bound. -/
theorem OnlyList.bounded (h : OnlyList w s)
    (hs : s.head = none ∨ (s.head = some 7 ∧ w.heap.nextOf 7 = some none)) {op : Op}
    (hhalf : ∀ l r, op ≠ .dequeueHalf_ l r) : op.Bounded w := by
  refine ⟨fun l ys hys ↦ ?_, hhalf⟩
  have hchain := h.contents hys
  rcases hs with hnone | ⟨hsome, hnext⟩
  · rw [hnone] at hchain
    rw [hchain.unique (chain_nil.mpr rfl)]
    decide
  · rw [hsome] at hchain
    have hone : Chain w.heap.nextOf (some 7) [7] := ⟨rfl, none, hnext, rfl⟩
    rw [hchain.unique hone]
    decide

theorem Passed.not_linked {n : ℤ} (h : Passed w s n) (a : Addr) : ¬w.Linked a := by
  rintro ⟨l, ys, hys, hmem⟩
  have hchain := h.contents hys
  rw [h.head] at hchain
  rw [hchain.unique (chain_nil.mpr rfl)] at hmem
  exact List.not_mem_nil hmem

/-- The list after the enqueue of the object. -/
def Skiplist.withOne (s : Skiplist) (int : ℤ → ℤ) : Skiplist :=
  { s with
    head := some 7
    tail := some 7
    candidate := if remGap (int (s.tailOff + 1)) = 1 then some 7 else none
    tailOff := int (s.tailOff + 1) }

theorem enqueueMove_empty (int : ℤ → ℤ) {h : Heap} {o : Obj} (hhead : s.head = none)
    (hcand : s.candidate = none) (ho : h.obj 7 = some o) :
    Skiplist.enqueueMove int h s (some 7)
      = some (h.setObj 7 (some { o with next := none }), s.withOne int) := by
  simp only [Skiplist.enqueueMove, Skiplist.linkTail, hhead, Heap.setNext, ho, hcand,
    Skiplist.updateAfterEnque, Skiplist.withOne, Option.bind_eq_bind, Option.bind_some,
    Option.pure_def, ne_eq, not_true_eq_false, if_false, false_and]
  split <;> rfl

theorem dequeue_withOne (int : ℤ → ℤ) {h : Heap} {o : Obj} (hlayer : (s.layers 0).headNode = none)
    (ho : h.obj 7 = some o) (hnext : o.next = none) : ∃ h',
      Skiplist.dequeue_ int h (s.withOne int) = some (h', { s.withOne int with
        head := none, candidate := none, headOff := int (s.headOff + 1) }, some 7) ∧
      h'.obj 7 = some o := by
  refine ⟨h.setObj 7 (some { o with next := none }), ?_, ?_⟩
  · have hcand : (if (s.withOne int).candidate = some 7 then none else (s.withOne int).candidate)
        = none := by
      simp only [Skiplist.withOne]
      split <;> simp_all
    simp only [Skiplist.dequeue_, Skiplist.withOne] at hcand ⊢
    simp only [hcand, hlayer, Heap.next, Heap.setNext, ho, hnext, Option.bind_eq_bind,
      Option.bind_some, Option.pure_def, ne_eq, not_true_eq_false, and_false, if_false]
  · rw [Heap.setObj_obj, Function.update_self, ← hnext]

theorem Passed.enqueue {n : ℤ} (h : Passed w s n) (int : ℤ → ℤ) :
    ∃ w', World.BoundedStep int w (.enqueueMove 0 0) w' ∧ OnlyList w' (s.withOne int) ∧
      w'.handles 0 = some none ∧ ∃ o, w'.heap.obj 7 = some o ∧ o.next = none := by
  obtain ⟨o, ho⟩ := h.live
  have hlist : w.lists 0 = some s := by rw [h.lists, Function.update_self]
  have hrun := enqueueMove_empty int h.head h.candidate ho
  let heap := w.heap.setObj 7 (some { o with next := none })
  refine ⟨(({ w with heap } : World).setList 0 (some (s.withOne int))).setHandle 0 (some none),
    ⟨⟨⟨⟨s, hlist⟩, 7, h.handle, h.not_linked 7⟩, ?_⟩,
      h.bounded (Or.inl h.head) fun l r ↦ by simp⟩, ⟨?_, h.layer⟩, ?_, { o with next := none },
      ?_, rfl⟩
  · change w.enqueueMove int 0 0 = _
    rw [World.enqueueMove, hlist, h.handle]
    simp only [Option.bind_eq_bind, Option.bind_some, hrun, Option.pure_def]
    rfl
  · rw [World.setHandle_lists, World.setList_lists, h.lists, Function.update_idem]
  · rw [World.setHandle_handles, Function.update_self]
  · rw [World.setHandle_heap, World.setList_heap, Heap.setObj_obj, Function.update_self]

/-- One more pass of the object. -/
theorem Passed.pass {n : ℤ} (h : Passed w s n) (hint : IntType int) (hn : 0 ≤ n) (hn' : n < intMax)
    {u : World} {ops : List Op} (hrun : Run (World.BoundedStep int) u ops w) :
    ∃ w' s', Run (World.BoundedStep int) u
      (ops ++ [.enqueueMove 0 0] ++ [.destroy 0] ++ [.dequeue 0 0]) w' ∧ Passed w' s' (n + 1) := by
  have hsucc : int (n + 1) = n + 1 :=
    intType_exact hint (by omega) (by simp only [intMax] at hn'; omega)
  obtain ⟨w₁, hstep₁, honly₁, hhandle₁, o, ho, hnext⟩ := h.enqueue int
  have hhead₁ : (s.withOne int).head = none ∨
      ((s.withOne int).head = some 7 ∧ w₁.heap.nextOf 7 = some none) :=
    Or.inr ⟨rfl, by rw [Heap.nextOf, ho, Option.map_some, hnext]⟩
  -- The null handle is destroyed, to be made again by the dequeue.
  let w₂ := w₁.setHandle 0 none
  have hhandle₂ : w₂.handles 0 = none := by rw [World.setHandle_handles, Function.update_self]
  have honly₂ : OnlyList w₂ (s.withOne int) := ⟨honly₁.lists, honly₁.layer⟩
  have hstep₂ : World.BoundedStep int w₁ (.destroy 0) w₂ := by
    refine ⟨⟨⟨none, hhandle₁, fun a ha ↦ by simp at ha⟩, ?_⟩,
      honly₁.bounded hhead₁ fun l r ↦ by simp⟩
    change w₁.destroy 0 = some w₂
    rw [World.destroy, hhandle₁]
    rfl
  obtain ⟨heap, hdequeue, hobj⟩ := dequeue_withOne int h.layer ho hnext
  let s' : Skiplist := { s.withOne int with
    head := none, candidate := none, headOff := int (s.headOff + 1) }
  let w₃ := (({ w₂ with heap } : World).setList 0 (some s')).setHandle 0 (some (some 7))
  have hstep₃ : World.BoundedStep int w₂ (.dequeue 0 0) w₃ := by
    have hlist : w₂.lists 0 = some (s.withOne int) := by rw [honly₂.lists, Function.update_self]
    refine ⟨⟨⟨⟨_, hlist⟩, hhandle₂⟩, ?_⟩, honly₂.bounded hhead₁ fun l r ↦ by simp⟩
    change w₂.dequeue int 0 0 = some w₃
    have hheap : w₂.heap = w₁.heap := rfl
    rw [World.dequeue, hlist]
    simp only [Option.bind_eq_bind, Option.bind_some, hheap, hdequeue, Option.pure_def]
    rfl
  refine ⟨w₃, s', ((hrun.snoc hstep₁).snoc hstep₂).snoc hstep₃,
    ⟨⟨?_, h.layer⟩, rfl, rfl, ?_, ?_, ?_, o, hobj⟩⟩
  · rw [World.setHandle_lists, World.setList_lists, honly₂.lists, Function.update_idem]
  · change int (s.headOff + 1) = n + 1
    rw [h.headOff, hsucc]
  · change int (s.tailOff + 1) = n + 1
    rw [h.tailOff, hsucc]
  · rw [World.setHandle_handles, Function.update_self]

theorem passed_zero (int : ℤ → ℤ) :
    ∃ w, World.BoundedStep int (World.initial {0}) (.makeRefPtr 0 7) w ∧ Passed w {} 0 := by
  have hlists : (World.initial {0}).lists = Function.update (fun _ ↦ none) 0 (some {}) := by
    funext l
    by_cases hl : l = 0 <;> simp [World.initial, hl]
  have honly : OnlyList (World.initial {0}) {} := ⟨hlists, rfl⟩
  obtain ⟨w, hmake, -⟩ := (World.Ok.initial {0}).makeRefPtr (h := 0) (a := 7) rfl rfl
  have hstep : World.BoundedStep int (World.initial {0}) (.makeRefPtr 0 7) w :=
    ⟨⟨⟨rfl, rfl⟩, hmake⟩, honly.bounded (Or.inl rfl) fun l r ↦ by simp⟩
  obtain rfl := Option.some.inj hmake
  exact ⟨_, hstep, ⟨⟨hlists, rfl⟩, rfl, rfl, rfl, rfl, rfl, _, rfl⟩⟩

theorem passOps_run (hint : IntType int) {n : ℕ} (hn : n ≤ 2147483647) :
    ∃ w s, Run (World.BoundedStep int) (World.initial {0}) (passOps n) w ∧ Passed w s n := by
  induction n with
  | zero =>
    obtain ⟨w, hstep, hpassed⟩ := passed_zero int
    exact ⟨w, {}, Run.refl.snoc hstep, hpassed⟩
  | succ n ih =>
    obtain ⟨w, s, hrun, hpassed⟩ := ih (by omega)
    obtain ⟨w', s', hrun', hpassed'⟩ :=
      hpassed.pass hint (Int.natCast_nonneg n) (by simp only [intMax]; omega) hrun
    exact ⟨w', s', hrun', by exact_mod_cast hpassed'⟩

end

/-- **The offsets leave the range.** After `2 ^ 31 - 1` passes of one object, its next enqueue wraps
the upper end of the list to `-2 ^ 31`. From there on the remainders are not those of the positions:
that of the following position, `2 ^ 31 + 1`, comes out as `-63` and not `1`. So the run is none of
the runs with offsets as integers. -/
theorem offsets_leave_range :
    ∃ w s, Run (World.BoundedStep wrap32) (World.initial {0})
        (passOps 2147483647 ++ [.enqueueMove 0 0]) w ∧
      w.lists 0 = some s ∧ s.headOff = 2147483647 ∧ s.tailOff = -2147483648 ∧
      remGap (wrap32 (s.tailOff + 1)) = -63 ∧
      ¬Run (World.Step id) (World.initial {0}) (passOps 2147483647 ++ [.enqueueMove 0 0]) w := by
  obtain ⟨w, s, hrun, hpassed⟩ := passOps_run intType_wrap32 (n := 2147483647) (Nat.le_refl _)
  obtain ⟨w', hstep, honly, -⟩ := hpassed.enqueue wrap32
  have hhead : (s.withOne wrap32).headOff = 2147483647 := hpassed.headOff
  have htail : (s.withOne wrap32).tailOff = -2147483648 := by
    change wrap32 (s.tailOff + 1) = _
    rw [hpassed.tailOff]
    decide
  have hlist : w'.lists 0 = some (s.withOne wrap32) := by rw [honly.lists, Function.update_self]
  refine ⟨w', s.withOne wrap32, hrun.snoc hstep, hlist, hhead, htail, ?_, fun hid ↦ ?_⟩
  · rw [htail]
    decide
  · -- With integers the upper end is never below the lower one.
    obtain ⟨xs, hok⟩ := World.ok_of_run hid
    obtain ⟨Λ, -, -, -, hsize⟩ := hok.rep hlist
    omega

/-! ## Counting the enqueues -/

/-- The elements that have been enqueued in each list or in the lists that it comes from. What a
split gives away is counted from the list that was split. `replace` takes over the count of the
other list, which keeps it, because its layers keep their offsets. -/
def Op.lineage (c : ℕ → ℕ) : Op → ℕ → ℕ
  | enqueueCopy l _ | enqueueMove l _ => Function.update c l (c l + 1)
  | dequeueHalf l r | dequeueHalf_ l r => Function.update c r (c l)
  | replace l r => Function.update c l (c r)
  | _ => c

def enqueues (ops : List Op) : ℕ → ℕ := ops.foldl Op.lineage fun _ ↦ 0

theorem enqueues_snoc (ops : List Op) (op : Op) :
    enqueues (ops ++ [op]) = op.lineage (enqueues ops) := by
  rw [enqueues, List.foldl_append]
  rfl

/-- No list is further than `c` says. -/
def World.Within (w : World) (c : ℕ → ℕ) : Prop :=
  ∀ l s, w.lists l = some s → ∀ k ≤ NLayers, (s.level k).tailOff ≤ c l

/-- The upper end of every list is what `c` says. -/
def World.Counts (w : World) (c : ℕ → ℕ) : Prop := ∀ l s, w.lists l = some s → s.tailOff = c l

/-- Neither a split nor a `replace`: every list has counted all its elements itself. -/
def Op.Whole : Op → Prop
  | dequeueHalf _ _ | dequeueHalf_ _ _ | replace _ _ => False
  | _ => True

section

variable {w w' : World} {xs xs' : ℕ → List Addr} {op : Op} {c : ℕ → ℕ}

theorem World.Within.setList (hw : w.Within c) {l : ℕ} {o : Option Skiplist} {n : ℕ}
    (ho : ∀ s, o = some s → ∀ k ≤ NLayers, (s.level k).tailOff ≤ n) :
    (w.setList l o).Within (Function.update c l n) := by
  intro m s hm
  rw [World.setList_lists] at hm
  by_cases hml : m = l
  · rw [hml, Function.update_self] at hm
    rw [hml, Function.update_self]
    exact ho s hm
  · rw [Function.update_of_ne hml] at hm ⊢
    exact hw m s hm

theorem World.Within.setSame (hw : w.Within c) {l : ℕ} {o : Option Skiplist}
    (ho : ∀ s, o = some s → ∀ k ≤ NLayers, (s.level k).tailOff ≤ c l) :
    (w.setList l o).Within c := by
  have hset := hw.setList (l := l) ho
  rwa [Function.update_eq_self] at hset

/-- **One call** takes a list no further than it counts. -/
theorem World.Ok.within (hok : w.Ok xs) (hw : w.Within c) (hok' : w'.Ok xs')
    (hhalf : ∀ l r, op ≠ .dequeueHalf_ l r) (hpre : op.Pre w) (hrun : op.exec id w = some w') :
    w'.Within (op.lineage c) := by
  cases op with
  | newObject | construct | makeRefPtr | copyConstruct | moveConstruct | copyAssign | moveAssign
  | nullAssign | destroy =>
    intro l s hl
    rw [Op.exec_lists hrun trivial] at hl
    exact hw l s hl
  | enqueueCopy l h =>
    simp only [Op.exec_enqueueCopy, World.enqueueCopy, Option.bind_eq_bind, Option.bind_eq_some_iff,
      Option.pure_def, Option.some.injEq] at hrun
    obtain ⟨s, hs, p, -, ⟨heap, s'⟩, hrun, rfl⟩ := hrun
    refine World.Within.setList (w := { w with heap }) hw fun t ht k hk ↦ ?_
    have hold := hw l s hs k hk
    have hnew := (enqueueCopy_grows hrun).1 k
    rw [← Option.some.inj ht]
    push_cast
    omega
  | enqueueMove l h =>
    simp only [Op.exec_enqueueMove, World.enqueueMove, Option.bind_eq_bind, Option.bind_eq_some_iff,
      Option.pure_def, Option.some.injEq] at hrun
    obtain ⟨s, hs, p, -, ⟨heap, s'⟩, hrun, rfl⟩ := hrun
    refine World.Within.setList (w := { w with heap }) hw fun t ht k hk ↦ ?_
    have hold := hw l s hs k hk
    have hnew := (enqueueMove_grows hrun).1 k
    rw [← Option.some.inj ht]
    push_cast
    omega
  | dequeue l h =>
    simp only [Op.exec_dequeue, World.dequeue, Option.bind_eq_bind, Option.bind_eq_some_iff,
      Option.pure_def, Option.some.injEq] at hrun
    obtain ⟨s, hs, ⟨heap, s', t⟩, hrun, rfl⟩ := hrun
    refine World.Within.setSame (w := { w with heap }) hw fun t ht k hk ↦ ?_
    rw [← Option.some.inj ht, dequeue_tailOff hrun]
    exact hw l s hs k hk
  | dequeueHalf l r =>
    simp only [Op.exec_dequeueHalf, World.dequeueHalf, Option.bind_eq_bind, Option.bind_eq_some_iff,
      Option.pure_def, Option.some.injEq] at hrun
    obtain ⟨s, hs, ⟨heap, s', res⟩, hrun, rfl⟩ := hrun
    obtain ⟨Λ, hr, -⟩ := hok.rep hs
    have hlr : l ≠ r := by
      rintro rfl
      rw [hpre.2] at hs
      cases hs
    obtain ⟨Λ', hr', -⟩ := hok'.rep (l := l) (s := s') (by
      rw [World.setList_lists, Function.update_of_ne hlr, World.setList_lists,
        Function.update_self])
    refine (World.Within.setSame (w := { w with heap }) hw fun t ht k hk ↦ ?_).setList
      fun t ht k hk ↦ ?_
    · rw [← Option.some.inj ht, (dequeueHalf_tailOff hr hrun k).1]
      exact hw l s hs k hk
    · have hold := hw l s hs k hk
      obtain ⟨hsame, hgiven⟩ := dequeueHalf_tailOff hr hrun k
      have hle := (hr'.nodes.level k hk).le
      rcases hgiven t ht with hzero | hend
      · omega
      · omega
  | dequeueHalf_ l r => exact absurd rfl (hhalf l r)
  | replace l r =>
    obtain ⟨hlr, hempty, p, hp⟩ := hpre
    obtain ⟨⟨s, hs⟩, hxs⟩ := hok.contents_iff.mp hempty
    obtain ⟨S, hlists⟩ := hok.lists
    have hholds := hlists.holds l s hs
    rw [← hxs] at hholds
    obtain ⟨s', p', hreplace, -, -, hsame, hrest⟩ := hholds.replace (hlists.holds r p hp)
    simp only [Op.exec_replace, World.replace, hs, hp, hreplace, Option.bind_eq_bind,
      Option.bind_some, Option.pure_def, Option.some.injEq] at hrun
    rw [← hrun]
    refine (World.Within.setList (w := { w with heap := w.heap }) hw fun t ht k hk ↦ ?_).setSame
      fun t ht k hk ↦ ?_
    · rw [← Option.some.inj ht, hsame k hk]
      exact hw r p hp k hk
    · rw [← Option.some.inj ht, Function.update_of_ne (Ne.symm hlr)]
      exact le_trans (hrest k hk) (hw r p hp k hk)

theorem World.Counts.setList (hw : w.Counts c) {l n : ℕ} {s : Skiplist} (hs : s.tailOff = n) :
    (w.setList l (some s)).Counts (Function.update c l n) := by
  intro m t hm
  rw [World.setList_lists] at hm
  by_cases hml : m = l
  · rw [hml, Function.update_self] at hm
    rw [hml, Function.update_self, ← Option.some.inj hm]
    exact hs
  · rw [Function.update_of_ne hml] at hm ⊢
    exact hw m t hm

/-- A list that is only filled and emptied has counted its enqueues. -/
theorem World.Counts.exec (hw : w.Counts c) (hop : op.Whole) (hrun : op.exec id w = some w') :
    w'.Counts (op.lineage c) := by
  cases op with
  | newObject | construct | makeRefPtr | copyConstruct | moveConstruct | copyAssign | moveAssign
  | nullAssign | destroy =>
    intro l s hl
    rw [Op.exec_lists hrun trivial] at hl
    exact hw l s hl
  | enqueueCopy l h =>
    simp only [Op.exec_enqueueCopy, World.enqueueCopy, Option.bind_eq_bind, Option.bind_eq_some_iff,
      Option.pure_def, Option.some.injEq] at hrun
    obtain ⟨s, hs, p, -, ⟨heap, s'⟩, hrun, rfl⟩ := hrun
    have hgrown : s'.tailOff = s.tailOff + 1 :=
      (enqueueCopy_grows hrun).2 0 (Nat.zero_le _) fun j hj ↦ absurd hj (Nat.not_lt_zero j)
    refine World.Counts.setList (w := { w with heap }) hw ?_
    rw [hgrown, hw l s hs]
    rfl
  | enqueueMove l h =>
    simp only [Op.exec_enqueueMove, World.enqueueMove, Option.bind_eq_bind, Option.bind_eq_some_iff,
      Option.pure_def, Option.some.injEq] at hrun
    obtain ⟨s, hs, p, -, ⟨heap, s'⟩, hrun, rfl⟩ := hrun
    have hgrown : s'.tailOff = s.tailOff + 1 :=
      (enqueueMove_grows hrun).2 0 (Nat.zero_le _) fun j hj ↦ absurd hj (Nat.not_lt_zero j)
    refine World.Counts.setList (w := { w with heap }) hw ?_
    rw [hgrown, hw l s hs]
    rfl
  | dequeue l h =>
    simp only [Op.exec_dequeue, World.dequeue, Option.bind_eq_bind, Option.bind_eq_some_iff,
      Option.pure_def, Option.some.injEq] at hrun
    obtain ⟨s, hs, ⟨heap, s', t⟩, hrun, rfl⟩ := hrun
    have hsame : s'.tailOff = s.tailOff := dequeue_tailOff hrun 0
    have hset := World.Counts.setList (w := { w with heap }) hw (l := l) (hsame.trans (hw l s hs))
    rwa [Function.update_eq_self] at hset
  | dequeueHalf | dequeueHalf_ | replace => exact hop.elim

theorem World.Within.hasRoom (hw : w.Within c) (hlt : ∀ l, op.lineage c l < 2 ^ 31) :
    op.HasRoom w := by
  cases op with
  | enqueueCopy l h | enqueueMove l h =>
    intro s hs k hk _
    have hcount := hlt l
    rw [Op.lineage, Function.update_self] at hcount
    have hle := hw l s hs k hk
    simp only [intMax]
    omega
  | _ => trivial

theorem World.Counts.lineage_lt (hw : w.Counts c) (hlt : ∀ l, c l < 2 ^ 31) (hpre : op.Pre w)
    (hroom : op.HasRoom w) : ∀ l, op.lineage c l < 2 ^ 31 := by
  cases op with
  | enqueueCopy m h | enqueueMove m h =>
    obtain ⟨⟨s, hs⟩, -⟩ := hpre
    have hbase := hroom s hs 0 (Nat.zero_le _) fun j hj ↦ absurd hj (Nat.not_lt_zero j)
    rw [Skiplist.level_zero, Skiplist.base] at hbase
    have htail := hw m s hs
    simp only [intMax] at hbase
    exact (Function.forall_update_iff c fun _ n ↦ n < 2 ^ 31).mpr ⟨by omega, fun l _ ↦ hlt l⟩
  | dequeueHalf m r | dequeueHalf_ m r =>
    exact (Function.forall_update_iff c fun _ n ↦ n < 2 ^ 31).mpr ⟨hlt m, fun l _ ↦ hlt l⟩
  | replace m r =>
    exact (Function.forall_update_iff c fun _ n ↦ n < 2 ^ 31).mpr ⟨hlt r, fun l _ ↦ hlt l⟩
  | _ => exact hlt

/-- What is known after a run of the calls `ops`. -/
structure World.InStep (w : World) (ops : List Op) : Prop where
  ok : ∃ xs, w.Ok xs
  range : w.InRange
  within : w.Within (enqueues ops)
  counts : (∀ op ∈ ops, op.Whole) → w.Counts (enqueues ops)

theorem World.InStep.initial (ids : Finset ℕ) : (World.initial ids).InStep [] := by
  have hnew : ∀ l s, (World.initial ids).lists l = some s → s = {} := fun l s hl ↦ by
    simp only [World.initial] at hl
    split at hl
    · exact (Option.some.inj hl).symm
    · simp at hl
  refine ⟨⟨_, World.Ok.initial ids⟩, fun l s hl ↦ ?_, fun l s hl k _ ↦ ?_, fun _ l s hl ↦ ?_⟩
  · rw [hnew l s hl]
    exact Skiplist.inRange_new
  · rw [hnew l s hl]
    cases k <;> exact le_refl _
  · rw [hnew l s hl]
    rfl

/-- **One call with room** does the same with offsets of 32 bits. -/
theorem World.InStep.next {ops : List Op} (h : w.InStep ops) (hpre : op.Pre w)
    (hbound : op.Bounded w) (hlt : ∀ l, enqueues (ops ++ [op]) l < 2 ^ 31) :
    op.exec wrap32 w = op.exec id w ∧
      ∀ w', op.exec id w = some w' → w'.InStep (ops ++ [op]) := by
  obtain ⟨xs, hok⟩ := h.ok
  rw [enqueues_snoc] at hlt
  have hexec := hok.exec_int intType_wrap32 h.range hbound (h.within.hasRoom hlt)
  refine ⟨hexec, fun w' hrun ↦ ?_⟩
  obtain ⟨xs', hstep⟩ := hok.of_step ⟨hpre, hrun⟩
  refine ⟨⟨xs', hstep.ok⟩, h.range.exec intType_wrap32 hbound.half (hexec.trans hrun), ?_,
    fun hwhole ↦ ?_⟩
  · rw [enqueues_snoc]
    exact hok.within h.within hstep.ok hbound.half hpre hrun
  · rw [enqueues_snoc]
    have hbefore := h.counts fun op' hop' ↦ hwhole op' (List.mem_append_left _ hop')
    exact hbefore.exec (hwhole op (List.mem_append_right _ (List.mem_singleton_self op))) hrun

end

/-! ## Runs with room -/

theorem World.inStep_of_run {ids : Finset ℕ} {ops : List Op} {w : World}
    (hrun : Run (World.BoundedStep wrap32) (World.initial ids) ops w)
    (hcount : ∀ ms, ms <+: ops → ∀ l, enqueues ms l < 2 ^ 31) :
    Run (World.Step id) (World.initial ids) ops w ∧ w.InStep ops := by
  induction hrun with
  | refl => exact ⟨.refl, .initial ids⟩
  | @snoc ls t u op _ last ih =>
    obtain ⟨hbefore, hstep⟩ := ih fun ms hms ↦ hcount ms (hms.trans (List.prefix_append _ _))
    obtain ⟨⟨hpre, hexec⟩, hbound⟩ := last
    obtain ⟨hsame, hnext⟩ := hstep.next hpre hbound (hcount _ (List.prefix_refl _))
    rw [hsame] at hexec
    exact ⟨hbefore.snoc ⟨hpre, hexec⟩, hnext u hexec⟩

/-- **Runs with room.** Offsets of 32 bits hold the true positions along every run in which fewer
than `2 ^ 31` elements are enqueued in the lineage of a list: it is a run with offsets as integers,
and these are in range. It can be continued in this way exactly by the calls that have room, and, as
long as no list has been split or replaced, exactly by those with which the count stays below
`2 ^ 31`. -/
theorem offsets_in_range {ids : Finset ℕ} {ops : List Op} {w : World}
    (hrun : Run (World.BoundedStep wrap32) (World.initial ids) ops w)
    (hcount : ∀ ms, ms <+: ops → ∀ l, enqueues ms l < 2 ^ 31) :
    Run (World.Step id) (World.initial ids) ops w ∧
    (∀ l s k, w.lists l = some s → k ≤ NLayers →
      0 ≤ (s.level k).headOff ∧ (s.level k).headOff ≤ (s.level k).tailOff ∧
        (s.level k).tailOff ≤ enqueues ops l ∧ (s.level k).tailOff ≤ intMax) ∧
    (∀ op : Op, op.Pre w → op.Bounded w →
      (op.exec wrap32 w = op.exec id w ↔ op.HasRoom w)) ∧
    ((∀ op ∈ ops, op.Whole) → ∀ op : Op, op.Pre w → op.Bounded w →
      (op.exec wrap32 w = op.exec id w ↔ ∀ l, enqueues (ops ++ [op]) l < 2 ^ 31)) := by
  obtain ⟨hrun', hstep⟩ := World.inStep_of_run hrun hcount
  obtain ⟨xs, hok⟩ := hstep.ok
  have hroom : ∀ op : Op, op.Pre w → op.Bounded w →
      (op.exec wrap32 w = op.exec id w ↔ op.HasRoom w) := fun op hpre hbound ↦
    hok.exec_int_iff intType_wrap32 hstep.range hbound hpre
  refine ⟨hrun', fun l s k hl hk ↦ ?_, hroom, fun hwhole op hpre hbound ↦ ?_⟩
  · obtain ⟨Λ, hr, -⟩ := hok.rep hl
    exact ⟨(hr.nodes.level k hk).nonneg, (hr.nodes.level k hk).le, hstep.within l s hl k hk,
      (hstep.range l s hl).level k⟩
  · rw [hroom op hpre hbound, enqueues_snoc]
    exact ⟨(hstep.counts hwhole).lineage_lt (hcount ops (List.prefix_refl ops)) hpre,
      hstep.within.hasRoom⟩

/-! ## Short runs -/

theorem Op.lineage_le {c : ℕ → ℕ} {n : ℕ} (hc : ∀ l, c l ≤ n) (op : Op) :
    ∀ l, op.lineage c l ≤ n + 1 := by
  have hle : ∀ m, c m ≤ n + 1 := fun m ↦ Nat.le_succ_of_le (hc m)
  cases op with
  | enqueueCopy m h | enqueueMove m h =>
    exact (Function.forall_update_iff c fun _ k ↦ k ≤ n + 1).mpr
      ⟨Nat.succ_le_succ (hc m), fun l _ ↦ hle l⟩
  | dequeueHalf m r | dequeueHalf_ m r =>
    exact (Function.forall_update_iff c fun _ k ↦ k ≤ n + 1).mpr ⟨hle m, fun l _ ↦ hle l⟩
  | replace m r =>
    exact (Function.forall_update_iff c fun _ k ↦ k ≤ n + 1).mpr ⟨hle r, fun l _ ↦ hle l⟩
  | _ => exact hle

theorem enqueues_le_length (ops : List Op) (l : ℕ) : enqueues ops l ≤ ops.length := by
  induction ops using List.reverseRecOn generalizing l with
  | nil => exact Nat.le_refl 0
  | append_singleton ops op ih =>
    rw [enqueues_snoc, List.length_append, List.length_singleton]
    exact Op.lineage_le ih op l

/-- **A short run** has room, and never more elements than it may have. -/
theorem World.boundedStep_of_short {ids : Finset ℕ} {ops : List Op} {w : World}
    (hrun : Run (World.Step id) (World.initial ids) ops w) (hlen : ops.length ≤ 2 ^ 20)
    (hhalf : ∀ op ∈ ops, ∀ l r, op ≠ .dequeueHalf_ l r) :
    Run (World.BoundedStep wrap32) (World.initial ids) ops w ∧ w.InStep ops := by
  induction hrun with
  | refl => exact ⟨.refl, .initial ids⟩
  | @snoc ls t u op _ last ih =>
    rw [List.length_append, List.length_singleton] at hlen
    obtain ⟨hbefore, hstep⟩ := ih (by omega) fun op hop ↦ hhalf op (List.mem_append_left _ hop)
    obtain ⟨hpre, hexec⟩ := last
    have hbound : op.Bounded t := by
      refine ⟨fun l ys hys ↦ ?_, hhalf op (List.mem_append_right _ (List.mem_singleton_self op))⟩
      obtain ⟨xs, hok⟩ := hstep.ok
      obtain ⟨⟨s, hl⟩, rfl⟩ := hok.contents_iff.mp hys
      obtain ⟨Λ, hr, -, -, hsize⟩ := hok.rep hl
      have hhead : 0 ≤ s.headOff := (hr.nodes.level 0 (Nat.zero_le _)).nonneg
      have htail : s.tailOff ≤ enqueues ls l := hstep.within l s hl 0 (Nat.zero_le _)
      have hcount := enqueues_le_length ls l
      omega
    obtain ⟨hsame, hnext⟩ := hstep.next hpre hbound fun l ↦ by
      have hcount := enqueues_le_length (ls ++ [op]) l
      rw [List.length_append, List.length_singleton] at hcount
      omega
    exact ⟨hbefore.snoc ⟨⟨hpre, hsame.trans hexec⟩, hbound⟩, hnext u hexec⟩

theorem enqueues_stealOps (n : ℕ) : enqueues (stealOps n) 0 = n := by
  have hfill : enqueues (fillOps n) 0 = n := by
    induction n with
    | zero => rfl
    | succ n ih =>
      simp only [fillOps, enqueues_snoc, Op.lineage, Function.update_self, ih]
  simp only [stealOps, enqueues_snoc, Op.lineage]
  rw [Function.update_of_ne (by decide), Function.update_of_ne (by decide), hfill]

/-- A list is filled with `200` elements and split with its layers, and the part given away replaces
another list. -/
theorem offsets_in_range_stealOps :
    ∃ w s t, Run (World.BoundedStep wrap32) (World.initial {0, 2}) (stealOps 200) w ∧
      Run (World.Step id) (World.initial {0, 2}) (stealOps 200) w ∧ w.lists 0 = some s ∧
      w.lists 2 = some t ∧ s.headOff = 128 ∧ s.tailOff = 200 ∧ t.headOff = 1 ∧ t.tailOff = 128 ∧
      enqueues (stealOps 200) 0 = 200 ∧ ∀ k ≤ NLayers, (s.level k).tailOff ≤ 200 := by
  obtain ⟨w, s, t, hrun, hstolen⟩ := stealOps_run (n := 200) (by decide) (by decide)
  have hhalf : ∀ op ∈ stealOps 200, ∀ l r, op ≠ .dequeueHalf_ l r := by
    rintro _ hop l r rfl
    simp only [stealOps, List.mem_append, List.mem_singleton] at hop
    rcases hop with ((hop | hop) | hop) | hop
    · rcases mem_fillOps hop with ⟨a, h⟩ | h | h <;> cases h
    all_goals cases hop
  obtain ⟨hbounded, -⟩ := World.boundedStep_of_short hrun (by rw [length_stealOps]; decide) hhalf
  obtain ⟨hrun', hoffs, -⟩ := offsets_in_range hbounded fun ms hms l ↦ by
    have hcount := enqueues_le_length ms l
    have hlen := hms.length_le
    rw [length_stealOps] at hlen
    omega
  refine ⟨w, s, t, hbounded, hrun', hstolen.rest, hstolen.given, hstolen.rest_headOff,
    hstolen.rest_tailOff, hstolen.given_headOff, hstolen.given_tailOff, enqueues_stealOps 200,
    fun k hk ↦ ?_⟩
  have hle := (hoffs 0 s k hstolen.rest hk).2.2.1
  rwa [enqueues_stealOps] at hle

end TYThread
