import TYThread.Family.Steps

/-!
# Filling a list and stealing from it

A run that is long enough for the layers to matter. Objects are moved into one list until its lowest
layer has several nodes. Then a thief takes the front half of the nodes with all that they stand
for, puts it into a list of its own, and takes the first element from there, which breaks up the
first block.
-/

namespace TYThread

open LinkedList Transition

/-- `n` objects are made and moved into the list `0`, one after the other. -/
def fillOps : ℕ → List Op
  | 0 => []
  | n + 1 => fillOps n ++ [.makeRefPtr 0 n] ++ [.enqueueMove 0 0] ++ [.destroy 0]

/-- The list is filled, half of it is given away, and the list `2` takes this half over. Its first
element is taken out. -/
def stealOps (n : ℕ) : List Op := fillOps n ++ [.dequeueHalf 0 1] ++ [.replace 2 1] ++
    [.dequeue 2 0]

theorem length_fillOps (n : ℕ) : (fillOps n).length = 3 * n := by
  induction n with
  | zero => rfl
  | succ n ih =>
    simp only [fillOps, List.length_append, List.length_singleton, ih]
    omega

theorem mem_fillOps {n : ℕ} {op : Op} (hop : op ∈ fillOps n) :
    (∃ a, op = .makeRefPtr 0 a) ∨ op = .enqueueMove 0 0 ∨ op = .destroy 0 := by
  induction n with
  | zero => exact absurd hop List.not_mem_nil
  | succ n ih =>
    simp only [fillOps, List.mem_append, List.mem_singleton] at hop
    rcases hop with ((hop | rfl) | rfl) | rfl
    · exact ih hop
    · exact Or.inl ⟨n, rfl⟩
    · exact Or.inr (Or.inl rfl)
    · exact Or.inr (Or.inr rfl)

theorem length_stealOps (n : ℕ) : (stealOps n).length = 3 * n + 3 := by
  simp only [stealOps, List.length_append, List.length_singleton, length_fillOps]

/-- The objects below `n` are in the list `s`, and every other list is as at the start. -/
structure Filled (w : World) (s : Skiplist) (n : ℕ) : Prop where
  ok : w.Ok (Function.update (fun _ ↦ []) 0 (List.range n))
  lists : w.lists = Function.update (World.initial {0, 2}).lists 0 (some s)
  handle : w.handles 0 = none
  fresh : ∀ a, n ≤ a → w.heap.counterOf a = none
  headOff : s.headOff = 0

section

variable {w w' : World} {xs xs' : ℕ → List Addr} {s : Skiplist} {n : ℕ}

theorem Filled.zero : Filled (World.initial {0, 2}) {} 0 := by
  refine ⟨?_, ?_, rfl, fun _ _ ↦ rfl, rfl⟩
  · rw [List.range_zero, Function.update_eq_self_iff.mpr rfl]
    exact World.Ok.initial _
  · exact (Function.update_eq_self_iff.mpr (by rfl)).symm

theorem Filled.list (h : Filled w s n) : w.lists 0 = some s := by rw [h.lists, Function.update_self]

theorem StepOk.fresh {op : Op} (hstep : StepOk w w' xs xs' op) {a : Addr}
    (ha : w.heap.counterOf a = none) (hne : op.created ≠ some a) : w'.heap.counterOf a = none :=
  (hstep.deletes.live a).mpr (Or.inl ⟨ha, hne⟩)

theorem World.Ok.of_enqueueMove (hok : w.Ok xs) {l h : ℕ} {e : Addr} (hl : w.lists l = some s)
    (hh : w.handles h = some (some e)) (hnew : ∀ m, e ∉ xs m)
    (hrun : w.enqueueMove id l h = some w') :
    ∃ s', w'.lists = Function.update w.lists l (some s') ∧ s'.headOff = s.headOff ∧
      s'.tailOff = s.tailOff + 1 := by
  obtain ⟨S, hlists⟩ := hok.lists
  have hlive : w.heap.counterOf e ≠ none := by
    refine hok.counted.live e ?_
    have hle := pointsTo_le_ownersOf xs (hok.finite e) h
    rw [hh, Option.join_some, pointsTo_self] at hle
    omega
  obtain ⟨q, hq⟩ := Heap.live_iff.mp hlive
  obtain ⟨heap, s', T, henqueue, he, -⟩ := (hlists.holds l s hl).enqueueMove hq (hnew l)
  simp only [World.enqueueMove, hl, hh, henqueue, Option.bind_eq_bind, Option.bind_some,
    Option.pure_def, Option.some.injEq] at hrun
  rw [← hrun]
  exact ⟨s', rfl, he.headOff, he.tailOff⟩

theorem Filled.succ (h : Filled w s n) {u : World} {ops : List Op}
    (hrun : Run (World.Step id) u ops w) : ∃ w' s', Run (World.Step id) u
      (ops ++ [.makeRefPtr 0 n] ++ [.enqueueMove 0 0] ++ [.destroy 0]) w' ∧
      Filled w' s' (n + 1) := by
  have hobj : w.heap.obj n = none := Option.map_eq_none_iff.mp (h.fresh n (Nat.le_refl n))
  obtain ⟨w₁, hmake, hstep₁⟩ := h.ok.makeRefPtr (h := 0) (a := n) h.handle hobj
  have hw₁ : World.Step id w (.makeRefPtr 0 n) w₁ := ⟨⟨h.handle, hobj⟩, hmake⟩
  have hlists₁ : w₁.lists = w.lists := Op.exec_lists hw₁.2 trivial
  have hlist₁ : w₁.lists 0 = some s := by rw [hlists₁, h.list]
  have hhandle₁ : w₁.handles 0 = some (some n) := by
    rw [Op.exec_handles hw₁.2, Op.handlesAfter, Function.update_self]
  have hnew : ∀ m, n ∉ Function.update (fun _ ↦ []) 0 (List.range n) m := fun m hm ↦ by
    by_cases hm0 : m = 0
    · rw [hm0, Function.update_self, List.mem_range] at hm
      omega
    · rw [Function.update_of_ne hm0] at hm
      exact List.not_mem_nil hm
  have hlinked : ¬w₁.Linked n := by
    rw [hstep₁.ok.linked_iff]
    exact not_exists.mpr hnew
  obtain ⟨w₂, henqueue, hstep₂⟩ := hstep₁.ok.enqueueMove hlist₁ hhandle₁ hnew
  have hw₂ : World.Step id w₁ (.enqueueMove 0 0) w₂ :=
    ⟨⟨⟨s, hlist₁⟩, n, hhandle₁, hlinked⟩, henqueue⟩
  obtain ⟨s', hlists₂, hhead, -⟩ := hstep₁.ok.of_enqueueMove hlist₁ hhandle₁ hnew henqueue
  have hhandle₂ : w₂.handles 0 = some none := by
    rw [Op.exec_handles hw₂.2, Op.handlesAfter, Function.update_self]
  obtain ⟨w₃, hdestroy, hstep₃⟩ := hstep₂.ok.destroy hhandle₂ fun a ha ↦ by simp at ha
  have hw₃ : World.Step id w₂ (.destroy 0) w₃ :=
    ⟨⟨none, hhandle₂, fun a ha ↦ by simp at ha⟩, hdestroy⟩
  have hlists₃ : w₃.lists = w₂.lists := Op.exec_lists hw₃.2 trivial
  refine ⟨w₃, s', ((hrun.snoc hw₁).snoc hw₂).snoc hw₃, ⟨?_, ?_, ?_, fun a ha ↦ ?_, ?_⟩⟩
  · have hok := hstep₃.ok
    rwa [Function.update_idem, Function.update_self, ← List.range_succ] at hok
  · rw [hlists₃, hlists₂, hlists₁, h.lists, Function.update_idem]
  · rw [Op.exec_handles hw₃.2, Op.handlesAfter, Function.update_self]
  · have hne : Op.created (.makeRefPtr 0 n) ≠ some a := fun heq ↦ by
      have hna : n = a := Option.some.inj heq
      omega
    have hnone : w₁.heap.counterOf a = none := hstep₁.fresh (h.fresh a (by omega)) hne
    exact hstep₃.fresh (hstep₂.fresh hnone (by simp [Op.created])) (by simp [Op.created])
  · rw [hhead, h.headOff]

/-- **Filling a list**, with any number of objects. -/
theorem fillOps_run (n : ℕ) :
    ∃ w s, Run (World.Step id) (World.initial {0, 2}) (fillOps n) w ∧ Filled w s n := by
  induction n with
  | zero => exact ⟨_, {}, .refl, .zero⟩
  | succ n ih =>
    obtain ⟨w, s, hrun, hfilled⟩ := ih
    exact hfilled.succ hrun

end

/-! ## The split -/

section

variable {h : Heap} {s : Skiplist} {Λ : Layout} {lo hi : Layer} {cell : ℤ → Addr} {δ : ℤ}

/-- From position `0` on there is a node for every `64` items. -/
theorem Joint.nodes_of_zero (hj : Joint lo hi cell δ) (hhead : lo.headOff = 0)
    (hlo : 0 ≤ lo.tailOff) : hi.tailOff - hi.headOff = lo.tailOff / 64 := by
  obtain ⟨⟨hdvd, hle, hlt, hfull⟩, hrest, -⟩ := hj
  omega

theorem Joint.empty_of_lt (hj : Joint lo hi cell δ) (hlt : lo.tailOff < lo.headOff + 64)
    (hhi : hi.headOff ≤ hi.tailOff) : hi.headOff = hi.tailOff := by
  obtain ⟨⟨-, hle, -, hfull⟩, -, -⟩ := hj
  omega

theorem Rep.emptyAbove (hr : Rep h s.level Λ) {m : ℕ}
    (hlt : (s.level m).tailOff < (s.level m).headOff + 64) : EmptyAbove s.level m := by
  intro k hk hkN
  obtain ⟨d, rfl⟩ := Nat.exists_eq_add_of_lt hk
  induction d with
  | zero => exact (hr.joints m (by omega)).empty_of_lt hlt (hr.nodes.level (m + 1) hkN).le
  | succ d ih =>
    have hbelow := ih (by omega) (by omega)
    exact (hr.joints (m + d + 1) (by omega)).empty_of_lt (by omega) (hr.nodes.level _ hkN).le

theorem EmptyAbove.unique {lv : ℕ → Layer} {j k : ℕ} (hj : EmptyAbove lv j) (hk : EmptyAbove lv k)
    (hjN : j ≤ NLayers) (hkN : k ≤ NLayers) (hjc : (lv j).headOff < (lv j).tailOff)
    (hkc : (lv k).headOff < (lv k).tailOff) : j = k := by
  rcases Nat.lt_trichotomy j k with hlt | heq | hlt
  · have := hj k hlt hkN
    omega
  · exact heq
  · have := hk j hlt hjN
    omega

/-- The highest level with cells has two of them: it is the one that is split. -/
theorem Rep.half_of_two (hr : Rep h s.level Λ) {m : ℕ} (hm : m ≤ NLayers)
    (habove : EmptyAbove s.level m) (htwo : (s.level m).headOff + 1 < (s.level m).tailOff) :
    ∃ h' s' res Λ₁ Λ₂ x, Skiplist.dequeueHalf id h s = some (h', s', some res) ∧
      SplitDone h h' s s' res Λ Λ₁ Λ₂ x ∧ HalfCut s.level Λ m x := by
  obtain ⟨k, z, hk, hz, hfound⟩ := findLayer_spec hr (Nat.le_refl NLayers) fun k hk hkN ↦ by omega
  cases hfound with
  | normal above two =>
    have hcells : (s.level k).headOff < (s.level k).tailOff := by
      rcases Nat.eq_zero_or_pos m with rfl | hpos
      · rcases two with rfl | two
        · omega
        · omega
      · rcases two with rfl | two
        · have := above m hpos hm
          omega
        · omega
    obtain rfl := above.unique habove hk hm hcells (by omega)
    exact split_normal hr hm hz habove hcells (Or.inr htwo)
  | preserved lt above one =>
    obtain rfl := above.unique habove lt hm (by omega) (by omega)
    omega
  | cleanuped lt above one =>
    obtain rfl := above.unique habove lt hm (by omega) (by omega)
    omega

/-- The elements are cut behind half of the nodes of the lowest layer. -/
theorem HalfCut.of_zero {x : ℤ} (hr : Rep h s.level Λ) (hcut : HalfCut s.level Λ 1 x)
    (hhead : s.headOff = 0) : x = 64 * ((s.tailOff / 64 + 1) / 2) := by
  obtain ⟨-, -, cut, hc, hcm, rfl⟩ := hcut
  have hj : Joint (s.level 0) (s.level 1) (Λ.cell 0) (Λ.shift 0) := hr.joints 0 (by decide)
  have hle : s.headOff ≤ s.tailOff := (hr.nodes.level 0 (Nat.zero_le _)).le
  have hnodes : (s.level 1).tailOff - (s.level 1).headOff = s.tailOff / 64 :=
    hj.nodes_of_zero hhead (by change 0 ≤ s.tailOff; omega)
  rw [toGiveAway_eq (hr.nodes.level 1 (by decide)).le, hnodes] at hcm
  rw [hc.down 0 (by decide), hcm]
  obtain ⟨⟨hdvd, hstart, hlt, -⟩, -, -⟩ := hj
  simp only [Skiplist.level_zero, Skiplist.base] at *
  omega

end

/-- The position of the cut in a list of `n` elements from position `0` on. -/
def halfOf (n : ℕ) : ℕ := 64 * ((n / 64 + 1) / 2)

section

variable {w w' : World} {s : Skiplist} {n : ℕ}

theorem Filled.contents (h : Filled w s n) : w.Contents 0 (List.range n) :=
  h.ok.contents_iff.mpr ⟨⟨s, h.list⟩, by rw [Function.update_self]⟩

theorem Filled.tailOff (h : Filled w s n) : s.tailOff = n := by
  obtain ⟨S, hlists⟩ := h.ok.lists
  have hsize := (hlists.holds 0 s h.list).size
  rw [Function.update_self, List.length_range, Skiplist.size, h.headOff] at hsize
  omega

theorem Filled.nodes (h : Filled w s n) : (s.layers 0).tailOff - (s.layers 0).headOff = n / 64 := by
  obtain ⟨S, hlists⟩ := h.ok.lists
  obtain ⟨Λ, hr, -, -⟩ := hlists.holds 0 s h.list
  have htail : (s.level 0).tailOff = n := h.tailOff
  rw [← htail]
  exact (hr.joints 0 (by decide)).nodes_of_zero h.headOff (by omega)

/-- The split of a list with two nodes or more, all of them in the lowest layer. -/
theorem Filled.dequeueHalf (h : Filled w s n) (hn : 128 ≤ n) (hn' : n < 4096) :
    ∃ heap s' res, Skiplist.dequeueHalf id w.heap s = some (heap, s', some res) ∧
      s'.headOff = halfOf n ∧ s'.tailOff = n ∧ res.headOff = 0 ∧ res.tailOff = halfOf n := by
  have htail := h.tailOff
  have hnodes := h.nodes
  obtain ⟨S, hlists⟩ := h.ok.lists
  obtain ⟨Λ, hr, -, -⟩ := hlists.holds 0 s h.list
  obtain ⟨heap, s', res, Λ₁, Λ₂, x, hrun, hd, hcut⟩ :=
    hr.half_of_two (m := 1) (by decide) (hr.emptyAbove (by rw [Skiplist.level_succ]; omega))
      (by rw [Skiplist.level_succ]; omega)
  have hx := hcut.of_zero hr h.headOff
  refine ⟨heap, s', res, hrun, ?_, ?_, ?_, ?_⟩
  · rw [hd.rest_headOff, hx, halfOf]
    omega
  · rw [hd.rest_tailOff]
    omega
  · rw [hd.given_headOff, h.headOff]
  · rw [hd.given_tailOff, hx, halfOf]
    omega

theorem World.Ok.contents_of_queues {xs : ℕ → List Addr} (hok : w.Ok xs) {l : ℕ} {ys : List Addr}
    (h : w.queues xs l = some ys) : w.Contents l ys :=
  hok.contents_iff.mpr ⟨(World.queues_eq_some h).1, (World.queues_eq_some h).2.symm⟩

theorem World.Ok.size_of_queues {xs : ℕ → List Addr} (hok : w.Ok xs) {l : ℕ} {ys : List Addr}
    (h : w.queues xs l = some ys) (hl : w.lists l = some s) :
    s.tailOff - s.headOff = ys.length := by
  obtain ⟨S, hlists⟩ := hok.lists
  rw [← (World.queues_eq_some h).2]
  exact (hlists.holds l s hl).size

theorem range_split {ys zs : List ℕ} {g : ℕ} (h : List.range n = ys ++ zs) (hg : ys.length = g) :
    ys = List.range g ∧ zs = List.range' g (n - g) := by
  have hlen : g ≤ n := by
    have hsum := congrArg List.length h
    rw [List.length_range, List.length_append] at hsum
    omega
  have hrange : List.range n = List.range g ++ List.range' g (n - g) := by
    have happend := List.range'_append_1 (s := 0) (m := g) (n := n - g)
    rw [Nat.zero_add, Nat.add_sub_cancel' hlen] at happend
    rw [List.range_eq_range', List.range_eq_range', happend]
  exact List.append_inj (h.symm.trans hrange) (by rw [hg, List.length_range])

/-- The list has been split. The front half is in the list `1`. -/
structure Halved (w : World) (s r : Skiplist) (n : ℕ) : Prop where
  lists : w.lists = Function.update (Function.update (World.initial {0, 2}).lists 0 (some s)) 1
    (some r)
  contents_rest : w.Contents 0 (List.range' (halfOf n) (n - halfOf n))
  contents_given : w.Contents 1 (List.range (halfOf n))
  handle : w.handles 0 = none
  rest_headOff : s.headOff = halfOf n
  rest_tailOff : s.tailOff = n
  given_headOff : r.headOff = 0
  given_tailOff : r.tailOff = halfOf n

theorem Filled.split (h : Filled w s n) (hn : 128 ≤ n) (hn' : n < 4096) :
    ∃ w' s' r, World.Step id w (.dequeueHalf 0 1) w' ∧ Halved w' s' r n := by
  obtain ⟨heap, s', r, hrun, hhead, htail, hhead', htail'⟩ := h.dequeueHalf hn hn'
  have hnone : w.lists 1 = none := by
    rw [h.lists]
    rfl
  have hpre : (Op.dequeueHalf 0 1).Pre w := ⟨⟨s, h.list⟩, hnone⟩
  obtain ⟨w', xs', hexec, hstep⟩ := h.ok.step hpre
  have hlists : w'.lists = Function.update (Function.update w.lists 0 (some s')) 1 (some r) := by
    simp only [Op.exec_dequeueHalf, World.dequeueHalf, h.list, hrun, Option.bind_eq_bind,
      Option.bind_some, Option.pure_def, Option.some.injEq] at hexec
    rw [← hexec]
    rfl
  have hqueue : w.queues (Function.update (fun _ ↦ []) 0 (List.range n)) 0 =
      some (List.range n) := by
    rw [World.queues_of_some h.list, Function.update_self]
  obtain ⟨ys, zs, -, hsplit, -, hqueues⟩ :=
    hstep.queue.of_split_cons hqueue (List.ne_nil_of_length_pos (by rw [List.length_range]; omega))
  have hgiven : w'.queues xs' 1 = some ys := by rw [hqueues, Function.update_self]
  have hrest : w'.queues xs' 0 = some zs := by
    rw [hqueues, Function.update_of_ne (by decide), Function.update_self]
  have hsize := hstep.ok.size_of_queues (s := r) hgiven (by rw [hlists, Function.update_self])
  obtain ⟨rfl, rfl⟩ := range_split (g := halfOf n) hsplit (by omega)
  refine ⟨w', s', r, ⟨hpre, hexec⟩, ?_, hstep.ok.contents_of_queues hrest,
    hstep.ok.contents_of_queues hgiven, ?_, hhead, htail, hhead', htail'⟩
  · rw [hlists, h.lists, Function.update_idem]
  · rw [Op.exec_handles hexec, Op.handlesAfter, h.handle]

/-- The list `2` has taken over the front half, and the first element has been taken out of it. -/
structure Stolen (w : World) (s t : Skiplist) (n : ℕ) : Prop where
  rest : w.lists 0 = some s
  given : w.lists 2 = some t
  other : ∀ l, w.lists l ≠ none → l = 0 ∨ l = 1 ∨ l = 2
  contents_rest : w.Contents 0 (List.range' (halfOf n) (n - halfOf n))
  contents_empty : w.Contents 1 []
  contents_given : w.Contents 2 (List.range' 1 (halfOf n - 1))
  handle : w.handles 0 = some (some 0)
  rest_headOff : s.headOff = halfOf n
  rest_tailOff : s.tailOff = n
  given_headOff : t.headOff = 1
  given_tailOff : t.tailOff = halfOf n

theorem Halved.replace {s r : Skiplist} (h : Halved w s r n) {xs : ℕ → List Addr} (hok : w.Ok xs) :
    ∃ w' xs' t r', World.Step id w (.replace 2 1) w' ∧ w'.Ok xs' ∧
      w'.lists = Function.update (Function.update w.lists 2 (some t)) 1 (some r') ∧
      t.headOff = 0 ∧ t.tailOff = halfOf n ∧ w'.handles 0 = none ∧
      w'.queues xs' 0 = some (List.range' (halfOf n) (n - halfOf n)) ∧
      w'.queues xs' 1 = some [] ∧ w'.queues xs' 2 = some (List.range (halfOf n)) := by
  have hlist₁ : w.lists 1 = some r := by rw [h.lists, Function.update_self]
  have hlist₂ : w.lists 2 = some {} := by
    rw [h.lists]
    rfl
  have hempty : w.Contents 2 [] := ⟨{}, hlist₂, rfl⟩
  have hpre : (Op.replace 2 1).Pre w := ⟨by decide, hempty, r, hlist₁⟩
  obtain ⟨⟨s', hlist₀⟩, hxs₀⟩ := hok.contents_iff.mp h.contents_rest
  obtain ⟨-, hxs₁⟩ := hok.contents_iff.mp h.contents_given
  obtain ⟨w', xs', hexec, hstep⟩ := hok.step hpre
  have hqueues := hstep.queue.of_replace (World.queues_of_some hlist₁)
  obtain ⟨t, r', hlists, hhead, htail⟩ : ∃ t r', w'.lists
      = Function.update (Function.update w.lists 2 (some t)) 1 (some r') ∧
        t.headOff = r.headOff ∧ t.tailOff = r.tailOff := by
    obtain ⟨S, hholds⟩ := hok.lists
    have htwo := hholds.holds 2 {} hlist₂
    rw [← (hok.contents_iff.mp hempty).2] at htwo
    obtain ⟨t, r', hreplace, -, -, hlevel, -⟩ := htwo.replace (hholds.holds 1 r hlist₁)
    simp only [Op.exec_replace, World.replace, hlist₁, hlist₂, hreplace, Option.bind_eq_bind,
      Option.bind_some, Option.pure_def, Option.some.injEq] at hexec
    refine ⟨t, r', by rw [← hexec]; rfl, ?_⟩
    have hbase : t.base = r.base := hlevel 0 (Nat.zero_le _)
    exact ⟨congrArg Layer.headOff hbase, congrArg Layer.tailOff hbase⟩
  refine ⟨w', xs', t, r', ⟨hpre, hexec⟩, hstep.ok, hlists, by rw [hhead, h.given_headOff],
    by rw [htail, h.given_tailOff], ?_, ?_, ?_, ?_⟩
  · rw [Op.exec_handles hexec, Op.handlesAfter, h.handle]
  · rw [hqueues, Function.update_of_ne (by decide), Function.update_of_ne (by decide),
      World.queues_of_some hlist₀, hxs₀]
  · rw [hqueues, Function.update_self]
  · rw [hqueues, Function.update_of_ne (by decide), Function.update_self, hxs₁]

theorem Halved.steal {s r : Skiplist} (h : Halved w s r n) {xs : ℕ → List Addr} (hok : w.Ok xs)
    (hn : 128 ≤ n) :
    ∃ w₁ w₂ t, World.Step id w (.replace 2 1) w₁ ∧ World.Step id w₁ (.dequeue 2 0) w₂ ∧
      Stolen w₂ s t n := by
  obtain ⟨w₁, xs₁, t, r', hstep₁, hok₁, hlists₁, hhead, htail, hhandle, hq₀, hq₁, hq₂⟩ :=
    h.replace hok
  obtain ⟨k, hk⟩ : ∃ k, halfOf n = k + 1 := Nat.exists_eq_add_one.mpr (by rw [halfOf]; omega)
  have hlist₂ : w₁.lists 2 = some t := by
    rw [hlists₁, Function.update_of_ne (by decide), Function.update_self]
  rw [hk, List.range_eq_range', List.range'_succ, Nat.zero_add] at hq₂
  have hpre : (Op.dequeue 2 0).Pre w₁ := ⟨⟨t, hlist₂⟩, hhandle⟩
  obtain ⟨w₂, xs₂, hexec, hstep₂⟩ := hok₁.step hpre
  have hqueue := hstep₂.queue
  rw [Op.label_dequeue] at hqueue
  obtain ⟨hresult, hqueues⟩ := hqueue.of_dequeue_cons hq₂
  -- The offsets of the list `2` afterwards.
  obtain ⟨S, hlists⟩ := hok₁.lists
  have hholds := hlists.holds 2 t hlist₂
  rw [(World.queues_eq_some hq₂).2] at hholds
  obtain ⟨heap, t', S', hdequeue, hd⟩ := hholds.dequeue_cons
  have hlists₂ : w₂.lists = Function.update w₁.lists 2 (some t') := by
    simp only [Op.exec_dequeue, World.dequeue, hlist₂, hdequeue, Option.bind_eq_bind,
      Option.bind_some, Option.pure_def, Option.some.injEq] at hexec
    rw [← hexec]
    rfl
  refine ⟨w₁, w₂, t', hstep₁, ⟨hpre, hexec⟩, ?_, ?_, fun l hl ↦ ?_, ?_, ?_, ?_, ?_, h.rest_headOff,
    h.rest_tailOff, ?_, ?_⟩
  · rw [hlists₂, hlists₁, h.lists]
    rfl
  · rw [hlists₂, Function.update_self]
  · by_contra hne
    simp only [not_or] at hne
    obtain ⟨hne₀, hne₁, hne₂⟩ := hne
    rw [hlists₂, Function.update_of_ne hne₂, hlists₁, Function.update_of_ne hne₁,
      Function.update_of_ne hne₂, h.lists, Function.update_of_ne hne₁,
      Function.update_of_ne hne₀] at hl
    exact hl (if_neg (by simp [hne₀, hne₂]))
  · exact hstep₂.ok.contents_of_queues (by rw [hqueues, Function.update_of_ne (by decide), hq₀])
  · exact hstep₂.ok.contents_of_queues (by rw [hqueues, Function.update_of_ne (by decide), hq₁])
  · refine hstep₂.ok.contents_of_queues ?_
    rw [hqueues, Function.update_self, hk, Nat.add_sub_cancel]
  · exact Option.join_eq_some_iff.mp hresult
  · rw [hd.headOff, hhead]
    rfl
  · rw [hd.tailOff, htail]

theorem World.Contents.unique {l : ℕ} {xs ys : List Addr} (hxs : w.Contents l xs)
    (hys : w.Contents l ys) : xs = ys := by
  obtain ⟨s, hs, hchain⟩ := hxs
  obtain ⟨t, ht, hchain'⟩ := hys
  obtain rfl := Option.some.inj (hs.symm.trans ht)
  exact hchain.unique hchain'

theorem Stolen.linked_iff {s t : Skiplist} (h : Stolen w s t n) (hn : 128 ≤ n) {a : ℕ} :
    w.Linked a ↔ 1 ≤ a ∧ a < n := by
  have hhalf : 1 ≤ halfOf n ∧ halfOf n ≤ n := by
    rw [halfOf]
    omega
  constructor
  · rintro ⟨l, ys, hys, ha⟩
    obtain ⟨r, hr, -⟩ := id hys
    rcases h.other l (by rw [hr]; simp) with rfl | rfl | rfl
    · rw [hys.unique h.contents_rest, List.mem_range'_1] at ha
      omega
    · rw [hys.unique h.contents_empty] at ha
      exact absurd ha List.not_mem_nil
    · rw [hys.unique h.contents_given, List.mem_range'_1] at ha
      omega
  · rintro ⟨hpos, hlt⟩
    by_cases ha : a < halfOf n
    · exact ⟨2, _, h.contents_given, List.mem_range'_1.mpr (by omega)⟩
    · exact ⟨0, _, h.contents_rest, List.mem_range'_1.mpr (by omega)⟩

end

/-- **Filling a list and stealing from it**, with any number of objects for which the lowest layer
has two nodes or more and no other layer has any. -/
theorem stealOps_run {n : ℕ} (hn : 128 ≤ n) (hn' : n < 4096) :
    ∃ w s t, Run (World.Step id) (World.initial {0, 2}) (stealOps n) w ∧ Stolen w s t n := by
  obtain ⟨w₀, s₀, hrun, hfilled⟩ := fillOps_run n
  obtain ⟨w₁, s, r, hstep₁, hhalved⟩ := hfilled.split hn hn'
  obtain ⟨xs, hok⟩ := World.ok_of_run (hrun.snoc hstep₁)
  obtain ⟨w₂, w₃, t, hstep₂, hstep₃, hstolen⟩ := hhalved.steal hok hn
  exact ⟨w₃, s, t, ((hrun.snoc hstep₁).snoc hstep₂).snoc hstep₃, hstolen⟩

end TYThread
