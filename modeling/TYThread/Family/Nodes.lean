import TYThread.Family.Layers
import TYThread.Skiplist.NodeCount

/-!
# No skip node is lost

Skip nodes are made and freed by hand. A world keeps a ledger of them: the live nodes are as many as
the lists have. With the representation invariant that makes every live node one that a list can
reach. The layers are sparse, so there is at most one node for `63` linked elements.
-/

namespace TYThread

open LinkedList Transition Counting

/-- The number of nodes of the lists in `T`. -/
def listsCount (T : Finset ℕ) (lists : ℕ → Option Skiplist) : ℤ := ∑ l ∈ T, nodesOf (lists l)

/-- The lists are finitely many, and there are `d` more live nodes than they have. -/
structure Ledger (h : Heap) (lists : ℕ → Option Skiplist) (d : ℤ) : Prop where
  below : h.NodesBelow
  balance : ∃ T : Finset ℕ, (∀ l ∉ T, lists l = none) ∧ (h.nodeCount : ℤ) = listsCount T lists + d

section

variable {h h' : Heap} {lists : ℕ → Option Skiplist} {d e : ℤ}

theorem Ledger.gain (hledger : Ledger h lists d) (hgains : Heap.Gains h h' e) :
    Ledger h' lists (d + e) := by
  obtain ⟨hbelow, hcount⟩ := hgains hledger.below
  obtain ⟨T, hT, hbalance⟩ := hledger.balance
  exact ⟨hbelow, T, hT, by rw [hcount, hbalance, Int.add_assoc]⟩

theorem listsCount_insert {T : Finset ℕ} (hT : ∀ l ∉ T, lists l = none) (l : ℕ) :
    listsCount (insert l T) lists = listsCount T lists := by
  refine (Finset.sum_subset (Finset.subset_insert l T) fun k _ hk ↦ ?_).symm
  rw [hT k hk, nodesOf, Option.elim_none]

theorem Ledger.set (hledger : Ledger h lists d) (l : ℕ) (o : Option Skiplist) :
    Ledger h (Function.update lists l o) (d + (nodesOf (lists l) - nodesOf o)) := by
  obtain ⟨T, hT, hbalance⟩ := hledger.balance
  refine ⟨hledger.below, insert l T, fun k hk ↦ ?_, ?_⟩
  · rw [Finset.mem_insert, not_or] at hk
    rw [Function.update_of_ne hk.1]
    exact hT k hk.2
  · have hsum := sum_update lists nodesOf (Finset.mem_insert_self l T) o
    rw [← listsCount_insert hT l] at hbalance
    rw [listsCount] at hbalance ⊢
    omega

theorem Ledger.congr (hledger : Ledger h lists d) (hde : e = d) : Ledger h lists e := hde ▸ hledger

end

/-! ## Any operation -/

section

variable {w w' : World} {xs : ℕ → List Addr}

theorem Ledger.keep (hledger : Ledger w.heap w.lists 0) {h' : Heap}
    (hgains : Heap.Gains w.heap h' 0) : Ledger h' w.lists 0 := (hledger.gain hgains).congr rfl

theorem Ledger.setList (hledger : Ledger w.heap w.lists 0) {l : ℕ} {s s' : Skiplist} {h' : Heap}
    (hl : w.lists l = some s) (hgains : Heap.Gains w.heap h' (s'.nodeCount - s.nodeCount)) :
    Ledger h' (Function.update w.lists l (some s')) 0 := by
  refine ((hledger.gain hgains).set l (some s')).congr ?_
  rw [hl]
  simp only [nodesOf, Option.elim_some]
  omega

theorem Ledger.split (hledger : Ledger w.heap w.lists 0) {l r : ℕ} {s s' : Skiplist}
    {res : Option Skiplist} {h' : Heap} (hl : w.lists l = some s) (hr : w.lists r = none)
    (hgains : Heap.Gains w.heap h' (s'.nodeCount + nodesOf res - s.nodeCount)) :
    Ledger h' (Function.update (Function.update w.lists l (some s')) r res) 0 := by
  have hrl : r ≠ l := by
    rintro rfl
    rw [hl] at hr
    cases hr
  refine (((hledger.gain hgains).set l (some s')).set r res).congr ?_
  rw [Function.update_of_ne hrl, hl, hr]
  simp only [nodesOf, Option.elim_some, Option.elim_none]
  omega

/-- `replace` makes and frees nothing: the nodes of the one list become those of the other. -/
theorem World.Ok.ledger_replace (hok : w.Ok xs) (hledger : Ledger w.heap w.lists 0) {l r : ℕ}
    (hpre : (Op.replace l r).Pre w) (hrun : w.replace l r = some w') :
    Ledger w'.heap w'.lists 0 := by
  obtain ⟨S, hlists⟩ := hok.lists
  obtain ⟨hlr, hempty, p, hr⟩ := hpre
  obtain ⟨⟨s, hl⟩, hxs⟩ := hok.contents_iff.mp hempty
  have hs := hlists.holds l s hl
  rw [← hxs] at hs
  have hp := hlists.holds r p hr
  obtain ⟨s', p', hreplace, hs', hp', -⟩ := hs.replace hp
  rw [World.replace, hl, hr] at hrun
  simp only [Option.bind_eq_bind, Option.bind_some, hreplace, Option.pure_def,
    Option.some.injEq] at hrun
  have hmoved : s'.nodeCount = p.nodeCount := hs'.ncard_nodes.symm.trans hp.ncard_nodes
  rw [← hrun]
  refine ((hledger.set l (some s')).set r (some p')).congr ?_
  rw [Function.update_of_ne (Ne.symm hlr), hl, hr]
  simp only [nodesOf, Option.elim_some, hmoved, hs.nodeCount_nil, hp'.nodeCount_nil]
  omega

/-- **Every operation** keeps the ledger. -/
theorem World.Ok.ledger_step (hok : w.Ok xs) (hledger : Ledger w.heap w.lists 0) {op : Op}
    (hstep : World.Step id w op w') : Ledger w'.heap w'.lists 0 := by
  obtain ⟨hpre, hrun⟩ := hstep
  obtain ⟨S, hlists⟩ := hok.lists
  cases op with
  | newObject a =>
    rw [← Option.some.inj hrun]
    exact hledger.keep (.of_node rfl rfl)
  | construct h a =>
    simp only [Op.exec_construct, World.construct, Option.bind_eq_bind, Option.bind_eq_some_iff,
      Option.pure_def, Option.some.injEq] at hrun
    obtain ⟨h₁, hincrease, rfl⟩ := hrun
    exact hledger.keep (.increase hincrease)
  | makeRefPtr h a =>
    simp only [Op.exec_makeRefPtr, World.makeRefPtr, World.construct, Option.bind_eq_bind,
      Option.bind_eq_some_iff, Option.pure_def, Option.some.injEq] at hrun
    obtain ⟨h₁, hincrease, rfl⟩ := hrun
    have hnew : Heap.Gains w.heap (w.newObject a).heap 0 := .of_node rfl rfl
    exact hledger.keep (hnew.trans (.increase hincrease))
  | copyConstruct h g =>
    simp only [Op.exec_copyConstruct, World.copyConstruct, Option.bind_eq_bind,
      Option.bind_eq_some_iff, Option.pure_def, Option.some.injEq] at hrun
    obtain ⟨p, -, h₁, hincrease, rfl⟩ := hrun
    exact hledger.keep (.increase hincrease)
  | moveConstruct h g =>
    simp only [Op.exec_moveConstruct, World.moveConstruct, Option.bind_eq_bind,
      Option.bind_eq_some_iff, Option.pure_def, Option.some.injEq] at hrun
    obtain ⟨p, -, rfl⟩ := hrun
    exact hledger
  | copyAssign h g =>
    simp only [Op.exec_copyAssign, World.copyAssign, Option.bind_eq_bind, Option.bind_eq_some_iff,
      Option.pure_def, Option.some.injEq] at hrun
    obtain ⟨q, -, h₁, hincrease, p, -, h₂, hdecrease, rfl⟩ := hrun
    exact hledger.keep ((Heap.Gains.increase hincrease).trans (.decrease hdecrease))
  | moveAssign h g =>
    simp only [Op.exec_moveAssign, World.moveAssign, Option.bind_eq_bind, Option.bind_eq_some_iff,
      Option.pure_def, Option.some.injEq] at hrun
    obtain ⟨p, -, h₁, hdecrease, q, -, rfl⟩ := hrun
    exact hledger.keep (.decrease hdecrease)
  | nullAssign h =>
    simp only [Op.exec_nullAssign, World.nullAssign, Option.bind_eq_bind, Option.bind_eq_some_iff,
      Option.pure_def, Option.some.injEq] at hrun
    obtain ⟨p, -, h₁, hdecrease, rfl⟩ := hrun
    exact hledger.keep (.decrease hdecrease)
  | destroy h =>
    simp only [Op.exec_destroy, World.destroy, Option.bind_eq_bind, Option.bind_eq_some_iff,
      Option.pure_def, Option.some.injEq] at hrun
    obtain ⟨p, -, h₁, hdecrease, rfl⟩ := hrun
    exact hledger.keep (.decrease hdecrease)
  | enqueueCopy l h =>
    simp only [Op.exec_enqueueCopy, World.enqueueCopy, Option.bind_eq_bind, Option.bind_eq_some_iff,
      Option.pure_def, Option.some.injEq] at hrun
    obtain ⟨s, hl, p, -, ⟨h₁, s'⟩, henqueue, rfl⟩ := hrun
    exact hledger.setList hl (enqueueCopy_gains henqueue)
  | enqueueMove l h =>
    simp only [Op.exec_enqueueMove, World.enqueueMove, Option.bind_eq_bind, Option.bind_eq_some_iff,
      Option.pure_def, Option.some.injEq] at hrun
    obtain ⟨s, hl, p, -, ⟨h₁, s'⟩, henqueue, rfl⟩ := hrun
    exact hledger.setList hl (enqueueMove_gains henqueue)
  | dequeue l h =>
    simp only [Op.exec_dequeue, World.dequeue, Option.bind_eq_bind, Option.bind_eq_some_iff,
      Option.pure_def, Option.some.injEq] at hrun
    obtain ⟨s, hl, ⟨h₁, s', t⟩, hdequeue, rfl⟩ := hrun
    exact hledger.setList hl (dequeue_gains hdequeue)
  | dequeueHalf l r =>
    simp only [Op.exec_dequeueHalf, World.dequeueHalf, Option.bind_eq_bind, Option.bind_eq_some_iff,
      Option.pure_def, Option.some.injEq] at hrun
    obtain ⟨s, hl, ⟨h₁, s', res⟩, hhalf, rfl⟩ := hrun
    obtain ⟨Λ, hr, -, -⟩ := hlists.holds l s hl
    exact hledger.split hl hpre.2 (dequeueHalf_gains hr hhalf)
  | dequeueHalf_ l r =>
    simp only [Op.exec_dequeueHalf_, World.dequeueHalf_, Option.bind_eq_bind,
      Option.bind_eq_some_iff, Option.pure_def, Option.some.injEq] at hrun
    obtain ⟨s, hl, ⟨h₁, s', res⟩, hhalf, rfl⟩ := hrun
    exact hledger.split hl hpre.2 (giveAwayHalf_gains hhalf)
  | replace l r => exact hok.ledger_replace hledger hpre hrun

end

theorem Ledger.initial (ids : Finset ℕ) :
    Ledger (World.initial ids).heap (World.initial ids).lists 0 := by
  refine ⟨fun _ _ ↦ rfl, ids, fun l hl ↦ if_neg hl, ?_⟩
  have hlive : (World.initial ids).heap.nodeCount = 0 := by
    have hset : {a : Addr | ((World.initial ids).heap.node a).isSome = true} = ∅ := by
      ext a
      simp [World.initial, Heap.empty]
    rw [Heap.nodeCount, holders, hset, Set.ncard_empty]
  have hlists : listsCount ids (World.initial ids).lists = 0 := by
    refine Finset.sum_eq_zero fun l hl ↦ ?_
    have hsome : (World.initial ids).lists l = some {} := if_pos hl
    rw [hsome, nodesOf, Option.elim_some, Skiplist.nodeCount_new]
  rw [hlive, hlists]
  rfl

theorem ledger_of_run {ids : Finset ℕ} {ops : List Op} {w : World}
    (hrun : Run (World.Step id) (World.initial ids) ops w) :
    ∃ xs, w.Ok xs ∧ Ledger w.heap w.lists 0 := by
  refine hrun.invariant (I := fun w ↦ ∃ xs, w.Ok xs ∧ Ledger w.heap w.lists 0)
    ⟨_, World.Ok.initial ids, Ledger.initial ids⟩ ?_
  rintro w op w' ⟨xs, hok, hledger⟩ hstep
  obtain ⟨xs', hstep'⟩ := hok.of_step hstep
  exact ⟨xs', hstep'.ok, hok.ledger_step hledger hstep⟩

/-! ## Who holds a node -/

/-- The node is met by following `nextNode` from the head of layer `i` of the list `l`. -/
def World.NodeIn (w : World) (l i : ℕ) (a : Addr) : Prop :=
  ∃ s ns, w.lists l = some s ∧ i < NLayers ∧ Chain w.heap.nextNodeOf (s.layers i).headNode ns ∧
    a ∈ ns

section

variable {w : World} {xs : ℕ → List Addr} {S : ℕ → Set Addr} {T : Finset ℕ}

theorem World.nodeIn_iff {l i : ℕ} {s : Skiplist} {Λ : Layout} {a : Addr} (hl : w.lists l = some s)
    (hr : Rep w.heap s.level Λ) :
    w.NodeIn l i a ↔ i < NLayers ∧ a ∈ (s.layers i).items (Λ.cell (i + 1)) := by
  constructor
  · rintro ⟨t, ns, ht, hi, hchain, ha⟩
    obtain rfl : s = t := Option.some.inj (hl.symm.trans ht)
    rw [hchain.unique (hr.layered.nodes i hi)] at ha
    exact ⟨hi, ha⟩
  · rintro ⟨hi, ha⟩
    exact ⟨s, _, hl, hi, hr.layered.nodes i hi, ha⟩

theorem ListsOk.mem_nodes_iff (hlists : ListsOk w.heap w.lists xs S) {l : ℕ} {a : Addr} :
    a ∈ S l ↔ ∃ i, w.NodeIn l i a := by
  cases hl : w.lists l with
  | none =>
    rw [(hlists.absent l hl).2]
    refine ⟨fun ha ↦ absurd ha (Set.notMem_empty a), ?_⟩
    rintro ⟨i, s, ns, hs, -⟩
    rw [hl] at hs
    cases hs
  | some s =>
    obtain ⟨Λ, hr, -, hnodes⟩ := hlists.holds l s hl
    simp only [← hnodes, mem_nodeCells, World.nodeIn_iff hl hr, Finset.mem_range]
    rfl

theorem ListsOk.nodeIn_unique (hlists : ListsOk w.heap w.lists xs S) {l m i j : ℕ} {a : Addr}
    (ha : w.NodeIn l i a) (ha' : w.NodeIn m j a) : l = m ∧ i = j := by
  obtain rfl : l = m :=
    hlists.nodes l m a (hlists.mem_nodes_iff.mpr ⟨i, ha⟩) (hlists.mem_nodes_iff.mpr ⟨j, ha'⟩)
  obtain ⟨s, -, hl, -⟩ := id ha
  obtain ⟨Λ, hr, -, -⟩ := hlists.holds l s hl
  obtain ⟨hi, hmem⟩ := (World.nodeIn_iff hl hr).mp ha
  obtain ⟨hj, hmem'⟩ := (World.nodeIn_iff hl hr).mp ha'
  obtain ⟨p, hp, rfl⟩ := mem_items.mp hmem
  obtain ⟨q, hq, hqp⟩ := mem_items.mp hmem'
  exact ⟨rfl, hr.nodes.disjoint i hi j hj p q hp hq hqp.symm⟩

theorem ListsOk.ncard_nodes (hlists : ListsOk w.heap w.lists xs S) :
    (Set.ncard {a | ∃ l ∈ T, a ∈ S l} : ℤ) = listsCount T w.lists := by
  have hcount : ∀ l, (S l).Finite ∧ ((S l).ncard : ℤ) = nodesOf (w.lists l) := fun l ↦ by
    cases hl : w.lists l with
    | none =>
      rw [(hlists.absent l hl).2, Set.ncard_empty]
      exact ⟨Set.finite_empty, rfl⟩
    | some s => exact ⟨(hlists.holds l s hl).finite_nodes, (hlists.holds l s hl).ncard_nodes⟩
  rw [ncard_iUnion (fun l _ ↦ (hcount l).1) fun l _ m _ ↦ hlists.nodes l m, listsCount,
    Nat.cast_sum]
  exact Finset.sum_congr rfl fun l _ ↦ (hcount l).2

theorem ListsOk.live_iff (hlists : ListsOk w.heap w.lists xs S) (hledger : Ledger w.heap w.lists 0)
    (a : Addr) : w.heap.node a ≠ none ↔ ∃ l, a ∈ S l := by
  obtain ⟨T, hT, hbalance⟩ := hledger.balance
  have hpresent : ∀ l, a ∈ S l → l ∈ T := fun l ha ↦ by
    by_contra hl
    rw [(hlists.absent l (hT l hl)).2] at ha
    exact Set.notMem_empty a ha
  have hlive : ∀ l b, b ∈ S l → w.heap.node b ≠ none := fun l b hb ↦ by
    cases hl : w.lists l with
    | none =>
      rw [(hlists.absent l hl).2] at hb
      exact absurd hb (Set.notMem_empty b)
    | some s => exact (hlists.holds l s hl).live hb
  -- As many as the live nodes, and all of them live.
  have hsame : {b | ∃ l ∈ T, b ∈ S l} = {b | (w.heap.node b).isSome = true} := by
    refine Set.eq_of_subset_of_ncard_le ?_ ?_ hledger.below.finite
    · rintro b ⟨l, -, hb⟩
      exact Option.isSome_iff_ne_none.mpr (hlive l b hb)
    · have hcount := hlists.ncard_nodes (T := T)
      rw [Int.add_zero, Heap.nodeCount, holders] at hbalance
      omega
  constructor
  · intro ha
    have hmem : a ∈ {b | (w.heap.node b).isSome = true} := Option.isSome_iff_ne_none.mpr ha
    rw [← hsame] at hmem
    obtain ⟨l, -, hl⟩ := hmem
    exact ⟨l, hl⟩
  · rintro ⟨l, hl⟩
    exact hlive l a hl

theorem ListsOk.ncard_elems (hlists : ListsOk w.heap w.lists xs S) :
    Set.ncard {a | ∃ l ∈ T, a ∈ xs l} = ∑ l ∈ T, (xs l).length := by
  have hnodup : ∀ l, (xs l).Nodup := fun l ↦ by
    cases hl : w.lists l with
    | none =>
      rw [(hlists.absent l hl).1]
      exact List.nodup_nil
    | some s => exact (hlists.holds l s hl).nodup
  have hunion := ncard_iUnion (T := T) (S := fun l ↦ {a | a ∈ xs l})
    (fun l _ ↦ List.finite_toSet (xs l)) fun l _ m _ ↦ hlists.elems l m
  exact hunion.trans (Finset.sum_congr rfl fun l _ ↦ ncard_mem (hnodup l))

theorem ListsOk.listsCount_le (hlists : ListsOk w.heap w.lists xs S) :
    63 * listsCount T w.lists ≤ (∑ l ∈ T, (xs l).length : ℕ) := by
  rw [listsCount, Finset.mul_sum, Nat.cast_sum]
  refine Finset.sum_le_sum fun l _ ↦ ?_
  cases hl : w.lists l with
  | none =>
    rw [nodesOf, Option.elim_none, Int.mul_zero]
    exact Int.natCast_nonneg _
  | some s => exact (hlists.holds l s hl).nodeCount_le

end

/-- **No skip node is lost, and none is freed that a list still holds.** After any run the live skip
nodes are exactly those that following `nextNode` in a layer of a list meets, each in one layer of
one list. -/
theorem no_node_lost {ids : Finset ℕ} {ops : List Op} {w : World}
    (hrun : Run (World.Step id) (World.initial ids) ops w) (a : Addr) :
    (w.heap.node a ≠ none ↔ ∃ l i, w.NodeIn l i a) ∧
      ∀ l i m j, w.NodeIn l i a → w.NodeIn m j a → l = m ∧ i = j := by
  obtain ⟨xs, hok, hledger⟩ := ledger_of_run hrun
  obtain ⟨S, hlists⟩ := hok.lists
  refine ⟨?_, fun l i m j ↦ hlists.nodeIn_unique⟩
  rw [hlists.live_iff hledger]
  exact exists_congr fun l ↦ hlists.mem_nodes_iff

theorem World.Ok.nodeIn_of_block {w : World} {xs : ℕ → List Addr} (hok : w.Ok xs) {l : ℕ}
    {s : Skiplist}
    (hl : w.lists l = some s) {c : ℤ} (hc : s.base.Block c) : ∃ a, w.NodeIn l 0 a := by
  obtain ⟨S, hlists⟩ := hok.lists
  obtain ⟨Λ, hr, -, -⟩ := hlists.holds l s hl
  obtain ⟨p, nd, hp, -⟩ := hr.layered.has_node (i := 0) (by decide) hc
  exact ⟨_, (World.nodeIn_iff hl hr).mpr ⟨by decide, mem_items.mpr ⟨p, hp, rfl⟩⟩⟩

/-- Both lists have a node after the split of three nodes. -/
theorem Stolen.nodes {w : World} {s t : Skiplist} {n : ℕ} (h : Stolen w s t n) {xs : ℕ → List Addr}
    (hok : w.Ok xs) (hn : 192 ≤ n) : (∃ a, w.NodeIn 0 0 a) ∧ ∃ a, w.NodeIn 2 0 a := by
  have hhalf : 128 ≤ halfOf n ∧ halfOf n + 64 ≤ n ∧ halfOf n % 64 = 0 := by
    rw [halfOf]
    omega
  refine ⟨hok.nodeIn_of_block h.rest (c := halfOf n) ⟨?_, ?_, ?_⟩,
    hok.nodeIn_of_block h.given (c := 64) ⟨rfl, ?_, ?_⟩⟩
  · omega
  · exact h.rest_headOff.le
  · have htail : s.base.tailOff = n := h.rest_tailOff
    omega
  · have hhead : t.base.headOff = 1 := h.given_headOff
    omega
  · have htail : t.base.tailOff = halfOf n := h.given_tailOff
    omega

/-- Each half of a list of `200` elements still has a node, after the split has dealt out three
nodes and the dequeue has freed one of them. -/
theorem no_node_lost_stealOps :
    ∃ w a b, Run (World.Step id) (World.initial {0, 2}) (stealOps 200) w ∧
      (∀ c, w.heap.node c ≠ none ↔ ∃ l i, w.NodeIn l i c) ∧ w.NodeIn 0 0 a ∧ w.NodeIn 2 0 b ∧
      a ≠ b := by
  obtain ⟨w, s, t, hrun, hstolen⟩ := stealOps_run (n := 200) (by decide) (by decide)
  obtain ⟨xs, hok⟩ := World.ok_of_run hrun
  obtain ⟨⟨a, ha⟩, b, hb⟩ := hstolen.nodes hok (by decide)
  refine ⟨w, a, b, hrun, fun c ↦ (no_node_lost hrun c).1, ha, hb, ?_⟩
  rintro rfl
  exact absurd ((no_node_lost hrun a).2 0 0 2 0 ha hb).1 (by decide)

/-- **The layers are cheap.** After any run there is at most one live skip node for `63` elements
that are linked in lists. -/
theorem nodes_le_linked {ids : Finset ℕ} {ops : List Op} {w : World}
    (hrun : Run (World.Step id) (World.initial ids) ops w) :
    63 * w.heap.nodeCount ≤ Set.ncard {a | w.Linked a} := by
  obtain ⟨xs, hok, hledger⟩ := ledger_of_run hrun
  obtain ⟨S, hlists⟩ := hok.lists
  obtain ⟨T, hT, hbalance⟩ := hledger.balance
  have hlinked : {a | w.Linked a} = {a | ∃ l ∈ T, a ∈ xs l} := by
    ext a
    refine hok.linked_iff.trans (exists_congr fun l ↦ (and_iff_right_of_imp fun ha ↦ ?_).symm)
    by_contra hl
    rw [(hlists.absent l (hT l hl)).1] at ha
    exact List.not_mem_nil ha
  have hfew := hlists.listsCount_le (T := T)
  rw [hlinked, hlists.ncard_elems]
  omega

/-- The two nodes and the `199` elements at the end of that run. -/
theorem nodes_le_linked_stealOps :
    ∃ w a b, Run (World.Step id) (World.initial {0, 2}) (stealOps 200) w ∧ w.NodeIn 0 0 a ∧
      w.NodeIn 2 0 b ∧ 63 * w.heap.nodeCount ≤ Set.ncard {a | w.Linked a} ∧
      Set.ncard {a | w.Linked a} = 199 := by
  obtain ⟨w, s, t, hrun, hstolen⟩ := stealOps_run (n := 200) (by decide) (by decide)
  obtain ⟨xs, hok⟩ := World.ok_of_run hrun
  obtain ⟨⟨a, ha⟩, b, hb⟩ := hstolen.nodes hok (by decide)
  refine ⟨w, a, b, hrun, ha, hb, nodes_le_linked hrun, ?_⟩
  have hlinked : {a | w.Linked a} = ↑(Finset.Ico 1 200) := by
    ext a
    rw [Set.mem_ofPred_eq, hstolen.linked_iff (by decide), Finset.coe_Ico, Set.mem_Ico]
  rw [hlinked, Set.ncard_coe_finset]
  rfl

end TYThread
