import TYThread.Family.Balance
import TYThread.Skiplist.Range

/-!
# How long a steal takes

`dequeue_half_` moves half of the elements one by one. `dequeue_half` looks for the highest layer
with two nodes, walks along half of this layer, and cuts the levels below it at the place that it
has come to. The layer above has at most one node, so there are few nodes to walk along, whatever
number of elements they stand for. This is what the layers are for. Only on the highest layer there
is no such bound, but each of its nodes stands for more than sixteen million elements.
-/

namespace TYThread

open LinkedList Transition

/-! ## The loops, counted

`dequeue_half` once more, with the same bodies. Every loop also returns how often it has gone round.
-/

namespace Skiplist

variable (int : ℤ → ℤ)

/-- One round more. -/
def addRound {α : Type} (r : α × ℕ) : α × ℕ := (r.1, r.2 + 1)

/-- `findLayer`. -/
def findLayerCounted : ℕ → Scan → Option ((ℕ × Scan) × ℕ)
  | 0, z => some ((0, z), 0)
  | i + 1, z => do
    let L := z.self.layers i
    let sz := int (L.tailOff - L.headOff)
    if sz > 1 then
      some ((i + 1, z), 1)
    else if sz = 1 then
      let (downHead, nextCount) :=
        if i = 0 then (z.self.head, int (z.self.tailOff - z.self.headOff))
        else ((z.self.layers (i - 1)).headNode,
          int ((z.self.layers (i - 1)).tailOff - (z.self.layers (i - 1)).headOff))
      let nd ← z.heap.readNode L.headNode
      if nd.downNode = downHead ∧ nextCount = 2 * SkipGap - 1 then
        (findLayerCounted i { z with
          res := some (({} : Skiplist).setLayer i L)
          self := z.self.setLayer i L.movedFrom
          upperState := .singleNodePreserved }).map addRound
      else
        let heap ← z.heap.freeChain z.heap.brk L.headNode
        (findLayerCounted i { z with
          heap
          thatDownNode := nd.downNode
          self := z.self.setLayer i L.cleanup
          upperState := .upperCleanuped }).map addRound
    else
      (findLayerCounted i z).map addRound

/-- `walkNodes`. -/
def walkNodesCounted (h : Heap) : ℕ → Option Addr → Option (Option Addr × ℕ)
  | 0, p => some (p, 0)
  | n + 1, p => do
    let nd ← h.readNode p
    (walkNodesCounted h n nd.nextNode).map addRound

/-- `walkElems`. -/
def walkElemsCounted (h : Heap) : ℕ → Option Addr → Option (Option Addr × ℕ)
  | 0, p => some (p, 0)
  | n + 1, p => do
    let p ← h.next p
    (walkElemsCounted h n p).map addRound

/-- `cutLayers`. The elements are cut behind the loop. -/
def cutLayersCounted : ℕ → Heap → Skiplist → Skiplist → Option Addr → ℤ →
    Option ((Heap × Skiplist × Skiplist) × ℕ)
  | 0, h, s, res, cur, toGiveAwayCurLayer =>
    (cutBase int h s res cur toGiveAwayCurLayer).map fun r ↦ (r, 0)
  | i + 1, h, s, res, cur, toGiveAwayCurLayer => do
    let nd ← h.readNode cur
    let h ← h.setNextNode cur none
    let tmpHeadOff := if i ≠ 0 then (s.layers (i - 1)).headOff else s.headOff
    let toGiveAwayNextLayer :=
      int (int ((1 + toGiveAwayCurLayer) * SkipGap) - remGap (int (tmpHeadOff + SkipGap - 1)) - 1)
    let L := s.layers i
    let cut := int (L.headOff + toGiveAwayCurLayer)
    let res := res.setLayer i { res.layers i with
      headNode := L.headNode, tailNode := cur, headOff := L.headOff, tailOff := cut }
    let s := s.setLayer i { L with headNode := nd.nextNode, headOff := cut }
    (cutLayersCounted i h s res nd.lastDownNode toGiveAwayNextLayer).map addRound

/-- `dequeueHalf`. -/
def dequeueHalfCounted (h : Heap) (s : Skiplist) :
    Option ((Heap × Skiplist × Option Skiplist) × ℕ) := do
  let ((n, z), search) ← findLayerCounted int NLayers { heap := h, self := s }
  match n with
  | i + 1 =>
    let s := z.self
    let res := z.res.getD {}
    let L := s.layers i
    let toGiveAway := (int (L.tailOff - L.headOff + 1)).tdiv 2
    let (candidate, stolen) := stealCandidate z.upperState z.thatDownNode L.candidate
      L.headOff L.tailOff toGiveAway
    let s := s.setLayer i { L with candidate }
    let res := res.setLayer i { res.layers i with candidate := stolen }
    let (cur, walk) ← walkNodesCounted z.heap (toGiveAway - 1).toNat L.headNode
    let ((h, s, res), cut) ← cutLayersCounted int (i + 1) z.heap s res cur toGiveAway
    some ((h, s, some res), search + walk + cut)
  | 0 =>
    let s := z.self
    let toGiveAway := (int (s.tailOff - s.headOff + 1)).tdiv 2
    if toGiveAway = 0 then
      some ((z.heap, s, none), search)
    else
      let res := z.res.getD {}
      let (candidate, stolen) := stealCandidate z.upperState z.thatDownNode s.candidate
        s.headOff s.tailOff toGiveAway
      let s := { s with candidate }
      let res := { res with candidate := stolen }
      let (last, walk) ← walkElemsCounted z.heap (toGiveAway - 1).toNat s.head
      let (h, s, res) ← cutBase int z.heap s res last toGiveAway
      some ((h, s, some res), search + walk)

/-- The rounds of the search over `n` layers that ends with `m`. -/
def searchRounds (n m : ℕ) : ℕ := if m = 0 then n else n - m + 1

/-- How often the loops of `dequeue_half` go round: the one that looks for the layer to split, the
one that walks to the last cell to give away, and the one that cuts the layers, from the layer that
was found. -/
def rounds (n : ℕ) (z : Scan) : ℕ :=
  let L := z.self.level n
  let toGiveAway := (int (L.tailOff - L.headOff + 1)).tdiv 2
  searchRounds NLayers n + (toGiveAway - 1).toNat + n

/-! ## The counts -/

theorem findLayer_le {n : ℕ} {z : Scan} {r : ℕ × Scan} (hrun : findLayer int n z = some r) :
    r.1 ≤ n := by
  induction n generalizing z with
  | zero =>
    rw [← Option.some.inj hrun]
  | succ i ih =>
    simp only [findLayer] at hrun
    split at hrun
    · rw [← Option.some.inj hrun]
    · split at hrun
      · obtain ⟨nd, -, hrun⟩ := Option.bind_eq_some_iff.mp hrun
        generalize (if i = 0 then (z.self.head, int (z.self.tailOff - z.self.headOff))
          else ((z.self.layers (i - 1)).headNode,
            int ((z.self.layers (i - 1)).tailOff - (z.self.layers (i - 1)).headOff))) = next
          at hrun
        split at hrun
        · exact Nat.le_succ_of_le (ih hrun)
        · obtain ⟨heap, -, hrun⟩ := Option.bind_eq_some_iff.mp hrun
          exact Nat.le_succ_of_le (ih hrun)
      · exact Nat.le_succ_of_le (ih hrun)

theorem map_addRound {n : ℕ} {z : Scan} :
    ((findLayer int n z).map fun r ↦ (r, searchRounds n r.1)).map addRound
      = (findLayer int n z).map fun r ↦ (r, searchRounds (n + 1) r.1) := by
  rw [Option.map_map]
  refine Option.map_congr fun r hr ↦ ?_
  have hle := findLayer_le int hr
  rw [Function.comp_apply, addRound, searchRounds, searchRounds]
  congr 1
  split_ifs <;> omega

theorem findLayerCounted_eq (n : ℕ) (z : Scan) :
    findLayerCounted int n z = (findLayer int n z).map fun r ↦ (r, searchRounds n r.1) := by
  induction n generalizing z with
  | zero => rfl
  | succ i ih =>
    simp only [findLayerCounted, findLayer, ih, map_addRound]
    split
    · rw [Option.map_some, searchRounds, if_neg (Nat.succ_ne_zero i), Nat.sub_self]
    · split
      · simp only [Option.bind_eq_bind, Option.map_bind]
        congr 1
        funext nd
        rw [Function.comp_apply]
        generalize (if i = 0 then (z.self.head, int (z.self.tailOff - z.self.headOff))
          else ((z.self.layers (i - 1)).headNode,
            int ((z.self.layers (i - 1)).tailOff - (z.self.layers (i - 1)).headOff))) = next
        split
        · rfl
        · rw [Option.map_bind]
          rfl
      · rfl

theorem walkNodesCounted_eq (h : Heap) (n : ℕ) (p : Option Addr) :
    walkNodesCounted h n p = (walkNodes h n p).map fun r ↦ (r, n) := by
  induction n generalizing p with
  | zero => rfl
  | succ n ih =>
    rw [walkNodesCounted, walkNodes, Option.bind_eq_bind, Option.bind_eq_bind, Option.map_bind]
    congr 1
    funext nd
    rw [ih, Option.map_map]
    rfl

theorem walkElemsCounted_eq (h : Heap) (n : ℕ) (p : Option Addr) :
    walkElemsCounted h n p = (walkElems h n p).map fun r ↦ (r, n) := by
  induction n generalizing p with
  | zero => rfl
  | succ n ih =>
    rw [walkElemsCounted, walkElems, Option.bind_eq_bind, Option.bind_eq_bind, Option.map_bind]
    congr 1
    funext q
    simp only [Function.comp_apply, ih, Option.map_map]
    rfl

theorem cutLayersCounted_eq (n : ℕ) (h : Heap) (s res : Skiplist) (cur : Option Addr) (g : ℤ) :
    cutLayersCounted int n h s res cur g = (cutLayers int n h s res cur g).map fun r ↦ (r, n) := by
  induction n generalizing h s res cur g with
  | zero => rfl
  | succ n ih =>
    simp only [cutLayersCounted, cutLayers, Option.bind_eq_bind, ih, Option.map_bind,
      Option.map_map, Function.comp_def]
    rfl

/-- **Counting changes nothing else**, and the loops go round as often as `rounds` says. -/
theorem dequeueHalfCounted_eq {h : Heap} {s : Skiplist} {n : ℕ} {z : Scan}
    (hfind : findLayer int NLayers { heap := h, self := s } = some (n, z)) :
    dequeueHalfCounted int h s = (dequeueHalf int h s).map fun r ↦ (r, rounds int n z) := by
  simp only [dequeueHalfCounted, dequeueHalf, findLayerCounted_eq, hfind, walkNodesCounted_eq,
    walkElemsCounted_eq, cutLayersCounted_eq, Option.bind_eq_bind, Option.map_some,
    Option.bind_some]
  cases n with
  | zero =>
    dsimp only
    split
    · rename_i hzero
      have hrounds : rounds int 0 z = searchRounds NLayers 0 := by
        simp only [rounds, Skiplist.level_zero, Skiplist.base, hzero]
        rfl
      rw [Option.map_some, hrounds]
    · simp only [Option.bind_map, Option.map_bind, Function.comp_def, Option.map_some]
      rfl
  | succ i =>
    simp only [Option.bind_map, Option.map_bind, Function.comp_def, Option.map_some]
    rfl

theorem dequeueHalfCounted_fst (h : Heap) (s : Skiplist) :
    (dequeueHalfCounted int h s).map Prod.fst = dequeueHalf int h s := by
  cases hfind : findLayer int NLayers { heap := h, self := s } with
  | none =>
    simp only [dequeueHalfCounted, dequeueHalf, findLayerCounted_eq, hfind, Option.map_none,
      Option.bind_eq_bind, Option.bind_none]
  | some r =>
    rw [dequeueHalfCounted_eq int hfind, Option.map_map]
    exact congrFun Option.map_id_fun' _

end Skiplist

section

variable {h : Heap} {s : Skiplist} {lv : ℕ → Layer} {Λ : Layout} {m : ℕ} {z : Skiplist.Scan}

/-- A node of `layers[n - 1]` stands for `64 ^ n` elements. -/
theorem Rep.pow_le (hr : Rep h lv Λ) {n : ℕ} (hn : n ≤ NLayers) :
    64 ^ n * ((lv n).tailOff - (lv n).headOff) ≤ (lv 0).tailOff - (lv 0).headOff := by
  induction n with
  | zero => simp
  | succ n ih =>
    have hlower := ih (by omega)
    obtain ⟨⟨-, hle, -, hfull⟩, -, -⟩ := hr.joints n hn
    have hord := (hr.nodes.level n (by omega)).le
    have hone : 64 * ((lv (n + 1)).tailOff - (lv (n + 1)).headOff) ≤
        (lv n).tailOff - (lv n).headOff := by
      omega
    calc 64 ^ (n + 1) * ((lv (n + 1)).tailOff - (lv (n + 1)).headOff)
        = 64 ^ n * (64 * ((lv (n + 1)).tailOff - (lv (n + 1)).headOff)) := by
          rw [pow_succ, mul_assoc]
      _ ≤ 64 ^ n * ((lv n).tailOff - (lv n).headOff) :=
          mul_le_mul_of_nonneg_left hone (pow_nonneg (by decide) n)
      _ ≤ (lv 0).tailOff - (lv 0).headOff := hlower

/-- The level that is split has few cells: at most one block of them has a node, and there are fewer
than two blocks besides. -/
theorem FoundLevel.few (hr : Rep h s.level Λ) (hfound : FoundLevel h s Λ m z) (hm : m < NLayers) :
    (s.level m).tailOff - (s.level m).headOff ≤ 190 := by
  cases hfound with
  | normal above two =>
    obtain ⟨⟨-, -, hlt, -⟩, hrest, -⟩ := hr.joints m hm
    have hempty := above (m + 1) (Nat.lt_succ_self m) hm
    omega
  | preserved lt above one first count => omega
  | cleanuped lt above one other =>
    obtain ⟨-, hlt, -, hrest⟩ := hr.has_block lt one
    omega

theorem Rep.rounds (hr : Rep h s.level Λ) :
    ∃ r n, Skiplist.dequeueHalfCounted id h s = some (r, n) ∧
      (n ≤ 99 ∨ 2 * 64 ^ NLayers * ((n - 5 : ℕ) : ℤ) ≤ s.tailOff - s.headOff) := by
  obtain ⟨m, z, hm, hz, hfound⟩ := findLayer_spec hr (Nat.le_refl NLayers)
    fun k hk hkN ↦ absurd hk (by omega)
  obtain ⟨r, hhalf⟩ : ∃ r, Skiplist.dequeueHalf id h s = some r := by
    rcases Int.lt_or_eq_of_le (hr.nodes.level 0 (Nat.zero_le _)).le with hlt | heq
    · obtain ⟨h', s', res, -, -, -, -, hrun, -⟩ := dequeueHalf_halfCut hr hlt
      exact ⟨_, hrun⟩
    · exact ⟨_, dequeueHalf_of_empty hr heq⟩
  refine ⟨r, _, by rw [Skiplist.dequeueHalfCounted_eq id hz, hhalf]; rfl, ?_⟩
  have hle := (hr.nodes.level m hm).le
  rw [Skiplist.rounds, hfound.level_eq (Nat.le_refl m), id_eq,
    Int.tdiv_eq_ediv_of_nonneg (by omega)]
  -- The search and the cut go over every layer once, and over the one that is split twice.
  have hlayers : Skiplist.searchRounds NLayers m + m ≤ NLayers + 1 := by
    rw [Skiplist.searchRounds]
    split_ifs <;> omega
  rw [show NLayers = 4 from rfl] at *
  rcases Nat.lt_or_eq_of_le hm with hlt | rfl
  · have hfew := hfound.few hr hlt
    left
    omega
  · have hpow := hr.pow_le (le_refl 4)
    right
    simp only [Skiplist.level_zero, Skiplist.base] at hpow
    rw [show Skiplist.searchRounds 4 4 = 1 from rfl]
    omega

end

/-! ## Every list of a run -/

/-- **A steal is short.** After any run, `dequeue_half` of a list has a result, and its loops go
round at most `99` times, or no more than five times and once for every `2 * 64 ^ 4` elements. For
fewer than `2 ^ 31` elements that is at most `99` times. -/
theorem steal_is_short {ids : Finset ℕ} {ops : List Op} {w : World}
    (hrun : Run (World.Step id) (World.initial ids) ops w) {l : ℕ} {s : Skiplist}
    (hs : w.lists l = some s) {xs : List Addr} (hxs : w.Contents l xs) :
    ∃ r n, s.dequeueHalf id w.heap = some r ∧ s.dequeueHalfCounted id w.heap = some (r, n) ∧
      (n ≤ 99 ∨ 2 * 64 ^ NLayers * (n - 5) ≤ xs.length) ∧ (xs.length < 2 ^ 31 → n ≤ 99) := by
  obtain ⟨xs', hok⟩ := World.ok_of_run hrun
  obtain ⟨S, hlists⟩ := hok.lists
  have hholds := hlists.holds l s hs
  obtain ⟨t, ht, hchain⟩ := hxs
  obtain rfl : s = t := Option.some.inj (hs.symm.trans ht)
  rw [Chain.unique hholds.chain hchain] at hholds
  have hsize := hholds.size
  rw [Skiplist.size] at hsize
  obtain ⟨Λ, hr, -, -⟩ := hholds
  obtain ⟨r, n, hn, hshort⟩ := hr.rounds
  rw [hsize, show NLayers = 4 from rfl] at hshort
  refine ⟨r, n, ?_, hn, ?_, fun hlen ↦ ?_⟩
  · rw [← Skiplist.dequeueHalfCounted_fst, hn]
    rfl
  · rw [show NLayers = 4 from rfl]
    omega
  · omega

/-- A list of `200` elements with three nodes. -/
theorem steal_is_short_fillOps :
    ∃ w s r n, Run (World.Step id) (World.initial {0, 2}) (fillOps 200) w ∧ w.lists 0 = some s ∧
      (s.layers 0).tailOff - (s.layers 0).headOff = 3 ∧ s.dequeueHalf id w.heap = some r ∧
      s.dequeueHalfCounted id w.heap = some (r, n) ∧ n ≤ 99 := by
  obtain ⟨w, s, hrun, hfilled⟩ := fillOps_run 200
  obtain ⟨r, n, hhalf, hn, -, hshort⟩ := steal_is_short hrun hfilled.list hfilled.contents
  exact ⟨w, s, r, n, hrun, hfilled.list, by rw [hfilled.nodes]; rfl, hhalf, hn,
    hshort (by rw [List.length_range]; decide)⟩

end TYThread
