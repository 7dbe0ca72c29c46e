import TYThread.Skiplist.Split

/-!
# `dequeue_half`, assembled

The search leaves one of three states. In each of them the offsets and the candidates are
computed here, and the cut of the previous module gives the two lists. The arithmetic is that of
`FoundLevel.cleanuped`: when the only node above the level is dissolved, the cut falls inside its
block, because a level with `64 + a` to `127 + a` cells, `a` of them before the block, is cut behind
half of them. The one exception is a block without cells before it and with `63` behind it, where
the cut falls on the end of the block. That is the case `dequeue_half` singles out.
-/

namespace TYThread

open LinkedList

/-! ## Walking to the last cell to give away -/

theorem walkNodes_spec {h : Heap} {cell : ℤ → Addr} {b : ℤ} {n : ℕ} {p : ℤ}
    (hnode : ∀ q, p ≤ q → q < p + n →
      ∃ nd, h.node (cell q) = some nd ∧ nd.nextNode = firstCell cell (q + 1) b)
    (hb : p + n < b) :
    Skiplist.walkNodes h n (some (cell p)) = some (some (cell (p + n))) := by
  induction n generalizing p with
  | zero => simp [Skiplist.walkNodes]
  | succ n ih =>
    obtain ⟨nd, hnd, hnext⟩ := hnode p (le_refl p) (by omega)
    rw [firstCell_of_lt (by omega)] at hnext
    have hrest := ih (p := p + 1) (fun q hq hq' ↦ hnode q (by omega) (by omega)) (by omega)
    have hsucc : p + 1 + (n : ℤ) = p + (n + 1 : ℕ) := by omega
    rw [hsucc] at hrest
    simp only [Skiplist.walkNodes, Heap.readNode, Option.bind_eq_bind, Option.bind_some, hnd, hnext]
    exact hrest

theorem walkElems_spec {h : Heap} {cell : ℤ → Addr} {a b : ℤ} (he : Segment h.nextOf cell a b)
    {n : ℕ} {p : ℤ} (hp : a ≤ p) (hb : p + n < b) :
    Skiplist.walkElems h n (some (cell p)) = some (some (cell (p + n))) := by
  induction n generalizing p with
  | zero => simp [Skiplist.walkElems]
  | succ n ih =>
    have hnext := he p hp (by omega)
    rw [firstCell_of_lt (by omega)] at hnext
    have hrest := ih (p := p + 1) (by omega) (by omega)
    have hsucc : p + 1 + (n : ℤ) = p + (n + 1 : ℕ) := by omega
    rw [hsucc] at hrest
    simp only [Skiplist.walkElems, Heap.next_eq, Option.bind_eq_bind, Option.bind_some, hnext]
    exact hrest

/-! ## From the search to the cut -/

/-- The list with another candidate at level `m`. -/
def Skiplist.setCandidate (s : Skiplist) : ℕ → Option Addr → Skiplist
  | 0, c => { s with candidate := c }
  | i + 1, c => s.setLayer i { s.layers i with candidate := c }

theorem Skiplist.level_setCandidate (s : Skiplist) (m : ℕ) (c : Option Addr) :
    (s.setCandidate m c).level
      = Function.update s.level m { s.level m with candidate := c } := by
  cases m with
  | zero => exact level_eq (by rw [Function.update_self]; rfl) (s.upper_withBase _).symm
  | succ i => exact level_setLayer s i _

theorem Skiplist.level_setCandidate_of_ne (s : Skiplist) {m k : ℕ} (hk : k ≠ m)
    (c : Option Addr) : (s.setCandidate m c).level k = s.level k := by
  rw [level_setCandidate, Function.update_of_ne hk]

/-- The number of cells of a level to give away. -/
def toGiveAway (L : Layer) : ℤ := (L.tailOff - L.headOff + 1).tdiv 2

theorem toGiveAway_eq {L : Layer} (h : L.headOff ≤ L.tailOff) :
    toGiveAway L = (L.tailOff - L.headOff + 1) / 2 :=
  Int.tdiv_eq_ediv_of_nonneg (by omega)

theorem toGiveAway_pos {L : Layer} (h : L.headOff < L.tailOff) : 0 < toGiveAway L := by
  rw [toGiveAway_eq (by omega)]
  omega

theorem toGiveAway_le {L : Layer} (h : L.headOff ≤ L.tailOff) :
    L.headOff + toGiveAway L ≤ L.tailOff := by
  rw [toGiveAway_eq h]
  omega

/-- Behind the search `dequeue_half` sets the two candidates and cuts. -/
theorem dequeueHalf_of_found {h : Heap} {s : Skiplist} {Λ : Layout} {m : ℕ} {z : Skiplist.Scan}
    (hz : Skiplist.findLayer id NLayers { heap := h, self := s } = some (m, z))
    (hL : LevelOk (z.self.level m) (Λ.cell m))
    (hne : (z.self.level m).headOff < (z.self.level m).tailOff)
    (hnode : ∀ i, m = i + 1 → ∀ p, (z.self.level m).Has p → ∃ nd,
      z.heap.node (Λ.cell m p) = some nd ∧
        nd.nextNode = firstCell (Λ.cell m) (p + 1) (z.self.level m).tailOff)
    (he : m = 0 → ElemsOk z.heap (z.self.level 0) (Λ.cell 0)) {candidate stolen : Option Addr}
    (hcand : Skiplist.stealCandidate z.upperState z.thatDownNode (z.self.level m).candidate
      (z.self.level m).headOff (z.self.level m).tailOff (toGiveAway (z.self.level m))
        = (candidate, stolen)) :
    Skiplist.dequeueHalf id h s =
      (Skiplist.cutLayers id m z.heap (z.self.setCandidate m candidate)
        ((z.res.getD {}).setCandidate m stolen)
        (some (Λ.cell m ((z.self.level m).headOff + toGiveAway (z.self.level m) - 1)))
        (toGiveAway (z.self.level m))).map fun r ↦ (r.1, r.2.1, some r.2.2) := by
  have hpos := toGiveAway_pos hne
  have hle := toGiveAway_le (L := z.self.level m) (by omega)
  have hhead : (z.self.level m).headNode = some (Λ.cell m (z.self.level m).headOff) :=
    hL.head.trans (firstCell_of_lt hne)
  have hend : (z.self.level m).headOff + ((toGiveAway (z.self.level m) - 1).toNat : ℤ)
      = (z.self.level m).headOff + toGiveAway (z.self.level m) - 1 := by omega
  cases m with
  | zero =>
    have hwalk := walkElems_spec (n := (toGiveAway (z.self.level 0) - 1).toNat) (he rfl)
      (le_refl (z.self.level 0).headOff) (by omega)
    rw [hend] at hwalk
    rw [Skiplist.dequeueHalf, hz]
    simp only [Option.bind_eq_bind, Option.bind_some]
    simp only [Skiplist.level_zero, Skiplist.base, toGiveAway] at *
    simp only [id_eq, hcand, if_neg (ne_of_gt hpos), hhead, hwalk, Option.bind_some]
    simp only [Option.map_eq_bind, Skiplist.setCandidate, hhead]
    rfl
  | succ i =>
    have hwalk := walkNodes_spec (n := (toGiveAway (z.self.level (i + 1)) - 1).toNat)
      (p := (z.self.level (i + 1)).headOff) (b := (z.self.level (i + 1)).tailOff)
      (fun q hq hq' ↦ hnode i rfl q ⟨hq, by omega⟩) (by omega)
    rw [hend] at hwalk
    rw [Skiplist.dequeueHalf, hz]
    simp only [Option.bind_eq_bind, Option.bind_some]
    simp only [Skiplist.level_succ, toGiveAway] at *
    simp only [id_eq, hcand, hhead, hwalk, Option.bind_some]
    simp only [Option.map_eq_bind, Skiplist.setCandidate, hhead]
    rfl

/-! ## Where the candidates go -/

theorem roundDown_of_multiple {n : ℤ} (hn : 0 ≤ n) (h : n % 64 = 0) :
    roundDownIfNotMultiple n = -1 := by
  rw [roundDownIfNotMultiple, if_pos (by rw [remGap_of_nonneg hn, h])]

theorem roundDown_of_not_multiple {n : ℤ} (hn : 0 ≤ n) (h : n % 64 ≠ 0) :
    roundDownIfNotMultiple n = n - n % 64 := by
  rw [roundDownIfNotMultiple, if_neg (by rwa [remGap_of_nonneg hn]), remGap_of_nonneg hn]

/-- Without a node above, the candidate is at the only block start there can be. -/
theorem stealCandidate_of_joint {L : Layer} {cell : ℤ → Addr} {g : ℤ} (hnonneg : 0 ≤ L.headOff)
    (hg : 0 < g) (hle : L.headOff + g ≤ L.tailOff) (hrest : L.tailOff < blockStart L.headOff + 64)
    (hcand : L.candidate = firstCell cell (blockStart L.headOff) L.tailOff) (d : Option Addr) :
    Skiplist.stealCandidate .normal d L.candidate L.headOff L.tailOff g
      = (firstCell cell (blockStart (L.headOff + g)) L.tailOff,
          firstCell cell (blockStart L.headOff) (L.headOff + g)) := by
  simp only [Skiplist.stealCandidate]
  rw [blockStart] at hrest
  -- The candidate is absent unless `candpos` is a position of the level.
  have hnone : ¬L.headOff ≤ L.tailOff - L.tailOff % 64 ∨ L.tailOff % 64 = 0 →
      (L.candidate, none) = (firstCell cell (blockStart (L.headOff + g)) L.tailOff,
        firstCell cell (blockStart L.headOff) (L.headOff + g)) := fun h ↦ by
    rw [hcand, firstCell_of_le (by rw [blockStart]; omega),
      firstCell_of_le (by rw [blockStart]; omega), firstCell_of_le (by rw [blockStart]; omega)]
  by_cases hmul : L.tailOff % 64 = 0
  · rw [roundDown_of_multiple (by omega) hmul, if_neg (by simp)]
    exact hnone (Or.inr hmul)
  · rw [roundDown_of_not_multiple (by omega) hmul]
    by_cases hin : L.headOff ≤ L.tailOff - L.tailOff % 64
    · have hstart : blockStart L.headOff = L.tailOff - L.tailOff % 64 := by
        rw [blockStart]
        omega
      by_cases hstolen : L.tailOff - L.tailOff % 64 < L.headOff + g
      · have hnext : L.tailOff ≤ blockStart (L.headOff + g) := by
          rw [blockStart]
          omega
        rw [if_pos ⟨by omega, hin, by omega⟩, hcand, hstart, firstCell_of_le hnext,
          firstCell_of_lt (by omega), firstCell_of_lt hstolen]
      · have hsame : blockStart (L.headOff + g) = blockStart L.headOff := by
          rw [hstart, blockStart]
          omega
        rw [if_neg fun h ↦ hstolen h.2.2, hsame, hcand, hstart,
          firstCell_of_le (by omega : L.headOff + g ≤ _)]
    · rw [if_neg fun h ↦ hin h.2.1]
      exact hnone (Or.inl hin)

/-- At the top layer the candidate may be missing, but it is never wrong on either side. -/
theorem stealCandidate_top {L : Layer} {cell : ℤ → Addr} {g : ℤ} (hnonneg : 0 ≤ L.headOff)
    (hle : L.headOff + g ≤ L.tailOff) (ht : TopCandidate L cell) (d : Option Addr)
    {candidate stolen : Option Addr}
    (hsteal : Skiplist.stealCandidate .normal d L.candidate L.headOff L.tailOff g
      = (candidate, stolen)) :
    TopCandidate { L with headOff := L.headOff + g, candidate := candidate } cell ∧
      TopCandidate { L with tailOff := L.headOff + g, candidate := stolen } cell := by
  simp only [Skiplist.stealCandidate] at hsteal
  rcases ht with hnone | ⟨c, hdvd, hcle, hlt, hrest, hsome⟩
  · rw [hnone, ite_self, Prod.mk.injEq] at hsteal
    exact ⟨Or.inl hsteal.1.symm, Or.inl hsteal.2.symm⟩
  · have hpos : L.tailOff - L.tailOff % 64 = c := by omega
    rw [roundDown_of_not_multiple (by omega) (by omega), hpos] at hsteal
    by_cases hstolen : c < L.headOff + g
    · rw [if_pos ⟨by omega, hcle, hstolen⟩, Prod.mk.injEq] at hsteal
      have hin : L.headOff + g < c + 64 := by omega
      exact ⟨Or.inl hsteal.1.symm,
        Or.inr ⟨c, hdvd, hcle, hstolen, hin, by rw [← hsteal.2, hsome]⟩⟩
    · rw [if_neg fun h ↦ hstolen h.2.2, Prod.mk.injEq] at hsteal
      have hin : L.headOff + g ≤ c := by omega
      exact ⟨Or.inr ⟨c, hdvd, hin, hlt, hrest, by rw [← hsteal.1, hsome]⟩,
        Or.inl hsteal.2.symm⟩

/-- When the node above is dissolved, the cut falls inside its block. -/
theorem cut_inside_block {L : Layer} {b : ℤ} (hle : L.headOff ≤ b) (hlt : b < L.headOff + 64)
    (hblock : b + 64 ≤ L.tailOff) (hrest : L.tailOff < b + 128)
    (hother : ¬(b = L.headOff ∧ L.tailOff = L.headOff + 127)) :
    b < L.headOff + toGiveAway L ∧ L.headOff + toGiveAway L < b + 64 := by
  rw [toGiveAway_eq (by omega)]
  omega

/-! ## The specification -/

/-- What `dequeue_half` does to a non-empty list: both parts are consistent lists, the cut of the
elements is at position `x`, and the parts share no skip node. -/
structure SplitDone (h h' : Heap) (s s' res : Skiplist) (Λ Λ₁ Λ₂ : Layout) (x : ℤ) : Prop where
  rest : Rep h' s'.level Λ₁
  given : Rep h' res.level Λ₂
  rest_cell : Λ₁.cell = Λ.cell
  given_cell : Λ₂.cell = Λ.cell
  head_lt : s.headOff < x
  le_tail : x ≤ s.tailOff
  rest_headOff : s'.headOff = x
  rest_tailOff : s'.tailOff = s.tailOff
  given_headOff : res.headOff = s.headOff
  given_tailOff : res.tailOff = x
  next : h'.nextOf = Function.update h.nextOf (Λ.cell 0 (x - 1)) (some none)
  counter : h'.counterOf = h.counterOf
  deleted : h'.deleted = h.deleted
  disjoint : ∀ a ∈ nodeCells s'.level Λ₁, a ∉ nodeCells res.level Λ₂
  frame : NodeFrame h h' (nodeCells s.level Λ) (nodeCells s'.level Λ₁ ∪ nodeCells res.level Λ₂)

section

variable {h h' : Heap} {s s' res : Skiplist} {Λ : Layout} {n : ℕ} {cut : ℕ → ℤ}
  {candidate stolen : Option Addr}

theorem SplitDone.of_cut (hr : Rep h s.level Λ) (hn : n ≤ NLayers) (hc : Cut s.level Λ n cut)
    (hh : CutNodes h h' s.level Λ n cut) (hrest : RestLevels s.level s'.level Λ n cut candidate)
    (hgiven : GivenLevels s.level res.level Λ n cut stolen)
    (hcand : n < NLayers → ((s.level n).tailOff < blockStart (cut n) + 64 ∧
        candidate = firstCell (Λ.cell n) (blockStart (cut n)) (s.level n).tailOff) ∧
      (cut n < blockStart (s.level n).headOff + 64 ∧
        stolen = firstCell (Λ.cell n) (blockStart (s.level n).headOff) (cut n)))
    (ht : n = NLayers → TopCandidate (s'.level n) (Λ.cell n) ∧
      TopCandidate (res.level n) (Λ.cell n))
    (hcount : h'.counterOf = h.counterOf) (hdel : h'.deleted = h.deleted)
    (hsame : ∀ a, a ∉ nodeCells s.level Λ → h'.node a = h.node a) :
    ∃ Λ₁ Λ₂, SplitDone h h' s s' res Λ Λ₁ Λ₂ (cut 0) := by
  have hhead := hc.head_lt 0 (Nat.zero_le n)
  have htail := hc.le_tail 0 (Nat.zero_le n)
  have hcut := hrest.isCutRight (Nat.zero_le n)
  refine ⟨Λ.below n s'.level, Λ.below n res.level, ?_⟩
  refine ⟨hr.rest hn hc hh hrest (fun hlt ↦ (hcand hlt).1) fun hN ↦ (ht hN).1,
    hr.given hn hc hh hgiven (fun hlt ↦ (hcand hlt).2) fun hN ↦ (ht hN).2, rfl, rfl, hhead, htail,
    hcut.headOff, hcut.tailOff, hgiven.headOff (Nat.zero_le n), hgiven.tailOff (Nat.zero_le n),
    hh.next, hcount, hdel, ?_, ⟨Nat.le_of_eq hh.brk.symm, fun a _ ↦ hsame a, ?_⟩⟩
  · rintro a ⟨j, hj, p, hp, rfl⟩ ⟨k, hk, q, hq, heq⟩
    obtain ⟨-, hp', hpl⟩ := hrest.has hc hj hp
    obtain ⟨-, hq', hql⟩ := hgiven.has hc hk hq
    obtain rfl := hr.nodes.disjoint k hk j hj q p hql hpl heq
    have := (hr.nodes.level (k + 1) hk).distinct q p hql.1 hql.2 hpl.1 hpl.2 heq
    have hp'' : cut (k + 1) ≤ p := hp'
    have hq'' : q < cut (k + 1) := hq'
    omega
  · rintro a (⟨k, hk, p, hp, rfl⟩ | ⟨k, hk, p, hp, rfl⟩)
    · exact Or.inl ⟨k, hk, p, (hrest.has hc hk hp).2.2, rfl⟩
    · exact Or.inl ⟨k, hk, p, (hgiven.has hc hk hp).2.2, rfl⟩

/-- What the cut makes of the state the search leaves at level `m`. -/
structure SplitRun (z : Skiplist.Scan) (h' : Heap) (s s' res : Skiplist) (Λ : Layout) (m : ℕ)
    (cut : ℕ → ℤ) (candidate stolen : Option Addr) : Prop where
  heap : CutHeap z.heap h' s.level Λ m cut
  rest : ∀ k < m, s'.level k = (s.level k).cutRight (Λ.cell k) (cut k)
  rest_last : s'.level m = { (s.level m).cutRight (Λ.cell m) (cut m) with candidate := candidate }
  given : ∀ k < m, res.level k = (s.level k).cutLeft (Λ.cell k) (cut k) none
  given_last : res.level m = (s.level m).cutLeft (Λ.cell m) (cut m) stolen
  rest_above : ∀ k > m, s'.level k = z.self.level k
  given_above : ∀ k > m, res.level k = (z.res.getD {}).level k

/-- The run of `dequeue_half` behind the search: the levels up to `m` are as they were. -/
theorem split_run (hr : Rep h s.level Λ) {m : ℕ} (hm : m ≤ NLayers) {z : Skiplist.Scan}
    (hz : Skiplist.findLayer id NLayers { heap := h, self := s } = some (m, z))
    (hself : ∀ k ≤ m, z.self.level k = s.level k)
    (hres : ∀ k ≤ m, ((z.res.getD {}).level k).candidate = none)
    (hnode : ∀ k < m, ∀ p, (s.level (k + 1)).Has p →
      z.heap.node (Λ.cell (k + 1) p) = h.node (Λ.cell (k + 1) p))
    (hobj : z.heap.obj = h.obj) (hne : (s.level m).headOff < (s.level m).tailOff)
    (hcand : Skiplist.stealCandidate z.upperState z.thatDownNode (s.level m).candidate
      (s.level m).headOff (s.level m).tailOff (toGiveAway (s.level m)) = (candidate, stolen))
    (hc : Cut s.level Λ m cut) (hcm : cut m = (s.level m).headOff + toGiveAway (s.level m)) :
    ∃ h' s' res, Skiplist.dequeueHalf id h s = some (h', s', some res) ∧
      SplitRun z h' s s' res Λ m cut candidate stolen := by
  have hnode' : ∀ k < m, ∀ p, (s.level (k + 1)).Has p →
      z.heap.node (Λ.cell (k + 1) p) = some (Λ.nodeAt s.level k p) := fun k hk p hp ↦ by
    rw [hnode k hk p hp, hr.nodes.node k (by omega) p hp]
  have he : ElemsOk z.heap (s.level 0) (Λ.cell 0) := by
    have hnext := Heap.nextOf_congr hobj
    rw [ElemsOk, hnext]
    exact hr.elems
  have hm' := hself m (Nat.le_refl m)
  have hcand' : Skiplist.stealCandidate z.upperState z.thatDownNode (z.self.level m).candidate
      (z.self.level m).headOff (z.self.level m).tailOff (toGiveAway (z.self.level m))
        = (candidate, stolen) := by rw [hm']; exact hcand
  have hfound := dequeueHalf_of_found (Λ := Λ) hz (by rw [hm']; exact hr.nodes.level m hm)
    (by rwa [hm']) (fun i hi p hp ↦ by
      subst hi
      rw [hm'] at hp ⊢
      exact ⟨_, hnode' i (by omega) p hp, rfl⟩)
    (fun h0 ↦ by rw [hself 0 (Nat.zero_le m)]; exact he) hcand'
  have hlast : cut m - 1 = (s.level m).headOff + toGiveAway (s.level m) - 1 := by omega
  have hcount : cut m - (s.level m).headOff = toGiveAway (s.level m) := by omega
  obtain ⟨h', s', res, hrun, hheap, hlists⟩ := cutLayers_spec
    (s := z.self.setCandidate m candidate) (r := (z.res.getD {}).setCandidate m stolen)
    (Λ := Λ) (h := z.heap) hm
    (fun k hk ↦ hr.nodes.level k (by omega)) (fun k hk ↦ (hr.joints k (by omega)).toAligned)
    (fun j hj k hk ↦ hr.nodes.disjoint j (by omega) k (by omega)) hc
    (fun k hk ↦ by
      by_cases hkm : k = m
      · rw [hkm, Skiplist.level_setCandidate, Function.update_self, hm']
        exact ⟨rfl, rfl, rfl, rfl⟩
      · rw [Skiplist.level_setCandidate_of_ne _ hkm, hself k hk]
        exact SameLevel.refl _) hnode' he
  rw [hlast, hcount] at hrun
  rw [hm', hrun] at hfound
  refine ⟨h', s', res, hfound, hheap, fun k hk ↦ ?_, ?_, fun k hk ↦ ?_, ?_, fun k hk ↦ ?_,
    fun k hk ↦ ?_⟩
  · rw [hlists.rest k (by omega), Skiplist.level_setCandidate_of_ne _ (by omega),
      hself k (by omega)]
    rfl
  · rw [hlists.rest m (Nat.le_refl m), Skiplist.level_setCandidate, Function.update_self]
  · rw [hlists.given k (by omega), Skiplist.level_setCandidate_of_ne _ (by omega),
      hres k (by omega)]
  · rw [hlists.given m (Nat.le_refl m), Skiplist.level_setCandidate, Function.update_self]
  · rw [hlists.rest_above k hk, Skiplist.level_setCandidate_of_ne _ (by omega)]
  · rw [hlists.given_above k hk, Skiplist.level_setCandidate_of_ne _ (by omega)]

theorem level_new_empty (k : ℕ) : (({} : Skiplist).level k).Empty := by
  cases k with
  | zero => exact ⟨le_refl _, rfl, rfl, rfl⟩
  | succ k => exact ⟨le_refl _, rfl, rfl, rfl⟩

/-- The skip nodes of the cut heap against those of the heap before the search. -/
theorem CutHeap.cutNodes {h₁ : Heap} {lv : ℕ → Layer} (hh : CutHeap h₁ h' lv Λ n cut)
    (hc : Cut lv Λ n cut) (hlv : ∀ k ≤ n, LevelOk (lv k) (Λ.cell k))
    (hdisj : ∀ j < n, ∀ k < n, ∀ p q, (lv (j + 1)).Has p → (lv (k + 1)).Has q →
      Λ.cell (j + 1) p = Λ.cell (k + 1) q → j = k)
    (hnode : ∀ k < n, ∀ p, (lv (k + 1)).Has p →
      h₁.node (Λ.cell (k + 1) p) = h.node (Λ.cell (k + 1) p))
    (hobj : h₁.obj = h.obj) (hbrk : h₁.brk = h.brk) : CutNodes h h' lv Λ n cut := by
  refine ⟨hh.node, fun k hk p hp hpc ↦ ?_, ?_, hh.brk.trans hbrk⟩
  · rw [hh.same, hnode k hk p hp]
    intro j hj heq
    have hq := hc.has (k := j + 1) hj
    obtain rfl := hdisj k hk j hj p _ hp hq heq
    exact hpc ((hlv (k + 1) hk).distinct p _ hp.1 hp.2 hq.1 hq.2 heq)
  · have hnext := Heap.nextOf_congr hobj
    rw [hh.next, hnext]

/-- The elements are cut at `x`, behind half of the cells of level `m`. That is the level of the
elements or a level with two nodes. -/
structure HalfCut (lv : ℕ → Layer) (Λ : Layout) (m : ℕ) (x : ℤ) : Prop where
  le : m ≤ NLayers
  two : m = 0 ∨ (lv m).headOff + 1 < (lv m).tailOff
  cut : ∃ cut, Cut lv Λ m cut ∧ cut m = (lv m).headOff + toGiveAway (lv m) ∧ cut 0 = x

/-- The search found no node above the level. -/
theorem split_normal (hr : Rep h s.level Λ) {m : ℕ} (hm : m ≤ NLayers)
    (hz : Skiplist.findLayer id NLayers { heap := h, self := s }
      = some (m, { heap := h, self := s }))
    (habove : EmptyAbove s.level m) (hne : (s.level m).headOff < (s.level m).tailOff)
    (htwo : m = 0 ∨ (s.level m).headOff + 1 < (s.level m).tailOff) :
    ∃ h' s' res Λ₁ Λ₂ x, Skiplist.dequeueHalf id h s = some (h', s', some res) ∧
      SplitDone h h' s s' res Λ Λ₁ Λ₂ x ∧ HalfCut s.level Λ m x := by
  have hL := hr.nodes.level m hm
  have hpos := toGiveAway_pos hne
  have hle := toGiveAway_le hL.le
  obtain ⟨cut, hc, hcm⟩ := Cut.exists hm hr.joints (x := (s.level m).headOff
    + toGiveAway (s.level m)) (by omega) hle
  obtain ⟨candidate, stolen, hcand⟩ : ∃ c d, Skiplist.stealCandidate .normal none
      (s.level m).candidate (s.level m).headOff (s.level m).tailOff (toGiveAway (s.level m))
        = (c, d) := ⟨_, _, rfl⟩
  have hempty : ∀ k, m < k → k ≤ NLayers → (s.level k).Empty := fun k hk hkN ↦
    hr.empty hkN (habove k hk hkN)
  obtain ⟨h', s', res, hrun, hsplit⟩ := split_run hr hm hz (fun k _ ↦ rfl)
    (fun k _ ↦ (level_new_empty k).candidate) (fun k _ p _ ↦ rfl) rfl hne hcand hc hcm
  have hnodes := hsplit.heap.cutNodes hc (fun k hk ↦ hr.nodes.level k (by omega))
    (fun j hj k hk ↦ hr.nodes.disjoint j (by omega) k (by omega)) (fun k _ p _ ↦ rfl) rfl rfl
  obtain ⟨Λ₁, Λ₂, hdone⟩ := SplitDone.of_cut hr hm hc hnodes
    ⟨hsplit.rest, by rw [hsplit.rest_last]; exact ⟨rfl, rfl, rfl, fun _ ↦ rfl⟩,
      by rw [hsplit.rest_last], fun k hk hkN ↦ by
        rw [hsplit.rest_above k hk]
        exact hempty k hk hkN⟩
    ⟨hsplit.given, hsplit.given_last, fun k hk hkN ↦ by
      rw [hsplit.given_above k hk]
      exact level_new_empty k⟩
    (fun hlt ↦ by
      -- The candidate is at the only block start there can be.
      have hj := hr.joints m hlt
      have hstart := hj.tail_of_empty (habove (m + 1) (by omega) hlt)
      have hrest := hj.rest
      have hcandidate := hj.cand
      rw [hstart] at hrest hcandidate
      rw [stealCandidate_of_joint hL.nonneg hpos hle hrest hcandidate, Prod.mk.injEq] at hcand
      refine ⟨⟨?_, by rw [hcm, hcand.1]⟩, ?_, by rw [hcm, hcand.2]⟩
      · rw [blockStart] at hrest ⊢
        omega
      · omega)
    (fun hN ↦ by
      subst hN
      obtain ⟨hrest, hgiven⟩ := stealCandidate_top hL.nonneg hle hr.top none hcand
      rw [hsplit.rest_last, hsplit.given_last, hcm]
      exact ⟨hrest, hgiven⟩)
    hsplit.heap.counter hsplit.heap.deleted fun a ha ↦ hsplit.heap.same a fun k hk heq ↦
      ha ⟨k, by omega, _, hc.has (k := k + 1) hk, heq.symm⟩
  exact ⟨h', s', res, Λ₁, Λ₂, _, hrun, hdone, hm, htwo, cut, hc, hcm, rfl⟩

/-- The search dissolved the only node above the level. -/
theorem split_cleanuped (hr : Rep h s.level Λ) {m : ℕ} (hm : m < NLayers)
    (habove : EmptyAbove s.level (m + 1))
    (hone : (s.level (m + 1)).tailOff = (s.level (m + 1)).headOff + 1)
    (hother : ¬(64 * (s.level (m + 1)).headOff + Λ.shift m = (s.level m).headOff ∧
      (s.level m).tailOff = (s.level m).headOff + 127)) {z : Skiplist.Scan}
    (hz : Skiplist.findLayer id NLayers { heap := h, self := s } = some (m, z))
    (hzeq : z = {
      heap := h.setNode (Λ.cell (m + 1) (s.level (m + 1)).headOff) none
      self := s.setLayer m (s.layers m).cleanup
      upperState := .upperCleanuped
      thatDownNode := some (Λ.cell m (64 * (s.level (m + 1)).headOff + Λ.shift m)) }) :
    ∃ h' s' res Λ₁ Λ₂ x, Skiplist.dequeueHalf id h s = some (h', s', some res) ∧
      SplitDone h h' s s' res Λ Λ₁ Λ₂ x ∧ HalfCut s.level Λ m x := by
  obtain ⟨hle, hlt, hblock, hrest⟩ := hr.has_block hm hone
  have hL := hr.nodes.level m (by omega)
  have hne : (s.level m).headOff < (s.level m).tailOff := by omega
  have hx := toGiveAway_le hL.le
  obtain ⟨hin, hin'⟩ := cut_inside_block hle hlt hblock hrest hother
  obtain ⟨cut, hc, hcm⟩ := Cut.exists (Nat.le_of_lt hm) hr.joints
    (x := (s.level m).headOff + toGiveAway (s.level m)) (by omega) hx
  have hself : ∀ k, k ≠ m + 1 → z.self.level k = s.level k := fun k hk ↦ by
    rw [hzeq, Skiplist.level_setLayer, Function.update_of_ne hk]
  have hself' : z.self.level (m + 1) = (s.layers m).cleanup := by
    rw [hzeq, Skiplist.level_setLayer, Function.update_self]
  have hres : ∀ k, ((z.res.getD {}).level k).Empty := fun k ↦ by
    rw [hzeq]
    exact level_new_empty k
  have hhas : (s.level (m + 1)).Has (s.level (m + 1)).headOff := ⟨le_refl _, by omega⟩
  have hheap : ∀ a, a ≠ Λ.cell (m + 1) (s.level (m + 1)).headOff → z.heap.node a = h.node a :=
    fun a ha ↦ by rw [hzeq, Heap.setNode_node, Function.update_of_ne ha]
  have hnode : ∀ k < m, ∀ p, (s.level (k + 1)).Has p →
      z.heap.node (Λ.cell (k + 1) p) = h.node (Λ.cell (k + 1) p) := fun k hk p hp ↦
    hheap _ fun heq ↦ by
      have := hr.nodes.disjoint k (by omega) m hm p _ hp hhas heq
      omega
  have hobj : z.heap.obj = h.obj := by rw [hzeq, Heap.setNode_obj]
  have hbrk : z.heap.brk = h.brk := by rw [hzeq, Heap.setNode_brk]
  have hcand : Skiplist.stealCandidate z.upperState z.thatDownNode (s.level m).candidate
      (s.level m).headOff (s.level m).tailOff (toGiveAway (s.level m))
        = ((s.level m).candidate,
            some (Λ.cell m (64 * (s.level (m + 1)).headOff + Λ.shift m))) := by
    rw [hzeq]
    rfl
  obtain ⟨h', s', res, hrun, hsplit⟩ := split_run hr (Nat.le_of_lt hm) hz
    (fun k hk ↦ hself k (by omega)) (fun k _ ↦ (hres k).candidate) hnode hobj hne hcand hc hcm
  have hnodes := hsplit.heap.cutNodes hc (fun k hk ↦ hr.nodes.level k (by omega))
    (fun j hj k hk ↦ hr.nodes.disjoint j (by omega) k (by omega)) hnode hobj hbrk
  have hcounter := Heap.counterOf_congr hobj
  have hdel : z.heap.deleted = h.deleted := by rw [hzeq, Heap.setNode_deleted]
  obtain ⟨Λ₁, Λ₂, hdone⟩ := SplitDone.of_cut hr (Nat.le_of_lt hm) hc hnodes
    ⟨hsplit.rest, by rw [hsplit.rest_last]; exact ⟨rfl, rfl, rfl, fun _ ↦ rfl⟩,
      by rw [hsplit.rest_last], fun k hk hkN ↦ by
        rw [hsplit.rest_above k hk]
        by_cases hkm : k = m + 1
        · have htop := hr.nodes.level (m + 1) hm
          have hnonneg := htop.nonneg
          rw [hkm, hself']
          rw [Skiplist.level_succ] at hone hnonneg
          have htail : 0 ≤ (s.layers m).tailOff := by omega
          exact ⟨htail, rfl, rfl, rfl⟩
        · rw [hself k hkm]
          exact hr.empty hkN (habove k (by omega) hkN)⟩
    ⟨hsplit.given, hsplit.given_last, fun k hk hkN ↦ by
      rw [hsplit.given_above k hk]
      exact hres k⟩
    (fun _ ↦ by
      have hj := hr.joints m hm
      have hdvd := hj.dvd
      have hcandidate := hj.cand
      have hstart : blockStart (s.level m).headOff
          = 64 * (s.level (m + 1)).headOff + Λ.shift m := by
        rw [blockStart]
        omega
      have hnext : blockStart (cut m) = 64 * (s.level (m + 1)).tailOff + Λ.shift m := by
        rw [blockStart]
        omega
      refine ⟨⟨by omega, by rw [hnext, hcandidate]⟩, by omega, ?_⟩
      rw [hstart, firstCell_of_lt (by omega)])
    (fun hN ↦ by omega)
    (hsplit.heap.counter.trans hcounter) (hsplit.heap.deleted.trans hdel) fun a ha ↦ by
      rw [hsplit.heap.same a fun k hk heq ↦
        ha ⟨k, by omega, _, hc.has (k := k + 1) hk, heq.symm⟩]
      exact hheap a fun heq ↦ ha ⟨m, hm, _, hhas, heq.symm⟩
  exact ⟨h', s', res, Λ₁, Λ₂, _, hrun, hdone, Nat.le_of_lt hm, Or.inr (by omega), cut, hc, hcm,
    rfl⟩

/-- The search kept the only node above the level for the part to be given away. -/
theorem split_preserved (hr : Rep h s.level Λ) {m : ℕ} (hm : m < NLayers)
    (habove : EmptyAbove s.level (m + 1))
    (hone : (s.level (m + 1)).tailOff = (s.level (m + 1)).headOff + 1)
    (hfirst : 64 * (s.level (m + 1)).headOff + Λ.shift m = (s.level m).headOff)
    (hcount : (s.level m).tailOff = (s.level m).headOff + 127) {z : Skiplist.Scan}
    (hz : Skiplist.findLayer id NLayers { heap := h, self := s } = some (m, z))
    (hzeq : z = {
      heap := h
      self := s.setLayer m (s.layers m).movedFrom
      res := some (({} : Skiplist).setLayer m (s.layers m))
      upperState := .singleNodePreserved }) :
    ∃ h' s' res Λ₁ Λ₂ x, Skiplist.dequeueHalf id h s = some (h', s', some res) ∧
      SplitDone h h' s s' res Λ Λ₁ Λ₂ x ∧ HalfCut s.level Λ m x := by
  have hL := hr.nodes.level m (by omega)
  have hL' := hr.nodes.level (m + 1) hm
  have hnonneg := hL'.nonneg
  have hne : (s.level m).headOff < (s.level m).tailOff := by omega
  have hgive : toGiveAway (s.level m) = 64 := by
    rw [toGiveAway_eq hL.le]
    omega
  -- The layer of the node is cut as well, behind the node.
  obtain ⟨cut, hc, hcm⟩ := Cut.exists (n := m + 1) hm hr.joints
    (x := (s.level (m + 1)).tailOff) (by omega) (le_refl _)
  have hdown := hc.down m (by omega)
  have hself : ∀ k, k ≠ m + 1 → z.self.level k = s.level k := fun k hk ↦ by
    rw [hzeq, Skiplist.level_setLayer, Function.update_of_ne hk]
  have hself' : z.self.level (m + 1) = (s.layers m).movedFrom := by
    rw [hzeq, Skiplist.level_setLayer, Function.update_self]
  have hres : ∀ k, k ≠ m + 1 → ((z.res.getD {}).level k).Empty := fun k hk ↦ by
    rw [hzeq, Option.getD_some, Skiplist.level_setLayer, Function.update_of_ne hk]
    exact level_new_empty k
  have hres' : (z.res.getD {}).level (m + 1) = s.layers m := by
    rw [hzeq, Option.getD_some, Skiplist.level_setLayer, Function.update_self]
  have hheap : z.heap = h := by rw [hzeq]
  have hcand : Skiplist.stealCandidate z.upperState z.thatDownNode (s.level m).candidate
      (s.level m).headOff (s.level m).tailOff (toGiveAway (s.level m))
        = ((s.level m).candidate, none) := by
    rw [hzeq]
    rfl
  obtain ⟨h', s', res, hrun, hsplit⟩ := split_run hr (Nat.le_of_lt hm) hz
    (fun k hk ↦ hself k (by omega)) (fun k hk ↦ (hres k (by omega)).candidate)
    (fun k _ p _ ↦ by rw [hheap]) (by rw [hheap]) hne hcand (hc.mono (by omega)) (by omega)
  have hheap' := hsplit.heap
  rw [hheap] at hheap'
  have hbelow := hheap'.cutNodes (hc.mono (by omega)) (fun k hk ↦ hr.nodes.level k (by omega))
    (fun j hj k hk ↦ hr.nodes.disjoint j (by omega) k (by omega)) (fun k _ p _ ↦ rfl) rfl rfl
  have hhas : (s.level (m + 1)).Has (s.level (m + 1)).headOff := ⟨le_refl _, by omega⟩
  have hkept : h'.node (Λ.cell (m + 1) (s.level (m + 1)).headOff)
      = h.node (Λ.cell (m + 1) (s.level (m + 1)).headOff) :=
    hheap'.same _ fun k hk heq ↦ by
      have := hr.nodes.disjoint m hm k (by omega) _ _ hhas (hc.has (k := k + 1) (by omega)) heq
      omega
  have hlast : cut (m + 1) - 1 = (s.level (m + 1)).headOff := by omega
  have hnodes : CutNodes h h' s.level Λ (m + 1) cut := by
    refine ⟨fun k hk ↦ ?_, fun k hk p hp hpc ↦ ?_, hbelow.next, hbelow.brk⟩
    · by_cases hkm : k = m
      · rw [hkm, hlast, hkept, hr.nodes.node m hm _ hhas, Layout.nodeAt,
          firstCell_of_le (by omega)]
      · exact hbelow.node k (by omega)
    · by_cases hkm : k = m
      · subst hkm
        obtain ⟨hp, hp'⟩ := hp
        omega
      · exact hbelow.same k (by omega) p hp hpc
  have hempty : ∀ k, m + 1 < k → k ≤ NLayers → (s.level k).Empty := fun k hk hkN ↦
    hr.empty hkN (habove k hk hkN)
  have hrest : RestLevels s.level s'.level Λ (m + 1) cut none := by
    refine ⟨fun k hk ↦ ?_, ?_, ?_, fun k hk hkN ↦ ?_⟩
    · by_cases hkm : k = m
      · rw [hkm, hsplit.rest_last]
        rfl
      · exact hsplit.rest k (by omega)
    · rw [hsplit.rest_above _ (by omega), hself', hcm]
      exact ⟨rfl, rfl, by rw [firstCell_of_le (le_refl _)]; rfl, fun hlt ↦ by omega⟩
    · rw [hsplit.rest_above _ (by omega), hself']
      rfl
    · rw [hsplit.rest_above k (by omega), hself k (by omega)]
      exact hempty k hk hkN
  have hgiven : GivenLevels s.level res.level Λ (m + 1) cut (s.level (m + 1)).candidate := by
    refine ⟨fun k hk ↦ ?_, ?_, fun k hk hkN ↦ ?_⟩
    · by_cases hkm : k = m
      · rw [hkm, hsplit.given_last]
      · exact hsplit.given k (by omega)
    · have htail := hL'.tail (by omega)
      rw [hsplit.given_above _ (by omega), hres', hcm, Layer.cutLeft, ← htail]
      rfl
    · rw [hsplit.given_above k (by omega)]
      exact hres k (by omega)
  obtain ⟨Λ₁, Λ₂, hdone⟩ := SplitDone.of_cut (n := m + 1) hr hm hc hnodes hrest hgiven
    (fun hlt ↦ by
      have hj := hr.joints (m + 1) hlt
      have hstart := hj.tail_of_empty (habove (m + 1 + 1) (by omega) hlt)
      have hrest := hj.rest
      have hcandidate := hj.cand
      have hge := le_blockStart (cut (m + 1))
      rw [hstart] at hrest hcandidate
      refine ⟨⟨by omega, by rw [firstCell_of_le (by omega)]⟩, by omega, ?_⟩
      rw [hcandidate, hcm])
    (fun hN ↦ by
      have htop := hr.top
      rw [← hN] at htop
      rw [hsplit.rest_above _ (by omega), hself', hsplit.given_above _ (by omega), hres']
      exact ⟨Or.inl rfl, htop⟩)
    hheap'.counter hheap'.deleted fun a ha ↦ hheap'.same a fun k hk heq ↦
      ha ⟨k, by omega, _, hc.has (k := k + 1) (by omega), heq.symm⟩
  exact ⟨h', s', res, Λ₁, Λ₂, _, hrun, hdone, Nat.le_of_lt hm, Or.inr (by omega), cut,
    hc.mono (by omega), by omega, rfl⟩

/-- `dequeue_half` of a non-empty list cuts it behind half of the cells of some level. -/
theorem dequeueHalf_halfCut (hr : Rep h s.level Λ) (hne : s.headOff < s.tailOff) :
    ∃ h' s' res Λ₁ Λ₂ x m, Skiplist.dequeueHalf id h s = some (h', s', some res) ∧
      SplitDone h h' s s' res Λ Λ₁ Λ₂ x ∧ HalfCut s.level Λ m x := by
  obtain ⟨m, z, hm, hz, hfound⟩ := findLayer_spec hr (Nat.le_refl NLayers) fun k hk hkN ↦ by omega
  suffices h : ∃ h' s' res Λ₁ Λ₂ x, Skiplist.dequeueHalf id h s = some (h', s', some res) ∧
      SplitDone h h' s s' res Λ Λ₁ Λ₂ x ∧ HalfCut s.level Λ m x by
    obtain ⟨h', s', res, Λ₁, Λ₂, x, hdone⟩ := h
    exact ⟨h', s', res, Λ₁, Λ₂, x, m, hdone⟩
  cases hfound with
  | normal habove htwo =>
    refine split_normal hr hm hz habove ?_ htwo
    rcases htwo with rfl | htwo
    · exact hne
    · omega
  | preserved hlt habove hone hfirst hcount =>
    exact split_preserved hr hlt habove hone hfirst hcount hz rfl
  | cleanuped hlt habove hone hother =>
    exact split_cleanuped hr hlt habove hone hother hz rfl

theorem Rep.off_eq_of_empty (hr : Rep h s.level Λ) (hempty : s.headOff = s.tailOff) {k : ℕ}
    (hk : k ≤ NLayers) : (s.level k).headOff = (s.level k).tailOff := by
  induction k with
  | zero => exact hempty
  | succ k ih =>
    have hlo := ih (by omega)
    obtain ⟨⟨hdvd, hle, hlt, hfull⟩, hrest, -⟩ := hr.joints k hk
    have := (hr.nodes.level (k + 1) hk).le
    omega

theorem dequeueHalf_of_empty (hr : Rep h s.level Λ) (hempty : s.headOff = s.tailOff) :
    Skiplist.dequeueHalf id h s = some (h, s, none) := by
  have hoff := fun k ↦ hr.off_eq_of_empty hempty (k := k)
  obtain ⟨m, z, hm, hz, hfound⟩ := findLayer_spec hr (Nat.le_refl NLayers) fun k hk hkN ↦ by omega
  cases hfound with
  | normal habove htwo =>
    obtain rfl : m = 0 := htwo.resolve_right fun htwo ↦ by
      have := hoff m hm
      omega
    rw [Skiplist.dequeueHalf, hz]
    simp [hempty]
  | preserved hlt habove hone hfirst hcount =>
    have := hoff (m + 1) hlt
    omega
  | cleanuped hlt habove hone hother =>
    have := hoff (m + 1) hlt
    omega

end

end TYThread
