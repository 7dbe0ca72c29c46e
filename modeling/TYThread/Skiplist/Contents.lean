import TYThread.Skiplist.DequeueHalf

/-!
# The contents of a list

Here the layout is hidden: `Holds h s xs S` says that the heap holds the list `s`, that its elements
are `xs`, first to last, and that it owns the skip nodes `S`. Each operation is a statement about
the contents, together with a frame: an operation changes nothing but the links of its own elements
and its own skip nodes, and takes only newly allocated nodes. That is what lets several
lists live in one heap.
-/

namespace TYThread

open LinkedList

/-- The heap holds a consistent list `s` with elements `xs` and skip nodes `S`. -/
def Holds (h : Heap) (s : Skiplist) (xs : List Addr) (S : Set Addr) : Prop :=
  ∃ Λ, Rep h s.level Λ ∧ elemCells s.level Λ = xs ∧ nodeCells s.level Λ = S

section

variable {h h' : Heap} {s : Skiplist} {xs : List Addr} {S : Set Addr}

theorem Holds.chain (hs : Holds h s xs S) : Chain h.nextOf s.head xs := by
  obtain ⟨Λ, hr, rfl, -⟩ := hs
  have hhead : s.head = firstCell (Λ.cell 0) s.headOff s.tailOff :=
    (hr.nodes.level 0 (Nat.zero_le _)).head
  rw [hhead]
  exact Segment.chain hr.elems

theorem Holds.nodup (hs : Holds h s xs S) : xs.Nodup := by
  obtain ⟨Λ, hr, rfl, -⟩ := hs
  exact (hr.nodes.level 0 (Nat.zero_le _)).distinct.nodup

theorem Holds.size (hs : Holds h s xs S) : s.size = xs.length := by
  obtain ⟨Λ, hr, rfl, -⟩ := hs
  have hle : s.headOff ≤ s.tailOff := (hr.nodes.level 0 (Nat.zero_le _)).le
  rw [elemCells, length_cells, Skiplist.size]
  simp only [Skiplist.level_zero, Skiplist.base]
  omega

theorem Holds.off_lt (hs : Holds h s xs S) (hne : xs ≠ []) : s.headOff < s.tailOff := by
  have hsize := hs.size
  have hpos := List.length_pos_iff.mpr hne
  rw [Skiplist.size] at hsize
  omega

theorem Holds.off_eq (hs : Holds h s [] S) : s.headOff = s.tailOff := by
  have hsize := hs.size
  rw [Skiplist.size, List.length_nil] at hsize
  omega

theorem Holds.lt_brk (hs : Holds h s xs S) {a : Addr} (ha : a ∈ S) : a < h.brk := by
  obtain ⟨Λ, hr, -, rfl⟩ := hs
  obtain ⟨k, hk, p, hp, rfl⟩ := ha
  exact hr.nodes.lt_brk k hk p hp

/-- A list only depends on its own nodes and on the links of its own elements. -/
theorem Holds.congr (hs : Holds h s xs S) (hnode : ∀ a ∈ S, h'.node a = h.node a)
    (hbrk : h.brk ≤ h'.brk) (hnext : ∀ e ∈ xs, h'.nextOf e = h.nextOf e) : Holds h' s xs S := by
  obtain ⟨Λ, hr, rfl, rfl⟩ := hs
  refine ⟨Λ, ⟨⟨hr.nodes.level, fun k hk p hp ↦ ?_, hr.nodes.disjoint, fun k hk p hp ↦ ?_⟩, ?_,
    hr.joints, hr.top⟩, rfl, rfl⟩
  · rw [hnode _ ⟨k, hk, p, hp, rfl⟩, hr.nodes.node k hk p hp]
  · exact Nat.lt_of_lt_of_le (hr.nodes.lt_brk k hk p hp) hbrk
  · refine Segment.congr hr.elems fun p hp hp' ↦ hnext _ ?_
    rw [elemCells, mem_cells]
    exact ⟨p, hp, hp', rfl⟩

theorem Holds.frame (hs : Holds h s xs S) {T T' : Set Addr} (hf : NodeFrame h h' T T')
    (hdisj : ∀ a ∈ S, a ∉ T) (hnext : ∀ e ∈ xs, h'.nextOf e = h.nextOf e) : Holds h' s xs S :=
  hs.congr (fun a ha ↦ hf.same a (hs.lt_brk ha) (hdisj a ha)) hf.brk_le hnext

theorem Holds.notMem_frame (hs : Holds h s xs S) {T T' : Set Addr} (hf : NodeFrame h h' T T')
    (hdisj : ∀ a ∈ S, a ∉ T) : ∀ a ∈ S, a ∉ T' := fun a ha ha' ↦ by
  rcases hf.owned a ha' with hmem | hge
  · exact hdisj a ha hmem
  · exact absurd (hs.lt_brk ha) (Nat.not_lt.mpr hge)

theorem NodeFrame.union_right {T T' : Set Addr} (hf : NodeFrame h h' T T') (U : Set Addr) :
    NodeFrame h h' (T ∪ U) (T' ∪ U) := by
  refine ⟨hf.brk_le, fun a ha hmem ↦ hf.same a ha fun h ↦ hmem (Or.inl h), ?_⟩
  rintro a (ha | ha)
  · exact (hf.owned a ha).imp_left Or.inl
  · exact Or.inl (Or.inr ha)

theorem NodeFrame.union_left {T T' : Set Addr} (hf : NodeFrame h h' T T') (U : Set Addr) :
    NodeFrame h h' (U ∪ T) (U ∪ T') := by
  rw [Set.union_comm U, Set.union_comm U]
  exact hf.union_right U

theorem Holds.of_empty (hempty : ∀ k ≤ NLayers, (s.level k).Empty) (h : Heap) :
    Holds h s [] ∅ := by
  have hno : ∀ k ≤ NLayers, ∀ p, ¬(s.level k).Has p := fun k hk p ⟨hp, hp'⟩ ↦ by
    have := (hempty k hk).off
    omega
  refine ⟨⟨fun _ _ ↦ 0, fun k ↦ blockStart (s.level k).headOff - 64 * (s.level (k + 1)).headOff⟩,
    ⟨⟨fun k hk ↦ (hempty k hk).levelOk _, fun k hk p hp ↦ absurd hp (hno (k + 1) hk p),
      fun j hj k _ p _ hp ↦ absurd hp (hno (j + 1) hj p),
      fun k hk p hp ↦ absurd hp (hno (k + 1) hk p)⟩,
      fun p hp hp' ↦ absurd ⟨hp, hp'⟩ (hno 0 (Nat.zero_le _) p),
      fun k hk ↦ (hempty k (Nat.le_of_lt hk)).joint (hempty (k + 1) hk) _,
      Or.inl (hempty NLayers (Nat.le_refl _)).candidate⟩, ?_, ?_⟩
  · have hoff := (hempty 0 (Nat.zero_le _)).off
    rw [elemCells, cells_of_le (by omega)]
  · refine Set.eq_empty_of_forall_notMem ?_
    rintro a ⟨k, hk, p, hp, -⟩
    exact hno (k + 1) hk p hp

theorem Holds.new (h : Heap) : Holds h {} [] ∅ := Holds.of_empty (fun k _ ↦ level_new_empty k) h

end

/-! ## The operations -/

/-- The links that an operation on a list with elements `xs` may change. -/
def LinksKept (h h' : Heap) (xs : List Addr) : Prop := ∀ a ∉ xs, h'.nextOf a = h.nextOf a

section

variable {h : Heap} {s : Skiplist} {xs : List Addr} {S : Set Addr} {e : Addr}

/-- `enqueue` appends the element. -/
structure Enqueues (h h' : Heap) (s s' : Skiplist) (xs : List Addr) (S S' : Set Addr) (e : Addr) :
    Prop where
  holds : Holds h' s' (xs ++ [e]) S'
  next : LinksKept h h' (xs ++ [e])
  deleted : h'.deleted = h.deleted
  frame : NodeFrame h h' S S'
  headOff : s'.headOff = s.headOff
  tailOff : s'.tailOff = s.tailOff + 1

theorem EnqueueDone.enqueues {h' : Heap} {s' : Skiplist} {Λ Λ' : Layout}
    (hr : Rep h s.level Λ) (hd : EnqueueDone h h' s s' Λ Λ' e) :
    Enqueues h h' s s' (elemCells s.level Λ) (nodeCells s.level Λ) (nodeCells s'.level Λ') e := by
  have hle : s.headOff ≤ s.tailOff := (hr.nodes.level 0 (Nat.zero_le _)).le
  refine ⟨⟨Λ', hd.rep, ?_, rfl⟩, fun a ha ↦ ?_, hd.deleted, hd.frame, hd.headOff, hd.tailOff⟩
  · simp only [elemCells, Skiplist.level_zero, Skiplist.base, hd.headOff, hd.tailOff, hd.cell]
    rw [cells_snoc hle, Function.update_self]
    congr 1
    exact cells_congr fun p hp hp' ↦ Function.update_of_ne (by omega) ..
  · rw [List.mem_append, not_or, List.mem_singleton] at ha
    exact hd.next a ha.2 ha.1

theorem Holds.enqueueMove (hs : Holds h s xs S) {q : Option Addr} (hlive : h.nextOf e = some q)
    (hmem : e ∉ xs) :
    ∃ h' s' S', Skiplist.enqueueMove id h s (some e) = some (h', s') ∧
      Enqueues h h' s s' xs S S' e ∧ h'.counterOf = h.counterOf := by
  obtain ⟨Λ, hr, rfl, rfl⟩ := hs
  obtain ⟨h', s', Λ', hrun, hd, hc⟩ := enqueueMove_spec hr hlive hmem
  exact ⟨h', s', _, hrun, hd.enqueues hr, hc⟩

theorem Holds.enqueueCopy (hs : Holds h s xs S) {q : Option Addr} (hlive : h.nextOf e = some q)
    {c : ℕ} (hcount : h.counterOf e = some c) (hmem : e ∉ xs) :
    ∃ h' s' S', Skiplist.enqueueCopy id h s (some e) = some (h', s') ∧
      Enqueues h h' s s' xs S S' e ∧
      h'.counterOf = Function.update h.counterOf e (some ((c + 1) % unsignedRange)) := by
  obtain ⟨Λ, hr, rfl, rfl⟩ := hs
  obtain ⟨h', s', Λ', hrun, hd, hc⟩ := enqueueCopy_spec hr hlive hcount hmem
  exact ⟨h', s', _, hrun, hd.enqueues hr, hc⟩

/-- `dequeue` removes the first element `t`. -/
structure Dequeues (h h' : Heap) (s s' : Skiplist) (t : Addr) (xs : List Addr) (S S' : Set Addr) :
    Prop where
  holds : Holds h' s' xs S'
  next : h'.nextOf = Function.update h.nextOf t (some none)
  counter : h'.counterOf = h.counterOf
  deleted : h'.deleted = h.deleted
  frame : NodeFrame h h' S S'
  headOff : s'.headOff = s.headOff + 1
  tailOff : s'.tailOff = s.tailOff

theorem Holds.dequeue_nil (hs : Holds h s [] S) : Skiplist.dequeue_ id h s = some (h, s, none) := by
  have hoff := hs.off_eq
  obtain ⟨Λ, hr, -, -⟩ := hs
  exact dequeue_of_empty (hr.nodes.level 0 (Nat.zero_le _)) (by omega)

theorem Holds.dequeue_cons {t : Addr} (hs : Holds h s (t :: xs) S) :
    ∃ h' s' S', Skiplist.dequeue_ id h s = some (h', s', some t) ∧
      Dequeues h h' s s' t xs S S' := by
  have hlt := hs.off_lt (List.cons_ne_nil t xs)
  obtain ⟨Λ, hr, hxs, rfl⟩ := hs
  obtain ⟨h', s', Λ', t', hrun, hd⟩ := dequeue_spec hr hlt
  have hcons : elemCells s.level Λ
      = Λ.cell 0 s.headOff :: cells (Λ.cell 0) (s.headOff + 1) s.tailOff := cells_cons hlt
  rw [hxs, List.cons_eq_cons] at hcons
  have ht : t' = t := by rw [hd.first, hcons.1]
  refine ⟨h', s', _, by rw [← ht]; exact hrun, ⟨Λ', hd.rep, ?_, rfl⟩, by rw [← ht]; exact hd.next,
    hd.counter, hd.deleted, hd.frame, hd.headOff, hd.tailOff⟩
  simp only [elemCells, Skiplist.level_zero, Skiplist.base, hd.headOff, hd.tailOff, hd.cell,
    hcons.2]

/-- A split gives away the front `ys` of the contents and keeps `zs`. -/
structure Splits (h h' : Heap) (s s' res : Skiplist) (ys zs : List Addr) (S S₁ S₂ : Set Addr) :
    Prop where
  ne_nil : ys ≠ []
  given : Holds h' res ys S₂
  rest : Holds h' s' zs S₁
  next : LinksKept h h' (ys ++ zs)
  counter : h'.counterOf = h.counterOf
  deleted : h'.deleted = h.deleted
  disjoint : ∀ a ∈ S₁, a ∉ S₂
  frame : NodeFrame h h' S (S₁ ∪ S₂)

theorem Holds.dequeueHalf_nil (hs : Holds h s [] S) :
    Skiplist.dequeueHalf id h s = some (h, s, none) := by
  have hoff := hs.off_eq
  obtain ⟨Λ, hr, -, -⟩ := hs
  exact dequeueHalf_of_empty hr hoff

theorem Holds.dequeueHalf_halfCut (hs : Holds h s xs S) (hne : xs ≠ []) :
    ∃ h' s' res ys zs S₁ S₂, Skiplist.dequeueHalf id h s = some (h', s', some res) ∧
      xs = ys ++ zs ∧ Splits h h' s s' res ys zs S S₁ S₂ ∧
      ∃ Λ m, Rep h s.level Λ ∧ HalfCut s.level Λ m (s.headOff + ys.length) := by
  have hlt := hs.off_lt hne
  obtain ⟨Λ, hr, rfl, rfl⟩ := hs
  obtain ⟨h', s', res, Λ₁, Λ₂, x, m, hrun, hd, hcut⟩ := dequeueHalf_halfCut hr hlt
  have hhead := hd.head_lt
  have htail := hd.le_tail
  have hgiven : elemCells res.level Λ₂ = cells (Λ.cell 0) s.headOff x := by
    simp only [elemCells, Skiplist.level_zero, Skiplist.base, hd.given_headOff, hd.given_tailOff,
      hd.given_cell]
  have hrest : elemCells s'.level Λ₁ = cells (Λ.cell 0) x s.tailOff := by
    simp only [elemCells, Skiplist.level_zero, Skiplist.base, hd.rest_headOff, hd.rest_tailOff,
      hd.rest_cell]
  have hsplit : elemCells s.level Λ
      = cells (Λ.cell 0) s.headOff x ++ cells (Λ.cell 0) x s.tailOff :=
    cells_append (a := s.headOff) (b := s.tailOff) (Int.le_of_lt hhead) htail
  refine ⟨h', s', res, _, _, _, _, hrun, hsplit, ⟨?_, ⟨Λ₂, hd.given, hgiven, rfl⟩,
    ⟨Λ₁, hd.rest, hrest, rfl⟩, fun a ha ↦ ?_, hd.counter, hd.deleted, hd.disjoint, hd.frame⟩,
    Λ, m, hr, ?_⟩
  · rw [cells_cons (a := s.headOff) hhead]
    exact List.cons_ne_nil _ _
  · rw [hd.next, Function.update_of_ne]
    rintro rfl
    refine ha (List.mem_append_left _ ?_)
    rw [mem_cells]
    exact ⟨x - 1, by omega, by omega, rfl⟩
  · have hx : s.headOff + ((x - s.headOff).toNat : ℤ) = x := by omega
    rwa [length_cells, hx]

theorem Holds.dequeueHalf (hs : Holds h s xs S) (hne : xs ≠ []) :
    ∃ h' s' res ys zs S₁ S₂, Skiplist.dequeueHalf id h s = some (h', s', some res) ∧
      xs = ys ++ zs ∧ Splits h h' s s' res ys zs S S₁ S₂ := by
  obtain ⟨h', s', res, ys, zs, S₁, S₂, hrun, hxs, hsplit, -⟩ := hs.dequeueHalf_halfCut hne
  exact ⟨h', s', res, ys, zs, S₁, S₂, hrun, hxs, hsplit⟩

end

/-! ## `dequeue_half_` -/

/-- The loop of `dequeue_half_` moves the front `ys` to the end of the result. -/
theorem giveAway_spec (ys zs : List Addr) {ws : List Addr} {h : Heap} {s r : Skiplist}
    {S T : Set Addr} (hs : Holds h s (ys ++ zs) S) (hr : Holds h r ws T) (hdisj : ∀ a ∈ S, a ∉ T)
    (hmem : ∀ a ∈ ys ++ zs, a ∉ ws) :
    ∃ h' s' r' S' T', Skiplist.giveAway id ys.length h s r = some (h', s', r') ∧
      Holds h' s' zs S' ∧ Holds h' r' (ws ++ ys) T' ∧ LinksKept h h' (ys ++ zs ++ ws) ∧
      h'.counterOf = h.counterOf ∧ h'.deleted = h.deleted ∧ (∀ a ∈ S', a ∉ T') ∧
      NodeFrame h h' (S ∪ T) (S' ∪ T') := by
  induction ys generalizing h s r S T ws with
  | nil =>
    refine ⟨h, s, r, S, T, rfl, hs, by rwa [List.append_nil], fun a _ ↦ rfl, rfl, rfl, hdisj,
      NodeFrame.refl h _⟩
  | cons t ys ih =>
    have hnodup := hs.nodup
    rw [List.cons_append, List.nodup_cons] at hnodup
    obtain ⟨h₁, s₁, S₁, hrun₁, hd⟩ := Holds.dequeue_cons (t := t) hs
    have htw : t ∉ ws := hmem t List.mem_cons_self
    have hr₁ : Holds h₁ r ws T := hr.frame hd.frame (fun a ha ha' ↦ hdisj a ha' ha) fun a ha ↦ by
      rw [hd.next, Function.update_of_ne]
      rintro rfl
      exact htw ha
    have hlive : h₁.nextOf t = some none := by rw [hd.next, Function.update_self]
    have hdisj₁ : ∀ a ∈ T, a ∉ S₁ := hr.notMem_frame hd.frame fun a ha ha' ↦ hdisj a ha' ha
    obtain ⟨h₂, r₂, T₂, hrun₂, he, hc₂⟩ := hr₁.enqueueMove hlive htw
    have hmem₂ : ∀ a ∈ ys ++ zs, a ∉ ws ++ [t] := fun a ha hmem' ↦ by
      rw [List.mem_append, List.mem_singleton] at hmem'
      rcases hmem' with haw | rfl
      · exact hmem a (List.mem_cons_of_mem t ha) haw
      · exact hnodup.1 ha
    have hs₂ : Holds h₂ s₁ (ys ++ zs) S₁ :=
      hd.holds.frame he.frame (fun a ha ha' ↦ hdisj₁ a ha' ha) fun a ha ↦
        he.next a (hmem₂ a ha)
    have hdisj₂ : ∀ a ∈ S₁, a ∉ T₂ := hd.holds.notMem_frame he.frame fun a ha ha' ↦ hdisj₁ a ha' ha
    obtain ⟨h', s', r', S', T', hrun, hs', hr', hnext, hcount, hdel, hdisj', hframe⟩ :=
      ih hs₂ he.holds hdisj₂ hmem₂
    refine ⟨h', s', r', S', T', ?_, hs', by rwa [List.append_assoc] at hr', fun a ha ↦ ?_, ?_, ?_,
      hdisj', ?_⟩
    · simp only [List.length_cons, Skiplist.giveAway, hrun₁, hrun₂, Option.bind_eq_bind,
        Option.bind_some]
      exact hrun
    · simp only [List.cons_append, List.mem_cons, List.mem_append, not_or] at ha
      obtain ⟨hat, ⟨hay, haz⟩, haw⟩ := ha
      rw [hnext a (by simp [hat, hay, haz, haw]), he.next a (by simp [hat, haw]), hd.next,
        Function.update_of_ne hat]
    · rw [hcount, hc₂, hd.counter]
    · rw [hdel, he.deleted, hd.deleted]
    · exact ((hd.frame.union_right T).trans (he.frame.union_left S₁)).trans hframe

theorem Holds.nil_dequeueHalf_ {h : Heap} {s : Skiplist} {S : Set Addr} (hs : Holds h s [] S) :
    Skiplist.dequeueHalf_ id h s = some (h, s, none) := by
  have hhead : s.head = none := hs.chain
  rw [Skiplist.dequeueHalf_, if_pos hhead]

theorem Holds.dequeueHalf_take {h : Heap} {s : Skiplist} {xs : List Addr} {S : Set Addr}
    (hs : Holds h s xs S) (hne : xs ≠ []) :
    ∃ h' s' res S₁ S₂, Skiplist.dequeueHalf_ id h s = some (h', s', some res) ∧
      Splits h h' s s' res (xs.take ((xs.length + 1) / 2))
      (xs.drop ((xs.length + 1) / 2)) S S₁ S₂ := by
  have hpos := List.length_pos_iff.mpr hne
  have hhead : s.head ≠ none := by
    obtain ⟨x, xs, rfl⟩ := List.exists_cons_of_ne_nil hne
    rw [hs.chain.1]
    simp
  -- `toGiveAway`
  have hgive : (s.tailOff - s.headOff + 1).tdiv 2 = ((xs.length + 1) / 2 : ℕ) := by
    have hsize := hs.size
    rw [Skiplist.size] at hsize
    rw [hsize, Int.tdiv_eq_ediv_of_nonneg (by omega)]
    omega
  have hsplit := List.take_append_drop ((xs.length + 1) / 2) xs
  have hlen : (xs.take ((xs.length + 1) / 2)).length = (xs.length + 1) / 2 := by
    rw [List.length_take]
    omega
  obtain ⟨h', s', res, S', T', hrun, hs', hr', hnext, hcount, hdel, hdisj, hframe⟩ :=
    giveAway_spec (h := h) (xs.take ((xs.length + 1) / 2)) (xs.drop ((xs.length + 1) / 2))
      (by rwa [hsplit]) (Holds.new h)
      (fun a _ ↦ Set.notMem_empty a) (fun a _ ↦ List.not_mem_nil)
  refine ⟨h', s', res, S', T', ?_, ⟨?_, by rwa [List.nil_append] at hr', hs',
    by rwa [List.append_nil] at hnext, hcount, hdel, hdisj, ?_⟩⟩
  · rw [hlen] at hrun
    simp only [Skiplist.dequeueHalf_, if_neg hhead, id_eq, hgive, Int.toNat_natCast, hrun,
      Option.bind_eq_bind, Option.bind_some]
  · exact List.length_pos_iff.mp (by omega)
  · rwa [Set.union_empty] at hframe

/-- **`dequeue_half_`** of a non-empty list gives away a non-empty part from the front. -/
theorem Holds.dequeueHalf_ {h : Heap} {s : Skiplist} {xs : List Addr} {S : Set Addr}
    (hs : Holds h s xs S) (hne : xs ≠ []) :
    ∃ h' s' res ys zs S₁ S₂, Skiplist.dequeueHalf_ id h s = some (h', s', some res) ∧
      xs = ys ++ zs ∧ Splits h h' s s' res ys zs S S₁ S₂ := by
  obtain ⟨h', s', res, S₁, S₂, hrun, hsplit⟩ := hs.dequeueHalf_take hne
  exact ⟨h', s', res, _, _, S₁, S₂, hrun, (List.take_append_drop _ xs).symm, hsplit⟩

/-! ## `replace` -/

theorem moveLayers_spec {h : Heap} {s p : Skiplist} {n : ℕ}
    (hempty : ∀ i < n, (s.layers i).headNode = none) :
    Skiplist.moveLayers n h s p = some (h,
      { s with layers := fun i ↦ if i < n then p.layers i else s.layers i },
      { p with layers := fun i ↦ if i < n then (p.layers i).movedFrom else p.layers i }) := by
  induction n with
  | zero => rfl
  | succ n ih =>
    rw [Skiplist.moveLayers, ih fun i hi ↦ hempty i (by omega)]
    simp only [Option.bind_eq_bind, Option.bind_some, Nat.lt_irrefl, if_false,
      hempty n (Nat.lt_succ_self n), Heap.freeChain_none, Skiplist.setLayer, Option.some.injEq,
      Prod.mk.injEq, true_and]
    constructor
    all_goals
      congr 1
      funext i
      by_cases hi : i = n
      · subst hi
        rw [Function.update_self, if_pos (Nat.lt_succ_self _)]
      · rw [Function.update_of_ne hi]
        exact if_congr (by omega) rfl rfl

theorem Holds.congr_level {h : Heap} {s s' : Skiplist} {xs : List Addr} {S : Set Addr}
    (hs : Holds h s xs S) (hlevel : ∀ k ≤ NLayers, s'.level k = s.level k) : Holds h s' xs S := by
  obtain ⟨Λ, hr, rfl, rfl⟩ := hs
  refine ⟨Λ, ⟨⟨fun k hk ↦ ?_, fun k hk p hp ↦ ?_, fun j hj k hk p q hp hq ↦ ?_,
    fun k hk p hp ↦ ?_⟩, ?_, fun k hk ↦ ?_, ?_⟩, ?_, ?_⟩
  · rw [hlevel k hk]
    exact hr.nodes.level k hk
  · rw [hlevel (k + 1) hk] at hp
    rw [hr.nodes.node k hk p hp, Layout.nodeAt, Layout.nodeAt, hlevel (k + 1) hk]
  · rw [hlevel (j + 1) hj] at hp
    rw [hlevel (k + 1) hk] at hq
    exact hr.nodes.disjoint j hj k hk p q hp hq
  · rw [hlevel (k + 1) hk] at hp
    exact hr.nodes.lt_brk k hk p hp
  · rw [hlevel 0 (Nat.zero_le _)]
    exact hr.elems
  · rw [hlevel k (Nat.le_of_lt hk), hlevel (k + 1) hk]
    exact hr.joints k hk
  · rw [hlevel NLayers (Nat.le_refl _)]
    exact hr.top
  · rw [elemCells, elemCells, hlevel 0 (Nat.zero_le _)]
  · ext a
    constructor
    · rintro ⟨k, hk, p, hp, rfl⟩
      rw [hlevel (k + 1) hk] at hp
      exact ⟨k, hk, p, hp, rfl⟩
    · rintro ⟨k, hk, p, hp, rfl⟩
      refine ⟨k, hk, p, ?_, rfl⟩
      rw [hlevel (k + 1) hk]
      exact hp

theorem Holds.empty_level {h : Heap} {s : Skiplist} {S : Set Addr} (hs : Holds h s [] S) {k : ℕ}
    (hk : k ≤ NLayers) : (s.level k).Empty := by
  have hoff := hs.off_eq
  obtain ⟨Λ, hr, -, -⟩ := hs
  exact hr.empty hk (hr.off_eq_of_empty hoff hk)

/-- **`replace`** of an empty list takes over the contents of the other list with all its levels.
The other list is left empty, but the offsets of its layers stay. -/
theorem Holds.replace {h : Heap} {s p : Skiplist} {xs : List Addr} {S T : Set Addr}
    (hs : Holds h s [] S) (hp : Holds h p xs T) :
    ∃ s' p', Skiplist.replace h s p = some (h, s', p') ∧ Holds h s' xs T ∧ Holds h p' [] ∅ ∧
      (∀ k ≤ NLayers, s'.level k = p.level k) ∧
      ∀ k ≤ NLayers, (p'.level k).tailOff ≤ (p.level k).tailOff := by
  have hmove := moveLayers_spec (h := h) (s := s) (p := p) (n := NLayers) fun i hi ↦
    (hs.empty_level (k := i + 1) hi).headNode
  have htail : ∀ k ≤ NLayers, 0 ≤ (p.level k).tailOff := fun k hk ↦ by
    obtain ⟨Λ, hr, -, -⟩ := hp
    have hL := hr.nodes.level k hk
    exact le_trans hL.nonneg hL.le
  have hlevel : ∀ k ≤ NLayers,
      levels p.base (fun i ↦ if i < NLayers then p.layers i else s.layers i) k = p.level k := by
    intro k hk
    cases k with
    | zero => rfl
    | succ k => exact if_pos hk
  refine ⟨_, _, by rw [Skiplist.replace, hmove]; rfl, hp.congr_level fun k hk ↦ ?_,
    Holds.of_empty (fun k hk ↦ ?_) h, fun k hk ↦ ?_, fun k hk ↦ ?_⟩
  · exact hlevel k hk
  · cases k with
    | zero => exact ⟨le_refl _, rfl, rfl, rfl⟩
    | succ k =>
      have hnonneg := htail (k + 1) hk
      rw [Skiplist.level_succ] at hnonneg ⊢
      simp only [if_pos (show k < NLayers from hk)]
      exact ⟨hnonneg, rfl, rfl, rfl⟩
  · exact hlevel k hk
  · cases k with
    | zero => exact htail 0 hk
    | succ k =>
      rw [Skiplist.level_succ, Skiplist.level_succ]
      simp only [if_pos (show k < NLayers from hk)]
      exact le_refl _

end TYThread
