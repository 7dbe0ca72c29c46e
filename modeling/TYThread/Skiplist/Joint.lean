import TYThread.Skiplist.Invariant

/-!
# How the joint of two levels changes

The arithmetic of the skip list, apart from any memory. Each lemma takes the joint of two levels
and changes offsets the way one operation does: an item is added to the lower level, the first item
of the lower level goes, both levels are cut at the start of a block, or the upper level is empty.
Which case applies is decided by the residues the code tests.

Of a level only its two offsets and its candidate matter here, so the changed level is described by
equations for these.
-/

namespace TYThread

open LinkedList

variable {lo lo' hi hi' : Layer} {cell : ℤ → Addr} {δ : ℤ}

theorem Joint.congr_hi (hj : Joint lo hi cell δ) (hhead : hi'.headOff = hi.headOff)
    (htail : hi'.tailOff = hi.tailOff) : Joint lo hi' cell δ := by
  obtain ⟨⟨hdvd, hle, hlt, hfull⟩, hrest, hcand⟩ := hj
  exact ⟨⟨hdvd, by omega, by omega, by omega⟩, by omega, by rw [hcand, htail]⟩

/-! ## The upper level is empty -/

/-- The first multiple of `64` from `n` on. -/
def blockStart (n : ℤ) : ℤ := (n + 63) / 64 * 64

/-- With no node above, all that is asked is that no block is complete and that the candidate is
right. -/
theorem Joint.of_empty (hempty : hi.headOff = hi.tailOff)
    (hrest : lo.tailOff < blockStart lo.headOff + 64)
    (hcand : lo.candidate = firstCell cell (blockStart lo.headOff) lo.tailOff) :
    Joint lo hi cell (blockStart lo.headOff - 64 * hi.headOff) := by
  have hstart : 64 * hi.tailOff + (blockStart lo.headOff - 64 * hi.headOff)
      = blockStart lo.headOff := by omega
  refine ⟨⟨?_, ?_, ?_, Or.inl hempty⟩, by omega, by rw [hcand, hstart]⟩ <;>
    rw [blockStart] <;> omega

/-- With no node above, the next block to be completed is the first one. -/
theorem Joint.tail_of_empty (hj : Joint lo hi cell δ) (hempty : hi.headOff = hi.tailOff) :
    64 * hi.tailOff + δ = blockStart lo.headOff := by
  obtain ⟨⟨hdvd, hle, hlt, hfull⟩, hrest, hcand⟩ := hj
  rw [blockStart]
  omega

/-! ## An item is added -/

/-- The new item completes the block of the candidate. -/
theorem Joint.push_complete (hj : Joint lo hi cell δ) (x : Addr)
    (hhead : lo'.headOff = lo.headOff) (htail : lo'.tailOff = lo.tailOff + 1)
    (hsome : lo.candidate ≠ none) (hrem : (lo.tailOff + 1) % 64 = 0)
    (hcand' : lo'.candidate = none) :
    Pending lo' hi (Function.update cell lo.tailOff x) δ lo.candidate (some x) := by
  obtain ⟨⟨hdvd, hle, hlt, hfull⟩, hrest, hcand⟩ := hj
  have hlt' : 64 * hi.tailOff + δ < lo.tailOff := by
    by_contra hge
    exact hsome (by rw [hcand, firstCell_of_le (by omega)])
  have hlast : 64 * hi.tailOff + δ + 63 = lo.tailOff := by omega
  refine ⟨⟨hdvd, by omega, by omega, by omega⟩, by omega, hcand', ?_, ?_⟩
  · rw [hcand, firstCell_of_lt hlt', Function.update_of_ne (by omega)]
  · rw [hlast, Function.update_self]

/-- The new item is the first one of a block. -/
theorem Joint.push_first (hj : Joint lo hi cell δ) (hlo : lo.headOff ≤ lo.tailOff) (x : Addr)
    (hhead : lo'.headOff = lo.headOff)
    (htail : lo'.tailOff = lo.tailOff + 1) (hrem : (lo.tailOff + 1) % 64 = 1)
    (hcand' : lo'.candidate = some x) :
    Joint lo' hi (Function.update cell lo.tailOff x) δ := by
  obtain ⟨⟨hdvd, hle, hlt, hfull⟩, hrest, hcand⟩ := hj
  have hstart : 64 * hi.tailOff + δ = lo.tailOff := by omega
  refine ⟨⟨hdvd, by omega, by omega, by omega⟩, by omega, ?_⟩
  rw [hcand', hstart, firstCell_of_lt (by omega), Function.update_self]

/-- The new item neither begins a block nor completes one. -/
theorem Joint.push_inside (hj : Joint lo hi cell δ) (x : Addr)
    (hhead : lo'.headOff = lo.headOff)
    (htail : lo'.tailOff = lo.tailOff + 1)
    (hrem : ¬(lo.candidate ≠ none ∧ (lo.tailOff + 1) % 64 = 0))
    (hrem' : (lo.tailOff + 1) % 64 ≠ 1) (hcand' : lo'.candidate = lo.candidate) :
    Joint lo' hi (Function.update cell lo.tailOff x) δ := by
  obtain ⟨⟨hdvd, hle, hlt, hfull⟩, hrest, hcand⟩ := hj
  by_cases hc : 64 * hi.tailOff + δ < lo.tailOff
  · rw [hcand, firstCell_of_lt hc] at hrem
    have hrem0 : (lo.tailOff + 1) % 64 ≠ 0 := fun h0 ↦ hrem ⟨by simp, h0⟩
    refine ⟨⟨hdvd, by omega, by omega, by omega⟩, by omega, ?_⟩
    rw [hcand', hcand, firstCell_of_lt hc, firstCell_of_lt (by omega),
      Function.update_of_ne (by omega)]
  · refine ⟨⟨hdvd, by omega, by omega, by omega⟩, by omega, ?_⟩
    rw [hcand', hcand, firstCell_of_le (by omega), firstCell_of_le (by omega)]

/-- Once the node of the completed block is there, the joint holds again. -/
theorem Pending.joint {cur last : Option Addr} (hp : Pending lo hi cell δ cur last)
    (hhead : hi'.headOff = hi.headOff)
    (htail : hi'.tailOff = hi.tailOff + 1) : Joint lo hi' cell δ := by
  obtain ⟨⟨hdvd, hle, hlt, hfull⟩, hcomplete, hcand, -, -⟩ := hp
  exact ⟨⟨hdvd, by omega, by omega, by omega⟩, by omega,
    by rw [hcand, firstCell_of_le (by omega)]⟩

/-! ## The first item goes -/

/-- What is left of the candidate when the first item goes. -/
def Layer.candidateAfterPop (L : Layer) : Option Addr :=
  if L.headNode = L.candidate then none else L.candidate

theorem Joint.candidateAfterPop (hj : Joint lo hi cell δ) (hlo : LevelOk lo cell)
    (hhi : hi.headOff ≤ hi.tailOff) (hne : lo.headOff < lo.tailOff) :
    lo.candidateAfterPop
      = if lo.headOff = 64 * hi.tailOff + δ then none else lo.candidate := by
  obtain ⟨⟨hdvd, hle, hlt, hfull⟩, hrest, hcand⟩ := hj
  rw [Layer.candidateAfterPop, hlo.head, firstCell_of_lt hne]
  by_cases hc : 64 * hi.tailOff + δ < lo.tailOff
  · rw [hcand, firstCell_of_lt hc]
    refine if_congr ⟨fun heq ↦ ?_, fun heq ↦ by rw [heq]⟩ rfl rfl
    exact hlo.distinct _ _ (by omega) hne (by omega) hc (Option.some.inj heq)
  · rw [hcand, firstCell_of_le (by omega), if_neg (by simp), if_neg (by omega)]

/-- The first block is broken up and its node goes too. -/
theorem Joint.pop_node (hj : Joint lo hi cell δ) (hlo : LevelOk lo cell)
    (hne : lo.headOff < lo.tailOff) (hrem : (lo.headOff + 1) % 64 = 1)
    (hnode : hi.headOff < hi.tailOff) (hhead : lo'.headOff = lo.headOff + 1)
    (htail : lo'.tailOff = lo.tailOff) (hcand' : lo'.candidate = lo.candidateAfterPop)
    (hhead' : hi'.headOff = hi.headOff + 1) (htail' : hi'.tailOff = hi.tailOff) :
    Joint lo' hi' cell δ := by
  rw [hj.candidateAfterPop hlo (by omega) hne] at hcand'
  obtain ⟨⟨hdvd, hle, hlt, hfull⟩, hrest, hcand⟩ := hj
  rw [if_neg (by omega), hcand] at hcand'
  exact ⟨⟨hdvd, by omega, by omega, by omega⟩, by omega, by rw [hcand', htail, htail']⟩

/-- The first item of the only block goes, and the block was not complete. -/
theorem Joint.pop_first (hj : Joint lo hi cell δ) (hlo : LevelOk lo cell)
    (hne : lo.headOff < lo.tailOff) (hrem : (lo.headOff + 1) % 64 = 1)
    (hempty : hi.headOff = hi.tailOff) (hhead : lo'.headOff = lo.headOff + 1)
    (htail : lo'.tailOff = lo.tailOff) (hcand' : lo'.candidate = lo.candidateAfterPop) :
    Joint lo' hi cell (δ + 64) := by
  rw [hj.candidateAfterPop hlo (by omega) hne] at hcand'
  obtain ⟨⟨hdvd, hle, hlt, hfull⟩, hrest, hcand⟩ := hj
  rw [if_pos (by omega)] at hcand'
  exact ⟨⟨by omega, by omega, by omega, by omega⟩, by omega,
    by rw [hcand', firstCell_of_le (by omega)]⟩

/-- An item before the first block goes. -/
theorem Joint.pop_inside (hj : Joint lo hi cell δ) (hlo : LevelOk lo cell)
    (hhi : hi.headOff ≤ hi.tailOff) (hne : lo.headOff < lo.tailOff)
    (hrem : (lo.headOff + 1) % 64 ≠ 1) (hhead : lo'.headOff = lo.headOff + 1)
    (htail : lo'.tailOff = lo.tailOff) (hcand' : lo'.candidate = lo.candidateAfterPop) :
    Joint lo' hi cell δ := by
  rw [hj.candidateAfterPop hlo hhi hne] at hcand'
  obtain ⟨⟨hdvd, hle, hlt, hfull⟩, hrest, hcand⟩ := hj
  rw [if_neg (by omega), hcand] at hcand'
  exact ⟨⟨hdvd, by omega, by omega, by omega⟩, by omega, by rw [hcand', htail]⟩

/-! ## A cut at the start of a block -/

theorem Joint.cut_left (hj : Joint lo hi cell δ) {x : ℤ}
    (hhead : lo'.headOff = lo.headOff) (htail : lo'.tailOff = 64 * x + δ)
    (hcand' : lo'.candidate = none) (hhead' : hi'.headOff = hi.headOff)
    (htail' : hi'.tailOff = x) : Joint lo' hi' cell δ := by
  obtain ⟨⟨hdvd, hle, hlt, hfull⟩, hrest, hcand⟩ := hj
  exact ⟨⟨hdvd, by omega, by omega, by omega⟩, by omega,
    by rw [hcand', htail', firstCell_of_le (by omega)]⟩

theorem Joint.cut_right (hj : Joint lo hi cell δ) {x : ℤ} (hx : hi.headOff < x)
    (hxt : x ≤ hi.tailOff) (hhead : lo'.headOff = 64 * x + δ) (htail : lo'.tailOff = lo.tailOff)
    (hcand' : lo'.candidate = lo.candidate) (hhead' : hi'.headOff = x)
    (htail' : hi'.tailOff = hi.tailOff) : Joint lo' hi' cell δ := by
  obtain ⟨⟨hdvd, hle, hlt, hfull⟩, hrest, hcand⟩ := hj
  exact ⟨⟨hdvd, by omega, by omega, by omega⟩, by omega, by rw [hcand', hcand, htail, htail']⟩

/-- The number of items before the cut, as `dequeue_half` computes it. -/
theorem Aligned.items_before (hj : Aligned lo hi δ) (hlo : 0 ≤ lo.headOff) (g : ℤ) :
    lo.headOff + ((1 + g) * SkipGap - remGap (lo.headOff + SkipGap - 1) - 1)
      = 64 * (hi.headOff + g) + δ := by
  obtain ⟨hdvd, hle, hlt, hfull⟩ := hj
  rw [remGap_of_nonneg (by simp only [SkipGap]; omega)]
  simp only [SkipGap]
  omega

end TYThread
