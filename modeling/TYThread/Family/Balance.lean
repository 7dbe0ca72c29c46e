import Mathlib.Algebra.Order.Ring.Int
import TYThread.Family.Refinement

/-!
# How much a steal takes

`dequeue_half` cuts a list behind half of the nodes of the highest layer that has two. A node of
`layers[m - 1]` stands for `64 ^ m` elements, and at either end of the list there are fewer than
that many elements which no node of this layer stands for. That is enough for both parts to be in
proportion, whatever these ends are.
-/

namespace TYThread

open LinkedList Transition

/-! ## From a level to the elements -/

/-- `d` nodes that stand for `W` elements each, and fewer than `W` more, are `A` elements. -/
def Covers (W d A : ℤ) : Prop := W * d ≤ A ∧ A < W * d + W

/-- From one level to the next: `64` cells to a node, and fewer than `64` more. -/
theorem Covers.up {W d d' A : ℤ} (h : Covers W d A) (hW : 0 ≤ W) (hle : 64 * d' ≤ d)
    (hlt : d < 64 * d' + 64) : Covers (W * 64) d' A := by
  have hlow : W * (64 * d') ≤ W * d := mul_le_mul_of_nonneg_left hle hW
  have hhigh : W * (d + 1) ≤ W * (64 * d' + 64) := mul_le_mul_of_nonneg_left hlt hW
  rw [mul_add, mul_one, mul_add] at hhigh
  rw [Covers, mul_assoc]
  exact ⟨le_trans hlow h.1, lt_of_lt_of_le h.2 hhigh⟩

theorem Covers.balanced {W g r A B : ℤ} (hA : Covers W g A) (hB : Covers W r B) (hW : 0 ≤ W)
    (hr : 1 ≤ r) (hle : r ≤ g) (hlt : g ≤ r + 1) : A + B < 3 * A ∧ A + B < 4 * B := by
  have hgiven : W * (r + 1) ≤ W * (2 * g) := mul_le_mul_of_nonneg_left (by omega) hW
  have hkept : W * (g + 1) ≤ W * (3 * r) := mul_le_mul_of_nonneg_left (by omega) hW
  rw [mul_add, mul_one, mul_left_comm] at hgiven hkept
  obtain ⟨hA, hA'⟩ := hA
  obtain ⟨hB, hB'⟩ := hB
  exact ⟨by omega, by omega⟩

section

variable {h : Heap} {s : Skiplist} {lv : ℕ → Layer} {Λ : Layout} {m n : ℕ} {cut : ℕ → ℤ} {x : ℤ}

/-- The elements on both sides of a cut, counted in cells of level `n`. -/
theorem Cut.covers (hj : Joints lv Λ) (hn : n ≤ NLayers) (hc : Cut lv Λ n cut) :
    Covers (64 ^ n) (cut n - (lv n).headOff) (cut 0 - (lv 0).headOff) ∧
      Covers (64 ^ n) ((lv n).tailOff - cut n) ((lv 0).tailOff - cut 0) := by
  induction n with
  | zero =>
    rw [pow_zero, Covers, Covers, one_mul, one_mul]
    exact ⟨⟨le_refl _, Int.lt_succ _⟩, le_refl _, Int.lt_succ _⟩
  | succ n ih =>
    obtain ⟨hgiven, hkept⟩ := ih (by omega) (hc.mono (Nat.le_succ n))
    obtain ⟨⟨-, hle, hlt, hfull⟩, hrest, -⟩ := hj n hn
    have hdown := hc.down n (Nat.lt_succ_self n)
    have hhead := hc.head_lt (n + 1) (Nat.le_refl _)
    have htail := hc.le_tail (n + 1) (Nat.le_refl _)
    have hpow : (0 : ℤ) ≤ 64 ^ n := pow_nonneg (by decide) n
    rw [pow_succ]
    exact ⟨hgiven.up hpow (by omega) (by omega), hkept.up hpow (by omega) (by omega)⟩

theorem HalfCut.balanced (hr : Rep h s.level Λ) (hcut : HalfCut s.level Λ m x)
    (htwo : 2 ≤ s.tailOff - s.headOff) :
    s.tailOff - s.headOff < 3 * (x - s.headOff) ∧ s.tailOff - s.headOff < 4 * (s.tailOff - x) := by
  obtain ⟨hm, htwo', cut, hc, hcm, rfl⟩ := hcut
  have hcells : (s.level m).headOff + 2 ≤ (s.level m).tailOff := by
    rcases htwo' with rfl | htwo'
    · change s.headOff + 2 ≤ s.tailOff
      omega
    · omega
  rw [toGiveAway_eq (by omega)] at hcm
  obtain ⟨hgiven, hkept⟩ := hc.covers hr.joints hm
  have hbalanced := hgiven.balanced hkept (pow_nonneg (by decide) m) (by omega) (by omega)
    (by omega)
  change s.tailOff - s.headOff < 3 * (cut 0 - s.headOff) ∧
    s.tailOff - s.headOff < 4 * (s.tailOff - cut 0)
  have hsum : cut 0 - s.headOff + (s.tailOff - cut 0) = s.tailOff - s.headOff := by omega
  rwa [← hsum]

/-- Without a layer with two nodes, the elements themselves are cut in half. -/
theorem HalfCut.exact (hcut : HalfCut s.level Λ m x)
    (hnodes : ∀ i < NLayers, (s.layers i).tailOff - (s.layers i).headOff < 2)
    (hle : s.headOff ≤ s.tailOff) : x - s.headOff = (s.tailOff - s.headOff + 1) / 2 := by
  obtain ⟨hm, htwo, cut, hc, hcm, rfl⟩ := hcut
  cases m with
  | zero =>
    rw [toGiveAway_eq hle] at hcm
    change cut 0 = s.headOff + (s.tailOff - s.headOff + 1) / 2 at hcm
    omega
  | succ i =>
    have hfew := hnodes i hm
    have htwo' := htwo.resolve_left (Nat.succ_ne_zero i)
    rw [Skiplist.level_succ] at htwo'
    omega

end

/-! ## One list -/

/-- What `dequeue_half` gives away and keeps of a list with two elements. -/
theorem Holds.dequeueHalf_balanced {h : Heap} {s : Skiplist} {xs : List Addr} {S : Set Addr}
    (hs : Holds h s xs S) (hlen : 2 ≤ xs.length) :
    ∃ h' s' res ys zs S₁ S₂, Skiplist.dequeueHalf id h s = some (h', s', some res) ∧
      xs = ys ++ zs ∧ Splits h h' s s' res ys zs S S₁ S₂ ∧
      xs.length < 3 * ys.length ∧ xs.length < 4 * zs.length ∧
      ((∀ i < NLayers, (s.layers i).tailOff - (s.layers i).headOff < 2) →
        ys.length = (xs.length + 1) / 2) := by
  have hsize := hs.size
  rw [Skiplist.size] at hsize
  obtain ⟨h', s', res, ys, zs, S₁, S₂, hrun, hxs, hsplit, Λ, m, hr, hcut⟩ :=
    hs.dequeueHalf_halfCut (List.ne_nil_of_length_pos (by omega))
  have hsum : xs.length = ys.length + zs.length := by rw [hxs, List.length_append]
  obtain ⟨hgiven, hkept⟩ := hcut.balanced hr (by omega)
  refine ⟨h', s', res, ys, zs, S₁, S₂, hrun, hxs, hsplit, by omega, by omega, fun hnodes ↦ ?_⟩
  have hexact := hcut.exact hnodes (by omega)
  omega

/-! ## Every list of a run -/

/-- **A steal is balanced.** After any run, `dequeue_half` of a list with two elements or more gives
away more than a third of them and keeps more than a quarter. If no layer has two nodes, it gives
away the front half, and so does `dequeue_half_`. -/
theorem steal_balanced {ids : Finset ℕ} {ops : List Op} {w : World}
    (hrun : Run (World.Step id) (World.initial ids) ops w) {l : ℕ} {s : Skiplist}
    (hs : w.lists l = some s) {xs : List Addr} (hxs : w.Contents l xs) (hlen : 2 ≤ xs.length) :
    ∃ h' s' res ys zs, s.dequeueHalf id w.heap = some (h', s', some res) ∧ xs = ys ++ zs ∧
      (Chain h'.nextOf res.head ys ∧ res.size = ys.length) ∧
      (Chain h'.nextOf s'.head zs ∧ s'.size = zs.length) ∧
      xs.length < 3 * ys.length ∧ xs.length < 4 * zs.length ∧
      ((∀ i < NLayers, (s.layers i).tailOff - (s.layers i).headOff < 2) →
        ys.length = (xs.length + 1) / 2 ∧
        ∃ h'' s'' res', s.dequeueHalf_ id w.heap = some (h'', s'', some res') ∧
          Chain h''.nextOf res'.head ys ∧ Chain h''.nextOf s''.head zs) := by
  obtain ⟨xs', hok⟩ := World.ok_of_run hrun
  obtain ⟨S, hlists⟩ := hok.lists
  have hholds := hlists.holds l s hs
  obtain ⟨t, ht, hchain⟩ := hxs
  obtain rfl : s = t := Option.some.inj (hs.symm.trans ht)
  rw [Chain.unique hholds.chain hchain] at hholds
  obtain ⟨h', s', res, ys, zs, S₁, S₂, hhalf, happend, hsplit, hgiven, hkept, hexact⟩ :=
    hholds.dequeueHalf_balanced hlen
  refine ⟨h', s', res, ys, zs, hhalf, happend, ⟨hsplit.given.chain, hsplit.given.size⟩,
    ⟨hsplit.rest.chain, hsplit.rest.size⟩, hgiven, hkept, fun hnodes ↦ ⟨hexact hnodes, ?_⟩⟩
  obtain ⟨h'', s'', res', T₁, T₂, hhalf', hsplit'⟩ :=
    hholds.dequeueHalf_take (List.ne_nil_of_length_pos (by omega))
  have hys : xs.take ((xs.length + 1) / 2) = ys := by
    rw [← hexact hnodes, happend, List.take_left]
  have hzs : xs.drop ((xs.length + 1) / 2) = zs := by
    rw [← hexact hnodes, happend, List.drop_left]
  rw [hys, hzs] at hsplit'
  exact ⟨h'', s'', res', hhalf', hsplit'.given.chain, hsplit'.rest.chain⟩

/-- A list of `200` elements with three nodes. -/
theorem steal_balanced_fillOps :
    ∃ w s, Run (World.Step id) (World.initial {0, 2}) (fillOps 200) w ∧ w.lists 0 = some s ∧
      (s.layers 0).tailOff - (s.layers 0).headOff = 3 ∧
      ∃ h' s' res ys zs, s.dequeueHalf id w.heap = some (h', s', some res) ∧
        List.range 200 = ys ++ zs ∧ res.size = ys.length ∧ s'.size = zs.length ∧
        200 < 3 * ys.length ∧ 200 < 4 * zs.length := by
  obtain ⟨w, s, hrun, hfilled⟩ := fillOps_run 200
  obtain ⟨h', s', res, ys, zs, hhalf, happend, hres, hself, hgiven, hkept, -⟩ :=
    steal_balanced hrun hfilled.list hfilled.contents (by rw [List.length_range]; decide)
  rw [List.length_range] at hgiven hkept
  exact ⟨w, s, hrun, hfilled.list, by rw [hfilled.nodes]; rfl, h', s', res, ys, zs, hhalf, happend,
    hres.2, hself.2, hgiven, hkept⟩

end TYThread
