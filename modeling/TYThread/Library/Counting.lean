import Mathlib.Algebra.BigOperators.Group.Finset.Piecewise
import Mathlib.Algebra.Order.BigOperators.Group.Finset
import Mathlib.Data.List.Perm.Basic
import Mathlib.Data.Set.Card
import Mathlib.Data.Set.Finite.Lattice

/-!
# Counting over a table

`holders f b` is the number of indices at which `f` has the value `b`. Where `f` is a table in which
a step changes one entry, this number changes by what the entry was and what it becomes. So does a
sum over a part of the table.
-/

namespace Counting

variable {ι β : Type*}

/-- The number of indices at which `f` is `b`. -/
noncomputable def holders (f : ι → β) (b : β) : ℕ := Set.ncard {i | f i = b}

theorem holders_update [DecidableEq ι] [DecidableEq β] (f : ι → β) (i : ι) (c b : β)
    (hfin : Set.Finite {j | f j = b}) :
    holders (Function.update f i c) b + (if f i = b then 1 else 0)
      = holders f b + (if c = b then 1 else 0) := by
  have hother : ∀ j, j ≠ i → (Function.update f i c j = b ↔ f j = b) := fun j hj ↦ by
    rw [Function.update_of_ne hj]
  -- All indices but `i`.
  let rest : Set ι := {j | j ≠ i ∧ f j = b}
  have hrest : rest.Finite := hfin.subset fun j hj ↦ hj.2
  have hi : i ∉ rest := fun h ↦ h.1 rfl
  have hcount : ∀ (g : ι → β), (∀ j, j ≠ i → (g j = b ↔ f j = b)) →
      holders g b = rest.ncard + (if g i = b then 1 else 0) := by
    intro g hg
    by_cases hgi : g i = b
    · have hset : {j | g j = b} = insert i rest := by
        ext j
        by_cases hj : j = i
        · simp [hj, hgi]
        · simp [rest, hj, hg j hj]
      rw [holders, hset, Set.ncard_insert_of_notMem hi hrest, if_pos hgi]
    · have hset : {j | g j = b} = rest := by
        ext j
        by_cases hj : j = i
        · simp [rest, hj, hgi]
        · simp [rest, hj, hg j hj]
      rw [holders, hset, if_neg hgi, Nat.add_zero]
  rw [hcount f fun _ _ ↦ Iff.rfl, hcount (Function.update f i c) hother, Function.update_self]
  omega

theorem holders_pos_iff {f : ι → β} {b : β} (hfin : Set.Finite {j | f j = b}) :
    0 < holders f b ↔ ∃ i, f i = b :=
  Set.ncard_pos hfin

theorem apply_update_eq [DecidableEq ι] {γ : Type*} {f : ι → β} {i : ι} {b : β} (F : β → γ)
    (h : F b = F (f i)) (j : ι) : F (Function.update f i b j) = F (f j) := by
  by_cases hj : j = i
  · rw [hj, Function.update_self, h]
  · rw [Function.update_of_ne hj]

/-- One entry is replaced, and `F` is summed over the entries in `s`. -/
theorem sum_update [DecidableEq ι] {M : Type*} [AddCommMonoid M] (f : ι → β) (F : β → M)
    {s : Finset ι} {i : ι} (hi : i ∈ s) (b : β) :
    ∑ j ∈ s, F (Function.update f i b j) + F (f i) = ∑ j ∈ s, F (f j) + F b := by
  have hcomp : ∀ j, F (Function.update f i b j) = Function.update (F ∘ f) i (F b) j := fun j ↦
    congrFun (Function.comp_update F f i b) j
  rw [Finset.sum_congr rfl fun j _ ↦ hcomp j, Finset.sum_update_of_mem hi,
    ← Finset.add_sum_erase s (fun j ↦ F (f j)) hi, Finset.erase_eq]
  simp only [Function.comp_apply]
  rw [add_right_comm, add_comm (F b), add_right_comm, add_comm (F (f i))]

/-- The members of finite sets, counted set by set, when none is in two of them. -/
theorem ncard_iUnion {T : Finset ι} {S : ι → Set β} (hfin : ∀ i ∈ T, (S i).Finite)
    (hapart : ∀ i ∈ T, ∀ j ∈ T, ∀ x, x ∈ S i → x ∈ S j → i = j) :
    Set.ncard {x | ∃ i ∈ T, x ∈ S i} = ∑ i ∈ T, (S i).ncard := by
  classical
  induction T using Finset.induction_on with
  | empty => simp
  | insert i T hi ih =>
    have hrest := ih (fun j hj ↦ hfin j (Finset.mem_insert_of_mem hj)) fun j hj k hk ↦
      hapart j (Finset.mem_insert_of_mem hj) k (Finset.mem_insert_of_mem hk)
    have hsplit : {x | ∃ j ∈ insert i T, x ∈ S j} = S i ∪ {x | ∃ j ∈ T, x ∈ S j} := by
      ext x
      simp [or_and_right, exists_or]
    have hdisjoint : Disjoint (S i) {x | ∃ j ∈ T, x ∈ S j} := by
      rw [Set.disjoint_left]
      rintro x hx ⟨j, hj, hxj⟩
      have hij := hapart i (Finset.mem_insert_self i T) j (Finset.mem_insert_of_mem hj) x hx hxj
      exact hi (hij ▸ hj)
    have hfinite : Set.Finite {x | ∃ j ∈ T, x ∈ S j} := by
      have hunion : {x | ∃ j ∈ T, x ∈ S j} = ⋃ j ∈ T, S j := by
        ext x
        simp
      rw [hunion]
      exact Set.Finite.biUnion T.finite_toSet fun j hj ↦ hfin j (Finset.mem_insert_of_mem hj)
    rw [hsplit, Set.ncard_union_eq hdisjoint (hfin i (Finset.mem_insert_self i T)) hfinite,
      Finset.sum_insert hi, hrest]

section List

variable {xs : List β} {k : ℕ} {x : β}

theorem perm_eraseIdx (h : xs[k]? = some x) : (x :: xs.eraseIdx k).Perm xs := by
  obtain ⟨hk, rfl⟩ := List.getElem?_eq_some_iff.mp h
  exact List.getElem_cons_eraseIdx_perm hk

/-- Erasing an entry by its index and by its value leaves the same elements. -/
theorem erase_perm_eraseIdx [DecidableEq β] (h : xs[k]? = some x) :
    (xs.erase x).Perm (xs.eraseIdx k) :=
  (List.perm_cons x).mp <|
    (List.perm_cons_erase (List.mem_of_getElem? h)).symm.trans (perm_eraseIdx h).symm

theorem ncard_mem (h : xs.Nodup) : Set.ncard {x | x ∈ xs} = xs.length := by
  classical
  rw [← List.toFinset_card_of_nodup h, ← Set.ncard_coe_finset, List.coe_toFinset]

end List

open Classical in
/-- `1` or `0`, as a proposition holds or not. -/
noncomputable def indicator (p : Prop) : ℕ := if p then 1 else 0

theorem indicator_of_true {p : Prop} (h : p) : indicator p = 1 := if_pos h

theorem indicator_of_false {p : Prop} (h : ¬p) : indicator p = 0 := if_neg h

theorem indicator_le_one (p : Prop) : indicator p ≤ 1 := by
  rw [indicator]
  split_ifs <;> decide

end Counting
