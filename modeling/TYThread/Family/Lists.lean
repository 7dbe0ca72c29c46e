import TYThread.Family.Model
import TYThread.Skiplist.Contents

/-!
# Several lists over one heap

Every list holds its contents, and no element and no skip node belongs to two lists. An
operation on one list keeps this, because its frame leaves the other lists alone.
-/

namespace TYThread

/-- No value belongs to two indices. -/
def Apart {α : Type} (P : ℕ → α → Prop) : Prop := ∀ l m a, P l a → P m a → l = m

/-- Only what belongs to `l` changes, and what is new there belongs to no other index. -/
theorem Apart.update {α : Type} {P P' : ℕ → α → Prop} (h : Apart P) {l : ℕ}
    (hother : ∀ m, m ≠ l → ∀ a, P' m a → P m a) (hnew : ∀ m, m ≠ l → ∀ a, P' l a → ¬P m a) :
    Apart P' := by
  intro m k a hm hk
  by_cases hml : m = l <;> by_cases hkl : k = l
  · rw [hml, hkl]
  · subst hml
    exact absurd (hother k hkl a hk) (hnew k hkl a hm)
  · subst hkl
    exact absurd (hother m hml a hm) (hnew m hml a hk)
  · exact h m k a (hother m hml a hm) (hother k hkl a hk)

/-- The lists hold the contents `xs` and own the skip nodes `S`, all apart from one another. -/
structure ListsOk (h : Heap) (lists : ℕ → Option Skiplist) (xs : ℕ → List Addr)
    (S : ℕ → Set Addr) : Prop where
  holds : ∀ l s, lists l = some s → Holds h s (xs l) (S l)
  absent : ∀ l, lists l = none → xs l = [] ∧ S l = ∅
  elems : Apart fun l a ↦ a ∈ xs l
  nodes : Apart fun l a ↦ a ∈ S l

section

variable {h h' : Heap} {lists : ℕ → Option Skiplist} {xs : ℕ → List Addr} {S : ℕ → Set Addr}
  {l r : ℕ} {s s' res : Skiplist}

theorem ListsOk.eq_of_mem (hok : ListsOk h lists xs S) {m : ℕ} {a : Addr} (ha : a ∈ xs l)
    (ha' : a ∈ xs m) : l = m := hok.elems l m a ha ha'

theorem ListsOk.congr (hok : ListsOk h lists xs S) (hnode : h'.node = h.node)
    (hbrk : h'.brk = h.brk) (hnext : ∀ l, ∀ a ∈ xs l, h'.nextOf a = h.nextOf a) :
    ListsOk h' lists xs S :=
  ⟨fun l s hl ↦ (hok.holds l s hl).congr (fun a _ ↦ by rw [hnode]) (Nat.le_of_eq hbrk.symm)
    (hnext l), hok.absent, hok.elems, hok.nodes⟩

theorem ListsOk.update (hok : ListsOk h lists xs S) {ys : List Addr} {T : Set Addr}
    (hs : Holds h' s' ys T) (hf : NodeFrame h h' (S l) T)
    (hnext : ∀ m, m ≠ l → ∀ a ∈ xs m, h'.nextOf a = h.nextOf a)
    (hnew : ∀ m, m ≠ l → ∀ a ∈ ys, a ∉ xs m) :
    ListsOk h' (Function.update lists l (some s')) (Function.update xs l ys)
      (Function.update S l T) := by
  have hnodes : ∀ m, m ≠ l → ∀ a ∈ S m, a ∉ T := fun m hm a ha ↦ by
    cases hlm : lists m with
    | none =>
      rw [(hok.absent m hlm).2] at ha
      exact absurd ha (Set.notMem_empty a)
    | some t =>
      exact (hok.holds m t hlm).notMem_frame hf (fun b hb hb' ↦ hm (hok.nodes m l b hb hb')) a ha
  refine ⟨fun m t hm ↦ ?_, fun m hm ↦ ?_,
    hok.elems.update (l := l) (fun m hm a ha ↦ ?_) fun m hm a ha ↦ ?_,
    hok.nodes.update (l := l) (fun m hm a ha ↦ ?_) fun m hm a ha ↦ ?_⟩
  · by_cases hml : m = l
    · subst hml
      rw [Function.update_self, Option.some.injEq] at hm
      rw [Function.update_self, Function.update_self, ← hm]
      exact hs
    · rw [Function.update_of_ne hml] at hm ⊢
      rw [Function.update_of_ne hml]
      exact (hok.holds m t hm).frame hf (fun a ha ha' ↦ hml (hok.nodes m l a ha ha')) (hnext m hml)
  · have hml : m ≠ l := by
      rintro rfl
      simp at hm
    rw [Function.update_of_ne hml] at hm ⊢
    rw [Function.update_of_ne hml]
    exact hok.absent m hm
  · rw [Function.update_of_ne hm] at ha
    exact ha
  · rw [Function.update_self] at ha
    exact hnew m hm a ha
  · rw [Function.update_of_ne hm] at ha
    exact ha
  · rw [Function.update_self] at ha
    exact fun ha' ↦ hnodes m hm a ha' ha

/-- The contents of one list are dealt out to this list and another one. -/
theorem ListsOk.update₂ (hok : ListsOk h lists xs S)
    {ys zs : List Addr} {T U : Set Addr} (hs : Holds h' s' zs T) (hres : Holds h' res ys U)
    (hTU : ∀ a ∈ T, a ∉ U) (hyz : ∀ a ∈ zs, a ∉ ys) (hf : NodeFrame h h' (S l) (T ∪ U))
    (hnext : ∀ m, m ≠ l → ∀ a ∈ xs m, h'.nextOf a = h.nextOf a)
    (hsub : ∀ a, a ∈ ys ∨ a ∈ zs → a ∈ xs l) :
    ListsOk h' (Function.update (Function.update lists l (some s')) r (some res))
      (Function.update (Function.update xs l zs) r ys)
      (Function.update (Function.update S l T) r U) := by
  -- The first half of the frame, as if the other half belonged to nobody.
  have hfT : NodeFrame h h' (S l) T :=
    ⟨hf.brk_le, hf.same, fun a ha ↦ hf.owned a (Or.inl ha)⟩
  have hok₁ := hok.update hs hfT hnext fun m hm a ha ha' ↦
    hm (hok.elems m l a ha' (hsub a (Or.inr ha)))
  have hU : ∀ m, m ≠ l → ∀ a ∈ S m, a ∉ U := fun m hm a ha ha' ↦ by
    cases hlm : lists m with
    | none =>
      rw [(hok.absent m hlm).2] at ha
      exact absurd ha (Set.notMem_empty a)
    | some t =>
      exact (hok.holds m t hlm).notMem_frame hf (fun b hb hb' ↦ hm (hok.nodes m l b hb hb')) a ha
        (Or.inr ha')
  refine ⟨fun m t hm ↦ ?_, fun m hm ↦ ?_,
    hok₁.elems.update (l := r) (fun m hm a ha ↦ ?_) fun m hm a ha ↦ ?_,
    hok₁.nodes.update (l := r) (fun m hm a ha ↦ ?_) fun m hm a ha ↦ ?_⟩
  · by_cases hmr : m = r
    · subst hmr
      rw [Function.update_self, Option.some.injEq] at hm
      rw [Function.update_self, Function.update_self, ← hm]
      exact hres
    · rw [Function.update_of_ne hmr] at hm ⊢
      rw [Function.update_of_ne hmr]
      exact hok₁.holds m t hm
  · have hmr : m ≠ r := by
      rintro rfl
      simp at hm
    rw [Function.update_of_ne hmr] at hm ⊢
    rw [Function.update_of_ne hmr]
    exact hok₁.absent m hm
  · rw [Function.update_of_ne hm] at ha
    exact ha
  · rw [Function.update_self] at ha
    by_cases hml : m = l
    · rw [hml, Function.update_self]
      exact fun hz ↦ hyz a hz ha
    · rw [Function.update_of_ne hml]
      exact fun hx ↦ hml (hok.elems m l a hx (hsub a (Or.inl ha)))
  · rw [Function.update_of_ne hm] at ha
    exact ha
  · rw [Function.update_self] at ha
    by_cases hml : m = l
    · rw [hml, Function.update_self]
      exact fun ht ↦ hTU a ht ha
    · rw [Function.update_of_ne hml]
      exact fun hx ↦ hU m hml a hx ha

end

end TYThread
