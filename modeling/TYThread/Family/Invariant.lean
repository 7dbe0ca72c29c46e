import TYThread.Family.Lists
import TYThread.Library.SplitQueue
import TYThread.RefPtr

/-!
# The invariant of a world

`World.Ok w xs` says that the lists of `w` hold the contents `xs`, apart from one another, and that
every counter is the number of owners of its object modulo `2 ^ 32`: the handles that point to it,
and one more when it is linked in a list. `Op.Pre` is what a caller has to see to.
-/

namespace TYThread

open LinkedList Counting

namespace World

variable (w : World)

/-- The elements met by following `next` from the head of the list `l`. -/
def Contents (l : ℕ) (ys : List Addr) : Prop :=
  ∃ s, w.lists l = some s ∧ Chain w.heap.nextOf s.head ys

/-- The object is linked in a list. -/
def Linked (a : Addr) : Prop := ∃ l ys, w.Contents l ys ∧ a ∈ ys

/-- The number of handles that hold the object, plus one if it is linked in a list. -/
noncomputable def owners (a : Addr) : ℕ :=
  holders w.handles (some (some a)) + indicator (w.Linked a)

theorem not_linked_of_empty {w : World} (h : ∀ l s, w.lists l = some s → s.head = none) (a : Addr) :
    ¬w.Linked a := by
  rintro ⟨l, ys, ⟨s, hs, hchain⟩, hmem⟩
  cases ys with
  | nil => exact List.not_mem_nil hmem
  | cons y ys => exact absurd ((h l s hs).symm.trans hchain.1) (by simp)

/-- While the lists are those of the start of a run, nothing is linked. -/
theorem not_linked_initial {w : World} {ids : Finset ℕ} (hw : w.lists = (World.initial ids).lists)
    (a : Addr) : ¬w.Linked a := by
  refine not_linked_of_empty (fun l s hs ↦ ?_) a
  rw [hw, World.initial] at hs
  obtain ⟨-, hs⟩ := Option.ite_none_right_eq_some.mp hs
  rw [← Option.some.inj hs]

end World

/-- What the caller of an operation has to see to. A handle or a list that is to be made must not be
in use yet, an object that is enqueued must be in no list, and an object that is given up must not
have got `2 ^ 32` owners before. -/
def Op.Pre (w : World) : Op → Prop
  | newObject a => w.heap.obj a = none
  | construct h a => w.handles h = none ∧ w.heap.counterOf a ≠ none
  | makeRefPtr h a => w.handles h = none ∧ w.heap.obj a = none
  | copyConstruct h g => w.handles h = none ∧ ∃ p, w.handles g = some p
  | moveConstruct h g => w.handles h = none ∧ ∃ p, w.handles g = some p
  | copyAssign h g => (∃ q, w.handles g = some q) ∧
    ∃ p, w.handles h = some p ∧ ∀ a, p = some a → w.owners a < unsignedRange
  | moveAssign h g => (∃ q, w.handles g = some q) ∧
    ∃ p, w.handles h = some p ∧ ∀ a, p = some a → w.owners a < unsignedRange
  | nullAssign h => ∃ p, w.handles h = some p ∧ ∀ a, p = some a → w.owners a < unsignedRange
  | destroy h => ∃ p, w.handles h = some p ∧ ∀ a, p = some a → w.owners a < unsignedRange
  | enqueueCopy l h =>
    (∃ s, w.lists l = some s) ∧ ∃ a, w.handles h = some (some a) ∧ ¬w.Linked a
  | enqueueMove l h =>
    (∃ s, w.lists l = some s) ∧ ∃ a, w.handles h = some (some a) ∧ ¬w.Linked a
  | dequeue l h => (∃ s, w.lists l = some s) ∧ w.handles h = none
  | dequeueHalf l r => (∃ s, w.lists l = some s) ∧ w.lists r = none
  | dequeueHalf_ l r => (∃ s, w.lists l = some s) ∧ w.lists r = none
  | replace l r => l ≠ r ∧ w.Contents l [] ∧ ∃ p, w.lists r = some p

/-- One operation, called as it should be. -/
def World.Step (int : ℤ → ℤ) (w : World) (op : Op) (w' : World) : Prop :=
  op.Pre w ∧ op.exec int w = some w'

/-! ## Counting owners -/

/-- The owners, in terms of the contents. -/
noncomputable def ownersOf (f : ℕ → Option (Option Addr)) (xs : ℕ → List Addr) (a : Addr) : ℕ :=
  holders f (some (some a)) + indicator (∃ l, a ∈ xs l)

section

variable {f : ℕ → Option (Option Addr)} {xs xs' : ℕ → List Addr} {a : Addr}

theorem pointsTo_join (v : Option (Option Addr)) (a : Addr) :
    pointsTo v.join a = if v = some (some a) then 1 else 0 := by
  rcases v with _ | _ | b <;> simp [pointsTo]

theorem ownersOf_update (xs : ℕ → List Addr) (hfin : Set.Finite {i | f i = some (some a)}) (h : ℕ)
    (v : Option (Option Addr)) :
    ownersOf (Function.update f h v) xs a + pointsTo (f h).join a
      = ownersOf f xs a + pointsTo v.join a := by
  have hcount := holders_update f h v (some (some a)) hfin
  simp only [ownersOf, pointsTo_join]
  omega

theorem pointsTo_le_ownersOf (xs : ℕ → List Addr) (hfin : Set.Finite {i | f i = some (some a)})
    (h : ℕ) : pointsTo (f h).join a ≤ ownersOf f xs a := by
  rw [pointsTo_join, ownersOf]
  by_cases hf : f h = some (some a)
  · have hpos := (holders_pos_iff hfin).mpr ⟨h, hf⟩
    rw [if_pos hf]
    omega
  · rw [if_neg hf]
    exact Nat.zero_le _

theorem ownersOf_link {e : Addr} (hnew : ∀ l, e ∉ xs l)
    (hmem : ∀ a, (∃ l, a ∈ xs' l) ↔ (∃ l, a ∈ xs l) ∨ a = e) (a : Addr) :
    ownersOf f xs' a = ownersOf f xs a + pointsTo (some e) a := by
  rw [ownersOf, ownersOf, hmem]
  by_cases hae : a = e
  · subst hae
    have hno : ¬∃ l, a ∈ xs l := fun ⟨l, hl⟩ ↦ hnew l hl
    rw [indicator_of_true (Or.inr rfl), indicator_of_false hno, pointsTo_self]
  · simp only [hae, or_false, pointsTo_of_ne hae, Nat.add_zero]

theorem ownersOf_congr (hmem : ∀ a, (∃ l, a ∈ xs' l) ↔ ∃ l, a ∈ xs l) (a : Addr) :
    ownersOf f xs' a = ownersOf f xs a := by
  rw [ownersOf, ownersOf, hmem]

theorem finite_update (hfin : Set.Finite {i | f i = some (some a)}) (h : ℕ)
    (v : Option (Option Addr)) :
    Set.Finite {i | Function.update f h v i = some (some a)} := by
  refine (hfin.insert h).subset fun i hi ↦ ?_
  by_cases hih : i = h
  · exact Or.inl hih
  · have hi' : Function.update f h v i = some (some a) := hi
    rw [Function.update_of_ne hih] at hi'
    exact Or.inr hi'

end

/-! ## The invariant -/

structure World.Ok (w : World) (xs : ℕ → List Addr) : Prop where
  lists : ∃ S, ListsOk w.heap w.lists xs S
  counted : Counted w.heap (ownersOf w.handles xs)
  finite : ∀ a, Set.Finite {i | w.handles i = some (some a)}

section

variable {w w' : World} {xs xs' : ℕ → List Addr} {l : ℕ} {ys : List Addr} {a : Addr}

theorem World.Ok.contents_iff (hok : w.Ok xs) :
    w.Contents l ys ↔ (∃ s, w.lists l = some s) ∧ ys = xs l := by
  obtain ⟨S, hlists⟩ := hok.lists
  constructor
  · rintro ⟨s, hs, hchain⟩
    exact ⟨⟨s, hs⟩, hchain.unique (hlists.holds l s hs).chain⟩
  · rintro ⟨⟨s, hs⟩, rfl⟩
    exact ⟨s, hs, (hlists.holds l s hs).chain⟩

theorem World.Ok.linked_iff (hok : w.Ok xs) : w.Linked a ↔ ∃ l, a ∈ xs l := by
  obtain ⟨S, hlists⟩ := hok.lists
  constructor
  · rintro ⟨l, ys, hys, ha⟩
    obtain ⟨-, rfl⟩ := hok.contents_iff.mp hys
    exact ⟨l, ha⟩
  · rintro ⟨l, ha⟩
    cases hl : w.lists l with
    | none =>
      rw [(hlists.absent l hl).1] at ha
      exact absurd ha List.not_mem_nil
    | some s => exact ⟨l, xs l, hok.contents_iff.mpr ⟨⟨s, hl⟩, rfl⟩, ha⟩

theorem World.Ok.owners_eq (hok : w.Ok xs) : w.owners = ownersOf w.handles xs := by
  funext a
  simp only [owners, ownersOf, hok.linked_iff]

theorem World.Ok.owners_ne_zero (ha : ∃ l, a ∈ xs l) (f : ℕ → Option (Option Addr)) :
    ownersOf f xs a ≠ 0 := by
  rw [ownersOf, indicator_of_true ha]
  omega

end

/-- What an operation deletes: the objects that lose their last owner, each of them once. Apart from
that, the live objects are those of before and a new one. -/
structure Deletes (h h' : Heap) (created : Option Addr) (own own' : Addr → ℕ) : Prop where
  count : ∀ a, h'.deleted.count a = h.deleted.count a + if own a = 1 ∧ own' a = 0 then 1 else 0
  last : ∀ a, own a ≠ 0 → own' a = 0 → own a = 1
  live : ∀ a, h'.counterOf a = none ↔
    (h.counterOf a = none ∧ created ≠ some a) ∨ (own a = 1 ∧ own' a = 0)

section

variable {h h' : Heap} {own own' : Addr → ℕ}

theorem Deletes.none (hdel : h'.deleted = h.deleted)
    (hlive : ∀ a, h'.counterOf a = none ↔ h.counterOf a = none) (hown : ∀ a, own a ≤ own' a) :
    Deletes h h' none own own' := by
  refine ⟨fun a ↦ ?_, fun a ha ha' ↦ ?_, fun a ↦ ?_⟩
  · have := hown a
    rw [hdel, if_neg (by omega), Nat.add_zero]
  · have := hown a
    omega
  · have := hown a
    have hlast : ¬(own a = 1 ∧ own' a = 0) := by omega
    simp [hlive, hlast]

theorem Deletes.decrease {p q : Option Addr}
    (hown : ∀ a, own' a + pointsTo p a = own a + pointsTo q a) (hp : ∀ a, pointsTo p a ≤ own a)
    (hdel : h'.deleted = deletedAfter h own' p)
    (hlive : ∀ a, h'.counterOf a = Option.none ↔
      h.counterOf a = Option.none ∨ (p = some a ∧ own' a = 0)) :
    Deletes h h' Option.none own own' := by
  have hlast : ∀ a, (own a = 1 ∧ own' a = 0) ↔ (p = some a ∧ own' a = 0) := fun a ↦ by
    have ha := hown a
    have hpa := hp a
    constructor
    · rintro ⟨hone, hzero⟩
      refine ⟨?_, hzero⟩
      by_contra hne
      rw [pointsTo, if_neg hne] at ha
      omega
    · rintro ⟨rfl, hzero⟩
      rw [pointsTo_self] at ha hpa
      exact ⟨by omega, hzero⟩
  refine ⟨fun a ↦ ?_, fun a hne hzero ↦ ?_, fun a ↦ ?_⟩
  · simp only [hlast, hdel]
    cases p with
    | none => simp [deletedAfter]
    | some b =>
      by_cases hab : b = a
      · subst hab
        by_cases hzero : own' b = 0 <;> simp [deletedAfter, hzero]
      · rw [if_neg fun h ↦ hab (Option.some.inj h.1), Nat.add_zero, deletedAfter]
        split
        · rw [List.count_cons_of_ne hab]
        · rfl
  · refine ((hlast a).mpr ⟨?_, hzero⟩).1
    by_contra hpa
    have ha := hown a
    rw [pointsTo, if_neg hpa] at ha
    omega
  · simp [hlive, hlast]

end

end TYThread
