import TYThread.Library.Counting
import TYThread.Memory

/-!
# Reference counts

`Counted h own` says that the counter of every live object is the number of its owners, where `own`
is whatever should be counted. `increase` and `decrease` are specified against it: the first makes
room for one more owner and the second gives one up, deleting the object with the last owner. The
counter is an `unsigned int`, so it only agrees with `own` modulo `2 ^ 32`, and the specification of
`decrease` needs fewer owners than that.
-/

namespace TYThread

/-- `1` for the object pointed to and `0` for every other one. -/
def pointsTo (p : Option Addr) (a : Addr) : ℕ := if p = some a then 1 else 0

@[simp] theorem pointsTo_none (a : Addr) : pointsTo none a = 0 := by
  simp [pointsTo]

@[simp] theorem pointsTo_self (a : Addr) : pointsTo (some a) a = 1 := if_pos rfl

theorem pointsTo_of_ne {a b : Addr} (h : b ≠ a) : pointsTo (some a) b = 0 :=
  if_neg fun heq ↦ h (Option.some.inj heq).symm

/-- The counters of the live objects are right, and what has an owner is live. -/
structure Counted (h : Heap) (own : Addr → ℕ) : Prop where
  counter : ∀ a c, h.counterOf a = some c → c = own a % unsignedRange
  live : ∀ a, own a ≠ 0 → h.counterOf a ≠ none

theorem Counted.congr {h h' : Heap} {own own' : Addr → ℕ} (hc : Counted h own)
    (hcount : h'.counterOf = h.counterOf) (hown : ∀ a, own' a = own a) : Counted h' own' := by
  obtain rfl : own' = own := funext hown
  exact ⟨by rw [hcount]; exact hc.counter, by rw [hcount]; exact hc.live⟩

theorem Heap.live_iff {h : Heap} {a : Addr} : h.counterOf a ≠ none ↔ ∃ q, h.nextOf a = some q := by
  cases ho : h.obj a <;> simp [counterOf, nextOf, ho]

theorem increase_counted {h : Heap} {own own' : Addr → ℕ} (hc : Counted h own) {p : Option Addr}
    (hlive : ∀ a, p = some a → h.counterOf a ≠ none) (hown : ∀ a, own' a = own a + pointsTo p a) :
    ∃ h', increase h p = some h' ∧ Heap.SameNodes h h' ∧ h'.nextOf = h.nextOf ∧
      Counted h' own' ∧ ∀ a, h'.counterOf a = none ↔ h.counterOf a = none := by
  cases p with
  | none =>
    exact ⟨h, rfl, ⟨rfl, rfl, rfl⟩, rfl, hc.congr rfl fun a ↦ by rw [hown, pointsTo_none]; rfl,
      fun _ ↦ Iff.rfl⟩
  | some a =>
    obtain ⟨c, hca⟩ := Option.ne_none_iff_exists'.mp (hlive a rfl)
    obtain ⟨h', hrun, hn, hnext, hcount⟩ := increase_spec hca
    refine ⟨h', hrun, hn, hnext, ⟨fun b d hd ↦ ?_, fun b hb ↦ ?_⟩, fun b ↦ ?_⟩
    · rw [hcount] at hd
      by_cases hba : b = a
      · subst hba
        rw [Function.update_self, Option.some.injEq] at hd
        rw [hown, pointsTo_self, ← hd, hc.counter b c hca, Nat.mod_add_mod]
      · rw [Function.update_of_ne hba] at hd
        rw [hown, pointsTo_of_ne hba, Nat.add_zero]
        exact hc.counter b d hd
    · rw [hcount]
      by_cases hba : b = a
      · rw [hba, Function.update_self]
        simp
      · rw [Function.update_of_ne hba]
        rw [hown, pointsTo_of_ne hba, Nat.add_zero] at hb
        exact hc.live b hb
    · rw [hcount]
      by_cases hba : b = a
      · rw [hba, Function.update_self, hca]
        simp
      · rw [Function.update_of_ne hba]

/-- The list of deleted objects after `decrease`. -/
def deletedAfter (h : Heap) (own' : Addr → ℕ) : Option Addr → List Addr
  | none => h.deleted
  | some a => if own' a = 0 then a :: h.deleted else h.deleted

/-- One owner less. The object is deleted exactly when it was the last one. -/
theorem decrease_counted {h : Heap} {own own' : Addr → ℕ} (hc : Counted h own) {p : Option Addr}
    (hown : ∀ a, own a = own' a + pointsTo p a) (hlt : ∀ a, p = some a → own' a < unsignedRange) :
    ∃ h', decrease h p = some h' ∧ h'.node = h.node ∧ h'.brk = h.brk ∧
      (∀ a, own' a ≠ 0 → h'.nextOf a = h.nextOf a) ∧ Counted h' own' ∧
      h'.deleted = deletedAfter h own' p ∧
      ∀ a, h'.counterOf a = none ↔ h.counterOf a = none ∨ (p = some a ∧ own' a = 0) := by
  cases p with
  | none =>
    exact ⟨h, rfl, rfl, rfl, fun _ _ ↦ rfl, hc.congr rfl fun a ↦ by rw [hown, pointsTo_none]; rfl,
      rfl, fun a ↦ by simp⟩
  | some a =>
    have hpos : own a ≠ 0 := by rw [hown, pointsTo_self]; omega
    obtain ⟨c, hca⟩ := Option.ne_none_iff_exists'.mp (hc.live a hpos)
    obtain ⟨o, ho, hoc⟩ : ∃ o, h.obj a = some o ∧ o.counter = c := by
      simpa [Heap.counterOf] using hca
    have hnew : unsignedPred o.counter = own' a := by
      rw [hoc, hc.counter a c hca, hown, pointsTo_self, unsignedPred_succ (hlt a rfl)]
    have hother : ∀ b, b ≠ a → own b = own' b := fun b hb ↦ by
      rw [hown, pointsTo_of_ne hb, Nat.add_zero]
    by_cases hzero : own' a = 0
    · refine ⟨deleteObj h a, ?_, rfl, rfl, fun b hb ↦ ?_, ⟨fun b d hd ↦ ?_, fun b hb ↦ ?_⟩, ?_,
        fun b ↦ ?_⟩
      · simp only [decrease, ho, Option.bind_eq_bind, Option.bind_some, hnew, if_pos hzero,
          Option.pure_def]
      · have hba : b ≠ a := fun heq ↦ hb (by rw [heq, hzero])
        rw [Heap.nextOf, deleteObj_obj, Function.update_of_ne hba, Heap.nextOf]
      · have hba : b ≠ a := by
          rintro rfl
          simp [Heap.counterOf, deleteObj] at hd
        rw [Heap.counterOf, deleteObj_obj, Function.update_of_ne hba] at hd
        rw [← hother b hba]
        exact hc.counter b d hd
      · have hba : b ≠ a := fun heq ↦ hb (by rw [heq, hzero])
        rw [Heap.counterOf, deleteObj_obj, Function.update_of_ne hba]
        exact hc.live b (by rwa [hother b hba])
      · rw [deletedAfter, if_pos hzero, deleteObj]
      · rw [Heap.counterOf, deleteObj_obj]
        by_cases hba : b = a
        · simp [hba, hzero]
        · rw [Function.update_of_ne hba, Heap.counterOf]
          simp [Ne.symm hba]
    · refine ⟨h.setObj a (some { o with counter := own' a }), ?_, rfl, rfl, fun b _ ↦ ?_,
        ⟨fun b d hd ↦ ?_, fun b hb ↦ ?_⟩, ?_, fun b ↦ ?_⟩
      · simp only [decrease, ho, Option.bind_eq_bind, Option.bind_some, hnew, if_neg hzero,
          Option.pure_def]
      · rw [Heap.nextOf, Heap.setObj_obj, Heap.nextOf]
        by_cases hba : b = a
        · rw [hba, Function.update_self, ho]
          rfl
        · rw [Function.update_of_ne hba]
      · rw [Heap.counterOf, Heap.setObj_obj] at hd
        by_cases hba : b = a
        · subst hba
          rw [Function.update_self, Option.map_some, Option.some.injEq] at hd
          rw [← hd, Nat.mod_eq_of_lt (hlt b rfl)]
        · rw [Function.update_of_ne hba] at hd
          rw [← hother b hba]
          exact hc.counter b d hd
      · rw [Heap.counterOf, Heap.setObj_obj]
        by_cases hba : b = a
        · rw [hba, Function.update_self]
          simp
        · rw [Function.update_of_ne hba]
          exact hc.live b (by rwa [hother b hba])
      · rw [deletedAfter, if_neg hzero, Heap.setObj_deleted]
      · rw [Heap.counterOf, Heap.setObj_obj]
        by_cases hba : b = a
        · simp [hba, hzero, hca]
        · rw [Function.update_of_ne hba, Heap.counterOf]
          simp [Ne.symm hba]

end TYThread
