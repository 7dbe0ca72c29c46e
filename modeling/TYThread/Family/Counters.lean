import TYThread.Family.Refinement

/-!
# Reference counts along a run

After any run every counter is the number of owners of its object, as long as there are fewer than
`2 ^ 32` of them, and every object that was made has either been deleted once or is still live. An
operation deletes exactly the objects that it takes the last owner from.
-/

namespace TYThread

open Transition

/-- How often an object has been made at the address `a`. -/
def timesCreated (ops : List Op) (a : Addr) : ℕ := (ops.map Op.created).count (some a)

/-- `1` for a live object. -/
def Heap.alive (h : Heap) (a : Addr) : ℕ := if h.counterOf a = none then 0 else 1

section

variable {w w' : World} {xs xs' : ℕ → List Addr} {op : Op} {a : Addr}

theorem Op.Pre.not_live (hpre : op.Pre w) (ha : op.created = some a) :
    w.heap.counterOf a = none := by
  have hobj : w.heap.obj a = none := by
    cases op with
    | newObject b =>
      obtain rfl := Option.some.inj ha
      exact hpre
    | makeRefPtr h b =>
      obtain rfl := Option.some.inj ha
      exact hpre.2
    | _ => simp [Op.created] at ha
  rw [Heap.counterOf, hobj]
  rfl

/-- **One operation** keeps the balance of objects made, deleted and live. -/
theorem StepOk.balance (hstep : StepOk w w' xs xs' op) (hok : w.Ok xs) (hpre : op.Pre w) :
    w'.heap.deleted.count a + w'.heap.alive a
      = w.heap.deleted.count a + w.heap.alive a + if op.created = some a then 1 else 0 := by
  have hlive := hstep.deletes.live a
  rw [hstep.deletes.count, Heap.alive, Heap.alive]
  by_cases hnone : w.heap.counterOf a = none
  · -- What is not live has no owner to lose.
    have hzero : ownersOf w.handles xs a = 0 := by
      by_contra hne
      exact hok.counted.live a hne hnone
    by_cases hcreated : op.created = some a <;>
      simp [hlive, hnone, hzero, hcreated]
  · have hcreated : op.created ≠ some a := fun h ↦ hnone (hpre.not_live h)
    rw [if_neg hnone, if_neg hcreated]
    by_cases hlast : ownersOf w.handles xs a = 1 ∧ ownersOf w'.handles xs' a = 0
    · rw [if_pos hlast, if_pos (hlive.mpr (Or.inr hlast))]
    · rw [if_neg hlast, if_neg]
      rw [hlive]
      rintro (⟨h, -⟩ | h)
      · exact hnone h
      · exact hlast h

end

/-- **Reference counts are exact.** After any run the counter of an object is the number of its
owners, an object with an owner is live, and each of the objects made at an address is deleted once
or still live. Every further operation that is called as it should be has a result, does to the
handles what the language says, and deletes the objects that it takes the last owner from, each of
them once, and no other. -/
theorem counters_exact {ids : Finset ℕ} {ops : List Op} {w : World}
    (hrun : Run (World.Step id) (World.initial ids) ops w) :
    (∀ a c, w.owners a < unsignedRange → w.heap.counterOf a = some c → c = w.owners a) ∧
    (∀ a, w.owners a ≠ 0 → w.heap.counterOf a ≠ none) ∧
    (∀ a, w.heap.deleted.count a + w.heap.alive a = timesCreated ops a) ∧
    ∀ op : Op, op.Pre w → ∃ w', op.exec id w = some w' ∧ w'.handles = op.handlesAfter w ∧
      Deletes w.heap w'.heap op.created w.owners w'.owners := by
  have hbalance : (∃ xs, w.Ok xs) ∧
      ∀ a, w.heap.deleted.count a + w.heap.alive a = timesCreated ops a := by
    induction hrun with
    | refl => exact ⟨⟨_, World.Ok.initial ids⟩, fun a ↦ rfl⟩
    | snoc _ last ih =>
      obtain ⟨⟨xs, hok⟩, hcount⟩ := ih
      obtain ⟨xs', hstep⟩ := hok.of_step last
      refine ⟨⟨xs', hstep.ok⟩, fun a ↦ ?_⟩
      rw [hstep.balance hok last.1, hcount, timesCreated, timesCreated, List.map_append,
        List.count_append, List.map_singleton, List.count_singleton]
      simp
  obtain ⟨⟨xs, hok⟩, hcount⟩ := hbalance
  refine ⟨fun a c hlt hc ↦ ?_, ?_, hcount, fun op hpre ↦ ?_⟩
  · rw [hok.owners_eq] at hlt ⊢
    rw [hok.counted.counter a c hc, Nat.mod_eq_of_lt hlt]
  · rw [hok.owners_eq]
    exact hok.counted.live
  · obtain ⟨w', xs', hexec, hstep⟩ := hok.step hpre
    rw [hok.owners_eq]
    refine ⟨w', hexec, Op.exec_handles hexec, ?_⟩
    rw [hstep.ok.owners_eq]
    exact hstep.deletes

/-- The object `7` is shared by two handles and a list, which gives it away. One handle is assigned
the object `8`, the other one null, and the third owner is dequeued. Then that one is assigned the
object `8` too, by a move. -/
def sharedOps : List Op :=
  [.makeRefPtr 0 7, .copyConstruct 1 0, .enqueueCopy 0 0, .dequeueHalf 0 1, .makeRefPtr 2 8,
    .copyAssign 1 2, .copyAssign 0 0, .nullAssign 0, .dequeue 1 3, .moveAssign 3 2, .destroy 1]

theorem World.owners_lt {w : World} {n : ℕ} (hfree : ∀ i, w.handles (i + n) = none)
    (hn : n + 1 < unsignedRange) (a : Addr) : w.owners a < unsignedRange := by
  have hsub : {i | w.handles i = some (some a)} ⊆ ↑(Finset.range n) := fun i hi ↦ by
    by_contra hge
    rw [Finset.coe_range, Set.mem_Iio, not_lt] at hge
    obtain ⟨d, rfl⟩ := Nat.exists_eq_add_of_le' hge
    exact absurd ((hfree d).symm.trans hi) (by simp)
  have hcard := Set.ncard_le_ncard hsub (Finset.finite_toSet _)
  rw [Set.ncard_coe_finset, Finset.card_range] at hcard
  have hone : Counting.indicator (w.Linked a) ≤ 1 := Counting.indicator_le_one _
  rw [World.owners, Counting.holders]
  omega

theorem sharedOps_run :
    ∃ w, Run (World.Step id) (World.initial {0}) sharedOps w ∧ w.heap.deleted = [7] ∧
      w.handles 3 = some (some 8) ∧ w.heap.counterOf 8 = some 1 ∧
      ∀ i, w.handles (i + 4) = none := by
  refine ⟨_, .snoc (.snoc (.snoc (.snoc (.snoc (.snoc (.snoc (.snoc (.snoc (.snoc (.snoc .refl
    ⟨⟨rfl, rfl⟩, rfl⟩) ⟨⟨rfl, _, rfl⟩, rfl⟩)
    ⟨⟨⟨_, rfl⟩, 7, rfl, World.not_linked_initial (by rfl) 7⟩, rfl⟩) ⟨⟨⟨_, rfl⟩, rfl⟩, rfl⟩)
    ⟨⟨rfl, rfl⟩, rfl⟩) ⟨⟨⟨_, rfl⟩, _, rfl, ?_⟩, rfl⟩) ⟨⟨⟨_, rfl⟩, _, rfl, ?_⟩, rfl⟩)
    ⟨⟨_, rfl, ?_⟩, rfl⟩) ⟨⟨⟨_, rfl⟩, rfl⟩, rfl⟩) ⟨⟨⟨_, rfl⟩, _, rfl, ?_⟩, rfl⟩) ⟨⟨_, rfl, ?_⟩, rfl⟩,
    rfl, rfl, rfl, fun i ↦ rfl⟩
  all_goals exact fun a _ ↦ World.owners_lt (n := 4) (fun i ↦ rfl) (by decide) a

/-- The object `7` has been deleted once and the object `8` has one owner left. The destruction of
this handle deletes it. -/
theorem counters_exact_sharedOps :
    ∃ w w', Run (World.Step id) (World.initial {0}) sharedOps w ∧ w.heap.deleted = [7] ∧
      w.heap.deleted.count 7 + w.heap.alive 7 = 1 ∧ w.heap.counterOf 8 = some 1 ∧ w.owners 8 = 1 ∧
      (Op.destroy 3).exec id w = some w' ∧ w'.handles = Function.update w.handles 3 none ∧
      Deletes w.heap w'.heap none w.owners w'.owners := by
  obtain ⟨w, hrun, hdeleted, hhandle, hcounter, hfree⟩ := sharedOps_run
  have hlt := World.owners_lt (n := 4) hfree (by decide)
  obtain ⟨hcounters, -, htimes, hnext⟩ := counters_exact hrun
  obtain ⟨w', hexec, hhandles, hdeletes⟩ := hnext (.destroy 3) ⟨_, hhandle, fun a _ ↦ hlt a⟩
  exact ⟨w, w', hrun, hdeleted, htimes 7, hcounter, (hcounters 8 1 (hlt 8) hcounter).symm, hexec,
    hhandles, hdeletes⟩

end TYThread
