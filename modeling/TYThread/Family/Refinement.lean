import TYThread.Family.Filling

/-!
# A family of skip lists is a family of queues

What `Skiplist` is for: seen through the elements that are met by following `next` from `head`, a
family of lists is a family of first-in first-out queues that can be split. Every operation, called
as it should be, has a result, and is the step of the queues that `Op.label` names.
-/

namespace TYThread

open LinkedList Transition

/-- The queues `q` are the contents of the lists of `w`, and `size` counts them. -/
structure World.Abstracts (w : World) (q : SplitQueue.State ℕ Addr) : Prop where
  same : ∀ l, w.lists l = none ↔ q l = none
  contents : ∀ l s xs, w.lists l = some s → q l = some xs → Chain w.heap.nextOf s.head xs
  size : ∀ l s xs, w.lists l = some s → q l = some xs → s.size = xs.length

/-- The queues at the start of a run. -/
def emptyQueues (ids : Finset ℕ) : SplitQueue.State ℕ Addr :=
  fun l ↦ if l ∈ ids then some [] else none

theorem emptyQueues_distinct (ids : Finset ℕ) : SplitQueue.Distinct (emptyQueues ids) := by
  apply SplitQueue.distinct_of_empty
  intro l ys hl
  obtain ⟨-, hys⟩ := Option.ite_none_right_eq_some.mp hl
  exact (Option.some.inj hys).symm

section

variable {w : World} {xs : ℕ → List Addr}

theorem World.Ok.abstracts (hok : w.Ok xs) : w.Abstracts (w.queues xs) := by
  obtain ⟨S, hlists⟩ := hok.lists
  refine ⟨fun l ↦ ?_, fun l s ys hl hq ↦ ?_, fun l s ys hl hq ↦ ?_⟩
  · rw [World.queues, Option.map_eq_none_iff]
  · obtain ⟨-, rfl⟩ := World.queues_eq_some hq
    exact (hlists.holds l s hl).chain
  · obtain ⟨-, rfl⟩ := World.queues_eq_some hq
    exact (hlists.holds l s hl).size

theorem World.queues_initial (ids : Finset ℕ) :
    (World.initial ids).queues (fun _ ↦ []) = emptyQueues ids := by
  funext l
  rw [World.queues, World.initial, emptyQueues]
  by_cases hl : l ∈ ids <;> simp [hl]

end

/-- **Refinement.** A run of operations on a family of empty lists is a run of as many operations on
empty queues, and afterwards the lists hold the contents of the queues, in which no element occurs
twice. Every further operation that is called as it should be has a result again, and does to the
contents what the step of the queues says, with the results that `Op.label` reads off. -/
theorem skiplists_refine_queues {ids : Finset ℕ} {ops : List Op} {w : World}
    (hrun : Run (World.Step id) (World.initial ids) ops w) :
    ∃ ls q, ls.length = ops.length ∧ Run SplitQueue.Step (emptyQueues ids) ls q ∧
      w.Abstracts q ∧ SplitQueue.Distinct q ∧
      ∀ op : Op, op.Pre w → ∃ w' q', op.exec id w = some w' ∧
        SplitQueue.Step q (op.label w w') q' ∧ w'.Abstracts q' ∧ SplitQueue.Distinct q' := by
  -- The queues of a world that is in order are its abstract state.
  have hstart : ∃ xs, (World.initial ids).Ok xs ∧ emptyQueues ids = (World.initial ids).queues xs :=
    ⟨_, World.Ok.initial ids, (World.queues_initial ids).symm⟩
  obtain ⟨ls, q, hlen, hqueues, xs, hok, rfl⟩ := hrun.simulate
    (R := fun w q ↦ ∃ xs, w.Ok xs ∧ q = w.queues xs) (f := fun w op w' ↦ op.label w w') hstart <| by
      rintro w op w' q ⟨xs, hok, rfl⟩ hstep
      obtain ⟨xs', hstep'⟩ := hok.of_step hstep
      exact ⟨w'.queues xs', hstep'.queue, xs', hstep'.ok, rfl⟩
  -- That nothing occurs twice is a fact about the queues alone.
  have hdistinct : SplitQueue.Distinct (w.queues xs) :=
    SplitQueue.run_distinct hqueues (emptyQueues_distinct ids)
  refine ⟨ls, w.queues xs, hlen, hqueues, hok.abstracts, hdistinct, fun op hpre ↦ ?_⟩
  obtain ⟨w', xs', hexec, hstep⟩ := hok.step hpre
  exact ⟨w', w'.queues xs', hexec, hstep.queue, hstep.ok.abstracts,
    hstep.queue.distinct hdistinct⟩

theorem World.Abstracts.eq_of_contents {w : World} {q : SplitQueue.State ℕ Addr} (h : w.Abstracts q)
    {l : ℕ} {xs : List Addr} (hxs : w.Contents l xs) : q l = some xs := by
  obtain ⟨s, hs, hchain⟩ := id hxs
  cases hq : q l with
  | none =>
    rw [(h.same l).mpr hq] at hs
    cases hs
  | some ys => rw [hxs.unique ⟨s, hs, h.contents l s ys hs hq⟩]

/-- Of `200` elements, `128` are given away by nodes. The queue that takes them over loses its first
element, and with it a node. -/
theorem skiplists_refine_queues_stealOps :
    ∃ w ls q, Run (World.Step id) (World.initial {0, 2}) (stealOps 200) w ∧ ls.length = 603 ∧
      Run SplitQueue.Step (emptyQueues {0, 2}) ls q ∧ w.Abstracts q ∧ SplitQueue.Distinct q ∧
      q 0 = some (List.range' 128 72) ∧ q 1 = some [] ∧ q 2 = some (List.range' 1 127) ∧
      w.handles 0 = some (some 0) := by
  obtain ⟨w, s, t, hrun, hstolen⟩ := stealOps_run (n := 200) (by decide) (by decide)
  obtain ⟨ls, q, hlen, hqueues, habs, hdistinct, -⟩ := skiplists_refine_queues hrun
  rw [length_stealOps] at hlen
  exact ⟨w, ls, q, hrun, hlen, hqueues, habs, hdistinct, habs.eq_of_contents hstolen.contents_rest,
    habs.eq_of_contents hstolen.contents_empty, habs.eq_of_contents hstolen.contents_given,
    hstolen.handle⟩

end TYThread
