import Mathlib.Data.Nat.Notation
import Mathlib.Logic.Basic

/-!
# Runs of labelled transition systems

A system is a relation `step : State → Label → State → Prop`. Its runs are finite and carry the list
of their labels. An invariant is proved for one step and used for a whole run, and so is a measure
or a forward simulation.
-/

namespace Transition

variable {State Label : Type*}

/-- `Run step s ls t`: the steps `ls`, first to last, lead from `s` to `t`. -/
inductive Run (step : State → Label → State → Prop) (s : State) : List Label → State → Prop
  | refl : Run step s [] s
  | snoc {ls : List Label} {t u : State} {l : Label} (run : Run step s ls t) (last : step t l u) :
      Run step s (ls ++ [l]) u

/-- `t` is reached from `s` by some run. -/
def Reachable (step : State → Label → State → Prop) (s t : State) : Prop := ∃ ls, Run step s ls t

variable {step step' : State → Label → State → Prop} {s t u : State} {ls : List Label} {l : Label}

theorem Reachable.refl (step : State → Label → State → Prop) (s : State) : Reachable step s s :=
  ⟨[], .refl⟩

theorem Reachable.snoc (h : Reachable step s t) (last : step t l u) : Reachable step s u := by
  obtain ⟨ls, hrun⟩ := h
  exact ⟨ls ++ [l], hrun.snoc last⟩

theorem Run.trans {ms : List Label} (h : Run step s ls t) (h' : Run step t ms u) :
    Run step s (ls ++ ms) u := by
  induction h' with
  | refl => rwa [List.append_nil]
  | snoc _ last ih =>
    rw [← List.append_assoc]
    exact ih.snoc last

theorem Reachable.trans (h : Reachable step s t) (h' : Reachable step t u) :
    Reachable step s u := by
  obtain ⟨ls, hrun⟩ := h
  obtain ⟨ms, hrun'⟩ := h'
  exact ⟨ls ++ ms, hrun.trans hrun'⟩

/-- A run that is given by its states and labels. -/
theorem Reachable.of_path {state : ℕ → State} {label : ℕ → Label} {m : ℕ}
    (hstep : ∀ n < m, step (state n) (label n) (state (n + 1))) :
    Reachable step (state 0) (state m) := by
  induction m with
  | zero => exact .refl step (state 0)
  | succ m ih =>
    exact (ih fun n hn ↦ hstep n (Nat.lt_succ_of_lt hn)).snoc (hstep m (Nat.lt_succ_self m))

/-- What holds at the start and is preserved by every step holds at the end of every run. -/
theorem Run.invariant {I : State → Prop} (h : Run step s ls t) (hs : I s)
    (hstep : ∀ t l u, I t → step t l u → I u) : I t := by
  induction h with
  | refl => exact hs
  | snoc _ last ih => exact hstep _ _ _ ih last

theorem Reachable.invariant {I : State → Prop} (h : Reachable step s t) (hs : I s)
    (hstep : ∀ t l u, I t → step t l u → I u) : I t := by
  obtain ⟨ls, hrun⟩ := h
  exact hrun.invariant hs hstep

/-- What holds of the label of every step holds of all labels of a run. -/
theorem Run.forall_label {P : Label → Prop} (h : Run step s ls t)
    (hstep : ∀ t l u, step t l u → P l) : ∀ l ∈ ls, P l := by
  induction h with
  | refl => simp
  | snoc _ last ih =>
    intro l hl
    rcases List.mem_append.mp hl with hl | hl
    · exact ih l hl
    · rw [List.mem_singleton.mp hl]
      exact hstep _ _ _ last

/-- A run whose steps are steps of another system, given an invariant of the first one. -/
theorem Run.mono {I : State → Prop} (h : Run step s ls t) (hs : I s)
    (hstep : ∀ t l u, I t → step t l u → step' t l u ∧ I u) : Run step' s ls t ∧ I t := by
  induction h with
  | refl => exact ⟨.refl, hs⟩
  | snoc _ last ih =>
    obtain ⟨hrun, hI⟩ := ih
    obtain ⟨hlast, hI'⟩ := hstep _ _ _ hI last
    exact ⟨hrun.snoc hlast, hI'⟩

section Measure

variable {I Final : State → Prop} {f : State → ℕ}

/-- **A bound for all runs.** Every step makes `f` less, but for the steps `paid`, and these make it
greater by less than `c`. -/
theorem Run.length_le [DecidableEq Label] {c : ℕ} {paid : Label} (h : Run step s ls t) (hs : I s)
    (hstep : ∀ t l u, I t → step t l u → I u ∧ f u + 1 ≤ f t + if l = paid then c else 0) :
    I t ∧ ls.length + f t ≤ f s + c * ls.count paid := by
  induction h with
  | refl =>
    constructor
    · exact hs
    · simp
  | @snoc ls t u l _ last ih =>
    obtain ⟨hI, hle⟩ := ih
    obtain ⟨hI', hless⟩ := hstep t l u hI last
    refine ⟨hI', ?_⟩
    rw [List.length_append, List.length_singleton, List.count_append, Nat.mul_add,
      List.count_singleton]
    by_cases hl : l = paid
    · simp only [hl, if_true, beq_self_eq_true, Nat.mul_one] at hless ⊢
      omega
    · simp only [hl, if_false, beq_iff_eq, Nat.mul_zero] at hless ⊢
      omega

/-- **Coming to an end.** If every state that is not final has a step that makes `f` less, then a
final state can be reached. -/
theorem Reachable.exists_final (hs : I s)
    (hstep : ∀ t, I t → Final t ∨ ∃ l u, step t l u ∧ I u ∧ f u < f t) :
    ∃ t, Reachable step s t ∧ I t ∧ Final t := by
  induction hn : f s using Nat.strongRecOn generalizing s with
  | ind n ih =>
    rcases hstep s hs with hfinal | ⟨l, u, hlast, hu, hless⟩
    · exact ⟨s, .refl _ _, hs, hfinal⟩
    · obtain ⟨t, hrun, ht⟩ := ih (f u) (hn ▸ hless) hu rfl
      exact ⟨t, ((Reachable.refl _ _).snoc hlast).trans hrun, ht⟩

end Measure

section Infinite

variable {P : ℕ → ℕ → Prop} {Q T : ℕ → Prop} {n k : ℕ}

/-- **In an infinite run.** `P n k` says that something waits at the time `n`, with the rank `k`.
The rank never goes up, and it goes down at every turn, until `Q`. -/
theorem exists_of_turns (hkeep : ∀ n k, P n k → Q n ∨ ∃ k' ≤ k, P (n + 1) k')
    (hturn : ∀ n k, P n k → T n → Q n ∨ ∃ k' < k, P (n + 1) k')
    (hagain : ∀ n k, P n k → ∃ m ≥ n, T m) (h : P n k) : ∃ m ≥ n, Q m := by
  induction k using Nat.strongRecOn generalizing n with
  | ind k ih =>
    obtain ⟨m, hm, hnow⟩ := hagain n k h
    -- It waits until the turn comes, if `Q` does not come first.
    have hwaits : ∀ d, (∃ m' ≥ n, Q m') ∨ ∃ k' ≤ k, P (n + d) k' := by
      intro d
      induction d with
      | zero => exact Or.inr ⟨k, Nat.le_refl k, h⟩
      | succ d ihd =>
        rcases ihd with hdone | ⟨k', hk', hP⟩
        · exact Or.inl hdone
        · rcases hkeep (n + d) k' hP with hQ | ⟨k'', hk'', hP'⟩
          · exact Or.inl ⟨n + d, Nat.le_add_right n d, hQ⟩
          · exact Or.inr ⟨k'', Nat.le_trans hk'' hk', hP'⟩
    obtain ⟨d, rfl⟩ := Nat.exists_eq_add_of_le hm
    rcases hwaits d with hdone | ⟨k', hk', hP⟩
    · exact hdone
    · rcases hturn (n + d) k' hP hnow with hQ | ⟨k'', hk'', hP'⟩
      · exact ⟨n + d, hm, hQ⟩
      · obtain ⟨m', hm', hQ⟩ := ih k'' (Nat.lt_of_lt_of_le hk'' hk') hP'
        exact ⟨m', by omega, hQ⟩

end Infinite

section Simulation

variable {State' Label' : Type*} {astep : State' → Label' → State' → Prop}
  {R : State → State' → Prop} {f : State → Label → State → Label'}

/-- **Forward simulation.** If every step between related states is matched by a step of the
abstract system, then every run is. The abstract run passes through the abstract labels of the
steps. -/
theorem Run.simulate {a : State'} (h : Run step s ls t) (hs : R s a)
    (hstep : ∀ t l u b, R t b → step t l u → ∃ c, astep b (f t l u) c ∧ R u c) :
    ∃ ms b, ms.length = ls.length ∧ Run astep a ms b ∧ R t b := by
  induction h with
  | refl => exact ⟨[], a, rfl, .refl, hs⟩
  | snoc _ last ih =>
    obtain ⟨ms, b, hlen, hrun, hR⟩ := ih
    obtain ⟨c, hc, hR'⟩ := hstep _ _ _ _ hR last
    refine ⟨ms ++ [_], c, ?_, hrun.snoc hc, hR'⟩
    rw [List.length_append, List.length_append, hlen]
    rfl

end Simulation

end Transition
