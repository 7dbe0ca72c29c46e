import Mathlib.Data.List.Count
import Mathlib.Logic.Function.Basic
import TYThread.Group.Model

/-!
# The table of a task's groups

A task keeps the groups it is registered in in an array of `max_groups` pointers, and `cur_groups`
is the number of those in use. `addToGroup` writes `groups[cur_groups++]` behind a `MUST_TRUE` that
expands to nothing, so nothing keeps the index within the array. A write past the end has no result
here: in memory it goes to `cur_groups` itself, the bound of the loop in `terminate`.

`registrations_answered_iff` says what this leaves of the table: it works for a task that is
registered at most `max_groups` times before it terminates. For such a task the table is the list
`Task.groups`.
-/

namespace TYThread

/-- The fields of a `Task` that `addToGroup` and `terminate` use. -/
structure GroupTable where
  state : TaskState
  groups : Vector ℕ maxGroups
  curGroups : ℕ

namespace GroupTable

variable (a : GroupTable) (gp : ℕ → TaskGroup)

/-- The entries in use. -/
def entries : List ℕ := a.groups.toList.take a.curGroups

/-- The task, with its groups as a list. -/
def toTask : Task := { state := a.state, groups := a.entries }

/-- `groups[cur_groups++] = g`. -/
def put (g : ℕ) : Option GroupTable :=
  if h : a.curGroups < maxGroups then
    some { a with groups := a.groups.set a.curGroups g h, curGroups := a.curGroups + 1 }
  else none

/-- `addToGroup`: the task and the groups afterwards, and whether the task was accepted. -/
def addToGroup (g : ℕ) : Option (GroupTable × (ℕ → TaskGroup) × Bool) :=
  if a.state = .terminated then some (a, gp, false)
  else do
    let a ← a.put g
    return (a, Function.update gp g { gp g with blockingCount := (gp g).blockingCount + 1 }, true)

/-- The loop of `terminate` from entry `i` on, with `n` entries left: the groups afterwards, and
those whose `informDone` has been called. -/
def informAll : ℕ → ℕ → (ℕ → TaskGroup) → Option ((ℕ → TaskGroup) × List ℕ)
  | 0, _, gp => some (gp, [])
  | n + 1, i, gp => do
    let g ← a.groups[i]?
    let (gp, informed) ← informAll n (i + 1) (Function.update gp g (gp g).informDone.1)
    return (gp, g :: informed)

/-- `terminate`. -/
def terminate : Option (GroupTable × (ℕ → TaskGroup) × List ℕ) := do
  let (gp, informed) ← a.informAll a.curGroups 0 gp
  return ({ a with state := .terminated }, gp, informed)

/-- A sequence of calls of `addToGroup`: the task and the groups afterwards, and the groups for
which it returned true. -/
def addAll : List ℕ → GroupTable → (ℕ → TaskGroup) →
    Option (GroupTable × (ℕ → TaskGroup) × List ℕ)
  | [], a, gp => some (a, gp, [])
  | g :: gs, a, gp => do
    let (a, gp, accepted) ← a.addToGroup gp g
    let (a, gp, rest) ← addAll gs a gp
    return (a, gp, if accepted then g :: rest else rest)

/-- Every write of the calls is within the array, each registration that was accepted is answered by
one call of `informDone`, and so each `blocking_count` is lowered by what it was raised by. The
groups `late` are those the task is to be registered in after it has terminated. -/
def Answered (gs late : List ℕ) : Prop :=
  ∃ a₁ gp₁ accepted a₂ gp₂ informed, addAll gs a gp = some (a₁, gp₁, accepted) ∧
    a₁.terminate gp₁ = some (a₂, gp₂, informed) ∧
    addAll late a₂ gp₂ = some (a₂, gp₂, []) ∧
    (∀ g, informed.count g = accepted.count g) ∧
    (∀ g, (gp₁ g).blockingCount = (gp g).blockingCount + accepted.count g) ∧
    ∀ g, (gp₂ g).blockingCount = (gp g).blockingCount

end GroupTable

section

variable {a : GroupTable} {gp : ℕ → TaskGroup}

namespace GroupTable

theorem length_entries (hle : a.curGroups ≤ maxGroups) : a.entries.length = a.curGroups := by
  rw [entries, List.length_take, Vector.length_toList, Nat.min_eq_left hle]

theorem getElem?_entries {i : ℕ} (hi : i < a.curGroups) : a.entries[i]? = a.groups[i]? := by
  rw [entries, List.getElem?_take_of_lt hi, Vector.getElem?_toList]

theorem put_spec (hroom : a.curGroups < maxGroups) (g : ℕ) :
    ∃ a', a.put g = some a' ∧ a'.state = a.state ∧ a'.curGroups = a.curGroups + 1 ∧
      a'.entries = a.entries ++ [g] := by
  refine ⟨_, dif_pos hroom, rfl, rfl, ?_⟩
  have hlen : a.curGroups < a.groups.toList.length := by rwa [Vector.length_toList]
  rw [entries, Vector.toList_set, List.take_add_one, List.take_set_of_le (Nat.le_refl _),
    List.getElem?_set_self hlen, Option.toList_some, entries]

theorem toTask_isFini (hlive : a.state ≠ .terminated) : a.toTask.isFini = false := by
  rw [Task.isFini, toTask, beq_eq_false_iff_ne]
  exact hlive

/-- **Refinement.** While there is room the table does what `Task.addToGroup` does to a list. -/
theorem addToGroup_refines (hroom : a.curGroups < maxGroups) (g : ℕ) :
    ∃ a', a.addToGroup gp g = some (a', Function.update gp g (a.toTask.addToGroup g (gp g)).2.1,
        (a.toTask.addToGroup g (gp g)).2.2) ∧
      a'.toTask = (a.toTask.addToGroup g (gp g)).1 ∧ a'.state = a.state ∧
      a'.curGroups = a.curGroups + if a.state = .terminated then 0 else 1 := by
  by_cases hfini : a.state = .terminated
  · have hrejected : a.toTask.addToGroup g (gp g) = (a.toTask, gp g, false) :=
      if_pos (by rw [Task.isFini, toTask, hfini]; rfl)
    refine ⟨a, ?_, by rw [hrejected], rfl, by rw [if_pos hfini, Nat.add_zero]⟩
    rw [addToGroup, if_pos hfini, hrejected, Function.update_eq_self]
  · have haccepted := Task.addToGroup_of_live (toTask_isFini hfini) g (gp g)
    obtain ⟨a', hput, hstate, hcur, hentries⟩ := put_spec hroom g
    refine ⟨a', ?_, ?_, hstate, by rw [hcur, if_neg hfini]⟩
    · rw [addToGroup, if_neg hfini, hput, haccepted]
      rfl
    · rw [haccepted, toTask, hstate, hentries]
      rfl

theorem addAll_spec {gs : List ℕ} (hlive : a.state ≠ .terminated)
    (hroom : a.curGroups + gs.length ≤ maxGroups) :
    ∃ a' gp', addAll gs a gp = some (a', gp', gs) ∧ a'.curGroups = a.curGroups + gs.length ∧
      a'.entries = a.entries ++ gs ∧
      ∀ g, (gp' g).blockingCount = (gp g).blockingCount + gs.count g := by
  induction gs generalizing a gp with
  | nil => exact ⟨a, gp, rfl, rfl, (List.append_nil _).symm, fun g ↦ by simp⟩
  | cons x xs ih =>
    rw [List.length_cons] at hroom
    obtain ⟨a₁, hadd₁, htask, hstate, hcur⟩ := @addToGroup_refines a gp (by omega) x
    rw [Task.addToGroup_of_live (toTask_isFini hlive)] at hadd₁ htask
    rw [if_neg hlive] at hcur
    have hentries : a₁.entries = a.entries ++ [x] := congrArg Task.groups htask
    obtain ⟨a₂, gp₂, hadd, hcur₂, hentries₂, hcount⟩ := @ih a₁
      (Function.update gp x { gp x with blockingCount := (gp x).blockingCount + 1 })
      (by rwa [hstate]) (by omega)
    refine ⟨a₂, gp₂, ?_, by rw [hcur₂, hcur, List.length_cons]; omega,
      by rw [hentries₂, hentries, List.append_assoc, List.singleton_append], fun g ↦ ?_⟩
    · rw [addAll, hadd₁]
      simp only [Option.bind_eq_bind, Option.bind_some, Option.pure_def]
      rw [hadd]
      rfl
    · rw [hcount]
      by_cases hg : g = x
      · subst hg
        rw [Function.update_self, List.count_cons_self]
        push_cast
        omega
      · rw [Function.update_of_ne hg, List.count_cons_of_ne (Ne.symm hg)]

/-- One registration too many. -/
theorem addAll_overflow {gs : List ℕ} (hlive : a.state ≠ .terminated)
    (hle : a.curGroups ≤ maxGroups) (hmany : maxGroups < a.curGroups + gs.length) :
    addAll gs a gp = none := by
  induction gs generalizing a gp with
  | nil => exact absurd hmany (Nat.not_lt.mpr hle)
  | cons x xs ih =>
    rw [List.length_cons] at hmany
    rw [addAll, addToGroup, if_neg hlive]
    by_cases hroom : a.curGroups < maxGroups
    · obtain ⟨a₁, hput, hstate, hcur, -⟩ := put_spec hroom x
      rw [hput]
      simp only [Option.bind_eq_bind, Option.bind_some, Option.pure_def]
      rw [ih (by rwa [hstate]) (by omega) (by omega)]
      rfl
    · rw [put, dif_neg hroom]
      rfl

theorem addAll_terminated (hfini : a.state = .terminated) (gs : List ℕ) :
    addAll gs a gp = some (a, gp, []) := by
  induction gs with
  | nil => rfl
  | cons x xs ih =>
    rw [addAll, addToGroup, if_pos hfini]
    simp only [Option.bind_eq_bind, Option.bind_some, Option.pure_def]
    rw [ih]
    rfl

theorem blockingCount_informDone (g : TaskGroup) :
    g.informDone.1.blockingCount = g.blockingCount - 1 := by
  rw [TaskGroup.informDone]
  split <;> rfl

/-- The loop of `terminate` informs the entries one after the other. -/
theorem informAll_spec {n i : ℕ} (hle : a.curGroups ≤ maxGroups) (hn : i + n = a.curGroups) :
    ∃ gp', a.informAll n i gp = some (gp', a.entries.drop i) ∧
      ∀ g, (gp' g).blockingCount = (gp g).blockingCount - (a.entries.drop i).count g := by
  induction n generalizing i gp with
  | zero =>
    have hnil : a.entries.drop i = [] := List.drop_eq_nil_of_le (by rw [length_entries hle]; omega)
    exact ⟨gp, by rw [informAll, hnil], fun g ↦ by simp [hnil]⟩
  | succ n ih =>
    have hi : i < a.entries.length := by rw [length_entries hle]; omega
    have hget : a.groups[i]? = some a.entries[i] := by
      rw [← getElem?_entries (by omega), List.getElem?_eq_getElem hi]
    obtain ⟨gp', hrun, hcount⟩ := @ih
      (Function.update gp a.entries[i] (gp a.entries[i]).informDone.1) (i + 1) (by omega)
    refine ⟨gp', ?_, fun g ↦ ?_⟩
    · rw [informAll, hget]
      simp only [Option.bind_eq_bind, Option.bind_some, Option.pure_def]
      rw [hrun, List.drop_eq_getElem_cons hi]
      rfl
    · rw [hcount, List.drop_eq_getElem_cons hi]
      by_cases hg : g = a.entries[i]
      · subst hg
        rw [Function.update_self, blockingCount_informDone, List.count_cons_self]
        omega
      · rw [Function.update_of_ne hg, List.count_cons_of_ne (Ne.symm hg)]

end GroupTable

end

/-- **When the table is large enough**: the registrations of a new task stay within its table and
are each answered once exactly when there are at most `max_groups` of them before it terminates. -/
theorem registrations_answered_iff (state : TaskState) (hlive : state ≠ .terminated)
    (groups : Vector ℕ maxGroups) (gp : ℕ → TaskGroup) (gs late : List ℕ) :
    (GroupTable.mk state groups 0).Answered gp gs late ↔ gs.length ≤ maxGroups := by
  constructor
  · rintro ⟨a₁, gp₁, accepted, -, -, -, hadd, -⟩
    by_contra hmany
    rw [GroupTable.addAll_overflow hlive (Nat.zero_le _) (by omega)] at hadd
    cases hadd
  · intro hroom
    have hroom' : (GroupTable.mk state groups 0).curGroups + gs.length ≤ maxGroups := by
      rwa [Nat.zero_add]
    obtain ⟨a, gp₁, hadd, hcur, hentries, hraised⟩ := @GroupTable.addAll_spec _ gp _ hlive hroom'
    have hcur' : a.curGroups ≤ maxGroups := by rwa [hcur]
    have hgs : a.entries = gs := hentries
    obtain ⟨gp₂, hinform, hlowered⟩ := @GroupTable.informAll_spec _ gp₁ _ _ hcur' (Nat.zero_add _)
    rw [List.drop_zero, hgs] at hinform hlowered
    refine ⟨a, gp₁, gs, { a with state := .terminated }, gp₂, gs, hadd, ?_,
      GroupTable.addAll_terminated rfl late, fun _ ↦ rfl, hraised, fun g ↦ ?_⟩
    · rw [GroupTable.terminate, hinform]
      rfl
    · rw [hlowered, hraised]
      omega

/-- The sixth group that a task is registered in is written behind its table. -/
theorem sixth_registration_out_of_bounds :
    ¬(GroupTable.mk .runnable (Vector.replicate maxGroups 0) 0).Answered (fun _ ↦ {})
      [1, 2, 3, 4, 5, 6] [] := by
  rintro ⟨a₁, gp₁, accepted, -, -, -, hadd, -⟩
  cases hadd

/-- Five registrations, two of them in one group, and a late one. -/
theorem registrations_answered_iff_five :
    (GroupTable.mk .runnable (Vector.replicate maxGroups 0) 0).Answered (fun _ ↦ {})
      [1, 2, 2, 3, 4] [5] :=
  (registrations_answered_iff .runnable (by decide) (Vector.replicate maxGroups 0) (fun _ ↦ {})
    [1, 2, 2, 3, 4] [5]).mpr (by decide)

end TYThread
