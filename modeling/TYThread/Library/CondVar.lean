import TYThread.Library.Counting
import TYThread.Library.Transition

/-!
# Sleepers at a condition variable

Any number of threads sleep at a condition variable, each for some time at most. A thread that is
about to sleep takes the mutex, counts itself, and releases the mutex as it falls asleep. It wakes
up when it is notified, when its time is over, or for no reason, and takes the mutex again before it
counts itself out. A thread that wants to notify one of them reads the count first, and notifies
nobody if it is zero. It takes no mutex for that.

The count is right whenever it is read, so who reads zero could have woken nobody. And the calls are
over after a bounded number of steps, in any order: nobody waits for the mutex for long, since
nobody sleeps with it.
-/

namespace CondVar

open Counting Transition

variable {Thread : Type*}

/-- The next action of a thread. -/
inductive Phase
  /-- It is in no call. -/
  | out
  -- To sleep.
  | lock
  | count
  | wait
  | asleep
  | relock
  | discount
  | unlock
  -- To notify one thread, or all of them.
  | test
  | notify
  | notifyAll
deriving DecidableEq, Repr

structure State (Thread : Type*) where
  phase : Thread → Phase
  owner : Option Thread
  count : ℤ

/-- Nobody is in a call. -/
def State.initial : State Thread := ⟨fun _ ↦ .out, none, 0⟩

/-- A sleeper is notified. -/
def Phase.wake : Phase → Phase
  | asleep => relock
  | p => p

inductive Label (Thread : Type*)
  | act (t : Thread)
  /-- The time of `t` is over, or it wakes up for no reason. -/
  | timeout (t : Thread)
deriving DecidableEq, Repr

section

variable [DecidableEq Thread]

/-- The thread `t` goes on to `p`. -/
def State.goto (σ : State Thread) (t : Thread) (p : Phase) : State Thread :=
  { σ with phase := Function.update σ.phase t p }

inductive Step (σ : State Thread) : Label Thread → State Thread → Prop
  | lock {t : Thread} (here : σ.phase t = .lock) (free : σ.owner = none) :
      Step σ (.act t) { σ.goto t .count with owner := some t }
  | count {t : Thread} (here : σ.phase t = .count) :
      Step σ (.act t) { σ.goto t .wait with count := σ.count + 1 }
  /-- The mutex is released as the thread falls asleep. -/
  | wait {t : Thread} (here : σ.phase t = .wait) :
      Step σ (.act t) { σ.goto t .asleep with owner := none }
  | timeout {t : Thread} (here : σ.phase t = .asleep) : Step σ (.timeout t) (σ.goto t .relock)
  | relock {t : Thread} (here : σ.phase t = .relock) (free : σ.owner = none) :
      Step σ (.act t) { σ.goto t .discount with owner := some t }
  | discount {t : Thread} (here : σ.phase t = .discount) :
      Step σ (.act t) { σ.goto t .unlock with count := σ.count - 1 }
  | unlock {t : Thread} (here : σ.phase t = .unlock) :
      Step σ (.act t) { σ.goto t .out with owner := none }
  | testZero {t : Thread} (here : σ.phase t = .test) (zero : σ.count = 0) :
      Step σ (.act t) (σ.goto t .out)
  | test {t : Thread} (here : σ.phase t = .test) (nonzero : σ.count ≠ 0) :
      Step σ (.act t) (σ.goto t .notify)
  | notify {t u : Thread} (here : σ.phase t = .notify) (sleeper : σ.phase u = .asleep) :
      Step σ (.act t) ((σ.goto u .relock).goto t .out)
  | notifyNobody {t : Thread} (here : σ.phase t = .notify) (nobody : ∀ u, σ.phase u ≠ .asleep) :
      Step σ (.act t) (σ.goto t .out)
  | notifyAll {t : Thread} (here : σ.phase t = .notifyAll) :
      Step σ (.act t) { σ with phase := Function.update (fun u ↦ (σ.phase u).wake) t .out }

end

/-! ## The invariant -/

/-- The thread holds the mutex. -/
def Phase.Holds : Phase → Prop
  | count | wait | discount | unlock => True
  | _ => False

/-- `1` if the thread is counted. -/
def Phase.weight : Phase → ℕ
  | wait | asleep | relock | discount => 1
  | _ => 0

/-- An upper bound for the steps that the call still takes. -/
def Phase.toGo : Phase → ℕ
  | out => 0
  | lock => 7
  | count => 6
  | wait => 5
  | asleep => 4
  | relock => 3
  | discount => 2
  | unlock => 1
  | test => 2
  | notify => 1
  | notifyAll => 1

def State.toGo (S : Finset Thread) (σ : State Thread) : ℕ := ∑ t ∈ S, (σ.phase t).toGo

/-- Only the threads in `S` make calls. -/
structure Inv (S : Finset Thread) (σ : State Thread) : Prop where
  outside : ∀ t, t ∉ S → σ.phase t = .out
  owner : ∀ t, σ.owner = some t ↔ (σ.phase t).Holds
  count : σ.count = ((∑ t ∈ S, (σ.phase t).weight : ℕ) : ℤ)

theorem Phase.holds_wake (p : Phase) : p.wake.Holds ↔ p.Holds := by
  cases p <;> exact Iff.rfl

theorem Phase.weight_wake (p : Phase) : p.wake.weight = p.weight := by
  cases p <;> rfl

theorem Phase.toGo_wake_le (p : Phase) : p.wake.toGo ≤ p.toGo := by
  cases p <;> decide

theorem Phase.toGo_le (p : Phase) : p.toGo ≤ 7 := by
  cases p <;> decide

namespace Inv

theorem initial (S : Finset Thread) : Inv S State.initial := by
  constructor
  · intro t _
    rfl
  · intro t
    exact iff_of_false (Option.some_ne_none t).symm id
  · exact (Nat.cast_eq_zero.mpr (Finset.sum_const_zero)).symm

variable {S : Finset Thread} {σ σ' : State Thread} {t : Thread} {l : Label Thread}

theorem mem (h : Inv S σ) (ht : σ.phase t ≠ .out) : t ∈ S := by
  by_contra hS
  exact ht (h.outside t hS)

/-- **The count is right.** Who reads zero could have woken nobody. -/
theorem not_asleep (h : Inv S σ) (hzero : σ.count = 0) (t : Thread) : σ.phase t ≠ .asleep := by
  intro ht
  have hsum : ∑ t ∈ S, (σ.phase t).weight = 0 := Nat.cast_eq_zero.mp (h.count.symm.trans hzero)
  have hweight := Finset.sum_eq_zero_iff.mp hsum t (h.mem (by rw [ht]; decide))
  rw [ht] at hweight
  exact absurd hweight (by decide)

section Steps

variable [DecidableEq Thread] {p : Phase} {owner : Option Thread} {count : ℤ}

theorem update (h : Inv S σ) (ht : t ∈ S)
    (howner : ∀ u, owner = some u ↔ (Function.update σ.phase t p u).Holds)
    (hcount : count + (σ.phase t).weight = σ.count + p.weight) :
    Inv S ⟨Function.update σ.phase t p, owner, count⟩ := by
  refine ⟨fun u hu ↦ ?_, howner, ?_⟩
  · have hut : u ≠ t := fun he ↦ hu (he ▸ ht)
    exact (Function.update_of_ne hut _ _).trans (h.outside u hu)
  · have hsum := sum_update σ.phase Phase.weight ht p
    have hold := h.count
    dsimp only
    omega

theorem owner_same (h : Inv S σ) (hp : p.Holds ↔ (σ.phase t).Holds) (u : Thread) :
    σ.owner = some u ↔ (Function.update σ.phase t p u).Holds := by
  rw [h.owner u, apply_update_eq Phase.Holds (propext hp) u]

theorem owner_lock (h : Inv S σ) (free : σ.owner = none) (hp : p.Holds) (u : Thread) :
    some t = some u ↔ (Function.update σ.phase t p u).Holds := by
  by_cases hut : u = t
  · subst hut
    rw [Function.update_self]
    exact iff_of_true rfl hp
  · rw [Function.update_of_ne hut, ← h.owner u, free]
    exact iff_of_false (fun he ↦ hut (Option.some.inj he).symm) (Option.some_ne_none u).symm

theorem owner_unlock (h : Inv S σ) (held : (σ.phase t).Holds) (hp : ¬p.Holds) (u : Thread) :
    (none : Option Thread) = some u ↔ (Function.update σ.phase t p u).Holds := by
  refine iff_of_false (Option.some_ne_none u).symm ?_
  by_cases hut : u = t
  · rw [hut, Function.update_self]
    exact hp
  · rw [Function.update_of_ne hut, ← h.owner u, (h.owner t).mpr held]
    exact fun he ↦ hut (Option.some.inj he).symm

theorem enter (h : Inv S σ) (ht : t ∈ S) (hout : σ.phase t = .out) (hp : ¬p.Holds)
    (hweight : p.weight = 0) : Inv S (σ.goto t p) := by
  refine h.update ht (h.owner_same ?_) ?_
  · rw [hout]
    exact iff_of_false hp id
  · rw [hout, hweight]
    rfl

theorem step (h : Inv S σ) (hstep : Step σ l σ') : Inv S σ' := by
  have hmem : ∀ {t : Thread} {q : Phase}, σ.phase t = q → q ≠ .out → t ∈ S := fun here hq ↦
    h.mem (here ▸ hq)
  have hsame : ∀ {t : Thread} {q : Phase}, σ.phase t = q → q ≠ .out → (p : Phase) →
      (p.Holds ↔ q.Holds) → p.weight = q.weight → Inv S (σ.goto t p) := by
    intro t q here hq p hholds hweight
    refine h.update (hmem here hq) (h.owner_same (here ▸ hholds)) ?_
    rw [here, hweight]
  cases hstep with
  | lock here free =>
    exact h.update (hmem here (by decide)) (h.owner_lock free trivial) (by rw [here]; rfl)
  | count here =>
    refine h.update (hmem here (by decide)) (h.owner_same (here ▸ Iff.rfl)) ?_
    rw [here]
    exact Int.add_zero _
  | wait here =>
    exact h.update (hmem here (by decide)) (h.owner_unlock (here ▸ trivial) id) (by rw [here]; rfl)
  | timeout here => exact hsame here (by decide) .relock Iff.rfl rfl
  | relock here free =>
    exact h.update (hmem here (by decide)) (h.owner_lock free trivial) (by rw [here]; rfl)
  | discount here =>
    refine h.update (hmem here (by decide)) (h.owner_same (here ▸ Iff.rfl)) ?_
    rw [here]
    simp [Phase.weight]
  | unlock here =>
    exact h.update (hmem here (by decide)) (h.owner_unlock (here ▸ trivial) id) (by rw [here]; rfl)
  | testZero here => exact hsame here (by decide) .out Iff.rfl rfl
  | test here => exact hsame here (by decide) .notify Iff.rfl rfl
  | @notify t u here sleeper =>
    have hwoken : Inv S (σ.goto u .relock) := hsame sleeper (by decide) .relock Iff.rfl rfl
    have htu : t ≠ u := fun he ↦ absurd (here.symm.trans (he ▸ sleeper)) (by decide)
    have here' : (σ.goto u .relock).phase t = .notify := (Function.update_of_ne htu _ _).trans here
    refine hwoken.update (hmem here (by decide)) (hwoken.owner_same ?_) ?_
    · rw [here']
      exact Iff.rfl
    · rw [here']
      rfl
  | notifyNobody here => exact hsame here (by decide) .out Iff.rfl rfl
  | @notifyAll t here =>
    have hwoken : Inv S { σ with phase := fun u ↦ (σ.phase u).wake } := by
      refine ⟨fun u hu ↦ ?_, fun u ↦ ?_, ?_⟩
      · simp only [h.outside u hu]
        rfl
      · rw [Phase.holds_wake]
        exact h.owner u
      · simp only [Phase.weight_wake]
        exact h.count
    have here' : ((σ.phase t).wake) = .notifyAll := by
      rw [here]
      rfl
    refine hwoken.update (hmem here (by decide)) (hwoken.owner_same ?_) ?_
    · simp only [here']
      exact Iff.rfl
    · simp only [here']
      rfl

/-- **No notification is lost.** While somebody sleeps, a thread that is about to notify one goes on
to do so, and then it wakes a thread. -/
theorem notifies (h : Inv S σ) (hstep : Step σ l σ') {u : Thread} (hu : σ.phase u = .asleep)
    (ht : σ.phase t = .test ∨ σ.phase t = .notify) :
    (σ'.phase t = .test ∨ σ'.phase t = .notify) ∨
      l = .act t ∧ ∃ v, σ.phase v = .asleep ∧ σ'.phase v = .relock := by
  -- The other threads do not move it.
  have hkeep : ∀ {v : Thread} {q p : Phase}, σ.phase v = q → q ≠ .test → q ≠ .notify →
      Function.update σ.phase v p t = .test ∨ Function.update σ.phase v p t = .notify := by
    intro v q p here htest hnotify
    have htv : t ≠ v := by
      rintro rfl
      rcases ht with ht | ht
      · exact htest (here.symm.trans ht)
      · exact hnotify (here.symm.trans ht)
    rwa [Function.update_of_ne htv]
  cases hstep with
  | lock here | count here | wait here | timeout here | relock here | discount here | unlock here =>
    exact Or.inl (hkeep here (by decide) (by decide))
  | testZero here zero => exact absurd hu (h.not_asleep zero u)
  | notifyNobody here nobody => exact absurd hu (nobody u)
  | @test v here =>
    left
    by_cases htv : t = v
    · subst htv
      exact Or.inr (Function.update_self ..)
    · simpa only [State.goto, Function.update_of_ne htv] using ht
  | @notify v w here sleeper =>
    by_cases htv : t = v
    · subst htv
      have hwt : w ≠ t := fun he ↦ absurd (here.symm.trans (he ▸ sleeper)) (by decide)
      refine Or.inr ⟨rfl, w, sleeper, ?_⟩
      simp only [State.goto, Function.update_of_ne hwt, Function.update_self]
    · left
      simp only [State.goto, Function.update_of_ne htv]
      exact hkeep sleeper (by decide) (by decide)
  | @notifyAll v here =>
    have htv : t ≠ v := by
      rintro rfl
      rw [here] at ht
      exact absurd ht (by decide)
    left
    simp only [Function.update_of_ne htv]
    rcases ht with ht | ht <;> simp [ht, Phase.wake]

end Steps

end Inv

/-! ## The calls come to an end -/

section

variable [DecidableEq Thread] {S : Finset Thread} {σ σ' : State Thread} {t : Thread}
    {l : Label Thread}

theorem State.toGo_goto (ht : t ∈ S) (p : Phase) :
    (σ.goto t p).toGo S + (σ.phase t).toGo = σ.toGo S + p.toGo :=
  sum_update σ.phase Phase.toGo ht p

theorem Step.toGo_lt (hstep : Step σ l σ') (h : Inv S σ) : σ'.toGo S < σ.toGo S := by
  -- One thread goes on from `q` to `p`.
  have hgoto : ∀ {t : Thread} {q p : Phase}, σ.phase t = q → p.toGo < q.toGo →
      (σ.goto t p).toGo S < σ.toGo S := by
    intro t q p here hless
    have ht : t ∈ S := by
      refine h.mem fun hout ↦ ?_
      rw [← here, hout] at hless
      exact absurd hless (Nat.not_lt_zero _)
    have hsum := State.toGo_goto (σ := σ) ht p
    rw [here] at hsum
    omega
  cases hstep with
  | lock here | count here | wait here | timeout here | relock here | discount here | unlock here
  | testZero here | test here | notifyNobody here => exact hgoto here (by decide)
  | @notify t u here sleeper =>
    have htu : t ≠ u := fun he ↦ absurd (here.symm.trans (he ▸ sleeper)) (by decide)
    have here' : (σ.goto u .relock).phase t = .notify := (Function.update_of_ne htu _ _).trans here
    have hwoken : (σ.goto u .relock).toGo S < σ.toGo S := hgoto sleeper (by decide)
    have hsum := State.toGo_goto (σ := σ.goto u .relock) (h.mem (by rw [here]; decide)) .out
    rw [here'] at hsum
    simp only [Phase.toGo] at hsum
    omega
  | @notifyAll t here =>
    have hsum := sum_update (fun u ↦ (σ.phase u).wake) Phase.toGo
      (h.mem (by rw [here]; decide)) .out
    have hwoken : ∑ u ∈ S, (σ.phase u).wake.toGo ≤ σ.toGo S :=
      Finset.sum_le_sum fun u _ ↦ Phase.toGo_wake_le _
    have hnotifier : (σ.phase t).wake.toGo = 1 := by
      rw [here]
      rfl
    calc ∑ u ∈ S, (Function.update (fun u ↦ (σ.phase u).wake) t .out u).toGo
        < ∑ u ∈ S, (Function.update (fun u ↦ (σ.phase u).wake) t .out u).toGo +
        (σ.phase t).wake.toGo :=
          Nat.lt_add_of_pos_right (by omega)
      _ = ∑ u ∈ S, (σ.phase u).wake.toGo + Phase.out.toGo := hsum
      _ ≤ σ.toGo S := hwoken

/-- While a thread is in a call and does not sleep, some thread can go on. -/
theorem Inv.exists_act (h : Inv S σ) (hcall : σ.phase t ≠ .out) (hawake : σ.phase t ≠ .asleep) :
    ∃ u σ', Step σ (.act u) σ' := by
  -- The mutex is free, or the thread that holds it goes on.
  have hlock : (σ.owner = none → ∃ u σ', Step σ (.act u) σ') → ∃ u σ', Step σ (.act u) σ' := by
    intro hfree
    cases howner : σ.owner with
    | none => exact hfree howner
    | some u =>
      have hholds := (h.owner u).mp howner
      cases here : σ.phase u with
      | count => exact ⟨u, _, .count here⟩
      | wait => exact ⟨u, _, .wait here⟩
      | discount => exact ⟨u, _, .discount here⟩
      | unlock => exact ⟨u, _, .unlock here⟩
      | _ =>
        rw [here] at hholds
        exact hholds.elim
  cases here : σ.phase t with
  | out => exact absurd here hcall
  | asleep => exact absurd here hawake
  | lock => exact hlock fun free ↦ ⟨t, _, .lock here free⟩
  | count => exact ⟨t, _, .count here⟩
  | wait => exact ⟨t, _, .wait here⟩
  | relock => exact hlock fun free ↦ ⟨t, _, .relock here free⟩
  | discount => exact ⟨t, _, .discount here⟩
  | unlock => exact ⟨t, _, .unlock here⟩
  | test =>
    by_cases hzero : σ.count = 0
    · exact ⟨t, _, .testZero here hzero⟩
    · exact ⟨t, _, .test here hzero⟩
  | notify =>
    by_cases hsleeper : ∃ u, σ.phase u = .asleep
    · obtain ⟨u, hu⟩ := hsleeper
      exact ⟨t, _, .notify here hu⟩
    · exact ⟨t, _, .notifyNobody here (not_exists.mp hsleeper)⟩
  | notifyAll => exact ⟨t, _, .notifyAll here⟩

theorem Inv.exists_step (h : Inv S σ) (hcall : σ.phase t ≠ .out) : ∃ l σ', Step σ l σ' := by
  by_cases hasleep : σ.phase t = .asleep
  · exact ⟨_, _, .timeout hasleep⟩
  · obtain ⟨u, σ', hstep⟩ := h.exists_act hcall hasleep
    exact ⟨_, σ', hstep⟩

/-- All calls can come to their ends. -/
theorem Inv.exists_out (h : Inv S σ) : ∃ σ', Reachable Step σ σ' ∧ Inv S σ' ∧
    ∀ t, σ'.phase t = .out := by
  refine Reachable.exists_final (I := Inv S) (f := State.toGo S) h fun σ h ↦ ?_
  by_cases hout : ∀ t, σ.phase t = .out
  · exact Or.inl hout
  · right
    push Not at hout
    obtain ⟨t, ht⟩ := hout
    obtain ⟨l, σ', hstep⟩ := h.exists_step ht
    exact ⟨l, σ', hstep, h.step hstep, hstep.toGo_lt h⟩

/-- And they do so after at most seven steps of each thread, whatever the order. -/
theorem Inv.length_le [Inhabited Thread] (h : Inv S σ) {ls : List (Label Thread)}
    (hrun : Run Step σ ls σ') : ls.length ≤ 7 * S.card := by
  have hstep : ∀ σ l σ', Inv S σ → Step σ l σ' →
      Inv S σ' ∧ σ'.toGo S + 1 ≤ σ.toGo S + if l = .act default then 0 else 0 := by
    intro σ l σ' h hstep
    rw [ite_self]
    exact ⟨h.step hstep, hstep.toGo_lt h⟩
  obtain ⟨-, hle⟩ := hrun.length_le h hstep
  have hsum : σ.toGo S ≤ S.card * 7 := Finset.sum_le_card_nsmul S _ 7 fun t _ ↦ Phase.toGo_le _
  omega

end

end CondVar
