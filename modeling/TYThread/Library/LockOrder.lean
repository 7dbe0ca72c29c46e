import Mathlib.Data.List.Basic
import Mathlib.Logic.Relation
import Mathlib.Order.Basic
import TYThread.Library.Transition

/-!
# Locks that are taken in order

Any number of threads take and release locks. What a thread does between two moments at which it
holds none is a list of actions, and each of the lists in `calls` may be run at any time. A lock is
not reentrant: it can be taken only while nobody holds it.

If every call takes its locks in increasing rank, then nobody ever waits for himself, and no threads
wait for one another in a cycle. `Block` is the part of this condition that is checked piece by
piece: a block may be run while locks of rank less than `b` are held, and leaves them as they were.
-/

namespace LockOrder

variable {Thread Lock Rank : Type*}

inductive Action (Lock : Type*)
  | acquire (l : Lock)
  | release (l : Lock)
deriving DecidableEq

structure State (Thread Lock : Type*) where
  /-- What is left of the call that the thread is in. -/
  todo : Thread → List (Action Lock)
  owner : Lock → Option Thread

/-- Nobody is in a call. -/
def State.initial : State Thread Lock where
  todo := fun _ ↦ []
  owner := fun _ ↦ none

/-- The thread that acts is the label. -/
inductive Step [DecidableEq Thread] [DecidableEq Lock] (calls : List (Action Lock) → Prop)
    (σ : State Thread Lock) : Thread → State Thread Lock → Prop
  | call {t : Thread} {as : List (Action Lock)} (idle : σ.todo t = []) (mem : calls as) :
      Step calls σ t { σ with todo := Function.update σ.todo t as }
  | acquire {t : Thread} {l : Lock} {as : List (Action Lock)}
      (here : σ.todo t = .acquire l :: as) (free : σ.owner l = none) :
      Step calls σ t ⟨Function.update σ.todo t as, Function.update σ.owner l (some t)⟩
  | release {t : Thread} {l : Lock} {as : List (Action Lock)}
      (here : σ.todo t = .release l :: as) :
      Step calls σ t ⟨Function.update σ.todo t as, Function.update σ.owner l none⟩

/-- The thread `t` waits for a lock that `u` holds. -/
def State.Waits (σ : State Thread Lock) (t u : Thread) : Prop :=
  ∃ l as, σ.todo t = .acquire l :: as ∧ σ.owner l = some u

/-! ## Taking locks in order -/

/-- The scope of a `lock_guard` of `l`. -/
def guarded (l : Lock) (body : List (Action Lock)) : List (Action Lock) :=
  .acquire l :: (body ++ [.release l])

section

variable [Preorder Rank] (rank : Lock → Rank)

/-- While holding `held`, the last one taken first, a thread may do the actions: it takes each lock
above those it holds, releases the last one taken, and holds none in the end. -/
def Ordered : List Lock → List (Action Lock) → Prop
  | held, [] => held = []
  | held, .acquire l :: as => (∀ k ∈ held, rank k < rank l) ∧ Ordered (l :: held) as
  | held, .release l :: as => ∃ rest, held = l :: rest ∧ Ordered rest as

/-- The actions may be done while locks of rank less than `b` are held. -/
def Block (b : Rank) (as : List (Action Lock)) : Prop :=
  ∀ held bs, (∀ k ∈ held, rank k < b) → Ordered rank held bs → Ordered rank held (as ++ bs)

variable {rank} {b c : Rank} {l : Lock} {as bs : List (Action Lock)}

theorem Block.nil : Block rank b [] := fun _ _ _ h ↦ h

theorem Block.append (ha : Block rank b as) (hb : Block rank b bs) : Block rank b (as ++ bs) := by
  intro held rest hheld hrest
  rw [List.append_assoc]
  exact ha held _ hheld (hb held rest hheld hrest)

theorem Block.flatMap {α : Type*} {xs : List α} {f : α → List (Action Lock)}
    (h : ∀ x ∈ xs, Block rank b (f x)) : Block rank b (xs.flatMap f) := by
  induction xs with
  | nil => exact Block.nil
  | cons x xs ih =>
    rw [List.flatMap_cons]
    exact (h x List.mem_cons_self).append (ih fun y hy ↦ h y (List.mem_cons_of_mem x hy))

/-- What may be done while many locks are held may be done while fewer are. -/
theorem Block.mono (h : Block rank c as) (hbc : b ≤ c) : Block rank b as :=
  fun held bs hheld ↦ h held bs fun k hk ↦ lt_of_lt_of_le (hheld k hk) hbc

theorem Block.guarded (hbody : Block rank c as) (hb : b ≤ rank l) (hc : rank l < c) :
    Block rank b (guarded l as) := by
  intro held bs hheld hbs
  have hlt : ∀ k ∈ held, rank k < rank l := fun k hk ↦ lt_of_lt_of_le (hheld k hk) hb
  refine ⟨hlt, ?_⟩
  change Ordered rank (l :: held) (as ++ [.release l] ++ bs)
  rw [List.append_assoc]
  refine hbody (l :: held) _ (fun k hk ↦ ?_) ⟨held, rfl, hbs⟩
  rcases List.mem_cons.mp hk with rfl | hk
  · exact hc
  · exact lt_trans (hlt k hk) hc

theorem Block.ordered (h : Block rank b as) : Ordered rank [] as := by
  have := h [] [] (fun k hk ↦ absurd hk List.not_mem_nil) rfl
  rwa [List.append_nil] at this

end

/-! ## The invariant -/

/-- Every thread keeps to the order, holding the locks `held`, and `owner` says who holds what. -/
structure Inv [Preorder Rank] (rank : Lock → Rank) (σ : State Thread Lock)
    (held : Thread → List Lock) : Prop where
  ordered : ∀ t, Ordered rank (held t) (σ.todo t)
  owner : ∀ t l, σ.owner l = some t ↔ l ∈ held t
  nodup : ∀ t, (held t).Nodup

section

variable [Preorder Rank] {rank : Lock → Rank} {σ σ' : State Thread Lock}
  {held : Thread → List Lock} {t u : Thread}

theorem Inv.initial : Inv rank (State.initial : State Thread Lock) fun _ ↦ [] :=
  ⟨fun _ ↦ rfl, fun _ _ ↦ iff_of_false (by simp [State.initial]) List.not_mem_nil,
    fun _ ↦ List.nodup_nil⟩

theorem Inv.update [DecidableEq Thread] (h : Inv rank σ held) {as : List (Action Lock)}
    {owner : Lock → Option Thread} {mine : List Lock} (has : Ordered rank mine as)
    (hnodup : mine.Nodup) (hmine : ∀ l, owner l = some t ↔ l ∈ mine)
    (hother : ∀ l u, u ≠ t → (owner l = some u ↔ σ.owner l = some u)) :
    Inv rank ⟨Function.update σ.todo t as, owner⟩ (Function.update held t mine) := by
  constructor
  case ordered =>
    intro u
    by_cases hu : u = t
    · subst hu
      simpa using has
    · simpa [hu] using h.ordered u
  case owner =>
    intro u l
    by_cases hu : u = t
    · subst hu
      simpa using hmine l
    · simpa [hu] using (hother l u hu).trans (h.owner u l)
  case nodup =>
    intro u
    by_cases hu : u = t
    · subst hu
      simpa using hnodup
    · simpa [hu] using h.nodup u

theorem Step.inv [DecidableEq Thread] [DecidableEq Lock] {calls : List (Action Lock) → Prop}
    (hcalls : ∀ as, calls as → Ordered rank [] as) (hstep : Step calls σ t σ')
    (h : Inv rank σ held) : ∃ held', Inv rank σ' held' := by
  have hordered := h.ordered t
  cases hstep with
  | @call as idle mem =>
    rw [idle] at hordered
    have hnone : held t = [] := hordered
    exact ⟨_, h.update (hcalls as mem) List.nodup_nil (fun l ↦ by rw [h.owner, hnone])
      fun _ _ _ ↦ Iff.rfl⟩
  | @acquire l as here free =>
    rw [here] at hordered
    have hnotMem : l ∉ held t := fun hl ↦ by
      rw [(h.owner t l).mpr hl] at free
      cases free
    refine ⟨_, h.update hordered.2 (List.nodup_cons.mpr ⟨hnotMem, h.nodup t⟩) (fun k ↦ ?_)
      fun k u hu ↦ ?_⟩
    · by_cases hk : k = l
      · subst hk
        simp
      · simp [hk, h.owner]
    · by_cases hk : k = l
      · subst hk
        simp [free, Ne.symm hu]
      · simp [hk]
  | @release l as here =>
    rw [here] at hordered
    obtain ⟨rest, hrest, hordered⟩ := hordered
    have hnodup := h.nodup t
    rw [hrest, List.nodup_cons] at hnodup
    have hmine : σ.owner l = some t := (h.owner t l).mpr (by rw [hrest]; exact List.mem_cons_self)
    refine ⟨_, h.update hordered hnodup.2 (fun k ↦ ?_) fun k u hu ↦ ?_⟩
    · by_cases hk : k = l
      · subst hk
        simp [hnodup.1]
      · simp [hk, h.owner, hrest]
    · by_cases hk : k = l
      · subst hk
        simp [hmine, Ne.symm hu]
      · simp [hk]

/-! ## No deadlock -/

/-- Along a chain of waiting threads the locks that are waited for go up. -/
theorem Inv.rank_lt (h : Inv rank σ held) (hwaits : Relation.TransGen σ.Waits t u) {l k : Lock}
    {as bs : List (Action Lock)} (ht : σ.todo t = .acquire l :: as)
    (hu : σ.todo u = .acquire k :: bs) : rank l < rank k := by
  -- One thread waits for the next, which holds the lock and wants a higher one.
  have hone : ∀ {v w : Thread} {m n : Lock} {cs ds : List (Action Lock)}, σ.Waits v w →
      σ.todo v = .acquire m :: cs → σ.todo w = .acquire n :: ds → rank m < rank n := by
    intro v w m n cs ds hvw hv hw
    obtain ⟨m', cs', hv', howner⟩ := hvw
    rw [hv, List.cons.injEq, Action.acquire.injEq] at hv'
    obtain ⟨rfl, -⟩ := hv'
    have hordered := h.ordered w
    rw [hw] at hordered
    exact hordered.1 m ((h.owner w m).mp howner)
  induction hwaits generalizing k bs with
  | single hlast => exact hone hlast ht hu
  | tail _ hlast ih =>
    obtain ⟨m, cs, hv, howner⟩ := hlast
    exact lt_trans (ih hv) (hone ⟨m, cs, hv, howner⟩ hv hu)

/-- **No deadlock**: no cycle of threads each waiting for a lock that the next one holds. -/
theorem Inv.not_cyclic (h : Inv rank σ held) (t : Thread) : ¬Relation.TransGen σ.Waits t t := by
  intro hcycle
  obtain ⟨u, ⟨l, as, ht, -⟩, -⟩ := Relation.TransGen.head'_iff.mp hcycle
  exact lt_irrefl _ (h.rank_lt hcycle ht ht)

end

end LockOrder
