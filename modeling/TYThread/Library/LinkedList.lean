import Mathlib.Data.Int.Notation
import Mathlib.Data.List.Nodup
import Mathlib.Data.Nat.Notation
import Mathlib.Logic.Function.Basic

/-!
# Singly linked lists with numbered cells

A linked list in memory is a partial map `next` from cells to links: `next x = some q` says that the
cell `x` can be read and that its link is `q`, where `none` is the null link. `Chain next p xs` says
that following links from `p` meets exactly the cells `xs` and then a null link.

Operations on a queue add a cell at the end, remove the first cell, or cut the list in two. None of
them moves a cell relative to the others, so each cell can be given a number once and for all: the
list is then the cells numbered `a, …, b - 1` for a changing interval `[a, b)`. `Segment` says that
these cells are linked in the order of their numbers. In these terms adding a cell raises `b`,
removing one raises `a`, and a cut splits the interval.
-/

namespace LinkedList

variable {α : Type*}

/-- Following `next` from `p` meets the cells `xs`, in this order, and then a null link. -/
def Chain (next : α → Option (Option α)) : Option α → List α → Prop
  | p, [] => p = none
  | p, x :: xs => p = some x ∧ ∃ q, next x = some q ∧ Chain next q xs

@[simp] theorem chain_nil {next : α → Option (Option α)} {p : Option α} :
    Chain next p [] ↔ p = none := Iff.rfl

@[simp] theorem chain_cons {next : α → Option (Option α)} {p : Option α} {x : α} {xs : List α} :
    Chain next p (x :: xs) ↔ p = some x ∧ ∃ q, next x = some q ∧ Chain next q xs := Iff.rfl

theorem Chain.unique {next : α → Option (Option α)} {p : Option α} {xs ys : List α}
    (hx : Chain next p xs) (hy : Chain next p ys) : xs = ys := by
  induction xs generalizing p ys with
  | nil =>
    cases ys with
    | nil => rfl
    | cons y ys => simp_all
  | cons x xs ih =>
    cases ys with
    | nil => simp_all
    | cons y ys =>
      obtain ⟨rfl, q, hq, hxs⟩ := hx
      obtain ⟨hxy, r, hr, hys⟩ := hy
      obtain rfl := Option.some.inj hxy
      rw [hq, Option.some.injEq] at hr
      rw [ih hxs (hr ▸ hys)]

theorem Chain.congr {next next' : α → Option (Option α)} {p : Option α} {xs : List α}
    (h : Chain next p xs) (heq : ∀ x ∈ xs, next' x = next x) : Chain next' p xs := by
  induction xs generalizing p with
  | nil => exact h
  | cons x xs ih =>
    obtain ⟨rfl, q, hq, hxs⟩ := h
    exact ⟨rfl, q, by rw [heq x List.mem_cons_self, hq],
      ih hxs fun y hy ↦ heq y (List.mem_cons_of_mem x hy)⟩

/-- Following `next` from `p` meets the cells `xs`, and then the link is `q`. -/
def Path (next : α → Option (Option α)) : Option α → List α → Option α → Prop
  | p, [], q => p = q
  | p, x :: xs, q => p = some x ∧ ∃ r, next x = some r ∧ Path next r xs q

section Path

variable {next next' : α → Option (Option α)} {p q : Option α} {xs ys : List α}

theorem Path.congr (h : Path next p xs q) (heq : ∀ x ∈ xs, next' x = next x) :
    Path next' p xs q := by
  induction xs generalizing p with
  | nil => exact h
  | cons x xs ih =>
    obtain ⟨rfl, r, hr, hxs⟩ := h
    exact ⟨rfl, r, by rw [heq x List.mem_cons_self, hr],
      ih hxs fun y hy ↦ heq y (List.mem_cons_of_mem x hy)⟩

theorem Path.unique {r : Option α} (hx : Path next p xs q) (hy : Path next p ys r)
    (hlen : xs.length = ys.length) : xs = ys := by
  induction xs generalizing p ys with
  | nil => exact (List.length_eq_zero_iff.mp hlen.symm).symm
  | cons x xs ih =>
    cases ys with
    | nil => exact absurd hlen (Nat.succ_ne_zero _)
    | cons y ys =>
      obtain ⟨rfl, s, hs, hxs⟩ := hx
      obtain ⟨hxy, t, ht, hys⟩ := hy
      obtain rfl := Option.some.inj hxy
      rw [hs, Option.some.injEq] at ht
      rw [ih hxs (ht ▸ hys) (Nat.succ.inj hlen)]

theorem Path.snoc {x : α} (h : Path next p xs (some x)) (hx : next x = some q) :
    Path next p (xs ++ [x]) q := by
  induction xs generalizing p with
  | nil => exact ⟨h, q, hx, rfl⟩
  | cons y ys ih =>
    obtain ⟨rfl, r, hr, hys⟩ := h
    exact ⟨rfl, r, hr, ih hys⟩

theorem Path.chain (h : Path next p xs q) (hq : Chain next q ys) : Chain next p (xs ++ ys) := by
  induction xs generalizing p with
  | nil =>
    obtain rfl : p = q := h
    exact hq
  | cons x xs ih =>
    obtain ⟨rfl, r, hr, hxs⟩ := h
    exact ⟨rfl, r, hr, ih hxs⟩

end Path

/-! ## Intervals of numbered cells -/

/-- The link to the first cell of `[a, b)`. -/
def firstCell (cell : ℤ → α) (a b : ℤ) : Option α := if a < b then some (cell a) else none

theorem firstCell_of_lt {cell : ℤ → α} {a b : ℤ} (h : a < b) :
    firstCell cell a b = some (cell a) := if_pos h

theorem firstCell_of_le {cell : ℤ → α} {a b : ℤ} (h : b ≤ a) : firstCell cell a b = none :=
  if_neg (by omega)

@[simp] theorem firstCell_eq_none_iff {cell : ℤ → α} {a b : ℤ} :
    firstCell cell a b = none ↔ b ≤ a := by
  simp [firstCell]

/-- The cells of `[a, b)`, in the order of their numbers. -/
def cells (cell : ℤ → α) (a b : ℤ) : List α :=
  (List.range (b - a).toNat).map fun k : ℕ ↦ cell (a + k)

@[simp] theorem length_cells (cell : ℤ → α) (a b : ℤ) :
    (cells cell a b).length = (b - a).toNat := by
  simp [cells]

theorem cells_of_le {cell : ℤ → α} {a b : ℤ} (h : b ≤ a) : cells cell a b = [] := by
  have hlen : (b - a).toNat = 0 := by omega
  rw [cells, hlen, List.range_zero, List.map_nil]

theorem cells_cons {cell : ℤ → α} {a b : ℤ} (h : a < b) :
    cells cell a b = cell a :: cells cell (a + 1) b := by
  have hlen : (b - a).toNat = (b - (a + 1)).toNat + 1 := by omega
  rw [cells, hlen, List.range_succ_eq_map, List.map_cons, List.map_map, cells]
  congr 1
  · simp
  · refine List.map_congr_left fun k _ ↦ ?_
    simp only [Function.comp_apply]
    congr 1
    omega

theorem cells_append {cell : ℤ → α} {a b c : ℤ} (hac : a ≤ c) (hcb : c ≤ b) :
    cells cell a b = cells cell a c ++ cells cell c b := by
  have hlen : (b - a).toNat = (c - a).toNat + (b - c).toNat := by omega
  rw [cells, hlen, List.range_add, List.map_append, List.map_map, cells, cells]
  congr 1
  refine List.map_congr_left fun k _ ↦ ?_
  simp only [Function.comp_apply]
  congr 1
  omega

@[simp] theorem mem_cells {cell : ℤ → α} {a b : ℤ} {x : α} :
    x ∈ cells cell a b ↔ ∃ p, a ≤ p ∧ p < b ∧ cell p = x := by
  rw [cells, List.mem_map]
  constructor
  · rintro ⟨k, hk, rfl⟩
    rw [List.mem_range] at hk
    exact ⟨a + k, by omega, by omega, rfl⟩
  · rintro ⟨p, hap, hpb, rfl⟩
    exact ⟨(p - a).toNat, by rw [List.mem_range]; omega, by congr 1; omega⟩

theorem cells_congr {cell cell' : ℤ → α} {a b : ℤ}
    (h : ∀ p, a ≤ p → p < b → cell' p = cell p) : cells cell' a b = cells cell a b := by
  refine List.map_congr_left fun k hk ↦ ?_
  rw [List.mem_range] at hk
  exact h _ (by omega) (by omega)

theorem cells_snoc {cell : ℤ → α} {a b : ℤ} (h : a ≤ b) :
    cells cell a (b + 1) = cells cell a b ++ [cell b] := by
  have hlast : cells cell b (b + 1) = [cell b] := by
    rw [cells_cons (by omega), cells_of_le (by omega)]
  rw [cells_append h (by omega), hlast]

/-- The cells of an interval are different from one another. -/
def DistinctCells (cell : ℤ → α) (a b : ℤ) : Prop :=
  ∀ p q, a ≤ p → p < b → a ≤ q → q < b → cell p = cell q → p = q

theorem DistinctCells.nodup {cell : ℤ → α} {a b : ℤ} (h : DistinctCells cell a b) :
    (cells cell a b).Nodup := by
  refine (List.nodup_range).map_on fun i hi j hj hij ↦ ?_
  rw [List.mem_range] at hi hj
  have := h (a + i) (a + j) (by omega) (by omega) (by omega) (by omega) hij
  omega

/-! ## Linked intervals -/

/-- The cells of `[a, b)` are linked in the order of their numbers, the last one to nothing. -/
def Segment (next : α → Option (Option α)) (cell : ℤ → α) (a b : ℤ) : Prop :=
  ∀ p, a ≤ p → p < b → next (cell p) = some (firstCell cell (p + 1) b)

section Segment

variable {next next' : α → Option (Option α)} {cell : ℤ → α} {a b c : ℤ}

theorem Segment.congr (h : Segment next cell a b)
    (heq : ∀ p, a ≤ p → p < b → next' (cell p) = next (cell p)) : Segment next' cell a b :=
  fun p hp hp' ↦ by rw [heq p hp hp', h p hp hp']

theorem Segment.drop (h : Segment next cell a b) (hac : a ≤ c) : Segment next cell c b :=
  fun p hp hp' ↦ h p (by omega) hp'

theorem Segment.take (h : Segment next cell a b) (hcb : c ≤ b)
    (hlast : a < c → next' (cell (c - 1)) = some none)
    (hsame : ∀ p, a ≤ p → p + 1 < c → next' (cell p) = next (cell p)) :
    Segment next' cell a c := by
  intro p hp hp'
  by_cases hpc : p + 1 < c
  · rw [hsame p hp hpc, h p hp (by omega), firstCell_of_lt hpc, firstCell_of_lt (by omega)]
  · have hpl : p = c - 1 := by omega
    rw [hpl, hlast (by omega), firstCell_of_le (by omega)]

theorem Segment.push [DecidableEq α] {x : α} (h : Segment next cell a b)
    (hd : DistinctCells cell a b) (hx : ∀ p, a ≤ p → p < b → cell p ≠ x)
    (hnew : next' x = some none) (hlast : a < b → next' (cell (b - 1)) = some (some x))
    (hsame : ∀ y, y ≠ x → (a < b → y ≠ cell (b - 1)) → next' y = next y) :
    Segment next' (Function.update cell b x) a (b + 1) := by
  intro p hp hp'
  by_cases hpb : p = b
  · rw [hpb, Function.update_self, hnew, firstCell_of_le (by omega)]
  · rw [Function.update_of_ne hpb, firstCell_of_lt (by omega)]
    by_cases hpl : p = b - 1
    · have hsucc : b - 1 + 1 = b := by omega
      rw [hpl, hlast (by omega), hsucc, Function.update_self]
    · rw [Function.update_of_ne (by omega), hsame _ (hx p hp (by omega)) fun hab heq ↦
        hpl (hd p (b - 1) hp (by omega) (by omega) (by omega) heq), h p hp (by omega),
        firstCell_of_lt (by omega)]

theorem Segment.chain {next : α → Option (Option α)} {cell : ℤ → α} {a b : ℤ}
    (h : Segment next cell a b) : Chain next (firstCell cell a b) (cells cell a b) := by
  generalize hn : (b - a).toNat = n
  induction n generalizing a with
  | zero =>
    rw [cells_of_le (by omega), firstCell_of_le (by omega)]
    rfl
  | succ n ih =>
    rw [cells_cons (by omega), firstCell_of_lt (by omega)]
    exact ⟨rfl, _, h a (by omega) (by omega), ih (fun p hp ↦ h p (by omega)) (by omega)⟩

end Segment

end LinkedList
