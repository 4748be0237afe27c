import Mathlib.Data.List.Basic
import Mathlib.Logic.Function.Basic
import Mathlib.Tactic.Common

/-! # Flat memory

A memory is a function from positions to cells. Blocks are written with `place`, moved with
`move` and read back with `slice`; what a write leaves alone is said by position.
-/

abbrev Memory (α : Type) := ℕ → α

namespace Memory

variable {α : Type}

/-- Write a block from a position on. -/
def place : List α → ℕ → Memory α → Memory α
  | [], _, m => m
  | x :: xs, at', m => place xs (at' + 1) (Function.update m at' x)

/-- The `n` cells from a position on. -/
def slice (m : Memory α) (start n : ℕ) : List α := (List.range n).map fun i => m (start + i)

/-- `memmove`: copy `n` cells to `target`, also when the two blocks overlap. -/
def move (m : Memory α) (target source n : ℕ) : Memory α := place (slice m source n) target m

@[simp] theorem length_slice (m : Memory α) (start n : ℕ) : (slice m start n).length = n := by
  simp [slice]

@[simp] theorem slice_zero (m : Memory α) (start : ℕ) : slice m start 0 = [] := rfl

theorem slice_succ (m : Memory α) (start n : ℕ) :
    slice m start (n + 1) = slice m start n ++ [m (start + n)] := by
  simp [slice, List.range_succ]

theorem slice_cons (m : Memory α) (start n : ℕ) :
    slice m start (n + 1) = m start :: slice m (start + 1) n := by
  simp only [slice, List.range_succ_eq_map, List.map_cons, List.map_map, Nat.add_zero]
  congr 1
  apply List.map_congr_left
  intro i _
  simp only [Function.comp_apply]
  congr 1
  omega

theorem slice_add (m : Memory α) (start k n : ℕ) :
    slice m start (k + n) = slice m start k ++ slice m (start + k) n := by
  induction n with
  | zero => simp
  | succ n ih => rw [← Nat.add_assoc, slice_succ, ih, slice_succ, List.append_assoc, Nat.add_assoc]

/-- Two blocks that stand one behind the other. -/
theorem slice_eq_append {m : Memory α} {start : ℕ} {xs ys : List α}
    (h : slice m start (xs ++ ys).length = xs ++ ys) :
    slice m start xs.length = xs ∧ slice m (start + xs.length) ys.length = ys := by
  rw [List.length_append, slice_add] at h
  exact List.append_inj h (length_slice m start xs.length)

theorem slice_congr {m m' : Memory α} {start n : ℕ}
    (h : ∀ i, start ≤ i → i < start + n → m i = m' i) : slice m start n = slice m' start n := by
  apply List.map_congr_left
  intro i hi
  exact h (start + i) (by omega) (by have := List.mem_range.mp hi; omega)

theorem getElem?_slice {m : Memory α} {start n i : ℕ} (hi : i < n) :
    (slice m start n)[i]? = some (m (start + i)) := by
  simp [slice, hi]

/-- Before a block nothing is written. -/
theorem place_of_lt (xs : List α) {start i : ℕ} (m : Memory α) (hi : i < start) :
    place xs start m i = m i := by
  induction xs generalizing start m with
  | nil => rfl
  | cons x xs ih =>
      rw [place, ih _ (by omega), Function.update_of_ne (by omega)]

/-- Behind a block nothing is written. -/
theorem place_of_le (xs : List α) {start i : ℕ} (m : Memory α) (hi : start + xs.length ≤ i) :
    place xs start m i = m i := by
  induction xs generalizing start m with
  | nil => rfl
  | cons x xs ih =>
      simp only [List.length_cons] at hi
      rw [place, ih _ (by omega), Function.update_of_ne (by omega)]

/-- A block reads back as written. -/
theorem slice_place (xs : List α) (start : ℕ) (m : Memory α) :
    slice (place xs start m) start xs.length = xs := by
  induction xs generalizing start m with
  | nil => rfl
  | cons x xs ih =>
      rw [List.length_cons, slice_cons, place, ih, place_of_lt _ _ (Nat.lt_succ_self start),
        Function.update_self]

/-- What was moved stands at its target. -/
theorem move_of_mem (m : Memory α) {target source n i : ℕ} (hlow : target ≤ i) (hhigh : i < target + n) :
    move m target source n i = m (source + (i - target)) := by
  obtain ⟨k, rfl⟩ := Nat.exists_eq_add_of_le hlow
  have hk : k < n := Nat.lt_of_add_lt_add_left hhigh
  have hread : slice (move m target source n) target n = slice m source n := by
    have hplaced := slice_place (slice m source n) target m
    rwa [length_slice] at hplaced
  have hcell := congrArg (fun block : List α => block[k]?) hread
  rw [getElem?_slice hk, getElem?_slice hk] at hcell
  rw [Nat.add_sub_cancel_left, Option.some.inj hcell]

theorem slice_place_of_disjoint {xs : List α} {start at' n : ℕ} (m : Memory α)
    (h : start + n ≤ at' ∨ at' + xs.length ≤ start) :
    slice (place xs at' m) start n = slice m start n := by
  apply slice_congr
  intro i hlow hhigh
  rcases h with hbefore | hbehind
  · exact place_of_lt xs m (by omega)
  · exact place_of_le xs m (by omega)

end Memory
