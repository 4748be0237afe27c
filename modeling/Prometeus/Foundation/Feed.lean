import Mathlib.Logic.Function.Basic
import Mathlib.Tactic.Common

/-! # Watched stores

A store whose nodes are watched from afar. The watcher of a node is told its value when it starts to watch, and
then every change, in this order but late; of several values in flight it may be told the later ones only.
-/

structure Feed (κ α : Type) where
  node : κ → Option α := fun _ => none
  watched : κ → Bool := fun _ => false
  /-- What is on the way to the watcher of a node, the oldest first. -/
  pending : κ → List (Option α) := fun _ => []

namespace Feed

variable {κ α : Type} [DecidableEq κ] [DecidableEq α]

/-- A node gets a value. Only a change is told. -/
def write (f : Feed κ α) (k : κ) (x : α) : Feed κ α :=
  { f with
    node := Function.update f.node k (some x)
    pending :=
      if f.watched k = true ∧ f.node k ≠ some x then
        Function.update f.pending k (f.pending k ++ [some x])
      else
        f.pending }

def watch (f : Feed κ α) (k : κ) : Feed κ α :=
  { f with
    watched := Function.update f.watched k true
    pending := Function.update f.pending k (f.pending k ++ [f.node k]) }

/-- The oldest value in flight is no longer. -/
def take (f : Feed κ α) (k : κ) : Feed κ α :=
  { f with pending := Function.update f.pending k (f.pending k).tail }

/-- A watcher that has last been told `told` knows the node once nothing is in flight. -/
structure Follows (f : Feed κ α) (k : κ) (told : Option α) : Prop where
  watched : f.watched k = true
  last : (f.pending k).getLastD told = f.node k

variable {f : Feed κ α} {k k' : κ} {told : Option α}

omit [DecidableEq κ] [DecidableEq α] in
theorem Follows.eq_node (h : f.Follows k told) (hpending : f.pending k = []) : told = f.node k := by
  have hlast := h.last
  rwa [hpending, List.getLastD_nil] at hlast

theorem Follows.write (h : f.Follows k told) (k' : κ) (x : α) : (f.write k' x).Follows k told := by
  refine ⟨h.watched, ?_⟩
  have hlast := h.last
  by_cases hkey : k = k'
  · subst hkey
    by_cases hnew : f.node k = some x
    · simpa [Feed.write, hnew] using hlast
    · simp [Feed.write, h.watched, hnew]
  · by_cases hnew : f.watched k' = true ∧ f.node k' ≠ some x
    · simpa [Feed.write, hnew, hkey] using hlast
    · simpa [Feed.write, hnew, hkey] using hlast

section Watching

omit [DecidableEq α]

/-- Who starts to watch is told the present value, whatever was told before. -/
theorem follows_watch (f : Feed κ α) (k : κ) (told : Option α) : (f.watch k).Follows k told := by
  constructor
  · simp [watch]
  · simp [watch]

theorem Follows.watch (h : f.Follows k told) (k' : κ) : (f.watch k').Follows k told := by
  by_cases hkey : k = k'
  · subst hkey
    exact follows_watch f k told
  · constructor
    · simpa [Feed.watch, hkey] using h.watched
    · simpa [Feed.watch, hkey] using h.last

/-- A value that arrives. -/
theorem Follows.take (h : f.Follows k told) {value : Option α} {rest : List (Option α)}
    (hpending : f.pending k = value :: rest) : (f.take k).Follows k value := by
  refine ⟨h.watched, ?_⟩
  have hlast := h.last
  rw [hpending, List.getLastD_cons] at hlast
  simpa [Feed.take, hpending] using hlast

/-- A value that is left out in favour of a later one. -/
theorem Follows.skip (h : f.Follows k told) (hlength : 1 < (f.pending k).length) :
    (f.take k).Follows k told := by
  refine ⟨h.watched, ?_⟩
  have hlast := h.last
  cases hpending : f.pending k with
  | nil => simp [hpending] at hlength
  | cons value rest =>
      cases rest with
      | nil => simp [hpending] at hlength
      | cons value' rest =>
          rw [hpending, List.getLastD_cons, List.getLastD_cons, ← List.getLastD_cons (a := told)] at hlast
          simpa [Feed.take, hpending] using hlast

theorem Follows.take_of_ne (h : f.Follows k told) (hkey : k ≠ k') : (f.take k').Follows k told := by
  refine ⟨h.watched, ?_⟩
  simpa [Feed.take, hkey] using h.last

end Watching

end Feed
