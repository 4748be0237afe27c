import Mathlib.Data.List.Induction
import Mathlib.Tactic.Common

/-! # Event-driven machines

A machine takes events one after the other, each of which may be impossible in the state
reached. What holds of all its runs is proved with the history of events in sight.
-/

structure Machine (σ ε : Type) where
  start : σ
  step : σ → ε → Option σ

namespace Machine

variable {σ ε : Type} (m : Machine σ ε)

/-- The state after a history, if all its events were possible. -/
def run (events : List ε) : Option σ := events.foldlM m.step m.start

variable {m}

theorem run_nil : m.run [] = some m.start := rfl

theorem run_append (before after : List ε) :
    m.run (before ++ after) = (m.run before).bind fun s => after.foldlM m.step s := by
  rw [run, List.foldlM_append]
  rfl

theorem run_snoc (events : List ε) (e : ε) :
    m.run (events ++ [e]) = (m.run events).bind (m.step · e) := by
  rw [run_append]
  cases m.run events with
  | none => rfl
  | some s =>
      change (m.step s e).bind some = m.step s e
      exact Option.bind_fun_some _

theorem run_of_append {before after : List ε} {s : σ} (h : m.run (before ++ after) = some s) :
    ∃ t, m.run before = some t := by
  rw [run_append, Option.bind_eq_some_iff] at h
  obtain ⟨t, ht, -⟩ := h
  exact ⟨t, ht⟩

/-- What holds of the start, and of the history and the state after each possible event, holds
after every run. -/
theorem run_invariant (I : List ε → σ → Prop) (hstart : I [] m.start)
    (hstep : ∀ events s e t, I events s → m.step s e = some t → I (events ++ [e]) t)
    {events : List ε} {s : σ} (h : m.run events = some s) : I events s := by
  induction events using List.reverseRecOn generalizing s with
  | nil =>
      obtain rfl := Option.some.inj h
      exact hstart
  | append_singleton events e ih =>
      rw [run_snoc, Option.bind_eq_some_iff] at h
      obtain ⟨t, ht, hlast⟩ := h
      exact hstep events t e s (ih ht) hlast

end Machine
