import Prometeus.Foundation.Script

/-! # Surroundings that keep a promise

`wp` quantifies over all answers. Here every answer satisfies a predicate, and only the runs that are
not cut count.
-/

namespace Script

variable {ε σ α β : Type} {P : ε → Prop}

/-- Answered according to `P`, a complete run of `m` from `s` ends in `Q`. -/
def wpOn (P : ε → Prop) (m : Script ε σ α) (Q : α → σ → Prop) (s : σ) : Prop :=
  ∀ es, (∀ e ∈ es, P e) → ∀ a, (m.run s es).result = some a → Q a (m.run s es).state

variable {m : Script ε σ α} {Q R : α → σ → Prop} {s : σ}

theorem wpOn_mono (h : wpOn P m Q s) (hQ : ∀ a t, Q a t → R a t) : wpOn P m R s :=
  fun es hes a hresult => hQ a _ (h es hes a hresult)

@[simp] theorem wpOn_pure {a : α} : wpOn P (pure a : Script ε σ α) Q s ↔ Q a s := by
  constructor
  · intro h
    exact h [] (fun e he => (nomatch he)) a rfl
  · intro h es _ a' hresult
    obtain rfl := Option.some.inj hresult
    exact h

/-- The answers left over are promised as well. -/
theorem wpOn_bind {Q : β → σ → Prop} {f : α → Script ε σ β}
    (h : wpOn P m (fun a t => wpOn P (f a) Q t) s) : wpOn P (m >>= f) Q s := by
  intro es hes b hresult
  change (andThen (m.run s es) f).result = some b at hresult
  change Q b (andThen (m.run s es) f).state
  unfold andThen at hresult ⊢
  cases hfirst : (m.run s es).result with
  | none =>
      rw [hfirst] at hresult
      cases hresult
  | some a =>
      rw [hfirst] at hresult
      exact h es hes a hfirst (m.run s es).rest (fun e he => hes e ((m.rest_suffix s es).subset he)) b hresult

theorem wpOn_seq {P' : α → σ → Prop} {Q : β → σ → Prop} {f : α → Script ε σ β} (hfirst : wpOn P m P' s)
    (hrest : ∀ a t, P' a t → wpOn P (f a) Q t) : wpOn P (m >>= f) Q s :=
  wpOn_bind (wpOn_mono hfirst hrest)

@[simp] theorem wpOn_read_bind {f : σ → Script ε σ α} : wpOn P (read >>= f) Q s ↔ wpOn P (f s) Q s :=
  Iff.rfl

@[simp] theorem wpOn_update_bind {g : σ → σ} {f : Unit → Script ε σ α} :
    wpOn P (update g >>= f) Q s ↔ wpOn P (f ()) Q (g s) :=
  Iff.rfl

@[simp] theorem wpOn_next_bind {f : ε → Script ε σ α} :
    wpOn P (next >>= f) Q s ↔ ∀ e, P e → wpOn P (f e) Q s := by
  constructor
  · intro h e he es hes
    exact h (e :: es) (List.forall_mem_cons.mpr ⟨he, hes⟩)
  · intro h es hes
    cases es with
    | nil => exact fun a hresult => (nomatch hresult)
    | cons e es =>
        obtain ⟨he, hrest⟩ := List.forall_mem_cons.mp hes
        exact h e he es hrest

theorem wpOn_ite {p : Prop} [Decidable p] {n : Script ε σ α} :
    wpOn P (if p then m else n) Q s ↔ (p → wpOn P m Q s) ∧ (¬ p → wpOn P n Q s) := by
  by_cases hp : p
  · simp [hp]
  · simp [hp]

/-- What one execution of `m` preserves, any number of them does. -/
theorem wpOn_iterate {m : Script ε σ Unit} (I : σ → Prop) (hstart : I s)
    (hstep : ∀ t, I t → wpOn P m (fun _ => I) t) (n : ℕ) : wpOn P (iterate m n) (fun _ => I) s := by
  induction n with
  | zero => exact wpOn_pure.mpr hstart
  | succ n ih => exact wpOn_seq ih fun _ t ht => hstep t ht

end Script
