import Mathlib.Algebra.Ring.Nat
import Mathlib.Data.List.Infix
import Mathlib.Tactic.Common

/-! # Programs run against a script of answers

A program asks its surroundings one question after another: whether a link is
up, which byte arrived, how late it is. A `Script` runs such a program against
a finite list of answers chosen beforehand. When the answers end the run is cut:
there is no result, but the state reached so far remains. Quantifying over all
lists of answers therefore covers every finite part of every run, under
every behaviour of the surroundings.
-/

/-- What a run leaves: its result (none when it was cut), the state, and the
answers not asked for. -/
structure Outcome (ε σ α : Type) where
  result : Option α
  state : σ
  rest : List ε

/-- A program that reads answers of type `ε` and keeps a state of type `σ`. It cannot
put answers back or invent them. -/
@[ext] structure Script (ε σ α : Type) where
  run : σ → List ε → Outcome ε σ α
  rest_suffix : ∀ s es, (run s es).rest <:+ es

namespace Script

variable {ε σ τ α β γ : Type}

/-- Run `f` on the result of a run, unless that run was cut. -/
def andThen (first : Outcome ε σ α) (f : α → Script ε σ β) : Outcome ε σ β :=
  match first.result with
  | some a => (f a).run first.state first.rest
  | none => ⟨none, first.state, first.rest⟩

theorem andThen_rest_suffix (first : Outcome ε σ α) (f : α → Script ε σ β) :
    (andThen first f).rest <:+ first.rest := by
  unfold andThen
  split
  · exact (f _).rest_suffix _ _
  · exact List.suffix_refl _

instance : Monad (Script ε σ) where
  pure a := ⟨fun s es => ⟨some a, s, es⟩, fun _ es => List.suffix_refl es⟩
  bind m f := ⟨fun s es => andThen (m.run s es) f, fun s es =>
    (andThen_rest_suffix _ f).trans (m.rest_suffix s es)⟩

theorem andThen_pure (m : Script ε σ α) (s : σ) (es : List ε) :
    andThen (m.run s es) pure = m.run s es := by
  rcases m.run s es with ⟨_ | a, t, rest⟩ <;> rfl

theorem andThen_assoc (first : Outcome ε σ α) (f : α → Script ε σ β) (g : β → Script ε σ γ) :
    andThen (andThen first f) g = andThen first fun a => f a >>= g := by
  rcases first with ⟨_ | a, t, rest⟩ <;> rfl

instance : LawfulMonad (Script ε σ) := LawfulMonad.mk' (Script ε σ)
  (fun m => Script.ext (funext fun s => funext fun es => andThen_pure m s es))
  (fun _ _ => Script.ext rfl)
  (fun m f g => Script.ext (funext fun s => funext fun es => andThen_assoc (m.run s es) f g))

/-- Ask for the next answer; the run is cut when there is none. -/
def next : Script ε σ ε where
  run s
    | [] => ⟨none, s, []⟩
    | e :: es => ⟨some e, s, es⟩
  rest_suffix s es := by
    cases es with
    | nil => exact List.suffix_refl _
    | cons e es => exact List.suffix_cons e es

/-- Stop the run here, as if the answers had ended. -/
def cut : Script ε σ α := ⟨fun s es => ⟨none, s, es⟩, fun _ es => List.suffix_refl es⟩

/-- The current state. -/
def read : Script ε σ σ := ⟨fun s es => ⟨some s, s, es⟩, fun _ es => List.suffix_refl es⟩

/-- Change the state. -/
def update (f : σ → σ) : Script ε σ Unit :=
  ⟨fun s es => ⟨some (), f s, es⟩, fun _ es => List.suffix_refl es⟩

/-- Run a program on a part of a larger state. -/
def focus (get : τ → σ) (put : σ → τ → τ) (m : Script ε σ α) : Script ε τ α where
  run t es := ⟨(m.run (get t) es).result, put (m.run (get t) es).state t, (m.run (get t) es).rest⟩
  rest_suffix t es := m.rest_suffix (get t) es

/-- At most `fuel` rounds of a loop that ends with the first result. -/
def rounds (body : Script ε σ (Option α)) : ℕ → Script ε σ α
  | 0 => cut
  | fuel + 1 => do
      match ← body with
      | some a => pure a
      | none => rounds body fuel

/-- Repeat `body` until it gives a result. A body that asks at least one question runs at most
once for each answer left, so the number of rounds allowed is no restriction. -/
def untilSome (body : Script ε σ (Option α)) : Script ε σ α :=
  ⟨fun s es => (rounds body (es.length + 1)).run s es,
    fun s es => (rounds body (es.length + 1)).rest_suffix s es⟩

/-- `while (cond) body`. -/
def whileDo (cond : Script ε σ Bool) (body : Script ε σ Unit) : Script ε σ Unit :=
  untilSome do
    if ← cond then
      body
      pure none
    else
      pure (some ())

/-- `m`, `n` times over. -/
def iterate (m : Script ε σ Unit) : ℕ → Script ε σ Unit
  | 0 => pure ()
  | n + 1 => do
      iterate m n
      m

/-! ## Weakest preconditions -/

/-- Whatever the answers, `m` started in `s` ends in `Q`, or is cut in `C`. -/
def wp (m : Script ε σ α) (Q : α → σ → Prop) (C : σ → Prop) (s : σ) : Prop :=
  ∀ es, match (m.run s es).result with
    | some a => Q a (m.run s es).state
    | none => C (m.run s es).state

variable {m : Script ε σ α} {Q R : α → σ → Prop} {C D : σ → Prop} {s : σ}

/-- A condition on the states of complete and cut runs alike holds of the state of every run. -/
theorem state_of_wp {P : σ → Prop} (h : wp m (fun _ => P) P s) (es : List ε) :
    P (m.run s es).state := by
  have hrun := h es
  cases hresult : (m.run s es).result with
  | none => rwa [hresult] at hrun
  | some a => rwa [hresult] at hrun

theorem post_of_wp (h : wp m Q C s) {es : List ε} {a : α} (hresult : (m.run s es).result = some a) :
    Q a (m.run s es).state := by
  have hrun := h es
  rwa [hresult] at hrun

theorem wp_mono (h : wp m Q C s) (hQ : ∀ a t, Q a t → R a t) (hC : ∀ t, C t → D t) :
    wp m R D s := by
  intro es
  have hrun := h es
  cases hresult : (m.run s es).result with
  | none =>
      rw [hresult] at hrun
      exact hC _ hrun
  | some a =>
      rw [hresult] at hrun
      exact hQ a _ hrun

theorem wp_and (h : wp m Q C s) (h' : wp m R D s) :
    wp m (fun a t => Q a t ∧ R a t) (fun t => C t ∧ D t) s := by
  intro es
  have hrun := h es
  have hrun' := h' es
  cases hresult : (m.run s es).result with
  | none =>
      rw [hresult] at hrun hrun'
      exact ⟨hrun, hrun'⟩
  | some a =>
      rw [hresult] at hrun hrun'
      exact ⟨hrun, hrun'⟩

theorem wp_true (m : Script ε σ α) (s : σ) : wp m (fun _ _ => True) (fun _ => True) s := by
  intro es
  cases (m.run s es).result <;> trivial

@[simp] theorem wp_pure {a : α} : wp (pure a : Script ε σ α) Q C s ↔ Q a s :=
  ⟨fun h => h [], fun h _ => h⟩

@[simp] theorem wp_read {Q : σ → σ → Prop} : wp (ε := ε) read Q C s ↔ Q s s :=
  ⟨fun h => h [], fun h _ => h⟩

@[simp] theorem wp_update {Q : Unit → σ → Prop} {f : σ → σ} :
    wp (ε := ε) (update f) Q C s ↔ Q () (f s) :=
  ⟨fun h => h [], fun h _ => h⟩

@[simp] theorem wp_cut : wp (ε := ε) cut Q C s ↔ C s :=
  ⟨fun h => h [], fun h _ => h⟩

@[simp] theorem wp_next {Q : ε → σ → Prop} : wp next Q C s ↔ C s ∧ ∀ e, Q e s := by
  constructor
  · intro h
    exact ⟨h [], fun e => h [e]⟩
  · rintro ⟨hcut, hnext⟩ es
    cases es with
    | nil => exact hcut
    | cons e es => exact hnext e

theorem wp_bind {Q : β → σ → Prop} {f : α → Script ε σ β}
    (h : wp m (fun a t => wp (f a) Q C t) C s) : wp (m >>= f) Q C s := by
  intro es
  have hrun := h es
  change match (andThen (m.run s es) f).result with
    | some b => Q b (andThen (m.run s es) f).state
    | none => C (andThen (m.run s es) f).state
  unfold andThen
  cases hresult : (m.run s es).result with
  | none =>
      rw [hresult] at hrun
      exact hrun
  | some a =>
      rw [hresult] at hrun
      exact hrun (m.run s es).rest

/-- Sequencing through a specification of the first part. -/
theorem wp_seq {P : α → σ → Prop} {Q : β → σ → Prop} {f : α → Script ε σ β}
    (hfirst : wp m P D s) (hcut : ∀ t, D t → C t) (hrest : ∀ a t, P a t → wp (f a) Q C t) :
    wp (m >>= f) Q C s :=
  wp_bind (wp_mono hfirst hrest hcut)

@[simp] theorem wp_read_bind {f : σ → Script ε σ α} : wp (read >>= f) Q C s ↔ wp (f s) Q C s :=
  Iff.rfl

@[simp] theorem wp_update_bind {g : σ → σ} {f : Unit → Script ε σ α} :
    wp (update g >>= f) Q C s ↔ wp (f ()) Q C (g s) :=
  Iff.rfl

@[simp] theorem wp_next_bind {f : ε → Script ε σ α} :
    wp (next >>= f) Q C s ↔ C s ∧ ∀ e, wp (f e) Q C s := by
  constructor
  · intro h
    exact ⟨h [], fun e es => h (e :: es)⟩
  · rintro ⟨hcut, hnext⟩ es
    cases es with
    | nil => exact hcut
    | cons e es => exact hnext e es

theorem wp_ite {p : Prop} [Decidable p] {n : Script ε σ α} :
    wp (if p then m else n) Q C s ↔ (p → wp m Q C s) ∧ (¬ p → wp n Q C s) := by
  by_cases hp : p
  · simp [hp]
  · simp [hp]

theorem wp_focus {get : τ → σ} {put : σ → τ → τ} {Q : α → τ → Prop} {C : τ → Prop} {t : τ}
    (h : wp m (fun a u => Q a (put u t)) (fun u => C (put u t)) (get t)) :
    wp (focus get put m) Q C t := by
  intro es
  have hrun := h es
  change match (m.run (get t) es).result with
    | some a => Q a (put (m.run (get t) es).state t)
    | none => C (put (m.run (get t) es).state t)
  exact hrun

/-- The invariant rule of the loop: a round without a result keeps the invariant. -/
theorem wp_untilSome {body : Script ε σ (Option α)} (I : σ → Prop) (hstart : I s)
    (hcut : ∀ t, I t → C t)
    (hround : ∀ t, I t → wp body (fun result u => result.elim (I u) (Q · u)) C t) :
    wp (untilSome body) Q C s := by
  have hfuel : ∀ fuel t, I t → wp (rounds body fuel) Q C t := by
    intro fuel
    induction fuel with
    | zero => exact fun t ht => wp_cut.mpr (hcut t ht)
    | succ fuel ih =>
        intro t ht
        apply wp_bind
        refine wp_mono (hround t ht) ?_ (fun _ h => h)
        intro result u hu
        cases result with
        | none => exact ih u hu
        | some a => exact wp_pure.mpr hu
  intro es
  exact hfuel (es.length + 1) s hstart es

theorem wp_whileDo {cond : Script ε σ Bool} {body : Script ε σ Unit} {Q : Unit → σ → Prop}
    (I : σ → Prop) (hstart : I s) (hcut : ∀ t, I t → C t)
    (hround : ∀ t, I t →
      wp cond (fun b u => if b then wp body (fun _ => I) C u else Q () u) C t) :
    wp (whileDo cond body) Q C s := by
  apply wp_untilSome I hstart hcut
  intro t ht
  apply wp_bind
  refine wp_mono (hround t ht) ?_ (fun _ h => h)
  intro b u hu
  cases b with
  | false => exact wp_pure.mpr hu
  | true => exact wp_bind (wp_mono hu (fun _ v hv => wp_pure.mpr hv) (fun _ h => h))

/-- What one execution of `m` preserves, any number of them does. -/
theorem wp_iterate {m : Script ε σ Unit} (I : σ → Prop) (hstart : I s)
    (hstep : ∀ t, I t → wp m (fun _ => I) C t) (n : ℕ) :
    wp (iterate m n) (fun _ => I) C s := by
  induction n with
  | zero => exact wp_pure.mpr hstart
  | succ n ih => exact wp_bind (wp_mono ih (fun _ t ht => hstep t ht) (fun _ h => h))

/-! ## The loop equation -/

/-- A program that cannot complete without asking. -/
def Asks (m : Script ε σ α) : Prop :=
  ∀ s es, (m.run s es).result ≠ none → (m.run s es).rest.length < es.length

/-- What begins with a question asks one. -/
theorem asks_bind {f : α → Script ε σ β} (hm : Asks m) : Asks (m >>= f) := by
  intro s es hresult
  change (andThen (m.run s es) f).rest.length < es.length
  have hrest := (andThen_rest_suffix (m.run s es) f).length_le
  change (andThen (m.run s es) f).result ≠ none at hresult
  cases hfirst : (m.run s es).result with
  | none => simp [andThen, hfirst] at hresult
  | some a =>
      have hless := hm s es (by simp [hfirst])
      omega

theorem rounds_run_congr {body : Script ε σ (Option α)} (hbody : Asks body) {fuel more : ℕ}
    {es : List ε} (hfuel : es.length < fuel) (hmore : fuel ≤ more) (s : σ) :
    (rounds body fuel).run s es = (rounds body more).run s es := by
  induction fuel generalizing more es s with
  | zero => omega
  | succ fuel ih =>
      obtain ⟨more, rfl⟩ : ∃ k, more = k + 1 := ⟨more - 1, by omega⟩
      change andThen (body.run s es) _ = andThen (body.run s es) _
      unfold andThen
      cases hresult : (body.run s es).result with
      | none => rfl
      | some result =>
          cases result with
          | some a => rfl
          | none =>
              have hless := hbody s es (by simp [hresult])
              exact ih (by omega) (by omega) _

/-- A loop whose body asks a question is the unfolding of itself. -/
theorem untilSome_eq {body : Script ε σ (Option α)} (hbody : Asks body) :
    untilSome body = (do
      match ← body with
      | some a => pure a
      | none => untilSome body) := by
  refine Script.ext (funext fun s => funext fun es => ?_)
  change andThen (body.run s es) _ = andThen (body.run s es) _
  unfold andThen
  cases hresult : (body.run s es).result with
  | none => rfl
  | some result =>
      cases result with
      | some a => rfl
      | none =>
          have hless := hbody s es (by simp [hresult])
          exact (rounds_run_congr hbody (Nat.lt_succ_self _) (by omega) _).symm

end Script
