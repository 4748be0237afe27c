import Prometeus.Foundation.Script

/-! # Programs built from given parts

A program that only sequences and repeats its parts, and decides by their results what comes next,
keeps what every part keeps.
-/

namespace Script

variable {ε σ α β : Type}

inductive Built (Part : (α : Type) → Script ε σ α → Prop) : {α : Type} → Script ε σ α → Prop
  | part {α : Type} {m : Script ε σ α} (hm : Part α m) : Built Part m
  | done {α : Type} (a : α) : Built Part (pure a)
  | andThen {α β : Type} {m : Script ε σ α} {f : α → Script ε σ β} (hm : Built Part m)
      (hf : ∀ a, Built Part (f a)) : Built Part (m >>= f)
  | untilSome {α : Type} {body : Script ε σ (Option α)} (hbody : Built Part body) :
      Built Part (untilSome body)

variable {Part : (α : Type) → Script ε σ α → Prop}

namespace Built

theorem ite {p : Prop} [Decidable p] {m n : Script ε σ α} (hm : Built Part m) (hn : Built Part n) :
    Built Part (if p then m else n) := by
  by_cases hp : p
  · rwa [if_pos hp]
  · rwa [if_neg hp]

theorem whileDo {cond : Script ε σ Bool} {body : Script ε σ Unit} (hcond : Built Part cond)
    (hbody : Built Part body) : Built Part (whileDo cond body) := by
  apply untilSome
  apply hcond.andThen
  intro more
  apply ite
  · exact hbody.andThen fun _ => done none
  · exact done (some ())

theorem iterate {m : Script ε σ Unit} (hm : Built Part m) (n : ℕ) : Built Part (iterate m n) := by
  induction n with
  | zero => exact done ()
  | succ n ih => exact ih.andThen fun _ => hm

/-- `I` is kept between the parts, and `J` holds in the middle of one. -/
theorem keeps {I J : σ → Prop} {m : Script ε σ α} (h : Built Part m) (hcut : ∀ s, I s → J s)
    (hpart : ∀ (α : Type) (m : Script ε σ α), Part α m → ∀ s, I s → wp m (fun _ => I) J s)
    {s : σ} (hs : I s) : wp m (fun _ => I) J s := by
  induction h generalizing s with
  | part hm => exact hpart _ _ hm s hs
  | done a => exact wp_pure.mpr hs
  | andThen _ _ ihm ihf => exact wp_seq (ihm hs) (fun _ h => h) fun a _ ha => ihf a ha
  | untilSome _ ih =>
      apply wp_untilSome I hs hcut
      intro t ht
      refine wp_mono (ih ht) ?_ (fun _ h => h)
      intro result u hu
      cases result with
      | none => exact hu
      | some a => exact hu

end Built

end Script
