import Mathlib.Algebra.Order.Field.Rat
import Mathlib.Tactic.Common

/-! # JSON values

Values over strings of type `σ`. Members stand in the order of the text, and their names
may repeat.
-/

inductive Json (σ : Type)
  | null
  | bool (b : Bool)
  | number (x : ℚ)
  | string (s : σ)
  | array (elements : List (Json σ))
  | object (members : List (σ × Json σ))
