import Prometeus.Foundation.Decimal
import Prometeus.Foundation.Json

/-! # Reading JSON texts

The JSON grammar over lists of characters, with numbers as exact rationals, and rules by which a
text that was put together from the texts of its members reads back to them.
-/

namespace Json

def isSpace (c : Char) : Bool := c = ' ' || c = '\t' || c = '\n' || c = '\r'

def skipSpace (s : List Char) : List Char := s.dropWhile isSpace

/-- What follows `c`, which may stand behind spaces. -/
def expect (c : Char) (s : List Char) : Option (List Char) :=
  match skipSpace s with
  | [] => none
  | d :: s => if d = c then some s else none

/-! ## Numbers -/

/-- At least one digit. -/
def parseDigits (s : List Char) : Option (List Char × List Char) :=
  if s.takeWhile Char.isDigit = [] then none
  else some (s.takeWhile Char.isDigit, s.dropWhile Char.isDigit)

/-- The digits before the point: no zero leads. -/
def parseInteger : List Char → Option (List Char × List Char)
  | '0' :: s => some (['0'], s)
  | s => parseDigits s

def parseFraction : List Char → Option (List Char × List Char)
  | '.' :: s => parseDigits s
  | s => some ([], s)

def parseSigned : List Char → Option (ℤ × List Char)
  | '-' :: s => (parseDigits s).map fun (ds, s) => (-(Nat.ofDigitChars 10 ds 0 : ℤ), s)
  | '+' :: s => (parseDigits s).map fun (ds, s) => ((Nat.ofDigitChars 10 ds 0 : ℤ), s)
  | s => (parseDigits s).map fun (ds, s) => ((Nat.ofDigitChars 10 ds 0 : ℤ), s)

def parseExponent : List Char → Option (ℤ × List Char)
  | 'e' :: s => parseSigned s
  | 'E' :: s => parseSigned s
  | s => some (0, s)

def parseUnsigned (s : List Char) : Option (ℚ × List Char) := do
  let (integer, s) ← parseInteger s
  let (fraction, s) ← parseFraction s
  let (exponent, s) ← parseExponent s
  some (Nat.ofDigitChars 10 (integer ++ fraction) 0 / 10 ^ fraction.length * 10 ^ exponent, s)

def parseNumber : List Char → Option (ℚ × List Char)
  | '-' :: s => (parseUnsigned s).map fun (x, s) => (-x, s)
  | s => parseUnsigned s

/-! ## Strings -/

def hexDigit (c : Char) : Option ℕ :=
  if c.isDigit then some (c.toNat - '0'.toNat)
  else if 'a' ≤ c ∧ c ≤ 'f' then some (c.toNat - 'a'.toNat + 10)
  else if 'A' ≤ c ∧ c ≤ 'F' then some (c.toNat - 'A'.toNat + 10)
  else none

/-- Four hexadecimal digits. -/
def parseUnit : List Char → Option (ℕ × List Char)
  | a :: b :: c :: d :: s => do
      some ((((← hexDigit a) * 16 + (← hexDigit b)) * 16 + (← hexDigit c)) * 16 + (← hexDigit d), s)
  | _ => none

/-- What stands behind `\u`: one unit, or the two of a character outside the basic plane. -/
def parseUnicode (s : List Char) : Option (Char × List Char) := do
  let (high, s) ← parseUnit s
  if high < 0xD800 ∨ 0xDFFF < high then
    some (Char.ofNat high, s)
  else
    match s with
    | '\\' :: 'u' :: s => do
        let (low, s) ← parseUnit s
        if high < 0xDC00 ∧ 0xDC00 ≤ low ∧ low ≤ 0xDFFF then
          some (Char.ofNat (0x10000 + (high - 0xD800) * 0x400 + (low - 0xDC00)), s)
        else
          none
    | _ => none

def unescape (c : Char) : Option Char :=
  match c with
  | '"' => some '"'
  | '\\' => some '\\'
  | '/' => some '/'
  | 'b' => some (Char.ofNat 0x08)
  | 'f' => some (Char.ofNat 0x0C)
  | 'n' => some '\n'
  | 'r' => some '\r'
  | 't' => some '\t'
  | _ => none

def parseChar : List Char → Option (Char × List Char)
  | [] => none
  | '\\' :: [] => none
  | '\\' :: 'u' :: s => parseUnicode s
  | '\\' :: c :: s => (unescape c).map fun c => (c, s)
  | c :: s => if c.toNat < 0x20 then none else some (c, s)

/-- The characters up to the closing quote. -/
def parseChars : ℕ → List Char → Option (List Char × List Char)
  | _, '"' :: s => some ([], s)
  | 0, _ => none
  | fuel + 1, s => do
      let (c, s) ← parseChar s
      let (cs, s) ← parseChars fuel s
      some (c :: cs, s)

def parseString (s : List Char) : Option (List Char × List Char) := do
  let s ← expect '"' s
  parseChars s.length s

/-! ## Values -/

def parseAtom : List Char → Option (Json (List Char) × List Char)
  | 't' :: 'r' :: 'u' :: 'e' :: s => some (bool true, s)
  | 'f' :: 'a' :: 'l' :: 's' :: 'e' :: s => some (bool false, s)
  | 'n' :: 'u' :: 'l' :: 'l' :: s => some (null, s)
  | s => (parseNumber s).map fun (x, s) => (number x, s)

mutual

def parseValue : ℕ → List Char → Option (Json (List Char) × List Char)
  | 0, _ => none
  | fuel + 1, s =>
      match skipSpace s with
      | '\x7b' :: s =>
          match expect '\x7d' s with
          | some s => some (object [], s)
          | none => (parseMembers fuel s).map fun (members, s) => (object members, s)
      | '[' :: s =>
          match expect ']' s with
          | some s => some (array [], s)
          | none => (parseElements fuel s).map fun (elements, s) => (array elements, s)
      | '"' :: s => (parseChars s.length s).map fun (cs, s) => (string cs, s)
      | s => parseAtom s

/-- Members with commas between them, up to the closing brace. -/
def parseMembers : ℕ → List Char → Option (List (List Char × Json (List Char)) × List Char)
  | 0, _ => none
  | fuel + 1, s => do
      let (key, s) ← parseString s
      let s ← expect ':' s
      let (value, s) ← parseValue fuel s
      match expect ',' s with
      | some s => (parseMembers fuel s).map fun (members, s) => ((key, value) :: members, s)
      | none => (expect '\x7d' s).map fun s => ([(key, value)], s)

def parseElements : ℕ → List Char → Option (List (Json (List Char)) × List Char)
  | 0, _ => none
  | fuel + 1, s => do
      let (value, s) ← parseValue fuel s
      match expect ',' s with
      | some s => (parseElements fuel s).map fun (elements, s) => (value :: elements, s)
      | none => (expect ']' s).map fun s => ([value], s)

end

/-- The value of a whole text. -/
def parse (s : List Char) : Option (Json (List Char)) :=
  match parseValue (s.length + 1) s with
  | some (value, rest) => if skipSpace rest = [] then some value else none
  | none => none

/-! ## Texts that read back -/

def NoDigit (s : List Char) : Prop := ∀ c ∈ s.head?, c.isDigit = false

/-- What may stand behind a value: nothing, or a separator. -/
def Delimited (s : List Char) : Prop :=
  ∀ c ∈ s.head?, c = ',' ∨ c = '\x7d' ∨ c = ']' ∨ isSpace c = true

theorem isDigit_of_mem_toDigits {n : ℕ} {c : Char} (hc : c ∈ Nat.toDigits 10 n) :
    c.isDigit = true :=
  Nat.isDigit_of_mem_toDigits (by decide) (by decide) hc

/-- A separator continues no number. -/
theorem Delimited.cases {s : List Char} (h : Delimited s) :
    s = [] ∨ ∃ c tail, s = c :: tail ∧ c.isDigit = false ∧ c ≠ '.' ∧ c ≠ 'e' ∧ c ≠ 'E' := by
  cases s with
  | nil => exact Or.inl rfl
  | cons c tail =>
      refine Or.inr ⟨c, tail, rfl, ?_⟩
      rcases h c rfl with rfl | rfl | rfl | hspace
      · decide
      · decide
      · decide
      · simp only [isSpace, Bool.or_eq_true, decide_eq_true_eq] at hspace
        rcases hspace with ((rfl | rfl) | rfl) | rfl <;> decide

theorem Delimited.noDigit {s : List Char} (h : Delimited s) : NoDigit s := by
  rcases h.cases with rfl | ⟨c, tail, rfl, hdigit, -⟩
  · exact fun c hc => by cases hc
  · intro d hd
    rw [← Option.some.inj hd]
    exact hdigit

theorem Delimited.parseExponent {s : List Char} (h : Delimited s) :
    parseExponent s = some (0, s) := by
  rcases h.cases with rfl | ⟨c, tail, rfl, -, -, he, hE⟩
  · rfl
  · simp [Json.parseExponent, he, hE]

/-! ### Numbers -/

theorem parseDigits_append {ds s : List Char} (hds : ∀ c ∈ ds, c.isDigit = true) (hne : ds ≠ [])
    (hs : NoDigit s) : parseDigits (ds ++ s) = some (ds, s) := by
  have htake : s.takeWhile Char.isDigit = [] := by
    cases s with
    | nil => rfl
    | cons c tail => simp [hs c rfl]
  have hdrop : s.dropWhile Char.isDigit = s := by
    cases s with
    | nil => rfl
    | cons c tail => simp [hs c rfl]
  rw [parseDigits, List.takeWhile_append_of_pos hds, List.dropWhile_append_of_pos hds, htake, hdrop,
    List.append_nil, if_neg hne]

theorem isDigit_of_parseDigits {c : Char} {s ds rest : List Char}
    (h : parseDigits (c :: s) = some (ds, rest)) : c.isDigit = true := by
  by_contra hc
  simp [parseDigits, hc] at h

theorem parseSigned_of_digits {ds s rest : List Char} (h : parseDigits s = some (ds, rest)) :
    parseSigned s = some ((Nat.ofDigitChars 10 ds 0 : ℤ), rest) := by
  cases s with
  | nil => cases h
  | cons c tail =>
      have hc := isDigit_of_parseDigits h
      have hminus : c ≠ '-' := by
        rintro rfl
        cases hc
      have hplus : c ≠ '+' := by
        rintro rfl
        cases hc
      simp [parseSigned, hminus, hplus, h]

theorem parseInteger_toDigits (n : ℕ) {s : List Char} (hs : NoDigit s) :
    parseInteger (Nat.toDigits 10 n ++ s) = some (Nat.toDigits 10 n, s) := by
  by_cases hn : n = 0
  · subst n
    rfl
  · have hhead := Decimal.head_toDigits_ne_zero (Nat.pos_of_ne_zero hn)
    have hdigits := parseDigits_append (fun c hc => isDigit_of_mem_toDigits hc)
      (Nat.toDigits_ne_nil (n := n) (b := 10)) hs
    cases htext : Nat.toDigits 10 n with
    | nil => exact absurd htext Nat.toDigits_ne_nil
    | cons c tail =>
        rw [htext] at hhead hdigits
        have hc : c ≠ '0' := fun h => hhead (congrArg some h)
        simpa [parseInteger, hc] using hdigits

theorem parseFraction_pad {k : ℕ} (n : ℕ) (hk : k ≠ 0) {s : List Char} (hs : NoDigit s) :
    parseFraction ('.' :: Decimal.pad k n ++ s) = some (Decimal.pad k n, s) := by
  refine parseDigits_append (fun c hc => Decimal.isDigit_of_mem_pad hc) ?_ hs
  exact fun h => hk (by simpa using congrArg List.length h)

theorem parseUnsigned_eq {s s₁ s₂ rest integer fraction : List Char} {e : ℤ}
    (hinteger : parseInteger s = some (integer, s₁))
    (hfraction : parseFraction s₁ = some (fraction, s₂))
    (hexponent : parseExponent s₂ = some (e, rest)) :
    parseUnsigned s =
      some ((Nat.ofDigitChars 10 (integer ++ fraction) 0 : ℚ) / 10 ^ fraction.length * 10 ^ e,
        rest) := by
  simp [parseUnsigned, hinteger, hfraction, hexponent]

/-- A decimal text, up to its exponent. -/
theorem parseUnsigned_text (n k : ℕ) {s rest : List Char} {e : ℤ} (hs : NoDigit s)
    (hpoint : s.head? ≠ some '.') (hexponent : parseExponent s = some (e, rest)) :
    parseUnsigned (Decimal.text false n k ++ s) = some ((n : ℚ) / 10 ^ k * 10 ^ e, rest) := by
  by_cases hk : k = 0
  · subst k
    have hfraction : parseFraction s = some ([], s) := by
      cases s with
      | nil => rfl
      | cons c tail =>
          have hc : c ≠ '.' := fun h => hpoint (congrArg some h)
          simp [parseFraction, hc]
    have htext : Decimal.text false n 0 = Nat.toDigits 10 n := by simp [Decimal.text]
    rw [htext, parseUnsigned_eq (parseInteger_toDigits n hs) hfraction hexponent, List.append_nil,
      Nat.ofDigitChars_ten_toDigits]
    rfl
  · have hdot : NoDigit ('.' :: Decimal.pad k n ++ s) := by
      intro c hc
      rw [← Option.some.inj hc]
      rfl
    have htext : Decimal.text false n k ++ s =
        Nat.toDigits 10 (n / 10 ^ k) ++ ('.' :: Decimal.pad k n ++ s) := by
      simp [Decimal.text, hk]
    have hvalue : Nat.ofDigitChars 10 (Nat.toDigits 10 (n / 10 ^ k) ++ Decimal.pad k n) 0 = n := by
      rw [Nat.ofDigitChars_append, Nat.ofDigitChars_ten_toDigits,
        Nat.ofDigitChars_eq_ofDigitChars_zero, Decimal.ofDigitChars_pad, Decimal.length_pad]
      exact Nat.div_add_mod n (10 ^ k)
    rw [htext, parseUnsigned_eq (parseInteger_toDigits _ hdot) (parseFraction_pad n hk hs) hexponent,
      hvalue, Decimal.length_pad]

theorem parseNumber_neg {s rest : List Char} {x : ℚ} (h : parseUnsigned s = some (x, rest)) :
    parseNumber ('-' :: s) = some (-x, rest) := by
  simp [parseNumber, h]

theorem parseNumber_of_isDigit {c : Char} {s : List Char} (hc : c.isDigit = true) :
    parseNumber (c :: s) = parseUnsigned (c :: s) := by
  have hminus : c ≠ '-' := by
    rintro rfl
    cases hc
  simp [parseNumber, hminus]

/-- A text begins as a number does. -/
def Numeric (s : List Char) : Prop := ∃ c tail, s = c :: tail ∧ (c.isDigit = true ∨ c = '-')

theorem exists_cons_text (n k : ℕ) :
    ∃ c tail, Decimal.text false n k = c :: tail ∧ c.isDigit = true := by
  have hsplit : Decimal.text false n k =
      Nat.toDigits 10 (n / 10 ^ k) ++ if k = 0 then [] else '.' :: Decimal.pad k n := rfl
  cases htext : Nat.toDigits 10 (n / 10 ^ k) with
  | nil => exact absurd htext Nat.toDigits_ne_nil
  | cons c tail =>
      rw [hsplit, htext]
      exact ⟨c, _, rfl, isDigit_of_mem_toDigits (htext ▸ List.mem_cons_self)⟩

theorem text_true (n k : ℕ) : Decimal.text true n k = '-' :: Decimal.text false n k := rfl

theorem numeric_text (negative : Bool) (n k : ℕ) (s : List Char) :
    Numeric (Decimal.text negative n k ++ s) := by
  obtain ⟨c, tail, htext, hc⟩ := exists_cons_text n k
  cases negative with
  | false => exact ⟨c, tail ++ s, by rw [htext]; rfl, Or.inl hc⟩
  | true => exact ⟨'-', Decimal.text false n k ++ s, rfl, Or.inr rfl⟩

/-- A decimal text with a sign reads as its value. -/
theorem parseNumber_text (negative : Bool) (n k : ℕ) {s rest : List Char} {e : ℤ} (hs : NoDigit s)
    (hpoint : s.head? ≠ some '.') (hexponent : parseExponent s = some (e, rest)) :
    parseNumber (Decimal.text negative n k ++ s) =
      some (Decimal.value negative n k * 10 ^ e, rest) := by
  have hunsigned := parseUnsigned_text n k hs hpoint hexponent
  cases negative with
  | false =>
      obtain ⟨c, tail, htext, hc⟩ := exists_cons_text n k
      rw [htext] at hunsigned ⊢
      rw [List.cons_append, parseNumber_of_isDigit hc, ← List.cons_append, hunsigned, Decimal.value]
      simp
  | true =>
      rw [text_true, List.cons_append, parseNumber_neg hunsigned, Decimal.value]
      simp

/-! ### Values -/

theorem skipSpace_cons {c : Char} {s : List Char} (hc : isSpace c = false) :
    skipSpace (c :: s) = c :: s :=
  List.dropWhile_cons_of_neg (by simp [hc])

theorem skipSpace_space (s : List Char) : skipSpace (' ' :: s) = skipSpace s :=
  List.dropWhile_cons_of_pos rfl

theorem expect_cons {c : Char} (hc : isSpace c = false) (s : List Char) :
    expect c (c :: s) = some s := by
  simp [expect, skipSpace_cons hc]

theorem expect_cons_of_ne {c d : Char} (hd : isSpace d = false) (hne : d ≠ c) (s : List Char) :
    expect c (d :: s) = none := by
  simp [expect, skipSpace_cons hd, hne]

/-- The text of a value that has no parts. -/
def Atom (text : List Char) (value : Json (List Char)) : Prop :=
  ∀ fuel rest, Delimited rest → parseValue (fuel + 1) (text ++ rest) = some (value, rest)

theorem Atom.space {text : List Char} {value : Json (List Char)} (h : Atom text value) :
    Atom (' ' :: text) value := by
  intro fuel rest hrest
  rw [← h fuel rest hrest]
  simp only [parseValue, List.cons_append, skipSpace_space]

theorem Numeric.ne {c d : Char} (hc : c.isDigit = true ∨ c = '-') (hdigit : d.isDigit = false)
    (hminus : d ≠ '-') : c ≠ d := by
  rintro rfl
  rcases hc with hc | hc
  · rw [hdigit] at hc
    cases hc
  · exact hminus hc

/-- What begins as a number is no other value. -/
theorem parseAtom_number {s rest : List Char} {x : ℚ} (hs : Numeric s)
    (h : parseNumber s = some (x, rest)) : parseAtom s = some (number x, rest) := by
  obtain ⟨c, tail, rfl, hc⟩ := hs
  simp [parseAtom, h, Numeric.ne hc (d := 't') (by decide) (by decide),
    Numeric.ne hc (d := 'f') (by decide) (by decide), Numeric.ne hc (d := 'n') (by decide) (by decide)]

/-- What opens neither an object nor an array nor a string. -/
theorem parseValue_atom {fuel : ℕ} {s tail : List Char} {c : Char} (hs : skipSpace s = c :: tail)
    (hbrace : c ≠ '\x7b') (hbracket : c ≠ '[') (hquote : c ≠ '"') :
    parseValue (fuel + 1) s = parseAtom (c :: tail) := by
  simp [parseValue, hs, hbrace, hbracket, hquote]

theorem parseValue_number {fuel : ℕ} {s rest : List Char} {x : ℚ} (hs : Numeric s)
    (h : parseNumber s = some (x, rest)) : parseValue (fuel + 1) s = some (number x, rest) := by
  have hatom := parseAtom_number hs h
  obtain ⟨c, tail, rfl, hc⟩ := hs
  have hspace : isSpace c = false := by
    simp [isSpace, Numeric.ne hc (d := ' ') (by decide) (by decide),
      Numeric.ne hc (d := '\t') (by decide) (by decide),
      Numeric.ne hc (d := '\n') (by decide) (by decide),
      Numeric.ne hc (d := '\r') (by decide) (by decide)]
  rw [parseValue_atom (skipSpace_cons hspace) (Numeric.ne hc (by decide) (by decide))
    (Numeric.ne hc (by decide) (by decide)) (Numeric.ne hc (by decide) (by decide))]
  exact hatom

theorem atom_true : Atom "true".toList (bool true) := by
  intro fuel rest hrest
  rfl

/-- A text that reads as a number whatever separator follows. -/
theorem atom_number {text : List Char} {x : ℚ} (hnumeric : ∀ rest, Numeric (text ++ rest))
    (hparse : ∀ rest, Delimited rest → parseNumber (text ++ rest) = some (x, rest)) :
    Atom text (number x) :=
  fun _ rest hrest => parseValue_number (hnumeric rest) (hparse rest hrest)

theorem atom_text (negative : Bool) (n k : ℕ) :
    Atom (Decimal.text negative n k) (number (Decimal.value negative n k)) := by
  apply atom_number (numeric_text negative n k)
  intro rest hrest
  have hpoint : rest.head? ≠ some '.' := by
    rcases hrest.cases with rfl | ⟨c, tail, rfl, -, hc, -⟩
    · simp
    · simpa using hc
  simpa using parseNumber_text negative n k hrest.noDigit hpoint hrest.parseExponent

/-! ### Strings -/

/-- The text of a string in quotes. -/
def Quoted (text chars : List Char) : Prop := ∀ rest, parseString (text ++ rest) = some (chars, rest)

/-- A character that needs no escape. -/
def Plain (c : Char) : Prop := c ≠ '"' ∧ c ≠ '\\' ∧ ¬c.toNat < 0x20

instance (c : Char) : Decidable (Plain c) := inferInstanceAs (Decidable (_ ∧ _))

/-- The text can stand in quotes as it is. -/
def PlainText (s : String) : Prop := s.toList.all fun c => Plain c

instance (s : String) : Decidable (PlainText s) := inferInstanceAs (Decidable (_ = true))

theorem PlainText.plain {s : String} (h : PlainText s) : ∀ c ∈ s.toList, Plain c := by
  intro c hc
  exact of_decide_eq_true (List.all_eq_true.mp h c hc)

/-- Each text of a list reads as the character beside it. -/
theorem parseChars_flatMap {write : Char → List Char} {chars : List Char}
    (hwrite : ∀ c ∈ chars, ∀ rest, parseChar (write c ++ rest) = some (c, rest) ∧
      ∃ d tail, write c = d :: tail ∧ d ≠ '"') (rest : List Char) {fuel : ℕ}
    (hfuel : chars.length ≤ fuel) :
    parseChars fuel (chars.flatMap write ++ '"' :: rest) = some (chars, rest) := by
  induction chars generalizing fuel with
  | nil => cases fuel <;> rfl
  | cons c chars ih =>
      obtain ⟨fuel, rfl⟩ : ∃ n, fuel = n + 1 := ⟨fuel - 1, by simp at hfuel; omega⟩
      obtain ⟨hparse, d, tail, htext, hd⟩ :=
        hwrite c List.mem_cons_self (chars.flatMap write ++ '"' :: rest)
      have hrest : parseChars fuel (chars.flatMap write ++ '"' :: rest) = some (chars, rest) :=
        ih (fun c hc => hwrite c (List.mem_cons_of_mem _ hc)) (by simpa using hfuel)
      rw [htext, List.cons_append] at hparse
      rw [List.flatMap_cons, List.append_assoc, htext, List.cons_append]
      simp [parseChars, hd, hparse, hrest]

theorem length_le_flatMap {write : Char → List Char} {chars : List Char}
    (hwrite : ∀ c ∈ chars, ∃ d tail, write c = d :: tail) :
    chars.length ≤ (chars.flatMap write).length := by
  induction chars with
  | nil => rfl
  | cons c chars ih =>
      obtain ⟨d, tail, htext⟩ := hwrite c List.mem_cons_self
      have hrest := ih fun c hc => hwrite c (List.mem_cons_of_mem _ hc)
      simp only [List.flatMap_cons, htext, List.length_append, List.length_cons]
      omega

theorem quoted_flatMap {write : Char → List Char} {chars : List Char}
    (hwrite : ∀ c ∈ chars, ∀ rest, parseChar (write c ++ rest) = some (c, rest) ∧
      ∃ d tail, write c = d :: tail ∧ d ≠ '"') :
    Quoted ('"' :: (chars.flatMap write ++ ['"'])) chars := by
  intro rest
  have hlength : chars.length ≤ (chars.flatMap write ++ '"' :: rest).length := by
    have hsum := length_le_flatMap fun c hc => (hwrite c hc []).2.imp fun _ h => h.imp fun _ h => h.1
    simp only [List.length_append]
    omega
  have hsplit : '"' :: (chars.flatMap write ++ ['"']) ++ rest =
      '"' :: (chars.flatMap write ++ '"' :: rest) := by simp
  rw [hsplit, parseString, expect_cons rfl, Option.bind_eq_bind, Option.bind_some]
  exact parseChars_flatMap hwrite rest hlength

theorem parseChar_plain {c : Char} (hc : Plain c) (rest : List Char) :
    parseChar (c :: rest) = some (c, rest) := by
  obtain ⟨-, hslash, hcontrol⟩ := hc
  simp [parseChar, hslash, hcontrol]

theorem parseChar_escape {special c : Char} (h : unescape special = some c) (rest : List Char) :
    parseChar ('\\' :: special :: rest) = some (c, rest) := by
  have hu : special ≠ 'u' := by
    rintro rfl
    cases h
  simp [parseChar, h]

theorem quoted_plain {chars : List Char} (h : ∀ c ∈ chars, Plain c) :
    Quoted ('"' :: (chars ++ ['"'])) chars := by
  have hquoted : Quoted ('"' :: (chars.flatMap (fun c => [c]) ++ ['"'])) chars :=
    quoted_flatMap fun c hc rest => ⟨parseChar_plain (h c hc) rest, c, [], rfl, (h c hc).1⟩
  simpa using hquoted

theorem Quoted.expect {text chars : List Char} (h : Quoted text chars) (rest : List Char) :
    ∃ tail, skipSpace (text ++ rest) = '"' :: tail ∧
      parseChars tail.length tail = some (chars, rest) := by
  have hparse := h rest
  rw [parseString, Json.expect] at hparse
  cases htext : skipSpace (text ++ rest) with
  | nil => simp [htext] at hparse
  | cons d tail =>
      by_cases hd : d = '"'
      · subst d
        exact ⟨tail, rfl, by simpa [htext] using hparse⟩
      · simp [htext, hd] at hparse

theorem Quoted.atom {text chars : List Char} (h : Quoted text chars) : Atom text (string chars) := by
  intro fuel rest _
  obtain ⟨tail, hskip, hparse⟩ := h.expect rest
  simp [parseValue, hskip, hparse]

/-! ### Objects -/

/-- The texts of members, joined. -/
def joinMembers : List (List Char × List Char) → List Char
  | [] => []
  | [(key, value)] => key ++ ':' :: value
  | (key, value) :: rest => key ++ ':' :: value ++ ',' :: joinMembers rest

/-- The text of a member. -/
def Member (text : List Char × List Char) (member : List Char × Json (List Char)) : Prop :=
  Quoted text.1 member.1 ∧ Atom text.2 member.2

theorem delimited_cons {c : Char} (hc : c = ',' ∨ c = '\x7d' ∨ c = ']' ∨ isSpace c = true)
    (s : List Char) : Delimited (c :: s) := by
  intro d hd
  rw [← Option.some.inj hd]
  exact hc

theorem length_le_joinMembers (texts : List (List Char × List Char)) :
    texts.length ≤ (joinMembers texts).length := by
  induction texts with
  | nil => rfl
  | cons text rest ih =>
      cases rest with
      | nil =>
          simp only [joinMembers, List.length_append, List.length_cons, List.length_nil]
          omega
      | cons next rest =>
          simp only [joinMembers, List.length_append, List.length_cons] at ih ⊢
          omega

theorem parseMembers_last {fuel : ℕ} {s value rest key : List Char} {v : Json (List Char)}
    (hkey : parseString s = some (key, ':' :: value))
    (hvalue : parseValue fuel value = some (v, '\x7d' :: rest)) :
    parseMembers (fuel + 1) s = some ([(key, v)], rest) := by
  have hcolon : expect ':' (':' :: value) = some value := expect_cons rfl _
  have hcomma : expect ',' ('\x7d' :: rest) = none := expect_cons_of_ne rfl (by decide) _
  have hclose : expect '\x7d' ('\x7d' :: rest) = some rest := expect_cons rfl _
  simp [parseMembers, hkey, hcolon, hvalue, hcomma, hclose]

theorem parseMembers_cons {fuel : ℕ} {s value more rest key : List Char} {v : Json (List Char)}
    {members : List (List Char × Json (List Char))}
    (hkey : parseString s = some (key, ':' :: value))
    (hvalue : parseValue fuel value = some (v, ',' :: more))
    (hmore : parseMembers fuel more = some (members, rest)) :
    parseMembers (fuel + 1) s = some ((key, v) :: members, rest) := by
  have hcolon : expect ':' (':' :: value) = some value := expect_cons rfl _
  have hcomma : expect ',' (',' :: more) = some more := expect_cons rfl _
  simp [parseMembers, hkey, hcolon, hvalue, hcomma, hmore]

theorem parseMembers_joinMembers {texts : List (List Char × List Char)}
    {members : List (List Char × Json (List Char))} (h : List.Forall₂ Member texts members)
    (hne : texts ≠ []) (rest : List Char) {fuel : ℕ} (hfuel : texts.length < fuel) :
    parseMembers fuel (joinMembers texts ++ '\x7d' :: rest) = some (members, rest) := by
  induction h generalizing fuel with
  | nil => exact absurd rfl hne
  | @cons text member texts members hmember hrest ih =>
      obtain ⟨fuel, rfl⟩ : ∃ n, fuel = n + 2 :=
        ⟨fuel - 2, by simp only [List.length_cons] at hfuel; omega⟩
      cases hrest with
      | nil =>
          have htext : joinMembers [text] ++ '\x7d' :: rest =
              text.1 ++ ':' :: (text.2 ++ '\x7d' :: rest) := by simp [joinMembers]
          rw [htext]
          exact parseMembers_last (hmember.1 _) (hmember.2 fuel _ (delimited_cons (by simp) rest))
      | @cons next nextMember texts' members' hnext hmore =>
          have htext : joinMembers (text :: next :: texts') ++ '\x7d' :: rest =
              text.1 ++ ':' :: (text.2 ++ ',' :: (joinMembers (next :: texts') ++ '\x7d' :: rest)) := by
            simp [joinMembers]
          rw [htext]
          apply parseMembers_cons (hmember.1 _) (hmember.2 fuel _ (delimited_cons (by simp) _))
          exact ih (by simp) (by simpa using hfuel)

/-- The text of an object reads as the members that its texts denote. -/
theorem parse_object {texts : List (List Char × List Char)}
    {members : List (List Char × Json (List Char))} (h : List.Forall₂ Member texts members) :
    parse ('\x7b' :: (joinMembers texts ++ ['\x7d'])) = some (object members) := by
  cases h with
  | nil => rfl
  | @cons text member texts members hmember hrest =>
      have hall : List.Forall₂ Member (text :: texts) (member :: members) := .cons hmember hrest
      have hlength := length_le_joinMembers (text :: texts)
      have hparse : parseMembers ((joinMembers (text :: texts)).length + 1 + 1)
          (joinMembers (text :: texts) ++ ['\x7d']) = some (member :: members, []) :=
        parseMembers_joinMembers hall (by simp) [] (by omega)
      have hopen : ∃ tail, skipSpace (joinMembers (text :: texts) ++ ['\x7d']) = '"' :: tail := by
        have hjoin : ∃ more, joinMembers (text :: texts) = text.1 ++ more := by
          cases texts with
          | nil => exact ⟨_, rfl⟩
          | cons next texts => exact ⟨_, List.append_assoc _ _ _⟩
        obtain ⟨more, hmore⟩ := hjoin
        obtain ⟨tail, htail, -⟩ := hmember.1.expect (more ++ ['\x7d'])
        exact ⟨tail, by rw [hmore, List.append_assoc, htail]⟩
      obtain ⟨tail, hskip⟩ := hopen
      have hnone : Json.expect '\x7d' (joinMembers (text :: texts) ++ ['\x7d']) = none := by
        simp [Json.expect, hskip]
      simp [parse, parseValue, isSpace, skipSpace, hnone, hparse]

/-! ## Cut texts

What a reader finds in a text it also finds when more follows, unless it came to the end of the
text inside a number. So a text cut inside its outermost braces reads as nothing.
-/

section Firm

variable {α β : Type} {p q : List Char → Option (α × List Char)}

/-- What the one parser finds the other finds too when more text follows. -/
def Firm (p q : List Char → Option (α × List Char)) : Prop :=
  ∀ ⦃s x rest⦄, p s = some (x, rest) → ∀ t, q (s ++ t) = some (x, rest ++ t)

/-- The same where the parser left something. -/
def FirmInside (p q : List Char → Option (α × List Char)) : Prop :=
  ∀ ⦃s x rest⦄, p s = some (x, rest) → rest ≠ [] → ∀ t, q (s ++ t) = some (x, rest ++ t)

theorem Firm.inside (h : Firm p q) : FirmInside p q := fun _ _ _ hp _ => h hp

theorem Firm.map (h : Firm p q) {g : α × List Char → β × List Char} {f : α → β}
    (hg : ∀ x s, g (x, s) = (f x, s)) : Firm (fun s => (p s).map g) fun s => (q s).map g := by
  intro s y rest hp t
  obtain ⟨⟨x, left⟩, hfound, heq⟩ := Option.map_eq_some_iff.mp hp
  obtain ⟨rfl, rfl⟩ := Prod.mk.inj ((hg x left).symm.trans heq)
  simp [h hfound t, hg]

theorem FirmInside.map (h : FirmInside p q) {g : α × List Char → β × List Char} {f : α → β}
    (hg : ∀ x s, g (x, s) = (f x, s)) :
    FirmInside (fun s => (p s).map g) fun s => (q s).map g := by
  intro s y rest hp hrest t
  obtain ⟨⟨x, left⟩, hfound, heq⟩ := Option.map_eq_some_iff.mp hp
  obtain ⟨rfl, rfl⟩ := Prod.mk.inj ((hg x left).symm.trans heq)
  simp [h hfound hrest t, hg]

end Firm

theorem skipSpace_append {s : List Char} (h : skipSpace s ≠ []) (t : List Char) :
    skipSpace (s ++ t) = skipSpace s ++ t := by
  rw [skipSpace, List.dropWhile_append, if_neg]
  · rfl
  · simpa [skipSpace] using h

theorem skipSpace_ne_nil_of_expect {c : Char} {s rest : List Char} (h : expect c s = some rest) :
    skipSpace s ≠ [] := by
  intro hnil
  rw [expect, hnil] at h
  cases h

theorem expect_append {c : Char} {s rest : List Char} (h : expect c s = some rest)
    (t : List Char) : expect c (s ++ t) = some (rest ++ t) := by
  have hskip := skipSpace_append (skipSpace_ne_nil_of_expect h) t
  rw [expect] at h ⊢
  rw [hskip]
  cases htext : skipSpace s with
  | nil =>
      rw [htext] at h
      cases h
  | cons d tail =>
      simp only [htext, List.cons_append] at h ⊢
      split_ifs at h ⊢ with hd
      rw [Option.some.inj h]

theorem expect_append_none {c : Char} {s : List Char} (hs : skipSpace s ≠ [])
    (h : expect c s = none) (t : List Char) : expect c (s ++ t) = none := by
  rw [expect] at h ⊢
  rw [skipSpace_append hs]
  cases htext : skipSpace s with
  | nil => exact absurd htext hs
  | cons d tail =>
      simp only [htext, List.cons_append] at h ⊢
      split_ifs at h ⊢ with hd
      rfl

/-! ### Numbers -/

theorem firm_parseDigits : FirmInside parseDigits parseDigits := by
  intro s ds rest h hrest t
  rw [parseDigits] at h
  split_ifs at h with hnone
  obtain ⟨rfl, rfl⟩ := Prod.mk.inj (Option.some.inj h)
  have hlength : (s.takeWhile Char.isDigit).length ≠ s.length := by
    have hsum := congrArg List.length (List.takeWhile_append_dropWhile (p := Char.isDigit) (l := s))
    have hpos := List.length_pos_iff.mpr hrest
    rw [List.length_append] at hsum
    omega
  rw [parseDigits, List.takeWhile_append, List.dropWhile_append, if_neg hlength, if_neg hnone,
    if_neg (by simpa using hrest)]

theorem firm_parseInteger : FirmInside parseInteger parseInteger := by
  intro s ds rest h hrest t
  unfold parseInteger at h
  split at h
  · obtain ⟨rfl, rfl⟩ := Prod.mk.inj (Option.some.inj h)
    rfl
  next hzero =>
    have hmore := firm_parseDigits h hrest t
    cases s with
    | nil => cases h
    | cons c tail =>
        have hc : c ≠ '0' := fun heq => hzero tail (congrArg (· :: tail) heq)
        simpa [parseInteger, hc] using hmore

theorem firm_parseFraction : FirmInside parseFraction parseFraction := by
  intro s ds rest h hrest t
  unfold parseFraction at h
  split at h
  · exact firm_parseDigits h hrest t
  next hpoint =>
    obtain ⟨rfl, rfl⟩ := Prod.mk.inj (Option.some.inj h)
    cases s with
    | nil => exact absurd rfl hrest
    | cons c tail =>
        have hc : c ≠ '.' := fun heq => hpoint tail (congrArg (· :: tail) heq)
        simp [parseFraction, hc]

theorem firm_parseSigned : FirmInside parseSigned parseSigned := by
  intro s n rest h hrest t
  unfold parseSigned at h
  split at h
  · exact firm_parseDigits.map (fun _ _ => rfl) h hrest t
  · exact firm_parseDigits.map (fun _ _ => rfl) h hrest t
  next hminus hplus =>
    have hmore := firm_parseDigits.map (fun _ _ => rfl) h hrest t
    cases s with
    | nil => cases h
    | cons c tail =>
        have hc : c ≠ '-' := fun heq => hminus tail (congrArg (· :: tail) heq)
        have hd : c ≠ '+' := fun heq => hplus tail (congrArg (· :: tail) heq)
        simpa [parseSigned, hc, hd] using hmore

theorem firm_parseExponent : FirmInside parseExponent parseExponent := by
  intro s n rest h hrest t
  unfold parseExponent at h
  split at h
  · exact firm_parseSigned h hrest t
  · exact firm_parseSigned h hrest t
  next he hE =>
    obtain ⟨rfl, rfl⟩ := Prod.mk.inj (Option.some.inj h)
    cases s with
    | nil => exact absurd rfl hrest
    | cons c tail =>
        have hc : c ≠ 'e' := fun heq => he tail (congrArg (· :: tail) heq)
        have hd : c ≠ 'E' := fun heq => hE tail (congrArg (· :: tail) heq)
        simp [parseExponent, hc, hd]

theorem firm_parseUnsigned : FirmInside parseUnsigned parseUnsigned := by
  intro s x rest h hrest t
  simp only [parseUnsigned, Option.bind_eq_bind, Option.bind_eq_some_iff] at h
  obtain ⟨⟨integer, s₁⟩, hinteger, ⟨fraction, s₂⟩, hfraction, ⟨exponent, s₃⟩, hexponent, heq⟩ := h
  obtain ⟨rfl, rfl⟩ := Prod.mk.inj (Option.some.inj heq)
  -- nothing is left of an empty text
  have hs₂ : s₂ ≠ [] := by
    rintro rfl
    exact hrest (Prod.mk.inj (Option.some.inj hexponent)).2.symm
  have hs₁ : s₁ ≠ [] := by
    rintro rfl
    exact hs₂ (Prod.mk.inj (Option.some.inj hfraction)).2.symm
  exact parseUnsigned_eq (firm_parseInteger hinteger hs₁ t) (firm_parseFraction hfraction hs₂ t)
    (firm_parseExponent hexponent hrest t)

theorem firm_parseNumber : FirmInside parseNumber parseNumber := by
  intro s x rest h hrest t
  unfold parseNumber at h
  split at h
  · exact firm_parseUnsigned.map (fun _ _ => rfl) h hrest t
  next hminus =>
    have hmore := firm_parseUnsigned h hrest t
    cases s with
    | nil => cases h
    | cons c tail =>
        have hc : c ≠ '-' := fun heq => hminus tail (congrArg (· :: tail) heq)
        simpa [parseNumber, hc] using hmore

/-! ### Strings -/

theorem firm_parseUnit : Firm parseUnit parseUnit := by
  intro s n rest h t
  unfold parseUnit at h
  split at h
  next a b c d tail =>
    simp only [Option.bind_eq_bind, Option.bind_eq_some_iff] at h
    obtain ⟨a', ha, b', hb, c', hc, d', hd, heq⟩ := h
    obtain ⟨rfl, rfl⟩ := Prod.mk.inj (Option.some.inj heq)
    simp [parseUnit, ha, hb, hc, hd]
  · cases h

theorem firm_parseUnicode : Firm parseUnicode parseUnicode := by
  intro s c rest h t
  simp only [parseUnicode, Option.bind_eq_bind, Option.bind_eq_some_iff] at h
  obtain ⟨⟨high, s₁⟩, hhigh, h⟩ := h
  have hmore := firm_parseUnit hhigh t
  dsimp only at h
  split at h
  next hplain =>
    obtain ⟨rfl, rfl⟩ := Prod.mk.inj (Option.some.inj h)
    simp [parseUnicode, hmore, hplain]
  next hpair =>
    split at h
    next s₂ =>
      simp only [Option.bind_eq_some_iff] at h
      obtain ⟨⟨low, s₃⟩, hlow, h⟩ := h
      have hlowMore := firm_parseUnit hlow t
      dsimp only at h
      split at h
      next hrange =>
        obtain ⟨rfl, rfl⟩ := Prod.mk.inj (Option.some.inj h)
        simp [parseUnicode, hmore, hpair, hlowMore, hrange]
      · cases h
    · cases h

theorem firm_parseChar : Firm parseChar parseChar := by
  intro s c rest h t
  unfold parseChar at h
  split at h
  · cases h
  · cases h
  · exact firm_parseUnicode h t
  next d tail hu =>
    obtain ⟨e, he, heq⟩ := Option.map_eq_some_iff.mp h
    obtain ⟨rfl, rfl⟩ := Prod.mk.inj heq
    have hd : d ≠ 'u' := by
      rintro rfl
      cases he
    simp [parseChar, he]
  next d tail hslash hu hescape =>
    split at h
    · cases h
    next hcontrol =>
      obtain ⟨rfl, rfl⟩ := Prod.mk.inj (Option.some.inj h)
      have hd : d ≠ '\\' := by
        rintro rfl
        cases tail with
        | nil => exact hslash rfl rfl
        | cons e tail => exact hescape e tail rfl rfl
      simp [parseChar, hd, hcontrol]

theorem firm_parseChars {fuel fuel' : ℕ} (hle : fuel ≤ fuel') :
    Firm (parseChars fuel) (parseChars fuel') := by
  induction fuel generalizing fuel' with
  | zero =>
      intro s cs rest h t
      unfold parseChars at h
      split at h
      · obtain ⟨rfl, rfl⟩ := Prod.mk.inj (Option.some.inj h)
        cases fuel' <;> rfl
      · cases h
      · contradiction
  | succ fuel ih =>
      obtain ⟨fuel', rfl⟩ := Nat.exists_eq_succ_of_ne_zero (Nat.ne_zero_of_lt hle)
      intro s cs rest h t
      cases s with
      | nil => cases h
      | cons d tail =>
          by_cases hd : d = '"'
          · subst d
            obtain ⟨rfl, rfl⟩ := Prod.mk.inj (Option.some.inj h)
            rfl
          · have hquote : ∀ more, d :: tail = '"' :: more → False := fun more heq =>
              hd (List.cons.inj heq).1
            simp only [parseChars, Option.bind_eq_bind, Option.bind_eq_some_iff] at h
            obtain ⟨⟨c, s₁⟩, hc, ⟨cs', s₂⟩, hcs, heq⟩ := h
            obtain ⟨rfl, rfl⟩ := Prod.mk.inj (Option.some.inj heq)
            have hchar := firm_parseChar hc t
            have hchars := ih (Nat.le_of_succ_le_succ hle) hcs t
            rw [List.cons_append] at hchar ⊢
            simp [parseChars, hd, hchar, hchars]

theorem firm_parseString : Firm parseString parseString := by
  intro s cs rest h t
  simp only [parseString, Option.bind_eq_bind, Option.bind_eq_some_iff] at h
  obtain ⟨s₁, hquote, hchars⟩ := h
  have hlength : s₁.length ≤ (s₁ ++ t).length := by simp
  rw [parseString, expect_append hquote t]
  exact firm_parseChars hlength hchars t

/-! ### Values -/

theorem numeric_of_parseNumber {s rest : List Char} {x : ℚ} (h : parseNumber s = some (x, rest)) :
    Numeric s := by
  unfold parseNumber at h
  split at h
  · exact ⟨'-', _, rfl, Or.inr rfl⟩
  · simp only [parseUnsigned, Option.bind_eq_bind, Option.bind_eq_some_iff] at h
    obtain ⟨⟨integer, s₁⟩, hinteger, -⟩ := h
    unfold parseInteger at hinteger
    split at hinteger
    · exact ⟨'0', _, rfl, Or.inl rfl⟩
    next tail _ =>
      cases s with
      | nil => cases hinteger
      | cons c tail => exact ⟨c, tail, rfl, Or.inl (isDigit_of_parseDigits hinteger)⟩

theorem Numeric.append {s : List Char} (h : Numeric s) (t : List Char) : Numeric (s ++ t) := by
  obtain ⟨c, tail, rfl, hc⟩ := h
  exact ⟨c, tail ++ t, rfl, hc⟩

theorem firm_parseAtom : FirmInside parseAtom parseAtom := by
  intro s x rest h hrest t
  unfold parseAtom at h
  split at h
  · obtain ⟨rfl, rfl⟩ := Prod.mk.inj (Option.some.inj h)
    rfl
  · obtain ⟨rfl, rfl⟩ := Prod.mk.inj (Option.some.inj h)
    rfl
  · obtain ⟨rfl, rfl⟩ := Prod.mk.inj (Option.some.inj h)
    rfl
  · obtain ⟨⟨y, left⟩, hnumber, heq⟩ := Option.map_eq_some_iff.mp h
    obtain ⟨rfl, rfl⟩ := Prod.mk.inj heq
    exact parseAtom_number ((numeric_of_parseNumber hnumber).append t)
      (firm_parseNumber hnumber hrest t)

theorem skipSpace_ne_nil_of_parseAtom {s rest : List Char} {x : Json (List Char)}
    (h : parseAtom (skipSpace s) = some (x, rest)) : skipSpace s ≠ [] := by
  intro hnil
  rw [hnil] at h
  cases h

theorem skipSpace_ne_nil_of_parseValue {fuel : ℕ} {s rest : List Char} {x : Json (List Char)}
    (h : parseValue fuel s = some (x, rest)) : skipSpace s ≠ [] := by
  intro hnil
  cases fuel with
  | zero => cases h
  | succ fuel =>
      rw [parseValue, hnil] at h
      cases h

theorem skipSpace_ne_nil_of_parseMembers {fuel : ℕ} {s rest : List Char}
    {members : List (List Char × Json (List Char))}
    (h : parseMembers fuel s = some (members, rest)) : skipSpace s ≠ [] := by
  cases fuel with
  | zero => cases h
  | succ fuel =>
      simp only [parseMembers, parseString, Option.bind_eq_bind, Option.bind_eq_some_iff] at h
      obtain ⟨-, ⟨s₁, hquote, -⟩, -⟩ := h
      exact skipSpace_ne_nil_of_expect hquote

theorem skipSpace_ne_nil_of_parseElements {fuel : ℕ} {s rest : List Char}
    {elements : List (Json (List Char))}
    (h : parseElements fuel s = some (elements, rest)) : skipSpace s ≠ [] := by
  cases fuel with
  | zero => cases h
  | succ fuel =>
      simp only [parseElements, Option.bind_eq_bind, Option.bind_eq_some_iff] at h
      obtain ⟨⟨value, s₁⟩, hvalue, -⟩ := h
      exact skipSpace_ne_nil_of_parseValue hvalue

theorem firm_parseValue {fuel fuel' : ℕ}
    (hmembers : Firm (parseMembers fuel) (parseMembers fuel'))
    (helements : Firm (parseElements fuel) (parseElements fuel')) :
    FirmInside (parseValue (fuel + 1)) (parseValue (fuel' + 1)) := by
  intro s x rest h hrest t
  have hskip := skipSpace_append (skipSpace_ne_nil_of_parseValue h) t
  rw [parseValue] at h
  split at h
  next s₁ hbrace =>
    rw [hbrace, List.cons_append] at hskip
    split at h
    next s₂ hempty =>
      obtain ⟨rfl, rfl⟩ := Prod.mk.inj (Option.some.inj h)
      simp [parseValue, hskip, expect_append hempty t]
    next hnone =>
      obtain ⟨⟨members, s₂⟩, hfound, heq⟩ := Option.map_eq_some_iff.mp h
      obtain ⟨rfl, rfl⟩ := Prod.mk.inj heq
      have hmore := expect_append_none (skipSpace_ne_nil_of_parseMembers hfound) hnone t
      simp [parseValue, hskip, hmore, hmembers hfound t]
  next s₁ hbracket =>
    rw [hbracket, List.cons_append] at hskip
    split at h
    next s₂ hempty =>
      obtain ⟨rfl, rfl⟩ := Prod.mk.inj (Option.some.inj h)
      simp [parseValue, hskip, expect_append hempty t]
    next hnone =>
      obtain ⟨⟨elements, s₂⟩, hfound, heq⟩ := Option.map_eq_some_iff.mp h
      obtain ⟨rfl, rfl⟩ := Prod.mk.inj heq
      have hmore := expect_append_none (skipSpace_ne_nil_of_parseElements hfound) hnone t
      simp [parseValue, hskip, hmore, helements hfound t]
  next s₁ hquote =>
    rw [hquote, List.cons_append] at hskip
    obtain ⟨⟨cs, s₂⟩, hfound, heq⟩ := Option.map_eq_some_iff.mp h
    obtain ⟨rfl, rfl⟩ := Prod.mk.inj heq
    have hlength : s₁.length ≤ (s₁ ++ t).length := by simp
    have hchars := firm_parseChars hlength hfound t
    rw [parseValue, hskip]
    simp only [hchars, Option.map_some]
  next hbrace hbracket hquote =>
    obtain ⟨c, tail, htext⟩ := List.exists_cons_of_ne_nil (skipSpace_ne_nil_of_parseAtom h)
    rw [htext] at h hbrace hbracket hquote hskip
    rw [parseValue_atom hskip (fun heq => hbrace tail (congrArg (· :: tail) heq))
      (fun heq => hbracket tail (congrArg (· :: tail) heq))
      (fun heq => hquote tail (congrArg (· :: tail) heq))]
    exact firm_parseAtom h hrest t

theorem firm_parseMembers {fuel fuel' : ℕ}
    (hvalue : FirmInside (parseValue fuel) (parseValue fuel'))
    (hmembers : Firm (parseMembers fuel) (parseMembers fuel')) :
    Firm (parseMembers (fuel + 1)) (parseMembers (fuel' + 1)) := by
  intro s x rest h t
  simp only [parseMembers, Option.bind_eq_bind, Option.bind_eq_some_iff] at h
  obtain ⟨⟨key, s₁⟩, hkey, s₂, hcolon, ⟨value, s₃⟩, hfound, h⟩ := h
  have hleft : s₃ ≠ [] := by
    rintro rfl
    cases h
  have hkeyMore := firm_parseString hkey t
  have hcolonMore := expect_append hcolon t
  have hfoundMore := hvalue hfound hleft t
  split at h
  next s₄ hcomma =>
    obtain ⟨⟨members, s₅⟩, hothers, heq⟩ := Option.map_eq_some_iff.mp h
    obtain ⟨rfl, rfl⟩ := Prod.mk.inj heq
    simp [parseMembers, hkeyMore, hcolonMore, hfoundMore, expect_append hcomma t,
      hmembers hothers t]
  next hnone =>
    obtain ⟨s₄, hbrace, heq⟩ := Option.map_eq_some_iff.mp h
    obtain ⟨rfl, rfl⟩ := Prod.mk.inj heq
    have hcommaMore := expect_append_none (skipSpace_ne_nil_of_expect hbrace) hnone t
    simp [parseMembers, hkeyMore, hcolonMore, hfoundMore, hcommaMore, expect_append hbrace t]

theorem firm_parseElements {fuel fuel' : ℕ}
    (hvalue : FirmInside (parseValue fuel) (parseValue fuel'))
    (helements : Firm (parseElements fuel) (parseElements fuel')) :
    Firm (parseElements (fuel + 1)) (parseElements (fuel' + 1)) := by
  intro s x rest h t
  simp only [parseElements, Option.bind_eq_bind, Option.bind_eq_some_iff] at h
  obtain ⟨⟨value, s₃⟩, hfound, h⟩ := h
  have hleft : s₃ ≠ [] := by
    rintro rfl
    cases h
  have hfoundMore := hvalue hfound hleft t
  split at h
  next s₄ hcomma =>
    obtain ⟨⟨elements, s₅⟩, hothers, heq⟩ := Option.map_eq_some_iff.mp h
    obtain ⟨rfl, rfl⟩ := Prod.mk.inj heq
    simp [parseElements, hfoundMore, expect_append hcomma t, helements hothers t]
  next hnone =>
    obtain ⟨s₄, hbracket, heq⟩ := Option.map_eq_some_iff.mp h
    obtain ⟨rfl, rfl⟩ := Prod.mk.inj heq
    have hcommaMore := expect_append_none (skipSpace_ne_nil_of_expect hbracket) hnone t
    simp [parseElements, hfoundMore, hcommaMore, expect_append hbracket t]

/-- The three parsers of nested values, at once: each calls the others with less fuel. -/
theorem firm_nested {fuel fuel' : ℕ} (hle : fuel ≤ fuel') :
    FirmInside (parseValue fuel) (parseValue fuel') ∧ Firm (parseMembers fuel) (parseMembers fuel') ∧
      Firm (parseElements fuel) (parseElements fuel') := by
  induction fuel generalizing fuel' with
  | zero =>
      refine ⟨?_, ?_, ?_⟩
      · intro s x rest h
        cases h
      · intro s x rest h
        cases h
      · intro s x rest h
        cases h
  | succ fuel ih =>
      obtain ⟨fuel', rfl⟩ := Nat.exists_eq_succ_of_ne_zero (Nat.ne_zero_of_lt hle)
      obtain ⟨hvalue, hmembers, helements⟩ := ih (Nat.le_of_succ_le_succ hle)
      exact ⟨firm_parseValue hmembers helements, firm_parseMembers hvalue hmembers,
        firm_parseElements hvalue helements⟩

/-- What an object's opening brace leads to is read up to the brace that closes it. -/
theorem parseValue_object_append {fuel fuel' : ℕ} (hle : fuel ≤ fuel') {s rest : List Char}
    {x : Json (List Char)} (h : parseValue fuel ('{' :: s) = some (x, rest)) (t : List Char) :
    parseValue fuel' ('{' :: (s ++ t)) = some (x, rest ++ t) := by
  cases fuel with
  | zero => cases h
  | succ fuel =>
      obtain ⟨fuel', rfl⟩ := Nat.exists_eq_succ_of_ne_zero (Nat.ne_zero_of_lt hle)
      have hmembers := (firm_nested (Nat.le_of_succ_le_succ hle)).2.1
      simp only [parseValue, skipSpace_cons (c := '{') rfl] at h ⊢
      split at h
      next s₁ hempty =>
        obtain ⟨rfl, rfl⟩ := Prod.mk.inj (Option.some.inj h)
        simp [expect_append hempty t]
      next hnone =>
        obtain ⟨⟨members, s₁⟩, hfound, heq⟩ := Option.map_eq_some_iff.mp h
        obtain ⟨rfl, rfl⟩ := Prod.mk.inj heq
        have hmore := expect_append_none (skipSpace_ne_nil_of_parseMembers hfound) hnone t
        simp [hmore, hmembers hfound t]

/-- An object that lost an end of its text is no JSON text. -/
theorem parse_cut {s t : List Char} {x : Json (List Char)}
    (h : parse ('{' :: (s ++ t)) = some x) (ht : skipSpace t ≠ []) :
    parse ('{' :: s) = none := by
  cases hcut : parseValue (s.length + 1 + 1) ('{' :: s) with
  | none => simp [parse, hcut]
  | some found =>
      obtain ⟨y, rest⟩ := found
      have hlength : s.length + 1 + 1 ≤ (s ++ t).length + 1 + 1 := by simp
      have hwhole := parseValue_object_append hlength hcut t
      have hspace : skipSpace (rest ++ t) ≠ [] := by
        intro hnil
        rw [skipSpace, List.dropWhile_append] at hnil
        split_ifs at hnil with hrest
        · exact ht hnil
        · exact hrest (by simp [(List.append_eq_nil_iff.mp hnil).1])
      change (match parseValue ((s ++ t).length + 1 + 1) ('\x7b' :: (s ++ t)) with
        | some (value, rest) => if skipSpace rest = [] then some value else none
        | none => none) = some x at h
      rw [hwhole] at h
      simp [hspace] at h

end Json
