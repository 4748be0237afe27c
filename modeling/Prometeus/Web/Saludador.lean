import Prometeus.Foundation.Json
import Prometeus.Foundation.Properties

/-! # The greeting list

`DataService` stores lists of greetings under keys that the database makes up, and maps
the stored object to a list of items: for each record its key as `id`, and the record's own fields
spread over it.
-/

namespace Web.Saludador

open Properties

/-- A string is a list of UTF-16 code units. -/
abbrev JsString := List UInt16

/-- The code units of a text. -/
def utf16 (text : String) : JsString :=
  text.toList.flatMap fun c =>
    if c.toNat < 0x10000 then [UInt16.ofNat c.toNat]
    else [UInt16.ofNat (0xD800 + (c.toNat - 0x10000) / 0x400),
      UInt16.ofNat (0xDC00 + (c.toNat - 0x10000) % 0x400)]

abbrev Value := Json JsString

abbrev Object := Properties JsString Value

/-- The property key of an index. -/
def indexKey (i : ℕ) : JsString := (Nat.toDigits 10 i).map fun c => UInt16.ofNat c.toNat

/-- The index that a key stands for, if it is the canonical text of one. -/
def arrayIndex (key : JsString) : Option ℕ :=
  let i := Nat.ofDigitChars 10 (key.map fun unit => Char.ofNat unit.toNat) 0
  if indexKey i = key ∧ i < 2 ^ 32 - 1 then some i else none

/-- The order of enumeration: indices first, by number, and the rest as created. -/
def enumerated (o : Object) : Object :=
  (o.filter fun p => (arrayIndex p.1).isSome).insertionSort
      (fun p q => (arrayIndex p.1).getD 0 ≤ (arrayIndex q.1).getD 0) ++
    o.filter fun p => ¬ (arrayIndex p.1).isSome

/-- The enumerable own properties of a parsed value. Of two members with one name the second one
counts. -/
def properties : Value → Object
  | .string units => units.zipIdx.map fun (unit, i) => (indexKey i, .string [unit])
  | .array elements => elements.zipIdx.map fun (element, i) => (indexKey i, element)
  | .object members => enumerated (spread [] members)
  | _ => []

/-- What `post` sends. -/
def Salvar (saludador : List JsString) : Value := .array (saludador.map .string)

inductive TypeError
  | notAFunction

/-- `value.hasOwnProperty(key)`; an own property of that name hides the inherited method, and
no JSON value can be called. -/
def hasOwnProperty (value : Value) (key : JsString) : Except TypeError Bool :=
  match (properties value).get (utf16 "hasOwnProperty") with
  | some _ => .error .notAFunction
  | none => .ok ((properties value).get key).isSome

/-- The object literal with the spread record. -/
def item (key : JsString) (record : Value) : Object :=
  spread [(utf16 "id", .string key)] (properties record)

/-- The function that `map` applies to the response. -/
def mostrarSaludador (responseData : Value) : Except TypeError (List Object) :=
  ((properties responseData).map Prod.fst).foldlM (fun items key => do
    if ← hasOwnProperty responseData key then
      pure (items ++ [item key (((properties responseData).get key).getD .null)])
    else
      pure items) []

/-! ## Keys -/

theorem toNat_unit {i : ℕ} {c : Char} (hc : c ∈ Nat.toDigits 10 i) :
    (UInt16.ofNat c.toNat).toNat = c.toNat ∧ c.toNat ≤ 57 := by
  have hdigit := Nat.isDigit_of_mem_toDigits (by decide) (by decide) hc
  simp only [Char.isDigit, Bool.and_eq_true, decide_eq_true_eq] at hdigit
  have hle : c.toNat ≤ 57 := UInt32.le_iff_toNat_le.mp hdigit.2
  exact ⟨by rw [UInt16.toNat_ofNat', Nat.mod_eq_of_lt (by omega)], hle⟩

theorem ofDigitChars_indexKey (i : ℕ) :
    Nat.ofDigitChars 10 ((indexKey i).map fun unit => Char.ofNat unit.toNat) 0 = i := by
  have hmap : (indexKey i).map (fun unit => Char.ofNat unit.toNat) = Nat.toDigits 10 i := by
    rw [indexKey, List.map_map]
    conv_rhs => rw [← List.map_id (Nat.toDigits 10 i)]
    apply List.map_congr_left
    intro c hc
    rw [Function.comp_apply, (toNat_unit hc).1, Char.ofNat_toNat, id]
  rw [hmap, Nat.ofDigitChars_toDigits (by decide) (by decide)]

theorem indexKey_injective : Function.Injective indexKey := by
  intro i j h
  rw [← ofDigitChars_indexKey i, h, ofDigitChars_indexKey]

theorem indexKey_ne_id (i : ℕ) : indexKey i ≠ utf16 "id" := by
  intro h
  have hmem : UInt16.ofNat 0x69 ∈ indexKey i := by
    rw [h]
    decide
  obtain ⟨c, hc, hunit⟩ := List.mem_map.mp hmem
  obtain ⟨hvalue, hle⟩ := toNat_unit hc
  rw [hunit] at hvalue
  have hletter : (UInt16.ofNat 0x69).toNat = 0x69 := rfl
  omega

/-! ## Own properties -/

theorem perm_enumerated (o : Object) : (enumerated o).Perm o := by
  have hsplit := List.filter_append_perm (fun p : JsString × Value => (arrayIndex p.1).isSome) o
  refine List.Perm.trans ?_ hsplit
  rw [enumerated]
  refine (List.perm_insertionSort _ _).append (List.Perm.of_eq (List.filter_congr ?_))
  intro p _
  cases arrayIndex p.1 <;> rfl

theorem nodup_indexed {α : Type} (xs : List α) (f : α → Value) :
    (keys (xs.zipIdx.map fun (x, i) => (indexKey i, f x))).Nodup := by
  have hkeys : keys (xs.zipIdx.map fun (x, i) => (indexKey i, f x)) =
      (List.range' 0 xs.length).map indexKey := by
    rw [← List.zipIdx_map_snd, keys, List.map_map, List.map_map]
    rfl
  rw [hkeys]
  exact (List.nodup_range' _ Nat.one_pos).map indexKey_injective

theorem nodup_properties (value : Value) : (keys (properties value)).Nodup := by
  have hnil : (keys ([] : Object)).Nodup := List.nodup_nil
  cases value with
  | null => exact hnil
  | bool b => exact hnil
  | number x => exact hnil
  | string units => exact nodup_indexed units fun unit => .string [unit]
  | array elements => exact nodup_indexed elements id
  | object members =>
      exact ((perm_enumerated _).map Prod.fst).nodup_iff.mpr (nodup_spread hnil members)

/-- Element `i` of an array is found under `i`. -/
theorem get_array (elements : List Value) (i : ℕ) :
    get (properties (.array elements)) (indexKey i) = elements[i]? := by
  apply Option.ext
  intro value
  rw [get_eq_some_iff (nodup_properties _)]
  constructor
  · intro hmem
    obtain ⟨⟨x, j⟩, hx, heq⟩ := List.mem_map.mp hmem
    obtain ⟨hj, rfl⟩ := Prod.mk.inj heq
    obtain rfl := indexKey_injective hj
    exact List.mem_zipIdx_iff_getElem?.mp hx
  · intro hget
    exact List.mem_map.mpr ⟨(value, i), List.mem_zipIdx_iff_getElem?.mpr hget, rfl⟩

/-! ## Items -/

/-- The item is the record under its key: the key as `id`, and otherwise the record's own fields. -/
def Matches (record : JsString × Value) (o : Object) : Prop :=
  get o (utf16 "id") = some (.string record.1) ∧
    ∀ name, name ≠ utf16 "id" → get o name = get (properties record.2) name

/-- Every record of the store has its item in the list, and the items have different keys. -/
def Faithful (responseData : Value) : Prop :=
  ∃ items, mostrarSaludador responseData = .ok items ∧
    List.Forall₂ Matches (properties responseData) items ∧
    (items.map fun o => get o (utf16 "id")).Nodup

/-- No record has an `id` of its own that differs from its key. -/
def Tame (record : JsString × Value) : Prop :=
  ∀ value, get (properties record.2) (utf16 "id") = some value → value = .string record.1

theorem get_item (key : JsString) (record : Value) (name : JsString) :
    get (item key record) name = (get (properties record) name).or
      (if utf16 "id" = name then some (.string key) else none) := by
  rw [item, get_spread _ (nodup_properties record), get_singleton]

theorem matches_item_iff (key : JsString) (record : Value) :
    Matches (key, record) (item key record) ↔ Tame (key, record) := by
  constructor
  · intro h value hvalue
    have hid := h.1
    rw [get_item, hvalue, Option.some_or] at hid
    exact Option.some.inj hid
  · intro h
    refine ⟨?_, fun name hname => ?_⟩
    · rw [get_item, if_pos rfl]
      cases hget : get (properties record) (utf16 "id") with
      | none => rfl
      | some value => rw [h value hget, Option.some_or]
    · rw [get_item, if_neg (Ne.symm hname), Option.or_none]

/-- A list of greetings is recovered from its item. -/
theorem Matches.recovers {key : JsString} {saludador : List JsString} {o : Object}
    (h : Matches (key, Salvar saludador) o) (i : ℕ) :
    get o (indexKey i) = saludador[i]?.map .string := by
  rw [h.2 _ (indexKey_ne_id i), Salvar, get_array, List.getElem?_map]

/-! ## The list -/

theorem hasOwnProperty_eq {value : Value}
    (hown : get (properties value) (utf16 "hasOwnProperty") = none) {record : JsString × Value}
    (hmem : record ∈ properties value) : hasOwnProperty value record.1 = .ok true := by
  have hget := (get_eq_some_iff (nodup_properties value)).mpr hmem
  rw [hasOwnProperty, hown]
  dsimp only
  rw [hget, Option.isSome_some]

/-- The loop over the records that are left, `rest`, from the items so far. -/
theorem foldlM_items {value : Value}
    (hown : get (properties value) (utf16 "hasOwnProperty") = none) (rest : Object)
    (hrest : ∀ record ∈ rest, record ∈ properties value) (items : List Object) :
    (rest.map Prod.fst).foldlM (fun items key => do
      if ← hasOwnProperty value key then
        pure (items ++ [item key (((properties value).get key).getD .null)])
      else
        pure items) items = .ok (items ++ rest.map fun record => item record.1 record.2) := by
  induction rest generalizing items with
  | nil => simp [pure, Except.pure]
  | cons record rest ih =>
      have hmem := hrest record List.mem_cons_self
      have hget := (get_eq_some_iff (nodup_properties value)).mpr hmem
      rw [List.map_cons, List.foldlM_cons, hasOwnProperty_eq hown hmem, hget]
      change List.foldlM _ (items ++ [item record.1 record.2]) _ = _
      rw [ih (fun r hr => hrest r (List.mem_cons_of_mem _ hr))]
      simp

theorem mostrarSaludador_eq {value : Value}
    (hown : get (properties value) (utf16 "hasOwnProperty") = none) :
    mostrarSaludador value = .ok ((properties value).map fun record => item record.1 record.2) := by
  rw [mostrarSaludador, foldlM_items hown _ fun record hmem => hmem, List.nil_append]

/-- A record under the key `hasOwnProperty` stops the loop at its first record. -/
theorem mostrarSaludador_error {value : Value}
    (hown : get (properties value) (utf16 "hasOwnProperty") ≠ none) :
    mostrarSaludador value = .error .notAFunction := by
  obtain ⟨method, hmethod⟩ := Option.ne_none_iff_exists'.mp hown
  rw [mostrarSaludador]
  cases hproperties : properties value with
  | nil =>
      rw [hproperties] at hmethod
      cases hmethod
  | cons record rest =>
      rw [List.map_cons, List.foldlM_cons, hasOwnProperty, hmethod]
      rfl

theorem Matches.ids {records : Object} {items : List Object} (h : List.Forall₂ Matches records items) :
    (items.map fun o => get o (utf16 "id")) = records.map fun record => some (.string record.1) := by
  induction h with
  | nil => rfl
  | cons hmatch _ ih => rw [List.map_cons, List.map_cons, hmatch.1, ih]

theorem Faithful.tame {responseData : Value} (h : Faithful responseData) :
    get (properties responseData) (utf16 "hasOwnProperty") = none ∧
      ∀ record ∈ properties responseData, Tame record := by
  obtain ⟨items, hok, hmatches, -⟩ := h
  by_cases hown : get (properties responseData) (utf16 "hasOwnProperty") = none
  · refine ⟨hown, fun record hmem => ?_⟩
    rw [mostrarSaludador_eq hown] at hok
    obtain rfl := Except.ok.inj hok
    rw [List.forall₂_map_right_iff, List.forall₂_same] at hmatches
    exact (matches_item_iff _ _).mp (hmatches record hmem)
  · rw [mostrarSaludador_error hown] at hok
    cases hok

/-- The list is a faithful image of the store exactly when no record stands under `hasOwnProperty`
and no record has an `id` that differs from its key; a stored list of greetings is then
recovered from its item. -/
theorem faithful_iff (responseData : Value) : (Faithful responseData ↔
    get (properties responseData) (utf16 "hasOwnProperty") = none ∧
      ∀ record ∈ properties responseData, Tame record) ∧
    ∀ key saludador o, Matches (key, Salvar saludador) o →
      ∀ i : ℕ, get o (indexKey i) = saludador[i]?.map .string := by
  refine ⟨⟨Faithful.tame, ?_⟩, fun key saludador o h => h.recovers⟩
  rintro ⟨hown, htame⟩
  have hmatches : List.Forall₂ Matches (properties responseData)
      ((properties responseData).map fun record => item record.1 record.2) := by
    rw [List.forall₂_map_right_iff, List.forall₂_same]
    exact fun record hmem => (matches_item_iff _ _).mpr (htame record hmem)
  refine ⟨_, mostrarSaludador_eq hown, hmatches, ?_⟩
  have hids : (properties responseData).map (fun record => some (Json.string record.1)) =
      (keys (properties responseData)).map fun key => some (Json.string key) := by
    rw [keys, List.map_map]
    rfl
  rw [Matches.ids hmatches, hids]
  apply (nodup_properties responseData).map
  intro key key' heq
  exact Json.string.inj (Option.some.inj heq)

/-! ## Two stores -/

/-- A record with an `id` of its own. -/
def renamed : Value := .object [(utf16 "-N1", .object [(utf16 "id", .string (utf16 "-N2"))])]

/-- A list stored under the name of the method. -/
def shadowed : Value :=
  .object [(utf16 "-N1", Salvar [utf16 "Ana"]), (utf16 "hasOwnProperty", Salvar [utf16 "Beto"])]

/-- The first item loses its key, and the second list is not shown at all. -/
theorem stores_not_faithful : ¬ Faithful renamed ∧ ¬ Faithful shadowed := by
  refine ⟨fun h => ?_, fun h => ?_⟩
  · have htame := h.tame.2 (utf16 "-N1", .object [(utf16 "id", .string (utf16 "-N2"))])
      (by rw [show properties renamed = _ from rfl]; exact List.mem_cons_self)
    have hid := htame (.string (utf16 "-N2")) rfl
    exact absurd (Json.string.inj hid) (by decide)
  · cases h.tame.1

end Web.Saludador
