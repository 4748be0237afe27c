import Mathlib.Data.List.Nodup
import Mathlib.Data.List.Sort

/-! # Property lists

The properties of an object in the order of their creation: reading one, defining one, and copying
those of another object over them, as object spread does.
-/

abbrev Properties (κ ν : Type) := List (κ × ν)

namespace Properties

variable {κ ν : Type}

def keys (ps : Properties κ ν) : List κ := ps.map Prod.fst

variable [DecidableEq κ]

def get (ps : Properties κ ν) (k : κ) : Option ν := (ps.find? fun p => p.1 = k).map Prod.snd

/-- A property that exists keeps its place. -/
def define (ps : Properties κ ν) (k : κ) (v : ν) : Properties κ ν :=
  if k ∈ ps.keys then ps.map fun p => if p.1 = k then (k, v) else p else ps ++ [(k, v)]

def spread (ps source : Properties κ ν) : Properties κ ν :=
  source.foldl (fun ps p => ps.define p.1 p.2) ps

theorem get_eq_none_iff {ps : Properties κ ν} {k : κ} : get ps k = none ↔ k ∉ keys ps := by
  rw [get, Option.map_eq_none_iff, List.find?_eq_none, keys, List.mem_map]
  constructor
  · rintro h ⟨p, hp, hk⟩
    exact h p hp (by simpa using hk)
  · intro h p hp hk
    exact h ⟨p, hp, by simpa using hk⟩

theorem get_cons (p : κ × ν) (ps : Properties κ ν) (k : κ) :
    get (p :: ps) k = if p.1 = k then some p.2 else get ps k := by
  by_cases h : p.1 = k
  · simp [get, h]
  · simp [get, h]

theorem get_append (ps qs : Properties κ ν) (k : κ) :
    get (ps ++ qs) k = (get ps k).or (get qs k) := by
  rw [get, get, get, List.find?_append]
  cases List.find? (fun p => p.1 = k) ps <;> rfl

theorem get_singleton (k : κ) (v : ν) (k' : κ) :
    get [(k, v)] k' = if k = k' then some v else none := by
  by_cases h : k = k'
  · simp [get, h]
  · simp [get, h]

theorem mem_of_get {ps : Properties κ ν} {k : κ} {v : ν} (h : get ps k = some v) : (k, v) ∈ ps := by
  rw [get, Option.map_eq_some_iff] at h
  obtain ⟨⟨k', v'⟩, hfind, rfl⟩ := h
  obtain rfl : k' = k := by simpa using List.find?_some hfind
  exact List.mem_of_find?_eq_some hfind

/-- Where keys are distinct, reading a property is finding it. -/
theorem get_eq_some_iff {ps : Properties κ ν} (hkeys : (keys ps).Nodup) {k : κ} {v : ν} :
    get ps k = some v ↔ (k, v) ∈ ps := by
  refine ⟨mem_of_get, fun hmem => ?_⟩
  cases hget : get ps k with
  | none => exact absurd (List.mem_map_of_mem hmem) (get_eq_none_iff.mp hget)
  | some v' =>
      have hsame := List.inj_on_of_nodup_map hkeys (mem_of_get hget) hmem rfl
      rw [(Prod.mk.inj hsame).2]

/-- The order of distinct properties does not matter to reading them. -/
theorem get_perm {ps qs : Properties κ ν} (h : ps.Perm qs) (hkeys : (keys ps).Nodup) (k : κ) :
    get ps k = get qs k := by
  have hkeys' : (keys qs).Nodup := (h.map Prod.fst).nodup hkeys
  apply Option.ext
  intro v
  rw [get_eq_some_iff hkeys, get_eq_some_iff hkeys', h.mem_iff]

theorem keys_define (ps : Properties κ ν) (k : κ) (v : ν) :
    keys (define ps k v) = if k ∈ keys ps then keys ps else keys ps ++ [k] := by
  unfold define
  split
  next =>
    rw [keys, List.map_map]
    apply List.map_congr_left
    intro p _
    dsimp only [Function.comp_apply]
    split
    next heq => exact heq.symm
    next => rfl
  next => simp [keys]

theorem nodup_define {ps : Properties κ ν} (h : (keys ps).Nodup) (k : κ) (v : ν) :
    (keys (define ps k v)).Nodup := by
  rw [keys_define]
  split
  next => exact h
  next hk => exact List.nodup_append.mpr ⟨h, List.nodup_singleton k, by
    intro a ha b hb
    rw [List.mem_singleton.mp hb]
    rintro rfl
    exact hk ha⟩

theorem get_replace (ps : Properties κ ν) (k : κ) (v : ν) (k' : κ) :
    get (ps.map fun p => if p.1 = k then (k, v) else p) k' =
      if k = k' then (get ps k).map fun _ => v else get ps k' := by
  induction ps with
  | nil => simp [get]
  | cons p ps ih =>
      rw [List.map_cons, get_cons, get_cons, get_cons, ih]
      by_cases hp : p.1 = k
      · by_cases hk : k = k'
        · simp [hp, hk]
        · simp [hp, hk]
      · by_cases hk : k = k'
        · subst hk
          simp [hp]
        · simp [hp, hk]

theorem get_define (ps : Properties κ ν) (k : κ) (v : ν) (k' : κ) :
    get (define ps k v) k' = if k = k' then some v else get ps k' := by
  unfold define
  split
  next hk =>
    rw [get_replace]
    cases hget : get ps k with
    | none => exact absurd hk (get_eq_none_iff.mp hget)
    | some old => rfl
  next hk =>
    rw [get_append, get_singleton]
    by_cases h : k = k'
    · subst h
      rw [get_eq_none_iff.mpr hk]
      rfl
    · simp [h]

theorem nodup_spread {ps : Properties κ ν} (h : (keys ps).Nodup) (source : Properties κ ν) :
    (keys (spread ps source)).Nodup := by
  induction source generalizing ps with
  | nil => exact h
  | cons p source ih => exact ih (nodup_define h p.1 p.2)

/-- A property of the source hides one of the same key. -/
theorem get_spread (ps : Properties κ ν) {source : Properties κ ν} (h : (keys source).Nodup) (k : κ) :
    get (spread ps source) k = (get source k).or (get ps k) := by
  induction source generalizing ps with
  | nil => rfl
  | cons p source ih =>
      obtain ⟨hnot, hrest⟩ := List.nodup_cons.mp h
      change get (spread (define ps p.1 p.2) source) k = _
      rw [ih _ hrest, get_define, get_cons]
      by_cases hp : p.1 = k
      · subst hp
        rw [get_eq_none_iff.mpr hnot]
        simp
      · simp [hp]

/-- Different properties that are new are added as they stand. -/
theorem spread_eq_append {ps source : Properties κ ν} (h : (keys (ps ++ source)).Nodup) :
    spread ps source = ps ++ source := by
  induction source generalizing ps with
  | nil => exact (List.append_nil ps).symm
  | cons p source ih =>
      rw [keys, List.map_append, List.map_cons] at h
      have hnew : p.1 ∉ keys ps := fun hp =>
        (List.nodup_append.mp h).2.2 p.1 hp p.1 List.mem_cons_self rfl
      change spread (define ps p.1 p.2) source = _
      rw [define, if_neg hnew, ih (by simpa [keys] using h), List.append_assoc]
      rfl

end Properties
