import Prometeus.Foundation.Machine

/-! # The hash router

`fetch.js` loads a page into `#contenido` for every change of the hash. Its requests run side by
side, and each writes its text when it has arrived, whatever has been navigated to since.
-/

namespace Web.Router

inductive Status
  | fetching
  | reading
  | fulfilled (data : String)
  | rejected
deriving DecidableEq, Repr

/-- `fetch(ruta).then(respuesta => respuesta.text()).then(…).catch(…)` -/
structure Request where
  ruta : String
  status : Status := .fetching
deriving DecidableEq, Repr

/-- The element, and the requests in the order of their navigations. -/
structure Page where
  innerHTML : String
  requests : List Request := []
deriving DecidableEq, Repr

inductive Event
  | hashchange (hash : String)
  /-- The promise of `fetch` is fulfilled, whatever the HTTP status. -/
  | response (i : ℕ)
  /-- The promise of `text()` is fulfilled. -/
  | text (i : ℕ) (data : String)
  /-- One of the two promises is rejected. -/
  | failure (i : ℕ)
deriving DecidableEq, Repr

namespace Page

def cargarContenido (ruta : String) (p : Page) : Page := { p with requests := p.requests ++ [{ ruta }] }

/-- `location.hash.substr(1) || '/'`, with `.html` behind it. -/
def rutaOf (hash : String) : String :=
  let ruta := (hash.drop 1).toString
  (if ruta = "" then "/" else ruta) ++ ".html"

def manejarCambioDeURL (hash : String) (p : Page) : Page := p.cargarContenido (rutaOf hash)

def status (p : Page) (i : ℕ) : Option Status := p.requests[i]?.map Request.status

def setStatus (p : Page) (i : ℕ) (status : Status) : Page :=
  { p with requests := p.requests.modify i fun request => { request with status } }

end Page

def step (p : Page) : Event → Option Page
  | .hashchange hash => some (p.manejarCambioDeURL hash)
  | .response i =>
      if p.status i = some .fetching then some (p.setStatus i .reading) else none
  | .text i data =>
      if p.status i = some .reading then
        some { p.setStatus i (.fulfilled data) with innerHTML := data }
      else
        none
  | .failure i =>
      if p.status i = some .fetching ∨ p.status i = some .reading then
        some (p.setStatus i .rejected)
      else
        none

/-- The page from its first navigation on. -/
def page (markup : String) : Machine Page Event where
  start := Page.cargarContenido "landing" { innerHTML := markup }
  step := step

/-! ## Settled requests -/

/-- The fulfilled requests with their texts, in the order in which they were fulfilled. -/
def fulfilments (events : List Event) : List (ℕ × String) :=
  events.filterMap fun event => match event with
    | .text i data => some (i, data)
    | _ => none

/-- Every request has settled. -/
def Page.Settled (p : Page) : Prop :=
  ∀ request ∈ p.requests, request.status ≠ .fetching ∧ request.status ≠ .reading

/-- The text answered to the last navigation is shown, if there is one. -/
def Page.LastWins (p : Page) : Prop :=
  ∀ data, p.status (p.requests.length - 1) = some (.fulfilled data) → p.innerHTML = data

theorem fulfilments_snoc (events : List Event) (event : Event) :
    fulfilments (events ++ [event]) = match event with
      | .text i data => fulfilments events ++ [(i, data)]
      | _ => fulfilments events := by
  rw [fulfilments, List.filterMap_append]
  cases event with
  | hashchange hash => exact List.append_nil _
  | response i => exact List.append_nil _
  | text i data => rfl
  | failure i => exact List.append_nil _

/-- What the page holds after some events. -/
structure Holds (markup : String) (events : List Event) (p : Page) : Prop where
  shown : p.innerHTML = ((fulfilments events).getLast?.map Prod.snd).getD markup
  once : ((fulfilments events).map Prod.fst).Nodup
  answered : ∀ i data, p.status i = some (.fulfilled data) ↔ (i, data) ∈ fulfilments events

theorem status_cargarContenido (p : Page) (ruta : String) (i : ℕ) :
    (p.cargarContenido ruta).status i =
      if i = p.requests.length then some .fetching else p.status i := by
  rw [Page.status, Page.status, Page.cargarContenido]
  rcases Nat.lt_trichotomy i p.requests.length with hlt | rfl | hgt
  · rw [if_neg (Nat.ne_of_lt hlt), List.getElem?_append_left hlt]
  · simp
  · rw [if_neg (Nat.ne_of_gt hgt), List.getElem?_eq_none (Nat.le_of_lt hgt),
      List.getElem?_eq_none (by simp only [List.length_append, List.length_singleton]; omega)]

theorem status_setStatus (p : Page) (i j : ℕ) (status : Status) :
    (p.setStatus i status).status j =
      if i = j then (p.status j).map fun _ => status else p.status j := by
  rw [Page.status, Page.status, Page.setStatus, List.getElem?_modify]
  cases p.requests[j]? with
  | none => simp
  | some request =>
      by_cases hij : i = j
      · simp [hij]
      · simp [hij]

/-- A request that is waiting has not been answered. -/
theorem Holds.not_mem {markup : String} {events : List Event} {p : Page} (h : Holds markup events p)
    {i : ℕ} {status : Status} (hstatus : p.status i = some status)
    (hwaiting : ∀ data, status ≠ .fulfilled data) (data : String) :
    (i, data) ∉ fulfilments events := by
  intro hmem
  rw [(h.answered i data).mpr hmem] at hstatus
  exact hwaiting data (Option.some.inj hstatus).symm

/-- A change of status that is no fulfilment. -/
theorem Holds.setStatus {markup : String} {events : List Event} {p : Page} (h : Holds markup events p)
    {i : ℕ} {old status : Status} (hold : p.status i = some old)
    (hwaiting : ∀ data, old ≠ .fulfilled data) (hstatus : ∀ data, status ≠ .fulfilled data)
    {event : Event} (hevent : fulfilments (events ++ [event]) = fulfilments events) :
    Holds markup (events ++ [event]) (p.setStatus i status) := by
  refine ⟨hevent ▸ h.shown, hevent ▸ h.once, fun j data => ?_⟩
  rw [hevent, status_setStatus]
  by_cases hij : i = j
  · subst hij
    rw [if_pos rfl, hold, Option.map_some]
    refine iff_of_false ?_ (h.not_mem hold hwaiting data)
    exact fun heq => hstatus data (Option.some.inj heq)
  · rw [if_neg hij]
    exact h.answered j data

theorem Holds.text {markup : String} {events : List Event} {p : Page} (h : Holds markup events p)
    {i : ℕ} (hreading : p.status i = some .reading) (data : String) :
    Holds markup (events ++ [.text i data])
      { p.setStatus i (.fulfilled data) with innerHTML := data } := by
  have hnew := h.not_mem hreading (fun data => by simp)
  refine ⟨?_, ?_, fun j text => ?_⟩
  · rw [fulfilments_snoc]
    simp
  · rw [fulfilments_snoc]
    dsimp only
    rw [List.map_append, List.map_singleton, List.nodup_append]
    refine ⟨h.once, by simp, fun a ha b hb => ?_⟩
    obtain ⟨⟨a, text⟩, hmem, rfl⟩ := List.mem_map.mp ha
    rw [List.mem_singleton.mp hb]
    rintro rfl
    exact hnew text hmem
  · rw [fulfilments_snoc]
    change (p.setStatus i (.fulfilled data)).status j = _ ↔ _
    rw [status_setStatus, List.mem_append, List.mem_singleton, ← h.answered]
    by_cases hij : i = j
    · subst hij
      rw [if_pos rfl, hreading, Option.map_some]
      simp [eq_comm]
    · rw [if_neg hij]
      simp [Ne.symm hij]

theorem holds_of_run {markup : String} {events : List Event} {p : Page}
    (h : (page markup).run events = some p) : Holds markup events p := by
  refine Machine.run_invariant (Holds markup) ?_ ?_ h
  · refine ⟨rfl, List.nodup_nil, fun i data => ?_⟩
    change (Page.cargarContenido "landing" { innerHTML := markup }).status i = _ ↔ _
    rw [status_cargarContenido]
    split
    · simp [fulfilments]
    · simp [fulfilments, Page.status]
  · intro events s event t hs hstep
    cases event with
    | hashchange hash =>
        obtain rfl := Option.some.inj hstep
        have hsame := fulfilments_snoc events (.hashchange hash)
        refine ⟨hsame ▸ hs.shown, hsame ▸ hs.once, fun i data => ?_⟩
        rw [Page.manejarCambioDeURL, status_cargarContenido, fulfilments_snoc, ← hs.answered]
        split
        next hlast =>
          -- the new request has no status before
          have hnone : s.status i = none := by
            rw [Page.status, hlast, List.getElem?_eq_none (Nat.le_refl _)]
            rfl
          rw [hnone]
          simp
        next => rfl
    | response i =>
        obtain ⟨hold, hnext⟩ := Option.ite_none_right_eq_some.mp hstep
        obtain rfl := Option.some.inj hnext
        exact hs.setStatus hold (by simp) (by simp) (fulfilments_snoc _ _)
    | text i data =>
        obtain ⟨hold, hnext⟩ := Option.ite_none_right_eq_some.mp hstep
        obtain rfl := Option.some.inj hnext
        exact hs.text hold data
    | failure i =>
        obtain ⟨hold, hnext⟩ := Option.ite_none_right_eq_some.mp hstep
        obtain rfl := Option.some.inj hnext
        rcases hold with hold | hold
        · exact hs.setStatus hold (by simp) (by simp) (fulfilments_snoc _ _)
        · exact hs.setStatus hold (by simp) (by simp) (fulfilments_snoc _ _)

/-! ## Which text is shown -/

/-- A use of the page: a possible order of navigations and settlements, and the page after it. -/
structure Session (markup : String) where
  events : List Event
  page : Page
  reached : (Router.page markup).run events = some page

/-- The element shows the text that was fulfilled last, in the order of settlement; this is
the text of the last navigation when its request is the one fulfilled last. -/
theorem Session.shows_last_fulfilled {markup : String} (s : Session markup) :
    s.page.innerHTML = ((fulfilments s.events).getLast?.map Prod.snd).getD markup ∧
      ((fulfilments s.events).map Prod.fst).Nodup ∧
      (∀ i data, s.page.status i = some (.fulfilled data) ↔ (i, data) ∈ fulfilments s.events) ∧
      ∀ last, (fulfilments s.events).getLast? = some last →
        last.1 = s.page.requests.length - 1 → s.page.LastWins := by
  have hholds := holds_of_run s.reached
  refine ⟨hholds.shown, hholds.once, hholds.answered, ?_⟩
  rintro ⟨i, shown⟩ hlast rfl data hdata
  have hanswer := (hholds.answered _ shown).mpr (List.mem_of_getLast? hlast)
  have hsame : shown = data := by
    rw [hanswer] at hdata
    exact Status.fulfilled.inj (Option.some.inj hdata)
  rw [hholds.shown, hlast]
  exact hsame

/-- The answer to the first navigation arrives after the answer to the second. -/
def lateSession : Session "" where
  events := [.hashchange "#inicio", .response 1, .text 1 "inicio", .response 0, .text 0 "landing"]
  page := ⟨"landing", [⟨"landing", .fulfilled "landing"⟩, ⟨"inicio.html", .fulfilled "inicio"⟩]⟩
  reached := by decide +kernel

/-- Everything has settled and the last navigation was answered, but its text is not shown. -/
theorem lateSession_not_lastWins : lateSession.page.Settled ∧
    lateSession.page.status (lateSession.page.requests.length - 1) = some (.fulfilled "inicio") ∧
    lateSession.page.innerHTML = "landing" ∧ ¬ lateSession.page.LastWins := by
  refine ⟨?_, rfl, rfl, fun h => ?_⟩
  · intro request hmem
    simp only [lateSession, List.mem_cons, List.not_mem_nil, or_false] at hmem
    rcases hmem with rfl | rfl
    · decide
    · decide
  · exact absurd (h "inicio" rfl) (by decide)

end Web.Router
