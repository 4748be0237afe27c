import Mathlib.Data.List.InsertIdx
import Mathlib.Data.List.Perm.Basic
import Prometeus.Foundation.Machine
import Prometeus.Web.Saludador

/-! # From the form to the list

Several browsers have the application open. `FormularioComponent` posts the name that was typed,
`MostrarComponent` asks for the stored greetings when it is shown. Requests and responses take their time, and
a request may fail.
-/

namespace Web.Greetings

open Saludador Properties

structure World where
  /-- `nombre` of the form in each browser. -/
  nombre : ℕ → JsString := fun _ => []
  /-- All names that were submitted. -/
  submitted : List JsString := []
  /-- The bodies of the posts that have not reached the database. -/
  posts : List Value := []
  /-- The node below `saludador.json`. -/
  saludador : Object := []
  /-- Responses on the way to the list of a browser. -/
  responses : List (ℕ × Value) := []
  /-- `items` of the list in each browser. -/
  items : ℕ → List Object := fun _ => []

inductive Event
  | input (browser : ℕ) (nombre : JsString)
  | onSubmit (browser : ℕ)
  /-- A post reaches the database, which gives it a key and a place among the other records. -/
  | stored (post : ℕ) (key : JsString) (place : ℕ)
  | lost (post : ℕ)
  /-- The database answers the request of `ngOnInit()`. -/
  | answer (browser : ℕ)
  | next (response : ℕ)
deriving DecidableEq

/-- The database has no empty objects. -/
def responseData : Object → Value
  | [] => .null
  | records => .object records

namespace World

def onSubmit (browser : ℕ) (w : World) : World :=
  { w with
    submitted := w.submitted ++ [w.nombre browser]
    posts := w.posts ++ [Salvar [w.nombre browser]] }

def store (post : ℕ) (body : Value) (key : JsString) (place : ℕ) (w : World) : World :=
  { w with
    posts := w.posts.eraseIdx post
    saludador := w.saludador.insertIdx place (key, body) }

/-- `datos => this.items = datos`, unless the function of `map` has thrown. -/
def next (response browser : ℕ) (data : Value) (w : World) : World :=
  { w with
    responses := w.responses.eraseIdx response
    items := match mostrarSaludador data with
      | .ok datos => Function.update w.items browser datos
      | .error _ => w.items }

end World

/-- A key that the database makes up has 20 characters and is new. -/
def MadeUp (records : Object) (key : JsString) : Prop := key.length = 20 ∧ key ∉ keys records

instance (records : Object) (key : JsString) : Decidable (MadeUp records key) :=
  inferInstanceAs (Decidable (_ ∧ _))

def step (w : World) : Event → Option World
  | .input browser nombre => some { w with nombre := Function.update w.nombre browser nombre }
  | .onSubmit browser => some (w.onSubmit browser)
  | .stored post key place =>
      if MadeUp w.saludador key ∧ place ≤ w.saludador.length then
        w.posts[post]?.map fun body => w.store post body key place
      else
        none
  | .lost post =>
      if post < w.posts.length then some { w with posts := w.posts.eraseIdx post } else none
  | .answer browser => some { w with responses := w.responses ++ [(browser, responseData w.saludador)] }
  | .next response => w.responses[response]?.map fun (browser, data) => w.next response browser data

def greetings : Machine World Event where
  start := {}
  step := step

/-- What `mostrar.component.html` shows of an item: `item.id` and `item[0]`. -/
def line (o : Object) : Option Value × Option Value := (get o (utf16 "id"), get o (indexKey 0))

/-- The line of a greeting. -/
def greeting (record : JsString × JsString) : Option Value × Option Value :=
  (some (.string record.1), some (.string record.2))

/-! ## The list of a store -/

/-- Records of single greetings, with keys of the database. -/
structure Plain (saludador : Object) (records : List (JsString × JsString)) : Prop where
  stored : saludador = records.map fun record => (record.1, Salvar [record.2])
  length : ∀ record ∈ records, record.1.length = 20
  nodup : (records.map Prod.fst).Nodup

variable {saludador : Object} {records : List (JsString × JsString)}

theorem Plain.keys_eq (h : Plain saludador records) : keys saludador = records.map Prod.fst := by
  rw [h.stored, keys, List.map_map]
  rfl

theorem Plain.perm_properties (h : Plain saludador records) :
    (properties (responseData saludador)).Perm saludador := by
  cases saludador with
  | nil => exact List.Perm.refl []
  | cons record rest =>
      have hspread : spread [] (record :: rest) = record :: rest := by
        apply spread_eq_append
        rw [List.nil_append, h.keys_eq]
        exact h.nodup
      change (enumerated (spread [] (record :: rest))).Perm _
      rw [hspread]
      exact perm_enumerated _

/-- The key of a greeting hides nothing, and its array has no `id`. -/
theorem line_item (record : JsString × JsString) :
    line (item record.1 (Salvar [record.2])) = greeting record := by
  have hid : get (properties (Salvar [record.2])) (utf16 "id") = none := by
    change get [(indexKey 0, _)] (utf16 "id") = none
    rw [get_singleton, if_neg (indexKey_ne_id 0)]
  have hfirst : get (properties (Salvar [record.2])) (indexKey 0) = some (.string record.2) := by
    rw [Salvar, get_array]
    rfl
  rw [line, get_item, get_item, hid, hfirst, if_pos rfl]
  rfl

/-- The list has a line for every record, and no other. -/
theorem Plain.mostrarSaludador (h : Plain saludador records) :
    ∃ datos, mostrarSaludador (responseData saludador) = .ok datos ∧
      (datos.map line).Perm (records.map greeting) := by
  have hperm := h.perm_properties
  have hown : get (properties (responseData saludador)) (utf16 "hasOwnProperty") = none := by
    rw [get_eq_none_iff]
    intro hmem
    have hmem' := (hperm.map Prod.fst).mem_iff.mp hmem
    change _ ∈ keys saludador at hmem'
    rw [h.keys_eq] at hmem'
    obtain ⟨record, hrecord, hkey⟩ := List.mem_map.mp hmem'
    have hlength := h.length record hrecord
    rw [hkey] at hlength
    exact absurd hlength (by decide +kernel)
  refine ⟨_, mostrarSaludador_eq hown, ?_⟩
  rw [List.map_map]
  refine (hperm.map _).trans (List.Perm.of_eq ?_)
  rw [h.stored, List.map_map]
  apply List.map_congr_left
  intro record _
  exact line_item record

/-! ## Names on their way -/

/-- Where the submitted names are: stored under some key, still waiting, or lost. -/
structure Sent (events : List Event) (w : World) (records : List (JsString × JsString))
    (waiting : List JsString) : Prop where
  plain : Plain w.saludador records
  posts : w.posts = waiting.map fun nombre => Salvar [nombre]
  names : (records.map Prod.snd ++ waiting).Subperm w.submitted
  lossless : (∀ post, .lost post ∉ events) → (records.map Prod.snd ++ waiting).Perm w.submitted

variable {events : List Event} {w : World} {waiting : List JsString}

/-- Only the database, the waiting posts and the submitted names count. -/
theorem Sent.congr (h : Sent events w records waiting) {w' : World} (event : Event)
    (hsaludador : w'.saludador = w.saludador) (hposts : w'.posts = w.posts)
    (hsubmitted : w'.submitted = w.submitted) : Sent (events ++ [event]) w' records waiting := by
  constructor
  · rw [hsaludador]
    exact h.plain
  · rw [hposts]
    exact h.posts
  · rw [hsubmitted]
    exact h.names
  · intro hlost
    rw [hsubmitted]
    exact h.lossless fun post hmem => hlost post (List.mem_append_left _ hmem)

theorem Sent.onSubmit (h : Sent events w records waiting) (browser : ℕ) :
    Sent (events ++ [.onSubmit browser]) (w.onSubmit browser) records (waiting ++ [w.nombre browser]) := by
  constructor
  · exact h.plain
  · rw [World.onSubmit, h.posts, List.map_append]
    rfl
  · rw [← List.append_assoc]
    exact (List.subperm_append_right _).mpr h.names
  · intro hlost
    rw [← List.append_assoc]
    exact (h.lossless fun post hmem => hlost post (List.mem_append_left _ hmem)).append_right _

theorem Sent.lost (h : Sent events w records waiting) (post : ℕ) :
    Sent (events ++ [.lost post]) { w with posts := w.posts.eraseIdx post } records
      (waiting.eraseIdx post) := by
  constructor
  · exact h.plain
  · rw [h.posts, List.eraseIdx_map]
  · apply List.Subperm.trans _ h.names
    exact (List.subperm_append_left _).mpr (List.eraseIdx_sublist waiting post).subperm
  · intro hlost
    exact absurd (List.mem_append_right _ (List.mem_singleton_self _)) (hlost post)

theorem Plain.insertIdx (h : Plain saludador records) {key : JsString} (hkey : MadeUp saludador key)
    {place : ℕ} (hplace : place ≤ records.length) (nombre : JsString) :
    Plain (saludador.insertIdx place (key, Salvar [nombre])) (records.insertIdx place (key, nombre)) := by
  have hperm := List.perm_insertIdx (key, nombre) records hplace
  constructor
  · rw [List.map_insertIdx, ← h.stored]
  · intro record hmem
    rcases List.mem_cons.mp (hperm.mem_iff.mp hmem) with rfl | hold
    · exact hkey.1
    · exact h.length record hold
  · rw [(hperm.map Prod.fst).nodup_iff, List.map_cons, List.nodup_cons, ← h.keys_eq]
    refine ⟨hkey.2, ?_⟩
    rw [h.keys_eq]
    exact h.nodup

theorem Sent.stored (h : Sent events w records waiting) {post : ℕ} {body : Value} {key : JsString}
    {place : ℕ} (hbody : w.posts[post]? = some body) (hkey : MadeUp w.saludador key)
    (hplace : place ≤ w.saludador.length) :
    ∃ nombre, Sent (events ++ [.stored post key place]) (w.store post body key place)
      (records.insertIdx place (key, nombre)) (waiting.eraseIdx post) := by
  rw [h.posts, List.getElem?_map, Option.map_eq_some_iff] at hbody
  obtain ⟨nombre, hnombre, rfl⟩ := hbody
  obtain ⟨hpost, hget⟩ := List.getElem?_eq_some_iff.mp hnombre
  have hlength : place ≤ records.length := by
    rwa [h.plain.stored, List.length_map] at hplace
  -- The name moves from the waiting ones to the stored ones.
  have hperm : ((records.insertIdx place (key, nombre)).map Prod.snd ++ waiting.eraseIdx post).Perm
      (records.map Prod.snd ++ waiting) :=
    calc
      List.Perm _ ((nombre :: records.map Prod.snd) ++ waiting.eraseIdx post) :=
        ((List.perm_insertIdx _ _ hlength).map Prod.snd).append_right _
      List.Perm _ (records.map Prod.snd ++ nombre :: waiting.eraseIdx post) := List.perm_middle.symm
      List.Perm _ (records.map Prod.snd ++ waiting) := by
        rw [← hget]
        exact (List.getElem_cons_eraseIdx_perm hpost).append_left _
  refine ⟨nombre, h.plain.insertIdx hkey hlength nombre, ?_, ?_, ?_⟩
  · rw [World.store, h.posts, List.eraseIdx_map]
  · exact hperm.subperm.trans h.names
  · intro hlost
    exact hperm.trans (h.lossless fun post' hmem => hlost post' (List.mem_append_left _ hmem))

theorem sent_start : Sent [] {} [] [] := by
  constructor
  · exact ⟨rfl, fun record hmem => (nomatch hmem), List.nodup_nil⟩
  · rfl
  · exact List.Subperm.refl _
  · exact fun _ => List.Perm.refl _

theorem sent_of_run (h : greetings.run events = some w) : ∃ records waiting, Sent events w records waiting := by
  refine Machine.run_invariant (fun events w => ∃ records waiting, Sent events w records waiting) ?_ ?_ h
  · exact ⟨[], [], sent_start⟩
  · rintro events w event w' ⟨records, waiting, hsent⟩ hstep
    cases event with
    | input browser nombre =>
        obtain rfl := Option.some.inj hstep
        exact ⟨records, waiting, hsent.congr _ rfl rfl rfl⟩
    | onSubmit browser =>
        obtain rfl := Option.some.inj hstep
        exact ⟨records, _, hsent.onSubmit browser⟩
    | stored post key place =>
        obtain ⟨⟨hkey, hplace⟩, hmap⟩ := Option.ite_none_right_eq_some.mp hstep
        obtain ⟨body, hbody, rfl⟩ := Option.map_eq_some_iff.mp hmap
        obtain ⟨nombre, hstored⟩ := hsent.stored hbody hkey hplace
        exact ⟨_, _, hstored⟩
    | lost post =>
        obtain ⟨-, hw'⟩ := Option.ite_none_right_eq_some.mp hstep
        obtain rfl := Option.some.inj hw'
        exact ⟨records, _, hsent.lost post⟩
    | answer browser =>
        obtain rfl := Option.some.inj hstep
        exact ⟨records, waiting, hsent.congr _ rfl rfl rfl⟩
    | next response =>
        obtain ⟨⟨browser, data⟩, -, rfl⟩ := Option.map_eq_some_iff.mp hstep
        exact ⟨records, waiting, hsent.congr _ rfl rfl rfl⟩

/-! ## Lists -/

/-- The lines are the stored greetings of one moment, now or earlier. -/
def Listed (events : List Event) (datos : List Object) : Prop :=
  ∃ before t records waiting, before <+: events ∧ greetings.run before = some t ∧
    Sent before t records waiting ∧ (datos.map line).Perm (records.map greeting)

/-- Responses and lists are as old as the moment of the answer. -/
structure Dated (events : List Event) (w : World) : Prop where
  reached : greetings.run events = some w
  responses : ∀ response ∈ w.responses, ∃ before t, before <+: events ∧
    greetings.run before = some t ∧ response.2 = responseData t.saludador
  items : ∀ browser, Listed events (w.items browser)

theorem Listed.later {datos : List Object} (h : Listed events datos) (event : Event) :
    Listed (events ++ [event]) datos := by
  obtain ⟨before, t, records, waiting, hbefore, hrest⟩ := h
  exact ⟨before, t, records, waiting, hbefore.trans (List.prefix_append _ _), hrest⟩

/-- A step that puts nothing new on the way to a list, and shows nothing new. -/
theorem Dated.congr (h : Dated events w) {event : Event} {w' : World} (hstep : step w event = some w')
    (hresponses : w'.responses = w.responses) (hitems : w'.items = w.items) :
    Dated (events ++ [event]) w' := by
  constructor
  · rw [Machine.run_snoc, h.reached]
    exact hstep
  · rw [hresponses]
    intro response hmem
    obtain ⟨before, t, hbefore, hrest⟩ := h.responses response hmem
    exact ⟨before, t, hbefore.trans (List.prefix_append _ _), hrest⟩
  · rw [hitems]
    exact fun browser => (h.items browser).later event

theorem Dated.answer (h : Dated events w) (browser : ℕ) : Dated (events ++ [.answer browser])
    { w with responses := w.responses ++ [(browser, responseData w.saludador)] } := by
  constructor
  · rw [Machine.run_snoc, h.reached]
    rfl
  · intro response hmem
    rcases List.mem_append.mp hmem with hold | hnew
    · obtain ⟨before, t, hbefore, hrest⟩ := h.responses response hold
      exact ⟨before, t, hbefore.trans (List.prefix_append _ _), hrest⟩
    · refine ⟨events, w, List.prefix_append _ _, h.reached, ?_⟩
      rw [List.mem_singleton.mp hnew]
  · exact fun browser => (h.items browser).later _

theorem Dated.next (h : Dated events w) {response browser : ℕ} {data : Value}
    (hresponse : w.responses[response]? = some (browser, data)) :
    Dated (events ++ [.next response]) (w.next response browser data) := by
  constructor
  · rw [Machine.run_snoc, h.reached]
    change (w.responses[response]?.map _) = _
    rw [hresponse]
    rfl
  · intro response' hmem
    obtain ⟨before, t, hbefore, hrest⟩ := h.responses response' (List.mem_of_mem_eraseIdx hmem)
    exact ⟨before, t, hbefore.trans (List.prefix_append _ _), hrest⟩
  -- The list shows the moment at which this response was made.
  · obtain ⟨before, t, hbefore, ht, hdata⟩ := h.responses _ (List.mem_of_getElem? hresponse)
    obtain rfl : data = responseData t.saludador := hdata
    obtain ⟨records, waiting, hsent⟩ := sent_of_run ht
    obtain ⟨datos, hok, hlines⟩ := hsent.plain.mostrarSaludador
    have hitems : (w.next response browser (responseData t.saludador)).items =
        Function.update w.items browser datos := by
      rw [World.next, hok]
    intro browser'
    rw [hitems]
    by_cases hbrowser : browser' = browser
    · subst hbrowser
      rw [Function.update_self]
      exact ⟨before, t, records, waiting, hbefore.trans (List.prefix_append _ _), ht, hsent, hlines⟩
    · rw [Function.update_of_ne hbrowser]
      exact (h.items browser').later _

theorem dated_of_run (h : greetings.run events = some w) : Dated events w := by
  refine Machine.run_invariant Dated ?_ ?_ h
  · refine ⟨rfl, fun response hmem => (nomatch hmem), fun browser => ?_⟩
    exact ⟨[], {}, [], [], List.prefix_refl _, rfl, sent_start, List.Perm.refl _⟩
  · intro events w event w' hdated hstep
    cases event with
    | input browser nombre =>
        obtain rfl := Option.some.inj hstep
        exact hdated.congr rfl rfl rfl
    | onSubmit browser =>
        obtain rfl := Option.some.inj hstep
        exact hdated.congr rfl rfl rfl
    | stored post key place =>
        obtain ⟨hguard, hmap⟩ := Option.ite_none_right_eq_some.mp hstep
        obtain ⟨body, hbody, rfl⟩ := Option.map_eq_some_iff.mp hmap
        exact hdated.congr hstep rfl rfl
    | lost post =>
        obtain ⟨hguard, hw'⟩ := Option.ite_none_right_eq_some.mp hstep
        obtain rfl := Option.some.inj hw'
        exact hdated.congr hstep rfl rfl
    | answer browser =>
        obtain rfl := Option.some.inj hstep
        exact hdated.answer browser
    | next response =>
        obtain ⟨⟨browser, data⟩, hresponse, rfl⟩ := Option.map_eq_some_iff.mp hstep
        exact hdated.next hresponse

/-- Two names are submitted; the answer is made when only the second one is stored. -/
def visitors : List Event :=
  [.input 0 (utf16 "Ana"), .onSubmit 0, .input 1 (utf16 "Beto"), .onSubmit 1,
    .stored 1 (utf16 "-N1abcdefghijklmnopq") 0, .answer 2, .stored 0 (utf16 "-N0abcdefghijklmnopq") 0,
    .next 0]

end Web.Greetings
