import Prometeus.Foundation.EcmaScript
import Prometeus.Foundation.Machine

/-! # The dashboard of the sensor

`index.js` shows a signed-in user the readings below the user's own node of the database. Each sign-in
registers two listeners; nothing detaches them again or clears the two elements.
-/

namespace Web.Dashboard

open EcmaScript

structure User where
  uid : String
  email : String
deriving DecidableEq, Repr

inductive Display
  | unset
  | none
  | block
deriving DecidableEq, Repr

/-- The two readings, each with its element on the page. -/
inductive Reading
  | temperatura
  | humedad
deriving DecidableEq, Repr

def Reading.name : Reading → String
  | .temperatura => "temperatura"
  | .humedad => "humedad"

/-- A handler of `value` events on a reading of a user. -/
structure Listener where
  uid : String
  reading : Reading
deriving DecidableEq, Repr

/-- The keys from the root of the database to the node listened to. -/
def Listener.path (l : Listener) : List String := ["UsersData", l.uid, l.reading.name]

structure Page where
  user : Option User := none
  listeners : List Listener := []
  temp : List Char := []
  hum : List Char := []
  login : Display := .none
  content : Display := .none
  userDetails : Display := .unset
  authBar : Display := .none
  userDetailsHTML : String := "USEREMAIL"
deriving DecidableEq, Repr

namespace Page

/-- The text of a reading's element. -/
def text (p : Page) : Reading → List Char
  | .temperatura => p.temp
  | .humedad => p.hum

def setText (p : Page) (text : List Char) : Reading → Page
  | .temperatura => { p with temp := text }
  | .humedad => { p with hum := text }

/-- `setupUI(user)` -/
def setupUI (user : Option User) (p : Page) : Page :=
  match user with
  | some user =>
      { p with
        login := .none, content := .block, authBar := .block, userDetails := .block
        userDetailsHTML := user.email
        listeners := p.listeners ++ [⟨user.uid, .temperatura⟩, ⟨user.uid, .humedad⟩] }
  | none =>
      { p with login := .block, authBar := .none, userDetails := .none, content := .none }

/-- `snap => element.innerText = snap.val().toFixed(2)`, which throws for null. -/
def update (reading : Reading) (value : Option ℚ) (p : Page) : Option Page :=
  value.map fun x => p.setText (toFixed x 2) reading

end Page

/-- `.read` of `database.rules.json`: a user reads below the node of the own identifier. -/
def mayRead (auth : Option User) : List String → Bool
  | "UsersData" :: uid :: _ => auth.any fun user => user.uid == uid
  | _ => false

inductive Event
  | authState (user : Option User)
  | snapshot (listener : Listener) (value : Option ℚ)
deriving DecidableEq, Repr

/-- One event. A snapshot comes to a registered listener whose path the user may read; a handler
that throws leaves the page as it is. -/
def step (p : Page) : Event → Option Page
  | .authState user => some ({ p with user }.setupUI user)
  | .snapshot listener value =>
      if listener ∈ p.listeners ∧ mayRead p.user listener.path then
        some ((p.update listener.reading value).getD p)
      else
        none

/-- The page under the events that Firebase can deliver. -/
def page : Machine Page Event where
  start := {}
  step := step

/-! ## What a user sees -/

/-- The last numeric value of a reading of a user since the latest change of the signed-in user. -/
def latest (uid : String) (reading : Reading) (events : List Event) : Option ℚ :=
  events.foldl (fun value event => match event with
    | .authState _ => none
    | .snapshot listener (some x) => if listener = ⟨uid, reading⟩ then some x else value
    | .snapshot _ none => value) none

/-- The signed-in user sees nothing, or the latest own value. -/
def Isolated (events : List Event) (p : Page) : Prop :=
  ∀ user, p.user = some user → p.content = .block → ∀ reading, p.text reading = [] ∨
    ∃ x, latest user.uid reading events = some x ∧ p.text reading = toFixed x 2

/-- No user signs in after a value has been delivered. -/
def SingleUse (events : List Event) : Prop :=
  ∀ before user after, events = before ++ .authState (some user) :: after →
    ∀ listener x, .snapshot listener (some x) ∉ before

/-- What a user is allowed to learn of an event: not the values of others. -/
def visible (uid : String) : Event → Event
  | .snapshot listener value => .snapshot listener (if listener.uid = uid then value else none)
  | event => event

/-! ## What the elements hold -/

/-- The last numeric value of a reading of any user. -/
def delivered (reading : Reading) (events : List Event) : Option ℚ :=
  events.foldl (fun value event => match event with
    | .snapshot listener (some x) => if listener.reading = reading then some x else value
    | _ => value) none

theorem latest_snoc (uid : String) (reading : Reading) (events : List Event) (event : Event) :
    latest uid reading (events ++ [event]) = match event with
      | .authState _ => none
      | .snapshot listener (some x) =>
          if listener = ⟨uid, reading⟩ then some x else latest uid reading events
      | .snapshot _ none => latest uid reading events := by
  rw [latest, List.foldl_append]
  rfl

theorem delivered_snoc (reading : Reading) (events : List Event) (event : Event) :
    delivered reading (events ++ [event]) = match event with
      | .snapshot listener (some x) =>
          if listener.reading = reading then some x else delivered reading events
      | _ => delivered reading events := by
  rw [delivered, List.foldl_append]
  rfl

/-- A value once delivered stays on the page, or is replaced by another. -/
theorem delivered_eq_none_iff (reading : Reading) (events : List Event) :
    delivered reading events = none ↔
      ∀ listener x, .snapshot listener (some x) ∈ events → listener.reading ≠ reading := by
  induction events using List.reverseRecOn with
  | nil => simp [delivered]
  | append_singleton events event ih =>
      rw [delivered_snoc]
      cases event with
      | authState user => simpa using ih
      | snapshot listener value =>
          cases value with
          | none => simpa using ih
          | some x =>
              by_cases hreading : listener.reading = reading
              · simp only [hreading, if_true, reduceCtorEq, false_iff]
                intro h
                exact h listener x (by simp) hreading
              · simp only [hreading, if_false, ih]
                constructor
                · intro h l y hmem
                  rcases List.mem_append.mp hmem with hold | hnew
                  · exact h l y hold
                  · cases List.mem_singleton.mp hnew
                    exact hreading
                · exact fun h l y hmem => h l y (List.mem_append_left _ hmem)

/-- The page after some events. -/
structure Holds (events : List Event) (p : Page) : Prop where
  text : ∀ reading, p.text reading = (delivered reading events).elim [] (toFixed · 2)
  own : SingleUse events → ∀ user, p.user = some user →
    ∀ reading, delivered reading events = latest user.uid reading events

theorem SingleUse.init {events : List Event} {event : Event} (h : SingleUse (events ++ [event])) :
    SingleUse events := by
  intro before user after hevents
  exact h before user (after ++ [event]) (by rw [hevents]; simp)

theorem mayRead_path {auth : Option User} {l : Listener} (h : mayRead auth l.path = true) :
    ∃ user, auth = some user ∧ user.uid = l.uid := by
  cases auth with
  | none => cases h
  | some user => exact ⟨user, rfl, by simpa [mayRead, Listener.path] using h⟩

theorem text_setText (p : Page) (text : List Char) (reading reading' : Reading) :
    (p.setText text reading).text reading' = if reading = reading' then text else p.text reading' := by
  cases reading <;> cases reading' <;> rfl

theorem user_setText (p : Page) (text : List Char) (reading : Reading) :
    (p.setText text reading).user = p.user := by
  cases reading <;> rfl

theorem text_setupUI (p : Page) (user : Option User) (reading : Reading) :
    (p.setupUI user).text reading = p.text reading := by
  cases user <;> cases reading <;> rfl

theorem user_setupUI (p : Page) (user : Option User) : (p.setupUI user).user = p.user := by
  cases user <;> rfl

theorem Holds.authState {events : List Event} {p : Page} (h : Holds events p) (user : Option User) :
    Holds (events ++ [.authState user]) ({ p with user }.setupUI user) := by
  refine ⟨fun reading => ?_, fun hsingle u hu reading => ?_⟩
  · rw [text_setupUI, delivered_snoc]
    exact h.text reading
  · rw [user_setupUI] at hu
    obtain rfl : user = some u := hu
    rw [delivered_snoc, latest_snoc]
    apply (delivered_eq_none_iff reading events).mpr
    exact fun listener x hmem => absurd hmem (hsingle events u [] rfl listener x)

theorem Holds.snapshot {events : List Event} {p : Page} (h : Holds events p) {l : Listener}
    (hread : mayRead p.user l.path = true) (value : Option ℚ) :
    Holds (events ++ [.snapshot l value]) ((p.update l.reading value).getD p) := by
  cases value with
  | none =>
      refine ⟨fun reading => ?_, fun hsingle u hu reading => ?_⟩
      · rw [delivered_snoc]
        exact h.text reading
      · rw [delivered_snoc, latest_snoc]
        exact h.own hsingle.init u hu reading
  | some x =>
      refine ⟨fun reading => ?_, fun hsingle u hu reading => ?_⟩
      · change (p.setText (toFixed x 2) l.reading).text reading = _
        rw [text_setText, delivered_snoc]
        dsimp only
        split
        · rfl
        · exact h.text reading
      · change (p.setText (toFixed x 2) l.reading).user = some u at hu
        rw [user_setText] at hu
        obtain ⟨user, huser, huid⟩ := mayRead_path hread
        rw [hu] at huser
        obtain rfl := Option.some.inj huser
        rw [delivered_snoc, latest_snoc, h.own hsingle.init u hu reading]
        obtain ⟨uid, reading'⟩ := l
        obtain rfl : u.uid = uid := huid
        simp

theorem holds_of_run {events : List Event} {p : Page} (h : page.run events = some p) :
    Holds events p := by
  refine Machine.run_invariant Holds ?_ ?_ h
  · refine ⟨fun reading => ?_, fun _ user huser => by cases huser⟩
    cases reading <;> rfl
  · intro events s event t hs hstep
    cases event with
    | authState user =>
        obtain rfl := Option.some.inj hstep
        exact hs.authState user
    | snapshot l value =>
        change (if l ∈ s.listeners ∧ mayRead s.user l.path then
          some ((s.update l.reading value).getD s) else none) = some t at hstep
        split at hstep
        next hpossible =>
          obtain rfl := Option.some.inj hstep
          exact hs.snapshot hpossible.2 value
        next => cases hstep

/-! ## Isolation -/

/-- A use of the page: events that Firebase can deliver in this order, and the page after them. -/
structure Visit where
  events : List Event
  page : Page
  reached : Dashboard.page.run events = some page

/-- In every state of the visit the signed-in user sees only what is the user's own. -/
def Visit.Isolated (v : Visit) : Prop :=
  ∀ earlier : Visit, earlier.events <+: v.events → Dashboard.Isolated earlier.events earlier.page

theorem Visit.isolated_of_singleUse (v : Visit) (h : SingleUse v.events) : v.Isolated := by
  rintro ⟨before, p, hreached⟩ ⟨after, hafter⟩ user huser - reading
  have hholds := holds_of_run hreached
  have hsingle : SingleUse before := by
    intro early u late hearly
    apply h early u (late ++ after)
    rw [← hafter]
    change before ++ after = _
    rw [hearly]
    simp
  rw [hholds.text reading, hholds.own hsingle user huser reading]
  cases hlatest : latest user.uid reading before with
  | none => exact Or.inl rfl
  | some x => exact Or.inr ⟨x, rfl, rfl⟩

/-- A value is still shown right after another sign-in. -/
theorem Visit.singleUse_of_isolated (v : Visit) (h : v.Isolated) : SingleUse v.events := by
  intro before user after hevents l x hmem
  have hsplit : v.events = (before ++ [.authState (some user)]) ++ after := by
    rw [hevents]
    simp
  have hreached := v.reached
  rw [hsplit] at hreached
  obtain ⟨p, hp⟩ := Machine.run_of_append hreached
  have hisolated := h ⟨_, p, hp⟩ ⟨after, hsplit.symm⟩
  have htext := (holds_of_run hp).text l.reading
  rw [Machine.run_snoc, Option.bind_eq_some_iff] at hp
  obtain ⟨q, -, hq⟩ := hp
  obtain rfl := Option.some.inj hq
  rw [delivered_snoc] at htext
  have hlatest := latest_snoc user.uid l.reading before (.authState (some user))
  dsimp only at htext hlatest
  rcases hisolated user rfl rfl l.reading with hempty | ⟨y, hy, -⟩
  · cases hdelivered : delivered l.reading before with
    | none => exact (delivered_eq_none_iff l.reading before).mp hdelivered l x hmem rfl
    | some y =>
        rw [htext, hdelivered] at hempty
        exact toFixed_ne_nil y 2 hempty
  · rw [hlatest] at hy
    cases hy

/-- What a user learns of a visit decides what the user's own latest values are. -/
theorem latest_map_visible (uid : String) (reading : Reading) (events : List Event) :
    latest uid reading (events.map (visible uid)) = latest uid reading events := by
  induction events using List.reverseRecOn with
  | nil => rfl
  | append_singleton events event ih =>
      rw [List.map_append, List.map_singleton, latest_snoc, latest_snoc, ih]
      cases event with
      | authState user => rfl
      | snapshot l value =>
          by_cases hown : l.uid = uid
          · simp [visible, hown]
          · have hother : l ≠ ⟨uid, reading⟩ := fun heq => hown (by rw [heq])
            cases value with
            | none => simp [visible]
            | some x => simp [visible, hown, hother]

/-- A visit keeps its users apart exactly when nobody signs in after a value has been delivered. Then
what a user sees does not depend on the values of others. -/
theorem Visit.isolated_iff_singleUse (v : Visit) : (v.Isolated ↔ SingleUse v.events) ∧
    ∀ w : Visit, SingleUse v.events → SingleUse w.events → ∀ user, v.page.user = some user →
      w.page.user = some user → v.events.map (visible user.uid) = w.events.map (visible user.uid) →
        ∀ reading, v.page.text reading = w.page.text reading := by
  refine ⟨⟨v.singleUse_of_isolated, v.isolated_of_singleUse⟩, ?_⟩
  intro w hv hw user huser huser' hsame reading
  have hholds := holds_of_run v.reached
  have hholds' := holds_of_run w.reached
  rw [hholds.text, hholds'.text, hholds.own hv user huser, hholds'.own hw user huser',
    ← latest_map_visible user.uid reading v.events, hsame, latest_map_visible]

/-! ## Two users on one page -/

def ana : User := ⟨"ana", "ana@correo"⟩

def beto : User := ⟨"beto", "beto@correo"⟩

/-- One user reads a temperature and signs out, another one signs in. -/
def sharedEvents (x : ℚ) : List Event :=
  [.authState (some ana), .snapshot ⟨"ana", .temperatura⟩ (some x), .authState none,
    .authState (some beto)]

def sharedVisit (x : ℚ) : Visit where
  events := sharedEvents x
  page := { user := some beto
            listeners := [⟨"ana", .temperatura⟩, ⟨"ana", .humedad⟩, ⟨"beto", .temperatura⟩,
              ⟨"beto", .humedad⟩]
            temp := toFixed x 2, content := .block, userDetails := .block, authBar := .block
            userDetailsHTML := "beto@correo" }
  reached := rfl

/-- The second user is shown the temperature of the first, whatever it is. -/
theorem sharedVisit_not_isolated : ¬ (sharedVisit 25).Isolated ∧
    (sharedVisit 25).events.map (visible "beto") = (sharedVisit 31).events.map (visible "beto") ∧
    (sharedVisit 25).page.text .temperatura = "25.00".toList ∧
    (sharedVisit 31).page.text .temperatura = "31.00".toList := by
  refine ⟨fun h => ?_, rfl, by decide +kernel, by decide +kernel⟩
  rcases h (sharedVisit 25) (List.prefix_refl _) beto rfl rfl .temperatura with hempty | ⟨x, hx, -⟩
  · exact toFixed_ne_nil 25 2 hempty
  · cases hx

end Web.Dashboard
