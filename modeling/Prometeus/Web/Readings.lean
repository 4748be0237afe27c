import Prometeus.Foundation.Feed
import Prometeus.Sketches.Uploads
import Prometeus.Web.Dashboard

/-! # From the device to the page

`servidorDHT11.ino` writes its readings below the node of its user, and `index.js` listens there. Between the two
stands the database of Firebase, whose snapshots are late and may leave out values.
-/

namespace Web.Readings

open Dashboard EcmaScript Sketches

/-- The keys of a path, which may begin with a slash. -/
def keys (path : String) : List String :=
  ((path.toList.splitOn '/').filter (· ≠ [])).map String.ofList

structure State where
  database : Feed (List String) ℚ := {}
  page : Page := {}

namespace State

/-- `setupUI(user)` attaches the two listeners of the user. -/
def authState (user : Option User) (s : State) : State where
  database := match user with
    | some user =>
        (s.database.watch (Listener.mk user.uid .temperatura).path).watch
          (Listener.mk user.uid .humedad).path
    | none => s.database
  page := (Dashboard.step s.page (.authState user)).getD s.page

/-- A snapshot arrives. The page is not told what its user may not read. -/
def deliver (l : Listener) (value : Option ℚ) (s : State) : State where
  database := s.database.take l.path
  page := (Dashboard.step s.page (.snapshot l value)).getD s.page

end State

inductive Event
  /-- The database accepts a value of `Firebase.RTDB.setFloat(&fbdo, path, value)`. -/
  | setFloat (path : String) (value : ℚ)
  | authState (user : Option User)
  | deliver (l : Listener)
  /-- A snapshot is left out for a later one. -/
  | skip (l : Listener)
deriving DecidableEq, Repr

def step (s : State) : Event → Option State
  | .setFloat path value => some { s with database := s.database.write (keys path) value }
  | .authState user => some (s.authState user)
  | .deliver l => (s.database.pending l.path).head?.map (s.deliver l ·)
  | .skip l =>
      if 1 < (s.database.pending l.path).length then
        some { s with database := s.database.take l.path }
      else
        none

/-- The database and one page under writes, sign-ins and snapshots in any possible order. -/
def service : Machine State Event where
  start := {}
  step := step

/-- The writes that the database has accepted. -/
def accepted (events : List Event) : List (String × ℚ) :=
  events.filterMap fun event => match event with
    | .setFloat path x => some (path, x)
    | _ => none

/-- What some writes leave in a node. -/
def stored (path : List String) (writes : List (String × ℚ)) : Option ℚ :=
  writes.foldl (fun value write => if keys write.1 = path then some write.2 else value) none

/-- No snapshot of a reading of the user is on the way. -/
def Settled (uid : String) (s : State) : Prop :=
  ∀ reading, s.database.pending (Listener.mk uid reading).path = []

/-! ## Paths -/

theorem path_injective : Function.Injective Listener.path := by
  rintro ⟨uid, reading⟩ ⟨uid', reading'⟩ hpath
  rw [Listener.path, Listener.path, List.cons.injEq, List.cons.injEq, List.cons.injEq] at hpath
  obtain ⟨-, huid, hname, -⟩ := hpath
  cases reading <;> cases reading' <;> simp_all [Reading.name]

theorem keys_eq {path : String} {parts : List String}
    (hparts : ∀ part ∈ parts, part ≠ "" ∧ '/' ∉ part.toList)
    (hpath : path.toList = ['/'].intercalate ([] :: parts.map String.toList)) : keys path = parts := by
  have hplain : ∀ part ∈ [] :: parts.map String.toList, '/' ∉ part := by
    intro part hpart
    rcases List.mem_cons.mp hpart with rfl | hpart
    · exact List.not_mem_nil
    · obtain ⟨part', hpart', rfl⟩ := List.mem_map.mp hpart
      exact (hparts part' hpart').2
  have hkept : ∀ part ∈ parts.map String.toList, decide (part ≠ []) = true := by
    intro part hpart
    obtain ⟨part', hpart', rfl⟩ := List.mem_map.mp hpart
    simpa using (hparts part' hpart').1
  rw [keys, hpath, List.splitOn_intercalate '/' hplain (List.cons_ne_nil _ _), List.filter_cons_of_neg (by simp),
    List.filter_eq_self.mpr hkept, List.map_map]
  simp

theorem plain_name (reading : Reading) : reading.name ≠ "" ∧ '/' ∉ reading.name.toList := by
  cases reading <;> decide +kernel

/-- The device writes where the page of its user listens. -/
theorem keys_node {uid path : String} (huid : uid ≠ "") (hslash : '/' ∉ uid.toList) (reading : Reading)
    (hpath : path.toList = "/UsersData/".toList ++ uid.toList ++ '/' :: reading.name.toList) :
    keys path = (Listener.mk uid reading).path := by
  apply keys_eq
  · rw [Listener.path, List.forall_mem_cons, List.forall_mem_cons, List.forall_mem_singleton]
    exact ⟨by decide +kernel, ⟨huid, hslash⟩, plain_name reading⟩
  · rw [hpath, Listener.path]
    simp [List.intercalate]

theorem keys_tempPath {uid : String} (huid : uid ≠ "") (hslash : '/' ∉ uid.toList) :
    keys (ServidorDHT11.tempPath uid) = (Listener.mk uid .temperatura).path := by
  apply keys_node huid hslash
  rw [ServidorDHT11.tempPath, String.toList_append, String.toList_append]
  rfl

theorem keys_humPath {uid : String} (huid : uid ≠ "") (hslash : '/' ∉ uid.toList) :
    keys (ServidorDHT11.humPath uid) = (Listener.mk uid .humedad).path := by
  apply keys_node huid hslash
  rw [ServidorDHT11.humPath, String.toList_append, String.toList_append]
  rfl

/-! ## What the page shows -/

/-- What a snapshot does to the page. -/
theorem page_deliver (l : Listener) (value : Option ℚ) (s : State) :
    (s.deliver l value).page =
      if l ∈ s.page.listeners ∧ mayRead s.page.user l.path then
        (s.page.update l.reading value).getD s.page
      else
        s.page := by
  rw [State.deliver, Dashboard.step]
  split
  next => rfl
  next => rfl

/-- A snapshot changes at most the text of its reading. -/
structure Same (p p' : Page) (reading : Reading) : Prop where
  user : p'.user = p.user
  listeners : p'.listeners = p.listeners
  text : ∀ reading', reading' ≠ reading → p'.text reading' = p.text reading'

theorem same_update (p : Page) (reading : Reading) (value : Option ℚ) :
    Same p ((p.update reading value).getD p) reading := by
  cases value with
  | none => exact ⟨rfl, rfl, fun _ _ => rfl⟩
  | some x =>
      refine ⟨user_setText p _ reading, ?_, ?_⟩
      · cases reading <;> rfl
      · intro reading' hne
        exact (text_setText p _ reading reading').trans (if_neg hne.symm)

theorem same_deliver (l : Listener) (value : Option ℚ) (s : State) :
    Same s.page (s.deliver l value).page l.reading := by
  rw [page_deliver]
  split
  next => exact same_update s.page l.reading value
  next => exact ⟨rfl, rfl, fun _ _ => rfl⟩

/-- A snapshot for the signed-in user is shown. -/
theorem text_deliver {s : State} {user : User} {reading : Reading} (huser : s.page.user = some user)
    (hlistens : ⟨user.uid, reading⟩ ∈ s.page.listeners) (x : ℚ) :
    (s.deliver ⟨user.uid, reading⟩ (some x)).page.text reading = toFixed x 2 := by
  have hread : mayRead s.page.user (Listener.mk user.uid reading).path = true := by
    simp [mayRead, Listener.path, huser]
  rw [page_deliver, if_pos ⟨hlistens, hread⟩]
  exact (text_setText s.page _ reading reading).trans (if_pos rfl)

/-- The page has shown the last snapshot that it was told of a reading of the user. -/
structure Shows (s : State) (user : User) (reading : Reading) (told : Option ℚ) : Prop where
  follows : s.database.Follows (Listener.mk user.uid reading).path told
  listens : ⟨user.uid, reading⟩ ∈ s.page.listeners
  text : ∀ x, told = some x → s.page.text reading = toFixed x 2

variable {s : State} {user : User} {reading : Reading} {told : Option ℚ}

theorem Shows.deliver (h : Shows s user reading told) (huser : s.page.user = some user) {l : Listener}
    {value : Option ℚ} {rest : List (Option ℚ)} (hpending : s.database.pending l.path = value :: rest) :
    ∃ told', Shows (s.deliver l value) user reading told' := by
  have hsame := same_deliver l value s
  have hlistens : ⟨user.uid, reading⟩ ∈ (s.deliver l value).page.listeners := by
    rw [hsame.listeners]
    exact h.listens
  by_cases hown : l = ⟨user.uid, reading⟩
  · subst hown
    refine ⟨value, h.follows.take hpending, hlistens, ?_⟩
    rintro x rfl
    exact text_deliver huser h.listens x
  · refine ⟨told, h.follows.take_of_ne (fun hpath => hown (path_injective hpath).symm), hlistens, ?_⟩
    intro x hx
    rw [← h.text x hx]
    by_cases hreading : reading = l.reading
    · -- The reading of another user.
      have hother : mayRead s.page.user l.path = false := by
        simp only [mayRead, Listener.path, huser, Option.any_some, beq_eq_false_iff_ne]
        intro huid
        exact hown (by rw [huid, hreading])
      rw [page_deliver, if_neg (by simp [hother])]
    · exact hsame.text reading hreading

/-- What holds after a history. -/
structure Current (events : List Event) (s : State) : Prop where
  node : ∀ path, s.database.node path = stored path (accepted events)
  shows : ∀ user, s.page.user = some user → ∀ reading, ∃ told, Shows s user reading told

theorem stored_snoc (path : List String) (writes : List (String × ℚ)) (write : String × ℚ) :
    stored path (writes ++ [write]) = if keys write.1 = path then some write.2 else stored path writes := by
  rw [stored, List.foldl_append]
  rfl

theorem accepted_snoc (events : List Event) (event : Event) :
    accepted (events ++ [event]) = match event with
      | .setFloat path x => accepted events ++ [(path, x)]
      | _ => accepted events := by
  rw [accepted, List.filterMap_append]
  cases event with
  | setFloat path x => rfl
  | authState user => exact List.append_nil _
  | deliver l => exact List.append_nil _
  | skip l => exact List.append_nil _

theorem Current.setFloat {events : List Event} (h : Current events s) (path : String) (x : ℚ) :
    Current (events ++ [.setFloat path x]) { s with database := s.database.write (keys path) x } := by
  constructor
  · intro path'
    rw [accepted_snoc, stored_snoc, ← h.node path']
    by_cases hpath : keys path = path'
    · simp [Feed.write, hpath]
    · simp [Feed.write, hpath, Function.update_of_ne (Ne.symm hpath)]
  · intro user huser reading
    obtain ⟨told, hshows⟩ := h.shows user huser reading
    exact ⟨told, hshows.follows.write (keys path) x, hshows.listens, hshows.text⟩

theorem Current.authState {events : List Event} (h : Current events s) (user : Option User) :
    Current (events ++ [.authState user]) (s.authState user) := by
  cases user with
  | none =>
      refine ⟨fun path => ?_, fun user huser => by cases huser⟩
      rw [accepted_snoc]
      exact h.node path
  | some user =>
      refine ⟨fun path => ?_, fun user' huser' reading => ?_⟩
      · rw [accepted_snoc]
        exact h.node path
      · obtain rfl := Option.some.inj huser'
        -- Both readings are told anew, whatever the elements of the page still hold.
        refine ⟨none, ?_, ?_, fun x hx => by cases hx⟩
        · cases reading with
          | temperatura => exact (Feed.follows_watch s.database _ none).watch _
          | humedad => exact Feed.follows_watch _ _ none
        · cases reading <;> simp [State.authState, Dashboard.step, Page.setupUI]

theorem Current.deliver {events : List Event} (h : Current events s) {l : Listener} {value : Option ℚ}
    {rest : List (Option ℚ)} (hpending : s.database.pending l.path = value :: rest) :
    Current (events ++ [.deliver l]) (s.deliver l value) := by
  constructor
  · intro path
    rw [accepted_snoc]
    exact h.node path
  · intro user huser reading
    rw [(same_deliver l value s).user] at huser
    obtain ⟨told, hshows⟩ := h.shows user huser reading
    exact hshows.deliver huser hpending

theorem Current.skip {events : List Event} (h : Current events s) {l : Listener}
    (hlength : 1 < (s.database.pending l.path).length) :
    Current (events ++ [.skip l]) { s with database := s.database.take l.path } := by
  constructor
  · intro path
    rw [accepted_snoc]
    exact h.node path
  · intro user huser reading
    obtain ⟨told, hshows⟩ := h.shows user huser reading
    refine ⟨told, ?_, hshows.listens, hshows.text⟩
    by_cases hown : (Listener.mk user.uid reading).path = l.path
    · rw [← hown] at hlength ⊢
      exact hshows.follows.skip hlength
    · exact hshows.follows.take_of_ne hown

theorem step_deliver {s t : State} {l : Listener} (h : step s (.deliver l) = some t) :
    ∃ value rest, s.database.pending l.path = value :: rest ∧ t = s.deliver l value := by
  obtain ⟨value, hhead, rfl⟩ := Option.map_eq_some_iff.mp h
  obtain ⟨rest, hrest⟩ := List.head?_eq_some_iff.mp hhead
  exact ⟨value, rest, hrest, rfl⟩

theorem current_of_run {events : List Event} (h : service.run events = some s) : Current events s := by
  refine Machine.run_invariant Current ?_ ?_ h
  · exact ⟨fun _ => rfl, fun user huser => by cases huser⟩
  · intro events s event t hs hstep
    cases event with
    | setFloat path value =>
        obtain rfl := Option.some.inj hstep
        exact hs.setFloat path value
    | authState user =>
        obtain rfl := Option.some.inj hstep
        exact hs.authState user
    | deliver l =>
        obtain ⟨value, rest, hpending, rfl⟩ := step_deliver hstep
        exact hs.deliver hpending
    | skip l =>
        obtain ⟨hlength, ht⟩ := Option.ite_none_right_eq_some.mp hstep
        obtain rfl := Option.some.inj ht
        exact hs.skip hlength

/-- Once no snapshot of the user is on the way, the page shows what is stored. -/
theorem text_of_settled {events : List Event} (h : service.run events = some s)
    (huser : s.page.user = some user) (hsettled : Settled user.uid s) {x : ℚ}
    (hx : stored (Listener.mk user.uid reading).path (accepted events) = some x) :
    s.page.text reading = toFixed x 2 := by
  have hcurrent := current_of_run h
  obtain ⟨told, hshows⟩ := hcurrent.shows user huser reading
  apply hshows.text
  rw [hshows.follows.eq_node (hsettled reading), hcurrent.node, hx]

/-! ## Snapshots arrive -/

/-- All snapshots of one listener arrive, and nothing else changes in flight. -/
theorem run_deliver (l : Listener) : ∀ (n : ℕ) {events : List Event} {s : State},
    service.run events = some s → (s.database.pending l.path).length = n →
      ∃ t, service.run (events ++ List.replicate n (.deliver l)) = some t ∧
        t.database.pending = Function.update s.database.pending l.path [] ∧ t.page.user = s.page.user := by
  intro n
  induction n with
  | zero =>
      intro events s h hlength
      refine ⟨s, by simpa using h, ?_, rfl⟩
      rw [← List.length_eq_zero_iff.mp hlength, Function.update_eq_self]
  | succ n ih =>
      intro events s h hlength
      -- The first snapshot is delivered, and the induction delivers those behind it.
      obtain ⟨value, rest, hpending⟩ := List.exists_cons_of_length_eq_add_one hlength
      have hstep : service.run (events ++ [.deliver l]) = some (s.deliver l value) := by
        rw [Machine.run_snoc, h]
        simp [service, step, hpending]
      have hrest : ((s.deliver l value).database.pending l.path).length = n := by
        simpa [State.deliver, Feed.take, hpending] using hlength
      obtain ⟨t, ht, hflight, huser⟩ := ih hstep hrest
      refine ⟨t, ?_, ?_, ?_⟩
      · rw [List.replicate_succ, List.append_cons]
        exact ht
      · rw [hflight]
        simp [State.deliver, Feed.take]
      · rw [huser]
        exact (same_deliver l value s).user

theorem run_settle {events : List Event} (h : service.run events = some s) (uid : String) :
    ∃ more t, (∀ event ∈ more, ∃ l, event = .deliver l) ∧ service.run (events ++ more) = some t ∧
      t.page.user = s.page.user ∧ Settled uid t := by
  obtain ⟨t, ht, hflight, huser⟩ := run_deliver ⟨uid, .temperatura⟩ _ h rfl
  obtain ⟨t', ht', hflight', huser'⟩ := run_deliver ⟨uid, .humedad⟩ _ ht rfl
  refine ⟨_, t', ?_, by rwa [List.append_assoc] at ht', huser'.trans huser, ?_⟩
  · intro event hevent
    rcases List.mem_append.mp hevent with hmem | hmem
    · exact ⟨_, List.eq_of_mem_replicate hmem⟩
    · exact ⟨_, List.eq_of_mem_replicate hmem⟩
  · intro reading
    rw [hflight', hflight]
    cases reading with
    | temperatura =>
        have hother : (Listener.mk uid .temperatura).path ≠ (Listener.mk uid .humedad).path :=
          fun hpath => nomatch path_injective hpath
        rw [Function.update_of_ne hother, Function.update_self]
    | humedad => rw [Function.update_self]

/-! ## What the device has measured -/

/-- The tenths that the device measures at a value of its counter, and the float that it uploads. -/
def tenths (k : ℕ) : Reading → ℕ
  | .temperatura => k
  | .humedad => 2 * k

def measured (k : ℕ) : Reading → ℚ
  | .temperatura => (ServidorDHT11.reading k).1
  | .humedad => (ServidorDHT11.reading k).2

/-- Two decimals hide that no tenth is a float. -/
theorem toFixed_measured {k : ℕ} (hlow : 2 ≤ k) (hhigh : k ≤ 21) (reading : Reading) :
    toFixed (measured k reading) 2 = Decimal.text false (10 * tenths k reading) 2 := by
  have hall : ∀ k < 22, 2 ≤ k → ∀ reading ∈ [Reading.temperatura, .humedad],
      toFixed (measured k reading) 2 = Decimal.text false (10 * tenths k reading) 2 := by
    decide +kernel
  exact hall k (Nat.lt_succ_of_le hhigh) hlow reading (by cases reading <;> simp)

theorem mem_of_stored {path : List String} {writes : List (String × ℚ)} {x : ℚ}
    (h : stored path writes = some x) : ∃ path', keys path' = path ∧ (path', x) ∈ writes := by
  induction writes using List.reverseRecOn with
  | nil => cases h
  | append_singleton writes write ih =>
      rw [stored_snoc] at h
      by_cases hpath : keys write.1 = path
      · rw [if_pos hpath] at h
        obtain rfl := Option.some.inj h
        exact ⟨write.1, hpath, List.mem_append_right _ (List.mem_singleton_self _)⟩
      · rw [if_neg hpath] at h
        obtain ⟨path', hpath', hmem⟩ := ih h
        exact ⟨path', hpath', List.mem_append_left _ hmem⟩

/-- Writes elsewhere do not matter. -/
theorem stored_filter {path : List String} {p : String × ℚ → Bool}
    (hp : ∀ write, keys write.1 = path → p write = true) (writes : List (String × ℚ)) :
    stored path (writes.filter p) = stored path writes := by
  induction writes using List.reverseRecOn with
  | nil => rfl
  | append_singleton writes write ih =>
      rw [List.filter_append, stored_snoc, ← ih]
      by_cases hkept : p write = true
      · rw [List.filter_singleton, hkept, cond_true, stored_snoc]
      · have helse : keys write.1 ≠ path := fun hpath => hkept (hp write hpath)
        have hfalse : p write = false := by simpa using hkept
        rw [List.filter_singleton, hfalse, cond_false, List.append_nil, if_neg helse]

/-- An upload leaves its two readings. -/
theorem stored_pair {uid : String} (huid : uid ≠ "") (hslash : '/' ∉ uid.toList)
    (writes : List (String × ℚ)) (k : ℕ) (reading : Reading) :
    stored (Listener.mk uid reading).path (writes ++ ServidorDHT11.pair uid k) =
      some (measured k reading) := by
  have hne : (Listener.mk uid .humedad).path ≠ (Listener.mk uid .temperatura).path :=
    fun hpath => nomatch path_injective hpath
  rw [ServidorDHT11.pair, List.append_cons, stored_snoc, stored_snoc, keys_tempPath huid hslash,
    keys_humPath huid hslash]
  cases reading with
  | temperatura => rw [if_neg hne, if_pos rfl, measured]
  | humedad => rw [if_pos rfl, measured]

/-- A write below the node of a user. -/
def own (uid : String) (write : String × ℚ) : Bool :=
  [Reading.temperatura, .humedad].any fun reading => keys write.1 == (Listener.mk uid reading).path

/-- A device, and the database with a page. Below the node of the device's user the database accepts
only what the device writes. -/
structure Installation where
  device : ServidorDHT11.Run
  uid_ne : device.uid ≠ ""
  uid_plain : '/' ∉ device.uid.toList
  events : List Event
  state : State
  reached : service.run events = some state
  fed : ((accepted events).filter (own device.uid)).Sublist device.state.mem.writes

namespace Installation

variable (v : Installation)

theorem stored_own (reading : Reading) :
    stored (Listener.mk v.device.uid reading).path ((accepted v.events).filter (own v.device.uid)) =
      stored (Listener.mk v.device.uid reading).path (accepted v.events) := by
  apply stored_filter
  intro write hpath
  cases reading <;> simp [own, hpath]

/-! ## Two uploads -/

def sampleDevice : ServidorDHT11.Run :=
  ⟨ana.uid, 1000, 2, Arduino.calm 8 ++ [{ elapsed := 6000 }] ++ Arduino.calm 6⟩

/-- The first value of a reading is overtaken by the second, of the other reading none. -/
def sampleEvents : List Event :=
  let temp := Listener.mk ana.uid .temperatura
  let hum := Listener.mk ana.uid .humedad
  [.authState (some ana),
    .setFloat (ServidorDHT11.tempPath ana.uid) (ServidorDHT11.reading 2).1,
    .setFloat (ServidorDHT11.humPath ana.uid) (ServidorDHT11.reading 2).2,
    .deliver temp, .deliver hum,
    .setFloat (ServidorDHT11.tempPath ana.uid) (ServidorDHT11.reading 3).1, .skip temp,
    .setFloat (ServidorDHT11.humPath ana.uid) (ServidorDHT11.reading 3).2,
    .deliver hum, .deliver temp, .deliver hum]

theorem possible_sampleEvents : (service.run sampleEvents).isSome = true := by decide +kernel

theorem writes_sampleDevice : sampleDevice.state.mem.writes = accepted sampleEvents := by
  decide +kernel

theorem own_sampleEvents : (accepted sampleEvents).filter (own ana.uid) = accepted sampleEvents := by
  decide +kernel

def sample : Installation where
  device := sampleDevice
  uid_ne := by decide
  uid_plain := by decide +kernel
  events := sampleEvents
  state := (service.run sampleEvents).get possible_sampleEvents
  reached := (Option.some_get possible_sampleEvents).symm
  fed := by
    rw [writes_sampleDevice]
    exact List.filter_sublist

end Installation

end Web.Readings
