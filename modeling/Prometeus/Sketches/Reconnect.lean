import Mathlib.Logic.Relation
import Prometeus.Arduino.PubSubClientLaws

/-! # Reconnecting with a subscription

Both MQTT sketches reconnect by the same loop: until the client is connected they open a clean
session, publish an announcement and subscribe to `inTopic`, and they ignore what
`publish` and `subscribe` return. The invariant is that a live session is a subscribed one.
-/

namespace Sketches

open Arduino Script Sketch Mqtt
open PubSubClient

variable {δ : Type}

def inTopic : Bytes := cstr "inTopic"

/-- The loop of `reconnect` and `reconnectLocal`: the client identifier, topic and payload of the
announcement, and the pause after a failed attempt. -/
def reconnectWith (clientId : Sketch (PubSubClient δ) Bytes) (topic payload : Bytes) (pause : ℕ) :
    Sketch (PubSubClient δ) Unit := do
  whileDo
    (do
      let up ← connected
      pure (!up))
    (do
      let id ← clientId
      if ← connect id then
        let _ ← publish topic payload
        let _ ← subscribe inTopic
      else
        delay pause)
  resume

/-- `if (!client.connected()) reconnect();` -/
def ensureConnected (reconnect : Sketch (PubSubClient δ) Unit) : Sketch (PubSubClient δ) Unit := do
  if !(← connected) then
    reconnect

/-! ## Subscriptions in a log -/

/-- The topics of the current session: a new connection or a CONNECT begins one. -/
def sessionOf (log : List (Event δ)) : List Bytes :=
  log.foldl (fun topics event => match event with
    | .opened => []
    | .wrote packet => sessionAfter topics packet
    | _ => topics) []

def Subscribed (log : List (Event δ)) : Prop := inTopic ∈ sessionOf log

/-- The moments at which the sketch relies on its session. -/
def Relies : Event δ → Prop
  | .serviced _ | .resumed => True
  | _ => False

theorem not_relies_wrote (packet : Bytes) : ¬ Relies (.wrote packet : Event δ) := fun h => h

/-- Whenever the sketch relied on its session, that session had its subscription. -/
def Guarded (log : List (Event δ)) : Prop :=
  ∀ before event after, log = before ++ event :: after → Relies event → Subscribed before

theorem guarded_nil : Guarded ([] : List (Event δ)) := by
  intro before event after hlog
  simp at hlog

theorem Guarded.snoc {log : List (Event δ)} {event : Event δ} (h : Guarded log)
    (hevent : Relies event → Subscribed log) : Guarded (log ++ [event]) := by
  intro before mark after hlog hmark
  rcases List.eq_nil_or_concat after with rfl | ⟨init, last, rfl⟩
  · obtain ⟨rfl, hlast⟩ := List.append_inj' hlog rfl
    obtain rfl := List.singleton_inj.mp hlast
    exact hevent hmark
  · have hsplit : log ++ [event] = (before ++ mark :: init) ++ [last] := by
      rw [hlog]
      simp
    obtain ⟨rfl, -⟩ := List.append_inj' hsplit rfl
    exact h before mark init rfl hmark

theorem sessionOf_snoc (log : List (Event δ)) (event : Event δ) :
    sessionOf (log ++ [event]) = match event with
      | .opened => []
      | .wrote packet => sessionAfter (sessionOf log) packet
      | _ => sessionOf log := by
  rw [sessionOf, List.foldl_append]
  cases event <;> rfl

/-- Events without a mark are no reason to doubt a log. -/
theorem Guarded.append {log events : List (Event δ)} (h : Guarded log)
    (hevents : ∀ event ∈ events, ¬ Relies event) : Guarded (log ++ events) := by
  induction events using List.reverseRecOn with
  | nil => simpa using h
  | append_singleton events event ih =>
      rw [← List.append_assoc]
      refine (ih fun e he => hevents e (List.mem_append_left _ he)).snoc fun hmark => ?_
      exact absurd hmark (hevents event (by simp))

theorem not_relies_of_connecting {events : List (Event δ)} (h : Connecting events) :
    ∀ event ∈ events, ¬ Relies event := by
  intro event hmem
  rcases h event hmem with rfl | ⟨rest, rfl⟩ <;> exact id

/-- Servicing a subscribed session relies on it, and leaves it subscribed. -/
theorem Guarded.serving {callback : Option (Callback δ)} {log events : List (Event δ)}
    (h : Guarded log) (hlog : Subscribed log) (hevents : Serving callback events) :
    Guarded (log ++ events) ∧ Subscribed (log ++ events) := by
  induction events using List.reverseRecOn with
  | nil => simpa using ⟨h, hlog⟩
  | append_singleton events event ih =>
      obtain ⟨hguarded, hsubscribed⟩ := ih fun e he => hevents e (List.mem_append_left _ he)
      have hlast := hevents event (by simp)
      rw [← List.append_assoc]
      refine ⟨hguarded.snoc fun _ => hsubscribed, ?_⟩
      rw [Subscribed, sessionOf_snoc]
      cases event with
      | opened => exact hlast.elim
      | wrote packet =>
          obtain ⟨header, rest, rfl, hconnect, _, _⟩ := hlast
          exact mem_sessionAfter (by simpa [isConnect] using hconnect) hsubscribed
      | serviced packet => exact hsubscribed
      | delivered delivery => exact hsubscribed
      | resumed => exact hlast.elim

/-- Publishing keeps a session subscribed. -/
theorem Subscribed.publish {log : List (Event δ)} (h : Subscribed log) (retained : Bool)
    (topic payload : Bytes) : Subscribed (log ++ [.wrote (Mqtt.publish retained topic payload)]) := by
  rw [Subscribed, sessionOf_snoc]
  apply mem_sessionAfter _ h
  cases retained <;> rfl

theorem subscribed_subscribe (log : List (Event δ)) (id : ℕ) :
    Subscribed (log ++ [.wrote (Mqtt.subscribe id inTopic 0)]) := by
  rw [Subscribed, sessionOf_snoc]
  dsimp only
  rw [sessionAfter_subscribe _ (by decide)]
  exact List.mem_cons_self

/-! ## The invariant -/

/-- A live session has its subscription, and the sketch never relied on another one. -/
structure Safe (b : Board (PubSubClient δ)) : Prop where
  guarded : Guarded b.mem.log
  subscribed : Live b → Subscribed b.mem.log

variable {b b' b'' : Board (PubSubClient δ)}

theorem Safe.quiet (h : Safe b) (hquiet : Quiet b b') : Safe b' := by
  have hlog : b'.mem.log = b.mem.log := by rw [hquiet.1.log, List.append_nil]
  refine ⟨hlog ▸ h.guarded, fun hlive => ?_⟩
  rw [hlog]
  exact h.subscribed (hquiet.2.live hlive)

/-- `loop` keeps the invariant: it services live sessions only. -/
theorem Safe.serves (h : Safe b) (hserves : Serves b b')
    (hlog : b'.mem.log ≠ b.mem.log → Live b) : Safe b' := by
  obtain ⟨⟨events, hran, hserving⟩, hfades⟩ := hserves
  by_cases hsame : b'.mem.log = b.mem.log
  · refine ⟨hsame ▸ h.guarded, fun hlive => ?_⟩
    rw [hsame]
    exact h.subscribed (hfades.live hlive)
  · obtain ⟨hguarded, hsubscribed⟩ := h.guarded.serving (h.subscribed (hlog hsame)) hserving
    rw [← hran.log] at hguarded hsubscribed
    exact ⟨hguarded, fun _ => hsubscribed⟩

theorem Safe.publish {retained : Bool} {topic payload : Bytes} (h : Safe b) (hfades : Fades b b')
    (hran : Ran [.wrote (Mqtt.publish retained topic payload)] b b') : Safe b' := by
  refine ⟨?_, fun hlive => ?_⟩
  · rw [hran.log]
    exact h.guarded.snoc fun hmark => absurd hmark (not_relies_wrote _)
  · rw [hran.log]
    exact (h.subscribed (hfades.live hlive)).publish retained topic payload

/-- What reconnecting writes: CONNECT packets, announcements and subscriptions. -/
def Rejoining (topic payload : Bytes) (events : List (Event δ)) : Prop :=
  ∀ event ∈ events, event = .opened ∨ (∃ rest, event = .wrote (connectType :: rest)) ∨
    event = .wrote (Mqtt.publish false topic payload) ∨
    (∃ id, event = .wrote (Mqtt.subscribe id inTopic 0)) ∨ event = .resumed

/-- The board `b'` is reached from `b` by reconnecting. -/
def Rejoins (topic payload : Bytes) (b b' : Board (PubSubClient δ)) : Prop :=
  ∃ events, Ran events b b' ∧ Rejoining topic payload events

theorem Rejoins.trans {topic payload : Bytes} (h : Rejoins topic payload b b')
    (h' : Rejoins topic payload b' b'') : Rejoins topic payload b b'' := by
  obtain ⟨events, hran, hevents⟩ := h
  obtain ⟨more, hran', hmore⟩ := h'
  refine ⟨events ++ more, hran.trans hran', fun event hmem => ?_⟩
  rcases List.mem_append.mp hmem with hmem | hmem
  · exact hevents event hmem
  · exact hmore event hmem

theorem Rejoins.one {topic payload : Bytes} {event : Event δ} (hran : Ran [event] b b')
    (hevent : Rejoining topic payload [event]) : Rejoins topic payload b b' :=
  ⟨[event], hran, hevent⟩

theorem rejoins_quiet {topic payload : Bytes} (h : Ran [] b b') : Rejoins topic payload b b' :=
  ⟨[], h, by simp [Rejoining]⟩

theorem rejoins_connecting {topic payload : Bytes}
    (h : ∃ events, Ran events b b' ∧ Connecting events) : Rejoins topic payload b b' := by
  obtain ⟨events, hran, hevents⟩ := h
  refine ⟨events, hran, fun event hmem => ?_⟩
  rcases hevents event hmem with hopened | hconnect
  · exact Or.inl hopened
  · exact Or.inr (Or.inl hconnect)

theorem guarded_connecting (h : Guarded b.mem.log)
    (hran : ∃ events, Ran events b b' ∧ Connecting events) : Guarded b'.mem.log := by
  obtain ⟨events, hran, hevents⟩ := hran
  rw [hran.log]
  exact h.append (not_relies_of_connecting hevents)

/-- One attempt to connect. Whatever drops in the middle of it, a session that is live at the
end has its subscription. -/
theorem wp_attempt {clientId : Sketch (PubSubClient δ) Bytes} {topic payload : Bytes} {pause : ℕ}
    (hid : ∀ b, wp clientId (fun _ => Quiet b) (Quiet b) b)
    (hpayload : payload.length ≤ mqttMaxPacketSize) (h : Safe b) :
    wp (do
      let id ← clientId
      if ← connect id then
        let _ ← publish topic payload
        let _ ← subscribe inTopic
      else
        delay pause) (fun _ b' => Safe b' ∧ Rejoins topic payload b b')
      (fun b' => Guarded b'.mem.log ∧ Rejoins topic payload b b') b := by
  refine wp_seq (hid b) (fun t ht => ⟨(h.quiet ht).guarded, rejoins_quiet ht.1⟩) ?_
  intro id b₁ hquiet
  have hsafe := h.quiet hquiet
  have hnamed : Rejoins topic payload b b₁ := rejoins_quiet hquiet.1
  refine wp_seq (wp_connect id) ?_ ?_
  · intro t ht
    exact ⟨guarded_connecting hsafe.guarded ht, hnamed.trans (rejoins_connecting ht)⟩
  rintro ok b₂ ⟨hconnect, hfailed⟩
  have hguarded := guarded_connecting hsafe.guarded hconnect
  have hconnected := hnamed.trans (rejoins_connecting hconnect)
  rw [wp_ite]
  refine ⟨fun _ => ?_, fun hdown => ?_⟩
  swap
  · rw [Bool.not_eq_true] at hdown
    rw [wp_delay]
    refine ⟨⟨hguarded, hconnected⟩, fun elapsed => ⟨⟨hguarded, fun hlive => ?_⟩, ?_⟩⟩
    · exact absurd hlive.2 (hfailed hdown)
    · exact hconnected.trans (rejoins_quiet ⟨Nat.le_add_right_of_le (Nat.le_add_right _ _),
        by simp, rfl, rfl⟩)
  -- the announcement may or may not be written; it marks nothing
  have hannounced : ∀ t, (Ran [] b₂ t ∨ Ran [.wrote (Mqtt.publish false topic payload)] b₂ t) →
      Guarded t.mem.log ∧ Rejoins topic payload b t := by
    rintro t (hran | hran)
    · refine ⟨?_, hconnected.trans (rejoins_quiet hran)⟩
      rw [hran.log, List.append_nil]
      exact hguarded
    · refine ⟨?_, hconnected.trans (Rejoins.one hran (by simp [Rejoining]))⟩
      rw [hran.log]
      exact hguarded.snoc fun hmark => absurd hmark (not_relies_wrote _)
  refine wp_seq (wp_publish hpayload) (fun t ht => hannounced t ht.2) ?_
  rintro sent b₃ ⟨-, hsent⟩
  have hpublished := hannounced b₃ (by
    cases sent with
    | false => exact Or.inl hsent
    | true => exact Or.inr hsent.1)
  have hsubscribing : ∀ t id, Ran [.wrote (Mqtt.subscribe id inTopic 0)] b₃ t →
      Safe t ∧ Rejoins topic payload b t := by
    intro t id hran
    have hlog := subscribed_subscribe b₃.mem.log id
    rw [← hran.log] at hlog
    refine ⟨⟨?_, fun _ => hlog⟩, hpublished.2.trans (Rejoins.one hran fun event hmem => ?_)⟩
    swap
    · exact Or.inr (Or.inr (Or.inr (Or.inl ⟨id, List.mem_singleton.mp hmem⟩)))
    rw [hran.log]
    exact hpublished.1.snoc fun hmark => absurd hmark (not_relies_wrote _)
  refine wp_seq (wp_subscribe (by decide) (by decide)) ?_ ?_
  · rintro t ⟨-, hran | ⟨id, hran⟩⟩
    · refine ⟨?_, hpublished.2.trans (rejoins_quiet hran)⟩
      rw [hran.log, List.append_nil]
      exact hpublished.1
    · exact ⟨(hsubscribing t id hran).1.guarded, (hsubscribing t id hran).2⟩
  · rintro - b₄ ⟨-, ⟨id, hran⟩ | ⟨hran, hdead⟩⟩
    · exact wp_pure.mpr (hsubscribing b₄ id hran)
    · rw [wp_pure]
      refine ⟨⟨?_, fun hlive => absurd hlive hdead⟩, hpublished.2.trans (rejoins_quiet hran)⟩
      rw [hran.log, List.append_nil]
      exact hpublished.1

/-- Reconnecting keeps the invariant, and returns with a subscribed session. -/
theorem wp_reconnectWith {clientId : Sketch (PubSubClient δ) Bytes} {topic payload : Bytes}
    {pause : ℕ} (hid : ∀ b, wp clientId (fun _ => Quiet b) (Quiet b) b)
    (hpayload : payload.length ≤ mqttMaxPacketSize) (h : Safe b) :
    wp (reconnectWith clientId topic payload pause)
      (fun _ b' => Safe b' ∧ Rejoins topic payload b b')
      (fun b' => Guarded b'.mem.log ∧ Rejoins topic payload b b') b := by
  rw [reconnectWith]
  apply wp_bind
  apply wp_whileDo (fun t => Safe t ∧ Rejoins topic payload b t)
  · exact ⟨h, rejoins_quiet (Ran.refl b)⟩
  · exact fun t ht => ⟨ht.1.guarded, ht.2⟩
  rintro t ⟨hsafe, hrejoins⟩
  refine wp_seq wp_connected ?_ ?_
  · exact fun u hu => ⟨(hsafe.quiet hu).guarded, hrejoins.trans (rejoins_quiet hu.1)⟩
  rintro rc u ⟨hquiet, hrc⟩
  have hsafe := hsafe.quiet hquiet
  have hrejoins := hrejoins.trans (rejoins_quiet hquiet.1)
  rw [wp_pure]
  cases rc with
  | false =>
      rw [Bool.not_false, if_pos rfl]
      refine wp_mono (wp_attempt hid hpayload hsafe) ?_ ?_
      · exact fun _ v hv => ⟨hv.1, hrejoins.trans hv.2⟩
      · exact fun v hv => ⟨hv.1, hrejoins.trans hv.2⟩
  | true =>
      rw [Bool.not_true, if_neg Bool.false_ne_true, resume, wp_modify]
      have hsubscribed := hsafe.subscribed hrc
      refine ⟨⟨hsafe.guarded.snoc fun _ => hsubscribed, fun _ => ?_⟩, ?_⟩
      · rw [Subscribed, sessionOf_snoc]
        exact hsubscribed
      · have hresumed : Ran [Event.resumed] u ⟨u.clock, { u.mem with log := u.mem.log ++ [.resumed] }⟩ :=
          ⟨le_rfl, rfl, rfl, rfl⟩
        exact hrejoins.trans (Rejoins.one hresumed (by simp [Rejoining]))

theorem wp_ensureConnected {clientId : Sketch (PubSubClient δ) Bytes} {topic payload : Bytes}
    {pause : ℕ} (hid : ∀ b, wp clientId (fun _ => Quiet b) (Quiet b) b)
    (hpayload : payload.length ≤ mqttMaxPacketSize) (h : Safe b) :
    wp (ensureConnected (reconnectWith clientId topic payload pause))
      (fun _ b' => Safe b' ∧ Rejoins topic payload b b')
      (fun b' => Guarded b'.mem.log ∧ Rejoins topic payload b b') b := by
  rw [ensureConnected]
  refine wp_seq wp_connected ?_ ?_
  · exact fun t ht => ⟨(h.quiet ht).guarded, rejoins_quiet ht.1⟩
  rintro rc b₁ ⟨hquiet, -⟩
  have hsafe := h.quiet hquiet
  have hfound : Rejoins topic payload b b₁ := rejoins_quiet hquiet.1
  rw [wp_ite]
  refine ⟨fun _ => ?_, fun _ => wp_pure.mpr ⟨hsafe, hfound⟩⟩
  refine wp_mono (wp_reconnectWith hid hpayload hsafe) ?_ ?_
  · exact fun _ t ht => ⟨ht.1, hfound.trans ht.2⟩
  · exact fun t ht => ⟨ht.1, hfound.trans ht.2⟩

/-! ## Clients under a sketch -/

/-- What a sketch does with its client: it reconnects, services the link, or publishes. -/
inductive ClientStep (topic payload : Bytes) (b b' : Board (PubSubClient δ)) : Prop
  | rejoins (h : Rejoins topic payload b b')
  | serves (h : Serves b b')
  | publishes (retained : Bool) (topic' payload' : Bytes)
      (h : Ran [.wrote (Mqtt.publish retained topic' payload')] b b')

/-- Any number of such steps. -/
abbrev Works (topic payload : Bytes) : Board (PubSubClient δ) → Board (PubSubClient δ) → Prop :=
  Relation.ReflTransGen (ClientStep topic payload)

theorem Works.quiet {topic payload : Bytes} (h : Works topic payload b b') (hquiet : Ran [] b' b'') :
    Works topic payload b b'' :=
  h.tail (.rejoins (rejoins_quiet hquiet))

/-- Publishing keeps the session, and is one step. -/
theorem wp_publish_works {topic payload topic' payload' : Bytes} {retained : Bool}
    {start : Board (PubSubClient δ)} (hpayload : payload'.length ≤ mqttMaxPacketSize) (h : Safe b)
    (hworks : Works topic payload start b) :
    wp (publish topic' payload' retained) (fun _ t => Safe t ∧ Works topic payload start t)
      (fun t => Guarded t.mem.log ∧ Works topic payload start t) b := by
  refine wp_mono (wp_publish hpayload) ?_ ?_
  · rintro ok t ⟨hfades, hsent⟩
    cases ok with
    | false => exact ⟨h.quiet ⟨hsent, hfades⟩, hworks.quiet hsent⟩
    | true => exact ⟨h.publish hfades hsent.1, hworks.tail (.publishes _ _ _ hsent.1)⟩
  · rintro t ⟨hfades, hran | hran⟩
    · exact ⟨(h.quiet ⟨hran, hfades⟩).guarded, hworks.quiet hran⟩
    · exact ⟨(h.publish hfades hran).guarded, hworks.tail (.publishes _ _ _ hran)⟩

theorem wp_loop_works {topic payload : Bytes} {start : Board (PubSubClient δ)} (h : Safe b)
    (hworks : Works topic payload start b) :
    wp loop (fun _ t => Safe t ∧ Works topic payload start t)
      (fun t => Guarded t.mem.log ∧ Works topic payload start t) b := by
  refine wp_mono wp_loop ?_ ?_
  · exact fun _ t ht => ⟨h.serves ht.1 ht.2, hworks.tail (.serves ht.1)⟩
  · exact fun t ht => ⟨(h.serves ht.1 ht.2).guarded, hworks.tail (.serves ht.1)⟩

theorem wp_ensure_works {clientId : Sketch (PubSubClient δ) Bytes} {topic payload : Bytes}
    {pause : ℕ} {start : Board (PubSubClient δ)} (hid : ∀ b, wp clientId (fun _ => Quiet b) (Quiet b) b)
    (hpayload : payload.length ≤ mqttMaxPacketSize) (h : Safe b)
    (hworks : Works topic payload start b) :
    wp (ensureConnected (reconnectWith clientId topic payload pause))
      (fun _ t => Safe t ∧ Works topic payload start t)
      (fun t => Guarded t.mem.log ∧ Works topic payload start t) b := by
  refine wp_mono (wp_ensureConnected hid hpayload h) ?_ ?_
  · exact fun _ t ht => ⟨ht.1, hworks.tail (.rejoins ht.2)⟩
  · exact fun t ht => ⟨ht.1, hworks.tail (.rejoins ht.2)⟩

end Sketches
