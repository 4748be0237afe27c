import Prometeus.Arduino.DHTespLaws
import Prometeus.Sketches.Invernadero

/-! # Runs of the greenhouse sketch

What an iteration publishes comes from one valid frame that the sensor gave in that iteration, as
long as its readings stay within 999 milliseconds and no iteration is late by a whole round
of the clock. The same invariant says what is written to the local topic and that the local session is
never used without its subscription.
-/

namespace Sketches.Invernadero

open Arduino Script Sketch Mqtt PubSubClient DHTesp

/-! ## Timely runs -/

/-- Before this instant the first reading of an iteration must come: `2 ^ 32` milliseconds after
that of the iteration before, and for the first one `2 ^ 32 - 3000` after `dht.setup`. -/
def horizon (setupAt : ℕ) (earlier : List (List Poll)) : ℕ :=
  match earlier.getLast? with
  | none => setupAt + (2 ^ 32 - 3000)
  | some polls => ((polls.head?.map Poll.instant).getD 0) + 2 ^ 32

/-- No iteration is late, and the clock readings of one iteration are fewer than
999 milliseconds later than its first. -/
def Timely (setupAt : ℕ) (pollings : List (List Poll)) : Prop :=
  ∀ earlier first rest later, pollings = earlier ++ (first :: rest) :: later →
    first.instant < horizon setupAt earlier ∧ ∀ poll ∈ rest, poll.instant < first.instant + 999

theorem Timely.init {setupAt : ℕ} {pollings : List (List Poll)} {polls : List Poll}
    (h : Timely setupAt (pollings ++ [polls])) : Timely setupAt pollings := by
  intro earlier first rest later heq
  apply h earlier first rest (later ++ [polls])
  rw [heq]
  simp

theorem Timely.last {setupAt : ℕ} {pollings : List (List Poll)} {first : Poll} {rest : List Poll}
    (h : Timely setupAt (pollings ++ [first :: rest])) :
    first.instant < horizon setupAt pollings ∧ ∀ poll ∈ rest, poll.instant < first.instant + 999 :=
  h pollings first rest [] rfl

theorem timely_snoc {setupAt : ℕ} {pollings : List (List Poll)} {polls : List Poll}
    (h : Timely setupAt pollings) (hpolls : ∀ first rest, polls = first :: rest →
      first.instant < horizon setupAt pollings ∧ ∀ poll ∈ rest, poll.instant < first.instant + 999) :
    Timely setupAt (pollings ++ [polls]) := by
  intro earlier first rest later heq
  rcases List.eq_nil_or_concat later with rfl | ⟨front, last, rfl⟩
  · obtain ⟨rfl, hlast⟩ := List.append_inj' heq rfl
    exact hpolls first rest (List.singleton_inj.mp hlast)
  · apply h earlier first rest front
    have hsplit : pollings ++ [polls] = (earlier ++ (first :: rest) :: front) ++ [last] := by
      rw [heq]
      simp
    exact List.append_inj_left' hsplit rfl

/-- The iteration sampled the sensor once, in its first reading, and published only what the frame
of that sampling says. -/
structure Iteration.Paired (it : Iteration) : Prop where
  sampled : ∃ instant rest, it.polls = ⟨instant, true⟩ :: rest ∧ ∀ poll ∈ rest, poll.sampled = false
  frame : ∀ r, it.report = some r → ∃ f, it.samplings = [.frame f] ∧
    r.temperatura = f.temperature11 ∧ r.humedad = f.humidity11

/-- What the calls of the sensor library did in each iteration, the present one included. -/
def Globals.pollings (g : Globals) : List (List Poll) := g.history.map Iteration.polls ++ [g.dht.polls]

/-! ## Reports -/

/-- A report of values that the sensors can give. -/
structure Genuine (r : Report) : Prop where
  temperatura : ∃ f : Frame, r.temperatura = f.temperature11
  humedad : ∃ f : Frame, r.humedad = f.humidity11
  radiacion : ∃ v < 100, r.valorSensor = ((300 + v : ℕ) : ℚ) ∧ r.voltajeUV = voltaje r.valorSensor
  distancia : ∃ t ≤ pulseTimeout, r.distancia = t / 59

/-- The report was published, in this iteration or an earlier one. -/
def Globals.Reported (g : Globals) (r : Report) : Prop :=
  g.report = some r ∨ ∃ it ∈ g.history, it.report = some r

/-- The payloads written to the local topic are announcements and the buffers of reports. -/
def Globals.Announces (g : Globals) : Prop :=
  ∀ packet payload, .wrote packet ∈ g.clientLocal.log →
    published packet = some (localTopic, payload) →
      payload = announcement ∨ ∃ r, g.Reported r ∧ payload = ascii r.jsonMessage

/-- What holds at every moment of a run. -/
structure Grounded (b : Board Globals) : Prop where
  guarded : Guarded b.mem.clientLocal.log
  announces : b.mem.Announces
  genuine : ∀ r, b.mem.Reported r → Genuine r
  paired : Timely b.mem.setupAt b.mem.pollings →
    (∀ it ∈ b.mem.history, it.Paired) ∧ (b.mem.report ≠ none → b.mem.current.Paired)

variable {b : Board Globals}

/-- The local client of the sketch, on the sketch's clock. -/
def localOf (b : Board Globals) : Board (PubSubClient Unit) := ⟨b.clock, b.mem.clientLocal⟩

/-- The sensor library, on the sketch's clock. -/
def dhtOf (b : Board Globals) : Board DHTesp := ⟨b.clock, b.mem.dht⟩

/-- A reading a second later will sample the sensor, unless it comes too late. -/
def Ready (b : Board Globals) : Prop :=
  ∀ instant, b.clock + 1000 ≤ instant →
    instant < horizon b.mem.setupAt (b.mem.history.map Iteration.polls) →
      b.mem.dht.tooSoon (UInt32.ofNat instant) = false

/-- What holds before the sensors are read. -/
structure Sound (b : Board Globals) : Prop where
  safe : Safe (localOf b)
  grounded : Grounded b
  decoded : Decoded b.mem.dht
  polls : b.mem.dht.polls = []
  samplings : b.mem.dht.samplings = []
  report : b.mem.report = none
  ready : Timely b.mem.setupAt (b.mem.history.map Iteration.polls) → Ready b

/-! ## The local client -/

/-- Only announcements are published. -/
def Announcing (events : List (Event Unit)) : Prop :=
  ∀ packet payload, .wrote packet ∈ events → published packet = some (localTopic, payload) →
    payload = announcement

theorem Globals.Announces.append {g : Globals} {events : List (Event Unit)} (h : g.Announces)
    {c : PubSubClient Unit} (hlog : c.log = g.clientLocal.log ++ events)
    (hevents : ∀ packet payload, .wrote packet ∈ events →
      published packet = some (localTopic, payload) →
        payload = announcement ∨ ∃ r, g.Reported r ∧ payload = ascii r.jsonMessage) :
    Globals.Announces { g with clientLocal := c } := by
  intro packet payload hmem hpublished
  rw [hlog] at hmem
  rcases List.mem_append.mp hmem with hold | hnew
  · exact h packet payload hold hpublished
  · exact hevents packet payload hnew hpublished

theorem Globals.Announces.mono {g g' : Globals} (h : g.Announces)
    (hlog : g'.clientLocal.log = g.clientLocal.log)
    (hreported : ∀ r, g.Reported r → g'.Reported r) : g'.Announces := by
  intro packet payload hmem hpublished
  rw [hlog] at hmem
  rcases h packet payload hmem hpublished with hann | ⟨r, hr, hpayload⟩
  · exact Or.inl hann
  · exact Or.inr ⟨r, hreported r hr, hpayload⟩

theorem announcing_of_rejoining {events : List (Event Unit)}
    (h : Rejoining localTopic announcement events) : Announcing events := by
  intro packet payload hmem hpublished
  rcases h _ hmem with hopened | ⟨rest, hconnect⟩ | hpublish | ⟨id, hsubscribe⟩ | hresumed
  · cases hopened
  · obtain rfl := Event.wrote.inj hconnect
    rw [published_eq_none (by decide)] at hpublished
    cases hpublished
  · obtain rfl := Event.wrote.inj hpublish
    rw [published_publish (by decide) (by decide)] at hpublished
    exact (Prod.mk.inj (Option.some.inj hpublished)).2.symm
  · obtain rfl := Event.wrote.inj hsubscribe
    rw [Mqtt.subscribe, frame, published_eq_none (by decide)] at hpublished
    cases hpublished
  · cases hresumed

theorem announcing_of_serving {callback : Option (Callback Unit)} {events : List (Event Unit)}
    (h : Serving callback events) : Announcing events := by
  intro packet payload hmem hpublished
  obtain ⟨header, rest, rfl, -, -, hpublish⟩ := h _ hmem
  rw [published_eq_none hpublish] at hpublished
  cases hpublished

/-- The local client after operations that publish at most announcements. -/
def Chatters (c c' : Board (PubSubClient Unit)) : Prop := ∃ events, Ran events c c' ∧ Announcing events

theorem Grounded.chatters (h : Grounded b) {c : Board (PubSubClient Unit)}
    (hguarded : Guarded c.mem.log) (hc : Chatters (localOf b) c) :
    Grounded ⟨c.clock, { b.mem with clientLocal := c.mem }⟩ := by
  obtain ⟨events, hran, hevents⟩ := hc
  refine ⟨hguarded, ?_, h.genuine, h.paired⟩
  refine h.announces.append hran.log ?_
  exact fun packet payload hmem hpublished => Or.inl (hevents packet payload hmem hpublished)

theorem Ready.later (h : Ready b) {t : Board Globals} (hclock : b.clock ≤ t.clock)
    (hdht : t.mem.dht = b.mem.dht) (hsetup : t.mem.setupAt = b.mem.setupAt)
    (hhistory : t.mem.history = b.mem.history) : Ready t := by
  intro instant hlow hhigh
  rw [hsetup, hhistory] at hhigh
  rw [hdht]
  exact h instant (by omega) hhigh

theorem wp_onLocal {α : Type} {m : Sketch (PubSubClient Unit) α} {Q : α → Board Globals → Prop}
    {C : Board Globals → Prop}
    (h : wp m (fun a c => Q a ⟨c.clock, { b.mem with clientLocal := c.mem }⟩)
      (fun c => C ⟨c.clock, { b.mem with clientLocal := c.mem }⟩) (localOf b)) :
    wp (onLocal m) Q C b :=
  wp_within h

/-- Operations of the local client that publish at most announcements keep a sound state sound. -/
theorem wp_onLocal_sound {α : Type} {m : Sketch (PubSubClient Unit) α} (h : Sound b)
    (hm : wp m (fun _ c => Safe c ∧ Chatters (localOf b) c)
      (fun c => Guarded c.mem.log ∧ Chatters (localOf b) c) (localOf b)) :
    wp (onLocal m) (fun _ t => Sound t ∧ t.mem.valorSensor = b.mem.valorSensor ∧
      t.mem.voltajeUV = b.mem.voltajeUV) Grounded b := by
  apply wp_onLocal
  refine wp_mono hm ?_ ?_
  · rintro - c ⟨hsafe, hc⟩
    have hclock : b.clock ≤ c.clock := by
      obtain ⟨events, hran, -⟩ := hc
      exact hran.clock
    refine ⟨⟨hsafe, h.grounded.chatters hsafe.guarded hc, h.decoded, h.polls, h.samplings,
      h.report, fun htimely => ?_⟩, rfl, rfl⟩
    exact (h.ready htimely).later hclock rfl rfl rfl
  · exact fun c hc => h.grounded.chatters hc.1 hc.2

theorem wp_reconnect_sound (h : Sound b) :
    wp (onLocal (ensureConnected reconnectLocal)) (fun _ t => Sound t ∧
      t.mem.valorSensor = b.mem.valorSensor ∧ t.mem.voltajeUV = b.mem.voltajeUV) Grounded b := by
  have hid : ∀ c : Board (PubSubClient Unit),
      wp (pure (cstr "ESP8266Client-Invernadero") : Sketch (PubSubClient Unit) Bytes)
        (fun _ => Quiet c) (Quiet c) c :=
    fun c => wp_pure.mpr (Quiet.refl c)
  have hchatters : ∀ c, Rejoins localTopic announcement (localOf b) c → Chatters (localOf b) c := by
    rintro c ⟨events, hran, hevents⟩
    exact ⟨events, hran, announcing_of_rejoining hevents⟩
  apply wp_onLocal_sound h
  refine wp_mono (wp_ensureConnected hid (by decide) h.safe) ?_ ?_
  · exact fun _ c hc => ⟨hc.1, hchatters c hc.2⟩
  · exact fun c hc => ⟨hc.1, hchatters c hc.2⟩

theorem wp_service_sound (h : Sound b) :
    wp (onLocal PubSubClient.loop) (fun _ t => Sound t ∧
      t.mem.valorSensor = b.mem.valorSensor ∧ t.mem.voltajeUV = b.mem.voltajeUV) Grounded b := by
  have hchatters : ∀ c, Serves (localOf b) c → Chatters (localOf b) c := by
    rintro c ⟨⟨events, hran, hevents⟩, -⟩
    exact ⟨events, hran, announcing_of_serving hevents⟩
  apply wp_onLocal_sound h
  refine wp_mono PubSubClient.wp_loop ?_ ?_
  · exact fun _ c hc => ⟨h.safe.serves hc.1 hc.2, hchatters c hc.1⟩
  · exact fun c hc => ⟨(h.safe.serves hc.1 hc.2).guarded, hchatters c hc.1⟩

/-! ## The sensors -/

/-- The voltage is that of a value of the UV sensor. -/
def Uv (g : Globals) : Prop :=
  ∃ v < 100, g.valorSensor = ((300 + v : ℕ) : ℚ) ∧ g.voltajeUV = voltaje g.valorSensor

/-- What holds from the reading of the sensors to the end of the iteration: unless the run is late,
the readings are those of the one sampling of the iteration. -/
structure Sensed (temperatura humedad : Single) (b : Board Globals) : Prop where
  safe : Safe (localOf b)
  grounded : Grounded b
  decoded : Decoded b.mem.dht
  sampled : Timely b.mem.setupAt b.mem.pollings → ∃ instant sampling, instant ≤ b.clock ∧
    SampledOnce instant sampling b.mem.dht ∧
    temperatura = sampling.temperature ∧ humedad = sampling.humidity

theorem wp_readUv (h : Sound b) :
    wp readUv (fun _ t => Sound t ∧ Uv t.mem) Grounded b := by
  rw [readUv, wp_call_bind]
  refine ⟨h.grounded, fun answer => ?_⟩
  rw [wp_modify]
  have hquiet : Quiet (localOf b) ⟨b.clock + answer.elapsed, b.mem.clientLocal⟩ :=
    quiet_millis answer.elapsed
  refine ⟨⟨h.safe.quiet hquiet, ?_, h.decoded, h.polls, h.samplings, h.report, fun htimely => ?_⟩, ?_⟩
  · exact ⟨h.grounded.guarded, h.grounded.announces, h.grounded.genuine, h.grounded.paired⟩
  · exact (h.ready htimely).later (Nat.le_add_right _ _) rfl rfl rfl
  · exact ⟨answer.number % 100, Nat.mod_lt _ (by decide), rfl, rfl⟩

theorem Sound.history_paired (h : Sound b)
    (htimely : Timely b.mem.setupAt (b.mem.history.map Iteration.polls)) :
    ∀ it ∈ b.mem.history, it.Paired := by
  apply And.left
  apply h.grounded.paired
  rw [Globals.pollings, h.polls]
  exact timely_snoc htimely fun first rest hnil => by cases hnil

/-- Reading the sensors changes only their library and the clock. -/
theorem Sound.grounded_dht (h : Sound b) (clock : ℕ) (dht : DHTesp) :
    Grounded ⟨clock, { b.mem with dht }⟩ := by
  refine ⟨h.grounded.guarded, h.grounded.announces, h.grounded.genuine, fun htimely => ⟨?_, ?_⟩⟩
  · exact h.history_paired htimely.init
  · exact fun hreport => absurd h.report hreport

/-- Calls of the sensor library, whatever has become of it before. -/
theorem wp_onDht {α : Type} {m : Sketch DHTesp α} {R : α → Board DHTesp → Prop}
    (hgrounded : ∀ clock dht, Grounded ⟨clock, { b.mem with dht }⟩)
    (hm : wp m R (fun _ => True) (dhtOf b)) :
    wp (onDht m) (fun a t => ∃ c, t = ⟨c.clock, { b.mem with dht := c.mem }⟩ ∧ R a c) Grounded b := by
  refine wp_within (wp_mono hm ?_ ?_)
  · exact fun a c hc => ⟨c, rfl, hc⟩
  · exact fun c _ => hgrounded c.clock c.mem

/-- The sensors are read a second after the start of an iteration, or later. -/
theorem wp_readSensors (h : Sound b) (huv : Uv b.mem) :
    wp readSensors (fun readings t => Sensed readings.1 readings.2.1 t ∧ t.mem.report = none ∧
      Uv t.mem ∧ readings.2.2 ≤ pulseTimeout ∧
      (∀ x, readings.1 = some x → ∃ f : Frame, x = f.temperature11) ∧
      ∀ x, readings.2.1 = some x → ∃ f : Frame, x = f.humidity11) Grounded b := by
  have hgrounded := h.grounded_dht
  rw [readSensors, wp_load_bind, wp_delay_bind]
  refine ⟨h.grounded, fun waited => ?_⟩
  have hperiod : b.mem.dht.getMinimumSamplingPeriod = 1000 := by
    rw [getMinimumSamplingPeriod, if_pos h.decoded.model]
  rw [hperiod]
  refine wp_seq (wp_onDht hgrounded wp_getTemperature) (fun _ ht => ht) ?_
  rintro temperatura - ⟨c₂, rfl, htwice, htemperatura⟩
  obtain ⟨c₁, hfirst, hretry⟩ := htwice.first
  refine wp_seq (wp_onDht hgrounded wp_getHumidity) (fun _ ht => ht) ?_
  rintro humedad - ⟨c₃, rfl, hagain, hhumedad⟩
  have hlater : Calls c₂ c₃ := hagain.calls
  have hcalls : Calls (dhtOf ⟨b.clock + waited + 1000, b.mem⟩) c₃ :=
    (Relation.ReflTransGen.single hfirst).trans (hretry.trans hlater)
  have hdecoded₃ := hcalls.decoded h.decoded
  have hdecoded₂ := (Calls.decoded hretry) (h.decoded.polled hfirst)
  rw [pulseIn, bind_assoc, wp_call_bind]
  refine ⟨hgrounded _ _, fun answer => ?_⟩
  rw [pure_bind, wp_pure]
  have hclock : (localOf b).clock ≤ c₃.clock + answer.elapsed := by
    have hcalls := hcalls.clock
    simp only [dhtOf, localOf] at hcalls ⊢
    omega
  refine ⟨⟨h.safe.quiet (quiet_of_le hclock), hgrounded _ _, hdecoded₃, fun htimely => ?_⟩, h.report, huv,
    Nat.le_of_lt_succ (Nat.mod_lt _ (Nat.succ_pos _)), ?_, ?_⟩
  · have hready := h.ready htimely.init
    obtain ⟨instant, sampling, -, hhigh, hsampled₂, hsampled₃⟩ :=
      sampled_once h.polls h.samplings h.decoded.model hfirst hretry hlater (by
        intro poll rest hlow hpolls
        simp only [Globals.pollings, hpolls] at htimely
        have hlow : b.clock + 1000 ≤ poll.instant := by
          simp only [dhtOf] at hlow
          omega
        exact ⟨hready poll.instant hlow htimely.last.1, htimely.last.2⟩)
    exact ⟨instant, sampling, hhigh.trans (Nat.le_add_right _ _), hsampled₃,
      htemperatura.trans hsampled₂.readings.1, hhumedad.trans hsampled₃.readings.2⟩
  · exact fun x hx => hdecoded₂.temperature x (htemperatura.symm.trans hx)
  · exact fun x hx => hdecoded₃.humidity x (hhumedad.symm.trans hx)

/-! ## Publishing -/

variable {temperatura humedad : Single}

/-- The external client and the clock are of no account. -/
theorem Sensed.client (h : Sensed temperatura humedad b) {clock : ℕ} (hclock : b.clock ≤ clock)
    (client : PubSubClient Unit) :
    Sensed temperatura humedad ⟨clock, { b.mem with client }⟩ := by
  refine ⟨h.safe.quiet (quiet_of_le hclock), ⟨h.grounded.guarded, h.grounded.announces,
    h.grounded.genuine, h.grounded.paired⟩, h.decoded, fun htimely => ?_⟩
  obtain ⟨instant, sampling, hinstant, hsampled⟩ := h.sampled htimely
  exact ⟨instant, sampling, hinstant.trans hclock, hsampled⟩

theorem Sensed.current_paired (h : Sensed temperatura humedad b) {report : Option Report}
    (hreport : ∀ r, report = some r → temperatura = some r.temperatura ∧ humedad = some r.humedad)
    (htimely : Timely b.mem.setupAt b.mem.pollings) :
    Iteration.Paired ⟨b.mem.dht.polls, b.mem.dht.samplings, report⟩ := by
  obtain ⟨instant, sampling, -, hsampled, htemperatura, hhumedad⟩ := h.sampled htimely
  obtain ⟨rest, hpolls, hrest⟩ := hsampled.polls
  refine ⟨⟨instant, rest, hpolls, hrest⟩, fun r hr => ?_⟩
  obtain ⟨ht, hh⟩ := hreport r hr
  rw [htemperatura] at ht
  rw [hhumedad] at hh
  cases sampling with
  | timeout => cases ht
  | checksum => cases ht
  | frame f => exact ⟨f, hsampled.samplings, (Option.some.inj ht).symm, (Option.some.inj hh).symm⟩

/-- The report of the iteration, before anything of it is published. -/
theorem Sensed.report {r : Report} (h : Sensed (some r.temperatura) (some r.humedad) b)
    (hblank : b.mem.report = none) (hgenuine : Genuine r) :
    Sensed (some r.temperatura) (some r.humedad) ⟨b.clock, { b.mem with report := some r }⟩ := by
  have hold : ∀ r', b.mem.Reported r' → ∃ it ∈ b.mem.history, it.report = some r' := by
    rintro r' (hnone | hhistory)
    · rw [hblank] at hnone
      cases hnone
    · exact hhistory
  refine ⟨h.safe, ⟨h.grounded.guarded, ?_, ?_, fun htimely => ⟨?_, fun _ => ?_⟩⟩, h.decoded, h.sampled⟩
  · exact h.grounded.announces.mono rfl fun r' hr' => Or.inr (hold r' hr')
  · rintro r' (hr' | hr')
    · obtain rfl := Option.some.inj hr'
      exact hgenuine
    · exact h.grounded.genuine r' (Or.inr hr')
  · exact (h.grounded.paired htimely).1
  · refine h.current_paired (fun r' hr' => ?_) htimely
    obtain rfl := Option.some.inj hr'
    exact ⟨rfl, rfl⟩

theorem wp_onClient {topic payload : Bytes} (h : Sensed temperatura humedad b) :
    wp (onClient (publish topic payload true)) (fun _ t => Sensed temperatura humedad t ∧
      t.mem.report = b.mem.report) Grounded b := by
  refine wp_within (wp_mono (wp_publishBytes topic _ true) ?_ ?_)
  · rintro ok c ⟨-, hran⟩
    have hclock : b.clock ≤ c.clock := by
      cases ok with
      | false => exact hran.clock
      | true => exact hran.1.clock
    exact ⟨h.client hclock c.mem, rfl⟩
  · exact fun c _ => ⟨h.grounded.guarded, h.grounded.announces, h.grounded.genuine, h.grounded.paired⟩

theorem wp_publishMessages (messages : List (Bytes × List Char))
    (h : Sensed temperatura humedad b) :
    wp (publishMessages messages) (fun _ t => Sensed temperatura humedad t ∧
      t.mem.report = b.mem.report) Grounded b := by
  induction messages generalizing b with
  | nil => exact wp_pure.mpr ⟨h, rfl⟩
  | cons message rest ih =>
      refine wp_seq (wp_onClient h) (fun _ ht => ht) ?_
      rintro - b₁ ⟨hsensed, hreport⟩
      rw [← hreport]
      exact ih hsensed

theorem length_jsonMessage_le (r : Report) : (ascii r.jsonMessage).length ≤ mqttMaxPacketSize := by
  rw [ascii, List.length_map, Report.jsonMessage, printTo_eq_take, List.length_take]
  exact (min_le_left _ _).trans (by decide)

/-- The local client after it has written the buffer of the report. -/
theorem Grounded.wrote {r : Report} (h : Grounded b) (hreport : b.mem.report = some r)
    {c : Board (PubSubClient Unit)}
    (hran : Ran [.wrote (Mqtt.publish true localTopic (ascii r.jsonMessage))] (localOf b) c) :
    Grounded ⟨c.clock, { b.mem with clientLocal := c.mem }⟩ := by
  have hlength := length_jsonMessage_le r
  simp only [mqttMaxPacketSize] at hlength
  refine ⟨?_, h.announces.append hran.log ?_, h.genuine, h.paired⟩
  · rw [hran.log]
    exact h.guarded.snoc fun hrelies => absurd hrelies (not_relies_wrote _)
  · intro packet payload hmem hpublished
    obtain rfl := Event.wrote.inj (List.mem_singleton.mp hmem)
    rw [published_publish (by decide) (by
      have htopic : localTopic.length = 12 := by decide
      omega)] at hpublished
    exact Or.inr ⟨r, Or.inl hreport, (Prod.mk.inj (Option.some.inj hpublished)).2.symm⟩

theorem Grounded.quiet (h : Grounded b) {c : Board (PubSubClient Unit)} (hran : Ran [] (localOf b) c) :
    Grounded ⟨c.clock, { b.mem with clientLocal := c.mem }⟩ := by
  refine ⟨?_, h.announces.append hran.log (fun _ _ hmem => by cases hmem), h.genuine, h.paired⟩
  rw [hran.log, List.append_nil]
  exact h.guarded

theorem wp_publishLocal {r : Report} (h : Sensed temperatura humedad b)
    (hreport : b.mem.report = some r) :
    wp (onLocal (publish localTopic (ascii r.jsonMessage) true))
      (fun _ => Sensed temperatura humedad) Grounded b := by
  have hsampled : ∀ c : Board (PubSubClient Unit), b.clock ≤ c.clock → Safe c →
      Grounded ⟨c.clock, { b.mem with clientLocal := c.mem }⟩ →
        Sensed temperatura humedad ⟨c.clock, { b.mem with clientLocal := c.mem }⟩ := by
    intro c hclock hsafe hgrounded
    refine ⟨hsafe, hgrounded, h.decoded, fun htimely => ?_⟩
    obtain ⟨instant, sampling, hinstant, hsampling⟩ := h.sampled htimely
    exact ⟨instant, sampling, hinstant.trans hclock, hsampling⟩
  refine wp_onLocal (wp_mono (wp_publish (length_jsonMessage_le r)) ?_ ?_)
  · rintro ok c ⟨hfades, hsent⟩
    cases ok with
    | false =>
        exact hsampled c hsent.clock (h.safe.quiet ⟨hsent, hfades⟩) (h.grounded.quiet hsent)
    | true =>
        exact hsampled c hsent.1.clock (h.safe.publish hfades hsent.1)
          (h.grounded.wrote hreport hsent.1)
  · rintro c ⟨-, hran | hran⟩
    · exact h.grounded.quiet hran
    · exact h.grounded.wrote hreport hran

theorem wp_publishReport {r : Report} (h : Sensed (some r.temperatura) (some r.humedad) b)
    (hblank : b.mem.report = none) (hgenuine : Genuine r) :
    wp (publishReport r) (fun _ => Sensed (some r.temperatura) (some r.humedad)) Grounded b := by
  rw [publishReport, wp_modify_bind]
  refine wp_seq (wp_publishMessages _ (h.report hblank hgenuine)) (fun _ ht => ht) ?_
  rintro - b₁ ⟨hsensed, hreport⟩
  refine wp_seq (wp_publishLocal hsensed hreport) (fun _ ht => ht) ?_
  intro _ b₂ hsensed
  rw [wp_delay]
  exact ⟨hsensed.grounded, fun elapsed => hsensed.client (by omega) b₂.mem.client⟩

/-- What the sensors gave is published, or the iteration ends without a report. -/
theorem wp_publishReadings {t : ℕ} (h : Sensed temperatura humedad b) (hblank : b.mem.report = none)
    (huv : Uv b.mem) (ht : t ≤ pulseTimeout)
    (htemperatura : ∀ x, temperatura = some x → ∃ f : Frame, x = f.temperature11)
    (hhumedad : ∀ x, humedad = some x → ∃ f : Frame, x = f.humidity11) :
    wp (publishReadings (temperatura, humedad, t)) (fun _ => Sensed temperatura humedad)
      Grounded b := by
  cases temperatura with
  | none => exact wp_pure.mpr h
  | some x =>
      cases humedad with
      | none => exact wp_pure.mpr h
      | some y =>
          rw [publishReadings, wp_load_bind]
          exact wp_publishReport (r := ⟨x, y, _, _, _⟩) h hblank
            ⟨htemperatura x rfl, hhumedad y rfl, huv, t, ht, rfl⟩

theorem wp_endIteration (h : Sensed temperatura humedad b) :
    wp endIteration (fun _ => Sound) Grounded b := by
  have hpaired : Timely b.mem.setupAt b.mem.pollings →
      ∀ it ∈ b.mem.history ++ [b.mem.current], it.Paired := by
    intro htimely it hit
    obtain ⟨hhistory, hcurrent⟩ := h.grounded.paired htimely
    rcases List.mem_append.mp hit with hold | hnew
    · exact hhistory it hold
    · rw [List.mem_singleton.mp hnew]
      by_cases hreport : b.mem.report = none
      · exact h.current_paired (fun r hr => by rw [hreport] at hr; cases hr) htimely
      · exact hcurrent hreport
  have hmap : (b.mem.history ++ [b.mem.current]).map Iteration.polls = b.mem.pollings :=
    List.map_append
  rw [endIteration, wp_modify]
  refine ⟨h.safe, ⟨h.grounded.guarded, h.grounded.announces.mono rfl ?_, ?_, fun htimely => ⟨?_, ?_⟩⟩,
    ⟨h.decoded.model, h.decoded.temperature, h.decoded.humidity⟩, rfl, rfl, rfl, ?_⟩
  · rintro r (hr | ⟨it, hit, hr⟩)
    · exact Or.inr ⟨b.mem.current, by simp, hr⟩
    · exact Or.inr ⟨it, List.mem_append_left _ hit, hr⟩
  · rintro r (hr | ⟨it, hit, hr⟩)
    · cases hr
    · rcases List.mem_append.mp hit with hold | hnew
      · exact h.grounded.genuine r (Or.inr ⟨it, hold, hr⟩)
      · rw [List.mem_singleton.mp hnew] at hr
        exact h.grounded.genuine r (Or.inl hr)
  · have htimely := htimely.init
    rw [hmap] at htimely
    exact hpaired htimely
  · exact fun hreport => absurd rfl hreport
  · intro htimely instant hlow hhigh
    simp only [hmap] at htimely hhigh
    obtain ⟨last, sampling, hlast, hsampled, -⟩ := h.sampled htimely
    obtain ⟨rest, hpolls, -⟩ := hsampled.polls
    have hhorizon : horizon b.mem.setupAt b.mem.pollings = last + 2 ^ 32 := by
      rw [horizon, Globals.pollings, List.getLast?_concat, hpolls]
      rfl
    rw [hhorizon] at hhigh
    exact tooSoon_of_le h.decoded.model hsampled.lastReadTime (by dsimp only at hlow; omega) hhigh

/-! ## The run -/

/-- One iteration, whatever the surroundings answer. -/
theorem wp_loop (h : Sound b) : wp loop (fun _ => Sound) Grounded b := by
  rw [loop]
  refine wp_seq (wp_readUv h) (fun _ ht => ht) ?_
  rintro - b₁ ⟨hsound, huv⟩
  refine wp_seq (wp_reconnect_sound hsound) (fun _ ht => ht) ?_
  rintro - b₂ ⟨hsound, hvalor, hvoltaje⟩
  refine wp_seq (wp_service_sound hsound) (fun _ ht => ht) ?_
  rintro - b₃ ⟨hsound, hvalor', hvoltaje'⟩
  have huv : Uv b₃.mem := by
    rw [Uv, hvalor', hvalor, hvoltaje', hvoltaje]
    exact huv
  refine wp_seq (wp_readSensors hsound huv) (fun _ ht => ht) ?_
  rintro ⟨temperatura, humedad, t⟩ b₄ ⟨hsensed, hblank, huv, ht, htemperatura, hhumedad⟩
  refine wp_seq (wp_publishReadings hsensed hblank huv ht htemperatura hhumedad) (fun _ ht => ht) ?_
  intro _ b₅ hsensed
  exact wp_endIteration hsensed

/-- The frame of zeros, which the fields of the library begin with. -/
def zeroFrame : Frame := ⟨0, 0, 0, rfl⟩

/-- The sketch after `dht.setup` at the instant `c`, before its first iteration. -/
def begun (buffer bufferLocal : Memory UInt8) (dht : DHTesp) (c : ℕ) : Globals :=
  { Globals.init buffer bufferLocal with dht, setupAt := c }

theorem grounded_begun (buffer bufferLocal : Memory UInt8) (dht : DHTesp) (c clock : ℕ) :
    Grounded ⟨clock, begun buffer bufferLocal dht c⟩ := by
  refine Grounded.mk guarded_nil (fun packet payload hmem => by cases hmem) ?_ fun _ => ⟨?_, ?_⟩
  · rintro r (hr | ⟨it, hit, -⟩)
    · cases hr
    · cases hit
  · exact fun it hit => by cases hit
  · exact fun hreport => absurd rfl hreport

theorem sound_begun (buffer bufferLocal : Memory UInt8) {c clock : ℕ} (hclock : c ≤ clock) :
    Sound ⟨clock, begun buffer bufferLocal (DHTesp.resetAt c {}) c⟩ := by
  have hzero : zeroFrame.temperature11 = 0 ∧ zeroFrame.humidity11 = 0 := by decide +kernel
  refine ⟨⟨guarded_nil, fun hlive => absurd hlive.1 Bool.false_ne_true⟩, grounded_begun _ _ _ _ _,
    ⟨rfl, fun x hx => ⟨zeroFrame, ?_⟩, fun x hx => ⟨zeroFrame, ?_⟩⟩, rfl, rfl, rfl, ?_⟩
  · rw [hzero.1]
    exact (Option.some.inj hx).symm
  · rw [hzero.2]
    exact (Option.some.inj hx).symm
  · intro _ instant hlow hhigh
    change instant < c + (2 ^ 32 - 3000) at hhigh
    dsimp only at hlow
    exact tooSoon_of_reset rfl rfl (by omega) (by omega)

/-- `setup` starts the sensor library and waits for the network. -/
theorem wp_setup (clock : ℕ) (buffer bufferLocal : Memory UInt8) :
    wp setup (fun _ => Sound) Grounded ⟨clock, Globals.init buffer bufferLocal⟩ := by
  rw [setup]
  refine wp_seq (wp_onDht (fun later dht => grounded_begun buffer bufferLocal dht 0 later)
    DHTesp.wp_setup) (fun _ ht => ht) ?_
  rintro - - ⟨c, rfl, hc⟩
  rw [hc, wp_read_bind, wp_modify_bind]
  have hwait : ∀ later, c.clock ≤ later →
      Sound ⟨later, begun buffer bufferLocal (DHTesp.resetAt c.clock {}) c.clock⟩ :=
    fun later h => sound_begun buffer bufferLocal h
  rw [setupWifi, wp_delay_bind]
  refine ⟨(hwait _ le_rfl).grounded, fun elapsed => ?_⟩
  refine wp_mono (wp_await (P := Sound) fun later hlater => hwait later ?_) (fun _ _ ht => ht)
    fun _ ht => ht.grounded
  dsimp only at hlater
  omega

theorem wp_run (clock : ℕ) (buffer bufferLocal : Memory UInt8) (n : ℕ) :
    wp (run n) (fun _ => Sound) Grounded ⟨clock, Globals.init buffer bufferLocal⟩ := by
  rw [run]
  refine wp_seq (wp_setup clock buffer bufferLocal) (fun _ ht => ht) ?_
  intro _ b₁ hsound
  exact wp_iterate Sound hsound (fun _ ht => wp_loop ht) n

/-- A run of the sketch: what power-on finds, how often `loop()` is called, and what the
surroundings answer. -/
structure Run where
  buffer : Memory UInt8
  bufferLocal : Memory UInt8
  clock : ℕ
  iterations : ℕ
  answers : List Answer

/-- The state that a run reaches. -/
def Run.state (r : Run) : Board Globals :=
  ((run r.iterations).run ⟨r.clock, Globals.init r.buffer r.bufferLocal⟩ r.answers).state

/-- Every state of every run is grounded. -/
theorem Run.grounded (r : Run) : Grounded r.state := by
  refine state_of_wp (P := Grounded) (wp_mono (wp_run r.clock r.buffer r.bufferLocal r.iterations)
    ?_ fun _ h => h) r.answers
  exact fun _ _ h => h.grounded

/-- The edges by which the sensor answers with the given bytes. -/
def edgesOf (bytes : List ℕ) : List ℕ :=
  [20, 80, 80] ++ bytes.flatMap fun byte =>
    (List.range 8).flatMap fun i => [50, if byte.testBit (7 - i) then 70 else 26]

/-- The clock wraps around between `dht.setup` and the first reading, and the sampling of the
second iteration times out. -/
def wrapRun : Run where
  buffer _ := 0
  bufferLocal _ := 0
  clock := 2 ^ 32 - 1500
  iterations := 2
  answers := calm 9 ++ [{ bytes := [0x20, 0x02, 0x00, 0x00] }] ++ calm 25 ++
    [{ edges := edgesOf [45, 3, 23, 5, 76] }] ++ calm 40

theorem wrapRun_pollings : wrapRun.state.mem.setupAt = 2 ^ 32 - 1500 ∧
    wrapRun.state.mem.pollings = [[⟨2 ^ 32 + 500, true⟩, ⟨2 ^ 32 + 518, false⟩],
      [⟨2 ^ 32 + 6518, true⟩, ⟨2 ^ 32 + 6536, false⟩, ⟨2 ^ 32 + 6536, false⟩, ⟨2 ^ 32 + 6536, false⟩],
      []] := by
  decide +kernel

theorem wrapRun_timely : Timely wrapRun.state.mem.setupAt wrapRun.state.mem.pollings := by
  rw [wrapRun_pollings.1, wrapRun_pollings.2]
  have hnone : Timely (2 ^ 32 - 1500) [] := fun earlier first rest later heq => by simp at heq
  refine timely_snoc (timely_snoc (timely_snoc hnone ?_) ?_) ?_
  · rintro first rest h
    cases h
    decide +kernel
  · rintro first rest h
    cases h
    decide +kernel
  · rintro first rest h
    cases h

end Sketches.Invernadero
