import Prometeus.Arduino.Conformance
import Prometeus.Sketches.LedState
import Prometeus.Sketches.Pairing

/-! # The order of packets in the two sketches

Both MQTT sketches keep to the order that a server expects, over whole runs. The greenhouse sketch
never connects its client for the external broker, so nothing is ever written there.
-/

namespace Sketches

open Arduino Script Sketch Mqtt PubSubClient

variable {δ : Type} {b : Board (PubSubClient δ)}

/-! ## Reconnecting -/

section Reconnect

variable {clientId : Sketch (PubSubClient δ) Bytes} {topic payload : Bytes} {pause : ℕ}

theorem wp_attempt_orderly (hid : ∀ b, wp clientId (fun _ => Steady b) (Steady b) b)
    (h : Orderly b) :
    wp (do
      let id ← clientId
      if ← connect id then
        let _ ← publish topic payload
        let _ ← subscribe inTopic
      else
        delay pause) (fun _ => Orderly) (fun b' => Conforms b'.mem.log) b := by
  refine wp_seq (hid b) (fun _ hsteady => (h.steady hsteady).conforms) ?_
  intro id b₁ hsteady
  refine wp_seq (wp_connect_orderly (h.steady hsteady) id) (fun _ h => h) ?_
  intro ok b₂ hconnected
  rw [wp_ite]
  refine ⟨fun _ => ?_, fun _ => ?_⟩
  · refine wp_seq (wp_publish_orderly hconnected _ _ _) (fun _ h => h.conforms) ?_
    intro _ b₃ hpublished
    refine wp_seq (wp_subscribe_orderly hpublished _ _) (fun _ h => h.conforms) ?_
    intro _ b₄ hsubscribed
    exact wp_pure.mpr hsubscribed
  · rw [wp_delay]
    exact ⟨hconnected.conforms, fun elapsed => hconnected.steady (steady_clock _)⟩

theorem wp_reconnectWith_orderly (hid : ∀ b, wp clientId (fun _ => Steady b) (Steady b) b)
    (h : Orderly b) :
    wp (reconnectWith clientId topic payload pause) (fun _ => Orderly)
      (fun b' => Conforms b'.mem.log) b := by
  rw [reconnectWith]
  apply wp_bind
  apply wp_whileDo Orderly h (fun _ h => h.conforms)
  intro b₁ hb₁
  refine wp_seq (wp_connected_orderly hb₁) (fun _ h => h.conforms) ?_
  intro rc b₂ hrc
  rw [wp_pure]
  cases rc with
  | false =>
      rw [Bool.not_false, if_pos rfl]
      exact wp_attempt_orderly hid (Or.inr hrc)
  | true =>
      have hsettled : Settled b₂ := hrc
      rw [Bool.not_true, if_neg Bool.false_ne_true, resume, wp_modify]
      exact Or.inl (hsettled.log rfl rfl hsettled.state)

theorem wp_ensureConnected_orderly (hid : ∀ b, wp clientId (fun _ => Steady b) (Steady b) b)
    (h : Orderly b) :
    wp (ensureConnected (reconnectWith clientId topic payload pause)) (fun _ => Orderly)
      (fun b' => Conforms b'.mem.log) b := by
  rw [ensureConnected]
  refine wp_seq (wp_connected_orderly h) (fun _ h => h.conforms) ?_
  intro rc b₁ hrc
  have hfound : Orderly b₁ := by
    cases rc with
    | false => exact Or.inr hrc
    | true => exact Or.inl hrc
  rw [wp_ite]
  exact ⟨fun _ => wp_reconnectWith_orderly hid hfound, fun _ => wp_pure.mpr hfound⟩

end Reconnect

/-! ## The LED sketch -/

namespace MqttEsp8266

/-- The sketch works with its client by three operations. -/
theorem built_loop {Part : (α : Type) → Sketch (PubSubClient Level) α → Prop}
    (hensure : Part Unit (ensureConnected reconnect)) (hloop : Part Bool PubSubClient.loop)
    (hpublish : ∀ topic payload, Part Bool (publish topic payload)) :
    Built (Apart Globals.client (fun client g => { g with client }) Part) loop := by
  refine .andThen (.part (.part hensure)) fun _ => ?_
  refine .andThen (.part (.part hloop)) fun _ => ?_
  refine .andThen built_millis fun now => .andThen built_load fun g => .ite ?_ (.done ())
  refine .andThen (.part (.modify fun _ => rfl)) fun _ => .andThen built_load fun g => ?_
  exact .andThen (.part (.part (hpublish _ _))) fun _ => .done ()

theorem wp_iterate_loop {I J : Board (PubSubClient Level) → Prop} (hcut : ∀ b, I b → J b)
    (hclock : ∀ (b : Board (PubSubClient Level)) (clock : ℕ), I b → I ⟨clock, b.mem⟩)
    (hensure : Keeping I J Unit (ensureConnected reconnect)) (hloop : Keeping I J Bool PubSubClient.loop)
    (hpublish : ∀ topic payload, Keeping I J Bool (publish topic payload)) {b : Board Globals}
    (hb : I (clientOf b)) (n : ℕ) :
    wp (iterate loop n) (fun _ t => I (clientOf t)) (fun t => J (clientOf t)) b :=
  wp_built_apart ((built_loop hensure hloop hpublish).iterate n) (fun _ _ => rfl) hcut hclock hb

theorem Run.client_conforms (r : Run) : Conforms r.client.log := by
  have hnil : ∀ t : Board Globals, t.mem.client.log = [] → Conforms t.mem.client.log := by
    intro t ht
    rw [ht]
    exact Option.some_ne_none _
  have hid : ∀ c, wp clientId (fun _ => Steady c) (Steady c) c := by
    intro c
    rw [clientId, wp_call_bind]
    exact ⟨Steady.refl c, fun answer => wp_pure.mpr (steady_clock _)⟩
  have hrun : wp (run r.iterations) (fun _ t => Conforms (clientOf t).mem.log)
      (fun t => Conforms (clientOf t).mem.log) ⟨r.clock, Globals.init r.buffer r.led⟩ := by
    rw [run]
    refine wp_seq wp_setup (fun t ht => hnil t (by rw [ht]; rfl)) ?_
    intro _ b₁ hb₁
    -- After `setup` there is a callback, but no connection yet.
    have hstart : Orderly (clientOf b₁) :=
      Or.inr ⟨hnil b₁ (by rw [hb₁]; rfl), by rw [clientOf, hb₁]; rfl⟩
    refine wp_mono (wp_iterate_loop (J := fun c => Conforms c.mem.log) (fun _ h => h.conforms)
      (fun _ clock h => h.steady (steady_clock clock)) ?_ ?_ ?_ hstart r.iterations)
      (fun _ _ h => h.conforms) (fun _ h => h)
    · exact fun c hc => wp_ensureConnected_orderly hid hc
    · exact fun c hc => wp_operation_orderly (.loop : Operation (fun _ => True) _ _) hc
    · exact fun topic payload c hc =>
        wp_operation_orderly (.publish topic payload false : Operation (fun _ => True) _ _) hc
  exact state_of_wp hrun r.answers

end MqttEsp8266

/-! ## The greenhouse sketch -/

namespace Invernadero

section Built

variable {ν : Type} {get : Globals → ν} {put : ν → Globals → Globals}
  {Part : (α : Type) → Sketch ν α → Prop}

theorem built_publishMessages
    (hclient : ∀ topic payload, Apart get put Part Bool (onClient (PubSubClient.publish topic payload true)))
    (messages : List (Bytes × List Char)) : Built (Apart get put Part) (publishMessages messages) := by
  induction messages with
  | nil => exact .done ()
  | cons message rest ih => exact .andThen (.part (hclient _ _)) fun _ => ih

variable (hget : ∀ g g' : Globals, g.client = g'.client → g.clientLocal = g'.clientLocal → get g = get g')
include hget

theorem apart_onDht {α : Type} (m : Sketch DHTesp α) : Apart get put Part α (onDht m) := by
  apply Apart.aside
  exact fun _ _ => hget _ _ rfl rfl

theorem built_setup : Built (Apart get put Part) setup := by
  refine .andThen (.part (apart_onDht hget _)) fun _ => ?_
  refine .andThen (.part .read) fun b => .andThen (.part (.modify fun _ => hget _ _ rfl rfl)) fun _ => ?_
  exact .andThen (.part (.delay 1000)) fun _ => built_await 1000

theorem built_readSensors : Built (Apart get put Part) readSensors := by
  refine .andThen built_load fun g => .andThen (.part (.delay _)) fun _ => ?_
  refine .andThen (.part (apart_onDht hget _)) fun temperatura => ?_
  refine .andThen (.part (apart_onDht hget _)) fun humedad => ?_
  exact .andThen (.andThen (.part .call) fun _ => .done _) fun t => .done _

/-- The sketch works with its two clients by four operations. -/
theorem built_loop (hensure : Apart get put Part Unit (onLocal (ensureConnected reconnectLocal)))
    (hloop : Apart get put Part Bool (onLocal PubSubClient.loop))
    (hlocal : ∀ payload, Apart get put Part Bool (onLocal (PubSubClient.publish localTopic payload true)))
    (hclient : ∀ topic payload,
      Apart get put Part Bool (onClient (PubSubClient.publish topic payload true))) :
    Built (Apart get put Part) loop := by
  have hreport : ∀ r : Report, Built (Apart get put Part) (publishReport r) := by
    intro r
    refine .andThen (.part (.modify fun _ => hget _ _ rfl rfl)) fun _ => ?_
    refine .andThen (built_publishMessages hclient _) fun _ => ?_
    exact .andThen (.part (hlocal _)) fun _ => .part (.delay 5000)
  have hreadings : ∀ readings, Built (Apart get put Part) (publishReadings readings) := by
    -- Only an iteration with both readings publishes.
    rintro ⟨_ | temperatura, _ | humedad, t⟩
    · exact .done ()
    · exact .done ()
    · exact .done ()
    · exact .andThen built_load fun g => hreport _
  have huv : Built (Apart get put Part) readUv :=
    .andThen (.part .call) fun _ => .part (.modify fun _ => hget _ _ rfl rfl)
  refine .andThen huv fun _ => .andThen (.part hensure) fun _ => .andThen (.part hloop) fun _ => ?_
  refine .andThen (built_readSensors hget) fun readings => .andThen (hreadings readings) fun _ => ?_
  exact .part (.modify fun _ => hget _ _ rfl rfl)

end Built

section Keeps

variable {I J : Board (PubSubClient Unit) → Prop} {b : Board Globals}

theorem wp_run_local (hcut : ∀ b, I b → J b)
    (hclock : ∀ (b : Board (PubSubClient Unit)) (clock : ℕ), I b → I ⟨clock, b.mem⟩)
    (hensure : Keeping I J Unit (ensureConnected reconnectLocal))
    (hloop : Keeping I J Bool PubSubClient.loop)
    (hpublish : ∀ payload, Keeping I J Bool (PubSubClient.publish localTopic payload true))
    (hb : I (localOf b)) (n : ℕ) :
    wp (run n) (fun _ t => I (localOf t)) (fun t => J (localOf t)) b := by
  have hget : ∀ g g' : Globals, g.client = g'.client → g.clientLocal = g'.clientLocal →
      g.clientLocal = g'.clientLocal := fun _ _ _ h => h
  have haside : ∀ topic payload, Apart Globals.clientLocal (fun clientLocal g => { g with clientLocal })
      (Keeping I J) Bool (onClient (PubSubClient.publish topic payload true)) := by
    intro topic payload
    apply Apart.aside
    exact fun _ _ => rfl
  have hloop := built_loop hget (.part hensure) (.part hloop) (fun payload => .part (hpublish payload)) haside
  exact wp_built_apart ((built_setup hget).andThen fun _ => hloop.iterate n) (fun _ _ => rfl) hcut hclock hb

/-- The client for the external broker only publishes. -/
theorem wp_run_client (hcut : ∀ b, I b → J b)
    (hclock : ∀ (b : Board (PubSubClient Unit)) (clock : ℕ), I b → I ⟨clock, b.mem⟩)
    (hpublish : ∀ topic payload, Keeping I J Bool (PubSubClient.publish topic payload true))
    (hb : I ⟨b.clock, b.mem.client⟩) (n : ℕ) :
    wp (run n) (fun _ t => I ⟨t.clock, t.mem.client⟩) (fun t => J ⟨t.clock, t.mem.client⟩) b := by
  have hget : ∀ g g' : Globals, g.client = g'.client → g.clientLocal = g'.clientLocal →
      g.client = g'.client := fun _ _ h _ => h
  have haside : ∀ {α : Type} (m : Sketch (PubSubClient Unit) α),
      Apart Globals.client (fun client g => { g with client }) (Keeping I J) α (onLocal m) := by
    intro α m
    apply Apart.aside
    exact fun _ _ => rfl
  have hloop := built_loop hget (haside _) (haside _) (fun _ => haside _)
    fun topic payload => .part (hpublish topic payload)
  exact wp_built_apart ((built_setup hget).andThen fun _ => hloop.iterate n) (fun _ _ => rfl) hcut hclock hb

end Keeps

/-- A client that has never been connected. -/
structure Silent (c : PubSubClient Unit) : Prop where
  log : c.log = []
  down : c.link.up = false

theorem wp_publish_silent {c : Board (PubSubClient Unit)} (h : Silent c.mem) (topic payload : Bytes)
    (retained : Bool) :
    wp (PubSubClient.publish topic payload retained) (fun _ c' => Silent c'.mem)
      (fun c' => Silent c'.mem) c := by
  have hconnected : wp connected (fun ok c' => ok = false ∧ Silent c'.mem)
      (fun c' => Silent c'.mem) c := by
    rw [connected, wp_linkConnected_bind]
    refine ⟨h, fun answer => ?_⟩
    have hdown : (c.mem.link.after answer).up = false := by
      rw [after_up, h.down, Bool.false_and]
    rw [wp_load_bind, hdown, if_neg Bool.false_ne_true, wp_ite]
    refine ⟨fun _ => ?_, fun _ => wp_pure.mpr ⟨rfl, h.log, hdown⟩⟩
    rw [setState, stop, wp_modify_bind, wp_modify_bind, wp_pure]
    exact ⟨rfl, h.log, rfl⟩
  rw [PubSubClient.publish, publishBytes]
  refine wp_seq hconnected (fun _ h => h) ?_
  rintro _ c₁ ⟨rfl, hsilent⟩
  exact wp_pure.mpr hsilent

theorem Run.local_conforms (r : Run) : Conforms r.state.mem.clientLocal.log := by
  have hid : ∀ c : Board (PubSubClient Unit),
      wp (pure (cstr "ESP8266Client-Invernadero") : Sketch (PubSubClient Unit) Bytes)
        (fun _ => Steady c) (Steady c) c :=
    fun c => wp_pure.mpr (Steady.refl c)
  have hstart : Orderly (localOf ⟨r.clock, Globals.init r.buffer r.bufferLocal⟩) :=
    Or.inr ⟨Option.some_ne_none _, rfl⟩
  have hrun := wp_run_local (J := fun c => Conforms c.mem.log) (fun _ h => h.conforms)
    (fun _ clock h => h.steady (steady_clock clock)) (fun c hc => wp_ensureConnected_orderly hid hc)
    (fun c hc => wp_operation_orderly (.loop : Operation (fun _ => True) _ _) hc)
    (fun payload c hc =>
      wp_operation_orderly (.publish localTopic payload true : Operation (fun _ => True) _ _) hc)
    hstart r.iterations
  exact state_of_wp (wp_mono hrun (fun _ _ h => h.conforms) fun _ h => h) r.answers

/-- Nothing is ever written on the connection to the external broker. -/
theorem Run.external_silent (r : Run) : r.state.mem.client.log = [] := by
  have hrun := wp_run_client (b := ⟨r.clock, Globals.init r.buffer r.bufferLocal⟩)
    (I := fun c => Silent c.mem) (fun _ h => h) (fun _ _ h => h)
    (fun topic payload _ h => wp_publish_silent h topic payload true) ⟨rfl, rfl⟩ r.iterations
  exact (state_of_wp hrun r.answers).log

end Invernadero

end Sketches
