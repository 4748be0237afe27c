import Prometeus.Sketches.LedState
import Prometeus.Sketches.Pairing

/-! # Sessions of the two sketches

The LED sketch and the greenhouse sketch share the reconnecting loop, and with it the guarantee that
they never rely on a session that has lost its subscription.
-/

namespace Sketches

open Arduino PubSubClient

theorem MqttEsp8266.Run.guarded (r : MqttEsp8266.Run) : Guarded r.client.log := by
  rcases MqttEsp8266.run_halfway r.buffer r.led r.clock r.iterations r.answers with
    hinit | ⟨later, hguarded, -⟩
  · have hclient : r.client = (MqttEsp8266.Globals.init r.buffer r.led).client := by
      rw [MqttEsp8266.Run.client, hinit]
    rw [hclient]
    exact guarded_nil
  · exact hguarded

/-- Wherever links drop, writes fall short or connecting fails: when `loop()` services a packet, and
when reconnecting returns, a SUBSCRIBE for `inTopic` has been written since the session began. -/
theorem relies_on_subscribed_sessions :
    (∀ (r : MqttEsp8266.Run) before event after, r.client.log = before ++ event :: after →
      Relies event → inTopic ∈ sessionOf before) ∧
    ∀ (r : Invernadero.Run) before event after,
      r.state.mem.clientLocal.log = before ++ event :: after →
        Relies event → inTopic ∈ sessionOf before :=
  ⟨fun r => r.guarded, fun r => r.grounded.guarded⟩

/-- The first packet that the LED sketch services, and the first return to the greenhouse sketch's
loop, each in a run. -/
theorem first_sessions_subscribed :
    inTopic ∈ sessionOf (MqttEsp8266.staleRun.client.log.take 5) ∧
      inTopic ∈ sessionOf (Invernadero.wrapRun.state.mem.clientLocal.log.take 4) :=
  ⟨relies_on_subscribed_sessions.1 MqttEsp8266.staleRun _
      (.serviced (Mqtt.publish false inTopic [0x31]))
      (MqttEsp8266.staleRun.client.log.drop 6) (by decide +kernel) trivial,
    relies_on_subscribed_sessions.2 Invernadero.wrapRun _ .resumed
      (Invernadero.wrapRun.state.mem.clientLocal.log.drop 5) (by decide +kernel) trivial⟩

end Sketches
