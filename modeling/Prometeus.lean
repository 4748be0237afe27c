import Prometeus.Foundation.Rounding
import Prometeus.Foundation.Script
import Prometeus.Foundation.Built
import Prometeus.Foundation.Promise
import Prometeus.Foundation.Memory
import Prometeus.Foundation.Mqtt
import Prometeus.Foundation.MqttConnect
import Prometeus.Foundation.MqttMessage
import Prometeus.Arduino.Board
import Prometeus.Arduino.PubSubClient
import Prometeus.Arduino.PubSubClientLaws
import Prometeus.Foundation.Decimal
import Prometeus.Arduino.DHTesp
import Prometeus.Arduino.DHTespLaws
import Prometeus.Arduino.SamplingRate
import Prometeus.Foundation.Json
import Prometeus.Foundation.JsonText
import Prometeus.Arduino.ArduinoJson
import Prometeus.Arduino.ArduinoJsonLaws
import Prometeus.Arduino.FloatParts
import Prometeus.Foundation.Bits
import Prometeus.Arduino.DhtWire
import Prometeus.Foundation.Machine
import Prometeus.Arduino.Usage
import Prometeus.Arduino.Framing
import Prometeus.Arduino.Delivery
import Prometeus.Arduino.Conformance
import Prometeus.Arduino.Connect
import Prometeus.Arduino.KeepAlive
import Prometeus.Arduino.Bounds
import Prometeus.Sketches.Reconnect
import Prometeus.Sketches.MqttEsp8266
import Prometeus.Sketches.LedState
import Prometeus.Sketches.Invernadero
import Prometeus.Sketches.Pairing
import Prometeus.Sketches.Payloads
import Prometeus.Sketches.PacketOrder
import Prometeus.Sketches.Bounds
import Prometeus.Sketches.SketchMay24a
import Prometeus.Sketches.Sessions
import Prometeus.Sketches.Throttle
import Prometeus.Sketches.Uploads
import Prometeus.Foundation.EcmaScript
import Prometeus.Foundation.Feed
import Prometeus.Web.Dashboard
import Prometeus.Web.Readings
import Prometeus.Web.Router
import Prometeus.Foundation.Properties
import Prometeus.Web.Saludador
import Prometeus.Web.Greetings
