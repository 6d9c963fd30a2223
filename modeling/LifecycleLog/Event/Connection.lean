-- Connections of clients to an MQTT adapter, kept on a stream of their own
-- for whoever audits them.
import LifecycleLog.Calendar
import LifecycleLog.Store.Call

namespace LifecycleLog

inductive ConnectionKind
  | connect
  | disconnect
  deriving DecidableEq, Repr

namespace ConnectionKind

def text : ConnectionKind → String
  | .connect => "connect"
  | .disconnect => "disconnect"

def operation : ConnectionKind → String
  | .connect => "mqtt.connect"
  | .disconnect => "mqtt.disconnect"

end ConnectionKind

/-- A client of the adapter `adapter` came or went. -/
structure Connection where
  thingId : String
  moment : Moment
  kind : ConnectionKind
  adapter : String
  deriving DecidableEq, Repr

def Connection.encode (c : Connection) : Fields :=
  Table.ofList [("thing_id", c.thingId), ("timestamp", c.moment.text),
    ("event_type", c.kind.text), ("instance", c.adapter)]

end LifecycleLog
