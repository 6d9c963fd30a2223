-- Publishing: one append to a stream. Producers never wait for consumers.
import LifecycleLog.Event.Connection
import LifecycleLog.Event.Error

namespace LifecycleLog

/-- Every stream call may fail. -/
abbrev StreamReply (c : StreamCall) : Type := Except StoreError c.Answer

abbrev StreamProgram (α : Type) : Type := Program StreamCall StreamReply α

/-- The stream of lifecycle events. -/
def thingsStream : String := "thingbus.things"

/-- The stream of connections. -/
def connectionsStream : String := "thingbus.mqtt"

/-- Appends a record and answers its id. -/
def publish (stream : String) (record : Fields) : StreamProgram (Except EventError Nat) :=
  .ask (.append stream record) fun reply =>
    match (reply : Except StoreError Nat) with
    | .ok id => .done (.ok id)
    | .error source => .done (.error (.append stream source))

/-- Appends a record; a failure only loses it. -/
def publishBestEffort (stream : String) (record : Fields) : StreamProgram (Option Nat) :=
  (publish stream record).bind fun result => .done result.toOption

/-- Publishes a lifecycle event. -/
def notify (stream : String) (event : Event) : StreamProgram (Except EventError Nat) :=
  publish stream event.encode

/-- Records a connection. -/
def recordConnection (connection : Connection) : StreamProgram (Option Nat) :=
  publishBestEffort connectionsStream connection.encode

end LifecycleLog
