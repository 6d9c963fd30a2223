-- Settings out of a file. What the file leaves out keeps its usual value,
-- except in a class of routes, which is given whole or not at all. Keys that
-- mean nothing here are passed over.
import LifecycleLog.Settings
import LifecycleLog.Text.Utf8
import LifecycleLog.Toml.Read

namespace LifecycleLog

namespace Toml

/-! ## Values of settings -/

def asText : Toml → Option String
  | .string s => some s
  | _ => none

/-- An integer from 0 up to a bound. -/
def asCount (greatest : Nat) : Toml → Option Nat
  | .integer n => if 0 ≤ n && n.toNat ≤ greatest then some n.toNat else none
  | _ => none

/-- A table or an array with nothing in it. -/
def isEmptyGroup : Toml → Bool
  | .array items => items.isEmpty
  | .table _ ms => ms.isEmpty
  | _ => false

/-- One of several words, each with its meaning. A word is a text, or the only
key of a table, with nothing in it. -/
def asWord {α : Type} (words : List (String × α)) : Toml → Option α
  | .string s => words.lookup s
  | .table _ [(word, v)] => if isEmptyGroup v then words.lookup word else none
  | _ => none

/-- The members of a section. A section that is written as an array gives its
values in the order of `names`; a date gives none. -/
def asSection (names : List String) : Toml → Option Members
  | .table _ ms => some ms
  | .array items => some (names.zip items)
  | .tables elements => some (names.zip (elements.reverse.map (.table .header)))
  | .dateTime _ => some []
  | _ => none

/-- The value of a key; `usual` if the section leaves it out. -/
def setting {α : Type} (ms : Members) (key : String) (as : Toml → Option α) (usual : α) :
    Option α :=
  match find key ms with
  | none => some usual
  | some v => as v

end Toml

/-! ## Sections -/

def greatest64 : Nat := UInt64.size - 1

def greatest32 : Nat := UInt32.size - 1

def StoreAccess.words : List (String × StoreAccess) :=
  [("embedded", .embedded), ("remote", .remote)]

def GroupStart.words : List (String × GroupStart) :=
  [("beginning", .beginning), ("latest", .latest)]

open Toml

def StoreSettings.ofToml (v : Toml) : Option StoreSettings := do
  let usual := StoreSettings.usual
  let ms ← asSection ["backend", "path", "address", "timeout_ms"] v
  let access ← setting ms "backend" (asWord StoreAccess.words) usual.access
  let path ← setting ms "path" asText usual.path
  let address ← setting ms "address" asText usual.address
  let timeoutMs ← setting ms "timeout_ms" (asCount greatest64) usual.timeoutMs
  pure ⟨access, path, address, timeoutMs⟩

def EventSettings.ofToml (v : Toml) : Option EventSettings := do
  let usual := EventSettings.usual
  let ms ← asSection ["stream", "group", "instance", "batch_size", "block_ms", "pending_retry_ms",
    "claim_idle_ms", "min_backoff_ms", "max_backoff_ms", "connect_attempts", "group_start"] v
  let stream ← setting ms "stream" asText usual.stream
  let group ← setting ms "group" asText usual.group
  let deployment ← setting ms "instance" asText usual.deployment
  let batchSize ← setting ms "batch_size" (asCount greatest64) usual.batchSize
  let blockMs ← setting ms "block_ms" (asCount greatest64) usual.blockMs
  let pendingRetryMs ← setting ms "pending_retry_ms" (asCount greatest64) usual.pendingRetryMs
  let claimIdleMs ← setting ms "claim_idle_ms" (asCount greatest64) usual.claimIdleMs
  let leastBackoffMs ← setting ms "min_backoff_ms" (asCount greatest64) usual.leastBackoffMs
  let mostBackoffMs ← setting ms "max_backoff_ms" (asCount greatest64) usual.mostBackoffMs
  let connectAttempts ← setting ms "connect_attempts" (asCount greatest32) usual.connectAttempts
  let start ← setting ms "group_start" (asWord GroupStart.words) usual.start
  pure ⟨stream, group, deployment, batchSize, blockMs, pendingRetryMs, claimIdleMs,
    leastBackoffMs, mostBackoffMs, connectAttempts, start⟩

/-- A class of routes has no usual values of its own. -/
def RouteClass.ofToml (v : Toml) : Option RouteClass := do
  let ms ← asSection ["prefix", "metadata_pointer"] v
  let space ← (find "prefix" ms).bind asText
  let pointer ← (find "metadata_pointer" ms).bind asText
  pure ⟨space, pointer⟩

def RouteClasses.ofToml (v : Toml) : Option RouteClasses := do
  let usual := RouteClasses.usual
  let ms ← asSection ["thing", "channel"] v
  let thing ← setting ms "thing" RouteClass.ofToml usual.thing
  let channel ← setting ms "channel" RouteClass.ofToml usual.channel
  pure ⟨thing, channel⟩

def logLevelOfToml (v : Toml) : Option String := do
  let ms ← asSection ["level"] v
  setting ms "level" asText Settings.usual.logLevel

/-- The settings that a document gives. -/
def Settings.ofToml (doc : Members) : Option Settings := do
  let usual := Settings.usual
  let store ← setting doc "store" StoreSettings.ofToml usual.store
  let events ← setting doc "events" EventSettings.ofToml usual.events
  let routes ← setting doc "route_map" RouteClasses.ofToml usual.routes
  let logLevel ← setting doc "logging" logLevelOfToml usual.logLevel
  pure ⟨store, events, routes, logLevel⟩

/-! ## Files -/

/-- What is found at the path of a settings file. -/
inductive SettingsFile
  | absent
  | directory
  | bytes (content : List UInt8)
  deriving DecidableEq, Repr

inductive SettingsError
  | isDirectory
  | notText
  /-- No TOML document, or one whose values are not those of settings. -/
  | malformed
  | invalid (problem : SettingsProblem)
  deriving DecidableEq, Repr

/-- The wording of an error; that of a malformed document is left open. -/
def SettingsError.message? : SettingsError → Option String
  | .isDirectory => some "io error: Is a directory (os error 21)"
  | .notText => some "io error: stream did not contain valid UTF-8"
  | .malformed => none
  | .invalid problem => some s!"configuration error: {problem.message}"

namespace Settings

/-- The settings of a text. -/
def ofText (text : String) : Except SettingsError Settings :=
  match (Toml.read text).bind ofToml with
  | none => .error .malformed
  | some s =>
    match s.problem? with
    | none => .ok s
    | some problem => .error (.invalid problem)

/-- The settings of a file; without a file all are as usual. -/
def load : SettingsFile → Except SettingsError Settings
  | .absent => .ok usual
  | .directory => .error .isDirectory
  | .bytes content =>
    match Utf8.decode content with
    | .error _ => .error .notText
    | .ok text => ofText text

end Settings

end LifecycleLog
