-- The settings of a service, in sections. Every setting has a usual value.
-- Settings that would stall or spin a subscription are refused.
import LifecycleLog.Event.Producer
import LifecycleLog.Projection
import LifecycleLog.Subscription.Options

namespace LifecycleLog

/-! ## Sections -/

/-- How a service reaches its store: it opens the database file itself, or
asks a store server. -/
inductive StoreAccess
  | embedded
  | remote
  deriving DecidableEq, Repr

structure StoreSettings where
  access : StoreAccess
  /-- The database file. -/
  path : String
  /-- The store server. -/
  address : String
  /-- The time for one request, in milliseconds. -/
  timeoutMs : Nat
  deriving DecidableEq, Repr

/-- Settings of a subscription; times are in milliseconds. -/
structure EventSettings where
  stream : String
  group : String
  /-- Tells deployments of one group apart. -/
  deployment : String
  batchSize : Nat
  blockMs : Nat
  pendingRetryMs : Nat
  /-- 0 for no claims. -/
  claimIdleMs : Nat
  leastBackoffMs : Nat
  mostBackoffMs : Nat
  connectAttempts : Nat
  start : GroupStart
  deriving DecidableEq, Repr

structure Settings where
  store : StoreSettings
  events : EventSettings
  routes : RouteClasses
  logLevel : String
  deriving DecidableEq, Repr

/-! ## Usual values -/

def StoreSettings.usual : StoreSettings where
  access := .embedded
  path := "./thingbus-data/store.redb"
  address := "127.0.0.1:7400"
  timeoutMs := 5000

def EventSettings.usual : EventSettings where
  stream := thingsStream
  group := "thingbus-lora"
  deployment := ""
  batchSize := 100
  blockMs := 1000
  pendingRetryMs := 5000
  claimIdleMs := 60000
  leastBackoffMs := 100
  mostBackoffMs := 10000
  connectAttempts := 5
  start := .beginning

def RouteClasses.usual : RouteClasses where
  thing := ⟨"lora:thing", "/lora/dev_eui"⟩
  channel := ⟨"lora:channel", "/lora/app_id"⟩

def Settings.usual : Settings where
  store := .usual
  events := .usual
  routes := .usual
  logLevel := "info"

/-! ## Checks -/

/-- What is wrong with settings. -/
inductive SettingsProblem
  | noAddress
  | noTimeout
  | noStream
  | noGroup
  | noBatch
  | noBlock
  | noPendingRetry
  | backoffOrder
  | noAttempts
  deriving DecidableEq, Repr

def SettingsProblem.message : SettingsProblem → String
  | .noAddress => "store.address is required for the remote backend"
  | .noTimeout => "store.timeout_ms must be positive"
  | .noStream => "events.stream must not be empty"
  | .noGroup => "events.group must not be empty"
  | .noBatch => "events.batch_size must be positive"
  | .noBlock => "events.block_ms must be positive"
  | .noPendingRetry => "events.pending_retry_ms must be positive"
  | .backoffOrder => "events.min_backoff_ms must not exceed events.max_backoff_ms"
  | .noAttempts => "events.connect_attempts must be positive"

namespace Settings

/-- Whether settings have a problem. -/
def has (s : Settings) : SettingsProblem → Bool
  | .noAddress => s.store.access = .remote && s.store.address.isEmpty
  | .noTimeout => s.store.timeoutMs = 0
  | .noStream => s.events.stream.isEmpty
  | .noGroup => s.events.group.isEmpty
  | .noBatch => s.events.batchSize = 0
  | .noBlock => s.events.blockMs = 0
  | .noPendingRetry => s.events.pendingRetryMs = 0
  | .backoffOrder => s.events.mostBackoffMs < s.events.leastBackoffMs
  | .noAttempts => s.events.connectAttempts = 0

/-- The problems in the order in which they are reported. -/
def problems : List SettingsProblem :=
  [.noAddress, .noTimeout, .noStream, .noGroup, .noBatch, .noBlock, .noPendingRetry,
    .backoffOrder, .noAttempts]

/-- The first problem that settings have. -/
def problem? (s : Settings) : Option SettingsProblem := problems.find? s.has

end Settings

/-! ## Subscriptions -/

namespace EventSettings

/-- The name that a service reads its group under. -/
def consumer (s : EventSettings) : String :=
  if s.deployment.isEmpty then s.group else s.group ++ "-" ++ s.deployment

def claimIdle (s : EventSettings) : Option Span :=
  if s.claimIdleMs = 0 then none else some (Span.ofMillis s.claimIdleMs)

/-- The options of the subscription. -/
def options (s : EventSettings) : Options where
  group := s.group
  consumer := s.consumer
  batchSize := s.batchSize
  block := Span.ofMillis s.blockMs
  pendingRetry := Span.ofMillis s.pendingRetryMs
  claimIdle := s.claimIdle
  backoff := ⟨Span.ofMillis s.leastBackoffMs, Span.ofMillis s.mostBackoffMs⟩
  connectAttempts := s.connectAttempts
  start := s.start

end EventSettings

end LifecycleLog
