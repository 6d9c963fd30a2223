-- A file may give any of the settings; those that it leaves out keep their
-- usual values. Only a class of routes is not to be given in part.
import LifecycleLog.Proofs.Text.Utf8
import LifecycleLog.Settings.Load

namespace LifecycleLog

open Toml

/-! ## Forms of values -/

/-- How values of a type are written, which of them can be, and how they are read back. -/
structure Form (α : Type) where
  write : α → Toml
  Fits : α → Prop
  read : Toml → Option α
  read_write : ∀ v, Fits v → read (write v) = some v

namespace Form

def text : Form String where
  write := .string
  Fits _ := True
  read := asText
  read_write _ _ := rfl

theorem asCount_integer {greatest n : Nat} (h : n ≤ greatest) :
    asCount greatest (.integer n) = some n := by
  simp [asCount, h]

def count (greatest : Nat) : Form Nat where
  write n := .integer n
  Fits n := n ≤ greatest
  read := asCount greatest
  read_write _ h := asCount_integer h

def access : Form StoreAccess where
  write
    | .embedded => .string "embedded"
    | .remote => .string "remote"
  Fits _ := True
  read := asWord StoreAccess.words
  read_write a _ := by cases a <;> rfl

def start : Form GroupStart where
  write
    | .beginning => .string "beginning"
    | .latest => .string "latest"
  Fits _ := True
  read := asWord GroupStart.words
  read_write a _ := by cases a <;> rfl

end Form

/-! ## Keys -/

/-- The settings, each with the type of its value. -/
inductive SettingKey : Type → Type
  | backend : SettingKey StoreAccess
  | path : SettingKey String
  | address : SettingKey String
  | timeout : SettingKey Nat
  | stream : SettingKey String
  | group : SettingKey String
  | deployment : SettingKey String
  | batchSize : SettingKey Nat
  | block : SettingKey Nat
  | pendingRetry : SettingKey Nat
  | claimIdle : SettingKey Nat
  | leastBackoff : SettingKey Nat
  | mostBackoff : SettingKey Nat
  | connectAttempts : SettingKey Nat
  | start : SettingKey GroupStart
  | space (kind : EntityKind) : SettingKey String
  | pointer (kind : EntityKind) : SettingKey String
  | logLevel : SettingKey String

/-- Where a file gives a setting: the tables on the way, the key in the last
one, and the form of the value. -/
structure Place (α : Type) where
  table : List String
  key : String
  form : Form α

def classKey : EntityKind → String
  | .thing => "thing"
  | .channel => "channel"

def SettingKey.place : {α : Type} → SettingKey α → Place α
  | _, .backend => ⟨["store"], "backend", .access⟩
  | _, .path => ⟨["store"], "path", .text⟩
  | _, .address => ⟨["store"], "address", .text⟩
  | _, .timeout => ⟨["store"], "timeout_ms", .count greatest64⟩
  | _, .stream => ⟨["events"], "stream", .text⟩
  | _, .group => ⟨["events"], "group", .text⟩
  | _, .deployment => ⟨["events"], "instance", .text⟩
  | _, .batchSize => ⟨["events"], "batch_size", .count greatest64⟩
  | _, .block => ⟨["events"], "block_ms", .count greatest64⟩
  | _, .pendingRetry => ⟨["events"], "pending_retry_ms", .count greatest64⟩
  | _, .claimIdle => ⟨["events"], "claim_idle_ms", .count greatest64⟩
  | _, .leastBackoff => ⟨["events"], "min_backoff_ms", .count greatest64⟩
  | _, .mostBackoff => ⟨["events"], "max_backoff_ms", .count greatest64⟩
  | _, .connectAttempts => ⟨["events"], "connect_attempts", .count greatest32⟩
  | _, .start => ⟨["events"], "group_start", .start⟩
  | _, .space kind => ⟨["route_map", classKey kind], "prefix", .text⟩
  | _, .pointer kind => ⟨["route_map", classKey kind], "metadata_pointer", .text⟩
  | _, .logLevel => ⟨["logging"], "level", .text⟩

/-! ## Choices -/

/-- Values for some of the settings. -/
structure Choice where
  value? : {α : Type} → SettingKey α → Option α

namespace Choice

variable (c : Choice)

/-- The chosen value of a setting, or else its usual one. -/
def pick {α : Type} (k : SettingKey α) (usual : α) : α := (c.value? k).getD usual

def store : StoreSettings where
  access := c.pick .backend StoreSettings.usual.access
  path := c.pick .path StoreSettings.usual.path
  address := c.pick .address StoreSettings.usual.address
  timeoutMs := c.pick .timeout StoreSettings.usual.timeoutMs

def events : EventSettings where
  stream := c.pick .stream EventSettings.usual.stream
  group := c.pick .group EventSettings.usual.group
  deployment := c.pick .deployment EventSettings.usual.deployment
  batchSize := c.pick .batchSize EventSettings.usual.batchSize
  blockMs := c.pick .block EventSettings.usual.blockMs
  pendingRetryMs := c.pick .pendingRetry EventSettings.usual.pendingRetryMs
  claimIdleMs := c.pick .claimIdle EventSettings.usual.claimIdleMs
  leastBackoffMs := c.pick .leastBackoff EventSettings.usual.leastBackoffMs
  mostBackoffMs := c.pick .mostBackoff EventSettings.usual.mostBackoffMs
  connectAttempts := c.pick .connectAttempts EventSettings.usual.connectAttempts
  start := c.pick .start EventSettings.usual.start

def routeClass (kind : EntityKind) : RouteClass where
  space := c.pick (.space kind) (RouteClasses.usual.ofKind kind).space
  pointer := c.pick (.pointer kind) (RouteClasses.usual.ofKind kind).pointer

def routes : RouteClasses where
  thing := c.routeClass .thing
  channel := c.routeClass .channel

/-- The usual settings, with the chosen values in place of theirs. -/
def settings : Settings where
  store := c.store
  events := c.events
  routes := c.routes
  logLevel := c.pick .logLevel Settings.usual.logLevel

end Choice

/-! ## Documents -/

/-- The members of the table at a path; none where no table is. -/
def membersAt : List String → Members → Members
  | [], ms => ms
  | step :: path, ms =>
    match find step ms with
    | some (.table _ inner) => membersAt path inner
    | _ => []

/-- The sections, each by the tables on the way to it and its key. -/
def sections : List (List String × String) :=
  [([], "store"), ([], "events"), ([], "route_map"), (["route_map"], "thing"),
    (["route_map"], "channel"), ([], "logging")]

def isTable : Toml → Bool
  | .table _ _ => true
  | _ => false

/-- A document gives the chosen settings, each in a form that fits it, and gives no
others. Its sections are tables. What else it holds does not matter. -/
structure Assigns (doc : Members) (c : Choice) : Prop where
  tables : ∀ s ∈ sections, (find s.2 (membersAt s.1 doc)).all isTable = true
  values : ∀ {α : Type} (k : SettingKey α),
    find k.place.key (membersAt k.place.table doc) = (c.value? k).map k.place.form.write
  fits : ∀ {α : Type} (k : SettingKey α) (v : α), c.value? k = some v → k.place.form.Fits v

/-- Whether a document leaves a class of routes out or gives both of its settings. -/
def isWhole (doc : Members) (c : Choice) (kind : EntityKind) : Bool :=
  (find (classKey kind) (membersAt ["route_map"] doc)).isNone ||
    (c.value? (.space kind)).isSome && (c.value? (.pointer kind)).isSome

variable {doc : Members} {c : Choice} {path : List String} {key : String} {origin : Origin}

theorem membersAt_nil (path : List String) : membersAt path [] = [] := by
  cases path with
  | nil => rfl
  | cons step path => rfl

theorem membersAt_append (path path' : List String) (ms : Members) :
    membersAt (path ++ path') ms = membersAt path' (membersAt path ms) := by
  induction path generalizing ms with
  | nil => rfl
  | cons step path ih =>
    simp only [List.cons_append, membersAt]
    split
    · exact ih _
    · exact (membersAt_nil path').symm

/-! ## Sections -/

namespace Assigns

/-- A section is left out, or it is the table of its members. -/
theorem absent_or_table (h : Assigns doc c) (hs : (path, key) ∈ sections) :
    (find key (membersAt path doc) = none ∧ membersAt (path ++ [key]) doc = []) ∨
      ∃ origin, find key (membersAt path doc)
        = some (.table origin (membersAt (path ++ [key]) doc)) := by
  rw [membersAt_append, membersAt]
  cases hf : find key (membersAt path doc) with
  | none => exact Or.inl ⟨rfl, rfl⟩
  | some v =>
    have hv := h.tables _ hs
    rw [hf] at hv
    cases v with
    | table origin ms => exact Or.inr ⟨origin, rfl⟩
    | _ => cases hv

/-- Where an empty section reads as the usual values, one that is left out reads
as an empty one. -/
theorem setting_table (h : Assigns doc c) (path : List String) (key : String)
    (hs : (path, key) ∈ sections) {β : Type} {read : Toml → Option β} {usual : β}
    (hempty : read (.table .header []) = some usual) {x : Option β}
    (hx : ∀ origin, read (.table origin (membersAt (path ++ [key]) doc)) = x) :
    setting (membersAt path doc) key read usual = x := by
  unfold setting
  rcases h.absent_or_table hs with ⟨hf, hms⟩ | ⟨origin, hf⟩
  · have hread := hx .header
    rw [hms, hempty] at hread
    rw [hf]
    exact hread
  · rw [hf]
    exact hx origin

theorem setting_key (h : Assigns doc c) {α : Type} (k : SettingKey α) (usual : α) :
    setting (membersAt k.place.table doc) k.place.key k.place.form.read usual
      = some (c.pick k usual) := by
  unfold setting Choice.pick
  rw [h.values k]
  cases hv : c.value? k with
  | none => rfl
  | some v => exact k.place.form.read_write v (h.fits k v hv)

/-- One step of reading a section. -/
theorem bind_key (h : Assigns doc c) {α β : Type} (k : SettingKey α) (usual : α)
    (rest : α → Option β) :
    (setting (membersAt k.place.table doc) k.place.key k.place.form.read usual).bind rest
      = rest (c.pick k usual) := by
  rw [h.setting_key k usual, Option.bind_some]

theorem store_read (h : Assigns doc c) :
    StoreSettings.ofToml (.table origin (membersAt ["store"] doc)) = some c.store := by
  unfold StoreSettings.ofToml
  refine (h.bind_key .backend _ _).trans ?_
  refine (h.bind_key .path _ _).trans ?_
  refine (h.bind_key .address _ _).trans ?_
  exact h.bind_key .timeout _ _

theorem events_read (h : Assigns doc c) :
    EventSettings.ofToml (.table origin (membersAt ["events"] doc)) = some c.events := by
  unfold EventSettings.ofToml
  refine (h.bind_key .stream _ _).trans ?_
  refine (h.bind_key .group _ _).trans ?_
  refine (h.bind_key .deployment _ _).trans ?_
  refine (h.bind_key .batchSize _ _).trans ?_
  refine (h.bind_key .block _ _).trans ?_
  refine (h.bind_key .pendingRetry _ _).trans ?_
  refine (h.bind_key .claimIdle _ _).trans ?_
  refine (h.bind_key .leastBackoff _ _).trans ?_
  refine (h.bind_key .mostBackoff _ _).trans ?_
  refine (h.bind_key .connectAttempts _ _).trans ?_
  exact h.bind_key .start _ _

theorem logLevel_read (h : Assigns doc c) :
    logLevelOfToml (.table origin (membersAt ["logging"] doc))
      = some (c.pick .logLevel Settings.usual.logLevel) := by
  unfold logLevelOfToml
  exact h.setting_key .logLevel _

/-! ## Classes of routes -/

/-- The table of a class reads only if both settings are given. -/
theorem routeClass_of_table (h : Assigns doc c) (origin : Origin) (kind : EntityKind) :
    RouteClass.ofToml (.table origin (membersAt ["route_map", classKey kind] doc))
      = if (c.value? (.space kind)).isSome && (c.value? (.pointer kind)).isSome
        then some (c.routeClass kind) else none := by
  have hspace : find "prefix" (membersAt ["route_map", classKey kind] doc)
      = (c.value? (.space kind)).map .string := h.values (.space kind)
  have hpointer : find "metadata_pointer" (membersAt ["route_map", classKey kind] doc)
      = (c.value? (.pointer kind)).map .string := h.values (.pointer kind)
  simp only [RouteClass.ofToml, asSection, Option.bind_eq_bind, Option.bind_some, hspace, hpointer,
    Choice.routeClass, Choice.pick]
  cases c.value? (.space kind) with
  | none => rfl
  | some space =>
    cases c.value? (.pointer kind) with
    | none => rfl
    | some pointer => rfl

theorem mem_sections_class (kind : EntityKind) : (["route_map"], classKey kind) ∈ sections := by
  cases kind <;> decide

/-- Without its table a setting keeps its usual value. -/
theorem pick_of_no_table (h : Assigns doc c) {α : Type} {k : SettingKey α} {usual : α}
    (hms : membersAt k.place.table doc = []) : c.pick k usual = usual := by
  have hread := h.setting_key k usual
  rw [hms] at hread
  exact (Option.some.inj hread).symm

-- An empty class reads as nothing, so `setting_table` is of no use here: a class
-- that is left out and one with no settings come apart.
theorem routeClass_read (h : Assigns doc c) (kind : EntityKind) :
    setting (membersAt ["route_map"] doc) (classKey kind) RouteClass.ofToml
        (RouteClasses.usual.ofKind kind)
      = if isWhole doc c kind then some (c.routeClass kind) else none := by
  unfold setting isWhole
  rcases h.absent_or_table (mem_sections_class kind) with ⟨hf, hms⟩ | ⟨origin, hf⟩
  · unfold Choice.routeClass
    rw [hf, h.pick_of_no_table (k := .space kind) hms, h.pick_of_no_table (k := .pointer kind) hms]
    rfl
  · rw [hf]
    exact h.routeClass_of_table origin kind

theorem routes_read (h : Assigns doc c) :
    RouteClasses.ofToml (.table origin (membersAt ["route_map"] doc))
      = if isWhole doc c .thing && isWhole doc c .channel then some c.routes else none := by
  have hthing := h.routeClass_read .thing
  have hchannel := h.routeClass_read .channel
  simp only [classKey, RouteClasses.ofKind] at hthing hchannel
  simp only [RouteClasses.ofToml, asSection, Option.bind_eq_bind, Option.bind_some, hthing,
    hchannel]
  cases isWhole doc c .thing with
  | false => rfl
  | true =>
    cases isWhole doc c .channel with
    | false => rfl
    | true => rfl

/-! ## The settings of a document -/

theorem settings_read (h : Assigns doc c) :
    Settings.ofToml doc
      = if isWhole doc c .thing && isWhole doc c .channel then some c.settings else none := by
  have hstore : setting doc "store" StoreSettings.ofToml Settings.usual.store = some c.store :=
    h.setting_table [] "store" (by decide) (by rfl) (fun _ => h.store_read)
  have hevents : setting doc "events" EventSettings.ofToml Settings.usual.events = some c.events :=
    h.setting_table [] "events" (by decide) (by rfl) (fun _ => h.events_read)
  have hroutes : setting doc "route_map" RouteClasses.ofToml Settings.usual.routes
      = if isWhole doc c .thing && isWhole doc c .channel then some c.routes else none :=
    h.setting_table [] "route_map" (by decide) (by rfl) (fun _ => h.routes_read)
  have hlogging : setting doc "logging" logLevelOfToml Settings.usual.logLevel
      = some (c.pick .logLevel Settings.usual.logLevel) :=
    h.setting_table [] "logging" (by decide) (by rfl) (fun _ => h.logLevel_read)
  simp only [Settings.ofToml, Option.bind_eq_bind, Option.bind_some, hstore, hevents, hroutes,
    hlogging]
  cases isWhole doc c .thing && isWhole doc c .channel with
  | false => rfl
  | true => rfl

end Assigns

/-! ## The main law -/

/-- A file that gives any of the settings, each in a form that fits it, overrides
the usual values with them and keeps the others, if what comes out passes the
check. It fails just if it gives a class of routes without both of its settings. -/
theorem a_file_overrides_the_usual_settings_iff_its_classes_are_whole {content : List UInt8}
    {text : String} {doc : Members} {c : Choice} (decoded : Utf8.decode content = .ok text)
    (hread : Toml.read text = some doc) (assigned : Assigns doc c)
    (checked : c.settings.problem? = none) :
    Settings.load (.bytes content)
      = if isWhole doc c .thing && isWhole doc c .channel then .ok c.settings
        else .error .malformed := by
  simp only [Settings.load, decoded, Settings.ofText, hread, Option.bind_some, assigned.settings_read]
  cases isWhole doc c .thing && isWhole doc c .channel with
  | false => rfl
  | true => simp only [if_true, checked]

/-- A document that gives routes of things a prefix, and a pointer or none. -/
def thingRoutes (pointer : Option String) : Members :=
  [("route_map", .table .passed [("thing", .table .header
    (("prefix", .string "p") :: pointer.toList.map (fun s => ("metadata_pointer", .string s))))])]

def thingChoice (pointer : Option String) : Choice where
  value? {α : Type} (k : SettingKey α) : Option α :=
    match α, k with
    | _, .space .thing => some "p"
    | _, .pointer .thing => pointer
    | _, _ => none

theorem assigns_thingRoutes (pointer : Option String) :
    Assigns (thingRoutes pointer) (thingChoice pointer) := by
  refine ⟨?_, fun k => ?_, fun k v hv => ?_⟩
  · simp [sections, thingRoutes, membersAt, find, isTable]
  · cases k with
    | space kind => cases kind <;> rfl
    | pointer kind => cases kind <;> cases pointer <;> rfl
    | _ => rfl
  · cases k with
    | space kind => trivial
    | pointer kind => trivial
    | _ => cases hv

/-- A file with the two settings of one class overrides these and no others. -/
theorem a_file_with_one_whole_class_is_enough :
    let content := Utf8.encode "[route_map.thing]\nprefix = \"p\"\nmetadata_pointer = \"/id\""
    let c := thingChoice (some "/id")
    Assigns (thingRoutes (some "/id")) c ∧ c.settings.problem? = none ∧
      Settings.load (.bytes content) = .ok { Settings.usual with
        routes := { RouteClasses.usual with thing := ⟨"p", "/id"⟩ } } := by
  intro content c
  have hread : Toml.read "[route_map.thing]\nprefix = \"p\"\nmetadata_pointer = \"/id\""
      = some (thingRoutes (some "/id")) := by rfl
  have assigned := assigns_thingRoutes (some "/id")
  have checked : c.settings.problem? = none := by decide
  exact ⟨assigned, checked, a_file_overrides_the_usual_settings_iff_its_classes_are_whole
    (Utf8.decode_encode _) hread assigned checked⟩

/-- A file with one of the two settings fails, though what it chooses passes the
check. -/
theorem a_file_with_a_class_in_part_fails :
    Toml.read "[route_map.thing]\nprefix = \"p\"" = some (thingRoutes none) ∧
      Assigns (thingRoutes none) (thingChoice none) ∧
      (thingChoice none).settings = { Settings.usual with
        routes := { RouteClasses.usual with thing := ⟨"p", "/lora/dev_eui"⟩ } } ∧
      (thingChoice none).settings.problem? = none ∧
      Settings.load (.bytes (Utf8.encode "[route_map.thing]\nprefix = \"p\""))
        = .error .malformed := by
  have hread : Toml.read "[route_map.thing]\nprefix = \"p\"" = some (thingRoutes none) := by rfl
  refine ⟨hread, assigns_thingRoutes none, rfl, by decide, ?_⟩
  simp only [Settings.load, Utf8.decode_encode, Settings.ofText, hread, Option.bind_some]
  rfl

end LifecycleLog
