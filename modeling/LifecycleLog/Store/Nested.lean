-- A store of nested maps: each stream holds its log and its groups, and each
-- group its cursor and its pending list. The id of an entry is its place in
-- the log, counted from 1, so ids never have gaps.
import LifecycleLog.Store.Keyed

namespace LifecycleLog.Nested

/-- A delivery that waits for its acknowledgement. `deliveredAt` is the clock
reading at the latest delivery. -/
structure Delivery where
  id : Nat
  consumer : String
  deliveredAt : Nat
  deliveries : Nat
  deriving DecidableEq, Repr

/-- The cursor is the id of the last entry delivered as new. -/
structure Group where
  cursor : Nat
  pending : List Delivery
  deriving DecidableEq, Repr

structure Stream where
  log : List Fields
  groups : Table String Group
  deriving DecidableEq

structure Store where
  keys : Keys
  streams : Table String Stream
  deriving DecidableEq

def Stream.empty : Stream := ⟨[], ∅⟩

def empty : Store := ⟨∅, ∅⟩

/-! ## Looking up and putting back -/

def Store.stream (s : Store) (name : String) : Stream := (s.streams.get? name).getD .empty

def Store.setStream (s : Store) (name : String) (x : Stream) : Store :=
  { s with streams := s.streams.insert name x }

/-- The log and the group of a name pair. -/
def Store.group? (s : Store) (stream group : String) : Option (List Fields × Group) :=
  match s.streams.get? stream with
  | none => none
  | some x => (x.groups.get? group).map (fun g => (x.log, g))

def Store.setGroup (s : Store) (stream group : String) (g : Group) : Store :=
  let x := s.stream stream
  s.setStream stream { x with groups := x.groups.insert group g }

/-- Changes a group that is there; the call fails if it is not. -/
def Store.onGroup {α : Type} (s : Store) (stream group : String)
    (f : List Fields → Group → α × Group) : Except StoreError α × Store :=
  match s.group? stream group with
  | none => (.error (.noSuchGroup stream group), s)
  | some (log, g) => (.ok (f log g).1, s.setGroup stream group (f log g).2)

/-! ## Reading a group -/

/-- The entries from `first` on, as first deliveries. -/
def numbered (first : Nat) : List Fields → List Entry
  | [] => []
  | f :: rest => ⟨first, f, 1⟩ :: numbered (first + 1) rest

/-- The first `count` entries beyond the cursor. -/
def freshEntries (log : List Fields) (cursor count : Nat) : List Entry :=
  numbered (cursor + 1) ((log.drop cursor).take count)

/-- A first delivery of each entry. -/
def freshDeliveries (consumer : String) (now : Nat) (entries : List Entry) : List Delivery :=
  entries.map (fun e => ⟨e.id, consumer, now, 1⟩)

/-- Delivers entries new to the group and moves the cursor past them. -/
def readNew (consumer : String) (count now : Nat) (log : List Fields) (g : Group) :
    List Entry × Group :=
  let entries := freshEntries log g.cursor count
  (entries, ⟨g.cursor + entries.length, g.pending ++ freshDeliveries consumer now entries⟩)

/-- Goes through a pending list and delivers again, to `consumer`, the first
`count` entries that `pick` takes. -/
def redeliver (log : List Fields) (consumer : String) (now : Nat) (pick : Delivery → Bool) :
    Nat → List Delivery → List Entry × List Delivery
  | _, [] => ([], [])
  | 0, rest => ([], rest)
  | count + 1, d :: rest =>
    match (if pick d then log[d.id - 1]? else none) with
    | none =>
      let (entries, rest') := redeliver log consumer now pick (count + 1) rest
      (entries, d :: rest')
    | some fields =>
      let (entries, rest') := redeliver log consumer now pick count rest
      (⟨d.id, fields, d.deliveries + 1⟩ :: entries, ⟨d.id, consumer, now, d.deliveries + 1⟩ :: rest')

/-- Delivers again what is pending for the consumer itself. -/
def readPending (consumer : String) (after count now : Nat) (log : List Fields) (g : Group) :
    List Entry × Group :=
  let (entries, pending) :=
    redeliver log consumer now (fun d => after < d.id && d.consumer = consumer) count g.pending
  (entries, { g with pending })

/-- Takes over entries that nobody asked for in a while, whoever has them. -/
def claim (consumer : String) (minIdle : Span) (count now : Nat) (log : List Fields) (g : Group) :
    List Entry × Group :=
  let (entries, pending) :=
    redeliver log consumer now (fun d => minIdle.nanos ≤ now - d.deliveredAt) count g.pending
  (entries, { g with pending })

/-- Drops each id from the pending list and counts those that were there. -/
def acknowledge : List Nat → List Delivery → Nat × List Delivery
  | [], pending => (0, pending)
  | id :: rest, pending =>
    let (n, pending') := acknowledge rest (pending.filter (fun d => d.id ≠ id))
    (if pending.any (fun d => d.id = id) then n + 1 else n, pending')

/-- The pending list as its readers see it. -/
def listing (now : Nat) (g : Group) : List PendingEntry :=
  g.pending.map (fun d => ⟨d.id, d.consumer, d.deliveries, Span.ofNanos (now - d.deliveredAt)⟩)

/-! ## Calls -/

def streamCall : (c : StreamCall) → (now : Nat) → Store → Except StoreError c.Answer × Store
  | .append stream fields, _, s =>
    let x := s.stream stream
    (.ok (x.log.length + 1), s.setStream stream { x with log := x.log ++ [fields] })
  | .createGroup stream group start, _, s =>
    let x := s.stream stream
    if x.groups.contains group then (.ok false, s)
    else
      let cursor := match start with
        | .beginning => 0
        | .latest => x.log.length
      (.ok true, s.setStream stream { x with groups := x.groups.insert group ⟨cursor, []⟩ })
  | .readGroup stream group consumer .new count _, now, s =>
    s.onGroup stream group (readNew consumer count now)
  | .readGroup stream group consumer (.pending after) count _, now, s =>
    s.onGroup stream group (readPending consumer after count now)
  | .ack stream group ids, _, s =>
    s.onGroup stream group (fun _ g =>
      ((acknowledge ids g.pending).1, { g with pending := (acknowledge ids g.pending).2 }))
  | .claimIdle stream group consumer minIdle count, now, s =>
    s.onGroup stream group (claim consumer minIdle count now)
  | .pending stream group, now, s =>
    match s.group? stream group with
    | none => (.error (.noSuchGroup stream group), s)
    | some (_, g) => (.ok (listing now g), s)

/-- Removes keys one after the other and keeps those that were there. -/
def removeEach : List String → Keys → List String × Keys
  | [], keys => ([], keys)
  | key :: rest, keys =>
    let (found, keys') := removeEach rest (keys.erase key)
    (if keys.contains key then key :: found else found, keys')

def onKeys : (c : KeyCall) → Keys → c.Answer × Keys
  | .get key, keys => (keys.get? key, keys)
  | .set key value, keys => ((), keys.insert key value)
  | .delete names, keys => ((removeEach names keys).1.length, (removeEach names keys).2)

def keyCall (c : KeyCall) (s : Store) : Except StoreError c.Answer × Store :=
  (.ok (onKeys c s.keys).1, { s with keys := (onKeys c s.keys).2 })

theorem removeEach_eq (names : List String) (keys : Keys) :
    ((removeEach names keys).1.length, (removeEach names keys).2) = Keys.deleteAll names keys := by
  induction names generalizing keys with
  | nil => rfl
  | cons name rest ih =>
    obtain ⟨hcount, hkeys⟩ := Prod.mk.inj (ih (keys.erase name))
    simp only [removeEach, Keys.deleteAll, hkeys, ← hcount]
    split <;> rfl

theorem onKeys_eq (c : KeyCall) (keys : Keys) : onKeys c keys = Keys.answer c keys := by
  cases c with
  | get key => rfl
  | set key value => rfl
  | delete names => exact removeEach_eq names keys

def backend : Backend Store where
  empty := empty
  keyCall := keyCall
  streamCall := streamCall
  entryCount s := s.streams.values.foldr (fun x n => x.log.length + n) 0

/-! ## Sizes -/

def Store.keyCount (s : Store) : Nat := s.keys.size

def Store.streamLength (s : Store) (stream : String) : Nat := (s.stream stream).log.length

def Store.pendingLength (s : Store) (stream group : String) : Nat :=
  ((s.group? stream group).map (fun x => x.2.pending.length)).getD 0

end LifecycleLog.Nested
