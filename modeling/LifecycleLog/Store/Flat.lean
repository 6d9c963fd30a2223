-- A store of flat tables, as a database file holds them: entries by stream
-- and id, last ids by stream, cursors by stream and group, and deliveries by
-- stream, group and id. Times are kept in whole milliseconds.
import LifecycleLog.Store.Keyed

namespace LifecycleLog.Flat

structure Delivery where
  consumer : String
  deliveredAtMs : Nat
  deliveries : Nat
  deriving DecidableEq, Repr

/-- A stream, a group on it, and an entry id. -/
abbrev DeliveryKey : Type := Joined String (Joined String Nat)

structure Store where
  keys : Keys
  entries : Table (Joined String Nat) Fields
  lastIds : Table String Nat
  cursors : Table (Joined String String) Nat
  deliveries : Table DeliveryKey Delivery
  deriving DecidableEq

def empty : Store := ⟨∅, ∅, ∅, ∅, ∅⟩

/-- The largest id there is. -/
def maxId : Nat := UInt64.size - 1

/-- The clock in whole milliseconds. -/
def millis (now : Nat) : Nat := now / nanosPerMilli

def Store.lastId (s : Store) (stream : String) : Nat := (s.lastIds.get? stream).getD 0

/-- Whether the group has entries beyond its cursor. -/
def Store.hasNew (s : Store) (stream : String) (cursor : Nat) : Bool :=
  match s.lastIds.get? stream with
  | none => false
  | some last => cursor < last

/-- The deliveries of a group with ids from `first` on, in id order. -/
def Store.deliveriesFrom (s : Store) (stream group : String) (first : Nat) :
    List (DeliveryKey × Delivery) :=
  s.deliveries.range ⟨stream, group, first⟩ ⟨stream, group, maxId⟩

/-! ## Reading a group -/

/-- Delivers the entries beyond the cursor, writes the new cursor, then one
delivery record for each entry. -/
def readNew (stream group consumer : String) (cursor count now : Nat) (s : Store) :
    List Entry × Store :=
  let rows := (s.entries.range ⟨stream, cursor + 1⟩ ⟨stream, maxId⟩).take count
  let batch : List Entry := rows.map (fun r => ⟨r.1.snd, r.2, 1⟩)
  match batch.getLast? with
  | none => (batch, s)
  | some tail =>
    let record : Delivery := ⟨consumer, millis now, 1⟩
    (batch, { s with
      cursors := s.cursors.insert ⟨stream, group⟩ tail.id
      deliveries := batch.foldl (fun t e => t.insert ⟨stream, group, e.id⟩ record) s.deliveries })

/-- Stamps selected deliveries anew, one after the other, and collects the
entries that they deliver. -/
def restamp (stream group consumer : String) (now : Nat) :
    List (Nat × Delivery) → Store → List Entry × Store
  | [], s => ([], s)
  | (id, d) :: rest, s =>
    match s.entries.get? ⟨stream, id⟩ with
    | none => restamp stream group consumer now rest s
    | some fields =>
      let d' : Delivery := ⟨consumer, millis now, d.deliveries + 1⟩
      let (entries, s') := restamp stream group consumer now rest
        { s with deliveries := s.deliveries.insert ⟨stream, group, id⟩ d' }
      (⟨id, fields, d'.deliveries⟩ :: entries, s')

/-- Selects the first `count` deliveries after `after` that `pick` takes, then
stamps them for `consumer`. -/
def redeliver (stream group consumer : String) (after count now : Nat) (pick : Delivery → Bool)
    (s : Store) : List Entry × Store :=
  let selected := ((s.deliveriesFrom stream group (after + 1)).filter (fun r => pick r.2)).take count
  restamp stream group consumer now (selected.map (fun r => (r.1.snd.snd, r.2))) s

/-! ## Acknowledging and listing -/

def acknowledge (stream group : String) :
    List Nat → Table DeliveryKey Delivery → Nat × Table DeliveryKey Delivery
  | [], t => (0, t)
  | id :: rest, t =>
    let (n, t') := acknowledge stream group rest (t.erase ⟨stream, group, id⟩)
    (if t.contains ⟨stream, group, id⟩ then n + 1 else n, t')

def listing (stream group : String) (now : Nat) (s : Store) : List PendingEntry :=
  (s.deliveriesFrom stream group 0).map (fun r =>
    ⟨r.1.snd.snd, r.2.consumer, r.2.deliveries, Span.ofMillis (millis now - r.2.deliveredAtMs)⟩)

/-! ## Calls -/

/-- Runs a step for a group that is there; the call fails if it is not. -/
def Store.onGroup {α : Type} (s : Store) (stream group : String) (f : Nat → Store → α × Store) :
    Except StoreError α × Store :=
  match s.cursors.get? ⟨stream, group⟩ with
  | none => (.error (.noSuchGroup stream group), s)
  | some cursor => (.ok (f cursor s).1, (f cursor s).2)

def streamCall : (c : StreamCall) → (now : Nat) → Store → Except StoreError c.Answer × Store
  | .append stream fields, _, s =>
    let id := s.lastId stream + 1
    (.ok id, { s with
      lastIds := s.lastIds.insert stream id
      entries := s.entries.insert ⟨stream, id⟩ fields })
  | .createGroup stream group start, _, s =>
    if s.cursors.contains ⟨stream, group⟩ then (.ok false, s)
    else
      let cursor := match start with
        | .beginning => 0
        | .latest => s.lastId stream
      (.ok true, { s with cursors := s.cursors.insert ⟨stream, group⟩ cursor })
  | .readGroup stream group consumer .new count _, now, s =>
    s.onGroup stream group (fun cursor s =>
      if s.hasNew stream cursor then readNew stream group consumer cursor count now s else ([], s))
  | .readGroup stream group consumer (.pending after) count _, now, s =>
    s.onGroup stream group (fun _ =>
      redeliver stream group consumer after count now (fun d => d.consumer = consumer))
  | .ack stream group ids, _, s =>
    s.onGroup stream group (fun _ s =>
      ((acknowledge stream group ids s.deliveries).1,
        { s with deliveries := (acknowledge stream group ids s.deliveries).2 }))
  | .claimIdle stream group consumer minIdle count, now, s =>
    s.onGroup stream group (fun _ =>
      redeliver stream group consumer 0 count now (fun d =>
        min minIdle.millis maxId ≤ millis now - d.deliveredAtMs))
  | .pending stream group, now, s =>
    s.onGroup stream group (fun _ s => (listing stream group now s, s))

/-- Goes through keys, removes each one from the table, and counts a removal of
one that was there on top of those before it. -/
def remove : List String → (removed : Nat) → Keys → Nat × Keys
  | [], removed, table => (removed, table)
  | key :: rest, removed, table =>
    match table.get? key with
    | some _ => remove rest (removed + 1) (table.erase key)
    | none => remove rest removed (table.erase key)

def onKeys : (c : KeyCall) → Keys → c.Answer × Keys
  | .get key, table => (table.get? key, table)
  | .set key value, table => ((), table.insert key value)
  | .delete names, table => remove names 0 table

def keyCall (c : KeyCall) (s : Store) : Except StoreError c.Answer × Store :=
  (.ok (onKeys c s.keys).1, { s with keys := (onKeys c s.keys).2 })

theorem remove_eq (names : List String) (removed : Nat) (table : Keys) :
    remove names removed table
      = (removed + (Keys.deleteAll names table).1, (Keys.deleteAll names table).2) := by
  induction names generalizing removed table with
  | nil => rfl
  | cons name rest ih =>
    unfold remove
    cases hname : table.get? name with
    | some value => simp [ih, Keys.deleteAll, Table.contains, hname, Nat.add_assoc, Nat.add_comm 1]
    | none => simp [ih, Keys.deleteAll, Table.contains, hname]

theorem onKeys_eq (c : KeyCall) (table : Keys) : onKeys c table = Keys.answer c table := by
  cases c with
  | get key => rfl
  | set key value => rfl
  | delete names => simp only [onKeys, Keys.answer, remove_eq, Nat.zero_add]

def backend : Backend Store where
  empty := empty
  keyCall := keyCall
  streamCall := streamCall
  entryCount s := s.entries.size

end LifecycleLog.Flat
