-- The wording of a response in messages: the name of its kind, then what it
-- carries, with every part named and texts in quotes.
import LifecycleLog.Text.Quoted
import LifecycleLog.Wire.Message

namespace LifecycleLog

/-- A span in its largest unit that is not less than one, with as many places
as it needs. -/
def Span.wording (d : Span) : String :=
  let decimal (unit : Nat) (places : Nat) (name : String) : String :=
    let digits := Nat.toDigits 10 (d.nanos % unit)
    let fraction := List.replicate (places - digits.length) '0' ++ digits
    let kept := (fraction.reverse.dropWhile (· = '0')).reverse
    let tail := if kept.isEmpty then "" else "." ++ String.ofList kept
    toString (d.nanos / unit) ++ tail ++ name
  if nanosPerSecond ≤ d.nanos then decimal nanosPerSecond 9 "s"
  else if nanosPerMilli ≤ d.nanos then decimal nanosPerMilli 6 "ms"
  else if 1000 ≤ d.nanos then decimal 1000 3 "µs"
  else toString d.nanos ++ "ns"

namespace Wire

def listed (items : List String) : String := "[" ++ String.intercalate ", " items ++ "]"

def braced (items : List String) : String := "\x7b" ++ String.intercalate ", " items ++ "\x7d"

/-- A named value with named parts. -/
def record (name : String) (parts : List (String × String)) : String :=
  name ++ " \x7b " ++ String.intercalate ", " (parts.map (fun p => p.1 ++ ": " ++ p.2)) ++ " \x7d"

def idWording (id : Nat) : String := s!"EntryId({id})"

def fieldsWording (fields : Fields) : String :=
  braced (fields.rows.map (fun r => Quoted.text r.1 ++ ": " ++ Quoted.text r.2))

def entryWording (e : Entry) : String :=
  record "StreamEntry" [("id", idWording e.id), ("fields", fieldsWording e.fields),
    ("deliveries", toString e.deliveries)]

def pendingWording (e : PendingEntry) : String :=
  record "PendingEntry" [("id", idWording e.id), ("consumer", Quoted.text e.consumer),
    ("deliveries", toString e.deliveries), ("idle", e.idle.wording)]

def Failure.wording : Failure → String
  | .noSuchGroup stream group =>
    record "NoSuchGroup" [("stream", Quoted.text stream), ("group", Quoted.text group)]
  | .unavailable detail => s!"Unavailable({Quoted.text detail})"
  | .backend detail => s!"Backend({Quoted.text detail})"

def Response.wording : Response → String
  | .value none => "Value(None)"
  | .value (some v) => s!"Value(Some({Quoted.text v}))"
  | .done => "Done"
  | .count n => s!"Count({n})"
  | .id n => s!"Id({idWording n})"
  | .created isNew => s!"Created({isNew})"
  | .entries es => s!"Entries({listed (es.map entryWording)})"
  | .pending es => s!"Pending({listed (es.map pendingWording)})"
  | .failure f => s!"Error({f.wording})"

end Wire

end LifecycleLog
