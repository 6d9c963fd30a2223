-- TOML documents. A document is a table of values. Tables come about in
-- several ways, and how one came about says who may still add to it.
namespace LifecycleLog

namespace Toml

/-- How a table came about. -/
inductive Origin
  /-- By a header of its own, as an element of an array of tables, or as the
  document itself. -/
  | header
  /-- On the way to the table of a longer header. -/
  | passed
  /-- On the way to a dotted key. -/
  | dotted
  /-- As a value in braces. -/
  | inline
  deriving DecidableEq, Repr

end Toml

/-- A value. Numbers with a fraction or an exponent, dates and times keep
their text. -/
inductive Toml
  | string (value : String)
  | integer (value : Int)
  | float (text : String)
  | boolean (value : Bool)
  | dateTime (text : String)
  | array (items : List Toml)
  | table (origin : Toml.Origin) (members : List (String × Toml))
  /-- An array of tables that headers write, one table for each, the last one
  first. -/
  | tables (elements : List (List (String × Toml)))

namespace Toml

abbrev Members : Type := List (String × Toml)

def find (key : String) : Members → Option Toml
  | [] => none
  | (k, v) :: rest => if k = key then some v else find key rest

/-- Puts a value in the place of the one that the key has. -/
def replace (key : String) (value : Toml) (ms : Members) : Members :=
  ms.map (fun (k, v) => (k, if k = key then value else v))

/-! ## Adding to tables -/

/-- Adds a key that is not there yet. -/
def addKey (key : String) (value : Toml) (ms : Members) : Option Members :=
  match find key ms with
  | none => some (ms ++ [(key, value)])
  | some _ => none

/-- Adds a dotted key. The tables on its way come about here or came about by
other dotted keys; the last one does so in any case. A table that has a header
is not added to. -/
def addDotted : List String → String → Toml → Members → Option Members
  | [], key, value, ms => addKey key value ms
  | step :: path, key, value, ms =>
    match find step ms with
    | none => (addDotted path key value []).map (fun ms' => ms ++ [(step, .table .dotted ms')])
    | some (.table .dotted inner) =>
      (addDotted path key value inner).map (fun ms' => replace step (.table .dotted ms') ms)
    | some (.table .passed inner) =>
      if path.isEmpty then none
      else (addDotted path key value inner).map (fun ms' => replace step (.table .passed ms') ms)
    | some (.tables elements) =>
      match path.isEmpty, elements with
      | false, inner :: earlier =>
        (addDotted path key value inner).map
          (fun ms' => replace step (.tables (ms' :: earlier)) ms)
      | _, _ => none
    | some _ => none

/-- Changes the table that a header path leads to; an array of tables leads on
to its last element. -/
def alter (f : Members → Option Members) : List String → Members → Option Members
  | [], ms => f ms
  | step :: path, ms =>
    match find step ms with
    | none => (alter f path []).map (fun ms' => ms ++ [(step, .table .passed ms')])
    | some (.table .inline _) => none
    | some (.table origin inner) =>
      (alter f path inner).map (fun ms' => replace step (.table origin ms') ms)
    | some (.tables elements) =>
      match elements with
      | inner :: earlier =>
        (alter f path inner).map (fun ms' => replace step (.tables (ms' :: earlier)) ms)
      | [] => none
    | some _ => none

/-- Opens the table of a header: a new one, or one that was only passed. -/
def openTable (key : String) (ms : Members) : Option Members :=
  match find key ms with
  | none => some (ms ++ [(key, .table .header [])])
  | some (.table .passed inner) => some (replace key (.table .header inner) ms)
  | some _ => none

/-- Opens the next element of an array of tables. -/
def openElement (key : String) (ms : Members) : Option Members :=
  match find key ms with
  | none => some (ms ++ [(key, .tables [[]])])
  | some (.tables elements) => some (replace key (.tables ([] :: elements)) ms)
  | some _ => none

end Toml

end LifecycleLog
