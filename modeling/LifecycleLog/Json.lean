-- JSON documents and what a pointer finds in them. Integers keep their
-- digits; every other number is a binary64 number and is written with the
-- fewest digits that read back.
import LifecycleLog.Decimal.Shortest

namespace LifecycleLog

namespace Json

inductive Number
  | int (value : Int)
  | double (negative : Bool) (magnitude : Binary64)
  deriving DecidableEq, Repr

end Json

/-- A document. An object may name a key twice; the later member counts. -/
inductive Json
  | null
  | bool (value : Bool)
  | number (value : Json.Number)
  | string (value : String)
  | array (items : List Json)
  | object (members : List (String × Json))

namespace Json

/-! ## The text of a number -/

/-- The text of a decimal: positional from 0.00001 up to 16 digits before the
point, with `.0` after a whole number; else with a signed exponent. -/
def decimalText (d : Decimal.Digits) : String :=
  let digits := (Nat.toDigits 10 d.digits)
  let zeros (n : Int) : List Char := List.replicate n.toNat '0'
  if d.length ≤ d.point && d.point ≤ 16 then
    String.ofList (digits ++ zeros (d.point - d.length)) ++ ".0"
  else if 0 < d.point && d.point ≤ 16 then
    String.ofList (digits.take d.point.toNat ++ '.' :: digits.drop d.point.toNat)
  else if -5 < d.point && d.point ≤ 0 then
    "0." ++ String.ofList (zeros (-d.point) ++ digits)
  else
    let mantissa := match digits with
      | [c] => [c]
      | c :: rest => c :: '.' :: rest
      | [] => []
    let e := d.point - 1
    let sign := if e < 0 then "-" else "+"
    String.ofList mantissa ++ "e" ++ sign ++ toString e.natAbs

def Number.text : Number → String
  | .int n => toString n
  | .double negative x =>
    let digits := if x.mantissa = 0 then "0.0" else decimalText (Decimal.shortest x)
    if negative then "-" ++ digits else digits

/-! ## Pointers -/

/-- The steps of a pointer, with `~1` for a slash and `~0` for a tilde. -/
def unescape : List Char → List Char
  | '~' :: '1' :: rest => '/' :: unescape rest
  | '~' :: '0' :: rest => '~' :: unescape rest
  | c :: rest => c :: unescape rest
  | [] => []

/-- Splits at each slash. -/
def splitSlashes (cs : List Char) : List (List Char) :=
  cs.foldr (fun c parts =>
    match parts with
    | part :: rest => if c = '/' then [] :: part :: rest else (c :: part) :: rest
    | [] => [[c]]) [[]]

/-- The steps of a pointer; `none` for a text that is no pointer. -/
def pointerSteps (pointer : String) : Option (List String) :=
  match pointer.toList with
  | [] => some []
  | '/' :: rest => some ((splitSlashes rest).map (fun part => String.ofList (unescape part)))
  | _ => none

/-- The index that a step names: digits without a sign or a leading zero. -/
def indexOf (step : String) : Option Nat :=
  let cs := step.toList
  if cs.isEmpty || !cs.all Char.isDigit || (cs.head? = some '0' && cs.length ≠ 1) then none
  else
    let n := cs.foldl (fun n c => n * 10 + (c.toNat - '0'.toNat)) 0
    if n < UInt64.size then some n else none

/-- The member of a key: the last one that bears it. -/
def member (key : String) : List (String × Json) → Option Json
  | [] => none
  | (k, v) :: rest => (member key rest).orElse (fun _ => if k = key then some v else none)

/-- One step down. -/
def child : Json → String → Option Json
  | .object members, step => member step members
  | .array items, step => (indexOf step).bind (fun i => items[i]?)
  | _, _ => none

/-- The part of a document that a pointer names. -/
def pointer (doc : Json) (p : String) : Option Json :=
  (pointerSteps p).bind (fun steps => steps.foldlM child doc)

end Json

end LifecycleLog
