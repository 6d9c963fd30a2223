-- Reading a JSON document. A document may nest 127 levels deep, may not hold
-- half of a surrogate pair, and may not hold a number beyond binary64.
import LifecycleLog.Json
import LifecycleLog.Text.Reader

namespace LifecycleLog.Json

def isBlank (c : Char) : Bool := c = ' ' || c = '\n' || c = '\t' || c = '\r'

def skipBlanks (cs : List Char) : List Char := cs.dropWhile isBlank

/-! ## Strings -/

def simpleEscape (c : Char) : Option Char :=
  match c with
  | '"' => some '"'
  | '\\' => some '\\'
  | '/' => some '/'
  | 'b' => some '\x08'
  | 'f' => some '\x0c'
  | 'n' => some '\n'
  | 'r' => some '\r'
  | 't' => some '\t'
  | _ => none

def isLeading (n : Nat) : Bool := 0xD800 ≤ n && n ≤ 0xDBFF

def isTrailing (n : Nat) : Bool := 0xDC00 ≤ n && n ≤ 0xDFFF

/-- Reads what follows `\u`: one code point, or both halves of a pair. -/
def unicodeEscape : Reader Char := fun cs =>
  match hexDigits 4 cs with
  | none => none
  | some (ds, rest) =>
    let n := numeral 16 ds
    if isTrailing n then none
    else if isLeading n then
      match rest with
      | '\\' :: 'u' :: rest =>
        match hexDigits 4 rest with
        | none => none
        | some (ds', rest') =>
          let m := numeral 16 ds'
          if isTrailing m then
            some (Char.ofNat (0x10000 + (n - 0xD800) * 0x400 + (m - 0xDC00)), rest')
          else none
      | _ => none
    else some (Char.ofNat n, rest)

/-- Reads one character of a string; a control character has to be escaped. -/
def stringChar : Reader Char
  | [] => none
  | '"' :: _ => none
  | '\\' :: 'u' :: rest => unicodeEscape rest
  | '\\' :: c :: rest => (simpleEscape c).map (fun d => (d, rest))
  | '\\' :: [] => none
  | c :: rest => if c.toNat < 0x20 then none else some (c, rest)

/-- Reads a string whose opening quote is read. -/
def stringRest : Reader String := fun cs =>
  let (chars, rest) := Reader.many stringChar cs
  (Reader.char '"' rest).map (fun r => (String.ofList chars, r.2))

/-! ## Numbers -/

/-- The largest significand that is kept in full. -/
def greatestSignificand : Nat := UInt64.size - 1

/-- Adds digits to a significand as long as it fits; answers the significand
and the digits that did not fit. -/
def gather (significand : Nat) : List Nat → Nat × List Nat
  | [] => (significand, [])
  | d :: rest =>
    if significand * 10 + d ≤ greatestSignificand then gather (significand * 10 + d) rest
    else (significand, d :: rest)

/-- An exponent as it is written: its sign and its digits. -/
structure Exponent where
  negative : Bool
  digits : List Nat

/-- The largest exponent that is looked at. -/
def greatestExponentPart : Nat := UInt32.size / 2 - 1

def digitsOf (cs : List Char) : List Nat := cs.map digitValue

/-- The digits of a run, and what follows it. -/
def digitRun (cs : List Char) : List Nat × List Char :=
  (digitsOf (cs.takeWhile Char.isDigit), cs.dropWhile Char.isDigit)

/-- Reads a fraction, if a point comes next; it has at least one digit. -/
def fractionPart : Reader (Option (List Nat))
  | '.' :: rest =>
    match digitRun rest with
    | ([], _) => none
    | (ds, rest') => some (some ds, rest')
  | cs => some (none, cs)

/-- Reads an exponent, if an `e` comes next; it has at least one digit. -/
def exponentPart : Reader (Option Exponent)
  | c :: rest =>
    if c = 'e' || c = 'E' then
      let (negative, rest') := match rest with
        | '+' :: rest' => (false, rest')
        | '-' :: rest' => (true, rest')
        | _ => (false, rest)
      match digitRun rest' with
      | ([], _) => none
      | (ds, rest'') => some (some ⟨negative, ds⟩, rest'')
    else some (none, c :: rest)
  | [] => some (none, [])

/-- A binary64 number from a significand and a power of ten. -/
def double (negative : Bool) (significand : Nat) (exponent : Int) : Option Number :=
  (Binary64.ofScientific significand exponent).map (.double negative)

/-- The number that the parts write. -/
def numberOf (negative : Bool) (whole : List Nat) (fraction : Option (List Nat))
    (exponent : Option Exponent) : Option Number :=
  let (w, dropped) := gather 0 whole
  let (significand, kept) := match fraction with
    | none => (w, 0)
    | some ds =>
      let (f, left) := gather w ds
      (f, ds.length - left.length)
  let point : Int := dropped.length - kept
  match exponent with
  | some e =>
    let n := numeral 10 e.digits
    if greatestExponentPart < n then
      if significand ≠ 0 && !e.negative then none else some (.double negative .zero)
    else double negative significand (if e.negative then point - n else point + n)
  | none =>
    if fraction.isSome || !dropped.isEmpty then double negative significand point
    else if !negative then some (.int w)
    else if 0 < w && w ≤ UInt64.size / 2 then some (.int (-(w : Int)))
    else double true w 0

/-- Reads a number. -/
def numberHere : Reader Number := fun cs =>
  let (negative, cs) := match cs with
    | '-' :: rest => (true, rest)
    | _ => (false, cs)
  match digitRun cs with
  | ([], _) => none
  | (0 :: _ :: _, _) => none
  | (whole, rest) =>
    match fractionPart rest with
    | none => none
    | some (fraction, rest') =>
      match exponentPart rest' with
      | none => none
      | some (exponent, rest'') =>
        (numberOf negative whole fraction exponent).map (fun n => (n, rest''))

/-! ## Values -/

/-- Reads the rest of a list whose opening bracket is read: items with commas
between them, then the closing bracket. -/
def listRest {α : Type} (close : Char) (item : Reader α) : Reader (List α) := fun cs =>
  let cs := skipBlanks cs
  match Reader.char close cs with
  | some (_, rest) => some ([], rest)
  | none =>
    match item cs with
    | none => none
    | some (first, rest) =>
      let next : Reader α := fun cs =>
        (Reader.char ',' (skipBlanks cs)).bind (fun r => item (skipBlanks r.2))
      let (more, rest') := Reader.many next rest
      (Reader.char close (skipBlanks rest')).map (fun r => (first :: more, r.2))

/-- Reads a member of an object. -/
def memberOf (value : Reader Json) : Reader (String × Json)
  | '"' :: rest =>
    (stringRest rest).bind (fun (key, rest) =>
      (Reader.char ':' (skipBlanks rest)).bind (fun r =>
        (value (skipBlanks r.2)).map (fun (v, rest) => ((key, v), rest))))
  | _ => none

/-- Reads a value in which brackets nest at most `depth` deep. -/
def value : (depth : Nat) → Reader Json
  | 0, cs => scalar cs
  | depth + 1, cs =>
    match cs with
    | '[' :: rest => (listRest ']' (value depth) rest).map (fun (items, r) => (.array items, r))
    | '\x7b' :: rest =>
      (listRest '\x7d' (memberOf (value depth)) rest).map (fun (ms, r) => (.object ms, r))
    | _ => scalar cs
where
  /-- Reads a value without brackets. -/
  scalar : Reader Json := fun cs =>
    match cs with
    | '"' :: rest => (stringRest rest).map (fun (s, r) => (.string s, r))
    | 'n' :: _ => Reader.word "null" .null cs
    | 't' :: _ => Reader.word "true" (.bool true) cs
    | 'f' :: _ => Reader.word "false" (.bool false) cs
    | _ => (numberHere cs).map (fun (n, r) => (.number n, r))

/-- How deep brackets may nest. -/
def depthLimit : Nat := 127

/-- Reads a document: one value with nothing but blanks around it. -/
def read (text : String) : Option Json :=
  match value depthLimit (skipBlanks text.toList) with
  | some (doc, rest) => if (skipBlanks rest).isEmpty then some doc else none
  | none => none

end LifecycleLog.Json
