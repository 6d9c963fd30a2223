-- Reading TOML 1.0. Brackets nest at most 79 deep, and a key has at most 79
-- parts. Integers have 64 bits and a sign.
import LifecycleLog.Decimal.Binary64
import LifecycleLog.Text.Reader
import LifecycleLog.Toml

namespace LifecycleLog.Toml

/-! ## Blanks, comments, line ends -/

def isBlank (c : Char) : Bool := c = ' ' || c = '\t'

/-- A character that may stand in a comment, and on a line of a string. -/
def isPlain (c : Char) : Bool := c = '\t' || (0x20 ≤ c.toNat && c.toNat ≠ 0x7F)

def skipBlanks (cs : List Char) : List Char := cs.dropWhile isBlank

/-- Reads a line end. -/
def newline : Reader Unit
  | '\n' :: rest => some ((), rest)
  | '\r' :: '\n' :: rest => some ((), rest)
  | _ => none

/-- Skips a comment up to the end of its line. -/
def skipComment : List Char → List Char
  | '#' :: rest => rest.dropWhile isPlain
  | cs => cs

/-- Reads what may follow on a line: blanks, a comment, the line end or the
end of the text. -/
def lineEnd : Reader Unit := fun cs =>
  match skipComment (skipBlanks cs) with
  | [] => some ((), [])
  | rest => newline rest

/-- Reads one piece of what may stand between the items of an array. -/
def gapPiece : Reader Unit := fun cs =>
  match cs with
  | '#' :: _ => newline (skipComment cs)
  | c :: rest => if isBlank c then some ((), rest) else newline cs
  | [] => none

def skipGaps (cs : List Char) : List Char := (Reader.many gapPiece cs).2

/-! ## Strings -/

/-- The character of a number, if there is one. -/
def charOf (n : Nat) : Option Char :=
  if n < 0xD800 || (0xE000 ≤ n && n < 0x110000) then some (Char.ofNat n) else none

/-- Reads the code point of an escape with so many digits. -/
def codePoint (width : Nat) : Reader Char := fun cs =>
  match hexDigits width cs with
  | some (ds, rest) => (charOf (numeral 16 ds)).map (fun c => (c, rest))
  | none => none

/-- Reads what follows a backslash. -/
def escaped : Reader Char
  | 'b' :: rest => some ('\x08', rest)
  | 'f' :: rest => some ('\x0c', rest)
  | 'n' :: rest => some ('\n', rest)
  | 'r' :: rest => some ('\r', rest)
  | 't' :: rest => some ('\t', rest)
  | '"' :: rest => some ('"', rest)
  | '\\' :: rest => some ('\\', rest)
  | 'u' :: rest => codePoint 4 rest
  | 'U' :: rest => codePoint 8 rest
  | _ => none

/-- Reads one character of a quoted string. -/
def quotedChar : Reader Char
  | '"' :: _ => none
  | '\\' :: rest => escaped rest
  | c :: rest => if isPlain c then some (c, rest) else none
  | [] => none

/-- Reads one character of a literal string. -/
def literalChar : Reader Char
  | c :: rest => if isPlain c && c ≠ '\'' then some (c, rest) else none
  | [] => none

/-- Reads characters up to a closing quote. -/
def closedBy (quote : Char) (item : Reader Char) : Reader String := fun cs =>
  let (chars, rest) := Reader.many item cs
  (Reader.char quote rest).map (fun r => (String.ofList chars, r.2))

/-- Skips a line end and all blanks and line ends after it. -/
def foldedLine : Reader Unit := fun cs =>
  (newline (skipBlanks cs)).map (fun r =>
    ((), (Reader.many (fun cs => match cs with
      | c :: rest => if isBlank c then some ((), rest) else newline cs
      | [] => none) r.2).2))

/-- How many quotes come next. -/
def quoteRun (quote : Char) (cs : List Char) : Nat := (cs.takeWhile (· = quote)).length

/-- Reads one piece of a string of many lines: a character, a line end, a
folded line end, or quotes that are too few to close it. -/
def linesPiece (quote : Char) (escapes : Bool) : Reader (List Char)
  | [] => none
  | c :: rest =>
    if c = quote then
      let run := quoteRun quote (c :: rest)
      if run < 3 then some (List.replicate run quote, (c :: rest).drop run) else none
    else if escapes && c = '\\' then
      match foldedLine rest with
      | some (_, rest') => some ([], rest')
      | none => (escaped rest).map (fun r => ([r.1], r.2))
    else
      match newline (c :: rest) with
      | some (_, rest') => some (['\n'], rest')
      | none => if isPlain c then some ([c], rest) else none

/-- Reads the rest of a string of many lines. A line end right after the
opening quotes does not count, and up to two quotes may stand right before the
closing ones. -/
def lines (quote : Char) (escapes : Bool) : Reader String := fun cs =>
  let cs := match newline cs with
    | some (_, rest) => rest
    | none => cs
  let (pieces, rest) := Reader.many (linesPiece quote escapes) cs
  let run := quoteRun quote rest
  if 3 ≤ run && run ≤ 5 then
    some (String.ofList (pieces.flatten ++ List.replicate (run - 3) quote), rest.drop run)
  else none

/-- Reads a string on one line. -/
def lineString : Reader String
  | '"' :: rest => closedBy '"' quotedChar rest
  | '\'' :: rest => closedBy '\'' literalChar rest
  | _ => none

/-- Reads a string. -/
def stringValue : Reader String
  | '"' :: '"' :: '"' :: rest => lines '"' true rest
  | '\'' :: '\'' :: '\'' :: rest => lines '\'' false rest
  | cs => lineString cs

/-! ## Numbers -/

/-- Reads digits with single underscores between them. -/
def digits (value? : Char → Option Nat) : Reader (List Nat)
  | [] => none
  | c :: rest =>
    match value? c with
    | none => none
    | some d =>
      let next : Reader Nat := fun cs => match cs with
        | '_' :: c :: rest => (value? c).map (fun d => (d, rest))
        | c :: rest => (value? c).map (fun d => (d, rest))
        | [] => none
      let (ds, rest') := Reader.many next rest
      match rest' with
      | '_' :: _ => none
      | _ => some (d :: ds, rest')

/-- The value of a digit in a base up to 16. -/
def digitIn (base : Nat) (c : Char) : Option Nat := (hexValue? c).filter (· < base)

/-- Reads decimal digits without a leading zero. -/
def wholeDigits : Reader (List Nat) := fun cs =>
  match digits (digitIn 10) cs with
  | some (0 :: _ :: _, _) => none
  | r => r

/-- Splits a sign off; `true` for a minus. -/
def sign : List Char → Bool × List Char
  | '-' :: rest => (true, rest)
  | '+' :: rest => (false, rest)
  | cs => (false, cs)

/-- The integer, if 64 bits hold it. -/
def integerOf (negative : Bool) (n : Nat) : Option Int :=
  if negative then (if n ≤ UInt64.size / 2 then some (-(n : Int)) else none)
  else if n < UInt64.size / 2 then some n else none

/-- Reads the digits of another base. -/
def basedInteger (base : Nat) : Reader Int := fun cs =>
  match digits (digitIn base) cs with
  | some (ds, rest) => (integerOf false (numeral base ds)).map (fun n => (n, rest))
  | none => none

/-- Reads an integer. -/
def wholeNumber : Reader Int
  | '0' :: 'x' :: rest => basedInteger 16 rest
  | '0' :: 'o' :: rest => basedInteger 8 rest
  | '0' :: 'b' :: rest => basedInteger 2 rest
  | cs =>
    let (negative, rest) := sign cs
    match wholeDigits rest with
    | some (ds, rest') => (integerOf negative (numeral 10 ds)).map (fun n => (n, rest'))
    | none => none

/-- Reads a fraction; its digits. -/
def fraction : Reader (List Nat)
  | '.' :: rest => digits (digitIn 10) rest
  | _ => none

/-- Reads an exponent. -/
def exponent : Reader Int
  | c :: rest =>
    if c = 'e' || c = 'E' then
      let (negative, rest') := sign rest
      (digits (digitIn 10) rest').map (fun (ds, r) =>
        (if negative then -(numeral 10 ds : Int) else (numeral 10 ds : Int), r))
    else none
  | [] => none

/-- Whether a decimal is within the binary64 numbers, and not too large for
them. An exponent far beyond the digits settles it. -/
def isFinite (significand : List Nat) (exponent : Int) : Bool :=
  let n := numeral 10 significand
  if n = 0 || exponent + significand.length < 0 then true
  else if 400 < exponent then false
  else (Binary64.ofDecimal n exponent).isSome

/-- Reads the parts of a float: its sign, its digits and its power of ten. -/
def floatParts : Reader (Bool × List Nat × Int) := fun cs =>
  let (negative, rest) := sign cs
  match wholeDigits rest with
  | none => none
  | some (whole, rest) =>
    match fraction rest with
    | some (part, rest) =>
      let (e, rest') := (exponent rest).getD (0, rest)
      some ((negative, whole ++ part, e - part.length), rest')
    | none => (exponent rest).map (fun (e, rest') => ((negative, whole, e), rest'))

/-- Reads a float that is a decimal. One too large is refused, one too far
below zero is not. -/
def decimalFloat : Reader Unit := fun cs =>
  match floatParts cs with
  | some ((negative, ds, e), rest) => if negative || isFinite ds e then some ((), rest) else none
  | none => none

/-- Reads an infinity or a value that is no number. -/
def namedFloat : Reader Unit := fun cs =>
  let rest := (sign cs).2
  Reader.orElse (Reader.word "inf" ()) (Reader.word "nan" ()) rest

/-- A character of a number, a date or a time. -/
def isFigure (c : Char) : Bool := c.isAlphanum || c = '+' || c = '-' || c = '.' || c = ':' ||
  c = '_' || c = ' '

/-- Reads with `item`, which takes figures, and answers the text that was read. -/
def textOf (item : Reader Unit) : Reader String := fun cs =>
  let (figures, rest) := Reader.span isFigure cs
  (item figures).map (fun r =>
    (String.ofList (figures.take (figures.length - r.2.length)), r.2 ++ rest))

/-! ## Dates and times -/

/-- Reads so many digits. -/
def fixedDigits : (count : Nat) → Reader (List Nat)
  | 0, cs => some ([], cs)
  | _ + 1, [] => none
  | n + 1, c :: rest =>
    match digitIn 10 c, fixedDigits n rest with
    | some d, some (ds, rest') => some (d :: ds, rest')
    | _, _ => none

/-- Reads a number of two digits within bounds. -/
def twoDigits (low high : Nat) : Reader Nat := fun cs =>
  match fixedDigits 2 cs with
  | some (ds, rest) =>
    let n := numeral 10 ds
    if low ≤ n && n ≤ high then some (n, rest) else none
  | none => none

def isLeapYear (year : Nat) : Bool := year % 4 = 0 && (year % 100 ≠ 0 || year % 400 = 0)

def daysInMonth (year month : Nat) : Nat :=
  if month = 2 then (if isLeapYear year then 29 else 28)
  else if month = 4 || month = 6 || month = 9 || month = 11 then 30
  else 31

def date : Reader Unit := fun cs => do
  let (year, rest) ← fixedDigits 4 cs
  let (_, rest) ← Reader.char '-' rest
  let (month, rest) ← twoDigits 1 12 rest
  let (_, rest) ← Reader.char '-' rest
  let (_, rest) ← twoDigits 1 (daysInMonth (numeral 10 year) month) rest
  pure ((), rest)

/-- Skips the fraction of a second. -/
def skipFraction : List Char → List Char
  | '.' :: c :: rest => if c.isDigit then rest.dropWhile Char.isDigit else '.' :: c :: rest
  | cs => cs

def time : Reader Unit := fun cs => do
  let (_, rest) ← twoDigits 0 23 cs
  let (_, rest) ← Reader.char ':' rest
  let (_, rest) ← twoDigits 0 59 rest
  let (_, rest) ← Reader.char ':' rest
  let (_, rest) ← twoDigits 0 60 rest
  pure ((), skipFraction rest)

/-- Reads an offset from UTC. -/
def offset : Reader Unit
  | c :: rest =>
    if c = 'Z' || c = 'z' then some ((), rest)
    else if c = '+' || c = '-' then do
      let (_, rest) ← twoDigits 0 23 rest
      let (_, rest) ← Reader.char ':' rest
      let (_, rest) ← twoDigits 0 59 rest
      pure ((), rest)
    else none
  | [] => none

/-- Reads the time that may follow a date. -/
def timeAfterDate : Reader Unit
  | c :: rest =>
    if c = 'T' || c = 't' || c = ' ' then
      (time rest).map (fun r => (offset r.2).getD ((), r.2))
    else none
  | [] => none

/-- Reads a date, a time, or both. -/
def dateOrTime : Reader Unit := fun cs =>
  match date cs with
  | some (_, rest) => some ((timeAfterDate rest).getD ((), rest))
  | none => time cs

/-! ## Keys -/

def isKeyChar (c : Char) : Bool := c.isAlphanum || c = '_' || c = '-'

/-- Reads one part of a key. -/
def keyPart : Reader String := fun cs =>
  match cs with
  | '"' :: _ => lineString cs
  | '\'' :: _ => lineString cs
  | _ =>
    match Reader.span isKeyChar cs with
    | ([], _) => none
    | (chars, rest) => some (String.ofList chars, rest)

/-- Reads one part of a key and the blanks around it. -/
def spacedKeyPart : Reader String := fun cs =>
  (keyPart (skipBlanks cs)).map (fun r => (r.1, skipBlanks r.2))

/-- The number of parts that a key stays below. -/
def keyLimit : Nat := 80

/-- Reads a key: all its parts but the last, and the last. -/
def key : Reader (List String × String) := fun cs =>
  match spacedKeyPart cs with
  | none => none
  | some (first, rest) =>
    let next : Reader String := fun cs => (Reader.char '.' cs).bind (fun r => spacedKeyPart r.2)
    let (more, rest') := Reader.many next rest
    let parts := first :: more
    if parts.length < keyLimit then some ((parts.dropLast, more.getLastD first), rest') else none

/-! ## Values -/

/-- Reads `=` and a value after a key. -/
def keyValue (value : Reader Toml) : Reader (List String × String × Toml) := fun cs => do
  let ((path, last), rest) ← key cs
  let (_, rest) ← Reader.char '=' rest
  let (v, rest) ← value (skipBlanks rest)
  pure ((path, last, v), rest)

/-- Reads the rest of an array; a comma may follow the last item. -/
def arrayRest (value : Reader Toml) : Reader (List Toml) := fun cs =>
  let item : Reader Toml := fun cs => (value (skipGaps cs)).map (fun r => (r.1, skipGaps r.2))
  match item cs with
  | none => (Reader.char ']' (skipGaps cs)).map (fun r => ([], r.2))
  | some (first, rest) =>
    let next : Reader Toml := fun cs => (Reader.char ',' cs).bind (fun r => item r.2)
    let (more, rest') := Reader.many next rest
    let rest'' := match rest' with
      | ',' :: r => skipGaps r
      | _ => rest'
    (Reader.char ']' rest'').map (fun r => (first :: more, r.2))

/-- Reads the rest of a table in braces, which stands on one line. -/
def inlineRest (value : Reader Toml) : Reader Members := fun cs =>
  match keyValue value cs with
  | none => (Reader.char '\x7d' (skipBlanks cs)).map (fun r => ([], r.2))
  | some (first, rest) =>
    let next : Reader (List String × String × Toml) := fun cs =>
      (Reader.char ',' (skipBlanks cs)).bind (fun r => keyValue value r.2)
    let (more, rest') := Reader.many next rest
    (Reader.char '\x7d' (skipBlanks rest')).bind (fun r =>
      ((first :: more).foldlM (fun ms (path, last, v) => addDotted path last v ms) []).map
        (fun ms => (ms, r.2)))

/-- Reads a value without brackets. -/
def scalar : Reader Toml := fun cs =>
  match cs with
  | '"' :: _ => (stringValue cs).map (fun r => (.string r.1, r.2))
  | '\'' :: _ => (stringValue cs).map (fun r => (.string r.1, r.2))
  | 't' :: _ => Reader.word "true" (.boolean true) cs
  | 'f' :: _ => Reader.word "false" (.boolean false) cs
  | _ =>
    match textOf dateOrTime cs with
    | some (t, rest) => some (.dateTime t, rest)
    | none =>
      match textOf (Reader.orElse decimalFloat namedFloat) cs with
      | some (t, rest) => some (.float t, rest)
      | none => (wholeNumber cs).map (fun r => (.integer r.1, r.2))

/-- Reads a value in which brackets nest at most `depth` deep. -/
def value : (depth : Nat) → Reader Toml
  | 0, cs => scalar cs
  | depth + 1, cs =>
    match cs with
    | '[' :: rest => (arrayRest (value depth) rest).map (fun r => (.array r.1, r.2))
    | '\x7b' :: rest => (inlineRest (value depth) rest).map (fun r => (.table .inline r.1, r.2))
    | _ => scalar cs

/-- How deep brackets may nest. -/
def depthLimit : Nat := 79

/-! ## Documents -/

/-- One line of a document that says something, or several where a value
covers them. -/
inductive Statement
  | blank
  | header (path : List String) (key : String)
  | element (path : List String) (key : String)
  | assign (path : List String) (key : String) (value : Toml)

/-- Reads a statement up to its line end. -/
def statement : Reader Statement := fun cs =>
  match cs with
  | [] => none
  | '[' :: '[' :: rest => do
    let ((path, last), rest) ← key rest
    let (_, rest) ← Reader.text [']', ']'] rest
    let (_, rest) ← lineEnd rest
    pure (.element path last, rest)
  | '[' :: rest => do
    let ((path, last), rest) ← key rest
    let (_, rest) ← Reader.char ']' rest
    let (_, rest) ← lineEnd rest
    pure (.header path last, rest)
  | _ =>
    match lineEnd cs with
    | some (_, rest) => some (.blank, rest)
    | none => do
      let ((path, last, v), rest) ← keyValue (value depthLimit) cs
      let (_, rest) ← lineEnd rest
      pure (.assign path last v, rest)

/-- A document under way, and the path of its open table. -/
structure Draft where
  root : Members
  opened : List String

def Draft.add (d : Draft) : Statement → Option Draft
  | .blank => some d
  | .header path key => (alter (openTable key) path d.root).map (fun root => ⟨root, path ++ [key]⟩)
  | .element path key =>
    (alter (openElement key) path d.root).map (fun root => ⟨root, path ++ [key]⟩)
  | .assign path key v =>
    (alter (addDotted path key v) d.opened d.root).map (fun root => { d with root })

/-- Reads a document; a byte order mark in front does not count. -/
def read (text : String) : Option Members :=
  let cs := match text.toList with
    | '\uFEFF' :: rest => rest
    | cs => cs
  let next : Reader Statement := fun cs => statement (skipBlanks cs)
  let (statements, rest) := Reader.many next cs
  if (skipBlanks rest).isEmpty then
    (statements.foldlM Draft.add ⟨[], []⟩).map (·.root)
  else none

end LifecycleLog.Toml
