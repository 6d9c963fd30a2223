-- Readers of text: a reader takes what it reads off the front of a list of
-- characters, or refuses. Loops take no more steps than there are characters.
namespace LifecycleLog

abbrev Reader (α : Type) : Type := List Char → Option (α × List Char)

namespace Reader

variable {α : Type}

/-- Reads items onto those in `done`, the last of which comes first: as long as
there is one to read, and one for each character of `room` at most. -/
def manyOnto (item : Reader α) : (room : List Char) → (done : List α) →
    (cs : List Char) → List α × List Char
  | [], done, cs => (done.reverse, cs)
  | _ :: room, done, cs =>
    match item cs with
    | none => (done.reverse, cs)
    | some (a, rest) => manyOnto item room (a :: done) rest

/-- Reads items as long as there is one to read. An item takes at least one
character, so there are no more items than characters. -/
def many (item : Reader α) (cs : List Char) : List α × List Char := manyOnto item cs [] cs

/-- Reads one given character. -/
def char (c : Char) : Reader Unit
  | [] => none
  | d :: rest => if c = d then some ((), rest) else none

/-- Reads a given text. -/
def text : List Char → Reader Unit
  | [], cs => some ((), cs)
  | _ :: _, [] => none
  | c :: t, d :: rest => if c = d then text t rest else none

/-- Reads a given text and answers `a`. -/
def word (t : String) (a : α) : Reader α := fun cs =>
  (text t.toList cs).map (fun r => (a, r.2))

/-- The first reader that does not refuse. -/
def orElse (p q : Reader α) : Reader α := fun cs => (p cs).orElse (fun _ => q cs)

/-- Splits the longest front of `p`-characters off. -/
def span (p : Char → Bool) (cs : List Char) : List Char × List Char :=
  (cs.takeWhile p, cs.dropWhile p)

end Reader

/-- The value of a digit. -/
def digitValue (c : Char) : Nat := c.toNat - '0'.toNat

/-- The value of a hexadecimal digit of either case. -/
def hexValue? (c : Char) : Option Nat :=
  if c.isDigit then some (digitValue c)
  else if 'a' ≤ c && c ≤ 'f' then some (c.toNat - 'a'.toNat + 10)
  else if 'A' ≤ c && c ≤ 'F' then some (c.toNat - 'A'.toNat + 10)
  else none

/-- The number that digits write in a base. -/
def numeral (base : Nat) (digits : List Nat) : Nat := digits.foldl (fun n d => n * base + d) 0

/-- Reads exactly `count` hexadecimal digits. -/
def hexDigits : (count : Nat) → Reader (List Nat)
  | 0, cs => some ([], cs)
  | _ + 1, [] => none
  | n + 1, c :: rest =>
    match hexValue? c, hexDigits n rest with
    | some d, some (ds, rest') => some (d :: ds, rest')
    | _, _ => none

end LifecycleLog
