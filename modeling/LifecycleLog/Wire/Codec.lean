-- Values as bytes: numbers of fixed width with the low byte first, lengths
-- before texts and lists, rows of a table in key order, tags of 32 bits.
-- A decoder takes a value off the front of the bytes.
import LifecycleLog.Store.Call

namespace LifecycleLog.Wire

/-! ## Encoding -/

/-- A number in `width` bytes, low byte first. -/
def littleEndian : (width : Nat) → Nat → List UInt8
  | 0, _ => []
  | width + 1, n => UInt8.ofNat (n % 256) :: littleEndian width (n / 256)

def encodeU32 (n : Nat) : List UInt8 := littleEndian 4 n

def encodeU64 (n : Nat) : List UInt8 := littleEndian 8 n

def encodeText (s : String) : List UInt8 := encodeU64 (Utf8.size s) ++ Utf8.encode s

def encodeList {α : Type} (item : α → List UInt8) (xs : List α) : List UInt8 :=
  encodeU64 xs.length ++ xs.flatMap item

def encodeBool (b : Bool) : List UInt8 := [if b then 1 else 0]

def encodeOption {α : Type} (item : α → List UInt8) : Option α → List UInt8
  | none => [0]
  | some a => 1 :: item a

def encodeSpan (d : Span) : List UInt8 := encodeU64 d.seconds ++ encodeU32 d.subNanos

def encodeFields (fields : Fields) : List UInt8 :=
  encodeList (fun r => encodeText r.1 ++ encodeText r.2) fields.rows

/-! ## Decoding -/

abbrev Decoder : Type → Type := StateT (List UInt8) (Except Malformed)

/-- Takes so many bytes off. -/
def takeBytes (count : Nat) : Decoder (List UInt8) := fun bytes =>
  let front := bytes.take count
  if front.length < count then .error .short else .ok (front, bytes.drop count)

/-- The number that bytes write, low byte first. -/
def ofLittleEndian : List UInt8 → Nat
  | [] => 0
  | b :: rest => b.toNat + 256 * ofLittleEndian rest

def decodeNumber (width : Nat) : Decoder Nat := do
  let bytes ← takeBytes width
  pure (ofLittleEndian bytes)

def decodeU32 : Decoder Nat := decodeNumber 4

def decodeU64 : Decoder Nat := decodeNumber 8

def decodeText : Decoder String := do
  let size ← decodeU64
  let bytes ← takeBytes size
  match Utf8.decode bytes with
  | .ok s => pure s
  | .error fault => throw (.badText fault)

/-- Decodes so many items. -/
def decodeMany {α : Type} (item : Decoder α) : (count : Nat) → Decoder (List α)
  | 0 => pure []
  | count + 1 => do
    let a ← item
    let as ← decodeMany item count
    pure (a :: as)

def decodeList {α : Type} (item : Decoder α) : Decoder (List α) := do
  let count ← decodeU64
  decodeMany item count

def decodeBool : Decoder Bool := do
  let b ← decodeNumber 1
  match b with
  | 0 => pure false
  | 1 => pure true
  | n => throw (.badBool n)

def decodeOption {α : Type} (item : Decoder α) : Decoder (Option α) := do
  let b ← decodeNumber 1
  match b with
  | 0 => pure none
  | 1 => do
    let a ← item
    pure (some a)
  | n => throw (.badOption n)

/-- Nanoseconds of a second or more are carried over to the seconds. -/
def decodeSpan : Decoder Span := do
  let seconds ← decodeU64
  let nanos ← decodeU32
  match Span.ofParts? seconds nanos with
  | some d => pure d
  | none => throw .spanOverflow

def decodeFields : Decoder Fields := do
  let rows ← decodeList (do
    let key ← decodeText
    let value ← decodeText
    pure (key, value))
  pure (Table.ofList rows)

/-- Decodes a tag out of `count` alternatives. -/
def unknownTag {α : Type} (found count : Nat) : Decoder α := throw (.unknownTag found count)

end LifecycleLog.Wire
