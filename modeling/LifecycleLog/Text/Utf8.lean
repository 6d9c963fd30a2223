-- Text as UTF-8 bytes. Reading refuses every byte string that no text is
-- written as, and says where the first fault stands and how long it is.
namespace LifecycleLog.Utf8

/-- The bytes of a text. -/
def encode (s : String) : List UInt8 := s.toByteArray.data.toList

/-- How many bytes a text takes. -/
def size (s : String) : Nat := s.utf8ByteSize

/-- Why bytes are not text: `length` bytes from `index` on start no
character, or the bytes end inside the character that starts at `index`. -/
inductive Fault
  | invalid (length index : Nat)
  | incomplete (index : Nat)
  deriving DecidableEq, Repr

def Fault.message : Fault → String
  | .invalid length index => s!"invalid utf-8 sequence of {length} bytes from index {index}"
  | .incomplete index => s!"incomplete utf-8 byte sequence from index {index}"

/-- A byte that continues a character. -/
def isContinuation (b : UInt8) : Bool := 0x80 ≤ b && b ≤ 0xBF

/-- How many bytes a character has that starts with `b`; 0 if none does. -/
def width (b : UInt8) : Nat :=
  if b ≤ 0x7F then 1
  else if 0xC2 ≤ b && b ≤ 0xDF then 2
  else if 0xE0 ≤ b && b ≤ 0xEF then 3
  else if 0xF0 ≤ b && b ≤ 0xF4 then 4
  else 0

/-- The second byte of a longer character. The ends of the range keep out
overlong forms, surrogates and code points above U+10FFFF. -/
def isSecond (first b : UInt8) : Bool :=
  let low : UInt8 := if first = 0xE0 then 0xA0 else if first = 0xF0 then 0x90 else 0x80
  let high : UInt8 := if first = 0xED then 0x9F else if first = 0xF4 then 0x8F else 0xBF
  low ≤ b && b ≤ high

/-- The low six bits of a byte, which is what a continuation carries. -/
def payload (b : UInt8) : Nat := b.toNat % 64

/-- A character under way: where it starts, how many of its bytes are read,
how many are due, the bits read so far, and what its next byte may be. -/
structure Opening where
  start : Nat
  read : Nat
  due : Nat
  bits : Nat
  next : UInt8 → Bool

/-- The character that a first byte of `width` 2 to 4 opens at `index`. -/
def Opening.ofFirst (index : Nat) (a : UInt8) : Opening where
  start := index
  read := 1
  due := width a - 1
  bits := a.toNat % Nat.pow 2 (7 - width a)
  next := isSecond a

/-- Reads the characters of bytes, the first of which stands at `index`. -/
def chars : Option Opening → (index : Nat) → List UInt8 → Except Fault (List Char)
  | none, _, [] => .ok []
  | some o, _, [] => .error (.incomplete o.start)
  | none, index, a :: rest =>
    if width a = 0 then .error (.invalid 1 index)
    else if width a = 1 then (chars none (index + 1) rest).map (Char.ofNat a.toNat :: ·)
    else chars (some (.ofFirst index a)) (index + 1) rest
  | some o, index, b :: rest =>
    if o.next b then
      if o.due = 1 then
        (chars none (index + 1) rest).map (Char.ofNat (o.bits * 64 + payload b) :: ·)
      else
        chars (some ⟨o.start, o.read + 1, o.due - 1, o.bits * 64 + payload b, isContinuation⟩)
          (index + 1) rest
    else .error (.invalid o.read o.start)

def decode (bytes : List UInt8) : Except Fault String := (chars none 0 bytes).map String.ofList

theorem encode_eq (s : String) : encode s = s.toList.flatMap String.utf8EncodeChar := by
  unfold encode
  conv => lhs; rw [← String.ofList_toList (s := s)]
  rw [String.toByteArray_ofList]
  simp [List.utf8Encode, List.data_toByteArray]

theorem length_encode (s : String) : (encode s).length = size s := by
  rfl

end LifecycleLog.Utf8
