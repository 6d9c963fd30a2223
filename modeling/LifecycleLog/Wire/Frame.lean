-- Frames: a body behind its length, four bytes with the high byte first. A
-- body has at most 16 MiB. Bytes after the message in a body are ignored.
import LifecycleLog.Wire.Message

namespace LifecycleLog.Wire

/-- The largest body. -/
def maxFrame : Nat := 16 * 1024 * 1024

/-- The length of a body as its frame states it. -/
def frameHead (size : Nat) : List UInt8 := (littleEndian 4 size).reverse

/-- The frame of a body. -/
def frame (body : List UInt8) : Except StoreError (List UInt8) :=
  let size := body.length
  if maxFrame < size then .error (.frameTooLarge size) else .ok (frameHead size ++ body)

/-- Takes one body off a byte stream that ends with these bytes; answers what
is left of the stream too. -/
def takeFrame (bytes : List UInt8) : Except StoreError (List UInt8) × List UInt8 :=
  let head := bytes.take 4
  if head.length < 4 then (.error (.io .ended), [])
  else
    let size := ofLittleEndian head.reverse
    let rest := bytes.drop 4
    let body := rest.take size
    if maxFrame < size then (.error (.frameTooLarge size), rest)
    else if body.length < size then (.error (.io .cutOff), [])
    else (.ok body, rest.drop size)

/-- The message of a body. -/
def decodeBody {α : Type} (decoder : Decoder α) (body : List UInt8) : Except StoreError α :=
  match decoder body with
  | .ok (a, _) => .ok a
  | .error cause => .error (.malformed cause)

/-- Reads one message off a byte stream. -/
def readFrame {α : Type} (decoder : Decoder α) (bytes : List UInt8) :
    Except StoreError α × List UInt8 :=
  match takeFrame bytes with
  | (.ok body, rest) => (decodeBody decoder body, rest)
  | (.error e, rest) => (.error e, rest)

/-- A frame takes its length off the stream. -/
theorem takeFrame_rest_lt {bytes body rest : List UInt8} (h : takeFrame bytes = (.ok body, rest)) :
    rest.length < bytes.length := by
  simp only [takeFrame, List.length_take] at h
  split at h
  · simp at h
  · split at h
    · simp at h
    · split at h
      · simp at h
      · simp only [Prod.mk.injEq] at h
        rw [← h.2, List.length_drop, List.length_drop]
        omega

/-- Reads messages to the end of a stream, or to an error that loses step;
the last result is that error. -/
def readAll {α : Type} (decoder : Decoder α) (bytes : List UInt8) : List (Except StoreError α) :=
  match h : takeFrame bytes with
  | (.error e, _) => [.error e]
  | (.ok body, rest) =>
    have := takeFrame_rest_lt h
    decodeBody decoder body :: readAll decoder rest
termination_by bytes.length

end LifecycleLog.Wire
