-- Reads that wait for entries. A reader looks when it begins, whenever others
-- have had their turn, and at its deadline. It tries again only if something
-- was appended since it last looked, and an append wakes it even then.
import LifecycleLog.Store.Call

namespace LifecycleLog

/-- A try to read entries. -/
abbrev Attempt (ω : Type) : Type := ω → Except StoreError (List Entry) × ω

/-! ## Vigils -/

/-- A wait for entries: when it gives up, and how many appends its reader
knows of; `none` before the first try. -/
structure Vigil where
  deadline : Nat
  seen : Option Nat
  deriving DecidableEq, Repr

namespace Vigil

variable {ω : Type}

/-- The answer at a moment at which there is nothing to read. -/
def nothing (v : Vigil) (now : Nat) : Option (Except StoreError (List Entry)) :=
  if v.deadline ≤ now then some (.ok []) else none

/-- Looks for entries; no answer while the reader goes on waiting. `appended`
counts the appends to all streams. A reader that looks after its deadline
missed nothing before it, and does not try again. -/
def look (appended : ω → Nat) (attempt : Attempt ω) (now : Nat) (v : Vigil) (w : ω) :
    Option (Except StoreError (List Entry)) × Vigil × ω :=
  if v.deadline < now || v.seen = some (appended w) then (v.nothing now, v, w)
  else
    match attempt w with
    | (.ok [], w') => (v.nothing now, { v with seen := some (appended w') }, w')
    | (answer, w') => (some answer, v, w')

end Vigil

end LifecycleLog
