-- The scalar keys of a store: a table from keys to values.
import LifecycleLog.Store.Call

namespace LifecycleLog

/-- The keys and their values. -/
abbrev Keys := Table String String

namespace Keys

/-- Deletes each key in turn and counts those that were there. -/
def deleteAll : List String → Keys → Nat × Keys
  | [], keys => (0, keys)
  | k :: rest, keys =>
    let (n, keys') := deleteAll rest (keys.erase k)
    (if keys.contains k then n + 1 else n, keys')

/-- Answers a call; none of them fails. -/
def answer : (c : KeyCall) → Keys → c.Answer × Keys
  | .get key, keys => (keys.get? key, keys)
  | .set key value, keys => ((), keys.insert key value)
  | .delete ks, keys => deleteAll ks keys

/-- Runs a program of key calls with no failure. -/
def run {α : Type} (p : KeyProgram α) (keys : Keys) : α × Keys :=
  p.run (fun c keys => (.ok (answer c keys).1, (answer c keys).2)) keys

theorem get?_deleteAll (ks : List String) (keys : Keys) (k : String) :
    (deleteAll ks keys).2.get? k = if k ∈ ks then none else keys.get? k := by
  induction ks generalizing keys with
  | nil => simp [deleteAll]
  | cons j rest ih =>
    simp only [deleteAll, ih, Table.get?_erase, List.mem_cons]
    by_cases hj : k = j <;> by_cases hr : k ∈ rest <;> simp [hj, hr]

end Keys

end LifecycleLog
