-- Runs of calls on any store, and two stores in lockstep: where each call
-- keeps a relation between their states, and looks the same on both, whole
-- runs look the same.
import LifecycleLog.Store.Call

namespace LifecycleLog

/-- A call and its result. -/
structure Outcome where
  call : Call
  result : Except StoreError call.Answer

namespace Backend

variable {σ τ γ : Type}

/-- Makes calls one after the other, each at its time. Of each call there is
the outcome and the state that it left. -/
def trail (b : Backend σ) : List (Nat × Call) → σ → List (Outcome × σ)
  | [], _ => []
  | (now, c) :: rest, s =>
    (⟨c, (b.call now c s).1⟩, (b.call now c s).2) :: b.trail rest (b.call now c s).2

/-- The outcomes of calls on a store. -/
def outcomes (b : Backend σ) (calls : List (Nat × Call)) (s : σ) : List Outcome :=
  (b.trail calls s).map (·.1)

/-- The state after more calls. -/
def later (b : Backend σ) (calls : List (Nat × Call)) (s : σ) : σ :=
  calls.foldl (fun s x => (b.call x.1 x.2 s).2) s

theorem later_append (b : Backend σ) (calls more : List (Nat × Call)) (s : σ) :
    b.later (calls ++ more) s = b.later more (b.later calls s) :=
  List.foldl_append

/-- `Held` relates two states while the given calls are still to come. -/
theorem map_trail_eq {b : Backend σ} {b' : Backend τ} {view : Outcome × σ → γ}
    {view' : Outcome × τ → γ} (Held : List (Nat × Call) → σ → τ → Prop)
    (step : ∀ now c rest s t, Held ((now, c) :: rest) s t →
      view (⟨c, (b.call now c s).1⟩, (b.call now c s).2)
        = view' (⟨c, (b'.call now c t).1⟩, (b'.call now c t).2) ∧
      Held rest (b.call now c s).2 (b'.call now c t).2)
    {calls : List (Nat × Call)} {s : σ} {t : τ} (h : Held calls s t) :
    (b.trail calls s).map view = (b'.trail calls t).map view' := by
  induction calls generalizing s t with
  | nil => rfl
  | cons x rest ih =>
    obtain ⟨now, c⟩ := x
    obtain ⟨hview, hrest⟩ := step now c rest s t h
    simp only [trail, List.map_cons, hview, ih hrest]

end Backend

end LifecycleLog
