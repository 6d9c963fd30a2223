-- Route maps as a replay of a log. Handling an event may fail or be stopped
-- anywhere and be tried again any number of times: once an attempt succeeds,
-- the keys are those of one attempt with no failure.
import LifecycleLog.Projection
import LifecycleLog.Proofs.Cache.Stages

namespace LifecycleLog

/-- The event of a record, if it is one. -/
def Event.ofRecord? (fields : Fields) : Option Event :=
  match Event.decode fields with
  | .ok found => found
  | .error _ => none

namespace Projection

/-! ## Replay -/

/-- The keys after an entry is handled with no failure; one that is no event
changes nothing. -/
def apply (p : RouteClasses) (keys : Keys) (fields : Fields) : Keys :=
  match Event.ofRecord? fields with
  | some event => (Keys.run (handle p event) keys).2
  | none => keys

/-- The keys after the entries of a log are handled once each, in order. -/
def replay (p : RouteClasses) (log : List Fields) : Keys := log.foldl (apply p) ∅

theorem replay_snoc (p : RouteClasses) (log : List Fields) (fields : Fields) :
    replay p (log ++ [fields]) = apply p (replay p log) fields := by
  simp [replay]

theorem replay_take_succ (p : RouteClasses) {log : List Fields} {n : Nat} {fields : Fields}
    (h : log[n]? = some fields) :
    replay p (log.take (n + 1)) = apply p (replay p (log.take n)) fields := by
  rw [List.take_add_one, h]
  exact replay_snoc p _ _

/-! ## Attempts at an event -/

theorem ofCache_eq_ok {α : Type} {r : Except CacheError α} :
    EventError.ofCache r = .ok () ↔ ∃ a, r = .ok a := by
  cases r with
  | ok a => exact ⟨fun _ => ⟨a, rfl⟩, fun _ => rfl⟩
  | error e => exact ⟨fun h => (nomatch h), fun ⟨a, h⟩ => (nomatch h)⟩

theorem settles_route (c : RouteClass) (id : String) (details : Details) (keys : Keys) :
    (route c id details).Settles (Keys.run (route c id details) keys).2 keys := by
  unfold route
  split
  · rename_i foreign _
    have hc := PairCache.sidesApart_routes c.routes
    refine ⟨c.routes.pairs.SaveStage foreign id keys, .before, fun mid h => ?_⟩
    refine .bind_done ((h.endures hc).imp (fun _ hk => hk) ?_)
    intro r k hk hr
    rw [run_bind_done]
    obtain ⟨_, rfl⟩ := ofCache_eq_ok.1 hr
    rw [hk rfl]
    exact (congrArg Prod.snd (PairCache.run_save _ _ _ _)).symm
  · exact settles_done keys

theorem settles_remove (m : RouteMap) (id : String) (keys : Keys) :
    ((m.remove id).bind fun r => .done (EventError.ofCache r)).Settles
      (Keys.run ((m.remove id).bind fun r => .done (EventError.ofCache r)) keys).2 keys := by
  have hrun : (Keys.run (m.remove id) keys).2
      = PairCache.removed (m.pairs.reverseKey id) id m.pairs.forwardKey keys :=
    congrArg Prod.snd (PairCache.run_removeEntry _ _ _ _ _)
  refine ⟨fun k => k = keys ∨ k = PairCache.removed (m.pairs.reverseKey id) id
    m.pairs.forwardKey keys, Or.inl rfl, fun mid h => ?_⟩
  refine .bind_done ((PairCache.endures_removeEntry _ _ _ _ h).imp (fun _ hk => hk) ?_)
  intro r k hk hr
  rw [run_bind_done, hrun]
  exact hk (ofCache_eq_ok.1 hr)

theorem settles_handle (p : RouteClasses) (event : Event) (keys : Keys) :
    (handle p event).Settles (Keys.run (handle p event) keys).2 keys := by
  cases event with
  | created kind id owner details => exact settles_route _ _ _ _
  | updated kind id details => exact settles_route _ _ _ _
  | removed kind id => exact settles_remove _ _ _
  | connected channelId thingId => exact settles_done keys
  | disconnected channelId thingId => exact settles_done keys

/-! ## What is due -/

/-- The keys are those of the first `settled` entries, but for attempts at the
next one. -/
def Due (p : RouteClasses) (log : List Fields) (settled : Nat) (keys : Keys) : Prop :=
  match log[settled]?.bind Event.ofRecord? with
  | some event => (handle p event).Settles (replay p (log.take (settled + 1))) keys
  | none => keys = replay p (log.take settled)

variable {p : RouteClasses} {log : List Fields} {settled : Nat} {keys : Keys}

theorem due_event {fields : Fields} {event : Event} (hf : log[settled]? = some fields)
    (he : Event.ofRecord? fields = some event) : Due p log settled keys ↔
      (handle p event).Settles (replay p (log.take (settled + 1))) keys := by
  rw [Due, hf, Option.bind_some, he]

theorem due_noEvent {fields : Fields} (hf : log[settled]? = some fields)
    (he : Event.ofRecord? fields = none) :
    Due p log settled keys ↔ keys = replay p (log.take (settled + 1)) := by
  rw [Due, hf, Option.bind_some, he, replay_take_succ p hf, apply, he]

theorem due_end (hf : log[settled]? = none) :
    Due p log settled keys ↔ keys = replay p (log.take settled) := by
  rw [Due, hf, Option.bind_none]

/-- The keys of the settled entries are a place to start from. -/
theorem due_of_eq (h : keys = replay p (log.take settled)) : Due p log settled keys := by
  cases hf : log[settled]? with
  | none => exact (due_end hf).2 h
  | some fields =>
    cases he : Event.ofRecord? fields with
    | none =>
      rw [due_noEvent hf he, replay_take_succ p hf, apply, he]
      exact h
    | some event =>
      rw [due_event hf he, replay_take_succ p hf, apply, he, h]
      exact settles_handle p event _

/-- What comes later in the log does not matter to an entry. -/
theorem due_append_iff (h : settled < log.length) (more : List Fields) :
    Due p (log ++ more) settled keys ↔ Due p log settled keys := by
  unfold Due
  rw [List.getElem?_append_left h, List.take_append_of_le_length h,
    List.take_append_of_le_length (Nat.le_of_lt h)]

theorem Due.append (h : Due p log settled keys) (hle : settled ≤ log.length) (more : List Fields) :
    Due p (log ++ more) settled keys := by
  rcases Nat.lt_or_eq_of_le hle with hlt | rfl
  · exact (due_append_iff hlt more).2 h
  · apply due_of_eq
    rw [due_end (List.getElem?_eq_none (Nat.le_refl _)), List.take_length] at h
    rw [List.take_left]
    exact h

end Projection

end LifecycleLog
