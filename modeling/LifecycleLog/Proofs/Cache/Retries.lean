-- Attempts to save a pair, each of which may fail at any of its calls to the
-- store. They never leave the stages of one save, so the attempt that succeeds
-- ends where a single one would have ended, and until then a look-up answers
-- as before the save, as after it, or finds nothing.
import LifecycleLog.Proofs.Cache.Forgetting

namespace LifecycleLog

namespace PairCache

variable {c : PairCache} {a b : String} {keys now : Keys}

/-- An attempt to save the pair: what it answers and the keys it leaves, where
its calls to the store meet the faults one after the other. -/
def attempt (c : PairCache) (a b : String) (faults : List (Option Fault)) (keys : Keys) :
    Except CacheError Unit × Keys :=
  let (r, s) := (c.save a b).run Keys.faulted (faults, keys)
  (r, s.2)

/-- The keys after attempts to save the pair, one after the other. -/
def afterAttempts (c : PairCache) (a b : String) (attempts : List (List (Option Fault)))
    (keys : Keys) : Keys :=
  attempts.foldl (fun keys faults => (c.attempt a b faults keys).2) keys

/-- One attempt, from any stage of a save of the pair. -/
theorem SaveStage.attempt (hc : c.SidesApart) (h : c.SaveStage a b keys now)
    (faults : List (Option Fault)) : c.SaveStage a b keys (c.attempt a b faults now).2 ∧
      ((c.attempt a b faults now).1 = .ok () →
        (c.attempt a b faults now).2 = c.saved a b keys) :=
  (h.endures hc).run_faulted faults

theorem stage_afterAttempts (hc : c.SidesApart) (attempts : List (List (Option Fault))) :
    c.SaveStage a b keys (c.afterAttempts a b attempts keys) := by
  have hrun (now : Keys) (h : c.SaveStage a b keys now) :
      c.SaveStage a b keys (c.afterAttempts a b attempts now) := by
    induction attempts generalizing now with
    | nil => exact h
    | cons faults rest ih => exact ih _ (h.attempt hc faults).1
  exact hrun keys .before

/-- A stage has each entry as it was, as it is to be, or not at all. -/
theorem SaveStage.get?_eq (hc : c.SidesApart) (h : c.SaveStage a b keys now) (k : String) :
    now.get? k = keys.get? k ∨ now.get? k = (c.saved a b keys).get? k ∨ now.get? k = none := by
  have hcleared : (c.cleared a b keys).get? k = keys.get? k ∨
      (c.cleared a b keys).get? k = none := by
    rw [get?_cleared]
    split
    · exact Or.inr rfl
    · exact Or.inl rfl
  cases h with
  | before => exact Or.inl rfl
  | cleared => exact hcleared.imp_right Or.inr
  | half =>
    by_cases hk : k = c.forwardKey a
    · subst hk
      rw [get?_half, if_pos rfl, get?_saved_forwardKey hc]
      exact Or.inr (Or.inl rfl)
    · rw [get?_half, if_neg hk]
      exact hcleared.imp_right Or.inr
  | saved => exact Or.inr (Or.inl rfl)

theorem run_lookup_eq (c : PairCache) (key raw : String) (keys : Keys) :
    (Keys.run (c.lookup key raw) keys).1 = match keys.get? key with
      | some value => .ok value
      | none => .error (.notFound c.name raw) := by
  simp only [lookup, run_orFail, Keys.answer]
  cases keys.get? key <;> rfl

theorem SaveStage.lookup_eq (hc : c.SidesApart) (h : c.SaveStage a b keys now) (key raw : String) :
    (Keys.run (c.lookup key raw) now).1 = (Keys.run (c.lookup key raw) keys).1 ∨
      (Keys.run (c.lookup key raw) now).1
        = (Keys.run (c.lookup key raw) (c.saved a b keys)).1 ∨
      (Keys.run (c.lookup key raw) now).1 = .error (.notFound c.name raw) := by
  simp only [run_lookup_eq]
  obtain hk | hk | hk := h.get?_eq hc key
  · exact Or.inl (by rw [hk])
  · exact Or.inr (Or.inl (by rw [hk]))
  · exact Or.inr (Or.inr (by rw [hk]))

/-- A save that is retried until it succeeds is one save. However many attempts
went wrong, and wherever: the keys are those that a save with no failure makes of
the first ones as soon as an attempt succeeds, which it does once nothing fails;
and until then a look-up from either side answers as at first, as in the end, or
that there is no entry. -/
theorem a_save_retried_until_it_succeeds_is_one_save (c : PairCache) (hc : c.SidesApart)
    (a b : String) (keys : Keys) (attempts : List (List (Option Fault))) :
    let now := c.afterAttempts a b attempts keys
    let done := (Keys.run (c.save a b) keys).2
    (∀ faults, (c.attempt a b faults now).1 = .ok () → (c.attempt a b faults now).2 = done) ∧
      Keys.run (c.save a b) now = (.ok (), done) ∧
      (∀ x, (Keys.run (c.get x) now).1 = (Keys.run (c.get x) keys).1 ∨
        (Keys.run (c.get x) now).1 = (Keys.run (c.get x) done).1 ∨
        (Keys.run (c.get x) now).1 = .error (.notFound c.name x)) ∧
      ∀ y, (Keys.run (c.getReverse y) now).1 = (Keys.run (c.getReverse y) keys).1 ∨
        (Keys.run (c.getReverse y) now).1 = (Keys.run (c.getReverse y) done).1 ∨
        (Keys.run (c.getReverse y) now).1 = .error (.notFound c.name y) := by
  intro now done
  have hnow : c.SaveStage a b keys now := stage_afterAttempts hc attempts
  have hdone : done = c.saved a b keys := congrArg Prod.snd (run_save c a b keys)
  rw [hdone]
  refine ⟨fun faults hok => (hnow.attempt hc faults).2 hok, ?_, fun x => ?_, fun y => ?_⟩
  · rw [run_save, (hnow.onward hc).2.2]
  · exact hnow.lookup_eq hc (c.forwardKey x) x
  · exact hnow.lookup_eq hc (c.reverseKey y) y

/-- Two pairs of which a save takes one half each. The first attempt deletes
the other halves without learning of it, the second writes one entry only. -/
theorem a_double_move_is_retried :
    let keys := thingPairs.after [.save "k1" "t1", .save "k2" "t2"] ∅
    let lost : StoreError := .unavailable "lost"
    let now := thingPairs.afterAttempts "k1" "t2"
      [[none, none, none, none, some (.unreported lost)],
        [none, none, none, none, none, some (.refused lost)]] keys
    thingPairs.SidesApart ∧ (Keys.run (thingPairs.getReverse "t1") now).1.toOption = none ∧
      (Keys.run (thingPairs.get "k1") now).1 = .ok "t2" ∧
      thingPairs.attempt "k1" "t2" [] now = (.ok (), (Keys.run (thingPairs.save "k1" "t2") keys).2)
    := by
  intro keys lost now
  have h := a_save_retried_until_it_succeeds_is_one_save thingPairs sidesApart_thingPairs "k1" "t2"
    keys [[none, none, none, none, some (.unreported lost)],
      [none, none, none, none, none, some (.refused lost)]]
  have hok : (thingPairs.attempt "k1" "t2" [] now).1 = .ok () := by decide +kernel
  refine ⟨sidesApart_thingPairs, by decide +kernel, by decide +kernel, ?_⟩
  exact Prod.ext hok (h.1 [] hok)

end PairCache

end LifecycleLog
