-- Pairs that an operation does not name. Two entries that point to each other
-- are a healthy pair, whatever else the store holds: half pairs, crossed
-- entries, entries of owners long gone. An operation reads such entries, but
-- unlinks only those that point back to a text that it names, so every other
-- healthy pair survives it, wherever it fails.
import LifecycleLog.Proofs.Cache.RoutesApart

namespace LifecycleLog

/-- The operation names neither text of the pair. -/
def PairCall.Spares (a b : String) : PairCall → Prop
  | .save x y => x ≠ a ∧ y ≠ b
  | .remove x => x ≠ a
  | .removeReverse y => y ≠ b
  | .get _ => True
  | .getReverse _ => True

namespace PairCache

/-- The entries of the two texts point to each other. -/
structure Healthy (c : PairCache) (keys : Keys) (a b : String) : Prop where
  forward : keys.get? (c.forwardKey a) = some b
  reverse : keys.get? (c.reverseKey b) = some a

variable {c : PairCache} {keys now : Keys} {a b x y : String}

theorem Healthy.swap (h : c.Healthy keys a b) : c.swap.Healthy keys b a := ⟨h.reverse, h.forward⟩

/-! ## Saves -/

theorem Healthy.cleared (hc : c.SidesApart) (h : c.Healthy keys a b) (hx : x ≠ a) (hy : y ≠ b) :
    c.Healthy (c.cleared x y keys) a b := by
  constructor
  · rw [get?_cleared_eq_some]
    refine ⟨fun hs => ?_, h.forward⟩
    have hto : keys.get? (c.forwardKey a) = some y := ((forwardKey_mem_stale hc).1 hs).2.2
    rw [h.forward] at hto
    exact hy (Option.some.inj hto).symm
  · rw [get?_cleared_eq_some]
    refine ⟨fun hs => ?_, h.reverse⟩
    have hto : keys.get? (c.reverseKey b) = some x := ((reverseKey_mem_stale hc).1 hs).2.2
    rw [h.reverse] at hto
    exact hx (Option.some.inj hto).symm

theorem Healthy.half (hc : c.SidesApart) (h : c.Healthy keys a b) (hx : x ≠ a) (hy : y ≠ b) :
    c.Healthy (c.half x y keys) a b := by
  have hcleared := h.cleared hc hx hy
  constructor
  · rw [get?_half, if_neg fun he => hx (forwardKey_inj.1 he).symm]
    exact hcleared.forward
  · rw [get?_half, if_neg (reverseKey_ne_forwardKey hc _ _)]
    exact hcleared.reverse

theorem Healthy.saved (hc : c.SidesApart) (h : c.Healthy keys a b) (hx : x ≠ a) (hy : y ≠ b) :
    c.Healthy (c.saved x y keys) a b := by
  have hhalf := h.half hc hx hy
  constructor
  · rw [get?_saved, if_neg (forwardKey_ne_reverseKey hc _ _)]
    exact hhalf.forward
  · rw [get?_saved, if_neg fun he => hy (reverseKey_inj.1 he).symm]
    exact hhalf.reverse

theorem Healthy.stage (hc : c.SidesApart) (h : c.Healthy keys a b) (hx : x ≠ a) (hy : y ≠ b)
    (hs : c.SaveStage x y keys now) : c.Healthy now a b := by
  cases hs with
  | before => exact h
  | cleared => exact h.cleared hc hx hy
  | half => exact h.half hc hx hy
  | saved => exact h.saved hc hx hy

/-! ## Removals -/

theorem Healthy.removed (hc : c.SidesApart) (h : c.Healthy keys a b) (hx : x ≠ a) :
    c.Healthy (removed (c.forwardKey x) x c.reverseKey keys) a b := by
  constructor
  · rw [get?_removed_eq_some]
    exact ⟨fun he => hx (forwardKey_inj.1 he).symm, fun p _ _ => forwardKey_ne_reverseKey hc _ _,
      h.forward⟩
  · rw [get?_removed_eq_some]
    refine ⟨reverseKey_ne_forwardKey hc _ _, fun p _ hp he => ?_, h.reverse⟩
    -- the entry from `b` would have to point to `x`
    rw [← he, h.reverse] at hp
    exact hx (Option.some.inj hp).symm

/-- A healthy pair that a removal does not name survives it, wherever it stops. -/
theorem Healthy.endures_remove (hc : c.SidesApart) (h : c.Healthy keys a b) (hx : x ≠ a) :
    (c.remove x).Endures (fun now => c.Healthy now a b) (fun _ _ => True) keys := by
  refine (endures_removeEntry c (c.forwardKey x) x c.reverseKey (Or.inl rfl)).imp ?_
    fun _ _ _ => trivial
  rintro now (rfl | rfl)
  · exact h
  · exact h.removed hc hx

/-! ## Any operation -/

/-- A healthy pair that an operation does not name survives it, wherever it stops. -/
theorem Healthy.endures (hc : c.SidesApart) (h : c.Healthy keys a b) {p : PairCall}
    (hp : p.Spares a b) :
    (p.program c).Endures (fun now => c.Healthy now a b) (fun _ _ => True) keys := by
  cases p with
  | save x y =>
    exact (endures_save_once c x y keys).imp (fun now hs => h.stage hc hp.1 hp.2 hs)
      fun _ _ _ => trivial
  | remove x => exact h.endures_remove hc hp
  | removeReverse y =>
    -- a removal from the other side of the cache with its sides exchanged
    exact (h.swap.endures_remove (sidesApart_swap hc) hp).imp (fun _ hn => hn.swap)
      fun _ _ _ => trivial
  | get x =>
    exact (endures_lookup c (c.forwardKey x) x keys).imp (fun _ hn => hn ▸ h) fun _ _ _ => trivial
  | getReverse y =>
    exact (endures_lookup c (c.reverseKey y) y keys).imp (fun _ hn => hn ▸ h) fun _ _ _ => trivial

/-- Operations on one pair spare every other healthy pair. Whatever the keys
are, and whichever of its calls to the store fail, with or without effect: two
entries that point to each other before an operation do so after it, unless the
operation names one of their texts on its side; and the keys outside the cache
are as they were. -/
theorem an_operation_spares_other_healthy_pairs (c : PairCache) (hc : c.SidesApart) (keys : Keys)
    (p : PairCall) (faults : List (Option Fault)) :
    let now := ((p.program c).run Keys.faulted (faults, keys)).2.2
    (∀ a b, c.Healthy keys a b → p.Spares a b → c.Healthy now a b) ∧
      ∀ key, ¬ c.Owns key → now.get? key = keys.get? key := by
  intro now
  refine ⟨fun a b h hp => ((h.endures hc hp).run_faulted faults).1, fun key hkey => ?_⟩
  exact get?_run_faulted_of_keepsTo (c.keepsTo_program p) hkey faults

/-- Both halves of the pair to be saved point into other pairs, one of which is
healthy. The save reads them all and fails at its last call. -/
theorem a_crossed_entry_leads_to_no_harm :
    let keys : Keys := Table.ofList [("fwd:a", "d"), ("fwd:c", "d"), ("rev:d", "c"),
      ("rev:b", "x"), ("fwd:x", "b"), ("other", "1")]
    let c : PairCache := ⟨"test", "fwd", "rev"⟩
    let down : StoreError := .unavailable "down"
    let now := ((c.save "a" "b").run Keys.faulted
      ([none, none, none, none, none, none, some (.refused down)], keys)).2.2
    c.SidesApart ∧ c.Healthy keys "c" "d" ∧ ¬ c.Owns "other" ∧
      now.get? "fwd:a" = some "b" ∧ now.get? "fwd:x" = none ∧
      c.Healthy now "c" "d" ∧ now.get? "other" = some "1" := by
  intro keys c down now
  have hc : c.SidesApart := by decide +kernel
  have h : c.Healthy keys "c" "d" := ⟨by decide +kernel, by decide +kernel⟩
  have hother : ¬ c.Owns "other" := by
    rintro ⟨x, hx | hx⟩ <;> simp [c, forwardKey, reverseKey, ← String.toList_inj] at hx
  have hspares := an_operation_spares_other_healthy_pairs c hc keys (.save "a" "b")
    [none, none, none, none, none, none, some (.refused down)]
  exact ⟨hc, h, hother, by decide +kernel, by decide +kernel,
    hspares.1 "c" "d" h ⟨by decide, by decide⟩, hspares.2 "other" hother⟩

end PairCache

end LifecycleLog
