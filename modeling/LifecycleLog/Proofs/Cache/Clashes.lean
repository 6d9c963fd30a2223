-- Operations on one pair cache that must not overlap. Each two of them have
-- turns after which an entry is not answered from the other side: one client
-- is late with what it decided before the other client changed the pairs.
import LifecycleLog.Proofs.Cache.SharedPairs

namespace LifecycleLog

namespace PairCache

variable {β : Type} {c : PairCache} {keys : Keys} {a b x y : String} {p q : PairCall}

/-! ## A client that is late -/

section Late

variable {ε α : Type} {wrap : StoreError → ε} {other : KeyProgram β} {fin : Keys}

theorem canLeave_pointingBack {candidates : List (String × String)}
    {next : List String → KeyProgram (Except ε α)}
    (h : Keys.CanLeave (next (pointing keys candidates)) other keys fin) :
    Keys.CanLeave (pointingBack wrap candidates next) other keys fin := by
  induction candidates generalizing next with
  | nil => exact h
  | cons p rest ih =>
    obtain ⟨key, owner⟩ := p
    rw [pointing_cons] at h
    exact .orFail (ih h)

theorem canLeave_deleteAny {ks : List String} {next : KeyProgram (Except ε α)}
    (h : Keys.CanLeave next other (Keys.deleteAll ks keys).2 fin) :
    Keys.CanLeave (deleteAny wrap ks next) other keys fin := by
  cases ks with
  | nil => exact h
  | cons k rest => exact .orFail h

/-- The last call of a save comes after all that the other client does. -/
theorem canLeave_late_entry (c : PairCache) (a b : String) (other : KeyProgram β) (keys : Keys) :
    Keys.CanLeave (c.save a b) other keys
      ((Keys.run other (c.half a b keys)).2.insert (c.reverseKey b) a) := by
  refine .orFail (.orFail (canLeave_pointingBack (canLeave_deleteAny (.orFail ?_))))
  exact Keys.CanLeave.second_whole rfl

/-- So do all calls that change the keys. -/
theorem canLeave_late_writes (c : PairCache) (a b : String) (other : KeyProgram β) (keys : Keys) :
    Keys.CanLeave (c.save a b) other keys
      (((Keys.deleteAll (c.stale a b keys) (Keys.run other keys).2).2.insert (c.forwardKey a)
        b).insert (c.reverseKey b) a) := by
  refine .orFail (.orFail (canLeave_pointingBack (Keys.CanLeave.second_whole ?_)))
  rw [run_deleteAny]
  rfl

/-- Or the save looks at the entry of the old partner of `a` before the other
client is there, and at that of the old partner of `b` after it is done. -/
theorem canLeave_late_look {other : KeyProgram β} (hy : keys.get? (c.forwardKey a) = some y)
    (hyb : y ≠ b) (hback : keys.get? (c.reverseKey y) = some a)
    (hx : keys.get? (c.reverseKey b) = some x) (hxa : x ≠ a)
    (hgone : (Keys.run other keys).2.get? (c.forwardKey x) ≠ some b) :
    Keys.CanLeave (c.save a b) other keys
      (((Keys.deleteAll [c.reverseKey y] (Keys.run other keys).2).2.insert (c.forwardKey a)
        b).insert (c.reverseKey b) a) := by
  refine .orFail (.orFail ?_)
  simp only [Keys.answer, hy, hx, unlinked, hyb, hxa, if_false, List.singleton_append, pointingBack]
  refine .orFail (Keys.CanLeave.second_whole ?_)
  simp only [run_orFail, run_deleteAny, Keys.answer, hback, if_true, hgone, if_false]
  rfl

/-- The deletion of a pair comes after all that the other client does. -/
theorem canLeave_late_removal {own value partner : String} {keyOf : String → String}
    (ho : keys.get? own = some partner) (hk : keys.get? (keyOf partner) = some value)
    (other : KeyProgram β) :
    Keys.CanLeave (c.removeEntry own value keyOf) other keys
      (Keys.deleteAll [own, keyOf partner] (Keys.run other keys).2).2 := by
  refine .orFail ?_
  simp only [Keys.answer, ho]
  refine .orFail ?_
  rw [show (if (Keys.answer (.get (keyOf partner)) keys).1 = some value then
    [own, keyOf partner] else [own]) = [own, keyOf partner] from if_pos hk]
  exact Keys.CanLeave.second_whole rfl

end Late

/-! ## What a late client breaks -/

/-- Some turns leave entries that are not inverse of each other. -/
def Clash (c : PairCache) (keys : Keys) (p q : PairCall) : Prop :=
  ∃ fin, Keys.CanLeave (p.program c) (q.program c) keys fin ∧ ¬ c.Inverse fin

theorem Clash.symm (h : c.Clash keys p q) : c.Clash keys q p := by
  obtain ⟨fin, hf, hi⟩ := h
  exact ⟨fin, hf.symm, hi⟩

/-- What the other operation makes of a half written pair has to be what the
last call of the save fits in. -/
theorem clash_of_half (hc : c.SidesApart) {z : String}
    (h : ¬ ((Keys.run (q.program c) (c.half a b keys)).2.get? (c.forwardKey z) = some b ↔ z = a)) :
    c.Clash keys (.save a b) q := by
  refine ⟨_, canLeave_late_entry c a b (q.program c) keys, fun hi => h ?_⟩
  have hz := hi z b
  rw [Table.get?_insert, if_neg (forwardKey_ne_reverseKey hc _ _), Table.get?_insert, if_pos rfl,
    Option.some.injEq] at hz
  exact hz.trans eq_comm

theorem clash_save_remove (hc : c.SidesApart) (a b : String) (keys : Keys) :
    c.Clash keys (.save a b) (.remove a) := by
  apply clash_of_half hc (z := a)
  simp only [PairCall.program, PairCache.remove, run_removeEntry, get?_removed_own]
  simp

theorem clash_save_save_left (hc : c.SidesApart) (hy : y ≠ b) :
    c.Clash keys (.save a b) (.save a y) := by
  apply clash_of_half hc (z := a)
  simp only [PairCall.program, run_save, get?_saved_forwardKey hc]
  simp [hy]

theorem clash_save_save_right (hc : c.SidesApart) (hx : x ≠ a) :
    c.Clash keys (.save a b) (.save x b) := by
  apply clash_of_half hc (z := x)
  simp only [PairCall.program, run_save, get?_saved_forwardKey hc]
  simp [hx]

/-- The pair is there, and saved again while it is removed. -/
theorem clash_save_removeReverse (hc : c.SidesApart)
    (hb : keys.get? (c.reverseKey b) = some a) :
    c.Clash keys (.save a b) (.removeReverse b) := by
  apply clash_of_half hc (z := a)
  have hf : (c.half a b keys).get? (c.forwardKey a) = some b := by
    rw [get?_half, if_pos rfl]
  have hr : (c.half a b keys).get? (c.reverseKey b) = some a := by
    rw [get?_half, if_neg (reverseKey_ne_forwardKey hc _ _), get?_cleared_reverseKey hc, hb]
  simp only [PairCall.program, PairCache.removeReverse, run_removeEntry, get?_removed_eq_some]
  simp [hf, hr]

/-- A pair that shares one side with the saved one, removed too late, takes an
entry of the saved pair with it. -/
theorem clash_of_late_removal (hc : c.SidesApart) {ks : List String}
    (hks : c.forwardKey a ∈ ks ↔ c.reverseKey b ∉ ks)
    (h : Keys.CanLeave (q.program c) (c.save a b) keys
      (Keys.deleteAll ks (Keys.run (c.save a b) keys).2).2) :
    c.Clash keys (.save a b) q := by
  refine ⟨_, h.symm, fun hi => ?_⟩
  have hab := hi a b
  simp only [Keys.get?_deleteAll, run_save, get?_saved_forwardKey hc, get?_saved_reverseKey] at hab
  by_cases hm : c.reverseKey b ∈ ks <;> simp [hks, hm] at hab

/-- A save unlinks an entry that the other save writes anew. -/
theorem clash_of_relinked (hc : c.SidesApart) (h : c.Inverse keys) (hx : x ≠ a) (hy : y ≠ b)
    (hb : keys.get? (c.forwardKey x) = some b) : c.Clash keys (.save a b) (.save x y) := by
  have hback := (h x b).1 hb
  by_cases ha : keys.get? (c.forwardKey a) = some y
  · have hgone : (Keys.run (c.save x y) keys).2.get? (c.forwardKey x) ≠ some b := by
      simp [run_save, get?_saved_forwardKey hc, hy]
    refine ⟨_, canLeave_late_look ha hy ((h a y).1 ha) hback hx hgone, fun hi => ?_⟩
    have hxy := hi x y
    simp [Keys.get?_deleteAll, PairCall.program, run_save, get?_saved_forwardKey hc,
      forwardKey_ne_reverseKey hc, reverseKey_ne_forwardKey hc, hx, hy] at hxy
  · refine ⟨_, canLeave_late_writes c a b (c.save x y) keys, fun hi => ?_⟩
    have hxy := hi x y
    have hf : c.forwardKey x ∈ c.stale a b keys := (forwardKey_mem_stale hc).2 ⟨hback, hx, hb⟩
    have hr : c.reverseKey y ∉ c.stale a b keys :=
      fun hm => ha ((reverseKey_mem_stale hc).1 hm).1
    simp [Keys.get?_deleteAll, run_save, get?_saved_reverseKey, forwardKey_ne_reverseKey hc,
      reverseKey_ne_forwardKey hc, hx, hy, hf, hr] at hxy

/-! ## Which entries an operation touches -/

theorem forwardKey_mem_touched (hc : c.SidesApart) {z : String} :
    c.forwardKey z ∈ p.touched c keys ↔ match p with
      | .save a b => z = a ∨ keys.get? (c.reverseKey b) = some z
      | .remove a => z = a
      | .removeReverse b => keys.get? (c.reverseKey b) = some z
      | .get _ => False
      | .getReverse _ => False := by
  cases p <;> simp [PairCall.touched, forwardKey_ne_reverseKey hc, reverseKey_ne_forwardKey hc]

theorem reverseKey_mem_touched (hc : c.SidesApart) {w : String} :
    c.reverseKey w ∈ p.touched c keys ↔ match p with
      | .save a b => w = b ∨ keys.get? (c.forwardKey a) = some w
      | .remove a => keys.get? (c.forwardKey a) = some w
      | .removeReverse b => w = b
      | .get _ => False
      | .getReverse _ => False := by
  cases p <;> simp [PairCall.touched, forwardKey_ne_reverseKey hc, reverseKey_ne_forwardKey hc]

theorem owns_of_mem_touched {k : String} (hk : k ∈ p.touched c keys) : c.Owns k := by
  cases p with
  | save a b =>
    simp only [PairCall.touched, List.mem_cons, List.mem_append, List.mem_map] at hk
    rcases hk with rfl | rfl | ⟨y, _, rfl⟩ | ⟨x, _, rfl⟩
    · exact c.owns_forwardKey a
    · exact c.owns_reverseKey b
    · exact c.owns_reverseKey y
    · exact c.owns_forwardKey x
  | remove a =>
    simp only [PairCall.touched, List.mem_cons, List.mem_map] at hk
    rcases hk with rfl | ⟨y, _, rfl⟩
    · exact c.owns_forwardKey a
    · exact c.owns_reverseKey y
  | removeReverse b =>
    simp only [PairCall.touched, List.mem_cons, List.mem_map] at hk
    rcases hk with rfl | ⟨x, _, rfl⟩
    · exact c.owns_reverseKey b
    · exact c.owns_forwardKey x
  | get a => cases hk
  | getReverse b => cases hk

/-- To touch different entries is to touch different ones on either side. -/
theorem apart_of_sides
    (hf : ∀ z, c.forwardKey z ∈ p.touched c keys → c.forwardKey z ∉ q.touched c keys)
    (hr : ∀ w, c.reverseKey w ∈ p.touched c keys → c.reverseKey w ∉ q.touched c keys) :
    c.MayOverlap keys p q := by
  refine .apart fun k hp hq => ?_
  obtain ⟨z, rfl | rfl⟩ := owns_of_mem_touched hp
  · exact hf z hp hq
  · exact hr z hp hq

theorem apart_save_save (hc : c.SidesApart) (h : c.Inverse keys) (hx : x ≠ a) (hy : y ≠ b)
    (hxb : keys.get? (c.forwardKey x) ≠ some b) (hay : keys.get? (c.forwardKey a) ≠ some y) :
    c.MayOverlap keys (.save a b) (.save x y) := by
  apply apart_of_sides
  · intro z hp hq
    simp only [forwardKey_mem_touched hc, ← h _ _] at hp hq
    grind
  · intro w hp hq
    rw [ne_eq, h] at hxb hay
    simp only [reverseKey_mem_touched hc, h _ _] at hp hq
    grind

theorem apart_save_remove (hc : c.SidesApart) (h : c.Inverse keys) (hx : x ≠ a)
    (hxb : keys.get? (c.forwardKey x) ≠ some b) :
    c.MayOverlap keys (.save a b) (.remove x) := by
  apply apart_of_sides
  · intro z hp hq
    simp only [forwardKey_mem_touched hc, ← h _ _] at hp hq
    grind
  · intro w hp hq
    rw [ne_eq, h] at hxb
    simp only [reverseKey_mem_touched hc, h _ _] at hp hq
    grind

theorem apart_save_removeReverse (hc : c.SidesApart) (h : c.Inverse keys) (hy : y ≠ b)
    (hay : keys.get? (c.forwardKey a) ≠ some y) :
    c.MayOverlap keys (.save a b) (.removeReverse y) := by
  apply apart_of_sides
  · intro z hp hq
    simp only [forwardKey_mem_touched hc, ← h _ _] at hp hq
    grind
  · intro w hp hq
    simp only [reverseKey_mem_touched hc] at hp hq
    grind

/-! ## Every pair of operations -/

theorem mayOverlap_or_clash_save_save (hc : c.SidesApart) (h : c.Inverse keys) (a b x y : String) :
    c.MayOverlap keys (.save a b) (.save x y) ∨ c.Clash keys (.save a b) (.save x y) := by
  by_cases hx : x = a
  · subst hx
    by_cases hy : y = b
    · subst hy
      exact Or.inl (.same x y)
    · exact Or.inr (clash_save_save_left hc hy)
  · by_cases hy : y = b
    · subst hy
      exact Or.inr (clash_save_save_right hc hx)
    · -- no text in common, so that one save can only unlink what the other writes
      by_cases hxb : keys.get? (c.forwardKey x) = some b
      · exact Or.inr (clash_of_relinked hc h hx hy hxb)
      · by_cases hay : keys.get? (c.forwardKey a) = some y
        · exact Or.inr (clash_of_relinked hc h (Ne.symm hx) (Ne.symm hy) hay).symm
        · exact Or.inl (apart_save_save hc h hx hy hxb hay)

theorem mayOverlap_or_clash_save_remove (hc : c.SidesApart) (h : c.Inverse keys) (a b x : String) :
    c.MayOverlap keys (.save a b) (.remove x) ∨ c.Clash keys (.save a b) (.remove x) := by
  by_cases hx : x = a
  · subst hx
    exact Or.inr (clash_save_remove hc x b keys)
  · by_cases hxb : keys.get? (c.forwardKey x) = some b
    · have hlate : Keys.CanLeave (c.remove x) (c.save a b) keys _ :=
        canLeave_late_removal hxb ((h x b).1 hxb) (c.save a b)
      refine Or.inr (clash_of_late_removal hc ?_ hlate)
      simp [forwardKey_ne_reverseKey hc, Ne.symm hx]
    · exact Or.inl (apart_save_remove hc h hx hxb)

theorem mayOverlap_or_clash_save_removeReverse (hc : c.SidesApart) (h : c.Inverse keys)
    (a b y : String) :
    c.MayOverlap keys (.save a b) (.removeReverse y) ∨
      c.Clash keys (.save a b) (.removeReverse y) := by
  by_cases hy : y = b
  · subst hy
    cases hp : keys.get? (c.reverseKey y) with
    | none => exact Or.inl (.unpaired a hp)
    | some x =>
      by_cases hx : x = a
      · subst hx
        exact Or.inr (clash_save_removeReverse hc hp)
      · have hlate : Keys.CanLeave (c.removeReverse y) (c.save a y) keys _ :=
          canLeave_late_removal hp ((h x y).2 hp) (c.save a y)
        refine Or.inr (clash_of_late_removal hc ?_ hlate)
        simp [forwardKey_ne_reverseKey hc, Ne.symm hx]
  · by_cases hay : keys.get? (c.forwardKey a) = some y
    · have hlate : Keys.CanLeave (c.removeReverse y) (c.save a b) keys _ :=
        canLeave_late_removal ((h a y).1 hay) hay (c.save a b)
      refine Or.inr (clash_of_late_removal hc ?_ hlate)
      simp [reverseKey_ne_forwardKey hc, Ne.symm hy]
    · exact Or.inl (apart_save_removeReverse hc h hy hay)

theorem mayOverlap_or_clash_save (hc : c.SidesApart) (h : c.Inverse keys) (a b : String)
    (q : PairCall) : c.MayOverlap keys (.save a b) q ∨ c.Clash keys (.save a b) q := by
  cases q with
  | save x y => exact mayOverlap_or_clash_save_save hc h a b x y
  | remove x => exact mayOverlap_or_clash_save_remove hc h a b x
  | removeReverse y => exact mayOverlap_or_clash_save_removeReverse hc h a b y
  | get x => exact Or.inl (.apart (List.disjoint_nil_right _))
  | getReverse y => exact Or.inl (.apart (List.disjoint_nil_right _))

theorem mayOverlap_or_clash (hc : c.SidesApart) (h : c.Inverse keys) (p q : PairCall) :
    c.MayOverlap keys p q ∨ c.Clash keys p q := by
  cases hp : p.saves with
  | true =>
    cases p with
    | save a b => exact mayOverlap_or_clash_save hc h a b q
    | _ => cases hp
  | false =>
    cases hq : q.saves with
    | true =>
      cases q with
      | save a b => exact (mayOverlap_or_clash_save hc h a b p).imp .symm .symm
      | _ => cases hq
    | false => exact Or.inl (.unsaved hp hq)

/-- Two operations on inverse entries leave inverse entries, whatever turns
their calls take, if and only if they may overlap. -/
theorem operations_stay_inverse_iff_they_may_overlap (c : PairCache) (hc : c.SidesApart)
    (keys : Keys) (hk : c.Inverse keys) (p q : PairCall) :
    (∀ turns, c.Inverse (Keys.weave turns (p.program c) (q.program c) keys).2) ↔
      c.MayOverlap keys p q := by
  constructor
  · intro h
    rcases mayOverlap_or_clash hc hk p q with hm | ⟨fin, ⟨turns, rfl⟩, hi⟩
    · exact hm
    · exact absurd (h turns) hi
  · intro hm turns
    exact hm.inverse hc hk ⟨turns, rfl⟩

/-- A save beside the removal of another pair. -/
theorem a_save_overlaps_the_removal_of_another_pair :
    thingPairs.SidesApart ∧ thingPairs.Inverse (thingPairs.saved "k1" "t1" ∅) ∧
      ∀ turns, thingPairs.Inverse (Keys.weave turns (thingPairs.save "k2" "t2")
        (thingPairs.remove "k1") (thingPairs.saved "k1" "t1" ∅)).2 := by
  have hc : thingPairs.SidesApart := by decide +kernel
  have hi : thingPairs.Inverse (thingPairs.saved "k1" "t1" ∅) := (inverse_empty _).saved hc
  have hd : ∀ k ∈ PairCall.touched thingPairs (thingPairs.saved "k1" "t1" ∅) (.save "k2" "t2"),
      k ∉ PairCall.touched thingPairs (thingPairs.saved "k1" "t1" ∅) (.remove "k1") := by
    decide +kernel
  exact ⟨hc, hi, (operations_stay_inverse_iff_they_may_overlap thingPairs hc _ hi
    (.save "k2" "t2") (.remove "k1")).2 (.apart fun k hk hk' => hd k hk hk')⟩

/-- One client looks up the pair of a key in order to remove it. The other saves
the key for another thing, and the removal then takes one entry of the new
pair. -/
theorem a_late_removal_leaves_half_of_a_newer_pair :
    thingPairs.SidesApart ∧ thingPairs.Inverse (thingPairs.saved "k" "t1" ∅) ∧
      ¬ thingPairs.Inverse (Keys.weave
        [true, true, false, false, false, false, false, false, true]
        (thingPairs.remove "k") (thingPairs.save "k" "t2") (thingPairs.saved "k" "t1" ∅)).2 := by
  have hc : thingPairs.SidesApart := by decide +kernel
  refine ⟨hc, (inverse_empty _).saved hc, fun hi => ?_⟩
  have hleft : (Keys.weave [true, true, false, false, false, false, false, false, true]
      (thingPairs.remove "k") (thingPairs.save "k" "t2") (thingPairs.saved "k" "t1" ∅)).2
      = Table.ofList [("thing:t2", "k")] := by
    decide +kernel
  rw [hleft] at hi
  have hback : (Table.ofList [("thing:t2", "k")]).get? (thingPairs.reverseKey "t2") = some "k" := by
    decide +kernel
  have hgone : (Table.ofList [("thing:t2", "k")]).get? (thingPairs.forwardKey "k") ≠ some "t2" := by
    decide +kernel
  exact hgone ((hi "k" "t2").2 hback)

end PairCache

end LifecycleLog
