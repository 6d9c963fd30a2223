-- What a pair cache stands for: a set of pairs in which no text occurs twice
-- on one side. Saving a pair puts out every pair that shares a side with it,
-- removing puts out one pair, and nothing outside the cache is named.
import LifecycleLog.Cache.Things
import LifecycleLog.Proofs.Cache.Stages
import Mathlib.Data.Finset.Filter
import Mathlib.Data.Finset.Insert

namespace LifecycleLog

/-! ## Sets of pairs -/

abbrev Pairing : Type := Finset (String × String)

namespace Pairing

/-- Without every pair that has `a` on the left or `b` on the right, and with
the pair of the two. -/
def save (r : Pairing) (a b : String) : Pairing :=
  insert (a, b) (r.filter (fun p => p.1 ≠ a ∧ p.2 ≠ b))

/-- Without the pair of `a`. -/
def remove (r : Pairing) (a : String) : Pairing := r.filter (fun p => p.1 ≠ a)

/-- Without the pair of `b`. -/
def removeReverse (r : Pairing) (b : String) : Pairing := r.filter (fun p => p.2 ≠ b)

/-- No text occurs in two pairs on the same side. -/
def IsPartialBijection (r : Pairing) : Prop :=
  ∀ a b x y, (a, b) ∈ r → (x, y) ∈ r → (a = x ↔ b = y)

end Pairing

/-! ## The operations as data -/

inductive PairCall
  | save (a b : String)
  | remove (a : String)
  | removeReverse (b : String)
  | get (a : String)
  | getReverse (b : String)
  deriving DecidableEq, Repr

namespace PairCall

abbrev Answer : PairCall → Type
  | .save _ _ => Unit
  | .remove _ => Bool
  | .removeReverse _ => Bool
  | .get _ => String
  | .getReverse _ => String

def program (c : PairCache) : (p : PairCall) → KeyProgram (Except CacheError p.Answer)
  | .save a b => c.save a b
  | .remove a => c.remove a
  | .removeReverse b => c.removeReverse b
  | .get a => c.get a
  | .getReverse b => c.getReverse b

/-- What the operation makes of the pairs. -/
def next (r : Pairing) : PairCall → Pairing
  | .save a b => r.save a b
  | .remove a => r.remove a
  | .removeReverse b => r.removeReverse b
  | .get _ => r
  | .getReverse _ => r

/-- The answer is the one that the pairs call for. -/
def Fits (c : PairCache) (r : Pairing) : (p : PairCall) → Except CacheError p.Answer → Prop
  | .save _ _, x => x = .ok ()
  | .remove a, x => x = .ok (decide (∃ p ∈ r, p.1 = a))
  | .removeReverse b, x => x = .ok (decide (∃ p ∈ r, p.2 = b))
  | .get a, x =>
    (∀ b, x = .ok b ↔ (a, b) ∈ r) ∧ (x = .error (.notFound c.name a) ↔ ∀ b, (a, b) ∉ r)
  | .getReverse b, x =>
    (∀ a, x = .ok a ↔ (a, b) ∈ r) ∧ (x = .error (.notFound c.name b) ↔ ∀ a, (a, b) ∉ r)

end PairCall

namespace PairCache

/-- The keys after operations on the cache, one after the other. -/
def after (c : PairCache) (calls : List PairCall) (keys : Keys) : Keys :=
  calls.foldl (fun keys p => (Keys.run (p.program c) keys).2) keys

/-- The pairs that the operations leave, if there were none. -/
def pairsAfter (calls : List PairCall) : Pairing := calls.foldl PairCall.next ∅

/-- The entries of the cache are those of the pairs, found from either side. -/
structure Holds (c : PairCache) (keys : Keys) (r : Pairing) : Prop where
  forward : ∀ a b, keys.get? (c.forwardKey a) = some b ↔ (a, b) ∈ r
  reverse : ∀ a b, keys.get? (c.reverseKey b) = some a ↔ (a, b) ∈ r

/-! ## Entries that point to each other -/

/-- Every entry of one side is answered by one of the other side. -/
def Inverse (c : PairCache) (keys : Keys) : Prop :=
  ∀ a b, keys.get? (c.forwardKey a) = some b ↔ keys.get? (c.reverseKey b) = some a

variable {c : PairCache} {keys : Keys} {r : Pairing} {a b x y : String}

theorem Inverse.swap (h : c.Inverse keys) : c.swap.Inverse keys := fun b a => (h a b).symm

theorem Holds.inverse (h : c.Holds keys r) : c.Inverse keys :=
  fun a b => (h.forward a b).trans (h.reverse a b).symm

theorem Holds.isPartialBijection (h : c.Holds keys r) : r.IsPartialBijection := by
  intro a b x y hab hxy
  constructor
  · rintro rfl
    have hb := (h.forward a b).2 hab
    rw [(h.forward a y).2 hxy] at hb
    exact (Option.some.inj hb).symm
  · rintro rfl
    have ha := (h.reverse a b).2 hab
    rw [(h.reverse x b).2 hxy] at ha
    exact (Option.some.inj ha).symm

/-- What a save leaves does not depend on which side is called forward. -/
theorem saved_swap (hc : c.SidesApart) : c.swap.saved b a keys = c.saved a b keys := by
  have hs : ∀ k, k ∈ c.swap.stale b a keys ↔ k ∈ c.stale a b keys := by
    intro k
    rw [mem_stale, mem_stale]
    exact Or.comm
  apply Table.ext_get?
  intro k
  simp only [get?_saved, get?_half, get?_cleared, hs]
  by_cases hf : k = c.forwardKey a
  · have hr : k ≠ c.reverseKey b := hf ▸ forwardKey_ne_reverseKey hc a b
    have hf' : k = c.swap.reverseKey a := hf
    have hr' : k ≠ c.swap.forwardKey b := hr
    simp only [← hf, ← hf', hr, if_true, if_false]
  · have hf' : k ≠ c.swap.reverseKey a := hf
    have he : c.swap.forwardKey b = c.reverseKey b := rfl
    simp only [hf, hf', he, if_false]

theorem get?_saved_forwardKey_iff (hc : c.SidesApart) (h : c.Inverse keys) :
    (c.saved a b keys).get? (c.forwardKey x) = some y ↔
      x = a ∧ y = b ∨ x ≠ a ∧ y ≠ b ∧ keys.get? (c.forwardKey x) = some y := by
  by_cases hx : x = a
  · subst hx
    simp [get?_saved_forwardKey hc, eq_comm]
  · have hk : c.forwardKey x ≠ c.forwardKey a := fun he => hx (forwardKey_inj.1 he)
    have hm : c.forwardKey x ∈ c.stale a b keys ↔ keys.get? (c.forwardKey x) = some b := by
      rw [forwardKey_mem_stale hc, ← h x b]
      exact ⟨fun hs => hs.2.2, fun hb => ⟨hb, hx, hb⟩⟩
    rw [get?_saved, if_neg (forwardKey_ne_reverseKey hc _ _), get?_half, if_neg hk, get?_cleared]
    by_cases hb : keys.get? (c.forwardKey x) = some b
    · rw [if_pos (hm.2 hb)]
      constructor
      · intro hn
        cases hn
      · rintro (⟨he, _⟩ | ⟨_, hy, he⟩)
        · exact absurd he hx
        · rw [hb] at he
          exact absurd (Option.some.inj he).symm hy
    · rw [if_neg (mt hm.1 hb)]
      constructor
      · intro hy
        exact Or.inr ⟨hx, fun he => hb (he ▸ hy), hy⟩
      · rintro (⟨he, _⟩ | ⟨_, _, hy⟩)
        · exact absurd he hx
        · exact hy

theorem get?_saved_reverseKey_iff (hc : c.SidesApart) (h : c.Inverse keys) :
    (c.saved a b keys).get? (c.reverseKey y) = some x ↔
      x = a ∧ y = b ∨ x ≠ a ∧ y ≠ b ∧ keys.get? (c.reverseKey y) = some x := by
  rw [← saved_swap hc]
  refine (get?_saved_forwardKey_iff (sidesApart_swap hc) h.swap).trans ?_
  exact or_congr And.comm and_left_comm

theorem get?_removed_eq_some {own value k v : String} {keyOf : String → String} :
    (removed own value keyOf keys).get? k = some v ↔
      k ≠ own ∧ (∀ p, keys.get? own = some p → keys.get? (keyOf p) = some value → k ≠ keyOf p) ∧
        keys.get? k = some v := by
  unfold removed
  cases ho : keys.get? own with
  | none =>
    refine ⟨fun hv => ⟨?_, by simp, hv⟩, fun hv => hv.2.2⟩
    rintro rfl
    rw [ho] at hv
    cases hv
  | some p =>
    simp only [Keys.get?_deleteAll, Option.some.injEq, forall_eq']
    by_cases hp : keys.get? (keyOf p) = some value
    · simp only [hp, if_true, List.mem_cons, List.not_mem_nil, or_false, forall_const]
      by_cases h₁ : k = own <;> by_cases h₂ : k = keyOf p <;> simp [h₁, h₂]
    · simp only [hp, if_false, List.mem_singleton, false_implies, true_and]
      by_cases h₁ : k = own <;> simp [h₁]

theorem get?_removed_forwardKey_iff (hc : c.SidesApart) :
    (removed (c.forwardKey a) a c.reverseKey keys).get? (c.forwardKey x) = some y ↔
      x ≠ a ∧ keys.get? (c.forwardKey x) = some y := by
  rw [get?_removed_eq_some]
  constructor
  · rintro ⟨hx, _, hy⟩
    exact ⟨fun he => hx (he ▸ rfl), hy⟩
  · rintro ⟨hx, hy⟩
    exact ⟨fun he => hx (forwardKey_inj.1 he), fun p _ _ => forwardKey_ne_reverseKey hc _ _, hy⟩

theorem get?_removed_reverseKey_iff (hc : c.SidesApart) (h : c.Inverse keys) :
    (removed (c.forwardKey a) a c.reverseKey keys).get? (c.reverseKey y) = some x ↔
      x ≠ a ∧ keys.get? (c.reverseKey y) = some x := by
  rw [get?_removed_eq_some]
  constructor
  · rintro ⟨_, hp, hx⟩
    refine ⟨?_, hx⟩
    rintro rfl
    exact hp y ((h x y).2 hx) hx rfl
  · rintro ⟨hx, hy⟩
    refine ⟨reverseKey_ne_forwardKey hc _ _, ?_, hy⟩
    intro p _ hp he
    rw [reverseKey_inj] at he
    subst he
    rw [hp] at hy
    exact hx (Option.some.inj hy).symm

theorem Inverse.saved (hc : c.SidesApart) (h : c.Inverse keys) : c.Inverse (c.saved a b keys) := by
  intro x y
  rw [get?_saved_forwardKey_iff hc h, get?_saved_reverseKey_iff hc h, h x y]

/-! ## Each operation keeps to the pairs -/

theorem Holds.save (hc : c.SidesApart) (h : c.Holds keys r) :
    c.Holds (c.saved a b keys) (r.save a b) := by
  constructor
  · intro x y
    rw [get?_saved_forwardKey_iff hc h.inverse, h.forward]
    simp only [Pairing.save, Finset.mem_insert, Finset.mem_filter, Prod.mk.injEq]
    exact or_congr_right (by rw [← and_assoc, And.comm])
  · intro x y
    rw [get?_saved_reverseKey_iff hc h.inverse, h.reverse]
    simp only [Pairing.save, Finset.mem_insert, Finset.mem_filter, Prod.mk.injEq]
    exact or_congr_right (by rw [← and_assoc, And.comm])

theorem Holds.remove (hc : c.SidesApart) (h : c.Holds keys r) :
    c.Holds (removed (c.forwardKey a) a c.reverseKey keys) (r.remove a) := by
  constructor
  · intro x y
    rw [get?_removed_forwardKey_iff hc, h.forward]
    simp only [Pairing.remove, Finset.mem_filter]
    exact And.comm
  · intro x y
    rw [get?_removed_reverseKey_iff hc h.inverse, h.reverse]
    simp only [Pairing.remove, Finset.mem_filter]
    exact And.comm

/-- The same from the other side, which is the forward side of the cache with
its sides exchanged. -/
theorem Holds.removeReverse (hc : c.SidesApart) (h : c.Holds keys r) :
    c.Holds (removed (c.reverseKey b) b c.forwardKey keys) (r.removeReverse b) := by
  have hs := sidesApart_swap hc
  constructor
  · intro x y
    refine (get?_removed_reverseKey_iff hs h.inverse.swap).trans ?_
    simp only [Pairing.removeReverse, Finset.mem_filter]
    exact And.comm.trans (and_congr_left fun _ => h.forward x y)
  · intro x y
    refine (get?_removed_forwardKey_iff hs).trans ?_
    simp only [Pairing.removeReverse, Finset.mem_filter]
    exact And.comm.trans (and_congr_left fun _ => h.reverse x y)

theorem isSome_forward (h : c.Holds keys r) (a : String) :
    (keys.get? (c.forwardKey a)).isSome = decide (∃ p ∈ r, p.1 = a) := by
  rw [Bool.eq_iff_iff, Option.isSome_iff_exists, decide_eq_true_eq]
  constructor
  · rintro ⟨y, hy⟩
    exact ⟨(a, y), (h.forward a y).1 hy, rfl⟩
  · rintro ⟨⟨x, y⟩, hp, rfl⟩
    exact ⟨y, (h.forward x y).2 hp⟩

theorem isSome_reverse (h : c.Holds keys r) (b : String) :
    (keys.get? (c.reverseKey b)).isSome = decide (∃ p ∈ r, p.2 = b) := by
  rw [Bool.eq_iff_iff, Option.isSome_iff_exists, decide_eq_true_eq]
  constructor
  · rintro ⟨x, hx⟩
    exact ⟨(x, b), (h.reverse x b).1 hx, rfl⟩
  · rintro ⟨⟨x, y⟩, hp, rfl⟩
    exact ⟨x, (h.reverse x y).2 hp⟩

/-- What a look-up answers when the pairs of `raw` are those in `related`. -/
theorem run_lookup (c : PairCache) {key : String} (raw : String) {related : String → Prop}
    (h : ∀ v, keys.get? key = some v ↔ related v) :
    (Keys.run (c.lookup key raw) keys).2 = keys ∧
      (∀ v, (Keys.run (c.lookup key raw) keys).1 = .ok v ↔ related v) ∧
      ((Keys.run (c.lookup key raw) keys).1 = .error (.notFound c.name raw) ↔ ∀ v, ¬ related v) := by
  simp only [lookup, run_orFail, Keys.answer, ← h]
  cases hk : keys.get? key <;> simp

/-- One operation: the entries stay those of the pairs, and the answer fits. -/
theorem Holds.step (hc : c.SidesApart) (h : c.Holds keys r) (p : PairCall) :
    c.Holds (Keys.run (p.program c) keys).2 (p.next r) ∧
      p.Fits c r (Keys.run (p.program c) keys).1 := by
  cases p with
  | save a b =>
    simp only [PairCall.program, PairCall.next, PairCall.Fits, run_save, and_true]
    exact h.save hc
  | remove a =>
    simp only [PairCall.program, PairCall.next, PairCall.Fits, PairCache.remove, run_removeEntry]
    exact ⟨h.remove hc, congrArg Except.ok (isSome_forward h a)⟩
  | removeReverse b =>
    simp only [PairCall.program, PairCall.next, PairCall.Fits, PairCache.removeReverse,
      run_removeEntry]
    exact ⟨h.removeReverse hc, congrArg Except.ok (isSome_reverse h b)⟩
  | get a =>
    obtain ⟨hk, ha⟩ := run_lookup c a (h.forward a)
    exact ⟨(congrArg (c.Holds · r) hk).mpr h, ha⟩
  | getReverse b =>
    obtain ⟨hk, ha⟩ := run_lookup c b (fun x => h.reverse x b)
    exact ⟨(congrArg (c.Holds · r) hk).mpr h, ha⟩

/-! ## Nothing else is named -/

theorem keepsTo_pointingBack {ε α : Type} {wrap : StoreError → ε} {space : String → Prop}
    {candidates : List (String × String)} {next : List String → KeyProgram (Except ε α)}
    (hs : ∀ p ∈ candidates, space p.1) (h : ∀ ks, (∀ k ∈ ks, space k) → (next ks).KeepsTo space) :
    (pointingBack wrap candidates next).KeepsTo space := by
  induction candidates generalizing next with
  | nil => exact h [] (by simp)
  | cons p rest ih =>
    obtain ⟨key, owner⟩ := p
    have hkey : space key := hs (key, owner) List.mem_cons_self
    refine keepsTo_orFail (by simpa [KeyCall.keys] using hkey) fun current => ?_
    refine ih (fun p hp => hs p (List.mem_cons_of_mem _ hp)) fun ks hks => h _ ?_
    split
    · exact List.forall_mem_cons.2 ⟨hkey, hks⟩
    · exact hks

theorem keepsTo_deleteAny {ε α : Type} {wrap : StoreError → ε} {space : String → Prop}
    {ks : List String} {next : KeyProgram (Except ε α)} (hs : ∀ k ∈ ks, space k)
    (h : next.KeepsTo space) : (deleteAny wrap ks next).KeepsTo space := by
  unfold deleteAny
  split
  · exact h
  · exact keepsTo_orFail hs fun _ => h

theorem keepsTo_save (c : PairCache) (a b : String) : (c.save a b).KeepsTo c.Owns := by
  have hf : ∀ k ∈ [c.forwardKey a], c.Owns k := by simpa using c.owns_forwardKey a
  have hr : ∀ k ∈ [c.reverseKey b], c.Owns k := by simpa using c.owns_reverseKey b
  refine keepsTo_orFail hf fun oldB => keepsTo_orFail hr fun oldA => ?_
  refine keepsTo_pointingBack ?_ fun ks hks => keepsTo_deleteAny hks ?_
  · rintro ⟨k, o⟩ hk
    rw [List.mem_append, mem_unlinked, mem_unlinked] at hk
    rcases hk with ⟨y, _, _, rfl, _⟩ | ⟨x, _, _, rfl, _⟩
    · exact c.owns_reverseKey y
    · exact c.owns_forwardKey x
  · exact keepsTo_orFail hf fun _ => keepsTo_orFail hr fun _ => trivial

theorem keepsTo_removeEntry {c : PairCache} {own value : String} {keyOf : String → String}
    {space : String → Prop} (ho : space own) (hk : ∀ p, space (keyOf p)) :
    (c.removeEntry own value keyOf).KeepsTo space := by
  refine keepsTo_orFail (by simpa [KeyCall.keys] using ho) fun partner => ?_
  cases partner with
  | none => trivial
  | some p =>
    refine keepsTo_orFail (by simpa [KeyCall.keys] using hk p) fun back => ?_
    refine keepsTo_orFail ?_ fun _ => trivial
    simp only [KeyCall.keys]
    split
    · simpa using ⟨ho, hk p⟩
    · simpa using ho

theorem keepsTo_program (c : PairCache) (p : PairCall) : (p.program c).KeepsTo c.Owns := by
  have hlookup : ∀ key raw, c.Owns key → (c.lookup key raw).KeepsTo c.Owns := by
    intro key raw hk
    refine keepsTo_orFail (by simpa [KeyCall.keys] using hk) fun value => ?_
    cases value <;> trivial
  cases p with
  | save a b => exact c.keepsTo_save a b
  | remove a => exact keepsTo_removeEntry (c.owns_forwardKey a) c.owns_reverseKey
  | removeReverse b => exact keepsTo_removeEntry (c.owns_reverseKey b) c.owns_forwardKey
  | get a => exact hlookup _ _ (c.owns_forwardKey a)
  | getReverse b => exact hlookup _ _ (c.owns_reverseKey b)

/-! ## Whole runs -/

theorem holds_empty (hk : ∀ key, c.Owns key → keys.get? key = none) : c.Holds keys ∅ := by
  constructor
  · intro a b
    simp [hk _ (c.owns_forwardKey a)]
  · intro a b
    simp [hk _ (c.owns_reverseKey b)]

theorem after_snoc (c : PairCache) (calls : List PairCall) (p : PairCall) (keys : Keys) :
    c.after (calls ++ [p]) keys = (Keys.run (p.program c) (c.after calls keys)).2 := by
  simp [after]

theorem pairsAfter_snoc (calls : List PairCall) (p : PairCall) :
    pairsAfter (calls ++ [p]) = p.next (pairsAfter calls) := by
  simp [pairsAfter]

/-- After any operations the entries are those of the pairs that the
operations leave. -/
theorem holds_after (hc : c.SidesApart) (hk : ∀ key, c.Owns key → keys.get? key = none)
    (calls : List PairCall) : c.Holds (c.after calls keys) (pairsAfter calls) := by
  induction calls using List.reverseRecOn with
  | nil => exact holds_empty hk
  | append_singleton calls p ih =>
    rw [after_snoc, pairsAfter_snoc]
    exact (ih.step hc p).1

theorem get?_after_of_not_owns {key : String} (h : ¬ c.Owns key) (calls : List PairCall) :
    (c.after calls keys).get? key = keys.get? key := by
  induction calls using List.reverseRecOn with
  | nil => rfl
  | append_singleton calls p ih =>
    rw [after_snoc, get?_run_of_keepsTo (c.keepsTo_program p) _ h, ih]

/-- A pair cache is a partial bijection. From any keys among which it has none,
and after any operations: its entries are the pairs of a partial bijection,
found from either side; the next operation changes the pairs as it should and
answers what they call for; and the keys outside the cache are as they were,
since no operation names one. -/
theorem a_pair_cache_is_a_partial_bijection (c : PairCache) (hc : c.SidesApart) (keys : Keys)
    (hk : ∀ key, c.Owns key → keys.get? key = none) (calls : List PairCall) :
    c.Holds (c.after calls keys) (pairsAfter calls) ∧
      (pairsAfter calls).IsPartialBijection ∧
      (∀ p : PairCall,
        c.Holds (Keys.run (p.program c) (c.after calls keys)).2 (p.next (pairsAfter calls)) ∧
        p.Fits c (pairsAfter calls) (Keys.run (p.program c) (c.after calls keys)).1 ∧
        (p.program c).KeepsTo c.Owns) ∧
      ∀ key, ¬ c.Owns key → (c.after calls keys).get? key = keys.get? key := by
  have h := holds_after hc hk calls
  refine ⟨h, h.isPartialBijection, fun p => ?_, fun key hkey => get?_after_of_not_owns hkey calls⟩
  obtain ⟨hh, hf⟩ := h.step hc p
  exact ⟨hh, hf, c.keepsTo_program p⟩

/-- A save that moves both sides at once, among things and their keys. -/
theorem pairs_after_a_double_move :
    thingPairs.SidesApart ∧ (∀ key, thingPairs.Owns key → (∅ : Keys).get? key = none) ∧
      thingPairs.Holds
        (thingPairs.after [.save "k1" "t1", .save "k2" "t2", .save "k1" "t2"] ∅) {("k1", "t2")} := by
  have hc : thingPairs.SidesApart := by decide +kernel
  have hp : pairsAfter [.save "k1" "t1", .save "k2" "t2", .save "k1" "t2"] = {("k1", "t2")} := by
    decide
  have h := a_pair_cache_is_a_partial_bijection thingPairs hc ∅ (fun _ _ => rfl)
    [.save "k1" "t1", .save "k2" "t2", .save "k1" "t2"]
  exact ⟨hc, fun _ _ => rfl, hp ▸ h.1⟩

end PairCache

end LifecycleLog
