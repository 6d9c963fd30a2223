-- Saving and removing pairs, call by call. A save takes the keys through four
-- stages: as they were, cleared of what it unlinks, half written, and saved.
-- A failed save leaves one of them, and from each of them a later save of the
-- pair ends where the first one would have ended. A removal is one deletion,
-- so it leaves the keys as they were or is done.
import LifecycleLog.Cache.Routes
import LifecycleLog.Proofs.KeyPrograms

namespace LifecycleLog

namespace PairCache

/-! ## Key spaces -/

/-- Neither side's keys all lie among the keys of the other side. -/
def SidesApart (c : PairCache) : Prop :=
  ¬ (c.forward ++ ":").toList <+: (c.reverse ++ ":").toList ∧
    ¬ (c.reverse ++ ":").toList <+: (c.forward ++ ":").toList

instance sidesApartDecidable (c : PairCache) : Decidable c.SidesApart :=
  inferInstanceAs (Decidable (_ ∧ _))

/-- The key belongs to an entry of the cache. -/
def Owns (c : PairCache) (key : String) : Prop := ∃ x, key = c.forwardKey x ∨ key = c.reverseKey x

theorem owns_forwardKey (c : PairCache) (a : String) : c.Owns (c.forwardKey a) := ⟨a, Or.inl rfl⟩

theorem owns_reverseKey (c : PairCache) (b : String) : c.Owns (c.reverseKey b) := ⟨b, Or.inr rfl⟩

@[simp] theorem forwardKey_inj {c : PairCache} {a x : String} :
    c.forwardKey a = c.forwardKey x ↔ a = x := String.append_right_inj _

@[simp] theorem reverseKey_inj {c : PairCache} {b y : String} :
    c.reverseKey b = c.reverseKey y ↔ b = y := String.append_right_inj _

theorem forwardKey_ne_reverseKey {c : PairCache} (h : c.SidesApart) (a b : String) :
    c.forwardKey a ≠ c.reverseKey b := by
  intro he
  have hf : (c.forward ++ ":").toList <+: (c.forwardKey a).toList :=
    ⟨a.toList, by simp [forwardKey]⟩
  have hr : (c.reverse ++ ":").toList <+: (c.forwardKey a).toList :=
    ⟨b.toList, by simp [he, reverseKey]⟩
  -- of two starts of one text, one is a start of the other
  rcases List.prefix_or_prefix_of_prefix hf hr with hp | hp
  · exact h.1 hp
  · exact h.2 hp

theorem reverseKey_ne_forwardKey {c : PairCache} (h : c.SidesApart) (b a : String) :
    c.reverseKey b ≠ c.forwardKey a := (forwardKey_ne_reverseKey h a b).symm

/-- The sides of a route map differ after the name of its space. -/
theorem sidesApart_routes (m : RouteMap) : m.pairs.SidesApart := by
  constructor <;> simp [RouteMap.pairs]

/-- The cache with its sides exchanged. Removing from one side is removing
from the other side of that cache. -/
def swap (c : PairCache) : PairCache := ⟨c.name, c.reverse, c.forward⟩

theorem sidesApart_swap {c : PairCache} (h : c.SidesApart) : c.swap.SidesApart := ⟨h.2, h.1⟩

/-! ## The steps of a save -/

/-- The keys of the candidates that point to their owner. -/
def pointing (keys : Keys) (candidates : List (String × String)) : List String :=
  (candidates.filter (fun p => keys.get? p.1 = some p.2)).map (·.1)

theorem pointing_cons (keys : Keys) (key owner : String) (rest : List (String × String)) :
    pointing keys ((key, owner) :: rest)
      = if keys.get? key = some owner then key :: pointing keys rest else pointing keys rest := by
  by_cases h : keys.get? key = some owner <;> simp [pointing, h]

section Steps

variable {ε α : Type} {wrap : StoreError → ε} {inv : Keys → Prop} {post : Except ε α → Keys → Prop}

theorem run_pointingBack (candidates : List (String × String))
    (next : List String → KeyProgram (Except ε α)) (keys : Keys) :
    Keys.run (pointingBack wrap candidates next) keys
      = Keys.run (next (pointing keys candidates)) keys := by
  induction candidates generalizing next with
  | nil => rfl
  | cons p rest ih =>
    obtain ⟨key, owner⟩ := p
    simp only [pointingBack, run_orFail, Keys.answer, ih, pointing_cons]
    rfl

theorem endures_pointingBack {candidates : List (String × String)}
    {next : List String → KeyProgram (Except ε α)} {keys : Keys} (hi : inv keys)
    (hf : ∀ e k, post (.error e) k) (h : (next (pointing keys candidates)).Endures inv post keys) :
    (pointingBack wrap candidates next).Endures inv post keys := by
  induction candidates generalizing next with
  | nil => exact h
  | cons p rest ih =>
    obtain ⟨key, owner⟩ := p
    refine .orFail hi hf (ih ?_)
    rw [pointing_cons] at h
    exact h

theorem run_deleteAny (ks : List String) (next : KeyProgram (Except ε α)) (keys : Keys) :
    Keys.run (deleteAny wrap ks next) keys = Keys.run next (Keys.deleteAll ks keys).2 := by
  cases ks with
  | nil => rfl
  | cons k rest => rfl

theorem endures_deleteAny {ks : List String} {next : KeyProgram (Except ε α)} {keys : Keys}
    (hi : inv keys) (hf : ∀ e k, post (.error e) k)
    (h : next.Endures inv post (Keys.deleteAll ks keys).2) :
    (deleteAny wrap ks next).Endures inv post keys := by
  cases ks with
  | nil => exact h
  | cons k rest => exact .orFail hi hf h

end Steps

/-! ## The stages of a save -/

/-- The entries that a save of the pair unlinks. -/
def stale (c : PairCache) (a b : String) (keys : Keys) : List String :=
  pointing keys (unlinked c.reverseKey b a (keys.get? (c.forwardKey a)) ++
    unlinked c.forwardKey a b (keys.get? (c.reverseKey b)))

def cleared (c : PairCache) (a b : String) (keys : Keys) : Keys :=
  (Keys.deleteAll (c.stale a b keys) keys).2

def half (c : PairCache) (a b : String) (keys : Keys) : Keys :=
  (c.cleared a b keys).insert (c.forwardKey a) b

def saved (c : PairCache) (a b : String) (keys : Keys) : Keys :=
  (c.half a b keys).insert (c.reverseKey b) a

/-- What attempts to save the pair may leave of `keys`. -/
inductive SaveStage (c : PairCache) (a b : String) (keys : Keys) : Keys → Prop
  | before : SaveStage c a b keys keys
  | cleared : SaveStage c a b keys (c.cleared a b keys)
  | half : SaveStage c a b keys (c.half a b keys)
  | saved : SaveStage c a b keys (c.saved a b keys)

theorem run_save (c : PairCache) (a b : String) (keys : Keys) :
    Keys.run (c.save a b) keys = (.ok (), c.saved a b keys) := by
  simp only [save, run_orFail, run_pointingBack, run_deleteAny]
  rfl

/-- One attempt, from any keys at all. -/
theorem endures_save_once (c : PairCache) (a b : String) (keys : Keys) :
    (c.save a b).Endures (c.SaveStage a b keys) (fun r k => r = .ok () → k = c.saved a b keys)
      keys := by
  have hf : ∀ (e : CacheError) (k : Keys), Except.error e = .ok () → k = c.saved a b keys :=
    fun e k h => nomatch h
  refine .orFail .before hf (.orFail .before hf ?_)
  refine endures_pointingBack .before hf (endures_deleteAny .before hf ?_)
  exact .orFail .cleared hf (.orFail .half hf ⟨.saved, fun _ => rfl⟩)

/-! ## What a stage holds -/

variable {c : PairCache} {a b k : String} {keys : Keys}

theorem mem_unlinked {keyOf : String → String} {new owner k o : String} {old : Option String} :
    (k, o) ∈ unlinked keyOf new owner old ↔
      ∃ x, old = some x ∧ x ≠ new ∧ k = keyOf x ∧ o = owner := by
  cases old with
  | none => simp [unlinked]
  | some x => by_cases h : x = new <;> simp [unlinked, h]

/-- A save unlinks the entry of the old partner of `a`, and that of the old
partner of `b`, if they point back. -/
theorem mem_stale : k ∈ c.stale a b keys ↔
    (∃ y, keys.get? (c.forwardKey a) = some y ∧ y ≠ b ∧ k = c.reverseKey y ∧
      keys.get? (c.reverseKey y) = some a) ∨
    (∃ x, keys.get? (c.reverseKey b) = some x ∧ x ≠ a ∧ k = c.forwardKey x ∧
      keys.get? (c.forwardKey x) = some b) := by
  simp only [stale, pointing, List.mem_map, List.mem_filter, List.mem_append, Prod.exists,
    mem_unlinked, decide_eq_true_eq]
  constructor
  · rintro ⟨j, o, ⟨⟨y, hy, hne, rfl, rfl⟩ | ⟨x, hx, hne, rfl, rfl⟩, hp⟩, rfl⟩
    · exact Or.inl ⟨y, hy, hne, rfl, hp⟩
    · exact Or.inr ⟨x, hx, hne, rfl, hp⟩
  · rintro (⟨y, hy, hne, rfl, hp⟩ | ⟨x, hx, hne, rfl, hp⟩)
    · exact ⟨_, _, ⟨Or.inl ⟨y, hy, hne, rfl, rfl⟩, hp⟩, rfl⟩
    · exact ⟨_, _, ⟨Or.inr ⟨x, hx, hne, rfl, rfl⟩, hp⟩, rfl⟩

theorem get?_cleared (k : String) :
    (c.cleared a b keys).get? k = if k ∈ c.stale a b keys then none else keys.get? k :=
  Keys.get?_deleteAll _ _ _

theorem get?_cleared_eq_some {v : String} :
    (c.cleared a b keys).get? k = some v ↔ k ∉ c.stale a b keys ∧ keys.get? k = some v := by
  rw [get?_cleared]
  by_cases h : k ∈ c.stale a b keys <;> simp [h]

theorem forwardKey_mem_stale (hc : c.SidesApart) {x : String} :
    c.forwardKey x ∈ c.stale a b keys ↔ keys.get? (c.reverseKey b) = some x ∧ x ≠ a ∧
      keys.get? (c.forwardKey x) = some b := by
  rw [mem_stale]
  constructor
  · rintro (⟨y, _, _, he, _⟩ | ⟨x', hx, hne, he, hp⟩)
    · exact absurd he (forwardKey_ne_reverseKey hc _ _)
    · rw [forwardKey_inj] at he
      subst he
      exact ⟨hx, hne, hp⟩
  · rintro ⟨hx, hne, hp⟩
    exact Or.inr ⟨x, hx, hne, rfl, hp⟩

theorem reverseKey_mem_stale (hc : c.SidesApart) {y : String} :
    c.reverseKey y ∈ c.stale a b keys ↔ keys.get? (c.forwardKey a) = some y ∧ y ≠ b ∧
      keys.get? (c.reverseKey y) = some a := by
  rw [mem_stale]
  constructor
  · rintro (⟨y', hy, hne, he, hp⟩ | ⟨x, _, _, he, _⟩)
    · rw [reverseKey_inj] at he
      subst he
      exact ⟨hy, hne, hp⟩
    · exact absurd he (reverseKey_ne_forwardKey hc _ _)
  · rintro ⟨hy, hne, hp⟩
    exact Or.inl ⟨y, hy, hne, rfl, hp⟩

theorem get?_cleared_forwardKey (hc : c.SidesApart) :
    (c.cleared a b keys).get? (c.forwardKey a) = keys.get? (c.forwardKey a) := by
  rw [get?_cleared, if_neg]
  rw [forwardKey_mem_stale hc]
  exact fun h => h.2.1 rfl

theorem get?_cleared_reverseKey (hc : c.SidesApart) :
    (c.cleared a b keys).get? (c.reverseKey b) = keys.get? (c.reverseKey b) := by
  rw [get?_cleared, if_neg]
  rw [reverseKey_mem_stale hc]
  exact fun h => h.2.1 rfl

/-! ## Retries converge -/

/-- Once the keys are cleared there is nothing left to unlink. -/
theorem stale_cleared (hc : c.SidesApart) : c.stale a b (c.cleared a b keys) = [] := by
  apply List.eq_nil_iff_forall_not_mem.2
  intro k hk
  rw [mem_stale, get?_cleared_forwardKey hc, get?_cleared_reverseKey hc] at hk
  rcases hk with ⟨y, hy, hne, _, hp⟩ | ⟨x, hx, hne, _, hp⟩
  · rw [get?_cleared] at hp
    split at hp
    · cases hp
    · rename_i hnot
      exact hnot ((reverseKey_mem_stale hc).2 ⟨hy, hne, hp⟩)
  · rw [get?_cleared] at hp
    split at hp
    · cases hp
    · rename_i hnot
      exact hnot ((forwardKey_mem_stale hc).2 ⟨hx, hne, hp⟩)

theorem get?_half (k : String) :
    (c.half a b keys).get? k = if k = c.forwardKey a then some b else (c.cleared a b keys).get? k :=
  Table.get?_insert _ _ _ _

theorem stale_half (hc : c.SidesApart) : c.stale a b (c.half a b keys) = [] := by
  apply List.eq_nil_iff_forall_not_mem.2
  intro k hk
  rw [mem_stale] at hk
  rcases hk with ⟨y, hy, hne, _, _⟩ | ⟨x, hx, hne, _, hp⟩
  · rw [get?_half, if_pos rfl] at hy
    exact hne (Option.some.inj hy).symm
  · rw [get?_half, if_neg (reverseKey_ne_forwardKey hc _ _)] at hx
    rw [get?_half, if_neg (fun he => hne (forwardKey_inj.1 he))] at hp
    have : c.forwardKey x ∈ c.stale a b (c.cleared a b keys) :=
      (forwardKey_mem_stale hc).2 ⟨hx, hne, hp⟩
    rw [stale_cleared hc] at this
    cases this

theorem get?_saved (k : String) :
    (c.saved a b keys).get? k = if k = c.reverseKey b then some a else (c.half a b keys).get? k :=
  Table.get?_insert _ _ _ _

theorem get?_saved_forwardKey (hc : c.SidesApart) :
    (c.saved a b keys).get? (c.forwardKey a) = some b := by
  rw [get?_saved, if_neg (forwardKey_ne_reverseKey hc _ _), get?_half, if_pos rfl]

theorem get?_saved_reverseKey : (c.saved a b keys).get? (c.reverseKey b) = some a := by
  rw [get?_saved, if_pos rfl]

theorem stale_saved (hc : c.SidesApart) : c.stale a b (c.saved a b keys) = [] := by
  apply List.eq_nil_iff_forall_not_mem.2
  intro k hk
  rw [mem_stale, get?_saved_forwardKey hc, get?_saved_reverseKey] at hk
  rcases hk with ⟨y, hy, hne, _, _⟩ | ⟨x, hx, hne, _, _⟩
  · exact hne (Option.some.inj hy).symm
  · exact hne (Option.some.inj hx).symm

theorem cleared_eq_self (h : c.stale a b keys = []) : c.cleared a b keys = keys := by
  rw [cleared, h]
  rfl

theorem half_eq_self (h : c.stale a b keys = []) (hf : keys.get? (c.forwardKey a) = some b) :
    c.half a b keys = keys := by
  rw [PairCache.half, cleared_eq_self h]
  exact Table.insert_eq_self hf

theorem saved_eq_self (h : c.stale a b keys = []) (hf : keys.get? (c.forwardKey a) = some b)
    (hr : keys.get? (c.reverseKey b) = some a) : c.saved a b keys = keys := by
  rw [PairCache.saved, half_eq_self h hf]
  exact Table.insert_eq_self hr

/-- From any stage the next steps of a save lead to stages, and to the same end. -/
theorem SaveStage.onward (hc : c.SidesApart) {mid : Keys} (h : c.SaveStage a b keys mid) :
    c.SaveStage a b keys (c.cleared a b mid) ∧ c.SaveStage a b keys (c.half a b mid) ∧
      c.saved a b mid = c.saved a b keys := by
  cases h with
  | before => exact ⟨.cleared, .half, rfl⟩
  | cleared =>
    have hcl : c.cleared a b (c.cleared a b keys) = c.cleared a b keys :=
      cleared_eq_self (stale_cleared hc)
    have hh : c.half a b (c.cleared a b keys) = c.half a b keys := by
      unfold PairCache.half
      rw [hcl]
    have hs : c.saved a b (c.cleared a b keys) = c.saved a b keys := by
      unfold PairCache.saved
      rw [hh]
    rw [hcl, hh, hs]
    exact ⟨.cleared, .half, rfl⟩
  | half =>
    have hcl : c.cleared a b (c.half a b keys) = c.half a b keys := cleared_eq_self (stale_half hc)
    have hh : c.half a b (c.half a b keys) = c.half a b keys :=
      half_eq_self (stale_half hc) (by rw [get?_half, if_pos rfl])
    have hs : c.saved a b (c.half a b keys) = c.saved a b keys := by
      unfold PairCache.saved
      rw [hh]
    rw [hcl, hh, hs]
    exact ⟨.half, .half, rfl⟩
  | saved =>
    have hcl : c.cleared a b (c.saved a b keys) = c.saved a b keys :=
      cleared_eq_self (stale_saved hc)
    have hh : c.half a b (c.saved a b keys) = c.saved a b keys :=
      half_eq_self (stale_saved hc) (get?_saved_forwardKey hc)
    have hs : c.saved a b (c.saved a b keys) = c.saved a b keys :=
      saved_eq_self (stale_saved hc) (get?_saved_forwardKey hc) get?_saved_reverseKey
    rw [hcl, hh, hs]
    exact ⟨.saved, .saved, rfl⟩

theorem SaveStage.trans (hc : c.SidesApart) {mid fin : Keys} (h : c.SaveStage a b keys mid)
    (h' : c.SaveStage a b mid fin) : c.SaveStage a b keys fin := by
  obtain ⟨hcl, hh, hs⟩ := h.onward hc
  cases h' with
  | before => exact h
  | cleared => exact hcl
  | half => exact hh
  | saved => exact hs ▸ .saved

/-- With nothing to unlink at the start, there is nothing to unlink later. -/
theorem SaveStage.stale_eq_nil (hc : c.SidesApart) {now : Keys} (hs : c.SaveStage a b keys now)
    (h : c.stale a b keys = []) : c.stale a b now = [] := by
  cases hs with
  | before => exact h
  | cleared => exact stale_cleared hc
  | half => exact stale_half hc
  | saved => exact stale_saved hc

/-- From a half written pair on, the entry from `a` stays. -/
theorem SaveStage.get?_forwardKey (hc : c.SidesApart) {now : Keys} (hs : c.SaveStage a b keys now)
    (h : keys.get? (c.forwardKey a) = some b) : now.get? (c.forwardKey a) = some b := by
  cases hs with
  | before => exact h
  | cleared => rw [get?_cleared_forwardKey hc, h]
  | half => rw [get?_half, if_pos rfl]
  | saved => exact get?_saved_forwardKey hc

/-- A saved pair is the last stage. -/
theorem SaveStage.eq_saved (hc : c.SidesApart) {now : Keys}
    (hs : c.SaveStage a b (c.saved a b keys) now) : now = c.saved a b keys := by
  have hst : c.stale a b (c.saved a b keys) = [] := stale_saved hc
  have hf : (c.saved a b keys).get? (c.forwardKey a) = some b := get?_saved_forwardKey hc
  cases hs with
  | before => rfl
  | cleared => exact cleared_eq_self hst
  | half => exact half_eq_self hst hf
  | saved => exact saved_eq_self hst hf get?_saved_reverseKey

/-- A save that goes on from any stage stays within the stages, and one that
succeeds leaves what the first attempt would have left. -/
theorem SaveStage.endures (hc : c.SidesApart) {mid : Keys} (h : c.SaveStage a b keys mid) :
    (c.save a b).Endures (c.SaveStage a b keys) (fun r k => r = .ok () → k = c.saved a b keys)
      mid := by
  refine (endures_save_once c a b mid).imp (fun fin h' => h.trans hc h') ?_
  intro r k hk hr
  rw [hk hr]
  exact (h.onward hc).2.2

/-- An entry of a stage is one of the pair, or was there at the start. -/
theorem SaveStage.origin {now : Keys} {v : String} (h : c.SaveStage a b keys now)
    (hv : now.get? k = some v) :
    k = c.forwardKey a ∧ v = b ∨ k = c.reverseKey b ∧ v = a ∨ keys.get? k = some v := by
  have hhalf : (c.half a b keys).get? k = some v →
      k = c.forwardKey a ∧ v = b ∨ keys.get? k = some v := by
    intro hv
    rw [get?_half] at hv
    by_cases hk : k = c.forwardKey a
    · rw [if_pos hk] at hv
      exact Or.inl ⟨hk, (Option.some.inj hv).symm⟩
    · rw [if_neg hk] at hv
      exact Or.inr (get?_cleared_eq_some.1 hv).2
  cases h with
  | before => exact Or.inr (Or.inr hv)
  | cleared => exact Or.inr (Or.inr (get?_cleared_eq_some.1 hv).2)
  | half => exact (hhalf hv).imp_right Or.inr
  | saved =>
    rw [get?_saved] at hv
    by_cases hk : k = c.reverseKey b
    · rw [if_pos hk] at hv
      exact Or.inr (Or.inl ⟨hk, (Option.some.inj hv).symm⟩)
    · rw [if_neg hk] at hv
      exact (hhalf hv).imp_right Or.inr

/-- A save that is stopped anywhere writes no entry of one side but its own. -/
theorem SaveStage.forward (hc : c.SidesApart) {now : Keys} {x y : String}
    (hs : c.SaveStage a b keys now) (h : now.get? (c.forwardKey x) = some y) :
    x = a ∧ y = b ∨ keys.get? (c.forwardKey x) = some y := by
  rcases hs.origin h with ⟨hk, hv⟩ | ⟨hk, _⟩ | hk
  · exact Or.inl ⟨forwardKey_inj.1 hk, hv⟩
  · exact absurd hk (forwardKey_ne_reverseKey hc _ _)
  · exact Or.inr hk

theorem SaveStage.reverse (hc : c.SidesApart) {now : Keys} {x y : String}
    (hs : c.SaveStage a b keys now) (h : now.get? (c.reverseKey y) = some x) :
    x = a ∧ y = b ∨ keys.get? (c.reverseKey y) = some x := by
  rcases hs.origin h with ⟨hk, _⟩ | ⟨hk, hv⟩ | hk
  · exact absurd hk (reverseKey_ne_forwardKey hc _ _)
  · exact Or.inl ⟨hv, reverseKey_inj.1 hk⟩
  · exact Or.inr hk

/-- What the save unlinks is gone once the save has begun to change the keys. -/
theorem SaveStage.get?_of_mem_stale (hc : c.SidesApart) {now : Keys} (h : c.SaveStage a b keys now)
    (hk : k ∈ c.stale a b keys) : now = keys ∨ now.get? k = none := by
  have hcl : (c.cleared a b keys).get? k = none := by
    rw [get?_cleared, if_pos hk]
  have hf : k ≠ c.forwardKey a := by
    rintro rfl
    exact ((forwardKey_mem_stale hc).1 hk).2.1 rfl
  have hr : k ≠ c.reverseKey b := by
    rintro rfl
    exact ((reverseKey_mem_stale hc).1 hk).2.1 rfl
  cases h with
  | before => exact Or.inl rfl
  | cleared => exact Or.inr hcl
  | half => exact Or.inr (by rw [get?_half, if_neg hf, hcl])
  | saved => exact Or.inr (by rw [get?_saved, if_neg hr, get?_half, if_neg hf, hcl])

/-! ## Removals -/

/-- What a removal of `value` by its entry `own` leaves. -/
def removed (own value : String) (keyOf : String → String) (keys : Keys) : Keys :=
  match keys.get? own with
  | none => keys
  | some partner =>
    (Keys.deleteAll (if keys.get? (keyOf partner) = some value then [own, keyOf partner] else [own])
      keys).2

theorem run_removeEntry (c : PairCache) (own value : String) (keyOf : String → String)
    (keys : Keys) : Keys.run (c.removeEntry own value keyOf) keys
      = (.ok (keys.get? own).isSome, removed own value keyOf keys) := by
  simp only [removeEntry, run_orFail, Keys.answer, removed]
  cases h : keys.get? own <;> rfl

theorem get?_removed_own (own value : String) (keyOf : String → String) (keys : Keys) :
    (removed own value keyOf keys).get? own = none := by
  unfold removed
  split
  · assumption
  · rw [Keys.get?_deleteAll, if_pos]
    split <;> simp

theorem removed_removed (own value : String) (keyOf : String → String) (keys : Keys) :
    removed own value keyOf (removed own value keyOf keys) = removed own value keyOf keys := by
  rw [removed, get?_removed_own]

/-- A removal leaves the keys as they were or is done; from either, a removal
that succeeds is done. -/
theorem endures_removeEntry (c : PairCache) (own value : String) (keyOf : String → String)
    {keys mid : Keys} (h : mid = keys ∨ mid = removed own value keyOf keys) :
    (c.removeEntry own value keyOf).Endures
      (fun k => k = keys ∨ k = removed own value keyOf keys)
      (fun r k => (∃ found, r = .ok found) → k = removed own value keyOf keys) mid := by
  have hf : ∀ (e : CacheError) (k : Keys),
      (∃ found, (.error e : Except CacheError Bool) = .ok found) →
        k = removed own value keyOf keys := by
    rintro e k ⟨found, hn⟩
    cases hn
  have hr : removed own value keyOf mid = removed own value keyOf keys := by
    rcases h with rfl | rfl
    · rfl
    · exact removed_removed _ _ _ _
  refine .orFail h hf ?_
  simp only [Keys.answer]
  cases ho : mid.get? own with
  | none =>
    refine ⟨h, fun _ => ?_⟩
    rw [← hr, removed, ho]
  | some partner =>
    refine .orFail h hf (.orFail h hf ?_)
    have hm : (Keys.deleteAll (if mid.get? (keyOf partner) = some value
        then [own, keyOf partner] else [own]) mid).2 = removed own value keyOf keys := by
      rw [← hr, removed, ho]
    exact ⟨Or.inr hm, fun _ => hm⟩

end PairCache

end LifecycleLog
