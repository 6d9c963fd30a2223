-- Replays of a log. What was handled before may be any events of the log, in
-- any order and any number of times: a replay of the whole log then leaves the
-- routes that it leaves alone. This holds of route maps that share all of their
-- keys or none. Where one map lies within the other, two routes of the outer
-- map can pass for a pair of the inner one, and a second replay drops a route.
import LifecycleLog.Proofs.Cache.KeySpaces
import LifecycleLog.Proofs.Projection.LastWriter

namespace LifecycleLog

/-! ## What stands after a repetition -/

/-- What the elements of a list put up before the list is of no account. -/
theorem standing_append_of_subset {α : Type} {puts takes : α → Prop} {past l : List α}
    (h : ∀ x ∈ past, x ∈ l) : Standing puts takes (past ++ l) ↔ Standing puts takes l := by
  constructor
  · rintro ⟨before, x, after, he, hx, hafter⟩
    rcases List.append_eq_append_iff.1 he with ⟨mid, _, hl⟩ | ⟨mid, hpast, hl⟩
    · exact ⟨mid, x, after, hl, hx, hafter⟩
    · cases mid with
      | nil => exact ⟨[], x, after, hl.symm, hx, hafter⟩
      | cons y mid =>
        -- the fact was put up before the list, which has the element too and takes nothing down
        obtain ⟨rfl, rfl⟩ := List.cons.inj hl
        obtain ⟨front, back, hsplit⟩ := List.append_of_mem (h x (by simp [hpast]))
        refine ⟨front, x, back, hsplit, hx, fun z hz => hafter z ?_⟩
        simp [hsplit, hz]
  · rintro ⟨before, x, after, rfl, hx, hafter⟩
    exact ⟨past ++ before, x, after, by simp, hx, hafter⟩

namespace PairCache

theorem pairsAfter_append_of_subset {past calls : List PairCall} (h : ∀ c ∈ past, c ∈ calls) :
    pairsAfter (past ++ calls) = pairsAfter calls := by
  ext ⟨a, b⟩
  rw [mem_pairsAfter, mem_pairsAfter, standing_append_of_subset h]

/-- The pairs say what stands under every key of the cache. -/
theorem Holds.get?_eq {c : PairCache} {keys keys' : Keys} {r : Pairing} (h : c.Holds keys r)
    (h' : c.Holds keys' r) {key : String} (hk : c.Owns key) : keys.get? key = keys'.get? key := by
  obtain ⟨x, rfl | rfl⟩ := hk
  · apply Option.ext
    intro y
    rw [h.forward, h'.forward]
  · apply Option.ext
    intro y
    rw [h.reverse, h'.reverse]

end PairCache

/-! ## Maps of one key space, and maps apart -/

namespace RouteClasses

/-- The route maps of the classes share all of their keys or none. -/
def SameOrApart (p : RouteClasses) : Prop := p.thing.space = p.channel.space ∨ p.SpacesApart

/-- No class has a route. -/
def Unrouted (p : RouteClasses) (keys : Keys) : Prop :=
  ∀ kind key, (p.ofKind kind).routes.pairs.Owns key → keys.get? key = none

variable {p : RouteClasses}

theorem SameOrApart.kinds (h : p.SameOrApart) (k kind : EntityKind) :
    (p.ofKind k).routes = (p.ofKind kind).routes ∨
      ∀ key, (p.ofKind kind).routes.pairs.Owns key → ¬ (p.ofKind k).routes.pairs.Owns key := by
  by_cases hk : k = kind
  · exact Or.inl (by rw [hk])
  rcases h with hs | ha
  · cases k <;> cases kind <;> simp [ofKind, RouteClass.routes, hs]
  · exact Or.inr fun key => ha.kinds hk

/-- Otherwise one of the maps lies within the other. -/
theorem sameOrApart_or_within (p : RouteClasses) :
    p.SameOrApart ∨ ∃ outer inner, (p.ofKind inner).routes.Within (p.ofKind outer).routes := by
  by_cases hshared : ∃ key, p.thing.routes.pairs.Owns key ∧ p.channel.routes.pairs.Owns key
  · obtain ⟨key, ht, hc⟩ := hshared
    rcases RouteMap.same_or_within ht hc with hs | hw | hw
    · exact Or.inl (Or.inl hs)
    · exact Or.inr ⟨.channel, .thing, hw⟩
    · exact Or.inr ⟨.thing, .channel, hw⟩
  · exact Or.inl (Or.inr fun key ht hc => hshared ⟨key, ht, hc⟩)

end RouteClasses

/-- What an event does to a route map. -/
def Event.callOn (p : RouteClasses) (m : RouteMap) (e : Event) : Option PairCall :=
  (e.routing? p).bind (fun r => if (p.ofKind r.1).routes = m then some r.2 else none)

namespace Projection

/-- The keys after events are handled with no failure, one after the other. -/
def handleAll (p : RouteClasses) (events : List Event) (keys : Keys) : Keys :=
  events.foldl (fun keys e => (Keys.run (handle p e) keys).2) keys

theorem handleAll_snoc (p : RouteClasses) (events : List Event) (e : Event) (keys : Keys) :
    handleAll p (events ++ [e]) keys = (Keys.run (handle p e) (handleAll p events keys)).2 := by
  simp [handleAll]

theorem handleAll_append (p : RouteClasses) (past log : List Event) (keys : Keys) :
    handleAll p (past ++ log) keys = handleAll p log (handleAll p past keys) := by
  simp [handleAll]

variable {p : RouteClasses} {keys : Keys}

/-- One event: the routes of a map stay those of the pairs. -/
theorem holds_handle_on (hp : p.SameOrApart) {kind : EntityKind} {r : Pairing}
    (h : (p.ofKind kind).routes.pairs.Holds keys r) (e : Event) :
    (p.ofKind kind).routes.pairs.Holds (Keys.run (handle p e) keys).2
      ((e.callOn p (p.ofKind kind).routes).elim r (fun c => c.next r)) := by
  rw [run_handle]
  unfold Event.callOn
  rcases e.routing? p with _ | ⟨k, c⟩
  · exact h
  by_cases hm : (p.ofKind k).routes = (p.ofKind kind).routes
  · simp only [Option.bind_some, hm, if_true, Option.elim_some]
    exact (h.step (PairCache.sidesApart_routes _) c).1
  · have hapart := (hp.kinds k kind).resolve_left hm
    simp only [Option.bind_some, hm, if_false, Option.elim_none]
    apply h.frame
    intro key hkey
    exact get?_run_of_keepsTo (PairCache.keepsTo_program _ c) _ (hapart key hkey)

theorem holds_handleAll (hp : p.SameOrApart) (hk : p.Unrouted keys) (kind : EntityKind)
    (events : List Event) :
    (p.ofKind kind).routes.pairs.Holds (handleAll p events keys)
      (PairCache.pairsAfter (events.filterMap (Event.callOn p (p.ofKind kind).routes))) := by
  induction events using List.reverseRecOn with
  | nil => exact PairCache.holds_empty (hk kind)
  | append_singleton events e ih =>
    have h := holds_handle_on hp ih e
    rw [handleAll_snoc, List.filterMap_append]
    cases hc : e.callOn p (p.ofKind kind).routes with
    | none => simpa [hc] using h
    | some c => simpa [hc, PairCache.pairsAfter_snoc] using h

theorem get?_handleAll_of_not_owns {key : String}
    (hk : ∀ kind, ¬ (p.ofKind kind).routes.pairs.Owns key) (events : List Event) :
    (handleAll p events keys).get? key = keys.get? key := by
  induction events using List.reverseRecOn with
  | nil => rfl
  | append_singleton events e ih =>
    rw [handleAll_snoc, run_handle]
    rcases e.routing? p with _ | ⟨k, c⟩
    · exact ih
    · rw [← ih]
      exact get?_run_of_keepsTo (PairCache.keepsTo_program _ c) _ (hk k)

/-- Events of a log that were handled before the log leave nothing behind. -/
theorem handleAll_append_of_subset (hp : p.SameOrApart) (hk : p.Unrouted keys)
    {past log : List Event} (hpast : ∀ e ∈ past, e ∈ log) :
    handleAll p (past ++ log) keys = handleAll p log keys := by
  apply Table.ext_get?
  intro key
  by_cases hown : ∃ kind, (p.ofKind kind).routes.pairs.Owns key
  · obtain ⟨kind, hkind⟩ := hown
    have hsub : ∀ c ∈ past.filterMap (Event.callOn p (p.ofKind kind).routes),
        c ∈ log.filterMap (Event.callOn p (p.ofKind kind).routes) := by
      intro c hc
      rw [List.mem_filterMap] at hc ⊢
      obtain ⟨e, he, hcall⟩ := hc
      exact ⟨e, hpast e he, hcall⟩
    have hboth := holds_handleAll hp hk kind (past ++ log)
    rw [List.filterMap_append, PairCache.pairsAfter_append_of_subset hsub] at hboth
    exact hboth.get?_eq (holds_handleAll hp hk kind log) hkind
  · rw [not_exists] at hown
    rw [get?_handleAll_of_not_owns hown, get?_handleAll_of_not_owns hown]

/-! ## A map within the other one -/

section Mistaken

variable {outer inner : PairCache} {e i x y : String}

/-- A save of `e` and `x`, a removal of `x` from another cache, and a save of
`i` and `y`. -/
def mistaken (outer inner : PairCache) (e i x y : String) (keys : Keys) : Keys :=
  outer.saved i y
    (PairCache.removed (inner.reverseKey x) x inner.forwardKey (outer.saved e x keys))

/-- Where no entry looks like one of `x` to the other cache, both pairs stay. -/
theorem mistaken_of_none (ho : outer.SidesApart) (hne : e ≠ i)
    (hi : inner.reverseKey x = outer.forwardKey i) (h : outer.Inverse keys)
    (hk : keys.get? (outer.forwardKey i) = none) :
    mistaken outer inner e i x y keys = outer.saved i y (outer.saved e x keys) := by
  have hnone : (outer.saved e x keys).get? (inner.reverseKey x) = none := by
    rw [Option.eq_none_iff_forall_ne_some]
    intro z hz
    rw [hi, PairCache.get?_saved_forwardKey_iff ho h, hk] at hz
    rcases hz with ⟨rfl, _⟩ | ⟨_, _, hz⟩
    · exact hne rfl
    · cases hz
  unfold mistaken PairCache.removed
  rw [hnone]

/-- Where the forward entries of both pairs are there, they look like the pair
of `y` and `x` to the other cache. The removal takes both, and the save after
it brings back one. -/
theorem mistaken_of_some (ho : outer.SidesApart) (hxy : x ≠ y) (hne : e ≠ i)
    (hi : inner.reverseKey x = outer.forwardKey i) (he : inner.forwardKey y = outer.forwardKey e)
    (h : outer.Inverse keys) (hk : keys.get? (outer.forwardKey i) = some y) :
    (mistaken outer inner e i x y keys).get? (outer.forwardKey e) = none := by
  have hy : (outer.saved e x keys).get? (outer.forwardKey i) = some y :=
    (PairCache.get?_saved_forwardKey_iff ho h).2 (Or.inr ⟨hne.symm, hxy.symm, hk⟩)
  have hx : (outer.saved e x keys).get? (outer.forwardKey e) = some x :=
    PairCache.get?_saved_forwardKey ho
  have hgone : (PairCache.removed (inner.reverseKey x) x inner.forwardKey
      (outer.saved e x keys)).get? (outer.forwardKey e) = none := by
    simp only [PairCache.removed, hi, hy, he, hx, if_true, Keys.get?_deleteAll]
    simp
  unfold mistaken
  rw [PairCache.get?_saved, if_neg (PairCache.forwardKey_ne_reverseKey ho _ _),
    PairCache.get?_half, if_neg (fun hei => hne (PairCache.forwardKey_inj.1 hei)),
    PairCache.get?_cleared, hgone, ite_self]

/-- So the three calls made twice do not leave what they leave when made once. -/
theorem mistaken_mistaken_ne (ho : outer.SidesApart) (hxy : x ≠ y) (hne : e ≠ i)
    (hi : inner.reverseKey x = outer.forwardKey i) (he : inner.forwardKey y = outer.forwardKey e) :
    mistaken outer inner e i x y (mistaken outer inner e i x y ∅)
      ≠ mistaken outer inner e i x y ∅ := by
  have hempty : outer.Inverse ∅ := fun a b => by simp
  have hsaved : outer.Inverse (outer.saved e x ∅) := hempty.saved ho
  have honce : mistaken outer inner e i x y ∅ = outer.saved i y (outer.saved e x ∅) :=
    mistaken_of_none ho hne hi hempty rfl
  have hfirst : (mistaken outer inner e i x y ∅).get? (outer.forwardKey e) = some x := by
    rw [honce]
    exact (PairCache.get?_saved_forwardKey_iff ho hsaved).2
      (Or.inr ⟨hne, hxy, PairCache.get?_saved_forwardKey ho⟩)
  intro hsame
  have hsecond : (mistaken outer inner e i x y (mistaken outer inner e i x y ∅)).get?
      (outer.forwardKey e) = none := by
    rw [honce]
    exact mistaken_of_some ho hxy hne hi he (hsaved.saved ho) (PairCache.get?_saved_forwardKey ho)
  rw [hsame, hfirst] at hsecond
  cases hsecond

end Mistaken

theorem run_handle_created (p : RouteClasses) (kind : EntityKind) (id foreign : String)
    (keys : Keys) :
    (Keys.run (handle p (.created kind id "" ⟨none, some foreign, none⟩)) keys).2
      = (p.ofKind kind).routes.pairs.saved foreign id keys := by
  rw [run_handle]
  exact congrArg Prod.snd (PairCache.run_save _ _ _ _)

theorem run_handle_removed (p : RouteClasses) (kind : EntityKind) (id : String) (keys : Keys) :
    (Keys.run (handle p (.removed kind id)) keys).2
      = PairCache.removed ((p.ofKind kind).routes.pairs.reverseKey id) id
          (p.ofKind kind).routes.pairs.forwardKey keys := by
  rw [run_handle]
  exact congrArg Prod.snd (PairCache.run_removeEntry _ _ _ _ _)

/-- A second replay of a log can leave other routes where one map lies within another. -/
theorem handleAll_twice_ne_of_within {outer inner : EntityKind}
    (h : (p.ofKind inner).routes.Within (p.ofKind outer).routes) :
    ∃ log, handleAll p log (handleAll p log ∅) ≠ handleAll p log ∅ := by
  obtain ⟨start, hkeys⟩ := h.keys
  have ho := PairCache.sidesApart_routes (p.ofKind outer).routes
  have hxy : "x" ≠ "y" := by decide
  have hne : start ++ "ext:" ++ "y" ≠ start ++ "int:" ++ "x" := by
    simp [String.append_assoc, String.append_right_inj]
  rcases hkeys with hkeys | hkeys
  · -- the inner keys are those of foreign ids of the outer map
    refine ⟨[.created outer "x" "" ⟨none, some (start ++ "ext:" ++ "y"), none⟩, .removed inner "x",
      .created outer "y" "" ⟨none, some (start ++ "int:" ++ "x"), none⟩], ?_⟩
    simp only [handleAll, List.foldl_cons, List.foldl_nil, run_handle_created, run_handle_removed]
    exact mistaken_mistaken_ne ho hxy hne (hkeys "x").2 (hkeys "y").1
  · -- they are those of entities of the outer map
    refine ⟨[.created outer (start ++ "ext:" ++ "y") "" ⟨none, some "x", none⟩, .removed inner "x",
      .created outer (start ++ "int:" ++ "x") "" ⟨none, some "y", none⟩], ?_⟩
    simp only [handleAll, List.foldl_cons, List.foldl_nil, run_handle_created, run_handle_removed,
      ← PairCache.saved_swap ho]
    exact mistaken_mistaken_ne (PairCache.sidesApart_swap ho) hxy hne (hkeys "x").2 (hkeys "y").1

/-- Replays converge. From a store with no route, and whatever events of a log
were handled before, the log leaves the keys that it leaves alone: so it is for
all logs if the route maps of the classes share all of their keys or none, and
only then. -/
theorem a_replay_converges_iff_the_spaces_are_the_same_or_apart (p : RouteClasses) :
    (∀ keys, p.Unrouted keys → ∀ past log : List Event, (∀ e ∈ past, e ∈ log) →
      handleAll p log (handleAll p past keys) = handleAll p log keys) ↔ p.SameOrApart := by
  constructor
  · intro h
    rcases RouteClasses.sameOrApart_or_within p with hp | ⟨outer, inner, hw⟩
    · exact hp
    · obtain ⟨log, hne⟩ := handleAll_twice_ne_of_within hw
      exact absurd (h ∅ (fun _ _ _ => rfl) log log (fun e he => he)) hne
  · intro hp keys hk past log hpast
    rw [← handleAll_append]
    exact handleAll_append_of_subset hp hk hpast

/-- Not every replay converges. With the spaces `lora` and `lora:ext` the routes
of things `a` and `b` pass for a channel with the foreign id `b`, and when the
log is replayed the removal of that channel takes the route of `a`. -/
theorem a_replay_over_nested_spaces_drops_a_route :
    ¬ ∀ (p : RouteClasses) (keys : Keys), p.Unrouted keys → ∀ past log : List Event,
      (∀ e ∈ past, e ∈ log) → handleAll p log (handleAll p past keys) = handleAll p log keys := by
  intro h
  have hsame := h ⟨⟨"lora", "/dev"⟩, ⟨"lora:ext", "/app"⟩⟩ ∅ (fun _ _ _ => rfl)
    [.created .thing "a" "o" ⟨none, some "ext:b", none⟩, .removed .channel "a",
      .created .thing "b" "o" ⟨none, some "int:a", none⟩]
    [.created .thing "a" "o" ⟨none, some "ext:b", none⟩, .removed .channel "a",
      .created .thing "b" "o" ⟨none, some "int:a", none⟩] (fun e he => he)
  have hdiffers := congrArg (fun keys => keys.get? "lora:ext:ext:b") hsame
  revert hdiffers
  decide +kernel

end Projection

end LifecycleLog
