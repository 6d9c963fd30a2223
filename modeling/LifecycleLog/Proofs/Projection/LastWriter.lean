-- Routes by their last writer. An event gives a foreign id to an entity, or
-- takes one away, or leaves the routes of a class alone. After any events an
-- id is routed just where the last event about it left it, and the adapter
-- answers so in both directions.
import LifecycleLog.Adapter
import LifecycleLog.Proofs.Cache.Pairing
import LifecycleLog.Proofs.Projection.ForeignIds
import LifecycleLog.Settings

namespace LifecycleLog

/-! ## What stands at the end -/

/-- Something in the list puts a fact up, and nothing after it takes it down. -/
def Standing {α : Type} (puts takes : α → Prop) (l : List α) : Prop :=
  ∃ before x after, l = before ++ x :: after ∧ puts x ∧ ∀ y ∈ after, ¬ takes y

section Standing

variable {α β : Type} {puts takes : α → Prop}

theorem not_standing_nil : ¬ Standing puts takes [] := by
  rintro ⟨before, x, after, h, _⟩
  simp at h

theorem standing_snoc (l : List α) (x : α) :
    Standing puts takes (l ++ [x]) ↔ puts x ∨ Standing puts takes l ∧ ¬ takes x := by
  constructor
  · rintro ⟨before, y, after, h, hy, hafter⟩
    rcases List.eq_nil_or_concat after with rfl | ⟨rest, z, rfl⟩
    · obtain ⟨_, hx⟩ := List.append_inj' h rfl
      simp only [List.cons.injEq, and_true] at hx
      exact Or.inl (hx ▸ hy)
    · have h' : l ++ [x] = (before ++ y :: rest) ++ [z] := by simp [h]
      obtain ⟨hl, hx⟩ := List.append_inj' h' rfl
      simp only [List.cons.injEq, and_true] at hx
      subst hx
      refine Or.inr ⟨⟨before, y, rest, hl, hy, fun e he => hafter e ?_⟩, hafter x ?_⟩
      · simp [he]
      · simp
  · rintro (hx | ⟨⟨before, y, after, rfl, hy, hafter⟩, hx⟩)
    · exact ⟨l, x, [], rfl, hx, by simp⟩
    · refine ⟨before, y, after ++ [x], by simp, hy, ?_⟩
      intro e he
      rcases List.mem_append.1 he with he | he
      · exact hafter e he
      · rw [List.mem_singleton] at he
        exact he ▸ hx

/-- Elements that have no image neither put the fact up nor take it down. -/
theorem standing_filterMap {puts' takes' : β → Prop} {f : β → Option α}
    (hputs : ∀ y, puts' y ↔ ∃ x, f y = some x ∧ puts x)
    (htakes : ∀ y, takes' y ↔ ∃ x, f y = some x ∧ takes x) (l : List β) :
    Standing puts takes (l.filterMap f) ↔ Standing puts' takes' l := by
  induction l using List.reverseRecOn with
  | nil => simp [not_standing_nil]
  | append_singleton l y ih =>
    rw [List.filterMap_append, standing_snoc, hputs, htakes]
    cases hy : f y with
    | none => simp [hy, ih]
    | some x =>
      have hx : List.filterMap f [y] = [x] := by simp [hy]
      rw [hx, standing_snoc, ih]
      simp

end Standing

/-! ## Pairs -/

/-- The operation parts `a` and `b`, if they were a pair. -/
def PairCall.Parts (a b : String) : PairCall → Prop
  | .save x y => x = a ∧ y ≠ b ∨ x ≠ a ∧ y = b
  | .remove x => x = a
  | .removeReverse y => y = b
  | .get _ => False
  | .getReverse _ => False

theorem PairCall.mem_next {r : Pairing} {a b : String} (c : PairCall) :
    (a, b) ∈ c.next r ↔ c = .save a b ∨ (a, b) ∈ r ∧ ¬ c.Parts a b := by
  cases c with
  | save x y =>
    simp only [next, Pairing.save, Parts, Finset.mem_insert, Finset.mem_filter, Prod.mk.injEq,
      PairCall.save.injEq]
    rw [ne_comm (a := a), ne_comm (a := b), eq_comm (a := a), eq_comm (a := b)]
    by_cases hx : x = a <;> by_cases hy : y = b <;> simp [hx, hy]
  | remove x => simp [next, Pairing.remove, Parts, eq_comm]
  | removeReverse y => simp [next, Pairing.removeReverse, Parts, eq_comm (a := y)]
  | get x => simp [next, Parts]
  | getReverse y => simp [next, Parts]

/-- A pair is there if a save of it stands. -/
theorem PairCache.mem_pairsAfter {a b : String} (calls : List PairCall) :
    (a, b) ∈ pairsAfter calls ↔ Standing (· = .save a b) (PairCall.Parts a b) calls := by
  induction calls using List.reverseRecOn with
  | nil => simp [pairsAfter, not_standing_nil]
  | append_singleton calls c ih => rw [pairsAfter_snoc, PairCall.mem_next, standing_snoc, ih]

/-- Entries stay those of the pairs while the keys of the cache stay as they are. -/
theorem PairCache.Holds.frame {c : PairCache} {keys keys' : Keys} {r : Pairing}
    (h : c.Holds keys r) (hk : ∀ key, c.Owns key → keys'.get? key = keys.get? key) :
    c.Holds keys' r := by
  constructor
  · intro a b
    rw [hk _ (c.owns_forwardKey a)]
    exact h.forward a b
  · intro a b
    rw [hk _ (c.owns_reverseKey b)]
    exact h.reverse a b

/-! ## Events -/

namespace Event

variable {p : RouteClasses} {kind : EntityKind} {foreign entity : String}

/-- The event is about an entity of the kind and yields a foreign id for it. -/
def Gives (p : RouteClasses) (kind : EntityKind) (foreign entity : String) : Event → Prop
  | .created k id _ details => k = kind ∧ id = entity ∧ (p.ofKind k).Yields details foreign
  | .updated k id details => k = kind ∧ id = entity ∧ (p.ofKind k).Yields details foreign
  | _ => False

/-- The event removes the entity, gives it another foreign id, or gives its
foreign id to another entity. -/
def Takes (p : RouteClasses) (kind : EntityKind) (foreign entity : String) (e : Event) : Prop :=
  e = .removed kind entity ∨ (∃ other, other ≠ foreign ∧ e.Gives p kind other entity) ∨
    ∃ other, other ≠ entity ∧ e.Gives p kind foreign other

/-- What an event does to the route maps: to which of them, and what. -/
def routing? (p : RouteClasses) : Event → Option (EntityKind × PairCall)
  | .created k id _ details => ((p.ofKind k).foreignId details).map (fun f => (k, .save f id))
  | .updated k id details => ((p.ofKind k).foreignId details).map (fun f => (k, .save f id))
  | .removed k id => some (k, .removeReverse id)
  | .connected _ _ => none
  | .disconnected _ _ => none

/-- What an event does to the routes of one kind. -/
def pairCall? (p : RouteClasses) (kind : EntityKind) (e : Event) : Option PairCall :=
  (e.routing? p).bind (fun r => if r.1 = kind then some r.2 else none)

theorem pairCall?_eq_some {e : Event} {c : PairCall} :
    e.pairCall? p kind = some c ↔ e.routing? p = some (kind, c) := by
  unfold pairCall?
  rcases e.routing? p with _ | ⟨k, c'⟩
  · simp
  · by_cases hk : k = kind <;> simp [hk]

theorem gives_iff (e : Event) :
    e.Gives p kind foreign entity ↔ e.routing? p = some (kind, .save foreign entity) := by
  cases e with
  | created k id owner details =>
    simp only [Gives, RouteClass.yields_iff, routing?, Option.map_eq_some_iff, Prod.mk.injEq,
      PairCall.save.injEq]
    constructor
    · rintro ⟨hk, hid, hf⟩
      exact ⟨foreign, hf, hk, rfl, hid⟩
    · rintro ⟨f, hf, hk, rfl, hid⟩
      exact ⟨hk, hid, hf⟩
  | updated k id details =>
    simp only [Gives, RouteClass.yields_iff, routing?, Option.map_eq_some_iff, Prod.mk.injEq,
      PairCall.save.injEq]
    constructor
    · rintro ⟨hk, hid, hf⟩
      exact ⟨foreign, hf, hk, rfl, hid⟩
    · rintro ⟨f, hf, hk, rfl, hid⟩
      exact ⟨hk, hid, hf⟩
  | removed k id => simp [Gives, routing?]
  | connected channelId thingId => simp [Gives, routing?]
  | disconnected channelId thingId => simp [Gives, routing?]

theorem removes_iff (e : Event) :
    e = .removed kind entity ↔ e.routing? p = some (kind, .removeReverse entity) := by
  cases e with
  | created k id owner details => simp [routing?]
  | updated k id details => simp [routing?]
  | removed k id => simp [routing?]
  | connected channelId thingId => simp [routing?]
  | disconnected channelId thingId => simp [routing?]

theorem routing?_ne_remove (e : Event) (x : String) : e.routing? p ≠ some (kind, .remove x) := by
  cases e <;> simp [routing?]

/-- An event takes a route away just where it parts the pair of it. -/
theorem takes_iff (e : Event) :
    e.Takes p kind foreign entity ↔
      ∃ c, e.routing? p = some (kind, c) ∧ c.Parts foreign entity := by
  unfold Takes
  rw [removes_iff (p := p)]
  simp only [gives_iff]
  constructor
  · rintro (h | ⟨other, hne, h⟩ | ⟨other, hne, h⟩)
    · exact ⟨_, h, rfl⟩
    · exact ⟨_, h, Or.inr ⟨hne, rfl⟩⟩
    · exact ⟨_, h, Or.inl ⟨rfl, hne⟩⟩
  · rintro ⟨c, h, hc⟩
    cases c with
    | save x y =>
      rcases hc with ⟨rfl, hy⟩ | ⟨hx, rfl⟩
      · exact Or.inr (Or.inr ⟨y, hy, h⟩)
      · exact Or.inr (Or.inl ⟨x, hx, h⟩)
    | remove x => exact absurd h (e.routing?_ne_remove x)
    | removeReverse y =>
      obtain rfl : y = entity := hc
      exact Or.inl h
    | get x => exact absurd hc not_false
    | getReverse y => exact absurd hc not_false

end Event

/-! ## The keys after events -/

/-- No key belongs to the routes of both classes. -/
def RouteClasses.SpacesApart (p : RouteClasses) : Prop :=
  ∀ key, p.thing.routes.pairs.Owns key → ¬ p.channel.routes.pairs.Owns key

theorem RouteMap.prefix_of_owns {m : RouteMap} {key : String} (h : m.pairs.Owns key) :
    m.space.toList <+: key.toList := by
  obtain ⟨x, rfl | rfl⟩ := h
  · exact ⟨(":ext:" ++ x).toList, by simp [pairs, PairCache.forwardKey]⟩
  · exact ⟨(":int:" ++ x).toList, by simp [pairs, PairCache.reverseKey]⟩

/-- Spaces are apart if neither of their names starts with the other. -/
theorem RouteClasses.spacesApart_of_not_prefix {p : RouteClasses}
    (h₁ : ¬ p.thing.space.toList <+: p.channel.space.toList)
    (h₂ : ¬ p.channel.space.toList <+: p.thing.space.toList) : p.SpacesApart := by
  intro key ht hc
  rcases List.prefix_or_prefix_of_prefix (RouteMap.prefix_of_owns ht)
    (RouteMap.prefix_of_owns hc) with h | h
  · exact h₁ h
  · exact h₂ h

theorem RouteClasses.SpacesApart.kinds {p : RouteClasses} (h : p.SpacesApart)
    {k kind : EntityKind} (hne : k ≠ kind) {key : String}
    (hk : (p.ofKind kind).routes.pairs.Owns key) : ¬ (p.ofKind k).routes.pairs.Owns key := by
  intro hk'
  cases k <;> cases kind
  · exact hne rfl
  · exact h key hk' hk
  · exact h key hk hk'
  · exact hne rfl

namespace Projection

/-- The keys after events are handled with no failure, in order and from none. -/
def after (p : RouteClasses) (events : List Event) : Keys :=
  events.foldl (fun keys e => (Keys.run (handle p e) keys).2) ∅

theorem after_snoc (p : RouteClasses) (events : List Event) (e : Event) :
    after p (events ++ [e]) = (Keys.run (handle p e) (after p events)).2 := by
  simp [after]

theorem run_route (c : RouteClass) (id : String) (details : Details) (keys : Keys) :
    (Keys.run (route c id details) keys).2
      = match c.foreignId details with
        | some foreign => (Keys.run (c.routes.pairs.save foreign id) keys).2
        | none => keys := by
  unfold route
  cases c.foreignId details with
  | none => rfl
  | some foreign =>
    rw [run_bind_done]
    rfl

/-- An event makes one call on the routes of its kind, or none at all. -/
theorem run_handle (p : RouteClasses) (e : Event) (keys : Keys) :
    (Keys.run (handle p e) keys).2
      = match e.routing? p with
        | some (kind, c) => (Keys.run (c.program (p.ofKind kind).routes.pairs) keys).2
        | none => keys := by
  cases e with
  | created kind id owner details =>
    simp only [handle, Event.routing?, run_route]
    cases (p.ofKind kind).foreignId details <;> rfl
  | updated kind id details =>
    simp only [handle, Event.routing?, run_route]
    cases (p.ofKind kind).foreignId details <;> rfl
  | removed kind id =>
    simp only [handle, Event.routing?, run_bind_done]
    rfl
  | connected channelId thingId => rfl
  | disconnected channelId thingId => rfl

variable {p : RouteClasses} {kind : EntityKind}

/-- One event: the routes of a kind stay those of the pairs. -/
theorem holds_handle (hp : p.SpacesApart) {keys : Keys} {r : Pairing}
    (h : (p.ofKind kind).routes.pairs.Holds keys r) (e : Event) :
    (p.ofKind kind).routes.pairs.Holds (Keys.run (handle p e) keys).2
      ((e.pairCall? p kind).elim r (fun c => c.next r)) := by
  rw [run_handle]
  unfold Event.pairCall?
  rcases e.routing? p with _ | ⟨k, c⟩
  · exact h
  · by_cases hk : k = kind
    · subst hk
      simpa using (h.step (PairCache.sidesApart_routes _) c).1
    · -- the other class names none of the keys of this one
      simp only [Option.bind_some, hk, if_false, Option.elim_none]
      apply h.frame
      intro key hkey
      exact get?_run_of_keepsTo (PairCache.keepsTo_program _ c) _ (hp.kinds hk hkey)

/-- After any events the routes of a kind are the pairs that its calls leave. -/
theorem holds_after (hp : p.SpacesApart) (kind : EntityKind) (events : List Event) :
    (p.ofKind kind).routes.pairs.Holds (after p events)
      (PairCache.pairsAfter (events.filterMap (Event.pairCall? p kind))) := by
  induction events using List.reverseRecOn with
  | nil => exact PairCache.holds_empty (fun _ _ => rfl)
  | append_singleton events e ih =>
    have h := holds_handle hp ih e
    rw [after_snoc, List.filterMap_append]
    cases hc : e.pairCall? p kind with
    | none => simpa [hc] using h
    | some c => simpa [hc, PairCache.pairsAfter_snoc] using h

/-- An event gave the foreign id to the entity, and no later one takes it away. -/
def Routed (p : RouteClasses) (events : List Event) (kind : EntityKind) (foreign entity : String) :
    Prop :=
  Standing (Event.Gives p kind foreign entity) (Event.Takes p kind foreign entity) events

theorem mem_pairsAfter_iff_routed (events : List Event) (foreign entity : String) :
    (foreign, entity) ∈ PairCache.pairsAfter (events.filterMap (Event.pairCall? p kind)) ↔
      Routed p events kind foreign entity := by
  rw [PairCache.mem_pairsAfter]
  apply standing_filterMap
  · intro e
    simp [Event.gives_iff, Event.pairCall?_eq_some]
  · intro e
    simp [Event.takes_iff, Event.pairCall?_eq_some]

end Projection

/-! ## The adapter -/

/-- The adapter over the route maps of the classes. -/
def RouteClasses.adapter (p : RouteClasses) : Adapter := ⟨p.thing.routes, p.channel.routes⟩

namespace Adapter

/-- Answers by routes: an id with no route is unknown, no look-up fails, and
the way down is the way up turned round. -/
structure AnswersBy (x : Adapter) (keys : Keys) (routed : EntityKind → String → String → Prop) :
    Prop where
  uplink : ∀ device application thingId channelId,
    (Keys.run (x.uplink device application) keys).1 = .ok ⟨thingId, channelId⟩ ↔
      routed .thing device thingId ∧ routed .channel application channelId
  unknownDevice : ∀ device application id,
    (Keys.run (x.uplink device application) keys).1 = .error (.unknownDevice id) ↔
      id = device ∧ ∀ thingId, ¬ routed .thing device thingId
  unknownChannel : ∀ device application id,
    (Keys.run (x.uplink device application) keys).1 = .error (.unknownChannel id) ↔
      id = application ∧ (∃ thingId, routed .thing device thingId) ∧
        ∀ channelId, ¬ routed .channel application channelId
  noLookup : ∀ device application e,
    (Keys.run (x.uplink device application) keys).1 ≠ .error (.lookup e)
  downlink : ∀ device application thingId channelId,
    (Keys.run (x.downlink thingId channelId) keys).1 = .ok ⟨device, application⟩ ↔
      (Keys.run (x.uplink device application) keys).1 = .ok ⟨thingId, channelId⟩

theorem run_resolve {α : Type} (c : PairCache) (key raw : String) (unknown : AdapterError)
    (next : String → KeyProgram (Except AdapterError α)) (keys : Keys) :
    (Keys.run (resolve (c.lookup key raw) unknown next) keys).1
      = match keys.get? key with
        | some id => (Keys.run (next id) keys).1
        | none => .error unknown := by
  have hlookup : Keys.run (c.lookup key raw) keys
      = ((keys.get? key).elim (Except.error (.notFound c.name raw)) .ok, keys) := by
    unfold PairCache.lookup
    rw [run_orFail]
    cases hkey : keys.get? key <;> simp [Keys.answer, hkey]
  unfold resolve
  rw [run_bind_keys, hlookup]
  cases keys.get? key <;> rfl

/-- Two look-ups, one after the other. -/
theorem run_resolve_resolve {α : Type} (c c' : PairCache) (key key' raw raw' : String)
    (unknown unknown' : AdapterError) (f : String → String → α) (keys : Keys) :
    (Keys.run (resolve (c.lookup key raw) unknown fun id =>
        resolve (c'.lookup key' raw') unknown' fun id' => .done (.ok (f id id'))) keys).1
      = match keys.get? key, keys.get? key' with
        | none, _ => .error unknown
        | some _, none => .error unknown'
        | some id, some id' => .ok (f id id') := by
  rw [run_resolve]
  cases keys.get? key with
  | none => rfl
  | some id =>
    simp only [run_resolve]
    cases keys.get? key' <;> rfl

/-- What the adapter answers over maps that hold the routes. -/
theorem answersBy_of_holds {x : Adapter} {keys : Keys}
    {routed : EntityKind → String → String → Prop} {things channels : Pairing}
    (ht : x.things.pairs.Holds keys things) (hc : x.channels.pairs.Holds keys channels)
    (hrt : ∀ d t, (d, t) ∈ things ↔ routed .thing d t)
    (hrc : ∀ a c, (a, c) ∈ channels ↔ routed .channel a c) : x.AnswersBy keys routed := by
  have hup : ∀ d a, (Keys.run (x.uplink d a) keys).1
      = match keys.get? (x.things.pairs.forwardKey d),
          keys.get? (x.channels.pairs.forwardKey a) with
        | none, _ => .error (.unknownDevice d)
        | some _, none => .error (.unknownChannel a)
        | some t, some c => .ok ⟨t, c⟩ := fun d a => run_resolve_resolve ..
  have hthing : ∀ d t, keys.get? (x.things.pairs.forwardKey d) = some t ↔ routed .thing d t :=
    fun d t => (ht.forward d t).trans (hrt d t)
  have hchannel : ∀ a c, keys.get? (x.channels.pairs.forwardKey a) = some c ↔ routed .channel a c :=
    fun a c => (hc.forward a c).trans (hrc a c)
  have hok : ∀ d a t c, (Keys.run (x.uplink d a) keys).1 = .ok ⟨t, c⟩ ↔
      keys.get? (x.things.pairs.forwardKey d) = some t ∧
        keys.get? (x.channels.pairs.forwardKey a) = some c := by
    intro d a t c
    rw [hup]
    split <;> simp [*]
  constructor
  · intro d a t c
    rw [hok, hthing, hchannel]
  · intro d a id
    simp only [hup, ← hthing]
    split <;> simp [*, eq_comm]
  · intro d a id
    simp only [hup, ← hthing, ← hchannel]
    split <;> simp [*, eq_comm]
  · intro d a e
    rw [hup]
    split <;> simp
  · intro d a t c
    have hdown : (Keys.run (x.downlink t c) keys).1 = .ok ⟨d, a⟩ ↔
        keys.get? (x.things.pairs.reverseKey t) = some d ∧
          keys.get? (x.channels.pairs.reverseKey c) = some a := by
      unfold downlink RouteMap.foreignId PairCache.getReverse
      rw [run_resolve_resolve]
      split <;> simp [*]
    rw [hdown, hok, ht.inverse d t, hc.inverse a c]

end Adapter

/-! ## The last writer -/

/-- Routes are those of the last writer. After any events a class routes a
foreign id to an entity, from either side, if some event gave it to the entity
and no later one of the class removes the entity, gives it another foreign id
or gives the foreign id to another entity; and the adapter over both classes
answers by those routes, up and down. -/
theorem an_adapter_answers_by_the_last_writer (p : RouteClasses) (hp : p.SpacesApart)
    (events : List Event) :
    (∀ kind foreign entity,
      ((Keys.run ((p.ofKind kind).routes.get foreign) (Projection.after p events)).1 = .ok entity ↔
        Projection.Routed p events kind foreign entity) ∧
      ((Keys.run ((p.ofKind kind).routes.foreignId entity) (Projection.after p events)).1
          = .ok foreign ↔ Projection.Routed p events kind foreign entity)) ∧
      p.adapter.AnswersBy (Projection.after p events) (Projection.Routed p events) := by
  have h : ∀ kind, (p.ofKind kind).routes.pairs.Holds (Projection.after p events) _ :=
    fun kind => Projection.holds_after hp kind events
  refine ⟨fun kind foreign entity => ⟨?_, ?_⟩, ?_⟩
  · rw [← Projection.mem_pairsAfter_iff_routed]
    exact (PairCache.run_lookup _ foreign ((h kind).forward foreign)).2.1 entity
  · rw [← Projection.mem_pairsAfter_iff_routed]
    exact (PairCache.run_lookup _ entity (fun d => (h kind).reverse d entity)).2.1 foreign
  · exact Adapter.answersBy_of_holds (h .thing) (h .channel)
      (fun d t => Projection.mem_pairsAfter_iff_routed events d t)
      (fun a c => Projection.mem_pairsAfter_iff_routed events a c)

/-- A device moves to a new thing before the old one is removed, the new thing is
renamed, and a channel names its application by a number. The device goes to the
new thing. -/
theorem a_moved_device_outlives_its_old_thing :
    let device : Details := ⟨none, none, some "\x7b\"lora\":\x7b\"dev_eui\":\"dev\"\x7d\x7d"⟩
    let application : Details := ⟨none, none, some "\x7b\"lora\":\x7b\"app_id\":7\x7d\x7d"⟩
    RouteClasses.usual.SpacesApart ∧
      (Keys.run (RouteClasses.usual.adapter.uplink "dev" "7")
        (Projection.after .usual
          [.created .thing "old" "o" ⟨none, some "dev", none⟩, .created .thing "new" "o" device,
            .created .channel "chan" "o" application, .updated .thing "new" ⟨some "n", none, none⟩,
            .removed .thing "old"])).1 = .ok ⟨"new", "chan"⟩ := by
  intro device application
  have hp : RouteClasses.usual.SpacesApart := by
    apply RouteClasses.spacesApart_of_not_prefix <;> decide
  have hdevice : RouteClasses.usual.thing.Yields device "dev" :=
    RouteClass.yields_iff.2 (by decide +kernel)
  have happlication : RouteClasses.usual.channel.Yields application "7" :=
    RouteClass.yields_iff.2 (by decide +kernel)
  refine ⟨hp, ((an_adapter_answers_by_the_last_writer _ hp _).2.uplink ..).2 ⟨?_, ?_⟩⟩
  · refine ⟨[.created .thing "old" "o" ⟨none, some "dev", none⟩], _, _, rfl,
      ⟨rfl, rfl, hdevice⟩, ?_⟩
    simp [Event.Takes, Event.Gives, RouteClass.Yields]
  · refine ⟨[.created .thing "old" "o" ⟨none, some "dev", none⟩, .created .thing "new" "o" device],
      _, _, rfl, ⟨rfl, rfl, happlication⟩, ?_⟩
    simp [Event.Takes, Event.Gives, RouteClass.Yields]

end LifecycleLog
