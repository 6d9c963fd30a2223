-- Things that were removed. A removal finds the key of a thing by the entry
-- of the thing alone, so it needs every entry of a key to be pointed back to.
-- A save that succeeds makes it so, and nothing but a failed save of the same
-- key undoes it: once a thing is removed, only a key whose last save had
-- failed can still be identified as that thing.
import LifecycleLog.Cache.Things
import LifecycleLog.Proofs.Cache.Pairing

namespace LifecycleLog

/-! ## Runs under faults -/

/-- Answers a call under the first of the faults; where the list has ended no
call fails. -/
def Keys.faulted (c : KeyCall) (s : List (Option Fault) × Keys) :
    KeyReply c × (List (Option Fault) × Keys) :=
  ((Keys.reply s.1.head?.join c s.2).1, (s.1.tail, (Keys.reply s.1.head?.join c s.2).2))

/-- What is endured under all faults holds after a run under some. -/
theorem Program.Endures.run_faulted {α : Type} {inv : Keys → Prop} {post : α → Keys → Prop}
    {p : KeyProgram α} {keys : Keys} (h : p.Endures inv post keys) (faults : List (Option Fault)) :
    inv (p.run Keys.faulted (faults, keys)).2.2 ∧
      post (p.run Keys.faulted (faults, keys)).1 (p.run Keys.faulted (faults, keys)).2.2 := by
  induction p generalizing keys faults with
  | done a => exact h
  | ask c next ih => exact ih _ (h.2 faults.head?.join) faults.tail

/-- Answers the calls of an identification. -/
def Repository.answer (repository : Repository) :
    (c : IdentifyCall) → List (Option Fault) × Keys → IdentifyReply c × (List (Option Fault) × Keys)
  | .store c, s => Keys.faulted c s
  | .retrieve key, s => (repository key, s)

theorem run_onStore {α : Type} (repository : Repository) (p : KeyProgram α)
    (s : List (Option Fault) × Keys) :
    (onStore p).run repository.answer s = p.run Keys.faulted s := by
  induction p generalizing s with
  | done a => rfl
  | ask c next ih => exact ih _ _

/-! ## Calls and what they save -/

/-- An identification that also tells what became of its save, if it made one. -/
def identifyNoting (key : String) :
    IdentifyProgram (Except IdentifyError String × Option (Except CacheError Unit)) :=
  (onStore (Things.id key)).bind fun
    | .ok id => .done (.ok id, none)
    | .error _ => .ask (.retrieve key) fun answer =>
      match (answer : Except String (Option String)) with
      | .error detail => .done (.error (.repository detail), none)
      | .ok none => .done (.error .unknownKey, none)
      | .ok (some id) => (onStore (Things.save key id)).bind fun saved => .done (.ok id, some saved)

theorem identifyNoting_fst (key : String) :
    (identifyNoting key).bind (fun r => .done r.1) = identify key := by
  unfold identifyNoting identify
  rw [Program.bind_assoc]
  congr 1
  funext r
  cases r with
  | ok id => rfl
  | error e =>
    simp only [Program.ask_bind]
    congr 1
    funext answer
    rcases answer with detail | (_ | id)
    · rfl
    · rfl
    · exact Program.bind_assoc _ _ _

/-- A call on the things of a cache. The repository of an identification is
the one of that moment. -/
inductive ThingCall
  | save (key id : String)
  | identify (key : String) (repository : Repository)
  | remove (id : String)

namespace ThingCall

abbrev Answer : ThingCall → Type
  | .save _ _ => Except CacheError Unit
  | .identify _ _ => Except IdentifyError String
  | .remove _ => Except CacheError Bool

/-- What the call answers and the keys it leaves, where its calls to the store
meet the faults one after the other. -/
def run (faults : List (Option Fault)) (keys : Keys) : (c : ThingCall) → c.Answer × Keys
  | .save key id =>
    let (r, s) := (Things.save key id).run Keys.faulted (faults, keys)
    (r, s.2)
  | .identify key repository =>
    let (r, s) := (LifecycleLog.identify key).run repository.answer (faults, keys)
    (r, s.2)
  | .remove id =>
    let (r, s) := (Things.remove id).run Keys.faulted (faults, keys)
    (r, s.2)

/-- What became of the save of `key` that the call made, if it made one. -/
def saving (faults : List (Option Fault)) (keys : Keys) (key : String) :
    ThingCall → Option (Except CacheError Unit)
  | .save k id =>
    if k = key then some ((Things.save k id).run Keys.faulted (faults, keys)).1 else none
  | .identify k repository =>
    if k = key then ((identifyNoting k).run repository.answer (faults, keys)).1.2 else none
  | .remove _ => none

/-- The call may save some key for the thing. -/
def MayName (id : String) : ThingCall → Prop
  | .save _ id' => id' = id
  | .identify _ repository => ∃ key, repository key = .ok (some id)
  | .remove _ => False

end ThingCall

/-- A call, and the faults that its calls to the store meet. -/
structure Visit where
  call : ThingCall
  faults : List (Option Fault)

namespace Visits

/-- The keys after the visits, from none, and what became of the last save of
each key. -/
def history (visits : List Visit) : Keys × (String → Option (Except CacheError Unit)) :=
  visits.foldl (fun (keys, last) v =>
    ((v.call.run v.faults keys).2, fun key => (v.call.saving v.faults keys key).or (last key)))
    (∅, fun _ => none)

def keys (visits : List Visit) : Keys := (history visits).1

def lastSave (visits : List Visit) (key : String) : Option (Except CacheError Unit) :=
  (history visits).2 key

theorem keys_snoc (visits : List Visit) (v : Visit) :
    keys (visits ++ [v]) = (v.call.run v.faults (keys visits)).2 := by
  simp [keys, history]

theorem lastSave_snoc (visits : List Visit) (v : Visit) (key : String) :
    lastSave (visits ++ [v]) key
      = (v.call.saving v.faults (keys visits) key).or (lastSave visits key) := by
  simp [lastSave, keys, history]

end Visits

/-! ## Entries that are pointed back to -/

namespace PairCache

/-- The entry from `a`, if there is one, is pointed back to. -/
def Linked (c : PairCache) (keys : Keys) (a : String) : Prop :=
  ∀ b, keys.get? (c.forwardKey a) = some b → keys.get? (c.reverseKey b) = some a

variable {c : PairCache} {keys keys' : Keys} {a b x y k v : String}

theorem Linked.cleared (hc : c.SidesApart) (hx : x ≠ a) (h : c.Linked keys x) :
    c.Linked (c.cleared a b keys) x := by
  intro y hy
  have hr := h y (get?_cleared_eq_some.1 hy).2
  rw [get?_cleared_eq_some]
  refine ⟨?_, hr⟩
  intro hs
  obtain ⟨_, _, ha⟩ := (reverseKey_mem_stale hc).1 hs
  rw [hr] at ha
  exact hx (Option.some.inj ha)

/-- A save of `a` and `b` takes every other entry to `b` away that is pointed back to. -/
theorem Linked.not_to_cleared (hc : c.SidesApart) (hx : x ≠ a) (h : c.Linked keys x) :
    (c.cleared a b keys).get? (c.forwardKey x) ≠ some b := by
  intro hy
  obtain ⟨hs, hy⟩ := get?_cleared_eq_some.1 hy
  exact hs ((forwardKey_mem_stale hc).2 ⟨h b hy, hx, hy⟩)

/-- A save that is stopped anywhere keeps the entries of all other keys pointed back to. -/
theorem Linked.stage (hc : c.SidesApart) (hx : x ≠ a) (h : c.Linked keys x)
    (hs : c.SaveStage a b keys keys') : c.Linked keys' x := by
  have hfwd : c.forwardKey x ≠ c.forwardKey a := fun he => hx (forwardKey_inj.1 he)
  cases hs with
  | before => exact h
  | cleared => exact h.cleared hc hx
  | half =>
    intro y hy
    rw [get?_half, if_neg hfwd] at hy
    rw [get?_half, if_neg (reverseKey_ne_forwardKey hc _ _)]
    exact h.cleared hc hx y hy
  | saved =>
    intro y hy
    rw [get?_saved, if_neg (forwardKey_ne_reverseKey hc _ _), get?_half, if_neg hfwd] at hy
    have hb : y ≠ b := by
      rintro rfl
      exact h.not_to_cleared hc hx hy
    have hrev : c.reverseKey y ≠ c.reverseKey b := fun he => hb (reverseKey_inj.1 he)
    rw [get?_saved, if_neg hrev, get?_half, if_neg (reverseKey_ne_forwardKey hc _ _)]
    exact h.cleared hc hx y hy

/-- A save that succeeds has its own entry pointed back to. -/
theorem linked_saved (hc : c.SidesApart) : c.Linked (c.saved a b keys) a := by
  intro y hy
  rw [get?_saved_forwardKey hc] at hy
  rw [← Option.some.inj hy]
  exact get?_saved_reverseKey

/-- So does a removal, since it takes both entries of a pair. -/
theorem Linked.removed (hc : c.SidesApart) (h : c.Linked keys x) :
    c.Linked (removed (c.reverseKey b) b c.forwardKey keys) x := by
  intro y hy
  rw [get?_removed_eq_some] at hy ⊢
  obtain ⟨_, hp, hy⟩ := hy
  have hr := h y hy
  refine ⟨?_, fun p _ _ => reverseKey_ne_forwardKey hc _ _, hr⟩
  intro he
  rw [reverseKey_inj] at he
  subst he
  exact hp x hr hy rfl

end PairCache

/-! ## What a call can do -/

theorem sidesApart_thingPairs : thingPairs.SidesApart := by decide +kernel

theorem endures_lookup (c : PairCache) (key raw : String) (keys : Keys) :
    (c.lookup key raw).Endures (· = keys) (fun r _ => ∀ v, r = .ok v → keys.get? key = some v)
      keys := by
  unfold PairCache.lookup
  refine .orFail rfl (fun e k v h => by cases h) ?_
  simp only [Keys.answer]
  cases keys.get? key with
  | none => exact ⟨rfl, fun v h => by cases h⟩
  | some value => exact ⟨rfl, fun v h => congrArg some (Except.ok.inj h)⟩

/-- A look-up leaves the keys as they are, and a hit is what the cache names. -/
theorem run_id (key : String) (faults : List (Option Fault)) (keys : Keys) :
    ∃ r rest, (Things.id key).run Keys.faulted (faults, keys) = (r, rest, keys) ∧
      ∀ id, r = .ok id → keys.get? (thingPairs.forwardKey key) = some id := by
  have h := (endures_lookup thingPairs (thingPairs.forwardKey key) key keys).run_faulted faults
  change ((Things.id key).run Keys.faulted (faults, keys)).2.2 = keys ∧ _ at h
  obtain ⟨hk, hv⟩ := h
  change ∀ v, ((Things.id key).run Keys.faulted (faults, keys)).1 = .ok v → _ at hv
  generalize (Things.id key).run Keys.faulted (faults, keys) = looked at hk hv ⊢
  obtain ⟨r, rest, keys'⟩ := looked
  obtain rfl : keys' = keys := hk
  exact ⟨r, rest, rfl, hv⟩

/-- A hit changes nothing; a miss leads to the repository and, if it knows the
key, to a save. -/
theorem run_identifyNoting (key : String) (repository : Repository) (faults : List (Option Fault))
    (keys : Keys) {out : (Except IdentifyError String × Option (Except CacheError Unit)) ×
      List (Option Fault) × Keys}
    (h : (identifyNoting key).run repository.answer (faults, keys) = out) :
    (out.1.2 = none ∧ out.2.2 = keys ∧
      ∀ id, out.1.1 = .ok id → keys.get? (thingPairs.forwardKey key) = some id) ∨
    ∃ id rest, repository key = .ok (some id) ∧ out.1.1 = .ok id ∧
      out.1.2 = some ((Things.save key id).run Keys.faulted (rest, keys)).1 ∧
      out.2.2 = ((Things.save key id).run Keys.faulted (rest, keys)).2.2 := by
  obtain ⟨r, rest, hrun, hv⟩ := run_id key faults keys
  unfold identifyNoting at h
  rw [Program.run_bind, run_onStore, hrun] at h
  cases r with
  | ok id =>
    simp only [Program.run_done] at h
    subst h
    exact Or.inl ⟨rfl, rfl, fun id' h' => (hv id rfl).trans (congrArg some (Except.ok.inj h'))⟩
  | error e =>
    cases ha : repository key with
    | error detail =>
      simp only [Program.run_ask, Repository.answer, ha, Program.run_done] at h
      subst h
      exact Or.inl ⟨rfl, rfl, fun id' h' => nomatch h'⟩
    | ok found =>
      cases found with
      | none =>
        simp only [Program.run_ask, Repository.answer, ha, Program.run_done] at h
        subst h
        exact Or.inl ⟨rfl, rfl, fun id' h' => nomatch h'⟩
      | some id =>
        simp only [Program.run_ask, Repository.answer, ha, Program.run_bind, run_onStore,
          Program.run_done] at h
        subst h
        exact Or.inr ⟨id, rest, rfl, rfl, rfl, rfl⟩

/-- An identification answers what the cache names, or what the repository knows. -/
theorem identify_eq_ok {key id : String} {repository : Repository} {faults : List (Option Fault)}
    {keys : Keys} (h : ((identify key).run repository.answer (faults, keys)).1 = .ok id) :
    keys.get? (thingPairs.forwardKey key) = some id ∨ repository key = .ok (some id) := by
  rw [← identifyNoting_fst, Program.run_bind] at h
  rcases run_identifyNoting key repository faults keys rfl with
    ⟨_, _, hhit⟩ | ⟨id', _, hrep, hid, _⟩
  · exact Or.inl (hhit id h)
  · have he := hid.symm.trans h
    rw [Except.ok.injEq] at he
    exact Or.inr (he ▸ hrep)

/-- What a call makes of the keys: nothing, a save that may have failed on the
way, or a removal. -/
inductive ThingCall.Effect (c : ThingCall) (saving : String → Option (Except CacheError Unit))
    (keys : Keys) : Keys → Prop
  | nothing (none : ∀ k, saving k = none) : Effect c saving keys keys
  | save {key id : String} {r : Except CacheError Unit} {keys' : Keys} (named : c.MayName id)
      (stage : thingPairs.SaveStage key id keys keys')
      (done : r = .ok () → keys' = thingPairs.saved key id keys) (mine : saving key = some r)
      (others : ∀ k, k ≠ key → saving k = none) : Effect c saving keys keys'
  | remove (id : String) (none : ∀ k, saving k = none) :
      Effect c saving keys
        (PairCache.removed (thingPairs.reverseKey id) id thingPairs.forwardKey keys)

namespace ThingCall

theorem effect (c : ThingCall) (faults : List (Option Fault)) (keys : Keys) :
    c.Effect (fun k => c.saving faults keys k) keys (c.run faults keys).2 := by
  cases c with
  | save key id =>
    obtain ⟨hs, hd⟩ :=
      (PairCache.endures_save_once thingPairs key id keys).run_faulted faults
    refine @Effect.save _ _ _ key id _ _ rfl hs hd ?_ ?_
    · simp only [saving, if_true]
      rfl
    · intro k hk
      simp [saving, hk.symm]
  | identify key repository =>
    have hrun : ((identify key repository).run faults keys).2
        = ((identifyNoting key).run repository.answer (faults, keys)).2.2 := by
      simp only [run]
      rw [← identifyNoting_fst, Program.run_bind]
      rfl
    rw [hrun]
    rcases run_identifyNoting key repository faults keys rfl with
      ⟨hn, hk, _⟩ | ⟨id, rest, hrep, _, hn, hk⟩
    · rw [hk]
      refine .nothing fun k => ?_
      simp [saving, hn]
    · obtain ⟨hs, hd⟩ := (PairCache.endures_save_once thingPairs key id keys).run_faulted rest
      rw [hk]
      refine @Effect.save _ _ _ key id _ _ ⟨key, hrep⟩ hs hd ?_ ?_
      · simp only [saving, if_true, hn]
        rfl
      · intro k hkey
        simp [saving, hkey.symm]
  | remove id =>
    obtain ⟨hk, _⟩ := (PairCache.endures_removeEntry thingPairs (thingPairs.reverseKey id) id
      thingPairs.forwardKey (Or.inl rfl : keys = keys ∨ _)).run_faulted faults
    rcases hk with hk | hk
    · exact hk.symm ▸ .nothing fun k => rfl
    · exact hk.symm ▸ .remove id fun k => rfl

/-- A removal that succeeds was carried out, whatever failed before it. -/
theorem run_remove_of_ok {id : String} {faults : List (Option Fault)} {keys : Keys} {found : Bool}
    (h : ((remove id).run faults keys).1 = .ok found) : ((remove id).run faults keys).2
      = PairCache.removed (thingPairs.reverseKey id) id thingPairs.forwardKey keys := by
  obtain ⟨_, hd⟩ := (PairCache.endures_removeEntry thingPairs (thingPairs.reverseKey id) id
    thingPairs.forwardKey (Or.inl rfl : keys = keys ∨ _)).run_faulted faults
  exact hd ⟨found, h⟩

variable {c : ThingCall} {saving : String → Option (Except CacheError Unit)} {keys keys' : Keys}
  {key id : String}

/-- One call: the entry of a key stays pointed back to unless a save of the key failed. -/
theorem Effect.linked (h : c.Effect saving keys keys') (hok : ∀ e, saving key ≠ some (.error e))
    (hold : saving key = none → thingPairs.Linked keys key) : thingPairs.Linked keys' key := by
  cases h with
  | nothing none => exact hold (none key)
  | remove id none => exact (hold (none key)).removed sidesApart_thingPairs
  | @save k id r _ named stage done mine others =>
    by_cases hk : key = k
    · subst hk
      cases r with
      | error e => exact absurd mine (hok e)
      | ok u =>
        rw [done rfl]
        exact PairCache.linked_saved sidesApart_thingPairs
    · exact (hold (others key hk)).stage sidesApart_thingPairs hk stage

/-- One call that saves nothing for the thing: what did not name it still does not. -/
theorem Effect.not_to (h : c.Effect saving keys keys') (hc : ¬ c.MayName id)
    (hn : keys.get? (thingPairs.forwardKey key) ≠ some id) :
    keys'.get? (thingPairs.forwardKey key) ≠ some id := by
  cases h with
  | nothing none => exact hn
  | remove id' none => exact fun he => hn (PairCache.get?_removed_eq_some.1 he).2.2
  | @save k id' r _ named stage done mine others =>
    intro he
    rcases stage.forward sidesApart_thingPairs he with ⟨_, rfl⟩ | hold
    · exact hc named
    · exact hn hold

end ThingCall

/-! ## Whole histories -/

namespace Visits

/-- The entry of a key is pointed back to unless the last save of the key failed. -/
theorem linked_of_lastSave {key : String} (visits : List Visit)
    (h : ∀ e, lastSave visits key ≠ some (.error e)) : thingPairs.Linked (keys visits) key := by
  induction visits using List.reverseRecOn with
  | nil => exact fun id hid => nomatch hid
  | append_singleton visits v ih =>
    rw [lastSave_snoc] at h
    rw [keys_snoc]
    apply (v.call.effect v.faults (keys visits)).linked
    · intro e he
      exact h e (by rw [he]; rfl)
    · intro hn
      rw [hn] at h
      exact ih h

/-- Visits that save nothing for a thing let no key name it. -/
theorem not_to_append {key id : String} (visits after : List Visit)
    (hafter : ∀ v ∈ after, ¬ v.call.MayName id)
    (h : (keys visits).get? (thingPairs.forwardKey key) ≠ some id) :
    (keys (visits ++ after)).get? (thingPairs.forwardKey key) ≠ some id := by
  induction after using List.reverseRecOn with
  | nil => simpa using h
  | append_singleton after v ih =>
    rw [← List.append_assoc, keys_snoc]
    apply (v.call.effect v.faults _).not_to
    · exact hafter v (by simp)
    · exact ih fun v' hv' => hafter v' (by simp [hv'])

end Visits

/-- Only a failed save outlives a removal. Calls may fail as they like. Once the
removal of a thing has succeeded, and as long as nothing is saved for it and no
repository knows a key of it, a key is identified as that thing only if the
last save of the key before the removal had failed. -/
theorem only_a_failed_save_outlives_a_removal (before after : List Visit) (id : String)
    (faults : List (Option Fault)) (found : Bool)
    (hremoved : ((ThingCall.remove id).run faults (Visits.keys before)).1 = .ok found)
    (hafter : ∀ v ∈ after, ¬ v.call.MayName id) (key : String) (repository : Repository)
    (hrep : repository key ≠ .ok (some id)) (faults' : List (Option Fault))
    (hid : ((ThingCall.identify key repository).run faults'
      (Visits.keys (before ++ ⟨.remove id, faults⟩ :: after))).1 = .ok id) :
    ∃ e, Visits.lastSave before key = some (.error e) := by
  by_contra hsave
  have hl := Visits.linked_of_lastSave before (fun e he => hsave ⟨e, he⟩)
  have hnot : (Visits.keys (before ++ [⟨.remove id, faults⟩])).get? (thingPairs.forwardKey key)
      ≠ some id := by
    rw [Visits.keys_snoc, ThingCall.run_remove_of_ok hremoved]
    intro he
    have hback := hl.removed sidesApart_thingPairs (b := id) id he
    rw [PairCache.get?_removed_own] at hback
    cases hback
  rcases identify_eq_ok hid with hhit | hknown
  · rw [List.append_cons] at hhit
    exact Visits.not_to_append _ after hafter hnot hhit
  · exact hrep hknown

/-- A thing whose key was half saved at first, and then again in full. -/
theorem a_key_saved_again_is_forgotten :
    ((ThingCall.identify "k" (fun _ => .ok none)).run [] (Visits.keys
      [⟨.save "k" "t", [none, none, none, some (.refused (.unavailable "down"))]⟩,
        ⟨.save "k" "t", []⟩, ⟨.remove "t", []⟩])).1 ≠ .ok "t" := by
  have hremoved : ((ThingCall.remove "t").run [] (Visits.keys
      [⟨.save "k" "t", [none, none, none, some (.refused (.unavailable "down"))]⟩,
        ⟨.save "k" "t", []⟩])).1 = .ok true := by decide +kernel
  have hlast : Visits.lastSave
      [⟨.save "k" "t", [none, none, none, some (.refused (.unavailable "down"))]⟩,
        ⟨.save "k" "t", []⟩] "k" = some (.ok ()) := by decide +kernel
  intro hid
  obtain ⟨e, he⟩ := only_a_failed_save_outlives_a_removal
    [⟨.save "k" "t", [none, none, none, some (.refused (.unavailable "down"))]⟩,
      ⟨.save "k" "t", []⟩]
    [] "t" [] true hremoved (by simp) "k" (fun _ => .ok none) (by simp) [] hid
  rw [hlast] at he
  cases he

/-- Not every removal is final. The key of a thing is changed, and the save of
the new one fails at its last write. The removal succeeds, but finds the old key
by the entry of the thing, and the new one is still identified as the thing. -/
theorem a_half_saved_key_outlives_the_removal :
    ¬ ∀ (before after : List Visit) (id : String) (faults : List (Option Fault)) (found : Bool),
      ((ThingCall.remove id).run faults (Visits.keys before)).1 = .ok found →
      (∀ v ∈ after, ¬ v.call.MayName id) →
      ∀ (key : String) (repository : Repository), (∀ k, repository k ≠ .ok (some id)) →
      ∀ faults' : List (Option Fault), ((ThingCall.identify key repository).run faults'
        (Visits.keys (before ++ ⟨.remove id, faults⟩ :: after))).1 ≠ .ok id := by
  intro h
  have hremoved : ((ThingCall.remove "t").run [] (Visits.keys
      [⟨.save "old" "t", []⟩,
        ⟨.save "new" "t",
          [none, none, none, none, none, some (.refused (.unavailable "down"))]⟩])).1
        = .ok true := by decide +kernel
  refine h _ [] "t" [] true hremoved (by simp) "new" (fun _ => .ok none) (by simp) [] ?_
  decide +kernel

end LifecycleLog
