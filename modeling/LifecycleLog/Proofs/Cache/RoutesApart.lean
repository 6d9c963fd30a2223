-- Route maps that do not notice each other. Two maps share a key exactly if
-- they have one name, or the name of one is that of a whole side of the other,
-- alone or with more after a colon. Else the calls on one map can be left out
-- of a run, and the other map answers and keeps the same without them.
import LifecycleLog.Proofs.Cache.Forgetting
import LifecycleLog.Proofs.Cache.KeySpaces
import LifecycleLog.Proofs.Interleaving
import LifecycleLog.Proofs.LeftOut

namespace LifecycleLog

/-! ## Programs under faults -/

section Faulted

variable {α : Type} {space : String → Prop} {p : KeyProgram α} {keys keys' : Keys} {k : String}

theorem get?_reply_of_notMem {fault : Option Fault} {c : KeyCall} (h : k ∉ c.keys) :
    (Keys.reply fault c keys).2.get? k = keys.get? k := by
  rcases fault with _ | (e | e)
  · exact get?_answer_of_notMem h
  · rfl
  · exact get?_answer_of_notMem h

/-- What a call comes to depends on the keys that it names, whatever its fault. -/
theorem reply_congr (fault : Option Fault) {c : KeyCall} (hc : ∀ k ∈ c.keys, space k)
    (same : ∀ k, space k → keys.get? k = keys'.get? k) :
    (Keys.reply fault c keys).1 = (Keys.reply fault c keys').1 ∧
      ∀ k, space k → (Keys.reply fault c keys).2.get? k = (Keys.reply fault c keys').2.get? k := by
  have hanswer : (Keys.answer c keys).1 = (Keys.answer c keys').1 :=
    fst_answer_congr c fun k hk => same k (hc k hk)
  have hkeys : ∀ k, space k → (Keys.answer c keys).2.get? k = (Keys.answer c keys').2.get? k :=
    fun k hk => get?_answer_congr c (same k hk)
  rcases fault with _ | (e | e)
  · exact ⟨congrArg Except.ok hanswer, hkeys⟩
  · exact ⟨rfl, same⟩
  · exact ⟨rfl, hkeys⟩

theorem get?_run_faulted_of_keepsTo (h : p.KeepsTo space) (hk : ¬ space k)
    (faults : List (Option Fault)) :
    (p.run Keys.faulted (faults, keys)).2.2.get? k = keys.get? k := by
  induction p generalizing keys faults with
  | done a => rfl
  | ask c next ih =>
    obtain ⟨hc, hn⟩ := h
    exact (ih _ (hn _) _).trans (get?_reply_of_notMem fun hm => hk (hc k hm))

/-- Where its space looks the same, the program does the same, whatever faults it meets. -/
theorem run_faulted_congr (h : p.KeepsTo space) (same : ∀ k, space k → keys.get? k = keys'.get? k)
    (faults : List (Option Fault)) :
    (p.run Keys.faulted (faults, keys)).1 = (p.run Keys.faulted (faults, keys')).1 ∧
      ∀ k, space k → (p.run Keys.faulted (faults, keys)).2.2.get? k
        = (p.run Keys.faulted (faults, keys')).2.2.get? k := by
  induction p generalizing keys keys' faults with
  | done a => exact ⟨rfl, same⟩
  | ask c next ih =>
    obtain ⟨hc, hn⟩ := h
    obtain ⟨hreply, hkeys⟩ := reply_congr faults.head?.join hc same
    simp only [Program.run_ask, Keys.faulted, hreply]
    exact ih _ (hn _) hkeys faults.tail

end Faulted

/-! ## Names that clash -/

namespace RouteMap

/-- The name is that of a whole side of the map of `space`, alone or with more
after a colon. -/
def Beneath (space name : String) : Prop :=
  ∃ side ∈ [":ext", ":int"], name = space ++ side ∨ ∃ rest, name = space ++ side ++ ":" ++ rest

def Clash (p q : String) : Prop := p = q ∨ Beneath p q ∨ Beneath q p

/-- What stands before a colon at the end begins with all that stands before a
colon further in. -/
theorem append_colon_eq_iff {name side : String} :
    (∃ start, name ++ ":" = side ++ ":" ++ start) ↔
      name = side ∨ ∃ rest, name = side ++ ":" ++ rest := by
  simp only [← String.toList_inj, String.toList_append]
  constructor
  · rintro ⟨start, h⟩
    rcases List.eq_nil_or_concat' start.toList with hs | ⟨rest, last, hs⟩
    · rw [hs, List.append_nil] at h
      exact Or.inl (List.append_cancel_right h)
    · rw [hs, ← List.append_assoc] at h
      exact Or.inr ⟨String.ofList rest, by simpa using (List.append_inj' h rfl).1⟩
  · rintro (h | ⟨rest, h⟩)
    · exact ⟨"", by simp [h]⟩
    · exact ⟨rest ++ ":", by simp [h]⟩

theorem within_iff {inner outer : RouteMap} :
    inner.Within outer ↔ Beneath outer.space inner.space := by
  simp only [Within, Beneath, pairs, exists_or, append_colon_eq_iff, List.mem_cons,
    List.not_mem_nil, or_false, exists_eq_or_imp, exists_eq_left]

/-- The keys of an inner map are among those of the outer one. -/
theorem Within.owns {inner outer : RouteMap} (h : inner.Within outer) (x : String) :
    outer.pairs.Owns (inner.pairs.forwardKey x) := by
  obtain ⟨start, hkeys | hkeys⟩ := h.keys
  · rw [(hkeys x).1]
    exact outer.pairs.owns_forwardKey _
  · rw [(hkeys x).1]
    exact outer.pairs.owns_reverseKey _

theorem share_iff_clash (m n : RouteMap) :
    (∃ key, m.pairs.Owns key ∧ n.pairs.Owns key) ↔ Clash m.space n.space := by
  constructor
  · rintro ⟨key, hm, hn⟩
    rcases same_or_within hm hn with h | h | h
    · exact Or.inl h
    · exact Or.inr (Or.inr (within_iff.1 h))
    · exact Or.inr (Or.inl (within_iff.1 h))
  · rintro (h | h | h)
    · obtain rfl : m = n := congrArg RouteMap.mk h
      exact ⟨_, m.pairs.owns_forwardKey "", m.pairs.owns_forwardKey ""⟩
    · exact ⟨_, (within_iff.2 h).owns "", n.pairs.owns_forwardKey ""⟩
    · exact ⟨_, m.pairs.owns_forwardKey "", (within_iff.2 h).owns ""⟩

end RouteMap

/-! ## Calls on route maps -/

inductive RouteCall
  | save (foreign entity : String)
  | remove (entity : String)
  | get (foreign : String)
  | foreignId (entity : String)
  deriving DecidableEq, Repr

namespace RouteCall

abbrev Answer : RouteCall → Type
  | .save _ _ => Unit
  | .remove _ => Bool
  | .get _ => String
  | .foreignId _ => String

def program (m : RouteMap) : (c : RouteCall) → KeyProgram (Except CacheError c.Answer)
  | .save foreign entity => m.save foreign entity
  | .remove entity => m.remove entity
  | .get foreign => m.get foreign
  | .foreignId entity => m.foreignId entity

theorem keepsTo_program (m : RouteMap) (c : RouteCall) :
    (c.program m).KeepsTo m.pairs.Owns := by
  cases c with
  | save foreign entity => exact m.pairs.keepsTo_program (.save foreign entity)
  | remove entity => exact m.pairs.keepsTo_program (.removeReverse entity)
  | get foreign => exact m.pairs.keepsTo_program (.get foreign)
  | foreignId entity => exact m.pairs.keepsTo_program (.getReverse entity)

end RouteCall

/-- A call on a map, and the faults that its calls to the store meet. -/
structure RouteVisit where
  map : RouteMap
  call : RouteCall
  faults : List (Option Fault)

/-- A call on a map, and how it ended. -/
structure RouteOutcome where
  map : RouteMap
  call : RouteCall
  answer : Except CacheError call.Answer

namespace RouteVisit

def run (v : RouteVisit) (keys : Keys) : RouteOutcome × Keys :=
  let (answer, s) := (v.call.program v.map).run Keys.faulted (v.faults, keys)
  (⟨v.map, v.call, answer⟩, s.2)

variable {m : RouteMap}

/-- A visit to another map is overlooked, unless the names clash. -/
theorem overlooks {visits : List RouteVisit}
    (h : ∀ v ∈ visits, v.map = m ∨ ¬ RouteMap.Clash m.space v.map.space) :
    Overlooks run (fun v => v.map = m)
      (fun s t => ∀ k, m.pairs.Owns k → s.get? k = t.get? k) visits := by
  constructor
  · intro v s t hv hk hs k hm
    have hapart : ¬ v.map.pairs.Owns k := by
      intro hown
      rcases h v hv with he | hc
      · simp [he] at hk
      · exact hc ((RouteMap.share_iff_clash m v.map).1 ⟨k, hm, hown⟩)
    exact (get?_run_faulted_of_keepsTo (v.call.keepsTo_program v.map) hapart v.faults).trans
      (hs k hm)
  · intro v s t hk hs
    obtain rfl : v.map = m := by simpa using hk
    obtain ⟨hanswer, hkeys⟩ := run_faulted_congr (v.call.keepsTo_program v.map) hs v.faults
    exact ⟨congrArg (RouteOutcome.mk v.map v.call) hanswer, hkeys⟩

end RouteVisit

/-! ## The main law -/

/-- Two route maps share a key exactly if their names clash. Whatever a store
holds, and whatever calls are made on maps whose names do not clash with that
of `m`, also where the store fails: the answers of `m` and the entries that it
is left with are those of a run without the other maps. -/
theorem route_maps_clash_or_are_apart (m : RouteMap) :
    (∀ n : RouteMap,
      (∃ key, m.pairs.Owns key ∧ n.pairs.Owns key) ↔ RouteMap.Clash m.space n.space) ∧
    ∀ (keys : Keys) (visits : List RouteVisit),
      (∀ v ∈ visits, v.map = m ∨ ¬ RouteMap.Clash m.space v.map.space) →
      (inTurn RouteVisit.run visits keys).1.filter (fun o => o.map = m)
          = (inTurn RouteVisit.run (visits.filter (fun v => v.map = m)) keys).1 ∧
        ∀ key, m.pairs.Owns key →
          (inTurn RouteVisit.run visits keys).2.get? key
            = (inTurn RouteVisit.run (visits.filter (fun v => v.map = m)) keys).2.get? key :=
  ⟨RouteMap.share_iff_clash m, fun _ _ h =>
    (RouteVisit.overlooks h).inTurn (fun _ _ => rfl) fun _ _ => rfl⟩

/-- A name may begin with that of another map and its mark, as long as more
than the mark follows before a colon. -/
theorem a_route_is_apart_from_a_map_of_a_longer_name :
    ¬ RouteMap.Clash "lora" "lora:external" ∧
      (inTurn RouteVisit.run [⟨⟨"lora"⟩, .save "ernal:ext:1" "e1", []⟩,
          ⟨⟨"lora:external"⟩, .save "1" "e2", []⟩, ⟨⟨"lora"⟩, .get "ernal:ext:1", []⟩] ∅).1.filter
          (fun o => o.map = ⟨"lora"⟩)
        = [⟨⟨"lora"⟩, .save "ernal:ext:1" "e1", .ok ()⟩,
            ⟨⟨"lora"⟩, .get "ernal:ext:1", .ok "e1"⟩] := by
  have hclash : ¬ RouteMap.Clash "lora" "lora:external" := by
    simp only [RouteMap.Clash, RouteMap.Beneath, List.mem_cons, List.not_mem_nil, or_false,
      exists_eq_or_imp, exists_eq_left]
    simp [← String.toList_inj]
  refine ⟨hclash, ((route_maps_clash_or_are_apart ⟨"lora"⟩).2 ∅ _ ?_).1.trans ?_⟩
  · simpa using hclash
  · rfl

end LifecycleLog
