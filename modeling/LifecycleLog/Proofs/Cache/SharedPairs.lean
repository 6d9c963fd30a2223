-- Two clients that change one pair cache at the same time. Nothing keeps their
-- calls apart, so that a client may act on what it read before the other one
-- wrote. Some operations may overlap all the same: however their calls take
-- turns, each entry is answered from the other side once both are done.
import LifecycleLog.Proofs.Cache.Pairing
import LifecycleLog.Proofs.Interleaving

namespace LifecycleLog

/-! ## Operations that may overlap -/

namespace PairCall

def saves : PairCall → Bool
  | .save _ _ => true
  | .remove _ => false
  | .removeReverse _ => false
  | .get _ => false
  | .getReverse _ => false

/-- The entries that the operation may write: those of the texts it names, and
those of the texts that these are paired with. -/
def touched (c : PairCache) (keys : Keys) : PairCall → List String
  | .save a b =>
    c.forwardKey a :: c.reverseKey b ::
      ((keys.get? (c.forwardKey a)).toList.map c.reverseKey ++
        (keys.get? (c.reverseKey b)).toList.map c.forwardKey)
  | .remove a => c.forwardKey a :: (keys.get? (c.forwardKey a)).toList.map c.reverseKey
  | .removeReverse b => c.reverseKey b :: (keys.get? (c.reverseKey b)).toList.map c.forwardKey
  | .get _ => []
  | .getReverse _ => []

end PairCall

namespace PairCache

/-- The calls of two operations may take turns in any way, from `keys` on. -/
inductive MayOverlap (c : PairCache) (keys : Keys) : PairCall → PairCall → Prop
  /-- Both save one pair. -/
  | same (a b : String) : MayOverlap c keys (.save a b) (.save a b)
  /-- Neither writes an entry anew. -/
  | unsaved {p q : PairCall} (hp : p.saves = false) (hq : q.saves = false) :
    MayOverlap c keys p q
  /-- No entry is touched by both. -/
  | apart {p q : PairCall} (h : (p.touched c keys).Disjoint (q.touched c keys)) :
    MayOverlap c keys p q
  /-- A save writes the entry from `b` last, and until then there is nothing
  from `b` to remove. -/
  | unpaired (a : String) {b : String} (h : keys.get? (c.reverseKey b) = none) :
    MayOverlap c keys (.save a b) (.removeReverse b)
  | symm {p q : PairCall} (h : MayOverlap c keys p q) : MayOverlap c keys q p

variable {c : PairCache} {keys : Keys} {a b x y : String}

/-! ## One operation by itself -/

theorem inverse_empty (c : PairCache) : c.Inverse ∅ := by
  intro a b
  simp

theorem Inverse.removed (hc : c.SidesApart) (h : c.Inverse keys) :
    c.Inverse (removed (c.forwardKey a) a c.reverseKey keys) := by
  intro x y
  rw [get?_removed_forwardKey_iff hc, get?_removed_reverseKey_iff hc h, h x y]

theorem Inverse.step (hc : c.SidesApart) (h : c.Inverse keys) (p : PairCall) :
    c.Inverse (Keys.run (p.program c) keys).2 := by
  cases p with
  | save a b =>
    simp only [PairCall.program, run_save]
    exact h.saved hc
  | remove a =>
    simp only [PairCall.program, PairCache.remove, run_removeEntry]
    exact h.removed hc
  | removeReverse b =>
    simp only [PairCall.program, PairCache.removeReverse, run_removeEntry]
    exact (h.swap.removed (sidesApart_swap hc)).swap
  | get a =>
    rw [PairCall.program, PairCache.get, (run_lookup c a fun v => Iff.rfl).1]
    exact h
  | getReverse b =>
    rw [PairCall.program, PairCache.getReverse, (run_lookup c b fun v => Iff.rfl).1]
    exact h

theorem onlyReads_lookup (c : PairCache) (key raw : String) : (c.lookup key raw).OnlyReads := by
  refine ⟨fun keys => rfl, fun r => ?_⟩
  rcases r with e | (_ | value) <;> trivial

theorem namesOnly_pointingBack {ε α : Type} {wrap : StoreError → ε} {space : String → Prop}
    {candidates : List (String × String)} {next : List String → KeyProgram (Except ε α)}
    (hs : ∀ p ∈ candidates, space p.1)
    (h : (next (pointing keys candidates)).NamesOnly space keys) :
    (pointingBack wrap candidates next).NamesOnly space keys := by
  induction candidates generalizing next with
  | nil => exact h
  | cons p rest ih =>
    obtain ⟨key, owner⟩ := p
    rw [pointing_cons] at h
    refine namesOnly_orFail (by simpa [KeyCall.keys] using hs (key, owner) List.mem_cons_self) ?_
    exact ih (fun p hp => hs p (List.mem_cons_of_mem _ hp)) h

theorem namesOnly_deleteAny {ε α : Type} {wrap : StoreError → ε} {space : String → Prop}
    {ks : List String} {next : KeyProgram (Except ε α)} (hs : ∀ k ∈ ks, space k)
    (h : next.NamesOnly space (Keys.deleteAll ks keys).2) :
    (deleteAny wrap ks next).NamesOnly space keys := by
  cases ks with
  | nil => exact h
  | cons k rest => exact namesOnly_orFail hs h

theorem namesOnly_save (c : PairCache) (a b : String) (keys : Keys) :
    (c.save a b).NamesOnly (· ∈ PairCall.touched c keys (.save a b)) keys := by
  have hf : ∀ k ∈ [c.forwardKey a], k ∈ PairCall.touched c keys (.save a b) := by
    simp [PairCall.touched]
  have hr : ∀ k ∈ [c.reverseKey b], k ∈ PairCall.touched c keys (.save a b) := by
    simp [PairCall.touched]
  have htouched : ∀ k, (∃ y, keys.get? (c.forwardKey a) = some y ∧ k = c.reverseKey y) ∨
      (∃ x, keys.get? (c.reverseKey b) = some x ∧ k = c.forwardKey x) →
      k ∈ PairCall.touched c keys (.save a b) := by
    rintro k (⟨y, hy, rfl⟩ | ⟨x, hx, rfl⟩)
    · simp [PairCall.touched, hy]
    · simp [PairCall.touched, hx]
  refine namesOnly_orFail hf (namesOnly_orFail hr ?_)
  refine namesOnly_pointingBack ?_ (namesOnly_deleteAny ?_ ?_)
  · rintro ⟨k, o⟩ hk
    rw [List.mem_append, mem_unlinked, mem_unlinked] at hk
    rcases hk with ⟨y, hy, _, rfl, _⟩ | ⟨x, hx, _, rfl, _⟩
    · exact htouched _ (Or.inl ⟨y, hy, rfl⟩)
    · exact htouched _ (Or.inr ⟨x, hx, rfl⟩)
  · intro k hk
    rcases mem_stale.1 hk with ⟨y, hy, _, rfl, _⟩ | ⟨x, hx, _, rfl, _⟩
    · exact htouched _ (Or.inl ⟨y, hy, rfl⟩)
    · exact htouched _ (Or.inr ⟨x, hx, rfl⟩)
  · exact namesOnly_orFail hf (namesOnly_orFail hr trivial)

theorem namesOnly_removeEntry {own value : String} {keyOf : String → String} {space : String → Prop}
    (ho : space own) (hk : ∀ partner, keys.get? own = some partner → space (keyOf partner)) :
    (c.removeEntry own value keyOf).NamesOnly space keys := by
  refine namesOnly_orFail (by simpa [KeyCall.keys] using ho) ?_
  simp only [Keys.answer]
  cases hp : keys.get? own with
  | none => trivial
  | some partner =>
    refine namesOnly_orFail (by simpa [KeyCall.keys] using hk partner hp) ?_
    refine namesOnly_orFail ?_ trivial
    simp only [KeyCall.keys]
    split
    · simpa using ⟨ho, hk partner hp⟩
    · simpa using ho

/-- An operation either only reads, or names no other entries than it touches. -/
theorem onlyReads_or_namesOnly (c : PairCache) (keys : Keys) (p : PairCall) :
    (p.program c).OnlyReads ∨ (p.program c).NamesOnly (· ∈ p.touched c keys) keys := by
  cases p with
  | save a b => exact Or.inr (namesOnly_save c a b keys)
  | remove a => exact Or.inr (namesOnly_removeEntry (by simp [PairCall.touched])
      fun partner hp => by simp [PairCall.touched, hp])
  | removeReverse b => exact Or.inr (namesOnly_removeEntry (by simp [PairCall.touched])
      fun partner hp => by simp [PairCall.touched, hp])
  | get a => exact Or.inl (onlyReads_lookup c _ _)
  | getReverse b => exact Or.inl (onlyReads_lookup c _ _)

/-- Operations that touch different entries leave what they leave one after the other. -/
theorem inverse_of_apart (hc : c.SidesApart) (h : c.Inverse keys) {p q : PairCall}
    (hd : (p.touched c keys).Disjoint (q.touched c keys)) {fin : Keys}
    (hf : Keys.CanLeave (p.program c) (q.program c) keys fin) : c.Inverse fin := by
  rcases onlyReads_or_namesOnly c keys q with hq | hq
  · obtain ⟨turns, rfl⟩ := hf
    rw [snd_weave_of_onlyReads hq]
    exact h.step hc p
  · rcases onlyReads_or_namesOnly c keys p with hp | hp
    · obtain ⟨turns, rfl⟩ := hf.symm
      rw [snd_weave_of_onlyReads hp]
      exact h.step hc q
    · obtain ⟨turns, rfl⟩ := hf
      rw [weave_of_namesOnly hp hq fun k hk hk' => hd hk hk']
      exact (h.step hc p).step hc q

/-! ## Removals beside each other -/

/-- From the first keys to the second no entry came, and pairs went as wholes. -/
structure Thinned (c : PairCache) (before now : Keys) : Prop where
  kept : ∀ k v, now.get? k = some v → before.get? k = some v
  inverse : c.Inverse before → c.Inverse now

instance thinnedPreorder (c : PairCache) : IsPreorder Keys c.Thinned where
  refl _ := ⟨fun _ _ h => h, fun h => h⟩
  trans _ _ _ h h' :=
    ⟨fun k v hv => h.kept k v (h'.kept k v hv), fun hi => h'.inverse (h.inverse hi)⟩

theorem inverse_swap (c : PairCache) : c.swap.Inverse = c.Inverse := by
  funext keys
  exact propext ⟨fun h => h.swap, fun h => h.swap⟩

theorem thinned_swap (c : PairCache) : c.swap.Thinned = c.Thinned := by
  funext before now
  apply propext
  constructor
  · exact fun h => ⟨h.kept, fun hi => (h.inverse hi.swap).swap⟩
  · exact fun h => ⟨h.kept, fun hi => (h.inverse hi.swap).swap⟩

/-- Keys among which both entries of a pair are, or none. -/
theorem thinned_deleteAll {ks : List String} (hks : c.Inverse keys → ∀ x y,
    keys.get? (c.forwardKey x) = some y → (c.forwardKey x ∈ ks ↔ c.reverseKey y ∈ ks)) :
    c.Thinned keys (Keys.deleteAll ks keys).2 := by
  constructor
  · intro k v hv
    rw [Keys.get?_deleteAll] at hv
    split at hv
    · cases hv
    · exact hv
  · intro h x y
    simp only [Keys.get?_deleteAll]
    by_cases hp : keys.get? (c.forwardKey x) = some y
    · have hp' := (h x y).1 hp
      by_cases hm : c.reverseKey y ∈ ks <;> simp [hp, hp', hks h x y hp, hm]
    · have hp' := mt (h x y).2 hp
      split <;> split <;> simp [hp, hp']

/-- A pair that was seen, and is deleted with both entries if both were there
and with one if the other was not. -/
theorem thinned_deletePair (hc : c.SidesApart) {seen later now : Keys} (hi : c.Inverse seen)
    (hy : seen.get? (c.forwardKey a) = some y) (hl : c.Thinned seen later)
    (hn : c.Thinned later now) :
    c.Thinned now (Keys.deleteAll (if later.get? (c.reverseKey y) = some a
      then [c.forwardKey a, c.reverseKey y] else [c.forwardKey a]) now).2 := by
  -- of the pairs that are left, that of `a` is the one with `y`
  have hpair : ∀ x z, now.get? (c.forwardKey x) = some z → (x = a ↔ z = y) := by
    intro x z hz
    have hx := hl.kept _ _ (hn.kept _ _ hz)
    constructor
    · rintro rfl
      rw [hy] at hx
      exact (Option.some.inj hx).symm
    · rintro rfl
      have ha := (hi a z).1 hy
      rw [(hi x z).1 hx] at ha
      exact Option.some.inj ha
  apply thinned_deleteAll
  intro hinv x z hz
  split
  · simp [forwardKey_ne_reverseKey hc, reverseKey_ne_forwardKey hc, hpair x z hz]
  · rename_i hne
    have hx : x ≠ a := by
      rintro rfl
      have hzy := (hpair x z hz).1 rfl
      exact hne (hn.kept _ _ (hzy ▸ (hinv x z).1 hz))
    simp [reverseKey_ne_forwardKey hc, hx]

theorem abides_remove (hc : c.SidesApart) (h : c.Inverse keys) (a : String) :
    (c.remove a).Abides c.Thinned c.Thinned c.Inverse keys := by
  refine .get fun seen hs => ?_
  have hi : c.Inverse seen := hs.inverse h
  cases hy : seen.get? (c.forwardKey a) with
  | none => exact fun now hn => hn.inverse hi
  | some y =>
    refine .get fun later hl => .orFail fun now hn => ?_
    have hthin := thinned_deletePair hc hi hy hl hn
    refine ⟨hthin, fun fin hf => ?_⟩
    exact hf.inverse (hthin.inverse (hn.inverse (hl.inverse hi)))

/-- An operation that saves nothing. -/
theorem abides_unsaved (hc : c.SidesApart) (h : c.Inverse keys) {p : PairCall}
    (hp : p.saves = false) :
    (p.program c).Abides c.Thinned c.Thinned c.Inverse keys := by
  have hlookup : ∀ key raw, (c.lookup key raw).Abides c.Thinned c.Thinned c.Inverse keys := by
    intro key raw
    refine .get fun seen hs => ?_
    cases seen.get? key with
    | none => exact fun now hn => hn.inverse (hs.inverse h)
    | some value => exact fun now hn => hn.inverse (hs.inverse h)
  cases p with
  | save a b => cases hp
  | remove a => exact abides_remove hc h a
  | removeReverse b =>
    have hs := abides_remove (sidesApart_swap hc) h.swap b
    rw [thinned_swap, inverse_swap] at hs
    exact hs
  | get a => exact hlookup _ _
  | getReverse b => exact hlookup _ _

/-! ## A save and what happens around it -/

/-- At some moment between the two the keys satisfied `P`. -/
def Sometime (theirs : Keys → Keys → Prop) (before now : Keys) (P : Keys → Prop) : Prop :=
  ∃ mid, theirs before mid ∧ theirs mid now ∧ P mid

/-- Each key of `found` is that of a candidate that was seen pointing to its
owner, and the other candidates were seen not to. -/
structure Checked (theirs : Keys → Keys → Prop) (before now : Keys)
    (candidates : List (String × String)) (found : List String) : Prop where
  since : theirs before now
  seen : ∀ k ∈ found, ∃ o, (k, o) ∈ candidates ∧
    Sometime theirs before now (fun keys => keys.get? k = some o)
  missed : ∀ k o, (k, o) ∈ candidates → k ∉ found →
    Sometime theirs before now (fun keys => keys.get? k ≠ some o)

section Surroundings

variable {theirs mine : Keys → Keys → Prop} {post : Keys → Prop} [IsPreorder Keys theirs]

theorem Sometime.earlier {first before now : Keys} {P : Keys → Prop}
    (h : Sometime theirs before now P) (hf : theirs first before) :
    Sometime theirs first now P := by
  obtain ⟨mid, hb, hn, hp⟩ := h
  exact ⟨mid, trans_of theirs hf hb, hn, hp⟩

theorem Sometime.later {before now last : Keys} {P : Keys → Prop}
    (h : Sometime theirs before now P) (hl : theirs now last) :
    Sometime theirs before last P := by
  obtain ⟨mid, hb, hn, hp⟩ := h
  exact ⟨mid, hb, trans_of theirs hn hl, hp⟩

theorem Checked.later {before now last : Keys} {candidates : List (String × String)}
    {found : List String} (h : Checked theirs before now candidates found)
    (hl : theirs now last) : Checked theirs before last candidates found := by
  refine ⟨trans_of theirs h.since hl, fun k hk => ?_, fun k o ho hk => ?_⟩
  · obtain ⟨o, ho, hs⟩ := h.seen k hk
    exact ⟨o, ho, hs.later hl⟩
  · exact (h.missed k o ho hk).later hl

/-- One more candidate, read before the others. -/
theorem Checked.cons {before mid now : Keys} {key owner : String}
    {candidates : List (String × String)} {found : List String}
    (h : Checked theirs mid now candidates found) (hm : theirs before mid) :
    Checked theirs before now ((key, owner) :: candidates)
      (if mid.get? key = some owner then key :: found else found) := by
  have hseen : ∀ k ∈ found, ∃ o, (k, o) ∈ (key, owner) :: candidates ∧
      Sometime theirs before now (fun keys => keys.get? k = some o) := by
    intro k hk
    obtain ⟨o, ho, hs⟩ := h.seen k hk
    exact ⟨o, List.mem_cons_of_mem _ ho, hs.earlier hm⟩
  refine ⟨trans_of theirs hm h.since, fun k hk => ?_, fun k o ho hk => ?_⟩
  · split at hk
    · rename_i howner
      rcases List.mem_cons.1 hk with rfl | hk
      · exact ⟨owner, List.mem_cons_self, mid, hm, h.since, howner⟩
      · exact hseen k hk
    · exact hseen k hk
  · split at hk
    · rw [List.mem_cons, not_or] at hk
      rcases List.mem_cons.1 ho with he | ho
      · exact absurd (Prod.mk.inj he).1 hk.1
      · exact (h.missed k o ho hk.2).earlier hm
    · rename_i howner
      rcases List.mem_cons.1 ho with he | ho
      · obtain ⟨rfl, rfl⟩ := Prod.mk.inj he
        exact ⟨mid, hm, h.since, howner⟩
      · exact (h.missed k o ho hk).earlier hm

theorem abides_pointingBack [IsPreorder Keys mine] {ε α : Type} {wrap : StoreError → ε}
    {candidates : List (String × String)} {next : List String → KeyProgram (Except ε α)}
    (h : ∀ found now, Checked theirs keys now candidates found →
      (next found).Abides theirs mine post now) :
    (pointingBack wrap candidates next).Abides theirs mine post keys := by
  induction candidates generalizing next keys with
  | nil => exact h [] keys ⟨refl_of theirs keys, by simp, by simp⟩
  | cons p rest ih =>
    obtain ⟨key, owner⟩ := p
    exact .get fun mid hm => ih fun found now hfound => h _ now (hfound.cons hm)

theorem abides_deleteAny {ε α : Type} {wrap : StoreError → ε} {ks : List String}
    {next : KeyProgram (Except ε α)} (h : ∀ now, theirs keys now →
      mine now (Keys.deleteAll ks now).2 ∧
        next.Abides theirs mine post (Keys.deleteAll ks now).2) :
    (deleteAny wrap ks next).Abides theirs mine post keys := by
  cases ks with
  | nil => exact (h keys (refl_of theirs keys)).2
  | cons k rest => exact .orFail h

section Stages

variable {first second now : Keys} {found : List String}

/-- What was found to be stale, beside a client that takes the keys at most to
later stages of the save, is so still or is gone. -/
theorem mem_stale_of_checked (hc : c.SidesApart) (hs : theirs first second)
    (hstage : ∀ mid now, theirs first mid → theirs mid now → c.SaveStage a b mid now)
    (hfound : Checked theirs second now (unlinked c.reverseKey b a (first.get? (c.forwardKey a)) ++
      unlinked c.forwardKey a b (second.get? (c.reverseKey b))) found) {k : String}
    (hk : k ∈ found) : k ∈ c.stale a b now ∨ now.get? k = none := by
  have hr := refl_of theirs first
  obtain ⟨o, ho, mid, hm, -, hv⟩ := hfound.seen k hk
  -- the entry was stale when its candidate was read
  have hstale : ∃ since : Keys, k ∈ c.stale a b since ∧ c.SaveStage a b since now := by
    rw [List.mem_append, mem_unlinked, mem_unlinked] at ho
    rcases ho with ⟨y, hy, hne, rfl, rfl⟩ | ⟨x, hx, hne, rfl, rfl⟩
    · have hback : first.get? (c.reverseKey y) = some o :=
        ((hstage first mid hr (trans_of theirs hs hm)).reverse hc hv).resolve_left
          fun he => hne he.2
      exact ⟨first, (reverseKey_mem_stale hc).2 ⟨hy, hne, hback⟩,
        hstage first now hr (trans_of theirs hs hfound.since)⟩
    · have hback : second.get? (c.forwardKey x) = some o :=
        ((hstage second mid hs hm).forward hc hv).resolve_left fun he => hne he.1
      exact ⟨second, (forwardKey_mem_stale hc).2 ⟨hx, hne, hback⟩,
        hstage second now hs hfound.since⟩
  obtain ⟨since, hmem, hsince⟩ := hstale
  rcases hsince.get?_of_mem_stale hc hmem with rfl | hn
  · exact Or.inl hmem
  · exact Or.inr hn

/-- And all that is stale was found. -/
theorem found_of_mem_stale (hc : c.SidesApart) (hs : theirs first second)
    (hstage : ∀ mid now, theirs first mid → theirs mid now → c.SaveStage a b mid now)
    (hfound : Checked theirs second now (unlinked c.reverseKey b a (first.get? (c.forwardKey a)) ++
      unlinked c.forwardKey a b (second.get? (c.reverseKey b))) found) {k : String}
    (hk : k ∈ c.stale a b now) : k ∈ found := by
  have hr := refl_of theirs first
  by_contra hnot
  rcases mem_stale.1 hk with ⟨y, hy, hne, rfl, hp⟩ | ⟨x, hx, hne, rfl, hp⟩
  · have hy' : first.get? (c.forwardKey a) = some y :=
      ((hstage first now hr (trans_of theirs hs hfound.since)).forward hc hy).resolve_left
        fun he => hne he.2
    obtain ⟨mid, hm, hn, hv⟩ := hfound.missed (c.reverseKey y) a
      (List.mem_append_left _ (mem_unlinked.2 ⟨y, hy', hne, rfl, rfl⟩)) hnot
    have hback := (hstage mid now (trans_of theirs hs hm) hn).reverse hc hp
    exact hv (hback.resolve_left fun he => hne he.2)
  · have hx' : second.get? (c.reverseKey b) = some x :=
      ((hstage second now hs hfound.since).reverse hc hx).resolve_left fun he => hne he.1
    obtain ⟨mid, hm, hn, hv⟩ := hfound.missed (c.forwardKey x) b
      (List.mem_append_right _ (mem_unlinked.2 ⟨x, hx', hne, rfl, rfl⟩)) hnot
    have hback := (hstage mid now (trans_of theirs hs hm) hn).forward hc hp
    exact hv (hback.resolve_left fun he => hne he.1)

theorem deleteAll_of_checked (hc : c.SidesApart) (hs : theirs first second)
    (hstage : ∀ mid now, theirs first mid → theirs mid now → c.SaveStage a b mid now)
    (hfound : Checked theirs second now (unlinked c.reverseKey b a (first.get? (c.forwardKey a)) ++
      unlinked c.forwardKey a b (second.get? (c.reverseKey b))) found) :
    (Keys.deleteAll found now).2 = c.cleared a b now := by
  apply Table.ext_get?
  intro k
  rw [Keys.get?_deleteAll, get?_cleared]
  by_cases hk : k ∈ found
  · rw [if_pos hk]
    rcases mem_stale_of_checked hc hs hstage hfound hk with hm | hn
    · rw [if_pos hm]
    · simp [hn]
  · rw [if_neg hk, if_neg (mt (found_of_mem_stale hc hs hstage hfound) hk)]

end Stages

/-- A save beside a client that takes the keys at most to later stages of the
same save, until the entries to unlink are deleted. That deletion clears the
keys. -/
theorem abides_save [IsPreorder Keys mine] (hc : c.SidesApart)
    (hstage : ∀ mid now, theirs keys mid → theirs mid now → c.SaveStage a b mid now)
    (h : ∀ now, theirs keys now → mine now (c.cleared a b now) ∧
      ((KeyCall.set (c.forwardKey a) b).orFail (CacheError.save c.name) fun _ =>
        (KeyCall.set (c.reverseKey b) a).orFail (CacheError.save c.name) fun _ =>
          .done (.ok ())).Abides theirs mine post (c.cleared a b now)) :
    (c.save a b).Abides theirs mine post keys := by
  refine .get fun first h₁ => .get fun second h₂ => ?_
  have hstage' : ∀ mid now, theirs first mid → theirs mid now → c.SaveStage a b mid now :=
    fun mid now hm => hstage mid now (trans_of theirs h₁ hm)
  refine abides_pointingBack fun found mid hfound => abides_deleteAny fun now hnow => ?_
  have hfound' := hfound.later hnow
  rw [deleteAll_of_checked hc h₂ hstage' hfound']
  exact h now (trans_of theirs h₁ (trans_of theirs h₂ hfound'.since))

end Surroundings

/-! ## The same save twice -/

theorem saveStage_isPreorder (hc : c.SidesApart) : IsPreorder Keys (c.SaveStage a b) where
  refl _ := .before
  trans _ _ _ h h' := h.trans hc h'

theorem abides_same_save (hc : c.SidesApart) (a b : String) (keys : Keys) :
    (c.save a b).Abides (c.SaveStage a b) (c.SaveStage a b) (fun fin => fin = c.saved a b keys)
      keys := by
  have hpre : IsPreorder Keys (c.SaveStage a b) := saveStage_isPreorder hc
  refine abides_save hc (fun mid now _ h => h) fun now hn => ⟨.cleared, .orFail fun k₁ h₁ => ?_⟩
  -- the other save may be ahead by now, and each write still leads to a stage
  have hk₁ : c.stale a b k₁ = [] := h₁.stale_eq_nil hc (stale_cleared hc)
  have hhalf : k₁.insert (c.forwardKey a) b = c.half a b k₁ := by
    rw [PairCache.half, cleared_eq_self hk₁]
  simp only [Keys.answer, hhalf]
  refine ⟨.half, .orFail fun k₂ h₂ => ?_⟩
  have hk₂ : c.half a b k₂ = k₂ :=
    half_eq_self (h₂.stale_eq_nil hc (stale_half hc))
      (h₂.get?_forwardKey hc (by rw [get?_half, if_pos rfl]))
  have hsaved : k₂.insert (c.reverseKey b) a = c.saved a b k₂ := by
    rw [PairCache.saved, hk₂]
  simp only [Keys.answer, hsaved]
  refine ⟨.saved, fun fin hf => ?_⟩
  have hkeys : c.SaveStage a b keys k₂ :=
    hn.trans hc (SaveStage.cleared.trans hc (h₁.trans hc (SaveStage.half.trans hc h₂)))
  rw [hf.eq_saved hc]
  exact (hkeys.onward hc).2.2

/-! ## A save beside a removal that finds nothing -/

/-- Without an entry from `b` nothing is removed. -/
structure Spares (c : PairCache) (b : String) (before now : Keys) : Prop where
  still : before.get? (c.reverseKey b) = none → now = before
  inverse : c.Inverse before → c.Inverse now

/-- Once there is an entry from `b` the save is over. -/
structure Yields (c : PairCache) (b : String) (before now : Keys) : Prop where
  still : before.get? (c.reverseKey b) ≠ none → now = before

instance sparesPreorder (c : PairCache) (b : String) : IsPreorder Keys (c.Spares b) where
  refl _ := ⟨fun _ => rfl, fun h => h⟩
  trans _ _ _ h h' := by
    refine ⟨fun hb => ?_, fun hi => h'.inverse (h.inverse hi)⟩
    obtain rfl := h.still hb
    exact h'.still hb

instance yieldsPreorder (c : PairCache) (b : String) : IsPreorder Keys (c.Yields b) where
  refl _ := ⟨fun _ => rfl⟩
  trans _ _ _ h h' := by
    refine ⟨fun hb => ?_⟩
    obtain rfl := h.still hb
    exact h'.still hb

theorem abides_save_unpaired (hc : c.SidesApart) (h : c.Inverse keys) (a : String)
    (hb : keys.get? (c.reverseKey b) = none) :
    (c.save a b).Abides (c.Spares b) (c.Yields b) c.Inverse keys := by
  have hcleared : (c.cleared a b keys).get? (c.reverseKey b) = none := by
    rw [get?_cleared_reverseKey hc, hb]
  have hhalf : (c.half a b keys).get? (c.reverseKey b) = none := by
    rw [get?_half, if_neg (reverseKey_ne_forwardKey hc _ _), hcleared]
  -- up to its last call the save finds the keys as it left them
  refine abides_save hc (fun mid now hm hn => ?_) fun now hn => ?_
  · obtain rfl := hm.still hb
    obtain rfl := hn.still hb
    exact .before
  · obtain rfl := hn.still hb
    refine ⟨⟨fun hne => absurd hb hne⟩, .orFail fun k₁ h₁ => ?_⟩
    obtain rfl := h₁.still hcleared
    refine ⟨⟨fun hne => absurd hcleared hne⟩, .orFail fun k₂ h₂ => ?_⟩
    obtain rfl := h₂.still hhalf
    exact ⟨⟨fun hne => absurd hhalf hne⟩, fun fin hf => hf.inverse (h.saved hc)⟩

theorem abides_removeReverse_unpaired (hc : c.SidesApart) (b : String) (keys : Keys) :
    (c.removeReverse b).Abides (c.Yields b) (c.Spares b) (fun _ => True) keys := by
  refine .get fun seen _ => ?_
  cases hx : seen.get? (c.reverseKey b) with
  | none => exact fun _ _ => trivial
  | some x =>
    have hne : seen.get? (c.reverseKey b) ≠ none := by simp [hx]
    refine .get fun later hl => .orFail fun now hn => ?_
    obtain rfl := hl.still hne
    obtain rfl := hn.still hne
    refine ⟨⟨fun hb => absurd hb hne, fun hi => ?_⟩, fun _ _ => trivial⟩
    have hr : c.Inverse (PairCache.removed (c.reverseKey b) b c.forwardKey now) :=
      (hi.swap.removed (sidesApart_swap hc)).swap
    rw [PairCache.removed, hx] at hr
    exact hr

/-! ## Every pair of operations that may overlap -/

theorem MayOverlap.inverse (hc : c.SidesApart) (h : c.Inverse keys) {p q : PairCall}
    (hpq : c.MayOverlap keys p q) {fin : Keys}
    (hf : Keys.CanLeave (p.program c) (q.program c) keys fin) : c.Inverse fin := by
  induction hpq with
  | same a b =>
    obtain ⟨turns, rfl⟩ := hf
    have hpre : IsPreorder Keys (c.SaveStage a b) := saveStage_isPreorder hc
    have hs := abides_same_save hc a b keys
    have hfin : (Keys.weave turns (c.save a b) (c.save a b) keys).2 = c.saved a b keys :=
      (hs.weave hs turns).1
    simp only [PairCall.program, hfin]
    exact h.saved hc
  | unsaved hp hq =>
    obtain ⟨turns, rfl⟩ := hf
    exact ((abides_unsaved hc h hp).weave (abides_unsaved hc h hq) turns).1
  | apart hd => exact inverse_of_apart hc h hd hf
  | unpaired a hb =>
    obtain ⟨turns, rfl⟩ := hf
    exact ((abides_save_unpaired hc h a hb).weave (abides_removeReverse_unpaired hc _ keys) turns).1
  | symm _ ih => exact ih hf.symm

end PairCache

end LifecycleLog
