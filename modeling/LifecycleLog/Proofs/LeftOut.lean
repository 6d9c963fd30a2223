-- Runs from which steps are left out. Where a step that is left out changes
-- nothing that the other steps look at, and the others do the same wherever
-- what they look at is the same, they show the same with it and without it.
namespace LifecycleLog

variable {ι ο σ : Type}

/-- Takes steps one after the other: what each of them shows, and where they lead. -/
def inTurn (step : ι → σ → ο × σ) : List ι → σ → List ο × σ
  | [], s => ([], s)
  | i :: rest, s => ((step i s).1 :: (inTurn step rest (step i s).2).1,
      (inTurn step rest (step i s).2).2)

/-- Those of the steps that are kept look at states up to `Alike`, and those
that are not stay within it. -/
structure Overlooks (step : ι → σ → ο × σ) (kept : ι → Bool) (Alike : σ → σ → Prop)
    (steps : List ι) : Prop where
  other : ∀ {i s t}, i ∈ steps → kept i = false → Alike s t → Alike (step i s).2 t
  same : ∀ {i s t}, kept i = true → Alike s t →
    (step i s).1 = (step i t).1 ∧ Alike (step i s).2 (step i t).2

/-- `shown` tells the steps that are kept by what they show. -/
theorem Overlooks.inTurn {step : ι → σ → ο × σ} {kept : ι → Bool} {Alike : σ → σ → Prop}
    {steps : List ι} (h : Overlooks step kept Alike steps) {shown : ο → Bool}
    (hshown : ∀ i s, shown (step i s).1 = kept i) {s t : σ} (hs : Alike s t) :
    (inTurn step steps s).1.filter shown = (inTurn step (steps.filter kept) t).1 ∧
      Alike (inTurn step steps s).2 (inTurn step (steps.filter kept) t).2 := by
  induction steps generalizing s t with
  | nil => exact ⟨rfl, hs⟩
  | cons i rest ih =>
    have hrest : Overlooks step kept Alike rest :=
      ⟨fun hi => h.other (List.mem_cons_of_mem i hi), h.same⟩
    cases hk : kept i with
    | false =>
      obtain ⟨hout, hend⟩ := ih hrest (h.other List.mem_cons_self hk hs)
      rw [List.filter_cons_of_neg (by simp [hk])]
      refine ⟨?_, hend⟩
      rw [LifecycleLog.inTurn, List.filter_cons_of_neg (by simp [hshown, hk])]
      exact hout
    | true =>
      obtain ⟨hfirst, hnext⟩ := h.same hk hs
      obtain ⟨hout, hend⟩ := ih hrest hnext
      rw [List.filter_cons_of_pos hk]
      refine ⟨?_, hend⟩
      rw [LifecycleLog.inTurn, List.filter_cons_of_pos (by simp [hshown, hk]), hout, hfirst]
      rfl

end LifecycleLog
