-- Key spaces of route maps. Two maps in one store share a key only if they
-- have one name, or if the name of one begins with a whole side of the other;
-- then every key of the first is a key of that side.
import LifecycleLog.Proofs.Cache.Stages

namespace LifecycleLog

namespace RouteMap

/-- Every key of the inner map is a key of one side of the outer map. -/
def Within (inner outer : RouteMap) : Prop :=
  ∃ start, inner.space ++ ":" = outer.pairs.forward ++ ":" ++ start ∨
    inner.space ++ ":" = outer.pairs.reverse ++ ":" ++ start

/-- What stands between the name of a map and an id in the keys of the map. -/
def marks : List (List Char) := [[':', 'e', 'x', 't', ':'], [':', 'i', 'n', 't', ':']]

theorem owns_iff {m : RouteMap} {key : String} :
    m.pairs.Owns key ↔ ∃ mark ∈ marks, ∃ id, key.toList = m.space.toList ++ mark ++ id := by
  simp only [PairCache.Owns, marks, List.mem_cons, List.not_mem_nil, or_false, exists_eq_or_imp,
    exists_eq_left, ← String.toList_inj]
  constructor
  · rintro ⟨x, h | h⟩
    · exact Or.inl ⟨x.toList, by simp [h, PairCache.forwardKey, pairs]⟩
    · exact Or.inr ⟨x.toList, by simp [h, PairCache.reverseKey, pairs]⟩
  · rintro (⟨id, h⟩ | ⟨id, h⟩)
    · exact ⟨String.ofList id, Or.inl (by simp [h, PairCache.forwardKey, pairs])⟩
    · exact ⟨String.ofList id, Or.inr (by simp [h, PairCache.reverseKey, pairs])⟩

/-- Two marks overlap in their last and first characters alone. -/
theorem length_of_append {gap mark mark' id id' : List Char} (hm : mark ∈ marks)
    (hm' : mark' ∈ marks) (h : mark ++ id = gap ++ (mark' ++ id')) : gap = [] ∨ 4 ≤ gap.length := by
  simp only [marks, List.mem_cons, List.not_mem_nil, or_false] at hm hm'
  match gap with
  | [] => exact Or.inl rfl
  | [a] => rcases hm with rfl | rfl <;> rcases hm' with rfl | rfl <;> simp at h
  | [a, b] => rcases hm with rfl | rfl <;> rcases hm' with rfl | rfl <;> simp at h
  | [a, b, c] => rcases hm with rfl | rfl <;> rcases hm' with rfl | rfl <;> simp at h
  | a :: b :: c :: d :: rest => exact Or.inr (by simp)

/-- So a longer gap begins with the whole mark, but for the colon at its end. -/
theorem mark_of_append {gap mark mark' id id' : List Char} (hm : mark ∈ marks)
    (hm' : mark' ∈ marks) (h : mark ++ id = gap ++ (mark' ++ id')) :
    gap = [] ∨ ∃ start, mark ++ start = gap ++ [':'] := by
  rcases length_of_append hm hm' h with hg | hl
  · exact Or.inl hg
  have hcolon : ∃ rest, mark' = ':' :: rest := by
    simp only [marks, List.mem_cons, List.not_mem_nil, or_false] at hm'
    rcases hm' with rfl | rfl <;> exact ⟨_, rfl⟩
  have hlength : mark.length = 5 := by
    simp only [marks, List.mem_cons, List.not_mem_nil, or_false] at hm
    rcases hm with rfl | rfl <;> rfl
  obtain ⟨rest, rfl⟩ := hcolon
  have hfront : gap ++ [':'] <+: mark ++ id := ⟨rest ++ id', by simp [h]⟩
  apply Or.inr
  apply List.prefix_of_prefix_length_le (List.prefix_append mark id) hfront
  simp only [List.length_append, List.length_singleton]
  omega

theorem within_of_mark {inner outer : RouteMap} {gap mark start : List Char} (hm : mark ∈ marks)
    (hs : inner.space.toList = outer.space.toList ++ gap) (hg : mark ++ start = gap ++ [':']) :
    inner.Within outer := by
  have hinner : (inner.space ++ ":").toList = outer.space.toList ++ (mark ++ start) := by
    simp [hs, hg]
  refine ⟨String.ofList start, ?_⟩
  simp only [← String.toList_inj, hinner]
  simp only [marks, List.mem_cons, List.not_mem_nil, or_false] at hm
  rcases hm with rfl | rfl
  · exact Or.inl (by simp [pairs])
  · exact Or.inr (by simp [pairs])

/-- Maps that share a key have one name, or one lies within the other. -/
theorem same_or_within {m n : RouteMap} {key : String} (hm : m.pairs.Owns key)
    (hn : n.pairs.Owns key) : m.space = n.space ∨ m.Within n ∨ n.Within m := by
  obtain ⟨mark, hmark, id, hk⟩ := owns_iff.1 hm
  obtain ⟨mark', hmark', id', hk'⟩ := owns_iff.1 hn
  have he : m.space.toList ++ (mark ++ id) = n.space.toList ++ (mark' ++ id') := by
    rw [← List.append_assoc, ← List.append_assoc, ← hk, ← hk']
  rcases List.append_eq_append_iff.1 he with ⟨gap, hs, h⟩ | ⟨gap, hs, h⟩
  · rcases mark_of_append hmark hmark' h with rfl | ⟨start, hg⟩
    · exact Or.inl (String.toList_inj.1 (by simpa using hs.symm))
    · exact Or.inr (Or.inr (within_of_mark hmark hs hg))
  · rcases mark_of_append hmark' hmark h with rfl | ⟨start, hg⟩
    · exact Or.inl (String.toList_inj.1 (by simpa using hs))
    · exact Or.inr (Or.inl (within_of_mark hmark' hs hg))

/-- The keys of an inner map are those of certain ids on one side of the outer map. -/
theorem Within.keys {inner outer : RouteMap} (h : inner.Within outer) :
    ∃ start : String,
      (∀ x, inner.pairs.forwardKey x = outer.pairs.forwardKey (start ++ "ext:" ++ x) ∧
        inner.pairs.reverseKey x = outer.pairs.forwardKey (start ++ "int:" ++ x)) ∨
      ∀ x, inner.pairs.forwardKey x = outer.pairs.reverseKey (start ++ "ext:" ++ x) ∧
        inner.pairs.reverseKey x = outer.pairs.reverseKey (start ++ "int:" ++ x) := by
  have hf : ∀ x, inner.pairs.forwardKey x = inner.space ++ ":" ++ "ext:" ++ x := by
    intro x
    rw [← String.toList_inj]
    simp [PairCache.forwardKey, pairs]
  have hr : ∀ x, inner.pairs.reverseKey x = inner.space ++ ":" ++ "int:" ++ x := by
    intro x
    rw [← String.toList_inj]
    simp [PairCache.reverseKey, pairs]
  obtain ⟨start, h | h⟩ := h
  · refine ⟨start, Or.inl fun x => ?_⟩
    rw [hf, hr, h]
    simp [PairCache.forwardKey, String.append_assoc]
  · refine ⟨start, Or.inr fun x => ?_⟩
    rw [hf, hr, h]
    simp [PairCache.reverseKey, String.append_assoc]

end RouteMap

end LifecycleLog
