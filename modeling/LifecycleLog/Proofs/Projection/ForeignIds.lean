-- The foreign ids that the details of an entity yield, told apart from how they
-- are looked up: the id that is stated, else the text or the number to which
-- the pointer of the class leads in the metadata.
import LifecycleLog.Projection

namespace LifecycleLog

/-! ## Parts of a document -/

namespace Json

/-- Steps lead from a document down to a part of it: by a key to the last member
of an object that bears it, and by an index to an item of an array. -/
inductive Leads : List String → Json → Json → Prop
  | here (doc : Json) : Leads [] doc doc
  | member {key : String} {steps : List String} {before after : List (String × Json)}
      {value part : Json} : (∀ m ∈ after, m.1 ≠ key) → Leads steps value part →
      Leads (key :: steps) (.object (before ++ (key, value) :: after)) part
  | item {step : String} {steps : List String} {index : Nat} {items : List Json}
      {value part : Json} : indexOf step = some index → items[index]? = some value →
      Leads steps value part → Leads (step :: steps) (.array items) part

/-- A value names a foreign id: a text itself unless it is empty, a number by
its text. -/
inductive Names : Json → String → Prop
  | text {s : String} : s ≠ "" → Names (.string s) s
  | number (n : Number) : Names (.number n) n.text

theorem member_cons (key k : String) (v : Json) (rest : List (String × Json)) :
    member key ((k, v) :: rest) = (member key rest).or (if k = key then some v else none) := by
  rw [member]
  cases member key rest <;> rfl

theorem member_append (key : String) (before rest : List (String × Json)) :
    member key (before ++ rest) = (member key rest).or (member key before) := by
  induction before with
  | nil => simp [member]
  | cons m before ih => rw [List.cons_append, member_cons, ih, member_cons, Option.or_assoc]

theorem member_eq_none {key : String} {members : List (String × Json)} :
    member key members = none ↔ ∀ m ∈ members, m.1 ≠ key := by
  induction members with
  | nil => simp [member]
  | cons m rest ih =>
    rw [member_cons, Option.or_eq_none_iff, ih, List.forall_mem_cons, and_comm]
    simp

/-- The member of a key is the last one that bears it. -/
theorem member_eq_some {key : String} {members : List (String × Json)} {value : Json} :
    member key members = some value ↔ ∃ before after,
      members = before ++ (key, value) :: after ∧ ∀ m ∈ after, m.1 ≠ key := by
  constructor
  · intro h
    induction members with
    | nil => cases h
    | cons m rest ih =>
      obtain ⟨k, v⟩ := m
      rw [member_cons] at h
      cases hrest : member key rest with
      | some later =>
        rw [hrest, Option.some_or] at h
        obtain ⟨before, after, rfl, hafter⟩ := ih (hrest.trans h)
        exact ⟨(k, v) :: before, after, rfl, hafter⟩
      | none =>
        rw [hrest, Option.none_or] at h
        split at h
        · rename_i hk
          cases h
          exact ⟨[], rest, by rw [hk]; rfl, member_eq_none.1 hrest⟩
        · cases h
  · rintro ⟨before, after, rfl, hafter⟩
    rw [member_append, member_cons, member_eq_none.2 hafter, if_pos rfl]
    rfl

/-- Going down step by step is what the steps lead to. -/
theorem foldlM_child_eq_some {steps : List String} {doc part : Json} :
    steps.foldlM child doc = some part ↔ Leads steps doc part := by
  constructor
  · intro h
    induction steps generalizing doc with
    | nil =>
      cases h
      exact .here part
    | cons step rest ih =>
      rw [List.foldlM_cons, Option.bind_eq_bind, Option.bind_eq_some_iff] at h
      obtain ⟨value, hvalue, hrest⟩ := h
      cases doc with
      | object members =>
        obtain ⟨before, after, rfl, hafter⟩ := member_eq_some.1 hvalue
        exact .member hafter (ih hrest)
      | array items =>
        obtain ⟨index, hindex, hitem⟩ := Option.bind_eq_some_iff.1 hvalue
        exact .item hindex hitem (ih hrest)
      | null => cases hvalue
      | bool b => cases hvalue
      | number n => cases hvalue
      | string s => cases hvalue
  · intro h
    induction h with
    | here doc => rfl
    | member hafter _ ih =>
      rw [List.foldlM_cons, child, member_eq_some.2 ⟨_, _, rfl, hafter⟩]
      exact ih
    | item hindex hitem _ ih =>
      rw [List.foldlM_cons, child, hindex, Option.bind_some, hitem]
      exact ih

end Json

/-! ## Foreign ids -/

namespace RouteClass

theorem idOfValue_eq_some {value : Json} {foreign : String} :
    idOfValue value = some foreign ↔ value.Names foreign := by
  constructor
  · intro h
    cases value with
    | string s =>
      rw [idOfValue] at h
      split at h
      · cases h
      · rename_i hs
        cases h
        exact .text (by simpa using hs)
    | number n =>
      cases h
      exact .number n
    | null => cases h
    | bool b => cases h
    | array items => cases h
    | object members => cases h
  · rintro (hs | n)
    · rw [idOfValue, if_neg (by simpa using hs)]
    · rfl

/-- The details yield a foreign id for an entity of the class: they state it or,
if they state none, their metadata is a document in which the pointer of the
class leads to a value that names it. -/
def Yields (c : RouteClass) (d : Details) (foreign : String) : Prop :=
  d.externalId = some foreign ∨ d.externalId = none ∧ ∃ text doc steps value,
    d.metadata = some text ∧ Json.read text = some doc ∧
      Json.pointerSteps c.pointer = some steps ∧ Json.Leads steps doc value ∧ value.Names foreign

theorem yields_iff {c : RouteClass} {d : Details} {foreign : String} :
    c.Yields d foreign ↔ c.foreignId d = some foreign := by
  unfold Yields foreignId Json.pointer
  cases d.externalId with
  | some id => simp
  | none =>
    simp only [reduceCtorEq, false_or, true_and, Option.bind_eq_bind, Option.bind_eq_some_iff,
      Json.foldlM_child_eq_some, idOfValue_eq_some]
    constructor
    · rintro ⟨text, doc, steps, value, htext, hdoc, hsteps, hleads, hnames⟩
      exact ⟨text, htext, doc, hdoc, value, ⟨steps, hsteps, hleads⟩, hnames⟩
    · rintro ⟨text, htext, doc, hdoc, value, ⟨steps, hsteps, hleads⟩, hnames⟩
      exact ⟨text, doc, steps, value, htext, hdoc, hsteps, hleads, hnames⟩

end RouteClass

end LifecycleLog
