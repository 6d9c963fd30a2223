-- Ordered tables. A table is a list of rows with strictly increasing keys,
-- so a table is fixed by its look-ups, and its rows come out in key order.
-- Keys of several parts are compared part by part.
namespace LifecycleLog

/-! ## Keys -/

/-- A key type: any two keys are equal, or one stands before the other. -/
class Ordered (κ : Type) extends LT κ where
  decEq : DecidableEq κ
  decLt : DecidableLT κ
  irrefl : ∀ a : κ, ¬ a < a
  trans : ∀ {a b c : κ}, a < b → b < c → a < c
  tri : ∀ a b : κ, a < b ∨ a = b ∨ b < a

instance (priority := low) decEqOfOrdered [Ordered κ] : DecidableEq κ := Ordered.decEq

instance (priority := low) decLtOfOrdered [Ordered κ] : DecidableLT κ := Ordered.decLt

instance : Ordered Nat where
  decEq := inferInstance
  decLt := inferInstance
  irrefl := Nat.lt_irrefl
  trans := Nat.lt_trans
  tri := Nat.lt_trichotomy

/-- Texts stand in the order of their code points. -/
instance : Ordered String where
  decEq := inferInstance
  decLt := inferInstance
  irrefl := String.lt_irrefl
  trans := String.lt_trans
  tri := Std.lt_trichotomy

/-- A key of two parts. -/
structure Joined (α β : Type) where
  fst : α
  snd : β
  deriving DecidableEq, Repr

/-- The first part decides; equal first parts leave it to the second. -/
def Joined.Before [LT α] [LT β] (a b : Joined α β) : Prop :=
  a.fst < b.fst ∨ a.fst = b.fst ∧ a.snd < b.snd

instance [Ordered α] [Ordered β] : Ordered (Joined α β) where
  lt := Joined.Before
  decEq := inferInstance
  decLt a b := inferInstanceAs (Decidable (a.fst < b.fst ∨ a.fst = b.fst ∧ a.snd < b.snd))
  irrefl a h := by
    rcases h with h | ⟨_, h⟩
    · exact Ordered.irrefl _ h
    · exact Ordered.irrefl _ h
  trans := by
    rintro ⟨a, b⟩ ⟨c, d⟩ ⟨e, f⟩ (h | ⟨h, k⟩) (h' | ⟨h', k'⟩)
    · exact Or.inl (Ordered.trans h h')
    · exact Or.inl (by simp only at h h' ⊢; exact h' ▸ h)
    · exact Or.inl (by simp only at h h' ⊢; exact h ▸ h')
    · exact Or.inr ⟨Eq.trans h h', Ordered.trans k k'⟩
  tri := by
    rintro ⟨a, b⟩ ⟨c, d⟩
    rcases Ordered.tri a c with h | rfl | h
    · exact Or.inl (Or.inl h)
    · rcases Ordered.tri b d with h | rfl | h
      · exact Or.inl (Or.inr ⟨rfl, h⟩)
      · exact Or.inr (Or.inl rfl)
      · exact Or.inr (Or.inr (Or.inr ⟨rfl, h⟩))
    · exact Or.inr (Or.inr (Or.inl h))

/-- Between two keys with one first part lie the keys with that first part
whose second part lies between theirs. -/
theorem Joined.between_iff [Ordered α] [Ordered β] {x : α} {lo hi : β} {a : Joined α β} :
    (¬ a < ⟨x, lo⟩ ∧ ¬ (⟨x, hi⟩ : Joined α β) < a) ↔
      a.fst = x ∧ ¬ a.snd < lo ∧ ¬ hi < a.snd := by
  show (¬ (a.fst < x ∨ a.fst = x ∧ a.snd < lo) ∧ ¬ (x < a.fst ∨ x = a.fst ∧ hi < a.snd)) ↔ _
  have hx := Ordered.irrefl x
  rcases Ordered.tri a.fst x with h | h | h <;> grind

/-- Of two keys with one first part, the second parts decide. -/
theorem Joined.lt_iff_of_fst [Ordered α] [Ordered β] {a b : Joined α β} (h : a.fst = b.fst) :
    a < b ↔ a.snd < b.snd := by
  show (a.fst < b.fst ∨ a.fst = b.fst ∧ a.snd < b.snd) ↔ _
  have hb := Ordered.irrefl b.fst
  grind

/-! ## Rows -/

namespace Rows

variable {κ α : Type} [Ordered κ]

/-- The rows stand in strictly increasing key order. -/
def Sorted (rows : List (κ × α)) : Prop := rows.Pairwise (fun a b => a.1 < b.1)

/-- Puts a row at its place; a row with the same key gives way. -/
def insert (k : κ) (v : α) : List (κ × α) → List (κ × α)
  | [] => [(k, v)]
  | (k', v') :: rest =>
    if k = k' then (k, v) :: rest
    else if k < k' then (k, v) :: (k', v') :: rest
    else (k', v') :: insert k v rest

def get? (k : κ) : List (κ × α) → Option α
  | [] => none
  | (k', v) :: rest => if k = k' then some v else get? k rest

def erase (k : κ) (rows : List (κ × α)) : List (κ × α) := rows.filter (fun r => r.1 ≠ k)

theorem fst_mem_insert {k : κ} {v : α} {rows : List (κ × α)} {r : κ × α}
    (h : r ∈ insert k v rows) : r = (k, v) ∨ r ∈ rows := by
  induction rows with
  | nil => simp_all [insert]
  | cons r' rest ih =>
    obtain ⟨k', v'⟩ := r'
    simp only [insert] at h
    split at h
    · rcases List.mem_cons.1 h with h | h
      · exact Or.inl h
      · exact Or.inr (List.mem_cons_of_mem _ h)
    · split at h
      · rcases List.mem_cons.1 h with h | h
        · exact Or.inl h
        · exact Or.inr h
      · rcases List.mem_cons.1 h with h | h
        · exact Or.inr (h ▸ List.mem_cons_self)
        · rcases ih h with h | h
          · exact Or.inl h
          · exact Or.inr (List.mem_cons_of_mem _ h)

theorem sorted_insert {k : κ} {v : α} {rows : List (κ × α)} (h : Sorted rows) :
    Sorted (insert k v rows) := by
  induction rows with
  | nil => simp [insert, Sorted]
  | cons r' rest ih =>
    obtain ⟨k', v'⟩ := r'
    obtain ⟨hk, hr⟩ := List.pairwise_cons.1 h
    simp only [insert]
    split
    · rename_i he
      exact List.pairwise_cons.2 ⟨fun r hm => he ▸ hk r hm, hr⟩
    · split
      · rename_i hlt
        refine List.pairwise_cons.2 ⟨fun r hm => ?_, h⟩
        rcases List.mem_cons.1 hm with hm | hm
        · exact hm ▸ hlt
        · exact Ordered.trans hlt (hk r hm)
      · rename_i hne hnlt
        refine List.pairwise_cons.2 ⟨fun r hm => ?_, ih hr⟩
        rcases fst_mem_insert hm with hm | hm
        · rcases Ordered.tri k k' with ht | ht | ht
          · exact absurd ht hnlt
          · exact absurd ht hne
          · exact hm ▸ ht
        · exact hk r hm

theorem sorted_filter {p : κ × α → Bool} {rows : List (κ × α)} (h : Sorted rows) :
    Sorted (rows.filter p) := List.Pairwise.filter p h

theorem get?_insert (k j : κ) (v : α) (rows : List (κ × α)) :
    get? j (insert k v rows) = if j = k then some v else get? j rows := by
  induction rows with
  | nil => simp [insert, get?]
  | cons r rest ih =>
    obtain ⟨k', v'⟩ := r
    simp only [insert]
    split
    · rename_i he
      subst he
      by_cases hj : j = k <;> simp [get?, hj]
    · split
      · by_cases hj : j = k <;> simp [get?, hj]
      · rename_i hne _
        by_cases hj : j = k'
        · have : j ≠ k := fun h => hne (h ▸ hj)
          simp [get?, hj, hj ▸ this]
        · simp [get?, hj, ih]

theorem get?_erase (k j : κ) (rows : List (κ × α)) :
    get? j (erase k rows) = if j = k then none else get? j rows := by
  induction rows with
  | nil => simp [erase, get?]
  | cons r rest ih =>
    obtain ⟨k', v'⟩ := r
    by_cases hk : k' = k
    · have he : erase k ((k', v') :: rest) = erase k rest := by simp [erase, hk]
      rw [he, ih]
      by_cases hj : j = k
      · simp [hj]
      · simp [get?, hj, hk]
    · have he : erase k ((k', v') :: rest) = (k', v') :: erase k rest := by simp [erase, hk]
      rw [he]
      by_cases hj : j = k'
      · have : j ≠ k := fun h => hk (hj ▸ h)
        simp [get?, hj, hj ▸ this]
      · simp [get?, hj, ih]

theorem get?_eq_none_of_before {k : κ} {rows : List (κ × α)} (h : ∀ r ∈ rows, k < r.1) :
    get? k rows = none := by
  induction rows with
  | nil => rfl
  | cons r rest ih =>
    have hr := h r List.mem_cons_self
    have hne : k ≠ r.1 := fun he => Ordered.irrefl _ (he ▸ hr)
    simp only [get?, hne, if_false]
    exact ih (fun r' hm => h r' (List.mem_cons_of_mem _ hm))

theorem get?_eq_some_iff {k : κ} {v : α} {rows : List (κ × α)} (h : Sorted rows) :
    get? k rows = some v ↔ (k, v) ∈ rows := by
  induction rows with
  | nil => simp [get?]
  | cons r rest ih =>
    obtain ⟨k', v'⟩ := r
    obtain ⟨hk, hr⟩ := List.pairwise_cons.1 h
    by_cases he : k = k'
    · subst he
      simp only [get?, if_true, Option.some.injEq, List.mem_cons, Prod.mk.injEq, true_and]
      refine ⟨fun h => Or.inl h.symm, fun h => ?_⟩
      rcases h with h | h
      · exact h.symm
      · exact absurd (hk _ h) (Ordered.irrefl _)
    · simp [get?, he, ih hr]

/-- Sorted rows with the same look-ups are the same rows. -/
theorem ext {rows rows' : List (κ × α)} (h : Sorted rows) (h' : Sorted rows')
    (same : ∀ k, get? k rows = get? k rows') : rows = rows' := by
  induction rows generalizing rows' with
  | nil =>
    cases rows' with
    | nil => rfl
    | cons r _ => simpa [get?] using same r.1
  | cons r rest ih =>
    obtain ⟨k, v⟩ := r
    obtain ⟨hk, hr⟩ := List.pairwise_cons.1 h
    cases rows' with
    | nil => simpa [get?] using same k
    | cons r' rest' =>
      obtain ⟨k', v'⟩ := r'
      obtain ⟨hk', hr'⟩ := List.pairwise_cons.1 h'
      have hkk : k = k' := by
        rcases Ordered.tri k k' with ht | ht | ht
        · have hall : ∀ r ∈ (k', v') :: rest', k < r.1 := by
            intro r hm
            rcases List.mem_cons.1 hm with hm | hm
            · exact hm ▸ ht
            · exact Ordered.trans ht (hk' r hm)
          have := same k
          rw [get?_eq_none_of_before hall] at this
          simp [get?] at this
        · exact ht
        · have hall : ∀ r ∈ (k, v) :: rest, k' < r.1 := by
            intro r hm
            rcases List.mem_cons.1 hm with hm | hm
            · exact hm ▸ ht
            · exact Ordered.trans ht (hk r hm)
          have := same k'
          rw [get?_eq_none_of_before hall] at this
          simp [get?] at this
      subst hkk
      have hv : v = v' := by simpa [get?] using same k
      subst hv
      congr 1
      refine ih hr hr' (fun j => ?_)
      by_cases hj : j = k
      · subst hj
        rw [get?_eq_none_of_before hk, get?_eq_none_of_before hk']
      · simpa [get?, hj] using same j

/-- Sorted rows with the same members are the same rows. -/
theorem ext_mem {rows rows' : List (κ × α)} (h : Sorted rows) (h' : Sorted rows')
    (same : ∀ k v, (k, v) ∈ rows ↔ (k, v) ∈ rows') : rows = rows' := by
  refine ext h h' fun k => Option.ext fun v => ?_
  rw [get?_eq_some_iff h, get?_eq_some_iff h']
  exact same k v

end Rows

/-! ## Tables -/

structure Table (κ α : Type) [Ordered κ] where
  rows : List (κ × α)
  sorted : Rows.Sorted rows

namespace Table

variable {κ α : Type} [Ordered κ]

instance [DecidableEq α] : DecidableEq (Table κ α) := fun s t =>
  decidable_of_iff (s.rows = t.rows) (by cases s; cases t; simp)

def empty : Table κ α := ⟨[], List.Pairwise.nil⟩

instance : EmptyCollection (Table κ α) := ⟨empty⟩

instance : Inhabited (Table κ α) := ⟨empty⟩

def get? (t : Table κ α) (k : κ) : Option α := Rows.get? k t.rows

/-- Sets the value of a key, whether it had one or not. -/
def insert (t : Table κ α) (k : κ) (v : α) : Table κ α :=
  ⟨Rows.insert k v t.rows, Rows.sorted_insert t.sorted⟩

def erase (t : Table κ α) (k : κ) : Table κ α :=
  ⟨Rows.erase k t.rows, Rows.sorted_filter t.sorted⟩

def contains (t : Table κ α) (k : κ) : Bool := (t.get? k).isSome

def size (t : Table κ α) : Nat := t.rows.length

def keys (t : Table κ α) : List κ := t.rows.map (·.1)

def values (t : Table κ α) : List α := t.rows.map (·.2)

/-- The table of a list of rows; of two rows with one key the later one stays. -/
def ofList (rows : List (κ × α)) : Table κ α :=
  rows.foldl (fun t r => t.insert r.1 r.2) empty

/-- The rows whose key lies between two keys, both included. -/
def range (t : Table κ α) (lo hi : κ) : List (κ × α) :=
  t.rows.filter (fun r => ¬ r.1 < lo ∧ ¬ hi < r.1)

@[simp] theorem get?_empty (k : κ) : (∅ : Table κ α).get? k = none := rfl

@[simp] theorem get?_insert (t : Table κ α) (k j : κ) (v : α) :
    (t.insert k v).get? j = if j = k then some v else t.get? j := Rows.get?_insert k j v t.rows

@[simp] theorem get?_erase (t : Table κ α) (k j : κ) :
    (t.erase k).get? j = if j = k then none else t.get? j := Rows.get?_erase k j t.rows

theorem mem_rows {t : Table κ α} {k : κ} {v : α} : (k, v) ∈ t.rows ↔ t.get? k = some v :=
  (Rows.get?_eq_some_iff t.sorted).symm

/-- Rows that are set one after the other are found before what was there. -/
theorem get?_foldl_insert {rows : List (κ × α)} (h : Rows.Sorted rows) (t : Table κ α) (k : κ) :
    (rows.foldl (fun t r => t.insert r.1 r.2) t).get? k = (Rows.get? k rows).or (t.get? k) := by
  induction rows generalizing t with
  | nil => rfl
  | cons r rest ih =>
    obtain ⟨j, v⟩ := r
    obtain ⟨hj, hrest⟩ := List.pairwise_cons.1 h
    simp only [List.foldl_cons, ih hrest, get?_insert, Rows.get?]
    by_cases hk : k = j
    · subst hk
      simp [Rows.get?_eq_none_of_before hj]
    · simp [hk]

/-- Tables with the same look-ups are equal. -/
theorem ext_get? {s t : Table κ α} (h : ∀ k, s.get? k = t.get? k) : s = t := by
  obtain ⟨rows, sorted⟩ := s
  obtain ⟨rows', sorted'⟩ := t
  have := Rows.ext sorted sorted' h
  subst this
  rfl

/-- Setting a key to the value that it has changes nothing. -/
theorem insert_eq_self {t : Table κ α} {k : κ} {v : α} (h : t.get? k = some v) :
    t.insert k v = t := by
  apply ext_get?
  intro j
  by_cases hj : j = k
  · simp [hj, h]
  · simp [hj]

end Table

end LifecycleLog
