-- A store of nested maps and a store of flat tables side by side. The flat
-- store mirrors the nested one when it shows the same keys, entries, last
-- ids and cursors, and one delivery row for each pending delivery. Read for
-- one stream or one group, its tables are the log and the pending list.
import LifecycleLog.Proofs.Store.Groups
import LifecycleLog.Store.Flat

namespace LifecycleLog

/-! ## Rows with other values, and under one first key -/

namespace Rows

theorem sorted_mapValue {κ α β : Type} [Ordered κ] (φ : α → β) {rows : List (κ × α)}
    (h : Sorted rows) : Sorted (rows.map (fun r => (r.1, φ r.2))) :=
  List.pairwise_map.2 h

theorem get?_mapValue {κ α β : Type} [Ordered κ] (φ : α → β) (k : κ) (rows : List (κ × α)) :
    get? k (rows.map (fun r => (r.1, φ r.2))) = (get? k rows).map φ := by
  induction rows with
  | nil => rfl
  | cons r rest ih =>
    simp only [List.map_cons, get?, ih]
    split <;> rfl

variable {α β γ : Type}

/-- The rows with the second parts of their keys. -/
def seconds (rows : List (Joined α β × γ)) : List (β × γ) := rows.map (fun r => (r.1.snd, r.2))

variable {rows : List (Joined α β × γ)} {x : α}

theorem sorted_seconds [Ordered α] [Ordered β] (h : Sorted rows) (hx : ∀ r ∈ rows, r.1.fst = x) :
    Sorted (seconds rows) := by
  refine List.pairwise_map.2 (List.Pairwise.imp_of_mem ?_ h)
  intro a b ha hb hab
  exact (Joined.lt_iff_of_fst ((hx a ha).trans (hx b hb).symm)).1 hab

theorem mem_seconds (hx : ∀ r ∈ rows, r.1.fst = x) {k : β} {v : γ} :
    (k, v) ∈ seconds rows ↔ (⟨x, k⟩, v) ∈ rows := by
  simp only [seconds, List.mem_map, Prod.mk.injEq]
  constructor
  · rintro ⟨⟨⟨a, b⟩, v'⟩, hr, rfl, rfl⟩
    have ha : a = x := hx _ hr
    exact ha ▸ hr
  · intro hr
    exact ⟨_, hr, rfl, rfl⟩

end Rows

namespace Table

variable {α β γ : Type} [Ordered α] [Ordered β] {t : Table (Joined α β) γ} {x : α} {lo hi : β}

theorem fst_of_mem_range : ∀ r ∈ t.range ⟨x, lo⟩ ⟨x, hi⟩, r.1.fst = x := by
  intro r hr
  simp only [range, List.mem_filter, decide_eq_true_eq] at hr
  exact (Joined.between_iff.1 hr.2).1

theorem mem_range_iff {k : β} {v : γ} : (⟨x, k⟩, v) ∈ t.range ⟨x, lo⟩ ⟨x, hi⟩ ↔
    t.get? ⟨x, k⟩ = some v ∧ ¬ k < lo ∧ ¬ hi < k := by
  simp only [range, List.mem_filter, decide_eq_true_eq, Joined.between_iff, mem_rows, true_and]

end Table

/-! ## Deliveries as rows -/

namespace Nested

/-- A delivery as a row of a flat store. -/
def Delivery.row (d : Delivery) : Nat × Flat.Delivery :=
  (d.id, ⟨d.consumer, Flat.millis d.deliveredAt, d.deliveries⟩)

/-- What a flat store has under an id. -/
def row? (id : Nat) (ds : List Delivery) : Option Flat.Delivery := Rows.get? id (ds.map (·.row))

theorem sorted_rows {ds : List Delivery} (h : (ds.map (·.id)).Pairwise (· < ·)) :
    Rows.Sorted (ds.map (·.row)) :=
  List.pairwise_map.2 (List.pairwise_map.1 h)

theorem row?_cons (id : Nat) (d : Delivery) (ds : List Delivery) :
    row? id (d :: ds) = if id = d.id then some d.row.2 else row? id ds := rfl

theorem row?_of_notMem {id : Nat} {ds : List Delivery} (h : id ∉ ds.map (·.id)) :
    row? id ds = none := by
  induction ds with
  | nil => rfl
  | cons d ds ih =>
    rw [List.map_cons, List.mem_cons, not_or] at h
    rw [row?_cons, if_neg h.1, ih h.2]

theorem isSome_row? (id : Nat) (ds : List Delivery) :
    (row? id ds).isSome = ds.any (fun d => d.id = id) := by
  induction ds with
  | nil => rfl
  | cons d ds ih =>
    rw [row?_cons, List.any_cons, ← ih]
    split <;> simp_all [eq_comm]

theorem row?_append (id : Nat) (ds ds' : List Delivery) :
    row? id (ds ++ ds') = (row? id ds).or (row? id ds') := by
  induction ds with
  | nil => rfl
  | cons d ds ih =>
    rw [List.cons_append, row?_cons, row?_cons, ih]
    split <;> rfl

theorem row?_filter_ne (id i : Nat) (ds : List Delivery) :
    row? i (ds.filter (fun d => d.id ≠ id)) = if i = id then none else row? i ds := by
  induction ds with
  | nil => simp [row?, Rows.get?]
  | cons d ds ih =>
    by_cases hd : d.id = id
    · rw [List.filter_cons_of_neg (by simp [hd]), ih, row?_cons]
      split <;> simp_all
    · rw [List.filter_cons_of_pos (by simp [hd]), row?_cons, row?_cons, ih]
      split
      · simp_all
      · rfl

/-! ## Entries as rows -/

theorem mem_map_numbered {first id : Nat} {fs : List Fields} {fields : Fields} :
    (id, fields) ∈ (numbered first fs).map (fun e => (e.id, e.fields)) ↔
      first ≤ id ∧ fs[id - first]? = some fields := by
  simp only [List.mem_map, Prod.mk.injEq]
  constructor
  · rintro ⟨e, he, rfl, rfl⟩
    exact mem_numbered he
  · rintro ⟨hle, hf⟩
    induction fs generalizing first with
    | nil => simp at hf
    | cons f rest ih =>
      by_cases h : id = first
      · subst h
        simp only [Nat.sub_self, List.getElem?_cons_zero, Option.some.injEq] at hf
        exact ⟨⟨id, f, 1⟩, List.mem_cons_self, rfl, hf⟩
      · have hs : id - first = (id - (first + 1)) + 1 := by omega
        rw [hs, List.getElem?_cons_succ] at hf
        obtain ⟨e, he, hid, hfields⟩ := ih (by omega) hf
        exact ⟨e, List.mem_cons_of_mem _ he, hid, hfields⟩

theorem map_first_numbered (first : Nat) (fs : List Fields) :
    (numbered first fs).map (fun e => (⟨e.id, e.fields, 1⟩ : Entry)) = numbered first fs := by
  induction fs generalizing first with
  | nil => rfl
  | cons f rest ih => simp [numbered, ih]

theorem take_numbered (count first : Nat) (fs : List Fields) :
    (numbered first fs).take count = numbered first (fs.take count) := by
  induction fs generalizing first count with
  | nil => simp [numbered]
  | cons f rest ih =>
    cases count with
    | zero => rfl
    | succ count => simp [numbered, ih]

end Nested

/-! ## The mirror -/

/-- The flat store shows what the nested one holds. All times are whole
milliseconds, and all ids are ids that the flat store can hold. -/
structure Mirrors (n : Nested.Store) (f : Flat.Store) : Prop where
  keys : f.keys = n.keys
  lastId : ∀ stream, f.lastId stream = (n.log stream).length
  entries : ∀ stream id,
    f.entries.get? ⟨stream, id⟩ = if id = 0 then none else (n.log stream)[id - 1]?
  cursors : ∀ stream group,
    f.cursors.get? ⟨stream, group⟩ = (n.groupOf stream group).map (·.cursor)
  deliveries : ∀ stream group id, f.deliveries.get? ⟨stream, group, id⟩
    = (n.groupOf stream group).bind (fun g => Nested.row? id g.pending)
  good : n.Good
  whole : ∀ stream group g, n.groupOf stream group = some g →
    ∀ d ∈ g.pending, nanosPerMilli ∣ d.deliveredAt
  fits : ∀ stream, (n.log stream).length ≤ Flat.maxId

namespace Mirrors

variable {n : Nested.Store} {f : Flat.Store} {stream group : String} {g : Nested.Group}

/-- The delivery rows of a group are its pending list. -/
theorem deliveriesFrom (h : Mirrors n f) (hg : n.groupOf stream group = some g) (first : Nat) :
    (f.deliveriesFrom stream group first).map (fun r => (r.1.snd.snd, r.2))
      = (g.pending.filter (fun d => first ≤ d.id)).map (·.row) := by
  have hgood := h.good stream group g hg
  have hfst : ∀ r ∈ f.deliveriesFrom stream group first, r.1.fst = stream := Table.fst_of_mem_range
  have hsnd : ∀ r ∈ Rows.seconds (f.deliveriesFrom stream group first), r.1.fst = group := by
    rintro ⟨k, v⟩ hr
    exact (Joined.between_iff.1 (Table.mem_range_iff.1 ((Rows.mem_seconds hfst).1 hr)).2).1
  have hsorted : Rows.Sorted (f.deliveriesFrom stream group first) :=
    Rows.sorted_filter f.deliveries.sorted
  have hrows : (f.deliveriesFrom stream group first).map (fun r => (r.1.snd.snd, r.2))
      = Rows.seconds (Rows.seconds (f.deliveriesFrom stream group first)) := by
    simp only [Rows.seconds, List.map_map, Function.comp_def]
  rw [hrows]
  refine Rows.ext_mem (Rows.sorted_seconds (Rows.sorted_seconds hsorted hfst) hsnd) ?_ fun id r => ?_
  · exact Nested.sorted_rows (hgood.sorted.sublist (List.filter_sublist.map _))
  · rw [Rows.mem_seconds hsnd, Rows.mem_seconds hfst, Flat.Store.deliveriesFrom,
      Table.mem_range_iff, Joined.between_iff, h.deliveries, hg, Option.bind_some, Nested.row?,
      Rows.get?_eq_some_iff (Nested.sorted_rows hgood.sorted)]
    simp only [List.mem_map, List.mem_filter, decide_eq_true_eq, Nat.not_lt, true_and]
    constructor
    · rintro ⟨⟨d, hd, hr⟩, hle, _⟩
      refine ⟨d, ⟨hd, ?_⟩, hr⟩
      cases hr
      exact hle
    · rintro ⟨d, ⟨hd, hle⟩, hr⟩
      have hid : d.id ∈ g.ids := List.mem_map_of_mem hd
      have h₁ := hgood.within d.id hid
      have h₂ := hgood.cursor_le
      have h₃ := h.fits stream
      refine ⟨⟨d, hd, hr⟩, ?_⟩
      cases hr
      exact ⟨hle, by omega⟩

/-- The entry rows beyond a place in a stream are the entries of the log. -/
theorem entriesFrom (h : Mirrors n f) (stream : String) (cursor : Nat) :
    (f.entries.range ⟨stream, cursor + 1⟩ ⟨stream, Flat.maxId⟩).map
        (fun r => (⟨r.1.snd, r.2, 1⟩ : Entry))
      = Nested.numbered (cursor + 1) ((n.log stream).drop cursor) := by
  have hfst : ∀ r ∈ f.entries.range ⟨stream, cursor + 1⟩ ⟨stream, Flat.maxId⟩, r.1.fst = stream :=
    Table.fst_of_mem_range
  have hsorted : Rows.Sorted (f.entries.range ⟨stream, cursor + 1⟩ ⟨stream, Flat.maxId⟩) :=
    Rows.sorted_filter f.entries.sorted
  have hrows : Rows.seconds (f.entries.range ⟨stream, cursor + 1⟩ ⟨stream, Flat.maxId⟩)
      = (Nested.numbered (cursor + 1) ((n.log stream).drop cursor)).map
        (fun e => (e.id, e.fields)) := by
    refine Rows.ext_mem (Rows.sorted_seconds hsorted hfst) ?_ fun id fields => ?_
    · have hids : ((Nested.numbered (cursor + 1) ((n.log stream).drop cursor)).map
          (·.id)).Pairwise (· < ·) := by
        rw [Nested.map_id_numbered]
        exact List.pairwise_lt_range'
      exact List.pairwise_map.2 (List.pairwise_map.1 hids)
    · rw [Rows.mem_seconds hfst, Table.mem_range_iff, h.entries, Nested.mem_map_numbered,
        List.getElem?_drop, Nat.not_lt, Nat.not_lt]
      have hfits := h.fits stream
      constructor
      · rintro ⟨hf, hlo, _⟩
        rw [if_neg (by omega)] at hf
        exact ⟨hlo, by rw [← hf]; congr 1; omega⟩
      · rintro ⟨hlo, hf⟩
        obtain ⟨hlt, _⟩ := List.getElem?_eq_some_iff.1 hf
        refine ⟨?_, hlo, by omega⟩
        rw [if_neg (by omega), ← hf]
        congr 1
        omega
  rw [← Nested.map_first_numbered (cursor + 1)]
  have := congrArg (List.map (fun r => (⟨r.1, r.2, 1⟩ : Entry))) hrows
  simpa only [Rows.seconds, List.map_map, Function.comp_def] using this

end Mirrors

end LifecycleLog
