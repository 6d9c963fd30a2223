-- Nested and flat stores answer alike. Every call keeps a mirror a mirror,
-- and is answered the same on both sides. So from empty stores on, no run of
-- calls tells one store from the other.
import LifecycleLog.Proofs.Store.Mirror
import LifecycleLog.Proofs.Store.Trails

namespace LifecycleLog

/-! ## Whole milliseconds -/

namespace Flat

/-- Between two readings in whole milliseconds nothing is lost. -/
theorem idle_eq {now seen : Nat} (hnow : nanosPerMilli ∣ now) (hat : nanosPerMilli ∣ seen) :
    (millis now - millis seen) * nanosPerMilli = now - seen := by
  obtain ⟨a, rfl⟩ := hnow
  obtain ⟨b, rfl⟩ := hat
  have hpos : 0 < nanosPerMilli := by decide
  rw [millis, millis, Nat.mul_div_cancel_left _ hpos, Nat.mul_div_cancel_left _ hpos,
    Nat.mul_comm, Nat.mul_sub]

/-! ## Deliveries that are written to a table -/

/-- Writes delivery rows of a group. -/
def stampAll (stream group : String) (rows : List (Nat × Delivery))
    (t : Table DeliveryKey Delivery) : Table DeliveryKey Delivery :=
  rows.foldl (fun t r => t.insert ⟨stream, group, r.1⟩ r.2) t

theorem get?_stampAll {rows : List (Nat × Delivery)} (h : Rows.Sorted rows)
    (stream group : String) (t : Table DeliveryKey Delivery) (name name' : String) (id : Nat) :
    (stampAll stream group rows t).get? ⟨name, name', id⟩ =
      if name = stream ∧ name' = group then (Rows.get? id rows).or (t.get? ⟨name, name', id⟩)
      else t.get? ⟨name, name', id⟩ := by
  induction rows generalizing t with
  | nil => simp [stampAll, Rows.get?]
  | cons r rest ih =>
    obtain ⟨j, v⟩ := r
    obtain ⟨hj, hrest⟩ := List.pairwise_cons.1 h
    have hcons : stampAll stream group ((j, v) :: rest) t
        = stampAll stream group rest (t.insert ⟨stream, group, j⟩ v) := rfl
    rw [hcons, ih hrest, Table.get?_insert]
    by_cases hn : name = stream ∧ name' = group
    · obtain ⟨rfl, rfl⟩ := hn
      by_cases hid : id = j
      · subst hid
        simp [Rows.get?, Rows.get?_eq_none_of_before hj]
      · simp [Rows.get?, hid]
    · have hk : (⟨name, name', id⟩ : DeliveryKey) ≠ ⟨stream, group, j⟩ := by
        intro hk
        cases hk
        exact hn ⟨rfl, rfl⟩
      simp [hn, hk]

theorem foldl_stamp (stream group : String) (record : Delivery) (batch : List Entry)
    (t : Table DeliveryKey Delivery) :
    batch.foldl (fun t e => t.insert ⟨stream, group, e.id⟩ record) t
      = stampAll stream group (batch.map (fun e => (e.id, record))) t := by
  rw [stampAll, List.foldl_map]

/-- A delivery row after one more delivery. -/
def Delivery.stamped (consumer : String) (now : Nat) (d : Delivery) : Delivery :=
  ⟨consumer, millis now, d.deliveries + 1⟩

/-- Where every selected id has its entry, all the selected are delivered. -/
theorem restamp_eq {stream group consumer : String} {now : Nat} (fields : Nat → Fields)
    {rows : List (Nat × Delivery)} {f : Store}
    (h : ∀ r ∈ rows, f.entries.get? ⟨stream, r.1⟩ = some (fields r.1)) :
    restamp stream group consumer now rows f =
      (rows.map (fun r => ⟨r.1, fields r.1, r.2.deliveries + 1⟩),
        { f with
          deliveries := stampAll stream group
            (rows.map (fun r => (r.1, r.2.stamped consumer now)))
            f.deliveries }) := by
  induction rows generalizing f with
  | nil => rfl
  | cons r rest ih =>
    obtain ⟨id, d⟩ := r
    have hid := h (id, d) List.mem_cons_self
    have hrest : ∀ r ∈ rest, f.entries.get? ⟨stream, r.1⟩ = some (fields r.1) :=
      fun r hr => h r (List.mem_cons_of_mem _ hr)
    simp only [restamp, hid]
    rw [ih]
    · rfl
    · exact hrest

end Flat

/-! ## What a group returns -/

namespace Nested

/-! ### New entries -/

variable {cursor : Nat} {fresh : List Entry}

/-- The last of new entries is the one that the cursor moves to. -/
theorem id_of_getLast? {tail : Entry} (hids : fresh.map (·.id) = List.range' (cursor + 1) fresh.length)
    (h : fresh.getLast? = some tail) : tail.id = cursor + fresh.length := by
  have hlast : (fresh.map (·.id)).getLast? = some tail.id := by
    rw [List.getLast?_map, h]
    rfl
  rw [hids, List.getLast?_range'] at hlast
  split at hlast
  · cases hlast
  · simp only [Option.some.injEq] at hlast
    omega

theorem sorted_freshRows {record : Flat.Delivery}
    (hids : fresh.map (·.id) = List.range' (cursor + 1) fresh.length) :
    Rows.Sorted (fresh.map (fun e => (e.id, record))) := by
  have hsorted : (fresh.map (·.id)).Pairwise (· < ·) := hids ▸ List.pairwise_lt_range'
  exact List.pairwise_map.2 (List.pairwise_map.1 hsorted)

theorem get?_freshRows (consumer : String) (now id : Nat) :
    Rows.get? id (fresh.map (fun e => (e.id, (⟨consumer, Flat.millis now, 1⟩ : Flat.Delivery))))
      = row? id (freshDeliveries consumer now fresh) := by
  simp only [row?, freshDeliveries, List.map_map, Function.comp_def, Delivery.row]

/-- Where nothing lies beyond the cursor, a read for new entries leaves the group
as it is. -/
theorem readNew_idle {consumer : String} {count now : Nat} {log : List Fields} {g : Group}
    (h : log.length ≤ g.cursor) : readNew consumer count now log g = ([], g) := by
  simp [readNew, freshEntries, List.drop_eq_nil_of_le h, numbered, freshDeliveries]

/-! ### Entries that are delivered again -/

variable {log : List Fields} {consumer : String} {now : Nat} {pick : Delivery → Bool}

/-- An entry that is delivered once more. -/
def again (log : List Fields) (d : Delivery) : Entry :=
  ⟨d.id, (log[d.id - 1]?).getD ∅, d.deliveries + 1⟩

/-- Where every pending id has its entry, the first `count` picked deliveries
are made again. -/
theorem redeliver_entries {count : Nat} {ds : List Delivery}
    (hlog : ∀ d ∈ ds, (log[d.id - 1]?).isSome) :
    (redeliver log consumer now pick count ds).1 = ((ds.filter pick).take count).map (again log) := by
  induction ds generalizing count with
  | nil => cases count <;> simp [redeliver]
  | cons d rest ih =>
    have hrest : ∀ d' ∈ rest, (log[d'.id - 1]?).isSome :=
      fun d' hd' => hlog d' (List.mem_cons_of_mem _ hd')
    cases count with
    | zero => simp [redeliver]
    | succ count =>
      obtain ⟨fields, hf⟩ := Option.isSome_iff_exists.1 (hlog d List.mem_cons_self)
      by_cases hp : pick d = true
      · simp [redeliver, hp, hf, ih hrest, again]
      · simp [redeliver, hp, ih hrest]

/-- Deliveries made again at whole milliseconds. -/
theorem whole_of_kept (hnow : nanosPerMilli ∣ now) {ds ds' : List Delivery}
    (hs : ∀ d ∈ ds, nanosPerMilli ∣ d.deliveredAt)
    (h : List.Forall₂ (Kept consumer now pick) ds ds') :
    ∀ d ∈ ds', nanosPerMilli ∣ d.deliveredAt := by
  induction h with
  | nil => simp
  | cons hd _ ih =>
    intro d hm
    rcases List.mem_cons.1 hm with rfl | hm
    · rcases hd with rfl | ⟨_, rfl⟩
      · exact hs _ List.mem_cons_self
      · exact hnow
    · exact ih (fun d hd => hs d (List.mem_cons_of_mem _ hd)) d hm

/-- What is delivered again is stamped anew, and all else stays as it is. -/
theorem row?_redeliver {count : Nat} {ds : List Delivery}
    (hlog : ∀ d ∈ ds, (log[d.id - 1]?).isSome) (hs : (ds.map (·.id)).Pairwise (· < ·)) (id : Nat) :
    row? id (redeliver log consumer now pick count ds).2
      = ((row? id ((ds.filter pick).take count)).map
          (fun r => r.stamped consumer now)).or (row? id ds) := by
  induction ds generalizing count with
  | nil => cases count <;> rfl
  | cons d rest ih =>
    have hrest : ∀ d' ∈ rest, (log[d'.id - 1]?).isSome :=
      fun d' hd' => hlog d' (List.mem_cons_of_mem _ hd')
    obtain ⟨hd, hs'⟩ := List.pairwise_cons.1 (List.map_cons ▸ hs)
    cases count with
    | zero => rfl
    | succ count =>
      obtain ⟨fields, hf⟩ := Option.isSome_iff_exists.1 (hlog d List.mem_cons_self)
      by_cases hp : pick d = true
      · simp only [redeliver, hp, if_true, hf, List.filter_cons_of_pos, List.take_succ_cons,
          row?_cons, ih hrest hs']
        split <;> rfl
      · simp only [redeliver, hp, Bool.false_eq_true, if_false, not_false_eq_true,
          List.filter_cons_of_neg, row?_cons, ih hrest hs']
        split
        · rename_i h
          have hnone : row? id ((rest.filter pick).take (count + 1)) = none := by
            apply row?_of_notMem
            intro hm
            have hsub := ((List.take_sublist (count + 1) (rest.filter pick)).trans
              List.filter_sublist).map (·.id)
            have := hd id (hsub.subset hm)
            omega
          rw [hnone]
          rfl
        · rfl

end Nested

/-! ## Groups that change -/

namespace Mirrors

variable {n : Nested.Store} {f : Flat.Store} {stream group : String} {g g' : Nested.Group}

theorem ids_le (h : Mirrors n f) (hg : n.groupOf stream group = some g) :
    ∀ d ∈ g.pending, 0 < d.id ∧ d.id ≤ (n.log stream).length := by
  intro d hd
  have hid : d.id ∈ g.ids := List.mem_map_of_mem hd
  have hgood := h.good stream group g hg
  have h₁ := hgood.within d.id hid
  have h₂ := hgood.cursor_le
  exact ⟨hgood.positive d.id hid, by omega⟩

/-- A group takes a new form, and the flat tables follow it. -/
theorem setGroup (h : Mirrors n f) (hgood : g'.Good (n.log stream))
    (hwhole : ∀ d ∈ g'.pending, nanosPerMilli ∣ d.deliveredAt)
    {cursors : Table (Joined String String) Nat}
    (hc : ∀ name name', cursors.get? ⟨name, name'⟩ =
      if name = stream ∧ name' = group then some g'.cursor else f.cursors.get? ⟨name, name'⟩)
    {deliveries : Table Flat.DeliveryKey Flat.Delivery}
    (hd : ∀ name name' id, deliveries.get? ⟨name, name', id⟩ =
      if name = stream ∧ name' = group then Nested.row? id g'.pending
      else f.deliveries.get? ⟨name, name', id⟩) :
    Mirrors (n.setGroup stream group g') { f with cursors, deliveries } := by
  refine ⟨h.keys, fun name => ?_, fun name id => ?_, fun name name' => ?_, fun name name' id => ?_,
    h.good.setGroup hgood, fun name name' x hx => ?_, fun name => ?_⟩
  · rw [Nested.log_setGroup]
    exact h.lastId name
  · rw [Nested.log_setGroup]
    exact h.entries name id
  · rw [Nested.groupOf_setGroup, hc, h.cursors]
    split <;> rfl
  · rw [Nested.groupOf_setGroup, hd, h.deliveries]
    split <;> rfl
  · rw [Nested.groupOf_setGroup] at hx
    split at hx
    · cases hx
      exact hwhole
    · exact h.whole name name' x hx
  · rw [Nested.log_setGroup]
    exact h.fits name

/-- A step on a group fails on both sides, or is made on both sides. -/
theorem onGroup (h : Mirrors n f) {α : Type} {step : List Fields → Nested.Group → α × Nested.Group}
    {step' : Nat → Flat.Store → α × Flat.Store}
    (hstep : ∀ g, n.groupOf stream group = some g →
      (step' g.cursor f).1 = (step (n.log stream) g).1 ∧
      Mirrors (n.setGroup stream group (step (n.log stream) g).2) (step' g.cursor f).2) :
    (f.onGroup stream group step').1 = (n.onGroup stream group step).1 ∧
      Mirrors (n.onGroup stream group step).2 (f.onGroup stream group step').2 := by
  have hc := h.cursors stream group
  unfold Flat.Store.onGroup
  cases hg : n.groupOf stream group with
  | none =>
    rw [hg] at hc
    rw [Nested.onGroup_none step hg, hc]
    exact ⟨rfl, h⟩
  | some g =>
    rw [hg] at hc
    rw [Nested.onGroup_some step hg, hc]
    obtain ⟨h₁, h₂⟩ := hstep g hg
    exact ⟨congrArg Except.ok h₁, h₂⟩

theorem cursors_of_some (h : Mirrors n f) (hg : n.groupOf stream group = some g)
    (name name' : String) : f.cursors.get? ⟨name, name'⟩ =
      if name = stream ∧ name' = group then some g.cursor else f.cursors.get? ⟨name, name'⟩ := by
  split
  · rename_i hn
    obtain ⟨rfl, rfl⟩ := hn
    rw [h.cursors, hg]
    rfl
  · rfl

theorem deliveries_of_some (h : Mirrors n f) (hg : n.groupOf stream group = some g)
    (name name' : String) (id : Nat) : f.deliveries.get? ⟨name, name', id⟩ =
      if name = stream ∧ name' = group then Nested.row? id g.pending
      else f.deliveries.get? ⟨name, name', id⟩ := by
  split
  · rename_i hn
    obtain ⟨rfl, rfl⟩ := hn
    rw [h.deliveries, hg]
    rfl
  · rfl

/-! ## Reading new entries -/

variable {consumer : String} {count now : Nat}

theorem hasNew_iff (h : Mirrors n f) (cursor : Nat) :
    f.hasNew stream cursor = true ↔ cursor < (n.log stream).length := by
  rw [← h.lastId, Flat.Store.hasNew, Flat.Store.lastId]
  cases f.lastIds.get? stream <;> simp

theorem setGroup_self (h : Mirrors n f) (hg : n.groupOf stream group = some g) :
    Mirrors (n.setGroup stream group g) f :=
  h.setGroup (h.good stream group g hg) (h.whole stream group g hg) (h.cursors_of_some hg)
    (h.deliveries_of_some hg)

/-- What a flat read for new entries finds. -/
theorem batch_eq (h : Mirrors n f) (stream : String) (cursor count : Nat) :
    ((f.entries.range ⟨stream, cursor + 1⟩ ⟨stream, Flat.maxId⟩).take count).map
        (fun r => (⟨r.1.snd, r.2, 1⟩ : Entry))
      = Nested.freshEntries (n.log stream) cursor count := by
  rw [List.map_take, h.entriesFrom, Nested.take_numbered]
  rfl

theorem readNew (h : Mirrors n f) (hg : n.groupOf stream group = some g)
    (hnow : nanosPerMilli ∣ now) :
    (Flat.readNew stream group consumer g.cursor count now f).1
        = (Nested.readNew consumer count now (n.log stream) g).1 ∧
      Mirrors (n.setGroup stream group (Nested.readNew consumer count now (n.log stream) g).2)
        (Flat.readNew stream group consumer g.cursor count now f).2 := by
  have hgood := (h.good stream group g hg).readNew consumer count now
  have hwithin := (h.good stream group g hg).within
  simp only [Flat.readNew, h.batch_eq]
  simp only [Nested.readNew] at hgood ⊢
  have hids := Nested.map_id_freshEntries (n.log stream) g.cursor count
  generalize Nested.freshEntries (n.log stream) g.cursor count = fresh at *
  cases htail : fresh.getLast? with
  | none =>
    have hnil : fresh = [] := List.getLast?_eq_none_iff.1 htail
    subst hnil
    refine ⟨rfl, ?_⟩
    have hsame : (⟨g.cursor + ([] : List Entry).length,
        g.pending ++ Nested.freshDeliveries consumer now []⟩ : Nested.Group) = g := by
      simp [Nested.freshDeliveries]
    rw [hsame]
    exact h.setGroup_self hg
  | some tail =>
    refine ⟨rfl, h.setGroup hgood ?_ ?_ ?_⟩
    · intro d hd
      rcases List.mem_append.1 hd with hd | hd
      · exact h.whole stream group g hg d hd
      · obtain ⟨e, _, rfl⟩ := List.mem_map.1 hd
        exact hnow
    · intro name name'
      rw [Table.get?_insert, Nested.id_of_getLast? hids htail]
      simp only [Joined.mk.injEq]
    · intro name name' id
      rw [Flat.foldl_stamp, Flat.get?_stampAll (Nested.sorted_freshRows hids), h.deliveries,
        Nested.row?_append]
      split
      · rename_i hn
        obtain ⟨rfl, rfl⟩ := hn
        rw [hg, Option.bind_some, Nested.get?_freshRows consumer now id]
        by_cases hid : id ∈ fresh.map (·.id)
        · -- a new id lies beyond the cursor, where nothing is pending yet
          have hnone : Nested.row? id g.pending = none := by
            apply Nested.row?_of_notMem
            intro hm
            have := hwithin id hm
            rw [hids, List.mem_range'_1] at hid
            omega
          rw [hnone]
          simp
        · have hnone : Nested.row? id (Nested.freshDeliveries consumer now fresh) = none := by
            apply Nested.row?_of_notMem
            simpa [Nested.freshDeliveries] using hid
          rw [hnone]
          simp
      · rfl

/-! ## Delivering again -/

/-- Both sides select the same deliveries. -/
theorem selected_eq (h : Mirrors n f) (hg : n.groupOf stream group = some g) {after : Nat}
    {pick : Nested.Delivery → Bool} {pick' : Flat.Delivery → Bool}
    (hpick : ∀ d ∈ g.pending, pick d = (decide (after < d.id) && pick' d.row.2)) (count : Nat) :
    (((f.deliveriesFrom stream group (after + 1)).filter (fun r => pick' r.2)).take count).map
        (fun r => (r.1.snd.snd, r.2))
      = ((g.pending.filter pick).take count).map (·.row) := by
  have hrows := congrArg (List.filter (fun r => pick' r.2)) (h.deliveriesFrom hg (after + 1))
  rw [List.filter_map, List.filter_map, List.filter_filter] at hrows
  rw [List.map_take, List.map_take]
  refine congrArg (List.take count) (Eq.trans hrows (congrArg _ (List.filter_congr ?_)))
  intro d hd
  rw [hpick d hd, Bool.and_comm]
  rfl

theorem redeliver (h : Mirrors n f) (hg : n.groupOf stream group = some g)
    (hnow : nanosPerMilli ∣ now) {after : Nat} {pick : Nested.Delivery → Bool}
    {pick' : Flat.Delivery → Bool}
    (hpick : ∀ d ∈ g.pending, pick d = (decide (after < d.id) && pick' d.row.2)) :
    (Flat.redeliver stream group consumer after count now pick' f).1
        = (Nested.redeliver (n.log stream) consumer now pick count g.pending).1 ∧
      Mirrors (n.setGroup stream group
          ⟨g.cursor, (Nested.redeliver (n.log stream) consumer now pick count g.pending).2⟩)
        (Flat.redeliver stream group consumer after count now pick' f).2 := by
  have hgood := h.good stream group g hg
  have hfields : ∀ r ∈ ((g.pending.filter pick).take count).map (·.row),
      f.entries.get? ⟨stream, r.1⟩ = some (((n.log stream)[r.1 - 1]?).getD ∅) := by
    intro r hr
    obtain ⟨d, hd, rfl⟩ := List.mem_map.1 hr
    have hd := (List.mem_filter.1 (List.mem_of_mem_take hd)).1
    obtain ⟨fields, hf⟩ := Option.isSome_iff_exists.1 (hgood.isSome d hd)
    have hpos := (h.ids_le hg d hd).1
    show f.entries.get? ⟨stream, d.id⟩ = some (((n.log stream)[d.id - 1]?).getD ∅)
    rw [h.entries, if_neg (by omega), hf]
    rfl
  have hkept := Nested.forall₂_redeliver (n.log stream) consumer now pick count g.pending
  have hgood' : Nested.Group.Good (n.log stream)
      ⟨g.cursor, (Nested.redeliver (n.log stream) consumer now pick count g.pending).2⟩ :=
    hgood.of_ids (Nested.map_id_redeliver _ _ _ _ _ _) rfl
  simp only [Flat.redeliver, h.selected_eq hg hpick,
    Flat.restamp_eq (fun id => ((n.log stream)[id - 1]?).getD ∅) hfields]
  constructor
  · rw [Nested.redeliver_entries hgood.isSome, List.map_map]
    rfl
  · have hc := h.cursors_of_some hg
    refine h.setGroup hgood' ?_ hc ?_
    · exact Nested.whole_of_kept hnow (h.whole stream group g hg) hkept
    · intro name name' id
      have hsel := (hgood.sorted.sublist (((List.take_sublist count _).trans
        List.filter_sublist).map _) : (((g.pending.filter pick).take count).map
          (·.id)).Pairwise (· < ·))
      have hstamped := Rows.sorted_mapValue (Flat.Delivery.stamped consumer now)
        (Nested.sorted_rows hsel)
      rw [Flat.get?_stampAll hstamped, h.deliveries]
      split
      · rename_i hn
        obtain ⟨rfl, rfl⟩ := hn
        rw [hg, Option.bind_some, Rows.get?_mapValue,
          Nested.row?_redeliver hgood.isSome hgood.sorted]
        rfl
      · rfl

/-! ## Acknowledging and listing -/

theorem acknowledge {t : Table Flat.DeliveryKey Flat.Delivery} {ds : List Nested.Delivery}
    (ht : ∀ id, t.get? ⟨stream, group, id⟩ = Nested.row? id ds) (ids : List Nat) :
    (Flat.acknowledge stream group ids t).1 = (Nested.acknowledge ids ds).1 ∧
      ∀ name name' id, (Flat.acknowledge stream group ids t).2.get? ⟨name, name', id⟩ =
        if name = stream ∧ name' = group then Nested.row? id (Nested.acknowledge ids ds).2
        else t.get? ⟨name, name', id⟩ := by
  induction ids generalizing t ds with
  | nil =>
    refine ⟨rfl, fun name name' id => ?_⟩
    split
    · rename_i hn
      obtain ⟨rfl, rfl⟩ := hn
      exact ht id
    · rfl
  | cons i rest ih =>
    have hfilter : ∀ id, (t.erase ⟨stream, group, i⟩).get? ⟨stream, group, id⟩
        = Nested.row? id (ds.filter (fun d => d.id ≠ i)) := by
      intro id
      rw [Table.get?_erase, ht, Nested.row?_filter_ne]
      simp only [Joined.mk.injEq, true_and]
    have hthere : t.contains ⟨stream, group, i⟩ = ds.any (fun d => d.id = i) := by
      rw [Table.contains, ht, Nested.isSome_row?]
    obtain ⟨hcount, hget⟩ := ih hfilter
    simp only [Flat.acknowledge, Nested.acknowledge]
    refine ⟨by rw [hcount, hthere], fun name name' id => ?_⟩
    rw [hget]
    split
    · rfl
    · rename_i hn
      rw [Table.get?_erase, if_neg]
      intro hk
      cases hk
      exact hn ⟨rfl, rfl⟩

theorem ack (h : Mirrors n f) (hg : n.groupOf stream group = some g) (ids : List Nat) :
    (Flat.acknowledge stream group ids f.deliveries).1 = (Nested.acknowledge ids g.pending).1 ∧
      Mirrors (n.setGroup stream group { g with pending := (Nested.acknowledge ids g.pending).2 })
        { f with deliveries := (Flat.acknowledge stream group ids f.deliveries).2 } := by
  have ht : ∀ id, f.deliveries.get? ⟨stream, group, id⟩ = Nested.row? id g.pending := by
    intro id
    rw [h.deliveries, hg]
    rfl
  obtain ⟨hcount, hget⟩ := acknowledge ht ids
  have hgood := (h.good stream group g hg).acknowledge ids
  have hc := h.cursors_of_some hg
  refine ⟨hcount, h.setGroup hgood (fun d hd => ?_) hc hget⟩
  rw [Nested.acknowledge_eq_filter] at hd
  exact h.whole stream group g hg d (List.mem_filter.1 hd).1

theorem listing (h : Mirrors n f) (hg : n.groupOf stream group = some g)
    (hnow : nanosPerMilli ∣ now) :
    Flat.listing stream group now f = Nested.listing now g := by
  have hrows := congrArg (List.map (fun r => (⟨r.1, r.2.consumer, r.2.deliveries,
    Span.ofMillis (Flat.millis now - r.2.deliveredAtMs)⟩ : PendingEntry))) (h.deliveriesFrom hg 0)
  rw [List.map_map, List.map_map] at hrows
  refine Eq.trans hrows ?_
  rw [Nested.listing, List.filter_eq_self.2 (by simp)]
  refine List.map_congr_left fun d hd => ?_
  have hidle : Span.ofMillis (Flat.millis now - Flat.millis d.deliveredAt)
      = Span.ofNanos (now - d.deliveredAt) := by
    rw [Span.ofMillis, Flat.idle_eq hnow (h.whole stream group g hg d hd)]
  simp only [Function.comp_apply, Nested.Delivery.row, hidle]

/-! ## Every call -/

/-- A claim picks the same deliveries, if the clock stays where milliseconds of
64 bits can tell any two of its readings apart. -/
theorem claimed_iff (h : Mirrors n f) (hg : n.groupOf stream group = some g)
    (hnow : nanosPerMilli ∣ now) (hclock : Flat.millis now < Flat.maxId) {minIdle : Span}
    (hidle : nanosPerMilli ∣ minIdle.nanos) : ∀ d ∈ g.pending,
      decide (minIdle.nanos ≤ now - d.deliveredAt) = (decide (0 < d.id) &&
        decide (min minIdle.millis Flat.maxId ≤ Flat.millis now - d.row.2.deliveredAtMs)) := by
  intro d hd
  obtain ⟨k, hk⟩ := hidle
  have hpos : 0 < nanosPerMilli := by decide
  have hmillis : minIdle.millis = k := by
    rw [Span.millis, hk, Nat.mul_div_cancel_left _ hpos]
  have hsince := Flat.idle_eq hnow (h.whole stream group g hg d hd)
  have hid := (h.ids_le hg d hd).1
  rw [decide_eq_true hid, Bool.true_and, hmillis, hk, ← hsince, Nat.mul_comm]
  refine decide_eq_decide.2 (Iff.trans (Nat.mul_le_mul_right_iff hpos) ?_)
  show k ≤ Flat.millis now - Flat.millis d.deliveredAt ↔
    min k Flat.maxId ≤ Flat.millis now - Flat.millis d.deliveredAt
  omega

theorem append (h : Mirrors n f) (fields : Fields)
    (hroom : (n.log stream).length + 1 ≤ Flat.maxId) :
    (Flat.streamCall (.append stream fields) now f).1
        = (Nested.streamCall (.append stream fields) now n).1 ∧
      Mirrors (Nested.streamCall (.append stream fields) now n).2
        (Flat.streamCall (.append stream fields) now f).2 := by
  have hlog := Nested.log_streamCall (.append stream fields) now n
  have hgroup := Nested.groupOf_append stream fields now n
  have hlast := h.lastId stream
  refine ⟨by simp only [Flat.streamCall, hlast]; rfl, h.keys, fun name => ?_, fun name id => ?_,
    fun name name' => ?_, fun name name' id => ?_, h.good.streamCall _ _, fun name name' g hg => ?_,
    fun name => ?_⟩
  · rw [hlog]
    have hname := h.lastId name
    simp only [Flat.streamCall, Flat.Store.lastId, Table.get?_insert, StreamCall.adds] at hname hlast ⊢
    by_cases hn : name = stream
    · subst hn
      simp [hlast]
    · simp [hn, Ne.symm hn, hname]
  · rw [hlog]
    have hname := h.entries name id
    simp only [Flat.streamCall, Table.get?_insert, Joined.mk.injEq, hlast, StreamCall.adds]
    by_cases hn : name = stream
    · subst hn
      rw [hname, if_pos rfl, List.getElem?_append]
      by_cases hid : id = (n.log name).length + 1
      · simp [hid]
      · by_cases hlt : id = 0 ∨ id - 1 < (n.log name).length
        · rcases hlt with rfl | hlt
          · simp
          · simp [hid, hlt]
        · have hone : ¬ id - 1 - (n.log name).length = 0 := by omega
          simp only [not_or] at hlt
          simp [hid, hlt, hone]
    · simp [hn, Ne.symm hn, hname]
  · rw [hgroup]
    exact h.cursors name name'
  · rw [hgroup]
    exact h.deliveries name name' id
  · rw [hgroup] at hg
    exact h.whole name name' g hg
  · rw [hlog]
    have hname := h.fits name
    simp only [StreamCall.adds]
    split
    · rename_i hn
      subst hn
      simpa using hroom
    · simpa using hname

theorem createGroup (h : Mirrors n f) (start : GroupStart) :
    (Flat.streamCall (.createGroup stream group start) now f).1
        = (Nested.streamCall (.createGroup stream group start) now n).1 ∧
      Mirrors (Nested.streamCall (.createGroup stream group start) now n).2
        (Flat.streamCall (.createGroup stream group start) now f).2 := by
  have hc := h.cursors stream group
  cases hg : n.groupOf stream group with
  | some g =>
    rw [hg] at hc
    rw [Nested.createGroup_some hg]
    simp only [Flat.streamCall, Table.contains, hc, Option.map_some, Option.isSome_some, if_true,
      true_and]
    exact h
  | none =>
    rw [hg] at hc
    rw [Nested.createGroup_none hg]
    simp only [Flat.streamCall, Table.contains, hc, Option.map_none, Option.isSome_none,
      Bool.false_eq_true, if_false, h.lastId, true_and]
    refine h.setGroup .fresh (by simp) (fun name name' => ?_) (fun name name' id => ?_)
    · rw [Table.get?_insert]
      simp only [Joined.mk.injEq]
      cases start <;> rfl
    · split
      · rename_i hn
        obtain ⟨rfl, rfl⟩ := hn
        rw [h.deliveries, hg]
        rfl
      · rfl

end Mirrors

/-! ## Runs -/

/-- What a call adds to the log of a stream. -/
def Call.adds (stream : String) : Call → List Fields
  | .key _ => []
  | .stream c => c.adds stream

/-- The idle time that a call asks for. -/
def Call.minIdle? : Call → Option Span
  | .stream (.claimIdle _ _ _ minIdle _) => some minIdle
  | _ => none

/-- A call at a clock reading in whole milliseconds of 64 bits, the last of
which stands for all later times. A claim asks for whole milliseconds. -/
structure Call.InMillis (now : Nat) (c : Call) : Prop where
  whole : nanosPerMilli ∣ now
  early : Flat.millis now < Flat.maxId
  minIdle : ∀ minIdle, c.minIdle? = some minIdle → nanosPerMilli ∣ minIdle.nanos

namespace Mirrors

variable {n : Nested.Store} {f : Flat.Store} {now : Nat}

theorem streamCall (h : Mirrors n f) {c : StreamCall} (hc : (Call.stream c).InMillis now)
    (hroom : ∀ stream, (n.log stream).length + (c.adds stream).length ≤ Flat.maxId) :
    (Flat.streamCall c now f).1 = (Nested.streamCall c now n).1 ∧
      Mirrors (Nested.streamCall c now n).2 (Flat.streamCall c now f).2 := by
  cases c with
  | append stream fields =>
    have := hroom stream
    simp only [StreamCall.adds, if_true, List.length_singleton] at this
    exact h.append fields this
  | createGroup stream group start => exact h.createGroup start
  | readGroup stream group consumer mode count block =>
    cases mode with
    | new =>
      refine h.onGroup fun g hg => ?_
      by_cases hnew : f.hasNew stream g.cursor = true
      · rw [if_pos hnew]
        exact h.readNew hg hc.whole
      · have hidle : (n.log stream).length ≤ g.cursor :=
          Nat.le_of_not_lt fun hlt => hnew ((h.hasNew_iff g.cursor).2 hlt)
        rw [if_neg hnew, Nested.readNew_idle hidle]
        exact ⟨rfl, h.setGroup_self hg⟩
    | pending after =>
      refine h.onGroup fun g hg => h.redeliver hg hc.whole fun d _ => rfl
  | ack stream group ids => exact h.onGroup fun g hg => h.ack hg ids
  | claimIdle stream group consumer minIdle count =>
    exact h.onGroup fun g hg =>
      h.redeliver hg hc.whole (h.claimed_iff hg hc.whole hc.early (hc.minIdle _ rfl))
  | pending stream group =>
    have hcursor := h.cursors stream group
    cases hg : n.groupOf stream group with
    | none =>
      rw [hg] at hcursor
      simp only [Flat.streamCall, Flat.Store.onGroup, hcursor, Nested.streamCall, Nested.group?_eq,
        hg, Option.map_none, true_and]
      exact h
    | some g =>
      rw [hg] at hcursor
      simp only [Flat.streamCall, Flat.Store.onGroup, hcursor, Nested.streamCall, Nested.group?_eq,
        hg, Option.map_some, h.listing hg hc.whole, true_and]
      exact h

theorem call (h : Mirrors n f) {c : Call} (hc : c.InMillis now)
    (hroom : ∀ stream, (n.log stream).length + (c.adds stream).length ≤ Flat.maxId) :
    (Flat.backend.call now c f).1 = (Nested.backend.call now c n).1 ∧
      Mirrors (Nested.backend.call now c n).2 (Flat.backend.call now c f).2 := by
  cases c with
  | stream c => exact h.streamCall hc hroom
  | key c =>
    simp only [Backend.call, Flat.backend, Nested.backend, Flat.keyCall, Nested.keyCall,
      Flat.onKeys_eq, Nested.onKeys_eq, h.keys, true_and]
    exact ⟨rfl, h.lastId, h.entries, h.cursors, h.deliveries, h.good, h.whole, h.fits⟩

theorem empty : Mirrors Nested.empty Flat.empty := by
  refine ⟨rfl, fun _ => rfl, fun _ id => ?_, fun _ _ => rfl, fun _ _ _ => rfl, Nested.good_empty,
    fun _ _ _ hg => (nomatch hg), fun _ => Nat.zero_le _⟩
  show none = if id = 0 then none else ([] : List Fields)[id - 1]?
  simp

end Mirrors

theorem log_call (c : Call) (now : Nat) (n : Nested.Store) (stream : String) :
    (Nested.backend.call now c n).2.log stream = n.log stream ++ c.adds stream := by
  cases c with
  | key c => exact (List.append_nil _).symm
  | stream c => exact Nested.log_streamCall c now n stream

/-- Nested and flat stores answer alike. No run of calls on empty stores tells
one from the other, whatever it calls and however often, as long as the ids
of 64 bits last. The clock may even go back. -/
theorem nested_and_flat_stores_answer_alike (calls : List (Nat × Call))
    (hmillis : ∀ x ∈ calls, x.2.InMillis x.1)
    (hids : ∀ stream, (calls.flatMap (fun x => x.2.adds stream)).length ≤ Flat.maxId) :
    Flat.backend.outcomes calls Flat.backend.empty
      = Nested.backend.outcomes calls Nested.backend.empty := by
  refine (Backend.map_trail_eq (fun calls n f => Mirrors n f ∧ (∀ x ∈ calls, x.2.InMillis x.1) ∧
    ∀ stream, (n.log stream ++ calls.flatMap (fun x => x.2.adds stream)).length ≤ Flat.maxId)
    ?_ ⟨Mirrors.empty, hmillis, hids⟩).symm
  rintro now c rest n f ⟨h, hm, hr⟩
  have hroom : ∀ stream, (n.log stream).length + (c.adds stream).length ≤ Flat.maxId := by
    intro stream
    have := hr stream
    simp only [List.flatMap_cons, List.length_append] at this
    omega
  obtain ⟨hanswer, hmirror⟩ := h.call (hm (now, c) List.mem_cons_self) hroom
  refine ⟨by rw [hanswer], hmirror, fun x hx => hm x (List.mem_cons_of_mem _ hx), fun stream => ?_⟩
  rw [log_call, List.append_assoc]
  exact hr stream

/-- One consumer reads an entry, and another one claims it 5 ms later, from a
flat store as from a nested one. A list of ids may name one twice. -/
theorem both_stores_hand_an_idle_entry_to_its_claimant :
    let calls : List (Nat × Call) :=
      [(0, .stream (.append "s" ∅)), (0, .stream (.createGroup "s" "g" .beginning)),
        (0, .stream (.readGroup "s" "g" "c" .new 10 Span.zero)),
        (5000000, .stream (.claimIdle "s" "g" "d" (Span.ofMillis 5) 10)),
        (7000000, .stream (.pending "s" "g")), (7000000, .stream (.ack "s" "g" [1, 1]))]
    (∀ x ∈ calls, x.2.InMillis x.1) ∧
      (∀ stream, (calls.flatMap (fun x => x.2.adds stream)).length ≤ Flat.maxId) ∧
      Flat.backend.outcomes calls Flat.backend.empty
        = Nested.backend.outcomes calls Nested.backend.empty ∧
      (Flat.backend.outcomes calls Flat.backend.empty).drop 3 =
        [⟨.stream (.claimIdle "s" "g" "d" (Span.ofMillis 5) 10), .ok [⟨1, ∅, 2⟩]⟩,
          ⟨.stream (.pending "s" "g"), .ok [⟨1, "d", 2, Span.ofMillis 2⟩]⟩,
          ⟨.stream (.ack "s" "g" [1, 1]), .ok 1⟩] := by
  intro calls
  have hmillis : ∀ x ∈ calls, x.2.InMillis x.1 := by
    simp only [calls, List.forall_mem_cons]
    refine ⟨⟨?_, ?_, ?_⟩, ⟨?_, ?_, ?_⟩, ⟨?_, ?_, ?_⟩, ⟨?_, ?_, ?_⟩, ⟨?_, ?_, ?_⟩, ⟨?_, ?_, ?_⟩, by simp⟩
      <;> decide
  have hids : ∀ stream, (calls.flatMap (fun x => x.2.adds stream)).length ≤ Flat.maxId := by
    intro stream
    simp only [calls, List.flatMap_cons, Call.adds, StreamCall.adds]
    split <;> simp [Flat.maxId, UInt64.size]
  have hsame := nested_and_flat_stores_answer_alike calls hmillis hids
  refine ⟨hmillis, hids, hsame, ?_⟩
  rw [hsame]
  rfl

end LifecycleLog
