-- A group that one consumer reads and acknowledges in order, from the first
-- entry on. Its entries stand in line: first those that are settled, then
-- those that the consumer holds, then those that nobody has read.
import LifecycleLog.Proofs.Store.Holdings

namespace LifecycleLog.Nested

/-! ## Groups in line -/

/-- The first `settled` entries are acknowledged, and the consumer holds all
others up to the cursor. -/
structure Group.InLine (g : Group) (consumer : String) (settled : Nat) : Prop where
  le : settled ≤ g.cursor
  ids : g.ids = List.range' (settled + 1) (g.cursor - settled)
  own : g.held consumer = g.ids

namespace Group.InLine

variable {g : Group} {consumer : String} {settled : Nat}

theorem fresh (log : List Fields) :
    Group.InLine ⟨GroupStart.beginning.cursor log, []⟩ consumer 0 :=
  ⟨Nat.le_refl _, rfl, rfl⟩

theorem readNew (h : g.InLine consumer settled) (count now : Nat) (log : List Fields) :
    (readNew consumer count now log g).2.InLine consumer settled := by
  have hle := h.le
  have hcursor : (Nested.readNew consumer count now log g).2.cursor
      = g.cursor + (freshEntries log g.cursor count).length := rfl
  refine ⟨by omega, ?_, ?_⟩
  · rw [ids_readNew, h.ids, hcursor]
    show _ ++ (freshEntries log g.cursor count).map (·.id) = _
    rw [map_id_freshEntries]
    have hc : g.cursor + 1 = settled + 1 + 1 * (g.cursor - settled) := by omega
    rw [hc, List.range'_append]
    congr 1
    omega
  · rw [held_readNew, ids_readNew, h.own]

theorem readPending (h : g.InLine consumer settled) (after count now : Nat) (log : List Fields) :
    (readPending consumer after count now log g).2.InLine consumer settled :=
  ⟨h.le, by rw [ids_readPending, h.ids]; rfl, by rw [held_readPending, ids_readPending, h.own]⟩

/-- The acknowledgement of the first entry held settles it. -/
theorem acknowledge (h : g.InLine consumer settled) (hlt : settled < g.cursor) :
    Group.InLine { g with pending := (acknowledge [settled + 1] g.pending).2 } consumer
      (settled + 1) := by
  have hids : Group.ids { g with pending := (Nested.acknowledge [settled + 1] g.pending).2 }
      = g.ids.filter (fun id => id ∉ [settled + 1]) := by
    simp only [Group.ids, acknowledge_eq_filter, List.filter_map, Function.comp_def]
  refine ⟨hlt, ?_, ?_⟩
  · rw [hids, h.ids]
    have hn : g.cursor - settled = (g.cursor - (settled + 1)) + 1 := by omega
    rw [hn, List.range'_succ, List.filter_cons]
    simp only [List.mem_singleton, not_true_eq_false, decide_false, Bool.false_eq_true, if_false]
    apply List.filter_eq_self.2
    intro id hid
    rw [List.mem_range'_1] at hid
    simp only [decide_eq_true_eq]
    omega
  · rw [held_acknowledge, hids, h.own]

end Group.InLine

/-! ## Stores in line -/

/-- The group stands in line, or nothing is settled since it is not there yet. -/
structure Store.InLine (s : Store) (stream group consumer : String) (settled : Nat) : Prop where
  absent : s.groupOf stream group = none → settled = 0
  present : ∀ g, s.groupOf stream group = some g → g.InLine consumer settled

namespace Store.InLine

variable {s s' : Store} {stream group consumer : String} {settled : Nat}

theorem empty : Nested.empty.InLine stream group consumer 0 :=
  ⟨fun _ => rfl, fun _ h => (nomatch h)⟩

theorem frame (h : s.InLine stream group consumer settled)
    (hg : s'.groupOf stream group = s.groupOf stream group) :
    s'.InLine stream group consumer settled :=
  ⟨fun hn => h.absent (hg ▸ hn), fun g hs => h.present g (hg ▸ hs)⟩

theorem setGroup {g : Group} (h : g.InLine consumer settled) :
    (s.setGroup stream group g).InLine stream group consumer settled := by
  have hg : (s.setGroup stream group g).groupOf stream group = some g := by
    rw [groupOf_setGroup, if_pos ⟨rfl, rfl⟩]
  constructor
  · intro hn
    rw [hg] at hn
    cases hn
  · intro g' hs
    rw [hg] at hs
    cases hs
    exact h

/-- The ids that the consumer holds begin right after the settled ones. -/
theorem held (h : s.InLine stream group consumer settled) :
    ∃ n, s.held stream group consumer = List.range' (settled + 1) n := by
  cases hg : s.groupOf stream group with
  | none => exact ⟨0, held_none hg⟩
  | some g =>
    have hl := h.present g hg
    exact ⟨g.cursor - settled, by rw [held_some hg, hl.own, hl.ids]⟩

/-- The first entry held is the first one that is not settled. -/
theorem first_held (h : s.InLine stream group consumer settled) {id : Nat}
    (hid : id ∈ s.held stream group consumer)
    (hle : ∀ i ∈ s.held stream group consumer, id ≤ i) : id = settled + 1 := by
  obtain ⟨n, hn⟩ := h.held
  rw [hn] at hid hle
  rw [List.mem_range'_1] at hid
  have := hle (settled + 1) (by rw [List.mem_range'_1]; omega)
  omega

theorem le_length (h : s.InLine stream group consumer settled) (hs : s.Good) :
    settled ≤ (s.log stream).length := by
  cases hg : s.groupOf stream group with
  | none =>
    rw [h.absent hg]
    exact Nat.zero_le _
  | some g => exact Nat.le_trans (h.present g hg).le (hs stream group g hg).cursor_le

theorem lt_length (h : s.InLine stream group consumer settled) (hs : s.Good) {id : Nat}
    (hid : id ∈ s.held stream group consumer) : settled < (s.log stream).length := by
  cases hg : s.groupOf stream group with
  | none =>
    rw [held_none hg] at hid
    cases hid
  | some g =>
    have hl := h.present g hg
    have hc := (hs stream group g hg).cursor_le
    rw [held_some hg, hl.own, hl.ids, List.mem_range'_1] at hid
    omega

theorem created (h : s.InLine stream group consumer settled) (now : Nat) :
    (streamCall (.createGroup stream group .beginning) now s).2.InLine stream group consumer
      settled := by
  cases hg : s.groupOf stream group with
  | some g => rwa [createGroup_some hg]
  | none =>
    rw [createGroup_none hg, h.absent hg]
    exact .setGroup (.fresh _)

theorem of_readGroup (h : s.InLine stream group consumer settled) {mode : ReadMode} {count : Nat}
    {block : Span} {now : Nat} {entries : List Entry}
    (hc : streamCall (.readGroup stream group consumer mode count block) now s
      = (.ok entries, s')) : s'.InLine stream group consumer settled := by
  cases mode with
  | new =>
    obtain ⟨g, hg, _, rfl⟩ := onGroup_ok hc
    exact .setGroup ((h.present g hg).readNew _ _ _)
  | pending after =>
    obtain ⟨g, hg, _, rfl⟩ := onGroup_ok hc
    exact .setGroup ((h.present g hg).readPending _ _ _ _)

theorem acknowledged (h : s.InLine stream group consumer settled)
    (hm : settled + 1 ∈ s.held stream group consumer) (now : Nat) :
    (streamCall (.ack stream group [settled + 1]) now s).2.InLine stream group consumer
      (settled + 1) := by
  cases hg : s.groupOf stream group with
  | none =>
    rw [held_none hg] at hm
    cases hm
  | some g =>
    have hl := h.present g hg
    rw [held_some hg, hl.own, hl.ids, List.mem_range'_1] at hm
    simp only [streamCall, onGroup_some _ hg]
    exact .setGroup (hl.acknowledge (by omega))

end Store.InLine

end LifecycleLog.Nested
