-- How a group changes, seen from its cursor and its pending ids. Calls that
-- acknowledge nothing in it only let it grow: what they take the cursor past
-- becomes pending. An acknowledgement takes what it names off the pending
-- list. Entries that reads and claims return are those of the log.
import LifecycleLog.Proofs.Store.Holdings

namespace LifecycleLog

/-- The calls that may give entries of a group from one consumer to another. -/
def StreamCall.TakesOver (stream group : String) : StreamCall → Prop
  | .claimIdle name name' _ _ _ => name = stream ∧ name' = group
  | _ => False

/-- A call gives entries to one consumer at most. -/
theorem StreamCall.GivesTo.unique {stream group consumer other : String} {c : StreamCall}
    (h : c.GivesTo stream group consumer) (h' : c.GivesTo stream group other) :
    consumer = other := by
  cases c with
  | readGroup name name' reader mode count block =>
    cases mode with
    | new => exact h.2.2.symm.trans h'.2.2
    | pending after => exact h.elim
  | claimIdle name name' taker minIdle count => exact h.2.2.symm.trans h'.2.2
  | _ => exact h.elim

namespace Nested

/-! ## Groups from which nothing is acknowledged -/

/-- What becomes of a group under calls that acknowledge nothing in it. -/
structure Group.Grown (g g' : Group) : Prop where
  cursor_le : g.cursor ≤ g'.cursor
  kept : ∀ id ∈ g.ids, id ∈ g'.ids
  delivered : ∀ id, g.cursor < id → id ≤ g'.cursor → id ∈ g'.ids

theorem grown_of_ids {g g' : Group} (hids : g'.ids = g.ids) (hc : g'.cursor = g.cursor) :
    g.Grown g' :=
  ⟨Nat.le_of_eq hc.symm, fun _ hid => hids ▸ hid, fun id hlt hle => by omega⟩

theorem grown_readNew (consumer : String) (count now : Nat) (log : List Fields) (g : Group) :
    g.Grown (readNew consumer count now log g).2 := by
  have hids := ids_readNew consumer count now log g
  refine ⟨Nat.le_add_right _ _, fun id hid => ?_, fun id hlt hle => ?_⟩
  · rw [hids]
    exact List.mem_append_left _ hid
  · rw [hids]
    refine List.mem_append_right _ ?_
    simp only [readNew, map_id_freshEntries, List.mem_range'_1] at hle ⊢
    omega

variable {stream group : String} {s : Store} {g : Group}

theorem grown_onGroup {α : Type} {f : List Fields → Group → α × Group}
    (hg : s.groupOf stream group = some g) (hf : ∀ log, g.Grown (f log g).2) :
    ∃ g', (s.onGroup stream group f).2.groupOf stream group = some g' ∧ g.Grown g' := by
  refine ⟨_, ?_, hf (s.log stream)⟩
  rw [onGroup_some f hg, groupOf_setGroup, if_pos ⟨rfl, rfl⟩]

/-- Any call but an acknowledgement in the group lets it grow. -/
theorem grown_streamCall {c : StreamCall} (hc : ∀ ids, c ≠ .ack stream group ids)
    (hg : s.groupOf stream group = some g) (now : Nat) :
    ∃ g', (streamCall c now s).2.groupOf stream group = some g' ∧ g.Grown g' := by
  by_cases ht : c.target = some (stream, group)
  · cases c with
    | append name fields => cases ht
    | createGroup name name' start =>
      cases ht
      rw [createGroup_some hg]
      exact ⟨g, hg, grown_of_ids rfl rfl⟩
    | readGroup name name' reader mode count block =>
      cases ht
      cases mode with
      | new => exact grown_onGroup hg fun log => grown_readNew reader count now log g
      | pending after =>
        exact grown_onGroup hg fun log => grown_of_ids (ids_readPending _ _ _ _ _ _) rfl
    | ack name name' ids =>
      cases ht
      exact absurd rfl (hc ids)
    | claimIdle name name' taker minIdle count =>
      cases ht
      exact grown_onGroup hg fun log => grown_of_ids (ids_claim _ _ _ _ _ _) rfl
    | pending name name' =>
      rw [streamCall_pending]
      exact ⟨g, hg, grown_of_ids rfl rfl⟩
  · rw [groupOf_streamCall ht]
    exact ⟨g, hg, grown_of_ids rfl rfl⟩

/-- A pending id has one delivery, so one consumer has it. -/
theorem Group.Good.existsUnique {log : List Fields} (h : g.Good log) {id : Nat} (hid : id ∈ g.ids) :
    ∃! d, d ∈ g.pending ∧ d.id = id := by
  obtain ⟨d, hd, rfl⟩ := List.mem_map.1 hid
  have hnodup : g.ids.Nodup := h.sorted.imp Nat.ne_of_lt
  exact ⟨d, ⟨hd, rfl⟩, fun d' hd' => List.inj_on_of_nodup_map hnodup hd'.1 hd hd'.2⟩

/-! ## Acknowledgements -/

/-- The ids that are pending in a group. -/
def Store.ids (s : Store) (stream group : String) : List Nat :=
  ((s.groupOf stream group).map (·.ids)).getD []

theorem ids_some (h : s.groupOf stream group = some g) : s.ids stream group = g.ids := by
  rw [Store.ids, h]
  rfl

/-- An acknowledgement takes what it names off the pending list, and no more. -/
theorem groupOf_ack (hg : s.groupOf stream group = some g) (ids : List Nat) (now : Nat) :
    ∃ g', (streamCall (.ack stream group ids) now s).2.groupOf stream group = some g' ∧
      g'.cursor = g.cursor ∧ g'.ids = g.ids.filter (fun id => id ∉ ids) := by
  refine ⟨{ g with pending := (acknowledge ids g.pending).2 }, ?_, rfl, ?_⟩
  · simp only [streamCall]
    rw [onGroup_some _ hg, groupOf_setGroup, if_pos ⟨rfl, rfl⟩]
  · simp only [Group.ids, acknowledge_eq_filter, List.filter_map, Function.comp_def]

/-! ## Cursors -/

/-- How far the group has read; a group that is not there has read nothing. -/
def Store.cursor (s : Store) (stream group : String) : Nat :=
  ((s.groupOf stream group).map (·.cursor)).getD 0

theorem cursor_some (h : s.groupOf stream group = some g) : s.cursor stream group = g.cursor := by
  rw [Store.cursor, h]
  rfl

/-- A group stays where it is, and no call takes it back. -/
theorem groupOf_onward (hg : s.groupOf stream group = some g) (c : StreamCall) (now : Nat) :
    ∃ g', (streamCall c now s).2.groupOf stream group = some g' ∧ g.cursor ≤ g'.cursor := by
  by_cases hc : ∃ ids, c = .ack stream group ids
  · obtain ⟨ids, rfl⟩ := hc
    obtain ⟨g', hg', hcursor, _⟩ := groupOf_ack hg ids now
    exact ⟨g', hg', Nat.le_of_eq hcursor.symm⟩
  · obtain ⟨g', hg', hgrown⟩ := grown_streamCall (not_exists.1 hc) hg now
    exact ⟨g', hg', hgrown.cursor_le⟩

theorem cursor_le_streamCall (c : StreamCall) (now : Nat) (s : Store) :
    s.cursor stream group ≤ (streamCall c now s).2.cursor stream group := by
  cases hg : s.groupOf stream group with
  | none =>
    rw [Store.cursor, hg]
    exact Nat.zero_le _
  | some g =>
    obtain ⟨g', hg', hle⟩ := groupOf_onward hg c now
    rwa [cursor_some hg, cursor_some hg']

theorem Store.Good.held_le_cursor (hs : s.Good) {consumer : String} {id : Nat}
    (hid : id ∈ s.held stream group consumer) : id ≤ s.cursor stream group := by
  cases hg : s.groupOf stream group with
  | none => simp [held_none hg] at hid
  | some g =>
    rw [held_some hg] at hid
    rw [cursor_some hg]
    exact (hs stream group g hg).within id ((held_sublist g consumer).subset hid)

theorem Store.Good.consumer_unique (hs : s.Good) {consumer other : String} {id : Nat}
    (h : id ∈ s.held stream group consumer) (h' : id ∈ s.held stream group other) :
    consumer = other := by
  cases hg : s.groupOf stream group with
  | none => simp [held_none hg] at h
  | some g =>
    rw [held_some hg] at h h'
    obtain ⟨d, hd, rfl⟩ := List.mem_map.1 h
    obtain ⟨d', hd', he⟩ := List.mem_map.1 h'
    obtain ⟨hd, hc⟩ := List.mem_filter.1 hd
    obtain ⟨hd', hc'⟩ := List.mem_filter.1 hd'
    have hsame : d' = d :=
      ((hs stream group g hg).existsUnique (List.mem_map_of_mem hd)).unique ⟨hd', he⟩ ⟨hd, rfl⟩
    rw [← of_decide_eq_true hc, ← of_decide_eq_true hc', hsame]

/-- What a consumer gets by a call that takes nothing over is new to the group. -/
theorem mem_held_streamCall {consumer : String} {c : StreamCall} {now id : Nat}
    (hc : ¬ c.TakesOver stream group)
    (hid : id ∈ (streamCall c now s).2.held stream group consumer) :
    id ∈ s.held stream group consumer ∨
      c.GivesTo stream group consumer ∧ s.cursor stream group < id := by
  by_cases hgives : c.GivesTo stream group consumer
  · cases c with
    | readGroup name name' reader mode count block =>
      cases mode with
      | pending after => exact hgives.elim
      | new =>
        obtain ⟨rfl, rfl, rfl⟩ := hgives
        simp only [streamCall] at hid
        cases hg : s.groupOf name name' with
        | none =>
          rw [onGroup_none _ hg] at hid
          exact Or.inl hid
        | some g =>
          rw [onGroup_some _ hg, held_setGroup, held_readNew, List.mem_append] at hid
          rcases hid with hid | hid
          · exact Or.inl (held_some hg ▸ hid)
          · obtain ⟨e, he, rfl⟩ := List.mem_map.1 hid
            exact Or.inr ⟨⟨rfl, rfl, rfl⟩, cursor_some hg ▸ (mem_freshEntries he).1⟩
    | claimIdle name name' taker minIdle count =>
      exact absurd ⟨hgives.1, hgives.2.1⟩ hc
    | _ => exact hgives.elim
  · exact Or.inl ((held_streamCall hgives now s).subset hid)

/-! ## Answers in rising order -/

/-- A read for new entries returns them in order, from beyond the cursor. -/
theorem rising_of_readNew {consumer : String} {count now : Nat} {block : Span}
    {entries : List Entry} {s' : Store}
    (h : streamCall (.readGroup stream group consumer .new count block) now s = (.ok entries, s')) :
    (entries.map (·.id)).Pairwise (· < ·) ∧
      ∀ id ∈ entries.map (·.id), s.cursor stream group < id := by
  obtain ⟨g, hg, rfl, rfl⟩ := onGroup_ok h
  constructor
  · simp only [readNew, map_id_freshEntries]
    exact List.pairwise_lt_range'
  · intro id hid
    obtain ⟨e, he, rfl⟩ := List.mem_map.1 hid
    exact cursor_some hg ▸ (mem_freshEntries he).1

/-- A read of pending entries returns them in order, from beyond `after`. -/
theorem rising_of_readPending (hs : s.Good) {consumer : String} {after count now : Nat}
    {block : Span} {entries : List Entry} {s' : Store}
    (h : streamCall (.readGroup stream group consumer (.pending after) count block) now s
      = (.ok entries, s')) :
    (entries.map (·.id)).Pairwise (· < ·) ∧ ∀ id ∈ entries.map (·.id), after < id := by
  rw [(held_of_readPending hs h).2]
  constructor
  · exact (hs.held_sorted stream group consumer).sublist
      ((List.take_sublist _ _).trans List.filter_sublist)
  · intro id hid
    exact of_decide_eq_true (List.mem_filter.1 (List.mem_of_mem_take hid)).2

/-! ## Entries of the log -/

/-- The entry carries what was appended under its id. -/
def Store.Logged (s : Store) (stream : String) (e : Entry) : Prop :=
  (s.log stream)[e.id - 1]? = some e.fields

theorem logged_of_readGroup {consumer : String} {mode : ReadMode} {count now : Nat} {block : Span}
    {entries : List Entry} {s' : Store} (hs : s.Good)
    (h : streamCall (.readGroup stream group consumer mode count block) now s = (.ok entries, s')) :
    ∀ e ∈ entries, s'.Logged stream e := by
  intro e he
  cases mode with
  | new => exact (carries_of_readNew h e he).2
  | pending after => exact (carries_of_readPending hs h e he).2

theorem logged_of_claimIdle {consumer : String} {minIdle : Span} {count now : Nat}
    {entries : List Entry} {s' : Store}
    (h : streamCall (.claimIdle stream group consumer minIdle count) now s = (.ok entries, s')) :
    ∀ e ∈ entries, s'.Logged stream e := by
  intro e he
  obtain ⟨g, hg, rfl, rfl⟩ := onGroup_ok h
  rw [Store.Logged, log_setGroup]
  obtain ⟨_, _, _, _, hf⟩ := mem_redeliver he
  exact hf

end Nested

end LifecycleLog
