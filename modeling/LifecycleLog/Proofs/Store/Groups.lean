-- The groups of a store of nested maps, seen as a log for each stream and a
-- group for each pair of names. A call changes at most the group that it
-- names. Every group keeps `Good`: its pending ids rise strictly and lie
-- between 1 and its cursor, and the cursor never passes the end of the log.
import LifecycleLog.Store.Nested
import Mathlib.Data.Finset.Card
import Mathlib.Data.List.Forall2
import Mathlib.Data.List.Range

namespace LifecycleLog

/-- The group that a call names. -/
def StreamCall.target : StreamCall → Option (String × String)
  | .append _ _ => none
  | .createGroup stream group _ => some (stream, group)
  | .readGroup stream group _ _ _ _ => some (stream, group)
  | .ack stream group _ => some (stream, group)
  | .claimIdle stream group _ _ _ => some (stream, group)
  | .pending stream group => some (stream, group)

/-- What a call adds to the log of a stream. -/
def StreamCall.adds (name : String) : StreamCall → List Fields
  | .append stream fields => if stream = name then [fields] else []
  | _ => []

/-- Where a new group begins on a log. -/
def GroupStart.cursor (log : List Fields) : GroupStart → Nat
  | .beginning => 0
  | .latest => log.length

namespace Nested

/-! ## Logs and groups -/

def Store.log (s : Store) (stream : String) : List Fields := (s.stream stream).log

def Store.groupOf (s : Store) (stream group : String) : Option Group :=
  (s.stream stream).groups.get? group

/-- The ids that wait for their acknowledgement. -/
def Group.ids (g : Group) : List Nat := g.pending.map (·.id)

theorem group?_eq (s : Store) (stream group : String) :
    s.group? stream group = (s.groupOf stream group).map (fun g => (s.log stream, g)) := by
  unfold Store.group? Store.groupOf Store.log Store.stream
  cases s.streams.get? stream <;> rfl

theorem stream_setStream (s : Store) (stream : String) (x : Stream) (name : String) :
    (s.setStream stream x).stream name = if name = stream then x else s.stream name := by
  unfold Store.setStream Store.stream
  by_cases h : name = stream <;> simp [h]

theorem log_setGroup (s : Store) (stream group : String) (g : Group) (name : String) :
    (s.setGroup stream group g).log name = s.log name := by
  unfold Store.setGroup Store.log
  rw [stream_setStream]
  split
  · rename_i h
    rw [h]
  · rfl

theorem groupOf_setGroup (s : Store) (stream group : String) (g : Group) (name name' : String) :
    (s.setGroup stream group g).groupOf name name' =
      if name = stream ∧ name' = group then some g else s.groupOf name name' := by
  unfold Store.setGroup Store.groupOf
  rw [stream_setStream]
  by_cases h : name = stream
  · subst h
    simp
  · simp [h]

theorem onGroup_some {α : Type} {s : Store} {stream group : String} {g : Group}
    (f : List Fields → Group → α × Group) (h : s.groupOf stream group = some g) :
    s.onGroup stream group f =
      (.ok (f (s.log stream) g).1, s.setGroup stream group (f (s.log stream) g).2) := by
  unfold Store.onGroup
  rw [group?_eq, h]
  rfl

theorem onGroup_none {α : Type} {s : Store} {stream group : String}
    (f : List Fields → Group → α × Group) (h : s.groupOf stream group = none) :
    s.onGroup stream group f = (.error (.noSuchGroup stream group), s) := by
  unfold Store.onGroup
  rw [group?_eq, h]
  rfl

/-- An answer comes from a group that is there. -/
theorem onGroup_ok {α : Type} {s s' : Store} {stream group : String}
    {f : List Fields → Group → α × Group} {a : α} (h : s.onGroup stream group f = (.ok a, s')) :
    ∃ g, s.groupOf stream group = some g ∧ a = (f (s.log stream) g).1 ∧
      s' = s.setGroup stream group (f (s.log stream) g).2 := by
  cases hg : s.groupOf stream group with
  | none =>
    rw [onGroup_none f hg] at h
    cases h
  | some g =>
    rw [onGroup_some f hg] at h
    cases h
    exact ⟨g, rfl, rfl, rfl⟩

/-- A call that fails for want of its group changes nothing. -/
theorem onGroup_error {α : Type} {s s' : Store} {stream group : String}
    {f : List Fields → Group → α × Group} {e : StoreError}
    (h : s.onGroup stream group f = (.error e, s')) : s' = s := by
  cases hg : s.groupOf stream group with
  | none =>
    rw [onGroup_none f hg] at h
    cases h
    rfl
  | some g =>
    rw [onGroup_some f hg] at h
    cases h

theorem log_onGroup {α : Type} (s : Store) (stream group : String)
    (f : List Fields → Group → α × Group) (name : String) :
    (s.onGroup stream group f).2.log name = s.log name := by
  cases h : s.groupOf stream group with
  | none => rw [onGroup_none f h]
  | some g =>
    rw [onGroup_some f h]
    exact log_setGroup _ _ _ _ _

theorem groupOf_onGroup {α : Type} {s : Store} {stream group name name' : String}
    (f : List Fields → Group → α × Group) (hne : (stream, group) ≠ (name, name')) :
    (s.onGroup stream group f).2.groupOf name name' = s.groupOf name name' := by
  cases h : s.groupOf stream group with
  | none => rw [onGroup_none f h]
  | some g =>
    rw [onGroup_some f h, groupOf_setGroup, if_neg]
    rintro ⟨rfl, rfl⟩
    exact hne rfl

/-! ## Calls -/

theorem groupOf_append (stream : String) (fields : Fields) (now : Nat) (s : Store)
    (name name' : String) :
    (streamCall (.append stream fields) now s).2.groupOf name name' = s.groupOf name name' := by
  simp only [streamCall, Store.groupOf, stream_setStream]
  split
  · rename_i h
    rw [h]
  · rfl

theorem createGroup_some {stream group : String} {start : GroupStart} {now : Nat} {s : Store}
    {g : Group} (h : s.groupOf stream group = some g) :
    streamCall (.createGroup stream group start) now s = (.ok false, s) := by
  have hc : (s.stream stream).groups.contains group = true := by
    unfold Table.contains
    exact Option.isSome_iff_exists.2 ⟨g, h⟩
  simp [streamCall, hc]

theorem createGroup_none {stream group : String} {start : GroupStart} {now : Nat} {s : Store}
    (h : s.groupOf stream group = none) :
    streamCall (.createGroup stream group start) now s =
      (.ok true, s.setGroup stream group ⟨start.cursor (s.log stream), []⟩) := by
  have hc : (s.stream stream).groups.contains group = false := by
    unfold Table.contains
    exact congrArg Option.isSome h
  cases start <;> simp [streamCall, hc, Store.setGroup, GroupStart.cursor, Store.log]

theorem streamCall_pending (stream group : String) (now : Nat) (s : Store) :
    (streamCall (.pending stream group) now s).2 = s := by
  simp only [streamCall]
  split <;> rfl

theorem log_streamCall (c : StreamCall) (now : Nat) (s : Store) (name : String) :
    (streamCall c now s).2.log name = s.log name ++ c.adds name := by
  cases c with
  | append stream fields =>
    simp only [streamCall, Store.log, stream_setStream, StreamCall.adds]
    by_cases h : name = stream
    · simp [h]
    · simp [h, Ne.symm h]
  | createGroup stream group start =>
    cases h : s.groupOf stream group with
    | none => simp [createGroup_none h, log_setGroup, StreamCall.adds]
    | some g => simp [createGroup_some h, StreamCall.adds]
  | readGroup stream group consumer mode count block =>
    cases mode <;> simp [streamCall, log_onGroup, StreamCall.adds]
  | ack stream group ids => simp [streamCall, log_onGroup, StreamCall.adds]
  | claimIdle stream group consumer minIdle count => simp [streamCall, log_onGroup, StreamCall.adds]
  | pending stream group => simp [streamCall_pending, StreamCall.adds]

theorem keys_onGroup {α : Type} (s : Store) (stream group : String)
    (f : List Fields → Group → α × Group) : (s.onGroup stream group f).2.keys = s.keys := by
  cases h : s.groupOf stream group with
  | none => rw [onGroup_none f h]
  | some g =>
    rw [onGroup_some f h]
    rfl

/-- A call on streams leaves the keys alone. -/
theorem keys_streamCall (c : StreamCall) (now : Nat) (s : Store) :
    (streamCall c now s).2.keys = s.keys := by
  cases c with
  | append stream fields => rfl
  | createGroup stream group start =>
    cases h : s.groupOf stream group with
    | none =>
      rw [createGroup_none h]
      rfl
    | some g => rw [createGroup_some h]
  | readGroup stream group consumer mode count block =>
    cases mode with
    | new => exact keys_onGroup _ _ _ _
    | pending after => exact keys_onGroup _ _ _ _
  | ack stream group ids => exact keys_onGroup _ _ _ _
  | claimIdle stream group consumer minIdle count => exact keys_onGroup _ _ _ _
  | pending stream group => rw [streamCall_pending]

/-- A call leaves every group alone that it does not name. -/
theorem groupOf_streamCall {c : StreamCall} {name name' : String}
    (h : c.target ≠ some (name, name')) (now : Nat) (s : Store) :
    (streamCall c now s).2.groupOf name name' = s.groupOf name name' := by
  cases c with
  | append stream fields => exact groupOf_append _ _ _ _ _ _
  | createGroup stream group start =>
    cases hg : s.groupOf stream group with
    | some g => rw [createGroup_some hg]
    | none =>
      rw [createGroup_none hg, groupOf_setGroup, if_neg]
      rintro ⟨rfl, rfl⟩
      exact h rfl
  | readGroup stream group consumer mode count block =>
    cases mode with
    | new => exact groupOf_onGroup _ (fun he => h (congrArg some he))
    | pending after => exact groupOf_onGroup _ (fun he => h (congrArg some he))
  | ack stream group ids => exact groupOf_onGroup _ (fun he => h (congrArg some he))
  | claimIdle stream group consumer minIdle count =>
    exact groupOf_onGroup _ (fun he => h (congrArg some he))
  | pending stream group => rw [streamCall_pending]

/-! ## Entries new to a group -/

theorem map_id_numbered (first : Nat) (fs : List Fields) :
    (numbered first fs).map (·.id) = List.range' first fs.length := by
  induction fs generalizing first with
  | nil => rfl
  | cons f rest ih => simp [numbered, ih, List.range'_succ]

theorem mem_numbered {first : Nat} {fs : List Fields} {e : Entry} (h : e ∈ numbered first fs) :
    first ≤ e.id ∧ fs[e.id - first]? = some e.fields := by
  induction fs generalizing first with
  | nil => cases h
  | cons f rest ih =>
    rcases List.mem_cons.1 h with rfl | h
    · simp
    · obtain ⟨hle, hf⟩ := ih h
      refine ⟨by omega, ?_⟩
      have hs : e.id - first = (e.id - (first + 1)) + 1 := by omega
      rw [hs, List.getElem?_cons_succ]
      exact hf

theorem map_id_freshEntries (log : List Fields) (cursor count : Nat) :
    (freshEntries log cursor count).map (·.id)
      = List.range' (cursor + 1) (freshEntries log cursor count).length := by
  have hl : (freshEntries log cursor count).length = ((log.drop cursor).take count).length := by
    have := congrArg List.length (map_id_numbered (cursor + 1) ((log.drop cursor).take count))
    simpa [freshEntries] using this
  rw [hl]
  exact map_id_numbered _ _

theorem length_freshEntries (log : List Fields) (cursor count : Nat) :
    (freshEntries log cursor count).length = min count (log.length - cursor) := by
  have := congrArg List.length (map_id_numbered (cursor + 1) ((log.drop cursor).take count))
  simpa [freshEntries] using this

/-- A fresh entry lies beyond the cursor and carries what was appended there. -/
theorem mem_freshEntries {log : List Fields} {cursor count : Nat} {e : Entry}
    (h : e ∈ freshEntries log cursor count) : cursor < e.id ∧ log[e.id - 1]? = some e.fields := by
  obtain ⟨hle, hf⟩ := mem_numbered h
  refine ⟨by omega, ?_⟩
  rw [List.getElem?_take] at hf
  split at hf
  · rw [List.getElem?_drop] at hf
    have he : cursor + (e.id - (cursor + 1)) = e.id - 1 := by omega
    rw [← he]
    exact hf
  · cases hf

theorem ids_readNew (consumer : String) (count now : Nat) (log : List Fields) (g : Group) :
    (readNew consumer count now log g).2.ids
      = g.ids ++ (readNew consumer count now log g).1.map (·.id) := by
  simp [readNew, Group.ids, freshDeliveries, Function.comp_def]

/-! ## Entries delivered again -/

/-- How a delivery stands after others were delivered again: as it was, or
taken by `consumer` and counted once more. -/
def Kept (consumer : String) (now : Nat) (pick : Delivery → Bool) (d d' : Delivery) : Prop :=
  d' = d ∨ pick d = true ∧ d' = ⟨d.id, consumer, now, d.deliveries + 1⟩

theorem forall₂_redeliver (log : List Fields) (consumer : String) (now : Nat)
    (pick : Delivery → Bool) (count : Nat) (pending : List Delivery) :
    List.Forall₂ (Kept consumer now pick) pending
      (redeliver log consumer now pick count pending).2 := by
  have hsame : ∀ ds : List Delivery, List.Forall₂ (Kept consumer now pick) ds ds := fun ds =>
    List.forall₂_same.2 fun d _ => Or.inl rfl
  induction pending generalizing count with
  | nil => cases count <;> exact .nil
  | cons d rest ih =>
    cases count with
    | zero => exact hsame _
    | succ count =>
      simp only [redeliver]
      split
      · exact .cons (Or.inl rfl) (ih (count + 1))
      · rename_i fields hf
        refine .cons (Or.inr ⟨?_, rfl⟩) (ih count)
        by_contra hp
        simp [hp] at hf

theorem map_id_redeliver (log : List Fields) (consumer : String) (now : Nat)
    (pick : Delivery → Bool) (count : Nat) (pending : List Delivery) :
    (redeliver log consumer now pick count pending).2.map (·.id) = pending.map (·.id) := by
  have h := forall₂_redeliver log consumer now pick count pending
  generalize (redeliver log consumer now pick count pending).2 = ds at h
  induction h with
  | nil => rfl
  | cons hd _ ih =>
    rcases hd with rfl | ⟨_, rfl⟩ <;> simp [ih]

/-- What is delivered again was pending and picked, and carries what was
appended under its id. -/
theorem mem_redeliver {log : List Fields} {consumer : String} {now : Nat} {pick : Delivery → Bool}
    {count : Nat} {pending : List Delivery} {e : Entry}
    (h : e ∈ (redeliver log consumer now pick count pending).1) :
    ∃ d ∈ pending, pick d = true ∧ d.id = e.id ∧ log[e.id - 1]? = some e.fields := by
  induction pending generalizing count with
  | nil => cases count <;> cases h
  | cons d rest ih =>
    cases count with
    | zero => cases h
    | succ count =>
      simp only [redeliver] at h
      split at h
      · obtain ⟨d', hd', hp⟩ := ih h
        exact ⟨d', List.mem_cons_of_mem _ hd', hp⟩
      · rename_i fields hf
        by_cases hp : pick d = true
        · rcases List.mem_cons.1 h with rfl | h
          · exact ⟨d, List.mem_cons_self, hp, rfl, by simpa [hp] using hf⟩
          · obtain ⟨d', hd', hp'⟩ := ih h
            exact ⟨d', List.mem_cons_of_mem _ hd', hp'⟩
        · simp [hp] at hf

/-- Where every pending id has an entry, the first `count` picked deliveries
are delivered, in their order. -/
theorem map_id_redeliver_entries {log : List Fields} {consumer : String} {now : Nat}
    {pick : Delivery → Bool} {count : Nat} {pending : List Delivery}
    (hlog : ∀ d ∈ pending, (log[d.id - 1]?).isSome) :
    (redeliver log consumer now pick count pending).1.map (·.id)
      = ((pending.filter pick).take count).map (·.id) := by
  induction pending generalizing count with
  | nil => cases count <;> simp [redeliver]
  | cons d rest ih =>
    have hrest : ∀ d' ∈ rest, (log[d'.id - 1]?).isSome :=
      fun d' hd' => hlog d' (List.mem_cons_of_mem _ hd')
    cases count with
    | zero => simp [redeliver]
    | succ count =>
      obtain ⟨fields, hf⟩ := Option.isSome_iff_exists.1 (hlog d List.mem_cons_self)
      by_cases hp : pick d = true
      · simp [redeliver, hp, hf, ih hrest]
      · simp [redeliver, hp, ih hrest]

theorem ids_readPending (consumer : String) (after count now : Nat) (log : List Fields)
    (g : Group) : (readPending consumer after count now log g).2.ids = g.ids :=
  map_id_redeliver _ _ _ _ _ _

theorem ids_claim (consumer : String) (minIdle : Span) (count now : Nat) (log : List Fields)
    (g : Group) : (claim consumer minIdle count now log g).2.ids = g.ids :=
  map_id_redeliver _ _ _ _ _ _

/-! ## Acknowledgements -/

theorem acknowledge_eq_filter (ids : List Nat) (pending : List Delivery) :
    (acknowledge ids pending).2 = pending.filter (fun d => d.id ∉ ids) := by
  induction ids generalizing pending with
  | nil => simp [acknowledge]
  | cons id rest ih =>
    simp only [acknowledge, ih, List.filter_filter]
    apply List.filter_congr
    intro d _
    by_cases h : d.id = id <;> simp [h]

/-- An acknowledgement counts the pending ids that it names, each once. -/
theorem acknowledge_eq_card (ids : List Nat) (pending : List Delivery) :
    (acknowledge ids pending).1 = (ids.toFinset ∩ (pending.map (·.id)).toFinset).card := by
  induction ids generalizing pending with
  | nil => simp [acknowledge]
  | cons id rest ih =>
    have hrest : ((pending.filter (fun d => d.id ≠ id)).map (·.id)).toFinset
        = (pending.map (·.id)).toFinset.erase id := by
      ext i
      simp only [List.mem_toFinset, List.mem_map, List.mem_filter, Finset.mem_erase,
        decide_eq_true_eq]
      constructor
      · rintro ⟨d, ⟨hd, hne⟩, rfl⟩
        exact ⟨hne, d, hd, rfl⟩
      · rintro ⟨hne, d, hd, rfl⟩
        exact ⟨d, ⟨hd, hne⟩, rfl⟩
    have hany : (pending.any (fun d => d.id = id)) = true ↔ id ∈ (pending.map (·.id)).toFinset := by
      simp
    simp only [acknowledge, ih, hrest, hany, List.toFinset_cons]
    generalize (pending.map (·.id)).toFinset = p
    have he : insert id rest.toFinset ∩ p
        = if id ∈ p then insert id (rest.toFinset ∩ p.erase id)
          else rest.toFinset ∩ p.erase id := by
      ext i
      by_cases hi : i = id
      · subst hi
        split <;> simp [*]
      · split <;> simp [hi]
    rw [he]
    split
    · rw [Finset.card_insert_of_notMem (by simp)]
    · rfl

/-! ## Well-formed groups -/

/-- What every group keeps, from the empty store on and through every call. -/
structure Group.Good (log : List Fields) (g : Group) : Prop where
  sorted : g.ids.Pairwise (· < ·)
  positive : ∀ id ∈ g.ids, 0 < id
  within : ∀ id ∈ g.ids, id ≤ g.cursor
  cursor_le : g.cursor ≤ log.length

namespace Group.Good

variable {log : List Fields} {g : Group}

theorem fresh {start : GroupStart} : Group.Good log ⟨start.cursor log, []⟩ := by
  refine ⟨.nil, by simp [Group.ids], by simp [Group.ids], ?_⟩
  cases start <;> simp [GroupStart.cursor]

theorem append (h : g.Good log) (more : List Fields) : g.Good (log ++ more) := by
  refine ⟨h.sorted, h.positive, h.within, ?_⟩
  have := h.cursor_le
  simp only [List.length_append]
  omega

/-- Every pending id has its entry. -/
theorem isSome (h : g.Good log) : ∀ d ∈ g.pending, (log[d.id - 1]?).isSome := by
  intro d hd
  have hm : d.id ∈ g.ids := List.mem_map_of_mem hd
  have h₁ := h.positive d.id hm
  have h₂ := h.within d.id hm
  have h₃ := h.cursor_le
  rw [isSome_getElem?]
  omega

theorem readNew (h : g.Good log) (consumer : String) (count now : Nat) :
    (readNew consumer count now log g).2.Good log := by
  have hids := ids_readNew consumer count now log g
  have hfresh : ∀ id ∈ (Nested.readNew consumer count now log g).1.map (·.id),
      g.cursor < id ∧ id ≤ (Nested.readNew consumer count now log g).2.cursor := by
    simp only [Nested.readNew, map_id_freshEntries, List.mem_range'_1]
    omega
  refine ⟨?_, ?_, ?_, ?_⟩
  · rw [hids, List.pairwise_append]
    refine ⟨h.sorted, ?_, ?_⟩
    · simp only [Nested.readNew, map_id_freshEntries]
      exact List.pairwise_lt_range'
    · intro i hi j hj
      have h₁ := h.within i hi
      have h₂ := (hfresh j hj).1
      omega
  · intro id hid
    rw [hids, List.mem_append] at hid
    rcases hid with hid | hid
    · exact h.positive id hid
    · have := (hfresh id hid).1
      omega
  · intro id hid
    rw [hids, List.mem_append] at hid
    rcases hid with hid | hid
    · have := h.within id hid
      simp only [Nested.readNew]
      omega
    · exact (hfresh id hid).2
  · have h₁ := length_freshEntries log g.cursor count
    have h₂ := h.cursor_le
    simp only [Nested.readNew]
    omega

/-- Deliveries made again change no id. -/
theorem of_ids (h : g.Good log) {g' : Group} (hids : g'.ids = g.ids)
    (hc : g'.cursor = g.cursor) : g'.Good log :=
  ⟨hids ▸ h.sorted, hids ▸ h.positive, hids ▸ hc ▸ h.within, hc ▸ h.cursor_le⟩

theorem acknowledge (h : g.Good log) (ids : List Nat) :
    Group.Good log { g with pending := (acknowledge ids g.pending).2 } := by
  have hs :
      (Group.ids { g with pending := (Nested.acknowledge ids g.pending).2 }).Sublist g.ids := by
    simp only [Group.ids, acknowledge_eq_filter]
    exact List.filter_sublist.map _
  exact ⟨h.sorted.sublist hs, fun id hid => h.positive id (hs.subset hid),
    fun id hid => h.within id (hs.subset hid), h.cursor_le⟩

end Group.Good

/-- Every group of the store is well formed. -/
def Store.Good (s : Store) : Prop :=
  ∀ stream group g, s.groupOf stream group = some g → g.Good (s.log stream)

theorem good_empty : empty.Good := by
  intro stream group g h
  cases h

theorem Store.Good.setGroup {s : Store} (h : s.Good) {stream group : String} {g : Group}
    (hg : g.Good (s.log stream)) : (s.setGroup stream group g).Good := by
  intro name name' g' h'
  rw [log_setGroup]
  rw [groupOf_setGroup] at h'
  split at h'
  · rename_i hn
    cases h'
    exact hn.1 ▸ hg
  · exact h name name' g' h'

theorem Store.Good.onGroup {α : Type} {s : Store} (h : s.Good) (stream group : String)
    (f : List Fields → Group → α × Group) (hf : ∀ log g, g.Good log → (f log g).2.Good log) :
    (s.onGroup stream group f).2.Good := by
  cases hg : s.groupOf stream group with
  | none => rwa [onGroup_none f hg]
  | some g =>
    rw [onGroup_some f hg]
    exact h.setGroup (hf _ _ (h stream group g hg))

/-- Every call keeps every group well formed. -/
theorem Store.Good.streamCall {s : Store} (h : s.Good) (c : StreamCall) (now : Nat) :
    (streamCall c now s).2.Good := by
  cases c with
  | append stream fields =>
    intro name name' g hg
    rw [groupOf_append] at hg
    rw [log_streamCall]
    exact (h name name' g hg).append _
  | createGroup stream group start =>
    cases hg : s.groupOf stream group with
    | some g => rwa [createGroup_some hg]
    | none =>
      rw [createGroup_none hg]
      exact h.setGroup .fresh
  | readGroup stream group consumer mode count block =>
    cases mode with
    | new => exact h.onGroup _ _ _ fun log g hg => hg.readNew consumer count now
    | pending after =>
      exact h.onGroup _ _ _ fun log g hg => hg.of_ids (ids_readPending _ _ _ _ _ _) rfl
  | ack stream group ids => exact h.onGroup _ _ _ fun log g hg => hg.acknowledge ids
  | claimIdle stream group consumer minIdle count =>
    exact h.onGroup _ _ _ fun log g hg => hg.of_ids (ids_claim _ _ _ _ _ _) rfl
  | pending stream group => rwa [streamCall_pending]

end Nested

end LifecycleLog
