-- What is new to a group, and how its readers learn of it. An entry becomes new
-- to a group by an append alone, and every append shows in the count of all
-- entries, in a store of nested maps as in one of flat tables. A reader that
-- found nothing need not look again before the count has changed.
import LifecycleLog.Proofs.Store.Bookkeeping
import LifecycleLog.Proofs.Store.Growth

namespace LifecycleLog

/-! ## Totals of tables -/

namespace Rows

variable {κ α : Type}

/-- A measure of the values, added up. -/
def total (f : α → Nat) (rows : List (κ × α)) : Nat := rows.foldr (fun r n => f r.2 + n) 0

theorem total_one (rows : List (κ × α)) : total (fun _ => 1) rows = rows.length := by
  induction rows with
  | nil => rfl
  | cons r rest ih =>
    simp only [total, List.foldr_cons, List.length_cons] at ih ⊢
    omega

/-- A value set anew counts instead of the one that was there. -/
theorem total_insert [Ordered κ] (f : α → Nat) (k : κ) (v : α) {rows : List (κ × α)} (h : Sorted rows) :
    total f (insert k v rows) + ((get? k rows).map f).getD 0 = total f rows + f v := by
  induction rows with
  | nil => simp [total, insert, get?]
  | cons r rest ih =>
    obtain ⟨k', v'⟩ := r
    obtain ⟨hk, hrest⟩ := List.pairwise_cons.1 h
    have ih := ih hrest
    simp only [total] at ih
    simp only [insert, get?]
    split
    · simp only [total, List.foldr_cons, Option.map_some, Option.getD_some]
      omega
    · split
      · rename_i hlt
        rw [get?_eq_none_of_before fun r hr => Ordered.trans hlt (hk r hr)]
        simp only [total, List.foldr_cons, Option.map_none, Option.getD_none]
        omega
      · simp only [total, List.foldr_cons]
        omega

end Rows

/-! ## Appends -/

/-- How many entries a call appends, to whichever stream. -/
def Call.appends : Call → Nat
  | .stream (.append _ _) => 1
  | _ => 0

theorem Call.adds_of_appends {c : Call} (h : c.appends = 0) (stream : String) :
    c.adds stream = [] := by
  cases c with
  | key c => rfl
  | stream c =>
    cases c with
    | append name fields => cases h
    | _ => rfl

theorem Call.exists_append {c : Call} (h : c.appends ≠ 0) :
    ∃ stream fields, c = .stream (.append stream fields) := by
  cases c with
  | key c => exact absurd rfl h
  | stream c =>
    cases c with
    | append stream fields => exact ⟨stream, fields, rfl⟩
    | _ => exact absurd rfl h

/-! ## Stores that announce entries -/

/-- A read for new entries. -/
abbrev newRead (stream group consumer : String) (count : Nat) (block : Span) : StreamCall :=
  .readGroup stream group consumer .new count block

/-- On the way from one state to another nothing becomes new to a group without a
sign. `unread` says how many entries are new to the group, if it is there. -/
structure Backend.Discloses {σ : Type} (b : Backend σ) (unread : σ → Option Nat) (s s' : σ) :
    Prop where
  counted : b.entryCount s ≤ b.entryCount s'
  /-- A group stays, and what becomes new to it shows in the count. -/
  kept {n : Nat} : unread s = some n →
    ∃ n', unread s' = some n' ∧ (b.entryCount s' = b.entryCount s → n' ≤ n)

namespace Backend.Discloses

variable {σ : Type} {b : Backend σ} {unread : σ → Option Nat} {s s' : σ}

theorem refl (s : σ) : b.Discloses unread s s :=
  ⟨Nat.le_refl _, fun {n} h => ⟨n, h, fun _ => Nat.le_refl n⟩⟩

/-- Only an append brings a group something new, and each is counted. -/
theorem of_appends {appends : Nat} (hcount : b.entryCount s' = b.entryCount s + appends)
    (hkept : ∀ n, unread s = some n → ∃ n', unread s' = some n' ∧ (appends = 0 → n' ≤ n)) :
    b.Discloses unread s s' := by
  refine ⟨by omega, fun {n} hn => ?_⟩
  obtain ⟨n', hn', hle⟩ := hkept n hn
  exact ⟨n', hn', fun heq => hle (by omega)⟩

end Backend.Discloses

/-- What the readers of a group rely on while others act on the store. `Room`
holds of a state with what is still to be done. -/
structure Backend.Announces {σ δ : Type} (b : Backend σ) (act : (now : Nat) → δ → σ → σ)
    (stream group : String) (unread : σ → Option Nat) (Room : List (Nat × δ) → σ → Prop) :
    Prop where
  room {x : Nat × δ} {rest : List (Nat × δ)} {s : σ} (now : Nat) :
    Room (x :: rest) s → Room rest (act now x.2 s)
  discloses {x : Nat × δ} {rest : List (Nat × δ)} {s : σ} (now : Nat) :
    Room (x :: rest) s → b.Discloses unread s (act now x.2 s)
  missing {s : σ} (consumer : String) (count now : Nat) (block : Span) : unread s = none →
    b.streamCall (newRead stream group consumer count block) now s
      = (.error (.noSuchGroup stream group), s)
  nothing {s : σ} (consumer : String) (count now : Nat) (block : Span) : unread s = some 0 →
    b.streamCall (newRead stream group consumer count block) now s = (.ok [], s)
  something {todo : List (Nat × δ)} {s : σ} {n count : Nat} (consumer : String) (now : Nat)
    (block : Span) : Room todo s → unread s = some (n + 1) → 1 ≤ count → ∃ e rest,
      (b.streamCall (newRead stream group consumer count block) now s).1 = .ok (e :: rest)

/-- What a call leaves of a state. -/
def Backend.leaves {σ : Type} (b : Backend σ) (now : Nat) (c : Call) (s : σ) : σ :=
  (b.call now c s).2

/-! ## Nested stores -/

namespace Nested

variable {s : Store} {stream group : String}

/-- How many entries are new to a group. -/
def Store.unread (stream group : String) (s : Store) : Option Nat :=
  (s.groupOf stream group).map (fun g => (s.log stream).length - g.cursor)

theorem unread_eq_some {n : Nat} (h : s.unread stream group = some n) :
    ∃ g, s.groupOf stream group = some g ∧ (s.log stream).length - g.cursor = n :=
  Option.map_eq_some_iff.1 h

theorem entryCount_eq (s : Store) :
    backend.entryCount s = Rows.total (fun x : Stream => x.log.length) s.streams.rows := by
  simp only [backend, Table.values, List.foldr_map, Rows.total]

theorem entryCount_setStream (s : Store) (name : String) (x : Stream) :
    backend.entryCount (s.setStream name x) + (s.log name).length
      = backend.entryCount s + x.log.length := by
  have htotal := Rows.total_insert (fun x : Stream => x.log.length) name x s.streams.sorted
  have hlog : ((Rows.get? name s.streams.rows).map (fun x : Stream => x.log.length)).getD 0
      = (s.log name).length := by
    unfold Store.log Store.stream Table.get?
    cases Rows.get? name s.streams.rows <;> rfl
  rw [hlog] at htotal
  rw [entryCount_eq, entryCount_eq]
  exact htotal

theorem entryCount_setGroup (s : Store) (stream group : String) (g : Group) :
    backend.entryCount (s.setGroup stream group g) = backend.entryCount s := by
  have hcount := entryCount_setStream s stream
    { s.stream stream with groups := (s.stream stream).groups.insert group g }
  simp only [Store.log] at hcount
  rw [Store.setGroup]
  omega

theorem entryCount_onGroup {α : Type} (s : Store) (stream group : String)
    (f : List Fields → Group → α × Group) :
    backend.entryCount (s.onGroup stream group f).2 = backend.entryCount s := by
  cases hg : s.groupOf stream group with
  | none => rw [onGroup_none f hg]
  | some g =>
    rw [onGroup_some f hg]
    exact entryCount_setGroup _ _ _ _

theorem entryCount_streamCall (c : StreamCall) (now : Nat) (s : Store) :
    backend.entryCount (streamCall c now s).2 = backend.entryCount s + (Call.stream c).appends := by
  cases c with
  | append stream fields =>
    have hcount := entryCount_setStream s stream
      { s.stream stream with log := (s.stream stream).log ++ [fields] }
    simp only [Store.log, List.length_append, List.length_singleton] at hcount
    simp only [streamCall, Call.appends]
    omega
  | createGroup stream group start =>
    cases hg : s.groupOf stream group with
    | some g => rw [createGroup_some hg]; rfl
    | none => rw [createGroup_none hg]; exact entryCount_setGroup _ _ _ _
  | readGroup stream group consumer mode count block =>
    cases mode with
    | new => exact entryCount_onGroup _ _ _ _
    | pending after => exact entryCount_onGroup _ _ _ _
  | ack stream group ids => exact entryCount_onGroup _ _ _ _
  | claimIdle stream group consumer minIdle count => exact entryCount_onGroup _ _ _ _
  | pending stream group => rw [streamCall_pending]; rfl

/-- A read that finds nothing leaves the store as it is. -/
theorem readNew_nothing {g : Group} (hg : s.groupOf stream group = some g)
    (h : (s.log stream).length ≤ g.cursor) (consumer : String) (count now : Nat) :
    s.onGroup stream group (readNew consumer count now) = (.ok [], s) := by
  rw [onGroup_some _ hg, readNew_idle h]
  have hstream : s.streams.get? stream = some (s.stream stream) := by
    unfold Store.groupOf Store.stream at *
    cases hs : s.streams.get? stream with
    | some x => rfl
    | none =>
      rw [hs] at hg
      cases hg
  have hself : s.setGroup stream group g = s := by
    have hgroups : (s.stream stream).groups.insert group g = (s.stream stream).groups :=
      Table.insert_eq_self hg
    simp only [Store.setGroup, Store.setStream, hgroups, Table.insert_eq_self hstream]
  rw [hself]

/-- Nested stores announce what is new, in any state. -/
theorem announces (stream group : String) : backend.Announces backend.leaves stream group
    (Store.unread stream group) (fun _ _ => True) where
  room _ _ := trivial
  discloses {x rest s} now _ := by
    obtain ⟨now', c⟩ := x
    cases c with
    | key c => exact ⟨Nat.le_refl _, fun {n} hn => ⟨n, hn, fun _ => Nat.le_refl n⟩⟩
    | stream c =>
      refine .of_appends (entryCount_streamCall c now s) fun n hn => ?_
      obtain ⟨g, hg, hn⟩ := unread_eq_some hn
      obtain ⟨g', hg', hle⟩ := groupOf_onward hg c now
      refine ⟨_, congrArg (Option.map _) hg', fun happends => ?_⟩
      have hnone : c.adds stream = [] := Call.adds_of_appends happends stream
      show ((streamCall c now s).2.log stream).length - g'.cursor ≤ n
      rw [log_streamCall, hnone, List.append_nil]
      omega
  missing {s} consumer count now block h := onGroup_none _ (Option.map_eq_none_iff.1 h)
  nothing {s} consumer count now block h := by
    obtain ⟨g, hg, hn⟩ := unread_eq_some h
    exact readNew_nothing hg (by omega) consumer count now
  something {todo s n count} consumer now block _ h hcount := by
    obtain ⟨g, hg, hn⟩ := unread_eq_some h
    have hlength := length_freshEntries (s.log stream) g.cursor count
    obtain ⟨e, rest, hfresh⟩ := List.exists_cons_of_length_pos (by omega :
      0 < (freshEntries (s.log stream) g.cursor count).length)
    refine ⟨e, rest, ?_⟩
    rw [← hfresh]
    exact congrArg Prod.fst (onGroup_some _ hg)

end Nested

/-! ## Flat stores -/

namespace Flat

variable {s : Store} {stream group : String}

/-- How many entries are new to a group. -/
def Store.unread (stream group : String) (s : Store) : Option Nat :=
  (s.cursors.get? ⟨stream, group⟩).map (fun cursor => s.lastId stream - cursor)

theorem unread_eq_some {n : Nat} (h : s.unread stream group = some n) :
    ∃ cursor, s.cursors.get? ⟨stream, group⟩ = some cursor ∧ s.lastId stream - cursor = n :=
  Option.map_eq_some_iff.1 h

theorem hasNew_eq (s : Store) (stream : String) (cursor : Nat) :
    s.hasNew stream cursor = decide (cursor < s.lastId stream) := by
  unfold Store.hasNew Store.lastId
  cases s.lastIds.get? stream <;> simp

/-- The state holds the same entries, and all groups that were there have come
at least as far. -/
structure Onward (s s' : Store) : Prop where
  entries : s'.entries = s.entries
  lastIds : s'.lastIds = s.lastIds
  cursors : ∀ key cursor, s.cursors.get? key = some cursor →
    ∃ cursor', s'.cursors.get? key = some cursor' ∧ cursor ≤ cursor'

namespace Onward

theorem deliveries (s : Store) (deliveries : Table DeliveryKey Delivery) :
    Onward s { s with deliveries } :=
  ⟨rfl, rfl, fun _ cursor h => ⟨cursor, h, Nat.le_refl _⟩⟩

theorem refl (s : Store) : Onward s s := .deliveries s s.deliveries

theorem trans {s s' s'' : Store} (h : Onward s s') (h' : Onward s' s'') : Onward s s'' := by
  refine ⟨h'.entries.trans h.entries, h'.lastIds.trans h.lastIds, fun key cursor hc => ?_⟩
  obtain ⟨cursor', hc', hle⟩ := h.cursors key cursor hc
  obtain ⟨cursor'', hc'', hle'⟩ := h'.cursors key cursor' hc'
  exact ⟨cursor'', hc'', hle.trans hle'⟩

theorem onGroup {α : Type} {f : Nat → Store → α × Store}
    (hf : ∀ cursor, s.cursors.get? ⟨stream, group⟩ = some cursor → Onward s (f cursor s).2) :
    Onward s (s.onGroup stream group f).2 := by
  unfold Store.onGroup
  cases hg : s.cursors.get? ⟨stream, group⟩ with
  | none => exact .refl s
  | some cursor => exact hf cursor hg

theorem restamp (consumer : String) (now : Nat) (rows : List (Nat × Delivery)) (s : Store) :
    Onward s (restamp stream group consumer now rows s).2 := by
  induction rows generalizing s with
  | nil => exact .refl s
  | cons r rest ih =>
    obtain ⟨id, d⟩ := r
    simp only [Flat.restamp]
    split
    · exact ih s
    · exact (Onward.deliveries s _).trans (ih _)

theorem readNew (consumer : String) (count now : Nat) {cursor : Nat}
    (hc : s.cursors.get? ⟨stream, group⟩ = some cursor) :
    Onward s (readNew stream group consumer cursor count now s).2 := by
  unfold Flat.readNew
  simp only
  split
  · exact .refl s
  · rename_i tail htail
    -- the last entry that was found lies beyond the cursor
    have hle : cursor ≤ tail.id := by
      obtain ⟨⟨⟨name, id⟩, fields⟩, hr, rfl⟩ := List.mem_map.1 (List.mem_of_getLast? htail)
      have hrange := List.mem_of_mem_take hr
      obtain rfl : name = stream := Table.fst_of_mem_range _ hrange
      have := (Table.mem_range_iff.1 hrange).2.1
      show cursor ≤ id
      omega
    refine ⟨rfl, rfl, fun key cursor' hkey => ?_⟩
    rw [Table.get?_insert]
    split
    · rename_i hk
      rw [hk, hc] at hkey
      cases hkey
      exact ⟨_, rfl, hle⟩
    · exact ⟨cursor', hkey, Nat.le_refl _⟩

theorem createGroup (start : GroupStart) (now : Nat) (s : Store) :
    Onward s (streamCall (.createGroup stream group start) now s).2 := by
  simp only [Flat.streamCall]
  split
  · exact .refl s
  · rename_i hnew
    refine ⟨rfl, rfl, fun key cursor hkey => ⟨cursor, ?_, Nat.le_refl _⟩⟩
    rw [Table.get?_insert, if_neg]
    · exact hkey
    · rintro rfl
      rw [Table.contains, hkey] at hnew
      exact hnew rfl

/-- Every call but an append only takes groups onward. -/
theorem streamCall {c : StreamCall} (hc : (Call.stream c).appends = 0) (now : Nat) (s : Store) :
    Onward s (streamCall c now s).2 := by
  cases c with
  | append stream fields => cases hc
  | createGroup stream group start => exact .createGroup start now s
  | readGroup stream group consumer mode count block =>
    cases mode with
    | new =>
      refine .onGroup fun cursor hcursor => ?_
      split
      · exact .readNew consumer count now hcursor
      · exact .refl s
    | pending after => exact .onGroup fun _ _ => .restamp _ _ _ s
  | ack stream group ids => exact .onGroup fun _ _ => .deliveries s _
  | claimIdle stream group consumer minIdle count => exact .onGroup fun _ _ => .restamp _ _ _ s
  | pending stream group => exact .onGroup fun _ _ => .refl s

theorem call {c : Call} (hc : c.appends = 0) (now : Nat) (s : Store) :
    Onward s (backend.call now c s).2 := by
  cases c with
  | key c => exact ⟨rfl, rfl, fun _ cursor h => ⟨cursor, h, Nat.le_refl _⟩⟩
  | stream c => exact streamCall hc now s

end Onward

/-- The state mirrors a nested store, and the ids of 64 bits last for what is
still to be appended. -/
def RoomFor (calls : List (Nat × Call)) (s : Store) : Prop :=
  ∃ n, Mirrors n s ∧ ∀ stream,
    (n.log stream).length + (calls.flatMap (fun x => x.2.adds stream)).length ≤ maxId

/-- Only appends take room. -/
theorem roomFor_cons_iff {x : Nat × Call} {rest : List (Nat × Call)} (h : x.2.appends = 0) :
    RoomFor (x :: rest) s ↔ RoomFor rest s := by
  simp only [RoomFor, List.flatMap_cons, Call.adds_of_appends h, List.nil_append]

theorem roomFor_after {calls rest : List (Nat × Call)} (h : Room (calls ++ rest)) :
    RoomFor rest (backend.after calls) := by
  have hcalls : Room calls := fun stream => by
    have := h stream
    rw [List.flatMap_append, List.length_append] at this
    omega
  obtain ⟨n, hn, hlog⟩ := mirrored_after hcalls
  refine ⟨n, hn, fun stream => ?_⟩
  rw [hlog, ← List.length_append, ← List.flatMap_append]
  exact h stream

theorem RoomFor.call {x : Nat × Call} {rest : List (Nat × Call)} (h : RoomFor (x :: rest) s)
    (now : Nat) : RoomFor rest (backend.call now x.2 s).2 := by
  obtain ⟨n, hn, hroom⟩ := h
  simp only [List.flatMap_cons, List.length_append] at hroom
  obtain ⟨n', hn', hlog, _⟩ := hn.booked x.2 now fun stream => by
    have := hroom stream
    omega
  refine ⟨n', hn', fun stream => ?_⟩
  rw [hlog, List.length_append]
  have := hroom stream
  omega

/-- An append takes a row of its own. -/
theorem entryCount_append {n : Nested.Store} (h : Mirrors n s) (stream : String) (fields : Fields)
    (now : Nat) : backend.entryCount (streamCall (.append stream fields) now s).2
      = backend.entryCount s + 1 := by
  have hnone : s.entries.get? ⟨stream, s.lastId stream + 1⟩ = none := by
    rw [h.entries, if_neg (Nat.succ_ne_zero _), h.lastId]
    simp
  have htotal := Rows.total_insert (fun _ => 1) ⟨stream, s.lastId stream + 1⟩ fields
    s.entries.sorted
  have hrow : Rows.get? ⟨stream, s.lastId stream + 1⟩ s.entries.rows = none := hnone
  rw [hrow, Rows.total_one, Rows.total_one] at htotal
  exact htotal

theorem fst_readNew {n : Nested.Store} (h : Mirrors n s) (consumer : String)
    (cursor count now : Nat) : (readNew stream group consumer cursor count now s).1
      = Nested.freshEntries (n.log stream) cursor count := by
  rw [← h.batch_eq]
  unfold readNew
  simp only
  split <;> rfl

/-- Flat stores announce what is new while their ids last. -/
theorem announces (stream group : String) : backend.Announces backend.leaves stream group
    (Store.unread stream group) RoomFor where
  room now h := h.call now
  discloses {x rest s} now h := by
    obtain ⟨now', c⟩ := x
    obtain ⟨nested, hmirror, -⟩ := h
    by_cases hc : c.appends = 0
    · have honward := Onward.call hc now s
      have hcount : backend.entryCount (backend.leaves now c s) = backend.entryCount s + 0 :=
        congrArg Table.size honward.entries
      refine .of_appends hcount fun n hn => ?_
      obtain ⟨cursor, hcursor, hn⟩ := unread_eq_some hn
      obtain ⟨cursor', hcursor', hle⟩ := honward.cursors _ cursor hcursor
      refine ⟨_, congrArg (Option.map _) hcursor', fun _ => ?_⟩
      show (backend.call now c s).2.lastId stream - cursor' ≤ n
      rw [Store.lastId, honward.lastIds, ← Store.lastId]
      omega
    · obtain ⟨name, fields, rfl⟩ := Call.exists_append hc
      refine .of_appends (entryCount_append hmirror name fields now) fun n hn => ?_
      obtain ⟨cursor, hcursor, -⟩ := unread_eq_some hn
      exact ⟨_, congrArg (Option.map _) hcursor, fun hnone => absurd hnone Nat.one_ne_zero⟩
  missing {s} consumer count now block h := by
    have hnone := Option.map_eq_none_iff.1 h
    simp only [backend, streamCall, Store.onGroup, hnone]
  nothing {s} consumer count now block h := by
    obtain ⟨cursor, hcursor, hn⟩ := unread_eq_some h
    have hold : s.hasNew stream cursor = false := by
      rw [hasNew_eq]
      exact decide_eq_false (by omega)
    simp only [backend, streamCall, Store.onGroup, hcursor, hold]
    rfl
  something {todo s n count} consumer now block h hn hcount := by
    obtain ⟨cursor, hcursor, hn⟩ := unread_eq_some hn
    obtain ⟨nested, hmirror, -⟩ := h
    have hnew : s.hasNew stream cursor = true := by
      rw [hasNew_eq]
      exact decide_eq_true (by omega)
    have hlength := Nested.length_freshEntries (nested.log stream) cursor count
    rw [← hmirror.lastId] at hlength
    obtain ⟨e, rest, hfresh⟩ := List.exists_cons_of_length_pos (by omega :
      0 < (Nested.freshEntries (nested.log stream) cursor count).length)
    refine ⟨e, rest, ?_⟩
    simp only [backend, streamCall, Store.onGroup, hcursor, hnew, if_true,
      fst_readNew hmirror, hfresh]

end Flat

end LifecycleLog
