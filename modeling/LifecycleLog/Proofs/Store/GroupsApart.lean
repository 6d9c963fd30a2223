-- Groups that do not notice each other. What a group and the producers of its
-- stream are answered depends on the log of the stream and on the group alone,
-- in a store of nested maps as in one of flat tables. So all calls on the keys,
-- on other streams and on other groups can be left out of a run, whatever they
-- are and however they end, and no other answer changes.
import LifecycleLog.Proofs.LeftOut
import LifecycleLog.Proofs.Store.Mirror
import LifecycleLog.Proofs.Store.Trails

namespace LifecycleLog

/-! ## Calls that concern a group -/

/-- The call names the group, or appends to its stream. -/
def StreamCall.concerns (stream group : String) : StreamCall → Bool
  | .append name _ => name = stream
  | c => c.target = some (stream, group)

def Call.concerns (stream group : String) : Call → Bool
  | .key _ => false
  | .stream c => c.concerns stream group

variable {stream group name name' : String}

theorem StreamCall.names_of_concerns {c : StreamCall} (hc : c.concerns stream group = true)
    (ht : c.target = some (name, name')) : name = stream ∧ name' = group := by
  cases c with
  | append _ _ => cases ht
  | _ =>
    obtain ⟨rfl, rfl⟩ : _ ∧ _ := by simpa [StreamCall.target] using ht
    simpa [StreamCall.concerns, StreamCall.target] using hc

theorem StreamCall.target_ne_of_not_concerns {c : StreamCall}
    (hc : c.concerns stream group = false) : c.target ≠ some (stream, group) := by
  cases c with
  | append name fields => exact fun ht => nomatch ht
  | _ => simpa [StreamCall.concerns] using hc

namespace Backend

variable {σ : Type} {b : Backend σ}

/-- Makes one call and tells how it ended. -/
def made (b : Backend σ) (x : Nat × Call) (s : σ) : Outcome × σ :=
  (⟨x.2, (b.call x.1 x.2 s).1⟩, (b.call x.1 x.2 s).2)

theorem outcomes_eq (calls : List (Nat × Call)) (s : σ) :
    b.outcomes calls s = (inTurn b.made calls s).1 := by
  induction calls generalizing s with
  | nil => rfl
  | cons x rest ih => exact congrArg _ (ih _)

/-- Where calls do not notice other calls, they are answered the same without. -/
theorem outcomes_filter (kept : Call → Bool) (Alike : σ → σ → Prop)
    (other : ∀ {c now s t}, kept c = false → Alike s t → Alike (b.call now c s).2 t)
    (same : ∀ {c now s t}, kept c = true → Alike s t →
      (b.call now c s).1 = (b.call now c t).1 ∧ Alike (b.call now c s).2 (b.call now c t).2)
    (calls : List (Nat × Call)) {s : σ} (hs : Alike s s) :
    (b.outcomes calls s).filter (fun o => kept o.call)
      = b.outcomes (calls.filter (fun x => kept x.2)) s := by
  have hover : Overlooks b.made (fun x => kept x.2) Alike calls := by
    refine ⟨fun _ hk h => other hk h, fun hk h => ?_⟩
    obtain ⟨hanswer, hnext⟩ := same hk h
    exact ⟨congrArg (Outcome.mk _) hanswer, hnext⟩
  rw [outcomes_eq, outcomes_eq]
  exact (hover.inTurn (fun _ _ => rfl) hs).1

end Backend

/-! ## Nested maps -/

namespace Nested

/-- The stores have the same log of the stream and the same group on it. -/
structure Alike (stream group : String) (s t : Store) : Prop where
  log : s.log stream = t.log stream
  group : s.groupOf stream group = t.groupOf stream group

variable {s t : Store}

theorem Alike.streamCall_other {c : StreamCall} (hc : c.concerns stream group = false)
    (h : Alike stream group s t) (now : Nat) : Alike stream group (streamCall c now s).2 t := by
  have hadds : c.adds stream = [] := by
    cases c with
    | append name fields =>
      have hne : name ≠ stream := by simpa [StreamCall.concerns] using hc
      simp [StreamCall.adds, hne]
    | _ => rfl
  refine ⟨?_, ?_⟩
  · rw [log_streamCall, hadds, List.append_nil]
    exact h.log
  · rw [groupOf_streamCall (StreamCall.target_ne_of_not_concerns hc)]
    exact h.group

theorem Alike.setGroup (h : Alike stream group s t) (g : Group) :
    Alike stream group (s.setGroup stream group g) (t.setGroup stream group g) := by
  refine ⟨?_, ?_⟩
  · rw [log_setGroup, log_setGroup]
    exact h.log
  · rw [groupOf_setGroup, groupOf_setGroup, if_pos ⟨rfl, rfl⟩, if_pos ⟨rfl, rfl⟩]

theorem Alike.onGroup {α : Type} (h : Alike stream group s t) (f : List Fields → Group → α × Group) :
    (s.onGroup stream group f).1 = (t.onGroup stream group f).1 ∧
      Alike stream group (s.onGroup stream group f).2 (t.onGroup stream group f).2 := by
  cases hg : s.groupOf stream group with
  | none =>
    rw [onGroup_none f hg, onGroup_none f (h.group ▸ hg)]
    exact ⟨rfl, h⟩
  | some g =>
    rw [onGroup_some f hg, onGroup_some f (h.group ▸ hg), h.log]
    exact ⟨rfl, h.setGroup _⟩

theorem Alike.streamCall_same {c : StreamCall} (hc : c.concerns stream group = true)
    (h : Alike stream group s t) (now : Nat) :
    (streamCall c now s).1 = (streamCall c now t).1 ∧
      Alike stream group (streamCall c now s).2 (streamCall c now t).2 := by
  cases c with
  | append name fields =>
    obtain rfl : name = stream := by simpa [StreamCall.concerns] using hc
    have hlength : (s.stream name).log.length + 1 = (t.stream name).log.length + 1 :=
      congrArg (fun log => log.length + 1) h.log
    refine ⟨congrArg Except.ok hlength, ?_, ?_⟩
    · rw [log_streamCall, log_streamCall, h.log]
    · rw [groupOf_append, groupOf_append]
      exact h.group
  | createGroup name name' start =>
    obtain ⟨rfl, rfl⟩ := StreamCall.names_of_concerns hc rfl
    cases hg : s.groupOf name name' with
    | none =>
      rw [createGroup_none hg, createGroup_none (h.group ▸ hg), h.log]
      exact ⟨rfl, h.setGroup _⟩
    | some g =>
      rw [createGroup_some hg, createGroup_some (h.group ▸ hg)]
      exact ⟨rfl, h⟩
  | readGroup name name' consumer mode count block =>
    obtain ⟨rfl, rfl⟩ := StreamCall.names_of_concerns hc rfl
    cases mode with
    | new => exact h.onGroup _
    | pending after => exact h.onGroup _
  | ack name name' ids =>
    obtain ⟨rfl, rfl⟩ := StreamCall.names_of_concerns hc rfl
    exact h.onGroup _
  | claimIdle name name' consumer minIdle count =>
    obtain ⟨rfl, rfl⟩ := StreamCall.names_of_concerns hc rfl
    exact h.onGroup _
  | pending name name' =>
    obtain ⟨rfl, rfl⟩ := StreamCall.names_of_concerns hc rfl
    rw [streamCall_pending, streamCall_pending]
    refine ⟨?_, h⟩
    simp only [streamCall, group?_eq, h.group]
    cases t.groupOf name name' <;> rfl

end Nested

/-! ## Flat tables -/

namespace Table

variable {α β γ : Type} [Ordered α] [Ordered β] {t t' : Table (Joined α β) γ} {x : α} {lo hi : β}

/-- Tables that have the same values between two keys have the same rows there. -/
theorem range_congr (h : ∀ k, ¬ k < lo → ¬ hi < k → t.get? ⟨x, k⟩ = t'.get? ⟨x, k⟩) :
    t.range ⟨x, lo⟩ ⟨x, hi⟩ = t'.range ⟨x, lo⟩ ⟨x, hi⟩ := by
  refine Rows.ext_mem (Rows.sorted_filter t.sorted) (Rows.sorted_filter t'.sorted) fun k v => ?_
  show (k, v) ∈ t.range ⟨x, lo⟩ ⟨x, hi⟩ ↔ (k, v) ∈ t'.range ⟨x, lo⟩ ⟨x, hi⟩
  obtain ⟨a, k⟩ := k
  constructor
  · intro hm
    obtain rfl : a = x := fst_of_mem_range _ hm
    obtain ⟨hv, hlo, hhi⟩ := mem_range_iff.1 hm
    exact mem_range_iff.2 ⟨h k hlo hhi ▸ hv, hlo, hhi⟩
  · intro hm
    obtain rfl : a = x := fst_of_mem_range _ hm
    obtain ⟨hv, hlo, hhi⟩ := mem_range_iff.1 hm
    exact mem_range_iff.2 ⟨(h k hlo hhi).symm ▸ hv, hlo, hhi⟩

end Table

namespace Flat

/-- The tables have the same deliveries of the group. -/
def SameDeliveries (stream group : String) (t t' : Table DeliveryKey Delivery) : Prop :=
  ∀ id, t.get? ⟨stream, group, id⟩ = t'.get? ⟨stream, group, id⟩

/-- The stores have the same entries and last id of the stream, and the same
cursor and deliveries of the group on it. -/
structure Alike (stream group : String) (s t : Store) : Prop where
  lastId : s.lastIds.get? stream = t.lastIds.get? stream
  entries : ∀ id, s.entries.get? ⟨stream, id⟩ = t.entries.get? ⟨stream, id⟩
  cursor : s.cursors.get? ⟨stream, group⟩ = t.cursors.get? ⟨stream, group⟩
  deliveries : SameDeliveries stream group s.deliveries t.deliveries

theorem Alike.refl (s : Store) : Alike stream group s s := ⟨rfl, fun _ => rfl, rfl, fun _ => rfl⟩

theorem Alike.trans {s t u : Store} (h : Alike stream group s t) (h' : Alike stream group t u) :
    Alike stream group s u :=
  ⟨h.lastId.trans h'.lastId, fun id => (h.entries id).trans (h'.entries id),
    h.cursor.trans h'.cursor, fun id => (h.deliveries id).trans (h'.deliveries id)⟩

variable {s t : Store} {consumer : String} {now : Nat}

/-! ### Changes of another group -/

theorem alike_onGroup_other {α : Type} {f : Nat → Store → α × Store}
    (hf : ∀ cursor s, Alike stream group (f cursor s).2 s) (s : Store) :
    Alike stream group (s.onGroup name name' f).2 s := by
  unfold Store.onGroup
  split
  · exact .refl s
  · exact hf _ s

section Other

variable (hn : ¬ (stream = name ∧ group = name'))
include hn

theorem sameDeliveries_insert (table : Table DeliveryKey Delivery) (id : Nat) (d : Delivery) :
    SameDeliveries stream group (table.insert ⟨name, name', id⟩ d) table := by
  intro i
  rw [Table.get?_insert, if_neg]
  intro hk
  cases hk
  exact hn ⟨rfl, rfl⟩

theorem sameDeliveries_foldl (record : Delivery) (batch : List Entry)
    (table : Table DeliveryKey Delivery) : SameDeliveries stream group
      (batch.foldl (fun t e => t.insert ⟨name, name', e.id⟩ record) table) table := by
  induction batch generalizing table with
  | nil => exact fun _ => rfl
  | cons e rest ih => exact fun i => (ih _ i).trans (sameDeliveries_insert hn _ _ _ i)

theorem sameDeliveries_acknowledge (ids : List Nat) (table : Table DeliveryKey Delivery) :
    SameDeliveries stream group (acknowledge name name' ids table).2 table := by
  induction ids generalizing table with
  | nil => exact fun _ => rfl
  | cons id rest ih =>
    refine fun i => (ih _ i).trans ?_
    rw [Table.get?_erase, if_neg]
    intro hk
    cases hk
    exact hn ⟨rfl, rfl⟩

theorem alike_readNew_other (cursor count : Nat) (s : Store) :
    Alike stream group (readNew name name' consumer cursor count now s).2 s := by
  unfold readNew
  simp only
  split
  · exact .refl s
  · refine ⟨rfl, fun _ => rfl, ?_, sameDeliveries_foldl hn _ _ _⟩
    rw [Table.get?_insert, if_neg]
    intro hk
    cases hk
    exact hn ⟨rfl, rfl⟩

theorem alike_restamp_other (rows : List (Nat × Delivery)) (s : Store) :
    Alike stream group (restamp name name' consumer now rows s).2 s := by
  induction rows generalizing s with
  | nil => exact .refl s
  | cons r rest ih =>
    obtain ⟨id, d⟩ := r
    simp only [restamp]
    split
    · exact ih s
    · exact (ih _).trans ⟨rfl, fun _ => rfl, rfl, sameDeliveries_insert hn _ _ _⟩

end Other

theorem alike_streamCall_other {c : StreamCall} (hc : c.concerns stream group = false)
    (now : Nat) (s : Store) : Alike stream group (streamCall c now s).2 s := by
  have hother : ∀ {name name'}, c.target = some (name, name') →
      ¬ (stream = name ∧ group = name') := by
    rintro name name' ht ⟨rfl, rfl⟩
    exact StreamCall.target_ne_of_not_concerns hc ht
  cases c with
  | append name fields =>
    have hn : stream ≠ name := by simpa [StreamCall.concerns, eq_comm] using hc
    refine ⟨?_, fun id => ?_, rfl, fun _ => rfl⟩
    · simp [streamCall, hn]
    · simp [streamCall, hn]
  | createGroup name name' start =>
    have hn : ¬ (stream = name ∧ group = name') := hother rfl
    simp only [streamCall]
    split
    · exact .refl s
    · refine ⟨rfl, fun _ => rfl, ?_, fun _ => rfl⟩
      simp [hn]
  | readGroup name name' consumer mode count block =>
    have hn : ¬ (stream = name ∧ group = name') := hother rfl
    cases mode with
    | new =>
      refine alike_onGroup_other (fun cursor s => ?_) s
      split
      · exact alike_readNew_other hn _ _ s
      · exact .refl s
    | pending after =>
      exact alike_onGroup_other (fun _ s => alike_restamp_other hn _ s) s
  | ack name name' ids =>
    have hn : ¬ (stream = name ∧ group = name') := hother rfl
    exact alike_onGroup_other
      (fun _ s => ⟨rfl, fun _ => rfl, rfl, sameDeliveries_acknowledge hn ids _⟩) s
  | claimIdle name name' consumer minIdle count =>
    have hn : ¬ (stream = name ∧ group = name') := hother rfl
    exact alike_onGroup_other (fun _ s => alike_restamp_other hn _ s) s
  | pending name name' =>
    have hn : ¬ (stream = name ∧ group = name') := hother rfl
    exact alike_onGroup_other (fun _ s => .refl s) s

/-! ### Steps of the group itself -/

namespace SameDeliveries

variable {table table' : Table DeliveryKey Delivery}

theorem insert (h : SameDeliveries stream group table table') (id : Nat) (d : Delivery) :
    SameDeliveries stream group (table.insert ⟨stream, group, id⟩ d)
      (table'.insert ⟨stream, group, id⟩ d) := by
  intro i
  rw [Table.get?_insert, Table.get?_insert, h i]

theorem foldl (h : SameDeliveries stream group table table') (record : Delivery)
    (batch : List Entry) : SameDeliveries stream group
      (batch.foldl (fun t e => t.insert ⟨stream, group, e.id⟩ record) table)
      (batch.foldl (fun t e => t.insert ⟨stream, group, e.id⟩ record) table') := by
  induction batch generalizing table table' with
  | nil => exact h
  | cons e rest ih => exact ih (h.insert e.id record)

theorem acknowledge (h : SameDeliveries stream group table table') (ids : List Nat) :
    (acknowledge stream group ids table).1 = (acknowledge stream group ids table').1 ∧
      SameDeliveries stream group (acknowledge stream group ids table).2
        (acknowledge stream group ids table').2 := by
  induction ids generalizing table table' with
  | nil => exact ⟨rfl, h⟩
  | cons id rest ih =>
    have herase : SameDeliveries stream group (table.erase ⟨stream, group, id⟩)
        (table'.erase ⟨stream, group, id⟩) := by
      intro i
      rw [Table.get?_erase, Table.get?_erase, h i]
    obtain ⟨hcount, hrest⟩ := ih herase
    have hheld : table.contains ⟨stream, group, id⟩ = table'.contains ⟨stream, group, id⟩ :=
      congrArg Option.isSome (h id)
    refine ⟨?_, hrest⟩
    simp only [Flat.acknowledge]
    rw [hheld, hcount]

end SameDeliveries

namespace Alike

variable (h : Alike stream group s t)
include h

theorem deliveriesFrom (first : Nat) :
    s.deliveriesFrom stream group first = t.deliveriesFrom stream group first := by
  refine Table.range_congr fun k hlo hhi => ?_
  obtain ⟨name, id⟩ := k
  obtain rfl : name = group := (Joined.between_iff.1 ⟨hlo, hhi⟩).1
  exact h.deliveries id

theorem readNew (cursor count : Nat) :
    (readNew stream group consumer cursor count now s).1
        = (readNew stream group consumer cursor count now t).1 ∧
      Alike stream group (readNew stream group consumer cursor count now s).2
        (readNew stream group consumer cursor count now t).2 := by
  have hrows : s.entries.range ⟨stream, cursor + 1⟩ ⟨stream, maxId⟩
      = t.entries.range ⟨stream, cursor + 1⟩ ⟨stream, maxId⟩ :=
    Table.range_congr fun id _ _ => h.entries id
  unfold Flat.readNew
  simp only [hrows]
  split
  · exact ⟨rfl, h⟩
  · refine ⟨rfl, h.lastId, h.entries, ?_, h.deliveries.foldl _ _⟩
    rw [Table.get?_insert, Table.get?_insert, h.cursor]

theorem restamp (rows : List (Nat × Delivery)) :
    (restamp stream group consumer now rows s).1 = (restamp stream group consumer now rows t).1 ∧
      Alike stream group (restamp stream group consumer now rows s).2
        (restamp stream group consumer now rows t).2 := by
  induction rows generalizing s t with
  | nil => exact ⟨rfl, h⟩
  | cons r rest ih =>
    obtain ⟨id, d⟩ := r
    simp only [Flat.restamp, h.entries id]
    cases t.entries.get? ⟨stream, id⟩ with
    | none => exact ih h
    | some fields =>
      have hstamped : ∀ d', Alike stream group
          { s with deliveries := s.deliveries.insert ⟨stream, group, id⟩ d' }
          { t with deliveries := t.deliveries.insert ⟨stream, group, id⟩ d' } := fun d' =>
        ⟨h.lastId, h.entries, h.cursor, h.deliveries.insert id d'⟩
      obtain ⟨hmore, hnext⟩ := ih (hstamped _)
      exact ⟨congrArg (List.cons _) hmore, hnext⟩

theorem redeliver (after count : Nat) (pick : Delivery → Bool) :
    (redeliver stream group consumer after count now pick s).1
        = (redeliver stream group consumer after count now pick t).1 ∧
      Alike stream group (redeliver stream group consumer after count now pick s).2
        (redeliver stream group consumer after count now pick t).2 := by
  unfold Flat.redeliver
  rw [h.deliveriesFrom]
  exact h.restamp _

theorem onGroup {α : Type} {f : Nat → Store → α × Store}
    (hf : ∀ cursor, (f cursor s).1 = (f cursor t).1 ∧
      Alike stream group (f cursor s).2 (f cursor t).2) :
    (s.onGroup stream group f).1 = (t.onGroup stream group f).1 ∧
      Alike stream group (s.onGroup stream group f).2 (t.onGroup stream group f).2 := by
  unfold Store.onGroup
  rw [h.cursor]
  split
  · exact ⟨rfl, h⟩
  · obtain ⟨hanswer, hnext⟩ := hf _
    exact ⟨congrArg Except.ok hanswer, hnext⟩

theorem streamCall_same {c : StreamCall} (hc : c.concerns stream group = true) (now : Nat) :
    (streamCall c now s).1 = (streamCall c now t).1 ∧
      Alike stream group (streamCall c now s).2 (streamCall c now t).2 := by
  have hlast : s.lastId stream = t.lastId stream := congrArg (Option.getD · 0) h.lastId
  cases c with
  | append name fields =>
    obtain rfl : name = stream := by simpa [StreamCall.concerns] using hc
    refine ⟨congrArg (fun last => Except.ok (last + 1)) hlast, ?_, fun id => ?_, h.cursor,
      h.deliveries⟩
    · simp only [streamCall, hlast, Table.get?_insert, if_pos]
    · simp only [streamCall, hlast, Table.get?_insert, h.entries]
  | createGroup name name' start =>
    obtain ⟨rfl, rfl⟩ := StreamCall.names_of_concerns hc rfl
    have hthere : s.cursors.contains ⟨name, name'⟩ = t.cursors.contains ⟨name, name'⟩ :=
      congrArg Option.isSome h.cursor
    simp only [streamCall, hthere, hlast]
    split
    · exact ⟨rfl, h⟩
    · refine ⟨rfl, h.lastId, h.entries, ?_, h.deliveries⟩
      simp only [Table.get?_insert, if_pos]
  | readGroup name name' consumer mode count block =>
    obtain ⟨rfl, rfl⟩ := StreamCall.names_of_concerns hc rfl
    cases mode with
    | new =>
      refine h.onGroup fun cursor => ?_
      have hnew : s.hasNew name cursor = t.hasNew name cursor := by
        rw [Store.hasNew, Store.hasNew, h.lastId]
      simp only [hnew]
      split
      · exact h.readNew cursor count
      · exact ⟨rfl, h⟩
    | pending after => exact h.onGroup fun _ => h.redeliver after count _
  | ack name name' ids =>
    obtain ⟨rfl, rfl⟩ := StreamCall.names_of_concerns hc rfl
    obtain ⟨hcount, hleft⟩ := h.deliveries.acknowledge ids
    exact h.onGroup fun _ => ⟨hcount, h.lastId, h.entries, h.cursor, hleft⟩
  | claimIdle name name' consumer minIdle count =>
    obtain ⟨rfl, rfl⟩ := StreamCall.names_of_concerns hc rfl
    exact h.onGroup fun _ => h.redeliver 0 count _
  | pending name name' =>
    obtain ⟨rfl, rfl⟩ := StreamCall.names_of_concerns hc rfl
    have hlisting : listing name name' now s = listing name name' now t := by
      rw [listing, listing, h.deliveriesFrom]
    exact h.onGroup (f := fun _ s => (listing name name' now s, s)) fun _ => ⟨hlisting, h⟩

end Alike

end Flat

/-! ## The main law -/

/-- Whatever a store holds, and whatever is called on it: those who append to a
stream and those who use a group on it are answered as if nothing else were
called, in a store of nested maps as in one of flat tables. -/
theorem a_group_is_answered_as_if_it_were_alone (stream group : String)
    (calls : List (Nat × Call)) :
    (∀ s, (Nested.backend.outcomes calls s).filter (fun o => o.call.concerns stream group)
      = Nested.backend.outcomes (calls.filter (fun x => x.2.concerns stream group)) s) ∧
    ∀ s, (Flat.backend.outcomes calls s).filter (fun o => o.call.concerns stream group)
      = Flat.backend.outcomes (calls.filter (fun x => x.2.concerns stream group)) s := by
  constructor
  · intro s
    refine Backend.outcomes_filter _ (Nested.Alike stream group) ?_ ?_ calls ⟨rfl, rfl⟩
    · intro c now s t hc h
      cases c with
      | key c => exact ⟨h.log, h.group⟩
      | stream c => exact h.streamCall_other hc now
    · intro c now s t hc h
      cases c with
      | key c => cases hc
      | stream c => exact h.streamCall_same hc now
  · intro s
    refine Backend.outcomes_filter _ (Flat.Alike stream group) ?_ ?_ calls (.refl s)
    · intro c now s t hc h
      cases c with
      | key c => exact ⟨h.lastId, h.entries, h.cursor, h.deliveries⟩
      | stream c => exact (Flat.alike_streamCall_other hc now s).trans h
    · intro c now s t hc h
      cases c with
      | key c => cases hc
      | stream c => exact h.streamCall_same hc now

end LifecycleLog
