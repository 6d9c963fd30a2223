-- What a consumer holds: the ids that are pending in a group under its name.
-- Only a read for new entries and a claim, both its own, give it more. A read
-- of its pending entries returns what it holds, in order, and changes none of
-- it; an acknowledgement takes away what it names.
import LifecycleLog.Proofs.Store.Groups

namespace LifecycleLog

/-- The calls that may give entries to a consumer of a group. -/
def StreamCall.GivesTo (stream group consumer : String) : StreamCall → Prop
  | .readGroup name name' reader .new _ _ => name = stream ∧ name' = group ∧ reader = consumer
  | .claimIdle name name' taker _ _ => name = stream ∧ name' = group ∧ taker = consumer
  | _ => False

namespace Nested

def Group.held (g : Group) (consumer : String) : List Nat :=
  (g.pending.filter (fun d => d.consumer = consumer)).map (·.id)

def Store.held (s : Store) (stream group consumer : String) : List Nat :=
  ((s.groupOf stream group).map (fun g => g.held consumer)).getD []

/-! ## Holdings of a group -/

theorem held_sublist (g : Group) (consumer : String) : (g.held consumer).Sublist g.ids :=
  List.filter_sublist.map _

theorem Group.Good.held_sorted {log : List Fields} {g : Group} (h : g.Good log)
    (consumer : String) : (g.held consumer).Pairwise (· < ·) :=
  h.sorted.sublist (held_sublist g consumer)

theorem held_readNew (consumer : String) (count now : Nat) (log : List Fields) (g : Group) :
    (readNew consumer count now log g).2.held consumer
      = g.held consumer ++ (readNew consumer count now log g).1.map (·.id) := by
  simp [readNew, Group.held, freshDeliveries, List.filter_map, Function.comp_def]

theorem held_readNew_other {consumer reader : String} (h : reader ≠ consumer) (count now : Nat)
    (log : List Fields) (g : Group) :
    (readNew reader count now log g).2.held consumer = g.held consumer := by
  simp [readNew, Group.held, freshDeliveries, List.filter_map, Function.comp_def, h]

/-- Deliveries made again to the consumer that has them leave each with it. -/
theorem held_of_kept_own {reader : String} {now : Nat} {pick : Delivery → Bool}
    (hp : ∀ d, pick d = true → d.consumer = reader) {ds ds' : List Delivery}
    (h : List.Forall₂ (Kept reader now pick) ds ds') (cursor cursor' : Nat) (consumer : String) :
    Group.held ⟨cursor', ds'⟩ consumer = Group.held ⟨cursor, ds⟩ consumer := by
  simp only [Group.held]
  induction h with
  | nil => rfl
  | @cons d _ _ _ hd _ ih =>
    rcases hd with rfl | ⟨hd, rfl⟩
    · simp only [List.filter_cons]
      split <;> simp [ih]
    · simp only [List.filter_cons, hp d hd]
      split <;> simp [ih]

/-- Deliveries made to another consumer may only take from this one. -/
theorem held_of_kept_other {consumer taker : String} (h : taker ≠ consumer) {now : Nat}
    {pick : Delivery → Bool} {ds ds' : List Delivery}
    (hk : List.Forall₂ (Kept taker now pick) ds ds') (cursor cursor' : Nat) :
    (Group.held ⟨cursor', ds'⟩ consumer).Sublist (Group.held ⟨cursor, ds⟩ consumer) := by
  simp only [Group.held]
  induction hk with
  | nil => exact .slnil
  | cons hd _ ih =>
    rcases hd with rfl | ⟨_, rfl⟩
    · simp only [List.filter_cons]
      split
      · simpa using ih
      · exact ih
    · simp only [List.filter_cons, h, decide_false, Bool.false_eq_true, if_false]
      split
      · exact ih.cons _
      · exact ih

/-- A read of pending entries leaves each with its consumer. -/
theorem held_readPending (reader : String) (after count now : Nat) (log : List Fields) (g : Group)
    (consumer : String) :
    (readPending reader after count now log g).2.held consumer = g.held consumer := by
  refine held_of_kept_own ?_ (forall₂_redeliver _ _ _ _ _ _) _ _ _
  intro d hd
  simp only [Bool.and_eq_true, decide_eq_true_eq] at hd
  exact hd.2

/-- The first `count` entries that the consumer holds beyond `after`. -/
theorem map_id_readPending {log : List Fields} {g : Group} (h : g.Good log) (consumer : String)
    (after count now : Nat) : (readPending consumer after count now log g).1.map (·.id)
      = ((g.held consumer).filter (fun id => after < id)).take count := by
  simp only [readPending, Group.held, map_id_redeliver_entries h.isSome, List.filter_map,
    List.map_take, List.filter_filter, Function.comp_def]

theorem held_claim {consumer taker : String} (h : taker ≠ consumer) (minIdle : Span)
    (count now : Nat) (log : List Fields) (g : Group) :
    ((claim taker minIdle count now log g).2.held consumer).Sublist (g.held consumer) :=
  held_of_kept_other h (forall₂_redeliver _ _ _ _ _ _) _ _

theorem held_acknowledge (ids : List Nat) (g : Group) (consumer : String) :
    Group.held { g with pending := (acknowledge ids g.pending).2 } consumer
      = (g.held consumer).filter (fun id => id ∉ ids) := by
  simp only [Group.held, acknowledge_eq_filter, List.filter_map, List.filter_filter,
    Function.comp_def]
  congr 1
  apply List.filter_congr
  intro d _
  rw [Bool.and_comm]

/-! ## Holdings in a store -/

variable {s : Store} {stream group consumer : String}

theorem held_some {g : Group} (h : s.groupOf stream group = some g) :
    s.held stream group consumer = g.held consumer := by
  rw [Store.held, h]
  rfl

theorem held_none (h : s.groupOf stream group = none) : s.held stream group consumer = [] := by
  rw [Store.held, h]
  rfl

theorem held_setGroup (g : Group) :
    (s.setGroup stream group g).held stream group consumer = g.held consumer :=
  held_some (by rw [groupOf_setGroup, if_pos ⟨rfl, rfl⟩])

theorem Store.Good.held_sorted (h : s.Good) (stream group consumer : String) :
    (s.held stream group consumer).Pairwise (· < ·) := by
  cases hg : s.groupOf stream group with
  | none => simp [held_none hg]
  | some g =>
    rw [held_some hg]
    exact (h stream group g hg).held_sorted consumer

theorem Store.Good.held_positive (h : s.Good) {id : Nat} (hid : id ∈ s.held stream group consumer) :
    0 < id := by
  cases hg : s.groupOf stream group with
  | none => simp [held_none hg] at hid
  | some g =>
    rw [held_some hg] at hid
    exact (h stream group g hg).positive id ((held_sublist g consumer).subset hid)

/-- A change of a group that gives the consumer nothing. -/
theorem held_onGroup_sublist {α : Type} {name name' : String} {f : List Fields → Group → α × Group}
    (hf : name = stream → name' = group →
      ∀ log g, ((f log g).2.held consumer).Sublist (g.held consumer)) :
    ((s.onGroup name name' f).2.held stream group consumer).Sublist
      (s.held stream group consumer) := by
  by_cases hn : (name, name') = (stream, group)
  · cases hn
    cases hg : s.groupOf stream group with
    | none =>
      rw [onGroup_none f hg]
    | some g =>
      rw [onGroup_some f hg, held_setGroup, held_some hg]
      exact hf rfl rfl _ _
  · rw [Store.held, groupOf_onGroup f hn]
    exact .refl _

/-- A call that gives the consumer nothing may only take from it. -/
theorem held_streamCall {c : StreamCall} (h : ¬ c.GivesTo stream group consumer) (now : Nat)
    (s : Store) : ((streamCall c now s).2.held stream group consumer).Sublist
      (s.held stream group consumer) := by
  cases c with
  | append name fields =>
    rw [Store.held, groupOf_append]
    exact .refl _
  | createGroup name name' start =>
    cases hg : s.groupOf name name' with
    | some g => rw [createGroup_some hg]
    | none =>
      rw [createGroup_none hg, Store.held, groupOf_setGroup]
      split
      · simp [Group.held]
      · exact .refl _
  | readGroup name name' reader mode count block =>
    cases mode with
    | new =>
      refine held_onGroup_sublist fun hn hn' log g => ?_
      rw [held_readNew_other (fun hr => h ⟨hn, hn', hr⟩)]
    | pending after =>
      refine held_onGroup_sublist fun _ _ log g => ?_
      rw [held_readPending]
  | ack name name' ids =>
    refine held_onGroup_sublist fun _ _ log g => ?_
    rw [held_acknowledge]
    exact List.filter_sublist
  | claimIdle name name' taker minIdle count =>
    exact held_onGroup_sublist fun hn hn' log g =>
      held_claim (fun ht => h ⟨hn, hn', ht⟩) minIdle count now log g
  | pending name name' => rw [streamCall_pending]

/-! ## The consumer's own calls -/

/-- A read for new entries that is answered gives the consumer its answer. -/
theorem held_of_readNew {count : Nat} {block : Span} {now : Nat} {entries : List Entry}
    {s' : Store} (h : streamCall (.readGroup stream group consumer .new count block) now s
      = (.ok entries, s')) :
    s'.held stream group consumer = s.held stream group consumer ++ entries.map (·.id) := by
  obtain ⟨g, hg, rfl, rfl⟩ := onGroup_ok h
  rw [held_setGroup, held_some hg, held_readNew]

/-- A read of pending entries that is answered returns what the consumer holds. -/
theorem held_of_readPending (hs : s.Good) {after count : Nat} {block : Span} {now : Nat}
    {entries : List Entry} {s' : Store}
    (h : streamCall (.readGroup stream group consumer (.pending after) count block) now s
      = (.ok entries, s')) :
    s'.held stream group consumer = s.held stream group consumer ∧ entries.map (·.id)
      = ((s.held stream group consumer).filter (fun id => after < id)).take count := by
  obtain ⟨g, hg, rfl, rfl⟩ := onGroup_ok h
  rw [held_setGroup, held_some hg, held_readPending]
  exact ⟨rfl, map_id_readPending (hs stream group g hg) _ _ _ _⟩

/-- An acknowledgement that is answered takes what it names. -/
theorem held_of_ack {ids : List Nat} {now n : Nat} {s' : Store}
    (h : streamCall (.ack stream group ids) now s = (.ok n, s')) :
    s'.held stream group consumer
      = (s.held stream group consumer).filter (fun id => id ∉ ids) := by
  obtain ⟨g, hg, _, rfl⟩ := onGroup_ok h
  rw [held_setGroup, held_some hg, held_acknowledge]

/-! ## Entries in hand -/

/-- The consumer holds the entry, which carries what was appended. -/
def Store.Carries (s : Store) (stream group consumer : String) (e : Entry) : Prop :=
  e.id ∈ s.held stream group consumer ∧ (s.log stream)[e.id - 1]? = some e.fields

theorem carries_of_readNew {count : Nat} {block : Span} {now : Nat} {entries : List Entry}
    {s' : Store} (h : streamCall (.readGroup stream group consumer .new count block) now s
      = (.ok entries, s')) : ∀ e ∈ entries, s'.Carries stream group consumer e := by
  intro e he
  constructor
  · rw [held_of_readNew h, List.mem_append]
    exact Or.inr (List.mem_map_of_mem he)
  · obtain ⟨g, hg, rfl, rfl⟩ := onGroup_ok h
    rw [log_setGroup]
    exact (mem_freshEntries he).2

theorem carries_of_readPending (hs : s.Good) {after count : Nat} {block : Span} {now : Nat}
    {entries : List Entry} {s' : Store}
    (h : streamCall (.readGroup stream group consumer (.pending after) count block) now s
      = (.ok entries, s')) : ∀ e ∈ entries, s'.Carries stream group consumer e := by
  intro e he
  constructor
  · obtain ⟨hheld, hids⟩ := held_of_readPending hs h
    have hm : e.id ∈ entries.map (·.id) := List.mem_map_of_mem he
    rw [hids] at hm
    rw [hheld]
    exact (List.mem_filter.1 (List.mem_of_mem_take hm)).1
  · obtain ⟨g, hg, rfl, rfl⟩ := onGroup_ok h
    rw [log_setGroup]
    obtain ⟨_, _, _, _, hf⟩ := mem_redeliver he
    exact hf

end Nested

end LifecycleLog
