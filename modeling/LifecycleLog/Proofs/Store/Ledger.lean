-- The accounts of a consumer group. A ledger is kept from the calls on a
-- store and their answers alone. It says what was appended to a stream, where
-- a group began, what its reads for new entries returned and what was
-- acknowledged. The store never disagrees with it: every entry past the
-- start is returned as new once and in order, and is then pending or
-- acknowledged, never both.
import LifecycleLog.Proofs.Store.Groups
import Mathlib.Data.List.Induction

namespace LifecycleLog

/-! ## Calls and answers -/

/-- A call and what it was answered. -/
structure Exchange where
  call : StreamCall
  answer : Except StoreError call.Answer

/-- The entries of a result that is about what is asked. -/
def entriesIf (asked : Prop) [Decidable asked] : Except StoreError (List Entry) → List Entry
  | .ok entries => if asked then entries else []
  | .error _ => []

/-- The entries of a group that the call delivered. -/
def Exchange.delivered (stream group : String) : Exchange → List Entry
  | ⟨.readGroup name name' _ _ _ _, answer⟩ => entriesIf (name = stream ∧ name' = group) answer
  | ⟨.claimIdle name name' _ _ _, answer⟩ => entriesIf (name = stream ∧ name' = group) answer
  | _ => []

/-! ## The ledger -/

/-- What calls and answers say of a stream and a group on it. -/
structure Ledger where
  /-- The ids that appends to the stream were answered. -/
  given : List Nat
  /-- What was appended to the stream. -/
  log : List Fields
  /-- Where the group began, once it was created. -/
  origin : Option Nat
  /-- The ids that reads for new entries returned, whoever read. -/
  fresh : List Nat
  /-- The ids that acknowledgements counted. -/
  settled : Finset Nat

namespace Ledger

def blank : Ledger := ⟨[], [], none, [], ∅⟩

/-- The ids that wait for their acknowledgement. -/
def outstanding (l : Ledger) : Finset Nat := l.fresh.toFinset \ l.settled

/-- Enters a call and its answer in the ledger of a stream and a group. A call
that failed is not entered. -/
def enter (stream group : String) (l : Ledger) : Exchange → Ledger
  | ⟨.append name fields, .ok id⟩ =>
    if name = stream then { l with given := l.given ++ [id], log := l.log ++ [fields] } else l
  | ⟨.createGroup name name' start, .ok true⟩ =>
    if name = stream ∧ name' = group then { l with origin := some (start.cursor l.log) } else l
  | ⟨.readGroup name name' _ .new _ _, .ok entries⟩ =>
    if name = stream ∧ name' = group then { l with fresh := l.fresh ++ entries.map (·.id) } else l
  | ⟨.ack name name' ids, .ok _⟩ =>
    if name = stream ∧ name' = group then
      { l with settled := l.settled ∪ (ids.toFinset ∩ l.outstanding) }
    else l
  | _ => l

end Ledger

namespace Nested

/-! ## Runs -/

/-- Makes a call at a time and writes its answer down. -/
def exchange (r : List Exchange × Store) (c : Nat × StreamCall) : List Exchange × Store :=
  (r.1 ++ [⟨c.2, (streamCall c.2 c.1 r.2).1⟩], (streamCall c.2 c.1 r.2).2)

/-- The exchanges of calls on an empty store, and the store they leave. -/
def exchanges (calls : List (Nat × StreamCall)) : List Exchange × Store :=
  calls.foldl exchange ([], empty)

def storeAfter (calls : List (Nat × StreamCall)) : Store := (exchanges calls).2

def ledgerAfter (stream group : String) (calls : List (Nat × StreamCall)) : Ledger :=
  (exchanges calls).1.foldl (Ledger.enter stream group) Ledger.blank

theorem storeAfter_snoc (calls : List (Nat × StreamCall)) (now : Nat) (c : StreamCall) :
    storeAfter (calls ++ [(now, c)]) = (streamCall c now (storeAfter calls)).2 := by
  simp [storeAfter, exchanges, exchange]

theorem good_storeAfter (calls : List (Nat × StreamCall)) : (storeAfter calls).Good := by
  induction calls using List.reverseRecOn with
  | nil => exact good_empty
  | append_singleton calls c ih =>
    rw [storeAfter_snoc]
    exact ih.streamCall c.2 c.1

theorem ledgerAfter_snoc (stream group : String) (calls : List (Nat × StreamCall)) (now : Nat)
    (c : StreamCall) : ledgerAfter stream group (calls ++ [(now, c)]) =
      (ledgerAfter stream group calls).enter stream group
        ⟨c, (streamCall c now (storeAfter calls)).1⟩ := by
  simp [ledgerAfter, storeAfter, exchanges, exchange]

/-! ## The ledger agrees with the store -/

/-- A group and the ledger of its calls: it began at `origin`, everything from
there up to the cursor was returned as new, and what is pending is what the
ledger has open. -/
structure Balanced (g : Group) (l : Ledger) (origin : Nat) : Prop where
  origin_le : origin ≤ g.cursor
  cursor_le : g.cursor ≤ l.log.length
  fresh : l.fresh = List.range' (origin + 1) (g.cursor - origin)
  settled : l.settled ⊆ l.fresh.toFinset
  ids : g.ids.toFinset = l.outstanding

structure Agrees (stream group : String) (s : Store) (l : Ledger) : Prop where
  log : s.log stream = l.log
  given : l.given = List.range' 1 l.log.length
  absent : l.origin = none → s.groupOf stream group = none ∧ l.fresh = [] ∧ l.settled = ∅
  present : ∀ origin, l.origin = some origin →
    ∃ g, s.groupOf stream group = some g ∧ Balanced g l origin

variable {stream group : String} {s s' : Store} {l : Ledger}

theorem agrees_blank : Agrees stream group empty Ledger.blank :=
  ⟨rfl, rfl, fun _ => ⟨rfl, rfl, rfl⟩, fun _ h => nomatch h⟩

theorem Agrees.origin_some (h : Agrees stream group s l) {g : Group}
    (hg : s.groupOf stream group = some g) :
    ∃ origin, l.origin = some origin ∧ Balanced g l origin := by
  cases ho : l.origin with
  | none =>
    rw [(h.absent ho).1] at hg
    cases hg
  | some origin =>
    obtain ⟨g', hg', hb⟩ := h.present origin ho
    rw [hg] at hg'
    cases hg'
    exact ⟨origin, rfl, hb⟩

theorem Agrees.origin_none (h : Agrees stream group s l)
    (hg : s.groupOf stream group = none) : l.origin = none := by
  cases ho : l.origin with
  | none => rfl
  | some origin =>
    obtain ⟨g, hg', _⟩ := h.present origin ho
    rw [hg] at hg'
    cases hg'

/-- A call that changes neither the log nor the group, and is not entered. -/
theorem Agrees.frame (h : Agrees stream group s l) (hl : s'.log stream = s.log stream)
    (hg : s'.groupOf stream group = s.groupOf stream group) : Agrees stream group s' l :=
  ⟨hl.trans h.log, h.given, fun ho => hg ▸ h.absent ho, fun origin ho => hg ▸ h.present origin ho⟩

/-- An append moves no cursor. -/
theorem Agrees.append (h : Agrees stream group s l) {fields : Fields}
    (hl : s'.log stream = s.log stream ++ [fields])
    (hg : s'.groupOf stream group = s.groupOf stream group) :
    Agrees stream group s'
      { l with given := l.given ++ [(s.log stream).length + 1], log := l.log ++ [fields] } := by
  refine ⟨by rw [hl, h.log], ?_, fun ho => hg ▸ h.absent ho, ?_⟩
  · rw [h.given, h.log, List.length_append, List.length_singleton, List.range'_concat]
    simp [Nat.add_comm]
  · intro origin ho
    obtain ⟨g, hg', hb⟩ := h.present origin ho
    refine ⟨g, hg.trans hg', hb.origin_le, ?_, hb.fresh, hb.settled, hb.ids⟩
    have := hb.cursor_le
    simp only [List.length_append, List.length_singleton]
    omega

theorem Agrees.created (h : Agrees stream group s l) (hnone : s.groupOf stream group = none)
    {start : GroupStart} (hl : s'.log stream = s.log stream)
    (hg : s'.groupOf stream group = some ⟨start.cursor (s.log stream), []⟩) :
    Agrees stream group s' { l with origin := some (start.cursor l.log) } := by
  obtain ⟨_, hf, hs⟩ := h.absent (h.origin_none hnone)
  refine ⟨hl.trans h.log, h.given, fun ho => (nomatch ho), ?_⟩
  intro origin ho
  cases ho
  refine ⟨_, hg, ?_⟩
  rw [h.log]
  constructor
  · exact Nat.le_refl _
  · cases start <;> simp [GroupStart.cursor]
  · simp [hf]
  · simp [hs]
  · simp [Ledger.outstanding, Group.ids, hf]

/-- The group takes a new form that the ledger, after its entry, balances. -/
theorem Agrees.moved (h : Agrees stream group s l) {g' : Group} {l' : Ledger} {origin : Nat}
    (ho : l.origin = some origin) (hl' : l'.log = l.log) (hgiven : l'.given = l.given)
    (ho' : l'.origin = l.origin) (hb : Balanced g' l' origin) :
    Agrees stream group (s.setGroup stream group g') l' := by
  refine ⟨?_, ?_, ?_, ?_⟩
  · rw [log_setGroup, h.log, hl']
  · rw [hgiven, hl', h.given]
  · intro hn
    rw [ho', ho] at hn
    cases hn
  · intro origin' hn
    rw [ho', ho] at hn
    cases hn
    refine ⟨g', ?_, hb⟩
    rw [groupOf_setGroup, if_pos ⟨rfl, rfl⟩]

/-! ## What each call does to a balanced group -/

theorem Balanced.le_cursor {g : Group} {origin id : Nat} (h : Balanced g l origin)
    (hid : id ∈ l.fresh) : id ≤ g.cursor := by
  have := h.origin_le
  rw [h.fresh, List.mem_range'_1] at hid
  omega

theorem Balanced.readNew {g : Group} {origin : Nat} (h : Balanced g l origin) (consumer : String)
    (count now : Nat) :
    Balanced (readNew consumer count now l.log g).2
      { l with fresh := l.fresh ++ (readNew consumer count now l.log g).1.map (·.id) } origin := by
  have hlen := length_freshEntries l.log g.cursor count
  have hnew : ∀ id ∈ (freshEntries l.log g.cursor count).map (·.id), g.cursor < id := by
    intro id hid
    rw [map_id_freshEntries, List.mem_range'_1] at hid
    omega
  have h₁ := h.origin_le
  have h₂ := h.cursor_le
  constructor
  · simp only [Nested.readNew]
    omega
  · simp only [Nested.readNew]
    omega
  · simp only [Nested.readNew, h.fresh]
    rw [map_id_freshEntries]
    have hs : g.cursor + 1 = origin + 1 + (g.cursor - origin) := by omega
    rw [hs, List.range'_append_1]
    congr 1
    omega
  · intro id hid
    have := h.settled hid
    simp only [List.toFinset_append, Finset.mem_union]
    exact Or.inl this
  · rw [ids_readNew, List.toFinset_append, h.ids]
    simp only [Ledger.outstanding, List.toFinset_append, Finset.union_sdiff_distrib]
    congr 1
    -- nothing past the cursor is settled yet
    refine (Finset.sdiff_eq_self_of_disjoint (Finset.disjoint_left.2 ?_)).symm
    intro id hid hs
    have h₃ := hnew id (List.mem_toFinset.1 hid)
    have h₄ := h.le_cursor (List.mem_toFinset.1 (h.settled hs))
    omega

/-- What is delivered again stays where it was in the ledger. -/
theorem Balanced.redelivered {g g' : Group} {origin : Nat} (h : Balanced g l origin)
    (hids : g'.ids = g.ids) (hc : g'.cursor = g.cursor) : Balanced g' l origin :=
  ⟨hc ▸ h.origin_le, hc ▸ h.cursor_le, hc ▸ h.fresh, h.settled, hids ▸ h.ids⟩

theorem Balanced.acknowledge {g : Group} {origin : Nat} (h : Balanced g l origin)
    (ids : List Nat) :
    Balanced { g with pending := (acknowledge ids g.pending).2 }
      { l with settled := l.settled ∪ (ids.toFinset ∩ l.outstanding) } origin := by
  refine ⟨h.origin_le, h.cursor_le, h.fresh, ?_, ?_⟩
  · refine Finset.union_subset h.settled ?_
    exact Finset.inter_subset_right.trans Finset.sdiff_subset
  · have hids : ∀ id, id ∈ g.ids ↔ id ∈ l.fresh ∧ id ∉ l.settled := by
      intro id
      rw [← List.mem_toFinset, h.ids]
      simp [Ledger.outstanding]
    have hkeep : ∀ id, id ∈ Group.ids { g with pending := (Nested.acknowledge ids g.pending).2 } ↔
        id ∈ g.ids ∧ id ∉ ids := by
      intro id
      simp only [Group.ids, acknowledge_eq_filter, List.mem_map, List.mem_filter,
        decide_eq_true_eq]
      constructor
      · rintro ⟨d, ⟨hd, hn⟩, rfl⟩
        exact ⟨⟨d, hd, rfl⟩, hn⟩
      · rintro ⟨⟨d, hd, rfl⟩, hn⟩
        exact ⟨d, ⟨hd, hn⟩, rfl⟩
    ext id
    rw [List.mem_toFinset, hkeep, hids]
    simp only [Ledger.outstanding, Finset.mem_sdiff, Finset.mem_union, Finset.mem_inter,
      List.mem_toFinset]
    tauto

/-! ## Every call is entered rightly -/

theorem enter_error (c : StreamCall) (e : StoreError) :
    l.enter stream group ⟨c, .error e⟩ = l := by
  cases c with
  | readGroup name name' consumer mode count block => cases mode <;> rfl
  | _ => rfl

/-- A call on another group, or on another stream, is not entered. -/
theorem enter_eq_self {c : StreamCall} (answer : Except StoreError c.Answer)
    (ht : c.target ≠ some (stream, group)) (ha : c.adds stream = []) :
    l.enter stream group ⟨c, answer⟩ = l := by
  have hne : ∀ {name name' : String}, some (name, name') ≠ some (stream, group) →
      ¬ (name = stream ∧ name' = group) := by
    rintro name name' h ⟨rfl, rfl⟩
    exact h rfl
  cases answer with
  | error e => exact enter_error c e
  | ok answer =>
    cases c with
    | append name fields =>
      have hn : name ≠ stream := by
        rintro rfl
        simp [StreamCall.adds] at ha
      simp [Ledger.enter, hn]
    | createGroup name name' start =>
      cases answer with
      | false => rfl
      | true => simp [Ledger.enter, hne ht]
    | readGroup name name' consumer mode count block =>
      cases mode with
      | new => simp [Ledger.enter, hne ht]
      | pending after => rfl
    | ack name name' ids => simp [Ledger.enter, hne ht]
    | claimIdle name name' consumer minIdle count => rfl
    | pending name name' => rfl

/-- A call on the group while it is not there fails, or creates it. -/
theorem Agrees.step_none (h : Agrees stream group s l) (hg : s.groupOf stream group = none)
    {c : StreamCall} (ht : c.target = some (stream, group)) (now : Nat) :
    Agrees stream group (streamCall c now s).2
      (l.enter stream group ⟨c, (streamCall c now s).1⟩) := by
  cases c with
  | append name fields => cases ht
  | createGroup name name' start =>
    cases ht
    rw [createGroup_none hg]
    simp only [Ledger.enter, and_self, if_true]
    refine h.created hg (log_setGroup _ _ _ _ _) ?_
    rw [groupOf_setGroup, if_pos ⟨rfl, rfl⟩]
  | readGroup name name' consumer mode count block =>
    cases ht
    cases mode with
    | new =>
      simp only [streamCall, onGroup_none _ hg]
      exact h
    | pending after =>
      simp only [streamCall, onGroup_none _ hg]
      exact h
  | ack name name' ids =>
    cases ht
    simp only [streamCall, onGroup_none _ hg]
    exact h
  | claimIdle name name' consumer minIdle count =>
    cases ht
    simp only [streamCall, onGroup_none _ hg]
    exact h
  | pending name name' =>
    rw [streamCall_pending]
    cases (streamCall (.pending name name') now s).1 <;> exact h

theorem Agrees.step_some (h : Agrees stream group s l) {g : Group}
    (hg : s.groupOf stream group = some g) {c : StreamCall}
    (ht : c.target = some (stream, group)) (now : Nat) :
    Agrees stream group (streamCall c now s).2
      (l.enter stream group ⟨c, (streamCall c now s).1⟩) := by
  obtain ⟨origin, ho, hb⟩ := h.origin_some hg
  cases c with
  | append name fields => cases ht
  | createGroup name name' start =>
    cases ht
    rw [createGroup_some hg]
    exact h
  | readGroup name name' consumer mode count block =>
    cases ht
    cases mode with
    | new =>
      simp only [streamCall, onGroup_some _ hg, Ledger.enter, and_self, if_true, h.log]
      exact h.moved ho rfl rfl rfl (hb.readNew consumer count now)
    | pending after =>
      simp only [streamCall, onGroup_some _ hg]
      exact h.moved ho rfl rfl rfl (hb.redelivered (ids_readPending _ _ _ _ _ _) rfl)
  | ack name name' ids =>
    cases ht
    simp only [streamCall, onGroup_some _ hg, Ledger.enter, and_self, if_true]
    exact h.moved ho rfl rfl rfl (hb.acknowledge ids)
  | claimIdle name name' consumer minIdle count =>
    cases ht
    simp only [streamCall, onGroup_some _ hg]
    exact h.moved ho rfl rfl rfl (hb.redelivered (ids_claim _ _ _ _ _ _) rfl)
  | pending name name' =>
    rw [streamCall_pending]
    cases (streamCall (.pending name name') now s).1 <;> exact h

theorem Agrees.step (h : Agrees stream group s l) (c : StreamCall) (now : Nat) :
    Agrees stream group (streamCall c now s).2
      (l.enter stream group ⟨c, (streamCall c now s).1⟩) := by
  by_cases ht : c.target = some (stream, group)
  · cases hg : s.groupOf stream group with
    | none => exact h.step_none hg ht now
    | some g => exact h.step_some hg ht now
  · have hg := groupOf_streamCall ht now s
    have hl := log_streamCall c now s stream
    by_cases ha : c.adds stream = []
    · rw [enter_eq_self _ ht ha]
      exact h.frame (by rw [hl, ha, List.append_nil]) hg
    · cases c with
      | append name fields =>
        by_cases hn : name = stream
        · subst hn
          simp only [StreamCall.adds, if_true] at hl
          simp only [streamCall, Ledger.enter, if_true] at hl hg ⊢
          exact h.append hl hg
        · simp [StreamCall.adds, hn] at ha
      | _ => exact absurd rfl ha

theorem agrees_after (stream group : String) (calls : List (Nat × StreamCall)) :
    Agrees stream group (storeAfter calls) (ledgerAfter stream group calls) := by
  induction calls using List.reverseRecOn with
  | nil => exact agrees_blank
  | append_singleton calls c ih =>
    obtain ⟨now, c⟩ := c
    rw [storeAfter_snoc, ledgerAfter_snoc]
    exact ih.step c now

/-! ## Deliveries -/

theorem mem_entriesIf {name name' : String} {f : List Fields → Group → List Entry × Group}
    {e : Entry} (he : e ∈ entriesIf (name = stream ∧ name' = group) (s.onGroup name name' f).1) :
    ∃ g, s.groupOf stream group = some g ∧ e ∈ (f (s.log stream) g).1 := by
  cases hg : s.groupOf name name' with
  | none =>
    rw [onGroup_none f hg] at he
    cases he
  | some g =>
    rw [onGroup_some f hg] at he
    simp only [entriesIf] at he
    split at he
    · rename_i hn
      obtain ⟨rfl, rfl⟩ := hn
      exact ⟨g, hg, he⟩
    · cases he

/-- What a call delivers of a group was appended under its id, and is new to
the group or pending in it. -/
theorem mem_delivered {c : StreamCall} {now : Nat} {e : Entry}
    (he : e ∈ Exchange.delivered stream group ⟨c, (streamCall c now s).1⟩) :
    ∃ g, s.groupOf stream group = some g ∧ (s.log stream)[e.id - 1]? = some e.fields ∧
      (g.cursor < e.id ∨ e.id ∈ g.ids) := by
  have hagain : ∀ (g : Group) (consumer : String) (pick : Delivery → Bool) (count : Nat),
      e ∈ (redeliver (s.log stream) consumer now pick count g.pending).1 →
      (s.log stream)[e.id - 1]? = some e.fields ∧ (g.cursor < e.id ∨ e.id ∈ g.ids) := by
    intro g consumer pick count hm
    obtain ⟨d, hd, _, hid, hf⟩ := mem_redeliver hm
    exact ⟨hf, Or.inr (hid ▸ List.mem_map_of_mem hd)⟩
  cases c with
  | readGroup name name' consumer mode count block =>
    cases mode with
    | new =>
      obtain ⟨g, hg, hm⟩ := mem_entriesIf he
      obtain ⟨hlt, hf⟩ := mem_freshEntries hm
      exact ⟨g, hg, hf, Or.inl hlt⟩
    | pending after =>
      obtain ⟨g, hg, hm⟩ := mem_entriesIf he
      exact ⟨g, hg, hagain g _ _ _ hm⟩
  | claimIdle name name' consumer minIdle count =>
    obtain ⟨g, hg, hm⟩ := mem_entriesIf he
    exact ⟨g, hg, hagain g _ _ _ hm⟩
  | _ => cases he

/-- What a call delivers of a group is not acknowledged. -/
theorem Agrees.delivered (h : Agrees stream group s l) {c : StreamCall} {now : Nat} {e : Entry}
    (he : e ∈ Exchange.delivered stream group ⟨c, (streamCall c now s).1⟩) :
    0 < e.id ∧ l.log[e.id - 1]? = some e.fields ∧ e.id ∉ l.settled := by
  obtain ⟨g, hg, hf, hid⟩ := mem_delivered he
  obtain ⟨origin, _, hb⟩ := h.origin_some hg
  rw [h.log] at hf
  rcases hid with hlt | hm
  · refine ⟨by omega, hf, fun hs => ?_⟩
    have := hb.le_cursor (List.mem_toFinset.1 (hb.settled hs))
    omega
  · have hout : e.id ∈ l.outstanding := hb.ids ▸ List.mem_toFinset.2 hm
    obtain ⟨hfresh, hn⟩ := Finset.mem_sdiff.1 hout
    rw [List.mem_toFinset, hb.fresh, List.mem_range'_1] at hfresh
    exact ⟨by omega, hf, hn⟩

theorem enter_settled_subset (x : Exchange) : l.settled ⊆ (l.enter stream group x).settled := by
  obtain ⟨c, answer⟩ := x
  cases answer with
  | error e => rw [enter_error]
  | ok answer =>
    cases c with
    | append name fields =>
      simp only [Ledger.enter]
      split <;> exact Finset.Subset.refl _
    | createGroup name name' start =>
      cases answer with
      | false => exact Finset.Subset.refl _
      | true =>
        simp only [Ledger.enter]
        split <;> exact Finset.Subset.refl _
    | readGroup name name' consumer mode count block =>
      cases mode with
      | new =>
        simp only [Ledger.enter]
        split <;> exact Finset.Subset.refl _
      | pending after => exact Finset.Subset.refl _
    | ack name name' ids =>
      simp only [Ledger.enter]
      split
      · exact Finset.subset_union_left
      · exact Finset.Subset.refl _
    | claimIdle name name' consumer minIdle count => exact Finset.Subset.refl _
    | pending name name' => exact Finset.Subset.refl _

/-- What is acknowledged stays so. -/
theorem settled_subset (stream group : String) (calls more : List (Nat × StreamCall)) :
    (ledgerAfter stream group calls).settled
      ⊆ (ledgerAfter stream group (calls ++ more)).settled := by
  induction more using List.reverseRecOn with
  | nil => rw [List.append_nil]
  | append_singleton more c ih =>
    obtain ⟨now, c⟩ := c
    rw [← List.append_assoc, ledgerAfter_snoc]
    exact ih.trans (enter_settled_subset _)

theorem exchanges_snoc (calls : List (Nat × StreamCall)) (now : Nat) (c : StreamCall) :
    (exchanges (calls ++ [(now, c)])).1 =
      (exchanges calls).1 ++ [⟨c, (streamCall c now (storeAfter calls)).1⟩] := by
  simp [storeAfter, exchanges, exchange]

/-- Every delivery of a run carries what was appended under its id. -/
theorem delivered_after (stream group : String) (calls : List (Nat × StreamCall)) :
    ∀ x ∈ (exchanges calls).1, ∀ e ∈ x.delivered stream group,
      0 < e.id ∧ (ledgerAfter stream group calls).log[e.id - 1]? = some e.fields := by
  induction calls using List.reverseRecOn with
  | nil =>
    intro x hx
    cases hx
  | append_singleton calls c ih =>
    obtain ⟨now, c⟩ := c
    have hlog : (ledgerAfter stream group (calls ++ [(now, c)])).log =
        (ledgerAfter stream group calls).log ++ c.adds stream := by
      rw [← (agrees_after stream group calls).log, ← (agrees_after stream group _).log,
        storeAfter_snoc, log_streamCall]
    have hkeep : ∀ e : Entry, (ledgerAfter stream group calls).log[e.id - 1]? = some e.fields →
        (ledgerAfter stream group (calls ++ [(now, c)])).log[e.id - 1]? = some e.fields := by
      intro e hf
      obtain ⟨hlt, _⟩ := List.getElem?_eq_some_iff.1 hf
      rw [hlog, List.getElem?_append_left hlt]
      exact hf
    intro x hx e he
    rw [exchanges_snoc, List.mem_append, List.mem_singleton] at hx
    rcases hx with hx | rfl
    · obtain ⟨hpos, hf⟩ := ih x hx e he
      exact ⟨hpos, hkeep e hf⟩
    · obtain ⟨hpos, hf, _⟩ := (agrees_after stream group calls).delivered he
      exact ⟨hpos, hkeep e hf⟩

/-! ## The accounts -/

/-- What calls on an empty store, and their answers, say of a stream and of a
group on it. -/
structure Accounts (stream group : String) (calls : List (Nat × StreamCall)) (s : Store)
    (l : Ledger) : Prop where
  /-- Appends were answered 1, 2, 3 and so on, and the store holds what they
  appended. -/
  given : l.given = List.range' 1 l.log.length ∧ s.log stream = l.log
  /-- The group is there once it was created, where `origin` says. All of its
  reads for new entries together returned the ids past `origin` up to the
  cursor, in order; and each of these is either pending or acknowledged. -/
  reads : ∀ origin, l.origin = some origin → ∃ g, s.groupOf stream group = some g ∧
    origin ≤ g.cursor ∧ g.cursor ≤ l.log.length ∧
    l.fresh = List.range' (origin + 1) (g.cursor - origin) ∧
    (∀ id, origin < id → id ≤ g.cursor → (id ∈ g.ids ↔ id ∉ l.settled)) ∧
    ∀ id, id ∈ g.ids ∨ id ∈ l.settled → origin < id ∧ id ≤ g.cursor
  /-- An acknowledgement counts what it takes off the pending list. -/
  counted : ∀ now ids, l.origin.isSome →
    (streamCall (.ack stream group ids) now s).1 = .ok (ids.toFinset ∩ l.outstanding).card
  /-- Whatever calls follow, what is acknowledged is never pending again, and no
  call delivers it. -/
  final : ∀ more, ∀ id ∈ l.settled,
    (∀ g, (storeAfter (calls ++ more)).groupOf stream group = some g → id ∉ g.ids) ∧
    ∀ c now, ∀ e ∈ Exchange.delivered stream group
      ⟨c, (streamCall c now (storeAfter (calls ++ more))).1⟩, e.id ≠ id
  /-- Every delivery carried the fields appended under its id. -/
  carried : ∀ x ∈ (exchanges calls).1, ∀ e ∈ x.delivered stream group,
    0 < e.id ∧ l.log[e.id - 1]? = some e.fields
  /-- A group is created once. -/
  created : ∀ start now,
    (streamCall (.createGroup stream group start) now s).1 = .ok l.origin.isNone ∧
      (l.origin.isSome → (streamCall (.createGroup stream group start) now s).2 = s)

theorem Balanced.mem_ids {g : Group} {origin id : Nat} (h : Balanced g l origin) :
    id ∈ g.ids ↔ id ∈ l.fresh ∧ id ∉ l.settled := by
  rw [← List.mem_toFinset, h.ids, Ledger.outstanding, Finset.mem_sdiff, List.mem_toFinset]

theorem Agrees.counted (h : Agrees stream group s l) (now : Nat) (ids : List Nat)
    (ho : l.origin.isSome) :
    (streamCall (.ack stream group ids) now s).1 = .ok (ids.toFinset ∩ l.outstanding).card := by
  obtain ⟨origin, ho⟩ := Option.isSome_iff_exists.1 ho
  obtain ⟨g, hg, hb⟩ := h.present origin ho
  simp only [streamCall, onGroup_some _ hg, acknowledge_eq_card, ← hb.ids]
  rfl

theorem Agrees.createdOnce (h : Agrees stream group s l) (start : GroupStart) (now : Nat) :
    (streamCall (.createGroup stream group start) now s).1 = .ok l.origin.isNone ∧
      (l.origin.isSome → (streamCall (.createGroup stream group start) now s).2 = s) := by
  cases hg : s.groupOf stream group with
  | none =>
    rw [createGroup_none hg, h.origin_none hg]
    exact ⟨rfl, fun hn => nomatch hn⟩
  | some g =>
    obtain ⟨origin, ho, _⟩ := h.origin_some hg
    rw [createGroup_some hg, ho]
    exact ⟨rfl, fun _ => rfl⟩

/-- A store accounts for every entry of every group, after any calls. -/
theorem a_group_accounts_for_every_entry (calls : List (Nat × StreamCall))
    (stream group : String) :
    Accounts stream group calls (storeAfter calls) (ledgerAfter stream group calls) := by
  have h := agrees_after stream group calls
  refine ⟨⟨h.given, h.log⟩, ?_, h.counted, ?_, delivered_after stream group calls, h.createdOnce⟩
  · intro origin ho
    obtain ⟨g, hg, hb⟩ := h.present origin ho
    have hfresh : ∀ id, id ∈ (ledgerAfter stream group calls).fresh ↔
        origin < id ∧ id ≤ g.cursor := by
      intro id
      have := hb.origin_le
      rw [hb.fresh, List.mem_range'_1]
      omega
    refine ⟨g, hg, hb.origin_le, hb.cursor_le, hb.fresh, ?_, ?_⟩
    · intro id hlt hle
      rw [hb.mem_ids]
      exact and_iff_right ((hfresh id).2 ⟨hlt, hle⟩)
    · rintro id (hid | hid)
      · exact (hfresh id).1 (hb.mem_ids.1 hid).1
      · exact (hfresh id).1 (List.mem_toFinset.1 (hb.settled hid))
  · intro more id hid
    have h' := agrees_after stream group (calls ++ more)
    have hs := settled_subset stream group calls more hid
    constructor
    · intro g hg hm
      obtain ⟨_, _, hb⟩ := h'.origin_some hg
      exact (hb.mem_ids.1 hm).2 hs
    · rintro c now e he rfl
      exact (h'.delivered he).2.2 hs

end Nested

end LifecycleLog
