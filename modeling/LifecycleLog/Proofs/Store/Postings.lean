-- What calls did in a group, going by their answers, and what a store notes of
-- the group. Where every call is booked, the notes tell of each entry that was
-- returned and not acknowledged since: who had it last, since when, and how
-- many calls returned it.
import LifecycleLog.Proofs.Store.Trails
import Mathlib.Data.List.Induction

namespace LifecycleLog

/-! ## Postings -/

/-- What a call did in a group. -/
inductive Posting
  | nothing
  | created
  | delivered (consumer : String) (entries : List Entry)
  | acknowledged (ids : List Nat)
  deriving DecidableEq

namespace Posting

/-- The call returned the entry. -/
def returns (id : Nat) : Posting → Bool
  | delivered _ entries => id ∈ entries.map (·.id)
  | _ => false

/-- The call acknowledged the entry. -/
def settles (id : Nat) : Posting → Bool
  | acknowledged ids => id ∈ ids
  | _ => false

end Posting

/-- What the call did in the group. A call that failed did nothing. -/
def Outcome.posting (stream group : String) : Outcome → Posting
  | ⟨.stream (.createGroup name name' _), .ok true⟩ =>
    if name = stream ∧ name' = group then .created else .nothing
  | ⟨.stream (.readGroup name name' consumer _ _ _), .ok entries⟩ =>
    if name = stream ∧ name' = group then .delivered consumer entries else .nothing
  | ⟨.stream (.claimIdle name name' consumer _ _), .ok entries⟩ =>
    if name = stream ∧ name' = group then .delivered consumer entries else .nothing
  | ⟨.stream (.ack name name' ids), .ok _⟩ =>
    if name = stream ∧ name' = group then .acknowledged ids else .nothing
  | _ => .nothing

/-- The calls that returned the entry. -/
def deliveriesOf (id : Nat) (past : List (Nat × Posting)) : List (Nat × Posting) :=
  past.filter (fun x => x.2.returns id)

/-- The entry was returned, and not acknowledged since. -/
def Outstanding (id : Nat) (past : List (Nat × Posting)) : Prop :=
  ∃ before x after, past = before ++ x :: after ∧ x.2.returns id = true ∧
    ∀ y ∈ after, y.2.settles id = false

section Past

variable {id : Nat} {past before after : List (Nat × Posting)} {x y : Nat × Posting}

theorem deliveriesOf_snoc (id : Nat) (past : List (Nat × Posting)) (x : Nat × Posting) :
    deliveriesOf id (past ++ [x])
      = if x.2.returns id then deliveriesOf id past ++ [x] else deliveriesOf id past := by
  cases h : x.2.returns id <;> simp [deliveriesOf, h]

theorem deliveriesOf_eq_nil (h : ∀ x ∈ past, x.2.returns id = false) :
    deliveriesOf id past = [] := by
  simpa [deliveriesOf] using h

/-- A place in a longer past is the new one, or a place in the past before. -/
theorem snoc_eq_append_cons_iff : past ++ [x] = before ++ y :: after ↔
    (before = past ∧ y = x ∧ after = []) ∨
      ∃ after', past = before ++ y :: after' ∧ after = after' ++ [x] := by
  constructor
  · intro h
    cases after using List.reverseRecOn with
    | nil =>
      obtain ⟨rfl, hy⟩ := List.append_inj' h rfl
      cases hy
      exact Or.inl ⟨rfl, rfl, rfl⟩
    | append_singleton after' z =>
      rw [← List.cons_append, ← List.append_assoc] at h
      obtain ⟨rfl, hz⟩ := List.append_inj' h rfl
      cases hz
      exact Or.inr ⟨after', rfl, rfl⟩
  · rintro (⟨rfl, rfl, rfl⟩ | ⟨after', rfl, rfl⟩)
    · rfl
    · simp

theorem outstanding_snoc : Outstanding id (past ++ [x]) ↔
    x.2.returns id = true ∨ Outstanding id past ∧ x.2.settles id = false := by
  constructor
  · rintro ⟨before, y, after, h, hy, hafter⟩
    obtain ⟨rfl, rfl, rfl⟩ | ⟨after', rfl, rfl⟩ := snoc_eq_append_cons_iff.1 h
    · exact Or.inl hy
    · refine Or.inr ⟨⟨before, y, after', rfl, hy, fun z hz => hafter z ?_⟩, hafter x ?_⟩
      · exact List.mem_append_left _ hz
      · simp
  · rintro (hx | ⟨⟨before, y, after, rfl, hy, hafter⟩, hx⟩)
    · exact ⟨past, x, [], rfl, hx, by simp⟩
    · refine ⟨before, y, after ++ [x], by simp, hy, fun z hz => ?_⟩
      rcases List.mem_append.1 hz with hz | hz
      · exact hafter z hz
      · rw [List.mem_singleton.1 hz]
        exact hx

theorem not_outstanding (h : ∀ x ∈ past, x.2.returns id = false) : ¬ Outstanding id past := by
  rintro ⟨before, x, after, rfl, hx, _⟩
  rw [h x (by simp)] at hx
  cases hx

end Past

/-! ## Notes -/

/-- What a store notes of an entry that waits for its acknowledgement. -/
structure Note where
  consumer : String
  since : Nat
  deliveries : Nat

/-- What a store notes of a group: how far it has read, and the entries that
wait. -/
structure Notes where
  cursor : Nat
  note? : Nat → Option Note

/-- How often the entry was delivered, going by its note. -/
def Notes.count (n : Notes) (id : Nat) : Nat := ((n.note? id).map (·.deliveries)).getD 0

/-- What a posting at a time changes in the notes. Before a group is created
there are none. -/
inductive Booked (time : Nat) : Posting → Option Notes → Option Notes → Prop
  | nothing (n : Option Notes) : Booked time .nothing n n
  | created (cursor : Nat) : Booked time .created none (some ⟨cursor, fun _ => none⟩)
  /-- Entries are taken from those that wait and from beyond the cursor. -/
  | delivered {n n' : Notes} {consumer : String} {entries : List Entry}
    (known : ∀ e ∈ entries, (n.note? e.id).isSome ∨ n.cursor < e.id)
    (counted : ∀ e ∈ entries, e.deliveries = n.count e.id + 1)
    (read : n.cursor ≤ n'.cursor ∧ ∀ e ∈ entries, e.id ≤ n'.cursor)
    (taken : ∀ e ∈ entries, n'.note? e.id = some ⟨consumer, time, n.count e.id + 1⟩)
    (kept : ∀ id ∉ entries.map (·.id), n'.note? id = n.note? id) :
    Booked time (.delivered consumer entries) (some n) (some n')
  | acknowledged {n n' : Notes} {ids : List Nat} (read : n'.cursor = n.cursor)
    (dropped : ∀ id ∈ ids, n'.note? id = none) (kept : ∀ id ∉ ids, n'.note? id = n.note? id) :
    Booked time (.acknowledged ids) (some n) (some n')

/-! ## Notes and what happened -/

/-- The note of an entry, going by what happened. The store keeps `time t` of a
clock reading `t`. -/
structure Told (time : Nat → Nat) (past : List (Nat × Posting)) (id : Nat) (note : Option Note) :
    Prop where
  waits : Outstanding id past → ∃ t consumer entries,
    (deliveriesOf id past).getLast? = some (t, .delivered consumer entries) ∧
      note = some ⟨consumer, time t, (deliveriesOf id past).length⟩
  settled : ¬ Outstanding id past → note = none

/-- Every entry was returned with the count of the calls that returned it until then. -/
def Reported (past : List (Nat × Posting)) : Prop :=
  ∀ before t consumer entries after, past = before ++ (t, .delivered consumer entries) :: after →
    ∀ e ∈ entries, e.deliveries = (deliveriesOf e.id before).length + 1

/-- The notes are those of what happened. -/
structure Matches (time : Nat → Nat) (past : List (Nat × Posting)) (notes : Option Notes) :
    Prop where
  absent : notes = none → ∀ x ∈ past, x.2 = .nothing
  present : notes.isSome → ∃ t, (t, Posting.created) ∈ past
  told : ∀ n, notes = some n → ∀ id, Told time past id (n.note? id)
  read : ∀ n, notes = some n → ∀ x ∈ past, ∀ id, x.2.returns id = true → id ≤ n.cursor
  reported : Reported past

section Matches

variable {time : Nat → Nat} {past : List (Nat × Posting)} {n : Notes} {notes notes' : Option Notes}
  {id t : Nat} {d : Posting}

theorem Told.isSome_iff {note : Option Note} (h : Told time past id note) :
    note.isSome ↔ Outstanding id past := by
  by_cases ho : Outstanding id past
  · obtain ⟨_, _, _, _, hnote⟩ := h.waits ho
    simp [hnote, ho]
  · simp [h.settled ho, ho]

/-- A posting that neither returns nor acknowledges the entry. -/
theorem Told.frame {note : Option Note} (h : Told time past id note) {x : Nat × Posting}
    (hr : x.2.returns id = false) (hs : x.2.settles id = false) :
    Told time (past ++ [x]) id note := by
  have hiff : Outstanding id (past ++ [x]) ↔ Outstanding id past := by
    simp [outstanding_snoc, hr, hs]
  have hsame : deliveriesOf id (past ++ [x]) = deliveriesOf id past := by
    simp [deliveriesOf_snoc, hr]
  constructor
  · rw [hiff, hsame]
    exact h.waits
  · rw [hiff]
    exact h.settled

/-- The count of an entry that waits, or that was never returned. -/
theorem Matches.count_eq (h : Matches time past (some n))
    (hid : (n.note? id).isSome ∨ n.cursor < id) : n.count id = (deliveriesOf id past).length := by
  have htold := h.told n rfl id
  rcases hid with hsome | hlt
  · obtain ⟨_, _, _, _, hnote⟩ := htold.waits (htold.isSome_iff.1 hsome)
    simp [Notes.count, hnote]
  · have hnever : ∀ x ∈ past, x.2.returns id = false := fun x hx => by
      rw [Bool.eq_false_iff]
      intro hr
      have := h.read n rfl x hx id hr
      omega
    simp [Notes.count, htold.settled (not_outstanding hnever), deliveriesOf_eq_nil hnever]

/-- A posting that returns nothing leaves those that return something. -/
theorem mem_of_mem_snoc {x : Nat × Posting} (hd : d.returns id = false) (hx : x ∈ past ++ [(t, d)])
    (hr : x.2.returns id = true) : x ∈ past := by
  rcases List.mem_append.1 hx with hx | hx
  · exact hx
  · rw [List.mem_singleton.1 hx, hd] at hr
    cases hr

theorem Reported.snoc (h : Reported past) (hd : ∀ id, d.returns id = false) :
    Reported (past ++ [(t, d)]) := by
  intro before t' consumer entries after hp e he
  obtain ⟨_, hx, _⟩ | ⟨after', hp', _⟩ := snoc_eq_append_cons_iff.1 hp
  · cases hx
    exact absurd (List.mem_map_of_mem he) (of_decide_eq_false (hd e.id))
  · exact h before t' consumer entries after' hp' e he

theorem matches_nil : Matches time [] none := by
  refine ⟨by simp, by simp, fun _ hn => (nomatch hn), fun _ hn => (nomatch hn), ?_⟩
  intro before t consumer entries after hp
  simp at hp

/-! ### One call more -/

theorem Matches.nothing (h : Matches time past notes) (t : Nat) :
    Matches time (past ++ [(t, .nothing)]) notes := by
  refine ⟨fun hn x hx => ?_, fun hs => ?_, fun n hn id => ?_, fun n hn x hx id hr => ?_,
    h.reported.snoc fun _ => rfl⟩
  · rcases List.mem_append.1 hx with hx | hx
    · exact h.absent hn x hx
    · rw [List.mem_singleton.1 hx]
  · obtain ⟨t', ht'⟩ := h.present hs
    exact ⟨t', List.mem_append_left _ ht'⟩
  · exact (h.told n hn id).frame rfl rfl
  · exact h.read n hn x (mem_of_mem_snoc rfl hx hr) id hr

/-- Until a group is created nothing happens in it. -/
theorem Matches.created (h : Matches time past none) (t cursor : Nat) :
    Matches time (past ++ [(t, .created)]) (some ⟨cursor, fun _ => none⟩) := by
  have hnever : ∀ x ∈ past ++ [(t, Posting.created)], ∀ id, x.2.returns id = false := by
    intro x hx id
    rw [Bool.eq_false_iff]
    intro hr
    rw [h.absent rfl x (mem_of_mem_snoc rfl hx hr)] at hr
    cases hr
  refine ⟨fun hn => (nomatch hn), fun _ => ⟨t, by simp⟩, fun n hn id => ?_,
    fun n hn x hx id hr => ?_, h.reported.snoc fun _ => rfl⟩
  · cases hn
    have ho := not_outstanding fun x hx => hnever x hx id
    exact ⟨fun ho' => absurd ho' ho, fun _ => rfl⟩
  · rw [hnever x hx id] at hr
    cases hr

section Present

variable {n' : Notes}

theorem Matches.delivered (h : Matches time past (some n)) {consumer : String}
    {entries : List Entry} (known : ∀ e ∈ entries, (n.note? e.id).isSome ∨ n.cursor < e.id)
    (counted : ∀ e ∈ entries, e.deliveries = n.count e.id + 1)
    (read : n.cursor ≤ n'.cursor ∧ ∀ e ∈ entries, e.id ≤ n'.cursor)
    (taken : ∀ e ∈ entries, n'.note? e.id = some ⟨consumer, time t, n.count e.id + 1⟩)
    (kept : ∀ id ∉ entries.map (·.id), n'.note? id = n.note? id) :
    Matches time (past ++ [(t, .delivered consumer entries)]) (some n') := by
  refine ⟨fun hn => (nomatch hn), fun _ => ?_, fun m hm id => ?_, fun m hm x hx id hr => ?_, ?_⟩
  · obtain ⟨t', ht'⟩ := h.present rfl
    exact ⟨t', List.mem_append_left _ ht'⟩
  · cases hm
    by_cases hid : id ∈ entries.map (·.id)
    · have hr : (Posting.delivered consumer entries).returns id = true := decide_eq_true hid
      obtain ⟨e, he, rfl⟩ := List.mem_map.1 hid
      rw [taken e he, h.count_eq (known e he)]
      refine ⟨fun _ => ⟨t, consumer, entries, ?_, ?_⟩,
        fun hn => absurd (outstanding_snoc.2 (Or.inl hr)) hn⟩
      · rw [deliveriesOf_snoc, if_pos hr, List.getLast?_append]
        rfl
      · rw [deliveriesOf_snoc, if_pos hr, List.length_append]
        rfl
    · rw [kept id hid]
      exact (h.told n rfl id).frame (decide_eq_false hid) rfl
  · cases hm
    rcases List.mem_append.1 hx with hx | hx
    · exact Nat.le_trans (h.read n rfl x hx id hr) read.1
    · rw [List.mem_singleton.1 hx] at hr
      obtain ⟨e, he, rfl⟩ := List.mem_map.1 (of_decide_eq_true hr)
      exact read.2 e he
  · intro before t' consumer' entries' after hp e he
    obtain ⟨rfl, hx, _⟩ | ⟨after', hp', _⟩ := snoc_eq_append_cons_iff.1 hp
    · cases hx
      rw [counted e he, h.count_eq (known e he)]
    · exact h.reported before t' consumer' entries' after' hp' e he

theorem Matches.acknowledged (h : Matches time past (some n)) {ids : List Nat} (t : Nat)
    (read : n'.cursor = n.cursor) (dropped : ∀ id ∈ ids, n'.note? id = none)
    (kept : ∀ id ∉ ids, n'.note? id = n.note? id) :
    Matches time (past ++ [(t, .acknowledged ids)]) (some n') := by
  refine ⟨fun hn => (nomatch hn), fun _ => ?_, fun m hm id => ?_, fun m hm x hx id hr => ?_,
    h.reported.snoc fun _ => rfl⟩
  · obtain ⟨t', ht'⟩ := h.present rfl
    exact ⟨t', List.mem_append_left _ ht'⟩
  · cases hm
    by_cases hid : id ∈ ids
    · have ho : ¬ Outstanding id (past ++ [(t, .acknowledged ids)]) := by
        simp [outstanding_snoc, Posting.returns, Posting.settles, hid]
      rw [dropped id hid]
      exact ⟨fun ho' => absurd ho' ho, fun _ => rfl⟩
    · rw [kept id hid]
      exact (h.told n rfl id).frame rfl (by simp [Posting.settles, hid])
  · cases hm
    rw [read]
    exact h.read n rfl x (mem_of_mem_snoc rfl hx hr) id hr

end Present

theorem Matches.step (h : Matches time past notes) (hb : Booked (time t) d notes notes') :
    Matches time (past ++ [(t, d)]) notes' := by
  cases hb with
  | nothing => exact h.nothing t
  | created cursor => exact h.created t cursor
  | delivered known counted read taken kept => exact h.delivered known counted read taken kept
  | acknowledged read dropped kept => exact h.acknowledged t read dropped kept

end Matches

/-! ## Books -/

/-- The call asks for entries. -/
def Call.fetches : Call → Bool
  | .stream (.readGroup _ _ _ _ _ _) => true
  | .stream (.claimIdle _ _ _ _ _) => true
  | _ => false

/-- The row of an entry in a listing. -/
def rowOf (id : Nat) : Except StoreError (List PendingEntry) → Option PendingEntry
  | .ok rows => rows.find? (fun row => row.id = id)
  | .error _ => none

namespace Backend

variable {σ : Type}

/-- Calls on an empty store: what became of each, at its time, and the store
that they leave. -/
def record (b : Backend σ) (calls : List (Nat × Call)) : List (Nat × Outcome) × σ :=
  calls.foldl (fun r x =>
    (r.1 ++ [(x.1, ⟨x.2, (b.call x.1 x.2 r.2).1⟩)], (b.call x.1 x.2 r.2).2)) ([], b.empty)

def after (b : Backend σ) (calls : List (Nat × Call)) : σ := (b.record calls).2

/-- What the calls did in a group. -/
def postings (b : Backend σ) (stream group : String) (calls : List (Nat × Call)) :
    List (Nat × Posting) :=
  (b.record calls).1.map (fun x => (x.1, x.2.posting stream group))

/-- What the next call would do in a group. -/
def posting (b : Backend σ) (stream group : String) (now : Nat) (c : Call) (s : σ) : Posting :=
  Outcome.posting stream group ⟨c, (b.call now c s).1⟩

/-- What is pending in a group at a clock reading. -/
def listing (b : Backend σ) (stream group : String) (now : Nat) (s : σ) :
    Except StoreError (List PendingEntry) :=
  (b.streamCall (.pending stream group) now s).1

theorem after_snoc (b : Backend σ) (calls : List (Nat × Call)) (now : Nat) (c : Call) :
    b.after (calls ++ [(now, c)]) = (b.call now c (b.after calls)).2 := by
  simp [after, record]

theorem postings_snoc (b : Backend σ) (stream group : String) (calls : List (Nat × Call))
    (now : Nat) (c : Call) : b.postings stream group (calls ++ [(now, c)])
      = b.postings stream group calls ++ [(now, b.posting stream group now c (b.after calls))] := by
  simp [postings, posting, after, record]

end Backend

/-- What a store shows of a group after calls, as the calls and their answers
have it. An entry that was returned at `t` is idle at `now` for `idle now t`. -/
structure Books {σ : Type} (b : Backend σ) (idle : Nat → Nat → Span) (stream group : String)
    (calls : List (Nat × Call)) : Prop where
  /-- A group that was not created is not there. -/
  missing : (∀ t, (t, Posting.created) ∉ b.postings stream group calls) → ∀ now,
    b.listing stream group now (b.after calls) = .error (.noSuchGroup stream group)
  /-- The entries that were returned and not acknowledged since are listed in the
  order of their ids, each with the consumer and the time of the last call
  that returned it, and with the count of the calls that did. -/
  listed : (∃ t, (t, Posting.created) ∈ b.postings stream group calls) → ∀ now, ∃ rows,
    b.listing stream group now (b.after calls) = .ok rows ∧
    (rows.map (·.id)).Pairwise (· < ·) ∧
    (∀ id, id ∈ rows.map (·.id) ↔ Outstanding id (b.postings stream group calls)) ∧
    ∀ row ∈ rows, ∃ t entries,
      (deliveriesOf row.id (b.postings stream group calls)).getLast?
        = some (t, .delivered row.consumer entries) ∧
      row.deliveries = (deliveriesOf row.id (b.postings stream group calls)).length ∧
      row.idle = idle now t
  reported : Reported (b.postings stream group calls)
  /-- A call for entries changes the rows of those that it returns alone. -/
  untouched : ∀ now c, c.fetches = true → ∀ id,
    (b.posting stream group now c (b.after calls)).returns id = false → ∀ later,
    rowOf id (b.listing stream group later (b.call now c (b.after calls)).2)
      = rowOf id (b.listing stream group later (b.after calls))

/-- Where a store notes what is pending: its notes of a group, the clock
reading that it keeps of a time, and how long an entry is idle that was noted
at a kept reading. -/
structure Keeper (σ : Type) where
  notes? : σ → String → String → Option Notes
  time : Nat → Nat
  idle : Nat → Nat → Span

/-- A listing shows the notes. -/
def Shows (stream group : String) (idle : Nat → Span) :
    Option Notes → Except StoreError (List PendingEntry) → Prop
  | none, shown => shown = .error (.noSuchGroup stream group)
  | some n, shown => ∃ rows, shown = .ok rows ∧ (rows.map (·.id)).Pairwise (· < ·) ∧
    ∀ row, row ∈ rows ↔ ∃ note, n.note? row.id = some note ∧
      row = ⟨row.id, note.consumer, note.deliveries, idle note.since⟩

/-- As long as the calls are allowed, each is booked, and the notes are shown. -/
structure Keeper.Faithful {σ : Type} (k : Keeper σ) (b : Backend σ)
    (allowed : List (Nat × Call) → Prop) : Prop where
  shorter : ∀ {calls x}, allowed (calls ++ [x]) → allowed calls
  longer : ∀ {calls now c}, allowed calls → c.fetches = true → allowed (calls ++ [(now, c)])
  empty : ∀ stream group, k.notes? b.empty stream group = none
  booked : ∀ {calls now c}, allowed (calls ++ [(now, c)]) → ∀ stream group,
    Booked (k.time now) (b.posting stream group now c (b.after calls))
      (k.notes? (b.after calls) stream group)
      (k.notes? (b.call now c (b.after calls)).2 stream group)
  shown : ∀ {calls}, allowed calls → ∀ stream group now,
    Shows stream group (k.idle now) (k.notes? (b.after calls) stream group)
      (b.listing stream group now (b.after calls))

section Books

variable {σ : Type} {b : Backend σ} {k : Keeper σ} {allowed : List (Nat × Call) → Prop}
  {stream group : String} {calls : List (Nat × Call)} {notes notes' : Option Notes} {d : Posting}
  {id : Nat}

theorem Shows.rowOf_eq {idle : Nat → Span} {shown : Except StoreError (List PendingEntry)}
    (h : Shows stream group idle notes shown) (id : Nat) :
    rowOf id shown = (notes.bind (fun n => n.note? id)).map
      (fun note => ⟨id, note.consumer, note.deliveries, idle note.since⟩) := by
  cases notes with
  | none =>
    rw [Shows] at h
    rw [h]
    rfl
  | some n =>
    obtain ⟨rows, rfl, _, hrows⟩ := h
    simp only [rowOf, Option.bind_some]
    cases hn : n.note? id with
    | none =>
      refine List.find?_eq_none.2 fun row hrow hid => ?_
      obtain ⟨note, hnote, _⟩ := (hrows row).1 hrow
      rw [of_decide_eq_true hid, hn] at hnote
      cases hnote
    | some note =>
      have hmem := (hrows ⟨id, note.consumer, note.deliveries, idle note.since⟩).2 ⟨note, hn, rfl⟩
      cases hfind : rows.find? (fun row => row.id = id) with
      | none => exact absurd (decide_eq_true rfl) (List.find?_eq_none.1 hfind _ hmem)
      | some row =>
        obtain ⟨note', hnote', hrow⟩ := (hrows row).1 (List.mem_of_find?_eq_some hfind)
        have hid : row.id = id := by simpa using List.find?_some hfind
        rw [hid, hn, Option.some.injEq] at hnote'
        rw [hrow, hid, ← hnote']
        rfl

/-- What a posting neither returns nor acknowledges keeps its note. -/
theorem Booked.frame {time : Nat} (h : Booked time d notes notes') (hr : d.returns id = false)
    (hs : d.settles id = false) :
    notes'.bind (fun n => n.note? id) = notes.bind (fun n => n.note? id) := by
  cases h with
  | nothing => rfl
  | created cursor => rfl
  | delivered known counted read taken kept => exact kept id (of_decide_eq_false hr)
  | acknowledged read dropped kept => exact kept id (of_decide_eq_false hs)

theorem settles_of_fetches {c : Call} (h : c.fetches = true) (result : Except StoreError c.Answer) :
    (Outcome.posting stream group ⟨c, result⟩).settles id = false := by
  cases c with
  | key c => cases h
  | stream c =>
    cases c with
    | readGroup name name' consumer mode count block =>
      cases result with
      | error e => rfl
      | ok entries =>
        simp only [Outcome.posting]
        split <;> rfl
    | claimIdle name name' consumer minIdle count =>
      cases result with
      | error e => rfl
      | ok entries =>
        simp only [Outcome.posting]
        split <;> rfl
    | _ => cases h

theorem Keeper.Faithful.matches (h : k.Faithful b allowed) (stream group : String)
    (hc : allowed calls) :
    Matches k.time (b.postings stream group calls) (k.notes? (b.after calls) stream group) := by
  induction calls using List.reverseRecOn with
  | nil =>
    have hempty : k.notes? (b.after []) stream group = none := h.empty stream group
    rw [hempty]
    exact matches_nil
  | append_singleton calls x ih =>
    obtain ⟨now, c⟩ := x
    rw [b.postings_snoc, b.after_snoc]
    exact (ih (h.shorter hc)).step (h.booked hc stream group)

/-- A store that keeps its notes by every call shows what happened. -/
theorem Keeper.Faithful.books (h : k.Faithful b allowed) (stream group : String)
    (hc : allowed calls) :
    Books b (fun now t => k.idle now (k.time t)) stream group calls := by
  have hm := h.matches stream group hc
  have hshown := h.shown hc stream group
  constructor
  · intro hnever now
    have hnone : k.notes? (b.after calls) stream group = none := by
      rw [← Option.not_isSome_iff_eq_none]
      intro hsome
      obtain ⟨t, ht⟩ := hm.present hsome
      exact hnever t ht
    simpa only [hnone, Shows] using hshown now
  · rintro ⟨t, ht⟩ now
    have hsome : (k.notes? (b.after calls) stream group).isSome := by
      rw [← Option.ne_none_iff_isSome]
      intro hnone
      cases hm.absent hnone _ ht
    obtain ⟨n, hn⟩ := Option.isSome_iff_exists.1 hsome
    have hnow := hshown now
    rw [hn] at hnow
    obtain ⟨rows, hrows, hsorted, hmem⟩ := hnow
    refine ⟨rows, hrows, hsorted, fun id => ?_, fun row hrow => ?_⟩
    · rw [← (hm.told n hn id).isSome_iff, List.mem_map]
      constructor
      · rintro ⟨row, hrow, rfl⟩
        obtain ⟨note, hnote, _⟩ := (hmem row).1 hrow
        exact Option.isSome_of_eq_some hnote
      · intro hid
        obtain ⟨note, hnote⟩ := Option.isSome_iff_exists.1 hid
        exact ⟨_, (hmem ⟨id, note.consumer, note.deliveries, k.idle now note.since⟩).2
          ⟨note, hnote, rfl⟩, rfl⟩
    · obtain ⟨note, hnote, hrow⟩ := (hmem row).1 hrow
      have ho := (hm.told n hn row.id).isSome_iff.1 (Option.isSome_of_eq_some hnote)
      obtain ⟨t', consumer, entries, hlast, hnote'⟩ := (hm.told n hn row.id).waits ho
      rw [hnote, Option.some.injEq] at hnote'
      subst hnote'
      have hconsumer : row.consumer = consumer := congrArg PendingEntry.consumer hrow
      refine ⟨t', entries, hconsumer ▸ hlast, ?_, ?_⟩
      · exact congrArg PendingEntry.deliveries hrow
      · exact congrArg PendingEntry.idle hrow
  · exact hm.reported
  · intro now c hfetch id hr later
    have hlonger : allowed (calls ++ [(now, c)]) := h.longer hc hfetch
    have hshown' := h.shown hlonger stream group later
    rw [b.after_snoc] at hshown'
    rw [hshown'.rowOf_eq, (hshown later).rowOf_eq,
      (h.booked hlonger stream group).frame hr (settles_of_fetches hfetch _)]

end Books

end LifecycleLog
