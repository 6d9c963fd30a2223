-- The books of both stores. Reads for new entries, reads of what is pending and
-- claims each stamp what they deliver, in nested maps as in flat tables; what
-- is pending always shows who got an entry last, since when, and how often it
-- was delivered, going by the answers of all calls there were.
import LifecycleLog.Proofs.Store.Agreement
import LifecycleLog.Proofs.Store.Postings

namespace LifecycleLog

variable {stream group name name' : String}

/-! ## Groups of nested maps -/

namespace Nested

def Delivery.note (d : Delivery) : Note := ⟨d.consumer, d.deliveredAt, d.deliveries⟩

/-- The note of an id in a pending list. -/
def noteIn (id : Nat) (ds : List Delivery) : Option Note :=
  (ds.find? (fun d => d.id = id)).map (·.note)

def Group.notes (g : Group) : Notes := ⟨g.cursor, fun id => noteIn id g.pending⟩

theorem noteIn_cons (id : Nat) (d : Delivery) (ds : List Delivery) :
    noteIn id (d :: ds) = if d.id = id then some d.note else noteIn id ds := by
  by_cases h : d.id = id <;> simp [noteIn, h]

theorem noteIn_append (id : Nat) (ds ds' : List Delivery) :
    noteIn id (ds ++ ds') = (noteIn id ds).or (noteIn id ds') := by
  simp [noteIn, List.find?_append, Option.map_or]

theorem isSome_noteIn {id : Nat} {ds : List Delivery} :
    (noteIn id ds).isSome ↔ id ∈ ds.map (·.id) := by
  simp [noteIn]

theorem noteIn_eq_none {id : Nat} {ds : List Delivery} (h : id ∉ ds.map (·.id)) :
    noteIn id ds = none := by
  rwa [← isSome_noteIn, Option.not_isSome_iff_eq_none] at h

/-- Where ids differ, a delivery is the one that its id finds. -/
theorem noteIn_eq_some_iff {id : Nat} {note : Note} {ds : List Delivery}
    (h : (ds.map (·.id)).Pairwise (· < ·)) :
    noteIn id ds = some note ↔ ∃ d ∈ ds, d.id = id ∧ d.note = note := by
  induction ds with
  | nil => simp [noteIn]
  | cons d ds ih =>
    obtain ⟨hd, hds⟩ := List.pairwise_cons.1 (List.map_cons ▸ h)
    rw [noteIn_cons]
    split
    · rename_i hid
      have hother : ∀ d' ∈ ds, d'.id ≠ id := fun d' hd' => by
        have := hd d'.id (List.mem_map_of_mem hd')
        omega
      constructor
      · intro hnote
        exact ⟨d, List.mem_cons_self, hid, Option.some.inj hnote⟩
      · rintro ⟨d', hd', hid', rfl⟩
        rcases List.mem_cons.1 hd' with rfl | hd'
        · rfl
        · exact absurd hid' (hother d' hd')
    · rename_i hid
      rw [ih hds]
      simp [hid]

/-! ### What a group does -/

variable {log : List Fields} {g : Group} {consumer : String} {now : Nat}

theorem deliveries_numbered {first : Nat} {fs : List Fields} :
    ∀ e ∈ numbered first fs, e.deliveries = 1 := by
  induction fs generalizing first with
  | nil => simp [numbered]
  | cons f rest ih =>
    intro e he
    rcases List.mem_cons.1 he with rfl | he
    · rfl
    · exact ih e he

theorem noteIn_freshDeliveries {entries : List Entry} {e : Entry} (h : e ∈ entries) :
    noteIn e.id (freshDeliveries consumer now entries) = some ⟨consumer, now, 1⟩ := by
  induction entries with
  | nil => cases h
  | cons e' rest ih =>
    rw [freshDeliveries, List.map_cons, noteIn_cons, ← freshDeliveries]
    split
    · rfl
    · rename_i hid
      rcases List.mem_cons.1 h with rfl | h
      · exact absurd rfl hid
      · exact ih h

theorem booked_readNew (h : g.Good log) (consumer : String) (count now : Nat) :
    Booked now (.delivered consumer (readNew consumer count now log g).1) (some g.notes)
      (some (readNew consumer count now log g).2.notes) := by
  have hfresh : ∀ e ∈ freshEntries log g.cursor count, g.cursor < e.id :=
    fun e he => (mem_freshEntries he).1
  have hnone : ∀ e ∈ freshEntries log g.cursor count, noteIn e.id g.pending = none := by
    intro e he
    refine noteIn_eq_none fun hm => ?_
    have h₁ := h.within e.id hm
    have h₂ := hfresh e he
    omega
  have hcount : ∀ e ∈ freshEntries log g.cursor count, g.notes.count e.id = 0 := fun e he => by
    simp [Notes.count, Group.notes, hnone e he]
  refine .delivered (fun e he => Or.inr (hfresh e he)) (fun e he => ?_) ⟨?_, fun e he => ?_⟩
    (fun e he => ?_) fun id hid => ?_
  · rw [hcount e he, deliveries_numbered e he]
  · exact Nat.le_add_right _ _
  · have hm : e.id ∈ (freshEntries log g.cursor count).map (·.id) := List.mem_map_of_mem he
    rw [map_id_freshEntries, List.mem_range'_1] at hm
    simp only [Group.notes, readNew]
    omega
  · rw [hcount e he]
    simp only [Group.notes, readNew, noteIn_append, hnone e he, Option.none_or]
    exact noteIn_freshDeliveries he
  · have hid' : id ∉
        (freshDeliveries consumer now (readNew consumer count now log g).1).map (·.id) := by
      simpa [freshDeliveries] using hid
    have hnone' := noteIn_eq_none hid'
    simp only [readNew] at hnone'
    simp only [Group.notes, readNew, noteIn_append, hnone', Option.or_none]

/-- Just what is delivered again is stamped anew, whatever is picked. -/
theorem noteIn_redeliver (log : List Fields) (consumer : String) (now : Nat)
    (pick : Delivery → Bool) (count : Nat) {ds : List Delivery}
    (h : (ds.map (·.id)).Pairwise (· < ·)) :
    (∀ e ∈ (redeliver log consumer now pick count ds).1, ∃ note, noteIn e.id ds = some note ∧
      e.deliveries = note.deliveries + 1 ∧
      noteIn e.id (redeliver log consumer now pick count ds).2
        = some ⟨consumer, now, note.deliveries + 1⟩) ∧
    ∀ id ∉ (redeliver log consumer now pick count ds).1.map (·.id),
      noteIn id (redeliver log consumer now pick count ds).2 = noteIn id ds := by
  induction ds generalizing count with
  | nil => cases count <;> simp [redeliver]
  | cons d rest ih =>
    obtain ⟨hd, hrest⟩ := List.pairwise_cons.1 (List.map_cons ▸ h)
    have hlater : ∀ {count : Nat}, ∀ e ∈ (redeliver log consumer now pick count rest).1,
        d.id ≠ e.id := by
      intro count e he
      obtain ⟨d', hd', _, hid, _⟩ := mem_redeliver he
      have := hd d'.id (List.mem_map_of_mem hd')
      omega
    cases count with
    | zero => simp [redeliver]
    | succ count =>
      cases hf : (if pick d then log[d.id - 1]? else none) with
      | none =>
        simp only [redeliver, hf]
        obtain ⟨htaken, hkept⟩ := ih (count + 1) hrest
        refine ⟨fun e he => ?_, fun id hid => ?_⟩
        · simp only [noteIn_cons, if_neg (hlater e he)]
          exact htaken e he
        · rw [noteIn_cons, noteIn_cons, hkept id hid]
      | some fields =>
        simp only [redeliver, hf]
        obtain ⟨htaken, hkept⟩ := ih count hrest
        refine ⟨fun e he => ?_, fun id hid => ?_⟩
        · rcases List.mem_cons.1 he with rfl | he
          · refine ⟨d.note, by rw [noteIn_cons, if_pos rfl], rfl, ?_⟩
            rw [noteIn_cons, if_pos rfl]
            rfl
          · simp only [noteIn_cons, if_neg (hlater e he)]
            exact htaken e he
        · rw [List.map_cons, List.mem_cons, not_or] at hid
          rw [noteIn_cons, noteIn_cons, if_neg (Ne.symm hid.1), if_neg (Ne.symm hid.1),
            hkept id hid.2]

theorem booked_redeliver (h : g.Good log) (consumer : String) (now : Nat)
    (pick : Delivery → Bool) (count : Nat) :
    Booked now (.delivered consumer (redeliver log consumer now pick count g.pending).1)
      (some g.notes)
      (some (Group.notes
        { g with pending := (redeliver log consumer now pick count g.pending).2 })) := by
  obtain ⟨htaken, hkept⟩ := noteIn_redeliver log consumer now pick count h.sorted
  have hcount : ∀ {id note}, noteIn id g.pending = some note →
      g.notes.count id = note.deliveries := by
    intro id note hnote
    simp [Notes.count, Group.notes, hnote]
  refine .delivered (fun e he => ?_) (fun e he => ?_) ⟨Nat.le_refl _, fun e he => ?_⟩
    (fun e he => ?_) hkept
  · obtain ⟨note, hnote, _, _⟩ := htaken e he
    exact Or.inl (Option.isSome_of_eq_some hnote)
  · obtain ⟨note, hnote, hdeliveries, _⟩ := htaken e he
    rw [hcount hnote, hdeliveries]
  · obtain ⟨note, hnote, _, _⟩ := htaken e he
    exact h.within e.id (isSome_noteIn.1 (Option.isSome_of_eq_some hnote))
  · obtain ⟨note, hnote, _, hstamp⟩ := htaken e he
    rw [hcount hnote]
    exact hstamp

theorem booked_acknowledge (g : Group) (now : Nat) (ids : List Nat) :
    Booked now (.acknowledged ids) (some g.notes)
      (some (Group.notes { g with pending := (acknowledge ids g.pending).2 })) := by
  refine .acknowledged rfl (fun id hid => noteIn_eq_none ?_) fun id hid => ?_
  · rw [acknowledge_eq_filter]
    intro hm
    obtain ⟨d, hd, rfl⟩ := List.mem_map.1 hm
    simp [hid] at hd
  · simp only [Group.notes, acknowledge_eq_filter]
    induction g.pending with
    | nil => rfl
    | cons d ds ih =>
      by_cases hd : d.id ∈ ids
      · rw [List.filter_cons_of_neg (by simpa using hd), ih, noteIn_cons, if_neg]
        rintro rfl
        exact hid hd
      · rw [List.filter_cons_of_pos (by simpa using hd), noteIn_cons, noteIn_cons, ih]

/-! ### What a call does -/

def Store.notes? (s : Store) (stream group : String) : Option Notes :=
  (s.groupOf stream group).map (·.notes)

/-- What became of a call is booked in every group. -/
def BookedAll (now : Nat) (o : Outcome) (s s' : Store) : Prop :=
  ∀ stream group,
    Booked now (o.posting stream group) (s.notes? stream group) (s'.notes? stream group)

theorem posting_error (c : Call) (e : StoreError) (stream group : String) :
    Outcome.posting stream group ⟨c, .error e⟩ = .nothing := by
  cases c with
  | key c => rfl
  | stream c => cases c <;> rfl

namespace BookedAll

variable {s s' : Store} {o : Outcome} {d : Posting} {g' : Group}

theorem same (ho : ∀ stream group, o.posting stream group = .nothing)
    (hs : ∀ stream group, s'.groupOf stream group = s.groupOf stream group) :
    BookedAll now o s s' := by
  intro stream group
  rw [ho, Store.notes?, Store.notes?, hs]
  exact .nothing _

/-- A group takes a new form by a posting. -/
theorem setGroup
    (ho : ∀ name name',
      o.posting name name' = if stream = name ∧ group = name' then d else .nothing)
    (hb : Booked now d (s.notes? stream group) (some g'.notes)) :
    BookedAll now o s (s.setGroup stream group g') := by
  intro name name'
  rw [ho, Store.notes?, Store.notes?, groupOf_setGroup]
  by_cases hn : stream = name ∧ group = name'
  · obtain ⟨rfl, rfl⟩ := hn
    rw [if_pos ⟨rfl, rfl⟩, if_pos ⟨rfl, rfl⟩]
    exact hb
  · rw [if_neg hn, if_neg (fun h => hn ⟨h.1.symm, h.2.symm⟩)]
    exact .nothing _

/-- A step on a group fails and is not booked, or is made and booked. -/
theorem onGroup {c : StreamCall} {step : List Fields → Group → c.Answer × Group}
    {did : c.Answer → Posting}
    (ho : ∀ a name name', Outcome.posting name name' ⟨.stream c, .ok a⟩
      = if stream = name ∧ group = name' then did a else .nothing)
    (hstep : ∀ g, s.groupOf stream group = some g →
      Booked now (did (step (s.log stream) g).1) (some g.notes)
        (some (step (s.log stream) g).2.notes)) :
    BookedAll now ⟨.stream c, (s.onGroup stream group step).1⟩ s
      (s.onGroup stream group step).2 := by
  cases hg : s.groupOf stream group with
  | none =>
    rw [onGroup_none step hg]
    exact same (posting_error _ _) fun _ _ => rfl
  | some g =>
    rw [onGroup_some step hg]
    refine setGroup (ho _) ?_
    rw [Store.notes?, hg]
    exact hstep g hg

end BookedAll

variable {s : Store}

theorem booked_createGroup (s : Store) (stream group : String) (start : GroupStart) (now : Nat) :
    BookedAll now ⟨.stream (.createGroup stream group start),
      (streamCall (.createGroup stream group start) now s).1⟩ s
      (streamCall (.createGroup stream group start) now s).2 := by
  cases hg : s.groupOf stream group with
  | some g =>
    rw [createGroup_some hg]
    exact .same (fun _ _ => rfl) fun _ _ => rfl
  | none =>
    rw [createGroup_none hg]
    refine .setGroup (fun _ _ => rfl) ?_
    rw [Store.notes?, hg]
    exact .created _

/-- Every call is booked. -/
theorem Store.Good.booked (h : s.Good) (c : Call) (now : Nat) :
    BookedAll now ⟨c, (backend.call now c s).1⟩ s (backend.call now c s).2 := by
  cases c with
  | key c => exact .same (fun _ _ => rfl) fun _ _ => rfl
  | stream c =>
    cases c with
    | append stream fields => exact .same (fun _ _ => rfl) (groupOf_append stream fields now s)
    | createGroup stream group start => exact booked_createGroup s stream group start now
    | readGroup stream group consumer mode count block =>
      cases mode with
      | new =>
        exact .onGroup (fun _ _ _ => rfl) fun g hg =>
          booked_readNew (h stream group g hg) consumer count now
      | pending after =>
        exact .onGroup (fun _ _ _ => rfl) fun g hg =>
          booked_redeliver (h stream group g hg) consumer now _ count
    | ack stream group ids =>
      exact .onGroup (fun _ _ _ => rfl) fun g _ => booked_acknowledge g now ids
    | claimIdle stream group consumer minIdle count =>
      exact .onGroup (fun _ _ _ => rfl) fun g hg =>
        booked_redeliver (h stream group g hg) consumer now _ count
    | pending stream group =>
      refine .same (fun name name' => ?_) fun name name' => ?_
      · cases (backend.call now (.stream (.pending stream group)) s).1 <;> rfl
      · exact congrArg (Store.groupOf · name name') (streamCall_pending stream group now s)

/-! ### What is shown -/

/-- A listing of the pending list shows the notes. -/
theorem shows_pending (h : g.Good log) (stream group : String) (idle : Nat → Span) :
    Shows stream group idle (some g.notes) (.ok (g.pending.map
      (fun d => ⟨d.id, d.consumer, d.deliveries, idle d.deliveredAt⟩))) := by
  refine ⟨_, rfl, ?_, fun row => ?_⟩
  · rw [List.map_map]
    exact h.sorted
  · simp only [Group.notes, noteIn_eq_some_iff h.sorted, List.mem_map]
    constructor
    · rintro ⟨d, hd, rfl⟩
      exact ⟨d.note, ⟨d, hd, rfl, rfl⟩, rfl⟩
    · rintro ⟨_, ⟨d, hd, hid, rfl⟩, hrow⟩
      exact ⟨d, hd, by rw [hrow, hid]; rfl⟩

/-- Clock readings are noted as they are. -/
def keeper : Keeper Store := ⟨Store.notes?, id, fun now since => Span.ofNanos (now - since)⟩

theorem good_after (calls : List (Nat × Call)) : (backend.after calls).Good := by
  induction calls using List.reverseRecOn with
  | nil => exact good_empty
  | append_singleton calls x ih =>
    obtain ⟨now, c⟩ := x
    rw [Backend.after_snoc]
    cases c with
    | key c => exact ih
    | stream c => exact ih.streamCall c now

theorem keeper_faithful : keeper.Faithful backend (fun _ => True) where
  shorter _ := trivial
  longer _ _ := trivial
  empty _ _ := rfl
  booked _ := (good_after _).booked _ _
  shown {calls} _ stream group now := by
    have hgood := good_after calls
    generalize backend.after calls = s at hgood ⊢
    simp only [keeper, Store.notes?, Backend.listing, backend, streamCall, group?_eq]
    cases hg : s.groupOf stream group with
    | none => rfl
    | some g => exact shows_pending (hgood stream group g hg) stream group _

end Nested

/-! ## Flat tables -/

namespace Flat

/-- The clock in nanoseconds, as far as whole milliseconds tell it. -/
def whole (now : Nat) : Nat := millis now * nanosPerMilli

theorem millis_whole (now : Nat) : millis (whole now) = millis now :=
  Nat.mul_div_cancel _ (by decide)

theorem dvd_whole (now : Nat) : nanosPerMilli ∣ whole now := Nat.dvd_mul_left _ _

/-- A flat store reads the clock in whole milliseconds only. -/
theorem restamp_whole (stream group consumer : String) (now : Nat) (rows : List (Nat × Delivery))
    (f : Store) : restamp stream group consumer (whole now) rows f
      = restamp stream group consumer now rows f := by
  induction rows generalizing f with
  | nil => rfl
  | cons r rest ih => simp only [restamp, ih, millis_whole]

theorem redeliver_whole (stream group consumer : String) (after count now : Nat)
    (pick : Delivery → Bool) (f : Store) :
    redeliver stream group consumer after count (whole now) pick f
      = redeliver stream group consumer after count now pick f :=
  restamp_whole _ _ _ _ _ _

theorem readNew_whole (stream group consumer : String) (cursor count now : Nat) (f : Store) :
    readNew stream group consumer cursor count (whole now) f
      = readNew stream group consumer cursor count now f := by
  simp only [readNew, millis_whole]

def Delivery.note (d : Delivery) : Note := ⟨d.consumer, d.deliveredAtMs, d.deliveries⟩

def Store.notes? (f : Store) (stream group : String) : Option Notes :=
  (f.cursors.get? ⟨stream, group⟩).map (fun cursor =>
    ⟨cursor, fun id => (f.deliveries.get? ⟨stream, group, id⟩).map (·.note)⟩)

end Flat

/-! ### Notes in whole milliseconds -/

def Note.inMillis (note : Note) : Note := { note with since := Flat.millis note.since }

def Notes.inMillis (n : Notes) : Notes := ⟨n.cursor, fun id => (n.note? id).map Note.inMillis⟩

theorem Notes.count_inMillis (n : Notes) (id : Nat) : n.inMillis.count id = n.count id := by
  simp only [count, inMillis, Option.map_map]
  rfl

theorem Booked.inMillis {t : Nat} {d : Posting} {n n' : Option Notes} (h : Booked t d n n') :
    Booked (Flat.millis t) d (n.map Notes.inMillis) (n'.map Notes.inMillis) := by
  cases h with
  | nothing => exact .nothing _
  | created cursor => exact .created cursor
  | delivered known counted read taken kept =>
    refine .delivered (fun e he => ?_) (fun e he => ?_) read (fun e he => ?_) fun id hid => ?_
    · simpa only [Notes.inMillis, Option.isSome_map] using known e he
    · rw [Notes.count_inMillis, counted e he]
    · rw [Notes.count_inMillis]
      simp only [Notes.inMillis, taken e he]
      rfl
    · simp only [Notes.inMillis, kept id hid]
  | acknowledged read dropped kept =>
    refine .acknowledged read (fun id hid => ?_) fun id hid => ?_
    · simp only [Notes.inMillis, dropped id hid, Option.map_none]
    · simp only [Notes.inMillis, kept id hid]

theorem Shows.inMillis {idle : Nat → Span} {notes : Option Notes}
    {shown : Except StoreError (List PendingEntry)}
    (h : Shows stream group (fun t => idle (Flat.millis t)) notes shown) :
    Shows stream group idle (notes.map Notes.inMillis) shown := by
  cases notes with
  | none => exact h
  | some n =>
    obtain ⟨rows, hrows, hsorted, hmem⟩ := h
    refine ⟨rows, hrows, hsorted, fun row => ?_⟩
    rw [hmem]
    simp only [Notes.inMillis, Option.map_eq_some_iff]
    constructor
    · rintro ⟨note, hnote, hrow⟩
      exact ⟨_, ⟨note, hnote, rfl⟩, hrow⟩
    · rintro ⟨_, ⟨note, hnote, rfl⟩, hrow⟩
      exact ⟨note, hnote, hrow⟩

theorem Nested.row?_eq_noteIn (id : Nat) (ds : List Nested.Delivery) :
    (row? id ds).map (·.note) = (noteIn id ds).map Note.inMillis := by
  induction ds with
  | nil => rfl
  | cons d ds ih =>
    rw [row?_cons, noteIn_cons]
    by_cases hid : d.id = id
    · rw [if_pos hid, if_pos hid.symm]
      rfl
    · rw [if_neg hid, if_neg (Ne.symm hid), ih]

namespace Mirrors

variable {n : Nested.Store} {f : Flat.Store} {g : Nested.Group}

theorem notes?_eq (h : Mirrors n f) (stream group : String) :
    f.notes? stream group = (n.notes? stream group).map Notes.inMillis := by
  rw [Flat.Store.notes?, h.cursors, Nested.Store.notes?]
  cases hg : n.groupOf stream group with
  | none => rfl
  | some g =>
    simp only [Option.map_some, h.deliveries, hg, Option.bind_some, Nested.row?_eq_noteIn]
    rfl

/-- The step of a flat store on a group is booked as the one that it mirrors. -/
theorem booked_onGroup (h : Mirrors n f) (c : StreamCall) (now : Nat)
    (step : List Fields → Nested.Group → c.Answer × Nested.Group)
    {step' : Nat → Flat.Store → c.Answer × Flat.Store} {did : c.Answer → Posting}
    (ho : ∀ a name name', Outcome.posting name name' ⟨.stream c, .ok a⟩
      = if stream = name ∧ group = name' then did a else .nothing)
    (hstep : ∀ g, n.groupOf stream group = some g →
      (step' g.cursor f).1 = (step (n.log stream) g).1 ∧
      Mirrors (n.setGroup stream group (step (n.log stream) g).2) (step' g.cursor f).2)
    (hbooked : ∀ g, n.groupOf stream group = some g →
      Booked now (did (step (n.log stream) g).1) (some g.notes)
        (some (step (n.log stream) g).2.notes)) :
    ∃ n', Mirrors n' (f.onGroup stream group step').2 ∧ (∀ name, n'.log name = n.log name ++ []) ∧
      Nested.BookedAll now ⟨.stream c, (f.onGroup stream group step').1⟩ n n' := by
  obtain ⟨hanswer, hmirrors⟩ := h.onGroup hstep
  refine ⟨_, hmirrors, fun name => ?_, ?_⟩
  · rw [List.append_nil, Nested.log_onGroup n stream group step]
  rw [hanswer]
  exact .onGroup ho hbooked

/-- A call on a flat store leaves a mirror, and is booked there. -/
theorem booked_streamCall (h : Mirrors n f) (c : StreamCall) (now : Nat)
    (hroom : ∀ stream, (n.log stream).length + (c.adds stream).length ≤ Flat.maxId) :
    ∃ n', Mirrors n' (Flat.streamCall c now f).2 ∧
      (∀ name, n'.log name = n.log name ++ c.adds name) ∧
      Nested.BookedAll (Flat.whole now) ⟨.stream c, (Flat.streamCall c now f).1⟩ n n' := by
  cases c with
  | append stream fields =>
    have hfits := hroom stream
    simp only [StreamCall.adds, if_true, List.length_singleton] at hfits
    exact ⟨_, (h.append fields hfits).2, Nested.log_streamCall _ now n,
      .same (fun _ _ => rfl) (Nested.groupOf_append stream fields now n)⟩
  | createGroup stream group start =>
    obtain ⟨hanswer, hmirrors⟩ : (Flat.streamCall (.createGroup stream group start) now f).1
        = (Nested.streamCall (.createGroup stream group start) now n).1 ∧ Mirrors _ _ :=
      h.createGroup start
    refine ⟨_, hmirrors, Nested.log_streamCall _ now n, ?_⟩
    rw [hanswer]
    exact Nested.booked_createGroup n stream group start _
  | readGroup stream group consumer mode count block =>
    cases mode with
    | new =>
      refine h.booked_onGroup (.readGroup stream group consumer .new count block) (Flat.whole now)
        (Nested.readNew consumer count (Flat.whole now)) (fun _ _ _ => rfl) (fun g hg => ?_)
        fun g hg => Nested.booked_readNew (h.good stream group g hg) _ _ _
      by_cases hnew : f.hasNew stream g.cursor = true
      · rw [if_pos hnew, ← Flat.readNew_whole]
        exact h.readNew hg (Flat.dvd_whole now)
      · have hidle : (n.log stream).length ≤ g.cursor :=
          Nat.le_of_not_lt fun hlt => hnew ((h.hasNew_iff g.cursor).2 hlt)
        rw [if_neg hnew, Nested.readNew_idle hidle]
        exact ⟨rfl, h.setGroup_self hg⟩
    | pending after =>
      refine h.booked_onGroup (.readGroup stream group consumer (.pending after) count block)
        (Flat.whole now) (Nested.readPending consumer after count (Flat.whole now))
        (fun _ _ _ => rfl) (fun g hg => ?_)
        fun g hg => Nested.booked_redeliver (h.good stream group g hg) _ _ _ _
      rw [← Flat.redeliver_whole]
      exact h.redeliver hg (Flat.dvd_whole now) fun d _ => rfl
  | ack stream group ids =>
    exact h.booked_onGroup (.ack stream group ids) (Flat.whole now)
      (fun _ g => ((Nested.acknowledge ids g.pending).1,
        { g with pending := (Nested.acknowledge ids g.pending).2 }))
      (fun _ _ _ => rfl) (fun g hg => h.ack hg ids) fun g _ => Nested.booked_acknowledge g _ ids
  | claimIdle stream group consumer minIdle count =>
    -- what a claim picks is told by the rows alone
    let pick : Nested.Delivery → Bool := fun d => decide (0 < d.id) && decide
      (min minIdle.millis Flat.maxId ≤ Flat.millis now - d.row.2.deliveredAtMs)
    refine h.booked_onGroup (.claimIdle stream group consumer minIdle count) (Flat.whole now)
      (fun log g => ((Nested.redeliver log consumer (Flat.whole now) pick count g.pending).1,
        { g with
          pending := (Nested.redeliver log consumer (Flat.whole now) pick count g.pending).2 }))
      (fun _ _ _ => rfl) (fun g hg => ?_)
      fun g hg => Nested.booked_redeliver (h.good stream group g hg) _ _ _ _
    rw [← Flat.redeliver_whole]
    exact h.redeliver hg (Flat.dvd_whole now) fun d _ => rfl
  | pending stream group =>
    have hsame : (Flat.streamCall (.pending stream group) now f).2 = f := by
      simp only [Flat.streamCall, Flat.Store.onGroup]
      split <;> rfl
    refine ⟨n, by rwa [hsame], fun name => (List.append_nil _).symm,
      .same (fun name name' => ?_) fun _ _ => rfl⟩
    cases (Flat.streamCall (.pending stream group) now f).1 <;> rfl

theorem booked (h : Mirrors n f) (c : Call) (now : Nat)
    (hroom : ∀ stream, (n.log stream).length + (c.adds stream).length ≤ Flat.maxId) :
    ∃ n', Mirrors n' (Flat.backend.call now c f).2 ∧
      (∀ name, n'.log name = n.log name ++ c.adds name) ∧
      Nested.BookedAll (Flat.whole now) ⟨c, (Flat.backend.call now c f).1⟩ n n' := by
  cases c with
  | stream c => exact h.booked_streamCall c now hroom
  | key c =>
    refine ⟨(Nested.keyCall c n).2, ?_, fun name => (List.append_nil _).symm,
      .same (fun _ _ => rfl) fun _ _ => rfl⟩
    simp only [Backend.call, Flat.backend, Flat.keyCall, Nested.keyCall, Flat.onKeys_eq,
      Nested.onKeys_eq, h.keys]
    exact ⟨rfl, h.lastId, h.entries, h.cursors, h.deliveries, h.good, h.whole, h.fits⟩

/-- What is listed of a flat store is the pending list that it mirrors. -/
theorem shows (h : Mirrors n f) (stream group : String) (now : Nat) :
    Shows stream group (fun since => Span.ofMillis (Flat.millis now - since))
      (f.notes? stream group) (Flat.streamCall (.pending stream group) now f).1 := by
  rw [h.notes?_eq]
  refine Shows.inMillis ?_
  simp only [Flat.streamCall, Flat.Store.onGroup, h.cursors, Nested.Store.notes?]
  cases hg : n.groupOf stream group with
  | none => rfl
  | some g =>
    have hrows := congrArg (List.map (fun r => (⟨r.1, r.2.consumer, r.2.deliveries,
      Span.ofMillis (Flat.millis now - r.2.deliveredAtMs)⟩ : PendingEntry))) (h.deliveriesFrom hg 0)
    rw [List.map_map, List.map_map, List.filter_eq_self.2 (by simp)] at hrows
    have hlisting : Flat.listing stream group now f = g.pending.map (fun d => ⟨d.id, d.consumer,
        d.deliveries, Span.ofMillis (Flat.millis now - Flat.millis d.deliveredAt)⟩) := hrows
    simp only [Option.map_some, hlisting]
    exact Nested.shows_pending (h.good stream group g hg) stream group _

end Mirrors

namespace Flat

/-- The ids of 64 bits last for what the calls append. -/
def Room (calls : List (Nat × Call)) : Prop :=
  ∀ stream, (calls.flatMap (fun x => x.2.adds stream)).length ≤ maxId

theorem room_snoc {calls : List (Nat × Call)} {now : Nat} {c : Call} :
    Room (calls ++ [(now, c)]) ↔ ∀ stream,
      (calls.flatMap (fun x => x.2.adds stream)).length + (c.adds stream).length ≤ maxId := by
  simp [Room]

theorem Room.shorter {calls : List (Nat × Call)} {x : Nat × Call} (h : Room (calls ++ [x])) :
    Room calls := fun stream => Nat.le_trans (Nat.le_add_right _ _) (room_snoc.1 h stream)

/-- A call that asks for entries appends none. -/
theorem Room.longer {calls : List (Nat × Call)} {now : Nat} {c : Call} (h : Room calls)
    (hc : c.fetches = true) : Room (calls ++ [(now, c)]) := by
  have hadds : ∀ stream, c.adds stream = [] := by
    intro stream
    cases c with
    | key c => cases hc
    | stream c =>
      cases c with
      | append name fields => cases hc
      | _ => rfl
  refine room_snoc.2 fun stream => ?_
  rw [hadds]
  exact h stream

theorem mirrored_after {calls : List (Nat × Call)} (h : Room calls) :
    ∃ n, Mirrors n (backend.after calls) ∧
      ∀ stream, n.log stream = calls.flatMap (fun x => x.2.adds stream) := by
  induction calls using List.reverseRecOn with
  | nil => exact ⟨Nested.empty, Mirrors.empty, fun _ => rfl⟩
  | append_singleton calls x ih =>
    obtain ⟨now, c⟩ := x
    obtain ⟨n, hn, hlog⟩ := ih h.shorter
    obtain ⟨n', hn', hlog', _⟩ := hn.booked c now fun stream => hlog stream ▸ room_snoc.1 h stream
    refine ⟨n', by rwa [Backend.after_snoc], fun stream => ?_⟩
    rw [hlog', hlog, List.flatMap_append, List.flatMap_singleton]

/-- Clock readings are noted in whole milliseconds. -/
def keeper : Keeper Store :=
  ⟨Store.notes?, millis, fun now since => Span.ofMillis (millis now - since)⟩

theorem keeper_faithful : keeper.Faithful backend Room where
  shorter := Room.shorter
  longer := Room.longer
  empty _ _ := rfl
  booked {calls now c} h stream group := by
    obtain ⟨n, hn, hlog⟩ := mirrored_after h.shorter
    obtain ⟨n', hn', _, hbooked⟩ := hn.booked c now fun stream => hlog stream ▸ room_snoc.1 h stream
    have hmillis := (hbooked stream group).inMillis
    rw [millis_whole, ← hn.notes?_eq, ← hn'.notes?_eq] at hmillis
    exact hmillis
  shown h stream group now := by
    obtain ⟨n, hn, _⟩ := mirrored_after h
    exact hn.shows stream group now

end Flat

/-! ## Both stores -/

/-- What is pending is booked exactly. After any calls on a store of nested maps,
and on one of flat tables as long as its ids last, and in every group: what was
returned and not acknowledged since is listed in the order of the ids, each
entry with the consumer that the last call to return it named, the time since
that call, and the count of the calls that returned it; each of these calls
told the count that was reached with it; and a read or a claim changes
nothing that is listed but what it returns. -/
theorem deliveries_are_booked_exactly (calls : List (Nat × Call)) (stream group : String) :
    Books Nested.backend (fun now t => Span.ofNanos (now - t)) stream group calls ∧
      (Flat.Room calls → Books Flat.backend
        (fun now t => Span.ofMillis (Flat.millis now - Flat.millis t)) stream group calls) :=
  ⟨Nested.keeper_faithful.books stream group trivial,
    fun hroom => Flat.keeper_faithful.books stream group hroom⟩

/-- One of two entries is read again by its consumer, and the other one is
claimed from it 5 ms later. -/
theorem a_claimed_entry_is_booked_to_its_claimant :
    let calls : List (Nat × Call) :=
      [(0, .stream (.append "s" ∅)), (0, .stream (.append "s" ∅)),
        (0, .stream (.createGroup "s" "g" .beginning)),
        (1, .stream (.readGroup "s" "g" "c" .new 10 Span.zero)),
        (3000000, .stream (.readGroup "s" "g" "c" (.pending 1) 10 Span.zero)),
        (5000000, .stream (.claimIdle "s" "g" "d" (Span.ofMillis 5) 10))]
    Flat.Room calls ∧
      Flat.backend.listing "s" "g" 7000000 (Flat.backend.after calls)
        = .ok [⟨1, "d", 2, Span.ofMillis 2⟩, ⟨2, "c", 2, Span.ofMillis 4⟩] ∧
      Outstanding 1 (Flat.backend.postings "s" "g" calls) ∧
      2 = (deliveriesOf 1 (Flat.backend.postings "s" "g" calls)).length := by
  intro calls
  have hroom : Flat.Room calls := by
    intro stream
    simp only [calls, List.flatMap_cons, Call.adds, StreamCall.adds]
    split <;> simp [Flat.maxId, UInt64.size]
  have hlisting : Flat.backend.listing "s" "g" 7000000 (Flat.backend.after calls)
      = .ok [⟨1, "d", 2, Span.ofMillis 2⟩, ⟨2, "c", 2, Span.ofMillis 4⟩] := by decide +kernel
  have hcreated : (0, Posting.created) ∈ Flat.backend.postings "s" "g" calls := by decide +kernel
  have hbooks := (deliveries_are_booked_exactly calls "s" "g").2 hroom
  obtain ⟨rows, hrows, _, hids, hdetails⟩ := hbooks.listed ⟨0, hcreated⟩ 7000000
  rw [hlisting, Except.ok.injEq] at hrows
  subst hrows
  obtain ⟨_, _, _, hcount, _⟩ := hdetails _ List.mem_cons_self
  exact ⟨hroom, hlisting, (hids 1).1 (by decide), hcount⟩

end LifecycleLog
