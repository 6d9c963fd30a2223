-- A subscription that nothing disturbs: no call fails, the handler succeeds,
-- nobody signals and nobody else works in the group. It reads what it holds in
-- portions until a read finds nothing, then what is new to the group in
-- portions too, and then it waits for more. Between two reads it is at the
-- start of what it holds, so a portion is the start of what is left.
import LifecycleLog.Proofs.Store.Growth
import LifecycleLog.Proofs.Store.Ledger
import LifecycleLog.Proofs.Subscription.Order

namespace LifecycleLog

open Nested (Store streamCall)

namespace Subscription

/-! ## Undisturbed turns -/

/-- What a request leads to if nothing fails: the deed, the reply, and the
store. -/
def Request.served (stream : String) (o : Options) (now : Nat) (st : Store) :
    Request → Deed × Reply × Store
  | .createGroup =>
    let (r, st) := streamCall (.createGroup stream o.group o.start) now st
    (.create r, .created r, st)
  | .claim minIdle =>
    let (r, st) := streamCall (.claimIdle stream o.group o.consumer minIdle o.batchSize) now st
    (.claim r, .entries r, st)
  | .read mode block =>
    let (r, st) := streamCall (.readGroup stream o.group o.consumer mode o.batchSize block) now st
    (.read mode r, .entries r, st)
  | .handle event => (.handle event (.ok ()), .handled (.ok ()), st)
  | .ack id =>
    let (r, st) := streamCall (.ack stream o.group [id]) now st
    (.ack id r, .acked r, st)
  | .wait _ => (.wait, .elapsed, st)

/-- What the owner of an undisturbed subscription has signalled: nothing. -/
def Outlook.silent (now : Nat) : Outlook := ⟨now, false, false⟩

/-- One turn: the request of the loop is served, and the loop takes the reply. -/
def turn (stream : String) (o : Options) (now : Nat) (x : State × Store) :
    List Deed × State × Store :=
  match x.1.request o with
  | none => ([], x)
  | some q =>
    let (deed, reply, st) := q.served stream o now x.2
    ([deed], x.1.step stream o reply (.silent now), st)

/-- So many turns, from turn number `i` on. `clock` has a reading for each turn. -/
def turns (stream : String) (o : Options) (clock : Nat → Nat) : (i count : Nat) → State × Store →
    List Deed × State × Store
  | _, 0, x => ([], x)
  | i, count + 1, x =>
    let (deeds, y) := turn stream o (clock i) x
    let (rest, z) := turns stream o clock (i + 1) count y
    (deeds ++ rest, z)

/-- The deeds are those of as many turns, from turn number `i` on. -/
def Does (stream : String) (o : Options) (clock : Nat → Nat) (i : Nat) (x : State × Store)
    (deeds : List Deed) (y : State × Store) : Prop :=
  turns stream o clock i deeds.length x = (deeds, y)

section Does

variable {stream : String} {o : Options} {clock : Nat → Nat} {i : Nat} {x y z : State × Store}
  {deeds rest : List Deed} {d : Deed}

theorem turns_add (m n : Nat) : turns stream o clock i (m + n) x =
    ((turns stream o clock i m x).1 ++ (turns stream o clock (i + m) n
      (turns stream o clock i m x).2).1,
      (turns stream o clock (i + m) n (turns stream o clock i m x).2).2) := by
  induction m generalizing i x with
  | zero => simp [turns]
  | succ m ih =>
    have hi : i + (m + 1) = i + 1 + m := by omega
    simp only [Nat.succ_add, turns, ih, hi, List.append_assoc]

theorem Does.one (h : turn stream o (clock i) x = ([d], y)) : Does stream o clock i x [d] y := by
  simp only [Does, List.length_singleton, turns, h, List.append_nil]

theorem Does.append (h : Does stream o clock i x deeds y)
    (hrest : Does stream o clock (i + deeds.length) y rest z) :
    Does stream o clock i x (deeds ++ rest) z := by
  unfold Does at *
  rw [List.length_append, turns_add, h, hrest]

theorem Does.cons (h : turn stream o (clock i) x = ([d], y))
    (hrest : Does stream o clock (i + 1) y rest z) : Does stream o clock i x (d :: rest) z :=
  (Does.one h).append hrest

end Does

/-! ## Replies to an undisturbed loop -/

section Replies

variable {stream : String} {o : Options} {s : State} {now : Nat}

theorem round_silent (ho : o.claimIdle = none) (s : State) :
    (s.round o (.silent now)).At .reading s.pendingFrom := by
  simp [State.round, State.interruptible, Outlook.silent, State.At, ho]

/-- Where the loop stands before the entries: at the first of them, or at the
next read if there are none. -/
def before : List Entry → Phase
  | [] => .reading
  | e :: rest => Batch.phase ⟨e, rest, false⟩

/-- The place of the pending pass after a portion of it. -/
def passed (after : Nat) (page : List Entry) : Nat := ((page.map (·.id)).getLast?).getD after

theorem step_portion (ho : o.claimIdle = none) (hp : s.phase = .reading) (entries : List Entry) :
    (s.step stream o (.entries (.ok entries)) (.silent now)).At (before entries)
      (if entries = [] then none else s.pendingFrom.map (passed · entries)) := by
  cases entries with
  | nil =>
    unfold State.step
    rw [hp]
    exact round_silent ho _
  | cons e rest =>
    rw [if_neg (List.cons_ne_nil e rest)]
    simp only [passed, getLast?_ids, Option.getD_some]
    exact step_readSome hp e rest

theorem step_acked_silent (ho : o.claimIdle = none) {e : Entry} {rest : List Entry}
    (hp : s.phase = .acking ⟨e, rest, false⟩) (n : Nat) :
    (s.step stream o (.acked (.ok n)) (.silent now)).At (before rest) s.pendingFrom := by
  cases rest with
  | nil =>
    unfold State.step
    rw [hp]
    exact round_silent ho _
  | cons next rest => exact step_acked hp n

end Replies

/-! ## The group of an undisturbed subscription -/

/-- The consumer holds these entries of its group, which has read so far in
this log. -/
structure Stands (stream : String) (o : Options) (log : List Fields) (held : List Nat)
    (cursor : Nat) (st : Store) : Prop where
  good : st.Good
  log : st.log stream = log
  group : ∃ g, st.groupOf stream o.group = some g ∧ g.held o.consumer = held ∧ g.cursor = cursor

theorem take_range' (first size count : Nat) :
    (List.range' first size).take count = List.range' first (min count size) := by
  apply List.ext_getElem
  · simp
  · simp

theorem drop_range' (first size count : Nat) :
    (List.range' first size).drop count = List.range' (first + min count size) (size - count) := by
  rw [List.drop_range', Nat.mul_one]
  rcases Nat.le_total count size with hle | hle
  · rw [Nat.min_eq_left hle]
  · rw [Nat.sub_eq_zero_of_le hle]
    rfl

namespace Stands

variable {stream : String} {o : Options} {log : List Fields} {held : List Nat} {cursor : Nat}
  {st : Store} {block : Span}

theorem setGroup (h : Stands stream o log held cursor st) {g : Nested.Group} (hg : g.Good log) :
    Stands stream o log (g.held o.consumer) g.cursor (st.setGroup stream o.group g) := by
  refine ⟨h.good.setGroup (h.log ▸ hg), ?_, g, ?_, rfl, rfl⟩
  · rw [Nested.log_setGroup, h.log]
  · rw [Nested.groupOf_setGroup, if_pos ⟨rfl, rfl⟩]

theorem exists_group (h : Stands stream o log held cursor st) : ∃ g : Nested.Group,
    st.groupOf stream o.group = some g ∧ g.Good log ∧ g.held o.consumer = held ∧
      g.cursor = cursor := by
  obtain ⟨g, hg, hheld, hcursor⟩ := h.group
  exact ⟨g, hg, h.log ▸ h.good stream o.group g hg, hheld, hcursor⟩

theorem sorted (h : Stands stream o log held cursor st) : held.Pairwise (· < ·) := by
  obtain ⟨g, -, hgood, rfl, -⟩ := h.exists_group
  exact hgood.held_sorted o.consumer

theorem cursor_le (h : Stands stream o log held cursor st) : cursor ≤ log.length := by
  obtain ⟨g, -, hgood, -, rfl⟩ := h.exists_group
  exact hgood.cursor_le

/-- The first entry that is held is acknowledged. -/
theorem ack {id : Nat} (h : Stands stream o log (id :: held) cursor st) (now : Nat) :
    ∃ st', streamCall (.ack stream o.group [id]) now st = (.ok 1, st') ∧
      Stands stream o log held cursor st' := by
  obtain ⟨g, hg, hgood, hheld, rfl⟩ := h.exists_group
  have hone : (Nested.acknowledge [id] g.pending).1 = 1 := by
    have hid : id ∈ g.ids := (Nested.held_sublist g o.consumer).subset (by simp [hheld])
    obtain ⟨d, hd, rfl⟩ := List.mem_map.1 hid
    have hany : g.pending.any (fun x => x.id = d.id) = true := List.any_eq_true.2 ⟨d, hd, by simp⟩
    simp [Nested.acknowledge, hany]
  have hrest : Nested.Group.held { g with pending := (Nested.acknowledge [id] g.pending).2 }
      o.consumer = held := by
    rw [Nested.held_acknowledge, hheld, List.filter_cons_of_neg (by simp), List.filter_eq_self]
    intro i hi
    have := (List.pairwise_cons.1 h.sorted).1 i hi
    simp only [List.mem_singleton, decide_eq_true_eq]
    omega
  refine ⟨_, ?_, hrest ▸ h.setGroup (hgood.acknowledge [id])⟩
  rw [← hone]
  exact Nested.onGroup_some _ hg

/-- A read of pending entries returns the first ones that are held. -/
theorem readPending (h : Stands stream o log held cursor st) {after : Nat}
    (hafter : ∀ id ∈ held, after < id) (block : Span) (now : Nat) : ∃ entries st',
      streamCall (.readGroup stream o.group o.consumer (.pending after) o.batchSize block) now st
        = (.ok entries, st') ∧
      entries.map (·.id) = held.take o.batchSize ∧ Stands stream o log held cursor st' := by
  obtain ⟨g, hg, hgood, hheld, rfl⟩ := h.exists_group
  have hkept := Nested.held_readPending o.consumer after o.batchSize now log g o.consumer
  refine ⟨_, _, Nested.onGroup_some _ hg, ?_, ?_⟩
  · rw [h.log, Nested.map_id_readPending hgood, hheld, List.filter_eq_self.2 (by simpa using hafter)]
  · rw [h.log, ← hheld, ← hkept]
    exact h.setGroup (hgood.of_ids (Nested.ids_readPending _ _ _ _ _ _) rfl)

/-- A read of new entries returns the first ones beyond the cursor. -/
theorem readNew (h : Stands stream o log held cursor st) (block : Span) (now : Nat) :
    ∃ entries st',
      streamCall (.readGroup stream o.group o.consumer .new o.batchSize block) now st
        = (.ok entries, st') ∧
      entries.map (·.id) = (List.range' (cursor + 1) (log.length - cursor)).take o.batchSize ∧
      Stands stream o log (held ++ entries.map (·.id)) (cursor + entries.length) st' := by
  obtain ⟨g, hg, hgood, hheld, rfl⟩ := h.exists_group
  have hgiven := Nested.held_readNew o.consumer o.batchSize now log g
  refine ⟨_, _, Nested.onGroup_some _ hg, ?_, ?_⟩
  · simp only [h.log, Nested.readNew, Nested.map_id_freshEntries, Nested.length_freshEntries,
      take_range']
  · rw [h.log, ← hheld, ← hgiven]
    exact h.setGroup (hgood.readNew o.consumer o.batchSize now)

/-- A read returns what was appended under the ids. -/
theorem logged (h : Stands stream o log held cursor st) {mode : ReadMode} {block : Span}
    {now : Nat} {entries : List Entry} {st' : Store} {held' : List Nat} {cursor' : Nat}
    (hcall : streamCall (.readGroup stream o.group o.consumer mode o.batchSize block) now st
      = (.ok entries, st'))
    (h' : Stands stream o log held' cursor' st') : ∀ e ∈ entries, log[e.id - 1]? = some e.fields := by
  intro e he
  rw [← h'.log]
  exact Nested.logged_of_readGroup h.good hcall e he

end Stands

/-! ## Entries at hand -/

/-- What becomes of an entry at hand: it is handled if it is an event, and then
it is acknowledged. -/
def work (e : Entry) : List Deed :=
  match Event.decode e.fields with
  | .ok (some event) => [.handle event (.ok ()), .ack e.id (.ok 1)]
  | _ => [.ack e.id (.ok 1)]

section Work

variable (clock : Nat → Nat) (i : Nat) {stream : String} {o : Options} {cursor : Nat}
  {log : List Fields} {later : List Nat} {x : State × Store} {position : Option Nat}

theorem turn_of_request {now : Nat} {q : Request} (h : x.1.request o = some q) :
    turn stream o now x = ([(q.served stream o now x.2).1],
      x.1.step stream o (q.served stream o now x.2).2.1 (.silent now),
      (q.served stream o now x.2).2.2) := by
  simp only [turn, h]

/-- An event at hand goes to the handler. -/
theorem turn_handling {now : Nat} {event : Event} {b : Batch}
    (hs : x.1.At (.handling event b) position) : ∃ s,
      turn stream o now x = ([.handle event (.ok ())], s, x.2) ∧ s.At (.acking b) position := by
  have hq : x.1.request o = some (.handle event) := by
    simp only [State.request, hs.1]
  refine ⟨_, turn_of_request hq, ?_⟩
  rw [← hs.2]
  exact step_handled hs.1

theorem turn_acking (ho : o.claimIdle = none) {now : Nat} {e : Entry} {rest : List Entry}
    (hs : x.1.At (.acking ⟨e, rest, false⟩) position)
    (hst : Stands stream o log (e.id :: later) cursor x.2) :
    ∃ y, turn stream o now x = ([.ack e.id (.ok 1)], y) ∧ y.1.At (before rest) position ∧
      Stands stream o log later cursor y.2 := by
  obtain ⟨st', hcall, hst'⟩ := hst.ack now
  have hq : x.1.request o = some (.ack e.id) := by
    simp only [State.request, hs.1]
  refine ⟨(x.1.step stream o (.acked (.ok 1)) (.silent now), st'), ?_, ?_, hst'⟩
  · rw [turn_of_request hq]
    simp only [Request.served, hcall]
  · rw [← hs.2]
    exact step_acked_silent ho hs.1 1

theorem does_work (ho : o.claimIdle = none) {e : Entry} {rest : List Entry}
    (hs : x.1.At (before (e :: rest)) position)
    (hst : Stands stream o log (e.id :: later) cursor x.2) :
    ∃ y, Does stream o clock i x (work e) y ∧ y.1.At (before rest) position ∧
      Stands stream o log later cursor y.2 := by
  simp only [before, Batch.phase] at hs
  unfold work
  split
  case h_1 event hd =>
    rw [hd] at hs
    obtain ⟨s, hturn, hs⟩ := turn_handling hs
    obtain ⟨y, hturn', hy, hst'⟩ := turn_acking ho (x := (s, x.2)) hs hst
    exact ⟨y, .cons hturn (.one hturn'), hy, hst'⟩
  case h_2 hne =>
    have hs' : x.1.At (.acking ⟨e, rest, false⟩) position := by
      rcases hd : Event.decode e.fields with _ | _ | event
      · rwa [hd] at hs
      · rwa [hd] at hs
      · exact absurd hd (hne event)
    obtain ⟨y, hturn, hy, hst'⟩ := turn_acking ho hs' hst
    exact ⟨y, .one hturn, hy, hst'⟩

/-- All entries of a portion are worked off, one after the other. -/
theorem does_portion (ho : o.claimIdle = none) {entries : List Entry}
    (hs : x.1.At (before entries) position)
    (hst : Stands stream o log (entries.map (·.id) ++ later) cursor x.2) :
    ∃ y, Does stream o clock i x (entries.flatMap work) y ∧ y.1.At .reading position ∧
      Stands stream o log later cursor y.2 := by
  induction entries generalizing i x with
  | nil => exact ⟨x, rfl, hs, hst⟩
  | cons e rest ih =>
    obtain ⟨y, hdoes, hy, hst'⟩ := does_work clock i ho hs hst
    obtain ⟨z, hrest, hz, hst''⟩ := ih (i + (work e).length) hy hst'
    exact ⟨z, hdoes.append hrest, hz, hst''⟩

end Work

/-! ## Portions -/

/-- The entries with these ids of a log come in portions of at most `n`, none
of them empty, and as few as can be. -/
structure Portions (n : Nat) (log : List Fields) (ids : List Nat)
    (portions : List (List Entry)) : Prop where
  together : portions.flatten.map (·.id) = ids
  logged : ∀ e ∈ portions.flatten, log[e.id - 1]? = some e.fields
  length : portions.length = (ids.length + n - 1) / n
  sizes : ∀ entries ∈ portions, entries ≠ [] ∧ entries.length ≤ n

namespace Portions

variable {n : Nat} {log : List Fields} {ids : List Nat} {entries : List Entry}
  {portions : List (List Entry)}

theorem nil (hn : 1 ≤ n) : Portions n log [] [] := by
  refine ⟨rfl, by simp, ?_, by simp⟩
  simp only [List.length_nil, Nat.zero_add]
  exact (Nat.div_eq_of_lt (by omega)).symm

theorem cons (hn : 1 ≤ n) (hne : ids ≠ []) (he : entries.map (·.id) = ids.take n)
    (hlogged : ∀ e ∈ entries, log[e.id - 1]? = some e.fields)
    (h : Portions n log (ids.drop n) portions) : Portions n log ids (entries :: portions) := by
  have hpos : 0 < ids.length := List.length_pos_iff.2 hne
  have hsize : entries.length = min n ids.length := by
    rw [← List.length_map (·.id), he, List.length_take]
  refine ⟨?_, ?_, ?_, ?_⟩
  · rw [List.flatten_cons, List.map_append, he, h.together, List.take_append_drop]
  · intro e hmem
    rw [List.flatten_cons] at hmem
    rcases List.mem_append.1 hmem with hmem | hmem
    · exact hlogged e hmem
    · exact h.logged e hmem
  · rw [List.length_cons, h.length, List.length_drop]
    have hsum : ids.length + n - 1 = ids.length - 1 + n := by omega
    rw [hsum, Nat.add_div_right _ hn]
    congr 1
    rcases Nat.le_total ids.length n with hle | hle
    · rw [Nat.div_eq_of_lt (by omega), Nat.div_eq_of_lt (by omega)]
    · congr 1
      omega
  · intro portion hportion
    rcases List.mem_cons.1 hportion with rfl | hportion
    · exact ⟨List.ne_nil_of_length_pos (by omega), by omega⟩
    · exact h.sizes portion hportion

end Portions

/-! ## Passes -/

/-- The deeds of a read and of all that it returned. -/
def portion (mode : ReadMode) (entries : List Entry) : List Deed :=
  .read mode (.ok entries) :: entries.flatMap work

/-- A pass over pending entries: portion after portion, each read from where
the last one ended, and a read that finds nothing more. -/
def pass : (after : Nat) → List (List Entry) → List Deed
  | after, [] => portion (.pending after) []
  | after, page :: pages => portion (.pending after) page ++ pass (passed after page) pages

section Passes

variable (clock : Nat → Nat) (i : Nat) {stream : String} {o : Options} {cursor : Nat}
  {log : List Fields} {held : List Nat} {x : State × Store}

/-- A read, and all that it returned. -/
theorem does_read (ho : o.claimIdle = none) {position : Option Nat} {mode : ReadMode} {block : Span}
    (hs : x.1.At .reading position) (hq : x.1.request o = some (.read mode block))
    {entries : List Entry} {st : Store}
    (hcall : streamCall (.readGroup stream o.group o.consumer mode o.batchSize block) (clock i) x.2
      = (.ok entries, st))
    (hst : Stands stream o log (entries.map (·.id) ++ held) cursor st) : ∃ y,
      Does stream o clock i x (portion mode entries) y ∧
      y.1.At .reading (if entries = [] then none else position.map (passed · entries)) ∧
      Stands stream o log held cursor y.2 := by
  let s := x.1.step stream o (.entries (.ok entries)) (.silent (clock i))
  have hturn : turn stream o (clock i) x = ([.read mode (.ok entries)], s, st) := by
    rw [turn_of_request hq]
    simp only [Request.served, hcall, s]
  have hat : s.At (before entries)
      (if entries = [] then none else position.map (passed · entries)) :=
    hs.2 ▸ step_portion ho hs.1 entries
  obtain ⟨y, hdoes, hy, hst'⟩ := does_portion clock (i + 1) ho (x := (s, st)) hat hst
  exact ⟨y, .cons hturn hdoes, hy, hst'⟩

/-- A portion of a pass is the start of what is held. -/
theorem does_page (ho : o.claimIdle = none) {after : Nat}
    (hs : x.1.At .reading (some after)) (hst : Stands stream o log held cursor x.2)
    (hafter : ∀ id ∈ held, after < id) : ∃ page y,
      page.map (·.id) = held.take o.batchSize ∧
      (∀ e ∈ page, log[e.id - 1]? = some e.fields) ∧
      Does stream o clock i x (portion (.pending after) page) y ∧
      y.1.At .reading (if page = [] then none else some (passed after page)) ∧
      Stands stream o log (held.drop o.batchSize) cursor y.2 := by
  obtain ⟨page, st, hcall, hids, hst'⟩ := hst.readPending hafter Span.zero (clock i)
  have hq : x.1.request o = some (.read (.pending after) Span.zero) := by
    simp only [State.request, hs.1, State.readRequest, hs.2]
  have hsplit : page.map (·.id) ++ held.drop o.batchSize = held := by
    rw [hids, List.take_append_drop]
  obtain ⟨y, hdoes, hy, hst''⟩ := does_read clock i ho hs hq hcall (hsplit.symm ▸ hst')
  exact ⟨page, y, hids, hst.logged hcall hst', hdoes, hy, hst''⟩

/-- What is left after a portion of a pass lies beyond it. -/
theorem passed_lt {after n : Nat} {page : List Entry} (hsorted : held.Pairwise (· < ·))
    (hne : page ≠ []) (hids : page.map (·.id) = held.take n) :
    ∀ id ∈ held.drop n, passed after page < id := by
  obtain ⟨e, rest, rfl⟩ := List.exists_cons_of_ne_nil hne
  intro id hid
  have hlast := getLast?_ids e rest
  simp only [passed, hlast, Option.getD_some]
  rw [hids] at hlast
  rw [← List.take_append_drop n held, List.pairwise_append] at hsorted
  exact hsorted.2.2 _ (List.mem_of_getLast? hlast) id hid

/-- A pass works off all that is held, and then finds nothing. -/
theorem does_pass (ho : o.claimIdle = none) (hb : 1 ≤ o.batchSize) {after : Nat}
    (hs : x.1.At .reading (some after)) (hst : Stands stream o log held cursor x.2)
    (hafter : ∀ id ∈ held, after < id) : ∃ pages y,
      Portions o.batchSize log held pages ∧ Does stream o clock i x (pass after pages) y ∧
      y.1.At .reading none ∧ Stands stream o log [] cursor y.2 := by
  -- The induction is on how much is held: each portion takes its start away.
  induction hsize : held.length using Nat.strong_induction_on generalizing held after i x with
  | _ size ih =>
    obtain ⟨page, y, hids, hlogged, hdoes, hy, hst'⟩ :=
      does_page clock i ho hs hst hafter
    by_cases hnil : held = []
    · subst hnil
      obtain rfl : page = [] := by simpa using hids
      exact ⟨[], y, .nil hb, hdoes, hy, by simpa using hst'⟩
    · have hpos : 0 < held.length := List.length_pos_iff.2 hnil
      have hne : page ≠ [] := by
        rintro rfl
        have hlen := congrArg List.length hids
        rw [List.map_nil, List.length_nil, List.length_take] at hlen
        omega
      rw [if_neg hne] at hy
      obtain ⟨pages, z, hpages, hrest, hz, hst''⟩ :=
        ih (held.drop o.batchSize).length (by rw [List.length_drop]; omega)
          (i + (portion (.pending after) page).length) hy hst' (passed_lt hst.sorted hne hids) rfl
      exact ⟨page :: pages, z, .cons hb hnil hids hlogged hpages, hdoes.append hrest, hz, hst''⟩

/-- A read of new entries, and all that it returned. -/
theorem does_batch (ho : o.claimIdle = none) (hs : x.1.At .reading none)
    (hst : Stands stream o log [] cursor x.2) : ∃ entries y,
      entries.map (·.id) = (List.range' (cursor + 1) (log.length - cursor)).take o.batchSize ∧
      (∀ e ∈ entries, log[e.id - 1]? = some e.fields) ∧
      Does stream o clock i x (portion .new entries) y ∧ y.1.At .reading none ∧
      Stands stream o log [] (cursor + entries.length) y.2 := by
  obtain ⟨entries, st, hcall, hids, hst'⟩ := hst.readNew o.block (clock i)
  have hq : x.1.request o = some (.read .new o.block) := by
    simp only [State.request, hs.1, State.readRequest, hs.2]
  have hst₁ : Stands stream o log (entries.map (·.id) ++ []) (cursor + entries.length) st := by
    simpa using hst'
  obtain ⟨y, hdoes, hy, hst''⟩ := does_read clock i ho hs hq hcall hst₁
  refine ⟨entries, y, hids, hst.logged hcall hst', hdoes, ?_, hst''⟩
  simpa using hy

/-- The loop takes all that is new to the group. -/
theorem does_batches (ho : o.claimIdle = none) (hb : 1 ≤ o.batchSize) (hs : x.1.At .reading none)
    (hst : Stands stream o log [] cursor x.2) : ∃ batches y,
      Portions o.batchSize log (List.range' (cursor + 1) (log.length - cursor)) batches ∧
      Does stream o clock i x (batches.flatMap (portion .new)) y ∧ y.1.At .reading none ∧
      Stands stream o log [] log.length y.2 := by
  -- The induction is on how much is new: each portion moves the cursor past its start.
  induction hsize : log.length - cursor using Nat.strong_induction_on generalizing cursor i x with
  | _ size ih =>
    have hle := hst.cursor_le
    rcases Nat.eq_zero_or_pos size with rfl | hpos
    · obtain rfl : cursor = log.length := by omega
      exact ⟨[], x, .nil hb, rfl, hs, hst⟩
    · obtain ⟨entries, y, hids, hlogged, hdoes, hy, hst'⟩ :=
        does_batch clock i ho hs hst
      have hlen : entries.length = min o.batchSize size := by
        rw [← List.length_map (·.id), hids, List.length_take, List.length_range', hsize]
      obtain ⟨batches, z, hbatches, hrest, hz, hst''⟩ :=
        ih (log.length - (cursor + entries.length)) (by omega)
          (i + (portion .new entries).length) hy hst' rfl
      rw [hsize] at hids
      have hrests : (List.range' (cursor + 1) size).drop o.batchSize =
          List.range' (cursor + entries.length + 1) (log.length - (cursor + entries.length)) := by
        rw [drop_range', hlen]
        congr 1
        · omega
        · omega
      have hne : List.range' (cursor + 1) size ≠ [] := by
        rw [Ne, List.range'_eq_nil_iff]
        omega
      exact ⟨entries :: batches, z, .cons hb hne hids hlogged (hrests ▸ hbatches),
        hdoes.append hrest, hz, hst''⟩

/-- With nothing left, every further read finds nothing. -/
theorem does_idle (ho : o.claimIdle = none) (hs : x.1.At .reading none)
    (hst : Stands stream o log [] log.length x.2) (count : Nat) :
    ∃ y, Does stream o clock i x (List.replicate count (.read .new (.ok []))) y := by
  induction count generalizing i x with
  | zero => exact ⟨x, rfl⟩
  | succ count ih =>
    obtain ⟨entries, y, hids, -, hdoes, hy, hst'⟩ :=
      does_batch clock i ho hs hst
    obtain rfl : entries = [] := by simpa using hids
    obtain ⟨z, hrest⟩ := ih (i + 1) hy (by simpa using hst')
    exact ⟨z, hdoes.append hrest⟩

end Passes

/-! ## The main law -/

/-- From any well-formed store on, with any entries held by this consumer and by
others, an undisturbed subscription makes as few reads as its batch size
allows, and one that finds its pass at an end. It turns to each entry once, in
order, to all that it held before all that is new. Then it holds nothing, its
group has read the log to the end, and all further reads find nothing. -/
theorem catching_up_takes_a_bounded_number_of_reads (clock : Nat → Nat) {stream : String}
    {o : Options} {s : State} {st : Store} {g : Nested.Group} (ho : o.claimIdle = none)
    (hb : 1 ≤ o.batchSize) (hs : s.At .reading (some 0)) (hst : st.Good)
    (hg : st.groupOf stream o.group = some g) :
    ∃ pages batches y,
      Portions o.batchSize (st.log stream) (g.held o.consumer) pages ∧
      Portions o.batchSize (st.log stream)
        (List.range' (g.cursor + 1) ((st.log stream).length - g.cursor)) batches ∧
      ((pages ++ batches).flatten.map (·.id)).Pairwise (· < ·) ∧
      Does stream o clock 0 (s, st) (pass 0 pages ++ batches.flatMap (portion .new)) y ∧
      Stands stream o (st.log stream) [] (st.log stream).length y.2 ∧
      ∀ count, ∃ z, Does stream o clock
        (pass 0 pages ++ batches.flatMap (portion .new)).length y
        (List.replicate count (.read .new (.ok []))) z := by
  have hstands : Stands stream o (st.log stream) (g.held o.consumer) g.cursor st :=
    ⟨hst, rfl, g, hg, rfl, rfl⟩
  have hgood := hst stream o.group g hg
  have hin : ∀ id ∈ g.held o.consumer, id ∈ g.ids := fun id hid =>
    (Nested.held_sublist g o.consumer).subset hid
  obtain ⟨pages, x, hpages, hpass, hx, hstands⟩ :=
    does_pass clock 0 ho hb (x := (s, st)) hs hstands (fun id hid => hgood.positive id (hin id hid))
  obtain ⟨batches, y, hbatches, hrest, hy, hstands⟩ :=
    does_batches clock (0 + (pass 0 pages).length) ho hb hx hstands
  refine ⟨pages, batches, y, hpages, hbatches, ?_, hpass.append hrest, hstands, ?_⟩
  · rw [List.flatten_append, List.map_append, hpages.together, hbatches.together]
    refine List.pairwise_append.2 ⟨hgood.held_sorted _, List.pairwise_lt_range', ?_⟩
    intro a ha b hb
    have hle := hgood.within a (hin a ha)
    have hlt := (List.mem_range'_1.1 hb).1
    omega
  · exact does_idle clock _ ho hy hstands

/-- Two consumers took five of eight records in turns: three are held by `c`, in
between them two by `d`. -/
def takenInTurns : List (Nat × StreamCall) :=
  (0, .createGroup "s" "g" .beginning) ::
    List.replicate 8 (0, .append "s" (Event.removed .thing "t").encode) ++
    ["c", "d", "c", "d", "c"].map (fun consumer =>
      (0, .readGroup "s" "g" consumer .new 1 Span.zero))

/-- Reading by twos, a subscription catches up with three entries and three
more in two reads each. -/
theorem three_and_three_by_twos :
    let o := { unclaiming "g" "c" with batchSize := 2 }
    let s := { State.start with phase := .reading }
    let st := Nested.storeAfter takenInTurns
    let g : Nested.Group := ⟨5, [⟨1, "c", 0, 1⟩, ⟨2, "d", 0, 1⟩, ⟨3, "c", 0, 1⟩, ⟨4, "d", 0, 1⟩,
      ⟨5, "c", 0, 1⟩]⟩
    o.claimIdle = none ∧ 1 ≤ o.batchSize ∧ s.At .reading (some 0) ∧ st.Good ∧
      st.groupOf "s" "g" = some g ∧
      ∃ pages batches y, pages.length = 2 ∧ batches.length = 2 ∧
        (pages ++ batches).flatten.map (·.id) = [1, 3, 5, 6, 7, 8] ∧
        Does "s" o id 0 (s, st) (pass 0 pages ++ batches.flatMap (portion .new)) y ∧
        Stands "s" o (st.log "s") [] 8 y.2 := by
  intro o s st g
  have hst : st.Good := Nested.good_storeAfter takenInTurns
  have hg : st.groupOf "s" "g" = some g := rfl
  have hlog : (st.log "s").length = 8 := rfl
  obtain ⟨pages, batches, y, hpages, hbatches, -, hdoes, hy, -⟩ :=
    catching_up_takes_a_bounded_number_of_reads id (s := s) (o := o) rfl (by decide)
      ⟨rfl, rfl⟩ hst hg
  rw [hlog] at hbatches hy
  refine ⟨rfl, by decide, ⟨rfl, rfl⟩, hst, hg, pages, batches, y, ?_, ?_, ?_, hdoes, hy⟩
  · exact hpages.length.trans (by decide)
  · exact hbatches.length.trans (by decide)
  · rw [List.flatten_append, List.map_append, hpages.together, hbatches.together]
    rfl

end Subscription

end LifecycleLog
