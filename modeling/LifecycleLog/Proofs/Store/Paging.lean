-- Paging through what is pending for a consumer. Each page is read from the last
-- id that was returned before, until a page is empty. Between two pages others
-- may do anything but call the group, and what was returned may be
-- acknowledged there. A page is the start of what the consumer holds beyond
-- that id, and nothing of this changes meanwhile, so no entry is skipped and
-- none comes twice, in a store of nested maps as in one of flat tables.
import LifecycleLog.Proofs.Store.Bookkeeping
import LifecycleLog.Proofs.Subscription.CatchUp
import Mathlib.Data.List.Sort

namespace LifecycleLog

open Subscription (Portions le_getLast_of_rising)

/-! ## The loop -/

/-- The ids of entries that came in pages. -/
def returned (pages : List (List Entry)) : List Nat := pages.flatten.map (·.id)

/-- What may be called between two pages of a group: anything but the group, and
acknowledgements of what was returned. -/
def Meanwhile (stream group : String) (pages : List (List Entry)) : Call → Prop
  | .key _ => True
  | .stream c => c.target ≠ some (stream, group) ∨
      ∃ ids, c = .ack stream group ids ∧ ∀ id ∈ ids, id ∈ returned pages

/-- A consumer that goes through its pending entries. -/
structure Paging where
  stream : String
  group : String
  consumer : String
  size : Nat
  block : Span
  /-- The clock at each read. -/
  clock : Nat → Nat
  /-- The calls that are made after the last of the given pages. -/
  between : List (List Entry) → List (Nat × Call)
  size_pos : 1 ≤ size
  considerate : ∀ pages, ∀ x ∈ between pages, Meanwhile stream group pages x.2

namespace Paging

variable {σ : Type}

/-- The place that pages have come to: the last id among them. -/
def place (pages : List (List Entry)) : Nat := ((returned pages).getLast?).getD 0

abbrev read (p : Paging) (pages : List (List Entry)) : StreamCall :=
  .readGroup p.stream p.group p.consumer (.pending (place pages)) p.size p.block

/-- With `past` returned before, the loop returns these pages, then reads an
empty one and stops. -/
inductive Reads (p : Paging) (b : Backend σ) :
    (past : List (List Entry)) → σ → (pages : List (List Entry)) → σ → Prop
  | done {past : List (List Entry)} {s s' : σ}
    (h : b.streamCall (p.read past) (p.clock past.length) s = (.ok [], s')) : Reads p b past s [] s'
  | page {past pages : List (List Entry)} {page : List Entry} {s s' t : σ}
    (h : b.streamCall (p.read past) (p.clock past.length) s = (.ok page, s')) (hne : page ≠ [])
    (rest : Reads p b (past ++ [page]) (b.later (p.between (past ++ [page])) s') pages t) :
    Reads p b past s (page :: pages) t

/-- All calls that are made between the pages. -/
def meanwhile (p : Paging) (pages : List (List Entry)) : List (Nat × Call) :=
  pages.inits.tail.flatMap p.between

end Paging

/-! ## What the pages should be -/

/-- The entries with these ids of a log come in pages of one size, the last of
which may be shorter, and each entry with one delivery more than was noted. -/
structure Paged (size : Nat) (log : List Fields) (ids : List Nat) (before : Notes)
    (pages : List (List Entry)) : Prop where
  portions : Portions size log ids pages
  full : ∀ page ∈ pages.dropLast, page.length = size
  counted : ∀ e ∈ pages.flatten, e.deliveries = before.count e.id + 1

/-- At most the notes of these ids changed. -/
structure Notes.Spared (ids : List Nat) (before after : Notes) : Prop where
  cursor : after.cursor = before.cursor
  kept : ∀ id ∉ ids, after.note? id = before.note? id

/-- Pages that may come: of pending entries of the consumer, in order, and none
of them empty. -/
structure Paging.MayCome (p : Paging) (before : Notes) (pages : List (List Entry)) : Prop where
  rising : (returned pages).Pairwise (· < ·)
  own : ∀ id ∈ returned pages, ∃ note, before.note? id = some note ∧ note.consumer = p.consumer
  filled : ∀ page ∈ pages, page ≠ []

/-- After these calls, paging returns just the entries that are pending for the
consumer, in the order of their ids, and changes no other note, as long as the
calls that are made in all are allowed. -/
def Paging.Exact {σ : Type} (p : Paging) (b : Backend σ)
    (notes? : σ → String → String → Option Notes) (allowed : List (Nat × Call) → Prop)
    (calls : List (Nat × Call)) : Prop :=
  ∀ before, notes? (b.after calls) p.stream p.group = some before →
    (∀ pages, p.MayCome before pages → allowed (calls ++ p.meanwhile pages)) →
    ∃ ids pages s after, ids.Pairwise (· < ·) ∧
      (∀ id, id ∈ ids ↔ ∃ note, before.note? id = some note ∧ note.consumer = p.consumer) ∧
      p.Reads b [] (b.after calls) pages s ∧
      Paged p.size (calls.flatMap (fun x => x.2.adds p.stream)) ids before pages ∧
      notes? s p.stream p.group = some after ∧ before.Spared ids after

/-! ## Pages -/

section Pages

variable {size : Nat} {log more : List Fields} {ids ids' : List Nat} {n n' n'' : Notes}
  {page : List Entry} {past pages : List (List Entry)}

namespace Notes.Spared

theorem trans (h : n.Spared ids n') (h' : n'.Spared ids n'') : n.Spared ids n'' :=
  ⟨h'.cursor.trans h.cursor, fun id hid => (h'.kept id hid).trans (h.kept id hid)⟩

theorem mono (h : n.Spared ids n') (hsub : ids ⊆ ids') : n.Spared ids' n' :=
  ⟨h.cursor, fun id hid => h.kept id (fun hm => hid (hsub hm))⟩

theorem count_eq (h : n.Spared ids n') {id : Nat} (hid : id ∉ ids) : n'.count id = n.count id := by
  unfold Notes.count
  rw [h.kept id hid]

theorem inMillis (h : n.Spared ids n') : n.inMillis.Spared ids n'.inMillis := by
  refine ⟨h.cursor, fun id hid => ?_⟩
  simp only [Notes.inMillis, h.kept id hid]

end Notes.Spared

/-- Whole milliseconds change no owner. -/
theorem Notes.own_inMillis (n : Notes) (id : Nat) (consumer : String) :
    (∃ note, n.inMillis.note? id = some note ∧ note.consumer = consumer) ↔
      ∃ note, n.note? id = some note ∧ note.consumer = consumer := by
  simp only [Notes.inMillis, Option.map_eq_some_iff]
  constructor
  · rintro ⟨_, ⟨note, hnote, rfl⟩, hc⟩
    exact ⟨note, hnote, hc⟩
  · rintro ⟨note, hnote, hc⟩
    exact ⟨_, ⟨note, hnote, rfl⟩, hc⟩

theorem Paging.MayCome.inMillis {p : Paging} (h : p.MayCome n pages) : p.MayCome n.inMillis pages :=
  ⟨h.rising, fun id hid => (Notes.own_inMillis n id _).2 (h.own id hid), h.filled⟩

theorem returned_append (past pages : List (List Entry)) :
    returned (past ++ pages) = returned past ++ returned pages := by
  simp [returned]

theorem returned_singleton (page : List Entry) : returned [page] = page.map (·.id) := by
  simp [returned]

/-- The entries with the first of these ids of a log. -/
structure StartOf (size : Nat) (log : List Fields) (ids : List Nat) (before : Notes)
    (page : List Entry) : Prop where
  first : page.map (·.id) = ids.take size
  logged : ∀ e ∈ page, log[e.id - 1]? = some e.fields
  counted : ∀ e ∈ page, e.deliveries = before.count e.id + 1

namespace Paged

theorem nil (hs : 1 ≤ size) : Paged size log [] n [] :=
  ⟨.nil hs, by simp, by simp⟩

theorem cons (hs : 1 ≤ size) (hne : ids ≠ []) (hpage : StartOf size log ids n page)
    (h : Paged size log (ids.drop size) n pages) : Paged size log ids n (page :: pages) := by
  refine ⟨h.portions.cons hs hne hpage.first hpage.logged, ?_, ?_⟩
  · cases pages with
    | nil => simp
    | cons next rest =>
      -- another page follows, so this one did not take all
      have hnext := (h.portions.sizes next List.mem_cons_self).1
      have hleft : 0 < (ids.drop size).length := by
        rw [← h.portions.together, List.length_map, List.flatten_cons, List.length_append]
        have := List.length_pos_iff.2 hnext
        omega
      have hlength := congrArg List.length hpage.first
      rw [List.length_map, List.length_take] at hlength
      rw [List.length_drop] at hleft
      intro page' hpage'
      rw [List.dropLast_cons_cons] at hpage'
      rcases List.mem_cons.1 hpage' with rfl | hpage'
      · omega
      · exact h.full page' hpage'
  · intro e he
    rw [List.flatten_cons] at he
    rcases List.mem_append.1 he with he | he
    · exact hpage.counted e he
    · exact h.counted e he

theorem inMillis (h : Paged size log ids n pages) : Paged size log ids n.inMillis pages := by
  refine ⟨h.portions, h.full, fun e he => ?_⟩
  rw [Notes.count_inMillis]
  exact h.counted e he

/-- Pages look the same in a longer log, and by notes that agree on their ids. -/
theorem congr (h : Paged size (log ++ more) ids n' pages)
    (hlog : ∀ id ∈ ids, (log ++ more)[id - 1]? = log[id - 1]?)
    (hnotes : ∀ id ∈ ids, n'.count id = n.count id) : Paged size log ids n pages := by
  have hin : ∀ e ∈ pages.flatten, e.id ∈ ids := by
    intro e he
    rw [← h.portions.together]
    exact List.mem_map_of_mem he
  refine ⟨⟨h.portions.together, fun e he => ?_, h.portions.length, h.portions.sizes⟩, h.full,
    fun e he => ?_⟩
  · rw [← hlog e.id (hin e he)]
    exact h.portions.logged e he
  · rw [← hnotes e.id (hin e he)]
    exact h.counted e he

end Paged

end Pages

/-! ## What a group holds beyond a place -/

namespace Nested

variable {log log' : List Fields} {g g' : Group} {consumer : String} {after : Nat}

theorem mem_held_iff (h : g.Good log) {id : Nat} : id ∈ g.held consumer ↔
    ∃ note, g.notes.note? id = some note ∧ note.consumer = consumer := by
  unfold Group.held Group.notes
  simp only [List.mem_map, List.mem_filter, decide_eq_true_eq, noteIn_eq_some_iff h.sorted]
  constructor
  · rintro ⟨d, ⟨hd, hc⟩, hid⟩
    exact ⟨d.note, ⟨d, hd, hid, rfl⟩, hc⟩
  · rintro ⟨_, ⟨d, hd, hid, rfl⟩, hc⟩
    exact ⟨d, ⟨hd, hc⟩, hid⟩

/-- What the consumer holds beyond a place. -/
def Group.heldBeyond (g : Group) (consumer : String) (after : Nat) : List Nat :=
  (g.held consumer).filter (fun id => after < id)

theorem mem_heldBeyond {id : Nat} :
    id ∈ g.heldBeyond consumer after ↔ id ∈ g.held consumer ∧ after < id := by
  simp [Group.heldBeyond]

theorem heldBeyond_sorted (h : g.Good log) (consumer : String) (after : Nat) :
    (g.heldBeyond consumer after).Pairwise (· < ·) :=
  (h.held_sorted consumer).filter _

/-- The notes beyond a place tell what is held there. -/
theorem heldBeyond_congr (h : g.Good log) (h' : g'.Good log')
    (hnotes : ∀ id, after < id → g'.notes.note? id = g.notes.note? id) :
    g'.heldBeyond consumer after = g.heldBeyond consumer after := by
  refine (heldBeyond_sorted h' _ _).eq_of_mem_iff (heldBeyond_sorted h _ _) fun id => ?_
  simp only [mem_heldBeyond, mem_held_iff h, mem_held_iff h']
  constructor
  · rintro ⟨hid, hlt⟩
    exact ⟨hnotes id hlt ▸ hid, hlt⟩
  · rintro ⟨hid, hlt⟩
    exact ⟨(hnotes id hlt).symm ▸ hid, hlt⟩

/-- Beyond the last id of a page lies what the page left. -/
theorem heldBeyond_drop (h : g.Good log) {size last : Nat}
    (hlast : ((g.heldBeyond consumer after).take size).getLast? = some last) :
    g.heldBeyond consumer last = (g.heldBeyond consumer after).drop size := by
  have hsorted := heldBeyond_sorted h consumer after
  have hsplit := List.take_append_drop size (g.heldBeyond consumer after)
  have hmem := List.mem_of_mem_take (List.mem_of_getLast? hlast)
  refine (heldBeyond_sorted h _ _).eq_of_mem_iff (hsorted.drop) fun id => ?_
  rw [← hsplit, List.pairwise_append] at hsorted
  have hle : after < last := (mem_heldBeyond.1 hmem).2
  constructor
  · intro hid
    obtain ⟨hheld, hlt⟩ := mem_heldBeyond.1 hid
    have hbeyond : id ∈ g.heldBeyond consumer after := mem_heldBeyond.2 ⟨hheld, by omega⟩
    rw [← hsplit, List.mem_append] at hbeyond
    refine hbeyond.resolve_left fun hid => ?_
    have := le_getLast_of_rising hsorted.1 hlast id hid
    omega
  · intro hid
    have hlt := hsorted.2.2 last (List.mem_of_getLast? hlast) id hid
    exact mem_heldBeyond.2 ⟨(mem_heldBeyond.1 (List.mem_of_mem_drop hid)).1, hlt⟩

/-- A page is the start of what the consumer holds beyond a place. -/
theorem startOf_readPending (h : g.Good log) (consumer : String) (after count now : Nat) :
    StartOf count log (g.heldBeyond consumer after) g.notes
        (readPending consumer after count now log g).1 ∧
      g.notes.Spared ((readPending consumer after count now log g).1.map (·.id))
        (readPending consumer after count now log g).2.notes := by
  have hbooked := booked_redeliver h consumer now
    (fun d => after < d.id && d.consumer = consumer) count
  cases hbooked with
  | delivered known counted read taken kept =>
    refine ⟨⟨map_id_readPending h _ _ _ _, fun e he => ?_, counted⟩, rfl, kept⟩
    obtain ⟨_, _, _, _, hfields⟩ := mem_redeliver he
    exact hfields

end Nested

/-! ## Calls between the pages -/

theorem posting_of_target_ne {stream group : String} {c : StreamCall}
    (h : c.target ≠ some (stream, group)) (result : Except StoreError c.Answer) :
    Outcome.posting stream group ⟨.stream c, result⟩ = .nothing := by
  have hne : ∀ {name name' : String}, some (name, name') ≠ some (stream, group) →
      ¬ (name = stream ∧ name' = group) := by
    rintro name name' hne ⟨rfl, rfl⟩
    exact hne rfl
  cases result with
  | error e => exact Nested.posting_error _ _ _ _
  | ok answer =>
    cases c with
    | append name fields => rfl
    | createGroup name name' start =>
      cases answer with
      | false => rfl
      | true => exact if_neg (hne h)
    | pending name name' => rfl
    | _ => exact if_neg (hne h)

/-- A call that is allowed between pages changes at most the notes of what was
returned. -/
theorem Meanwhile.spared {stream group : String} {pages : List (List Entry)} {c : Call} {time : Nat}
    {result : Except StoreError c.Answer} {n : Notes} {notes : Option Notes}
    (h : Meanwhile stream group pages c)
    (hb : Booked time (Outcome.posting stream group ⟨c, result⟩) (some n) notes) :
    ∃ n', notes = some n' ∧ n.Spared (returned pages) n' := by
  have hnothing : Outcome.posting stream group ⟨c, result⟩ = .nothing →
      ∃ n', notes = some n' ∧ n.Spared (returned pages) n' := by
    intro hd
    rw [hd] at hb
    cases hb
    exact ⟨n, rfl, rfl, fun _ _ => rfl⟩
  cases c with
  | key c => exact hnothing rfl
  | stream c =>
    rcases h with htarget | ⟨ids, rfl, hids⟩
    · exact hnothing (posting_of_target_ne htarget result)
    · cases result with
      | error e => exact hnothing rfl
      | ok answer =>
        simp only [Outcome.posting, and_self, if_true] at hb
        cases hb with
        | acknowledged read dropped kept =>
          exact ⟨_, rfl, read, fun id hid => kept id (fun hm => hid (hids id hm))⟩

/-! ## Stores that follow a nested one -/

/-- Where ids are limited, they last for what the calls append. -/
def Fits (limit : Option Nat) (n : Nested.Store) (calls : List (Nat × Call)) : Prop :=
  ∀ most ∈ limit, ∀ stream,
    (n.log stream).length + (calls.flatMap (fun x => x.2.adds stream)).length ≤ most

/-- Each state has a nested store that stands for it. Every call is booked there
by the clock that the store keeps, and a read of pending entries is made there
alike. -/
structure Backend.Follows {σ : Type} (b : Backend σ) (StandsFor : Nested.Store → σ → Prop)
    (clock : Nat → Nat) (limit : Option Nat) : Prop where
  good {n : Nested.Store} {s : σ} : StandsFor n s → n.Good
  call {n : Nested.Store} {s : σ} {c : Call} (now : Nat) : StandsFor n s → Fits limit n [(now, c)] →
    ∃ n', StandsFor n' (b.call now c s).2 ∧ (∀ stream, n'.log stream = n.log stream ++ c.adds stream) ∧
      Nested.BookedAll (clock now) ⟨c, (b.call now c s).1⟩ n n'
  page {n : Nested.Store} {s : σ} {stream group : String} {g : Nested.Group} (consumer : String)
    (after count now : Nat) (block : Span) : StandsFor n s → n.groupOf stream group = some g →
    ∃ s', b.streamCall (.readGroup stream group consumer (.pending after) count block) now s
        = (.ok (Nested.readPending consumer after count (clock now) (n.log stream) g).1, s') ∧
      StandsFor (n.setGroup stream group
        (Nested.readPending consumer after count (clock now) (n.log stream) g).2) s'

section Follows

variable {σ : Type} {b : Backend σ} {StandsFor : Nested.Store → σ → Prop} {clock : Nat → Nat}
  {limit : Option Nat} {n : Nested.Store} {s : σ} {g : Nested.Group} {stream group : String}

theorem Fits.shorter {calls more : List (Nat × Call)} (h : Fits limit n (calls ++ more)) :
    Fits limit n calls := by
  intro most hmost name
  have := h most hmost name
  rw [List.flatMap_append, List.length_append] at this
  omega

theorem Fits.rest {calls more : List (Nat × Call)} {n' : Nested.Store}
    (h : Fits limit n (calls ++ more))
    (hlog : ∀ name, n'.log name = n.log name ++ calls.flatMap (fun x => x.2.adds name)) :
    Fits limit n' more := by
  intro most hmost name
  have := h most hmost name
  rw [List.flatMap_append, List.length_append] at this
  rw [hlog, List.length_append]
  omega

/-- The calls between two pages leave all notes alone but those of what was
returned. -/
theorem Backend.Follows.later (hb : b.Follows StandsFor clock limit) {pages : List (List Entry)}
    {calls : List (Nat × Call)} (hcalls : ∀ x ∈ calls, Meanwhile stream group pages x.2)
    (hs : StandsFor n s) (hfits : Fits limit n calls) (hg : n.groupOf stream group = some g) :
    ∃ n' g', StandsFor n' (b.later calls s) ∧ n'.groupOf stream group = some g' ∧
      g.notes.Spared (returned pages) g'.notes ∧
      ∀ name, n'.log name = n.log name ++ calls.flatMap (fun x => x.2.adds name) := by
  induction calls generalizing n s g with
  | nil => exact ⟨n, g, hs, hg, ⟨rfl, fun _ _ => rfl⟩, fun name => (List.append_nil _).symm⟩
  | cons x rest ih =>
    obtain ⟨hx, hrest⟩ := List.forall_mem_cons.1 hcalls
    have hone : Fits limit n ([x] ++ rest) := hfits
    obtain ⟨n₁, hs₁, hlog₁, hbooked⟩ := hb.call x.1 hs hone.shorter
    have hnotes := hbooked stream group
    rw [Nested.Store.notes?, hg] at hnotes
    obtain ⟨notes, hsome, hspared⟩ := hx.spared hnotes
    obtain ⟨g₁, hg₁, rfl⟩ := Option.map_eq_some_iff.1 hsome
    obtain ⟨n', g', hs', hg', hspared', hlog'⟩ := ih hrest hs₁ (hone.rest (by simpa using hlog₁)) hg₁
    refine ⟨n', g', hs', hg', hspared.trans hspared', fun name => ?_⟩
    rw [hlog', hlog₁, List.append_assoc, List.flatMap_cons]

/-- A page is the start of what the consumer holds beyond the place of the pages
before. -/
theorem Backend.Follows.read (hb : b.Follows StandsFor clock limit) (p : Paging)
    (past : List (List Entry)) (now : Nat) (hs : StandsFor n s)
    (hg : n.groupOf p.stream p.group = some g) : ∃ page s' n' g',
      b.streamCall (p.read past) now s = (.ok page, s') ∧ StandsFor n' s' ∧
      n'.groupOf p.stream p.group = some g' ∧ (∀ name, n'.log name = n.log name) ∧
      StartOf p.size (n.log p.stream) (g.heldBeyond p.consumer (Paging.place past)) g.notes page ∧
      g.notes.Spared (page.map (·.id)) g'.notes := by
  obtain ⟨s', hcall, hs'⟩ := hb.page p.consumer (Paging.place past) p.size now p.block hs hg
  obtain ⟨hstart, hspared⟩ := Nested.startOf_readPending (hb.good hs _ _ g hg) p.consumer
    (Paging.place past) p.size (clock now)
  exact ⟨_, s', _, _, hcall, hs', by rw [Nested.groupOf_setGroup, if_pos ⟨rfl, rfl⟩],
    Nested.log_setGroup n _ _ _, hstart, hspared⟩

end Follows

/-! ## Runs of the loop -/

namespace Paging

variable {σ : Type} {p : Paging} {b : Backend σ} {StandsFor : Nested.Store → σ → Prop}
  {clock : Nat → Nat} {limit : Option Nat} {n : Nested.Store} {s : σ} {g : Nested.Group}
  {past pages : List (List Entry)} {page : List Entry}

theorem meanwhile_snoc (p : Paging) (past : List (List Entry)) (page : List Entry) :
    p.meanwhile (past ++ [page]) = p.meanwhile past ++ p.between (past ++ [page]) := by
  unfold meanwhile
  have hne : past.inits ≠ [] := by cases past <;> simp
  rw [List.inits_append, List.tail_append_of_ne_nil hne]
  simp

theorem place_snoc {last : Nat} (h : (page.map (·.id)).getLast? = some last) :
    place (past ++ [page]) = last := by
  unfold place
  rw [returned_append, returned_singleton, List.getLast?_append, h]
  rfl

/-- What came lies before the place of the pages. -/
theorem MayCome.behind {before : Notes} (h : p.MayCome before past) :
    ∀ id ∈ returned past, id ≤ place past := by
  intro id hid
  have hlast := List.getLast?_eq_some_getLast (List.ne_nil_of_mem hid)
  have hle := le_getLast_of_rising h.rising hlast id hid
  unfold place
  rw [hlast]
  exact hle

section Page

variable {before : Notes}
  (hpage : StartOf p.size (n.log p.stream) (g.heldBeyond p.consumer (place past)) g.notes page)
include hpage

theorem mem_heldBeyond_of_page {id : Nat} (hid : id ∈ page.map (·.id)) :
    id ∈ g.heldBeyond p.consumer (place past) :=
  List.mem_of_mem_take (hpage.first ▸ hid)

/-- A page that is not empty may come after the others. -/
theorem MayCome.snoc (h : p.MayCome before past) (hgood : g.Good (n.log p.stream))
    (hspared : before.Spared (returned past) g.notes) (hne : page ≠ []) :
    p.MayCome before (past ++ [page]) := by
  have hheld : ∀ id ∈ page.map (·.id), id ∈ g.held p.consumer ∧ place past < id := fun id hid =>
    Nested.mem_heldBeyond.1 (mem_heldBeyond_of_page hpage hid)
  refine ⟨?_, fun id hid => ?_, ?_⟩
  · rw [returned_append, returned_singleton, List.pairwise_append]
    refine ⟨h.rising, ?_, fun i hi j hj => ?_⟩
    · rw [hpage.first]
      exact (Nested.heldBeyond_sorted hgood _ _).take
    · have h₁ := h.behind i hi
      have h₂ := (hheld j hj).2
      omega
  · rw [returned_append, returned_singleton] at hid
    rcases List.mem_append.1 hid with hid | hid
    · exact h.own id hid
    · obtain ⟨hin, hlt⟩ := hheld id hid
      rw [← hspared.kept id fun hm => Nat.not_lt.2 (h.behind id hm) hlt]
      exact (Nested.mem_held_iff hgood).1 hin
  · intro page' hpage'
    rcases List.mem_append.1 hpage' with hpage' | hpage'
    · exact h.filled page' hpage'
    · exact List.mem_singleton.1 hpage' ▸ hne

/-- What is left after a page is left still after the calls that follow it. -/
theorem left_after_page {n' : Nested.Store} {g' : Nested.Group} (hgood : g.Good (n.log p.stream))
    (hgood' : g'.Good (n'.log p.stream)) (hcame : p.MayCome before (past ++ [page]))
    (hne : page ≠ []) (hspared : g.notes.Spared (returned (past ++ [page])) g'.notes) :
    g'.heldBeyond p.consumer (place (past ++ [page]))
      = (g.heldBeyond p.consumer (place past)).drop p.size := by
  obtain ⟨last, hlast⟩ : ∃ last, (page.map (·.id)).getLast? = some last :=
    ⟨_, List.getLast?_eq_some_getLast (by simpa using hne)⟩
  rw [← Nested.heldBeyond_drop hgood (hpage.first ▸ hlast), place_snoc hlast]
  refine Nested.heldBeyond_congr hgood hgood' fun id hid => hspared.kept id fun hm => ?_
  have hle := hcame.behind id hm
  rw [place_snoc hlast] at hle
  omega

end Page

/-- From any place on, the loop returns what the consumer holds beyond it. -/
theorem reads_left (hb : b.Follows StandsFor clock limit) {n₀ : Nested.Store} {before : Notes}
    (hroom : ∀ pages, p.MayCome before pages → Fits limit n₀ (p.meanwhile pages))
    (hs : StandsFor n s) (hg : n.groupOf p.stream p.group = some g)
    (hlog : ∀ name, n.log name
      = n₀.log name ++ (p.meanwhile past).flatMap (fun x => x.2.adds name))
    (hcame : p.MayCome before past) (hspared : before.Spared (returned past) g.notes) :
    ∃ pages t n' g', p.Reads b past s pages t ∧ StandsFor n' t ∧
      n'.groupOf p.stream p.group = some g' ∧
      Paged p.size (n.log p.stream) (g.heldBeyond p.consumer (place past)) g.notes pages ∧
      before.Spared (returned (past ++ pages)) g'.notes := by
  -- The induction is on how much is left: each page takes its start away.
  induction hsize : (g.heldBeyond p.consumer (place past)).length using Nat.strong_induction_on
    generalizing past n s g with
  | _ size ih =>
    have hgood := hb.good hs _ _ g hg
    obtain ⟨page, s₁, n₁, g₁, hcall, hs₁, hg₁, hlog₁, hpage, hspared₁⟩ :=
      hb.read p past (p.clock past.length) hs hg
    have hlength := congrArg List.length hpage.first
    rw [List.length_map, List.length_take] at hlength
    have hpos := p.size_pos
    by_cases hne : page = []
    · subst hne
      have hnil : g.heldBeyond p.consumer (place past) = [] := by
        rw [List.length_nil] at hlength
        exact List.length_eq_zero_iff.1 (by omega)
      rw [hnil]
      refine ⟨[], s₁, n₁, g₁, .done hcall, hs₁, hg₁, .nil hpos, ?_⟩
      rw [List.append_nil]
      exact hspared.trans (hspared₁.mono (List.nil_subset _))
    · have hcame' := hcame.snoc hpage hgood hspared hne
      have hlog₁' : ∀ name, n₁.log name
          = n₀.log name ++ (p.meanwhile past).flatMap (fun x => x.2.adds name) :=
        fun name => (hlog₁ name).trans (hlog name)
      have hfits := hroom _ hcame'
      rw [meanwhile_snoc] at hfits
      -- the calls that follow the page
      obtain ⟨n₂, g₂, hs₂, hg₂, hspared₂, hlog₂⟩ :=
        hb.later (p.considerate (past ++ [page])) hs₁ (hfits.rest hlog₁') hg₁
      have hgood₂ := hb.good hs₂ _ _ g₂ hg₂
      have hchange : g.notes.Spared (returned (past ++ [page])) g₂.notes := by
        refine (hspared₁.mono ?_).trans hspared₂
        rw [returned_append, returned_singleton]
        exact List.subset_append_right _ _
      have hleft := left_after_page hpage hgood hgood₂ hcame' hne hchange
      have hspared' : before.Spared (returned (past ++ [page])) g₂.notes := by
        refine (hspared.mono ?_).trans hchange
        rw [returned_append]
        exact List.subset_append_left _ _
      have hlog' : ∀ name, n₂.log name
          = n₀.log name ++ (p.meanwhile (past ++ [page])).flatMap (fun x => x.2.adds name) := by
        intro name
        rw [hlog₂, hlog₁', meanwhile_snoc, List.flatMap_append, List.append_assoc]
      have hsmaller : (g₂.heldBeyond p.consumer (place (past ++ [page]))).length < size := by
        have := List.length_pos_iff.2 hne
        rw [hleft, List.length_drop]
        omega
      obtain ⟨pages, t, n', g', hreads, ht, hg', hpaged, hend⟩ :=
        ih _ hsmaller hs₂ hg₂ hlog' hcame' hspared' rfl
      rw [hleft, hlog₂, hlog₁] at hpaged
      rw [List.append_assoc, List.singleton_append] at hend
      refine ⟨page :: pages, t, n', g', .page hcall hne hreads, ht, hg', .cons hpos ?_ hpage
        (hpaged.congr (fun id hid => ?_) fun id hid => hchange.count_eq fun hm => ?_), hend⟩
      · intro hnil
        rw [hnil, List.length_nil] at hlength
        have := List.length_pos_iff.2 hne
        omega
      · have hheld := (Nested.mem_heldBeyond.1 (List.mem_of_mem_drop hid)).1
        have hin := (Nested.held_sublist g p.consumer).subset hheld
        have h₁ := hgood.positive id hin
        have h₂ := hgood.within id hin
        have h₃ := hgood.cursor_le
        exact List.getElem?_append_left (by omega)
      · have hlt := (Nested.mem_heldBeyond.1 (hleft ▸ hid)).2
        have := hcame'.behind id hm
        omega

/-- From the start on, the loop returns all that the consumer holds. -/
theorem reads_all (hb : b.Follows StandsFor clock limit)
    (hroom : ∀ pages, p.MayCome g.notes pages → Fits limit n (p.meanwhile pages))
    (hs : StandsFor n s) (hg : n.groupOf p.stream p.group = some g) :
    ∃ pages t n' g', p.Reads b [] s pages t ∧ StandsFor n' t ∧
      n'.groupOf p.stream p.group = some g' ∧
      Paged p.size (n.log p.stream) (g.held p.consumer) g.notes pages ∧
      g.notes.Spared (g.held p.consumer) g'.notes := by
  have hgood := hb.good hs _ _ g hg
  have hall : g.heldBeyond p.consumer (place []) = g.held p.consumer := by
    refine List.filter_eq_self.2 fun id hid => decide_eq_true ?_
    exact hgood.positive id ((Nested.held_sublist g p.consumer).subset hid)
  have hstart : p.MayCome g.notes [] := ⟨.nil, nofun, nofun⟩
  have hlog : ∀ name, n.log name
      = n.log name ++ (p.meanwhile []).flatMap (fun x => x.2.adds name) :=
    fun name => (List.append_nil _).symm
  obtain ⟨pages, t, n', g', hreads, ht, hg', hpaged, hspared⟩ :=
    reads_left hb hroom hs hg hlog hstart ⟨rfl, fun _ _ => rfl⟩
  rw [hall] at hpaged
  rw [List.nil_append, returned, hpaged.portions.together] at hspared
  exact ⟨pages, t, n', g', hreads, ht, hg', hpaged, hspared⟩

end Paging

/-! ## Both stores -/

namespace Nested

/-- A nested store stands for itself. -/
theorem follows : backend.Follows (fun n s => n = s ∧ s.Good) id none where
  good h := h.1 ▸ h.2
  call {n s c} now h _ := by
    obtain ⟨rfl, hgood⟩ := h
    refine ⟨_, ⟨rfl, ?_⟩, log_call c now n, hgood.booked c now⟩
    cases c with
    | key c => exact hgood
    | stream c => exact hgood.streamCall c now
  page {n s stream group g} consumer after count now block h hg := by
    obtain ⟨rfl, hgood⟩ := h
    have hcall := onGroup_some (readPending consumer after count now) hg
    refine ⟨_, hcall, rfl, ?_⟩
    have hgood' := hgood.streamCall (.readGroup stream group consumer (.pending after) count block) now
    simp only [streamCall, hcall] at hgood'
    exact hgood'

theorem log_after (calls : List (Nat × Call)) (stream : String) :
    (backend.after calls).log stream = calls.flatMap (fun x => x.2.adds stream) := by
  induction calls using List.reverseRecOn with
  | nil => rfl
  | append_singleton calls x ih =>
    rw [Backend.after_snoc, log_call, ih, List.flatMap_append, List.flatMap_singleton]

theorem paging_exact (p : Paging) (calls : List (Nat × Call)) :
    p.Exact backend Store.notes? (fun _ => True) calls := by
  intro before hbefore _
  obtain ⟨g, hg, rfl⟩ := Option.map_eq_some_iff.1 hbefore
  have hgood := good_after calls
  obtain ⟨pages, t, n, g', hreads, ⟨rfl, -⟩, hg', hpaged, hspared⟩ :=
    p.reads_all follows (fun _ _ => nofun) ⟨rfl, hgood⟩ hg
  rw [log_after] at hpaged
  refine ⟨g.held p.consumer, pages, n, g'.notes, (hgood _ _ g hg).held_sorted _, fun id => ?_,
    hreads, hpaged, by rw [Store.notes?, hg']; rfl, hspared⟩
  exact mem_held_iff (hgood _ _ g hg)

end Nested

namespace Flat

/-- A flat store mirrors a nested one. -/
theorem follows : backend.Follows Mirrors whole (some maxId) where
  good h := h.good
  call {n s c} now h hfits := by
    refine h.booked c now fun stream => ?_
    have := hfits maxId rfl stream
    simpa using this
  page {n s stream group g} consumer after count now block h hg := by
    have hcursor : s.cursors.get? ⟨stream, group⟩ = some g.cursor := by
      rw [h.cursors, hg]
      rfl
    let answered := Nested.readPending consumer after count (whole now) (n.log stream) g
    let done := redeliver stream group consumer after count (whole now)
      (fun d => d.consumer = consumer) s
    obtain ⟨hanswer, hmirrors⟩ : done.1 = answered.1 ∧
        Mirrors (n.setGroup stream group answered.2) done.2 :=
      h.redeliver hg (dvd_whole now) fun d _ => rfl
    simp only [done, redeliver_whole] at hanswer hmirrors
    refine ⟨_, ?_, hmirrors⟩
    simp only [backend, streamCall, Store.onGroup, hcursor, hanswer]
    rfl

theorem paging_exact (p : Paging) (calls : List (Nat × Call)) :
    p.Exact backend Store.notes? Room calls := by
  intro before hbefore hroom
  have hcalls : Room calls := fun stream => by
    have := hroom [] ⟨.nil, nofun, nofun⟩ stream
    rw [List.flatMap_append, List.length_append] at this
    omega
  obtain ⟨n, hn, hlog⟩ := mirrored_after hcalls
  rw [hn.notes?_eq] at hbefore
  obtain ⟨notes, hnotes, rfl⟩ := Option.map_eq_some_iff.1 hbefore
  obtain ⟨g, hg, rfl⟩ := Option.map_eq_some_iff.1 hnotes
  have hfits : ∀ pages, p.MayCome g.notes pages → Fits (some maxId) n (p.meanwhile pages) := by
    intro pages hcome most hmost stream
    obtain rfl := Option.mem_some.1 hmost
    have := hroom pages hcome.inMillis stream
    rwa [List.flatMap_append, List.length_append, ← hlog] at this
  obtain ⟨pages, t, n', g', hreads, hn', hg', hpaged, hspared⟩ := p.reads_all follows hfits hn hg
  rw [hlog] at hpaged
  have hgood := hn.good _ _ g hg
  refine ⟨g.held p.consumer, pages, t, g'.notes.inMillis, hgood.held_sorted _, fun id => ?_,
    hreads, hpaged.inMillis, ?_, hspared.inMillis⟩
  · rw [Nested.mem_held_iff hgood, Notes.own_inMillis]
  · rw [hn'.notes?_eq, Nested.Store.notes?, hg']
    rfl

end Flat

/-! ## The main law -/

/-- Paging through the pending entries of a consumer is exact, in a nested store
and in a flat one as long as its ids last, after any calls: each of the entries
comes once, in the order of their ids, in as few pages as their size allows,
with all but the last full, and then one empty page. Entries of others may lie
between them, and what came may be acknowledged meanwhile. Neither the cursor
of the group changes nor a note of an entry of another consumer. -/
theorem paging_returns_each_pending_entry_once (p : Paging) (calls : List (Nat × Call)) :
    p.Exact Nested.backend Nested.Store.notes? (fun _ => True) calls ∧
      p.Exact Flat.backend Flat.Store.notes? Flat.Room calls :=
  ⟨Nested.paging_exact p calls, Flat.paging_exact p calls⟩

/-- Two consumers took five entries in turns. One of them pages through its three
by twos, and acknowledges what came after each page. -/
theorem three_of_five_come_in_two_pages :
    let calls : List (Nat × Call) :=
      (0, .stream (.createGroup "s" "g" .beginning)) ::
        List.replicate 5 (0, .stream (.append "s" ∅)) ++
        ["c", "d", "c", "d", "c"].map (fun consumer =>
          (0, .stream (.readGroup "s" "g" consumer .new 1 Span.zero)))
    let p : Paging := ⟨"s", "g", "c", 2, Span.zero, id,
      fun pages => [(9, .stream (.ack "s" "g" (returned pages)))], by decide,
      fun _ _ hx => List.mem_singleton.1 hx ▸ Or.inr ⟨_, rfl, fun _ hid => hid⟩⟩
    (∀ pages, Flat.Room (calls ++ p.meanwhile pages)) ∧
      ∃ pages s, p.Reads Flat.backend [] (Flat.backend.after calls) pages s ∧
        returned pages = [1, 3, 5] ∧ pages.length = 2 := by
  intro calls p
  have hroom : ∀ pages, Flat.Room (calls ++ p.meanwhile pages) := by
    intro pages stream
    have hnone : (p.meanwhile pages).flatMap (fun x => x.2.adds stream) = [] := by
      unfold Paging.meanwhile
      rw [List.flatMap_assoc]
      exact List.flatMap_eq_nil_iff.2 fun _ _ => rfl
    rw [List.flatMap_append, hnone, List.append_nil]
    simp only [calls, List.map_cons, List.map_nil, List.replicate, List.cons_append, List.nil_append,
      List.flatMap_cons, List.flatMap_nil, Call.adds, StreamCall.adds]
    split <;> simp [Flat.maxId, UInt64.size]
  have hrows : (Flat.backend.after calls).deliveries.rows
      = [(⟨"s", "g", 1⟩, ⟨"c", 0, 1⟩), (⟨"s", "g", 2⟩, ⟨"d", 0, 1⟩), (⟨"s", "g", 3⟩, ⟨"c", 0, 1⟩),
        (⟨"s", "g", 4⟩, ⟨"d", 0, 1⟩), (⟨"s", "g", 5⟩, ⟨"c", 0, 1⟩)] := by decide +kernel
  have hcursor : (Flat.backend.after calls).cursors.get? ⟨"s", "g"⟩ = some 5 := by decide +kernel
  have hbefore : (Flat.backend.after calls).notes? "s" "g" = some ⟨5, fun id =>
      ((Flat.backend.after calls).deliveries.get? ⟨"s", "g", id⟩).map (·.note)⟩ := by
    unfold Flat.Store.notes?
    rw [hcursor]
    rfl
  obtain ⟨ids, pages, s, after, hsorted, hids, hreads, hpaged, -, -⟩ :=
    (paging_returns_each_pending_entry_once p calls).2 _ hbefore fun pages _ => hroom pages
  have hmem : ∀ id, id ∈ ids ↔ id ∈ [1, 3, 5] := by
    intro id
    simp only [hids, Table.get?, hrows, Rows.get?]
    by_cases hid : id = 1 ∨ id = 2 ∨ id = 3 ∨ id = 4 ∨ id = 5
    · rcases hid with rfl | rfl | rfl | rfl | rfl <;> simp [Flat.Delivery.note, p]
    · simp only [not_or] at hid
      simp [hid]
  have heq : ids = [1, 3, 5] := hsorted.eq_of_mem_iff (by decide) hmem
  refine ⟨hroom, pages, s, hreads, hpaged.portions.together.trans heq, ?_⟩
  rw [hpaged.portions.length, heq]
  exact (by decide : (3 + 2 - 1) / 2 = 2)

end LifecycleLog
