-- Entries that go into a store through its server and come out again. The
-- request that appends an entry and the response that delivers it carry the
-- same fields, each in an envelope of its own. That of the request grows with
-- the name of the stream and that of the response does not, so whatever fits
-- into a request fits into a response only where the name is long enough.
import LifecycleLog.Proofs.Remote.Oversize

namespace LifecycleLog

namespace Remote

open Wire

/-! ## The two envelopes -/

theorem length_encodeRequest_append (stream : String) (fields : Fields) :
    (encodeRequest (.stream (.append stream fields))).length
      = 12 + Utf8.size stream + (encodeFields fields).length := by
  simp only [encodeRequest, encodeText, List.length_append, length_encodeU32, length_encodeU64,
    Utf8.length_encode]
  omega

theorem length_encodeResponse_entry (e : Entry) :
    (encodeResponse (.entries [e])).length = 24 + (encodeFields e.fields).length := by
  simp only [encodeResponse, encodeList, encodeEntry, List.length_append, List.flatMap_cons,
    List.flatMap_nil, List.length_nil, length_encodeU32, length_encodeU64]
  omega

/-! ## Entries through a server -/

section Through

variable {σ : Type} {b : Backend σ} {x y : Session σ (List UInt8)} {s t : σ} {now later id : Nat}
  {stream : String} {fields : Fields} {read : Call} {e : Entry}

/-- An append that succeeds was sent. -/
theorem length_le_of_appended (hx : Idle x s)
    (h : (x.call (serverPeer .reachable b now) (.stream (.append stream fields))).1 = .ok id) :
    12 + Utf8.size stream + (encodeFields fields).length ≤ maxFrame := by
  rw [← length_encodeRequest_append]
  by_contra hlarge
  obtain ⟨cause, he⟩ := (Idle.call_unsent hx (Nat.not_le.1 hlarge)).1
  exact nomatch h.symm.trans he

/-- A read of one entry. -/
abbrev oneEntry (stream group consumer : String) (mode : ReadMode) (block : Span) : Call :=
  .stream (.readGroup stream group consumer mode 1 block)

variable {group consumer : String} {mode : ReadMode} {block : Span}

theorem delivered_of_fits (hy : Idle y t)
    (hread : (oneEntry stream group consumer mode block).InWords)
    (hreq : (encodeRequest (oneEntry stream group consumer mode block)).length ≤ maxFrame)
    (he : e.InWords)
    (hanswer : (b.call later (oneEntry stream group consumer mode block) t).1 = .ok [e])
    (hfits : 24 + (encodeFields e.fields).length ≤ maxFrame) :
    (y.call (serverPeer .reachable b later) (oneEntry stream group consumer mode block)).1
      = .ok [e] := by
  have hresult : Response.ofResult (oneEntry stream group consumer mode block)
      (b.call later (oneEntry stream group consumer mode block) t).1 = .entries [e] := by
    rw [hanswer]
    rfl
  have hsendable : Sendable (oneEntry stream group consumer mode block)
      (b.call later (oneEntry stream group consumer mode block) t).1 := by
    refine ⟨hread, hreq, ?_, ?_⟩
    · rw [hresult]
      exact List.forall_mem_singleton.2 he
    · rwa [hresult, length_encodeResponse_entry]
  rw [(hy.call hsendable).1, hanswer]
  rfl

theorem lost_of_large (hy : Idle y t) (hread : (oneEntry stream group consumer mode block).InWords)
    (hreq : (encodeRequest (oneEntry stream group consumer mode block)).length ≤ maxFrame)
    (hanswer : (b.call later (oneEntry stream group consumer mode block) t).1 = .ok [e])
    (hlarge : maxFrame < 24 + (encodeFields e.fields).length) : ∃ cause,
      (y.call (serverPeer .reachable b later) (oneEntry stream group consumer mode block)).1
        = .error (.unavailable cause) := by
  refine (hy.call_unanswered hread hreq ?_).1
  rw [hanswer]
  show maxFrame < (encodeResponse (.entries [e])).length
  rwa [length_encodeResponse_entry]

end Through

/-! ## Entries of one long text -/

/-- The fields of an entry with one attribute, a text of so many letters. -/
def letters (n : Nat) : Fields := Table.ofList [("v", String.ofList (List.replicate n 'x'))]

theorem length_encodeFields_letters (n : Nat) : (encodeFields (letters n)).length = 25 + n := by
  have hrows : (letters n).rows = [("v", String.ofList (List.replicate n 'x'))] := rfl
  have hname : Utf8.size "v" = 1 := rfl
  simp only [encodeFields, encodeList, hrows, encodeText, List.length_append, List.flatMap_cons,
    List.flatMap_nil, List.length_nil, length_encodeU64, Utf8.length_encode, size_repeated, hname]
  omega

/-- A store in which a group waits for the first entry of the stream. -/
def awaiting (stream : String) : Nested.Store :=
  (Nested.streamCall (.createGroup stream "g" .beginning) 0 Nested.empty).2

def readOne (stream : String) : Call := oneEntry stream "g" "c" .new Span.zero

theorem inWords_readOne (stream : String) : (readOne stream).InWords := ⟨trivial, by decide⟩

theorem length_readOne_le {stream : String} (h : 54 + Utf8.size stream ≤ maxFrame) :
    (encodeRequest (readOne stream)).length ≤ maxFrame := by
  have hnames : Utf8.size "g" = 1 ∧ Utf8.size "c" = 1 := ⟨rfl, rfl⟩
  simp only [readOne, encodeRequest, encodeText, encodeMode, encodeSpan, List.length_append,
    length_encodeU32, length_encodeU64, Utf8.length_encode, hnames]
  omega

theorem inWords_first (fields : Fields) : Entry.InWords ⟨1, fields, 1⟩ := by
  show 1 < UInt64.size ∧ 1 < UInt32.size
  decide

/-- The entry is delivered at the store, where no frame is in the way. -/
theorem readOne_appended (stream : String) (fields : Fields) :
    (Nested.backend.call 0 (readOne stream)
      (Nested.backend.call 0 (.stream (.append stream fields)) (awaiting stream)).2).1
      = .ok [⟨1, fields, 1⟩] := by
  have hnone : Nested.empty.groupOf stream "g" = none := rfl
  have hg : (Nested.streamCall (.append stream fields) 0 (awaiting stream)).2.groupOf stream "g"
      = some ⟨0, []⟩ := by
    rw [Nested.groupOf_append, awaiting, Nested.createGroup_none hnone, Nested.groupOf_setGroup,
      if_pos ⟨rfl, rfl⟩]
    rfl
  have hlog : (Nested.streamCall (.append stream fields) 0 (awaiting stream)).2.log stream
      = [fields] := by
    rw [Nested.log_streamCall, awaiting, Nested.log_streamCall]
    simp [StreamCall.adds, Nested.Store.log, Nested.Store.stream, Nested.empty, Nested.Stream.empty]
  simp only [Backend.call, Nested.backend, readOne, Nested.streamCall]
  simp only [Nested.streamCall] at hg hlog
  rw [Nested.onGroup_some _ hg, hlog]
  rfl

/-- A client of a server at which a group waits for an entry. -/
def newcomer (stream : String) : Client := ⟨"store:7000", [], awaiting stream⟩

abbrev appendLetters (stream : String) (n : Nat) : Call := .stream (.append stream (letters n))

theorem idle_newcomer (stream : String) : Idle (newcomer stream) (awaiting stream) :=
  ⟨rfl, by simp [newcomer]⟩

/-- An entry that fits its request is appended. -/
theorem ask_appendLetters {stream : String} {n : Nat}
    (hreq : 37 + Utf8.size stream + n ≤ maxFrame) :
    ((newcomer stream).ask 0 (appendLetters stream n)).1 = .ok 1 ∧
      Idle ((newcomer stream).ask 0 (appendLetters stream n)).2
        (Nested.backend.call 0 (appendLetters stream n) (awaiting stream)).2 := by
  have happended : (Nested.backend.call 0 (appendLetters stream n) (awaiting stream)).1 = .ok 1 := by
    have hlog : (awaiting stream).log stream = [] := by
      rw [awaiting, Nested.log_streamCall]
      rfl
    show Except.ok (((awaiting stream).log stream).length + 1) = .ok 1
    rw [hlog]
    rfl
  have hsendable : Sendable (appendLetters stream n)
      (Nested.backend.call 0 (appendLetters stream n) (awaiting stream)).1 := by
    rw [happended]
    refine ⟨trivial, ?_, (by decide : 1 < UInt64.size), Brief.length_le trivial⟩
    rw [length_encodeRequest_append, length_encodeFields_letters]
    omega
  obtain ⟨hanswer, hidle⟩ := (idle_newcomer stream).call hsendable
  refine ⟨?_, hidle⟩
  rw [hanswer, happended]
  rfl

/-- An entry that fits its request but no response is in the store, and whoever
reads it through the server is told to try again. -/
theorem unavailable_of_letters {stream : String} {n : Nat}
    (hreq : 37 + Utf8.size stream + n ≤ maxFrame) (hresp : maxFrame < 49 + n) :
    ∃ cause, (((newcomer stream).ask 0 (appendLetters stream n)).2.ask 0 (readOne stream)).1
      = .error (.unavailable cause) := by
  have hmax : maxFrame = 16777216 := rfl
  refine lost_of_large (ask_appendLetters hreq).2 (inWords_readOne stream)
    (length_readOne_le (by omega)) (readOne_appended stream (letters n)) ?_
  rw [length_encodeFields_letters]
  omega

/-- Every short name has entries that a client can append and none can read. -/
theorem exists_unavailable_of_short_name {stream : String} (h : Utf8.size stream < 12) : ∃ n,
    ((newcomer stream).ask 0 (appendLetters stream n)).1 = .ok 1 ∧ ∃ cause,
      (((newcomer stream).ask 0 (appendLetters stream n)).2.ask 0 (readOne stream)).1
        = .error (.unavailable cause) := by
  have hmax : maxFrame = 16777216 := rfl
  -- the text that fills the request to its last byte
  obtain ⟨n, hn⟩ : ∃ n, 37 + Utf8.size stream + n = maxFrame :=
    ⟨maxFrame - 37 - Utf8.size stream, by omega⟩
  exact ⟨n, (ask_appendLetters (Nat.le_of_eq hn)).1,
    unavailable_of_letters (Nat.le_of_eq hn) (by omega)⟩

/-! ## The main law -/

/-- An entry that was appended through a server, and that the store behind the
server answers to a read of one entry, whatever store it is: the read returns
it just if its fields leave 24 bytes of a frame, and those that were appended
to a stream with a name of twelve bytes or more always do. -/
theorem what_is_appended_is_delivered_iff_it_fits {σ : Type} {b : Backend σ}
    {x y : Session σ (List UInt8)} {s t : σ} {now later id : Nat} {stream group consumer : String}
    {mode : ReadMode} {block : Span} {e : Entry} (hx : Idle x s)
    (happend : (x.call (serverPeer .reachable b now) (.stream (.append stream e.fields))).1 = .ok id)
    (hy : Idle y t) (hread : (oneEntry stream group consumer mode block).InWords)
    (hreq : (encodeRequest (oneEntry stream group consumer mode block)).length ≤ maxFrame)
    (he : e.InWords)
    (hanswer : (b.call later (oneEntry stream group consumer mode block) t).1 = .ok [e]) :
    ((y.call (serverPeer .reachable b later) (oneEntry stream group consumer mode block)).1 = .ok [e]
      ↔ 24 + (encodeFields e.fields).length ≤ maxFrame) ∧
      (12 ≤ Utf8.size stream → 24 + (encodeFields e.fields).length ≤ maxFrame) := by
  refine ⟨⟨fun hdelivered => ?_, delivered_of_fits hy hread hreq he hanswer⟩, fun hlong => ?_⟩
  · by_contra hlarge
    obtain ⟨cause, hlost⟩ := lost_of_large hy hread hreq hanswer (Nat.not_le.1 hlarge)
    exact nomatch hdelivered.symm.trans hlost
  · have happended := length_le_of_appended hx happend
    omega

/-- With a name of twelve bytes the largest entry fills both frames to the last
byte. -/
theorem the_largest_entry_of_a_long_name_is_delivered :
    12 ≤ Utf8.size "lifecycle/v1" ∧
      (((newcomer "lifecycle/v1").ask 0 (appendLetters "lifecycle/v1" 16777167)).2.ask 0
        (readOne "lifecycle/v1")).1 = .ok [⟨1, letters 16777167, 1⟩] := by
  have hlong : 12 ≤ Utf8.size "lifecycle/v1" := by decide
  obtain ⟨happended, hidle⟩ := @ask_appendLetters "lifecycle/v1" 16777167 (by decide)
  have hlaw := what_is_appended_is_delivered_iff_it_fits (e := ⟨1, letters 16777167, 1⟩)
    (idle_newcomer "lifecycle/v1") happended hidle (inWords_readOne _)
    (length_readOne_le (by decide)) (inWords_first _) (readOne_appended _ _)
  exact ⟨hlong, hlaw.1.2 (hlaw.2 hlong)⟩

/-- An entry that fills the frame of its request, on a stream with a name of one
byte: the store has it and delivers it, and the client that asks through the
server gets nothing. -/
theorem a_full_request_is_never_delivered :
    let append := appendLetters "s" 16777178
    ((newcomer "s").ask 0 append).1 = .ok 1 ∧
      (Nested.backend.call 0 (readOne "s") ((newcomer "s").ask 0 append).2.world).1
        = .ok [⟨1, letters 16777178, 1⟩] ∧
      ∃ cause, (((newcomer "s").ask 0 append).2.ask 0 (readOne "s")).1
        = .error (.unavailable cause) := by
  intro append
  obtain ⟨happended, hidle⟩ := @ask_appendLetters "s" 16777178 (by decide)
  refine ⟨happended, ?_, unavailable_of_letters (by decide) (by decide)⟩
  rw [hidle.world]
  exact readOne_appended "s" _

end Remote

end LifecycleLog
