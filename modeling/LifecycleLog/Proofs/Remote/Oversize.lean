-- Messages that fit no frame. A request that is too large is never sent. The
-- server finds out that a response is too large after it has made the call,
-- and then answers nothing: the caller is told to try again, and what the call
-- did stays done. Only calls that hand out entries can lose something so.
import LifecycleLog.Proofs.Remote.Transparency
import LifecycleLog.Proofs.Store.Groups

namespace LifecycleLog

/-- The call delivers entries to its consumer and answers them. -/
def Call.HandsOut : Call → Prop
  | .stream (.readGroup _ _ _ _ _ _) => True
  | .stream (.claimIdle _ _ _ _ _) => True
  | _ => False

/-! ## What a call leaves -/

namespace Nested

variable {st : Store} {now : Nat}

/-- A call that fails changes nothing. -/
theorem call_of_error {c : Call} {e : StoreError} {st' : Store}
    (h : backend.call now c st = (.error e, st')) : st' = st := by
  rcases c with c | c
  · cases h
  · cases c with
    | append stream fields => cases h
    | createGroup stream group start =>
      simp only [Backend.call, backend, streamCall] at h
      split at h <;> cases h
    | readGroup stream group consumer mode count block =>
      cases mode with
      | new => exact onGroup_error h
      | pending after => exact onGroup_error h
    | ack stream group ids => exact onGroup_error h
    | claimIdle stream group consumer minIdle count => exact onGroup_error h
    | pending stream group =>
      simp only [Backend.call, backend, streamCall] at h
      split at h
      · cases h
        rfl
      · cases h

end Nested

namespace Remote

open Wire

/-- A response with no text in it. -/
def Brief : Response → Prop
  | .done => True
  | .count _ => True
  | .id _ => True
  | .created _ => True
  | _ => False

theorem Brief.length_le {r : Response} (h : Brief r) : (encodeResponse r).length ≤ maxFrame := by
  cases r with
  | done => simp [encodeResponse, maxFrame]
  | count n => simp [encodeResponse, maxFrame]
  | id n => simp [encodeResponse, maxFrame]
  | created isNew => simp [encodeResponse, encodeBool, maxFrame]
  | _ => exact absurd h not_false

/-- A call that hands out nothing answers in few bytes, or leaves the store as
it was. -/
theorem fits_or_keeps {c : Call} (h : ¬ c.HandsOut) (st : Nested.Store) (now : Nat) :
    (encodeResponse (.ofResult c (Nested.backend.call now c st).1)).length ≤ maxFrame ∨
      (Nested.backend.call now c st).2 = st := by
  cases hr : (Nested.backend.call now c st).1 with
  | error e => exact Or.inr (Nested.call_of_error (Prod.ext hr rfl))
  | ok a =>
    rcases c with c | c
    · cases c with
      | get key => exact Or.inr rfl
      | set key value => exact Or.inl (Brief.length_le trivial)
      | delete keys => exact Or.inl (Brief.length_le trivial)
    · cases c with
      | append stream fields => exact Or.inl (Brief.length_le trivial)
      | createGroup stream group start => exact Or.inl (Brief.length_le trivial)
      | readGroup stream group consumer mode count block => exact absurd trivial h
      | ack stream group ids => exact Or.inl (Brief.length_le trivial)
      | claimIdle stream group consumer minIdle count => exact absurd trivial h
      | pending stream group =>
        right
        simp only [Backend.call, Nested.backend, Nested.streamCall]
        split <;> rfl

/-! ## Connections that end -/

variable {σ : Type}

theorem serve_of_refusal {b : Backend σ} {now : Nat} {ended : Bool} {bytes body rest : List UInt8}
    {s s' : σ} (h : takeFrame bytes = (.ok body, rest))
    (ha : answerBody b now body s = (none, s')) :
    serve b now ended bytes s = ⟨[], true, [], s'⟩ := by
  rw [serve]
  split
  · simp_all
  · simp_all
  · rename_i body' rest' h'
    rw [h] at h'
    obtain ⟨rfl, rfl⟩ : body = body' ∧ rest = rest' := by simpa using h'
    simp [ha]

section OneCall

variable {b : Backend σ} {now : Nat} {c : Call} {s : σ} {x : Session σ (List UInt8)}

/-- A request that fits no frame never reaches the server. -/
theorem Idle.call_unsent (hx : Idle x s) (h : maxFrame < (encodeRequest c).length) :
    (∃ cause, (x.call (serverPeer .reachable b now) c).1 = .error (.unavailable cause)) ∧
      Idle (x.call (serverPeer .reachable b now) c).2 s := by
  obtain ⟨y, hconnect, hy⟩ := hx.connection b now
  have hframe : frame (encodeRequest c) = .error (.frameTooLarge (encodeRequest c).length) := by
    unfold frame
    rw [if_pos h]
  simp only [Session.call, hconnect, hframe]
  exact ⟨⟨_, rfl⟩, hy.world, by simp [Session.broken]⟩

/-- A response that fits no frame ends the connection after the call was made. -/
theorem Idle.call_unanswered (hx : Idle x s) (hc : c.InWords)
    (hreq : (encodeRequest c).length ≤ maxFrame)
    (h : maxFrame < (encodeResponse (.ofResult c (b.call now c s).1)).length) :
    (∃ cause, (x.call (serverPeer .reachable b now) c).1 = .error (.unavailable cause)) ∧
      Idle (x.call (serverPeer .reachable b now) c).2 (b.call now c s).2 := by
  obtain ⟨y, hconnect, hy⟩ := hx.connection b now
  have hframe : frame (encodeRequest c) = .ok (framed (encodeRequest c)) := frame_eq hreq
  have hbody : answerBody b now (encodeRequest c) s = (none, (b.call now c s).2) := by
    have hdecode := decodeBody_of_reads (roundTrip_request hc (lt_words hreq))
    simp only [answerBody, hdecode, frame, if_pos h]
  have hserve : serve b now false (framed (encodeRequest c)) s =
      ⟨[], true, [], (b.call now c s).2⟩ := by
    have htake := takeFrame_frame hreq []
    rw [List.append_nil] at htake
    rw [framed, serve_of_refusal htake hbody]
  have hsend : y.send (serverPeer .reachable b now) (framed (encodeRequest c)) (.fresh []) =
      (⟨[], true, []⟩, { y with world := (b.call now c s).2 }) := by
    simp [Session.send, serverPeer, Link.fresh, hy.world, hserve]
  simp only [Session.call, hconnect, hframe, hsend]
  exact ⟨⟨_, rfl⟩, rfl, fun link hlink => by cases hlink⟩

end OneCall

/-! ## Two entries -/

/-- A stream of two entries that hold the text, and a group that has read none. -/
def twoOf (text : String) : Nested.Store :=
  ⟨∅, Table.ofList [("s", ⟨[Table.ofList [("v", text)], Table.ofList [("v", text)]],
    Table.ofList [("g", ⟨0, []⟩)]⟩)]⟩

def readTwo : Call := .stream (.readGroup "s" "g" "c" .new 2 Span.zero)

theorem call_twoOf (text : String) : Nested.backend.call 0 readTwo (twoOf text) =
      (.ok [⟨1, Table.ofList [("v", text)], 1⟩, ⟨2, Table.ofList [("v", text)], 1⟩],
        (twoOf text).setGroup "s" "g" ⟨2, [⟨1, "c", 0, 1⟩, ⟨2, "c", 0, 1⟩]⟩) := by
  rfl

theorem pendingLength_twoOf (text : String) : (twoOf text).pendingLength "s" "g" = 0 ∧
    (Nested.backend.call 0 readTwo (twoOf text)).2.pendingLength "s" "g" = 2 := ⟨rfl, rfl⟩

theorem le_length_encodeEntry (id : Nat) (text : String) :
    Utf8.size text ≤ (encodeEntry ⟨id, Table.ofList [("v", text)], 1⟩).length := by
  have hrows : (Table.ofList [("v", text)] : Fields).rows = [("v", text)] := rfl
  simp only [encodeEntry, encodeFields, encodeList, hrows, encodeText, List.length_append,
    List.flatMap_cons, Utf8.length_encode]
  omega

theorem size_repeated (n : Nat) : Utf8.size (String.ofList (List.replicate n 'x')) = n := by
  rw [← Utf8.length_encode, Utf8.encode_eq, String.toList_ofList]
  induction n with
  | zero => rfl
  | succ n ih =>
    rw [List.replicate_succ, List.flatMap_cons, List.length_append, ih]
    have hx : (String.utf8EncodeChar 'x').length = 1 := by decide
    omega

theorem inWords_readTwo : readTwo.InWords := ⟨trivial, by decide⟩

theorem inWords_response_twoOf (text : String) :
    (Response.ofResult _ (Nested.backend.call 0 readTwo (twoOf text)).1).InWords := by
  rw [call_twoOf]
  simp [Response.ofResult, Response.ofAnswer, readTwo, Response.InWords, Entry.InWords,
    UInt64.size, UInt32.size]

/-- Two entries of half a frame each fit no frame together. -/
theorem maxFrame_lt_response_twoOf {text : String} (h : maxFrame ≤ 2 * Utf8.size text) : maxFrame <
    (encodeResponse (.ofResult _ (Nested.backend.call 0 readTwo (twoOf text)).1)).length := by
  have hfirst := le_length_encodeEntry 1 text
  have hsecond := le_length_encodeEntry 2 text
  rw [call_twoOf]
  simp only [Response.ofResult, Response.ofAnswer, readTwo, encodeResponse, encodeList,
    List.length_append, List.flatMap_cons, List.flatMap_nil, length_encodeU32, length_encodeU64]
  omega

/-! ## Calls that fail -/

/-- A client of a server over a store of nested maps. -/
abbrev Client : Type := Session Nested.Store (List UInt8)

/-- A call through the server. -/
abbrev Client.ask (x : Client) (now : Nat) (c : Call) : Except StoreError c.Answer × Client :=
  x.call (serverPeer .reachable Nested.backend now) c

/-- Only entries can be lost to a frame. From any state of the store behind the
server, a call whose response fits its frame, or that hands out no entries,
answers what the store answers, or fails and leaves the store as it was. One
that has to answer more than a frame holds was made all the same: its caller
is told to try again, and does so against what the call has left. -/
theorem only_deliveries_are_lost_to_a_frame (st : Nested.Store) (x : Client) (now : Nat) (c : Call)
    (hx : Idle x st) (hc : c.InWords)
    (hr : (Response.ofResult c (Nested.backend.call now c st).1).InWords) :
    ((c.HandsOut →
        (encodeResponse (.ofResult c (Nested.backend.call now c st).1)).length ≤ maxFrame) →
      (x.ask now c).1 = received (Nested.backend.call now c st).1 ∧
          Idle (x.ask now c).2 (Nested.backend.call now c st).2 ∨
        (∃ e, (x.ask now c).1 = .error e) ∧ Idle (x.ask now c).2 st) ∧
    ((encodeRequest c).length ≤ maxFrame →
      maxFrame < (encodeResponse (.ofResult c (Nested.backend.call now c st).1)).length →
      (∃ cause, (x.ask now c).1 = .error (.unavailable cause)) ∧
        Idle (x.ask now c).2 (Nested.backend.call now c st).2) := by
  refine ⟨fun hfits => ?_, fun hreq hresp => hx.call_unanswered hc hreq hresp⟩
  rcases Nat.lt_or_ge maxFrame (encodeRequest c).length with hreq | hreq
  · obtain ⟨⟨cause, he⟩, hidle⟩ := Idle.call_unsent (b := Nested.backend) hx hreq
    exact Or.inr ⟨⟨_, he⟩, hidle⟩
  · rcases Nat.lt_or_ge maxFrame
      (encodeResponse (.ofResult c (Nested.backend.call now c st).1)).length with hresp | hresp
    · -- the response is too large, so the call hands out nothing and kept the store
      have hout : ¬ c.HandsOut := fun h => Nat.not_lt.2 (hfits h) hresp
      obtain ⟨⟨cause, he⟩, hidle⟩ := hx.call_unanswered hc hreq hresp
      rcases fits_or_keeps hout st now with hle | hkept
      · exact absurd hresp (Nat.not_lt.2 hle)
      · rw [hkept] at hidle
        exact Or.inr ⟨⟨_, he⟩, hidle⟩
    · exact Or.inl (hx.call ⟨hc, hreq, hr, hresp⟩)

/-- A client with no connection yet, to a server over two entries. -/
def clientOfTwo (text : String) : Client := ⟨"store:7000", [], twoOf text⟩

theorem idle_clientOfTwo (text : String) : Idle (clientOfTwo text) (twoOf text) :=
  ⟨rfl, fun _ hlink => nomatch hlink⟩

/-- Two entries of one letter each arrive together. Two of half a frame each do
not: the reader is told to try again, and both are pending with it. -/
theorem two_entries_arrive_if_one_frame_holds_them :
    let large := clientOfTwo (String.ofList (List.replicate (8 * 1024 * 1024) 'x'))
    ((clientOfTwo "x").ask 0 readTwo).1 = received (Nested.backend.call 0 readTwo (twoOf "x")).1 ∧
      (∃ cause, (large.ask 0 readTwo).1 = .error (.unavailable cause)) ∧
        (large.ask 0 readTwo).2.world.pendingLength "s" "g" = 2 := by
  have harrives : ((clientOfTwo "x").ask 0 readTwo).1
      = received (Nested.backend.call 0 readTwo (twoOf "x")).1 := by
    have hread : ((clientOfTwo "x").ask 0 readTwo).2.world.pendingLength "s" "g" = 2 := by
      decide +kernel
    have hfits : (encodeResponse (.ofResult readTwo
        (Nested.backend.call 0 readTwo (twoOf "x")).1)).length ≤ maxFrame := by
      decide +kernel
    rcases (only_deliveries_are_lost_to_a_frame (twoOf "x") _ 0 readTwo (idle_clientOfTwo "x")
      inWords_readTwo (inWords_response_twoOf "x")).1 fun _ => hfits with ⟨ha, _⟩ | ⟨_, hidle⟩
    · exact ha
    · rw [hidle.world, (pendingLength_twoOf "x").1] at hread
      cases hread
  -- the text stays a variable, so that no proof step writes it out
  have hlost : ∀ text, maxFrame ≤ 2 * Utf8.size text →
      (∃ cause, ((clientOfTwo text).ask 0 readTwo).1 = .error (.unavailable cause)) ∧
        ((clientOfTwo text).ask 0 readTwo).2.world.pendingLength "s" "g" = 2 := by
    intro text htext
    obtain ⟨hcause, hidle⟩ := (only_deliveries_are_lost_to_a_frame (twoOf text) _ 0 readTwo
      (idle_clientOfTwo text) inWords_readTwo (inWords_response_twoOf text)).2 (by decide)
      (maxFrame_lt_response_twoOf htext)
    exact ⟨hcause, hidle.world ▸ (pendingLength_twoOf text).2⟩
  exact ⟨harrives, hlost _ (by rw [size_repeated]; decide)⟩

/-- Two entries of half a frame each are read together: the reader is told to
try again, and both are pending with it. -/
theorem a_delivery_too_large_for_its_frame_is_lost :
    ¬ ∀ (st : Nested.Store) (x : Client) (now : Nat) (c : Call), Idle x st → c.InWords →
      (Response.ofResult c (Nested.backend.call now c st).1).InWords →
      (x.ask now c).1 = received (Nested.backend.call now c st).1 ∨
        (∃ e, (x.ask now c).1 = .error e) ∧ (x.ask now c).2.world = st := by
  intro h
  -- the text stays a variable, so that no proof step writes it out
  have hlarge : ∀ text, maxFrame ≤ 2 * Utf8.size text → False := by
    intro text htext
    obtain ⟨⟨cause, he⟩, hidle⟩ := (idle_clientOfTwo text).call_unanswered inWords_readTwo
      (by decide) (maxFrame_lt_response_twoOf htext)
    rcases h _ _ 0 readTwo (idle_clientOfTwo text) inWords_readTwo
      (inWords_response_twoOf text) with hanswered | ⟨_, hkept⟩
    · rw [he, call_twoOf] at hanswered
      cases hanswered
    · obtain ⟨hbefore, hafter⟩ := pendingLength_twoOf text
      rw [hidle.world] at hkept
      rw [hkept, hbefore] at hafter
      cases hafter
  exact hlarge (String.ofList (List.replicate (8 * 1024 * 1024) 'x'))
    (by rw [size_repeated]; decide)

end Remote

end LifecycleLog
