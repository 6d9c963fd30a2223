-- A remote store is the store behind its server. While every message fits
-- its frame, a call through client and server answers what the same call
-- answers at the server, and leaves the same state there. A failure keeps
-- whether it is worth a retry, and a missing group stays a missing group.
import LifecycleLog.Proofs.Store.Trails
import LifecycleLog.Proofs.Wire.RoundTrip
import LifecycleLog.Remote.Server
import LifecycleLog.Store.Nested

namespace LifecycleLog

namespace Remote

open Wire

variable {σ : Type}

/-! ## Failures on the wire -/

/-- A failure at the server as it reaches the caller. -/
def overWire (e : StoreError) : StoreError := (Failure.ofError e).toError

/-- A result at the server as it reaches the caller. -/
def received {α : Type} : Except StoreError α → Except StoreError α
  | .ok a => .ok a
  | .error e => .error (overWire e)

theorem overWire_noSuchGroup (stream group : String) :
    overWire (.noSuchGroup stream group) = .noSuchGroup stream group := rfl

theorem isRetryable_overWire (e : StoreError) : (overWire e).isRetryable = e.isRetryable := by
  cases e with
  | noSuchGroup stream group => rfl
  | unavailable detail => rfl
  | io fault => rfl
  | _ => rfl

/-- The first character of a text. -/
def initial (s : String) : Option Char := s.toList.head?

theorem initial_append {s t : String} {c : Char} (h : initial s = some c) :
    initial (s ++ t) = some c := by
  rw [initial] at *
  rw [String.toList_append, List.head?_append, h]
  rfl

/-- A server's message opens with the part of the store that failed. -/
theorem initial_message {e : StoreError} (hg : ∀ stream group, e ≠ .noSuchGroup stream group)
    (hr : e.isRetryable = false) : ∃ c ∈ ['r', 'b', 's', 'f'], initial e.message = some c := by
  cases e with
  | alreadyOpen => exact ⟨'r', by decide, by decide⟩
  | corrupted stage detail =>
    refine ⟨'r', by decide, ?_⟩
    cases stage <;> exact initial_append (by decide)
  | noSuchTable name => exact ⟨'r', by decide, initial_append (initial_append (by decide))⟩
  | malformed cause => exact ⟨'b', by decide, initial_append (by decide)⟩
  | io fault => simp [StoreError.isRetryable] at hr
  | unavailable detail => simp [StoreError.isRetryable] at hr
  | noSuchGroup stream group => exact absurd rfl (hg stream group)
  | remote detail => exact ⟨'s', by decide, initial_append (by decide)⟩
  | frameTooLarge size => exact ⟨'f', by decide, initial_append (initial_append (by decide))⟩

theorem overWire_eq_remote {e : StoreError} {detail : String} (h : overWire e = .remote detail) :
    (∀ stream group, e ≠ .noSuchGroup stream group) ∧ e.isRetryable = false ∧
      e.message = detail := by
  cases e <;> simp_all [overWire, Failure.ofError, Failure.toError, StoreError.isRetryable]

/-- The client's own complaint about a response is never a server's message. -/
theorem overWire_ne_unexpected (e : StoreError) (operation wording : String) :
    overWire e ≠ .remote s!"unexpected response to {operation}: {wording}" := by
  intro heq
  obtain ⟨hg, hr, hmessage⟩ := overWire_eq_remote heq
  obtain ⟨c, hc, hinitial⟩ := initial_message hg hr
  have hu : initial e.message = some 'u' := by
    rw [hmessage]
    exact initial_append (initial_append (initial_append (by decide)))
  obtain rfl : c = 'u' := Option.some.inj (hinitial.symm.trans hu)
  exact absurd hc (by decide)

/-! ## The server -/

theorem serve_of_answer {b : Backend σ} {now : Nat} {ended : Bool} {bytes body rest frame : List UInt8}
    {s s' : σ} (h : takeFrame bytes = (.ok body, rest))
    (ha : answerBody b now body s = (some frame, s')) :
    serve b now ended bytes s =
      { serve b now ended rest s' with frames := frame :: (serve b now ended rest s').frames } := by
  rw [serve]
  split
  · simp_all
  · simp_all
  · rename_i body' rest' h'
    rw [h] at h'
    obtain ⟨rfl, rfl⟩ : body = body' ∧ rest = rest' := by simpa using h'
    simp [ha]

theorem serve_nil (b : Backend σ) (now : Nat) (s : σ) :
    serve b now false [] s = ⟨[], false, [], s⟩ := by
  rw [serve]
  rfl

/-! ## One call -/

/-- A call and its result that can be sent: the numbers fit their words, and
both messages fit their frames. -/
structure Sendable (c : Call) (result : Except StoreError c.Answer) : Prop where
  callWords : c.InWords
  request_le : (encodeRequest c).length ≤ maxFrame
  responseWords : (Response.ofResult c result).InWords
  response_le : (encodeResponse (.ofResult c result)).length ≤ maxFrame

theorem lt_words {n : Nat} (h : n ≤ maxFrame) : n < UInt64.size :=
  Nat.lt_of_le_of_lt h (by decide)

/-- The caller gets the answer that the response carries. -/
theorem verdict_ofResult (c : Call) (result : Except StoreError c.Answer) :
    Session.verdict c (.ofResult c result) = received result := by
  cases result with
  | error e => rfl
  | ok a => rcases c with c | c <;> cases c <;> rfl

/-- The frame of a body that fits one. -/
def framed (body : List UInt8) : List UInt8 := frameHead body.length ++ body

section OneCall

variable {b : Backend σ} {now : Nat} {c : Call} {s : σ}

theorem answerBody_request (h : Sendable c (b.call now c s).1) :
    answerBody b now (encodeRequest c) s =
      (some (framed (encodeResponse (.ofResult c (b.call now c s).1))), (b.call now c s).2) := by
  have hc := decodeBody_of_reads (roundTrip_request h.callWords (lt_words h.request_le))
  simp only [answerBody, hc, frame_eq h.response_le, framed]

theorem serve_request (h : Sendable c (b.call now c s).1) :
    serve b now false (framed (encodeRequest c)) s =
      ⟨[framed (encodeResponse (.ofResult c (b.call now c s).1))], false, [],
        (b.call now c s).2⟩ := by
  have htake := takeFrame_frame h.request_le []
  rw [List.append_nil] at htake
  rw [framed, serve_of_answer htake (answerBody_request h), serve_nil]

theorem readFrame_response (h : Sendable c (b.call now c s).1) :
    readFrame decodeResponse (framed (encodeResponse (.ofResult c (b.call now c s).1))) =
      (.ok (.ofResult c (b.call now c s).1), []) := by
  have htake := takeFrame_frame h.response_le []
  rw [List.append_nil] at htake
  have hr := decodeBody_of_reads (roundTrip_response h.responseWords (lt_words h.response_le))
  simp only [readFrame, framed, htake, hr]

/-- A client whose server holds `s`: on no connection is anything under way. -/
structure Idle (x : Session σ (List UInt8)) (s : σ) : Prop where
  world : x.world = s
  kept : ∀ link ∈ x.kept, link = .fresh []

variable {x : Session σ (List UInt8)}

theorem Idle.connection (hx : Idle x s) (b : Backend σ) (now : Nat) :
    ∃ y, x.connection (serverPeer .reachable b now) = (.ok (.fresh []), y) ∧ Idle y s := by
  rcases hk : x.kept with _ | ⟨link, rest⟩
  · refine ⟨x, ?_, hx⟩
    simp only [Session.connection, hk, serverPeer]
    rw [← hk]
  · obtain ⟨rfl, hrest⟩ : link = .fresh [] ∧ ∀ link ∈ rest, link = .fresh [] := by
      simpa [hk] using hx.kept
    refine ⟨{ x with kept := rest }, ?_, ⟨hx.world, hrest⟩⟩
    simp only [Session.connection, hk]

theorem Idle.send (hx : Idle x s) (h : Sendable c (b.call now c s).1) :
    x.send (serverPeer .reachable b now) (framed (encodeRequest c)) (.fresh []) =
      (⟨framed (encodeResponse (.ofResult c (b.call now c s).1)), false, []⟩,
        { x with world := (b.call now c s).2 }) := by
  simp [Session.send, serverPeer, Link.fresh, hx.world, serve_request h]

theorem receive_response (h : Sendable c (b.call now c s).1) :
    x.receive c ⟨framed (encodeResponse (.ofResult c (b.call now c s).1)), false, []⟩ =
      (received (b.call now c s).1, { x with kept := .fresh [] :: x.kept }) := by
  simp only [Session.receive, readFrame_response h, verdict_ofResult, Link.fresh]

/-- A call leaves the client idle again. -/
theorem Idle.call (hx : Idle x s) (h : Sendable c (b.call now c s).1) :
    (x.call (serverPeer .reachable b now) c).1 = received (b.call now c s).1 ∧
      Idle (x.call (serverPeer .reachable b now) c).2 (b.call now c s).2 := by
  obtain ⟨y, hconnect, hy⟩ := hx.connection b now
  have hframe : frame (encodeRequest c) = .ok (framed (encodeRequest c)) := frame_eq h.request_le
  simp only [Session.call, hconnect, hframe, hy.send h, receive_response h]
  refine ⟨trivial, rfl, ?_⟩
  intro link hlink
  rcases List.mem_cons.1 hlink with rfl | hlink
  · rfl
  · exact hy.kept link hlink

end OneCall

/-! ## Runs of calls -/

/-- A call at the server, as the client sees it. -/
def seen (o : Outcome) : Outcome := ⟨o.call, received o.result⟩

/-- Every call of a run can be sent. -/
def AllSendable (b : Backend σ) (calls : List (Nat × Call)) (s : σ) : Prop :=
  ∀ t ∈ b.trail calls s, Sendable t.1.call t.1.result

theorem map_trail_backend {b : Backend σ} (address : String) {calls : List (Nat × Call)}
    {x : Session σ (List UInt8)} {s : σ} (hx : Idle x s) (h : AllSendable b calls s) :
    ((backend .reachable b address).trail calls x).map (fun t => (t.1, t.2.world)) =
      (b.trail calls s).map (fun t => (seen t.1, t.2)) := by
  refine Backend.map_trail_eq (fun calls x s => Idle x s ∧ AllSendable b calls s) ?_ ⟨hx, h⟩
  intro now c rest x s ⟨hx, h⟩
  obtain ⟨hc, hrest⟩ : Sendable c (b.call now c s).1 ∧ AllSendable b rest (b.call now c s).2 := by
    simpa [AllSendable, Backend.trail] using h
  -- a key call does not read the clock
  obtain ⟨now', hcall, hcall'⟩ : ∃ now',
      (backend .reachable b address).call now c x = x.call (serverPeer .reachable b now') c ∧
      b.call now c s = b.call now' c s := by
    cases c with
    | key c => exact ⟨0, rfl, rfl⟩
    | stream c => exact ⟨now, rfl, rfl⟩
  rw [hcall'] at hc hrest
  obtain ⟨hresult, hidle⟩ := hx.call hc
  rw [hcall, hcall', hresult]
  exact ⟨by rw [hidle.world]; rfl, hidle, hrest⟩

/-- Calls on a remote store of any store, over a connection that brings all
bytes. The client sees each result, and the server's store goes through each
state, of the same calls made at the server; only the failures are worded for
the wire. The client never complains about the kind of a response. -/
theorem a_remote_store_is_the_store_behind_its_server (b : Backend σ) (address : String)
    (calls : List (Nat × Call)) (s : σ) (h : AllSendable b calls s) :
    ((backend .reachable b address).trail calls ⟨address, [], s⟩).map
        (fun t => (t.1, t.2.world)) =
      (b.trail calls s).map (fun t => (seen t.1, t.2)) ∧
    (∀ stream group, overWire (.noSuchGroup stream group) = .noSuchGroup stream group) ∧
    (∀ e, (overWire e).isRetryable = e.isRetryable) ∧
    ∀ o ∈ (backend .reachable b address).outcomes calls ⟨address, [], s⟩, ∀ response : Response,
      o.result ≠ .error (.remote s!"unexpected response to {o.call.name}: {response.wording}") := by
  have hidle : Idle (⟨address, [], s⟩ : Session σ (List UInt8)) s := ⟨rfl, by simp⟩
  have htrail := map_trail_backend address hidle h
  refine ⟨htrail, overWire_noSuchGroup, isRetryable_overWire, ?_⟩
  intro o ho response hbad
  have houtcomes : (backend .reachable b address).outcomes calls ⟨address, [], s⟩ =
      (b.trail calls s).map (fun t => seen t.1) := by
    have := congrArg (List.map Prod.fst) htrail
    simpa [Backend.outcomes, Function.comp_def] using this
  rw [houtcomes] at ho
  obtain ⟨t, -, rfl⟩ := List.mem_map.1 ho
  rcases hr : t.1.result with e | a
  · simp only [seen, hr, received] at hbad
    exact overWire_ne_unexpected e _ _ (Except.error.inj hbad)
  · simp [seen, hr, received] at hbad

/-- An entry goes through a server, and a reader of no group learns so. -/
theorem an_entry_goes_through_a_server :
    let calls : List (Nat × Call) :=
      [(0, .stream (.append "s" ∅)), (0, .stream (.createGroup "s" "g" .beginning)),
        (0, .stream (.readGroup "s" "g" "c" .new 10 Span.zero)),
        (5000000, .stream (.readGroup "s" "h" "c" (.pending 0) 10 Span.zero))]
    AllSendable Nested.backend calls Nested.backend.empty ∧
      (backend .reachable Nested.backend "store:7000").outcomes calls
          ⟨"store:7000", [], Nested.backend.empty⟩ =
        [⟨.stream (.append "s" ∅), .ok 1⟩, ⟨.stream (.createGroup "s" "g" .beginning), .ok true⟩,
          ⟨.stream (.readGroup "s" "g" "c" .new 10 Span.zero), .ok [⟨1, ∅, 1⟩]⟩,
          ⟨.stream (.readGroup "s" "h" "c" (.pending 0) 10 Span.zero),
            .error (.noSuchGroup "s" "h")⟩] := by
  intro calls
  have h : AllSendable Nested.backend calls Nested.backend.empty := by
    simp only [AllSendable, Backend.trail, calls, List.forall_mem_cons]
    refine ⟨⟨trivial, by decide, ?_, by decide⟩, ⟨trivial, by decide, trivial, by decide⟩,
      ⟨⟨trivial, by decide⟩, by decide, ?_, by decide⟩,
      ⟨⟨?_, by decide⟩, by decide, trivial, by decide⟩, by simp⟩
    · show 1 < UInt64.size
      decide
    · intro e he
      obtain rfl : e = ⟨1, ∅, 1⟩ := List.mem_singleton.1 he
      exact ⟨by decide, by decide⟩
    · show 0 < UInt64.size
      decide
  refine ⟨h, ?_⟩
  have := (a_remote_store_is_the_store_behind_its_server Nested.backend "store:7000" calls
    Nested.backend.empty h).1
  have := congrArg (List.map Prod.fst) this
  simp only [List.map_map] at this
  exact this

end Remote

end LifecycleLog
