-- Replies and the calls that they are for. Requests carry no number, so a
-- client tells responses apart by their connections alone. A connection that
-- is kept has nothing more to bring, and one that a call has sent its request
-- on belongs to that call until the whole response is read. So no call ever
-- gets the response to another one's request.
import LifecycleLog.Proofs.Remote.Traffic
import LifecycleLog.Proofs.Wire.Streams
import Mathlib.Data.List.Induction

namespace LifecycleLog.Remote

open Wire

/-! ## More and more happens -/

/-- Requests and responses stay in their places. -/
structure Net.Grows (w w' : Net) : Prop where
  requests : ∀ k, (w.lines k).requests <+: (w'.lines k).requests
  replies : ∀ k, (w.lines k).replies <+: (w'.lines k).replies

theorem getElem?_of_prefix {α : Type} {l l' : List α} (h : l <+: l') {i : Nat} {a : α}
    (ha : l[i]? = some a) : l'[i]? = some a := by
  obtain ⟨hlt, rfl⟩ := List.getElem?_eq_some_iff.1 ha
  exact List.prefix_iff_getElem?.1 h i hlt

theorem Net.Grows.of_lines {w w' : Net} (h : w'.lines = w.lines) : w.Grows w' :=
  ⟨fun _ => h ▸ List.prefix_rfl, fun _ => h ▸ List.prefix_rfl⟩

theorem Net.Grows.setLine {w : Net} {k : Nat} {l : Line}
    (hrequests : (w.lines k).requests <+: l.requests)
    (hreplies : (w.lines k).replies <+: l.replies) : w.Grows (w.setLine k l) := by
  constructor <;> intro j <;> rcases eq_or_ne j k with rfl | hj
  · rwa [Net.setLine_lines_self]
  · exact Net.setLine_lines_of_ne w hj l ▸ List.prefix_rfl
  · rwa [Net.setLine_lines_self]
  · exact Net.setLine_lines_of_ne w hj l ▸ List.prefix_rfl

theorem AnsweredBy.grows {w w' : Net} {n k i : Nat} {a : Answered} (h : AnsweredBy w n a k i)
    (hw : w.Grows w') : AnsweredBy w' n a k i := by
  obtain ⟨body, response, hrequest, hreply, hbody, hresult⟩ := h
  exact ⟨body, response, getElem?_of_prefix (hw.requests k) hrequest,
    getElem?_of_prefix (hw.replies k) hreply, hbody, hresult⟩

namespace Traffic

variable {address : String} {x x' : Traffic} {n k i : Nat} {e : Exchange Nat} {link : Link Nat}
  {c : Call} {w : Net}

theorem own_grows {w' : Net} {a : Answered}
    (h : Unreached address a ∨ ∃ k i, AnsweredBy w n a k i) (hw : w.Grows w') :
    Unreached address a ∨ ∃ k i, AnsweredBy w' n a k i :=
  h.imp_right fun ⟨k, i, hby⟩ => ⟨k, i, hby.grows hw⟩

structure Grows (x x' : Traffic) : Prop where
  net : x.net.Grows x'.net
  answered : ∀ r ∈ x.answered, r ∈ x'.answered

theorem Settled.grows (h : x.Settled k i) (hx : x.Grows x') : x'.Settled k i := by
  obtain ⟨n, a, ha, hby⟩ := h
  exact ⟨n, a, hx.answered _ ha, hby.grows hx.net⟩

/-- A connection on which nothing happens stays clear. -/
theorem Clear.grows (h : x.Clear link) (hx : x.Grows x')
    (hline : x'.net.lines link.peer = x.net.lines link.peer) : x'.Clear link :=
  ⟨h.unread, hline ▸ h.coming, hline ▸ h.replies, fun i hi => (h.settled i (hline ▸ hi)).grows hx⟩

/-! ## What holds all the time -/

/-- The last request on the connection is that of the call, and what is left of
the response to it is all there is to read. -/
inductive Awaits (l : Line) (n : Nat) (e : Exchange Nat) : Prop
  | unanswered {before : List (Nat × List UInt8)}
    (requests : l.requests = before ++ [(n, framed (encodeRequest e.call))])
    (replies : l.replies.length = before.length) (coming : l.coming = [])
    (unread : e.link.incoming = [])
  | answered {before : List (Nat × List UInt8)} {earlier : List (List UInt8)} {body : List UInt8}
    (requests : l.requests = before ++ [(n, framed (encodeRequest e.call))])
    (replies : l.replies = earlier ++ [body]) (place : earlier.length = before.length)
    (fits : body.length ≤ maxFrame) (bytes : e.link.incoming ++ l.coming = framed body)

/-- A call under way: before it sends, its connection is clear. -/
inductive Holds (x : Traffic) (n : Nat) (e : Exchange Nat) : Prop
  | unsent (sent : e.sent = false) (clear : x.Clear e.link)
  | sent (sent : e.sent = true) (awaits : Awaits (x.net.lines e.link.peer) n e)

/-- Requests tell their calls. -/
structure Numbered (x : Traffic) : Prop where
  once : ∀ (k i k' i' n : Nat) bytes bytes', (x.net.lines k).requests[i]? = some (n, bytes) →
    (x.net.lines k').requests[i']? = some (n, bytes') → k = k' ∧ i = i'
  senders : ∀ k, ∀ r ∈ (x.net.lines k).requests, r.1 < x.calls
  silent : ∀ n e, x.held? n = some e → e.sent = false →
    ∀ k, ∀ r ∈ (x.net.lines k).requests, r.1 ≠ n

/-- What holds after every turn. -/
structure Sound (address : String) (x : Traffic) : Prop where
  address_eq : x.sharing.session.address = address
  own : ∀ n a, (n, a) ∈ x.answered → Unreached address a ∨ ∃ k i, AnsweredBy x.net n a k i
  numbered : x.Numbered
  settled : ∀ k i, i + 1 < (x.net.lines k).requests.length → x.Settled k i
  blank : ∀ k, x.net.opened ≤ k → x.net.lines k = .blank
  kept : ∀ link ∈ x.kept, link.peer < x.net.opened ∧ x.Clear link
  keptOnce : (x.kept.map (·.peer)).Nodup
  held : ∀ n e, x.held? n = some e → n < x.calls ∧ e.link.peer < x.net.opened ∧ x.Holds n e
  heldOnce : ∀ n e m e', x.held? n = some e → x.held? m = some e' →
    e.link.peer = e'.link.peer → n = m
  apart : ∀ link ∈ x.kept, ∀ n e, x.held? n = some e → link.peer ≠ e.link.peer

/-- What the call that awaits a response reads is that response, and then
nothing is left. -/
theorem Awaits.read {l : Line} (h : Awaits l n e) {response : Response} {rest : List UInt8}
    (hr : readFrame decodeResponse e.link.incoming = (.ok response, rest)) :
    rest = [] ∧ l.coming = [] ∧ l.replies.length = l.requests.length ∧
      ∃ i body, i + 1 = l.requests.length ∧
        l.requests[i]? = some (n, framed (encodeRequest e.call)) ∧ l.replies[i]? = some body ∧
        decodeBody decodeResponse body = .ok response := by
  cases h with
  | unanswered requests replies coming unread =>
    rw [unread, readFrame_nil] at hr
    cases hr
  | @answered before earlier body requests replies place fits bytes =>
    have hpre : e.link.incoming <+: framed body := ⟨l.coming, bytes⟩
    by_cases hlt : e.link.incoming.length < (framed body).length
    · rw [readFrame_cut fits hpre hlt] at hr
      cases hr
    · have hwhole : e.link.incoming = framed body :=
        hpre.eq_of_length_le (Nat.le_of_not_lt hlt)
      have hcoming : l.coming = [] := by
        rw [hwhole] at bytes
        exact List.append_right_eq_self.1 bytes
      have hread := readFrame_frame (d := decodeResponse) fits []
      rw [List.append_nil] at hread
      rw [hwhole, framed, hread] at hr
      obtain ⟨hbody, rfl⟩ := Prod.mk.inj hr
      refine ⟨rfl, hcoming, ?_, before.length, body, ?_, ?_, ?_, hbody⟩
      · rw [requests, replies, List.length_append, List.length_append, place]
        rfl
      · rw [requests, List.length_append, List.length_singleton]
      · rw [requests, List.getElem?_concat_length]
      · rw [replies, ← place, List.getElem?_concat_length]

theorem Sound.reads (h : Sound address x) (he : x.held? n = some e) (hsent : e.sent = true)
    {response : Response} {rest : List UInt8}
    (hr : readFrame decodeResponse e.link.incoming = (.ok response, rest)) :
    rest = [] ∧ (x.net.lines e.link.peer).coming = [] ∧
      (x.net.lines e.link.peer).replies.length = (x.net.lines e.link.peer).requests.length ∧
      ∃ i, i + 1 = (x.net.lines e.link.peer).requests.length ∧
        AnsweredBy x.net n ⟨e.call, Session.verdict e.call response⟩ e.link.peer i := by
  cases (h.held n e he).2.2 with
  | unsent sent _ =>
    rw [hsent] at sent
    cases sent
  | sent _ awaits =>
    obtain ⟨hrest, hcoming, hlength, i, body, hi, hrequest, hreply, hbody⟩ := awaits.read hr
    exact ⟨hrest, hcoming, hlength, i, hi, body, response, hrequest, hreply, hbody, rfl⟩

theorem Sound.uncrossed (h : Sound address x) : Uncrossed address x where
  own := h.own
  reads n e response rest he hsent hr := by
    obtain ⟨hrest, _, _, i, _, hby⟩ := h.reads he hsent hr
    exact ⟨hrest, i, hby⟩
  once := h.numbered.once
  settled := h.settled
  clear link hlink := by
    rcases hlink with hlink | ⟨n, e, he, hsent, rfl⟩
    · exact (h.kept link hlink).2
    · cases (h.held n e he).2.2 with
      | unsent _ clear => exact clear
      | sent sent _ =>
        rw [hsent] at sent
        cases sent
  keptOnce := h.keptOnce
  heldOnce := h.heldOnce
  apart := h.apart

theorem sound_fresh (address : String) : Sound address (fresh address) where
  address_eq := rfl
  own _ _ ha := nomatch ha
  numbered :=
    ⟨fun _ _ _ _ _ _ _ hr => (nomatch hr), fun _ _ hr => (nomatch hr), fun _ _ he => (nomatch he)⟩
  settled _ _ hi := nomatch hi
  blank _ _ := rfl
  kept _ hlink := nomatch hlink
  keptOnce := .nil
  held _ _ he := nomatch he
  heldOnce _ _ _ _ he := nomatch he
  apart _ hlink := nomatch hlink

/-- A connection that nobody has, with nothing more to bring. -/
structure Free (x : Traffic) (link : Link Nat) : Prop where
  clear : x.Clear link
  opened : link.peer < x.net.opened
  unkept : ∀ l ∈ x.kept, l.peer ≠ link.peer
  unheld : ∀ n e, x.held? n = some e → e.link.peer ≠ link.peer

/-! ## Changes at the client -/

theorem Holds.grows (h : x.Holds n e) (hx : x.Grows x')
    (hline : x'.net.lines e.link.peer = x.net.lines e.link.peer) : x'.Holds n e := by
  cases h with
  | unsent sent clear => exact .unsent sent (clear.grows hx hline)
  | sent sent awaits => exact .sent sent (hline ▸ awaits)

/-- Connections are dropped, calls end, and they have results of their own. -/
theorem Sound.fewer (h : Sound address x) (hcalls : x.calls ≤ x'.calls)
    (haddress : x'.sharing.session.address = x.sharing.session.address)
    (hlines : x'.net.lines = x.net.lines) (hopened : x.net.opened ≤ x'.net.opened)
    (hkept : x'.kept.Sublist x.kept) (hheld : ∀ n e, x'.held? n = some e → x.held? n = some e)
    {more : List (Nat × Answered)} (hanswered : x'.answered = x.answered ++ more)
    (hmore : ∀ r ∈ more, Unreached address r.2 ∨ ∃ k i, AnsweredBy x.net r.1 r.2 k i) :
    Sound address x' := by
  have hnet : x.net.Grows x'.net := .of_lines hlines
  have hgrows : x.Grows x' := ⟨hnet, fun r hr => hanswered ▸ List.mem_append_left _ hr⟩
  have hline : ∀ k, x'.net.lines k = x.net.lines k := fun k => congrFun hlines k
  constructor
  · rw [haddress, h.address_eq]
  · intro n a ha
    rw [hanswered] at ha
    rcases List.mem_append.1 ha with ha | ha
    · exact own_grows (h.own n a ha) hnet
    · exact own_grows (hmore (n, a) ha) hnet
  · constructor
    · rw [hlines]
      exact h.numbered.once
    · rw [hlines]
      exact fun k r hr => Nat.lt_of_lt_of_le (h.numbered.senders k r hr) hcalls
    · rw [hlines]
      exact fun n e he => h.numbered.silent n e (hheld n e he)
  · intro k i hi
    rw [hline] at hi
    exact (h.settled k i hi).grows hgrows
  · rw [hlines]
    exact fun k hk => h.blank k (Nat.le_trans hopened hk)
  · intro link hlink
    obtain ⟨hlt, hclear⟩ := h.kept link (hkept.subset hlink)
    exact ⟨Nat.lt_of_lt_of_le hlt hopened, hclear.grows hgrows (hline _)⟩
  · exact (hkept.map _).nodup h.keptOnce
  · intro n e he
    obtain ⟨hn, hlt, hholds⟩ := h.held n e (hheld n e he)
    exact ⟨Nat.lt_of_lt_of_le hn hcalls, Nat.lt_of_lt_of_le hlt hopened,
      hholds.grows hgrows (hline _)⟩
  · exact fun n e m e' he he' => h.heldOnce n e m e' (hheld n e he) (hheld m e' he')
  · exact fun link hlink n e he => h.apart link (hkept.subset hlink) n e (hheld n e he)

/-- Something changes beyond the client, but on no connection. -/
theorem Sound.withNet (h : Sound address x) (hlines : w.lines = x.net.lines)
    (hopened : x.net.opened ≤ w.opened) : Sound address (x.withNet w) :=
  h.fewer (Nat.le_refl _) rfl hlines hopened (List.Sublist.refl _) (fun _ _ he => he)
    (List.append_nil _).symm (List.forall_mem_nil _)

/-- Puts a connection back. -/
def keep (link : Link Nat) (x : Traffic) : Traffic :=
  { x with sharing :=
    { x.sharing with session := { x.sharing.session with kept := link :: x.kept } } }

theorem Sound.keep (h : Sound address x) (hfree : x.Free link) : Sound address (x.keep link) := by
  have hgrows : x.Grows (x.keep link) := ⟨.of_lines rfl, fun _ hr => hr⟩
  have hmem : ∀ l ∈ (x.keep link).kept, l = link ∨ l ∈ x.kept := fun l hl => List.mem_cons.1 hl
  refine ⟨h.address_eq, h.own, ⟨h.numbered.once, h.numbered.senders, h.numbered.silent⟩, h.settled,
    h.blank, fun l hl => ?_, ?_, fun n e he => ?_, h.heldOnce, fun l hl n e he => ?_⟩
  · rcases hmem l hl with rfl | hl
    · exact ⟨hfree.opened, hfree.clear.grows hgrows rfl⟩
    · exact ⟨(h.kept l hl).1, (h.kept l hl).2.grows hgrows rfl⟩
  · refine List.nodup_cons.2 ⟨fun hm => ?_, h.keptOnce⟩
    obtain ⟨l, hl, hpeer⟩ := List.mem_map.1 hm
    exact hfree.unkept l hl hpeer
  · obtain ⟨hn, hlt, hholds⟩ := h.held n e he
    exact ⟨hn, hlt, hholds.grows hgrows rfl⟩
  · rcases hmem l hl with rfl | hl
    · exact (hfree.unheld n e he).symm
    · exact h.apart l hl n e he

/-- Gives a connection to a new call. -/
def hold (c : Call) (link : Link Nat) (x : Traffic) : Traffic :=
  ⟨{ x.sharing with exchanges := x.sharing.exchanges.insert x.calls ⟨c, link, false⟩ }, x.calls + 1⟩

theorem Sound.hold (h : Sound address x) (hfree : x.Free link) (c : Call) :
    Sound address (x.hold c link) := by
  have hgrows : x.Grows (x.hold c link) := ⟨.of_lines rfl, fun _ hr => hr⟩
  have hheld : ∀ {n e}, (x.hold c link).held? n = some e →
      (n = x.calls ∧ e = ⟨c, link, false⟩) ∨ x.held? n = some e := by
    intro n e he
    have hget : (x.hold c link).held? n =
        if n = x.calls then some ⟨c, link, false⟩ else x.held? n := Table.get?_insert ..
    rw [hget] at he
    split at he
    · exact Or.inl ⟨‹_›, (Option.some.inj he).symm⟩
    · exact Or.inr he
  refine ⟨h.address_eq, h.own, ⟨h.numbered.once, fun k r hr => ?_, fun n e he hsent => ?_⟩,
    h.settled, h.blank, fun l hl => ?_, h.keptOnce, fun n e he => ?_,
    fun n e m e' he he' hpeer => ?_, fun l hl n e he => ?_⟩
  · exact Nat.lt_succ_of_lt (h.numbered.senders k r hr)
  · rcases hheld he with ⟨rfl, rfl⟩ | he
    · -- the number is new
      exact fun k r hr => Nat.ne_of_lt (h.numbered.senders k r hr)
    · exact h.numbered.silent n e he hsent
  · exact ⟨(h.kept l hl).1, (h.kept l hl).2.grows hgrows rfl⟩
  · rcases hheld he with ⟨rfl, rfl⟩ | he
    · exact ⟨Nat.lt_succ_self _, hfree.opened, .unsent rfl (hfree.clear.grows hgrows rfl)⟩
    · obtain ⟨hn, hlt, hholds⟩ := h.held n e he
      exact ⟨Nat.lt_succ_of_lt hn, hlt, hholds.grows hgrows rfl⟩
  · rcases hheld he with ⟨rfl, rfl⟩ | he <;> rcases hheld he' with ⟨rfl, rfl⟩ | he'
    · rfl
    · exact absurd hpeer.symm (hfree.unheld m e' he')
    · exact absurd hpeer (hfree.unheld n e he)
    · exact h.heldOnce n e m e' he he' hpeer
  · rcases hheld he with ⟨_, rfl⟩ | he
    · exact hfree.unkept l hl
    · exact h.apart l hl n e he

/-! ## Changes on one connection -/

/-- One connection that is not kept goes on, and with it the call that has it. -/
theorem Sound.onLine (h : Sound address x) (hcalls : x'.calls = x.calls)
    (haddress : x'.sharing.session.address = x.sharing.session.address)
    (hkept : x'.kept = x.kept) (hanswered : x'.answered = x.answered)
    (hnet : x.net.Grows x'.net) (hopened : x'.net.opened = x.net.opened)
    (hother : ∀ j, j ≠ k → x'.net.lines j = x.net.lines j) (hlt : k < x.net.opened)
    (hunkept : ∀ link ∈ x.kept, link.peer ≠ k) (hnumbered : x'.Numbered)
    (hsettled : ∀ i, i + 1 < (x'.net.lines k).requests.length → x.Settled k i)
    (hheld : ∀ n e', x'.held? n = some e' → x.held? n = some e' ∧ e'.link.peer ≠ k ∨
      (∃ e, x.held? n = some e ∧ e.link.peer = k) ∧ e'.link.peer = k ∧ x'.Holds n e') :
    Sound address x' := by
  have hgrows : x.Grows x' := ⟨hnet, fun r hr => hanswered ▸ hr⟩
  -- in place of a call under way, the same call was under way on the same connection
  have hbefore : ∀ n e', x'.held? n = some e' → ∃ e, x.held? n = some e ∧
      e.link.peer = e'.link.peer := by
    intro n e' he'
    rcases hheld n e' he' with ⟨he, _⟩ | ⟨⟨e, he, hpeer⟩, hpeer', _⟩
    · exact ⟨e', he, rfl⟩
    · exact ⟨e, he, hpeer.trans hpeer'.symm⟩
  constructor
  · rw [haddress, h.address_eq]
  · exact fun n a ha => own_grows (h.own n a (hanswered ▸ ha)) hnet
  · exact hnumbered
  · intro j i hi
    by_cases hj : j = k
    · subst hj
      exact (hsettled i hi).grows hgrows
    · rw [hother j hj] at hi
      exact (h.settled j i hi).grows hgrows
  · intro j hj
    rw [hopened] at hj
    rw [hother j (by omega), h.blank j hj]
  · rw [hkept, hopened]
    intro link hlink
    obtain ⟨hopen, hclear⟩ := h.kept link hlink
    exact ⟨hopen, hclear.grows hgrows (hother _ (hunkept link hlink))⟩
  · rw [hkept]
    exact h.keptOnce
  · intro n e' he'
    rw [hcalls, hopened]
    rcases hheld n e' he' with ⟨he, hne⟩ | ⟨⟨e, he, _⟩, hpeer', hholds⟩
    · obtain ⟨hn, hlt', hholds⟩ := h.held n e' he
      exact ⟨hn, hlt', hholds.grows hgrows (hother _ hne)⟩
    · exact ⟨(h.held n e he).1, hpeer' ▸ hlt, hholds⟩
  · intro n e₁ m e₂ he₁ he₂ hpeer
    obtain ⟨e, he, hp⟩ := hbefore n e₁ he₁
    obtain ⟨e', he', hp'⟩ := hbefore m e₂ he₂
    exact h.heldOnce n e m e' he he' (hp.trans (hpeer.trans hp'.symm))
  · intro link hlink n e' he'
    obtain ⟨e, he, hp⟩ := hbefore n e' he'
    rw [← hp]
    exact h.apart link (hkept ▸ hlink) n e he

/-- Where no request is sent, the numbers stay right. -/
theorem Numbered.same (h : x.Numbered) (hcalls : x'.calls = x.calls)
    (hrequests : ∀ k, (x'.net.lines k).requests = (x.net.lines k).requests)
    (hheld : ∀ n e', x'.held? n = some e' → e'.sent = false →
      ∃ e, x.held? n = some e ∧ e.sent = false) : x'.Numbered := by
  constructor
  · simp only [hrequests]
    exact h.once
  · simp only [hrequests, hcalls]
    exact h.senders
  · simp only [hrequests]
    intro n e' he' hsent
    obtain ⟨e, he, hsent'⟩ := hheld n e' he' hsent
    exact h.silent n e he hsent'

/-- The call that has a connection goes on there. -/
theorem Sound.goOn (h : Sound address x) (he : x.held? n = some e) {e' : Exchange Nat} {w : Net}
    (hpeer : e'.link.peer = e.link.peer) (hnet : x.net.Grows w) (hopened : w.opened = x.net.opened)
    (hother : ∀ j, j ≠ e.link.peer → w.lines j = x.net.lines j)
    (hnumbered : (x.goOn n e' w).Numbered)
    (hsettled : ∀ i, i + 1 < (w.lines e.link.peer).requests.length → x.Settled e.link.peer i)
    (hholds : (x.goOn n e' w).Holds n e') : Sound address (x.goOn n e' w) := by
  refine h.onLine rfl rfl rfl rfl hnet hopened hother (h.held n e he).2.1
    (fun link hlink => h.apart link hlink n e he) hnumbered hsettled fun m e₁ he₁ => ?_
  rw [held?_goOn] at he₁
  split at he₁
  · rename_i hm
    subst hm
    cases he₁
    exact Or.inr ⟨⟨e, he, rfl⟩, hpeer, hholds⟩
  · rename_i hm
    exact Or.inl ⟨he₁, fun hp => hm (h.heldOnce m e₁ n e he₁ he hp)⟩

/-! ## Every turn -/

theorem unreached_unavailable (h : Sound address x) (c : Call) (cause : String) :
    Unreached address ⟨c, .error (x.sharing.session.unavailable cause)⟩ :=
  ⟨cause, by rw [← h.address_eq]; rfl⟩

/-- A call that is still under way when another one has ended. -/
theorem held?_of_erase {m : Nat} (he : (x.sharing.exchanges.erase n).get? m = some e) :
    m ≠ n ∧ x.held? m = some e := by
  rw [Table.get?_erase] at he
  split at he
  · cases he
  · exact ⟨‹_›, he⟩

/-- A call ends: its connection is not put back, and others may be dropped. -/
theorem Sound.finish (h : Sound address x) {outcome : Except StoreError c.Answer × Session Net Nat}
    {calls : Nat} (hcalls : x.calls ≤ calls)
    (haddress : outcome.2.address = x.sharing.session.address)
    (hworld : outcome.2.world = x.net) (hkept : outcome.2.kept.Sublist x.kept)
    (hown : Unreached address ⟨c, outcome.1⟩ ∨ ∃ k i, AnsweredBy x.net n ⟨c, outcome.1⟩ k i) :
    Sound address ⟨x.sharing.finish n c outcome, calls⟩ := by
  refine h.fewer hcalls haddress (congrArg Net.lines hworld)
    (Nat.le_of_eq (congrArg Net.opened hworld.symm)) hkept (fun m e he => (held?_of_erase he).2) rfl
    fun r hr => ?_
  rw [List.mem_singleton.1 hr]
  exact hown

/-- A call fails, and its connection is dropped with all that are kept. -/
theorem Sound.broken (h : Sound address x) (n : Nat) (c : Call) (cause : String) :
    Sound address { x with sharing := x.sharing.finish n c (x.sharing.session.broken c cause) } :=
  h.finish (Nat.le_refl _) rfl rfl (List.nil_sublist _) (Or.inl (unreached_unavailable h c _))

/-- Where a call gets its connection. -/
theorem connection_cases (s : Session Net Nat) :
    (∃ link rest, s.kept = link :: rest ∧
      s.connection Net.peer = (.ok link, { s with kept := rest })) ∨
    s.connection Net.peer = (.ok (.fresh s.world.opened),
      { s with world := { s.world with opened := s.world.opened + 1 } }) ∨
    ∃ cause, s.connection Net.peer = (.error (s.unavailable cause), s) := by
  obtain ⟨address, kept, world⟩ := s
  cases kept with
  | cons link rest => exact .inl ⟨link, rest, rfl, rfl⟩
  | nil =>
    cases hr : world.refusal with
    | none => exact .inr (.inl (by simp only [Session.connection, Net.peer, hr]))
    | some cause => exact .inr (.inr ⟨cause, by simp only [Session.connection, Net.peer, hr]⟩)

/-- The latest kept connection is taken. -/
theorem Sound.reuse (h : Sound address x) {rest : List (Link Nat)} (hkept : x.kept = link :: rest)
    (c : Call) : Sound address
      ({ x with sharing := { x.sharing with
          session := { x.sharing.session with kept := rest } } }.hold c link) := by
  have hlink : link ∈ x.kept := hkept ▸ List.mem_cons_self
  have honce : ((link :: rest).map (·.peer)).Nodup := hkept ▸ h.keptOnce
  rw [List.map_cons, List.nodup_cons] at honce
  have hrest : Sound address { x with sharing :=
      { x.sharing with session := { x.sharing.session with kept := rest } } } := by
    refine h.fewer (Nat.le_refl _) rfl rfl (Nat.le_refl _) ?_ (fun _ _ he => he)
      (List.append_nil _).symm (List.forall_mem_nil _)
    rw [hkept]
    exact List.sublist_cons_self link rest
  refine hrest.hold ⟨?_, (h.kept link hlink).1, fun l hl => ?_, fun n e he => ?_⟩ c
  · exact (h.kept link hlink).2.grows ⟨.of_lines rfl, fun _ hr => hr⟩ rfl
  · exact fun hp => honce.1 (hp ▸ List.mem_map_of_mem hl)
  · exact (h.apart link hlink n e he).symm

/-- A new connection is opened. -/
theorem Sound.opened (h : Sound address x) (c : Call) : Sound address
    ((x.withNet { x.net with opened := x.net.opened + 1 }).hold c (.fresh x.net.opened)) := by
  have hopen : Sound address (x.withNet { x.net with opened := x.net.opened + 1 }) :=
    h.withNet rfl (Nat.le_succ _)
  have hline : (x.withNet { x.net with opened := x.net.opened + 1 }).net.lines x.net.opened
      = .blank := h.blank x.net.opened (Nat.le_refl _)
  have hclear : (x.withNet { x.net with opened := x.net.opened + 1 }).Clear
      (.fresh x.net.opened) := by
    refine ⟨rfl, ?_, ?_, ?_⟩ <;> rw [Link.fresh, hline]
    · rfl
    · rfl
    · exact fun i hi => absurd hi (Nat.not_lt_zero i)
  refine hopen.hold ⟨hclear, Nat.lt_succ_self _, fun l hl => ?_, fun n e he => ?_⟩ c
  · exact Nat.ne_of_lt (h.kept l hl).1
  · exact Nat.ne_of_lt (h.held n e he).2.1

theorem Sound.start (h : Sound address x) (c : Call) : Sound address (x.step (.start c)) := by
  have hnew : x.sharing.exchanges.contains x.calls = false := by
    rw [Table.contains, ← Bool.not_eq_true, Option.isSome_iff_exists]
    rintro ⟨e, he⟩
    exact absurd (h.held x.calls e he).1 (Nat.lt_irrefl _)
  simp only [step, move, Sharing.step, hnew, Bool.false_eq_true, if_false, Sharing.start]
  obtain ⟨link, rest, hkept, hc⟩ | hc | ⟨cause, hc⟩ := connection_cases x.sharing.session <;>
    rw [hc]
  · exact h.reuse hkept c
  · exact h.opened c
  · exact h.finish (Nat.le_succ _) rfl rfl (List.Sublist.refl _)
      (Or.inl (unreached_unavailable h c cause))

theorem frame_eq_ok {body bytes : List UInt8} (h : frame body = .ok bytes) :
    bytes = framed body := by
  simp only [frame] at h
  split at h
  · cases h
  · exact (Except.ok.inj h).symm

/-- A request that was sent before the last one, or the last one. -/
theorem request_cases {r r' : Nat × List UInt8} {j : Nat}
    (h : ((w.setLine k { w.lines k with requests := (w.lines k).requests ++ [r] }).lines
      j).requests[i]? = some r') :
    (w.lines j).requests[i]? = some r' ∨ j = k ∧ i = (w.lines k).requests.length ∧ r' = r := by
  rcases eq_or_ne j k with rfl | hj
  · rw [Net.setLine_lines_self] at h
    rcases Nat.lt_trichotomy i (w.lines j).requests.length with hi | rfl | hi
    · rw [List.getElem?_append_left hi] at h
      exact Or.inl h
    · rw [List.getElem?_concat_length] at h
      exact Or.inr ⟨rfl, rfl, (Option.some.inj h).symm⟩
    · rw [List.getElem?_eq_none (by rw [List.length_append, List.length_singleton]; omega)] at h
      cases h
  · rw [Net.setLine_lines_of_ne w hj] at h
    exact Or.inl h

/-- The call that sends has sent nothing before. -/
theorem Numbered.ask (h : x.Numbered) (he : x.held? n = some e) (hsent : e.sent = false)
    (hn : n < x.calls) {e' : Exchange Nat} (hsent' : e'.sent = true) (bytes : List UInt8) :
    (x.goOn n e' (x.net.setLine k { x.net.lines k with
      requests := (x.net.lines k).requests ++ [(n, bytes)] })).Numbered := by
  have hsilent := h.silent n e he hsent
  constructor
  · intro j i j' i' m b b' hr hr'
    rcases request_cases hr with hbefore | ⟨rfl, rfl, hm⟩ <;>
      rcases request_cases hr' with hbefore' | ⟨rfl, rfl, hm'⟩
    · exact h.once j i j' i' m b b' hbefore hbefore'
    · exact absurd (congrArg Prod.fst hm') (hsilent j (m, b) (List.mem_of_getElem? hbefore))
    · exact absurd (congrArg Prod.fst hm) (hsilent j' (m, b') (List.mem_of_getElem? hbefore'))
    · exact ⟨rfl, rfl⟩
  · intro j r hr
    obtain ⟨i, hi⟩ := List.mem_iff_getElem?.1 hr
    rcases request_cases hi with hi | ⟨_, _, rfl⟩
    · exact h.senders j r (List.mem_of_getElem? hi)
    · exact hn
  · intro m e₁ he₁ hsent₁ j r hr
    rw [held?_goOn] at he₁
    split at he₁
    · cases he₁
      rw [hsent₁] at hsent'
      cases hsent'
    · rename_i hm
      obtain ⟨i, hi⟩ := List.mem_iff_getElem?.1 hr
      rcases request_cases hi with hi | ⟨_, _, rfl⟩
      · exact h.silent m e₁ he₁ hsent₁ j r (List.mem_of_getElem? hi)
      · exact Ne.symm hm

/-- A request is sent on a clear connection, and is then the last one there. -/
theorem Sound.ask (h : Sound address x) (he : x.held? n = some e) (hsent : e.sent = false) :
    Sound address (x.goOn n { e with sent := true } (x.net.setLine e.link.peer
      { x.net.lines e.link.peer with
        requests :=
          (x.net.lines e.link.peer).requests ++ [(n, framed (encodeRequest e.call))] })) := by
  have hclear : x.Clear e.link := h.uncrossed.clear e.link (Or.inr ⟨n, e, he, hsent, rfl⟩)
  refine h.goOn he rfl (.setLine (List.prefix_append ..) List.prefix_rfl) rfl
    (fun j hj => Net.setLine_lines_of_ne _ hj _)
    (h.numbered.ask he hsent (h.held n e he).1 rfl _) (fun i hi => ?_) (.sent rfl ?_)
  · rw [Net.setLine_lines_self, List.length_append, List.length_singleton] at hi
    exact hclear.settled i (Nat.lt_of_succ_lt_succ hi)
  · rw [net_goOn, Net.setLine_lines_self]
    exact .unanswered rfl hclear.replies hclear.coming hclear.unread

theorem Sound.send (h : Sound address x) (n : Nat) : Sound address (x.step (.send n)) := by
  have hnet : Sound address (x.withNet { x.net with sender := n }) :=
    h.withNet rfl (Nat.le_refl _)
  have hmove : ∀ y : Traffic, Sound address y → y.net.sender = n →
      Sound address (y.move (.send n)) := by
    intro y hy hsender
    rw [move, Sharing.step]
    cases he : y.sharing.exchanges.get? n with
    | none => exact hy
    | some e =>
      cases hsent : e.sent with
      | true => simpa [hsent] using hy
      | false =>
        simp only [hsent, Bool.false_eq_true, if_false, Sharing.send]
        cases hf : frame (encodeRequest e.call) with
        | error cause => exact hy.broken n e.call cause.message
        | ok bytes =>
          rw [frame_eq_ok hf]
          simp only [Session.send, Net.peer, List.append_nil, Bool.or_false]
          subst hsender
          exact hy.ask he hsent
  exact hmove _ hnet rfl

theorem receive_cases (s : Session Net Nat) (c : Call) (link : Link Nat) :
    (∃ response rest, readFrame decodeResponse link.incoming = (.ok response, rest) ∧
      s.receive c link = (Session.verdict c response,
        { s with kept := { link with incoming := rest } :: s.kept })) ∨
    ∃ cause, s.receive c link = s.broken c cause := by
  rw [Session.receive]
  split
  · exact .inl ⟨_, _, ‹_›, rfl⟩
  · exact .inr ⟨_, rfl⟩
  · exact .inr ⟨_, rfl⟩

/-- A call reads the response to its request, and puts its connection back. -/
theorem Sound.read (h : Sound address x) (he : x.held? n = some e) (hsent : e.sent = true)
    {response : Response} {rest : List UInt8}
    (hr : readFrame decodeResponse e.link.incoming = (.ok response, rest)) :
    Sound address (Traffic.keep { e.link with incoming := rest } ⟨x.sharing.finish n e.call
      (Session.verdict e.call response, x.sharing.session), x.calls⟩) := by
  obtain ⟨rfl, hcoming, hlength, last, hlast, hby⟩ := h.reads he hsent hr
  have hfinish : Sound address ⟨x.sharing.finish n e.call
      (Session.verdict e.call response, x.sharing.session), x.calls⟩ :=
    h.finish (Nat.le_refl _) rfl rfl (List.Sublist.refl _) (Or.inr ⟨_, _, hby⟩)
  refine hfinish.keep ⟨⟨rfl, hcoming, hlength, fun i hi => ?_⟩, (h.held n e he).2.1, fun l hl => ?_,
    fun m e' he' => ?_⟩
  · have hle : i + 1 ≤ (x.net.lines e.link.peer).requests.length := hi
    rcases Nat.lt_or_eq_of_le hle with hlt | heq
    · exact (h.settled e.link.peer i hlt).grows
        ⟨.of_lines rfl, fun r hr => List.mem_append_left _ hr⟩
    · -- the response that was read now
      obtain rfl : i = last := Nat.succ.inj (heq.trans hlast.symm)
      exact ⟨n, _, List.mem_append_right _ (List.mem_singleton_self _), hby⟩
  · exact h.apart l hl n e he
  · obtain ⟨hm, he'⟩ := held?_of_erase he'
    exact fun hp => hm (h.heldOnce m e' n e he' he hp)

theorem Sound.receive (h : Sound address x) (n : Nat) : Sound address (x.step (.receive n)) := by
  rw [step, move, Sharing.step]
  cases he : x.sharing.exchanges.get? n with
  | none => exact h
  | some e =>
    cases hsent : e.sent with
    | false => simpa [hsent] using h
    | true =>
      simp only [hsent, if_true]
      obtain ⟨response, rest, hr, hreceive⟩ | ⟨cause, hreceive⟩ :=
        receive_cases x.sharing.session e.call e.link <;> rw [hreceive]
      · exact h.read he hsent hr
      · exact h.broken n e.call cause

theorem Sound.fail (h : Sound address x) (n : Nat) (cause : String) :
    Sound address (x.step (.fail n cause)) := by
  rw [step, move, Sharing.step]
  cases x.sharing.exchanges.get? n with
  | none => exact h
  | some e => exact h.broken n e.call cause

theorem Sound.cancel (h : Sound address x) (n : Nat) : Sound address (x.step (.cancel n)) :=
  h.fewer (Nat.le_refl _) rfl rfl (Nat.le_refl _) (List.Sublist.refl _)
    (fun _ _ he => (held?_of_erase he).2) (List.append_nil _).symm (List.forall_mem_nil _)

theorem requests_setLine {l : Line} (h : l.requests = (w.lines k).requests) (j : Nat) :
    ((w.setLine k l).lines j).requests = (w.lines j).requests := by
  rcases eq_or_ne j k with rfl | hj
  · rw [Net.setLine_lines_self, h]
  · rw [Net.setLine_lines_of_ne w hj]

theorem Awaits.answer {l : Line} (h : Awaits l n e) {body : List UInt8}
    (hlt : l.replies.length < l.requests.length) (fits : body.length ≤ maxFrame) :
    Awaits { l with replies := l.replies ++ [body], coming := l.coming ++ framed body } n e := by
  cases h with
  | unanswered requests replies coming unread =>
    refine .answered requests rfl replies fits ?_
    rw [unread, coming, List.nil_append, List.nil_append]
  | answered requests replies place =>
    rw [requests, replies, List.length_append, List.length_append, place] at hlt
    exact absurd hlt (Nat.lt_irrefl _)

/-- Only a call that awaits a response can get one. -/
theorem Sound.answer (h : Sound address x) (k : Nat) (body : List UInt8) :
    Sound address (x.step (.answer k body)) := by
  rw [step, Net.answer]
  split
  · rename_i hanswer
    obtain ⟨hlt, fits⟩ := hanswer
    -- nothing is left to answer on a clear connection, so some call awaits this
    have hclear : ∀ {link}, x.Clear link → link.peer ≠ k := by
      rintro link hclear rfl
      exact absurd hclear.replies (Nat.ne_of_lt hlt)
    have hopened : k < x.net.opened := by
      refine Nat.lt_of_not_le fun hle => ?_
      rw [h.blank k hle] at hlt
      cases hlt
    refine h.onLine rfl rfl rfl rfl (.setLine List.prefix_rfl (List.prefix_append ..)) rfl
      (fun j hj => Net.setLine_lines_of_ne _ hj _) hopened
      (fun link hlink => hclear (h.kept link hlink).2)
      (h.numbered.same rfl (requests_setLine rfl) fun n e he hsent => ⟨e, he, hsent⟩)
      (fun i hi => h.settled k i ?_) fun n e he => ?_
    · rwa [net_withNet, Net.setLine_lines_self] at hi
    · rcases eq_or_ne e.link.peer k with rfl | hk
      · refine Or.inr ⟨⟨e, he, rfl⟩, rfl, ?_⟩
        cases (h.held n e he).2.2 with
        | unsent _ clear => exact absurd rfl (hclear clear)
        | sent sent awaits =>
          refine .sent sent ?_
          rw [net_withNet, Net.setLine_lines_self]
          exact awaits.answer hlt fits
      · exact Or.inl ⟨he, hk⟩
  · exact h

theorem Awaits.deliver {l : Line} (h : Awaits l n e) (count : Nat) :
    Awaits { l with coming := l.coming.drop count } n
      { e with link := { e.link with incoming := e.link.incoming ++ l.coming.take count } } := by
  cases h with
  | unanswered requests replies coming unread =>
    refine .unanswered requests replies ?_ ?_
    · rw [coming, List.drop_nil]
    · rw [coming, List.take_nil, List.append_nil, unread]
  | answered requests replies place fits bytes =>
    refine .answered requests replies place fits ?_
    rw [List.append_assoc, List.take_append_drop, bytes]

/-- Something happens on the connection of a call, but the call itself does
nothing, nor does the server. -/
theorem Sound.befall (h : Sound address x) (he : x.held? n = some e) {link : Link Nat} {w : Net}
    (hpeer : link.peer = e.link.peer) (hopened : w.opened = x.net.opened)
    (hother : ∀ j, j ≠ e.link.peer → w.lines j = x.net.lines j)
    (hrequests : (w.lines e.link.peer).requests = (x.net.lines e.link.peer).requests)
    (hreplies : (w.lines e.link.peer).replies = (x.net.lines e.link.peer).replies)
    (hclear : x.Clear e.link → link.incoming = [] ∧ (w.lines e.link.peer).coming = [])
    (hawaits : Awaits (x.net.lines e.link.peer) n e →
      Awaits (w.lines e.link.peer) n { e with link }) :
    Sound address (x.goOn n { e with link } w) := by
  have hall : ∀ j, (w.lines j).requests = (x.net.lines j).requests ∧
      (w.lines j).replies = (x.net.lines j).replies := by
    intro j
    rcases eq_or_ne j e.link.peer with rfl | hj
    · exact ⟨hrequests, hreplies⟩
    · exact ⟨congrArg _ (hother j hj), congrArg _ (hother j hj)⟩
  have hnet : x.net.Grows w :=
    ⟨fun j => (hall j).1 ▸ List.prefix_rfl, fun j => (hall j).2 ▸ List.prefix_rfl⟩
  refine h.goOn he hpeer hnet hopened hother
    (h.numbered.same rfl (fun j => (hall j).1) fun m e₁ he₁ hsent => ?_)
    (fun i hi => h.settled e.link.peer i (hrequests ▸ hi)) ?_
  · rw [held?_goOn] at he₁
    split at he₁
    · rename_i hm
      cases he₁
      exact ⟨e, hm ▸ he, hsent⟩
    · exact ⟨e₁, he₁, hsent⟩
  · cases (h.held n e he).2.2 with
    | unsent sent clear =>
      obtain ⟨hunread, hcoming⟩ := hclear clear
      refine .unsent sent ⟨hunread, ?_, ?_, fun i hi => ?_⟩
      · rw [net_goOn, hpeer, hcoming]
      · rw [net_goOn, hpeer, hreplies, hrequests, clear.replies]
      · rw [net_goOn, hpeer, hrequests] at hi
        rw [hpeer]
        exact (clear.settled i hi).grows ⟨hnet, fun _ hr => hr⟩
    | sent sent awaits =>
      refine .sent sent ?_
      rw [net_goOn, hpeer]
      exact hawaits awaits

theorem Sound.deliver (h : Sound address x) (n count : Nat) :
    Sound address (x.step (.deliver n count)) := by
  rw [step]
  cases he : x.held? n with
  | none => exact h
  | some e =>
    refine h.befall he rfl rfl (fun j hj => Net.setLine_lines_of_ne _ hj _) ?_ ?_ (fun clear => ?_)
      fun awaits => ?_
    · rw [Net.setLine_lines_self]
    · rw [Net.setLine_lines_self]
    · rw [Net.setLine_lines_self, clear.unread, clear.coming, List.take_nil, List.drop_nil]
      exact ⟨rfl, rfl⟩
    · rw [Net.setLine_lines_self]
      exact awaits.deliver count

theorem Awaits.close {l : Line} (h : Awaits l n e) :
    Awaits l n { e with link := { e.link with closed := true } } := by
  cases h with
  | unanswered requests replies coming unread =>
    exact .unanswered requests replies coming unread
  | answered requests replies place fits bytes => exact .answered requests replies place fits bytes

theorem Sound.close (h : Sound address x) (n : Nat) : Sound address (x.step (.close n)) := by
  rw [step]
  cases he : x.held? n with
  | none => exact h
  | some e =>
    exact h.befall he rfl rfl (fun _ _ => rfl) rfl rfl (fun clear => ⟨clear.unread, clear.coming⟩)
      fun awaits => awaits.close

theorem Sound.refuse (h : Sound address x) (cause : Option String) :
    Sound address (x.step (.refuse cause)) :=
  h.withNet rfl (Nat.le_refl _)

theorem Sound.step (h : Sound address x) (t : Turn) : Sound address (x.step t) := by
  cases t with
  | start c => exact h.start c
  | send n => exact h.send n
  | receive n => exact h.receive n
  | fail n cause => exact h.fail n cause
  | cancel n => exact h.cancel n
  | answer k body => exact h.answer k body
  | deliver n count => exact h.deliver n count
  | close n => exact h.close n
  | refuse cause => exact h.refuse cause

theorem Sound.run (h : Sound address x) (turns : List Turn) : Sound address (run turns x) := by
  induction turns using List.reverseRecOn with
  | nil => exact h
  | append_singleton turns t ih =>
    rw [run_snoc]
    exact ih.step t

end Traffic

/-- Whatever calls do and whatever becomes of their connections, no call gets
the response to another one's request, and no connection is used again on which
a response is still to be read. -/
theorem replies_never_go_to_the_wrong_call (address : String) (turns : List Turn) :
    (Traffic.run turns (.fresh address)).Uncrossed address :=
  ((Traffic.sound_fresh address).run turns).uncrossed

/-- A call is given up between its request and the response. The next one does
not get that response, though it came first. -/
example :
    (Traffic.run
      [.start (.key (.get "a")), .send 0, .answer 0 (encodeResponse (.value (some "of a"))),
        .deliver 0 5, .cancel 0, .start (.key (.get "b")), .send 1,
        .answer 1 (encodeResponse (.value none)), .deliver 1 100, .receive 1]
      (.fresh "store")).answered = [(1, ⟨.key (.get "b"), .ok none⟩)] := by
  rfl

end LifecycleLog.Remote
