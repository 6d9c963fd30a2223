-- Route maps that a subscription maintains. Calls on keys, acknowledgements
-- and reads may fail, and the process may crash between any two calls and
-- start anew. Once everything that was appended is acknowledged, the keys are
-- those of the log handled once, in order, with no failure.
import LifecycleLog.Proofs.Projection.Replay
import LifecycleLog.Proofs.Store.InLine
import LifecycleLog.Proofs.Subscription.Order

namespace LifecycleLog

open Nested (Store)
open Subscription

/-- A key call on a store that may meet a fault. -/
def Nested.attemptKey (fault : Option Fault) (c : KeyCall) (st : Store) : KeyReply c × Store :=
  Fault.apply fault (Nested.keyCall c) st

theorem attemptKey_eq (fault : Option Fault) (c : KeyCall) (st : Store) :
    Nested.attemptKey fault c st = ((Keys.reply fault c st.keys).1,
      { st with keys := (Keys.reply fault c st.keys).2 }) := by
  unfold Nested.attemptKey Nested.keyCall
  simp only [Nested.onKeys_eq]
  match fault with
  | none => rfl
  | some (.refused e) => rfl
  | some (.unreported e) => rfl

namespace Projection

/-! ## Worlds -/

/-- What a handler does, or what it has left to do. -/
abbrev Work : Type := KeyProgram (Except EventError Unit)

/-- A store, and a subscription on it; `work` is there while its handler is at
work. -/
structure World where
  store : Store
  state : State
  work : Option Work

def World.start : World := ⟨Nested.empty, .start, none⟩

/-- What may happen next. -/
inductive Step (p : RouteClasses) (stream : String) (o : Options) : World → World → Prop
  | append (w : World) (name : String) (fields : Fields) (now : Nat) :
      Step p stream o w
        { w with store := (Nested.streamCall (.append name fields) now w.store).2 }
  | move {w : World} {d : Deed} {st : Store} {s : State} (idle : w.work = none)
      (move : Move stream o Fault.Passing w.store w.state d st s)
      (other : ∀ event r, d ≠ .handle event r) : Step p stream o w ⟨st, s, none⟩
  | begin {w : World} {event : Event} (idle : w.work = none)
      (asked : w.state.request o = some (.handle event)) :
      Step p stream o w { w with work := some (handle p event) }
  | key {w : World} {c : KeyCall} {next : KeyReply c → Work}
      (fault : Option Fault) (working : w.work = some (.ask c next)) :
      Step p stream o w ⟨(Nested.attemptKey fault c w.store).2, w.state,
        some (next (Nested.attemptKey fault c w.store).1)⟩
  | finish {w : World} {event : Event} {r : Except EventError Unit} {st : Store} {s : State}
      (done : w.work = some (.done r))
      (move : Move stream o Fault.Passing w.store w.state (.handle event r) st s) :
      Step p stream o w ⟨st, s, none⟩
  | crash (w : World) : Step p stream o w ⟨w.store, .start, none⟩

inductive Reachable (p : RouteClasses) (stream : String) (o : Options) : World → Prop
  | start : Reachable p stream o World.start
  | step {w w' : World} (h : Reachable p stream o w) (step : Step p stream o w w') :
      Reachable p stream o w'

/-! ## Entries and keys -/

section Served

variable {p : RouteClasses} {stream : String} {o : Options} {st st' : Store} {settled : Nat}
  {s : State} {position : Option Nat}

/-- The consumer holds every entry of the batch, as it was appended. -/
def InHand (stream : String) (o : Options) (st : Store) (b : Batch) : Prop :=
  ∀ e ∈ b.entry :: b.rest, st.Carries stream o.group o.consumer e

/-- The keys while the handler is at work, or before it begins. -/
def Working (p : RouteClasses) (log : List Fields) (settled : Nat) (keys : Keys) :
    Option Work → Prop
  | none => Due p log settled keys
  | some left => left.Endures (Due p log settled)
      (fun r k => r = .ok () → k = replay p (log.take (settled + 1))) keys

/-- The keys at a phase. An entry is acknowledged only when they are those of
all entries up to it. -/
def Served (p : RouteClasses) (stream : String) (o : Options) (st : Store) (settled : Nat)
    (work : Option Work) : Phase → Prop
  | .handling _ b => InHand stream o st b ∧ Working p (st.log stream) settled st.keys work
  | .acking b => InHand stream o st b ∧ work = none ∧
      st.keys = replay p ((st.log stream).take (settled + 1)) ∧
      Due p (st.log stream) settled st.keys
  | _ => work = none ∧ Due p (st.log stream) settled st.keys

theorem Working.due {log : List Fields} {keys : Keys}
    {work : Option Work} (h : Working p log settled keys work) :
    Due p log settled keys := by
  cases work with
  | none => exact h
  | some left => exact Program.Endures.now h

theorem Served.due {work : Option Work} {phase : Phase}
    (h : Served p stream o st settled work phase) : Due p (st.log stream) settled st.keys := by
  unfold Served at h
  split at h
  · exact h.2.due
  · exact h.2.2.2
  · exact h.2

/-- Only an entry that is being handled has a handler at work on it. -/
theorem Served.at_work {left : Work} {phase : Phase}
    (h : Served p stream o st settled (some left) phase) :
    ∃ event b, phase = .handling event b ∧ InHand stream o st b ∧
      Working p (st.log stream) settled st.keys (some left) := by
  unfold Served at h
  split at h
  · exact ⟨_, _, rfl, h.1, h.2⟩
  · cases h.2.1
  · cases h.1

theorem InHand.grow {b : Batch} {more : List Fields} (h : InHand stream o st b)
    (hlog : st'.log stream = st.log stream ++ more)
    (hheld : st'.held stream o.group o.consumer = st.held stream o.group o.consumer) :
    InHand stream o st' b := by
  intro e he
  obtain ⟨hm, hf⟩ := h e he
  refine ⟨hheld ▸ hm, ?_⟩
  have hlt := (List.getElem?_eq_some_iff.1 hf).1
  rw [hlog, List.getElem?_append_left hlt]
  exact hf

/-- What is appended meanwhile changes nothing for the entry at hand. -/
theorem Served.grow {work : Option Work} {phase : Phase}
    {more : List Fields} (h : Served p stream o st settled work phase) (hs : st.Good)
    (hline : st.InLine stream o.group o.consumer settled)
    (hlog : st'.log stream = st.log stream ++ more)
    (hheld : st'.held stream o.group o.consumer = st.held stream o.group o.consumer)
    (hkeys : st'.keys = st.keys) : Served p stream o st' settled work phase := by
  have hdue : Due p (st'.log stream) settled st'.keys := by
    rw [hlog, hkeys]
    exact h.due.append (hline.le_length hs) more
  have htake : ∀ b, InHand stream o st b → settled < (st.log stream).length ∧
      (st'.log stream).take (settled + 1) = (st.log stream).take (settled + 1) := by
    intro b hand
    have hlt := hline.lt_length hs (hand b.entry List.mem_cons_self).1
    exact ⟨hlt, by rw [hlog, List.take_append_of_le_length hlt]⟩
  unfold Served at *
  split at h
  · rename_i b
    obtain ⟨hand, hw⟩ := h
    refine ⟨hand.grow hlog hheld, ?_⟩
    obtain ⟨hlt, ht⟩ := htake b hand
    cases work with
    | none => exact hdue
    | some left =>
      unfold Working at *
      rw [ht, hkeys]
      refine hw.imp (fun _ hk => ?_) fun _ _ hr => hr
      rw [hlog]
      exact (due_append_iff hlt more).2 hk
  · rename_i b
    obtain ⟨hand, hwork, hk, _⟩ := h
    refine ⟨hand.grow hlog hheld, hwork, ?_, hdue⟩
    rw [(htake b hand).2, hkeys]
    exact hk
  · exact ⟨h.1, hdue⟩

theorem served_resting {phase : Phase} (hr : phase.Resting)
    (h : Due p (st.log stream) settled st.keys) : Served p stream o st settled none phase := by
  unfold Served
  split
  · exact hr.elim
  · exact hr.elim
  · exact ⟨rfl, h⟩

/-- Turning to the first entry of a batch, which is the first one not settled. -/
theorem served_begin {b : Batch} (hline : st.InLine stream o.group o.consumer settled)
    (hle : ∀ id ∈ st.held stream o.group o.consumer, b.entry.id ≤ id)
    (hand : InHand stream o st b) (h : Due p (st.log stream) settled st.keys) :
    Served p stream o st settled none b.phase := by
  obtain ⟨hheld, hf⟩ := hand b.entry List.mem_cons_self
  rw [hline.first_held hheld hle, Nat.add_sub_cancel] at hf
  unfold Batch.phase
  split
  · exact ⟨hand, h⟩
  · rename_i hno
    have he : Event.ofRecord? b.entry.fields = none := by
      unfold Event.ofRecord?
      split
      · rename_i found hd
        cases found with
        | none => rfl
        | some event => exact absurd hd (hno event)
      · rfl
    exact ⟨hand, rfl, (due_noEvent hf he).1 h, h⟩

end Served

/-! ## What holds between any two calls -/

/-- The loop is sound, the group stands in line, and the keys are those of the
settled entries but for attempts at the next one. -/
structure Faithful (p : RouteClasses) (stream : String) (o : Options) (w : World) : Prop where
  good : w.store.Good
  sound : ∃ pass, w.state.Sound (w.store.held stream o.group o.consumer) pass
  served : ∃ settled, w.store.InLine stream o.group o.consumer settled ∧
    Served p stream o w.store settled w.work w.state.phase

section Faithful

variable {p : RouteClasses} {stream : String} {o : Options} {st st' : Store} {settled : Nat}
  {s : State} {pass position : Option Nat} {k : Outlook}

theorem faithful_start : Faithful p stream o World.start :=
  ⟨Nested.good_empty, ⟨some 0, rfl⟩, 0, .empty, rfl, due_of_eq (by simp; rfl)⟩

/-- The loop turns to a batch that is in hand. -/
theorem served_turn {b : Batch} (ha : s.At b.phase position)
    (hline : st.InLine stream o.group o.consumer settled)
    (hsound : s.Sound (st.held stream o.group o.consumer) pass) (hand : InHand stream o st b)
    (h : Due p (st.log stream) settled st.keys) :
    Served p stream o st settled none s.phase := by
  rw [State.Sound, ha.1] at hsound
  rw [ha.1]
  exact served_begin hline (Batch.covers hsound).head_le hand h

/-- What a read returns is at hand next. -/
theorem served_read (ho : o.claimIdle = none) (hp : s.phase = .reading) {entries : List Entry}
    (hline : st.InLine stream o.group o.consumer settled)
    (hsound : (s.step stream o (.entries (.ok entries)) k).Sound
      (st.held stream o.group o.consumer) pass)
    (hand : ∀ e ∈ entries, st.Carries stream o.group o.consumer e)
    (h : Due p (st.log stream) settled st.keys) :
    Served p stream o st settled none (s.step stream o (.entries (.ok entries)) k).phase := by
  cases entries with
  | nil => exact served_resting (resting_of (step_readNone ho hp) trivial) h
  | cons e rest => exact served_turn (step_readSome hp e rest) hline hsound hand h

/-- After an acknowledgement the rest of the batch is at hand. -/
theorem served_acked (ho : o.claimIdle = none) {b : Batch} (hp : s.phase = .acking b) (n : Nat)
    (hclaimed : b.claimed = false) (hline : st.InLine stream o.group o.consumer settled)
    (hsound : (s.step stream o (.acked (.ok n)) k).Sound (st.held stream o.group o.consumer) pass)
    (hand : ∀ e ∈ b.rest, st.Carries stream o.group o.consumer e)
    (h : Due p (st.log stream) settled st.keys) :
    Served p stream o st settled none (s.step stream o (.acked (.ok n)) k).phase := by
  obtain ⟨e, rest, claimed⟩ := b
  cases hclaimed
  cases rest with
  | nil => exact served_resting (resting_of (step_ackedLast ho hp n) trivial) h
  | cons next rest => exact served_turn (step_acked hp n) hline hsound hand h

/-- The rest of a batch stays in hand when its first entry is acknowledged. -/
theorem carries_rest {b : Batch} {now n : Nat}
    (hc : Covers (st.held stream o.group o.consumer) pass b.ids)
    (hand : InHand stream o st b)
    (call : Nested.streamCall (.ack stream o.group [b.entry.id]) now st = (.ok n, st')) :
    ∀ e ∈ b.rest, st'.Carries stream o.group o.consumer e := by
  intro e he
  obtain ⟨hheld, hf⟩ := hand e (List.mem_cons_of_mem _ he)
  have hlt : b.entry.id < e.id :=
    (List.pairwise_cons.1 hc.sorted).1 e.id (List.mem_map_of_mem he)
  constructor
  · rw [Nested.held_of_ack call, List.mem_filter]
    refine ⟨hheld, ?_⟩
    simp only [List.mem_singleton, decide_eq_true_eq]
    omega
  · have hlog : st'.log stream = st.log stream := by
      obtain ⟨g, _, _, rfl⟩ := Nested.onGroup_ok call
      exact Nested.log_setGroup _ _ _ _ _
    rw [hlog]
    exact hf

/-- An acknowledgement that is reported settles the entry; one that fails may
have settled it too. -/
theorem served_ack (ho : o.claimIdle = none) {b : Batch} (hp : s.phase = .acking b)
    {fault : Option Fault} {now : Nat} {r : Except StoreError Nat} {pass' : Option Nat}
    (call : Nested.attempt fault (.ack stream o.group [b.entry.id]) now st = (r, st'))
    (hline : st.InLine stream o.group o.consumer settled)
    (hsound : s.Sound (st.held stream o.group o.consumer) pass)
    (hsound' : (s.step stream o (.acked r) k).Sound (st'.held stream o.group o.consumer) pass')
    (h : Served p stream o st settled none s.phase) :
    ∃ settled', st'.InLine stream o.group o.consumer settled' ∧
      Served p stream o st' settled' none (s.step stream o (.acked r) k).phase := by
  rw [State.Sound, hp] at hsound
  rw [hp] at h
  obtain ⟨hclaimed, _, hc⟩ := hsound
  obtain ⟨hand, _, hkeys, hdue⟩ := h
  obtain ⟨hheld, _⟩ := hand b.entry List.mem_cons_self
  have hid := hline.first_held hheld hc.head_le
  have hlog : st'.log stream = st.log stream := Nested.log_attempt rfl call
  have hkeys' := Nested.keys_attempt call
  have hline' : st' = (Nested.streamCall (.ack stream o.group [b.entry.id]) now st).2 →
      st'.InLine stream o.group o.consumer (settled + 1) := by
    intro he
    rw [he, hid]
    exact hline.acknowledged (hid ▸ hheld) now
  have hdue' : Due p (st'.log stream) (settled + 1) st'.keys := by
    rw [hlog, hkeys']
    exact due_of_eq hkeys
  cases r with
  | ok n =>
    have hcall := Nested.attempt_ok call
    have hl := hline' (congrArg Prod.snd hcall).symm
    have hrest := carries_rest hc hand hcall
    exact ⟨settled + 1, hl, served_acked ho hp n hclaimed hl hsound' hrest hdue'⟩
  | error e =>
    have hr : (s.step stream o (.acked (.error e)) k).phase.Resting :=
      resting_of (step_ackFailed hp e) trivial
    rcases Nested.attempt_effect call with he | he
    · exact ⟨settled, he ▸ hline, served_resting hr (he ▸ hdue)⟩
    · exact ⟨settled + 1, hline' he, served_resting hr hdue'⟩

/-- Moves of the loop, but for the handler's. -/
theorem Faithful.move (ho : o.claimIdle = none) (hb : 1 ≤ o.batchSize) (hs : o.start = .beginning)
    {d : Deed} {s' : State} (h : Faithful p stream o ⟨st, s, none⟩)
    (m : Move stream o Fault.Passing st s d st' s') (other : ∀ event r, d ≠ .handle event r) :
    Faithful p stream o ⟨st', s', none⟩ := by
  obtain ⟨good, ⟨pass, sound⟩, settled, line, served⟩ := h
  obtain ⟨good', sound'⟩ := m.sound ho hb good sound
  refine ⟨good', ⟨_, sound'⟩, ?_⟩
  have due := served.due
  cases m with
  | create fault now k asked call =>
    obtain ⟨attempt, hp⟩ := madeIn_of_request asked
    have hlog : st'.log stream = st.log stream := Nested.log_attempt rfl call
    refine ⟨settled, ?_, served_resting (resting_created hp _) ?_⟩
    · rcases Nested.attempt_effect call with he | he
      · exact he ▸ line
      · rw [he, hs]
        exact line.created now
    · rw [hlog, Nested.keys_attempt call]
      exact due
  | claim fault now k asked call => exact absurd asked (request_ne_claim ho _)
  | @read fault now k mode block asked lost r st' call =>
    obtain ⟨hp, _⟩ := madeIn_of_request asked
    cases r with
    | error e =>
      rw [Nested.attempt_readGroup_error lost call]
      exact ⟨settled, line, served_resting (resting_of (step_readFailed hp e) trivial) due⟩
    | ok entries =>
      have hcall := Nested.attempt_ok call
      have hline := line.of_readGroup hcall
      have hlog : st'.log stream = st.log stream := Nested.log_attempt rfl call
      have hand : ∀ e ∈ entries, st'.Carries stream o.group o.consumer e := by
        cases mode with
        | new => exact Nested.carries_of_readNew hcall
        | pending after => exact Nested.carries_of_readPending good hcall
      refine ⟨settled, hline, served_read ho hp hline sound' hand ?_⟩
      rw [hlog, Nested.keys_attempt call]
      exact due
  | readNothing k asked =>
    obtain ⟨hp, _⟩ := madeIn_of_request asked
    exact ⟨settled, line, served_read ho hp line sound' (by simp) due⟩
  | handle k asked r => exact absurd rfl (other _ _)
  | ack fault now k asked call =>
    obtain ⟨b, hp, rfl⟩ := madeIn_of_request asked
    exact served_ack ho hp call line sound sound' served
  | wait k asked =>
    exact ⟨settled, line, served_resting (resting_waited (madeIn_of_request asked)) due⟩
  | interrupt k asked =>
    exact ⟨settled, line, served_resting (ended_of_signal asked).resting due⟩

/-- The handler is done: its result goes to the loop. -/
theorem Faithful.finish (ho : o.claimIdle = none) (hb : 1 ≤ o.batchSize) {event : Event}
    {r : Except EventError Unit} {s' : State} (h : Faithful p stream o ⟨st, s, some (.done r)⟩)
    (m : Move stream o Fault.Passing st s (.handle event r) st' s') :
    Faithful p stream o ⟨st', s', none⟩ := by
  obtain ⟨good, ⟨pass, sound⟩, settled, line, served⟩ := h
  obtain ⟨good', sound'⟩ := m.sound ho hb good sound
  refine ⟨good', ⟨_, sound'⟩, settled, ?_⟩
  cases m with
  | handle k asked r =>
    obtain ⟨b, hp⟩ := madeIn_of_request asked
    rw [hp] at served
    obtain ⟨hand, hdue, hkeys⟩ := served
    refine ⟨line, ?_⟩
    cases r with
    | ok _ =>
      have ha : (s.step stream o (.handled (.ok ())) k).At _ _ := step_handled hp
      rw [ha.1]
      exact ⟨hand, rfl, hkeys rfl, hdue⟩
    | error e => exact served_resting (resting_of (step_handlerFailed hp e) trivial) hdue

/-- The handler begins on the first entry that is not settled. -/
theorem Faithful.begin {event : Event} (h : Faithful p stream o ⟨st, s, none⟩)
    (asked : s.request o = some (.handle event)) :
    Faithful p stream o ⟨st, s, some (handle p event)⟩ := by
  obtain ⟨good, ⟨pass, sound⟩, settled, line, served⟩ := h
  refine ⟨good, ⟨pass, sound⟩, settled, line, ?_⟩
  obtain ⟨b, hp⟩ := madeIn_of_request asked
  rw [State.Sound, hp] at sound
  rw [hp] at served ⊢
  obtain ⟨hand, hdue⟩ := served
  obtain ⟨hheld, hf⟩ := hand b.entry List.mem_cons_self
  rw [line.first_held hheld sound.2.2.2.head_le, Nat.add_sub_cancel] at hf
  have he : Event.ofRecord? b.entry.fields = some event := by
    unfold Event.ofRecord?
    rw [sound.1]
  refine ⟨hand, ((due_event hf he).1 hdue).endures.imp ?_ fun _ _ hr => hr⟩
  exact fun _ hk => (due_event hf he).2 hk

/-- One key call of the handler. -/
theorem Faithful.key {c : KeyCall} {next : KeyReply c → Work}
    (h : Faithful p stream o ⟨st, s, some (.ask c next)⟩) (fault : Option Fault) :
    Faithful p stream o ⟨(Nested.attemptKey fault c st).2, s,
      some (next (Nested.attemptKey fault c st).1)⟩ := by
  obtain ⟨good, sound, settled, line, served⟩ := h
  rw [attemptKey_eq]
  refine ⟨good, sound, settled, line.frame rfl, ?_⟩
  obtain ⟨event, b, hp, hand, hw⟩ := served.at_work
  rw [show s.phase = .handling event b from hp]
  exact ⟨hand, hw.2 fault⟩

/-- An append, to this stream or to another one. -/
theorem Faithful.append {w : World} (h : Faithful p stream o w) (name : String) (fields : Fields)
    (now : Nat) : Faithful p stream o
      { w with store := (Nested.streamCall (.append name fields) now w.store).2 } := by
  obtain ⟨good, ⟨pass, sound⟩, settled, line, served⟩ := h
  have hgroup := Nested.groupOf_append name fields now w.store stream o.group
  refine ⟨good.streamCall _ now, ⟨pass, ?_⟩, settled, line.frame hgroup, ?_⟩
  · exact sound.mono (Nested.held_streamCall id now _)
  · exact served.grow good line (Nested.log_streamCall _ _ _ _) (by rw [Store.held, hgroup]; rfl)
      (Nested.keys_streamCall _ _ _)

theorem Faithful.crash {w : World} (h : Faithful p stream o w) :
    Faithful p stream o ⟨w.store, .start, none⟩ := by
  obtain ⟨good, _, settled, line, served⟩ := h
  exact ⟨good, ⟨some 0, rfl⟩, settled, line, rfl, served.due⟩

theorem Faithful.step (ho : o.claimIdle = none) (hb : 1 ≤ o.batchSize) (hs : o.start = .beginning)
    {w w' : World} (h : Faithful p stream o w) (hstep : Step p stream o w w') :
    Faithful p stream o w' := by
  obtain ⟨st, s, work⟩ := w
  cases hstep with
  | append name fields now => exact h.append name fields now
  | move idle m other =>
    cases idle
    exact h.move ho hb hs m other
  | begin idle asked =>
    cases idle
    exact h.begin asked
  | key fault working =>
    cases working
    exact h.key fault
  | finish done m =>
    cases done
    exact h.finish ho hb m
  | crash => exact h.crash

theorem Reachable.faithful (ho : o.claimIdle = none) (hb : 1 ≤ o.batchSize)
    (hs : o.start = .beginning) {w : World} (h : Reachable p stream o w) :
    Faithful p stream o w := by
  induction h with
  | start => exact faithful_start
  | step _ hstep ih => exact ih.step ho hb hs hstep

end Faithful

/-! ## The main law -/

/-- Whenever everything that was appended is acknowledged, the keys are those
of the log handled once, in order, with no failure. -/
theorem a_settled_log_is_projected_exactly_once (p : RouteClasses) (stream : String) (o : Options)
    (ho : o.claimIdle = none) (hb : 1 ≤ o.batchSize) (hs : o.start = .beginning) {w : World}
    (h : Reachable p stream o w) {g : Nested.Group}
    (hg : w.store.groupOf stream o.group = some g) (hpending : g.pending = [])
    (hcursor : g.cursor = (w.store.log stream).length) :
    w.store.keys = replay p (w.store.log stream) := by
  obtain ⟨_, _, settled, line, served⟩ := h.faithful ho hb hs
  have hl := line.present g hg
  have hsettled : settled = (w.store.log stream).length := by
    have hids := congrArg List.length hl.ids
    have hle := hl.le
    simp only [Nested.Group.ids, hpending, List.map_nil, List.length_nil,
      List.length_range'] at hids
    omega
  have hend : (w.store.log stream)[settled]? = none :=
    List.getElem?_eq_none (Nat.le_of_eq hsettled.symm)
  calc w.store.keys
      = replay p ((w.store.log stream).take settled) := (due_end hend).1 served.due
    _ = replay p (w.store.log stream) := by rw [hsettled, List.take_length]

/-- The first write of a route is not reported, the process crashes before the
entry is tried again, and then the acknowledgement is not reported either. -/
theorem a_half_written_route_is_completed :
    (unclaiming "g" "c").claimIdle = none ∧ 1 ≤ (unclaiming "g" "c").batchSize ∧
      (unclaiming "g" "c").start = .beginning ∧
      ∃ w, Reachable ⟨⟨"things", "/id"⟩, ⟨"channels", "/id"⟩⟩ "s" (unclaiming "g" "c") w ∧
        w.store.log "s" = [(Event.created .thing "t1" "o1" ⟨none, some "k1", none⟩).encode] ∧
        w.store.groupOf "s" "g" = some ⟨1, []⟩ ∧
        w.store.keys = replay ⟨⟨"things", "/id"⟩, ⟨"channels", "/id"⟩⟩ (w.store.log "s") ∧
        w.store.keys.get? "things:ext:k1" = some "t1" ∧
        w.store.keys.get? "things:int:t1" = some "k1" := by
  let k : Outlook := ⟨0, false, false⟩
  let lost : Option Fault := some (.unreported (.unavailable "down"))
  have h₀ : Reachable ⟨⟨"things", "/id"⟩, ⟨"channels", "/id"⟩⟩ "s" (unclaiming "g" "c") .start :=
    .start
  have h₁ := h₀.step
    (.append _ "s" (Event.created .thing "t1" "o1" ⟨none, some "k1", none⟩).encode 0)
  have h₂ := h₁.step (.move rfl (.create none 0 k rfl rfl) (fun _ _ h => nomatch h))
  have h₃ := h₂.step (.move rfl (.read none 0 k rfl (by simp) rfl) (fun _ _ h => nomatch h))
  have h₄ := h₃.step (.move rfl (.read none 0 k rfl (by simp) rfl) (fun _ _ h => nomatch h))
  -- two look-ups and a write that is not reported
  have h₅ := h₄.step (.begin rfl rfl)
  have h₆ := ((h₅.step (.key none rfl)).step (.key none rfl)).step (.key lost rfl)
  have h₇ := (h₆.step (.finish rfl (.handle k rfl _))).step (.crash _)
  have h₈ := h₇.step (.move rfl (.create none 0 k rfl rfl) (fun _ _ h => nomatch h))
  have h₉ := h₈.step (.move rfl (.read none 0 k rfl (by simp) rfl) (fun _ _ h => nomatch h))
  -- two look-ups and two writes
  have h₁₀ := (h₉.step (.begin rfl rfl)).step (.key none rfl)
  have h₁₁ := ((h₁₀.step (.key none rfl)).step (.key none rfl)).step (.key none rfl)
  have h₁₂ := h₁₁.step (.finish rfl (.handle k rfl _))
  have h₁₃ := h₁₂.step (.move rfl (.ack lost 0 k rfl rfl) (fun _ _ h => nomatch h))
  refine ⟨rfl, by decide, rfl, _, h₁₃, ?_, ?_, ?_, ?_, ?_⟩
  · decide +kernel
  · decide +kernel
  · exact a_settled_log_is_projected_exactly_once _ "s" _ rfl (by decide) rfl h₁₃
      (by decide +kernel : _ = some ⟨1, []⟩) rfl (by decide +kernel)
  · decide +kernel
  · decide +kernel

end Projection

end LifecycleLog
