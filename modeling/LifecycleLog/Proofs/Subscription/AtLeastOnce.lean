-- Any number of subscriptions that share a group, with any options and under
-- any names. Calls fail with or without effect, handlers fail, subscriptions
-- crash and start again, and others do what they like but acknowledge. Every
-- entry past the start of the group is still to come, or pending, or was
-- dispatched by the subscription that acknowledged it, before it did so.
import LifecycleLog.Proofs.Store.Growth
import LifecycleLog.Proofs.Subscription.Moves
import Mathlib.Logic.Function.Basic

namespace LifecycleLog.Subscription

open Nested (Store Group)

/-! ## What subscriptions did -/

/-- A move of one of the subscriptions: where it stood and what it did, and
the store before and after. -/
structure Turn where
  who : Nat
  state : State
  deed : Deed
  before : Store
  after : Store

/-- The handler took the event of an entry and succeeded. -/
def Turn.Handles (t : Turn) (event : Event) (id : Nat) (fields : Fields) : Prop :=
  t.deed = .handle event (.ok ()) ∧
    ∃ b, t.state.phase = .handling event b ∧ b.entry.id = id ∧ b.entry.fields = fields

/-- The move is an acknowledgement that took an entry off the pending list. -/
def Turn.Removes (stream group : String) (t : Turn) (id : Nat) : Prop :=
  (∃ r, t.deed = .ack id r) ∧ id ∈ t.before.ids stream group ∧ id ∉ t.after.ids stream group

/-- One of the subscriptions dispatched an entry: its handler succeeded on the
event, unless the entry is no event. -/
def Dispatched (turns : List Turn) (who id : Nat) (fields : Fields) : Prop :=
  ∀ event, Event.decode fields = .ok (some event) →
    ∃ t ∈ turns, t.who = who ∧ t.Handles event id fields

/-- An entry was acknowledged by a subscription that had dispatched it. -/
def Settled (stream group : String) (turns : List Turn) (id : Nat) (fields : Fields) : Prop :=
  ∃ done ack rest, turns = done ++ ack :: rest ∧ ack.Removes stream group id ∧
    Dispatched done ack.who id fields

/-- Where the group starts is settled once it is there. -/
def startWith (stream group : String) (start : Option Nat) (st : Store) : Option Nat :=
  start.or ((st.groupOf stream group).map (·.cursor))

/-- A run of subscriptions on a store, with the place at which the group starts
and what the subscriptions did. They move in any order, and any of their calls
may meet any fault; one that was reported as failed may take effect later.
Others make any calls but acknowledgements in the group. A crash leaves a
subscription where a new one begins. -/
inductive Fleet (stream group : String) (opts : Nat → Options) (before : Store) :
    Option Nat → List Turn → Store → (Nat → State) → Prop
  | begin : Fleet stream group opts before (startWith stream group none before) [] before
      (fun _ => State.start)
  | move {start : Option Nat} {turns : List Turn} {st st' : Store} {states : Nat → State}
      {d : Deed} {s' : State} (run : Fleet stream group opts before start turns st states)
      (who : Nat) (move : Move stream (opts who) (fun _ => True) st (states who) d st' s') :
      Fleet stream group opts before (startWith stream group start st')
        (turns ++ [⟨who, states who, d, st, st'⟩]) st' (Function.update states who s')
  /-- Late effects of other calls are calls of others. -/
  | late {start : Option Nat} {turns : List Turn} {st : Store} {states : Nat → State}
      (run : Fleet stream group opts before start turns st states) {t : Turn} (done : t ∈ turns)
      {id : Nat} {e : StoreError} (failed : t.deed = .ack id (.error e)) (now : Nat) :
      Fleet stream group opts before
        (startWith stream group start (Nested.streamCall (.ack stream group [id]) now st).2)
        (turns ++ [⟨t.who, t.state, t.deed, st,
          (Nested.streamCall (.ack stream group [id]) now st).2⟩])
        (Nested.streamCall (.ack stream group [id]) now st).2 states
  | others {start : Option Nat} {turns : List Turn} {st : Store} {states : Nat → State}
      (run : Fleet stream group opts before start turns st states) (c : StreamCall) (now : Nat)
      (foreign : ∀ ids, c ≠ .ack stream group ids) :
      Fleet stream group opts before (startWith stream group start (Nested.streamCall c now st).2)
        turns (Nested.streamCall c now st).2 states
  | keys {start : Option Nat} {turns : List Turn} {st : Store} {states : Nat → State}
      (run : Fleet stream group opts before start turns st states) (keys : Keys) :
      Fleet stream group opts before start turns { st with keys } states
  | crash {start : Option Nat} {turns : List Turn} {st : Store} {states : Nat → State}
      (run : Fleet stream group opts before start turns st states) (who : Nat) :
      Fleet stream group opts before start turns st (Function.update states who State.start)

/-! ## More turns -/

variable {stream group : String} {turns : List Turn} {who id : Nat} {fields : Fields}

theorem Dispatched.more (h : Dispatched turns who id fields) (more : List Turn) :
    Dispatched (turns ++ more) who id fields := by
  intro event he
  obtain ⟨t, ht, hw⟩ := h event he
  exact ⟨t, List.mem_append_left _ ht, hw⟩

theorem Settled.more (h : Settled stream group turns id fields) (more : List Turn) :
    Settled stream group (turns ++ more) id fields := by
  obtain ⟨done, ack, rest, rfl, h⟩ := h
  exact ⟨done, ack, rest ++ more, by simp, h⟩

/-- An entry that is no event needs no handler. -/
theorem dispatched_of_noEvent (h : ∀ event, Event.decode fields ≠ .ok (some event)) :
    Dispatched turns who id fields :=
  fun event he => absurd he (h event)

/-! ## What a subscription knows -/

/-- Every entry at hand is one of the log. -/
def Batch.Logged (b : Batch) (stream : String) (st : Store) : Prop :=
  ∀ e ∈ b.entry :: b.rest, st.Logged stream e

/-- At the handler is the event of the entry at hand; what is acknowledged was
dispatched. -/
def Ready (stream : String) (st : Store) (turns : List Turn) (who : Nat) : Phase → Prop
  | .handling event b => Event.decode b.entry.fields = .ok (some event) ∧ b.Logged stream st
  | .acking b => Dispatched turns who b.entry.id b.entry.fields ∧ b.Logged stream st
  | _ => True

/-- What a turn acknowledged was dispatched. -/
def Backed (stream : String) (st : Store) (turns : List Turn) (t : Turn) : Prop :=
  ∀ id r, t.deed = .ack id r →
    ∃ fields, (st.log stream)[id - 1]? = some fields ∧ Dispatched turns t.who id fields

section Ready

variable {st st' : Store} {phase : Phase} {b : Batch}

theorem ready_of_resting (h : phase.Resting) : Ready stream st turns who phase := by
  cases phase with
  | handling event b => exact h.elim
  | acking b => exact h.elim
  | _ => trivial

theorem Batch.Logged.ready (h : b.Logged stream st) : Ready stream st turns who b.phase := by
  unfold Batch.phase
  split
  · rename_i event he
    exact ⟨he, h⟩
  · rename_i hne
    exact ⟨dispatched_of_noEvent hne, h⟩

/-- Later on the log has more entries and there are more turns. -/
theorem Ready.mono (h : Ready stream st turns who phase) {added : List Fields}
    (hlog : st'.log stream = st.log stream ++ added) (more : List Turn) :
    Ready stream st' (turns ++ more) who phase := by
  have hlogged : ∀ b : Batch, b.Logged stream st → b.Logged stream st' := by
    intro b hb e he
    have hs := hb e he
    obtain ⟨hlt, _⟩ := List.getElem?_eq_some_iff.1 hs
    rw [Store.Logged, hlog, List.getElem?_append_left hlt]
    exact hs
  cases phase with
  | handling event b => exact ⟨h.1, hlogged b h.2⟩
  | acking b => exact ⟨h.1.more more, hlogged b h.2⟩
  | _ => trivial

theorem Backed.mono {t : Turn} (h : Backed stream st turns t) {added : List Fields}
    (hlog : st'.log stream = st.log stream ++ added) (more : List Turn) :
    Backed stream st' (turns ++ more) t := by
  intro id r hdeed
  obtain ⟨fields, hf, hd⟩ := h id r hdeed
  obtain ⟨hlt, _⟩ := List.getElem?_eq_some_iff.1 hf
  refine ⟨fields, ?_, hd.more more⟩
  rw [hlog, List.getElem?_append_left hlt]
  exact hf

end Ready

section Moves

variable {o : Options} {st st' : Store} {s s' : State} {d : Deed}

theorem Move.log_eq (m : Move stream o (fun _ => True) st s d st' s') :
    st'.log stream = st.log stream := by
  cases m with
  | create _ _ _ _ call => exact Nested.log_attempt rfl call
  | claim _ _ _ _ call => exact Nested.log_attempt rfl call
  | read _ _ _ _ _ call => exact Nested.log_attempt rfl call
  | ack _ _ _ _ call => exact Nested.log_attempt rfl call
  | readNothing => rfl
  | handle => rfl
  | wait => rfl
  | interrupt => rfl

theorem Move.good (m : Move stream o (fun _ => True) st s d st' s') (hg : st.Good) : st'.Good := by
  cases m with
  | create _ _ _ _ call => exact Nested.good_attempt hg call
  | claim _ _ _ _ call => exact Nested.good_attempt hg call
  | read _ _ _ _ _ call => exact Nested.good_attempt hg call
  | ack _ _ _ _ call => exact Nested.good_attempt hg call
  | readNothing => exact hg
  | handle => exact hg
  | wait => exact hg
  | interrupt => exact hg

/-- Entries that were read or claimed come to hand as the log has them. -/
theorem ready_entries {k : Outlook} (hp : s.phase = .claiming ∨ s.phase = .reading)
    {r : Except StoreError (List Entry)}
    (hr : ∀ entries, r = .ok entries → ∀ e ∈ entries, st.Logged stream e) :
    Ready stream st turns who (s.step stream o (.entries r) k).phase := by
  rcases entries_cases hp r with hrest | ⟨e, rest, claimed, he, hphase⟩
  · exact ready_of_resting hrest
  · rw [hphase]
    exact Batch.Logged.ready (hr (e :: rest) he)

/-- What comes to hand is in the log, and what comes to be acknowledged was
dispatched. -/
theorem Move.ready (m : Move stream o (fun _ => True) st s d st' s') (hg : st.Good)
    (h : Ready stream st turns who s.phase) :
    Ready stream st' (turns ++ [⟨who, s, d, st, st'⟩]) who s'.phase := by
  have hlog : st'.log stream = st.log stream ++ [] := by rw [m.log_eq, List.append_nil]
  cases m with
  | create fault now k asked call =>
    obtain ⟨attempt, hp⟩ := madeIn_of_request asked
    exact ready_of_resting (resting_created hp _)
  | claim fault now k asked call =>
    refine ready_entries (Or.inl (madeIn_of_request asked).1) (fun entries hr => ?_)
    exact Nested.logged_of_claimIdle (Nested.attempt_ok (hr ▸ call))
  | read fault now k asked lost call =>
    refine ready_entries (Or.inr (madeIn_of_request asked).1) (fun entries hr => ?_)
    exact Nested.logged_of_readGroup hg (Nested.attempt_ok (hr ▸ call))
  | readNothing k asked =>
    refine ready_entries (Or.inr (madeIn_of_request asked).1) (fun entries hr => ?_)
    obtain rfl : entries = [] := by simpa using hr.symm
    simp
  | @handle k event asked r =>
    obtain ⟨b, hp⟩ := madeIn_of_request asked
    cases r with
    | error e => exact ready_of_resting (resting_of (step_handlerFailed hp e) trivial)
    | ok u =>
      rw [hp] at h
      rw [(step_handled hp).1]
      refine ⟨fun event' he => ?_, h.2⟩
      obtain rfl : event = event' := by
        have := h.1.symm.trans he
        simpa using this
      exact ⟨⟨who, s, .handle event (.ok u), st, st⟩, by simp, rfl, rfl, b, hp, rfl, rfl⟩
  | @ack fault now k id asked r st' call =>
    obtain ⟨b, hp, rfl⟩ := madeIn_of_request asked
    cases r with
    | error e => exact ready_of_resting (resting_of (step_ackFailed hp e) trivial)
    | ok n =>
      rcases acked_cases hp n with hr | ⟨next, rest, hrest, hphase⟩
      · exact ready_of_resting hr
      · rw [hp] at h
        have hb := (h.mono hlog [⟨who, s, .ack b.entry.id (.ok n), st, st'⟩]).2
        rw [hphase]
        refine Batch.Logged.ready (fun e he => hb e ?_)
        rw [hrest]
        exact List.mem_cons_of_mem _ he
  | wait k asked => exact ready_of_resting (resting_waited (madeIn_of_request asked))
  | interrupt k asked => exact ready_of_resting (ended_of_signal asked).resting

theorem Move.backed (m : Move stream o (fun _ => True) st s d st' s')
    (h : Ready stream st turns who s.phase) :
    Backed stream st turns ⟨who, s, d, st, st'⟩ := by
  intro id r hdeed
  cases m with
  | ack fault now k asked call =>
    cases hdeed
    obtain ⟨b, hp, rfl⟩ := madeIn_of_request asked
    rw [hp] at h
    exact ⟨b.entry.fields, h.2 b.entry List.mem_cons_self, h.1⟩
  | _ => cases hdeed

end Moves

/-! ## Accounts of the group -/

/-- An entry is still to come, or pending, or settled. -/
def Accounted (stream group : String) (turns : List Turn) (g : Group) (id : Nat)
    (fields : Fields) : Prop :=
  g.cursor < id ∨ id ∈ g.ids ∨ Settled stream group turns id fields

/-- The group is there from its start on, and every entry beyond is accounted
for. -/
structure Accounts (stream group : String) (start : Option Nat) (turns : List Turn)
    (st : Store) : Prop where
  absent : start = none → st.groupOf stream group = none
  present : ∀ p, start = some p → ∃ g, st.groupOf stream group = some g ∧ ∀ id fields, p < id →
    (st.log stream)[id - 1]? = some fields → Accounted stream group turns g id fields

section Accounts

variable {start : Option Nat} {st st' : Store}

theorem Accounted.more {g : Group} (h : Accounted stream group turns g id fields)
    (more : List Turn) : Accounted stream group (turns ++ more) g id fields := by
  rcases h with h | h | h
  · exact Or.inl h
  · exact Or.inr (Or.inl h)
  · exact Or.inr (Or.inr (h.more more))

/-- When the group is first there, all entries beyond its cursor are to come. -/
theorem accounts_begin (st : Store) (turns : List Turn) :
    Accounts stream group (startWith stream group none st) turns st := by
  cases hg : st.groupOf stream group with
  | none => exact ⟨fun _ => hg, fun p hp => by simp [startWith, hg] at hp⟩
  | some g =>
    refine ⟨fun h => by simp [startWith, hg] at h, fun p hp => ⟨g, hg, fun id fields hlt _ => ?_⟩⟩
    obtain rfl : g.cursor = p := by simpa [startWith, hg] using hp
    exact Or.inl hlt

theorem Accounts.startWith_eq (h : Accounts stream group start turns st) :
    startWith stream group start st = start := by
  cases start with
  | none => simp [startWith, h.absent rfl]
  | some p => rfl

theorem Accounts.more (h : Accounts stream group start turns st) (more : List Turn) :
    Accounts stream group start (turns ++ more) st := by
  refine ⟨h.absent, fun p hp => ?_⟩
  obtain ⟨g, hg, ha⟩ := h.present p hp
  exact ⟨g, hg, fun id fields hlt hf => (ha id fields hlt hf).more more⟩

/-- A call that acknowledges nothing in the group keeps the accounts. -/
theorem Accounts.called (h : Accounts stream group start turns st) (hgood : st.Good)
    {c : StreamCall} (hc : ∀ ids, c ≠ .ack stream group ids) (now : Nat) :
    Accounts stream group (startWith stream group start (Nested.streamCall c now st).2) turns
      (Nested.streamCall c now st).2 := by
  cases start with
  | none => exact accounts_begin _ _
  | some p =>
    refine ⟨fun h => (nomatch h), fun p' hp => ?_⟩
    cases hp
    obtain ⟨g, hg, ha⟩ := h.present p rfl
    obtain ⟨g', hg', hgrown⟩ := Nested.grown_streamCall hc hg now
    refine ⟨g', hg', fun id fields hlt hf => ?_⟩
    have hle := (hgood stream group g hg).cursor_le
    by_cases hid : id ≤ g.cursor
    · rw [Nested.log_streamCall, List.getElem?_append_left (by omega)] at hf
      rcases ha id fields hlt hf with hn | hpending | hs
      · omega
      · exact Or.inr (Or.inl (hgrown.kept id hpending))
      · exact Or.inr (Or.inr hs)
    · by_cases hid' : id ≤ g'.cursor
      · exact Or.inr (Or.inl (hgrown.delivered id (by omega) hid'))
      · exact Or.inl (by omega)

/-- So does one that may meet a fault. -/
theorem Accounts.attempted (h : Accounts stream group start turns st) (hgood : st.Good)
    {fault : Option Fault} {c : StreamCall} {now : Nat} {r : Except StoreError c.Answer}
    (hc : ∀ ids, c ≠ .ack stream group ids) (call : Nested.attempt fault c now st = (r, st')) :
    Accounts stream group (startWith stream group start st') turns st' := by
  rcases Nested.attempt_effect call with rfl | rfl
  · rw [h.startWith_eq]
    exact h
  · exact h.called hgood hc now

/-- An acknowledgement of an entry that was dispatched settles it. -/
theorem Accounts.acked {t : Turn} (h : Accounts stream group start turns t.before)
    {r : Except StoreError Nat} (hdeed : t.deed = .ack id r)
    (hf : (t.before.log stream)[id - 1]? = some fields) (hd : Dispatched turns t.who id fields)
    {now : Nat} (heffect : t.after = t.before ∨
      t.after = (Nested.streamCall (.ack stream group [id]) now t.before).2) :
    Accounts stream group (startWith stream group start t.after) (turns ++ [t]) t.after := by
  rcases heffect with hafter | hafter
  · rw [hafter, h.startWith_eq]
    exact h.more _
  · cases start with
    | none => exact accounts_begin _ _
    | some p =>
      refine ⟨fun h => (nomatch h), fun p' hp => ?_⟩
      cases hp
      obtain ⟨g, hg, ha⟩ := h.present p rfl
      obtain ⟨g', hg', hcursor, hids⟩ := Nested.groupOf_ack hg [id] now
      rw [← hafter] at hg'
      have hlog : t.after.log stream = t.before.log stream := by
        rw [hafter, Nested.log_streamCall]
        exact List.append_nil _
      refine ⟨g', hg', fun i fields' hlt hf' => ?_⟩
      rw [hlog] at hf'
      rcases ha i fields' hlt hf' with hn | hpending | hs
      · exact Or.inl (by omega)
      · by_cases hi : i = id
        · subst hi
          obtain rfl : fields' = fields := Option.some.inj (hf'.symm.trans hf)
          refine Or.inr (Or.inr ⟨turns, t, [], rfl, ⟨⟨r, hdeed⟩, ?_, ?_⟩, hd⟩)
          · rw [Nested.ids_some hg]
            exact hpending
          · rw [Nested.ids_some hg', hids]
            simp
        · refine Or.inr (Or.inl ?_)
          rw [hids]
          simpa [hi] using hpending
      · exact Or.inr (Or.inr (hs.more _))

/-- A move keeps the accounts. -/
theorem Move.accounts {o : Options} {s s' : State} {d : Deed}
    (m : Move stream o (fun _ => True) st s d st' s') (ho : o.group = group) (hgood : st.Good)
    (hready : Ready stream st turns who s.phase) (h : Accounts stream group start turns st) :
    Accounts stream group (startWith stream group start st') (turns ++ [⟨who, s, d, st, st'⟩])
      st' := by
  subst ho
  cases m with
  | create fault now k asked call => exact (h.attempted hgood (by simp) call).more _
  | claim fault now k asked call => exact (h.attempted hgood (by simp) call).more _
  | read fault now k asked lost call => exact (h.attempted hgood (by simp) call).more _
  | @ack fault now k id asked r st' call =>
    obtain ⟨b, hp, rfl⟩ := madeIn_of_request asked
    rw [hp] at hready
    exact Accounts.acked (t := ⟨who, s, .ack b.entry.id r, st, st'⟩) h rfl
      (hready.2 b.entry List.mem_cons_self) hready.1 (Nested.attempt_effect call)
  | readNothing k asked => exact h.startWith_eq.symm ▸ h.more _
  | handle k asked r => exact h.startWith_eq.symm ▸ h.more _
  | wait k asked => exact h.startWith_eq.symm ▸ h.more _
  | interrupt k asked => exact h.startWith_eq.symm ▸ h.more _

end Accounts

/-! ## Whole runs -/

/-- What holds at every moment of a run. -/
structure Upheld (stream group : String) (start : Option Nat) (turns : List Turn) (st : Store)
    (states : Nat → State) : Prop where
  good : st.Good
  ready : ∀ who, Ready stream st turns who (states who).phase
  backed : ∀ t ∈ turns, Backed stream st turns t
  accounts : Accounts stream group start turns st

theorem Fleet.upheld {opts : Nat → Options} {before st : Store} {start : Option Nat}
    {states : Nat → State} (hopts : ∀ who, (opts who).group = group) (hgood : before.Good)
    (h : Fleet stream group opts before start turns st states) :
    Upheld stream group start turns st states := by
  induction h with
  | begin => exact ⟨hgood, fun _ => trivial, by simp, accounts_begin before []⟩
  | @move start turns st st' states d s' _ who m ih =>
    have hlog : st'.log stream = st.log stream ++ [] := by rw [m.log_eq, List.append_nil]
    refine ⟨m.good ih.good, fun other => ?_, fun t ht => ?_,
      m.accounts (hopts who) ih.good (ih.ready who) ih.accounts⟩
    · by_cases hother : other = who
      · subst hother
        rw [Function.update_self]
        exact m.ready ih.good (ih.ready other)
      · rw [Function.update_of_ne hother]
        exact (ih.ready other).mono hlog _
    · rcases List.mem_append.1 ht with ht | ht
      · exact (ih.backed t ht).mono hlog _
      · rw [List.mem_singleton.1 ht]
        exact (m.backed (ih.ready who)).mono hlog _
  | @late start turns st states _ t ht id e failed now ih =>
    have hlog := Nested.log_streamCall (.ack stream group [id]) now st stream
    obtain ⟨fields, hf, hd⟩ := ih.backed t ht id _ failed
    refine ⟨ih.good.streamCall _ now, fun who => (ih.ready who).mono hlog _, fun t' ht' => ?_,
      Accounts.acked (t := ⟨t.who, t.state, t.deed, st, _⟩) ih.accounts failed hf hd (Or.inr rfl)⟩
    rcases List.mem_append.1 ht' with ht' | ht'
    · exact (ih.backed t' ht').mono hlog _
    · rw [List.mem_singleton.1 ht']
      exact (ih.backed t ht).mono hlog _
  | @others start turns st states _ c now foreign ih =>
    have hlog := Nested.log_streamCall c now st stream
    refine ⟨ih.good.streamCall c now, fun who => ?_, fun t ht => ?_,
      ih.accounts.called ih.good foreign now⟩
    · exact List.append_nil turns ▸ (ih.ready who).mono hlog []
    · exact List.append_nil turns ▸ (ih.backed t ht).mono hlog []
  | keys _ keys ih =>
    exact ⟨ih.good, ih.ready, ih.backed, ih.accounts.absent, ih.accounts.present⟩
  | @crash start turns st states _ who ih =>
    refine ⟨ih.good, fun other => ?_, ih.backed, ih.accounts⟩
    by_cases hother : other = who
    · subst hother
      rw [Function.update_self]
      trivial
    · rw [Function.update_of_ne hother]
      exact ih.ready other

/-! ## The main law -/

/-- From any well-formed store on: once the group is there, each entry of the
stream beyond its start is still to come, or pending under just one consumer,
or was taken off the pending list by the acknowledgement of a subscription
that had dispatched it before. -/
theorem every_entry_is_dispatched_before_it_is_settled {stream group : String}
    {opts : Nat → Options} {before st : Store} {start : Option Nat} {turns : List Turn}
    {states : Nat → State} (hopts : ∀ who, (opts who).group = group) (hgood : before.Good)
    (h : Fleet stream group opts before start turns st states) :
    (start = none → st.groupOf stream group = none) ∧
    ∀ p, start = some p → ∃ g, st.groupOf stream group = some g ∧
      ∀ id fields, p < id → (st.log stream)[id - 1]? = some fields →
        g.cursor < id ∨ (∃! d, d ∈ g.pending ∧ d.id = id) ∨
          Settled stream group turns id fields := by
  have hup := h.upheld hopts hgood
  refine ⟨hup.accounts.absent, fun p hp => ?_⟩
  obtain ⟨g, hg, ha⟩ := hup.accounts.present p hp
  refine ⟨g, hg, fun id fields hlt hf => ?_⟩
  rcases ha id fields hlt hf with hn | hpending | hs
  · exact Or.inl hn
  · exact Or.inr (Or.inl ((hup.good stream group g hg).existsUnique hpending))
  · exact Or.inr (Or.inr hs)

/-- One subscription crashes with an entry in hand. Another one claims the
entry, handles it, and acknowledges it without getting to know: the entry is
settled. -/
theorem a_crashed_reader_leaves_its_entry_to_another :
    let opts : Nat → Options := fun who =>
      { Options.of "g" (if who = 0 then "c" else "d") with claimIdle := some (Span.ofNanos 5) }
    (∀ who, (opts who).group = "g") ∧ Nested.empty.Good ∧ ∃ turns st states,
      Fleet "s" "g" opts Nested.empty (some 0) turns st states ∧
        st.ids "s" "g" = [] ∧ Settled "s" "g" turns 1 (Event.removed .thing "t1").encode := by
  intro opts
  let k₀ : Outlook := ⟨0, false, false⟩
  let k₁ : Outlook := ⟨5, false, false⟩
  let fields := (Event.removed .thing "t1").encode
  let store (g : Group) : Store := ⟨∅, Table.ofList [("s", ⟨[fields], Table.ofList [("g", g)]⟩)]⟩
  have hopts : ∀ who, (opts who).group = "g" := fun _ => rfl
  have h₀ : Fleet "s" "g" opts Nested.empty none [] Nested.empty (fun _ => State.start) := .begin
  have h₁ := h₀.others (.append "s" fields) 0 (by simp)
  have h₂ : Fleet "s" "g" opts Nested.empty (some 0) _ (store ⟨0, []⟩) _ :=
    h₁.move 0 (.create none 0 k₀ rfl rfl)
  have h₃ : Fleet "s" "g" opts Nested.empty (some 0) _ (store ⟨0, []⟩) _ :=
    h₂.move 0 (.read none 0 k₀ rfl (by simp) rfl)
  have h₄ : Fleet "s" "g" opts Nested.empty (some 0) _ (store ⟨1, [⟨1, "c", 0, 1⟩]⟩) _ :=
    h₃.move 0 (.read none 0 k₀ rfl (by simp) rfl)
  have h₅ := h₄.crash 0
  have h₆ : Fleet "s" "g" opts Nested.empty (some 0) _ (store ⟨1, [⟨1, "c", 0, 1⟩]⟩) _ :=
    h₅.move 1 (.create none 0 k₀ rfl rfl)
  have h₇ : Fleet "s" "g" opts Nested.empty (some 0) _ (store ⟨1, [⟨1, "c", 0, 1⟩]⟩) _ :=
    h₆.move 1 (.read none 0 k₁ rfl (by simp) rfl)
  have h₈ : Fleet "s" "g" opts Nested.empty (some 0) _ (store ⟨1, [⟨1, "d", 5, 2⟩]⟩) _ :=
    h₇.move 1 (.claim none 5 k₁ rfl rfl)
  have h₉ := h₈.move 1 (.handle k₁ rfl (.ok ()))
  have h : Fleet "s" "g" opts Nested.empty (some 0) _ (store ⟨1, []⟩) _ :=
    h₉.move 1 (.ack (some (.unreported (.unavailable "timed out"))) 5 k₁ rfl rfl)
  refine ⟨hopts, Nested.good_empty, _, _, _, h, rfl, ?_⟩
  obtain ⟨g, hg, ha⟩ :=
    (every_entry_is_dispatched_before_it_is_settled hopts Nested.good_empty h).2 0 rfl
  obtain rfl : ⟨1, []⟩ = g := Option.some.inj hg
  rcases ha 1 fields (by decide) rfl with hn | ⟨d, ⟨hd, _⟩, _⟩ | hs
  · exact absurd hn (by decide)
  · cases hd
  · exact hs

end LifecycleLog.Subscription
