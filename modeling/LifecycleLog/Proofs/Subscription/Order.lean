-- The order in which a subscription handles its entries. Others may append,
-- read, acknowledge and claim as they like, and calls and handlers may fail.
-- The entries at hand always cover what the consumer holds up to the place
-- of the pending pass, so none is handled while an earlier one is held, and
-- nothing new is read before a whole pass has found nothing.
import LifecycleLog.Proofs.Subscription.Moves

namespace LifecycleLog.Subscription

open Nested (Store)

/-! ## Courses -/

/-- The course of one subscription on a store, by what it did. Between its moves
come calls of others, which give its consumer nothing, and changes of keys. -/
inductive Course (stream : String) (o : Options) (before : Store) : List Deed → Store → State → Prop
  | start : Course stream o before [] before State.start
  | move {deeds : List Deed} {st st' : Store} {s s' : State} {d : Deed}
      (course : Course stream o before deeds st s)
      (move : Move stream o Fault.Passing st s d st' s') :
      Course stream o before (deeds ++ [d]) st' s'
  | others {deeds : List Deed} {st : Store} {s : State} (course : Course stream o before deeds st s)
      (c : StreamCall) (now : Nat) (foreign : ¬ c.GivesTo stream o.group o.consumer) :
      Course stream o before deeds (Nested.streamCall c now st).2 s
  | keys {deeds : List Deed} {st : Store} {s : State} (course : Course stream o before deeds st s)
      (keys : Keys) : Course stream o before deeds { st with keys } s

/-- Follows the pass over pending entries. A failure sends it back to the
start, and a read that continues it takes it to the last entry returned. It is
over, `none`, when such a read returns nothing. -/
def Deed.pass (position : Option Nat) : Deed → Option Nat
  | .handle _ (.error _) => some 0
  | .ack _ (.error _) => some 0
  | .read (.pending after) (.ok entries) =>
    if position = some after then entries.getLast?.map (·.id) else position
  | _ => position

/-- Where the pass stands after what was done. The first one is due at once. -/
def passAfter (deeds : List Deed) : Option Nat := deeds.foldl Deed.pass (some 0)

theorem passAfter_snoc (deeds : List Deed) (d : Deed) :
    passAfter (deeds ++ [d]) = d.pass (passAfter deeds) := by
  simp [passAfter]

/-! ## Entries at hand -/

theorem le_getLast_of_rising {ids : List Nat} {last : Nat} (hs : ids.Pairwise (· < ·))
    (hl : ids.getLast? = some last) : ∀ id ∈ ids, id ≤ last := by
  obtain ⟨before, rfl⟩ := List.getLast?_eq_some_iff.1 hl
  intro id hid
  rcases List.mem_append.1 hid with hid | hid
  · exact Nat.le_of_lt ((List.pairwise_append.1 hs).2.2 id hid last (by simp))
  · exact Nat.le_of_eq (List.mem_singleton.1 hid)

theorem getLast?_ids (e : Entry) (rest : List Entry) :
    ((e :: rest).map (·.id)).getLast? = some (rest.getLastD e).id := by
  rw [List.getLast?_map, List.getLast?_cons, List.getLastD_eq_getLast?]
  rfl

/-- The entries at hand rise, do not go past the place of the pass, and are
all that the consumer holds up to there. -/
structure Covers (held : List Nat) (pass : Option Nat) (ids : List Nat) : Prop where
  sorted : ids.Pairwise (· < ·)
  upto : ∀ id ∈ ids, ∀ after, pass = some after → id ≤ after
  all : ∀ id ∈ held, id ∈ ids ∨ ∃ after, pass = some after ∧ after < id

namespace Covers

variable {held held' ids : List Nat} {pass : Option Nat} {id after : Nat}

theorem mono (h : Covers held pass ids) (hs : held'.Sublist held) : Covers held' pass ids :=
  ⟨h.sorted, h.upto, fun id hid => h.all id (hs.subset hid)⟩

theorem zero (hp : ∀ id ∈ held, 0 < id) : Covers held (some 0) [] :=
  ⟨.nil, by simp, fun id hid => Or.inr ⟨0, rfl, hp id hid⟩⟩

/-- The first entry at hand is the first one held. -/
theorem head_le (h : Covers held pass (id :: ids)) : ∀ i ∈ held, id ≤ i := by
  intro i hi
  have hs := List.pairwise_cons.1 h.sorted
  rcases h.all i hi with hm | ⟨after, hp, hlt⟩
  · rcases List.mem_cons.1 hm with rfl | hm
    · exact Nat.le_refl _
    · exact Nat.le_of_lt (hs.1 i hm)
  · have := h.upto id List.mem_cons_self after hp
    omega

theorem tail (h : Covers held pass (id :: ids)) :
    Covers (held.filter (fun i => i ∉ [id])) pass ids := by
  refine ⟨(List.pairwise_cons.1 h.sorted).2, fun i hi => h.upto i (List.mem_cons_of_mem _ hi), ?_⟩
  intro i hi
  obtain ⟨hi, hne⟩ := List.mem_filter.1 hi
  rcases h.all i hi with hm | hb
  · rcases List.mem_cons.1 hm with rfl | hm
    · simp at hne
    · exact Or.inl hm
  · exact Or.inr hb

theorem eq_nil (h : Covers held none []) : held = [] := by
  apply List.eq_nil_iff_forall_not_mem.2
  intro i hi
  rcases h.all i hi with hm | ⟨after, hp, _⟩
  · cases hm
  · cases hp

theorem fresh (hs : ids.Pairwise (· < ·)) (h : ∀ id ∈ held, id ∈ ids) : Covers held none ids :=
  ⟨hs, fun _ _ _ hp => (nomatch hp), fun id hid => Or.inl (h id hid)⟩

/-- With nothing at hand, all that is held lies beyond the place of the pass. -/
theorem filter_eq_self (h : Covers held (some after) []) :
    held.filter (fun id => after < id) = held := by
  apply List.filter_eq_self.2
  intro i hi
  rcases h.all i hi with hm | ⟨b, hb, hlt⟩
  · cases hm
  · cases hb
    simpa using hlt

/-- The next entries of the pass are at hand once it stands at their last. -/
theorem take (hs : held.Pairwise (· < ·)) {count last : Nat} (hi : ids = held.take count)
    (hl : ids.getLast? = some last) : Covers held (some last) ids := by
  have hsplit : held = ids ++ held.drop count := by
    rw [hi, List.take_append_drop]
  rw [hsplit, List.pairwise_append] at hs
  obtain ⟨hs₁, _, hs₂⟩ := hs
  refine ⟨hs₁, ?_, ?_⟩
  · intro i hm after ha
    cases ha
    exact le_getLast_of_rising hs₁ hl i hm
  · intro i hm
    rw [hsplit] at hm
    rcases List.mem_append.1 hm with hm | hm
    · exact Or.inl hm
    · exact Or.inr ⟨last, rfl, hs₂ last (List.mem_of_getLast? hl) i hm⟩

end Covers

/-! ## What the loop knows -/

/-- The loop at a phase, with its own account of the pass: before a pass it
knows nothing, in a pass it knows that the entries at hand are covered. -/
def Sound (held : List Nat) (pass position : Option Nat) : Phase → Prop
  | .joining _ => pass = some 0
  | .joinWait _ => pass = some 0
  | .retryWait => pass = some 0
  | .claiming => False
  | .reading => position = pass ∧ Covers held pass []
  | .readWait => position = pass ∧ Covers held pass []
  | .handling event b => Event.decode b.entry.fields = .ok (some event) ∧ b.claimed = false ∧
      position = pass ∧ Covers held pass b.ids
  | .acking b => b.claimed = false ∧ position = pass ∧ Covers held pass b.ids
  | .finished _ => True

def State.Sound (held : List Nat) (pass : Option Nat) (s : State) : Prop :=
  Subscription.Sound held pass s.pendingFrom s.phase

section Sound

variable {held held' : List Nat} {pass position : Option Nat} {s : State} {phase : Phase}

theorem State.Ended.sound (h : s.Ended) : s.Sound held pass := by
  obtain ⟨result, hp⟩ := h
  rw [State.Sound, hp]
  trivial

theorem State.At.sound (h : s.At phase position)
    (hs : Subscription.Sound held pass position phase) : s.Sound held pass := by
  rw [State.Sound, h.1, h.2]
  exact hs

theorem sound_of (h : s.Ended ∨ s.At phase position)
    (hs : Subscription.Sound held pass position phase) : s.Sound held pass := by
  rcases h with he | ha
  · exact he.sound
  · exact ha.sound hs

theorem State.Sound.mono (h : s.Sound held pass) (hs : held'.Sublist held) :
    s.Sound held' pass := by
  unfold State.Sound Subscription.Sound at *
  split at h
  · exact h
  · exact h
  · exact h
  · exact h
  · exact ⟨h.1, h.2.mono hs⟩
  · exact ⟨h.1, h.2.mono hs⟩
  · exact ⟨h.1, h.2.1, h.2.2.1, h.2.2.2.mono hs⟩
  · exact ⟨h.1, h.2.1, h.2.2.mono hs⟩
  · trivial

theorem Batch.sound {b : Batch} (hc : b.claimed = false) (hp : position = pass)
    (h : Covers held pass b.ids) : Subscription.Sound held pass position b.phase := by
  unfold Batch.phase
  split
  · rename_i event he
    exact ⟨he, hc, hp, h⟩
  · exact ⟨hc, hp, h⟩

theorem Batch.covers {b : Batch} (h : Subscription.Sound held pass position b.phase) :
    Covers held pass b.ids := by
  unfold Batch.phase at h
  split at h
  · exact h.2.2.2
  · exact h.2.2

end Sound

/-! ## What a move keeps -/

section Moves

variable {stream : String} {o : Options} {st st' : Store} {s : State} {pass : Option Nat}
  {k : Outlook}

theorem sound_created (ho : o.claimIdle = none) {attempt : Nat} (hp : s.phase = .joining attempt)
    {held : List Nat} (hpos : ∀ id ∈ held, 0 < id) (h : s.Sound held pass)
    (r : Except StoreError Bool) : (s.step stream o (.created r) k).Sound held pass := by
  rw [State.Sound, hp] at h
  rcases step_created ho hp r with he | hj | ⟨_, ha⟩
  · exact he.sound
  · rw [State.Sound, hj]
    exact h
  · exact ha.sound ⟨Eq.symm h, Eq.symm h ▸ .zero hpos⟩

/-- Entries that were read as new are all at hand. -/
theorem sound_readNew (ho : o.claimIdle = none) (hp : s.phase = .reading)
    (hn : s.pendingFrom = none) {held held' : List Nat} (h : s.Sound held pass)
    {entries : List Entry} (hsorted : (entries.map (·.id)).Pairwise (· < ·))
    (hheld : ∀ id ∈ held', id ∈ held ∨ id ∈ entries.map (·.id)) :
    (s.step stream o (.entries (.ok entries)) k).Sound held' pass := by
  rw [State.Sound, hp, hn] at h
  obtain ⟨rfl, hc⟩ := h
  have hcovers : Covers held' none (entries.map (·.id)) := by
    refine .fresh hsorted (fun id hid => ?_)
    rcases hheld id hid with hid | hid
    · rw [hc.eq_nil] at hid
      cases hid
    · exact hid
  cases entries with
  | nil => exact sound_of (step_readNone ho hp) ⟨rfl, hcovers⟩
  | cons e rest =>
    have ha : (s.step stream o (.entries (.ok (e :: rest))) k).At _ _ := step_readSome hp e rest
    rw [hn] at ha
    exact ha.sound (Batch.sound rfl rfl hcovers)

/-- A read that continues the pass takes it to its last entry. -/
theorem sound_readPending (ho : o.claimIdle = none) (hb : 1 ≤ o.batchSize)
    (hp : s.phase = .reading) {after : Nat} (hn : s.pendingFrom = some after) {held : List Nat}
    (hsorted : held.Pairwise (· < ·)) (h : s.Sound held pass) {entries : List Entry}
    (hids : entries.map (·.id) = (held.filter (fun id => after < id)).take o.batchSize) :
    (s.step stream o (.entries (.ok entries)) k).Sound held
      (Deed.pass pass (.read (.pending after) (.ok entries))) := by
  rw [State.Sound, hp, hn] at h
  obtain ⟨rfl, hc⟩ := h
  rw [hc.filter_eq_self] at hids
  cases entries with
  | nil =>
    have hnil : held = [] := by
      cases held with
      | nil => rfl
      | cons id rest =>
        rw [show o.batchSize = (o.batchSize - 1) + 1 by omega] at hids
        simp at hids
    have hpass : Deed.pass (some after) (.read (.pending after) (.ok [])) = none := by
      simp [Deed.pass]
    rw [hnil, hpass]
    exact sound_of (step_readNone ho hp) ⟨rfl, .fresh .nil (by simp)⟩
  | cons e rest =>
    have hpass : Deed.pass (some after) (.read (.pending after) (.ok (e :: rest)))
        = some (rest.getLastD e).id := by
      simp only [Deed.pass, if_pos]
      exact List.getLast?_map.symm.trans (getLast?_ids e rest)
    have ha : (s.step stream o (.entries (.ok (e :: rest))) k).At _ _ := step_readSome hp e rest
    rw [hn] at ha
    rw [hpass]
    exact ha.sound (Batch.sound rfl rfl (Covers.take hsorted hids (getLast?_ids e rest)))

theorem sound_readFailed (hp : s.phase = .reading) {held : List Nat} (h : s.Sound held pass)
    (mode : ReadMode) (e : StoreError) : (s.step stream o (.entries (.error e)) k).Sound held
      (Deed.pass pass (.read mode (.error e))) := by
  have hpass : Deed.pass pass (.read mode (.error e)) = pass := by cases mode <;> rfl
  rw [State.Sound, hp] at h
  rw [hpass]
  exact sound_of (step_readFailed hp e) h

theorem sound_handled {event : Event} {b : Batch} (hp : s.phase = .handling event b)
    {held : List Nat} (h : s.Sound held pass) (r : Except EventError Unit) :
    (s.step stream o (.handled r) k).Sound held (Deed.pass pass (.handle event r)) := by
  rw [State.Sound, hp] at h
  cases r with
  | ok _ => exact (step_handled hp).sound h.2
  | error e => exact sound_of (step_handlerFailed hp e) rfl

theorem sound_acked (ho : o.claimIdle = none) {b : Batch} (hp : s.phase = .acking b)
    {held : List Nat} (h : s.Sound held pass) (n : Nat) :
    (s.step stream o (.acked (.ok n)) k).Sound (held.filter (fun id => id ∉ [b.entry.id]))
      pass := by
  rw [State.Sound, hp] at h
  obtain ⟨hclaimed, hpos, hc⟩ := h
  obtain ⟨e, rest, claimed⟩ := b
  cases hclaimed
  cases rest with
  | nil => exact sound_of (step_ackedLast ho hp n) ⟨hpos, hc.tail⟩
  | cons next rest => exact (step_acked hp n).sound (Batch.sound rfl hpos hc.tail)

theorem sound_waited (ho : o.claimIdle = none) {held : List Nat} (hpos : ∀ id ∈ held, 0 < id)
    (hp : (∃ attempt, s.phase = .joinWait attempt) ∨ s.phase = .readWait ∨ s.phase = .retryWait)
    (h : s.Sound held pass) : (s.step stream o .elapsed k).Sound held pass := by
  rcases hp with ⟨attempt, hp⟩ | hp | hp <;> rw [State.Sound, hp] at h
  · rw [State.Sound, step_rejoins hp]
    exact h
  · exact sound_of (step_rereads ho hp) h
  · exact sound_of (step_retries ho hp) ⟨Eq.symm h, Eq.symm h ▸ .zero hpos⟩

/-- A move keeps what the loop knows; the pass goes on by what was done. -/
theorem Move.sound (ho : o.claimIdle = none) (hb : 1 ≤ o.batchSize) {d : Deed} {s' : State}
    (m : Move stream o Fault.Passing st s d st' s') (hg : st.Good)
    (h : s.Sound (st.held stream o.group o.consumer) pass) :
    st'.Good ∧ s'.Sound (st'.held stream o.group o.consumer) (d.pass pass) := by
  have hpos : ∀ id ∈ st.held stream o.group o.consumer, 0 < id := fun id hid => hg.held_positive hid
  cases m with
  | create fault now k asked call =>
    have hheld : (st'.held stream o.group o.consumer).Sublist (st.held stream o.group o.consumer) :=
      Nested.held_attempt id call
    obtain ⟨attempt, hp⟩ := madeIn_of_request asked
    exact ⟨Nested.good_attempt hg call, (sound_created ho hp hpos h _).mono hheld⟩
  | claim fault now k asked call => exact absurd asked (request_ne_claim ho _)
  | @read fault now k mode block asked lost r st' call =>
    refine ⟨Nested.good_attempt hg call, ?_⟩
    obtain ⟨hp, hn⟩ := madeIn_of_request asked
    cases r with
    | error e =>
      rw [Nested.attempt_readGroup_error lost call]
      exact sound_readFailed hp h mode e
    | ok entries =>
      have hcall := Nested.attempt_ok call
      cases mode with
      | new =>
        have hsorted := (Nested.good_attempt hg call).held_sorted stream o.group o.consumer
        rw [Nested.held_of_readNew hcall] at hsorted ⊢
        exact sound_readNew ho hp hn h (List.pairwise_append.1 hsorted).2.1
          (fun id hid => List.mem_append.1 hid)
      | pending after =>
        obtain ⟨hheld, hids⟩ := Nested.held_of_readPending hg hcall
        rw [hheld]
        exact sound_readPending ho hb hp hn (hg.held_sorted stream o.group o.consumer) h hids
  | readNothing k asked =>
    obtain ⟨hp, hn⟩ := madeIn_of_request asked
    exact ⟨hg, sound_readNew ho hp hn h .nil (fun id hid => Or.inl hid)⟩
  | handle k asked r =>
    obtain ⟨b, hp⟩ := madeIn_of_request asked
    exact ⟨hg, sound_handled hp h r⟩
  | @ack fault now k id asked r st' call =>
    refine ⟨Nested.good_attempt hg call, ?_⟩
    obtain ⟨b, hp, rfl⟩ := madeIn_of_request asked
    cases r with
    | ok n =>
      rw [Nested.held_of_ack (Nested.attempt_ok call)]
      exact sound_acked ho hp h n
    | error e => exact sound_of (step_ackFailed hp e) rfl
  | wait k asked => exact ⟨hg, sound_waited ho hpos (madeIn_of_request asked) h⟩
  | interrupt k asked => exact ⟨hg, (ended_of_signal asked).sound⟩

/-- Over a whole course the store stays well formed and the loop knows what it
should. -/
theorem Course.sound (ho : o.claimIdle = none) (hb : 1 ≤ o.batchSize) (hg : st.Good)
    {deeds : List Deed} (h : Course stream o st deeds st' s) :
    st'.Good ∧ s.Sound (st'.held stream o.group o.consumer) (passAfter deeds) := by
  induction h with
  | start => exact ⟨hg, rfl⟩
  | move _ m ih =>
    rw [passAfter_snoc]
    exact m.sound ho hb ih.1 ih.2
  | others _ c now foreign ih =>
    exact ⟨ih.1.streamCall c now, ih.2.mono (Nested.held_streamCall foreign now _)⟩
  | keys _ keys ih => exact ih

end Moves

/-! ## The main law -/

/-- From any well-formed store on, whoever holds what in it: while an entry is
handled its consumer holds no earlier one; and new entries are read only when
it holds none, after a pass from the start that went on until it found
nothing. -/
theorem no_entry_overtakes_an_earlier_one {stream : String} {o : Options} {before st : Store}
    {deeds : List Deed} {s : State} (ho : o.claimIdle = none) (hb : 1 ≤ o.batchSize)
    (hg : before.Good) (h : Course stream o before deeds st s) :
    (∀ event b, s.phase = .handling event b →
      Event.decode b.entry.fields = .ok (some event) ∧
      ∀ id ∈ st.held stream o.group o.consumer, b.entry.id ≤ id) ∧
    (∀ block, s.request o = some (.read .new block) →
      passAfter deeds = none ∧ st.held stream o.group o.consumer = []) := by
  obtain ⟨_, hs⟩ := h.sound ho hb hg
  constructor
  · intro event b hp
    rw [State.Sound, hp] at hs
    obtain ⟨hd, _, _, hc⟩ := hs
    exact ⟨hd, hc.head_le⟩
  · intro block hq
    obtain ⟨hp, hn⟩ := madeIn_of_request hq
    rw [State.Sound, hp, hn] at hs
    obtain ⟨hpass, hc⟩ := hs
    rw [← hpass] at hc
    exact ⟨hpass.symm, hc.eq_nil⟩

/-- A subscription that claims nothing, all else as usual. -/
def unclaiming (group consumer : String) : Options :=
  { Options.of group consumer with claimIdle := none }

/-- Two entries are read and the first one fails: it is the first to be handled
again. -/
theorem the_failed_entry_comes_first :
    (unclaiming "g" "c").claimIdle = none ∧ 1 ≤ (unclaiming "g" "c").batchSize ∧
      Nested.empty.Good ∧ ∃ st s b,
        Course "s" (unclaiming "g" "c") Nested.empty
          [.create (.ok true), .read (.pending 0) (.ok []),
            .read .new (.ok [⟨1, (Event.removed .thing "t1").encode, 1⟩,
              ⟨2, (Event.removed .thing "t2").encode, 1⟩]),
            .handle (.removed .thing "t1") (.error (.handler "down")), .wait,
            .read (.pending 0) (.ok [⟨1, (Event.removed .thing "t1").encode, 2⟩,
              ⟨2, (Event.removed .thing "t2").encode, 2⟩])] st s ∧
        s.phase = .handling (.removed .thing "t1") b ∧ st.held "s" "g" "c" = [1, 2] ∧
        ∀ id ∈ st.held "s" "g" "c", b.entry.id ≤ id := by
  let k : Outlook := ⟨0, false, false⟩
  have h₀ : Course "s" (unclaiming "g" "c") Nested.empty [] Nested.empty State.start := .start
  have h₁ := h₀.others (.append "s" (Event.removed .thing "t1").encode) 0 id
  have h₂ := h₁.others (.append "s" (Event.removed .thing "t2").encode) 0 id
  have h₃ := h₂.move (.create none 0 k rfl rfl)
  have h₄ := h₃.move (.read none 0 k rfl (by simp) rfl)
  have h₅ := h₄.move (.read none 0 k rfl (by simp) rfl)
  have h₆ := h₅.move (.handle k rfl (.error (.handler "down")))
  have h₇ := h₆.move (.wait k rfl)
  have h₈ := h₇.move (.read none 0 k rfl (by simp) rfl)
  refine ⟨rfl, by decide, Nested.good_empty, _, _, _, h₈, rfl, rfl, ?_⟩
  exact ((no_entry_overtakes_an_earlier_one rfl (by decide) Nested.good_empty h₈).1 _ _ rfl).2

end LifecycleLog.Subscription
