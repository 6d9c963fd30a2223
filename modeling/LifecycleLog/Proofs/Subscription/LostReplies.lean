-- What a lost reply does to the order of entries. A read for new entries that
-- takes effect and is reported as failed leaves its entries with the consumer,
-- and the loop goes on to read newer ones: the missed entries are overtaken.
-- They are the only ones that are, and only until a handler or an
-- acknowledgement fails, which sends the loop through all it holds.
import LifecycleLog.Proofs.Subscription.Order

namespace LifecycleLog.Subscription

open Nested (Store)

/-! ## Missed entries -/

/-- Follows the entries that the consumer got by lost replies: what it holds
after a failed read for new entries and did not hold before. A failure makes
the loop go through all it holds, so nothing is missed any more. -/
def Deed.missed (held held' missed : List Nat) : Deed → List Nat
  | .handle _ (.error _) => []
  | .ack _ (.error _) => []
  | .read .new (.error _) => missed ++ held'.filter (fun id => id ∉ held)
  | _ => missed

/-- The course of one subscription whose reads may meet any fault, so that
replies may be lost; with what it did and the entries it missed. -/
inductive LossyCourse (stream : String) (o : Options) (before : Store) :
    List Deed → List Nat → Store → State → Prop
  | start : LossyCourse stream o before [] [] before State.start
  | move {deeds : List Deed} {missed : List Nat} {st st' : Store} {s s' : State} {d : Deed}
      (course : LossyCourse stream o before deeds missed st s)
      (move : Move stream o (fun _ => True) st s d st' s') :
      LossyCourse stream o before (deeds ++ [d])
        (d.missed (st.held stream o.group o.consumer) (st'.held stream o.group o.consumer) missed)
        st' s'
  | others {deeds : List Deed} {missed : List Nat} {st : Store} {s : State}
      (course : LossyCourse stream o before deeds missed st s) (c : StreamCall) (now : Nat)
      (foreign : ¬ c.GivesTo stream o.group o.consumer) :
      LossyCourse stream o before deeds missed (Nested.streamCall c now st).2 s
  | keys {deeds : List Deed} {missed : List Nat} {st : Store} {s : State}
      (course : LossyCourse stream o before deeds missed st s) (keys : Keys) :
      LossyCourse stream o before deeds missed { st with keys } s

/-- The entries held that no lost reply brought. -/
def known (missed held : List Nat) : List Nat := held.filter (fun id => id ∉ missed)

theorem mem_known {missed held : List Nat} {id : Nat} :
    id ∈ known missed held ↔ id ∈ held ∧ id ∉ missed := by
  simp [known]

theorem known_nil (held : List Nat) : known [] held = held := by
  simp [known]

theorem known_sublist {missed held held' : List Nat} (h : held'.Sublist held) :
    (known missed held').Sublist (known missed held) :=
  h.filter _

/-! ## What a move keeps -/

/-- Of the known entries the loop knows what it should; in a pass over pending
entries nothing is missed. -/
structure Aware (held missed : List Nat) (pass : Option Nat) (s : State) : Prop where
  sound : s.Sound (known missed held) pass
  quiet : ∀ after, pass = some after → missed = []

namespace Aware

variable {stream : String} {o : Options} {s : State} {k : Outlook} {held held' missed : List Nat}
  {pass : Option Nat}

theorem mono (h : Aware held missed pass s) (hs : held'.Sublist held) :
    Aware held' missed pass s :=
  ⟨h.sound.mono (known_sublist hs), h.quiet⟩

/-- While a pass is under way, all that is held is known. -/
theorem sound_of_pass (h : Aware held missed pass s) {after : Nat} (hp : pass = some after) :
    missed = [] ∧ s.Sound held pass := by
  obtain rfl := h.quiet after hp
  exact ⟨rfl, known_nil held ▸ h.sound⟩

/-- New entries are read only when all that is held is missed. -/
theorem known_eq_nil (h : Aware held missed pass s) (hp : s.phase = .reading)
    (hn : s.pendingFrom = none) : pass = none ∧ known missed held = [] := by
  have hs := h.sound
  rw [State.Sound, hp, hn] at hs
  obtain ⟨rfl, hc⟩ := hs
  exact ⟨rfl, hc.eq_nil⟩

/-- A failed read for new entries: what it brought is missed. -/
theorem readNewFailed (h : Aware held missed pass s) (hp : s.phase = .reading)
    (hn : s.pendingFrom = none) (e : StoreError) :
    Aware held' (missed ++ held'.filter (fun id => id ∉ held)) pass
      (s.step stream o (.entries (.error e)) k) := by
  obtain ⟨rfl, hnil⟩ := h.known_eq_nil hp hn
  have hnil' : known (missed ++ held'.filter (fun id => id ∉ held)) held' = [] := by
    refine List.eq_nil_iff_forall_not_mem.2 (fun id hid => ?_)
    obtain ⟨hid, hm⟩ := mem_known.1 hid
    have hmem : id ∈ known missed held := by
      rw [mem_known]
      simp only [List.mem_append, List.mem_filter, not_or, not_and, decide_eq_true_eq] at hm
      exact ⟨by simpa using hm.2 hid, hm.1⟩
    rw [hnil] at hmem
    cases hmem
  refine ⟨?_, fun _ ha => nomatch ha⟩
  have hs := h.sound
  rw [hnil] at hs
  rw [hnil']
  exact sound_readFailed hp hs .new e

/-- New entries are at hand, whatever was missed before. -/
theorem readNew (ho : o.claimIdle = none) (h : Aware held missed pass s) (hp : s.phase = .reading)
    (hn : s.pendingFrom = none) {entries : List Entry}
    (hsorted : (held ++ entries.map (·.id)).Pairwise (· < ·)) :
    Aware (held ++ entries.map (·.id)) missed pass
      (s.step stream o (.entries (.ok entries)) k) := by
  refine ⟨sound_readNew ho hp hn h.sound (List.pairwise_append.1 hsorted).2.1 ?_, h.quiet⟩
  intro id hid
  obtain ⟨hid, hm⟩ := mem_known.1 hid
  rcases List.mem_append.1 hid with hid | hid
  · exact Or.inl (mem_known.2 ⟨hid, hm⟩)
  · exact Or.inr hid

/-- A pass over pending entries goes on as if nothing had been lost. -/
theorem readPending (ho : o.claimIdle = none) (hb : 1 ≤ o.batchSize)
    (h : Aware held missed pass s) (hp : s.phase = .reading) {after : Nat}
    (hn : s.pendingFrom = some after) (hsorted : held.Pairwise (· < ·)) {entries : List Entry}
    (hids : entries.map (·.id) = (held.filter (fun id => after < id)).take o.batchSize) :
    Aware held missed (Deed.pass pass (.read (.pending after) (.ok entries)))
      (s.step stream o (.entries (.ok entries)) k) := by
  have hpass : pass = some after := by
    have hs := h.sound
    rw [State.Sound, hp, hn] at hs
    exact hs.1.symm
  obtain ⟨rfl, hs⟩ := h.sound_of_pass hpass
  refine ⟨?_, fun _ _ => rfl⟩
  rw [known_nil]
  exact sound_readPending ho hb hp hn hsorted hs hids

theorem handled {event : Event} {b : Batch} (h : Aware held missed pass s)
    (hp : s.phase = .handling event b) (r : Except EventError Unit) :
    Aware held (Deed.missed held held missed (.handle event r)) (Deed.pass pass (.handle event r))
      (s.step stream o (.handled r) k) := by
  cases r with
  | ok _ => exact ⟨sound_handled hp h.sound (.ok ()), h.quiet⟩
  | error e => exact ⟨sound_of (step_handlerFailed hp e) rfl, fun _ _ => rfl⟩

theorem acked (ho : o.claimIdle = none) {b : Batch} (h : Aware held missed pass s)
    (hp : s.phase = .acking b) (n : Nat) :
    Aware (held.filter (fun id => id ∉ [b.entry.id])) missed pass
      (s.step stream o (.acked (.ok n)) k) := by
  refine ⟨?_, h.quiet⟩
  have hknown : known missed (held.filter (fun id => id ∉ [b.entry.id])) =
      (known missed held).filter (fun id => id ∉ [b.entry.id]) := by
    simp only [known, List.filter_filter, Bool.and_comm]
  rw [hknown]
  exact sound_acked ho hp h.sound n

end Aware

section Moves

variable {stream : String} {o : Options} {st st' : Store} {s : State} {missed : List Nat}
  {pass : Option Nat}

/-- A move keeps what the loop knows of the entries that it did not miss. -/
theorem Move.aware (ho : o.claimIdle = none) (hb : 1 ≤ o.batchSize) {d : Deed} {s' : State}
    (m : Move stream o (fun _ => True) st s d st' s') (hg : st.Good)
    (h : Aware (st.held stream o.group o.consumer) missed pass s) :
    st'.Good ∧ Aware (st'.held stream o.group o.consumer)
      (d.missed (st.held stream o.group o.consumer) (st'.held stream o.group o.consumer) missed)
      (d.pass pass) s' := by
  have hpos : ∀ id ∈ known missed (st.held stream o.group o.consumer), 0 < id :=
    fun id hid => hg.held_positive (mem_known.1 hid).1
  cases m with
  | create fault now k asked call =>
    obtain ⟨attempt, hp⟩ := madeIn_of_request asked
    refine ⟨Nested.good_attempt hg call, ?_⟩
    exact Aware.mono ⟨sound_created ho hp hpos h.sound _, h.quiet⟩ (Nested.held_attempt id call)
  | claim fault now k asked call => exact absurd asked (request_ne_claim ho _)
  | @read fault now k mode block asked lost r st' call =>
    refine ⟨Nested.good_attempt hg call, ?_⟩
    obtain ⟨hp, hn⟩ := madeIn_of_request asked
    cases mode with
    | new =>
      cases r with
      | error e => exact h.readNewFailed hp hn e
      | ok entries =>
        have hheld := Nested.held_of_readNew (Nested.attempt_ok call)
        have hsorted := (Nested.good_attempt hg call).held_sorted stream o.group o.consumer
        rw [hheld] at hsorted ⊢
        exact h.readNew ho hp hn hsorted
    | pending after =>
      cases r with
      | error e =>
        exact Aware.mono ⟨sound_readFailed hp h.sound (.pending after) e, h.quiet⟩
          (Nested.held_attempt id call)
      | ok entries =>
        obtain ⟨hheld, hids⟩ := Nested.held_of_readPending hg (Nested.attempt_ok call)
        rw [hheld]
        exact h.readPending ho hb hp hn (hg.held_sorted stream o.group o.consumer) hids
  | readNothing k asked =>
    obtain ⟨hp, hn⟩ := madeIn_of_request asked
    exact ⟨hg, sound_readNew ho hp hn h.sound .nil (fun id hid => Or.inl hid), h.quiet⟩
  | handle k asked r =>
    obtain ⟨b, hp⟩ := madeIn_of_request asked
    exact ⟨hg, h.handled hp r⟩
  | @ack fault now k id asked r st' call =>
    refine ⟨Nested.good_attempt hg call, ?_⟩
    obtain ⟨b, hp, rfl⟩ := madeIn_of_request asked
    cases r with
    | ok n =>
      rw [Nested.held_of_ack (Nested.attempt_ok call)]
      exact h.acked ho hp n
    | error e => exact ⟨sound_of (step_ackFailed hp e) rfl, fun _ _ => rfl⟩
  | wait k asked =>
    exact ⟨hg, sound_waited ho hpos (madeIn_of_request asked) h.sound, h.quiet⟩
  | interrupt k asked => exact ⟨hg, (ended_of_signal asked).sound, h.quiet⟩

/-- Over a whole course the store stays well formed and the loop knows what it
should. -/
theorem LossyCourse.aware (ho : o.claimIdle = none) (hb : 1 ≤ o.batchSize) (hg : st.Good)
    {deeds : List Deed} (h : LossyCourse stream o st deeds missed st' s) :
    st'.Good ∧ Aware (st'.held stream o.group o.consumer) missed (passAfter deeds) s := by
  induction h with
  | start => exact ⟨hg, rfl, fun _ _ => rfl⟩
  | move _ m ih =>
    rw [passAfter_snoc]
    exact m.aware ho hb ih.1 ih.2
  | others _ c now foreign ih =>
    exact ⟨ih.1.streamCall c now, ih.2.mono (Nested.held_streamCall foreign now _)⟩
  | keys _ keys ih => exact ih

end Moves

/-! ## The main law -/

/-- Whatever replies are lost: while an entry is handled, the earlier ones that
its consumer holds are all missed; new entries are read only when all that it
holds is missed; and nothing is missed while a pass over pending entries is
under way. -/
theorem only_missed_entries_are_overtaken {stream : String} {o : Options} {before st : Store}
    {deeds : List Deed} {missed : List Nat} {s : State} (ho : o.claimIdle = none)
    (hb : 1 ≤ o.batchSize) (hg : before.Good) (h : LossyCourse stream o before deeds missed st s) :
    (∀ event b, s.phase = .handling event b →
      Event.decode b.entry.fields = .ok (some event) ∧
      ∀ id ∈ st.held stream o.group o.consumer, b.entry.id ≤ id ∨ id ∈ missed) ∧
    (∀ block, s.request o = some (.read .new block) →
      passAfter deeds = none ∧ ∀ id ∈ st.held stream o.group o.consumer, id ∈ missed) ∧
    ∀ after, passAfter deeds = some after → missed = [] := by
  obtain ⟨_, ha⟩ := h.aware ho hb hg
  refine ⟨?_, ?_, ha.quiet⟩
  · intro event b hp
    have hs := ha.sound
    rw [State.Sound, hp] at hs
    obtain ⟨hd, _, _, hc⟩ := hs
    refine ⟨hd, fun id hid => ?_⟩
    by_cases hm : id ∈ missed
    · exact Or.inr hm
    · exact Or.inl (hc.head_le id (mem_known.2 ⟨hid, hm⟩))
  · intro block hq
    obtain ⟨hp, hn⟩ := madeIn_of_request hq
    obtain ⟨hpass, hnil⟩ := ha.known_eq_nil hp hn
    refine ⟨hpass, fun id hid => ?_⟩
    by_contra hm
    have hmem := mem_known.2 ⟨hid, hm⟩
    rw [hnil] at hmem
    cases hmem

/-- The reply that brings entry 1 is lost, and entry 2 overtakes it. When entry
2 fails, the loop comes back to entry 1. -/
theorem a_failure_brings_the_missed_entry_back :
    let lost : StoreError := .unavailable "request timed out"
    (unclaiming "g" "c").claimIdle = none ∧ 1 ≤ (unclaiming "g" "c").batchSize ∧
      Nested.empty.Good ∧ ∃ st s b,
        LossyCourse "s" (unclaiming "g" "c") Nested.empty
          [.create (.ok true), .read (.pending 0) (.ok []), .read .new (.error lost), .wait,
            .read .new (.ok [⟨2, (Event.removed .thing "t2").encode, 1⟩]),
            .handle (.removed .thing "t2") (.error (.handler "down")), .wait,
            .read (.pending 0) (.ok [⟨1, (Event.removed .thing "t1").encode, 2⟩,
              ⟨2, (Event.removed .thing "t2").encode, 2⟩])] [] st s ∧
        s.phase = .handling (.removed .thing "t1") b ∧ st.held "s" "g" "c" = [1, 2] ∧
        ∀ id ∈ st.held "s" "g" "c", b.entry.id ≤ id ∨ id ∈ [] := by
  intro lost
  let k : Outlook := ⟨0, false, false⟩
  have h₀ : LossyCourse "s" (unclaiming "g" "c") Nested.empty [] [] Nested.empty State.start :=
    .start
  have h₁ := h₀.move (.create none 0 k rfl rfl)
  have h₂ := h₁.move (.read none 0 k rfl (by simp) rfl)
  have h₃ := h₂.others (.append "s" (Event.removed .thing "t1").encode) 0 id
  have h₄ := h₃.move (.read (some (.unreported lost)) 0 k rfl (by simp) rfl)
  have h₅ := h₄.others (.append "s" (Event.removed .thing "t2").encode) 0 id
  have h₆ := h₅.move (.wait k rfl)
  have h₇ := h₆.move (.read none 0 k rfl (by simp) rfl)
  have h₈ := h₇.move (.handle k rfl (.error (.handler "down")))
  have h₉ := h₈.move (.wait k rfl)
  have h := h₉.move (.read none 0 k rfl (by simp) rfl)
  refine ⟨rfl, by decide, Nested.good_empty, _, _, _, h, rfl, rfl, ?_⟩
  exact ((only_missed_entries_are_overtaken rfl (by decide) Nested.good_empty h).1 _ _ rfl).2

/-- So it is not true that the entries of a lost reply come first: entry 2 is
at the handler while entry 1, which was delivered before it, is still held. -/
theorem a_lost_reply_lets_an_entry_overtake :
    let lost : StoreError := .unavailable "request timed out"
    lost.isRetryable = true ∧ ∃ st s b,
      LossyCourse "s" (unclaiming "g" "c") Nested.empty
        [.create (.ok true), .read (.pending 0) (.ok []), .read .new (.error lost), .wait,
          .read .new (.ok [⟨2, (Event.removed .thing "t2").encode, 1⟩])] [1] st s ∧
      s.phase = .handling (.removed .thing "t2") b ∧ b.entry.id = 2 ∧
      st.held "s" "g" "c" = [1, 2] := by
  intro lost
  let k : Outlook := ⟨0, false, false⟩
  have h₀ : LossyCourse "s" (unclaiming "g" "c") Nested.empty [] [] Nested.empty State.start :=
    .start
  have h₁ := h₀.move (.create none 0 k rfl rfl)
  have h₂ := h₁.move (.read none 0 k rfl (by simp) rfl)
  have h₃ := h₂.others (.append "s" (Event.removed .thing "t1").encode) 0 id
  have h₄ := h₃.move (.read (some (.unreported lost)) 0 k rfl (by simp) rfl)
  have h₅ := h₄.others (.append "s" (Event.removed .thing "t2").encode) 0 id
  have h₆ := h₅.move (.wait k rfl)
  have h := h₆.move (.read none 0 k rfl (by simp) rfl)
  exact ⟨rfl, _, _, _, h, rfl, rfl, rfl⟩

end LifecycleLog.Subscription
