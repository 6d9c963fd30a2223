-- What claims do to the order of entries. Between claims a subscription goes
-- on like one that claims nothing. A claim takes what was idle for long
-- enough, and an entry that the loop itself retries is not idle: it stays
-- behind, and later entries of others are handled before it. Entries that
-- were delivered again shortly before the claim are the only ones that are
-- overtaken so.
import LifecycleLog.Proofs.Subscription.Order

namespace LifecycleLog

open Nested (Store)

/-! ## Claims on a store -/

/-- The ids that the consumer holds and that a claim finds too young. -/
def Nested.Store.young (s : Store) (stream group consumer : String) (minIdle : Span) (now : Nat) :
    List Nat :=
  ((s.groupOf stream group).map (fun g =>
    (g.pending.filter (fun d => d.consumer = consumer ∧ now - d.deliveredAt < minIdle.nanos)).map
      (·.id))).getD []

namespace Nested

/-- A delivery after a claim or a read was there before, or is one of the answer. -/
theorem mem_snd_redeliver {log : List Fields} {consumer : String} {now : Nat}
    {pick : Delivery → Bool} {count : Nat} {pending : List Delivery} {d : Delivery}
    (h : d ∈ (redeliver log consumer now pick count pending).2) :
    d ∈ pending ∨ d.id ∈ (redeliver log consumer now pick count pending).1.map (·.id) := by
  induction pending generalizing count with
  | nil => cases count <;> cases h
  | cons x rest ih =>
    cases count with
    | zero => exact Or.inl h
    | succ count =>
      simp only [redeliver] at h ⊢
      split at h <;> rcases List.mem_cons.1 h with rfl | h
      · exact Or.inl List.mem_cons_self
      · exact (ih h).imp_left (List.mem_cons_of_mem _)
      · exact Or.inr List.mem_cons_self
      · exact (ih h).imp (List.mem_cons_of_mem _) (List.mem_cons_of_mem _)

variable {s s' : Store} {stream group consumer : String} {minIdle : Span} {count now : Nat}
  {entries : List Entry}

/-- A claim gives the consumer its answer, in order. What else it holds after
the claim it held before, and that was too young or lies beyond the answer. -/
theorem held_of_claim (hs : s.Good)
    (h : streamCall (.claimIdle stream group consumer minIdle count) now s = (.ok entries, s')) :
    (entries.map (·.id)).Pairwise (· < ·) ∧
      ∀ id ∈ s'.held stream group consumer, id ∈ entries.map (·.id) ∨
        id ∈ s.held stream group consumer ∧ (id ∈ s.young stream group consumer minIdle now ∨
          ∀ i ∈ entries.map (·.id), i < id) := by
  obtain ⟨g, hg, rfl, rfl⟩ := onGroup_ok h
  have hgood := hs stream group g hg
  let idle := (g.pending.filter (fun d => minIdle.nanos ≤ now - d.deliveredAt)).map (·.id)
  have hids : (claim consumer minIdle count now (s.log stream) g).1.map (·.id)
      = idle.take count := by
    rw [← List.map_take]
    exact map_id_redeliver_entries hgood.isSome
  have hsorted : idle.Pairwise (· < ·) := hgood.sorted.sublist (List.filter_sublist.map _)
  refine ⟨hids ▸ hsorted.sublist (List.take_sublist _ _), fun id hid => ?_⟩
  rw [held_setGroup] at hid
  obtain ⟨d, hd, rfl⟩ := List.mem_map.1 hid
  obtain ⟨hd, hc⟩ := List.mem_filter.1 hd
  rcases mem_snd_redeliver hd with hold | hnew
  · have hheld : d.id ∈ s.held stream group consumer := by
      rw [held_some hg]
      exact List.mem_map_of_mem (List.mem_filter.2 ⟨hold, hc⟩)
    by_cases hidle : minIdle.nanos ≤ now - d.deliveredAt
    · -- idle for long enough: it is in the answer, or cut off after it
      have hm : d.id ∈ idle :=
        List.mem_map_of_mem (List.mem_filter.2 ⟨hold, by simpa using hidle⟩)
      rw [← List.take_append_drop count idle] at hm hsorted
      rcases List.mem_append.1 hm with hm | hm
      · exact Or.inl (hids ▸ hm)
      · refine Or.inr ⟨hheld, Or.inr fun i hi => ?_⟩
        rw [hids] at hi
        exact (List.pairwise_append.1 hsorted).2.2 i hi d.id hm
    · refine Or.inr ⟨hheld, Or.inl ?_⟩
      have hy : d ∈ g.pending.filter
          (fun d => d.consumer = consumer ∧ now - d.deliveredAt < minIdle.nanos) :=
        List.mem_filter.2 ⟨hold, by simpa using ⟨by simpa using hc, by omega⟩⟩
      rw [Store.young, hg]
      exact List.mem_map_of_mem hy
  · exact Or.inl hnew

/-- A claim that fails leaves the store alone, if only passing faults occur. -/
theorem attempt_claimIdle_error {fault : Option Fault} {e : StoreError}
    (hf : ∀ f ∈ fault, f.Passing)
    (h : attempt fault (.claimIdle stream group consumer minIdle count) now s = (.error e, s')) :
    s' = s := by
  match fault with
  | none => exact onGroup_error h
  | some (.refused e') => exact (congrArg Prod.snd h).symm
  | some (.unreported e') => exact (hf _ rfl).elim

end Nested

/-- The same options without claims. -/
def Options.still (o : Options) : Options := { o with claimIdle := none }

namespace Subscription

/-! ## Between claims -/

/-- The same time, with no signal. -/
def Outlook.quiet (k : Outlook) : Outlook := ⟨k.now, false, false⟩

/-- The loop has ended, or stands where the other one does, but for a claim
that comes before a read. -/
def State.Near (s t : State) : Prop :=
  s.Ended ∨ (s.phase = t.phase ∨ s.phase = .claiming ∧ t.phase = .reading) ∧
    s.pendingFrom = t.pendingFrom

variable {stream : String} {o : Options} {s : State} {k : Outlook}

theorem near_refl (s : State) : s.Near s := Or.inr ⟨Or.inl rfl, rfl⟩

theorem near_interruptible (s : State) (k : Outlook) (phase : Phase) :
    (s.interruptible k phase).Near (s.interruptible k.quiet phase) := by
  unfold State.interruptible
  split
  · exact Or.inl (ended_finish _ _)
  · exact near_refl _

theorem near_round {t : State} (h : s.pendingFrom = t.pendingFrom) (o : Options) (k : Outlook) :
    (s.round o k).Near (t.round o.still k.quiet) := by
  have hreading : (s.interruptible k .reading).Near (t.round o.still k.quiet) := by
    rcases interruptible_cases s k .reading with he | ⟨hp, hf⟩
    · exact Or.inl he
    · exact Or.inr ⟨Or.inl hp, hf.trans h⟩
  unfold State.round
  split
  · exact Or.inl (ended_finish _ _)
  · split
    · split
      · exact Or.inr ⟨Or.inr ⟨rfl, rfl⟩, h⟩
      · exact hreading
    · exact hreading

theorem near_joined (s : State) (attempt : Nat) (r : Except StoreError Bool) :
    (s.joined stream o k attempt r).Near (s.joined stream o.still k.quiet attempt r) := by
  unfold State.joined
  cases r with
  | ok fresh => exact near_round rfl o k
  | error e =>
    have hattempts : o.still.connectAttempts = o.connectAttempts := rfl
    simp only [hattempts]
    split
    · exact near_refl _
    · exact near_interruptible _ _ _

theorem near_take (s : State) (entries : List Entry) :
    (s.take o k entries).Near (s.take o.still k.quiet entries) := by
  unfold State.take
  cases entries with
  | nil => exact near_round rfl o k
  | cons entry rest => exact near_refl _

theorem near_advance (s : State) (b : Batch) :
    (s.advance o k b).Near (s.advance o.still k.quiet b) := by
  unfold State.advance
  cases b.rest with
  | cons next rest => exact near_refl _
  | nil =>
    simp only
    split
    · exact near_interruptible _ _ _
    · exact near_round rfl o k

/-- Whatever the loop is replied, it goes on as it would without claims. -/
theorem near_step (s : State) (r : Reply) :
    (s.step stream o r k).Near (s.step stream o.still r k.quiet) := by
  unfold State.step
  split
  case h_1 => exact near_joined _ _ _
  case h_4 => exact near_interruptible _ _ _
  case h_5 => exact near_take _ _
  case h_6 =>
    split
    · exact near_interruptible _ _ _
    · exact near_refl _
  case h_7 => exact near_round rfl o k
  case h_9 => exact near_interruptible _ _ _
  case h_10 => exact near_advance _ _
  case h_11 => exact near_interruptible _ _ _
  case h_12 => exact near_round rfl o k
  -- no other reply makes the loop look outside
  all_goals exact near_refl _

theorem request_still (hp : s.phase ≠ .claiming) (o : Options) :
    s.request o.still = s.request o := by
  unfold State.request
  split
  case h_3 h => exact absurd h hp
  all_goals rfl

/-- A move that is no claim is one that the loop could make without claims. -/
theorem Move.still {Lost : Fault → Prop} {st st' : Store} {s' : State} {d : Deed}
    (m : Move stream o Lost st s d st' s') (hp : s.phase ≠ .claiming) :
    ∃ t, Move stream o.still Lost st s d st' t ∧ s'.Near t := by
  have hasked : ∀ q, s.request o = some q → s.request o.still = some q := by
    intro q hq
    rw [request_still hp, hq]
  cases m with
  | create fault now k asked call =>
    exact ⟨_, .create fault now k.quiet (hasked _ asked) call, near_step _ _⟩
  | claim fault now k asked call => exact absurd (madeIn_of_request asked).1 hp
  | read fault now k asked lost call =>
    exact ⟨_, .read fault now k.quiet (hasked _ asked) lost call, near_step _ _⟩
  | readNothing k asked => exact ⟨_, .readNothing k.quiet (hasked _ asked), near_step _ _⟩
  | handle k asked r => exact ⟨_, .handle k.quiet (hasked _ asked) r, near_step _ _⟩
  | ack fault now k asked call =>
    exact ⟨_, .ack fault now k.quiet (hasked _ asked) call, near_step _ _⟩
  | wait k asked => exact ⟨_, .wait k.quiet (hasked _ asked), near_step _ _⟩
  | interrupt k asked =>
    refine ⟨_, .interrupt k.quiet ?_, near_step _ _⟩
    rw [request_still hp]
    exact asked

/-! ## Claimed entries at hand -/

/-- Claimed entries at hand: what else the consumer holds lies beyond the place
of the pass, and what of it is earlier than one of them was too young. -/
structure Aside (held young : List Nat) (pass : Option Nat) (ids : List Nat) : Prop where
  sorted : ids.Pairwise (· < ·)
  all : ∀ id ∈ held, id ∈ ids ∨ ∃ after, pass = some after ∧ after < id
  young : ∀ id ∈ held, ∀ i ∈ ids, id < i → id ∈ ids ∨ id ∈ young

namespace Aside

variable {held held' young ids : List Nat} {pass : Option Nat} {id : Nat}

theorem mono (h : Aside held young pass ids) (hs : held'.Sublist held) :
    Aside held' young pass ids :=
  ⟨h.sorted, fun id hid => h.all id (hs.subset hid), fun id hid => h.young id (hs.subset hid)⟩

/-- What is earlier than the first entry at hand was too young for the claim. -/
theorem head_le (h : Aside held young pass (id :: ids)) :
    ∀ i ∈ held, id ≤ i ∨ i ∈ young := by
  intro i hi
  by_cases hlt : i < id
  · rcases h.young i hi id List.mem_cons_self hlt with hm | hy
    · rcases List.mem_cons.1 hm with rfl | hm
      · exact Or.inl (Nat.le_refl _)
      · exact Or.inl (Nat.le_of_lt ((List.pairwise_cons.1 h.sorted).1 i hm))
    · exact Or.inr hy
  · exact Or.inl (Nat.le_of_not_lt hlt)

theorem tail (h : Aside held young pass (id :: ids)) :
    Aside (held.filter (fun i => i ∉ [id])) young pass ids := by
  have hrest : ∀ i ∈ held.filter (fun i => i ∉ [id]), i ∈ held ∧ (i ∈ id :: ids → i ∈ ids) := by
    intro i hi
    obtain ⟨hi, hne⟩ := List.mem_filter.1 hi
    refine ⟨hi, fun hm => ?_⟩
    rcases List.mem_cons.1 hm with rfl | hm
    · simp at hne
    · exact hm
  refine ⟨(List.pairwise_cons.1 h.sorted).2, fun i hi => ?_, fun i hi j hj hlt => ?_⟩
  · obtain ⟨hi, hm⟩ := hrest i hi
    exact (h.all i hi).imp_left hm
  · obtain ⟨hi, hm⟩ := hrest i hi
    exact (h.young i hi j (List.mem_cons_of_mem _ hj) hlt).imp_left hm

/-- Once all of them are acknowledged, the pass goes on as if nothing had been claimed. -/
theorem covers (h : Aside held young pass []) : Covers held pass [] := by
  refine ⟨.nil, by simp, fun id hid => ?_⟩
  exact h.all id hid

end Aside

/-- What the loop knows while it claims now and then: as without claims while it
reads, and of claimed entries that they are aside. -/
inductive Poised (held young : List Nat) (pass : Option Nat) (s : State) : Prop
  | reading (sound : s.Sound held pass)
  | claiming (phase : s.phase = .claiming) (position : s.pendingFrom = pass)
      (covers : Covers held pass [])
  | claimed (b : Batch) (phase : s.phase = b.phase ∨ s.phase = .acking b)
      (position : s.pendingFrom = pass) (taken : b.claimed = true)
      (aside : Aside held young pass b.ids)

/-- A batch at hand is with the handler, or it is acknowledged. -/
theorem Batch.of_phase {b : Batch} (h : s.phase = b.phase ∨ s.phase = .acking b) :
    (∃ event, s.phase = .handling event b ∧ Event.decode b.entry.fields = .ok (some event)) ∨
      s.phase = .acking b := by
  rcases h with h | h
  · unfold Batch.phase at h
    split at h
    · exact Or.inl ⟨_, h, by assumption⟩
    · exact Or.inr h
  · exact Or.inr h

section Poised

variable {held held' young : List Nat} {pass : Option Nat}

theorem Poised.mono (h : Poised held young pass s) (hs : held'.Sublist held) :
    Poised held' young pass s := by
  cases h with
  | reading sound => exact .reading (sound.mono hs)
  | claiming phase position covers => exact .claiming phase position (covers.mono hs)
  | claimed b phase position taken aside => exact .claimed b phase position taken (aside.mono hs)

theorem Poised.of_claiming (h : Poised held young pass s) (hp : s.phase = .claiming) :
    s.pendingFrom = pass ∧ Covers held pass [] := by
  cases h with
  | reading sound =>
    rw [State.Sound, hp] at sound
    exact sound.elim
  | claiming phase position covers => exact ⟨position, covers⟩
  | claimed b phase position taken aside =>
    rcases Batch.of_phase phase with ⟨_, h, _⟩ | h <;> rw [hp] at h <;> cases h

theorem Poised.of_reading (h : Poised held young pass s) (hp : s.phase = .reading) :
    s.pendingFrom = pass ∧ Covers held pass [] := by
  cases h with
  | reading sound =>
    rw [State.Sound, hp] at sound
    exact sound
  | claiming phase position covers => exact ⟨position, covers⟩
  | claimed b phase position taken aside =>
    rcases Batch.of_phase phase with ⟨_, h, _⟩ | h <;> rw [hp] at h <;> cases h

/-- What is earlier than an entry at the handler was too young, and the entry was claimed. -/
theorem Poised.of_handling {event : Event} {b : Batch} (h : Poised held young pass s)
    (hp : s.phase = .handling event b) :
    Event.decode b.entry.fields = .ok (some event) ∧
      ∀ id ∈ held, b.entry.id ≤ id ∨ b.claimed = true ∧ id ∈ young := by
  cases h with
  | reading sound =>
    rw [State.Sound, hp] at sound
    obtain ⟨hd, _, _, hc⟩ := sound
    exact ⟨hd, fun id hid => Or.inl (hc.head_le id hid)⟩
  | claiming phase position covers =>
    rw [hp] at phase
    cases phase
  | claimed b' phase position taken aside =>
    rcases Batch.of_phase phase with ⟨event', h, hd⟩ | h <;> rw [hp] at h <;> cases h
    exact ⟨hd, fun id hid => (aside.head_le id hid).imp_right (fun hy => ⟨taken, hy⟩)⟩

theorem State.Near.poised {t : State} (h : s.Near t) (ht : t.Sound held pass) :
    Poised held young pass s := by
  rcases h with he | ⟨hp | ⟨hp, hp'⟩, hf⟩
  · exact .reading he.sound
  · refine .reading ?_
    rw [State.Sound, hp, hf]
    exact ht
  · rw [State.Sound, hp'] at ht
    exact .claiming hp (hf.trans ht.1) ht.2

end Poised

/-! ## What moves and claims keep -/

section Moves

variable {st st' : Store} {s' : State} {d : Deed} {Lost : Fault → Prop} {young : List Nat}
  {pass : Option Nat}

/-- The deed may come of the request. -/
def Request.Leads (d : Deed) : Request → Prop
  | .createGroup => ∃ r, d = .create r
  | .claim _ => ∃ r, d = .claim r
  | .read mode _ => (∃ r, d = .read mode r) ∨ d = .interrupt
  | .handle event => ∃ r, d = .handle event r
  | .ack id => ∃ r, d = .ack id r
  | .wait _ => d = .wait ∨ d = .interrupt

theorem Move.leads (m : Move stream o Lost st s d st' s') :
    ∃ q, s.request o = some q ∧ q.Leads d := by
  cases m with
  | create fault now k asked call => exact ⟨_, asked, _, rfl⟩
  | claim fault now k asked call => exact ⟨_, asked, _, rfl⟩
  | read fault now k asked lost call => exact ⟨_, asked, Or.inl ⟨_, rfl⟩⟩
  | readNothing k asked => exact ⟨_, asked, Or.inl ⟨_, rfl⟩⟩
  | handle k asked r => exact ⟨_, asked, _, rfl⟩
  | ack fault now k asked call => exact ⟨_, asked, _, rfl⟩
  | wait k asked => exact ⟨_, asked, Or.inl rfl⟩
  | interrupt k asked =>
    rcases asked with ⟨mode, block, asked⟩ | ⟨delay, asked⟩
    · exact ⟨_, asked, Or.inr rfl⟩
    · exact ⟨_, asked, Or.inr rfl⟩

theorem Move.of_handling {event : Event} {b : Batch} (m : Move stream o Lost st s d st' s')
    (hp : s.phase = .handling event b) :
    ∃ r k, d = .handle event r ∧ st' = st ∧ s' = s.step stream o (.handled r) k := by
  obtain ⟨q, hq, hd⟩ := m.leads
  unfold State.request at hq
  rw [hp] at hq
  cases hq
  obtain ⟨r, rfl⟩ := hd
  cases m with
  | handle k asked r => exact ⟨r, k, rfl, rfl, rfl⟩

theorem Move.of_acking {b : Batch} (m : Move stream o Lost st s d st' s')
    (hp : s.phase = .acking b) :
    ∃ fault now r k, d = .ack b.entry.id r ∧
      Nested.attempt fault (.ack stream o.group [b.entry.id]) now st = (r, st') ∧
      s' = s.step stream o (.acked r) k := by
  obtain ⟨q, hq, hd⟩ := m.leads
  unfold State.request at hq
  rw [hp] at hq
  cases hq
  obtain ⟨r, rfl⟩ := hd
  cases m with
  | ack fault now k asked call => exact ⟨fault, now, r, k, rfl, call, rfl⟩

/-- A loop that is about to claim does nothing else. -/
theorem Move.of_claiming (m : Move stream o Lost st s d st' s') (hp : s.phase = .claiming) :
    ∃ r, d = .claim r := by
  obtain ⟨q, hq, hd⟩ := m.leads
  unfold State.request at hq
  rw [hp] at hq
  obtain ⟨minIdle, _, rfl⟩ := Option.map_eq_some_iff.1 hq
  exact hd

theorem step_ackedClaimed {e : Entry} (hp : s.phase = .acking ⟨e, [], true⟩) (n : Nat) :
    (s.step stream o (.acked (.ok n)) k).Ended ∨
      (s.step stream o (.acked (.ok n)) k).At .reading s.pendingFrom := by
  unfold State.step
  rw [hp]
  exact interruptible_cases _ _ _

theorem step_claimNone (hp : s.phase = .claiming) {r : Except StoreError (List Entry)}
    (hr : ∀ e rest, r ≠ .ok (e :: rest)) :
    (s.step stream o (.entries r) k).Ended ∨
      (s.step stream o (.entries r) k).At .reading s.pendingFrom := by
  unfold State.step
  rw [hp]
  rcases r with e | _ | ⟨e, rest⟩
  · exact interruptible_cases _ _ _
  · exact interruptible_cases _ _ _
  · exact absurd rfl (hr e rest)

theorem step_claimSome (hp : s.phase = .claiming) (e : Entry) (rest : List Entry) :
    (s.step stream o (.entries (.ok (e :: rest))) k).At (Batch.phase ⟨e, rest, true⟩)
      s.pendingFrom := by
  unfold State.step
  rw [hp]
  exact at_turnTo _ _

/-- Claimed entries go to the handler and are acknowledged, in order. -/
theorem Move.poised_claimed {b : Batch} (m : Move stream o Lost st s d st' s') (hg : st.Good)
    (hphase : s.phase = b.phase ∨ s.phase = .acking b) (hf : s.pendingFrom = pass)
    (htaken : b.claimed = true) (ha : Aside (st.held stream o.group o.consumer) young pass b.ids) :
    st'.Good ∧ Poised (st'.held stream o.group o.consumer) young (d.pass pass) s' := by
  rcases Batch.of_phase hphase with ⟨event, hp, _⟩ | hp
  · obtain ⟨r, k, rfl, rfl, rfl⟩ := m.of_handling hp
    refine ⟨hg, ?_⟩
    cases r with
    | ok _ =>
      have hat : (s.step stream o (.handled (.ok ())) k).At _ _ := step_handled hp
      exact .claimed b (Or.inr hat.1) (hat.2.trans hf) htaken ha
    | error e => exact .reading (sound_of (step_handlerFailed hp e) rfl)
  · obtain ⟨fault, now, r, k, rfl, call, rfl⟩ := m.of_acking hp
    refine ⟨Nested.good_attempt hg call, ?_⟩
    cases r with
    | error e => exact .reading (sound_of (step_ackFailed hp e) rfl)
    | ok n =>
      rw [Nested.held_of_ack (Nested.attempt_ok call)]
      obtain ⟨e, rest, claimed⟩ := b
      obtain rfl : claimed = true := htaken
      cases rest with
      | nil => exact .reading (sound_of (step_ackedClaimed hp n) ⟨hf, ha.tail.covers⟩)
      | cons next rest =>
        have hat : (s.step stream o (.acked (.ok n)) k).At _ _ := step_acked hp n
        exact .claimed ⟨next, rest, true⟩ (Or.inl hat.1) (hat.2.trans hf) rfl ha.tail

/-- A move that is no claim keeps what the loop knows. -/
theorem Move.poised (hb : 1 ≤ o.batchSize) (m : Move stream o Fault.Passing st s d st' s')
    (hd : ∀ r, d ≠ .claim r) (hg : st.Good)
    (h : Poised (st.held stream o.group o.consumer) young pass s) :
    st'.Good ∧ Poised (st'.held stream o.group o.consumer) young (d.pass pass) s' := by
  cases h with
  | reading sound =>
    have hp : s.phase ≠ .claiming := by
      intro hp
      rw [State.Sound, hp] at sound
      exact sound
    obtain ⟨t, mt, hnear⟩ := m.still hp
    obtain ⟨hg', ht⟩ := mt.sound (o := o.still) rfl hb hg sound
    exact ⟨hg', hnear.poised ht⟩
  | claiming phase position covers =>
    obtain ⟨r, hr⟩ := m.of_claiming phase
    exact absurd hr (hd r)
  | claimed b phase position taken aside =>
    exact m.poised_claimed hg phase position taken aside

/-- A claim brings its answer to hand, and what else is held and earlier was
too young for it. -/
theorem poised_claim (hg : st.Good) {fault : Option Fault} {now : Nat} {minIdle : Span}
    (asked : s.request o = some (.claim minIdle)) (lost : ∀ f ∈ fault, f.Passing)
    {r : Except StoreError (List Entry)} (call : Nested.attempt fault
      (.claimIdle stream o.group o.consumer minIdle o.batchSize) now st = (r, st'))
    (h : Poised (st.held stream o.group o.consumer) young pass s) :
    Poised (st'.held stream o.group o.consumer)
      (st.young stream o.group o.consumer minIdle now) pass (s.step stream o (.entries r) k) := by
  obtain ⟨hp, _⟩ := madeIn_of_request asked
  obtain ⟨hf, hc⟩ := h.of_claiming hp
  cases r with
  | error e =>
    obtain rfl := Nested.attempt_claimIdle_error lost call
    exact .reading (sound_of (step_claimNone hp (fun _ _ h => nomatch h)) ⟨hf, hc⟩)
  | ok entries =>
    obtain ⟨hsorted, hheld⟩ := Nested.held_of_claim hg (Nested.attempt_ok call)
    have hall : ∀ id ∈ st'.held stream o.group o.consumer, id ∈ entries.map (·.id) ∨
        ∃ after, pass = some after ∧ after < id := by
      intro id hid
      refine (hheld id hid).imp_right fun hold => ?_
      rcases hc.all id hold.1 with hm | hbeyond
      · cases hm
      · exact hbeyond
    cases entries with
    | nil =>
      refine .reading (sound_of (step_claimNone hp (fun _ _ h => nomatch h)) ⟨hf, .nil, ?_, hall⟩)
      simp
    | cons e rest =>
      have hat : (s.step stream o (.entries (.ok (e :: rest))) k).At _ _ :=
        step_claimSome hp e rest
      refine .claimed ⟨e, rest, true⟩ (Or.inl hat.1) (hat.2.trans hf) rfl ⟨hsorted, hall, ?_⟩
      intro id hid i hi hlt
      rcases hheld id hid with hm | ⟨_, hy | hbeyond⟩
      · exact Or.inl hm
      · exact Or.inr hy
      · have := hbeyond i hi
        omega

end Moves

/-! ## Courses with claims -/

/-- The course of one subscription that claims, with what it did and what its
consumer held that was too young for the last claim. -/
inductive ClaimingCourse (stream : String) (o : Options) (before : Store) :
    List Deed → List Nat → Store → State → Prop
  | start : ClaimingCourse stream o before [] [] before State.start
  | move {deeds : List Deed} {young : List Nat} {st st' : Store} {s s' : State} {d : Deed}
      (course : ClaimingCourse stream o before deeds young st s)
      (move : Move stream o Fault.Passing st s d st' s') (other : ∀ r, d ≠ .claim r) :
      ClaimingCourse stream o before (deeds ++ [d]) young st' s'
  | claim {deeds : List Deed} {young : List Nat} {st : Store} {s : State}
      (course : ClaimingCourse stream o before deeds young st s)
      (fault : Option Fault) (now : Nat) (k : Outlook) {minIdle : Span}
      (asked : s.request o = some (.claim minIdle)) (lost : ∀ f ∈ fault, f.Passing) {r st'}
      (call : Nested.attempt fault
        (.claimIdle stream o.group o.consumer minIdle o.batchSize) now st = (r, st')) :
      ClaimingCourse stream o before (deeds ++ [.claim r])
        (st.young stream o.group o.consumer minIdle now) st' (s.step stream o (.entries r) k)
  | others {deeds : List Deed} {young : List Nat} {st : Store} {s : State}
      (course : ClaimingCourse stream o before deeds young st s) (c : StreamCall) (now : Nat)
      (foreign : ¬ c.GivesTo stream o.group o.consumer) :
      ClaimingCourse stream o before deeds young (Nested.streamCall c now st).2 s
  | keys {deeds : List Deed} {young : List Nat} {st : Store} {s : State}
      (course : ClaimingCourse stream o before deeds young st s) (keys : Keys) :
      ClaimingCourse stream o before deeds young { st with keys } s

/-- Over a whole course the store stays well formed and the loop knows what it
should. -/
theorem ClaimingCourse.poised (hb : 1 ≤ o.batchSize) {before st : Store} (hg : before.Good)
    {deeds : List Deed} {young : List Nat}
    (h : ClaimingCourse stream o before deeds young st s) :
    st.Good ∧ Poised (st.held stream o.group o.consumer) young (passAfter deeds) s := by
  induction h with
  | start => exact ⟨hg, .reading rfl⟩
  | move _ m other ih =>
    rw [passAfter_snoc]
    exact m.poised hb other ih.1 ih.2
  | claim _ fault now k asked lost call ih =>
    rw [passAfter_snoc]
    exact ⟨Nested.good_attempt ih.1 call, poised_claim ih.1 asked lost call ih.2⟩
  | others _ c now foreign ih =>
    exact ⟨ih.1.streamCall c now, ih.2.mono (Nested.held_streamCall foreign now _)⟩
  | keys _ keys ih => exact ih

/-- Whatever is claimed: while an entry is handled, the earlier ones that its
consumer holds were all too young for the last claim, and there are none unless
the entry itself was claimed; and new entries are read only when nothing is
held, after a pass from the start that went on until it found nothing. -/
theorem only_young_entries_are_overtaken {stream : String} {o : Options} {before st : Store}
    {deeds : List Deed} {young : List Nat} {s : State} (hb : 1 ≤ o.batchSize) (hg : before.Good)
    (h : ClaimingCourse stream o before deeds young st s) :
    (∀ event b, s.phase = .handling event b →
      Event.decode b.entry.fields = .ok (some event) ∧
      ∀ id ∈ st.held stream o.group o.consumer,
        b.entry.id ≤ id ∨ b.claimed = true ∧ id ∈ young) ∧
    (∀ block, s.request o = some (.read .new block) →
      passAfter deeds = none ∧ st.held stream o.group o.consumer = []) := by
  obtain ⟨_, hs⟩ := h.poised hb hg
  refine ⟨fun event b hp => hs.of_handling hp, fun block hq => ?_⟩
  obtain ⟨hp, hn⟩ := madeIn_of_request hq
  obtain ⟨hpass, hc⟩ := hs.of_reading hp
  -- a read of new entries is asked for after a whole pass, and that found nothing
  rw [hn] at hpass
  rw [← hpass] at hc
  exact ⟨hpass.symm, hc.eq_nil⟩

/-- The clock so many seconds on, and no signal. -/
def Outlook.atSecond (n : Nat) : Outlook := ⟨n * nanosPerSecond, false, false⟩

/-- Entry 1 is with consumer "c" and entry 2 with a peer. -/
def peerStore : Store :=
  ⟨∅, Table.ofList [("s",
    ⟨[(Event.removed .thing "t1").encode, (Event.removed .thing "t2").encode],
      Table.ofList [("g", ⟨2, [⟨1, "c", 0, 1⟩, ⟨2, "peer", 0, 1⟩]⟩)]⟩)]⟩

/-- The consumer reads entry 1, and a peer reads entry 2 and crashes. -/
theorem course_beside_a_crashed_peer : ClaimingCourse "s" (Options.of "g" "c") Nested.empty
    [.create (.ok true), .read (.pending 0) (.ok []),
      .read .new (.ok [⟨1, (Event.removed .thing "t1").encode, 1⟩])] [] peerStore
    ⟨.handling (.removed .thing "t1") ⟨⟨1, (Event.removed .thing "t1").encode, 1⟩, [], false⟩, none,
      some (60 * nanosPerSecond), 0, 0⟩ := by
  have h₀ : ClaimingCourse "s" (Options.of "g" "c") Nested.empty [] [] Nested.empty State.start :=
    .start
  have h₁ := h₀.others (.append "s" (Event.removed .thing "t1").encode) 0 id
  have h₂ := h₁.move (.create none 0 (.atSecond 0) rfl rfl) (fun _ h => nomatch h)
  have h₃ := h₂.move (.read none 0 (.atSecond 0) rfl (by simp) rfl) (fun _ h => nomatch h)
  have h₄ := h₃.move (.read none 0 (.atSecond 0) rfl (by simp) rfl) (fun _ h => nomatch h)
  have h₅ := h₄.others (.append "s" (Event.removed .thing "t2").encode) 0 id
  have hpeer : ¬ (StreamCall.readGroup "s" "g" "peer" .new 10 Span.zero).GivesTo "s" "g" "c" := by
    simp [StreamCall.GivesTo]
  exact h₅.others _ 0 hpeer

/-- A handler takes a minute to fail. By then its entry is idle too, so the claim
that brings the entry of the crashed peer brings it back first. -/
theorem an_idle_failure_is_claimed_first :
    1 ≤ (Options.of "g" "c").batchSize ∧ Nested.empty.Good ∧ ∃ st s b,
      ClaimingCourse "s" (Options.of "g" "c") Nested.empty
        [.create (.ok true), .read (.pending 0) (.ok []),
          .read .new (.ok [⟨1, (Event.removed .thing "t1").encode, 1⟩]),
          .handle (.removed .thing "t1") (.error (.handler "down")), .wait,
          .claim (.ok [⟨1, (Event.removed .thing "t1").encode, 2⟩,
            ⟨2, (Event.removed .thing "t2").encode, 2⟩])] [] st s ∧
      s.phase = .handling (.removed .thing "t1") b ∧ st.held "s" "g" "c" = [1, 2] ∧
      ∀ id ∈ st.held "s" "g" "c", b.entry.id ≤ id ∨ b.claimed = true ∧ id ∈ [] := by
  have h₀ := course_beside_a_crashed_peer
  have h₁ := h₀.move (.handle (.atSecond 60) rfl (.error (.handler "down"))) (fun _ h => nomatch h)
  have h₂ := h₁.move (.wait (.atSecond 65) rfl) (fun _ h => nomatch h)
  have h := h₂.claim none (65 * nanosPerSecond) (.atSecond 65) rfl (by simp) rfl
  refine ⟨by decide, Nested.good_empty, _, _, _, h, rfl, rfl, ?_⟩
  exact ((only_young_entries_are_overtaken (by decide) Nested.good_empty h).1 _ _ rfl).2

/-- But claims do let a later entry overtake a failed one. Entry 1 fails, is read
again 55 seconds on and fails again. The claim that is due 5 seconds after that
finds it too young, and brings entry 2 of the crashed peer to the handler. -/
theorem a_claimed_entry_overtakes_a_failed_one : ∃ st s b,
    ClaimingCourse "s" (Options.of "g" "c") Nested.empty
      [.create (.ok true), .read (.pending 0) (.ok []),
        .read .new (.ok [⟨1, (Event.removed .thing "t1").encode, 1⟩]),
        .handle (.removed .thing "t1") (.error (.handler "down")), .wait,
        .read (.pending 0) (.ok [⟨1, (Event.removed .thing "t1").encode, 2⟩]),
        .handle (.removed .thing "t1") (.error (.handler "down")), .wait,
        .claim (.ok [⟨2, (Event.removed .thing "t2").encode, 2⟩])] [1] st s ∧
    s.phase = .handling (.removed .thing "t2") b ∧ b.claimed = true ∧ b.entry.id = 2 ∧
    st.held "s" "g" "c" = [1, 2] := by
  have h₀ := course_beside_a_crashed_peer
  have h₁ := h₀.move (.handle (.atSecond 50) rfl (.error (.handler "down"))) (fun _ h => nomatch h)
  have h₂ := h₁.move (.wait (.atSecond 55) rfl) (fun _ h => nomatch h)
  have h₃ := h₂.move (.read none (55 * nanosPerSecond) (.atSecond 55) rfl (by simp) rfl)
    (fun _ h => nomatch h)
  have h₄ := h₃.move (.handle (.atSecond 55) rfl (.error (.handler "down"))) (fun _ h => nomatch h)
  have h₅ := h₄.move (.wait (.atSecond 60) rfl) (fun _ h => nomatch h)
  have h := h₅.claim none (60 * nanosPerSecond) (.atSecond 60) rfl (by simp) rfl
  exact ⟨_, _, _, h, rfl, rfl, rfl, rfl⟩

end Subscription

end LifecycleLog
