-- To whom entries are handed over. Any number of subscriptions share a group,
-- each under a name of its own, and nobody claims. Calls fail with or without
-- effect, handlers fail, subscriptions crash and begin anew. What comes to one
-- of them was new to the group then, so it never comes to another one. While
-- nothing fails, each is handed its entries in rising order, so none twice.
import LifecycleLog.Proofs.Store.Growth
import LifecycleLog.Proofs.Subscription.Order
import Mathlib.Logic.Function.Basic

namespace LifecycleLog.Subscription

open Nested (Store)

/-! ## Crews -/

/-- The entry that the handler is given. -/
def State.handing? (s : State) : Option Nat :=
  match s.phase with
  | .handling _ b => some b.entry.id
  | _ => none

/-- No call and no handler failed. -/
def Deed.Succeeds : Deed → Prop
  | .create r => ∃ fresh, r = .ok fresh
  | .claim r => ∃ entries, r = .ok entries
  | .read _ r => ∃ entries, r = .ok entries
  | .handle _ r => r = .ok ()
  | .ack _ r => ∃ count, r = .ok count
  | .wait => True
  | .interrupt => True

/-- What happened to one of the subscriptions. -/
inductive Occurrence (ι : Type)
  /-- It did something, and stood there afterwards. -/
  | move (who : ι) (deed : Deed) (next : State)
  | crash (who : ι)

variable {ι : Type}

namespace Occurrence

/-- Who hands an entry over, and the id of the entry. The handler gets it as
soon as the loop stands there, so it has it also if a crash comes next. -/
def handover? : Occurrence ι → Option (ι × Nat)
  | .move who _ next => next.handing?.map (who, ·)
  | .crash _ => none

def Smooth : Occurrence ι → Prop
  | .move _ deed _ => deed.Succeeds
  | .crash _ => False

end Occurrence

def handovers (trace : List (Occurrence ι)) : List (ι × Nat) :=
  trace.filterMap Occurrence.handover?

/-- A run of subscriptions on a store, by what happened to them. They move in
any order, and any of their calls may meet any fault; one that takes effect
after it was reported as failed is a call of others. Others make any calls but
claims in the group. A crash leaves a subscription where a new one begins. -/
inductive Crew [DecidableEq ι] (stream group : String) (opts : ι → Options) (before : Store) :
    List (Occurrence ι) → Store → (ι → State) → Prop
  | begin : Crew stream group opts before [] before (fun _ => State.start)
  | move {trace : List (Occurrence ι)} {st st' : Store} {states : ι → State} {d : Deed}
      {s' : State} (run : Crew stream group opts before trace st states) (who : ι)
      (move : Move stream (opts who) (fun _ => True) st (states who) d st' s') :
      Crew stream group opts before (trace ++ [.move who d s']) st'
        (Function.update states who s')
  | others {trace : List (Occurrence ι)} {st : Store} {states : ι → State}
      (run : Crew stream group opts before trace st states) (c : StreamCall) (now : Nat)
      (foreign : ¬ c.TakesOver stream group) :
      Crew stream group opts before trace (Nested.streamCall c now st).2 states
  | keys {trace : List (Occurrence ι)} {st : Store} {states : ι → State}
      (run : Crew stream group opts before trace st states) (keys : Keys) :
      Crew stream group opts before trace { st with keys } states
  | crash {trace : List (Occurrence ι)} {st : Store} {states : ι → State}
      (run : Crew stream group opts before trace st states) (who : ι) :
      Crew stream group opts before (trace ++ [.crash who]) st
        (Function.update states who State.start)

theorem handovers_move (trace : List (Occurrence ι)) (who : ι) (d : Deed) (s : State) :
    handovers (trace ++ [.move who d s])
      = handovers trace ++ (s.handing?.map (who, ·)).toList := by
  cases h : s.handing? <;> simp [handovers, Occurrence.handover?, h]

theorem handovers_crash (trace : List (Occurrence ι)) (who : ι) :
    handovers (trace ++ [.crash who]) = handovers trace := by
  simp [handovers, Occurrence.handover?]

theorem mem_handing {who other : ι} {s : State} {id : Nat} :
    (other, id) ∈ (s.handing?.map (who, ·)).toList ↔ other = who ∧ s.handing? = some id := by
  rw [Option.mem_toList, Option.map_eq_some_iff]
  constructor
  · rintro ⟨id', h, he⟩
    cases he
    exact ⟨rfl, h⟩
  · rintro ⟨rfl, h⟩
    exact ⟨id, h, rfl⟩

theorem mem_handovers_move {trace : List (Occurrence ι)} {who other : ι} {d : Deed} {s : State}
    {id : Nat} : (other, id) ∈ handovers (trace ++ [.move who d s]) ↔
      (other, id) ∈ handovers trace ∨ other = who ∧ s.handing? = some id := by
  rw [handovers_move, List.mem_append, mem_handing]

/-! ## What moves bring -/

/-- The ids of the entries at hand. -/
def Phase.ids : Phase → List Nat
  | .handling _ b => b.ids
  | .acking b => b.ids
  | _ => []

theorem ids_phase (b : Batch) : b.phase.ids = b.ids := by
  unfold Batch.phase
  split <;> rfl

theorem notMem_ids_of_resting {phase : Phase} (h : phase.Resting) (id : Nat) : id ∉ phase.ids := by
  cases phase with
  | handling event b => exact h.elim
  | acking b => exact h.elim
  | _ => exact List.not_mem_nil

/-- Of a batch that was begun the first entry is handed over, if any. -/
theorem eq_of_handing {s : State} {b : Batch} {id : Nat} (h : s.phase = b.phase)
    (hid : s.handing? = some id) : id = b.entry.id := by
  unfold State.handing? at hid
  unfold Batch.phase at h
  split at h <;> rw [h] at hid
  · exact (Option.some.inj hid).symm
  · cases hid

theorem mem_ids_of_handing {s : State} {id : Nat} (h : s.handing? = some id) :
    id ∈ s.phase.ids := by
  unfold State.handing? at h
  split at h
  · rename_i event b hp
    cases h
    rw [hp]
    exact List.mem_cons_self
  · cases h

section Moves

variable {stream : String} {o : Options} {Lost : Fault → Prop} {st st' : Store} {s s' : State}
  {d : Deed}

/-- Without claims a move does to the store what some call does that takes
nothing over. -/
theorem Move.effect (m : Move stream o Lost st s d st' s') (ho : o.claimIdle = none) :
    ∃ c now, ¬ StreamCall.TakesOver stream o.group c ∧ st' = (Nested.streamCall c now st).2 := by
  have hidle : ∃ c now, ¬ StreamCall.TakesOver stream o.group c ∧
      st = (Nested.streamCall c now st).2 :=
    ⟨.pending stream o.group, 0, id, (Nested.streamCall_pending _ _ _ _).symm⟩
  have hcall : ∀ {c fault now r}, ¬ StreamCall.TakesOver stream o.group c →
      Nested.attempt fault c now st = (r, st') →
      ∃ c now, ¬ StreamCall.TakesOver stream o.group c ∧
        st' = (Nested.streamCall c now st).2 := by
    intro c fault now r hc call
    rcases Nested.attempt_effect call with rfl | he
    · exact hidle
    · exact ⟨c, now, hc, he⟩
  cases m with
  | create fault now k asked call => exact hcall id call
  | claim fault now k asked call => exact absurd asked (request_ne_claim ho _)
  | read fault now k asked lost call => exact hcall id call
  | ack fault now k asked call => exact hcall id call
  | readNothing => exact hidle
  | handle => exact hidle
  | wait => exact hidle
  | interrupt => exact hidle

/-- What comes to hand is held by the consumer. -/
theorem Move.ids_subset (m : Move stream o Lost st s d st' s') (ho : o.claimIdle = none)
    (hg : st.Good) {id : Nat} (hid : id ∈ s'.phase.ids) :
    id ∈ s.phase.ids ∨ id ∈ st'.held stream o.group o.consumer := by
  have hrest : s'.phase.Resting → id ∈ s.phase.ids ∨ id ∈ st'.held stream o.group o.consumer :=
    fun hr => absurd hid (notMem_ids_of_resting hr id)
  cases m with
  | create fault now k asked call =>
    obtain ⟨attempt, hp⟩ := madeIn_of_request asked
    exact hrest (resting_created hp _)
  | claim fault now k asked call => exact absurd asked (request_ne_claim ho _)
  | @read fault now k mode block asked lost r st' call =>
    rcases entries_cases (Or.inr (madeIn_of_request asked).1) r with
      hr | ⟨e, rest, claimed, rfl, hp⟩
    · exact hrest hr
    · rw [hp, ids_phase] at hid
      obtain ⟨x, hx, rfl⟩ := List.mem_map.1 (show id ∈ (e :: rest).map (·.id) from hid)
      have hok := Nested.attempt_ok call
      cases mode with
      | new => exact Or.inr (Nested.carries_of_readNew hok x hx).1
      | pending after => exact Or.inr (Nested.carries_of_readPending hg hok x hx).1
  | readNothing k asked =>
    exact hrest (resting_of (step_readNone ho (madeIn_of_request asked).1) trivial)
  | handle k asked r =>
    obtain ⟨b, hp⟩ := madeIn_of_request asked
    cases r with
    | ok u =>
      rw [(step_handled hp).1] at hid
      exact Or.inl (hp ▸ hid)
    | error e => exact hrest (resting_of (step_handlerFailed hp e) trivial)
  | @ack fault now k _ asked r st' call =>
    obtain ⟨b, hp, rfl⟩ := madeIn_of_request asked
    cases r with
    | error e => exact hrest (resting_of (step_ackFailed hp e) trivial)
    | ok n =>
      rcases acked_cases hp n with hr | ⟨next, rest, hbatch, hphase⟩
      · exact hrest hr
      · rw [hphase, ids_phase] at hid
        have hmore : id ∈ b.ids := by
          rw [Batch.ids, hbatch]
          exact List.mem_cons_of_mem _ hid
        exact Or.inl (hp ▸ hmore)
  | wait k asked => exact hrest (resting_waited (madeIn_of_request asked))
  | interrupt k asked => exact hrest (ended_of_signal asked).resting

end Moves

/-! ## To one subscription alone -/

section Apart

variable {stream group : String} {opts : ι → Options}

/-- The entry came to the subscription: it holds the entry, or has it at hand,
or handed it over. -/
def Came (stream group : String) (opts : ι → Options) (handed : List (ι × Nat)) (st : Store)
    (states : ι → State) (who : ι) (id : Nat) : Prop :=
  id ∈ st.held stream group (opts who).consumer ∨ id ∈ (states who).phase.ids ∨ (who, id) ∈ handed

/-- What came to a subscription is not new to the group, and came to no other one. -/
structure Apart (stream group : String) (opts : ι → Options) (handed : List (ι × Nat)) (st : Store)
    (states : ι → State) : Prop where
  good : st.Good
  within : ∀ {who id}, Came stream group opts handed st states who id → id ≤ st.cursor stream group
  only : ∀ {who who' id}, Came stream group opts handed st states who id →
    Came stream group opts handed st states who' id → who = who'

variable {handed handed' : List (ι × Nat)} {st : Store} {states states' : ι → State}

theorem Came.of_update [DecidableEq ι] {who other : ι} {s : State} {id : Nat}
    (h : Came stream group opts handed st (Function.update states who s) other id) :
    Came stream group opts handed st states other id ∨ other = who ∧ id ∈ s.phase.ids := by
  rcases h with hheld | hid | hid
  · exact Or.inl (Or.inl hheld)
  · by_cases hother : other = who
    · subst hother
      rw [Function.update_self] at hid
      exact Or.inr ⟨rfl, hid⟩
    · rw [Function.update_of_ne hother] at hid
      exact Or.inl (Or.inr (Or.inl hid))
  · exact Or.inl (Or.inr (Or.inr hid))

theorem apart_begin (hnames : Function.Injective (fun who => (opts who).consumer))
    (hg : st.Good) : Apart stream group opts [] st (fun _ => State.start) := by
  have hheld : ∀ {who id}, Came stream group opts [] st (fun _ => State.start) who id →
      id ∈ st.held stream group (opts who).consumer := by
    rintro who id (h | h | h)
    · exact h
    · cases h
    · cases h
  exact ⟨hg, fun h => hg.held_le_cursor (hheld h),
    fun h h' => hnames (hg.consumer_unique (hheld h) (hheld h'))⟩

/-- What a call gives to one of them lies beyond the cursor, and what came to
any of them before does not. -/
theorem Apart.called {c : StreamCall} (h : Apart stream group opts handed st states)
    (hnames : Function.Injective (fun who => (opts who).consumer))
    (hc : ¬ c.TakesOver stream group) (now : Nat)
    (came : ∀ {who id},
      Came stream group opts handed' (Nested.streamCall c now st).2 states' who id →
      Came stream group opts handed st states who id ∨
        id ∈ (Nested.streamCall c now st).2.held stream group (opts who).consumer) :
    Apart stream group opts handed' (Nested.streamCall c now st).2 states' := by
  have hgood := h.good.streamCall c now
  have hcases : ∀ {who id},
      Came stream group opts handed' (Nested.streamCall c now st).2 states' who id →
      Came stream group opts handed st states who id ∨
        c.GivesTo stream group (opts who).consumer ∧ st.cursor stream group < id := by
    intro who id hid
    rcases came hid with hold | hheld
    · exact Or.inl hold
    · exact (Nested.mem_held_streamCall hc hheld).imp_left Or.inl
  refine ⟨hgood, fun hid => ?_, fun hid hid' => ?_⟩
  · rcases came hid with hold | hheld
    · exact (h.within hold).trans (Nested.cursor_le_streamCall c now st)
    · exact hgood.held_le_cursor hheld
  · rcases hcases hid, hcases hid' with ⟨hold | ⟨hgives, hlt⟩, hold' | ⟨hgives', hlt'⟩⟩
    · exact h.only hold hold'
    · exact absurd (h.within hold) (Nat.not_le_of_lt hlt')
    · exact absurd (h.within hold') (Nat.not_le_of_lt hlt)
    · exact hnames (hgives.unique hgives')

theorem Crew.apart [DecidableEq ι] {before : Store} {trace : List (Occurrence ι)}
    (hgroup : ∀ who, (opts who).group = group) (hclaims : ∀ who, (opts who).claimIdle = none)
    (hnames : Function.Injective (fun who => (opts who).consumer)) (hg : before.Good)
    (h : Crew stream group opts before trace st states) :
    Apart stream group opts (handovers trace) st states := by
  induction h with
  | begin => exact apart_begin hnames hg
  | @move trace st st' states d s' _ who m ih =>
    -- the entries at hand came before, or the consumer holds them by now
    have hhand : ∀ {id}, id ∈ s'.phase.ids →
        Came stream group opts (handovers trace) st states who id ∨
          id ∈ st'.held stream group (opts who).consumer := by
      intro id hid
      rcases m.ids_subset (hclaims who) ih.good hid with hold | hheld
      · exact Or.inl (Or.inr (Or.inl hold))
      · exact Or.inr (hgroup who ▸ hheld)
    obtain ⟨c, now, hc, rfl⟩ := m.effect (hclaims who)
    refine ih.called hnames (hgroup who ▸ hc) now ?_
    intro other id hcame
    rcases hcame.of_update with (hheld | hold | hid) | ⟨rfl, hid⟩
    · exact Or.inr hheld
    · exact Or.inl (Or.inr (Or.inl hold))
    · rcases mem_handovers_move.1 hid with hold | ⟨rfl, hgiven⟩
      · exact Or.inl (Or.inr (Or.inr hold))
      · exact hhand (mem_ids_of_handing hgiven)
    · exact hhand hid
  | @others trace st states _ c now foreign ih =>
    refine ih.called hnames foreign now ?_
    rintro who id (hheld | hold)
    · exact Or.inr hheld
    · exact Or.inl (Or.inr hold)
  | keys _ keys ih => exact ⟨ih.good, ih.within, ih.only⟩
  | @crash trace st states _ who ih =>
    rw [handovers_crash]
    have hcame : ∀ {other id}, Came stream group opts (handovers trace) st
        (Function.update states who State.start) other id →
        Came stream group opts (handovers trace) st states other id := fun hid =>
      hid.of_update.resolve_right fun hstart => List.not_mem_nil hstart.2
    exact ⟨ih.good, fun hid => ih.within (hcame hid),
      fun hid hid' => ih.only (hcame hid) (hcame hid')⟩

end Apart

/-! ## In rising order -/

/-- The entries at hand rise from where the last one was handed over, up to the
place of the pass. -/
structure InLine (past : Nat → Prop) (position : Option Nat) (b : Batch) : Prop where
  unclaimed : b.claimed = false
  sorted : b.ids.Pairwise (· < ·)
  upto : ∀ id ∈ b.ids, ∀ after, position = some after → id ≤ after
  past_le : ∀ id, past id → id ≤ b.entry.id

/-- The loop has met no failure, and nothing that it handed over lies ahead of it. -/
def Calm (past : Nat → Prop) (position : Option Nat) : Phase → Prop
  | .joining _ => ∀ id, ¬ past id
  | .reading => ∀ id, past id → ∀ after, position = some after → id ≤ after
  | .handling _ b => InLine past position b
  | .acking b => InLine past position b
  | .finished _ => True
  | _ => False

/-- What it hands over now, if anything, lies beyond all that it handed over
before, and it goes on like that. -/
def State.Rises (past : Nat → Prop) (s : State) : Prop :=
  (∀ id, s.handing? = some id → ∀ i, past i → i < id) ∧
    Calm (fun i => past i ∨ s.handing? = some i) s.pendingFrom s.phase

section Rises

variable {past past' : Nat → Prop} {position : Option Nat} {phase : Phase} {b : Batch}
  {s s' : State} {stream : String} {o : Options} {k : Outlook}

theorem Calm.anti (h : Calm past position phase) (hp : ∀ id, past' id → past id) :
    Calm past' position phase := by
  cases phase with
  | joining attempt => exact fun id hid => h id (hp id hid)
  | reading => exact fun id hid => h id (hp id hid)
  | handling event b => exact ⟨h.unclaimed, h.sorted, h.upto, fun id hid => h.past_le id (hp id hid)⟩
  | acking b => exact ⟨h.unclaimed, h.sorted, h.upto, fun id hid => h.past_le id (hp id hid)⟩
  | finished result => trivial
  | _ => exact h.elim

/-- A state that hands nothing over goes on as it stands. -/
theorem rises_of_calm (h : s.At phase position) (hn : ∀ event b, phase ≠ .handling event b)
    (hc : Calm past position phase) : s.Rises past := by
  have hnone : s.handing? = none := by
    rw [State.handing?, h.1]
    cases phase with
    | handling event b => exact absurd rfl (hn event b)
    | _ => rfl
  refine ⟨fun id hid => ?_, ?_⟩
  · rw [hnone] at hid
    cases hid
  · rw [h.1, h.2, hnone]
    exact hc.anti fun id hid => hid.resolve_right nofun

theorem rises_of_ended (h : s.Ended) : s.Rises past := by
  obtain ⟨result, hp⟩ := h
  exact rises_of_calm ⟨hp, rfl⟩ nofun trivial

theorem rises_of_rest (h : s.Ended ∨ s.At .reading position)
    (hpast : ∀ id, past id → ∀ after, position = some after → id ≤ after) : s.Rises past := by
  rcases h with he | ha
  · exact rises_of_ended he
  · exact rises_of_calm ha nofun hpast

theorem rises_of_batch (h : s.At b.phase position) (hc : b.claimed = false)
    (hs : b.ids.Pairwise (· < ·)) (hu : ∀ id ∈ b.ids, ∀ after, position = some after → id ≤ after)
    (hpast : ∀ id, past id → id < b.entry.id) : s.Rises past := by
  have hline : InLine (fun i => past i ∨ s.handing? = some i) position b := by
    refine ⟨hc, hs, hu, fun id hid => ?_⟩
    rcases hid with hid | hid
    · exact Nat.le_of_lt (hpast id hid)
    · exact Nat.le_of_eq (eq_of_handing h.1 hid)
  refine ⟨fun id hid i hi => eq_of_handing h.1 hid ▸ hpast i hi, ?_⟩
  rw [h.1, h.2]
  unfold Batch.phase
  split
  · exact hline
  · exact hline

/-- Entries that were read rise, and lie beyond all that was handed over. -/
theorem rises_read (ho : o.claimIdle = none) (hp : s.phase = .reading) {entries : List Entry}
    (hs : (entries.map (·.id)).Pairwise (· < ·))
    (hpast : ∀ i, past i → ∀ id ∈ entries.map (·.id), i < id) :
    (s.step stream o (.entries (.ok entries)) k).Rises past := by
  cases entries with
  | nil => exact rises_of_rest (step_readNone ho hp) nofun
  | cons e rest =>
    refine rises_of_batch (step_readSome hp e rest) rfl hs ?_
      fun i hi => hpast i hi e.id (by simp)
    intro id hid after hafter
    obtain ⟨_, _, rfl⟩ := Option.map_eq_some_iff.1 hafter
    exact le_getLast_of_rising hs (getLast?_ids e rest) id hid

theorem Move.rises {Lost : Fault → Prop} {st st' : Store} {d : Deed}
    (m : Move stream o Lost st s d st' s') (ho : o.claimIdle = none) (hg : st.Good)
    (hd : d.Succeeds) (hpast : ∀ id, past id → id ≤ st.cursor stream o.group)
    (h : Calm past s.pendingFrom s.phase) : s'.Rises past := by
  cases m with
  | create fault now k asked call =>
    obtain ⟨attempt, hp⟩ := madeIn_of_request asked
    obtain ⟨fresh, rfl⟩ := hd
    rw [hp] at h
    exact rises_of_rest (step_joined ho hp fresh) fun id hid => absurd hid (h id)
  | claim fault now k asked call => exact absurd asked (request_ne_claim ho _)
  | @read fault now k mode block asked lost r st' call =>
    obtain ⟨hp, hm⟩ := madeIn_of_request asked
    obtain ⟨entries, rfl⟩ := hd
    rw [hp, hm] at h
    have hok := Nested.attempt_ok call
    cases mode with
    | new =>
      obtain ⟨hs, hbeyond⟩ := Nested.rising_of_readNew hok
      exact rises_read ho hp hs fun i hi id hid => (hpast i hi).trans_lt (hbeyond id hid)
    | pending after =>
      obtain ⟨hs, hbeyond⟩ := Nested.rising_of_readPending hg hok
      exact rises_read ho hp hs fun i hi id hid => (h i hi after rfl).trans_lt (hbeyond id hid)
  | readNothing k asked => exact rises_read ho (madeIn_of_request asked).1 .nil nofun
  | handle k asked r =>
    obtain ⟨b, hp⟩ := madeIn_of_request asked
    obtain rfl : r = .ok () := hd
    rw [hp] at h
    exact rises_of_calm (step_handled hp) nofun h
  | @ack fault now k id asked r st' call =>
    obtain ⟨⟨e, rest, claimed⟩, hp, rfl⟩ := madeIn_of_request asked
    obtain ⟨n, rfl⟩ := hd
    rw [hp] at h
    obtain ⟨rfl, hs, hu, hle⟩ := h
    cases rest with
    | nil =>
      refine rises_of_rest (step_ackedLast ho hp n) fun id hid after hafter => ?_
      exact (hle id hid).trans (hu e.id List.mem_cons_self after hafter)
    | cons next rest =>
      obtain ⟨hnext, hrest⟩ := List.pairwise_cons.1 hs
      refine rises_of_batch (step_acked hp n) rfl hrest
        (fun id hid => hu id (List.mem_cons_of_mem _ hid)) fun id hid => ?_
      exact (hle id hid).trans_lt (hnext next.id List.mem_cons_self)
  | wait k asked =>
    rcases madeIn_of_request asked with ⟨attempt, hp⟩ | hp | hp <;> rw [hp] at h <;> exact h.elim
  | interrupt k asked => exact rises_of_ended (ended_of_signal asked)

end Rises

/-- As long as nothing fails, whoever hands an entry over hands over later ones
from then on. -/
theorem Crew.rising [DecidableEq ι] {stream group : String} {opts : ι → Options}
    {before st : Store} {trace : List (Occurrence ι)} {states : ι → State}
    (hgroup : ∀ who, (opts who).group = group) (hclaims : ∀ who, (opts who).claimIdle = none)
    (hnames : Function.Injective (fun who => (opts who).consumer)) (hg : before.Good)
    (h : Crew stream group opts before trace st states) (hs : ∀ x ∈ trace, x.Smooth) :
    (handovers trace).Pairwise (fun x y => x.1 = y.1 → x.2 < y.2) ∧ ∀ who,
      Calm (fun id => (who, id) ∈ handovers trace) (states who).pendingFrom (states who).phase := by
  induction h with
  | begin => exact ⟨.nil, fun _ _ => List.not_mem_nil⟩
  | @move trace st st' states d s' run who m ih =>
    obtain ⟨hpairs, hcalm⟩ := ih fun x hx => hs x (List.mem_append_left _ hx)
    have hd : d.Succeeds := hs (.move who d s') (by simp)
    have hapart := run.apart hgroup hclaims hnames hg
    obtain ⟨hbeyond, hnext⟩ := m.rises (hclaims who) hapart.good hd
      (fun id hid => hgroup who ▸ hapart.within (Or.inr (Or.inr hid))) (hcalm who)
    constructor
    · rw [handovers_move, List.pairwise_append]
      refine ⟨hpairs, ?_, ?_⟩
      · cases s'.handing? <;> simp
      · rintro ⟨other, i⟩ hi ⟨_, id⟩ hid rfl
        obtain ⟨rfl, hgiven⟩ := mem_handing.1 hid
        exact hbeyond id hgiven i hi
    · intro other
      by_cases hother : other = who
      · subst hother
        rw [Function.update_self]
        exact hnext.anti fun id hid => (mem_handovers_move.1 hid).imp_right And.right
      · rw [Function.update_of_ne hother]
        exact (hcalm other).anti fun id hid =>
          (mem_handovers_move.1 hid).resolve_right fun hnew => hother hnew.1
  | others _ c now foreign ih => exact ih hs
  | keys _ keys ih => exact ih hs
  | @crash trace st states _ who ih => exact (hs (.crash who) (by simp)).elim

/-! ## The main law -/

/-- From any well-formed store on, whoever holds what in it: no entry is handed
over by two of the subscriptions, whatever fails; and as long as nothing fails
and none of them crashes, no entry is handed over twice. -/
theorem no_entry_is_handed_over_by_two [DecidableEq ι] {stream group : String} {opts : ι → Options}
    {before st : Store} {trace : List (Occurrence ι)} {states : ι → State}
    (hgroup : ∀ who, (opts who).group = group) (hclaims : ∀ who, (opts who).claimIdle = none)
    (hnames : Function.Injective (fun who => (opts who).consumer)) (hg : before.Good)
    (h : Crew stream group opts before trace st states) :
    (∀ who who' id, (who, id) ∈ handovers trace → (who', id) ∈ handovers trace → who = who') ∧
    ((∀ x ∈ trace, x.Smooth) → ((handovers trace).map (·.2)).Nodup) := by
  have hapart := h.apart hgroup hclaims hnames hg
  have honly : ∀ who who' id, (who, id) ∈ handovers trace → (who', id) ∈ handovers trace →
      who = who' := fun who who' id hid hid' =>
    hapart.only (Or.inr (Or.inr hid)) (Or.inr (Or.inr hid'))
  refine ⟨honly, fun hs => ?_⟩
  have hrising := (h.rising hgroup hclaims hnames hg hs).1
  refine List.pairwise_map.2 (hrising.imp_of_mem ?_)
  rintro ⟨who, id⟩ ⟨who', id'⟩ hx hy hlt rfl
  exact Nat.lt_irrefl _ (hlt (honly who who' id hx hy))

/-- Two subscriptions take an entry each. The first one crashes with its entry
in hand, and when it begins anew it hands the same entry over again. -/
theorem a_crashed_subscription_alone_repeats_its_entry :
    let opts : Bool → Options := fun who => unclaiming "g" (if who then "d" else "c")
    (∀ who, (opts who).group = "g") ∧ (∀ who, (opts who).claimIdle = none) ∧
      Function.Injective (fun who => (opts who).consumer) ∧ Nested.empty.Good ∧
      (∃ trace st states, Crew "s" "g" opts Nested.empty trace st states ∧
        (∀ x ∈ trace, x.Smooth) ∧ handovers trace = [(false, 1), (true, 2)] ∧
        ((handovers trace).map (·.2)).Nodup) ∧
      ∃ trace st states, Crew "s" "g" opts Nested.empty trace st states ∧
        handovers trace = [(false, 1), (true, 2), (false, 1)] ∧
        ∀ who who' id, (who, id) ∈ handovers trace → (who', id) ∈ handovers trace → who = who' := by
  intro opts
  let k : Outlook := ⟨0, false, false⟩
  let fields := (Event.removed .thing "t1").encode
  let store (log : List Fields) (g : Nested.Group) : Store :=
    ⟨∅, Table.ofList [("s", ⟨log, Table.ofList [("g", g)]⟩)]⟩
  have hgroup : ∀ who, (opts who).group = "g" := fun _ => rfl
  have hclaims : ∀ who, (opts who).claimIdle = none := fun _ => rfl
  have hnames : Function.Injective (fun who => (opts who).consumer) := by decide
  have h₀ : Crew "s" "g" opts Nested.empty [] Nested.empty (fun _ => State.start) := .begin
  have h₁ := h₀.others (.append "s" fields) 0 id
  have h₂ : Crew "s" "g" opts Nested.empty _ (store [fields] ⟨0, []⟩) _ :=
    h₁.move false (.create none 0 k rfl rfl)
  have h₃ : Crew "s" "g" opts Nested.empty _ (store [fields] ⟨0, []⟩) _ :=
    h₂.move false (.read none 0 k rfl (by simp) rfl)
  have h₄ : Crew "s" "g" opts Nested.empty _ (store [fields] ⟨1, [⟨1, "c", 0, 1⟩]⟩) _ :=
    h₃.move false (.read none 0 k rfl (by simp) rfl)
  have h₅ : Crew "s" "g" opts Nested.empty _ (store [fields, fields] ⟨1, [⟨1, "c", 0, 1⟩]⟩) _ :=
    h₄.others (.append "s" fields) 0 id
  have h₆ : Crew "s" "g" opts Nested.empty _ (store [fields, fields] ⟨1, [⟨1, "c", 0, 1⟩]⟩) _ :=
    h₅.move true (.create none 0 k rfl rfl)
  have h₇ : Crew "s" "g" opts Nested.empty _ (store [fields, fields] ⟨1, [⟨1, "c", 0, 1⟩]⟩) _ :=
    h₆.move true (.read none 0 k rfl (by simp) rfl)
  have h₈ : Crew "s" "g" opts Nested.empty _
      (store [fields, fields] ⟨2, [⟨1, "c", 0, 1⟩, ⟨2, "d", 0, 1⟩]⟩) _ :=
    h₇.move true (.read none 0 k rfl (by simp) rfl)
  have h₉ := h₈.crash false
  have h₁₀ : Crew "s" "g" opts Nested.empty _
      (store [fields, fields] ⟨2, [⟨1, "c", 0, 1⟩, ⟨2, "d", 0, 1⟩]⟩) _ :=
    h₉.move false (.create none 0 k rfl rfl)
  have h₁₁ : Crew "s" "g" opts Nested.empty _
      (store [fields, fields] ⟨2, [⟨1, "c", 0, 2⟩, ⟨2, "d", 0, 1⟩]⟩) _ :=
    h₁₀.move false (.read none 0 k rfl (by simp) rfl)
  have hsmooth := no_entry_is_handed_over_by_two hgroup hclaims hnames Nested.good_empty h₈
  have hcrashed := no_entry_is_handed_over_by_two hgroup hclaims hnames Nested.good_empty h₁₁
  refine ⟨hgroup, hclaims, hnames, Nested.good_empty,
    ⟨_, _, _, h₈, ?_, rfl, hsmooth.2 ?_⟩, ⟨_, _, _, h₁₁, rfl, hcrashed.1⟩⟩
  all_goals simp [Occurrence.Smooth, Deed.Succeeds]

end LifecycleLog.Subscription
