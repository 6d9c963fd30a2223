-- How long a subscription waits after failures, and with which settings it does
-- not wait at all. The loop counts the failures in a row of its reads and of its
-- handler, and the count decides the delay. Settings that pass the check make
-- every such delay positive, unless their least delay is zero.
import LifecycleLog.Proofs.Subscription.Delays
import LifecycleLog.Proofs.Subscription.Moves
import LifecycleLog.Settings

namespace LifecycleLog

theorem Span.ofMillis_pos_iff (ms : Nat) : 0 < (ofMillis ms).nanos ↔ 0 < ms := by
  have hlongest : 0 < longest.nanos := by decide
  have hmilli : 0 < nanosPerMilli := by decide
  rw [ofMillis, nanos_ofNanos, Nat.lt_min, Nat.mul_pos_iff_of_pos_right hmilli]
  exact and_iff_left hlongest

namespace Subscription

/-! ## Failures in a row -/

/-- What a loop got, and the phase in which it got it. Replies may be any, and
come with any signals. -/
inductive Talk (stream : String) (o : Options) : List (Phase × Reply) → State → Prop
  | start : Talk stream o [] State.start
  | reply {talk : List (Phase × Reply)} {s : State} (h : Talk stream o talk s) (r : Reply)
    (k : Outlook) : Talk stream o (talk ++ [(s.phase, r)]) (s.step stream o r k)

/-- Whether a reply is a failed read that may be repeated, or a read that
succeeded. The count begins with the group. -/
def readFailed? : Phase × Reply → Option Bool
  | (.joining _, .created (.ok _)) => some false
  | (.reading, .entries (.ok _)) => some false
  | (.reading, .entries (.error e)) => if e.isRetryable then some true else none
  | _ => none

/-- Whether a reply is a failure of the handler or of an acknowledgement, or the
end of a batch that was read. -/
def handlerFailed? : Phase × Reply → Option Bool
  | (.joining _, .created (.ok _)) => some false
  | (.handling _ _, .handled (.error _)) => some true
  | (.acking _, .acked (.error _)) => some true
  | (.acking ⟨_, [], false⟩, .acked (.ok _)) => some false
  | _ => none

/-- How many failures there were since the last success. -/
def inARow (marks : List Bool) : Nat := marks.foldl (fun n failed => if failed then n + 1 else 0) 0

def failedReads (talk : List (Phase × Reply)) : Nat := inARow (talk.filterMap readFailed?)

def failedHandlers (talk : List (Phase × Reply)) : Nat := inARow (talk.filterMap handlerFailed?)

/-- What a reply does to a count of failures that stops at the largest number. -/
def tally : Option Bool → Nat → Nat
  | some true, n => Backoff.count n
  | some false, _ => 0
  | none, n => n

variable {stream : String} {o : Options} {s : State} {talk : List (Phase × Reply)}

theorem inARow_snoc (marks : List Bool) (failed : Bool) :
    inARow (marks ++ [failed]) = if failed then inARow marks + 1 else 0 := by
  simp [inARow]

theorem tally_inARow {f : Phase × Reply → Option Bool} {n : Nat} (x : Phase × Reply)
    (h : n = min (inARow (talk.filterMap f)) Backoff.greatestCount) :
    tally (f x) n = min (inARow ((talk ++ [x]).filterMap f)) Backoff.greatestCount := by
  rw [List.filterMap_append]
  cases hx : f x with
  | none => simpa [List.filterMap_cons, hx, tally] using h
  | some failed =>
    rw [List.filterMap_cons, hx, List.filterMap_nil, inARow_snoc]
    cases failed with
    | false => exact (Nat.zero_min _).symm
    | true =>
      show Backoff.count n = min (inARow (talk.filterMap f) + 1) Backoff.greatestCount
      rw [h, Backoff.count_min]

/-! ## What a reply does to the counts -/

/-- The phases in which the loop sets up or waits after a failure. -/
def Phase.Paused : Phase → Prop
  | .joining _ => True
  | .joinWait _ => True
  | .readWait => True
  | .retryWait => True
  | _ => False

/-- The loop has these counts, and goes on at once or has ended. -/
structure State.Busy (s : State) (reads handlers : Nat) : Prop where
  reads : s.readFailures = reads
  handlers : s.handlerFailures = handlers
  phase : ¬ s.phase.Paused

theorem busy_finish (s : State) (result : Except EventError Unit) :
    (s.finish result).Busy s.readFailures s.handlerFailures :=
  ⟨rfl, rfl, id⟩

theorem busy_reading (s : State) (k : Outlook) :
    (s.interruptible k .reading).Busy s.readFailures s.handlerFailures := by
  unfold State.interruptible
  split
  · exact busy_finish _ _
  · exact ⟨rfl, rfl, id⟩

theorem busy_round (s : State) (o : Options) (k : Outlook) :
    (s.round o k).Busy s.readFailures s.handlerFailures := by
  unfold State.round
  split
  · exact busy_finish _ _
  · split
    · split
      · exact ⟨rfl, rfl, id⟩
      · exact busy_reading _ _
    · exact busy_reading _ _

theorem busy_turnTo (s : State) (b : Batch) :
    (s.turnTo b).Busy s.readFailures s.handlerFailures := by
  unfold State.turnTo
  split <;> exact ⟨rfl, rfl, id⟩

/-- What a reply leads to: the loop goes on with the counts that the reply makes,
or it pauses after a failure that was counted, or for the set-up. -/
inductive Next (s : State) (x : Phase × Reply) (s' : State) : Prop
  | busy (h : s'.Busy (tally (readFailed? x) s.readFailures)
    (tally (handlerFailed? x) s.handlerFailures))
  | readWait (mark : readFailed? x = some true) (other : handlerFailed? x = none)
    (h : s' = { s with phase := .readWait, readFailures := Backoff.count s.readFailures })
  | retryWait (mark : handlerFailed? x = some true) (other : readFailed? x = none)
    (h : s' = { s with phase := .retryWait, handlerFailures := Backoff.count s.handlerFailures })
  | joins (attempt : Nat) (phase : x.1 = .joining attempt ∧ s' = { s with phase := .joinWait attempt } ∨
      x.1 = .joinWait attempt ∧ s' = { s with phase := .joining (attempt + 1) })
    (reads : readFailed? x = none) (handlers : handlerFailed? x = none)
  | same (reads : readFailed? x = none) (handlers : handlerFailed? x = none) (h : s' = s)

/-- A pause after a failure, or the end. -/
theorem interruptible_eq (s : State) (k : Outlook) (phase : Phase) :
    s.interruptible k phase = s.finish (.ok ()) ∨ s.interruptible k phase = { s with phase } := by
  unfold State.interruptible
  split
  · exact Or.inl rfl
  · exact Or.inr rfl

theorem next_joined (attempt : Nat) (r : Except StoreError Bool) (k : Outlook) :
    Next s (.joining attempt, .created r) (s.joined stream o k attempt r) := by
  cases r with
  | ok fresh => exact .busy (busy_round _ o k)
  | error e =>
    simp only [State.joined]
    split
    · exact .busy (busy_finish _ _)
    · rcases interruptible_eq s k (.joinWait attempt) with h | h
      · rw [h]
        exact .busy (busy_finish _ _)
      · exact .joins attempt (Or.inl ⟨rfl, h⟩) rfl rfl

theorem next_readFailed (e : StoreError) (k : Outlook) :
    Next s (.reading, .entries (.error e)) (if e.isRetryable then
      { s with readFailures := Backoff.count s.readFailures }.interruptible k .readWait
      else s.finish (.error (.read stream e))) := by
  by_cases he : e.isRetryable = true
  · have hmark : readFailed? (.reading, .entries (.error e)) = some true := if_pos he
    rw [if_pos he]
    rcases interruptible_eq { s with readFailures := Backoff.count s.readFailures } k .readWait
      with h | h
    · rw [h]
      refine .busy ?_
      rw [hmark]
      exact busy_finish { s with readFailures := Backoff.count s.readFailures } _
    · exact .readWait hmark rfl h
  · have hmark : readFailed? (.reading, .entries (.error e)) = none := if_neg he
    rw [if_neg he]
    refine .busy ?_
    rw [hmark]
    exact busy_finish _ _

theorem next_holdBack {x : Phase × Reply} (mark : handlerFailed? x = some true)
    (other : readFailed? x = none) (k : Outlook) : Next s x (s.holdBack k) := by
  unfold State.holdBack
  rcases interruptible_eq { s with handlerFailures := Backoff.count s.handlerFailures } k .retryWait
    with h | h
  · rw [h]
    refine .busy ?_
    rw [mark, other]
    exact busy_finish { s with handlerFailures := Backoff.count s.handlerFailures } _
  · exact .retryWait mark other h

theorem next_advance (b : Batch) (n : Nat) (k : Outlook) :
    Next s (.acking b, .acked (.ok n)) (s.advance o k b) := by
  obtain ⟨entry, rest, claimed⟩ := b
  unfold State.advance
  cases rest with
  | cons next rest => exact .busy (busy_turnTo _ _)
  | nil =>
    cases claimed with
    | true => exact .busy (busy_reading _ _)
    | false => exact .busy (busy_round _ o k)

theorem next_take (entries : List Entry) (k : Outlook) :
    Next s (.reading, .entries (.ok entries)) ({ s with readFailures := 0 }.take o k entries) := by
  unfold State.take
  cases entries with
  | nil => exact .busy (busy_round _ o k)
  | cons entry rest => exact .busy (busy_turnTo _ _)

theorem next_step (stream : String) (o : Options) (s : State) (r : Reply) (k : Outlook) :
    Next s (s.phase, r) (s.step stream o r k) := by
  unfold State.step
  split
  case h_1 attempt result hp => exact hp ▸ next_joined attempt result k
  case h_2 attempt hp => exact hp ▸ .joins attempt (Or.inr ⟨rfl, rfl⟩) rfl rfl
  case h_3 entry rest hp => exact hp ▸ .busy (busy_turnTo _ _)
  case h_4 result _ hp => exact hp ▸ .busy (busy_reading _ _)
  case h_5 entries hp => exact hp ▸ next_take entries k
  case h_6 e hp => exact hp ▸ next_readFailed e k
  case h_7 hp => exact hp ▸ .busy (busy_round _ _ _)
  case h_8 event batch _ hp => exact hp ▸ .busy ⟨rfl, rfl, id⟩
  case h_9 event batch e hp => exact hp ▸ next_holdBack rfl rfl k
  case h_10 batch n hp => exact hp ▸ next_advance batch n k
  case h_11 batch e hp => exact hp ▸ next_holdBack rfl rfl k
  case h_12 hp => exact hp ▸ .busy (busy_round { s with pendingFrom := some 0 } _ _)
  case h_13 attempt hp => exact hp ▸ .busy (busy_finish _ _)
  case h_14 hp => exact hp ▸ .busy (busy_finish _ _)
  case h_15 hp => exact hp ▸ .busy (busy_finish _ _)
  case h_16 hp => exact hp ▸ .busy (busy_finish _ _)
  case h_17 hjoined _ _ _ htaken hread _ _ hheld hacked hunacked _ _ _ _ _ =>
    -- a reply that was not asked for is no mark
    refine .same ?_ ?_ rfl
    · unfold readFailed?
      split
      case h_1 attempt fresh hx =>
        obtain ⟨hp, hr⟩ := Prod.mk.inj hx
        exact (hjoined _ _ hp hr).elim
      case h_2 entries hx =>
        obtain ⟨hp, hr⟩ := Prod.mk.inj hx
        exact (htaken _ hp hr).elim
      case h_3 e hx =>
        obtain ⟨hp, hr⟩ := Prod.mk.inj hx
        exact (hread _ hp hr).elim
      case h_4 => rfl
    · unfold handlerFailed?
      split
      case h_1 attempt fresh hx =>
        obtain ⟨hp, hr⟩ := Prod.mk.inj hx
        exact (hjoined _ _ hp hr).elim
      case h_2 event batch e hx =>
        obtain ⟨hp, hr⟩ := Prod.mk.inj hx
        exact (hheld _ _ _ hp hr).elim
      case h_3 batch e hx =>
        obtain ⟨hp, hr⟩ := Prod.mk.inj hx
        exact (hunacked _ _ hp hr).elim
      case h_4 entry n hx =>
        obtain ⟨hp, hr⟩ := Prod.mk.inj hx
        exact (hacked _ _ hp hr).elim
      case h_5 => rfl

/-! ## Loops -/

/-- The loop counts the failures in a row, and pauses only after a failure. -/
structure Counted (talk : List (Phase × Reply)) (s : State) : Prop where
  reads : s.readFailures = min (failedReads talk) Backoff.greatestCount
  handlers : s.handlerFailures = min (failedHandlers talk) Backoff.greatestCount
  readWait : s.phase = .readWait → 1 ≤ failedReads talk
  retryWait : s.phase = .retryWait → 1 ≤ failedHandlers talk
  joins : ∀ attempt, s.phase = .joining attempt ∨ s.phase = .joinWait attempt → 1 ≤ attempt

theorem failedReads_snoc {x : Phase × Reply} (hx : readFailed? x = some true) :
    1 ≤ failedReads (talk ++ [x]) := by
  unfold failedReads
  rw [List.filterMap_append, List.filterMap_cons, hx, List.filterMap_nil, inARow_snoc]
  exact Nat.succ_pos _

theorem failedHandlers_snoc {x : Phase × Reply} (hx : handlerFailed? x = some true) :
    1 ≤ failedHandlers (talk ++ [x]) := by
  unfold failedHandlers
  rw [List.filterMap_append, List.filterMap_cons, hx, List.filterMap_nil, inARow_snoc]
  exact Nat.succ_pos _

/-- A reply that is no mark changes no count. -/
theorem failedReads_none {x : Phase × Reply} (hx : readFailed? x = none) :
    failedReads (talk ++ [x]) = failedReads talk := by
  unfold failedReads
  rw [List.filterMap_append, List.filterMap_cons, hx, List.filterMap_nil, List.append_nil]

theorem failedHandlers_none {x : Phase × Reply} (hx : handlerFailed? x = none) :
    failedHandlers (talk ++ [x]) = failedHandlers talk := by
  unfold failedHandlers
  rw [List.filterMap_append, List.filterMap_cons, hx, List.filterMap_nil, List.append_nil]

theorem Counted.next (h : Counted talk s) {r : Reply} {s' : State} (hn : Next s (s.phase, r) s') :
    Counted (talk ++ [(s.phase, r)]) s' := by
  have hreads := tally_inARow (s.phase, r) h.reads
  have hhandlers := tally_inARow (s.phase, r) h.handlers
  cases hn with
  | busy hb =>
    have hno : ∀ phase : Phase, phase.Paused → s'.phase ≠ phase := by
      rintro phase hp rfl
      exact hb.phase hp
    refine ⟨hb.reads.trans hreads, hb.handlers.trans hhandlers, fun hp => ?_, fun hp => ?_,
      fun attempt hp => ?_⟩
    · exact absurd hp (hno _ trivial)
    · exact absurd hp (hno _ trivial)
    · rcases hp with hp | hp
      · exact absurd hp (hno _ trivial)
      · exact absurd hp (hno _ trivial)
  | readWait mark other hs =>
    subst hs
    rw [mark] at hreads
    rw [other] at hhandlers
    exact ⟨hreads, hhandlers, fun _ => failedReads_snoc mark, nofun, fun _ hp => by simp at hp⟩
  | retryWait mark other hs =>
    subst hs
    rw [mark] at hhandlers
    rw [other] at hreads
    exact ⟨hreads, hhandlers, nofun, fun _ => failedHandlers_snoc mark, fun _ hp => by simp at hp⟩
  | joins attempt phase reads handlers =>
    rw [reads] at hreads
    rw [handlers] at hhandlers
    rcases phase with ⟨hp, rfl⟩ | ⟨hp, rfl⟩
    · have hattempt := h.joins attempt (Or.inl hp)
      refine ⟨hreads, hhandlers, nofun, nofun, fun attempt' hp' => ?_⟩
      simp only [reduceCtorEq, Phase.joinWait.injEq, false_or] at hp'
      omega
    · refine ⟨hreads, hhandlers, nofun, nofun, fun attempt' hp' => ?_⟩
      simp only [reduceCtorEq, Phase.joining.injEq, or_false] at hp'
      omega
  | same reads handlers hs =>
    subst hs
    rw [reads] at hreads
    rw [handlers] at hhandlers
    refine ⟨hreads, hhandlers, fun hp => ?_, fun hp => ?_, h.joins⟩
    · rw [failedReads_none reads]
      exact h.readWait hp
    · rw [failedHandlers_none handlers]
      exact h.retryWait hp

theorem Talk.counted (h : Talk stream o talk s) : Counted talk s := by
  induction h with
  | start =>
    refine ⟨rfl, rfl, nofun, nofun, fun attempt hp => ?_⟩
    simp only [State.start, Phase.joining.injEq, reduceCtorEq, or_false] at hp
    omega
  | reply h r k ih => exact ih.next (next_step stream o _ r k)

/-! ## The main law -/

/-- How the loop waits with settings for events. After `k` failures of its reads
or its handler in a row it waits as long as `k` asks for, which is no time at
all just if the least delay is zero. Where it waits for entries it takes time. -/
structure WaitsBy (e : EventSettings) (talk : List (Phase × Reply)) (s : State) : Prop where
  reads : s.phase = .readWait → 1 ≤ failedReads talk ∧
    s.request e.options = some (.wait (e.options.backoff.delay (failedReads talk)))
  handlers : s.phase = .retryWait → 1 ≤ failedHandlers talk ∧
    s.request e.options = some (.wait
      ((e.options.backoff.delay (failedHandlers talk)).shorter e.options.pendingRetry))
  positive_iff : ∀ delay, s.request e.options = some (.wait delay) →
    (0 < delay.nanos ↔ 0 < e.leastBackoffMs)
  blocks : ∀ block, s.request e.options = some (.read .new block) → 0 < block.nanos

/-- What the check of settings says about the waits. -/
theorem positive_of_checked {x : Settings} (h : x.problem? = none) :
    0 < x.events.blockMs ∧ 0 < x.events.pendingRetryMs ∧
      x.events.leastBackoffMs ≤ x.events.mostBackoffMs := by
  have hnone := List.find?_eq_none.1 h
  have hblock := hnone .noBlock (by decide)
  have hretry := hnone .noPendingRetry (by decide)
  have horder := hnone .backoffOrder (by decide)
  simp only [Settings.has, decide_eq_true_eq] at hblock hretry horder
  omega

/-- With settings that pass the check, the waits of a loop are positive just if
the least delay is, whatever its calls and its handler come to. -/
theorem checked_settings_wait_unless_the_least_delay_is_zero {x : Settings}
    (h : x.problem? = none) {stream : String} {talk : List (Phase × Reply)} {s : State}
    (ht : Talk stream x.events.options talk s) : WaitsBy x.events talk s := by
  obtain ⟨hblock, hretry, horder⟩ := positive_of_checked h
  have hcounted := ht.counted
  have hdelay : ∀ k, 1 ≤ k →
      (0 < (x.events.options.backoff.delay k).nanos ↔ 0 < x.events.leastBackoffMs) := by
    intro k hk
    rw [Backoff.delay_pos_iff _ hk]
    simp only [EventSettings.options, Span.ofMillis_pos_iff]
    omega
  have hread : s.phase = .readWait → s.request x.events.options
      = some (.wait (x.events.options.backoff.delay (failedReads talk))) := by
    intro hp
    rw [State.request, hp, hcounted.reads, Backoff.delay_min]
  have hhandler : s.phase = .retryWait → s.request x.events.options
      = some (.wait ((x.events.options.backoff.delay (failedHandlers talk)).shorter
          x.events.options.pendingRetry)) := by
    intro hp
    rw [State.request, hp, retryDelay, hcounted.handlers, Backoff.delay_min]
  refine ⟨fun hp => ⟨hcounted.readWait hp, hread hp⟩, fun hp => ⟨hcounted.retryWait hp, hhandler hp⟩,
    fun delay hq => ?_, fun block hq => ?_⟩
  · rcases madeIn_of_request hq with ⟨attempt, hp⟩ | hp | hp
    · rw [State.request, hp] at hq
      cases hq
      exact hdelay attempt (hcounted.joins attempt (Or.inr hp))
    · rw [hread hp] at hq
      cases hq
      exact hdelay _ (hcounted.readWait hp)
    · rw [hhandler hp] at hq
      cases hq
      have hlimit : 0 < x.events.options.pendingRetry.nanos := (Span.ofMillis_pos_iff _).2 hretry
      rw [Span.nanos_shorter, Nat.lt_min, and_iff_left hlimit]
      exact hdelay _ (hcounted.retryWait hp)
  · obtain ⟨hp, hposition⟩ := madeIn_of_request hq
    simp only [State.request, hp, State.readRequest, hposition, ReadMode.position] at hq
    cases hq
    exact (Span.ofMillis_pos_iff _).2 hblock

/-- With the usual settings a loop whose second read in a row failed waits for 0.2 s. -/
theorem a_second_failed_read_waits_twice_as_long :
    let down : Phase × Reply := (.reading, .entries (.error (.unavailable "down")))
    let talk := [(.joining 1, .created (.ok true)), down, (.readWait, .elapsed), down]
    ∃ s, Settings.usual.problem? = none ∧ Talk "s" EventSettings.usual.options talk s ∧
      s.request EventSettings.usual.options = some (.wait (Span.ofMillis 200)) ∧
      0 < (Span.ofMillis 200).nanos := by
  intro down talk
  let k : Outlook := ⟨0, false, false⟩
  have hchecked : Settings.usual.problem? = none := by decide
  have hjoined : Talk "s" EventSettings.usual.options [(.joining 1, .created (.ok true))] _ :=
    Talk.start.reply (.created (.ok true)) k
  have htalk : Talk "s" EventSettings.usual.options talk _ :=
    ((hjoined.reply (.entries (.error (.unavailable "down"))) k).reply .elapsed k).reply
      (.entries (.error (.unavailable "down"))) k
  have hwaits := checked_settings_wait_unless_the_least_delay_is_zero hchecked htalk
  have hcount : failedReads talk = 2 := rfl
  have hdelay : Settings.usual.events.options.backoff.delay 2 = Span.ofMillis 200 :=
    Span.ext (by decide)
  have hq := (hwaits.reads rfl).2
  rw [hcount, hdelay] at hq
  exact ⟨_, hchecked, htalk, hq, (hwaits.positive_iff _ hq).2 (by decide)⟩

/-- The usual settings, with a least delay of zero. -/
def eager : Settings :=
  { Settings.usual with events := { EventSettings.usual with leastBackoffMs := 0 } }

/-- Settings with a least delay of zero pass the check, and make a loop read again
and again without a wait. -/
theorem a_least_delay_of_zero_is_accepted_and_spins :
    eager.problem? = none ∧ ∃ talk s, Talk "s" eager.events.options talk s ∧
      s.phase = .readWait ∧ failedReads talk = 1 ∧
      s.request eager.events.options = some (.wait Span.zero) := by
  let k : Outlook := ⟨0, false, false⟩
  have hjoined : Talk "s" eager.events.options [(.joining 1, .created (.ok true))] _ :=
    Talk.start.reply (.created (.ok true)) k
  have hdelay : eager.events.options.backoff.delay 1 = Span.zero := Span.ext (by decide)
  refine ⟨by decide, _, _, hjoined.reply (.entries (.error (.unavailable "down"))) k, ?_, ?_, ?_⟩
  · rfl
  · rfl
  · rw [← hdelay]
    rfl

end Subscription

end LifecycleLog
