-- Reads that wait for entries, and what others do at the store meanwhile. The
-- reader looks when it is made, and then after all that is due at one moment and
-- before the clock goes on. What it knows between two looks is that nothing is new
-- to its group unless the count of entries has changed, so it misses no entry by
-- looking only then. What is due at its first moment comes after its first look.
import LifecycleLog.Proofs.Store.Crowds

namespace LifecycleLog

/-! ## The read and the others -/

/-- A read for new entries that waits. -/
structure WaitingRead where
  stream : String
  group : String
  consumer : String
  count : Nat
  block : Span
  /-- When it is made. -/
  start : Nat
  time : Timepiece

namespace WaitingRead

variable {σ : Type}

def deadline (w : WaitingRead) : Nat := w.start + w.block.nanos

/-- What the same read comes to at a moment if it may not wait. -/
def readAt (w : WaitingRead) (b : Backend σ) (moment : Nat) (x : Crowd σ) :
    Except StoreError (List Entry) × Crowd σ :=
  b.crowded.streamCall (newRead w.stream w.group w.consumer w.count Span.zero)
    (w.time.shows moment) x

def attempt (w : WaitingRead) (b : Backend σ) : Attempt (Timed (Crowd σ)) := fun t =>
  ((w.readAt b t.now t.state).1, { t with state := (w.readAt b t.now t.state).2 })

/-- What others do, each with the time from the start of the read at which
it is due. -/
def agenda (w : WaitingRead) (b : Backend σ) (others : List (Nat × Happening)) :
    Agenda (Timed (Crowd σ)) (Option (Except StoreError (List Entry) × Nat)) :=
  .ofList (others.map (fun d => (d.1, .act (fun t =>
    (none, { t with state := t.state.act b w.time t.now d.2 })))))

/-- The read, with what others do meanwhile. It reports its answer and how long
it took. -/
def errand (w : WaitingRead) (b : Backend σ) (others : List (Nat × Happening)) :
    Errand (Timed (Crowd σ)) (Option (Except StoreError (List Entry) × Nat)) :=
  .read (w.attempt b) w.block.nanos (w.agenda b others)
    (fun answer elapsed _ t => (some (answer, elapsed), t))

/-- What is left when others have done all, each when it is due. -/
def after (w : WaitingRead) (b : Backend σ) (others : List (Nat × Happening)) (x : Crowd σ) :
    Crowd σ :=
  others.foldl (fun x d => x.act b w.time (w.start + d.1) d.2) x

/-- What is left of all that is due by a time from the start. -/
def upTo (w : WaitingRead) (b : Backend σ) (others : List (Nat × Happening)) (t : Nat)
    (x : Crowd σ) : Crowd σ :=
  w.after b (others.filter (fun d => d.1 ≤ t)) x

/-- What the read reports, and what is left when all is done. It reports nothing
if it breaks off, since the clock cannot show its deadline. -/
def run (w : WaitingRead) (b : Backend σ) (others : List (Nat × Happening)) (x : Crowd σ) :
    Option (Except StoreError (List Entry) × Nat) × Crowd σ :=
  if w.deadline ≤ w.time.last then
    let (report, scene) := (w.errand b others).perform b.clock ⟨[], ⟨w.start, x⟩⟩
    (report, scene.world.state)
  else (none, w.after b others x)

end WaitingRead

/-- Something is new to the group. -/
def News {τ : Type} (unread : τ → Option Nat) (x : τ) : Prop := ∃ n, unread x = some (n + 1)

/-- How a read that waits should end. -/
structure WaitingRead.Wakes {σ : Type} (w : WaitingRead) (b : Backend σ)
    (unread : Crowd σ → Option Nat) (others : List (Nat × Happening)) (x : Crowd σ) : Prop where
  /-- Without its group it fails at once. -/
  missing : unread x = none →
    w.run b others x = (some (.error (.noSuchGroup w.stream w.group), 0), w.after b others x)
  /-- It does not wait for what is there, nor for more that is due at once. -/
  atOnce : News unread x → w.run b others x
    = (some ((w.readAt b w.start x).1, 0), w.after b others (w.readAt b w.start x).2)
  /-- It returns nothing at once if it may not wait. -/
  idle : (unread x).isSome → ¬ News unread x → w.block.nanos = 0 →
    w.run b others x = (some (.ok [], 0), w.after b others x)
  /-- It ends at the first moment at which something is new to the group after
  all that is due by then, and does what a read without a wait does at that
  moment. -/
  woken : (unread x).isSome → ¬ News unread x → 0 < w.block.nanos → ∀ t ≤ w.block.nanos,
    let x' := w.upTo b others t x
    News unread x' → (∀ t' < t, ¬ News unread (w.upTo b others t' x)) →
    w.run b others x = (some ((w.readAt b (w.start + t) x').1, t),
      w.after b (others.filter (fun d => t < d.1)) (w.readAt b (w.start + t) x').2)
  /-- If there is no such moment up to its deadline, it returns nothing at its
  deadline, and does nothing. -/
  inVain : (unread x).isSome → ¬ News unread x → 0 < w.block.nanos →
    (∀ t ≤ w.block.nanos, ¬ News unread (w.upTo b others t x)) →
    w.run b others x = (some (.ok [], w.block.nanos), w.after b others x)

/-! ## Looks -/

namespace WaitingRead

/-- What the reader relies on. -/
abbrev Served {σ : Type} (w : WaitingRead) (b : Backend σ) (unread : Crowd σ → Option Nat)
    (Room : List (Nat × Happening) → Crowd σ → Prop) : Prop :=
  b.crowded.Announces (Crowd.act b w.time) w.stream w.group unread Room

section Looks

variable {σ : Type} {w : WaitingRead} {b : Backend σ} {unread : Crowd σ → Option Nat}
  {Room : List (Nat × Happening) → Crowd σ → Prop} {todo : List (Nat × Happening)} {s s' : Crowd σ}
  {now : Nat} {r r' : Reading (Timed (Crowd σ))}

theorem look_answered {a : Except StoreError (List Entry) × Nat} (ha : r.answer = some a)
    (x : Timed (Crowd σ)) : r.look b.clock x = (r, x) := by
  unfold Reading.look
  rw [ha]

theorem look_unanswered (ha : r.answer = none) (now : Nat) (s : Crowd σ) :
    r.look b.clock ⟨now, s⟩ =
      let y := r.vigil.look b.clock.appended r.attempt now ⟨now, s⟩
      ({ r with vigil := y.2.1, answer := y.1.map (fun a => (a, min now y.2.1.deadline)) },
        y.2.2) := by
  unfold Reading.look
  rw [ha]
  rfl

/-- What a look comes to at a moment: the answer and the moment that goes with
it, and the state; `none` if the reader goes on waiting. -/
def verdict (w : WaitingRead) (b : Backend σ) (unread : Crowd σ → Option Nat) (now : Nat)
    (s : Crowd σ) : Option ((Except StoreError (List Entry) × Nat) × Crowd σ) :=
  if w.deadline < now then some ((.ok [], w.deadline), s)
  else
    match unread s with
    | some (_ + 1) => some (((w.readAt b now s).1, now), (w.readAt b now s).2)
    | _ => if now = w.deadline then some ((.ok [], w.deadline), s) else none

theorem verdict_late (h : w.deadline < now) :
    w.verdict b unread now s = some ((.ok [], w.deadline), s) := if_pos h

theorem verdict_news (hnow : now ≤ w.deadline) (h : News unread s) : w.verdict b unread now s =
    some (((w.readAt b now s).1, now), (w.readAt b now s).2) := by
  obtain ⟨n, hn⟩ := h
  simp only [verdict, if_neg (Nat.not_lt.2 hnow), hn]

theorem verdict_quiet (hnow : now ≤ w.deadline) (h : ¬ News unread s) :
    w.verdict b unread now s
      = if now = w.deadline then some ((.ok [], w.deadline), s) else none := by
  rw [verdict, if_neg (Nat.not_lt.2 hnow)]
  split
  · rename_i n hn
    exact absurd ⟨n, hn⟩ h
  · rfl

theorem verdict_eq_none (h : w.verdict b unread now s = none) :
    now < w.deadline ∧ ¬ News unread s := by
  rcases Nat.lt_or_ge w.deadline now with hlate | hnow
  · rw [verdict_late hlate] at h
    cases h
  · by_cases hnews : News unread s
    · rw [verdict_news hnow hnews] at h
      cases h
    · rw [verdict_quiet hnow hnews] at h
      refine ⟨Nat.lt_of_le_of_ne hnow fun heq => ?_, hnews⟩
      rw [if_pos heq] at h
      cases h

/-- A reader that has no answer yet. If it knows the count of entries, then
nothing is new to its group. -/
structure Waits (w : WaitingRead) (b : Backend σ) (unread : Crowd σ → Option Nat)
    (r : Reading (Timed (Crowd σ))) (s : Crowd σ) : Prop where
  attempt : r.attempt = w.attempt b
  answer : r.answer = none
  deadline : r.vigil.deadline = w.deadline
  there : (unread s).isSome
  seen : ∀ k, r.vigil.seen = some k →
    k ≤ b.crowded.entryCount s ∧ (k = b.crowded.entryCount s → unread s = some 0)

/-- A reader has looked at a moment at which the state was `s`; now it is `s'`. -/
def Looked (w : WaitingRead) (b : Backend σ) (unread : Crowd σ → Option Nat) (now : Nat)
    (s : Crowd σ) (r : Reading (Timed (Crowd σ))) (s' : Crowd σ) : Prop :=
  match w.verdict b unread now s with
  | some (a, t) => r.answer = some a ∧ s' = t
  | none => w.Waits b unread r s ∧ s' = s

theorem Waits.fresh (h : w.Waits b unread r s) (fresh : Bool) :
    w.Waits b unread { r with fresh } s := ⟨h.attempt, h.answer, h.deadline, h.there, h.seen⟩

/-- What another does changes nothing about what the reader knows. -/
theorem Waits.others (hb : w.Served b unread Room) {x : Nat × Happening}
    (hroom : Room (x :: todo) s) (h : w.Waits b unread r s) (t : Nat) : w.Waits b unread r (s.act b w.time t x.2) := by
  have hdisclosed := hb.discloses t hroom
  have hcounted := hdisclosed.counted
  obtain ⟨n, hn⟩ := Option.isSome_iff_exists.1 h.there
  obtain ⟨n', hn', hle⟩ := hdisclosed.kept hn
  refine ⟨h.attempt, h.answer, h.deadline, Option.isSome_iff_exists.2 ⟨n', hn'⟩, fun k hk => ?_⟩
  obtain ⟨hcount, hquiet⟩ := h.seen k hk
  refine ⟨by omega, fun heq => ?_⟩
  have hzero : some n = some 0 := hn ▸ hquiet (by omega)
  cases hzero
  rw [hn', Nat.le_zero.1 (hle (by omega))]

theorem not_news_of_zero (h : unread s = some 0) : ¬ News unread s := by
  rintro ⟨n, hn⟩
  cases h.symm.trans hn

/-- What a reader does that finds nothing. -/
theorem Waits.nothing (h : w.Waits b unread r s) (hnow : now ≤ w.deadline)
    (hzero : unread s = some 0) {seen : Option Nat}
    (hseen : ∀ k, seen = some k →
      k ≤ b.crowded.entryCount s ∧ (k = b.crowded.entryCount s → unread s = some 0)) :
    w.Looked b unread now s { r with
      vigil := { r.vigil with seen }
      answer := (r.vigil.nothing now).map (fun a => (a, min now r.vigil.deadline)) } s := by
  rw [Looked, verdict_quiet hnow (not_news_of_zero hzero), Vigil.nothing, h.deadline]
  by_cases hend : now = w.deadline
  · rw [if_pos hend, if_pos (Nat.le_of_eq hend.symm)]
    refine ⟨?_, rfl⟩
    rw [hend, Nat.min_self]
    rfl
  · rw [if_neg hend, if_neg (by omega)]
    exact ⟨⟨h.attempt, rfl, h.deadline, h.there, hseen⟩, rfl⟩

theorem Waits.look (hb : w.Served b unread Room) (hcount : 1 ≤ w.count)
    (hroom : Room todo s) (h : w.Waits b unread r s) (now : Nat) : ∃ r' s',
      r.look b.clock ⟨now, s⟩ = (r', ⟨now, s'⟩) ∧ w.Looked b unread now s r' s' := by
  rw [look_unanswered h.answer]
  rcases Nat.lt_or_ge w.deadline now with hlate | hnow
  · rw [Vigil.look_idle (Or.inl (h.deadline ▸ hlate))]
    refine ⟨_, _, rfl, ?_⟩
    rw [Looked, verdict_late hlate]
    simp [Vigil.nothing, h.deadline, Nat.le_of_lt hlate]
  · have hnow' : now ≤ r.vigil.deadline := h.deadline ▸ hnow
    by_cases hseen : r.vigil.seen = some (b.clock.appended ⟨now, s⟩)
    · rw [Vigil.look_idle (Or.inr hseen)]
      exact ⟨_, _, rfl, h.nothing hnow ((h.seen _ hseen).2 rfl) h.seen⟩
    · obtain ⟨n, hn⟩ := Option.isSome_iff_exists.1 h.there
      cases n with
      | zero =>
        have hempty : w.readAt b now s = (.ok [], s) :=
          hb.nothing w.consumer w.count (w.time.shows now) Span.zero hn
        have hattempt : r.attempt ⟨now, s⟩ = (.ok [], ⟨now, s⟩) := by
          simp only [h.attempt, WaitingRead.attempt, hempty]
        rw [Vigil.look_empty hnow' hseen hattempt]
        refine ⟨_, _, rfl, h.nothing hnow hn fun k hk => ?_⟩
        cases hk
        exact ⟨Nat.le_refl _, fun _ => hn⟩
      | succ n =>
        obtain ⟨e, rest, hfound⟩ := hb.something w.consumer (w.time.shows now) Span.zero hroom hn
          hcount
        have hattempt : r.attempt ⟨now, s⟩
            = ((w.readAt b now s).1, ⟨now, (w.readAt b now s).2⟩) := by
          simp only [h.attempt, WaitingRead.attempt]
        have hne : (w.readAt b now s).1 ≠ .ok [] := fun hempty => nomatch hfound.symm.trans hempty
        rw [Vigil.look_found hnow' hseen hattempt hne]
        refine ⟨_, _, rfl, ?_⟩
        rw [Looked, verdict_news hnow ⟨n, hn⟩]
        simp only [Option.map_some, h.deadline, Nat.min_eq_left hnow, and_self]

/-- A second look at the same moment changes nothing. -/
theorem Looked.again (hb : w.Served b unread Room) (hcount : 1 ≤ w.count)
    (hroom : Room todo s) (h : w.Looked b unread now s r s') : ∃ r' s'',
      r.look b.clock ⟨now, s'⟩ = (r', ⟨now, s''⟩) ∧ w.Looked b unread now s r' s'' := by
  unfold Looked at *
  split at h
  · exact ⟨r, s', look_answered h.1 _, h⟩
  · rename_i hv
    obtain ⟨hwaits, rfl⟩ := h
    obtain ⟨r', s'', hlook, hlooked⟩ := hwaits.look hb hcount hroom now
    rw [Looked, hv] at hlooked
    exact ⟨r', s'', hlook, hlooked⟩

theorem Looked.fresh (h : w.Looked b unread now s r s') (fresh : Bool) :
    w.Looked b unread now s { r with fresh } s' := by
  unfold Looked at *
  split at h
  · exact h
  · exact ⟨h.1.fresh fresh, h.2⟩

end Looks

/-! ## Rounds -/

section Rounds

variable {σ : Type} {w : WaitingRead} {b : Backend σ} {unread : Crowd σ → Option Nat}
  {Room : List (Nat × Happening) → Crowd σ → Prop} {todo : List (Nat × Happening)} {s s' : Crowd σ}
  {now : Nat} {r r' : Reading (Timed (Crowd σ))} {x : Timed (Crowd σ)}
  {a : Except StoreError (List Entry) × Nat}

theorem endRound_fresh (hfresh : r.fresh = true) :
    Scene.endRound b.clock ⟨[r], x⟩ = ⟨[{ r with fresh := false }], x⟩ := by
  simp [Scene.endRound, Reading.takeTurns, hfresh, Backend.clock, Timed.clock]

theorem endRound_stale (hfresh : r.fresh = false) :
    Scene.endRound b.clock ⟨[r], x⟩ = ⟨[{ (r.look b.clock x).1 with fresh := false }],
      (r.look b.clock x).2⟩ := by
  simp [Scene.endRound, Reading.takeTurns, hfresh, Backend.clock, Timed.clock]

theorem endRound_answered (ha : r.answer = some a) : ∃ r',
    Scene.endRound b.clock ⟨[r], x⟩ = ⟨[r'], x⟩ ∧ r'.answer = some a := by
  cases hfresh : r.fresh with
  | true => exact ⟨_, endRound_fresh hfresh, ha⟩
  | false =>
    rw [endRound_stale hfresh, look_answered ha]
    exact ⟨_, rfl, ha⟩

theorem sleepUntil_of_le {scene : Scene (Timed (Crowd σ))} {moment : Nat}
    (h : moment ≤ scene.world.now) : scene.sleepUntil b.clock moment = scene := if_pos h

theorem sleepUntil_of_lt {scene : Scene (Timed (Crowd σ))} {moment : Nat}
    (h : scene.world.now < moment) : scene.sleepUntil b.clock moment =
      let y := (scene.endRound b.clock).endRound b.clock
      ⟨y.readings, { y.world with now := moment }⟩ := if_neg (Nat.not_le.2 h)

theorem sleepUntil_answered (ha : r.answer = some a) (moment : Nat) : ∃ r',
    Scene.sleepUntil b.clock moment ⟨[r], x⟩ = ⟨[r'], { x with now := max x.now moment }⟩ ∧
      r'.answer = some a := by
  rcases Nat.lt_or_ge x.now moment with hlt | hle
  · obtain ⟨r₁, h₁, ha₁⟩ := endRound_answered (b := b) (x := x) ha
    obtain ⟨r₂, h₂, ha₂⟩ := endRound_answered (b := b) (x := x) ha₁
    rw [sleepUntil_of_lt hlt, h₁, h₂, Nat.max_eq_right (Nat.le_of_lt hlt)]
    exact ⟨r₂, rfl, ha₂⟩
  · rw [sleepUntil_of_le hle, Nat.max_eq_left hle]
    exact ⟨r, rfl, ha⟩

/-- A reader has its turn in one of two rounds, also if it has just begun. -/
theorem Waits.rounds (hb : w.Served b unread Room) (hcount : 1 ≤ w.count)
    (hroom : Room todo s) (h : w.Waits b unread r s) (now : Nat) : ∃ r' s',
      Scene.endRound b.clock (Scene.endRound b.clock ⟨[r], ⟨now, s⟩⟩)
        = ⟨[r'], ⟨now, s'⟩⟩ ∧ w.Looked b unread now s r' s' := by
  cases hfresh : r.fresh with
  | true =>
    obtain ⟨r', s', hlook, hlooked⟩ := (h.fresh false).look hb hcount hroom now
    rw [endRound_fresh hfresh, endRound_stale rfl, hlook]
    exact ⟨_, _, rfl, hlooked.fresh false⟩
  | false =>
    obtain ⟨r₁, s₁, hlook₁, hlooked₁⟩ := h.look hb hcount hroom now
    obtain ⟨r₂, s₂, hlook₂, hlooked₂⟩ := (hlooked₁.fresh false).again hb hcount hroom
    rw [endRound_stale hfresh, hlook₁, endRound_stale rfl, hlook₂]
    exact ⟨_, _, rfl, hlooked₂.fresh false⟩

/-- Before the clock goes on, the reader looks. -/
theorem Waits.sleepUntil (hb : w.Served b unread Room) (hcount : 1 ≤ w.count)
    (hroom : Room todo s) (h : w.Waits b unread r s) {moment : Nat} (hmoment : now < moment) :
    ∃ r' s', Scene.sleepUntil b.clock moment ⟨[r], ⟨now, s⟩⟩ = ⟨[r'], ⟨moment, s'⟩⟩ ∧
      w.Looked b unread now s r' s' := by
  obtain ⟨r', s', hrounds, hlooked⟩ := h.rounds hb hcount hroom now
  refine ⟨r', s', ?_, hlooked⟩
  rw [sleepUntil_of_lt hmoment, hrounds]

theorem lookLatest_one : Scene.lookLatest b.clock ⟨[r], x⟩
    = ⟨[(r.look b.clock x).1], (r.look b.clock x).2⟩ := rfl

theorem awaitLatest_answered (ha : r.answer = some a) :
    Scene.awaitLatest b.clock w.deadline ⟨[r], x⟩ = ⟨[r], x⟩ :=
  if_pos (by simp [Scene.answer?, ha])

theorem awaitLatest_unanswered (ha : r.answer = none) :
    Scene.awaitLatest b.clock w.deadline ⟨[r], x⟩ =
      let y := (if r.fresh then Scene.endRound b.clock ⟨[r], x⟩ else ⟨[r], x⟩).lookLatest
        b.clock
      if y.answer?.isSome then y
      else (y.sleepUntil b.clock w.deadline).lookLatest b.clock :=
  if_neg (by simp [Scene.answer?, ha])

/-- The look at the end of the agenda. -/
theorem Waits.lastTurn (hb : w.Served b unread Room) (hcount : 1 ≤ w.count)
    (hroom : Room todo s) (h : w.Waits b unread r s) (now : Nat) : ∃ r' s',
      (if r.fresh then Scene.endRound b.clock ⟨[r], ⟨now, s⟩⟩
        else ⟨[r], ⟨now, s⟩⟩).lookLatest b.clock = ⟨[r'], ⟨now, s'⟩⟩ ∧
      w.Looked b unread now s r' s' := by
  cases hfresh : r.fresh with
  | true =>
    obtain ⟨r', s', hlook, hlooked⟩ := (h.fresh false).look hb hcount hroom now
    rw [if_pos rfl, endRound_fresh hfresh, lookLatest_one, hlook]
    exact ⟨r', s', rfl, hlooked⟩
  | false =>
    obtain ⟨r', s', hlook, hlooked⟩ := h.look hb hcount hroom now
    rw [if_neg (by simp), lookLatest_one, hlook]
    exact ⟨r', s', rfl, hlooked⟩

/-- At the end of the agenda the reader looks, and once more at its deadline. -/
theorem Waits.awaitLatest (hb : w.Served b unread Room) (hcount : 1 ≤ w.count)
    (hroom : Room todo s) (h : w.Waits b unread r s) (now : Nat) :
    let scene := Scene.awaitLatest b.clock w.deadline ⟨[r], ⟨now, s⟩⟩
    let v := (w.verdict b unread now s).getD ((.ok [], w.deadline), s)
    scene.answer? = some v.1 ∧ scene.world.state = v.2 := by
  obtain ⟨r₁, s₁, h₁, hlooked₁⟩ := h.lastTurn hb hcount hroom now
  rw [awaitLatest_unanswered h.answer, h₁]
  unfold Looked at hlooked₁
  cases hv : w.verdict b unread now s with
  | some v =>
    rw [hv] at hlooked₁
    obtain ⟨ha, rfl⟩ := hlooked₁
    have hanswer : (⟨[r₁], ⟨now, v.2⟩⟩ : Scene (Timed (Crowd σ))).answer? = some v.1 := ha
    simp [hanswer]
  | none =>
    rw [hv] at hlooked₁
    obtain ⟨hwaits, hs₁⟩ := hlooked₁
    subst s₁
    obtain ⟨hlt, hquiet⟩ := verdict_eq_none hv
    obtain ⟨r₂, s₂, h₂, hlooked₂⟩ := hwaits.sleepUntil hb hcount hroom hlt
    rw [Looked, hv] at hlooked₂
    obtain ⟨hwaits₂, hs₂⟩ := hlooked₂
    subst s₂
    obtain ⟨r₃, s₃, h₃, hlooked₃⟩ := hwaits₂.look hb hcount hroom w.deadline
    rw [Looked, verdict_quiet (Nat.le_refl _) hquiet, if_pos rfl] at hlooked₃
    obtain ⟨ha, hs₃⟩ := hlooked₃
    subst s₃
    have hnone : (⟨[r₁], ⟨now, s⟩⟩ : Scene (Timed (Crowd σ))).answer?.isSome ≠ true := by
      simp [Scene.answer?, hwaits.answer]
    simp only [if_neg hnone, h₂, lookLatest_one, h₃]
    exact ⟨ha, rfl⟩

end Rounds

/-! ## Agendas -/

/-- The calls come in the order of their times, and none was due before `t`. -/
structure InOrder (t : Nat) (others : List (Nat × Happening)) : Prop where
  due : ∀ x ∈ others, t ≤ x.1
  sorted : others.Pairwise (fun x y => x.1 ≤ y.1)

namespace InOrder

variable {t t' : Nat} {x : Nat × Happening} {others rest : List (Nat × Happening)}

theorem head (h : InOrder t (x :: rest)) : t ≤ x.1 := h.due x List.mem_cons_self

theorem tail (h : InOrder t (x :: rest)) : InOrder x.1 rest :=
  ⟨(List.pairwise_cons.1 h.sorted).1, (List.pairwise_cons.1 h.sorted).2⟩

theorem filter_le (h : InOrder t others) (ht : t' < t) :
    others.filter (fun x => x.1 ≤ t') = [] := by
  refine List.filter_eq_nil_iff.2 fun x hx => ?_
  have := h.due x hx
  simp only [decide_eq_true_eq]
  omega

theorem filter_lt (h : InOrder t others) (ht : t' < t) :
    others.filter (fun x => t' < x.1) = others := by
  refine List.filter_eq_self.2 fun x hx => ?_
  have := h.due x hx
  simp only [decide_eq_true_eq]
  omega

theorem of_head (h : InOrder t (x :: rest)) : InOrder x.1 (x :: rest) := by
  refine ⟨fun y hy => ?_, h.sorted⟩
  rcases List.mem_cons.1 hy with rfl | hy
  · exact Nat.le_refl _
  · exact h.tail.due y hy

end InOrder

section Agendas

variable {σ : Type} {w : WaitingRead} {b : Backend σ} {unread : Crowd σ → Option Nat}
  {Room : List (Nat × Happening) → Crowd σ → Prop} {others rest : List (Nat × Happening)}
  {x : Nat × Happening} {s : Crowd σ} {t : Nat} {r : Reading (Timed (Crowd σ))} {a : Except StoreError (List Entry) × Nat}

/-- What becomes of a scene while others make their calls. -/
def scene (w : WaitingRead) (b : Backend σ) (others : List (Nat × Happening))
    (y : Scene (Timed (Crowd σ))) : Scene (Timed (Crowd σ)) :=
  ((w.agenda b others).perform b.clock w.start y).2

theorem scene_cons (y : Scene (Timed (Crowd σ))) : w.scene b (x :: rest) y =
    let z := y.sleepUntil b.clock (w.start + x.1)
    w.scene b rest ⟨z.readings,
      { z.world with state := z.world.state.act b w.time z.world.now x.2 }⟩ := by
  simp only [scene, agenda, List.map_cons, Agenda.ofList, Agenda.perform, Errand.perform]

/-- A reader that has its answer takes no part. -/
theorem scene_answered (ha : r.answer = some a) (ho : InOrder t others) : ∃ r' now,
    w.scene b others ⟨[r], ⟨w.start + t, s⟩⟩ = ⟨[r'], ⟨now, w.after b others s⟩⟩ ∧
      r'.answer = some a := by
  induction others generalizing r t s with
  | nil => exact ⟨r, w.start + t, rfl, ha⟩
  | cons x rest ih =>
    obtain ⟨r₁, h₁, ha₁⟩ := sleepUntil_answered (b := b) (x := ⟨w.start + t, s⟩) ha (w.start + x.1)
    have hnow : max (w.start + t) (w.start + x.1) = w.start + x.1 :=
      Nat.max_eq_right (Nat.add_le_add_left ho.head _)
    rw [scene_cons, h₁]
    simp only [hnow]
    exact ih ha₁ ho.tail

/-- How the read ends, from `t` after its start on. -/
def ends (w : WaitingRead) (b : Backend σ) (unread : Crowd σ → Option Nat) :
    List (Nat × Happening) → (t : Nat) → Crowd σ → (Except StoreError (List Entry) × Nat) × Crowd σ
  | [], t, s => (w.verdict b unread (w.start + t) s).getD ((.ok [], w.deadline), s)
  | x :: rest, t, s =>
    match if t < x.1 then w.verdict b unread (w.start + t) s else none with
    | some (a, s') => (a, w.after b (x :: rest) s')
    | none => w.ends b unread rest x.1 (s.act b w.time (w.start + x.1) x.2)

theorem Waits.scene (hb : w.Served b unread Room) (hcount : 1 ≤ w.count)
    (hroom : Room others s) (h : w.Waits b unread r s) (ho : InOrder t others) :
    let y := (w.scene b others ⟨[r], ⟨w.start + t, s⟩⟩).awaitLatest b.clock w.deadline
    y.answer? = some (w.ends b unread others t s).1 ∧
      y.world.state = (w.ends b unread others t s).2 := by
  induction others generalizing r t s with
  | nil => exact h.awaitLatest hb hcount hroom (w.start + t)
  | cons x rest ih =>
    have hrest := hb.room (w.start + x.1) hroom
    rw [scene_cons, ends]
    rcases Nat.lt_or_ge t x.1 with hlt | hle
    · obtain ⟨r', s', hsleep, hlooked⟩ :=
        h.sleepUntil hb hcount hroom (Nat.add_lt_add_left hlt w.start)
      rw [if_pos hlt, hsleep]
      unfold Looked at hlooked
      cases hv : w.verdict b unread (w.start + t) s with
      | some v =>
        rw [hv] at hlooked
        obtain ⟨ha, rfl⟩ := hlooked
        obtain ⟨r₁, now, hscene, ha₁⟩ := scene_answered (w := w) (b := b)
          (s := v.2.act b w.time (w.start + x.1) x.2) ha ho.tail
        simp only [hscene, awaitLatest_answered ha₁]
        exact ⟨ha₁, rfl⟩
      | none =>
        rw [hv] at hlooked
        obtain ⟨hwaits, rfl⟩ := hlooked
        exact ih hrest (hwaits.others hb hroom _) ho.tail
    · obtain rfl : t = x.1 := Nat.le_antisymm ho.head hle
      have hsleep : Scene.sleepUntil b.clock (w.start + x.1) ⟨[r], ⟨w.start + x.1, s⟩⟩
          = ⟨[r], ⟨w.start + x.1, s⟩⟩ := sleepUntil_of_le (Nat.le_refl _)
      rw [if_neg (Nat.lt_irrefl _), hsleep]
      exact ih hrest (h.others hb hroom _) ho.tail

/-! ## The first moment with news -/

theorem upTo_of_lt (ho : InOrder t others) {u : Nat} (hlt : u < t) : w.upTo b others u s = s := by
  rw [upTo, ho.filter_le hlt]
  rfl

theorem upTo_cons {u : Nat} (hle : x.1 ≤ u) : w.upTo b (x :: rest) u s
    = w.upTo b rest u (s.act b w.time (w.start + x.1) x.2) := by
  rw [upTo, List.filter_cons_of_pos (by simpa using hle)]
  rfl

/-- The reader is woken at the first moment with news. -/
theorem ends_woken (ho : InOrder t others) {t' : Nat} (hle : t ≤ t') (hend : t' ≤ w.block.nanos)
    (hnews : News unread (w.upTo b others t' s))
    (hfirst : ∀ u, t ≤ u → u < t' → ¬ News unread (w.upTo b others u s)) :
    let s' := w.upTo b others t' s
    w.ends b unread others t s = (((w.readAt b (w.start + t') s').1, w.start + t'),
      w.after b (others.filter (fun x => t' < x.1)) (w.readAt b (w.start + t') s').2) := by
  have hdeadline : w.start + t' ≤ w.deadline := Nat.add_le_add_left hend _
  induction others generalizing t s with
  | nil =>
    have hnow : News unread s := hnews
    obtain rfl : t = t' := by
      by_contra hne
      exact hfirst t (Nat.le_refl _) (by omega) hnow
    rw [ends, verdict_news hdeadline hnow]
    rfl
  | cons x rest ih =>
    have hgoOn (hx : x.1 ≤ t') : let s' := w.upTo b (x :: rest) t' s
        w.ends b unread rest x.1 (s.act b w.time (w.start + x.1) x.2)
          = (((w.readAt b (w.start + t') s').1, w.start + t'),
            w.after b ((x :: rest).filter (fun x => t' < x.1))
              (w.readAt b (w.start + t') s').2) := by
      rw [upTo_cons hx] at hnews
      rw [upTo_cons hx, List.filter_cons_of_neg (by simpa using hx)]
      refine ih ho.tail hx hnews fun u hu hlt => ?_
      have := hfirst u (ho.head.trans hu) hlt
      rwa [upTo_cons hu] at this
    rw [ends]
    rcases Nat.lt_or_ge t x.1 with hlt | hge
    · rw [if_pos hlt]
      by_cases hnow : News unread s
      · -- nothing was done since, so this is the first moment
        obtain rfl : t = t' := by
          by_contra hne
          refine hfirst t (Nat.le_refl _) (by omega) ?_
          rwa [upTo_of_lt ho.of_head hlt]
        rw [verdict_news hdeadline hnow, upTo_of_lt ho.of_head hlt, ho.of_head.filter_lt hlt]
      · have hx : x.1 ≤ t' := by
          by_contra hgt
          rw [upTo_of_lt ho.of_head (Nat.lt_of_not_le hgt)] at hnews
          exact hnow hnews
        rw [verdict_quiet (by omega) hnow, if_neg (by omega)]
        exact hgoOn hx
    · rw [if_neg (Nat.not_lt.2 hge)]
      exact hgoOn (hge.trans hle)

/-- Without news a look finds nothing or goes on. -/
theorem verdict_inVain (hquiet : t ≤ w.block.nanos → ¬ News unread s) :
    w.verdict b unread (w.start + t) s = some ((.ok [], w.deadline), s) ∨
      w.verdict b unread (w.start + t) s = none := by
  rcases Nat.lt_or_ge w.deadline (w.start + t) with hlate | hnow
  · exact Or.inl (verdict_late hlate)
  · rw [verdict_quiet hnow (hquiet (Nat.le_of_add_le_add_left hnow))]
    by_cases hend : w.start + t = w.deadline
    · exact Or.inl (if_pos hend)
    · exact Or.inr (if_neg hend)

/-- Without such a moment it gives up at its deadline. -/
theorem ends_inVain (ho : InOrder t others)
    (hnone : ∀ u, t ≤ u → u ≤ w.block.nanos → ¬ News unread (w.upTo b others u s)) :
    w.ends b unread others t s = ((.ok [], w.deadline), w.after b others s) := by
  induction others generalizing t s with
  | nil =>
    have hquiet : t ≤ w.block.nanos → ¬ News unread s := hnone t (Nat.le_refl _)
    rw [ends]
    rcases verdict_inVain (w := w) (b := b) hquiet with hv | hv
    · rw [hv]
      rfl
    · rw [hv]
      rfl
  | cons x rest ih =>
    have hgoOn : w.ends b unread rest x.1 (s.act b w.time (w.start + x.1) x.2)
        = ((.ok [], w.deadline), w.after b (x :: rest) s) := by
      refine ih ho.tail fun u hu hend => ?_
      have := hnone u (ho.head.trans hu) hend
      rwa [upTo_cons hu] at this
    rw [ends]
    rcases Nat.lt_or_ge t x.1 with hlt | hge
    · have hquiet : t ≤ w.block.nanos → ¬ News unread s := fun hend => by
        have := hnone t (Nat.le_refl _) hend
        rwa [upTo_of_lt ho.of_head hlt] at this
      rw [if_pos hlt]
      rcases verdict_inVain (w := w) (b := b) hquiet with hv | hv
      · rw [hv]
      · rw [hv]
        exact hgoOn
    · rw [if_neg (Nat.not_lt.2 hge)]
      exact hgoOn

end Agendas

/-! ## Whole reads -/

section Whole

variable {σ : Type} {w : WaitingRead} {b : Backend σ} {unread : Crowd σ → Option Nat}
  {Room : List (Nat × Happening) → Crowd σ → Prop} {others : List (Nat × Happening)}
  {s s' : Crowd σ} {r : Reading (Timed (Crowd σ))} {a : Except StoreError (List Entry) × Nat}

/-- The reader as it begins. -/
def reader (w : WaitingRead) (b : Backend σ) : Reading (Timed (Crowd σ)) :=
  Reading.start (w.attempt b) w.deadline

theorem run_eq (hlast : w.deadline ≤ w.time.last) (others : List (Nat × Happening)) (s : Crowd σ) :
    w.run b others s =
      let first := (w.reader b).look b.clock ⟨w.start, s⟩
      let y := (w.scene b others ⟨[first.1], first.2⟩).awaitLatest b.clock w.deadline
      let a := y.answer?.getD (.ok [], w.deadline)
      (some (a.1, a.2 - w.start), y.world.state) := if_pos hlast

theorem run_answered (hlast : w.deadline ≤ w.time.last)
    (h : (w.reader b).look b.clock ⟨w.start, s⟩ = (r, ⟨w.start, s'⟩))
    (ha : r.answer = some a) (ho : InOrder 0 others) :
    w.run b others s = (some (a.1, a.2 - w.start), w.after b others s') := by
  obtain ⟨r', now, hscene, ha'⟩ := scene_answered (w := w) (b := b) (s := s') ha ho
  have hanswer : (⟨[r'], ⟨now, w.after b others s'⟩⟩ : Scene (Timed (Crowd σ))).answer? = some a :=
    ha'
  rw [Nat.add_zero] at hscene
  simp only [run_eq hlast, h, hscene, awaitLatest_answered ha', hanswer, Option.getD_some]

theorem waits_reader (h : (unread s).isSome) : w.Waits b unread (w.reader b) s :=
  ⟨rfl, rfl, rfl, h, fun _ hk => nomatch hk⟩

/-- A read that finds nothing at first goes on as its agenda has it. -/
theorem run_waiting (hb : w.Served b unread Room) (hlast : w.deadline ≤ w.time.last)
    (hcount : 1 ≤ w.count) (hroom : Room others s) (ho : InOrder 0 others)
    (h : (unread s).isSome) (hquiet : ¬ News unread s) (hblock : 0 < w.block.nanos) :
    w.run b others s = (some ((w.ends b unread others 0 s).1.1,
      (w.ends b unread others 0 s).1.2 - w.start), (w.ends b unread others 0 s).2) := by
  obtain ⟨r, s', hlook, hlooked⟩ := (waits_reader h).look hb hcount hroom w.start
  have hlt : w.start < w.deadline := Nat.lt_add_of_pos_right hblock
  rw [Looked, verdict_quiet (Nat.le_of_lt hlt) hquiet, if_neg (Nat.ne_of_lt hlt)] at hlooked
  obtain ⟨hwaits, hs⟩ := hlooked
  subst s'
  obtain ⟨hanswer, hstate⟩ := hwaits.scene hb hcount hroom ho
  rw [Nat.add_zero] at hanswer hstate
  simp only [run_eq hlast, hlook, hanswer, hstate, Option.getD_some]

theorem wakes (hb : w.Served b unread Room) (hlast : w.deadline ≤ w.time.last)
    (hcount : 1 ≤ w.count) (hroom : Room others s) (ho : InOrder 0 others) :
    w.Wakes b unread others s where
  missing h := by
    have hmissing : w.readAt b w.start s = (.error (.noSuchGroup w.stream w.group), s) :=
      hb.missing w.consumer w.count (w.time.shows w.start) Span.zero h
    have hattempt : (w.reader b).attempt ⟨w.start, s⟩
        = (.error (.noSuchGroup w.stream w.group), ⟨w.start, s⟩) := by
      simp only [reader, Reading.start, attempt, hmissing]
    have hle : w.start ≤ w.deadline := Nat.le_add_right _ _
    have hlook := look_unanswered (b := b) (r := w.reader b) rfl w.start s
    rw [Vigil.look_found hle (Option.some_ne_none _).symm hattempt nofun] at hlook
    rw [run_answered hlast hlook rfl ho]
    simp only [reader, Reading.start, Nat.min_eq_left hle, Nat.sub_self]
  atOnce h := by
    have hthere : (unread s).isSome := by
      obtain ⟨n, hn⟩ := h
      rw [hn]
      rfl
    obtain ⟨r, s', hlook, hlooked⟩ := (waits_reader hthere).look hb hcount hroom w.start
    rw [Looked, verdict_news (Nat.le_add_right _ _) h] at hlooked
    obtain ⟨ha, rfl⟩ := hlooked
    rw [run_answered hlast hlook ha ho, Nat.sub_self]
  idle h hquiet hzero := by
    obtain ⟨r, s', hlook, hlooked⟩ := (waits_reader h).look hb hcount hroom w.start
    have hend : w.start = w.deadline := by rw [deadline, hzero, Nat.add_zero]
    rw [Looked, verdict_quiet (Nat.le_of_eq hend) hquiet, if_pos hend] at hlooked
    obtain ⟨ha, rfl⟩ := hlooked
    rw [run_answered hlast hlook ha ho, ← hend, Nat.sub_self]
  woken h hquiet hblock t ht := by
    intro s' hnews hfirst
    have hends := ends_woken ho (Nat.zero_le t) ht hnews fun u _ => hfirst u
    rw [run_waiting hb hlast hcount hroom ho h hquiet hblock, hends, Nat.add_sub_cancel_left]
  inVain h hquiet hblock hnever := by
    have hends := ends_inVain ho fun u _ => hnever u
    rw [run_waiting hb hlast hcount hroom ho h hquiet hblock, hends, deadline,
      Nat.add_sub_cancel_left]

end Whole

end WaitingRead

/-! ## The main law -/

/-- No wake-up is missed by a read whose deadline the clock can show, whatever
others do while it waits, at whichever times, and whoever else waits: in a nested
store from any state on, and in a flat store from any state that calls lead to,
as long as its ids last. -/
theorem a_waiting_read_misses_no_wake_up (w : WaitingRead) {others : List (Nat × Happening)}
    (hcount : 1 ≤ w.count) (hlast : w.deadline ≤ w.time.last)
    (hsorted : others.Pairwise (fun x y => x.1 ≤ y.1)) :
    (∀ x, w.Wakes Nested.backend (fun x => x.state.unread w.stream w.group) others x) ∧
      ∀ calls waiting, Flat.Room (calls ++ Happening.calls others) →
        w.Wakes Flat.backend (fun x => x.state.unread w.stream w.group) others
          ⟨Flat.backend.after calls, waiting⟩ := by
  have ho : WaitingRead.InOrder 0 others := ⟨fun _ _ => Nat.zero_le _, hsorted⟩
  have hnested := (Nested.announces w.stream w.group).crowded (fun _ => Iff.rfl) w.time
  have hflat := (Flat.announces w.stream w.group).crowded Flat.roomFor_cons_iff w.time
  exact ⟨fun x => WaitingRead.wakes hnested hlast hcount trivial ho, fun calls waiting hroom =>
    WaitingRead.wakes hflat hlast hcount (Flat.roomFor_after hroom) ho⟩

/-- Another consumer waits too, and takes the first entry at the moment at which
it comes. The second one comes at the deadline of the read, which returns it. -/
theorem a_read_is_woken_at_its_deadline :
    let w : WaitingRead := ⟨"s", "g", "c", 10, Span.ofNanos 8, 5, ⟨id, 100⟩⟩
    let calls : List (Nat × Call) := [(0, .stream (.createGroup "s" "g" .beginning))]
    let others : List (Nat × Happening) :=
      [(0, .call (.stream (newRead "s" "g" "d" 10 (Span.ofNanos 20)))),
        (1, .call (.stream (.append "t" ∅))), (1, .turn 0), (3, .call (.stream (.append "s" ∅))),
        (3, .turn 0), (8, .call (.stream (.append "s" ∅))), (9, .call (.stream (.append "s" ∅)))]
    1 ≤ w.count ∧ w.deadline ≤ w.time.last ∧ others.Pairwise (fun x y => x.1 ≤ y.1) ∧
      Flat.Room (calls ++ Happening.calls others) ∧
      (w.run Flat.backend others ⟨Flat.backend.after calls, []⟩).1 = some (.ok [⟨2, ∅, 1⟩], 8) := by
  intro w calls others
  let x : Crowd Flat.Store := ⟨Flat.backend.after calls, []⟩
  have hcount : 1 ≤ w.count := by decide
  have hlast : w.deadline ≤ w.time.last := by decide
  have hsorted : others.Pairwise (fun x y => x.1 ≤ y.1) := by decide
  have hroom : Flat.Room (calls ++ Happening.calls others) := by
    intro stream
    simp only [calls, others, Happening.calls, List.filterMap_cons, List.filterMap_nil,
      List.cons_append, List.nil_append, List.flatMap_cons, List.flatMap_nil, Call.adds,
      StreamCall.adds]
    split <;> split <;> simp [Flat.maxId, UInt64.size]
  have hnone : ∀ t ≤ 7, (w.upTo Flat.backend others t x).state.unread "s" "g" = some 0 := by
    decide +kernel
  have hnews : (w.upTo Flat.backend others 8 x).state.unread "s" "g" = some 1 := by
    decide +kernel
  have hwakes := (a_waiting_read_misses_no_wake_up w hcount hlast hsorted).2 calls [] hroom
  have hrun := hwakes.woken rfl (WaitingRead.not_news_of_zero rfl) (by decide) 8 (by decide)
    ⟨0, hnews⟩ fun t ht => WaitingRead.not_news_of_zero (hnone t (Nat.le_of_lt_succ ht))
  have hread : (w.readAt Flat.backend (w.start + 8) (w.upTo Flat.backend others 8 x)).1
      = .ok [⟨2, ∅, 1⟩] := by
    decide +kernel
  refine ⟨hcount, hlast, hsorted, hroom, ?_⟩
  rw [hrun, hread]

/-- What is due at the first moment comes after the first look. A read that finds
an entry does not return the one that is appended at once, and a read that may not
wait returns nothing, not even an entry that is appended at once. And with a
deadline that the clock cannot show there is no answer at all. -/
theorem what_is_due_at_once_comes_after_the_first_look :
    let b := Nested.backend
    let read (block last : Nat) : WaitingRead :=
      ⟨"s", "g", "c", 10, Span.ofNanos block, 5, ⟨id, last⟩⟩
    let others : List (Nat × Happening) := [(0, .call (.stream (.append "s" ∅)))]
    let create : Call := .stream (.createGroup "s" "g" .beginning)
    let drained : Crowd Nested.Store := ⟨b.after [(0, create)], []⟩
    let pending : Crowd Nested.Store := (read 8 100).upTo b others 0 drained
    (((read 8 100).readAt b 5 ((read 8 100).upTo b others 0 pending)).1
          = .ok [⟨1, ∅, 1⟩, ⟨2, ∅, 1⟩] ∧
        ((read 8 100).run b others pending).1 = some (.ok [⟨1, ∅, 1⟩], 0)) ∧
      (((read 0 100).readAt b 5 ((read 0 100).upTo b others 0 drained)).1 = .ok [⟨1, ∅, 1⟩] ∧
        ((read 0 100).run b others drained).1 = some (.ok [], 0)) ∧
      ((read 8 12).readAt b 5 ((read 8 12).upTo b others 0 drained)).1 = .ok [⟨1, ∅, 1⟩] ∧
        ((read 8 12).run b others drained).1 = none := by
  decide +kernel

end LifecycleLog
