-- Others at a store. They make calls, and those that read for new entries and
-- find none wait at the store, each until its turn comes at which it finds some
-- or gives up. Turns come in any order. Whatever others do is one call on the
-- store at most, so it discloses what it brings as a call does.
import LifecycleLog.Errand
import LifecycleLog.Proofs.Store.Unread

namespace LifecycleLog

/-! ## Looks -/

namespace Vigil

variable {ω : Type} {v : Vigil} {appended : ω → Nat} {attempt : Attempt ω} {now : Nat} {x : ω}

/-- A reader that is late, or that knows the count, does not try. -/
theorem look_idle (h : v.deadline < now ∨ v.seen = some (appended x)) :
    v.look appended attempt now x = (v.nothing now, v, x) := by
  unfold look
  rw [if_pos (by simpa using h)]

theorem look_empty {y : ω} (hnow : now ≤ v.deadline) (hseen : v.seen ≠ some (appended x))
    (h : attempt x = (.ok [], y)) : v.look appended attempt now x =
      (v.nothing now, { v with seen := some (appended y) }, y) := by
  unfold look
  rw [if_neg (by simp [hseen, hnow]), h]

theorem look_found {y : ω} {answer : Except StoreError (List Entry)} (hnow : now ≤ v.deadline)
    (hseen : v.seen ≠ some (appended x)) (h : attempt x = (answer, y)) (hne : answer ≠ .ok []) :
    v.look appended attempt now x = (some answer, v, y) := by
  unfold look
  rw [if_neg (by simp [hseen, hnow]), h]
  split
  · rename_i y' heq
    cases heq
    exact absurd rfl hne
  · rename_i answer' y' _ heq
    cases heq
    rfl

/-- A look leaves the world as it is or as one try leaves it. -/
theorem world_look (v : Vigil) (appended : ω → Nat) (attempt : Attempt ω) (now : Nat) (x : ω) :
    (v.look appended attempt now x).2.2 = x ∨
      (v.look appended attempt now x).2.2 = (attempt x).2 := by
  unfold look
  split
  · exact Or.inl rfl
  · split
    · rename_i h
      exact Or.inr (congrArg Prod.snd h.symm)
    · rename_i h
      exact Or.inr (congrArg Prod.snd h.symm)

end Vigil

/-! ## Crowds -/

/-- How a store tells the time. -/
structure Timepiece where
  /-- What it shows at a moment. -/
  shows : Nat → Nat
  /-- The last moment that it can show. -/
  last : Nat

/-- A read for new entries that waits. -/
structure Waiter where
  stream : String
  group : String
  consumer : String
  count : Nat
  vigil : Vigil

/-- A store, and the readers that wait at it. -/
structure Crowd (σ : Type) where
  state : σ
  waiting : List Waiter

/-- What others do: one makes a call, or one that waits has its turn. -/
inductive Happening
  | call (call : Call)
  | turn (index : Nat)

/-- The calls among what others do, each with its time. -/
def Happening.calls (done : List (Nat × Happening)) : List (Nat × Call) :=
  done.filterMap (fun x => match x.2 with
    | .call c => some (x.1, c)
    | .turn _ => none)

namespace Crowd

variable {σ : Type} (b : Backend σ) (time : Timepiece)

/-- Lets a reader look. It goes on waiting unless it has its answer. -/
def look (now : Nat) (r : Waiter) (s : σ) : Option Waiter × σ :=
  let attempt : Attempt σ :=
    b.streamCall (newRead r.stream r.group r.consumer r.count Span.zero) (time.shows now)
  match r.vigil.look b.entryCount attempt now s with
  | (some _, _, s') => (none, s')
  | (none, vigil, s') => (some { r with vigil }, s')

/-- Makes a call. A read for new entries looks at once, and waits if it has no
answer yet; it breaks off before that if the clock cannot show its deadline. -/
def call (now : Nat) : Call → Crowd σ → Crowd σ
  | .stream (.readGroup stream group consumer .new count block), x =>
    if now + block.nanos ≤ time.last then
      let r : Waiter := ⟨stream, group, consumer, count, ⟨now + block.nanos, none⟩⟩
      let (waits, s) := look b time now r x.state
      ⟨s, x.waiting ++ waits.toList⟩
    else x
  | c, x => { x with state := b.leaves (time.shows now) c x.state }

/-- Gives one that waits its turn. -/
def turn (now index : Nat) (x : Crowd σ) : Crowd σ :=
  match x.waiting[index]? with
  | none => x
  | some r =>
    let (waits, s) := look b time now r x.state
    ⟨s, x.waiting.take index ++ waits.toList ++ x.waiting.drop (index + 1)⟩

def act (now : Nat) : Happening → Crowd σ → Crowd σ
  | .call c => call b time now c
  | .turn index => turn b time now index

end Crowd

/-- The store answers calls whoever waits at it. -/
def Backend.crowded {σ : Type} (b : Backend σ) : Backend (Crowd σ) where
  empty := ⟨b.empty, []⟩
  keyCall c x := ((b.keyCall c x.state).1, { x with state := (b.keyCall c x.state).2 })
  streamCall c now x :=
    ((b.streamCall c now x.state).1, { x with state := (b.streamCall c now x.state).2 })
  entryCount x := b.entryCount x.state

/-- Time at a store with its crowd. -/
abbrev Backend.clock {σ : Type} (b : Backend σ) : Clock (Timed (Crowd σ)) := Timed.clock b.crowded

/-! ## What others can do -/

namespace Crowd

variable {σ : Type} {b : Backend σ} {time : Timepiece} {now : Nat}

/-- Nothing is appended: the state stays, or it is what a call leaves. -/
def Quiet (b : Backend σ) (now : Nat) (s s' : σ) : Prop :=
  s' = s ∨ ∃ c : Call, c.appends = 0 ∧ s' = b.leaves now c s

theorem quiet_look (r : Waiter) (s : σ) : Quiet b (time.shows now) s (look b time now r s).2 := by
  have hsame : (look b time now r s).2 = (r.vigil.look b.entryCount (b.streamCall
      (newRead r.stream r.group r.consumer r.count Span.zero) (time.shows now)) now s).2.2 := by
    unfold look
    dsimp only
    split <;> simp [*]
  rw [hsame]
  refine (Vigil.world_look _ _ _ _ _).imp id fun h => ?_
  exact ⟨.stream (newRead r.stream r.group r.consumer r.count Span.zero), rfl, h⟩

theorem quiet_turn (index : Nat) (x : Crowd σ) :
    Quiet b (time.shows now) x.state (turn b time now index x).state := by
  unfold turn
  split
  · exact Or.inl rfl
  · exact quiet_look _ _

/-- A call is made of the store as it stands, unless it may wait. -/
theorem state_call (b : Backend σ) (time : Timepiece) (now : Nat) (c : Call) (x : Crowd σ) :
    (call b time now c x).state = b.leaves (time.shows now) c x.state ∨
      c.appends = 0 ∧ Quiet b (time.shows now) x.state (call b time now c x).state := by
  unfold call
  split
  · refine Or.inr ⟨rfl, ?_⟩
    split
    · exact quiet_look _ _
    · exact Or.inl rfl
  · exact Or.inl rfl

end Crowd

/-! ## Crowds announce entries -/

namespace Backend.Announces

variable {σ : Type} {b : Backend σ} {stream group : String} {unread : σ → Option Nat}
  {Room : List (Nat × Call) → σ → Prop} (h : b.Announces b.leaves stream group unread Room)
  (hspare : ∀ {x rest s}, x.2.appends = 0 → (Room (x :: rest) s ↔ Room rest s))

include h hspare

/-- Quiet changes disclose what they bring, and take no room. -/
theorem quiet {now : Nat} {s s' : σ} (hq : Crowd.Quiet b now s s') {rest : List (Nat × Call)}
    (hroom : Room rest s) : Room rest s' ∧ b.Discloses unread s s' := by
  rcases hq with rfl | ⟨c, hc, rfl⟩
  · exact ⟨hroom, .refl _⟩
  · have hroom' : Room ((now, c) :: rest) s := (hspare hc).2 hroom
    exact ⟨h.room now hroom', h.discloses now hroom'⟩

theorem act (time : Timepiece) (now : Nat) {d : Nat × Happening} {rest : List (Nat × Happening)}
    {x : Crowd σ} (hroom : Room (Happening.calls (d :: rest)) x.state) :
    Room (Happening.calls rest) (Crowd.act b time now d.2 x).state ∧
      b.Discloses unread x.state (Crowd.act b time now d.2 x).state := by
  obtain ⟨due, d⟩ := d
  cases d with
  | turn index => exact h.quiet hspare (Crowd.quiet_turn index x) hroom
  | call c =>
    rcases Crowd.state_call b time now c x with hleaves | ⟨hc, hquiet⟩
    · rw [Crowd.act, hleaves]
      exact ⟨h.room _ hroom, h.discloses _ hroom⟩
    · -- a call that may wait is not made as it stands, so it gives its room back first
      have hrest : Room (Happening.calls rest) x.state := (hspare (x := (due, c)) hc).1 hroom
      exact h.quiet hspare hquiet hrest

/-- A store that announces entries does so whoever else reads from it. -/
theorem crowded (time : Timepiece) : b.crowded.Announces (Crowd.act b time) stream group
    (fun x => unread x.state) (fun todo x => Room (Happening.calls todo) x.state) where
  room now hroom := (h.act hspare time now hroom).1
  discloses now hroom :=
    ⟨(h.act hspare time now hroom).2.counted, (h.act hspare time now hroom).2.kept⟩
  missing consumer count now block hnone := by
    simp only [Backend.crowded, h.missing consumer count now block hnone]
  nothing consumer count now block hzero := by
    simp only [Backend.crowded, h.nothing consumer count now block hzero]
  something consumer now block hroom hn hcount := h.something consumer now block hroom hn hcount

end Backend.Announces

end LifecycleLog
