-- The set-up of a group. A subscription asks for its group until it is there,
-- waits longer after each failure that may pass, and gives up after as many
-- attempts as it may make. An attempt that is reported as failed may have taken
-- effect, and others may ask for the same group: the first creation counts, and
-- all others change nothing, so no group is ever sent back to its start.
import LifecycleLog.Proofs.Store.Growth
import LifecycleLog.Proofs.Store.Trails
import LifecycleLog.Proofs.Subscription.CatchUp

namespace LifecycleLog

/-! ## Creations -/

/-- The call asks for the creation of the group. -/
def Call.creates (stream group : String) : Call → Bool
  | .stream (.createGroup name name' _) => name = stream && name' = group
  | _ => false

/-- The calls that ask for anything else. -/
def withoutCreations (stream group : String) (calls : List (Nat × Call)) : List (Nat × Call) :=
  calls.filter (fun x => !x.2.creates stream group)

theorem Call.exists_createGroup {stream group : String} {c : Call}
    (h : c.creates stream group = true) : ∃ start, c = .stream (.createGroup stream group start) := by
  cases c with
  | key c => cases h
  | stream c =>
    cases c with
    | createGroup name name' start =>
      simp only [creates, Bool.and_eq_true, decide_eq_true_eq] at h
      obtain ⟨rfl, rfl⟩ := h
      exact ⟨start, rfl⟩
    | _ => cases h

namespace Nested

variable {s before : Store} {stream group : String} {g : Group} {past : List (Nat × Call)}

/-- A group that is there stays. -/
theorem groupOf_call (hg : s.groupOf stream group = some g) (c : Call) (now : Nat) :
    ∃ g', (backend.call now c s).2.groupOf stream group = some g' := by
  cases c with
  | key c => exact ⟨g, hg⟩
  | stream c =>
    obtain ⟨g', hg', _⟩ := groupOf_onward hg c now
    exact ⟨g', hg'⟩

/-- No call but a creation brings a group about. -/
theorem groupOf_none_call (hg : s.groupOf stream group = none) {c : Call}
    (hc : c.creates stream group = false) (now : Nat) :
    (backend.call now c s).2.groupOf stream group = none := by
  cases c with
  | key c => exact hg
  | stream c =>
    by_cases htarget : c.target = some (stream, group)
    · have hsame : (streamCall c now s).2 = s := by
        cases c with
        | append name fields => cases htarget
        | createGroup name name' start =>
          cases htarget
          simp [Call.creates] at hc
        | readGroup name name' consumer mode count block =>
          cases htarget
          cases mode <;> exact congrArg Prod.snd (onGroup_none _ hg)
        | ack name name' ids =>
          cases htarget
          exact congrArg Prod.snd (onGroup_none _ hg)
        | claimIdle name name' consumer minIdle count =>
          cases htarget
          exact congrArg Prod.snd (onGroup_none _ hg)
        | pending name name' => exact streamCall_pending _ _ _ _
      show (streamCall c now s).2.groupOf stream group = none
      rw [hsame]
      exact hg
    · exact (groupOf_streamCall htarget now s).trans hg

/-- Once the group is there, creations change nothing. -/
theorem later_withoutCreations (hg : s.groupOf stream group = some g) (calls : List (Nat × Call)) :
    backend.later calls s = backend.later (withoutCreations stream group calls) s := by
  induction calls generalizing s g with
  | nil => rfl
  | cons x rest ih =>
    obtain ⟨now, c⟩ := x
    cases hc : c.creates stream group with
    | true =>
      obtain ⟨start, rfl⟩ := Call.exists_createGroup hc
      have hsame : (backend.call now (.stream (.createGroup stream group start)) s).2 = s := by
        show (streamCall (.createGroup stream group start) now s).2 = s
        rw [createGroup_some hg]
      have hskip : withoutCreations stream group
          ((now, .stream (.createGroup stream group start)) :: rest)
          = withoutCreations stream group rest := by
        simp [withoutCreations, hc]
      rw [hskip, ← ih hg]
      simp only [Backend.later, List.foldl_cons, hsame]
    | false =>
      obtain ⟨g', hg'⟩ := groupOf_call hg c now
      have hkeep : withoutCreations stream group ((now, c) :: rest)
          = (now, c) :: withoutCreations stream group rest := by
        simp [withoutCreations, hc]
      rw [hkeep]
      exact ih hg'

/-- How a group that is there came about: it was there before, or the first of
the calls to create it did. All later creations might as well not have been made. -/
inductive Founded (stream group : String) (before : Store) (past : List (Nat × Call)) : Prop
  | there {g : Group} (found : before.groupOf stream group = some g)
    (same : backend.later past before
      = backend.later (withoutCreations stream group past) before)
  | created {early late : List (Nat × Call)} {now : Nat} {start : GroupStart}
    (made : past = early ++ (now, .stream (.createGroup stream group start)) :: late)
    (first : ∀ x ∈ early, x.2.creates stream group = false)
    (fresh : (backend.later (early ++ [(now, .stream (.createGroup stream group start))])
        before).groupOf stream group
      = some ⟨start.cursor ((backend.later early before).log stream), []⟩)
    (same : backend.later past before
      = backend.later (early ++ (now, .stream (.createGroup stream group start)) ::
          withoutCreations stream group late) before)

/-- A group that was not there before came about by the first creation. -/
theorem exists_first_creation (hnone : before.groupOf stream group = none)
    (hg : (backend.later past before).groupOf stream group = some g) :
    ∃ early now start late,
      past = early ++ (now, .stream (.createGroup stream group start)) :: late ∧
      (∀ x ∈ early, x.2.creates stream group = false) ∧
      (backend.later early before).groupOf stream group = none := by
  induction past generalizing before with
  | nil =>
    rw [Backend.later, List.foldl_nil, hnone] at hg
    cases hg
  | cons x rest ih =>
    obtain ⟨now, c⟩ := x
    cases hc : c.creates stream group with
    | true =>
      obtain ⟨start, rfl⟩ := Call.exists_createGroup hc
      exact ⟨[], now, start, rest, rfl, nofun, hnone⟩
    | false =>
      obtain ⟨early, now', start, late, rfl, hfirst, hearly⟩ :=
        ih (groupOf_none_call hnone hc now) hg
      exact ⟨(now, c) :: early, now', start, late, rfl,
        List.forall_mem_cons.2 ⟨hc, hfirst⟩, hearly⟩

theorem founded (hg : (backend.later past before).groupOf stream group = some g) :
    Founded stream group before past := by
  cases hbefore : before.groupOf stream group with
  | some g' => exact .there hbefore (later_withoutCreations hbefore past)
  | none =>
    obtain ⟨early, now, start, late, rfl, hfirst, hearly⟩ := exists_first_creation hbefore hg
    have hfresh : (backend.later (early ++ [(now, .stream (.createGroup stream group start))])
        before).groupOf stream group
        = some ⟨start.cursor ((backend.later early before).log stream), []⟩ := by
      rw [Backend.later_append]
      show (streamCall (.createGroup stream group start) now _).2.groupOf stream group = _
      rw [createGroup_none hearly, groupOf_setGroup, if_pos ⟨rfl, rfl⟩]
    refine .created rfl hfirst hfresh ?_
    have hsplit : ∀ rest : List (Nat × Call),
        early ++ (now, .stream (.createGroup stream group start)) :: rest
          = early ++ [(now, .stream (.createGroup stream group start))] ++ rest := by
      simp
    rw [hsplit late, hsplit (withoutCreations stream group late), Backend.later_append,
      later_withoutCreations hfresh, ← Backend.later_append]

end Nested

/-! ## Set-ups -/

/-- The call reaches the store. -/
def Fault.Reaches : Option Fault → Bool
  | some (.refused _) => false
  | _ => true

/-- A call that reaches the store is made there, whatever is reported of it. -/
theorem Nested.later_attempt (fault : Option Fault) (c : StreamCall) (now : Nat)
    (past : List (Nat × Call)) (before : Nested.Store) :
    backend.later (if Fault.Reaches fault then past ++ [(now, .stream c)] else past) before
      = (attempt fault c now (backend.later past before)).2 := by
  match fault with
  | none => exact Backend.later_append _ _ _ _
  | some (.refused e) => rfl
  | some (.unreported e) => exact Backend.later_append _ _ _ _

namespace Subscription

open Nested (Store backend)

/-- A subscription sets its group up, from any store on, and nobody signals.
`past` are the calls that reached the store, its own and those of others, which
may be any; `talk` is what it asked and got. Its calls may meet any fault. -/
inductive SetUp (stream : String) (o : Options) (before : Store) :
    (past : List (Nat × Call)) → (talk : List (Request × Reply)) → State → Prop
  | start : SetUp stream o before [] [] State.start
  | others {past : List (Nat × Call)} {talk : List (Request × Reply)} {s : State}
    (h : SetUp stream o before past talk s) (now : Nat) (c : Call) :
    SetUp stream o before (past ++ [(now, c)]) talk s
  | create {past : List (Nat × Call)} {talk : List (Request × Reply)} {s : State}
    (h : SetUp stream o before past talk s) (asked : s.request o = some .createGroup)
    (fault : Option Fault) (now : Nat) {r : Except StoreError Bool} {st : Store}
    (call : Nested.attempt fault (.createGroup stream o.group o.start) now
      (backend.later past before) = (r, st)) :
    SetUp stream o before
      (if Fault.Reaches fault then past ++ [(now, .stream (.createGroup stream o.group o.start))]
        else past)
      (talk ++ [(.createGroup, .created r)]) (s.step stream o (.created r) (.silent now))
  | wait {past : List (Nat × Call)} {talk : List (Request × Reply)} {s : State} {delay : Span}
    (h : SetUp stream o before past talk s) (asked : s.request o = some (.wait delay)) (now : Nat) :
    SetUp stream o before past (talk ++ [(.wait delay, .elapsed)])
      (s.step stream o .elapsed (.silent now))

/-- The results of the attempts, in order. -/
def results (talk : List (Request × Reply)) : List (Except StoreError Bool) :=
  talk.filterMap (fun
    | (.createGroup, .created r) => some r
    | _ => none)

/-- Attempts that failed, each with the wait that follows it: after the first one,
the delay of one failure, and so on. -/
def failures (o : Options) (errors : List StoreError) : List (Request × Reply) :=
  (errors.zipIdx 1).flatMap (fun x =>
    [(.createGroup, .created (.error x.1)), (.wait (o.backoff.delay x.2), .elapsed)])

/-- The failures of these attempts may pass. -/
def Passing (errors : List StoreError) : Prop := ∀ e ∈ errors, e.isRetryable = true

/-- How many attempts may be made: always one. -/
def allowance (o : Options) : Nat := max 1 o.connectAttempts

/-- The loop begins with what is pending for it, or with a claim if that is due
at once. -/
def State.Begins (s : State) (o : Options) : Prop :=
  s.request o = some (.read (.pending 0) Span.zero) ∨
    ∃ idle, o.claimIdle = some idle ∧ s.request o = some (.claim idle)

/-- What a set-up keeps to. -/
structure KeepsTo (stream : String) (o : Options) (before : Store) (past : List (Nat × Call))
    (talk : List (Request × Reply)) (s : State) : Prop where
  bounded : (results talk).length ≤ allowance o
  /-- All attempts but the last failed and may pass, and were waited off. -/
  waits : ∃ errors, Passing errors ∧ (talk = failures o errors ∨
    ∃ r, talk = failures o errors ++ [(.createGroup, .created r)])
  /-- It fails if an attempt fails for good, or if all of them do. -/
  fails_iff : (∃ e, s.phase = .finished (.error (.subscribe stream e))) ↔
    (∃ e, .error e ∈ results talk ∧ e.isRetryable = false) ∨
      (results talk).length = allowance o ∧
        ∀ r ∈ results talk, ∃ e, r = .error e ∧ e.isRetryable = true
  reports : ∀ e, s.phase = .finished (.error (.subscribe stream e)) →
    (results talk).getLast? = some (.error e)
  /-- Until it fails or an attempt succeeds, it asks for its group or waits. -/
  asks : (∃ e, s.phase = .finished (.error (.subscribe stream e))) ∨
    (∃ fresh, .ok fresh ∈ results talk) ∨ s.request o = some .createGroup ∨
      ∃ delay, s.request o = some (.wait delay)
  begins : (∃ fresh, .ok fresh ∈ results talk) → s.Begins o
  founded : (∃ fresh, .ok fresh ∈ results talk) →
    (∃ g, (backend.later past before).groupOf stream o.group = some g) ∧
      Nested.Founded stream o.group before past

/-! ## Where a set-up stands -/

section Stages

variable {stream : String} {o : Options} {before : Store} {past : List (Nat × Call)}
  {talk : List (Request × Reply)} {s : State} {errors : List StoreError} {e : StoreError}

/-- Where a set-up stands after its talk. -/
inductive Stage (stream : String) (o : Options) : List (Request × Reply) → State → Prop
  | trying {errors : List StoreError} {s : State} (passing : Passing errors)
    (left : errors.length < allowance o) (phase : s.phase = .joining (errors.length + 1)) :
    Stage stream o (failures o errors) s
  | waiting {errors : List StoreError} {e : StoreError} {s : State} (passing : Passing errors)
    (last : e.isRetryable = true) (left : errors.length + 1 < allowance o)
    (phase : s.phase = .joinWait (errors.length + 1)) :
    Stage stream o (failures o errors ++ [(.createGroup, .created (.error e))]) s
  | failed {errors : List StoreError} {e : StoreError} {s : State} (passing : Passing errors)
    (bound : errors.length < allowance o)
    (final : e.isRetryable = false ∨ errors.length + 1 = allowance o)
    (phase : s.phase = .finished (.error (.subscribe stream e))) :
    Stage stream o (failures o errors ++ [(.createGroup, .created (.error e))]) s
  | joined {errors : List StoreError} {fresh : Bool} {s : State} (passing : Passing errors)
    (bound : errors.length < allowance o) (begins : s.Begins o) :
    Stage stream o (failures o errors ++ [(.createGroup, .created (.ok fresh))]) s

theorem Passing.snoc (h : Passing errors) (he : e.isRetryable = true) : Passing (errors ++ [e]) := by
  intro e' he'
  rcases List.mem_append.1 he' with he' | he'
  · exact h e' he'
  · rw [List.mem_singleton.1 he']
    exact he

theorem failures_snoc (o : Options) (errors : List StoreError) (e : StoreError) :
    failures o (errors ++ [e]) = failures o errors ++ [(.createGroup, .created (.error e)),
      (.wait (o.backoff.delay (errors.length + 1)), .elapsed)] := by
  simp [failures, List.zipIdx_append, Nat.add_comm]

theorem results_failures (o : Options) (errors : List StoreError) :
    results (failures o errors) = errors.map .error := by
  induction errors using List.reverseRecOn with
  | nil => rfl
  | append_singleton errors e ih =>
    rw [failures_snoc, results, List.filterMap_append, ← results, ih, List.map_append]
    rfl

theorem results_snoc (talk : List (Request × Reply)) (r : Except StoreError Bool) :
    results (talk ++ [(.createGroup, .created r)]) = results talk ++ [r] := by
  simp [results]

theorem results_tried (o : Options) (errors : List StoreError) (r : Except StoreError Bool) :
    results (failures o errors ++ [(.createGroup, .created r)]) = errors.map .error ++ [r] := by
  rw [results_snoc, results_failures]

/-- After a success the loop begins. -/
theorem begins_joined (s : State) (stream : String) (o : Options) (now attempt : Nat)
    (fresh : Bool) : (s.joined stream o (.silent now) attempt (.ok fresh)).Begins o := by
  unfold State.joined State.round
  cases hidle : o.claimIdle with
  | none => exact Or.inl rfl
  | some idle =>
    by_cases hdue : now + idle.nanos ≤ now
    · refine Or.inr ⟨idle, hidle, ?_⟩
      simp [Outlook.silent, hdue, State.request, hidle]
    · refine Or.inl ?_
      simp [Outlook.silent, hdue, State.request, State.interruptible, State.readRequest]

/-- An attempt ends the set-up or is waited off. -/
theorem stage_create (passing : Passing errors) (left : errors.length < allowance o)
    (phase : s.phase = .joining (errors.length + 1)) (r : Except StoreError Bool) (now : Nat) :
    Stage stream o (failures o errors ++ [(.createGroup, .created r)])
      (s.step stream o (.created r) (.silent now)) := by
  have hstep : s.step stream o (.created r) (.silent now)
      = s.joined stream o (.silent now) (errors.length + 1) r := by
    unfold State.step
    rw [phase]
  rw [hstep]
  cases r with
  | ok fresh => exact .joined passing left (begins_joined _ _ _ _ _ _)
  | error e =>
    simp only [State.joined]
    by_cases hend : (!e.isRetryable || o.connectAttempts ≤ errors.length + 1) = true
    · rw [if_pos hend]
      refine .failed passing left ?_ rfl
      rcases Bool.or_eq_true_iff.1 hend with hfinal | hspent
      · exact Or.inl (by simpa using hfinal)
      · right
        unfold allowance at left ⊢
        have := of_decide_eq_true hspent
        omega
    · rw [if_neg hend]
      simp only [Bool.or_eq_true, Bool.not_eq_true', decide_eq_true_eq, not_or] at hend
      refine .waiting passing (by simpa using hend.1) ?_ rfl
      unfold allowance
      omega

/-- After a wait comes the next attempt. -/
theorem stage_wait (passing : Passing errors) (last : e.isRetryable = true)
    (left : errors.length + 1 < allowance o) (phase : s.phase = .joinWait (errors.length + 1))
    (now : Nat) : Stage stream o
      (failures o errors ++ [(.createGroup, .created (.error e))] ++
        [(.wait (o.backoff.delay (errors.length + 1)), .elapsed)])
      (s.step stream o .elapsed (.silent now)) := by
  have hlength : (errors ++ [e]).length = errors.length + 1 := List.length_append
  rw [List.append_assoc, List.singleton_append, ← failures_snoc]
  refine .trying (passing.snoc last) (hlength ▸ left) ?_
  rw [hlength]
  exact step_rejoins phase

/-- A loop that begins has done with its set-up. -/
theorem State.Begins.past_setUp (h : s.Begins o) :
    s.request o ≠ some .createGroup ∧ ∀ delay, s.request o ≠ some (.wait delay) := by
  obtain hread | ⟨idle, -, hclaim⟩ := h
  · rw [hread]
    exact ⟨nofun, fun _ => nofun⟩
  · rw [hclaim]
    exact ⟨nofun, fun _ => nofun⟩

/-- A set-up stands at one of the stages. -/
theorem SetUp.stage (h : SetUp stream o before past talk s) : Stage stream o talk s := by
  induction h with
  | start =>
    have hone : 1 ≤ allowance o := Nat.le_max_left _ _
    show Stage stream o (failures o []) State.start
    exact .trying (List.forall_mem_nil _) hone rfl
  | others _ _ _ ih => exact ih
  | create _ asked fault now call ih =>
    obtain ⟨attempt, hphase⟩ := madeIn_of_request asked
    cases ih with
    | trying passing left phase => exact stage_create passing left phase _ now
    | waiting passing last left phase =>
      rw [phase] at hphase
      cases hphase
    | failed passing bound final phase =>
      rw [phase] at hphase
      cases hphase
    | joined passing bound begins => exact absurd asked begins.past_setUp.1
  | wait _ asked now ih =>
    cases ih with
    | trying passing left phase => simp [State.request, phase] at asked
    | waiting passing last left phase =>
      simp only [State.request, phase, Option.some.injEq, Request.wait.injEq] at asked
      subst asked
      exact stage_wait passing last left phase now
    | failed passing bound final phase => simp [State.request, phase] at asked
    | joined passing bound begins => exact absurd asked (begins.past_setUp.2 _)

/-- After an attempt that succeeded the group is there, and stays. -/
theorem SetUp.groupOf (h : SetUp stream o before past talk s)
    (hok : ∃ fresh, .ok fresh ∈ results talk) :
    ∃ g, (backend.later past before).groupOf stream o.group = some g := by
  induction h with
  | start =>
    obtain ⟨fresh, hfresh⟩ := hok
    cases hfresh
  | others _ now c ih =>
    obtain ⟨g, hg⟩ := ih hok
    rw [Backend.later_append]
    exact Nested.groupOf_call hg c now
  | @create past talk s _ asked fault now r st call ih =>
    rw [Nested.later_attempt, call]
    rw [results_snoc] at hok
    obtain ⟨fresh, hfresh⟩ := hok
    rcases List.mem_append.1 hfresh with hfresh | hfresh
    · obtain ⟨g, hg⟩ := ih ⟨fresh, hfresh⟩
      rcases Nested.attempt_effect call with rfl | rfl
      · exact ⟨g, hg⟩
      · exact Nested.groupOf_call hg (.stream (.createGroup stream o.group o.start)) now
    · obtain rfl := List.mem_singleton.1 hfresh
      have hcall := Nested.attempt_ok call
      cases hg : (backend.later past before).groupOf stream o.group with
      | some g =>
        rw [Nested.createGroup_some hg] at hcall
        cases hcall
        exact ⟨g, hg⟩
      | none =>
        rw [Nested.createGroup_none hg] at hcall
        cases hcall
        exact ⟨_, by rw [Nested.groupOf_setGroup, if_pos ⟨rfl, rfl⟩]⟩
  | wait _ _ _ ih =>
    rw [results, List.filterMap_append] at hok
    exact ih (by simpa [results] using hok)

theorem State.Begins.not_finished (h : s.Begins o) (result : Except EventError Unit) :
    s.phase ≠ .finished result := by
  intro hp
  obtain hread | ⟨idle, -, hclaim⟩ := h
  · simp [State.request, hp] at hread
  · simp [State.request, hp] at hclaim

namespace Stage

theorem bounded (h : Stage stream o talk s) : (results talk).length ≤ allowance o := by
  cases h with
  | trying passing left phase =>
    rw [results_failures, List.length_map]
    exact Nat.le_of_lt left
  | waiting passing last left phase =>
    rw [results_tried, List.length_append, List.length_map]
    exact Nat.le_of_lt left
  | failed passing bound final phase =>
    rw [results_tried, List.length_append, List.length_map]
    exact bound
  | joined passing bound begins =>
    rw [results_tried, List.length_append, List.length_map]
    exact bound

theorem waits (h : Stage stream o talk s) : ∃ errors, Passing errors ∧
    (talk = failures o errors ∨ ∃ r, talk = failures o errors ++ [(.createGroup, .created r)]) := by
  cases h with
  | trying passing left phase => exact ⟨_, passing, Or.inl rfl⟩
  | waiting passing last left phase => exact ⟨_, passing, Or.inr ⟨_, rfl⟩⟩
  | failed passing bound final phase => exact ⟨_, passing, Or.inr ⟨_, rfl⟩⟩
  | joined passing bound begins => exact ⟨_, passing, Or.inr ⟨_, rfl⟩⟩

/-- Attempts that may pass are no reason to fail before all are spent. -/
theorem no_reason {rs : List (Except StoreError Bool)} (hp : Passing errors)
    (hrs : rs = errors.map .error) (hleft : rs.length < allowance o) :
    ¬ ((∃ e, .error e ∈ rs ∧ e.isRetryable = false) ∨
      rs.length = allowance o ∧ ∀ r ∈ rs, ∃ e, r = .error e ∧ e.isRetryable = true) := by
  rintro (⟨e, he, hfinal⟩ | ⟨hspent, -⟩)
  · rw [hrs] at he
    obtain ⟨e', he', heq⟩ := List.mem_map.1 he
    cases heq
    rw [hp e he'] at hfinal
    cases hfinal
  · omega

theorem fails_iff (h : Stage stream o talk s) :
    (∃ e, s.phase = .finished (.error (.subscribe stream e))) ↔
      (∃ e, .error e ∈ results talk ∧ e.isRetryable = false) ∨
        (results talk).length = allowance o ∧
          ∀ r ∈ results talk, ∃ e, r = .error e ∧ e.isRetryable = true := by
  cases h with
  | trying passing left phase =>
    refine iff_of_false (by simp [phase]) (no_reason passing (results_failures _ _) ?_)
    rwa [results_failures, List.length_map]
  | @waiting errors e s passing last left phase =>
    have hrs : results (failures o errors ++ [(.createGroup, .created (.error e))])
        = (errors ++ [e]).map .error := by
      rw [results_tried, List.map_append]
      rfl
    refine iff_of_false (by simp [phase]) (no_reason (passing.snoc last) hrs ?_)
    rw [hrs, List.length_map, List.length_append]
    exact left
  | @failed errors e s passing bound final phase =>
    refine iff_of_true ⟨e, phase⟩ ?_
    rw [results_tried]
    by_cases hlast : e.isRetryable = false
    · exact Or.inl ⟨e, by simp, hlast⟩
    · have hspent := final.resolve_left hlast
      refine Or.inr ⟨by simpa using hspent, fun r hr => ?_⟩
      rcases List.mem_append.1 hr with hr | hr
      · obtain ⟨e', he', rfl⟩ := List.mem_map.1 hr
        exact ⟨e', rfl, passing e' he'⟩
      · exact ⟨e, List.mem_singleton.1 hr, by simpa using hlast⟩
  | @joined errors fresh s passing bound begins =>
    refine iff_of_false (fun ⟨e, hp⟩ => begins.not_finished _ hp) ?_
    rw [results_tried]
    rintro (⟨e, he, hfinal⟩ | ⟨-, hall⟩)
    · rcases List.mem_append.1 he with he | he
      · obtain ⟨e', he', heq⟩ := List.mem_map.1 he
        cases heq
        rw [passing e he'] at hfinal
        cases hfinal
      · cases List.mem_singleton.1 he
    · obtain ⟨e, he, -⟩ := hall (.ok fresh) (by simp)
      cases he

theorem reports (h : Stage stream o talk s) {e : StoreError}
    (hp : s.phase = .finished (.error (.subscribe stream e))) :
    (results talk).getLast? = some (.error e) := by
  cases h with
  | trying passing left phase =>
    rw [phase] at hp
    cases hp
  | waiting passing last left phase =>
    rw [phase] at hp
    cases hp
  | failed passing bound final phase =>
    rw [phase] at hp
    cases hp
    rw [results_tried, List.getLast?_append]
    rfl
  | joined passing bound begins => exact absurd hp (begins.not_finished _)

theorem asks (h : Stage stream o talk s) :
    (∃ e, s.phase = .finished (.error (.subscribe stream e))) ∨
      (∃ fresh, .ok fresh ∈ results talk) ∨ s.request o = some .createGroup ∨
        ∃ delay, s.request o = some (.wait delay) := by
  cases h with
  | trying passing left phase => exact Or.inr (Or.inr (Or.inl (by simp [State.request, phase])))
  | waiting passing last left phase =>
    exact Or.inr (Or.inr (Or.inr ⟨_, by rw [State.request, phase]⟩))
  | failed passing bound final phase => exact Or.inl ⟨_, phase⟩
  | @joined errors fresh s passing bound begins =>
    exact Or.inr (Or.inl ⟨fresh, by simp [results_tried]⟩)

theorem begins (h : Stage stream o talk s) (hok : ∃ fresh, .ok fresh ∈ results talk) :
    s.Begins o := by
  obtain ⟨fresh, hfresh⟩ := hok
  cases h with
  | trying passing left phase => simp [results_failures] at hfresh
  | waiting passing last left phase => simp [results_tried] at hfresh
  | failed passing bound final phase => simp [results_tried] at hfresh
  | joined passing bound begins => exact begins

end Stage

end Stages

/-! ## The main law -/

/-- A group is set up in a bounded number of attempts, and never goes back. From
any store on, whatever its calls meet and whatever others do, a subscription
that nobody signals to makes as many attempts as it may, with the delay of so
many failures between two of them. It fails if one of them fails for good or
all have failed, and reads nothing before one has succeeded. Then the group is
there, as it was left by the first creation that took effect and by all calls
since that were no creations, whoever made them. -/
theorem setting_up_is_bounded_and_never_rewinds {stream : String} {o : Options} {before : Store}
    {past : List (Nat × Call)} {talk : List (Request × Reply)} {s : State}
    (h : SetUp stream o before past talk s) : KeepsTo stream o before past talk s := by
  have hstage := h.stage
  refine ⟨hstage.bounded, hstage.waits, hstage.fails_iff, fun e hp => hstage.reports hp,
    hstage.asks, hstage.begins, fun hok => ?_⟩
  obtain ⟨g, hg⟩ := h.groupOf hok
  exact ⟨⟨g, hg⟩, Nested.founded hg⟩

/-- The report of the first creation is lost. Before the second attempt another
consumer reads an entry, and an instance that starts asks for the group from
the latest entry on. The attempt finds the group as the other consumer left it. -/
theorem a_lost_report_costs_no_history :
    let o := unclaiming "g" "c"
    let down := StoreError.unavailable "down"
    let past : List (Nat × Call) :=
      [(0, .stream (.append "s" ∅)), (1, .stream (.createGroup "s" "g" .beginning)),
        (2, .stream (.readGroup "s" "g" "d" .new 1 Span.zero)), (3, .stream (.append "s" ∅)),
        (4, .stream (.createGroup "s" "g" .latest)),
        (5, .stream (.createGroup "s" "g" .beginning))]
    let talk : List (Request × Reply) :=
      [(.createGroup, .created (.error down)), (.wait (o.backoff.delay 1), .elapsed),
        (.createGroup, .created (.ok false))]
    ∃ s, SetUp "s" o Nested.empty past talk s ∧
      s.request o = some (.read (.pending 0) Span.zero) ∧
      Nested.Founded "s" "g" Nested.empty past ∧
      (backend.later past Nested.empty).groupOf "s" "g" = some ⟨1, [⟨1, "d", 2, 1⟩]⟩ := by
  intro o down past talk
  have hbegun : SetUp "s" o Nested.empty [(0, .stream (.append "s" ∅))] [] State.start :=
    SetUp.start.others 0 (.stream (.append "s" ∅))
  have hlost := hbegun.create rfl (some (.unreported down)) 1 rfl
  have hother := ((hlost.others 2 (.stream (.readGroup "s" "g" "d" .new 1 Span.zero))).others 3
    (.stream (.append "s" ∅))).others 4 (.stream (.createGroup "s" "g" .latest))
  have hdone := (hother.wait rfl 5).create rfl none 5 rfl
  have hkeeps := setting_up_is_bounded_and_never_rewinds hdone
  have hok : ∃ fresh, .ok fresh ∈ results talk := ⟨false, by simp [talk, results]⟩
  refine ⟨_, hdone, ?_, (hkeeps.founded hok).2, rfl⟩
  rcases hkeeps.begins hok with hread | ⟨idle, hidle, -⟩
  · exact hread
  · cases hidle

end Subscription

end LifecycleLog
