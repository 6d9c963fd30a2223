-- Two clients of one store. Their programs take turns, a call at a time, and
-- what they leave depends on who had which turn. Programs that name different
-- keys do not notice each other, and one that only reads disturbs nobody. Any
-- other program is followed through its calls, with whatever the other client
-- may do to the keys before each of them.
import LifecycleLog.Proofs.KeyPrograms
import Mathlib.Order.Defs.Unbundled

namespace LifecycleLog

variable {α β : Type}

namespace Keys

/-! ## Turns -/

/-- One call of the program; a program that is done lets the turn pass. -/
def turn : KeyProgram α → Keys → KeyProgram α × Keys
  | .done a, keys => (.done a, keys)
  | .ask c next, keys => (next (.ok (answer c keys).1), (answer c keys).2)

/-- What two programs answer and leave when each `true` is a turn of the first
and each `false` one of the second. After the last of these turns the first
runs to its end, and then the second. -/
def weave : List Bool → KeyProgram α → KeyProgram β → Keys → (α × β) × Keys
  | [], p, q, keys =>
    (((run p keys).1, (run q (run p keys).2).1), (run q (run p keys).2).2)
  | true :: turns, p, q, keys => weave turns (turn p keys).1 q (turn p keys).2
  | false :: turns, p, q, keys => weave turns p (turn q keys).1 (turn q keys).2

/-- Some turns of the two programs leave `fin`. -/
def CanLeave (p : KeyProgram α) (q : KeyProgram β) (keys fin : Keys) : Prop :=
  ∃ turns, (weave turns p q keys).2 = fin

namespace CanLeave

variable {p : KeyProgram α} {q : KeyProgram β} {keys fin : Keys}

/-- The first program takes the next turn. -/
theorem first (h : CanLeave (turn p keys).1 q (turn p keys).2 fin) : CanLeave p q keys fin := by
  obtain ⟨turns, ht⟩ := h
  exact ⟨true :: turns, ht⟩

/-- The second program takes the next turn. -/
theorem second (h : CanLeave p (turn q keys).1 (turn q keys).2 fin) : CanLeave p q keys fin := by
  obtain ⟨turns, ht⟩ := h
  exact ⟨false :: turns, ht⟩

theorem orFail {ε : Type} {c : KeyCall} {wrap : StoreError → ε}
    {next : c.Answer → KeyProgram (Except ε α)}
    (h : CanLeave (next (answer c keys).1) q (answer c keys).2 fin) :
    CanLeave (c.orFail wrap next) q keys fin := first h

/-- The second program runs to its end, and then the first. -/
theorem second_whole (h : (run p (run q keys).2).2 = fin) : CanLeave p q keys fin := by
  induction q generalizing keys with
  | done b => exact ⟨[], h⟩
  | ask c next ih => exact second (ih _ h)

/-- Either client may be called the first. -/
theorem symm (h : CanLeave p q keys fin) : CanLeave q p keys fin := by
  obtain ⟨turns, rfl⟩ := h
  induction turns generalizing p q keys with
  | nil => exact second_whole rfl
  | cons mine turns ih =>
    cases mine with
    | true => exact second ih
    | false => exact first ih

end CanLeave

theorem run_turn (p : KeyProgram α) (keys : Keys) :
    run (turn p keys).1 (turn p keys).2 = run p keys := by
  cases p <;> rfl

end Keys

/-! ## A program that only reads -/

/-- No call of the program changes the keys. -/
def Program.OnlyReads : KeyProgram α → Prop
  | .done _ => True
  | .ask c next => (∀ keys, (Keys.answer c keys).2 = keys) ∧ ∀ r, (next r).OnlyReads

theorem snd_run_of_onlyReads {q : KeyProgram β} (h : q.OnlyReads) (keys : Keys) :
    (Keys.run q keys).2 = keys := by
  induction q generalizing keys with
  | done b => rfl
  | ask c next ih =>
    obtain ⟨hc, hn⟩ := h
    calc (Keys.run (.ask c next) keys).2
        = (Keys.answer c keys).2 := ih _ (hn _) _
      _ = keys := hc keys

theorem onlyReads_turn {q : KeyProgram β} (h : q.OnlyReads) (keys : Keys) :
    (Keys.turn q keys).1.OnlyReads ∧ (Keys.turn q keys).2 = keys := by
  cases q with
  | done b => exact ⟨h, rfl⟩
  | ask c next => exact ⟨h.2 _, h.1 keys⟩

/-- Beside a program that only reads, the other leaves what it leaves alone. -/
theorem snd_weave_of_onlyReads {q : KeyProgram β} (h : q.OnlyReads) (turns : List Bool)
    (p : KeyProgram α) (keys : Keys) :
    (Keys.weave turns p q keys).2 = (Keys.run p keys).2 := by
  induction turns generalizing p q keys with
  | nil => exact snd_run_of_onlyReads h _
  | cons mine turns ih =>
    cases mine with
    | true =>
      rw [Keys.weave, ih h, Keys.run_turn]
    | false =>
      obtain ⟨hq, hk⟩ := onlyReads_turn h keys
      rw [Keys.weave, ih hq, hk]

/-! ## Programs that name different keys -/

theorem get?_answer_congr {k : String} {keys keys' : Keys} (c : KeyCall)
    (h : keys.get? k = keys'.get? k) :
    (Keys.answer c keys).2.get? k = (Keys.answer c keys').2.get? k := by
  cases c <;> simp [Keys.answer, Keys.get?_deleteAll, h]

/-- The reply to a call depends on the keys that it names. -/
theorem fst_answer_congr {keys keys' : Keys} (c : KeyCall)
    (h : ∀ k ∈ c.keys, keys.get? k = keys'.get? k) :
    (Keys.answer c keys).1 = (Keys.answer c keys').1 := by
  cases c with
  | get key => exact h key (by simp [KeyCall.keys])
  | set key value => rfl
  | delete ks =>
    show (Keys.deleteAll ks keys).1 = (Keys.deleteAll ks keys').1
    induction ks generalizing keys keys' with
    | nil => rfl
    | cons k rest ih =>
      have hk : keys.get? k = keys'.get? k := h k (by simp [KeyCall.keys])
      have hrest : (Keys.deleteAll rest (keys.erase k)).1
          = (Keys.deleteAll rest (keys'.erase k)).1 := by
        apply ih
        intro j hj
        have hj' : keys.get? j = keys'.get? j := h j (List.mem_cons_of_mem k hj)
        simp [hj']
      simp only [Keys.deleteAll, Table.contains, hk, hrest]
      rfl

section NamesOnly

variable {space other : String → Prop} {p : KeyProgram α} {q : KeyProgram β} {keys keys' : Keys}

/-- Where its space looks the same, the program does the same. -/
theorem namesOnly_congr (h : p.NamesOnly space keys)
    (same : ∀ k, space k → keys.get? k = keys'.get? k) :
    p.NamesOnly space keys' ∧ (Keys.run p keys).1 = (Keys.run p keys').1 ∧
      ∀ k, space k → (Keys.run p keys).2.get? k = (Keys.run p keys').2.get? k := by
  induction p generalizing keys keys' with
  | done a => exact ⟨trivial, rfl, same⟩
  | ask c next ih =>
    obtain ⟨hc, hn⟩ := h
    have hr : (Keys.answer c keys).1 = (Keys.answer c keys').1 :=
      fst_answer_congr c fun k hk => same k (hc k hk)
    have hrun : Keys.run (.ask c next) keys
        = Keys.run (next (.ok (Keys.answer c keys').1)) (Keys.answer c keys).2 := by
      rw [← hr]
      rfl
    rw [hr] at hn
    rw [hrun]
    obtain ⟨hv, ha, hk⟩ := ih _ hn fun k hk => get?_answer_congr c (same k hk)
    exact ⟨⟨hc, hv⟩, ha, hk⟩

/-- A call that names no key of the program's space may come before or after it. -/
theorem snd_run_answer (h : p.NamesOnly space keys) {d : KeyCall} (hd : ∀ k ∈ d.keys, ¬ space k) :
    (Keys.run p (Keys.answer d keys).2).2 = (Keys.answer d (Keys.run p keys).2).2 := by
  have same : ∀ k, space k → keys.get? k = (Keys.answer d keys).2.get? k :=
    fun k hk => (get?_answer_of_notMem fun hm => hd k hm hk).symm
  obtain ⟨hv, -, hsame⟩ := namesOnly_congr h same
  apply Table.ext_get?
  intro k
  by_cases hk : space k
  · rw [← hsame k hk, get?_answer_of_notMem fun hm => hd k hm hk]
  · rw [get?_run_of_namesOnly hv hk]
    exact get?_answer_congr d (get?_run_of_namesOnly h hk).symm

/-- Programs that name different keys answer and leave, whatever the turns,
what they do one after the other. -/
theorem weave_of_namesOnly (hp : p.NamesOnly space keys) (hq : q.NamesOnly other keys)
    (apart : ∀ k, space k → ¬ other k) (turns : List Bool) :
    Keys.weave turns p q keys
      = (((Keys.run p keys).1, (Keys.run q keys).1), (Keys.run q (Keys.run p keys).2).2) := by
  induction turns generalizing p q keys with
  | nil =>
    have same : ∀ k, other k → keys.get? k = (Keys.run p keys).2.get? k :=
      fun k hk => (get?_run_of_namesOnly hp fun hs => apart k hs hk).symm
    rw [Keys.weave, (namesOnly_congr hq same).2.1]
  | cons mine turns ih =>
    cases mine with
    | true =>
      cases p with
      | done a => exact ih hp hq
      | ask c next =>
        obtain ⟨hc, hn⟩ := hp
        have same : ∀ k, other k → keys.get? k = (Keys.answer c keys).2.get? k :=
          fun k hk => (get?_answer_of_notMem fun hm => apart k (hc k hm) hk).symm
        obtain ⟨hv, ha, -⟩ := namesOnly_congr hq same
        show Keys.weave turns (next (.ok (Keys.answer c keys).1)) q (Keys.answer c keys).2 = _
        rw [ih hn hv, ← ha]
        rfl
    | false =>
      cases q with
      | done b => exact ih hp hq
      | ask d next =>
        obtain ⟨hd, hn⟩ := hq
        have hd' : ∀ k ∈ d.keys, ¬ space k := fun k hm hs => apart k hs (hd k hm)
        have same : ∀ k, space k → keys.get? k = (Keys.answer d keys).2.get? k :=
          fun k hk => (get?_answer_of_notMem fun hm => hd' k hm hk).symm
        obtain ⟨hv, ha, -⟩ := namesOnly_congr hp same
        have hr : (Keys.answer d (Keys.run p keys).2).1 = (Keys.answer d keys).1 :=
          fst_answer_congr d fun k hm => get?_run_of_namesOnly hp (hd' k hm)
        have hrun : Keys.run (.ask d next) (Keys.run p keys).2
            = Keys.run (next (.ok (Keys.answer d keys).1))
                (Keys.run p (Keys.answer d keys).2).2 := by
          rw [snd_run_answer hp hd', ← hr]
          rfl
        show Keys.weave turns p (next (.ok (Keys.answer d keys).1)) (Keys.answer d keys).2 = _
        rw [ih hv hn, ← ha, hrun]
        rfl

end NamesOnly

/-! ## A program and its surroundings -/

/-- Before each call of the program, and after its end, the keys may change by
`theirs`. The program then changes them by `mine` only, and at its end they
satisfy `post`. -/
def Program.Abides (theirs mine : Keys → Keys → Prop) (post : Keys → Prop) :
    KeyProgram α → Keys → Prop
  | .done _, keys => ∀ now, theirs keys now → post now
  | .ask c next, keys =>
    ∀ now, theirs keys now → mine now (Keys.answer c now).2 ∧
      (next (.ok (Keys.answer c now).1)).Abides theirs mine post (Keys.answer c now).2

namespace Program.Abides

variable {theirs mine : Keys → Keys → Prop} {post post' : Keys → Prop}
  {p : KeyProgram α} {q : KeyProgram β} {keys now : Keys}

theorem orFail {ε : Type} {c : KeyCall} {wrap : StoreError → ε}
    {next : c.Answer → KeyProgram (Except ε α)}
    (h : ∀ now, theirs keys now → mine now (Keys.answer c now).2 ∧
      (next (Keys.answer c now).1).Abides theirs mine post (Keys.answer c now).2) :
    (c.orFail wrap next).Abides theirs mine post keys := h

/-- A call that only reads is one more moment for the other client. -/
theorem get [IsPreorder Keys mine] {ε : Type} {key : String} {wrap : StoreError → ε}
    {next : Option String → KeyProgram (Except ε α)}
    (h : ∀ now, theirs keys now → (next (now.get? key)).Abides theirs mine post now) :
    ((KeyCall.get key).orFail wrap next).Abides theirs mine post keys :=
  orFail fun now hn => ⟨refl_of mine now, h now hn⟩

/-- What the other client does may as well have been done before. -/
theorem later [IsTrans Keys theirs] (h : p.Abides theirs mine post keys) (hn : theirs keys now) :
    p.Abides theirs mine post now := by
  cases p with
  | done a => exact fun fin hf => h fin (trans_of theirs hn hf)
  | ask c next => exact fun fin hf => h fin (trans_of theirs hn hf)

/-- One turn of the program. -/
theorem turn [IsPreorder Keys theirs] [IsPreorder Keys mine]
    (h : p.Abides theirs mine post keys) :
    mine keys (Keys.turn p keys).2 ∧
      (Keys.turn p keys).1.Abides theirs mine post (Keys.turn p keys).2 := by
  cases p with
  | done a => exact ⟨refl_of mine keys, h⟩
  | ask c next => exact h keys (refl_of theirs keys)

/-- The program run to its end, while the other waits. -/
theorem run [IsPreorder Keys theirs] [IsPreorder Keys mine] (h : p.Abides theirs mine post keys) :
    mine keys (Keys.run p keys).2 ∧ ∀ now, theirs (Keys.run p keys).2 now → post now := by
  induction p generalizing keys with
  | done a => exact ⟨refl_of mine keys, h⟩
  | ask c next ih =>
    obtain ⟨hm, hn⟩ := h keys (refl_of theirs keys)
    obtain ⟨hm', hp⟩ := ih _ hn
    exact ⟨trans_of mine hm hm', hp⟩

/-- Two programs, each of which keeps to what the other is prepared for. -/
theorem weave [IsPreorder Keys theirs] [IsPreorder Keys mine]
    (hp : p.Abides theirs mine post keys) (hq : q.Abides mine theirs post' keys)
    (turns : List Bool) :
    post (Keys.weave turns p q keys).2 ∧ post' (Keys.weave turns p q keys).2 := by
  induction turns generalizing p q keys with
  | nil =>
    obtain ⟨hm, hend⟩ := hp.run
    obtain ⟨ht, hend'⟩ := (hq.later hm).run
    exact ⟨hend _ ht, hend' _ (refl_of mine _)⟩
  | cons first turns ih =>
    cases first with
    | true =>
      obtain ⟨hm, hp'⟩ := hp.turn
      exact ih hp' (hq.later hm)
    | false =>
      obtain ⟨ht, hq'⟩ := hq.turn
      exact ih (hp.later ht) hq'

end Program.Abides

end LifecycleLog
