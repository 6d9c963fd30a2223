-- What programs of key calls keep to. A program that names only certain keys
-- leaves all others alone. A program that endures faults keeps an invariant
-- wherever it is stopped, whatever calls fail on the way, and whether the
-- failed ones took effect or not. A program settles on a goal if attempts at
-- it, however many go wrong, end there once one succeeds.
import LifecycleLog.Faults
import LifecycleLog.Store.Keyed

namespace LifecycleLog

/-! ## The keys that a program names -/

/-- The keys that a call names. -/
def KeyCall.keys : KeyCall → List String
  | .get key => [key]
  | .set key _ => [key]
  | .delete keys => keys

/-- Every key that the program may name, whatever the replies, is one of `space`. -/
def Program.KeepsTo {α : Type} (space : String → Prop) : KeyProgram α → Prop
  | .done _ => True
  | .ask c next => (∀ k ∈ c.keys, space k) ∧ ∀ r, (next r).KeepsTo space

theorem keepsTo_orFail {ε α : Type} {space : String → Prop} {c : KeyCall} {wrap : StoreError → ε}
    {next : c.Answer → KeyProgram (Except ε α)} (hc : ∀ k ∈ c.keys, space k)
    (h : ∀ answer, (next answer).KeepsTo space) : (c.orFail wrap next).KeepsTo space := by
  refine ⟨hc, fun r => ?_⟩
  cases r with
  | ok answer => exact h answer
  | error e => trivial

/-- A call leaves the keys that it does not name as they were. -/
theorem get?_answer_of_notMem {c : KeyCall} {keys : Keys} {k : String} (h : k ∉ c.keys) :
    (Keys.answer c keys).2.get? k = keys.get? k := by
  cases c with
  | get key => rfl
  | set key value =>
    have hk : k ≠ key := fun he => h (by simp [KeyCall.keys, he])
    simp [Keys.answer, hk]
  | delete ks =>
    have hk : k ∉ ks := h
    simp [Keys.answer, Keys.get?_deleteAll, hk]

/-- The program, run from `keys` with no failure, names keys of `space` only. -/
def Program.NamesOnly {α : Type} (space : String → Prop) : KeyProgram α → Keys → Prop
  | .done _, _ => True
  | .ask c next, keys =>
    (∀ k ∈ c.keys, space k) ∧
      (next (.ok (Keys.answer c keys).1)).NamesOnly space (Keys.answer c keys).2

section NamesOnly

variable {α : Type} {space : String → Prop} {p : KeyProgram α} {keys : Keys} {k : String}

theorem namesOnly_orFail {ε : Type} {c : KeyCall} {wrap : StoreError → ε}
    {next : c.Answer → KeyProgram (Except ε α)} (hc : ∀ k ∈ c.keys, space k)
    (h : (next (Keys.answer c keys).1).NamesOnly space (Keys.answer c keys).2) :
    (c.orFail wrap next).NamesOnly space keys := ⟨hc, h⟩

theorem Program.KeepsTo.namesOnly (h : p.KeepsTo space) (keys : Keys) :
    p.NamesOnly space keys := by
  induction p generalizing keys with
  | done a => trivial
  | ask c next ih => exact ⟨h.1, ih _ (h.2 _) _⟩

theorem get?_run_of_namesOnly (h : p.NamesOnly space keys) (hk : ¬ space k) :
    (Keys.run p keys).2.get? k = keys.get? k := by
  induction p generalizing keys with
  | done a => rfl
  | ask c next ih =>
    obtain ⟨hc, hn⟩ := h
    calc (Keys.run (.ask c next) keys).2.get? k
        = (Keys.answer c keys).2.get? k := ih _ hn
      _ = keys.get? k := get?_answer_of_notMem fun hm => hk (hc k hm)

theorem get?_run_of_keepsTo (h : p.KeepsTo space) (keys : Keys) (hk : ¬ space k) :
    (Keys.run p keys).2.get? k = keys.get? k := get?_run_of_namesOnly (h.namesOnly keys) hk

end NamesOnly

/-! ## Runs with no failure -/

@[simp] theorem run_done_keys {α : Type} (a : α) (keys : Keys) :
    Keys.run (.done a : KeyProgram α) keys = (a, keys) := rfl

@[simp] theorem run_orFail {ε α : Type} (c : KeyCall) (wrap : StoreError → ε)
    (next : c.Answer → KeyProgram (Except ε α)) (keys : Keys) :
    Keys.run (c.orFail wrap next) keys
      = Keys.run (next (Keys.answer c keys).1) (Keys.answer c keys).2 := rfl

theorem run_bind_keys {α β : Type} (p : KeyProgram α) (f : α → KeyProgram β) (keys : Keys) :
    Keys.run (p.bind f) keys = Keys.run (f (Keys.run p keys).1) (Keys.run p keys).2 :=
  Program.run_bind _ _ _ _

theorem run_bind_done {α β : Type} (p : KeyProgram α) (f : α → β) (keys : Keys) :
    Keys.run (p.bind (fun a => .done (f a))) keys = (f (Keys.run p keys).1, (Keys.run p keys).2) :=
  Program.run_bind _ _ _ _

/-! ## Runs with failures -/

/-- What a call that may fail replies, and the keys it leaves. -/
def Keys.reply (fault : Option Fault) (c : KeyCall) (keys : Keys) : KeyReply c × Keys :=
  Fault.apply fault (fun keys => (.ok (answer c keys).1, (answer c keys).2)) keys

/-- Wherever the program is stopped, and whatever failed until then, the keys
satisfy `inv`; and where it ends, result and keys satisfy `post`. -/
def Program.Endures {α : Type} (inv : Keys → Prop) (post : α → Keys → Prop) :
    KeyProgram α → Keys → Prop
  | .done a, keys => inv keys ∧ post a keys
  | .ask c next, keys =>
    inv keys ∧
      ∀ fault, (next (Keys.reply fault c keys).1).Endures inv post (Keys.reply fault c keys).2

namespace Program.Endures

variable {α β : Type} {inv : Keys → Prop} {post : α → Keys → Prop} {keys : Keys}

theorem now {p : KeyProgram α} (h : p.Endures inv post keys) : inv keys := by
  cases p with
  | done a => exact h.1
  | ask c next => exact h.1

theorem imp {inv' : Keys → Prop} {post' : α → Keys → Prop} {p : KeyProgram α}
    (h : p.Endures inv post keys) (hi : ∀ k, inv k → inv' k) (hp : ∀ a k, post a k → post' a k) :
    p.Endures inv' post' keys := by
  induction p generalizing keys with
  | done a => exact ⟨hi _ h.1, hp _ _ h.2⟩
  | ask c next ih => exact ⟨hi _ h.1, fun fault => ih _ (h.2 fault)⟩

theorem bind_done {post : β → Keys → Prop} {p : KeyProgram α} {f : α → β}
    (h : p.Endures inv (fun a k => post (f a) k) keys) :
    (p.bind (fun a => .done (f a))).Endures inv post keys := by
  induction p generalizing keys with
  | done a => exact h
  | ask c next ih => exact ⟨h.1, fun fault => ih _ (h.2 fault)⟩

/-- A call whose failure ends the program, where nothing is asked of failures. -/
theorem orFail {ε : Type} {post : Except ε α → Keys → Prop} {c : KeyCall} {wrap : StoreError → ε}
    {next : c.Answer → KeyProgram (Except ε α)} (hi : inv keys)
    (hf : ∀ e k, post (.error e) k) (h : (next (Keys.answer c keys).1).Endures inv post
      (Keys.answer c keys).2) : (c.orFail wrap next).Endures inv post keys := by
  refine ⟨hi, fun fault => ?_⟩
  match fault with
  | none => exact h
  | some (.refused e) => exact ⟨hi, hf _ _⟩
  | some (.unreported e) => exact ⟨h.now, hf _ _⟩

end Program.Endures

/-! ## Attempts -/

/-- Attempts at the program from `keys` on, however many fail or are stopped on
the way, lead to `goal` once one succeeds. -/
def Program.Settles {ε : Type} (p : KeyProgram (Except ε Unit)) (goal keys : Keys) : Prop :=
  ∃ inv : Keys → Prop, inv keys ∧
    ∀ mid, inv mid → p.Endures inv (fun r k => r = .ok () → k = goal) mid

/-- Wherever an attempt is stopped, the next ones still lead to the goal. -/
theorem Program.Settles.endures {ε : Type} {p : KeyProgram (Except ε Unit)} {goal keys : Keys}
    (h : p.Settles goal keys) :
    p.Endures (p.Settles goal) (fun r k => r = .ok () → k = goal) keys := by
  obtain ⟨inv, hi, hall⟩ := h
  exact (hall keys hi).imp (fun k hk => ⟨inv, hk, hall⟩) (fun _ _ hr => hr)

theorem settles_done {ε : Type} (keys : Keys) :
    (Program.done (.ok ()) : KeyProgram (Except ε Unit)).Settles keys keys :=
  ⟨fun k => k = keys, rfl, fun _ h => ⟨h, fun _ => h⟩⟩

end LifecycleLog
