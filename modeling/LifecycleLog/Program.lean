-- Programs of calls. A program either is done with a result, or makes one
-- call and goes on with the reply. What a call does is left to the one who
-- runs the program: a store, a failing store, or a store shared with others.
namespace LifecycleLog

inductive Program (Call : Type) (Reply : Call → Type) (α : Type) where
  | done (result : α)
  | ask (call : Call) (next : Reply call → Program Call Reply α)

namespace Program

variable {Call : Type} {Reply : Call → Type} {α β γ σ : Type}

def bind : Program Call Reply α → (α → Program Call Reply β) → Program Call Reply β
  | .done a, f => f a
  | .ask c next, f => .ask c (fun r => (next r).bind f)

instance : Monad (Program Call Reply) where
  pure := .done
  bind := bind

/-- The program of one call. -/
def call (c : Call) : Program Call Reply (Reply c) := .ask c .done

/-- Runs a program against a state that answers calls. -/
def run (answer : (c : Call) → σ → Reply c × σ) : Program Call Reply α → σ → α × σ
  | .done a, s => (a, s)
  | .ask c next, s => run answer (next (answer c s).1) (answer c s).2

/-- Sends the calls of a program to another set of calls. -/
def within {Call' : Type} {Reply' : Call' → Type} (wrap : Call → Call')
    (back : (c : Call) → Reply' (wrap c) → Reply c) :
    Program Call Reply α → Program Call' Reply' α
  | .done a => .done a
  | .ask c next => .ask (wrap c) (fun r => within wrap back (next (back c r)))

@[simp] theorem pure_eq (a : α) : (pure a : Program Call Reply α) = .done a := rfl

@[simp] theorem bind_eq (p : Program Call Reply α) (f : α → Program Call Reply β) :
    p >>= f = p.bind f := rfl

@[simp] theorem done_bind (a : α) (f : α → Program Call Reply β) :
    (Program.done a : Program Call Reply α).bind f = f a := rfl

@[simp] theorem ask_bind (c : Call) (next : Reply c → Program Call Reply α)
    (f : α → Program Call Reply β) :
    (Program.ask c next).bind f = .ask c (fun r => (next r).bind f) := rfl

theorem bind_done (p : Program Call Reply α) : p.bind .done = p := by
  induction p with
  | done a => rfl
  | ask c next ih => simp only [ask_bind, ih]

theorem bind_assoc (p : Program Call Reply α) (f : α → Program Call Reply β)
    (g : β → Program Call Reply γ) : (p.bind f).bind g = p.bind (fun a => (f a).bind g) := by
  induction p with
  | done a => rfl
  | ask c next ih => simp only [ask_bind, ih]

@[simp] theorem run_done (answer : (c : Call) → σ → Reply c × σ) (a : α) (s : σ) :
    (Program.done a : Program Call Reply α).run answer s = (a, s) := rfl

@[simp] theorem run_ask (answer : (c : Call) → σ → Reply c × σ) (c : Call)
    (next : Reply c → Program Call Reply α) (s : σ) :
    (Program.ask c next).run answer s = (next (answer c s).1).run answer (answer c s).2 := rfl

/-- A program that goes on runs its second part on what the first one left. -/
theorem run_bind (answer : (c : Call) → σ → Reply c × σ) (p : Program Call Reply α)
    (f : α → Program Call Reply β) (s : σ) :
    (p.bind f).run answer s = (f (p.run answer s).1).run answer (p.run answer s).2 := by
  induction p generalizing s with
  | done a => rfl
  | ask c next ih => simp only [ask_bind, run_ask, ih]

end Program

end LifecycleLog
