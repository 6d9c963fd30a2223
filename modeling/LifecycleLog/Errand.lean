-- Errands: what is done to a world in which time passes. Some errands are done
-- at once. Others are reads, each with an agenda of errands that are run while
-- it waits. The errands of an agenda come one after the other, none before it is
-- due, and time passes only while all that is under way waits. At each moment
-- there are rounds. A read that begins looks before its agenda begins, which is
-- its turn in that round; in later rounds its agenda goes first. Reads within an
-- agenda come before the read that the agenda belongs to, and the rest of the
-- world comes last. An errand is a read whose deadline the clock can show, since
-- one with a later deadline breaks off before it looks.
import LifecycleLog.Store.Waiting

namespace LifecycleLog

mutual

/-- Something done to a world `ω`, with a result `ρ`. -/
inductive Errand (ω ρ : Type)
  | act (run : ω → ρ × ω)
  /-- A read that waits up to `block`. `report` is given its answer, how long it
  took, and what came of the agenda. -/
  | read (attempt : Attempt ω) (block : Nat) (meanwhile : Agenda ω ρ)
      (report : Except StoreError (List Entry) → (elapsed : Nat) → List ρ → ω → ρ × ω)

/-- Errands in order, each with the time at which it is due. -/
inductive Agenda (ω ρ : Type)
  | done
  | next (due : Nat) (errand : Errand ω ρ) (rest : Agenda ω ρ)

end

variable {ω ψ ρ : Type}

def Agenda.ofList : List (Nat × Errand ω ρ) → Agenda ω ρ
  | [] => .done
  | (due, errand) :: rest => .next due errand (ofList rest)

/-! ## Errands in a larger world -/

/-- Does to a part of a world what is done to the part alone. -/
def onPart {α : Type} (get : ψ → ω) (put : ω → ψ → ψ) (run : ω → α × ω) (x : ψ) : α × ψ :=
  let (result, w) := run (get x)
  (result, put w x)

mutual

/-- Runs an errand on a part of a world. -/
def Errand.within (get : ψ → ω) (put : ω → ψ → ψ) : Errand ω ρ → Errand ψ ρ
  | .act run => .act (onPart get put run)
  | .read attempt block meanwhile report =>
    .read (onPart get put attempt) block (meanwhile.within get put)
      (fun answer elapsed results => onPart get put (report answer elapsed results))

def Agenda.within (get : ψ → ω) (put : ω → ψ → ψ) : Agenda ω ρ → Agenda ψ ρ
  | .done => .done
  | .next due errand rest => .next due (errand.within get put) (rest.within get put)

end

/-- Notes the result of an errand when it is done. -/
def Errand.noted (note : ρ → ω → ω) : Errand ω ρ → Errand ω ρ
  | .act run => .act (fun w => let (result, w) := run w; (result, note result w))
  | .read attempt block meanwhile report =>
    .read attempt block meanwhile (fun answer elapsed results w =>
      let (result, w) := report answer elapsed results w
      (result, note result w))

/-! ## Worlds with a clock -/

/-- How time goes in a world. -/
structure Clock (ω : Type) where
  now : ω → Nat
  /-- How often something was appended to a stream. -/
  appended : ω → Nat
  /-- All happens that comes by itself at the present moment. -/
  settle : ω → ω
  /-- Time goes on up to a moment, and with it all that happens by itself before
  that moment. -/
  pass : (moment : Nat) → ω → ω

/-- A state with a clock on which nothing happens by itself. -/
structure Timed (σ : Type) where
  now : Nat
  state : σ

namespace Timed

variable {σ : Type}

def clock (b : Backend σ) : Clock (Timed σ) where
  now x := x.now
  appended x := b.entryCount x.state
  settle x := x
  pass moment x := { x with now := moment }

def within (errand : Errand σ ρ) : Errand (Timed σ) ρ :=
  errand.within (·.state) (fun s x => { x with state := s })

end Timed

/-! ## Runs -/

/-- A read under way, and its answer with the moment it came. `fresh` says that
it began in the present round and so had its turn. -/
structure Reading (ω : Type) where
  attempt : Attempt ω
  vigil : Vigil
  answer : Option (Except StoreError (List Entry) × Nat)
  fresh : Bool

namespace Reading

def start (attempt : Attempt ω) (deadline : Nat) : Reading ω :=
  ⟨attempt, ⟨deadline, none⟩, none, true⟩

/-- Lets the reader look; one that has its answer does not. -/
def look (c : Clock ω) (r : Reading ω) (w : ω) : Reading ω × ω :=
  match r.answer with
  | some _ => (r, w)
  | none =>
    let now := c.now w
    let (answer, vigil, w) := r.vigil.look c.appended r.attempt now w
    ({ r with vigil, answer := answer.map (fun a => (a, min now vigil.deadline)) }, w)

/-- Lets the readers look, except those that had their turn. -/
def takeTurns (c : Clock ω) : List (Reading ω) → ω → List (Reading ω) × ω
  | [], w => ([], w)
  | r :: rest, w =>
    let (r, w) := if r.fresh then (r, w) else r.look c w
    let (rest, w) := takeTurns c rest w
    (r :: rest, w)

end Reading

/-- A world and the reads under way in it, the latest first. -/
structure Scene (ω : Type) where
  readings : List (Reading ω)
  world : ω

namespace Scene

/-- Ends a round: the readers look, and then the rest of the world goes on. -/
def endRound (c : Clock ω) (s : Scene ω) : Scene ω :=
  let (readings, w) := Reading.takeTurns c s.readings s.world
  ⟨readings.map (fun r => { r with fresh := false }), c.settle w⟩

/-- Waits for a moment, unless it has come. One more round lets those look that
began in the last one. -/
def sleepUntil (c : Clock ω) (moment : Nat) (s : Scene ω) : Scene ω :=
  if moment ≤ c.now s.world then s
  else
    let s := (s.endRound c).endRound c
    { s with world := c.pass moment s.world }

/-- Lets the latest reader look. -/
def lookLatest (c : Clock ω) (s : Scene ω) : Scene ω :=
  match s.readings with
  | [] => s
  | r :: rest =>
    let (r, w) := r.look c s.world
    ⟨r :: rest, w⟩

/-- The answer of the latest read, if it has one. -/
def answer? (s : Scene ω) : Option (Except StoreError (List Entry) × Nat) :=
  s.readings.head?.bind (·.answer)

/-- Waits for the end of the latest read, which is its deadline at the latest. -/
def awaitLatest (c : Clock ω) (deadline : Nat) (s : Scene ω) : Scene ω :=
  if s.answer?.isSome then s
  else
    let s := (if s.readings.head?.any (·.fresh) then s.endRound c else s).lookLatest c
    if s.answer?.isSome then s else (s.sleepUntil c deadline).lookLatest c

end Scene

mutual

/-- Runs an errand to its end. A read looks before its agenda begins, and ends
when the agenda is done and it has its answer. -/
def Errand.perform (c : Clock ω) : Errand ω ρ → Scene ω → ρ × Scene ω
  | .act run, s =>
    let (result, w) := run s.world
    (result, { s with world := w })
  | .read attempt block meanwhile report, s =>
    let start := c.now s.world
    let reading := Reading.start attempt (start + block)
    let s := Scene.lookLatest c ⟨reading :: s.readings, s.world⟩
    let (results, s) := meanwhile.perform c start s
    let s := s.awaitLatest c (start + block)
    let (answer, moment) := s.answer?.getD (.ok [], start + block)
    let (result, w) := report answer (moment - start) results s.world
    (result, ⟨s.readings.tail, w⟩)

/-- Runs the errands of an agenda; their times count from `start`. -/
def Agenda.perform (c : Clock ω) (start : Nat) : Agenda ω ρ → Scene ω → List ρ × Scene ω
  | .done, s => ([], s)
  | .next due errand rest, s =>
    let (result, s) := errand.perform c (s.sleepUntil c (start + due))
    let (results, s) := rest.perform c start s
    (result :: results, s)

end

/-- Runs errands one after the other. -/
def Errand.performAll (c : Clock ω) : List (Errand ω ρ) → ω → List ρ × ω
  | [], w => ([], w)
  | errand :: rest, w =>
    let (result, s) := errand.perform c ⟨[], w⟩
    let (results, w) := performAll c rest s.world
    (result :: results, w)

end LifecycleLog
