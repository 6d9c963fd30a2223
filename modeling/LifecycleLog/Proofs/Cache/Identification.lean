-- Identification beside its repository. Whatever calls to the store fail, and
-- whatever half-written pairs they leave, the cache names for a key only what
-- the repository says of it. So the answers are those of the repository alone.
import LifecycleLog.Proofs.Cache.Forgetting

namespace LifecycleLog

/-- A key that is asked for, and the faults that the calls to the store meet. -/
structure Inquiry where
  key : String
  faults : List (Option Fault)
  deriving DecidableEq, Repr

namespace Repository

variable {repository : Repository} {keys : Keys} {key : String}

/-- The answers to inquiries, one after the other on the same store. -/
def answers (repository : Repository) : List Inquiry → Keys → List (Except IdentifyError String)
  | [], _ => []
  | q :: rest, keys =>
    let (answer, keys') := (ThingCall.identify q.key repository).run q.faults keys
    answer :: repository.answers rest keys'

/-- The answer to a key is the one that the repository alone would give. -/
structure Decides (repository : Repository) (key : String) (answer : Except IdentifyError String) :
    Prop where
  known : ∀ id, answer = .ok id ↔ repository key = .ok (some id)
  unknown : answer = .error .unknownKey ↔ repository key = .ok none
  failed : ∀ detail, answer = .error (.repository detail) ↔ repository key = .error detail

theorem decides_known {id : String} (h : repository key = .ok (some id)) :
    repository.Decides key (.ok id) := by
  constructor <;> simp [h]

theorem decides_unknown (h : repository key = .ok none) :
    repository.Decides key (.error .unknownKey) := by
  constructor <;> simp [h]

theorem decides_failed {detail : String} (h : repository key = .error detail) :
    repository.Decides key (.error (.repository detail)) := by
  constructor <;> simp [h]

/-- The cache names for a key only what the repository knows. -/
def Backs (repository : Repository) (keys : Keys) : Prop :=
  ∀ key id, keys.get? (thingPairs.forwardKey key) = some id → repository key = .ok (some id)

/-- A save of what the repository knows may be stopped anywhere. -/
theorem Backs.stage {id : String} (h : repository.Backs keys)
    (hkey : repository key = .ok (some id)) {keys' : Keys}
    (hs : thingPairs.SaveStage key id keys keys') : repository.Backs keys' := by
  intro k i hk
  rcases hs.forward sidesApart_thingPairs hk with ⟨rfl, rfl⟩ | hold
  · exact hkey
  · exact h k i hold

/-- One identification: the answer is the repository's, and the cache stays backed. -/
theorem Backs.identify (h : repository.Backs keys) (key : String) (faults : List (Option Fault)) :
    repository.Decides key ((ThingCall.identify key repository).run faults keys).1 ∧
      repository.Backs ((ThingCall.identify key repository).run faults keys).2 := by
  obtain ⟨r, rest, hrun, hhit⟩ := run_id key faults keys
  unfold ThingCall.run LifecycleLog.identify
  simp only [Program.run_bind, run_onStore, hrun]
  cases r with
  | ok id => exact ⟨decides_known (h key id (hhit id rfl)), h⟩
  | error e =>
    -- the store had nothing to say, so the repository is asked
    simp only [Program.run_ask, Repository.answer]
    cases hr : repository key with
    | error detail => exact ⟨decides_failed hr, h⟩
    | ok found =>
      cases found with
      | none => exact ⟨decides_unknown hr, h⟩
      | some id =>
        simp only [Program.run_bind, run_onStore, Program.run_done]
        have hsave := (PairCache.endures_save_once thingPairs key id keys).run_faulted rest
        exact ⟨decides_known hr, h.stage hr hsave.1⟩

/-- The cache never shows. From a cache with no entry, and whatever fails on the
way, each identification answers what the repository alone says of its key: the
id that it knows, that it knows none, or its failure. -/
theorem identification_answers_as_the_repository (repository : Repository) (keys : Keys)
    (hk : ∀ key, thingPairs.Owns key → keys.get? key = none) (inquiries : List Inquiry) :
    List.Forall₂ (fun q answer => repository.Decides q.key answer) inquiries
      (repository.answers inquiries keys) := by
  have h : repository.Backs keys := by
    intro key id hid
    rw [hk _ (thingPairs.owns_forwardKey key)] at hid
    cases hid
  clear hk
  induction inquiries generalizing keys with
  | nil => exact .nil
  | cons q rest ih =>
    obtain ⟨hanswer, hbacks⟩ := h.identify q.key q.faults
    exact .cons hanswer (ih _ hbacks)

/-- A repository that knows one thing, by two keys. -/
def ofTwoKeys : Repository := fun key =>
  if key = "k1" ∨ key = "k2" then .ok (some "t") else .ok none

/-- Inquiries about both keys, which unlink each other, while calls fail on the way. -/
def troubledInquiries : List Inquiry :=
  [⟨"k1", [none, none, none, some (.unreported (.unavailable "down"))]⟩,
    ⟨"k2", [none, none, none, none, none, some (.refused (.unavailable "down"))]⟩,
    ⟨"k1", []⟩, ⟨"k3", [some (.refused (.unavailable "down"))]⟩]

theorem both_keys_of_a_thing_are_identified :
    (∀ key, thingPairs.Owns key → (∅ : Keys).get? key = none) ∧
      List.Forall₂ (fun q answer => ofTwoKeys.Decides q.key answer) troubledInquiries
        [.ok "t", .ok "t", .ok "t", .error .unknownKey] := by
  have hk : ∀ key, thingPairs.Owns key → (∅ : Keys).get? key = none := fun _ _ => rfl
  have hanswers : ofTwoKeys.answers troubledInquiries ∅
      = [.ok "t", .ok "t", .ok "t", .error .unknownKey] := by decide +kernel
  have h := identification_answers_as_the_repository ofTwoKeys ∅ hk troubledInquiries
  rw [hanswers] at h
  exact ⟨hk, h⟩

end Repository

end LifecycleLog
