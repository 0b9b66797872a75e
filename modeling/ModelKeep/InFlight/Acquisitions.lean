import Mathlib.Logic.Function.Basic
import ModelKeep.PullThrough.Claim
import ModelKeep.SingleFlight

/-!
# Acquisitions in flight

The threads of the flights, the registry of what is in flight, and the tokens.
A flight registers its acquisition, runs it call by call, takes the
registration back and then shows its outcome to everyone who joined.  What the
archive, the staging area and upstream answer is left open; the token of an
acquisition is shared with whoever cancels it.

The registry lock of the single-flight map makes a lookup with its
registration, and a retirement with its outcome, one step.
-/

namespace ModelKeep
namespace InFlight

open Concurrency PullThrough

/-- What an acquisition ends with. -/
inductive Landing
  | acquired (result : AcquisitionResult)
  | refreshed (result : RefreshResult)
  deriving DecidableEq

/-- What a caller brings to the single-flight maps. -/
inductive Request
  | pullThrough
      (repository : Repository)
      (requestedRevision : String)
      (selection : FileSelection)
      (reconcile : Bool)
  | refresh (repository : Repository) (reference : String) (dryRun : Bool)

/-- The keys of both maps; who started a flight is no part of them. -/
inductive FlightKey
  | pullThrough
      (repository : Repository)
      (requestedRevision : String)
      (identity : List String)
  | refresh (repository : Repository) (reference : String) (dryRun : Bool)
  deriving DecidableEq

def Request.key : Request → FlightKey
  | .pullThrough repository requestedRevision selection _ =>
      .pullThrough repository requestedRevision selection.identity
  | .refresh repository reference dryRun =>
      .refresh repository reference dryRun

/-- The `operation` of an entry. -/
inductive Operation
  | pullThrough
  | refresh
  deriving DecidableEq

/-- What an entry of the registry is found by. -/
structure Target where
  repository : Repository
  requestedRevision : String
  included : List String
  excluded : List String
  operation : Operation
  deriving DecidableEq

/-- What `register` is told. -/
def Request.target : Request → Target
  | .pullThrough repository requestedRevision selection _ =>
      ⟨repository, requestedRevision, selection.included, selection.excluded,
        .pullThrough⟩
  | .refresh repository reference _ =>
      ⟨repository, reference, [], [], .refresh⟩

/-- The body of a flight. -/
def Request.body :
    Request → Program PullThrough.interface (Except PullThroughError Landing)
  | .pullThrough repository requestedRevision selection reconcile => do
      let result ← (acquisition repository requestedRevision reconcile
        selection).run
      .done (result.map .acquired)
  | .refresh repository reference dryRun => do
      let result ← (refreshOnce repository reference dryRun).run
      .done (result.map .refreshed)

/-- How far the thread of a flight has come. -/
inductive Worker
  | starting
  /-- It is registered, and this is left of its body. -/
  | working
      (entry : Nat)
      (rest : Program PullThrough.interface (Except PullThroughError Landing))
  /-- The body has returned or panicked. -/
  | ended (entry : Nat) (ending : Ending Landing PullThroughError)
  /-- The registration is taken back. -/
  | dropped (entry : Nat) (ending : Ending Landing PullThroughError)
  /-- The key is retired, and callers see the outcome. -/
  | ceased (entry : Nat) (ending : Ending Landing PullThroughError)

/-- The entry of the registry that the thread has made. -/
def Worker.entry? : Worker → Option Nat
  | starting => none
  | working entry _ => some entry
  | ended entry _ => some entry
  | dropped entry _ => some entry
  | ceased entry _ => some entry

/-- The body of the flight will make no call any more. -/
def Worker.Ended : Worker → Prop
  | ended _ _ => True
  | dropped _ _ => True
  | ceased _ _ => True
  | _ => False

structure Flight where
  request : Request
  worker : Worker

/-- The flights, the registry in the order of its ids, the tokens, and what
each flight has asked the archive to change. -/
structure Acquisitions where
  current : FlightKey → Option Nat
  flight : Nat → Option Flight
  next : Nat
  registry : List (Nat × Target)
  nextEntry : Nat
  token : Nat → Cancellation
  writes : Nat → List PullThrough.Op

namespace Acquisitions

/-- `PullThrough::new`. -/
def new : Acquisitions :=
  ⟨fun _ => none, fun _ => none, 0, [], 0, fun _ => .new, fun _ => []⟩

/-- The thread of a flight goes on. -/
def advance
    (acquisitions : Acquisitions)
    (number : Nat)
    (flight : Flight)
    (worker : Worker) :
    Acquisitions :=
  { acquisitions with
    flight := Function.update acquisitions.flight number
      (some { flight with worker := worker }) }

def setToken
    (acquisitions : Acquisitions)
    (entry : Nat)
    (token : Cancellation) :
    Acquisitions :=
  { acquisitions with
    token := Function.update acquisitions.token entry token }

/-- The flight that a caller of `join` shares. -/
def join (acquisitions : Acquisitions) (request : Request) :
    Nat × Acquisitions :=
  match acquisitions.current request.key with
  | some number => (number, acquisitions)
  | none =>
      (acquisitions.next,
        { acquisitions with
          current := Function.update acquisitions.current request.key
            (some acquisitions.next)
          flight := Function.update acquisitions.flight acquisitions.next
            (some ⟨request, .starting⟩)
          next := acquisitions.next + 1 })

/-- `AcquisitionRegistry::register`. -/
def register
    (acquisitions : Acquisitions)
    (number : Nat)
    (flight : Flight) :
    Acquisitions :=
  { acquisitions.advance number flight
      (.working acquisitions.nextEntry flight.request.body) with
    registry := acquisitions.registry ++
      [(acquisitions.nextEntry, flight.request.target)]
    nextEntry := acquisitions.nextEntry + 1
    token := Function.update acquisitions.token acquisitions.nextEntry .new }

/-- `AcquisitionRegistry::matching`: the first entry with this target. -/
def matching (acquisitions : Acquisitions) (target : Target) : Option Nat :=
  (acquisitions.registry.find? fun entry => entry.2 = target).map Prod.fst

/-- `AcquisitionRegistry::remove`. -/
def deregister (acquisitions : Acquisitions) (entry : Nat) : Acquisitions :=
  { acquisitions with
    registry := acquisitions.registry.filter fun other => other.1 ≠ entry }

/-- `flights.remove` of the key. -/
def retire (acquisitions : Acquisitions) (key : FlightKey) : Acquisitions :=
  { acquisitions with
    current := Function.update acquisitions.current key none }

/-- The call is remembered if it changes the archive. -/
def record
    (acquisitions : Acquisitions)
    (number : Nat)
    (op : PullThrough.Op) :
    Acquisitions :=
  if op.Writes then
    { acquisitions with
      writes := Function.update acquisitions.writes number
        (acquisitions.writes number ++ [op]) }
  else
    acquisitions

end Acquisitions

/-- What a call of an acquisition is answered and does to its token.  A
transfer hands its helper to the token and takes it back; an acquisition does
not cancel itself. -/
def Answers :
    (op : PullThrough.Op) → Cancellation → op.Reply → Cancellation → Prop
  | .isCancelled, before, reply, after =>
      reply = before.isCancelled ∧ after = before
  | .commit, before, granted, after => before.commit = (granted, after)
  | .cancel, _, _, _ => False
  | .fetch _, before, _, after => after.phase = before.phase
  | _, before, _, after => after = before

namespace Acquisitions

/-- The steps of the threads, of clients that join, and of whoever cancels an
acquisition by its identifier. -/
inductive Step : Acquisitions → Acquisitions → Prop
  | join
      (s : Acquisitions)
      (request : Request) :
      Step s (s.join request).2
  | register
      (s : Acquisitions)
      (number : Nat)
      (flight : Flight) :
      s.flight number = some flight →
      flight.worker = .starting →
      Step s (s.register number flight)
  | call
      (s : Acquisitions)
      (number entry : Nat)
      (flight : Flight)
      (op : PullThrough.Op)
      (next : op.Reply →
        Program PullThrough.interface (Except PullThroughError Landing))
      (reply : op.Reply)
      (token : Cancellation) :
      s.flight number = some flight →
      flight.worker = .working entry (.call op next) →
      Answers op (s.token entry) reply token →
      Step s (((s.setToken entry token).advance number flight
        (.working entry (next reply))).record number op)
  | finish
      (s : Acquisitions)
      (number entry : Nat)
      (flight : Flight)
      (result : Except PullThroughError Landing) :
      s.flight number = some flight →
      flight.worker = .working entry (.done result) →
      Step s (s.advance number flight (.ended entry (some result)))
  | panic
      (s : Acquisitions)
      (number entry : Nat)
      (flight : Flight)
      (rest : Program PullThrough.interface
        (Except PullThroughError Landing)) :
      s.flight number = some flight →
      flight.worker = .working entry rest →
      Step s (s.advance number flight (.ended entry none))
  | drop
      (s : Acquisitions)
      (number entry : Nat)
      (flight : Flight)
      (ending : Ending Landing PullThroughError) :
      s.flight number = some flight →
      flight.worker = .ended entry ending →
      Step s ((s.deregister entry).advance number flight
        (.dropped entry ending))
  | land
      (s : Acquisitions)
      (number entry : Nat)
      (flight : Flight)
      (ending : Ending Landing PullThroughError) :
      s.flight number = some flight →
      flight.worker = .dropped entry ending →
      Step s ((s.retire flight.request.key).advance number flight
        (.ceased entry ending))
  /-- `cancel_acquisition`; the entry was found before. -/
  | cancel
      (s : Acquisitions)
      (entry : Nat) :
      entry < s.nextEntry →
      Step s (s.setToken entry (s.token entry).cancel.2)

/-! ## What every step keeps -/

/-- The flights have entries of their own, and what is left of a body writes
nothing before its claim. -/
structure Sound (s : Acquisitions) : Prop where
  fresh : ∀ number, s.next ≤ number → s.flight number = none
  listed : ∀ pair ∈ s.registry, pair.1 < s.nextEntry
  issued : ∀ number flight entry, s.flight number = some flight →
    flight.worker.entry? = some entry → entry < s.nextEntry
  distinct : ∀ number other flight otherFlight entry,
    s.flight number = some flight → s.flight other = some otherFlight →
    flight.worker.entry? = some entry →
    otherFlight.worker.entry? = some entry → number = other
  withheld : ∀ number flight entry rest, s.flight number = some flight →
    flight.worker = .working entry rest →
    (s.token entry).phase ≠ .committing → Withholds rest

/-- The flight has ended, or its token is cancelled: it writes nothing more. -/
def Stopped (s : Acquisitions) (number : Nat) : Prop :=
  ∃ flight, s.flight number = some flight ∧ (flight.worker.Ended ∨
    ∃ entry, flight.worker.entry? = some entry ∧
      (s.token entry).phase = .cancelled)

/-- The flight has ended, or it may publish. -/
def Claimed (s : Acquisitions) (number : Nat) : Prop :=
  ∃ flight, s.flight number = some flight ∧ (flight.worker.Ended ∨
    ∃ entry, flight.worker.entry? = some entry ∧
      (s.token entry).phase = .committing)

end Acquisitions

section answers

variable {op : PullThrough.Op} {before after : Cancellation}
  {reply : op.Reply}

/-- A token that has left `running` stays where it is. -/
theorem Answers.phase
    (answers : Answers op before reply after)
    (left : before.phase ≠ .running) :
    after.phase = before.phase := by
  cases op with
  | commit =>
      have phase := before.commit_phase
      rw [show before.commit = (reply, after) from answers, if_neg left]
        at phase
      exact phase
  | cancel => exact answers.elim
  | isCancelled => rw [answers.2]
  | fetch => exact answers
  | _ => exact congrArg _ (show after = before from answers)

theorem Answers.claims
    (answers : Answers op before reply after)
    (claims : Claims op reply) :
    after.phase = .committing := by
  cases op with
  | commit =>
      have phase := before.commit_phase
      have outcome := before.commit_outcome
      rw [show before.commit = (reply, after) from answers] at phase outcome
      rw [phase, if_pos (outcome.mp claims)]
  | _ => exact claims.elim

end answers

namespace Request

/-- No body writes anything before its claim. -/
theorem withholds_body (request : Request) : Withholds request.body := by
  cases request with
  | pullThrough repository requestedRevision selection reconcile =>
      exact withholds_acquisition.bind fun _ => trivial
  | refresh repository reference dryRun =>
      exact withholds_refreshOnce.bind fun _ => trivial

end Request

namespace Acquisitions

section steps

variable {s t : Acquisitions} {number : Nat}

@[simp] theorem flight_record
    {op : PullThrough.Op} :
    (s.record number op).flight = s.flight := by
  unfold record
  split <;> rfl

@[simp] theorem token_record
    {op : PullThrough.Op} :
    (s.record number op).token = s.token := by
  unfold record
  split <;> rfl

@[simp] theorem next_record
    {op : PullThrough.Op} :
    (s.record number op).next = s.next := by
  unfold record
  split <;> rfl

@[simp] theorem registry_record
    {op : PullThrough.Op} :
    (s.record number op).registry = s.registry := by
  unfold record
  split <;> rfl

@[simp] theorem nextEntry_record
    {op : PullThrough.Op} :
    (s.record number op).nextEntry = s.nextEntry := by
  unfold record
  split <;> rfl

theorem writes_record
    {op : PullThrough.Op}
    (harmless : op.Harmless) :
    (s.record number op).writes = s.writes := by
  rw [record, if_neg harmless]

theorem writes_record_of_ne
    {op : PullThrough.Op}
    {other : Nat}
    (different : other ≠ number) :
    (s.record number op).writes other = s.writes other := by
  unfold record
  split
  · exact Function.update_of_ne different ..
  · rfl

/-- The thread of one flight goes on, and may move its own token. -/
structure Advances
    (s t : Acquisitions)
    (number entry : Nat)
    (flight : Flight)
    (worker : Worker) :
    Prop where
  found : s.flight number = some flight
  own : flight.worker.entry? = some entry
  same : worker.entry? = some entry
  ended : flight.worker.Ended → worker.Ended
  flights : t.flight = Function.update s.flight number
    (some { flight with worker := worker })
  next : t.next = s.next
  registry : ∀ pair ∈ t.registry, pair ∈ s.registry
  nextEntry : t.nextEntry = s.nextEntry
  token : ∀ other, other ≠ entry → t.token other = s.token other
  phase : (s.token entry).phase ≠ .running →
    (t.token entry).phase = (s.token entry).phase
  withheld : ∀ rest, worker = .working entry rest →
    (t.token entry).phase ≠ .committing → Withholds rest
  writes : ∀ other, t.writes other = s.writes other ∨
    other = number ∧ ¬flight.worker.Ended ∧
      (s.token entry).phase = .committing

/-- What a step does: a flight is added, registers or goes on, or a token is
cancelled. -/
inductive Does (s t : Acquisitions) : Prop
  | none (same : t = s)
  | added
      (request : Request)
      (flights : t.flight = Function.update s.flight s.next
        (some ⟨request, .starting⟩))
      (next : t.next = s.next + 1)
      (registry : t.registry = s.registry)
      (nextEntry : t.nextEntry = s.nextEntry)
      (token : t.token = s.token)
      (writes : t.writes = s.writes)
  | registered
      (number : Nat)
      (flight : Flight)
      (found : s.flight number = some flight)
      (starting : flight.worker = .starting)
      (same : t = s.register number flight)
  | advanced
      (number entry : Nat)
      (flight : Flight)
      (worker : Worker)
      (advances : Advances s t number entry flight worker)
  | cancelled
      (entry : Nat)
      (same : t = s.setToken entry (s.token entry).cancel.2)

theorem Advances.call
    {entry : Nat}
    {flight : Flight}
    {op : PullThrough.Op}
    {next : op.Reply →
      Program PullThrough.interface (Except PullThroughError Landing)}
    {reply : op.Reply}
    {token : Cancellation}
    (sound : s.Sound)
    (found : s.flight number = some flight)
    (working : flight.worker = .working entry (.call op next))
    (answers : Answers op (s.token entry) reply token) :
    Advances s (((s.setToken entry token).advance number flight
      (.working entry (next reply))).record number op) number entry flight
      (.working entry (next reply)) := by
  have withholds := sound.withheld number flight entry _ found working
  have moved : (((s.setToken entry token).advance number flight
      (.working entry (next reply))).record number op).token entry = token := by
    rw [token_record]
    exact Function.update_self ..
  refine ⟨found, by rw [working]; rfl, rfl, by rw [working]; exact id, ?_, ?_,
    ?_, ?_, ?_, ?_, ?_, ?_⟩
  · rw [flight_record]
    rfl
  · rw [next_record]
    rfl
  · rw [registry_record]
    exact fun _ => id
  · rw [nextEntry_record]
    rfl
  · intro other different
    rw [token_record]
    exact Function.update_of_ne different ..
  · intro left
    rw [moved]
    exact answers.phase left
  · rintro rest ⟨⟩ uncommitted
    rw [moved] at uncommitted
    have before : (s.token entry).phase ≠ .committing := by
      intro committing
      exact uncommitted
        ((answers.phase (by rw [committing]; simp)).trans committing)
    rcases (withholds before).2 reply with claims | later
    · exact absurd (answers.claims claims) uncommitted
    · exact later
  · intro other
    by_cases same : other = number
    · by_cases committing : (s.token entry).phase = .committing
      · exact Or.inr ⟨same, by rw [working]; exact id, committing⟩
      · left
        rw [writes_record (withholds committing).1]
        rfl
    · left
      rw [writes_record_of_ne same]
      rfl

/-- A part of a thread that makes no call. -/
theorem Advances.quiet
    {entry : Nat}
    {flight : Flight}
    {worker : Worker}
    (found : s.flight number = some flight)
    (own : flight.worker.entry? = some entry)
    (same : worker.entry? = some entry)
    (ended : worker.Ended)
    (flights : t.flight = Function.update s.flight number
      (some { flight with worker := worker }))
    (next : t.next = s.next)
    (registry : ∀ pair ∈ t.registry, pair ∈ s.registry)
    (nextEntry : t.nextEntry = s.nextEntry)
    (token : t.token = s.token)
    (writes : t.writes = s.writes) :
    Advances s t number entry flight worker := by
  refine ⟨found, own, same, fun _ => ended, flights, next, registry, nextEntry,
    fun _ _ => by rw [token], fun _ => by rw [token], ?_,
    fun _ => Or.inl (by rw [writes])⟩
  rintro rest rfl
  exact ended.elim

theorem Step.does
    (sound : s.Sound)
    (step : Step s t) :
    Does s t := by
  cases step with
  | join request =>
      unfold Acquisitions.join
      split
      · exact .none rfl
      · exact .added request rfl rfl rfl rfl rfl rfl
  | register number flight found starting =>
      exact .registered number flight found starting rfl
  | call number entry flight op next reply token found working answers =>
      exact .advanced number entry flight _
        (.call sound found working answers)
  | finish number entry flight result found working =>
      exact .advanced number entry flight (.ended entry (some result))
        (.quiet found (by rw [working]; rfl) rfl trivial rfl rfl
          (fun _ => id) rfl rfl rfl)
  | panic number entry flight rest found working =>
      exact .advanced number entry flight (.ended entry none)
        (.quiet found (by rw [working]; rfl) rfl trivial rfl rfl
          (fun _ => id) rfl rfl rfl)
  | drop number entry flight ending found working =>
      exact .advanced number entry flight (.dropped entry ending)
        (.quiet found (by rw [working]; rfl) rfl trivial rfl rfl
          (fun _ => List.mem_of_mem_filter) rfl rfl rfl)
  | land number entry flight ending found working =>
      exact .advanced number entry flight (.ceased entry ending)
        (.quiet found (by rw [working]; rfl) rfl trivial rfl rfl
          (fun _ => id) rfl rfl rfl)
  | cancel entry issued => exact .cancelled entry rfl

theorem new_sound : new.Sound := by
  refine ⟨fun _ _ => rfl, ?_, ?_, ?_, ?_⟩
  · rintro pair ⟨⟩
  · rintro number flight entry ⟨⟩
  · rintro number other flight otherFlight entry ⟨⟩
  · rintro number flight entry rest ⟨⟩

theorem Advances.sound
    {entry : Nat}
    {flight : Flight}
    {worker : Worker}
    (sound : s.Sound)
    (advances : Advances s t number entry flight worker) :
    t.Sound := by
  have known : number < s.next := by
    by_contra beyond
    have absent := sound.fresh number (Nat.le_of_not_lt beyond)
    rw [advances.found] at absent
    cases absent
  -- every flight had its entry before
  have was : ∀ other later, t.flight other = some later →
      (other = number ∧ later = { flight with worker := worker }) ∨
        other ≠ number ∧ s.flight other = some later := by
    intro other later found
    rw [advances.flights] at found
    by_cases same : other = number
    · rw [same, Function.update_self] at found
      exact Or.inl ⟨same, (Option.some.inj found).symm⟩
    · rw [Function.update_of_ne same] at found
      exact Or.inr ⟨same, found⟩
  have entries : ∀ other later found, t.flight other = some later →
      later.worker.entry? = some found →
      ∃ old, s.flight other = some old ∧ old.worker.entry? = some found := by
    intro other later found present made
    rcases was other later present with ⟨same, rfl⟩ | ⟨_, before⟩
    · rw [same]
      exact ⟨flight, advances.found, advances.own.trans
        (advances.same.symm.trans made)⟩
    · exact ⟨later, before, made⟩
  refine ⟨?_, ?_, ?_, ?_, ?_⟩
  · intro other beyond
    rw [advances.next] at beyond
    rw [advances.flights, Function.update_of_ne (by omega)]
    exact sound.fresh other beyond
  · intro pair member
    rw [advances.nextEntry]
    exact sound.listed pair (advances.registry pair member)
  · intro other later found present made
    obtain ⟨old, before, own⟩ := entries other later found present made
    rw [advances.nextEntry]
    exact sound.issued other old found before own
  · intro first second one two found present presentTwo made madeTwo
    obtain ⟨old, before, own⟩ := entries first one found present made
    obtain ⟨oldTwo, beforeTwo, ownTwo⟩ :=
      entries second two found presentTwo madeTwo
    exact sound.distinct first second old oldTwo found before beforeTwo own
      ownTwo
  · intro other later found rest present working uncommitted
    rcases was other later present with ⟨same, rfl⟩ | ⟨different, before⟩
    · have sameEntry : found = entry := by
        have made := advances.same
        rw [show worker = .working found rest from working] at made
        exact Option.some.inj made
      subst sameEntry
      exact advances.withheld rest working uncommitted
    · have apart : found ≠ entry := by
        rintro rfl
        exact different (sound.distinct other number later flight found before
          advances.found (by rw [working]; rfl) advances.own)
      rw [advances.token found apart] at uncommitted
      exact sound.withheld other later found rest before working uncommitted

theorem Does.sound
    (sound : s.Sound)
    (does : Does s t) :
    t.Sound := by
  cases does with
  | none same => exact same ▸ sound
  | added request flights next registry nextEntry token writes =>
      have was : ∀ other later, t.flight other = some later →
          later.worker = .starting ∨ s.flight other = some later := by
        intro other later found
        rw [flights] at found
        by_cases same : other = s.next
        · rw [same, Function.update_self] at found
          left
          rw [← Option.some.inj found]
        · rw [Function.update_of_ne same] at found
          exact Or.inr found
      refine ⟨?_, ?_, ?_, ?_, ?_⟩
      · intro other beyond
        rw [next] at beyond
        rw [flights, Function.update_of_ne (by omega)]
        exact sound.fresh other (by omega)
      · rw [registry, nextEntry]
        exact sound.listed
      · intro other later entry found made
        rcases was other later found with starting | before
        · rw [starting] at made
          cases made
        · rw [nextEntry]
          exact sound.issued other later entry before made
      · intro first second one two entry found foundTwo made madeTwo
        rcases was first one found with starting | before
        · rw [starting] at made
          cases made
        · rcases was second two foundTwo with starting | beforeTwo
          · rw [starting] at madeTwo
            cases madeTwo
          · exact sound.distinct first second one two entry before beforeTwo
              made madeTwo
      · intro other later entry rest found working uncommitted
        rcases was other later found with starting | before
        · rw [starting] at working
          cases working
        · rw [token] at uncommitted
          exact sound.withheld other later entry rest before working
            uncommitted
  | registered number flight found starting same =>
      subst same
      have was : ∀ other later, (s.register number flight).flight other =
          some later →
          (other = number ∧ later.worker =
            .working s.nextEntry flight.request.body) ∨
          s.flight other = some later := by
        intro other later present
        by_cases same : other = number
        · rw [same] at present
          rw [show (s.register number flight).flight number = _ from
            Function.update_self ..] at present
          exact Or.inl ⟨same, by rw [← Option.some.inj present]⟩
        · exact Or.inr ((Function.update_of_ne same ..).symm.trans present)
      have old : ∀ other later entry, s.flight other = some later →
          later.worker.entry? = some entry →
          (s.register number flight).token entry = s.token entry := by
        intro other later entry before made
        exact Function.update_of_ne
          (Nat.ne_of_lt (sound.issued other later entry before made)) ..
      refine ⟨?_, ?_, ?_, ?_, ?_⟩
      · intro other beyond
        have different : other ≠ number := by
          rintro rfl
          have absent := sound.fresh other beyond
          rw [found] at absent
          cases absent
        exact (Function.update_of_ne different ..).trans
          (sound.fresh other beyond)
      · intro pair member
        rcases List.mem_append.mp member with before | new
        · exact (sound.listed pair before).trans (Nat.lt_succ_self _)
        · rw [List.mem_singleton.mp new]
          exact Nat.lt_succ_self _
      · intro other later entry present made
        rcases was other later present with ⟨_, working⟩ | before
        · rw [working] at made
          rw [← Option.some.inj made]
          exact Nat.lt_succ_self _
        · exact (sound.issued other later entry before made).trans
            (Nat.lt_succ_self _)
      · intro first second one two entry present presentTwo made madeTwo
        rcases was first one present with ⟨same, working⟩ | before
        · rw [working] at made
          cases made
          rcases was second two presentTwo with ⟨sameTwo, _⟩ | beforeTwo
          · rw [same, sameTwo]
          · exact absurd (sound.issued second two _ beforeTwo madeTwo)
              (lt_irrefl _)
        · rcases was second two presentTwo with ⟨_, working⟩ | beforeTwo
          · rw [working] at madeTwo
            cases madeTwo
            exact absurd (sound.issued first one _ before made)
              (lt_irrefl _)
          · exact sound.distinct first second one two entry before beforeTwo
              made madeTwo
      · intro other later entry rest present working uncommitted
        rcases was other later present with ⟨_, registered⟩ | before
        · rw [registered] at working
          cases working
          exact flight.request.withholds_body
        · rw [old other later entry before (by rw [working]; rfl)]
            at uncommitted
          exact sound.withheld other later entry rest before working
            uncommitted
  | advanced number entry flight worker advances => exact advances.sound sound
  | cancelled entry same =>
      subst same
      refine ⟨sound.fresh, sound.listed, sound.issued, sound.distinct, ?_⟩
      intro other later found rest present working uncommitted
      refine sound.withheld other later found rest present working ?_
      intro committing
      apply uncommitted
      by_cases equal : found = entry
      · subst equal
        rw [show (s.setToken found _).token found = _ from
          Function.update_self .., Cancellation.cancel_phase,
          if_neg (by rw [committing]; simp)]
        exact committing
      · rw [show (s.setToken entry _).token found = _ from
          Function.update_of_ne equal ..]
        exact committing

/-- A flight keeps its entry, and does not come back to life. -/
theorem Does.flight
    {flight : Flight}
    (sound : s.Sound)
    (does : Does s t)
    (found : s.flight number = some flight) :
    ∃ later, t.flight number = some later ∧
      later.request = flight.request ∧
      (flight.worker.Ended → later.worker.Ended) ∧
      ∀ entry, flight.worker.entry? = some entry →
        later.worker.entry? = some entry := by
  have unchanged : t.flight number = s.flight number →
      ∃ later, t.flight number = some later ∧
        later.request = flight.request ∧
        (flight.worker.Ended → later.worker.Ended) ∧
        ∀ entry, flight.worker.entry? = some entry →
          later.worker.entry? = some entry := fun same =>
    ⟨flight, same.trans found, rfl, id, fun _ => id⟩
  cases does with
  | none same => exact unchanged (by rw [same])
  | added request flights next registry nextEntry token writes =>
      refine unchanged ?_
      rw [flights, Function.update_of_ne]
      rintro rfl
      have absent := sound.fresh s.next le_rfl
      rw [found] at absent
      cases absent
  | registered other otherFlight present starting same =>
      subst same
      by_cases equal : number = other
      · subst equal
        cases found.symm.trans present
        exact ⟨_, Function.update_self .., rfl, by rw [starting]; exact False.elim,
          by rw [starting]; rintro entry ⟨⟩⟩
      · exact unchanged (Function.update_of_ne equal ..)
  | advanced other entry otherFlight worker advances =>
      by_cases equal : number = other
      · subst equal
        cases found.symm.trans advances.found
        refine ⟨{ flight with worker := worker },
          by rw [advances.flights, Function.update_self], rfl,
          advances.ended, ?_⟩
        intro made own
        rw [← own, advances.own]
        exact advances.same
      · exact unchanged (by rw [advances.flights, Function.update_of_ne equal])
  | cancelled entry same =>
      subst same
      exact unchanged rfl

/-- A token that has left `running` stays where it is. -/
theorem Does.phase
    {entry : Nat}
    (does : Does s t)
    (issued : entry < s.nextEntry)
    (left : (s.token entry).phase ≠ .running) :
    (t.token entry).phase = (s.token entry).phase := by
  cases does with
  | none same => rw [same]
  | added request flights next registry nextEntry token writes => rw [token]
  | registered other flight found starting same =>
      subst same
      rw [show (s.register other flight).token entry = _ from
        Function.update_of_ne (Nat.ne_of_lt issued) ..]
  | advanced other own flight worker advances =>
      by_cases equal : entry = own
      · subst equal
        exact advances.phase left
      · rw [advances.token entry equal]
  | cancelled other same =>
      subst same
      by_cases equal : entry = other
      · subst equal
        rw [show (s.setToken entry _).token entry = _ from
          Function.update_self .., Cancellation.cancel_phase, if_neg left]
      · rw [show (s.setToken other _).token entry = _ from
          Function.update_of_ne equal ..]

theorem Does.nextEntry
    (does : Does s t) :
    s.nextEntry ≤ t.nextEntry := by
  cases does with
  | none same => rw [same]
  | added request flights next registry nextEntry token writes =>
      exact nextEntry.ge
  | registered number flight found starting same =>
      rw [same]
      exact Nat.le_succ _
  | advanced number entry flight worker advances => exact advances.nextEntry.ge
  | cancelled entry same =>
      rw [same]
      exact le_rfl

/-- What is found in the registry was registered. -/
theorem Sound.matching
    {target : Target}
    {entry : Nat}
    (sound : s.Sound)
    (matched : s.matching target = some entry) :
    entry < s.nextEntry := by
  obtain ⟨pair, found, rfl⟩ := Option.map_eq_some_iff.mp matched
  exact sound.listed pair (List.mem_of_find?_eq_some found)

/-- A flight that is stopped stays so, and writes nothing. -/
theorem Does.stopped
    (sound : s.Sound)
    (does : Does s t)
    (stopped : s.Stopped number) :
    t.Stopped number ∧ t.writes number = s.writes number := by
  obtain ⟨flight, found, ceased⟩ := stopped
  constructor
  · obtain ⟨later, present, _, ended, kept⟩ := does.flight sound found
    refine ⟨later, present, ?_⟩
    rcases ceased with ceased | ⟨entry, own, cancelled⟩
    · exact Or.inl (ended ceased)
    · refine Or.inr ⟨entry, kept entry own, ?_⟩
      rw [does.phase (sound.issued number flight entry found own)
        (by rw [cancelled]; simp), cancelled]
  · cases does with
    | none same => rw [same]
    | added request flights next registry nextEntry token writes => rw [writes]
    | registered other otherFlight present starting same =>
        subst same
        rfl
    | advanced other entry otherFlight worker advances =>
        rcases advances.writes number with same | ⟨rfl, working, committing⟩
        · exact same
        · cases found.symm.trans advances.found
          rcases ceased with ceased | ⟨made, own, cancelled⟩
          · exact absurd ceased working
          · cases own.symm.trans advances.own
            rw [committing] at cancelled
            cases cancelled
    | cancelled entry same =>
        subst same
        rfl

/-- A flight that has passed its claim has passed it for good. -/
theorem Does.claimed
    (sound : s.Sound)
    (does : Does s t)
    (claimed : s.Claimed number) :
    t.Claimed number := by
  obtain ⟨flight, found, past⟩ := claimed
  obtain ⟨later, present, _, ended, kept⟩ := does.flight sound found
  refine ⟨later, present, ?_⟩
  rcases past with ceased | ⟨entry, own, committing⟩
  · exact Or.inl (ended ceased)
  · refine Or.inr ⟨entry, kept entry own, ?_⟩
    rw [does.phase (sound.issued number flight entry found own)
      (by rw [committing]; simp), committing]

end steps

end Acquisitions

end InFlight
end ModelKeep
