import ModelKeep.Fetcher.Run
import Mathlib.Data.List.Forall2

/-!
# What binds a fetch to its commit

The output of the helper comes down to a list of events.  A run over them is
told by the first failure, the last result and the commits that were resolved,
and the commit in the staging directory is the first of these, if none was
recorded before.
-/

namespace ModelKeep
namespace Fetcher

open Concurrency Program
open Staging (World Effect)

/-! ## Events -/

section events

variable (parse : String → Option Json)

/-- The events of lines that can all be read. -/
def Reads (lines : List Line) (events : List Event) : Prop :=
  List.Forall₂ (fun line event => interpret parse line = .ok event) lines
    events

def Event.failure? : Event → Option HelperFailure
  | .failure reported => some reported
  | _ => none

def Event.resolved? : Event → Option String
  | .resolved commit => some commit
  | _ => none

def Event.result? : Event → Option HelperOutput
  | .result output => some output
  | _ => none

/-- The failures that were reported, in order. -/
def failures (events : List Event) : List HelperFailure :=
  events.filterMap Event.failure?

/-- The commits that were resolved, in order. -/
def resolvedCommits (events : List Event) : List String :=
  events.filterMap Event.resolved?

/-- The results, in order. -/
def results (events : List Event) : List HelperOutput :=
  events.filterMap Event.result?

/-- The commit that staging records in the end. -/
def fixedCommit (recorded : Option String) (events : List Event) :
    Option String :=
  recorded.or (resolvedCommits events).head?

/-- Every resolved commit is the one that staging records. -/
def Agrees (recorded : Option String) (events : List Event) : Prop :=
  ∀ commit ∈ resolvedCommits events,
    fixedCommit recorded events = some commit

/-- What an event does to the state of the loop and to the recorded
commit. -/
def observe (recorded : Option String) (read : Read) :
    Event → Except UpstreamError Read × Option String
  | .failure reported =>
      (.ok { read with failure := read.failure.or (some reported) }, recorded)
  | .progress _ => (.ok read, recorded)
  | .resolved commit =>
      if recorded.any fun fixed => fixed ≠ commit then
        (.error (.invalidOutput .stagingMetadataUpdateFailed), recorded)
      else
        (.ok read, some commit)
  | .result output => (.ok { read with result := some output }, recorded)
  | .untyped => (.ok read, recorded)

/-- The loop over the lines, with the recorded commit in place of the staging
directory. -/
def observeAll (recorded : Option String) (read : Read) :
    List Line → Except UpstreamError Read × Option String
  | [] => (.ok read, recorded)
  | line :: rest =>
      match interpret parse line with
      | .error error => (.error error, recorded)
      | .ok event =>
          match observe recorded read event with
          | (.error error, recorded) => (.error error, recorded)
          | (.ok read, recorded) => observeAll recorded read rest

variable {parse}

/-- A resolved commit that is not the recorded one. -/
def Conflicts (recorded : Option String) (event : Event) : Prop :=
  ∃ commit ∈ event.resolved?, ∃ fixed ∈ recorded, fixed ≠ commit

/-- The state of the loop after an event. -/
def Read.next (read : Read) (event : Event) : Read :=
  ⟨event.result?.or read.result, read.failure.or event.failure?⟩

theorem observe_of_fits
    {recorded : Option String}
    {event : Event}
    (fits : ¬Conflicts recorded event)
    (read : Read) :
    observe recorded read event =
      (.ok (read.next event), recorded.or event.resolved?) := by
  cases event with
  | failure reported => simp [observe, Read.next, Event.result?,
      Event.failure?, Event.resolved?]
  | progress event => simp [observe, Read.next, Event.result?,
      Event.failure?, Event.resolved?]
  | result output => simp [observe, Read.next, Event.result?,
      Event.failure?, Event.resolved?]
  | untyped => simp [observe, Read.next, Event.result?, Event.failure?,
      Event.resolved?]
  | resolved commit =>
      have quiet : read.next (.resolved commit) = read := by
        simp [Read.next, Event.result?, Event.failure?]
      rw [quiet]
      cases recorded with
      | none => simp [observe, Event.resolved?]
      | some fixed =>
          have same : fixed = commit := by
            by_contra different
            exact fits ⟨commit, rfl, fixed, rfl, different⟩
          simp [observe, Event.resolved?, same]

theorem observe_of_conflicts
    {recorded : Option String}
    {event : Event}
    (conflicts : Conflicts recorded event)
    (read : Read) :
    observe recorded read event =
      (.error (.invalidOutput .stagingMetadataUpdateFailed), recorded) := by
  obtain ⟨commit, resolved, fixed, rfl, different⟩ := conflicts
  cases event with
  | resolved other =>
      cases resolved
      simp [observe, different]
  | failure reported => cases resolved
  | progress event => cases resolved
  | result output => cases resolved
  | untyped => cases resolved

/-- A recorded commit stays. -/
theorem observe_recorded
    {recorded : Option String}
    {commit : String}
    (fixed : recorded = some commit)
    (read : Read)
    (event : Event) :
    (observe recorded read event).2 = some commit := by
  subst fixed
  by_cases conflicts : Conflicts (some commit) event
  · rw [observe_of_conflicts conflicts]
  · rw [observe_of_fits conflicts]
    rfl

theorem observeAll_recorded
    {recorded : Option String}
    {commit : String}
    (fixed : recorded = some commit)
    (read : Read)
    (lines : List Line) :
    (observeAll parse recorded read lines).2 = some commit := by
  induction lines generalizing recorded read with
  | nil => exact fixed
  | cons line rest inductionHypothesis =>
      unfold observeAll
      cases interpret parse line with
      | error error => exact fixed
      | ok event =>
          have kept : (observe recorded read event).2 = some commit :=
            observe_recorded fixed read event
          dsimp only
          split
          · next same =>
              rw [same] at kept
              exact kept
          · next same =>
              rw [same] at kept
              exact inductionHypothesis kept _

theorem observeAll_append
    (recorded : Option String)
    (read : Read)
    (earlier rest : List Line) :
    observeAll parse recorded read (earlier ++ rest) =
      match observeAll parse recorded read earlier with
      | (.error error, recorded) => (.error error, recorded)
      | (.ok read, recorded) => observeAll parse recorded read rest := by
  induction earlier generalizing recorded read with
  | nil => rfl
  | cons line earlier inductionHypothesis =>
      rw [List.cons_append, observeAll, observeAll]
      cases interpret parse line with
      | error error => rfl
      | ok event =>
          dsimp only
          split
          · rfl
          · exact inductionHypothesis _ _

theorem exists_of_reads
    {lines : List Line}
    {events : List Event}
    (reads : Reads parse lines events)
    {line : Line}
    (member : line ∈ lines) :
    ∃ event, interpret parse line = .ok event := by
  induction reads with
  | nil => cases member
  | cons said reads inductionHypothesis =>
      rcases List.mem_cons.mp member with rfl | later
      · exact ⟨_, said⟩
      · exact inductionHypothesis later

/-- A run that is not ended by a line has read them all. -/
theorem reads_of_ok
    {recorded : Option String}
    {read final : Read}
    {lines : List Line}
    (ok : (observeAll parse recorded read lines).1 = .ok final) :
    ∃ events, Reads parse lines events := by
  induction lines generalizing recorded read with
  | nil => exact ⟨[], List.Forall₂.nil⟩
  | cons line rest inductionHypothesis =>
      unfold observeAll at ok
      cases said : interpret parse line with
      | error error =>
          rw [said] at ok
          cases ok
      | ok event =>
          rw [said] at ok
          dsimp only at ok
          split at ok
          · cases ok
          · obtain ⟨events, reads⟩ := inductionHypothesis ok
            exact ⟨event :: events, List.Forall₂.cons said reads⟩

theorem fixedCommit_cons
    (recorded : Option String)
    (event : Event)
    (events : List Event) :
    fixedCommit recorded (event :: events) =
      fixedCommit (recorded.or event.resolved?) events := by
  unfold fixedCommit resolvedCommits
  cases recorded with
  | some commit => simp
  | none =>
      cases resolved : event.resolved? with
      | none => simp [resolved]
      | some commit => simp [resolved]

theorem resolvedCommits_cons (event : Event) (events : List Event) :
    resolvedCommits (event :: events) =
      event.resolved?.toList ++ resolvedCommits events := by
  unfold resolvedCommits
  cases resolved : event.resolved? with
  | none => simp [resolved]
  | some commit => simp [resolved]

theorem agrees_cons
    (recorded : Option String)
    (event : Event)
    (events : List Event) :
    Agrees recorded (event :: events) ↔
      ¬Conflicts recorded event ∧
        Agrees (recorded.or event.resolved?) events := by
  unfold Agrees Conflicts
  rw [fixedCommit_cons, resolvedCommits_cons]
  cases event.resolved? with
  | none => simp
  | some commit =>
      cases recorded with
      | none => simp [fixedCommit]
      | some fixed => simp [fixedCommit]

theorem results_cons
    (event : Event)
    (events : List Event)
    (before : Option HelperOutput) :
    (results (event :: events)).getLast?.or before =
      (results events).getLast?.or (event.result?.or before) := by
  unfold results
  cases result : event.result? with
  | none => simp [result]
  | some output =>
      cases last : (events.filterMap Event.result?).getLast? with
      | none => simp [result, List.getLast?_cons, last]
      | some later => simp [result, List.getLast?_cons, last]

theorem failures_cons
    (event : Event)
    (events : List Event)
    (before : Option HelperFailure) :
    before.or (failures (event :: events)).head? =
      (before.or event.failure?).or (failures events).head? := by
  unfold failures
  cases failure : event.failure? with
  | none => simp [failure]
  | some reported => simp [failure]

/-- Lines whose commits agree are read to the end. -/
theorem observeAll_of_agrees
    {recorded : Option String}
    {lines : List Line}
    {events : List Event}
    (reads : Reads parse lines events)
    (agrees : Agrees recorded events)
    (read : Read) :
    observeAll parse recorded read lines =
      (.ok ⟨(results events).getLast?.or read.result,
          read.failure.or (failures events).head?⟩,
        fixedCommit recorded events) := by
  induction reads generalizing recorded read with
  | nil => simp [observeAll, results, failures, fixedCommit,
      resolvedCommits]
  | cons said reads inductionHypothesis =>
      obtain ⟨fits, later⟩ := (agrees_cons ..).mp agrees
      rw [observeAll, said]
      dsimp only
      rw [observe_of_fits fits]
      dsimp only
      rw [inductionHypothesis later, fixedCommit_cons, results_cons,
        failures_cons]
      rfl

/-- A commit that does not agree ends the loop. -/
theorem observeAll_of_disagrees
    {recorded : Option String}
    {lines : List Line}
    {events : List Event}
    (reads : Reads parse lines events)
    (disagrees : ¬Agrees recorded events)
    (read : Read) :
    (observeAll parse recorded read lines).1 =
      .error (.invalidOutput .stagingMetadataUpdateFailed) := by
  induction reads generalizing recorded read with
  | nil => exact absurd (by simp [Agrees, resolvedCommits]) disagrees
  | cons said reads inductionHypothesis =>
      rename_i line event lines events
      rw [agrees_cons, not_and] at disagrees
      rw [observeAll, said]
      dsimp only
      by_cases conflicts : Conflicts recorded event
      · rw [observe_of_conflicts conflicts]
      · rw [observe_of_fits conflicts]
        exact inductionHypothesis (disagrees conflicts) _

end events

/-! ## The staging directory -/

/-- The commit that a staging directory records. -/
def recordedCommit (world : World) (name : EntryName) : Option String :=
  (world.area.entry name).bind fun found =>
    match found.dir.identity with
    | .decoded metadata => metadata.resolvedCommit
    | _ => none

/-- The staging of the request, as its acquisition made it. -/
structure Prepared (world : World) (request : FetchRequest)
    (metadata : FetchStagingMetadata) : Prop where
  stands : ∃ found, world.area.entry request.staging = some found ∧
    found.dir.identity = .decoded metadata
  valid : Staging.checkMetadata metadata = .ok metadata
  repoType : metadata.repoType = request.repoType
  repoId : metadata.repoId = request.repoId
  revision : metadata.requestedRevision = request.revision
  files : metadata.files = selectionIdentity request.files request.exclude

/-- The identity with a commit. -/
def withCommit (metadata : FetchStagingMetadata) (commit : Option String) :
    FetchStagingMetadata :=
  { metadata with resolvedCommit := commit }

section staging

variable
  {parse : String → Option Json}
  {request : FetchRequest}
  {before after : World}
  {metadata : FetchStagingMetadata}

theorem Prepared.recordedCommit_eq
    (prepared : Prepared before request metadata) :
    recordedCommit before request.staging = metadata.resolvedCommit := by
  obtain ⟨found, stands, recorded⟩ := prepared.stands
  unfold recordedCommit
  rw [stands, Option.bind_some, recorded]

theorem Prepared.identity
    (prepared : Prepared before request metadata) :
    before.identity request.staging = .ok metadata := by
  obtain ⟨found, stands, recorded⟩ := prepared.stands
  exact Staging.identity_eq_ok.mpr ⟨found, stands, recorded, prepared.valid⟩

theorem validateRevision_of_hfCommit
    {commit : String}
    (proper : isHfCommit commit = true) :
    validateRevision commit = .ok () := by
  simp only [isHfCommit, Bool.and_eq_true, beq_iff_eq] at proper
  unfold validateRevision
  rw [if_neg]
  rintro (rfl | long | other)
  · cases proper.1
  · omega
  · exact other proper.2

theorem checkMetadata_withCommit
    (valid : Staging.checkMetadata metadata = .ok metadata)
    {commit : String}
    (proper : isHfCommit commit = true) :
    Staging.checkMetadata (withCommit metadata (some commit)) =
      .ok (withCommit metadata (some commit)) := by
  unfold Staging.checkMetadata at valid ⊢
  split at valid
  · cases valid
  · next fine =>
      rw [not_or] at fine
      have same : ¬((withCommit metadata (some commit)).version ≠ 1 ∨
          (withCommit metadata (some commit)).resolvedCommit.any
            (fun commit => !isHfCommit commit) = true) := by
        rintro (other | malformed)
        · exact fine.1 other
        · simp [withCommit, proper] at malformed
      rw [if_neg same]
      obtain ⟨pair, repo, valid⟩ := bind_eq_ok.mp valid
      obtain ⟨_, component, valid⟩ := bind_eq_ok.mp valid
      obtain ⟨_, files, _⟩ := bind_eq_ok.mp valid
      exact bind_eq_ok.mpr ⟨pair, repo, bind_eq_ok.mpr ⟨(), component,
        bind_eq_ok.mpr ⟨(), files, rfl⟩⟩⟩

/-- The staging once a commit has been recorded. -/
def recordIn (world : World) (request : FetchRequest)
    (metadata : FetchStagingMetadata) (commit : String) : World :=
  world.change request.staging fun dir =>
    { dir with identity := .decoded (withCommit metadata (some commit)) }

theorem Prepared.recordIn
    (prepared : Prepared before request metadata)
    {commit : String}
    (proper : isHfCommit commit = true) :
    Prepared (recordIn before request metadata commit) request
      (withCommit metadata (some commit)) := by
  obtain ⟨found, stands, _⟩ := prepared.stands
  exact ⟨⟨_, Staging.entry_change_self stands _, rfl⟩,
    checkMetadata_withCommit prepared.valid proper, prepared.repoType,
    prepared.repoId, prepared.revision, prepared.files⟩

theorem settles_recordResolved
    (prepared : Prepared before request metadata)
    {commit : String}
    (proper : isHfCommit commit = true) :
    Settles Effect (recordResolved request commit).run before
      (if metadata.resolvedCommit.any (fun fixed => fixed ≠ commit) then
        .error (.invalidOutput .stagingMetadataUpdateFailed)
      else
        .ok ())
      (if metadata.resolvedCommit.any (fun fixed => fixed ≠ commit) then
        before
      else
        recordIn before request metadata commit) := by
  obtain ⟨found, stands, _⟩ := prepared.stands
  have records : ∀ outcome later,
      Returns Effect (Staging.recordFetchResolvedCommit request.staging
          request.stagingRequest commit) before outcome later ↔
        outcome = (if metadata.resolvedCommit.any
            (fun fixed => fixed ≠ commit) then
          .error (.integrityMismatch "resolved fetch commit changed")
        else .ok ()) ∧
        later = (if metadata.resolvedCommit.any
            (fun fixed => fixed ≠ commit) then before
          else ModelKeep.Fetcher.recordIn before request metadata commit) := by
    intro outcome later
    have reads : Settles Effect
        (Staging.readFetchStagingMetadata request.staging).run before
        (.ok metadata) before := by
      intro answer later
      change Returns _ _ _ _ _ ↔ _
      rw [Staging.returns_readMetadata, prepared.identity]
    unfold Staging.recordFetchResolvedCommit
    rw [validateRevision_of_hfCommit proper, returns_check_bind,
      returns_bind_of reads, if_neg]
    · split
      · exact returns_check
      · exact Staging.returns_writeMetadata stands _ _ _
    · rintro (other | other | other | other)
      · exact other prepared.repoType
      · exact other prepared.repoId
      · exact other prepared.revision
      · exact other prepared.files
  intro answer later
  change Returns _ _ _ _ _ ↔ _
  unfold recordResolved
  rw [returns_mapError]
  constructor
  · rintro ⟨outcome, rfl, run⟩
    obtain ⟨rfl, rfl⟩ := (records _ _).mp run
    split
    · exact ⟨rfl, rfl⟩
    · exact ⟨rfl, rfl⟩
  · rintro ⟨rfl, rfl⟩
    refine ⟨_, ?_, (records _ _).mpr ⟨rfl, rfl⟩⟩
    split
    · rfl
    · rfl

/-- A resolved commit that was read is a full commit id. -/
theorem hfCommit_of_interpret
    {line : Line}
    {commit : String}
    (said : interpret parse line = .ok (.resolved commit)) :
    isHfCommit commit = true := by
  unfold interpret at said
  split at said
  · cases said
  · split at said
    · cases said
    · next value _ =>
        unfold readEvent at said
        split at said
        · split at said <;> cases said
        · split at said
          · cases said
          · split at said <;> cases said
        · split at said
          · cases said
          · next other _ =>
              split at said
              · next proper =>
                  cases said
                  exact proper
              · cases said
        · split at said <;> cases said
        · cases said
        · cases said

/-- What a line does to the staging is what it does to the commit that is
recorded there. -/
theorem settles_readLine
    (prepared : Prepared before request metadata)
    (read : Read)
    {line : Line}
    {event : Event}
    (said : interpret parse line = .ok event) :
    ∃ after fixed,
      Settles Effect (readLine parse request read line).run before
          (observe metadata.resolvedCommit read event).1 after ∧
        Prepared after request (withCommit metadata fixed) ∧
        fixed = (observe metadata.resolvedCommit read event).2 := by
  have same : withCommit metadata metadata.resolvedCommit = metadata := rfl
  have begins : ∀ outcome later,
      Returns Effect (readLine parse request read line) before outcome later ↔
        Returns Effect (match event with
          | .failure reported => check (.ok
              { read with failure := read.failure.or (some reported) })
          | .progress _ => check (.ok read)
          | .resolved commit => do
              recordResolved request commit
              check (.ok read)
          | .result output =>
              check (.ok { read with result := some output })
          | .untyped => check (.ok read)) before outcome later := by
    intro outcome later
    unfold readLine
    rw [said]
    exact returns_check_bind
  cases event with
  | resolved commit =>
      have proper := hfCommit_of_interpret said
      have records := settles_recordResolved prepared proper
      by_cases conflict : metadata.resolvedCommit.any
          (fun fixed => fixed ≠ commit) = true
      · rw [if_pos conflict, if_pos conflict] at records
        refine ⟨before, metadata.resolvedCommit, ?_, prepared, ?_⟩
        · intro outcome later
          refine (begins outcome later).trans ?_
          dsimp only [observe]
          rw [if_pos conflict, returns_bind]
          constructor
          · rintro (⟨error, rfl, failed⟩ | ⟨_, _, succeeded, _⟩)
            · obtain ⟨ended, rfl⟩ := (records _ _).mp failed
              cases ended
              exact ⟨rfl, rfl⟩
            · cases ((records _ _).mp succeeded).1
          · rintro ⟨rfl, rfl⟩
            exact Or.inl ⟨_, rfl, (records _ _).mpr ⟨rfl, rfl⟩⟩
        · dsimp only [observe]
          rw [if_pos conflict]
      · rw [if_neg conflict, if_neg conflict] at records
        refine ⟨_, some commit, ?_, prepared.recordIn proper, ?_⟩
        · intro outcome later
          refine (begins outcome later).trans ?_
          dsimp only [observe]
          rw [if_neg conflict, returns_bind_of records]
          exact returns_check
        · dsimp only [observe]
          rw [if_neg conflict]
  | failure reported =>
      exact ⟨before, metadata.resolvedCommit,
        fun outcome later => (begins outcome later).trans returns_check,
        prepared, rfl⟩
  | progress event =>
      exact ⟨before, metadata.resolvedCommit,
        fun outcome later => (begins outcome later).trans returns_check,
        prepared, rfl⟩
  | result output =>
      exact ⟨before, metadata.resolvedCommit,
        fun outcome later => (begins outcome later).trans returns_check,
        prepared, rfl⟩
  | untyped =>
      exact ⟨before, metadata.resolvedCommit,
        fun outcome later => (begins outcome later).trans returns_check,
        prepared, rfl⟩

/-- The loop over the lines leaves what the loop over the recorded commit
tells. -/
theorem settles_readLines
    (prepared : Prepared before request metadata)
    (read : Read)
    (lines : List Line) :
    ∃ after fixed,
      Settles Effect (readLines parse request read lines).run before
          (observeAll parse metadata.resolvedCommit read lines).1 after ∧
        Prepared after request (withCommit metadata fixed) ∧
        fixed = (observeAll parse metadata.resolvedCommit read lines).2 := by
  induction lines generalizing before metadata read with
  | nil =>
      exact ⟨before, metadata.resolvedCommit, fun _ _ => returns_check,
        prepared, rfl⟩
  | cons line rest inductionHypothesis =>
      cases said : interpret parse line with
      | error error =>
          refine ⟨before, metadata.resolvedCommit, ?_, prepared, ?_⟩
          · intro outcome later
            change Returns _ _ _ _ _ ↔ _
            rw [readLines, observeAll, said]
            dsimp only
            have failed : ∀ outcome later, Returns Effect
                (readLine parse request read line) before outcome later ↔
                outcome = .error error ∧ later = before := by
              intro outcome later
              unfold readLine
              rw [said]
              exact returns_check_error
            rw [returns_bind]
            constructor
            · rintro (⟨_, rfl, ended⟩ | ⟨_, _, succeeded, _⟩)
              · exact (failed _ _).mp ended
              · cases ((failed _ _).mp succeeded).1
            · rintro ⟨rfl, rfl⟩
              exact Or.inl ⟨error, rfl, (failed _ _).mpr ⟨rfl, rfl⟩⟩
          · rw [observeAll, said]
      | ok event =>
          obtain ⟨middle, fixed, first, preparedToo, rfl⟩ :=
            settles_readLine prepared read said
          rw [observeAll, said]
          dsimp only
          cases observed : observe metadata.resolvedCommit read event with
          | mk outcome recorded =>
              rw [observed] at first preparedToo
              cases outcome with
              | error error =>
                  refine ⟨middle, recorded, ?_, preparedToo, rfl⟩
                  intro outcome later
                  change Returns _ _ _ _ _ ↔ _
                  rw [readLines, returns_bind]
                  constructor
                  · rintro (⟨_, rfl, ended⟩ | ⟨_, _, succeeded, _⟩)
                    · exact (first _ _).mp ended
                    · cases ((first _ _).mp succeeded).1
                  · rintro ⟨rfl, rfl⟩
                    exact Or.inl ⟨error, rfl, (first _ _).mpr ⟨rfl, rfl⟩⟩
              | ok read =>
                  obtain ⟨after, fixed, second, preparedLast, same⟩ :=
                    inductionHypothesis preparedToo read
                  refine ⟨after, fixed, ?_, preparedLast, same⟩
                  intro outcome later
                  change Returns _ _ _ _ _ ↔ _
                  rw [readLines, returns_bind_of first]
                  exact second outcome later

/-- Once the lines are read, the rest is decided without the staging. -/
theorem settles_runFetch
    (prepared : Prepared before request metadata)
    (lines : List Line)
    (code : Except IoErrorKind (Option Int)) :
    ∃ after fixed,
      Settles Effect (runFetch parse request lines code).run before
          (do
            let read ← (observeAll parse metadata.resolvedCommit ⟨none, none⟩
              lines).1
            let code ← code.mapError UpstreamError.io
            conclude request.resumeCommit read code) after ∧
        Prepared after request (withCommit metadata fixed) ∧
        fixed = (observeAll parse metadata.resolvedCommit ⟨none, none⟩
          lines).2 := by
  obtain ⟨after, fixed, first, preparedToo, same⟩ :=
    settles_readLines prepared ⟨none, none⟩ lines
  refine ⟨after, fixed, ?_, preparedToo, same⟩
  intro outcome later
  change Returns _ _ _ _ _ ↔ _
  cases observed : (observeAll parse metadata.resolvedCommit ⟨none, none⟩
      lines).1 with
  | error error =>
      rw [observed] at first
      unfold runFetch
      rw [returns_bind]
      constructor
      · rintro (⟨_, rfl, ended⟩ | ⟨_, _, succeeded, _⟩)
        · obtain ⟨same, rfl⟩ := (first _ _).mp ended
          cases same
          exact ⟨rfl, rfl⟩
        · cases ((first _ _).mp succeeded).1
      · rintro ⟨rfl, rfl⟩
        exact Or.inl ⟨error, rfl, (first _ _).mpr ⟨rfl, rfl⟩⟩
  | ok read =>
      rw [observed] at first
      unfold runFetch
      rw [returns_bind_of first]
      cases code with
      | error kind => exact returns_check_error
      | ok code =>
          refine returns_check_bind.trans ?_
          exact returns_check

/-! ## What a fetch promises -/

/-- The types that the protocol knows. -/
def knownTypes : List String := ["failure", "progress", "resolved", "result"]

theorem known_of_interpret
    {line : Line}
    {event : Event}
    (said : interpret parse line = .ok event) :
    ∃ text value, line = .ok text ∧ parse text = some value ∧
      ∀ kind ∈ (value.get? "type").bind Json.asText, kind ∈ knownTypes := by
  unfold interpret at said
  split at said
  · cases said
  · next text =>
      split at said
      · cases said
      · next value parsed =>
          refine ⟨text, value, rfl, parsed, ?_⟩
          intro kind typed
          rw [Option.mem_def] at typed
          unfold readEvent at said
          rw [typed] at said
          split at said
          · next same => cases same; decide
          · next same => cases same; decide
          · next same => cases same; decide
          · next same => cases same; decide
          · next same => cases same
          · cases said

/-- What a fetch promises about its lines, its commit and its error. -/
structure Bound (parse : String → Option Json) (request : FetchRequest)
    (lines : List Line) (code : Except IoErrorKind (Option Int))
    (before : World) (outcome : Except UpstreamError Fetched)
    (after : World) : Prop where
  /-- A fetch succeeds only after proper output, without a failure, on a
  successful exit and with a proper last result. -/
  proper : ∀ fetched, outcome = .ok fetched →
    (∀ line ∈ lines, ∃ text value, line = .ok text ∧
      parse text = some value ∧
      ∀ kind ∈ (value.get? "type").bind Json.asText, kind ∈ knownTypes) ∧
    ∃ events, Reads parse lines events ∧ failures events = [] ∧
      code = .ok (some 0) ∧
      ∃ output, (results events).getLast? = some output ∧
        isHfCommit output.commit = true ∧ output.files ≠ [] ∧
        fetched.revision.commit = output.commit ∧
        fetched.revision.files = output.files
  /-- A commit that is recorded when some of the lines have been read is
  recorded in the end. -/
  kept : ∀ earlier rest, lines = earlier ++ rest → ∀ read middle,
    Returns Effect (readLines parse request ⟨none, none⟩ earlier) before
      (.ok read) middle →
    ∀ commit, recordedCommit middle request.staging = some commit →
      recordedCommit after request.staging = some commit
  /-- The recorded commit and the one to resume are the fetched one. -/
  bound : ∀ fetched, outcome = .ok fetched →
    (∀ commit ∈ recordedCommit after request.staging,
      commit = fetched.revision.commit) ∧
    ∀ commit ∈ request.resumeCommit, commit = fetched.revision.commit
  /-- The first failure that is reported is the error. -/
  first : ∀ events failure exit, Reads parse lines events →
    code = .ok exit → (failures events).head? = some failure →
      outcome = .error (.helperFailure failure)

/-- When a failure is reported the resolved commits agree, and a last result
that completes the fetch names the commit that staging records. -/
def Coherent (parse : String → Option Json) (request : FetchRequest)
    (lines : List Line) (code : Except IoErrorKind (Option Int))
    (recorded : Option String) : Prop :=
  ∀ events exit, Reads parse lines events → code = .ok exit →
    (failures events ≠ [] → Agrees recorded events) ∧
    ∀ output, failures events = [] → exit = some 0 →
      Agrees recorded events → (results events).getLast? = some output →
      isHfCommit output.commit = true → output.files ≠ [] →
      (∀ commit ∈ request.resumeCommit, commit = output.commit) →
        ∀ commit ∈ fixedCommit recorded events, commit = output.commit

/-- What makes a fetch conclude with success. -/
theorem conclude_eq_ok
    {resumeCommit : Option String}
    {read : Read}
    {code : Option Int}
    {fetched : Fetched} :
    conclude resumeCommit read code = .ok fetched ↔
      read.failure = none ∧ code = some 0 ∧
        ∃ output, read.result = some output ∧
          isHfCommit output.commit = true ∧
          (∀ commit ∈ resumeCommit, commit = output.commit) ∧
          output.files ≠ [] ∧
          fetched = ⟨⟨output.commit, output.files⟩,
            output.repositoryFiles.filterMap
              FileSystem.UpstreamFile.sanitized⟩ := by
  unfold conclude
  cases read.failure with
  | some failure => simp
  | none =>
      dsimp only
      by_cases success : code = some 0
      · rw [if_neg (not_not.mpr success)]
        cases read.result with
        | none => simp
        | some output =>
            dsimp only
            by_cases proper : isHfCommit output.commit = true
            · rw [if_neg (by simp [proper])]
              by_cases resumes : ∀ commit ∈ resumeCommit,
                  commit = output.commit
              · have fits : resumeCommit.any
                    (fun commit => commit ≠ output.commit) = false := by
                  cases resumeCommit with
                  | none => rfl
                  | some commit => simp [resumes commit rfl]
                rw [fits, if_neg (by simp)]
                by_cases nothing : output.files = []
                · simp [nothing]
                · rw [if_neg nothing]
                  constructor
                  · intro same
                    cases same
                    exact ⟨rfl, success, output, rfl, proper, resumes,
                      nothing, rfl⟩
                  · rintro ⟨_, _, other, same, _, _, _, rfl⟩
                    cases same
                    rfl
              · have differs : resumeCommit.any
                    (fun commit => commit ≠ output.commit) = true := by
                  cases resumeCommit with
                  | none => exact absurd (by simp) resumes
                  | some commit =>
                      have different : commit ≠ output.commit := by
                        rintro rfl
                        exact resumes (by simp)
                      simp [different]
                rw [if_pos differs]
                refine iff_of_false (by simp) ?_
                rintro ⟨_, _, other, same, _, resumesToo, _⟩
                cases same
                exact resumes resumesToo
            · rw [if_pos (by simp [proper])]
              simp [proper]
      · rw [if_pos success]
        simp [success]

/-- How a run ends, once its lines are read. -/
def ending (parse : String → Option Json) (request : FetchRequest)
    (lines : List Line) (code : Except IoErrorKind (Option Int))
    (recorded : Option String) : Except UpstreamError Fetched := do
  let read ← (observeAll parse recorded ⟨none, none⟩ lines).1
  let code ← code.mapError UpstreamError.io
  conclude request.resumeCommit read code

theorem ending_of_agrees
    {lines : List Line}
    {events : List Event}
    {exit : Option Int}
    {recorded : Option String}
    (reads : Reads parse lines events)
    (agrees : Agrees recorded events) :
    ending parse request lines (.ok exit) recorded =
      conclude request.resumeCommit
        ⟨(results events).getLast?, (failures events).head?⟩ exit := by
  unfold ending
  rw [observeAll_of_agrees reads agrees]
  simp only [Option.or_none, Option.none_or]
  rfl

/-- A success comes from lines that were all read and agree. -/
theorem agrees_of_ending
    {lines : List Line}
    {code : Except IoErrorKind (Option Int)}
    {recorded : Option String}
    {fetched : Fetched}
    (ended : ending parse request lines code recorded = .ok fetched) :
    ∃ events exit, Reads parse lines events ∧ Agrees recorded events ∧
      code = .ok exit ∧
      conclude request.resumeCommit
        ⟨(results events).getLast?, (failures events).head?⟩ exit =
          .ok fetched := by
  obtain ⟨read, observed, rest⟩ := bind_eq_ok.mp ended
  obtain ⟨events, reads⟩ := reads_of_ok observed
  have agrees : Agrees recorded events := by
    by_contra disagrees
    rw [observeAll_of_disagrees reads disagrees] at observed
    cases observed
  cases code with
  | error kind => cases rest
  | ok exit =>
      rw [ending_of_agrees reads agrees] at ended
      exact ⟨events, exit, reads, agrees, rfl, ended⟩

/-- A fetch keeps its promises exactly when its output is coherent: a failure
is not hidden by a resolved commit that conflicts with another one, and the
last result names the commit that was resolved or recorded before. -/
theorem fetch_bound_iff
    (prepared : Prepared before request metadata)
    (lines : List Line)
    (code : Except IoErrorKind (Option Int)) :
    (∀ outcome after,
      Returns Effect (runFetch parse request lines code) before outcome
          after →
        Bound parse request lines code before outcome after) ↔
      Coherent parse request lines code
        (recordedCommit before request.staging) := by
  rw [prepared.recordedCommit_eq]
  obtain ⟨after, fixed, settled, preparedToo, same⟩ :=
    settles_runFetch prepared lines code
  change Settles Effect _ _
    (ending parse request lines code metadata.resolvedCommit) after at settled
  have left : recordedCommit after request.staging = fixed :=
    preparedToo.recordedCommit_eq
  constructor
  · intro promises events exit reads exits
    subst exits
    have kept := promises _ _ ((settled _ _).mpr ⟨rfl, rfl⟩)
    constructor
    · intro reported
      by_contra disagrees
      obtain ⟨failure, others, first⟩ := List.exists_cons_of_ne_nil reported
      have answered := kept.first events failure exit reads rfl
        (by rw [first]; rfl)
      unfold ending at answered
      rw [observeAll_of_disagrees reads disagrees] at answered
      cases answered
    · intro output none success agrees last proper nonempty resumes
      subst success
      have ended : ending parse request lines (.ok (some 0)) _ = _ :=
        ending_of_agrees reads agrees
      rw [none, last] at ended
      have succeeds : conclude request.resumeCommit ⟨some output, .none⟩
          (some 0) = _ :=
        conclude_eq_ok.mpr ⟨rfl, rfl, output, rfl, proper, resumes, nonempty,
          rfl⟩
      rw [List.head?_nil, succeeds] at ended
      have bound := (kept.bound _ ended).1
      rw [left, same, observeAll_of_agrees reads agrees] at bound
      exact bound
  · intro coherent outcome later run
    obtain ⟨rfl, rfl⟩ := (settled _ _).mp run
    refine ⟨?_, ?_, ?_, ?_⟩
    · intro fetched succeeded
      obtain ⟨events, exit, reads, agrees, rfl, concluded⟩ :=
        agrees_of_ending succeeded
      obtain ⟨none, rfl, output, last, proper, _, nonempty, rfl⟩ :=
        conclude_eq_ok.mp concluded
      refine ⟨?_, events, reads, List.head?_eq_none_iff.mp none, rfl, output,
        last, proper, nonempty, rfl, rfl⟩
      intro line member
      obtain ⟨event, said⟩ := exists_of_reads reads member
      exact known_of_interpret said
    · intro earlier rest split read middle part commit recorded
      obtain ⟨between, fixedThen, first, preparedThen, sameThen⟩ :=
        settles_readLines prepared ⟨none, none⟩ earlier
      obtain ⟨observed, rfl⟩ := (first _ _).mp part
      rw [preparedThen.recordedCommit_eq] at recorded
      have fixedCommit : (observeAll parse metadata.resolvedCommit
          ⟨none, none⟩ earlier).2 = some commit := by
        rw [← sameThen]
        exact recorded
      rw [left, same, split, observeAll_append]
      cases part : observeAll parse metadata.resolvedCommit ⟨none, none⟩
          earlier with
      | mk outcome recorded =>
          rw [part] at fixedCommit observed
          cases outcome with
          | error error => exact fixedCommit
          | ok read => exact observeAll_recorded fixedCommit read rest
    · intro fetched succeeded
      obtain ⟨events, exit, reads, agrees, rfl, concluded⟩ :=
        agrees_of_ending succeeded
      obtain ⟨none, rfl, output, last, proper, resumes, nonempty, rfl⟩ :=
        conclude_eq_ok.mp concluded
      refine ⟨?_, resumes⟩
      rw [left, same, observeAll_of_agrees reads agrees]
      exact (coherent events _ reads rfl).2 output
        (List.head?_eq_none_iff.mp none) rfl agrees last proper nonempty
        resumes
    · intro events failure exit reads exits reported
      subst exits
      have some : failures events ≠ [] := by
        intro nothing
        rw [nothing] at reported
        cases reported
      rw [ending_of_agrees reads ((coherent events exit reads rfl).1 some),
        reported]
      rfl

end staging


/-! ## Sample outputs -/

def firstCommit : String := "aaaaaaaaaaaaaaaaaaaaaaaaaaaaaaaaaaaaaaaa"

def otherCommit : String := "bbbbbbbbbbbbbbbbbbbbbbbbbbbbbbbbbbbbbbbb"

/-- A line and what a parser makes of it. -/
def resolvedLine (commit : String) : String × Json :=
  ("\x7b\"type\": \"resolved\", \"commit\": \"" ++ commit ++ "\"\x7d",
    .object [("type", .text "resolved"), ("commit", .text commit)])

def resultLine (commit : String) : String × Json :=
  ("\x7b\"type\": \"result\", \"commit\": \"" ++ commit ++
      "\", \"files\": [\"a\"]\x7d",
    .object [("type", .text "result"), ("commit", .text commit),
      ("files", .array [.text "a"])])

/-- A parser, as far as a few lines go. -/
def parseOf (table : List (String × Json)) (text : String) : Option Json :=
  (table.find? fun known => known.1 = text).map Prod.snd

def linesOf (table : List (String × Json)) : List Line :=
  table.map fun known => .ok known.1

/-- Staging that was just acquired for one file. -/
def sampleStaging : World :=
  ⟨(((TemporaryArea.empty.draw "0").create (.active "0")).getD
    .empty).update (.active "0") fun dir =>
      { dir with
        lease := .expires 220
        identity := .decoded
          ⟨1, .model, "org/model", "main", ["a"], none⟩ }, 100⟩

def sampleRequest : FetchRequest :=
  ⟨.model, "org/model", "main", ["a"], [], .active "0", none⟩

theorem prepared_sample :
    Prepared sampleStaging sampleRequest
      ⟨1, .model, "org/model", "main", ["a"], none⟩ :=
  ⟨⟨_, rfl, rfl⟩, by decide +kernel, rfl, rfl, rfl, by decide +kernel⟩

/-- The commit that is resolved and the one that is fetched. -/
def sampleOutput (commit : String) : List (String × Json) :=
  [resolvedLine firstCommit, resultLine commit]


/-- How a fetch with such an output ends. -/
theorem ending_sample (commit : String) (proper : isHfCommit commit = true)
    (reads : Reads (parseOf (sampleOutput commit))
      (linesOf (sampleOutput commit))
      [.resolved firstCommit, .result ⟨some "result", commit, ["a"], []⟩]) :
    ending (parseOf (sampleOutput commit)) sampleRequest
      (linesOf (sampleOutput commit)) (.ok (some 0)) none =
        .ok ⟨⟨commit, ["a"]⟩, []⟩ := by
  rw [ending_of_agrees reads (by simp [Agrees, resolvedCommits,
    Event.resolved?, fixedCommit])]
  exact conclude_eq_ok.mpr ⟨rfl, rfl, _, rfl, proper,
    by simp [sampleRequest], by simp, rfl⟩

/-- A fetch of the commit that was resolved succeeds and keeps its
promises. -/
theorem fetch_bound_iff_sample :
    ∃ after,
      Returns Effect
        (runFetch (parseOf (sampleOutput firstCommit)) sampleRequest
          (linesOf (sampleOutput firstCommit)) (.ok (some 0))) sampleStaging
        (.ok ⟨⟨firstCommit, ["a"]⟩, []⟩) after ∧
      Bound (parseOf (sampleOutput firstCommit)) sampleRequest
        (linesOf (sampleOutput firstCommit)) (.ok (some 0)) sampleStaging
        (.ok ⟨⟨firstCommit, ["a"]⟩, []⟩) after := by
  have reads : Reads (parseOf (sampleOutput firstCommit))
      (linesOf (sampleOutput firstCommit))
      [.resolved firstCommit,
        .result ⟨some "result", firstCommit, ["a"], []⟩] :=
    .cons rfl (.cons rfl .nil)
  obtain ⟨after, _, settled, _⟩ := @settles_runFetch
    (parseOf (sampleOutput firstCommit)) _ _ _ prepared_sample
    (linesOf (sampleOutput firstCommit)) (.ok (some 0))
  have run := (settled _ _).mpr
    ⟨(ending_sample firstCommit (by decide +kernel) reads).symm, rfl⟩
  refine ⟨after, run, (fetch_bound_iff prepared_sample _ _).mpr ?_ _ _ run⟩
  intro events exit readsToo _
  obtain rfl : events = [.resolved firstCommit,
      .result ⟨some "result", firstCommit, ["a"], []⟩] := by
    rcases readsToo with _ | ⟨first, _ | ⟨second, ⟨⟩⟩⟩
    cases first
    cases second
    rfl
  refine ⟨fun reported => absurd rfl reported, ?_⟩
  rintro output - - - ⟨⟩ - - - commit ⟨⟩
  rfl

/-- A helper that resolves one commit and fetches another one succeeds, and
its staging records the commit that was not fetched. -/
theorem fetched_other_than_recorded :
    ¬∀ (parse : String → Option Json) (request : FetchRequest)
      (before : World) (metadata : FetchStagingMetadata) (lines : List Line)
      (code : Except IoErrorKind (Option Int)),
      Prepared before request metadata →
        ∀ outcome after,
          Returns Effect (runFetch parse request lines code) before outcome
              after →
            Bound parse request lines code before outcome after := by
  intro promises
  have reads : Reads (parseOf (sampleOutput otherCommit))
      (linesOf (sampleOutput otherCommit))
      [.resolved firstCommit,
        .result ⟨some "result", otherCommit, ["a"], []⟩] :=
    .cons rfl (.cons rfl .nil)
  obtain ⟨after, fixed, settled, prepared, same⟩ := @settles_runFetch
    (parseOf (sampleOutput otherCommit)) _ _ _ prepared_sample
    (linesOf (sampleOutput otherCommit)) (.ok (some 0))
  have run := (settled _ _).mpr
    ⟨(ending_sample otherCommit (by decide +kernel) reads).symm, rfl⟩
  have bound := (promises _ _ _ _ _ _ prepared_sample _ _ run).bound _ rfl
  have recorded : recordedCommit after sampleRequest.staging =
      some firstCommit := by
    rw [prepared.recordedCommit_eq]
    change fixed = some firstCommit
    rw [same]
    rfl
  have equal := bound.1 firstCommit recorded
  revert equal
  decide +kernel

end Fetcher
end ModelKeep
