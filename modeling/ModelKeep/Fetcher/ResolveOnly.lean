import Mathlib.Data.List.Sort
import ModelKeep.Fetcher.Conversation

/-!
# Resolving without a transfer

A resolve-only run owns no staging: the parent passes over what it resolved
and keeps the result.  It is the inventory that the pull-through asks for, and
the file list of a commit.
-/

namespace ModelKeep
namespace Fetcher

open Concurrency Program Redaction Script
open FileSystem (UpstreamFile)

/-! ## The parent -/

/-- The match of `run_inventory` on the type of an event. -/
def readInventoryEvent (value : Json) : Except InvalidOutputReason Event :=
  match (value.get? "type").bind Json.asText with
  | some "progress" => .ok .untyped
  | some "resolved" => .ok .untyped
  | some "failure" =>
      match parseFailureEvent value with
      | none => .error .malformedFailure
      | some reported => .ok (.failure reported)
  | some "result" =>
      match decodeHelperOutput value with
      | none => .error .malformedResult
      | some output => .ok (.result output)
  | none => .ok .untyped
  | some _ => .error .unsupportedEventType

/-- `HelperOutput::sanitized` -/
def HelperOutput.sanitized (output : HelperOutput) : HelperOutput :=
  { output with
    repositoryFiles := output.repositoryFiles.filterMap
      FileSystem.UpstreamFile.sanitized }

section parent

variable (parse : String → Option Json)

/-- The body of the loop over the lines. -/
def readInventoryLine (read : Read) (line : Line) :
    Except UpstreamError Read :=
  match line with
  | .error kind => .error (.io kind)
  | .ok text =>
      match parse text with
      | none => .error (.invalidOutput .nonJsonLine)
      | some value =>
          match readInventoryEvent value with
          | .error reason => .error (.invalidOutput reason)
          | .ok event => .ok (read.next event)

/-- What is decided once the output has ended. -/
def concludeInventory (read : Read) (code : Option Int) :
    Except UpstreamError HelperOutput :=
  match read.failure with
  | some failure => .error (.helperFailure failure)
  | none =>
      if code ≠ some 0 then
        .error (helperExitFailure code)
      else match read.result with
        | none => .error (.invalidOutput .missingResult)
        | some response =>
            if !isHfCommit response.commit then
              .error (.invalidOutput .malformedResultCommit)
            else
              .ok response.sanitized

/-- `run_inventory`, with the lines the helper writes and the code it exits
with. -/
def runInventory (lines : List Line)
    (code : Except IoErrorKind (Option Int)) :
    Except UpstreamError HelperOutput := do
  let read ← lines.foldlM (readInventoryLine parse) ⟨none, none⟩
  let code ← code.mapError .io
  concludeInventory read code

/-- `OfficialHfFetcher::inventory` -/
def officialInventory (lines : List Line)
    (code : Except IoErrorKind (Option Int)) :
    Except UpstreamError (Option RevisionInventory) := do
  let resolved ← runInventory parse lines code
  return some ⟨resolved.commit, resolved.files⟩

/-- The file list of a commit, with what upstream tells of each file. -/
structure RepositoryFiles where
  commit : String
  files : List UpstreamFile

/-- `OfficialHfFetcher::repository_files` -/
def officialRepositoryFiles (lines : List Line)
    (code : Except IoErrorKind (Option Int)) :
    Except UpstreamError (Option RepositoryFiles) := do
  let resolved ← runInventory parse lines code
  if resolved.repositoryFiles = [] then
    return none
  else
    return some ⟨resolved.commit, resolved.repositoryFiles⟩

end parent

/-! ## Both loops -/

section loops

variable {parse : String → Option Json}

/-- What a transfer makes of a line a resolve-only run makes of it too. -/
theorem readInventoryEvent_of_readEvent
    {value : Json}
    {event : Event}
    (known : readEvent value = .ok event) :
    ∃ seen, readInventoryEvent value = .ok seen ∧
      seen.failure? = event.failure? ∧ seen.result? = event.result? := by
  revert known
  unfold readEvent readInventoryEvent
  split
  · next typed =>
      rw [typed]
      cases parseFailureEvent value with
      | none => nofun
      | some reported => exact fun known => ⟨event, known, rfl, rfl⟩
  · next typed =>
      rw [typed]
      cases decodeProgress value with
      | none => nofun
      | some progress =>
          dsimp only
          split
          · nofun
          · rintro ⟨⟩
            exact ⟨_, rfl, rfl, rfl⟩
  · next typed =>
      rw [typed]
      cases (value.get? "commit").bind Json.asText with
      | none => nofun
      | some commit =>
          dsimp only
          split
          · rintro ⟨⟩
            exact ⟨_, rfl, rfl, rfl⟩
          · nofun
  · next typed =>
      rw [typed]
      cases decodeHelperOutput value with
      | none => nofun
      | some output => exact fun known => ⟨event, known, rfl, rfl⟩
  · next typed =>
      rw [typed]
      exact fun known => ⟨event, known, rfl, rfl⟩
  · nofun

theorem readInventoryLine_of_interpret
    {line : Line}
    {event : Event}
    (known : interpret parse line = .ok event)
    (read : Read) :
    readInventoryLine parse read line = .ok (read.next event) := by
  revert known
  unfold interpret readInventoryLine
  cases line with
  | error kind => nofun
  | ok text =>
      dsimp only
      cases parse text with
      | none => nofun
      | some value =>
          intro known
          cases accepted : readEvent value with
          | error reason =>
              dsimp only at known
              rw [accepted] at known
              cases known
          | ok other =>
              dsimp only at known
              rw [accepted] at known
              cases known
              obtain ⟨seen, same, failed, ended⟩ :=
                readInventoryEvent_of_readEvent accepted
              dsimp only
              rw [same]
              dsimp only [Read.next]
              rw [failed, ended]

/-- Output that a transfer can read to the end is read to the end. -/
theorem foldlM_of_reads
    {lines : List Line}
    {events : List Event}
    (reads : Reads parse lines events)
    (read : Read) :
    lines.foldlM (readInventoryLine parse) read =
      .ok ⟨(results events).getLast?.or read.result,
        read.failure.or (failures events).head?⟩ := by
  induction reads generalizing read with
  | nil => simp [results, failures, pure, Except.pure]
  | cons known _ inductionHypothesis =>
      rw [List.foldlM_cons, readInventoryLine_of_interpret known]
      dsimp only [Bind.bind, Except.bind]
      rw [inductionHypothesis, results_cons, failures_cons]
      rfl

end loops

/-! ## The inventory of a commit -/

/-- The entries that are reported have the paths that the inventory lists. -/
theorem reportable_names (siblings : List Sibling) :
    (reportableEntries siblings).toOption.map
        (fun files => files.map UpstreamFile.path) =
      reportable (siblings.filterMap Sibling.rfilename) := by
  induction siblings with
  | nil => rfl
  | cons sibling rest inductionHypothesis =>
      unfold reportableEntries
      cases named : sibling.rfilename with
      | none =>
          rw [List.filterMap_cons_none named]
          exact inductionHypothesis
      | some path =>
          rw [List.filterMap_cons_some named]
          unfold reportable
          dsimp only
          by_cases hidden : path = "" ∨ ".cache" ∈ pathParts path
          · rw [if_pos hidden, if_pos hidden]
            exact inductionHypothesis
          · rw [if_neg hidden, if_neg hidden]
            cases pathParts path with
            | nil => rfl
            | cons first _ =>
                dsimp only
                by_cases own : startsWith first ".modelkeep-" = true
                · rw [if_pos own, if_pos own]
                  exact inductionHypothesis
                · rw [if_neg own, if_neg own, ← inductionHypothesis]
                  cases reportableEntries rest <;> rfl

theorem raised_of_reportableEntries
    {siblings : List Sibling}
    {raised : Raised}
    (failed : reportableEntries siblings = .error raised) :
    raised = indexError := by
  induction siblings with
  | nil => cases failed
  | cons sibling rest inductionHypothesis =>
      revert failed
      unfold reportableEntries
      split
      · exact inductionHypothesis
      · split
        · exact inductionHypothesis
        · split
          · rintro ⟨⟩
            rfl
          · split
            · exact inductionHypothesis
            · intro failed
              cases others : reportableEntries rest with
              | error other =>
                  rw [others] at failed
                  cases failed
                  exact inductionHypothesis others
              | ok files =>
                  rw [others] at failed
                  cases failed

theorem paths_repositoryFiles (siblings : List Sibling) :
    (repositoryFiles siblings).toOption.map
        (fun files => files.map UpstreamFile.path) =
      repositoryFileMetadata (siblings.filterMap Sibling.rfilename) := by
  unfold repositoryFiles repositoryFileMetadata
  rw [← reportable_names]
  cases reportableEntries siblings with
  | error raised => rfl
  | ok files =>
      refine congrArg some (List.map_insertionSort _ _ _ _ ?_)
      exact fun _ _ _ _ => Iff.rfl

theorem paths_expected
    {repository : List UpstreamFile}
    {included excluded : List String} :
    (expected repository included excluded).map Prod.fst =
      (repository.map UpstreamFile.path).filter fun path =>
        selected path included excluded := by
  unfold expected
  rw [List.map_map, List.filter_map]
  rfl

/-- What a commit with these files has for a request. -/
def inventoryOf (info : Info) (request : InventoryRequest) :
    Except Raised RevisionInventory :=
  match info.sha.filter isCommit with
  | none => .error (valueError "upstream returned malformed commit identity")
  | some commit =>
      match inventory commit (info.siblings.filterMap Sibling.rfilename)
        request with
      | none => .error indexError
      | some covered => .ok covered

theorem inventoryOf_listing
    (answers : Answers)
    (request : InventoryRequest) :
    (answers.listing request.files request.exclude).map
        (fun listing => (⟨listing.commit, listing.files⟩ :
          RevisionInventory)) =
      answers.info.bind fun info => inventoryOf info request := by
  unfold Answers.listing Answers.resolution
  cases answers.info with
  | error raised => rfl
  | ok info =>
      dsimp only [Bind.bind, Except.bind]
      unfold Answers.resolutionOf inventoryOf
      cases info.sha.filter isCommit with
      | none => rfl
      | some commit =>
          dsimp only [inventory, expectedFiles]
          rw [← paths_repositoryFiles]
          cases listed : repositoryFiles info.siblings with
          | error raised =>
              have same : raised = indexError := by
                unfold repositoryFiles at listed
                cases entries : reportableEntries info.siblings with
                | error other =>
                    rw [entries] at listed
                    cases listed
                    exact raised_of_reportableEntries entries
                | ok files =>
                    rw [entries] at listed
                    cases listed
              rw [same]
              rfl
          | ok repository =>
              refine congrArg Except.ok ?_
              dsimp only
              rw [paths_expected]

/-- The files that are recorded for a commit; the selection of a request has
no part in them. -/
def repositoryOf (info : Info) : Except Raised (Option RepositoryFiles) :=
  match info.sha.filter isCommit with
  | none => .error (valueError "upstream returned malformed commit identity")
  | some commit =>
      (repositoryFiles info.siblings).map fun repository =>
        let files := repository.filterMap FileSystem.UpstreamFile.sanitized
        if files = [] then none else some ⟨commit, files⟩

theorem repositoryOf_listing
    (answers : Answers)
    (included excluded : List String) :
    ((answers.listing included excluded).map fun listing =>
        let files := listing.repositoryFiles.filterMap
          FileSystem.UpstreamFile.sanitized
        if files = [] then none
        else some (⟨listing.commit, files⟩ : RepositoryFiles)) =
      answers.info.bind repositoryOf := by
  unfold Answers.listing Answers.resolution
  cases answers.info with
  | error raised => rfl
  | ok info =>
      dsimp only [Bind.bind, Except.bind]
      unfold Answers.resolutionOf repositoryOf
      cases info.sha.filter isCommit with
      | none => rfl
      | some commit => cases repositoryFiles info.siblings <;> rfl

/-! ## A run of both -/

section runs

variable
  {parse : String → Option Json}
  {dumps : Json → String}
  {python : Interpreter}
  {answers : Answers}
  {printed : List Said}
  {request : InventoryRequest}
  {code : Int}

/-- An exception of the helper as an error of the fetcher. -/
def failed (python : Interpreter) (raised : Raised) : UpstreamError :=
  .helperFailure (told python raised)

theorem runInventory_transcript
    (legible : Legible python)
    (run : Runs (Prints answers)
      (main (Script.inventory request.files request.exclude) .listing) []
      code printed)
    (carries : ∀ said ∈ printed, Carries parse dumps python said) :
    runInventory parse (transcript dumps python printed) (.ok (some code)) =
      ((answers.listing request.files request.exclude).map fun listing =>
        HelperOutput.sanitized ⟨some "result", listing.commit, listing.files,
          listing.repositoryFiles⟩).mapError (failed python) := by
  obtain ⟨outcome, earlier, resolved, rfl, rfl⟩ := runs_main run
  obtain ⟨same, _, rfl, spoken⟩ := returns_inventory resolved
  obtain ⟨reads, _⟩ := Spoken.reads legible spoken
    (fun _ => proper_of_announced) (by cases outcome <;> rfl) carries
  obtain ⟨failedLast, endedLast⟩ := @Spoken.last python _ _ spoken
    (lastLine .listing outcome)
  unfold runInventory
  rw [foldlM_of_reads reads, failedLast, endedLast, ← same]
  cases outcome with
  | error raised => rfl
  | ok listing =>
      have proper : isHfCommit listing.commit = true := by
        obtain ⟨resolution, answered, made⟩ := bind_eq_ok.mp same.symm
        cases made
        exact proper_of_announced (announced_of_resolution answered)
      show concludeInventory ⟨some ⟨some "result", listing.commit,
        listing.files, listing.repositoryFiles⟩, none⟩ (some 0) = _
      dsimp only [concludeInventory]
      rw [if_neg (by decide), if_neg (by simp [proper])]
      rfl

/-- Whatever upstream answers, a resolve-only run gives the pull-through the
inventory that the files of the commit have for the request, and the file
list without regard to the request; where the helper fails the parent is told
how. -/
theorem inventory_answers_helper
    (legible : Legible python)
    (run : Runs (Prints answers)
      (main (Script.inventory request.files request.exclude) .listing) []
      code printed)
    (fits : ∀ said ∈ printed, Fits said)
    (carries : ∀ said ∈ printed, Fits said →
      Carries parse dumps python said) :
    officialInventory parse (transcript dumps python printed)
        (.ok (some code)) =
      ((answers.info.bind fun info => inventoryOf info request).map
        some).mapError (failed python) ∧
    officialRepositoryFiles parse (transcript dumps python printed)
        (.ok (some code)) =
      (answers.info.bind repositoryOf).mapError (failed python) := by
  have outcome := runInventory_transcript legible run fun said member =>
    carries said member (fits said member)
  unfold officialInventory officialRepositoryFiles
  rw [outcome, ← inventoryOf_listing, ← repositoryOf_listing answers
    request.files request.exclude]
  cases answers.listing request.files request.exclude with
  | error raised => exact ⟨rfl, rfl⟩
  | ok listing =>
      refine ⟨rfl, ?_⟩
      dsimp only [Except.map, Except.mapError, Bind.bind, Except.bind,
        HelperOutput.sanitized]
      split <;> rfl

end runs

/-- The request of the sample. -/
def sampleInventoryRequest : InventoryRequest :=
  ⟨.model, "org/model", "main", ["a"], []⟩

/-- What a resolve-only run with the answers of the sample prints. -/
def sampleListed : List Said :=
  [.resolved firstCommit,
    .listing ⟨firstCommit, ["a"], [("a", some 3)],
      [⟨"a", some 3, none, none⟩]⟩]

/-- The one file of the commit is listed. -/
theorem inventory_answers_sample :
    officialInventory Json.read
        (transcript compact asciiInterpreter sampleListed)
        (.ok (some 0)) =
      .ok (some ⟨firstCommit, ["a"]⟩) ∧
    officialRepositoryFiles Json.read
        (transcript compact asciiInterpreter sampleListed)
        (.ok (some 0)) =
      .ok (some ⟨firstCommit, [⟨"a", some 3, none, none⟩]⟩) := by
  have run := runs_play sampleAnswers sampleMeasure
    (main (Script.inventory ["a"] []) .listing) []
  have printed : play sampleAnswers sampleMeasure
      (main (Script.inventory ["a"] []) .listing) [] =
        (0, sampleListed) := rfl
  rw [printed] at run
  refine @inventory_answers_helper _ _ _ _ _ sampleInventoryRequest _
    legible_ascii run ?_ ?_
  · simp [sampleListed, Fits, Short]
  · intro said member _
    refine carries_of_plain ?_
    revert said
    simp [sampleListed, Said.json, Script.member, resultMembers,
      upstreamEntryJson, Json.Plain, Json.PlainMembers, Json.PlainElements,
      Json.Printable, firstCommit]

end Fetcher
end ModelKeep
