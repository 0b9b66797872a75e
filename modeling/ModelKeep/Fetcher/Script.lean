import Mathlib.Algebra.GroupWithZero.Nat
import ModelKeep.Concurrency.Program
import ModelKeep.FileSystem.Steps
import ModelKeep.Fetcher.Inventory
import ModelKeep.Fetcher.Redaction
import ModelKeep.Json.Value

/-!
# The fetch helper

The script resolves a revision, lets the official client download it and lists
what came.  It says everything on its standard output, an event a line, and an
exception that nothing catches is its last event.  What the client and the file
system answer is left open.
-/

namespace ModelKeep
namespace Fetcher
namespace Script

open Concurrency Program Redaction
open FileSystem (UpstreamFile)

/-! ## Exceptions -/

/-- An exception, and how it came about. -/
structure Raised where
  kind : ErrorKind
  error : Link
  causes : List Link

/-- An exception of the language itself. -/
def builtin (name text : String) : Raised :=
  ⟨⟨false, false, false, none, false⟩, ⟨0, points name, points text⟩, []⟩

def valueError (text : String) : Raised := builtin "ValueError" text

/-- `Path(path).parts[0]` of a path without parts. -/
def indexError : Raised := builtin "IndexError" "tuple index out of range"

/-- The names of the classes. -/
def className : HelperFailureClass → String
  | .unavailable => "unavailable"
  | .notFound => "not_found"
  | .unauthorized => "unauthorized"
  | .rateLimited => "rate_limited"
  | .clientFailure => "client_failure"

/-- `EXIT_CODES` -/
def exitCode : HelperFailureClass → Int
  | .unavailable => 10
  | .notFound => 11
  | .unauthorized => 12
  | .rateLimited => 13
  | .clientFailure => 14

/-! ## Events -/

/-- An event of `ProgressReporter`. -/
structure Progress where
  phase : String
  unit : Option String := none
  completed : Option Nat := none
  total : Option Nat := none
  deriving DecidableEq

/-- What an acquisition results in. -/
structure Snapshot where
  commit : String
  files : List String
  repositoryFiles : List UpstreamFile

/-- What a resolve-only run results in. -/
structure Listing where
  commit : String
  files : List String
  sizes : List (String × Option Nat)
  repositoryFiles : List UpstreamFile

/-- A line of the output. -/
inductive Said
  | progress (event : Progress)
  | resolved (commit : String)
  | snapshot (result : Snapshot)
  | listing (result : Listing)
  | failure (raised : Raised)

/-- A member that is left out where there is nothing to say. -/
def member {α : Type} (key : String) (encode : α → Json) (value : Option α) :
    List (String × Json) :=
  value.toList.map fun value => (key, encode value)

/-- An entry of `repository_file_metadata`. -/
def upstreamEntryJson (file : UpstreamFile) : Json :=
  .object (("path", .text file.path) ::
    (member "size" .natural file.size ++
      member "blob_id" .text file.blobId ++
      member "lfs_sha256" .text file.lfsSha256))

/-- The members of a result that both kinds have. -/
def resultMembers (commit : String) (files : List String) :
    List (String × Json) :=
  [("type", .text "result"), ("commit", .text commit),
    ("files", .array (files.map .text))]

/-- A text of the interpreter in an event. -/
def written (text : Text) : String := String.ofList (text.map Char.ofNat)

/-- The object that is dumped for a line. -/
def Said.json (python : Interpreter) : Said → Json
  | .progress event => .object (
      [("type", .text "progress"), ("version", .natural 1),
        ("phase", .text event.phase)] ++
      (member "unit" .text event.unit ++
        member "completed" .natural event.completed ++
        member "total" .natural event.total))
  | .resolved commit => .object
      [("type", .text "resolved"), ("version", .natural 1),
        ("commit", .text commit)]
  | .snapshot result => .object (
      resultMembers result.commit result.files ++
      [("repository_files",
        .array (result.repositoryFiles.map upstreamEntryJson))])
  | .listing result => .object (
      resultMembers result.commit result.files ++
      [("sizes", .object (result.sizes.map fun entry =>
          (entry.1, entry.2.elim .null .natural))),
        ("repository_files",
          .array (result.repositoryFiles.map upstreamEntryJson))])
  | .failure raised =>
      let event := failureEvent python raised.kind raised.error raised.causes
      .object
        [("type", .text "failure"), ("version", .natural event.version),
          ("class", .text (className event.failureClass)),
          ("exception", .text (written event.exception)),
          ("message", .text (written event.message))]

/-! ## Calls -/

/-- A file as the client tells of it, without what is of another type. -/
structure Sibling where
  rfilename : Option String
  size : Option Int
  blobId : Option String
  lfsSha256 : Option String

/-- The answer of `repo_info`. -/
structure Info where
  sha : Option String
  siblings : List Sibling

/-- What one look at the output directory tells. -/
structure Measure where
  /-- The size, and whether it is a file. -/
  stat : String → Option (Nat × Bool)
  /-- The partial files, and whether each is a regular file; those that vanish
  meanwhile have no size. -/
  staged : Option (List (Option (Nat × Bool)))
  /-- Enough time has passed since the last report of each unit. -/
  dueBytes : Bool
  dueFiles : Bool

/-- The calls of the script.  While it downloads, the client calls the progress
bars back, and each time the script looks at what is there. -/
inductive Op
  | print (said : Said)
  | makeOutput
  | repoInfo
  | measure
  | download
  | found

abbrev Op.Reply : Op → Type
  | .print _ => Unit
  | .makeOutput => Except Raised Unit
  | .repoInfo => Except Raised Info
  | .measure => Measure
  | .download => List Measure × Except Raised Unit
  | .found => Except Raised (List (List String))

abbrev interface : Interface := ⟨Op, Op.Reply⟩

/-- A part of the script; it may raise an exception. -/
abbrev Action (α : Type) : Type := ExceptT Raised (Program interface) α

def perform (op : Op) : Program interface op.Reply := .call op .done

/-! ## Progress -/

/-- The state of `ProgressReporter`; no files are expected before the output
directory is known. -/
structure Reporter where
  lastEvent : String × Option String → Option Progress
  expected : Option (List (String × Option Nat))
  completedFiles : Option Nat
  completedBytes : Option Nat
  finalized : Bool

namespace Reporter

def new : Reporter := ⟨fun _ => none, none, none, none, false⟩

/-- `emit` -/
def emit (reporter : Reporter) (event : Progress) (due force : Bool) :
    Program interface Reporter :=
  if !force &&
      (reporter.lastEvent (event.phase, event.unit) = some event || !due) then
    .done reporter
  else do
    perform (.print (.progress event))
    .done { reporter with
      lastEvent := Function.update reporter.lastEvent
        (event.phase, event.unit) (some event) }

/-- `phase` -/
def phase (reporter : Reporter) (name : String) : Program interface Reporter :=
  reporter.emit { phase := name } true true

/-- `_in_flight_bytes` -/
def inFlightBytes (measure : Measure) : Nat :=
  ((measure.staged.getD []).map fun found =>
    match found with
    | some (size, true) => size
    | _ => 0).sum

/-- What an expected file that has arrived contributes. -/
def arrived (measure : Measure) (finalized : Bool)
    (file : String × Option Nat) : Option Nat :=
  match measure.stat file.1 with
  | some (length, true) =>
      match file.2 with
      | some size => if length = size then some length else none
      | none => if finalized then some length else none
  | _ => none

/-- The bytes that are expected, where every size is known. -/
def totalBytes (expected : List (String × Option Nat)) : Option Nat :=
  if expected ≠ [] ∧ expected.all fun file => file.2.isSome then
    some (expected.map fun file => file.2.getD 0).sum
  else none

/-- The bytes that have arrived. -/
def arrivedBytes (measure : Measure) (finalized : Bool)
    (expected : List (String × Option Nat)) : Nat :=
  let bytes := (expected.filterMap (arrived measure finalized)).sum +
    inFlightBytes measure
  match totalBytes expected with
  | some total => min bytes total
  | none => bytes

def bytesEvent (measure : Measure) (finalized : Bool)
    (expected : List (String × Option Nat)) : Progress where
  phase := "downloading"
  unit := some "bytes"
  completed := some (arrivedBytes measure finalized expected)
  total := totalBytes expected

def filesEvent (measure : Measure) (finalized : Bool)
    (expected : List (String × Option Nat)) : Progress where
  phase := "downloading"
  unit := some "files"
  completed := some (expected.filterMap (arrived measure finalized)).length
  total := some expected.length

/-- `_report_files`, once it has looked at the files. -/
def reportFiles (reporter : Reporter) (force finalized : Bool)
    (measure : Measure) : Program interface Reporter :=
  match reporter.expected with
  | none => .done reporter
  | some expected =>
      if reporter.finalized then .done reporter
      else do
        let bytes := bytesEvent measure finalized expected
        let files := filesEvent measure finalized expected
        let looked : Reporter := { reporter with
          completedFiles := files.completed
          completedBytes := bytes.completed }
        let told ← looked.emit bytes measure.dueBytes
          (force || reporter.completedBytes ≠ bytes.completed)
        let told ← told.emit files measure.dueFiles
          (force || reporter.completedFiles ≠ files.completed)
        .done { told with finalized := told.finalized || finalized }

/-- The keys of a dictionary stand where they were first set, and the last
value counts. -/
def assign (entries : List (String × Option Nat))
    (entry : String × Option Nat) : List (String × Option Nat) :=
  if entries.any fun other => other.1 = entry.1 then
    entries.map fun other => if other.1 = entry.1 then entry else other
  else entries ++ [entry]

/-- `set_expected` -/
def setExpected (reporter : Reporter)
    (expected : List (String × Option Nat)) : Program interface Reporter := do
  let expected := expected.foldl assign []
  let reporter : Reporter := { reporter with expected := some expected }
  if expected = [] then
    reporter.phase "downloading"
  else do
    let measure ← perform .measure
    reporter.reportFiles true false measure

/-- The reports that the progress bars cause. -/
def reportAll (reporter : Reporter) :
    List Measure → Program interface Reporter
  | [] => .done reporter
  | measure :: rest => do
      let reporter ← reporter.reportFiles false false measure
      reporter.reportAll rest

end Reporter

/-! ## Resolving -/

/-- The entry of a file with this path. -/
def entryOf (sibling : Sibling) (path : String) : UpstreamFile where
  path := path
  size := (sibling.size.filter fun size => 0 ≤ size).map Int.toNat
  blobId := sibling.blobId.filter fun id => id ≠ ""
  lfsSha256 := sibling.lfsSha256.filter fun digest => digest ≠ ""

/-- The loop of `repository_file_metadata`, with the sizes and digests. -/
def reportableEntries : List Sibling → Except Raised (List UpstreamFile)
  | [] => .ok []
  | sibling :: rest =>
      match sibling.rfilename with
      | none => reportableEntries rest
      | some path =>
          if path = "" ∨ ".cache" ∈ pathParts path then
            reportableEntries rest
          else
            match pathParts path with
            | [] => .error indexError
            | first :: _ =>
                if startsWith first ".modelkeep-" then reportableEntries rest
                else (reportableEntries rest).map (entryOf sibling path :: ·)

/-- `repository_file_metadata` -/
def repositoryFiles (siblings : List Sibling) :
    Except Raised (List UpstreamFile) :=
  (reportableEntries siblings).map fun files =>
    files.insertionSort fun left right => left.path ≤ right.path

/-- `expected_files` -/
def expected (repository : List UpstreamFile)
    (included excluded : List String) : List (String × Option Nat) :=
  (repository.filter fun file => selected file.path included excluded).map
    fun file => (file.path, file.size)

/-- `COMMIT_PATTERN.fullmatch` -/
def isCommit (text : String) : Bool :=
  text.toList.length == 40 && text.toList.all isAsciiHexdigit

/-- What a revision is resolved to. -/
structure Resolution where
  commit : String
  expected : List (String × Option Nat)
  repository : List UpstreamFile

/-- The part of `resolve` that is the same with and without progress. -/
def resolve (included excluded : List String) :
    Action Resolution := do
  let info ← attempt (perform .repoInfo)
  match info.sha.filter isCommit with
  | none =>
      check (.error (valueError
        "upstream returned malformed commit identity"))
  | some commit => do
      always (perform (.print (.resolved commit)))
      let repository ← check (repositoryFiles info.siblings)
      check (.ok ⟨commit, expected repository included excluded, repository⟩)

/-! ## Acquiring -/

/-- `safe_relative_files` of the files that are found. -/
def safeRelativeFiles (found : List (List String)) :
    Except Raised (List String) :=
  if found.any fun parts => parts.any fun part => part ∈ ["", ".", ".."] then
    .error (valueError "unsafe upstream path")
  else
    .ok (sortPaths ((found.filter fun parts =>
      ".cache" ∉ parts &&
        !parts.head?.any fun first => startsWith first ".modelkeep-").map
      joinPath))

/-- The files that an acquisition with this selection archives. -/
def archivedFiles (included excluded files : List String) : List String :=
  if included ≠ [] ∨ excluded ≠ [] then
    files.filter fun path => selected path included excluded
  else files

/-- The part of `acquire` that downloads what was resolved and lists it. -/
def gather (included excluded : List String) (reporter : Reporter)
    (resolved : Resolution) : Action (List String) := do
  let reporter ← always (reporter.setExpected resolved.expected)
  let downloaded ← always (perform .download)
  let reporter ← always (reporter.reportAll downloaded.1)
  check downloaded.2
  let found ← attempt (perform .found)
  let safe ← check (safeRelativeFiles found)
  let files := archivedFiles included excluded safe
  let reporter ← always (
    if resolved.expected = [] then
      reporter.setExpected (files.map fun path => (path, none))
    else .done reporter)
  let measure ← always (perform .measure)
  let reporter ← always (reporter.reportFiles true true measure)
  let _ ← always (reporter.phase "inventorying_snapshot")
  check (.ok files)

/-- `acquire` with a reporter. -/
def acquire (included excluded : List String) : Action Snapshot := do
  attempt (perform .makeOutput)
  let reporter ← always (Reporter.new.phase "resolving_revision")
  let resolved ← resolve included excluded
  let files ← gather included excluded reporter resolved
  check (.ok ⟨resolved.commit, files, resolved.repository⟩)

/-- `inventory` -/
def inventory (included excluded : List String) : Action Listing := do
  let resolved ← resolve included excluded
  check (.ok ⟨resolved.commit, resolved.expected.map Prod.fst,
    resolved.expected.foldl Reporter.assign [], resolved.repository⟩)

/-- `report_failure` -/
def reportFailure (raised : Raised) : Program interface Int := do
  perform (.print (.failure raised))
  .done (exitCode (failureClass raised.kind))

/-- A run of the script to its exit code. -/
def main {α : Type} (action : Action α) (result : α → Said) :
    Program interface Int := do
  match ← action.run with
  | .ok value => do
      perform (.print (result value))
      .done 0
  | .error raised => reportFailure raised

/-! ## What the calls answer -/

/-- What upstream, the client and the output directory answer in a run. -/
structure Answers where
  output : Except Raised Unit
  info : Except Raised Info
  downloaded : Except Raised Unit
  found : Except Raised (List (List String))

/-- The calls with these answers, and what has been printed so far. -/
def Prints (answers : Answers) : Semantics interface (List Said)
  | .print said, before, _, after => after = before ++ [said]
  | .makeOutput, before, reply, after =>
      reply = answers.output ∧ after = before
  | .repoInfo, before, reply, after => reply = answers.info ∧ after = before
  | .measure, before, _, after => after = before
  | .download, before, reply, after =>
      reply.2 = answers.downloaded ∧ after = before
  | .found, before, reply, after => reply = answers.found ∧ after = before

namespace Answers

/-- What an answer of `repo_info` is resolved to. -/
def resolutionOf (info : Info) (included excluded : List String) :
    Except Raised Resolution :=
  match info.sha.filter isCommit with
  | none => .error (valueError "upstream returned malformed commit identity")
  | some commit => do
      let repository ← repositoryFiles info.siblings
      .ok ⟨commit, expected repository included excluded, repository⟩

/-- The commit that is announced. -/
def announced (answers : Answers) : Option String :=
  answers.info.toOption.bind fun info => info.sha.filter isCommit

/-- The commit that an acquisition announces. -/
def acquiring (answers : Answers) : Option String :=
  answers.output.toOption.bind fun _ => answers.announced

/-- What the revision is resolved to. -/
def resolution (answers : Answers) (included excluded : List String) :
    Except Raised Resolution := do
  let info ← answers.info
  resolutionOf info included excluded

/-- The files that are archived. -/
def gathered (answers : Answers) (included excluded : List String) :
    Except Raised (List String) := do
  answers.downloaded
  let found ← answers.found
  let safe ← safeRelativeFiles found
  .ok (archivedFiles included excluded safe)

/-- What an acquisition comes to. -/
def snapshot (answers : Answers) (included excluded : List String) :
    Except Raised Snapshot := do
  answers.output
  let resolved ← answers.resolution included excluded
  let files ← answers.gathered included excluded
  .ok ⟨resolved.commit, files, resolved.repository⟩

/-- What a resolve-only run comes to. -/
def listing (answers : Answers) (included excluded : List String) :
    Except Raised Listing := do
  let resolved ← answers.resolution included excluded
  .ok ⟨resolved.commit, resolved.expected.map Prod.fst,
    resolved.expected.foldl Reporter.assign [], resolved.repository⟩

end Answers

/-! ## What is printed -/

/-- A progress event does not say more than all. -/
def Progress.Sound (event : Progress) : Prop :=
  ∀ total ∈ event.total, ∀ completed ∈ event.completed, completed ≤ total

theorem sound_bytesEvent
    {measure : Measure}
    {finalized : Bool}
    {expected : List (String × Option Nat)} :
    (Reporter.bytesEvent measure finalized expected).Sound := by
  intro total known completed reported
  replace known : Reporter.totalBytes expected = some total := known
  obtain rfl : Reporter.arrivedBytes measure finalized expected =
      completed := Option.some.inj reported
  unfold Reporter.arrivedBytes
  dsimp only
  rw [known]
  exact Nat.min_le_right _ _

theorem sound_filesEvent
    {measure : Measure}
    {finalized : Bool}
    {expected : List (String × Option Nat)} :
    (Reporter.filesEvent measure finalized expected).Sound := by
  rintro _ ⟨⟩ _ ⟨⟩
  exact List.length_filterMap_le _ _

/-- The calls of a part that only reports progress. -/
def Op.Reports : Op → Prop
  | .print (.progress event) => event.Sound
  | .print _ => False
  | _ => True

section reporting

variable {reporter : Reporter} {event : Progress} {due force : Bool}
  {measure : Measure}

theorem only_perform
    {op : Op}
    (reports : op.Reports) :
    Only Op.Reports (perform op) :=
  ⟨reports, fun _ => trivial⟩

theorem only_emit
    (sound : event.Sound) :
    Only Op.Reports (reporter.emit event due force) := by
  unfold Reporter.emit
  split
  · trivial
  · exact Only.bind (only_perform sound) fun _ => trivial

theorem only_phase
    {name : String} :
    Only Op.Reports (reporter.phase name) :=
  only_emit nofun

theorem only_reportFiles
    {finalized : Bool} :
    Only Op.Reports (reporter.reportFiles force finalized measure) := by
  unfold Reporter.reportFiles
  split
  · trivial
  · split
    · trivial
    · exact Only.bind (only_emit sound_bytesEvent) fun _ =>
        Only.bind (only_emit sound_filesEvent) fun _ => trivial

theorem only_setExpected
    {expected : List (String × Option Nat)} :
    Only Op.Reports (reporter.setExpected expected) := by
  unfold Reporter.setExpected
  dsimp only
  split
  · exact only_phase
  · exact Only.bind (only_perform trivial) fun _ => only_reportFiles

theorem only_reportAll
    {measures : List Measure} :
    Only Op.Reports (reporter.reportAll measures) := by
  induction measures generalizing reporter with
  | nil => trivial
  | cons measure rest inductionHypothesis =>
      exact Only.bind only_reportFiles fun _ => inductionHypothesis

theorem only_always
    {α : Type}
    {program : Program interface α}
    (only : Only Op.Reports program) :
    Only Op.Reports (always program : Action α).run := by
  rw [run_always]
  exact Only.bind only fun _ => trivial

theorem only_gather
    {included excluded : List String}
    {resolved : Resolution} :
    Only Op.Reports (gather included excluded reporter resolved).run := by
  unfold gather
  refine Only.exceptBind (only_always only_setExpected) fun _ => ?_
  refine Only.exceptBind (only_always (only_perform trivial)) fun _ => ?_
  refine Only.exceptBind (only_always only_reportAll) fun _ => ?_
  refine Only.exceptBind trivial fun _ => ?_
  refine Only.exceptBind (only_perform trivial) fun _ => ?_
  refine Only.exceptBind trivial fun _ => ?_
  refine Only.exceptBind (only_always ?_) fun _ => ?_
  · split
    · exact only_setExpected
    · trivial
  refine Only.exceptBind (only_always (only_perform trivial)) fun _ => ?_
  refine Only.exceptBind (only_always only_reportFiles) fun _ => ?_
  exact Only.exceptBind (only_always only_phase) fun _ => trivial

end reporting

/-! ## What a run comes to -/

def Said.resolved? : Said → Option String
  | .resolved commit => some commit
  | _ => none

/-- Reports of progress, and the commit that is announced. -/
structure Spoken (announced : Option String) (printed : List Said) :
    Prop where
  resolved : printed.filterMap Said.resolved? = announced.toList
  reports : ∀ said ∈ printed, (∃ commit, said = .resolved commit) ∨
    ∃ event : Progress, event.Sound ∧ said = .progress event

section runs

variable {answers : Answers} {before after : List Said}
  {included excluded : List String} {α : Type}

theorem Spoken.append
    {first second : Option String}
    {earlier later : List Said}
    (spoken : Spoken first earlier)
    (onward : Spoken second later)
    (once : first = none ∨ second = none) :
    Spoken (first.or second) (earlier ++ later) := by
  constructor
  · rw [List.filterMap_append, spoken.resolved, onward.resolved]
    rcases once with rfl | rfl
    · rw [Option.none_or]
      rfl
    · rw [Option.or_none]
      exact List.append_nil _
  · intro said member
    rcases List.mem_append.mp member with known | new
    · exact spoken.reports said known
    · exact onward.reports said new

theorem spoken_nil : Spoken none [] := ⟨rfl, fun _ => nofun⟩

theorem spoken_progress
    {event : Progress}
    (sound : event.Sound) :
    Spoken none [.progress event] := by
  refine ⟨rfl, ?_⟩
  intro said member
  rw [List.mem_singleton.mp member]
  exact Or.inr ⟨event, sound, rfl⟩

theorem spoken_resolved
    {commit : String} :
    Spoken (some commit) [.resolved commit] := by
  refine ⟨rfl, ?_⟩
  intro said member
  rw [List.mem_singleton.mp member]
  exact Or.inl ⟨commit, rfl⟩

theorem spoken_of_only
    {program : Program interface α}
    {value : α}
    (only : Only Op.Reports program)
    (run : Runs (Prints answers) program before value after) :
    ∃ printed, after = before ++ printed ∧ Spoken none printed := by
  have keeps : ∀ (op : Op) earlier (reply : op.Reply) later, op.Reports →
      Prints answers op earlier reply later →
      (∃ printed, earlier = before ++ printed ∧ Spoken none printed) →
      ∃ printed, later = before ++ printed ∧ Spoken none printed := by
    rintro op earlier reply later reports issued ⟨printed, rfl, spoken⟩
    cases op with
    | print said =>
        cases said with
        | progress event =>
            refine ⟨printed ++ [.progress event], ?_, ?_⟩
            · rw [show later = _ from issued, List.append_assoc]
            · refine spoken.append (spoken_progress reports) (Or.inl rfl)
        | resolved => exact reports.elim
        | snapshot => exact reports.elim
        | listing => exact reports.elim
        | failure => exact reports.elim
    | measure => exact ⟨printed, issued, spoken⟩
    | makeOutput => exact ⟨printed, issued.2, spoken⟩
    | repoInfo => exact ⟨printed, issued.2, spoken⟩
    | download => exact ⟨printed, issued.2, spoken⟩
    | found => exact ⟨printed, issued.2, spoken⟩
  exact @Only.keeps _ _ _ (Prints answers) _
    (fun later => ∃ printed, later = before ++ printed ∧ Spoken none printed)
    keeps _ only _ _ _ run ⟨[], (List.append_nil _).symm, spoken_nil⟩

theorem returns_resolve
    {outcome : Except Raised Resolution}
    (run : Returns (Prints answers) (resolve included excluded) before outcome
      after) :
    outcome = answers.resolution included excluded ∧
      ∃ printed, after = before ++ printed ∧
        Spoken answers.announced printed := by
  unfold Answers.resolution Answers.announced
  rcases returns_bind.mp run with
    ⟨raised, rfl, failed⟩ | ⟨info, middle, answered, rest⟩
  · obtain ⟨_, _, ⟨same, rfl⟩, rfl, rfl⟩ := failed
    rw [← same]
    exact ⟨rfl, [], (List.append_nil _).symm, spoken_nil⟩
  · obtain ⟨_, _, ⟨same, rfl⟩, rfl, rfl⟩ := answered
    rw [← same]
    dsimp only [Except.toOption, Option.bind_some, Except.bind, Bind.bind]
    unfold Answers.resolutionOf
    revert rest
    cases info.sha.filter isCommit with
    | none =>
        intro rest
        obtain ⟨rfl, rfl⟩ := returns_check.mp rest
        exact ⟨rfl, [], (List.append_nil _).symm, spoken_nil⟩
    | some commit =>
        intro rest
        obtain ⟨_, later, printed, rest⟩ := returns_always_bind.mp rest
        obtain ⟨_, _, rfl, rfl, rfl⟩ := printed
        revert rest
        cases repositoryFiles info.siblings with
        | error raised =>
            intro rest
            obtain ⟨rfl, rfl⟩ := returns_check_error.mp rest
            exact ⟨rfl, _, rfl, spoken_resolved⟩
        | ok repository =>
            intro rest
            obtain ⟨rfl, rfl⟩ := returns_check.mp (returns_check_bind.mp rest)
            exact ⟨rfl, _, rfl, spoken_resolved⟩

theorem returns_gather
    {reporter : Reporter}
    {resolved : Resolution}
    {outcome : Except Raised (List String)}
    (run : Returns (Prints answers) (gather included excluded reporter
      resolved) before outcome after) :
    outcome = answers.gathered included excluded := by
  unfold Answers.gathered
  obtain ⟨_, _, _, started⟩ := returns_always_bind.mp run
  obtain ⟨downloaded, _, answered, onward⟩ := returns_always_bind.mp started
  obtain ⟨_, _, ⟨same, rfl⟩, rfl, rfl⟩ := answered
  obtain ⟨_, _, _, rest⟩ := returns_always_bind.mp onward
  rw [← same]
  revert rest
  cases downloaded.2 with
  | error raised => exact fun rest => (returns_check_error.mp rest).1
  | ok _ =>
      intro rest
      rcases returns_bind.mp (returns_check_bind.mp rest) with
        ⟨raised, rfl, failed⟩ | ⟨found, _, answered, listing⟩
      · obtain ⟨_, _, ⟨same, rfl⟩, rfl, rfl⟩ := failed
        rw [← same]
        rfl
      · obtain ⟨_, _, ⟨same, rfl⟩, rfl, rfl⟩ := answered
        rw [← same]
        dsimp only [Except.bind, Bind.bind]
        revert listing
        cases safeRelativeFiles found with
        | error raised => exact fun failed => (returns_check_error.mp failed).1
        | ok safe =>
            intro listing
            obtain ⟨_, _, _, told⟩ :=
              returns_always_bind.mp (returns_check_bind.mp listing)
            obtain ⟨_, _, _, measured⟩ := returns_always_bind.mp told
            obtain ⟨_, _, _, finished⟩ := returns_always_bind.mp measured
            obtain ⟨_, _, _, ended⟩ := returns_always_bind.mp finished
            exact (returns_check.mp ended).1

/-- An acquisition comes to what its answers tell, and says so before it
ends. -/
theorem returns_acquire
    {outcome : Except Raised Snapshot}
    (run : Returns (Prints answers) (acquire included excluded) before outcome
      after) :
    outcome = answers.snapshot included excluded ∧
      ∃ printed, after = before ++ printed ∧
        Spoken answers.acquiring printed := by
  unfold Answers.snapshot Answers.acquiring
  rcases returns_bind.mp run with
    ⟨raised, rfl, failed⟩ | ⟨_, _, answered, onward⟩
  · obtain ⟨_, _, ⟨same, rfl⟩, rfl, rfl⟩ := failed
    rw [← same]
    exact ⟨rfl, [], (List.append_nil _).symm, spoken_nil⟩
  obtain ⟨_, _, ⟨same, rfl⟩, rfl, rfl⟩ := answered
  rw [← same]
  dsimp only [Except.toOption, Option.bind_some]
  obtain ⟨reporter, started, phase, rest⟩ := returns_always_bind.mp onward
  obtain ⟨first, rfl, quiet⟩ := spoken_of_only only_phase phase
  rcases returns_bind.mp rest with
    ⟨raised, rfl, failed⟩ | ⟨resolved, middle, answered, rest⟩
  · obtain ⟨same, second, rfl, spoken⟩ := returns_resolve failed
    rw [← same]
    have all := quiet.append spoken (Or.inl rfl)
    rw [Option.none_or] at all
    exact ⟨rfl, _, List.append_assoc _ _ _, all⟩
  · obtain ⟨same, second, rfl, spoken⟩ := returns_resolve answered
    have spokenToo := quiet.append spoken (Or.inl rfl)
    rw [Option.none_or] at spokenToo
    rw [← same]
    rcases returns_bind.mp rest with
      ⟨raised, rfl, failed⟩ | ⟨files, later, listed, rest⟩
    · obtain ⟨third, rfl, quietToo⟩ := spoken_of_only only_gather failed
      rw [← returns_gather failed]
      refine ⟨rfl, first ++ second ++ third, by simp, ?_⟩
      have all := spokenToo.append quietToo (Or.inr rfl)
      rwa [Option.or_none] at all
    · obtain ⟨third, rfl, quietToo⟩ := spoken_of_only only_gather listed
      obtain ⟨rfl, rfl⟩ := returns_check.mp rest
      rw [← returns_gather listed]
      refine ⟨rfl, first ++ second ++ third, by simp, ?_⟩
      have all := spokenToo.append quietToo (Or.inr rfl)
      rwa [Option.or_none] at all

theorem returns_inventory
    {outcome : Except Raised Listing}
    (run : Returns (Prints answers) (inventory included excluded) before
      outcome after) :
    outcome = answers.listing included excluded ∧
      ∃ printed, after = before ++ printed ∧
        Spoken answers.announced printed := by
  unfold Answers.listing
  rcases returns_bind.mp run with
    ⟨raised, rfl, failed⟩ | ⟨resolved, middle, answered, rest⟩
  · obtain ⟨same, spoken⟩ := returns_resolve failed
    rw [← same]
    exact ⟨rfl, spoken⟩
  · obtain ⟨same, spoken⟩ := returns_resolve answered
    obtain ⟨rfl, rfl⟩ := returns_check.mp rest
    rw [← same]
    exact ⟨rfl, spoken⟩

/-- The last line of a run. -/
def lastLine (result : α → Said) : Except Raised α → Said
  | .ok value => result value
  | .error raised => .failure raised

/-- The exit code of a run. -/
def codeOf : Except Raised α → Int
  | .ok _ => 0
  | .error raised => exitCode (failureClass raised.kind)

theorem runs_main
    {action : Action α}
    {result : α → Said}
    {code : Int}
    (run : Runs (Prints answers) (main action result) before code after) :
    ∃ outcome middle, Returns (Prints answers) action before outcome middle ∧
      after = middle ++ [lastLine result outcome] ∧ code = codeOf outcome := by
  obtain ⟨outcome, middle, first, rest⟩ :=
    (runs_bind _ _ _ _ _ _).mp run
  refine ⟨outcome, middle, first, ?_⟩
  cases outcome with
  | ok value =>
      obtain ⟨_, _, rfl, rfl, rfl⟩ := rest
      exact ⟨rfl, rfl⟩
  | error raised =>
      obtain ⟨_, _, rfl, rfl, rfl⟩ := rest
      exact ⟨rfl, rfl⟩

end runs

end Script
end Fetcher
end ModelKeep
