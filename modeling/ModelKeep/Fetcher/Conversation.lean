import Mathlib.Algebra.Group.Nat.Defs
import ModelKeep.Fetcher.Disclosure
import ModelKeep.Fetcher.Protocol
import ModelKeep.Json.Text

/-!
# A fetch of both programs

The parent reads what a run of the script prints.  Whatever upstream, the
client and the file system answer the script, the fetch ends as the script
did, unless it resolved another commit than the one that staging records.
-/

namespace ModelKeep
namespace Fetcher

open Concurrency Program Redaction Script
open FileSystem (UpstreamFile)
open Staging (World Effect)

/-! ## The output -/

/-- A number that the parent reads into 64 bits. -/
def Short (number : Option Nat) : Prop := ∀ value ∈ number, value < 2 ^ 64

/-- The numbers of a line fit into 64 bits. -/
def Fits : Said → Prop
  | .progress event => Short event.completed ∧ Short event.total
  | .snapshot result => ∀ file ∈ result.repositoryFiles, Short file.size
  | .listing result =>
      (∀ entry ∈ result.sizes, Short entry.2) ∧
        ∀ file ∈ result.repositoryFiles, Short file.size
  | _ => True

section runs

variable
  (parse : String → Option Json)
  (dumps : Json → String)
  (python : Interpreter)

/-- The parser reads the text of a line back. -/
def Carries (said : Said) : Prop :=
  ∃ value, parse (dumps (said.json python)) = some value ∧
    value.Alike (said.json python)

/-- The output of the script, as the parent gets it. -/
def transcript (printed : List Said) : List Line :=
  printed.map fun said => .ok (dumps (said.json python))

/-- The announced commit is not the one that staging records. -/
def conflicting (recorded announced : Option String) : Bool :=
  recorded.any fun fixed => announced.any fun commit => fixed ≠ commit

/-- What the parent makes of the outcome of an acquisition. -/
def concluded (request : FetchRequest) :
    Except Raised Snapshot → Except UpstreamError Fetched
  | .error raised => .error (.helperFailure (told python raised))
  | .ok result =>
      if request.resumeCommit.any fun commit => commit ≠ result.commit then
        .error (.invalidOutput .resumeCommitMismatch)
      else if result.files = [] then
        .error (.invalidOutput .emptySnapshot)
      else
        .ok ⟨⟨result.commit, result.files⟩,
          result.repositoryFiles.filterMap
            FileSystem.UpstreamFile.sanitized⟩

/-- What a fetch comes to, by what the calls of the helper answer. -/
def answer (request : FetchRequest) (recorded : Option String)
    (answers : Answers) : Except UpstreamError Fetched :=
  if conflicting recorded answers.acquiring then
    .error (.invalidOutput .stagingMetadataUpdateFailed)
  else
    concluded python request
      (answers.snapshot request.files request.exclude)

variable {parse dumps python}
variable {answers : Answers} {printed : List Said} {announced : Option String}

theorem interpret_transcript
    (legible : Legible python)
    {said : Said}
    (proper : ∀ commit ∈ said.resolved?, isHfCommit commit = true)
    (carries : Carries parse dumps python said) :
    interpret parse (.ok (dumps (said.json python))) =
      .ok (eventOf python said) := by
  obtain ⟨value, parsed, alike⟩ := carries
  dsimp only [interpret]
  rw [parsed]
  dsimp only
  rw [readEvent_of_alike alike, readEvent_json legible proper]
  rfl

/-- The parent reads every line. -/
theorem reads_transcript
    (legible : Legible python)
    (proper : ∀ commit ∈ printed.filterMap Said.resolved?,
      isHfCommit commit = true)
    (carries : ∀ said ∈ printed, Carries parse dumps python said) :
    Reads parse (transcript dumps python printed)
      (printed.map (eventOf python)) := by
  unfold Reads transcript
  rw [List.forall₂_map_left_iff, List.forall₂_map_right_iff,
    List.forall₂_same]
  intro said member
  refine interpret_transcript legible (fun commit resolved => ?_)
    (carries said member)
  exact proper commit (List.mem_filterMap.mpr ⟨said, member, resolved⟩)

theorem resolvedCommits_map :
    resolvedCommits (printed.map (eventOf python)) =
      printed.filterMap Said.resolved? := by
  unfold resolvedCommits
  rw [List.filterMap_map]
  refine List.filterMap_congr fun said _ => ?_
  cases said <;> rfl

/-- Before its last line the script reports nothing that counts. -/
theorem Spoken.quiet
    (spoken : Spoken announced printed) :
    failures (printed.map (eventOf python)) = [] ∧
      results (printed.map (eventOf python)) = [] := by
  unfold failures results
  rw [List.filterMap_map, List.filterMap_map]
  constructor <;>
  · refine List.filterMap_eq_nil_iff.mpr fun said member => ?_
    rcases spoken.reports said member with ⟨_, rfl⟩ | ⟨_, _, rfl⟩ <;> rfl

/-- What counts is the last line. -/
theorem Spoken.last
    (spoken : Spoken announced printed)
    (said : Said) :
    failures ((printed ++ [said]).map (eventOf python)) =
        failures [eventOf python said] ∧
      results ((printed ++ [said]).map (eventOf python)) =
        results [eventOf python said] := by
  obtain ⟨noFailure, noResult⟩ := @Spoken.quiet python _ _ spoken
  rw [List.map_append]
  unfold failures at noFailure ⊢
  unfold results at noResult ⊢
  rw [List.filterMap_append, List.filterMap_append, noFailure, noResult]
  exact ⟨rfl, rfl⟩

/-- The parent reads every line, and finds the commit that is announced. -/
theorem Spoken.reads
    (legible : Legible python)
    (spoken : Spoken announced printed)
    (proper : ∀ commit, announced = some commit → isHfCommit commit = true)
    {said : Said}
    (last : said.resolved? = none)
    (carries : ∀ other ∈ printed ++ [said],
      Carries parse dumps python other) :
    Reads parse (transcript dumps python (printed ++ [said]))
        ((printed ++ [said]).map (eventOf python)) ∧
      resolvedCommits ((printed ++ [said]).map (eventOf python)) =
        announced.toList := by
  have resolved : (printed ++ [said]).filterMap Said.resolved? =
      announced.toList := by
    rw [List.filterMap_append, spoken.resolved, List.filterMap_cons_none last]
    exact List.append_nil _
  refine ⟨reads_transcript legible (fun commit member => ?_) carries,
    resolvedCommits_map.trans resolved⟩
  rw [resolved, Option.mem_toList] at member
  exact proper commit member

theorem proper_of_announced
    {commit : String}
    (known : answers.announced = some commit) :
    isHfCommit commit = true := by
  obtain ⟨info, _, named⟩ := Option.bind_eq_some_iff.mp known
  exact (Option.filter_eq_some_iff.mp named).2

theorem proper_of_acquiring
    {commit : String}
    (known : answers.acquiring = some commit) :
    isHfCommit commit = true := by
  obtain ⟨_, _, named⟩ := Option.bind_eq_some_iff.mp known
  exact proper_of_announced named

theorem agrees_iff
    {recorded : Option String}
    {events : List Event}
    (resolved : resolvedCommits events = announced.toList) :
    Agrees recorded events ↔ conflicting recorded announced = false := by
  unfold Agrees fixedCommit conflicting
  rw [resolved]
  cases recorded with
  | none => cases announced <;> simp
  | some fixed => cases announced <;> simp

/-- The commit that staging records once the output has been read. -/
theorem recorded_of_reads
    {recorded : Option String}
    {lines : List Line}
    {events : List Event}
    (reads : Reads parse lines events)
    (resolved : resolvedCommits events = announced.toList) :
    (observeAll parse recorded ⟨none, none⟩ lines).2 =
      recorded.or announced := by
  cases recorded with
  | some fixed => exact observeAll_recorded rfl _ _
  | none =>
      rw [observeAll_of_agrees reads ((agrees_iff resolved).mpr rfl)]
      unfold fixedCommit
      rw [resolved]
      cases announced <;> rfl

/-- An acquisition as the parent concludes it from what was read. -/
theorem conclude_lastLine
    {request : FetchRequest}
    {outcome : Except Raised Snapshot}
    (spoken : Spoken announced printed)
    (proper : ∀ result, outcome = .ok result →
      isHfCommit result.commit = true)
    {events : List Event}
    (shape : events = (printed ++ [lastLine .snapshot outcome]).map
      (eventOf python)) :
    conclude request.resumeCommit
        ⟨(results events).getLast?, (failures events).head?⟩
        (some (codeOf outcome)) =
      concluded python request outcome := by
  obtain ⟨failed, ended⟩ := @Spoken.last python _ _ spoken
    (lastLine .snapshot outcome)
  rw [shape, failed, ended]
  cases outcome with
  | error raised => rfl
  | ok result =>
      have accepted := proper result rfl
      show conclude request.resumeCommit ⟨some ⟨some "result", result.commit,
        result.files, result.repositoryFiles⟩, none⟩ (some 0) = _
      dsimp only [conclude]
      rw [if_neg (by decide), if_neg (by simp [accepted])]
      rfl

theorem announced_of_resolution
    {included excluded : List String}
    {resolved : Resolution}
    (known : answers.resolution included excluded = .ok resolved) :
    answers.announced = some resolved.commit := by
  obtain ⟨info, answered, known⟩ := bind_eq_ok.mp known
  unfold Answers.announced
  rw [answered]
  dsimp only [Except.toOption, Option.bind_some]
  revert known
  unfold Answers.resolutionOf
  cases info.sha.filter isCommit with
  | none => nofun
  | some commit =>
      intro known
      obtain ⟨_, _, same⟩ := bind_eq_ok.mp known
      cases same
      rfl

/-- The commit that is fetched has been announced. -/
theorem acquiring_of_snapshot
    {included excluded : List String}
    {result : Snapshot}
    (known : answers.snapshot included excluded = .ok result) :
    answers.acquiring = some result.commit := by
  obtain ⟨_, made, known⟩ := bind_eq_ok.mp known
  obtain ⟨resolved, answered, known⟩ := bind_eq_ok.mp known
  obtain ⟨_, _, same⟩ := bind_eq_ok.mp known
  unfold Answers.acquiring
  rw [made]
  cases same
  exact announced_of_resolution answered

/-- Whatever upstream, the client and the file system answer, a fetch ends as
the helper did, or the resolved commit is not the recorded one: no output of
the helper is taken for a broken contract, and staging records the commit. -/
theorem fetch_answers_helper
    {request : FetchRequest}
    {before : World}
    {metadata : FetchStagingMetadata}
    {code : Int}
    (legible : Legible python)
    (prepared : Prepared before request metadata)
    (run : Runs (Prints answers)
      (main (acquire request.files request.exclude) .snapshot) [] code
      printed)
    (fits : ∀ said ∈ printed, Fits said)
    (carries : ∀ said ∈ printed, Fits said →
      Carries parse dumps python said) :
    ∃ after,
      Settles Effect
        (runFetch parse request (transcript dumps python printed)
          (.ok (some code))).run before
        (answer python request metadata.resolvedCommit answers) after ∧
      Prepared after request
        (withCommit metadata
          (metadata.resolvedCommit.or answers.acquiring)) := by
  obtain ⟨outcome, earlier, acquired, rfl, rfl⟩ := runs_main run
  obtain ⟨same, _, rfl, spoken⟩ := returns_acquire acquired
  obtain ⟨reads, commits⟩ := Spoken.reads legible spoken
    (fun _ => proper_of_acquiring) (by cases outcome <;> rfl)
    fun said member => carries said member (fits said member)
  obtain ⟨after, fixed, settled, preparedAfter, recorded⟩ :=
    @settles_runFetch parse _ _ _ prepared
      (transcript dumps python (earlier ++ [lastLine .snapshot outcome]))
      (.ok (some (codeOf outcome)))
  rw [recorded, recorded_of_reads reads commits] at preparedAfter
  refine ⟨after, ?_, preparedAfter⟩
  have ends : ending parse request
      (transcript dumps python (earlier ++ [lastLine .snapshot outcome]))
      (.ok (some (codeOf outcome))) metadata.resolvedCommit =
        answer python request metadata.resolvedCommit answers := by
    unfold answer
    by_cases agrees : Agrees metadata.resolvedCommit
        ((earlier ++ [lastLine .snapshot outcome]).map (eventOf python))
    · rw [ending_of_agrees reads agrees, (agrees_iff commits).mp agrees,
        if_neg (by decide), ← same]
      refine conclude_lastLine spoken (fun result ended => ?_) rfl
      rw [same] at ended
      exact proper_of_acquiring (acquiring_of_snapshot ended)
    · unfold ending
      rw [observeAll_of_disagrees reads agrees,
        if_pos (eq_true_of_ne_false fun fine =>
          agrees ((agrees_iff commits).mpr fine))]
      rfl
  rw [← ends]
  exact settled

end runs

/-! ## A sample run -/

/-- A run in which every look at the files tells the same. -/
def play {α : Type} (answers : Answers) (measure : Measure) :
    Program interface α → List Said → α × List Said
  | .done value, printed => (value, printed)
  | .call (.print said) next, printed =>
      play answers measure (next ()) (printed ++ [said])
  | .call .makeOutput next, printed =>
      play answers measure (next answers.output) printed
  | .call .repoInfo next, printed =>
      play answers measure (next answers.info) printed
  | .call .measure next, printed =>
      play answers measure (next measure) printed
  | .call .download next, printed =>
      play answers measure (next ([measure], answers.downloaded)) printed
  | .call .found next, printed =>
      play answers measure (next answers.found) printed

theorem runs_play
    {α : Type}
    (answers : Answers)
    (measure : Measure)
    (program : Program interface α)
    (printed : List Said) :
    Runs (Prints answers) program printed
      (play answers measure program printed).1
      (play answers measure program printed).2 := by
  induction program generalizing printed with
  | done value => exact ⟨rfl, rfl⟩
  | call op next inductionHypothesis =>
      cases op with
      | print said => exact ⟨_, _, rfl, inductionHypothesis _ _⟩
      | makeOutput => exact ⟨_, _, ⟨rfl, rfl⟩, inductionHypothesis _ _⟩
      | repoInfo => exact ⟨_, _, ⟨rfl, rfl⟩, inductionHypothesis _ _⟩
      | measure => exact ⟨measure, _, rfl, inductionHypothesis _ _⟩
      | download =>
          exact ⟨([measure], answers.downloaded), _, ⟨rfl, rfl⟩,
            inductionHypothesis _ _⟩
      | found => exact ⟨_, _, ⟨rfl, rfl⟩, inductionHypothesis _ _⟩

/-- A commit of one file, that is downloaded. -/
def sampleAnswers : Answers :=
  ⟨.ok (), .ok ⟨some firstCommit, [⟨some "a", some 3, none, none⟩]⟩, .ok (),
    .ok [["a"]]⟩

def sampleMeasure : Measure :=
  ⟨fun path => if path = "a" then some (3, true) else none, some [], true,
    true⟩

/-- What an acquisition with these answers prints. -/
def samplePrinted : List Said :=
  [.progress { phase := "resolving_revision" },
    .resolved firstCommit,
    .progress ⟨"downloading", some "bytes", some 3, some 3⟩,
    .progress ⟨"downloading", some "files", some 1, some 1⟩,
    .progress ⟨"downloading", some "bytes", some 3, some 3⟩,
    .progress ⟨"downloading", some "files", some 1, some 1⟩,
    .progress { phase := "inventorying_snapshot" },
    .snapshot ⟨firstCommit, ["a"], [⟨"a", some 3, none, none⟩]⟩]

theorem legible_ascii : Legible asciiInterpreter := by
  have each : ∀ c, asciiInterpreter.printable c = true →
      32 ≤ c ∧ c < 127 := by
    intro c printable
    obtain ⟨low, high⟩ := Bool.and_eq_true_iff.mp printable
    exact ⟨of_decide_eq_true low, Nat.lt_succ_of_le (of_decide_eq_true high)⟩
  have visible : ∀ c < 127, 32 ≤ c →
      isControlCharacter (Char.ofNat c) = false ∧
        (Archive.isWhitespace (Char.ofNat c) = true → c = 32) := by
    decide
  refine ⟨fun c printable => ?_, fun c printable => ?_, fun c printable => ?_⟩
  · exact Or.inl (by have := each c printable; omega)
  · exact (visible c (each c printable).2 (each c printable).1).1
  · exact (visible c (each c printable).2 (each c printable).1).2

/-- The compact text of a value. -/
def compact (value : Json) : String := String.ofList value.render

theorem carries_of_plain
    {python : Interpreter}
    {said : Said}
    (plain : (said.json python).Plain) :
    Carries Json.read compact python said := by
  have back := Json.read_render plain (@List.forall_mem_nil _ _)
  rw [List.append_nil] at back
  exact ⟨_, back, .refl⟩

/-- The one file of the commit is fetched. -/
theorem fetch_answers_sample :
    ∃ after,
      Settles Effect
        (runFetch Json.read sampleRequest
          (transcript compact asciiInterpreter samplePrinted)
          (.ok (some 0))).run sampleStaging
        (.ok ⟨⟨firstCommit, ["a"]⟩, [⟨"a", some 3, none, none⟩]⟩) after ∧
      Prepared after sampleRequest
        ⟨1, .model, "org/model", "main", ["a"], some firstCommit⟩ := by
  have run := runs_play sampleAnswers sampleMeasure
    (main (acquire ["a"] []) .snapshot) []
  have printed : play sampleAnswers sampleMeasure
      (main (acquire ["a"] []) .snapshot) [] = (0, samplePrinted) := rfl
  rw [printed] at run
  refine fetch_answers_helper legible_ascii prepared_sample run ?_ ?_
  · simp [samplePrinted, Fits, Short]
  · intro said member _
    refine carries_of_plain ?_
    revert said
    simp [samplePrinted, Said.json, Script.member, resultMembers,
      upstreamEntryJson, Json.Plain, Json.PlainMembers, Json.PlainElements,
      Json.Printable, firstCommit]

end Fetcher
end ModelKeep
