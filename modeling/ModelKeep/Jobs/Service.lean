import Mathlib.Logic.Relation
import ModelKeep.Jobs.Paging

/-!
# The job manager over crashes and restarts

The manager runs one operation after another below its lock, may be cut off at
any step of one, loses what was not synced, and starts again, which may be cut
off as well.
-/

namespace ModelKeep
namespace Jobs

open Concurrency Program

/-- A submission that was answered with a job. -/
structure Answer where
  request : JobRequest
  key : Option String
  principal : PrincipalView
  job : Job

inductive Operation
  | submit
      (request : JobRequest)
      (key : Option String)
      (principal : PrincipalView)
  | start (id : String)
  | progress (id : String) (event : FetchProgress)
  | finish (id : String) (result : JobRunResult)
  | cancel (id : String)

/-- What one operation does, with the answer to a submission. -/
def Operation.program
    (digest : String → String)
    (jobs : ActiveJobs) :
    Operation → Program interface (ActiveJobs × Option Answer)
  | .submit request key principal => do
      let outcome ← (Jobs.submit digest jobs request key principal).run
      return (jobs.afterSubmit outcome,
        match outcome with
        | .ok (job, _) => some ⟨request, key, principal, job⟩
        | .error _ => none)
  | .start id => do
      let result ← update jobs id Job.start
      return (result.1, none)
  | .progress id event => do
      let result ← update jobs id (Job.progress event)
      return (result.1, none)
  | .finish id outcome => do
      let result ← update jobs id (Job.finish outcome)
      return (result.1, none)
  | .cancel id => do
      let result ← cancelRecord jobs id
      return (result.1, none)

/-- The jobs in memory while the process lives, the files, and every answer
that was given. -/
structure Service where
  jobs : Option ActiveJobs
  files : JobFiles
  answers : List Answer

/-- The jobs that an operation may make. -/
def Operation.MayMake (digest : String → String) : Operation → Job → Prop
  | .submit request key principal => MadeFor digest request key principal
  | _ => fun _ => False

/-- One operation, a crash in one, a start, or a crash in a start. -/
inductive Service.Label
  | operate (operation : Operation)
  | crash (operation : Operation)
  | reopen
  | recrash

def Service.Label.MayMake (digest : String → String) :
    Service.Label → Job → Prop
  | .operate operation => operation.MayMake digest
  | .crash operation => operation.MayMake digest
  | _ => fun _ => False

inductive Service.Step (digest : String → String) :
    Service.Label → Service → Service → Prop
  | operate
      {s : Service}
      {jobs : ActiveJobs}
      {operation : Operation}
      {result : ActiveJobs × Option Answer}
      {files : JobFiles}
      (up : s.jobs = some jobs)
      (run : (operation.program digest jobs).Runs Healthy s.files result
        files) :
      Step digest (.operate operation) s
        ⟨some result.1, files, result.2.toList ++ s.answers⟩
  | crash
      {s : Service}
      {jobs : ActiveJobs}
      {operation : Operation}
      {middle files : JobFiles}
      (up : s.jobs = some jobs)
      (cut : (operation.program digest jobs).Cut Healthy s.files middle)
      (lost : Storage.Crash middle files) :
      Step digest (.crash operation) s ⟨none, files, s.answers⟩
  | reopen
      {s : Service}
      {jobs : ActiveJobs}
      {files : JobFiles}
      (down : s.jobs = none)
      (returns : Returns Healthy openJobs s.files (.ok jobs) files) :
      Step digest .reopen s ⟨some jobs, files, s.answers⟩
  | recrash
      {s : Service}
      {middle files : JobFiles}
      (down : s.jobs = none)
      (cut : openJobs.run.Cut Healthy s.files middle)
      (lost : Storage.Crash middle files) :
      Step digest .recrash s ⟨none, files, s.answers⟩

/-- An archive without jobs, and no process. -/
def Service.empty : Service := ⟨none, ∅, []⟩

/-- The answered job is on record. -/
def Recorded (records : Records) (answer : Answer) : Prop :=
  ∃ job, records answer.job.id = some job ∧
    job.identity = answer.job.identity

theorem Recorded.continues
    {fresh : Job → Prop}
    {earlier later : Records}
    {answer : Answer}
    (recorded : Recorded earlier answer)
    (continues : Continues fresh earlier later) :
    Recorded later answer := by
  obtain ⟨job, found, same⟩ := recorded
  obtain ⟨next, there, sameNext⟩ := continues.kept _ job found
  exact ⟨next, there, sameNext.trans same⟩

/-- The files show a sound ledger that has what was answered. -/
structure Service.Stands (s : Service) (ledger : Ledger) : Prop where
  shows : Shows s.files ledger
  sound : ledger.Sound
  mirrors : ∀ jobs, s.jobs = some jobs → Mirrors jobs ledger
  answered : ∀ answer ∈ s.answers, Recorded ledger.record answer

theorem Recovers.continues
    {fresh : Job → Prop}
    {earlier later : Records}
    (recovers : Recovers earlier later) :
    Continues fresh earlier later := by
  constructor
  · intro id job present
    rcases recovers id with same | ⟨old, now, found, _, interrupted⟩
    · exact ⟨job, same.trans present, rfl⟩
    · cases present.symm.trans found
      exact ⟨_, interrupted, Job.identity_interrupt now job⟩
  · intro id job present
    rcases recovers id with same | ⟨old, now, found, _, interrupted⟩
    · exact Or.inl ⟨job, same.symm.trans present, rfl⟩
    · cases present.symm.trans interrupted
      exact Or.inl ⟨old, found, Job.identity_interrupt now old⟩

section operations

variable {origin : Records} {ledger : Ledger} {start : JobFiles}
  {jobs : ActiveJobs} {digest : String → String}

/-- A submission is answered with a job that is on record. -/
theorem Submitted.recorded
    {request : JobRequest}
    {key : Option String}
    {principal : PrincipalView}
    {job : Job}
    {created : Bool}
    {later : Ledger}
    (sound : ledger.Sound)
    (mirrors : Mirrors jobs ledger)
    (submitted : Submitted digest ledger jobs request key principal
      (.ok (job, created)) later) :
    later.record job.id = some job := by
  cases submitted with
  | repeated valid hashed indexed =>
      cases indexed with
      | repeated found record same =>
          rw [sound.named _ job record]
          exact record
  | placed valid hashed unknown placed =>
      cases placed with
      | equivalent active same =>
          have record := (mirrors.active active).1
          rw [unknown.record, sound.named _ job record]
          exact record
      | created apart free => exact Ledger.record_enrol_self ..

/-- The operation is a submission, and this is its answer. -/
def Operation.Answers
    (digest : String → String)
    (ledger : Ledger)
    (jobs : ActiveJobs)
    (operation : Operation)
    (answer : Answer)
    (later : Ledger) :
    Prop :=
  operation = .submit answer.request answer.key answer.principal ∧
    ∃ created, Submitted digest ledger jobs answer.request answer.key
      answer.principal (.ok (answer.job, created)) later

theorem guards_program
    {operation : Operation}
    (here : At (Continues (operation.MayMake digest) origin) start ledger)
    (mirrors : Mirrors jobs ledger) :
    Guards Healthy (Holds (Continues (operation.MayMake digest) origin))
      (operation.program digest jobs)
      (fun result final => ∃ later,
        At (Continues (operation.MayMake digest) origin) final later ∧
        Mirrors result.1 later ∧
        ∀ answer ∈ result.2,
          operation.Answers digest ledger jobs answer later) start := by
  cases operation with
  | submit request key principal =>
      apply Guards.bind
      apply (guards_submit here mirrors fun _ made => made).mono
      rintro outcome final holds ⟨later, there, mirrored, submitted⟩
      refine ⟨holds, later, there, mirrored, ?_⟩
      match outcome, submitted with
      | .ok (job, created), submitted =>
          rintro answer ⟨⟩
          exact ⟨rfl, created, submitted⟩
      | .error error, _ => simp
  | start id =>
      apply Guards.bind
      apply (guards_update here mirrors fun _ _ =>
        Job.identity_start ..).mono
      rintro result final holds ⟨later, there, mirrored⟩
      exact ⟨holds, later, there, mirrored, by simp⟩
  | progress id event =>
      apply Guards.bind
      apply (guards_update here mirrors fun _ _ =>
        Job.identity_progress ..).mono
      rintro result final holds ⟨later, there, mirrored⟩
      exact ⟨holds, later, there, mirrored, by simp⟩
  | finish id outcome =>
      apply Guards.bind
      apply (guards_update here mirrors fun _ _ =>
        Job.identity_finish ..).mono
      rintro result final holds ⟨later, there, mirrored⟩
      exact ⟨holds, later, there, mirrored, by simp⟩
  | cancel id =>
      apply Guards.bind
      apply (guards_cancelRecord here mirrors).mono
      rintro result final holds ⟨later, there, mirrored⟩
      exact ⟨holds, later, there, mirrored, by simp⟩

end operations

section service

variable {digest : String → String} {s t : Service} {ledger : Ledger}

theorem Service.Stands.at
    {kept : Records → Prop}
    (stands : s.Stands ledger)
    (keeps : kept ledger.record) :
    At kept s.files ledger := ⟨stands.shows, stands.sound, keeps⟩

/-- What a crash leaves still shows the ledger. -/
theorem Holds.crash
    {kept : Records → Prop}
    {middle files : JobFiles}
    (holds : Holds kept middle)
    (lost : Storage.Crash middle files) :
    ∃ later, At kept files later ∧ Shows middle later := by
  obtain ⟨later, there⟩ := holds
  exact ⟨later, ⟨there.shows.crash lost, there.sound, there.keeps⟩,
    there.shows⟩

/-- The answer was there, or the step is the submission that it answers. -/
def Service.Label.Answers
    (digest : String → String)
    (s : Service)
    (ledger : Ledger)
    (label : Service.Label)
    (answer : Answer)
    (later : Ledger) :
    Prop :=
  answer ∈ s.answers ∨ ∃ jobs operation, s.jobs = some jobs ∧
    label = .operate operation ∧
      operation.Answers digest ledger jobs answer later

/-- Every step keeps a sound ledger. -/
theorem Service.Step.stands
    {label : Service.Label}
    (stands : s.Stands ledger)
    (step : Service.Step digest label s t) :
    ∃ later, t.Stands later ∧
      Continues (label.MayMake digest) ledger.record later.record ∧
      ∀ answer ∈ t.answers, label.Answers digest s ledger answer later := by
  cases step with
  | operate up run =>
      obtain ⟨_, later, there, mirrored, answered⟩ :=
        (guards_program (stands.at (Continues.refl ..))
          (stands.mirrors _ up)).of_runs run
      refine ⟨later, ⟨there.shows, there.sound, ?_, ?_⟩, there.keeps, ?_⟩
      · rintro jobs ⟨⟩
        exact mirrored
      · intro answer member
        rcases List.mem_append.mp member with new | old
        · obtain ⟨_, created, submitted⟩ :=
            answered answer (Option.mem_toList.mp new)
          exact ⟨answer.job, submitted.recorded stands.sound
            (stands.mirrors _ up), rfl⟩
        · exact (stands.answered answer old).continues there.keeps
      · intro answer member
        rcases List.mem_append.mp member with new | old
        · exact Or.inr ⟨_, _, up, rfl,
            answered answer (Option.mem_toList.mp new)⟩
        · exact Or.inl old
  | crash up cut lost =>
      obtain ⟨later, there, _⟩ :=
        ((guards_program (stands.at (Continues.refl ..))
          (stands.mirrors _ up)).of_cut cut).crash lost
      exact ⟨later, ⟨there.shows, there.sound, by simp, fun answer member =>
        (stands.answered answer member).continues there.keeps⟩, there.keeps,
        fun _ old => Or.inl old⟩
  | reopen down returns =>
      obtain ⟨_, same, later, there, mirrored⟩ :=
        (guards_openJobs (stands.at (Recovers.refl _))).of_runs returns
      cases same
      have continues : Continues (Service.Label.reopen.MayMake digest)
          ledger.record later.record := there.keeps.continues
      refine ⟨later, ⟨there.shows, there.sound, ?_, fun answer member =>
        (stands.answered answer member).continues continues⟩, continues,
        fun _ old => Or.inl old⟩
      rintro jobs ⟨⟩
      exact mirrored
  | recrash down cut lost =>
      obtain ⟨later, there, _⟩ :=
        ((guards_openJobs (stands.at (Recovers.refl _))).of_cut cut).crash
          lost
      have continues : Continues (Service.Label.recrash.MayMake digest)
          ledger.record later.record := there.keeps.continues
      exact ⟨later, ⟨there.shows, there.sound, by simp, fun answer member =>
        (stands.answered answer member).continues continues⟩, continues,
        fun _ old => Or.inl old⟩

/-- A ledger without records. -/
def Ledger.blank : Ledger := ⟨fun _ => none, fun _ => none, ∅, ∅⟩

theorem Service.empty_stands : Service.empty.Stands Ledger.blank := by
  refine ⟨⟨fun _ => rfl, fun _ => rfl, ?_, ?_⟩, ⟨?_, ?_, ?_, ?_⟩, ?_, ?_⟩
  all_goals
    simp [Service.empty, Ledger.blank, Finmap.notMem_empty]

/-- Some run of the service leads there. -/
def Service.Reachable (digest : String → String) (s : Service) : Prop :=
  Relation.ReflTransGen
    (fun before after => ∃ label, Service.Step digest label before after)
    Service.empty s

theorem Service.Reachable.stands
    (reachable : Service.Reachable digest s) :
    ∃ ledger, s.Stands ledger := by
  induction reachable with
  | refl => exact ⟨_, Service.empty_stands⟩
  | tail _ step inductionHypothesis =>
      obtain ⟨ledger, stands⟩ := inductionHypothesis
      obtain ⟨label, step⟩ := step
      obtain ⟨later, there, _⟩ := step.stands stands
      exact ⟨later, there⟩

end service

/-! ## Runs with given ids -/

instance (path : Path) (id : String) : Decidable (path.Mentions id) := by
  cases path <;> unfold Path.Mentions <;> infer_instance

/-- The file is an entry that names the id. -/
def names (id : String) (file : Storage.File Content) : Bool :=
  match file.content with
  | some (.entry entry) => entry.jobId = id
  | _ => false

theorem unused_iff
    {files : JobFiles}
    {id : String} :
    Unused files id ↔ ∀ path ∈ files.keys, ¬path.Mentions id ∧
      (files.lookup path).any (names id) = false := by
  have unnamed : ∀ file : Storage.File Content, names id file = false ↔
      ∀ entry, file.content = some (.entry entry) → entry.jobId ≠ id := by
    intro file
    unfold names
    split
    · next entry content => simp [content]
    · next other =>
        refine ⟨fun _ entry content => ?_, fun _ => rfl⟩
        exact absurd content (other entry)
  constructor
  · intro unused path member
    obtain ⟨file, present⟩ := Finmap.mem_iff.mp (Finmap.mem_keys.mp member)
    rw [present]
    exact ⟨(unused path file present).1,
      (unnamed file).mpr (unused path file present).2⟩
  · intro apart path file present
    have member : path ∈ files.keys :=
      Finmap.mem_keys.mpr (Finmap.mem_iff.mpr ⟨file, present⟩)
    have here := apart path member
    rw [present] at here
    exact ⟨here.1, (unnamed file).mp here.2⟩

instance (files : JobFiles) (id : String) : Decidable (Unused files id) :=
  decidable_of_iff _ unused_iff.symm

namespace Sample

/-- The first of these ids that is free. -/
def draw (files : JobFiles) : String :=
  ((["a", "b", "c", "d"].find? fun id => Unused files id)).getD ""

/-- Nothing fails, and directories that are listed are empty. -/
def answer : (op : Op) → JobFiles → op.Reply × JobFiles
  | .file op, files => Storage.respond op files
  | .unixTimestamp, files => (0, files)
  | .newJobId _, files => (draw files, files)

def allowed : Op → JobFiles → Bool
  | .file (.list directory), files =>
      ∀ path ∈ files.keys, path.directory ≠ directory
  | .file _, _ => true
  | .unixTimestamp, _ => true
  | .newJobId _, files => isJobId (draw files) ∧ Unused files (draw files)

theorem answers
    (op : Op)
    (files : JobFiles)
    (here : allowed op files = true) :
    Healthy op files (answer op files).1 (answer op files).2 := by
  cases op with
  | file op =>
      cases op with
      | list directory =>
          refine Or.inl ⟨[], rfl, rfl, List.nodup_nil, fun path => ?_⟩
          have elsewhere := of_decide_eq_true here
          constructor
          · exact fun member => absurd member List.not_mem_nil
          · rintro ⟨inside, there⟩
            exact absurd inside (elsewhere path (Finmap.mem_keys.mpr there))
      | _ => exact Or.inl rfl
  | unixTimestamp => exact ⟨by simp [answer], rfl⟩
  | newJobId now =>
      obtain ⟨valid, unused⟩ := of_decide_eq_true here
      exact ⟨valid, unused, rfl⟩

/-- The run of a program that can be run with these answers. -/
theorem runs_get
    {α : Type}
    {program : Program interface α}
    {start : JobFiles}
    (traced : (program.trace answer allowed start).isSome = true) :
    program.Runs Healthy start
      ((program.trace answer allowed start).get traced).1
      ((program.trace answer allowed start).get traced).2 :=
  runs_of_trace answers (Option.some_get traced).symm

/-- The first start on an archive without jobs. -/
def opened : Except ArchiveError ActiveJobs × JobFiles :=
  (openJobs.run.trace answer allowed ∅).get (by decide +kernel)

theorem opens :
    Returns Healthy openJobs ∅ (.ok ∅) opened.2 := by
  have run : Returns Healthy openJobs ∅ opened.1 opened.2 :=
    runs_get (by decide +kernel)
  have blank : At (Recovers Ledger.blank.record) ∅ Ledger.blank :=
    Service.empty_stands.at (Recovers.refl _)
  obtain ⟨_, same, _⟩ := (guards_openJobs blank).of_runs run
  rw [← same]
  exact run

/-- The service once it was started. -/
def up : Service := ⟨some ∅, opened.2, []⟩

theorem up_reachable (digest : String → String) :
    Service.Reachable digest up :=
  .single ⟨.reopen, .reopen rfl opens⟩

def audit : JobRequest := ⟨.audit, .model, none, none, none, none⟩

def bearer : PrincipalView := ⟨"bearer", none, none⟩

end Sample

end Jobs
end ModelKeep
