import ModelKeep.Jobs.Lifecycle

/-!
# The progress of a job

What a run of progress events makes of an active job, whatever else is done to
the other jobs meanwhile.  Nothing is ever taken back; the counters stay below
their totals exactly when the first total that is announced is not below what
was counted before it.
-/

namespace ModelKeep
namespace Jobs

open Concurrency Program

/-! ## Counters -/

/-- How much of how much. -/
structure Counter where
  total : Option Nat
  progress : Option Nat
  deriving DecidableEq

/-- What one event counts. -/
structure Reading where
  completed : Nat
  total : Option Nat
  deriving DecidableEq

namespace Counter

def count (counter : Counter) (reading : Reading) : Counter :=
  let counted := Job.advance counter.total counter.progress reading.total
    reading.completed
  ⟨counted.1, counted.2⟩

/-- The progress does not fall, and a total that is set stays. -/
structure Grows (before after : Counter) : Prop where
  progress : ∀ count, before.progress = some count →
    ∃ more, after.progress = some more ∧ count ≤ more
  total : ∀ total, before.total = some total → after.total = some total

/-- The progress is at most the total, once both are set. -/
def Bounded (counter : Counter) : Prop :=
  ∀ progress total, counter.progress = some progress →
    counter.total = some total → progress ≤ total

/-- A first total is not below the progress so far. -/
def Covers (counter : Counter) (reading : Reading) : Prop :=
  counter.total = none → ∀ progress total,
    counter.progress = some progress → reading.total = some total →
      progress ≤ total

/-- The first total among the readings is below nothing that was counted until
then. -/
def Timely (counter : Counter) (readings : List Reading) : Prop :=
  counter.total = none → ∀ earlier reading later total,
    readings = earlier ++ reading :: later →
      (∀ other ∈ earlier, other.total = none) →
        reading.total = some total →
          (∀ progress, counter.progress = some progress →
            progress ≤ total) ∧
          ∀ other ∈ earlier, other.completed ≤ total

section counters

variable {counter : Counter} {reading : Reading} {readings : List Reading}

@[simp] theorem total_count :
    (counter.count reading).total = (counter.total <|> reading.total) :=
  rfl

@[simp] theorem progress_count :
    (counter.count reading).progress =
      some (max (((counter.total <|> reading.total).map
        (min reading.completed)).getD reading.completed)
        (counter.progress.getD 0)) :=
  rfl

theorem Grows.refl (counter : Counter) : counter.Grows counter :=
  ⟨fun count counted => ⟨count, counted, Nat.le_refl _⟩, fun _ => id⟩

theorem Grows.trans
    {first second third : Counter}
    (before : first.Grows second)
    (after : second.Grows third) :
    first.Grows third := by
  refine ⟨?_, fun total set => after.total total (before.total total set)⟩
  intro count counted
  obtain ⟨more, reached, least⟩ := before.progress count counted
  obtain ⟨most, ended, less⟩ := after.progress more reached
  exact ⟨most, ended, Nat.le_trans least less⟩

theorem grows_count
    (counter : Counter)
    (reading : Reading) :
    counter.Grows (counter.count reading) := by
  constructor
  · intro count counted
    refine ⟨_, progress_count, ?_⟩
    rw [counted, Option.getD_some]
    exact Nat.le_max_right ..
  · intro total set
    rw [total_count, set]
    rfl

/-- One reading keeps the bound exactly when it covers what was counted. -/
theorem bounded_count_iff
    (bounded : counter.Bounded) :
    (counter.count reading).Bounded ↔ counter.Covers reading := by
  obtain ⟨total, progress⟩ := counter
  cases total with
  | some total =>
      refine iff_of_true ?_ nofun
      intro next bound counted set
      cases progress with
      | none =>
          simp at counted set
          omega
      | some progress =>
          have := bounded progress total rfl rfl
          simp at counted set
          omega
  | none =>
      constructor
      · intro kept _ count total counted announced
        have below := kept _ total progress_count (by simp [announced])
        dsimp only at counted
        simp [counted] at below
        exact below.2
      · intro covers next bound counted announced
        have set : reading.total = some bound := by simpa using announced
        cases progress with
        | none =>
            simp [set] at counted
            omega
        | some progress =>
            have := covers rfl progress bound rfl set
            simp [set] at counted
            omega

/-- Timeliness is told reading by reading. -/
theorem timely_cons_iff :
    counter.Timely (reading :: readings) ↔
      counter.Covers reading ∧ (counter.count reading).Timely readings := by
  constructor
  · intro timely
    constructor
    · intro unset progress total counted announced
      exact (timely unset [] reading readings total rfl nofun
        announced).1 progress counted
    · intro unset earlier next later total split silent announced
      obtain ⟨unset, quiet⟩ : counter.total = none ∧ reading.total = none := by
        simpa using unset
      obtain ⟨least, most⟩ := timely unset (reading :: earlier) next later
        total (by rw [split]; rfl) (by simpa using ⟨quiet, silent⟩) announced
      have here := most reading (List.mem_cons_self ..)
      refine ⟨?_, fun other member =>
        most other (List.mem_cons_of_mem _ member)⟩
      intro progress counted
      cases before : counter.progress with
      | none =>
          simp [unset, quiet, before] at counted
          omega
      | some count =>
          have := least count before
          simp [unset, quiet, before] at counted
          omega
  · rintro ⟨covers, timely⟩ unset earlier next later total split silent
      announced
    cases earlier with
    | nil =>
        obtain ⟨rfl, rfl⟩ := List.cons.inj split
        exact ⟨fun progress counted =>
          covers unset progress total counted announced, nofun⟩
    | cons first rest =>
        obtain ⟨rfl, tail⟩ := List.cons.inj split
        have quiet := silent reading (List.mem_cons_self ..)
        obtain ⟨least, most⟩ := timely (by simp [unset, quiet]) rest next
          later total tail
          (fun other member => silent other (List.mem_cons_of_mem _ member))
          announced
        have reached := least _ progress_count
        simp [unset, quiet] at reached
        refine ⟨?_, ?_⟩
        · intro progress counted
          have := reached.2
          simpa [counted] using this
        · intro other member
          cases member with
          | head => exact reached.1
          | tail _ later => exact most other later

end counters

end Counter

/-! ## Measures -/

/-- What the counters of a job count. -/
inductive Measure
  | bytes
  | files
  deriving DecidableEq

/-- The unit of the events that count it. -/
def Measure.unit : Measure → String
  | .bytes => "bytes"
  | .files => "files"

def Job.counter (measure : Measure) (job : Job) : Counter :=
  match measure with
  | .bytes => ⟨job.totalBytes, job.progressBytes⟩
  | .files => ⟨job.totalFiles, job.progressFiles⟩

/-- What an event says of a measure. -/
def FetchProgress.reading
    (measure : Measure)
    (event : FetchProgress) :
    Option Reading :=
  if event.unit = some measure.unit then
    event.completed.map fun completed => ⟨completed, event.total⟩
  else
    none

/-- An event counts for its measure alone. -/
theorem Job.counter_count
    (measure : Measure)
    (event : FetchProgress)
    (job : Job) :
    (job.count event).counter measure =
      match event.reading measure with
      | some reading => (job.counter measure).count reading
      | none => job.counter measure := by
  obtain ⟨phase, unit, completed, total⟩ := event
  unfold Job.count
  dsimp only
  split
  · cases measure <;> rfl
  · cases measure <;> rfl
  · next bytes files =>
      have nothing : FetchProgress.reading measure
          ⟨phase, unit, completed, total⟩ = none := by
        unfold FetchProgress.reading
        split
        · next named =>
            cases completed with
            | none => rfl
            | some completed =>
                cases measure with
                | bytes => exact (bytes completed named rfl).elim
                | files => exact (files completed named rfl).elim
        · rfl
      rw [nothing]

theorem Job.counter_progress
    (measure : Measure)
    (event : FetchProgress)
    (now : Nat)
    (job : Job) :
    (job.progress event now).counter measure =
      match event.reading measure with
      | some reading => (job.counter measure).count reading
      | none => job.counter measure := by
  rw [Job.progress, Job.counter_count]
  cases measure <;> rfl

@[simp] theorem Job.resumed_progress
    (event : FetchProgress)
    (now : Nat)
    (job : Job) :
    (job.progress event now).resumed =
      (job.resumed || event.phase = "resuming_snapshot") := by
  unfold Job.progress Job.count
  split <;> rfl

/-- Progress leaves an active job active. -/
theorem Job.isActive_progress
    {event : FetchProgress}
    {now : Nat}
    {job : Job}
    (state : job.state.isActive = true) :
    (job.progress event now).state.isActive = true := by
  rw [Job.state_progress]
  split
  · rfl
  · exact state

/-! ## Runs of events -/

/-- An event, and whether the record it led to could be written. -/
structure Report where
  event : FetchProgress
  written : Bool

/-- The job after a report: a transition that could not be written is taken
back. -/
def Report.leaves (report : Report) (now updatedAt : Nat) (job : Job) : Job :=
  if report.written then
    { job.progress report.event now with updatedAt := updatedAt }
  else
    job

/-- What a report says of a measure. -/
def Report.reading (measure : Measure) (report : Report) : Option Reading :=
  if report.written then report.event.reading measure else none

/-- What the events that were written say of a measure, in order. -/
def readings (measure : Measure) (reports : List Report) : List Reading :=
  reports.filterMap (Report.reading measure)

/-- `record_progress` for one job, event after event, with the job after each;
between them the others do what leaves that job as it is in memory. -/
inductive Recording
    (faulty : FileOp → Prop)
    (draws : JobFiles → String → Prop)
    (id : String) :
    ActiveJobs → JobFiles → List Report → List Job → Prop
  | done
      {jobs : ActiveJobs}
      {files : JobFiles} :
      Recording faulty draws id jobs files [] []
  | beside
      {jobs others : ActiveJobs}
      {files changed : JobFiles}
      {reports : List Report}
      {trail : List Job}
      (same : others.lookup id = jobs.lookup id)
      (rest : Recording faulty draws id others changed reports trail) :
      Recording faulty draws id jobs files reports trail
  | event
      {jobs : ActiveJobs}
      {files later : JobFiles}
      {previous job : Job}
      {report : Report}
      {result : ActiveJobs × Option Job}
      {now updatedAt : Nat}
      {reports : List Report}
      {trail : List Job}
      (active : jobs.lookup id = some previous)
      (run : (update jobs id (Job.progress report.event)).Runs
        (Effect faulty draws) files result later)
      (answer : result.2 = some job)
      (told : job = report.leaves now updatedAt previous)
      (rest : Recording faulty draws id result.1 later reports trail) :
      Recording faulty draws id jobs files (report :: reports) (job :: trail)

/-- What a later event never takes back. -/
structure Job.Onward (before after : Job) : Prop where
  counters : ∀ measure,
    (before.counter measure).Grows (after.counter measure)
  resumed : before.resumed = true → after.resumed = true
  running : before.state = .running → after.state = .running

/-- A job and what became of it, event after event. -/
structure Orderly (trail : List Job) : Prop where
  onward : trail.Pairwise Job.Onward
  bounded : ∀ job ∈ trail, ∀ measure, (job.counter measure).Bounded

theorem Job.Onward.trans
    {first second third : Job}
    (before : first.Onward second)
    (after : second.Onward third) :
    first.Onward third where
  counters measure := (before.counters measure).trans (after.counters measure)
  resumed set := after.resumed (before.resumed set)
  running state := after.running (before.running state)

theorem Job.Onward.refl (job : Job) : job.Onward job :=
  ⟨fun _ => .refl _, fun set => set, fun state => state⟩

/-- A report counts only when it was written. -/
theorem Report.counter_leaves
    (measure : Measure)
    (report : Report)
    (now updatedAt : Nat)
    (job : Job) :
    (report.leaves now updatedAt job).counter measure =
      match report.reading measure with
      | some reading => (job.counter measure).count reading
      | none => job.counter measure := by
  obtain ⟨event, written⟩ := report
  cases written with
  | false => rfl
  | true =>
      rw [Report.reading, if_pos rfl,
        ← Job.counter_progress measure event now]
      cases measure <;> rfl

theorem Report.state_leaves
    {report : Report}
    {now updatedAt : Nat}
    {job : Job}
    (state : job.state.isActive = true) :
    (report.leaves now updatedAt job).state.isActive = true := by
  unfold Report.leaves
  split
  · exact Job.isActive_progress state
  · exact state

/-- One report takes nothing back. -/
theorem Report.onward
    (report : Report)
    (now updatedAt : Nat)
    (job : Job) :
    job.Onward (report.leaves now updatedAt job) where
  counters measure := by
    rw [report.counter_leaves]
    split
    · exact Counter.grows_count ..
    · exact .refl _
  resumed set := by
    unfold Report.leaves
    split
    · show (job.progress report.event now).resumed = true
      rw [Job.resumed_progress, set, Bool.true_or]
    · exact set
  running state := by
    unfold Report.leaves
    split
    · show (job.progress report.event now).state = .running
      rw [Job.state_progress, if_neg (by simp [state]), state]
    · exact state

section runs

variable {faulty : FileOp → Prop} {draws : JobFiles → String → Prop}
  {id : String} {jobs : ActiveJobs} {files : JobFiles} {job : Job}
  {reports : List Report} {trail : List Job}

/-- What a progress event leaves in memory is what it answers: the transition,
or the job as it was when its record could not be written. -/
theorem held_progress
    {event : FetchProgress}
    {result : ActiveJobs × Option Job}
    {later : JobFiles}
    (active : jobs.lookup id = some job)
    (state : job.state.isActive = true)
    (run : (update jobs id (Job.progress event)).Runs (Effect faulty draws)
      files result later) :
    result.1.lookup id = result.2 ∧ ∃ written now updatedAt,
      result.2 = some (Report.leaves ⟨event, written⟩ now updatedAt job) := by
  unfold update at run
  rw [active] at run
  obtain ⟨now, _, _, first⟩ := (runs_bind ..).mp run
  obtain ⟨updatedAt, _, _, second⟩ := (runs_bind ..).mp first
  obtain ⟨outcome, _, _, last⟩ := (runs_bind ..).mp second
  cases outcome with
  | ok _ =>
      dsimp only at last
      rw [if_pos (Job.isActive_progress state)] at last
      obtain ⟨rfl, _⟩ := last
      exact ⟨Finmap.lookup_insert _, true, now, updatedAt, rfl⟩
  | error error =>
      obtain ⟨rfl, _⟩ := last
      exact ⟨Finmap.lookup_insert _, false, now, updatedAt, rfl⟩

/-- The jobs of a run go onward from the one it starts with. -/
theorem Recording.onward
    (run : Recording faulty draws id jobs files reports trail)
    (active : jobs.lookup id = some job)
    (state : job.state.isActive = true) :
    (job :: trail).Pairwise Job.Onward := by
  induction run generalizing job with
  | done => exact List.pairwise_singleton ..
  | beside same rest inductionHypothesis =>
      exact inductionHypothesis (same.trans active) state
  | @event _ _ _ previous next report _ now updatedAt _ trail found run answer
      told rest inductionHypothesis =>
      obtain rfl : previous = job := Option.some.inj (found.symm.trans active)
      subst told
      have held := (held_progress active state run).1.trans answer
      have later := inductionHypothesis held (Report.state_leaves state)
      have here := report.onward now updatedAt previous
      refine List.Pairwise.cons ?_ later
      intro other member
      cases member with
      | head => exact here
      | tail _ member => exact here.trans (List.rel_of_pairwise_cons later member)

/-- The bounds hold all along a run exactly when they hold first and each
measure is announced in time. -/
theorem Recording.bounded_iff
    (run : Recording faulty draws id jobs files reports trail)
    (active : jobs.lookup id = some job)
    (state : job.state.isActive = true)
    (measure : Measure) :
    (∀ other ∈ job :: trail, (other.counter measure).Bounded) ↔
      (job.counter measure).Bounded ∧
        (job.counter measure).Timely (readings measure reports) := by
  induction run generalizing job with
  | done =>
      simp only [List.mem_singleton, forall_eq, readings, List.filterMap_nil]
      refine (and_iff_left ?_).symm
      intro _ earlier reading later total split
      simp at split
  | beside same rest inductionHypothesis =>
      exact inductionHypothesis (same.trans active) state
  | event found run answer told rest inductionHypothesis =>
      next report _ _ _ reports _ =>
      obtain rfl := Option.some.inj (found.symm.trans active)
      subst told
      have held := (held_progress active state run).1.trans answer
      have later := inductionHypothesis held (Report.state_leaves state)
      rw [List.forall_mem_cons, later, report.counter_leaves]
      cases said : report.reading measure with
      | none => simp [readings, said]
      | some reading =>
          have split : readings measure (report :: reports) =
              reading :: readings measure reports :=
            List.filterMap_cons_some said
          rw [split, Counter.timely_cons_iff]
          constructor
          · rintro ⟨bounded, covers, timely⟩
            exact ⟨bounded, (Counter.bounded_count_iff bounded).mp covers,
              timely⟩
          · rintro ⟨bounded, covers, timely⟩
            exact ⟨bounded, (Counter.bounded_count_iff bounded).mpr covers,
              timely⟩

/-- Progress is monotone along every run of events, and bounded exactly when
it is at first and no first total comes too late. -/
theorem progress_orderly_iff
    (active : jobs.lookup id = some job)
    (state : job.state.isActive = true)
    (run : Recording faulty draws id jobs files reports trail) :
    Orderly (job :: trail) ↔ ∀ measure,
      (job.counter measure).Bounded ∧
        (job.counter measure).Timely (readings measure reports) := by
  constructor
  · intro orderly measure
    exact (run.bounded_iff active state measure).mp fun other member =>
      orderly.bounded other member measure
  · intro timely
    refine ⟨run.onward active state, ?_⟩
    intro other member measure
    exact (run.bounded_iff active state measure).mpr (timely measure) other
      member

end runs

section sample

/-- An audit that runs. -/
def sampleAudit : Job :=
  { Job.new "j" sampleRequest .all ⟨"token", none, none⟩ none none 0 with
    state := .running, phase := "downloading" }

/-- A hundred bytes, of fifty in all where a total is given. -/
def sampleReport (total : Option Nat) : Report :=
  ⟨⟨"downloading", some "bytes", some 100, total⟩, true⟩

def sampleJobs : ActiveJobs := (∅ : ActiveJobs).insert "j" sampleAudit

/-- What the first event leaves. -/
noncomputable def sampleFirst : (ActiveJobs × Option Job) × JobFiles :=
  (update sampleJobs "j" (Job.progress (sampleReport none).event)).run
    (sampleStep false) ∅

/-- What the one with a total leaves then. -/
noncomputable def sampleSecond : (ActiveJobs × Option Job) × JobFiles :=
  (update sampleFirst.1.1 "j"
    (Job.progress (sampleReport (some 50)).event)).run (sampleStep false)
      sampleFirst.2

def sampleCounted (total : Option Nat) (job : Job) : Job :=
  (sampleReport total).leaves 0 0 job

theorem effect_sample
    (op : Op)
    (files : JobFiles) :
    Effect (fun _ => False) (fun _ _ => True) op files
      (sampleStep false op files).1 (sampleStep false op files).2 := by
  have healthy : Torn false = fun _ => False := by
    funext op
    simp [Torn]
  have effect := @effect_sampleStep false op files
  rw [healthy] at effect
  exact effect

theorem answer_sampleFirst :
    sampleFirst.1.2 = some (sampleCounted none sampleAudit) := by
  decide +kernel

/-- The event without a total is recorded. -/
theorem recording_first
    {reports : List Report}
    {trail : List Job}
    (rest : Recording (fun _ => False) (fun _ _ => True) "j" sampleFirst.1.1
      sampleFirst.2 reports trail) :
    Recording (fun _ => False) (fun _ _ => True) "j" sampleJobs ∅
      (sampleReport none :: reports)
      (sampleCounted none sampleAudit :: trail) :=
  .event (Finmap.lookup_insert _) (runs_run effect_sample _ _)
    answer_sampleFirst rfl rest

/-- Alone, it leaves the job in order. -/
theorem progress_orderly_of_first :
    Orderly [sampleAudit, sampleCounted none sampleAudit] := by
  refine (progress_orderly_iff (Finmap.lookup_insert _) rfl
    (recording_first .done)).mpr ?_
  intro measure
  cases measure with
  | bytes =>
      refine ⟨nofun, ?_⟩
      intro _ earlier reading later total split silent announced
      have only : reading = ⟨100, none⟩ := by
        have member : reading ∈ readings .bytes [sampleReport none] := by
          rw [split]
          exact List.mem_append_right _ (List.mem_cons_self ..)
        exact List.mem_singleton.mp member
      rw [only] at announced
      cases announced
  | files =>
      refine ⟨nofun, ?_⟩
      intro _ earlier reading later total split
      have none : readings .files [sampleReport none] = [] := rfl
      rw [none] at split
      simp at split

theorem answer_sampleSecond :
    sampleSecond.1.2 =
      some (sampleCounted (some 50) (sampleCounted none sampleAudit)) := by
  decide +kernel

/-- A hundred bytes of fifty. -/
theorem progress_exceeds_total :
    ∃ jobs job reports trail,
      jobs.lookup "j" = some job ∧ job.state = .running ∧
      (∀ measure, job.counter measure = ⟨none, none⟩) ∧
      Recording (fun _ => False) (fun _ _ => True) "j" jobs ∅ reports trail ∧
      ∃ last ∈ trail, last.progressBytes = some 100 ∧
        last.totalBytes = some 50 := by
  have held : sampleFirst.1.1.lookup "j" =
      some (sampleCounted none sampleAudit) :=
    ((held_progress (Finmap.lookup_insert _) rfl
      (runs_run effect_sample _ _)).1).trans answer_sampleFirst
  refine ⟨sampleJobs, sampleAudit, _, _, Finmap.lookup_insert _, rfl, ?_,
    recording_first (.event held (runs_run effect_sample _ _)
      answer_sampleSecond rfl .done), _, List.mem_cons_of_mem _
        (List.mem_singleton_self _), rfl, rfl⟩
  intro measure
  cases measure <;> rfl

end sample

end Jobs
end ModelKeep
