import ModelKeep.Jobs.Service

/-!
# History survives a crash

Whatever operation is cut off, and however often the start after it is cut off
as well, the start that comes to its end finds every answered job, ends what
was active, and leaves a history that lists every record once.
-/

namespace ModelKeep
namespace Jobs

open Concurrency Program

/-- A start that was cut off. -/
def Reopening (before after : JobFiles) : Prop :=
  ∃ middle, openJobs.run.Cut Healthy before middle ∧
    Storage.Crash middle after

/-- What a start makes of the files that were there when the process ended. -/
structure Recovery
    (digest : String → String)
    (answers : List Answer)
    (before after : JobFiles) :
    Prop where
  answered : ∀ answer ∈ answers, ∃ job,
    Settles Healthy (readJob answer.job.id).run after (.ok job) after ∧
      job.identity = answer.job.identity
  ended : ∀ id job, durable before id = some job →
    job.state.isActive = false → durable after id = some job
  interrupted : ∀ id job, durable before id = some job →
    job.state.isActive = true →
      ∃ now, durable after id = some (job.interrupt now)
  ceased : ∀ id job, durable after id = some job → job.state.isActive = false
  paged : ∀ limit, 0 < limit → (∃ jobs, Paged limit after none jobs) ∧
    ∀ jobs, Paged limit after none jobs → jobs.Nodup ∧
      ∀ id job, durable after id = some job ↔ job ∈ jobs ∧ job.id = id
  answers : ∀ limit cursor, 0 < limit →
    (∀ id ∈ cursor, durable after id ≠ none) →
    ∀ outcome final, Returns Healthy (listPage limit cursor) after outcome
      final → ∃ page, outcome = .ok page
  retried : ∀ request key principal selection hash,
    validateJobRequest request = .ok selection →
    hashIdempotencyKey digest key = .ok hash →
    (∀ id job, durable after id = some job →
      job.idempotencyHash ≠ some hash) →
    ∀ outcome final, Returns Healthy
      (submit digest ∅ request (some key) principal) after outcome final →
        ∃ job, outcome = .ok (job, true)

section recovery

variable {kept : Records → Prop} {digest : String → String}
  {ledger : Ledger} {files : JobFiles}

/-- Every page that a reader asks for is answered, and together they list
every record once. -/
theorem paged_records
    {limit : Nat}
    (here : At kept files ledger)
    (positive : 0 < limit) :
    (∃ jobs, Paged limit files none jobs) ∧
      ∀ jobs, Paged limit files none jobs → jobs.Nodup ∧
        ∀ id job, durable files id = some job ↔ job ∈ jobs ∧ job.id = id := by
  refine ⟨exists_paged here positive none (by simp), ?_⟩
  intro jobs paged
  obtain ⟨sorted, members⟩ := paged.complete here positive (by simp)
  refine ⟨sorted.imp fun less => ?_, ?_⟩
  · rintro rfl
    exact lt_irrefl _ less
  · intro id job
    rw [here.shows.durable, members]
    constructor
    · intro found
      have named := here.sound.named id job found
      exact ⟨⟨named.symm ▸ found, by simp [Ledger.cursorKey]⟩, named⟩
    · rintro ⟨⟨found, _⟩, rfl⟩
      exact found

/-- A key that no record bears is good for a new job. -/
theorem creates_of_retry
    {request : JobRequest}
    {key hash : String}
    {principal : PrincipalView}
    {selection : FileSelection}
    {outcome : Except String (Job × Bool)}
    {final : JobFiles}
    (here : At kept files ledger)
    (mirrors : Mirrors ∅ ledger)
    (digits : isDigest hash = true)
    (valid : validateJobRequest request = .ok selection)
    (hashed : hashIdempotencyKey digest key = .ok hash)
    (unborn : ∀ id job, ledger.record id = some job →
      job.idempotencyHash ≠ some hash)
    (returns : Returns Healthy
      (submit digest ∅ request (some key) principal) files outcome final) :
    ∃ job, outcome = .ok (job, true) := by
  have anew : At (Continues (fun _ => True) ledger.record) files ledger :=
    ⟨here.shows, here.sound, Continues.refl ..⟩
  obtain ⟨_, later, _, _, submitted⟩ :=
    (guards_submit anew mirrors fun _ _ => trivial).of_runs returns
  have keyed : (some key).mapM (hashIdempotencyKey digest) =
      .ok (some hash) := by
    simp [hashed]
  have born : ∀ entry existing, ledger.entry hash = some entry →
      ledger.record entry.jobId = some existing → False := by
    intro entry existing found record
    have named := here.sound.named _ existing record
    exact unborn _ existing record
      ((here.sound.ready _ existing record).owned hash entry found
        named.symm).1
  cases submitted with
  | refused refused =>
      rcases refused with invalid | invalid
      · rw [valid] at invalid
        cases invalid
      · rw [keyed] at invalid
        cases invalid
  | failed _ hashed indexed =>
      cases keyed.symm.trans hashed
      cases indexed with
      | illegible illegible =>
          rw [digits] at illegible
          cases illegible
      | conflict found record different =>
          exact (born _ _ found record).elim
  | repeated _ hashed indexed =>
      cases keyed.symm.trans hashed
      cases indexed with
      | repeated found record same => exact (born _ _ found record).elim
  | placed _ hashed unknown placed =>
      cases placed with
      | equivalent active same =>
          rw [Finmap.lookup_empty] at active
          cases active
      | created apart free => exact ⟨_, rfl⟩

/-- Starts that are cut off interrupt active records at most. -/
theorem recovers_of_reopenings
    {later : JobFiles}
    {origin : Records}
    (here : At (Recovers origin) files ledger)
    (attempts : Relation.ReflTransGen Reopening files later) :
    ∃ reached, At (Recovers origin) later reached := by
  induction attempts with
  | refl => exact ⟨ledger, here⟩
  | tail _ attempt inductionHypothesis =>
      obtain ⟨reached, there⟩ := inductionHypothesis
      obtain ⟨middle, cut, lost⟩ := attempt
      obtain ⟨next, after, _⟩ :=
        ((guards_openJobs there).of_cut cut).crash lost
      exact ⟨next, after⟩

/-- A step answers when no id is drawn, or one can be. -/
theorem healthy_total
    (op : Op)
    (files : JobFiles)
    (available : ∃ id, isJobId id = true ∧ Unused files id) :
    ∃ reply after, Healthy op files reply after := by
  cases op with
  | file op =>
      cases op with
      | list directory => exact looks_total _ _ trivial
      | _ => exact ⟨_, _, Or.inl rfl⟩
  | unixTimestamp => exact ⟨0, files, by simp, rfl⟩
  | newJobId now =>
      obtain ⟨id, valid, unused⟩ := available
      exact ⟨id, files, valid, unused, rfl⟩

namespace Sample

/-- A digest; no text is hashed for an audit without a key. -/
def zeros (_ : String) : String := String.ofList (List.replicate 64 '0')

theorem zeros_digest (text : String) : isDigest (zeros text) = true := by
  unfold zeros
  decide +kernel

/-- The start after a crash before the first step of a submission. -/
def restarted : Except ArchiveError ActiveJobs × JobFiles :=
  (openJobs.run.trace answer allowed up.files).get (by decide +kernel)

theorem restarts :
    Returns Healthy openJobs up.files restarted.1 restarted.2 :=
  runs_get (by decide +kernel)

end Sample

end recovery

end Jobs
end ModelKeep
