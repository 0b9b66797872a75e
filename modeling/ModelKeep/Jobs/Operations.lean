import ModelKeep.Jobs.Healthy

/-!
# Submission, transitions and cancellation on a ledger

What each operation answers and leaves, wherever it may be cut off: the jobs in
memory mirror the active records, and a submission is answered in one of five
ways.
-/

namespace ModelKeep
namespace Jobs

open Concurrency Program

/-- The jobs in memory are the active records. -/
def Mirrors (jobs : ActiveJobs) (ledger : Ledger) : Prop :=
  ∀ id, jobs.lookup id =
    (ledger.record id).filter fun job => job.state.isActive

section transitions

variable {fresh : Job → Prop} {origin : Records} {ledger : Ledger}
  {start : JobFiles} {jobs : ActiveJobs}

theorem Mirrors.active
    {id : String}
    {job : Job}
    (mirrors : Mirrors jobs ledger)
    (found : jobs.lookup id = some job) :
    ledger.record id = some job ∧ job.state.isActive = true := by
  rw [mirrors, Option.filter_eq_some_iff] at found
  exact found

@[simp] theorem Ledger.record_remark
    {job : Job} :
    (ledger.remark job).record = ledger.record := by
  unfold Ledger.remark
  split <;> rfl

theorem Ledger.record_settle_of_ne
    {job : Job}
    {id : String}
    (different : id ≠ job.id) :
    (ledger.settle job).record id = ledger.record id := by
  rw [Ledger.settle, Ledger.record_remark,
    Ledger.record_put_of_ne different]

@[simp] theorem Ledger.record_settle_self
    {job : Job} :
    (ledger.settle job).record job.id = some job := by
  rw [Ledger.settle, Ledger.record_remark, Ledger.record_put_self]

theorem Mirrors.settle
    (mirrors : Mirrors jobs ledger)
    (snapshot : Job) :
    Mirrors
      (if snapshot.state.isActive then jobs.insert snapshot.id snapshot
        else jobs.erase snapshot.id)
      (ledger.settle snapshot) := by
  intro id
  by_cases same : id = snapshot.id
  · rw [same, Ledger.record_settle_self, Option.filter_some]
    split
    · exact Finmap.lookup_insert _
    · exact Finmap.lookup_erase _ _
  · rw [Ledger.record_settle_of_ne same, ← mirrors]
    split
    · exact Finmap.lookup_insert_of_ne _ same
    · exact Finmap.lookup_erase_ne same

/-- A snapshot of an active job is written. -/
theorem guards_snapshot
    {id : String}
    {previous snapshot : Job}
    (here : At (Continues fresh origin) start ledger)
    (mirrors : Mirrors jobs ledger)
    (found : jobs.lookup id = some previous)
    (same : snapshot.identity = previous.identity) :
    snapshot.id = id ∧
      Guards Healthy (Holds (Continues fresh origin)) (persist snapshot).run
        (fun outcome final => outcome = .ok () ∧
          At (Continues fresh origin) final (ledger.settle snapshot)) start := by
  obtain ⟨record, active⟩ := mirrors.active found
  have sameId : snapshot.id = id :=
    (congrArg Job.Identity.id same).trans (here.sound.named id previous record)
  have known : ledger.record snapshot.id = some previous := by
    rw [sameId]
    exact record
  exact ⟨sameId, guards_persist here
    (here.sound.put known same fun _ => active) (here.keeps.put known same)⟩

theorem guards_update
    {id : String}
    {change : Nat → Job → Job}
    (here : At (Continues fresh origin) start ledger)
    (mirrors : Mirrors jobs ledger)
    (same : ∀ now job, (change now job).identity = job.identity) :
    Guards Healthy (Holds (Continues fresh origin)) (update jobs id change)
      (fun result final => ∃ later, At (Continues fresh origin) final later ∧
        Mirrors result.1 later) start := by
  unfold update
  cases found : jobs.lookup id with
  | none => exact ⟨here.holds, ledger, here, mirrors⟩
  | some previous =>
      dsimp only
      apply Guards.bind
      apply guards_unixTimestamp here.holds
      intro now _
      apply Guards.bind
      apply guards_unixTimestamp here.holds
      intro updatedAt _
      have identity : ({ change now previous with
          updatedAt := updatedAt } : Job).identity = previous.identity :=
        same now previous
      obtain ⟨sameId, guards⟩ := guards_snapshot here mirrors found identity
      apply Guards.bind
      apply guards.mono
      rintro _ final holds ⟨rfl, settled⟩
      have later := mirrors.settle { change now previous with
        updatedAt := updatedAt }
      rw [sameId] at later
      dsimp only at later ⊢
      split at later
      · next active =>
          rw [if_pos active]
          exact ⟨holds, _, settled, later⟩
      · next ended =>
          rw [if_neg ended]
          exact ⟨holds, _, settled, later⟩

theorem guards_cancelRecord
    {id : String}
    (here : At (Continues fresh origin) start ledger)
    (mirrors : Mirrors jobs ledger) :
    Guards Healthy (Holds (Continues fresh origin)) (cancelRecord jobs id)
      (fun result final => ∃ later, At (Continues fresh origin) final later ∧
        Mirrors result.1 later) start := by
  unfold cancelRecord
  cases found : jobs.lookup id with
  | none => exact ⟨here.holds, ledger, here, mirrors⟩
  | some previous =>
      dsimp only
      apply Guards.bind
      apply guards_unixTimestamp here.holds
      intro now _
      obtain ⟨sameId, guards⟩ := guards_snapshot here mirrors found
        (Job.identity_cancel now previous)
      apply Guards.bind
      apply guards.mono
      rintro _ final holds ⟨rfl, settled⟩
      have later := mirrors.settle (previous.cancel now)
      rw [sameId] at later
      exact ⟨holds, _, settled, later⟩

end transitions

/-! ## Submission -/

/-- The requests that an entry of the index was made for. -/
def Matches
    (digest : String → String)
    (request : JobRequest)
    (selection : FileSelection)
    (principal : PrincipalView)
    (requestHash : String) :
    Prop :=
  requestHash = hashIdempotencyRequest digest request selection principal ∨
    request.repoType = .model ∧ selection.isUnrestricted = true ∧
      requestHash = hashLegacyIdempotencyRequest digest request principal

/-- The index has no job for the hash; an entry without a record is
dropped. -/
inductive Unknown (ledger : Ledger) : Option String → Ledger → Prop
  | keyless : Unknown ledger none ledger
  | absent
      {hash : String}
      (digits : isDigest hash = true)
      (free : ledger.entry hash = none) :
      Unknown ledger (some hash) ledger
  | lost
      {hash : String}
      {entry : IdempotencyEntry}
      (found : ledger.entry hash = some entry)
      (missing : ledger.record entry.jobId = none) :
      Unknown ledger (some hash) (ledger.unindex hash)

/-- How the index answers. -/
inductive Indexed
    (digest : String → String)
    (ledger : Ledger)
    (request : JobRequest)
    (selection : FileSelection)
    (principal : PrincipalView) :
    Option String → Except String (Option Job) → Ledger → Prop
  | unknown
      {hash : Option String}
      {later : Ledger}
      (unknown : Unknown ledger hash later) :
      Indexed digest ledger request selection principal hash (.ok none) later
  | illegible
      {hash : String}
      (illegible : isDigest hash = false) :
      Indexed digest ledger request selection principal (some hash)
        (.error "storage") ledger
  | repeated
      {hash : String}
      {entry : IdempotencyEntry}
      {existing : Job}
      (found : ledger.entry hash = some entry)
      (record : ledger.record entry.jobId = some existing)
      (same : Matches digest request selection principal entry.requestHash) :
      Indexed digest ledger request selection principal (some hash)
        (.ok (some existing)) ledger
  | conflict
      {hash : String}
      {entry : IdempotencyEntry}
      {existing : Job}
      (found : ledger.entry hash = some entry)
      (record : ledger.record entry.jobId = some existing)
      (different :
        ¬Matches digest request selection principal entry.requestHash) :
      Indexed digest ledger request selection principal (some hash)
        (.error "idempotency_conflict") ledger

section submission

variable {fresh : Job → Prop} {origin : Records} {ledger : Ledger}
  {start : JobFiles} {jobs : ActiveJobs}
  {digest : String → String} {request : JobRequest}
  {selection : FileSelection} {principal : PrincipalView}

theorem guards_readIdempotency
    {hash : String}
    (here : At (Continues fresh origin) start ledger) :
    Guards Healthy (Holds (Continues fresh origin)) (readIdempotency hash).run
      (fun outcome final => final = start ∧
        ((isDigest hash = false ∧ ∃ error, outcome = .error error) ∨
          isDigest hash = true ∧ outcome = .ok (ledger.entry hash)))
      start := by
  unfold readIdempotency validateDigest
  split
  · next digits =>
      apply guards_check_bind
      apply guards_always_bind
      apply guards_perform here.holds
      intro reply after effect
      obtain ⟨rfl, rfl⟩ := effect_read effect
      refine ⟨here.holds, ?_⟩
      rw [here.shows.entry]
      cases found : ledger.entry hash with
      | none => exact ⟨here.holds, rfl, Or.inr ⟨digits, rfl⟩⟩
      | some entry => exact ⟨here.holds, rfl, Or.inr ⟨digits, rfl⟩⟩
  · next illegible =>
      exact ⟨here.holds, rfl, Or.inl ⟨by simpa using illegible, _, rfl⟩⟩

/-- An entry without a record is removed. -/
theorem guards_removeIdempotency
    {hash : String}
    {entry : IdempotencyEntry}
    (here : At (Continues fresh origin) start ledger)
    (found : ledger.entry hash = some entry)
    (lost : ledger.record entry.jobId = none) :
    Guards Healthy (Holds (Continues fresh origin)) (removeIdempotency hash).run
      (fun outcome final => outcome = .ok () ∧
        At (Continues fresh origin) final (ledger.unindex hash)) start := by
  have there : Path.idempotency hash ∈ start := by
    rw [← Finmap.lookup_isSome, here.shows.entry, found]
    rfl
  have removed : At (Continues fresh origin) (start.erase (.idempotency hash))
      (ledger.unindex hash) :=
    ⟨here.shows.unindex, here.sound.unindex found lost, here.keeps⟩
  unfold removeIdempotency
  rw [validateDigest, if_pos (here.sound.entries hash entry found).1]
  apply guards_check_bind
  apply guards_always_bind
  apply guards_perform here.holds
  intro reply after effect
  obtain ⟨rfl, rfl⟩ := effect_remove id there effect
  exact ⟨removed.holds, removed.holds, rfl, removed⟩

theorem guards_submitIndexed
    {hash : String}
    (here : At (Continues fresh origin) start ledger) :
    Guards Healthy (Holds (Continues fresh origin))
      (submitIndexed digest request selection principal hash).run
      (fun outcome final => ∃ later, At (Continues fresh origin) final later ∧
        Indexed digest ledger request selection principal (some hash) outcome
          later) start := by
  unfold submitIndexed
  apply guards_always_bind
  apply (guards_readIdempotency here).mono
  rintro _ _ _ ⟨rfl, ⟨illegible, error, rfl⟩ | ⟨digits, rfl⟩⟩
  · exact ⟨here.holds, ledger, here, .illegible illegible⟩
  cases found : ledger.entry hash with
  | none =>
      exact ⟨here.holds, ledger, here, .unknown (.absent digits found)⟩
  | some entry =>
      dsimp only
      apply guards_always_bind
      apply (guards_readJob here
        (here.sound.entries hash entry found).2).mono
      rintro _ _ _ ⟨rfl, rfl⟩
      cases record : ledger.record entry.jobId with
      | none =>
          dsimp only
          apply guards_always_bind
          apply (guards_removeIdempotency here found record).mono
          rintro _ _ holds ⟨rfl, removed⟩
          exact ⟨holds, _, removed, .unknown (.lost found record)⟩
      | some existing =>
          dsimp only
          split
          · next same =>
              exact ⟨here.holds, ledger, here, .repeated found record same⟩
          · next different =>
              exact ⟨here.holds, ledger, here,
                .conflict found record different⟩

/-- An id that no file speaks of is in no part of the ledger. -/
theorem At.unused
    {id : String}
    (here : At (Continues fresh origin) start ledger)
    (unused : Unused start id) :
    ledger.record id = none ∧
      (∀ key ∈ ledger.history, jobIdFromHistoryKey key ≠ some id) ∧
        ∀ hash entry, ledger.entry hash = some entry →
          entry.jobId ≠ id := by
  refine ⟨?_, ?_, ?_⟩
  · cases found : ledger.record id with
    | none => rfl
    | some job =>
        have present := here.shows.record id
        rw [found] at present
        exact absurd rfl (unused _ _ present).1
  · intro key member
    obtain ⟨file, present⟩ :=
      Finmap.mem_iff.mp ((here.shows.history key).mpr member)
    exact (unused _ _ present).1
  · intro hash entry found
    have present := here.shows.entry hash
    rw [found] at present
    exact (unused _ _ present).2 entry rfl

/-- The first id that is drawn is free. -/
theorem guards_persistCandidate
    {candidate : String → Job}
    {now attempts : Nat}
    (here : At (Continues fresh origin) start ledger)
    (mirrors : Mirrors jobs ledger)
    (admissible : ∀ id, isJobId id = true → ledger.record id = none →
      (∀ key ∈ ledger.history, jobIdFromHistoryKey key ≠ some id) →
      (∀ hash entry, ledger.entry hash = some entry → entry.jobId ≠ id) →
      (candidate id).id = id ∧ ledger.Admissible (candidate id))
    (new : ∀ id, fresh (candidate id)) :
    Guards Healthy (Holds (Continues fresh origin))
      (persistCandidate jobs candidate now (attempts + 1)).run
      (fun outcome final => ∃ id, outcome = .ok (candidate id) ∧
        ledger.Admissible (candidate id) ∧
        At (Continues fresh origin) final (ledger.enrol (candidate id))) start := by
  unfold persistCandidate
  apply guards_always_bind
  apply guards_newJobId here.holds
  intro id valid unused
  obtain ⟨free, alone, unnamed⟩ := here.unused unused
  obtain ⟨named, fits⟩ := admissible id valid free alone unnamed
  have absent : id ∉ jobs := by
    rw [← Finmap.lookup_eq_none, mirrors, free]
    rfl
  rw [if_neg absent]
  apply guards_always_bind
  apply (guards_persistNew here fits (fits.continues (new id) here.keeps)
    (named.symm ▸ unused)).mono
  rintro _ _ holds ⟨rfl, admitted⟩
  exact ⟨holds, id, rfl, fits, admitted⟩

/-- The record `submit` makes for a request. -/
def candidateFor
    (digest : String → String)
    (request : JobRequest)
    (selection : FileSelection)
    (principal : PrincipalView)
    (hash : Option String)
    (id : String)
    (now : Nat) :
    Job :=
  Job.new id request selection principal hash
    (hash.map fun _ =>
      hashIdempotencyRequest digest request selection principal) now

/-- The answer when the index has none. -/
inductive Placed
    (digest : String → String)
    (ledger : Ledger)
    (jobs : ActiveJobs)
    (request : JobRequest)
    (selection : FileSelection)
    (principal : PrincipalView)
    (hash : Option String) :
    Except String (Job × Bool) → Ledger → Prop
  | equivalent
      {id : String}
      {existing : Job}
      (active : jobs.lookup id = some existing)
      (same : existing.subject = request.subject selection) :
      Placed digest ledger jobs request selection principal hash
        (.ok (existing, false)) ledger
  | created
      {id : String}
      {now : Nat}
      (apart : ∀ other existing, jobs.lookup other = some existing →
        existing.subject ≠ request.subject selection)
      (free : ledger.record id = none) :
      Placed digest ledger jobs request selection principal hash
        (.ok (candidateFor digest request selection principal hash id now,
          true))
        (ledger.enrol
          (candidateFor digest request selection principal hash id now))

theorem Mirrors.enrol
    {job : Job}
    (mirrors : Mirrors jobs ledger)
    (queued : job.state = .queued) :
    Mirrors (jobs.insert job.id job) (ledger.enrol job) := by
  intro id
  by_cases same : id = job.id
  · rw [same, Finmap.lookup_insert, Ledger.record_enrol_self,
      Option.filter_some, if_pos]
    rw [queued]
    rfl
  · rw [Finmap.lookup_insert_of_ne _ same, Ledger.record_enrol_of_ne same,
      mirrors]

theorem guards_submitNew
    {hash : Option String}
    (here : At (Continues fresh origin) start ledger)
    (mirrors : Mirrors jobs ledger)
    (keyed : ∀ key, hash = some key →
      isDigest key = true ∧ ledger.entry key = none)
    (new : ∀ id now, fresh
      (candidateFor digest request selection principal hash id now)) :
    Guards Healthy (Holds (Continues fresh origin))
      (submitNew jobs request selection principal hash
        (hash.map fun _ =>
          hashIdempotencyRequest digest request selection principal)).run
      (fun outcome final => ∃ later, At (Continues fresh origin) final later ∧
        Mirrors (jobs.afterSubmit outcome) later ∧
        Placed digest ledger jobs request selection principal hash outcome
          later) start := by
  unfold submitNew
  rcases jobs.find_values fun job =>
      isEquivalentActiveJob job request selection with
    ⟨id, existing, found, active, same⟩ | ⟨missing, apart⟩
  · rw [found]
    exact ⟨here.holds, ledger, here, mirrors,
      .equivalent active (isEquivalentActiveJob_iff.mp same).2⟩
  · rw [missing]
    have different : ∀ other existing, jobs.lookup other = some existing →
        existing.subject ≠ request.subject selection := by
      intro other existing present equal
      have equivalent := isEquivalentActiveJob_iff.mpr
        ⟨(mirrors.active present).2, equal⟩
      rw [apart other existing present] at equivalent
      cases equivalent
    apply guards_always_bind
    apply guards_unixTimestamp here.holds
    intro now dated
    apply Guards.exceptBind
    refine (guards_persistCandidate here mirrors ?_
      fun id => new id now).mono ?_
    · intro id valid free alone unnamed
      refine ⟨rfl, rfl, valid, dated, free, alone, unnamed, ?_, keyed, ?_⟩
      · cases hash <;> rfl
      · intro other existing record active
        apply different other existing
        rw [mirrors, record, Option.filter_some, if_pos active]
    · rintro _ final holds ⟨id, rfl, admissible, admitted⟩
      exact ⟨holds, _, admitted, mirrors.enrol admissible.queued,
        .created different admissible.free⟩

/-- How `submit` answers, and what it leaves. -/
inductive Submitted
    (digest : String → String)
    (ledger : Ledger)
    (jobs : ActiveJobs)
    (request : JobRequest)
    (key : Option String)
    (principal : PrincipalView) :
    Except String (Job × Bool) → Ledger → Prop
  | refused
      {error : String}
      (refused : validateJobRequest request = .error error ∨
        key.mapM (hashIdempotencyKey digest) = .error error) :
      Submitted digest ledger jobs request key principal (.error error) ledger
  | failed
      {selection : FileSelection}
      {hash : Option String}
      {error : String}
      {later : Ledger}
      (valid : validateJobRequest request = .ok selection)
      (hashed : key.mapM (hashIdempotencyKey digest) = .ok hash)
      (indexed : Indexed digest ledger request selection principal hash
        (.error error) later) :
      Submitted digest ledger jobs request key principal (.error error) later
  | repeated
      {selection : FileSelection}
      {hash : Option String}
      {existing : Job}
      {later : Ledger}
      (valid : validateJobRequest request = .ok selection)
      (hashed : key.mapM (hashIdempotencyKey digest) = .ok hash)
      (indexed : Indexed digest ledger request selection principal hash
        (.ok (some existing)) later) :
      Submitted digest ledger jobs request key principal
        (.ok (existing, false)) later
  | placed
      {selection : FileSelection}
      {hash : Option String}
      {middle later : Ledger}
      {outcome : Except String (Job × Bool)}
      (valid : validateJobRequest request = .ok selection)
      (hashed : key.mapM (hashIdempotencyKey digest) = .ok hash)
      (unknown : Unknown ledger hash middle)
      (placed : Placed digest middle jobs request selection principal hash
        outcome later) :
      Submitted digest ledger jobs request key principal outcome later

/-- The jobs that a submission may make. -/
def MadeFor
    (digest : String → String)
    (request : JobRequest)
    (key : Option String)
    (principal : PrincipalView)
    (job : Job) :
    Prop :=
  ∃ selection hash id now, validateJobRequest request = .ok selection ∧
    key.mapM (hashIdempotencyKey digest) = .ok hash ∧
    job = candidateFor digest request selection principal hash id now

theorem Unknown.record
    {hash : Option String}
    {later : Ledger}
    (unknown : Unknown ledger hash later) :
    later.record = ledger.record := by
  cases unknown <;> rfl

theorem Unknown.free
    {hash : Option String}
    {later : Ledger}
    (sound : ledger.Sound)
    (unknown : Unknown ledger hash later) :
    ∀ key, hash = some key →
      isDigest key = true ∧ later.entry key = none := by
  rintro key rfl
  cases unknown with
  | absent digits free => exact ⟨digits, free⟩
  | lost found missing =>
      exact ⟨(sound.entries key _ found).1, Ledger.entry_unindex_self ..⟩

theorem guards_submit
    {key : Option String}
    (here : At (Continues fresh origin) start ledger)
    (mirrors : Mirrors jobs ledger)
    (new : ∀ job, MadeFor digest request key principal job → fresh job) :
    Guards Healthy (Holds (Continues fresh origin))
      (submit digest jobs request key principal).run
      (fun outcome final => ∃ later, At (Continues fresh origin) final later ∧
        Mirrors (jobs.afterSubmit outcome) later ∧
        Submitted digest ledger jobs request key principal outcome later)
      start := by
  unfold submit
  cases valid : validateJobRequest request with
  | error error =>
      exact ⟨here.holds, ledger, here, mirrors, .refused (Or.inl valid)⟩
  | ok selection =>
      apply guards_check_bind
      cases hashed : key.mapM (hashIdempotencyKey digest) with
      | error error =>
          exact ⟨here.holds, ledger, here, mirrors,
            .refused (Or.inr hashed)⟩
      | ok hash =>
          apply guards_check_bind
          cases hash with
          | none =>
              apply (guards_submitNew here mirrors
                (fun _ keyed => by cases keyed)
                fun id now => new _ ⟨_, _, id, now, valid, hashed, rfl⟩).mono
              rintro outcome final _ ⟨later, there, mirrored, placed⟩
              exact ⟨later, there, mirrored,
                .placed valid hashed .keyless placed⟩
          | some hash =>
              apply Guards.exceptBind
              apply (guards_submitIndexed here).mono
              rintro outcome middle holds ⟨indexed, there, answer⟩
              have same : ∀ later, Indexed digest ledger request selection
                  principal (some hash) outcome later →
                  Mirrors jobs later := by
                intro later found id
                cases found with
                | unknown unknown => rw [unknown.record, mirrors]
                | illegible => exact mirrors id
                | repeated => exact mirrors id
                | conflict => exact mirrors id
              match outcome, answer with
              | .error error, failed =>
                  exact ⟨indexed, there, same indexed failed,
                    .failed valid hashed failed⟩
              | .ok (some existing), found =>
                  exact ⟨holds, indexed, there, same indexed found,
                    .repeated valid hashed found⟩
              | .ok none, .unknown unknown =>
                  apply (guards_submitNew there
                    (same indexed (.unknown unknown))
                    (unknown.free here.sound) fun id now =>
                      new _ ⟨_, _, id, now, valid, hashed, rfl⟩).mono
                  rintro result final _ ⟨later, ends, mirrored, placed⟩
                  exact ⟨later, ends, mirrored,
                    .placed valid hashed unknown placed⟩

end submission

end Jobs
end ModelKeep
