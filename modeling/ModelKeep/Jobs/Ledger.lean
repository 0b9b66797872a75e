import ModelKeep.Jobs.HistoryKeys
import ModelKeep.Jobs.Records

/-!
# What the files of the jobs say

A ledger has records, the entries of the idempotency index, the keys of the
history and the markers of active jobs.  A sound ledger can be repaired at any
time: every record is in the indexes, and what is in an index without a record
stands in nobody's way.  The files show a ledger when every value is whole and
synced.
-/

namespace ModelKeep
namespace Jobs

/-- What makes two active jobs equivalent. -/
structure Subject where
  kind : JobKind
  repoType : RepositoryType
  repoId : Option String
  revision : Option String
  included : List String
  excluded : List String
  deriving DecidableEq

def Job.Identity.subject (identity : Job.Identity) : Subject :=
  ⟨identity.kind, identity.repoType, identity.repoId, identity.revision,
    identity.included, identity.excluded⟩

def Job.subject (job : Job) : Subject := job.identity.subject

def JobRequest.subject
    (request : JobRequest)
    (selection : FileSelection) :
    Subject :=
  ⟨request.kind, request.repoType, request.repoId, request.revision,
    selection.included, selection.excluded⟩

theorem isEquivalentActiveJob_iff
    {job : Job}
    {request : JobRequest}
    {selection : FileSelection} :
    isEquivalentActiveJob job request selection = true ↔
      job.state.isActive = true ∧ job.subject = request.subject selection := by
  unfold isEquivalentActiveJob Job.subject JobRequest.subject
    Job.Identity.subject Job.identity
  simp only [Bool.and_eq_true, decide_eq_true_eq, Subject.mk.injEq]
  tauto

structure Ledger where
  record : String → Option Job
  entry : String → Option IdempotencyEntry
  history : Set String
  active : Set String

namespace Ledger

/-- The key under which a job is in the history. -/
def keyOf (job : Job) : String := historyKey job.createdAt job.id

def put (ledger : Ledger) (job : Job) : Ledger :=
  { ledger with record := Function.update ledger.record job.id (some job) }

def list (ledger : Ledger) (key : String) : Ledger :=
  { ledger with history := insert key ledger.history }

def mark (ledger : Ledger) (id : String) : Ledger :=
  { ledger with active := insert id ledger.active }

def unmark (ledger : Ledger) (id : String) : Ledger :=
  { ledger with active := ledger.active \ {id} }

def index
    (ledger : Ledger)
    (hash : String)
    (entry : IdempotencyEntry) :
    Ledger :=
  { ledger with entry := Function.update ledger.entry hash (some entry) }

def unindex (ledger : Ledger) (hash : String) : Ledger :=
  { ledger with entry := Function.update ledger.entry hash none }

section fields

variable {ledger : Ledger}

@[simp] theorem record_put_self
    {job : Job} :
    (ledger.put job).record job.id = some job :=
  Function.update_self ..

theorem record_put_of_ne
    {job : Job}
    {id : String}
    (different : id ≠ job.id) :
    (ledger.put job).record id = ledger.record id :=
  Function.update_of_ne different ..

@[simp] theorem entry_index_self
    {hash : String}
    {entry : IdempotencyEntry} :
    (ledger.index hash entry).entry hash = some entry :=
  Function.update_self ..

theorem entry_index_of_ne
    {hash other : String}
    {entry : IdempotencyEntry}
    (different : other ≠ hash) :
    (ledger.index hash entry).entry other = ledger.entry other :=
  Function.update_of_ne different ..

@[simp] theorem entry_unindex_self
    {hash : String} :
    (ledger.unindex hash).entry hash = none :=
  Function.update_self ..

theorem entry_unindex_of_ne
    {hash other : String}
    (different : other ≠ hash) :
    (ledger.unindex hash).entry other = ledger.entry other :=
  Function.update_of_ne different ..

end fields

/-- The markers and entries that a record must have before it is written. -/
structure Ready (ledger : Ledger) (job : Job) : Prop where
  valid : isJobId job.id = true
  dated : job.createdAt < 2 ^ 64
  listed : keyOf job ∈ ledger.history
  marked : job.state.isActive = true → job.id ∈ ledger.active
  indexed : ∀ hash, job.idempotencyHash = some hash →
    ∃ requestHash, job.idempotencyRequestHash = some requestHash ∧
      isDigest hash = true ∧
      ledger.entry hash = some ⟨job.id, requestHash⟩
  alone : ∀ key ∈ ledger.history,
    jobIdFromHistoryKey key = some job.id → key = keyOf job
  owned : ∀ hash entry, ledger.entry hash = some entry →
    entry.jobId = job.id → job.idempotencyHash = some hash ∧
      job.idempotencyRequestHash = some entry.requestHash

structure Sound (ledger : Ledger) : Prop where
  named : ∀ id job, ledger.record id = some job → job.id = id
  ready : ∀ id job, ledger.record id = some job → ledger.Ready job
  entries : ∀ hash entry, ledger.entry hash = some entry →
    isDigest hash = true ∧ isJobId entry.jobId = true
  distinct : ∀ first second one other,
    ledger.record first = some one → ledger.record second = some other →
    one.state.isActive = true → other.state.isActive = true →
    one.subject = other.subject → first = second

theorem Ready.of_same
    {ledger : Ledger}
    {job other : Job}
    (ready : ledger.Ready job)
    (same : other.identity = job.identity)
    (active : other.state.isActive = true → job.state.isActive = true) :
    ledger.Ready other := by
  cases job
  cases other
  simp only [Job.identity, Job.Identity.mk.injEq] at same
  obtain ⟨rfl, -, -, -, -, -, -, -, rfl, rfl, rfl⟩ := same
  exact ⟨ready.valid, ready.dated, ready.listed,
    fun going => ready.marked (active going), ready.indexed, ready.alone,
    ready.owned⟩

section sound

variable {ledger : Ledger}

/-- A job that is known moves on. -/
theorem Sound.put
    {previous snapshot : Job}
    (sound : ledger.Sound)
    (found : ledger.record snapshot.id = some previous)
    (same : snapshot.identity = previous.identity)
    (active : snapshot.state.isActive = true →
      previous.state.isActive = true) :
    (ledger.put snapshot).Sound := by
  have subject : snapshot.subject = previous.subject := by
    rw [Job.subject, same, Job.subject]
  have was : ∀ id job, (ledger.put snapshot).record id = some job →
      ∃ old, ledger.record id = some old ∧
        job.identity = old.identity ∧
        (job.state.isActive = true → old.state.isActive = true) := by
    intro id job present
    by_cases equal : id = snapshot.id
    · rw [equal, record_put_self] at present
      cases present
      exact ⟨previous, equal ▸ found, same, active⟩
    · rw [record_put_of_ne equal] at present
      exact ⟨job, present, rfl, fun going => going⟩
  refine ⟨?_, ?_, sound.entries, ?_⟩
  · intro id job present
    obtain ⟨old, before, sameJob, _⟩ := was id job present
    exact (congrArg Job.Identity.id sameJob).trans (sound.named id old before)
  · intro id job present
    obtain ⟨old, before, sameJob, going⟩ := was id job present
    have ready := (sound.ready id old before).of_same sameJob going
    exact ⟨ready.valid, ready.dated, ready.listed, ready.marked,
      ready.indexed, ready.alone, ready.owned⟩
  · intro first second one other present presentOther going goingOther equal
    obtain ⟨old, before, sameOne, wasActive⟩ := was first one present
    obtain ⟨oldOther, beforeOther, sameOther, wasActiveOther⟩ :=
      was second other presentOther
    refine sound.distinct first second old oldOther before beforeOther
      (wasActive going) (wasActiveOther goingOther) ?_
    rw [Job.subject, ← sameOne, ← Job.subject, equal, Job.subject, sameOther,
      Job.subject]

/-- A new job is written. -/
theorem Sound.put_new
    {job : Job}
    (sound : ledger.Sound)
    (ready : ledger.Ready job)
    (free : ledger.record job.id = none)
    (apart : ∀ id other, ledger.record id = some other →
      other.state.isActive = true → other.subject ≠ job.subject) :
    (ledger.put job).Sound := by
  have was : ∀ id found, (ledger.put job).record id = some found →
      (id = job.id ∧ found = job) ∨
        (id ≠ job.id ∧ ledger.record id = some found) := by
    intro id found present
    by_cases equal : id = job.id
    · rw [equal, record_put_self] at present
      cases present
      exact Or.inl ⟨equal, rfl⟩
    · rw [record_put_of_ne equal] at present
      exact Or.inr ⟨equal, present⟩
  have whole : ∀ found, ledger.Ready found → (ledger.put job).Ready found :=
    fun found ready => ⟨ready.valid, ready.dated, ready.listed, ready.marked,
      ready.indexed, ready.alone, ready.owned⟩
  refine ⟨?_, ?_, sound.entries, ?_⟩
  · intro id found present
    rcases was id found present with ⟨equal, rfl⟩ | ⟨_, before⟩
    · exact equal.symm
    · exact sound.named id found before
  · intro id found present
    rcases was id found present with ⟨_, rfl⟩ | ⟨_, before⟩
    · exact whole _ ready
    · exact whole _ (sound.ready id found before)
  · intro first second one other present presentOther going goingOther equal
    rcases was first one present with ⟨sameOne, rfl⟩ | ⟨_, before⟩
    · rcases was second other presentOther with
        ⟨sameOther, rfl⟩ | ⟨_, beforeOther⟩
      · rw [sameOne, sameOther]
      · exact absurd equal.symm (apart second other beforeOther goingOther)
    · rcases was second other presentOther with
        ⟨_, rfl⟩ | ⟨_, beforeOther⟩
      · exact absurd equal (apart first one before going)
      · exact sound.distinct first second one other before beforeOther going
          goingOther equal

/-- A key of the history may be added when no other record bears its id. -/
theorem Sound.list
    {key : String}
    (sound : ledger.Sound)
    (own : ∀ id job, ledger.record id = some job →
      jobIdFromHistoryKey key = some id → key = keyOf job) :
    (ledger.list key).Sound := by
  refine ⟨sound.named, ?_, sound.entries, sound.distinct⟩
  intro id job present
  have ready := sound.ready id job present
  refine ⟨ready.valid, ready.dated, Set.mem_insert_of_mem _ ready.listed,
    ready.marked, ready.indexed, ?_, ready.owned⟩
  rintro other (rfl | member) decoded
  · rw [sound.named id job present] at decoded
    exact own id job present decoded
  · exact ready.alone other member decoded

theorem Sound.mark
    {id : String}
    (sound : ledger.Sound) :
    (ledger.mark id).Sound := by
  refine ⟨sound.named, ?_, sound.entries, sound.distinct⟩
  intro other job present
  have ready := sound.ready other job present
  exact ⟨ready.valid, ready.dated, ready.listed,
    fun active => Set.mem_insert_of_mem _ (ready.marked active),
    ready.indexed, ready.alone, ready.owned⟩

/-- A marker may go when its record is not active. -/
theorem Sound.unmark
    {id : String}
    (sound : ledger.Sound)
    (ceased : ∀ job, ledger.record id = some job →
      job.state.isActive = false) :
    (ledger.unmark id).Sound := by
  refine ⟨sound.named, ?_, sound.entries, sound.distinct⟩
  intro other job present
  have ready := sound.ready other job present
  refine ⟨ready.valid, ready.dated, ready.listed, ?_, ready.indexed,
    ready.alone, ready.owned⟩
  intro active
  refine ⟨ready.marked active, ?_⟩
  intro equal
  rw [sound.named other job present] at equal
  rw [Set.mem_singleton_iff] at equal
  rw [ceased job (equal ▸ present)] at active
  cases active

/-- An entry may be added where none is, for a job that has no record. -/
theorem Sound.index
    {hash : String}
    {entry : IdempotencyEntry}
    (sound : ledger.Sound)
    (digits : isDigest hash = true)
    (valid : isJobId entry.jobId = true)
    (free : ledger.entry hash = none)
    (unwritten : ledger.record entry.jobId = none) :
    (ledger.index hash entry).Sound := by
  refine ⟨sound.named, ?_, ?_, sound.distinct⟩
  · intro id job present
    have ready := sound.ready id job present
    refine ⟨ready.valid, ready.dated, ready.listed, ready.marked, ?_,
      ready.alone, ?_⟩
    · intro other keyed
      obtain ⟨requestHash, requested, digest, indexed⟩ :=
        ready.indexed other keyed
      refine ⟨requestHash, requested, digest, ?_⟩
      have different : other ≠ hash := by
        rintro rfl
        rw [free] at indexed
        cases indexed
      exact (entry_index_of_ne different).trans indexed
    · intro other found written same
      by_cases equal : other = hash
      · rw [equal, entry_index_self] at written
        cases written
        rw [same, sound.named id job present] at unwritten
        cases present.symm.trans unwritten
      · rw [entry_index_of_ne equal] at written
        exact ready.owned other found written same
  · intro other found present
    by_cases equal : other = hash
    · rw [equal, entry_index_self] at present
      cases present
      rw [equal]
      exact ⟨digits, valid⟩
    · rw [entry_index_of_ne equal] at present
      exact sound.entries other found present

/-- An entry may go when it names no record. -/
theorem Sound.unindex
    {hash : String}
    {entry : IdempotencyEntry}
    (sound : ledger.Sound)
    (found : ledger.entry hash = some entry)
    (lost : ledger.record entry.jobId = none) :
    (ledger.unindex hash).Sound := by
  refine ⟨sound.named, ?_, ?_, sound.distinct⟩
  · intro id job present
    have ready := sound.ready id job present
    refine ⟨ready.valid, ready.dated, ready.listed, ready.marked, ?_,
      ready.alone, ?_⟩
    · intro other keyed
      obtain ⟨requestHash, requested, digest, indexed⟩ :=
        ready.indexed other keyed
      refine ⟨requestHash, requested, digest, ?_⟩
      have different : other ≠ hash := by
        rintro rfl
        rw [found] at indexed
        cases indexed
        rw [sound.named id job present] at lost
        cases present.symm.trans lost
      exact (entry_unindex_of_ne different).trans indexed
    · intro other kept written same
      by_cases equal : other = hash
      · rw [equal, entry_unindex_self] at written
        cases written
      · rw [entry_unindex_of_ne equal] at written
        exact ready.owned other kept written same
  · intro other kept present
    by_cases equal : other = hash
    · rw [equal, entry_unindex_self] at present
      cases present
    · rw [entry_unindex_of_ne equal] at present
      exact sound.entries other kept present

end sound

end Ledger

/-- The records of a ledger. -/
abbrev Records : Type := String → Option Job

/-- The later records are those of the earlier ones, which may have moved on,
and fresh ones. -/
structure Continues (fresh : Job → Prop) (earlier later : Records) :
    Prop where
  kept : ∀ id job, earlier id = some job →
    ∃ next, later id = some next ∧ next.identity = job.identity
  since : ∀ id job, later id = some job →
    (∃ old, earlier id = some old ∧ job.identity = old.identity) ∨
      ∃ new, fresh new ∧ job.identity = new.identity

theorem Continues.refl
    (fresh : Job → Prop)
    (records : Records) :
    Continues fresh records records :=
  ⟨fun _ job present => ⟨job, present, rfl⟩,
    fun _ job present => Or.inl ⟨job, present, rfl⟩⟩

/-- A record is written over one of the same job. -/
theorem Continues.put
    {fresh : Job → Prop}
    {earlier : Records}
    {ledger : Ledger}
    {previous job : Job}
    (continues : Continues fresh earlier ledger.record)
    (found : ledger.record job.id = some previous)
    (same : job.identity = previous.identity) :
    Continues fresh earlier (ledger.put job).record := by
  constructor
  · intro id old present
    obtain ⟨next, there, kept⟩ := continues.kept id old present
    by_cases equal : id = job.id
    · rw [equal] at there ⊢
      cases found.symm.trans there
      exact ⟨job, Ledger.record_put_self .., same.trans kept⟩
    · exact ⟨next, (Ledger.record_put_of_ne equal).trans there, kept⟩
  · intro id other present
    by_cases equal : id = job.id
    · rw [equal, Ledger.record_put_self] at present
      cases present
      rw [equal, same]
      exact continues.since _ previous found
    · rw [Ledger.record_put_of_ne equal] at present
      exact continues.since id other present

/-! ## Files that show a ledger -/

/-- The files say what the ledger says, in whole and synced values. -/
structure Shows (files : JobFiles) (ledger : Ledger) : Prop where
  record : ∀ id, files.lookup (.record id) =
    (ledger.record id).map fun job => ⟨some (.job job), true⟩
  entry : ∀ hash, files.lookup (.idempotency hash) =
    (ledger.entry hash).map fun entry => ⟨some (.entry entry), true⟩
  history : ∀ key, .history key ∈ files ↔ key ∈ ledger.history
  active : ∀ id, .active id ∈ files ↔ id ∈ ledger.active

/-- The paths whose files a ledger is read from. -/
def Path.Vital : Path → Prop
  | .record _ => True
  | .idempotency _ => True
  | .history _ => True
  | .active _ => True
  | _ => False

section shows

variable {files before after : JobFiles} {ledger : Ledger}

theorem Shows.durable
    (shows : Shows files ledger)
    (id : String) :
    durable files id = ledger.record id := by
  rw [Jobs.durable, shows.record]
  cases ledger.record id <;> rfl

theorem Shows.congr
    (shows : Shows before ledger)
    (same : ∀ path, path.Vital → after.lookup path = before.lookup path) :
    Shows after ledger := by
  refine ⟨?_, ?_, ?_, ?_⟩
  · intro id
    rw [same (.record id) trivial, shows.record]
  · intro hash
    rw [same (.idempotency hash) trivial, shows.entry]
  · intro key
    rw [mem_congr (same (.history key) trivial), shows.history]
  · intro id
    rw [mem_congr (same (.active id) trivial), shows.active]

/-- A file that is no part of a ledger. -/
theorem Shows.insert
    {path : Path}
    {file : Storage.File Content}
    (shows : Shows files ledger)
    (other : ¬path.Vital) :
    Shows (files.insert path file) ledger := by
  apply shows.congr
  intro place vital
  apply Finmap.lookup_insert_of_ne
  rintro rfl
  exact other vital

theorem Shows.erase
    {path : Path}
    (shows : Shows files ledger)
    (other : ¬path.Vital) :
    Shows (files.erase path) ledger := by
  apply shows.congr
  intro place vital
  apply Finmap.lookup_erase_ne
  rintro rfl
  exact other vital

theorem Shows.put
    {job : Job}
    (shows : Shows files ledger) :
    Shows (files.insert (.record job.id) ⟨some (.job job), true⟩)
      (ledger.put job) := by
  refine ⟨?_, ?_, ?_, ?_⟩
  · intro id
    by_cases same : id = job.id
    · rw [same, Finmap.lookup_insert, Ledger.record_put_self]
      rfl
    · rw [Finmap.lookup_insert_of_ne _ (by simpa using same),
        Ledger.record_put_of_ne same, shows.record]
  · intro hash
    rw [Finmap.lookup_insert_of_ne _ (by simp), shows.entry]
    rfl
  · intro key
    rw [Finmap.mem_insert, shows.history]
    simp [Ledger.put]
  · intro id
    rw [Finmap.mem_insert, shows.active]
    simp [Ledger.put]

theorem Shows.list
    {key : String}
    {file : Storage.File Content}
    (shows : Shows files ledger) :
    Shows (files.insert (.history key) file) (ledger.list key) := by
  refine ⟨?_, ?_, ?_, ?_⟩
  · intro id
    rw [Finmap.lookup_insert_of_ne _ (by simp), shows.record]
    rfl
  · intro hash
    rw [Finmap.lookup_insert_of_ne _ (by simp), shows.entry]
    rfl
  · intro other
    rw [Finmap.mem_insert, shows.history]
    simp [Ledger.list]
  · intro id
    rw [Finmap.mem_insert, shows.active]
    simp [Ledger.list]

theorem Shows.mark
    {id : String}
    {file : Storage.File Content}
    (shows : Shows files ledger) :
    Shows (files.insert (.active id) file) (ledger.mark id) := by
  refine ⟨?_, ?_, ?_, ?_⟩
  · intro other
    rw [Finmap.lookup_insert_of_ne _ (by simp), shows.record]
    rfl
  · intro hash
    rw [Finmap.lookup_insert_of_ne _ (by simp), shows.entry]
    rfl
  · intro key
    rw [Finmap.mem_insert, shows.history]
    simp [Ledger.mark]
  · intro other
    rw [Finmap.mem_insert, shows.active]
    simp [Ledger.mark]

theorem Shows.unmark
    {id : String}
    (shows : Shows files ledger) :
    Shows (files.erase (.active id)) (ledger.unmark id) := by
  refine ⟨?_, ?_, ?_, ?_⟩
  · intro other
    rw [Finmap.lookup_erase_ne (by simp), shows.record]
    rfl
  · intro hash
    rw [Finmap.lookup_erase_ne (by simp), shows.entry]
    rfl
  · intro key
    rw [Finmap.mem_erase, shows.history]
    simp [Ledger.unmark]
  · intro other
    rw [Finmap.mem_erase, shows.active]
    simp [Ledger.unmark, and_comm]

theorem Shows.index
    {hash : String}
    {entry : IdempotencyEntry}
    (shows : Shows files ledger) :
    Shows (files.insert (.idempotency hash) ⟨some (.entry entry), true⟩)
      (ledger.index hash entry) := by
  refine ⟨?_, ?_, ?_, ?_⟩
  · intro id
    rw [Finmap.lookup_insert_of_ne _ (by simp), shows.record]
    rfl
  · intro other
    by_cases same : other = hash
    · rw [same, Finmap.lookup_insert, Ledger.entry_index_self]
      rfl
    · rw [Finmap.lookup_insert_of_ne _ (by simpa using same),
        Ledger.entry_index_of_ne same, shows.entry]
  · intro key
    rw [Finmap.mem_insert, shows.history]
    simp [Ledger.index]
  · intro id
    rw [Finmap.mem_insert, shows.active]
    simp [Ledger.index]

theorem Shows.unindex
    {hash : String}
    (shows : Shows files ledger) :
    Shows (files.erase (.idempotency hash)) (ledger.unindex hash) := by
  refine ⟨?_, ?_, ?_, ?_⟩
  · intro id
    rw [Finmap.lookup_erase_ne (by simp), shows.record]
    rfl
  · intro other
    by_cases same : other = hash
    · rw [same, Finmap.lookup_erase, Ledger.entry_unindex_self]
      rfl
    · rw [Finmap.lookup_erase_ne (by simpa using same),
        Ledger.entry_unindex_of_ne same, shows.entry]
  · intro key
    rw [Finmap.mem_erase, shows.history]
    simp [Ledger.unindex]
  · intro id
    rw [Finmap.mem_erase, shows.active]
    simp [Ledger.unindex]

/-- What a crash loses is not in the ledger. -/
theorem Shows.crash
    (shows : Shows before ledger)
    (crash : Storage.Crash before after) :
    Shows after ledger := by
  have whole : ∀ path content,
      before.lookup path = some ⟨some content, true⟩ →
        after.lookup path = before.lookup path := by
    intro path content present
    rcases crash path with same | ⟨file, found, unsynced, _⟩
    · exact same
    · rw [present] at found
      cases found
      cases unsynced
  have absent : ∀ path, before.lookup path = none →
      after.lookup path = before.lookup path := by
    intro path missing
    rcases crash path with same | ⟨file, found, _⟩
    · exact same
    · rw [missing] at found
      cases found
  have there : ∀ path, path ∈ after ↔ path ∈ before := by
    intro path
    rw [← Finmap.lookup_isSome, ← Finmap.lookup_isSome]
    rcases crash path with same | ⟨file, found, _, lost⟩
    · rw [same]
    · rw [found, lost]
      simp
  refine ⟨?_, ?_, fun key => (there _).trans (shows.history key),
    fun id => (there _).trans (shows.active id)⟩
  · intro id
    cases known : ledger.record id with
    | none =>
        rw [absent _ (by rw [shows.record, known]; rfl), shows.record, known]
    | some job =>
        rw [whole _ (.job job) (by rw [shows.record, known]; rfl),
          shows.record, known]
  · intro hash
    cases known : ledger.entry hash with
    | none =>
        rw [absent _ (by rw [shows.entry, known]; rfl), shows.entry, known]
    | some entry =>
        rw [whole _ (.entry entry) (by rw [shows.entry, known]; rfl),
          shows.entry, known]

end shows

end Jobs
end ModelKeep
