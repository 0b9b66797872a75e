import ModelKeep.Jobs.Ledger

/-!
# Calls that may be cut off

No step fails, but the process may end after any of them.  Wherever it does,
the files show a sound ledger with records that the call may leave; and a call
that comes to its end has done what it is for.
-/

namespace ModelKeep
namespace Jobs

open Concurrency Program

/-- The ids that a path speaks of. -/
def Path.Mentions : Path → String → Prop
  | .record id, other => id = other
  | .temporary id nonce, other => id = other ∨ nonce = other
  | .reservation id, other => id = other
  | .sentinel, _ => False
  | .sentinelTemporary nonce, other => nonce = other
  | .history key, other => jobIdFromHistoryKey key = some other
  | .active id, other => id = other
  | .idempotency _, _ => False
  | .entryTemporary _ nonce, other => nonce = other

/-- An id that no file speaks of: 128 random bits are new. -/
def Unused (files : JobFiles) (id : String) : Prop :=
  ∀ path file, files.lookup path = some file →
    ¬path.Mentions id ∧
      ∀ entry, file.content = some (.entry entry) → entry.jobId ≠ id

/-- No step fails. -/
abbrev Healthy : Semantics interface JobFiles :=
  Effect (fun _ => False) Unused

/-- The files show a sound ledger with records that are kept. -/
structure At
    (kept : Records → Prop)
    (files : JobFiles)
    (ledger : Ledger) :
    Prop where
  shows : Shows files ledger
  sound : ledger.Sound
  keeps : kept ledger.record

def Holds (kept : Records → Prop) (files : JobFiles) : Prop :=
  ∃ ledger, At kept files ledger

section rules

variable {kept : Records → Prop} {start : JobFiles} {α β ε : Type}
  {invariant : JobFiles → Prop}

theorem At.holds
    {ledger : Ledger}
    (here : At kept start ledger) :
    Holds kept start := ⟨ledger, here⟩

theorem guards_perform
    {op : FileOp}
    {post : op.Reply → JobFiles → Prop}
    (holds : invariant start)
    (step : ∀ reply after, Healthy (.file op) start reply after →
      invariant after ∧ post reply after) :
    Guards Healthy invariant (perform op) post start :=
  ⟨holds, fun reply after effect => step reply after effect⟩

/-- A step that a part looks at and goes on. -/
theorem guards_always_bind
    {program : Program interface α}
    {rest : α → ExceptT ε (Program interface) β}
    {post : Except ε β → JobFiles → Prop}
    (guards : Guards Healthy invariant program
      (fun value middle =>
        Guards Healthy invariant (rest value).run post middle) start) :
    Guards Healthy invariant (always program >>= rest).run post start := by
  apply Guards.exceptBind
  rw [run_always]
  apply Guards.bind
  exact guards.mono fun value middle holds next => ⟨holds, next⟩

/-- A step that does not fail. -/
theorem guards_orFail_bind
    {step : Program interface (Except Storage.ErrorKind α)}
    {rest : α → Action β}
    {post : Except ArchiveError β → JobFiles → Prop}
    (guards : Guards Healthy invariant step
      (fun reply middle => ∃ value, reply = .ok value ∧
        Guards Healthy invariant (rest value).run post middle) start) :
    Guards Healthy invariant (orFail step >>= rest).run post start := by
  apply Guards.exceptBind
  apply Guards.bind
  apply guards.mono
  rintro reply middle holds ⟨value, rfl, next⟩
  exact ⟨holds, next⟩

theorem guards_orFail
    {step : Program interface (Except Storage.ErrorKind α)}
    {post : Except ArchiveError α → JobFiles → Prop}
    (guards : Guards Healthy invariant step
      (fun reply middle => ∃ value, reply = .ok value ∧
        post (.ok value) middle) start) :
    Guards Healthy invariant (orFail step).run post start := by
  apply Guards.bind
  apply guards.mono
  rintro reply middle holds ⟨value, rfl, next⟩
  exact ⟨holds, next⟩

theorem guards_check_bind
    {value : α}
    {rest : α → ExceptT ε (Program interface) β}
    {post : Except ε β → JobFiles → Prop}
    (guards : Guards Healthy invariant (rest value).run post start) :
    Guards Healthy invariant (check (.ok value) >>= rest).run post
      start := guards

theorem guards_unixTimestamp
    {post : Nat → JobFiles → Prop}
    (holds : invariant start)
    (next : ∀ now, now < 2 ^ 64 → post now start) :
    Guards Healthy invariant unixTimestamp post start := by
  refine ⟨holds, ?_⟩
  rintro now after ⟨dated, rfl⟩
  exact ⟨holds, next now dated⟩

theorem guards_newJobId
    {now : Nat}
    {post : String → JobFiles → Prop}
    (holds : invariant start)
    (next : ∀ id, isJobId id = true → Unused start id → post id start) :
    Guards Healthy invariant (newJobId now) post start := by
  refine ⟨holds, ?_⟩
  rintro id after ⟨valid, unused, rfl⟩
  exact ⟨holds, next id valid unused⟩

theorem guards_syncDirectory
    {directory : Directory}
    {post : Except Storage.ErrorKind Unit → JobFiles → Prop}
    (holds : invariant start)
    (next : post (.ok ()) start) :
    Guards Healthy invariant (perform (.syncDirectory directory)) post
      start := by
  apply guards_perform holds
  intro reply after effect
  obtain ⟨rfl, rfl | ⟨fault, _⟩⟩ := effect_syncDirectory effect
  · exact ⟨holds, next⟩
  · exact fault.elim

end rules

section indexes

variable {kept : Records → Prop} {ledger : Ledger} {start : JobFiles}

/-- A file that is no part of a ledger comes, changes or goes. -/
theorem At.insert
    {path : Path}
    (here : At kept start ledger)
    (file : Storage.File Content)
    (other : ¬path.Vital) :
    At kept (start.insert path file) ledger :=
  ⟨here.shows.insert other, here.sound, here.keeps⟩

theorem At.erase
    {path : Path}
    (here : At kept start ledger)
    (other : ¬path.Vital) :
    At kept (start.erase path) ledger :=
  ⟨here.shows.erase other, here.sound, here.keeps⟩

/-- A marker is created, or stays. -/
theorem guards_createMarker
    {path : Path}
    {later : Ledger}
    (here : At kept start ledger)
    (adds : ∀ file, At kept (start.insert path file) later)
    (known : path ∈ start → later = ledger) :
    Guards Healthy (Holds kept) (createMarker path).run
      (fun outcome final => outcome = .ok () ∧ At kept final later)
      start := by
  unfold createMarker
  apply guards_always_bind
  apply guards_perform here.holds
  intro reply after effect
  rcases effect_createNew id effect with
    ⟨there, rfl, rfl⟩ | ⟨absent, rfl, rfl⟩
  · refine ⟨here.holds, here.holds, rfl, ?_⟩
    rw [known there]
    exact here
  · refine ⟨(adds .fresh).holds, ?_⟩
    apply guards_orFail
    apply guards_perform (adds .fresh).holds
    intro reply after effect
    rcases effect_sync effect (Finmap.lookup_insert _) with
      ⟨rfl, rfl⟩ | ⟨fault, _⟩
    · rw [Finmap.insert_insert]
      exact ⟨(adds _).holds, (), rfl, rfl, adds _⟩
    · exact fault.elim

theorem Ledger.list_of_mem
    {key : String}
    (member : key ∈ ledger.history) :
    ledger.list key = ledger := by
  unfold Ledger.list
  rw [Set.insert_eq_of_mem member]

theorem Ledger.mark_of_mem
    {id : String}
    (member : id ∈ ledger.active) :
    ledger.mark id = ledger := by
  unfold Ledger.mark
  rw [Set.insert_eq_of_mem member]

/-- The history gets a key that no other record bears. -/
theorem guards_ensureHistoryIndex
    {job : Job}
    (here : At kept start ledger)
    (own : ∀ id other, ledger.record id = some other →
      jobIdFromHistoryKey (Ledger.keyOf job) = some id →
        Ledger.keyOf job = Ledger.keyOf other) :
    Guards Healthy (Holds kept) (ensureHistoryIndex job).run
      (fun outcome final => outcome = .ok () ∧
        At kept final (ledger.list (Ledger.keyOf job))) start := by
  unfold ensureHistoryIndex
  apply Guards.exceptBind
  refine (guards_createMarker here (fun file =>
    ⟨here.shows.list, here.sound.list own, here.keeps⟩) ?_).mono ?_
  · intro there
    have member := (here.shows.history _).mp there
    exact Ledger.list_of_mem member
  · rintro outcome middle holds ⟨rfl, listed⟩
    apply guards_orFail
    exact guards_syncDirectory holds ⟨(), rfl, rfl, listed⟩

/-- What `set_active_marker` makes of the markers. -/
def Ledger.remark (ledger : Ledger) (job : Job) : Ledger :=
  if job.state.isActive then ledger.mark job.id else ledger.unmark job.id

theorem guards_setActiveMarker
    {job : Job}
    (here : At kept start ledger)
    (ceased : job.state.isActive = false →
      ∀ other, ledger.record job.id = some other →
        other.state.isActive = false) :
    Guards Healthy (Holds kept) (setActiveMarker job).run
      (fun outcome final => outcome = .ok () ∧
        At kept final (ledger.remark job)) start := by
  unfold setActiveMarker Ledger.remark
  cases active : job.state.isActive with
  | true =>
      simp only [if_true]
      apply Guards.exceptBind
      refine (guards_createMarker here (fun file =>
        ⟨here.shows.mark, here.sound.mark, here.keeps⟩) ?_).mono ?_
      · intro there
        have member := (here.shows.active _).mp there
        exact Ledger.mark_of_mem member
      · rintro outcome middle holds ⟨rfl, marked⟩
        apply guards_orFail
        exact guards_syncDirectory holds ⟨(), rfl, rfl, marked⟩
  | false =>
      simp only [Bool.false_eq_true, if_false]
      have gone : ledger.active = ledger.active \ {job.id} →
          ledger.unmark job.id = ledger := by
        intro same
        unfold Ledger.unmark
        rw [← same]
      apply guards_always_bind
      apply guards_perform here.holds
      intro reply after effect
      rcases effect with same | ⟨fault, _⟩
      swap
      · exact fault.elim
      rw [Storage.respond] at same
      split at same <;> cases same
      · next there =>
          have unmarked : At kept (start.erase (.active job.id))
              (ledger.unmark job.id) :=
            ⟨here.shows.unmark, here.sound.unmark (ceased active),
              here.keeps⟩
          refine ⟨unmarked.holds, ?_⟩
          apply guards_orFail
          exact guards_syncDirectory unmarked.holds ⟨(), rfl, rfl, unmarked⟩
      · next absent =>
          refine ⟨here.holds, ?_⟩
          apply guards_orFail
          refine guards_syncDirectory here.holds ⟨(), rfl, rfl, ?_⟩
          rw [gone]
          · exact here
          · rw [Set.sdiff_singleton_eq_self]
            exact fun member => absent ((here.shows.active _).mpr member)

theorem effect_read
    {start after : JobFiles}
    {path : Path}
    {reply : Except Storage.ErrorKind (Option Content)}
    (effect : Healthy (.file (.read path)) start reply after) :
    after = start ∧ reply = match start.lookup path with
      | some file => .ok file.content
      | none => .error .notFound := by
  rcases effect with same | ⟨fault, _⟩
  · rw [Storage.respond] at same
    split at same <;> cases same
    · next file present => exact ⟨rfl, by rw [present]⟩
    · next absent => exact ⟨rfl, by rw [absent]⟩
  · exact fault.elim

/-- A new entry appears whole under its hash. -/
theorem guards_writeNewJson
    {hash : String}
    {entry : IdempotencyEntry}
    (here : At kept start ledger)
    (digits : isDigest hash = true)
    (valid : isJobId entry.jobId = true)
    (free : ledger.entry hash = none)
    (unwritten : ledger.record entry.jobId = none) :
    Guards Healthy (Holds kept) (writeNewJson hash entry).run
      (fun outcome final => outcome = .ok () ∧
        At kept final (ledger.index hash entry)) start := by
  unfold writeNewJson
  apply guards_always_bind
  apply guards_unixTimestamp here.holds
  intro now _
  apply guards_always_bind
  apply guards_newJobId here.holds
  intro nonce _ unused
  have aside : ¬(Path.entryTemporary hash nonce).Vital := id
  have absent : Path.entryTemporary hash nonce ∉ start := by
    intro there
    obtain ⟨file, present⟩ := Finmap.mem_iff.mp there
    exact (unused _ file present).1 rfl
  dsimp only
  have created := here.insert .fresh aside
  apply guards_orFail_bind
  apply guards_perform here.holds
  intro reply after effect
  rcases effect_createNew id effect with ⟨there, _⟩ | ⟨_, rfl, rfl⟩
  · exact absurd there absent
  refine ⟨created.holds, (), rfl, ?_⟩
  have written := here.insert ⟨some (.entry entry), false⟩ aside
  apply guards_orFail_bind
  apply guards_perform created.holds
  intro reply after effect
  rcases effect_write effect (Finmap.lookup_insert _) with
    ⟨rfl, rfl⟩ | ⟨fault, _⟩
  swap
  · exact fault.elim
  rw [Finmap.insert_insert]
  refine ⟨written.holds, (), rfl, ?_⟩
  have synced := here.insert ⟨some (.entry entry), true⟩ aside
  apply guards_orFail_bind
  apply guards_perform written.holds
  intro reply after effect
  rcases effect_sync effect (Finmap.lookup_insert _) with
    ⟨rfl, rfl⟩ | ⟨fault, _⟩
  swap
  · exact fault.elim
  rw [Finmap.insert_insert]
  refine ⟨synced.holds, (), rfl, ?_⟩
  have linked : At kept
      ((start.insert (.entryTemporary hash nonce)
        ⟨some (.entry entry), true⟩).insert (.idempotency hash)
          ⟨some (.entry entry), true⟩) (ledger.index hash entry) :=
    ⟨synced.shows.index, here.sound.index digits valid free unwritten,
      here.keeps⟩
  have vacant : Path.idempotency hash ∉
      start.insert (.entryTemporary hash nonce)
        (⟨some (.entry entry), true⟩ : Storage.File Content) := by
    rw [← Finmap.lookup_eq_none, synced.shows.entry, free]
    rfl
  apply guards_always_bind
  apply guards_perform synced.holds
  intro reply after effect
  rcases effect with same | ⟨fault, _⟩
  swap
  · exact fault.elim
  rw [Storage.respond, Finmap.lookup_insert] at same
  dsimp only at same
  rw [if_neg vacant] at same
  cases same
  refine ⟨linked.holds, ?_⟩
  have cleared := linked.erase aside
  apply guards_orFail_bind
  apply guards_perform linked.holds
  intro reply after effect
  obtain ⟨rfl, rfl⟩ := effect_remove id
    (Finmap.mem_insert.mpr (Or.inr (Finmap.mem_insert.mpr (Or.inl rfl))))
    effect
  refine ⟨cleared.holds, (), rfl, ?_⟩
  apply guards_orFail
  exact guards_syncDirectory cleared.holds ⟨(), rfl, rfl, cleared⟩

/-- A job whose key the index knows already, or that has none. -/
def Ledger.Indexed (ledger : Ledger) (job : Job) : Prop :=
  ∀ hash, job.idempotencyHash = some hash →
    ∃ requestHash, job.idempotencyRequestHash = some requestHash ∧
      isDigest hash = true ∧
        ledger.entry hash = some ⟨job.id, requestHash⟩

theorem guards_ensureIdempotencyIndex
    {job : Job}
    (here : At kept start ledger)
    (indexed : ledger.Indexed job) :
    Guards Healthy (Holds kept) (ensureIdempotencyIndex job).run
      (fun outcome final => outcome = .ok () ∧ At kept final ledger)
      start := by
  unfold ensureIdempotencyIndex
  split
  · next hash requestHash keyed requested =>
      obtain ⟨found, same, digits, entry⟩ := indexed hash keyed
      cases requested.symm.trans same
      have present : start.lookup (.idempotency hash) =
          some ⟨some (.entry ⟨job.id, requestHash⟩), true⟩ := by
        rw [here.shows.entry, entry]
        rfl
      rw [validateDigest, if_pos digits]
      apply guards_check_bind
      apply guards_always_bind
      apply guards_perform here.holds
      intro reply after effect
      obtain ⟨rfl, there⟩ := effect_isFile id effect
      have known : reply = true :=
        there.mpr (Finmap.mem_iff.mpr ⟨_, present⟩)
      refine ⟨here.holds, ?_⟩
      rw [if_pos known]
      apply guards_orFail_bind
      apply guards_perform here.holds
      intro reply after effect
      obtain ⟨rfl, rfl⟩ := effect_read effect
      rw [present]
      refine ⟨here.holds, _, rfl, ?_⟩
      rw [decodeEntry]
      apply guards_check_bind
      rw [if_neg (by simp), if_neg (by simp)]
      exact ⟨here.holds, rfl, here⟩
  · exact ⟨here.holds, rfl, here⟩

/-- The entry of a new job; nobody has its key. -/
theorem guards_ensureIdempotencyIndex_new
    {job : Job}
    {hash requestHash : String}
    (here : At kept start ledger)
    (keyed : job.idempotencyHash = some hash)
    (requested : job.idempotencyRequestHash = some requestHash)
    (digits : isDigest hash = true)
    (valid : isJobId job.id = true)
    (free : ledger.entry hash = none)
    (unwritten : ledger.record job.id = none) :
    Guards Healthy (Holds kept) (ensureIdempotencyIndex job).run
      (fun outcome final => outcome = .ok () ∧
        At kept final (ledger.index hash ⟨job.id, requestHash⟩))
      start := by
  unfold ensureIdempotencyIndex
  rw [keyed, requested]
  dsimp only
  rw [validateDigest, if_pos digits]
  apply guards_check_bind
  apply guards_always_bind
  apply guards_perform here.holds
  intro reply after effect
  obtain ⟨rfl, there⟩ := effect_isFile id effect
  have unknown : ¬reply = true := by
    rw [there, ← Finmap.lookup_isSome, here.shows.entry, free]
    simp
  refine ⟨here.holds, ?_⟩
  rw [if_neg unknown]
  exact guards_writeNewJson here digits valid free unwritten

end indexes

section records

variable {kept : Records → Prop} {ledger : Ledger} {start : JobFiles}

/-- The records of a ledger are on disk, each under its id and in the
history. -/
structure Ledger.Filed (ledger : Ledger) (files : JobFiles) : Prop where
  record : ∀ id, (files.lookup (.record id)).map Storage.File.content =
    (ledger.record id).map fun job => some (.job job)
  history : ∀ key, .history key ∈ files ↔ key ∈ ledger.history
  named : ∀ id job, ledger.record id = some job → job.id = id
  valid : ∀ id job, ledger.record id = some job → isJobId job.id = true
  dated : ∀ id job, ledger.record id = some job → job.createdAt < 2 ^ 64
  listed : ∀ id job, ledger.record id = some job →
    Ledger.keyOf job ∈ ledger.history
  alone : ∀ id job, ledger.record id = some job → ∀ key ∈ ledger.history,
    jobIdFromHistoryKey key = some job.id → key = Ledger.keyOf job

theorem At.filed (here : At kept start ledger) : ledger.Filed start where
  record id := by
    rw [here.shows.record, Option.map_map]
    rfl
  history := here.shows.history
  named := here.sound.named
  valid id job found := (here.sound.ready id job found).valid
  dated id job found := (here.sound.ready id job found).dated
  listed id job found := (here.sound.ready id job found).listed
  alone id job found := (here.sound.ready id job found).alone

theorem Ledger.Filed.mem_iff
    (filed : ledger.Filed start)
    (id : String) :
    .record id ∈ start ↔ ledger.record id ≠ none := by
  rw [← Finmap.lookup_isSome, ← Option.isSome_iff_ne_none,
    ← Option.isSome_map (f := Storage.File.content), filed.record,
    Option.isSome_map]

/-- Reading a record that is filed or is not. -/
theorem guards_readFiled
    {invariant : JobFiles → Prop}
    {id : String}
    (filed : ledger.Filed start)
    (holds : invariant start)
    (valid : isJobId id = true) :
    Guards Healthy invariant (readJob id).run
      (fun outcome final => final = start ∧
        outcome = match ledger.record id with
          | some job => .ok job
          | none => .error (.io .notFound)) start := by
  unfold readJob
  rw [validateJobId, if_pos valid]
  apply guards_check_bind
  apply Guards.exceptBind
  apply Guards.bind
  apply guards_perform holds
  intro reply after effect
  obtain ⟨rfl, rfl⟩ := effect_read effect
  refine ⟨holds, holds, ?_⟩
  have record := filed.record id
  cases found : ledger.record id with
  | none =>
      rw [found, Option.map_none, Option.map_eq_none_iff] at record
      rw [record]
      exact ⟨rfl, rfl⟩
  | some job =>
      rw [found, Option.map_some, Option.map_eq_some_iff] at record
      obtain ⟨file, present, content⟩ := record
      rw [present]
      simp only [content]
      change Guards _ _ (ExceptT.run (if job.id = id then _ else _)) _ _
      rw [if_pos (filed.named id job found)]
      exact ⟨holds, rfl, rfl⟩

/-- Reading a record that the ledger has or has not. -/
theorem guards_readJob
    {id : String}
    (here : At kept start ledger)
    (valid : isJobId id = true) :
    Guards Healthy (Holds kept) (readJob id).run
      (fun outcome final => final = start ∧
        outcome = match ledger.record id with
          | some job => .ok job
          | none => .error (.io .notFound)) start :=
  guards_readFiled here.filed here.holds valid

/-- A record that may be written is written. -/
theorem guards_persistRecord
    {job : Job}
    (here : At kept start ledger)
    (sound : (ledger.put job).Sound)
    (keeps : kept (ledger.put job).record) :
    Guards Healthy (Holds kept) (persistRecord job).run
      (fun outcome final => outcome = .ok () ∧
        At kept final (ledger.put job)) start := by
  unfold persistRecord
  apply guards_always_bind
  apply guards_unixTimestamp here.holds
  intro now _
  apply guards_always_bind
  apply guards_newJobId here.holds
  intro nonce _ _
  have aside : ¬(Path.temporary job.id nonce).Vital := id
  dsimp only
  have created := here.insert .fresh aside
  apply guards_orFail_bind
  apply guards_perform here.holds
  intro reply after effect
  rcases effect_create effect with ⟨rfl, rfl⟩ | ⟨fault, _⟩
  swap
  · exact fault.elim
  refine ⟨created.holds, (), rfl, ?_⟩
  have written := here.insert ⟨some (.job job), false⟩ aside
  apply guards_orFail_bind
  apply guards_perform created.holds
  intro reply after effect
  rcases effect_write effect (Finmap.lookup_insert _) with
    ⟨rfl, rfl⟩ | ⟨fault, _⟩
  swap
  · exact fault.elim
  rw [Finmap.insert_insert]
  refine ⟨written.holds, (), rfl, ?_⟩
  have synced := here.insert ⟨some (.job job), true⟩ aside
  apply guards_orFail_bind
  apply guards_perform written.holds
  intro reply after effect
  rcases effect_sync effect (Finmap.lookup_insert _) with
    ⟨rfl, rfl⟩ | ⟨fault, _⟩
  swap
  · exact fault.elim
  rw [Finmap.insert_insert]
  refine ⟨synced.holds, (), rfl, ?_⟩
  apply guards_orFail_bind
  apply guards_perform synced.holds
  intro reply after effect
  rcases effect_rename effect (Finmap.lookup_insert _) with
    ⟨rfl, rfl⟩ | ⟨fault, _⟩
  swap
  · exact fault.elim
  have renamed := synced.erase aside
  have put : At kept _ (ledger.put job) :=
    ⟨renamed.shows.put, sound, keeps⟩
  refine ⟨put.holds, (), rfl, ?_⟩
  apply guards_orFail
  exact guards_syncDirectory put.holds ⟨(), rfl, rfl, put⟩

/-- A record that stands is in the indexes; only its marker may go. -/
theorem guards_indexes
    {job : Job}
    (here : At kept start ledger)
    (present : ledger.record job.id = some job) :
    Guards Healthy (Holds kept) (ensureHistoryIndex job).run
        (fun outcome final => outcome = .ok () ∧ At kept final ledger)
        start ∧
      Guards Healthy (Holds kept) (ensureIdempotencyIndex job).run
        (fun outcome final => outcome = .ok () ∧ At kept final ledger)
        start ∧
      Guards Healthy (Holds kept) (setActiveMarker job).run
        (fun outcome final => outcome = .ok () ∧
          At kept final (ledger.remark job)) start := by
  have ready := here.sound.ready job.id job present
  refine ⟨?_, ?_, ?_⟩
  · refine (guards_ensureHistoryIndex here ?_).mono ?_
    · intro id other found decoded
      have same := here.sound.named id other found
      exact (here.sound.ready id other found).alone _ ready.listed
        (same ▸ decoded)
    · rintro outcome final _ ⟨rfl, listed⟩
      rw [Ledger.list_of_mem ready.listed] at listed
      exact ⟨rfl, listed⟩
  · exact guards_ensureIdempotencyIndex here ready.indexed
  · apply guards_setActiveMarker here
    intro ceased other found
    cases present.symm.trans found
    exact ceased

theorem guards_updateIndexes
    {job : Job}
    (here : At kept start ledger)
    (present : ledger.record job.id = some job) :
    Guards Healthy (Holds kept) (updateIndexes job)
      (fun _ final => At kept final (ledger.remark job)) start := by
  unfold updateIndexes
  apply Guards.bind
  apply (guards_indexes here present).1.mono
  rintro _ middle _ ⟨rfl, first⟩
  apply Guards.bind
  apply (guards_indexes first present).2.1.mono
  rintro _ later _ ⟨rfl, second⟩
  apply Guards.bind
  apply (guards_indexes second present).2.2.mono
  rintro _ final holds ⟨rfl, third⟩
  exact ⟨holds, third⟩

/-- What `persist` leaves of a ledger. -/
def Ledger.settle (ledger : Ledger) (job : Job) : Ledger :=
  (ledger.put job).remark job

theorem guards_persist
    {job : Job}
    (here : At kept start ledger)
    (sound : (ledger.put job).Sound)
    (keeps : kept (ledger.put job).record) :
    Guards Healthy (Holds kept) (persist job).run
      (fun outcome final => outcome = .ok () ∧
        At kept final (ledger.settle job)) start := by
  unfold persist
  apply Guards.exceptBind
  apply (guards_persistRecord here sound keeps).mono
  rintro _ middle _ ⟨rfl, put⟩
  dsimp only
  rw [run_always]
  apply Guards.bind
  apply (guards_updateIndexes put (Ledger.record_put_self ..)).mono
  intro _ final holds settled
  exact ⟨holds, rfl, settled⟩

end records

/-! ## New jobs -/

/-- The entry of a job with a key. -/
def Ledger.indexJob (ledger : Ledger) (job : Job) : Ledger :=
  match job.idempotencyHash, job.idempotencyRequestHash with
  | some hash, some requestHash => ledger.index hash ⟨job.id, requestHash⟩
  | _, _ => ledger

/-- What `persist_new` leaves of a ledger. -/
def Ledger.enrol (ledger : Ledger) (job : Job) : Ledger :=
  (((ledger.list (keyOf job)).indexJob job).mark job.id).put job

/-- A job that `submit` may write under its id. -/
structure Ledger.Admissible (ledger : Ledger) (job : Job) : Prop where
  queued : job.state = .queued
  valid : isJobId job.id = true
  dated : job.createdAt < 2 ^ 64
  free : ledger.record job.id = none
  alone : ∀ key ∈ ledger.history, jobIdFromHistoryKey key ≠ some job.id
  unnamed : ∀ hash entry, ledger.entry hash = some entry →
    entry.jobId ≠ job.id
  paired : job.idempotencyHash.isSome = job.idempotencyRequestHash.isSome
  keyed : ∀ hash, job.idempotencyHash = some hash →
    isDigest hash = true ∧ ledger.entry hash = none
  apart : ∀ id other, ledger.record id = some other →
    other.state.isActive = true → other.subject ≠ job.subject

section admission

variable {kept : Records → Prop} {ledger : Ledger} {start : JobFiles}
  {job : Job}

@[simp] theorem Ledger.record_indexJob :
    (ledger.indexJob job).record = ledger.record := by
  unfold Ledger.indexJob
  split <;> rfl

@[simp] theorem Ledger.history_indexJob :
    (ledger.indexJob job).history = ledger.history := by
  unfold Ledger.indexJob
  split <;> rfl

theorem Ledger.record_enrol_of_ne
    {id : String}
    (different : id ≠ job.id) :
    (ledger.enrol job).record id = ledger.record id := by
  unfold Ledger.enrol
  rw [Ledger.record_put_of_ne different]
  change (Ledger.indexJob _ job).record id = _
  rw [Ledger.record_indexJob]
  rfl

@[simp] theorem Ledger.record_enrol_self :
    (ledger.enrol job).record job.id = some job :=
  Ledger.record_put_self ..

/-- The indexes of a new job make its record ready. -/
theorem Ledger.Admissible.ready
    (admissible : ledger.Admissible job) :
    (((ledger.list (keyOf job)).indexJob job).mark job.id).Ready job := by
  refine ⟨admissible.valid, admissible.dated, ?_, ?_, ?_, ?_, ?_⟩
  · change _ ∈ (Ledger.indexJob _ job).history
    rw [Ledger.history_indexJob]
    exact Set.mem_insert ..
  · intro _
    exact Set.mem_insert ..
  · intro hash keyed
    obtain ⟨digits, _⟩ := admissible.keyed hash keyed
    obtain ⟨requestHash, requested⟩ :
        ∃ requestHash, job.idempotencyRequestHash = some requestHash := by
      rw [← Option.isSome_iff_exists, ← admissible.paired, keyed]
      rfl
    refine ⟨requestHash, requested, digits, ?_⟩
    change (Ledger.indexJob _ job).entry hash = _
    unfold Ledger.indexJob
    rw [keyed, requested]
    exact Ledger.entry_index_self ..
  · intro key member decoded
    change _ ∈ (Ledger.indexJob _ job).history at member
    rw [Ledger.history_indexJob] at member
    rcases member with rfl | member
    · rfl
    · exact absurd decoded (admissible.alone key member)
  · intro hash entry written same
    change (Ledger.indexJob _ job).entry hash = some entry at written
    unfold Ledger.indexJob at written
    split at written
    · next own requestHash keyed requested =>
        by_cases equal : hash = own
        · rw [equal, Ledger.entry_index_self] at written
          cases written
          rw [equal]
          exact ⟨keyed, requested⟩
        · rw [Ledger.entry_index_of_ne equal] at written
          exact absurd same (admissible.unnamed hash entry written)
    · exact absurd same (admissible.unnamed hash entry written)

theorem Ledger.Admissible.continues
    {fresh : Job → Prop}
    {origin : Records}
    (admissible : ledger.Admissible job)
    (new : fresh job)
    (continues : Continues fresh origin ledger.record) :
    Continues fresh origin (ledger.enrol job).record := by
  constructor
  · intro id old present
    obtain ⟨next, found, same⟩ := continues.kept id old present
    have different : id ≠ job.id := by
      rintro rfl
      cases admissible.free.symm.trans found
    exact ⟨next, (Ledger.record_enrol_of_ne different).trans found, same⟩
  · intro id other present
    by_cases equal : id = job.id
    · rw [equal, Ledger.record_enrol_self] at present
      cases present
      exact Or.inr ⟨job, new, rfl⟩
    · rw [Ledger.record_enrol_of_ne equal] at present
      exact continues.since id other present

theorem guards_indexJob
    (here : At kept start ledger)
    (valid : isJobId job.id = true)
    (paired : job.idempotencyHash.isSome = job.idempotencyRequestHash.isSome)
    (keyed : ∀ hash, job.idempotencyHash = some hash →
      isDigest hash = true ∧ ledger.entry hash = none)
    (unwritten : ledger.record job.id = none) :
    Guards Healthy (Holds kept) (ensureIdempotencyIndex job).run
      (fun outcome final => outcome = .ok () ∧
        At kept final (ledger.indexJob job)) start := by
  unfold Ledger.indexJob
  cases key : job.idempotencyHash with
  | none =>
      refine guards_ensureIdempotencyIndex here ?_
      intro hash found
      rw [key] at found
      cases found
  | some hash =>
      cases request : job.idempotencyRequestHash with
      | none =>
          rw [key, request] at paired
          cases paired
      | some requestHash =>
          obtain ⟨digits, free⟩ := keyed hash key
          exact guards_ensureIdempotencyIndex_new here key request digits
            valid free unwritten

theorem guards_persistReserved
    (here : At kept start ledger)
    (admissible : ledger.Admissible job)
    (keeps : kept (ledger.enrol job).record)
    (reserved : .reservation job.id ∈ start) :
    Guards Healthy (Holds kept) (persistReserved job).run
      (fun outcome final => outcome = .ok true ∧
        At kept final (ledger.enrol job)) start := by
  obtain ⟨historyOnly, entryOnly, markerOnly⟩ := only_indexes job
  -- nothing but the call itself removes the reservation
  have stays : ∀ {program : Program interface (Except ArchiveError Unit)}
      {before after : JobFiles} {outcome : Except ArchiveError Unit},
      Only (Within (PersistPath job)) program →
      .reservation job.id ∈ before →
      program.Runs Healthy before outcome after →
      .reservation job.id ∈ after := by
    intro program before after outcome only held run
    refine (mem_congr (lookup_of_only only ?_ run)).mpr held
    rintro (_ | _ | ⟨_, inside⟩)
    exact inside.not_reservation
  have index : ∀ {program : Program interface (Except ArchiveError Unit)},
      Only (Within (IndexPath job)) program →
      Only (Within (PersistPath job)) program :=
    fun only => only.mono (within_mono PersistPath.index)
  unfold persistReserved
  apply Guards.exceptBind
  apply (guards_ensureHistoryIndex here ?_).reached.mono
  swap
  · intro id other found decoded
    rw [Ledger.keyOf, jobId_of_historyKey admissible.dated admissible.valid]
      at decoded
    cases decoded
    cases admissible.free.symm.trans found
  rintro _ _ _ ⟨⟨rfl, listed⟩, firstRun⟩
  have first := stays (index historyOnly) reserved firstRun
  apply Guards.exceptBind
  apply (guards_indexJob listed admissible.valid admissible.paired
    admissible.keyed admissible.free).reached.mono
  rintro _ _ _ ⟨⟨rfl, indexed⟩, secondRun⟩
  have second := stays (index entryOnly) first secondRun
  apply Guards.exceptBind
  apply (guards_setActiveMarker indexed ?_).reached.mono
  swap
  · intro ceased
    rw [admissible.queued] at ceased
    cases ceased
  rintro _ _ _ ⟨⟨rfl, marked⟩, thirdRun⟩
  have third := stays (index markerOnly) second thirdRun
  have active : job.state.isActive = true := by
    rw [admissible.queued]
    rfl
  unfold Ledger.remark at marked
  rw [if_pos active] at marked
  apply guards_always_bind
  apply (guards_persist marked (marked.sound.put_new admissible.ready ?_ ?_)
    keeps).reached.mono
  rotate_left
  · change (Ledger.indexJob _ job).record job.id = none
    rw [Ledger.record_indexJob]
    exact admissible.free
  · intro id other found
    change (Ledger.indexJob _ job).record id = some other at found
    rw [Ledger.record_indexJob] at found
    exact admissible.apart id other found
  rintro _ _ _ ⟨⟨rfl, settled⟩, fourthRun⟩
  have fourth := stays (only_persist job) third fourthRun
  have same : (ledger.enrol job).remark job = ledger.enrol job := by
    unfold Ledger.remark
    rw [if_pos active]
    exact Ledger.mark_of_mem (Set.mem_insert ..)
  change At kept _ ((ledger.enrol job).remark job) at settled
  rw [same] at settled
  apply guards_always_bind
  apply guards_perform settled.holds
  intro reply after effect
  obtain ⟨rfl, rfl⟩ := effect_remove id fourth effect
  have aside : ¬(Path.reservation job.id).Vital := id
  have cleared := settled.erase aside
  refine ⟨cleared.holds, ?_⟩
  apply guards_orFail_bind
  apply guards_syncDirectory cleared.holds
  exact ⟨(), rfl, cleared.holds, rfl, cleared⟩

/-- `persist_new` writes a job under an id that was drawn for it. -/
theorem guards_persistNew
    (here : At kept start ledger)
    (admissible : ledger.Admissible job)
    (keeps : kept (ledger.enrol job).record)
    (unused : Unused start job.id) :
    Guards Healthy (Holds kept) (persistNew job).run
      (fun outcome final => outcome = .ok true ∧
        At kept final (ledger.enrol job)) start := by
  have aside : ¬(Path.reservation job.id).Vital := id
  have absent : Path.reservation job.id ∉ start := by
    intro there
    obtain ⟨file, present⟩ := Finmap.mem_iff.mp there
    exact (unused _ file present).1 rfl
  unfold persistNew
  apply guards_always_bind
  apply guards_perform here.holds
  intro reply after effect
  rcases effect_createNew id effect with ⟨there, _⟩ | ⟨_, rfl, rfl⟩
  · exact absurd there absent
  have created := here.insert .fresh aside
  refine ⟨created.holds, ?_⟩
  dsimp only
  apply guards_orFail_bind
  apply guards_perform created.holds
  intro reply after effect
  rcases effect_sync effect (Finmap.lookup_insert _) with
    ⟨rfl, rfl⟩ | ⟨fault, _⟩
  swap
  · exact fault.elim
  rw [Finmap.insert_insert]
  have synced := here.insert ⟨none, true⟩ aside
  refine ⟨synced.holds, (), rfl, ?_⟩
  apply guards_always_bind
  apply guards_perform synced.holds
  intro reply after effect
  obtain ⟨rfl, there⟩ := effect_isFile id effect
  have missing : ¬reply = true := by
    rw [there, ← Finmap.lookup_isSome, synced.shows.record, admissible.free]
    simp
  refine ⟨synced.holds, ?_⟩
  rw [if_neg missing]
  exact guards_persistReserved synced admissible keeps
    (Finmap.mem_insert.mpr (Or.inl rfl))

end admission

end Jobs
end ModelKeep
