import ModelKeep.Jobs.Calls

/-!
# What the calls do to the records

Only the rename of `persist` changes a record.  Everything else a call does,
and whatever of it fails, is about temporary files and indexes.
-/

namespace ModelKeep
namespace Jobs

open Concurrency Program

/-- The record of a job that a reader finds. -/
def durable (files : JobFiles) (id : String) : Option Job :=
  match files.lookup (.record id) with
  | some ⟨some (.job job), _⟩ => some job
  | _ => none

theorem durable_congr
    {before after : JobFiles}
    {id : String}
    (same : after.lookup (.record id) = before.lookup (.record id)) :
    durable after id = durable before id := by
  unfold durable
  rw [same]

/-! ## Footprints -/

/-- The operation changes files of these paths only. -/
def Within (places : Path → Prop) : Op → Prop
  | .file op => ∀ place, Storage.Touches op place → places place
  | _ => True

theorem within_mono
    {places wider : Path → Prop}
    (implies : ∀ place, places place → wider place)
    (op : Op)
    (within : Within places op) :
    Within wider op := by
  cases op with
  | file op => exact fun place touched => implies place (within place touched)
  | _ => trivial

theorem lookup_of_within
    {faulty : FileOp → Prop}
    {draws : JobFiles → String → Prop}
    {places : Path → Prop}
    {place : Path}
    {op : Op}
    {before after : JobFiles}
    {reply : op.Reply}
    (within : Within places op)
    (apart : ¬places place)
    (effect : Effect faulty draws op before reply after) :
    after.lookup place = before.lookup place := by
  cases op with
  | file op =>
      exact Storage.lookup_of_not_touches effect
        fun touched => apart (within place touched)
  | unixTimestamp => rw [effect.2]
  | newJobId now => rw [effect.2.2]

/-- The two have the same file at this place, or none. -/
def SameAt (place : Path) (before after : JobFiles) : Prop :=
  after.lookup place = before.lookup place

/-- A call leaves every other file as it was. -/
theorem lookup_of_only
    {faulty : FileOp → Prop}
    {draws : JobFiles → String → Prop}
    {places : Path → Prop}
    {place : Path}
    {α : Type}
    {program : Program interface α}
    {before after : JobFiles}
    {result : α}
    (only : Only (Within places) program)
    (apart : ¬places place)
    (run : program.Runs (Effect faulty draws) before result after) :
    after.lookup place = before.lookup place := by
  have kept : SameAt place before after := by
    refine only.keeps ?_ run rfl
    intro op first reply second within effect same
    exact (lookup_of_within within apart effect).trans same
  exact kept

/-- A call that touches no file. -/
theorem lookup_of_untouched
    {faulty : FileOp → Prop}
    {draws : JobFiles → String → Prop}
    {place : Path}
    {α : Type}
    {program : Program interface α}
    {before after : JobFiles}
    {result : α}
    (only : Only (Within fun _ => False) program)
    (run : program.Runs (Effect faulty draws) before result after) :
    after.lookup place = before.lookup place :=
  lookup_of_only only not_false run

section only

variable {places : Path → Prop}

theorem only_check
    {ε α : Type}
    (outcome : Except ε α) :
    Only (Within places) (check outcome : ExceptT ε (Program interface) α).run :=
  trivial

theorem only_perform
    {op : FileOp}
    (fits : ∀ place, Storage.Touches op place → places place) :
    Only (Within places) (perform op) := ⟨fits, fun _ => trivial⟩

theorem only_orFail
    {α : Type}
    {step : Program interface (Except Storage.ErrorKind α)}
    (only : Only (Within places) step) :
    Only (Within places) (orFail step).run :=
  only.bind fun _ => trivial

theorem only_always
    {ε α : Type}
    {program : Program interface α}
    (only : Only (Within places) program) :
    Only (Within places)
      (always program : ExceptT ε (Program interface) α).run :=
  only.bind fun _ => trivial

theorem only_unixTimestamp :
    Only (Within places) unixTimestamp := ⟨trivial, fun _ => trivial⟩

theorem only_newJobId (now : Nat) :
    Only (Within places) (newJobId now) := ⟨trivial, fun _ => trivial⟩

end only

theorem only_createMarker (path : Path) :
    Only (Within (· = path)) (createMarker path).run := by
  unfold createMarker
  repeat' first
    | exact trivial
    | refine Only.exceptBind ?_ fun _ => ?_
    | refine only_always ?_
    | refine only_orFail ?_
    | exact only_perform (by simp [Storage.Touches])
    | split

theorem only_ensureHistoryIndex (job : Job) :
    Only (Within (· = .history (historyKey job.createdAt job.id)))
      (ensureHistoryIndex job).run :=
  Only.exceptBind (only_createMarker _) fun _ =>
    only_orFail (only_perform fun _ touched => touched.elim)

theorem only_setActiveMarker (job : Job) :
    Only (Within (· = .active job.id)) (setActiveMarker job).run := by
  unfold setActiveMarker
  repeat' first
    | exact trivial
    | exact only_createMarker _
    | refine Only.exceptBind ?_ fun _ => ?_
    | refine only_always ?_
    | refine only_orFail ?_
    | exact only_perform (by simp [Storage.Touches])
    | split

/-- The files of one entry of the idempotency index. -/
inductive EntryPath (hash : String) : Path → Prop
  | entry : EntryPath hash (.idempotency hash)
  | temporary (nonce : String) : EntryPath hash (.entryTemporary hash nonce)

theorem only_writeNewJson (hash : String) (entry : IdempotencyEntry) :
    Only (Within (EntryPath hash)) (writeNewJson hash entry).run := by
  unfold writeNewJson
  repeat' first
    | exact trivial
    | refine Only.exceptBind ?_ fun _ => ?_
    | refine only_always ?_
    | refine only_orFail ?_
    | exact only_unixTimestamp
    | exact only_newJobId _
    | exact only_perform (by
        simp only [Storage.Touches, forall_eq, false_imp_iff, implies_true]
        try constructor)
    | split

theorem only_ensureIdempotencyIndex (job : Job) :
    Only (Within fun place => ∃ hash, job.idempotencyHash = some hash ∧
        EntryPath hash place)
      (ensureIdempotencyIndex job).run := by
  unfold ensureIdempotencyIndex
  split
  · next hash requestHash present _ =>
      refine Only.mono
        (show Only (Within (EntryPath hash)) _ from ?_) (within_mono ?_)
      · repeat' first
          | exact trivial
          | exact only_check _
          | exact only_writeNewJson _ _
          | refine Only.exceptBind ?_ fun _ => ?_
          | refine only_always ?_
          | refine only_orFail ?_
          | exact only_perform (by
              simp only [Storage.Touches, forall_eq, false_imp_iff,
                implies_true]
              try constructor)
          | split
      · intro place inside
        exact ⟨hash, present, inside⟩
  · exact trivial

/-! ## One record -/

section steps

variable {faulty : FileOp → Prop} {draws : JobFiles → String → Prop}
  {before after : JobFiles}

theorem runs_perform
    {op : FileOp}
    {reply : op.Reply} :
    (perform op).Runs (Effect faulty draws) before reply after ↔
      Effect faulty draws (.file op) before reply after := by
  change (Program.perform (I := interface) (Op.file op)).Runs _ _ _ _ ↔ _
  exact Program.runs_perform

theorem runs_unixTimestamp
    {now : Nat} :
    unixTimestamp.Runs (Effect faulty draws) before now after ↔
      now < 2 ^ 64 ∧ after = before := by
  constructor
  · rintro ⟨reply, middle, clock, rfl, rfl⟩
    exact clock
  · intro clock
    exact ⟨now, after, clock, rfl, rfl⟩

theorem returns_orFail
    {α : Type}
    {step : Program interface (Except Storage.ErrorKind α)}
    {outcome : Except ArchiveError α} :
    Returns (Effect faulty draws) (orFail step) before outcome after ↔
      ∃ reply, step.Runs (Effect faulty draws) before reply after ∧
        outcome = reply.mapError ioError := by
  change Runs _ (step >>= _) _ _ _ ↔ _
  rw [runs_bind]
  constructor
  · rintro ⟨reply, middle, run, rfl, rfl⟩
    exact ⟨reply, run, rfl⟩
  · rintro ⟨reply, run, rfl⟩
    exact ⟨reply, after, run, rfl, rfl⟩

/-- A step that goes on or ends the call with its error. -/
theorem returns_orFail_bind
    {α β : Type}
    {step : Program interface (Except Storage.ErrorKind α)}
    {rest : α → Action β}
    {outcome : Except ArchiveError β} :
    Returns (Effect faulty draws) (orFail step >>= rest) before outcome
        after ↔
      (∃ kind, outcome = .error (ioError kind) ∧
        step.Runs (Effect faulty draws) before (.error kind) after) ∨
      ∃ value middle,
        step.Runs (Effect faulty draws) before (.ok value) middle ∧
          Returns (Effect faulty draws) (rest value) middle outcome
            after := by
  rw [returns_bind]
  simp only [returns_orFail]
  constructor
  · rintro (⟨error, rfl, reply, run, same⟩ |
      ⟨value, middle, ⟨reply, run, same⟩, remaining⟩)
    · cases reply with
      | error kind =>
          cases same
          exact Or.inl ⟨kind, rfl, run⟩
      | ok value => cases same
    · cases reply with
      | error kind => cases same
      | ok found =>
          cases same
          exact Or.inr ⟨_, middle, run, remaining⟩
  · rintro (⟨kind, rfl, run⟩ | ⟨value, middle, run, remaining⟩)
    · exact Or.inl ⟨ioError kind, rfl, .error kind, run, rfl⟩
    · exact Or.inr ⟨value, middle, ⟨.ok value, run, rfl⟩, remaining⟩

theorem effect_create
    {path : Path}
    {reply : Except Storage.ErrorKind Unit}
    (effect : Effect faulty draws (.file (.create path)) before reply after) :
    (reply = .ok () ∧ after = before.insert path .fresh) ∨
      (faulty (.create path) ∧ reply = .error .other ∧ after = before) := by
  rcases effect with same | ⟨fault, same⟩ <;> cases same
  · exact Or.inl ⟨rfl, rfl⟩
  · exact Or.inr ⟨fault, rfl, rfl⟩

/-- Writing a file that is there. -/
theorem effect_write
    {path : Path}
    {content : Content}
    {file : Storage.File Content}
    {reply : Except Storage.ErrorKind Unit}
    (effect : Effect faulty draws (.file (.write path content)) before reply
      after)
    (present : before.lookup path = some file) :
    (reply = .ok () ∧ after = before.insert path ⟨some content, false⟩) ∨
      (faulty (.write path content) ∧ reply = .error .other ∧
        after = before.insert path .fresh) := by
  rcases effect with same | ⟨fault, same⟩
  · rw [Storage.respond, present] at same
    cases same
    exact Or.inl ⟨rfl, rfl⟩
  · have there : path ∈ before := Finmap.mem_iff.mpr ⟨file, present⟩
    rw [Storage.fail, if_pos there] at same
    cases same
    exact Or.inr ⟨fault, rfl, rfl⟩

theorem effect_sync
    {path : Path}
    {file : Storage.File Content}
    {reply : Except Storage.ErrorKind Unit}
    (effect : Effect faulty draws (.file (.sync path)) before reply after)
    (present : before.lookup path = some file) :
    (reply = .ok () ∧
        after = before.insert path { file with synced := true }) ∨
      (faulty (.sync path) ∧ reply = .error .other ∧ after = before) := by
  rcases effect with same | ⟨fault, same⟩
  · rw [Storage.respond, present] at same
    cases same
    exact Or.inl ⟨rfl, rfl⟩
  · cases same
    exact Or.inr ⟨fault, rfl, rfl⟩

theorem effect_rename
    {old new : Path}
    {file : Storage.File Content}
    {reply : Except Storage.ErrorKind Unit}
    (effect : Effect faulty draws (.file (.rename old new)) before reply
      after)
    (present : before.lookup old = some file) :
    (reply = .ok () ∧ after = (before.erase old).insert new file) ∨
      (faulty (.rename old new) ∧ reply = .error .other ∧
        after = before) := by
  rcases effect with same | ⟨fault, same⟩
  · rw [Storage.respond, present] at same
    cases same
    exact Or.inl ⟨rfl, rfl⟩
  · cases same
    exact Or.inr ⟨fault, rfl, rfl⟩

theorem effect_syncDirectory
    {directory : Directory}
    {reply : Except Storage.ErrorKind Unit}
    (effect : Effect faulty draws (.file (.syncDirectory directory)) before
      reply after) :
    after = before ∧ (reply = .ok () ∨
      (faulty (.syncDirectory directory) ∧ reply = .error .other)) := by
  rcases effect with same | ⟨fault, same⟩ <;> cases same
  · exact ⟨rfl, Or.inl rfl⟩
  · exact ⟨rfl, Or.inr ⟨fault, rfl⟩⟩

/-- The outcome of a call that writes this record: it did, or it failed with
the old record still there, or it failed once the new one was. -/
def Writes
    (faulty : FileOp → Prop)
    (before after : JobFiles)
    (job : Job) :
    Except ArchiveError Unit → Prop
  | .ok _ => after.lookup (.record job.id) = some ⟨some (.job job), true⟩
  | .error _ =>
      (∃ op, faulty op ∧ op ≠ .syncDirectory .jobs) ∧
          after.lookup (.record job.id) =
            before.lookup (.record job.id) ∨
        faulty (.syncDirectory .jobs) ∧
          after.lookup (.record job.id) = some ⟨some (.job job), true⟩

theorem returns_persistRecord
    {job : Job}
    {outcome : Except ArchiveError Unit}
    (returns : Returns (Effect faulty draws) (persistRecord job) before
      outcome after) :
    Writes faulty before after job outcome := by
  unfold persistRecord at returns
  obtain ⟨now, clocked, read, returns⟩ := returns_always_bind.mp returns
  obtain ⟨nonce, drawn, draw, returns⟩ := returns_always_bind.mp returns
  have start : drawn.lookup (.record job.id) =
      before.lookup (.record job.id) := by
    rw [lookup_of_untouched (only_newJobId now) draw,
      lookup_of_untouched only_unixTimestamp read]
  -- what stands under the temporary name is not the record
  have aside : ∀ (files : JobFiles) (file : Storage.File Content),
      (files.insert (.temporary job.id nonce) file).lookup
        (.record job.id) = files.lookup (.record job.id) :=
    fun files file => Finmap.lookup_insert_of_ne _ nofun
  have failed : ∀ {op : FileOp} {files : JobFiles} {error : ArchiveError},
      faulty op → op ≠ .syncDirectory .jobs →
      files.lookup (.record job.id) = before.lookup (.record job.id) →
      Writes faulty before files job (.error error) :=
    fun fault other same => Or.inl ⟨⟨_, fault, other⟩, same⟩
  rcases returns_orFail_bind.mp returns with
    ⟨kind, rfl, run⟩ | ⟨_, created, run, returns⟩
  · rcases effect_create (runs_perform.mp run) with
      ⟨no, _⟩ | ⟨fault, _, rfl⟩
    · cases no
    · exact failed fault nofun start
  rcases effect_create (runs_perform.mp run) with ⟨_, rfl⟩ | ⟨_, no, _⟩
  swap
  · cases no
  rcases returns_orFail_bind.mp returns with
    ⟨kind, rfl, run⟩ | ⟨_, written, run, returns⟩
  · rcases effect_write (runs_perform.mp run)
        (Finmap.lookup_insert _) with ⟨no, _⟩ | ⟨fault, _, rfl⟩
    · cases no
    · refine failed fault nofun ?_
      rw [aside, aside, start]
  rcases effect_write (runs_perform.mp run)
      (Finmap.lookup_insert _) with ⟨_, rfl⟩ | ⟨_, no, _⟩
  swap
  · cases no
  rcases returns_orFail_bind.mp returns with
    ⟨kind, rfl, run⟩ | ⟨_, synced, run, returns⟩
  · rcases effect_sync (runs_perform.mp run)
        (Finmap.lookup_insert _) with ⟨no, _⟩ | ⟨fault, _, rfl⟩
    · cases no
    · refine failed fault nofun ?_
      rw [aside, aside, start]
  rcases effect_sync (runs_perform.mp run)
      (Finmap.lookup_insert _) with ⟨_, rfl⟩ | ⟨_, no, _⟩
  swap
  · cases no
  rcases returns_orFail_bind.mp returns with
    ⟨kind, rfl, run⟩ | ⟨_, renamed, run, returns⟩
  · rcases effect_rename (runs_perform.mp run)
        (Finmap.lookup_insert _) with ⟨no, _⟩ | ⟨fault, _, rfl⟩
    · cases no
    · refine failed fault nofun ?_
      rw [aside, aside, aside, start]
  rcases effect_rename (runs_perform.mp run)
      (Finmap.lookup_insert _) with ⟨_, rfl⟩ | ⟨_, no, _⟩
  swap
  · cases no
  obtain ⟨reply, run, rfl⟩ := returns_orFail.mp returns
  obtain ⟨rfl, rfl | ⟨fault, rfl⟩⟩ :=
    effect_syncDirectory (runs_perform.mp run)
  · exact Finmap.lookup_insert _
  · exact Or.inr ⟨fault, Finmap.lookup_insert _⟩

/-- The files of the indexes that are about this job. -/
inductive IndexPath (job : Job) : Path → Prop
  | history : IndexPath job (.history (historyKey job.createdAt job.id))
  | active : IndexPath job (.active job.id)
  | entry
      (hash : String)
      (place : Path)
      (keyed : job.idempotencyHash = some hash)
      (inside : EntryPath hash place) :
      IndexPath job place

theorem IndexPath.not_record
    {job : Job}
    {id : String} :
    ¬IndexPath job (.record id) := by
  rintro (_ | _ | ⟨_, _, _, inside⟩)
  cases inside

theorem IndexPath.not_reservation
    {job : Job}
    {id : String} :
    ¬IndexPath job (.reservation id) := by
  rintro (_ | _ | ⟨_, _, _, inside⟩)
  cases inside

theorem only_indexes (job : Job) :
    Only (Within (IndexPath job)) (ensureHistoryIndex job).run ∧
      Only (Within (IndexPath job)) (ensureIdempotencyIndex job).run ∧
        Only (Within (IndexPath job)) (setActiveMarker job).run := by
  refine ⟨(only_ensureHistoryIndex job).mono (within_mono ?_),
    (only_ensureIdempotencyIndex job).mono (within_mono ?_),
    (only_setActiveMarker job).mono (within_mono ?_)⟩
  · rintro place rfl
    exact .history
  · rintro place ⟨hash, keyed, inside⟩
    exact .entry hash place keyed inside
  · rintro place rfl
    exact .active

theorem only_updateIndexes (job : Job) :
    Only (Within (IndexPath job)) (updateIndexes job) := by
  obtain ⟨history, entry, marker⟩ := only_indexes job
  exact Only.bind history fun _ => Only.bind entry fun _ =>
    Only.bind marker fun _ => trivial

theorem only_persistRecord (job : Job) :
    Only (Within fun place => place = .record job.id ∨
        ∃ nonce, place = .temporary job.id nonce)
      (persistRecord job).run := by
  unfold persistRecord
  refine Only.exceptBind (only_always only_unixTimestamp) fun now =>
    Only.exceptBind (only_always (only_newJobId now)) fun nonce => ?_
  repeat' first
    | refine Only.exceptBind ?_ fun _ => ?_
    | refine only_orFail (only_perform ?_)
  all_goals
    intro place touched
    simp only [Storage.Touches] at touched
  · exact Or.inr ⟨nonce, touched⟩
  · exact Or.inr ⟨nonce, touched⟩
  · exact Or.inr ⟨nonce, touched⟩
  · exact touched.elim (fun old => Or.inr ⟨nonce, old⟩) Or.inl

/-- The call writes this record, and leaves the others alone. -/
structure WritesOne
    (faulty : FileOp → Prop)
    (before after : JobFiles)
    (job : Job)
    (outcome : Except ArchiveError Unit) :
    Prop where
  writes : Writes faulty before after job outcome
  others : ∀ id, id ≠ job.id →
    after.lookup (.record id) = before.lookup (.record id)

theorem returns_persist
    {job : Job}
    {outcome : Except ArchiveError Unit}
    (returns : Returns (Effect faulty draws) (persist job) before outcome
      after) :
    WritesOne faulty before after job outcome := by
  have others : ∀ {middle : JobFiles} {result : Except ArchiveError Unit},
      Returns (Effect faulty draws) (persistRecord job) before result
        middle →
      ∀ id, id ≠ job.id →
        middle.lookup (.record id) = before.lookup (.record id) := by
    intro middle result run id different
    apply lookup_of_only (only_persistRecord job) _ run
    rintro (same | ⟨nonce, same⟩)
    · cases same
      exact different rfl
    · cases same
  unfold persist at returns
  rcases returns_bind.mp returns with
    ⟨error, rfl, failed⟩ | ⟨_, middle, written, returns⟩
  · exact ⟨returns_persistRecord failed, others failed⟩
  · obtain ⟨_, rfl, run⟩ := returns_always.mp returns
    have kept : ∀ id, after.lookup (.record id) =
        middle.lookup (.record id) := fun id =>
      lookup_of_only (only_updateIndexes job) IndexPath.not_record run
    exact ⟨(kept job.id).trans (returns_persistRecord written),
      fun id different => (kept id).trans (others written id different)⟩

/-- What may fail in `persist` itself. -/
inductive PersistStep : FileOp → Prop
  | create (id nonce : String) : PersistStep (.create (.temporary id nonce))
  | write (id nonce : String) (content : Content) :
      PersistStep (.write (.temporary id nonce) content)
  | sync (id nonce : String) : PersistStep (.sync (.temporary id nonce))
  | rename (id nonce : String) :
      PersistStep (.rename (.temporary id nonce) (.record id))
  | syncDirectory : PersistStep (.syncDirectory .jobs)

/-- What `persist_new` made of the id it was given. -/
def WritesNew
    (faulty : FileOp → Prop)
    (before after : JobFiles)
    (job : Job) :
    Except ArchiveError Bool → Prop
  | .ok true => before.lookup (.record job.id) = none ∧
      after.lookup (.record job.id) = some ⟨some (.job job), true⟩
  | .ok false => after.lookup (.record job.id) =
      before.lookup (.record job.id)
  | .error _ => after.lookup (.record job.id) =
        before.lookup (.record job.id) ∨
      faulty (.syncDirectory .jobs)

/-- Looking whether a file is there. -/
theorem effect_isFile
    {path : Path}
    {reply : Bool}
    (limited : ¬faulty (.isFile path))
    (effect : Effect faulty draws (.file (.isFile path)) before reply after) :
    after = before ∧ (reply = true ↔ path ∈ before) := by
  rcases effect with same | ⟨fault, _⟩
  · cases same
    exact ⟨rfl, by simp⟩
  · exact absurd fault limited

/-- The files that writing this job changes. -/
inductive PersistPath (job : Job) : Path → Prop
  | record : PersistPath job (.record job.id)
  | temporary (nonce : String) : PersistPath job (.temporary job.id nonce)
  | index (place : Path) (inside : IndexPath job place) : PersistPath job place

theorem only_persist (job : Job) :
    Only (Within (PersistPath job)) (persist job).run := by
  unfold persist
  refine Only.exceptBind ?_ fun _ => only_always ?_
  · apply (only_persistRecord job).mono (within_mono ?_)
    rintro place (rfl | ⟨nonce, rfl⟩)
    · exact .record
    · exact .temporary nonce
  · exact (only_updateIndexes job).mono (within_mono PersistPath.index)

theorem only_persistReserved (job : Job) :
    Only (Within fun place => PersistPath job place ∨
        place = .reservation job.id)
      (persistReserved job).run := by
  obtain ⟨history, entry, marker⟩ := only_indexes job
  have index : ∀ {α : Type} {program : Program interface α},
      Only (Within (IndexPath job)) program →
      Only (Within fun place => PersistPath job place ∨
        place = .reservation job.id) program :=
    fun only => only.mono (within_mono fun place inside =>
      Or.inl (.index place inside))
  unfold persistReserved
  refine Only.exceptBind (index history)
    fun _ => Only.exceptBind (index entry)
    fun _ => Only.exceptBind (index marker)
    fun _ => Only.exceptBind (only_always ?_)
    fun _ => Only.exceptBind (only_always (only_perform ?_))
    fun _ => Only.exceptBind (only_orFail (only_perform ?_))
    fun _ => Only.exceptBind (only_check _)
    fun _ => Only.exceptBind (only_check _) fun _ => trivial
  · exact (only_persist job).mono (within_mono fun _ => Or.inl)
  · exact fun place touched => Or.inr touched
  · exact fun place touched => touched.elim

theorem only_persistNew (job : Job) :
    Only (Within fun place => PersistPath job place ∨
        place = .reservation job.id)
      (persistNew job).run := by
  unfold persistNew
  repeat' first
    | exact trivial
    | exact only_persistReserved job
    | refine Only.exceptBind ?_ fun _ => ?_
    | refine only_always ?_
    | refine only_orFail ?_
    | exact only_perform fun _ touched => Or.inr touched
    | exact only_perform fun _ touched => touched.elim
    | split

/-- Removing a file that is there. -/
theorem effect_remove
    {path : Path}
    {reply : Except Storage.ErrorKind Unit}
    (limited : ¬faulty (.remove path))
    (there : path ∈ before)
    (effect : Effect faulty draws (.file (.remove path)) before reply
      after) :
    reply = .ok () ∧ after = before.erase path := by
  rcases effect with same | ⟨fault, _⟩
  · rw [Storage.respond, if_pos there] at same
    cases same
    exact ⟨rfl, rfl⟩
  · exact absurd fault limited

theorem mem_congr
    {path : Path}
    (same : after.lookup path = before.lookup path) :
    path ∈ after ↔ path ∈ before := by
  rw [← Finmap.lookup_isSome, ← Finmap.lookup_isSome, same]

/-- Once the id is known to be free, the record is written or the call
fails. -/
theorem returns_persistReserved
    {job : Job}
    {outcome : Except ArchiveError Bool}
    (limited : ∀ op, faulty op → PersistStep op)
    (reserved : .reservation job.id ∈ before)
    (free : before.lookup (.record job.id) = none)
    (returns : Returns (Effect faulty draws) (persistReserved job) before
      outcome after) :
    WritesNew faulty before after job outcome := by
  obtain ⟨historyOnly, entryOnly, markerOnly⟩ := only_indexes job
  -- the indexes come before the record, which is not there yet
  have kept : ∀ {α : Type} {action : Action α} {start final : JobFiles}
      {result : Except ArchiveError α},
      Only (Within (IndexPath job)) action.run →
      start.lookup (.record job.id) = none →
      .reservation job.id ∈ start →
      Returns (Effect faulty draws) action start result final →
      final.lookup (.record job.id) = none ∧
        .reservation job.id ∈ final := by
    intro α action start final result only absent held run
    exact ⟨(lookup_of_only only IndexPath.not_record run).trans absent,
      (mem_congr (lookup_of_only only IndexPath.not_reservation run)).mpr
        held⟩
  unfold persistReserved at returns
  rcases returns_bind.mp returns with
    ⟨error, rfl, failed⟩ | ⟨_, first, history, second⟩
  · exact Or.inl ((kept historyOnly free reserved failed).1.trans free.symm)
  obtain ⟨firstFree, firstHeld⟩ := kept historyOnly free reserved history
  rcases returns_bind.mp second with
    ⟨error, rfl, failed⟩ | ⟨_, indexed, entry, third⟩
  · exact Or.inl ((kept entryOnly firstFree firstHeld failed).1.trans
      free.symm)
  obtain ⟨indexedFree, indexedHeld⟩ :=
    kept entryOnly firstFree firstHeld entry
  rcases returns_bind.mp third with
    ⟨error, rfl, failed⟩ | ⟨_, marked, marker, fourth⟩
  · exact Or.inl ((kept markerOnly indexedFree indexedHeld failed).1.trans
      free.symm)
  obtain ⟨markedFree, markedHeld⟩ :=
    kept markerOnly indexedFree indexedHeld marker
  obtain ⟨result, written, persisted, fifth⟩ :=
    returns_always_bind.mp fourth
  have record := (returns_persist persisted).writes
  have writtenHeld : .reservation job.id ∈ written := by
    refine (mem_congr (lookup_of_only (only_persist job) ?_ persisted)).mpr
      markedHeld
    rintro (_ | _ | ⟨_, inside⟩)
    exact inside.not_reservation
  obtain ⟨removed, final, remove, sixth⟩ := returns_always_bind.mp fifth
  obtain ⟨rfl, rfl⟩ := effect_remove
    (fun fault => by cases limited _ fault) writtenHeld
    (runs_perform.mp remove)
  have same : (written.erase (.reservation job.id)).lookup
      (.record job.id) = written.lookup (.record job.id) :=
    Finmap.lookup_erase_ne nofun
  rcases returns_orFail_bind.mp sixth with
    ⟨kind, rfl, run⟩ | ⟨_, synced, run, last⟩
  · obtain ⟨rfl, no | ⟨fault, _⟩⟩ :=
      effect_syncDirectory (runs_perform.mp run)
    · cases no
    · exact Or.inr fault
  obtain ⟨rfl, _⟩ := effect_syncDirectory (runs_perform.mp run)
  cases result with
  | error error =>
      obtain ⟨rfl, rfl⟩ := returns_check_error.mp last
      rcases record with ⟨_, old⟩ | ⟨fault, _⟩
      · exact Or.inl ((same.trans (old.trans markedFree)).trans free.symm)
      · exact Or.inr fault
  | ok _ =>
      obtain ⟨rfl, rfl⟩ :=
        returns_check_bind.mp (returns_check_bind.mp last)
      exact ⟨free, same.trans record⟩

/-- Creating a file that may be there already. -/
theorem effect_createNew
    {path : Path}
    {reply : Except Storage.ErrorKind Unit}
    (limited : ¬faulty (.createNew path))
    (effect : Effect faulty draws (.file (.createNew path)) before reply
      after) :
    (path ∈ before ∧ reply = .error .alreadyExists ∧ after = before) ∨
      (path ∉ before ∧ reply = .ok () ∧
        after = before.insert path .fresh) := by
  rcases effect with same | ⟨fault, _⟩
  · rw [Storage.respond] at same
    split at same
    · next there =>
        cases same
        exact Or.inl ⟨there, rfl, rfl⟩
    · next absent =>
        cases same
        exact Or.inr ⟨absent, rfl, rfl⟩
  · exact absurd fault limited

/-- `persist_new` writes a record under a free id, or leaves the id alone. -/
theorem returns_persistNew
    {job : Job}
    {outcome : Except ArchiveError Bool}
    (limited : ∀ op, faulty op → PersistStep op)
    (returns : Returns (Effect faulty draws) (persistNew job) before outcome
      after) :
    WritesNew faulty before after job outcome := by
  unfold persistNew at returns
  obtain ⟨reply, created, run, first⟩ := returns_always_bind.mp returns
  rcases effect_createNew (fun fault => by cases limited _ fault)
      (runs_perform.mp run) with
    ⟨_, rfl, rfl⟩ | ⟨absent, rfl, rfl⟩
  · obtain ⟨rfl, rfl⟩ := first
    rfl
  have sameRecord : (before.insert (.reservation job.id) .fresh).lookup
      (.record job.id) = before.lookup (.record job.id) :=
    Finmap.lookup_insert_of_ne _ nofun
  rcases returns_orFail_bind.mp first with
    ⟨kind, rfl, failed⟩ | ⟨_, synced, sync, second⟩
  · rcases effect_sync (runs_perform.mp failed)
        (Finmap.lookup_insert _) with ⟨no, _⟩ | ⟨fault, _⟩
    · cases no
    · cases limited _ fault
  rcases effect_sync (runs_perform.mp sync)
      (Finmap.lookup_insert _) with ⟨_, rfl⟩ | ⟨_, no, _⟩
  swap
  · cases no
  have syncedRecord : ((before.insert (.reservation job.id)
      (.fresh : Storage.File Content)).insert (.reservation job.id)
        { (.fresh : Storage.File Content) with synced := true }).lookup
          (.record job.id) = before.lookup (.record job.id) := by
    rw [Finmap.lookup_insert_of_ne _ (by simp)]
    exact sameRecord
  obtain ⟨taken, looked, look, third⟩ := returns_always_bind.mp second
  obtain ⟨rfl, present⟩ := effect_isFile
    (fun fault => by cases limited _ fault) (runs_perform.mp look)
  cases taken with
  | true =>
      rw [if_pos rfl] at third
      obtain ⟨_, removed, remove, fourth⟩ := returns_always_bind.mp third
      have removal : Only (Within (· = .reservation job.id))
          (perform (.remove (.reservation job.id))) :=
        only_perform fun _ touched => touched
      have removedRecord : removed.lookup (.record job.id) =
          before.lookup (.record job.id) := by
        rw [lookup_of_only removal (by simp) remove]
        exact syncedRecord
      rcases returns_orFail_bind.mp fourth with
        ⟨kind, rfl, failed⟩ | ⟨_, last, sync, final⟩
      · obtain ⟨rfl, _⟩ := effect_syncDirectory (runs_perform.mp failed)
        exact Or.inl removedRecord
      · obtain ⟨rfl, _⟩ := effect_syncDirectory (runs_perform.mp sync)
        obtain ⟨rfl, rfl⟩ := final
        exact removedRecord
  | false =>
      rw [if_neg (by simp)] at third
      have absentRecord : Path.record job.id ∉ _ :=
        fun there => Bool.false_ne_true (present.mpr there)
      have free := (Finmap.lookup_eq_none.mpr absentRecord)
      have written := returns_persistReserved limited
        (Finmap.mem_insert.mpr (Or.inl rfl)) free third
      unfold WritesNew at written ⊢
      rw [syncedRecord] at written free
      exact written

/-- What `submit` does to the records. -/
def Submits
    (faulty : FileOp → Prop)
    (jobs : ActiveJobs)
    (before after : JobFiles) :
    Except String (Job × Bool) → Prop
  | .ok (job, true) =>
      job.id ∉ jobs ∧ job.state = .queued ∧
        before.lookup (.record job.id) = none ∧
        after.lookup (.record job.id) = some ⟨some (.job job), true⟩ ∧
        ∀ id, id ≠ job.id →
          after.lookup (.record id) = before.lookup (.record id)
  | _ =>
      (∀ id, after.lookup (.record id) = before.lookup (.record id)) ∨
        faulty (.syncDirectory .jobs)

theorem Submits.of_same
    {jobs : ActiveJobs}
    {middle : JobFiles}
    {outcome : Except String (Job × Bool)}
    (submits : Submits faulty jobs middle after outcome)
    (same : ∀ id, middle.lookup (.record id) = before.lookup (.record id)) :
    Submits faulty jobs before after outcome := by
  unfold Submits at submits ⊢
  split at submits
  · simp only [same] at submits
    exact submits
  · exact submits.imp_left fun kept id => (kept id).trans (same id)

theorem returns_persistCandidate
    {jobs : ActiveJobs}
    {candidate : String → Job}
    {now attempts : Nat}
    {outcome : Except String Job}
    (limited : ∀ op, faulty op → PersistStep op)
    (named : ∀ id, (candidate id).id = id ∧ (candidate id).state = .queued)
    (returns : Returns (Effect faulty draws)
      (persistCandidate jobs candidate now attempts) before outcome after) :
    Submits faulty jobs before after (outcome.map fun job => (job, true)) := by
  induction attempts generalizing before with
  | zero =>
      obtain ⟨rfl, rfl⟩ := returns
      exact Or.inl fun _ => rfl
  | succ attempts inductionHypothesis =>
      unfold persistCandidate at returns
      obtain ⟨id, drawn, draw, first⟩ := returns_always_bind.mp returns
      have sameDrawn : ∀ other, drawn.lookup (.record other) =
          before.lookup (.record other) := fun other =>
        lookup_of_untouched (only_newJobId now) draw
      split at first
      · exact (inductionHypothesis first).of_same sameDrawn
      · next absent =>
          obtain ⟨result, written, run, second⟩ :=
            returns_always_bind.mp first
          have record := returns_persistNew limited run
          have others : ∀ other, other ≠ id →
              written.lookup (.record other) =
                before.lookup (.record other) := by
            intro other different
            refine (lookup_of_only (only_persistNew (candidate id)) ?_
              run).trans (sameDrawn other)
            rintro (inside | same)
            · rcases inside with _ | _ | ⟨_, index⟩
              · exact different (named id).1
              · exact index.not_record
            · cases same
          have here : WritesNew faulty before written (candidate id)
              result := by
            unfold WritesNew at record ⊢
            rw [sameDrawn] at record
            exact record
          rw [WritesNew.eq_def] at here
          rw [(named id).1] at here
          cases result with
          | error error =>
              obtain ⟨rfl, rfl⟩ := second
              refine here.imp_left fun same other => ?_
              by_cases equal : other = id
              · rw [equal]
                exact same
              · exact others other equal
          | ok created =>
              cases created with
              | true =>
                  obtain ⟨rfl, rfl⟩ := second
                  refine ⟨?_, (named id).2, ?_, ?_, ?_⟩
                  · rw [(named id).1]
                    exact absent
                  · rw [(named id).1]
                    exact here.1
                  · rw [(named id).1]
                    exact here.2
                  · rw [(named id).1]
                    exact others
              | false =>
                  apply (inductionHypothesis second).of_same
                  intro other
                  by_cases equal : other = id
                  · rw [equal]
                    exact here
                  · exact others other equal

/-- A look at the idempotency index changes nothing but its own entries. -/
theorem only_submitIndexed
    {digest : String → String}
    {request : JobRequest}
    {selection : FileSelection}
    {principal : PrincipalView}
    (hash : String) :
    Only (Within (· = .idempotency hash))
      (submitIndexed digest request selection principal hash).run := by
  unfold submitIndexed readIdempotency readJob removeIdempotency
  repeat' first
    | exact trivial
    | exact only_check _
    | refine Only.exceptBind ?_ fun _ => ?_
    | refine only_always ?_
    | refine only_orFail ?_
    | exact only_perform (by simp [Storage.Touches])
    | split
    | dsimp only

theorem returns_submitNew
    {jobs : ActiveJobs}
    {request : JobRequest}
    {selection : FileSelection}
    {principal : PrincipalView}
    {hash requestHash : Option String}
    {outcome : Except String (Job × Bool)}
    (limited : ∀ op, faulty op → PersistStep op)
    (returns : Returns (Effect faulty draws)
      (submitNew jobs request selection principal hash requestHash) before
      outcome after) :
    Submits faulty jobs before after outcome := by
  unfold submitNew at returns
  split at returns
  · obtain ⟨rfl, rfl⟩ := returns
    exact Or.inl fun _ => rfl
  obtain ⟨now, start, clock, first⟩ := returns_always_bind.mp returns
  obtain ⟨_, rfl⟩ := runs_unixTimestamp.mp clock
  rcases returns_bind.mp first with
    ⟨error, rfl, failed⟩ | ⟨job, final, created, last⟩
  · exact returns_persistCandidate limited (fun _ => ⟨rfl, rfl⟩) failed
  · obtain ⟨rfl, rfl⟩ := last
    exact returns_persistCandidate limited (fun _ => ⟨rfl, rfl⟩) created

theorem returns_submit
    {digest : String → String}
    {jobs : ActiveJobs}
    {request : JobRequest}
    {key : Option String}
    {principal : PrincipalView}
    {outcome : Except String (Job × Bool)}
    (limited : ∀ op, faulty op → PersistStep op)
    (returns : Returns (Effect faulty draws)
      (submit digest jobs request key principal) before outcome after) :
    Submits faulty jobs before after outcome := by
  unfold submit at returns
  rcases returns_bind.mp returns with
    ⟨error, rfl, failed⟩ | ⟨selection, checked, validated, first⟩
  · exact Or.inl fun _ => by rw [failed.2]
  obtain ⟨_, rfl⟩ := validated
  rcases returns_bind.mp first with
    ⟨error, rfl, failed⟩ | ⟨hash, hashed, keyed, second⟩
  · exact Or.inl fun _ => by rw [failed.2]
  obtain ⟨_, rfl⟩ := keyed
  dsimp only at second
  cases hash with
  | none =>
      rcases returns_bind.mp second with
        ⟨error, _, failed⟩ | ⟨indexed, middle, index, third⟩
      · cases failed.1
      obtain ⟨same, rfl⟩ := index
      cases same
      exact returns_submitNew limited third
  | some hash =>
      have looked : ∀ {answer : Except String (Option Job)}
          {middle : JobFiles},
          Returns (Effect faulty draws)
            (submitIndexed digest request selection principal hash) hashed
              answer middle →
          ∀ id, middle.lookup (.record id) = hashed.lookup (.record id) :=
        fun run id => lookup_of_only (only_submitIndexed hash) nofun run
      rcases returns_bind.mp second with
        ⟨error, rfl, failed⟩ | ⟨indexed, middle, index, third⟩
      · exact Or.inl (looked failed)
      cases indexed with
      | some existing =>
          obtain ⟨rfl, rfl⟩ := third
          exact Or.inl (looked index)
      | none => exact (returns_submitNew limited third).of_same (looked index)

end steps

end Jobs
end ModelKeep
