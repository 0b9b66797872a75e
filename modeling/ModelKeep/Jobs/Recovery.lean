import ModelKeep.Jobs.Operations

/-!
# Opening the job manager

Startup repairs what a crash left: jobs that were active are interrupted, and
markers without an active record go.  It may be cut off and repeated, since
every prefix of it leaves a sound ledger again.
-/

namespace ModelKeep
namespace Jobs

open Concurrency Program

/-- Some of the active records were interrupted; the others are the same. -/
def Recovers (earlier later : Records) : Prop :=
  ∀ id, later id = earlier id ∨
    ∃ job now, earlier id = some job ∧ job.state.isActive = true ∧
      later id = some (job.interrupt now)

theorem Recovers.refl (records : Records) : Recovers records records :=
  fun _ => Or.inl rfl

theorem Recovers.trans
    {first second third : Records}
    (earlier : Recovers first second)
    (later : Recovers second third) :
    Recovers first third := by
  intro id
  rcases later id with same | ⟨job, now, found, active, interrupted⟩
  · rw [same]
    exact earlier id
  · rcases earlier id with same | ⟨old, before, _, _, ended⟩
    · exact Or.inr ⟨job, now, same ▸ found, active, interrupted⟩
    · cases ended.symm.trans found
      cases active

/-- An active record is interrupted. -/
theorem Recovers.interrupt
    {earlier : Records}
    {ledger : Ledger}
    {job : Job}
    {now : Nat}
    (recovers : Recovers earlier ledger.record)
    (found : ledger.record job.id = some job)
    (active : job.state.isActive = true) :
    Recovers earlier (ledger.put (job.interrupt now)).record := by
  refine recovers.trans fun id => ?_
  by_cases same : id = (job.interrupt now).id
  · right
    refine ⟨job, now, same ▸ found, active, ?_⟩
    rw [same, Ledger.record_put_self]
  · exact Or.inl (Ledger.record_put_of_ne same)

section migration

variable {kept : Records → Prop} {ledger : Ledger} {start : JobFiles}

theorem guards_migrateEntry
    {path : Path}
    (here : At kept start ledger)
    (known : ∀ id, path = .record id → ledger.record id ≠ none) :
    Guards Healthy (Holds kept) (migrateEntry path).run
      (fun outcome final => outcome = .ok () ∧ ∃ later,
        At kept final later ∧ later.record = ledger.record) start := by
  unfold migrateEntry
  split
  · next id =>
      obtain ⟨job, found⟩ := Option.ne_none_iff_exists'.mp (known id rfl)
      have present : start.lookup (.record id) =
          some ⟨some (.job job), true⟩ := by
        rw [here.shows.record, found]
        rfl
      have named := here.sound.named id job found
      have ready := here.sound.ready id job found
      have record : ledger.record job.id = some job := named.symm ▸ found
      have valid : isJobId id = true := named ▸ ready.valid
      apply guards_orFail_bind
      apply guards_perform here.holds
      intro reply after effect
      obtain ⟨rfl, rfl⟩ := effect_read effect
      rw [present]
      refine ⟨here.holds, _, rfl, ?_⟩
      dsimp only
      rw [if_neg (by simp [valid, named])]
      apply Guards.exceptBind
      apply (guards_indexes here record).1.mono
      rintro _ middle _ ⟨rfl, first⟩
      apply Guards.exceptBind
      apply (guards_indexes first record).2.1.mono
      rintro _ later _ ⟨rfl, second⟩
      apply (guards_indexes second record).2.2.mono
      rintro _ final _ ⟨rfl, third⟩
      exact ⟨rfl, _, third, Ledger.record_remark ..⟩
  · exact ⟨here.holds, rfl, ledger, here, rfl⟩

theorem guards_migrateEntries
    {paths : List Path}
    (here : At kept start ledger)
    (known : ∀ id, .record id ∈ paths → ledger.record id ≠ none) :
    Guards Healthy (Holds kept) (migrateEntries paths).run
      (fun outcome final => outcome = .ok () ∧ ∃ later,
        At kept final later ∧ later.record = ledger.record) start := by
  induction paths generalizing start ledger with
  | nil => exact ⟨here.holds, rfl, ledger, here, rfl⟩
  | cons path paths inductionHypothesis =>
      unfold migrateEntries
      apply Guards.exceptBind
      refine (guards_migrateEntry here ?_).mono ?_
      · rintro id rfl
        exact known id (List.mem_cons_self ..)
      · rintro _ middle _ ⟨rfl, next, first, same⟩
        refine (inductionHypothesis first ?_).mono ?_
        · intro id member
          rw [same]
          exact known id (List.mem_cons_of_mem _ member)
        · rintro outcome final _ ⟨rfl, later, second, sameLater⟩
          exact ⟨rfl, later, second, sameLater.trans same⟩

theorem effect_list
    {directory : Directory}
    {after : JobFiles}
    {reply : Except Storage.ErrorKind (List Path)}
    (effect : Healthy (.file (.list directory)) start reply after) :
    ∃ paths, reply = .ok paths ∧ after = start ∧ paths.Nodup ∧
      ∀ path, path ∈ paths ↔ path.directory = directory ∧ path ∈ start := by
  rcases effect with ⟨paths, rfl, rfl, lists⟩ | ⟨fault, _⟩
  · exact ⟨paths, rfl, rfl, lists⟩
  · exact fault.elim

theorem guards_migrateIndexesOnce
    (here : At kept start ledger) :
    Guards Healthy (Holds kept) migrateIndexesOnce.run
      (fun outcome final => outcome = .ok () ∧ ∃ later,
        At kept final later ∧ later.record = ledger.record) start := by
  unfold migrateIndexesOnce
  apply guards_always_bind
  apply guards_perform here.holds
  intro reply after effect
  obtain ⟨rfl, _⟩ := effect_isFile id effect
  refine ⟨here.holds, ?_⟩
  split
  · exact ⟨here.holds, rfl, ledger, here, rfl⟩
  apply guards_orFail_bind
  apply guards_perform here.holds
  intro reply after effect
  obtain ⟨paths, rfl, rfl, _, listed⟩ := effect_list effect
  refine ⟨here.holds, paths, rfl, ?_⟩
  apply Guards.exceptBind
  refine (guards_migrateEntries here ?_).mono ?_
  · intro id member
    have there := ((listed _).mp member).2
    rw [← Finmap.lookup_isSome, here.shows.record, Option.isSome_map,
      Option.isSome_iff_ne_none] at there
    exact there
  rintro _ middle _ ⟨rfl, later, moved, same⟩
  dsimp only
  apply guards_always_bind
  apply guards_unixTimestamp moved.holds
  intro now _
  apply guards_always_bind
  apply guards_newJobId moved.holds
  intro nonce _ unused
  have aside : ¬(Path.sentinelTemporary nonce).Vital := id
  have absent : Path.sentinelTemporary nonce ∉ middle := by
    intro there
    obtain ⟨file, present⟩ := Finmap.mem_iff.mp there
    exact (unused _ file present).1 rfl
  have created := moved.insert .fresh aside
  apply guards_orFail_bind
  apply guards_perform moved.holds
  intro reply after effect
  rcases effect_createNew id effect with ⟨there, _⟩ | ⟨_, rfl, rfl⟩
  · exact absurd there absent
  refine ⟨created.holds, (), rfl, ?_⟩
  have written := moved.insert ⟨some .sentinel, false⟩ aside
  apply guards_orFail_bind
  apply guards_perform created.holds
  intro reply after effect
  rcases effect_write effect (Finmap.lookup_insert _) with
    ⟨rfl, rfl⟩ | ⟨fault, _⟩
  swap
  · exact fault.elim
  rw [Finmap.insert_insert]
  refine ⟨written.holds, (), rfl, ?_⟩
  have synced := moved.insert ⟨some .sentinel, true⟩ aside
  apply guards_orFail_bind
  apply guards_perform written.holds
  intro reply after effect
  rcases effect_sync effect (Finmap.lookup_insert _) with
    ⟨rfl, rfl⟩ | ⟨fault, _⟩
  swap
  · exact fault.elim
  rw [Finmap.insert_insert]
  refine ⟨synced.holds, (), rfl, ?_⟩
  apply guards_orFail_bind
  apply guards_perform synced.holds
  intro reply after effect
  rcases effect_rename effect (Finmap.lookup_insert _) with
    ⟨rfl, rfl⟩ | ⟨fault, _⟩
  swap
  · exact fault.elim
  have beside : ¬Path.sentinel.Vital := id
  have renamed :=
    (synced.erase aside).insert ⟨some .sentinel, true⟩ beside
  refine ⟨renamed.holds, (), rfl, ?_⟩
  apply guards_orFail
  exact guards_syncDirectory renamed.holds ⟨(), rfl, rfl, later, renamed,
    same⟩

end migration

section markers

variable {origin : Records} {ledger : Ledger} {start : JobFiles}

/-- What the recovery of one marker leaves: nothing else changes, and its
record is not active. -/
structure Recovered (id : String) (before after : Ledger) : Prop where
  records : ∀ other, other ≠ id → after.record other = before.record other
  markers : ∀ other, other ≠ id → other ∈ before.active →
    other ∈ after.active
  ceased : ∀ job, after.record id = some job → job.state.isActive = false

theorem Recovered.unmark
    {id : String}
    (ceased : ∀ job, ledger.record id = some job →
      job.state.isActive = false) :
    Recovered id ledger (ledger.unmark id) :=
  ⟨fun _ _ => rfl, fun _ different member => ⟨member, different⟩, ceased⟩

theorem Ledger.settle_over
    {job : Job}
    (ceased : job.state.isActive = false) :
    ledger.settle job = (ledger.put job).unmark job.id := by
  unfold Ledger.settle Ledger.remark
  rw [if_neg (by simp [ceased])]

theorem guards_recoverMarker
    {id : String}
    (here : At (Recovers origin) start ledger)
    (marked : id ∈ ledger.active) :
    Guards Healthy (Holds (Recovers origin)) (recoverMarker (.active id)).run
      (fun outcome final => outcome = .ok () ∧ ∃ later,
        At (Recovers origin) final later ∧ Recovered id ledger later)
      start := by
  unfold recoverMarker
  dsimp only
  split
  · next valid =>
      apply guards_always_bind
      apply (guards_readJob here valid).mono
      rintro _ _ _ ⟨rfl, rfl⟩
      cases found : ledger.record id with
      | none =>
          dsimp only
          have missing : ∀ job, ledger.record id = some job →
              job.state.isActive = false := by
            intro job present
            cases found.symm.trans present
          have removed : At (Recovers origin) _ (ledger.unmark id) :=
            ⟨here.shows.unmark, here.sound.unmark missing, here.keeps⟩
          apply guards_orFail
          apply guards_perform here.holds
          intro reply after effect
          obtain ⟨rfl, rfl⟩ :=
            effect_remove not_false ((here.shows.active _).mpr marked) effect
          exact ⟨removed.holds, (), rfl, rfl, _, removed, .unmark missing⟩
      | some job =>
          have named := here.sound.named id job found
          subst named
          dsimp only
          split
          · next active =>
              apply guards_always_bind
              apply guards_unixTimestamp here.holds
              intro now _
              have sound : (ledger.put (job.interrupt now)).Sound :=
                here.sound.put found (Job.identity_interrupt now job)
                  fun _ => active
              refine (guards_persist here sound
                (here.keeps.interrupt found active)).mono ?_
              rintro _ final _ ⟨rfl, settled⟩
              rw [Ledger.settle_over rfl] at settled
              refine ⟨rfl, _, settled, ?_, ?_, ?_⟩
              · intro other different
                exact Ledger.record_put_of_ne different
              · exact fun other different member => ⟨member, different⟩
              · intro other present
                have written : (ledger.put (job.interrupt now)).record job.id =
                    some (job.interrupt now) := Ledger.record_put_self ..
                cases written.symm.trans present
                rfl
          · next ceased =>
              have ended : ∀ other, ledger.record job.id = some other →
                  other.state.isActive = false := by
                intro other present
                cases found.symm.trans present
                simpa using ceased
              refine (guards_setActiveMarker here fun _ => ended).mono ?_
              rintro _ final _ ⟨rfl, unmarked⟩
              unfold Ledger.remark at unmarked
              rw [if_neg ceased] at unmarked
              exact ⟨rfl, _, unmarked, .unmark ended⟩
  · next invalid =>
      refine ⟨here.holds, rfl, ledger, here, fun _ _ => rfl,
        fun _ _ member => member, ?_⟩
      intro job present
      have named := here.sound.named id job present
      exact absurd (named ▸ (here.sound.ready id job present).valid) invalid

/-- The loop: markers that remain are there, and active records have one. -/
theorem guards_recoverMarkers
    {paths : List Path}
    (here : At (Recovers origin) start ledger)
    (distinct : paths.Nodup)
    (markers : ∀ path ∈ paths, ∃ id ∈ ledger.active, path = .active id)
    (listed : ∀ id job, ledger.record id = some job →
      job.state.isActive = true → .active id ∈ paths) :
    Guards Healthy (Holds (Recovers origin)) (recoverMarkers paths).run
      (fun outcome final => outcome = .ok () ∧ ∃ later,
        At (Recovers origin) final later ∧ ∀ id job,
          later.record id = some job → job.state.isActive = false) start := by
  induction paths generalizing start ledger with
  | nil =>
      refine ⟨here.holds, rfl, ledger, here, ?_⟩
      intro id job present
      cases active : job.state.isActive with
      | true => exact absurd (listed id job present active) (by simp)
      | false => rfl
  | cons path paths inductionHypothesis =>
      obtain ⟨id, marked, rfl⟩ := markers path (List.mem_cons_self ..)
      obtain ⟨fresh, distinct⟩ := List.nodup_cons.mp distinct
      unfold recoverMarkers
      apply Guards.exceptBind
      apply (guards_recoverMarker here marked).mono
      rintro _ middle _ ⟨rfl, next, there, recovered⟩
      refine inductionHypothesis there distinct ?_ ?_
      · intro path member
        obtain ⟨other, present, rfl⟩ :=
          markers path (List.mem_cons_of_mem _ member)
        refine ⟨other, recovered.markers other ?_ present, rfl⟩
        rintro rfl
        exact fresh member
      · intro other job present active
        have different : other ≠ id := by
          rintro rfl
          rw [recovered.ceased job present] at active
          cases active
        rw [recovered.records other different] at present
        have member := listed other job present active
        simpa [different] using member

/-- `open` succeeds, and afterwards no record is active. -/
theorem guards_openJobs
    (here : At (Recovers origin) start ledger) :
    Guards Healthy (Holds (Recovers origin)) openJobs.run
      (fun outcome final => outcome = .ok ∅ ∧ ∃ later,
        At (Recovers origin) final later ∧ Mirrors ∅ later) start := by
  unfold openJobs
  apply Guards.exceptBind
  apply (guards_migrateIndexesOnce here).mono
  rintro _ middle _ ⟨rfl, ledger, migrated, _⟩
  dsimp only
  apply guards_orFail_bind
  apply guards_perform migrated.holds
  intro reply after effect
  obtain ⟨paths, rfl, rfl, distinct, listed⟩ := effect_list effect
  refine ⟨migrated.holds, paths, rfl, ?_⟩
  apply Guards.exceptBind
  refine (guards_recoverMarkers migrated distinct ?_ ?_).mono ?_
  · intro path member
    obtain ⟨inside, there⟩ := (listed path).mp member
    cases path with
    | active id => exact ⟨id, (migrated.shows.active id).mp there, rfl⟩
    | _ => cases inside
  · intro id job present active
    refine (listed _).mpr ⟨rfl, (migrated.shows.active id).mpr ?_⟩
    have marked := (migrated.sound.ready id job present).marked active
    rw [migrated.sound.named id job present] at marked
    exact marked
  · rintro _ final holds ⟨rfl, later, there, ceased⟩
    refine ⟨holds, rfl, later, there, ?_⟩
    intro id
    rw [Finmap.lookup_empty]
    cases present : later.record id with
    | none => rfl
    | some job => rw [Option.filter_some, if_neg (by simp [ceased id job present])]

end markers

end Jobs
end ModelKeep
