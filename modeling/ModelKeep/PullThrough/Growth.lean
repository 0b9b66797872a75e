import ModelKeep.Archive
import ModelKeep.ExtensionText

/-!
# Archives that grow

Whatever acquisitions do to an archive, a complete revision stays complete and
its manifest keeps what it lists, even when an extension fails.
-/

namespace ModelKeep

open Concurrency Program

namespace Extension

variable
  {sha256 : Bytes → String}
  {repoType : RepositoryType}
  {request : RevisionExtensionRequest}
  {sources : String → Except ArchiveError Bytes}
  {shared later : Shared Unit}
  {α β : Type}

/-! ## Extensions that fail -/

/-- The steps that do not put a replacement in place. -/
def Op.Sparing (op : Op) : Prop := op ≠ .renamePart

/-- Every step but the rename of a replacement leaves the manifest alone. -/
theorem manifest_of_only
    {program : Program interface α}
    {value : α}
    (only : Only Op.Sparing program)
    (run : Runs (Alone repoType sources) program shared value later) :
    later.revision.manifest = shared.revision.manifest := by
  have keeps : ∀ op before reply after, op.Sparing →
      Alone repoType sources op before reply after →
      before.revision.manifest = shared.revision.manifest →
      after.revision.manifest = shared.revision.manifest := by
    intro op before reply after other issued kept
    cases op with
    | renamePart => exact absurd rfl other
    | lock =>
        simp only [Alone, soloStep] at issued
        split at issued
        · cases issued
          exact kept
        · cases issued
          exact kept
    | createDirectory path =>
        simp only [Alone, soloStep] at issued
        split at issued
        · cases issued
          exact kept
        · cases issued
          exact kept
    | moveFile path content =>
        simp only [Alone, soloStep] at issued
        split at issued
        · cases issued
          exact kept
        · cases issued
          exact kept
    | _ =>
        cases issued
        exact kept
  exact Only.keeps keeps only run rfl

/-- A failure leaves the manifest alone. -/
def Spares (repoType : RepositoryType)
    (sources : String → Except ArchiveError Bytes) (action : Action α)
    (shared : Shared Unit) : Prop :=
  ∀ error later, Returns (Alone repoType sources) action shared (.error error)
    later → later.revision.manifest = shared.revision.manifest

theorem spares_of_only
    {action : Action α}
    (only : Only Op.Sparing action.run) :
    Spares repoType sources action shared :=
  fun _ _ run => manifest_of_only only run

theorem Spares.after
    {action : Action α}
    {rest : α → Action β}
    (only : Only Op.Sparing action.run)
    (spares : ∀ value middle, Spares repoType sources (rest value) middle) :
    Spares repoType sources (action >>= rest) shared := by
  intro error later run
  rcases returns_bind.mp run with
    ⟨_, _, failed⟩ | ⟨value, middle, first, second⟩
  · exact manifest_of_only only failed
  · rw [spares value middle error later second]
    exact manifest_of_only only first

theorem only_readExtendable :
    Only Op.Sparing (readExtendableManifest request).run :=
  Only.exceptBind (only_step nofun) fun _ => only_outcome

theorem only_of_textless
    {program : Program interface α}
    (only : Only Op.Textless program) :
    Only Op.Sparing program := by
  refine only.mono ?_
  rintro op textless rfl
  exact textless

/-- On its own a replacement cannot fail. -/
theorem spares_replaceManifest
    {replacement : Manifest}
    {rest : Unit → Action α}
    (spares : ∀ middle error later, ¬Returns (Alone repoType sources) (rest ())
      middle (.error error) later) :
    Spares repoType sources (replaceRevisionManifest replacement >>= rest)
      shared := by
  intro error later run
  rcases returns_bind.mp run with
    ⟨_, _, failed⟩ | ⟨_, middle, _, second⟩
  · cases runs_step.mp failed
  · exact absurd second (spares middle error later)

theorem spares_extendUnderLock
    {staged : List Staged}
    {skipped : List String} :
    Spares repoType sources
      (extendUnderLock sha256 repoType request staged skipped) shared := by
  unfold extendUnderLock
  refine Spares.after only_readExtendable fun manifest middle => ?_
  refine Spares.after (only_of_textless only_placeStaged) fun placed now => ?_
  split
  · exact spares_of_only only_outcome
  · refine Spares.after (only_of_textless only_syncDirectories) fun _ _ => ?_
    refine Spares.after (only_step nofun) fun _ _ => ?_
    refine spares_replaceManifest fun _ _ _ failed => ?_
    cases (returns_check.mp failed).1

theorem spares_extendRevision :
    Spares repoType sources (extendRevision sha256 repoType request)
      shared := by
  unfold extendRevision
  refine Spares.after only_outcome fun _ _ => ?_
  refine Spares.after only_outcome fun _ _ => ?_
  refine Spares.after (only_step nofun) fun isDir _ => ?_
  split
  · exact spares_of_only only_outcome
  · refine Spares.after only_readExtendable fun manifest _ => ?_
    refine Spares.after only_outcome fun sorted _ => ?_
    split
    · exact spares_of_only only_outcome
    · refine Spares.after (only_step nofun) fun _ _ => ?_
      refine Spares.after (only_step nofun) fun _ _ => ?_
      refine Spares.after (only_of_textless only_stageExtensionFiles)
        fun staged _ => ?_
      refine Spares.after (only_step nofun) fun _ start => ?_
      intro error later run
      obtain ⟨outcome, middle, held, last⟩ := (runs_bind ..).mp run
      obtain ⟨_, _, unlocked, same, rfl⟩ := last
      cases same
      cases unlocked
      exact spares_extendUnderLock error middle held

/-- An extension that fails leaves the manifest as it was. -/
theorem extendAlone_manifest
    {error : ArchiveError}
    {before after : RevisionDir}
    (failed : extendAlone sha256 repoType request sources before =
      (.error error, after)) :
    after.manifest = before.manifest := by
  obtain ⟨outcome, rfl⟩ := Prod.mk.inj failed
  have run : Returns (Alone repoType sources)
      (extendRevision sha256 repoType request) (.still before) (.error error)
      ((extendRevision sha256 repoType request).run.run
        (soloStep repoType sources ()) (.still before)).2 :=
    runs_step.mpr (Prod.ext outcome rfl)
  exact spares_extendRevision error _ run

/-- No extension touches the record of the upstream files. -/
theorem extendAlone_upstreamFiles
    {before : RevisionDir} :
    (extendAlone sha256 repoType request sources before).2.upstreamFiles =
      before.upstreamFiles := by
  have keeps : ∀ (op : Op) (shared : Shared Unit),
      shared.revision.upstreamFiles = before.upstreamFiles →
        (soloStep repoType sources () op
          shared).2.revision.upstreamFiles = before.upstreamFiles := by
    intro op shared kept
    cases op with
    | createDirectory path =>
        unfold soloStep
        dsimp only
        split <;> exact kept
    | moveFile path content =>
        unfold soloStep
        dsimp only
        split <;> exact kept
    | renamePart =>
        unfold soloStep Shared.swap
        dsimp only
        split <;> exact kept
    | lock =>
        unfold soloStep
        dsimp only
        split <;> exact kept
    | _ => exact kept
  exact @run_keeps _ _ _ (soloStep repoType sources ())
    (fun shared => shared.revision.upstreamFiles = before.upstreamFiles) keeps
    (extendRevision sha256 repoType request).run (.still before) rfl

end Extension

namespace Archive

variable
  {sha256 : Bytes → String}
  {repository : Repository}
  {before middle after : Archive}
  {commit : String}

/-! ## Growth -/

/-- The live manifest of a complete revision lists the path. -/
def Listed (archive : Archive) (repository : Repository)
    (commit path : String) : Prop :=
  archive.Complete repository commit ∧ archive.Lists repository commit path

/-- The ref names a complete revision. -/
def Names (archive : Archive) (repository : Repository)
    (reference : String) : Prop :=
  ∃ commit, archive.resolveRef repository reference = .ok commit ∧
    archive.Complete repository commit

/-- Complete revisions stay and keep what they list; a ref that names one
names one. -/
structure Grows (repository : Repository) (before after : Archive) :
    Prop where
  complete : ∀ commit, before.Complete repository commit →
    after.Complete repository commit
  listed : ∀ commit path, before.Listed repository commit path →
    after.Listed repository commit path
  named : ∀ reference, before.Names repository reference →
    after.Names repository reference

theorem Grows.refl (repository : Repository) (archive : Archive) :
    Grows repository archive archive :=
  ⟨fun _ => id, fun _ _ => id, fun _ => id⟩

theorem Grows.trans
    (earlier : Grows repository before middle)
    (later : Grows repository middle after) :
    Grows repository before after where
  complete := fun commit complete =>
    later.complete commit (earlier.complete commit complete)
  listed := fun commit path listed =>
    later.listed commit path (earlier.listed commit path listed)
  named := fun reference named =>
    later.named reference (earlier.named reference named)

/-- The revision is complete, under this manifest. -/
def Complies (repository : Repository) (revision : RevisionDir)
    (manifest : Manifest) : Prop :=
  revision.manifest = .decoded manifest ∧
    manifest.repoType = repository.repoType ∧ manifest.complete = true

theorem complete_iff_complies :
    before.Complete repository commit ↔
      (∃ parts, validateRepoId repository.repoId = .ok parts) ∧
        validateRevision commit = .ok () ∧
        ∃ revision manifest,
          before.revision repository commit = some revision ∧
            Complies repository revision manifest := by
  rw [complete_iff]
  simp only [RevisionDir.readManifestFor_eq_ok, Complies, and_assoc]

theorem listed_iff
    {path : String} :
    before.Listed repository commit path ↔
      (∃ parts, validateRepoId repository.repoId = .ok parts) ∧
        validateRevision commit = .ok () ∧
        ∃ revision manifest,
          before.revision repository commit = some revision ∧
            Complies repository revision manifest ∧
            path ∈ manifest.paths := by
  unfold Listed
  rw [complete_iff_complies]
  constructor
  · rintro ⟨⟨repo, valid, revision, manifest, stands, complies⟩, paths, read,
      member⟩
    obtain ⟨_, _, other, manifestToo, standsToo, decoded, rfl⟩ :=
      manifestPaths_eq_ok.mp read
    rw [stands] at standsToo
    cases standsToo
    rw [complies.1] at decoded
    cases decoded
    exact ⟨repo, valid, revision, manifest, stands, complies, member⟩
  · rintro ⟨repo, valid, revision, manifest, stands, complies, member⟩
    exact ⟨⟨repo, valid, revision, manifest, stands, complies⟩,
      manifest.paths, manifestPaths_eq_ok.mpr
        ⟨repo, valid, revision, manifest, stands, complies.1, rfl⟩, member⟩

/-- Where revisions grow and refs are kept, the archive grows. -/
theorem grows_of_revisions
    (references : after.reference = before.reference)
    (revisions : ∀ commit revision manifest,
      before.revision repository commit = some revision →
      Complies repository revision manifest →
      ∃ later larger, after.revision repository commit = some later ∧
        Complies repository later larger ∧ manifest.paths ⊆ larger.paths) :
    Grows repository before after := by
  have complete : ∀ commit, before.Complete repository commit →
      after.Complete repository commit := by
    intro commit complete
    obtain ⟨repo, valid, revision, manifest, stands, complies⟩ :=
      complete_iff_complies.mp complete
    obtain ⟨later, larger, standsLater, compliesLater, _⟩ :=
      revisions commit revision manifest stands complies
    exact complete_iff_complies.mpr
      ⟨repo, valid, later, larger, standsLater, compliesLater⟩
  refine ⟨complete, ?_, ?_⟩
  · intro commit path listed
    obtain ⟨repo, valid, revision, manifest, stands, complies, member⟩ :=
      listed_iff.mp listed
    obtain ⟨later, larger, standsLater, compliesLater, more⟩ :=
      revisions commit revision manifest stands complies
    exact listed_iff.mpr
      ⟨repo, valid, later, larger, standsLater, compliesLater, more member⟩
  · rintro reference ⟨commit, resolved, known⟩
    exact ⟨commit, by rw [resolveRef_congr references, resolved],
      complete commit known⟩

theorem grows_publish
    {request : SourcePublishRequest}
    {staging : Option StagingDir}
    {outcome : Except ArchiveError Unit}
    {fate : StagingFate}
    (published : before.publish sha256 repository request staging =
      (outcome, after, fate)) :
    Grows repository before after := by
  cases outcome with
  | error error =>
      rw [publish_eq_error published]
      exact Grows.refl repository before
  | ok =>
      obtain ⟨_, _, _, absent, _, _, _, _, references, revisions⟩ :=
        publish_eq_ok published
      refine grows_of_revisions references ?_
      intro commit revision manifest stands complies
      refine ⟨revision, manifest, ?_, complies, List.Subset.refl _⟩
      rw [revisions, if_neg]
      · exact stands
      · rintro ⟨_, rfl⟩
        rw [absent] at stands
        cases stands

/-- What was published is listed. -/
theorem listed_publish
    {request : SourcePublishRequest}
    {staging : Option StagingDir}
    {fate : StagingFate}
    (published : before.publish sha256 repository request staging =
      (.ok (), after, fate)) :
    after.Complete repository request.commit ∧
      ∀ path ∈ request.files, after.Listed repository request.commit path := by
  obtain ⟨repo, valid, _, _, _, entries, _, made, _, revisions⟩ :=
    publish_eq_ok published
  have stands := revisions repository request.commit
  rw [if_pos ⟨rfl, rfl⟩] at stands
  refine ⟨complete_iff_complies.mpr
    ⟨repo, valid, _, _, stands, rfl, rfl, rfl⟩, ?_⟩
  intro path member
  refine listed_iff.mpr ⟨repo, valid, _, _, stands, ⟨rfl, rfl, rfl⟩, ?_⟩
  rw [Manifest.paths, (sourceEntries_eq_ok made).1]
  exact member

theorem grows_extend
    {files : List String}
    {staging : Option StagingDir}
    {outcome : Except ArchiveError RevisionExtension}
    (extended : before.extend sha256 repository commit files staging =
      (outcome, after)) :
    Grows repository before after := by
  refine grows_of_revisions (extend_reference extended) ?_
  intro other revision manifest stands complies
  cases outcome with
  | ok extension =>
      obtain ⟨_, _, _, found, larger, known, moved, standsToo, revisions, _,
        spec⟩ := extend_eq_ok extended
      rw [revisions]
      split
      · next same =>
          rw [same.2, standsToo] at stands
          cases stands
          obtain ⟨decoded, _⟩ := complies
          rw [spec.read] at decoded
          cases decoded
          obtain ⟨live, read, typed, complete, paths⟩ := spec.readManifest
          refine ⟨larger, live, rfl, ⟨read, typed, complete⟩, ?_⟩
          rw [paths]
          exact List.subset_append_left ..
      · exact ⟨revision, manifest, stands, complies, List.Subset.refl _⟩
  | error error =>
      unfold extend at extended
      split at extended
      · cases extended
        exact ⟨revision, manifest, stands, complies, List.Subset.refl _⟩
      · split at extended
        · cases extended
          exact ⟨revision, manifest, stands, complies, List.Subset.refl _⟩
        · next found standsToo =>
            dsimp only at extended
            obtain ⟨failed, rfl⟩ := Prod.mk.inj extended
            have kept := Extension.extendAlone_manifest
              (Prod.ext failed rfl)
            unfold setRevision
            dsimp only
            split
            · next same =>
                rw [same.2, standsToo] at stands
                cases stands
                exact ⟨_, manifest, rfl, ⟨kept.trans complies.1, complies.2⟩,
                  List.Subset.refl _⟩
            · exact ⟨revision, manifest, stands, complies,
                List.Subset.refl _⟩

/-- What a revision was extended by is listed. -/
theorem listed_extend
    {files : List String}
    {staging : Option StagingDir}
    {extension : RevisionExtension}
    (extended : before.extend sha256 repository commit files staging =
      (.ok extension, after)) :
    after.Complete repository commit ∧
      ∀ path ∈ files, after.Listed repository commit path := by
  obtain ⟨repo, valid, _, _, larger, manifest, moved, _, revisions, _, spec⟩ :=
    extend_eq_ok extended
  have stands := revisions repository commit
  rw [if_pos ⟨rfl, rfl⟩] at stands
  obtain ⟨live, read, typed, complete, paths⟩ := spec.readManifest
  refine ⟨complete_iff_complies.mpr
    ⟨repo, valid, _, _, stands, read, typed, complete⟩, ?_⟩
  intro path member
  refine listed_iff.mpr
    ⟨repo, valid, _, _, stands, ⟨read, typed, complete⟩, ?_⟩
  rw [paths, spec.paths]
  by_cases known : path ∈ manifest.paths
  · exact List.mem_append_left _ known
  · exact List.mem_append_right _ (List.mem_filter.mpr ⟨member, by simpa⟩)

theorem grows_record
    {files : List String}
    {outcome : Except ArchiveError Bool}
    (recorded : before.recordUpstreamFiles repository commit files =
      (outcome, after)) :
    Grows repository before after := by
  obtain ⟨references, same⟩ := sameContent_record recorded
  refine grows_of_revisions references ?_
  intro commit revision manifest stands complies
  obtain ⟨other, standsToo, sameManifest, _⟩ := same.of_revision stands
  exact ⟨other, manifest, standsToo, ⟨sameManifest.trans complies.1,
    complies.2⟩, List.Subset.refl _⟩

/-- A ref is moved to a complete revision. -/
theorem grows_updateRef
    {reference : String}
    {outcome : Except ArchiveError Unit}
    (complete : before.Complete repository commit)
    (updated : before.updateRef repository reference commit =
      (outcome, after)) :
    Grows repository before after := by
  have same := sameContent_updateRef updated
  have completes : ∀ commit, before.Complete repository commit →
      after.Complete repository commit := by
    intro commit complete
    obtain ⟨repo, valid, revision, manifest, stands, complies⟩ :=
      complete_iff_complies.mp complete
    obtain ⟨other, standsToo, sameManifest, _⟩ := same.of_revision stands
    exact complete_iff_complies.mpr ⟨repo, valid, other, manifest, standsToo,
      sameManifest.trans complies.1, complies.2⟩
  refine ⟨completes, fun commit path listed =>
    ⟨completes commit listed.1, same.lists_iff.mpr listed.2⟩, ?_⟩
  rintro other ⟨target, resolved, known⟩
  by_cases here : other = reference
  · subst here
    cases outcome with
    | error error =>
        rw [updateRef_eq_error updated]
        exact ⟨target, resolved, known⟩
    | ok =>
        exact ⟨commit, resolveRef_updateRef updated,
          completes commit complete⟩
  · refine ⟨target, ?_, completes target known⟩
    rw [resolveRef_updateRef_of_ne updated fun both => here both.2]
    exact resolved

/-! ## Records -/

/-- Every record of a commit lists what this tells of it. -/
def Records (archive : Archive) (repository : Repository)
    (tells : String → String → Prop) : Prop :=
  ∀ commit recorded,
    archive.upstreamFiles repository commit = .ok (some recorded) →
      ∀ path ∈ recorded, tells commit path

theorem upstreamFiles_eq_ok
    {recorded : List String} :
    before.upstreamFiles repository commit = .ok (some recorded) ↔
      (∃ parts, validateRepoId repository.repoId = .ok parts) ∧
        validateRevision commit = .ok () ∧
        ∃ revision record,
          before.revision repository commit = some revision ∧
            revision.upstreamFiles = .decoded record ∧
            record.repoType = repository.repoType ∧
            record.commit = commit ∧ recorded = sanitized record.files := by
  unfold upstreamFiles
  rw [bind_eq_ok]
  constructor
  · rintro ⟨found, placed, read⟩
    obtain ⟨repo, valid, rfl⟩ := revisionDir_eq_ok.mp placed
    split at read
    · cases read
    · next revision stands =>
        split at read
        · cases read
        · cases read
        · next record decoded =>
            split at read
            · cases read
            · next located =>
                obtain ⟨typed, named⟩ := not_or.mp located
                cases read
                exact ⟨repo, valid, revision, record, stands, decoded,
                  not_not.mp typed, not_not.mp named, rfl⟩
  · rintro ⟨repo, valid, revision, record, stands, decoded, typed, named,
      rfl⟩
    refine ⟨some revision, revisionDir_eq_ok.mpr ⟨repo, valid, stands⟩, ?_⟩
    simp only [decoded]
    rw [if_neg]
    · rfl
    · exact fun other => other.elim (· typed) (· named)

variable {tells : String → String → Prop}

/-- Where records are kept, they stay true. -/
theorem Records.of_revisions
    (records : before.Records repository tells)
    (revisions : ∀ commit revision record,
      after.revision repository commit = some revision →
      revision.upstreamFiles = .decoded record →
      ∃ earlier, before.revision repository commit = some earlier ∧
        earlier.upstreamFiles = .decoded record) :
    after.Records repository tells := by
  intro commit recorded read
  obtain ⟨repo, valid, revision, record, stands, decoded, located⟩ :=
    upstreamFiles_eq_ok.mp read
  obtain ⟨earlier, standsToo, decodedToo⟩ :=
    revisions commit revision record stands decoded
  exact records commit recorded (upstreamFiles_eq_ok.mpr
    ⟨repo, valid, earlier, record, standsToo, decodedToo, located⟩)

theorem records_publish
    {request : SourcePublishRequest}
    {staging : Option StagingDir}
    {outcome : Except ArchiveError Unit}
    {fate : StagingFate}
    (records : before.Records repository tells)
    (published : before.publish sha256 repository request staging =
      (outcome, after, fate)) :
    after.Records repository tells := by
  cases outcome with
  | error error =>
      rw [publish_eq_error published]
      exact records
  | ok =>
      obtain ⟨_, _, _, _, _, _, _, _, _, revisions⟩ := publish_eq_ok published
      refine records.of_revisions ?_
      intro commit revision record stands decoded
      rw [revisions] at stands
      split at stands
      · cases stands
        cases decoded
      · exact ⟨revision, stands, decoded⟩

theorem records_extend
    {files : List String}
    {staging : Option StagingDir}
    {outcome : Except ArchiveError RevisionExtension}
    (records : before.Records repository tells)
    (extended : before.extend sha256 repository commit files staging =
      (outcome, after)) :
    after.Records repository tells := by
  refine records.of_revisions ?_
  intro other revision record stands decoded
  unfold extend at extended
  split at extended
  · cases extended
    exact ⟨revision, stands, decoded⟩
  · split at extended
    · cases extended
      exact ⟨revision, stands, decoded⟩
    · next found standsToo =>
        dsimp only at extended
        obtain ⟨_, rfl⟩ := Prod.mk.inj extended
        unfold setRevision at stands
        dsimp only at stands
        split at stands
        · next same =>
            cases stands
            rw [same.2]
            rw [Extension.extendAlone_upstreamFiles] at decoded
            exact ⟨found, standsToo, decoded⟩
        · exact ⟨revision, stands, decoded⟩

theorem records_record
    {files : List String}
    {outcome : Except ArchiveError Bool}
    (records : before.Records repository tells)
    (told : ∀ path ∈ files, tells commit path)
    (recorded : before.recordUpstreamFiles repository commit files =
      (outcome, after)) :
    after.Records repository tells := by
  unfold recordUpstreamFiles at recorded
  split at recorded
  · cases recorded
    exact records
  · split at recorded
    · cases recorded
      exact records
    · next revision stands =>
        dsimp only at recorded
        split at recorded
        · cases recorded
          intro other listed read path member
          obtain ⟨repo, valid, found, record, standsToo, decoded, typed,
            named, rfl⟩ := upstreamFiles_eq_ok.mp read
          unfold setRevision at standsToo
          dsimp only at standsToo
          split at standsToo
          · next same =>
              cases standsToo
              cases decoded
              rw [same.2]
              exact told path
                (List.mem_filter.mp (List.mem_filter.mp member).1).1
          · exact records other _ (upstreamFiles_eq_ok.mpr ⟨repo, valid,
              found, record, standsToo, decoded, typed, named, rfl⟩) path
              member
        · cases recorded
          exact records

theorem records_updateRef
    {reference : String}
    {outcome : Except ArchiveError Unit}
    (records : before.Records repository tells)
    (updated : before.updateRef repository reference commit =
      (outcome, after)) :
    after.Records repository tells := by
  cases outcome with
  | error error =>
      rw [updateRef_eq_error updated]
      exact records
  | ok =>
      obtain ⟨_, _, _, same, _⟩ := updateRef_eq_ok updated
      refine records.of_revisions ?_
      intro commit revision record stands decoded
      rw [same] at stands
      exact ⟨revision, stands, decoded⟩

end Archive
end ModelKeep
