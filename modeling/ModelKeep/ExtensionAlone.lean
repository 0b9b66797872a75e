import ModelKeep.Extension

/-!
# An extension on its own

What `extend_revision_from_directory` leaves when nothing else touches the
revision.  Nothing is assumed about the revision: the manifest may list files
that are not there, and the tree may hold files that are not listed.
-/

namespace ModelKeep
namespace Extension

open Concurrency Program

variable
  {sha256 : Bytes → String}
  {repoType : RepositoryType}
  {request : RevisionExtensionRequest}
  {sources : String → Except ArchiveError Bytes}
  {shared : Shared Unit}

/-- The steps of the only call. -/
abbrev Alone (repoType : RepositoryType)
    (sources : String → Except ArchiveError Bytes) :
    Semantics interface (Shared Unit) :=
  fun op before reply after =>
    soloStep repoType sources () op before = (reply, after)

theorem achieves_outcome
    {α : Type}
    {outcome : Except ArchiveError α}
    {post : α → Shared Unit → Prop}
    (holds : ∀ value, outcome = .ok value → post value shared) :
    Achieves (Alone repoType sources) (Extension.check outcome) post shared :=
  achieves_check.mpr holds

/-- The step of an operation that may fail. -/
theorem achieves_step
    {α : Type}
    {program : Program interface (Except ArchiveError α)}
    {post : α → Shared Unit → Prop}
    (answers : ∀ value after,
      program.run (soloStep repoType sources ()) shared = (.ok value, after) →
        post value after) :
    Achieves (Alone repoType sources) (Extension.attempt program) post
      shared :=
  fun value after run => answers value after (runs_step.mp run)

/-- A tree with files that were placed in it: everything else is as it was,
except for directories that were made. -/
structure Filled (before after : FileTree Bytes) (moved : List Staged) :
    Prop where
  stands : ∀ file ∈ moved, ∃ content,
    after.lookup file.place = some (.file content)
  other : ∀ place, (∀ file ∈ moved, file.place ≠ place) →
    ∀ content, after.lookup place = some (.file content) ↔
      before.lookup place = some (.file content)

theorem Filled.refl (tree : FileTree Bytes) : Filled tree tree [] :=
  ⟨by simp, by simp⟩

/-- Directories do not count. -/
theorem Filled.makeDirectory
    {before middle after : FileTree Bytes}
    {moved : List Staged}
    {path : List String}
    (filled : Filled before middle moved)
    (made : middle.makeDirectory path = some after) :
    Filled before after moved := by
  have files : ∀ place content,
      after.lookup place = some (.file content) ↔
        middle.lookup place = some (.file content) := by
    intro place content
    rcases FileTree.lookup_makeDirectory made place with
      same | ⟨_, absent, added⟩
    · rw [same]
    · rw [absent, added]
      simp
  refine ⟨?_, ?_⟩
  · intro file member
    obtain ⟨content, stands⟩ := filled.stands file member
    exact ⟨content, (files _ _).mpr stands⟩
  · intro place elsewhere content
    rw [files, filled.other place elsewhere]

theorem Filled.placeFile
    {before middle after : FileTree Bytes}
    {moved : List Staged}
    (filled : Filled before middle moved)
    (file : Staged)
    (placed : middle.placeFile file.place file.content = some after) :
    Filled before after (moved ++ [file]) := by
  have looked := FileTree.lookup_placeFile placed
  refine ⟨?_, ?_⟩
  · intro other member
    rw [looked]
    split
    · exact ⟨_, rfl⟩
    · rcases List.mem_append.mp member with older | new
      · exact filled.stands other older
      · rw [List.mem_singleton] at new
        subst new
        exact absurd rfl ‹_›
  · intro place elsewhere content
    rw [looked, if_neg, filled.other place]
    · exact fun other member =>
        elsewhere other (List.mem_append_left _ member)
    · exact fun same =>
        elsewhere file (List.mem_append_right _ (by simp)) same.symm

/-- The manifest of the revision is this one and its tree was filled with
these files; everything else about the calls is as it was. -/
structure Filling (start : Shared Unit) (manifest : Manifest)
    (moved : List Staged) (shared : Shared Unit) : Prop where
  manifest : shared.revision.manifest = .decoded manifest
  upstreamFiles : shared.revision.upstreamFiles = start.revision.upstreamFiles
  filled : Filled start.revision.tree shared.revision.tree moved

theorem achieves_createDirectories
    {start : Shared Unit}
    {manifest : Manifest}
    {moved : List Staged}
    {paths : List (List String)}
    (filling : Filling start manifest moved shared) :
    Achieves (Alone repoType sources) (createDirectories paths)
      (fun _ later => Filling start manifest moved later) shared := by
  induction paths generalizing shared with
  | nil => exact achieves_outcome fun _ _ => filling
  | cons path rest inductionHypothesis =>
      unfold createDirectories
      refine achieves_bind.mpr (achieves_step ?_)
      intro value after answered
      simp only [Extension.perform, Program.run, soloStep] at answered
      split at answered
      · next tree made =>
          cases answered
          exact inductionHypothesis ⟨filling.manifest, filling.upstreamFiles,
            filling.filled.makeDirectory made⟩
      · cases answered

/-- The loop under the lock moves every staged file that is not listed. -/
theorem achieves_placeStaged
    {start : Shared Unit}
    {manifest : Manifest}
    {files : List Staged}
    {placed : Placed}
    (filling : Filling start manifest placed.added shared) :
    Achieves (Alone repoType sources)
      (placeStaged manifest.paths files placed)
      (fun result later => Filling start manifest result.added later ∧
        result.added = placed.added ++
          files.filter fun file => file.path ∉ manifest.paths) shared := by
  induction files generalizing shared placed with
  | nil =>
      refine achieves_outcome ?_
      rintro _ ⟨⟩
      exact ⟨filling, by simp⟩
  | cons file rest inductionHypothesis =>
      unfold placeStaged
      split
      · next listed =>
          rw [List.filter_cons_of_neg (by simpa using listed)]
          exact inductionHypothesis filling
      · next unlisted =>
          rw [List.filter_cons_of_pos (by simpa using unlisted)]
          refine achieves_bind.mpr
            ((achieves_createDirectories filling).mono ?_)
          intro _ middle made
          refine achieves_bind.mpr (achieves_step ?_)
          intro _ after answered
          simp only [Extension.perform, Program.run, soloStep] at answered
          split at answered
          · next tree moved =>
              cases answered
              refine Achieves.mono (inductionHypothesis ?_) ?_
              · exact ⟨made.manifest, made.upstreamFiles,
                  made.filled.placeFile file moved⟩
              · rintro result later ⟨filled, added⟩
                exact ⟨filled, by rw [added, List.append_assoc]; rfl⟩
          · cases answered

/-- What a staged file is known to be. -/
structure Sourced (sources : String → Except ArchiveError Bytes)
    (file : Staged) : Prop where
  valid : validateRelativeFilePath file.path = .ok ()
  content : sources file.path = .ok file.content
  place : filePlace file.path = some file.place

theorem achieves_stage
    {paths : List String}
    {staging : FileTree Bytes}
    {staged : List Staged}
    (sourced : ∀ file ∈ staged, Sourced sources file) :
    Achieves (Alone repoType sources)
      (stageExtensionFiles paths staging staged)
      (fun result later => later = shared ∧
        result.map Staged.path = staged.map Staged.path ++ paths ∧
        ∀ file ∈ result, Sourced sources file) shared := by
  induction paths generalizing staging staged with
  | nil =>
      refine achieves_outcome ?_
      rintro _ ⟨⟩
      exact ⟨rfl, by simp, sourced⟩
  | cons path rest inductionHypothesis =>
      unfold stageExtensionFiles
      refine achieves_bind.mpr (achieves_outcome ?_)
      intro _ valid
      refine achieves_bind.mpr (achieves_step ?_)
      intro content after answered
      simp only [Extension.perform, Program.run, soloStep, Prod.mk.injEq]
        at answered
      obtain ⟨content, rfl⟩ := answered
      refine achieves_bind.mpr (achieves_outcome ?_)
      intro place leads
      refine achieves_bind.mpr (achieves_outcome ?_)
      intro grown _
      have place : filePlace path = some place := by
        unfold placeOf at leads
        split at leads
        · cases leads
        · cases leads
          assumption
      refine (inductionHypothesis ?_).mono ?_
      · intro file member
        rcases List.mem_append.mp member with older | new
        · exact sourced file older
        · rw [List.mem_singleton] at new
          subst new
          exact ⟨valid, content, place⟩
      · rintro result later ⟨same, paths, all⟩
        exact ⟨same, by simpa using paths, all⟩

/-- The first pass keeps the paths that are not listed. -/
theorem classify_candidates
    {listed files : List String}
    {sorted result : Classified}
    (done : classify listed files sorted = .ok result) :
    result.candidates = sorted.candidates ++
      files.filter fun path => path ∉ listed := by
  induction files generalizing sorted with
  | nil =>
      cases done
      simp
  | cons path rest inductionHypothesis =>
      rw [classify] at done
      obtain ⟨_, _, done⟩ := bind_eq_ok.mp done
      split at done
      · cases done
      · split at done
        · next isListed =>
            rw [inductionHypothesis done,
              List.filter_cons_of_neg (by simpa using isListed)]
        · next unlisted =>
            rw [inductionHypothesis done,
              List.filter_cons_of_pos (by simpa using unlisted),
              List.append_assoc]
            rfl

theorem achieves_readExtendable :
    Achieves (Alone repoType sources) (readExtendableManifest request)
      (fun manifest later => later = shared ∧
        shared.revision.manifest = .decoded manifest ∧
        manifest.repoType = repoType ∧ manifest.complete = true) shared := by
  unfold readExtendableManifest
  refine achieves_bind.mpr (achieves_step ?_)
  intro manifest after answered
  simp only [Extension.perform, Program.run, soloStep, Prod.mk.injEq]
    at answered
  obtain ⟨read, rfl⟩ := answered
  obtain ⟨decoded, typed⟩ := RevisionDir.readManifestFor_eq_ok.mp read
  refine achieves_outcome ?_
  intro same extendable
  unfold ensureExtendable at extendable
  split at extendable
  · cases extendable
  · next complete =>
      split at extendable
      · cases extendable
      · cases extendable
        exact ⟨rfl, decoded, typed, by simpa using complete⟩

theorem achieves_syncDirectories
    {paths : List (List String)} :
    Achieves (Alone repoType sources) (syncDirectories paths)
      (fun _ later => later = shared) shared := by
  induction paths with
  | nil => exact achieves_outcome fun _ _ => rfl
  | cons path rest inductionHypothesis =>
      unfold syncDirectories
      refine achieves_bind.mpr (achieves_step ?_)
      rintro value after ⟨⟩
      exact inductionHypothesis

/-- The replacement is live. -/
theorem achieves_replaceManifest
    {replacement : Manifest} :
    Achieves (Alone repoType sources) (replaceRevisionManifest replacement)
      (fun _ later => later.revision =
        { shared.revision with manifest := .decoded replacement }) shared := by
  unfold replaceRevisionManifest
  refine achieves_step ?_
  rintro value after ⟨⟩
  simp [soloStep, Shared.swap, Shared.setPart]

/-- What an extension does to a revision. -/
structure ExtendedBy
    (sha256 : Bytes → String)
    (repoType : RepositoryType)
    (request : RevisionExtensionRequest)
    (sources : String → Except ArchiveError Bytes)
    (before after : RevisionDir)
    (manifest : Manifest)
    (moved : List Staged) :
    Prop where
  read : before.manifest = .decoded manifest
  typed : manifest.repoType = repoType
  complete : manifest.complete = true
  sourced : ∀ file ∈ moved, Sourced sources file
  paths : moved.map Staged.path =
    request.files.filter fun path => path ∉ manifest.paths
  unchanged : moved = [] → after = before
  manifest : moved ≠ [] → after.manifest = .decoded
    (extendedManifest sha256 repoType request manifest moved)
  filled : Filled before.tree after.tree moved

/-- The added files and what they leave. -/
def Reports (extension : RevisionExtension) (moved : List Staged) : Prop :=
  extension.added = sortPaths (moved.map Staged.path)

theorem achieves_underLock
    {manifest : Manifest}
    {staged : List Staged}
    {skipped : List String}
    (read : shared.revision.manifest = .decoded manifest)
    (nonempty : staged ≠ [])
    (sourced : ∀ file ∈ staged, Sourced sources file)
    (paths : staged.map Staged.path =
      request.files.filter fun path => path ∉ manifest.paths) :
    Achieves (Alone repoType sources)
      (extendUnderLock sha256 repoType request staged skipped)
      (fun extension later => Reports extension staged ∧
        ExtendedBy sha256 repoType request sources shared.revision
          later.revision manifest staged) shared := by
  unfold extendUnderLock
  refine achieves_bind.mpr (achieves_readExtendable.mono ?_)
  rintro same _ ⟨rfl, decoded, typed, complete⟩
  rw [read] at decoded
  cases decoded
  have unlisted : (staged.filter fun file =>
      file.path ∉ manifest.paths) = staged := by
    apply List.filter_eq_self.mpr
    intro file member
    have inPaths : file.path ∈ staged.map Staged.path :=
      List.mem_map_of_mem member
    rw [paths, List.mem_filter] at inPaths
    exact inPaths.2
  refine achieves_bind.mpr ((achieves_placeStaged
    ⟨read, rfl, Filled.refl _⟩).mono ?_)
  rintro placed later ⟨filling, added⟩
  rw [unlisted, List.nil_append] at added
  rw [added] at filling
  split
  · next nothing => exact absurd (added.symm.trans nothing) nonempty
  · refine achieves_bind.mpr (achieves_syncDirectories.mono ?_)
    rintro _ _ rfl
    refine achieves_bind.mpr (achieves_step ?_)
    rintro _ _ ⟨⟩
    refine achieves_bind.mpr (achieves_replaceManifest.mono ?_)
    intro _ after swapped
    refine achieves_outcome ?_
    rintro _ ⟨⟩
    refine ⟨by rw [Reports, added], read, typed, complete, sourced, paths,
      fun nothing => absurd nothing nonempty, ?_, ?_⟩
    · intro _
      rw [swapped, added]
    · rw [swapped]
      exact filling.filled

/-- What the only call on a revision does when it succeeds. -/
theorem extendAlone_spec
    {extension : RevisionExtension}
    {before after : RevisionDir}
    (ended : extendAlone sha256 repoType request sources before =
      (.ok extension, after)) :
    ∃ manifest moved, Reports extension moved ∧
      ExtendedBy sha256 repoType request sources before after manifest
        moved := by
  have achieves : Achieves (Alone repoType sources)
      (extendRevision sha256 repoType request)
      (fun extension later => ∃ manifest moved, Reports extension moved ∧
        ExtendedBy sha256 repoType request sources before later.revision
          manifest moved) (.still before) := by
    unfold extendRevision
    refine achieves_bind.mpr (achieves_outcome ?_)
    intro _ _
    refine achieves_bind.mpr (achieves_outcome ?_)
    intro _ _
    refine achieves_bind.mpr (achieves_step ?_)
    rintro _ _ ⟨⟩
    rw [if_neg (by simp [soloStep])]
    refine achieves_bind.mpr (achieves_readExtendable.mono ?_)
    rintro manifest _ ⟨rfl, read, typed, complete⟩
    refine achieves_bind.mpr (achieves_outcome ?_)
    intro sorted classified
    have candidates := classify_candidates classified
    rw [List.nil_append] at candidates
    split
    · next nothing =>
        refine achieves_outcome ?_
        rintro _ ⟨⟩
        rw [nothing] at candidates
        exact ⟨manifest, [], rfl, read, typed, complete, by simp,
          candidates, fun _ => rfl, fun absurd => absurd.elim rfl,
          Filled.refl _⟩
    · next something =>
        refine achieves_bind.mpr (achieves_step ?_)
        rintro _ _ ⟨⟩
        refine achieves_bind.mpr (achieves_step ?_)
        rintro _ _ ⟨⟩
        refine achieves_bind.mpr ((achieves_stage (by simp)).mono ?_)
        rintro staged _ ⟨rfl, paths, sourced⟩
        rw [List.map_nil, List.nil_append] at paths
        refine achieves_bind.mpr (achieves_step ?_)
        rintro _ _ ⟨⟩
        have nonempty : staged ≠ [] := by
          rintro rfl
          exact something paths.symm
        intro extension final run
        obtain ⟨outcome, middle, extended, released⟩ := (runs_bind ..).mp run
        obtain ⟨_, _, answered, same, rfl⟩ := released
        cases same
        cases answered
        obtain ⟨reports, spec⟩ := achieves_underLock (by exact read)
          nonempty sourced (paths.trans candidates) _ _ extended
        exact ⟨manifest, staged, reports, spec⟩
  have run : Runs (Alone repoType sources)
      (extendRevision sha256 repoType request).run (.still before) _ _ :=
    runs_step.mpr rfl
  unfold extendAlone at ended
  rw [Prod.mk.injEq] at ended
  obtain ⟨succeeded, rfl⟩ := ended
  rw [succeeded] at run
  exact achieves _ _ run

/-- No extension makes a link, whether it succeeds or not. -/
theorem extendAlone_linkless
    {before : RevisionDir}
    (linkless : before.tree.Linkless) :
    (extendAlone sha256 repoType request sources before).2.tree.Linkless := by
  have keeps : ∀ (op : Op) (shared : Shared Unit),
      shared.revision.tree.Linkless →
        (soloStep repoType sources () op shared).2.revision.tree.Linkless := by
    intro op shared kept
    cases op with
    | createDirectory path =>
        unfold soloStep
        dsimp only
        split
        · next tree made => exact kept.makeDirectory made
        · exact kept
    | moveFile path content =>
        unfold soloStep
        dsimp only
        split
        · next tree placed => exact kept.placeFile placed
        · exact kept
    | renamePart =>
        unfold soloStep Shared.swap
        dsimp only
        split <;> exact kept
    | lock =>
        unfold soloStep
        dsimp only
        split <;> exact kept
    | _ => exact kept
  exact @run_keeps _ _ _ (soloStep repoType sources ())
    (fun shared => shared.revision.tree.Linkless) keeps
    (extendRevision sha256 repoType request).run (.still before) linkless

/-! ## What resolves afterwards -/

section resolves

variable
  {before after : RevisionDir}
  {manifest : Manifest}
  {moved : List Staged}

theorem ExtendedBy.readManifest
    (extended : ExtendedBy sha256 repoType request sources before after
      manifest moved) :
    ∃ live, after.manifest = .decoded live ∧ live.repoType = repoType ∧
      live.complete = true ∧
      live.paths = manifest.paths ++ moved.map Staged.path := by
  by_cases nothing : moved = []
  · rw [extended.unchanged nothing]
    refine ⟨manifest, extended.read, extended.typed, extended.complete, ?_⟩
    rw [nothing, List.map_nil, List.append_nil]
  · exact ⟨_, extended.manifest nothing, rfl, rfl,
      paths_extendedManifest ..⟩

/-- A path resolves after an extension when it did before or was added. -/
theorem ExtendedBy.resolves_iff
    {path : String}
    (extended : ExtendedBy sha256 repoType request sources before after
      manifest moved)
    (linkless : before.tree.Linkless)
    (linklessAfter : after.tree.Linkless)
    (files : ∀ file ∈ request.files, CanonicalPath file)
    (canonical : CanonicalPath path) :
    (∃ resolved, after.resolveFile repoType path = .ok resolved) ↔
      (∃ resolved, before.resolveFile repoType path = .ok resolved) ∨
        path ∈ request.files ∧ path ∉ manifest.paths := by
  obtain ⟨live, read, typed, complete, paths⟩ := extended.readManifest
  have wasMoved : ∀ file ∈ moved, CanonicalPath file.path ∧
      file.place = splitPath file.path ∧ file.path ∈ request.files ∧
      file.path ∉ manifest.paths := by
    intro file member
    have inPaths := List.mem_map_of_mem (f := Staged.path) member
    rw [extended.paths, List.mem_filter, decide_eq_true_eq] at inPaths
    have fileCanonical := files file.path inPaths.1
    have place := (extended.sourced file member).place
    rw [fileCanonical.filePlace_eq] at place
    exact ⟨fileCanonical, (Option.some.inj place).symm, inPaths⟩
  rw [RevisionDir.resolves_iff linklessAfter canonical,
    RevisionDir.resolves_iff linkless canonical]
  constructor
  · rintro ⟨other, content, readToo, _, listed, stands⟩
    obtain ⟨decoded, _⟩ := RevisionDir.readManifestFor_eq_ok.mp readToo
    rw [read] at decoded
    cases decoded
    rw [paths, List.mem_append] at listed
    by_cases wasListed : path ∈ manifest.paths
    · left
      refine ⟨manifest, content, RevisionDir.readManifestFor_eq_ok.mpr
        ⟨extended.read, extended.typed⟩, extended.complete, wasListed, ?_⟩
      rw [← extended.filled.other]
      · exact stands
      · -- A moved file at this place would be this path, which is listed.
        intro file member same
        obtain ⟨_, place, _, unlisted⟩ := wasMoved file member
        rw [place] at same
        rw [splitPath_injective same] at unlisted
        exact unlisted wasListed
    · right
      rcases listed with older | added
      · exact absurd older wasListed
      · rw [extended.paths, List.mem_filter, decide_eq_true_eq] at added
        exact added
  · have readAfter := RevisionDir.readManifestFor_eq_ok.mpr ⟨read, typed⟩
    rintro (⟨other, content, readToo, _, listed, stands⟩ | ⟨asked, unlisted⟩)
    · obtain ⟨decoded, _⟩ := RevisionDir.readManifestFor_eq_ok.mp readToo
      rw [extended.read] at decoded
      cases decoded
      refine ⟨live, content, readAfter, complete, ?_, ?_⟩
      · rw [paths]
        exact List.mem_append_left _ listed
      · rw [extended.filled.other]
        · exact stands
        · intro file member same
          obtain ⟨_, place, _, notListed⟩ := wasMoved file member
          rw [place] at same
          rw [splitPath_injective same] at notListed
          exact notListed listed
    · have added : path ∈ moved.map Staged.path := by
        rw [extended.paths, List.mem_filter, decide_eq_true_eq]
        exact ⟨asked, unlisted⟩
      obtain ⟨file, member, rfl⟩ := List.mem_map.mp added
      obtain ⟨content, stands⟩ := extended.filled.stands file member
      rw [(wasMoved file member).2.1] at stands
      refine ⟨live, content, readAfter, complete, ?_, stands⟩
      rw [paths]
      exact List.mem_append_right _ added

end resolves

end Extension
end ModelKeep
