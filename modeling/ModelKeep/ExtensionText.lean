import ModelKeep.Concurrency.Crash
import ModelKeep.ExtensionAlone
import ModelKeep.ManifestText

/-!
# An extension that reads and writes text

The same call as in `ExtensionAlone`, on a revision whose manifest is the text
of a file: what it reads goes through the decoder, and what it writes is
spelled out.
-/

namespace ModelKeep

/-- A revision as it is on disk. -/
structure OnDisk where
  manifest : String
  upstreamFiles : Stored UpstreamFileList
  tree : FileTree Bytes

/-- What the readers take it for. -/
def OnDisk.revision (codec : ManifestCodec) (disk : OnDisk) : RevisionDir where
  manifest :=
    match codec.fromStr disk.manifest with
    | .ok manifest => .decoded manifest
    | .error message => .unreadable message
  upstreamFiles := disk.upstreamFiles
  tree := disk.tree

namespace Extension

open Concurrency Program

/-- What a call works on, with the text of the live manifest and that of the
replacement; no step looks at the manifests in `shared`. -/
structure Inscribed where
  shared : Shared Unit
  manifest : String
  part : String

/-- `read_manifest_for`, of a text. -/
def readText (codec : ManifestCodec) (repoType : RepositoryType)
    (text : String) : Except ArchiveError Manifest := do
  let manifest ← (codec.fromStr text).mapError .integrityMismatch
  RevisionDir.ensureManifestType repoType manifest
  return manifest

/-- The replies of the steps. -/
def textReply (codec : ManifestCodec) (repoType : RepositoryType)
    (sources : String → Except ArchiveError Bytes) :
    (op : Op) → Inscribed → op.Reply
  | .readManifest, now => readText codec repoType now.manifest
  | op, now => (soloStep repoType sources () op now.shared).1

/-- What the steps make of the texts. -/
def writeText (commit : String) (archivedAt : Nat) :
    Op → String × String → String × String
  | .createPart, (manifest, _) => (manifest, "")
  | .writePart replacement, (manifest, part) =>
      (manifest, part ++ manifestText commit archivedAt replacement)
  | .renamePart, (_, part) => (part, "")
  | _, texts => texts

/-- The steps of the only call, on a manifest in text. -/
def textStep (codec : ManifestCodec) (repoType : RepositoryType)
    (sources : String → Except ArchiveError Bytes) (commit : String)
    (archivedAt : Nat) (op : Op) (now : Inscribed) : op.Reply × Inscribed :=
  let texts := writeText commit archivedAt op (now.manifest, now.part)
  (textReply codec repoType sources op now,
    ⟨(soloStep repoType sources () op now.shared).2, texts.1, texts.2⟩)

/-- What one call returns, and what it leaves on disk. -/
def extendText
    (codec : ManifestCodec)
    (sha256 : Bytes → String)
    (repoType : RepositoryType)
    (request : RevisionExtensionRequest)
    (sources : String → Except ArchiveError Bytes)
    (archivedAt : Nat)
    (disk : OnDisk) :
    Except ArchiveError RevisionExtension × OnDisk :=
  let ended := (extendRevision sha256 repoType request).run.run
    (textStep codec repoType sources request.commit archivedAt)
    ⟨.still (disk.revision codec), disk.manifest, ""⟩
  (ended.1, ⟨ended.2.manifest, ended.2.shared.revision.upstreamFiles,
    ended.2.shared.revision.tree⟩)

variable
  {α : Type}
  {codec : ManifestCodec}
  {sha256 : Bytes → String}
  {repoType : RepositoryType}
  {request : RevisionExtensionRequest}
  {sources : String → Except ArchiveError Bytes}
  {archivedAt : Nat}
  {now : Inscribed}

/-- The steps of the only call. -/
abbrev AloneText (codec : ManifestCodec) (repoType : RepositoryType)
    (sources : String → Except ArchiveError Bytes) (commit : String)
    (archivedAt : Nat) : Semantics interface Inscribed :=
  fun op before reply after =>
    textStep codec repoType sources commit archivedAt op before =
      (reply, after)

/-! ## Steps that leave the texts alone -/

/-- Neither the manifest nor a replacement is touched. -/
def Op.Textless : Op → Prop
  | .readManifest => False
  | .createPart => False
  | .writePart _ => False
  | .renamePart => False
  | _ => True

theorem only_outcome
    {allowed : Op → Prop}
    {outcome : Except ArchiveError α} :
    Only allowed (Extension.check outcome).run := trivial

theorem only_step
    {allowed : Op → Prop}
    {op : Op}
    (here : allowed op) :
    Only allowed (Extension.perform op) :=
  ⟨here, fun _ => trivial⟩

theorem only_createDirectories
    {paths : List (List String)} :
    Only Op.Textless (createDirectories paths).run := by
  induction paths with
  | nil => trivial
  | cons path rest inductionHypothesis =>
      exact Only.exceptBind (only_step trivial) fun _ => inductionHypothesis

theorem only_stageExtensionFiles
    {paths : List String}
    {staging : FileTree Bytes}
    {staged : List Staged} :
    Only Op.Textless (stageExtensionFiles paths staging staged).run := by
  induction paths generalizing staging staged with
  | nil => trivial
  | cons path rest inductionHypothesis =>
      unfold stageExtensionFiles
      refine Only.exceptBind only_outcome fun _ => ?_
      refine Only.exceptBind (only_step trivial) fun _ => ?_
      refine Only.exceptBind only_outcome fun _ => ?_
      exact Only.exceptBind only_outcome fun _ => inductionHypothesis

theorem only_placeStaged
    {published : List String}
    {files : List Staged}
    {placed : Placed} :
    Only Op.Textless (placeStaged published files placed).run := by
  induction files generalizing placed with
  | nil => trivial
  | cons file rest inductionHypothesis =>
      unfold placeStaged
      split
      · exact inductionHypothesis
      · refine Only.exceptBind only_createDirectories fun _ => ?_
        exact Only.exceptBind (only_step trivial) fun _ => inductionHypothesis

theorem only_syncDirectories
    {paths : List (List String)} :
    Only Op.Textless (syncDirectories paths).run := by
  induction paths with
  | nil => trivial
  | cons path rest inductionHypothesis =>
      exact Only.exceptBind (only_step trivial) fun _ => inductionHypothesis

/-- Such steps do what they do without texts. -/
theorem runs_of_textless
    {program : Program interface α}
    {value : α}
    {later : Inscribed}
    (only : Only Op.Textless program)
    (run : Runs (AloneText codec repoType sources request.commit archivedAt)
      program now value later) :
    Runs (Alone repoType sources) program now.shared value later.shared ∧
      later.manifest = now.manifest := by
  induction program generalizing now with
  | done value =>
      obtain ⟨rfl, rfl⟩ := run
      exact ⟨⟨rfl, rfl⟩, rfl⟩
  | call op next inductionHypothesis =>
      obtain ⟨reply, middle, issued, run⟩ := run
      have step : soloStep repoType sources () op now.shared =
          (reply, middle.shared) ∧ middle.manifest = now.manifest := by
        obtain ⟨rfl, rfl⟩ := Prod.mk.inj issued
        cases op with
        | readManifest => exact only.1.elim
        | createPart => exact only.1.elim
        | writePart manifest => exact only.1.elim
        | renamePart => exact only.1.elim
        | _ => exact ⟨rfl, rfl⟩
      obtain ⟨rest, same⟩ := inductionHypothesis reply (only.2 reply) run
      exact ⟨⟨reply, _, step.1, rest⟩, same.trans step.2⟩

theorem achieves_of_textless
    {action : Action α}
    {post : α → Shared Unit → Prop}
    (only : Only Op.Textless action.run)
    (achieves : Achieves (Alone repoType sources) action post now.shared) :
    Achieves (AloneText codec repoType sources request.commit archivedAt)
      action (fun value later => post value later.shared ∧
        later.manifest = now.manifest) now := by
  intro value later run
  obtain ⟨plain, same⟩ := runs_of_textless only run
  exact ⟨achieves value later.shared plain, same⟩

/-! ## What an extension does to the text -/

theorem achieves_textStep
    {program : Program interface (Except ArchiveError α)}
    {post : α → Inscribed → Prop}
    (answers : ∀ value after,
      program.run (textStep codec repoType sources request.commit archivedAt)
        now = (.ok value, after) → post value after) :
    Achieves (AloneText codec repoType sources request.commit archivedAt)
      (Extension.attempt program) post now :=
  fun value after run => answers value after (runs_step.mp run)

theorem achieves_textOutcome
    {outcome : Except ArchiveError α}
    {post : α → Inscribed → Prop}
    (holds : ∀ value, outcome = .ok value → post value now) :
    Achieves (AloneText codec repoType sources request.commit archivedAt)
      (Extension.check outcome) post now :=
  achieves_check.mpr holds

theorem readText_eq_ok
    {text : String}
    {manifest : Manifest} :
    readText codec repoType text = .ok manifest ↔
      codec.fromStr text = .ok manifest ∧ manifest.repoType = repoType := by
  unfold readText
  rw [bind_eq_ok]
  constructor
  · rintro ⟨found, decoded, typed⟩
    obtain ⟨_, typed, same⟩ := bind_eq_ok.mp typed
    cases same
    unfold RevisionDir.ensureManifestType at typed
    split at typed
    · cases typed
    · next right =>
        refine ⟨?_, not_not.mp right⟩
        cases read : codec.fromStr text with
        | error message =>
            rw [read] at decoded
            cases decoded
        | ok value =>
            rw [read] at decoded
            cases decoded
            rfl
  · rintro ⟨decoded, typed⟩
    refine ⟨manifest, by rw [decoded]; rfl, bind_eq_ok.mpr ⟨(), ?_, rfl⟩⟩
    unfold RevisionDir.ensureManifestType
    rw [if_neg (not_not.mpr typed)]

/-- What is read is what the text says. -/
theorem achieves_readText :
    Achieves (AloneText codec repoType sources request.commit archivedAt)
      (readExtendableManifest request)
      (fun manifest later => later = now ∧
        codec.fromStr now.manifest = .ok manifest ∧
        manifest.repoType = repoType ∧ manifest.complete = true) now := by
  unfold readExtendableManifest
  refine achieves_bind.mpr (achieves_textStep ?_)
  intro manifest after answered
  obtain ⟨read, rfl⟩ := Prod.mk.inj answered
  obtain ⟨decoded, typed⟩ := readText_eq_ok.mp read
  refine achieves_textOutcome ?_
  intro same extendable
  unfold ensureExtendable at extendable
  split at extendable
  · cases extendable
  · next complete =>
      split at extendable
      · cases extendable
      · cases extendable
        exact ⟨rfl, decoded, typed, by simpa using complete⟩

/-- The text of the replacement is live. -/
theorem achieves_replaceText
    {replacement : Manifest} :
    Achieves (AloneText codec repoType sources request.commit archivedAt)
      (replaceRevisionManifest replacement)
      (fun _ later =>
        later.manifest =
          manifestText request.commit archivedAt replacement ∧
        later.shared.revision.upstreamFiles =
          now.shared.revision.upstreamFiles ∧
        later.shared.revision.tree = now.shared.revision.tree) now := by
  unfold replaceRevisionManifest
  refine achieves_textStep ?_
  rintro value after ⟨⟩
  refine ⟨String.empty_append, ?_, ?_⟩
  · simp [textStep, soloStep, Shared.swap, Shared.setPart]
  · simp [textStep, soloStep, Shared.swap, Shared.setPart]

/-- What an extension does to a revision on disk. -/
structure ExtendsText
    (codec : ManifestCodec)
    (sha256 : Bytes → String)
    (repoType : RepositoryType)
    (request : RevisionExtensionRequest)
    (sources : String → Except ArchiveError Bytes)
    (archivedAt : Nat)
    (before after : OnDisk)
    (manifest : Manifest)
    (moved : List Staged) :
    Prop where
  read : codec.fromStr before.manifest = .ok manifest
  typed : manifest.repoType = repoType
  complete : manifest.complete = true
  sourced : ∀ file ∈ moved, Sourced sources file
  distinct : (moved.map Staged.path).Nodup
  paths : moved.map Staged.path =
    request.files.filter fun path => path ∉ manifest.paths
  unchanged : moved = [] → after = before
  manifest : moved ≠ [] → after.manifest = manifestText request.commit
    archivedAt (extendedManifest sha256 repoType request manifest moved)
  upstreamFiles : after.upstreamFiles = before.upstreamFiles
  filled : Filled before.tree after.tree moved

theorem achieves_textUnderLock
    {manifest : Manifest}
    {staged : List Staged}
    {skipped : List String}
    (read : codec.fromStr now.manifest = .ok manifest)
    (decoded : now.shared.revision.manifest = .decoded manifest)
    (nonempty : staged ≠ [])
    (paths : staged.map Staged.path =
      request.files.filter fun path => path ∉ manifest.paths) :
    Achieves (AloneText codec repoType sources request.commit archivedAt)
      (extendUnderLock sha256 repoType request staged skipped)
      (fun _ later =>
        later.manifest = manifestText request.commit archivedAt
          (extendedManifest sha256 repoType request manifest staged) ∧
        later.shared.revision.upstreamFiles =
          now.shared.revision.upstreamFiles ∧
        Filled now.shared.revision.tree later.shared.revision.tree staged)
      now := by
  unfold extendUnderLock
  refine achieves_bind.mpr (achieves_readText.mono ?_)
  rintro same _ ⟨rfl, found, -, -⟩
  rw [read] at found
  cases found
  have unlisted : (staged.filter fun file =>
      file.path ∉ manifest.paths) = staged := by
    apply List.filter_eq_self.mpr
    intro file member
    have inPaths : file.path ∈ staged.map Staged.path :=
      List.mem_map_of_mem member
    rw [paths, List.mem_filter] at inPaths
    exact inPaths.2
  refine achieves_bind.mpr ((achieves_of_textless only_placeStaged
    (achieves_placeStaged ⟨decoded, rfl, Filled.refl _⟩)).mono ?_)
  rintro placed later ⟨⟨filling, added⟩, sameText⟩
  rw [unlisted, List.nil_append] at added
  rw [added] at filling
  split
  · next nothing => exact absurd (added.symm.trans nothing) nonempty
  · refine achieves_bind.mpr ((achieves_of_textless only_syncDirectories
      achieves_syncDirectories).mono ?_)
    rintro _ synced ⟨sameShared, _⟩
    refine achieves_bind.mpr (achieves_textStep ?_)
    rintro _ _ ⟨⟩
    refine achieves_bind.mpr (achieves_replaceText.mono ?_)
    rintro _ after ⟨swapped, upstream, tree⟩
    refine achieves_textOutcome ?_
    rintro _ _
    refine ⟨by rw [swapped, added], upstream.trans ?_, ?_⟩
    · change synced.shared.revision.upstreamFiles = _
      rw [sameShared]
      exact filling.upstreamFiles
    · rw [tree]
      change Filled _ synced.shared.revision.tree _
      rw [sameShared]
      exact filling.filled

/-- No path is asked for twice. -/
theorem nodup_of_classify
    {listed files : List String}
    {sorted result : Classified}
    (done : classify listed files sorted = .ok result) :
    files.Nodup ∧ ∀ path ∈ files, path ∉ sorted.requested := by
  induction files generalizing sorted with
  | nil => simp
  | cons path rest inductionHypothesis =>
      rw [classify] at done
      obtain ⟨_, _, done⟩ := bind_eq_ok.mp done
      split at done
      · cases done
      · next new =>
          have others : ∃ later : Classified, later.requested =
              sorted.requested ++ [path] ∧
              classify listed rest later = .ok result := by
            split at done
            · exact ⟨_, rfl, done⟩
            · exact ⟨_, rfl, done⟩
          obtain ⟨later, requested, done⟩ := others
          obtain ⟨distinct, apart⟩ := inductionHypothesis done
          simp only [requested, List.mem_append, List.mem_singleton,
            not_or] at apart
          refine ⟨List.nodup_cons.mpr ⟨?_, distinct⟩, ?_⟩
          · exact fun member => (apart path member).2 rfl
          · exact List.forall_mem_cons.mpr
              ⟨new, fun other member => (apart other member).1⟩

/-- What the only call does when it succeeds. -/
theorem extendText_spec
    {extension : RevisionExtension}
    {before after : OnDisk}
    (ended : extendText codec sha256 repoType request sources archivedAt
      before = (.ok extension, after)) :
    ∃ manifest moved, ExtendsText codec sha256 repoType request sources
      archivedAt before after manifest moved := by
  have achieves : Achieves
      (AloneText codec repoType sources request.commit archivedAt)
      (extendRevision sha256 repoType request)
      (fun _ later => ∃ manifest moved, ExtendsText codec sha256 repoType
        request sources archivedAt before
        ⟨later.manifest, later.shared.revision.upstreamFiles,
          later.shared.revision.tree⟩ manifest moved)
      ⟨.still (before.revision codec), before.manifest, ""⟩ := by
    unfold extendRevision
    refine achieves_bind.mpr (achieves_textOutcome ?_)
    intro _ _
    refine achieves_bind.mpr (achieves_textOutcome ?_)
    intro _ _
    refine achieves_bind.mpr (achieves_textStep ?_)
    rintro _ _ ⟨⟩
    rw [if_neg (by simp [textStep, textReply, soloStep])]
    refine achieves_bind.mpr (achieves_readText.mono ?_)
    rintro manifest _ ⟨rfl, read, typed, complete⟩
    change codec.fromStr before.manifest = .ok manifest at read
    have decoded : (before.revision codec).manifest = .decoded manifest := by
      unfold OnDisk.revision
      rw [read]
    refine achieves_bind.mpr (achieves_textOutcome ?_)
    intro sorted classified
    have candidates := classify_candidates classified
    rw [List.nil_append] at candidates
    have distinct := ((nodup_of_classify classified).1.filter
      fun path => path ∉ manifest.paths)
    split
    · next nothing =>
        refine achieves_textOutcome ?_
        rintro _ _
        rw [nothing] at candidates
        exact ⟨manifest, [], read, typed, complete, by simp, by simp,
          candidates, fun _ => rfl, fun absurd => absurd.elim rfl, rfl,
          Filled.refl _⟩
    · next something =>
        refine achieves_bind.mpr (achieves_textStep ?_)
        rintro _ _ ⟨⟩
        refine achieves_bind.mpr (achieves_textStep ?_)
        rintro _ _ ⟨⟩
        refine achieves_bind.mpr ((achieves_of_textless
          only_stageExtensionFiles (achieves_stage (by simp))).mono ?_)
        rintro staged ⟨arrived, text, part⟩ ⟨⟨rfl, paths, sourced⟩, rfl⟩
        rw [List.map_nil, List.nil_append] at paths
        refine achieves_bind.mpr (achieves_textStep ?_)
        rintro _ _ ⟨⟩
        have nonempty : staged ≠ [] := by
          rintro rfl
          exact something paths.symm
        intro extension final run
        obtain ⟨outcome, middle, extended, released⟩ := (runs_bind ..).mp run
        obtain ⟨_, _, answered, same, rfl⟩ := released
        cases same
        cases answered
        obtain ⟨written, upstream, filled⟩ := achieves_textUnderLock
          (by exact read) (by exact decoded) nonempty
          (paths.trans candidates) _ _ extended
        exact ⟨manifest, staged, read, typed, complete, sourced,
          by rwa [paths, candidates], paths.trans candidates,
          fun nothing => absurd nothing nonempty, fun _ => written, upstream,
          filled⟩
  have run : Runs (AloneText codec repoType sources request.commit
      archivedAt) (extendRevision sha256 repoType request).run
      ⟨.still (before.revision codec), before.manifest, ""⟩ _ _ :=
    runs_step.mpr rfl
  unfold extendText at ended
  rw [Prod.mk.injEq] at ended
  obtain ⟨succeeded, rfl⟩ := ended
  rw [succeeded] at run
  exact achieves _ _ run


/-- To a reader that decodes the texts it is an extension like any other. -/
theorem ExtendsText.extendedBy
    {before after : OnDisk}
    {manifest : Manifest}
    {moved : List Staged}
    (reads : codec.ReadsJson)
    (hex : IsHex request.commit)
    (bounded : archivedAt < 2 ^ 64)
    (spellable : moved ≠ [] →
      (extendedManifest sha256 repoType request manifest moved).Spellable)
    (spec : ExtendsText codec sha256 repoType request sources archivedAt
      before after manifest moved) :
    ExtendedBy sha256 repoType request sources (before.revision codec)
      (after.revision codec) manifest moved where
  read := by
    unfold OnDisk.revision
    rw [spec.read]
  typed := spec.typed
  complete := spec.complete
  sourced := spec.sourced
  paths := spec.paths
  unchanged := fun nothing => by rw [spec.unchanged nothing]
  manifest := by
    intro something
    unfold OnDisk.revision
    rw [spec.manifest something,
      fromStr_manifestText reads hex bounded (spellable something)]
  filled := spec.filled

end Extension
end ModelKeep
