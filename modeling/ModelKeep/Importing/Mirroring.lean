import ModelKeep.Importing.Repeatable
import ModelKeep.Importing.Snapshots

/-!
# Imports mirror the cache

At every moment of an import, wherever it is cut off and whatever is refused,
the revisions that were not there before mirror snapshots of the cache.  None
is missed when it succeeds.
-/

namespace ModelKeep
namespace Importing

open Concurrency Program Replay

/-! ## What the revisions are at every moment -/

section upholding

variable {cache : Cache} {refusable : Op → Prop} {sha256 : Bytes → String}
  {held : (Repository → List (String × RevisionDir)) → Prop}
  {items earlier later : List Item} {α : Type}

/-- If the acts keep this of the revisions, it holds all along. -/
def Upholds (cache : Cache) (refusable : Op → Prop)
    (sha256 : Bytes → String)
    (held : (Repository → List (String × RevisionDir)) → Prop)
    (program : ImportReport → Action ImportReport) (items : List Item) :
    Prop :=
  (∀ item ∈ items, ∀ before after : Shown, held before.revisions →
      item.apply sha256 before = some after → held after.revisions) →
    ∀ report (start : Logged), pending start.2 = false →
      held start.1.shown.revisions →
        Guards (logged (Effect cache refusable))
          (fun state => held state.1.shown.revisions) (program report).run
          (fun outcome state =>
            outcome.isOk = true → pending state.2 = false) start

theorem upholds_done :
    Upholds cache refusable sha256 held
      (fun report => check (.ok report)) [] :=
  fun _ _ _ settled holds => ⟨holds, fun _ => settled⟩

theorem Upholds.append
    {first second : ImportReport → Action ImportReport}
    (firstly : Upholds cache refusable sha256 held first earlier)
    (secondly : Upholds cache refusable sha256 held second later) :
    Upholds cache refusable sha256 held
      (fun report => first report >>= second) (earlier ++ later) := by
  intro keeps report start settled holds
  rw [List.forall_mem_append] at keeps
  apply Guards.exceptBind
  apply Guards.mono (firstly keeps.1 report start settled holds)
  intro outcome middle holds ends
  cases outcome with
  | ok count => exact secondly keeps.2 count middle (ends rfl) holds
  | error error => exact nofun

theorem Upholds.reads_bind
    {action : Action α}
    {rest : α → ImportReport → Action ImportReport}
    {found : Option α}
    (reads : Reads cache refusable action found)
    (second : ∀ value, found = some value →
      Upholds cache refusable sha256 held (rest value) items) :
    Upholds cache refusable sha256 held
      (fun report => action >>= fun value => rest value report) items := by
  intro keeps report start settled holds
  apply Guards.exceptBind
  apply Guards.mono ((reads start).ends.widen fun state same => by
    rw [same.1]
    exact holds)
  rintro outcome middle holds ⟨same, ends⟩
  cases outcome with
  | ok value =>
      exact second value ends keeps report middle (same.2.trans settled) holds
  | error error => exact nofun

theorem Upholds.look_bind
    {op : Look}
    {rest : op.Answer → ImportReport → Action ImportReport}
    (second : ∀ value, cache.answer op = .ok value →
      Upholds cache refusable sha256 held (rest value) items) :
    Upholds cache refusable sha256 held
      (fun report => look op >>= fun value => rest value report) items :=
  .reads_bind (reads_look op) fun value same =>
    second value (toOption_eq_some.mp same)

theorem Upholds.isDir_bind
    {path : List String}
    {rest : ImportReport → Action ImportReport}
    (careful : ∀ op, refusable op → ¬op.Probes)
    (second : Upholds cache refusable sha256 held rest items) :
    Upholds cache refusable sha256 held
      (fun report => always (perform (.isDir path)) >>= fun found =>
        if found = false then check (.ok report) else rest report)
      (if cache.disk.isDir path = false then [] else items) := by
  intro keeps report start settled holds
  apply Guards.exceptBind
  rw [run_always]
  apply Guards.bind
  refine guards_perform ?_ ?_
  · exact holds
  rintro found asked ⟨⟨rfl, same⟩ | ⟨probed, _⟩, steps⟩
  on_goal 2 => exact absurd trivial (careful _ probed)
  have holdsStill : held asked.1.shown.revisions := by
    rw [same]
    exact holds
  have settledStill : pending asked.2 = false := by
    rw [steps, pending_append, settled]
    rfl
  refine ⟨holdsStill, holdsStill, ?_⟩
  change Guards _ _ (ExceptT.run (if cache.disk.isDir path = false then _
    else _)) _ asked
  by_cases missing : cache.disk.isDir path = false
  · rw [if_pos missing]
    exact ⟨holdsStill, fun _ => settledStill⟩
  · rw [if_neg missing] at keeps ⊢
    exact second keeps report asked settledStill holdsStill

theorem upholds_eachEntry
    {directory : List String}
    {visit : String → ImportReport → Action ImportReport}
    {asks : String → List Item}
    (visits : ∀ name,
      Upholds cache refusable sha256 held (visit name) (asks name))
    (names : List String) :
    Upholds cache refusable sha256 held (eachEntry directory visit names)
      (names.flatMap asks) := by
  induction names with
  | nil => exact .look_bind fun _ _ => upholds_done
  | cons name rest inductionHypothesis =>
      rw [List.flatMap_cons]
      exact .look_bind fun _ _ => (visits name).append inductionHypothesis

theorem upholds_importEntries
    {directory : List String}
    {visit : String → ImportReport → Action ImportReport}
    {asks : String → List Item}
    (visits : ∀ name,
      Upholds cache refusable sha256 held (visit name) (asks name)) :
    Upholds cache refusable sha256 held (importEntries directory visit)
      (cache.entriesItems directory asks) := by
  refine .look_bind fun names listed => ?_
  replace listed : cache.readDir directory = .ok names := listed
  rw [Cache.entriesItems, listed]
  exact upholds_eachEntry visits names

theorem upholds_publish
    (careful : ∀ op, refusable op → ¬op.Probes)
    (repoType : RepositoryType)
    (request : FileSystem.SourcePublishRequest) :
    Upholds cache refusable sha256 held
      (fun report => do
        match ← always
            (publishRevisionFromDirectory sha256 repoType request).run with
        | .ok () =>
            check (.ok { report with revisions := report.revisions + 1 })
        | .error (.alreadyPublished _) => check (.ok report)
        | .error error => check (.error error))
      [cache.publishItem repoType request] := by
  intro keeps report start settled holds
  have holdsOf : ∀ state : Logged, Does sha256
      (cache.publishItem repoType request) start.1.shown state →
      held state.1.shown.revisions := by
    rintro state ⟨_, same | applied⟩
    · rw [same]
      exact holds
    · exact keeps _ (List.mem_singleton_self _) _ _ holds applied
  apply Guards.exceptBind
  rw [run_always]
  apply Guards.bind
  apply Guards.mono ((guards_publishRevisionFromDirectory careful
    ⟨rfl, settled⟩).ends.widen holdsOf)
  rintro outcome state holdsStill ⟨does, _⟩
  refine ⟨holdsStill, ?_⟩
  cases outcome with
  | ok _ => exact ⟨holdsStill, fun _ => does.1⟩
  | error error =>
      cases error with
      | alreadyPublished commit => exact ⟨holdsStill, fun _ => does.1⟩
      | io kind => exact ⟨holdsStill, nofun⟩
      | invalidPath path => exact ⟨holdsStill, nofun⟩
      | integrityMismatch message => exact ⟨holdsStill, nofun⟩
      | referencedRevision references => exact ⟨holdsStill, nofun⟩

variable {repository : Repository} {directory path : List String}
  {name : String}

theorem upholds_importSnapshot
    (careful : ∀ op, refusable op → ¬op.Probes) :
    Upholds cache refusable sha256 held
      (importSnapshot sha256 cache repository directory path name)
      (cache.snapshotItems repository directory path name) := by
  refine .look_bind fun node stands => ?_
  replace stands : cache.disk.symlinkMetadata path = .ok node := stands
  rw [Cache.snapshotItems, stands]
  cases node with
  | file content => exact upholds_done
  | link target => exact upholds_done
  | directory =>
      refine .reads_bind (reads_collectFiles path _ path [])
        fun files found => ?_
      dsimp only
      rw [found]
      dsimp only
      split
      · exact upholds_done
      · exact upholds_publish careful _ _

/-- The steps of an update touch no revision. -/
theorem guards_embed_updateRef
    {reference commit : String}
    {start : Logged}
    (holds : held start.1.shown.revisions) :
    Guards (logged (Effect cache refusable))
      (fun state => held state.1.shown.revisions)
      ((Refs.updateRef repository.repoId reference commit).run.embed
        (refSteps repository)) (fun _ _ => True) start := by
  have only : ∀ program : Program Refs.interface (Except ArchiveError Unit),
      Only (fun op : Op => ∃ inner, op = .ref repository inner)
        (program.embed (refSteps repository)) := by
    intro program
    induction program with
    | done value => trivial
    | call op next inductionHypothesis =>
        exact ⟨⟨op, rfl⟩, fun reply => inductionHypothesis _⟩
  refine (only _).guards ?_ ?_
  on_goal 2 => exact holds
  rintro _ before reply after ⟨op, rfl⟩ ⟨effect, _⟩ holds
  have same : after.1.shown.revisions = before.1.shown.revisions := by
    have done : ∃ dir, dir.revisions =
        (before.1.dir repository).revisions ∧
          after.1 = before.1.setDir repository dir := by
      rcases effect with ⟨dir, succeeds, same⟩ | ⟨_, dir, refuses, same⟩
      · exact ⟨dir, revisions_of_refs (Or.inl succeeds), same⟩
      · exact ⟨dir, revisions_of_refs (Or.inr refuses), same⟩
    obtain ⟨dir, kept, set⟩ := done
    rw [set]
    funext other
    change (Function.update before.1.dir repository dir other).revisions = _
    by_cases here : other = repository
    · subst here
      rw [Function.update_self, kept]
      rfl
    · rw [Function.update_of_ne here]
      rfl
  rw [same]
  exact holds

theorem upholds_importRef :
    Upholds cache refusable sha256 held
      (importRef cache repository path name)
      (cache.refItems repository path name) := by
  refine .look_bind fun node stands => ?_
  replace stands : cache.disk.symlinkMetadata path = .ok node := stands
  rw [Cache.refItems, stands]
  cases node with
  | directory => exact upholds_done
  | link target => exact upholds_done
  | file content =>
      refine .look_bind fun text found => ?_
      replace found : cache.disk.readToString path = .ok text := found
      dsimp only
      rw [found]
      dsimp only
      split
      · exact upholds_done
      · intro keeps report start settled holds
        apply Guards.exceptBind
        apply Guards.mono (guards_embed_updateRef holds).reached
        rintro outcome state holdsStill ⟨_, ran⟩
        cases outcome with
        | ok _ =>
            have ends : pending state.2 = false ∧ Item.apply sha256 _ _ = _ :=
              ((guards_updateRef settled).of_runs ran).2
            exact ⟨holdsStill, fun _ => ends.1⟩
        | error error =>
            intro refused
            cases refused

theorem upholds_importRepository
    (careful : ∀ op, refusable op → ¬op.Probes) :
    Upholds cache refusable sha256 held
      (importRepository sha256 cache path name)
      (cache.repositoryItems path name) := by
  refine .look_bind fun node stands => ?_
  replace stands : cache.disk.symlinkMetadata path = .ok node := stands
  rw [Cache.repositoryItems, stands]
  cases node with
  | file content => exact upholds_done
  | link target => exact upholds_done
  | directory =>
      dsimp only
      cases decodeRepositoryName (cache.text name) with
      | none => exact upholds_done
      | some repository =>
          apply Upholds.isDir_bind careful
          apply Upholds.append
          · exact upholds_importEntries fun _ =>
              upholds_importSnapshot careful
          · apply Upholds.isDir_bind careful
            exact upholds_importEntries fun _ => upholds_importRef

/-- What the acts of a cache keep of the revisions holds at every moment of
its import. -/
theorem revisions_of_cut
    (careful : ∀ op, refusable op → ¬op.Probes)
    {cacheRoot : List String}
    (keeps : ∀ item ∈ cache.plan cacheRoot, ∀ before after : Shown,
      held before.revisions → item.apply sha256 before = some after →
        held after.revisions)
    {before after : World}
    (holds : held before.shown.revisions)
    (cut : Cut (Effect cache refusable)
      (importHfCache sha256 cache cacheRoot).run before after) :
    held after.shown.revisions := by
  have upholds : Upholds cache refusable sha256 held
      (fun report => look (.canonicalize cacheRoot) >>= fun root =>
        importEntries root (fun name => importRepository sha256 cache
          (root ++ [name]) name) report) (cache.plan cacheRoot) := by
    refine .look_bind fun root leads => ?_
    replace leads : cache.disk.canonicalize cacheRoot = .ok root := leads
    rw [Cache.plan, leads]
    exact upholds_importEntries fun _ => upholds_importRepository careful
  obtain ⟨steps, cut⟩ := cut.exists_logged []
  exact (upholds keeps ⟨0, 0⟩ (before, []) rfl holds).of_cut cut

end upholding


/-! ## Snapshots that an import goes through -/

/-- A directory of the cache that is a snapshot of a commit, and where it
leads. -/
structure Snapshot (cache : Cache) (cacheRoot : List String)
    (repository : Repository) (commit : String)
    (directory snapshot place : List String) : Prop where
  below : ∃ root name, cache.disk.canonicalize cacheRoot = .ok root ∧
    directory = root ++ [name] ∧
    decodeRepositoryName (cache.text name) = some repository
  real : cache.tree.isDirectory directory = true
  entry : ∃ names name, cache.readDir (directory ++ ["snapshots"]) =
      .ok names ∧ name ∈ names ∧
    snapshot = directory ++ ["snapshots"] ++ [name] ∧
    commit = cache.text name
  leads : cache.disk.canonicalize snapshot = .ok place
  isDirectory : cache.tree.isDirectory place = true
  /-- It is no link itself. -/
  unlinked : cache.disk.symlinkMetadata snapshot = .ok .directory

section plans

variable {cache : Cache} {cacheRoot directory snapshot place : List String}
  {repository : Repository} {commit : String}

theorem tree_canonicalize
    {path : List String} :
    cache.disk.canonicalize path = .ok place ↔
      cache.tree.canonicalize path = some place := by
  have same : cache.disk.tree.canonicalize path =
      cache.tree.canonicalize path := rfl
  unfold Disk.canonicalize
  rw [same]
  cases cache.tree.canonicalize path with
  | none => simp
  | some found => simp

theorem mem_entriesItems
    {item : Item}
    {items : String → List Item}
    (readable : item ≠ .unreadable)
    (member : item ∈ cache.entriesItems directory items) :
    ∃ names, cache.readDir directory = .ok names ∧
      ∃ name ∈ names, item ∈ items name := by
  unfold Cache.entriesItems at member
  split at member
  · exact absurd (List.mem_singleton.mp member) readable
  · next names listed =>
      exact ⟨names, listed, List.mem_flatMap.mp member⟩

/-- The entries of a directory stand in it. -/
theorem legal_of_readDir
    {names : List String}
    {name : String}
    (listed : cache.readDir directory = .ok names)
    (member : name ∈ names) :
    ∃ here, cache.tree.canonicalize directory = some here ∧
      LegalName name := by
  unfold Cache.readDir at listed
  obtain ⟨here, leads, listed⟩ := bind_eq_ok.mp listed
  split at listed
  · cases listed
    refine ⟨here, tree_canonicalize.mp leads, ?_⟩
    exact cache.tree.legal_of_lookup (Cache.mem_listing.mp member) name
      (by simp)
  · cases listed

/-- An entry that is a directory is where its path leads. -/
theorem leads_of_symlinkMetadata
    {names : List String}
    {name : String}
    (listed : cache.readDir directory = .ok names)
    (member : name ∈ names)
    (found : cache.disk.symlinkMetadata (directory ++ [name]) =
      .ok .directory) :
    ∃ here, cache.tree.canonicalize directory = some here ∧
      cache.tree.canonicalize (directory ++ [name]) =
        some (here ++ [name]) ∧
      cache.tree.isDirectory (here ++ [name]) = true := by
  obtain ⟨here, leads, legal⟩ := legal_of_readDir listed member
  have stands : cache.tree.lookup (here ++ [name]) = some .directory := by
    unfold Disk.symlinkMetadata at found
    rw [show cache.disk.tree.lstat (directory ++ [name]) =
        cache.tree.lookup (here ++ [name]) from
      FileTree.lstat_onward legal leads] at found
    split at found
    · next node here => rw [here, Except.ok.inj found]
    · cases found
  have directory := (cache.tree.isDirectory_iff _).mpr stands
  exact ⟨here, leads, FileTree.canonicalize_onward
    (FileTree.stands_of_isDirectory directory) leads, directory⟩

variable {repoType : RepositoryType} {request : Publishing.PublishRequest}
  {path : List String} {name : String}

theorem publish_not_mem_refItems :
    .publish repoType request ∉ cache.refItems repository path name := by
  intro member
  unfold Cache.refItems at member
  split at member
  · simp at member
  · split at member
    · simp at member
    · split at member <;> simp at member
  · simp at member

theorem mem_snapshotItems
    (member : .publish repoType request ∈
      cache.snapshotItems repository directory path name) :
    cache.disk.symlinkMetadata path = .ok .directory ∧
      ∃ files, cache.collectFiles path FileSystem.Setting.pathMax path [] =
          some files ∧
        .publish repoType request = cache.publishItem repository.repoType
          ⟨repository.repoId, cache.text name, cache.text name, directory,
            files⟩ := by
  unfold Cache.snapshotItems at member
  split at member
  · simp at member
  · next unlinked =>
      split at member
      · simp at member
      · next files found =>
          split at member
          · cases member
          · exact ⟨unlinked, files, found, List.mem_singleton.mp member⟩
  · cases member

theorem mem_repositoryItems
    (member : .publish repoType request ∈ cache.repositoryItems path name) :
    cache.disk.symlinkMetadata path = .ok .directory ∧
      ∃ repository names commit,
        decodeRepositoryName (cache.text name) = some repository ∧
        cache.readDir (path ++ ["snapshots"]) = .ok names ∧
        commit ∈ names ∧
        .publish repoType request ∈ cache.snapshotItems repository path
          (path ++ ["snapshots"] ++ [commit]) commit := by
  unfold Cache.repositoryItems at member
  split at member
  · simp at member
  · next folder =>
      refine ⟨folder, ?_⟩
      split at member
      · cases member
      · next repository decoded =>
          dsimp only at member
          split at member
          · cases member
          · rcases List.mem_append.mp member with member | member
            · obtain ⟨names, listed, commit, inside, member⟩ :=
                mem_entriesItems (by simp) member
              exact ⟨repository, names, commit, decoded, listed, inside,
                member⟩
            · exfalso
              split at member
              · cases member
              · obtain ⟨_, _, _, _, member⟩ :=
                  mem_entriesItems (by simp) member
                exact publish_not_mem_refItems member
  · cases member

/-- What an import is asked to publish is what was collected of a
snapshot. -/
theorem snapshot_of_mem_plan
    (member : .publish repoType request ∈ cache.plan cacheRoot) :
    ∃ directory snapshot place files,
      Snapshot cache cacheRoot ⟨repoType, request.repoId⟩ request.commit
        directory snapshot place ∧
      cache.collectFiles snapshot FileSystem.Setting.pathMax snapshot [] =
        some files ∧
      request = ⟨request.repoId, request.requestedRevision, request.commit,
        files.map (cache.archiveFile directory)⟩ := by
  unfold Cache.plan at member
  split at member
  · simp at member
  · next root leads =>
      obtain ⟨rootNames, rootListed, name, inRoot, member⟩ :=
        mem_entriesItems (by simp) member
      obtain ⟨folder, repository, names, commit, decoded, listed, inside,
        member⟩ := mem_repositoryItems member
      obtain ⟨unlinked, files, found, same⟩ := mem_snapshotItems member
      obtain ⟨here, leadsHere, leadsTo, real⟩ :=
        leads_of_symlinkMetadata rootListed inRoot folder
      -- The root of the cache is where its own path leads.
      rw [(FileTree.stands_of_canonicalize
        (tree_canonicalize.mp leads)).canonicalize] at leadsHere
      cases leadsHere
      obtain ⟨_, _, onward, there⟩ :=
        leads_of_symlinkMetadata listed inside unlinked
      unfold Cache.publishItem at same
      rw [tree_canonicalize.mpr leadsTo] at same
      dsimp only at same
      split at same
      · cases same
        refine ⟨_, _, _, files, ⟨⟨root, name, leads, rfl, decoded⟩, real,
          ⟨names, commit, listed, inside, rfl, rfl⟩,
          tree_canonicalize.mpr onward, there, unlinked⟩, found, rfl⟩
      · cases same

/-- A snapshot with a file is asked to be published, unless something cannot
be read. -/
theorem mem_plan_of_snapshot
    (stands : Snapshot cache cacheRoot repository commit directory snapshot
      place)
    {components : List String}
    (holds : cache.Holds place components) :
    .unreadable ∈ cache.plan cacheRoot ∨
      ∃ request : Publishing.PublishRequest,
        request.repoId = repository.repoId ∧ request.commit = commit ∧
        .publish repository.repoType request ∈ cache.plan cacheRoot := by
  obtain ⟨root, name, leads, rfl, decoded⟩ := stands.below
  obtain ⟨names, commitName, listed, inside, rfl, rfl⟩ := stands.entry
  have rooted := (FileTree.stands_of_canonicalize
    (tree_canonicalize.mp leads)).canonicalize
  have standsIn : cache.tree.lookup (root ++ [name]) = some .directory :=
    (cache.tree.isDirectory_iff _).mp stands.real
  have present : (cache.tree.lookup (root ++ [name])).isSome := by
    rw [standsIn]
    rfl
  have rootListed : cache.readDir root = .ok (cache.listing root) := by
    unfold Cache.readDir
    rw [tree_canonicalize.mpr rooted]
    change (if cache.tree.isDirectory root = true then _ else _) = _
    rw [if_pos (cache.tree.isDirectory_of_append root [name] (by simp)
      present)]
  have folder : cache.disk.symlinkMetadata (root ++ [name]) =
      .ok .directory := by
    unfold Disk.symlinkMetadata
    rw [show cache.disk.tree.lstat (root ++ [name]) = _ from
      (FileTree.lstat_onward (cache.tree.legal_of_lookup present name
        (by simp)) rooted).trans standsIn]
  have there : cache.disk.isDir (root ++ [name] ++ ["snapshots"]) = true := by
    unfold Cache.readDir at listed
    obtain ⟨here, leadsHere, listed⟩ := bind_eq_ok.mp listed
    split at listed
    · next directory =>
        rw [FileTree.isDirectory_iff] at directory
        unfold Disk.isDir Disk.metadata
        rw [show cache.disk.tree.canonicalize _ = some here from
            tree_canonicalize.mp leadsHere, Option.bind_some,
          show cache.disk.tree.lookup here = some .directory from directory]
    · cases listed
  have asked : ∀ item ∈ cache.snapshotItems repository (root ++ [name])
      (root ++ [name] ++ ["snapshots"] ++ [commitName]) commitName,
      item ∈ cache.plan cacheRoot := by
    intro item member
    unfold Cache.plan
    rw [leads]
    dsimp only
    unfold Cache.entriesItems
    rw [rootListed]
    refine List.mem_flatMap.mpr ⟨name, Cache.mem_listing.mpr present, ?_⟩
    unfold Cache.repositoryItems
    rw [folder, decoded]
    dsimp only
    rw [if_neg (by rw [there]; decide), List.mem_append]
    left
    unfold Cache.entriesItems
    rw [listed]
    exact List.mem_flatMap.mpr ⟨commitName, inside, member⟩
  revert asked
  unfold Cache.snapshotItems
  rw [stands.unlinked]
  dsimp only
  split
  · exact fun asked => Or.inl (asked _ (List.mem_singleton_self _))
  · next files found =>
      have some : files ≠ [] := by
        rintro rfl
        rw [← List.append_nil (root ++ [name] ++ ["snapshots"] ++
          [commitName])] at found
        have member := (@mem_collectFiles cache _ place [] _ _
          (cache.sourceFile _ components) _
          (tree_canonicalize.mp stands.leads)
          (by rw [List.append_nil]; exact stands.isDirectory)
          (by rwa [List.append_nil] at found ⊢)).mpr
            (Or.inr ⟨components, List.nil_prefix, holds, rfl⟩)
        cases member
      rw [if_neg some]
      unfold Cache.publishItem
      have real : cache.disk.canonicalize (root ++ [name]) =
          .ok (root ++ [name]) :=
        tree_canonicalize.mpr
          (FileTree.stands_of_isDirectory stands.real).canonicalize
      rw [real]
      dsimp only
      split
      · exact fun asked => Or.inr ⟨_, rfl, rfl,
          asked _ (List.mem_singleton_self _)⟩
      · exact fun asked => Or.inl (asked _ (List.mem_singleton_self _))

end plans


/-! ## Mirrors at every moment -/

section mirroring

variable (sha256 : Bytes → String) (cache : Cache) (cacheRoot : List String)

/-- The revisions of the first archive are as they were, and each new one
mirrors a snapshot of its commit. -/
structure Mirrored
    (before after : Repository → String → Option RevisionDir) : Prop where
  kept : ∀ repository commit revision,
    before repository commit = some revision →
      after repository commit = some revision
  added : ∀ repository commit revision, before repository commit = none →
    after repository commit = some revision →
      ∃ directory snapshot place, Snapshot cache cacheRoot repository commit
          directory snapshot place ∧
        Mirrors sha256 cache directory snapshot place repository.repoType
          revision

/-- Where an import is cut off, the archive mirrors so much of the cache. -/
def MirrorsAlways (refusable : Op → Prop) : Prop :=
  ∀ before after, Cut (Effect cache refusable)
    (importHfCache sha256 cache cacheRoot).run before after →
      Mirrored sha256 cache cacheRoot
        (fun repository => (before.dir repository).revision)
        fun repository => (after.dir repository).revision

/-- An import that succeeds has published every snapshot with a file. -/
def MissesNone (refusable : Op → Prop) : Prop :=
  ∀ before report after, Runs (Effect cache refusable)
    (importHfCache sha256 cache cacheRoot).run before (.ok report) after →
      ∀ repository commit directory snapshot place components,
        Snapshot cache cacheRoot repository commit directory snapshot
          place →
        cache.Holds place components →
        after.isPublished repository commit = true

variable {sha256 cache cacheRoot}

theorem Mirrored.apply
    {first : Repository → String → Option RevisionDir}
    {item : Item}
    {before after : Shown}
    (legible : ∀ name, LegalName name → LegalName (cache.text name))
    (asked : item ∈ cache.plan cacheRoot)
    (mirrored : Mirrored sha256 cache cacheRoot first before.revision)
    (applied : item.apply sha256 before = some after) :
    Mirrored sha256 cache cacheRoot first after.revision := by
  cases item with
  | unreadable => cases applied
  | setRef repository reference commit =>
      simp only [Item.apply] at applied
      split at applied
      · cases applied
      · split at applied
        · cases applied
        · cases applied
          exact mirrored
  | publish repoType request =>
      simp only [Item.apply] at applied
      split at applied
      · cases applied
      · split at applied
        · cases applied
          exact mirrored
        · next absent =>
            split at applied
            · cases applied
            · next revision written =>
                cases applied
                rw [Shown.isPublished, Bool.or_eq_true, not_or,
                  Bool.not_eq_true, Option.isSome_eq_false_iff,
                  Option.isNone_iff_eq_none] at absent
                refine ⟨fun repository commit old stands => ?_,
                  fun repository commit new free stands => ?_⟩
                · have there := mirrored.kept repository commit old stands
                  rw [revision_putRevision]
                  split
                  · next same =>
                      obtain ⟨rfl, rfl⟩ := same
                      rw [absent.1] at there
                      cases there
                  · exact there
                · rw [revision_putRevision] at stands
                  split at stands
                  · next same =>
                      obtain ⟨rfl, rfl⟩ := same
                      cases stands
                      obtain ⟨directory, snapshot, place, files, stands,
                        found, same⟩ := snapshot_of_mem_plan asked
                      rw [same] at written
                      exact ⟨directory, snapshot, place, stands,
                        mirrors_of_writeRevision legible
                          (tree_canonicalize.mp stands.leads)
                          stands.isDirectory found written⟩
                  · exact mirrored.added repository commit new free stands

/-- Wherever an import is cut off, what is new in the archive mirrors the
cache, and what was there is untouched; if it succeeds, nothing is missing. -/
theorem imports_mirror_cache
    (sha256 : Bytes → String)
    (cache : Cache)
    (cacheRoot : List String)
    (legible : ∀ name, LegalName name → LegalName (cache.text name)) :
    MirrorsAlways sha256 cache cacheRoot (fun op => ¬op.Probes) ∧
      MissesNone sha256 cache cacheRoot (fun op => ¬op.Probes) := by
  refine ⟨fun before after cut => ?_, fun before report after run repository
    commit directory snapshot place components stands holds => ?_⟩
  · have holds := @revisions_of_cut cache (fun op => ¬op.Probes) sha256
      (fun revisions => Mirrored sha256 cache cacheRoot
        (fun repository => (before.dir repository).revision)
        fun repository commit => (revisions repository).lookup commit)
      (fun _ => id) cacheRoot
      (fun item asked _ _ mirrored applied =>
        Mirrored.apply legible asked mirrored applied) before after
    refine holds ⟨fun _ _ _ => id, fun _ _ _ free there => ?_⟩ cut
    replace free : (before.dir _).revision _ = none := free
    rw [show (before.dir _).revision _ = _ from there] at free
    cases free
  · obtain ⟨_, _, whole⟩ := ends_of_runs (fun _ => id) run
    have pass : replay (Item.apply sha256) (cache.plan cacheRoot)
        before.shown = some after.shown := by
      rw [← map_replay_step _ _ ⟨0, 0⟩, whole]
      rfl
    have settled : ∀ item ∈ cache.plan cacheRoot,
        item.Settled after.shown :=
      settled_of_replay (fun _ _ _ => settled_of_apply)
        (fun _ _ _ _ settled => settled.after_apply) pass
    rcases mem_plan_of_snapshot stands holds with
      unreadable | ⟨request, sameId, sameCommit, asked⟩
    · exact (settled _ unreadable).done.elim
    · have published := (settled _ asked).done.2
      rw [sameId, sameCommit] at published
      exact published

end mirroring


/-- A repository with a blob, and with a snapshot that is empty yet. -/
def sampleStore : FileTree Bytes :=
  ((FileTree.empty.makeDirectories
      ["models--org--model", "blobs"]).bind fun tree =>
    (tree.createFile ["models--org--model", "blobs", "b"]
      [97]).bind fun tree =>
    tree.makeDirectories
      ["models--org--model", "snapshots", "aaaaaaaa"]).getD .empty

/-- The file of the snapshot is a link to the blob. -/
def sampleLinked : FileTree Bytes :=
  sampleStore.insert ["models--org--model", "snapshots", "aaaaaaaa", "config"]
    (.link (some ["models--org--model", "blobs", "b"])) (by decide)
    (by decide +kernel) (by decide +kernel) (by decide +kernel)

def sampleSnapshots : Cache where
  tree := sampleLinked
  refusal := fun _ => .notFound
  listing := fun place => FileTree.sortNames (sampleLinked.entries place)
  listed := fun _ => .refl _
  text := id

/-- An archive in which nothing was published. -/
def sampleBlank : World where
  dir := fun _ => ⟨none, []⟩
  occupied := fun _ _ => false
  staging := fun _ => none
  names := ∅
  mem_names := fun _ holds => Bool.noConfusion holds

theorem sampleSnapshots_asked :
    ((replay (Item.apply Extension.sampleDigest) (sampleSnapshots.plan [])
      sampleBlank.shown).bind fun shown =>
        shown.revision sampleRepository "aaaaaaaa").isSome = true := by
  decide +kernel

/-- The link is archived as the file that it leads to. -/
theorem imports_mirror_cache_of_link :
    ∃ report after revision directory snapshot place,
      Undisturbed Extension.sampleDigest sampleSnapshots [] sampleBlank
        (.ok report) after ∧
      (after.dir sampleRepository).revision "aaaaaaaa" = some revision ∧
      Snapshot sampleSnapshots [] sampleRepository "aaaaaaaa" directory
        snapshot place ∧
      Mirrors Extension.sampleDigest sampleSnapshots directory snapshot place
        .model revision := by
  obtain ⟨revision, asked⟩ := Option.isSome_iff_exists.mp
    sampleSnapshots_asked
  obtain ⟨final, pass, found⟩ := Option.bind_eq_some_iff.mp asked
  obtain ⟨outcome, after, run⟩ := exists_undisturbed Extension.sampleDigest
    sampleSnapshots [] sampleBlank
  obtain ⟨report, rfl, shown, _⟩ := shown_of_undisturbed run pass
  have stands : (after.dir sampleRepository).revision "aaaaaaaa" =
      some revision := by
    rw [← shown] at found
    exact found
  have cut : Cut (Effect sampleSnapshots fun op => ¬op.Probes)
      (importHfCache Extension.sampleDigest sampleSnapshots []).run
      sampleBlank after :=
    (Runs.mono (fun _ _ _ _ => Or.imp_right fun never => never.1.elim)
      run).cut
  obtain ⟨directory, snapshot, place, whose, mirrors⟩ :=
    ((imports_mirror_cache Extension.sampleDigest sampleSnapshots []
      fun _ => id).1 sampleBlank after cut).added sampleRepository "aaaaaaaa"
        revision rfl stands
  exact ⟨report, after, revision, directory, snapshot, place, run, stands,
    whose, mirrors⟩

end Importing
end ModelKeep
