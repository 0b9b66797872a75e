import Mathlib.Data.Fintype.EquivFin
import ModelKeep.Importing.Following

/-!
# Imports can be repeated

An import changes no revision that was complete.  Imports that were cut off or
failed do not show after a later one that succeeds, unless one of them left the
temporary file of a ref or took a refusal for an answer.
-/

namespace ModelKeep
namespace Importing

open Concurrency Program Replay

section statements

variable (sha256 : Bytes → String) (cache : Cache) (cacheRoot : List String)
  (refusable : Op → Prop)

/-- Imports of the cache one after the other, each of them cut off anywhere,
with steps that are fitting. -/
inductive Earlier (fits : List (Event interface) → Prop)
    (first : World) : World → Prop
  | none : Earlier fits first first
  | another
      {before after : World}
      {steps : List (Event interface)}
      (earlier : Earlier fits first before)
      (cut : Cut (logged (Effect cache refusable))
        (importHfCache sha256 cache cacheRoot).run (before, [])
        (after, steps))
      (fitting : fits steps) :
      Earlier fits first after

/-- An import that nothing disturbs. -/
def Undisturbed (before : World)
    (outcome : Except ArchiveError ImportReport) (after : World) : Prop :=
  Runs (Effect cache fun _ => False)
    (importHfCache sha256 cache cacheRoot).run before outcome after

/-- The archive gives the answers that it would give if one import had been
made of the first archive, and more imports leave it so. -/
structure AsIfAlone (first after : World) : Prop where
  exists_alone : ∃ outcome other,
    Undisturbed sha256 cache cacheRoot first outcome other
  alone : ∀ outcome other,
    Undisturbed sha256 cache cacheRoot first outcome other →
      (∃ report, outcome = .ok report) ∧ SameAnswers other after
  exists_again : ∃ outcome other,
    Undisturbed sha256 cache cacheRoot after outcome other
  again : ∀ outcome other,
    Undisturbed sha256 cache cacheRoot after outcome other →
      ∃ refs, outcome = .ok ⟨0, refs⟩ ∧ SameAnswers other after
  disturbed : ∀ report other, Runs (Effect cache refusable)
    (importHfCache sha256 cache cacheRoot).run after (.ok report) other →
      report.revisions = 0 ∧ SameAnswers other after

/-- After any imports that were cut off, one that succeeds leaves the archive
as if it had been alone. -/
def Converges (fits : List (Event interface) → Prop) : Prop :=
  ∀ first before after report,
    Earlier sha256 cache cacheRoot refusable fits first before →
    Runs (Effect cache refusable)
      (importHfCache sha256 cache cacheRoot).run before (.ok report) after →
    AsIfAlone sha256 cache cacheRoot refusable first after

/-- Wherever an import is cut off, the complete revisions are as they
were. -/
def Additive : Prop :=
  ∀ before after, Cut (Effect cache fun _ => True)
    (importHfCache sha256 cache cacheRoot).run before after →
    ∀ repository commit revision,
      (before.dir repository).revision commit = some revision →
      revision.isComplete repository.repoType = .ok true →
      (after.dir repository).revision commit = some revision

end statements

section repeatable

variable {sha256 : Bytes → String} {cache : Cache}
  {cacheRoot : List String} {refusable : Op → Prop}

/-! ## Complete revisions -/

theorem revisions_of_refs
    {op : Refs.Op}
    {before after : RepositoryDir}
    {reply : op.Reply}
    (effect : Refs.Effect op before reply after) :
    after.revisions = before.revisions := by
  rcases effect with succeeds | refuses
  · cases op with
    | isDir commit => rw [succeeds.2]
    | createDirAll => exact succeeds.2.revisions
    | operationId => rw [succeeds.2]
    | createNew name =>
        unfold Refs.Succeeds at succeeds
        dsimp only at succeeds
        split at succeeds
        · exact succeeds.2.1
        · rw [succeeds.2]
    | write name character =>
        unfold Refs.Succeeds at succeeds
        dsimp only at succeeds
        split at succeeds
        · exact succeeds.2.1
        · rw [succeeds.2]
    | sync name => rw [succeeds.2]
    | rename old new =>
        unfold Refs.Succeeds at succeeds
        dsimp only at succeeds
        split at succeeds
        · rw [succeeds.2]
        · rw [succeeds.2]
        · exact succeeds.2.1
    | syncDirectory => rw [succeeds.2]
    | removeFile name =>
        unfold Refs.Succeeds at succeeds
        dsimp only at succeeds
        split at succeeds
        · exact succeeds.2.1
        · rw [succeeds.2]
  · cases op with
    | operationId => exact refuses.elim
    | isDir commit => rw [refuses.2]
    | createDirAll => rw [refuses.2]
    | createNew name => rw [refuses.2]
    | write name character => rw [refuses.2]
    | sync name => rw [refuses.2]
    | rename old new => rw [refuses.2]
    | syncDirectory => rw [refuses.2]
    | removeFile name => rw [refuses.2]

/-- A complete revision is not an empty directory. -/
theorem not_vacant_of_isComplete
    {repoType : RepositoryType}
    {revision : RevisionDir}
    (complete : revision.isComplete repoType = .ok true) :
    ¬revision.Vacant := by
  intro vacant
  obtain ⟨manifest, read, _⟩ := bind_eq_ok.mp complete
  obtain ⟨decoded, _⟩ := RevisionDir.readManifestFor_eq_ok.mp read
  apply vacant .manifest
  change revision.manifest ≠ .missing
  rw [decoded]
  simp

/-- Only the rename of a staging directory and the steps of a ref change a
repository. -/
theorem dir_of_effect
    {op : Op}
    {before after : World}
    {reply : op.Reply}
    (effect : Effect cache refusable op before reply after) :
    after.dir = before.dir ∨
      (∃ staging repository commit revision,
        op = .renameStaging staging repository commit ∧
          before.Free repository commit ∧
          after.dir = Function.update before.dir repository
            ((before.dir repository).putRevision commit revision)) ∨
      ∃ repository dir, dir.revisions = (before.dir repository).revisions ∧
        after.dir = Function.update before.dir repository dir := by
  rcases effect with succeeds | ⟨_, refuses⟩
  · cases op with
    | look op => exact Or.inl (by rw [succeeds.2])
    | isDir path => exact Or.inl (by rw [succeeds.2])
    | readChunks path => exact Or.inl (by rw [succeeds.2])
    | createRevisions repository => exact Or.inl (by rw [succeeds.2])
    | isPublished repository commit => exact Or.inl (by rw [succeeds.2])
    | archiveTmp => exact Or.inl (by rw [succeeds.2])
    | createStaging =>
        obtain ⟨staging, _, _, same⟩ := succeeds
        exact Or.inl (by rw [same]; rfl)
    | stage staging op =>
        unfold Succeeds at succeeds
        dsimp only at succeeds
        split at succeeds
        · exact Or.inl (by rw [succeeds.2]; rfl)
        · obtain ⟨_, left, same⟩ := succeeds
          exact Or.inl (by rw [same]; rfl)
    | renameStaging staging repository commit =>
        unfold Succeeds at succeeds
        dsimp only at succeeds
        split at succeeds
        · exact Or.inl (by rw [succeeds.2])
        · next revision _ =>
            rcases succeeds with ⟨free, _, same⟩ | ⟨_, _, same⟩
            · refine Or.inr (Or.inl ⟨staging, repository, commit, revision,
                rfl, free, ?_⟩)
              rw [same]
              rfl
            · exact Or.inl (by rw [same])
    | removeStaging staging => exact Or.inl (by rw [succeeds.2]; rfl)
    | syncRevisions repository => exact Or.inl (by rw [succeeds.2])
    | ref repository op =>
        obtain ⟨dir, done, same⟩ := succeeds
        exact Or.inr (Or.inr ⟨repository, dir,
          revisions_of_refs (Or.inl done), by rw [same]; rfl⟩)
  · cases op with
    | look op => exact Or.inl (by rw [refuses.2])
    | isDir path => exact Or.inl (by rw [refuses.2])
    | readChunks path => exact Or.inl (by rw [refuses.2.2])
    | createRevisions repository => exact Or.inl (by rw [refuses.2])
    | isPublished repository commit => exact Or.inl (by rw [refuses.2])
    | archiveTmp => exact Or.inl (by rw [refuses.2])
    | createStaging =>
        obtain ⟨_, same | ⟨staging, left, _, same⟩⟩ := refuses
        · exact Or.inl (by rw [same])
        · exact Or.inl (by rw [same]; rfl)
    | stage staging op =>
        obtain ⟨_, left, same⟩ := refuses
        exact Or.inl (by rw [same]; rfl)
    | renameStaging staging repository commit =>
        exact Or.inl (by rw [refuses.2])
    | removeStaging staging =>
        obtain ⟨_, left, same⟩ := refuses
        exact Or.inl (by rw [same]; rfl)
    | syncRevisions repository => exact Or.inl (by rw [refuses.2])
    | ref repository op =>
        obtain ⟨dir, done, same⟩ := refuses
        exact Or.inr (Or.inr ⟨repository, dir,
          revisions_of_refs (Or.inr done), by rw [same]; rfl⟩)

/-- No step touches a complete revision. -/
theorem revision_of_effect
    {op : Op}
    {before after : World}
    {reply : op.Reply}
    (effect : Effect cache refusable op before reply after)
    {repository : Repository}
    {commit : String}
    {revision : RevisionDir}
    (stands : (before.dir repository).revision commit = some revision)
    (complete : revision.isComplete repository.repoType = .ok true) :
    (after.dir repository).revision commit = some revision := by
  rcases dir_of_effect effect with same |
    ⟨_, other, name, put, _, free, same⟩ | ⟨other, dir, kept, same⟩
  · rwa [same]
  · rw [same]
    by_cases here : repository = other
    · subst here
      rw [Function.update_self, RepositoryDir.revision_putRevision]
      split
      · next named =>
          subst named
          exact absurd (free.2 revision stands)
            (not_vacant_of_isComplete complete)
      · exact stands
    · rwa [Function.update_of_ne here]
  · rw [same]
    by_cases here : repository = other
    · subst here
      rw [Function.update_self]
      unfold RepositoryDir.revision at stands ⊢
      rwa [kept]
    · rwa [Function.update_of_ne here]

theorem additive_import
    (sha256 : Bytes → String)
    (cache : Cache)
    (cacheRoot : List String) :
    Additive sha256 cache cacheRoot := by
  intro before after cut repository commit revision stands complete
  have keeps : ∀ op before reply after, True →
      Effect cache (fun _ => True) op before reply after →
      (before.dir repository).revision commit = some revision →
      (after.dir repository).revision commit = some revision :=
    fun _ _ _ _ _ effect stands => revision_of_effect effect stands complete
  exact ((only_true _).guards keeps stands).of_cut cut

/-! ## Passes over the archive -/

theorem sameAnswers_of_shown
    {one other : World}
    (same : one.shown = other.shown) :
    SameAnswers one other := by
  have revisions : ∀ repository, (one.dir repository).revisions =
      (other.dir repository).revisions := fun repository =>
    congrFun (congrArg Shown.revisions same) repository
  have revision : ∀ repository commit,
      (one.dir repository).revision commit =
        (other.dir repository).revision commit := fun repository commit => by
    rw [RepositoryDir.revision, revisions]
    rfl
  have refNode : ∀ repository name, (one.dir repository).refNode name =
      (other.dir repository).refNode name := fun repository name =>
    congrFun (congrArg Shown.refNode same) (repository, name)
  constructor
  · intro repository
    simp only [World.listRevisions, listRevisions, revisions]
  · intro repository commit
    simp only [World.readManifest, readManifestOf, revision]
  · intro repository commit path
    simp only [World.resolveFile, revision]
  · intro repository reference
    simp only [World.resolveRef, resolveRef, refNode]

theorem map_replay_step
    (items : List Item)
    (shown : Shown)
    (report : ImportReport) :
    (replay (Item.step sha256) items (shown, report)).map Prod.fst =
      replay (Item.apply sha256) items shown := by
  induction items generalizing shown report with
  | nil => rfl
  | cons item rest inductionHypothesis =>
      rw [replay_cons, replay_cons, Item.step]
      cases item.apply sha256 shown with
      | none => rfl
      | some after => exact inductionHypothesis after _

theorem cutPass_of_step
    {items : List Item}
    {before after : Shown}
    {report count : ImportReport}
    (cut : CutPass (Item.step sha256) items (before, report)
      (after, count)) :
    CutPass (Item.apply sha256) items before after := by
  obtain ⟨done, first, reached⟩ := cut
  refine ⟨done, first, ?_⟩
  rw [← map_replay_step done before report, reached]
  rfl

/-- Where everything is settled nothing is published. -/
theorem revisions_of_settled
    {items : List Item}
    {before after : Shown}
    {report count : ImportReport}
    (settled : ∀ item ∈ items, item.Settled before)
    (pass : replay (Item.step sha256) items (before, report) =
      some (after, count)) :
    count.revisions = report.revisions := by
  induction items generalizing before report with
  | nil =>
      cases pass
      rfl
  | cons item rest inductionHypothesis =>
      obtain ⟨now, later⟩ := List.forall_mem_cons.mp settled
      obtain ⟨⟨middle, next⟩, stepped, remaining⟩ :=
        Option.bind_eq_some_iff.mp pass
      obtain ⟨_, applied, same⟩ := Option.map_eq_some_iff.mp stepped
      cases same
      rw [inductionHypothesis (fun other member =>
        (later other member).after_apply applied) remaining]
      cases item with
      | publish repoType request => rw [Item.count, if_pos now.done.2]
      | setRef repository reference commit => rfl
      | unreadable => exact now.done.elim

/-! ## Undisturbed imports -/

theorem exists_succeeds
    (cache : Cache)
    (op : Op)
    (before : World) :
    ∃ reply after, Succeeds cache op before reply after := by
  cases op with
  | look op => exact ⟨_, before, rfl, rfl⟩
  | isDir path => exact ⟨_, before, rfl, rfl⟩
  | readChunks path =>
      cases found : cache.disk.metadata path with
      | error error => exact ⟨([], none), before, by simp [found], rfl⟩
      | ok node =>
          cases node with
          | file content =>
              refine ⟨([content], none), before, ?_, rfl⟩
              intro other same
              cases found.symm.trans same
              simp
          | directory => exact ⟨([], none), before, by simp [found], rfl⟩
          | link target => exact ⟨([], none), before, by simp [found], rfl⟩
  | createRevisions repository => exact ⟨_, before, rfl, rfl⟩
  | isPublished repository commit => exact ⟨_, before, rfl, rfl⟩
  | archiveTmp => exact ⟨_, before, rfl, rfl⟩
  | createStaging =>
      obtain ⟨staging, unused⟩ := Infinite.exists_notMem_finset before.names
      refine ⟨.ok staging, _, staging, ?_, rfl, rfl⟩
      by_contra taken
      exact unused (before.mem_names staging
        (Option.isSome_iff_ne_none.mpr taken))
  | stage staging op =>
      unfold Succeeds
      dsimp only
      split
      · exact ⟨_, _, rfl, rfl⟩
      · exact ⟨_, _, ⟨.other, rfl⟩, none, rfl⟩
  | renameStaging staging repository commit =>
      unfold Succeeds
      dsimp only
      split
      · exact ⟨_, _, rfl, rfl⟩
      · by_cases free : before.Free repository commit
        · exact ⟨_, _, Or.inl ⟨free, rfl, rfl⟩⟩
        · exact ⟨_, _, Or.inr ⟨free, rfl, rfl⟩⟩
  | removeStaging staging => exact ⟨_, _, rfl, rfl⟩
  | syncRevisions repository => exact ⟨_, before, rfl, rfl⟩
  | ref repository op =>
      obtain ⟨reply, dir, succeeds⟩ :=
        Refs.exists_succeeds op (before.dir repository)
      exact ⟨reply, _, dir, succeeds, rfl⟩

theorem exists_undisturbed
    (sha256 : Bytes → String)
    (cache : Cache)
    (cacheRoot : List String)
    (before : World) :
    ∃ outcome after,
      Undisturbed sha256 cache cacheRoot before outcome after := by
  apply exists_runs
  intro op start
  obtain ⟨reply, after, succeeds⟩ := exists_succeeds cache op start
  exact ⟨reply, after, Or.inl succeeds⟩

/-- A run of an import is a pass over what its cache asks for. -/
theorem ends_of_runs
    {before after : World}
    {outcome : Except ArchiveError ImportReport}
    (careful : ∀ op, refusable op → ¬op.Probes)
    (run : Runs (Effect cache refusable)
      (importHfCache sha256 cache cacheRoot).run before outcome after) :
    ∃ steps, Ends refusable sha256 (cache.plan cacheRoot) before.shown ⟨0, 0⟩
      outcome (after, steps) := by
  obtain ⟨steps, logs⟩ := run.exists_logged []
  exact ⟨steps,
    ((guards_importHfCache careful cacheRoot before).of_runs logs).2⟩

/-- An undisturbed import succeeds where what is asked for can be done. -/
theorem shown_of_undisturbed
    {before after : World}
    {final : Shown}
    {outcome : Except ArchiveError ImportReport}
    (run : Undisturbed sha256 cache cacheRoot before outcome after)
    (pass : replay (Item.apply sha256) (cache.plan cacheRoot) before.shown =
      some final) :
    ∃ report, outcome = .ok report ∧ after.shown = final ∧
      replay (Item.step sha256) (cache.plan cacheRoot)
        (before.shown, ⟨0, 0⟩) = some (final, report) := by
  obtain ⟨_, ends⟩ := ends_of_runs (fun _ never => never.elim) run
  rw [← map_replay_step _ _ ⟨0, 0⟩] at pass
  cases outcome with
  | ok report =>
      have whole := ends.2
      rw [whole] at pass
      cases pass
      exact ⟨report, rfl, rfl, whole⟩
  | error error =>
      rcases ends with ⟨_, never⟩ | none
      · exact never.elim
      · rw [none] at pass
        cases pass

/-! ## Imports after others -/

theorem cuts_of_earlier
    {first before : World}
    (careful : ∀ op, refusable op → ¬op.Probes)
    (earlier : Earlier sha256 cache cacheRoot refusable
      (fun steps => pending steps = false) first before) :
    Relation.ReflTransGen
      (CutPass (Item.apply sha256) (cache.plan cacheRoot))
      first.shown before.shown := by
  induction earlier with
  | none => exact .refl
  | another earlier cut settled inductionHypothesis =>
      apply inductionHypothesis.tail
      obtain ⟨count, reached⟩ :=
        (guards_importHfCache careful cacheRoot _).of_cut cut settled
      exact cutPass_of_step reached

theorem converges_import
    (careful : ∀ op, refusable op → ¬op.Probes) :
    Converges sha256 cache cacheRoot refusable
      (fun steps => pending steps = false) := by
  intro first before after report earlier later
  have repeats := repeats_apply sha256
  obtain ⟨_, _, whole⟩ := ends_of_runs careful later
  have pass : replay (Item.apply sha256) (cache.plan cacheRoot)
      before.shown = some after.shown := by
    rw [← map_replay_step _ _ ⟨0, 0⟩, whole]
    rfl
  have alone := (repeats.replay_eq_of_cuts
    (cuts_of_earlier careful earlier)).symm.trans pass
  have again := repeats _ _ _ pass
  have settled : ∀ item ∈ cache.plan cacheRoot,
      item.Settled after.shown :=
    settled_of_replay (fun _ _ _ => settled_of_apply)
      (fun _ _ _ _ settled => settled.after_apply) pass
  constructor
  · exact exists_undisturbed ..
  · intro outcome other run
    obtain ⟨report, same, shown, _⟩ := shown_of_undisturbed run alone
    exact ⟨⟨report, same⟩, sameAnswers_of_shown shown⟩
  · exact exists_undisturbed ..
  · intro outcome other run
    obtain ⟨report, same, shown, whole⟩ := shown_of_undisturbed run again
    obtain ⟨revisions, refs⟩ := report
    have none : revisions = 0 := revisions_of_settled settled whole
    subst none
    exact ⟨refs, same, sameAnswers_of_shown shown⟩
  · intro report other run
    obtain ⟨_, _, whole⟩ := ends_of_runs careful run
    refine ⟨revisions_of_settled settled whole, sameAnswers_of_shown ?_⟩
    rw [← map_replay_step _ _ ⟨0, 0⟩, whole] at again
    exact Option.some.inj again

/-- Imports of a cache change no complete revision, and converge unless a
refusal is taken for an answer or the temporary file of a ref is left. -/
theorem import_repeatable
    (sha256 : Bytes → String)
    (cache : Cache)
    (cacheRoot : List String) :
    Additive sha256 cache cacheRoot ∧
      Converges sha256 cache cacheRoot (fun op => ¬op.Probes)
        (fun steps => pending steps = false) :=
  ⟨additive_import sha256 cache cacheRoot,
    converges_import fun _ => id⟩

end repeatable

/-! ## A ref that was cut off -/

def sampleRepository : Repository := ⟨.model, "org/model"⟩

/-- A repository with one ref. -/
def sampleTree : FileTree Bytes :=
  ((FileTree.empty.makeDirectories
      ["models--org--model", "snapshots"]).bind fun tree =>
    (tree.makeDirectories ["models--org--model", "refs"]).bind fun tree =>
      tree.createFile ["models--org--model", "refs", "main"]
        [97]).getD .empty

def sampleCache : Cache where
  tree := sampleTree
  refusal := fun _ => .notFound
  listing := fun place => FileTree.sortNames (sampleTree.entries place)
  listed := fun _ => .refl _
  text := id

/-- Every repository has one revision, and no refs. -/
def sampleWorld : World where
  dir := fun _ => Refs.sample
  occupied := fun _ _ => false
  staging := fun _ => none
  names := ∅
  mem_names := by simp

/-- The temporary file of the ref was created. -/
def sampleLeft : World := sampleWorld.setDir sampleRepository Refs.sampleLeft

/-- The steps that were taken. -/
def sampleSteps : List (Event interface) :=
  [⟨.look (.canonicalize []), .ok []⟩,
    ⟨.look (.readDir []), .ok ["models--org--model"]⟩,
    ⟨.look (.nextEntry []), .ok ()⟩,
    ⟨.look (.fileType ["models--org--model"]), .ok .directory⟩,
    ⟨.isDir ["models--org--model", "snapshots"], true⟩,
    ⟨.look (.readDir ["models--org--model", "snapshots"]), .ok []⟩,
    ⟨.look (.nextEntry ["models--org--model", "snapshots"]), .ok ()⟩,
    ⟨.isDir ["models--org--model", "refs"], true⟩,
    ⟨.look (.readDir ["models--org--model", "refs"]), .ok ["main"]⟩,
    ⟨.look (.nextEntry ["models--org--model", "refs"]), .ok ()⟩,
    ⟨.look (.fileType ["models--org--model", "refs", "main"]),
      .ok (.file [97])⟩,
    ⟨.look (.readToString ["models--org--model", "refs", "main"]), .ok "a"⟩,
    ⟨.ref sampleRepository (.isDir "a"), true⟩,
    ⟨.ref sampleRepository .createDirAll, .ok ()⟩,
    ⟨.ref sampleRepository .operationId, "0"⟩,
    ⟨.ref sampleRepository (.createNew (Refs.temporaryName "main" "0")),
      .ok ()⟩]

theorem sample_cut :
    Cut (logged (Effect sampleCache fun _ => True))
      (importHfCache (fun _ => "") sampleCache []).run (sampleWorld, [])
      (sampleLeft, sampleSteps) := by
  have decoded : decodeRepositoryName (sampleCache.text
      "models--org--model") = some sampleRepository := by decide +kernel
  have trimmed : Archive.trim "a" = "a" := by decide +kernel
  have named : validateRepoId sampleRepository.repoId =
      .ok ("org", "model") := by decide +kernel
  have safe : validateComponent (sampleCache.text "main") = .ok () := by
    decide +kernel
  have valid : validateRevision "a" = .ok () := by decide +kernel
  refine Or.inr ⟨.ok [], (sampleWorld, sampleSteps.take 1),
    ⟨Or.inl ⟨by decide +kernel, rfl⟩, rfl⟩, ?_⟩
  refine Or.inr ⟨.ok ["models--org--model"],
    (sampleWorld, sampleSteps.take 2),
    ⟨Or.inl ⟨by decide +kernel, rfl⟩, rfl⟩, ?_⟩
  refine Or.inr ⟨.ok (), (sampleWorld, sampleSteps.take 3),
    ⟨Or.inl ⟨by decide +kernel, rfl⟩, rfl⟩, ?_⟩
  refine Or.inr ⟨.ok .directory, (sampleWorld, sampleSteps.take 4),
    ⟨Or.inl ⟨by decide +kernel, rfl⟩, rfl⟩, ?_⟩
  rw [decoded]
  refine Or.inr ⟨true, (sampleWorld, sampleSteps.take 5),
    ⟨Or.inl ⟨by decide +kernel, rfl⟩, rfl⟩, ?_⟩
  refine Or.inr ⟨.ok [], (sampleWorld, sampleSteps.take 6),
    ⟨Or.inl ⟨by decide +kernel, rfl⟩, rfl⟩, ?_⟩
  refine Or.inr ⟨.ok (), (sampleWorld, sampleSteps.take 7),
    ⟨Or.inl ⟨by decide +kernel, rfl⟩, rfl⟩, ?_⟩
  refine Or.inr ⟨true, (sampleWorld, sampleSteps.take 8),
    ⟨Or.inl ⟨by decide +kernel, rfl⟩, rfl⟩, ?_⟩
  refine Or.inr ⟨.ok ["main"], (sampleWorld, sampleSteps.take 9),
    ⟨Or.inl ⟨by decide +kernel, rfl⟩, rfl⟩, ?_⟩
  refine Or.inr ⟨.ok (), (sampleWorld, sampleSteps.take 10),
    ⟨Or.inl ⟨by decide +kernel, rfl⟩, rfl⟩, ?_⟩
  refine Or.inr ⟨.ok (.file [97]), (sampleWorld, sampleSteps.take 11),
    ⟨Or.inl ⟨by decide +kernel, rfl⟩, rfl⟩, ?_⟩
  refine Or.inr ⟨.ok "a", (sampleWorld, sampleSteps.take 12),
    ⟨Or.inl ⟨by decide +kernel, rfl⟩, rfl⟩, ?_⟩
  have same : sampleWorld =
      sampleWorld.setDir sampleRepository Refs.sample := by
    unfold World.setDir
    rw [show Refs.sample = sampleWorld.dir sampleRepository from rfl,
      Function.update_eq_self]
  dsimp only [Program.bind, ExceptT.bindCont]
  rw [trimmed, if_neg (by decide)]
  unfold Refs.updateRef
  rw [named, safe, valid]
  refine Or.inr ⟨true, (sampleWorld, sampleSteps.take 13),
    ⟨Or.inl ⟨Refs.sample, ⟨rfl, rfl⟩, same⟩, rfl⟩, ?_⟩
  refine Or.inr ⟨.ok (), (sampleWorld, sampleSteps.take 14),
    ⟨Or.inl ⟨Refs.sample, ⟨rfl, rfl, rfl⟩, same⟩, rfl⟩, ?_⟩
  refine Or.inr ⟨"0", (sampleWorld, sampleSteps.take 15),
    ⟨Or.inl ⟨Refs.sample, ⟨fun _ => rfl, rfl⟩, same⟩, rfl⟩, ?_⟩
  exact Or.inr ⟨.ok (), (sampleLeft, sampleSteps),
    ⟨Or.inl ⟨Refs.sampleLeft, ⟨rfl, Refs.sample_sets⟩, rfl⟩, rfl⟩,
    cut_refl _ _⟩

theorem sample_writes :
    writesOf (sampleCache.plan []) =
      [((sampleRepository, "main"), some (.file (some "a")))] := by
  decide +kernel

theorem sample_asked :
    (replay (Item.apply fun _ => "") (sampleCache.plan [])
      sampleLeft.shown).isSome = true := by
  decide +kernel

/-- Imports that were cut off do not always stay unseen: the temporary file
that one of them left is resolved as a ref. -/
theorem import_leaves_ref :
    ¬∀ (sha256 : Bytes → String) (cache : Cache) (cacheRoot : List String),
      Additive sha256 cache cacheRoot ∧
        Converges sha256 cache cacheRoot (fun _ => True)
          (fun _ => True) := by
  intro repeatable
  obtain ⟨_, converges⟩ := repeatable (fun _ => "") sampleCache []
  obtain ⟨final, asked⟩ := Option.isSome_iff_exists.mp sample_asked
  obtain ⟨outcome, after, later⟩ := exists_undisturbed (fun _ => "")
    sampleCache [] sampleLeft
  obtain ⟨report, rfl, shown, _⟩ := shown_of_undisturbed later asked
  have whole : Runs (Effect sampleCache fun _ => True)
      (importHfCache (fun _ => "") sampleCache []).run sampleLeft
      (.ok report) after :=
    Runs.mono (fun _ _ _ _ => Or.imp_right fun never => never.1.elim) later
  have asIf := converges sampleWorld sampleLeft after report
    (.another .none sample_cut trivial) whole
  obtain ⟨_, other, alone⟩ := asIf.exists_alone
  obtain ⟨⟨_, rfl⟩, same⟩ := asIf.alone _ other alone
  obtain ⟨_, _, only⟩ := ends_of_runs (fun _ never => never.elim) alone
  have pass : replay (Item.apply fun _ => "") (sampleCache.plan [])
      sampleWorld.shown = some other.shown := by
    rw [← map_replay_step _ _ ⟨0, 0⟩, only]
    rfl
  have left : (after.dir sampleRepository).refNode
      (Refs.temporaryName "main" "0") = some (.file (some "")) := by
    change after.shown.refNode
      (sampleRepository, Refs.temporaryName "main" "0") = _
    rw [shown, refNode_of_replay asked, sample_writes]
    decide +kernel
  have free : (other.dir sampleRepository).refNode
      (Refs.temporaryName "main" "0") = none := by
    change other.shown.refNode
      (sampleRepository, Refs.temporaryName "main" "0") = _
    rw [refNode_of_replay pass, sample_writes]
    decide +kernel
  have unlike := same.resolveRef sampleRepository
    (Refs.temporaryName "main" "0")
  unfold World.resolveRef ModelKeep.resolveRef at unlike
  rw [left, free] at unlike
  revert unlike
  decide +kernel

end Importing
end ModelKeep
