import ModelKeep.Concurrency.Simulation
import ModelKeep.Importing.Copying
import ModelKeep.Refs.Faults

/-!
# The import does what the cache asks for

Wherever an import is cut off it has done some first part of what its cache
asks for, unless it has left the temporary file of a ref.  If it succeeds it
has done all of it, and it fails only when a step was refused or something
cannot be done.
-/

namespace ModelKeep
namespace Importing

open Concurrency Program Replay

section following

variable {cache : Cache} {refusable : Op → Prop} {sha256 : Bytes → String}
  {α : Type}

/-! ## Publishing -/

theorem shown_putRevision
    (world : World)
    (repository : Repository)
    (commit : String)
    (revision : RevisionDir) :
    (world.setDir repository
        ((world.dir repository).putRevision commit revision)).shown =
      world.shown.putRevision repository commit revision := by
  unfold World.shown World.setDir Shown.putRevision
  congr 1
  · funext other
    by_cases same : other = repository
    · subst same
      simp only [Function.update_self]
      rfl
    · simp only [Function.update_of_ne same]
  · funext key
    change (Function.update world.dir repository _ key.1).refNode key.2 =
      (world.dir key.1).refNode key.2
    by_cases same : key.1 = repository
    · rw [same, Function.update_self, RepositoryDir.refNode_putRevision]
    · rw [Function.update_of_ne same]

theorem free_of_not_published
    {world : World}
    {repository : Repository}
    {commit : String}
    (absent : world.shown.isPublished repository commit = false) :
    world.Free repository commit := by
  rw [Shown.isPublished, Bool.or_eq_false_iff] at absent
  refine ⟨absent.2, fun revision stands => ?_⟩
  have none : ((world.dir repository).revision commit).isSome = false :=
    absent.1
  rw [stands] at none
  cases none

section staging

variable {world : World} {staging : String} {revision : RevisionDir}
  {repository : Repository} {commit : String} {start : Logged}

/-- The revision that is published with this in its staging directory. -/
def unleased (revision : RevisionDir) : RevisionDir :=
  { revision with tree := Publishing.removeStagingLease revision.tree }

/-- Nothing is published yet, or this is. -/
def Puts (world : World) (repository : Repository) (commit : String)
    (revision : RevisionDir) (state : Logged) : Prop :=
  pending state.2 = false ∧
    (state.1.shown = world.shown ∨
      state.1.shown =
        world.shown.putRevision repository commit (unleased revision))

theorem Within.puts (within : Within world staging start) :
    Puts world repository commit revision start := by
  obtain ⟨⟨left, same⟩, settled⟩ := within
  refine ⟨settled, Or.inl ?_⟩
  rw [same, shown_setStaging]

/-- A staging directory may be removed. -/
theorem within_of_removeStaging
    {after : Logged}
    {reply : Op.Reply (.removeStaging staging)}
    (within : Within world staging start)
    (removes : logged (Effect cache refusable) (.removeStaging staging) start
      reply after) :
    Within world staging after := by
  obtain ⟨⟨left, same⟩, settled⟩ := within
  obtain ⟨removed, steps⟩ := removes
  refine ⟨?_, by rw [steps, pending_append, settled]; rfl⟩
  rcases removed with ⟨_, changed⟩ | ⟨_, _, other, changed⟩ <;>
    exact ⟨_, by rw [changed, same, setStaging_setStaging]⟩

theorem guards_renameStaging
    (careful : ∀ op, refusable op → ¬op.Probes)
    (absent : world.shown.isPublished repository commit = false)
    (here : At world staging revision start) :
    Guards (logged (Effect cache refusable))
      (Puts world repository commit revision)
      (renameStaging staging repository commit).run
      (fun outcome state =>
        match outcome with
        | .ok () => state.1.shown =
            world.shown.putRevision repository commit (unleased revision)
        | .error error => Mishap error ∧ ∃ op, refusable op) start := by
  unfold renameStaging
  apply Guards.exceptBind
  apply ((fills_stage .removeLease start here).widen
    fun state => Within.puts).mono
  intro outcome leaseless _ ends
  cases outcome with
  | error error =>
      obtain ⟨mishap, may | none⟩ := ends
      · exact ⟨mishap, may⟩
      · cases none
  | ok _ =>
  obtain ⟨next, same, here⟩ := ends
  cases same
  change At world staging (unleased revision) leaseless at here
  apply Guards.exceptBind
  rw [run_always]
  apply Guards.bind
  apply guards_perform here.within.puts
  rintro reply renamed ⟨renames, steps⟩
  have settled : pending renamed.2 = false := by
    rw [steps, pending_append, here.2]
    rfl
  rcases renames with succeeds | ⟨may, ⟨kind, rfl⟩, same⟩
  · simp only [Succeeds, here.1, staging_setStaging] at succeeds
    rcases succeeds with ⟨_, rfl, changed⟩ | ⟨occupied, _⟩
    · have put : renamed.1.shown = world.shown.putRevision repository commit
          (unleased revision) := by
        rw [changed, ← shown_putRevision]
        rfl
      have puts : Puts world repository commit revision renamed :=
        ⟨settled, Or.inr put⟩
      refine ⟨puts, puts, guards_perform puts ?_⟩
      rintro reply after ⟨syncs, steps⟩
      have settledToo : pending after.2 = false := by
        rw [steps, pending_append, settled]
        rfl
      rcases syncs with ⟨rfl, same⟩ | ⟨may, ⟨kind, rfl⟩, same⟩
      · rw [← same] at put
        exact ⟨⟨settledToo, Or.inr put⟩, put⟩
      · rw [← same] at put
        exact ⟨⟨settledToo, Or.inr put⟩, mishap_io kind, _, may⟩
    · exact absurd (free_of_not_published absent) occupied
  · have within : Within world staging renamed :=
      ⟨⟨_, same.trans here.1⟩, settled⟩
    refine ⟨within.puts, within.puts, ?_⟩
    apply Guards.exceptBind
    rw [run_always]
    apply Guards.bind
    apply guards_perform within.puts
    intro _ removed removes
    have within := within_of_removeStaging within removes
    refine ⟨within.puts, within.puts, ?_⟩
    apply Guards.exceptBind
    rw [run_always]
    apply Guards.bind
    apply guards_perform within.puts
    rintro published asked ⟨⟨rfl, same⟩ | ⟨probed, _⟩, steps⟩
    on_goal 2 => exact absurd trivial (careful _ probed)
    obtain ⟨⟨left, shape⟩, settled⟩ := within
    have none : removed.1.isPublished repository commit = false := by
      rw [shape]
      exact absent
    have within : Within world staging asked :=
      ⟨⟨left, same.trans shape⟩, by rw [steps, pending_append, settled]; rfl⟩
    refine ⟨within.puts, within.puts, ?_⟩
    rw [none]
    exact ⟨within.puts, mishap_io kind, _, may⟩

variable {repoType : RepositoryType}
  {request : FileSystem.SourcePublishRequest} {sourceRoot : List String}

/-- The revision that is asked for may have been put in place. -/
def PutsFound (sha256 : Bytes → String) (world : World)
    (repoType : RepositoryType) (request : Publishing.PublishRequest)
    (state : Logged) : Prop :=
  pending state.2 = false ∧
    (state.1.shown = world.shown ∨
      ∃ revision, Publishing.writeRevision sha256 repoType request =
          .ok revision ∧
        state.1.shown = world.shown.putRevision ⟨repoType, request.repoId⟩
          request.commit revision)

theorem Within.putsFound
    {request : Publishing.PublishRequest}
    (within : Within world staging start) :
    PutsFound sha256 world repoType request start := by
  obtain ⟨⟨left, same⟩, settled⟩ := within
  exact ⟨settled, Or.inl (by rw [same, shown_setStaging])⟩

theorem guards_publishStaging
    (careful : ∀ op, refusable op → ¬op.Probes)
    (absent : world.shown.isPublished ⟨repoType, request.repoId⟩
      request.commit = false)
    (here : At world staging freshStaging start) :
    Guards (logged (Effect cache refusable))
      (PutsFound sha256 world repoType
        (foundRequest cache sourceRoot request))
      (publishStaging staging ⟨repoType, request.repoId⟩ request.commit
        (writeSourceRevision sha256 staging sourceRoot repoType request)).run
      (fun outcome state =>
        match outcome with
        | .ok () => ∃ revision,
            Publishing.writeRevision sha256 repoType
                (foundRequest cache sourceRoot request) = .ok revision ∧
              state.1.shown = world.shown.putRevision
                ⟨repoType, request.repoId⟩ request.commit revision
        | .error error => Mishap error ∧ ((∃ op, refusable op) ∨
            ∃ error, Publishing.writeRevision sha256 repoType
              (foundRequest cache sourceRoot request) = .error error))
      start := by
  unfold publishStaging
  apply Guards.exceptBind
  rw [run_always]
  apply Guards.bind
  have fills : Fills cache refusable world staging
      (writeSourceRevision sha256 staging sourceRoot repoType request)
      freshStaging _ := fills_writeSourceRevision repoType request
  apply ((fills start here).ends.widen fun state => Within.putsFound).mono
  rintro outcome written intact ⟨within, ends⟩
  refine ⟨intact, ?_⟩
  cases outcome with
  | ok _ =>
      obtain ⟨revision, same, there⟩ := ends
      obtain ⟨_, whole, same⟩ := Option.map_eq_some_iff.mp same
      cases same
      have made : Publishing.writeRevision sha256 repoType
          (foundRequest cache sourceRoot request) =
            .ok (unleased revision) := by
        rw [writeRevision_eq, toOption_eq_some.mp whole]
        rfl
      have renames := @guards_renameStaging cache refusable _ _ _ _ _ _
        careful absent there
      apply Guards.mono (renames.widen _)
      · intro outcome state _ ends
        cases outcome with
        | ok _ => exact ⟨_, made, ends⟩
        | error error => exact ⟨ends.1, Or.inl ends.2⟩
      · rintro state ⟨settled, same | put⟩
        · exact ⟨settled, Or.inl same⟩
        · exact ⟨settled, Or.inr ⟨_, made, put⟩⟩
  | error error =>
      apply Guards.exceptBind
      rw [run_always]
      apply Guards.bind
      apply guards_perform within.putsFound
      intro _ removed removes
      have within := within_of_removeStaging within removes
      refine ⟨within.putsFound, within.putsFound, within.putsFound, ends.1,
        ends.2.imp_right fun none => ?_⟩
      obtain ⟨other, failed⟩ :=
        toOption_eq_none.mp (Option.map_eq_none_iff.mp none)
      exact ⟨other, by rw [writeRevision_eq, failed]; rfl⟩

end staging

/-! ### From the request on -/

/-- The readers see this, and no temporary file is there. -/
def Quiet (shown : Shown) (state : Logged) : Prop :=
  state.1.shown = shown ∧ pending state.2 = false

theorem Quiet.still
    {shown : Shown}
    {state next : Logged}
    {step : Event interface}
    (quiet : Quiet shown state)
    (same : next.1.shown = state.1.shown)
    (steps : next.2 = state.2 ++ [step])
    (silent : pendingAfter false step = false) :
    Quiet shown next := by
  refine ⟨same.trans quiet.1, ?_⟩
  rw [steps, pending_append, quiet.2, silent]

variable (sha256) in
/-- An act has been done, or not yet. -/
def Does (item : Item) (shown : Shown) (state : Logged) : Prop :=
  pending state.2 = false ∧
    (state.1.shown = shown ∨ item.apply sha256 shown = some state.1.shown)

theorem Quiet.does
    {item : Item}
    {shown : Shown}
    {state : Logged}
    (quiet : Quiet shown state) :
    Does sha256 item shown state :=
  ⟨quiet.2, Or.inl quiet.1⟩

variable (refusable sha256) in
/-- How a publication answers. -/
def Publishes (item : Item) (shown : Shown) :
    Except ArchiveError Unit → Logged → Prop
  | .ok (), state => ∀ report, item.step sha256 (shown, report) =
      some (state.1.shown, { report with revisions := report.revisions + 1 })
  | .error error, state =>
      (∃ commit, error = .alreadyPublished commit) ∧
          (∀ report, item.step sha256 (shown, report) =
            some (state.1.shown, report)) ∨
        Mishap error ∧
          ((∃ op, refusable op) ∨ item.apply sha256 shown = none)

section publish

variable {repoType : RepositoryType}
  {request : FileSystem.SourcePublishRequest} {sourceRoot : List String}
  {shown : Shown} {start : Logged}

theorem checkSource_foundRequest :
    Operations.checkSource
        (.files (foundRequest cache sourceRoot request)) =
      checkRequest request := by
  have empty : (Publishing.Source.files
      (foundRequest cache sourceRoot request)).paths = [] ↔
        request.files = [] := by
    change ((request.files.map (cache.archiveFile sourceRoot)).map
      Publishing.ArchiveFile.path) = [] ↔ _
    rw [List.map_eq_nil_iff, List.map_eq_nil_iff]
  unfold Operations.checkSource checkRequest
  simp only [empty]
  rfl

/-- What cannot be checked cannot be published. -/
theorem apply_publishItem_of_invalid
    {error : ArchiveError}
    (invalid : checkRequest request = .error error) :
    (cache.publishItem repoType request).apply sha256 shown = none := by
  unfold Cache.publishItem
  split
  · rfl
  · next sourceRoot _ =>
      split
      · change Item.apply sha256 (.publish repoType
          (foundRequest cache sourceRoot request)) shown = none
        simp only [Item.apply, checkSource_foundRequest, invalid]
      · rfl

theorem publishItem_eq
    (leads : cache.disk.canonicalize request.sourceRoot = .ok sourceRoot)
    (directory : cache.disk.metadata sourceRoot = .ok .directory) :
    cache.publishItem repoType request =
      .publish repoType (foundRequest cache sourceRoot request) := by
  simp only [Cache.publishItem, leads, directory]
  rfl

/-- Of a directory that has to be there. -/
theorem guards_isDirectory
    {item : Item}
    {path : List String}
    (quiet : Quiet shown start) :
    Guards (logged (Effect cache refusable)) (Does sha256 item shown)
      (isDirectory path)
      (fun found state => Quiet shown state ∧
        if found then cache.disk.metadata path = .ok .directory
        else (∃ op, refusable op) ∨
          cache.disk.metadata path ≠ .ok .directory) start := by
  unfold isDirectory
  apply Guards.bind
  apply guards_perform quiet.does
  rintro reply after ⟨answers, steps⟩
  have same : after.1 = start.1 := by
    rcases answers with ⟨_, same⟩ | ⟨_, _, same⟩ <;> exact same
  have still := quiet.still (congrArg World.shown same) steps rfl
  refine ⟨still.does, ?_⟩
  rcases answers with ⟨rfl, _⟩ | ⟨may, ⟨kind, rfl⟩, _⟩
  · split
    · next directory => exact ⟨still.does, still, directory⟩
    · next other => exact ⟨still.does, still, Or.inr other⟩
  · exact ⟨still.does, still, Or.inl ⟨_, may⟩⟩

/-- What a revision that is not there yet is published as. -/
theorem step_publish_of_absent
    {request : Publishing.PublishRequest}
    (checked : Operations.checkSource (.files request) = .ok ())
    (absent : shown.isPublished ⟨repoType, request.repoId⟩ request.commit =
      false) :
    (Item.publish repoType request).apply sha256 shown =
        (Publishing.writeRevision sha256 repoType request).toOption.map
          (shown.putRevision ⟨repoType, request.repoId⟩ request.commit) ∧
      ∀ report, (Item.publish repoType request).count shown report =
        { report with revisions := report.revisions + 1 } := by
  simp only [Item.apply, Item.count, checked, absent]
  refine ⟨?_, fun _ => rfl⟩
  cases Publishing.writeRevision sha256 repoType request <;> rfl

theorem guards_publishCopied
    (careful : ∀ op, refusable op → ¬op.Probes)
    (checked : checkRequest request = .ok ())
    (quiet : Quiet shown start) :
    Guards (logged (Effect cache refusable))
      (Does sha256 (.publish repoType
        (foundRequest cache sourceRoot request)) shown)
      (do
        attempt (perform (.createRevisions ⟨repoType, request.repoId⟩))
        if ← always (perform (.isPublished ⟨repoType, request.repoId⟩
            request.commit)) then
          check (.error (.alreadyPublished request.commit))
        else do
          attempt (perform .archiveTmp)
          let staging ← attempt (perform .createStaging)
          publishStaging staging ⟨repoType, request.repoId⟩ request.commit
            (writeSourceRevision sha256 staging sourceRoot repoType
              request) : Action Unit).run
      (Publishes refusable sha256 (.publish repoType
        (foundRequest cache sourceRoot request)) shown) start := by
  have agreed : Operations.checkSource
      (.files (foundRequest cache sourceRoot request)) = .ok () :=
    checkSource_foundRequest.trans checked
  apply Guards.exceptBind
  apply guards_perform quiet.does
  rintro reply made ⟨makes, steps⟩
  have same : made.1 = start.1 := by
    rcases makes with ⟨_, same⟩ | ⟨_, _, same⟩ <;> exact same
  replace quiet := quiet.still (congrArg World.shown same) steps rfl
  clear steps same
  refine ⟨quiet.does, ?_⟩
  cases reply with
  | error error =>
      rcases makes with ⟨⟨⟩, _⟩ | ⟨may, ⟨kind, ⟨⟩⟩, _⟩
      exact Or.inr ⟨mishap_io kind, Or.inl ⟨_, may⟩⟩
  | ok _ =>
  clear makes
  apply Guards.exceptBind
  rw [run_always]
  apply Guards.bind
  apply guards_perform quiet.does
  rintro published asked ⟨⟨answered, same⟩ | ⟨probed, _⟩, steps⟩
  on_goal 2 => exact absurd trivial (careful _ probed)
  replace answered : published = shown.isPublished
      ⟨repoType, request.repoId⟩ request.commit := by
    rw [← quiet.1]
    exact answered
  replace quiet := quiet.still (congrArg World.shown same) steps rfl
  clear steps same
  refine ⟨quiet.does, quiet.does, ?_⟩
  cases published with
  | true =>
      refine ⟨quiet.does, Or.inl ⟨⟨_, rfl⟩, fun report => ?_⟩⟩
      simp only [Item.step, Item.apply, Item.count, agreed, quiet.1]
      change (if shown.isPublished ⟨repoType, request.repoId⟩
        request.commit = true then _ else _ : Option Shown).map _ = _
      rw [← answered]
      change some (shown, if shown.isPublished ⟨repoType, request.repoId⟩
        request.commit = true then _ else _) = _
      rw [← answered]
      rfl
  | false =>
  have absent := answered.symm
  clear answered
  apply Guards.exceptBind
  apply guards_perform quiet.does
  rintro reply found ⟨finds, steps⟩
  have same : found.1 = asked.1 := by
    rcases finds with ⟨_, same⟩ | ⟨_, _, same⟩ <;> exact same
  replace quiet := quiet.still (congrArg World.shown same) steps rfl
  clear steps same
  refine ⟨quiet.does, ?_⟩
  cases reply with
  | error error =>
      rcases finds with ⟨⟨⟩, _⟩ | ⟨may, ⟨kind, ⟨⟩⟩, _⟩
      exact Or.inr ⟨mishap_io kind, Or.inl ⟨_, may⟩⟩
  | ok _ =>
  clear finds
  apply Guards.exceptBind
  apply guards_perform quiet.does
  rintro reply staged ⟨creates, steps⟩
  have same : staged.1.shown = found.1.shown := by
    rcases creates with ⟨_, _, _, same⟩ |
      ⟨_, _, same | ⟨_, _, _, same⟩⟩ <;> rw [same]
    · rfl
    · rfl
  have still := quiet.still same steps rfl
  refine ⟨still.does, ?_⟩
  cases reply with
  | error error =>
      rcases creates with ⟨_, _, ⟨⟩, _⟩ | ⟨may, ⟨kind, ⟨⟩⟩, _⟩
      exact Or.inr ⟨mishap_io kind, Or.inl ⟨_, may⟩⟩
  | ok staging =>
      rcases creates with ⟨name, _, named, created⟩ | ⟨_, ⟨_, ⟨⟩⟩, _⟩
      cases named
      have here : At found.1 staging freshStaging staged :=
        ⟨created, still.2⟩
      rw [← quiet.1] at absent ⊢
      have publishes := @guards_publishStaging cache refusable sha256 _ _ _
        repoType request sourceRoot careful absent here
      obtain ⟨applied, counted⟩ := @step_publish_of_absent sha256 _ _
        (foundRequest cache sourceRoot request) agreed absent
      apply Guards.mono (publishes.widen _)
      · intro outcome state _ ends
        cases outcome with
        | ok _ =>
            obtain ⟨revision, written, put⟩ := ends
            intro report
            rw [Item.step, applied, written, counted, put]
            rfl
        | error error =>
            refine Or.inr ⟨ends.1, ends.2.imp_right ?_⟩
            rintro ⟨other, failed⟩
            rw [applied, failed]
            rfl
      · rintro state ⟨settled, same | ⟨revision, written, put⟩⟩
        · exact ⟨settled, Or.inl same⟩
        · refine ⟨settled, Or.inr ?_⟩
          rw [applied, written, put]
          rfl

theorem guards_publishRevisionFromDirectory
    (careful : ∀ op, refusable op → ¬op.Probes)
    (quiet : Quiet shown start) :
    Guards (logged (Effect cache refusable))
      (Does sha256 (cache.publishItem repoType request) shown)
      (publishRevisionFromDirectory sha256 repoType request).run
      (Publishes refusable sha256 (cache.publishItem repoType request)
        shown) start := by
  unfold publishRevisionFromDirectory
  apply Guards.exceptBind
  rw [run_check]
  refine ⟨quiet.does, ?_⟩
  cases checked : checkRequest request with
  | error error =>
      right
      exact ⟨mishap_of_checkRequest checked,
        Or.inr (apply_publishItem_of_invalid checked)⟩
  | ok _ =>
  apply Guards.exceptBind
  apply guards_perform quiet.does
  rintro reply looked ⟨answers, steps⟩
  have same : looked.1 = start.1 := by
    rcases answers with ⟨_, same⟩ | ⟨_, _, same⟩ <;> exact same
  replace quiet := quiet.still (congrArg World.shown same) steps rfl
  clear steps same
  refine ⟨quiet.does, ?_⟩
  cases reply with
  | error error =>
      right
      rcases answers with ⟨failed, _⟩ | ⟨may, ⟨kind, same⟩, _⟩
      · refine ⟨mishap_of_answer failed.symm, Or.inr ?_⟩
        replace failed : cache.disk.canonicalize request.sourceRoot =
          .error error := failed.symm
        simp only [Cache.publishItem, failed]
        rfl
      · cases same
        exact ⟨mishap_io kind, Or.inl ⟨_, may⟩⟩
  | ok sourceRoot =>
  have leads : cache.disk.canonicalize request.sourceRoot =
      .ok sourceRoot := by
    rcases answers with ⟨found, _⟩ | ⟨_, ⟨_, ⟨⟩⟩, _⟩
    exact found.symm
  clear answers
  apply Guards.exceptBind
  rw [run_always]
  apply Guards.bind
  apply (guards_isDirectory quiet).mono
  rintro found asked _ ⟨quiet, answered⟩
  refine ⟨quiet.does, ?_⟩
  cases found with
  | false =>
      refine ⟨quiet.does, Or.inr ⟨mishap_invalidPath _, ?_⟩⟩
      refine (show _ ∨ _ from answered).imp_right fun other => ?_
      unfold Cache.publishItem
      rw [leads]
      dsimp only
      split
      · next directory => exact absurd directory other
      · rfl
  | true =>
  rw [publishItem_eq leads answered]
  exact guards_publishCopied careful checked quiet

end publish

/-! ## Setting a ref -/

section update

variable {repository : Repository} {reference commit : String}
  {world : World} {dir : RepositoryDir} {start : Logged}

theorem shown_setDir_of_same
    (same : SameEntries dir (world.dir repository)) :
    (world.setDir repository dir).shown = world.shown := by
  unfold World.shown World.setDir
  congr 1
  · funext other
    by_cases here : other = repository
    · subst here
      simp only [Function.update_self]
      exact same.revisions
    · simp only [Function.update_of_ne here]
  · funext key
    change (Function.update world.dir repository dir key.1).refNode key.2 =
      (world.dir key.1).refNode key.2
    by_cases here : key.1 = repository
    · rw [here, Function.update_self, same.refNode]
    · rw [Function.update_of_ne here]

theorem shown_setDir_of_sets
    {node : Option RefNode}
    (sets : Refs.Sets (world.dir repository) dir reference node) :
    (world.setDir repository dir).shown =
      { world.shown with
        refNode := Function.update world.shown.refNode
          (repository, reference) node } := by
  unfold World.shown World.setDir
  congr 1
  · funext other
    by_cases here : other = repository
    · subst here
      simp only [Function.update_self]
      exact sets.1
    · simp only [Function.update_of_ne here]
  · funext key
    obtain ⟨other, name⟩ := key
    change (Function.update world.dir repository dir other).refNode name = _
    by_cases here : other = repository
    · subst here
      rw [Function.update_self, sets.2]
      by_cases named : name = reference
      · rw [named, Function.update_self, Function.update_self]
      · rw [Function.update_of_ne named, Function.update_of_ne]
        rintro ⟨⟩
        exact named rfl
    · rw [Function.update_of_ne here, Function.update_of_ne]
      rintro ⟨⟩
      exact here rfl

theorem checkRef_eq_ok :
    checkRef repository reference commit = .ok () ↔
      (∃ parts, validateRepoId repository.repoId = .ok parts) ∧
        validateComponent reference = .ok () ∧
        validateRevision commit = .ok () := by
  unfold checkRef
  constructor
  · intro checked
    obtain ⟨parts, named, checked⟩ := bind_eq_ok.mp checked
    obtain ⟨⟨⟩, safe, valid⟩ := bind_eq_ok.mp checked
    exact ⟨⟨parts, named⟩, safe, valid⟩
  · rintro ⟨⟨parts, named⟩, safe, valid⟩
    rw [named, safe, valid]
    rfl

/-- A ref that can be set is set. -/
theorem apply_setRef
    (settable : Refs.Settable (world.dir repository) repository.repoId
      reference commit) :
    (Item.setRef repository reference commit).apply sha256 world.shown =
      some { world.shown with
        refNode := Function.update world.shown.refNode
          (repository, reference) (some (.file (some commit))) } := by
  have checked : checkRef repository reference commit = .ok () :=
    checkRef_eq_ok.mpr ⟨settable.named, settable.safe, settable.valid⟩
  have fits : ¬((world.shown.revision repository commit).isNone = true ∨
      world.shown.refNode (repository, reference) = some .directory) := by
    rw [not_or]
    refine ⟨?_, settable.writable⟩
    rw [Option.isNone_iff_eq_none, ← ne_eq, ← Option.isSome_iff_ne_none]
    exact settable.published
  simp only [Item.apply, checked, if_neg fits]

theorem apply_setRef_eq_none
    (unsettable : ¬Refs.Settable (world.dir repository) repository.repoId
      reference commit) :
    (Item.setRef repository reference commit).apply sha256 world.shown =
      none := by
  cases applied : (Item.setRef repository reference commit).apply sha256
      world.shown with
  | none => rfl
  | some after =>
      simp only [Item.apply] at applied
      split at applied
      · cases applied
      · next checked =>
          obtain ⟨named, safe, valid⟩ := checkRef_eq_ok.mp checked
          split at applied
          · cases applied
          · next fits =>
              rw [not_or, Option.isNone_iff_eq_none, ← ne_eq,
                ← Option.isSome_iff_ne_none] at fits
              exact absurd ⟨named, safe, valid, fits.1, fits.2⟩ unsettable

/-- What an update does to the archive. -/
theorem guards_updateRef
    (settled : pending start.2 = false) :
    Guards (logged (Effect cache refusable))
      (fun state => pending state.2 = true ∨
        Does sha256 (.setRef repository reference commit) start.1.shown
          state)
      ((Refs.updateRef repository.repoId reference commit).run.embed
        (refSteps repository))
      (fun outcome state =>
        match outcome with
        | .ok () => pending state.2 = false ∧
            (Item.setRef repository reference commit).apply sha256
              start.1.shown = some state.1.shown
        | .error _ => (∃ op, refusable op) ∨
            (Item.setRef repository reference commit).apply sha256
              start.1.shown = none) start := by
  let related (inner : Refs.Logged) (state : Logged) : Prop :=
    state.1 = start.1.setDir repository inner.1 ∧
      pending state.2 = Refs.pending inner.2
  have beside : related (start.1.dir repository, []) start := by
    refine ⟨?_, settled⟩
    unfold World.setDir
    rw [Function.update_eq_self]
  have inner := Refs.guards_updateRef_of_faulty
    (fun op => refusable (.ref repository op)) (start.1.dir repository)
    repository.repoId reference commit
  have mirrors : ∀ op (inner : Refs.Logged) state reply after,
      related inner state →
      logged (Effect cache refusable) ((refSteps repository).op op) state
        reply after →
      ∃ middle, logged (Refs.Faulty fun op => refusable (.ref repository op))
          op inner ((refSteps repository).reply op reply) middle ∧
        related middle after := by
    rintro op ⟨here, log⟩ ⟨world, steps⟩ reply ⟨after, more⟩
      ⟨same, agree⟩ ⟨effect, rfl⟩
    dsimp only at same agree effect
    subst same
    have still : pending (steps ++ [⟨(refSteps repository).op op, reply⟩]) =
        Refs.pending (log ++ [⟨op, (refSteps repository).reply op reply⟩])
          := by
      rw [pending_append, Refs.pending_append, agree]
      rfl
    have there : (start.1.setDir repository here).dir repository = here :=
      Function.update_self ..
    have later : ∀ dir, (start.1.setDir repository here).setDir repository
        dir = start.1.setDir repository dir := by
      simp [World.setDir]
    rcases effect with ⟨dir, succeeds, rfl⟩ | ⟨may, dir, refuses, rfl⟩
    · rw [there] at succeeds
      exact ⟨(dir, _), ⟨Or.inl succeeds, rfl⟩, later dir, still⟩
    · rw [there] at refuses
      exact ⟨(dir, _), ⟨Or.inr ⟨may, refuses⟩, rfl⟩, later dir, still⟩
  have outer := Guards.embed mirrors inner beside
  have shows : ∀ {inner : Refs.Logged} {state : Logged},
      related inner state → Refs.Settable (start.1.dir repository)
        repository.repoId reference commit →
      Refs.Updated (start.1.dir repository) reference commit inner →
      pending state.2 = false ∧
        (Item.setRef repository reference commit).apply sha256
          start.1.shown = some state.1.shown := by
    rintro inner state ⟨same, agree⟩ settable ⟨sets, still⟩
    refine ⟨agree.trans still, ?_⟩
    rw [apply_setRef settable, same, shown_setDir_of_sets sets]
  apply Guards.mono (outer.widen _)
  · rintro outcome state _ ⟨inner, relates, ends⟩
    cases outcome with
    | ok _ => exact shows relates ends.1 ends.2
    | error error =>
        rcases ends with ⟨op, may⟩ | unsettable
        · exact Or.inl ⟨_, may⟩
        · exact Or.inr (apply_setRef_eq_none unsettable)
  · rintro state ⟨inner, relates, left | ⟨same, still⟩ | ⟨settable, updated⟩⟩
    · exact Or.inl (relates.2.trans left)
    · refine Or.inr ⟨relates.2.trans still, Or.inl ?_⟩
      rw [relates.1, shown_setDir_of_same same]
    · obtain ⟨still, applied⟩ := shows relates settable updated
      exact Or.inr ⟨still, Or.inr applied⟩

end update

/-! ## The import -/

variable (sha256) in
/-- Some first part of the acts has been done, unless a temporary file was
left. -/
def Reached (items : List Item) (shown : Shown) (report : ImportReport)
    (state : Logged) : Prop :=
  pending state.2 = false → ∃ count,
    CutPass (Item.step sha256) items (shown, report)
      (state.1.shown, count)

variable (refusable sha256) in
/-- How an import ends that has to do these acts. -/
def Ends (items : List Item) (shown : Shown) (report : ImportReport) :
    Except ArchiveError ImportReport → Logged → Prop
  | .ok final, state => pending state.2 = false ∧
      replay (Item.step sha256) items (shown, report) =
        some (state.1.shown, final)
  | .error _, _ => (∃ op, refusable op) ∨
      replay (Item.step sha256) items (shown, report) = none

variable (cache refusable sha256) in
/-- The program does these acts, as far as it comes. -/
def Follows (program : ImportReport → Action ImportReport)
    (items : List Item) : Prop :=
  ∀ report shown start, Quiet shown start →
    Guards (logged (Effect cache refusable))
      (Reached sha256 items shown report) (program report).run
      (Ends refusable sha256 items shown report) start

section follows

variable {items : List Item} {shown : Shown} {report : ImportReport}

theorem Quiet.reached
    {state : Logged}
    (quiet : Quiet shown state) :
    Reached sha256 items shown report state := by
  intro _
  rw [quiet.1]
  exact ⟨report, .refl ..⟩

theorem follows_nil :
    Follows cache refusable sha256 (fun report => check (.ok report)) [] := by
  intro report shown start quiet
  refine ⟨quiet.reached, quiet.2, ?_⟩
  rw [quiet.1]
  rfl

theorem Follows.append
    {first second : ImportReport → Action ImportReport}
    {earlier later : List Item}
    (firstly : Follows cache refusable sha256 first earlier)
    (secondly : Follows cache refusable sha256 second later) :
    Follows cache refusable sha256 (fun report => first report >>= second)
      (earlier ++ later) := by
  intro report shown start quiet
  apply Guards.exceptBind
  apply Guards.mono ((firstly report shown start quiet).widen _)
  · intro outcome middle _ ends
    cases outcome with
    | ok count =>
        obtain ⟨settled, whole⟩ := ends
        apply Guards.mono ((secondly count _ middle ⟨rfl, settled⟩).widen _)
        · intro outcome state _ ends
          cases outcome with
          | ok final =>
              refine ⟨ends.1, ?_⟩
              rw [replay_append, whole]
              exact ends.2
          | error error =>
              refine ends.imp_right fun none => ?_
              rw [replay_append, whole]
              exact none
        · intro state reached settled
          obtain ⟨final, cut⟩ := reached settled
          exact ⟨final, cut.after whole⟩
    | error error =>
        refine ends.imp_right fun none => ?_
        rw [replay_append, none]
        rfl
  · intro state reached settled
    obtain ⟨final, cut⟩ := reached settled
    exact ⟨final, cut.append later⟩

theorem Follows.reads_bind
    {action : Action α}
    {rest : α → ImportReport → Action ImportReport}
    {found : Option α}
    (reads : Reads cache refusable action found)
    (second : ∀ value, found = some value →
      Follows cache refusable sha256 (rest value) items)
    (fails : found = none → items = [.unreadable]) :
    Follows cache refusable sha256
      (fun report => action >>= fun value => rest value report) items := by
  intro report shown start quiet
  have still : ∀ {state : Logged}, state.1 = start.1 ∧
      pending state.2 = pending start.2 → Quiet shown state := fun same =>
    ⟨(congrArg World.shown same.1).trans quiet.1, same.2.trans quiet.2⟩
  apply Guards.exceptBind
  apply Guards.mono ((reads start).ends.widen fun _ same =>
    (still same).reached)
  rintro outcome middle _ ⟨same, ends⟩
  cases outcome with
  | ok value => exact second value ends report shown middle (still same)
  | error error =>
      refine ends.2.imp_right fun none => ?_
      rw [fails none]
      rfl

theorem Follows.look_bind
    {op : Look}
    {rest : op.Answer → ImportReport → Action ImportReport}
    (second : ∀ value, cache.answer op = .ok value →
      Follows cache refusable sha256 (rest value) items)
    (fails : ∀ error, cache.answer op = .error error →
      items = [.unreadable]) :
    Follows cache refusable sha256
      (fun report => look op >>= fun value => rest value report) items := by
  refine .reads_bind (reads_look op) (fun value same => ?_) fun none => ?_
  · exact second value (toOption_eq_some.mp same)
  · obtain ⟨error, failed⟩ := toOption_eq_none.mp none
    exact fails error failed

/-- A directory that is passed over unless it is there. -/
theorem Follows.isDir_bind
    {path : List String}
    {rest : ImportReport → Action ImportReport}
    (careful : ∀ op, refusable op → ¬op.Probes)
    (second : Follows cache refusable sha256 rest items) :
    Follows cache refusable sha256
      (fun report => always (perform (.isDir path)) >>= fun found =>
        if found = false then check (.ok report) else rest report)
      (if cache.disk.isDir path = false then [] else items) := by
  intro report shown start quiet
  apply Guards.exceptBind
  rw [run_always]
  apply Guards.bind
  apply guards_perform quiet.reached
  rintro found asked ⟨⟨rfl, same⟩ | ⟨probed, _⟩, steps⟩
  on_goal 2 => exact absurd trivial (careful _ probed)
  replace quiet := quiet.still (congrArg World.shown same) steps rfl
  refine ⟨quiet.reached, quiet.reached, ?_⟩
  change Guards _ _ (ExceptT.run (if cache.disk.isDir path = false then _
    else _)) _ asked
  by_cases missing : cache.disk.isDir path = false
  · rw [if_pos missing, if_pos missing]
    exact follows_nil report shown asked quiet
  · rw [if_neg missing, if_neg missing]
    exact second report shown asked quiet

theorem follows_eachEntry
    {directory : List String}
    {visit : String → ImportReport → Action ImportReport}
    {asks : String → List Item}
    (visits : ∀ name,
      Follows cache refusable sha256 (visit name) (asks name))
    (names : List String) :
    Follows cache refusable sha256 (eachEntry directory visit names)
      (names.flatMap asks) := by
  induction names with
  | nil => exact .look_bind (fun _ _ => follows_nil) nofun
  | cons name rest inductionHypothesis =>
      rw [List.flatMap_cons]
      exact .look_bind
        (fun _ _ => (visits name).append inductionHypothesis) nofun

theorem follows_importEntries
    {directory : List String}
    {visit : String → ImportReport → Action ImportReport}
    {asks : String → List Item}
    (visits : ∀ name,
      Follows cache refusable sha256 (visit name) (asks name)) :
    Follows cache refusable sha256 (importEntries directory visit)
      (cache.entriesItems directory asks) := by
  refine .look_bind (fun names listed => ?_) fun error failed => ?_
  · replace listed : cache.readDir directory = .ok names := listed
    rw [Cache.entriesItems, listed]
    exact follows_eachEntry visits names
  · replace failed : cache.readDir directory = .error error := failed
    rw [Cache.entriesItems, failed]

/-! ### Snapshots and refs -/

theorem cutPass_of_apply
    {item : Item}
    {after : Shown}
    (applied : item.apply sha256 shown = some after) :
    CutPass (Item.step sha256) [item] (shown, report)
      (after, item.count shown report) := by
  apply CutPass.whole
  rw [replay_singleton, Item.step, applied]
  rfl

theorem Does.reached
    {item : Item}
    {state : Logged}
    (does : Does sha256 item shown state) :
    Reached sha256 [item] shown report state := by
  intro _
  rcases does.2 with same | applied
  · rw [same]
    exact ⟨report, .refl ..⟩
  · exact ⟨_, cutPass_of_apply applied⟩

variable {repository : Repository} {directory path : List String}
  {name : String}

/-- A publication is counted, or passed over. -/
theorem follows_publish
    (careful : ∀ op, refusable op → ¬op.Probes)
    (repoType : RepositoryType)
    (request : FileSystem.SourcePublishRequest) :
    Follows cache refusable sha256
      (fun report => do
        match ← always
            (publishRevisionFromDirectory sha256 repoType request).run with
        | .ok () =>
            check (.ok { report with revisions := report.revisions + 1 })
        | .error (.alreadyPublished _) => check (.ok report)
        | .error error => check (.error error))
      [cache.publishItem repoType request] := by
  intro report shown start quiet
  apply Guards.exceptBind
  rw [run_always]
  apply Guards.bind
  apply Guards.mono ((guards_publishRevisionFromDirectory careful
    quiet).ends.widen fun _ does => does.reached)
  rintro outcome state _ ⟨does, publishes⟩
  refine ⟨does.reached, ?_⟩
  cases outcome with
  | ok _ =>
      refine ⟨does.reached, does.1, ?_⟩
      rw [replay_singleton]
      exact publishes report
  | error error =>
      rcases publishes with ⟨⟨commit, rfl⟩, same⟩ | ⟨mishap, fails⟩
      · refine ⟨does.reached, does.1, ?_⟩
        rw [replay_singleton]
        exact same report
      · have ends : Ends refusable sha256
            [cache.publishItem repoType request] shown report
            (.error error) state := by
          refine fails.imp_right fun none => ?_
          rw [replay_singleton, Item.step, none]
          rfl
        cases error with
        | alreadyPublished commit => exact absurd rfl (mishap commit)
        | io kind => exact ⟨does.reached, ends⟩
        | invalidPath path => exact ⟨does.reached, ends⟩
        | integrityMismatch message => exact ⟨does.reached, ends⟩
        | referencedRevision references => exact ⟨does.reached, ends⟩

theorem follows_importSnapshot
    (careful : ∀ op, refusable op → ¬op.Probes) :
    Follows cache refusable sha256
      (importSnapshot sha256 cache repository directory path name)
      (cache.snapshotItems repository directory path name) := by
  refine .look_bind (fun node stands => ?_) fun error failed => ?_
  on_goal 2 =>
    replace failed : cache.disk.symlinkMetadata path = .error error := failed
    rw [Cache.snapshotItems, failed]
  replace stands : cache.disk.symlinkMetadata path = .ok node := stands
  rw [Cache.snapshotItems, stands]
  cases node with
  | file content => exact follows_nil
  | link target => exact follows_nil
  | directory =>
      refine .reads_bind (reads_collectFiles path _ path [])
        (fun files found => ?_) fun none => ?_
      · dsimp only
        rw [found]
        dsimp only
        split
        · exact follows_nil
        · exact follows_publish careful _ _
      · dsimp only
        rw [none]

theorem follows_importRef :
    Follows cache refusable sha256 (importRef cache repository path name)
      (cache.refItems repository path name) := by
  refine .look_bind (fun node stands => ?_) fun error failed => ?_
  on_goal 2 =>
    replace failed : cache.disk.symlinkMetadata path = .error error := failed
    rw [Cache.refItems, failed]
  replace stands : cache.disk.symlinkMetadata path = .ok node := stands
  rw [Cache.refItems, stands]
  cases node with
  | directory => exact follows_nil
  | link target => exact follows_nil
  | file content =>
      refine .look_bind (fun text found => ?_) fun error failed => ?_
      on_goal 2 =>
        replace failed : cache.disk.readToString path = .error error := failed
        dsimp only
        rw [failed]
      replace found : cache.disk.readToString path = .ok text := found
      dsimp only
      rw [found]
      dsimp only
      split
      · exact follows_nil
      · intro report shown start quiet
        obtain ⟨rfl, settled⟩ := quiet
        apply Guards.exceptBind
        apply Guards.mono ((guards_updateRef settled).ends.widen _)
        · rintro outcome state _ ⟨left, ends⟩
          cases outcome with
          | ok _ =>
              have does := Or.resolve_left left
                (by rw [ends.1]; exact Bool.false_ne_true)
              refine ⟨does.reached, ends.1, ?_⟩
              rw [replay_singleton, Item.step, ends.2]
              rfl
          | error error =>
              refine (show _ ∨ _ from ends).imp_right fun none => ?_
              rw [replay_singleton, Item.step, none]
              rfl
        · rintro state (left | does) settled
          · rw [settled] at left
            cases left
          · exact does.reached settled

theorem follows_importRepository
    (careful : ∀ op, refusable op → ¬op.Probes) :
    Follows cache refusable sha256
      (importRepository sha256 cache path name)
      (cache.repositoryItems path name) := by
  refine .look_bind (fun node stands => ?_) fun error failed => ?_
  on_goal 2 =>
    replace failed : cache.disk.symlinkMetadata path = .error error := failed
    rw [Cache.repositoryItems, failed]
  replace stands : cache.disk.symlinkMetadata path = .ok node := stands
  rw [Cache.repositoryItems, stands]
  cases node with
  | file content => exact follows_nil
  | link target => exact follows_nil
  | directory =>
      dsimp only
      cases decodeRepositoryName (cache.text name) with
      | none => exact follows_nil
      | some repository =>
          apply Follows.isDir_bind careful
          apply Follows.append
          · exact follows_importEntries fun _ =>
              follows_importSnapshot careful
          · apply Follows.isDir_bind careful
            exact follows_importEntries fun _ => follows_importRef

/-- The import does what its cache asks for. -/
theorem guards_importHfCache
    (careful : ∀ op, refusable op → ¬op.Probes)
    (cacheRoot : List String)
    (world : World) :
    Guards (logged (Effect cache refusable))
      (Reached sha256 (cache.plan cacheRoot) world.shown ⟨0, 0⟩)
      (importHfCache sha256 cache cacheRoot).run
      (Ends refusable sha256 (cache.plan cacheRoot) world.shown ⟨0, 0⟩)
      (world, []) := by
  have follows : Follows cache refusable sha256
      (fun report => look (.canonicalize cacheRoot) >>= fun root =>
        importEntries root (fun name => importRepository sha256 cache
          (root ++ [name]) name) report) (cache.plan cacheRoot) := by
    refine .look_bind (fun root leads => ?_) fun error failed => ?_
    · replace leads : cache.disk.canonicalize cacheRoot = .ok root := leads
      rw [Cache.plan, leads]
      exact follows_importEntries fun _ => follows_importRepository careful
    · replace failed : cache.disk.canonicalize cacheRoot = .error error :=
        failed
      rw [Cache.plan, failed]
  exact follows ⟨0, 0⟩ world.shown (world, []) ⟨rfl, rfl⟩

end follows

end following

end Importing
end ModelKeep
