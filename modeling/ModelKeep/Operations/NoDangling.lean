import ModelKeep.Operations.Extensions
import ModelKeep.Operations.Publications
import ModelKeep.Operations.Removals
import ModelKeep.Operations.Updates

/-!
# No dangling refs

When no call is in progress every ref names a complete revision, and every
revision has what its manifest lists, unless a revision was deleted while
another call was about it.
-/

namespace ModelKeep
namespace Operations

open Concurrency Program Relation

variable {ι : Type} {sha256 : Bytes → String} {repoType : RepositoryType}
  {calls : ι → Call} {actor : ι}

/-- The paths of the call are plainly spelled, and what it publishes in place
has no links. -/
def Call.Plain : Call → Prop
  | .extend request => ∀ path ∈ request.files, CanonicalPath path
  | .publish source => source.Plain
  | _ => True

/-- Every ref names a revision, and every revision is complete and has what
its manifest lists. -/
structure Settled (sha256 : Bytes → String) (repoType : RepositoryType)
    (repository : RepositoryDir) : Prop where
  refs : ∀ name text, repository.refNode name = some (.file text) →
    ∃ found, text = some found ∧
      (repository.revision (Archive.trim found)).isSome
  revisions : ∀ commit revision,
    repository.revision commit = some revision →
      ∃ manifest, revision.Stocked sha256 repoType manifest

/-- A repository on which no call has begun. -/
def Store.idle (repository : RepositoryDir) : Store ι where
  dir := repository
  lock := fun _ => none
  part := fun _ => .absent
  placed := fun _ => []
  drawn := fun _ => none
  temporary := fun _ => none
  removing := fun _ => none

/-- A settled repository whose revisions verify. -/
structure Clean (sha256 : Bytes → String) (repoType : RepositoryType)
    (repository : RepositoryDir) : Prop where
  refs : ∀ name text, repository.refNode name = some (.file text) →
    ∃ found, text = some found ∧
      (repository.revision (Archive.trim found)).isSome
  revisions : ∀ commit revision,
    repository.revision commit = some revision →
      ∃ count, revision.verifyRevision sha256 repoType = .ok count

theorem sound_idle
    {repository : RepositoryDir}
    (clean : Clean sha256 repoType repository) :
    Sound sha256 repoType calls (.idle repository) where
  asked := nofun
  revisions := by
    intro commit revision found _
    obtain ⟨count, verified⟩ := clean.revisions commit revision found
    obtain ⟨manifest, whole, _⟩ :=
      RevisionDir.verifyRevision_eq_ok.mp verified
    refine ⟨manifest, whole.toStocked, ?_⟩
    intro path member content external stands
    exact Or.inl (whole.listed path member content external stands)
  refs := by
    intro name text inPlace
    obtain ⟨found, same, stands⟩ := clean.refs name text inPlace.1
    exact ⟨found, same, stands, nofun⟩
  removals := nofun
  temporaries := nofun
  distinct := by
    rintro actor other name _ ⟨_, _, _, drawn, _⟩
    cases drawn
  unasked := by
    rintro actor other name ⟨_, _, _, drawn, _⟩
    cases drawn

/-- With no call in progress, nothing is left half done. -/
theorem Sound.settled
    {store : Store ι}
    (sound : Sound sha256 repoType calls store)
    (finished : ∀ actor, Finished actor store) :
    Settled sha256 repoType store.dir where
  refs := by
    intro name text node
    obtain ⟨found, same, stands, _⟩ := sound.refs name text ⟨node, by
      intro actor held
      rw [(finished actor).temporary] at held
      cases held⟩
    exact ⟨found, same, stands⟩
  revisions := by
    intro commit revision found
    obtain ⟨manifest, intact⟩ := sound.revisions commit revision found
      (by
        intro actor removing
        rw [(finished actor).removing] at removing
        cases removing)
    exact ⟨manifest, intact.toStocked⟩

/-- While no removal of its commit is in progress, none has begun to delete
it. -/
theorem unharmed_of_resting
    {store : Store ι}
    (kind : (calls actor).isRemoval = false)
    (sound : Sound sha256 repoType calls store)
    (resting : ∀ other, Conflict calls actor other →
      Fresh other store ∨
        ∃ _ : Except ArchiveError Unit, Finished other store) :
    store.Unharmed (calls actor).commit := by
  intro other removing
  obtain ⟨removes, about⟩ := sound.removals other _ removing
  rcases resting other (Or.inr ⟨about, removes, kind⟩) with
    fresh | ⟨_, finished⟩
  · rw [fresh.removing] at removing
    cases removing
  · rw [finished.removing] at removing
    cases removing

section

variable [DecidableEq ι]

/-- The contract of the calls. -/
def contract
    (sha256 : Bytes → String)
    (repoType : RepositoryType)
    (calls : ι → Call)
    (plain : ∀ actor, (calls actor).Plain) :
    CallContract (exec repoType calls)
      (fun actor => (calls actor).program sha256 repoType)
      (Conflict calls) where
  invariant := Sound sha256 repoType calls
  rely := Rely calls
  guar := Guarantee calls
  fresh := Fresh
  post := fun actor _ => Finished actor
  rely_refl := Rely.refl calls
  rely_trans := fun _ _ _ _ => Rely.trans
  guar_rely := fun different apart _ sound guarantee =>
    guarantee.rely different apart sound
  guar_fresh := by
    intro actor other before after different guarantee fresh
    obtain ⟨drawn, temporary, removing, _, placed⟩ :=
      guarantee.others other different.symm
    exact ⟨drawn.trans fresh.drawn, temporary.trans fresh.temporary,
      removing.trans fresh.removing, placed.trans fresh.placed⟩
  guar_post := by
    intro actor other _ before after different guarantee finished
    obtain ⟨_, temporary, removing, _⟩ :=
      guarantee.others other different.symm
    exact ⟨temporary.trans finished.temporary,
      removing.trans finished.removing⟩
  starts := by
    intro actor store sound fresh resting
    have plainly := plain actor
    have unharmed : (calls actor).isRemoval = false →
        store.Unharmed (calls actor).commit :=
      fun kind => unharmed_of_resting kind sound resting
    cases call : calls actor with
    | updateRef repoId reference commit =>
        rw [call] at unharmed
        rw [← call]
        exact safe_updateRef call sound
          ⟨fresh.drawn, fresh.temporary, unharmed rfl⟩
    | extend request =>
        rw [call] at unharmed plainly
        rw [← call]
        exact safe_extend call plainly fresh.placed (unharmed rfl)
    | publish source =>
        rw [call] at unharmed plainly
        rw [← call]
        exact safe_publish call plainly sound (unharmed rfl)
    | remove repoId commit dryRun =>
        rw [← call]
        exact safe_remove call sound fresh.removing

/-- However the steps of any number of calls interleave, as long as no
revision is deleted while another call is about it, the repository is settled
whenever no call is in progress. -/
theorem settled_when_quiet
    (plain : ∀ actor, (calls actor).Plain)
    {repository : RepositoryDir}
    (clean : Clean sha256 repoType repository)
    {after : Calls interface ι (Store ι) (Except ArchiveError Unit)}
    (run : ReflTransGen
      (Calls.Careful (exec repoType calls) (Conflict calls))
      (.initial (.idle repository)
        fun actor => (calls actor).program sha256 repoType) after)
    (quiet : after.Quiet) :
    Settled sha256 repoType after.shared.dir := by
  have kept := ((contract sha256 repoType calls plain).kept_initial
    (sound_idle clean) fun _ => ⟨rfl, rfl, rfl, rfl⟩).reaches run
  apply Sound.settled kept.invariant
  intro actor
  rcases kept.resting (quiet actor) with fresh | ⟨_, finished⟩
  · exact ⟨fresh.temporary, fresh.removing⟩
  · exact finished

end

/-! ## A removal in the midst of an update -/

/-- An update and a removal of the same commit. -/
def sampleCalls : Bool → Call
  | true => .updateRef "org/model" "main" "a"
  | false => .remove "org/model" "a" false

abbrev sampleExec : Bool → Semantics interface (Store Bool) :=
  exec .model sampleCalls

abbrev samplePrograms (actor : Bool) :
    Program interface (Except ArchiveError Unit) :=
  (sampleCalls actor).program Extension.sampleDigest .model

/-- The store after one step on the refs. -/
def Store.afterRef (store : Store Bool) (op : Refs.Op) (reply : op.Reply)
    (dir : RepositoryDir) : Store Bool :=
  { store with
    dir := dir
    drawn := Function.update store.drawn true
      (drawnAfter (store.drawn true) op reply)
    temporary := Function.update store.temporary true
      (temporaryAfter (store.temporary true) op reply) }

abbrev sampleTemporary : String := Refs.temporaryName "main" "0"

/-- What an update that has found its commit still has to do. -/
def sampleRest : Program interface (Except ArchiveError Unit) :=
  (do
    attempt (Refs.perform .createDirAll)
    let operation ← always (Refs.perform .operationId)
    Refs.replaceOrCleanUp (Refs.temporaryName "main" operation) "main" "a" :
      Refs.Action Unit).run.embed refSteps

theorem sampleUpdate_eq :
    samplePrograms true =
      .call (.ref (.isDir "a")) fun found =>
        if found = false then .done (.error (.io .notFound))
        else sampleRest := by
  have named : validateRepoId "org/model" = .ok ("org", "model") := by
    decide +kernel
  have safe : validateComponent "main" = .ok () := by decide +kernel
  have valid : validateRevision "a" = .ok () := by decide +kernel
  unfold samplePrograms sampleCalls Call.program Refs.updateRef
  dsimp only
  rw [named, safe, valid]
  show (Program.call (Op.ref (.isDir "a")) _ : Program interface _) = _
  congr 1
  funext found
  cases found <;> rfl

/-- Nothing has been drawn, and there are no refs. -/
structure Untried (store : Store Bool) : Prop where
  refs : store.dir.refs = none
  drawn : store.drawn = fun _ => none

def withRef (repository : RepositoryDir) (name text : String) :
    RepositoryDir :=
  { repository with refs := some (RefsDir.empty.set name text) }

theorem refNode_withRef (repository : RepositoryDir) (name text : String) :
    (withRef repository name text).refNode =
      Function.update (fun _ => none) name (some (.file (some text))) := rfl

theorem succeeds_createNew
    {repository : RepositoryDir}
    (noRefs : repository.refNode = fun _ => none)
    (name : String) :
    Refs.Succeeds (.createNew name) repository (.ok ())
      (withRef repository name "") := by
  unfold Refs.Succeeds
  simp only [noRefs]
  refine ⟨trivial, rfl, ?_⟩
  rw [refNode_withRef, noRefs]

theorem succeeds_write (repository : RepositoryDir) (name : String) :
    Refs.Succeeds (.write name 'a') (withRef repository name "") (.ok ())
      (withRef repository name "a") := by
  unfold Refs.Succeeds
  simp only [refNode_withRef, Function.update_self]
  refine ⟨trivial, rfl, ?_⟩
  rw [refNode_withRef, refNode_withRef, Function.update_idem]
  rfl

theorem succeeds_rename
    (repository : RepositoryDir)
    {name other : String}
    (different : other ≠ name)
    (text : String) :
    Refs.Succeeds (.rename name other) (withRef repository name text)
      (.ok ()) (withRef repository other text) := by
  unfold Refs.Succeeds
  simp only [refNode_withRef, Function.update_self,
    Function.update_of_ne different]
  refine ⟨trivial, rfl, ?_⟩
  rw [Function.update_idem]
  congr 1
  funext entry
  by_cases same : entry = name
  · subst same
    rw [Function.update_self]
  · rw [Function.update_of_ne same]

theorem sampleUnused
    {store : Store Bool}
    (untried : Untried store)
    (reply : Except ArchiveError Unit) :
    Unused sampleCalls (store.afterRef .createDirAll reply store.dir) true
      "0" := by
  have drawn := congrFun untried.drawn
  intro reference
  refine ⟨?_, ?_, ?_⟩
  · show store.dir.refNode _ = none
    rw [RepositoryDir.refNode, untried.refs]
    rfl
  · intro other id different found
    simp [Store.afterRef, drawnAfter, drawn, different] at found
  · intro other same
    cases other with
    | false => cases same
    | true =>
        have first := congrArg (fun name => name.toList.head?)
          (Option.some.inj same)
        simp [Refs.temporaryName] at first

/-- The rest of the update puts the ref in place. -/
theorem sampleRest_runs
    {store : Store Bool}
    (untried : Untried store) :
    ∃ final, sampleRest.Runs (sampleExec true) store (.ok ())
        final ∧
      final.dir = withRef store.dir "main" "a" := by
  have noRefs : store.dir.refNode = fun _ => none := by
    funext name
    rw [RepositoryDir.refNode, untried.refs]
    rfl
  let prepared := store.afterRef .createDirAll (.ok ()) store.dir
  let drawn := prepared.afterRef .operationId "0" store.dir
  let created := drawn.afterRef (.createNew sampleTemporary) (.ok ())
    (withRef store.dir sampleTemporary "")
  let filled := created.afterRef (.write sampleTemporary 'a') (.ok ())
    (withRef store.dir sampleTemporary "a")
  let synced := filled.afterRef (.sync sampleTemporary) (.ok ())
    (withRef store.dir sampleTemporary "a")
  let renamed := synced.afterRef (.rename sampleTemporary "main") (.ok ())
    (withRef store.dir "main" "a")
  let final := renamed.afterRef .syncDirectory (.ok ())
    (withRef store.dir "main" "a")
  refine ⟨final, ?_, rfl⟩
  refine ⟨.ok (), prepared, ⟨Or.inl ⟨rfl, rfl, rfl⟩, by rintro _ ⟨⟩, rfl⟩,
    "0", drawn, ⟨Or.inl ⟨?_, rfl⟩, ?_, rfl⟩,
    .ok (), created, ⟨Or.inl ?_, by rintro _ ⟨⟩, rfl⟩,
    .ok (), filled, ⟨Or.inl ?_, by rintro _ ⟨⟩, rfl⟩,
    .ok (), synced, ⟨Or.inl ⟨rfl, rfl⟩, by rintro _ ⟨⟩, rfl⟩,
    .ok (), renamed, ⟨Or.inl ?_, by rintro _ ⟨⟩, rfl⟩,
    .ok (), final, ⟨Or.inl ⟨rfl, rfl⟩, by rintro _ ⟨⟩, rfl⟩, rfl, rfl⟩
  · exact fun reference => congrFun noRefs _
  · intro id same
    cases same
    exact sampleUnused untried (.ok ())
  · exact succeeds_createNew noRefs _
  · exact succeeds_write store.dir _
  · exact succeeds_rename store.dir
      (Refs.temporaryName_ne "main" "0").symm "a"

theorem execRef_found
    (calls : Bool → Call)
    (actor : Bool)
    (store : Store Bool)
    (commit : String) :
    execRef calls actor (.isDir commit) store
      (store.dir.revision commit).isSome store :=
  ⟨Or.inl ⟨rfl, rfl⟩, nofun, by simp [drawnAfter, temporaryAfter]⟩

theorem untried_idle : Untried (.idle Refs.sample) := ⟨rfl, rfl⟩

/-- The whole update, alone. -/
theorem sampleUpdate_runs :
    ∃ final, (samplePrograms true).Runs (sampleExec true) (.idle Refs.sample)
        (.ok ()) final ∧
      final.dir = withRef Refs.sample "main" "a" := by
  obtain ⟨final, runs, same⟩ := sampleRest_runs untried_idle
  refine ⟨final, ?_, same⟩
  rw [sampleUpdate_eq]
  exact ⟨true, _, execRef_found sampleCalls true _ "a", runs⟩

/-- What a removal that has found its commit still has to do. -/
def sampleRemoval : Program interface (Except ArchiveError Unit) :=
  (do
    let names ← always (perform .listRefs)
    let references ← referencesTo "a" names []
    if references ≠ [] then
      check (.error (.referencedRevision (references.insertionSort (· ≤ ·))))
    else do
      removeAll "a"
      attempt (perform .syncRevisions) : Action Unit).run

theorem sampleRemoval_eq :
    samplePrograms false =
      .call (.ref (.isDir "a")) fun found =>
        if found = false then .done (.error (.io .notFound))
        else sampleRemoval := by
  have named : validateRepoId "org/model" = .ok ("org", "model") := by
    decide +kernel
  have valid : validateRevision "a" = .ok () := by decide +kernel
  unfold samplePrograms sampleCalls Call.program removeRevision
  dsimp only
  rw [named, valid]
  show (Program.call (Op.ref (.isDir "a")) _ : Program interface _) = _
  congr 1

/-- The only revision of the sample. -/
def sampleRevision : RevisionDir :=
  ⟨.decoded ⟨true, .model, "org/model", "main", []⟩, .missing, .empty⟩

theorem listedBy_sampleRevision : sampleRevision.ListedBy [.manifest] where
  nodup := List.nodup_singleton _
  mem := by
    intro entry
    cases entry with
    | manifest => exact iff_of_true (List.mem_singleton_self _) nofun
    | upstreamFiles => exact iff_of_false (by simp) (absurd rfl ·)
    | node path => exact iff_of_false (by simp) nofun
  order := List.pairwise_singleton ..

theorem vacant_blank : RevisionDir.blank.Vacant := by
  intro entry
  cases entry with
  | manifest => exact absurd rfl
  | upstreamFiles => exact absurd rfl
  | node path => exact nofun

/-- The whole removal, alone. -/
theorem sampleRemoval_runs :
    ∃ final, (samplePrograms false).Runs (sampleExec false)
        (.idle Refs.sample) (.ok ()) final ∧
      Untried final ∧ final.dir.revision "a" = none := by
  let start : Store Bool := .idle Refs.sample
  let began : Store Bool := { start with
    removing := Function.update start.removing false (some "a") }
  let emptied : Store Bool := { began with
    dir := began.dir.putRevision "a" .blank }
  let final : Store Bool := { emptied with
    dir := emptied.dir.dropRevision "a"
    removing := Function.update emptied.removing false none }
  refine ⟨final, ?_, ⟨rfl, rfl⟩, by simp [final]⟩
  rw [sampleRemoval_eq]
  refine ⟨true, start, execRef_found sampleCalls false _ "a", [], start,
    ⟨fun name => ?_, rfl⟩, .ok [.manifest], began,
    Or.inr ⟨sampleRevision, _, rfl, rfl, ?_, rfl⟩, .ok (), emptied,
    Or.inl ⟨sampleRevision, _, rfl, ⟨nofun, rfl⟩, rfl, rfl⟩, .ok (), final,
    ?_, .ok (), final, rfl, rfl, rfl⟩
  · simp [start, Store.idle, Refs.sample, RepositoryDir.refNode]
  · exact listedBy_sampleRevision
  · have found : emptied.dir.revision "a" = some .blank := by simp [emptied]
    show execRemoveRoot false "a" emptied _ _
    unfold execRemoveRoot
    rw [found]
    exact Or.inl ⟨vacant_blank, rfl, rfl⟩

theorem clean_sample : Clean Extension.sampleDigest .model Refs.sample where
  refs := nofun
  revisions := by
    intro commit revision found
    refine ⟨0, ?_⟩
    have same : revision = sampleRevision := by
      unfold RepositoryDir.revision Refs.sample at found
      rw [List.lookup_cons] at found
      split at found
      · exact (Option.some.inj found).symm
      · cases found
    subst same
    decide +kernel

theorem settled_when_quiet_sample :
    ∃ after : Calls interface Bool (Store Bool) (Except ArchiveError Unit),
      after.shared.dir.refNode "main" = some (.file (some "a")) ∧
        Settled Extension.sampleDigest .model after.shared.dir := by
  obtain ⟨final, runs, same⟩ := sampleUpdate_runs
  rw [sampleUpdate_eq] at runs
  have self : ¬Conflict sampleCalls true true := by
    rintro (⟨_, removes, _⟩ | ⟨_, removes, _⟩) <;> cases removes
  let after := (Calls.initial (.idle Refs.sample) samplePrograms).advance true
    final (.done (.ok ()))
  refine ⟨after, ?_, settled_when_quiet (fun actor => ?_) clean_sample
    (Calls.reaches_of_runs self (fun _ _ => Calls.quiet_initial _ _ _)
      sampleUpdate_eq runs) ?_⟩
  · show final.dir.refNode "main" = _
    rw [same]
    rfl
  · cases actor <;> trivial
  · rintro actor ⟨begun, running⟩
    cases actor with
    | true => exact running (.ok ()) rfl
    | false => cases begun

/-- The removal runs between the two halves of the update. -/
theorem dangling_run :
    ∃ after : Calls interface Bool (Store Bool) (Except ArchiveError Unit),
      ReflTransGen (Calls.Any sampleExec)
          (.initial (.idle Refs.sample) samplePrograms) after ∧
        after.Quiet ∧
        after.shared.dir.refNode "main" = some (.file (some "a")) ∧
        after.shared.dir.revision "a" = none := by
  obtain ⟨removed, removes, untried, gone⟩ := sampleRemoval_runs
  obtain ⟨final, updates, same⟩ := sampleRest_runs untried
  rw [sampleRemoval_eq] at removes
  let start : Calls interface Bool (Store Bool) (Except ArchiveError Unit) :=
    .initial (.idle Refs.sample) samplePrograms
  let found := start.advance true (.idle Refs.sample) sampleRest
  let between := found.advance false removed (.done (.ok ()))
  have first : Calls.Any sampleExec start found :=
    ⟨true, .mk start true _ _ true _ sampleUpdate_eq
      (execRef_found sampleCalls true _ "a"), fun _ => nofun⟩
  have second : ReflTransGen (Calls.Any sampleExec) found between :=
    Calls.reaches_of_runs id (fun _ => nofun) sampleRemoval_eq removes
  have third : ReflTransGen (Calls.Any sampleExec) between
      (between.advance true final (.done (.ok ()))) :=
    Calls.reaches_of_runs id (fun _ => nofun) rfl updates
  refine ⟨_, .head first (second.trans third), ?_, ?_, ?_⟩
  · rintro actor ⟨_, running⟩
    cases actor <;> exact running (.ok ()) rfl
  · show final.dir.refNode "main" = _
    rw [same]
    rfl
  · show final.dir.revision "a" = none
    rw [same]
    exact gone

/-- A removal in the midst of an update leaves a ref that names nothing. -/
theorem dangling_ref :
    ¬∀ (calls : Bool → Call) (repository : RepositoryDir)
      (after : Calls interface Bool (Store Bool) (Except ArchiveError Unit)),
      (∀ actor, (calls actor).Plain) →
      Clean Extension.sampleDigest .model repository →
      ReflTransGen (Calls.Any (exec .model calls))
        (.initial (.idle repository)
          fun actor => (calls actor).program Extension.sampleDigest .model)
        after →
      after.Quiet →
      Settled Extension.sampleDigest .model after.shared.dir := by
  intro settled
  obtain ⟨after, run, quiet, node, gone⟩ := dangling_run
  have plain : ∀ actor, (sampleCalls actor).Plain := by
    intro actor
    cases actor <;> trivial
  obtain ⟨target, named, stands⟩ :=
    (settled sampleCalls Refs.sample after plain clean_sample run quiet).refs
      "main" (some "a") node
  cases named
  have trimmed : Archive.trim "a" = "a" := by decide +kernel
  rw [trimmed, gone] at stands
  cases stands

end Operations
end ModelKeep
