import ModelKeep.Operations.NoDangling

/-!
# Published files last

As long as nobody removes a revision, whatever it lists stays listed, stays in
place and resolves the same way, however publications, extensions, updates of
refs and removals of other revisions interleave.
-/

namespace ModelKeep
namespace Operations

open Concurrency Relation

variable {ι : Type} {sha256 : Bytes → String} {repoType : RepositoryType}
  {calls : ι → Call} {actor : ι} {commit : String}

/-- No call deletes the revision. -/
def Spared (calls : ι → Call) (commit : String) : Prop :=
  ∀ actor, (calls actor).removes = true → (calls actor).commit ≠ commit

/-- If the revision is there it stays, and has only grown. -/
def Keeps (commit : String) (before after : Store ι) : Prop :=
  ∀ revision, before.dir.revision commit = some revision →
    ∃ grown, after.dir.revision commit = some grown ∧
      Extension.Grows (before.shared commit revision)
        (after.shared commit grown)

theorem Keeps.refl (store : Store ι) : Keeps commit store store :=
  fun revision found => ⟨revision, found, .refl _⟩

theorem Keeps.trans
    {first second third : Store ι}
    (earlier : Keeps commit first second)
    (later : Keeps commit second third) :
    Keeps commit first third := by
  intro revision found
  obtain ⟨middle, foundThen, grows⟩ := earlier revision found
  obtain ⟨last, foundNow, growsToo⟩ := later middle foundThen
  exact ⟨last, foundNow, grows.trans growsToo⟩

/-- The moves of a call that does not delete the revision. -/
theorem Guarantee.keeps
    {before after : Store ι}
    (spared : Spared calls commit)
    (guarantee : Guarantee calls actor before after) :
    Keeps commit before after := by
  intro revision found
  by_cases about : (calls actor).commit = commit
  · subst about
    have harmless : (calls actor).removes = false := by
      cases removes : (calls actor).removes with
      | false => rfl
      | true => exact absurd rfl (spared actor removes)
    obtain ⟨grown, stands, guaranteed⟩ :=
      guarantee.grows harmless revision found
    exact ⟨grown, stands, guaranteed.grows⟩
  · have untouched := (guarantee.apart commit (Ne.symm about)).1
    exact ⟨revision, untouched.trans found, .of_revision_eq rfl⟩

/-- A revision that nobody deletes is intact. -/
theorem Sound.intact
    {store : Store ι}
    {revision : RevisionDir}
    (sound : Sound sha256 repoType calls store)
    (spared : Spared calls commit)
    (found : store.dir.revision commit = some revision) :
    ∃ manifest, Extension.Intact sha256 repoType
      (store.shared commit revision) manifest := by
  apply sound.revisions commit revision found
  intro other removing
  obtain ⟨removes, about⟩ := sound.removals other commit removing
  exact spared other removes about

section runs

variable [DecidableEq ι]

/-- A moment of a run of calls. -/
abbrev Moment (ι : Type) : Type :=
  Calls interface ι (Store ι) (Except ArchiveError Unit)

/-- The calls on a repository before any of them has begun. -/
def opening
    (sha256 : Bytes → String)
    (repoType : RepositoryType)
    (calls : ι → Call)
    (repository : RepositoryDir) :
    Moment ι :=
  .initial (.idle repository)
    fun actor => (calls actor).program sha256 repoType

/-- A step of a call while none that it conflicts with is in progress. -/
abbrev Moves (repoType : RepositoryType) (calls : ι → Call) :
    Moment ι → Moment ι → Prop :=
  Calls.Careful (exec repoType calls) (Conflict calls)

theorem kept_opening
    (plain : ∀ actor, (calls actor).Plain)
    {repository : RepositoryDir}
    (clean : Clean sha256 repoType repository)
    {now : Moment ι}
    (run : ReflTransGen (Moves repoType calls)
      (opening sha256 repoType calls repository) now) :
    (contract sha256 repoType calls plain).Kept now :=
  ((contract sha256 repoType calls plain).kept_initial (sound_idle clean)
    fun _ => ⟨rfl, rfl, rfl, rfl⟩).reaches run

theorem keeps_of_run
    {plain : ∀ actor, (calls actor).Plain}
    {now later : Moment ι}
    (kept : (contract sha256 repoType calls plain).Kept now)
    (spared : Spared calls commit)
    (run : ReflTransGen (Moves repoType calls) now later) :
    Keeps commit now.shared later.shared := by
  apply kept.history (Keeps commit) Keeps.refl (fun _ _ _ => Keeps.trans) _
    run
  exact fun guarantee => Guarantee.keeps spared guarantee

/-- What stands at a moment, and what of it stands at a later one. -/
structure Lasts
    (sha256 : Bytes → String)
    (repoType : RepositoryType)
    (revision grown : RevisionDir)
    (manifest : Manifest) :
    Prop where
  read : revision.manifest = .decoded manifest
  /-- The manifest has only been added to. -/
  added : ∃ later, grown.Stocked sha256 repoType later ∧
    manifest.files <+: later.files
  /-- Nothing that was listed has changed. -/
  same : ∀ entry ∈ manifest.files,
    grown.resolveFile repoType entry.path =
        revision.resolveFile repoType entry.path ∧
      grown.tree.lookup (splitPath entry.path) =
        revision.tree.lookup (splitPath entry.path)

end runs

/-! ## An update beside a revision -/

/-- Two updates of one ref. -/
def sampleUpdates : Bool → Call :=
  fun _ => .updateRef "org/model" "main" "a"

end Operations
end ModelKeep
