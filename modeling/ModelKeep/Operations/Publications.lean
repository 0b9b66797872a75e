import ModelKeep.Operations.Contract

/-!
# A publication among other calls

What a publication renames into place is complete, and while nobody takes a
revision apart there is nothing in its place that the rename could replace.
-/

namespace ModelKeep
namespace Operations

open Concurrency Program

variable {ι : Type} {sha256 : Bytes → String} {repoType : RepositoryType}
  {calls : ι → Call} {actor : ι} {source : Publishing.Source}

/-- A complete revision has a manifest at least. -/
theorem not_vacant_of_stocked
    {revision : RevisionDir}
    {manifest : Manifest}
    (stocked : revision.Stocked sha256 repoType manifest) :
    ¬revision.Vacant := by
  intro vacant
  apply vacant .manifest
  rw [RevisionDir.Has, stocked.read]
  nofun

/-- A verified revision appears where there was none. -/
theorem putRevision_sound
    {before : Store ι}
    {revision : RevisionDir}
    {manifest : Manifest}
    (publishes : calls actor = .publish source)
    (sound : Sound sha256 repoType calls before)
    (absent : before.dir.revision source.commit = none)
    (verified : revision.Verified sha256 repoType manifest) :
    Sound sha256 repoType calls
        { before with dir := before.dir.putRevision source.commit revision } ∧
      Guarantee calls actor before
        { before with
          dir := before.dir.putRevision source.commit revision } := by
  have about : (calls actor).commit = source.commit := by
    rw [publishes]
    rfl
  refine ⟨⟨sound.asked, ?_, ?_, sound.removals, sound.temporaries,
    sound.distinct, sound.unasked⟩,
    ⟨fun _ _ => ⟨rfl, rfl, rfl, rfl, rfl⟩, fun _ _ _ _ => rfl,
      fun _ _ => Or.inl, ?_, ?_, ?_⟩⟩
  · intro commit standing there unharmed
    rw [RepositoryDir.revision_putRevision] at there
    split at there
    · cases there
      refine ⟨manifest, verified.toStocked, ?_⟩
      intro path member content external stands
      exact Or.inl (verified.listed path member content external stands)
    · exact sound.revisions commit standing there unharmed
  · intro name text inPlace
    obtain ⟨target, same, stands, unharmed⟩ := sound.refs name text inPlace
    refine ⟨target, same, ?_, unharmed⟩
    rw [RepositoryDir.revision_putRevision]
    split
    · rfl
    · exact stands
  · intro commit different
    rw [about] at different
    exact ⟨by rw [RepositoryDir.revision_putRevision, if_neg different], rfl⟩
  · intro _ standing there
    rw [about, absent] at there
    cases there
  · intro removal
    rw [publishes] at removal
    cases removal

section

variable [DecidableEq ι]

/-- The rename of a publication. -/
theorem acts_renameStaging
    {revision : RevisionDir}
    {manifest : Manifest}
    (publishes : calls actor = .publish source)
    (verified : revision.Verified sha256 repoType manifest) :
    Acts sha256 repoType calls actor
      (fun store => store.Unharmed source.commit)
      (renameStaging source.commit revision) (fun _ => True)
      fun _ _ => True := by
  have lasting : Lasting calls actor fun store : Store ι =>
      store.Unharmed source.commit :=
    lasting_unharmed (by rw [publishes]; rfl) (by rw [publishes]; rfl)
  unfold renameStaging
  refine acts_bind (fun _ _ => True) lasting_true ?_ fun outcome => ?_
  · refine acts_always (fun _ => lasting_true) ?_
    refine triple_perform lasting (fun _ => lasting_true) ?_
    rintro before sound unharmed reply after (⟨rfl, vacant, rfl⟩ | ⟨_, rfl⟩)
    · have absent : before.dir.revision source.commit = none := by
        cases found : before.dir.revision source.commit with
        | none => rfl
        | some standing =>
            obtain ⟨_, intact⟩ :=
              sound.revisions _ standing found unharmed
            exact absurd (vacant standing found)
              (not_vacant_of_stocked intact.toStocked)
      obtain ⟨soundNow, guarantee⟩ :=
        putRevision_sound publishes sound absent verified
      exact ⟨soundNow, guarantee, trivial⟩
    · exact ⟨sound, .refl .., trivial⟩
  cases outcome with
  | ok _ => exact acts_syncRevisions lasting_true
  | error error =>
      refine acts_bind (fun _ _ => True) lasting_true ?_ fun isPublished => ?_
      · exact acts_always (fun _ => lasting_true)
          (triple_still lasting_true (fun _ => lasting_true)
            fun _ _ _ issued _ => ⟨issued.2, trivial⟩)
      · split
        · exact triple_done lasting_true fun _ _ _ => trivial
        · exact triple_done lasting_true fun _ _ _ => trivial

/-- A publication among other calls. -/
theorem safe_publish
    (publishes : calls actor = .publish source)
    (plain : source.Plain)
    {start : Store ι}
    (sound : Sound sha256 repoType calls start)
    (unharmed : start.Unharmed source.commit) :
    ((calls actor).program sha256 repoType).Safe (exec repoType calls actor)
      (Sound sha256 repoType calls) (Rely calls actor)
      (Guarantee calls actor) (fun _ => Finished actor) start := by
  have lasting : Lasting calls actor fun store : Store ι =>
      store.Unharmed source.commit :=
    lasting_unharmed (by rw [publishes]; rfl) (by rw [publishes]; rfl)
  have finishes : ∀ store, Sound sha256 repoType calls store →
      Finished actor store := by
    intro store holds
    apply holds.finished
    · rw [publishes]
      rfl
    · rw [publishes]
      rfl
  have acts : Acts sha256 repoType calls actor
      (fun store => store.Unharmed source.commit)
      (publish sha256 repoType source) (fun _ => True)
      fun _ _ => True := by
    unfold publish
    refine acts_bind (fun _ store => store.Unharmed source.commit)
      lasting_true ?_ fun _ => ?_
    · exact (acts_check lasting fun _ _ _ => trivial).mono (fun _ _ => id)
        fun outcome _ _ => by cases outcome with
          | error _ => exact id
          | ok _ => exact And.left
    refine acts_bind (fun _ store => store.Unharmed source.commit)
      lasting_true ?_ fun _ => ?_
    · have still : Program.Triple (exec repoType calls actor)
          (Sound sha256 repoType calls) (Rely calls actor)
          (Guarantee calls actor)
          (fun store => store.Unharmed source.commit)
          (perform .createRevisions)
          fun _ store => store.Unharmed source.commit :=
        triple_still lasting (fun _ => lasting)
          fun _ _ _ issued holds => ⟨issued, holds⟩
      refine still.mono (fun _ _ => id) ?_
      intro reply _ _ holds
      cases reply with
      | error _ => trivial
      | ok _ => exact holds
    refine acts_bind (fun _ store => store.Unharmed source.commit)
      lasting_true ?_ fun isPublished => ?_
    · exact acts_always (fun _ => lasting) (triple_still lasting
        (fun _ => lasting) fun _ _ _ issued holds => ⟨issued.2, holds⟩)
    split
    · exact triple_done lasting fun _ _ _ => trivial
    refine acts_bind _ lasting_true
      (acts_check lasting fun _ _ _ => trivial) fun revision => ?_
    refine triple_of_fact fun made => ?_
    obtain ⟨manifest, verified, _⟩ := plain.verified made
    exact acts_renameStaging publishes verified
  rw [publishes]
  exact (acts start sound unharmed).mono fun _ store holds _ =>
    finishes store holds

end

end Operations
end ModelKeep
