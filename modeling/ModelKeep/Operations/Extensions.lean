import ModelKeep.Operations.Contract

/-!
# An extension among other calls

Once an extension has found its revision, nobody who runs beside it takes the
revision away, so that what is known of extensions of one revision holds here.
-/

namespace ModelKeep
namespace Operations

open Concurrency Program

variable {ι : Type} {sha256 : Bytes → String} {repoType : RepositoryType}
  {calls : ι → Call} {actor : ι}

/-! ## The share of an extension -/

namespace Store

variable (store : Store ι) (commit : String) (shared : Extension.Shared ι)

@[simp] theorem revision_setShared (other : String) :
    (store.setShared commit shared).dir.revision other =
      if other = commit then some shared.revision
      else store.dir.revision other := by
  simp [setShared]

@[simp] theorem refNode_setShared :
    (store.setShared commit shared).dir.refNode = store.dir.refNode := rfl

@[simp] theorem shared_setShared :
    (store.setShared commit shared).shared commit shared.revision =
      shared := by
  simp [Store.shared, setShared, setHeld]

theorem view_setShared :
    (store.setShared commit shared).view commit = shared := by
  unfold view
  rw [revision_setShared, if_pos rfl, Option.getD_some, shared_setShared]

theorem view_of_revision
    {store : Store ι}
    {commit : String}
    {revision : RevisionDir}
    (found : store.dir.revision commit = some revision) :
    store.view commit = store.shared commit revision := by
  unfold view
  rw [found, Option.getD_some]

end Store

section

variable [DecidableEq ι]

/-- What an extension has renamed stays recorded. -/
theorem placed_of_exec
    {op : Extension.Op}
    {before after : Extension.Shared ι}
    {reply : op.Reply}
    (issued : Extension.exec repoType actor op before reply after)
    {other : ι}
    {path : String}
    (member : path ∈ before.placed other) :
    path ∈ after.placed other := by
  have kept : after.placed = before.placed → path ∈ after.placed other := by
    intro same
    rw [same]
    exact member
  cases op with
  | revisionIsDir => exact kept (by rw [issued.2])
  | readManifest => exact kept (by rw [issued.1])
  | lock =>
      rcases issued with ⟨_, _, rfl⟩ | ⟨_, _, rfl⟩
      · exact member
      · exact member
  | createDirectory path =>
      rcases issued with ⟨_, _, _, rfl⟩ | ⟨_, _, rfl⟩
      · exact member
      · exact member
  | moveFile place content =>
      rcases issued with ⟨_, tree, _, rfl⟩ | ⟨_, _, rfl⟩
      · by_cases same : other = actor
        · subst same
          simp [Extension.Shared.place, member]
        · simpa [Extension.Shared.place, Function.update_of_ne same]
            using member
      · exact member
  | createPart =>
      rcases issued with ⟨_, rfl⟩ | ⟨_, _, rfl⟩
      · exact member
      · exact member
  | writePart manifest =>
      rcases issued with ⟨_, rfl⟩ | ⟨_, _, rfl⟩
      · exact member
      · exact member
  | renamePart =>
      rcases issued with ⟨_, rfl⟩ | ⟨_, _, rfl⟩
      · rw [Extension.placed_swap]
        exact member
      · exact member
  | removePart =>
      rcases issued with rfl | rfl
      · exact member
      · exact member
  | unlock => exact kept (by rw [show after = _ from issued]; rfl)
  | canonicalizeSourceRoot => exact kept (by rw [show after = _ from issued])
  | createStaging => exact kept (by rw [show after = _ from issued])
  | copySource path => exact kept (by rw [show after = _ from issued])
  | syncDirectory path => exact kept (by rw [show after = _ from issued])
  | syncPart => exact kept (by rw [show after = _ from issued])
  | syncRevisions => exact kept (by rw [show after = _ from issued])

omit [DecidableEq ι] in
/-- An intact revision stays intact when more is recorded. -/
theorem Intact.more
    {commit : String}
    {revision : RevisionDir}
    {manifest : Manifest}
    {before after : Store ι}
    (intact : Extension.Intact sha256 repoType
      (before.shared commit revision) manifest)
    (more : ∀ other, ∀ path ∈ before.placed other,
      path ∈ after.placed other) :
    Extension.Intact sha256 repoType (after.shared commit revision)
      manifest := by
  refine ⟨intact.toStocked, ?_⟩
  intro path member content external stands
  rcases intact.tracked path member content external stands with
    listed | ⟨other, placed⟩
  · exact Or.inl listed
  · exact Or.inr ⟨other, more other _ placed⟩

/-! ## Its steps -/

variable {request : RevisionExtensionRequest}

omit [DecidableEq ι] in
/-- Whatever an extension does to its revision, the rest of the store
notices nothing. -/
theorem setShared_sound
    {before : Store ι}
    {shared : Extension.Shared ι}
    {revision : RevisionDir}
    (extension : calls actor = .extend request)
    (sound : Sound sha256 repoType calls before)
    (found : before.dir.revision request.commit = some revision)
    (more : ∀ other, ∀ path ∈ before.placed other,
      path ∈ shared.placed other)
    (kept : Extension.Sound sha256 repoType (fun other => (calls other).request)
      shared)
    (guaranteed : Extension.Guarantee actor
      (before.shared request.commit revision) shared) :
    Sound sha256 repoType calls (before.setShared request.commit shared) ∧
      Guarantee calls actor before
        (before.setShared request.commit shared) := by
  have about : (calls actor).commit = request.commit := by
    rw [extension]
    rfl
  refine ⟨⟨kept.asked, ?_, ?_, sound.removals, sound.temporaries,
    sound.distinct, sound.unasked⟩, ⟨?_, fun _ _ _ _ => rfl,
      fun _ _ => Or.inl, ?_, ?_, ?_⟩⟩
  · intro commit standing there unharmed
    rw [Store.revision_setShared] at there
    split at there
    · next same =>
        subst same
        cases there
        obtain ⟨manifest, intact⟩ := kept.intact
        exact ⟨manifest, by rwa [Store.shared_setShared]⟩
    · obtain ⟨manifest, intact⟩ :=
        sound.revisions commit standing there unharmed
      exact ⟨manifest, Intact.more intact more⟩
  · intro name text inPlace
    obtain ⟨target, same, stands, unharmed⟩ := sound.refs name text inPlace
    refine ⟨target, same, ?_, unharmed⟩
    rw [Store.revision_setShared]
    split
    · rfl
    · exact stands
  · intro other different
    obtain ⟨_, part, placed⟩ := guaranteed.others other different
    exact ⟨rfl, rfl, rfl, part, placed⟩
  · intro commit different
    rw [about] at different
    refine ⟨by rw [Store.revision_setShared, if_neg different], ?_⟩
    exact Function.update_of_ne different ..
  · intro _ standing there
    rw [about] at there ⊢
    rw [found] at there
    cases there
    refine ⟨shared.revision, by simp, ?_⟩
    rw [Store.shared_setShared]
    exact guaranteed
  · intro removal
    rw [extension] at removal
    cases removal

/-- An extension whose revision is there sees its share of the store. -/
theorem extension_respects
    (sha256 : Bytes → String)
    (repoType : RepositoryType)
    (extension : calls actor = .extend request) :
    Respects (extensionSteps request.commit) (Extension.exec repoType actor)
      (exec repoType calls actor)
      (fun store => store.view request.commit)
      (fun store => (store.dir.revision request.commit).isSome ∧
        store.Unharmed request.commit)
      (Extension.Sound sha256 repoType fun other => (calls other).request)
      (Sound sha256 repoType calls)
      (Extension.Rely actor) (Extension.Guarantee actor)
      (Rely calls actor) (Guarantee calls actor) := by
  have about : (calls actor).commit = request.commit := by
    rw [extension]
    rfl
  have kind : (calls actor).isRemoval = false := by
    rw [extension]
    rfl
  refine ⟨?_, ?_, ?_, ?_⟩
  · rintro before after ⟨stands, unharmed⟩ relied
    obtain ⟨revision, found⟩ := Option.isSome_iff_exists.mp stands
    have reliedOn := relied.stands kind revision
    have unharmedNow := relied.unharmed kind
    rw [about] at reliedOn unharmedNow
    obtain ⟨grown, foundNow, shares⟩ := reliedOn found
    refine ⟨⟨by rw [foundNow]; rfl, unharmedNow unharmed⟩, ?_⟩
    rw [Store.view_of_revision found, Store.view_of_revision foundNow]
    exact shares
  · rintro store ⟨stands, unharmed⟩ sound
    obtain ⟨revision, found⟩ := Option.isSome_iff_exists.mp stands
    rw [Store.view_of_revision found]
    exact ⟨sound.revisions _ revision found unharmed, sound.asked⟩
  · rintro op before reply after ⟨stands, _⟩ _ issued
    obtain ⟨revision, found⟩ := Option.isSome_iff_exists.mp stands
    simp only [extensionSteps, exec, found] at issued
    obtain ⟨shared, issued, rfl⟩ := issued
    rw [Store.view_of_revision found, Store.view_setShared]
    exact issued
  · rintro op before reply after ⟨stands, unharmed⟩ sound issued kept
      guaranteed
    obtain ⟨revision, found⟩ := Option.isSome_iff_exists.mp stands
    simp only [extensionSteps, exec, found] at issued
    obtain ⟨shared, issued, rfl⟩ := issued
    rw [Store.view_setShared] at kept guaranteed
    rw [Store.view_of_revision found] at guaranteed
    obtain ⟨soundNow, guarantee⟩ := setShared_sound extension sound found
      (fun other path member => placed_of_exec issued member) kept guaranteed
    exact ⟨⟨by simp, unharmed⟩, soundNow, guarantee⟩

/-! ## A whole extension -/

/-- The first thing an extension asks is whether the revision is there. -/
theorem extendRevision_shape
    (sha256 : Bytes → String)
    (repoType : RepositoryType)
    (request : RevisionExtensionRequest) :
    (∃ error, (Extension.extendRevision sha256 repoType request).run =
        .done (.error error)) ∨
      ∃ next, (Extension.extendRevision sha256 repoType request).run =
          .call .revisionIsDir next ∧
        next false = .done (.error (.io .notFound)) := by
  unfold Extension.extendRevision
  cases named : validateRepoId request.repoId with
  | error error => exact Or.inl ⟨error, rfl⟩
  | ok repo =>
      cases valid : validateRevision request.commit with
      | error error => exact Or.inl ⟨error, rfl⟩
      | ok _ => exact Or.inr ⟨_, rfl, rfl⟩

/-- An extension among other calls. -/
theorem safe_extend
    (extension : calls actor = .extend request)
    (canonical : ∀ path ∈ request.files, CanonicalPath path)
    {start : Store ι}
    (fresh : start.placed actor = [])
    (unharmed : start.Unharmed request.commit) :
    ((calls actor).program sha256 repoType).Safe (exec repoType calls actor)
      (Sound sha256 repoType calls) (Rely calls actor)
      (Guarantee calls actor) (fun _ => Finished actor) start := by
  have about : (calls actor).commit = request.commit := by
    rw [extension]
    rfl
  have kind : (calls actor).isRemoval = false := by
    rw [extension]
    rfl
  have asked : (calls actor).request = request := by
    rw [extension]
    rfl
  have finishes : ∀ store, Sound sha256 repoType calls store →
      Finished actor store := by
    intro store sound
    apply sound.finished
    · rw [extension]
      rfl
    · rw [extension]
      rfl
  have alone : ((Extension.extendRevision sha256 repoType request).run.embed
      (extensionSteps request.commit)).Safe (exec repoType calls actor)
        (Sound sha256 repoType calls) (Rely calls actor)
        (Guarantee calls actor) (fun _ _ => True) start := by
    rcases extendRevision_shape sha256 repoType request with
      ⟨error, same⟩ | ⟨next, same, stops⟩
    · rw [same]
      exact fun _ _ _ => trivial
    rw [same]
    intro current relied sound
    cases found : current.dir.revision request.commit with
    | none =>
        intro reply after issued
        simp only [extensionSteps, exec, found] at issued
        obtain ⟨rfl, rfl⟩ := issued
        refine ⟨sound, .refl .., ?_⟩
        simp only [extensionSteps, id]
        rw [stops]
        exact fun _ _ _ => trivial
    | some revision =>
        have live : (current.dir.revision request.commit).isSome ∧
            current.Unharmed request.commit := by
          have kept := relied.unharmed kind
          rw [about] at kept
          exact ⟨by rw [found]; rfl, kept unharmed⟩
        have respects := extension_respects sha256 repoType extension
        have performs : Extension.Performs sha256 repoType
            (fun other => (calls other).request) actor
            (fun shared => shared.placed actor = [])
            (Extension.extendRevision sha256 repoType (calls actor).request)
            (fun _ => True)
            (Extension.Achieved actor (calls actor).request.files) :=
          Extension.performs_extendRevision (by rw [asked]; exact canonical)
        rw [asked] at performs
        have safe := performs (current.view request.commit)
          (respects.holds current live sound) (relied.placed.trans fresh)
        have whole := safe.embed respects live
        rw [same] at whole
        exact (whole.mono fun _ _ _ _ => trivial) current (.refl ..) sound
  rw [extension]
  apply Safe.bind (Rely.refl calls actor)
  apply alone.mono
  intro outcome middle sound _ _ current _ soundNow
  exact finishes current soundNow

end

end Operations
end ModelKeep
