import ModelKeep.Staging.Retained
import ModelKeep.Staging.Scan

/-!
# What a listing of retained staging says

A listed directory is told to be removable and to be adoptable.  The first is
compared with the removal of what its name leads to, the second with an
acquisition that finds the directory alone.
-/

namespace ModelKeep
namespace Staging

open Concurrency Program
open Utf8 (encode fromUtf8Lossy fromUtf8Lossy_encode)

/-! ## Names that are accepted -/

/-- Without a separator there is one component. -/
theorem splitPath_of_plain
    {name : String}
    (plain : '/' ∉ name.toList) :
    splitPath name = [name] := by
  have single : joinPath [name] = name := by
    unfold joinPath
    simp
  conv_lhs => rw [← single]
  exact splitPath_joinPath (by simp) (by simpa using plain)

/-- An accepted name is the one component of its path. -/
theorem pathComponents_of_component
    {name : String}
    (component : validateComponent name = .ok ()) :
    pathComponents name = [.normal name] := by
  have fine : ¬(name = "" ∨ name = "." ∨ name = ".." ∨
      name.toList.contains '/' ∨ name.toList.contains '\\' ∨
      name.toList.any isControl) := by
    intro wrong
    unfold validateComponent at component
    rw [if_pos wrong] at component
    cases component
  simp only [not_or] at fine
  obtain ⟨filled, notHere, notAbove, plain, _⟩ := fine
  have separate : '/' ∉ name.toList := by simpa using plain
  have relative : startsWith name "/" = false := by
    unfold startsWith
    cases text : name.toList with
    | nil => rfl
    | cons first rest =>
        have other : first ≠ '/' := by
          rintro rfl
          exact separate (by simp [text])
        simp [List.isPrefixOf, Ne.symm other]
  unfold pathComponents
  rw [splitPath_of_plain separate, relative]
  simp [filled, notHere, notAbove]

/-- An accepted name leads to the child of that name. -/
theorem joined_of_accepted
    {name : String}
    (accepted : validateStagingName name = .ok ()) :
    joined name = .child (encode name) := by
  unfold validateStagingName at accepted
  obtain ⟨_, component, _⟩ := bind_eq_ok.mp accepted
  unfold joined
  rw [pathComponents_of_component component]

/-! ## Removing what is listed -/

section removal

variable {now : Nat} {retained : Retained} {raw : RawName} {found : RetainedDir}

/-- A lease that has not expired. -/
def Live (now : Nat) (found : RetainedDir) : Prop :=
  ∃ expiresAt ∈ StagingDir.expiresAt found.dir, now < expiresAt

/-- The name that a listing shows. -/
def shownName (raw : RawName) : String :=
  boundedArchiveDetail (fromUtf8Lossy raw)

/-- A removal accepts the name and finds a directory that it may remove. -/
def CanRemove (now : Nat) (retained : Retained) (name : String) : Prop :=
  validateStagingName name = .ok () ∧ ∃ found,
    retained.entry (.child (encode name)) = some (.directory found) ∧
      ¬Live now found

theorem filter_eq_none_iff_not_live :
    (StagingDir.expiresAt found.dir).filter
        (fun expiresAt => now < expiresAt) = none ↔ ¬Live now found := by
  unfold Live
  cases StagingDir.expiresAt found.dir <;> simp

/-- A removal that can be made is made. -/
theorem remove_of_canRemove
    {name : String}
    (can : CanRemove now retained name) :
    ∃ removed, removeRetainedStaging now name retained =
      (.ok removed, retained.remove (.child (encode name)) name) := by
  obtain ⟨accepted, found, stands, idle⟩ := can
  unfold removeRetainedStaging
  rw [accepted, joined_of_accepted accepted]
  dsimp only
  rw [stands]
  dsimp only
  rw [filter_eq_none_iff_not_live.mpr idle]
  exact ⟨_, rfl⟩

/-- Any other one is refused and changes nothing. -/
theorem remove_of_not_canRemove
    {name : String}
    (cannot : ¬CanRemove now retained name) :
    ∃ error, removeRetainedStaging now name retained =
      (.error error, retained) := by
  unfold removeRetainedStaging
  cases accepted : validateStagingName name with
  | error error => exact ⟨_, rfl⟩
  | ok value =>
      rw [joined_of_accepted accepted]
      dsimp only
      cases stands : retained.entry (.child (encode name)) with
      | none => exact ⟨_, rfl⟩
      | some child =>
          cases child with
          | other => exact ⟨_, rfl⟩
          | directory found =>
              dsimp only
              cases leased : (StagingDir.expiresAt found.dir).filter
                  (fun expiresAt => now < expiresAt) with
              | some expiresAt => exact ⟨_, rfl⟩
              | none =>
                  exact absurd ⟨accepted, found, stands,
                    filter_eq_none_iff_not_live.mp leased⟩ cannot

theorem removable_iff :
    (describe now retained.skipped raw found).removable = true ↔
      ¬Live now found ∧ validateStagingName (fromUtf8Lossy raw) = .ok () := by
  unfold describe Live
  dsimp only
  rw [Bool.and_eq_true]
  apply and_congr
  · cases StagingDir.expiresAt found.dir <;> simp
  · cases validateStagingName (fromUtf8Lossy raw) <;> simp [Except.isOk, Except.toBool]

/-- The listing has one item for every directory. -/
theorem mem_listRetainedStaging
    {item : RetainedStaging} :
    item ∈ listRetainedStaging now retained ↔ ∃ raw found,
      retained.entry (.child raw) = some (.directory found) ∧
        item = describe now retained.skipped raw found := by
  unfold listRetainedStaging
  rw [List.mem_insertionSort, List.mem_filterMap]
  constructor
  · rintro ⟨raw, _, described⟩
    split at described
    · next found stands =>
        cases described
        exact ⟨raw, found, stands, rfl⟩
    · cases described
  · rintro ⟨raw, found, stands, rfl⟩
    refine ⟨raw, ?_, ?_⟩
    · rw [retained.mem_names, stands]
      rfl
    · rw [stands]

/-- What a listing calls removable is what a removal acts on. -/
structure Actionable (now : Nat) (retained : Retained) : Prop where
  /-- The items are the directories of the area. -/
  listed : ∀ item, item ∈ listRetainedStaging now retained ↔ ∃ raw found,
    retained.entry (.child raw) = some (.directory found) ∧
      item = describe now retained.skipped raw found
  /-- A removal succeeds for the items that are removable and removes their
  directory and nothing else. -/
  acts : ∀ raw found,
    retained.entry (.child raw) = some (.directory found) →
      ((describe now retained.skipped raw found).removable = true ↔
        ∃ removed, (removeRetainedStaging now
          (describe now retained.skipped raw found).name retained).1 =
            .ok removed) ∧
      ((describe now retained.skipped raw found).removable = true →
        (removeRetainedStaging now
            (describe now retained.skipped raw found).name retained).2 =
          retained.remove (.child raw)
            (describe now retained.skipped raw found).name)
  /-- Any other item is refused and nothing changes. -/
  refuses : ∀ raw found,
    retained.entry (.child raw) = some (.directory found) →
      (describe now retained.skipped raw found).removable = false →
        ∃ error, removeRetainedStaging now
          (describe now retained.skipped raw found).name retained =
            (.error error, retained)
  /-- Whatever name is removed is one of a directory of the area. -/
  direct : ∀ name removed,
    (removeRetainedStaging now name retained).1 = .ok removed →
      ∃ raw found, joined name = .child raw ∧
        retained.entry (.child raw) = some (.directory found) ∧
        (removeRetainedStaging now name retained).2 =
          retained.remove (.child raw) name

/-- The listing and the removal agree exactly when every directory is shown by
its very name, or is not removable and shown by a name that no removal would
accept. -/
theorem actionable_iff (now : Nat) (retained : Retained) :
    Actionable now retained ↔ ∀ raw found,
      retained.entry (.child raw) = some (.directory found) →
        encode (shownName raw) = raw ∨
          ((Live now found ∨
              validateStagingName (fromUtf8Lossy raw) ≠ .ok ()) ∧
            ¬CanRemove now retained (shownName raw)) := by
  have shown : ∀ raw found,
      (describe now retained.skipped raw found).name = shownName raw :=
    fun _ _ => rfl
  constructor
  · intro actionable raw found stands
    by_cases own : encode (shownName raw) = raw
    · exact Or.inl own
    right
    obtain ⟨succeeds, removes⟩ := actionable.acts raw found stands
    rw [shown] at succeeds removes
    have cannot : ¬CanRemove now retained (shownName raw) := by
      intro can
      obtain ⟨removed, done⟩ := remove_of_canRemove can
      have here := removes (succeeds.mpr ⟨removed, by rw [done]⟩)
      rw [done] at here
      have gone := congrArg (fun area => area.entry (.child raw)) here
      simp only [Retained.remove, if_true, Place.child.injEq] at gone
      rw [if_neg (Ne.symm own), stands] at gone
      cases gone
    refine ⟨?_, cannot⟩
    by_contra removable
    rw [not_or, not_not] at removable
    obtain ⟨removed, done⟩ := succeeds.mp (removable_iff.mpr removable)
    obtain ⟨error, refused⟩ := remove_of_not_canRemove cannot
    rw [refused] at done
    cases done
  · intro fine
    have agrees : ∀ raw found,
        retained.entry (.child raw) = some (.directory found) →
          ((describe now retained.skipped raw found).removable = true ↔
            CanRemove now retained (shownName raw)) := by
      intro raw found stands
      rw [removable_iff]
      rcases fine raw found stands with own | ⟨kept, cannot⟩
      · have text : fromUtf8Lossy raw = shownName raw := by
          rw [← own, fromUtf8Lossy_encode]
          rw [own]
        rw [text]
        constructor
        · rintro ⟨idle, accepted⟩
          exact ⟨accepted, found, by rw [own]; exact stands, idle⟩
        · rintro ⟨accepted, other, standsToo, idle⟩
          rw [own, stands] at standsToo
          cases standsToo
          exact ⟨idle, accepted⟩
      · refine iff_of_false ?_ cannot
        rintro ⟨idle, accepted⟩
        rcases kept with live | refused
        · exact idle live
        · exact refused accepted
    refine ⟨fun _ => mem_listRetainedStaging, ?_, ?_, ?_⟩
    · intro raw found stands
      rw [shown]
      constructor
      · rw [agrees raw found stands]
        constructor
        · intro can
          obtain ⟨removed, done⟩ := remove_of_canRemove can
          exact ⟨removed, by rw [done]⟩
        · rintro ⟨removed, done⟩
          by_contra cannot
          obtain ⟨error, refused⟩ := remove_of_not_canRemove cannot
          rw [refused] at done
          cases done
      · intro removable
        have can := (agrees raw found stands).mp removable
        obtain ⟨removed, done⟩ := remove_of_canRemove can
        have own : encode (shownName raw) = raw := by
          rcases fine raw found stands with own | ⟨_, cannot⟩
          · exact own
          · exact absurd can cannot
        rw [done, own]
    · intro raw found stands kept
      rw [shown]
      apply remove_of_not_canRemove
      rw [← agrees raw found stands, kept]
      simp
    · intro name removed done
      by_cases can : CanRemove now retained name
      · obtain ⟨accepted, found, stands, _⟩ := can
        obtain ⟨_, gone⟩ := remove_of_canRemove
          (⟨accepted, found, stands, ‹_›⟩ : CanRemove now retained name)
        exact ⟨encode name, found, joined_of_accepted accepted, stands,
          by rw [gone]⟩
      · obtain ⟨error, refused⟩ := remove_of_not_canRemove can
        rw [refused] at done
        cases done

/-- An expired directory whose name is the byte 255. -/
def unnamed : Retained where
  entry := fun place =>
    if place = .child [255] then
      some (.directory ⟨{ StagingDir.bare with lease := .expires 0 },
        ⟨0, 1, true⟩, 60⟩)
    else none
  names := [[255]]
  mem_names := by
    intro name
    simp only [List.mem_singleton, Place.child.injEq]
    split <;> simp [*]
  distinct := List.nodup_singleton _
  skipped := fun _ => none

/-- It is listed as removable, under a name that nothing has. -/
theorem removable_under_no_name :
    ¬∀ now retained, Actionable now retained := by
  intro actionable
  have stands : ∃ found,
      unnamed.entry (.child [255]) = some (.directory found) ∧
        (describe 100 unnamed.skipped [255] found).removable = true := by
    refine ⟨⟨{ StagingDir.bare with lease := .expires 0 }, ⟨0, 1, true⟩, 60⟩,
      rfl, ?_⟩
    decide +kernel
  obtain ⟨found, stands, removable⟩ := stands
  obtain ⟨removed, done⟩ :=
    ((actionable 100 unnamed).acts _ found stands).1.mp removable
  have refused : (removeRetainedStaging 100 (shownName [255]) unnamed).1 =
      .error .notFound := by
    have accepted : validateStagingName (shownName [255]) = .ok () := by
      decide +kernel
    have absent : unnamed.entry (joined (shownName [255])) = none := by
      rw [joined_of_accepted accepted]
      decide +kernel
    unfold removeRetainedStaging
    rw [accepted, absent]
  have same := refused.symm.trans done
  cases same

end removal

/-! ## Adopting what is listed -/

section adoption

variable {world : World} {raw : RawName} {found : RetainedDir}

/-- What a name is to an acquisition, by the start that it looks for. -/
def entryNameOf (text : String) : EntryName :=
  if startsWith text "fetch-abandoned-" then
    .abandoned (String.ofList (text.toList.drop 16))
  else if startsWith text ".fetch-active-" then
    .active (String.ofList (text.toList.drop 14))
  else
    .other text

/-- The temporary area holds the directory alone. -/
def Alone (world : World) (raw : RawName) (dir : StagingDir) : Prop :=
  ∃ inode, ∀ name, world.area.entry name =
    if name = entryNameOf (fromUtf8Lossy raw) then some ⟨inode, dir⟩ else none

/-- The request with exactly the recorded identity. -/
def requestOf (metadata : FetchStagingMetadata) : StagingRequest :=
  ⟨metadata.repoType, metadata.repoId, metadata.requestedRevision,
    metadata.files⟩

theorem isFetchName_entryNameOf (text : String) :
    isFetchName (entryNameOf text) =
      (startsWith text "fetch-abandoned-" ||
        startsWith text ".fetch-active-") := by
  unfold entryNameOf
  by_cases abandoned : startsWith text "fetch-abandoned-" = true
  · rw [if_pos abandoned, abandoned]
    rfl
  rw [if_neg abandoned, Bool.eq_false_iff.mpr abandoned, Bool.false_or]
  by_cases active : startsWith text ".fetch-active-" = true
  · rw [if_pos active, active]
    rfl
  · rw [if_neg active, Bool.eq_false_iff.mpr active]
    rfl

theorem expiresAt_eq_some
    {dir : StagingDir}
    {expiresAt : Nat} :
    StagingDir.expiresAt dir = some expiresAt ↔
      dir.lease = .expires expiresAt := by
  unfold StagingDir.expiresAt
  cases dir.lease <;> simp [Lease.expiry, Except.toOption]

theorem readIdentity_eq_ok
    {dir : StagingDir}
    {metadata : FetchStagingMetadata} :
    dir.readIdentity = .ok metadata ↔ dir.identity = .decoded metadata := by
  unfold StagingDir.readIdentity
  cases dir.identity <;> simp

theorem metadata_eq_some
    {dir : StagingDir}
    {metadata : FetchStagingMetadata} :
    StagingDir.metadata dir = some metadata ↔
      dir.identity = .decoded metadata ∧
        checkMetadata metadata = .ok metadata := by
  have read : StagingDir.metadata dir = some metadata ↔
      (dir.readIdentity >>= checkMetadata) = .ok metadata := by
    unfold StagingDir.metadata
    cases dir.readIdentity >>= checkMetadata <;> simp [Except.toOption]
  rw [read, bind_eq_ok]
  constructor
  · rintro ⟨value, decoded, checked⟩
    obtain rfl := checkMetadata_eq_ok checked
    exact ⟨readIdentity_eq_ok.mp decoded, checked⟩
  · rintro ⟨decoded, checked⟩
    exact ⟨metadata, readIdentity_eq_ok.mpr decoded, checked⟩

/-- A directory is listed as adoptable when the request with the recorded
identity may take it over. -/
theorem adoptable_iff
    (alone : Alone world raw found.dir)
    (skipped : String → Option SkippedStagingRecord) :
    (describe world.clock skipped raw found).adoptable = true ↔
      ∃ metadata, world.Adoptable (requestOf metadata) world.clock
        (entryNameOf (fromUtf8Lossy raw)) metadata := by
  obtain ⟨inode, entries⟩ := alone
  have stands := (entries _).trans (if_pos rfl)
  unfold describe stagingIsAdoptable
  dsimp only
  rw [← isFetchName_entryNameOf]
  constructor
  · intro adoptable
    simp only [Bool.and_eq_true, Bool.not_eq_true'] at adoptable
    obtain ⟨⟨idle, leased⟩, named, recorded⟩ := adoptable
    obtain ⟨expiresAt, expires⟩ := Option.isSome_iff_exists.mp leased
    rw [expires, Option.any_some, decide_eq_false_iff_not, not_lt] at idle
    cases identity : StagingDir.metadata found.dir with
    | none =>
        rw [identity] at recorded
        cases recorded
    | some metadata =>
        rw [identity] at recorded
        obtain ⟨decoded, valid⟩ := metadata_eq_some.mp identity
        exact ⟨metadata, named, ⟨_, expiresAt, stands, decoded,
          expiresAt_eq_some.mp expires, idle⟩, valid,
          by simp [namesSameRevision, requestOf],
          by simp [stagingSelectionIsAdoptable, requestOf], recorded⟩
  · rintro ⟨metadata, adoptable⟩
    obtain ⟨other, expiresAt, standsToo, decoded, leased, late⟩ :=
      adoptable.recorded
    rw [stands] at standsToo
    cases standsToo
    rw [expiresAt_eq_some.mpr leased,
      metadata_eq_some.mpr ⟨decoded, adoptable.valid⟩, adoptable.named]
    simp [not_lt.mpr late, adoptable.commit]

/-- The checks of an identity are those of a request. -/
theorem validateRequest_of_metadata
    {metadata : FetchStagingMetadata}
    (valid : checkMetadata metadata = .ok metadata) :
    validateRequest (requestOf metadata) = .ok () := by
  unfold checkMetadata at valid
  split at valid
  · cases valid
  · obtain ⟨pair, repo, valid⟩ := bind_eq_ok.mp valid
    obtain ⟨_, component, valid⟩ := bind_eq_ok.mp valid
    obtain ⟨_, files, _⟩ := bind_eq_ok.mp valid
    exact bind_eq_ok.mpr ⟨pair, repo, bind_eq_ok.mpr ⟨(), component, files⟩⟩

/-- Only a directory that stands and may be taken over ends a scan of an area
that holds nothing else. -/
theorem judged_of_alone
    {name : EntryName}
    {entry : AreaEntry}
    (entries : ∀ other, world.area.entry other =
      if other = name then some entry else none)
    {request : StagingRequest}
    {now : Nat}
    {other : EntryName}
    {isDirectory : Bool}
    (elsewhere : other ≠ name ∨ isDirectory = false) :
    world.judgeAbandoned request now (.ok (other, isDirectory)) = .pass ∧
      world.judgeActive request now (.ok (other, isDirectory)) = .pass := by
  rcases elsewhere with different | rfl
  · have absent : world.identity other = .error (.io .notFound) := by
      unfold World.identity
      rw [told_none ((entries other).trans (if_neg different))]
      rfl
    cases isDirectory with
    | false => cases other <;> exact ⟨rfl, rfl⟩
    | true =>
        cases other with
        | other name => exact ⟨rfl, rfl⟩
        | abandoned id =>
            refine ⟨?_, rfl⟩
            unfold World.judgeAbandoned
            simp only [absent]
        | active id =>
            refine ⟨rfl, ?_⟩
            unfold World.judgeActive
            simp only [absent]
  · cases other <;> exact ⟨rfl, rfl⟩

/-- What may be taken over for some request may be for the recorded one. -/
theorem adoptable_requestOf
    {request : StagingRequest}
    {now : Nat}
    {name : EntryName}
    {metadata : FetchStagingMetadata}
    (adoptable : world.Adoptable request now name metadata) :
    world.Adoptable (requestOf metadata) now name metadata where
  named := adoptable.named
  recorded := adoptable.recorded
  valid := adoptable.valid
  sameRevision := by simp [namesSameRevision, requestOf]
  selection := by simp [stagingSelectionIsAdoptable, requestOf]
  commit := adoptable.commit

/-- An acquisition resumes nothing but what it may take over. -/
theorem adoptable_of_resumed
    {after : World}
    {request : StagingRequest}
    {staging : FetchStaging}
    (run : Returns Effect (acquireFetchStaging request) world (.ok staging)
      after)
    (resumed : staging.resumed = true) :
    ∃ name metadata, world.Adoptable request world.clock name metadata := by
  generalize handed : (.ok staging : Except FetchStagingError FetchStaging) =
    outcome at run
  cases returns_acquire run with
  | invalid => cases handed
  | refused => cases handed
  | adopted _ adoptable _ => exact ⟨_, _, adoptable⟩
  | created _ _ creates =>
      obtain ⟨_, _, _, rfl, _⟩ := returns_createFetchStaging creates
      cases handed
      cases resumed

/-- Every acquisition with the recorded identity resumes the one directory. -/
theorem resumes_of_adoptable
    {after : World}
    {name : EntryName}
    {entry : AreaEntry}
    {metadata : FetchStagingMetadata}
    (entries : ∀ other, world.area.entry other =
      if other = name then some entry else none)
    (adoptable : world.Adoptable (requestOf metadata) world.clock name
      metadata)
    {commit : String}
    (resolved : metadata.resolvedCommit = some commit)
    {outcome : Except FetchStagingError FetchStaging}
    (run : Returns Effect (acquireFetchStaging (requestOf metadata)) world
      outcome after) :
    ∃ path, outcome = .ok ⟨path, true, some commit⟩ ∧
      (after.area.entry path).map AreaEntry.inode = some entry.inode := by
  have stands := (entries name).trans (if_pos rfl)
  have judged := judge_of_adoptable adoptable
  cases returns_acquire run with
  | invalid invalid =>
      rw [validateRequest_of_metadata adoptable.valid] at invalid
      cases invalid
  | @refused other isDirectory error refuses =>
      by_cases elsewhere : other ≠ name ∨ isDirectory = false
      · obtain ⟨passes, passesToo⟩ :=
          @judged_of_alone _ _ _ entries (requestOf metadata) world.clock _ _
            elsewhere
        rcases refuses with refuses | refuses
        · cases passes.symm.trans refuses
        · cases passesToo.symm.trans refuses
      · rw [not_or, not_not, Bool.not_eq_false] at elsewhere
        obtain ⟨rfl, rfl⟩ := elsewhere
        cases other with
        | other name => cases adoptable.named
        | abandoned id =>
            rcases judged with adopts | adopts
            · rcases refuses with refuses | refuses
              · cases adopts.symm.trans refuses
              · cases refuses
            · cases adopts
        | active id =>
            rcases judged with adopts | adopts
            · cases adopts
            · rcases refuses with refuses | refuses
              · cases refuses
              · cases adopts.symm.trans refuses
  | @adopted staging other claimed after _ adoptableToo claims =>
      obtain ⟨found, _, standsToo, recorded, _⟩ := adoptableToo.recorded
      obtain ⟨id, _, same, replaced⟩ := returns_claim standsToo recorded claims
      cases same
      obtain rfl : staging = name := by
        by_contra different
        rw [entries, if_neg different] at standsToo
        cases standsToo
      rw [stands] at standsToo
      cases standsToo
      obtain ⟨first, _, standsFirst, recordedFirst, _⟩ := adoptable.recorded
      rw [stands] at standsFirst
      cases standsFirst
      rw [recorded] at recordedFirst
      cases recordedFirst
      rw [resolved]
      exact ⟨_, rfl, by rw [replaced.entry_new]; rfl⟩
  | created _ passes _ =>
      obtain ⟨passes, passesToo⟩ := passes name (by rw [stands]; rfl)
      rcases judged with adopts | adopts
      · cases passes.symm.trans adopts
      · cases passesToo.symm.trans adopts

/-- A directory is listed as adoptable exactly when some acquisition that finds
it alone resumes it; then the request with the recorded identity resumes it at
the recorded commit. -/
theorem adoptable_iff_resumed
    (alone : Alone world raw found.dir)
    (skipped : String → Option SkippedStagingRecord) :
    ((describe world.clock skipped raw found).adoptable = true ↔
      ∃ request staging after, Returns Effect (acquireFetchStaging request)
        world (.ok staging) after ∧ staging.resumed = true) ∧
    ((describe world.clock skipped raw found).adoptable = true →
      ∃ metadata commit, found.dir.identity = .decoded metadata ∧
        metadata.resolvedCommit = some commit ∧
        (∃ outcome after, Returns Effect
          (acquireFetchStaging (requestOf metadata)) world outcome after) ∧
        ∀ outcome after, Returns Effect
            (acquireFetchStaging (requestOf metadata)) world outcome after →
          ∃ path entry, outcome = .ok ⟨path, true, some commit⟩ ∧
            world.area.entry (entryNameOf (fromUtf8Lossy raw)) = some entry ∧
            (after.area.entry path).map AreaEntry.inode =
              some entry.inode) := by
  have whole := alone
  obtain ⟨inode, entries⟩ := alone
  have stands := (entries _).trans (if_pos rfl)
  have resumes : (describe world.clock skipped raw found).adoptable = true →
      ∃ metadata commit, found.dir.identity = .decoded metadata ∧
        metadata.resolvedCommit = some commit ∧
        (∃ outcome after, Returns Effect
          (acquireFetchStaging (requestOf metadata)) world outcome after) ∧
        ∀ outcome after, Returns Effect
            (acquireFetchStaging (requestOf metadata)) world outcome after →
          ∃ path entry, outcome = .ok ⟨path, true, some commit⟩ ∧
            world.area.entry (entryNameOf (fromUtf8Lossy raw)) = some entry ∧
            (after.area.entry path).map AreaEntry.inode =
              some entry.inode := by
    intro listed
    obtain ⟨metadata, adoptable⟩ := (adoptable_iff whole skipped).mp listed
    obtain ⟨other, _, standsToo, recorded, _⟩ := adoptable.recorded
    rw [stands] at standsToo
    cases standsToo
    obtain ⟨commit, resolved⟩ := Option.isSome_iff_exists.mp adoptable.commit
    refine ⟨metadata, commit, recorded, resolved, ⟨_, _, runs_run effect_respond
      (acquireFetchStaging (requestOf metadata)).run world⟩, ?_⟩
    intro outcome after run
    obtain ⟨path, resumed, moved⟩ :=
      resumes_of_adoptable entries adoptable resolved run
    exact ⟨path, _, resumed, stands, moved⟩
  refine ⟨⟨?_, ?_⟩, resumes⟩
  · intro listed
    obtain ⟨metadata, commit, _, _, ⟨outcome, after, run⟩, all⟩ :=
      resumes listed
    obtain ⟨path, _, rfl, _⟩ := all outcome after run
    exact ⟨_, _, _, run, rfl⟩
  · rintro ⟨request, staging, after, run, resumed⟩
    obtain ⟨name, metadata, adoptable⟩ := adoptable_of_resumed run resumed
    obtain ⟨other, _, standsToo, _⟩ := adoptable.recorded
    have here : name = entryNameOf (fromUtf8Lossy raw) := by
      by_contra different
      rw [entries, if_neg different] at standsToo
      cases standsToo
    subst here
    exact (adoptable_iff whole skipped).mpr
      ⟨metadata, adoptable_requestOf adoptable⟩

/-- The name `fetch-abandoned-0`. -/
def abandonedName : RawName := encode "fetch-abandoned-0"

/-- An interrupted download under that name. -/
def interrupted : RetainedDir :=
  ⟨{ StagingDir.bare with
      lease := .expires 0
      identity := .decoded ⟨1, .model, "org/model", "main", [],
        some "aaaaaaaaaaaaaaaaaaaaaaaaaaaaaaaaaaaaaaaa"⟩ },
    ⟨512, 2, true⟩, 60⟩

/-- It alone in the temporary area. -/
def interruptedWorld : World :=
  ⟨(((TemporaryArea.empty.draw "0").create (.abandoned "0")).getD
    .empty).update (.abandoned "0") fun _ => interrupted.dir, 100⟩

theorem adoptable_iff_resumed_sample :
    ∃ outcome after, Returns Effect
      (acquireFetchStaging ⟨.model, "org/model", "main", []⟩) interruptedWorld
      (.ok outcome) after ∧ outcome.resumed = true := by
  have alone : Alone interruptedWorld abandonedName interrupted.dir := by
    refine ⟨0, ?_⟩
    intro name
    have called : entryNameOf (fromUtf8Lossy abandonedName) =
        .abandoned "0" := by
      unfold abandonedName
      rw [fromUtf8Lossy_encode]
      decide +kernel
    rw [called]
    by_cases here : name = .abandoned "0"
    · rw [if_pos here, here]
      rfl
    · have free : (TemporaryArea.empty.draw "0").Free (.abandoned "0") :=
        TemporaryArea.free_of_drawn (by simp [TemporaryArea.empty]) rfl
      obtain ⟨area, created⟩ := TemporaryArea.create_isSome free
      rw [if_neg here]
      unfold interruptedWorld
      dsimp only
      rw [TemporaryArea.entry_update_of_ne _ here, created, Option.getD_some,
        (TemporaryArea.create_eq_some created).2.2, if_neg here]
      rfl
  have listed : (describe interruptedWorld.clock (fun _ => none) abandonedName
      interrupted).adoptable = true := by
    decide +kernel
  obtain ⟨metadata, commit, recorded, _, ⟨outcome, after, run⟩, all⟩ :=
    (adoptable_iff_resumed alone fun _ => none).2 listed
  cases recorded
  obtain ⟨path, _, rfl, _⟩ := all outcome after run
  exact ⟨_, _, run, rfl⟩

end adoption

end Staging
end ModelKeep
