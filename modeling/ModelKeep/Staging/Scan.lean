import ModelKeep.Staging.Sequential

/-!
# What an acquisition finds

Each scan of an acquisition comes down to a verdict on every directory, and an
acquisition that runs alone ends in one of four ways: its request is invalid, a
verdict refuses it, it adopts a directory, or it makes a new one.
-/

namespace ModelKeep
namespace Staging

open Concurrency Program

variable {ε α β : Type} {before after : World}

/-! ## The scans of an acquisition -/

/-- The loop passes over every entry, or ends at one that it does not pass. -/
theorem returns_firstOf
    {visit : DirEntry → Action ε (Option β)}
    (still : ∀ entry world later,
      Returns Effect (visit entry) world (.ok none) later → later = world)
    {listed : List DirEntry}
    {outcome : Except ε (Option β)} :
    Returns Effect (firstOf visit listed) before outcome after ↔
      (outcome = .ok none ∧ after = before ∧
        ∀ entry ∈ listed,
          Returns Effect (visit entry) before (.ok none) before) ∨
      (outcome ≠ .ok none ∧ ∃ earlier entry rest,
        listed = earlier ++ entry :: rest ∧
        (∀ passed ∈ earlier,
          Returns Effect (visit passed) before (.ok none) before) ∧
        Returns Effect (visit entry) before outcome after) := by
  induction listed with
  | nil =>
      rw [firstOf, returns_check]
      simp
  | cons entry rest inductionHypothesis =>
      rw [firstOf, returns_bind]
      constructor
      · rintro (⟨error, rfl, failed⟩ | ⟨found, middle, visited, run⟩)
        · exact Or.inr ⟨by simp, [], entry, rest, rfl, by simp, failed⟩
        cases found with
        | some value =>
            obtain ⟨rfl, rfl⟩ := returns_check.mp run
            exact Or.inr ⟨by simp, [], entry, rest, rfl, by simp, visited⟩
        | none =>
            cases still _ _ _ visited
            rcases inductionHypothesis.mp run with
              ⟨rfl, rfl, passed⟩ |
              ⟨different, earlier, last, more, rfl, passed, ends⟩
            · exact Or.inl ⟨rfl, rfl,
                List.forall_mem_cons.mpr ⟨visited, passed⟩⟩
            · exact Or.inr ⟨different, entry :: earlier, last, more, rfl,
                List.forall_mem_cons.mpr ⟨visited, passed⟩, ends⟩
      · rintro (⟨rfl, rfl, passed⟩ |
          ⟨different, earlier, last, more, same, passed, ends⟩)
        · obtain ⟨first, others⟩ := List.forall_mem_cons.mp passed
          exact Or.inr ⟨none, after, first,
            inductionHypothesis.mpr (Or.inl ⟨rfl, rfl, others⟩)⟩
        cases earlier with
        | nil =>
            cases same
            match outcome with
            | .error error => exact Or.inl ⟨error, rfl, ends⟩
            | .ok none => exact absurd rfl different
            | .ok (some value) =>
                exact Or.inr ⟨some value, after, ends,
                  returns_check.mpr ⟨rfl, rfl⟩⟩
        | cons first earlier =>
            cases same
            obtain ⟨visited, others⟩ := List.forall_mem_cons.mp passed
            exact Or.inr ⟨none, before, visited, inductionHypothesis.mpr
              (Or.inr ⟨different, earlier, last, more, rfl, others, ends⟩)⟩

/-- What a scan makes of an entry. -/
inductive Verdict
  | pass
  | refuse (error : FetchStagingError)
  | adopt (staging : EntryName) (metadata : FetchStagingMetadata)

/-- How a visit with a verdict ends. -/
def Verdict.Ends (verdict : Verdict) (files : List String)
    (before : World) (outcome : Except FetchStagingError (Option FetchStaging))
    (after : World) : Prop :=
  match verdict with
  | .pass => outcome = .ok none ∧ after = before
  | .refuse error => outcome = .error error ∧ after = before
  | .adopt staging metadata =>
      Returns Effect (archived (claimFetchStaging staging metadata files))
        before outcome after

/-- The verdict on a lease. -/
def World.weigh (world : World) (name : EntryName) (now : Nat)
    (alive expired : Verdict) : Verdict :=
  match world.told name (fun found => found.dir.lease.expiry) with
  | .error error =>
      if error.ioKind = some .notFound then .pass
      else .refuse (.archive error)
  | .ok expiresAt => if now < expiresAt then alive else expired

/-- The verdict of the first scan. -/
def World.judgeAbandoned (world : World) (request : StagingRequest)
    (now : Nat) : DirEntry → Verdict
  | .error error => .refuse (.archive error)
  | .ok (.abandoned id, true) =>
      match world.identity (.abandoned id) with
      | .error _ => .pass
      | .ok metadata =>
          if namesSameRevision metadata request &&
              stagingSelectionIsAdoptable metadata.files request.files &&
              metadata.resolvedCommit.isSome then
            world.weigh (.abandoned id) now
              (.refuse (.inFlight (.abandoned id)))
              (.adopt (.abandoned id) metadata)
          else
            .pass
  | .ok _ => .pass

/-- The verdict of the second scan. -/
def World.judgeActive (world : World) (request : StagingRequest)
    (now : Nat) : DirEntry → Verdict
  | .error error => .refuse (.archive error)
  | .ok (.active id, true) =>
      match world.identity (.active id) with
      | .error _ => .pass
      | .ok metadata =>
          if namesSameRevision metadata request then
            world.weigh (.active id) now
              (if metadata.files = request.files then
                .refuse (.inFlight (.active id))
              else
                .pass)
              (if stagingSelectionIsAdoptable metadata.files request.files &&
                  metadata.resolvedCommit.isSome then
                .adopt (.active id) metadata
              else
                .pass)
          else
            .pass
  | .ok _ => .pass

section verdicts

variable
  {request : StagingRequest}
  {now : Nat}
  {outcome : Except FetchStagingError (Option FetchStaging)}

theorem returns_weighLease
    {name : EntryName}
    {files : List String}
    {alive expired : Action FetchStagingError (Option FetchStaging)}
    {onAlive onExpired : Verdict}
    (aliveEnds : Returns Effect alive before outcome after ↔
      onAlive.Ends files before outcome after)
    (expiredEnds : Returns Effect expired before outcome after ↔
      onExpired.Ends files before outcome after) :
    Returns Effect (weighLease name now alive expired) before outcome after ↔
      (before.weigh name now onAlive onExpired).Ends files before outcome
        after := by
  have reads : ∀ (answer : Except ArchiveError Nat) (later : World),
      (perform (.readLease name)).Runs Effect before answer later ↔
        answer = before.told name (fun found => found.dir.lease.expiry) ∧
          later = before := by
    intro answer later
    rw [runs_perform]
    exact within_view
  unfold weighLease World.weigh
  rw [returns_always_of reads]
  cases before.told name fun found => found.dir.lease.expiry with
  | error error =>
      dsimp only
      split
      · exact returns_check
      · exact returns_check
  | ok expiresAt =>
      dsimp only
      split
      · exact aliveEnds
      · exact expiredEnds

theorem returns_visitAbandoned (entry : DirEntry) :
    Returns Effect (visitAbandoned request now entry) before outcome after ↔
      (before.judgeAbandoned request now entry).Ends request.files before
        outcome after := by
  unfold visitAbandoned
  match entry with
  | .error error => exact returns_check_error
  | .ok (.other name, isDirectory) =>
      exact returns_check_bind.trans returns_check
  | .ok (.active name, isDirectory) =>
      exact returns_check_bind.trans returns_check
  | .ok (.abandoned id, false) =>
      exact returns_check_bind.trans returns_check
  | .ok (.abandoned id, true) =>
      refine returns_check_bind.trans ?_
      unfold World.judgeAbandoned
      dsimp only
      rw [returns_always_of (runs_readMetadata _)]
      cases before.identity (.abandoned id) with
      | error error => exact returns_check
      | ok metadata =>
          dsimp only
          split
          · exact returns_weighLease returns_check Iff.rfl
          · exact returns_check

theorem returns_visitActive (entry : DirEntry) :
    Returns Effect (visitActive request now entry) before outcome after ↔
      (before.judgeActive request now entry).Ends request.files before
        outcome after := by
  unfold visitActive
  match entry with
  | .error error => exact returns_check_error
  | .ok (.other name, isDirectory) =>
      exact returns_check_bind.trans returns_check
  | .ok (.abandoned name, isDirectory) =>
      exact returns_check_bind.trans returns_check
  | .ok (.active id, false) =>
      exact returns_check_bind.trans returns_check
  | .ok (.active id, true) =>
      refine returns_check_bind.trans ?_
      unfold World.judgeActive
      dsimp only
      rw [returns_always_of (runs_readMetadata _)]
      cases before.identity (.active id) with
      | error error => exact returns_check
      | ok metadata =>
          dsimp only
          split
          · apply returns_weighLease
            · split
              · exact returns_check
              · exact returns_check
            · split
              · exact Iff.rfl
              · exact returns_check
          · exact returns_check

/-- A directory that an acquisition may take over. -/
structure World.Adoptable (world : World) (request : StagingRequest)
    (now : Nat) (name : EntryName) (metadata : FetchStagingMetadata) :
    Prop where
  named : isFetchName name = true
  recorded : ∃ found expiresAt, world.area.entry name = some found ∧
    found.dir.identity = .decoded metadata ∧
    found.dir.lease = .expires expiresAt ∧ expiresAt ≤ now
  valid : checkMetadata metadata = .ok metadata
  sameRevision : namesSameRevision metadata request
  selection : stagingSelectionIsAdoptable metadata.files request.files
  commit : metadata.resolvedCommit.isSome

theorem weigh_eq_adopt
    {world : World}
    {name staging : EntryName}
    {alive expired : Verdict}
    {metadata : FetchStagingMetadata}
    (weighed : world.weigh name now alive expired = .adopt staging metadata)
    (notAlive : alive ≠ .adopt staging metadata) :
    expired = .adopt staging metadata ∧ ∃ found expiresAt,
      world.area.entry name = some found ∧
        found.dir.lease = .expires expiresAt ∧ expiresAt ≤ now := by
  unfold World.weigh at weighed
  split at weighed
  · split at weighed
    · cases weighed
    · cases weighed
  · next expiresAt told =>
      split at weighed
      · exact absurd weighed notAlive
      · next expired =>
          cases stands : world.area.entry name with
          | none =>
              rw [told_none stands] at told
              cases told
          | some found =>
              rw [told_some stands] at told
              refine ⟨weighed, found, expiresAt, rfl, ?_, not_lt.mp expired⟩
              unfold Lease.expiry at told
              split at told
              · cases told
              · cases told
              · cases told
              · next leased =>
                  cases told
                  exact leased

theorem adoptable_of_abandoned
    {world : World}
    {entry : DirEntry}
    {staging : EntryName}
    {metadata : FetchStagingMetadata}
    (judged : world.judgeAbandoned request now entry =
      .adopt staging metadata) :
    world.Adoptable request now staging metadata := by
  unfold World.judgeAbandoned at judged
  split at judged
  · cases judged
  · next id =>
      split at judged
      · cases judged
      · next read identity =>
          split at judged
          · next matching =>
              obtain ⟨same, found, expiresAt, stands, leased, expired⟩ :=
                weigh_eq_adopt judged (by simp)
              cases same
              obtain ⟨other, standsToo, recorded, valid⟩ :=
                identity_eq_ok.mp identity
              rw [stands] at standsToo
              cases standsToo
              simp only [Bool.and_eq_true] at matching
              exact ⟨rfl,
                ⟨found, expiresAt, stands, recorded, leased, expired⟩, valid,
                matching.1.1, matching.1.2, matching.2⟩
          · cases judged
  · cases judged

theorem adoptable_of_active
    {world : World}
    {entry : DirEntry}
    {staging : EntryName}
    {metadata : FetchStagingMetadata}
    (judged : world.judgeActive request now entry =
      .adopt staging metadata) :
    world.Adoptable request now staging metadata := by
  unfold World.judgeActive at judged
  split at judged
  · cases judged
  · next id =>
      split at judged
      · cases judged
      · next read identity =>
          split at judged
          · next matching =>
              obtain ⟨same, found, expiresAt, stands, leased, expired⟩ :=
                weigh_eq_adopt judged (by split <;> simp)
              split at same
              · next adoptable =>
                  cases same
                  obtain ⟨other, standsToo, recorded, valid⟩ :=
                    identity_eq_ok.mp identity
                  rw [stands] at standsToo
                  cases standsToo
                  rw [Bool.and_eq_true] at adoptable
                  exact ⟨rfl, ⟨found, expiresAt, stands, recorded, leased,
                    expired⟩, valid, matching, adoptable.1, adoptable.2⟩
              · cases same
          · cases judged
  · cases judged

/-- Expired staging is adopted. -/
theorem weigh_of_expired
    {world : World}
    {name : EntryName}
    {alive expired : Verdict}
    {found : AreaEntry}
    {expiresAt : Nat}
    (stands : world.area.entry name = some found)
    (leased : found.dir.lease = .expires expiresAt)
    (late : expiresAt ≤ now) :
    world.weigh name now alive expired = expired := by
  unfold World.weigh
  rw [told_some stands, leased]
  exact if_neg (not_lt.mpr late)

theorem judge_of_adoptable
    {world : World}
    {name : EntryName}
    {metadata : FetchStagingMetadata}
    (adoptable : world.Adoptable request now name metadata) :
    world.judgeAbandoned request now (.ok (name, true)) =
        .adopt name metadata ∨
      world.judgeActive request now (.ok (name, true)) =
        .adopt name metadata := by
  obtain ⟨found, expiresAt, stands, recorded, leased, late⟩ :=
    adoptable.recorded
  have identity : world.identity name = .ok metadata :=
    identity_eq_ok.mpr ⟨found, stands, recorded, adoptable.valid⟩
  cases name with
  | other name => cases adoptable.named
  | abandoned id =>
      left
      unfold World.judgeAbandoned
      simp only [identity, adoptable.sameRevision, adoptable.selection,
        adoptable.commit, Bool.and_true, if_true]
      exact weigh_of_expired stands leased late
  | active id =>
      right
      unfold World.judgeActive
      simp only [identity, adoptable.sameRevision, adoptable.selection,
        adoptable.commit, Bool.and_true, if_true]
      exact weigh_of_expired stands leased late

/-- Only the verdict to pass lets a scan go on. -/
theorem Verdict.Ends.eq_pass
    {verdict : Verdict}
    (ends : verdict.Ends request.files before (.ok none) after)
    (adoptable : ∀ staging metadata, verdict = .adopt staging metadata →
      before.Adoptable request now staging metadata) :
    verdict = .pass ∧ after = before := by
  cases verdict with
  | pass => exact ⟨rfl, ends.2⟩
  | refuse error => cases ends.1
  | adopt staging metadata =>
      obtain ⟨_, ⟨found, _, stands, recorded, _⟩, _⟩ :=
        adoptable staging metadata rfl
      obtain ⟨claimed, same, run⟩ := returns_archived.mp ends
      obtain ⟨id, _, rfl, _⟩ := returns_claim stands recorded run
      cases same

/-- How a scan ends: it passes over every directory, or the verdict on one of
them decides. -/
inductive Scanned (judge : DirEntry → Verdict) (files : List String)
    (before : World) :
    Except FetchStagingError (Option FetchStaging) → World → Prop
  | passed
      (passes : ∀ name, (before.area.entry name).isSome →
        judge (.ok (name, true)) = .pass) :
      Scanned judge files before (.ok none) before
  | refused
      {name : EntryName}
      {isDirectory : Bool}
      {error : FetchStagingError}
      (refuses : judge (.ok (name, isDirectory)) = .refuse error) :
      Scanned judge files before (.error error) before
  | adopted
      {entry : DirEntry}
      {staging : EntryName}
      {metadata : FetchStagingMetadata}
      {claimed : FetchStaging}
      {after : World}
      (adopts : judge entry = .adopt staging metadata)
      (claims : Returns Effect (claimFetchStaging staging metadata files) before
        (.ok (some claimed)) after) :
      Scanned judge files before (.ok (some claimed)) after

theorem returns_scan
    {visit : DirEntry → Action FetchStagingError (Option FetchStaging)}
    (judge : World → DirEntry → Verdict)
    (judged : ∀ world entry outcome later,
      Returns Effect (visit entry) world outcome later ↔
        (judge world entry).Ends request.files world outcome later)
    (adoptable : ∀ world entry staging metadata,
      judge world entry = .adopt staging metadata →
        world.Adoptable request now staging metadata)
    {listed : List DirEntry}
    (listing : Listing before.area listed)
    (run : Returns Effect (firstOf visit listed) before outcome after) :
    Scanned (judge before) request.files before outcome after := by
  have still : ∀ entry world later,
      Returns Effect (visit entry) world (.ok none) later → later = world := by
    intro entry world later visited
    exact (Verdict.Ends.eq_pass ((judged _ _ _ _).mp visited)
      (adoptable world entry)).2
  obtain ⟨entries, rfl, _, complete⟩ := listing
  rcases (returns_firstOf still).mp run with
    ⟨rfl, rfl, passed⟩ | ⟨different, earlier, entry, rest, split, _, ends⟩
  · apply Scanned.passed
    intro name present
    have visited := passed (.ok (name, true))
      (List.mem_map_of_mem ((complete name).mpr present))
    exact (Verdict.Ends.eq_pass ((judged _ _ _ _).mp visited)
      (adoptable _ _)).1
  · have member : entry ∈ entries.map Except.ok := by
      rw [split]
      exact List.mem_append_right _ List.mem_cons_self
    obtain ⟨⟨name, isDirectory⟩, _, rfl⟩ := List.mem_map.mp member
    replace ends := (judged _ _ _ _).mp ends
    cases verdict : judge before (.ok (name, isDirectory)) with
    | pass =>
        rw [verdict] at ends
        exact absurd ends.1 different
    | refuse error =>
        rw [verdict] at ends
        obtain ⟨rfl, rfl⟩ := ends
        exact Scanned.refused verdict
    | adopt staging metadata =>
        rw [verdict] at ends
        obtain ⟨_, ⟨found, _, stands, recorded, _⟩, _⟩ :=
          adoptable _ _ _ _ verdict
        obtain ⟨claimed, rfl, claims⟩ := returns_archived.mp ends
        obtain ⟨id, _, rfl, _⟩ := returns_claim stands recorded claims
        exact Scanned.adopted verdict claims

theorem returns_scanAbandoned
    {listed : List DirEntry}
    (listing : Listing before.area listed)
    (run : Returns Effect (firstOf (visitAbandoned request now) listed) before
      outcome after) :
    Scanned (before.judgeAbandoned request now) request.files before outcome
      after :=
  returns_scan (fun world => world.judgeAbandoned request now)
    (fun _ entry _ _ => returns_visitAbandoned entry)
    (fun _ _ _ _ => adoptable_of_abandoned) listing run

theorem returns_scanActive
    {listed : List DirEntry}
    (listing : Listing before.area listed)
    (run : Returns Effect (firstOf (visitActive request now) listed) before
      outcome after) :
    Scanned (before.judgeActive request now) request.files before outcome
      after :=
  returns_scan (fun world => world.judgeActive request now)
    (fun _ entry _ _ => returns_visitActive entry)
    (fun _ _ _ _ => adoptable_of_active) listing run

end verdicts

/-! ## Acquisitions -/

theorem returns_readDir
    {rest : List DirEntry → Action FetchStagingError β}
    {result : Except FetchStagingError β} :
    Returns Effect (archived (attempt (perform .readDir)) >>= rest) before
        result after ↔
      ∃ listed, Listing before.area listed ∧
        Returns Effect (rest listed) before result after := by
  rw [returns_bind]
  constructor
  · rintro (⟨error, _, failed⟩ | ⟨listed, middle, read, run⟩)
    · obtain ⟨answer, same, read⟩ := returns_archived.mp failed
      obtain ⟨_, listed, rfl, _⟩ := runs_perform.mp (returns_attempt.mp read)
      cases same
    · obtain ⟨answer, same, read⟩ := returns_archived.mp read
      obtain ⟨rfl, _, rfl, listing⟩ :=
        runs_perform.mp (returns_attempt.mp read)
      cases same
      exact ⟨listed, listing, run⟩
  · rintro ⟨listed, listing, run⟩
    refine Or.inr ⟨listed, before, ?_, run⟩
    exact returns_archived.mpr
      ⟨.ok listed, rfl, runs_perform.mpr ⟨rfl, listed, rfl, listing⟩⟩

/-- How an acquisition ends. -/
inductive Acquires (request : StagingRequest) (before : World) :
    Except FetchStagingError FetchStaging → World → Prop
  | invalid
      {error : ArchiveError}
      (invalid : validateRequest request = .error error) :
      Acquires request before (.error (.archive error)) before
  | refused
      {name : EntryName}
      {isDirectory : Bool}
      {error : FetchStagingError}
      (refuses :
        before.judgeAbandoned request before.clock
          (.ok (name, isDirectory)) = .refuse error ∨
        before.judgeActive request before.clock
          (.ok (name, isDirectory)) = .refuse error) :
      Acquires request before (.error error) before
  | adopted
      {staging : EntryName}
      {metadata : FetchStagingMetadata}
      {claimed : FetchStaging}
      {after : World}
      (valid : validateRequest request = .ok ())
      (adoptable :
        before.Adoptable request before.clock staging metadata)
      (claims : Returns Effect
        (claimFetchStaging staging metadata request.files)
        before (.ok (some claimed)) after) :
      Acquires request before (.ok claimed) after
  | created
      {outcome : Except ArchiveError FetchStaging}
      {after : World}
      (valid : validateRequest request = .ok ())
      (passes : ∀ name, (before.area.entry name).isSome →
        before.judgeAbandoned request before.clock (.ok (name, true)) =
            .pass ∧
          before.judgeActive request before.clock (.ok (name, true)) = .pass)
      (creates : Returns Effect (createFetchStaging request) before outcome
        after) :
      Acquires request before (outcome.mapError .archive) after

theorem returns_acquire
    {request : StagingRequest}
    {outcome : Except FetchStagingError FetchStaging}
    (run : Returns Effect (acquireFetchStaging request) before outcome after) :
    Acquires request before outcome after := by
  unfold acquireFetchStaging at run
  rcases returns_bind.mp run with
    ⟨_, rfl, failed⟩ | ⟨⟨⟩, middle, checked, remaining⟩
  · obtain ⟨answer, same, invalid, rfl⟩ := returns_archived.mp failed
    cases answer with
    | error error =>
        cases same
        exact Acquires.invalid invalid.symm
    | ok value => cases same
  obtain ⟨answer, same, valid, rfl⟩ := returns_archived.mp checked
  obtain rfl : answer = .ok () := by
    cases answer with
    | error error => cases same
    | ok value => rfl
  clear run
  obtain ⟨now, _, asked, run⟩ := returns_always_bind.mp remaining
  obtain ⟨rfl, rfl⟩ : now = middle.clock ∧ _ = middle := by
    have answered : (middle.clock, middle) = _ := runs_perform.mp asked
    rw [Prod.mk.injEq] at answered
    exact answered.imp Eq.symm Eq.symm
  obtain ⟨listed, listing, run⟩ := returns_readDir.mp run
  rcases returns_bind.mp run with
    ⟨error, rfl, failed⟩ | ⟨claimed, later, scanned, run⟩
  · cases returns_scanAbandoned listing failed with
    | refused refuses => exact Acquires.refused (Or.inl refuses)
  cases returns_scanAbandoned listing scanned with
  | adopted adopts claims =>
      obtain ⟨rfl, rfl⟩ := returns_check.mp run
      exact Acquires.adopted valid.symm (adoptable_of_abandoned adopts) claims
  | passed passesAbandoned =>
      obtain ⟨listedToo, listing, run⟩ := returns_readDir.mp run
      rcases returns_bind.mp run with
        ⟨error, rfl, failed⟩ | ⟨claimed, later, scanned, run⟩
      · cases returns_scanActive listing failed with
        | refused refuses => exact Acquires.refused (Or.inr refuses)
      cases returns_scanActive listing scanned with
      | adopted adopts claims =>
          obtain ⟨rfl, rfl⟩ := returns_check.mp run
          exact Acquires.adopted valid.symm (adoptable_of_active adopts)
            claims
      | passed passesActive =>
          obtain ⟨answer, rfl, creates⟩ := returns_archived.mp run
          refine Acquires.created valid.symm ?_ creates
          intro name present
          exact ⟨passesAbandoned name present, passesActive name present⟩

theorem runs_createDir
    {name : EntryName}
    {reply : Except ArchiveError Unit}
    (free : before.area.Free name)
    (run : (perform (.createDir name)).Runs Effect before reply after) :
    reply = .ok () ∧
      Replaced before after name name ⟨before.area.nextInode, .bare⟩ := by
  obtain ⟨area, created⟩ := TemporaryArea.create_isSome free
  obtain ⟨_, _, entries⟩ := TemporaryArea.create_eq_some created
  have issued : respond (.createDir name) before = (reply, after) :=
    runs_perform.mp run
  unfold respond at issued
  simp only [created] at issued
  cases issued
  refine ⟨rfl, rfl, ?_⟩
  intro other
  by_cases same : other = name
  · rw [if_pos same, entries, if_pos same]
  · rw [if_neg same, if_neg same, entries, if_neg same]

/-- The first attempt succeeds, because operation ids are fresh. -/
theorem returns_createStaging
    {named : String → EntryName}
    (operation : ∀ id, (named id).operation = some id)
    {attempts : Nat}
    {outcome : Except ArchiveError EntryName}
    (run : Returns Effect (createStaging named (attempts + 1)) before outcome
      after) :
    ∃ id, id ∉ before.area.spent ∧ outcome = .ok (named id) ∧
      Replaced before after (named id) (named id) ⟨before.area.nextInode,
        { StagingDir.bare with
          lease := .expires (before.clock + stagingLeaseSeconds) }⟩ := by
  unfold createStaging at run
  obtain ⟨id, unspent, run⟩ := returns_operationId.mp run
  refine ⟨id, unspent, ?_⟩
  obtain ⟨created, made, creates, run⟩ := returns_always_bind.mp run
  obtain ⟨rfl, replaced⟩ := runs_createDir
    (TemporaryArea.free_of_drawn unspent (operation id)) creates
  have clock : made.clock = before.clock := replaced.clock
  dsimp only at run
  rw [returns_bind_of (returns_writeStagingLease replaced.entry_new),
    returns_bind_of returns_sync] at run
  obtain ⟨rfl, rfl⟩ := returns_check.mp run
  rw [clock]
  exact ⟨rfl, replaced.change _⟩

theorem returns_createFetchStaging
    {request : StagingRequest}
    {outcome : Except ArchiveError FetchStaging}
    (run : Returns Effect (createFetchStaging request) before outcome after) :
    ∃ id inode, id ∉ before.area.spent ∧
      outcome = .ok ⟨.active id, false, none⟩ ∧
      Replaced before after (.active id) (.active id) ⟨inode,
        { StagingDir.bare with
          lease := .expires (before.clock + stagingLeaseSeconds)
          identity := .decoded ⟨1, request.repoType, request.repoId,
            request.requestedRevision, request.files, none⟩ }⟩ := by
  unfold createFetchStaging at run
  rcases returns_bind.mp run with
    ⟨error, rfl, failed⟩ | ⟨path, made, creates, remaining⟩
  · obtain ⟨id, _, same, _⟩ := returns_createStaging (fun _ => rfl) failed
    cases same
  obtain ⟨id, unspent, same, replaced⟩ :=
    returns_createStaging (fun _ => rfl) creates
  cases same
  rw [returns_bind_of (returns_writeMetadata replaced.entry_new _)]
    at remaining
  obtain ⟨rfl, rfl⟩ := returns_check.mp remaining
  exact ⟨id, _, unspent, rfl, replaced.change _⟩

/-- The commit an acquisition may be offered to resume, if there is one. -/
def World.Offers (world : World) (request : StagingRequest) :
    Option String → Prop
  | some commit => ∃ name metadata,
      world.Adoptable request world.clock name metadata ∧
        metadata.resolvedCommit = some commit
  | none => ∀ name metadata,
      ¬world.Adoptable request world.clock name metadata

theorem offers_of_acquire
    {request : StagingRequest}
    {staging : FetchStaging}
    (run : Returns Effect (acquireFetchStaging request) before (.ok staging)
      after) :
    before.Offers request staging.resolvedCommit := by
  generalize handed : (.ok staging : Except FetchStagingError FetchStaging) =
    outcome at run
  cases returns_acquire run with
  | invalid => cases handed
  | refused => cases handed
  | adopted valid adoptable claims =>
      cases handed
      obtain ⟨found, _, stands, recorded, _⟩ := adoptable.recorded
      obtain ⟨_, _, same, _⟩ := returns_claim stands recorded claims
      cases same
      obtain ⟨commit, resolved⟩ := Option.isSome_iff_exists.mp
        adoptable.commit
      rw [resolved]
      exact ⟨_, _, adoptable, resolved⟩
  | created valid passes creates =>
      obtain ⟨_, _, _, rfl, _⟩ := returns_createFetchStaging creates
      cases handed
      intro name metadata adoptable
      obtain ⟨found, _, stands, _⟩ := adoptable.recorded
      have present : (before.area.entry name).isSome := by rw [stands]; rfl
      rcases judge_of_adoptable adoptable with judged | judged
      · rw [(passes name present).1] at judged
        cases judged
      · rw [(passes name present).2] at judged
        cases judged

end Staging
end ModelKeep
