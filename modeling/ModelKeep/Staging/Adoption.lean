import ModelKeep.Staging.Rules

/-!
# What the calls are returned

The contract of the calls, followed through their programs: each part of a
call is given by what the call knows before it and, when it succeeded, after
it.
-/

namespace ModelKeep
namespace Staging

open Concurrency Program

variable {ι : Type} [DecidableEq ι] {calls : ι → Call} {actor : ι}
  {ε α β : Type}

/-! ## Leases, identities and claims -/

/-- Write a lease whose last step does what is asked. -/
theorem performs_writeLease
    {pre : Shared ι → Prop}
    {post : Unit → Shared ι → Prop}
    {name : EntryName}
    {expiresAt : Nat}
    (isLocal : Local actor pre)
    (rename : Performs calls actor pre
      (attempt (perform (.renameLease name expiresAt))) post) :
    Performs calls actor pre (writeStagingLeaseWithExpiry name expiresAt)
      post := by
  unfold writeStagingLeaseWithExpiry
  refine performs_bind (fun _ => pre) (performs_createPart isLocal name) ?_
  intro _
  refine performs_bind (fun _ => pre) (performs_flush isLocal) ?_
  intro _
  exact rename

/-- Compute an expiry and write it. -/
theorem performs_writeStagingLease
    {pre : Shared ι → Prop}
    {post : Unit → Shared ι → Prop}
    {name : EntryName}
    (isLocal : Local actor pre)
    (unpledged : ∀ shared pledge, pre shared →
      pre (shared.setPledge actor pledge))
    (rename : ∀ expiresAt, Performs calls actor
      (fun shared => pre shared ∧ Pledged actor expiresAt shared)
      (attempt (perform (.renameLease name expiresAt))) post) :
    Performs calls actor pre (writeStagingLease name) post := by
  unfold writeStagingLease
  have pledging : ∀ expiresAt, Local actor fun shared =>
      pre shared ∧ Pledged actor expiresAt shared :=
    fun expiresAt => isLocal.and (local_pledged expiresAt)
  refine performs_bind
    (fun expiresAt shared => pre shared ∧ Pledged actor expiresAt shared)
    (performs_always (fun expiresAt => (pledging expiresAt).stable)
      (triple_leaseExpiry isLocal unpledged)) ?_
  intro expiresAt
  exact performs_writeLease (pledging expiresAt) (rename expiresAt)

theorem performs_renewLease (name : EntryName) (inode : Nat) :
    Performs calls actor (Owns actor name inode) (writeStagingLease name)
      fun _ => Owns actor name inode :=
  performs_writeStagingLease (local_owns name inode)
    (fun _ _ owns => owns) fun expiresAt =>
      performs_renewOwn name inode expiresAt

theorem performs_sync
    {pre : Shared ι → Prop}
    (isLocal : Local actor pre) :
    Performs calls actor pre (attempt (perform .syncDirectory))
      fun _ => pre :=
  performs_local (triple_local .syncDirectory trivial isLocal)

theorem performs_writeMetadata
    {pre : Shared ι → Prop}
    (isLocal : Local actor pre)
    (name : EntryName)
    (metadata : FetchStagingMetadata) :
    Performs calls actor pre (writeFetchStagingMetadata name metadata)
      fun _ => pre := by
  unfold writeFetchStagingMetadata
  refine performs_bind (fun _ => pre) (performs_createPart isLocal name) ?_
  intro _
  refine performs_bind (fun _ => pre) (performs_flush isLocal) ?_
  intro _
  refine performs_bind (fun _ => pre)
    (performs_local
      (triple_local (.renameIdentity name metadata) trivial isLocal)) ?_
  intro _
  exact performs_sync isLocal

/-- The directory that was claimed, under its new name. -/
def Claimed (actor : ι) (inode : Nat) (commit : Option String)
    (staging : Option FetchStaging) (shared : Shared ι) : Prop :=
  ∀ found, staging = some found →
    Owns actor found.path inode shared ∧ found.resolvedCommit = commit

theorem performs_finishClaim
    (name : EntryName)
    (inode : Nat)
    (metadata : FetchStagingMetadata)
    (files : List String) :
    Performs calls actor (Owns actor name inode)
      (finishClaim name metadata files)
      (Claimed actor inode metadata.resolvedCommit) := by
  have isLocal : Local actor (Owns actor name inode) := local_owns name inode
  unfold finishClaim
  refine performs_bind (fun _ => Owns actor name inode)
    (performs_renewLease name inode) ?_
  intro _
  refine performs_bind (fun _ => Owns actor name inode) ?_ ?_
  · unfold relabel
    split
    · exact performs_writeMetadata isLocal name _
    · exact performs_check isLocal.stable fun _ _ _ holds => holds
  intro _
  refine performs_bind (fun _ => Owns actor name inode)
    (performs_sync isLocal) ?_
  intro _
  refine performs_check isLocal.stable ?_
  intro staging shared same owns found isFound
  cases same
  cases isFound
  exact ⟨owns, rfl⟩

/-- A claim that found nothing promises nothing. -/
theorem performs_unclaimed
    {pre : Shared ι → Prop}
    {inode : Nat}
    {commit : Option String}
    {error : ArchiveError}
    (stable : Stable (Rely actor) pre) :
    Performs calls actor pre
      (if error.ioKind = some .notFound then check (.ok none)
        else check (.error error) : Action ArchiveError (Option FetchStaging))
      (Claimed actor inode commit) := by
  split
  · refine performs_check stable ?_
    intro staging shared same _ found isFound
    cases same
    cases isFound
  · refine performs_check stable ?_
    intro _ _ failed
    cases failed

/-- A claim of a directory that nobody owns. -/
theorem performs_claimFetchStaging
    (old : EntryName)
    (inode : Nat)
    (metadata : FetchStagingMetadata)
    (files : List String) :
    Performs calls actor (Open old inode)
      (claimFetchStaging old metadata files)
      (Claimed actor inode metadata.resolvedCommit) := by
  have isOpen : Local actor (Open old inode) := local_open old inode
  unfold claimFetchStaging
  refine performs_bind
    (fun id shared => Open old inode shared ∧
      Mine actor (.active id) shared) ?_ ?_
  · refine performs_always
      (fun id => (isOpen.and (local_mine _)).stable) ?_
    refine (triple_operationId isOpen).mono (fun _ _ holds => holds) ?_
    rintro id shared _ ⟨opened, mine⟩
    exact ⟨opened, mine (.active id) rfl⟩
  intro id
  have known : Local actor fun shared =>
      Open old inode shared ∧ Mine actor (.active id) shared :=
    isOpen.and (local_mine _)
  have claiming : Local actor fun shared =>
      (Open old inode shared ∧ Mine actor (.active id) shared) ∧
        Claims actor old shared := known.and (local_claims old)
  refine performs_bind
    (Outcome (fun _ => True) fun _ shared =>
      (Open old inode shared ∧ Mine actor (.active id) shared) ∧
        Claims actor old shared)
    (performs_always (stable_outcome fun _ => claiming.stable)
      (performs_writeStagingLease known (fun _ _ holds => holds)
        fun _ => performs_renewOpen)) ?_
  intro written
  cases written with
  | error error => exact performs_unclaimed stable_true
  | ok =>
      refine performs_bind
        (Outcome (fun _ => True) fun _ => Owns actor (.active id) inode)
        (performs_always
          (stable_outcome fun _ => (local_owns (.active id) inode).stable)
          (triple_renameClaimed old (.active id) inode)) ?_
      intro renamed
      cases renamed with
      | error error => exact performs_unclaimed stable_true
      | ok => exact performs_finishClaim (.active id) inode metadata files

/-! ## Looking for something to resume -/

/-- The call has read this identity under this name. -/
def Identified (actor : ι) (name : EntryName)
    (metadata : FetchStagingMetadata) (shared : Shared ι) : Prop :=
  ∃ inode, shared.bound name = some inode ∧
    .identity inode metadata ∈ shared.readings actor

/-- Under this name the call has read the identity and then a lease that had
expired, so nobody owns it. -/
def Candidate (actor : ι) (name : EntryName)
    (metadata : FetchStagingMetadata) (inode : Nat)
    (shared : Shared ι) : Prop :=
  Open name inode shared ∧
    (.identity inode metadata ∈ shared.readings actor ∧
      ∃ expiresAt clock, .lease inode expiresAt clock ∈ shared.readings actor ∧
        expiresAt ≤ clock)

/-- The request was made before now. -/
def Since (now : Nat) (shared : Shared ι) : Prop :=
  now ≤ shared.world.clock

omit [DecidableEq ι] in
theorem Identified.onward
    {name : EntryName}
    {metadata : FetchStagingMetadata}
    {before after : Shared ι}
    (onward : Onward actor before after)
    (identified : Identified actor name metadata before) :
    Identified actor name metadata after := by
  obtain ⟨inode, bound, read⟩ := identified
  exact ⟨inode, onward.bound name inode bound, onward.readings read⟩

omit [DecidableEq ι] in
theorem Since.onward
    {now : Nat}
    {before after : Shared ι}
    (onward : Onward actor before after)
    (since : Since now before) :
    Since now after :=
  Nat.le_trans since onward.clock

omit [DecidableEq ι] in
theorem Candidate.onward
    {name : EntryName}
    {metadata : FetchStagingMetadata}
    {inode : Nat}
    {before after : Shared ι}
    (onward : Onward actor before after)
    (candidate : Candidate actor name metadata inode before) :
    Candidate actor name metadata inode after := by
  obtain ⟨opened, read, expiresAt, clock, lease, expired⟩ := candidate
  exact ⟨onward.opened name inode opened, onward.readings read, expiresAt,
    clock, onward.readings lease, expired⟩

/-- Reading an identity. -/
theorem performs_readMetadata (name : EntryName) :
    Performs calls actor (fun _ => True) (readFetchStagingMetadata name)
      (Identified actor name) := by
  have stable : ∀ metadata,
      Stable (Rely actor) (Identified actor name metadata) :=
    fun _ _ _ moved identified => identified.onward moved.onward
  unfold readFetchStagingMetadata
  refine performs_bind (Identified actor name) ?_ ?_
  · refine triple_silent trivial stable_true (stable_outcome stable) ?_
    intro before reply after sound _ issued
    cases reply with
    | error error => trivial
    | ok metadata =>
        obtain ⟨world, answered, rfl⟩ := issued
        rcases answered with settled | ⟨⟨_, impossible⟩, _⟩
        · rcases within_cases settled with
            ⟨_, impossible, _⟩ | ⟨found, stands, _, rfl⟩
          · cases impossible
          · have noted : before.inodeAt name = some found.inode := by
              unfold Shared.inodeAt
              rw [stands]
              rfl
            refine ⟨found.inode, ?_, ?_⟩
            · dsimp only [Shared.record]
              rw [noted]
              exact sound.located name found stands
            · dsimp only [Shared.record]
              rw [noted]
              simp [Shared.note]
        · cases impossible
  · intro metadata
    refine performs_check (stable metadata) ?_
    intro value shared checked identified
    unfold checkMetadata at checked
    split at checked
    · cases checked
    · obtain ⟨_, _, checked⟩ := bind_eq_ok.mp checked
      obtain ⟨_, _, checked⟩ := bind_eq_ok.mp checked
      obtain ⟨_, _, checked⟩ := bind_eq_ok.mp checked
      cases checked
      exact identified

/-- Reading a lease that turns out to have expired. -/
theorem triple_readLease
    (name : EntryName)
    (metadata : FetchStagingMetadata)
    (now : Nat) :
    Triples calls actor
      (fun shared => Identified actor name metadata shared ∧
        Since now shared)
      (perform (.readLease name))
      (Outcome (fun _ => True) fun expiresAt shared =>
        expiresAt ≤ now → ∃ inode,
          Candidate actor name metadata inode shared) := by
  refine triple_silent trivial ?_ (stable_outcome ?_) ?_
  · rintro before after moved ⟨identified, since⟩
    exact ⟨identified.onward moved.onward, since.onward moved.onward⟩
  · intro expiresAt before after moved found past
    obtain ⟨inode, candidate⟩ := found past
    exact ⟨inode, candidate.onward moved.onward⟩
  rintro before reply after sound ⟨⟨inode, bound, read⟩, since⟩ issued
  cases reply with
  | error error => trivial
  | ok expiresAt =>
      intro past
      obtain ⟨world, answered, rfl⟩ := issued
      rcases answered with settled | ⟨⟨_, impossible⟩, _⟩
      · rcases within_cases settled with
          ⟨_, impossible, _⟩ | ⟨found, stands, expiry, rfl⟩
        · cases impossible
        · have located := sound.located name found stands
          rw [bound, Option.some.injEq] at located
          subst located
          have noted : before.inodeAt name = some found.inode := by
            unfold Shared.inodeAt
            rw [stands]
            rfl
          have expires : found.dir.lease = .expires expiresAt := by
            cases lease : found.dir.lease <;> rw [lease] at expiry <;>
              cases expiry
            rfl
          have expired : expiresAt ≤ before.world.clock :=
            Nat.le_trans past since
          have unowned : before.owner name = none := by
            by_contra owned
            have alive := sound.last.owned name found expiresAt owned stands
              expires
            omega
          refine ⟨found.inode, ?_, ?_, expiresAt, before.world.clock, ?_,
            expired⟩
          · dsimp only [Shared.record]
            rw [noted]
            exact ⟨bound, unowned⟩
          · dsimp only [Shared.record]
            rw [noted]
            simp [Shared.note, read]
          · dsimp only [Shared.record]
            rw [noted]
            simp [Shared.note]
      · cases impossible

/-- Staging that was found or made for a request. -/
def Staged (actor : ι) (request : StagingRequest) (staging : FetchStaging)
    (shared : Shared ι) : Prop :=
  ∃ inode, Owns actor staging.path inode shared ∧
    (staging.resumed = true →
      Adopted request (shared.readings actor) inode staging.resolvedCommit)

/-- What looking for something to resume has found. -/
def Found (actor : ι) (request : StagingRequest)
    (staging : Option FetchStaging) (shared : Shared ι) : Prop :=
  ∀ found, staging = some found → Staged actor request found shared

omit [DecidableEq ι] in
theorem stable_staged (request : StagingRequest) (staging : FetchStaging) :
    Stable (Rely actor) (Staged actor request staging) := by
  rintro before after moved ⟨inode, owns, adopted⟩
  refine ⟨inode, moved.owned _ inode owns, ?_⟩
  rw [moved.readings]
  exact adopted

omit [DecidableEq ι] in
theorem stable_found
    (request : StagingRequest)
    (staging : Option FetchStaging) :
    Stable (Rely actor) (Found actor request staging) :=
  fun before after moved found staging same =>
    stable_staged request staging before after moved (found staging same)

theorem performs_nothing
    {pre : Shared ι → Prop}
    {request : StagingRequest}
    (stable : Stable (Rely actor) pre) :
    Performs calls actor pre
      (check (.ok none) : Action ε (Option FetchStaging))
      (Found actor request) := by
  refine performs_check stable ?_
  intro staging shared same _ found isFound
  cases same
  cases isFound

/-- A refusal promises nothing. -/
theorem performs_refusal
    {pre : Shared ι → Prop}
    {error : ε}
    {post : α → Shared ι → Prop}
    (stable : Stable (Rely actor) pre) :
    Performs calls actor pre (check (.error error) : Action ε α) post := by
  refine performs_check stable ?_
  intro _ _ failed
  cases failed

/-- The claim of a candidate whose identity fits the request. -/
theorem performs_claimCandidate
    {request : StagingRequest}
    {name : EntryName}
    {metadata : FetchStagingMetadata}
    (names : namesSameRevision metadata request = true)
    (adoptable :
      stagingSelectionIsAdoptable metadata.files request.files = true)
    (recorded : metadata.resolvedCommit.isSome = true) :
    Performs calls actor
      (fun shared => ∃ inode, Candidate actor name metadata inode shared)
      (archived (claimFetchStaging name metadata request.files))
      (Found actor request) := by
  refine performs_exists fun inode => ?_
  refine performs_mapError _ (stable_found request) ?_
  refine performs_mono (performs_frame ?_
    (performs_claimFetchStaging name inode metadata request.files))
    (fun _ candidate => candidate) ?_
  · rintro before after onward ⟨read, expiresAt, clock, lease, expired⟩
    exact ⟨onward.readings read, expiresAt, clock, onward.readings lease,
      expired⟩
  rintro staging shared ⟨claimed, read, expiresAt, clock, lease, expired⟩
    found same
  obtain ⟨owns, resolved⟩ := claimed found same
  obtain ⟨commit, isCommit⟩ := Option.isSome_iff_exists.mp recorded
  refine ⟨inode, owns, fun _ => ?_⟩
  exact ⟨metadata, commit, resolved.trans isCommit, read, names, adoptable,
    isCommit, expiresAt, clock, lease, expired⟩

/-- Weighing the lease of a directory whose identity was read. -/
theorem performs_weighLease
    {request : StagingRequest}
    {name : EntryName}
    {metadata : FetchStagingMetadata}
    {now : Nat}
    {alive expired : Action FetchStagingError (Option FetchStaging)}
    (whenAlive : Performs calls actor (fun _ => True) alive
      (Found actor request))
    (whenExpired : Performs calls actor
      (fun shared => ∃ inode, Candidate actor name metadata inode shared)
      expired (Found actor request)) :
    Performs calls actor
      (fun shared => Identified actor name metadata shared ∧
        Since now shared)
      (weighLease name now alive expired) (Found actor request) := by
  unfold weighLease
  refine performs_bind
    (Outcome (fun _ => True) fun expiresAt shared =>
      expiresAt ≤ now → ∃ inode,
        Candidate actor name metadata inode shared)
    (performs_always (stable_outcome ?_)
      (triple_readLease name metadata now)) ?_
  · intro expiresAt before after moved found past
    obtain ⟨inode, candidate⟩ := found past
    exact ⟨inode, candidate.onward moved.onward⟩
  intro reply
  cases reply with
  | error error =>
      dsimp only
      split
      · exact performs_nothing stable_true
      · exact performs_refusal stable_true
  | ok expiresAt =>
      dsimp only
      split
      · exact performs_mono whenAlive (fun _ _ => trivial)
          fun _ _ found => found
      · next past =>
          refine performs_mono whenExpired ?_ fun _ _ found => found
          intro shared found
          exact found (by omega)

omit [DecidableEq ι] in
theorem stable_since (now : Nat) : Stable (Rely actor) (Since now) :=
  fun _ _ moved since => since.onward moved.onward

/-- Reading the identity of an entry, and what is done with it. -/
theorem performs_identify
    {request : StagingRequest}
    {name : EntryName}
    {now : Nat}
    {rest : Except ArchiveError FetchStagingMetadata →
      Action FetchStagingError (Option FetchStaging)}
    (unread : ∀ error, Performs calls actor (fun _ => True)
      (rest (.error error)) (Found actor request))
    (read : ∀ metadata, Performs calls actor
      (fun shared => Identified actor name metadata shared ∧
        Since now shared)
      (rest (.ok metadata)) (Found actor request)) :
    Performs calls actor (Since now)
      (always (readFetchStagingMetadata name).run >>= rest)
      (Found actor request) := by
  have stable : ∀ metadata, Stable (Rely actor) fun shared : Shared ι =>
      Identified actor name metadata shared ∧ Since now shared := by
    rintro metadata before after moved ⟨identified, since⟩
    exact ⟨identified.onward moved.onward, since.onward moved.onward⟩
  refine performs_bind (Outcome (fun _ => True) fun metadata shared =>
    Identified actor name metadata shared ∧ Since now shared)
    (performs_always (stable_outcome stable) ?_) ?_
  · have framed : Performs calls actor (fun shared => True ∧ Since now shared)
        (readFetchStagingMetadata name) fun metadata shared =>
          Identified actor name metadata shared ∧ Since now shared :=
      performs_frame (fun _ _ onward since => since.onward onward)
        (performs_readMetadata name)
    exact performs_mono framed (fun _ since => ⟨trivial, since⟩)
      fun _ _ reached => reached
  · intro reply
    cases reply with
    | error error => exact unread error
    | ok metadata => exact read metadata

theorem performs_visitAbandoned
    (request : StagingRequest)
    (now : Nat)
    (entry : DirEntry) :
    Performs calls actor (Since now) (visitAbandoned request now entry)
      (Found actor request) := by
  unfold visitAbandoned
  refine performs_bind (fun _ => Since now)
    (performs_check (stable_since now) fun _ _ _ since => since) ?_
  rintro ⟨name, isDirectory⟩
  cases name with
  | abandoned id =>
      cases isDirectory with
      | true =>
          refine performs_identify
            (fun _ => performs_nothing stable_true) ?_
          intro metadata
          dsimp only
          split
          · next fits =>
              simp only [Bool.and_eq_true] at fits
              exact performs_weighLease (performs_refusal stable_true)
                (performs_claimCandidate fits.1.1 fits.1.2 fits.2)
          · refine performs_mono (performs_nothing stable_true)
              (fun _ _ => trivial) fun _ _ found => found
      | false => exact performs_nothing (stable_since now)
  | active id => exact performs_nothing (stable_since now)
  | other name => exact performs_nothing (stable_since now)

theorem performs_visitActive
    (request : StagingRequest)
    (now : Nat)
    (entry : DirEntry) :
    Performs calls actor (Since now) (visitActive request now entry)
      (Found actor request) := by
  unfold visitActive
  refine performs_bind (fun _ => Since now)
    (performs_check (stable_since now) fun _ _ _ since => since) ?_
  rintro ⟨name, isDirectory⟩
  cases name with
  | active id =>
      cases isDirectory with
      | true =>
          refine performs_identify
            (fun _ => performs_nothing stable_true) ?_
          intro metadata
          dsimp only
          split
          · next names =>
              refine performs_weighLease ?_ ?_
              · split
                · exact performs_refusal stable_true
                · exact performs_nothing stable_true
              · split
                · next fits =>
                    rw [Bool.and_eq_true] at fits
                    exact performs_claimCandidate names fits.1 fits.2
                · refine performs_mono (performs_nothing stable_true)
                    (fun _ _ => trivial) fun _ _ found => found
          · refine performs_mono (performs_nothing stable_true)
              (fun _ _ => trivial) fun _ _ found => found
      | false => exact performs_nothing (stable_since now)
  | abandoned id => exact performs_nothing (stable_since now)
  | other name => exact performs_nothing (stable_since now)

/-- The loop over a listing. -/
theorem performs_firstOf
    {request : StagingRequest}
    {now : Nat}
    {visit : DirEntry → Action FetchStagingError (Option FetchStaging)}
    (visits : ∀ entry, Performs calls actor (Since now) (visit entry)
      (Found actor request))
    (entries : List DirEntry) :
    Performs calls actor (Since now) (firstOf visit entries)
      fun staging shared =>
        Found actor request staging shared ∧ Since now shared := by
  induction entries with
  | nil =>
      refine performs_check (stable_since now) ?_
      intro staging shared same since
      cases same
      refine ⟨?_, since⟩
      intro found isFound
      cases isFound
  | cons entry rest inductionHypothesis =>
      have framed : Performs calls actor
          (fun shared => Since now shared ∧ Since now shared) (visit entry)
          fun staging shared =>
            Found actor request staging shared ∧ Since now shared :=
        performs_frame (fun _ _ onward since => since.onward onward)
          (visits entry)
      refine performs_bind _ (performs_mono framed
        (fun _ since => ⟨since, since⟩) fun _ _ reached => reached) ?_
      intro staging
      cases staging with
      | none =>
          exact performs_mono inductionHypothesis
            (fun _ reached => reached.2) fun _ _ reached => reached
      | some found =>
          refine performs_check ?_ ?_
          · rintro before after moved ⟨isFound, since⟩
            exact ⟨stable_found request _ before after moved isFound,
              since.onward moved.onward⟩
          · intro staging shared same reached
            cases same
            exact reached

theorem performs_createStaging (attempts : Nat) :
    Performs calls actor (fun _ => True) (createStaging .active attempts)
      fun path shared => ∃ inode, Owns actor path inode shared := by
  have stableOwned : ∀ path : EntryName,
      Stable (Rely actor) fun shared => ∃ inode, Owns actor path inode shared := by
    rintro path before after moved ⟨inode, owns⟩
    exact ⟨inode, moved.owned path inode owns⟩
  induction attempts with
  | zero => exact performs_refusal stable_true
  | succ attempts inductionHypothesis =>
      unfold createStaging
      refine performs_bind (fun id => Mine actor (.active id)) ?_ ?_
      · refine performs_always (fun id => (local_mine _).stable) ?_
        refine (triple_operationId local_true).mono
          (fun _ _ holds => holds) ?_
        rintro id shared _ ⟨_, mine⟩
        exact mine (.active id) rfl
      intro id
      refine performs_bind
        (Outcome (fun _ => True) fun _ shared =>
          ∃ inode, Owns actor (.active id) inode shared)
        (performs_always (stable_outcome fun _ => stableOwned _)
          (triple_createDir (.active id))) ?_
      intro created
      cases created with
      | error error =>
          dsimp only
          split
          · exact performs_mono inductionHypothesis (fun _ _ => trivial)
              fun _ _ reached => reached
          · exact performs_refusal stable_true
      | ok =>
          refine performs_exists fun inode => ?_
          refine performs_bind (fun _ => Owns actor (.active id) inode)
            (performs_renewLease (.active id) inode) ?_
          intro _
          refine performs_bind (fun _ => Owns actor (.active id) inode)
            (performs_sync (local_owns _ inode)) ?_
          intro _
          refine performs_check (local_owns _ inode).stable ?_
          intro path shared same owns
          cases same
          exact ⟨inode, owns⟩

theorem performs_createFetchStaging (request : StagingRequest) :
    Performs calls actor (fun _ => True) (createFetchStaging request)
      (Staged actor request) := by
  unfold createFetchStaging
  refine performs_bind _ (performs_createStaging 16) ?_
  intro path
  refine performs_exists fun inode => ?_
  refine performs_bind (fun _ => Owns actor path inode)
    (performs_writeMetadata (local_owns path inode) path _) ?_
  intro _
  refine performs_check (local_owns path inode).stable ?_
  intro staging shared same owns
  cases same
  refine ⟨inode, owns, ?_⟩
  intro resumed
  cases resumed

/-- An acquisition is returned staging that it owns, and that it has adopted
as its request demands if it resumes it. -/
theorem performs_acquireFetchStaging (request : StagingRequest) :
    Performs calls actor (fun _ => True) (acquireFetchStaging request)
      (Staged actor request) := by
  unfold acquireFetchStaging
  refine performs_bind (fun _ _ => True)
    (performs_mapError _ (fun _ => stable_true)
      (performs_check stable_true fun _ _ _ _ => trivial)) ?_
  intro _
  refine performs_bind Since ?_ ?_
  · refine performs_always stable_since ?_
    refine triple_silent trivial stable_true stable_since ?_
    rintro before now after _ _ ⟨world, answered, rfl⟩
    rcases answered with settled | ⟨impossible, _⟩
    · cases settled
      exact Nat.le_refl _
    · cases impossible
  intro now
  have listing : Performs calls actor (Since now)
      (archived (attempt (perform .readDir))) fun _ => Since now := by
    refine performs_mapError _ (fun _ => stable_since now)
      (performs_local ?_)
    refine triple_silent trivial (stable_since now)
      (fun _ => stable_since now) ?_
    rintro before _ after sound since issued
    have permitted : Permitted calls actor .readDir before := trivial
    exact since.onward (exec_keeps sound permitted issued).2.onward
  refine performs_bind (fun _ => Since now) listing ?_
  intro listed
  refine performs_bind _
    (performs_firstOf (performs_visitAbandoned request now) listed) ?_
  have taken : ∀ found, Performs calls actor
      (fun shared => Found actor request (some found) shared ∧
        Since now shared)
      (check (.ok found) : Action FetchStagingError FetchStaging)
      (Staged actor request) := by
    intro found
    refine performs_check ?_ ?_
    · rintro before after moved ⟨isFound, since⟩
      exact ⟨stable_found request _ before after moved isFound,
        since.onward moved.onward⟩
    · rintro staging shared same ⟨isFound, _⟩
      cases same
      exact isFound found rfl
  intro staging
  cases staging with
  | some found => exact taken found
  | none =>
      refine performs_bind (fun _ => Since now)
        (performs_mono listing (fun _ reached => reached.2)
          fun _ _ since => since) ?_
      intro listed
      refine performs_bind _
        (performs_firstOf (performs_visitActive request now) listed) ?_
      intro staging
      cases staging with
      | some found => exact taken found
      | none =>
          exact performs_mono (performs_mapError _ (stable_staged request)
            (performs_createFetchStaging request)) (fun _ _ => trivial)
            fun _ _ staged => staged

/-! ## Removing, preserving and recovering -/

theorem performs_removeDirAll
    {pre : Shared ι → Prop}
    {name : EntryName}
    (isLocal : Local actor pre)
    (permitted : ∀ shared, pre shared →
      Permitted calls actor (.rmdir name) shared) :
    Performs calls actor pre (removeDirAll name) fun _ _ => True := by
  have unlinking : ∀ (inode : Nat) (parts : List StagingDir.Part),
      Performs calls actor pre (unlinkParts inode parts) fun _ => pre := by
    intro inode parts
    induction parts with
    | nil => exact performs_check isLocal.stable fun _ _ _ holds => holds
    | cons part rest inductionHypothesis =>
        exact performs_bind (fun _ => pre)
          (performs_local (triple_local (.unlink inode part) trivial isLocal))
          fun _ => inductionHypothesis
  unfold removeDirAll
  refine performs_bind (fun _ => pre)
    (performs_local (triple_local (.openDir name) trivial isLocal)) ?_
  intro inode
  refine performs_bind (fun _ => pre)
    (performs_local (triple_local (.listParts inode) trivial isLocal)) ?_
  intro parts
  refine performs_bind (fun _ => pre) (unlinking inode parts) ?_
  intro _
  exact performs_rmdir isLocal.stable permitted

/-- Reading the identity of the call's own staging. -/
theorem performs_readOwn
    {pre : Shared ι → Prop}
    (isLocal : Local actor pre)
    (name : EntryName) :
    Performs calls actor pre (readFetchStagingMetadata name)
      fun _ => pre := by
  unfold readFetchStagingMetadata
  refine performs_bind (fun _ => pre)
    (performs_local (triple_local (.readIdentity name) trivial isLocal)) ?_
  intro metadata
  exact performs_check isLocal.stable fun _ _ _ holds => holds

theorem performs_preserveFetchStaging (name : EntryName) (inode : Nat) :
    Performs calls actor
      (fun shared => Owns actor name inode shared ∧ Idle actor shared)
      (preserveFetchStaging name) fun _ _ => True := by
  have isLocal : Local actor fun shared =>
      Owns actor name inode shared ∧ Idle actor shared :=
    (local_owns name inode).and local_idle
  unfold preserveFetchStaging
  refine performs_bind (fun _ shared =>
    Owns actor name inode shared ∧ Idle actor shared)
    (performs_readOwn isLocal name) ?_
  intro metadata
  split
  · refine performs_bind (fun _ _ => True)
      (performs_removeDirAll isLocal fun _ holds =>
        Or.inl ⟨holds.1.1, holds.2⟩) ?_
    intro _
    exact performs_check stable_true fun _ _ _ _ => trivial
  · refine performs_bind
      (fun id shared => (Owns actor name inode shared ∧ Idle actor shared) ∧
        Mine actor (.abandoned id) shared) ?_ ?_
    · refine performs_always
        (fun id => (isLocal.and (local_mine _)).stable) ?_
      refine (triple_operationId isLocal).mono (fun _ _ holds => holds) ?_
      rintro id shared _ ⟨holds, mine⟩
      exact ⟨holds, mine (.abandoned id) rfl⟩
    intro id
    refine performs_bind
      (fun _ shared => Owns actor (.abandoned id) inode shared ∧
        Idle actor shared)
      (triple_renameOwn name (.abandoned id) inode) ?_
    intro _
    refine performs_bind (fun _ _ => True)
      (performs_writeLease ((local_owns _ inode).and local_idle)
        (performs_giveUp (.abandoned id) inode 0)) ?_
    intro _
    refine performs_bind (fun _ _ => True) (performs_sync local_true) ?_
    intro _
    exact performs_check stable_true fun _ _ _ _ => trivial

theorem performs_during
    {pre : Shared ι → Prop}
    {action : Action ArchiveError α}
    {post : α → Shared ι → Prop}
    (step : RecoveryAction)
    (stable : ∀ value, Stable (Rely actor) (post value))
    (performs : Performs calls actor pre action post) :
    Performs calls actor pre (during step action) post :=
  performs_mapError _ stable performs

/-- What recovery does to a directory that nobody owns. -/
theorem performs_reclaimEntry
    (name : EntryName)
    (inode : Nat)
    (identity : Option FetchStagingMetadata) :
    Performs calls actor (Open name inode) (reclaimEntry name identity)
      fun _ _ => True := by
  have isOpen : ∀ other, Local actor (Open other inode) :=
    fun other => local_open other inode
  have discards : ∀ other, Performs calls actor (Open other inode)
      (do
        during .discard (removeDirAll other)
        check (.ok true) : Action SkippedStagingEntry Bool)
      fun _ _ => True := by
    intro other
    refine performs_bind (fun _ _ => True)
      (performs_during _ (fun _ => stable_true)
        (performs_removeDirAll (isOpen other) fun _ opened =>
          Or.inr ⟨inode, opened⟩)) ?_
    intro _
    exact performs_check stable_true fun _ _ _ _ => trivial
  unfold reclaimEntry
  dsimp only
  split
  · exact performs_check (isOpen _).stable fun _ _ _ _ => trivial
  · next id _ =>
      refine performs_bind
        (fun drawn shared => Open (.active id) inode shared ∧
          Mine actor (.abandoned drawn) shared) ?_ ?_
      · refine performs_always
          (fun drawn => ((isOpen _).and (local_mine _)).stable) ?_
        refine (triple_operationId (isOpen _)).mono
          (fun _ _ holds => holds) ?_
        rintro drawn shared _ ⟨opened, mine⟩
        exact ⟨opened, mine (.abandoned drawn) rfl⟩
      intro drawn
      refine performs_bind (fun _ _ => True)
        (performs_during _ (fun _ => stable_true)
          (triple_renameOpen (.active id) (.abandoned drawn) inode)) ?_
      intro _
      refine performs_bind (fun _ _ => True)
        (performs_during _ (fun _ => stable_true)
          (performs_sync local_true)) ?_
      intro _
      exact performs_check stable_true fun _ _ _ _ => trivial
  · exact discards _

/-- A lease that is over when it is read belongs to nobody who runs. -/
theorem triple_readLeaseAndTime (name : EntryName) :
    Triples calls actor (fun _ => True) (perform (.readLeaseAndTime name))
      (Outcome (fun _ => True) fun read shared =>
        read.1 ≤ read.2 → ∃ inode, Open name inode shared) := by
  refine triple_silent trivial stable_true (stable_outcome ?_) ?_
  · intro read before after moved found past
    obtain ⟨inode, opened⟩ := found past
    exact ⟨inode, moved.onward.opened name inode opened⟩
  intro before reply after sound _ issued
  cases reply with
  | error error => trivial
  | ok read =>
      intro past
      obtain ⟨world, answered, rfl⟩ := issued
      rcases answered with settled | ⟨⟨_, impossible⟩, _⟩
      · rcases within_cases settled with
          ⟨_, impossible, _⟩ | ⟨found, stands, expiry, rfl⟩
        · cases impossible
        · refine ⟨found.inode, sound.located name found stands, ?_⟩
          have expires : found.dir.lease = .expires read.1 ∧
              read.2 = before.world.clock := by
            cases lease : found.dir.lease <;> rw [lease] at expiry <;>
              cases expiry
            exact ⟨rfl, rfl⟩
          change before.owner name = none
          by_contra owned
          have alive := sound.last.owned name found read.1 owned stands
            expires.1
          omega
      · cases impossible

theorem performs_recoverStagingEntry (name : EntryName) (isDirectory : Bool) :
    Performs calls actor (fun _ => True)
      (recoverStagingEntry name isDirectory) fun _ _ => True := by
  unfold recoverStagingEntry
  split
  · exact performs_check stable_true fun _ _ _ _ => trivial
  refine performs_bind
    (Outcome (fun _ => True) fun read shared =>
      read.1 ≤ read.2 → ∃ inode, Open name inode shared)
    (performs_always (stable_outcome ?_) (triple_readLeaseAndTime name)) ?_
  · intro read before after moved found past
    obtain ⟨inode, opened⟩ := found past
    exact ⟨inode, moved.onward.opened name inode opened⟩
  intro reply
  rcases reply with error | ⟨expiresAt, now⟩
  · exact performs_check stable_true fun _ _ _ _ => trivial
  dsimp only
  have kept : Performs calls actor (fun _ => True)
      (check (.ok false) : Action SkippedStagingEntry Bool)
      fun _ _ => True :=
    performs_check stable_true fun _ _ _ _ => trivial
  have reclaimed : ∀ inode, Performs calls actor (Open name inode)
      (if isFetchName name then do
          let identity ← always (readFetchStagingMetadata name).run
          reclaimEntry name identity.toOption
        else
          reclaimEntry name none) fun _ _ => True := by
    intro inode
    have isOpen : Local actor (Open name inode) := local_open name inode
    split
    · refine performs_bind (fun _ => Open name inode)
        (performs_always (fun _ => isOpen.stable) ?_) fun identity =>
          performs_reclaimEntry name inode identity.toOption
      refine (triples_frame
        (fun _ _ onward opened => onward.opened name inode opened)
        (performs_readOwn local_true name)).mono
        (fun _ _ opened => ⟨trivial, opened⟩) ?_
      exact fun _ _ _ reached => reached.2
    · exact performs_reclaimEntry name inode none
  split
  · exact performs_mono kept (fun _ _ => trivial) fun _ _ holds => holds
  · next past =>
      exact performs_mono (performs_exists reclaimed)
        (fun _ found => found (by omega)) fun _ _ holds => holds

/-! ## Whole calls -/

/-- Sequential composition of parts that know nothing of each other. -/
theorem triples_bind
    {pre : Shared ι → Prop}
    {program : Program interface α}
    (middle : α → Shared ι → Prop)
    {rest : α → Program interface β}
    {post : β → Shared ι → Prop}
    (first : Triples calls actor pre program middle)
    (second : ∀ value,
      Triples calls actor (middle value) (rest value) post) :
    Triples calls actor pre (program >>= rest) post :=
  Triple.bind (Rely.refl actor) first second

theorem triple_leave :
    Triples calls actor (fun _ => True) (perform .leave) fun _ _ => True :=
  triple_step stable_true (fun _ => stable_true) (fun _ _ => trivial)
    fun _ _ _ _ _ _ => trivial

theorem triples_recoverEntries
    (entries : List DirEntry)
    (recovery : Recovery) :
    Triples calls actor (fun _ => True) (recoverEntries entries recovery)
      fun _ _ => True := by
  induction entries generalizing recovery with
  | nil => exact triple_done stable_true fun _ _ _ => trivial
  | cons entry rest inductionHypothesis =>
      rcases entry with error | ⟨name, isDirectory⟩
      · exact inductionHypothesis recovery
      · unfold recoverEntries
        refine triples_bind (fun _ _ => True)
          ((performs_recoverStagingEntry name isDirectory).mono
            (fun _ _ holds => holds) fun _ _ _ _ => trivial) ?_
        intro outcome
        rcases outcome with skipped | discarded
        · exact inductionHypothesis _
        · cases discarded with
          | true => exact inductionHypothesis _
          | false => exact inductionHypothesis _

theorem triples_recover :
    Triples calls actor (fun _ => True) Call.recover.program
      fun _ _ => True := by
  have performs : Performs calls actor (fun _ => True) recoverIncomplete
      fun _ _ => True := by
    unfold recoverIncomplete
    refine performs_bind (fun _ _ => True)
      (performs_local (triple_local .readDir trivial local_true)) ?_
    intro listed
    exact performs_always (fun _ => stable_true)
      (triples_recoverEntries listed ⟨0, []⟩)
  refine triples_bind (fun _ _ => True) ?_ fun _ => triple_leave
  exact performs.mono (fun _ _ holds => holds) fun _ _ _ _ => trivial

/-- A part of a call that keeps its own, even when it fails. -/
abbrev Retains (calls : ι → Call) (actor : ι) (pre : Shared ι → Prop)
    (action : Action ε α) : Prop :=
  Triples calls actor pre action.run fun _ => pre

theorem retains_check
    {pre : Shared ι → Prop}
    {outcome : Except ε α}
    (isLocal : Local actor pre) :
    Retains calls actor pre (check outcome) :=
  triple_done isLocal.stable fun _ _ holds => holds

theorem retains_bind
    {pre : Shared ι → Prop}
    {action : Action ε α}
    {rest : α → Action ε β}
    (isLocal : Local actor pre)
    (first : Retains calls actor pre action)
    (second : ∀ value, Retains calls actor pre (rest value)) :
    Retains calls actor pre (action >>= rest) := by
  refine Triple.bind (Rely.refl actor) first ?_
  intro outcome
  cases outcome with
  | error error => exact triple_done isLocal.stable fun _ _ holds => holds
  | ok value => exact second value

theorem retains_createPart (path name : EntryName) (inode : Nat) :
    Retains calls actor (Owns actor path inode)
      (attempt (perform (.createPart name))) := by
  have isLocal : Local actor (Owns actor path inode) := local_owns path inode
  refine triple_step isLocal.stable (fun _ => isLocal.stable)
    (fun _ _ => trivial) ?_
  rintro before reply after sound ⟨owned, stands⟩ ⟨world, answered, rfl⟩
  have calm : Calm before.world world := by
    rcases answered with effect | ⟨_, rfl⟩
    · exact calm_within effect fun _ => .refl before.world
    · exact .refl before.world
  cases reply with
  | error error => exact ⟨owned, (calm.inode path).trans stands⟩
  | ok => exact ⟨owned, (calm.inode path).trans stands⟩

theorem retains_flush (path : EntryName) (inode : Nat) :
    Retains calls actor (Owns actor path inode)
      (attempt (perform .flush)) := by
  have isLocal : Local actor (Owns actor path inode) := local_owns path inode
  refine triple_step isLocal.stable (fun _ => isLocal.stable)
    (fun _ _ => trivial) ?_
  rintro before reply after sound owns ⟨world, answered, rfl⟩
  have unmoved : world = before.world := by
    rcases answered with effect | ⟨_, rfl⟩
    · cases effect
      rfl
    · rfl
  subst unmoved
  cases reply with
  | error error => exact owns
  | ok => exact owns

theorem retains_record
    (path : EntryName)
    (inode : Nat)
    (request : StagingRequest)
    (commit : String) :
    Retains calls actor (Owns actor path inode)
      (recordFetchResolvedCommit path request commit) := by
  have isLocal : Local actor (Owns actor path inode) := local_owns path inode
  unfold recordFetchResolvedCommit readFetchStagingMetadata
  refine retains_bind isLocal (retains_check isLocal) fun _ => ?_
  refine retains_bind isLocal ?_ fun metadata => ?_
  · exact retains_bind isLocal
      (triple_local (.readIdentity path) trivial isLocal)
      fun _ => retains_check isLocal
  split
  · exact retains_check isLocal
  split
  · exact retains_check isLocal
  · unfold writeFetchStagingMetadata
    refine retains_bind isLocal (retains_createPart path path inode)
      fun _ => ?_
    refine retains_bind isLocal (retains_flush path inode) fun _ => ?_
    exact retains_bind isLocal
      (triple_local (.renameIdentity path _) trivial isLocal) fun _ =>
        triple_local .syncDirectory trivial isLocal

/-- Nothing an acquisition does in its staging takes it away. -/
theorem triples_performWork
    (path : EntryName)
    (inode : Nat)
    (request : StagingRequest)
    (work : List Work) :
    Triples calls actor (Owns actor path inode)
      (performWork path request work) fun _ => Owns actor path inode := by
  induction work with
  | nil =>
      exact triple_done (local_owns path inode).stable fun _ _ owns => owns
  | cons step rest inductionHypothesis =>
      cases step with
      | transfer payload =>
          exact triples_bind (fun _ => Owns actor path inode)
            (triple_local (.transfer path payload) trivial
              (local_owns path inode)) fun _ => inductionHypothesis
      | resolved commit =>
          exact triples_bind (fun _ => Owns actor path inode)
            (retains_record path inode request commit)
            fun _ => inductionHypothesis

theorem triples_performEnding
    (path : EntryName)
    (inode : Nat)
    (ending : Ending) :
    Triples calls actor
      (fun shared => Owns actor path inode shared ∧ Idle actor shared)
      (performEnding path ending) fun _ _ => True := by
  have isLocal : Local actor fun shared =>
      Owns actor path inode shared ∧ Idle actor shared :=
    (local_owns path inode).and local_idle
  cases ending with
  | preserve =>
      refine triples_bind (fun _ _ => True)
        ((performs_preserveFetchStaging path inode).mono
          (fun _ _ holds => holds) fun _ _ _ _ => trivial) ?_
      exact fun _ => triple_done stable_true fun _ _ _ => trivial
  | discard =>
      refine triples_bind (fun _ _ => True)
        ((performs_removeDirAll isLocal fun _ holds =>
          Or.inl ⟨holds.1.1, holds.2⟩).mono
          (fun _ _ holds => holds) fun _ _ _ _ => trivial) ?_
      exact fun _ => triple_done stable_true fun _ _ _ => trivial
  | leave => exact triple_done isLocal.stable fun _ _ _ => trivial

/-- From here on the acquisition runs with the staging it was returned. -/
theorem triple_hold
    {acquisition : Acquisition}
    (call : calls actor = .acquire acquisition)
    (staging : FetchStaging) :
    Triples calls actor (Staged actor acquisition.request staging)
      (perform (.hold staging)) fun _ shared =>
        ∃ inode, Owns actor staging.path inode shared := by
  refine triple_step (stable_staged _ staging) ?_ ?_ ?_
  · rintro _ before after moved ⟨inode, owns⟩
    exact ⟨inode, moved.owned _ inode owns⟩
  · rintro shared ⟨inode, owns, adopted⟩
    exact ⟨inode, owns, acquisition, call, adopted⟩
  · rintro before _ after _ ⟨inode, owns, _⟩ ⟨world, answered, rfl⟩
    rcases answered with effect | ⟨impossible, _⟩
    · cases effect
      exact ⟨inode, owns⟩
    · cases impossible

theorem triple_handBack (path : EntryName) (inode : Nat) :
    Triples calls actor (Owns actor path inode) (perform .handBack)
      fun _ shared => Owns actor path inode shared ∧ Idle actor shared := by
  refine triple_step (local_owns path inode).stable
    (fun _ => ((local_owns path inode).and local_idle).stable)
    (fun _ _ => trivial) ?_
  rintro before _ after _ owns ⟨world, answered, rfl⟩
  rcases answered with effect | ⟨impossible, _⟩
  · cases effect
    exact ⟨owns, Function.update_self ..⟩
  · cases impossible

theorem triples_acquisition
    {acquisition : Acquisition}
    (call : calls actor = .acquire acquisition) :
    Triples calls actor (fun _ => True) acquisition.program
      fun _ _ => True := by
  unfold Acquisition.program
  refine triples_bind _
    (performs_acquireFetchStaging acquisition.request) ?_
  intro outcome
  unfold Acquisition.proceed
  cases outcome with
  | error error => exact triple_leave
  | ok staging =>
      refine triples_bind _ (triple_hold call staging) fun _ => ?_
      rintro start kept ⟨inode, owns⟩
      have rest : Triples calls actor (Owns actor staging.path inode)
          (do
            performWork staging.path acquisition.request acquisition.work
            perform .handBack
            performEnding staging.path acquisition.ending
            perform .leave) fun _ _ => True := by
        refine triples_bind _ (triples_performWork staging.path inode
          acquisition.request acquisition.work) fun _ => ?_
        refine triples_bind _ (triple_handBack staging.path inode)
          fun _ => ?_
        exact triples_bind _ (triples_performEnding staging.path inode
          acquisition.ending) fun _ => triple_leave
      exact rest start kept owns

theorem triples_call (actor : ι) :
    Triples calls actor (fun _ => True) (calls actor).program
      fun _ _ => True := by
  cases call : calls actor with
  | acquire acquisition => exact triples_acquisition call
  | recover => exact triples_recover

/-! ## All calls together -/

/-- Being cut off is quiet. -/
theorem keeps_release
    {before after : Shared ι}
    (sound : Sound calls before)
    (released : (machine (ι := ι)).release actor before after) :
    Keeps calls actor before after := by
  cases released
  exact (quiet_forget sound).keeps sound

omit [DecidableEq ι] in
/-- A heartbeat moves nothing, and the lease it writes is live. -/
theorem heartbeat_entry
    {area : TemporaryArea}
    {id : String}
    {expiresAt : Nat}
    {name : EntryName}
    {foundNow : AreaEntry}
    (stands : (area.update (.active id) fun dir =>
        if dir.lease = .absent then dir
        else { dir with lease := .expires expiresAt }).entry name =
      some foundNow) :
    ∃ found, area.entry name = some found ∧
      found.inode = foundNow.inode ∧
      (foundNow.dir.lease = found.dir.lease ∨
        foundNow.dir.lease = .expires expiresAt) := by
  rw [TemporaryArea.entry_update] at stands
  obtain ⟨found, stood, rfl⟩ := Option.map_eq_some_iff.mp stands
  refine ⟨found, stood, ?_, ?_⟩
  · split <;> rfl
  · split
    · dsimp only
      split
      · exact Or.inl rfl
      · exact Or.inr rfl
    · exact Or.inl rfl

omit [DecidableEq ι] in
theorem inodeAt_update
    (shared : Shared ι)
    (name other : EntryName)
    (change : StagingDir → StagingDir) :
    Shared.inodeAt { shared with
      world := { shared.world with
        area := shared.world.area.update name change } } other =
      shared.inodeAt other := by
  unfold Shared.inodeAt
  exact TemporaryArea.inode_update _ name other change

omit [DecidableEq ι] in
/-- Time and heartbeats. -/
theorem ambient_sound
    {before after : Shared ι}
    (sound : Sound calls before)
    (moved : Ambient before after) :
    Sound calls after := by
  cases moved with
  | tick clock _ last => exact { sound with last := ⟨last.1, last.2, last.3⟩ }
  | heartbeat id expiresAt future =>
      constructor
      · intro name foundNow stands
        obtain ⟨found, stood, same, _⟩ := heartbeat_entry stands
        exact same ▸ sound.located name found stood
      · exact sound.named
      · exact sound.drawn
      · exact sound.owned
      · refine ⟨sound.last.pledged, ?_, ?_⟩
        · intro name foundNow later owned stands expires
          obtain ⟨found, stood, _, same | renewed⟩ := heartbeat_entry stands
          · exact sound.last.owned name found later owned stood
              (same ▸ expires)
          · rw [renewed] at expires
            cases expires
            exact future
        · intro actor name foundNow later claims stands expires
          obtain ⟨found, stood, _, same | renewed⟩ := heartbeat_entry stands
          · exact sound.last.claimed actor name found later claims stood
              (same ▸ expires)
          · rw [renewed] at expires
            cases expires
            exact future
      · exact sound.claims
      · intro actor staging returned
        obtain ⟨inode, ⟨owned, stands⟩, granted⟩ :=
          sound.granted actor staging returned
        refine ⟨inode, ⟨owned, ?_⟩, granted⟩
        exact (inodeAt_update before _ staging.path _).trans stands

omit [DecidableEq ι] in
theorem ambient_rely
    {before after : Shared ι}
    (moved : Ambient before after) :
    Rely actor before after := by
  cases moved with
  | tick clock later _ =>
      exact { Rely.refl actor before with
        clock := later, owned := fun _ _ owns => owns }
  | heartbeat id expiresAt future =>
      refine { Rely.refl actor before with owned := ?_ }
      rintro name inode ⟨owned, stands⟩
      exact ⟨owned, (inodeAt_update before _ name _).trans stands⟩

/-- What the calls promise to one another. -/
def contract (calls : ι → Call) :
    Contract (machine (ι := ι)) Unit where
  invariant := Sound calls
  rely := Rely
  guar := Guarantee
  post := fun _ _ _ => True
  rely_refl := Rely.refl
  rely_trans := fun _ _ _ _ => Rely.trans
  guar_rely := fun different _ _ guaranteed =>
    guaranteed.others _ different.symm
  release_invariant := fun sound released => (keeps_release sound released).1
  release_rely := fun different sound released =>
    (keeps_release sound released).2.others _ different.symm
  ambient_invariant := ambient_sound
  ambient_rely := fun _ moved => ambient_rely moved

omit [DecidableEq ι] in
theorem sound_still (area : TemporaryArea) (clock : Nat) :
    Sound calls (.still area clock) where
  located := by
    intro name found stands
    exact congrArg (Option.map AreaEntry.inode) stands
  named := by
    intro name inode bound id operation
    refine area.issued name id ?_ operation
    rw [← Option.isSome_map (f := AreaEntry.inode)]
    exact Option.isSome_iff_exists.mpr ⟨inode, bound⟩
  drawn := by
    intro _ _ drawn
    cases drawn
  owned := by
    intro _ _ owned
    cases owned
  last := by
    constructor
    · intro _ _ pledged
      cases pledged
    · intro _ _ _ owned
      exact absurd rfl owned
    · intro _ _ _ _ claims
      cases claims
  claims := by
    intro _ _ claims
    cases claims
  granted := by
    intro _ _ returned
    cases returned

/-- Every reachable state satisfies the invariant. -/
theorem reachable_sound
    {area : TemporaryArea}
    {clock : Nat}
    {config : Configuration interface ι (Shared ι) Unit}
    (reaches : machine.Reaches (start calls area clock) config) :
    Sound calls config.shared := by
  have kept : (contract calls).Kept (start calls area clock) := by
    refine ⟨sound_still area clock, ?_⟩
    intro actor program running
    cases running
    exact triples_call actor (.still area clock) (sound_still area clock)
      trivial
  exact (kept.reaches reaches).1

/-- The settled answers, with their record. -/
def soloStep (actor : ι) (op : Op) (shared : Shared ι) :
    op.Reply × Shared ι :=
  ((respond op shared.world).1,
    { shared.record actor op (respond op shared.world).1 with
      world := (respond op shared.world).2 })

theorem exec_soloStep (op : Op) (shared : Shared ι) :
    exec actor op shared (soloStep actor op shared).1
      (soloStep actor op shared).2 :=
  ⟨_, Or.inl (effect_respond op shared.world), rfl⟩

/-- A call may go on for a while with nobody in its way. -/
theorem reaches_solo
    {thread : ι → Option (Program interface Unit)}
    {shared : Shared ι}
    {program : Program interface β}
    {rest : β → Program interface Unit}
    (started : thread actor = some (program >>= rest)) :
    (machine (ι := ι)).Reaches ⟨shared, thread⟩
      ⟨(program.run (soloStep actor) shared).2,
        Function.update thread actor
          (some (rest (program.run (soloStep actor) shared).1))⟩ :=
  Machine.reaches_of_runs_bind started
    (Program.runs_run exec_soloStep program shared)

/-- A commit id. -/
def sampleCommit : String := "aaaaaaaaaaaaaaaaaaaaaaaaaaaaaaaaaaaaaaaa"

/-- One interrupted acquisition of a whole repository. -/
def sampleArea : TemporaryArea :=
  (((TemporaryArea.empty.draw "0").create (.abandoned "0")).getD
    .empty).update (.abandoned "0") fun dir =>
      { dir with
        lease := .expires 0
        identity := .decoded
          ⟨1, .model, "org/model", "main", [], some sampleCommit⟩ }

/-- An acquisition that wants to resume it, and that is interrupted again. -/
def sampleAcquisition : Acquisition :=
  ⟨⟨.model, "org/model", "main", []⟩, [], .preserve⟩

/-- Two of them. -/
def sampleCalls (_ : Bool) : Call := .acquire sampleAcquisition

/-- The staging the first of them is returned. -/
def sampleStaging : FetchStaging :=
  ⟨.active "ff", true, some sampleCommit⟩

/-- The first of them up to the answer. -/
def sampleAnswer : Except FetchStagingError FetchStaging × Shared Bool :=
  (acquireFetchStaging sampleAcquisition.request).run.run (soloStep false)
    (.still sampleArea 100)

/-- The area after the first of them, and after both. -/
def sampleOnce : Shared Bool :=
  (sampleAcquisition.program.run (soloStep false)
    (.still sampleArea 100)).2

def sampleTwice : Shared Bool :=
  (sampleAcquisition.program.run (soloStep true) sampleOnce).2

end Staging
end ModelKeep
