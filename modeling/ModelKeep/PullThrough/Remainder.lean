import ModelKeep.PullThrough.Again

/-!
# Only the remainder is transferred

An acquisition that had to wait for its slot finds an archive that may have
grown meanwhile.  One that a selection started looks again, and what it then
asks for was missing when its wait ended.
-/

namespace ModelKeep

open Concurrency Program

namespace PullThrough

variable
  {ι : Type}
  [DecidableEq ι]
  {upstream : Upstream}
  {sha256 : Bytes → String}
  {repository : Repository}
  {orders : ι → Order}
  {actor : ι}
  {α β : Type}

/-! ## Storing what was fetched -/

section storing

variable
  {found : Option Archive}
  {brought : List FetchedRevision}
  {fetched : FetchedRevision}
  {staging : EntryName}

/-- The fetched files are listed at their commit. -/
def Stored (repository : Repository) (fetched : FetchedRevision)
    (common : Common ι) : Prop :=
  common.archive.Complete repository fetched.commit ∧
    ∀ path ∈ fetched.files,
      common.archive.Listed repository fetched.commit path

omit [DecidableEq ι] in
theorem stable_stored :
    Stable (Rely repository actor)
      (fun common : Common ι => Stored repository fetched common) :=
  stable_and stable_complete stable_listed

theorem performs_extendPublished :
    Performs upstream sha256 repository orders actor (At actor found brought)
      (extendPublishedRevision repository fetched staging).run
      (Outcome (fun _ => True) fun _ common =>
        At actor found brought common ∧ Stored repository fetched common) := by
  unfold extendPublishedRevision
  refine performs_exceptBind (@performs_reporting _ _ _ _ _ _ _ _
    (At actor found brought) _ _ _ (fun _ => Stored repository fetched)
    stable_at (fun _ => stable_stored) (performs_write stable_at ?_ ?_)) ?_
  · intro reply before after moved told value same
    exact stable_stored before after moved (told value same)
  · rintro common reply after sound _ ⟨staged, archive, extended, rfl⟩
    refine ⟨archive, rfl, Archive.grows_extend extended,
      Archive.records_extend sound.records extended, ?_⟩
    rintro extension rfl
    exact Archive.listed_extend extended
  · intro extension
    exact performs_check (stable_and stable_at stable_stored)
      fun _ _ _ holds => holds

theorem performs_storeFetched
    {requested : String} :
    Performs upstream sha256 repository orders actor (At actor found brought)
      (storeFetched repository requested fetched staging).run
      (Outcome (fun _ => True) fun _ common =>
        At actor found brought common ∧ Stored repository fetched common) := by
  have looks : Only Op.Still (revisionIsPublished repository fetched.commit) :=
    only_revisionIsPublished.mono fun _ => Op.Looks.still
  unfold storeFetched
  refine performs_always (performs_still looks stable_at) ?_
  rintro (_ | _)
  swap
  · exact performs_extendPublished
  have published : Performs upstream sha256 repository orders actor
      (At actor found brought) (perform (.publish repository
        ⟨requested, fetched.commit, fetched.files⟩ staging))
      fun reply common => At actor found brought common ∧
        (reply = .ok () → Stored repository fetched common) := by
    refine performs_write stable_at ?_ ?_
    · intro reply before after moved told same
      exact stable_stored before after moved (told same)
    · rintro common reply after sound _ ⟨staged, archive, fate, published,
        rfl⟩
      refine ⟨archive, rfl, Archive.grows_publish published,
        Archive.records_publish sound.records published, ?_⟩
      rintro rfl
      exact Archive.listed_publish published
  have lasting : ∀ reply : Except ArchiveError Unit,
      Stable (Rely repository actor) fun common : Common ι =>
        At actor found brought common ∧
          (reply = .ok () → Stored repository fetched common) := by
    intro reply
    exact stable_and stable_at fun before after moved told same =>
      stable_stored before after moved (told same)
  refine performs_always published ?_
  rintro (error | _)
  · cases error with
    | alreadyPublished commit =>
        refine performs_always (performs_still looks (lasting _)) ?_
        rintro (_ | _)
        · exact performs_check (lasting _) nofun
        · exact performs_extendPublished.mono (fun _ _ holds => holds.1)
            fun _ _ _ holds => holds
    | _ => exact performs_check (lasting _) nofun
  · exact performs_check (lasting _) fun _ _ _ holds =>
      ⟨holds.1, holds.2 rfl⟩

/-- A ref is let name a complete revision. -/
theorem performs_updateRef
    {pre : Common ι → Prop}
    {reference commit : String}
    (stable : Stable (Rely repository actor) pre)
    (complete : ∀ common, pre common →
      common.archive.Complete repository commit) :
    Performs upstream sha256 repository orders actor pre
      (perform (.updateRef repository reference commit)) fun _ => pre := by
  refine (@performs_write _ _ upstream sha256 repository orders actor pre
    (.updateRef repository reference commit) (fun _ _ => True) stable
    (fun _ => stable_fact) ?_).mono (fun _ _ holds => holds)
      fun _ _ _ holds => holds.1
  rintro common reply after sound holds ⟨archive, updated, rfl⟩
  exact ⟨archive, rfl,
    Archive.grows_updateRef (complete common holds) updated,
    Archive.records_updateRef sound.records updated, trivial⟩

theorem performs_adoptRefs
    {pre : Common ι → Prop}
    {commit : String}
    {references : List String}
    (stable : Stable (Rely repository actor) pre)
    (complete : ∀ common, pre common →
      common.archive.Complete repository commit) :
    Performs upstream sha256 repository orders actor pre
      (adoptRefs repository commit references) fun _ => pre := by
  induction references with
  | nil => exact performs_done stable fun _ holds => holds
  | cons reference rest inductionHypothesis =>
      refine performs_bind (performs_still (only_perform trivial) stable) ?_
      rintro (error | target)
      · exact performs_bind (performs_updateRef stable complete)
          fun _ => inductionHypothesis
      · exact inductionHypothesis

theorem only_still_dropStaging :
    Only Op.Still (dropStaging staging) :=
  Only.bind (only_perform trivial) fun _ => trivial

theorem only_still_claim :
    Only Op.Still (claimPublication staging).run := by
  apply Only.exceptBind (only_always (only_perform trivial))
  rintro (_ | _)
  · exact Only.exceptBind (only_always (only_perform trivial))
      fun _ => trivial
  · trivial

theorem performs_recordUpstreamFiles
    {pre : Common ι → Prop}
    {commit : String}
    {recorded : List String}
    (stable : Stable (Rely repository actor) pre)
    (tells : ∀ path ∈ recorded, upstream.Lists commit path) :
    Performs upstream sha256 repository orders actor pre
      (recordUpstreamFiles repository commit recorded) fun _ => pre := by
  unfold recordUpstreamFiles
  split
  · exact performs_done stable fun _ holds => holds
  · have written := @performs_write _ _ upstream sha256 repository orders
      actor pre (.recordUpstreamFiles repository commit recorded)
      (fun _ _ => True) stable (fun _ => stable_fact)
      (by
        rintro common reply after sound _ ⟨archive, now, rfl⟩
        exact ⟨archive, rfl, Archive.grows_record now,
          Archive.records_record sound.records tells now, trivial⟩)
    exact performs_bind written fun _ =>
      performs_done (stable_and stable stable_fact) fun _ holds => holds.1

/-- The request names a revision, unless it is a commit. -/
def Named (repository : Repository) (requested : String)
    (common : Common ι) : Prop :=
  isHfCommit requested = false → common.archive.Names repository requested

omit [DecidableEq ι] in
theorem stable_named
    {requested : String} :
    Stable (Rely repository actor)
      (fun common : Common ι => Named repository requested common) :=
  fun _ _ moved named notCommit => moved.grows.named _ (named notCommit)

theorem performs_nameRequested
    {pre : Common ι → Prop}
    {requested commit : String}
    (stable : Stable (Rely repository actor) pre)
    (complete : ∀ common, pre common →
      common.archive.Complete repository commit) :
    Performs upstream sha256 repository orders actor pre
      (nameRequested repository requested commit).run
      (Outcome (fun _ => True) fun _ common =>
        pre common ∧ Named repository requested common) := by
  unfold nameRequested nameRef
  split
  · next isCommit =>
      refine performs_check stable fun _ _ _ holds => ⟨holds, ?_⟩
      intro notCommit
      rw [isCommit] at notCommit
      cases notCommit
  · refine performs_reporting stable (fun _ => stable_named)
      (performs_write stable ?_ ?_)
    · intro reply before after moved told value same
      exact stable_named before after moved (told value same)
    · rintro common reply after sound holds ⟨archive, updated, rfl⟩
      have grows := Archive.grows_updateRef (complete common holds) updated
      refine ⟨archive, rfl, grows,
        Archive.records_updateRef sound.records updated, ?_⟩
      rintro _ rfl _
      exact ⟨commit, Archive.resolveRef_updateRef updated,
        grows.complete commit (complete common holds)⟩

theorem performs_adoptResolvedRefs
    {pre : Common ι → Prop}
    {commit : String}
    (stable : Stable (Rely repository actor) pre)
    (complete : ∀ common, pre common →
      common.archive.Complete repository commit) :
    Performs upstream sha256 repository orders actor pre
      (adoptResolvedRefs repository commit) fun _ => pre :=
  performs_bind (performs_still (only_perform trivial) stable)
    fun _ => performs_adoptRefs stable complete

/-- The fetch brought this, and it is stored under its name. -/
structure Brought (repository : Repository) (requested : String) (actor : ι)
    (found : Option Archive) (fetched : FetchedRevision)
    (common : Common ι) : Prop where
  here : At actor found [fetched] common
  stored : Stored repository fetched common
  named : Named repository requested common

theorem performs_storeAndName
    {requested : String} :
    Performs upstream sha256 repository orders actor
      (At actor found [fetched])
      (storeAndName repository requested fetched staging).run
      (Outcome (fun _ => True) fun _ =>
        Brought repository requested actor found fetched) := by
  have stable : Stable (Rely repository actor) fun common : Common ι =>
      At actor found [fetched] common ∧ Stored repository fetched common :=
    stable_and stable_at stable_stored
  have complete : ∀ common : Common ι,
      At actor found [fetched] common ∧ Stored repository fetched common →
        common.archive.Complete repository fetched.commit :=
    fun _ holds => holds.2.1
  unfold storeAndName
  have staged : Performs upstream sha256 repository orders actor
      (At actor found [fetched]) (perform (.stagedUpstreamFiles staging
        repository.repoType fetched.commit))
      fun recorded common => At actor found [fetched] common ∧
        ∀ path ∈ recorded, upstream.Lists fetched.commit path :=
    performs_look trivial stable_at (fun _ => stable_fact)
      fun _ _ _ _ _ issued => issued.1
  refine performs_always staged fun recorded => ?_
  apply triple_of_fact
  intro tells
  refine performs_exceptBind (performs_quiet only_still_claim stable_at) ?_
  intro _
  refine performs_always performs_storeFetched fun stored => ?_
  have kept : Stable (Rely repository actor)
      (Outcome (fun _ : Common ι => True) (fun _ common =>
        At actor found [fetched] common ∧ Stored repository fetched common)
        stored) :=
    stable_outcome stable_fact (fun _ => stable) stored
  refine performs_always (performs_still only_still_dropStaging kept) ?_
  intro _
  have checked : Performs upstream sha256 repository orders actor _
      (check stored : Action AcquisitionOutcome).run
      (Outcome (fun _ => True) fun _ common =>
        At actor found [fetched] common ∧ Stored repository fetched common) :=
    performs_check kept (by
      rintro outcome common rfl holds
      exact holds)
  refine performs_exceptBind checked fun outcome => ?_
  refine performs_always
    (performs_recordUpstreamFiles stable tells) fun _ => ?_
  refine performs_exceptBind
    (performs_nameRequested stable complete) fun _ => ?_
  exact performs_always
    (performs_adoptResolvedRefs (stable_and stable stable_named)
      fun common holds => complete common holds.1)
    fun _ => performs_check (stable_and stable stable_named)
      fun _ _ _ holds => ⟨holds.1.1, holds.1.2, holds.2⟩

end storing

/-! ## Transferring -/

section transferring

variable
  {found : Option Archive}
  {requested : String}
  {selection : FileSelection}
  {staging : EntryName}

/-- What a fetch brings. -/
def broughtBy : Except UpstreamError FetchedRevision → List FetchedRevision
  | .ok fetched => [fetched]
  | .error _ => []

theorem performs_fetch
    {request : FetchRequest}
    (due : Due upstream repository orders ⟨actor, found, request⟩) :
    Performs upstream sha256 repository orders actor (At actor found [])
      (perform (.fetch request))
      fun reply => At actor found (broughtBy reply) := by
  refine triple_perform stable_at (fun _ => stable_at) ?_
  rintro common sound ⟨here, blank⟩ reply after rfl
  refine ⟨⟨sound.found, sound.records, ?_⟩, ⟨⟨.refl _ _, ?_, ?_⟩, ?_, ?_⟩,
    here, ?_⟩
  · intro asking member
    rcases List.mem_cons.mp member with rfl | known
    · rw [here]
      exact due
    · exact sound.asked asking known
  · exact fun _ => Or.inl rfl
  · intro asking member
    rcases List.mem_cons.mp member with rfl | known
    · exact Or.inr (Or.inl rfl)
    · exact Or.inl known
  · exact fun _ _ => rfl
  · intro other different
    exact Function.update_of_ne different _ _
  · show Function.update common.brought actor _ actor = _
    rw [Function.update_self, blank, List.append_nil]
    cases reply <;> rfl

theorem only_still_handleFetchFailure
    {error : UpstreamError} :
    Only Op.Still (handleFetchFailure staging error) := by
  unfold handleFetchFailure
  split
  · refine Only.bind (only_perform trivial) ?_
    rintro (_ | _ | _)
    · exact only_still_dropStaging
    · exact only_still_dropStaging
    · trivial
  · exact only_still_dropStaging

theorem performs_fetchInto
    {request : FetchRequest}
    (due : Due upstream repository orders ⟨actor, found, request⟩) :
    Performs upstream sha256 repository orders actor (At actor found [])
      (fetchInto staging request).run
      (Outcome (fun _ => True) fun fetched => At actor found [fetched]) := by
  unfold fetchInto
  refine performs_always (performs_fetch due) ?_
  rintro (error | fetched)
  · refine performs_always
      (performs_still only_still_handleFetchFailure stable_at) fun _ => ?_
    exact performs_check stable_at nofun
  · refine performs_check stable_at ?_
    rintro _ common ⟨⟩ holds
    exact holds

/-- What the fetch brought is stored under its name. -/
def Delivered (repository : Repository) (requested : String) (actor : ι)
    (common : Common ι) : Prop :=
  ∀ fetched ∈ common.brought actor, Stored repository fetched common ∧
    Named repository requested common

omit [DecidableEq ι] in
theorem Brought.delivered
    {fetched : FetchedRevision}
    {common : Common ι}
    (brought : Brought repository requested actor found fetched common) :
    Delivered repository requested actor common := by
  intro other member
  rw [brought.here.2] at member
  obtain rfl := List.mem_singleton.mp member
  exact ⟨brought.stored, brought.named⟩

omit [DecidableEq ι] in
theorem delivered_of_at
    {common : Common ι}
    (here : At actor found [] common) :
    Delivered repository requested actor common := by
  intro fetched member
  rw [here.2] at member
  cases member

/-- A transfer of a selection that is due. -/
theorem performs_transferSelection
    (due : ∀ place resolved, Due upstream repository orders ⟨actor, found,
      ⟨repository.repoType, repository.repoId, requested, selection.included,
        selection.excluded, place, resolved⟩⟩) :
    Performs upstream sha256 repository orders actor (At actor found [])
      (transferSelection repository requested selection).run
      (Outcome (fun _ => True) fun _ =>
        Delivered repository requested actor) := by
  unfold transferSelection acquireStaging
  refine performs_exceptBind
    (performs_quiet (only_reporting (only_perform trivial)) stable_at) ?_
  intro staging
  refine performs_exceptBind (performs_fetchInto (due _ _)) fun fetched => ?_
  refine performs_storeAndName.mono (fun _ _ holds => holds) ?_
  intro outcome common _ holds
  cases outcome with
  | error error => trivial
  | ok result => exact holds.delivered

end transferring

/-! ## One acquisition -/

section one

variable
  {found : Option Archive}
  {selection : FileSelection}

omit [DecidableEq ι] in
/-- What may be fetched for a selection, once its wait has ended. -/
theorem due_of_weighs
    {reconciliation : Reconciliation}
    {narrowed : FileSelection}
    (within : ∀ path,
      Selects upstream (orders actor).requested selection path →
        (orders actor).Covers upstream path)
    (weighs : Weighs upstream repository found (orders actor).requested
      selection reconciliation)
    (leaves : reconciliation = .missing narrowed ∨
      reconciliation = .notPublished ∧ narrowed = selection) :
    ∀ place resolved, Due upstream repository orders ⟨actor, found,
      ⟨repository.repoType, repository.repoId, (orders actor).requested,
        narrowed.included, narrowed.excluded, place, resolved⟩⟩ := by
  intro place resolved _ archive stands known
  rcases leaves with rfl | ⟨rfl, rfl⟩
  · obtain ⟨fromNarrowed, path, selected, unlisted⟩ := weighs
    exact ⟨fun path asks => (fromNarrowed path asks).2 archive stands,
      fun _ => ⟨path, within path selected, unlisted archive stands⟩⟩
  · have incomplete := weighs archive stands known
    exact ⟨fun path _ listed => incomplete listed.1,
      fun complete => absurd complete incomplete⟩

omit [DecidableEq ι] in
/-- Where there was no wait, or no selection asked, anything may be fetched. -/
theorem due_of_unreconciled
    (unreconciled : (orders actor).reconcile = false ∨ found = none) :
    ∀ place resolved, Due upstream repository orders ⟨actor, found,
      ⟨repository.repoType, repository.repoId, (orders actor).requested,
        selection.included, selection.excluded, place, resolved⟩⟩ := by
  intro place resolved reconciles archive stands
  rcases unreconciled with unselected | unmet
  · exact absurd (unselected.symm.trans reconciles) (by decide)
  · exact absurd (unmet.symm.trans stands) nofun

theorem performs_exists
    {κ : Type}
    {pre : κ → Common ι → Prop}
    {program : Program interface α}
    {post : α → Common ι → Prop}
    (performs : ∀ index, Performs upstream sha256 repository orders actor
      (pre index) program post) :
    Performs upstream sha256 repository orders actor
      (fun common => ∃ index, pre index common) program post :=
  fun start sound ⟨index, holds⟩ => performs index start sound holds

variable
  (literal : ∀ path,
    upstream.Lists (upstream.commit (orders actor).requested) path →
      Literal path)
  (within : ∀ path,
    Selects upstream (orders actor).requested selection path →
      (orders actor).Covers upstream path)

include literal within

/-- After its wait an acquisition asks for what is due. -/
theorem performs_transferRemaining
    {waited : Bool}
    (met : waited = false → found = none) :
    Performs upstream sha256 repository orders actor (At actor found [])
      (transferRemaining repository (orders actor).requested
        (orders actor).reconcile waited selection).run
      (Outcome (fun _ => True) fun _ =>
        Delivered repository (orders actor).requested actor) := by
  unfold transferRemaining
  split
  · refine performs_exceptBind (performs_reconcileSelection literal) ?_
    intro reconciliation
    apply triple_of_fact
    intro weighs
    cases reconciliation with
    | satisfied result =>
        exact performs_check stable_at fun _ _ _ => delivered_of_at
    | missing narrowed =>
        exact performs_transferSelection
          (due_of_weighs within weighs (Or.inl rfl))
    | notPublished =>
        exact performs_transferSelection
          (due_of_weighs within weighs (Or.inr ⟨rfl, rfl⟩))
  · next unreconciled =>
      refine performs_transferSelection (due_of_unreconciled ?_)
      cases asked : (orders actor).reconcile with
      | false => exact Or.inl rfl
      | true =>
          rw [asked, Bool.true_and] at unreconciled
          exact Or.inr (met (eq_false_of_ne_true unreconciled))

omit literal within in
/-- A wait for a slot ends with the archive as it is. -/
theorem performs_enterTransferGate :
    Performs upstream sha256 repository orders actor (At actor none [])
      (attempt (perform .enterTransferGate) : Action Bool).run
      (Outcome (fun _ => True) fun waited common => ∃ found,
        (waited = false → found = none) ∧ At actor found [] common) := by
  have stable : ∀ waited : Bool, Stable (Rely repository actor)
      fun common : Common ι => ∃ found,
        (waited = false → found = none) ∧ At actor found [] common := by
    rintro waited before after moved ⟨found, met, here⟩
    exact ⟨found, met, stable_at before after moved here⟩
  refine triple_perform stable_at
    (fun reply => stable_outcome stable_fact stable reply) ?_
  intro common sound here reply after issued
  rcases reply with error | _ | _
  · obtain rfl : after = common := issued
    exact ⟨sound, Guarantee.refl actor after, trivial⟩
  · obtain rfl : after = common := issued
    exact ⟨sound, Guarantee.refl actor after, none, fun _ => rfl, here⟩
  · obtain rfl : after = common.admit actor := issued
    have found : ∀ other archive,
        Function.update common.found actor (some common.archive) other =
            some archive →
          Archive.Grows repository archive common.archive := by
      intro other archive stands
      by_cases same : other = actor
      · subst other
        rw [Function.update_self] at stands
        cases stands
        exact .refl _ _
      · rw [Function.update_of_ne same] at stands
        exact sound.found other archive stands
    refine ⟨⟨found, sound.records, sound.asked⟩,
      ⟨⟨.refl _ _, ?_, fun _ known => Or.inl known⟩, ?_, fun _ _ => rfl⟩,
      some common.archive, nofun, Function.update_self _ _ _, here.2⟩
    · intro other
      by_cases same : other = actor
      · subst other
        exact Or.inr ⟨common.archive, Function.update_self _ _ _, .refl _ _⟩
      · exact Or.inl (Function.update_of_ne same _ _)
    · exact fun other different => Function.update_of_ne different _ _

theorem performs_fetchAndPublishSelection :
    Performs upstream sha256 repository orders actor (At actor none [])
      (fetchAndPublishSelection repository (orders actor).requested
        (orders actor).reconcile selection).run
      (Outcome (fun _ => True) fun _ =>
        Delivered repository (orders actor).requested actor) := by
  unfold fetchAndPublishSelection
  refine performs_always (performs_still
    (only_readyRef.mono fun _ => Op.Looks.still) stable_at) ?_
  intro ready
  cases ready with
  | some commit =>
      exact performs_check stable_at fun _ _ _ => delivered_of_at
  | none =>
      unfold fetchAndPublishWaiting
      refine performs_exceptBind performs_enterTransferGate fun waited => ?_
      apply performs_exists
      intro found
      refine performs_always (performs_still (only_perform trivial)
        (stable_and stable_fact stable_at)) ?_
      intro cancelled
      cases cancelled with
      | true =>
          exact performs_check (stable_and stable_fact stable_at) nofun
      | false =>
          intro start sound ⟨met, here⟩
          exact performs_transferRemaining literal within met start sound here

end one

section acquisition

variable
  (literal : ∀ path,
    upstream.Lists (upstream.commit (orders actor).requested) path →
      Literal path)

include literal

/-- An acquisition asks for what is due, and stores what its fetch brings. -/
theorem performs_acquisition :
    Performs upstream sha256 repository orders actor (At actor none [])
      (acquisition repository (orders actor).requested
        (orders actor).reconcile (orders actor).selection).run
      (Outcome (fun _ => True) fun _ =>
        Delivered repository (orders actor).requested actor) := by
  unfold acquisition
  split
  · next reconciles =>
      unfold acquireReconciled
      rw [← reconciles]
      refine performs_exceptBind (performs_reconcileSelection literal) ?_
      intro reconciliation
      apply triple_of_fact
      intro weighs
      cases reconciliation with
      | satisfied result =>
          exact performs_check stable_at fun _ _ _ => delivered_of_at
      | missing narrowed =>
          exact performs_fetchAndPublishSelection literal
            fun path selected => (weighs.1 path selected).1
      | notPublished =>
          exact performs_fetchAndPublishSelection literal fun _ => id
  · next unselected =>
      rw [← eq_false_of_ne_true unselected]
      exact performs_fetchAndPublishSelection literal fun _ => id

end acquisition

/-! ## Any number of acquisitions -/

section together

variable (upstream sha256 repository orders)

/-- Nothing has been asked for yet, and whoever runs is about to begin. -/
structure Started (config : Configuration interface ι (Common ι)
    (Except PullThroughError AcquisitionResult)) : Prop where
  records : config.shared.archive.Records repository upstream.Lists
  asked : config.shared.asked = []
  found : ∀ actor, config.shared.found actor = none
  brought : ∀ actor, config.shared.brought actor = []
  thread : ∀ actor program, config.thread actor = some program →
    program = (acquisition repository (orders actor).requested
      (orders actor).reconcile (orders actor).selection).run

/-- What acquisitions of one repository promise to one another. -/
def contract :
    Contract (acquisitions upstream sha256 : Machine interface ι (Common ι))
      (Except PullThroughError AcquisitionResult) where
  invariant := Sound upstream repository orders
  rely := Rely repository
  guar := Guarantee repository
  post actor := Outcome (fun _ => True) fun _ =>
    Delivered repository (orders actor).requested actor
  rely_refl := Rely.refl
  rely_trans := fun _ _ _ _ => Rely.trans
  guar_rely := fun different _ _ guarantee => guarantee.rely different
  release_invariant := fun sound released => released ▸ sound
  release_rely := fun _ _ released => released ▸ Rely.refl _ _
  ambient_invariant := fun _ moved => moved.elim
  ambient_rely := fun _ moved => moved.elim

variable
  {upstream sha256 repository orders}
  {start now : Configuration interface ι (Common ι)
    (Except PullThroughError AcquisitionResult)}

theorem Started.kept
    (literal : ∀ actor path,
      upstream.Lists (upstream.commit (orders actor).requested) path →
        Literal path)
    (started : Started upstream repository orders start) :
    (contract upstream sha256 repository orders).Kept start := by
  have sound : Sound upstream repository orders start.shared := by
    refine ⟨?_, started.records, ?_⟩
    · intro actor archive stands
      rw [started.found] at stands
      cases stands
    · intro asking member
      rw [started.asked] at member
      cases member
  refine ⟨sound, ?_⟩
  intro actor program running
  rw [started.thread actor program running]
  exact performs_acquisition (literal actor) start.shared sound
    ⟨started.found actor, started.brought actor⟩

/-- What a run leaves is later than what it found. -/
theorem later_of_reaches
    (kept : (contract upstream sha256 repository orders).Kept start)
    (reaches : (acquisitions upstream sha256).Reaches start now) :
    Later repository start.shared now.shared := by
  refine kept.history (Later repository) Later.refl
    (fun _ _ _ => Later.trans) ?_ ?_ ?_ reaches
  · intro actor first second _ _ guarantee
    exact Guarantee.later guarantee
  · rintro actor first second _ rfl
    exact Later.refl _
  · exact fun _ moved => moved.elim

/-- The call was made after a wait that has ended since. -/
structure Since (now : Common ι) (asking : Asking ι) : Prop where
  unmade : asking ∉ now.asked
  unmet : now.found asking.actor = none
  met : asking.found.isSome = true

end together

/-! ## A run -/

section samples

/-- The upstream has three files, whatever is asked for. -/
def sampleUpstream : Upstream where
  commit revision :=
    if isHfCommit revision = true then revision else Sample.older
  siblings _ := ["a", "b", "c"]
  pinned _ pinned := if_pos pinned

/-- One caller wants a file, and one that waits wants another as well. -/
def sampleOrders (waits : Bool) : Order :=
  ⟨"main", true, (FileSelection.fromPaths
    (if waits then ["b", "c"] else ["b"])).getD .all⟩

/-- What the upstream tells of a selection. -/
def sampleInventory (request : InventoryRequest) :
    Except UpstreamError (Option RevisionInventory) :=
  match Fetcher.inventory (sampleUpstream.commit request.revision)
      (sampleUpstream.siblings (sampleUpstream.commit request.revision))
      request with
  | some inventory => .ok (some inventory)
  | none => .error .unavailable

/-- What the calls answer the two. -/
def sampleAnswer (waits : Bool) :
    (op : Op) → Common Bool → op.Reply × Common Bool
  | .resolveRef repository reference, common =>
      (common.archive.resolveRef repository reference, common)
  | .isComplete repository commit, common =>
      (common.archive.isCompleteRevision repository commit, common)
  | .resolveFile repository commit path, common =>
      (common.archive.resolveFile repository commit path, common)
  | .upstreamFiles repository commit, common =>
      (common.archive.upstreamFiles repository commit, common)
  | .manifestPaths repository commit, common =>
      (common.archive.manifestPaths repository commit, common)
  | .publish repository request _, common =>
      let published := common.archive.publish Sample.digest repository request
        none
      (published.1, { common with archive := published.2.1 })
  | .extend repository commit files _, common =>
      let extended := common.archive.extend Sample.digest repository commit
        files (some { StagingDir.bare with payload := Sample.payload files })
      (extended.1, { common with archive := extended.2 })
  | .recordUpstreamFiles repository commit files, common =>
      let recorded := common.archive.recordUpstreamFiles repository commit
        files
      (recorded.1, { common with archive := recorded.2 })
  | .updateRef repository reference commit, common =>
      let updated := common.archive.updateRef repository reference commit
      (updated.1, { common with archive := updated.2 })
  | .rememberResolvedRef _ _ _, common => ((), common)
  | .rememberedRefs _ _, common => ([], common)
  | .enterTransferGate, common =>
      (.ok waits, if waits then common.admit waits else common)
  | .isCancelled, common => (false, common)
  | .commit, common => (true, common)
  | .cancel, common => (.alreadyFinished, common)
  | .acquireStaging _, common => (.ok ⟨.active "0", false, none⟩, common)
  | .stagedUpstreamFiles _ _ _, common => ([], common)
  | .preserveStaging _, common => (.ok true, common)
  | .removeStaging _, common => (.ok (), common)
  | .inventory request, common => (sampleInventory request, common)
  | .repositoryFiles _, common => (.ok none, common)
  | .fetch request, common =>
      (.ok ⟨Sample.older, request.files⟩,
        common.ask waits request [⟨Sample.older, request.files⟩])

theorem among_sampleAnswer
    (waits : Bool)
    (op : Op)
    (common : Common Bool) :
    Among sampleUpstream Sample.digest waits op common
      (sampleAnswer waits op common).1 (sampleAnswer waits op common).2 := by
  cases op with
  | publish => exact ⟨_, _, _, rfl, rfl⟩
  | extend => exact ⟨_, _, rfl, rfl⟩
  | recordUpstreamFiles => exact ⟨_, rfl, rfl⟩
  | updateRef => exact ⟨_, rfl, rfl⟩
  | enterTransferGate => cases waits <;> rfl
  | stagedUpstreamFiles => exact ⟨nofun, rfl⟩
  | inventory request =>
      refine ⟨?_, rfl⟩
      intro answer replied
      change sampleInventory request = .ok answer at replied
      unfold sampleInventory at replied
      split at replied
      · next inventory made =>
          exact ⟨inventory, (Except.ok.inj replied).symm, made⟩
      · cases replied
  | resolveRef => exact ⟨rfl, rfl⟩
  | isComplete => exact ⟨rfl, rfl⟩
  | resolveFile => exact ⟨rfl, rfl⟩
  | upstreamFiles => exact ⟨rfl, rfl⟩
  | manifestPaths => exact ⟨rfl, rfl⟩
  | _ => rfl

/-- One file is archived, and nothing has been asked for. -/
def sampleCommon : Common Bool :=
  ⟨Sample.archive Sample.older ["a"], fun _ => none, [], fun _ => []⟩

/-- Both are about to begin. -/
def sampleStart : Configuration interface Bool (Common Bool)
    (Except PullThroughError AcquisitionResult) :=
  ⟨sampleCommon, fun waits => some (acquisition Sample.repository "main" true
    (sampleOrders waits).selection).run⟩

/-- Who waits looks first. -/
def sampleLooked : Except PullThroughError Reconciliation × Common Bool :=
  (reconcileSelection Sample.repository "main"
    (sampleOrders true).selection).run.run (sampleAnswer true) sampleCommon

/-- What a reconciliation leaves to be fetched. -/
def missingOf : Except PullThroughError Reconciliation → Option FileSelection
  | .ok (.missing narrowed) => some narrowed
  | _ => none

/-- The other then brings its file. -/
def sampleStored : Except PullThroughError AcquisitionResult × Common Bool :=
  (acquisition Sample.repository "main" true
    (sampleOrders false).selection).run.run (sampleAnswer false)
    sampleLooked.2

/-- What is left for who waited. -/
def sampleWaited : Except PullThroughError AcquisitionResult × Common Bool :=
  (fetchAndPublishSelection Sample.repository "main" true
    ((missingOf sampleLooked.1).getD .all)).run.run (sampleAnswer true)
    sampleStored.2

/-- Publications record nothing of upstream. -/
theorem records_sampleArchive
    {commit : String}
    {files : List String}
    {tells : String → String → Prop} :
    (Sample.archive commit files).Records Sample.repository tells := by
  have blank : Archive.empty.Records Sample.repository tells := by
    intro commit recorded read
    obtain ⟨_, _, revision, _, stands, _⟩ :=
      Archive.upstreamFiles_eq_ok.mp read
    cases stands
  unfold Sample.archive
  generalize made : Archive.empty.publish _ _ _ _ = published
  generalize named : published.2.1.updateRef _ _ _ = updated
  exact Archive.records_updateRef (Archive.records_publish blank made) named

theorem started_sampleStart :
    Started sampleUpstream Sample.repository sampleOrders sampleStart where
  records := records_sampleArchive
  asked := rfl
  found _ := rfl
  brought _ := rfl
  thread _ _ running := (Option.some.inj running).symm

theorem literal_sampleUpstream
    {commit path : String}
    (lists : sampleUpstream.Lists commit path) :
    Literal path := by
  obtain ⟨listed, read, member⟩ := lists
  have sorted : Fetcher.repositoryFileMetadata ["a", "b", "c"] =
      some ["a", "b", "c"] := by
    decide +kernel
  obtain rfl := Option.some.inj (read.symm.trans sorted)
  revert path
  decide +kernel

theorem reaches_sampleLooked :
    (acquisitions sampleUpstream Sample.digest).Reaches sampleStart
      ⟨sampleLooked.2, Function.update sampleStart.thread true
        (some (fetchAndPublishSelection Sample.repository "main" true
          ((missingOf sampleLooked.1).getD .all)).run)⟩ := by
  have missing : (missingOf sampleLooked.1).isSome = true := by
    decide +kernel
  obtain ⟨narrowed, leaves⟩ := Option.isSome_iff_exists.mp missing
  have looked : Runs (Among sampleUpstream Sample.digest true)
      (reconcileSelection Sample.repository "main"
        (sampleOrders true).selection).run sampleCommon sampleLooked.1
      sampleLooked.2 :=
    runs_run (among_sampleAnswer true) _ _
  rw [leaves, Option.getD_some]
  have ends : sampleLooked.1 = .ok (.missing narrowed) := by
    revert leaves
    unfold missingOf
    split
    · rintro ⟨⟩
      assumption
    · nofun
  rw [ends] at looked
  obtain ⟨rest, begins, onward⟩ : ∃ rest,
      (acquisition Sample.repository "main" true
        (sampleOrders true).selection).run =
          (reconcileSelection Sample.repository "main"
            (sampleOrders true).selection).run >>= rest ∧
      rest (.ok (.missing narrowed)) =
        (fetchAndPublishSelection Sample.repository "main" true
          narrowed).run :=
    ⟨_, rfl, rfl⟩
  have reached := @Machine.reaches_of_runs_bind _ _ _ _ _ _
    (acquisitions sampleUpstream Sample.digest) _ _ _ sampleStart _ _
    (congrArg some begins) looked
  rwa [onward] at reached

/-- What tells a call of the fetcher from others. -/
def Asking.shown (asking : Asking Bool) :
    Bool × String × List String × List String × Bool :=
  (asking.actor, asking.request.revision, asking.request.files,
    asking.request.exclude, asking.found.isSome)

/-- What the first one brought. -/
theorem sampleStored_shown :
    sampleStored.1.toOption.isSome = true ∧
      (sampleStored.2.found true).isNone = true ∧
      (sampleStored.2.brought false).map FetchedRevision.commit =
        [Sample.older] ∧
      (sampleStored.2.brought false).map FetchedRevision.files = [["b"]] := by
  decide +kernel

/-- The calls of both, the latest first. -/
theorem sampleWaited_shown :
    sampleStored.2.asked.map Asking.shown =
        [(false, "main", ["b"], [], false)] ∧
      sampleWaited.2.asked.map Asking.shown =
        [(true, "main", ["c"], [], true),
          (false, "main", ["b"], [], false)] := by
  decide +kernel

theorem sampleStored_ok :
    ∃ result, sampleStored.1 = .ok result := by
  have succeeds := sampleStored_shown.1
  cases outcome : sampleStored.1 with
  | ok result => exact ⟨result, rfl⟩
  | error error =>
      rw [outcome] at succeeds
      cases succeeds

theorem reaches_sampleStored :
    ∃ now result,
      (acquisitions sampleUpstream Sample.digest).Reaches sampleStart now ∧
      now.shared = sampleStored.2 ∧
      now.thread false = some (.done (.ok result)) ∧
      ∃ later, (acquisitions sampleUpstream Sample.digest).Reaches now later ∧
        later.shared = sampleWaited.2 := by
  obtain ⟨result, stored⟩ := sampleStored_ok
  have brings : Runs (Among sampleUpstream Sample.digest false)
      (acquisition Sample.repository "main" true
        (sampleOrders false).selection).run sampleLooked.2 (.ok result)
      sampleStored.2 := by
    rw [← stored]
    exact runs_run (among_sampleAnswer false) _ _
  have waits : Runs (Among sampleUpstream Sample.digest true)
      (fetchAndPublishSelection Sample.repository "main" true
        ((missingOf sampleLooked.1).getD .all)).run sampleStored.2
      sampleWaited.1 sampleWaited.2 :=
    runs_run (among_sampleAnswer true) _ _
  have toNow := @Machine.reaches_of_runs _ _ _ _ _
    (acquisitions sampleUpstream Sample.digest) false _
    ⟨sampleLooked.2, Function.update sampleStart.thread true
      (some (fetchAndPublishSelection Sample.repository "main" true
        ((missingOf sampleLooked.1).getD .all)).run)⟩ _ _ rfl brings
  have toLater := @Machine.reaches_of_runs _ _ _ _ _
    (acquisitions sampleUpstream Sample.digest) true _
    ⟨sampleStored.2, Function.update (Function.update sampleStart.thread true
      (some (fetchAndPublishSelection Sample.repository "main" true
        ((missingOf sampleLooked.1).getD .all)).run)) false
      (some (.done (.ok result)))⟩ _ _ rfl waits
  exact ⟨_, result, reaches_sampleLooked.trans toNow, rfl,
    rfl, _, toLater, rfl⟩

end samples

end PullThrough
end ModelKeep
