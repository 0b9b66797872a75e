import ModelKeep.PullThrough.Together

/-!
# Looking again

Rules for the parts of an acquisition among others, and what its
reconciliation tells of the archive that its wait for a slot ended with: what
it leaves to be fetched was missing there, although the archive grows while the
acquisition looks.
-/

namespace ModelKeep

open Concurrency Program

namespace PullThrough

variable
  {ι : Type}
  [DecidableEq ι]
  {upstream : Upstream}
  {sha256 : Bytes → String}
  {repository : Repository}
  {orders : ι → Order}
  {actor : ι}
  {α β : Type}

/-! ## Assertions -/

section stable

omit [DecidableEq ι]

theorem stable_and
    {left right : Common ι → Prop}
    (first : Stable (Rely repository actor) left)
    (second : Stable (Rely repository actor) right) :
    Stable (Rely repository actor) fun common =>
      left common ∧ right common :=
  fun before after moved holds =>
    ⟨first before after moved holds.1, second before after moved holds.2⟩

theorem stable_fact
    {fact : Prop} :
    Stable (Rely repository actor) fun _ : Common ι => fact :=
  fun _ _ _ holds => holds

theorem stable_complete
    {commit : String} :
    Stable (Rely repository actor) fun common =>
      common.archive.Complete repository commit :=
  fun _ _ moved complete => moved.grows.complete commit complete

theorem stable_listed
    {commit : String}
    {files : List String} :
    Stable (Rely repository actor) fun common =>
      ∀ path ∈ files, common.archive.Listed repository commit path :=
  fun _ _ moved listed path member =>
    moved.grows.listed commit path (listed path member)

/-- What the wait of the acquisition found, and what its fetch brought. -/
def At (actor : ι) (found : Option Archive) (brought : List FetchedRevision)
    (common : Common ι) : Prop :=
  common.found actor = found ∧ common.brought actor = brought

theorem stable_at
    {found : Option Archive}
    {brought : List FetchedRevision} :
    Stable (Rely repository actor) (At actor found brought) :=
  fun _ _ moved here =>
    ⟨moved.found.trans here.1, moved.brought.trans here.2⟩

theorem stable_outcome
    {failed : Common ι → Prop}
    {succeeded : α → Common ι → Prop}
    (first : Stable (Rely repository actor) failed)
    (second : ∀ value, Stable (Rely repository actor) (succeeded value))
    (outcome : Except PullThroughError α) :
    Stable (Rely repository actor) (Outcome failed succeeded outcome) := by
  cases outcome with
  | error error => exact first
  | ok value => exact second value

end stable

/-! ## Rules -/

section rules

variable
  {pre : Common ι → Prop}
  {program : Program interface α}
  {post : α → Common ι → Prop}

theorem performs_bind
    {middle : α → Common ι → Prop}
    {rest : α → Program interface β}
    {post : β → Common ι → Prop}
    (first : Performs upstream sha256 repository orders actor pre program
      middle)
    (second : ∀ value, Performs upstream sha256 repository orders actor
      (middle value) (rest value) post) :
    Performs upstream sha256 repository orders actor pre (program >>= rest)
      post :=
  first.bind (Rely.refl actor) second

theorem performs_exceptBind
    {action : Action α}
    {middle : α → Common ι → Prop}
    {rest : α → Action β}
    {post : β → Common ι → Prop}
    (first : Performs upstream sha256 repository orders actor pre action.run
      (Outcome (fun _ => True) middle))
    (second : ∀ value, Performs upstream sha256 repository orders actor
      (middle value) (rest value).run (Outcome (fun _ => True) post)) :
    Performs upstream sha256 repository orders actor pre (action >>= rest).run
      (Outcome (fun _ => True) post) :=
  Triple.exceptBind (Rely.refl actor) stable_fact first second

theorem performs_done
    {value : α}
    (stable : Stable (Rely repository actor) pre)
    (implies : ∀ common, pre common → post value common) :
    Performs upstream sha256 repository orders actor pre (.done value) post :=
  triple_done stable fun common _ => implies common

/-- Two parts with one precondition follow each other. -/
theorem performs_always
    {middle : α → Common ι → Prop}
    {rest : α → Action β}
    {post : β → Common ι → Prop}
    (first : Performs upstream sha256 repository orders actor pre program
      middle)
    (second : ∀ value, Performs upstream sha256 repository orders actor
      (middle value) (rest value).run (Outcome (fun _ => True) post)) :
    Performs upstream sha256 repository orders actor pre
      (always program >>= rest).run (Outcome (fun _ => True) post) := by
  rw [ExceptT.run_bind, run_always, Program.bind_assoc]
  exact performs_bind first second

/-- A call that changes nothing tells something. -/
theorem performs_look
    {op : Op}
    {tells : op.Reply → Common ι → Prop}
    (still : op.Still)
    (stable : Stable (Rely repository actor) pre)
    (lasting : ∀ reply, Stable (Rely repository actor) (tells reply))
    (told : ∀ common reply after, Sound upstream repository orders common →
      pre common → Among upstream sha256 actor op common reply after →
        tells reply common) :
    Performs upstream sha256 repository orders actor pre (perform op)
      fun reply common => pre common ∧ tells reply common := by
  refine triple_perform stable (fun reply => stable_and stable (lasting reply)) ?_
  intro common sound holds reply after issued
  have same := after_of_still still issued
  subst same
  exact ⟨sound, Guarantee.refl actor after, holds,
    told after reply after sound holds issued⟩

/-- What changes nothing keeps what is known. -/
theorem performs_still
    (only : Only Op.Still program)
    (stable : Stable (Rely repository actor) pre) :
    Performs upstream sha256 repository orders actor pre program
      fun _ => pre := by
  induction program with
  | done value => exact performs_done stable fun _ holds => holds
  | call op next inductionHypothesis =>
      refine @performs_bind _ _ _ _ _ _ _ _ _ pre (perform op)
        (fun _ => pre) next _ ?_ fun reply =>
          inductionHypothesis reply (only.2 reply)
      refine triple_perform stable (fun _ => stable) ?_
      intro common sound holds reply after issued
      have same := after_of_still only.1 issued
      subst same
      exact ⟨sound, Guarantee.refl actor after, holds⟩

/-- A part that changes nothing and may fail. -/
theorem performs_quiet
    {action : Action α}
    (only : Only Op.Still action.run)
    (stable : Stable (Rely repository actor) pre) :
    Performs upstream sha256 repository orders actor pre action.run
      (Outcome (fun _ => True) fun _ => pre) := by
  refine (performs_still only stable).mono (fun _ _ holds => holds) ?_
  intro outcome common _ holds
  cases outcome with
  | error error => trivial
  | ok value => exact holds

theorem performs_check
    {outcome : Except PullThroughError α}
    {post : α → Common ι → Prop}
    (stable : Stable (Rely repository actor) pre)
    (implies : ∀ value common, outcome = .ok value → pre common →
      post value common) :
    Performs upstream sha256 repository orders actor pre
      (check outcome : Action α).run (Outcome (fun _ => True) post) := by
  refine performs_done stable ?_
  intro common holds
  cases outcome with
  | error error => trivial
  | ok value => exact implies value common rfl holds

/-- An answer that is reported in other words if it is an error. -/
theorem performs_reporting
    {ε : Type}
    {report : ε → PullThroughError}
    {program : Program interface (Except ε α)}
    {tells : α → Common ι → Prop}
    (stable : Stable (Rely repository actor) pre)
    (lasting : ∀ value, Stable (Rely repository actor) (tells value))
    (performs : Performs upstream sha256 repository orders actor pre program
      fun reply common => pre common ∧ ∀ value, reply = .ok value →
        tells value common) :
    Performs upstream sha256 repository orders actor pre
      (reporting report program).run
      (Outcome (fun _ => True) fun value common =>
        pre common ∧ tells value common) := by
  have lastingToo : ∀ outcome : Except ε α, Stable (Rely repository actor)
      fun common => pre common ∧ ∀ value, outcome = .ok value →
        tells value common := by
    intro outcome before after moved holds
    exact ⟨stable before after moved holds.1, fun value same =>
      lasting value before after moved (holds.2 value same)⟩
  refine performs_bind performs fun outcome => ?_
  cases outcome with
  | error error => exact performs_done (lastingToo _) fun _ _ => trivial
  | ok value =>
      exact performs_done (lastingToo _) fun _ holds =>
        ⟨holds.1, holds.2 value rfl⟩

/-- A call that changes the archive. -/
theorem performs_write
    {op : Op}
    {tells : op.Reply → Common ι → Prop}
    (stable : Stable (Rely repository actor) pre)
    (lasting : ∀ reply, Stable (Rely repository actor) (tells reply))
    (writes : ∀ common reply after, Sound upstream repository orders common →
      pre common → Among upstream sha256 actor op common reply after →
        ∃ archive, after = { common with archive := archive } ∧
          Archive.Grows repository common.archive archive ∧
          archive.Records repository upstream.Lists ∧ tells reply after) :
    Performs upstream sha256 repository orders actor pre (perform op)
      fun reply common => pre common ∧ tells reply common := by
  refine triple_perform stable
    (fun reply => stable_and stable (lasting reply)) ?_
  intro common sound holds reply after issued
  obtain ⟨archive, rfl, grows, records, told⟩ :=
    writes common reply after sound holds issued
  obtain ⟨kept, guarantee⟩ := change_archive sound grows records
  exact ⟨kept, guarantee,
    stable common _ ⟨grows, rfl, rfl⟩ holds, told⟩

end rules

/-! ## Looking at the archive -/

section looking

variable
  {pre : Common ι → Prop}
  {found : Option Archive}

/-- A revision is found complete, or what would make it so does not hold. -/
theorem performs_revisionIsPublished
    {commit : String}
    {ground : Prop}
    (stable : Stable (Rely repository actor) pre)
    (grounds : ∀ common, Sound upstream repository orders common →
      pre common → ground → common.archive.Complete repository commit) :
    Performs upstream sha256 repository orders actor pre
      (revisionIsPublished repository commit)
      fun complete common => pre common ∧
        (complete = true → common.archive.Complete repository commit) ∧
        (complete = false → ¬ground) := by
  unfold revisionIsPublished
  have looked := @performs_look _ _ upstream sha256 repository orders actor
    pre (.isComplete repository commit)
    (fun reply common =>
      (reply = .ok true → common.archive.Complete repository commit) ∧
        (reply ≠ .ok true → ¬ground)) trivial stable
    (fun reply before after moved told =>
      ⟨fun same => moved.grows.complete commit (told.1 same), told.2⟩)
    (by
      rintro common reply after sound holds ⟨rfl, _⟩
      exact ⟨fun same => same, fun other holdsToo =>
        other (grounds common sound holds holdsToo)⟩)
  refine performs_bind looked ?_
  have lasting : ∀ reply : Except ArchiveError Bool,
      Stable (Rely repository actor) fun common => pre common ∧
        (reply = .ok true → common.archive.Complete repository commit) ∧
          (reply ≠ .ok true → ¬ground) :=
    fun reply => stable_and stable fun before after moved told =>
      ⟨fun same => moved.grows.complete commit (told.1 same), told.2⟩
  rintro (error | _ | _)
  · exact performs_done (lasting _) fun common holds =>
      ⟨holds.1, nofun, fun _ => holds.2.2 nofun⟩
  · exact performs_done (lasting _) fun common holds =>
      ⟨holds.1, nofun, fun _ => holds.2.2 nofun⟩
  · exact performs_done (lasting _) fun common holds =>
      ⟨holds.1, fun _ => holds.2.1 rfl, nofun⟩

/-- Where a published commit is not found, none was known. -/
theorem performs_publishedCommit
    {requested : String}
    {brought : List FetchedRevision} :
    Performs upstream sha256 repository orders actor (At actor found brought)
      (publishedCommit repository requested)
      fun answer common => At actor found brought common ∧
        (answer = none → ∀ archive, found = some archive →
          ¬Known archive repository requested) := by
  -- The second way to find it: the request names the commit.
  have directly : ∀ {unnamed : Prop}, (unnamed → ∀ archive,
      found = some archive → ¬archive.Names repository requested) →
      Performs upstream sha256 repository orders actor
        (fun common => At actor found brought common ∧ unnamed)
        (publishedDirectly repository requested)
        fun answer common => At actor found brought common ∧
          (answer = none → ∀ archive, found = some archive →
            ¬Known archive repository requested) := by
    intro unnamed none
    have published := @performs_revisionIsPublished _ _ upstream sha256
      repository orders actor
      (fun common => At actor found brought common ∧ unnamed) requested
      (∃ archive, found = some archive ∧ archive.Complete repository requested)
      (stable_and stable_at stable_fact)
      (by
        rintro common sound ⟨⟨here, _⟩, _⟩ ⟨archive, rfl, complete⟩
        exact (sound.found actor archive here).complete requested complete)
    refine performs_bind published ?_
    rintro (_ | _)
    · refine performs_done (stable_and (stable_and stable_at stable_fact)
        (fun before after moved told =>
          ⟨fun same => moved.grows.complete requested (told.1 same),
            told.2⟩)) ?_
      rintro common ⟨⟨here, holds⟩, _, unpublished⟩
      refine ⟨here, fun _ archive stands known => ?_⟩
      rcases known with named | complete
      · exact none holds archive stands named
      · exact unpublished rfl ⟨archive, stands, complete⟩
    · refine performs_done (stable_and (stable_and stable_at stable_fact)
        (fun before after moved told =>
          ⟨fun same => moved.grows.complete requested (told.1 same),
            told.2⟩)) ?_
      rintro common ⟨⟨here, _⟩, _⟩
      exact ⟨here, nofun⟩
  unfold publishedCommit
  have resolved := @performs_look _ _ upstream sha256 repository orders actor
    (At actor found brought) (.resolveRef repository requested)
    (fun reply common =>
      (∀ commit, reply = .ok commit → (∃ archive, found = some archive ∧
          archive.Names repository requested) →
        common.archive.Complete repository commit) ∧
      (∀ error, reply = .error error → ∀ archive, found = some archive →
        ¬archive.Names repository requested)) trivial stable_at
    (fun reply before after moved told =>
      ⟨fun commit same known =>
        moved.grows.complete commit (told.1 commit same known), told.2⟩)
    (by
      rintro common reply after sound ⟨here, _⟩ ⟨same, _⟩
      constructor
      · rintro commit rfl ⟨archive, rfl, named⟩
        obtain ⟨target, resolved, complete⟩ :=
          (sound.found actor archive here).named requested named
        rw [resolved] at same
        cases same
        exact complete
      · rintro error rfl archive rfl named
        obtain ⟨target, resolved, _⟩ :=
          (sound.found actor archive here).named requested named
        rw [resolved] at same
        cases same)
  refine performs_bind resolved ?_
  rintro (error | commit)
  · refine (directly fun none => none).mono ?_ fun _ _ _ holds => holds
    rintro common _ ⟨here, _, unnamed⟩
    exact ⟨here, unnamed error rfl⟩
  · have lasting : Stable (Rely repository actor) fun common : Common ι =>
        At actor found brought common ∧ ((∃ archive, found = some archive ∧
          archive.Names repository requested) →
            common.archive.Complete repository commit) :=
      stable_and stable_at fun before after moved told known =>
        moved.grows.complete commit (told known)
    have published := @performs_revisionIsPublished _ _ upstream sha256
      repository orders actor
      (fun common => At actor found brought common ∧
        ((∃ archive, found = some archive ∧
          archive.Names repository requested) →
            common.archive.Complete repository commit)) commit
      (∃ archive, found = some archive ∧ archive.Names repository requested)
      lasting (fun common _ holds known => holds.2 known)
    refine (performs_bind (published.mono ?_ fun _ _ _ holds => holds) ?_)
    · rintro common _ ⟨here, told, _⟩
      exact ⟨here, told commit rfl⟩
    · rintro (_ | _)
      · refine (directly fun none => none).mono ?_ fun _ _ _ holds => holds
        rintro common _ ⟨⟨here, _⟩, _, unnamed⟩
        exact ⟨here, fun archive stands named =>
          unnamed rfl ⟨archive, stands, named⟩⟩
      · refine performs_done (stable_and lasting
          (fun before after moved told =>
            ⟨fun same => moved.grows.complete commit (told.1 same),
              told.2⟩)) ?_
        rintro common ⟨⟨here, _⟩, _⟩
        exact ⟨here, nofun⟩

/-- The manifest that is read lists what was listed. -/
theorem performs_archivedPaths
    {commit : String}
    (stable : Stable (Rely repository actor) pre)
    (here : ∀ common, pre common → common.found actor = found) :
    Performs upstream sha256 repository orders actor pre
      (archivedPaths repository commit).run
      (Outcome (fun _ => True) fun archived common => pre common ∧
        ∀ archive, found = some archive → ∀ path,
          archive.Listed repository commit path → path ∈ archived) := by
  refine performs_reporting stable (fun _ => stable_fact)
    (performs_look trivial stable (fun _ => stable_fact) ?_)
  rintro common reply after sound holds ⟨same, _⟩ archived rfl archive rfl
    path listed
  obtain ⟨_, paths, read, member⟩ := (sound.found actor archive
    (here common holds)).listed commit path listed
  rw [read] at same
  cases same
  exact member

end looking

/-! ## Looking again -/

section again

variable
  {found : Option Archive}
  {brought : List FetchedRevision}
  {requested : String}
  {selection : FileSelection}

/-- A path of the selection. -/
abbrev Selects (upstream : Upstream) (requested : String)
    (selection : FileSelection) (path : String) : Prop :=
  upstream.Covers requested selection.included selection.excluded path

/-- What the wait found did not list the path. -/
def Unlisted (upstream : Upstream) (repository : Repository)
    (found : Option Archive) (requested path : String) : Prop :=
  ∀ archive, found = some archive →
    ¬archive.Listed repository (upstream.commit requested) path

/-- What a reconciliation says of the archive that the wait found. -/
def Weighs (upstream : Upstream) (repository : Repository)
    (found : Option Archive) (requested : String)
    (selection : FileSelection) : Reconciliation → Prop
  | .notPublished => ∀ archive, found = some archive →
      Known archive repository requested →
        ¬archive.Complete repository (upstream.commit requested)
  | .satisfied _ => True
  | .missing narrowed =>
      (∀ path, Selects upstream requested narrowed path →
        Selects upstream requested selection path ∧
          Unlisted upstream repository found requested path) ∧
      ∃ path, Selects upstream requested selection path ∧
        Unlisted upstream repository found requested path

theorem concrete_of_literal
    {path : String}
    (literal : Literal path) :
    isGlobPattern path = false := by
  unfold isGlobPattern
  rw [endsWithSlash_of_plain literal.plain, Bool.false_or, List.any_eq_false]
  intro character member
  obtain ⟨_, star, mark, opened, closed⟩ :=
    literal.characters character member
  simp [star, mark, opened, closed]

theorem withSlashes_of_literal
    {path : String}
    (literal : Literal path) :
    Fetcher.withSlashes path = path :=
  Fetcher.withSlashes_of_plain fun member =>
    (literal.characters _ member).1 rfl

theorem weighs_of_concludeFrom
    {commit : String}
    {covered archived : List String}
    {reconciliation : Reconciliation}
    (literal : ∀ path, upstream.Lists (upstream.commit requested) path →
      Literal path)
    (covers : ∀ path ∈ covered, Selects upstream requested selection path)
    (reads : ∀ archive, found = some archive → ∀ path,
      archive.Listed repository (upstream.commit requested) path →
        path ∈ archived)
    (concluded : concludeFrom commit covered archived = .ok reconciliation) :
    Weighs upstream repository found requested selection reconciliation := by
  have missing : ∀ path,
      path ∈ covered.filter (fun path => path ∉ archived) →
      Selects upstream requested selection path ∧
        Unlisted upstream repository found requested path := by
    intro path member
    obtain ⟨inCovered, absent⟩ := List.mem_filter.mp member
    refine ⟨covers path inCovered, fun archive stands listed => ?_⟩
    exact of_decide_eq_true absent (reads archive stands path listed)
  unfold concludeFrom at concluded
  dsimp only at concluded
  split at concluded
  · cases concluded
    trivial
  · next some =>
      split at concluded
      · cases concluded
      · next narrowed made =>
          cases concluded
          obtain ⟨_, included, excluded⟩ := fromPaths_eq_some made
          obtain ⟨first, member⟩ := List.exists_mem_of_ne_nil _ some
          refine ⟨?_, first, missing first member⟩
          rintro path ⟨listed, selected⟩
          apply missing
          rw [excluded, selected_iff] at selected
          · rw [withSlashes_of_literal (literal path listed), included,
              mem_orderedPaths] at selected
            rcases selected with nothing | present
            · have none : first ∈ orderedPaths (covered.filter
                  fun path => path ∉ archived) :=
                (mem_orderedPaths _ _).mpr member
              rw [nothing] at none
              cases none
            · exact present
          · intro pattern inNarrowed
            rw [included, mem_orderedPaths] at inNarrowed
            exact concrete_of_literal
              (literal pattern (missing pattern inNarrowed).1.1)

/-- What a record covers is selected. -/
theorem selects_of_record
    {recorded : List String}
    (literal : ∀ path, upstream.Lists (upstream.commit requested) path →
      Literal path)
    (tells : ∀ path ∈ recorded, upstream.Lists requested path)
    (answers : answersFromRecord requested requested selection = true) :
    ∀ path ∈ coveredByRecord selection recorded,
      Selects upstream requested selection path := by
  unfold answersFromRecord at answers
  simp only [Bool.and_eq_true, decide_eq_true_eq] at answers
  obtain ⟨⟨⟨pinned, _⟩, excluded⟩, lengths⟩ := answers
  have concrete : ∀ pattern ∈ selection.included,
      isGlobPattern pattern = false := by
    intro pattern member
    have all := List.length_filter_eq_length_iff.mp lengths pattern member
    simpa using all
  intro path member
  obtain ⟨inRecord, selected⟩ := (mem_coveredByRecord excluded path).mp member
  have listed : upstream.Lists (upstream.commit requested) path := by
    rw [upstream.pinned requested pinned]
    exact tells path inRecord
  refine ⟨listed, ?_⟩
  rw [excluded, selected_iff concrete,
    withSlashes_of_literal (literal path listed)]
  exact selected

variable
  (literal : ∀ path, upstream.Lists (upstream.commit requested) path →
    Literal path)

include literal

theorem performs_reconcileFromRecord
    {published : String} :
    Performs upstream sha256 repository orders actor (At actor found brought)
      (reconcileFromRecord repository requested published selection).run
      (Outcome (fun _ => True) fun answer common =>
        At actor found brought common ∧ ∀ reconciliation,
          answer = some reconciliation →
          Weighs upstream repository found requested selection
            reconciliation) := by
  unfold reconcileFromRecord
  split
  swap
  · refine performs_check stable_at ?_
    rintro _ common ⟨⟩ here
    exact ⟨here, nofun⟩
  next answers =>
    obtain rfl : requested = published := by
      unfold answersFromRecord at answers
      simp only [Bool.and_eq_true, decide_eq_true_eq] at answers
      exact answers.1.1.2
    have pinned : upstream.commit requested = requested := by
      apply upstream.pinned
      unfold answersFromRecord at answers
      simp only [Bool.and_eq_true, decide_eq_true_eq] at answers
      exact answers.1.1.1
    have looked : Performs upstream sha256 repository orders actor
        (At actor found brought) (perform (.upstreamFiles repository requested))
        fun reply common => At actor found brought common ∧
          ∀ answer, reply = .ok answer → ∀ recorded, answer = some recorded →
            ∀ path ∈ recorded, upstream.Lists requested path := by
      refine performs_look trivial stable_at (fun _ => stable_fact) ?_
      rintro common reply after sound _ ⟨same, _⟩ answer rfl recorded rfl
      exact sound.records requested recorded same.symm
    refine performs_exceptBind (performs_reporting stable_at
      (fun _ => stable_fact) looked) ?_
    intro answer
    cases answer with
    | none =>
        refine performs_check (stable_and stable_at stable_fact) ?_
        rintro _ common ⟨⟩ here
        exact ⟨here.1, nofun⟩
    | some recorded =>
        refine performs_exceptBind (performs_archivedPaths
          (stable_and stable_at stable_fact) fun _ here => here.1.1) ?_
        intro archived
        refine performs_check (stable_and (stable_and stable_at stable_fact)
          stable_fact) ?_
        rintro answer common concluded ⟨⟨here, tells⟩, reads⟩
        refine ⟨here, ?_⟩
        rintro reconciliation rfl
        cases conclusion : concludeFrom requested
            (coveredByRecord selection recorded) archived with
        | error error =>
            rw [conclusion] at concluded
            cases concluded
        | ok other =>
            rw [conclusion] at concluded
            cases concluded
            refine weighs_of_concludeFrom literal (selects_of_record
              literal (tells recorded rfl) answers) ?_ conclusion
            rw [pinned]
            exact reads

theorem performs_reconcileInventory
    {inventory : RevisionInventory}
    (made : Fetcher.inventory (upstream.commit requested)
      (upstream.siblings (upstream.commit requested))
      (inventoryRequest repository requested selection) = some inventory) :
    Performs upstream sha256 repository orders actor (At actor found brought)
      (reconcileInventory repository (some inventory)).run
      (Outcome (fun _ => True) fun reconciliation common =>
        At actor found brought common ∧
          Weighs upstream repository found requested selection
            reconciliation) := by
  obtain ⟨covered, expected, rfl⟩ := Option.map_eq_some_iff.mp made
  obtain ⟨listed, metadata, rfl⟩ := Option.map_eq_some_iff.mp expected
  unfold reconcileInventory
  have published := @performs_revisionIsPublished _ _ upstream sha256
    repository orders actor (At actor found brought)
    (upstream.commit requested)
    (∃ archive, found = some archive ∧
      archive.Complete repository (upstream.commit requested)) stable_at
    (by
      rintro common sound ⟨here, _⟩ ⟨archive, rfl, complete⟩
      exact (sound.found actor archive here).complete _ complete)
  refine performs_always published ?_
  rintro (_ | _)
  · refine performs_check (stable_and stable_at (fun before after moved told =>
      ⟨fun same => moved.grows.complete _ (told.1 same), told.2⟩)) ?_
    rintro _ common ⟨⟩ ⟨here, _, unpublished⟩
    exact ⟨here, fun archive stands _ complete =>
      unpublished rfl ⟨archive, stands, complete⟩⟩
  · refine performs_exceptBind (performs_archivedPaths
      (stable_and stable_at (fun before after moved told =>
        ⟨fun same => moved.grows.complete _ (told.1 same), told.2⟩))
      fun _ here => here.1.1) ?_
    intro archived
    refine performs_check (stable_and (stable_and stable_at
      (fun before after moved told =>
        ⟨fun same => moved.grows.complete _ (told.1 same), told.2⟩))
      stable_fact) ?_
    rintro reconciliation common concluded ⟨⟨here, _⟩, reads⟩
    refine ⟨here, weighs_of_concludeFrom literal ?_ reads concluded⟩
    intro path member
    obtain ⟨inListed, selected⟩ := List.mem_filter.mp member
    exact ⟨⟨listed, metadata, inListed⟩, selected⟩

/-- A reconciliation tells what the wait found. -/
theorem performs_reconcileSelection :
    Performs upstream sha256 repository orders actor (At actor found brought)
      (reconcileSelection repository requested selection).run
      (Outcome (fun _ => True) fun reconciliation common =>
        At actor found brought common ∧
          Weighs upstream repository found requested selection
            reconciliation) := by
  unfold reconcileSelection
  refine performs_always performs_publishedCommit ?_
  intro answer
  cases answer with
  | none =>
      refine performs_check (stable_and stable_at stable_fact) ?_
      rintro _ common ⟨⟩ ⟨here, unknown⟩
      exact ⟨here, fun archive stands known =>
        absurd known (unknown rfl archive stands)⟩
  | some published =>
      have start : Stable (Rely repository actor) fun common : Common ι =>
          At actor found brought common ∧ (some published = none →
            ∀ archive, found = some archive →
              ¬Known archive repository requested) :=
        stable_and stable_at stable_fact
      refine performs_always (performs_still (only_perform trivial) start) ?_
      rintro (_ | _)
      swap
      · exact performs_check start nofun
      refine performs_exceptBind ((performs_reconcileFromRecord literal).mono
        (fun _ _ holds => holds.1) fun _ _ _ holds => holds) ?_
      intro fromRecord
      cases fromRecord with
      | some reconciliation =>
          refine performs_check (stable_and stable_at stable_fact) ?_
          rintro _ common ⟨⟩ ⟨here, weighs⟩
          exact ⟨here, weighs _ rfl⟩
      | none =>
          have looked : Performs upstream sha256 repository orders actor
              (At actor found brought) (perform (.inventory
                (inventoryRequest repository requested selection)))
              fun reply common => At actor found brought common ∧
                ∀ answer, reply = .ok answer →
                  ∃ inventory, answer = some inventory ∧
                    Fetcher.inventory (upstream.commit requested)
                      (upstream.siblings (upstream.commit requested))
                      (inventoryRequest repository requested selection) =
                        some inventory :=
            performs_look trivial stable_at (fun _ => stable_fact)
              fun _ _ _ _ _ issued => issued.1
          refine performs_exceptBind ((performs_reporting stable_at
            (fun _ => stable_fact) looked).mono (fun _ _ holds => holds.1)
              fun _ _ _ holds => holds) ?_
          intro answer
          apply triple_of_fact
          rintro ⟨inventory, rfl, made⟩
          exact performs_reconcileInventory literal made

end again

end PullThrough
end ModelKeep
