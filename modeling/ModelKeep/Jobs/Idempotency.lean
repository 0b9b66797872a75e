import ModelKeep.Jobs.Service

/-!
# One key, one job

The text that is hashed for a request says exactly what was asked and by whom,
so that the index can tell a repeated request from another one under the same
key.  What the index does not see is a request that was answered with an
equivalent active job: its key is not recorded.
-/

namespace ModelKeep
namespace Jobs

open Concurrency Program

/-! ## Hashed texts -/

/-- The character that separates the fields. -/
def nul : Char := Char.ofNat 0

/-- Fields without the separator can be read back from their text. -/
theorem joinFields_injective
    {left right : List String}
    (leftSome : left ≠ [])
    (rightSome : right ≠ [])
    (leftFree : ∀ field ∈ left, nul ∉ field.toList)
    (rightFree : ∀ field ∈ right, nul ∉ field.toList)
    (same : joinFields left = joinFields right) :
    left = right := by
  have split : ∀ fields : List String, fields ≠ [] →
      (∀ field ∈ fields, nul ∉ field.toList) →
      (joinFields fields).toList.splitOn nul =
        fields.map String.toList := by
    intro fields nonempty free
    unfold joinFields
    rw [String.toList_ofList]
    apply List.splitOn_intercalate
    · intro characters member
      obtain ⟨field, present, rfl⟩ := List.mem_map.mp member
      exact free field present
    · simpa using nonempty
  have pieces := (split left leftSome leftFree).symm.trans
    ((congrArg (fun text : String => text.toList.splitOn nul) same).trans
      (split right rightSome rightFree))
  exact List.map_injective_iff.mpr
    (fun _ _ equal => String.toList_inj.mp equal) pieces

theorem nul_not_mem_of_printable
    {text : String}
    (printable : text.toList.any isControl = false) :
    nul ∉ text.toList := by
  intro member
  rw [List.any_eq_false] at printable
  exact printable nul member (by decide)

theorem component_of_valid
    {value : String}
    (valid : (validateComponent value).isOk = true) :
    value ≠ "" ∧ nul ∉ value.toList := by
  unfold validateComponent at valid
  split at valid
  · cases valid
  · next fine =>
      simp only [not_or, Bool.not_eq_true] at fine
      exact ⟨fine.1, nul_not_mem_of_printable fine.2.2.2.2.2⟩

theorem repoId_of_valid
    {repoId : String}
    (valid : (validateRepoId repoId).isOk = true) :
    repoId ≠ "" ∧ nul ∉ repoId.toList := by
  have whole := joinPath_splitPath repoId
  unfold validateRepoId at valid
  split at valid
  · next namespaceName name pieces =>
      split at valid
      · cases valid
      · rw [pieces, joinPath] at whole
        have text : repoId.toList =
            namespaceName.toList ++ '/' :: name.toList := by
          rw [← whole]
          simp [List.intercalate]
        have parts : (validateComponent namespaceName).isOk = true ∧
            (validateComponent name).isOk = true := by
          cases first : validateComponent namespaceName with
          | error error =>
              rw [first] at valid
              cases valid
          | ok _ =>
              cases second : validateComponent name with
              | error error =>
                  rw [first, second] at valid
                  cases valid
              | ok _ => exact ⟨rfl, rfl⟩
        have left := component_of_valid parts.1
        have right := component_of_valid parts.2
        constructor
        · rintro rfl
          simp at text
        · rw [text, List.mem_append, List.mem_cons]
          rintro (inLeft | slash | inRight)
          · exact left.2 inLeft
          · exact absurd slash (by decide)
          · exact right.2 inRight
  · cases valid

/-- A principal as the authentication makes it: no field can hold the
separator, and a login is not empty. -/
def PrincipalView.Trusted (principal : PrincipalView) : Prop :=
  nul ∉ principal.authMethod.toList ∧
    ∀ login ∈ principal.login, login ≠ "" ∧ nul ∉ login.toList

/-- What a key belongs to. -/
structure ExactRequest where
  subject : Subject
  authMethod : String
  login : Option String
  deriving DecidableEq

def exactRequest
    (request : JobRequest)
    (selection : FileSelection)
    (principal : PrincipalView) :
    ExactRequest :=
  ⟨request.subject selection, principal.authMethod, principal.login⟩

/-- The target of a request that was accepted: an audit has none. -/
structure Targeted (request : JobRequest) : Prop where
  audit : request.kind = .audit →
    request.repoId = none ∧ request.revision = none
  other : request.kind ≠ .audit → ∃ repoId revision,
    request.repoId = some repoId ∧ request.revision = some revision ∧
      (repoId ≠ "" ∧ nul ∉ repoId.toList) ∧
        (revision ≠ "" ∧ nul ∉ revision.toList)

theorem targeted_of_valid
    {request : JobRequest}
    {selection : FileSelection}
    (valid : validateJobRequest request = .ok selection) :
    Targeted request := by
  unfold validateJobRequest at valid
  constructor
  · intro audit
    rw [audit] at valid
    dsimp only at valid
    split at valid
    · cases valid
    · next plain =>
        simp only [not_or, Bool.not_eq_true, Option.isSome_eq_false_iff,
          Option.isNone_iff_eq_none] at plain
        exact plain
  · intro other
    have target : ∃ repoId revision, request.repoId = some repoId ∧
        request.revision = some revision ∧
          (validateRepoId repoId).isOk = true ∧
            (validateComponent revision).isOk = true := by
      cases kind : request.kind
      case audit => exact absurd kind other
      all_goals
        rw [kind] at valid
        dsimp only at valid
        cases named : request.repoId with
        | none =>
            rw [named] at valid
            cases valid
        | some repoId =>
            cases revised : request.revision with
            | none =>
                rw [named, revised] at valid
                cases valid
            | some revision =>
                rw [named, revised] at valid
                dsimp only at valid
                split at valid
                · cases valid
                · next fine =>
                    simp only [not_or, Bool.not_eq_false] at fine
                    exact ⟨repoId, revision, rfl, rfl, fine⟩
    obtain ⟨repoId, revision, named, revised, fine⟩ := target
    exact ⟨repoId, revision, named, revised, repoId_of_valid fine.1,
      component_of_valid fine.2⟩

theorem mem_intercalate
    {separator character : Char}
    {pieces : List (List Char)}
    (member : character ∈ [separator].intercalate pieces) :
    character = separator ∨ ∃ piece ∈ pieces, character ∈ piece := by
  induction pieces with
  | nil => simp at member
  | cons piece pieces inductionHypothesis =>
      cases pieces with
      | nil =>
          rw [List.intercalate_singleton] at member
          exact Or.inr ⟨piece, List.mem_cons_self .., member⟩
      | cons next rest =>
          rw [List.intercalate_cons_cons, List.mem_append, List.mem_append,
            List.mem_singleton] at member
          rcases member with (here | same) | later
          · exact Or.inr ⟨piece, List.mem_cons_self .., here⟩
          · exact Or.inl same
          · rcases inductionHypothesis later with same | ⟨found, there, inside⟩
            · exact Or.inl same
            · exact Or.inr ⟨found, List.mem_cons_of_mem _ there, inside⟩

theorem nul_not_mem_selectionText (selection : FileSelection) :
    nul ∉ (selectionText selection).toList := by
  have safe : ∀ pattern, isSafeSelectionPattern pattern = true →
      nul ∉ pattern.toList := fun pattern safe =>
    nul_not_mem_of_printable (safe_characters safe).2.2.2
  have entries : ∀ entry ∈ selection.identity, nul ∉ entry.toList := by
    intro entry member
    unfold FileSelection.identity selectionIdentity at member
    split at member
    · exact safe entry (selection.includedSafe entry member)
    · rcases List.mem_append.mp member with included | excluded
      · exact safe entry (selection.includedSafe entry included)
      · obtain ⟨pattern, inside, rfl⟩ := List.mem_map.mp excluded
        have apart := safe pattern (selection.excludedSafe pattern inside)
        intro found
        rw [String.toList_append, List.mem_append] at found
        rcases found with mark | found
        · exact absurd mark (by decide)
        · exact apart found
  unfold selectionText
  rw [String.toList_ofList]
  intro member
  rcases mem_intercalate member with same | ⟨characters, inside, found⟩
  · exact absurd same (by decide)
  · obtain ⟨entry, present, rfl⟩ := List.mem_map.mp inside
    exact entries entry present found

section texts

variable {request other : JobRequest} {selection otherSelection : FileSelection}
  {principal otherPrincipal : PrincipalView}

/-- The fields that every hashed text has at its end. -/
theorem nul_not_mem_fields
    (targeted : Targeted request)
    (trusted : principal.Trusted) :
    nul ∉ request.kind.display.toList ∧
      nul ∉ request.repoType.display.toList ∧
      nul ∉ (request.repoId.getD "").toList ∧
      nul ∉ (request.revision.getD "").toList ∧
      nul ∉ principal.authMethod.toList ∧
      nul ∉ (principal.login.getD "").toList := by
  have blank : nul ∉ "".toList := by decide
  refine ⟨?_, ?_, ?_, ?_, trusted.1, ?_⟩
  · cases request.kind <;> decide
  · cases request.repoType <;> decide
  · by_cases audit : request.kind = .audit
    · rw [(targeted.audit audit).1]
      exact blank
    · obtain ⟨repoId, revision, named, _, fine, _⟩ := targeted.other audit
      rw [named]
      exact fine.2
  · by_cases audit : request.kind = .audit
    · rw [(targeted.audit audit).2]
      exact blank
    · obtain ⟨repoId, revision, _, revised, _, fine⟩ := targeted.other audit
      rw [revised]
      exact fine.2
  · cases login : principal.login with
    | none => exact blank
    | some name => exact (trusted.2 name login).2

theorem nul_not_mem_requestFields
    (targeted : Targeted request)
    (trusted : principal.Trusted) :
    ∀ field ∈ requestFields request selection principal,
      nul ∉ field.toList := by
  obtain ⟨kind, repoType, repoId, revision, authMethod, login⟩ :=
    nul_not_mem_fields targeted trusted
  intro field member
  unfold requestFields at member
  rcases List.mem_append.mp member with first | last
  · simp only [List.mem_cons, List.not_mem_nil, or_false] at first
    rcases first with rfl | rfl | rfl | rfl | rfl | rfl
    · exact kind
    · exact repoType
    · exact repoId
    · exact revision
    · exact authMethod
    · exact login
  · split at last
    · cases last
    · rw [List.mem_singleton] at last
      rw [last]
      exact nul_not_mem_selectionText selection

theorem nul_not_mem_legacyFields
    (targeted : Targeted request)
    (trusted : principal.Trusted) :
    ∀ field ∈ legacyFields request principal, nul ∉ field.toList := by
  obtain ⟨kind, _, repoId, revision, authMethod, login⟩ :=
    nul_not_mem_fields targeted trusted
  intro field member
  simp only [legacyFields, List.mem_cons, List.not_mem_nil, or_false]
    at member
  rcases member with rfl | rfl | rfl | rfl | rfl
  · exact kind
  · exact repoId
  · exact revision
  · exact authMethod
  · exact login

theorem getD_injective
    {left right : Option String}
    (leftSome : ∀ value ∈ left, value ≠ "")
    (rightSome : ∀ value ∈ right, value ≠ "")
    (same : left.getD "" = right.getD "") :
    left = right := by
  cases left with
  | none =>
      cases right with
      | none => rfl
      | some value => exact absurd same.symm (rightSome value rfl)
  | some value =>
      cases right with
      | none => exact absurd same (leftSome value rfl)
      | some other => exact congrArg some same

theorem Targeted.nonempty
    (targeted : Targeted request) :
    (∀ value ∈ request.repoId, value ≠ "") ∧
      ∀ value ∈ request.revision, value ≠ "" := by
  by_cases audit : request.kind = .audit
  · rw [(targeted.audit audit).1, (targeted.audit audit).2]
    simp
  · obtain ⟨repoId, revision, named, revised, fine, fineRevision⟩ :=
      targeted.other audit
    rw [named, revised]
    constructor
    · rintro _ ⟨⟩
      exact fine.1
    · rintro _ ⟨⟩
      exact fineRevision.1

theorem selectionText_injective
    (same : selectionText selection = selectionText otherSelection) :
    selection = otherSelection := by
  apply FileSelection.identity_injective
  apply joined_injective (fun _ => identity_entries selection)
    (fun _ => identity_entries otherSelection)
  simpa [selectionText] using congrArg String.toList same

/-- The hashed text says exactly what was asked, and by whom. -/
theorem exactRequest_of_text
    (targeted : Targeted request)
    (otherTargeted : Targeted other)
    (trusted : principal.Trusted)
    (otherTrusted : otherPrincipal.Trusted)
    (same : joinFields (requestFields request selection principal) =
      joinFields (requestFields other otherSelection otherPrincipal)) :
    exactRequest request selection principal =
      exactRequest other otherSelection otherPrincipal := by
  have fields := joinFields_injective (by simp [requestFields])
    (by simp [requestFields])
    (nul_not_mem_requestFields targeted trusted)
    (nul_not_mem_requestFields otherTargeted otherTrusted) same
  unfold requestFields at fields
  simp only [List.cons_append, List.nil_append, List.cons.injEq] at fields
  obtain ⟨kind, repoType, repoId, revision, authMethod, login, rest⟩ :=
    fields
  have kinds : request.kind = other.kind := by
    revert kind
    cases request.kind <;> cases other.kind <;> decide
  have types : request.repoType = other.repoType := by
    revert repoType
    cases request.repoType <;> cases other.repoType <;> decide
  have ids := getD_injective targeted.nonempty.1 otherTargeted.nonempty.1
    repoId
  have revisions := getD_injective targeted.nonempty.2
    otherTargeted.nonempty.2 revision
  have logins := getD_injective (fun value member =>
    (trusted.2 value member).1) (fun value member =>
      (otherTrusted.2 value member).1) login
  have selections : selection = otherSelection := by
    have empty : ∀ chosen : FileSelection, chosen.isUnrestricted = true →
        chosen.included = [] ∧ chosen.excluded = [] := by
      intro chosen unrestricted
      simpa [FileSelection.isUnrestricted] using unrestricted
    split at rest <;> split at rest
    · next left right =>
        obtain ⟨included, excluded⟩ := empty _ left
        obtain ⟨otherIncluded, otherExcluded⟩ := empty _ right
        exact FileSelection.ext (included.trans otherIncluded.symm)
          (excluded.trans otherExcluded.symm)
    · cases rest
    · cases rest
    · exact selectionText_injective (List.cons.inj rest).1
  unfold exactRequest JobRequest.subject
  rw [kinds, types, ids, revisions, selections, authMethod, logins]

/-- A text from before datasets and selections is never one of today's. -/
theorem legacy_ne_text
    (targeted : Targeted request)
    (otherTargeted : Targeted other)
    (trusted : principal.Trusted)
    (otherTrusted : otherPrincipal.Trusted) :
    joinFields (legacyFields request principal) ≠
      joinFields (requestFields other otherSelection otherPrincipal) := by
  intro same
  have fields := joinFields_injective (by simp [legacyFields])
    (by simp [requestFields]) (nul_not_mem_legacyFields targeted trusted)
    (nul_not_mem_requestFields otherTargeted otherTrusted) same
  have lengths := congrArg List.length fields
  simp only [legacyFields, requestFields, List.length_append,
    List.length_cons, List.length_nil] at lengths
  omega

end texts

/-! ## Runs that record every key they answer -/

/-- A request that can be accepted from this principal. -/
structure Accepted
    (request : JobRequest)
    (selection : FileSelection)
    (principal : PrincipalView) :
    Prop where
  valid : validateJobRequest request = .ok selection
  trusted : principal.Trusted

/-- The hash is that of a request that was accepted. -/
def HashOfAccepted (digest : String → String) (requestHash : String) : Prop :=
  ∃ request selection principal, Accepted request selection principal ∧
    requestHash = hashIdempotencyRequest digest request selection principal

/-- The record of the answered job holds the key and the request. -/
structure Owns
    (digest : String → String)
    (records : Records)
    (answer : Answer)
    (key : String) :
    Prop where
  legible : hashIdempotencyKey digest key = .ok (digest key)
  owned : ∃ selection job,
    Accepted answer.request selection answer.principal ∧
    records answer.job.id = some job ∧
    job.idempotencyHash = some (digest key) ∧
    job.idempotencyRequestHash = some (hashIdempotencyRequest digest
      answer.request selection answer.principal)

/-- Every request hash on record is of an accepted request, and every key that
was answered is recorded with the request it was answered for. -/
structure Keyed
    (digest : String → String)
    (answers : List Answer)
    (records : Records) :
    Prop where
  hashes : ∀ id job, records id = some job →
    ∀ requestHash, job.idempotencyRequestHash = some requestHash →
      HashOfAccepted digest requestHash
  answered : ∀ answer ∈ answers, ∀ key, answer.key = some key →
    Owns digest records answer key

/-- Principals come from the authentication. -/
def Operation.Authentic : Operation → Prop
  | .submit _ _ principal => principal.Trusted
  | _ => True

def Service.Label.Authentic : Service.Label → Prop
  | .operate operation => operation.Authentic
  | .crash operation => operation.Authentic
  | _ => True

/-- The index knows the key, and the record it names is there. -/
def Indexes
    (digest : String → String)
    (files : JobFiles)
    (key : String) :
    Prop :=
  ∃ entry synced job,
    files.lookup (.idempotency (digest key)) =
      some ⟨some (.entry entry), synced⟩ ∧
    durable files entry.jobId = some job

/-- No submission under a key that the index does not know meets an active
job that is equivalent. -/
def Service.Label.Careful
    (digest : String → String)
    (s : Service) :
    Service.Label → Prop
  | .operate (.submit request (some key) _) =>
      Indexes digest s.files key ∨
        ∀ jobs selection, s.jobs = some jobs →
          validateJobRequest request = .ok selection →
          ∀ id job, jobs.lookup id = some job →
            job.subject ≠ request.subject selection
  | _ => True

/-- A run of steps that never answer an unknown key from another job. -/
def Service.CarefullyReachable
    (digest : String → String)
    (s : Service) :
    Prop :=
  Relation.ReflTransGen
    (fun before after => ∃ label, Service.Step digest label before after ∧
      label.Authentic ∧ label.Careful digest before)
    Service.empty s

section keyed

variable {digest : String → String} {s t : Service} {ledger later : Ledger}
  {request : JobRequest} {selection : FileSelection}
  {principal : PrincipalView}

/-- Two accepted requests with one hash are the same. -/
theorem Accepted.exact
    {other : JobRequest}
    {otherSelection : FileSelection}
    {otherPrincipal : PrincipalView}
    (injective : Function.Injective digest)
    (accepted : Accepted request selection principal)
    (also : Accepted other otherSelection otherPrincipal)
    (same : hashIdempotencyRequest digest request selection principal =
      hashIdempotencyRequest digest other otherSelection otherPrincipal) :
    exactRequest request selection principal =
      exactRequest other otherSelection otherPrincipal :=
  exactRequest_of_text (targeted_of_valid accepted.valid)
    (targeted_of_valid also.valid) accepted.trusted also.trusted
    (injective same)

/-- An entry that today's program wrote matches by today's text. -/
theorem Accepted.matches_iff
    {requestHash : String}
    (injective : Function.Injective digest)
    (accepted : Accepted request selection principal)
    (known : HashOfAccepted digest requestHash) :
    Matches digest request selection principal requestHash ↔
      requestHash =
        hashIdempotencyRequest digest request selection principal := by
  refine ⟨?_, Or.inl⟩
  rintro (same | ⟨_, _, legacy⟩)
  · exact same
  · obtain ⟨other, otherSelection, otherPrincipal, also, rfl⟩ := known
    exact absurd (injective legacy).symm
      (legacy_ne_text (targeted_of_valid accepted.valid)
        (targeted_of_valid also.valid) accepted.trusted also.trusted)

/-- A keyed submission hashes its key. -/
theorem hash_of_key
    {key : String}
    {hash : Option String}
    (hashed : (some key).mapM (hashIdempotencyKey digest) = .ok hash) :
    hashIdempotencyKey digest key = .ok (digest key) ∧
      hash = some (digest key) := by
  have legible : hashIdempotencyKey digest key = .ok (digest key) ∨
      ∃ error, hashIdempotencyKey digest key = .error error := by
    unfold hashIdempotencyKey
    split
    · exact Or.inr ⟨_, rfl⟩
    · exact Or.inl rfl
  rcases legible with legible | ⟨error, illegible⟩
  · rw [Option.mapM_some, legible] at hashed
    cases hashed
    exact ⟨legible, rfl⟩
  · rw [Option.mapM_some, illegible] at hashed
    cases hashed

theorem Owns.continues
    {fresh : Job → Prop}
    {answer : Answer}
    {key : String}
    (owns : Owns digest ledger.record answer key)
    (continues : Continues fresh ledger.record later.record) :
    Owns digest later.record answer key := by
  obtain ⟨legible, selection, job, accepted, found, keyed, requested⟩ := owns
  obtain ⟨next, there, same⟩ := continues.kept _ job found
  refine ⟨legible, selection, next, accepted, there, ?_, ?_⟩
  · exact (congrArg Job.Identity.idempotencyHash same).trans keyed
  · exact (congrArg Job.Identity.idempotencyRequestHash same).trans requested

/-- A new record has the hash of the request it was made for. -/
theorem hashOfAccepted_of_made
    {label : Service.Label}
    {job : Job}
    {requestHash : String}
    (authentic : label.Authentic)
    (made : label.MayMake digest job)
    (requested : job.idempotencyRequestHash = some requestHash) :
    HashOfAccepted digest requestHash := by
  have fromSubmission : ∀ operation : Operation, operation.Authentic →
      operation.MayMake digest job → HashOfAccepted digest requestHash := by
    intro operation authentic made
    cases operation with
    | submit request key principal =>
        obtain ⟨selection, hash, id, now, valid, _, rfl⟩ := made
        refine ⟨request, selection, principal, ⟨valid, authentic⟩, ?_⟩
        obtain ⟨_, _, same⟩ := Option.map_eq_some_iff.mp requested
        exact same.symm
    | _ => exact made.elim
  cases label with
  | operate operation => exact fromSubmission operation authentic made
  | crash operation => exact fromSubmission operation authentic made
  | _ => exact made.elim

theorem hashes_of_continues
    {label : Service.Label}
    {records next : Records}
    (authentic : label.Authentic)
    (hashes : ∀ id job, records id = some job →
      ∀ requestHash, job.idempotencyRequestHash = some requestHash →
        HashOfAccepted digest requestHash)
    (continues : Continues (label.MayMake digest) records next) :
    ∀ id job, next id = some job →
      ∀ requestHash, job.idempotencyRequestHash = some requestHash →
        HashOfAccepted digest requestHash := by
  intro id job found requestHash requested
  rcases continues.since id job found with ⟨old, before, same⟩ | ⟨new, made, same⟩
  · refine hashes id old before requestHash ?_
    exact (congrArg Job.Identity.idempotencyRequestHash same).symm.trans
      requested
  · refine hashOfAccepted_of_made authentic made ?_
    exact (congrArg Job.Identity.idempotencyRequestHash same).symm.trans
      requested

/-- What the index knows is not unknown. -/
theorem Unknown.not_indexes
    {key : String}
    (unknown : Unknown ledger (some (digest key)) later)
    (shows : Shows s.files ledger) :
    ¬Indexes digest s.files key := by
  rintro ⟨entry, synced, job, present, found⟩
  rw [shows.durable] at found
  have written := shows.entry (digest key)
  rw [present] at written
  cases unknown with
  | absent digits free =>
      rw [free] at written
      cases written
  | lost known missing =>
      rw [known] at written
      cases written
      rw [missing] at found
      cases found

/-- A keyed submission of a careful run is answered with the job that has its
key. -/
theorem owns_of_answers
    {jobs : ActiveJobs}
    {operation : Operation}
    {answer : Answer}
    {key : String}
    (injective : Function.Injective digest)
    (stands : s.Stands ledger)
    (keyed : Keyed digest s.answers ledger.record)
    (up : s.jobs = some jobs)
    (authentic : operation.Authentic)
    (careful : (Service.Label.operate operation).Careful digest s)
    (answers : operation.Answers digest ledger jobs answer later)
    (under : answer.key = some key) :
    Owns digest later.record answer key := by
  obtain ⟨request, named, principal, job⟩ := answer
  obtain ⟨rfl, created, submitted⟩ := answers
  cases under
  dsimp only at submitted
  cases submitted with
  | repeated valid hashed indexed =>
      obtain ⟨legible, rfl⟩ := hash_of_key hashed
      have accepted : Accepted request _ principal := ⟨valid, authentic⟩
      cases indexed with
      | repeated found record same =>
          have named := stands.sound.named _ _ record
          obtain ⟨own, requested⟩ := (stands.sound.ready _ _ record).owned _ _
            found named.symm
          have known := keyed.hashes _ _ record _ requested
          have exact := (accepted.matches_iff injective known).mp same
          refine ⟨legible, _, _, accepted, ?_, own, exact ▸ requested⟩
          rw [named]
          exact record
  | placed valid hashed unknown placed =>
      obtain ⟨legible, rfl⟩ := hash_of_key hashed
      cases placed with
      | equivalent active same =>
          rcases careful with known | apart
          · exact absurd known (unknown.not_indexes stands.shows)
          · exact absurd same (apart jobs _ up valid _ _ active)
      | created apart free =>
          exact ⟨legible, _, _, ⟨valid, authentic⟩,
            Ledger.record_enrol_self .., rfl, rfl⟩

theorem Service.Step.keyed
    {label : Service.Label}
    (injective : Function.Injective digest)
    (step : Service.Step digest label s t)
    (authentic : label.Authentic)
    (careful : label.Careful digest s)
    (stands : s.Stands ledger)
    (keyed : Keyed digest s.answers ledger.record) :
    ∃ later, t.Stands later ∧ Keyed digest t.answers later.record := by
  obtain ⟨later, there, continues, answers⟩ := step.stands stands
  refine ⟨later, there,
    hashes_of_continues authentic keyed.hashes continues, ?_⟩
  intro answer member key under
  rcases answers answer member with old | ⟨jobs, operation, up, rfl, new⟩
  · exact (keyed.answered answer old key under).continues continues
  · exact owns_of_answers injective stands keyed up authentic careful new
      under

theorem Service.CarefullyReachable.keyed
    (injective : Function.Injective digest)
    (reachable : Service.CarefullyReachable digest s) :
    ∃ ledger, s.Stands ledger ∧ Keyed digest s.answers ledger.record := by
  induction reachable with
  | refl =>
      exact ⟨_, Service.empty_stands, by simp [Ledger.blank],
        by simp [Service.empty]⟩
  | tail _ step inductionHypothesis =>
      obtain ⟨ledger, stands, keyed⟩ := inductionHypothesis
      obtain ⟨label, step, authentic, careful⟩ := step
      exact step.keyed injective authentic careful stands keyed

/-- A key whose entry does not match is refused, and nothing is written. -/
theorem settles_conflict
    {fresh : Job → Prop}
    {origin : Records}
    {start : JobFiles}
    {jobs : ActiveJobs}
    {key : String}
    {entry : IdempotencyEntry}
    {existing : Job}
    (here : At (Continues fresh origin) start ledger)
    (valid : validateJobRequest request = .ok selection)
    (legible : hashIdempotencyKey digest key = .ok (digest key))
    (found : ledger.entry (digest key) = some entry)
    (record : ledger.record entry.jobId = some existing)
    (different :
      ¬Matches digest request selection principal entry.requestHash) :
    Settles Healthy (submit digest jobs request (some key) principal).run
      start (.error "idempotency_conflict") start := by
  have digits := (here.sound.entries _ entry found).1
  have reads : Settles Healthy (readIdempotency (digest key)).run start
      (.ok (some entry)) start := by
    apply settles_of_looks looks_readIdempotency
    intro answer final run
    obtain ⟨_, same, ⟨illegible, _⟩ | ⟨_, answered⟩⟩ :=
      (guards_readIdempotency here).of_runs run
    · rw [digits] at illegible
      cases illegible
    · exact ⟨answered.trans (congrArg _ found), same⟩
  have keyed : (some key).mapM (hashIdempotencyKey digest) =
      .ok (some (digest key)) := by
    simp [legible]
  have refuses : ∀ outcome final, Returns Healthy
      (submitIndexed digest request selection principal (digest key)) start
        outcome final ↔
      outcome = .error "idempotency_conflict" ∧ final = start := by
    intro outcome final
    unfold submitIndexed
    rw [returns_always_of reads, returns_always_of
      (settles_readJob here record)]
    dsimp only
    rw [Matches] at different
    rw [if_neg different]
    exact Iff.rfl
  intro outcome final
  change Returns Healthy (submit digest jobs request (some key) principal)
    start outcome final ↔ _
  unfold submit
  rw [valid, returns_check_bind, keyed, returns_check_bind]
  dsimp only
  rw [returns_bind]
  constructor
  · rintro (⟨error, rfl, failed⟩ | ⟨value, middle, succeeded, _⟩)
    · obtain ⟨same, rfl⟩ := (refuses _ _).mp failed
      cases same
      exact ⟨rfl, rfl⟩
    · cases ((refuses _ _).mp succeeded).1
  · rintro ⟨rfl, rfl⟩
    exact Or.inl ⟨_, rfl, (refuses _ _).mpr ⟨rfl, rfl⟩⟩

/-- What the keys of a run stand for. -/
structure OneJob (digest : String → String) (s : Service) : Prop where
  same : ∀ first ∈ s.answers, ∀ second ∈ s.answers, ∀ key,
    first.key = some key → second.key = some key →
      first.job.id = second.job.id
  refused : ∀ answer ∈ s.answers, ∀ key, answer.key = some key →
    ∃ answered, validateJobRequest answer.request = .ok answered ∧
      ∀ jobs, s.jobs = some jobs → ∀ request selection principal,
        Accepted request selection principal →
        exactRequest request selection principal ≠
          exactRequest answer.request answered answer.principal →
        Settles Healthy (submit digest jobs request (some key) principal).run
          s.files (.error "idempotency_conflict") s.files
  apart : ∀ first second one other,
    durable s.files first = some one → durable s.files second = some other →
    one.state.isActive = true → other.state.isActive = true →
    one.subject = other.subject → first = second

theorem Keyed.oneJob
    (injective : Function.Injective digest)
    (stands : s.Stands ledger)
    (keyed : Keyed digest s.answers ledger.record) :
    OneJob digest s := by
  have indexed : ∀ answer ∈ s.answers, ∀ key, answer.key = some key →
      hashIdempotencyKey digest key = .ok (digest key) ∧
      ∃ selection job, Accepted answer.request selection answer.principal ∧
        ledger.record answer.job.id = some job ∧
        ledger.entry (digest key) = some ⟨answer.job.id,
          hashIdempotencyRequest digest answer.request selection
            answer.principal⟩ := by
    intro answer member key under
    obtain ⟨legible, selection, job, accepted, found, own, requested⟩ :=
      keyed.answered answer member key under
    obtain ⟨requestHash, also, _, entry⟩ :=
      (stands.sound.ready _ job found).indexed _ own
    cases requested.symm.trans also
    rw [stands.sound.named _ job found] at entry
    exact ⟨legible, selection, job, accepted, found, entry⟩
  refine ⟨?_, ?_, ?_⟩
  · intro first member second memberSecond key under underSecond
    obtain ⟨_, _, _, _, _, entry⟩ := indexed first member key under
    obtain ⟨_, _, _, _, _, entrySecond⟩ :=
      indexed second memberSecond key underSecond
    have entries := Option.some.inj (entry.symm.trans entrySecond)
    exact congrArg IdempotencyEntry.jobId entries
  · intro answer member key under
    obtain ⟨legible, answered, job, was, found, entry⟩ :=
      indexed answer member key under
    refine ⟨answered, was.valid, ?_⟩
    intro jobs up request selection principal accepted different
    refine settles_conflict (stands.at (Continues.refl (fun _ => False) _))
      accepted.valid legible entry found ?_
    intro same
    have known : HashOfAccepted digest (hashIdempotencyRequest digest
        answer.request answered answer.principal) := ⟨_, _, _, was, rfl⟩
    exact different (accepted.exact injective was
      ((accepted.matches_iff injective known).mp same).symm)
  · intro first second one other found foundOther active activeOther equal
    rw [stands.shows.durable] at found foundOther
    exact stands.sound.distinct first second one other found foundOther active
      activeOther equal

/-- In every run that never answers an unknown key from an equivalent job, a
key names one job. -/
theorem oneJob_of_careful
    (injective : Function.Injective digest)
    (reachable : Service.CarefullyReachable digest s) :
    OneJob digest s := by
  obtain ⟨ledger, stands, keyed⟩ := reachable.keyed injective
  exact keyed.oneJob injective stands

end keyed

namespace Sample

section runs

variable {digest : String → String} {s t : Service}

/-- One operation with the answers of the sample. -/
def operate
    (digest : String → String)
    (s : Service)
    (operation : Operation) :
    Option Service := do
  let jobs ← s.jobs
  let (result, files) ←
    (operation.program digest jobs).trace answer allowed s.files
  return ⟨some result.1, files, result.2.toList ++ s.answers⟩

theorem step_of_operate
    {operation : Operation}
    (operated : operate digest s operation = some t) :
    Service.Step digest (.operate operation) s t := by
  obtain ⟨jobs, up, rest⟩ := Option.bind_eq_some_iff.mp operated
  obtain ⟨⟨result, files⟩, traced, ends⟩ := Option.bind_eq_some_iff.mp rest
  cases ends
  exact .operate up (runs_of_trace answers traced)

/-- Steps of the sample, and what each of them must meet. -/
theorem reachable_of_operate
    {allows : Service → Service.Label → Prop}
    {operations : List Operation}
    (fine : ∀ before operation, operation ∈ operations →
      allows before (.operate operation))
    (operated : operations.foldlM (operate digest) s = some t) :
    Relation.ReflTransGen
      (fun before after => ∃ label, Service.Step digest label before after ∧
        allows before label) s t := by
  induction operations generalizing s with
  | nil =>
      cases operated
      exact .refl
  | cons operation operations inductionHypothesis =>
      rw [List.foldlM_cons] at operated
      obtain ⟨middle, first, rest⟩ := Option.bind_eq_some_iff.mp operated
      exact .head ⟨_, step_of_operate first,
          fine s operation (List.mem_cons_self ..)⟩
        (inductionHypothesis (fun before other member =>
          fine before other (List.mem_cons_of_mem _ member)) rest)

end runs

/-- A digest that no two texts share; it has the digests of the key "k" and of
the audit. -/
def swapped : Equiv.Perm String :=
  (Equiv.swap "k"
    "8254c329a92850f6d539dd376f4816ee2764517da5e0235514af433164480d7a").trans
  (Equiv.swap (joinFields ["Audit", "model", "", "", "bearer", ""])
    "71089d559086dcb9b10b8d948ac31b1ec86a11ffce4328360f0c62cd92a55c86")

theorem bearer_trusted : bearer.Trusted := by
  refine ⟨by decide, ?_⟩
  rintro login ⟨⟩

/-- An audit without a key is running when the key is used, and is over when
the key is used again. -/
def retries : List Operation :=
  [.submit audit none bearer, .submit audit (some "k") bearer, .start "a",
    .finish "a" (.ok (none, none)), .submit audit (some "k") bearer]

/-- The service after these operations. -/
def retried : Option Service := retries.foldlM (operate swapped) up

theorem retried_answers :
    retried.map (fun s => s.answers.map fun answer =>
      (answer.key, answer.job.id)) =
      some [(some "k", "b"), (some "k", "a"), (none, "a")] := by
  decide +kernel

/-- A key that was answered from an equivalent job names another job once that
job is over. -/
theorem key_with_two_jobs :
    ∃ digest, Function.Injective digest ∧ ∃ s,
      Relation.ReflTransGen
        (fun before after => ∃ label,
          Service.Step digest label before after ∧ label.Authentic)
        Service.empty s ∧
      ∃ first ∈ s.answers, ∃ second ∈ s.answers,
        first.key = some "k" ∧ second.key = some "k" ∧
          first.job.id ≠ second.job.id := by
  have ends := retried_answers
  obtain ⟨s, run⟩ : ∃ s, retried = some s := by
    cases run : retried with
    | none =>
        rw [run] at ends
        cases ends
    | some s => exact ⟨s, rfl⟩
  rw [run, Option.map_some] at ends
  have authentic : ∀ (before : Service) operation, operation ∈ retries →
      (Service.Label.operate operation).Authentic := by
    intro before operation member
    simp only [retries, List.mem_cons, List.not_mem_nil, or_false] at member
    rcases member with rfl | rfl | rfl | rfl | rfl
    · exact bearer_trusted
    · exact bearer_trusted
    · trivial
    · trivial
    · exact bearer_trusted
  refine ⟨swapped, swapped.injective, s,
    .head ⟨.reopen, .reopen rfl opens, trivial⟩
      (reachable_of_operate authentic run), ?_⟩
  have answered : ∀ id, (some "k", id) ∈
      [(some "k", "b"), (some "k", "a"), (none, "a")] →
      ∃ answer ∈ s.answers, answer.key = some "k" ∧ answer.job.id = id := by
    intro id member
    rw [← Option.some.inj ends] at member
    obtain ⟨answer, inside, same⟩ := List.mem_map.mp member
    exact ⟨answer, inside, congrArg Prod.fst same, congrArg Prod.snd same⟩
  obtain ⟨first, inside, key, id⟩ := answered "a" (by simp)
  obtain ⟨last, insideLast, keyLast, idLast⟩ := answered "b" (by simp)
  refine ⟨first, inside, last, insideLast, key, keyLast, ?_⟩
  rw [id, idLast]
  decide

/-- An audit that is submitted under a key while nothing runs. -/
theorem oneJob_of_keyed_audit :
    ∃ s, Service.CarefullyReachable swapped s ∧ s.answers.length = 1 ∧
      OneJob swapped s := by
  obtain ⟨s, run⟩ : ∃ s,
      operate swapped up (.submit audit (some "k") bearer) = some s :=
    Option.isSome_iff_exists.mp (by decide +kernel)
  have answered : (operate swapped up
      (.submit audit (some "k") bearer)).map (fun s => s.answers.length) =
        some 1 := by
    decide +kernel
  rw [run] at answered
  have careful : (Service.Label.operate
      (.submit audit (some "k") bearer)).Careful swapped up := by
    refine Or.inr ?_
    rintro _ _ ⟨⟩ _ id job found
    rw [Finmap.lookup_empty] at found
    cases found
  have reachable : Service.CarefullyReachable swapped s :=
    (Relation.ReflTransGen.single
      ⟨.reopen, .reopen rfl opens, trivial, trivial⟩).tail
      ⟨_, step_of_operate run, bearer_trusted, careful⟩
  exact ⟨s, reachable, Option.some.inj answered,
    oneJob_of_careful swapped.injective reachable⟩

end Sample

end Jobs
end ModelKeep
