import ModelKeep.Http.Serving
import ModelKeep.ManifestText
import ModelKeep.Operations.Lasting

/-!
# Downloads that are taken up again

A client asks for the bytes of a file it does not have yet, as often as its
connection breaks.  Meanwhile the archive moves on: revisions are published,
extended and removed, and refs follow.  What arrives is always the next part of
one content, as long as the revision itself is not removed.
-/

namespace ModelKeep

/-- `resolve_file_for_type` in the directory of a repository. -/
def RepositoryDir.resolveFile
    (repoType : RepositoryType)
    (repoId commit path : String)
    (repository : RepositoryDir) :
    Except ArchiveError ResolvedFile := do
  validateRelativeFilePath path
  let _ ← validateRepoId repoId
  validateRevision commit
  match repository.revision commit with
  | none => .error (.io .notFound)
  | some revision => revision.resolveFile repoType path

/-- The file at a place below a revision. -/
def RepositoryDir.contentAt (commit : String) (place : List String)
    (repository : RepositoryDir) : Option Bytes :=
  match repository.revision commit with
  | none => none
  | some revision =>
      match revision.tree.lookup place with
      | some (.file content) => some content
      | _ => none

namespace Http

open Concurrency Relation

/-! ## While the archive moves on -/

section moments

variable
  {μ : Type}
  {step : μ → μ → Prop}
  {dir : μ → RepositoryDir}
  {repoType : RepositoryType}
  {repoId : String}

/-- Reading may fail. -/
def Reads {α : Type} (answer reply : Except ArchiveError α) : Prop :=
  reply = answer ∨ ∃ kind, reply = .error (.io kind)

/-- What a handler finds in a repository that moves on before each of its
steps.  An acquisition may come to anything. -/
def observes
    (step : μ → μ → Prop)
    (dir : μ → RepositoryDir)
    (repoType : RepositoryType)
    (repoId : String) :
    Semantics fileInterface μ
  | .resolveRef reference, before, reply, after =>
      ReflTransGen step before after ∧
        Reads (resolveRef repoId (dir after) reference) reply
  | .resolveFile commit path, before, reply, after =>
      ReflTransGen step before after ∧
        Reads ((dir after).resolveFile repoType repoId commit path) reply
  | .openFile commit place, before, reply, after =>
      ReflTransGen step before after ∧
        (reply = (dir after).contentAt commit place ∨ reply = none)
  | .ensureBounded _ _, before, _, after => ReflTransGen step before after

/-- What a client has of a file of the commit after any number of requests
for the rest.  Of an answer any first part may arrive. -/
inductive Downloads
    (step : μ → μ → Prop)
    (dir : μ → RepositoryDir)
    (repoType : RepositoryType)
    (repoId commit path : String)
    (start : μ) : μ → Bytes → Prop
  | begin : Downloads step dir repoType repoId commit path start start []
  | resume
      {before after : μ}
      {received sent : Bytes}
      {settings : FileSettings}
      {revision : String}
      {response : FileResponse}
      (earlier : Downloads step dir repoType repoId commit path start before
        received)
      (answered : Program.Runs (observes step dir repoType repoId)
        (fileResponse settings revision path (missing received.length) false)
        before (some (.ok (.file response))) after)
      (ofCommit : response.repoCommit = commit)
      (arrived : sent <+: response.body) :
      Downloads step dir repoType repoId commit path start after
        (received ++ sent)

/-- The archive has this content under the path from now on. -/
structure Holds
    (step : μ → μ → Prop)
    (dir : μ → RepositoryDir)
    (repoType : RepositoryType)
    (repoId commit path : String)
    (content : Bytes)
    (sha256 : String)
    (start : μ) :
    Prop where
  found : ∀ later, ReflTransGen step start later →
    (dir later).resolveFile repoType repoId commit path =
      .ok ⟨splitPath path, content.length, sha256⟩
  stands : ∀ later, ReflTransGen step start later →
    (dir later).contentAt commit (splitPath path) = some content

variable
  {commit path sha256 : String}
  {content received : Bytes}
  {start before after : μ}

theorem Holds.later
    (holds : Holds step dir repoType repoId commit path content sha256 start)
    (reaches : ReflTransGen step start after) :
    Holds step dir repoType repoId commit path content sha256 after :=
  ⟨fun last onward => holds.found last (reaches.trans onward),
    fun last onward => holds.stands last (reaches.trans onward)⟩

theorem reaches_of_passes
    (passes : Passes (observes step dir repoType repoId) before after) :
    ReflTransGen step before after := by
  induction passes with
  | refl => exact .refl
  | tail _ asked inductionHypothesis =>
      obtain ⟨op, reply, issued⟩ := asked
      apply inductionHypothesis.trans
      cases op with
      | resolveRef reference => exact issued.1
      | resolveFile commit path => exact issued.1
      | ensureBounded revision files => exact issued
      | openFile commit place => exact issued.1

/-- While a file is held, every answer about it is right. -/
theorem Holds.represents
    {settings : FileSettings}
    {revision : String}
    {headers : FileHeaders}
    {headOnly : Bool}
    {response : FileResponse}
    (holds : Holds step dir repoType repoId commit path content sha256
      before)
    (sized : content.length < 2 ^ 64)
    (answered : Program.Runs (observes step dir repoType repoId)
      (fileResponse settings revision path headers headOnly) before
      (some (.ok (.file response))) after)
    (ofCommit : response.repoCommit = commit) :
    ∃ range, Represents content sha256 commit headers headOnly range
      response := by
  obtain ⟨asked, resolved, middle, later, passed, issued, sent⟩ :=
    fileResponse_sends answered
  obtain rfl : asked = commit :=
    (repoCommit_of_sendFile sent).symm.trans ofCommit
  have holdsLater := holds.later ((reaches_of_passes passed).trans issued.1)
  have found : resolved = ⟨splitPath path, content.length, sha256⟩ := by
    rcases issued.2 with told | ⟨kind, failed⟩
    · rw [holdsLater.found later .refl] at told
      exact Except.ok.inj told
    · cases failed
  subst found
  refine sendFile_represents rfl sized ?_ sent
  rintro opened last ⟨reaches, told⟩
  rcases told with told | failed
  · rw [holdsLater.stands last reaches] at told
    exact Option.some.inj told
  · cases failed

/-- What has arrived is a first part of the content. -/
theorem Downloads.isPrefix
    (downloads : Downloads step dir repoType repoId commit path start after
      received)
    (holds : Holds step dir repoType repoId commit path content sha256 start)
    (sized : content.length < 2 ^ 64) :
    ReflTransGen step start after ∧ received <+: content := by
  induction downloads with
  | begin => exact ⟨.refl, List.nil_prefix⟩
  | resume earlier answered ofCommit arrived inductionHypothesis =>
      obtain ⟨reached, ⟨rest, whole⟩⟩ := inductionHypothesis
      refine ⟨reached.trans (reaches_of_passes (passes_of_runs answered)),
        ?_⟩
      obtain ⟨_, right⟩ := (holds.later reached).represents sized answered
        ofCommit
      have short := congrArg List.length whole
      rw [List.length_append] at short
      rw [right.continues sized (by omega), ← whole, List.drop_left]
        at arrived
      rw [← whole]
      exact (List.prefix_append_right_inj _).mpr arrived

/-- The rest can be had at any moment. -/
theorem Holds.continues
    (holds : Holds step dir repoType repoId commit path content sha256 start)
    (sized : content.length < 2 ^ 64)
    (etag : IsHeaderValue (etagOf sha256))
    (named : IsHeaderValue commit)
    (proper : isHfCommit commit = true)
    (external : isInternalArchivePath path = false)
    (begun : received <+: content)
    (unfinished : received ≠ content)
    (settings : FileSettings) :
    ∃ response, Program.Runs (observes step dir repoType repoId)
        (fileResponse settings commit path (missing received.length) false)
        start (some (.ok (.file response))) start ∧
      received ++ response.body = content ∧
      response.etag = etagOf sha256 ∧ response.repoCommit = commit := by
  have shorter : received.length < content.length := by
    refine lt_of_le_of_ne begun.length_le fun same => unfinished ?_
    exact begun.eq_of_length same
  have found : observes step dir repoType repoId (.resolveFile commit path)
      start (.ok ⟨splitPath path, content.length, sha256⟩) start :=
    ⟨.refl, Or.inl (holds.found start .refl).symm⟩
  have opens : observes step dir repoType repoId
      (.openFile commit (splitPath path)) start (some content) start :=
    ⟨.refl, Or.inl (holds.stands start .refl).symm⟩
  obtain ⟨response, sent⟩ : ∃ response,
      Program.Runs (observes step dir repoType repoId)
        (sendFile ⟨splitPath path, content.length, sha256⟩ commit
          (missing received.length) false)
        start (some (.ok (.file response))) start :=
    runs_sendFile_missing rfl sized etag named (Or.inr shorter) opens
  have answered : Program.Runs (observes step dir repoType repoId)
      (fileResponse settings commit path (missing received.length) false)
      start (some (.ok (.file response))) start :=
    runs_fileResponse_of_commit external proper found sent
  obtain ⟨_, right⟩ := holds.represents sized answered
    (repoCommit_of_sendFile sent)
  refine ⟨response, answered, ?_, right.etag, right.repoCommit⟩
  rw [right.continues sized (by omega)]
  obtain ⟨rest, rfl⟩ := begun
  rw [List.drop_left]

end moments

/-! ## Headers of a file -/

theorem printable_of_quote
    {character : Char}
    (quote : character ∈ "\"".toList) :
    32 ≤ character.toNat ∧ character.toNat ≠ 127 :=
  of_decide_eq_true (List.all_eq_true.mp
    (show "\"".toList.all (fun character => decide (32 ≤ character.toNat ∧
      character.toNat ≠ 127)) = true by decide) character quote)

theorem isHeaderValue_etagOf_hexDigest (digest : Bytes) :
    IsHeaderValue (etagOf (hexDigest digest)) := by
  intro character member
  simp only [etagOf, String.toList_append, List.mem_append] at member
  right
  rcases member with (quote | digit) | quote
  · exact printable_of_quote quote
  · have code := code_of_hex (isHex_hexDigest digest character digit)
    omega
  · exact printable_of_quote quote

theorem isHeaderValue_of_isHfCommit
    {commit : String}
    (proper : isHfCommit commit = true) :
    IsHeaderValue commit := by
  intro character member
  unfold isHfCommit at proper
  rw [Bool.and_eq_true, List.all_eq_true] at proper
  have code := code_of_hex (proper.2 character member)
  right
  omega


/-! ## While calls run on the repository -/

open Operations

section calls

variable
  {ι : Type}
  [DecidableEq ι]
  {repoType : RepositoryType}
  {calls : ι → Call}

/-- What a client of the repository finds at a moment of a run. -/
def directory (moment : Moment ι) : RepositoryDir := moment.shared.dir

theorem resolveFile_eq_ok
    {repoId commit path : String}
    {repository : RepositoryDir}
    {resolved : ResolvedFile} :
    repository.resolveFile repoType repoId commit path = .ok resolved ↔
      validateRelativeFilePath path = .ok () ∧
        (∃ parts, validateRepoId repoId = .ok parts) ∧
        validateRevision commit = .ok () ∧
        ∃ revision, repository.revision commit = some revision ∧
          revision.resolveFile repoType path = .ok resolved := by
  unfold RepositoryDir.resolveFile
  constructor
  · intro found
    obtain ⟨_, valid, found⟩ := bind_eq_ok.mp found
    obtain ⟨parts, named, found⟩ := bind_eq_ok.mp found
    obtain ⟨_, proper, found⟩ := bind_eq_ok.mp found
    refine ⟨valid, ⟨parts, named⟩, proper, ?_⟩
    cases stands : repository.revision commit with
    | none =>
        rw [stands] at found
        cases found
    | some revision =>
        rw [stands] at found
        exact ⟨revision, rfl, found⟩
  · rintro ⟨valid, ⟨parts, named⟩, proper, revision, stands, found⟩
    refine bind_eq_ok.mpr ⟨(), valid, bind_eq_ok.mpr ⟨parts, named,
      bind_eq_ok.mpr ⟨(), proper, ?_⟩⟩⟩
    rw [stands]
    exact found

/-- What is resolved once is held for as long as nobody removes the
revision. -/
theorem holds_of_resolved
    {sha256 : Bytes → String}
    {plain : ∀ actor, (calls actor).Plain}
    {repoId commit path : String}
    {now : Moment ι}
    {resolved : ResolvedFile}
    (kept : (contract sha256 repoType calls plain).Kept now)
    (spared : Spared calls commit)
    (listed : (directory now).resolveFile repoType repoId commit path =
      .ok resolved) :
    ∃ content, content.length = resolved.size ∧
      sha256 content = resolved.sha256 ∧
      Holds (Moves repoType calls) directory repoType repoId commit path
        content resolved.sha256 now := by
  obtain ⟨valid, parts, proper, revision, stands, found⟩ :=
    resolveFile_eq_ok.mp listed
  obtain ⟨manifest, intact⟩ := kept.invariant.intact spared stands
  obtain ⟨_, other, entry, _, _, read, _, named, _, _, _⟩ :=
    RevisionDir.resolveFile_eq_ok.mp found
  obtain rfl : other = manifest := by
    have live := (RevisionDir.readManifestFor_eq_ok.mp read).1
    exact Stored.decoded.inj (live.symm.trans intact.read)
  obtain rfl : entry.path = path := by simpa using List.find?_some named
  have member := List.mem_of_find?_eq_some named
  obtain ⟨first, content, _, placed, _, hashed, sameDigest, foundToo⟩ :=
    intact.resolveFile member
  cases found.symm.trans foundToo
  -- Whatever stands later has grown from what stands now.
  have grows : ∀ later, ReflTransGen (Moves repoType calls) now later →
      ∃ grown, later.shared.dir.revision commit = some grown ∧
        grown.resolveFile repoType entry.path =
            revision.resolveFile repoType entry.path ∧
          grown.tree.lookup (splitPath entry.path) =
            revision.tree.lookup (splitPath entry.path) := by
    intro later onward
    obtain ⟨grown, standsLater, grew⟩ :=
      keeps_of_run kept spared onward revision stands
    obtain ⟨_, intactLater⟩ :=
      (kept.reaches onward).invariant.intact spared standsLater
    obtain ⟨_, _, _, same⟩ := grew other intact.read
    exact ⟨grown, standsLater,
      grew.resolveFile intact intactLater member, same entry member⟩
  refine ⟨content, rfl, hashed.trans sameDigest.symm, ?_, ?_⟩
  · intro later onward
    obtain ⟨grown, standsLater, resolves, _⟩ := grows later onward
    exact resolveFile_eq_ok.mpr ⟨valid, parts, proper, grown, standsLater,
      resolves.trans found⟩
  · intro later onward
    obtain ⟨grown, standsLater, _, same⟩ := grows later onward
    unfold RepositoryDir.contentAt directory
    rw [standsLater]
    dsimp only at placed ⊢
    rw [same, show revision.tree.lookup _ = _ from placed]

end calls

/-! ## A download that is cut -/

/-- SHA-256 where the sample needs it, on a file of two bytes. -/
def sampleHash (content : Bytes) : Bytes :=
  if content = [97, 98] then
    [251, 142, 32, 252, 46, 76, 63, 36, 140, 96, 195, 155, 214, 82, 243, 193,
      52, 114, 152, 187, 151, 123, 139, 77, 89, 3, 184, 80, 85, 98, 6, 3]
  else
    []

def sampleCommit : String := "0123456789abcdef0123456789abcdef01234567"

def sampleRevision : RevisionDir :=
  ⟨.decoded ⟨true, .model, "org/model", "main",
      [⟨"a", 2, hexDigest (sampleHash [97, 98])⟩]⟩,
    .missing, (FileTree.placeFile .empty ["a"] [97, 98]).getD .empty⟩

def sampleRepository : RepositoryDir := ⟨none, [(sampleCommit, sampleRevision)]⟩

/-- A ref is to be updated. -/
def sampleCalls : Unit → Call :=
  fun _ => .updateRef "org/model" "main" sampleCommit

theorem clean_sample :
    Clean (fun content => hexDigest (sampleHash content)) .model
      sampleRepository where
  refs := by
    intro name text node
    cases node
  revisions := by
    intro commit revision found
    refine ⟨1, ?_⟩
    obtain rfl : revision = sampleRevision := by
      unfold RepositoryDir.revision sampleRepository at found
      rw [List.lookup_cons] at found
      split at found
      · exact (Option.some.inj found).symm
      · cases found
    decide

end Http
end ModelKeep
