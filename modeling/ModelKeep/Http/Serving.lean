import ModelKeep.Concurrency.Program
import ModelKeep.Http.Metadata
import ModelKeep.Http.Ranges
import ModelKeep.Upstream

/-!
# Serving files

A file request is answered from the archive: with the whole file, with one
range of it, or with the word that the client has it already.  What the archive
does not hold is acquired first, for as long as the client is made to wait.
The size of a file is taken when it is resolved, and its bytes are read when it
is opened after that.
-/

namespace ModelKeep
namespace Http

open Concurrency

/-! ## Headers -/

/-- The headers that a file request is read for; of each the first value. -/
structure FileHeaders where
  range : Option Bytes
  ifNoneMatch : Option Bytes
  deriving DecidableEq

/-- The status codes of the file routes. -/
inductive FileStatus
  | ok
  | partialContent
  | notModified
  | badRequest
  | unauthorized
  | notFound
  | rangeNotSatisfiable
  | internalServerError
  | badGateway
  | serviceUnavailable
  | insufficientStorage
  deriving DecidableEq

structure FileResponse where
  status : FileStatus
  acceptRanges : String
  contentLength : UInt64
  etag : String
  /-- `x-repo-commit` -/
  repoCommit : String
  contentRange : Option String
  body : Bytes
  deriving DecidableEq

/-- `HeaderValue::to_str`: tabs and printable ASCII. -/
def headerText (value : Bytes) : Option String :=
  if value.all fun byte => byte = 9 ∨ 32 ≤ byte ∧ byte < 127 then
    some (String.ofList (value.map fun byte => Char.ofNat byte.toNat))
  else
    none

/-- A header may have this value. -/
def IsHeaderValue (text : String) : Prop :=
  ∀ character ∈ text.toList,
    character = '\t' ∨ 32 ≤ character.toNat ∧ character.toNat ≠ 127

instance (text : String) : Decidable (IsHeaderValue text) :=
  List.decidableBAll _ _

def statusForRangeError : RangeError → FileStatus
  | .invalid => .badRequest
  | .unsatisfiable => .rangeNotSatisfiable

def FileStatus.ofCode : StatusCode → FileStatus
  | .badRequest => .badRequest
  | .notFound => .notFound
  | .internalServerError => .internalServerError

def statusForPullThroughError : PullThroughError → FileStatus
  | .upstreamNotFound => .notFound
  | .upstreamUnauthorized => .unauthorized
  | .upstreamUnavailable
  | .upstreamFailed _
  | .cancelled => .badGateway
  | .storage => .insufficientStorage
  | .unsafePath => .badRequest
  | .upstreamInvalidOutput _
  | .integrity
  | .conflict
  | .stagingConflict => .internalServerError

/-- The range that is asked for, if one is.  There is no result when an
operation overflows. -/
def requestedRange (headers : FileHeaders) (size : UInt64) :
    Option (Except FileStatus (Option ByteRange)) :=
  match headers.range with
  | none => some (.ok none)
  | some value =>
      match headerText value with
      | none => some (.error .badRequest)
      | some text =>
          (parseRange text size).map fun
            | .error error => .error (statusForRangeError error)
            | .ok none => .error .rangeNotSatisfiable
            | .ok (some range) => .ok (some range)

/-- `bytes {start}-{end}/{size}` -/
def contentRange (size : UInt64) (range : ByteRange) : String :=
  "bytes " ++ range.start.toNat.repr ++ "-" ++ range.stop.toNat.repr ++ "/" ++
    size.toNat.repr

/-- The validator of a file is its recorded digest. -/
def etagOf (sha256 : String) : String :=
  "\"" ++ sha256 ++ "\""

/-- The first byte that is sent. -/
def startOf : Option ByteRange → UInt64
  | some range => range.start
  | none => 0

/-- Everything but the body.  There is no result when an operation
overflows. -/
def responseHead
    (resolved : ResolvedFile)
    (commit : String)
    (range : Option ByteRange) :
    Option FileResponse :=
  (contentLength (UInt64.ofNat resolved.size) range).map fun length =>
    { status := if range.isSome then .partialContent else .ok
      acceptRanges := "bytes"
      contentLength := length
      etag := etagOf resolved.sha256
      repoCommit := commit
      contentRange := range.map (contentRange (UInt64.ofNat resolved.size))
      body := [] }

/-- The builder reports a value that no header may have at the end. -/
def build (response : FileResponse) : Except FileStatus FileResponse :=
  if IsHeaderValue response.etag ∧ IsHeaderValue response.repoCommit then
    .ok response
  else
    .error .internalServerError

/-! ## The handler -/

/-- What the handler asks of the archive and of the acquisitions. -/
inductive FileOp
  | resolveRef (reference : String)
  | resolveFile (commit path : String)
  /-- `ensure_bounded_for_type` on a thread of its own, which may panic. -/
  | ensureBounded (revision : String) (files : List String)
  | openFile (commit : String) (place : List String)

abbrev FileOp.Reply : FileOp → Type
  | .resolveRef _ => Except ArchiveError String
  | .resolveFile _ _ => Except ArchiveError ResolvedFile
  | .ensureBounded _ _ => Option (Except PullThroughError (Option String))
  | .openFile _ _ => Option Bytes

abbrev fileInterface : Interface := ⟨FileOp, FileOp.Reply⟩

def ask (op : FileOp) : Program fileInterface op.Reply := .call op .done

/-- The answer to a client that is told to ask again. -/
structure PendingResponse where
  retryAfter : UInt64
  contentType : String
  contentLength : Nat
  cacheControl : String
  body : String
  deriving DecidableEq

inductive FileAnswer
  | file (response : FileResponse)
  | pending (response : PendingResponse)
  deriving DecidableEq

/-- `COLD_MISS_PENDING_BODY` -/
def coldMissPendingBody : String :=
  "\x7b\"error\":\"acquisition in progress\"\x7d"

/-- `cold_miss_pending_response`; its status is 503. -/
def coldMissPendingResponse (headOnly : Bool) (retryAfter : UInt64) :
    FileAnswer :=
  .pending
    { retryAfter := retryAfter
      contentType := "application/json"
      contentLength := coldMissPendingBody.utf8ByteSize
      cacheControl := "no-store"
      body := if headOnly then "" else coldMissPendingBody }

/-- What a handler comes to.  There is no result when an operation
overflows. -/
abbrev Handler : Type :=
  Program fileInterface (Option (Except FileStatus FileAnswer))

/-- The bytes that are read from where the file was opened. -/
def readFrom (content : Bytes) (start length : UInt64) : Bytes :=
  (content.drop start.toNat).take length.toNat

/-- `file_response` once the headers are known. -/
def sendBody
    (resolved : ResolvedFile)
    (commit : String)
    (headers : FileHeaders)
    (headOnly : Bool)
    (range : Option ByteRange)
    (response : FileResponse) :
    Handler :=
  if headers.ifNoneMatch.bind headerText = some response.etag then
    return some ((build { response with status := .notModified }).map .file)
  else if headOnly then
    return some ((build response).map .file)
  else do
    match ← ask (.openFile commit resolved.path) with
    | none => return some (.error .internalServerError)
    | some content =>
        return some ((build { response with
          body := readFrom content (startOf range)
            response.contentLength }).map .file)

/-- `file_response` from the resolved file on. -/
def sendFile
    (resolved : ResolvedFile)
    (commit : String)
    (headers : FileHeaders)
    (headOnly : Bool) :
    Handler :=
  match requestedRange headers (UInt64.ofNat resolved.size) with
  | none => return none
  | some (.error status) => return some (.error status)
  | some (.ok range) =>
      match responseHead resolved commit range with
      | none => return none
      | some response =>
          sendBody resolved commit headers headOnly range response

/-- The file as the archive has it, with the commit it is of. -/
def locate (revision path : String) :
    Program fileInterface (Except ArchiveError (ResolvedFile × String)) :=
  if isHfCommit revision then do
    let found ← ask (.resolveFile revision path)
    return found.map fun file => (file, revision)
  else do
    match ← ask (.resolveRef revision) with
    | .error error => return .error error
    | .ok commit =>
        let found ← ask (.resolveFile commit path)
        return found.map fun file => (file, commit)

/-- `await_cold_miss_acquisition` for one file. -/
def awaitColdMissAcquisition (revision path : String) :
    Program fileInterface (Except FileStatus (Option String)) := do
  match ← ask (.ensureBounded revision [path]) with
  | none => return .error .internalServerError
  | some (.error error) => return .error (statusForPullThroughError error)
  | some (.ok commit) => return .ok commit

/-- What the server is set up with. -/
structure FileSettings where
  /-- There is an upstream. -/
  pullthrough : Bool
  retryAfter : UInt64

/-- The branch of `file_response` for a file that is not there. -/
def acquireFile
    (settings : FileSettings)
    (revision path : String)
    (headers : FileHeaders)
    (headOnly : Bool) :
    Handler :=
  if settings.pullthrough = false then
    return some (.error .notFound)
  else do
    match ← awaitColdMissAcquisition revision path with
    | .error status => return some (.error status)
    | .ok none =>
        return some (.ok (coldMissPendingResponse headOnly
          settings.retryAfter))
    | .ok (some commit) =>
        match ← ask (.resolveFile commit path) with
        | .error error =>
            return some (.error (.ofCode (statusForArchiveError error)))
        | .ok resolved => sendFile resolved commit headers headOnly

/-- `file_response` -/
def fileResponse
    (settings : FileSettings)
    (revision path : String)
    (headers : FileHeaders)
    (headOnly : Bool) :
    Handler :=
  if isInternalArchivePath path then
    return some (.error .notFound)
  else do
    match ← locate revision path with
    | .ok (resolved, commit) => sendFile resolved commit headers headOnly
    | .error (.io .notFound) =>
        acquireFile settings revision path headers headOnly
    | .error error =>
        return some (.error (.ofCode (statusForArchiveError error)))


/-! ## Ranges -/

/-- A range of a file of this size. -/
def ByteRange.Within (range : ByteRange) (size : Nat) : Prop :=
  range.start ≤ range.stop ∧ range.stop.toNat < size

theorem ordered_within
    {start stop size : UInt64}
    {range : Option ByteRange}
    (inside : stop < size)
    (answered : ordered start stop = .ok range) :
    ∃ part, range = some part ∧ part.Within size.toNat := by
  unfold ordered at answered
  split at answered
  · cases answered
  · next onward =>
      cases answered
      exact ⟨_, rfl, UInt64.not_lt.mp onward,
        UInt64.lt_iff_toNat_lt.mp inside⟩

/-- No operation overflows, and a range that is read lies in the file. -/
theorem parseRange_within (value : String) (size : UInt64) :
    ∃ answer, parseRange value size = some answer ∧
      ∀ range, answer = .ok range →
        ∃ part, range = some part ∧ part.Within size.toNat := by
  unfold parseRange
  cases halves value with
  | none => exact ⟨_, rfl, by rintro _ ⟨⟩⟩
  | some texts =>
      obtain ⟨first, last⟩ := texts
      dsimp only
      by_cases empty : size = 0
      · rw [if_pos empty]
        exact ⟨_, rfl, by rintro _ ⟨⟩⟩
      have lastInside : size - 1 < size := by
        have positive := eq_zero_iff.not.mp empty
        rw [UInt64.lt_iff_toNat_lt, toNat_last empty]
        omega
      rw [if_neg empty, checkedSub_one empty]
      split
      · cases parseU64 last with
        | none => exact ⟨_, rfl, by rintro _ ⟨⟩⟩
        | some suffix =>
            dsimp only
            split
            · exact ⟨_, rfl, by rintro _ ⟨⟩⟩
            · next positive =>
                refine ⟨_, rfl, ?_⟩
                rintro _ ⟨⟩
                refine ⟨_, rfl, ?_, UInt64.lt_iff_toNat_lt.mp lastInside⟩
                have notZero := eq_zero_iff.not.mp positive
                change saturatingSub size suffix ≤ size - 1
                unfold saturatingSub
                split
                · next shorter =>
                    rw [UInt64.le_iff_toNat_le, toNat_last empty,
                      UInt64.toNat_sub_of_le _ _ shorter]
                    omega
                · exact UInt64.zero_le
      · cases parseU64 first with
        | none => exact ⟨_, rfl, by rintro _ ⟨⟩⟩
        | some start =>
            dsimp only
            split
            · exact ⟨_, rfl, by rintro _ ⟨⟩⟩
            · split
              · exact ⟨_, rfl, fun _ => ordered_within lastInside⟩
              · cases parseU64 last with
                | none => exact ⟨_, rfl, by rintro _ ⟨⟩⟩
                | some stop =>
                    have clipped : min stop (size - 1) < size := by
                      rw [UInt64.lt_iff_toNat_lt] at lastInside ⊢
                      by_cases within : stop ≤ size - 1
                      · have least : min stop (size - 1) = stop :=
                          if_pos within
                        rw [UInt64.le_iff_toNat_le] at within
                        rw [least]
                        omega
                      · have least : min stop (size - 1) = size - 1 :=
                          if_neg within
                        rw [least]
                        exact lastInside
                    exact ⟨_, rfl, fun _ => ordered_within clipped⟩

/-- What is asked for can be told, and lies in the file. -/
theorem requestedRange_within (headers : FileHeaders) (size : UInt64) :
    ∃ answer, requestedRange headers size = some answer ∧
      ∀ range, answer = .ok range →
        (range = none ↔ headers.range = none) ∧
          ∀ part ∈ range, part.Within size.toNat := by
  unfold requestedRange
  cases headers.range with
  | none => exact ⟨_, rfl, by rintro _ ⟨⟩; simp⟩
  | some value =>
      dsimp only
      cases headerText value with
      | none => exact ⟨_, rfl, by rintro _ ⟨⟩⟩
      | some text =>
          obtain ⟨answer, read, within⟩ := parseRange_within text size
          refine ⟨_, by dsimp only; rw [read]; rfl, ?_⟩
          cases answer with
          | error error => rintro _ ⟨⟩
          | ok range =>
              obtain ⟨part, rfl, inside⟩ := within range rfl
              rintro _ ⟨⟩
              refine ⟨by simp, ?_⟩
              rintro _ ⟨⟩
              exact inside

/-! ## What is sent -/

/-- The bytes that a range selects; without one, all of them. -/
def stretch (content : Bytes) : Option ByteRange → Bytes
  | none => content
  | some part =>
      (content.drop part.start.toNat).take
        (part.stop.toNat - part.start.toNat + 1)

theorem length_stretch
    {content : Bytes}
    {part : ByteRange}
    (within : part.Within content.length) :
    (stretch content (some part)).length =
      part.stop.toNat - part.start.toNat + 1 := by
  obtain ⟨onward, inside⟩ := within
  rw [UInt64.le_iff_toNat_le] at onward
  unfold stretch
  rw [List.length_take, List.length_drop]
  omega

/-- The length that is announced is that of what is sent. -/
theorem contentLength_stretch
    {content : Bytes}
    (sized : content.length < 2 ^ 64)
    {range : Option ByteRange}
    (within : ∀ part ∈ range, part.Within content.length) :
    ∃ length, contentLength (UInt64.ofNat content.length) range =
        some length ∧
      length.toNat = (stretch content range).length ∧
      readFrom content (startOf range) length = stretch content range := by
  have size : (UInt64.ofNat content.length).toNat = content.length :=
    UInt64.toNat_ofNat_of_lt' sized
  cases range with
  | some part =>
      have inside := within part rfl
      obtain ⟨length, told, counted⟩ := contentLength_of_le inside.1
        (UInt64.lt_iff_toNat_lt.mpr (size.symm ▸ inside.2))
      refine ⟨length, told, ?_, ?_⟩
      · rw [counted, length_stretch inside]
      · unfold readFrom startOf stretch
        rw [counted]
  | none =>
      have whole : ∃ length,
          contentLength (UInt64.ofNat content.length) none = some length ∧
            length.toNat = content.length := by
        unfold contentLength
        dsimp only
        by_cases empty : UInt64.ofNat content.length = 0
        · refine ⟨0, if_pos empty, ?_⟩
          rw [eq_zero_iff, size] at empty
          exact empty.symm
        · have positive : content.length ≠ 0 := by
            rw [← size]
            exact eq_zero_iff.not.mp empty
          have least : 1 ≤ UInt64.ofNat content.length := by
            rw [UInt64.le_iff_toNat_le, size]
            exact Nat.one_le_iff_ne_zero.mpr positive
          have less : (UInt64.ofNat content.length - 1).toNat =
              content.length - 1 := by
            rw [toNat_last empty, size]
          have starts : saturatingSub (UInt64.ofNat content.length) 1 =
              UInt64.ofNat content.length - 1 := if_pos least
          have plain : checkedSub (UInt64.ofNat content.length - 1) 0 =
              some (UInt64.ofNat content.length - 1) := by
            unfold checkedSub
            rw [if_pos UInt64.zero_le, UInt64.sub_zero]
          have added : checkedAdd (UInt64.ofNat content.length - 1) 1 =
              some (UInt64.ofNat content.length - 1 + 1) := by
            unfold checkedAdd
            rw [if_pos]
            rw [less]
            change content.length - 1 + 1 < _
            omega
          rw [if_neg empty, starts]
          refine ⟨_, by rw [plain]; exact added, ?_⟩
          rw [UInt64.sub_add_cancel, size]
      obtain ⟨length, told, counted⟩ := whole
      refine ⟨length, told, counted, ?_⟩
      unfold readFrom startOf stretch
      rw [counted]
      exact List.take_length

/-- A response that is right about a content. -/
structure Represents
    (content : Bytes)
    (sha256 commit : String)
    (headers : FileHeaders)
    (headOnly : Bool)
    (range : Option ByteRange)
    (response : FileResponse) :
    Prop where
  etag : response.etag = etagOf sha256
  repoCommit : response.repoCommit = commit
  asked : requestedRange headers (UInt64.ofNat content.length) =
    some (.ok range)
  within : ∀ part ∈ range, part.Within content.length
  length : response.contentLength.toNat = (stretch content range).length
  placed : response.contentRange =
    range.map (contentRange (UInt64.ofNat content.length))
  /-- The client is told that it has the file exactly if it names its
  digest. -/
  known : headers.ifNoneMatch.bind headerText = some (etagOf sha256) ∧
      response.status = .notModified ∧ response.body = [] ∨
    headers.ifNoneMatch.bind headerText ≠ some (etagOf sha256) ∧
      response.status = (if range.isSome then .partialContent else .ok) ∧
      response.body = if headOnly then [] else stretch content range

variable {σ : Type} {exec : Semantics fileInterface σ}

/-- The response is built if its headers are valid. -/
theorem map_build_eq
    {response built : FileResponse} :
    some (.ok (.file built)) =
        some ((build response).map FileAnswer.file) ↔
      (IsHeaderValue response.etag ∧ IsHeaderValue response.repoCommit) ∧
        built = response := by
  unfold build
  split
  · next valid => simp [valid, Except.map]
  · next invalid => simp [invalid, Except.map]

/-- The head of a response to a request that can be met. -/
theorem responseHead_of_within
    {resolved : ResolvedFile}
    {content : Bytes}
    (length : resolved.size = content.length)
    (sized : content.length < 2 ^ 64)
    (commit : String)
    {range : Option ByteRange}
    (within : ∀ part ∈ range, part.Within content.length) :
    ∃ response, responseHead resolved commit range = some response ∧
      response.status = (if range.isSome then .partialContent else .ok) ∧
      response.etag = etagOf resolved.sha256 ∧
      response.repoCommit = commit ∧
      response.contentLength.toNat = (stretch content range).length ∧
      response.contentRange =
        range.map (contentRange (UInt64.ofNat content.length)) ∧
      response.body = [] ∧
      readFrom content (startOf range) response.contentLength =
        stretch content range := by
  obtain ⟨told, read, counted, sent⟩ := contentLength_stretch sized within
  unfold responseHead
  rw [length, read]
  exact ⟨_, rfl, rfl, rfl, rfl, counted, rfl, rfl, sent⟩

theorem sendFile_of_error
    {resolved : ResolvedFile}
    {headers : FileHeaders}
    {status : FileStatus}
    (commit : String)
    (headOnly : Bool)
    (read : requestedRange headers (UInt64.ofNat resolved.size) =
      some (.error status)) :
    sendFile resolved commit headers headOnly =
      return some (.error status) := by
  unfold sendFile
  rw [read]

theorem sendFile_of_ok
    {resolved : ResolvedFile}
    {commit : String}
    {headers : FileHeaders}
    {range : Option ByteRange}
    {head : FileResponse}
    (headOnly : Bool)
    (read : requestedRange headers (UInt64.ofNat resolved.size) =
      some (.ok range))
    (made : responseHead resolved commit range = some head) :
    sendFile resolved commit headers headOnly =
      sendBody resolved commit headers headOnly range head := by
  unfold sendFile
  rw [read]
  dsimp only
  rw [made]

/-- Whatever is read where the file was resolved, what is sent is right about
it. -/
theorem sendFile_represents
    {resolved : ResolvedFile}
    {content : Bytes}
    {commit : String}
    {headers : FileHeaders}
    {headOnly : Bool}
    {response : FileResponse}
    {before after : σ}
    (length : resolved.size = content.length)
    (sized : content.length < 2 ^ 64)
    (opens : ∀ opened later,
      exec (.openFile commit resolved.path) before (some opened) later →
        opened = content)
    (runs : Program.Runs exec
      (sendFile resolved commit headers headOnly) before
      (some (.ok (.file response))) after) :
    ∃ range, Represents content resolved.sha256 commit headers headOnly range
      response := by
  obtain ⟨answer, read, told⟩ := requestedRange_within headers
    (UInt64.ofNat resolved.size)
  cases answer with
  | error status =>
      rw [sendFile_of_error commit headOnly read] at runs
      exact absurd runs.1 (by simp)
  | ok range =>
      obtain ⟨_, within⟩ := told range rfl
      rw [length, UInt64.toNat_ofNat_of_lt' sized] at within
      obtain ⟨head, made, status, etag, repoCommit, counted, placed, empty,
        sent⟩ := responseHead_of_within length sized commit within
      rw [sendFile_of_ok headOnly read made] at runs
      have asked := length ▸ read
      refine ⟨range, ?_⟩
      unfold sendBody at runs
      split at runs
      · next known =>
          obtain ⟨_, rfl⟩ := map_build_eq.mp runs.1
          rw [etag] at known
          exact ⟨etag, repoCommit, asked, within, counted, placed,
            Or.inl ⟨known, rfl, empty⟩⟩
      · next unknown =>
          rw [etag] at unknown
          split at runs
          · next isHead =>
              obtain ⟨_, rfl⟩ := map_build_eq.mp runs.1
              exact ⟨etag, repoCommit, asked, within, counted, placed,
                Or.inr ⟨unknown, status, by rw [empty, if_pos isHead]⟩⟩
          · next isGet =>
              obtain ⟨opened, middle, issued, runs⟩ := runs
              cases opened with
              | none => exact absurd runs.1 (by simp)
              | some opened =>
                  obtain ⟨_, rfl⟩ := map_build_eq.mp runs.1
                  cases opens opened middle issued
                  exact ⟨etag, repoCommit, asked, within, counted, placed,
                    Or.inr ⟨unknown, status, by rw [sent, if_neg isGet]⟩⟩


/-- What is sent is sent in the name of the commit. -/
theorem repoCommit_of_sendFile
    {resolved : ResolvedFile}
    {commit : String}
    {headers : FileHeaders}
    {headOnly : Bool}
    {response : FileResponse}
    {before after : σ}
    (runs : Program.Runs exec
      (sendFile resolved commit headers headOnly) before
      (some (.ok (.file response))) after) :
    response.repoCommit = commit := by
  obtain ⟨answer, read, _⟩ := requestedRange_within headers
    (UInt64.ofNat resolved.size)
  cases answer with
  | error status =>
      rw [sendFile_of_error commit headOnly read] at runs
      exact absurd runs.1 (by simp)
  | ok range =>
      cases made : responseHead resolved commit range with
      | none =>
          unfold sendFile at runs
          rw [read] at runs
          dsimp only at runs
          rw [made] at runs
          exact absurd runs.1 (by simp)
      | some head =>
          have named : head.repoCommit = commit := by
            obtain ⟨length, _, rfl⟩ := Option.map_eq_some_iff.mp made
            rfl
          rw [sendFile_of_ok headOnly read made] at runs
          unfold sendBody at runs
          split at runs
          · obtain ⟨_, rfl⟩ := map_build_eq.mp runs.1
            exact named
          · split at runs
            · obtain ⟨_, rfl⟩ := map_build_eq.mp runs.1
              exact named
            · obtain ⟨opened, middle, _, runs⟩ := runs
              cases opened with
              | none => exact absurd runs.1 (by simp)
              | some opened =>
                  obtain ⟨_, rfl⟩ := map_build_eq.mp runs.1
                  exact named

/-! ## The way to the archive -/

/-- Any number of operations, whoever asked for them. -/
abbrev Passes (exec : Semantics fileInterface σ) : σ → σ → Prop :=
  Relation.ReflTransGen fun before after =>
    ∃ op reply, exec op before reply after

theorem passes_of_runs
    {α : Type}
    {program : Program fileInterface α}
    {result : α}
    {before after : σ}
    (runs : Program.Runs exec program before result after) :
    Passes exec before after := by
  induction program generalizing before with
  | done value =>
      cases runs.2
      exact .refl
  | call op next inductionHypothesis =>
      obtain ⟨reply, middle, issued, runs⟩ := runs
      exact .head ⟨op, reply, issued⟩ (inductionHypothesis reply runs)

theorem locate_eq_ok
    {revision path commit : String}
    {resolved : ResolvedFile}
    {before after : σ}
    (runs : Program.Runs exec (locate revision path) before
      (.ok (resolved, commit)) after) :
    ∃ middle, Passes exec before middle ∧
      exec (.resolveFile commit path) middle (.ok resolved) after := by
  unfold locate at runs
  split at runs
  · obtain ⟨found, middle, issued, same, rfl⟩ := runs
    cases found with
    | error error => cases same
    | ok file =>
        cases same
        exact ⟨before, .refl, issued⟩
  · obtain ⟨reply, middle, asked, runs⟩ := runs
    cases reply with
    | error error => cases runs.1
    | ok named =>
        obtain ⟨found, last, issued, same, rfl⟩ := runs
        cases found with
        | error error => cases same
        | ok file =>
            cases same
            exact ⟨middle, .single ⟨_, _, asked⟩, issued⟩

theorem acquireFile_sends
    {settings : FileSettings}
    {revision path : String}
    {headers : FileHeaders}
    {headOnly : Bool}
    {response : FileResponse}
    {before after : σ}
    (runs : Program.Runs exec
      (acquireFile settings revision path headers headOnly) before
      (some (.ok (.file response))) after) :
    ∃ commit resolved middle later, Passes exec before middle ∧
      exec (.resolveFile commit path) middle (.ok resolved) later ∧
      Program.Runs exec (sendFile resolved commit headers headOnly) later
        (some (.ok (.file response))) after := by
  unfold acquireFile at runs
  split at runs
  · cases runs.1
  obtain ⟨awaited, middle, acquired, runs⟩ :=
    (Program.runs_bind _ _ _ _ _ _).mp runs
  split at runs
  · cases runs.1
  · cases runs.1
  · next commit =>
      obtain ⟨found, later, issued, runs⟩ := runs
      cases found with
      | error error => cases runs.1
      | ok resolved =>
          exact ⟨commit, resolved, middle, later, passes_of_runs acquired,
            issued, runs⟩

/-- What is sent was resolved in the archive just before. -/
theorem fileResponse_sends
    {settings : FileSettings}
    {revision path : String}
    {headers : FileHeaders}
    {headOnly : Bool}
    {response : FileResponse}
    {before after : σ}
    (runs : Program.Runs exec
      (fileResponse settings revision path headers headOnly) before
      (some (.ok (.file response))) after) :
    ∃ commit resolved middle later, Passes exec before middle ∧
      exec (.resolveFile commit path) middle (.ok resolved) later ∧
      Program.Runs exec (sendFile resolved commit headers headOnly) later
        (some (.ok (.file response))) after := by
  unfold fileResponse at runs
  split at runs
  · cases runs.1
  obtain ⟨found, later, located, runs⟩ :=
    (Program.runs_bind _ _ _ _ _ _).mp runs
  split at runs
  · next resolved commit =>
      obtain ⟨middle, passed, issued⟩ := locate_eq_ok located
      exact ⟨commit, resolved, middle, later, passed, issued, runs⟩
  · obtain ⟨commit, resolved, middle, last, passed, issued, sent⟩ :=
      acquireFile_sends runs
    exact ⟨commit, resolved, middle, last,
      (passes_of_runs located).trans passed, issued, sent⟩
  · cases runs.1


/-! ## Asking for the rest -/

/-- `bytes={received}-` -/
def onward (received : Nat) : String :=
  "bytes=" ++ received.repr ++ "-"

/-- A header with this text. -/
def asciiBytes (text : String) : Bytes :=
  text.toList.map fun character => UInt8.ofNat character.toNat

/-- A client with these many bytes asks for the others. -/
def missing (received : Nat) : FileHeaders :=
  { range := if received = 0 then none else some (asciiBytes (onward received))
    ifNoneMatch := none }

theorem headerText_asciiBytes
    {text : String}
    (printable : ∀ character ∈ text.toList,
      32 ≤ character.toNat ∧ character.toNat < 127) :
    headerText (asciiBytes text) = some text := by
  have valid : (asciiBytes text).all
      (fun byte => decide (byte = 9 ∨ 32 ≤ byte ∧ byte < 127)) = true := by
    rw [List.all_eq_true]
    intro byte member
    obtain ⟨character, inText, rfl⟩ := List.mem_map.mp member
    obtain ⟨low, high⟩ := printable character inText
    rw [decide_eq_true_eq]
    right
    rw [UInt8.le_iff_toNat_le, UInt8.lt_iff_toNat_lt,
      UInt8.toNat_ofNat_of_lt' (by change _ < 256; omega)]
    exact ⟨low, high⟩
  unfold headerText
  rw [if_pos valid]
  congr 1
  unfold asciiBytes
  rw [List.map_map]
  have same : ∀ character ∈ text.toList,
      ((fun byte : UInt8 => Char.ofNat byte.toNat) ∘
        fun character : Char => UInt8.ofNat character.toNat) character =
          character := by
    intro character inText
    obtain ⟨_, high⟩ := printable character inText
    have back : (UInt8.ofNat character.toNat).toNat = character.toNat :=
      UInt8.toNat_ofNat_of_lt' (by change _ < 256; omega)
    simp [back]
  rw [List.map_congr_left same, List.map_id', String.ofList_toList]

theorem toList_onward (received : Nat) :
    (onward received).toList =
      unit ++ Nat.toDigits 10 received ++ '-' :: [] := by
  simp [onward, unit, Nat.repr, String.toList_append]

theorem digits_toDigits (number : Nat) : Digits (Nat.toDigits 10 number) :=
  ⟨Nat.toDigits_ne_nil, fun _ member =>
    Nat.isDigit_of_mem_toDigits (by omega) (by omega) member⟩

theorem decimal_toDigits (number : Nat) :
    decimal (Nat.toDigits 10 number) = number :=
  Nat.ofDigitChars_ten_toDigits

theorem halves_onward (received : Nat) :
    halves (onward received) = some (Nat.toDigits 10 received, []) := by
  apply halves_eq_some.mpr
  exact ⟨toList_onward received,
    (Spells.onward (digits_toDigits received)).plain⟩

theorem headerText_onward (received : Nat) :
    headerText (asciiBytes (onward received)) = some (onward received) := by
  apply headerText_asciiBytes
  intro character member
  rw [toList_onward, List.mem_append, List.mem_append] at member
  rcases member with (isUnit | digit) | dash
  · exact of_decide_eq_true (List.all_eq_true.mp
      (show unit.all (fun character => decide (32 ≤ character.toNat ∧
        character.toNat < 127)) = true by decide) character isUnit)
  · have isDigit := (digits_toDigits received).2 character digit
    simp only [Char.isDigit, Bool.and_eq_true, decide_eq_true_eq] at isDigit
    obtain ⟨low, high⟩ := isDigit
    have lowNat : 48 ≤ character.toNat := low
    have highNat : character.toNat ≤ 57 := high
    omega
  · rw [List.mem_singleton] at dash
    subst dash
    decide

/-- The range that a client with these many bytes asks for. -/
def remaining (received size : Nat) : Option ByteRange :=
  if received = 0 then none else some (between received (size - 1))

/-- What is missing is asked for, and nothing once nothing is. -/
theorem requestedRange_missing
    {received : Nat}
    {size : UInt64}
    (counted : received < 2 ^ 64) :
    requestedRange (missing received) size =
      some (if received = 0 ∨ received < size.toNat then
        .ok (remaining received size.toNat)
      else
        .error .rangeNotSatisfiable) := by
  unfold requestedRange missing remaining
  by_cases none : received = 0
  · simp [none]
  · have fits : decimal (Nat.toDigits 10 received) < 2 ^ 64 := by
      rw [decimal_toDigits]
      exact counted
    simp only [none, if_false, false_or, headerText_onward]
    by_cases empty : size = 0
    · rw [empty, parseRange_empty (halves_onward received), if_neg]
      · rfl
      · exact Nat.not_lt_zero _
    · rw [parseRange_from (halves_onward received) empty
        (digits_toDigits received) fits, decimal_toDigits]
      by_cases within : received < size.toNat
      · rw [if_neg (by omega), if_pos rfl, if_pos within]
        rfl
      · rw [if_pos (by omega), if_neg within]
        rfl

theorem stretch_remaining
    {content : Bytes}
    {received : Nat}
    (sized : content.length < 2 ^ 64)
    (within : received = 0 ∨ received < content.length) :
    stretch content (remaining received content.length) =
      content.drop received := by
  unfold remaining
  by_cases none : received = 0
  · rw [if_pos none, none]
    rfl
  · rw [if_neg none]
    have startsAt : (between received (content.length - 1)).start.toNat =
        received :=
      UInt64.toNat_ofNat_of_lt' (by change _ < 2 ^ 64; omega)
    have stopsAt : (between received (content.length - 1)).stop.toNat =
        content.length - 1 :=
      UInt64.toNat_ofNat_of_lt' (by change _ < 2 ^ 64; omega)
    unfold stretch
    dsimp only
    rw [startsAt, stopsAt, List.take_of_length_le]
    rw [List.length_drop]
    omega


/-- A right answer to a client that asked for what it misses continues what it
has. -/
theorem Represents.continues
    {content : Bytes}
    {sha256 commit : String}
    {received : Nat}
    {range : Option ByteRange}
    {response : FileResponse}
    (right : Represents content sha256 commit (missing received) false range
      response)
    (sized : content.length < 2 ^ 64)
    (counted : received ≤ content.length) :
    response.body = content.drop received := by
  have asked := right.asked
  rw [requestedRange_missing (by omega),
    UInt64.toNat_ofNat_of_lt' sized] at asked
  split at asked
  · next within =>
      cases asked
      rcases right.known with ⟨known, _⟩ | ⟨_, _, sent⟩
      · cases known
      · rw [sent]
        exact stretch_remaining sized within
  · cases asked

/-- A request for what is missing is met where the file can be opened. -/
theorem runs_sendFile_missing
    {resolved : ResolvedFile}
    {content : Bytes}
    {commit : String}
    {received : Nat}
    {before after : σ}
    (length : resolved.size = content.length)
    (sized : content.length < 2 ^ 64)
    (etag : IsHeaderValue (etagOf resolved.sha256))
    (named : IsHeaderValue commit)
    (within : received = 0 ∨ received < content.length)
    (opens : exec (.openFile commit resolved.path) before (some content)
      after) :
    ∃ response, Program.Runs exec
      (sendFile resolved commit (missing received) false) before
      (some (.ok (.file response))) after := by
  have size : (UInt64.ofNat resolved.size).toNat = content.length := by
    rw [length, UInt64.toNat_ofNat_of_lt' sized]
  have read : requestedRange (missing received)
      (UInt64.ofNat resolved.size) = _ :=
    requestedRange_missing (by omega)
  rw [size, if_pos within] at read
  obtain ⟨answer, readToo, told⟩ := requestedRange_within
    (missing received) (UInt64.ofNat resolved.size)
  cases read.symm.trans readToo
  obtain ⟨_, inside⟩ := told _ rfl
  rw [size] at inside
  obtain ⟨head, made, _, head_etag, head_commit, _⟩ :=
    responseHead_of_within length sized commit inside
  let response : FileResponse := { head with
    body := readFrom content
      (startOf (remaining received content.length)) head.contentLength }
  have valid : IsHeaderValue response.etag ∧
      IsHeaderValue response.repoCommit := by
    change IsHeaderValue head.etag ∧ IsHeaderValue head.repoCommit
    rw [head_etag, head_commit]
    exact ⟨etag, named⟩
  refine ⟨response, ?_⟩
  rw [sendFile_of_ok false read made]
  unfold sendBody
  rw [if_neg (by simp [missing]), if_neg (by simp)]
  exact ⟨some content, after, opens, map_build_eq.mpr ⟨valid, rfl⟩, rfl⟩

/-- A file that the archive has is found under its commit. -/
theorem runs_fileResponse_of_commit
    {settings : FileSettings}
    {commit path : String}
    {headers : FileHeaders}
    {headOnly : Bool}
    {resolved : ResolvedFile}
    {result : Option (Except FileStatus FileAnswer)}
    {before middle after : σ}
    (external : isInternalArchivePath path = false)
    (proper : isHfCommit commit = true)
    (found : exec (.resolveFile commit path) before (.ok resolved) middle)
    (sent : Program.Runs exec (sendFile resolved commit headers headOnly)
      middle result after) :
    Program.Runs exec (fileResponse settings commit path headers headOnly)
      before result after := by
  unfold fileResponse
  rw [external]
  refine (Program.runs_bind _ _ _ _ _ _).mpr
    ⟨.ok (resolved, commit), middle, ?_, sent⟩
  unfold locate
  rw [if_pos proper]
  exact ⟨.ok resolved, middle, found, rfl, rfl⟩

end Http
end ModelKeep
