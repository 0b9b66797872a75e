import Mathlib.Data.List.DropRight
import ModelKeep.Regex
import ModelKeep.Upstream

/-!
# What the helper says of a failure

The helper reports the exception that stopped it.  Its text is cleaned before
it leaves the process: URLs come down to their endpoint, what looks like a
credential is left out, and the rest is put on one bounded line.
-/

namespace ModelKeep
namespace Fetcher
namespace Redaction

open Regex

/-! ## Characters -/

/-- A text of the interpreter, by its code points. -/
abbrev Text : Type := List Nat

def points (text : String) : Text := text.toList.map Char.toNat

def oneOf (chars : String) (c : Nat) : Bool := (points chars).contains c

def between (first last : Char) (c : Nat) : Bool :=
  first.toNat ≤ c && c ≤ last.toNat

def isLetter (c : Nat) : Bool := between 'a' 'z' c || between 'A' 'Z' c

def isDigit (c : Nat) : Bool := between '0' '9' c

def doubleQuote : Nat := 0x22

def apostrophe : Nat := 0x27

def graveAccent : Nat := 0x60

/-- `str.isspace` -/
def isSpace (c : Nat) : Bool :=
  (0x09 ≤ c && c ≤ 0x0d) || (0x1c ≤ c && c ≤ 0x20) || c == 0x85 ||
    c == 0xa0 || c == 0x1680 || (0x2000 ≤ c && c ≤ 0x200a) || c == 0x2028 ||
    c == 0x2029 || c == 0x202f || c == 0x205f || c == 0x3000

def asciiLower (c : Nat) : Nat := if between 'A' 'Z' c then c + 32 else c

/-- What the interpreter knows of characters beyond ASCII, and what its library
says of a host. -/
structure Interpreter where
  /-- `str.isalnum` -/
  alnum : Nat → Bool
  /-- `str.isprintable` -/
  printable : Nat → Bool
  /-- `str.lower` -/
  lower : Text → Text
  /-- `_check_bracketed_host` raises nothing. -/
  bracketedHost : Text → Bool
  /-- `_checknetloc` raises nothing. -/
  netloc : Text → Bool
  alnum_ascii : ∀ c < 128, alnum c = (isLetter c || isDigit c)
  alnum_space : ∀ c, isSpace c = true → alnum c = false
  printable_ascii : ∀ c < 128, printable c = (0x20 ≤ c && c ≤ 0x7e : Bool)
  lower_ascii : ∀ text : Text, (∀ c ∈ text, c < 128) →
    lower text = text.map asciiLower
  netloc_ascii : ∀ text : Text, (∀ c ∈ text, c < 128) → netloc text = true

/-- `MESSAGE_LIMIT` -/
def messageLimit : Nat := 400

/-- `EXCEPTION_NAME_LIMIT` -/
def exceptionNameLimit : Nat := 80

/-- `CAUSE_DEPTH` -/
def causeDepth : Nat := 2

def redacted : Text := points "<redacted>"

def redactedUrlText : Text := points "<redacted-url>"

def redactedToken : Text := points "<redacted-token>"

def truncationMarker : Text := points "...[truncated]"

/-! ## URLs -/

def isSchemeChar (c : Nat) : Bool := isLetter c || isDigit c || oneOf "+.-" c

def isUrlChar (c : Nat) : Bool :=
  !(isSpace c || oneOf "<>" c || c == doubleQuote || c == apostrophe ||
    c == graveAccent)

/-- `str.partition`: the text before the first of a character and the one after
it. -/
def partitionAt (separator : Nat) (text : Text) : Text × Text :=
  (text.takeWhile (· ≠ separator), (text.dropWhile (· ≠ separator)).tail)

/-- What follows the last of a character, or the whole text. -/
def afterLast (separator : Nat) (text : Text) : Text :=
  text.rtakeWhile (· ≠ separator)

def colon : Nat := ':'.toNat
def at_ : Nat := '@'.toNat
def opening : Nat := '['.toNat
def closing : Nat := ']'.toNat
def percent : Nat := '%'.toNat

/-- What `urlsplit` says of a URL, as far as it is used. -/
structure SplitResult where
  scheme : Text
  netloc : Text

/-- The decimal number that digits spell. -/
def number (digits : Text) : Nat :=
  digits.foldl (fun value digit => 10 * value + (digit - '0'.toNat)) 0

section interpreter

variable (python : Interpreter)

/-- `urlsplit`; it may raise a `ValueError`.  What it strips from a URL is not
in a match of the pattern. -/
def urlsplit (url : Text) : Option SplitResult :=
  let scheme := (partitionAt colon url).1
  let split : Text × Text :=
    if colon ∈ url ∧ scheme.head?.any isLetter ∧ scheme.all isSchemeChar then
      (python.lower scheme, (partitionAt colon url).2)
    else ([], url)
  if split.2.take 2 = points "//" then
    let netloc := (split.2.drop 2).takeWhile fun c => !oneOf "/?#" c
    let host := (partitionAt closing (partitionAt opening netloc).2).1
    if netloc.contains opening ≠ netloc.contains closing then none
    else if netloc.contains opening ∧ !python.bracketedHost host then none
    else if !python.netloc netloc then none
    else some ⟨split.1, netloc⟩
  else some ⟨split.1, []⟩

/-- `_hostinfo` -/
def hostinfo (netloc : Text) : Text × Text :=
  let hostinfo := afterLast at_ netloc
  if hostinfo.contains opening then
    let parts := partitionAt closing (partitionAt opening hostinfo).2
    (parts.1, (partitionAt colon parts.2).2)
  else partitionAt colon hostinfo

/-- `hostname`, and the empty text for none. -/
def hostname (netloc : Text) : Text :=
  let host := (hostinfo netloc).1
  let name := (partitionAt percent host).1
  python.lower name ++ host.drop name.length

/-- `port`; it may raise a `ValueError`. -/
def port (netloc : Text) : Option (Option Nat) :=
  let port := (hostinfo netloc).2
  if port = [] then some none
  -- `int` refuses more digits than this.
  else if port.all isDigit ∧ port.length ≤ 4300 ∧ number port ≤ 65535 then
    some (some (number port))
  else none

/-- What is left of a URL with this scheme and authority. -/
def endpointText (parts : SplitResult) : Text :=
  match port parts.netloc with
  | none => redactedUrlText
  | some port =>
      let host := hostname python parts.netloc
      if parts.scheme = [] ∨ host = [] then redactedUrlText
      else
        parts.scheme ++ points "://" ++ host ++
          (port.elim [] fun port =>
            colon :: (Nat.toDigits 10 port).map Char.toNat) ++
          points "/" ++ redacted

/-- `redacted_url` -/
def redactedUrl (found : Match Nat) : Text :=
  match urlsplit python found.taken with
  | none => redactedUrlText
  | some parts => endpointText python parts

/-! ## Credentials -/

def isWord (c : Nat) : Bool := python.alnum c || c == '_'.toNat

/-- A character in a pattern that ignores the case. -/
def fold (c : Nat) : Nat :=
  if c = 0x130 ∨ c = 0x131 then 'i'.toNat
  else if c = 0x17f then 's'.toNat
  else if c = 0x212a then 'k'.toNat
  else asciiLower c

/-- A literal of a pattern. -/
def exactly (text : String) : Pattern Nat := .literal (· == ·) (points text)

/-- A literal, in lower case, of a pattern that ignores the case. -/
def ignoringCase (text : String) : Pattern Nat :=
  .literal (fun c d => c == fold d) (points text)

def anyOf : List (Pattern Nat) → Pattern Nat
  | [] => .one fun _ => false
  | [last] => last
  | first :: rest => .either first (anyOf rest)

/-- `URL_PATTERN` -/
def urlPattern : Pattern Nat :=
  .seq (.boundary (isWord python)) <| .seq (.one isLetter) <|
    .seq (.many 0 isSchemeChar) <| .seq (exactly "://") (.many 0 isUrlChar)

/-- A pattern of what looks like a credential, and what replaces it. -/
structure Secret where
  pattern : Pattern Nat
  replacement : Match Nat → Text

def isAlphanumeric (c : Nat) : Bool := isLetter c || isDigit c

/-- An access token. -/
def accessToken : Secret where
  pattern :=
    .seq (.boundary (isWord python)) <| .seq (exactly "hf_") <|
      .many 4 fun c => isAlphanumeric c || oneOf "_" c
  replacement _ := redactedToken

def isTokenChar (c : Nat) : Bool := isAlphanumeric c || oneOf "_-" c

def jsonWebToken : Secret where
  pattern :=
    .seq (.boundary (isWord python)) <| .seq (exactly "eyJ") <|
      .seq (.many 4 isTokenChar) <| .seq (exactly ".") <|
        .seq (.many 4 isTokenChar) <| .seq (exactly ".") (.many 0 isTokenChar)
  replacement _ := redactedToken

def authorization : Secret where
  pattern :=
    .seq (.boundary (isWord python)) <|
      .seq (.group (.either (ignoringCase "bearer") (ignoringCase "basic"))) <|
        .seq (.many 1 isSpace) <|
          .many 1 fun c => isAlphanumeric (fold c) || oneOf "._~+/=-" c
  replacement found := found.group ++ points " " ++ redactedToken

def isNameChar (c : Nat) : Bool := isAlphanumeric (fold c) || oneOf "_-" c

def credentialWord : Pattern Nat :=
  anyOf
    [ignoringCase "authorization", ignoringCase "token", ignoringCase "secret",
      ignoringCase "password", ignoringCase "passwd",
      ignoringCase "signature", ignoringCase "credential",
      .seq (ignoringCase "api") <|
        .seq (.either (.one (oneOf "_-")) .empty) (ignoringCase "key")]

def isValueChar (c : Nat) : Bool :=
  !(isSpace c || oneOf ",;)]\x7d" c || c == doubleQuote || c == apostrophe)

/-- A value under a name that says that it is a credential. -/
def namedCredential : Secret where
  pattern :=
    .seq (.boundary (isWord python)) <|
      .seq (.group (.seq (.many 0 isNameChar) <|
        .seq credentialWord (.many 0 isNameChar))) <|
          .seq (.many 0 isSpace) <| .seq (.one (oneOf ":=")) <|
            .seq (.many 0 isSpace) (.many 1 isValueChar)
  replacement found := found.group ++ points "=" ++ redacted

/-- `SECRET_PATTERNS` -/
def secretPatterns : List Secret :=
  [accessToken python, jsonWebToken python, authorization python,
    namedCredential python]

/-! ## Texts -/

/-- `str.split` -/
def words : Text → List Text
  | [] => []
  | c :: rest =>
      if isSpace c then words rest
      else if rest.head?.all isSpace then [c] :: words rest
      else match words rest with
        | word :: later => (c :: word) :: later
        | [] => [[c]]

def rewrite (text : Text) (secret : Secret) : Text :=
  secret.pattern.sub secret.replacement text

/-- `sanitized_text`, up to the truncation. -/
def cleaned (text : Text) : Text :=
  let text := (urlPattern python).sub (redactedUrl python) text
  let text := (secretPatterns python).foldl rewrite text
  let text := text.map fun c => if python.printable c then c else ' '.toNat
  (points " ").intercalate (words text)

/-- `sanitized_text` of what `str` makes of a value. -/
def sanitizedText (limit : Nat) (text : Text) : Text :=
  let text := cleaned python text
  if limit < text.length then
    (text.take limit).rdropWhile isSpace ++ truncationMarker
  else text

/-! ## Events -/

/-- An exception in a chain: which one, the name of its type and its text. -/
structure Link where
  id : Nat
  name : Text
  text : Text

/-- The loop of `failure_message` over an exception and what caused it. -/
def failureParts : List Nat → List Text → List Link → List Text
  | _, parts, [] => parts
  | seen, parts, current :: rest =>
      if parts.length < causeDepth ∧ current.id ∉ seen then
        let name := sanitizedText python exceptionNameLimit current.name
        let detail := sanitizedText python messageLimit current.text
        let part :=
          if detail ≠ [] then name ++ points ": " ++ detail else name
        failureParts (current.id :: seen) (parts ++ [part]) rest
      else parts

/-- `failure_message` -/
def failureMessage (chain : List Link) : Text :=
  sanitizedText python messageLimit
    ((points " caused by ").intercalate (failureParts python [] [] chain))

/-- What an exception is, as far as it is classified. -/
structure ErrorKind where
  gated : Bool
  notFound : Bool
  hubHttp : Bool
  /-- The status of the response, where it is a number. -/
  status : Option Int
  connection : Bool

/-- `failure_class` -/
def failureClass (error : ErrorKind) : HelperFailureClass :=
  let placed :=
    if error.connection then .unavailable else .clientFailure
  if error.gated then .unauthorized
  else if error.notFound then .notFound
  else if !error.hubHttp then placed
  else match error.status with
    | none => placed
    | some status =>
        if status = 404 then .notFound
        else if status = 401 ∨ status = 403 then .unauthorized
        else if status = 429 then .rateLimited
        else if 500 ≤ status ∧ status ≤ 599 then .unavailable
        else .clientFailure

structure FailureEvent where
  version : Nat
  failureClass : HelperFailureClass
  exception : Text
  message : Text

/-- `failure_event` of an exception and of what caused it. -/
def failureEvent (kind : ErrorKind) (error : Link) (causes : List Link) :
    FailureEvent where
  version := 1
  failureClass := failureClass kind
  exception := sanitizedText python exceptionNameLimit error.name
  message := failureMessage python (error :: causes)

end interpreter

end Redaction
end Fetcher
end ModelKeep
