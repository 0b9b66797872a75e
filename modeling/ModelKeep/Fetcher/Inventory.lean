import ModelKeep.Extension
import ModelKeep.Upstream

/-!
# What the fetch helper selects

The helper filters what upstream lists at a commit by the patterns of a
selection, in the way the official client matches them: separators are
normalized, a trailing slash stands for everything below, and the rest is
matched like a file name in a shell.
-/

namespace ModelKeep
namespace Fetcher

/-! ## Shell patterns -/

/-- A piece of a shell pattern. -/
inductive Token
  | literal (character : Char)
  /-- `?` -/
  | single
  /-- `*` -/
  | many
  /-- `[...]` and `[!...]` -/
  | oneOf (negated : Bool) (ranges : List (Char × Char))
  deriving DecidableEq

/-- The ranges between two brackets; a character alone is a range. -/
def ranges : List Char → List (Char × Char)
  | low :: '-' :: high :: rest => (low, high) :: ranges rest
  | character :: rest => (character, character) :: ranges rest
  | [] => []

/-- The text up to the bracket that closes a class, and the text after it.  A
bracket that comes first does not close. -/
def closing (text : List Char) : Option (List Char × List Char) :=
  let lead := match text with
    | '!' :: ']' :: _ => 2
    | '!' :: _ => 1
    | ']' :: _ => 1
    | _ => 0
  match (text.drop lead).idxOf? ']' with
  | none => none
  | some length =>
      some (text.take (lead + length), text.drop (lead + length + 1))

def classToken : List Char → Token
  | '!' :: rest => .oneOf true (ranges rest)
  | text => .oneOf false (ranges text)

/-- `fnmatch.translate`, for a pattern of at most `fuel` characters. -/
def translate : Nat → List Char → List Token
  | 0, _ => []
  | _, [] => []
  | fuel + 1, '*' :: rest => .many :: translate fuel rest
  | fuel + 1, '?' :: rest => .single :: translate fuel rest
  | fuel + 1, '[' :: rest =>
      match closing rest with
      | none => .literal '[' :: translate fuel rest
      | some (text, after) => classToken text :: translate fuel after
  | fuel + 1, character :: rest => .literal character :: translate fuel rest

/-- Whether a piece stands for a character. -/
def Token.accepts (token : Token) (character : Char) : Bool :=
  match token with
  | .literal expected => character = expected
  | .single => true
  | .many => false
  | .oneOf negated ranges =>
      negated != ranges.any fun range =>
        range.1 ≤ character && character ≤ range.2

def matchesTokens : List Token → List Char → Bool
  | [], text => text = []
  | .many :: rest, text => text.tails.any (matchesTokens rest)
  | token :: rest, character :: text =>
      token.accepts character && matchesTokens rest text
  | _ :: _, [] => false

/-- `fnmatch.fnmatchcase` -/
def fnmatchcase (name pattern : String) : Bool :=
  matchesTokens (translate pattern.toList.length pattern.toList) name.toList

theorem translate_literal
    {character : Char}
    (noStar : character ≠ '*')
    (noMark : character ≠ '?')
    (noClass : character ≠ '[')
    (fuel : Nat)
    (rest : List Char) :
    translate (fuel + 1) (character :: rest) =
      .literal character :: translate fuel rest := by
  rw [translate]
  · exact noStar
  · exact noMark
  · exact noClass

/-- A pattern without special characters matches itself alone. -/
theorem matchesTokens_plain
    (pattern : List Char)
    (plain : ∀ character ∈ pattern,
      character ≠ '*' ∧ character ≠ '?' ∧ character ≠ '[')
    (text : List Char) :
    matchesTokens (translate pattern.length pattern) text = true ↔
      text = pattern := by
  induction pattern generalizing text with
  | nil => simp [translate, matchesTokens]
  | cons character rest inductionHypothesis =>
      obtain ⟨⟨noStar, noMark, noClass⟩, others⟩ :=
        List.forall_mem_cons.mp plain
      rw [List.length_cons, translate_literal noStar noMark noClass]
      cases text with
      | nil => simp [matchesTokens]
      | cons next text =>
          simp [matchesTokens, Token.accepts, inductionHypothesis others]

theorem fnmatchcase_plain
    {name pattern : String}
    (plain : ∀ character ∈ pattern.toList,
      character ≠ '*' ∧ character ≠ '?' ∧ character ≠ '[') :
    fnmatchcase name pattern = true ↔ name = pattern := by
  unfold fnmatchcase
  rw [matchesTokens_plain _ plain, String.toList_inj]

/-! ## The helper -/

/-- `str(path).replace("\\", "/")` -/
def withSlashes (path : String) : String :=
  String.ofList (path.toList.map fun character =>
    if character = '\\' then '/' else character)

/-- `normalized_pattern` -/
def normalizedPattern (pattern : String) : String :=
  if (withSlashes pattern).toList.getLast? = some '/' then
    withSlashes pattern ++ "*"
  else
    withSlashes pattern

/-- `selected` -/
def selected (path : String) (included excluded : List String) : Bool :=
  let path := withSlashes path
  (included.isEmpty ||
      included.any fun pattern =>
        fnmatchcase path (normalizedPattern pattern)) &&
    !excluded.any fun pattern => fnmatchcase path (normalizedPattern pattern)

/-- `Path(path).parts` -/
def pathParts (path : String) : List String :=
  (if startsWith path "/" then ["/"] else []) ++ plainComponents path

/-- The loop of `repository_file_metadata`.  A path without parts ends it with
an exception. -/
def reportable : List String → Option (List String)
  | [] => some []
  | path :: rest =>
      if path = "" ∨ ".cache" ∈ pathParts path then
        reportable rest
      else
        match pathParts path with
        | [] => none
        | first :: _ =>
            if startsWith first ".modelkeep-" then reportable rest
            else (reportable rest).map (path :: ·)

/-- The paths that `repository_file_metadata` lists. -/
def repositoryFileMetadata (siblings : List String) : Option (List String) :=
  (reportable siblings).map sortPaths

/-- The paths of `expected_files`. -/
def expectedFiles (siblings included excluded : List String) :
    Option (List String) :=
  (repositoryFileMetadata siblings).map fun paths =>
    paths.filter fun path => selected path included excluded

/-- The inventory of a commit. -/
def inventory (commit : String) (siblings : List String)
    (request : InventoryRequest) : Option RevisionInventory :=
  (expectedFiles siblings request.files request.exclude).map fun files =>
    ⟨commit, files⟩

theorem withSlashes_of_plain
    {path : String}
    (plain : '\\' ∉ path.toList) :
    withSlashes path = path := by
  unfold withSlashes
  apply String.toList_inj.mp
  rw [String.toList_ofList]
  apply List.map_congr_left _ |>.trans (List.map_id _)
  intro character member
  rw [if_neg]
  · rfl
  · rintro rfl
    exact plain member

/-- A pattern that the helper takes as it is spelled. -/
theorem normalizedPattern_eq
    {pattern : String}
    (plain : '\\' ∉ pattern.toList)
    (concrete : pattern.toList.getLast? ≠ some '/') :
    normalizedPattern pattern = pattern := by
  have same : withSlashes pattern = pattern := withSlashes_of_plain plain
  unfold normalizedPattern
  rw [same, if_neg concrete]

/-- Included paths are compared with slashes for backslashes. -/
theorem selected_of_plain
    {included : List String}
    (nonempty : included ≠ [])
    (plain : ∀ pattern ∈ included, ∀ character ∈ pattern.toList,
      character ≠ '*' ∧ character ≠ '?' ∧ character ≠ '[' ∧
        character ≠ '\\')
    (concrete : ∀ pattern ∈ included, pattern.toList.getLast? ≠ some '/')
    (path : String) :
    selected path included [] = true ↔ withSlashes path ∈ included := by
  have compared : ∀ pattern ∈ included,
      (fnmatchcase (withSlashes path) (normalizedPattern pattern) = true ↔
        withSlashes path = pattern) := by
    intro pattern member
    have fine := plain pattern member
    rw [normalizedPattern_eq (fun slash => (fine _ slash).2.2.2 rfl)
      (concrete pattern member)]
    exact fnmatchcase_plain fun character present =>
      ⟨(fine character present).1, (fine character present).2.1,
        (fine character present).2.2.1⟩
  unfold selected
  have some : included.isEmpty = false := by
    rw [List.isEmpty_eq_false_iff]
    exact nonempty
  simp only [some, Bool.false_or, List.any_nil, Bool.not_false,
    Bool.and_true, List.any_eq_true]
  constructor
  · rintro ⟨pattern, member, matched⟩
    rw [(compared pattern member).mp matched]
    exact member
  · intro member
    exact ⟨_, member, (compared _ member).mpr rfl⟩

theorem selected_all (path : String) : selected path [] [] = true := rfl

end Fetcher
end ModelKeep
